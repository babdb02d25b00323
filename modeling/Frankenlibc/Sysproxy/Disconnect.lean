import Frankenlibc.Sysproxy.Sendlock

/-!
# Who may be left asleep by a disconnect

An exec waits on `spc_cv` until the other references are gone, and is woken by
the `spcrelease` that drops the last of them, if `spc_inexec` is set. The
`memset` of a disconnect clears that flag, and the status of the lock for
sending with it, without waking anybody. A run strands nobody iff none of its
`memset`s meets an unsignalled sender and no `spcrelease` that should wake an
exec finds the flag cleared.
-/
namespace Frankenlibc.Sysproxy

namespace Conn

open Frankenlibc.Lib

variable {s s' : Conn} {e : Event} {k i : Nat}

/-- Asleep in `serv_handleexec`, with no signal under way. -/
def Pc.execAsleep : Pc → Bool
  | .execwait notified => !notified
  | _ => false

/-- Nobody sleeps on `spc_cv` who has been forgotten. -/
structure Unstranded (s : Conn) : Prop where
  exec : s.refcnt ≤ 2 → ∀ i, (s.pc i).execAsleep = false
  sender : s.state = .dying → s.ostatus = .free → ∀ i, (s.pc i).lockAsleep = false

/-- Some thread is at a place that `f` picks out. -/
def anyAt (f : Pc → Bool) (s : Conn) : Bool := (List.range s.count).any fun i => f (s.pc i)

/-- The steps that forget a sleeper: a `memset` while a sender sleeps
unsignalled, and an `spcrelease` that leaves two references or fewer, without
`spc_inexec`, while an exec does. -/
def strands (s : Conn) : Event → Bool
  | .wipe => s.anyAt Pc.lockAsleep
  | .release _ => !s.inexec && s.refcnt - 1 ≤ 2 && s.anyAt Pc.execAsleep
  | _ => false

theorem anyAt_of_lt {f : Pc → Bool} (hi : i < s.count) (hf : f (s.pc i) = true) :
    s.anyAt f = true :=
  List.any_eq_true.mpr ⟨i, List.mem_range.mpr hi, hf⟩

/-- A sleeper is one of the threads there are. -/
theorem Basic.lt (hb : Basic s) {f : Pc → Bool} (hg : f .gone = false) (hf : f (s.pc i) = true) :
    i < s.count := by
  by_contra hx
  rw [hb.beyond i (Nat.le_of_not_lt hx), hg] at hf
  cases hf

/-- What nobody forgets: an unsignalled sender is announced, and an unsignalled
exec has others to wait for. -/
structure Announced (s : Conn) : Prop where
  sender : ∀ i, (s.pc i).lockAsleep = true → s.ostatus = .wanted
  exec : ∀ i, (s.pc i).execAsleep = true → 2 < s.refcnt

theorem init_announced : Announced init := by
  refine ⟨fun i hi => ?_, fun i hi => ?_⟩
  · replace hi : Pc.lockAsleep (if i = 0 then .idle .loop else .gone) = true := hi
    split at hi <;> cases hi
  · replace hi : Pc.execAsleep (if i = 0 then .idle .loop else .gone) = true := hi
    split at hi <;> cases hi

theorem Announced.unstranded (h : Announced s) : Unstranded s := by
  refine ⟨fun hr i => ?_, fun _ ho i => ?_⟩
  · cases hx : (s.pc i).execAsleep with
    | false => rfl
    | true => exact absurd (h.exec i hx) (Int.not_lt.mpr hr)
  · cases hx : (s.pc i).lockAsleep with
    | false => rfl
    | true => exact absurd ((h.sender i hx).symm.trans ho) (by simp)

/-- `WANTED` is taken away only together with a broadcast, or by the `memset`. -/
theorem Move.announce (h : Move s e s') (ho : s.ostatus = .wanted) (hw : e ≠ .wipe) :
    s'.ostatus = .wanted ∨ ∀ i, i ≠ e.actor → (s'.pc i).lockAsleep = false := by
  have hlock : ∀ {k : Nat} {j : Job} {u : Conn}, u.ostatus = .wanted →
      (sendlockl k j u).ostatus = .wanted := by
    intro k j u hu
    rcases sendlockl_self k j u with ⟨_, _, hwant⟩ | ⟨hf, _⟩
    · exact hwant
    · exact absurd (hu.symm.trans hf) (by simp)
  cases h with
  | send => exact .inl (hlock ho)
  | request => exact .inl (hlock ho)
  | relock => exact .inl (hlock ho)
  | @rewait k b _ =>
    obtain ⟨pc, q, r, he⟩ := waitrespLoop_frame k s
    rw [he]
    exact .inl ho
  | @retest k b _ =>
    obtain ⟨pc, he⟩ := execTest_frame k s
    rw [he]
    exact .inl ho
  | @unlock k n ok j _ _ =>
    refine .inr fun i hi => ?_
    have hik : i ≠ k := hi
    rw [unlock_notify hik ok j n ho]
    exact notify_lockAsleep _
  | @test k _ =>
    obtain ⟨pc, he⟩ := execTest_frame k s
    rw [he]
    exact .inl ho
  | @release k _ =>
    obtain ⟨pc, he⟩ := spcrelease_frame k s
    rw [he]
    exact .inl ho
  | @resp r _ =>
    obtain ⟨pc, rw', he⟩ := kick_frame r s
    rw [he]
    exact .inl ho
  | disco =>
    refine .inr fun i hi => ?_
    have hi0 : i ≠ 0 := hi
    have hnot : (sendunlockl (kickall { s with state := .dying })).pc i =
        ((kickall { s with state := .dying }).pc i).notify := by
      unfold sendunlockl
      rw [if_pos (show (kickall { s with state := .dying }).ostatus = .wanted from ho)]
      rfl
    rw [discoLock, setPc_other hi0, hnot]
    exact notify_lockAsleep _
  | wipe => exact absurd rfl hw
  | _ => exact .inl ho

theorem Roused.execAsleep {p p' : Pc} (h : Roused p p') (ha : p'.execAsleep = true) :
    p.execAsleep = true := by
  cases h with
  | same => exact ha
  | _ => cases ha

theorem calm_execAsleep {p : Pc} (h : p.calm = true) : p.execAsleep = false := by
  cases p <;> first | rfl | cases h

/-- A thread that has just fallen asleep in `sendlockl` has said so. -/
theorem Turn.lockAsleep {p : Pc} (h : Turn s k s' p) (ha : p.lockAsleep = true) :
    s'.ostatus = .wanted := by
  cases h with
  | sleep ho => exact ho
  | calm hp =>
    rw [(calm_held hp).2] at ha
    cases ha
  | _ => cases ha

/-- An exec that has just fallen asleep has others to wait for. -/
theorem Turn.execAsleep {p : Pc} (h : Turn s k s' p) (ha : p.execAsleep = true) :
    2 < s'.refcnt := by
  cases h with
  | drain hr => exact hr
  | calm hp =>
    rw [calm_execAsleep hp] at ha
    cases ha
  | _ => cases ha

theorem notify_execAsleep (p : Pc) : p.notify.execAsleep = false := by
  cases p <;> rfl

theorem spcrelease_pc (hi : i ≠ k) : (spcrelease k s).pc i =
    if s.inexec ∧ s.refcnt - 1 ≤ 2 then (s.pc i).notify else s.pc i := by
  unfold spcrelease
  simp only
  rw [setPc_other hi]
  split <;> rfl

/-- A step that strands nobody keeps everybody announced. -/
theorem Move.announced (h : Move s e s') (hb : Basic s) (ha : Announced s)
    (hs : s.strands e = false) : Announced s' := by
  refine ⟨fun i hi => ?_, fun i hi => ?_⟩
  · by_cases hia : i = e.actor
    · exact (h.turn hb).lockAsleep (hia ▸ hi)
    have hold := (h.held_other hb hia).2 hi
    have hw : e ≠ .wipe := by
      rintro rfl
      have hany := anyAt_of_lt (f := Pc.lockAsleep) (hb.lt (f := Pc.lockAsleep) rfl hold) hold
      exact absurd (hany.symm.trans hs) (by simp)
    rcases h.announce (ha.sender i hold) hw with ho | hnone
    · exact ho
    · rw [hnone i hia] at hi
      cases hi
  · rcases h.thread hb i with ⟨_, ht⟩ | hr | ⟨_, hc⟩
    · exact ht.execAsleep hi
    · have hold := hr.execAsleep hi
      have hmore := ha.exec i hold
      rcases h.keeps.refcnt with ⟨k, rfl, hr⟩ | ⟨_, hr⟩ | ⟨_, _, hr, _⟩
      · cases h with
        | release hpc =>
          by_contra hx
          have hfew : s.refcnt - 1 ≤ 2 := by omega
          have hany := anyAt_of_lt (f := Pc.execAsleep) (hb.lt (f := Pc.execAsleep) rfl hold) hold
          have hin : s.inexec = true := by
            simpa [strands, hfew, hany] using hs
          have hik : i ≠ k := by
            rintro rfl
            rw [spcrelease_self] at hi
            cases hi
          rw [spcrelease_pc hik, if_pos ⟨hin, hfew⟩, notify_execAsleep] at hi
          cases hi
      · omega
      · omega
    · rw [calm_execAsleep hc] at hi
      cases hi

/-- A step that strands somebody shows at once. -/
theorem Move.stranded (h : Move s e s') (hb : Basic s) (hs : s.strands e = true) :
    ¬ Unstranded s' := by
  intro hu
  cases h with
  | wipe hpc =>
    obtain ⟨i, _, hi⟩ := List.any_eq_true.mp hs
    have hi0 : i ≠ 0 := by
      rintro rfl
      rw [hpc] at hi
      cases hi
    have hawake := hu.sender (hb.wipe 0 hpc) rfl i
    rw [discoWipe, setPc_other hi0] at hawake
    exact absurd (hi.symm.trans hawake) (by simp)
  | @release k hpc =>
    simp only [strands, Bool.and_eq_true, Bool.not_eq_true', decide_eq_true_eq] at hs
    obtain ⟨⟨hin, hfew⟩, hany⟩ := hs
    obtain ⟨i, _, hi⟩ := List.any_eq_true.mp hany
    have hik : i ≠ k := by
      rintro rfl
      rw [hpc] at hi
      cases hi
    obtain ⟨pc, he⟩ := spcrelease_frame k s
    have hawake := hu.exec (by rw [he]; exact hfew) i
    rw [spcrelease_pc hik, if_neg (by simp [hin])] at hawake
    exact absurd (hi.symm.trans hawake) (by simp)
  | _ => cases hs

/-- In a run nobody is ever left asleep iff no step forgets a sleeper. -/
theorem disconnect_strands_iff {tr : List (Conn × Event)} (hr : Run step init tr s) :
    ((∀ q ∈ tr, Unstranded q.1) ∧ Unstranded s) ↔ Guarded (fun s e => s.strands e = false) tr := by
  constructor
  · intro hall
    induction hr with
    | nil => exact Guarded.nil _
    | @snoc tr s s' e hrun hs ih =>
      obtain ⟨hpast, hnow⟩ := hall
      have hold : ∀ q ∈ tr, Unstranded q.1 := fun q hq => hpast q (List.mem_append_left _ hq)
      have hlast : Unstranded s := hpast (s, e) (List.mem_append_right _ (List.mem_singleton_self _))
      refine guarded_snoc.mpr ⟨ih ⟨hold, hlast⟩, ?_⟩
      cases hb : s.strands e with
      | false => rfl
      | true => exact absurd hnow ((step_move hs).stranded (run_basic hrun) hb)
  · intro hg
    have hone : ∀ {tr : List (Conn × Event)} {s : Conn}, Run step init tr s →
        Guarded (fun s e => s.strands e = false) tr → Unstranded s := by
      intro tr s hr hg
      have hinv : Basic s ∧ Announced s :=
        Run.invariant (I := fun s => Basic s ∧ Announced s) ⟨init_basic, init_announced⟩
          (fun s e s' hi he hs => ⟨(step_move hs).basic hi.1, (step_move hs).announced hi.1 hi.2 he⟩)
          hr hg
      exact hinv.2.unstranded
    refine ⟨fun q hq => ?_, hone hr hg⟩
    obtain ⟨l, hl, hle⟩ := hr.reaches_mem hq
    exact hone hl (hg.prefix_of hle)

/-- A system call and an exec that waits for it. -/
def callAndExec : List Event := [.shake, .call, .spawn, .execReq, .spawn, .test 2]

/-- The call ends and wakes the exec; the client leaves afterwards. -/
theorem disconnect_strands_iff_woken : ∃ tr s, Run step init tr s ∧ s.state = .dying ∧
    s.pc 2 = .execgo ∧ (∀ q ∈ tr, Unstranded q.1) ∧ Unstranded s := by
  obtain ⟨tr, s, hr, hp⟩ := exists_run (f := step) (s := init)
    (callAndExec ++ [.send 1 [1] true, .push 1 1, .unlock 1 true, .release 1, .wake 2, .disco, .wipe,
      .release 0])
    (p := fun tr s => Guarded (fun s e => s.strands e = false) tr ∧ s.state = .dying ∧
      s.pc 2 = .execgo) (by decide)
  rw [decide_eq_true_eq] at hp
  obtain ⟨hg, hd, hpc⟩ := hp
  exact ⟨tr, s, hr, hd, hpc, (disconnect_strands_iff hr).mpr hg⟩

/-- The client leaves while the exec waits: nobody is left to wake it. -/
theorem disconnect_strands : ∃ tr s, Run step init tr s ∧ s.refcnt = 1 ∧
    s.pc 2 = .execwait false ∧ s.pc 0 = .gone ∧ s.pc 1 = .gone ∧ ¬ Unstranded s := by
  obtain ⟨tr, s, hr, hp⟩ := exists_run (f := step) (s := init)
    (callAndExec ++ [.disco, .wipe, .release 0, .send 1 [1] true, .unlock 1 false, .release 1])
    (p := fun _ s => s.refcnt = 1 ∧ s.pc 2 = .execwait false ∧ s.pc 0 = .gone ∧ s.pc 1 = .gone)
    (by decide)
  rw [decide_eq_true_eq] at hp
  obtain ⟨href, h2, h0, h1⟩ := hp
  refine ⟨tr, s, hr, href, h2, h0, h1, fun hu => ?_⟩
  have hawake := hu.exec (by rw [href]; decide) 2
  rw [h2] at hawake
  cases hawake

end Conn

end Frankenlibc.Sysproxy

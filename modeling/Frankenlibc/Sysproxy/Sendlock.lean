import Frankenlibc.Sysproxy.Moves

/-!
# The lock for sending

`spc_ostatus` says whether a thread is between `sendlockl` and `sendunlockl`,
and whether another has asked. A thread that goes to sleep leaves `WANTED`
behind, only the thread with the lock takes that away, and it wakes everybody
when it does: so an unsignalled sleeper is always announced. That one thread at
a time sends makes the wire the frames of the tenures one after the other, each
in one piece.
-/
namespace Frankenlibc.Sysproxy

namespace Conn

open Frankenlibc.Lib

variable {s s' : Conn} {e : Event} {k i : Nat}

/-- The frame a thread is sending and how many bytes of it are out. -/
def Pc.held : Pc → Option (Job × Nat)
  | .sending j n => some (j, n)
  | _ => none

/-- Asleep in `sendlockl`, with no signal under way. -/
def Pc.lockAsleep : Pc → Bool
  | .lockwait notified _ => !notified
  | _ => false

/-- What the tenures that are over have sent. -/
def sent (s : Conn) : List UInt8 := (s.tenures.map Tenure.sent).flatten

theorem Roused.held {p p' : Pc} (h : Roused p p') : p'.held = p.held := by
  cases h <;> rfl

theorem Roused.lockAsleep {p p' : Pc} (h : Roused p p') (ha : p'.lockAsleep = true) :
    p.lockAsleep = true := by
  cases h with
  | same => exact ha
  | _ => cases ha

theorem calm_held {p : Pc} (h : p.calm = true) : p.held = none ∧ p.lockAsleep = false := by
  cases p <;> first | exact ⟨rfl, rfl⟩ | cases h

structure Locked (s : Conn) : Prop where
  unique : ∀ i j, (s.pc i).held ≠ none → (s.pc j).held ≠ none → i = j
  free : s.ostatus = .free ↔ ∀ i, (s.pc i).held = none
  wanted : ∀ i, (s.pc i).lockAsleep = true → s.ostatus = .wanted
  holder : ∀ i j n, (s.pc i).held = some (j, n) →
    n ≤ j.frame.length ∧ s.wire = s.sent ++ j.frame.take n
  idle : (∀ i, (s.pc i).held = none) → s.wire = s.sent
  tenures : ∀ t ∈ s.tenures, t.sent <+: t.frame ∧ (t.ok = true → t.sent = t.frame)

theorem init_locked : Locked init := by
  have hheld : ∀ i, (init.pc i).held = none := by
    intro i
    show Pc.held (if i = 0 then .idle .loop else .gone) = none
    split <;> rfl
  refine ⟨fun i _ hi => absurd (hheld i) hi, ⟨fun _ => hheld, fun _ => rfl⟩, fun i hi => ?_,
    fun i j n hi => ?_, fun _ => rfl, fun t ht => ?_⟩
  · replace hi : Pc.lockAsleep (if i = 0 then .idle .loop else .gone) = true := hi
    split at hi <;> cases hi
  · rw [hheld] at hi
    cases hi
  · cases ht

/-- The threads that do not move keep what they hold, and nobody of them falls
asleep. -/
theorem Move.held_other (h : Move s e s') (hb : Basic s) (hi : i ≠ e.actor) :
    (s'.pc i).held = (s.pc i).held ∧
      ((s'.pc i).lockAsleep = true → (s.pc i).lockAsleep = true) := by
  rcases h.thread hb i with ⟨ha, _⟩ | hr | ⟨hg, hc⟩
  · exact absurd ha hi
  · exact ⟨hr.held, hr.lockAsleep⟩
  · obtain ⟨hn, hs⟩ := calm_held hc
    rw [hn, hs, hg]
    exact ⟨rfl, fun hx => by cases hx⟩

/-- Nobody gets the lock or lets go of it. -/
theorem Locked.same (hl : Locked s) (hheld : ∀ i, (s'.pc i).held = (s.pc i).held)
    (hfree : s'.ostatus = .free ↔ s.ostatus = .free)
    (hwanted : ∀ i, (s'.pc i).lockAsleep = true → s'.ostatus = .wanted)
    (hw : s'.wire = s.wire) (ht : s'.tenures = s.tenures) : Locked s' := by
  have hsent : s'.sent = s.sent := by rw [sent, sent, ht]
  refine ⟨fun i j hi hj => ?_, ?_, hwanted, fun i j n hi => ?_, fun hnone => ?_, ?_⟩
  · rw [hheld] at hi hj
    exact hl.unique i j hi hj
  · simp only [hheld]
    exact hfree.trans hl.free
  · rw [hw, hsent]
    rw [hheld] at hi
    exact hl.holder i j n hi
  · rw [hw, hsent]
    simp only [hheld] at hnone
    exact hl.idle hnone
  · rw [ht]
    exact hl.tenures

/-- A thread without the lock moves and does not touch it. -/
theorem Locked.apart (hl : Locked s) (h : Move s e s') (hb : Basic s)
    (hold : (s.pc e.actor).held = none)
    (hnew : (s'.pc e.actor).held = none ∧ (s'.pc e.actor).lockAsleep = false)
    (ho : s'.ostatus = s.ostatus) (hw : s'.wire = s.wire) (ht : s'.tenures = s.tenures) :
    Locked s' := by
  have hheld : ∀ i, (s'.pc i).held = (s.pc i).held := by
    intro i
    by_cases hi : i = e.actor
    · rw [hi, hnew.1, hold]
    · exact (h.held_other hb hi).1
  refine hl.same hheld (by rw [ho]) (fun i hi => ?_) hw ht
  rw [ho]
  by_cases hia : i = e.actor
  · rw [hia, hnew.2] at hi
    cases hi
  · exact hl.wanted i ((h.held_other hb hia).2 hi)

/-- A thread without the lock asks for it. -/
theorem Locked.lock (hl : Locked s) (h : Move s e s') (hb : Basic s)
    (hold : (s.pc e.actor).held = none) {j : Job}
    (hnew : s.ostatus ≠ .free ∧ s'.pc e.actor = .lockwait false j ∧ s'.ostatus = .wanted ∨
      s.ostatus = .free ∧ s'.pc e.actor = .sending j 0 ∧ s'.ostatus = .busy)
    (hw : s'.wire = s.wire) (ht : s'.tenures = s.tenures) : Locked s' := by
  have hsent : s'.sent = s.sent := by rw [sent, sent, ht]
  rcases hnew with ⟨hbusy, hpc, ho⟩ | ⟨hfree, hpc, ho⟩
  · have hheld : ∀ i, (s'.pc i).held = (s.pc i).held := by
      intro i
      by_cases hi : i = e.actor
      · rw [hi, hpc, hold]
        rfl
      · exact (h.held_other hb hi).1
    refine hl.same hheld ?_ (fun _ _ => ho) hw ht
    rw [ho]
    exact ⟨fun hx => absurd hx (by simp), fun hx => absurd hx hbusy⟩
  · have hnone := hl.free.mp hfree
    have hother : ∀ i, i ≠ e.actor → (s'.pc i).held = none := by
      intro i hi
      rw [(h.held_other hb hi).1]
      exact hnone i
    have hself : (s'.pc e.actor).held = some (j, 0) := by
      rw [hpc]
      rfl
    have hactor : ∀ i, (s'.pc i).held ≠ none → i = e.actor := by
      intro i hi
      by_contra hne
      exact hi (hother i hne)
    refine ⟨fun i j hi hj => (hactor i hi).trans (hactor j hj).symm, ?_, fun i hi => ?_,
      fun i j' n hi => ?_, fun hx => ?_, ?_⟩
    · rw [ho]
      refine ⟨fun hx => absurd hx (by simp), fun hx => ?_⟩
      have := hx e.actor
      rw [hself] at this
      cases this
    · by_cases hia : i = e.actor
      · rw [hia, hpc] at hi
        cases hi
      · have := hl.wanted i ((h.held_other hb hia).2 hi)
        rw [hfree] at this
        cases this
    · have hia := hactor i (by rw [hi]; simp)
      rw [hia, hself] at hi
      cases hi
      rw [hw, hsent, List.take_zero, List.append_nil]
      exact ⟨Nat.zero_le _, hl.idle hnone⟩
    · have := hx e.actor
      rw [hself] at this
      cases this
    · rw [ht]
      exact hl.tenures

/-- The thread with the lock hands more of its frame to the host. -/
theorem Locked.push (hl : Locked s) {j : Job} {m n : Nat} (hpc : s.pc k = .sending j m)
    (hn : m + n ≤ j.frame.length) : Locked
      { setPc k (.sending j (m + n)) s with wire := s.wire ++ (j.frame.drop m).take n } := by
  have hk : (s.pc k).held = some (j, m) := by
    rw [hpc]
    rfl
  have hnone : ∀ i, (Function.update s.pc k (.sending j (m + n)) i).held = none ↔
      (s.pc i).held = none := by
    intro i
    by_cases hi : i = k
    · rw [hi, Function.update_self, hk]
      simp [Pc.held]
    · rw [Function.update_of_ne hi]
  refine ⟨fun a b ha hb => ?_, ?_, fun i hi => ?_, fun i j' n' hi => ?_, fun hx => ?_, hl.tenures⟩
  · exact hl.unique a b (fun hx => ha ((hnone a).mpr hx)) (fun hx => hb ((hnone b).mpr hx))
  · exact hl.free.trans (forall_congr' fun i => (hnone i).symm)
  · replace hi : (Function.update s.pc k (.sending j (m + n)) i).lockAsleep = true := hi
    by_cases hik : i = k
    · rw [hik, Function.update_self] at hi
      cases hi
    · rw [Function.update_of_ne hik] at hi
      exact hl.wanted i hi
  · replace hi : (Function.update s.pc k (.sending j (m + n)) i).held = some (j', n') := hi
    have hik : i = k := by
      refine hl.unique i k (fun hx => ?_) (by rw [hk]; simp)
      rw [(hnone i).mpr hx] at hi
      cases hi
    rw [hik, Function.update_self] at hi
    cases hi
    refine ⟨hn, ?_⟩
    show s.wire ++ (j.frame.drop m).take n = s.sent ++ j.frame.take (m + n)
    rw [(hl.holder k j m hk).2, List.append_assoc, ← List.take_add]
  · exact absurd ((hnone k).mp (hx k)) (by rw [hk]; simp)

/-- The thread with the lock lets it go. -/
theorem Locked.unlock (hl : Locked s) (h : Move s e s') (hb : Basic s) {j : Job} {n : Nat} {ok : Bool}
    (hpc : s.pc e.actor = .sending j n) (hok : ok = decide (n = j.frame.length))
    (hnew : (s'.pc e.actor).held = none ∧ (s'.pc e.actor).lockAsleep = false)
    (hrouse : s.ostatus = .wanted → ∀ i, i ≠ e.actor → (s'.pc i).lockAsleep = false)
    (ho : s'.ostatus = .free) (hw : s'.wire = s.wire)
    (ht : s'.tenures = s.tenures ++ [⟨j.frame, j.frame.take n, ok⟩]) : Locked s' := by
  have hk : (s.pc e.actor).held = some (j, n) := by
    rw [hpc]
    rfl
  have hnone : ∀ i, (s'.pc i).held = none := by
    intro i
    by_cases hi : i = e.actor
    · rw [hi]
      exact hnew.1
    · rw [(h.held_other hb hi).1]
      by_contra hx
      exact hi (hl.unique i e.actor hx (by rw [hk]; simp))
  have hsent : s'.sent = s.sent ++ j.frame.take n := by
    rw [sent, ht, List.map_append, List.flatten_append]
    exact congrArg _ (List.append_nil _)
  obtain ⟨hle, hwire⟩ := hl.holder e.actor j n hk
  refine ⟨fun i j hi => absurd (hnone i) hi, ⟨fun _ => hnone, fun _ => ho⟩, fun i hi => ?_,
    fun i j n hi => ?_, fun _ => ?_, fun t htt => ?_⟩
  · by_cases hia : i = e.actor
    · rw [hia, hnew.2] at hi
      cases hi
    · have hwant := hl.wanted i ((h.held_other hb hia).2 hi)
      rw [hrouse hwant i hia] at hi
      cases hi
  · rw [hnone] at hi
    cases hi
  · rw [hw, hsent]
    exact hwire
  · rw [ht] at htt
    rcases List.mem_append.mp htt with hold | hlast
    · exact hl.tenures t hold
    · obtain rfl := List.mem_singleton.mp hlast
      refine ⟨List.take_prefix _ _, fun hx => ?_⟩
      have hlen : n = j.frame.length := by simpa [hok] using hx
      exact List.take_of_length_le (Nat.le_of_eq hlen.symm)

theorem after_held {p : Pc} {last : Bool} {next : Place} (h : after p last = some next) :
    p.held = none := by
  cases p with
  | sending => cases h
  | _ => rfl

theorem notify_lockAsleep (p : Pc) : p.notify.lockAsleep = false := by
  cases p <;> rfl

/-- Who lets the lock go while it is wanted wakes everybody. -/
theorem unlock_notify (hi : i ≠ k) (ok : Bool) (j : Job) (n : Nat) (ho : s.ostatus = .wanted) :
    (Conn.unlock k ok j n s).pc i = (s.pc i).notify := by
  have hs : (sendunlockl { s with
      tenures := s.tenures ++ [⟨j.frame, j.frame.take n, ok⟩] }).pc i = (s.pc i).notify := by
    unfold sendunlockl
    rw [if_pos ho]
    rfl
  unfold Conn.unlock
  simp only
  split
  · split
    · rw [waitrespLoop_other hi]
      exact hs
    · rw [setPc_other hi]
      exact hs
  · rw [setPc_other hi]
    exact hs

/-- A step that does not begin the disconnect keeps the lock in order. -/
theorem Move.locked (h : Move s e s') (hb : Basic s) (hl : Locked s) (hd : s'.state ≠ .dying) :
    Locked s' := by
  have hat : ∀ {p : Pc}, p.held = none ∧ p.lockAsleep = false → s'.pc e.actor = p →
      (s'.pc e.actor).held = none ∧ (s'.pc e.actor).lockAsleep = false := by
    intro p hp hpc
    rw [hpc]
    exact hp
  cases id h with
  | @send k frame last next ha =>
    obtain ⟨pc, o, he, -⟩ := sendlockl_frame k ⟨frame, false, next⟩ s
    exact hl.lock h hb (after_held ha) (sendlockl_self k ⟨frame, false, next⟩ s) (by rw [he])
      (by rw [he])
  | @request k type body hpc =>
    obtain ⟨pc, o, he, -⟩ :=
      sendlockl_frame k ⟨reqFrame s.nextreq type body, true, .syscall⟩ (putwait k s)
    exact hl.lock h hb (congrArg Pc.held hpc) (sendlockl_self k _ (putwait k s)) (by rw [he]; rfl)
      (by rw [he]; rfl)
  | number hpc =>
    exact hl.apart h hb (congrArg Pc.held hpc) (hat ⟨rfl, rfl⟩ hpc) rfl rfl rfl
  | @relock k b j hpc =>
    obtain ⟨pc, o, he, -⟩ := sendlockl_frame k j s
    exact hl.lock h hb (congrArg Pc.held hpc) (sendlockl_self k j s) (by rw [he]) (by rw [he])
  | @rewait k b hpc =>
    obtain ⟨pc, q, r, he⟩ := waitrespLoop_frame k s
    refine hl.apart h hb (congrArg Pc.held hpc) ?_ (by rw [he]) (by rw [he]) (by rw [he])
    rcases waitrespLoop_self k s with ⟨_, _, hp⟩ | hp
    · exact hat ⟨rfl, rfl⟩ hp
    · exact hat ⟨rfl, rfl⟩ hp
  | @retest k b hpc =>
    obtain ⟨pc, he⟩ := execTest_frame k s
    refine hl.apart h hb (congrArg Pc.held hpc) ?_ (by rw [he]) (by rw [he]) (by rw [he])
    rcases execTest_self k s with ⟨_, hp⟩ | hp
    · exact hat ⟨rfl, rfl⟩ hp
    · exact hat ⟨rfl, rfl⟩ hp
  | push hpc hn => exact hl.push hpc hn
  | @unlock k n ok j hpc hok =>
    obtain ⟨pc, q, r, he⟩ := unlock_frame k ok j n s
    refine hl.unlock h hb hpc hok ?_ (fun ho i hi => ?_) (by rw [he]) (by rw [he]) (by rw [he])
    · rcases unlock_self k ok j n s with ⟨_, _, _, _, hp⟩ | ⟨p, hp⟩
      · exact hat ⟨rfl, rfl⟩ hp
      · exact hat ⟨rfl, rfl⟩ hp
    · have hik : i ≠ k := hi
      rw [unlock_notify hik ok j n ho]
      exact notify_lockAsleep _
  | @test k hpc =>
    obtain ⟨pc, he⟩ := execTest_frame k s
    refine hl.apart h hb (congrArg Pc.held hpc) ?_ (by rw [he]) (by rw [he]) (by rw [he])
    rcases execTest_self k s with ⟨_, hp⟩ | hp
    · exact hat ⟨rfl, rfl⟩ hp
    · exact hat ⟨rfl, rfl⟩ hp
  | clear hpc => exact hl.apart h hb (congrArg Pc.held hpc) (hat ⟨rfl, rfl⟩ (setPc_self ..)) rfl rfl rfl
  | @release k hpc =>
    obtain ⟨pc, he⟩ := spcrelease_frame k s
    exact hl.apart h hb (congrArg Pc.held hpc) (hat ⟨rfl, rfl⟩ (spcrelease_self ..)) (by rw [he])
      (by rw [he]) (by rw [he])
  | @resp r hpc =>
    obtain ⟨pc, rw', he⟩ := kick_frame r s
    refine hl.apart h hb (congrArg Pc.held hpc) ?_ (by rw [he]) (by rw [he]) (by rw [he])
    have hr := kick_pc r s 0
    rw [hpc] at hr
    generalize hq : (kick r s).pc 0 = q at hr
    cases hr
    exact hat ⟨rfl, rfl⟩ hq
  | shake hpc _ => exact hl.apart h hb (congrArg Pc.held hpc) (hat ⟨rfl, rfl⟩ hpc) rfl rfl rfl
  | call hpc => exact hl.apart h hb (congrArg Pc.held hpc) (hat ⟨rfl, rfl⟩ (setPc_self ..)) rfl rfl rfl
  | execReq hpc _ =>
    exact hl.apart h hb (congrArg Pc.held hpc) (hat ⟨rfl, rfl⟩ (setPc_self ..)) rfl rfl rfl
  | @spawn type hpc =>
    exact hl.apart h hb (congrArg Pc.held hpc) (hat ⟨rfl, rfl⟩ (hire_server hb.pos type)) rfl rfl rfl
  | nomem hpc => exact hl.apart h hb (congrArg Pc.held hpc) (hat ⟨rfl, rfl⟩ (setPc_self ..)) rfl rfl rfl
  | disco =>
    obtain ⟨pc, he⟩ := discoLock_frame s
    exact absurd (by rw [he]) hd
  | wipe hpc => exact absurd (h.keeps.state.mpr (.inl (hb.wipe 0 hpc))) hd

/-- What the lock promises: one thread at a time, a status that says whether
there is one, nobody asleep at a free lock, and frames in one piece. -/
structure SendLock (s : Conn) : Prop where
  unique : ∀ i j, (s.pc i).held ≠ none → (s.pc j).held ≠ none → i = j
  free : s.ostatus = .free ↔ ∀ i, (s.pc i).held = none
  awake : s.ostatus = .free → ∀ i, (s.pc i).lockAsleep = false
  wire : ∃ part, s.wire = s.sent ++ part ∧
    (part = [] ∨ ∃ i j n, s.pc i = .sending j n ∧ part = j.frame.take n)
  whole : ∀ t ∈ s.tenures, t.sent <+: t.frame ∧ (t.ok = true → t.sent = t.frame)

theorem Locked.sendLock (hl : Locked s) : SendLock s := by
  refine ⟨hl.unique, hl.free, fun hf i => ?_, ?_, hl.tenures⟩
  · cases ha : (s.pc i).lockAsleep with
    | false => rfl
    | true =>
      have := hl.wanted i ha
      rw [hf] at this
      cases this
  · by_cases hnone : ∀ i, (s.pc i).held = none
    · exact ⟨[], by rw [List.append_nil]; exact hl.idle hnone, .inl rfl⟩
    · obtain ⟨i, hi⟩ := not_forall.mp hnone
      cases hpc : s.pc i with
      | sending j n =>
        exact ⟨j.frame.take n, (hl.holder i j n (by rw [hpc]; rfl)).2, .inr ⟨i, j, n, hpc, rfl⟩⟩
      | _ =>
        rw [hpc] at hi
        exact absurd rfl hi

/-- As long as the client is there the lock keeps its promise, whoever sends
and in whatever order. -/
theorem send_lock {tr : List (Conn × Event)} (hr : Run step init tr s) :
    (∀ q ∈ tr, q.1.state ≠ .dying → SendLock q.1) ∧ (s.state ≠ .dying → SendLock s) := by
  have hall : ∀ {tr : List (Conn × Event)} {s : Conn}, Run step init tr s →
      s.state ≠ .dying → SendLock s := by
    intro tr s hr hd
    have hinv : Basic s ∧ (s.state ≠ .dying → Locked s) := by
      refine Run.always (I := fun s => Basic s ∧ (s.state ≠ .dying → Locked s))
        ⟨init_basic, fun _ => init_locked⟩ (fun s e s' hi hs => ?_) hr
      have hm := step_move hs
      refine ⟨hm.basic hi.1, fun hd' => hm.locked hi.1 (hi.2 fun hx => ?_) hd'⟩
      exact hd' (hm.keeps.state.mpr (.inl hx))
    exact (hinv.2 hd).sendLock
  refine ⟨fun q hq => ?_, hall hr⟩
  obtain ⟨l, hl, _⟩ := hr.reaches_mem hq
  exact hall hl

/-- Two workers: the second sleeps until the first has sent its frame. -/
def twoSenders : List Event :=
  [.shake, .call, .spawn, .call, .spawn, .send 1 [1, 2, 3] false, .send 2 [4, 5] true, .push 1 2,
    .push 1 1, .unlock 1 true, .wake 2, .push 2 1]

theorem send_lock_two : ∃ tr s, Run step init tr s ∧ s.wire = [1, 2, 3, 4] ∧ SendLock s := by
  obtain ⟨tr, s, hr, hp⟩ := exists_run (f := step) (s := init) twoSenders
    (p := fun _ s => s.state ≠ .dying ∧ s.wire = [1, 2, 3, 4]) (by decide)
  rw [decide_eq_true_eq] at hp
  exact ⟨tr, s, hr, hp.2, (send_lock hr).2 hp.1⟩

end Conn

end Frankenlibc.Sysproxy

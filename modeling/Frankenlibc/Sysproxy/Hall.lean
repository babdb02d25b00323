import Frankenlibc.Sysproxy.Preforks

/-!
# The hand-over of preforks, over whole runs

The clients take turns at one server thread. An event is a frame of some
client, with everything but its state and its main lwp free, since workers
write the rest; or a disconnect, whose last reference is dropped there and then
or later by a worker. The desk is told of the frames only, never of the list.
-/
namespace Frankenlibc.Sysproxy

open Frankenlibc.Lib

/-- What lasts of a client from frame to frame. -/
structure Seat where
  state : SpcState
  mainlwp : Option Lwp
deriving DecidableEq

inductive HallEvent
  /-- A complete frame of client `i`, as `c`, and how the calls it leads to turn out. -/
  | frame (i : Nat) (c : Client) (nworker : Nat) (os : List Outcome)
  /-- `serv_handledisco`; `last` says that it drops the last reference. -/
  | disco (i : Nat) (inexec last : Bool)
  /-- A worker drops the last reference. -/
  | drop (i : Nat)

structure Hall where
  seats : Nat → Seat
  server : Server
  desk : Desk Prefork.auth

namespace Hall

variable {s s' : Hall} {e : HallEvent} {i : Nat} {c : Client} {n : Nat} {os : List Outcome}

/-- Before the first client. -/
def boot : Hall := ⟨fun _ => ⟨.new, none⟩, freshServer, .empty⟩

/-- The server thread turns to a client. -/
def load (s : Hall) (c : Client) (n : Nat) (os : List Outcome) : Server :=
  { s.server with spc := c, nworker := n, script := os }

/-- What the desk is told of a frame. -/
def record (w : Server) (d : Desk Prefork.auth) : Desk Prefork.auth :=
  match grants w with
  | some pf => d.issue pf
  | none =>
    match presents w with
    | some t => d.present t
    | none => d

/-- `spcrelease` of the last reference. -/
def spcreleaseLast (i : Nat) (s : Hall) : Hall :=
  let s := match (s.seats i).mainlwp with
    | some l => { s with server := lwprocRelease (some l) (lwprocSwitch (some l) s.server) }
    | none => s
  { s with seats := Function.update s.seats i ⟨.new, none⟩ }

/-- `serv_handledisco`, up to its `spcrelease`. -/
def handledisco (i : Nat) (inexec : Bool) (s : Hall) : Hall :=
  { s with
    seats := Function.update s.seats i ⟨.dying, (s.seats i).mainlwp⟩
    server := if !inexec && (s.seats i).mainlwp.isSome
      then lwprocSwitch none (lwprocSwitch (s.seats i).mainlwp s.server) else s.server }

def step (s : Hall) : HallEvent → Option Hall
  | .frame i c n os =>
    if c.state = (s.seats i).state ∧ c.mainlwp = (s.seats i).mainlwp ∧ c.state ≠ .dying then
      match dispatch (s.load c n os) with
      | .error _ => none
      | .ok w =>
        if w.script = [] then
          some ⟨Function.update s.seats i ⟨w.spc.state, w.spc.mainlwp⟩, w,
            record (s.load c n os) s.desk⟩
        else none
    else none
  | .disco i inexec last =>
    if (s.seats i).state = .dying then none
    else
      let s := handledisco i inexec s
      some (if last then spcreleaseLast i s else s)
  | .drop i =>
    if (s.seats i).state = .dying then
      let s' := spcreleaseLast i s
      -- another thread's lwp
      some { s' with server := { s'.server with cur := s.server.cur } }
    else none

/-- Every send of the event succeeds. -/
def delivered : HallEvent → Bool
  | .frame _ _ _ os => !os.any fatal
  | _ => true

/-- The event is a fork handshake on an exhausted kernel. -/
def misfire (s : Hall) : HallEvent → Bool
  | .frame _ c n os => misfires (s.load c n os)
  | _ => false

/-! ## What one event does -/

/-- What holds from one state to the next whatever the event. -/
structure Onto (s s' : Hall) : Prop where
  cur : s'.server.cur = none
  fresh : s.server.fresh ≤ s'.server.fresh
  lwps : ∀ l ∈ s'.server.lwps, l.1 < s'.server.fresh
  main : ∀ i l, (s'.seats i).mainlwp = some l →
    ((∃ j, (s.seats j).mainlwp = some l) ∨ s.server.fresh ≤ l) ∧ l < s'.server.fresh
  spare : ∀ l, s'.server.fresh ≤ l → released s'.server l = 0

/-- Releases of the lwps that were issued before. -/
def Owes (s s' : Hall) (due : Lwp → Nat) : Prop :=
  ∀ pf ∈ s.desk.issued,
    released s'.server pf.lwp = released s.server pf.lwp + due pf.lwp

/-- What an event does to the list, the desk and the lwps. -/
inductive Moved (s : Hall) (e : HallEvent) (s' : Hall) : Prop
  | still : s'.desk = s.desk → s'.server.preforks = s.server.preforks →
      Owes s s' (fun _ => 0) → misfire s e = false → Moved s e s'
  | issue (pf : Prefork) : pf.lwp = s.server.fresh → s.server.fresh < s'.server.fresh →
      s'.desk = s.desk.issue pf → s'.server.preforks = pf :: s.server.preforks →
      Owes s s' (fun _ => 0) → released s'.server pf.lwp = 0 →
      (∀ i l, (s'.seats i).mainlwp = some l → ∃ j, (s.seats j).mainlwp = some l) →
      misfire s e = false → Moved s e s'
  | take (t : List UInt8) (pf : Prefork) (k : Nat) : s'.desk = s.desk.present t →
      s.server.preforks.find? (fun pf => pf.auth = t) = some pf →
      s'.server.preforks = s.server.preforks.erase pf →
      Owes s s' (fun l => if l = pf.lwp then k else 0) →
      (k = 1 ∧ misfire s e = false ∨ k = 2 ∧ misfire s e = true) → Moved s e s'

/-- The invariant of the hand-over, misfires or not. -/
structure Sound (s : Hall) : Prop where
  cur : s.server.cur = none
  list : s.server.preforks = s.desk.outstanding
  lwps : ∀ l ∈ s.server.lwps, l.1 < s.server.fresh
  old : ∀ pf ∈ s.desk.issued, pf.lwp < s.server.fresh
  apart : (s.desk.issued.map Prefork.lwp).Nodup
  main : ∀ i l, (s.seats i).mainlwp = some l →
    l < s.server.fresh ∧ ∀ pf ∈ s.desk.issued, pf.lwp ≠ l
  spare : ∀ l, s.server.fresh ≤ l → released s.server l = 0

theorem Sound.known (h : Sound s) : ∀ pf ∈ s.server.preforks, pf.lwp < s.server.fresh := by
  intro pf hpf
  rw [h.list] at hpf
  exact h.old pf (Desk.mem_outstanding.mp hpf).1

theorem Sound.ready (h : Sound s) (hm : c.mainlwp = (s.seats i).mainlwp)
    (hok : os.any fatal = false) : Ready (s.load c n os) :=
  ⟨h.cur, fun l hl => (h.main i l (hm ▸ hl)).1, hok⟩

/-- A frame that does `due` to the lwps. -/
theorem Sound.onto_frame {w : Server} {d : Desk Prefork.auth} {due : Lwp → Nat} (h : Sound s)
    (hm : c.mainlwp = (s.seats i).mainlwp) (hp : Passed (s.load c n os) w due)
    (hcur : w.cur = none) :
    Onto s ⟨Function.update s.seats i ⟨w.spc.state, w.spc.mainlwp⟩, w, d⟩ := by
  refine ⟨hcur, hp.fresh, ?_, ?_, ?_⟩
  · intro l hl
    rcases hp.lwps l hl with hl | ⟨_, hlt⟩
    · exact (h.lwps l hl).trans_le hp.fresh
    · exact hlt
  · intro j l hl
    by_cases hj : j = i
    · subst hj
      simp only [Function.update_self] at hl
      rcases hp.main with hsame | ⟨l', hl', hge, hlt⟩
      · have hl' : (s.seats j).mainlwp = some l := by
          rw [← hm]
          exact hsame.symm.trans hl
        exact ⟨.inl ⟨j, hl'⟩, (h.main j l hl').1.trans_le hp.fresh⟩
      · cases hl'.symm.trans hl
        exact ⟨.inr hge, hlt⟩
    · simp only [Function.update_of_ne hj] at hl
      exact ⟨.inl ⟨j, hl⟩, (h.main j l hl).1.trans_le hp.fresh⟩
  · intro l hl
    exact (hp.bound l hl).trans (h.spare l (hp.fresh.trans hl))

theorem Sound.owes_frame {w : Server} {d : Desk Prefork.auth} {seats : Nat → Seat}
    {due : Lwp → Nat} (h : Sound s) (hm : c.mainlwp = (s.seats i).mainlwp)
    (hp : Passed (s.load c n os) w due) : Owes s ⟨seats, w, d⟩ due := by
  intro pf hpf
  refine hp.spare pf.lwp (h.old pf hpf) fun hc => ?_
  exact (h.main i pf.lwp (hm ▸ hc)).2 pf hpf rfl

theorem grants_lwp {w : Server} {pf : Prefork} (h : grants w = some pf) : pf.lwp = w.fresh := by
  unfold grants at h
  split at h
  · split at h
    · cases h
      rfl
    · cases h
  · cases h

theorem misfires_presents {w : Server} (h : misfires w = true) :
    ∃ t pf, presents w = some t ∧ w.preforks.find? (fun pf => pf.auth = t) = some pf := by
  unfold misfires at h
  simp only [Bool.and_eq_true] at h
  cases hp : presents w with
  | none => simp [hp] at h
  | some t =>
    rw [hp] at h
    obtain ⟨pf, hmem, hauth⟩ := List.any_eq_true.mp h.1.1
    cases hf : w.preforks.find? (fun pf => pf.auth = t) with
    | none => exact absurd hauth (List.find?_eq_none.mp hf pf hmem)
    | some pf' => exact ⟨t, pf', rfl, hf⟩

theorem frame_inv (h : step s (.frame i c n os) = some s') :
    c.mainlwp = (s.seats i).mainlwp ∧ ∃ w, dispatch (s.load c n os) = .ok w ∧
      s' = ⟨Function.update s.seats i ⟨w.spc.state, w.spc.mainlwp⟩, w,
        record (s.load c n os) s.desk⟩ := by
  simp only [step] at h
  split at h
  · rename_i hc
    split at h
    · cases h
    · rename_i w hw
      split at h
      · cases h
        exact ⟨hc.2.1, w, hw, rfl⟩
      · cases h
  · cases h

theorem moved_frame (hs : Sound s) (hok : os.any fatal = false)
    (h : step s (.frame i c n os) = some s') : Onto s s' ∧ Moved s (.frame i c n os) s' := by
  obtain ⟨hm, w, hw, rfl⟩ := frame_inv h
  cases dispatch_handled (hs.ready hm hok) hs.lwps hs.known hw with
  | quiet hg hp hq =>
    refine ⟨hs.onto_frame hm hq.passed hq.cur, .still ?_ hq.preforks
      (hs.owes_frame hm hq.passed) ?_⟩
    · show record (s.load c n os) s.desk = s.desk
      simp only [record, hg]
      cases ht : presents (s.load c n os) with
      | none => rfl
      | some t =>
        refine Desk.present_none ?_
        rw [← hs.list]
        exact (hp t ht).1
    · refine Bool.eq_false_of_not_eq_true fun hmis => ?_
      obtain ⟨t, pf, ht, hf⟩ := misfires_presents hmis
      rw [(hp t ht).1] at hf
      cases hf
  | gave pf hg hp hgave =>
    have hlwp := grants_lwp hg
    refine ⟨hs.onto_frame hm hgave.passed hgave.cur, .issue pf hlwp hgave.fresh ?_ hgave.preforks
      (hs.owes_frame hm hgave.passed) ?_ ?_ ?_⟩
    · show record (s.load c n os) s.desk = _
      simp only [record, hg]
    · rw [hlwp]
      exact hgave.unreleased.trans (hs.spare _ le_rfl)
    · intro j l hl
      by_cases hj : j = i
      · subst hj
        simp only [Function.update_self] at hl
        exact ⟨j, by rw [← hm]; exact hgave.main.symm.trans hl⟩
      · simp only [Function.update_of_ne hj] at hl
        exact ⟨j, hl⟩
    · refine Bool.eq_false_of_not_eq_true fun hmis => ?_
      obtain ⟨t, pf, ht, _⟩ := misfires_presents hmis
      rw [hp] at ht
      cases ht
  | took t pf hg hp hf htook =>
    refine ⟨hs.onto_frame hm htook.passed htook.cur,
      .take t pf (if misfires (s.load c n os) then 2 else 1) ?_ hf htook.preforks
        (hs.owes_frame hm htook.passed) ?_⟩
    · show record (s.load c n os) s.desk = _
      simp only [record, hg, hp]
    · by_cases hmis : misfires (s.load c n os) = true
      · exact .inr ⟨if_pos hmis, hmis⟩
      · exact .inl ⟨if_neg hmis, Bool.eq_false_of_not_eq_true hmis⟩

/-- What the end of a client may do: no lwp but a main lwp is released. -/
structure Closed (s s' : Hall) : Prop where
  desk : s'.desk = s.desk
  cur : s.server.cur = none → s'.server.cur = none
  fresh : s'.server.fresh = s.server.fresh
  preforks : s'.server.preforks = s.server.preforks
  lwps : ∀ l ∈ s'.server.lwps, l ∈ s.server.lwps
  seats : ∀ j l, (s'.seats j).mainlwp = some l → ∃ k, (s.seats k).mainlwp = some l
  released : ∀ l, (∀ k, (s.seats k).mainlwp ≠ some l) →
    Sysproxy.released s'.server l = Sysproxy.released s.server l

theorem Closed.trans {s₁ : Hall} (h : Closed s s₁) (h' : Closed s₁ s') : Closed s s' where
  desk := h'.desk.trans h.desk
  cur hc := h'.cur (h.cur hc)
  fresh := h'.fresh.trans h.fresh
  preforks := h'.preforks.trans h.preforks
  lwps l hl := h.lwps l (h'.lwps l hl)
  seats j l hl := by
    obtain ⟨k, hk⟩ := h'.seats j l hl
    exact h.seats k l hk
  released l hl := by
    refine (h'.released l fun k hk => ?_).trans (h.released l hl)
    obtain ⟨k', hk'⟩ := h.seats k l hk
    exact hl k' hk'

theorem closed_handledisco {inexec : Bool} : Closed s (handledisco i inexec s) := by
  have hseats : ∀ j l, ((handledisco i inexec s).seats j).mainlwp = some l →
      ∃ k, (s.seats k).mainlwp = some l := by
    intro j l hl
    by_cases hj : j = i
    · subst hj
      simp only [handledisco, Function.update_self] at hl
      exact ⟨j, hl⟩
    · simp only [handledisco, Function.update_of_ne hj] at hl
      exact ⟨j, hl⟩
  by_cases hc : (!inexec && (s.seats i).mainlwp.isSome) = true
  · have hserver : (handledisco i inexec s).server = lwprocSwitch none s.server := if_pos hc
    refine ⟨rfl, ?_, ?_, ?_, ?_, hseats, ?_⟩ <;> rw [hserver]
    · exact fun _ => rfl
    · rfl
    · rfl
    · exact fun l hl => hl
    · exact fun l _ => rfl
  · have hserver : (handledisco i inexec s).server = s.server := if_neg hc
    refine ⟨rfl, ?_, ?_, ?_, ?_, hseats, ?_⟩ <;> rw [hserver]
    · exact fun h => h
    · exact fun l hl => hl
    · exact fun l _ => rfl

theorem closed_release : Closed s (spcreleaseLast i s) := by
  have hseats : ∀ j l, ((spcreleaseLast i s).seats j).mainlwp = some l →
      ∃ k, (s.seats k).mainlwp = some l := by
    intro j l hl
    have hs : (spcreleaseLast i s).seats = Function.update s.seats i ⟨.new, none⟩ := by
      unfold spcreleaseLast
      cases (s.seats i).mainlwp <;> rfl
    rw [hs] at hl
    by_cases hj : j = i
    · subst hj
      simp at hl
    · rw [Function.update_of_ne hj] at hl
      exact ⟨j, hl⟩
  cases hm : (s.seats i).mainlwp with
  | none =>
    have heq : (spcreleaseLast i s).server = s.server ∧ (spcreleaseLast i s).desk = s.desk := by
      simp only [spcreleaseLast, hm, and_self]
    refine ⟨heq.2, ?_, ?_, ?_, ?_, hseats, ?_⟩ <;> rw [heq.1]
    · exact fun h => h
    · exact fun l hl => hl
    · exact fun l _ => rfl
  | some l =>
    have heq : (spcreleaseLast i s).server =
        lwprocRelease (some l) (lwprocSwitch (some l) s.server) ∧
          (spcreleaseLast i s).desk = s.desk := by
      simp only [spcreleaseLast, hm, and_self]
    refine ⟨heq.2, ?_, ?_, ?_, ?_, hseats, ?_⟩ <;> rw [heq.1]
    · exact fun _ => rfl
    · rfl
    · rfl
    · exact fun k hk => (List.mem_filter.mp hk).1
    · intro k hk
      rw [released_snoc (u := s.server) rfl, if_neg, Nat.add_zero]
      intro hkl
      exact hk i (hm.trans hkl)

theorem Closed.moved (hs : Sound s) (h : Closed s s') (hmis : misfire s e = false) :
    Onto s s' ∧ Moved s e s' := by
  have hnot : ∀ l, s.server.fresh ≤ l → ∀ k, (s.seats k).mainlwp ≠ some l := fun l hle k hk =>
    absurd (hs.main k l hk).1 (Nat.not_lt.mpr hle)
  refine ⟨⟨h.cur hs.cur, h.fresh.ge, fun l hmem => h.fresh ▸ hs.lwps l (h.lwps l hmem), ?_, ?_⟩,
    .still h.desk h.preforks ?_ hmis⟩
  · intro j l hm
    obtain ⟨k, hk⟩ := h.seats j l hm
    exact ⟨.inl ⟨k, hk⟩, h.fresh ▸ (hs.main k l hk).1⟩
  · intro l hle
    have hle' : s.server.fresh ≤ l := h.fresh ▸ hle
    exact (h.released l (hnot l hle')).trans (hs.spare l hle')
  · intro pf hmem
    exact h.released pf.lwp fun k hk => (hs.main k pf.lwp hk).2 pf hmem rfl

theorem moved_of_step (hs : Sound s) (hok : delivered e = true) (h : step s e = some s') :
    Onto s s' ∧ Moved s e s' := by
  cases e with
  | frame i c n os => exact moved_frame hs (by simpa [delivered] using hok) h
  | disco i inexec last =>
    simp only [step] at h
    split at h
    · cases h
    · cases last with
      | true =>
        cases h
        exact (closed_handledisco.trans closed_release).moved hs rfl
      | false =>
        cases h
        exact closed_handledisco.moved hs rfl
  | drop i =>
    simp only [step] at h
    split at h
    · cases h
      have hc : Closed s (spcreleaseLast i s) := closed_release
      exact Closed.moved hs ⟨hc.desk, id, hc.fresh, hc.preforks, hc.lwps, hc.seats, hc.released⟩ rfl
    · cases h

/-! ## Runs -/

theorem sound_boot : Sound boot where
  cur := rfl
  list := rfl
  lwps l hl := by cases hl
  old pf hpf := by cases hpf
  apart := .nil
  main i l hl := by cases hl
  spare l _ := rfl

/-- A main lwp was not issued before. -/
theorem Sound.main_apart (hs : Sound s) (ho : Onto s s') {l : Lwp}
    (hl : (s'.seats i).mainlwp = some l) :
    l < s'.server.fresh ∧ ∀ pf ∈ s.desk.issued, pf.lwp ≠ l := by
  obtain ⟨hor, hlt⟩ := ho.main i l hl
  refine ⟨hlt, fun pf hmem => ?_⟩
  rcases hor with ⟨j, hj⟩ | hge
  · exact (hs.main j l hj).2 pf hmem
  · exact Nat.ne_of_lt ((hs.old pf hmem).trans_le hge)

theorem Moved.sound (hs : Sound s) (ho : Onto s s') (h : Moved s e s') : Sound s' := by
  cases h with
  | still hd hpf howes _ =>
    refine ⟨ho.cur, ?_, ho.lwps, ?_, hd ▸ hs.apart, ?_, ho.spare⟩
    · rw [hpf, hd, hs.list]
    · intro pf hmem
      exact (hs.old pf (hd ▸ hmem)).trans_le ho.fresh
    · intro i l hl
      rw [hd]
      exact hs.main_apart ho hl
  | issue pf hlwp hfresh hd hpf howes hrel hmain _ =>
    have hnew : pf ∉ s.desk.issued := fun hmem =>
      absurd (hs.old pf hmem) (by rw [hlwp]; exact Nat.lt_irrefl _)
    have hissued : s'.desk.issued = pf :: s.desk.issued := by rw [hd, Desk.issued_issue hnew]
    refine ⟨ho.cur, ?_, ho.lwps, ?_, ?_, ?_, ho.spare⟩
    · rw [hpf, hd, Desk.outstanding_issue hnew, hs.list]
    · rw [hissued]
      refine List.forall_mem_cons.mpr ⟨hlwp ▸ hfresh, fun q hq => ?_⟩
      exact (hs.old q hq).trans_le ho.fresh
    · rw [hissued, List.map_cons, List.nodup_cons]
      refine ⟨fun hmem => ?_, hs.apart⟩
      obtain ⟨q, hq, heq⟩ := List.mem_map.mp hmem
      exact absurd (hs.old q hq) (by rw [heq, hlwp]; exact Nat.lt_irrefl _)
    · intro i l hl
      obtain ⟨j, hj⟩ := hmain i l hl
      refine ⟨(ho.main i l hl).2, ?_⟩
      rw [hissued]
      refine List.forall_mem_cons.mpr ⟨?_, (hs.main j l hj).2⟩
      rw [hlwp]
      exact (Nat.ne_of_lt (hs.main j l hj).1).symm
  | take t pf k hd hf hpf howes hk =>
    rw [hs.list] at hf
    have hissued : s'.desk.issued = s.desk.issued := by rw [hd, Desk.issued_present]
    refine ⟨ho.cur, ?_, ho.lwps, ?_, hissued ▸ hs.apart, ?_, ho.spare⟩
    · rw [hpf, hd, Desk.outstanding_present hf, hs.list]
    · intro q hq
      exact (hs.old q (hissued ▸ hq)).trans_le ho.fresh
    · intro i l hl
      rw [hissued]
      exact hs.main_apart ho hl

/-- The lwp of a prefork has been released once if it was taken, and otherwise
not at all. -/
def Tally (s : Hall) : Prop :=
  ∀ pf ∈ s.desk.issued,
    released s.server pf.lwp = if pf ∈ s.desk.consumed.map Prod.snd then 1 else 0

/-- The lwp of some prefork has been released twice. -/
def Twice (s : Hall) : Prop := ∃ pf ∈ s.desk.issued, 2 ≤ released s.server pf.lwp

theorem Twice.not_tally (h : Twice s) : ¬ Tally s := by
  intro ht
  obtain ⟨pf, hmem, hle⟩ := h
  rw [ht pf hmem] at hle
  split at hle <;> omega

theorem Moved.twice (hs : Sound s) (h : Moved s e s') (ht : Twice s) : Twice s' := by
  obtain ⟨q, hq, hle⟩ := ht
  cases h with
  | still hd _ howes _ => exact ⟨q, hd ▸ hq, (howes q hq).symm ▸ hle⟩
  | issue pf hlwp _ hd _ howes _ _ _ =>
    have hnew : pf ∉ s.desk.issued := fun hmem =>
      absurd (hs.old pf hmem) (by rw [hlwp]; exact Nat.lt_irrefl _)
    refine ⟨q, ?_, (howes q hq).symm ▸ hle⟩
    rw [hd, Desk.issued_issue hnew]
    exact List.mem_cons_of_mem pf hq
  | take t pf k hd _ _ howes _ =>
    refine ⟨q, by rw [hd, Desk.issued_present]; exact hq, ?_⟩
    rw [howes q hq]
    exact hle.trans (Nat.le_add_right _ _)

/-- Other preforks have other lwps. -/
theorem Sound.lwp_inj (hs : Sound s) {p q : Prefork} (hp : p ∈ s.desk.issued)
    (hq : q ∈ s.desk.issued) (h : p.lwp = q.lwp) : p = q :=
  List.inj_on_of_nodup_map hs.apart hp hq h

theorem Moved.tally (hs : Sound s) (h : Moved s e s') (ht : Tally s) :
    misfire s e = false ∧ Tally s' ∨ misfire s e = true ∧ Twice s' := by
  cases h with
  | still hd _ howes hmis =>
    refine .inl ⟨hmis, fun q hq => ?_⟩
    rw [hd] at hq ⊢
    rw [howes q hq, ht q hq, Nat.add_zero]
  | issue pf hlwp _ hd _ howes hrel _ hmis =>
    have hnew : pf ∉ s.desk.issued := fun hmem =>
      absurd (hs.old pf hmem) (by rw [hlwp]; exact Nat.lt_irrefl _)
    refine .inl ⟨hmis, ?_⟩
    rw [Tally, hd, Desk.issued_issue hnew, Desk.consumed_issue]
    refine List.forall_mem_cons.mpr ⟨?_, fun q hq => ?_⟩
    · rw [hrel, if_neg fun hc => hnew (Desk.consumed_issued hc)]
    · rw [howes q hq, ht q hq, Nat.add_zero]
  | take t pf k hd hf _ howes hk =>
    rw [hs.list] at hf
    obtain ⟨⟨hpf, _⟩, hfresh⟩ := Desk.found hf
    have hone : released s'.server pf.lwp = k := by
      have hnow := howes pf hpf
      simpa only [ht pf hpf, if_neg hfresh, if_true, Nat.zero_add] using hnow
    rcases hk with ⟨rfl, hmis⟩ | ⟨rfl, hmis⟩
    · refine .inl ⟨hmis, ?_⟩
      rw [Tally, hd, Desk.issued_present, Desk.consumed_present hf, List.map_cons]
      intro q hq
      by_cases hqp : q = pf
      · subst hqp
        rw [hone, if_pos (List.mem_cons_self ..)]
      · have hne : q.lwp ≠ pf.lwp := fun heq => hqp (hs.lwp_inj hq hpf heq)
        have hnow := howes q hq
        simp only [if_neg hne, Nat.add_zero, ht q hq] at hnow
        rw [hnow]
        simp only [List.mem_cons, hqp, false_or]
    · refine .inr ⟨hmis, pf, ?_, hone.ge⟩
      rw [hd, Desk.issued_present]
      exact hpf

/-- A run without a misfire keeps the tally; any other releases an lwp
twice. -/
theorem run_tally {tr : List (Hall × HallEvent)} (hr : Run step boot tr s)
    (hd : Guarded (fun _ e => delivered e = true) tr) :
    Sound s ∧ (Guarded (fun s e => misfire s e = false) tr ∧ Tally s ∨
      ¬ Guarded (fun s e => misfire s e = false) tr ∧ Twice s) := by
  induction hr with
  | nil => exact ⟨sound_boot, .inl ⟨Guarded.nil _, fun pf hpf => by cases hpf⟩⟩
  | @snoc tr s s' e _ hstep ih =>
    obtain ⟨hd', hok⟩ := guarded_snoc.mp hd
    obtain ⟨hs, hcase⟩ := ih hd'
    obtain ⟨ho, hmoved⟩ := moved_of_step hs hok hstep
    refine ⟨hmoved.sound hs ho, ?_⟩
    rw [guarded_snoc]
    rcases hcase with ⟨hg, ht⟩ | ⟨hg, ht⟩
    · rcases hmoved.tally hs ht with ⟨hmis, ht'⟩ | ⟨hmis, ht'⟩
      · exact .inl ⟨⟨hg, hmis⟩, ht'⟩
      · refine .inr ⟨fun hc => ?_, ht'⟩
        exact absurd (hmis.symm.trans hc.2) (by decide)
    · exact .inr ⟨fun hc => hg hc.1, hmoved.twice hs ht⟩

/-! ## The hand-over -/

/-- The list is what the desk has outstanding; nothing was taken twice, or
under another token; and the lwps are released as they are taken. -/
structure HandedOver (s : Hall) : Prop where
  list : s.server.preforks = s.desk.outstanding
  once : (s.desk.consumed.map Prod.snd).Nodup
  token : ∀ c ∈ s.desk.consumed, c.2 ∈ s.desk.issued ∧ c.2.auth = c.1
  tally : Tally s

/-- A fork handshake with a token that is not outstanding changes neither the
list nor the lwps. -/
def Untouched (s : Hall) (e : HallEvent) : Prop :=
  ∀ i c n os s' t, e = .frame i c n os → step s e = some s' →
    presents (s.load c n os) = some t → (∀ pf ∈ s.desk.outstanding, pf.auth ≠ t) →
    s'.server.preforks = s.server.preforks ∧ s'.server.lwps = s.server.lwps

theorem Sound.untouched (hs : Sound s) (hok : delivered e = true) : Untouched s e := by
  rintro i c n os s' t rfl hstep hp hout
  obtain ⟨hm, w, hw, rfl⟩ := frame_inv hstep
  have hsends : os.any fatal = false := by simpa [delivered] using hok
  cases dispatch_handled (hs.ready hm hsends) hs.lwps hs.known hw with
  | quiet _ hnone hq => exact ⟨hq.preforks, (hnone t hp).2⟩
  | gave pf _ hp' _ =>
    rw [hp'] at hp
    cases hp
  | took t' pf _ hp' hf _ =>
    rw [hp'] at hp
    cases hp
    have hmem : pf ∈ s.server.preforks := List.mem_of_find?_eq_some hf
    rw [hs.list] at hmem
    exact absurd (by simpa using List.find?_some hf) (hout pf hmem)

/-- Over every sequence of frames and disconnects on which all sends succeed,
the preforks are handed over in order exactly if no fork handshake with an
outstanding token finds the kernel without a process and without an lwp. -/
theorem prefork_handover_iff {tr : List (Hall × HallEvent)} (hr : Run step boot tr s)
    (hd : Guarded (fun _ e => delivered e = true) tr) :
    HandedOver s ∧ Guarded Untouched tr ↔ Guarded (fun s e => misfire s e = false) tr := by
  obtain ⟨hs, hcase⟩ := run_tally hr hd
  constructor
  · rintro ⟨hh, _⟩
    rcases hcase with ⟨hg, _⟩ | ⟨_, htwice⟩
    · exact hg
    · exact absurd hh.tally htwice.not_tally
  · intro hg
    rcases hcase with ⟨_, ht⟩ | ⟨hng, _⟩
    · refine ⟨⟨hs.list, s.desk.once, s.desk.known, ht⟩, fun p hp => ?_⟩
      obtain ⟨l, hl, hpre⟩ := hr.reaches_mem hp
      exact (run_tally hl (hd.prefix_of hpre)).1.untouched (hd p hp)
    · exact absurd hg hng

/-! ## A hand-over, and one that misfires -/

/-- A client with a frame of header `hdr` and `body`. -/
def client (st : SpcState) (main : Option Lwp) (hdr body : List UInt8) : Client :=
  { freshServer.spc with
    state := st
    mainlwp := main
    hdr := Bytes.ofList hdr
    buf := if body = [] then none else some ⟨body.length + 1, Bytes.ofList body⟩
    off := HDRSZ + body.length }

/-- A guest connects as client 0, asks for a prefork and leaves; client 1 shows
the token, and the calls turn out as `os`. -/
def visit (os : List Outcome) : List HallEvent :=
  [.frame 0 (client .new none (rspHdr 26 1 RUMPSP_REQ RUMPSP_HANDSHAKE HANDSHAKE_GUEST) [104, 105])
      0 [.rfork true, .newlwp true, .sent 28],
    .frame 0 (client .running (some 2) (rspHdr 24 2 RUMPSP_REQ RUMPSP_PREFORK 0) [])
      0 [.malloc true, .rfork true, .random (List.replicate 16 7), .newlwp true, .sent 40],
    .disco 0 false true,
    .frame 1 (client .new none (rspHdr 44 1 RUMPSP_REQ RUMPSP_HANDSHAKE HANDSHAKE_FORK)
      (List.replicate 16 7 ++ List.replicate 4 0)) 0 os]

theorem prefork_handover_iff_visit : ∃ tr s, Run step boot tr s ∧
    s.desk.consumed = [(List.replicate 16 7, ⟨List.replicate 16 7, 4⟩)] ∧ HandedOver s := by
  obtain ⟨tr, s, hr, hp⟩ := exists_run (f := step) (s := boot)
    (visit [.rfork true, .newlwp true, .sent 28])
    (p := fun tr s => decide (s.desk.consumed = [(List.replicate 16 7, ⟨List.replicate 16 7, 4⟩)] ∧
      Guarded (fun _ e => delivered e = true) tr ∧
      Guarded (fun s e => misfire s e = false) tr)) (by decide +kernel)
  rw [decide_eq_true_eq] at hp
  obtain ⟨hc, hd, hg⟩ := hp
  exact ⟨tr, s, hr, hc, ((prefork_handover_iff hr hd).mpr hg).1⟩

/-- There is no process for the second client, and no lwp for the reply that
tells it so: the prefork's lwp is released by the reply and by the handler. -/
theorem prefork_handover_fails : ∃ tr s, Run step boot tr s ∧
    Guarded (fun _ e => delivered e = true) tr ∧
    s.desk.issued = [⟨List.replicate 16 7, 4⟩] ∧ released s.server 4 = 2 ∧ ¬ HandedOver s := by
  obtain ⟨tr, s, hr, hp⟩ := exists_run (f := step) (s := boot)
    (visit [.rfork false, .newlwp false, .sent 24])
    (p := fun tr s => decide (Guarded (fun _ e => delivered e = true) tr ∧
      s.desk.issued = [⟨List.replicate 16 7, 4⟩] ∧ released s.server 4 = 2)) (by decide +kernel)
  rw [decide_eq_true_eq] at hp
  obtain ⟨hd, hi, h2⟩ := hp
  refine ⟨tr, s, hr, hd, hi, h2, fun hh => ?_⟩
  have htwice : Twice s := ⟨⟨List.replicate 16 7, 4⟩, by simp [hi], h2.ge⟩
  exact htwice.not_tally hh.tally

end Hall

end Frankenlibc.Sysproxy

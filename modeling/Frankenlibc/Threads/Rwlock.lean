import Frankenlibc.Threads.Mutex

/-!
# Reader/writer locks

`rw_tryenter` lets a writer in whenever `o` is NULL, whatever the number of
readers in `v`. A lock that is `Ruled` has its holders in `o` and `v`, and
every operation keeps it so except one: a writer that tries while readers hold
the lock. `Barges` is that step, and a run excludes readers and writers from
each other exactly if it never takes it.
-/
namespace Frankenlibc.Threads.Rwlock

open Frankenlibc.Lib
open WaitQueue (Sys Ready)
open Locks

/-- Readers and writers exclude each other, and so do writers. -/
def Exclusion (s : State) : Prop :=
  ∀ r, s.writers r = [] ∨ (∃ t, s.writers r = [t]) ∧ s.readers r = []

/-- The lock on which a step executes `rw_tryenter` for a writer: a call of
`rw_enter` or `rw_tryenter`, or the retry of a writer that has been given the
processor. -/
def triesWrite (s : State) : Event → Option RwId
  | .call (.rwEnter .writer r) | .call (.rwTryenter .writer r) => some r
  | .resume =>
    match s.pc s.current with
    | .wait _ (.rwEnter .writer r) => some r
    | _ => none
  | _ => none

/-- A writer tries a lock that has readers and no writer. -/
def barges (s : State) (e : Event) : Bool :=
  match triesWrite s e with
  | some r => (s.rw r).o = none && 0 < (s.rw r).v
  | none => false

theorem barges_iff {s : State} {e : Event} :
    barges s e = true ↔ ∃ r, triesWrite s e = some r ∧ (s.rw r).o = none ∧ 0 < (s.rw r).v := by
  unfold barges
  cases triesWrite s e <;> simp

theorem triesWrite_resume {s : State} {r : RwId} :
    triesWrite s .resume = some r ↔ ∃ w, s.pc s.current = .wait w (.rwEnter .writer r) := by
  simp only [triesWrite]
  split
  next w r' hp => simp [hp, eq_comm]
  next hno =>
    constructor
    · intro h
      cases h
    · rintro ⟨w, hp⟩
      exact absurd hp (hno w r)

/-! ## Steps -/

/-- What a step can do to a lock: nothing, let the current thread in, or let it
go. `tries` is what is known of a writer that gets in. -/
inductive Shift (tries : Prop) (s s' : State) (r : RwId) : Prop
  | same (hrw : s'.rw r = s.rw r) (hr : s'.readers r = s.readers r)
      (hw : s'.writers r = s.writers r)
  | reader (ho : (s.rw r).o = none) (hrw : s'.rw r = { s.rw r with v := (s.rw r).v + 1 })
      (hr : s'.readers r = s.current :: s.readers r) (hw : s'.writers r = s.writers r)
  | writer (ho : (s.rw r).o = none) (ht : tries) (hrw : s'.rw r = { s.rw r with o := s.curlwp })
      (hr : s'.readers r = s.readers r) (hw : s'.writers r = s.current :: s.writers r)
  | readerOut (hm : s.current ∈ s.readers r) (hn : s.current ∉ s.writers r)
      (hrw : s'.rw r = rwRelease (s.rw r)) (hr : s'.readers r = (s.readers r).erase s.current)
      (hw : s'.writers r = s.writers r)
  | writerOut (hm : s.current ∈ s.writers r) (hrw : s'.rw r = rwRelease (s.rw r))
      (hr : s'.readers r = s.readers r) (hw : s'.writers r = (s.writers r).erase s.current)

section Shift

variable {tries tries' : Prop} {s s' s₀ : State} {r : RwId}

theorem Shift.imp (hi : tries → tries') (h : Shift tries s s' r) : Shift tries' s s' r := by
  cases h with
  | same hrw hr hw => exact .same hrw hr hw
  | reader ho hrw hr hw => exact .reader ho hrw hr hw
  | writer ho ht hrw hr hw => exact .writer ho (hi ht) hrw hr hw
  | readerOut hm hn hrw hr hw => exact .readerOut hm hn hrw hr hw
  | writerOut hm hrw hr hw => exact .writerOut hm hrw hr hw

theorem shift_same (h : SameLocks s s') : Shift tries s s' r :=
  .same (by rw [h.rw]) (by rw [h.readers]) (by rw [h.writers])

/-- A step may end with something that leaves the locks alone. -/
theorem Shift.followed (h : Shift tries s s₀ r) (hl : SameLocks s₀ s') : Shift tries s s' r := by
  have hrw' : s'.rw r = s₀.rw r := by rw [hl.rw]
  have hr' : s'.readers r = s₀.readers r := by rw [hl.readers]
  have hw' : s'.writers r = s₀.writers r := by rw [hl.writers]
  cases h with
  | same hrw hr hw => exact .same (hrw'.trans hrw) (hr'.trans hr) (hw'.trans hw)
  | reader ho hrw hr hw => exact .reader ho (hrw'.trans hrw) (hr'.trans hr) (hw'.trans hw)
  | writer ho ht hrw hr hw => exact .writer ho ht (hrw'.trans hrw) (hr'.trans hr) (hw'.trans hw)
  | readerOut hm hn hrw hr hw =>
    exact .readerOut hm hn (hrw'.trans hrw) (hr'.trans hr) (hw'.trans hw)
  | writerOut hm hrw hr hw => exact .writerOut hm (hrw'.trans hrw) (hr'.trans hr) (hw'.trans hw)

/-- A step may begin with something that leaves the locks alone. -/
theorem Shift.after (hl : SameLocks s₀ s) (hc : s.current = s₀.current)
    (hcur : s.curlwp = s₀.curlwp) (h : Shift tries s s' r) : Shift tries s₀ s' r := by
  cases h with
  | same hrw hr hw =>
    rw [hl.rw] at hrw
    rw [hl.readers] at hr
    rw [hl.writers] at hw
    exact .same hrw hr hw
  | reader ho hrw hr hw =>
    rw [hl.rw] at ho hrw
    rw [hl.readers, hc] at hr
    rw [hl.writers] at hw
    exact .reader ho hrw hr hw
  | writer ho ht hrw hr hw =>
    rw [hl.rw] at ho hrw
    rw [hcur] at hrw
    rw [hl.readers] at hr
    rw [hl.writers, hc] at hw
    exact .writer ho ht hrw hr hw
  | readerOut hm hn hrw hr hw =>
    rw [hl.readers, hc] at hm hr
    rw [hl.writers] at hw
    rw [hl.writers, hc] at hn
    rw [hl.rw] at hrw
    exact .readerOut hm hn hrw hr hw
  | writerOut hm hrw hr hw =>
    rw [hl.writers, hc] at hm hw
    rw [hl.readers] at hr
    rw [hl.rw] at hrw
    exact .writerOut hm hrw hr hw

theorem shift_entered {lk : RwMode} {r₀ : RwId} (ho : RwOpen r₀ s lk) :
    Shift (lk = .writer ∧ r = r₀) s (rwEntered r₀ s lk) r := by
  by_cases hr : r = r₀
  · subst hr
    cases lk with
    | writer => exact .writer ho ⟨rfl, rfl⟩ (by simp [rwEntered]) rfl (by simp [rwEntered])
    | reader => exact .reader ho.1 (by simp [rwEntered]) (by simp [rwEntered]) rfl
  · cases lk with
    | writer => exact .same (by simp [rwEntered, hr]) rfl (by simp [rwEntered, hr])
    | reader => exact .same (by simp [rwEntered, hr]) (by simp [rwEntered, hr]) rfl

theorem shift_released {r₀ : RwId} (hold : s.current ∈ s.readers r₀ ∨ s.current ∈ s.writers r₀) :
    Shift tries s (rwReleased r₀ s) r := by
  by_cases hr : r = r₀
  · subst hr
    by_cases hw : s.current ∈ s.writers r
    · exact .writerOut hw (by simp [rwReleased]) (by simp [rwReleased, dropHold, hw])
        (by simp [rwReleased, dropHold, hw])
    · exact .readerOut (hold.resolve_right hw) hw (by simp [rwReleased])
        (by simp [rwReleased, dropHold, hw]) (by simp [rwReleased, dropHold, hw])
  · refine .same (by simp [rwReleased, hr]) ?_ ?_
    · unfold rwReleased dropHold
      split <;> simp [hr]
    · unfold rwReleased dropHold
      split <;> simp [hr]

theorem shift_turn {k : Cont} (ht : Turn s k s') :
    Shift (k = .rwEnter .writer r) s s' r := by
  cases ht with
  | mutexIn => exact .same rfl rfl rfl
  | mutexWait _ hw => exact shift_same (waitOn_sameLocks hw)
  | @rwIn lk r₀ ho =>
    have hin : Shift (lk = .writer ∧ r = r₀) s (rwEntered r₀ s lk).toUser r :=
      (shift_entered ho).followed ⟨rfl, rfl, rfl, rfl, rfl⟩
    refine hin.imp ?_
    rintro ⟨rfl, rfl⟩
    rfl
  | rwWait _ hw => exact shift_same (waitOn_sameLocks hw)
  | cvIn => exact .same rfl rfl rfl
  | bare => exact .same rfl rfl rfl

end Shift

theorem mutexExit_rw {m : MtxId} {s s' : State} (h : mutexExit m s = .ok s') :
    s'.rw = s.rw ∧ s'.readers = s.readers ∧ s'.writers = s.writers := by
  obtain ⟨_, ⟨_, rfl⟩ | ⟨_, rfl⟩⟩ := mutexExit_ok h
  · have hl := wakeupOne_sameLocks (.mtx m) (mutexLeft m s)
    exact ⟨hl.rw, hl.readers, hl.writers⟩
  · exact ⟨rfl, rfl, rfl⟩

theorem cvBegin_rw {kind : CvKind} {c : CvId} {m : MtxId} {nsec tm : Int} {s s' : State}
    (h : cvBegin kind c m nsec tm s = .ok s') :
    s'.rw = s.rw ∧ s'.readers = s.readers ∧ s'.writers = s.writers := by
  obtain ⟨s₁, hm, hw⟩ := cvBegin_ok h
  obtain ⟨h1, h2, h3⟩ := mutexExit_rw hm
  have hl := waitOn_sameLocks hw
  exact ⟨hl.rw.trans h1, hl.readers.trans h2, hl.writers.trans h3⟩

/-- A call changes a lock in one of these ways. -/
theorem exec_shift {c : Call} {s s' : State} (hl : lawfulCall s c = true)
    (he : exec s c = .ok s') (r : RwId) : Shift (triesWrite s (.call c) = some r) s s' r := by
  have hsame : s'.rw = s.rw ∧ s'.readers = s.readers ∧ s'.writers = s.writers →
      Shift (triesWrite s (.call c) = some r) s s' r :=
    fun hs => .same (by rw [hs.1]) (by rw [hs.2.1]) (by rw [hs.2.2])
  cases exec_performed he with
  | refused | create | setCurlwp | wait | wakeupOne | wakeupAll | rwDowngrade | rwTryupgrade =>
    cases hl
  | yield | mutexBusy | mutexIn | rwBusy => exact .same rfl rfl rfl
  | exit => exact shift_same (exitThread_sameLocks s)
  | join _ hj =>
    have hs := joinLoop_sameLocks hj
    exact hsame ⟨hs.rw, hs.readers, hs.writers⟩
  | sleep => exact shift_same (clockSleep_sameLocks _ _ _ _ s)
  | mutexEnter ht => exact (shift_turn ht).imp (by simp)
  | mutexExit hx => exact hsame (mutexExit_rw hx)
  | rwEnter ht =>
    refine (shift_turn ht).imp ?_
    rintro ⟨rfl, rfl⟩
    rfl
  | rwIn ho =>
    refine (shift_entered (r := r) ho).imp ?_
    rintro ⟨rfl, rfl⟩
    rfl
  | @rwExit r₀ =>
    have hold : s.current ∈ s.readers r₀ ∨ s.current ∈ s.writers r₀ := by
      simpa [lawfulCall] using hl
    exact (shift_released hold).followed (rwHandOver_sameLocks r₀ (rwReleased r₀ s))
  | cvWait hb | cvWaitNowrap hb | cvTimedwait hb => exact hsame (cvBegin_rw hb)
  | cvSignal => exact shift_same (wakeupOne_sameLocks _ s)
  | cvBroadcast => exact shift_same (wakeupAll_sameLocks _ s)

theorem resume_shift {s s' : State} (he : resume s (s.pc s.current) = .ok s') (r : RwId) :
    Shift (triesWrite s .resume = some r) s s' r := by
  generalize hp : s.pc s.current = p at he
  cases resume_inv he with
  | @wait w k _ ht =>
    have hc := waitRet_calm w k.queue (reap s)
    have hl := waitRet_sameLocks w k.queue (reap s)
    have hlocks : SameLocks s (waitRet w k.queue (reap s)).2 :=
      ⟨hl.mtx, hl.depth, hl.rw, hl.readers, hl.writers⟩
    have hcur : (waitRet w k.queue (reap s)).2.curlwp = s.curlwp := by
      unfold State.curlwp
      rw [hc.current, hc.lwp]
      rfl
    refine ((shift_turn ht).after hlocks hc.current hcur).imp ?_
    rintro rfl
    exact triesWrite_resume.mpr ⟨w, hp⟩
  | running | fresh | yield | sleep | exited => exact .same rfl rfl rfl
  | join hj =>
    have hs := joinLoop_sameLocks hj
    exact .same (by rw [hs.rw]; rfl) (by rw [hs.readers]; rfl) (by rw [hs.writers]; rfl)
  | gate =>
    have hs := exitThread_sameLocks (reap s)
    exact .same (by rw [hs.rw]; rfl) (by rw [hs.readers]; rfl) (by rw [hs.writers]; rfl)

theorem step_shift {s s' : State} {e : Event} (hl : lawful s e = true) (hs : step s e = some s')
    (r : RwId) : Shift (triesWrite s e = some r) s s' r := by
  cases step_inv hs with
  | call _ _ he => exact exec_shift hl he r
  | callAbort => exact .same rfl rfl rfl
  | switch => exact .same rfl rfl rfl
  | idle => exact .same rfl rfl rfl
  | extWake => exact .same rfl rfl rfl
  | resume _ he => exact resume_shift he r
  | resumeAbort => exact .same rfl rfl rfl

/-- The current thread tries a lock from its own code, or behind the switch to it. -/
theorem tries_mode {s s' : State} {e : Event} {r : RwId} (ht : triesWrite s e = some r)
    (hs : step s e = some s') : s.mode = .user ∨ s.mode = .back := by
  cases step_inv hs with
  | call hu => exact .inl hu
  | callAbort hu => exact .inl hu
  | switch => cases ht
  | idle => cases ht
  | extWake => cases ht
  | resume hb => exact .inr hb
  | resumeAbort hb => exact .inr hb

/-! ## The rule -/

/-- `o` is the writer, or there is none and `v` counts the readers. -/
def Ruled (s : State) (r : RwId) : Prop :=
  (s.writers r = [] ∧ (s.rw r).o = none ∧ (s.rw r).v = (s.readers r).length) ∨
  ∃ t ∈ s.created, s.writers r = [t] ∧ (s.rw r).o = (s.thread t).lwp ∧ s.readers r = [] ∧
    (s.rw r).v = 0

theorem ruled_exclusion {s : State} (h : ∀ r, Ruled s r) : Exclusion s := by
  intro r
  rcases h r with ⟨hw, _⟩ | ⟨t, _, hw, _, hr, _⟩
  · exact .inl hw
  · exact .inr ⟨⟨t, hw⟩, hr⟩

theorem ruled_boot (t : Tid) (ts : List Tid) (lwp : Tid → Option Lwp) (r : RwId) :
    Ruled (boot t ts lwp) r := .inl ⟨rfl, rfl, rfl⟩

theorem ruled_congr {s s' : State} {r : RwId} (h : Ruled s r) (hrw : s'.rw r = s.rw r)
    (hr : s'.readers r = s.readers r) (hw : s'.writers r = s.writers r) (hf : Frozen s s') :
    Ruled s' r := by
  unfold Ruled
  rw [hrw, hr, hw, hf.created]
  simp only [hf.lwp]
  exact h

/-- A lock without a writer counts its readers. -/
theorem ruled_open {s : State} {r : RwId} (h : Ruled s r)
    (hn : ∀ t ∈ s.created, (s.thread t).lwp ≠ none) (ho : (s.rw r).o = none) :
    s.writers r = [] ∧ (s.rw r).v = (s.readers r).length := by
  rcases h with ⟨hw, _, hv⟩ | ⟨t, ht, _, hot, _⟩
  · exact ⟨hw, hv⟩
  · rw [ho] at hot
    exact absurd hot.symm (hn t ht)

theorem ruled_shift {s s' : State} {r : RwId} {tries : Prop} (h : Ruled s r)
    (hn : ∀ t ∈ s.created, (s.thread t).lwp ≠ none) (hf : Frozen s s')
    (hcur : tries → s.current ∈ s.created)
    (hv : tries → (s.rw r).o = none → ¬ 0 < (s.rw r).v) (hs : Shift tries s s' r) :
    Ruled s' r := by
  cases hs with
  | same hrw hr hw => exact ruled_congr h hrw hr hw hf
  | reader ho hrw hr hw =>
    obtain ⟨hw', hvr⟩ := ruled_open h hn ho
    refine .inl ⟨hw.trans hw', ?_, ?_⟩
    · rw [hrw]
      exact ho
    · rw [hrw, hr, hvr, List.length_cons]
      push_cast
      rfl
  | writer ho ht hrw hr hw =>
    obtain ⟨hw', hvr⟩ := ruled_open h hn ho
    have hempty : s.readers r = [] := by
      have := hv ht ho
      exact List.length_eq_zero_iff.mp (by omega)
    refine .inr ⟨s.current, ?_, ?_, ?_, hr.trans hempty, ?_⟩
    · rw [hf.created]
      exact hcur ht
    · rw [hw, hw']
    · rw [hrw, hf.lwp]
      rfl
    · rw [hrw]
      simpa [hempty] using hvr
  | readerOut hm hnw hrw hr hw =>
    rcases h with ⟨hw', ho, hvr⟩ | ⟨t, _, _, _, hnil, _⟩
    · have hlen := List.length_erase_of_mem hm
      have hpos := List.length_pos_of_mem hm
      refine .inl ⟨hw.trans hw', ?_, ?_⟩
      · simp [hrw, rwRelease, ho]
      · rw [hrw, hr, hlen]
        simp only [rwRelease, ho, ne_eq, not_true_eq_false, if_false]
        omega
    · rw [hnil] at hm
      cases hm
  | writerOut hm hrw hr hw =>
    rcases h with ⟨hnil, _⟩ | ⟨t, ht, hw', ho, hnil, hv0⟩
    · rw [hnil] at hm
      cases hm
    · have hcurt : s.current = t := by simpa [hw'] using hm
      have hone := hn t ht
      rw [← ho] at hone
      refine .inl ⟨?_, ?_, ?_⟩
      · simp [hw, hw', hcurt]
      · simp [hrw, rwRelease, hone]
      · simp [hrw, rwRelease, hone, hv0, hr, hnil]

theorem ruled_step {s s' : State} {e : Event} (hb : Base s) (h : ∀ r, Ruled s r)
    (hl : lawful s e = true) (hbarge : barges s e = false) (hs : step s e = some s') (r : RwId) :
    Ruled s' r := by
  refine ruled_shift (h r) hb.named (step_frozen hl hs) (fun ht => ?_) (fun ht ho hv => ?_)
    (step_shift hl hs r)
  · exact hb.sys.current_created (tries_mode ht hs)
  · rw [barges_iff.mpr ⟨r, ht, ho, hv⟩] at hbarge
    cases hbarge

/-- A writer that gets in beside readers breaks the exclusion. -/
theorem turn_breaks {s s' : State} {r : RwId} (h : Ruled s r)
    (hn : ∀ t ∈ s.created, (s.thread t).lwp ≠ none) (ho : (s.rw r).o = none)
    (hv : 0 < (s.rw r).v) (hw : s'.writers r = s.current :: s.writers r)
    (hr : s'.readers r = s.readers r) : ¬ Exclusion s' := by
  obtain ⟨_, hvr⟩ := ruled_open h hn ho
  intro hx
  rcases hx r with hnil | ⟨_, hnil⟩
  · rw [hw] at hnil
    cases hnil
  · rw [hr] at hnil
    rw [hnil] at hvr
    simp at hvr
    omega

theorem writer_turn {s s' : State} {r : RwId} (ho : (s.rw r).o = none)
    (ht : Turn s (.rwEnter .writer r) s') :
    s'.writers r = s.current :: s.writers r ∧ s'.readers r = s.readers r := by
  cases ht with
  | rwIn => simp [State.toUser, rwEntered]
  | rwWait hno => exact absurd ho hno

theorem barge_breaks {s s' : State} {e : Event} (hb : Base s) (h : ∀ r, Ruled s r)
    (hbarge : barges s e = true) (hs : step s e = some s') : ¬ Exclusion s' := by
  obtain ⟨r, ht, ho, hv⟩ := barges_iff.mp hbarge
  have hbreak : s'.writers r = s.current :: s.writers r ∧ s'.readers r = s.readers r →
      ¬ Exclusion s' := fun hx => turn_breaks (h r) hb.named ho hv hx.1 hx.2
  cases step_inv hs with
  | @call c _ _ _ he =>
    simp only [triesWrite] at ht
    split at ht
    next hc =>
      cases hc
      cases ht
      exact hbreak (writer_turn ho (rwEnterLoop_turn ((rwEnter_eq ..).symm.trans he)))
    next hc =>
      cases hc
      cases ht
      cases he
      exact hbreak (by simp [rwTryenter_eq, RwOpen, ho, rwEntered])
    next hc => cases hc
    next => cases ht
  | @callAbort c why _ he =>
    simp only [triesWrite] at ht
    split at ht
    next hc =>
      cases hc
      cases ht
      simp [exec, rwEnter, rwTryenter_eq, RwOpen, ho] at he
    next hc =>
      cases hc
      cases he
    next hc => cases hc
    next => cases ht
  | switch => cases ht
  | idle => cases ht
  | extWake => cases ht
  | resume _ he =>
    obtain ⟨w, hp⟩ := triesWrite_resume.mp ht
    have hl := waitRet_sameLocks w (Cont.rwEnter .writer r).queue (reap s)
    have hc := waitRet_calm w (Cont.rwEnter .writer r).queue (reap s)
    rw [hp] at he
    have hx := writer_turn (by rw [hl.rw]; exact ho) (afterWait_turn he)
    rw [hl.writers, hl.readers, hc.current] at hx
    exact hbreak hx
  | resumeAbort _ he =>
    obtain ⟨w, hp⟩ := triesWrite_resume.mp ht
    have ho' : ((waitRet w (.wwait r) (reap s)).2.rw r).o = none := by
      rw [(waitRet_sameLocks w (.wwait r) (reap s)).rw]
      exact ho
    rw [hp] at he
    simp [resume, afterWait, rwEnterLoop, rwTryenter_eq, RwOpen, Cont.queue, rwQueue, ho'] at he

/-! ## Whole runs -/

theorem ruled_run {s₀ s : State} {tr : List (State × Event)} (hb : Base s₀)
    (h₀ : ∀ r, Ruled s₀ r) (hr : Run step s₀ tr s) (hg : Guarded (fun s e => lawful s e) tr)
    (hn : Guarded (fun s e => barges s e = false) tr) : ∀ r, Ruled s r := by
  have hok : Guarded (fun s e => lawful s e = true ∧ barges s e = false) tr :=
    fun p hp => ⟨hg p hp, hn p hp⟩
  exact (Run.invariant (I := fun s => Base s ∧ ∀ r, Ruled s r) ⟨hb, h₀⟩
    (fun _ _ _ h hx hs => ⟨base_step h.1 hx.1 hs, ruled_step h.1 h.2 hx.1 hx.2 hs⟩) hr hok).2

/-- The first writer that barges in would show in the next state. -/
theorem never_barges {s₀ s : State} {tr : List (State × Event)} (hb : Base s₀)
    (h₀ : ∀ r, Ruled s₀ r) (hr : Run step s₀ tr s) (hg : Guarded (fun s e => lawful s e) tr)
    (hall : ∀ p ∈ tr, Exclusion p.1) (hlast : Exclusion s) :
    Guarded (fun s e => barges s e = false) tr := by
  induction hr with
  | nil => exact Guarded.nil _
  | @snoc tr s s' e hrun hs ih =>
    obtain ⟨hg', _⟩ := guarded_snoc.mp hg
    have hn := ih hg' (fun p hp => hall p (List.mem_append_left _ hp)) (hall (s, e) (by simp))
    refine guarded_snoc.mpr ⟨hn, ?_⟩
    by_contra hbarge
    exact barge_breaks (base_run hb hrun hg') (ruled_run hb h₀ hrun hg' hn)
      (by simpa using hbarge) hs hlast

/-- Any number of threads with lwps of their own, any run of lawful calls:
readers and writers exclude each other in every state of the run exactly if no
writer ever tries a lock that has readers and no writer. -/
theorem rw_exclusion_iff {t : Tid} {ts : List Tid} {lwp : Tid → Option Lwp}
    {tr : List (State × Event)} {s : State} (hc : Crew t ts lwp)
    (hr : Run step (boot t ts lwp) tr s) (hg : Guarded (fun s e => lawful s e) tr) :
    ((∀ p ∈ tr, Exclusion p.1) ∧ Exclusion s) ↔
      Guarded (fun s e => barges s e = false) tr := by
  have hb := base_boot hc
  have h₀ := ruled_boot t ts lwp
  refine ⟨fun h => never_barges hb h₀ hr hg h.1 h.2, fun hn => ⟨fun p hp => ?_, ?_⟩⟩
  · obtain ⟨l, hl, hle⟩ := hr.reaches_mem hp
    exact ruled_exclusion (ruled_run hb h₀ hl (hg.prefix_of hle) (hn.prefix_of hle))
  · exact ruled_exclusion (ruled_run hb h₀ hr hg hn)

/-- A run in which every writer finds the lock free: one thread writes while
another waits to read, and then the other reads. -/
theorem rw_exclusion_iff_handover : ∃ tr s, Run step (boot 0 [1] some) tr s ∧
    s.readers 0 = [1] ∧ (∀ p ∈ tr, Exclusion p.1) ∧ Exclusion s := by
  obtain ⟨tr, s, hr, hp⟩ := exists_run (f := step) (s := boot 0 [1] some)
    [.call (.rwEnter .writer 0), .call .schedule, .pass 0, .resume, .call .schedule, .pass 0,
      .resume, .call (.rwEnter .reader 0), .pass 0, .resume, .call (.rwExit 0), .call .schedule,
      .pass 0, .resume]
    (p := fun tr s => Guarded (fun s e => lawful s e) tr ∧
      Guarded (fun s e => barges s e = false) tr ∧ s.readers 0 = [1]) (by decide)
  rw [decide_eq_true_eq] at hp
  obtain ⟨hg, hn, hrd⟩ := hp
  have hc : Crew 0 [1] some := ⟨by decide, by simp, by simp⟩
  exact ⟨tr, s, hr, hrd, (rw_exclusion_iff hc hr hg).mpr hn⟩

/-- Two threads and nothing but `rw_enter`: thread 0 reads lock 0 and then
blocks on lock 1, and thread 1 writes lock 0 beside it. -/
theorem rw_exclusion_fails : ∃ tr s, Run step (boot 0 [1] some) tr s ∧
    Guarded (fun s e => lawful s e) tr ∧
    tr.map Prod.snd = [.call (.rwEnter .reader 0), .call (.rwEnter .writer 1),
      .call (.rwEnter .writer 1), .pass 0, .resume, .call (.rwEnter .writer 0)] ∧
    s.readers 0 = [0] ∧ s.writers 0 = [1] := by
  obtain ⟨tr, s, hr, hp⟩ := exists_run (f := step) (s := boot 0 [1] some)
    [.call (.rwEnter .reader 0), .call (.rwEnter .writer 1), .call (.rwEnter .writer 1), .pass 0,
      .resume, .call (.rwEnter .writer 0)]
    (p := fun tr s => Guarded (fun s e => lawful s e) tr ∧
      tr.map Prod.snd = [.call (.rwEnter .reader 0), .call (.rwEnter .writer 1),
        .call (.rwEnter .writer 1), .pass 0, .resume, .call (.rwEnter .writer 0)] ∧
      s.readers 0 = [0] ∧ s.writers 0 = [1]) (by decide)
  rw [decide_eq_true_eq] at hp
  exact ⟨tr, s, hr, hp⟩

end Frankenlibc.Threads.Rwlock

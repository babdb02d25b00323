import Frankenlibc.Threads.Machine

/-!
# What a call leaves alone

All calls but `create_thread`, `exit_thread`, `join_thread` and `set_curlwp`
leave the thread lists, the join queue and the position of every other thread
alone, and can only make another thread runnable. `Calm` says this once. It
composes, so a function inherits it from the functions it calls. `Step` lists
what a step of the machine can be.
-/
namespace Frankenlibc.Threads

open Frankenlibc.Lib

/-- The positions a thread takes outside creation, join and exit. -/
def Pc.plain : Pc → Bool
  | .running | .yield | .sleep | .wait _ _ => true
  | _ => false

/-- The record of waits only grows, and a waiter stays its thread's. -/
structure Later (s s' : State) : Prop where
  hist : s.hist <+: s'.hist
  nextWid : s.nextWid ≤ s'.nextWid
  who : ∀ w, w < s.nextWid → (s'.waiter w).who = (s.waiter w).who

theorem Later.of_eq {s s' : State} (hh : s'.hist = s.hist) (hn : s'.nextWid = s.nextWid)
    (hw : s'.waiter = s.waiter) : Later s s' where
  hist := hh ▸ List.prefix_refl _
  nextWid := Nat.le_of_eq hn.symm
  who w _ := by rw [hw]

theorem Later.refl (s : State) : Later s s := Later.of_eq rfl rfl rfl

theorem Later.trans {s s' s'' : State} (h : Later s s') (h' : Later s' s'') : Later s s'' where
  hist := h.hist.trans h'.hist
  nextWid := Nat.le_trans h.nextWid h'.nextWid
  who w hw := (h'.who w (Nat.lt_of_lt_of_le hw h.nextWid)).trans (h.who w hw)

structure Calm (s s' : State) : Prop where
  threadList : s'.threadList = s.threadList
  exitedThreads : s'.exitedThreads = s.exitedThreads
  created : s'.created = s.created
  freed : s'.freed = s.freed
  current : s'.current = s.current
  joinwq : s'.joinwq = s.joinwq
  joiner : s'.joiner = s.joiner
  pc : ∀ t, t ≠ s.current → s'.pc t = s.pc t
  plain : s'.pc s.current = s.pc s.current ∨ (s'.pc s.current).plain = true
  lwp : ∀ t, (s'.thread t).lwp = (s.thread t).lwp
  mustjoin : ∀ t, (s'.thread t).mustjoin = (s.thread t).mustjoin
  joined : ∀ t, (s'.thread t).joined = (s.thread t).joined
  runnable : ∀ t, t ≠ s.current → (s.thread t).runnable = true → (s'.thread t).runnable = true
  later : Later s s'

namespace Calm

theorem refl (s : State) : Calm s s where
  threadList := rfl
  exitedThreads := rfl
  created := rfl
  freed := rfl
  current := rfl
  joinwq := rfl
  joiner := rfl
  pc _ _ := rfl
  plain := .inl rfl
  lwp _ := rfl
  mustjoin _ := rfl
  joined _ := rfl
  runnable _ _ h := h
  later := Later.refl s

theorem trans {s s' s'' : State} (h : Calm s s') (h' : Calm s' s'') : Calm s s'' where
  threadList := h'.threadList.trans h.threadList
  exitedThreads := h'.exitedThreads.trans h.exitedThreads
  created := h'.created.trans h.created
  freed := h'.freed.trans h.freed
  current := h'.current.trans h.current
  joinwq := h'.joinwq.trans h.joinwq
  joiner := h'.joiner.trans h.joiner
  pc t ht := (h'.pc t (h.current ▸ ht)).trans (h.pc t ht)
  plain := by
    have hp := h'.plain
    rw [h.current] at hp
    rcases hp with hp | hp
    · rw [hp]
      exact h.plain
    · exact .inr hp
  lwp t := (h'.lwp t).trans (h.lwp t)
  mustjoin t := (h'.mustjoin t).trans (h.mustjoin t)
  joined t := (h'.joined t).trans (h.joined t)
  runnable t ht hr := h'.runnable t (h.current ▸ ht) (h.runnable t ht hr)
  later := h.later.trans h'.later

/-- A change of one thread's deadline or runnability, where only the current
thread may stop being runnable. -/
theorem setThread {s : State} {t : Tid} {x : Thread}
    (hl : x.lwp = (s.thread t).lwp) (hm : x.mustjoin = (s.thread t).mustjoin)
    (hj : x.joined = (s.thread t).joined)
    (hr : t ≠ s.current → (s.thread t).runnable = true → x.runnable = true) :
    Calm s (s.setThread t x) where
  threadList := rfl
  exitedThreads := rfl
  created := rfl
  freed := rfl
  current := rfl
  joinwq := rfl
  joiner := rfl
  pc _ _ := rfl
  plain := .inl rfl
  lwp u := by
    by_cases hu : u = t
    · subst hu
      simpa [State.setThread] using hl
    · simp [State.setThread, hu]
  mustjoin u := by
    by_cases hu : u = t
    · subst hu
      simpa [State.setThread] using hm
    · simp [State.setThread, hu]
  joined u := by
    by_cases hu : u = t
    · subst hu
      simpa [State.setThread] using hj
    · simp [State.setThread, hu]
  runnable u hu hru := by
    by_cases he : u = t
    · subst he
      simpa [State.setThread] using hr hu hru
    · simpa [State.setThread, he] using hru
  later := Later.of_eq rfl rfl rfl

/-- A change of lock objects and wait queues alone. -/
theorem data {s s' : State} (hs : s' = { s with
    waiters := s'.waiters, waiter := s'.waiter, nextWid := s'.nextWid, mtx := s'.mtx,
    rw := s'.rw, cv := s'.cv, hist := s'.hist, depth := s'.depth, readers := s'.readers,
    writers := s'.writers }) (hl : Later s s') : Calm s s' := by
  constructor
  case later => exact hl
  all_goals rw [hs]
  case plain => exact .inl rfl
  case runnable => exact fun _ _ h => h
  all_goals first | rfl | exact fun _ => rfl | exact fun _ _ => rfl

/-- The current thread moves to a plain position. -/
theorem move {s s' : State} {p : Pc} (hp : p.plain = true)
    (hs : s' = { s with pc := Function.update s.pc s.current p, mode := s'.mode }) : Calm s s' := by
  rw [hs]
  constructor
  case pc => exact fun t ht => by simp [ht]
  case plain => exact .inr (by simpa using hp)
  case runnable => exact fun _ _ h => h
  case later => exact Later.of_eq rfl rfl rfl
  all_goals first | rfl | exact fun _ => rfl

end Calm

/-- Nothing but lock objects and the record of their holders changes. -/
def OnlyLocks (s s' : State) : Prop :=
  s' = { s with
    mtx := s'.mtx, rw := s'.rw, cv := s'.cv, depth := s'.depth, readers := s'.readers,
    writers := s'.writers }

theorem OnlyLocks.refl (s : State) : OnlyLocks s s := rfl

theorem OnlyLocks.calm {s s' : State} (h : OnlyLocks s s') : Calm s s' := by
  refine Calm.data ?_ ?_
  · rw [h]
  · rw [h]
    exact Later.of_eq rfl rfl rfl

section
variable (t u : Tid) (s : State)

@[simp] theorem wake_mustjoin : ((wake t s).thread u).mustjoin = (s.thread u).mustjoin := by
  by_cases h : u = t <;> simp [wake, State.setThread, h]

@[simp] theorem wake_joined : ((wake t s).thread u).joined = (s.thread u).joined := by
  by_cases h : u = t <;> simp [wake, State.setThread, h]

@[simp] theorem wake_runnable :
    ((wake t s).thread u).runnable = (decide (u = t) || (s.thread u).runnable) := by
  by_cases h : u = t <;> simp [wake, State.setThread, h]

@[simp] theorem block_mustjoin : ((block t s).thread u).mustjoin = (s.thread u).mustjoin := by
  by_cases h : u = t <;> simp [block, State.setThread, h]

@[simp] theorem block_joined : ((block t s).thread u).joined = (s.thread u).joined := by
  by_cases h : u = t <;> simp [block, State.setThread, h]

@[simp] theorem block_runnable :
    ((block t s).thread u).runnable = (!decide (u = t) && (s.thread u).runnable) := by
  by_cases h : u = t <;> simp [block, State.setThread, h]

end

theorem wake_calm (t : Tid) (s : State) : Calm s (wake t s) :=
  Calm.setThread rfl rfl rfl fun _ _ => rfl

theorem block_calm (s : State) : Calm s (block s.current s) :=
  Calm.setThread rfl rfl rfl fun h _ => absurd rfl h

theorem clearRunnable_calm (s : State) : Calm s (clearRunnable s.current s) :=
  Calm.setThread rfl rfl rfl fun h _ => absurd rfl h

theorem setDeadline_calm (t : Tid) (tm : Int) (s : State) : Calm s (setDeadline t tm s) :=
  Calm.setThread rfl rfl rfl fun _ h => h

theorem suspend_calm {p : Pc} (hp : p.plain = true) (s : State) : Calm s (s.suspend p) :=
  Calm.move hp rfl

theorem toUser_calm (s : State) : Calm s s.toUser :=
  Calm.move (p := .running) rfl rfl

theorem sleepUntil_calm (tm : Int) (s : State) : Calm s (sleepUntil tm s) :=
  ((setDeadline_calm _ _ _).trans (clearRunnable_calm _)).trans (suspend_calm rfl _)

theorem clockSleep_calm (clk : Clock) (sec nsec tm : Int) (s : State) :
    Calm s (clockSleep clk sec nsec tm s) := by
  cases clk with
  | realtime => exact sleepUntil_calm _ _
  | monotonic => exact sleepUntil_calm _ _
  | other => exact Calm.refl s

theorem enqueue_calm (q : Queue) (s : State) : Calm s (enqueue q s) := by
  refine Calm.data rfl ⟨List.prefix_append _ _, Nat.le_succ _, ?_⟩
  intro w hw
  have hne : w ≠ s.nextWid := Nat.ne_of_lt hw
  simp [enqueue, hne]

/-- What `wait` has done when it calls `schedule`. -/
theorem waitOn_ok {k : Cont} {nsec tm : Int} {s s' : State} (h : waitOn k nsec tm s = .ok s') :
    nsec ≠ 0 ∧ ∃ th, (∀ t, t ≠ s.current → th t = s.thread t) ∧ (th s.current).runnable = false ∧
      s' = { enqueue k.queue s with
        thread := th, pc := Function.update s.pc s.current (.wait s.nextWid k), mode := .sched } := by
  unfold waitOn at h
  split at h
  · cases h
  next hn =>
    cases h
    refine ⟨hn, _, ?_, ?_, rfl⟩
    · intro t ht
      simp [setDeadline, clearRunnable, block, enqueue, State.setThread, ht]
    · simp [setDeadline, clearRunnable, block, enqueue, State.setThread]

theorem waitOn_calm {k : Cont} {nsec tm : Int} {s s' : State} (h : waitOn k nsec tm s = .ok s') :
    Calm s s' := by
  unfold waitOn at h
  split at h
  · cases h
  · cases h
    exact ((((enqueue_calm _ _).trans (block_calm _)).trans (setDeadline_calm _ _ _)).trans
      (clearRunnable_calm _)).trans (suspend_calm rfl _)

theorem waitRet_calm (w : Wid) (q : Queue) (s : State) : Calm s (waitRet w q s).2 := by
  have hp : Calm s { s with pc := Function.update s.pc s.current .running } :=
    Calm.move (p := .running) rfl rfl
  unfold waitRet
  dsimp only
  split
  · refine hp.trans ?_
    exact Calm.data rfl ⟨List.prefix_append _ _, Nat.le_refl _, fun _ _ => rfl⟩
  · refine hp.trans ?_
    exact Calm.data rfl ⟨List.prefix_append _ _, Nat.le_refl _, fun _ _ => rfl⟩

theorem dequeue_calm (q : Queue) (w : Wid) (ws : List Wid) (s : State) :
    Calm s (dequeue q w ws s) := by
  refine Calm.trans ?_ (wake_calm _ _)
  refine Calm.data rfl ⟨List.prefix_append _ _, Nat.le_refl _, ?_⟩
  intro u _
  by_cases hu : u = w
  · subst hu
    simp
  · simp [hu]

theorem wakeupOne_calm (q : Queue) (s : State) : Calm s (wakeupOne q s) := by
  unfold wakeupOne
  split
  · exact Calm.refl s
  · exact dequeue_calm _ _ _ _

theorem wakeupLoop_calm (q : Queue) (ws : List Wid) (s : State) : Calm s (wakeupLoop q ws s) := by
  induction ws generalizing s with
  | nil => exact Calm.refl s
  | cons w ws ih => exact (dequeue_calm q w ws s).trans (ih _)

theorem wakeupAll_calm (q : Queue) (s : State) : Calm s (wakeupAll q s) := wakeupLoop_calm _ _ _

/-! ## Locks -/

/-- `mutex_tryenter` returns `EBUSY`. -/
def MutexBusy (m : MtxId) (s : State) : Prop := (s.mtx m).v ≠ 0 ∧ (s.mtx m).o ≠ s.curlwp

instance (m : MtxId) (s : State) : Decidable (MutexBusy m s) :=
  inferInstanceAs (Decidable (_ ∧ _))

/-- The state behind a `mutex_tryenter` that succeeds. -/
def mutexEntered (m : MtxId) (s : State) : State :=
  { s with
    mtx := Function.update s.mtx m { s.mtx m with v := (s.mtx m).v + 1, o := s.curlwp }
    depth := Function.update s.depth m
      (Function.update (s.depth m) s.current (s.depth m s.current + 1)) }

theorem mutexTryenter_eq (m : MtxId) (s : State) :
    mutexTryenter m s = if MutexBusy m s then (.EBUSY, s) else (.ok, mutexEntered m s) := rfl

/-- `rw_tryenter` succeeds. -/
def RwOpen (r : RwId) (s : State) : RwMode → Prop
  | .writer => (s.rw r).o = none
  | .reader => (s.rw r).o = none ∧ s.waiters (.wwait r) = []

instance (r : RwId) (s : State) : (lk : RwMode) → Decidable (RwOpen r s lk)
  | .writer => inferInstanceAs (Decidable (_ = none))
  | .reader => inferInstanceAs (Decidable (_ ∧ _))

/-- The state behind a `rw_tryenter` that succeeds. -/
def rwEntered (r : RwId) (s : State) : RwMode → State
  | .writer =>
    { s with
      rw := Function.update s.rw r { s.rw r with o := s.curlwp }
      writers := Function.update s.writers r (s.current :: s.writers r) }
  | .reader =>
    { s with
      rw := Function.update s.rw r { s.rw r with v := (s.rw r).v + 1 }
      readers := Function.update s.readers r (s.current :: s.readers r) }

theorem rwTryenter_eq (lk : RwMode) (r : RwId) (s : State) :
    rwTryenter lk r s = if RwOpen r s lk then (.ok, rwEntered r s lk) else (.EBUSY, s) := by
  cases lk <;> rfl

theorem mutexEntered_locks (m : MtxId) (s : State) : OnlyLocks s (mutexEntered m s) := rfl

theorem rwEntered_locks (r : RwId) (s : State) (lk : RwMode) : OnlyLocks s (rwEntered r s lk) := by
  cases lk <;> rfl

/-- What the caller of `wait` can do once it has returned: it gets the lock it
is after and returns, or it waits again. -/
inductive Turn (s : State) : Cont → State → Prop
  | mutexIn {m : MtxId} (h : ¬ MutexBusy m s) : Turn s (.mutexEnter m) (mutexEntered m s).toUser
  | mutexWait {m : MtxId} {s' : State} (h : MutexBusy m s)
      (hw : waitOn (.mutexEnter m) waitNotimeout 0 s = .ok s') : Turn s (.mutexEnter m) s'
  | rwIn {lk : RwMode} {r : RwId} (h : RwOpen r s lk) :
      Turn s (.rwEnter lk r) (rwEntered r s lk).toUser
  | rwWait {lk : RwMode} {r : RwId} {s' : State} (h : ¬ RwOpen r s lk)
      (hw : waitOn (.rwEnter lk r) waitNotimeout 0 s = .ok s') : Turn s (.rwEnter lk r) s'
  | cvIn {kind : CvKind} {c : CvId} {m : MtxId} (h : ¬ MutexBusy m s) :
      Turn s (.cvWait kind c m) { mutexEntered m s with
        cv := Function.update s.cv c { nwaiters := (s.cv c).nwaiters - 1 } }.toUser
  | bare {q : Queue} : Turn s (.bare q) s.toUser

theorem mutexEnterLoop_eq (m : MtxId) (s : State) :
    mutexEnterLoop m s = if MutexBusy m s then waitOn (.mutexEnter m) waitNotimeout 0 s
      else .ok (mutexEntered m s).toUser := by
  rw [mutexEnterLoop, mutexTryenter_eq]
  by_cases hb : MutexBusy m s
  · rw [if_pos hb, if_pos hb]
  · rw [if_neg hb, if_neg hb]

theorem mutexEnterLoop_turn {m : MtxId} {s s' : State} (h : mutexEnterLoop m s = .ok s') :
    Turn s (.mutexEnter m) s' := by
  rw [mutexEnterLoop_eq] at h
  split at h
  next hb => exact .mutexWait hb h
  next hb =>
    cases h
    exact .mutexIn hb

/-- The attempt before the loop is the first one of the loop. -/
theorem mutexEnter_eq (m : MtxId) (s : State) : mutexEnter m s = mutexEnterLoop m s := by
  rw [mutexEnterLoop_eq, mutexEnter, mutexTryenter_eq]
  by_cases hb : MutexBusy m s
  · rw [if_pos hb, if_pos hb]
    exact (mutexEnterLoop_eq m s).trans (if_pos hb)
  · rw [if_neg hb, if_neg hb]

theorem rwEnterLoop_eq (lk : RwMode) (r : RwId) (s : State) :
    rwEnterLoop lk r s = if RwOpen r s lk then .ok (rwEntered r s lk).toUser
      else waitOn (.rwEnter lk r) waitNotimeout 0 s := by
  rw [rwEnterLoop, rwTryenter_eq]
  by_cases ho : RwOpen r s lk
  · rw [if_pos ho, if_pos ho]
  · rw [if_neg ho, if_neg ho]

theorem rwEnterLoop_turn {lk : RwMode} {r : RwId} {s s' : State}
    (h : rwEnterLoop lk r s = .ok s') : Turn s (.rwEnter lk r) s' := by
  rw [rwEnterLoop_eq] at h
  split at h
  next ho =>
    cases h
    exact .rwIn ho
  next ho => exact .rwWait ho h

theorem rwEnter_eq (lk : RwMode) (r : RwId) (s : State) : rwEnter lk r s = rwEnterLoop lk r s := by
  rw [rwEnterLoop_eq, rwEnter, rwTryenter_eq]
  by_cases ho : RwOpen r s lk
  · rw [if_pos ho, if_pos ho]
  · rw [if_neg ho, if_neg ho]
    exact (rwEnterLoop_eq lk r s).trans (if_neg ho)

theorem cvFinish_eq (c : CvId) (m : MtxId) (s : State) :
    cvFinish c m s = if MutexBusy m s then .error .nowrap
      else .ok { mutexEntered m s with
        cv := Function.update s.cv c { nwaiters := (s.cv c).nwaiters - 1 } }.toUser := by
  unfold cvFinish mutexEnterNowrap
  rw [mutexTryenter_eq]
  by_cases hb : MutexBusy m s
  · rw [if_pos hb, if_pos hb]
    rfl
  · rw [if_neg hb, if_neg hb]
    rfl

theorem afterWait_turn {k : Cont} {s s' : State} (h : afterWait s k = .ok s') : Turn s k s' := by
  cases k with
  | mutexEnter m => exact mutexEnterLoop_turn h
  | rwEnter lk r => exact rwEnterLoop_turn h
  | cvWait kind c m =>
    simp only [afterWait, cvFinish_eq] at h
    split at h
    · cases h
    next hb =>
      cases h
      exact .cvIn hb
  | bare q =>
    cases h
    exact .bare

theorem turn_calm {k : Cont} {s s' : State} (h : Turn s k s') : Calm s s' := by
  cases h with
  | mutexIn => exact (mutexEntered_locks _ s).calm.trans (toUser_calm _)
  | mutexWait _ hw => exact waitOn_calm hw
  | rwIn => exact (rwEntered_locks _ s _).calm.trans (toUser_calm _)
  | rwWait _ hw => exact waitOn_calm hw
  | cvIn =>
    refine Calm.trans (OnlyLocks.calm ?_) (toUser_calm _)
    rfl
  | bare => exact toUser_calm s

/-- The state behind the decrement of `mutex_exit`. -/
def mutexLeft (m : MtxId) (s : State) : State :=
  { s with
    mtx := Function.update s.mtx m
      (if (s.mtx m).v - 1 = 0 then { v := (s.mtx m).v - 1, o := none }
        else { s.mtx m with v := (s.mtx m).v - 1 })
    depth := Function.update s.depth m
      (Function.update (s.depth m) s.current (s.depth m s.current - 1)) }

theorem mutexLeft_locks (m : MtxId) (s : State) : OnlyLocks s (mutexLeft m s) := rfl

/-- `mutex_exit` that gets past its assertion counts down and then, if this
was the last exit, wakes one waiter. -/
theorem mutexExit_ok {m : MtxId} {s s' : State} (h : mutexExit m s = .ok s') :
    0 < (s.mtx m).v ∧
      ((s.mtx m).v = 1 ∧ s' = wakeupOne (.mtx m) (mutexLeft m s) ∨
        (s.mtx m).v ≠ 1 ∧ s' = mutexLeft m s) := by
  unfold mutexExit at h
  dsimp only at h
  split at h
  · cases h
  next hv =>
    refine ⟨by omega, ?_⟩
    split at h
    next h1 =>
      cases h
      refine .inl ⟨by omega, ?_⟩
      simp [mutexLeft, h1, Function.update_idem]
    next h1 =>
      cases h
      refine .inr ⟨by omega, ?_⟩
      simp [mutexLeft, h1]

theorem mutexExit_calm {m : MtxId} {s s' : State} (h : mutexExit m s = .ok s') : Calm s s' := by
  obtain ⟨_, ⟨_, rfl⟩ | ⟨_, rfl⟩⟩ := mutexExit_ok h
  · exact (mutexLeft_locks m s).calm.trans (wakeupOne_calm _ _)
  · exact (mutexLeft_locks m s).calm

/-- The state in which `rw_exit` looks for someone to wake. -/
def rwReleased (r : RwId) (s : State) : State :=
  { dropHold r s with rw := Function.update s.rw r (rwRelease (s.rw r)) }

theorem rwExit_eq (r : RwId) (s : State) : rwExit r s = rwHandOver r (rwReleased r s) := rfl

theorem rwReleased_locks (r : RwId) (s : State) : OnlyLocks s (rwReleased r s) := by
  unfold rwReleased dropHold
  split
  · rfl
  · rfl

theorem rwHandOver_calm (r : RwId) (s : State) : Calm s (rwHandOver r s) := by
  unfold rwHandOver
  split
  · split
    · exact wakeupOne_calm _ _
    · exact Calm.refl s
  · split
    · exact wakeupAll_calm _ _
    · exact Calm.refl s

theorem rwExit_calm (r : RwId) (s : State) : Calm s (rwExit r s) :=
  (rwReleased_locks r s).calm.trans (rwHandOver_calm _ _)

theorem rwDowngrade_locks {r : RwId} {s s' : State} (h : rwDowngrade r s = .ok s') :
    OnlyLocks s s' := by
  unfold rwDowngrade at h
  split at h
  · cases h
  · cases h
    rfl

theorem rwTryupgrade_locks (r : RwId) (s : State) : OnlyLocks s (rwTryupgrade r s).2 := by
  unfold rwTryupgrade
  split
  · rfl
  · exact OnlyLocks.refl s

/-- The two halves of a wait on a condition variable, taken apart. -/
theorem cvBegin_ok {kind : CvKind} {c : CvId} {m : MtxId} {nsec tm : Int} {s s' : State}
    (h : cvBegin kind c m nsec tm s = .ok s') :
    ∃ s₁, mutexExit m { s with cv := Function.update s.cv c { nwaiters := (s.cv c).nwaiters + 1 } } =
      .ok s₁ ∧ waitOn (.cvWait kind c m) nsec tm s₁ = .ok s' := by
  unfold cvBegin at h
  cases he : mutexExit m
      { s with cv := Function.update s.cv c { nwaiters := (s.cv c).nwaiters + 1 } } with
  | error why =>
    rw [he] at h
    cases h
  | ok s₁ =>
    rw [he] at h
    exact ⟨s₁, rfl, h⟩

theorem cvBegin_calm {kind : CvKind} {c : CvId} {m : MtxId} {nsec tm : Int} {s s' : State}
    (h : cvBegin kind c m nsec tm s = .ok s') : Calm s s' := by
  obtain ⟨s₁, hm, hw⟩ := cvBegin_ok h
  refine Calm.trans (Calm.trans ?_ (mutexExit_calm hm)) (waitOn_calm hw)
  exact Calm.data rfl (Later.of_eq rfl rfl rfl)

/-- What a waiting thread does when it is woken is calm, once the exited threads
have been freed. -/
theorem waited_calm {w : Wid} {k : Cont} {s s' : State}
    (h : Turn (waitRet w k.queue (reap s)).2 k s') : Calm (reap s) s' :=
  (waitRet_calm w k.queue (reap s)).trans (turn_calm h)

/-! ## Creation, exit and join -/

theorem wakeJoiner_calm (t : Tid) (s : State) : Calm s (wakeJoiner t s) := by
  unfold wakeJoiner
  split
  · exact wake_calm _ _
  · exact Calm.refl s

theorem wakeJoiner_eq (t : Tid) (s : State) :
    wakeJoiner t s = { s with thread := (wakeJoiner t s).thread } := by
  unfold wakeJoiner
  split <;> rfl

/-- A turn of the gate's loop sets `THREAD_JOINED`, wakes the joiner that is
already there, and changes nothing else about other threads. -/
theorem exitThread_gate {s : State} (hm : (s.thread s.current).mustjoin = true) :
    ∃ th, exitThread s =
        { s with thread := th, pc := Function.update s.pc s.current .exitGate, mode := .sched } ∧
      (∀ u, (th u).lwp = (s.thread u).lwp) ∧
      (∀ u, (th u).mustjoin = (s.thread u).mustjoin) ∧
      (∀ u, u ≠ s.current → (th u).joined = (s.thread u).joined) ∧
      (∀ u, u ≠ s.current → (s.thread u).runnable = true → (th u).runnable = true) ∧
      (∀ jw, s.joinwq.find? (fun jw => jw.wanted = s.current) = some jw → jw.thread ≠ s.current →
        (th jw.thread).runnable = true) ∧
      (∀ u, u ≠ s.current → (th u).runnable = true →
        (s.thread u).runnable = true ∨ ∃ jw ∈ s.joinwq, jw.thread = u) := by
  unfold exitThread
  rw [if_pos hm]
  dsimp only
  generalize hs₁ : s.setThread s.current { s.thread s.current with joined := true } = s₁
  have hoff : ∀ u, u ≠ s.current → s₁.thread u = s.thread u := by
    intro u hu
    simp [← hs₁, State.setThread, hu]
  have hon : (s₁.thread s.current).lwp = (s.thread s.current).lwp ∧
      (s₁.thread s.current).mustjoin = (s.thread s.current).mustjoin := by
    simp [← hs₁, State.setThread]
  have hc := (wakeJoiner_calm s.current s₁)
  have heq : s₁ = { s with thread := s₁.thread } := by
    rw [← hs₁]
    rfl
  refine ⟨(block s.current (wakeJoiner s.current s₁)).thread, ?_, ?_, ?_, ?_, ?_, ?_, ?_⟩
  · rw [wakeJoiner_eq s.current s₁, heq]
    rfl
  · intro u
    by_cases hu : u = s.current
    · subst hu
      simpa [block, State.setThread] using (hc.lwp _).trans hon.1
    · simpa [block, State.setThread, hu] using (hc.lwp u).trans (by rw [hoff u hu])
  · intro u
    rw [block_mustjoin, hc.mustjoin]
    by_cases hu : u = s.current
    · subst hu
      exact hon.2
    · rw [hoff u hu]
  · intro u hu
    rw [block_joined, hc.joined, hoff u hu]
  · intro u hu hr
    have hr' : ((wakeJoiner s.current s₁).thread u).runnable = true := by
      refine hc.runnable u ?_ ?_
      · rw [← hs₁]
        exact hu
      · rw [hoff u hu]
        exact hr
    simp [hu, hr']
  · intro jw hf hne
    have hw : wakeJoiner s.current s₁ = wake jw.thread s₁ := by
      unfold wakeJoiner
      rw [← hs₁]
      simp only [State.setThread, hf]
    rw [hw]
    simp [hne]
  · intro u hu hr
    have hjq : s₁.joinwq = s.joinwq := by rw [heq]
    have hr' : ((wakeJoiner s.current s₁).thread u).runnable = true := by simpa [hu] using hr
    unfold wakeJoiner at hr'
    split at hr'
    next jw hf =>
      rw [wake_runnable, Bool.or_eq_true, decide_eq_true_eq, hoff u hu] at hr'
      rcases hr' with rfl | hold
      · exact .inr ⟨jw, hjq ▸ List.mem_of_find?_eq_some hf, rfl⟩
      · exact .inl hold
    next =>
      rw [hoff u hu] at hr'
      exact .inl hr'

theorem exitThread_leave {s : State} (hm : (s.thread s.current).mustjoin = false) :
    exitThread s = { s with
      thread := Function.update s.thread s.current { s.thread s.current with runnable := false }
      threadList := s.threadList.erase s.current
      exitedThreads := s.current :: s.exitedThreads
      pc := Function.update s.pc s.current .exited
      mode := .sched } := by
  unfold exitThread
  rw [if_neg (by simp [hm])]
  rfl

/-- What an exit changes, whoever waits for it. -/
theorem exitThread_frame (s : State) : ∃ th tl ex p, exitThread s = { s with
      thread := th, threadList := tl, exitedThreads := ex
      pc := Function.update s.pc s.current p, mode := .sched } ∧
    (∀ w k, p ≠ .wait w k) ∧ (∀ u, (th u).lwp = (s.thread u).lwp) ∧
    ∀ u, (th u).mustjoin = (s.thread u).mustjoin := by
  cases hm : (s.thread s.current).mustjoin with
  | true =>
    obtain ⟨th, he, hlwp, hmust, _⟩ := exitThread_gate hm
    exact ⟨th, _, _, _, he, nofun, hlwp, hmust⟩
  | false =>
    refine ⟨_, _, _, _, exitThread_leave hm, nofun, fun u => ?_, fun u => ?_⟩
    all_goals
      by_cases hu : u = s.current
      · subst hu
        simp
      · simp [hu]

/-- The state behind a `create_thread` that succeeds. -/
def threadMade (t : Tid) (joinable extstack : Bool) (s : State) : State :=
  { s.setThread t (newThread joinable extstack) with
    pc := Function.update s.pc t .fresh
    threadList := s.threadList ++ [t]
    created := s.created ++ [t] }

theorem createThread_eq (mem : Option Tid) (joinable extstack mmapOk : Bool) (s : State) :
    createThread mem joinable extstack mmapOk s = s ∨
      ∃ t, mem = some t ∧
        createThread mem joinable extstack mmapOk s = threadMade t joinable extstack s := by
  unfold createThread
  cases mem with
  | none => exact .inl rfl
  | some t =>
    dsimp only
    split
    · exact .inl rfl
    · exact .inr ⟨t, rfl, rfl⟩

theorem exitThread_later (s : State) : Later s (exitThread s) := by
  obtain ⟨th, tl, ex, p, he, -⟩ := exitThread_frame s
  rw [he]
  exact Later.of_eq rfl rfl rfl

/-- A turn of the loop of `join_thread`: the target has shown up and is let
go, or the caller queues up and blocks. -/
theorem joinLoop_ok {t : Tid} {s s' : State} (h : joinLoop t s = .ok s') :
    t ∉ s.freed ∧
      ((s.thread t).joined = true ∧
        s' = (wake t (s.setThread t { s.thread t with mustjoin := false })).toUser ∨
      (s.thread t).joined = false ∧
        s' = (block s.current { s with
          joinwq := s.joinwq ++ [{ thread := s.current, wanted := t }] }).suspend (.join t)) := by
  unfold joinLoop at h
  split at h
  · cases h
  next hf =>
    split at h
    next hj =>
      cases h
      exact ⟨hf, .inl ⟨hj, rfl⟩⟩
    next hj =>
      cases h
      exact ⟨hf, .inr ⟨by simpa using hj, rfl⟩⟩

theorem joinLoop_later {t : Tid} {s s' : State} (h : joinLoop t s = .ok s') : Later s s' := by
  obtain ⟨_, ⟨_, rfl⟩ | ⟨_, rfl⟩⟩ := joinLoop_ok h
  · exact Later.of_eq rfl rfl rfl
  · exact Later.of_eq rfl rfl rfl

/-- `join_thread` that gets past its assertion is its loop, entered once the
caller is on record. -/
theorem joinThread_ok {t : Tid} {s s' : State} (h : joinThread t s = .ok s') :
    t ∉ s.freed ∧ (s.thread t).mustjoin = true ∧
      joinLoop t { s with joiner := Function.update s.joiner t (some s.current) } = .ok s' := by
  unfold joinThread at h
  split at h
  · cases h
  next hf =>
    split at h
    next hm => exact ⟨hf, hm, h⟩
    next => cases h

/-- What a call that did not fail has done: `createThread` and the two that try a
lock with each of their outcomes, the two that may wait as the turn they took. -/
inductive Performed (s : State) : Call → State → Prop
  | refused {mem : Option Tid} {joinable extstack mmapOk : Bool} :
      Performed s (.createThread mem joinable extstack mmapOk) s
  | create {t : Tid} {joinable extstack mmapOk : Bool} :
      Performed s (.createThread (some t) joinable extstack mmapOk)
        (threadMade t joinable extstack s)
  | yield : Performed s .schedule (s.suspend .yield)
  | exit : Performed s .exitThread (exitThread s)
  | join {t : Tid} {s' : State} (hm : (s.thread t).mustjoin = true)
      (h : joinLoop t { s with joiner := Function.update s.joiner t (some s.current) } = .ok s') :
      Performed s (.joinThread t) s'
  | sleep {clk : Clock} {sec nsec tm : Int} :
      Performed s (.clockSleep clk sec nsec tm) (clockSleep clk sec nsec tm s)
  | setCurlwp {l : Option Lwp} :
      Performed s (.setCurlwp l) (s.setThread s.current { s.thread s.current with lwp := l })
  | wait {q : Queue} {nsec tm : Int} {s' : State} (h : waitOn (.bare q) nsec tm s = .ok s') :
      Performed s (.wait q nsec tm) s'
  | wakeupOne {q : Queue} : Performed s (.wakeupOne q) (wakeupOne q s)
  | wakeupAll {q : Queue} : Performed s (.wakeupAll q) (wakeupAll q s)
  | mutexEnter {m : MtxId} {s' : State} (h : Turn s (.mutexEnter m) s') :
      Performed s (.mutexEnter m) s'
  | mutexBusy {m : MtxId} (h : MutexBusy m s) : Performed s (.mutexTryenter m) s
  | mutexIn {m : MtxId} (h : ¬MutexBusy m s) : Performed s (.mutexTryenter m) (mutexEntered m s)
  | mutexExit {m : MtxId} {s' : State} (h : mutexExit m s = .ok s') : Performed s (.mutexExit m) s'
  | rwEnter {lk : RwMode} {r : RwId} {s' : State} (h : Turn s (.rwEnter lk r) s') :
      Performed s (.rwEnter lk r) s'
  | rwBusy {lk : RwMode} {r : RwId} (h : ¬RwOpen r s lk) : Performed s (.rwTryenter lk r) s
  | rwIn {lk : RwMode} {r : RwId} (h : RwOpen r s lk) :
      Performed s (.rwTryenter lk r) (rwEntered r s lk)
  | rwExit {r : RwId} : Performed s (.rwExit r) (rwExit r s)
  | rwDowngrade {r : RwId} {s' : State} (h : rwDowngrade r s = .ok s') :
      Performed s (.rwDowngrade r) s'
  | rwTryupgrade {r : RwId} : Performed s (.rwTryupgrade r) (rwTryupgrade r s).2
  | cvWait {c : CvId} {m : MtxId} {s' : State} (h : cvBegin .wait c m waitNotimeout 0 s = .ok s') :
      Performed s (.cvWait c m) s'
  | cvWaitNowrap {c : CvId} {m : MtxId} {s' : State}
      (h : cvBegin .nowrap c m waitNotimeout 0 s = .ok s') : Performed s (.cvWaitNowrap c m) s'
  | cvTimedwait {c : CvId} {m : MtxId} {sec nsec tm : Int} {s' : State}
      (h : cvBegin .timed c m (i64 (sec * 1000 * 1000 * 1000 + nsec)) tm s = .ok s') :
      Performed s (.cvTimedwait c m sec nsec tm) s'
  | cvSignal {c : CvId} : Performed s (.cvSignal c) (Threads.wakeupOne (.cv c) s)
  | cvBroadcast {c : CvId} : Performed s (.cvBroadcast c) (Threads.wakeupAll (.cv c) s)

theorem exec_performed {c : Call} {s s' : State} (h : exec s c = .ok s') : Performed s c s' := by
  cases c with
  | createThread mem joinable extstack mmapOk =>
    cases h
    obtain he | ⟨t, rfl, he⟩ := createThread_eq mem joinable extstack mmapOk s
    · rw [he]
      exact .refused
    · rw [he]
      exact .create
  | joinThread t =>
    obtain ⟨_, hm, hj⟩ := joinThread_ok h
    exact .join hm hj
  | mutexTryenter m =>
    cases h
    rw [mutexTryenter_eq]
    split
    next hb => exact .mutexBusy hb
    next hb => exact .mutexIn hb
  | rwTryenter lk r =>
    cases h
    rw [rwTryenter_eq]
    split
    next ho => exact .rwIn ho
    next ho => exact .rwBusy ho
  | mutexEnter m => exact .mutexEnter (mutexEnterLoop_turn ((mutexEnter_eq m s).symm.trans h))
  | rwEnter lk r => exact .rwEnter (rwEnterLoop_turn ((rwEnter_eq lk r s).symm.trans h))
  | wait q nsec tm => exact .wait h
  | mutexExit m => exact .mutexExit h
  | rwDowngrade r => exact .rwDowngrade h
  | cvWait c m => exact .cvWait h
  | cvWaitNowrap c m => exact .cvWaitNowrap h
  | cvTimedwait c m sec nsec tm => exact .cvTimedwait h
  | schedule =>
    cases h
    exact .yield
  | exitThread =>
    cases h
    exact .exit
  | clockSleep clk sec nsec tm =>
    cases h
    exact .sleep
  | setCurlwp l =>
    cases h
    exact .setCurlwp
  | wakeupOne q =>
    cases h
    exact .wakeupOne
  | wakeupAll q =>
    cases h
    exact .wakeupAll
  | rwExit r =>
    cases h
    exact .rwExit
  | rwTryupgrade r =>
    cases h
    exact .rwTryupgrade
  | cvSignal c =>
    cases h
    exact .cvSignal
  | cvBroadcast c =>
    cases h
    exact .cvBroadcast

/-- The calls that change the lists of threads, the join protocol or an lwp. -/
def Call.isCalm : Call → Bool
  | .createThread _ _ _ _ | .exitThread | .joinThread _ | .setCurlwp _ => false
  | _ => true

/-- Every other call is calm. -/
theorem exec_calm {c : Call} {s s' : State} (hc : c.isCalm = true) (h : exec s c = .ok s') :
    Calm s s' := by
  cases exec_performed h with
  | refused | create | exit | join | setCurlwp => cases hc
  | yield => exact suspend_calm rfl s
  | sleep => exact clockSleep_calm _ _ _ _ s
  | wait hw => exact waitOn_calm hw
  | wakeupOne | cvSignal => exact wakeupOne_calm _ s
  | wakeupAll | cvBroadcast => exact wakeupAll_calm _ s
  | mutexEnter ht | rwEnter ht => exact turn_calm ht
  | mutexBusy | rwBusy => exact Calm.refl s
  | mutexIn => exact (mutexEntered_locks _ s).calm
  | mutexExit hx => exact mutexExit_calm hx
  | rwIn => exact (rwEntered_locks _ s _).calm
  | rwExit => exact rwExit_calm _ s
  | rwDowngrade hd => exact (rwDowngrade_locks hd).calm
  | rwTryupgrade => exact (rwTryupgrade_locks _ s).calm
  | cvWait hb | cvWaitNowrap hb | cvTimedwait hb => exact cvBegin_calm hb

/-- The calls that are not calm make a thread, end or join one, or change an lwp. -/
inductive Calling (s : State) : Call → State → Prop
  | calm {c : Call} {s' : State} (h : Calm s s') : Calling s c s'
  | create {t : Tid} {joinable extstack mmapOk : Bool} :
      Calling s (.createThread (some t) joinable extstack mmapOk)
        (threadMade t joinable extstack s)
  | exit : Calling s .exitThread (exitThread s)
  | join {t : Tid} {s' : State} (hm : (s.thread t).mustjoin = true)
      (h : joinLoop t { s with joiner := Function.update s.joiner t (some s.current) } = .ok s') :
      Calling s (.joinThread t) s'
  | setCurlwp {l : Option Lwp} :
      Calling s (.setCurlwp l) (s.setThread s.current { s.thread s.current with lwp := l })

theorem exec_inv {c : Call} {s s' : State} (h : exec s c = .ok s') : Calling s c s' := by
  by_cases hc : c.isCalm = true
  · exact .calm (exec_calm hc h)
  · cases exec_performed h with
    | refused => exact .calm (Calm.refl s)
    | create => exact .create
    | exit => exact .exit
    | join hm hj => exact .join hm hj
    | setCurlwp => exact .setCurlwp
    | _ => exact absurd rfl hc

/-- What a thread may do that is given the processor back. -/
inductive Resuming (s : State) : Pc → State → Prop
  | running : Resuming s .running s.toUser
  | fresh : Resuming s .fresh s.toUser
  | yield : Resuming s .yield (reap s).toUser
  | sleep : Resuming s .sleep (reap s).toUser
  | wait {w : Wid} {k : Cont} {s' : State} (h : Turn (waitRet w k.queue (reap s)).2 k s') :
      Resuming s (.wait w k) s'
  | join {t : Tid} {s' : State}
      (h : joinLoop t { reap s with
        joinwq := s.joinwq.erase { thread := s.current, wanted := t } } = .ok s') :
      Resuming s (.join t) s'
  | gate : Resuming s .exitGate (exitThread (reap s))
  | exited : Resuming s .exited ((reap s).suspend .exited)

theorem resume_inv {p : Pc} {s s' : State} (h : resume s p = .ok s') : Resuming s p s' := by
  cases p with
  | running =>
    cases h
    exact .running
  | fresh =>
    cases h
    exact .fresh
  | yield =>
    cases h
    exact .yield
  | sleep =>
    cases h
    exact .sleep
  | wait w k => exact .wait (afterWait_turn h)
  | join t => exact .join h
  | exitGate =>
    cases h
    exact .gate
  | exited =>
    cases h
    exact .exited

theorem exec_later {c : Call} {s s' : State} (h : exec s c = .ok s') : Later s s' := by
  cases exec_inv h with
  | calm hc => exact hc.later
  | create => exact Later.of_eq rfl rfl rfl
  | exit => exact exitThread_later s
  | join _ hj =>
    have hl := joinLoop_later hj
    exact ⟨hl.hist, hl.nextWid, hl.who⟩
  | setCurlwp => exact Later.of_eq rfl rfl rfl

theorem resume_later {p : Pc} {s s' : State} (h : resume s p = .ok s') : Later s s' := by
  have hreap : Later s (reap s) := Later.of_eq rfl rfl rfl
  cases resume_inv h with
  | running | fresh => exact (toUser_calm s).later
  | yield | sleep => exact hreap.trans (toUser_calm (reap s)).later
  | wait ht => exact hreap.trans (waited_calm ht).later
  | join hj =>
    have hl := joinLoop_later hj
    exact ⟨hl.hist, hl.nextWid, hl.who⟩
  | gate => exact hreap.trans (exitThread_later (reap s))
  | exited => exact Later.of_eq rfl rfl rfl

/-! ## The steps of the machine -/

theorem expire_expire (tm : Int) (x : Thread) : expire tm (expire tm x) = expire tm x := by
  unfold expire
  split
  · simp
  · rfl

/-- The loop over `thread_list` does nothing to a thread but let its deadline
expire, and stops at a runnable one. -/
theorem scan_frame {tm : Int} {ts : List Tid} {th th' : Tid → Thread} {wakeup wakeup' : Int}
    {r : Option Tid} (h : scan tm ts th wakeup = (r, th', wakeup')) :
    (∀ t, th' t = th t ∨ th' t = expire tm (th t)) ∧
      ∀ n, r = some n → n ∈ ts ∧ (th' n).runnable = true := by
  induction ts generalizing th wakeup with
  | nil =>
    simp only [scan, Prod.mk.injEq] at h
    obtain ⟨rfl, rfl, rfl⟩ := h
    exact ⟨fun _ => .inl rfl, fun n hn => by cases hn⟩
  | cons t ts ih =>
    simp only [scan] at h
    split at h
    next hr =>
      simp only [Prod.mk.injEq] at h
      obtain ⟨rfl, rfl, rfl⟩ := h
      refine ⟨fun u => ?_, ?_⟩
      · by_cases hu : u = t
        · subst hu
          exact .inr (by simp)
        · exact .inl (by simp [hu])
      · rintro n ⟨rfl⟩
        exact ⟨List.mem_cons_self, by simpa using hr⟩
    next =>
      obtain ⟨hth, hn⟩ := ih h
      refine ⟨fun u => ?_, fun n he => ?_⟩
      · by_cases hu : u = t
        · subst hu
          refine .inr ?_
          simpa [expire_expire] using hth u
        · simpa [hu] using hth u
      · exact ⟨List.mem_cons_of_mem _ (hn n he).1, (hn n he).2⟩

inductive Step (s : State) : Event → State → Prop
  | call {c : Call} {s' : State} (hu : s.mode = .user) (ha : c.allowed s = true)
      (he : exec s c = .ok s') : Step s (.call c) s'
  | callAbort {c : Call} {why : Abort} (hu : s.mode = .user) (he : exec s c = .error why) :
      Step s (.call c) { s with mode := .dead why }
  | switch {tm : Int} {n : Tid} {th : Tid → Thread} (hm : n ∈ s.threadList)
      (hth : ∀ t, th t = s.thread t ∨ th t = expire tm (s.thread t))
      (hr : (th n).runnable = true) (hq : s.mode = .sched ∨ s.mode.isIdle = true) :
      Step s (.pass tm)
        { s with thread := th, threadList := s.threadList.erase n ++ [n], current := n, mode := .back }
  | idle {tm : Int} {th : Tid → Thread} {sl : Timespec}
      (hth : ∀ t, th t = s.thread t ∨ th t = expire tm (s.thread t))
      (hq : s.mode = .sched ∨ s.mode.isIdle = true) :
      Step s (.pass tm) { s with thread := th, mode := .idle sl }
  | extWake {t : Tid} (hi : s.mode.isIdle = true)
      (ht : t ∈ s.threadList ∨ t ∈ s.exitedThreads) : Step s (.extWake t) (wake t s)
  | resume {s' : State} (hb : s.mode = .back) (he : resume s (s.pc s.current) = .ok s') :
      Step s .resume s'
  | resumeAbort {why : Abort} (hb : s.mode = .back)
      (he : Threads.resume s (s.pc s.current) = .error why) :
      Step s .resume { s with mode := .dead why }

theorem pass_step {s : State} (hq : s.mode = .sched ∨ s.mode.isIdle = true) (tm : Int) :
    Step s (.pass tm) (pass tm s) := by
  unfold pass
  rcases hs : scan tm s.threadList s.thread (i64 (tm + 1000 * 1000)) with ⟨n, th, wakeup⟩
  obtain ⟨hth, hn⟩ := scan_frame hs
  cases n with
  | none => exact .idle hth hq
  | some n =>
    obtain ⟨hm, hr⟩ := hn n rfl
    exact .switch hm hth hr hq

theorem step_inv {s s' : State} {e : Event} (h : step s e = some s') : Step s e s' := by
  cases e with
  | call c =>
    simp only [step] at h
    split at h
    next hc =>
      cases h
      cases he : exec s c with
      | ok s' => exact .call hc.1 hc.2 he
      | error why => exact .callAbort hc.1 he
    next => cases h
  | pass tm =>
    simp only [step] at h
    split at h
    next hq =>
      cases h
      exact pass_step hq tm
    next => cases h
  | extWake t =>
    simp only [step] at h
    split at h
    next hc =>
      cases h
      exact .extWake hc.1 hc.2
    next => cases h
  | resume =>
    simp only [step] at h
    split at h
    next hb =>
      cases h
      cases he : resume s (s.pc s.current) with
      | ok s' => exact .resume hb he
      | error why => exact .resumeAbort hb he
    next => cases h

theorem step_later {s s' : State} {e : Event} (h : step s e = some s') : Later s s' := by
  cases step_inv h with
  | call _ _ he => exact exec_later he
  | callAbort => exact Later.of_eq rfl rfl rfl
  | switch => exact Later.of_eq rfl rfl rfl
  | idle => exact Later.of_eq rfl rfl rfl
  | extWake => exact (wake_calm _ s).later
  | resume _ he => exact resume_later he
  | resumeAbort => exact Later.of_eq rfl rfl rfl

theorem run_later {s s' : State} {tr : List (State × Event)} (hr : Run step s tr s') :
    Later s s' :=
  Run.always (Later.refl s) (fun _ _ _ h hs => h.trans (step_later hs)) hr

/-- What expiry does to a thread: it may become runnable. -/
theorem expire_runnable {tm : Int} {x y : Thread} (h : y = x ∨ y = expire tm x)
    (hr : x.runnable = true) : y.runnable = true := by
  rcases h with rfl | rfl
  · exact hr
  · unfold expire
    split
    · rfl
    · exact hr

theorem expire_frame {tm : Int} {x y : Thread} (h : y = x ∨ y = expire tm x) :
    y.lwp = x.lwp ∧ y.mustjoin = x.mustjoin ∧ y.joined = x.joined := by
  rcases h with rfl | rfl
  · exact ⟨rfl, rfl, rfl⟩
  · unfold expire
    split <;> exact ⟨rfl, rfl, rfl⟩

end Frankenlibc.Threads

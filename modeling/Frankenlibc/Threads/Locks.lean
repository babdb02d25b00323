import Frankenlibc.Threads.WaitQueue

/-!
# Runs of lock operations

The lock properties are about a fixed set of threads, each with an lwp of its
own, that call the lock functions as their interface asks: only a holder
releases. `lawful` is that discipline, `Base` what every such run keeps: the
lwps, and that nobody waits except inside a lock or condition variable
function.
-/
namespace Frankenlibc.Threads.Locks

open Frankenlibc.Lib
open WaitQueue (Sys Ready)

/-- The discipline of one call. The static functions behind the locks are not
called from outside, no thread is created or renamed, and a lock is given up
by a thread that holds it. -/
def lawfulCall (s : State) : Call → Bool
  | .createThread _ _ _ _ | .setCurlwp _ => false
  | .wait _ _ _ | .wakeupOne _ | .wakeupAll _ => false
  | .mutexExit m | .cvWait _ m | .cvWaitNowrap _ m | .cvTimedwait _ m _ _ _ =>
    0 < s.depth m s.current
  | .rwExit r => s.current ∈ s.readers r ∨ s.current ∈ s.writers r
  | .rwDowngrade _ | .rwTryupgrade _ => false
  | _ => true

/-- The calls of a fixed set of threads with fixed lwps, lawful or not. -/
def ordinary : Call → Bool
  | .createThread _ _ _ _ | .setCurlwp _ => false
  | .wait _ _ _ | .wakeupOne _ | .wakeupAll _ => false
  | .rwDowngrade _ | .rwTryupgrade _ => false
  | _ => true

theorem lawfulCall_ordinary {s : State} {c : Call} (h : lawfulCall s c = true) :
    ordinary c = true := by
  cases c <;> first | rfl | cases h

def lawful (s : State) : Event → Bool
  | .call c => lawfulCall s c
  | _ => true

/-! ## What leaves the locks alone -/

structure SameLocks (s s' : State) : Prop where
  mtx : s'.mtx = s.mtx
  depth : s'.depth = s.depth
  rw : s'.rw = s.rw
  readers : s'.readers = s.readers
  writers : s'.writers = s.writers

theorem SameLocks.refl (s : State) : SameLocks s s := ⟨rfl, rfl, rfl, rfl, rfl⟩

theorem SameLocks.trans {s s' s'' : State} (h : SameLocks s s') (h' : SameLocks s' s'') :
    SameLocks s s'' :=
  ⟨h'.mtx.trans h.mtx, h'.depth.trans h.depth, h'.rw.trans h.rw, h'.readers.trans h.readers,
    h'.writers.trans h.writers⟩

theorem waitOn_sameLocks {k : Cont} {nsec tm : Int} {s s' : State}
    (h : waitOn k nsec tm s = .ok s') : SameLocks s s' := by
  obtain ⟨_, th, _, _, rfl⟩ := waitOn_ok h
  exact ⟨rfl, rfl, rfl, rfl, rfl⟩

theorem waitRet_sameLocks (w : Wid) (q : Queue) (s : State) : SameLocks s (waitRet w q s).2 := by
  unfold waitRet
  split <;> exact ⟨rfl, rfl, rfl, rfl, rfl⟩

theorem dequeue_sameLocks (q : Queue) (w : Wid) (ws : List Wid) (s : State) :
    SameLocks s (dequeue q w ws s) := ⟨rfl, rfl, rfl, rfl, rfl⟩

theorem wakeupOne_sameLocks (q : Queue) (s : State) : SameLocks s (wakeupOne q s) := by
  unfold wakeupOne
  split
  · exact SameLocks.refl s
  · exact dequeue_sameLocks _ _ _ s

theorem wakeupLoop_sameLocks (q : Queue) (ws : List Wid) (s : State) :
    SameLocks s (wakeupLoop q ws s) := by
  induction ws generalizing s with
  | nil => exact SameLocks.refl s
  | cons w ws ih => exact (dequeue_sameLocks q w ws s).trans (ih _)

theorem wakeupAll_sameLocks (q : Queue) (s : State) : SameLocks s (wakeupAll q s) :=
  wakeupLoop_sameLocks _ _ s

/-- `wakeup_all` empties its queue and no other. -/
theorem wakeupLoop_waiters {q : Queue} {ws : List Wid} {s : State} (hq : s.waiters q = ws) :
    (wakeupLoop q ws s).waiters q = [] ∧
      ∀ q', q' ≠ q → (wakeupLoop q ws s).waiters q' = s.waiters q' := by
  induction ws generalizing s with
  | nil => exact ⟨hq, fun _ _ => rfl⟩
  | cons w ws ih =>
    obtain ⟨hnil, hother⟩ := ih (s := dequeue q w ws s) (by simp [dequeue, wake, State.setThread])
    refine ⟨hnil, fun q' hq' => ?_⟩
    rw [wakeupLoop, hother q' hq']
    simp [dequeue, wake, State.setThread, hq']

/-- `wakeup_one` leaves every other queue alone. -/
theorem wakeupOne_waiters {q q' : Queue} (hq : q' ≠ q) (s : State) :
    (wakeupOne q s).waiters q' = s.waiters q' := by
  unfold wakeupOne
  split
  · rfl
  · simp [dequeue, wake, State.setThread, hq]

theorem rwHandOver_sameLocks (r : RwId) (s : State) : SameLocks s (rwHandOver r s) := by
  unfold rwHandOver
  split
  · split
    · exact wakeupOne_sameLocks _ s
    · exact SameLocks.refl s
  · split
    · exact wakeupAll_sameLocks _ s
    · exact SameLocks.refl s

theorem clockSleep_sameLocks (clk : Clock) (sec nsec tm : Int) (s : State) :
    SameLocks s (clockSleep clk sec nsec tm s) := by
  cases clk <;> exact ⟨rfl, rfl, rfl, rfl, rfl⟩

theorem exitThread_sameLocks (s : State) : SameLocks s (exitThread s) := by
  obtain ⟨th, tl, ex, p, he, -⟩ := exitThread_frame s
  rw [he]
  exact ⟨rfl, rfl, rfl, rfl, rfl⟩

theorem joinLoop_sameLocks {t : Tid} {s s' : State} (h : joinLoop t s = .ok s') :
    SameLocks s s' := by
  obtain ⟨_, ⟨_, rfl⟩ | ⟨_, rfl⟩⟩ := joinLoop_ok h
  · exact ⟨rfl, rfl, rfl, rfl, rfl⟩
  · exact ⟨rfl, rfl, rfl, rfl, rfl⟩

/-! ## The lwps stay -/

/-- The set of threads and their lwps. -/
structure Frozen (s s' : State) : Prop where
  created : s'.created = s.created
  lwp : ∀ t, (s'.thread t).lwp = (s.thread t).lwp

theorem exitThread_frozen (s : State) : Frozen s (exitThread s) := by
  obtain ⟨th, tl, ex, p, he, -, hlwp, -⟩ := exitThread_frame s
  rw [he]
  exact ⟨rfl, hlwp⟩

theorem joinLoop_frozen {t : Tid} {s s' : State} (h : joinLoop t s = .ok s') : Frozen s s' := by
  obtain ⟨_, ⟨_, rfl⟩ | ⟨_, rfl⟩⟩ := joinLoop_ok h
  · refine ⟨rfl, fun u => ?_⟩
    by_cases hu : u = t
    · subst hu
      simp [State.toUser, wake, State.setThread]
    · simp [State.toUser, wake, State.setThread, hu]
  · refine ⟨rfl, fun u => ?_⟩
    by_cases hu : u = s.current
    · subst hu
      simp [State.suspend, block, State.setThread]
    · simp [State.suspend, block, State.setThread, hu]

theorem exec_frozen {c : Call} {s s' : State} (hl : lawfulCall s c = true)
    (he : exec s c = .ok s') : Frozen s s' := by
  cases exec_inv he with
  | calm hc => exact ⟨hc.created, hc.lwp⟩
  | create => cases hl
  | exit => exact exitThread_frozen s
  | join _ hj =>
    have hf := joinLoop_frozen hj
    exact ⟨hf.created, hf.lwp⟩
  | setCurlwp => cases hl

theorem resume_frozen {p : Pc} {s s' : State} (he : resume s p = .ok s') : Frozen s s' := by
  cases resume_inv he with
  | running | fresh => exact ⟨rfl, fun _ => rfl⟩
  | yield | sleep => exact ⟨rfl, fun _ => rfl⟩
  | wait ht => exact ⟨(waited_calm ht).created, (waited_calm ht).lwp⟩
  | join hj =>
    have hf := joinLoop_frozen hj
    exact ⟨hf.created, hf.lwp⟩
  | gate =>
    have hf := exitThread_frozen (reap s)
    exact ⟨hf.created, hf.lwp⟩
  | exited => exact ⟨rfl, fun _ => rfl⟩

theorem step_frozen {s s' : State} {e : Event} (hl : lawful s e = true)
    (hs : step s e = some s') : Frozen s s' := by
  cases step_inv hs with
  | call _ _ he => exact exec_frozen hl he
  | callAbort => exact ⟨rfl, fun _ => rfl⟩
  | switch _ hth => exact ⟨rfl, fun t => (expire_frame (hth t)).1⟩
  | idle hth => exact ⟨rfl, fun t => (expire_frame (hth t)).1⟩
  | extWake => exact ⟨rfl, (wake_calm _ s).lwp⟩
  | resume _ he => exact resume_frozen he
  | resumeAbort => exact ⟨rfl, fun _ => rfl⟩

/-! ## Who waits for what -/

/-- The wait a call can end in. -/
def callCont : Call → Option Cont
  | .wait q _ _ => some (.bare q)
  | .mutexEnter m => some (.mutexEnter m)
  | .rwEnter lk r => some (.rwEnter lk r)
  | .cvWait c m => some (.cvWait .wait c m)
  | .cvWaitNowrap c m => some (.cvWait .nowrap c m)
  | .cvTimedwait c m _ _ _ => some (.cvWait .timed c m)
  | _ => none

theorem waitOn_cont {k k' : Cont} {nsec tm : Int} {s s' : State} {w : Wid}
    (h : waitOn k nsec tm s = .ok s') (hp : s'.pc s.current = .wait w k') : k' = k := by
  obtain ⟨_, th, _, _, rfl⟩ := waitOn_ok h
  simp only [Function.update_self] at hp
  cases hp
  rfl

theorem turn_cont {k k' : Cont} {s s' : State} {w : Wid} (h : Turn s k s')
    (hp : s'.pc s.current = .wait w k') : k' = k := by
  cases h with
  | mutexIn => simp [State.toUser, mutexEntered] at hp
  | mutexWait _ hw => exact waitOn_cont hw hp
  | @rwIn lk r _ =>
    have hc := (rwEntered_locks r s lk).calm.current
    simp [State.toUser, hc] at hp
  | rwWait _ hw => exact waitOn_cont hw hp
  | cvIn => simp [State.toUser, mutexEntered] at hp
  | bare => simp [State.toUser] at hp

theorem dequeue_pc (q : Queue) (w : Wid) (ws : List Wid) (s : State) :
    (dequeue q w ws s).pc = s.pc := rfl

theorem wakeupOne_pc (q : Queue) (s : State) : (wakeupOne q s).pc = s.pc := by
  unfold wakeupOne
  split <;> rfl

theorem wakeupAll_pc (q : Queue) (s : State) : (wakeupAll q s).pc = s.pc := by
  unfold wakeupAll
  induction s.waiters q generalizing s with
  | nil => rfl
  | cons w ws ih => exact ih (dequeue q w ws s)

theorem rwHandOver_pc (r : RwId) (s : State) : (rwHandOver r s).pc = s.pc := by
  unfold rwHandOver
  split
  · split
    · exact wakeupOne_pc _ s
    · rfl
  · split
    · exact wakeupAll_pc _ s
    · rfl

theorem onlyLocks_pc {s s' : State} (h : OnlyLocks s s') : s'.pc = s.pc := by rw [h]

theorem mutexExit_pc {m : MtxId} {s s' : State} (h : mutexExit m s = .ok s') : s'.pc = s.pc := by
  obtain ⟨_, ⟨_, rfl⟩ | ⟨_, rfl⟩⟩ := mutexExit_ok h
  · rw [wakeupOne_pc]
    rfl
  · rfl

theorem cvBegin_cont {kind : CvKind} {c : CvId} {m : MtxId} {nsec tm : Int} {s s' : State}
    {w : Wid} {k : Cont} (h : cvBegin kind c m nsec tm s = .ok s')
    (hp : s'.pc s.current = .wait w k) : k = .cvWait kind c m := by
  obtain ⟨s₁, hm, hw⟩ := cvBegin_ok h
  have hc : s₁.current = s.current := (mutexExit_calm hm).current
  rw [← hc] at hp
  exact waitOn_cont hw hp

theorem sleepUntil_noWait (tm : Int) (s : State) (w : Wid) (k : Cont) :
    (sleepUntil tm s).pc s.current ≠ .wait w k := by
  simp [sleepUntil, State.suspend, clearRunnable, setDeadline, State.setThread]

theorem exitThread_noWait (s : State) (w : Wid) (k : Cont) :
    (exitThread s).pc s.current ≠ .wait w k := by
  obtain ⟨th, tl, ex, p, he, hp, -⟩ := exitThread_frame s
  simp [he, hp]

theorem exitThread_pc (s : State) {t : Tid} (ht : t ≠ s.current) :
    (exitThread s).pc t = s.pc t := by
  obtain ⟨th, tl, ex, p, he, -⟩ := exitThread_frame s
  simp [he, ht]

theorem joinLoop_pc {t u : Tid} {s s' : State} (h : joinLoop t s = .ok s')
    (hu : u ≠ s.current) : s'.pc u = s.pc u := by
  obtain ⟨_, ⟨_, rfl⟩ | ⟨_, rfl⟩⟩ := joinLoop_ok h
  · simp [State.toUser, wake, State.setThread, hu]
  · simp [State.suspend, block, State.setThread, hu]

/-! ## What leaves alone who waits -/

/-- What a function leaves of the locks and of those who wait: a queue of `P` gets
its first waiter only if another has one, and nobody who has been taken off a
queue is put back. -/
structure Leaves (P : Queue → Prop) (s s' : State) : Prop where
  locks : SameLocks s s'
  frozen : Frozen s s'
  queued : (∃ q, P q ∧ s'.waiters q ≠ []) → ∃ q, P q ∧ s.waiters q ≠ []
  pc : ∀ t w k, s.pc t = .wait w k → s'.pc t = .wait w k
  onlist : ∀ t w k, s.pc t = .wait w k → (s.waiter w).onlist = false →
    (s'.waiter w).onlist = false
  hist : s.hist <+: s'.hist

section Leaves

variable {P : Queue → Prop} {s s' s'' : State}

theorem Leaves.trans (h : Leaves P s s') (h' : Leaves P s' s'') : Leaves P s s'' where
  locks := h.locks.trans h'.locks
  frozen := ⟨h'.frozen.created.trans h.frozen.created,
    fun t => (h'.frozen.lwp t).trans (h.frozen.lwp t)⟩
  queued hq := h.queued (h'.queued hq)
  pc t w k hp := h'.pc t w k (h.pc t w k hp)
  onlist t w k hp ho := h'.onlist t w k (h.pc t w k hp) (h.onlist t w k hp ho)
  hist := h.hist.trans h'.hist

theorem leaves_refl (s : State) : Leaves P s s :=
  ⟨.refl s, ⟨rfl, fun _ => rfl⟩, id, fun _ _ _ => id, fun _ _ _ _ => id, List.prefix_refl _⟩

/-- The current thread, which is not waiting, changes its position. -/
theorem leaves_move (hn : ∀ w k, s.pc s.current ≠ .wait w k) (hl : SameLocks s s')
    (hf : Frozen s s') (hq : s'.waiters = s.waiters) (hw : s'.waiter = s.waiter)
    (hh : s'.hist = s.hist) (hp : ∀ t, t ≠ s.current → s'.pc t = s.pc t) : Leaves P s s' where
  locks := hl
  frozen := hf
  queued h := by rwa [hq] at h
  pc t w k hpk := by
    have ht : t ≠ s.current := by
      rintro rfl
      exact hn w k hpk
    rw [hp t ht, hpk]
  onlist _ _ _ _ ho := by rwa [hw]
  hist := hh ▸ List.prefix_refl _

theorem leaves_toUser (hn : ∀ w k, s.pc s.current ≠ .wait w k) : Leaves P s s.toUser :=
  leaves_move hn ⟨rfl, rfl, rfl, rfl, rfl⟩ ⟨rfl, fun _ => rfl⟩ rfl rfl rfl fun t ht => by
    simp [State.toUser, ht]

theorem leaves_suspend (hn : ∀ w k, s.pc s.current ≠ .wait w k) (p : Pc) :
    Leaves P s (s.suspend p) :=
  leaves_move hn ⟨rfl, rfl, rfl, rfl, rfl⟩ ⟨rfl, fun _ => rfl⟩ rfl rfl rfl fun t ht => by
    simp [State.suspend, ht]

theorem leaves_reap (s : State) : Leaves P s (reap s) :=
  ⟨⟨rfl, rfl, rfl, rfl, rfl⟩, ⟨rfl, fun _ => rfl⟩, id, fun _ _ _ => id, fun _ _ _ _ => id,
    List.prefix_refl _⟩

theorem leaves_exitThread (hn : ∀ w k, s.pc s.current ≠ .wait w k) :
    Leaves P s (exitThread s) := by
  obtain ⟨th, tl, ex, p, he, -⟩ := exitThread_frame s
  exact leaves_move hn (exitThread_sameLocks s) (exitThread_frozen s) (by rw [he]) (by rw [he])
    (by rw [he]) fun t ht => exitThread_pc s ht

/-- The loop of `join_thread`, entered or gone on with. -/
theorem leaves_joinLoop {t : Tid} {j : Tid → Option Tid} {q : List JoinWaiter}
    (hn : ∀ w k, s.pc s.current ≠ .wait w k)
    (h : joinLoop t { s with joiner := j, joinwq := q } = .ok s') : Leaves P s s' := by
  have hl := joinLoop_sameLocks h
  have hf := joinLoop_frozen h
  have hp := fun u => joinLoop_pc h (u := u)
  refine leaves_move hn ⟨hl.mtx, hl.depth, hl.rw, hl.readers, hl.writers⟩ ⟨hf.created, hf.lwp⟩
    ?_ ?_ ?_ hp
  all_goals
    obtain ⟨_, ⟨_, rfl⟩ | ⟨_, rfl⟩⟩ := joinLoop_ok h <;> rfl

theorem leaves_clockSleep (hn : ∀ w k, s.pc s.current ≠ .wait w k) (clk : Clock)
    (sec nsec tm : Int) : Leaves P s (clockSleep clk sec nsec tm s) := by
  have hc := clockSleep_calm clk sec nsec tm s
  refine leaves_move hn (clockSleep_sameLocks clk sec nsec tm s) ⟨hc.created, hc.lwp⟩ ?_ ?_ ?_ hc.pc
  all_goals cases clk <;> rfl

theorem leaves_dequeue {q : Queue} {w : Wid} {ws : List Wid} (hq : s.waiters q = w :: ws) :
    Leaves P s (dequeue q w ws s) where
  locks := dequeue_sameLocks q w ws s
  frozen := ⟨rfl, (dequeue_calm q w ws s).lwp⟩
  queued := by
    rintro ⟨q', hP, hne⟩
    refine ⟨q', hP, ?_⟩
    by_cases he : q' = q
    · rw [he, hq]
      simp
    · simpa [dequeue, wake, State.setThread, he] using hne
  pc _ _ _ hp := hp
  onlist t u _ _ ho := by
    by_cases hu : u = w
    · subst hu
      simp [dequeue, wake, State.setThread]
    · simpa [dequeue, wake, State.setThread, hu] using ho
  hist := List.prefix_append _ _

theorem leaves_wakeupOne (q : Queue) (s : State) : Leaves P s (wakeupOne q s) := by
  unfold wakeupOne
  split
  · exact leaves_refl s
  next hq => exact leaves_dequeue hq

theorem leaves_wakeupLoop {q : Queue} {ws : List Wid} (hq : s.waiters q = ws) :
    Leaves P s (wakeupLoop q ws s) := by
  induction ws generalizing s with
  | nil => exact leaves_refl s
  | cons w ws ih =>
    exact (leaves_dequeue hq).trans (ih (by simp [dequeue, wake, State.setThread]))

theorem leaves_rwHandOver (r : RwId) (s : State) : Leaves P s (rwHandOver r s) := by
  unfold rwHandOver
  split
  · split
    · exact leaves_wakeupOne _ _
    · exact leaves_refl s
  · split
    · exact leaves_wakeupLoop rfl
    · exact leaves_refl s

/-- A wait on a queue that is not one of `P`, or where somebody waits already. -/
theorem leaves_waitOn {k : Cont} {nsec tm : Int} (h : Ready s)
    (hk : P k.queue → ∃ q, P q ∧ s.waiters q ≠ []) (hw : waitOn k nsec tm s = .ok s') :
    Leaves P s s' := by
  have hc := waitOn_calm hw
  have hl := waitOn_sameLocks hw
  obtain ⟨_, th, _, _, rfl⟩ := waitOn_ok hw
  refine ⟨hl, ⟨rfl, hc.lwp⟩, ?_, fun t w k' hp => ?_, fun t w k' hp ho => ?_,
    List.prefix_append _ _⟩
  · rintro ⟨q, hP, hne⟩
    by_cases hq : q = k.queue
    · exact hk (hq ▸ hP)
    · exact ⟨q, hP, by simpa [enqueue, hq] using hne⟩
  · have ht : t ≠ s.current := by
      rintro rfl
      exact h.notWaiting w _ hp
    simpa [ht] using hp
  · have hne : w ≠ s.nextWid := Nat.ne_of_lt (h.inv.place t w _ hp).1
    simpa [enqueue, hne] using ho

/-- A thread that returns from `wait` takes nobody but itself off a queue. -/
theorem waitRet_nonempty {w : Wid} {q q' : Queue} (hne : (waitRet w q s).2.waiters q' ≠ []) :
    s.waiters q' ≠ [] := by
  intro hnil
  apply hne
  unfold waitRet
  split
  · by_cases hq : q' = q
    · subst hq
      simp [hnil]
    · simp [hq, hnil]
  · exact hnil

end Leaves

/-- The current thread waits only for what its call is about. -/
theorem exec_cont {c : Call} {s s' : State} {w : Wid} {k : Cont}
    (hn : ∀ w k, s.pc s.current ≠ .wait w k) (he : exec s c = .ok s')
    (hp : s'.pc s.current = .wait w k) : callCont c = some k := by
  have hsame : s'.pc = s.pc → callCont c = some k := fun h => absurd (h ▸ hp) (hn w k)
  cases exec_performed he with
  | refused | mutexBusy | rwBusy => exact absurd hp (hn w k)
  | @create t =>
    by_cases ht : s.current = t
    · simp [threadMade, ht] at hp
    · simp [threadMade, ht, hn] at hp
  | yield => simp [State.suspend] at hp
  | exit => exact absurd hp (exitThread_noWait s w k)
  | join _ hj =>
    obtain ⟨_, ⟨_, rfl⟩ | ⟨_, rfl⟩⟩ := joinLoop_ok hj
    · simp [State.toUser, wake, State.setThread] at hp
    · simp [State.suspend, block, State.setThread] at hp
  | @sleep clk =>
    cases clk with
    | other => exact absurd hp (hn w k)
    | realtime => exact absurd hp (sleepUntil_noWait _ s w k)
    | monotonic => exact absurd hp (sleepUntil_noWait _ s w k)
  | setCurlwp => exact hsame rfl
  | wait hw => rw [waitOn_cont hw hp]; rfl
  | wakeupOne | cvSignal => exact hsame (wakeupOne_pc _ s)
  | wakeupAll | cvBroadcast => exact hsame (wakeupAll_pc _ s)
  | mutexEnter ht | rwEnter ht => rw [turn_cont ht hp]; rfl
  | mutexIn => exact hsame (onlyLocks_pc (mutexEntered_locks _ s))
  | mutexExit hx => exact hsame (mutexExit_pc hx)
  | rwIn => exact hsame (onlyLocks_pc (rwEntered_locks _ s _))
  | @rwExit r =>
    refine hsame ?_
    rw [rwExit_eq, rwHandOver_pc, onlyLocks_pc (rwReleased_locks r s)]
  | rwDowngrade hd => exact hsame (onlyLocks_pc (rwDowngrade_locks hd))
  | rwTryupgrade => exact hsame (onlyLocks_pc (rwTryupgrade_locks _ s))
  | cvWait hb | cvWaitNowrap hb | cvTimedwait hb => rw [cvBegin_cont hb hp]; rfl

/-! ## What every lawful run keeps -/

structure Base (s : State) : Prop where
  sys : Sys s
  named : ∀ t ∈ s.created, (s.thread t).lwp ≠ none
  distinct : ∀ t ∈ s.created, ∀ u ∈ s.created, (s.thread t).lwp = (s.thread u).lwp → t = u
  noBare : ∀ t w q, s.pc t ≠ .wait w (.bare q)

/-- The threads a lawful run starts with. -/
structure Crew (t : Tid) (ts : List Tid) (lwp : Tid → Option Lwp) : Prop where
  nodup : (t :: ts).Nodup
  named : ∀ u ∈ t :: ts, lwp u ≠ none
  distinct : ∀ u ∈ t :: ts, ∀ v ∈ t :: ts, lwp u = lwp v → u = v

theorem base_boot {t : Tid} {ts : List Tid} {lwp : Tid → Option Lwp} (h : Crew t ts lwp) :
    Base (boot t ts lwp) where
  sys := WaitQueue.sys_boot t ts lwp h.nodup
  named := h.named
  distinct := h.distinct
  noBare u w q := by
    simp only [boot]
    split <;> simp

/-- A call leaves every other thread where it is, or has just created it. -/
theorem exec_pc {c : Call} {s s' : State} (ha : c.allowed s = true) (he : exec s c = .ok s')
    {t : Tid} (ht : t ≠ s.current) :
    s'.pc t = s.pc t ∨ t ∉ s.created ∧ s'.pc t = .fresh := by
  cases exec_inv he with
  | calm hc => exact .inl (hc.pc t ht)
  | @create u =>
    by_cases hu : t = u
    · subst hu
      exact .inr ⟨by simpa [Call.allowed] using ha, by simp [threadMade]⟩
    · exact .inl (by simp [threadMade, hu])
  | exit => exact .inl (exitThread_pc s ht)
  | join _ hj =>
    have hpc := joinLoop_pc (u := t) hj ht
    exact .inl hpc
  | setCurlwp => exact .inl rfl

theorem resume_pc {p : Pc} {s s' : State} (he : resume s p = .ok s') {t : Tid}
    (ht : t ≠ s.current) : s'.pc t = s.pc t := by
  cases resume_inv he with
  | running | fresh => exact (toUser_calm s).pc t ht
  | yield | sleep => exact (toUser_calm (reap s)).pc t ht
  | wait hw => exact (waited_calm hw).pc t ht
  | join hj =>
    have hpc := joinLoop_pc (u := t) hj ht
    exact hpc
  | gate => exact exitThread_pc (reap s) ht
  | exited => simp [State.suspend, reap, ht]

/-- A thread that resumes waits only for what it waited for before. -/
theorem resume_cont {p : Pc} {s s' : State} {w : Wid} {k : Cont} (he : resume s p = .ok s')
    (hp : s'.pc s.current = .wait w k) : ∃ w', p = .wait w' k := by
  cases resume_inv he with
  | running | fresh => simp [State.toUser] at hp
  | yield | sleep => simp [State.toUser, reap] at hp
  | @wait w' k' _ ht =>
    have hc : (waitRet w' k'.queue (reap s)).2.current = s.current :=
      (waitRet_calm w' k'.queue (reap s)).current
    rw [← hc] at hp
    exact ⟨w', by rw [turn_cont ht hp]⟩
  | join hj =>
    obtain ⟨_, ⟨_, rfl⟩ | ⟨_, rfl⟩⟩ := joinLoop_ok hj
    · simp [State.toUser, wake, State.setThread, reap] at hp
    · simp [State.suspend, block, State.setThread, reap] at hp
  | gate => exact absurd hp (exitThread_noWait (reap s) w k)
  | exited => simp [State.suspend, reap] at hp

/-- A waiting thread waited before the step, or its own step put it there. -/
theorem step_cont {s s' : State} {e : Event} {t : Tid} {w : Wid} {k : Cont} (h : Sys s)
    (hs : step s e = some s') (hp : s'.pc t = .wait w k) :
    (∃ w', s.pc t = .wait w' k) ∨ ∃ c, e = .call c ∧ callCont c = some k := by
  cases step_inv hs with
  | @call c _ hu ha he =>
    by_cases ht : t = s.current
    · subst ht
      exact .inr ⟨c, rfl, exec_cont (h.user hu) he hp⟩
    · rcases exec_pc ha he ht with hold | ⟨_, hnew⟩
      · rw [hold] at hp
        exact .inl ⟨w, hp⟩
      · rw [hnew] at hp
        cases hp
  | callAbort => exact .inl ⟨w, hp⟩
  | switch => exact .inl ⟨w, hp⟩
  | idle => exact .inl ⟨w, hp⟩
  | extWake => exact .inl ⟨w, hp⟩
  | resume _ he =>
    by_cases ht : t = s.current
    · subst ht
      exact .inl (resume_cont he hp)
    · rw [resume_pc he ht] at hp
      exact .inl ⟨w, hp⟩
  | resumeAbort => exact .inl ⟨w, hp⟩

theorem named_step {s s' : State} {e : Event} (h : ∀ t ∈ s.created, (s.thread t).lwp ≠ none)
    (hl : lawful s e = true) (hs : step s e = some s') :
    ∀ t ∈ s'.created, (s'.thread t).lwp ≠ none := by
  have hf := step_frozen hl hs
  intro t ht
  rw [hf.created] at ht
  rw [hf.lwp]
  exact h t ht

theorem noBare_step {s s' : State} {e : Event} (h : Sys s) (hb : ∀ t w q, s.pc t ≠ .wait w (.bare q))
    (hl : lawful s e = true) (hs : step s e = some s') : ∀ t w q, s'.pc t ≠ .wait w (.bare q) := by
  intro t w q hp
  rcases step_cont h hs hp with ⟨w', hold⟩ | ⟨c, rfl, hc⟩
  · exact hb t w' q hold
  · cases c <;> simp_all [callCont, lawful, lawfulCall]

theorem base_step {s s' : State} {e : Event} (h : Base s) (hl : lawful s e = true)
    (hs : step s e = some s') : Base s' := by
  have hf := step_frozen hl hs
  refine ⟨WaitQueue.sys_step h.sys hs, named_step h.named hl hs, ?_, noBare_step h.sys h.noBare hl hs⟩
  intro t ht u hu
  rw [hf.created] at ht hu
  rw [hf.lwp, hf.lwp]
  exact h.distinct t ht u hu

theorem base_run {s₀ s : State} {tr : List (State × Event)} (h₀ : Base s₀)
    (hr : Run step s₀ tr s) (hg : Guarded (fun s e => lawful s e) tr) : Base s :=
  Run.invariant h₀ (fun _ _ _ h hl hs => base_step h hl hs) hr hg

end Frankenlibc.Threads.Locks

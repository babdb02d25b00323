import Frankenlibc.Threads.Join
import Frankenlibc.Threads.Mutex

/-!
# Condition variables

A thread that comes out of a wait on a condition variable takes its mutex
with `mutex_enter_nowrap`, which aborts if another thread has it. The code
counts on there being one processor. That is enough as long as no thread gives
the processor up while it holds a mutex that a woken waiter is about to take,
and no waiter is woken while the holder of its mutex is off the processor:
`Considerate` runs never reach the abort.
-/
namespace Frankenlibc.Threads.Condvar

open Frankenlibc.Lib
open WaitQueue (Sys Ready)
open Locks

/-- The mutex that a thread inside `cv_wait`, `cv_wait_nowrap` or
`cv_timedwait` takes on its way out. -/
def cvMutex : Pc → Option MtxId
  | .wait _ (.cvWait _ _ m) => some m
  | _ => none

/-- The call enters `schedule`. -/
def blocks (s : State) : Call → Bool
  | .schedule | .exitThread | .wait _ _ _ => true
  | .cvWait _ _ | .cvWaitNowrap _ _ | .cvTimedwait _ _ _ _ _ => true
  | .joinThread t => !(s.thread t).joined
  | .clockSleep clk _ _ _ => clk ≠ .other
  | .mutexEnter m => MutexBusy m s
  | .rwEnter lk r => ¬ RwOpen r s lk
  | _ => false

/-- The entries of `m` that the current thread keeps through the call. -/
def keeps (s : State) (m : MtxId) : Call → Nat
  | .cvWait _ m' | .cvWaitNowrap _ m' | .cvTimedwait _ m' _ _ _ =>
    if m' = m then s.depth m s.current - 1 else s.depth m s.current
  | _ => s.depth m s.current

/-- The step makes `t` runnable: by a signal, a broadcast, a wake from
outside or the expiry of its deadline. -/
def wakes (s : State) (t : Tid) : Event → Bool
  | .call (.cvSignal c) => (s.waiters (.cv c)).head?.any fun w => (s.waiter w).who = t
  | .call (.cvBroadcast c) => (s.waiters (.cv c)).any fun w => (s.waiter w).who = t
  | .extWake u => u = t
  | .pass tm =>
    (s.thread t).runnable = false ∧ 0 ≤ (s.thread t).wakeupTime ∧ (s.thread t).wakeupTime ≤ tm
  | _ => false

/-- A thread that gives up the processor keeps no mutex that a runnable waiter
of a condition variable is about to take. -/
def LetsGo (s : State) (c : Call) : Prop :=
  blocks s c = true → ∀ t ∈ s.created, t ≠ s.current → (s.thread t).runnable = true →
    ∀ m ∈ cvMutex (s.pc t), keeps s m c = 0

/-- A waiter of a condition variable is woken only while its mutex is free, its
own, or held by the thread on the processor. -/
def WakesFair (s : State) (e : Event) : Prop :=
  ∀ t ∈ s.created, wakes s t e = true → ∀ m ∈ cvMutex (s.pc t), ∀ u ∈ s.created,
    0 < s.depth m u → u = t ∨ s.mode = .user ∧ u = s.current

def Considerate (s : State) (e : Event) : Prop :=
  WakesFair s e ∧ match e with
    | .call c => LetsGo s c
    | _ => True

instance (s : State) (c : Call) : Decidable (LetsGo s c) :=
  inferInstanceAs (Decidable (_ → _))

instance (s : State) (e : Event) : Decidable (WakesFair s e) :=
  inferInstanceAs (Decidable (∀ t ∈ s.created, _))

instance (s : State) : (e : Event) → Decidable (Considerate s e)
  | .call c => inferInstanceAs (Decidable (WakesFair s (.call c) ∧ LetsGo s c))
  | .pass tm => inferInstanceAs (Decidable (WakesFair s (.pass tm) ∧ True))
  | .extWake t => inferInstanceAs (Decidable (WakesFair s (.extWake t) ∧ True))
  | .resume => inferInstanceAs (Decidable (WakesFair s .resume ∧ True))

/-- A thread woken out of a wait on a condition variable while the holder of
its mutex sleeps: the process aborts. -/
theorem cv_reacquire_aborts : ∃ tr s, Run step (boot 0 [1] some) tr s ∧
    Guarded (fun s e => lawful s e) tr ∧
    tr.map Prod.snd = [.call (.mutexEnter 0), .call (.cvWait 0 0), .pass 0, .resume,
      .call (.mutexEnter 0), .call (.cvSignal 0), .call (.clockSleep .monotonic 0 5 0), .pass 0,
      .resume] ∧
    s.mode = .dead .nowrap := by
  obtain ⟨tr, s, hr, hp⟩ := exists_run (f := step) (s := boot 0 [1] some)
    [.call (.mutexEnter 0), .call (.cvWait 0 0), .pass 0, .resume, .call (.mutexEnter 0),
      .call (.cvSignal 0), .call (.clockSleep .monotonic 0 5 0), .pass 0, .resume]
    (p := fun tr s => Guarded (fun s e => lawful s e) tr ∧
      tr.map Prod.snd = [.call (.mutexEnter 0), .call (.cvWait 0 0), .pass 0, .resume,
        .call (.mutexEnter 0), .call (.cvSignal 0), .call (.clockSleep .monotonic 0 5 0), .pass 0,
        .resume] ∧
      s.mode = .dead .nowrap) (by decide)
  rw [decide_eq_true_eq] at hp
  exact ⟨tr, s, hr, hp⟩

/-! ## What a call or a resumption can do -/

/-- The current thread goes on, or gives up the processor with the entries
`keep`. Other threads stay where they are with what they hold; those that
become runnable are among `woken` or wait for no condition variable. -/
structure Moves (s s' : State) (keep : MtxId → Nat) (woken : Tid → Prop) : Prop where
  current : s'.current = s.current
  mode : s'.mode = .user ∨ s'.mode = .sched ∧ (∀ m, s'.depth m s.current = keep m) ∧
    ((cvMutex (s'.pc s.current)).isSome → (s'.thread s.current).runnable = false)
  pc : ∀ t, t ≠ s.current → s'.pc t = s.pc t
  depth : ∀ m t, t ≠ s.current → s'.depth m t = s.depth m t
  runnable : ∀ t, t ≠ s.current → (s'.thread t).runnable = true →
    (s.thread t).runnable = true ∨ woken t ∨ cvMutex (s.pc t) = none

/-- A function of the library that returns. -/
theorem moves_return {s s' : State} {keep : MtxId → Nat} {woken : Tid → Prop} (hc : Calm s s')
    (hm : s'.mode = .user) (hd : ∀ m t, t ≠ s.current → s'.depth m t = s.depth m t)
    (hr : ∀ t, t ≠ s.current → (s'.thread t).runnable = true →
      (s.thread t).runnable = true ∨ woken t ∨ cvMutex (s.pc t) = none) : Moves s s' keep woken :=
  ⟨hc.current, .inl hm, hc.pc, hd, hr⟩

theorem moves_waitOn {k : Cont} {nsec tm : Int} {s s' : State} {woken : Tid → Prop}
    (h : waitOn k nsec tm s = .ok s') : Moves s s' (fun m => s.depth m s.current) woken := by
  have hc := waitOn_calm h
  obtain ⟨_, th, hth, hrun, rfl⟩ := waitOn_ok h
  refine ⟨rfl, .inr ⟨rfl, fun m => rfl, fun _ => hrun⟩, hc.pc, fun m t _ => rfl, ?_⟩
  intro t ht hr
  exact .inl (by rw [← hth t ht]; exact hr)

theorem moves_turn {k : Cont} {s s' : State} {woken : Tid → Prop} (ht : Turn s k s') :
    Moves s s' (fun m => s.depth m s.current) woken := by
  have hc := turn_calm ht
  have hentered : ∀ m' m t, t ≠ s.current → (mutexEntered m' s).depth m t = s.depth m t := by
    intro m' m t hne
    by_cases hm : m = m'
    · subst hm
      simp [mutexEntered, hne]
    · simp [mutexEntered, hm]
  cases ht with
  | mutexIn => exact moves_return hc rfl (hentered _) fun t _ hr => .inl hr
  | mutexWait _ hw => exact moves_waitOn hw
  | @rwIn lk r =>
    refine moves_return hc rfl (fun m t _ => ?_) fun t _ hr => .inl ?_
    · cases lk <;> rfl
    · cases lk <;> exact hr
  | rwWait _ hw => exact moves_waitOn hw
  | cvIn => exact moves_return hc rfl (hentered _) fun t _ hr => .inl hr
  | bare => exact moves_return hc rfl (fun _ _ _ => rfl) fun t _ hr => .inl hr

/-- Whoever waits on a queue of a lock waits for no condition variable. -/
theorem queue_cvMutex {s : State} (h : WaitQueue.Inv s) {q : Queue} (hq : ∀ c, q ≠ .cv c)
    {w : Wid} (hw : w ∈ s.waiters q) : cvMutex (s.pc (s.waiter w).who) = none := by
  obtain ⟨_, _, k, hp, hk⟩ := WaitQueue.waiter_waits h hw
  rw [hp]
  cases k with
  | cvWait kind c m => exact absurd hk.symm (hq c)
  | _ => rfl

theorem wakeupOne_woken {q : Queue} {s : State} {t : Tid}
    (hr : ((wakeupOne q s).thread t).runnable = true) :
    (s.thread t).runnable = true ∨ ∃ w, (s.waiters q).head? = some w ∧ (s.waiter w).who = t := by
  unfold wakeupOne at hr
  split at hr
  · exact .inl hr
  next w ws hq =>
    rw [dequeue, wake_runnable, Bool.or_eq_true, decide_eq_true_eq] at hr
    rcases hr with rfl | hr
    · exact .inr ⟨w, by rw [hq]; rfl, by simp⟩
    · exact .inl hr

theorem wakeupLoop_woken {q : Queue} {ws : List Wid} {s : State} {t : Tid}
    (hr : ((wakeupLoop q ws s).thread t).runnable = true) :
    (s.thread t).runnable = true ∨ ∃ w ∈ ws, (s.waiter w).who = t := by
  induction ws generalizing s with
  | nil => exact .inl hr
  | cons w ws ih =>
    rcases ih hr with hd | ⟨u, hu, hwho⟩
    · rw [dequeue, wake_runnable, Bool.or_eq_true, decide_eq_true_eq] at hd
      rcases hd with rfl | hd
      · exact .inr ⟨w, List.mem_cons_self, by simp⟩
      · exact .inl hd
    · refine .inr ⟨u, List.mem_cons_of_mem _ hu, ?_⟩
      rw [← hwho]
      by_cases he : u = w
      · subst he
        simp [dequeue, wake, State.setThread]
      · simp [dequeue, wake, State.setThread, he]

theorem wakeupAll_woken {q : Queue} {s : State} {t : Tid}
    (hr : ((wakeupAll q s).thread t).runnable = true) :
    (s.thread t).runnable = true ∨ ∃ w ∈ s.waiters q, (s.waiter w).who = t :=
  wakeupLoop_woken hr

theorem mutexExit_woken {m : MtxId} {s s' : State} {t : Tid} (h : WaitQueue.Inv s)
    (he : mutexExit m s = .ok s') (hr : (s'.thread t).runnable = true) :
    (s.thread t).runnable = true ∨ cvMutex (s.pc t) = none := by
  obtain ⟨_, ⟨_, rfl⟩ | ⟨_, rfl⟩⟩ := mutexExit_ok he
  · rcases wakeupOne_woken hr with hold | ⟨w, hw, rfl⟩
    · exact .inl hold
    · exact .inr (queue_cvMutex h (q := .mtx m) (by simp) (List.mem_of_mem_head? hw))
  · exact .inl hr

theorem mutexExit_depth {m : MtxId} {s s' : State} (he : mutexExit m s = .ok s') :
    (∀ m' t, t ≠ s.current → s'.depth m' t = s.depth m' t) ∧
      ∀ m', s'.depth m' s.current =
        if m = m' then s.depth m' s.current - 1 else s.depth m' s.current := by
  have hleft : s'.depth = (mutexLeft m s).depth := by
    obtain ⟨_, ⟨_, rfl⟩ | ⟨_, rfl⟩⟩ := mutexExit_ok he
    · exact (wakeupOne_sameLocks _ _).depth
    · rfl
  rw [hleft]
  refine ⟨fun m' t ht => ?_, fun m' => ?_⟩
  · by_cases hm : m' = m
    · subst hm
      simp [mutexLeft, ht]
    · simp [mutexLeft, hm]
  · by_cases hm : m' = m
    · subst hm
      simp [mutexLeft]
    · simp [mutexLeft, hm, Ne.symm hm]

theorem wakeupOne_mode (q : Queue) (s : State) : (wakeupOne q s).mode = s.mode := by
  unfold wakeupOne
  split <;> rfl

theorem wakeupAll_mode (q : Queue) (s : State) : (wakeupAll q s).mode = s.mode := by
  unfold wakeupAll
  induction s.waiters q generalizing s with
  | nil => rfl
  | cons w ws ih => exact ih (dequeue q w ws s)

theorem rwHandOver_mode (r : RwId) (s : State) : (rwHandOver r s).mode = s.mode := by
  unfold rwHandOver
  split
  · split
    · exact wakeupOne_mode _ s
    · rfl
  · split
    · exact wakeupAll_mode _ s
    · rfl

/-- `rw_exit` wakes threads that wait for the lock. -/
theorem rwHandOver_woken {r : RwId} {s : State} {t : Tid}
    (hr : ((rwHandOver r s).thread t).runnable = true) :
    (s.thread t).runnable = true ∨
      ∃ q, (∀ c, q ≠ .cv c) ∧ ∃ w ∈ s.waiters q, (s.waiter w).who = t := by
  unfold rwHandOver at hr
  split at hr
  · split at hr
    · rcases wakeupOne_woken hr with hold | ⟨w, hw, hwho⟩
      · exact .inl hold
      · exact .inr ⟨_, by simp, w, List.mem_of_mem_head? hw, hwho⟩
    · exact .inl hr
  · split at hr
    · rcases wakeupAll_woken hr with hold | ⟨w, hw, hwho⟩
      · exact .inl hold
      · exact .inr ⟨_, by simp, w, hw, hwho⟩
    · exact .inl hr

theorem moves_cvBegin {kind : CvKind} {c : CvId} {m : MtxId} {nsec tm : Int} {s s' : State}
    {woken : Tid → Prop} (hi : WaitQueue.Inv s) (h : cvBegin kind c m nsec tm s = .ok s') :
    Moves s s' (fun m' => if m = m' then s.depth m' s.current - 1 else s.depth m' s.current)
      woken := by
  obtain ⟨s₁, hm, hw⟩ := cvBegin_ok h
  have hc := mutexExit_calm hm
  obtain ⟨hdo, hdc⟩ := mutexExit_depth hm
  have hmv : Moves s₁ s' (fun m => s₁.depth m s₁.current) woken := moves_waitOn hw
  have hcur : s₁.current = s.current := hc.current
  rw [hcur] at hmv
  have hpc := fun t (ht : t ≠ s.current) => hc.pc t ht
  refine ⟨hmv.current.trans hcur, ?_, ?_, ?_, ?_⟩
  · rcases hmv.mode with hu | ⟨hsched, hkeep, hrun⟩
    · exact .inl hu
    · rw [hcur] at hkeep hrun
      refine .inr ⟨hsched, fun m' => ?_, hrun⟩
      rw [hkeep m']
      exact hdc m'
  · intro t ht
    rw [hmv.pc t (hcur ▸ ht)]
    exact hpc t ht
  · intro m' t ht
    rw [hmv.depth m' t (hcur ▸ ht)]
    exact hdo m' t ht
  · intro t ht hr
    have hinv : WaitQueue.Inv { s with
        cv := Function.update s.cv c { nwaiters := (s.cv c).nwaiters + 1 } } :=
      WaitQueue.inv_quiet hi rfl rfl rfl rfl (fun _ _ _ => Iff.rfl) (fun _ _ _ _ hx => hx) fun _ hx => hx
    rcases hmv.runnable t (hcur ▸ ht) hr with hr₁ | hwk | hnone
    · rcases mutexExit_woken hinv hm hr₁ with hold | hnone
      · exact .inl hold
      · exact .inr (.inr hnone)
    · exact .inr (.inl hwk)
    · refine .inr (.inr ?_)
      rw [hpc t ht] at hnone
      exact hnone

theorem moves_sleepUntil {woken : Tid → Prop} (tm : Int) (s : State) :
    Moves s (sleepUntil tm s) (fun m => s.depth m s.current) woken := by
  have hc := sleepUntil_calm tm s
  refine ⟨rfl, .inr ⟨rfl, fun _ => rfl, ?_⟩, hc.pc, fun _ _ _ => rfl, ?_⟩
  · simp [sleepUntil, State.suspend, clearRunnable, setDeadline, State.setThread, cvMutex]
  · intro t ht hr
    exact .inl (by simpa [sleepUntil, State.suspend, clearRunnable, setDeadline, State.setThread,
      ht] using hr)

theorem joinLoop_moves {t : Tid} {s s' : State} {woken : Tid → Prop}
    (hgate : (s.thread t).joined = true → cvMutex (s.pc t) = none) (h : joinLoop t s = .ok s') :
    Moves s s' (fun m => s.depth m s.current) woken := by
  have hpc := fun u (hu : u ≠ s.current) => joinLoop_pc (u := u) h hu
  have hl := joinLoop_sameLocks h
  obtain ⟨_, ⟨hj, rfl⟩ | ⟨_, rfl⟩⟩ := joinLoop_ok h
  · refine ⟨rfl, .inl rfl, hpc, fun m u _ => by rw [hl.depth], ?_⟩
    intro u hu hr
    by_cases hut : u = t
    · subst hut
      exact .inr (.inr (hgate hj))
    · exact .inl (by simpa [State.toUser, wake, State.setThread, hut] using hr)
  · refine ⟨rfl, .inr ⟨rfl, fun m => by rw [hl.depth], ?_⟩, hpc, fun m u _ => by rw [hl.depth], ?_⟩
    · simp [State.suspend, block, State.setThread, cvMutex]
    · intro u hu hr
      exact .inl (by simpa [State.suspend, block, State.setThread, hu] using hr)

theorem exitThread_moves {s : State} {woken : Tid → Prop}
    (hq : ∀ jw ∈ s.joinwq, cvMutex (s.pc jw.thread) = none) :
    Moves s (exitThread s) (fun m => s.depth m s.current) woken := by
  have hpc := fun u (hu : u ≠ s.current) => exitThread_pc s (t := u) hu
  cases hm : (s.thread s.current).mustjoin with
  | true =>
    obtain ⟨th, he, _, _, _, _, _, hwoken⟩ := exitThread_gate hm
    rw [he] at hpc ⊢
    refine ⟨rfl, .inr ⟨rfl, fun m => rfl, by simp [cvMutex]⟩, hpc, fun m u _ => rfl, ?_⟩
    intro u hu hr
    rcases hwoken u hu hr with hold | ⟨jw, hjw, rfl⟩
    · exact .inl hold
    · exact .inr (.inr (hq jw hjw))
  | false =>
    rw [exitThread_leave hm] at hpc ⊢
    refine ⟨rfl, .inr ⟨rfl, fun m => rfl, by simp [cvMutex]⟩, hpc, fun m u _ => rfl, ?_⟩
    intro u hu hr
    exact .inl (by simpa [hu] using hr)

theorem joiners_cvMutex {s : State} (h : Join.Inv s) :
    ∀ jw ∈ s.joinwq, cvMutex (s.pc jw.thread) = none := by
  intro jw hjw
  rw [h.queue jw hjw]
  rfl

theorem joined_cvMutex {s : State} (h : Join.Inv s) {t : Tid} (hj : (s.thread t).joined = true) :
    cvMutex (s.pc t) = none := by
  rcases h.gate t hj with hg | ⟨hg, _⟩ <;> rw [hg] <;> rfl

theorem moves_exec {c : Call} {s s' : State} (hsys : Sys s) (hj : Join.Inv s)
    (hu : s.mode = .user) (hl : ordinary c = true) (he : exec s c = .ok s') :
    Moves s s' (fun m => keeps s m c) (fun t => wakes s t (.call c) = true) ∧
      (s'.mode = .sched → blocks s c = true) := by
  have hi := hsys.waits
  -- a call that returns at once
  have hret : ∀ {x : State}, Calm s x → x.mode = .user →
      (∀ m t, t ≠ s.current → x.depth m t = s.depth m t) →
      (∀ t, (x.thread t).runnable = true → (s.thread t).runnable = true ∨
        wakes s t (.call c) = true ∨ cvMutex (s.pc t) = none) →
      Moves s x (fun m => keeps s m c) (fun t => wakes s t (.call c) = true) ∧
        (x.mode = .sched → blocks s c = true) := fun hc hm hd hr =>
    ⟨moves_return hc hm hd fun t _ => hr t, fun hs => by rw [hm] at hs; cases hs⟩
  cases exec_performed he with
  | refused | create | setCurlwp | wait | wakeupOne | wakeupAll | rwDowngrade | rwTryupgrade =>
    cases hl
  | mutexBusy | rwBusy => exact hret (Calm.refl s) hu (fun _ _ _ => rfl) fun t hr => .inl hr
  | yield =>
    have hc := suspend_calm (p := .yield) rfl s
    exact ⟨⟨rfl, .inr ⟨rfl, fun _ => rfl, by simp [State.suspend, cvMutex]⟩, hc.pc,
      fun _ _ _ => rfl, fun t _ hr => .inl hr⟩, fun _ => rfl⟩
  | exit => exact ⟨exitThread_moves (joiners_cvMutex hj), fun _ => rfl⟩
  | @join t _ _ hloop =>
    have hm : Moves _ s' _ (fun u => wakes s u (.call (.joinThread t)) = true) :=
      joinLoop_moves (by exact fun hjt => joined_cvMutex hj hjt) hloop
    refine ⟨⟨hm.current, hm.mode, hm.pc, hm.depth, hm.runnable⟩, fun hs => ?_⟩
    obtain ⟨_, ⟨_, rfl⟩ | ⟨hjt, _⟩⟩ := joinLoop_ok hloop
    · cases hs
    · simpa [blocks] using hjt
  | @sleep clk =>
    cases clk with
    | other => exact hret (Calm.refl s) hu (fun _ _ _ => rfl) fun t hr => .inl hr
    | realtime => exact ⟨moves_sleepUntil _ s, fun _ => rfl⟩
    | monotonic => exact ⟨moves_sleepUntil _ s, fun _ => rfl⟩
  | mutexEnter ht =>
    refine ⟨moves_turn ht, fun hs => ?_⟩
    cases ht with
    | mutexIn => cases hs
    | mutexWait hb => simpa [blocks] using hb
  | @mutexIn m =>
    refine hret (mutexEntered_locks m s).calm hu (fun m' t ht => ?_) fun t hr => .inl hr
    by_cases hm : m' = m
    · subst hm
      simp [mutexEntered, ht]
    · simp [mutexEntered, hm]
  | mutexExit hx =>
    refine hret (mutexExit_calm hx) ?_ (mutexExit_depth hx).1 fun t hr => ?_
    · obtain ⟨_, ⟨_, rfl⟩ | ⟨_, rfl⟩⟩ := mutexExit_ok hx
      · rw [wakeupOne_mode]
        exact hu
      · exact hu
    · rcases mutexExit_woken hi hx hr with hold | hnone
      · exact .inl hold
      · exact .inr (.inr hnone)
  | rwEnter ht =>
    refine ⟨moves_turn ht, fun hs => ?_⟩
    cases ht with
    | rwIn => cases hs
    | rwWait ho => simpa [blocks] using ho
  | @rwIn lk r =>
    refine hret (rwEntered_locks r s lk).calm ?_ (fun m t _ => ?_) fun t hr => .inl ?_
    · cases lk <;> exact hu
    · cases lk <;> rfl
    · cases lk <;> exact hr
  | @rwExit r =>
    have hrel := rwReleased_locks r s
    have hlock := rwHandOver_sameLocks r (rwReleased r s)
    have hdep : (rwReleased r s).depth = s.depth := by
      unfold rwReleased dropHold
      split <;> rfl
    have hwt : (rwReleased r s).waiters = s.waiters ∧ (rwReleased r s).waiter = s.waiter ∧
        (rwReleased r s).thread = s.thread ∧ (rwReleased r s).mode = s.mode := by
      rw [hrel]
      exact ⟨rfl, rfl, rfl, rfl⟩
    refine hret (rwExit_calm r s) ?_ (fun m t _ => ?_) fun t hr => ?_
    · rw [rwExit_eq, rwHandOver_mode, hwt.2.2.2]
      exact hu
    · rw [rwExit_eq, hlock.depth, hdep]
    · rw [rwExit_eq] at hr
      rcases rwHandOver_woken hr with hold | ⟨q, hq, w, hw, hwho⟩
      · exact .inl (by rw [← hwt.2.2.1]; exact hold)
      · rw [hwt.1] at hw
        rw [hwt.2.1] at hwho
        exact .inr (.inr (hwho ▸ queue_cvMutex hi hq hw))
  | cvWait hb | cvWaitNowrap hb | cvTimedwait hb => exact ⟨moves_cvBegin hi hb, fun _ => rfl⟩
  | cvSignal =>
    refine hret (wakeupOne_calm _ s) (by rw [wakeupOne_mode]; exact hu)
      (fun m t _ => by rw [(wakeupOne_sameLocks _ s).depth]) fun t hr => ?_
    rcases wakeupOne_woken hr with hold | ⟨w, hw, hwho⟩
    · exact .inl hold
    · exact .inr (.inl (by simp [wakes, hw, hwho]))
  | cvBroadcast =>
    refine hret (wakeupAll_calm _ s) (by rw [wakeupAll_mode]; exact hu)
      (fun m t _ => by rw [(wakeupAll_sameLocks _ s).depth]) fun t hr => ?_
    rcases wakeupAll_woken hr with hold | ⟨w, hw, hwho⟩
    · exact .inl hold
    · exact .inr (.inl (List.any_eq_true.mpr ⟨w, hw, by simpa using hwho⟩))

theorem moves_resume {p : Pc} {s s' : State} (hj : Join.Inv s) (hp : s.pc s.current = p)
    (he : resume s p = .ok s') :
    Moves s s' (fun m => s.depth m s.current) (fun _ => False) := by
  have huser : ∀ {x : State}, Calm s x → x.depth = s.depth → x.thread = s.thread →
      x.mode = .user → Moves s x (fun m => s.depth m s.current) (fun _ => False) :=
    fun hc hd hth hm => moves_return hc hm (fun m t _ => by rw [hd]) fun t _ hr => .inl (hth ▸ hr)
  cases resume_inv he with
  | running | fresh => exact huser (toUser_calm s) rfl rfl rfl
  | yield | sleep =>
    exact ⟨rfl, .inl rfl, (toUser_calm (reap s)).pc, fun _ _ _ => rfl, fun t _ hr => .inl hr⟩
  | @wait w k _ ht =>
    have hc := waitRet_calm w k.queue (reap s)
    have hl := waitRet_sameLocks w k.queue (reap s)
    have hth : (waitRet w k.queue (reap s)).2.thread = s.thread := by
      unfold waitRet
      split <;> rfl
    have hcur : (waitRet w k.queue (reap s)).2.current = s.current := hc.current
    have hm : Moves _ s' _ (fun _ => False) := moves_turn ht
    have hdep : (waitRet w k.queue (reap s)).2.depth = s.depth := hl.depth
    have hpc : ∀ t, t ≠ s.current → (waitRet w k.queue (reap s)).2.pc t = s.pc t := hc.pc
    refine ⟨hm.current.trans hcur, ?_, ?_, ?_, ?_⟩
    · have hmode := hm.mode
      rw [hcur, hdep] at hmode
      exact hmode
    · exact fun t hne => (hm.pc t (hcur ▸ hne)).trans (hpc t hne)
    · exact fun m t hne => by rw [hm.depth m t (hcur ▸ hne), hdep]
    · intro t hne hr
      have hrun := hm.runnable t (hcur ▸ hne) hr
      rw [hth, hpc t hne] at hrun
      exact hrun
  | join hloop =>
    have hm : Moves _ s' _ (fun _ => False) :=
      joinLoop_moves (by exact fun hjt => joined_cvMutex hj hjt) hloop
    exact ⟨hm.current, hm.mode, hm.pc, hm.depth, hm.runnable⟩
  | gate =>
    have hm : Moves _ _ _ (fun _ => False) :=
      exitThread_moves (s := reap s) (by exact joiners_cvMutex (Join.inv_reap hj))
    exact ⟨hm.current, hm.mode, hm.pc, hm.depth, hm.runnable⟩
  | exited =>
    refine ⟨rfl, .inr ⟨rfl, fun _ => rfl, by simp [State.suspend, reap, cvMutex]⟩, ?_,
      fun _ _ _ => rfl, fun t _ hr => .inl hr⟩
    intro t ht
    simp [State.suspend, reap, ht]

/-! ## The invariant -/

/-- Whoever holds the mutex that a runnable waiter is about to take is that
waiter, or is running its own code on the processor. -/
def Clear (s : State) : Prop :=
  ∀ t m u, cvMutex (s.pc t) = some m → (s.thread t).runnable = true → 0 < s.depth m u →
    u = t ∨ s.mode = .user ∧ u = s.current

structure Inv (s : State) : Prop where
  clear : (∀ why, s.mode ≠ .dead why) → Clear s
  selected : s.mode = .back → (s.thread s.current).runnable = true
  alive : s.mode ≠ .dead .nowrap

theorem inv_boot (t : Tid) (ts : List Tid) (lwp : Tid → Option Lwp) : Inv (boot t ts lwp) where
  clear _ _ m u _ _ hd := by simp [boot] at hd
  selected hm := by simp [boot] at hm
  alive := by simp [boot]

/-- The step lemma for a call or a resumption: `hkeep` is what the thread owes
the others when it gives up the processor. -/
theorem inv_moves {s s' : State} {keep : MtxId → Nat} {woken : Tid → Prop} (hc : Clear s)
    (hmv : Moves s s' keep woken) (hsys : Sys s')
    (hfair : ∀ t m u, woken t → cvMutex (s.pc t) = some m → 0 < s.depth m u →
      u = t ∨ u = s.current)
    (hkeep : s'.mode = .sched → ∀ t m, t ≠ s.current → cvMutex (s.pc t) = some m →
      (s.thread t).runnable = true ∨ woken t → keep m = 0) : Inv s' := by
  have hcore : ∀ t m u, t ≠ s.current → u ≠ s.current → cvMutex (s'.pc t) = some m →
      (s'.thread t).runnable = true → 0 < s'.depth m u → u = t := by
    intro t m u ht hu hcv hr hd
    rw [hmv.pc t ht] at hcv
    rw [hmv.depth m u hu] at hd
    rcases hmv.runnable t ht hr with hold | hwk | hnone
    · rcases hc t m u hcv hold hd with rfl | ⟨_, rfl⟩
      · rfl
      · exact absurd rfl hu
    · rcases hfair t m u hwk hcv hd with rfl | rfl
      · rfl
      · exact absurd rfl hu
    · rw [hnone] at hcv
      cases hcv
  rcases hmv.mode with hm | ⟨hm, hk, hself⟩
  · refine ⟨fun _ t m u hcv hr hd => ?_, by simp [hm], by simp [hm]⟩
    by_cases hu : u = s.current
    · exact .inr ⟨hm, by rw [hmv.current]; exact hu⟩
    · have ht : t ≠ s.current := by
        rintro rfl
        rw [← hmv.current] at hcv
        cases hp : s'.pc s'.current with
        | wait w k => exact absurd hp (hsys.user hm w k)
        | _ => simp [hp, cvMutex] at hcv
      exact .inl (hcore t m u ht hu hcv hr hd)
  · refine ⟨fun _ t m u hcv hr hd => .inl ?_, by simp [hm], by simp [hm]⟩
    have ht : t ≠ s.current := by
      rintro rfl
      rw [hself (by rw [hcv]; rfl)] at hr
      cases hr
    by_cases hu : u = s.current
    · subst hu
      -- the thread that gives up the processor kept nothing that `t` is after
      have hcv' := hcv
      rw [hmv.pc t ht] at hcv'
      have hzero : keep m = 0 := by
        rcases hmv.runnable t ht hr with hold | hwk | hnone
        · exact hkeep hm t m ht hcv' (.inl hold)
        · exact hkeep hm t m ht hcv' (.inr hwk)
        · rw [hnone] at hcv'
          cases hcv'
      rw [hk m, hzero] at hd
      cases hd
    · exact hcore t m u ht hu hcv hr hd

/-- Steps between two passes: only `hfair` threads become runnable. -/
theorem inv_schedule {s s' : State} (hc : Clear s) (hu : s.mode ≠ .user)
    (hpc : s'.pc = s.pc) (hd : s'.depth = s.depth)
    (hr : ∀ t, (s'.thread t).runnable = true → (s.thread t).runnable = true ∨
      ∀ m, cvMutex (s.pc t) = some m → ∀ u, 0 < s.depth m u → u = t)
    (hsel : s'.mode = .back → (s'.thread s'.current).runnable = true)
    (hal : s'.mode ≠ .dead .nowrap) : Inv s' := by
  refine ⟨fun _ t m u hcv hrun hdep => .inl ?_, hsel, hal⟩
  rw [hpc] at hcv
  rw [hd] at hdep
  rcases hr t hrun with hold | hfair
  · rcases hc t m u hcv hold hdep with rfl | ⟨hm, _⟩
    · rfl
    · exact absurd hm hu
  · exact hfair m hcv u hdep

/-! ## Whole runs -/

/-- Everything the steps need: the lwps and queues, the mutexes, the
handshake of join and exit. -/
structure World (s : State) : Prop where
  base : Base s
  mutex : Mutex.Inv s
  join : Join.Inv s

theorem holder_created {s : State} (h : World s) {m : MtxId} {u : Tid} (hd : 0 < s.depth m u) :
    u ∈ s.created := by
  rcases h.mutex.owned m with ⟨_, _, hz⟩ | ⟨v, hv, _, _, _, hz⟩
  · rw [hz u] at hd
    cases hd
  · by_cases huv : u = v
    · exact huv ▸ hv
    · rw [hz u huv] at hd
      cases hd

theorem waiter_created {s : State} (h : World s) {t : Tid} {m : MtxId}
    (hcv : cvMutex (s.pc t) = some m) : t ∈ s.created := by
  cases hp : s.pc t with
  | wait w k => exact (h.base.sys.waits.place t w k hp).2.2.2
  | _ => simp [hp, cvMutex] at hcv

theorem waitOn_error {k : Cont} {nsec tm : Int} {s : State} {why : Abort}
    (h : waitOn k nsec tm s = .error why) : why ≠ .nowrap := by
  unfold waitOn at h
  split at h
  · cases h
    simp
  · cases h

theorem mutexExit_error {m : MtxId} {s : State} {why : Abort} (h : mutexExit m s = .error why) :
    why ≠ .nowrap := by
  unfold mutexExit at h
  dsimp only at h
  split at h
  · cases h
    simp
  · split at h <;> cases h

theorem cvBegin_error {kind : CvKind} {c : CvId} {m : MtxId} {nsec tm : Int} {s : State}
    {why : Abort} (h : cvBegin kind c m nsec tm s = .error why) : why ≠ .nowrap := by
  unfold cvBegin at h
  cases hx : mutexExit m
      { s with cv := Function.update s.cv c { nwaiters := (s.cv c).nwaiters + 1 } } with
  | error why' =>
    rw [hx] at h
    cases h
    exact mutexExit_error hx
  | ok s₁ =>
    rw [hx] at h
    exact waitOn_error h

theorem joinLoop_error {t : Tid} {s : State} {why : Abort} (h : joinLoop t s = .error why) :
    why ≠ .nowrap := by
  unfold joinLoop at h
  split at h
  · cases h
    simp
  · split at h <;> cases h

theorem mutexEnterLoop_error {m : MtxId} {s : State} {why : Abort}
    (h : mutexEnterLoop m s = .error why) : why ≠ .nowrap := by
  rw [mutexEnterLoop_eq] at h
  split at h
  · exact waitOn_error h
  · cases h

theorem rwEnterLoop_error {lk : RwMode} {r : RwId} {s : State} {why : Abort}
    (h : rwEnterLoop lk r s = .error why) : why ≠ .nowrap := by
  rw [rwEnterLoop_eq] at h
  split at h
  · cases h
  · exact waitOn_error h

/-- No call aborts in `mutex_enter_nowrap`. -/
theorem exec_error {c : Call} {s : State} {why : Abort} (he : exec s c = .error why) :
    why ≠ .nowrap := by
  cases c with
  | joinThread t =>
    simp only [exec, joinThread] at he
    split at he
    · cases he
      simp
    · split at he
      · exact joinLoop_error he
      · cases he
        simp
  | wait q nsec tm => exact waitOn_error he
  | mutexEnter m => exact mutexEnterLoop_error ((mutexEnter_eq m s).symm.trans he)
  | mutexExit m => exact mutexExit_error he
  | rwEnter lk r => exact rwEnterLoop_error ((rwEnter_eq lk r s).symm.trans he)
  | rwDowngrade r =>
    simp only [exec, rwDowngrade] at he
    split at he
    · cases he
      simp
    · cases he
  | cvWait c m => exact cvBegin_error he
  | cvWaitNowrap c m => exact cvBegin_error he
  | cvTimedwait c m sec nsec tm => exact cvBegin_error he
  | _ => cases he

/-- A resumption aborts there only on the way out of a wait on a condition
variable whose mutex another thread holds. -/
theorem resume_error {p : Pc} {s : State} {why : Abort} (he : resume s p = .error why) :
    why ≠ .nowrap ∨ ∃ m, cvMutex p = some m ∧ MutexBusy m s := by
  cases p with
  | wait w k =>
    cases k with
    | mutexEnter m => exact .inl (mutexEnterLoop_error he)
    | rwEnter lk r => exact .inl (rwEnterLoop_error he)
    | cvWait kind c m =>
      refine .inr ⟨m, rfl, ?_⟩
      simp only [resume, afterWait, cvFinish_eq] at he
      split at he
      next hb =>
        have hc := waitRet_calm w (Cont.cvWait kind c m).queue (reap s)
        have hl := waitRet_sameLocks w (Cont.cvWait kind c m).queue (reap s)
        unfold MutexBusy State.curlwp at hb
        rw [hl.mtx, hc.current, hc.lwp] at hb
        exact hb
      next => cases he
    | bare q => cases he
  | join t => exact .inl (joinLoop_error (t := t) he)
  | _ => cases he

/-- The thread on the processor finds the mutex free or its own. -/
theorem not_busy {s : State} (hw : World s) (h : Inv s) (hb : s.mode = .back) {m : MtxId}
    (hcv : cvMutex (s.pc s.current) = some m) : ¬ MutexBusy m s := by
  rintro ⟨hv, ho⟩
  rcases hw.mutex.owned m with ⟨hz, _⟩ | ⟨u, _, hou, _, hpos, _⟩
  · exact hv hz
  · have hcl := h.clear (by simp [hb]) s.current m u hcv (h.selected hb) hpos
    rcases hcl with rfl | ⟨hu, _⟩
    · exact ho hou
    · rw [hb] at hu
      cases hu

/-- A call that gives up the processor wakes nobody's condition variable. -/
theorem blocks_wakes {s : State} {c : Call} (t : Tid) (h : blocks s c = true) :
    wakes s t (.call c) = false := by
  cases c <;> simp_all [blocks, wakes]

theorem idle_alive {s : State} (hq : s.mode = .sched ∨ s.mode.isIdle = true) (why : Abort) :
    s.mode ≠ .dead why := by
  intro hm
  simp [hm, Mode.isIdle] at hq

/-- A pass of the scheduler makes runnable only threads whose deadline has
passed. -/
theorem inv_pass {s s' : State} {tm : Int} (h : Inv s)
    (hq : s.mode = .sched ∨ s.mode.isIdle = true)
    (hth : ∀ t, s'.thread t = s.thread t ∨ s'.thread t = expire tm (s.thread t))
    (hfair : ∀ t m u, wakes s t (.pass tm) = true → cvMutex (s.pc t) = some m → 0 < s.depth m u →
      u = t ∨ s.mode = .user ∧ u = s.current)
    (hsel : s'.mode = .back → (s'.thread s'.current).runnable = true)
    (hal : s'.mode ≠ .dead .nowrap) (hpc : s'.pc = s.pc) (hd : s'.depth = s.depth) :
    Inv s' := by
  have hu : s.mode ≠ .user := fun hm => by simp [hm, Mode.isIdle] at hq
  refine inv_schedule (h.clear (idle_alive hq)) hu hpc hd ?_ hsel hal
  intro t hr
  rcases hth t with he | he
  · rw [he] at hr
    exact .inl hr
  · rw [he] at hr
    unfold expire at hr
    split at hr
    next hex =>
      refine .inr fun m hcv u hdep => ?_
      exact (hfair t m u (by simpa [wakes] using hex) hcv hdep).resolve_right fun hx => hu hx.1
    next => exact .inl hr

theorem inv_step {s s' : State} {e : Event} (hw : World s) (h : Inv s) (hsys : Sys s')
    (hl : lawful s e = true) (hcon : Considerate s e) (hs : step s e = some s') : Inv s' := by
  have hdead : ∀ why, why ≠ .nowrap → Inv { s with mode := .dead why } := fun why hne =>
    ⟨fun hno => absurd rfl (hno why), by simp, by simpa using hne⟩
  have hfair : ∀ t m u, wakes s t e = true → cvMutex (s.pc t) = some m → 0 < s.depth m u →
      u = t ∨ s.mode = .user ∧ u = s.current := fun t m u hwk hcv hd =>
    hcon.1 t (waiter_created hw hcv) hwk m hcv u (holder_created hw hd) hd
  cases step_inv hs with
  | @call c _ hu ha he =>
    obtain ⟨hmv, hblk⟩ := moves_exec hw.base.sys hw.join hu (lawfulCall_ordinary hl) he
    refine inv_moves (h.clear (by simp [hu])) hmv hsys ?_ ?_
    · intro t m u hwk hcv hd
      exact (hfair t m u hwk hcv hd).imp_right And.right
    · intro hm t m ht hcv hrun
      have hnowake : wakes s t (.call c) = false := blocks_wakes t (hblk hm)
      rcases hrun with hrun | hwk
      · exact hcon.2 (hblk hm) t (waiter_created hw hcv) ht hrun m hcv
      · rw [hnowake] at hwk
        cases hwk
  | callAbort _ he => exact hdead _ (exec_error he)
  | @switch tm n th hm hth hr hq =>
    exact inv_pass h hq hth hfair (fun _ => hr) (by simp) rfl rfl
  | @idle tm th sl hth hq =>
    exact inv_pass h hq hth hfair (by simp) (by simp) rfl rfl
  | @extWake t hi _ =>
    have hu : s.mode ≠ .user := fun hm => by simp [hm, Mode.isIdle] at hi
    refine inv_schedule (h.clear (idle_alive (.inr hi))) hu rfl rfl ?_ ?_ h.alive
    · intro u hr
      rw [wake_runnable, Bool.or_eq_true, decide_eq_true_eq] at hr
      rcases hr with rfl | hold
      · refine .inr fun m hcv v hd => ?_
        exact (hfair u m v (by simp [wakes]) hcv hd).resolve_right fun hx => hu hx.1
      · exact .inl hold
    · intro hm
      have hm' : s.mode = .back := hm
      simp [hm', Mode.isIdle] at hi
  | resume hb he =>
    refine inv_moves (h.clear (by simp [hb])) (moves_resume hw.join rfl he) hsys ?_ ?_
    · exact fun t m u hwk => hwk.elim
    · intro _ t m ht hcv hrun
      refine Nat.eq_zero_of_not_pos fun hpos => ?_
      rcases hrun with hrun | hwk
      · rcases h.clear (by simp [hb]) t m s.current hcv hrun hpos with heq | ⟨hu, _⟩
        · exact ht heq.symm
        · rw [hb] at hu
          cases hu
      · exact hwk
  | resumeAbort hb he =>
    rcases resume_error he with hne | ⟨m, hcv, hbusy⟩
    · exact hdead _ hne
    · exact absurd hbusy (not_busy hw h hb hcv)

theorem world_step {s s' : State} {e : Event} (h : World s) (hl : lawful s e = true)
    (hone : Join.joinedOnce s e = true) (hs : step s e = some s') : World s' :=
  ⟨base_step h.base hl hs, Mutex.inv_step h.base h.mutex hl hs,
    Join.inv_step h.join h.base.sys hone hs⟩

/-- Threads that call the lock functions lawfully, join each thread at most
once and are considerate in every step never abort on the way out of
`cv_wait`, `cv_wait_nowrap` or `cv_timedwait`. -/
theorem cv_reacquire_safe {t : Tid} {ts : List Tid} {lwp : Tid → Option Lwp}
    {tr : List (State × Event)} {s : State} (hc : Crew t ts lwp)
    (hr : Run step (boot t ts lwp) tr s) (hg : Guarded (fun s e => lawful s e) tr)
    (hone : Guarded (fun s e => Join.joinedOnce s e) tr) (hcon : Guarded Considerate tr) :
    s.mode ≠ .dead .nowrap := by
  have hboot : World (boot t ts lwp) :=
    ⟨base_boot hc, Mutex.inv_boot t ts lwp, Join.inv_boot t ts lwp⟩
  have hok : Guarded (fun s e => lawful s e = true ∧ Join.joinedOnce s e = true ∧
      Considerate s e) tr := fun p hp => ⟨hg p hp, hone p hp, hcon p hp⟩
  have hinv := Run.invariant (I := fun s => World s ∧ Inv s) ⟨hboot, inv_boot t ts lwp⟩
    (fun s e s' h hx hs =>
      ⟨world_step h.1 hx.1 hx.2.1 hs,
        inv_step h.1 h.2 (WaitQueue.sys_step h.1.base.sys hs) hx.1 hx.2.2 hs⟩) hr hok
  exact hinv.2.alive

/-- A considerate run: the signaller leaves the mutex before it sleeps, and
the waiter comes out of `cv_wait` with it. -/
theorem cv_reacquire_safe_signal : ∃ tr s, Run step (boot 0 [1] some) tr s ∧
    s.depth 0 0 = 1 ∧ s.pc 0 = .running ∧ s.mode ≠ .dead .nowrap := by
  obtain ⟨tr, s, hr, hp⟩ := exists_run (f := step) (s := boot 0 [1] some)
    [.call (.mutexEnter 0), .call (.cvWait 0 0), .pass 0, .resume, .call (.mutexEnter 0),
      .call (.cvSignal 0), .call (.mutexExit 0), .call (.clockSleep .monotonic 0 5 0), .pass 0,
      .resume]
    (p := fun tr s => Guarded (fun s e => lawful s e) tr ∧
      Guarded (fun s e => Join.joinedOnce s e) tr ∧ Guarded Considerate tr ∧
      s.depth 0 0 = 1 ∧ s.pc 0 = .running) (by decide)
  rw [decide_eq_true_eq] at hp
  obtain ⟨hg, hone, hcon, hd, hpc⟩ := hp
  have hc : Crew 0 [1] some := ⟨by decide, by simp, by simp⟩
  exact ⟨tr, s, hr, hd, hpc, cv_reacquire_safe hc hr hg hone hcon⟩

end Frankenlibc.Threads.Condvar

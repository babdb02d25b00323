import Frankenlibc.Threads.Cv
import Frankenlibc.Threads.Poll

/-!
# Returns from condition variables

A wait on a condition variable ends in one of three ways: a signal dequeues the
waiter, its deadline passes, or the platform wakes its thread because a packet
has arrived. `wait` cannot tell the last two apart, and `cv_wait` tells none of
them apart. As long as no packet disturbs a thread inside such a wait, the
returns mean what they say.
-/
namespace Frankenlibc.Threads.Timeout

open Frankenlibc.Lib
open WaitQueue (Sys Ready)
open Locks
open Condvar (Moves cvMutex wakes)

/-! ## What a step does to a sleeping thread -/

/-- A thread other than the current one that is asleep afterwards is as it was,
and only waiters of the queues `Q` have been dequeued. -/
structure Tends (Q : Queue → Prop) (s s' : State) : Prop where
  current : s'.current = s.current
  asleep : ∀ t, t ≠ s.current → (s'.thread t).runnable = false → s'.thread t = s.thread t
  dequeue : ∀ w q, .dequeue w q ∈ s'.hist → .dequeue w q ∈ s.hist ∨ Q q

variable {Q : Queue → Prop} {s s' s'' : State}

theorem Tends.trans (h : Tends Q s s') (h' : Tends Q s' s'') : Tends Q s s'' where
  current := h'.current.trans h.current
  asleep t ht hr := by
    have hmid := h'.asleep t (by rw [h.current]; exact ht) hr
    rw [hmid] at hr ⊢
    exact h.asleep t ht hr
  dequeue w q hd := (h'.dequeue w q hd).elim (h.dequeue w q) .inr

theorem tends_same (hc : s'.current = s.current)
    (ht : ∀ t, t ≠ s.current → s'.thread t = s.thread t)
    (hh : ∀ w q, .dequeue w q ∈ s'.hist → .dequeue w q ∈ s.hist) : Tends Q s s' :=
  ⟨hc, fun t hne _ => ht t hne, fun w q hd => .inl (hh w q hd)⟩

theorem tends_locks (h : OnlyLocks s s') : Tends Q s s' := by
  refine tends_same ?_ ?_ ?_ <;> rw [h]
  · exact fun _ _ => rfl
  · exact fun _ _ hd => hd

theorem tends_waitOn {k : Cont} {nsec tm : Int} (hw : waitOn k nsec tm s = .ok s') :
    Tends Q s s' := by
  obtain ⟨_, th, hth, _, rfl⟩ := waitOn_ok hw
  refine tends_same rfl hth fun w q hd => ?_
  simpa [enqueue] using hd

theorem tends_dequeue {q : Queue} (hq : Q q) (w : Wid) (ws : List Wid) (s : State) :
    Tends Q s (dequeue q w ws s) where
  current := rfl
  asleep t _ hr := by
    have hne : t ≠ (s.waiter w).who := by
      rintro rfl
      simp [dequeue] at hr
    simp [dequeue, wake, State.setThread, hne]
  dequeue u q' hd := by
    simp only [dequeue, wake, State.setThread, List.mem_append, List.mem_singleton] at hd
    rcases hd with hd | hd
    · exact .inl hd
    · cases hd
      exact .inr hq

theorem tends_refl (s : State) : Tends Q s s := tends_locks (OnlyLocks.refl s)

theorem tends_wakeupOne {q : Queue} (hq : Q q) (s : State) : Tends Q s (wakeupOne q s) := by
  unfold wakeupOne
  split
  · exact tends_refl s
  · exact tends_dequeue hq _ _ s

theorem tends_wakeupLoop {q : Queue} (hq : Q q) (ws : List Wid) (s : State) :
    Tends Q s (wakeupLoop q ws s) := by
  induction ws generalizing s with
  | nil => exact tends_refl s
  | cons w ws ih => exact (tends_dequeue hq w ws s).trans (ih _)

theorem tends_wakeupAll {q : Queue} (hq : Q q) (s : State) : Tends Q s (wakeupAll q s) :=
  tends_wakeupLoop hq _ s

theorem tends_turn {k : Cont} (ht : Turn s k s') : Tends Q s s' := by
  have huser : ∀ x : State, Tends Q x x.toUser := fun x =>
    tends_same rfl (fun _ _ => rfl) fun _ _ hd => hd
  cases ht with
  | mutexIn => exact (tends_locks (mutexEntered_locks _ s)).trans (huser _)
  | mutexWait _ hw => exact tends_waitOn hw
  | rwIn => exact (tends_locks (rwEntered_locks _ s _)).trans (huser _)
  | rwWait _ hw => exact tends_waitOn hw
  | @cvIn kind c m =>
    have hin : OnlyLocks s { mutexEntered m s with
        cv := Function.update s.cv c { nwaiters := (s.cv c).nwaiters - 1 } } := rfl
    exact (tends_locks hin).trans (huser _)
  | bare => exact huser s

theorem tends_mutexExit {m : MtxId} (hq : Q (.mtx m)) (he : mutexExit m s = .ok s') :
    Tends Q s s' := by
  have hleft : Tends Q s (mutexLeft m s) := tends_locks (mutexLeft_locks m s)
  obtain ⟨_, ⟨_, rfl⟩ | ⟨_, rfl⟩⟩ := mutexExit_ok he
  · exact hleft.trans (tends_wakeupOne hq _)
  · exact hleft

theorem tends_cvBegin {kind : CvKind} {c : CvId} {m : MtxId} {nsec tm : Int} (hq : Q (.mtx m))
    (he : cvBegin kind c m nsec tm s = .ok s') : Tends Q s s' := by
  obtain ⟨s₁, hm, hw⟩ := cvBegin_ok he
  have hcount : OnlyLocks s
      { s with cv := Function.update s.cv c { nwaiters := (s.cv c).nwaiters + 1 } } := rfl
  exact ((tends_locks hcount).trans (tends_mutexExit hq hm)).trans (tends_waitOn hw)

theorem tends_rwExit {r : RwId} (hw : Q (.wwait r)) (hr : Q (.rwait r)) (s : State) :
    Tends Q s (rwExit r s) := by
  refine (tends_locks (rwReleased_locks r s)).trans ?_
  rw [rwExit_eq]
  unfold rwHandOver
  split
  · split
    · exact tends_wakeupOne hw _
    · exact tends_refl _
  · split
    · exact tends_wakeupAll hr _
    · exact tends_refl _

theorem tends_exitThread (s : State) : Tends Q s (exitThread s) := by
  cases hm : (s.thread s.current).mustjoin with
  | false =>
    rw [exitThread_leave hm]
    exact tends_same rfl (fun t ht => by simp [ht]) fun _ _ hd => hd
  | true =>
    have hjoin : ∀ x : State, Tends Q x (wakeJoiner s.current x) := by
      intro x
      unfold wakeJoiner
      split
      next jw _ =>
        refine ⟨rfl, fun t _ hr => ?_, fun _ _ hd => .inl hd⟩
        have hne : t ≠ jw.thread := by
          rintro rfl
          simp at hr
        simp [wake, State.setThread, hne]
      · exact tends_refl x
    unfold exitThread
    rw [if_pos hm]
    have hmark : Tends Q s
        (s.setThread s.current { s.thread s.current with joined := true }) :=
      tends_same rfl (fun t ht => by simp [State.setThread, ht]) fun _ _ hd => hd
    have hmid := hmark.trans (hjoin _)
    refine hmid.trans (tends_same rfl (fun t ht => ?_) fun _ _ hd => hd)
    have ht' : t ≠ s.current := by
      rw [hmid.current] at ht
      exact ht
    simp [State.suspend, block, State.setThread, ht']

theorem tends_joinLoop {t : Tid} (h : joinLoop t s = .ok s') : Tends Q s s' := by
  obtain ⟨_, ⟨_, rfl⟩ | ⟨_, rfl⟩⟩ := joinLoop_ok h
  · refine ⟨rfl, fun u _ hr => ?_, fun _ _ hd => .inl hd⟩
    have hne : u ≠ t := by
      rintro rfl
      simp [State.toUser] at hr
    simp [State.toUser, wake, State.setThread, hne]
  · refine tends_same rfl (fun u hu => ?_) fun _ _ hd => hd
    simp [State.suspend, block, State.setThread, hu]

theorem tends_waitRet (w : Wid) (q : Queue) (s : State) : Tends Q s (waitRet w q s).2 := by
  unfold waitRet
  split
  · exact tends_same rfl (fun _ _ => rfl) fun u q' hd => by simpa using hd
  · exact tends_same rfl (fun _ _ => rfl) fun u q' hd => by simpa using hd

/-- The queues from which a call of the interface dequeues. -/
def callQueues : Call → Queue → Prop
  | .mutexExit m, q | .cvWait _ m, q | .cvWaitNowrap _ m, q | .cvTimedwait _ m _ _ _, q => q = .mtx m
  | .rwExit r, q => q = .wwait r ∨ q = .rwait r
  | .cvSignal c, q | .cvBroadcast c, q => q = .cv c
  | .wakeupOne q', q | .wakeupAll q', q => q = q'
  | _, _ => False

theorem tends_exec {c : Call} (ha : c.allowed s = true) (he : exec s c = .ok s') :
    s'.current = s.current ∧
      (∀ t ∈ s.created, t ≠ s.current → (s'.thread t).runnable = false →
        s'.thread t = s.thread t) ∧
      ∀ w q, .dequeue w q ∈ s'.hist → .dequeue w q ∈ s.hist ∨ callQueues c q := by
  have hof : Tends (callQueues c) s s' → s'.current = s.current ∧
      (∀ t ∈ s.created, t ≠ s.current → (s'.thread t).runnable = false →
        s'.thread t = s.thread t) ∧
      ∀ w q, .dequeue w q ∈ s'.hist → .dequeue w q ∈ s.hist ∨ callQueues c q :=
    fun h => ⟨h.current, fun t _ => h.asleep t, h.dequeue⟩
  cases exec_performed he with
  | refused | mutexBusy | rwBusy => exact ⟨rfl, fun _ _ _ _ => rfl, fun _ _ hd => .inl hd⟩
  | @create u =>
    refine ⟨rfl, fun t ht _ _ => ?_, fun _ _ hd => .inl hd⟩
    have hne : t ≠ u := by
      rintro rfl
      simp [Call.allowed, ht] at ha
    simp [threadMade, State.setThread, hne]
  | yield => exact hof (tends_same rfl (fun _ _ => rfl) fun _ _ hd => hd)
  | exit => exact hof (tends_exitThread s)
  | @join t _ _ hj =>
    have htends := tends_joinLoop (Q := callQueues (.joinThread t)) hj
    exact hof ⟨htends.current, htends.asleep, htends.dequeue⟩
  | @sleep clk sec nsec tm =>
    refine hof (tends_same (clockSleep_calm clk sec nsec tm s).current (fun t ht => ?_) ?_)
    · cases clk <;> simp [clockSleep, sleepUntil, State.suspend, clearRunnable, setDeadline,
        State.setThread, ht]
    · cases clk <;> exact fun _ _ hd => hd
  | setCurlwp =>
    exact hof (tends_same rfl (fun t ht => by simp [State.setThread, ht]) fun _ _ hd => hd)
  | wait hw => exact hof (tends_waitOn hw)
  | wakeupOne | cvSignal => exact hof (tends_wakeupOne (by exact rfl) s)
  | wakeupAll | cvBroadcast => exact hof (tends_wakeupAll (by exact rfl) s)
  | mutexEnter ht | rwEnter ht => exact hof (tends_turn ht)
  | mutexIn => exact hof (tends_locks (mutexEntered_locks _ s))
  | mutexExit hx => exact hof (tends_mutexExit rfl hx)
  | rwIn => exact hof (tends_locks (rwEntered_locks _ s _))
  | rwExit => exact hof (tends_rwExit (.inl rfl) (.inr rfl) s)
  | rwDowngrade hd => exact hof (tends_locks (rwDowngrade_locks hd))
  | rwTryupgrade => exact hof (tends_locks (rwTryupgrade_locks _ s))
  | cvWait hb | cvWaitNowrap hb | cvTimedwait hb => exact hof (tends_cvBegin rfl hb)

theorem tends_resume {p : Pc} (he : resume s p = .ok s') : Tends (fun _ => False) s s' := by
  have hreap : Tends (fun _ => False) s (reap s) := tends_same rfl (fun _ _ => rfl) fun _ _ hd => hd
  have hmove : ∀ {x y : State}, y.current = x.current → y.thread = x.thread → y.hist = x.hist →
      Tends (fun _ => False) x y := fun hc ht hh =>
    tends_same hc (fun t _ => by rw [ht]) fun _ _ hd => hh ▸ hd
  cases resume_inv he with
  | running | fresh => exact hmove rfl rfl rfl
  | yield | sleep => exact hreap.trans (hmove rfl rfl rfl)
  | wait ht => exact (hreap.trans (tends_waitRet _ _ _)).trans (tends_turn ht)
  | join hj =>
    refine (hreap.trans ?_).trans (tends_joinLoop hj)
    exact hmove rfl rfl rfl
  | gate => exact hreap.trans (tends_exitThread _)
  | exited => exact hreap.trans (hmove rfl rfl rfl)

/-! ## What a step does to a waiter of a condition variable -/

/-- The waits on condition variables, with the deadline they store. -/
def cvCall : Call → Option (CvKind × CvId × MtxId × Int)
  | .cvWait c m => some (.wait, c, m, -1)
  | .cvWaitNowrap c m => some (.nowrap, c, m, -1)
  | .cvTimedwait c m sec nsec tm =>
    some (.timed, c, m, deadline (i64 (sec * 1000 * 1000 * 1000 + nsec)) tm)
  | _ => none

/-- The static functions behind the queues are not called from outside. -/
def noStatic : Event → Bool
  | .call (.wait _ _ _) | .call (.wakeupOne _) | .call (.wakeupAll _) => false
  | _ => true

theorem waitOn_deadline {k : Cont} {nsec tm : Int} (h : waitOn k nsec tm s = .ok s') :
    (s'.thread s.current).wakeupTime = deadline nsec tm := by
  unfold waitOn at h
  split at h
  · cases h
  · cases h
    simp [setDeadline, clearRunnable, block, enqueue, State.setThread, State.suspend]

theorem cvBegin_enters {kind : CvKind} {c : CvId} {m : MtxId} {nsec tm : Int} {w : Wid} {k : Cont}
    (he : cvBegin kind c m nsec tm s = .ok s') (hp : s'.pc s.current = .wait w k) :
    w = s.nextWid ∧ k = .cvWait kind c m ∧ (s'.thread s.current).runnable = false ∧
      (s'.thread s.current).wakeupTime = deadline nsec tm := by
  obtain ⟨s₁, hm, hw⟩ := cvBegin_ok he
  have hcur : s₁.current = s.current := (mutexExit_calm hm).current
  have hnext : s₁.nextWid = s.nextWid := by
    obtain ⟨_, ⟨_, rfl⟩ | ⟨_, rfl⟩⟩ := mutexExit_ok hm
    · unfold wakeupOne
      split <;> rfl
    · rfl
  have hdl := waitOn_deadline hw
  obtain ⟨_, th, _, hrun, rfl⟩ := waitOn_ok hw
  rw [hcur] at hdl hrun
  simp only [hcur, Function.update_self, Pc.wait.injEq] at hp
  exact ⟨by rw [← hnext]; exact hp.1.symm, hp.2.symm, hrun, hdl⟩

/-- A thread inside a wait on a condition variable was there before the step,
or its own call has put it there. -/
theorem cv_entered {e : Event} {t : Tid} {w : Wid} {kind : CvKind} {c : CvId} {m : MtxId}
    (h : Sys s) (hs : step s e = some s') (hp : s'.pc t = .wait w (.cvWait kind c m)) :
    (s.pc t = .wait w (.cvWait kind c m) ∧ ((∃ x, e = .call x) ∨ e = .resume →
        (t ≠ s.current ∨ s' = { s with mode := s'.mode }))) ∨
      ∃ x dl, e = .call x ∧ t = s.current ∧ w = s.nextWid ∧ cvCall x = some (kind, c, m, dl) ∧
        (s'.thread t).runnable = false ∧ (s'.thread t).wakeupTime = dl := by
  cases step_inv hs with
  | @call x _ hu ha he =>
    by_cases ht : t = s.current
    · subst ht
      have hk := exec_cont (h.user hu) he hp
      refine .inr ⟨x, ?_⟩
      cases x with
      | cvWait c' m' =>
        cases hk
        obtain ⟨hw, _, hrun, hdl⟩ := cvBegin_enters he hp
        exact ⟨_, rfl, rfl, hw, rfl, hrun, hdl⟩
      | cvWaitNowrap c' m' =>
        cases hk
        obtain ⟨hw, _, hrun, hdl⟩ := cvBegin_enters he hp
        exact ⟨_, rfl, rfl, hw, rfl, hrun, hdl⟩
      | cvTimedwait c' m' sec nsec tm =>
        cases hk
        obtain ⟨hw, _, hrun, hdl⟩ := cvBegin_enters he hp
        exact ⟨_, rfl, rfl, hw, rfl, hrun, hdl⟩
      | _ => cases hk
    · rcases exec_pc ha he ht with hold | ⟨_, hnew⟩
      · rw [hold] at hp
        exact .inl ⟨hp, fun _ => .inl ht⟩
      · rw [hnew] at hp
        cases hp
  | callAbort => exact .inl ⟨hp, fun _ => .inr rfl⟩
  | switch => exact .inl ⟨hp, by rintro (⟨x, hx⟩ | hx) <;> cases hx⟩
  | idle => exact .inl ⟨hp, by rintro (⟨x, hx⟩ | hx) <;> cases hx⟩
  | extWake => exact .inl ⟨hp, by rintro (⟨x, hx⟩ | hx) <;> cases hx⟩
  | resume _ he =>
    by_cases ht : t = s.current
    · -- the way out of such a wait ends in the thread's own code
      subst ht
      exfalso
      obtain ⟨w', hold⟩ := resume_cont he hp
      rw [hold] at he
      have hc := waitRet_calm w' (Cont.cvWait kind c m).queue (reap s)
      have hcur : (waitRet w' (Cont.cvWait kind c m).queue (reap s)).2.current = s.current :=
        hc.current
      have hturn : Turn (waitRet w' (Cont.cvWait kind c m).queue (reap s)).2 (.cvWait kind c m) s' :=
        afterWait_turn he
      cases hturn with
      | cvIn => simp [State.toUser, mutexEntered, hcur] at hp
    · rw [resume_pc he ht] at hp
      exact .inl ⟨hp, fun _ => .inl ht⟩
  | resumeAbort => exact .inl ⟨hp, fun _ => .inr rfl⟩

/-- A waiter that is no longer on its queue has been dequeued. -/
theorem dequeued_of_off {t : Tid} {w : Wid} {k : Cont} (h : WaitQueue.Inv s)
    (hp : s.pc t = .wait w k) (hoff : w ∉ s.waiters k.queue) : .dequeue w k.queue ∈ s.hist := by
  rcases WaitQueue.open_stage h hp with ⟨hl, _⟩ | ⟨hl, _, _⟩
  · exact absurd ((h.mem k.queue w).mpr hl) hoff
  · rw [← WaitQueue.mem_life (w := w) rfl, hl]
    simp

/-- A signal that wakes the thread of a waiter has dequeued that waiter. -/
theorem woken_dequeued {x : Call} {t : Tid} {w : Wid} {kind : CvKind} {c : CvId} {m : MtxId}
    (h : Sys s) (h' : Sys s') (he : exec s x = .ok s') (hwk : wakes s t (.call x) = true)
    (hp : s.pc t = .wait w (.cvWait kind c m)) (hp' : s'.pc t = .wait w (.cvWait kind c m)) :
    .dequeue w (.cv c) ∈ s'.hist := by
  have hmine : ∀ c' w', w' ∈ s.waiters (.cv c') → (s.waiter w').who = t → w' = w ∧ c' = c := by
    intro c' w' hmem hwho
    obtain ⟨_, _, k, hk, hq⟩ := WaitQueue.waiter_waits h.waits hmem
    rw [hwho, hp] at hk
    cases hk
    cases hq
    exact ⟨rfl, rfl⟩
  refine dequeued_of_off h'.waits hp' ?_
  cases x with
  | cvSignal c' =>
    cases he
    simp only [wakes] at hwk
    cases hq : s.waiters (.cv c') with
    | nil => simp [hq] at hwk
    | cons u us =>
      rw [hq] at hwk
      simp only [List.head?_cons, Option.any_some, decide_eq_true_eq] at hwk
      obtain ⟨rfl, rfl⟩ := hmine c' u (by rw [hq]; exact List.mem_cons_self) hwk
      have hnd := h.waits.nodup (.cv c')
      rw [hq] at hnd
      have hnot := (List.nodup_cons.mp hnd).1
      simpa [Cont.queue, cvSignal, wakeupOne, hq, dequeue, wake, State.setThread] using hnot
  | cvBroadcast c' =>
    cases he
    simp only [wakes, List.any_eq_true, decide_eq_true_eq] at hwk
    obtain ⟨u, hu, hwho⟩ := hwk
    obtain ⟨rfl, rfl⟩ := hmine c' u hu hwho
    have hnil := (wakeupLoop_waiters (s := s) (q := .cv c') rfl).1
    rw [Cont.queue, cvBroadcast, wakeupAll, hnil]
    exact List.not_mem_nil
  | _ => cases hwk

/-- A sleeping waiter stays as it is, unless its deadline passes, a signal
dequeues it or the platform wakes it. -/
theorem cv_asleep {e : Event} {t : Tid} {w : Wid} {kind : CvKind} {c : CvId} {m : MtxId}
    (h : Sys s) (hj : Join.Inv s) (hst : noStatic e = true) (hs : step s e = some s')
    (hp : s.pc t = .wait w (.cvWait kind c m)) (hp' : s'.pc t = .wait w (.cvWait kind c m))
    (hoff : (∃ x, e = .call x) ∨ e = .resume → t ≠ s.current ∨ s' = { s with mode := s'.mode })
    (hr : (s.thread t).runnable = false) :
    s'.thread t = s.thread t ∨ e = .extWake t ∨ .dequeue w (.cv c) ∈ s'.hist ∨
      ∃ tm, e = .pass tm ∧ 0 ≤ (s.thread t).wakeupTime ∧ (s.thread t).wakeupTime ≤ tm := by
  have hcre : t ∈ s.created := (h.waits.place t w _ hp).2.2.2
  have hcv : cvMutex (s.pc t) = some m := by rw [hp]; rfl
  have hexp : ∀ {tm : Int} {x : Thread}, x = s.thread t ∨ x = expire tm (s.thread t) →
      x = s.thread t ∨ 0 ≤ (s.thread t).wakeupTime ∧ (s.thread t).wakeupTime ≤ tm := by
    intro tm x hx
    rcases hx with rfl | rfl
    · exact .inl rfl
    · unfold expire
      split
      next hc => exact .inr hc.2
      next => exact .inl rfl
  have hsys' := WaitQueue.sys_step h hs
  cases step_inv hs with
  | @call x _ hu ha he =>
    have ht : t ≠ s.current := by
      rintro rfl
      exact h.user hu w _ hp
    obtain ⟨_, hsleep, _⟩ := tends_exec ha he
    by_cases hr' : (s'.thread t).runnable = false
    · exact .inl (hsleep t hcre ht hr')
    · have hrun : (s'.thread t).runnable = true := by simpa using hr'
      by_cases hord : ordinary x = true
      · rcases (Condvar.moves_exec h hj hu hord he).1.runnable t ht hrun with hold | hwk | hnone
        · rw [hr] at hold
          cases hold
        · exact .inr (.inr (.inl (woken_dequeued h hsys' he hwk hp hp')))
        · rw [hcv] at hnone
          cases hnone
      · -- creating a thread, setting an lwp and changing the mode of a lock wake nobody
        have hsame : s'.thread t = s.thread t := by
          cases x with
          | createThread mem joinable extstack mmapOk =>
            cases he
            obtain hx | ⟨u, rfl, hx⟩ := createThread_eq mem joinable extstack mmapOk s
            · rw [hx]
            · have hne : t ≠ u := by
                rintro rfl
                simp [Call.allowed, hcre] at ha
              rw [hx]
              simp [threadMade, State.setThread, hne]
          | setCurlwp l =>
            cases he
            simp [State.setThread, ht]
          | rwDowngrade r => rw [rwDowngrade_locks he]
          | rwTryupgrade r =>
            cases he
            rw [rwTryupgrade_locks r s]
          | wait => cases hst
          | wakeupOne => cases hst
          | wakeupAll => cases hst
          | _ => exact absurd rfl hord
        exact .inl hsame
  | callAbort => exact .inl rfl
  | @switch tm n th hm hth =>
    exact (hexp (hth t)).imp id fun hx => .inr (.inr ⟨tm, rfl, hx⟩)
  | @idle tm th sl hth =>
    exact (hexp (hth t)).imp id fun hx => .inr (.inr ⟨tm, rfl, hx⟩)
  | @extWake u =>
    by_cases hu : t = u
    · subst hu
      exact .inr (.inl rfl)
    · exact .inl (by simp [wake, State.setThread, hu])
  | resume _ he =>
    rcases hoff (.inr rfl) with ht | hsame
    · by_cases hr' : (s'.thread t).runnable = false
      · exact .inl ((tends_resume he).asleep t ht hr')
      · rcases (Condvar.moves_resume hj rfl he).runnable t ht (by simpa using hr') with
          hold | hf | hnone
        · rw [hr] at hold
          cases hold
        · exact hf.elim
        · rw [hcv] at hnone
          cases hnone
    · exact .inl (by rw [hsame])
  | resumeAbort => exact .inl rfl

/-- Only a signal or a broadcast dequeues from a condition variable. -/
theorem dequeue_origin {e : Event} {w : Wid} {c : CvId} (hst : noStatic e = true)
    (hs : step s e = some s') (hd : .dequeue w (.cv c) ∈ s'.hist) :
    .dequeue w (.cv c) ∈ s.hist ∨ e = .call (.cvSignal c) ∨ e = .call (.cvBroadcast c) := by
  cases step_inv hs with
  | @call x _ _ ha he =>
    rcases (tends_exec ha he).2.2 w _ hd with hold | hq
    · exact .inl hold
    · cases x with
      | cvSignal c' =>
        cases hq
        exact .inr (.inl rfl)
      | cvBroadcast c' =>
        cases hq
        exact .inr (.inr rfl)
      | wakeupOne => cases hst
      | wakeupAll => cases hst
      | mutexExit => cases hq
      | cvWait => cases hq
      | cvWaitNowrap => cases hq
      | cvTimedwait => cases hq
      | rwExit => rcases hq with hq | hq <;> cases hq
      | _ => exact hq.elim
  | resume _ he => exact .inl (((tends_resume he).dequeue w _ hd).resolve_right id)
  | callAbort => exact .inl hd
  | switch => exact .inl hd
  | idle => exact .inl hd
  | extWake => exact .inl hd
  | resumeAbort => exact .inl hd

/-! ## Runs on the host -/

/-- The static functions are left alone, and a thread is joined by one thread. -/
def orderly (h : Host) : HostEvent → Bool
  | .lib e => noStatic e && Join.joinedOnce h.lib e
  | _ => true

/-- The thread is inside a wait on a condition variable that nobody has
signalled yet. -/
def inCvWait (s : State) (t : Tid) : Bool :=
  match s.pc t with
  | .wait w (.cvWait _ _ _) => (s.waiter w).onlist
  | _ => false

/-- The value of an `int64_t`. -/
def fits (x : Int) : Bool := -9223372036854775808 ≤ x ∧ x < 9223372036854775808

/-- A packet wakes a thread out of a wait on a condition variable, or the
deadline of such a wait overflows. -/
def strays (h : Host) : HostEvent → Bool
  | .poll revents => (h.woken revents).any (inCvWait h.lib)
  | .lib (.call (.cvTimedwait _ _ sec nsec tm)) =>
    !(fits (sec * 1000 * 1000 * 1000 + nsec) &&
      fits (tm + (sec * 1000 * 1000 * 1000 + nsec)))
  | _ => false

abbrev Trace := List (Host × HostEvent)

/-- A signal or broadcast of the run found `w` on the queue. -/
def Signalled (tr : Trace) (c : CvId) (w : Wid) : Prop :=
  ∃ p ∈ tr, (p.2 = .lib (.call (.cvSignal c)) ∨ p.2 = .lib (.call (.cvBroadcast c))) ∧
    w ∈ p.1.lib.waiters (.cv c)

/-- The call with which `t` put `w` on the queue. -/
def Entered (p : Host × HostEvent) (t : Tid) (w : Wid) (kind : CvKind) (c : CvId) (m : MtxId)
    (dl : Int) : Prop :=
  p.1.lib.current = t ∧ p.1.lib.nextWid = w ∧
    ∃ x, p.2 = .lib (.call x) ∧ cvCall x = some (kind, c, m, dl)

/-- The clock has been read at the deadline or later. -/
def Passed (tr : Trace) (dl : Int) : Prop :=
  ∃ p ∈ tr, ∃ tm, p.2 = .lib (.pass tm) ∧ 0 ≤ dl ∧ dl ≤ tm

/-- What has become of a wait that has not returned. -/
structure Fate (tr : Trace) (s : State) (t : Tid) (w : Wid) (kind : CvKind) (c : CvId)
    (m : MtxId) : Prop where
  signalled : .dequeue w (.cv c) ∈ s.hist → Signalled tr c w
  pending : .dequeue w (.cv c) ∉ s.hist → ∃ l₁ p l₂ dl, tr = l₁ ++ p :: l₂ ∧
    Entered p t w kind c m dl ∧
    ((s.thread t).runnable = false ∧ (s.thread t).wakeupTime = dl ∨ Passed l₂ dl)

structure Inv (tr : Trace) (h : Host) : Prop where
  sys : Sys h.lib
  join : Join.Inv h.lib
  entries : ∀ fd t, h.wake fd = some t → t ∈ h.lib.created
  selected : h.lib.mode = .back → (h.lib.thread h.lib.current).runnable = true
  fate : ∀ t w kind c m, h.lib.pc t = .wait w (.cvWait kind c m) → Fate tr h.lib t w kind c m

theorem Signalled.snoc {tr : Trace} {c : CvId} {w : Wid} (h : Signalled tr c w)
    (p : Host × HostEvent) : Signalled (tr ++ [p]) c w := by
  obtain ⟨q, hq, hx⟩ := h
  exact ⟨q, List.mem_append_left _ hq, hx⟩

theorem Passed.snoc {tr : Trace} {dl : Int} (h : Passed tr dl) (p : Host × HostEvent) :
    Passed (tr ++ [p]) dl := by
  obtain ⟨q, hq, hx⟩ := h
  exact ⟨q, List.mem_append_left _ hq, hx⟩

/-- A step during which the waiter is left alone. -/
theorem Fate.snoc {tr : Trace} {t : Tid} {w : Wid} {kind : CvKind} {c : CvId} {m : MtxId}
    (h : Fate tr s t w kind c m) (p : Host × HostEvent) (hh : s'.hist = s.hist)
    (ht : .dequeue w (.cv c) ∉ s.hist → s'.thread t = s.thread t) :
    Fate (tr ++ [p]) s' t w kind c m where
  signalled hd := (h.signalled (hh ▸ hd)).snoc p
  pending hd := by
    rw [hh] at hd
    obtain ⟨l₁, q, l₂, dl, rfl, hin, hx⟩ := h.pending hd
    refine ⟨l₁, q, l₂ ++ [p], dl, by simp, hin, ?_⟩
    rw [ht hd]
    exact hx.imp id fun hp => hp.snoc p

/-- After a call or a resumption the processor is with a thread or with the
scheduler's loop. -/
theorem step_back {e : Event} (h : Sys s) (hj : Join.Inv s) (hs : step s e = some s')
    (hb : s'.mode = .back) : (s'.thread s'.current).runnable = true := by
  have hmoves : ∀ {keep : MtxId → Nat} {w : Tid → Prop}, ¬ Moves s s' keep w := by
    intro keep wk hm
    rcases hm.mode with hu | ⟨hx, _⟩
    · rw [hb] at hu
      cases hu
    · rw [hb] at hx
      cases hx
  have huser : ∀ hu : s.mode = .user, s'.mode ≠ s.mode := by
    intro hu hx
    rw [hb, hu] at hx
    cases hx
  cases step_inv hs with
  | @call c _ hu _ he =>
    exfalso
    by_cases hord : ordinary c = true
    · exact hmoves (Condvar.moves_exec h hj hu hord he).1
    · cases c with
      | createThread mem joinable extstack mmapOk =>
        cases he
        refine huser hu ?_
        obtain hx | ⟨t, -, hx⟩ := createThread_eq mem joinable extstack mmapOk s
        · rw [hx]
        · rw [hx]
          rfl
      | setCurlwp l =>
        cases he
        exact huser hu rfl
      | wait q nsec tm => exact hmoves (w := fun _ => False) (Condvar.moves_waitOn he)
      | wakeupOne q =>
        cases he
        exact huser hu (Condvar.wakeupOne_mode q s)
      | wakeupAll q =>
        cases he
        exact huser hu (Condvar.wakeupAll_mode q s)
      | rwDowngrade r => exact huser hu (by rw [rwDowngrade_locks he])
      | rwTryupgrade r =>
        cases he
        exact huser hu (by rw [rwTryupgrade_locks r s])
      | _ => exact absurd rfl hord
  | callAbort => cases hb
  | switch _ _ hr => exact hr
  | idle => cases hb
  | extWake hi =>
    have hb' : s.mode = .back := hb
    simp [hb', Mode.isIdle] at hi
  | resume _ he => exact absurd (Condvar.moves_resume hj rfl he) hmoves
  | resumeAbort => cases hb

/-- A step of the library itself. -/
theorem fate_lib {tr : Trace} {h : Host} {e : Event} {t : Tid} {w : Wid} {kind : CvKind}
    {c : CvId} {m : MtxId} (hi : Inv tr h) (hown : Host.ownEvent e = true)
    (hst : noStatic e = true) (hs : step h.lib e = some s')
    (hp : s'.pc t = .wait w (.cvWait kind c m)) :
    Fate (tr ++ [(h, .lib e)]) s' t w kind c m := by
  rcases cv_entered hi.sys hs hp with ⟨hold, hoff⟩ | ⟨x, dl, rfl, ht, hw, hcall, hr, hdl⟩
  · have hf := hi.fate t w kind c m hold
    refine ⟨fun hd => ?_, fun hd => ?_⟩
    · by_cases hd' : .dequeue w (.cv c) ∈ h.lib.hist
      · exact (hf.signalled hd').snoc _
      · have hsig := (dequeue_origin hst hs hd).resolve_left hd'
        have hon : w ∈ h.lib.waiters (.cv c) := by
          by_contra hoff'
          exact hd' (dequeued_of_off hi.sys.waits hold hoff')
        refine ⟨(h, .lib e), by simp, ?_, hon⟩
        rcases hsig with rfl | rfl
        · exact .inl rfl
        · exact .inr rfl
    · have hd' : .dequeue w (.cv c) ∉ h.lib.hist := fun hx =>
        hd ((step_later hs).hist.subset hx)
      obtain ⟨l₁, p, l₂, dl, rfl, hin, hx⟩ := hf.pending hd'
      refine ⟨l₁, p, l₂ ++ [(h, .lib e)], dl, by simp, hin, ?_⟩
      rcases hx with ⟨hr, hdl⟩ | hpass
      · rcases cv_asleep hi.sys hi.join hst hs hold hp hoff hr with hsame | rfl | hdq | ⟨tm, rfl, h0, hle⟩
        · rw [hsame]
          exact .inl ⟨hr, hdl⟩
        · cases hown
        · exact absurd hdq hd
        · rw [hdl] at h0 hle
          exact .inr ⟨(h, .lib (.pass tm)), by simp, tm, rfl, h0, hle⟩
      · exact .inr (hpass.snoc _)
  · have hnew : .dequeue w (.cv c) ∉ s'.hist := by
      intro hd
      rcases dequeue_origin hst hs hd with hold | hx | hx
      · have hl := hi.sys.waits.fresh w (Nat.le_of_eq hw.symm)
        rw [← WaitQueue.mem_life (w := w) rfl, hl] at hold
        cases hold
      · cases hx
        cases hcall
      · cases hx
        cases hcall
    refine ⟨fun hd => absurd hd hnew, fun _ => ?_⟩
    exact ⟨tr, (h, .lib (.call x)), [], dl, rfl, ⟨ht.symm, hw.symm, x, rfl, hcall⟩, .inl ⟨hr, hdl⟩⟩

theorem inv_lib {tr : Trace} {h : Host} {e : Event} (hi : Inv tr h)
    (hown : Host.ownEvent e = true) (ho : orderly h (.lib e) = true)
    (hs : step h.lib e = some s') : Inv (tr ++ [(h, .lib e)]) { h with lib := s' } := by
  simp only [orderly, Bool.and_eq_true] at ho
  exact ⟨WaitQueue.sys_step hi.sys hs, Join.inv_step hi.join hi.sys ho.2 hs,
    fun fd t hw => step_created hs (hi.entries fd t hw), step_back hi.sys hi.join hs,
    fun t w kind c m hp => fate_lib hi hown ho.1 hs hp⟩

/-- A `ppoll` that wakes no thread out of a wait on a condition variable. -/
theorem inv_poll {tr : Trace} {h : Host} {revents : List Bool} (hi : Inv tr h)
    (hidle : h.lib.mode.isIdle = true) (hn : strays h (.poll revents) = false) :
    Inv (tr ++ [(h, .poll revents)]) (h.nanosleep revents) := by
  obtain ⟨l, x, hr, hev, hx⟩ := nanosleepLoop_run (l := h.pollfd.zip revents) hi.sys.lists hidle
    hi.entries
  have hwakes : Guarded (fun s e => Join.joinedOnce s e) l := by
    intro p hp
    obtain ⟨t, ht, _⟩ := hev p hp
    rw [ht]
    rfl
  have hsysx := WaitQueue.sys_run hi.sys hr
  have hjoinx := Join.inv_run hi.join hi.sys hr hwakes
  obtain ⟨th, mode, heq, hmode, _, hth⟩ := nanosleepLoop_frame h.wake (h.pollfd.zip revents) h.lib
  have hboth : Sys (h.nanosleep revents).lib ∧ Join.Inv (h.nanosleep revents).lib := by
    show Sys (nanosleepLoop _ _ _) ∧ Join.Inv (nanosleepLoop _ _ _)
    rcases hx with hx | hx
    · rw [hx]
      exact ⟨hsysx, hjoinx⟩
    · rw [hx]
      exact ⟨WaitQueue.sys_dead hsysx _, Join.inv_dead hjoinx _⟩
  have hlib : (h.nanosleep revents).lib = { h.lib with thread := th, mode := mode } := heq
  refine ⟨hboth.1, hboth.2, ?_, ?_, ?_⟩
  · rw [hlib]
    exact hi.entries
  · rw [hlib]
    intro hb
    have hb' : mode = .back := hb
    rcases hmode with hm | hm
    · rw [hm] at hb'
      rw [hb'] at hidle
      cases hidle
    · rw [hm] at hb'
      cases hb'
  · rw [hlib]
    intro t w kind c m hp
    refine (hi.fate t w kind c m hp).snoc _ rfl fun hd => hth t fun hmem => ?_
    have hp' : h.lib.pc t = .wait w (.cvWait kind c m) := hp
    have hon : (h.lib.waiter w).onlist = true := by
      rcases WaitQueue.open_stage hi.sys.waits hp' with ⟨_, ho⟩ | ⟨hl, _, _⟩
      · exact ho
      · exfalso
        apply hd
        rw [← WaitQueue.mem_life (w := w) rfl, hl]
        simp [Cont.queue]
    have hin : inCvWait h.lib t = true := by simp [inCvWait, hp', hon]
    simp only [strays, List.any_eq_false] at hn
    exact hn t hmem hin

theorem inv_step {tr : Trace} {h h' : Host} {e : HostEvent} (hi : Inv tr h)
    (ho : orderly h e = true) (hn : strays h e = false) (hs : Host.step h e = some h') :
    Inv (tr ++ [(h, e)]) h' := by
  cases e with
  | lib e =>
    simp only [Host.step] at hs
    split at hs
    next hown =>
      rw [Option.map_eq_some_iff] at hs
      obtain ⟨s', hs, rfl⟩ := hs
      exact inv_lib hi hown ho hs
    next => cases hs
  | recvThread fd thrid =>
    simp only [Host.step] at hs
    split at hs
    next hc =>
      cases hs
      refine ⟨hi.sys, hi.join, ?_, hi.selected, fun t w kind c m hp =>
        (hi.fate t w kind c m hp).snoc _ rfl fun _ => rfl⟩
      intro fd' t hw
      by_cases hfd : fd' = fd
      · subst hfd
        simp only [Host.recvThread, Function.update_self] at hw
        exact hc.2 t hw
      · simp only [Host.recvThread, Function.update_of_ne hfd] at hw
        exact hi.entries fd' t hw
    next => cases hs
  | poll revents =>
    simp only [Host.step] at hs
    split at hs
    next hc =>
      cases hs
      exact inv_poll hi hc.1 hn
    next => cases hs

theorem inv_run {t₀ : Tid} {fds : List Nat} {tr : Trace} {h : Host}
    (hr : Run Host.step (Host.boot t₀ fds) tr h) (ho : Guarded (fun h e => orderly h e) tr)
    (hn : Guarded (fun h e => strays h e = false) tr) : Inv tr h := by
  induction hr with
  | nil =>
    refine ⟨WaitQueue.sys_boot _ _ _ (by simp), Join.inv_boot _ _ _, ?_, ?_, ?_⟩
    · exact fun fd t hw => by simp [Host.boot] at hw
    · exact fun hb => by simp [Host.boot, initSched, Threads.boot] at hb
    · intro t w kind c m hp
      simp only [Host.boot, initSched, Threads.boot] at hp
      split at hp <;> cases hp
  | snoc _ hs ih =>
    obtain ⟨ho', hoe⟩ := guarded_snoc.mp ho
    obtain ⟨hn', hne⟩ := guarded_snoc.mp hn
    exact inv_step (ih ho' hn') hoe hne hs

/-- A deadline that does not overflow is the time of the call plus the timeout,
unless it is the one that stands for no timeout. -/
theorem deadline_eq {sec nsec tm : Int}
    (h : (fits (sec * 1000 * 1000 * 1000 + nsec) &&
      fits (tm + (sec * 1000 * 1000 * 1000 + nsec))) = true)
    (h0 : 0 ≤ deadline (i64 (sec * 1000 * 1000 * 1000 + nsec)) tm) :
    deadline (i64 (sec * 1000 * 1000 * 1000 + nsec)) tm =
      tm + (sec * 1000 * 1000 * 1000 + nsec) := by
  simp only [fits, Bool.and_eq_true, decide_eq_true_eq] at h
  obtain ⟨⟨h1, h2⟩, h3, h4⟩ := h
  rw [i64_of_range h1 h2] at h0 ⊢
  unfold deadline at h0 ⊢
  split
  next hno =>
    rw [if_pos hno] at h0
    omega
  next => exact i64_of_range h3 h4

/-- Returns from condition variables, for any number of threads on any
interleaving of calls, clock readings and packets, if no packet wakes a thread
out of such a wait and no timeout overflows. A thread about to come out of
`cv_timedwait` with `ETIMEDOUT` has called it before, and since then the clock
has been read when the time of the call plus the timeout was over. A thread
about to come out of `cv_wait` or `cv_wait_nowrap` has been dequeued by a
`cv_signal` or `cv_broadcast` that found it on the queue. -/
theorem cv_returns_real {t₀ : Tid} {fds : List Nat} {tr l : Trace} {h h₁ : Host}
    {w : Wid} {kind : CvKind} {c : CvId} {m : MtxId}
    (hr : Run Host.step (Host.boot t₀ fds) tr h) (ho : Guarded (fun h e => orderly h e) tr)
    (hn : Guarded (fun h e => strays h e = false) tr) (hl : l ++ [(h₁, .lib .resume)] <+: tr)
    (hp : h₁.lib.pc h₁.lib.current = .wait w (.cvWait kind c m)) :
    (kind = .timed → (waitRet w (.cv c) (reap h₁.lib)).1 = .ETIMEDOUT →
      ∃ l₁ p l₂ sec nsec tm, l = l₁ ++ p :: l₂ ∧ p.1.lib.current = h₁.lib.current ∧
        p.1.lib.nextWid = w ∧ p.2 = .lib (.call (.cvTimedwait c m sec nsec tm)) ∧
        ∃ q ∈ l₂, ∃ tm', q.2 = .lib (.pass tm') ∧
          tm + (sec * 1000 * 1000 * 1000 + nsec) ≤ tm') ∧
    (kind ≠ .timed → .dequeue w (.cv c) ∈ h₁.lib.hist ∧
      ∃ p ∈ l, (p.2 = .lib (.call (.cvSignal c)) ∨ p.2 = .lib (.call (.cvBroadcast c))) ∧
        w ∈ p.1.lib.waiters (.cv c)) := by
  obtain ⟨hr₁, h₂, hs⟩ := hr.before hl
  have hle : l <+: tr := (List.prefix_append _ _).trans hl
  have hi := inv_run hr₁ (ho.prefix_of hle) (hn.prefix_of hle)
  have hb : h₁.lib.mode = .back := by
    simp only [Host.step, Host.ownEvent, if_true, Option.map_eq_some_iff] at hs
    obtain ⟨s', hs, _⟩ := hs
    cases step_inv hs with
    | resume hb => exact hb
    | resumeAbort hb => exact hb
  have hf := hi.fate _ w kind c m hp
  have hrun := hi.selected hb
  refine ⟨?_, fun hk => ?_⟩
  · rintro rfl hrv
    have hd : .dequeue w (.cv c) ∉ h₁.lib.hist := by
      intro hd
      have hdq : WaitQueue.dequeued w (reap h₁.lib).hist = true := by
        rw [← WaitQueue.mem_life (w := w) rfl] at hd
        exact List.any_eq_true.mpr ⟨_, hd, rfl⟩
      have hval := WaitQueue.waitRet_value (WaitQueue.inv_reap hi.sys.waits) hp
      rw [hdq] at hval
      have hok : (waitRet w (.cv c) (reap h₁.lib)).1 = .ok := hval
      rw [hok] at hrv
      cases hrv
    obtain ⟨l₁, p, l₂, dl, heq, ⟨hcur, hnext, x, hx, hcall⟩, hfate⟩ := hf.pending hd
    rcases hfate with ⟨hoff, _⟩ | ⟨q, hq, tm', hev, h0, hdl⟩
    · rw [hrun] at hoff
      cases hoff
    · cases x with
      | cvTimedwait c' m' sec nsec tm =>
        cases hcall
        refine ⟨l₁, p, l₂, sec, nsec, tm, heq, hcur, hnext, hx, q, hq, tm', hev, ?_⟩
        have hmem : p ∈ tr := hle.subset (by rw [heq]; simp)
        have hfit := hn p hmem
        rw [hx] at hfit
        simp only [strays, Bool.not_eq_false'] at hfit
        rw [deadline_eq hfit h0] at hdl
        exact hdl
      | cvWait => cases hcall
      | cvWaitNowrap => cases hcall
      | _ => cases hcall
  · have hd : .dequeue w (.cv c) ∈ h₁.lib.hist := by
      by_contra hd
      obtain ⟨l₁, p, l₂, dl, heq, ⟨hcur, hnext, x, hx, hcall⟩, hfate⟩ := hf.pending hd
      have hdl : dl = -1 := by
        cases x with
        | cvTimedwait =>
          cases hcall
          exact absurd rfl hk
        | cvWait =>
          cases hcall
          rfl
        | cvWaitNowrap =>
          cases hcall
          rfl
        | _ => cases hcall
      rcases hfate with ⟨hoff, _⟩ | ⟨q, hq, tm', hev, h0, _⟩
      · rw [hrun] at hoff
        cases hoff
      · omega
    exact ⟨hd, hf.signalled hd⟩

/-- A `cv_timedwait` of 5 ns at time 0 that is about to return `ETIMEDOUT`, with
the reading of the clock that ended it. -/
theorem cv_returns_real_timeout : ∃ l h₁ h₂,
    Run Host.step (Host.boot 0 [5]) (l ++ [(h₁, .lib .resume)]) h₂ ∧
    (waitRet 0 (.cv 0) (reap h₁.lib)).1 = .ETIMEDOUT ∧
    ∃ l₁ p l₂ sec nsec tm, l = l₁ ++ p :: l₂ ∧ p.1.lib.current = h₁.lib.current ∧
      p.1.lib.nextWid = 0 ∧ p.2 = .lib (.call (.cvTimedwait 0 0 sec nsec tm)) ∧
      ∃ q ∈ l₂, ∃ tm', q.2 = .lib (.pass tm') ∧ tm + (sec * 1000 * 1000 * 1000 + nsec) ≤ tm' := by
  obtain ⟨l, h₁, hr, hp⟩ := exists_run (f := Host.step) (s := Host.boot 0 [5])
    [.lib (.call (.mutexEnter 0)), .lib (.call (.cvTimedwait 0 0 0 5 0)), .lib (.pass 3),
      .poll [true], .lib (.pass 5)]
    (p := fun tr h => (Guarded (fun h e => orderly h e) tr ∧
      Guarded (fun h e => strays h e = false) tr) ∧
      h.lib.pc h.lib.current = .wait 0 (.cvWait .timed 0 0) ∧
      (waitRet 0 (.cv 0) (reap h.lib)).1 = .ETIMEDOUT ∧
      (Host.step h (.lib .resume)).isSome = true) (by decide)
  rw [decide_eq_true_eq] at hp
  obtain ⟨⟨ho, hn⟩, hpc, hrv, hsome⟩ := hp
  obtain ⟨h₂, hs⟩ := Option.isSome_iff_exists.mp hsome
  refine ⟨l, h₁, h₂, .snoc hr hs, hrv, ?_⟩
  exact (cv_returns_real (.snoc hr hs) (guarded_snoc.mpr ⟨ho, rfl⟩) (guarded_snoc.mpr ⟨hn, rfl⟩)
    (List.prefix_refl _) hpc).1 rfl hrv

/-- A thread that is registered for descriptor 5 waits with `cv_timedwait` for
10 s and then with `cv_wait`; packets arrive after 1 ns. Both waits return,
without a signal and before any deadline. -/
theorem cv_returns_disturbed : ∃ tr h, Run Host.step (Host.boot 0 [5]) tr h ∧
    Guarded (fun h e => orderly h e) tr ∧
    tr.map Prod.snd = [.recvThread 5 (some 0), .lib (.call (.mutexEnter 0)),
      .lib (.call (.cvTimedwait 0 0 10 0 0)), .lib (.pass 0), .poll [true], .lib (.pass 1),
      .lib .resume, .lib (.call (.cvWait 0 0)), .lib (.pass 1), .poll [true], .lib (.pass 1),
      .lib .resume] ∧
    h.lib.mode = .user ∧
    h.lib.hist = [.arrive 0 (.cv 0), .remove 0 (.cv 0), .ret 0 .ETIMEDOUT, .arrive 1 (.cv 0),
      .remove 1 (.cv 0), .ret 1 .ETIMEDOUT] := by
  obtain ⟨tr, h, hr, hp⟩ := exists_run (f := Host.step) (s := Host.boot 0 [5])
    [.recvThread 5 (some 0), .lib (.call (.mutexEnter 0)),
      .lib (.call (.cvTimedwait 0 0 10 0 0)), .lib (.pass 0), .poll [true], .lib (.pass 1),
      .lib .resume, .lib (.call (.cvWait 0 0)), .lib (.pass 1), .poll [true], .lib (.pass 1),
      .lib .resume]
    (p := fun tr h => Guarded (fun h e => orderly h e) tr ∧
      tr.map Prod.snd = [.recvThread 5 (some 0), .lib (.call (.mutexEnter 0)),
        .lib (.call (.cvTimedwait 0 0 10 0 0)), .lib (.pass 0), .poll [true], .lib (.pass 1),
        .lib .resume, .lib (.call (.cvWait 0 0)), .lib (.pass 1), .poll [true], .lib (.pass 1),
        .lib .resume] ∧
      h.lib.mode = .user ∧
      h.lib.hist = [.arrive 0 (.cv 0), .remove 0 (.cv 0), .ret 0 .ETIMEDOUT, .arrive 1 (.cv 0),
        .remove 1 (.cv 0), .ret 1 .ETIMEDOUT]) (by decide)
  rw [decide_eq_true_eq] at hp
  exact ⟨tr, h, hr, hp⟩

end Frankenlibc.Threads.Timeout

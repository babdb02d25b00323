import Frankenlibc.Threads.Mutex

/-!
# No stranded waiter of a reader/writer lock

`rw_exit` wakes one writer if any waits, and otherwise all readers. A reader
that is refused because a writer is queued, or a writer that barges in between
a wakeup and the retry, must not leave the lock free with everybody asleep.
`Relay` is what prevents it: a free lock with waiters has a writer on its way,
which an exit took from the front of `wwait` and which has not retried yet.
Readers queue up at a free lock only behind a queued writer, and the retry of
the writer on its way takes the lock.
-/
namespace Frankenlibc.Threads.RwRelay

open Frankenlibc.Lib
open WaitQueue (Sys Ready)
open Locks

/-- Somebody waits for the lock. -/
def Queued (s : State) (r : RwId) : Prop :=
  s.waiters (.wwait r) ≠ [] ∨ s.waiters (.rwait r) ≠ []

/-- A free lock with waiters has a writer on its way that is one of `D`. -/
def Relay (D : Wid → Prop) (s : State) (r : RwId) : Prop :=
  (s.rw r).o = none → Queued s r →
    ∃ t w, s.pc t = .wait w (.rwEnter .writer r) ∧ .dequeue w (.wwait r) ∈ s.hist ∧ D w

/-- The queues of the lock. -/
def OfRw (r : RwId) (q : Queue) : Prop := q = .wwait r ∨ q = .rwait r

variable {D : Wid → Prop} {r : RwId} {s s' s'' : State}

theorem queued_iff : Queued s r ↔ ∃ q, OfRw r q ∧ s.waiters q ≠ [] := by
  simp [Queued, OfRw, or_and_right, exists_or]

theorem relay_leaves (h : Relay D s r) (hl : Leaves (OfRw r) s s') : Relay D s' r := by
  intro ho hq
  rw [hl.locks.rw] at ho
  obtain ⟨t, w, hp, hd, hw⟩ := h ho (queued_iff.mpr (hl.queued (queued_iff.mp hq)))
  exact ⟨t, w, hl.pc t w _ hp, hl.hist.subset hd, hw⟩

theorem relay_locks (h : Relay D s r) (hl : OnlyLocks s s') (ho : (s'.rw r).o = (s.rw r).o) :
    Relay D s' r := by
  intro hnone hq
  have hwq : s'.waiters = s.waiters := by rw [hl]
  rw [ho] at hnone
  rw [Queued, hwq] at hq
  obtain ⟨t, w, hp, hd, hw⟩ := h hnone hq
  exact ⟨t, w, by rw [onlyLocks_pc hl, hp], hl.calm.later.hist.subset hd, hw⟩

theorem relay_mono {E : Wid → Prop} (h : Relay D s r) (hle : ∀ w, D w → E w) : Relay E s r := by
  intro ho hq
  obtain ⟨t, w, hp, hd, hw⟩ := h ho hq
  exact ⟨t, w, hp, hd, hle w hw⟩

/-! ## What leaves the lock alone -/

theorem relay_mutexExit {m : MtxId} (h : Relay D s r) (he : mutexExit m s = .ok s') :
    Relay D s' r := by
  have hleft : Relay D (mutexLeft m s) r := relay_locks h (mutexLeft_locks m s) rfl
  obtain ⟨_, ⟨_, rfl⟩ | ⟨_, rfl⟩⟩ := mutexExit_ok he
  · exact relay_leaves hleft (leaves_wakeupOne _ _)
  · exact hleft

theorem relay_cvBegin {kind : CvKind} {c : CvId} {m : MtxId} {nsec tm : Int} (hready : Ready s)
    (h : Relay D s r) (he : cvBegin kind c m nsec tm s = .ok s') : Relay D s' r := by
  obtain ⟨s₁, hm, hw⟩ := cvBegin_ok he
  have hcount : OnlyLocks s
      { s with cv := Function.update s.cv c { nwaiters := (s.cv c).nwaiters + 1 } } := rfl
  have hexit := WaitQueue.ready_mutexExit (WaitQueue.ready_locks hready hcount) hm
  exact relay_leaves (relay_mutexExit (relay_locks h hcount rfl) hm)
    (leaves_waitOn hexit (by simp [OfRw, Cont.queue]) hw)

/-! ## The operations of the lock -/

theorem rwEntered_o {lk : RwMode} {r₀ : RwId} (hr : r ≠ r₀) :
    ((rwEntered r₀ s lk).rw r).o = (s.rw r).o := by
  cases lk <;> simp [rwEntered, hr]

/-- A writer with an lwp that gets in takes the lock; a reader leaves the owner
alone. -/
theorem relay_entered {lk : RwMode} {r₀ : RwId} (hcur : s.curlwp ≠ none)
    (h : (lk = .writer → r ≠ r₀) → Relay D s r) : Relay D (rwEntered r₀ s lk) r := by
  by_cases hr : r = r₀
  · subst hr
    cases lk with
    | writer =>
      intro ho
      simp only [rwEntered, Function.update_self] at ho
      exact absurd ho hcur
    | reader =>
      refine relay_locks (h (by simp)) (rwEntered_locks r s _) ?_
      simp [rwEntered]
  · exact relay_locks (h fun _ => hr) (rwEntered_locks r₀ s _) (rwEntered_o hr)

/-- A turn of whatever was waiting. The relay may have been broken for the lock
that a writer's turn is about. -/
theorem relay_turn {k : Cont} (hready : Ready s) (hcur : s.curlwp ≠ none)
    (h : k ≠ .rwEnter .writer r → Relay D s r) (ht : Turn s k s') : Relay D s' r := by
  cases ht with
  | @mutexIn m =>
    have hin : Relay D (mutexEntered m s) r :=
      relay_locks (h (by simp)) (mutexEntered_locks m s) rfl
    exact relay_leaves hin (leaves_toUser hready.notWaiting)
  | mutexWait _ hw =>
    exact relay_leaves (h (by simp)) (leaves_waitOn hready (by simp [OfRw, Cont.queue]) hw)
  | @rwIn lk r₀ =>
    have hr := WaitQueue.ready_locks hready (rwEntered_locks r₀ s lk)
    refine relay_leaves (relay_entered hcur fun hne => h ?_) (leaves_toUser hr.notWaiting)
    rintro ⟨rfl, rfl⟩
    exact hne rfl rfl
  | @rwWait lk r₀ _ hno hw =>
    by_cases hr : r = r₀
    · subst hr
      cases lk with
      | writer =>
        -- a writer is refused only by an owner
        intro ho
        rw [(waitOn_sameLocks hw).rw] at ho
        exact absurd ho hno
      | reader =>
        intro ho hq
        have ho' : (s.rw r).o = none := by rwa [(waitOn_sameLocks hw).rw] at ho
        have hwait : s.waiters (.wwait r) ≠ [] := fun hnil => hno ⟨ho', hnil⟩
        exact relay_leaves (h (by simp))
          (leaves_waitOn hready (fun _ => ⟨_, .inl rfl, hwait⟩) hw) ho hq
    · have hk : (Cont.rwEnter lk r₀).queue ≠ .wwait r ∧ (Cont.rwEnter lk r₀).queue ≠ .rwait r := by
        cases lk <;> simp [Cont.queue, rwQueue, Ne.symm hr]
      refine relay_leaves (h ?_) (leaves_waitOn hready (fun hmine => ?_) hw)
      · rintro ⟨rfl, rfl⟩
        exact hr rfl
      · exact absurd hmine (not_or.mpr hk)
  | @cvIn kind c m =>
    have hin : Relay D { mutexEntered m s with
        cv := Function.update s.cv c { nwaiters := (s.cv c).nwaiters - 1 } } r :=
      relay_locks (h (by simp)) rfl rfl
    exact relay_leaves hin (leaves_toUser hready.notWaiting)
  | bare => exact relay_leaves (h (by simp)) (leaves_toUser hready.notWaiting)

/-- The waiter at the head of `wwait` is inside `rw_enter`. -/
theorem wwait_waits {w : Wid} {ws : List Wid} (h : WaitQueue.Inv s)
    (hb : ∀ t w q, s.pc t ≠ .wait w (.bare q)) (hq : s.waiters (.wwait r) = w :: ws) :
    s.pc (s.waiter w).who = .wait w (.rwEnter .writer r) := by
  obtain ⟨_, _, k, hp, hk⟩ := WaitQueue.waiter_waits h (q := .wwait r) (w := w) (by simp [hq])
  cases k with
  | rwEnter lk r₀ =>
    cases lk with
    | writer =>
      cases hk
      exact hp
    | reader => cases hk
  | mutexEnter => cases hk
  | cvWait => cases hk
  | bare q => exact absurd hp (hb _ w q)

/-- Every exit leaves the lock without an owner. Then it sends the first writer
on its way, or all readers, so that nobody is left. -/
theorem relay_exit (h : WaitQueue.Inv s) (hb : ∀ t w q, s.pc t ≠ .wait w (.bare q))
    (hD : ∀ w, (s.waiters (.wwait r)).head? = some w → D w) : Relay D (rwExit r s) r := by
  have hrel := rwReleased_locks r s
  have hwq : (rwReleased r s).waiters = s.waiters := by rw [hrel]
  have ho : ((rwReleased r s).rw r).o = none := by
    simp only [rwReleased, Function.update_self, rwRelease]
    split
    · rfl
    next hno => exact not_not.mp hno
  intro _ hq
  rw [rwExit_eq] at hq ⊢
  unfold rwHandOver at hq ⊢
  rw [hwq] at hq ⊢
  cases hw : s.waiters (.wwait r) with
  | cons w ws =>
    have hstep : wakeupOne (.wwait r) (rwReleased r s) =
        dequeue (.wwait r) w ws (rwReleased r s) := by
      simp [wakeupOne, hwq, hw]
    rw [if_pos (by simp), if_pos ho, hstep]
    refine ⟨(s.waiter w).who, w, ?_, ?_, hD w (by rw [hw]; rfl)⟩
    · rw [dequeue_pc, onlyLocks_pc hrel]
      exact wwait_waits h hb hw
    · simp [dequeue, wake, State.setThread]
  | nil =>
    rw [hw] at hq
    rw [if_neg (by simp)] at hq
    split at hq
    · obtain ⟨hnil, hother⟩ := wakeupLoop_waiters (s := rwReleased r s) (q := .rwait r) rfl
      rcases hq with hq | hq
      · exact absurd (by rw [wakeupAll, hother _ (by simp), hwq, hw]) hq
      · exact absurd hnil hq
    next hno =>
      rcases hq with hq | hq
      · exact absurd (by rw [hwq, hw]) hq
      · rw [hwq] at hq
        exact absurd ⟨hq, ho⟩ hno

/-- Nothing happens to another lock. -/
theorem relay_exit_other {r₀ : RwId} (hr : r ≠ r₀) (h : Relay D s r) : Relay D (rwExit r₀ s) r := by
  have hrel : Relay D (rwReleased r₀ s) r :=
    relay_locks h (rwReleased_locks r₀ s) (by simp [rwReleased, hr])
  exact relay_leaves hrel (leaves_rwHandOver r₀ _)

/-! ## Steps -/

/-- What the steps need: the system is sound, every thread has an lwp, and
nobody waits outside the lock functions. -/
structure Staff (s : State) : Prop where
  sys : Sys s
  named : ∀ t ∈ s.created, (s.thread t).lwp ≠ none
  noBare : ∀ t w q, s.pc t ≠ .wait w (.bare q)

theorem staff_boot {t : Tid} {ts : List Tid} {lwp : Tid → Option Lwp} (hnd : (t :: ts).Nodup)
    (hn : ∀ u ∈ t :: ts, lwp u ≠ none) : Staff (boot t ts lwp) where
  sys := WaitQueue.sys_boot t ts lwp hnd
  named := hn
  noBare u w q := by
    simp only [boot]
    split <;> simp

theorem staff_step {e : Event} (h : Staff s) (hl : lawful s e = true)
    (hs : step s e = some s') : Staff s' :=
  ⟨WaitQueue.sys_step h.sys hs, named_step h.named hl hs, noBare_step h.sys h.noBare hl hs⟩

theorem Staff.curlwp (h : Staff s) (hm : s.mode = .user ∨ s.mode = .back) : s.curlwp ≠ none :=
  h.named _ (h.sys.current_created hm)

theorem relay_exec {c : Call} (hst : Staff s) (hu : s.mode = .user) (h : Relay D s r)
    (hl : lawfulCall s c = true)
    (hD : ∀ w, c = .rwExit r → (s.waiters (.wwait r)).head? = some w → D w)
    (he : exec s c = .ok s') : Relay D s' r := by
  have hready := hst.sys.ready hu
  have hn := hready.notWaiting
  have hcur := hst.curlwp (.inl hu)
  cases exec_performed he with
  | refused | create | setCurlwp | wait | wakeupOne | wakeupAll | rwDowngrade | rwTryupgrade =>
    cases hl
  | mutexBusy | rwBusy => exact h
  | yield => exact relay_leaves h (leaves_suspend hn _)
  | exit => exact relay_leaves h (leaves_exitThread hn)
  | join _ hj => exact relay_leaves h (leaves_joinLoop hn hj)
  | sleep => exact relay_leaves h (leaves_clockSleep hn _ _ _ _)
  | mutexEnter ht | rwEnter ht => exact relay_turn hready hcur (fun _ => h) ht
  | mutexIn => exact relay_locks h (mutexEntered_locks _ s) rfl
  | mutexExit hx => exact relay_mutexExit h hx
  | rwIn => exact relay_entered hcur fun _ => h
  | @rwExit r₀ =>
    by_cases hr : r = r₀
    · subst hr
      exact relay_exit hst.sys.waits hst.noBare fun w => hD w rfl
    · exact relay_exit_other hr h
  | cvWait hb | cvWaitNowrap hb | cvTimedwait hb => exact relay_cvBegin hready h hb
  | cvSignal => exact relay_leaves h (leaves_wakeupOne _ s)
  | cvBroadcast => exact relay_leaves h (leaves_wakeupLoop rfl)

/-- A thread that returns from `wait` breaks the relay of a lock only if it is
the writer that the lock was waiting for. -/
theorem relay_waitRet {w : Wid} {k : Cont} (h : Relay D s r) (hp : s.pc s.current = .wait w k)
    (hk : k ≠ .rwEnter .writer r) : Relay D (waitRet w k.queue s).2 r := by
  have hc := waitRet_calm w k.queue s
  intro ho hq
  rw [(waitRet_sameLocks w k.queue s).rw] at ho
  obtain ⟨t, u, hpt, hd, hu⟩ := h ho (hq.imp waitRet_nonempty waitRet_nonempty)
  have ht : t ≠ s.current := by
    rintro rfl
    rw [hp] at hpt
    cases hpt
    exact hk rfl
  exact ⟨t, u, by rw [hc.pc t ht, hpt], hc.later.hist.subset hd, hu⟩

theorem relay_resume {p : Pc} (hst : Staff s) (hb : s.mode = .back) (h : Relay D s r)
    (hp : s.pc s.current = p) (he : resume s p = .ok s') : Relay D s' r := by
  have hreap : Relay D (reap s) r := relay_leaves h (leaves_reap s)
  cases resume_inv he with
  | running | fresh => exact relay_leaves h (leaves_toUser (by simp [hp]))
  | yield | sleep => exact relay_leaves hreap (leaves_toUser (by simp [reap, hp]))
  | @wait w k _ ht =>
    have hc := waitRet_calm w k.queue (reap s)
    refine relay_turn (WaitQueue.ready_waitRet (WaitQueue.inv_reap hst.sys.waits) hp) ?_
      (fun hk => relay_waitRet hreap hp hk) ht
    rw [State.curlwp, hc.current, hc.lwp]
    exact hst.curlwp (.inr hb)
  | join hj => exact relay_leaves hreap (leaves_joinLoop (by simp [reap, hp]) hj)
  | gate => exact relay_leaves hreap (leaves_exitThread (by simp [reap, hp]))
  | exited => exact relay_leaves hreap (leaves_suspend (by simp [reap, hp]) _)

theorem relay_step {e : Event} (hst : Staff s) (h : Relay D s r) (hl : lawful s e = true)
    (hD : ∀ w, e = .call (.rwExit r) → (s.waiters (.wwait r)).head? = some w → D w)
    (hs : step s e = some s') : Relay D s' r := by
  cases step_inv hs with
  | call hu _ he => exact relay_exec hst hu h hl (fun w hc => hD w (by rw [hc])) he
  | callAbort => exact h
  | switch => exact h
  | idle => exact h
  | extWake => exact h
  | resume hb he => exact relay_resume hst hb h rfl he
  | resumeAbort => exact h

/-! ## Whole runs -/

/-- A call of `rw_exit` in the run found `w` at the head of `wwait`. -/
def SentOff (tr : List (State × Event)) (r : RwId) (w : Wid) : Prop :=
  ∃ p ∈ tr, p.2 = .call (.rwExit r) ∧ (p.1.waiters (.wwait r)).head? = some w

theorem relay_run {s₀ : State} {tr : List (State × Event)} (h₀ : Staff s₀)
    (hi : Relay (fun _ => False) s₀ r) (hr : Run step s₀ tr s)
    (hg : Guarded (fun s e => lawful s e) tr) : Staff s ∧ Relay (SentOff tr r) s r := by
  induction hr with
  | nil => exact ⟨h₀, relay_mono hi fun _ hf => hf.elim⟩
  | @snoc tr s s' e _ hs ih =>
    obtain ⟨hg', hl⟩ := guarded_snoc.mp hg
    obtain ⟨hst, hrel⟩ := ih hg'
    refine ⟨staff_step hst hl hs, relay_step hst (relay_mono hrel ?_) hl ?_ hs⟩
    · rintro w ⟨p, hp, hx⟩
      exact ⟨p, List.mem_append_left _ hp, hx⟩
    · rintro w rfl hw
      exact ⟨(s, .call (.rwExit r)), by simp, rfl, hw⟩

/-- Any number of threads with lwps, any run of calls in which only holders
exit: if the lock has no owner and somebody waits for it, then some thread is
runnable that an `rw_exit` of the run found at the head of `wwait` and
dequeued, and that has not returned from `wait` to try the lock again. -/
theorem rw_no_stranded_waiter {t : Tid} {ts : List Tid} {lwp : Tid → Option Lwp}
    {tr : List (State × Event)} {s : State} (hnd : (t :: ts).Nodup)
    (hn : ∀ u ∈ t :: ts, lwp u ≠ none) (hr : Run step (boot t ts lwp) tr s)
    (hg : Guarded (fun s e => lawful s e) tr) (r : RwId) (ho : (s.rw r).o = none)
    (hq : s.waiters (.wwait r) ≠ [] ∨ s.waiters (.rwait r) ≠ []) :
    ∃ u w, s.pc u = .wait w (.rwEnter .writer r) ∧ .dequeue w (.wwait r) ∈ s.hist ∧
      SentOff tr r w ∧ (s.thread u).runnable = true := by
  have hboot : Relay (fun _ => False) (boot t ts lwp) r := fun _ hq => by simp [Queued, boot] at hq
  obtain ⟨hst, hrel⟩ := relay_run (staff_boot hnd hn) hboot hr hg
  obtain ⟨u, w, hp, hd, hw⟩ := hrel ho hq
  refine ⟨u, w, hp, hd, hw, ?_⟩
  rcases WaitQueue.open_stage hst.sys.waits hp with ⟨hl, _⟩ | ⟨_, _, hrun⟩
  · rw [← WaitQueue.mem_life (w := w) rfl, hl] at hd
    simp at hd
  · exact hrun

/-- The lock at work: a writer leaves while a writer and a reader wait. The
waiting writer is on its way, and the reader still sleeps. -/
theorem rw_no_stranded_waiter_hand_over : ∃ tr s, Run step (boot 0 [1, 2] some) tr s ∧
    (s.rw 0).o = none ∧ s.waiters (.rwait 0) = [1] ∧
    ∃ u w, s.pc u = .wait w (.rwEnter .writer 0) ∧ .dequeue w (.wwait 0) ∈ s.hist ∧
      SentOff tr 0 w ∧ (s.thread u).runnable = true := by
  obtain ⟨tr, s, hr, hp⟩ := exists_run (f := step) (s := boot 0 [1, 2] some)
    [.call (.rwEnter .writer 0), .call (.clockSleep .monotonic 0 5 0), .pass 0, .resume,
      .call (.rwEnter .writer 0), .pass 0, .resume, .call (.rwEnter .reader 0), .pass 0, .pass 5,
      .resume, .call (.rwExit 0)]
    (p := fun tr s => Guarded (fun s e => lawful s e) tr ∧ (s.rw 0).o = none ∧
      s.waiters (.rwait 0) = [1]) (by decide)
  rw [decide_eq_true_eq] at hp
  obtain ⟨hg, ho, hw⟩ := hp
  exact ⟨tr, s, hr, ho, hw,
    rw_no_stranded_waiter (by decide) (by simp) hr hg 0 ho (.inr (by simp [hw]))⟩

end Frankenlibc.Threads.RwRelay

import Frankenlibc.Threads.Locks

/-!
# Mutexes

A mutex is recursive, and an exit hands it over by waking one waiter, which
then competes for it. The invariant has two halves. `Owned` ties `v` and `o`
to the nesting depths of the threads. `Relay` says that a free mutex with
waiters has one on its way: a thread that an exit dequeued, that is runnable
and has not retried yet.
-/
namespace Frankenlibc.Threads.Mutex

open Frankenlibc.Lib
open WaitQueue (Sys Ready)
open Locks

/-- The mutex is free, or one thread holds it and `v` is its nesting depth. -/
def Owned (s : State) (m : MtxId) : Prop :=
  ((s.mtx m).v = 0 ∧ (s.mtx m).o = none ∧ ∀ t, s.depth m t = 0) ∨
  ∃ t ∈ s.created, (s.mtx m).o = (s.thread t).lwp ∧ (s.mtx m).v = s.depth m t ∧
    0 < s.depth m t ∧ ∀ u, u ≠ t → s.depth m u = 0

/-- Some waiter was dequeued and is about to retry, if the mutex is free and
anyone waits for it. -/
def Relay (s : State) (m : MtxId) : Prop :=
  (s.mtx m).v = 0 → s.waiters (.mtx m) ≠ [] →
    ∃ t w, s.pc t = .wait w (.mutexEnter m) ∧ (s.waiter w).onlist = false

structure Inv (s : State) : Prop where
  owned : ∀ m, Owned s m
  relay : ∀ m, Relay s m

theorem inv_boot (t : Tid) (ts : List Tid) (lwp : Tid → Option Lwp) : Inv (boot t ts lwp) where
  owned _ := .inl ⟨rfl, rfl, fun _ => rfl⟩
  relay _ _ hw := absurd rfl hw

/-! ## Ownership -/

theorem owned_congr {s s' : State} {m : MtxId} (h : Owned s m) (hm : s'.mtx m = s.mtx m)
    (hd : s'.depth m = s.depth m) (hf : Frozen s s') : Owned s' m := by
  unfold Owned
  rw [hm, hd, hf.created]
  simp only [hf.lwp]
  exact h

theorem owned_nonneg {s : State} {m : MtxId} (h : Owned s m) : 0 ≤ (s.mtx m).v := by
  rcases h with ⟨hv, _⟩ | ⟨t, _, _, hv, _⟩ <;> omega

/-- A thread with a positive depth is the owner. -/
theorem owned_holder {s : State} {m : MtxId} (h : Owned s m) {t : Tid} (ht : 0 < s.depth m t) :
    (s.mtx m).o = (s.thread t).lwp ∧ (s.mtx m).v = s.depth m t ∧
      ∀ u, u ≠ t → s.depth m u = 0 := by
  rcases h with ⟨_, _, hz⟩ | ⟨u, _, ho, hv, _, hz⟩
  · rw [hz t] at ht
    cases ht
  · have hut : t = u := by
      by_contra hne
      rw [hz t hne] at ht
      cases ht
    subst hut
    exact ⟨ho, hv, hz⟩

theorem mutexEntered_mtx (m : MtxId) (s : State) :
    (mutexEntered m s).mtx m = { v := (s.mtx m).v + 1, o := s.curlwp } := by
  simp [mutexEntered]

theorem mutexEntered_other {m m' : MtxId} (h : m' ≠ m) (s : State) :
    (mutexEntered m s).mtx m' = s.mtx m' ∧ (mutexEntered m s).depth m' = s.depth m' := by
  simp [mutexEntered, h]

theorem mutexLeft_other {m m' : MtxId} (h : m' ≠ m) (s : State) :
    (mutexLeft m s).mtx m' = s.mtx m' ∧ (mutexLeft m s).depth m' = s.depth m' := by
  simp [mutexLeft, h]

/-- A successful `mutex_tryenter` finds the mutex free or already its own. -/
theorem owned_entered {s : State} {m : MtxId} (h : Owned s m) (hb : ¬ MutexBusy m s)
    (hdis : ∀ t ∈ s.created, ∀ u ∈ s.created, (s.thread t).lwp = (s.thread u).lwp → t = u)
    (hcur : s.current ∈ s.created) : Owned (mutexEntered m s) m := by
  have hfree : ∀ u, u ≠ s.current → s.depth m u = 0 := by
    intro u hu
    rcases h with ⟨_, _, hz⟩ | ⟨t, ht, ho, hv, hpos, hz⟩
    · exact hz u
    · have hown : (s.mtx m).o = s.curlwp := by
        by_contra hne
        exact hb ⟨by omega, hne⟩
      have htc : t = s.current := hdis t ht _ hcur (ho.symm.trans hown)
      exact hz u (htc ▸ hu)
  have hval : (s.mtx m).v = s.depth m s.current := by
    rcases h with ⟨hv, _, hz⟩ | ⟨t, _, _, hv, hpos, hz⟩
    · simp [hv, hz]
    · have htc : t = s.current := by
        by_contra hne
        rw [hfree t hne] at hpos
        cases hpos
      rw [hv, htc]
  refine .inr ⟨s.current, hcur, ?_, ?_, ?_, ?_⟩
  · rw [mutexEntered_mtx]
    rfl
  · rw [mutexEntered_mtx]
    simp [mutexEntered, hval]
  · simp [mutexEntered]
  · intro u hu
    simp [mutexEntered, hu, hfree u hu]

/-- An exit by the holder undoes one entry. -/
theorem owned_left {s : State} {m : MtxId} (h : Owned s m) (hd : 0 < s.depth m s.current)
    (hcur : s.current ∈ s.created) : Owned (mutexLeft m s) m := by
  obtain ⟨ho, hv, hz⟩ := owned_holder h hd
  by_cases h1 : (s.mtx m).v - 1 = 0
  · refine .inl ⟨?_, ?_, ?_⟩
    · simp [mutexLeft, h1]
    · simp [mutexLeft, h1]
    · intro t
      by_cases ht : t = s.current
      · subst ht
        have : s.depth m s.current - 1 = 0 := by omega
        simpa [mutexLeft] using this
      · simp [mutexLeft, ht, hz t ht]
  · refine .inr ⟨s.current, hcur, ?_, ?_, ?_, ?_⟩
    · simpa [mutexLeft, h1] using ho
    · have : (s.mtx m).v - 1 = ((s.depth m s.current - 1 : Nat) : Int) := by omega
      simpa [mutexLeft, h1] using this
    · have : 0 < s.depth m s.current - 1 := by omega
      simpa [mutexLeft] using this
    · intro u hu
      simp [mutexLeft, hu, hz u hu]

/-! ## What touches no mutex -/

theorem relay_leaves {s s' : State} {m : MtxId} (h : Relay s m)
    (hl : Leaves (· = .mtx m) s s') : Relay s' m := by
  intro hv hw
  rw [hl.locks.mtx] at hv
  obtain ⟨_, rfl, hne⟩ := hl.queued ⟨_, rfl, hw⟩
  obtain ⟨t, w, hpc, ho⟩ := h hv hne
  exact ⟨t, w, hl.pc t w _ hpc, hl.onlist t w _ hpc ho⟩

theorem inv_leaves {s s' : State} (h : Inv s) (hl : ∀ m, Leaves (· = .mtx m) s s') : Inv s' where
  owned m := owned_congr (h.owned m) (by rw [(hl m).locks.mtx]) (by rw [(hl m).locks.depth])
    (hl m).frozen
  relay m := relay_leaves (h.relay m) (hl m)

theorem relay_locks {s s' : State} {m : MtxId} (h : Relay s m) (hl : OnlyLocks s s')
    (hv : (s'.mtx m).v = 0 → (s.mtx m).v = 0) : Relay s' m := by
  intro hz hw
  have hq : s'.waiters = s.waiters := by rw [hl]
  have hwt : s'.waiter = s.waiter := by rw [hl]
  rw [hq] at hw
  rw [onlyLocks_pc hl, hwt]
  exact h (hv hz) hw

theorem inv_locks {s s' : State} (h : Inv s) (hl : OnlyLocks s s') (hm : s'.mtx = s.mtx)
    (hd : s'.depth = s.depth) : Inv s' where
  owned m := owned_congr (h.owned m) (by rw [hm]) (by rw [hd]) ⟨hl.calm.created, hl.calm.lwp⟩
  relay m := relay_locks (h.relay m) hl (by rw [hm]; exact id)

theorem inv_rwEntered {s : State} (h : Inv s) (r : RwId) (lk : RwMode) :
    Inv (rwEntered r s lk) := by
  refine inv_locks h (rwEntered_locks r s lk) ?_ ?_ <;> cases lk <;> rfl

theorem inv_rwExit {s : State} (h : Inv s) (r : RwId) : Inv (rwExit r s) := by
  have hrel : Inv (rwReleased r s) := by
    refine inv_locks h (rwReleased_locks r s) ?_ ?_ <;>
      unfold rwReleased dropHold <;> split <;> rfl
  rw [rwExit_eq]
  exact inv_leaves hrel fun _ => leaves_rwHandOver r _

/-! ## The operations -/

/-- What the lemmas below need of the state in which a function starts: the
current thread is not waiting, and the threads are told apart by their lwps. -/
structure Start (s : State) : Prop where
  ready : Ready s
  distinct : ∀ t ∈ s.created, ∀ u ∈ s.created, (s.thread t).lwp = (s.thread u).lwp → t = u
  noBare : ∀ t w q, s.pc t ≠ .wait w (.bare q)

theorem start_user {s : State} (h : Base s) (hu : s.mode = .user) : Start s :=
  ⟨h.sys.ready hu, h.distinct, h.noBare⟩

theorem owned_all_entered {s : State} {m : MtxId} (hs : Start s) (h : ∀ m, Owned s m)
    (hb : ¬ MutexBusy m s) (m' : MtxId) : Owned (mutexEntered m s) m' := by
  by_cases hm : m' = m
  · subst hm
    exact owned_entered (h m') hb hs.distinct hs.ready.created
  · obtain ⟨hmt, hdp⟩ := mutexEntered_other hm s
    exact owned_congr (h m') hmt hdp ⟨rfl, fun _ => rfl⟩

/-- After an entry the mutex is not free; nothing changes for the others. -/
theorem relay_entered {s : State} {m m' : MtxId} (ho : Owned s m)
    (h : m' ≠ m → Relay s m') : Relay (mutexEntered m s) m' := by
  by_cases hm : m' = m
  · subst hm
    intro hz
    have hv := owned_nonneg ho
    rw [mutexEntered_mtx] at hz
    dsimp only at hz
    omega
  · exact relay_locks (h hm) (mutexEntered_locks m s) (by rw [(mutexEntered_other hm s).1]; exact id)

theorem inv_entered {s : State} {m : MtxId} (hs : Start s) (h : Inv s) (hb : ¬ MutexBusy m s) :
    Inv (mutexEntered m s) where
  owned := owned_all_entered hs h.owned hb
  relay m' := relay_entered (h.owned m) fun _ => h.relay m'

/-- The last exit dequeues a waiter of this very mutex, if there is one. -/
theorem relay_wakeupOne {s : State} {m : MtxId} (hs : Start s) :
    Relay (wakeupOne (.mtx m) s) m := by
  intro _ hw
  cases hq : s.waiters (.mtx m) with
  | nil =>
    have he : wakeupOne (.mtx m) s = s := by simp [wakeupOne, hq]
    rw [he] at hw
    exact absurd hq hw
  | cons w ws =>
    obtain ⟨_, _, k, hp, hk⟩ := WaitQueue.waiter_waits hs.ready.inv (q := .mtx m) (w := w)
      (by simp [hq])
    have hkm : k = .mutexEnter m := by
      cases k with
      | mutexEnter m' =>
        cases hk
        rfl
      | rwEnter lk r => cases lk <;> cases hk
      | cvWait => cases hk
      | bare q => exact absurd hp (hs.noBare _ w q)
    subst hkm
    refine ⟨(s.waiter w).who, w, ?_, ?_⟩
    · rw [wakeupOne_pc]
      exact hp
    · simp [wakeupOne, hq, dequeue, wake, State.setThread]

theorem inv_mutexExit {s s' : State} {m : MtxId} (hs : Start s) (h : Inv s)
    (hd : 0 < s.depth m s.current) (he : mutexExit m s = .ok s') : Inv s' := by
  have howned : ∀ m', Owned (mutexLeft m s) m' := by
    intro m'
    by_cases hm : m' = m
    · subst hm
      exact owned_left (h.owned m') hd hs.ready.created
    · obtain ⟨hmt, hdp⟩ := mutexLeft_other hm s
      exact owned_congr (h.owned m') hmt hdp ⟨rfl, fun _ => rfl⟩
  have hother : ∀ m', m' ≠ m → Relay (mutexLeft m s) m' := fun m' hm =>
    relay_locks (h.relay m') (mutexLeft_locks m s) (by rw [(mutexLeft_other hm s).1]; exact id)
  obtain ⟨hv, ⟨_, rfl⟩ | ⟨h1, rfl⟩⟩ := mutexExit_ok he
  · have hp := fun P => leaves_wakeupOne (P := P) (.mtx m) (mutexLeft m s)
    refine ⟨fun m' => ?_, fun m' => ?_⟩
    · have hl := hp (· = .mtx m')
      exact owned_congr (howned m') (by rw [hl.locks.mtx]) (by rw [hl.locks.depth]) hl.frozen
    · by_cases hm : m' = m
      · subst hm
        refine relay_wakeupOne ⟨?_, hs.distinct, hs.noBare⟩
        exact WaitQueue.ready_locks hs.ready (mutexLeft_locks m' s)
      · exact relay_leaves (hother m' hm) (hp _)
  · refine ⟨howned, fun m' => ?_⟩
    by_cases hm : m' = m
    · subst hm
      intro hz
      have hne : (s.mtx m').v - 1 ≠ 0 := by omega
      simp [mutexLeft, hne] at hz
    · exact hother m' hm

/-- A busy mutex is not free. -/
theorem inv_waitMutex {s s' : State} {m : MtxId} (hs : Start s) (ho : ∀ m, Owned s m)
    (hrel : ∀ m', m' ≠ m → Relay s m') (hb : MutexBusy m s)
    (hw : waitOn (.mutexEnter m) waitNotimeout 0 s = .ok s') : Inv s' := by
  have hc := waitOn_calm hw
  have hl := waitOn_sameLocks hw
  refine ⟨fun m' => ?_, fun m' => ?_⟩
  · exact owned_congr (ho m') (by rw [hl.mtx]) (by rw [hl.depth]) ⟨hc.created, hc.lwp⟩
  · by_cases hm : m' = m
    · subst hm
      intro hz
      rw [hl.mtx] at hz
      exact absurd hz hb.1
    · refine relay_leaves (hrel m' hm) (leaves_waitOn hs.ready (fun hq => ?_) hw)
      cases hq
      exact absurd rfl hm

/-- A turn of `mutex_enter`, or of anything else that was waiting. The relay
may have been broken for the mutex that the turn is about. -/
theorem inv_turn {k : Cont} {s s' : State} (hs : Start s) (ho : ∀ m, Owned s m)
    (hrel : ∀ m, k ≠ .mutexEnter m → Relay s m) (ht : Turn s k s') : Inv s' := by
  have hne : ∀ {m m' : MtxId}, m' ≠ m → Cont.mutexEnter m ≠ .mutexEnter m' := by
    intro m m' hm he
    cases he
    exact hm rfl
  cases ht with
  | @mutexIn m hb =>
    have hi : Inv (mutexEntered m s) :=
      ⟨owned_all_entered hs ho hb, fun m' => relay_entered (ho m) fun hm => hrel m' (hne hm)⟩
    exact inv_leaves hi fun _ => leaves_toUser hs.ready.notWaiting
  | mutexWait hb hw => exact inv_waitMutex hs ho (fun m' hm => hrel m' (hne hm)) hb hw
  | @rwIn lk r =>
    have hi : Inv s := ⟨ho, fun m => hrel m (by simp)⟩
    have hr := WaitQueue.ready_locks hs.ready (rwEntered_locks r s lk)
    exact inv_leaves (inv_rwEntered hi r lk) fun _ => leaves_toUser hr.notWaiting
  | @rwWait lk r _ _ hw =>
    have hi : Inv s := ⟨ho, fun m => hrel m (by simp)⟩
    refine inv_leaves hi fun m => leaves_waitOn hs.ready (fun hq => ?_) hw
    cases lk <;> cases hq
  | @cvIn kind c m hb =>
    have hi : Inv s := ⟨ho, fun m => hrel m (by simp)⟩
    have hcount : Inv { mutexEntered m s with
        cv := Function.update s.cv c { nwaiters := (s.cv c).nwaiters - 1 } } :=
      inv_locks (inv_entered hs hi hb) rfl rfl rfl
    exact inv_leaves hcount fun _ => leaves_toUser hs.ready.notWaiting
  | bare =>
    have hi : Inv s := ⟨ho, fun m => hrel m (by simp)⟩
    exact inv_leaves hi fun _ => leaves_toUser hs.ready.notWaiting

theorem inv_cvBegin {kind : CvKind} {c : CvId} {m : MtxId} {nsec tm : Int} {s s' : State}
    (hs : Start s) (h : Inv s) (hd : 0 < s.depth m s.current)
    (he : cvBegin kind c m nsec tm s = .ok s') : Inv s' := by
  obtain ⟨s₁, hm, hw⟩ := cvBegin_ok he
  have hcount : Inv { s with cv := Function.update s.cv c { nwaiters := (s.cv c).nwaiters + 1 } } :=
    inv_locks h rfl rfl rfl
  have hstart : Start { s with
      cv := Function.update s.cv c { nwaiters := (s.cv c).nwaiters + 1 } } :=
    ⟨WaitQueue.ready_locks hs.ready rfl, hs.distinct, hs.noBare⟩
  have hi := inv_mutexExit hstart hcount hd hm
  have hready := WaitQueue.ready_mutexExit hstart.ready hm
  exact inv_leaves hi fun _ => leaves_waitOn hready (by simp [Cont.queue]) hw

/-! ## Whole runs -/

theorem inv_exec {c : Call} {s s' : State} (hb : Base s) (hu : s.mode = .user) (h : Inv s)
    (hl : lawfulCall s c = true) (he : exec s c = .ok s') : Inv s' := by
  have hs := start_user hb hu
  have hn := hs.ready.notWaiting
  cases exec_performed he with
  | refused | create | setCurlwp | wait | wakeupOne | wakeupAll | rwDowngrade | rwTryupgrade =>
    cases hl
  | mutexBusy | rwBusy => exact h
  | yield => exact inv_leaves h fun _ => leaves_suspend hn _
  | exit => exact inv_leaves h fun _ => leaves_exitThread hn
  | join _ hj => exact inv_leaves h fun _ => leaves_joinLoop hn hj
  | sleep => exact inv_leaves h fun _ => leaves_clockSleep hn _ _ _ _
  | mutexEnter ht | rwEnter ht => exact inv_turn hs h.owned (fun m' _ => h.relay m') ht
  | mutexIn hbusy => exact inv_entered hs h hbusy
  | mutexExit hx => exact inv_mutexExit hs h (by simpa [lawfulCall] using hl) hx
  | @rwIn lk r => exact inv_rwEntered h r lk
  | @rwExit r => exact inv_rwExit h r
  | cvWait hx | cvWaitNowrap hx | cvTimedwait hx =>
    exact inv_cvBegin hs h (by simpa [lawfulCall] using hl) hx
  | cvSignal => exact inv_leaves h fun _ => leaves_wakeupOne _ s
  | cvBroadcast => exact inv_leaves h fun _ => leaves_wakeupLoop rfl

/-- A thread that returns from `wait` breaks no relay but that of the mutex it
was waiting for. -/
theorem relay_waitRet {s : State} {w : Wid} {k : Cont} {m : MtxId} (h : Relay s m)
    (hp : s.pc s.current = .wait w k) (hk : k ≠ .mutexEnter m) :
    Relay (waitRet w k.queue s).2 m := by
  have hc := waitRet_calm w k.queue s
  have hl := waitRet_sameLocks w k.queue s
  have hwt : (waitRet w k.queue s).2.waiter = s.waiter := by
    unfold waitRet
    split <;> rfl
  intro hz hne
  rw [hl.mtx] at hz
  obtain ⟨t, u, hpt, hon⟩ := h hz (waitRet_nonempty hne)
  have ht : t ≠ s.current := by
    rintro rfl
    rw [hp] at hpt
    cases hpt
    exact hk rfl
  exact ⟨t, u, by rw [hc.pc t ht, hpt], by rw [hwt]; exact hon⟩

theorem start_waitRet {s : State} {w : Wid} {k : Cont} (hb : Base s)
    (hp : s.pc s.current = .wait w k) : Start (waitRet w k.queue (reap s)).2 := by
  have hc := waitRet_calm w k.queue (reap s)
  refine ⟨WaitQueue.ready_waitRet (WaitQueue.inv_reap hb.sys.waits) hp, ?_, ?_⟩
  · rw [hc.created]
    simp only [hc.lwp]
    exact hb.distinct
  · intro t u q hpt
    by_cases ht : t = s.current
    · subst ht
      have hrun : (waitRet w k.queue (reap s)).2.pc s.current = .running := by
        unfold waitRet
        split <;> simp [reap]
      rw [hrun] at hpt
      cases hpt
    · rw [hc.pc t ht] at hpt
      exact hb.noBare t u q hpt

theorem inv_resume {p : Pc} {s s' : State} (hb : Base s) (h : Inv s)
    (hp : s.pc s.current = p) (he : resume s p = .ok s') : Inv s' := by
  have hreap := inv_leaves h fun _ => leaves_reap s
  cases resume_inv he with
  | running | fresh => exact inv_leaves h fun _ => leaves_toUser (by simp [hp])
  | yield | sleep => exact inv_leaves hreap fun _ => leaves_toUser (by simp [reap, hp])
  | @wait w k _ ht =>
    have hc := waitRet_calm w k.queue (reap s)
    have hl := waitRet_sameLocks w k.queue (reap s)
    refine inv_turn (start_waitRet hb hp) ?_ ?_ ht
    · exact fun m => owned_congr (hreap.owned m) (by rw [hl.mtx]) (by rw [hl.depth])
        ⟨hc.created, hc.lwp⟩
    · exact fun m hk => relay_waitRet (hreap.relay m) hp hk
  | join hj => exact inv_leaves hreap fun _ => leaves_joinLoop (by simp [reap, hp]) hj
  | gate => exact inv_leaves hreap fun _ => leaves_exitThread (by simp [reap, hp])
  | exited => exact inv_leaves hreap fun _ => leaves_suspend (by simp [reap, hp]) _

theorem inv_step {s s' : State} {e : Event} (hb : Base s) (h : Inv s) (hl : lawful s e = true)
    (hs : step s e = some s') : Inv s' := by
  have hpas : ∀ {x : State}, SameLocks s x → Frozen s x → x.waiters = s.waiters →
      x.waiter = s.waiter → x.pc = s.pc → s.hist <+: x.hist → Inv x := by
    intro x hl hf hq hw hpc hh
    refine inv_leaves h fun m => ⟨hl, hf, by rw [hq]; exact id, ?_, ?_, hh⟩
    · exact fun t w k hp => by rw [hpc, hp]
    · exact fun t w k _ ho => by rw [hw, ho]
  have hf := step_frozen hl hs
  cases step_inv hs with
  | call hu _ he => exact inv_exec hb hu h hl he
  | callAbort => exact hpas ⟨rfl, rfl, rfl, rfl, rfl⟩ hf rfl rfl rfl (List.prefix_refl _)
  | switch => exact hpas ⟨rfl, rfl, rfl, rfl, rfl⟩ hf rfl rfl rfl (List.prefix_refl _)
  | idle => exact hpas ⟨rfl, rfl, rfl, rfl, rfl⟩ hf rfl rfl rfl (List.prefix_refl _)
  | extWake => exact hpas ⟨rfl, rfl, rfl, rfl, rfl⟩ hf rfl rfl rfl (List.prefix_refl _)
  | resume _ he => exact inv_resume hb h rfl he
  | resumeAbort => exact hpas ⟨rfl, rfl, rfl, rfl, rfl⟩ hf rfl rfl rfl (List.prefix_refl _)

theorem inv_run {s₀ s : State} {tr : List (State × Event)} (hb : Base s₀) (h₀ : Inv s₀)
    (hr : Run step s₀ tr s) (hg : Guarded (fun s e => lawful s e) tr) : Inv s :=
  (Run.invariant (I := fun s => Base s ∧ Inv s) ⟨hb, h₀⟩
    (fun _ _ _ h hl hs => ⟨base_step h.1 hl hs, inv_step h.1 h.2 hl hs⟩) hr hg).2

/-- Mutexes, in every state that any number of threads with lwps of their own
reach by lawful calls. Two threads never hold a mutex at once; its holder's
lwp is in `o` and its nesting depth in `v`; `v` is 0 exactly if `o` is NULL
and nobody holds it. If it is free and has waiters, then some thread that was
dequeued from them is runnable and inside the retry loop of `mutex_enter`. -/
theorem mutex_correct {t : Tid} {ts : List Tid} {lwp : Tid → Option Lwp}
    {tr : List (State × Event)} {s : State} (hc : Crew t ts lwp)
    (hr : Run step (boot t ts lwp) tr s) (hg : Guarded (fun s e => lawful s e) tr) (m : MtxId) :
    (∀ u v, 0 < s.depth m u → 0 < s.depth m v → u = v) ∧
    (∀ u, 0 < s.depth m u → (s.mtx m).o = (s.thread u).lwp ∧ (s.mtx m).v = s.depth m u) ∧
    ((s.mtx m).v = 0 ↔ (s.mtx m).o = none) ∧
    ((s.mtx m).v = 0 ↔ ∀ u, s.depth m u = 0) ∧
    ((s.mtx m).v = 0 → s.waiters (.mtx m) ≠ [] → ∃ u w, s.pc u = .wait w (.mutexEnter m) ∧
      .dequeue w (.mtx m) ∈ s.hist ∧ (s.thread u).runnable = true) := by
  have hbase : Base s := base_run (base_boot hc) hr hg
  have hi : Inv s := inv_run (base_boot hc) (inv_boot t ts lwp) hr hg
  refine ⟨?_, ?_, ?_, ?_, ?_⟩
  · intro u v hu hv
    by_contra hne
    have hz := (owned_holder (hi.owned m) hv).2.2 u hne
    rw [hz] at hu
    cases hu
  · exact fun u hu => ⟨(owned_holder (hi.owned m) hu).1, (owned_holder (hi.owned m) hu).2.1⟩
  · rcases hi.owned m with ⟨hv, ho, _⟩ | ⟨u, hu, ho, hv, hpos, _⟩
    · simp [hv, ho]
    · have hnn := hbase.named u hu
      rw [ho, hv]
      constructor
      · intro h0
        omega
      · exact fun hnone => absurd hnone hnn
  · rcases hi.owned m with ⟨hv, _, hz⟩ | ⟨u, _, _, hv, hpos, _⟩
    · exact ⟨fun _ => hz, fun _ => hv⟩
    · constructor
      · intro h0
        omega
      · intro hz
        rw [hz u] at hpos
        cases hpos
  · intro hv hw
    obtain ⟨u, w, hp, ho⟩ := hi.relay m hv hw
    rcases WaitQueue.open_stage hbase.sys.waits hp with ⟨_, ho'⟩ | ⟨hl, _, hrun⟩
    · rw [ho] at ho'
      cases ho'
    · refine ⟨u, w, hp, ?_, hrun⟩
      rw [← WaitQueue.mem_life (w := w) rfl, hl]
      simp [Cont.queue]

/-- The mutex at work: its holder leaves while two threads wait for it. One of
them is dequeued, runnable and about to retry while the other still waits. -/
theorem mutex_correct_hand_over : ∃ tr s, Run step (boot 0 [1, 2] some) tr s ∧
    (s.mtx 0).v = 0 ∧ s.waiters (.mtx 0) = [1] ∧
    ∃ u w, s.pc u = .wait w (.mutexEnter 0) ∧ .dequeue w (.mtx 0) ∈ s.hist ∧
      (s.thread u).runnable = true := by
  obtain ⟨tr, s, hr, hp⟩ := exists_run (f := step) (s := boot 0 [1, 2] some)
    [.call (.mutexEnter 0), .call (.clockSleep .monotonic 0 5 0), .pass 0, .resume,
      .call (.mutexEnter 0), .pass 0, .resume, .call (.mutexEnter 0), .pass 0, .pass 5, .resume,
      .call (.mutexExit 0)]
    (p := fun tr s => Guarded (fun s e => lawful s e) tr ∧ (s.mtx 0).v = 0 ∧
      s.waiters (.mtx 0) = [1]) (by decide)
  rw [decide_eq_true_eq] at hp
  obtain ⟨hg, hv, hw⟩ := hp
  have hc : Crew 0 [1, 2] some := ⟨by decide, by simp, by simp⟩
  exact ⟨tr, s, hr, hv, hw, (mutex_correct hc hr hg 0).2.2.2.2 hv (by simp [hw])⟩

end Frankenlibc.Threads.Mutex

import Frankenlibc.Threads.Cv

/-!
# Mutexes and threads without an lwp

`mutex_tryenter` compares lwps, and a NULL `o` stands for a thread without an
lwp as well as for nobody. `Touch` says what a step can do to a mutex. From it
follows which steps break exclusion or the assertion of `mutex_destroy`: `slips`
is decided by the state before the step, and a run is sound exactly if none of
its steps slips. Threads are created, are given lwps and lose them at will.
-/
namespace Frankenlibc.Threads.Nameless

open Frankenlibc.Lib
open WaitQueue (Sys Ready)
open Locks

/-- `mutex_destroy`, up to its `free`. -/
def mutexDestroy (m : MtxId) (s : State) : Except Abort Unit :=
  if s.waiters (.mtx m) = [] ∧ (s.mtx m).o = none then .ok () else .error .assertion

/-- Two different threads never hold a mutex at the same time, and
`mutex_destroy` gets past its assertion only if no thread holds it. -/
def Sound (s : State) : Prop :=
  (∀ m t u, 0 < s.depth m t → 0 < s.depth m u → t = u) ∧
    ∀ m, mutexDestroy m s = .ok () → ∀ t, s.depth m t = 0

/-- The static queue functions are not called on a mutex from outside, and a
mutex is given up by a thread that holds it. -/
def proper (s : State) : Event → Bool
  | .call (.wait (.mtx _) _ _) | .call (.wakeupOne (.mtx _)) | .call (.wakeupAll (.mtx _)) => false
  | .call (.mutexExit m) | .call (.cvWait _ m) | .call (.cvWaitNowrap _ m)
  | .call (.cvTimedwait _ m _ _ _) => 0 < s.depth m s.current
  | _ => true

/-- The mutex on which a step executes `mutex_tryenter`, with those that wait
for it then: a call, the retry of `mutex_enter`, or the way out of a wait on a
condition variable. -/
def entry (s : State) : Event → Option (MtxId × List Wid)
  | .call (.mutexEnter m) | .call (.mutexTryenter m) => some (m, s.waiters (.mtx m))
  | .resume =>
    match s.pc s.current with
    | .wait w (.mutexEnter m) => some (m, (s.waiters (.mtx m)).erase w)
    | .wait _ (.cvWait _ _ m) => some (m, s.waiters (.mtx m))
    | _ => none
  | _ => none

/-- A thread gets into a mutex that is taken and that it does not hold, since
`o` equals its own lwp; or it has no lwp and nobody waits for the mutex. -/
def slips (s : State) (e : Event) : Bool :=
  match entry s e with
  | some (m, ws) => !decide (MutexBusy m s) &&
      (decide ((s.mtx m).v ≠ 0 ∧ s.depth m s.current = 0) || decide (s.curlwp = none ∧ ws = []))
  | none => false

theorem slips_iff {s : State} {e : Event} :
    slips s e = true ↔ ∃ m ws, entry s e = some (m, ws) ∧ ¬ MutexBusy m s ∧
      ((s.mtx m).v ≠ 0 ∧ s.depth m s.current = 0 ∨ s.curlwp = none ∧ ws = []) := by
  unfold slips
  cases entry s e with
  | none => simp
  | some p =>
    obtain ⟨m, ws⟩ := p
    simp

/-! ## What a step does to a mutex -/

inductive Touch (s : State) (e : Event) (s' : State) (m : MtxId) : Prop
  | stay (hno : ∀ ws, entry s e = some (m, ws) → MutexBusy m s) (hm : s'.mtx m = s.mtx m)
      (hd : s'.depth m = s.depth m) (hq : s.waiters (.mtx m) ≠ [] → s'.waiters (.mtx m) ≠ [])
  | enter {ws : List Wid} (he : entry s e = some (m, ws)) (hb : ¬ MutexBusy m s)
      (hm : s'.mtx m = { v := (s.mtx m).v + 1, o := s.curlwp })
      (hd : s'.depth m = Function.update (s.depth m) s.current (s.depth m s.current + 1))
      (hq : s'.waiters (.mtx m) = ws)
  | leave (hno : entry s e = none) (hh : 0 < s.depth m s.current) (hv : 0 < (s.mtx m).v)
      (hm : (s'.mtx m).v = (s.mtx m).v - 1 ∧ ((s.mtx m).v ≠ 1 → (s'.mtx m).o = (s.mtx m).o))
      (hd : s'.depth m = Function.update (s.depth m) s.current (s.depth m s.current - 1))
      (hq : (s.mtx m).v ≠ 1 → s'.waiters (.mtx m) = s.waiters (.mtx m))

/-- Nothing about the mutex changes. -/
structure Aloof (m : MtxId) (s s' : State) : Prop where
  mtx : s'.mtx m = s.mtx m
  depth : s'.depth m = s.depth m
  waiters : s'.waiters (.mtx m) = s.waiters (.mtx m)

variable {m : MtxId} {s s' s'' : State}

theorem Aloof.trans (h : Aloof m s s') (h' : Aloof m s' s'') : Aloof m s s'' :=
  ⟨h'.mtx.trans h.mtx, h'.depth.trans h.depth, h'.waiters.trans h.waiters⟩

theorem Aloof.touch {e : Event} (h : Aloof m s s') (hno : entry s e = none) :
    Touch s e s' m :=
  .stay (fun ws he => by rw [hno] at he; cases he) h.mtx h.depth (by rw [h.waiters]; exact id)

theorem aloof_same (h : SameLocks s s') (hq : s'.waiters = s.waiters) : Aloof m s s' :=
  ⟨by rw [h.mtx], by rw [h.depth], by rw [hq]⟩

theorem aloof_wakeupOne {q : Queue} (hq : .mtx m ≠ q) (s : State) : Aloof m s (wakeupOne q s) :=
  ⟨by rw [(wakeupOne_sameLocks q s).mtx], by rw [(wakeupOne_sameLocks q s).depth],
    wakeupOne_waiters hq s⟩

theorem aloof_wakeupAll {q : Queue} (hq : .mtx m ≠ q) (s : State) : Aloof m s (wakeupAll q s) :=
  ⟨by rw [(wakeupAll_sameLocks q s).mtx], by rw [(wakeupAll_sameLocks q s).depth],
    (wakeupLoop_waiters rfl).2 _ hq⟩

theorem aloof_waitOn {k : Cont} {nsec tm : Int} (hk : k.queue ≠ .mtx m)
    (hw : waitOn k nsec tm s = .ok s') : Aloof m s s' := by
  have hl := waitOn_sameLocks hw
  refine ⟨by rw [hl.mtx], by rw [hl.depth], ?_⟩
  obtain ⟨_, th, _, _, rfl⟩ := waitOn_ok hw
  simp [enqueue, Ne.symm hk]

theorem aloof_rwExit (r : RwId) (s : State) : Aloof m s (rwExit r s) := by
  have hrel : Aloof m s (rwReleased r s) := by
    refine ⟨?_, ?_, by rw [rwReleased_locks r s]⟩ <;>
      unfold rwReleased dropHold <;> split <;> rfl
  refine hrel.trans ?_
  rw [rwExit_eq]
  unfold rwHandOver
  split
  · split
    · exact aloof_wakeupOne (by simp) _
    · exact ⟨rfl, rfl, rfl⟩
  · split
    · exact aloof_wakeupAll (by simp) _
    · exact ⟨rfl, rfl, rfl⟩

theorem aloof_rwEntered (r : RwId) (s : State) (lk : RwMode) : Aloof m s (rwEntered r s lk) := by
  cases lk <;> exact ⟨rfl, rfl, rfl⟩

theorem aloof_exitThread (s : State) : Aloof m s (exitThread s) := by
  obtain ⟨th, tl, ex, p, he, -⟩ := exitThread_frame s
  exact aloof_same (exitThread_sameLocks s) (by rw [he])

theorem aloof_joinLoop {t : Tid} (h : joinLoop t s = .ok s') : Aloof m s s' := by
  refine aloof_same (joinLoop_sameLocks h) ?_
  obtain ⟨_, ⟨_, rfl⟩ | ⟨_, rfl⟩⟩ := joinLoop_ok h <;> rfl

theorem aloof_clockSleep (clk : Clock) (sec nsec tm : Int) (s : State) :
    Aloof m s (clockSleep clk sec nsec tm s) :=
  aloof_same (clockSleep_sameLocks clk sec nsec tm s) (by cases clk <;> rfl)

/-! ## The operations -/

theorem touch_entered {e : Event} {m₀ : MtxId} {x : State}
    (he : entry s e = some (m₀, x.waiters (.mtx m₀))) (hb : ¬ MutexBusy m₀ s)
    (hm : x.mtx = s.mtx) (hd : x.depth = s.depth) (hc : x.current = s.current)
    (hl : x.curlwp = s.curlwp) (hq : ∀ m, m ≠ m₀ → x.waiters (.mtx m) = s.waiters (.mtx m))
    (hs : Aloof m (mutexEntered m₀ x) s') : Touch s e s' m := by
  by_cases hmm : m = m₀
  · subst hmm
    refine .enter he hb ?_ ?_ hs.waiters
    · rw [hs.mtx, mutexEntered, hm, hl]
      simp
    · rw [hs.depth, mutexEntered, hd, hc]
      simp
  · have hin : Aloof m x (mutexEntered m₀ x) := by
      refine ⟨?_, ?_, rfl⟩ <;> simp [mutexEntered, hmm]
    have hx : Aloof m s x := ⟨by rw [hm], by rw [hd], hq m hmm⟩
    have hall := (hx.trans hin).trans hs
    refine .stay (fun ws hws => ?_) hall.mtx hall.depth (by rw [hall.waiters]; exact id)
    rw [he] at hws
    cases hws
    exact absurd rfl hmm

/-- A turn, in the state `x` in which the caller of `wait` goes on: `s` itself,
or the state behind `wait`. -/
theorem touch_turn {e : Event} {k : Cont} {x : State} (ht : Turn x k s') (hm : x.mtx = s.mtx)
    (hd : x.depth = s.depth) (hc : x.current = s.current) (hl : x.curlwp = s.curlwp)
    (hmutex : ∀ m₀, k = .mutexEnter m₀ → entry s e = some (m₀, x.waiters (.mtx m₀)))
    (hcv : ∀ kind c m₀, k = .cvWait kind c m₀ → entry s e = some (m₀, x.waiters (.mtx m₀)))
    (hrw : (∀ m₀, k ≠ .mutexEnter m₀) → (∀ kind c m₀, k ≠ .cvWait kind c m₀) → entry s e = none)
    (hq : ∀ m, k ≠ .mutexEnter m → x.waiters (.mtx m) = s.waiters (.mtx m)) :
    Touch s e s' m := by
  have hbusy : ∀ m₀, MutexBusy m₀ x ↔ MutexBusy m₀ s := by
    intro m₀
    unfold MutexBusy
    rw [hm, hl]
  have hx : k ≠ .mutexEnter m → Aloof m s x := fun hk => ⟨by rw [hm], by rw [hd], hq m hk⟩
  cases ht with
  | @mutexIn m₀ hb =>
    refine touch_entered (hmutex m₀ rfl) ((hbusy m₀).not.mp hb) hm hd hc hl (fun m' hm' => hq m' ?_)
      ⟨rfl, rfl, rfl⟩
    rintro ⟨rfl⟩
    exact hm' rfl
  | @mutexWait m₀ _ hb hw =>
    have hsame := waitOn_sameLocks hw
    by_cases hmm : m = m₀
    · subst hmm
      refine .stay (fun _ _ => (hbusy m).mp hb) (by rw [hsame.mtx, hm]) (by rw [hsame.depth, hd]) ?_
      obtain ⟨_, th, _, _, rfl⟩ := waitOn_ok hw
      simp [enqueue, Cont.queue]
    · have hne : Cont.mutexEnter m₀ ≠ .mutexEnter m := by
        rintro ⟨rfl⟩
        exact hmm rfl
      have hall := (hx hne).trans (aloof_waitOn (by simp [Cont.queue, Ne.symm hmm]) hw)
      refine .stay (fun ws hws => ?_) hall.mtx hall.depth (by rw [hall.waiters]; exact id)
      rw [hmutex m₀ rfl] at hws
      cases hws
      exact absurd rfl hmm
  | @rwIn lk r =>
    refine Aloof.touch ?_ (hrw (by simp) (by simp))
    exact ((hx (by simp)).trans (aloof_rwEntered r x lk)).trans ⟨rfl, rfl, rfl⟩
  | @rwWait lk r _ _ hw =>
    refine Aloof.touch ((hx (by simp)).trans (aloof_waitOn ?_ hw)) (hrw (by simp) (by simp))
    cases lk <;> simp [Cont.queue, rwQueue]
  | @cvIn kind c m₀ hb =>
    exact touch_entered (hcv kind c m₀ rfl) ((hbusy m₀).not.mp hb) hm hd hc hl
      (fun m' _ => hq m' (by simp)) ⟨rfl, rfl, rfl⟩
  | bare => exact Aloof.touch ((hx (by simp)).trans ⟨rfl, rfl, rfl⟩) (hrw (by simp) (by simp))

/-- An exit of `m₀` by a thread that holds it, followed by something that lets
mutexes alone. -/
theorem touch_exit {e : Event} {m₀ : MtxId} {x y : State} (hno : entry s e = none)
    (hh : 0 < s.depth m₀ s.current) (hx : OnlyLocks s x) (hm : x.mtx = s.mtx)
    (hd : x.depth = s.depth) (he : mutexExit m₀ x = .ok y) (hs : Aloof m y s') : Touch s e s' m := by
  have hc : x.current = s.current := by rw [hx]
  have hq : x.waiters = s.waiters := by rw [hx]
  by_cases hmm : m = m₀
  · subst hmm
    have hleft : (mutexLeft m x).depth m =
        Function.update (s.depth m) s.current (s.depth m s.current - 1) := by
      simp [mutexLeft, hd, hc]
    obtain ⟨hv, ⟨h1, rfl⟩ | ⟨h1, rfl⟩⟩ := mutexExit_ok he
    · have hl := wakeupOne_sameLocks (.mtx m) (mutexLeft m x)
      rw [hm] at hv h1
      refine .leave hno hh hv ⟨?_, fun hne => absurd h1 hne⟩ ?_ fun hne => absurd h1 hne
      · rw [hs.mtx, hl.mtx]
        simp [mutexLeft, hm, h1]
      · rw [hs.depth, hl.depth, hleft]
    · rw [hm] at hv h1
      have hne : (s.mtx m).v - 1 ≠ 0 := by omega
      refine .leave hno hh hv ⟨?_, fun _ => ?_⟩ (by rw [hs.depth, hleft]) fun _ => ?_
      · rw [hs.mtx]
        simp [mutexLeft, hm, hne]
      · rw [hs.mtx]
        simp [mutexLeft, hm, hne]
      · rw [hs.waiters, mutexLeft, hq]
  · have hout : Aloof m x (mutexLeft m₀ x) := by
      refine ⟨?_, ?_, rfl⟩ <;> simp [mutexLeft, hmm]
    have hstart : Aloof m s x := ⟨by rw [hm], by rw [hd], by rw [hq]⟩
    refine Aloof.touch ((hstart.trans ?_).trans hs) hno
    obtain ⟨_, ⟨_, rfl⟩ | ⟨_, rfl⟩⟩ := mutexExit_ok he
    · exact hout.trans (aloof_wakeupOne (by simpa using hmm) _)
    · exact hout

/-! ## Steps -/

/-- Nobody waits on the queue of a mutex outside `mutex_enter`. -/
structure Placed (s : State) : Prop where
  sys : Sys s
  noBare : ∀ t w m, s.pc t ≠ .wait w (.bare (.mtx m))

theorem placed_step {e : Event} (h : Placed s) (hl : proper s e = true)
    (hs : step s e = some s') : Placed s' := by
  refine ⟨WaitQueue.sys_step h.sys hs, fun t w m hp => ?_⟩
  rcases step_cont h.sys hs hp with ⟨w', hold⟩ | ⟨c, rfl, hc⟩
  · exact h.noBare t w' m hold
  · cases c <;> simp_all [callCont, proper]

theorem touch_exec {c : Call} (hl : proper s (.call c) = true) (he : exec s c = .ok s') :
    Touch s (.call c) s' m := by
  have hcount : ∀ c : CvId, OnlyLocks s
      { s with cv := Function.update s.cv c { nwaiters := (s.cv c).nwaiters + 1 } } := fun _ => rfl
  have hcv : ∀ {kind : CvKind} {cv : CvId} {m₀ : MtxId} {nsec tm : Int},
      entry s (.call c) = none → 0 < s.depth m₀ s.current →
      cvBegin kind cv m₀ nsec tm s = .ok s' → Touch s (.call c) s' m := by
    intro kind cv m₀ nsec tm hno hh hx
    obtain ⟨y, hm, hw⟩ := cvBegin_ok hx
    exact touch_exit hno hh (hcount cv) rfl rfl hm (aloof_waitOn (by simp [Cont.queue]) hw)
  cases exec_performed he with
  | refused | create | yield | setCurlwp | rwBusy => exact Aloof.touch ⟨rfl, rfl, rfl⟩ rfl
  | exit => exact (aloof_exitThread s).touch rfl
  | join _ hj =>
    have hjoin := aloof_joinLoop (m := m) hj
    exact Aloof.touch ⟨hjoin.mtx, hjoin.depth, hjoin.waiters⟩ rfl
  | sleep => exact (aloof_clockSleep _ _ _ _ s).touch rfl
  | @wait q _ _ _ hw =>
    cases q with
    | mtx => cases hl
    | _ => exact (aloof_waitOn (by simp [Cont.queue]) hw).touch rfl
  | @wakeupOne q =>
    cases q with
    | mtx => cases hl
    | _ => exact (aloof_wakeupOne (by simp) s).touch rfl
  | @wakeupAll q =>
    cases q with
    | mtx => cases hl
    | _ => exact (aloof_wakeupAll (by simp) s).touch rfl
  | @mutexEnter m₀ _ ht =>
    exact touch_turn ht rfl rfl rfl rfl (by rintro _ ⟨rfl⟩; rfl) (by simp)
      (fun h => absurd rfl (h m₀)) fun _ _ => rfl
  | mutexBusy hb =>
    refine .stay (fun ws hws => ?_) rfl rfl id
    cases hws
    exact hb
  | mutexIn hb => exact touch_entered rfl hb rfl rfl rfl rfl (fun _ _ => rfl) ⟨rfl, rfl, rfl⟩
  | mutexExit hx =>
    exact touch_exit rfl (by simpa [proper] using hl) (OnlyLocks.refl s) rfl rfl hx ⟨rfl, rfl, rfl⟩
  | rwEnter ht =>
    exact touch_turn ht rfl rfl rfl rfl (by simp) (by simp) (fun _ _ => rfl) fun _ _ => rfl
  | rwIn => exact (aloof_rwEntered _ s _).touch rfl
  | rwExit => exact (aloof_rwExit _ s).touch rfl
  | rwDowngrade hd =>
    unfold rwDowngrade at hd
    split at hd
    · cases hd
    · cases hd
      exact Aloof.touch ⟨rfl, rfl, rfl⟩ rfl
  | rwTryupgrade =>
    refine Aloof.touch ?_ rfl
    unfold rwTryupgrade
    split <;> exact ⟨rfl, rfl, rfl⟩
  | cvWait hb | cvWaitNowrap hb | cvTimedwait hb => exact hcv rfl (by simpa [proper] using hl) hb
  | cvSignal => exact (aloof_wakeupOne (by simp) s).touch rfl
  | cvBroadcast => exact (aloof_wakeupAll (by simp) s).touch rfl

/-- Behind `wait` the queue of the waiter has lost it, and no other queue has
changed. -/
theorem waitRet_waiters {w : Wid} {k : Cont} (h : WaitQueue.Inv s)
    (hp : s.pc s.current = .wait w k) (q : Queue) :
    (waitRet w k.queue s).2.waiters q = (s.waiters q).erase w := by
  have hoff : ∀ q', (q' = k.queue → (s.waiter w).onlist = false) → w ∉ s.waiters q' := by
    intro q' hx hmem
    obtain ⟨hq, hon⟩ := (WaitQueue.queued_iff h hp q').mp hmem
    rw [hx hq] at hon
    cases hon
  unfold waitRet
  split
  next hon =>
    by_cases hq : q = k.queue
    · subst hq
      simp
    · rw [List.erase_of_not_mem (hoff q fun he => absurd he hq)]
      simp [hq]
  next hon => rw [List.erase_of_not_mem (hoff q fun _ => by simpa using hon)]

theorem touch_resume (h : Placed s) (he : resume s (s.pc s.current) = .ok s') :
    Touch s .resume s' m := by
  have hent : (∀ w k, s.pc s.current ≠ .wait w k) → entry s .resume = none := by
    intro hn
    simp only [entry]
    split
    next hp => exact absurd hp (hn _ _)
    next hp => exact absurd hp (hn _ _)
    next => rfl
  generalize hp : s.pc s.current = p at he
  cases resume_inv he with
  | @wait w k _ ht =>
    have hc := waitRet_calm w k.queue (reap s)
    have hl := waitRet_sameLocks w k.queue (reap s)
    have hw := waitRet_waiters (s := reap s) (WaitQueue.inv_reap h.sys.waits) hp
    have hkeep : ∀ m, k ≠ .mutexEnter m →
        (waitRet w k.queue (reap s)).2.waiters (.mtx m) = s.waiters (.mtx m) := by
      intro m₁ hk
      rw [hw, List.erase_of_not_mem]
      · rfl
      · intro hmem
        obtain ⟨hq, _⟩ := (WaitQueue.queued_iff h.sys.waits hp (.mtx m₁)).mp hmem
        cases k with
        | mutexEnter m₂ =>
          cases hq
          exact hk rfl
        | rwEnter lk r => cases lk <;> cases hq
        | cvWait => cases hq
        | bare q =>
          cases hq
          exact h.noBare _ w m₁ hp
    refine touch_turn ht hl.mtx hl.depth hc.current ?_ ?_ ?_ ?_ hkeep
    · rw [State.curlwp, hc.current, hc.lwp]
      rfl
    · rintro m₀ rfl
      rw [hw]
      simp [entry, hp, reap]
    · rintro kind c m₀ rfl
      rw [hkeep m₀ (by simp)]
      simp [entry, hp]
    · intro h1 h2
      cases k with
      | mutexEnter m₀ => exact absurd rfl (h1 m₀)
      | cvWait kind c m₀ => exact absurd rfl (h2 kind c m₀)
      | rwEnter => simp [entry, hp]
      | bare => simp [entry, hp]
  | running | fresh | yield | sleep | exited =>
    exact Aloof.touch ⟨rfl, rfl, rfl⟩ (hent (by simp [hp]))
  | join hj =>
    have hx := aloof_joinLoop (m := m) hj
    exact Aloof.touch ⟨hx.mtx, hx.depth, hx.waiters⟩ (hent (by simp [hp]))
  | gate =>
    have hx := aloof_exitThread (m := m) (reap s)
    exact Aloof.touch ⟨hx.mtx, hx.depth, hx.waiters⟩ (hent (by simp [hp]))

/-- `mutex_enter` ends the process in no state, and the way out of a wait on a
condition variable only if its mutex is busy. -/
theorem abort_busy {e : Event} {why : Abort}
    (h : (∃ c, e = .call c ∧ exec s c = .error why) ∨
      e = .resume ∧ resume s (s.pc s.current) = .error why) {ws : List Wid}
    (he : entry s e = some (m, ws)) : MutexBusy m s := by
  by_contra hb
  rcases h with ⟨c, rfl, hx⟩ | ⟨rfl, hx⟩
  · cases c with
    | mutexEnter m₀ =>
      cases he
      simp [exec, mutexEnter, mutexTryenter_eq, hb] at hx
    | mutexTryenter => cases hx
    | _ => cases he
  · simp only [entry] at he
    have hmove : ∀ w q, MutexBusy m (waitRet w q (reap s)).2 ↔ MutexBusy m s := by
      intro w q
      have hc := waitRet_calm w q (reap s)
      unfold MutexBusy State.curlwp
      rw [(waitRet_sameLocks w q (reap s)).mtx, hc.current, hc.lwp]
      rfl
    split at he
    next w m₀ hp =>
      cases he
      rw [hp] at hx
      simp [resume, afterWait, mutexEnterLoop, mutexTryenter_eq, hmove, hb] at hx
    next w kind c m₀ hp =>
      cases he
      rw [hp] at hx
      simp [resume, afterWait, cvFinish_eq, hmove, hb] at hx
    next => cases he

theorem touch_step {e : Event} (h : Placed s) (hl : proper s e = true)
    (hs : step s e = some s') : Touch s e s' m := by
  cases step_inv hs with
  | call _ _ he => exact touch_exec hl he
  | callAbort _ he => exact .stay (fun _ => abort_busy (.inl ⟨_, rfl, he⟩)) rfl rfl id
  | switch => exact Aloof.touch ⟨rfl, rfl, rfl⟩ rfl
  | idle => exact Aloof.touch ⟨rfl, rfl, rfl⟩ rfl
  | extWake => exact Aloof.touch ⟨rfl, rfl, rfl⟩ rfl
  | resume _ he => exact touch_resume h he
  | resumeAbort _ he => exact .stay (fun _ => abort_busy (.inr ⟨rfl, he⟩)) rfl rfl id

/-! ## Holders -/

/-- The mutex is free; or one thread holds it, and `o` or a waiter shows it. -/
def Held (s : State) (m : MtxId) : Prop :=
  ((s.mtx m).v = 0 ∧ ∀ t, s.depth m t = 0) ∨
  ∃ t, (s.mtx m).v = s.depth m t ∧ 0 < s.depth m t ∧ (∀ u, u ≠ t → s.depth m u = 0) ∧
    ((s.mtx m).o ≠ none ∨ s.waiters (.mtx m) ≠ [])

theorem held_sound (h : ∀ m, Held s m) : Sound s := by
  refine ⟨fun m t u ht hu => ?_, fun m hd t => ?_⟩
  · rcases h m with ⟨_, hz⟩ | ⟨v, _, _, hz, _⟩
    · rw [hz t] at ht
      cases ht
    · have htv : t = v := by
        by_contra hne
        rw [hz t hne] at ht
        cases ht
      have huv : u = v := by
        by_contra hne
        rw [hz u hne] at hu
        cases hu
      rw [htv, huv]
  · unfold mutexDestroy at hd
    split at hd
    next hfree =>
      rcases h m with ⟨_, hz⟩ | ⟨_, _, _, _, ho | hq⟩
      · exact hz t
      · exact absurd hfree.2 ho
      · exact absurd hfree.1 hq
    next => cases hd

/-- A thread that holds the mutex is its only holder. -/
theorem held_current (h : Held s m) {t : Tid} (ht : 0 < s.depth m t) :
    (s.mtx m).v = s.depth m t ∧ (∀ u, u ≠ t → s.depth m u = 0) ∧
      ((s.mtx m).o ≠ none ∨ s.waiters (.mtx m) ≠ []) := by
  rcases h with ⟨_, hz⟩ | ⟨v, hv, _, hz, hshow⟩
  · rw [hz t] at ht
    cases ht
  · have htv : t = v := by
      by_contra hne
      rw [hz t hne] at ht
      cases ht
    subst htv
    exact ⟨hv, hz, hshow⟩

theorem held_entered {e : Event} {ws : List Wid} (h : Held s m) (hno : slips s e = false)
    (he : entry s e = some (m, ws)) (hb : ¬ MutexBusy m s)
    (hm : s'.mtx m = { v := (s.mtx m).v + 1, o := s.curlwp })
    (hd : s'.depth m = Function.update (s.depth m) s.current (s.depth m s.current + 1))
    (hq : s'.waiters (.mtx m) = ws) : Held s' m := by
  have hslip : ¬ ((s.mtx m).v ≠ 0 ∧ s.depth m s.current = 0 ∨ s.curlwp = none ∧ ws = []) := by
    intro hx
    rw [slips_iff.mpr ⟨m, ws, he, hb, hx⟩] at hno
    cases hno
  obtain ⟨hmine, hshow⟩ := not_or.mp hslip
  have hothers : (s.mtx m).v = s.depth m s.current ∧ ∀ u, u ≠ s.current → s.depth m u = 0 := by
    rcases h with ⟨hv, hz⟩ | ⟨t, hv, hpos, hz, hs⟩
    · exact ⟨by rw [hv, hz s.current]; rfl, fun u _ => hz u⟩
    · have hcur : 0 < s.depth m s.current := by
        by_contra hzero
        exact hmine ⟨by omega, by omega⟩
      obtain ⟨hv', hz', _⟩ := held_current (.inr ⟨t, hv, hpos, hz, hs⟩) hcur
      exact ⟨hv', hz'⟩
  refine .inr ⟨s.current, ?_, ?_, fun u hu => ?_, ?_⟩
  · rw [hm, hd]
    simp [hothers.1]
  · rw [hd]
    simp
  · rw [hd]
    simp [hu, hothers.2 u hu]
  · rw [hm, hq]
    by_cases hl : s.curlwp = none
    · exact .inr fun hnil => hshow ⟨hl, hnil⟩
    · exact .inl hl

theorem held_left (h : Held s m) (hh : 0 < s.depth m s.current)
    (hm : (s'.mtx m).v = (s.mtx m).v - 1 ∧ ((s.mtx m).v ≠ 1 → (s'.mtx m).o = (s.mtx m).o))
    (hd : s'.depth m = Function.update (s.depth m) s.current (s.depth m s.current - 1))
    (hq : (s.mtx m).v ≠ 1 → s'.waiters (.mtx m) = s.waiters (.mtx m)) : Held s' m := by
  obtain ⟨hv, hz, hshow⟩ := held_current h hh
  by_cases h1 : (s.mtx m).v = 1
  · refine .inl ⟨by omega, fun t => ?_⟩
    rw [hd]
    by_cases ht : t = s.current
    · subst ht
      rw [Function.update_self]
      omega
    · simp [ht, hz t ht]
  · refine .inr ⟨s.current, ?_, ?_, fun u hu => ?_, ?_⟩
    · rw [hm.1, hd, Function.update_self]
      omega
    · rw [hd, Function.update_self]
      omega
    · rw [hd]
      simp [hu, hz u hu]
    · rw [hm.2 h1, hq h1]
      exact hshow

theorem held_touch {e : Event} (h : Held s m) (hno : slips s e = false) (ht : Touch s e s' m) :
    Held s' m := by
  cases ht with
  | stay _ hm hd hq =>
    rcases h with ⟨hv, hz⟩ | ⟨t, hv, hpos, hz, hshow⟩
    · exact .inl ⟨by rw [hm, hv], by rw [hd]; exact hz⟩
    · refine .inr ⟨t, by rw [hm, hd, hv], by rw [hd]; exact hpos, by rw [hd]; exact hz, ?_⟩
      rw [hm]
      exact hshow.imp_right hq
  | enter he hb hm hd hq => exact held_entered h hno he hb hm hd hq
  | leave _ hh _ hm hd hq => exact held_left h hh hm hd hq

/-- A step that slips shows in the next state. -/
theorem slip_unsound {e : Event} (h : ∀ m, Held s m) (hslip : slips s e = true)
    (ht : ∀ m, Touch s e s' m) : ¬ Sound s' := by
  obtain ⟨m, ws, he, hb, hx⟩ := slips_iff.mp hslip
  rintro ⟨hexcl, hdestroy⟩
  cases ht m with
  | stay hno => exact hb (hno ws he)
  | leave hno =>
    rw [hno] at he
    cases he
  | @enter ws' he' _ hm hd hq =>
    rw [he] at he'
    cases he'
    have hcur : 0 < s'.depth m s.current := by
      rw [hd]
      simp
    rcases hx with ⟨hv, hzero⟩ | ⟨hl, hnil⟩
    · -- somebody else holds it
      rcases h m with ⟨hfree, _⟩ | ⟨t, _, hpos, _, _⟩
      · exact hv hfree
      · have hne : t ≠ s.current := by
          rintro rfl
          omega
        refine hne (hexcl m t s.current ?_ hcur)
        rw [hd]
        simpa [hne] using hpos
    · have hok : mutexDestroy m s' = .ok () := by
        unfold mutexDestroy
        rw [if_pos ⟨by rw [hq, hnil], by rw [hm]; exact hl⟩]
      have hz := hdestroy m hok s.current
      omega

/-! ## Whole runs -/

structure Inv (s : State) : Prop where
  placed : Placed s
  held : ∀ m, Held s m

theorem inv_initSched (t : Tid) : Inv (initSched t) where
  placed := ⟨WaitQueue.sys_boot _ _ _ (by simp), fun u w m => by
    simp only [initSched, boot]
    split <;> simp⟩
  held _ := .inl ⟨rfl, fun _ => rfl⟩

theorem inv_run {s₀ : State} {tr : List (State × Event)} (h₀ : Inv s₀) (hr : Run step s₀ tr s)
    (hg : Guarded (fun s e => proper s e) tr) (hn : Guarded (fun s e => slips s e = false) tr) :
    Inv s := by
  have hok : Guarded (fun s e => proper s e = true ∧ slips s e = false) tr :=
    fun p hp => ⟨hg p hp, hn p hp⟩
  refine Run.invariant h₀ (fun s e s' h hx hs => ⟨placed_step h.placed hx.1 hs, fun m => ?_⟩) hr hok
  exact held_touch (h.held m) hx.2 (touch_step h.placed hx.1 hs)

theorem never_slips {s₀ : State} {tr : List (State × Event)} (h₀ : Inv s₀) (hr : Run step s₀ tr s)
    (hg : Guarded (fun s e => proper s e) tr) (hall : ∀ p ∈ tr, Sound p.1) (hlast : Sound s) :
    Guarded (fun s e => slips s e = false) tr := by
  induction hr with
  | nil => exact Guarded.nil _
  | @snoc tr s s' e hrun hs ih =>
    obtain ⟨hg', hl⟩ := guarded_snoc.mp hg
    have hn := ih hg' (fun p hp => hall p (List.mem_append_left _ hp)) (hall (s, e) (by simp))
    refine guarded_snoc.mpr ⟨hn, ?_⟩
    by_contra hslip
    have hi := inv_run h₀ hrun hg' hn
    exact slip_unsound hi.held (by simpa using hslip)
      (fun m => touch_step hi.placed hl hs) hlast

/-- Any number of threads, with and without lwps, from `init_sched` on and
through any proper calls: different threads never hold a mutex together, and
`mutex_destroy` gets past its assertion only for a mutex that nobody holds, in
every state of the run, exactly if no step of the run slips. -/
theorem mutex_nameless_iff {t₀ : Tid} {tr : List (State × Event)} {s : State}
    (hr : Run step (initSched t₀) tr s) (hg : Guarded (fun s e => proper s e) tr) :
    ((∀ p ∈ tr, Sound p.1) ∧ Sound s) ↔ Guarded (fun s e => slips s e = false) tr := by
  have h₀ := inv_initSched t₀
  refine ⟨fun h => never_slips h₀ hr hg h.1 h.2, fun hn => ⟨fun p hp => ?_, ?_⟩⟩
  · obtain ⟨l, hl, hle⟩ := hr.reaches_mem hp
    exact held_sound (inv_run h₀ hl (hg.prefix_of hle) (hn.prefix_of hle)).held
  · exact held_sound (inv_run h₀ hr hg hn).held

/-- Two threads with lwps 7 and 8: the first holds the mutex across a yield,
the second is refused. -/
theorem mutex_nameless_iff_named : ∃ tr s, Run step (initSched 0) tr s ∧
    s.waiters (.mtx 0) ≠ [] ∧ (∀ p ∈ tr, Sound p.1) ∧ Sound s := by
  obtain ⟨tr, s, hr, hp⟩ := exists_run (f := step) (s := initSched 0)
    [.call (.setCurlwp (some 7)), .call (.createThread (some 1) false false true),
      .call (.mutexEnter 0), .call .schedule, .pass 0, .resume, .call .schedule, .pass 0, .resume,
      .call (.setCurlwp (some 8)), .call (.mutexEnter 0)]
    (p := fun tr s => Guarded (fun s e => proper s e) tr ∧
      Guarded (fun s e => slips s e = false) tr ∧ s.waiters (.mtx 0) ≠ []) (by decide)
  rw [decide_eq_true_eq] at hp
  obtain ⟨hg, hn, hw⟩ := hp
  exact ⟨tr, s, hr, hw, (mutex_nameless_iff hr hg).mpr hn⟩

/-- Two threads as `init_sched` and `create_thread` leave them: both hold the
mutex, and `mutex_destroy` would free it. -/
theorem mutex_nameless_fails : ∃ tr s, Run step (initSched 0) tr s ∧
    Guarded (fun s e => proper s e) tr ∧
    tr.map Prod.snd = [.call (.createThread (some 1) false false true), .call (.mutexEnter 0),
      .call .schedule, .pass 0, .resume, .call .schedule, .pass 0, .resume,
      .call (.mutexEnter 0)] ∧
    0 < s.depth 0 0 ∧ 0 < s.depth 0 1 ∧ (s.mtx 0).v = 2 ∧ mutexDestroy 0 s = .ok () := by
  obtain ⟨tr, s, hr, hp⟩ := exists_run (f := step) (s := initSched 0)
    [.call (.createThread (some 1) false false true), .call (.mutexEnter 0),
      .call .schedule, .pass 0, .resume, .call .schedule, .pass 0, .resume,
      .call (.mutexEnter 0)]
    (p := fun tr s => Guarded (fun s e => proper s e) tr ∧
      tr.map Prod.snd = [.call (.createThread (some 1) false false true), .call (.mutexEnter 0),
        .call .schedule, .pass 0, .resume, .call .schedule, .pass 0, .resume,
        .call (.mutexEnter 0)] ∧
      0 < s.depth 0 0 ∧ 0 < s.depth 0 1 ∧ (s.mtx 0).v = 2 ∧
      (mutexDestroy 0 s).toOption = some ()) (by decide)
  rw [decide_eq_true_eq] at hp
  obtain ⟨hg, hev, h0, h1, hv, hd⟩ := hp
  refine ⟨tr, s, hr, hg, hev, h0, h1, hv, ?_⟩
  cases hx : mutexDestroy 0 s with
  | ok => rfl
  | error why => simp [hx, Except.toOption] at hd

end Frankenlibc.Threads.Nameless

import Frankenlibc.Threads.Sched

/-!
# Wait queues, mutexes, reader/writer locks and condition variables

`wait` is cut at its call of `schedule`: `waitOn` is the part before it and
`waitRet` the part behind it. The retry loops of `mutex_enter` and `rw_enter`
are cut the same way, so `mutexEnterLoop` and `rwEnterLoop` are one turn of
the loop, run when the caller first fails and again each time its `wait` has
returned.

`depth`, `readers` and `writers` record who holds a lock: they change where a
`tryenter` succeeds and where an exit is executed.
-/
namespace Frankenlibc.Threads

open Frankenlibc.Lib

/-- `WAIT_NOTIMEOUT`. -/
def waitNotimeout : Int := -1

/-- The deadline `wait` stores. -/
def deadline (nsec tm : Int) : Int := if nsec = waitNotimeout then -1 else i64 (tm + nsec)

/-- A waiter on the stack of the current thread is put at the end of `q`. -/
def enqueue (q : Queue) (s : State) : State :=
  { s with
    waiter := Function.update s.waiter s.nextWid { who := s.current, onlist := true }
    waiters := Function.update s.waiters q (s.waiters q ++ [s.nextWid])
    nextWid := s.nextWid + 1
    hist := s.hist ++ [.arrive s.nextWid q] }

/-- `wait`, up to its call of `schedule`; `tm` is the reading of the clock. -/
def waitOn (k : Cont) (nsec tm : Int) (s : State) : Except Abort State :=
  if nsec = 0 then .error .waitZero
  else
    let s' := block s.current (enqueue k.queue s)
    let s' := clearRunnable s'.current (setDeadline s'.current (deadline nsec tm) s')
    .ok (s'.suspend (.wait s.nextWid k))

/-- `wait`, behind its call of `schedule`, for the waiter `w` on `q`. -/
def waitRet (w : Wid) (q : Queue) (s : State) : Rv × State :=
  let pc := Function.update s.pc s.current .running
  if (s.waiter w).onlist then
    (.ETIMEDOUT,
      { s with
        pc := pc
        waiters := Function.update s.waiters q ((s.waiters q).erase w)
        hist := s.hist ++ [.remove w q, .ret w .ETIMEDOUT] })
  else (.ok, { s with pc := pc, hist := s.hist ++ [.ret w .ok] })

/-- The first waiter `w` of `q` leaves it and its thread is woken. -/
def dequeue (q : Queue) (w : Wid) (ws : List Wid) (s : State) : State :=
  wake (s.waiter w).who
    { s with
      waiters := Function.update s.waiters q ws
      waiter := Function.update s.waiter w { s.waiter w with onlist := false }
      hist := s.hist ++ [.dequeue w q] }

/-- `wakeup_one`. -/
def wakeupOne (q : Queue) (s : State) : State :=
  match s.waiters q with
  | [] => s
  | w :: ws => dequeue q w ws s

/-- The loop of `wakeup_all`, for the waiters that are still on `q`. -/
def wakeupLoop (q : Queue) : List Wid → State → State
  | [], s => s
  | w :: ws, s => wakeupLoop q ws (dequeue q w ws s)

/-- `wakeup_all`. -/
def wakeupAll (q : Queue) (s : State) : State := wakeupLoop q (s.waiters q) s

/-! ## Mutexes -/

/-- `mutex_tryenter`. -/
def mutexTryenter (m : MtxId) (s : State) : Rv × State :=
  let mtx := s.mtx m
  if mtx.v ≠ 0 ∧ mtx.o ≠ s.curlwp then (.EBUSY, s)
  else
    (.ok, { s with
      mtx := Function.update s.mtx m { mtx with v := mtx.v + 1, o := s.curlwp }
      depth := Function.update s.depth m
        (Function.update (s.depth m) s.current (s.depth m s.current + 1)) })

/-- One turn of the loop of `mutex_enter`. -/
def mutexEnterLoop (m : MtxId) (s : State) : Except Abort State :=
  match mutexTryenter m s with
  | (.ok, s') => .ok s'.toUser
  | (_, s') => waitOn (.mutexEnter m) waitNotimeout 0 s'

/-- `mutex_enter`. -/
def mutexEnter (m : MtxId) (s : State) : Except Abort State :=
  match mutexTryenter m s with
  | (.ok, s') => .ok s'.toUser
  | (_, s') => mutexEnterLoop m s'

/-- `mutex_enter_nowrap`. -/
def mutexEnterNowrap (m : MtxId) (s : State) : Except Abort State :=
  match mutexTryenter m s with
  | (.ok, s') => .ok s'
  | (_, _) => .error .nowrap

/-- `mutex_exit`. -/
def mutexExit (m : MtxId) (s : State) : Except Abort State :=
  let mtx := s.mtx m
  if mtx.v ≤ 0 then .error .assertion
  else
    let s' := { s with
      mtx := Function.update s.mtx m { mtx with v := mtx.v - 1 }
      depth := Function.update s.depth m
        (Function.update (s.depth m) s.current (s.depth m s.current - 1)) }
    if mtx.v - 1 = 0 then
      .ok (wakeupOne (.mtx m)
        { s' with mtx := Function.update s'.mtx m { s'.mtx m with o := none } })
    else .ok s'

/-! ## Reader/writer locks -/

/-- `rw_tryenter`. -/
def rwTryenter (lk : RwMode) (r : RwId) (s : State) : Rv × State :=
  let rw := s.rw r
  match lk with
  | .writer =>
    if rw.o = none then
      (.ok, { s with
        rw := Function.update s.rw r { rw with o := s.curlwp }
        writers := Function.update s.writers r (s.current :: s.writers r) })
    else (.EBUSY, s)
  | .reader =>
    if rw.o = none ∧ s.waiters (.wwait r) = [] then
      (.ok, { s with
        rw := Function.update s.rw r { rw with v := rw.v + 1 }
        readers := Function.update s.readers r (s.current :: s.readers r) })
    else (.EBUSY, s)

/-- One turn of the loop of `rw_enter`. -/
def rwEnterLoop (lk : RwMode) (r : RwId) (s : State) : Except Abort State :=
  match rwTryenter lk r s with
  | (.ok, s') => .ok s'.toUser
  | (_, s') => waitOn (.rwEnter lk r) waitNotimeout 0 s'

/-- `rw_enter`. -/
def rwEnter (lk : RwMode) (r : RwId) (s : State) : Except Abort State :=
  match rwTryenter lk r s with
  | (.ok, s') => .ok s'.toUser
  | (_, s') => rwEnterLoop lk r s'

/-- The hold an exiting thread gives up: its write hold if it has one. -/
def dropHold (r : RwId) (s : State) : State :=
  if s.current ∈ s.writers r then
    { s with writers := Function.update s.writers r ((s.writers r).erase s.current) }
  else { s with readers := Function.update s.readers r ((s.readers r).erase s.current) }

/-- The update of `o` and `v` in `rw_exit`, which tells a writer's exit from a
reader's by `o`. -/
def rwRelease (rw : Rw) : Rw :=
  if rw.o ≠ none then { rw with o := none } else { rw with v := rw.v - 1 }

/-- The wakeups at the end of `rw_exit`. -/
def rwHandOver (r : RwId) (s : State) : State :=
  if s.waiters (.wwait r) ≠ [] then
    if (s.rw r).o = none then wakeupOne (.wwait r) s else s
  else if s.waiters (.rwait r) ≠ [] ∧ (s.rw r).o = none then wakeupAll (.rwait r) s
  else s

/-- `rw_exit`. -/
def rwExit (r : RwId) (s : State) : State :=
  rwHandOver r { dropHold r s with rw := Function.update s.rw r (rwRelease (s.rw r)) }

/-- `rw_held`. -/
def rwHeld (lk : RwMode) (r : RwId) (s : State) : Bool :=
  match lk with
  | .writer => (s.rw r).o = s.curlwp
  | .reader => 0 < (s.rw r).v

/-- `rw_downgrade`. -/
def rwDowngrade (r : RwId) (s : State) : Except Abort State :=
  if (s.rw r).o ≠ s.curlwp then .error .assertion
  else
    .ok { s with
      rw := Function.update s.rw r { s.rw r with v := -1 }
      writers := Function.update s.writers r ((s.writers r).erase s.current)
      readers := Function.update s.readers r (s.current :: s.readers r) }

/-- `rw_tryupgrade`. -/
def rwTryupgrade (r : RwId) (s : State) : Rv × State :=
  if (s.rw r).v = -1 then
    (.ok, { s with
      rw := Function.update s.rw r { v := 1, o := s.curlwp }
      readers := Function.update s.readers r ((s.readers r).erase s.current)
      writers := Function.update s.writers r (s.current :: s.writers r) })
  else (.EBUSY, s)

/-! ## Condition variables -/

/-- The entry of `cv_wait`, `cv_wait_nowrap` and `cv_timedwait`: count the
waiter, release the mutex and wait. -/
def cvBegin (kind : CvKind) (c : CvId) (m : MtxId) (nsec tm : Int) (s : State) :
    Except Abort State := do
  let s' ← mutexExit m
    { s with cv := Function.update s.cv c { nwaiters := (s.cv c).nwaiters + 1 } }
  waitOn (.cvWait kind c m) nsec tm s'

/-- `cv_wait`. -/
def cvWait (c : CvId) (m : MtxId) (s : State) : Except Abort State :=
  cvBegin .wait c m waitNotimeout 0 s

/-- `cv_wait_nowrap`. -/
def cvWaitNowrap (c : CvId) (m : MtxId) (s : State) : Except Abort State :=
  cvBegin .nowrap c m waitNotimeout 0 s

/-- `cv_timedwait`. -/
def cvTimedwait (c : CvId) (m : MtxId) (sec nsec tm : Int) (s : State) : Except Abort State :=
  cvBegin .timed c m (i64 (sec * 1000 * 1000 * 1000 + nsec)) tm s

/-- The way out of the three waits: `cv_resched`, or `mutex_enter_nowrap`
alone, and the count. -/
def cvFinish (c : CvId) (m : MtxId) (s : State) : Except Abort State := do
  let s' ← mutexEnterNowrap m s
  .ok { s' with cv := Function.update s'.cv c { nwaiters := (s'.cv c).nwaiters - 1 } }.toUser

/-- `cv_signal`. -/
def cvSignal (c : CvId) (s : State) : State := wakeupOne (.cv c) s

/-- `cv_broadcast`. -/
def cvBroadcast (c : CvId) (s : State) : State := wakeupAll (.cv c) s

end Frankenlibc.Threads

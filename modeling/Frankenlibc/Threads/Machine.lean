import Frankenlibc.Lib.Run
import Frankenlibc.Threads.Sync

/-!
# The library as a machine

A step is a call that the current thread makes from its own code, one turn of
the loop in `schedule`, a wake that the platform's `clock_nanosleep` delivers
while the scheduler idles, or the continuation of the thread that has been
given the processor. Between two steps nothing else runs: the scheduler is
not preemptive. The static functions `wait`, `wakeup_one` and `wakeup_all`
may also be called directly, on any queue.
-/
namespace Frankenlibc.Threads

open Frankenlibc.Lib

inductive Call where
  | createThread (mem : Option Tid) (joinable extstack mmapOk : Bool)
  | schedule
  | exitThread
  | joinThread (t : Tid)
  | clockSleep (clk : Clock) (sec nsec tm : Int)
  | setCurlwp (l : Option Lwp)
  | wait (q : Queue) (nsec tm : Int)
  | wakeupOne (q : Queue)
  | wakeupAll (q : Queue)
  | mutexEnter (m : MtxId)
  | mutexTryenter (m : MtxId)
  | mutexExit (m : MtxId)
  | rwEnter (lk : RwMode) (r : RwId)
  | rwTryenter (lk : RwMode) (r : RwId)
  | rwExit (r : RwId)
  | rwDowngrade (r : RwId)
  | rwTryupgrade (r : RwId)
  | cvWait (c : CvId) (m : MtxId)
  | cvWaitNowrap (c : CvId) (m : MtxId)
  | cvTimedwait (c : CvId) (m : MtxId) (sec nsec tm : Int)
  | cvSignal (c : CvId)
  | cvBroadcast (c : CvId)
  deriving DecidableEq, Repr

inductive Event where
  | call (c : Call)
  | pass (tm : Int)
  | extWake (t : Tid)
  | resume
  deriving DecidableEq, Repr

/-- A call of the current thread, up to its return or to `schedule`. -/
def exec (s : State) : Call → Except Abort State
  | .createThread mem joinable extstack mmapOk => .ok (createThread mem joinable extstack mmapOk s)
  | .schedule => .ok (s.suspend .yield)
  | .exitThread => .ok (exitThread s)
  | .joinThread t => joinThread t s
  | .clockSleep clk sec nsec tm => .ok (clockSleep clk sec nsec tm s)
  | .setCurlwp l => .ok (s.setThread s.current { s.thread s.current with lwp := l })
  | .wait q nsec tm => waitOn (.bare q) nsec tm s
  | .wakeupOne q => .ok (wakeupOne q s)
  | .wakeupAll q => .ok (wakeupAll q s)
  | .mutexEnter m => mutexEnter m s
  | .mutexTryenter m => .ok (mutexTryenter m s).2
  | .mutexExit m => mutexExit m s
  | .rwEnter lk r => rwEnter lk r s
  | .rwTryenter lk r => .ok (rwTryenter lk r s).2
  | .rwExit r => .ok (rwExit r s)
  | .rwDowngrade r => rwDowngrade r s
  | .rwTryupgrade r => .ok (rwTryupgrade r s).2
  | .cvWait c m => cvWait c m s
  | .cvWaitNowrap c m => cvWaitNowrap c m s
  | .cvTimedwait c m sec nsec tm => cvTimedwait c m sec nsec tm s
  | .cvSignal c => .ok (cvSignal c s)
  | .cvBroadcast c => .ok (cvBroadcast c s)

/-- What the caller of `wait` does when it has returned. -/
def afterWait (s : State) : Cont → Except Abort State
  | .mutexEnter m => mutexEnterLoop m s
  | .rwEnter lk r => rwEnterLoop lk r s
  | .cvWait _ c m => cvFinish c m s
  | .bare _ => .ok s.toUser

/-- The code behind the switch, for a thread that stands at `p`. A thread that
has not run starts in its own function and frees nothing. -/
def resume (s : State) : Pc → Except Abort State
  | .running | .fresh => .ok s.toUser
  | .yield | .sleep => .ok (reap s).toUser
  | .wait w k => afterWait (waitRet w k.queue (reap s)).2 k
  | .join t =>
    joinLoop t { reap s with
      joinwq := s.joinwq.erase { thread := s.current, wanted := t } }
  | .exitGate => .ok (exitThread (reap s))
  | .exited => .ok ((reap s).suspend .exited)

/-- An abort ends the process. -/
def settle (s : State) : Except Abort State → State
  | .ok s' => s'
  | .error why => { s with mode := .dead why }

/-- `calloc` never hands out a name that was used before. -/
def Call.allowed (s : State) : Call → Bool
  | .createThread (some t) _ _ _ => t ∉ s.created
  | _ => true

def Mode.isIdle : Mode → Bool
  | .idle _ => true
  | _ => false

def step (s : State) : Event → Option State
  | .call c => if s.mode = .user ∧ c.allowed s then some (settle s (exec s c)) else none
  | .pass tm => if s.mode = .sched ∨ s.mode.isIdle then some (pass tm s) else none
  | .extWake t =>
    if s.mode.isIdle ∧ (t ∈ s.threadList ∨ t ∈ s.exitedThreads) then some (wake t s) else none
  | .resume => if s.mode = .back then some (settle s (resume s (s.pc s.current))) else none

end Frankenlibc.Threads

import Mathlib.Logic.Function.Basic
import Frankenlibc.Lib.Words

/-!
# The data of the cooperative thread library

One record holds everything `thread.c` keeps: the thread structures, the two
thread lists, the wait queues with the waiter structures that live on the
stacks of waiting threads, the join queue, and the lock objects. Pointers to
threads, waiters and locks are names; a name is never given out twice, so a
dangling pointer is a name whose object has been freed.

The library is cooperative: a thread leaves the processor only inside
`schedule`. Where a thread stands inside the library is its `Pc`. The fields
behind the bar in `State` are history that no function of the library reads:
which threads were created and freed, which thread holds which lock, who has
called `join_thread`, and the record of all waits.

The name, cookie, stack and saved context of a thread, `threrrno` and the
scheduler hook (which nothing installs) are left out. The hypercalls
`rumpkern_unsched` and `rumpkern_sched` around a blocking wait change nothing
that is kept here and do not appear; the flags of a mutex only choose whether
`cv_resched` makes such a call before or after it takes the mutex.
-/
namespace Frankenlibc.Threads

abbrev Tid := Nat
abbrev Wid := Nat
abbrev Lwp := Nat
abbrev MtxId := Nat
abbrev RwId := Nat
abbrev CvId := Nat

/-- `struct thread`. The bits of `flags` are separate fields, and the NULL
`lwp` is `none`. -/
structure Thread where
  lwp : Option Lwp
  wakeupTime : Int
  runnable : Bool
  mustjoin : Bool
  joined : Bool
  extstack : Bool
  timedout : Bool
  deriving DecidableEq, Repr

/-- `struct waiter`. -/
structure Waiter where
  who : Tid
  onlist : Bool
  deriving DecidableEq, Repr

/-- `struct join_waiter`. -/
structure JoinWaiter where
  thread : Tid
  wanted : Tid
  deriving DecidableEq, Repr

/-- `struct rumpuser_mtx`, without its queue and its `flags`. Here and in the next
two an `int` has no limits. -/
structure Mtx where
  v : Int
  o : Option Lwp
  deriving DecidableEq, Repr

/-- `struct rumpuser_rw`, without its queues. -/
structure Rw where
  v : Int
  o : Option Lwp
  deriving DecidableEq, Repr

/-- `struct rumpuser_cv`, without its queue. -/
structure Cv where
  nwaiters : Int
  deriving DecidableEq, Repr

/-- `RW_READER` and `RW_WRITER`. -/
inductive RwMode where
  | reader
  | writer
  deriving DecidableEq, Repr

/-- The error codes the library returns; 0 is `ok`. -/
inductive Rv where
  | ok
  | EBUSY
  | ETIMEDOUT
  deriving DecidableEq, Repr

/-- Every `struct waithead` of the library. -/
inductive Queue where
  | mtx (m : MtxId)
  | rwait (r : RwId)
  | wwait (r : RwId)
  | cv (c : CvId)
  deriving DecidableEq, Repr

/-- The three ways into a wait on a condition variable. -/
inductive CvKind where
  | wait
  | nowrap
  | timed
  deriving DecidableEq, Repr

/-- Which caller of `wait` a waiting thread returns to. -/
inductive Cont where
  | mutexEnter (m : MtxId)
  | rwEnter (lk : RwMode) (r : RwId)
  | cvWait (kind : CvKind) (c : CvId) (m : MtxId)
  | bare (q : Queue)
  deriving DecidableEq, Repr

/-- The queue `rw_enter` waits on. -/
def rwQueue (r : RwId) : RwMode → Queue
  | .writer => .wwait r
  | .reader => .rwait r

/-- The queue handed to `wait`. -/
def Cont.queue : Cont → Queue
  | .mutexEnter m => .mtx m
  | .rwEnter lk r => rwQueue r lk
  | .cvWait _ c _ => .cv c
  | .bare q => q

/-- Where a thread stands: on the processor, not started yet, or at one of the
calls of `schedule`. -/
inductive Pc where
  | running
  | fresh
  | yield
  | sleep
  | wait (w : Wid) (k : Cont)
  | join (t : Tid)
  | exitGate
  | exited
  deriving DecidableEq, Repr

/-- Why the process ended: `wait` with a zero time, the failed `tryenter` of
`mutex_enter_nowrap`, a failed assertion, or a freed thread dereferenced. -/
inductive Abort where
  | waitZero
  | nowrap
  | assertion
  | useAfterFree
  deriving DecidableEq, Repr

/-- The request `schedule` hands to `clock_nanosleep`. -/
structure Timespec where
  sec : Int
  nsec : Int
  deriving DecidableEq, Repr

/-- What the processor is doing: the current thread's own code, a pass of the
loop in `schedule`, the sleep between two passes, the code behind
`swapcontext`, or nothing any more. -/
inductive Mode where
  | user
  | sched
  | idle (sl : Timespec)
  | back
  | dead (why : Abort)
  deriving DecidableEq, Repr

/-- The record of waits: a waiter is put on a queue, is dequeued by a wakeup,
takes itself off, and its `wait` returns. -/
inductive WaitEv where
  | arrive (w : Wid) (q : Queue)
  | dequeue (w : Wid) (q : Queue)
  | remove (w : Wid) (q : Queue)
  | ret (w : Wid) (rv : Rv)
  deriving DecidableEq, Repr

structure State where
  thread : Tid → Thread
  threadList : List Tid
  exitedThreads : List Tid
  current : Tid
  mode : Mode
  pc : Tid → Pc
  waiters : Queue → List Wid
  waiter : Wid → Waiter
  nextWid : Wid
  joinwq : List JoinWaiter
  mtx : MtxId → Mtx
  rw : RwId → Rw
  cv : CvId → Cv
  -- history
  created : List Tid
  freed : List Tid
  joiner : Tid → Option Tid
  hist : List WaitEv
  depth : MtxId → Tid → Nat
  readers : RwId → List Tid
  writers : RwId → List Tid

namespace State

/-- `get_current()->lwp`. -/
def curlwp (s : State) : Option Lwp := (s.thread s.current).lwp

def setThread (s : State) (t : Tid) (x : Thread) : State :=
  { s with thread := Function.update s.thread t x }

/-- The current thread calls `schedule` from the place `p`. -/
def suspend (p : Pc) (s : State) : State :=
  { s with pc := Function.update s.pc s.current p, mode := .sched }

/-- The library call of the current thread returns. -/
def toUser (s : State) : State :=
  { s with pc := Function.update s.pc s.current .running, mode := .user }

end State

/-- `struct thread` as `calloc`, `create_thread` and `init_sched` leave it. -/
def newThread (joinable extstack : Bool) : Thread :=
  { lwp := none, wakeupTime := -1, runnable := true, mustjoin := joinable, joined := false,
    extstack := extstack, timedout := false }

/-- A system of threads that exist and have not run yet; the first of them is
on the processor. The locks are as their `init` functions leave them. -/
def boot (t : Tid) (ts : List Tid) (lwp : Tid → Option Lwp) : State where
  thread u := { newThread false false with lwp := lwp u }
  threadList := t :: ts
  exitedThreads := []
  current := t
  mode := .user
  pc u := if u = t then .running else .fresh
  waiters _ := []
  waiter _ := { who := 0, onlist := false }
  nextWid := 0
  joinwq := []
  mtx _ := { v := 0, o := none }
  rw _ := { v := 0, o := none }
  cv _ := { nwaiters := 0 }
  created := t :: ts
  freed := []
  joiner _ := none
  hist := []
  depth _ _ := 0
  readers _ := []
  writers _ := []

/-- `init_sched`: the caller becomes the only thread, without an lwp. -/
def initSched (t : Tid) : State := boot t [] (fun _ => none)

end Frankenlibc.Threads

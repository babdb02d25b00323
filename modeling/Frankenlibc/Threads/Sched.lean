import Frankenlibc.Threads.State

/-!
# The round-robin scheduler, thread exit and join

`schedule` is cut where the processor changes hands. `pass` is one turn of
its loop, up to the context switch or the sleep; `reap` is the code behind
`swapcontext`, run by the thread that has just been given the processor, with
that thread as its own `prev`. The reading of the monotonic clock is an
argument.
-/
namespace Frankenlibc.Threads

open Frankenlibc.Lib

/-- `wake`. -/
def wake (t : Tid) (s : State) : State :=
  s.setThread t { s.thread t with wakeupTime := -1, runnable := true }

/-- `block`. -/
def block (t : Tid) (s : State) : State :=
  s.setThread t { s.thread t with wakeupTime := -1, runnable := false }

/-- `clear_runnable`. -/
def clearRunnable (t : Tid) (s : State) : State :=
  s.setThread t { s.thread t with runnable := false }

/-- The assignment of a deadline to `wakeup_time`. -/
def setDeadline (t : Tid) (tm : Int) (s : State) : State :=
  s.setThread t { s.thread t with wakeupTime := tm }

/-- A thread that `schedule` visits: woken and marked when its deadline has
passed at time `tm`. -/
def expire (tm : Int) (x : Thread) : Thread :=
  if x.runnable = false ∧ 0 ≤ x.wakeupTime ∧ x.wakeupTime ≤ tm then
    { x with timedout := true, wakeupTime := -1, runnable := true }
  else x

/-- The local `wakeup` after a visit: the earliest deadline seen so far. -/
def earlier (tm : Int) (x : Thread) (wakeup : Int) : Int :=
  if x.runnable = false ∧ 0 ≤ x.wakeupTime ∧ tm < x.wakeupTime ∧ x.wakeupTime < wakeup then
    x.wakeupTime
  else wakeup

/-- `TAILQ_FOREACH_SAFE` over `thread_list`: the thread it stops at, the
thread structures behind it and the earliest deadline. -/
def scan (tm : Int) : List Tid → (Tid → Thread) → Int → Option Tid × (Tid → Thread) × Int
  | [], th, wakeup => (none, th, wakeup)
  | t :: ts, th, wakeup =>
    let x := expire tm (th t)
    let th' := Function.update th t x
    if x.runnable then (some t, th', earlier tm (th t) wakeup)
    else scan tm ts th' (earlier tm (th t) wakeup)

/-- The time `schedule` asks `clock_nanosleep` to sleep. -/
def sleepRequest (wakeup tm : Int) : Timespec :=
  let sec := (i64 (wakeup - tm)).tdiv (1000 * 1000 * 1000)
  { sec := sec, nsec := i64 (wakeup - tm) - 1000 * 1000 * 1000 * sec }

/-- One turn of the loop in `schedule`. The selected thread goes to the end of
the list and becomes the current one. -/
def pass (tm : Int) (s : State) : State :=
  match scan tm s.threadList s.thread (i64 (tm + 1000 * 1000)) with
  | (some n, th, _) =>
    { s with thread := th, threadList := s.threadList.erase n ++ [n], current := n, mode := .back }
  | (none, th, wakeup) => { s with thread := th, mode := .idle (sleepRequest wakeup tm) }

/-- The loop behind the switch: every exited thread but `prev` is freed. -/
def reap (s : State) : State :=
  { s with
    exitedThreads := s.exitedThreads.filter (· = s.current)
    freed := s.freed ++ s.exitedThreads.filter (· ≠ s.current) }

/-- `create_thread`. `mem` is what `calloc` returns, and `mmapOk` whether the
stack of a thread that brings none can be mapped. -/
def createThread (mem : Option Tid) (joinable extstack mmapOk : Bool) (s : State) : State :=
  match mem with
  | none => s
  | some t =>
    if !extstack && !mmapOk then s
    else
      { s.setThread t (newThread joinable extstack) with
        pc := Function.update s.pc t .fresh
        threadList := s.threadList ++ [t]
        created := s.created ++ [t] }

/-- The first joiner on `joinwq` that wants `t` is woken. -/
def wakeJoiner (t : Tid) (s : State) : State :=
  match s.joinwq.find? (fun jw => jw.wanted = t) with
  | some jw => wake jw.thread s
  | none => s

/-- `exit_thread`, from the test of its gate: either one more turn of the
gate's loop or the move to the exited list, each ending in `schedule`. -/
def exitThread (s : State) : State :=
  let t := s.current
  if (s.thread t).mustjoin then
    (block t (wakeJoiner t (s.setThread t { s.thread t with joined := true }))).suspend .exitGate
  else
    let s' := clearRunnable t { s with threadList := s.threadList.erase t }
    { s' with exitedThreads := t :: s'.exitedThreads }.suspend .exited

/-- The loop of `join_thread` and what follows it. A freed thread's flags can
not be read. -/
def joinLoop (t : Tid) (s : State) : Except Abort State :=
  if t ∈ s.freed then .error .useAfterFree
  else if (s.thread t).joined then
    .ok (wake t (s.setThread t { s.thread t with mustjoin := false })).toUser
  else
    .ok ((block s.current
      { s with joinwq := s.joinwq ++ [{ thread := s.current, wanted := t }] }).suspend (.join t))

/-- `join_thread`. -/
def joinThread (t : Tid) (s : State) : Except Abort State :=
  if t ∈ s.freed then .error .useAfterFree
  else if (s.thread t).mustjoin then
    joinLoop t { s with joiner := Function.update s.joiner t (some s.current) }
  else .error .assertion

/-- The clocks `clock_sleep` tells apart. -/
inductive Clock where
  | realtime
  | monotonic
  | other
  deriving DecidableEq, Repr

/-- `nsleep` and `absnanosleep`: sleep until a deadline. -/
def sleepUntil (deadline : Int) (s : State) : State :=
  (clearRunnable s.current (setDeadline s.current deadline s)).suspend .sleep

/-- `clock_sleep`, with `tm` the reading `nsleep` takes of the clock. -/
def clockSleep (clk : Clock) (sec nsec tm : Int) (s : State) : State :=
  let nanosec := i64 (sec * 1000 * 1000 * 1000 + nsec)
  match clk with
  | .realtime => sleepUntil (i64 (tm + nanosec)) s
  | .monotonic => sleepUntil nanosec s
  | .other => s

end Frankenlibc.Threads

import Frankenlibc.Sysproxy.Copyin

/-!
# The threads that share one connection

The server thread and the workers of one connection, as one machine: the lock
for sending, the queue of waiters for responses, the drain before an exec, and
the disconnect. A step is a critical section of `spc_mtx`, with the unlocked
code up to the next one; the bytes `dosend` hands to the host and the `memset`
of `serv_handledisco` are steps of their own. A thread that sleeps on a
condition variable may wake at any time, signalled or not, and tests again.

Thread 0 is the server thread. The others are workers, numbered as they get
their items; what the rump kernel asks of a worker inside a system call is left
to the events. A waiter is on the stack of its thread, so the queue has the
numbers of the threads. `wire`, `tenures`, `heard` and `returns` are records
that no step reads: the bytes the host has taken, what came of each tenure of
the lock, the responses `kickwaiter` was called for, and how `waitresp`
returned.
-/
namespace Frankenlibc.Sysproxy

open Frankenlibc.Lib

namespace Conn

/-- `spc_ostatus`. -/
inductive Ostatus
  | free
  | busy
  | wanted
deriving DecidableEq, Repr

/-- Where a thread is that is in none of the calls modelled here: in the main
loop, inside a system call, or before its `spcrelease`. -/
inductive Place
  | loop
  | syscall
  | release
deriving DecidableEq, Repr

/-- A frame to be sent, whether its response is waited for, and where the
thread goes afterwards. -/
structure Job where
  frame : List UInt8
  asks : Bool
  next : Place
deriving DecidableEq, Repr

inductive Pc
  | idle (p : Place)
  /-- In `sendlockl`, asleep on `spc_cv`. -/
  | lockwait (notified : Bool) (j : Job)
  /-- Between `sendlockl` and `sendunlockl`, with `n` bytes sent. -/
  | sending (j : Job) (n : Nat)
  /-- In `waitresp`, asleep on `rw_cv`. -/
  | respwait (notified : Bool)
  /-- The server thread in `schedulework`, before its `spcref`. -/
  | schedule (type : SbaType)
  /-- The server thread before the `memset` of `serv_handledisco`. -/
  | wipe
  /-- `serv_handleexec` before its test, asleep on `spc_cv`, before it clears
  `spc_inexec`, and before it replies. -/
  | exec
  | execwait (notified : Bool)
  | execgo
  | execdone
  | gone
deriving DecidableEq, Repr

/-- A tenure of the lock for sending that has ended. -/
structure Tenure where
  frame : List UInt8
  sent : List UInt8
  ok : Bool
deriving DecidableEq, Repr

/-- A return of `waitresp`, with the waiter and the state it saw. -/
structure Return where
  rw : RespWait
  state : SpcState
  rv : Int

/-- A response: its number, and the payload as `rw_data` and `rw_dlen`. -/
structure Response where
  reqno : Nat
  data : Option Buf
  dlen : Nat

end Conn

open Conn in
/-- `struct spclient`, as its threads share it, and the threads. -/
structure Conn where
  state : SpcState
  refcnt : Int
  inexec : Bool
  ostatus : Ostatus
  nextreq : Nat
  queue : List Nat
  count : Nat
  pc : Nat → Pc
  rw : Nat → RespWait
  wire : List UInt8
  tenures : List Tenure
  heard : List Response
  returns : List Return

namespace Conn

/-- A connection that has just been accepted. -/
def init : Conn where
  state := .new
  refcnt := 1
  inexec := false
  ostatus := .free
  nextreq := 0
  queue := []
  count := 1
  pc k := if k = 0 then .idle .loop else .gone
  rw _ := doputwait 0
  wire := []
  tenures := []
  heard := []
  returns := []

inductive Event
  /-- A frame without a response: `send_error_resp`, `send_copyout_req`,
  `send_raise_req` and the replies. `last` says that the system call is over. -/
  | send (k : Nat) (frame : List UInt8) (last : Bool)
  /-- `copyin_req` or `anonmmap_req`. -/
  | request (k : Nat) (type : Nat) (body : List UInt8)
  /-- `nextreq`. -/
  | number (k : Nat)
  /-- `pthread_cond_wait` returns. -/
  | wake (k : Nat)
  /-- The host takes `n` bytes. -/
  | push (k : Nat) (n : Nat)
  /-- `dosend` is through or has given up. -/
  | unlock (k : Nat) (ok : Bool)
  | test (k : Nat)
  | clear (k : Nat)
  | release (k : Nat)
  /-- The server thread has a response, a handshake that succeeds, a system
  call or an exec. -/
  | resp (r : Response)
  | shake
  | call
  | execReq
  /-- `schedulework` has memory, or none. -/
  | spawn
  | nomem
  | disco
  | wipe

/-! ## Condition variables -/

/-- What a broadcast on `spc_cv` does to a thread. -/
def Pc.notify : Pc → Pc
  | .lockwait _ j => .lockwait true j
  | .execwait _ => .execwait true
  | pc => pc

/-- What a signal on its `rw_cv` does to a thread. -/
def Pc.ring : Pc → Pc
  | .respwait _ => .respwait true
  | pc => pc

def broadcast (s : Conn) : Conn := { s with pc := fun k => (s.pc k).notify }

def setPc (k : Nat) (pc : Pc) (s : Conn) : Conn := { s with pc := Function.update s.pc k pc }

/-! ## The lock for sending -/

/-- A round of `sendlockl`. -/
def sendlockl (k : Nat) (j : Job) (s : Conn) : Conn :=
  if s.ostatus ≠ .free then setPc k (.lockwait false j) { s with ostatus := .wanted }
  else setPc k (.sending j 0) { s with ostatus := .busy }

def sendunlockl (s : Conn) : Conn :=
  { (if s.ostatus = .wanted then broadcast s else s) with ostatus := .free }

/-! ## Waiters -/

/-- The part of `putwait` before `sendlockl`. -/
def putwait (k : Nat) (s : Conn) : Conn :=
  { s with
    rw := Function.update s.rw k (doputwait s.nextreq)
    queue := s.queue ++ [k]
    nextreq := u64 (s.nextreq + 1) }

/-- The frame of a request. -/
def reqFrame (reqno type : Nat) (body : List UInt8) : List UInt8 :=
  rspHdr (HDRSZ + body.length) reqno RUMPSP_REQ type 0 ++ body

/-- `TAILQ_REMOVE` of a thread's waiter. -/
def dequeue (k : Nat) (s : Conn) : Conn := { s with queue := s.queue.erase k }

/-- A round of the loop of `waitresp`, and its end. -/
def waitrespLoop (k : Nat) (s : Conn) : Conn :=
  if (s.rw k).done = false ∧ s.state ≠ .dying then setPc k (.respwait false) s
  else
    { setPc k (.idle .syscall) (dequeue k s) with
      returns := s.returns ++ [⟨s.rw k, s.state, waitresp s.state (s.rw k)⟩] }

/-- `kickwaiter` on a response. -/
def kick (r : Response) (s : Conn) : Conn :=
  match s.queue.find? fun k => (s.rw k).reqno = r.reqno with
  | none => s
  | some k =>
    setPc k (s.pc k).ring { s with
      rw := Function.update s.rw k
        { s.rw k with data := r.data, done := true, dlen := r.dlen } }

def kickall (s : Conn) : Conn :=
  { s with pc := fun k => if k ∈ s.queue then (s.pc k).ring else s.pc k }

/-! ## References and the exec -/

/-- A round of the loop of `serv_handleexec`. -/
def execTest (k : Nat) (s : Conn) : Conn :=
  if s.refcnt > 2 then setPc k (.execwait false) s else setPc k .execgo s

/-- `spcrelease`, as far as the connection lasts. -/
def spcrelease (k : Nat) (s : Conn) : Conn :=
  let s := { s with refcnt := s.refcnt - 1 }
  setPc k .gone (if s.inexec ∧ s.refcnt ≤ 2 then broadcast s else s)

/-! ## Steps -/

/-- Where a thread goes that sends a frame without a response. -/
def after (pc : Pc) (last : Bool) : Option Place :=
  match pc with
  | .idle .loop => some .loop
  | .idle .syscall => some (if last then .release else .syscall)
  | .execdone => some .release
  | _ => none

/-- The end of a tenure: `sendunlock`, `unputwait`, or the start of
`waitresp`. -/
def unlock (k : Nat) (ok : Bool) (j : Job) (n : Nat) (s : Conn) : Conn :=
  let s := sendunlockl { s with tenures := s.tenures ++ [⟨j.frame, j.frame.take n, ok⟩] }
  if j.asks then
    if ok then waitrespLoop k s else setPc k (.idle .syscall) (dequeue k s)
  else setPc k (.idle j.next) s

/-- The critical section of `serv_handledisco`. -/
def discoLock (s : Conn) : Conn := setPc 0 .wipe (sendunlockl (kickall { s with state := .dying }))

/-- The `memset`. -/
def discoWipe (s : Conn) : Conn :=
  setPc 0 (.idle .release) { s with inexec := false, ostatus := .free, nextreq := 0 }

/-- A new worker with an item of its own. -/
def hire (type : SbaType) (s : Conn) : Conn :=
  { s with
    refcnt := s.refcnt + 1
    count := s.count + 1
    pc := Function.update (Function.update s.pc 0 (.idle .loop)) s.count
      (match type with | .syscall => .idle .syscall | .exec => .exec) }

def step (s : Conn) (e : Event) : Option Conn :=
  match e with
  | .send k frame last => (after (s.pc k) last).map fun next => sendlockl k ⟨frame, false, next⟩ s
  | .request k type body =>
    if s.pc k = .idle .syscall then
      some (sendlockl k ⟨reqFrame s.nextreq type body, true, .syscall⟩ (putwait k s))
    else none
  | .number k =>
    if s.pc k = .idle .syscall then some { s with nextreq := u64 (s.nextreq + 1) } else none
  | .wake k =>
    match s.pc k with
    | .lockwait _ j => some (sendlockl k j s)
    | .respwait _ => some (waitrespLoop k s)
    | .execwait _ => some (execTest k s)
    | _ => none
  | .push k n =>
    match s.pc k with
    | .sending j m =>
      if m + n ≤ j.frame.length then
        some { setPc k (.sending j (m + n)) s with wire := s.wire ++ (j.frame.drop m).take n }
      else none
    | _ => none
  | .unlock k ok =>
    match s.pc k with
    | .sending j n =>
      if ok = decide (n = j.frame.length) then some (unlock k ok j n s) else none
    | _ => none
  | .test k => if s.pc k = .exec then some (execTest k s) else none
  | .clear k => if s.pc k = .execgo then some (setPc k .execdone { s with inexec := false }) else none
  | .release k => if s.pc k = .idle .release then some (spcrelease k s) else none
  | .resp r =>
    if s.pc 0 = .idle .loop then some { kick r s with heard := s.heard ++ [r] } else none
  | .shake =>
    if s.pc 0 = .idle .loop ∧ s.state = .new then some { s with state := .running } else none
  | .call => if s.pc 0 = .idle .loop then some (setPc 0 (.schedule .syscall) s) else none
  | .execReq =>
    if s.pc 0 = .idle .loop ∧ s.inexec = false then
      some (setPc 0 (.schedule .exec) { s with inexec := true })
    else none
  | .spawn =>
    match s.pc 0 with
    | .schedule type => some (hire type s)
    | _ => none
  | .nomem =>
    match s.pc 0 with
    | .schedule _ => some (setPc 0 (.idle .loop) s)
    | _ => none
  | .disco => if s.pc 0 = .idle .loop then some (discoLock s) else none
  | .wipe => if s.pc 0 = .wipe then some (discoWipe s) else none

end Conn

end Frankenlibc.Sysproxy

import Frankenlibc.Lib.Holdings
import Frankenlibc.Sysproxy.Moves

/-!
# The payload buffers of a connection

`readframe` allocates a buffer for the payload of a frame and keeps it in
`spc_buf` until the frame is complete. From there it goes to the waiter of a
response, to a work item, or back to the heap. The threads are those of
`Conn`; here every pointer to a payload buffer is followed as well, with the
buffers numbered as they are allocated.

A pointer that is copied and then cleared at its old place, as by `kickwaiter`
and `schedulework`, is passed on in one step. A waiter is on the stack of its
thread, and so is what `copyin_req` or `anonmmap_req` has returned of it: until
the caller frees it, `rw_data` stands for both. `kickwaiter` is called for
responses only, so `rw_error` stays 0 and `waitresp` fails only for a
connection that is dying; the callers then leave the data where it is.
-/
namespace Frankenlibc.Sysproxy

open Frankenlibc.Lib Conn

/-- What points to a payload buffer. -/
inductive Holder
  | spcBuf
  /-- The waiter of thread `k`, or its caller. -/
  | rwData (k : Nat)
  /-- The work item of thread `k`. -/
  | sbaData (k : Nat)
deriving DecidableEq, Repr

/-- What the server thread knows of the frame it reads. -/
inductive Rx
  | reading
  | frame
  | failed
deriving DecidableEq, Repr

/-- A connection with its receiver and its buffers. Of `recv` only `spc_hdr`,
`spc_buf` and `spc_off` are used. -/
structure Estate where
  conn : Conn
  recv : Client
  rx : Rx
  book : Holdings Holder

inductive BufEvent
  /-- `readframe`; `alloc` says whether its `malloc` succeeds. -/
  | read (alloc : Bool) (h : Host)
  /-- `kickwaiter`. -/
  | resp
  /-- `spcfreebuf` in a handler that does not schedule work. -/
  | discard
  /-- The other steps of the connection. -/
  | conn (e : Conn.Event)
  /-- `free(rdata)`, in `sp_copyin` and `rumpuser_sp_anonmmap`. -/
  | free (k : Nat)
  /-- `free(sba->sba_data)`. -/
  | freeData (k : Nat)

namespace Estate

/-- A connection that has just been accepted. -/
def init : Estate := ⟨.init, freshServer.spc, .reading, .blank⟩

/-! ## Receiving -/

/-- `readframe` has called `malloc`: the header became complete and announces a
payload. -/
def mallocs (c c' : Client) : Bool :=
  c.off < HDRSZ && HDRSZ ≤ c'.off && HDRSZ < rspLen c'.hdr

def Rx.ofRet : Ret → Rx
  | .again => .reading
  | .frame => .frame
  | .fail => .failed

/-- The `memset` of `serv_handledisco`, as far as the receiver is concerned. -/
def zero (c : Client) : Client := { c with hdr := fun _ => 0, buf := none, off := 0 }

/-- The response in the receiver. -/
def response (c : Client) : Response := ⟨rspReqno c.hdr, c.buf, sub64 c.off HDRSZ⟩

/-- The waiter `kickwaiter` finds. -/
def waiter (s : Estate) : Option Nat :=
  s.conn.queue.find? fun k => (s.conn.rw k).reqno = rspReqno s.recv.hdr

/-! ## Which step a frame leads to -/

/-- A complete request. -/
def request (s : Estate) : Bool := s.rx = .frame && rspClass s.recv.hdr = RUMPSP_REQ

/-- `handlereq` ends in `schedulework(spc, SBA_SYSCALL)`. -/
def syscalls (s : Estate) : Bool :=
  s.request && s.conn.state ≠ .new && rspType s.recv.hdr = RUMPSP_SYSCALL

/-- `handlereq` ends in `schedulework(spc, SBA_EXEC)`, unless there is an exec
already. -/
def execs (s : Estate) : Bool :=
  s.request && s.conn.state ≠ .new && rspType s.recv.hdr = RUMPSP_HANDSHAKE &&
    rspWord s.recv.hdr = HANDSHAKE_EXEC

/-- A handshake that may succeed. -/
def shakes (s : Estate) : Bool :=
  s.request && rspType s.recv.hdr = RUMPSP_HANDSHAKE &&
    (rspWord s.recv.hdr = HANDSHAKE_GUEST || rspWord s.recv.hdr = HANDSHAKE_FORK)

/-- The steps of the server thread follow from what it has read, and a thread
with data to free frees it first. -/
def allows (s : Estate) (e : Conn.Event) : Bool :=
  (match e with
    | .resp _ => false
    | .disco => s.rx = .failed
    | .call => s.syscalls
    | .execReq => s.execs
    | .shake => s.shakes
    | _ => true) &&
  (s.conn.pc e.actor ≠ .idle .syscall || (s.book.held (.rwData e.actor)).isNone)

/-! ## What becomes of the buffers -/

/-- `waitresp` returns, or `unputwait` has removed the waiter: what the caller
does not get stays behind. -/
def leaves (s : Estate) (k : Nat) : Option (Deal Holder) :=
  if s.conn.state = .dying then some (.forget (.rwData k)) else none

/-- What a step of the connection does to the pointers. -/
def connDeal (s : Estate) : Conn.Event → Option (Deal Holder)
  -- `rw_data = NULL` in `doputwait`
  | .request k _ _ => some (.forget (.rwData k))
  | .unlock k ok =>
    match s.conn.pc k with
    | .sending j _ =>
      if j.asks then if ok then s.leaves k else some (.forget (.rwData k)) else none
    | _ => none
  | .wake k =>
    match s.conn.pc k with
    | .respwait _ => s.leaves k
    | _ => none
  | .spawn => some (.pass .spcBuf (.sbaData s.conn.count))
  | .nomem => some (.free .spcBuf)
  | .wipe => some (.forget .spcBuf)
  | _ => none

/-- What a step does to the pointers. -/
def dealOf (s : Estate) : BufEvent → Option (Deal Holder)
  | .read alloc h =>
    if mallocs s.recv (readframe alloc s.recv h).2.1 then
      some (if alloc then .make .spcBuf else .forget .spcBuf)
    else none
  | .resp =>
    match s.waiter with
    | some k => some (.pass .spcBuf (.rwData k))
    | none => some (.free .spcBuf)
  | .discard => some (.free .spcBuf)
  | .conn e => s.connDeal e
  | .free k => some (.free (.rwData k))
  | .freeData k => some (.free (.sbaData k))

/-! ## Steps -/

/-- The receiver after a step of the connection. -/
def connRecv (s : Estate) : Conn.Event → Client × Rx
  | .spawn => (spcresetbuf s.recv, .reading)
  | .nomem => (spcfreebuf s.recv, .reading)
  | .wipe => (zero s.recv, s.rx)
  | _ => (s.recv, s.rx)

/-- The connection and the receiver after a step. -/
def control (s : Estate) : BufEvent → Option (Conn × Client × Rx)
  | .read alloc h =>
    if s.conn.pc 0 = .idle .loop ∧ s.rx = .reading then
      let r := readframe alloc s.recv h
      some (s.conn, r.2.1, Rx.ofRet r.1)
    else none
  | .resp =>
    if s.rx = .frame ∧ rspClass s.recv.hdr = RUMPSP_RESP then
      (Conn.step s.conn (.resp (response s.recv))).map fun c =>
        (c, spcresetbuf s.recv, .reading)
    else none
  | .discard =>
    if s.conn.pc 0 = .idle .loop ∧ s.rx = .frame ∧ rspClass s.recv.hdr ≠ RUMPSP_RESP ∧
        s.syscalls = false then
      some (s.conn, spcfreebuf s.recv, .reading)
    else none
  | .conn e =>
    if s.allows e then (Conn.step s.conn e).map fun c => (c, s.connRecv e) else none
  | .free k =>
    if s.conn.pc k = .idle .syscall ∧ (s.book.held (.rwData k)).isSome then
      some (s.conn, s.recv, s.rx)
    else none
  | .freeData k =>
    if s.conn.pc k = .gone ∧ (s.book.held (.sbaData k)).isSome then
      some (s.conn, s.recv, s.rx)
    else none

/-- The pointers after a step. -/
def dealt (s : Estate) (e : BufEvent) : Holdings Holder :=
  match s.dealOf e with
  | some d => s.book.deal d
  | none => s.book

def step (s : Estate) (e : BufEvent) : Option Estate :=
  (s.control e).map fun c => ⟨c.1, c.2.1, c.2.2, s.dealt e⟩

end Estate

end Frankenlibc.Sysproxy

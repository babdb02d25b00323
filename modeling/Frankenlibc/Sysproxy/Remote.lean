import Frankenlibc.Lib.Simulation
import Frankenlibc.Sysproxy.Copyin
import Frankenlibc.Sysproxy.Messages

/-!
# A process that makes its system calls at another one

The client of `librumpclient` sends the arguments of a system call and waits. A
worker of the server runs the call in the kernel. Where the kernel wants bytes
of the process, or has bytes for it, the worker sends a request of its own on
the same connection: it waits for the reply to a `copyin`, and does not wait for
a `copyout`. Whichever thread of the client is reading serves these requests,
until the response to its own call comes.

The connection is two streams of bytes. Each side takes from its stream what
`readframe` makes of it, in any portions. `dosend` hands a message over as a
whole: the send lock keeps other senders away until it has returned.

`Local` is what all of this stands for: a kernel that reads and writes the
memory of the process itself.
-/
namespace Frankenlibc.Sysproxy.Remote

open Frankenlibc.Lib

/-! ## The process -/

/-- What a system call asks of the process it is made for; `copyout` also stands
for `rumpuser_sp_copyoutstr`. The lengths are such that a message can announce
them. -/
inductive Ask
  | copyin (raddr : UInt64) (len : Nat) (hlen : HDRSZ + len < 18446744073709551616)
  | copyinstr (raddr : UInt64) (len : Nat) (hlen : HDRSZ + len < 18446744073709551616)
  | copyout (raddr : UInt64) (data : List UInt8)
      (hdata : HDRSZ + 16 + data.length < 18446744073709551616)
  | anonmmap (howmuch : UInt64)
  | raise (signo : UInt32)
deriving DecidableEq

/-- How it is answered: `fault` is `EFAULT`, and the address of a mapping that
failed is `NULL`. -/
inductive Answer
  | bytes (bs : List UInt8)
  | addr (a : UInt64)
  | done
  | fault
deriving DecidableEq

/-- The memory of the process, the lengths it has mapped and the signals it has
raised. -/
structure Proc where
  mem : Bytes
  maps : List UInt64
  raised : List UInt32

/-- The client's host: what `mmap` returns after the mappings made so far, with
`NULL` for `MAP_FAILED`, and `rumpuser__sig_rump2host`. -/
structure Os where
  mmap : List UInt64 → UInt64 → UInt64
  sig : UInt32 → UInt32

/-- `MIN(dlen, strlen(data) + 1)`. -/
def strSpan (m : Bytes) : Nat → Nat → Nat
  | _, 0 => 0
  | a, n + 1 => if m a = 0 then 1 else strSpan m (a + 1) n + 1

/-- The process serves a request itself. -/
def Proc.serve (os : Os) (p : Proc) : Ask → Proc × Answer
  | .copyin raddr len _ => (p, .bytes (p.mem.slice raddr.toNat len))
  | .copyinstr raddr len _ =>
    (p, .bytes (p.mem.slice raddr.toNat (strSpan p.mem raddr.toNat len)))
  | .copyout raddr data _ => ({ p with mem := p.mem.blit raddr.toNat data }, .done)
  | .anonmmap howmuch =>
    ({ p with maps := p.maps ++ [howmuch] }, .addr (os.mmap p.maps howmuch))
  | .raise signo => ({ p with raised := p.raised ++ [os.sig signo] }, .done)

/-- The requests one after the other. -/
def Proc.serveAll (os : Os) (p : Proc) (asks : List (Nat × Ask)) : Proc :=
  asks.foldl (fun p a => (p.serve os a.2).1) p

/-! ## The kernel -/

/-- What a system call does next: a step of its own, a request, or it is over. -/
inductive Act (κ : Type)
  | inner (k : κ)
  | ask (a : Ask)
  | ret (error : UInt32) (retval : UInt64 × UInt64)

/-- A kernel that runs system calls under their numbers. The calls share its
state. -/
structure Kernel (κ : Type) where
  enter : κ → Nat → (sysnum : Nat) → (data : List UInt8) → κ
  next : κ → Nat → Act κ
  answer : κ → Nat → Answer → κ

/-- What a thread got from a system call. -/
structure Result where
  thread : Nat
  call : Nat
  error : Nat
  retval : Nat × Nat
deriving DecidableEq

/-! ## System calls of the process itself -/

inductive LocalJob
  | absent
  | queued (sysnum : Nat) (data : List UInt8)
  | running
  | answered (a : Answer)
  | ended (error : Nat) (retval : Nat × Nat)

structure Local (κ : Type) where
  kern : κ
  proc : Proc
  next : Nat
  thread : Nat → Option Nat
  job : Nat → LocalJob
  results : List Result

inductive LocalEvent
  | call (t : Nat) (sysnum : UInt32) (data : List UInt8)
  | enter (c : Nat) (lwp : Option UInt32)
  | work (c : Nat)
  | resume (c : Nat)
  | ret (t : Nat)
  | poke (a : Nat) (bs : List UInt8)

/-- What the program that makes the system calls does and sees. -/
inductive Seen
  | call (t : Nat) (sysnum : UInt32) (data : List UInt8)
  | ret (t : Nat)
  | poke (a : Nat) (bs : List UInt8)
deriving DecidableEq

def LocalEvent.seen : LocalEvent → Option Seen
  | .call t sysnum data => some (.call t sysnum data)
  | .ret t => some (.ret t)
  | .poke a bs => some (.poke a bs)
  | _ => none

/-- `retval` of a call that got no lwp: `retval[0] = -1`. -/
def noLwp : Nat × Nat := (18446744073709551615, 0)

/-- A system call is made, enters the kernel if it gets an lwp, and reads and
writes the process as it goes. A thread that has its result may make another. -/
def localStep {κ : Type} (K : Kernel κ) (os : Os) (s : Local κ) : LocalEvent → Option (Local κ)
  | .call t sysnum data =>
    if s.thread t = none then
      some { s with
        next := s.next + 1
        thread := Function.update s.thread t (some s.next)
        job := Function.update s.job s.next (.queued sysnum.toNat data) }
    else none
  | .enter c lwp =>
    match s.job c, lwp with
    | .queued sysnum data, none =>
      some { s with
        kern := K.enter s.kern c sysnum data
        job := Function.update s.job c .running }
    | .queued _ _, some rv => some { s with job := Function.update s.job c (.ended rv.toNat noLwp) }
    | _, _ => none
  | .work c =>
    match s.job c with
    | .running =>
      match K.next s.kern c with
      | .inner k => some { s with kern := k }
      | .ask a =>
        let r := s.proc.serve os a
        some { s with proc := r.1, job := Function.update s.job c (.answered r.2) }
      | .ret error retval =>
        some { s with
          job := Function.update s.job c
            (.ended error.toNat (retval.1.toNat, retval.2.toNat)) }
    | _ => none
  | .resume c =>
    match s.job c with
    | .answered a =>
      some { s with
        kern := K.answer s.kern c a
        job := Function.update s.job c .running }
    | _ => none
  | .ret t =>
    match s.thread t with
    | none => none
    | some c =>
      match s.job c with
      | .ended error retval =>
        some { s with
          thread := Function.update s.thread t none
          results := s.results ++ [⟨t, c, error, retval⟩] }
      | _ => none
  | .poke a bs => some { s with proc := { s.proc with mem := s.proc.mem.blit a bs } }

/-! ## The client -/

abbrev RUMPSP_COPYOUTSTR : Nat := 5

/-- The message of `syscall_req`. -/
def syscallReq (reqno : Nat) (sysnum : UInt32) (data : List UInt8) : List UInt8 :=
  rspHdr (HDRSZ + data.length) reqno RUMPSP_REQ RUMPSP_SYSCALL sysnum.toNat ++ data

/-- `send_copyin_resp`. -/
def sendCopyinResp (reqno data dlen : Nat) (wantstr : Bool) (p : Proc) : List UInt8 :=
  let dlen := if wantstr then strSpan p.mem data dlen else dlen
  rspHdr (HDRSZ + dlen) reqno RUMPSP_RESP RUMPSP_COPYIN 0 ++ p.mem.slice data dlen

/-- `send_anonmmap_resp`. -/
def sendAnonmmapResp (reqno : Nat) (addr : UInt64) : List UInt8 :=
  rspHdr (HDRSZ + 8) reqno RUMPSP_RESP RUMPSP_ANONMMAP 0 ++ Bytes.word 8 addr.toNat

/-- `handlereq` of the client: what becomes of the process, and what is sent.
It aborts on a type it does not know, and crashes if the payload is missing. -/
def cliHandlereq (os : Os) (c : Client) (p : Proc) : Option (Proc × List UInt8) :=
  let reqtype := rspType c.hdr
  if reqtype = RUMPSP_RAISE then
    some ({ p with raised := p.raised ++ [os.sig (UInt32.ofNat (rspWord c.hdr))] }, [])
  else
    match c.buf with
    | none => none
    | some b =>
      let rcpLen := b.data.load 0 8
      let rcpAddr := b.data.load 8 8
      if reqtype = RUMPSP_COPYIN ∨ reqtype = RUMPSP_COPYINSTR then
        some (p, sendCopyinResp (rspReqno c.hdr) rcpAddr rcpLen
          (decide (reqtype = RUMPSP_COPYINSTR)) p)
      else if reqtype = RUMPSP_COPYOUT ∨ reqtype = RUMPSP_COPYOUTSTR then
        some ({ p with mem := p.mem.blit rcpAddr (b.data.slice 16 rcpLen) }, [])
      else if reqtype = RUMPSP_ANONMMAP then
        let maplen := UInt64.ofNat (b.data.load 0 8)
        some ({ p with maps := p.maps ++ [maplen] },
          sendAnonmmapResp (rspReqno c.hdr) (os.mmap p.maps maplen))
      else none

/-! ## The server's workers -/

/-- The message a request of the kernel goes out as. `send_raise_req` sets no
`rsp_reqno`. -/
def Ask.message (reqno junk : Nat) : Ask → Message
  | .copyin raddr len _ => .copyinReq reqno false raddr.toNat len
  | .copyinstr raddr len _ => .copyinReq reqno true raddr.toNat len
  | .copyout raddr data h => .copyoutReq reqno raddr.toNat data h
  | .anonmmap howmuch => .anonmmapReq reqno howmuch.toNat
  | .raise signo => .raiseReq junk signo.toNat

/-- The requests whose sender waits for a reply. -/
def Ask.waits : Ask → Bool
  | .copyin _ _ _ => true
  | .copyinstr _ _ _ => true
  | .anonmmap _ => true
  | _ => false

/-- The requests that take a number from `spc_nextreq`. -/
def Ask.numbered : Ask → Bool
  | .raise _ => false
  | _ => true

/-- The bytes `memcpy` finds behind `rdata`. -/
def fetch (rdata : Option Buf) (n : Nat) : Option (List UInt8) :=
  match rdata with
  | none => if n = 0 then some [] else none
  | some b => some (b.data.slice 0 n)

/-- What the caller of `sp_copyin` or `rumpuser_sp_anonmmap` is told once its
waiter is done; a copy from `NULL` crashes. -/
def reply (state : SpcState) (rw : RespWait) : Ask → Option Answer
  | .copyin _ len _ =>
    let r := copyinReq 0 state rw len false
    if r.1 ≠ 0 then some .fault else (fetch r.2.1 r.2.2).map .bytes
  | .copyinstr _ len _ =>
    let r := copyinReq 0 state rw len true
    if r.1 ≠ 0 then some .fault else (fetch r.2.1 r.2.2).map .bytes
  | .anonmmap _ =>
    let r := anonmmapReq 0 state rw
    if r.1 ≠ 0 then some .fault else r.2.map fun b => .addr (UInt64.ofNat (b.data.load 0 PTRSZ))
  | _ => none

/-! ## Both of them -/

/-- Where a system call that has left the work list is. -/
inductive Job
  | absent
  | running
  | waiting (reqno : Nat) (ask : Ask)
  | ended
deriving DecidableEq

/-- Both sides of a connection whose handshake is done. `up` and `down` are the
bytes that have been sent and not been read, `asked` and `served` record the
requests the workers have sent, with the system calls they were sent for, and
how many of them the client has served. -/
structure Sys (κ : Type) where
  proc : Proc
  cli : Client
  cnext : Nat
  thread : Nat → Option Nat
  results : List Result
  up : List UInt8
  down : List UInt8
  kern : κ
  srv : Server
  snext : Nat
  job : Nat → Job
  asked : List (Nat × Ask)
  served : Nat

inductive Event
  | call (t : Nat) (sysnum : UInt32) (data : List UInt8)
  | cread (t : Nat) (cuts : List Cut)
  | sread (cuts : List Cut)
  | start (lwp : Option UInt32) (pad : Nat)
  | work (c junk : Nat)
  | resume (c : Nat)
  | ret (t : Nat)
  | poke (a : Nat) (bs : List UInt8)

def Event.seen : Event → Option Seen
  | .call t sysnum data => some (.call t sysnum data)
  | .ret t => some (.ret t)
  | .poke a bs => some (.poke a bs)
  | _ => none

variable {κ : Type} (K : Kernel κ) (os : Os)

/-- `putwait` and `dosend` in `syscall_req`. -/
def call (t : Nat) (sysnum : UInt32) (data : List UInt8) (s : Sys κ) : Sys κ :=
  { s with
    cli := { s.cli with respwait := s.cli.respwait ++ [doputwait s.cnext] }
    cnext := s.cnext + 1
    thread := Function.update s.thread t (some s.cnext)
    up := s.up ++ syscallReq s.cnext sysnum data }

/-- The first waiter for a number, if it is done. -/
def doneWaiter (reqno : Nat) (rws : List RespWait) : Option RespWait :=
  (rws.find? fun rw => rw.reqno = reqno).filter fun rw => rw.done

/-- The inner `switch` of `cliwaitresp` on a complete frame. A frame of another
class stays where it is. -/
def cliFrame (s : Sys κ) : Option (Sys κ) :=
  if rspClass s.cli.hdr = RUMPSP_RESP ∨ rspClass s.cli.hdr = RUMPSP_ERROR then
    some { s with cli := kickwaiter s.cli }
  else if rspClass s.cli.hdr = RUMPSP_REQ then
    match cliHandlereq os s.cli s.proc with
    | none => none
    | some r => some { s with
        cli := spcfreebuf s.cli
        proc := r.1
        up := s.up ++ r.2
        served := s.served + 1 }
  else some s

/-- `readframe` in `cliwaitresp`, by a thread that waits. -/
def cread (t : Nat) (cuts : List Cut) (s : Sys κ) : Option (Sys κ) :=
  match s.thread t with
  | none => none
  | some c =>
    if (doneWaiter c s.cli.respwait).isSome then none
    else
      match readframe true s.cli ⟨s.down, cuts⟩ with
      | (.again, cli, h) => some { s with cli := cli, down := h.pending }
      | (.fail, _, _) => none
      | (.frame, cli, h) => cliFrame os { s with cli := cli, down := h.pending }

/-- `readframe` in the server's main loop, and what it does with a frame; there
is memory for the item of work. -/
def sread (cuts : List Cut) (s : Sys κ) : Option (Sys κ) :=
  match readframe true s.srv.spc ⟨s.up, cuts⟩ with
  | (.again, spc, h) => some { s with srv := { s.srv with spc := spc }, up := h.pending }
  | (.fail, _, _) => none
  | (.frame, spc, h) =>
    match dispatch { s.srv with spc := spc, script := [.malloc true] } with
    | .error _ => none
    | .ok w => some { s with srv := w, up := h.pending }

/-- `send_syscall_resp` of a call, and `spcrelease` by its worker. -/
def respond (c error pad : Nat) (retval : Nat × Nat) (s : Sys κ) : Sys κ :=
  { s with
    down := s.down ++ (Message.syscallResp c error pad retval).iov.flatten
    job := Function.update s.job c .ended
    srv := onSpc (fun spc => { spc with refcnt := spc.refcnt - 1 }) s.srv }

/-- A worker takes the first item of work; `lwp` is the error of
`lwproc_newlwp`. -/
def start (lwp : Option UInt32) (pad : Nat) (s : Sys κ) : Option (Sys κ) :=
  match s.srv.wrklist with
  | [] => none
  | sba :: rest =>
    let c := rspReqno sba.hdr
    let s := { s with srv := { s.srv with wrklist := rest } }
    match lwp with
    | some rv => some (respond c rv.toNat pad noLwp s)
    | none => some { s with
        kern := K.enter s.kern c (rspWord sba.hdr) (sba.data.elim [] fun b => b.data.slice 0 b.size)
        job := Function.update s.job c .running }

/-- A request goes out: `copyin_req`, `anonmmap_req`, `send_copyout_req` or
`send_raise_req`. The last two return at once. -/
def ask (c junk : Nat) (a : Ask) (s : Sys κ) : Sys κ :=
  { s with
    down := s.down ++ (a.message s.snext junk).iov.flatten
    asked := s.asked ++ [(c, a)]
    snext := if a.numbered then s.snext + 1 else s.snext
    srv := if a.waits then
        onSpc (fun spc => { spc with respwait := spc.respwait ++ [doputwait s.snext] }) s.srv
      else s.srv
    job := if a.waits then Function.update s.job c (.waiting s.snext a) else s.job
    kern := if a.waits then s.kern else K.answer s.kern c .done }

/-- A worker goes on with its system call. -/
def work (c junk : Nat) (s : Sys κ) : Option (Sys κ) :=
  if s.job c = .running then
    match K.next s.kern c with
    | .inner k => some { s with kern := k }
    | .ask a => some (ask K c junk a s)
    | .ret error retval => some (respond c error.toNat junk (retval.1.toNat, retval.2.toNat) s)
  else none

/-- `waitresp` returns to a worker. -/
def resume (c : Nat) (s : Sys κ) : Option (Sys κ) :=
  match s.job c with
  | .waiting reqno a =>
    match doneWaiter reqno s.srv.spc.respwait with
    | none => none
    | some rw =>
      match reply s.srv.spc.state rw a with
      | none => none
      | some x => some { s with
          srv := onSpc (fun spc => { spc with
            respwait := spc.respwait.eraseP fun rw => rw.reqno = reqno }) s.srv
          kern := K.answer s.kern c x
          job := Function.update s.job c .running }
  | _ => none

/-- The end of `rumpclient_syscall`. -/
def ret (t : Nat) (s : Sys κ) : Option (Sys κ) :=
  match s.thread t with
  | none => none
  | some c =>
    match doneWaiter c s.cli.respwait with
    | none => none
    | some rw =>
      match rw.data with
      | none => none
      | some b => some { s with
          cli := { s.cli with
            respwait := s.cli.respwait.eraseP fun rw => rw.reqno = c }
          thread := Function.update s.thread t none
          results := s.results ++
            [⟨t, c, b.data.load 0 4, (b.data.load 8 8, b.data.load 16 8)⟩] }

def step (s : Sys κ) : Event → Option (Sys κ)
  | .call t sysnum data =>
    if s.thread t = none ∧ HDRSZ + data.length < 18446744073709551616 then
      some (call t sysnum data s)
    else none
  | .cread t cuts => cread os t cuts s
  | .sread cuts => sread cuts s
  | .start lwp pad => start K lwp pad s
  | .work c junk => work K c junk s
  | .resume c => resume K c s
  | .ret t => ret t s
  | .poke a bs => some { s with proc := { s.proc with mem := s.proc.mem.blit a bs } }

/-- The bytes of the process that a request is about do not meet the `n` bytes
at `x`. -/
def Ask.apart (x n : Nat) : Ask → Prop
  | .copyin raddr len _ => x + n ≤ raddr.toNat ∨ raddr.toNat + len ≤ x
  | .copyinstr raddr len _ => x + n ≤ raddr.toNat ∨ raddr.toNat + len ≤ x
  | .copyout raddr data _ => x + n ≤ raddr.toNat ∨ raddr.toNat + data.length ≤ x
  | _ => True

instance (x n : Nat) (a : Ask) : Decidable (a.apart x n) :=
  match a with
  | .copyin raddr len _ => inferInstanceAs (Decidable (x + n ≤ raddr.toNat ∨ raddr.toNat + len ≤ x))
  | .copyinstr raddr len _ =>
    inferInstanceAs (Decidable (x + n ≤ raddr.toNat ∨ raddr.toNat + len ≤ x))
  | .copyout raddr data _ =>
    inferInstanceAs (Decidable (x + n ≤ raddr.toNat ∨ raddr.toNat + data.length ≤ x))
  | .anonmmap _ => inferInstanceAs (Decidable True)
  | .raise _ => inferInstanceAs (Decidable True)

/-- Reads bring bytes or `EAGAIN`, no counter has gone through all numbers, and
a thread that writes to the memory itself does not write where a request that
has been sent and not been served reads or writes. -/
def orderly (s : Sys κ) : Event → Prop
  | .call _ _ _ => s.cnext < 18446744073709551616
  | .cread _ cuts => ∀ d ∈ cuts, d.flows
  | .sread cuts => ∀ d ∈ cuts, d.flows
  | .work _ _ => s.snext < 18446744073709551616
  | .poke a bs => ∀ p ∈ s.asked.drop s.served, p.2.apart a bs.length
  | _ => True

instance (s : Sys κ) (e : Event) : Decidable (orderly s e) :=
  match e with
  | .call _ _ _ => inferInstanceAs (Decidable (s.cnext < 18446744073709551616))
  | .cread _ cuts => inferInstanceAs (Decidable (∀ d ∈ cuts, d.flows))
  | .sread cuts => inferInstanceAs (Decidable (∀ d ∈ cuts, d.flows))
  | .work _ _ => inferInstanceAs (Decidable (s.snext < 18446744073709551616))
  | .poke a bs => inferInstanceAs (Decidable (∀ p ∈ s.asked.drop s.served, p.2.apart a bs.length))
  | .start _ _ => inferInstanceAs (Decidable True)
  | .resume _ => inferInstanceAs (Decidable True)
  | .ret _ => inferInstanceAs (Decidable True)

/-- Nothing has been sent since the handshake. -/
structure Fresh (s : Sys κ) : Prop where
  cli : Reset s.cli
  srv : Reset s.srv.spc
  running : s.srv.spc.state = .running
  idle : ∀ t, s.thread t = none
  quiet : s.up = [] ∧ s.down = [] ∧ s.srv.wrklist = [] ∧ s.cli.respwait = [] ∧
    s.srv.spc.respwait = []
  none : ∀ c, s.job c = .absent
  records : s.asked = [] ∧ s.served = 0 ∧ s.results = []

/-- The same process, making its own system calls. -/
def Sys.alone (s : Sys κ) : Local κ where
  kern := s.kern
  proc := s.proc
  next := s.cnext
  thread := fun _ => none
  job := fun _ => .absent
  results := []

end Frankenlibc.Sysproxy.Remote

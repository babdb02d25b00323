import Frankenlibc.Sysproxy.Wire

/-!
# The server thread of `librumpuser/sysproxy.c`

What the thread does with one complete frame of one client: `handlereq`,
`schedulework`, `kickwaiter`, and the replies they send through `dosend`. The
calls that leave the file, to the rump kernel, the host and the heap, take
their results from a script; a script that does not fit the calls made is no
execution.

The rump kernel is reduced to its lwps: which exist, to which process they
belong, and which one is current in this thread. The fields `temps`, `releases`
and `deeds` are records: the lwps `dosend` has created, for each call of
`lwproc_release` the lwp its caller had switched to and the one it was applied
to, and the calls and stores a request leads to.
-/
namespace Frankenlibc.Sysproxy

open Frankenlibc.Lib

/-- The values of `errno` the code tells apart. -/
inductive Errno
  | again
  | intr
  | pipe
  | notconn
  | other (n : Nat)
deriving DecidableEq, Repr

/-- Results of calls that leave the file, in the order of the calls. -/
inductive Outcome
  | rfork (ok : Bool)
  | newlwp (ok : Bool)
  | sent (n : Nat)
  | sendErr (e : Errno)
  | polled
  | pollErr (e : Errno)
  | malloc (ok : Bool)
  | random (auth : List UInt8)
deriving DecidableEq, Repr

/-- Flags of `lwproc_rfork`: what becomes of the open files. -/
inductive Rfork
  | clear
  | share
  | copy
deriving DecidableEq, Repr

/-- `comm[commlen] = 0`: the index, and the size of `comm` unless it is `NULL`. -/
structure Store where
  index : Nat
  size : Option Nat
deriving DecidableEq, Repr

inductive Deed
  | store (x : Store)
  | rfork (flags : Rfork)
  | lwpexit
  | schedulework
deriving DecidableEq, Repr

/-- Why a frame has no further effect: a store through `NULL`, with the record up
to it, or a script that does not fit. -/
inductive Stop
  | crash (deeds : List Deed)
  | stuck
deriving DecidableEq, Repr

/-- `struct prefork`. -/
structure Prefork where
  auth : List UInt8
  lwp : Lwp
deriving DecidableEq, Repr

/-- `enum sbatype`. -/
inductive SbaType
  | syscall
  | exec
deriving DecidableEq, Repr

/-- `struct servbouncearg`. -/
structure Sba where
  type : SbaType
  hdr : Bytes
  data : Option Buf

/-- The server thread and the client it serves. -/
structure Server where
  spc : Client
  preforks : List Prefork
  wrklist : List Sba
  nworker : Nat
  cur : Option Lwp
  lwps : List (Lwp × Nat)
  fresh : Lwp
  freshpid : Nat
  wire : List UInt8
  script : List Outcome
  temps : List Lwp
  releases : List (Option Lwp × Option Lwp)
  deeds : List Deed

/-- A connection that has just been accepted. -/
def freshServer : Server where
  spc := ⟨.new, 1, none, 0, [], fun _ => 0, none, 0, false, false⟩
  preforks := []
  wrklist := []
  nworker := 0
  cur := none
  lwps := []
  fresh := 2
  freshpid := 2
  wire := []
  script := []
  temps := []
  releases := []
  deeds := []

def Server.note (d : Deed) (w : Server) : Server := { w with deeds := w.deeds ++ [d] }

/-! ## The rump kernel's lwps -/

/-- `lwproc_switch`. -/
def lwprocSwitch (l : Option Lwp) (w : Server) : Server := { w with cur := l }

/-- `lwproc_release`, called by code that has switched to `mine`. -/
def lwprocRelease (mine : Option Lwp) (w : Server) : Server :=
  { w with
    cur := none
    lwps := w.lwps.filter fun l => some l.1 ≠ w.cur
    releases := w.releases ++ [(mine, w.cur)] }

/-- An lwp of process `pid` is created and made current. -/
def spawn (pid : Nat) (w : Server) : Server :=
  { w with cur := some w.fresh, lwps := (w.fresh, pid) :: w.lwps, fresh := w.fresh + 1 }

/-- `lwproc_rfork`: a new process with one lwp. -/
def lwprocRfork (flags : Rfork) (w : Server) : Except Stop (Bool × Server) :=
  match w.script with
  | .rfork true :: os =>
    .ok (true, { spawn w.freshpid (w.note (.rfork flags)) with
      script := os
      freshpid := w.freshpid + 1 })
  | .rfork false :: os => .ok (false, { w.note (.rfork flags) with script := os })
  | _ => .error .stuck

/-- `lwproc_newlwp(pid)`. -/
def lwprocNewlwp (pid : Nat) (w : Server) : Except Stop (Bool × Server) :=
  match w.script with
  | .newlwp true :: os => .ok (true, { spawn pid w with script := os })
  | .newlwp false :: os => .ok (false, { w with script := os })
  | _ => .error .stuck

/-- `lwproc_getpid`. -/
def lwprocGetpid (w : Server) : Nat :=
  match w.lwps.find? fun l => some l.1 = w.cur with
  | some l => l.2
  | none => 0

/-! ## Sending -/

/-- The inner loop of `dosend` over `n` bytes that were accepted: members that
are done with are dropped, also empty ones. -/
def advance : Nat → List (List UInt8) → Nat × List (List UInt8)
  | n, [] => (n, [])
  | n, v :: vs => if n ≥ v.length then advance (n - v.length) vs else (n, v :: vs)

/-- Whether the next call is `host_poll` or `host_sendmsg`. -/
inductive Phase
  | poll
  | send
deriving DecidableEq, Repr

/-- The outer loop of `dosend`: the error it ends with, the bytes the host has
accepted, and the rest of the script. -/
def sendLoop : List Outcome → Phase → List (List UInt8) →
    Except Stop (Option Errno × List UInt8 × List Outcome)
  | .polled :: os, .poll, iov => sendLoop os .send iov
  | .pollErr e :: os, .poll, iov =>
    if e = .intr then sendLoop os .poll iov else .ok (some e, [], os)
  | .sendErr e :: os, .send, iov =>
    -- `EPIPE` is overwritten: it is not `EAGAIN`
    if e ≠ .again then .ok (some e, [], os) else sendLoop os .poll iov
  | .sent n :: os, .send, iov =>
    if n = 0 then .ok (some .notconn, [], os)
    else if n > iov.flatten.length then .error .stuck
    else
      match advance n iov with
      | (_, []) => .ok (none, iov.flatten.take n, os)
      | (k, v :: vs) =>
        match sendLoop os (if k = 0 then .send else .poll) (v.drop k :: vs) with
        | .error e => .error e
        | .ok (e, bs, os) => .ok (e, iov.flatten.take n ++ bs, os)
  | _, _, _ => .error .stuck

/-- `dosend`. The exits through `goto out` leave the new lwp as it is. -/
def dosend (iov : List (List UInt8)) (w : Server) : Except Stop (Option Errno × Server) :=
  let mylwp := w.cur
  match lwprocNewlwp 1 w with
  | .error e => .error e
  | .ok (ok, w) =>
    let mine := if ok then w.cur else none
    let w := if ok then { w with temps := w.temps ++ w.cur.toList } else w
    match sendLoop w.script .send iov with
    | .error e => .error e
    | .ok (error, bs, os) =>
      let w := { w with wire := w.wire ++ bs, script := os }
      match error with
      | some e => .ok (some e, w)
      | none =>
        let w := lwprocRelease mine w
        .ok (none, if mylwp.isSome then lwprocSwitch mylwp w else w)

/-- `send_error_resp`. -/
def sendErrorResp (reqno : Nat) (error : RspErr) (w : Server) : Except Stop Server :=
  (dosend [rspHdr HDRSZ reqno RUMPSP_ERROR 0 error.code] w).map Prod.snd

/-- `send_handshake_resp`; its callers ignore the result. -/
def sendHandshakeResp (reqno error : Nat) (w : Server) : Except Stop Server :=
  (dosend [rspHdr (HDRSZ + 4) reqno RUMPSP_RESP RUMPSP_HANDSHAKE 0, Bytes.word 4 error] w).map
    Prod.snd

/-- `send_prefork_resp`. -/
def sendPreforkResp (reqno : Nat) (auth : List UInt8) (w : Server) : Except Stop Server :=
  (dosend [rspHdr (HDRSZ + 16) reqno RUMPSP_RESP RUMPSP_PREFORK 0, auth] w).map Prod.snd

/-! ## Requests -/

/-- An update of the client. -/
def onSpc (f : Client → Client) (w : Server) : Server := { w with spc := f w.spc }

/-- `shutdown(spc->spc_fd, SHUT_RDWR)`. -/
def shutdown (c : Client) : Client := { c with shut := true }

/-- The allocation loop of `schedulework` on the results of `malloc`. Nothing
counts `retries`, so only `nworker == 0` ends it without memory. Here `nworker`
is the same in all rounds. -/
def sbaAlloc (nworker : Nat) : List Outcome → Except Stop (Bool × List Outcome)
  | .malloc true :: os => .ok (true, os)
  | .malloc false :: os => if nworker = 0 then .ok (false, os) else sbaAlloc nworker os
  | _ => .error .stuck

/-- `schedulework`. -/
def schedulework (type : SbaType) (w : Server) : Except Stop Server := do
  let w := w.note .schedulework
  let (ok, os) ← sbaAlloc w.nworker w.script
  let w := { w with script := os }
  if ok then
    let sba : Sba := ⟨type, w.spc.hdr, w.spc.buf⟩
    let w := onSpc spcresetbuf w
    let w := onSpc (fun c => { c with refcnt := c.refcnt + 1 }) w
    return { w with wrklist := w.wrklist ++ [sba] }
  else
    let w ← sendErrorResp (rspReqno w.spc.hdr) .tryagain w
    return onSpc spcfreebuf w

/-- How a handshake that got its main lwp ends. -/
def handshakeDone (reqno : Nat) (w : Server) : Except Stop Server := do
  let w ← sendHandshakeResp reqno 0 w
  let w := onSpc (fun c => { c with pid := lwprocGetpid w }) w
  let w := lwprocSwitch none w
  return onSpc (fun c => { c with state := .running }) w

/-- The terminator for the name in a frame. -/
def terminator (hdr : Bytes) (comm : Option Buf) : Store :=
  ⟨sub64 (rspLen hdr) HDRSZ, comm.map Buf.size⟩

/-- The branch for `HANDSHAKE_GUEST`. -/
def handshakeGuest (reqno : Nat) (w : Server) : Except Stop Server :=
  let x := terminator w.spc.hdr w.spc.buf
  match w.spc.buf with
  | none => .error (.crash (w.note (.store x)).deeds)
  | some comm => do
      let w := onSpc (fun c => { c with
        buf := some { comm with data := Function.update comm.data x.index 0 } }) (w.note (.store x))
      let (ok, w) ← lwprocRfork .clear w
      let w := if ok then w else onSpc shutdown w
      let w := onSpc spcfreebuf w
      if ok then handshakeDone reqno (onSpc (fun c => { c with mainlwp := w.cur }) w)
      else return w

/-- `sizeof(struct handshake_fork)`. -/
abbrev FORKSZ : Nat := 20

/-- The branch for `HANDSHAKE_FORK` once its token has been found. -/
def handshakeForkWith (reqno cancel : Nat) (tmpmain : Lwp) (w : Server) : Except Stop Server := do
  let w := lwprocSwitch (some tmpmain) w
  if cancel ≠ 0 then
    return onSpc shutdown (lwprocRelease (some tmpmain) w)
  let (ok, w) ← lwprocRfork .share w
  if ok then
    let w := onSpc (fun c => { c with mainlwp := w.cur }) w
    let w := lwprocSwitch (some tmpmain) w
    let w := lwprocRelease (some tmpmain) w
    handshakeDone reqno (lwprocSwitch w.spc.mainlwp w)
  else
    let w ← sendErrorResp reqno .rforkFailed w
    return lwprocRelease (some tmpmain) (onSpc shutdown w)

/-- The branch for `HANDSHAKE_FORK`. -/
def handshakeFork (reqno : Nat) (w : Server) : Except Stop Server :=
  if sub64 w.spc.off HDRSZ ≠ FORKSZ then do
    let w ← sendErrorResp reqno .malformedRequest w
    return onSpc spcfreebuf (onSpc shutdown w)
  else
    match w.spc.buf with
    | none => .error (.crash w.deeds)
    | some rfp =>
      let cancel := rfp.data.load 16 4
      match w.preforks.find? fun pf => pf.auth = rfp.data.slice 0 16 with
      | none => do
          let w ← sendErrorResp reqno .invalidPrefork (onSpc spcfreebuf w)
          return onSpc shutdown w
      | some pf =>
        handshakeForkWith reqno cancel pf.lwp
          (onSpc spcfreebuf { w with preforks := w.preforks.erase pf })

/-- The part of `handlereq` for `SPCSTATE_NEW`. -/
def handshake (reqno : Nat) (w : Server) : Except Stop Server :=
  if rspType w.spc.hdr ≠ RUMPSP_HANDSHAKE then do
    let w ← sendErrorResp reqno .auth w
    return onSpc spcfreebuf (onSpc shutdown w)
  else if rspWord w.spc.hdr = HANDSHAKE_GUEST then handshakeGuest reqno w
  else if rspWord w.spc.hdr = HANDSHAKE_FORK then handshakeFork reqno w
  else do
    let w ← sendErrorResp reqno .auth w
    return onSpc spcfreebuf (onSpc shutdown w)

/-- The part of `handlereq` for `RUMPSP_PREFORK`, with memory for the token. -/
def preforkWith (reqno : Nat) (w : Server) : Except Stop Server := do
  let w := lwprocSwitch w.spc.mainlwp w
  let (ok, w) ← lwprocRfork .copy w
  if ok then
    match w.script, w.cur with
    | .random auth :: os, some l =>
      let w := lwprocSwitch none { w with script := os }
      sendPreforkResp reqno auth { w with preforks := ⟨auth, l⟩ :: w.preforks }
    | _, _ => .error .stuck
  else
    let w ← sendErrorResp reqno .rforkFailed w
    return lwprocSwitch none w

/-- The part of `handlereq` for `RUMPSP_PREFORK`. -/
def prefork (reqno : Nat) (w : Server) : Except Stop Server :=
  let w := onSpc spcfreebuf w
  if w.spc.inexec then do
    let w ← sendErrorResp reqno .inexec w
    return onSpc shutdown w
  else
    match w.script with
    | .malloc true :: os => preforkWith reqno { w with script := os }
    | .malloc false :: os => sendErrorResp reqno .nomem { w with script := os }
    | _ => .error .stuck

/-- The part of `handlereq` for a handshake of a running client. -/
def execReq (reqno : Nat) (w : Server) : Except Stop Server :=
  if rspWord w.spc.hdr ≠ HANDSHAKE_EXEC then do
    let w ← sendErrorResp reqno .malformedRequest w
    return onSpc spcfreebuf (onSpc shutdown w)
  else if w.spc.inexec then do
    let w ← sendErrorResp reqno .inexec w
    return onSpc spcfreebuf (onSpc shutdown w)
  else
    let w := onSpc (fun c => { c with inexec := true }) w
    -- `lwproc_lwpexit` runs on the main lwp and leaves it current
    let w := lwprocSwitch w.spc.mainlwp w
    let w := lwprocSwitch none (w.note .lwpexit)
    schedulework .exec w

def handlereq (w : Server) : Except Stop Server :=
  let reqno := rspReqno w.spc.hdr
  if w.spc.state = .new then handshake reqno w
  else if rspType w.spc.hdr = RUMPSP_PREFORK then prefork reqno w
  else if rspType w.spc.hdr = RUMPSP_HANDSHAKE then execReq reqno w
  else if rspType w.spc.hdr ≠ RUMPSP_SYSCALL then do
    let w ← sendErrorResp reqno .malformedRequest w
    return onSpc spcfreebuf w
  else schedulework .syscall w

/-! ## Responses -/

/-- `errmap`: what `rw_error` becomes for a code from the wire. -/
def errmap : Nat → Int
  | 0 => 0
  | 1 => 11
  | 2 => 1
  | 3 => 3
  | 4 => 5
  | 5 => 16
  | 6 => 12
  | 7 => 22
  | _ => -1

/-- The first waiter for `reqno` is given the frame. -/
def wake (reqno : Nat) (f : RespWait → RespWait) : List RespWait → List RespWait
  | [] => []
  | rw :: rws => if rw.reqno = reqno then f rw :: rws else rw :: wake reqno f rws

/-- `kickwaiter`. -/
def kickwaiter (c : Client) : Client :=
  if c.respwait.any fun rw => rw.reqno = rspReqno c.hdr then
    let isErr := rspClass c.hdr = RUMPSP_ERROR
    let c' := { c with respwait := wake (rspReqno c.hdr) (fun rw => { rw with
      data := c.buf
      done := true
      dlen := sub64 c.off HDRSZ
      error := if isErr then errmap (rspWord c.hdr) else rw.error }) c.respwait }
    if isErr ∧ errmap (rspWord c.hdr) ≠ 0 then spcfreebuf c' else spcresetbuf c'
  else spcfreebuf c

/-- What `spserver` does with a complete frame. -/
def dispatch (w : Server) : Except Stop Server :=
  if rspClass w.spc.hdr = RUMPSP_RESP then .ok (onSpc kickwaiter w)
  else if rspClass w.spc.hdr = RUMPSP_REQ then handlereq w
  else do
    let w ← sendErrorResp (rspReqno w.spc.hdr) .malformedRequest w
    return onSpc spcfreebuf w

end Frankenlibc.Sysproxy

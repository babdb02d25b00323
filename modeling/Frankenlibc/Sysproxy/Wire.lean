import Frankenlibc.Lib.Bytes
import Frankenlibc.Lib.Words

/-!
# Frames on the wire, and `readframe`

A frame of the system call proxy is a header of 24 bytes and a payload whose
length the header gives. The receiver is resumable: how far it has come with a
frame is in `spc_off` alone. The wire is the host's: it hands out what the peer
has sent in pieces of any size, or says `EAGAIN`.
-/
namespace Frankenlibc.Sysproxy

open Frankenlibc.Lib

/-- `sizeof(struct rsp_hdr)`. -/
abbrev HDRSZ : Nat := 24

abbrev RUMPSP_REQ : Nat := 0
abbrev RUMPSP_RESP : Nat := 1
abbrev RUMPSP_ERROR : Nat := 2

abbrev RUMPSP_HANDSHAKE : Nat := 0
abbrev RUMPSP_SYSCALL : Nat := 1
abbrev RUMPSP_PREFORK : Nat := 7

abbrev HANDSHAKE_GUEST : Nat := 0
abbrev HANDSHAKE_FORK : Nat := 2
abbrev HANDSHAKE_EXEC : Nat := 3

/-- `enum rumpsp_err`, the members the server sends. -/
inductive RspErr
  | tryagain
  | auth
  | invalidPrefork
  | rforkFailed
  | inexec
  | nomem
  | malformedRequest
deriving DecidableEq, Repr

def RspErr.code : RspErr → Nat
  | tryagain => 1
  | auth => 2
  | invalidPrefork => 3
  | rforkFailed => 4
  | inexec => 5
  | nomem => 6
  | malformedRequest => 7

/-! ## `struct rsp_hdr` -/

def rspLen (h : Bytes) : Nat := h.load 0 8
def rspReqno (h : Bytes) : Nat := h.load 8 8
def rspClass (h : Bytes) : Nat := h.load 16 2
def rspType (h : Bytes) : Nat := h.load 18 2
/-- `rsp_handshake`, `rsp_error`, `rsp_sysnum`: one word. -/
def rspWord (h : Bytes) : Nat := h.load 20 4

/-- The bytes of a header. -/
def rspHdr (len reqno cls type word : Nat) : List UInt8 :=
  Bytes.word 8 len ++ Bytes.word 8 reqno ++ Bytes.word 2 cls ++ Bytes.word 2 type ++
    Bytes.word 4 word

/-- A frame: a header and as many bytes of payload as it announces. -/
structure Frame where
  head : List UInt8
  body : List UInt8
  headLen : head.length = HDRSZ
  bodyLen : rspLen (Bytes.ofList head) = HDRSZ + body.length

/-- A frame as it is sent. -/
def Frame.bytes (f : Frame) : List UInt8 := f.head ++ f.body

/-! ## The client's receiving side -/

/-- A payload buffer from `malloc`. -/
structure Buf where
  size : Nat
  data : Bytes

/-- `SPCSTATE_NEW`, `SPCSTATE_RUNNING`, `SPCSTATE_DYING`. -/
inductive SpcState
  | new
  | running
  | dying
deriving DecidableEq, Repr

/-- An lwp of the rump kernel. -/
abbrev Lwp := Nat

/-- `struct respwait`. -/
structure RespWait where
  reqno : Nat
  data : Option Buf
  dlen : Nat
  done : Bool
  error : Int

/-- `struct spclient`, what the server thread uses of it. `shut` says that the
socket has been shut down. -/
structure Client where
  state : SpcState
  refcnt : Int
  mainlwp : Option Lwp
  pid : Nat
  respwait : List RespWait
  hdr : Bytes
  buf : Option Buf
  off : Nat
  inexec : Bool
  shut : Bool

/-- `spcresetbuf`. -/
def spcresetbuf (c : Client) : Client := { c with buf := none, off := 0 }

/-- `spcfreebuf`: the buffer goes back to the heap. -/
def spcfreebuf (c : Client) : Client := spcresetbuf c

/-! ## The wire -/

/-- How the next call of `host_read` turns out: at most `n + 1` bytes, `EAGAIN`,
end of file, or another error. -/
inductive Cut
  | upto (n : Nat)
  | again
  | eof
  | error
deriving DecidableEq, Repr

/-- What has been sent and not been read, and how it will be cut. -/
structure Host where
  pending : List UInt8
  cuts : List Cut

/-- A result of `host_read`. -/
inductive Read
  | data (bs : List UInt8)
  | again
  | eof
  | error

/-- `host_read(fd, p, left)`. A socket with nothing to read says `EAGAIN`. -/
def hostRead (left : Nat) (h : Host) : Read × Host :=
  match h.cuts with
  | [] => (.again, h)
  | .again :: cs => (.again, { h with cuts := cs })
  | .eof :: cs => (.eof, { h with cuts := cs })
  | .error :: cs => (.error, { h with cuts := cs })
  | .upto n :: cs =>
    if h.pending = [] then (.again, { h with cuts := cs })
    else (.data (h.pending.take (min (n + 1) left)),
      ⟨h.pending.drop (min (n + 1) left), cs⟩)

/-- The values 0, -1 and 1 of `readframe`. -/
inductive Ret
  | again
  | fail
  | frame
deriving DecidableEq, Repr

/-- The second half of `readframe`. A read into no buffer is `EFAULT`. -/
def readbody (framelen : Nat) (c : Client) (h : Host) : Ret × Client × Host :=
  let left := sub64 framelen c.off
  if left = 0 then (.frame, c, h)
  else
    match c.buf with
    | none => (.fail, c, h)
    | some b =>
      match hostRead left h with
      | (.eof, h) => (.fail, c, h)
      | (.again, h) => (.again, c, h)
      | (.error, h) => (.fail, c, h)
      | (.data bs, h) =>
        let c := { c with
          buf := some { b with data := b.data.blit (c.off - HDRSZ) bs }
          off := c.off + bs.length }
        (if left - bs.length = 0 then .frame else .again, c, h)

/-- `readframe`; `alloc` says whether a call of `malloc` succeeds. -/
def readframe (alloc : Bool) (c : Client) (h : Host) : Ret × Client × Host :=
  if c.off < HDRSZ then
    match hostRead (HDRSZ - c.off) h with
    | (.eof, h) => (.fail, c, h)
    | (.again, h) => (.again, c, h)
    | (.error, h) => (.fail, c, h)
    | (.data bs, h) =>
      let c := { c with hdr := c.hdr.blit c.off bs, off := c.off + bs.length }
      if c.off < HDRSZ then (.again, c, h)
      else if rspLen c.hdr < HDRSZ then (.fail, c, h)
      else if rspLen c.hdr = HDRSZ then (.frame, c, h)
      else if alloc then
        readbody (rspLen c.hdr) { c with buf := some ⟨rspLen c.hdr - HDRSZ, fun _ => 0⟩ } h
      else (.fail, { c with buf := none }, h)
  else readbody (rspLen c.hdr) c h

/-- The payload of the frame that was read. -/
def payload (c : Client) : List UInt8 :=
  match c.buf with
  | none => []
  | some b => b.data.slice 0 b.size

/-! ## What a call of `readframe` can do -/

/-- The second half: nothing, or bytes come into the buffer. -/
inductive Filling (framelen : Nat) (c : Client) : Ret → Client → Prop
  | complete (hleft : sub64 framelen c.off = 0) : Filling framelen c .frame c
  | nothing {r : Ret} (hr : r ≠ .frame) : Filling framelen c r c
  | data {r : Ret} {b : Buf} {bs : List UInt8} (hr : r ≠ .fail) (hb : c.buf = some b) :
      Filling framelen c r { c with
        buf := some { b with data := b.data.blit (c.off - HDRSZ) bs }
        off := c.off + bs.length }

theorem readbody_inv (framelen : Nat) (c : Client) (h : Host) :
    Filling framelen c (readbody framelen c h).1 (readbody framelen c h).2.1 := by
  unfold readbody
  simp only
  split
  · exact .complete ‹_›
  · split
    · exact .nothing (by simp)
    · rename_i b hb
      split
      · exact .nothing (by simp)
      · exact .nothing (by simp)
      · exact .nothing (by simp)
      · refine .data ?_ hb
        split <;> simp

theorem Filling.keeps {framelen : Nat} {c c' : Client} {r : Ret} (h : Filling framelen c r c') :
    c.off ≤ c'.off ∧ c'.hdr = c.hdr ∧ c'.buf.isSome = c.buf.isSome ∧
      c'.respwait = c.respwait := by
  cases h with
  | complete | nothing => exact ⟨Nat.le_refl _, rfl, rfl, rfl⟩
  | data _ hb => exact ⟨Nat.le_add_right _ _, rfl, by rw [hb]; rfl, rfl⟩

/-- The bytes of a header have come in. -/
def Client.takeHead (c : Client) (bs : List UInt8) : Client :=
  { c with hdr := c.hdr.blit c.off bs, off := c.off + bs.length }

/-- A call: a part of the header, a header that is refused or is all there is to
the frame, and the payload behind a header or after it. -/
inductive Intake (alloc : Bool) (c : Client) : Ret → Client → Prop
  | idle {r : Ret} (hoff : c.off < HDRSZ) (hr : r ≠ .frame) : Intake alloc c r c
  | head {bs : List UInt8} (hoff : c.off + bs.length < HDRSZ) :
      Intake alloc c .again (c.takeHead bs)
  | short {bs : List UInt8} (hoff : c.off < HDRSZ) (hfull : HDRSZ ≤ c.off + bs.length)
      (hlen : rspLen (c.takeHead bs).hdr < HDRSZ) : Intake alloc c .fail (c.takeHead bs)
  | bare {bs : List UInt8} (hoff : c.off < HDRSZ) (hfull : HDRSZ ≤ c.off + bs.length)
      (hlen : rspLen (c.takeHead bs).hdr = HDRSZ) : Intake alloc c .frame (c.takeHead bs)
  | payload {bs : List UInt8} {r : Ret} {c' : Client} (hoff : c.off < HDRSZ)
      (hfull : HDRSZ ≤ c.off + bs.length) (hlen : HDRSZ < rspLen (c.takeHead bs).hdr)
      (ha : alloc = true)
      (h : Filling (rspLen (c.takeHead bs).hdr) { c.takeHead bs with
        buf := some ⟨rspLen (c.takeHead bs).hdr - HDRSZ, fun _ => 0⟩ } r c') :
      Intake alloc c r c'
  | nomem {bs : List UInt8} (hoff : c.off < HDRSZ) (hfull : HDRSZ ≤ c.off + bs.length)
      (hlen : HDRSZ < rspLen (c.takeHead bs).hdr) (ha : alloc = false) :
      Intake alloc c .fail { c.takeHead bs with buf := none }
  | body {r : Ret} {c' : Client} (hoff : HDRSZ ≤ c.off) (h : Filling (rspLen c.hdr) c r c') :
      Intake alloc c r c'

theorem readframe_inv (alloc : Bool) (c : Client) (h : Host) :
    Intake alloc c (readframe alloc c h).1 (readframe alloc c h).2.1 := by
  unfold readframe
  split
  swap
  · exact .body (Nat.not_lt.mp ‹_›) (readbody_inv _ _ _)
  rename_i hoff
  split
  · exact .idle hoff (by simp)
  · exact .idle hoff (by simp)
  · exact .idle hoff (by simp)
  rename_i bs h' _
  simp only
  split
  · exact .head ‹_›
  rename_i hfull
  replace hfull : HDRSZ ≤ c.off + bs.length := Nat.not_lt.mp hfull
  split
  · exact .short hoff hfull ‹_›
  rename_i hshort
  split
  · exact .bare hoff hfull ‹_›
  rename_i hbare
  have hlen : HDRSZ < rspLen (c.takeHead bs).hdr :=
    Nat.lt_of_le_of_ne (Nat.not_lt.mp hshort) (Ne.symm hbare)
  split
  · exact .payload hoff hfull hlen ‹_› (readbody_inv _ _ _)
  · exact .nomem hoff hfull hlen (Bool.eq_false_of_not_eq_true ‹_›)

theorem Intake.keeps {alloc : Bool} {c c' : Client} {r : Ret} (h : Intake alloc c r c') :
    c.off ≤ c'.off ∧ c'.respwait = c.respwait := by
  cases h with
  | idle => exact ⟨Nat.le_refl _, rfl⟩
  | head | short | bare | nomem => exact ⟨Nat.le_add_right _ _, rfl⟩
  | payload _ _ _ _ h =>
    obtain ⟨hoff, _, _, hresp⟩ := h.keeps
    exact ⟨Nat.le_trans (Nat.le_add_right _ _) hoff, hresp⟩
  | body _ h => exact ⟨h.keeps.1, h.keeps.2.2.2⟩

end Frankenlibc.Sysproxy

import Mathlib.Data.List.Forall2
import Frankenlibc.Sysproxy.Remote

/-!
# The same connection with messages in place of bytes

`Net` has the messages that are on their way as lists, and the waiters with what
they have been given. It is what the two streams of bytes and the two receivers
come to: `wire_step` says that every step of the parties is one step here, or
none while a frame is incomplete.
-/
namespace Frankenlibc.Sysproxy.Remote

open Frankenlibc.Lib

/-! ## Messages -/

/-- A message with its payload. -/
def packet (reqno cls type word : Nat) (body : List UInt8)
    (h : HDRSZ + body.length < 18446744073709551616) : Frame where
  head := rspHdr (HDRSZ + body.length) reqno cls type word
  body := body
  headLen := rspHdr_length ..
  bodyLen := by rw [rspLen_rspHdr, Nat.mod_eq_of_lt h]

/-- What the client sends. -/
inductive Upward
  | request (reqno : Nat) (sysnum : UInt32) (data : List UInt8)
      (h : HDRSZ + data.length < 18446744073709551616)
  | bytes (reqno : Nat) (bs : List UInt8) (h : HDRSZ + bs.length < 18446744073709551616)
  | addr (reqno : Nat) (a : UInt64)

def Upward.reqno : Upward → Nat
  | .request reqno _ _ _ => reqno
  | .bytes reqno _ _ => reqno
  | .addr reqno _ => reqno

def Upward.frame : Upward → Frame
  | .request reqno sysnum data h => packet reqno RUMPSP_REQ RUMPSP_SYSCALL sysnum.toNat data h
  | .bytes reqno bs h => packet reqno RUMPSP_RESP RUMPSP_COPYIN 0 bs h
  | .addr reqno a =>
    packet reqno RUMPSP_RESP RUMPSP_ANONMMAP 0 (Bytes.word 8 a.toNat) (by simp [HDRSZ])

/-- What the server sends: a request on behalf of the system call `c`, or the
response to `c`. -/
inductive Downward
  | ask (c reqno junk : Nat) (a : Ask)
  | ret (c error pad : Nat) (retval : Nat × Nat)

def Downward.frame : Downward → Frame
  | .ask _ reqno junk a => (a.message reqno junk).frame
  | .ret c error pad retval => (Message.syscallResp c error pad retval).frame

/-- The requests among the messages, with their system calls. -/
def asksOf (ms : List Downward) : List (Nat × Ask) :=
  ms.filterMap fun m => match m with
    | .ask c _ _ a => some (c, a)
    | .ret _ _ _ _ => none

theorem strSpan_le (m : Bytes) (a n : Nat) : strSpan m a n ≤ n := by
  induction n generalizing a with
  | zero => exact Nat.le_refl 0
  | succ n ih =>
    rw [strSpan]
    split
    · omega
    · exact Nat.succ_le_succ (ih (a + 1))

theorem slice_small (p : Proc) (raddr : UInt64) {len : Nat}
    (h : HDRSZ + len < 18446744073709551616) :
    HDRSZ + (p.mem.slice raddr.toNat len).length < 18446744073709551616 := by
  rw [Bytes.length_slice]
  exact h

theorem span_small (p : Proc) (raddr : UInt64) {len : Nat}
    (h : HDRSZ + len < 18446744073709551616) :
    HDRSZ + (p.mem.slice raddr.toNat (strSpan p.mem raddr.toNat len)).length <
      18446744073709551616 := by
  have hle := strSpan_le p.mem raddr.toNat len
  rw [Bytes.length_slice]
  omega

/-- What the client sends back when it serves a request. -/
def Proc.replies (os : Os) (p : Proc) (reqno : Nat) : Ask → List Upward
  | .copyin raddr len h => [.bytes reqno (p.mem.slice raddr.toNat len) (slice_small p raddr h)]
  | .copyinstr raddr len h =>
    [.bytes reqno (p.mem.slice raddr.toNat (strSpan p.mem raddr.toNat len))
      (span_small p raddr h)]
  | .anonmmap howmuch => [.addr reqno (os.mmap p.maps howmuch)]
  | _ => []

/-! ## The machine -/

structure Net (κ : Type) where
  proc : Proc
  cnext : Nat
  thread : Nat → Option Nat
  cwait : List (Nat × Option (Nat × (Nat × Nat)))
  results : List Result
  up : List Upward
  down : List Downward
  kern : κ
  queue : List (Nat × Nat × List UInt8)
  swait : List (Nat × Option Answer)
  snext : Nat
  job : Nat → Job

/-- The first waiter for a number is given something. -/
def give {α : Type} (reqno : Nat) (x : α) : List (Nat × Option α) → List (Nat × Option α)
  | [] => []
  | w :: ws => if w.1 = reqno then (w.1, some x) :: ws else w :: give reqno x ws

/-- What the first waiter for a number has been given. -/
def given {α : Type} (reqno : Nat) (ws : List (Nat × Option α)) : Option α :=
  (ws.find? fun w => w.1 = reqno).bind Prod.snd

inductive NetEvent
  | call (t : Nat) (sysnum : UInt32) (data : List UInt8)
      (h : HDRSZ + data.length < 18446744073709551616)
  | cread
  | sread
  | start (lwp : Option UInt32) (pad : Nat)
  | work (c junk : Nat)
  | resume (c : Nat)
  | ret (t : Nat)
  | poke (a : Nat) (bs : List UInt8)

def NetEvent.seen : NetEvent → Option Seen
  | .call t sysnum data _ => some (.call t sysnum data)
  | .ret t => some (.ret t)
  | .poke a bs => some (.poke a bs)
  | _ => none

variable {κ : Type} (K : Kernel κ) (os : Os)

namespace Net

def call (t : Nat) (sysnum : UInt32) (data : List UInt8)
    (h : HDRSZ + data.length < 18446744073709551616) (n : Net κ) : Net κ :=
  { n with
    cnext := n.cnext + 1
    thread := Function.update n.thread t (some n.cnext)
    cwait := n.cwait ++ [(n.cnext, none)]
    up := n.up ++ [.request n.cnext sysnum data h] }

/-- The client takes a message. -/
def take (m : Downward) (ms : List Downward) (n : Net κ) : Net κ :=
  match m with
  | .ask _ reqno _ a => { n with
      down := ms
      proc := (n.proc.serve os a).1
      up := n.up ++ n.proc.replies os reqno a }
  | .ret c error _ retval => { n with down := ms, cwait := give c (error, retval) n.cwait }

/-- The server takes a message. -/
def accept (m : Upward) (ms : List Upward) (n : Net κ) : Net κ :=
  match m with
  | .request reqno sysnum data _ =>
    { n with up := ms, queue := n.queue ++ [(reqno, sysnum.toNat, data)] }
  | .bytes reqno bs _ => { n with up := ms, swait := give reqno (.bytes bs) n.swait }
  | .addr reqno a => { n with up := ms, swait := give reqno (.addr a) n.swait }

def respond (c error pad : Nat) (retval : Nat × Nat) (n : Net κ) : Net κ :=
  { n with
    down := n.down ++ [.ret c error pad retval]
    job := Function.update n.job c .ended }

def ask (c junk : Nat) (a : Ask) (n : Net κ) : Net κ :=
  { n with
    down := n.down ++ [.ask c n.snext junk a]
    snext := if a.numbered then n.snext + 1 else n.snext
    swait := if a.waits then n.swait ++ [(n.snext, none)] else n.swait
    job := if a.waits then Function.update n.job c (.waiting n.snext a) else n.job
    kern := if a.waits then n.kern else K.answer n.kern c .done }

def step (n : Net κ) : NetEvent → Option (Net κ)
  | .call t sysnum data h =>
    if n.thread t = none then some (n.call t sysnum data h) else none
  | .cread =>
    match n.down with
    | [] => none
    | m :: ms => some (n.take os m ms)
  | .sread =>
    match n.up with
    | [] => none
    | m :: ms => some (n.accept m ms)
  | .start lwp pad =>
    match n.queue with
    | [] => none
    | (c, sysnum, data) :: rest =>
      match lwp with
      | some rv => some ({ n with queue := rest }.respond c rv.toNat pad noLwp)
      | none => some { n with
          queue := rest
          kern := K.enter n.kern c sysnum data
          job := Function.update n.job c .running }
  | .work c junk =>
    if n.job c = .running then
      match K.next n.kern c with
      | .inner k => some { n with kern := k }
      | .ask a => some (n.ask K c junk a)
      | .ret error retval =>
        some (n.respond c error.toNat junk (retval.1.toNat, retval.2.toNat))
    else none
  | .resume c =>
    match n.job c with
    | .waiting reqno _ =>
      match given reqno n.swait with
      | none => none
      | some x => some { n with
          swait := n.swait.eraseP fun w => w.1 = reqno
          kern := K.answer n.kern c x
          job := Function.update n.job c .running }
    | _ => none
  | .ret t =>
    match n.thread t with
    | none => none
    | some c =>
      match given c n.cwait with
      | none => none
      | some r => some { n with
          cwait := n.cwait.eraseP fun w => w.1 = c
          thread := Function.update n.thread t none
          results := n.results ++ [⟨t, c, r.1, r.2⟩] }
  | .poke a bs => some { n with proc := { n.proc with mem := n.proc.mem.blit a bs } }

end Net

/-! ## Reading a message back -/

/-- The fields of a header that has been received. -/
theorem header_fields {m : Bytes} {len reqno cls type word : Nat}
    (h : m.slice 0 HDRSZ = rspHdr len reqno cls type word) :
    rspReqno m = reqno % 18446744073709551616 ∧ rspClass m = cls % 65536 ∧
      rspType m = type % 65536 ∧ rspWord m = word % 4294967296 := by
  have hl : m.slice 0 (rspHdr len reqno cls type word).length = rspHdr len reqno cls type word := by
    rw [rspHdr_length]
    exact h
  have hfield {a k v : Nat} {pre post : List UInt8} (ha : a = pre.length)
      (hk : a + k ≤ HDRSZ) (he : rspHdr len reqno cls type word = pre ++ (Bytes.word k v ++ post)) :
      m.load a k = v % 256 ^ k := by
    rw [Bytes.load_of_slice hl (by rw [rspHdr_length]; exact hk), he, ha]
    exact Bytes.load_word pre post k v
  refine ⟨?_, ?_, ?_, ?_⟩
  · exact @hfield 8 8 reqno (Bytes.word 8 len)
      (Bytes.word 2 cls ++ Bytes.word 2 type ++ Bytes.word 4 word) (by simp) (by decide)
      (by simp [rspHdr])
  · exact @hfield 16 2 cls (Bytes.word 8 len ++ Bytes.word 8 reqno)
      (Bytes.word 2 type ++ Bytes.word 4 word) (by simp) (by decide) (by simp [rspHdr])
  · exact @hfield 18 2 type (Bytes.word 8 len ++ Bytes.word 8 reqno ++ Bytes.word 2 cls)
      (Bytes.word 4 word) (by simp) (by decide) (by simp [rspHdr])
  · exact @hfield 20 4 word (Bytes.word 8 len ++ Bytes.word 8 reqno ++ Bytes.word 2 cls ++
      Bytes.word 2 type) [] (by simp) (by decide) (by simp [rspHdr])

/-- A buffer with the given bytes in it, `NULL` if there are none. -/
def Holds (b : Option Buf) (body : List UInt8) : Prop :=
  (b = none ∧ body = []) ∨ ∃ b', b = some b' ∧ b'.size = body.length ∧
    b'.data.slice 0 body.length = body

theorem complete_holds {c : Client} {pending : List UInt8} {f : Frame} {rest : List Frame}
    (h : Complete c pending f rest) : Holds c.buf f.body := by
  have hp := h.payload
  unfold payload at hp
  cases hb : c.buf with
  | none => exact .inl ⟨rfl, h.empty.mp hb⟩
  | some b =>
    rw [hb] at hp
    have hsize : b.size = f.body.length := by
      rw [← hp, Bytes.length_slice]
    exact .inr ⟨b, rfl, hsize, by rw [← hsize]; exact hp⟩

theorem Holds.some_of {b : Option Buf} {body : List UInt8} (h : Holds b body) (hne : body ≠ []) :
    ∃ b', b = some b' ∧ b'.size = body.length ∧ b'.data.slice 0 body.length = body := by
  rcases h with ⟨_, hnil⟩ | h
  · exact absurd hnil hne
  · exact h

/-- `memcpy` of as many bytes as there are. -/
theorem Holds.fetch {b : Option Buf} {body : List UInt8} (h : Holds b body) :
    fetch b body.length = some body := by
  rcases h with ⟨rfl, rfl⟩ | ⟨b', rfl, _, hs⟩
  · rfl
  · simp only [Remote.fetch, hs]

/-- The payload as a list. -/
theorem Holds.elim {b : Option Buf} {body : List UInt8} (h : Holds b body) :
    (b.elim [] fun b => b.data.slice 0 b.size) = body := by
  rcases h with ⟨rfl, rfl⟩ | ⟨b', rfl, hsize, hs⟩
  · rfl
  · rw [Option.elim_some, hsize, hs]

/-- A word of the payload. -/
theorem load_payload {m : Bytes} (pre post : List UInt8) {k v : Nat}
    (h : m.slice 0 (pre ++ (Bytes.word k v ++ post)).length = pre ++ (Bytes.word k v ++ post))
    (hv : v < 256 ^ k) : m.load pre.length k = v := by
  rw [Bytes.load_of_slice h (by simp), Bytes.load_word, Nat.mod_eq_of_lt hv]

/-- What lies behind the first bytes of the payload. -/
theorem slice_payload {m : Bytes} {pre post : List UInt8}
    (h : m.slice 0 (pre ++ post).length = pre ++ post) :
    m.slice pre.length post.length = post := by
  rw [List.length_append, Bytes.slice_add, Nat.zero_add] at h
  exact (List.append_inj h (by simp)).2

/-! ## Appending a message to a stream -/

theorem stream_append (fs gs : List Frame) : stream (fs ++ gs) = stream fs ++ stream gs := by
  simp [stream]

theorem stream_singleton (f : Frame) : stream [f] = f.bytes := by
  simp [stream]

/-- What is sent lies behind what is on its way. -/
theorem recv_append {c : Client} {pending : List UInt8} {rest : List Frame} (h : Recv c pending rest)
    (f : Frame) : Recv c (pending ++ f.bytes) (rest ++ [f]) := by
  cases h with
  | head hlt ho hb hs hp =>
    refine .head hlt ho hb hs ?_
    rw [← List.append_assoc, hp, stream_append, stream_singleton]
  | @body g b k rest' hh ho hk hb hsz hd hp =>
    apply @Recv.body _ _ g b k (rest' ++ [f]) hh ho hk hb hsz hd
    rw [hp, List.append_assoc, stream_append, stream_singleton]

/-- Only the receiving fields matter to a receiver. -/
theorem recv_congr {c c' : Client} {pending : List UInt8} {rest : List Frame}
    (h : Recv c pending rest) (hh : c'.hdr = c.hdr) (ho : c'.off = c.off) (hb : c'.buf = c.buf) :
    Recv c' pending rest := by
  cases h with
  | head hlt hoff hbuf hs hp => exact .head hlt (ho.trans hoff) (hb.trans hbuf) (by rw [hh]; exact hs) hp
  | body hs hoff hk hbuf hsz hd hp =>
    exact .body (by rw [hh]; exact hs) (ho.trans hoff) hk (hb.trans hbuf) hsz hd hp

/-! ## Waiters -/

section Waiters

variable {α : Type} {P : RespWait → α → Prop}

/-- A waiter, with what it has been given. -/
structure Waiter (P : RespWait → α → Prop) (rw : RespWait) (w : Nat × Option α) : Prop where
  reqno : rw.reqno = w.1
  error : rw.error = 0
  pending : w.2 = none → rw.done = false
  done : ∀ x, w.2 = some x → rw.done = true ∧ P rw x

variable {rws : List RespWait} {ws : List (Nat × Option α)}

/-- One who has returned from `waitresp` has been given something, and the other
way round. -/
theorem waiters_done (h : List.Forall₂ (Waiter P) rws ws) (reqno : Nat) :
    (doneWaiter reqno rws = none ∧ given reqno ws = none) ∨
      ∃ rw x, doneWaiter reqno rws = some rw ∧ given reqno ws = some x ∧ rw.error = 0 ∧ P rw x := by
  induction h with
  | nil => exact .inl ⟨rfl, rfl⟩
  | @cons rw w rws ws hw _ ih =>
    by_cases hr : w.1 = reqno
    · have hr' : rw.reqno = reqno := hw.reqno.trans hr
      cases hx : w.2 with
      | none =>
        refine .inl ⟨?_, ?_⟩
        · simp [doneWaiter, hr', hw.pending hx]
        · simp [given, hr, hx]
      | some x =>
        obtain ⟨hd, hP⟩ := hw.done x hx
        refine .inr ⟨rw, x, ?_, ?_, hw.error, hP⟩
        · simp [doneWaiter, hr', hd]
        · simp [given, hr, hx]
    · have hr' : rw.reqno ≠ reqno := by
        rw [hw.reqno]
        exact hr
      simpa [doneWaiter, given, hr, hr'] using ih

theorem waiters_wake (h : List.Forall₂ (Waiter P) rws ws) {reqno : Nat} {x : α}
    {f : RespWait → RespWait} (hf : ∀ rw, (f rw).reqno = rw.reqno ∧ (f rw).error = rw.error ∧
      (f rw).done = true ∧ P (f rw) x) :
    List.Forall₂ (Waiter P) (wake reqno f rws) (give reqno x ws) := by
  induction h with
  | nil => exact .nil
  | @cons rw w rws ws hw hws ih =>
    obtain ⟨hreq, herr, hdone, hP⟩ := hf rw
    unfold wake give
    rw [hw.reqno]
    split
    · refine .cons ⟨hreq.trans hw.reqno, herr.trans hw.error, ?_, ?_⟩ hws
      · intro hnone
        cases hnone
      · intro y hy
        cases hy
        exact ⟨hdone, hP⟩
    · exact .cons hw ih

theorem waiters_erase (h : List.Forall₂ (Waiter P) rws ws) (reqno : Nat) :
    List.Forall₂ (Waiter P) (rws.eraseP fun rw => rw.reqno = reqno)
      (ws.eraseP fun w => w.1 = reqno) := by
  induction h with
  | nil => exact .nil
  | @cons rw w rws ws hw hws ih =>
    by_cases hr : w.1 = reqno
    · simpa [List.eraseP_cons, hw.reqno, hr] using hws
    · simpa [List.eraseP_cons, hw.reqno, hr] using And.intro hw ih

theorem waiters_put (h : List.Forall₂ (Waiter P) rws ws) (reqno : Nat) :
    List.Forall₂ (Waiter P) (rws ++ [doputwait reqno]) (ws ++ [(reqno, none)]) := by
  refine List.rel_append h (.cons ⟨rfl, rfl, fun _ => rfl, ?_⟩ .nil)
  intro x hx
  cases hx

end Waiters

/-- A response other than an error reply goes to the first waiter for its
number. -/
theorem kickwaiter_respwait {c : Client} (hc : rspClass c.hdr = RUMPSP_RESP) :
    (kickwaiter c).respwait = wake (rspReqno c.hdr) (fun rw => { rw with
      data := c.buf
      done := true
      dlen := sub64 c.off HDRSZ }) c.respwait ∧ (kickwaiter c).state = c.state := by
  have hne : ¬ rspClass c.hdr = RUMPSP_ERROR := by
    rw [hc]
    decide
  unfold kickwaiter
  split
  · simp only [hne, false_and, if_false]
    exact ⟨rfl, rfl⟩
  · rename_i hany
    refine ⟨?_, rfl⟩
    have hnone : ∀ rw ∈ c.respwait, ¬ rw.reqno = rspReqno c.hdr := by simpa using hany
    show c.respwait = _
    generalize c.respwait = rws at hnone
    induction rws with
    | nil => rfl
    | cons rw rws ih =>
      rw [wake, if_neg (hnone rw List.mem_cons_self),
        ← ih fun rw' h => hnone rw' (List.mem_cons_of_mem _ h)]

/-! ## The relation -/

/-- The payload of a reply. -/
def Answer.body : Answer → List UInt8
  | .bytes bs => bs
  | .addr a => Bytes.word 8 a.toNat
  | _ => []

/-- A worker's waiter has the reply. -/
def Replied (rw : RespWait) (x : Answer) : Prop :=
  Holds rw.data x.body ∧ rw.dlen = x.body.length

/-- A client thread's waiter has the response. -/
def Returned (rw : RespWait) (r : Nat × (Nat × Nat)) : Prop :=
  ∃ b, rw.data = some b ∧ b.data.load 0 4 = r.1 ∧ (b.data.load 8 8, b.data.load 16 8) = r.2

/-- An item of work. -/
def Queued (sba : Sba) (q : Nat × Nat × List UInt8) : Prop :=
  rspReqno sba.hdr = q.1 ∧ rspWord sba.hdr = q.2.1 ∧ Holds sba.data q.2.2

/-- Numbers and results fit into their fields. -/
def Downward.Small : Downward → Prop
  | .ask _ reqno _ _ => reqno < 18446744073709551616
  | .ret c error _ retval => c < 18446744073709551616 ∧ error < 4294967296 ∧
      retval.1 < 18446744073709551616 ∧ retval.2 < 18446744073709551616

/-- Bytes and messages say the same. -/
structure Wire (s : Sys κ) (n : Net κ) : Prop where
  proc : n.proc = s.proc
  kern : n.kern = s.kern
  cnext : n.cnext = s.cnext
  snext : n.snext = s.snext
  thread : n.thread = s.thread
  results : n.results = s.results
  job : n.job = s.job
  running : s.srv.spc.state = .running
  down : Recv s.cli s.down (n.down.map Downward.frame)
  up : Recv s.srv.spc s.up (n.up.map Upward.frame)
  cwait : List.Forall₂ (Waiter Returned) s.cli.respwait n.cwait
  swait : List.Forall₂ (Waiter Replied) s.srv.spc.respwait n.swait
  queue : List.Forall₂ Queued s.srv.wrklist n.queue
  asked : asksOf n.down = s.asked.drop s.served
  served : s.served ≤ s.asked.length
  downSmall : ∀ m ∈ n.down, m.Small
  upSmall : ∀ m ∈ n.up, m.reqno < 18446744073709551616
  queueSmall : ∀ q ∈ n.queue, q.1 < 18446744073709551616
  jobSmall : ∀ c, n.job c ≠ .absent → c < 18446744073709551616

variable {K os} {s s' : Sys κ} {n : Net κ}

/-- Nothing but the receiving side of the client has changed. -/
theorem Wire.client (h : Wire s n) {cli : Client} {pending : List UInt8}
    (hr : Recv cli pending (n.down.map Downward.frame)) (hs : SameOther s.cli cli) :
    Wire { s with cli := cli, down := pending } n :=
  { h with
    down := hr
    cwait := by
      rw [hs]
      exact h.cwait }

theorem Wire.server (h : Wire s n) {spc : Client} {pending : List UInt8}
    (hr : Recv spc pending (n.up.map Upward.frame)) (hs : SameOther s.srv.spc spc) :
    Wire { s with srv := { s.srv with spc := spc }, up := pending } n :=
  { h with
    up := hr
    running := by
      rw [hs]
      exact h.running
    swait := by
      rw [hs]
      exact h.swait }

theorem wire_call (h : Wire s n) (hc : s.cnext < 18446744073709551616) (t : Nat)
    (sysnum : UInt32) (data : List UInt8) (ht : s.thread t = none)
    (hd : HDRSZ + data.length < 18446744073709551616) :
    ∃ n', Net.step K os n (.call t sysnum data hd) = some n' ∧ Wire (call t sysnum data s) n' := by
  have hn : n.thread t = none := by rw [h.thread, ht]
  refine ⟨_, if_pos hn, ?_⟩
  refine { h with cnext := ?_, thread := ?_, down := ?_, up := ?_, cwait := ?_, upSmall := ?_ }
  · exact congrArg (· + 1) h.cnext
  · show Function.update n.thread t (some n.cnext) = Function.update s.thread t (some s.cnext)
    rw [h.thread, h.cnext]
  · exact recv_congr h.down rfl rfl rfl
  · show Recv s.srv.spc (s.up ++ syscallReq s.cnext sysnum data)
      ((n.up ++ [Upward.request n.cnext sysnum data hd]).map Upward.frame)
    rw [List.map_append, h.cnext]
    exact recv_append h.up (Upward.frame (.request s.cnext sysnum data hd))
  · show List.Forall₂ (Waiter Returned) (s.cli.respwait ++ [doputwait s.cnext])
      (n.cwait ++ [(n.cnext, none)])
    rw [h.cnext]
    exact waiters_put h.cwait _
  · intro m hm
    rcases List.mem_append.mp hm with hm | hm
    · exact h.upSmall m hm
    · rw [List.mem_singleton] at hm
      subst hm
      show n.cnext < _
      rw [h.cnext]
      exact hc

/-! ## The client takes a message -/

theorem packet_bytes (reqno cls type word : Nat) (body : List UInt8)
    (h : HDRSZ + body.length < 18446744073709551616) :
    (packet reqno cls type word body h).bytes =
      rspHdr (HDRSZ + body.length) reqno cls type word ++ body := rfl

/-- `struct rsp_copydata` in a buffer. -/
theorem Holds.copydata {buf : Option Buf} {len addr : Nat} (data : List UInt8)
    (h : Holds buf (Bytes.word 8 len ++ (Bytes.word 8 addr ++ data)))
    (hlen : len < 18446744073709551616) (haddr : addr < 18446744073709551616) :
    ∃ b, buf = some b ∧ b.data.load 0 8 = len ∧ b.data.load 8 8 = addr ∧
      b.data.slice 16 data.length = data := by
  obtain ⟨b, hb, _, hs⟩ := h.some_of (by simp [Bytes.word])
  refine ⟨b, hb, load_payload [] _ hs hlen, ?_, ?_⟩
  · have h8 := load_payload (Bytes.word 8 len) _ hs haddr
    rwa [Bytes.length_word] at h8
  · rw [← List.append_assoc] at hs
    have h16 := slice_payload hs
    rwa [List.length_append, Bytes.length_word, Bytes.length_word] at h16

/-- A request is served as the process would serve it. -/
theorem cli_serves (os : Os) {cli : Client} {pending : List UInt8} {rest : List Frame} {reqno junk : Nat}
    {a : Ask} (h : Complete cli pending (a.message reqno junk).frame rest)
    (hr : reqno < 18446744073709551616) (p : Proc) :
    rspClass cli.hdr = RUMPSP_REQ ∧ cliHandlereq os cli p = some ((p.serve os a).1,
      stream ((p.replies os reqno a).map Upward.frame)) := by
  have hbody := complete_holds h
  cases a with
  | raise signo =>
    obtain ⟨_, hcls, htype, hword⟩ := header_fields h.hdr
    replace htype : rspType cli.hdr = RUMPSP_RAISE := htype
    rw [Nat.mod_eq_of_lt signo.toNat_lt] at hword
    refine ⟨hcls, ?_⟩
    simp [cliHandlereq, htype, hword, Proc.serve, Proc.replies, stream]
  | copyin raddr len hlen =>
    obtain ⟨hreq, hcls, htype, _⟩ := header_fields h.hdr
    replace htype : rspType cli.hdr = RUMPSP_COPYIN := htype
    obtain ⟨b, hb, h0, h8, -⟩ := Holds.copydata [] hbody (by omega) raddr.toNat_lt
    rw [Nat.mod_eq_of_lt hr] at hreq
    refine ⟨hcls, ?_⟩
    simp [cliHandlereq, htype, hb, h0, h8, hreq, Proc.serve, Proc.replies, sendCopyinResp,
      stream, Upward.frame, packet_bytes]
  | copyinstr raddr len hlen =>
    obtain ⟨hreq, hcls, htype, _⟩ := header_fields h.hdr
    replace htype : rspType cli.hdr = RUMPSP_COPYINSTR := htype
    obtain ⟨b, hb, h0, h8, -⟩ := Holds.copydata [] hbody (by omega) raddr.toNat_lt
    rw [Nat.mod_eq_of_lt hr] at hreq
    refine ⟨hcls, ?_⟩
    simp [cliHandlereq, htype, hb, h0, h8, hreq, Proc.serve, Proc.replies, sendCopyinResp,
      stream, Upward.frame, packet_bytes]
  | copyout raddr data hdata =>
    obtain ⟨_, hcls, htype, _⟩ := header_fields h.hdr
    replace htype : rspType cli.hdr = RUMPSP_COPYOUT := htype
    have hcopy : Holds cli.buf (Bytes.word 8 data.length ++ (Bytes.word 8 raddr.toNat ++ data)) := by
      simpa [Ask.message, Message.frame, Message.iov] using hbody
    obtain ⟨b, hb, h0, h8, h16⟩ := hcopy.copydata data (by omega) raddr.toNat_lt
    refine ⟨hcls, ?_⟩
    simp [cliHandlereq, htype, hb, h0, h8, h16, Proc.serve, Proc.replies, stream]
  | anonmmap howmuch =>
    obtain ⟨hreq, hcls, htype, _⟩ := header_fields h.hdr
    replace htype : rspType cli.hdr = RUMPSP_ANONMMAP := htype
    obtain ⟨b, hb, _, hs⟩ := hbody.some_of (by simp [Ask.message, Message.frame, Message.iov,
      Bytes.word])
    have h0 : b.data.load 0 8 = howmuch.toNat :=
      load_payload [] [] hs howmuch.toNat_lt
    rw [Nat.mod_eq_of_lt hr] at hreq
    refine ⟨hcls, ?_⟩
    simp [cliHandlereq, htype, hb, h0, hreq, Proc.serve, Proc.replies, sendAnonmmapResp, stream,
      Upward.frame, packet_bytes]

/-- `struct rsp_sysresp` in a buffer. -/
theorem Holds.sysresp {buf : Option Buf} {error pad r₁ r₂ : Nat}
    (h : Holds buf (Bytes.word 4 error ++ (Bytes.word 4 pad ++ (Bytes.word 8 r₁ ++ Bytes.word 8 r₂))))
    (he : error < 4294967296) (h₁ : r₁ < 18446744073709551616) (h₂ : r₂ < 18446744073709551616) :
    ∃ b, buf = some b ∧ b.data.load 0 4 = error ∧ (b.data.load 8 8, b.data.load 16 8) = (r₁, r₂) := by
  obtain ⟨b, hb, _, hs⟩ := h.some_of (by simp [Bytes.word])
  have hs₁ : b.data.slice 0 ((Bytes.word 4 error ++ Bytes.word 4 pad) ++
      (Bytes.word 8 r₁ ++ Bytes.word 8 r₂)).length = (Bytes.word 4 error ++ Bytes.word 4 pad) ++
      (Bytes.word 8 r₁ ++ Bytes.word 8 r₂) := by simpa only [List.append_assoc] using hs
  have hs₂ : b.data.slice 0 ((Bytes.word 4 error ++ Bytes.word 4 pad ++ Bytes.word 8 r₁) ++
      (Bytes.word 8 r₂ ++ [])).length = (Bytes.word 4 error ++ Bytes.word 4 pad ++
      Bytes.word 8 r₁) ++ (Bytes.word 8 r₂ ++ []) := by
    simpa only [List.append_assoc, List.append_nil] using hs
  have h8 := load_payload _ _ hs₁ h₁
  have h16 := load_payload _ _ hs₂ h₂
  simp only [List.length_append, Bytes.length_word] at h8 h16
  exact ⟨b, hb, load_payload [] _ hs he, by rw [h8, h16]⟩

/-- A response to a system call goes to the thread that made it. -/
theorem cli_returns {cli : Client} {pending : List UInt8} {rest : List Frame}
    {c error pad : Nat} {retval : Nat × Nat} {ws : List (Nat × Option (Nat × (Nat × Nat)))}
    (h : Complete cli pending (Message.syscallResp c error pad retval).frame rest)
    (hsm : (Downward.ret c error pad retval).Small)
    (hw : List.Forall₂ (Waiter Returned) cli.respwait ws) :
    rspClass cli.hdr = RUMPSP_RESP ∧
      List.Forall₂ (Waiter Returned) (kickwaiter cli).respwait (give c (error, retval) ws) := by
  obtain ⟨hc, he, h₁, h₂⟩ := hsm
  obtain ⟨hreq, hcls, _, _⟩ := header_fields h.hdr
  replace hcls : rspClass cli.hdr = RUMPSP_RESP := hcls
  rw [Nat.mod_eq_of_lt hc] at hreq
  have hbody : Holds cli.buf (Bytes.word 4 error ++ (Bytes.word 4 pad ++
      (Bytes.word 8 retval.1 ++ Bytes.word 8 retval.2))) := by
    simpa [Message.frame, Message.iov] using complete_holds h
  refine ⟨hcls, ?_⟩
  rw [(kickwaiter_respwait hcls).1, hreq]
  exact waiters_wake hw fun rw => ⟨rfl, rfl, rfl, hbody.sysresp he h₁ h₂⟩

theorem asksOf_append (l₁ l₂ : List Downward) : asksOf (l₁ ++ l₂) = asksOf l₁ ++ asksOf l₂ :=
  List.filterMap_append

/-- A run of messages is appended to a stream. -/
theorem recv_appends {c : Client} {pending : List UInt8} {rest : List Frame}
    (h : Recv c pending rest) (fs : List Frame) : Recv c (pending ++ stream fs) (rest ++ fs) := by
  induction fs generalizing pending rest with
  | nil => simpa [stream] using h
  | cons f fs ih =>
    have hnext := ih (recv_append h f)
    rw [List.append_assoc, List.append_assoc] at hnext
    exact hnext

/-- The frame is what has been read of the stream. -/
theorem messages_head {α : Type} {frame : α → Frame} {ms : List α} {f : Frame} {rest : List Frame}
    (h : ms.map frame = f :: rest) : ∃ m ms', ms = m :: ms' ∧ frame m = f ∧ ms'.map frame = rest :=
  List.map_eq_cons_iff.mp h

theorem wire_take (h : Wire s n) {m : Downward} {ms : List Downward} (hd : n.down = m :: ms)
    {cli : Client} {pending : List UInt8} (hs : SameOther s.cli cli)
    (hc : Complete cli pending m.frame (ms.map Downward.frame))
    (hf : cliFrame os { s with cli := cli, down := pending } = some s') :
    Wire s' (n.take os m ms) := by
  have hsm := h.downSmall m (by rw [hd]; exact List.mem_cons_self)
  have hrest : ∀ m' ∈ ms, m'.Small := fun m' hm =>
    h.downSmall m' (by rw [hd]; exact List.mem_cons_of_mem _ hm)
  have hasked := h.asked
  rw [hd] at hasked
  have hcw : List.Forall₂ (Waiter Returned) cli.respwait n.cwait := by
    rw [hs]
    exact h.cwait
  unfold cliFrame at hf
  cases m with
  | ret c error pad retval =>
    obtain ⟨hcls, hwait⟩ := cli_returns hc hsm hcw
    rw [if_pos (.inl hcls)] at hf
    cases hf
    refine { h with down := ?_, cwait := hwait, asked := hasked, downSmall := hrest }
    rw [hc.pending]
    exact recv_start (kickwaiter_reset cli) _
  | ask c reqno junk a =>
    obtain ⟨hcls, hserve⟩ := cli_serves os hc hsm s.proc
    rw [if_neg (by rw [hcls]; decide), if_pos hcls] at hf
    rw [hserve] at hf
    cases hf
    have hlt : s.served < s.asked.length := by
      have hl := congrArg List.length hasked
      simp only [asksOf, List.filterMap_cons, List.length_cons, List.length_drop] at hl
      omega
    refine { h with
      proc := ?_, down := ?_, up := ?_, cwait := hcw, asked := ?_, served := hlt,
      downSmall := hrest, upSmall := ?_ }
    · show (n.proc.serve os a).1 = (s.proc.serve os a).1
      rw [h.proc]
    · rw [hc.pending]
      exact recv_start ⟨rfl, rfl⟩ _
    · show Recv s.srv.spc (s.up ++ stream ((s.proc.replies os reqno a).map Upward.frame))
        ((n.up ++ n.proc.replies os reqno a).map Upward.frame)
      rw [List.map_append, h.proc]
      exact recv_appends h.up _
    · show asksOf ms = s.asked.drop (s.served + 1)
      have htail := congrArg List.tail hasked
      rw [List.tail_drop] at htail
      exact htail
    · intro m hm
      rcases List.mem_append.mp hm with hm | hm
      · exact h.upSmall m hm
      · have hreq : m.reqno = reqno := by
          cases a <;> simp [Proc.replies] at hm <;> rw [hm] <;> rfl
        rw [hreq]
        exact hsm

theorem wire_cread (K : Kernel κ) (h : Wire s n) {t : Nat} {cuts : List Cut} (hf : ∀ d ∈ cuts, d.flows)
    (hs : cread os t cuts s = some s') :
    Wire s' n ∨ ∃ n', Net.step K os n .cread = some n' ∧ Wire s' n' := by
  unfold cread at hs
  split at hs
  · cases hs
  split at hs
  · cases hs
  have hstep := @readframe_step s.cli ⟨s.down, cuts⟩ _ h.down hf
  generalize readframe true s.cli ⟨s.down, cuts⟩ = x at hs hstep
  cases hstep with
  | again hr hso _ =>
    cases hs
    exact .inl (h.client hr hso)
  | frame he hc hso _ =>
    obtain ⟨m, ms, hd, rfl, rfl⟩ := messages_head he
    refine .inr ⟨n.take os m ms, ?_, wire_take h hd hso hc hs⟩
    simp only [Net.step, hd]

/-! ## The server takes a message -/

/-- A reply goes to the worker that waits for it. -/
theorem srv_gives {spc : Client} {pending : List UInt8} {rest : List Frame} {reqno type : Nat}
    (x : Answer) (hx : HDRSZ + x.body.length < 18446744073709551616)
    (h : Complete spc pending (packet reqno RUMPSP_RESP type 0 x.body hx) rest)
    (hr : reqno < 18446744073709551616) {ws : List (Nat × Option Answer)}
    (hw : List.Forall₂ (Waiter Replied) spc.respwait ws) :
    rspClass spc.hdr = RUMPSP_RESP ∧
      List.Forall₂ (Waiter Replied) (kickwaiter spc).respwait (give reqno x ws) := by
  obtain ⟨hreq, hcls, _, _⟩ := header_fields h.hdr
  replace hcls : rspClass spc.hdr = RUMPSP_RESP := hcls
  rw [Nat.mod_eq_of_lt hr] at hreq
  have hlen : sub64 spc.off HDRSZ = x.body.length := by
    rw [h.off]
    show sub64 (HDRSZ + x.body.length) HDRSZ = x.body.length
    rw [sub64_of_le (Nat.le_add_right _ _) hx, Nat.add_sub_cancel_left]
  refine ⟨hcls, ?_⟩
  rw [(kickwaiter_respwait hcls).1, hreq]
  exact waiters_wake hw fun rw => ⟨rfl, rfl, rfl, complete_holds h, hlen⟩

theorem Wire.given (h : Wire s n) {m : Upward} {ms : List Upward} (hu : n.up = m :: ms)
    {spc : Client} {pending : List UInt8} (hs : SameOther s.srv.spc spc)
    (hp : pending = stream (ms.map Upward.frame)) {reqno : Nat} {x : Answer} {script : List Outcome}
    (hw : List.Forall₂ (Waiter Replied) (kickwaiter spc).respwait (give reqno x n.swait))
    (hcls : rspClass spc.hdr = RUMPSP_RESP) :
    Wire { s with
        srv := onSpc kickwaiter { s.srv with spc := spc, script := script }
        up := pending } { n with up := ms, swait := give reqno x n.swait } := by
  have hrun := h.running
  refine { h with running := ?_, up := ?_, swait := hw, upSmall := ?_ }
  · show (kickwaiter spc).state = .running
    rw [(kickwaiter_respwait hcls).2, hs]
    exact hrun
  · rw [hp]
    exact recv_start (kickwaiter_reset spc) _
  · intro m' hm
    exact h.upSmall m' (by rw [hu]; exact List.mem_cons_of_mem _ hm)

/-- A system call of a client that has shaken hands becomes an item of work. -/
theorem dispatch_syscall (w : Server) (hcls : rspClass w.spc.hdr = RUMPSP_REQ)
    (htype : rspType w.spc.hdr = RUMPSP_SYSCALL) (hrun : w.spc.state = .running) :
    dispatch { w with script := [.malloc true] } = .ok { w with
      script := []
      spc := { spcresetbuf w.spc with refcnt := w.spc.refcnt + 1 }
      wrklist := w.wrklist ++ [⟨.syscall, w.spc.hdr, w.spc.buf⟩]
      deeds := w.deeds ++ [.schedulework] } := by
  unfold dispatch
  rw [if_neg (by rw [hcls]; decide), if_pos hcls]
  unfold handlereq
  simp only [hrun, htype]
  rfl

theorem wire_accept (h : Wire s n) {m : Upward} {ms : List Upward} (hu : n.up = m :: ms)
    {spc : Client} {pending : List UInt8} (hs : SameOther s.srv.spc spc)
    (hc : Complete spc pending m.frame (ms.map Upward.frame)) {w : Server}
    (hd : dispatch { s.srv with spc := spc, script := [.malloc true] } = .ok w) :
    Wire { s with srv := w, up := pending } (n.accept m ms) := by
  have hsm := h.upSmall m (by rw [hu]; exact List.mem_cons_self)
  have hsw : List.Forall₂ (Waiter Replied) spc.respwait n.swait := by
    rw [hs]
    exact h.swait
  cases m with
  | bytes reqno bs hbs =>
    obtain ⟨hcls, hw⟩ := srv_gives (.bytes bs) hbs hc hsm hsw
    rw [dispatch, if_pos hcls] at hd
    cases hd
    exact h.given hu hs hc.pending hw hcls
  | addr reqno a =>
    obtain ⟨hcls, hw⟩ := srv_gives (.addr a) (by simp [Answer.body, HDRSZ]) hc hsm hsw
    rw [dispatch, if_pos hcls] at hd
    cases hd
    exact h.given hu hs hc.pending hw hcls
  | request reqno sysnum data hdata =>
    obtain ⟨hreq, hcls, htype, hword⟩ := header_fields hc.hdr
    rw [Nat.mod_eq_of_lt (show reqno < 18446744073709551616 from hsm)] at hreq
    rw [Nat.mod_eq_of_lt sysnum.toNat_lt] at hword
    have hrun : spc.state = .running := by
      rw [hs]
      exact h.running
    rw [dispatch_syscall { s.srv with spc := spc } hcls htype hrun] at hd
    cases hd
    refine { h with
      running := hrun, up := ?_, swait := hsw, queue := ?_, upSmall := ?_, queueSmall := ?_ }
    · rw [hc.pending]
      exact recv_start ⟨rfl, rfl⟩ _
    · exact List.rel_append h.queue (.cons ⟨hreq, hword, complete_holds hc⟩ .nil)
    · intro m' hm
      exact h.upSmall m' (by rw [hu]; exact List.mem_cons_of_mem _ hm)
    · intro q hq
      rcases List.mem_append.mp hq with hq | hq
      · exact h.queueSmall q hq
      · rw [List.mem_singleton] at hq
        subst hq
        exact hsm

theorem wire_sread (K : Kernel κ) (os : Os) (h : Wire s n) {cuts : List Cut} (hf : ∀ d ∈ cuts, d.flows)
    (hs : sread cuts s = some s') :
    Wire s' n ∨ ∃ n', Net.step K os n .sread = some n' ∧ Wire s' n' := by
  unfold sread at hs
  have hstep := @readframe_step s.srv.spc ⟨s.up, cuts⟩ _ h.up hf
  generalize readframe true s.srv.spc ⟨s.up, cuts⟩ = x at hs hstep
  cases hstep with
  | again hr hso _ =>
    cases hs
    exact .inl (h.server hr hso)
  | frame he hc hso _ =>
    obtain ⟨m, ms, hu, rfl, rfl⟩ := messages_head he
    simp only at hs
    split at hs
    · cases hs
    · rename_i w hd
      cases hs
      refine .inr ⟨n.accept m ms, ?_, wire_accept h hu hso hc hd⟩
      simp only [Net.step, hu]

/-! ## The workers -/

theorem downSmall_snoc {ms : List Downward} {m : Downward} (h : ∀ m ∈ ms, m.Small) (hm : m.Small) :
    ∀ m' ∈ ms ++ [m], m'.Small := by
  intro m' hm'
  rcases List.mem_append.mp hm' with hm' | hm'
  · exact h m' hm'
  · rw [List.mem_singleton] at hm'
    exact hm' ▸ hm

theorem jobSmall_update {job : Nat → Job} {c : Nat} {j : Job} (hc : c < 18446744073709551616)
    (h : ∀ c, job c ≠ .absent → c < 18446744073709551616) :
    ∀ c', Function.update job c j c' ≠ .absent → c' < 18446744073709551616 := by
  intro c' hc'
  by_cases he : c' = c
  · exact he ▸ hc
  · rw [Function.update_of_ne he] at hc'
    exact h c' hc'

theorem wire_respond (h : Wire s n) {c error pad : Nat} {retval : Nat × Nat}
    (hsm : (Downward.ret c error pad retval).Small) :
    Wire (respond c error pad retval s) (n.respond c error pad retval) := by
  refine { h with
    job := ?_, down := ?_, up := ?_, asked := ?_, downSmall := downSmall_snoc h.downSmall hsm,
    jobSmall := jobSmall_update hsm.1 h.jobSmall }
  · show Function.update n.job c .ended = Function.update s.job c .ended
    rw [h.job]
  · show Recv s.cli (s.down ++ (Message.syscallResp c error pad retval).iov.flatten)
      ((n.down ++ [Downward.ret c error pad retval]).map Downward.frame)
    rw [List.map_append, ← Message.frame_bytes]
    exact recv_append h.down _
  · exact recv_congr h.up rfl rfl rfl
  · show asksOf (n.down ++ [.ret c error pad retval]) = _
    rw [asksOf_append, h.asked]
    exact List.append_nil _

theorem wire_start (h : Wire s n) {lwp : Option UInt32} {pad : Nat}
    (hs : start K lwp pad s = some s') :
    ∃ n', Net.step K os n (.start lwp pad) = some n' ∧ Wire s' n' := by
  unfold start at hs
  have hq := h.queue
  split at hs
  · cases hs
  rename_i sba rest hw
  rw [hw] at hq
  obtain ⟨⟨c, sysnum, data⟩, qs, ⟨hreq, hword, hdata⟩, hqs, hn⟩ := List.forall₂_cons_left_iff.mp hq
  have hc : c < 18446744073709551616 := h.queueSmall (c, sysnum, data) (by rw [hn]; exact List.mem_cons_self)
  have hrest : Wire { s with srv := { s.srv with wrklist := rest } } { n with queue := qs } := by
    refine { h with queue := hqs, queueSmall := ?_ }
    intro q hq
    exact h.queueSmall q (by rw [hn]; exact List.mem_cons_of_mem _ hq)
  replace hreq : rspReqno sba.hdr = c := hreq
  replace hword : rspWord sba.hdr = sysnum := hword
  cases lwp with
  | some rv =>
    simp only [hreq] at hs
    cases hs
    refine ⟨{ n with queue := qs }.respond c rv.toNat pad noLwp, by simp only [Net.step, hn],
      wire_respond hrest ⟨hc, rv.toNat_lt, ?_, ?_⟩⟩
    · show noLwp.1 < _
      decide
    · show noLwp.2 < _
      decide
  | none =>
    simp only [hreq, hword, hdata.elim] at hs
    cases hs
    refine ⟨{ n with
      queue := qs
      kern := K.enter n.kern c sysnum data
      job := Function.update n.job c .running }, by simp only [Net.step, hn], ?_⟩
    refine { hrest with kern := ?_, job := ?_, jobSmall := jobSmall_update hc h.jobSmall }
    · show K.enter n.kern c sysnum data = K.enter s.kern c sysnum data
      rw [h.kern]
    · show Function.update n.job c .running = Function.update s.job c .running
      rw [h.job]

theorem wire_ask (h : Wire s n) (hc : s.snext < 18446744073709551616) {c : Nat}
    (hj : s.job c = .running) (junk : Nat) (a : Ask) :
    Wire (ask K c junk a s) (n.ask K c junk a) := by
  have hsmall : c < 18446744073709551616 := h.jobSmall c (by rw [h.job, hj]; exact Job.noConfusion)
  have hask : (Downward.ask c n.snext junk a).Small := by
    show n.snext < _
    rw [h.snext]
    exact hc
  refine { h with
    kern := ?_, snext := ?_, job := ?_, running := ?_, down := ?_, up := ?_, swait := ?_,
    queue := ?_, asked := ?_, served := ?_, downSmall := downSmall_snoc h.downSmall hask,
    jobSmall := ?_ }
  · simp only [Net.ask, ask, h.kern]
  · simp only [Net.ask, ask, h.snext]
  · simp only [Net.ask, ask, h.snext, h.job]
  · simp only [ask]
    split <;> exact h.running
  · show Recv s.cli (s.down ++ (a.message s.snext junk).iov.flatten)
      ((n.down ++ [Downward.ask c n.snext junk a]).map Downward.frame)
    rw [List.map_append, ← Message.frame_bytes, h.snext]
    exact recv_append h.down _
  · simp only [Net.ask, ask]
    split
    · exact recv_congr h.up rfl rfl rfl
    · exact h.up
  · simp only [Net.ask, ask, h.snext]
    split
    · exact waiters_put h.swait _
    · exact h.swait
  · simp only [Net.ask, ask]
    split <;> exact h.queue
  · show asksOf (n.down ++ [.ask c n.snext junk a]) = (s.asked ++ [(c, a)]).drop s.served
    rw [asksOf_append, h.asked, List.drop_append_of_le_length h.served]
    rfl
  · show s.served ≤ (s.asked ++ [(c, a)]).length
    have hle := h.served
    rw [List.length_append]
    omega
  · simp only [Net.ask]
    split
    · exact jobSmall_update hsmall h.jobSmall
    · exact h.jobSmall

theorem wire_work (h : Wire s n) (hc : s.snext < 18446744073709551616) {c junk : Nat}
    (hs : work K c junk s = some s') :
    ∃ n', Net.step K os n (.work c junk) = some n' ∧ Wire s' n' := by
  unfold work at hs
  split at hs
  swap
  · cases hs
  rename_i hj
  have hj' : n.job c = .running := by rw [h.job, hj]
  have hsmall : c < 18446744073709551616 := h.jobSmall c (by rw [hj']; exact Job.noConfusion)
  simp only [Net.step, if_pos hj', h.kern]
  cases hx : K.next s.kern c with
  | inner k =>
    rw [hx] at hs
    cases hs
    exact ⟨{ n with kern := k }, rfl, { h with kern := rfl }⟩
  | ask a =>
    rw [hx] at hs
    cases hs
    exact ⟨n.ask K c junk a, rfl, wire_ask h hc hj junk a⟩
  | ret error retval =>
    rw [hx] at hs
    cases hs
    exact ⟨n.respond c error.toNat junk (retval.1.toNat, retval.2.toNat), rfl,
      wire_respond h ⟨hsmall, error.toNat_lt, retval.1.toNat_lt, retval.2.toNat_lt⟩⟩

/-! ## Waiters return -/

/-- The answer is one that the request can have. -/
def Ask.Fits : Ask → Answer → Prop
  | .copyin _ len _, x => ∃ bs, x = .bytes bs ∧ bs.length = len
  | .copyinstr _ _ _, x => ∃ bs, x = .bytes bs
  | .anonmmap _, x => ∃ a, x = .addr a
  | _, _ => False

theorem reply_fits {rw : RespWait} {a : Ask} {x : Answer} (he : rw.error = 0) (hr : Replied rw x)
    (hf : a.Fits x) : reply .running rw a = some x := by
  obtain ⟨hd, hl⟩ := hr
  have hw : waitresp .running rw = 0 := he
  cases a with
  | copyin raddr len hlen =>
    obtain ⟨bs, rfl, rfl⟩ := hf
    have hbs : fetch rw.data bs.length = some bs := hd.fetch
    simp [reply, copyinReq, hw, hbs]
  | copyinstr raddr len hlen =>
    obtain ⟨bs, rfl⟩ := hf
    have hbs : fetch rw.data bs.length = some bs := hd.fetch
    simp [reply, copyinReq, hw, hl, Answer.body, hbs]
  | anonmmap howmuch =>
    obtain ⟨addr, rfl⟩ := hf
    obtain ⟨b, hb, _, hs⟩ := hd.some_of (by simp [Answer.body, Bytes.word])
    have h0 : b.data.load 0 8 = addr.toNat :=
      load_payload [] [] (by simpa [Answer.body] using hs) addr.toNat_lt
    simp [reply, anonmmapReq, hw, hb, PTRSZ, h0]
  | copyout raddr data hdata => exact hf.elim
  | raise signo => exact hf.elim

theorem wire_resume (h : Wire s n) {c : Nat}
    (hfit : ∀ reqno a x, n.job c = .waiting reqno a → given reqno n.swait = some x → a.Fits x)
    (hs : resume K c s = some s') :
    ∃ n', Net.step K os n (.resume c) = some n' ∧ Wire s' n' := by
  unfold resume at hs
  split at hs
  swap
  · cases hs
  rename_i reqno a hj
  have hj' : n.job c = .waiting reqno a := by rw [h.job, hj]
  rcases waiters_done h.swait reqno with ⟨hnone, _⟩ | ⟨rw, x, hdone, hgiven, herr, hrep⟩
  · rw [hnone] at hs
    cases hs
  rw [hdone] at hs
  simp only [h.running, reply_fits herr hrep (hfit reqno a x hj' hgiven)] at hs
  cases hs
  refine ⟨{ n with
    swait := n.swait.eraseP fun w => w.1 = reqno
    kern := K.answer n.kern c x
    job := Function.update n.job c .running }, by simp only [Net.step, hj', hgiven], ?_⟩
  refine { h with
    kern := ?_, job := ?_, up := recv_congr h.up rfl rfl rfl, swait := waiters_erase h.swait reqno,
    jobSmall := jobSmall_update (h.jobSmall c (by rw [hj']; exact Job.noConfusion)) h.jobSmall }
  · show K.answer n.kern c x = K.answer s.kern c x
    rw [h.kern]
  · show Function.update n.job c .running = Function.update s.job c .running
    rw [h.job]

theorem wire_ret (h : Wire s n) {t : Nat} (hs : ret t s = some s') :
    ∃ n', Net.step K os n (.ret t) = some n' ∧ Wire s' n' := by
  unfold ret at hs
  split at hs
  · cases hs
  rename_i c ht
  have ht' : n.thread t = some c := by rw [h.thread, ht]
  rcases waiters_done h.cwait c with ⟨hnone, _⟩ | ⟨rw, r, hdone, hgiven, _, b, hb, he, hv⟩
  · rw [hnone] at hs
    cases hs
  rw [hdone] at hs
  simp only [hb, he, hv] at hs
  cases hs
  refine ⟨{ n with
    cwait := n.cwait.eraseP fun w => w.1 = c
    thread := Function.update n.thread t none
    results := n.results ++ [⟨t, c, r.1, r.2⟩] }, by simp only [Net.step, ht', hgiven], ?_⟩
  refine { h with
    thread := ?_, results := ?_, down := recv_congr h.down rfl rfl rfl,
    cwait := waiters_erase h.cwait c }
  · show Function.update n.thread t none = Function.update s.thread t none
    rw [h.thread]
  · show n.results ++ _ = s.results ++ _
    rw [h.results]

/-- The guard on a thread's own writes, over messages. -/
def Net.orderly (n : Net κ) : NetEvent → Prop
  | .poke a bs => ∀ p ∈ asksOf n.down, p.2.apart a bs.length
  | _ => True

/-- Every step of the two parties is one step between messages, or none. -/
theorem wire_step (h : Wire s n) {e : Event} (ho : orderly s e)
    (hfit : ∀ c reqno a x, n.job c = .waiting reqno a → given reqno n.swait = some x → a.Fits x)
    (hs : step K os s e = some s') :
    (Wire s' n ∧ e.seen = none) ∨ ∃ e' n', Net.step K os n e' = some n' ∧ Wire s' n' ∧
      n.orderly e' ∧ e'.seen = e.seen := by
  cases e with
  | call t sysnum data =>
    simp only [step] at hs
    split at hs
    · rename_i hc
      cases hs
      obtain ⟨n', hw⟩ := wire_call h ho t sysnum data hc.1 hc.2
      exact .inr ⟨_, n', hw.1, hw.2, trivial, rfl⟩
    · cases hs
  | cread t cuts =>
    rcases wire_cread K h ho hs with hw | ⟨n', hw⟩
    · exact .inl ⟨hw, rfl⟩
    · exact .inr ⟨_, n', hw.1, hw.2, trivial, rfl⟩
  | sread cuts =>
    rcases wire_sread K os h ho hs with hw | ⟨n', hw⟩
    · exact .inl ⟨hw, rfl⟩
    · exact .inr ⟨_, n', hw.1, hw.2, trivial, rfl⟩
  | start lwp pad =>
    obtain ⟨n', hw⟩ := wire_start h hs
    exact .inr ⟨_, n', hw.1, hw.2, trivial, rfl⟩
  | work c junk =>
    obtain ⟨n', hw⟩ := wire_work h ho hs
    exact .inr ⟨_, n', hw.1, hw.2, trivial, rfl⟩
  | resume c =>
    obtain ⟨n', hw⟩ := wire_resume h (hfit c) hs
    exact .inr ⟨_, n', hw.1, hw.2, trivial, rfl⟩
  | ret t =>
    obtain ⟨n', hw⟩ := wire_ret h hs
    exact .inr ⟨_, n', hw.1, hw.2, trivial, rfl⟩
  | poke a bs =>
    cases hs
    refine .inr ⟨.poke a bs, _, rfl, { h with proc := ?_ }, ?_, rfl⟩
    · show ({ n.proc with mem := n.proc.mem.blit a bs } : Proc) =
        { s.proc with mem := s.proc.mem.blit a bs }
      rw [h.proc]
    · intro p hp
      rw [h.asked] at hp
      exact ho p hp

end Frankenlibc.Sysproxy.Remote

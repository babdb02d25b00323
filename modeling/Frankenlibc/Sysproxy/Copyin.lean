import Frankenlibc.Sysproxy.Framing

/-!
# What a client's reply does to the caller's memory

A worker that runs a system call may ask the client for bytes of its memory, for
a string, or for a mapping. The reply is a frame of any length: `kickwaiter`
hands its buffer and its length to the waiter, `copyin_req` passes the length on
for a string only, and `sp_copyin` copies as many bytes as it has been told.
The calls are modelled from the point where the request has been sent; the
extents they read of the reply and write of the caller's memory are records.
-/
namespace Frankenlibc.Sysproxy

open Frankenlibc.Lib

abbrev EFAULT : Int := 14
abbrev ENOMEM : Int := 12
abbrev ENOTCONN : Int := 107

/-- `sizeof(void *)`. -/
abbrev PTRSZ : Nat := 8

/-- A waiter as `doputwait` queues it. -/
def doputwait (reqno : Nat) : RespWait := ⟨reqno, none, 0, false, 0⟩

/-- The end of `waitresp`, with `spc_state` as it was when the loop was left. -/
def waitresp (state : SpcState) (rw : RespWait) : Int :=
  if state = .dying then ENOTCONN else rw.error

/-- A call that needs a reply, with what its caller passes: the length wanted,
or offered for a string. -/
inductive Request
  | copyin (len : Nat)
  | copyinstr (len : Nat)
  | anonmmap (howmuch : Nat)
deriving DecidableEq, Repr

/-- How a call returns. `out` is what is left in `*len` or in `*addr`, `reads`
has the number of bytes read from the start of the reply, and `writes` the
addresses and lengths written. -/
structure Effect where
  rv : Int
  mem : Bytes
  out : Nat
  reads : List Nat
  writes : List (Nat × Nat)

/-- What `copyin_req` returns and leaves in `*resp` and `*dlen`; `sent` is the
result of its `SENDIOV`. -/
def copyinReq (sent : Int) (state : SpcState) (rw : RespWait) (dlen : Nat) (wantstr : Bool) :
    Int × Option Buf × Nat :=
  if sent ≠ 0 then (sent, none, dlen)
  else (waitresp state rw, rw.data, if wantstr then rw.dlen else dlen)

/-- `memcpy(laddr, rdata, n)`. -/
def memcpy (laddr : Nat) (rdata : Option Buf) (n : Nat) (mem : Bytes) : Except Stop Bytes :=
  match rdata with
  | none => if n = 0 then .ok mem else .error (.crash [])
  | some b => .ok (mem.blit laddr (b.data.slice 0 n))

/-- `sp_copyin`. -/
def spCopyin (sent : Int) (state : SpcState) (rw : RespWait) (laddr len : Nat) (wantstr : Bool)
    (mem : Bytes) : Except Stop Effect :=
  let (rv, rdata, len) := copyinReq sent state rw len wantstr
  if rv ≠ 0 then .ok ⟨EFAULT, mem, len, [], []⟩
  else
    match memcpy laddr rdata len mem with
    | .error e => .error e
    | .ok mem => .ok ⟨0, mem, len, [len], [(laddr, len)]⟩

/-- `rumpuser_sp_copyin`. -/
def rumpuserSpCopyin (sent : Int) (state : SpcState) (rw : RespWait) (laddr len : Nat)
    (mem : Bytes) : Except Stop Effect :=
  spCopyin sent state rw laddr len false mem

/-- `rumpuser_sp_copyinstr`. -/
def rumpuserSpCopyinstr (sent : Int) (state : SpcState) (rw : RespWait) (laddr len : Nat)
    (mem : Bytes) : Except Stop Effect :=
  spCopyin sent state rw laddr len true mem

/-- `anonmmap_req`: its result and `*resp`. -/
def anonmmapReq (sent : Int) (state : SpcState) (rw : RespWait) : Int × Option Buf :=
  if sent ≠ 0 then (sent, none) else (waitresp state rw, rw.data)

/-- `rumpuser_sp_anonmmap`; `addr` is what `*addr` was before. -/
def rumpuserSpAnonmmap (sent : Int) (state : SpcState) (rw : RespWait) (addr : Nat) (mem : Bytes) :
    Except Stop Effect :=
  let (rv, rdata) := anonmmapReq sent state rw
  if rv ≠ 0 then .ok ⟨EFAULT, mem, addr, [], []⟩
  else
    match rdata with
    | none => .error (.crash [])
    | some b =>
      let resp := b.data.load 0 PTRSZ
      .ok ⟨if resp = 0 then ENOMEM else 0, mem, resp, [PTRSZ], []⟩

/-- The calls under one name; `laddr` is not used for a mapping. -/
def Request.call (r : Request) (sent : Int) (state : SpcState) (rw : RespWait) (laddr : Nat)
    (mem : Bytes) : Except Stop Effect :=
  match r with
  | .copyin len => rumpuserSpCopyin sent state rw laddr len mem
  | .copyinstr len => rumpuserSpCopyinstr sent state rw laddr len mem
  | .anonmmap _ => rumpuserSpAnonmmap sent state rw 0 mem

/-- The caller's memory and the reply's are respected: a copy of `len` bytes is
refused or is `len` bytes of the reply, a string stays inside of what was
offered, and a pointer is read from a reply that has room for one. -/
def Contained (r : Request) (laddr : Nat) (body : List UInt8) (mem : Bytes) (e : Effect) : Prop :=
  match r with
  | .copyin len => e.rv = EFAULT ∨ ∃ bs, bs <+: body ∧ bs.length = len ∧ e.mem = mem.blit laddr bs
  | .copyinstr len => ∀ p ∈ e.writes, laddr ≤ p.1 ∧ p.1 + p.2 ≤ laddr + len
  | .anonmmap _ => ∀ n ∈ e.reads, n ≤ body.length

/-- The reply has the length the call relies on. -/
def Request.fits (r : Request) (n : Nat) : Prop :=
  match r with
  | .copyin len => len ≤ n
  | .copyinstr len => n ≤ len
  | .anonmmap _ => PTRSZ ≤ n

instance (r : Request) (n : Nat) : Decidable (r.fits n) :=
  match r with
  | .copyin len => inferInstanceAs (Decidable (len ≤ n))
  | .copyinstr len => inferInstanceAs (Decidable (n ≤ len))
  | .anonmmap _ => inferInstanceAs (Decidable (PTRSZ ≤ n))

/-! ## What the waiter is given -/

theorem wake_find {reqno : Nat} {f : RespWait → RespWait} (hf : ∀ rw, (f rw).reqno = rw.reqno)
    (ws : List RespWait) : (wake reqno f ws).find? (fun rw => rw.reqno = reqno) =
      (ws.find? fun rw => rw.reqno = reqno).map f := by
  induction ws with
  | nil => rfl
  | cons rw ws ih =>
    by_cases h : rw.reqno = reqno
    · simp [wake, h, hf]
    · simp [wake, h, ih]

/-- A response goes to the first waiter for its number, and nothing of it is
looked at. -/
theorem kickwaiter_find {c : Client} (hc : rspClass c.hdr = RUMPSP_RESP) :
    (kickwaiter c).respwait.find? (fun rw => rw.reqno = rspReqno c.hdr) =
      (c.respwait.find? fun rw => rw.reqno = rspReqno c.hdr).map fun rw =>
        { rw with data := c.buf, done := true, dlen := sub64 c.off HDRSZ } := by
  have hne : ¬ rspClass c.hdr = RUMPSP_ERROR := by
    rw [hc]
    decide
  unfold kickwaiter
  split
  · simp only [hne, false_and, if_false]
    exact wake_find (f := fun rw => { rw with data := c.buf, done := true, dlen := sub64 c.off HDRSZ })
      (fun _ => rfl) c.respwait
  · rename_i hnone
    have hfind : (c.respwait.find? fun rw => rw.reqno = rspReqno c.hdr) = none := by
      rw [List.find?_eq_none]
      simpa using hnone
    rw [hfind]
    exact hfind

variable {c : Client} {pending : List UInt8} {f : Frame} {rest : List Frame} {rw' : RespWait}

theorem delivered (hf : Complete c pending f rest) (hc : rspClass c.hdr = RUMPSP_RESP)
    (herr : ∀ rw ∈ c.respwait, rw.error = 0)
    (hw : (kickwaiter c).respwait.find? (fun rw => rw.reqno = rspReqno c.hdr) = some rw') :
    rw'.data = c.buf ∧ rw'.dlen = f.body.length ∧ rw'.error = 0 := by
  rw [kickwaiter_find hc, Option.map_eq_some_iff] at hw
  obtain ⟨rw, hfind, rfl⟩ := hw
  refine ⟨rfl, ?_, herr rw (List.mem_of_find?_eq_some hfind)⟩
  show sub64 c.off HDRSZ = f.body.length
  have hlt := frame_len_lt f
  rw [hf.off, sub64_of_le (Nat.le_add_right _ _) hlt, Nat.add_sub_cancel_left]

/-- The buffer of a reply with a payload. -/
theorem Complete.buffer (hf : Complete c pending f rest) {b : Buf} (hb : c.buf = some b) :
    b.data.slice 0 b.size = f.body := by
  have hp := hf.payload
  unfold Sysproxy.payload at hp
  rw [hb] at hp
  exact hp

theorem Complete.size (hf : Complete c pending f rest) {b : Buf} (hb : c.buf = some b) :
    b.size = f.body.length := by
  rw [← hf.buffer hb, Bytes.length_slice]

/-! ## The calls -/

variable {sent : Int} {state : SpcState} {laddr : Nat} {mem : Bytes}

/-- Without an answer nothing is touched. -/
theorem call_refused (r : Request) (rw' : RespWait) (laddr : Nat) (mem : Bytes)
    (h : sent ≠ 0 ∨ state = .dying) :
    ∃ out, r.call sent state rw' laddr mem = .ok ⟨EFAULT, mem, out, [], []⟩ := by
  have hwait : ¬ sent ≠ 0 → waitresp state rw' ≠ 0 := by
    intro hs
    rw [waitresp, if_pos (h.resolve_left hs)]
    decide
  have hcopy : ∀ len wantstr, ∃ out, spCopyin sent state rw' laddr len wantstr mem =
      .ok ⟨EFAULT, mem, out, [], []⟩ := by
    intro len wantstr
    have hreq : (copyinReq sent state rw' len wantstr).1 ≠ 0 := by
      unfold copyinReq
      split
      · assumption
      · exact hwait ‹_›
    unfold spCopyin
    exact ⟨_, if_pos hreq⟩
  cases r with
  | copyin len => exact hcopy len false
  | copyinstr len => exact hcopy len true
  | anonmmap howmuch =>
    have hreq : (anonmmapReq sent state rw').1 ≠ 0 := by
      unfold anonmmapReq
      split
      · assumption
      · exact hwait ‹_›
    exact ⟨0, if_pos hreq⟩

/-- With an answer, what is copied is what the length says. -/
theorem spCopyin_answered (hs : sent = 0) (hst : state ≠ .dying) (herr : rw'.error = 0) (len : Nat)
    (wantstr : Bool) : spCopyin sent state rw' laddr len wantstr mem =
      (memcpy laddr rw'.data (if wantstr then rw'.dlen else len) mem).map fun mem' =>
        ⟨0, mem', if wantstr then rw'.dlen else len, [if wantstr then rw'.dlen else len],
          [(laddr, if wantstr then rw'.dlen else len)]⟩ := by
  unfold spCopyin copyinReq waitresp
  simp only [hs, ne_eq, not_true_eq_false, if_false, if_neg hst, herr]
  cases memcpy laddr rw'.data (if wantstr then rw'.dlen else len) mem <;> rfl

/-- A copy of fixed length is right iff the reply has that many bytes. -/
theorem copyin_contained_iff (hf : Complete c pending f rest) (hdata : rw'.data = c.buf)
    (herr : rw'.error = 0) (hs : sent = 0) (hst : state ≠ .dying) (len : Nat) :
    (∃ e, rumpuserSpCopyin sent state rw' laddr len mem = .ok e ∧
      Contained (.copyin len) laddr f.body mem e) ↔ len ≤ f.body.length := by
  unfold rumpuserSpCopyin
  rw [spCopyin_answered hs hst herr, hdata]
  simp only [Bool.false_eq_true, if_false]
  cases hb : c.buf with
  | none =>
    have hnil : f.body = [] := hf.empty.mp hb
    rw [hnil]
    by_cases hlen : len = 0
    · subst hlen
      simp only [memcpy, if_true, Except.map]
      refine ⟨fun _ => le_rfl, fun _ => ⟨_, rfl, .inr ⟨[], List.prefix_refl _, rfl, ?_⟩⟩⟩
      funext x
      simp [Bytes.blit]
    · simp only [memcpy, if_neg hlen, Except.map]
      constructor
      · rintro ⟨e, he, _⟩
        cases he
      · intro hle
        exact absurd (Nat.le_zero.mp hle) hlen
  | some b =>
    simp only [memcpy, Except.map]
    constructor
    · rintro ⟨e, he, hcont⟩
      cases he
      rcases hcont with hrv | ⟨bs, hpre, hlen, _⟩
      · exact absurd (show (0 : Int) = EFAULT from hrv) (by decide)
      · rw [← hlen]
        exact hpre.length_le
    · intro hle
      refine ⟨_, rfl, .inr ⟨b.data.slice 0 len, ?_, Bytes.length_slice _ _ _, rfl⟩⟩
      obtain ⟨k, hk⟩ := Nat.exists_eq_add_of_le hle
      refine ⟨b.data.slice len k, ?_⟩
      rw [← hf.buffer hb, hf.size hb, hk, Bytes.slice_add, Nat.zero_add]

/-- A string stays inside of what was offered iff the reply does. -/
theorem copyinstr_contained_iff (hf : Complete c pending f rest) (hdata : rw'.data = c.buf)
    (hdlen : rw'.dlen = f.body.length) (herr : rw'.error = 0) (hs : sent = 0)
    (hst : state ≠ .dying) (len : Nat) :
    (∃ e, rumpuserSpCopyinstr sent state rw' laddr len mem = .ok e ∧
      Contained (.copyinstr len) laddr f.body mem e) ↔ f.body.length ≤ len := by
  unfold rumpuserSpCopyinstr
  rw [spCopyin_answered hs hst herr, hdata, hdlen]
  simp only [if_true]
  have hok : ∃ mem', memcpy laddr c.buf f.body.length mem = .ok mem' := by
    cases hb : c.buf with
    | none =>
      rw [hf.empty.mp hb]
      exact ⟨mem, rfl⟩
    | some b => exact ⟨_, rfl⟩
  obtain ⟨mem', hmem⟩ := hok
  rw [hmem]
  simp only [Except.map]
  constructor
  · rintro ⟨e, he, hcont⟩
    cases he
    have := (hcont (laddr, f.body.length) (List.mem_singleton_self _)).2
    exact Nat.le_of_add_le_add_left this
  · intro hle
    refine ⟨_, rfl, fun p hp => ?_⟩
    obtain rfl : p = (laddr, f.body.length) := List.mem_singleton.mp hp
    exact ⟨le_rfl, Nat.add_le_add_left hle _⟩

/-- A pointer is read from a reply with room for it iff the reply has room. -/
theorem anonmmap_contained_iff (hf : Complete c pending f rest) (hdata : rw'.data = c.buf)
    (herr : rw'.error = 0) (hs : sent = 0) (hst : state ≠ .dying) (howmuch : Nat) :
    (∃ e, rumpuserSpAnonmmap sent state rw' 0 mem = .ok e ∧
      Contained (.anonmmap howmuch) laddr f.body mem e) ↔ PTRSZ ≤ f.body.length := by
  unfold rumpuserSpAnonmmap anonmmapReq waitresp
  simp only [hs, ne_eq, not_true_eq_false, if_false, if_neg hst, herr, hdata]
  cases hb : c.buf with
  | none =>
    rw [hf.empty.mp hb]
    constructor
    · rintro ⟨e, he, _⟩
      cases he
    · intro hle
      cases hle
  | some b =>
    simp only
    generalize b.data.load 0 PTRSZ = resp
    constructor
    · rintro ⟨e, he, hcont⟩
      cases he
      exact hcont PTRSZ (List.mem_singleton_self _)
    · intro hle
      refine ⟨_, rfl, fun n hn => ?_⟩
      obtain rfl : n = PTRSZ := List.mem_singleton.mp hn
      exact hle

/-- A reply is harmless iff it has the length the call relies on, or the call
has failed before it came to use it. -/
theorem reply_contained_iff {w w' : Server} {rw : RespWait} (hf : Complete w.spc pending f rest)
    (hc : rspClass w.spc.hdr = RUMPSP_RESP) (herr : ∀ x ∈ w.spc.respwait, x.error = 0)
    (hd : dispatch w = .ok w')
    (hw : w'.spc.respwait.find? (fun x => x.reqno = rspReqno w.spc.hdr) = some rw) (r : Request) :
    (∃ e, r.call sent state rw laddr mem = .ok e ∧ Contained r laddr f.body mem e) ↔
      sent ≠ 0 ∨ state = .dying ∨ r.fits f.body.length := by
  unfold dispatch at hd
  rw [if_pos hc] at hd
  cases hd
  obtain ⟨hdata, hdlen, hzero⟩ := delivered hf hc herr hw
  by_cases hno : sent ≠ 0 ∨ state = .dying
  · obtain ⟨out, hcall⟩ := call_refused r rw laddr mem hno
    rw [hcall]
    refine ⟨fun _ => or_assoc.mp (.inl hno), fun _ => ⟨_, rfl, ?_⟩⟩
    cases r with
    | copyin len => exact .inl rfl
    | copyinstr len => exact fun p hp => by cases hp
    | anonmmap howmuch => exact fun n hn => by cases hn
  · rw [← or_assoc, or_iff_right hno]
    obtain ⟨hs, hst⟩ := not_or.mp hno
    replace hs : sent = 0 := not_not.mp hs
    cases r with
    | copyin len => exact copyin_contained_iff hf hdata hzero hs hst len
    | copyinstr len => exact copyinstr_contained_iff hf hdata hdlen hzero hs hst len
    | anonmmap howmuch => exact anonmmap_contained_iff hf hdata hzero hs hst howmuch

/-- A reply with four bytes to request 5. -/
def fourBytes : Frame := ⟨rspHdr 28 5 1 2 0, [1, 2, 3, 4], by decide, by decide⟩

/-- The server thread when it has read that reply, with one waiter. -/
def answered : Server :=
  { freshServer with
    spc := { freshServer.spc with
      state := .running
      hdr := Bytes.ofList fourBytes.head
      buf := some ⟨4, Bytes.ofList fourBytes.body⟩
      off := 28
      respwait := [doputwait 5] } }

theorem answered_complete : Complete answered.spc [] fourBytes [] :=
  ⟨by decide, by decide, by decide, by simp [answered, fourBytes], rfl⟩

/-- The waiter as the dispatch leaves it. -/
def informed : RespWait := ⟨5, some ⟨4, Bytes.ofList fourBytes.body⟩, 4, true, 0⟩

theorem answered_dispatch : dispatch answered = .ok (onSpc kickwaiter answered) :=
  if_pos (by decide)

theorem answered_waiter : (onSpc kickwaiter answered).spc.respwait.find?
    (fun x => x.reqno = rspReqno answered.spc.hdr) = some informed := by
  have hfind : (answered.spc.respwait.find? fun x => x.reqno = rspReqno answered.spc.hdr) =
      some (doputwait 5) := by
    have hreq : rspReqno (Bytes.ofList fourBytes.head) = 5 := by decide
    simp [answered, doputwait, hreq]
  refine (kickwaiter_find (by decide)).trans ?_
  rw [hfind]
  rfl

theorem reply_contained_iff_exact : dispatch answered = .ok (onSpc kickwaiter answered) ∧
    ∃ e, (Request.copyin 4).call 0 .running informed 64 (fun _ => 0) = .ok e ∧
      Contained (.copyin 4) 64 fourBytes.body (fun _ => 0) e :=
  ⟨answered_dispatch, (reply_contained_iff answered_complete (by decide) (by simp [answered, doputwait])
    answered_dispatch answered_waiter (.copyin 4)).mpr (.inr (.inr (by decide)))⟩

/-- Four bytes are too few for a copy of eight and for a pointer, and too many
for a string of two. -/
theorem reply_overruns : dispatch answered = .ok (onSpc kickwaiter answered) ∧
    (onSpc kickwaiter answered).spc.respwait.find?
      (fun x => x.reqno = rspReqno answered.spc.hdr) = some informed ∧
    ∀ r ∈ [Request.copyin 8, .copyinstr 2, .anonmmap 4096],
      ¬ ∃ e, r.call 0 .running informed 64 (fun _ => 0) = .ok e ∧
        Contained r 64 fourBytes.body (fun _ => 0) e := by
  refine ⟨answered_dispatch, answered_waiter, fun r hr => ?_⟩
  simp only [List.mem_cons, List.not_mem_nil, or_false] at hr
  rcases hr with rfl | rfl | rfl
  · intro h
    have := (copyin_contained_iff answered_complete rfl rfl rfl (by decide) 8).mp h
    exact absurd this (by decide)
  · intro h
    have := (copyinstr_contained_iff answered_complete rfl rfl rfl rfl (by decide) 2).mp h
    exact absurd this (by decide)
  · rintro ⟨e, he, hcont⟩
    cases he
    exact absurd (hcont PTRSZ (List.mem_singleton_self _)) (by decide)

end Frankenlibc.Sysproxy

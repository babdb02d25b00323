import Frankenlibc.Sysproxy.Framing

/-!
# The messages the server sends

`dosend` is given a message in pieces, and the host takes from it what it likes
at each call. The pieces that are done with are dropped, a piece that is taken
in part is shortened, and so what is still offered is always the rest of the
message. When `dosend` returns 0, nothing of it is left.

Every sender of the file announces in `rsp_len` what its pieces come to. So the
messages that went out are frames, and the peer's `readframe` finds them again,
in whatever portions they arrive. The receiver here takes a frame with
`readframe` and resets its buffer for the next one.
-/
namespace Frankenlibc.Sysproxy

open Frankenlibc.Lib

abbrev RUMPSP_COPYIN : Nat := 2
abbrev RUMPSP_COPYINSTR : Nat := 3
abbrev RUMPSP_COPYOUT : Nat := 4
abbrev RUMPSP_ANONMMAP : Nat := 6
abbrev RUMPSP_RAISE : Nat := 8

/-- The senders, with what they are called with. `copyin_req` and `anonmmap_req`
have their `reqno` from `putwait` and `send_copyout_req` from `nextreq`;
`send_raise_req` sets none, and sends what was on the stack. `pad` is what was
there between the two members of `struct rsp_sysresp`. -/
inductive Message
  | errorResp (reqno : Nat) (error : RspErr)
  | handshakeResp (reqno error : Nat)
  | syscallResp (reqno error pad : Nat) (retval : Nat × Nat)
  | preforkResp (reqno : Nat) (auth : List UInt8) (hauth : auth.length = 16)
  | copyinReq (reqno : Nat) (wantstr : Bool) (remaddr dlen : Nat)
  | copyoutReq (reqno remaddr : Nat) (data : List UInt8)
      (hdata : HDRSZ + 16 + data.length < 18446744073709551616)
  | anonmmapReq (reqno howmuch : Nat)
  | raiseReq (reqno signo : Nat)

/-- The `struct iovec`s of a sender. -/
def Message.iov : Message → List (List UInt8)
  | .errorResp reqno error => [rspHdr HDRSZ reqno RUMPSP_ERROR 0 error.code]
  | .handshakeResp reqno error =>
    [rspHdr (HDRSZ + 4) reqno RUMPSP_RESP RUMPSP_HANDSHAKE 0, Bytes.word 4 error]
  | .syscallResp reqno error pad retval =>
    [rspHdr (HDRSZ + 24) reqno RUMPSP_RESP RUMPSP_SYSCALL 0,
      Bytes.word 4 error ++ Bytes.word 4 pad ++ Bytes.word 8 retval.1 ++ Bytes.word 8 retval.2]
  | .preforkResp reqno auth _ =>
    [rspHdr (HDRSZ + 16) reqno RUMPSP_RESP RUMPSP_PREFORK 0, auth]
  | .copyinReq reqno wantstr remaddr dlen =>
    [rspHdr (HDRSZ + 16) reqno RUMPSP_REQ (if wantstr then RUMPSP_COPYINSTR else RUMPSP_COPYIN) 0,
      Bytes.word 8 dlen ++ Bytes.word 8 remaddr]
  | .copyoutReq reqno remaddr data _ =>
    [rspHdr (HDRSZ + 16 + data.length) reqno RUMPSP_REQ RUMPSP_COPYOUT 0,
      Bytes.word 8 data.length ++ Bytes.word 8 remaddr, data]
  | .anonmmapReq reqno howmuch =>
    [rspHdr (HDRSZ + 8) reqno RUMPSP_REQ RUMPSP_ANONMMAP 0, Bytes.word 8 howmuch]
  | .raiseReq reqno signo => [rspHdr HDRSZ reqno RUMPSP_REQ RUMPSP_RAISE signo]

/-- The replies of the server thread are among them. -/
theorem replies_are_messages (reqno error : Nat) (e : RspErr) (auth : List UInt8)
    (hauth : auth.length = 16) (w : Server) :
    sendErrorResp reqno e w = (dosend (Message.errorResp reqno e).iov w).map Prod.snd ∧
      sendHandshakeResp reqno error w =
        (dosend (Message.handshakeResp reqno error).iov w).map Prod.snd ∧
      sendPreforkResp reqno auth w =
        (dosend (Message.preforkResp reqno auth hauth).iov w).map Prod.snd :=
  ⟨rfl, rfl, rfl⟩

/-! ## `dosend` sends all of it -/

variable {w w' : Server}

theorem dosend_all {iov : List (List UInt8)} (h : dosend iov w = .ok (none, w')) :
    w'.wire = w.wire ++ iov.flatten := by
  obtain ⟨_, _, bs, _, ⟨_, hall, _⟩, hsent⟩ := dosend_sent h
  rw [hsent.wire, hall rfl]

/-- `dosend` gives up only on what the host says. -/
theorem dosend_succeeds {iov : List (List UInt8)} {r : Option Errno}
    (hs : ∀ o ∈ w.script, fatal o = false) (h : dosend iov w = .ok (r, w')) : r = none := by
  obtain ⟨_, hs', _, hscript, ⟨_, _, hr⟩, _⟩ := dosend_sent h
  have hany : hs'.any fatal = false := by
    rw [List.any_eq_false]
    intro o ho
    rw [hs o (by rw [hscript]; exact List.mem_cons_of_mem _ (List.mem_append_left _ ho))]
    exact Bool.false_ne_true
  rw [hany, Option.isSome_eq_false_iff, Option.isNone_iff_eq_none] at hr
  exact hr

/-! ## A message is a frame -/

theorem rspHdr_length (len reqno cls type word : Nat) :
    (rspHdr len reqno cls type word).length = HDRSZ := by
  simp [rspHdr]

theorem rspLen_rspHdr (len reqno cls type word : Nat) :
    rspLen (Bytes.ofList (rspHdr len reqno cls type word)) = len % 18446744073709551616 := by
  have h := Bytes.load_word [] (Bytes.word 8 reqno ++ (Bytes.word 2 cls ++ (Bytes.word 2 type ++
    Bytes.word 4 word))) 8 len
  simp only [rspHdr, List.append_assoc]
  exact h

/-- The header announces what the pieces come to. -/
theorem Message.announces (m : Message) :
    rspLen (Bytes.ofList (m.iov.headD [])) = HDRSZ + m.iov.tail.flatten.length := by
  cases m with
  | preforkResp reqno auth hauth =>
    simp [Message.iov, rspLen_rspHdr, hauth, HDRSZ]
  | copyoutReq reqno remaddr data hdata =>
    simp only [Message.iov, List.headD_cons, rspLen_rspHdr, Nat.mod_eq_of_lt hdata]
    simp [HDRSZ]
    omega
  | _ => simp [Message.iov, rspLen_rspHdr, HDRSZ]

def Message.frame (m : Message) : Frame where
  head := m.iov.headD []
  body := m.iov.tail.flatten
  headLen := by cases m <;> exact rspHdr_length ..
  bodyLen := m.announces

theorem Message.frame_bytes (m : Message) : m.frame.bytes = m.iov.flatten := by
  cases m <;> rfl

/-- The messages were sent one after the other, each with success. What else
the server does meanwhile does not matter, as long as it sends nothing. -/
inductive Sends (wire : List UInt8) : List Message → List UInt8 → Prop
  | nil : Sends wire [] wire
  | snoc {ms : List Message} {m : Message} {w w' : Server} : Sends wire ms w.wire →
      dosend m.iov w = .ok (none, w') → Sends wire (ms ++ [m]) w'.wire

theorem Sends.stream_eq {wire wire' : List UInt8} {ms : List Message} (h : Sends wire ms wire') :
    wire' = wire ++ stream (ms.map Message.frame) := by
  induction h with
  | nil => exact (List.append_nil _).symm
  | @snoc ms m w w' _ hd ih =>
    rw [dosend_all hd, ih, ← m.frame_bytes, List.append_assoc]
    simp [stream]

/-! ## The receiver -/

structure Receiver where
  spc : Client
  host : Host
  status : Status
  got : List (List UInt8 × List UInt8)

def receive (r : Receiver) (alloc : Bool) : Option Receiver :=
  if r.status = .up then
    match readframe alloc r.spc r.host with
    | (.again, c, h) => some { r with spc := c, host := h }
    | (.fail, c, h) => some { r with spc := c, host := h, status := .closed }
    | (.frame, c, h) => some { r with
        spc := spcresetbuf c
        host := h
        got := r.got ++ [(c.hdr.slice 0 HDRSZ, payload c)] }
  else none

/-- Where a receiver stands in a sequence of frames. -/
structure Received (fs : List Frame) (cuts : List Cut) (r : Receiver) : Prop where
  up : r.status = .up
  place : ∃ done rest, fs = done ++ rest ∧ r.got = done.map Frame.pair ∧
    Recv r.spc r.host.pending rest
  flowed : Flowed ⟨stream fs, cuts⟩ r.host

theorem receive_step {fs : List Frame} {cuts : List Cut} {r r' : Receiver}
    (hc : ∀ d ∈ cuts, d.flows) (h : Received fs cuts r) (hs : receive r true = some r') :
    Received fs cuts r' := by
  obtain ⟨done, rest, hfs, hgot, hr⟩ := h.place
  have hstep := readframe_step hr (flows_of hc h.flowed)
  unfold receive at hs
  rw [if_pos h.up] at hs
  generalize readframe true r.spc r.host = x at hs hstep
  cases hstep with
  | again hr' _ hfl =>
    cases hs
    exact ⟨h.up, ⟨done, rest, hfs, hgot, hr'⟩, h.flowed.trans hfl⟩
  | @frame c' h' f rest' he hcomp _ hfl =>
    cases hs
    refine ⟨h.up, ⟨done ++ [f], rest', ?_, ?_, ?_⟩, h.flowed.trans hfl⟩
    · rw [hfs, he, List.append_assoc, List.singleton_append]
    · show r.got ++ [(c'.hdr.slice 0 HDRSZ, payload c')] = _
      rw [hgot, hcomp.hdr, hcomp.payload, List.map_append, List.map_singleton, Frame.pair]
    · show Recv (spcresetbuf c') h'.pending rest'
      rw [hcomp.pending]
      exact recv_start ⟨rfl, rfl⟩ rest'

theorem received_run {fs : List Frame} {cuts : List Cut} {c : Client} (hc : Reset c)
    (hf : ∀ d ∈ cuts, d.flows) {tr : List (Receiver × Bool)} {r : Receiver}
    (hr : Run receive ⟨c, ⟨stream fs, cuts⟩, .up, []⟩ tr r)
    (ha : Guarded (fun _ alloc => alloc = true) tr) : Received fs cuts r := by
  refine Run.invariant (I := Received fs cuts)
    ⟨rfl, ⟨[], fs, rfl, rfl, recv_start hc fs⟩, .refl _⟩ ?_ hr ha
  intro r alloc r' h ht hs
  exact receive_step hf h (ht ▸ hs)

/-- Any pieces, and any results of `host_sendmsg` and `host_poll`: if `dosend`
returns 0, the host has taken all of the message, in order and once; and it
returns nothing else, if the host says nothing but counts, `EAGAIN` and `EINTR`.
So whatever the senders of the file have sent is found again by a receiver,
frame by frame, in whatever portions it arrives. -/
theorem dosend_transmits :
    (∀ iov w w', dosend iov w = .ok (none, w') → w'.wire = w.wire ++ iov.flatten) ∧
    (∀ iov w r w', (∀ o ∈ w.script, fatal o = false) → dosend iov w = .ok (r, w') → r = none) ∧
    ∀ wire ms wire', Sends wire ms wire' → ∀ c cuts, Reset c → (∀ d ∈ cuts, d.flows) →
      ∀ tr r, Run receive ⟨c, ⟨wire'.drop wire.length, cuts⟩, .up, []⟩ tr r →
        Guarded (fun _ alloc => alloc = true) tr →
        r.status = .up ∧ r.got <+: ms.map (fun m => m.frame.pair) ∧
          (r.host.pending = [] → r.got = ms.map fun m => m.frame.pair) ∧
          (r.host.pending = [] ∨ r.host.pending.length + cuts.countP Cut.isData ≤
            (wire'.drop wire.length).length + r.host.cuts.countP Cut.isData) := by
  refine ⟨fun iov w w' => dosend_all, fun iov w r w' => dosend_succeeds, ?_⟩
  intro wire ms wire' hsends c cuts hc hf tr r hr ha
  have hrest : wire'.drop wire.length = stream (ms.map Message.frame) := by
    rw [hsends.stream_eq, List.drop_left]
  rw [hrest] at hr ⊢
  have hrec := received_run hc hf hr ha
  obtain ⟨done, rest, hfs, hgot, hplace⟩ := hrec.place
  have hpairs : ms.map (fun m => m.frame.pair) = done.map Frame.pair ++ rest.map Frame.pair := by
    rw [← List.map_append, ← hfs, List.map_map]
    rfl
  refine ⟨hrec.up, ?_, fun hp => ?_, hrec.flowed.work⟩
  · rw [hgot, hpairs]
    exact List.prefix_append _ _
  · rw [hgot, hpairs, recv_all hplace hp, List.map_nil, List.append_nil]

/-- A server whose host takes a reply in three portions, the first of which ends
in the header and the second with it. -/
def inPortions : Server := { freshServer with
  script := [.newlwp true, .sent 9, .pollErr .intr, .polled, .sendErr .again, .polled, .sent 15,
    .sent 4] }

/-- A handshake is answered, and the answer is read in three other portions. -/
theorem dosend_transmits_handshake : ∃ w' tr r,
    dosend (Message.handshakeResp 7 0).iov inPortions = .ok (none, w') ∧
    w'.wire = (Message.handshakeResp 7 0).iov.flatten ∧
    Run receive ⟨freshServer.spc, ⟨w'.wire, [.upto 3, .again, .upto 19, .upto 9]⟩, .up, []⟩ tr r ∧
    r.host.pending = [] ∧ r.got = [(Message.handshakeResp 7 0).frame.pair] := by
  have hd : ∃ w', dosend (Message.handshakeResp 7 0).iov inPortions = .ok (none, w') := ⟨_, rfl⟩
  obtain ⟨w', hd⟩ := hd
  have hwire : w'.wire = (Message.handshakeResp 7 0).iov.flatten := dosend_transmits.1 _ _ _ hd
  obtain ⟨tr, r, hr, hp⟩ := exists_run [true, true, true, true] (f := receive)
    (s := ⟨freshServer.spc, ⟨(Message.handshakeResp 7 0).iov.flatten,
      [.upto 3, .again, .upto 19, .upto 9]⟩, .up, []⟩)
    (p := fun tr r => r.host.pending = [] ∧ Guarded (fun _ alloc => alloc = true) tr) (by decide)
  rw [decide_eq_true_eq] at hp
  rw [← hwire] at hr
  refine ⟨w', tr, r, hd, hwire, hr, hp.1, ?_⟩
  have hsends : Sends [] ([] ++ [Message.handshakeResp 7 0]) w'.wire := .snoc .nil hd
  exact (dosend_transmits.2.2 _ _ _ hsends _ _ ⟨rfl, rfl⟩ (by decide) tr r hr hp.2).2.2.1
    hp.1

end Frankenlibc.Sysproxy

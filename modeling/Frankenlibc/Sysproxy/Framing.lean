import Frankenlibc.Lib.Run
import Frankenlibc.Sysproxy.Dispatch

/-!
# Framing does not depend on how the stream is cut

The server thread polls a client, calls `readframe`, and dispatches what is
complete. The receiver invariant `Recv` says which bytes of the stream are in
`spc_hdr` and `spc_buf` and which are still on the wire. It holds from one call
to the next whatever the host's reads return, and every dispatch that returns
brings it back to the start of a header.
-/
namespace Frankenlibc.Sysproxy

open Frankenlibc.Lib

/-! ## The loop of `spserver` for one client -/

/-- Whether the connection is served, has been given up, or has taken the
server down. -/
inductive Status
  | up
  | closed
  | crashed
deriving DecidableEq, Repr

/-- A connection. `got` records the frames `readframe` has returned, `after`
what `spc_off` was after each dispatch and whether `spc_buf` was `NULL`. -/
structure Link where
  srv : Server
  host : Host
  status : Status
  got : List (List UInt8 × List UInt8)
  after : List (Nat × Bool)

/-- One round of the loop: whether `malloc` has memory for a payload, and the
results of the calls the dispatch makes. -/
structure Round where
  alloc : Bool
  script : List Outcome

def serve (s : Link) (e : Round) : Option Link :=
  if s.status = .up then
    match readframe e.alloc s.srv.spc s.host with
    | (.again, c, h) => some { s with srv := { s.srv with spc := c }, host := h }
    | (.fail, c, h) => some { s with srv := { s.srv with spc := c }, host := h, status := .closed }
    | (.frame, c, h) =>
      let s := { s with
        srv := { s.srv with spc := c, script := e.script }
        host := h
        got := s.got ++ [(c.hdr.slice 0 HDRSZ, payload c)] }
      match dispatch s.srv with
      | .ok w =>
        if w.script = [] then
          some { s with srv := w, after := s.after ++ [(w.spc.off, w.spc.buf.isNone)] }
        else none
      | .error (.crash deeds) =>
        some { s with srv := { s.srv with deeds := deeds }, status := .crashed }
      | .error .stuck => none
  else none

/-- The bytes of a sequence of frames. -/
def stream (fs : List Frame) : List UInt8 := (fs.map Frame.bytes).flatten

/-- The connection before anything was read. -/
def link (w : Server) (fs : List Frame) (cuts : List Cut) : Link :=
  ⟨w, ⟨stream fs, cuts⟩, .up, [], []⟩

/-! ## Reads -/

/-- A cut that brings bytes. -/
def Cut.isData : Cut → Bool
  | .upto _ => true
  | _ => false

/-- The peer is there: reads return bytes or `EAGAIN`. -/
def Cut.flows : Cut → Bool
  | .upto _ => true
  | .again => true
  | _ => false

/-- How the wire may change: cuts are used up, bytes are taken, and each cut
that brings bytes takes one at least, as long as there are any. -/
structure Flowed (h h' : Host) : Prop where
  cuts : ∀ c ∈ h'.cuts, c ∈ h.cuts
  less : h'.pending.length ≤ h.pending.length
  work : h'.pending = [] ∨ h'.pending.length + h.cuts.countP Cut.isData ≤
    h.pending.length + h'.cuts.countP Cut.isData

theorem Flowed.refl (h : Host) : Flowed h h := ⟨fun _ hc => hc, le_rfl, .inr le_rfl⟩

theorem Flowed.trans {h₁ h₂ h₃ : Host} (a : Flowed h₁ h₂) (b : Flowed h₂ h₃) : Flowed h₁ h₃ := by
  refine ⟨fun c hc => a.cuts c (b.cuts c hc), b.less.trans a.less, ?_⟩
  rcases b.work with hb | hb
  · exact .inl hb
  · rcases a.work with ha | ha
    · have hl := b.less
      rw [ha, List.length_nil] at hl
      exact .inl (List.eq_nil_of_length_eq_zero (by omega))
    · exact .inr (by omega)

/-- What a read of a flowing wire returns. -/
inductive Got (left : Nat) (h : Host) : Read → Host → Prop
  | again {h' : Host} : h'.pending = h.pending → Flowed h h' → Got left h .again h'
  | data {bs : List UInt8} {h' : Host} : bs ≠ [] → bs.length ≤ left →
      h.pending = bs ++ h'.pending → Flowed h h' → Got left h (.data bs) h'

theorem hostRead_got (left : Nat) {h : Host} (hl : 0 < left) (hf : ∀ c ∈ h.cuts, c.flows) :
    Got left h (hostRead left h).1 (hostRead left h).2 := by
  obtain ⟨pending, cuts⟩ := h
  cases cuts with
  | nil => exact .again rfl (.refl _)
  | cons c cs =>
    have hsub : ∀ d ∈ cs, d ∈ c :: cs := fun d hd => List.mem_cons_of_mem _ hd
    cases c with
    | again => exact .again rfl ⟨hsub, le_rfl, .inr (by simp [hostRead, Cut.isData])⟩
    | eof => exact absurd (hf .eof List.mem_cons_self) (by decide)
    | error => exact absurd (hf .error List.mem_cons_self) (by decide)
    | upto n =>
      by_cases hp : pending = []
      · simp only [hostRead, if_pos hp]
        exact .again rfl ⟨hsub, le_rfl, .inl hp⟩
      · simp only [hostRead, if_neg hp]
        have hpos : 0 < pending.length := List.length_pos_iff.mpr hp
        refine .data ?_ ?_ (List.take_append_drop _ _).symm ⟨hsub, ?_, .inr ?_⟩
        · intro hnil
          have := congrArg List.length hnil
          simp only [List.length_take, List.length_nil] at this
          omega
        · simp only [List.length_take]
          omega
        · simp only [List.length_drop]
          omega
        · simp only [List.length_drop, List.countP_cons, Cut.isData, if_true]
          omega

/-! ## The receiver -/

/-- Where the receiver stands when the frames `rest` have not been returned:
inside a header, or inside the payload of the first of them. -/
inductive Recv (c : Client) (pending : List UInt8) : List Frame → Prop
  | head {pre : List UInt8} {rest : List Frame} : pre.length < HDRSZ → c.off = pre.length →
      c.buf = none → c.hdr.slice 0 pre.length = pre → pre ++ pending = stream rest →
      Recv c pending rest
  | body {f : Frame} {b : Buf} {k : Nat} {rest : List Frame} : c.hdr.slice 0 HDRSZ = f.head →
      c.off = HDRSZ + k → k < f.body.length → c.buf = some b → b.size = f.body.length →
      b.data.slice 0 k = f.body.take k → pending = f.body.drop k ++ stream rest →
      Recv c pending (f :: rest)

theorem recv_start {c : Client} (h : Reset c) (rest : List Frame) : Recv c (stream rest) rest :=
  @Recv.head c (stream rest) [] rest (by decide) h.1 h.2 rfl rfl

/-- `readframe` has returned the first frame of `rest`. -/
structure Complete (c : Client) (pending : List UInt8) (f : Frame) (rest : List Frame) : Prop where
  hdr : c.hdr.slice 0 HDRSZ = f.head
  payload : payload c = f.body
  off : c.off = HDRSZ + f.body.length
  empty : c.buf = none ↔ f.body = []
  pending : pending = stream rest

/-- Only the receiving fields differ. -/
def SameOther (c c' : Client) : Prop :=
  c' = { c with hdr := c'.hdr, buf := c'.buf, off := c'.off }

theorem frame_len {c : Client} {f : Frame} (h : c.hdr.slice 0 HDRSZ = f.head) :
    rspLen c.hdr = HDRSZ + f.body.length := by
  have hl : c.hdr.slice 0 f.head.length = f.head := by
    rw [f.headLen]
    exact h
  rw [← f.bodyLen]
  exact Bytes.load_of_slice hl (by rw [f.headLen]; decide)

theorem frame_len_lt (f : Frame) : HDRSZ + f.body.length < 18446744073709551616 := by
  rw [← f.bodyLen]
  exact Bytes.load_lt _ _ _

/-- What a call of `readframe` on a flowing wire comes to. -/
inductive Step (c : Client) (h : Host) (rest : List Frame) : Ret × Client × Host → Prop
  | again {c' : Client} {h' : Host} : Recv c' h'.pending rest → SameOther c c' → Flowed h h' →
      Step c h rest (.again, c', h')
  | frame {c' : Client} {h' : Host} {f : Frame} {rest' : List Frame} : rest = f :: rest' →
      Complete c' h'.pending f rest' → SameOther c c' → Flowed h h' →
      Step c h rest (.frame, c', h')

theorem stream_cons (f : Frame) (fs : List Frame) :
    stream (f :: fs) = f.head ++ (f.body ++ stream fs) := by
  simp [stream, Frame.bytes]

/-- In the payload of `f`, with `k` bytes of it there. -/
theorem readbody_step {c : Client} {h : Host} {f : Frame} {b : Buf} {k : Nat} {rest : List Frame}
    (hf : ∀ d ∈ h.cuts, d.flows) (hh : c.hdr.slice 0 HDRSZ = f.head) (ho : c.off = HDRSZ + k)
    (hk : k < f.body.length) (hb : c.buf = some b) (hs : b.size = f.body.length)
    (hd : b.data.slice 0 k = f.body.take k) (hp : h.pending = f.body.drop k ++ stream rest) :
    Step c h (f :: rest) (readbody (HDRSZ + f.body.length) c h) := by
  have hlt := frame_len_lt f
  have hleft : sub64 (HDRSZ + f.body.length) c.off = f.body.length - k := by
    rw [ho, sub64_of_le (Nat.add_le_add_left hk.le _) hlt]
    omega
  have hsame : SameOther c c := rfl
  unfold readbody
  simp only [hleft, if_neg (Nat.sub_ne_zero_of_lt hk), hb]
  have hg := hostRead_got (f.body.length - k) (h := h) (by omega) hf
  generalize hostRead (f.body.length - k) h = r at hg
  obtain ⟨r, h'⟩ := r
  cases hg with
  | again hp' hfl =>
    refine .again ?_ hsame hfl
    exact .body hh ho hk hb hs hd (hp'.trans hp)
  | @data bs _ hne hle hp' hfl =>
    -- the bytes read are the next ones of the payload
    have hbs : f.body.drop k = bs ++ (f.body.drop k).drop bs.length ∧
        h'.pending = (f.body.drop k).drop bs.length ++ stream rest := by
      have hlen : bs.length ≤ (f.body.drop k).length := by
        rw [List.length_drop]
        exact hle
      rw [hp', ← List.take_append_drop bs.length (f.body.drop k), List.append_assoc] at hp
      obtain ⟨h₁, h₂⟩ := List.append_inj hp (by rw [List.length_take]; omega)
      refine ⟨?_, h₂⟩
      conv_lhs => rw [← List.take_append_drop bs.length (f.body.drop k)]
      rw [← h₁]
    have htake : f.body.take (k + bs.length) = f.body.take k ++ bs := by
      rw [List.take_add]
      congr 1
      rw [hbs.1]
      exact List.take_left
    have hklen : (f.body.take k).length = k := by
      rw [List.length_take]
      omega
    have hslice : (b.data.blit k bs).slice 0 (k + bs.length) = f.body.take (k + bs.length) := by
      have hpre : b.data.slice 0 (f.body.take k).length = f.body.take k := by rw [hklen, hd]
      have h := Bytes.slice_blit_append (k := bs) hpre
      rw [hklen, Nat.zero_add] at h
      rw [htake, h]
    have hoff : c.off - HDRSZ = k := by
      rw [ho]
      exact Nat.add_sub_cancel_left _ _
    simp only [hoff]
    by_cases hall : f.body.length - k - bs.length = 0
    · have hfull : k + bs.length = f.body.length := by omega
      rw [if_pos hall]
      refine .frame rfl ⟨hh, ?_, ?_, ?_, ?_⟩ rfl hfl
      · show (b.data.blit k bs).slice 0 b.size = f.body
        rw [hs, ← hfull, hslice, hfull, List.take_length]
      · show c.off + bs.length = HDRSZ + f.body.length
        rw [ho, Nat.add_assoc, hfull]
      · constructor
        · intro h
          cases h
        · intro h
          rw [h] at hk
          exact absurd hk (Nat.not_lt_zero _)
      · rw [hbs.2, List.drop_drop, hfull, List.drop_length, List.nil_append]
    · rw [if_neg hall]
      refine .again ?_ rfl hfl
      refine .body (k := k + bs.length) hh ?_ (by omega) rfl hs hslice ?_
      · show c.off + bs.length = HDRSZ + (k + bs.length)
        rw [ho, Nat.add_assoc]
      · rw [hbs.2, List.drop_drop]

/-- A header that is there in full is the first frame's. -/
theorem head_complete {l pending : List UInt8} {rest : List Frame} (hl : l.length = HDRSZ)
    (h : l ++ pending = stream rest) :
    ∃ f rest', rest = f :: rest' ∧ l = f.head ∧ pending = f.body ++ stream rest' := by
  cases rest with
  | nil =>
    have hnil := (List.append_eq_nil_iff.mp h).1
    rw [hnil] at hl
    exact absurd hl (by decide)
  | cons f rest' =>
    rw [stream_cons] at h
    obtain ⟨h₁, h₂⟩ := List.append_inj h (hl.trans f.headLen.symm)
    exact ⟨f, rest', rfl, h₁, h₂⟩

theorem readframe_step {c : Client} {h : Host} {rest : List Frame} (hr : Recv c h.pending rest)
    (hf : ∀ d ∈ h.cuts, d.flows) : Step c h rest (readframe true c h) := by
  cases hr with
  | @body f b k rest' hh ho hk hb hs hd hp =>
    have hge : ¬ c.off < HDRSZ := by
      rw [ho]
      exact Nat.not_lt.mpr (Nat.le_add_right _ _)
    unfold readframe
    rw [if_neg hge, frame_len hh]
    exact readbody_step hf hh ho hk hb hs hd hp
  | @head pre _ hlt ho hb hs hp =>
    have hsame : SameOther c c := rfl
    unfold readframe
    rw [if_pos (ho ▸ hlt)]
    have hg := hostRead_got (HDRSZ - c.off) (h := h) (by omega) hf
    generalize hostRead (HDRSZ - c.off) h = r at hg
    obtain ⟨r, h'⟩ := r
    cases hg with
    | again hp' hfl => exact .again (.head hlt ho hb hs (hp' ▸ hp)) hsame hfl
    | @data bs _ hne hle hp' hfl =>
      have hpre : (c.hdr.blit c.off bs).slice 0 (pre ++ bs).length = pre ++ bs := by
        have h := Bytes.slice_blit_append (k := bs) hs
        rw [Nat.zero_add] at h
        rw [List.length_append, ho]
        exact h
      have hoff : c.off + bs.length = (pre ++ bs).length := by
        rw [List.length_append, ho]
      have hrest : (pre ++ bs) ++ h'.pending = stream rest := by
        rw [List.append_assoc, ← hp']
        exact hp
      simp only [hoff]
      by_cases hmore : (pre ++ bs).length < HDRSZ
      · rw [if_pos hmore]
        refine .again ?_ rfl hfl
        exact .head hmore rfl hb hpre hrest
      · have hfull : (pre ++ bs).length = HDRSZ := by omega
        obtain ⟨f, rest', rfl, hhead, hpend⟩ := head_complete hfull hrest
        have hh : (c.hdr.blit c.off bs).slice 0 HDRSZ = f.head := by
          rw [← hhead, ← hfull]
          exact hpre
        have hlen : rspLen (c.hdr.blit c.off bs) = HDRSZ + f.body.length :=
          frame_len (c := { c with hdr := c.hdr.blit c.off bs }) hh
        rw [if_neg hmore, hlen, if_neg (Nat.not_lt.mpr (Nat.le_add_right _ _)), hfull]
        by_cases hbody : f.body = []
        · rw [if_pos (by rw [hbody]; rfl)]
          refine .frame rfl ⟨hh, ?_, ?_, ?_, ?_⟩ rfl hfl
          · simp [payload, hb, hbody]
          · simp [hbody]
          · simp [hb, hbody]
          · rw [hpend, hbody, List.nil_append]
        · have hpos : 0 < f.body.length := List.length_pos_iff.mpr hbody
          rw [if_neg (by omega), if_pos trivial]
          have hsz : HDRSZ + f.body.length - HDRSZ = f.body.length := Nat.add_sub_cancel_left _ _
          rw [hsz]
          -- the payload is read by the same call, from its start
          have hstep := readbody_step (c := { c with
            hdr := c.hdr.blit c.off bs
            buf := some ⟨f.body.length, fun _ => 0⟩
            off := HDRSZ }) (h := h') (k := 0)
            (fun d hd => hf d (hfl.cuts d hd)) hh rfl hpos rfl rfl rfl hpend
          generalize readbody (HDRSZ + f.body.length) _ h' = r at hstep ⊢
          cases hstep with
          | again hr hso hfl' => exact .again hr hso (hfl.trans hfl')
          | frame he hc hso hfl' => exact .frame he hc hso (hfl.trans hfl')

/-! ## Runs -/

/-- What `readframe` has returned for a frame. -/
def Frame.pair (f : Frame) : List UInt8 × List UInt8 := (f.head, f.body)

/-- The state of the connection inside a run. -/
structure Served (fs : List Frame) (cuts : List Cut) (s : Link) : Prop where
  up : s.status = .up
  place : ∃ done rest, fs = done ++ rest ∧ s.got = done.map Frame.pair ∧
    Recv s.srv.spc s.host.pending rest
  reset : s.after = s.got.map fun _ => (0, true)
  flowed : Flowed ⟨stream fs, cuts⟩ s.host

/-- The header of a guest's handshake. -/
def isHello (head : List UInt8) : Bool :=
  rspClass (Bytes.ofList head) = RUMPSP_REQ ∧ rspType (Bytes.ofList head) = RUMPSP_HANDSHAKE ∧
    rspWord (Bytes.ofList head) = HANDSHAKE_GUEST

/-- The frame being received is a guest's handshake without a name, on a new
connection, and the next read brings the rest of it. -/
def deadly (fs : List Frame) (s : Link) (_ : Round) : Bool :=
  match fs[s.got.length]?, s.host.cuts with
  | some f, .upto n :: _ => s.srv.spc.state = .new ∧ isHello f.head ∧ f.body = [] ∧
      HDRSZ ≤ s.srv.spc.off + (n + 1)
  | _, _ => false

theorem hello_of_head {c : Client} {f : Frame} (h : c.hdr.slice 0 HDRSZ = f.head) :
    Hello c ↔ c.state = .new ∧ isHello f.head = true := by
  have hl : c.hdr.slice 0 f.head.length = f.head := by
    rw [f.headLen]
    exact h
  have hc : rspClass c.hdr = rspClass (Bytes.ofList f.head) :=
    Bytes.load_of_slice hl (by rw [f.headLen]; decide)
  have ht : rspType c.hdr = rspType (Bytes.ofList f.head) :=
    Bytes.load_of_slice hl (by rw [f.headLen]; decide)
  have hw : rspWord c.hdr = rspWord (Bytes.ofList f.head) :=
    Bytes.load_of_slice hl (by rw [f.headLen])
  simp only [Hello, isHello, hc, ht, hw, decide_eq_true_eq]
  tauto

/-- How far a read takes the receiver inside a header. -/
theorem readframe_off {c : Client} {h : Host} {n : Nat} {cs : List Cut} (hlt : c.off < HDRSZ)
    (hcuts : h.cuts = .upto n :: cs) (hlong : HDRSZ - c.off ≤ h.pending.length) :
    (HDRSZ ≤ c.off + (n + 1) → HDRSZ ≤ (readframe true c h).2.1.off) ∧
      (c.off + (n + 1) < HDRSZ → (readframe true c h).1 = .again) := by
  have hne : h.pending ≠ [] := by
    intro h0
    rw [h0, List.length_nil] at hlong
    omega
  have hlen : (h.pending.take (min (n + 1) (HDRSZ - c.off))).length =
      min (n + 1) (HDRSZ - c.off) := by
    rw [List.length_take]
    omega
  simp only [readframe, if_pos hlt, hostRead, hcuts, if_neg hne, hlen]
  constructor
  · intro hn
    have hfull : c.off + min (n + 1) (HDRSZ - c.off) = HDRSZ := by omega
    simp only [hfull, Nat.lt_irrefl, if_false, if_true]
    split
    · exact le_rfl
    · split
      · exact le_rfl
      · exact ((readbody_inv _ { c with off := HDRSZ, hdr := _, buf := _ } _).keeps.1 :)
  · intro hn
    rw [if_pos (by omega)]

/-- Inside a header, a header-only frame is returned by the read that brings
the rest of it and by no other. -/
theorem readframe_header {c : Client} {h : Host} {f : Frame} {rest : List Frame}
    (hr : Recv c h.pending (f :: rest)) (hb : f.body = []) (hf : ∀ d ∈ h.cuts, d.flows) :
    (readframe true c h).1 = .frame ↔
      ∃ n cs, h.cuts = .upto n :: cs ∧ HDRSZ ≤ c.off + (n + 1) := by
  have hstep := readframe_step hr hf
  cases hr with
  | @body _ _ k _ _ _ hk =>
    rw [hb] at hk
    exact absurd hk (Nat.not_lt_zero k)
  | @head pre _ hlt ho _ _ hp =>
    have hlong : HDRSZ - c.off ≤ h.pending.length := by
      have hl := congrArg List.length hp
      rw [stream_cons, List.length_append, List.length_append, f.headLen] at hl
      omega
    rw [← ho] at hlt
    cases hc : h.cuts with
    | nil => simp [readframe, hlt, hostRead, hc]
    | cons d cs =>
      cases d with
      | again => simp [readframe, hlt, hostRead, hc]
      | eof => simp [readframe, hlt, hostRead, hc]
      | error => simp [readframe, hlt, hostRead, hc]
      | upto n =>
        obtain ⟨hdone, hmore⟩ := readframe_off hlt hc hlong
        constructor
        · intro hfr
          refine ⟨n, cs, rfl, ?_⟩
          by_contra hn
          rw [hmore (by omega)] at hfr
          cases hfr
        · rintro ⟨n', cs', he, hn⟩
          cases he
          have hoff := hdone hn
          generalize readframe true c h = r at hstep hoff ⊢
          cases hstep with
          | frame => rfl
          | again hr' _ _ =>
            cases hr' with
            | head hlt' ho' => exact absurd hoff (Nat.not_le.mpr (ho' ▸ hlt'))
            | body _ _ hk =>
              rw [hb] at hk
              exact absurd hk (Nat.not_lt_zero _)

theorem next_frame {fs done rest : List Frame} {got : List (List UInt8 × List UInt8)}
    (hfs : fs = done ++ rest) (hgot : got = done.map Frame.pair) : fs[got.length]? = rest.head? := by
  rw [hgot, List.length_map, hfs, List.getElem?_append_right le_rfl, Nat.sub_self,
    List.head?_eq_getElem?]

/-- The condition as the step sees it. -/
theorem deadly_iff {fs done rest : List Frame} {s : Link} {e : Round} (hfs : fs = done ++ rest)
    (hgot : s.got = done.map Frame.pair) (hr : Recv s.srv.spc s.host.pending rest)
    (hf : ∀ d ∈ s.host.cuts, d.flows) :
    deadly fs s e = true ↔ ∃ f rest', rest = f :: rest' ∧ s.srv.spc.state = .new ∧
      isHello f.head = true ∧ f.body = [] ∧ (readframe true s.srv.spc s.host).1 = .frame := by
  unfold deadly
  rw [next_frame hfs hgot]
  cases rest with
  | nil => simp
  | cons f rest' =>
    constructor
    · intro h
      cases hc : s.host.cuts with
      | nil => simp [hc] at h
      | cons d cs =>
        cases d with
        | again => simp [hc] at h
        | eof => simp [hc] at h
        | error => simp [hc] at h
        | upto n =>
          simp only [List.head?_cons, hc, decide_eq_true_eq] at h
          obtain ⟨hn, hh, hb, ho⟩ := h
          exact ⟨f, rest', rfl, hn, hh, hb, (readframe_header hr hb hf).mpr ⟨n, cs, hc, ho⟩⟩
    · rintro ⟨f', rest'', he, hn, hh, hb, hfr⟩
      cases he
      obtain ⟨n, cs, hc, ho⟩ := (readframe_header hr hb hf).mp hfr
      simp only [List.head?_cons, hc, decide_eq_true_eq]
      exact ⟨hn, hh, hb, ho⟩

theorem flows_of {cuts : List Cut} {fs : List Frame} {h : Host} (hc : ∀ d ∈ cuts, d.flows)
    (hfl : Flowed ⟨stream fs, cuts⟩ h) : ∀ d ∈ h.cuts, d.flows :=
  fun d hd => hc d (hfl.cuts d hd)

/-- A round keeps the connection going or is deadly. -/
theorem serve_step {fs : List Frame} {cuts : List Cut} {s s' : Link} {e : Round}
    (hc : ∀ d ∈ cuts, d.flows) (h : Served fs cuts s) (ha : e.alloc = true)
    (hs : serve s e = some s') :
    (deadly fs s e = false → Served fs cuts s') ∧
      (deadly fs s e = true → s'.status = .crashed) := by
  obtain ⟨done, rest, hfs, hgot, hr⟩ := h.place
  have hf := flows_of hc h.flowed
  have hdead := deadly_iff (e := e) hfs hgot hr hf
  have hstep := readframe_step hr hf
  unfold serve at hs
  rw [if_pos h.up, ha] at hs
  generalize readframe true s.srv.spc s.host = r at hs hdead hstep
  cases hstep with
  | again hr' hso hfl =>
    cases hs
    refine ⟨fun _ => ⟨h.up, ⟨done, rest, hfs, hgot, hr'⟩, h.reset, h.flowed.trans hfl⟩, fun hd => ?_⟩
    obtain ⟨_, _, _, _, _, _, hfr⟩ := hdead.mp hd
    cases hfr
  | @frame c' h' f rest' he hcomp hso hfl =>
    subst he
    have hstate : c'.state = s.srv.spc.state := by rw [hso]
    simp only [hcomp.hdr, hcomp.payload] at hs
    have hdeadly : deadly fs s e = true ↔ Hello c' ∧ c'.buf = none := by
      rw [hdead, hello_of_head hcomp.hdr, hcomp.empty, hstate]
      constructor
      · rintro ⟨f', rest'', heq, hn, hh, hb, _⟩
        cases heq
        exact ⟨⟨hn, hh⟩, hb⟩
      · rintro ⟨⟨hn, hh⟩, hb⟩
        exact ⟨f, rest', rfl, hn, hh, hb, rfl⟩
    split at hs
    · rename_i w hw
      split at hs
      · cases hs
        have hreset := (dispatch_spec hw).reset
        refine ⟨fun _ => ⟨h.up, ⟨done ++ [f], rest', ?_, ?_, ?_⟩, ?_, h.flowed.trans hfl⟩, fun hd => ?_⟩
        · rw [hfs, List.append_assoc, List.singleton_append]
        · show s.got ++ [(f.head, f.body)] = _
          rw [hgot, List.map_append, List.map_singleton, Frame.pair]
        · show Recv w.spc h'.pending rest'
          rw [hcomp.pending]
          exact recv_start hreset rest'
        · show s.after ++ [(w.spc.off, w.spc.buf.isNone)] = _
          rw [h.reset, hreset.1, hreset.2, List.map_append]
          rfl
        · obtain ⟨hhello, hbuf⟩ := hdeadly.mp hd
          have hx := dispatch_hello (w := { s.srv with spc := c', script := e.script }) hhello hbuf
          rw [hw] at hx
          cases hx
      · cases hs
    · rename_i hw
      cases hs
      refine ⟨fun hd => ?_, fun _ => rfl⟩
      obtain ⟨hbuf, hcase⟩ := dispatch_crash hw
      rcases hcase with hhello | ⟨_, hoff, _⟩
      · rw [hdeadly.mpr ⟨hhello, hbuf⟩] at hd
        cases hd
      · -- without a payload the offset is that of the header
        have hb : f.body = [] := hcomp.empty.mp hbuf
        have ho : c'.off = HDRSZ := by rw [hcomp.off, hb]; rfl
        have hz : sub64 c'.off HDRSZ = FORKSZ := hoff
        rw [ho] at hz
        exact absurd hz (by decide)
    · cases hs

/-- The frames are returned in order, each once, none is lost, and every
dispatch resets the receiver. -/
structure Framed (fs : List Frame) (cuts : List Cut) (s : Link) : Prop where
  up : s.status = .up
  /-- What was returned is the beginning of the sequence, what is in the
  receiver and on the wire is the rest of it, and with nothing left on the wire
  it is all of it. -/
  frames : ∃ done rest, fs = done ++ rest ∧ s.got = done.map Frame.pair ∧
    s.srv.spc.off + s.host.pending.length = (stream rest).length ∧
    (s.host.pending = [] → rest = [])
  /-- After each dispatch `spc_off` was 0 and `spc_buf` was `NULL`. -/
  reset : s.after = s.got.map fun _ => (0, true)
  /-- As many reads that bring bytes as the stream has bytes empty the wire. -/
  progress : s.host.pending = [] ∨ s.host.pending.length + cuts.countP Cut.isData ≤
    (stream fs).length + s.host.cuts.countP Cut.isData

theorem recv_length {c : Client} {pending : List UInt8} {rest : List Frame}
    (h : Recv c pending rest) : c.off + pending.length = (stream rest).length := by
  cases h with
  | @head pre _ _ ho _ _ hp =>
    have hl := congrArg List.length hp
    rw [List.length_append] at hl
    omega
  | @body f _ k rest' _ ho hk _ _ _ hp =>
    rw [hp, ho, stream_cons]
    simp only [List.length_append, List.length_drop, f.headLen]
    omega

theorem recv_all {c : Client} {pending : List UInt8} {rest : List Frame}
    (h : Recv c pending rest) (hp : pending = []) : rest = [] := by
  cases h with
  | @head pre _ hlt _ _ _ he =>
    cases rest with
    | nil => rfl
    | cons f rest' =>
      have hl := congrArg List.length he
      rw [hp, List.append_nil, stream_cons, List.length_append, f.headLen] at hl
      omega
  | @body f _ k _ _ _ hk _ _ _ he =>
    have hl := congrArg List.length he
    rw [hp, List.length_nil, List.length_append, List.length_drop] at hl
    omega

theorem Served.framed {fs : List Frame} {cuts : List Cut} {s : Link} (h : Served fs cuts s) :
    Framed fs cuts s := by
  obtain ⟨done, rest, hfs, hgot, hr⟩ := h.place
  exact ⟨h.up, ⟨done, rest, hfs, hgot, recv_length hr, recv_all hr⟩, h.reset, h.flowed.work⟩

section Runs

variable {w : Server} {fs : List Frame} {cuts : List Cut} {tr : List (Link × Round)} {s : Link}

theorem served_start (hw : Reset w.spc) : Served fs cuts (link w fs cuts) :=
  ⟨rfl, ⟨[], fs, rfl, rfl, recv_start hw fs⟩, rfl, .refl _⟩

theorem served_run (hw : Reset w.spc) (hc : ∀ d ∈ cuts, d.flows)
    (hr : Run serve (link w fs cuts) tr s) (ha : Guarded (fun _ e => e.alloc = true) tr)
    (hn : Guarded (fun s e => deadly fs s e = false) tr) : Served fs cuts s := by
  have hok : Guarded (fun s e => e.alloc = true ∧ deadly fs s e = false) tr :=
    fun q hq => ⟨ha q hq, hn q hq⟩
  exact Run.invariant (I := Served fs cuts) (served_start hw)
    (fun s e s' h hx hs => (serve_step hc h hx.1 hs).1 hx.2) hr hok

/-- The first deadly round shows in the next state. -/
theorem never_deadly (hw : Reset w.spc) (hc : ∀ d ∈ cuts, d.flows)
    (hr : Run serve (link w fs cuts) tr s) (ha : Guarded (fun _ e => e.alloc = true) tr)
    (hall : ∀ q ∈ tr, Framed fs cuts q.1) (hlast : Framed fs cuts s) :
    Guarded (fun s e => deadly fs s e = false) tr := by
  induction hr with
  | nil => exact Guarded.nil _
  | @snoc tr s s' e hrun hs ih =>
    obtain ⟨ha', hae⟩ := guarded_snoc.mp ha
    have hn := ih ha' (fun q hq => hall q (List.mem_append_left _ hq)) (hall (s, e) (by simp))
    refine guarded_snoc.mpr ⟨hn, ?_⟩
    by_contra hd
    have hcr := (serve_step hc (served_run hw hc hrun ha' hn) hae hs).2 (by simpa using hd)
    rw [hlast.up] at hcr
    cases hcr

/-- Any frames, any way of cutting the stream with `EAGAIN` anywhere, any
results of the calls a dispatch makes, memory for every payload: the frames
come out as they went in, in every state of the run, exactly if no round
completes a guest's handshake without a name on a new connection. -/
theorem framing_iff (hw : Reset w.spc) (hc : ∀ d ∈ cuts, d.flows)
    (hr : Run serve (link w fs cuts) tr s) (ha : Guarded (fun _ e => e.alloc = true) tr) :
    ((∀ q ∈ tr, Framed fs cuts q.1) ∧ Framed fs cuts s) ↔
      Guarded (fun s e => deadly fs s e = false) tr := by
  refine ⟨fun h => never_deadly hw hc hr ha h.1 h.2, fun hn => ⟨fun q hq => ?_, ?_⟩⟩
  · obtain ⟨l, hl, hle⟩ := hr.reaches_mem hq
    exact (served_run hw hc hl (ha.prefix_of hle) (hn.prefix_of hle)).framed
  · exact (served_run hw hc hr ha hn).framed

end Runs

/-- The handshake of a guest called `sh`. -/
def helloSh : Frame := ⟨rspHdr 26 1 0 0 0, [115, 104], by decide, by decide⟩

/-- System call 20 without arguments. -/
def syscall20 : Frame := ⟨rspHdr 24 2 0 1 20, [], by decide, by decide⟩

/-- A guest's handshake without a name. -/
def helloNobody : Frame := ⟨rspHdr 24 1 0 0 0, [], by decide, by decide⟩

/-- A handshake and a system call, cut inside the first header, at its end,
inside the name, and across the two frames. -/
theorem framing_iff_pieces : ∃ tr s,
    Run serve (link freshServer [helloSh, syscall20]
      [.upto 9, .again, .upto 13, .upto 0, .again, .upto 30, .upto 99]) tr s ∧
    s.got = [helloSh.pair, syscall20.pair] ∧ s.srv.spc.state = .running ∧
    s.after = [(0, true), (0, true)] ∧ Framed [helloSh, syscall20]
      [.upto 9, .again, .upto 13, .upto 0, .again, .upto 30, .upto 99] s := by
  obtain ⟨tr, s, hr, hp⟩ := exists_run (f := serve)
    (s := link freshServer [helloSh, syscall20]
      [.upto 9, .again, .upto 13, .upto 0, .again, .upto 30, .upto 99])
    [⟨true, []⟩, ⟨true, []⟩, ⟨true, []⟩, ⟨true, []⟩,
      ⟨true, [.rfork true, .newlwp true, .sent 10, .polled, .sent 18]⟩, ⟨true, [.malloc true]⟩]
    (p := fun tr s => Guarded (fun _ e => e.alloc = true) tr ∧
      Guarded (fun s e => deadly [helloSh, syscall20] s e = false) tr ∧
      s.got = [helloSh.pair, syscall20.pair] ∧ s.srv.spc.state = .running ∧
      s.after = [(0, true), (0, true)]) (by decide)
  rw [decide_eq_true_eq] at hp
  obtain ⟨ha, hn, hg, hst, hafter⟩ := hp
  exact ⟨tr, s, hr, hg, hst, hafter,
    ((framing_iff ⟨rfl, rfl⟩ (by decide) hr ha).mpr hn).2⟩

/-- The handshake without a name, read in one piece, and a system call behind
it: the server stores through `NULL`. -/
theorem framing_fails : ∃ tr s,
    Run serve (link freshServer [helloNobody, syscall20] [.upto 99, .upto 99]) tr s ∧
    Guarded (fun _ e => e.alloc = true) tr ∧ s.status = .crashed ∧
    s.got = [helloNobody.pair] ∧ s.srv.spc.off = 24 ∧
    ¬ Framed [helloNobody, syscall20] [.upto 99, .upto 99] s := by
  obtain ⟨tr, s, hr, hp⟩ := exists_run (f := serve)
    (s := link freshServer [helloNobody, syscall20] [.upto 99, .upto 99]) [⟨true, []⟩]
    (p := fun tr s => Guarded (fun _ e => e.alloc = true) tr ∧ s.status = .crashed ∧
      s.got = [helloNobody.pair] ∧ s.srv.spc.off = 24) (by decide)
  rw [decide_eq_true_eq] at hp
  obtain ⟨ha, hst, hg, ho⟩ := hp
  refine ⟨tr, s, hr, ha, hst, hg, ho, fun h => ?_⟩
  have hup := h.up
  rw [hst] at hup
  cases hup

end Frankenlibc.Sysproxy

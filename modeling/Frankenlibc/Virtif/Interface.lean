import Frankenlibc.Lib.Run
import Frankenlibc.Virtif.Mbuf

/-!
# The network interface of the kernel, `if_virt`

Packets go out through a queue: who puts one there enters `virtif_start`, unless
somebody is in there already. It takes packets off the queue until there are
none, and hands each to the host as a vector of at most 32 pieces; while it does,
others run and may put more packets on the queue. A frame of the host is copied
into a new chain of buffers, and goes up to the protocols if it is for this
interface. To take the interface down empties the queue.

The machine is one interface that has been created: the threads that send, the
thread that receives, the flags that are set on it and `if_down`, in any order.
-/
namespace Frankenlibc.Virtif.Packets

open Frankenlibc.Lib

/-! ## The code -/

/-- The number of pieces `virtif_start` has room for. -/
def LB_SH : Nat := 32

/-- The loop over the buffers of a packet, with `n` pieces to go: the pieces, and
what it has not looked at. -/
def collect : Nat → List Mbuf → List (List UInt8) × List Mbuf
  | _, [] => ([], [])
  | 0, m :: chain => ([], m :: chain)
  | n + 1, m :: chain =>
    if m.len = 0 then collect (n + 1) chain
    else (m.bytes :: (collect n chain).1, (collect n chain).2)

/-- `ALIGN(sizeof(struct ether_header)) - sizeof(struct ether_header)`. -/
def align : Nat := 2

/-- What a packet is when it goes up. -/
structure Input where
  promisc : Bool
  bytes : List UInt8
  len : Nat
deriving DecidableEq

/-- The interface. `arrived`, `accepted` and `purged` record the frames of the
host, the packets that were put on the queue and those `if_down` took off it. -/
structure Ifnet where
  running : Bool
  promisc : Bool
  oactive : Bool
  panicked : Bool
  enaddr : List UInt8
  maxlen : Nat
  snd : List (List Mbuf)
  sent : List (List (List UInt8))
  opackets : Nat
  input : List Input
  ipackets : Nat
  pool : Pool
  arrived : List (List UInt8)
  accepted : List (List UInt8)
  purged : List (List UInt8)

/-- `ifq_enqueue`, up to the body of `virtif_start`. -/
def ifqEnqueue (m : List Mbuf) (s : Ifnet) : Ifnet :=
  if s.maxlen ≤ s.snd.length then s
  else { s with snd := s.snd ++ [m], accepted := s.accepted ++ [contents m], oactive := true }

/-- `IFQ_PURGE` in `if_down`. -/
def ifDown (s : Ifnet) : Ifnet :=
  { s with snd := [], purged := s.purged ++ s.snd.map contents }

/-- One round of `virtif_start`. -/
def virtifStart (s : Ifnet) : Ifnet :=
  match s.snd with
  | [] => { s with oactive := false }
  | m :: snd =>
    if (collect LB_SH m).2 = [] then
      { s with snd := snd, sent := s.sent ++ [(collect LB_SH m).1], opackets := s.opackets + 1 }
    else { s with snd := snd, panicked := true }

theorem Mbuf.adj_fits (m : Mbuf) (n : Nat) : m.len - n ≤ m.room - n := Nat.sub_le_sub_right m.fits n

/-- `m_data` moves up. -/
def Mbuf.adj (m : Mbuf) (n : Nat) : Mbuf where
  room := m.room - n
  ext := m.ext
  mem := fun a => m.mem (n + a)
  len := m.len - n
  fits := m.adj_fits n

/-- A bound for the jumps of `m_copyback`. -/
def fuel (p : Packet) (off : Nat) (bs : List UInt8) : Nat :=
  3 * (off + bs.length + p.chain.length) + 2

/-- The loop of `VIF_DELIVERPKT` over the pieces of a frame; no packet is left
when a copy has failed. -/
def copyPieces (z : Sizes) : List (List UInt8) → Nat → Packet → Pool → Option (Option Packet × Pool)
  | [], _, p, pool => some (some p, pool)
  | v :: iov, off, p, pool =>
    match mCopyback z (fuel p off v) p off v pool with
    | none => none
    | some (p', pool') =>
      if p.len + (off + v.length) = p'.len then copyPieces z iov (off + v.length) p' pool'
      else some (none, pool')

/-- `ETHER_IS_MULTICAST`. -/
def isMulticast (dhost : List UInt8) : Bool := dhost.headD 0 &&& 1 ≠ 0

/-- Whether a packet goes up, and then whether it is marked `M_PROMISC`. -/
def passup (enaddr : List UInt8) (promisc : Bool) (dhost : List UInt8) : Option Bool :=
  if dhost = enaddr then some false
  else if isMulticast dhost then some false
  else if promisc then some true
  else none

/-- The rest of `VIF_DELIVERPKT`, on a packet that has been copied. -/
def deliver (m : Mbuf) (rest : List Mbuf) (len : Nat) (s : Ifnet) : Ifnet :=
  match passup s.enaddr s.promisc (m.mem.slice align 6) with
  | none => s
  | some mark =>
    { s with
      ipackets := s.ipackets + 1
      input := s.input ++ [⟨mark, contents (m.adj align :: rest), len - align⟩] }

def vifDeliverpkt (z : Sizes) (iov : List (List UInt8)) (s : Ifnet) : Option Ifnet :=
  if s.running = false then some s
  else if s.pool.granted = false then some { s with pool := s.pool.next }
  else
    let m := Mbuf.new z.MHLEN false (s.pool.fresh s.pool.used) 0
    match copyPieces z iov align ⟨[m], 0⟩ s.pool.next with
    | none => none
    | some (none, pool) => some { s with pool := pool }
    | some (some p, pool) =>
      match p.chain with
      | [] => none
      | m :: rest => some (deliver m rest p.len { s with pool := pool })

/-! ## The machine -/

inductive Event
  | enqueue (m : List Mbuf)
  | transmit
  | receive (frame : List UInt8)
  | flags (running promisc : Bool)
  | down

/-- `sizeof(viu_rcvbuf)`. -/
def RCVBUF : Nat := 9018

/-- `rcvthread` hands over what it has read in one piece, and only if it has read
something. -/
def step (z : Sizes) (s : Ifnet) (e : Event) : Option Ifnet :=
  if s.panicked then none
  else match e with
    | .enqueue m => some (ifqEnqueue m s)
    | .transmit => if s.oactive then some (virtifStart s) else none
    | .receive frame =>
      if frame = [] ∨ RCVBUF < frame.length then none
      else vifDeliverpkt z [frame] { s with arrived := s.arrived ++ [frame] }
    | .flags running promisc => some { s with running := running, promisc := promisc }
    | .down => some (ifDown s)

def boot (enaddr : List UInt8) (maxlen : Nat) (pool : Pool) : Ifnet where
  running := false
  promisc := false
  oactive := false
  panicked := false
  enaddr := enaddr
  maxlen := maxlen
  snd := []
  sent := []
  opackets := 0
  input := []
  ipackets := 0
  pool := pool
  arrived := []
  accepted := []
  purged := []

/-! ## Transmission -/

/-- What is collected and what is left make up the packet. -/
theorem collect_contents (n : Nat) (m : List Mbuf) :
    (collect n m).1.flatten ++ contents (collect n m).2 = contents m := by
  induction m generalizing n with
  | nil => cases n <;> rfl
  | cons x m ih =>
    cases n with
    | zero => rfl
    | succ n =>
      unfold collect
      split
      · rename_i hx
        have hempty : x.bytes = [] := List.eq_nil_of_length_eq_zero ((length_bytes x).trans hx)
        rw [ih (n + 1), contents, contents, List.flatMap_cons, hempty, List.nil_append]
      · rw [List.flatten_cons, List.append_assoc, ih n]
        rfl

/-- The pieces fit into the vector, and none is empty. -/
theorem collect_pieces (n : Nat) (m : List Mbuf) :
    (collect n m).1.length ≤ n ∧ ∀ v ∈ (collect n m).1, v ≠ [] := by
  induction m generalizing n with
  | nil => cases n <;> simp [collect]
  | cons x m ih =>
    cases n with
    | zero => simp [collect]
    | succ n =>
      unfold collect
      split
      · exact ih (n + 1)
      · rename_i hx
        obtain ⟨hlen, hv⟩ := ih n
        refine ⟨Nat.succ_le_succ hlen, ?_⟩
        intro v hmem
        rcases List.mem_cons.mp hmem with rfl | hmem
        · intro hnil
          apply hx
          rw [← length_bytes, hnil, List.length_nil]
        · exact hv v hmem

/-- A packet that makes `virtif_start` panic: there is a buffer behind 32 that
are not empty. -/
def Lazy (m : List Mbuf) : Prop :=
  ∃ a b, m = a ++ b ∧ b ≠ [] ∧ LB_SH ≤ a.countP (fun x => 0 < x.len)

/-- The first buffer belongs to the part in front. -/
theorem split_cons {n : Nat} {x : Mbuf} {m : List Mbuf} :
    (∃ a b, x :: m = a ++ b ∧ b ≠ [] ∧ n + 1 ≤ a.countP (fun y => 0 < y.len)) ↔
      ∃ a b, m = a ++ b ∧ b ≠ [] ∧
        n + 1 ≤ a.countP (fun y => 0 < y.len) + if 0 < x.len then 1 else 0 := by
  constructor
  · intro ⟨a, b, hab, hb, hn⟩
    cases a with
    | nil => simp at hn
    | cons y a =>
      rw [List.cons_append, List.cons.injEq] at hab
      obtain ⟨rfl, hab⟩ := hab
      refine ⟨a, b, hab, hb, ?_⟩
      rw [List.countP_cons] at hn
      simpa using hn
  · intro ⟨a, b, hab, hb, hn⟩
    refine ⟨x :: a, b, by rw [hab, List.cons_append], hb, ?_⟩
    rw [List.countP_cons]
    simpa using hn

theorem collect_left {n : Nat} {m : List Mbuf} :
    (collect n m).2 ≠ [] ↔ ∃ a b, m = a ++ b ∧ b ≠ [] ∧ n ≤ a.countP (fun x => 0 < x.len) := by
  induction m generalizing n with
  | nil =>
    constructor
    · intro h
      cases n <;> exact absurd rfl h
    · intro ⟨a, b, hab, hb, _⟩
      exact absurd (List.append_eq_nil_iff.mp hab.symm).2 hb
  | cons x m ih =>
    cases n with
    | zero =>
      constructor
      · intro _
        exact ⟨[], x :: m, rfl, List.cons_ne_nil _ _, Nat.zero_le _⟩
      · intro _
        exact List.cons_ne_nil _ _
    | succ n =>
      rw [split_cons]
      unfold collect
      by_cases hx : x.len = 0
      · rw [if_pos hx, ih, if_neg (by omega)]
        rfl
      · rw [if_neg hx, if_pos (by omega), ih]
        simp only [Nat.add_le_add_iff_right]

theorem lazy_iff (m : List Mbuf) : Lazy m ↔ (collect LB_SH m).2 ≠ [] := collect_left.symm

/-- The packets that have left the queue, each with whether the host got it. The
others were purged, but for one that was the last. -/
structure Fates (s : Ifnet) (l : List (Bool × List UInt8)) (last : List (List Mbuf)) : Prop where
  accepted : s.accepted = l.map Prod.snd ++ s.snd.map contents
  sent : (l.filter Prod.fst).map Prod.snd = s.sent.map List.flatten
  lost : (l.filter fun p => !p.1).map Prod.snd = s.purged ++ last.map contents
  lazy : ∀ m ∈ last, Lazy m
  panic : last = [] ↔ s.panicked = false

theorem Fates.undisturbed {s : Ifnet} {l : List (Bool × List UInt8)} {last : List (List Mbuf)}
    (h : Fates s l last) (hu : s.purged = []) (hp : s.panicked = false) :
    s.accepted = s.sent.map List.flatten ++ s.snd.map contents := by
  have hlost := h.lost
  rw [hu, h.panic.mpr hp, List.map_nil, List.append_nil, List.map_eq_nil_iff,
    List.filter_eq_nil_iff] at hlost
  have hall : l.filter Prod.fst = l := List.filter_eq_self.mpr fun p hpl => by simpa using hlost p hpl
  rw [h.accepted, ← h.sent, hall]

/-- The queue: every packet has its fate or is waiting, and nothing waits for
nobody. -/
structure Sends (s : Ifnet) : Prop where
  order : ∃ l last, Fates s l last
  pieces : ∀ io ∈ s.sent, io.length ≤ LB_SH ∧ ∀ v ∈ io, v ≠ []
  counted : s.opackets = s.sent.length
  busy : s.snd ≠ [] → s.oactive = true

/-- The receiving side and the flags do not matter to it. -/
theorem Sends.frame {s : Ifnet} (h : Sends s) (running promisc : Bool) (pool : Pool)
    (input : List Input) (ipackets : Nat) (arrived : List (List UInt8)) :
    Sends { s with
      running := running
      promisc := promisc
      pool := pool
      input := input
      ipackets := ipackets
      arrived := arrived } := by
  obtain ⟨l, last, hf⟩ := h.order
  exact ⟨⟨l, last, hf.accepted, hf.sent, hf.lost, hf.lazy, hf.panic⟩, h.pieces, h.counted, h.busy⟩

theorem sends_enqueue {s : Ifnet} (h : Sends s) (m : List Mbuf) : Sends (ifqEnqueue m s) := by
  unfold ifqEnqueue
  split
  · exact h
  · obtain ⟨l, last, hf⟩ := h.order
    refine ⟨⟨l, last, ?_, hf.sent, hf.lost, hf.lazy, hf.panic⟩, h.pieces, h.counted, fun _ => rfl⟩
    simp only [hf.accepted, List.map_append, List.map_cons, List.map_nil, List.append_assoc]

theorem sends_down {s : Ifnet} (h : Sends s) (hp : s.panicked = false) : Sends (ifDown s) := by
  obtain ⟨l, last, hf⟩ := h.order
  have hnil : last = [] := hf.panic.mpr hp
  subst hnil
  refine ⟨⟨l ++ s.snd.map fun m => (false, contents m), [], ?_, ?_, ?_, hf.lazy, hf.panic⟩, h.pieces,
    h.counted, fun hne => absurd rfl hne⟩
  · simp [ifDown, hf.accepted, Function.comp_def]
  · have hnone : (s.snd.map fun m => (false, contents m)).filter Prod.fst = [] := by simp
    rw [List.filter_append, hnone, List.append_nil]
    exact hf.sent
  · have hall : ((s.snd.map fun m => (false, contents m)).filter fun p => !p.1) =
        s.snd.map fun m => (false, contents m) := by simp
    rw [List.filter_append, hall, List.map_append, hf.lost]
    simp [ifDown, Function.comp_def]

theorem sends_start {s : Ifnet} (h : Sends s) (hp : s.panicked = false) : Sends (virtifStart s) := by
  obtain ⟨l, last, hf⟩ := h.order
  have hnil : last = [] := hf.panic.mpr hp
  subst hnil
  have hacc := hf.accepted
  unfold virtifStart
  cases hsnd : s.snd with
  | nil =>
    rw [hsnd] at hacc
    exact ⟨⟨l, [], hacc, hf.sent, hf.lost, hf.lazy, hf.panic⟩, h.pieces, h.counted,
      fun hne => absurd rfl hne⟩
  | cons m snd =>
    rw [hsnd] at hacc
    have hbusy : s.oactive = true := h.busy (by rw [hsnd]; exact List.cons_ne_nil _ _)
    have hleft (b : Bool) : s.accepted = (l ++ [(b, contents m)]).map Prod.snd ++ snd.map contents := by
      simp [hacc]
    by_cases hall : (collect LB_SH m).2 = []
    · have hm : (collect LB_SH m).1.flatten = contents m := by
        have hc := collect_contents LB_SH m
        rw [hall] at hc
        simpa [contents] using hc
      simp only [if_pos hall]
      refine ⟨⟨l ++ [(true, contents m)], [], hleft true, ?_, ?_, hf.lazy, hf.panic⟩, ?_, ?_,
        fun _ => hbusy⟩
      · simp [hf.sent, hm]
      · simpa using hf.lost
      · intro io hio
        rcases List.mem_append.mp hio with hio | hio
        · exact h.pieces io hio
        · rw [List.mem_singleton.mp hio]
          exact collect_pieces LB_SH m
      · simp [h.counted]
    · simp only [if_neg hall]
      have hlazy : ∀ x ∈ [m], Lazy x := by
        intro x hx
        rw [List.mem_singleton.mp hx]
        exact (lazy_iff m).mpr hall
      refine ⟨⟨l ++ [(false, contents m)], [m], hleft false, ?_, ?_, hlazy, by simp⟩, h.pieces,
        h.counted, fun _ => hbusy⟩
      · simpa using hf.sent
      · simp [hf.lost]

/-! ## Reception -/

theorem spliced_nil (a : Nat) (bs : List UInt8) : spliced [] a bs = List.replicate a 0 ++ bs := by
  unfold spliced Bytes.overlay
  simp

theorem bytes_adj (m : Mbuf) (n : Nat) : (m.adj n).bytes = m.bytes.drop n := by
  apply List.ext_getElem?
  intro i
  rw [List.getElem?_drop]
  by_cases hi : n + i < m.len
  · have hlt : i < m.len - n := by omega
    simp [Mbuf.bytes, Mbuf.adj, Bytes.slice, hi, hlt]
  · rw [List.getElem?_eq_none (by rw [length_bytes]; show m.len - n ≤ i; omega),
      List.getElem?_eq_none (by rw [length_bytes]; omega)]

/-- The head of a chain that was made of one empty buffer. -/
theorem mCopyback_head {z : Sizes} {fuel off len : Nat} {m : Mbuf} {bs : List UInt8} {pool pool' : Pool}
    {p : Packet} (hm : 16 ≤ m.room)
    (h : mCopyback z fuel ⟨[m], len⟩ off bs pool = some (p, pool')) :
    ∃ x rest, p.chain = x :: rest ∧ min 16 (contents p.chain).length ≤ x.len := by
  simp only [mCopyback, Option.map_eq_some_iff, Prod.mk.injEq] at h
  obtain ⟨c, hc, rfl, rfl⟩ := h
  have hpacked : Packed c := mCopyback0_packed ⟨rfl, by simp, hm, by simp⟩ hc
  exact hpacked.head

theorem vifDeliverpkt_stopped (z : Sizes) (iov : List (List UInt8)) {s : Ifnet} (h : ¬s.running = true) :
    vifDeliverpkt z iov s = some s := if_pos (by simpa using h)

/-- What becomes of a frame in one piece on an interface that runs. -/
inductive Outcome (frame : List UInt8) (s s' : Ifnet) : Prop
  | refused (pool : Pool) (hd : s.pool.drops < pool.drops) (hs : s' = { s with pool := pool })
  | copied (pool : Pool) (dhost : List UInt8) (hdest : 6 ≤ frame.length → dhost = frame.take 6)
      (hs : s' = match passup s.enaddr s.promisc dhost with
        | none => { s with pool := pool }
        | some mark => { s with
            pool := pool
            ipackets := s.ipackets + 1
            input := s.input ++ [⟨mark, frame, frame.length⟩] })

theorem vifDeliverpkt_outcome (z : Sizes) {frame : List UInt8} (hframe : frame ≠ []) {s : Ifnet}
    (hrun : s.running = true) : ∃ s', vifDeliverpkt z [frame] s = some s' ∧ Outcome frame s s' := by
  have hpos : 0 < frame.length := List.length_pos_of_ne_nil hframe
  unfold vifDeliverpkt
  rw [if_neg (by simp [hrun])]
  by_cases hg : s.pool.granted = false
  · rw [if_pos hg]
    refine ⟨_, rfl, .refused s.pool.next ?_ rfl⟩
    simp [Pool.next, hg]
  · rw [if_neg hg]
    have hdrops : s.pool.next.drops = s.pool.drops := by simp [Pool.next, hg]
    generalize hm : Mbuf.new z.MHLEN false (s.pool.fresh s.pool.used) 0 = m
    have hempty : contents [m] = [] := by
      rw [contents_single]
      apply List.eq_nil_of_length_eq_zero
      rw [length_bytes, ← hm]
      exact Nat.min_zero _
    have hroom : 16 ≤ m.room := by
      rw [← hm]
      exact z.header
    obtain ⟨p, pool, hcopy, hres⟩ := mCopyback_spec z (p := ⟨[m], 0⟩) (List.cons_ne_nil _ _) align
      hframe s.pool.next (Nat.le_refl (fuel ⟨[m], 0⟩ align frame))
    simp only [copyPieces, hcopy, Nat.zero_add]
    rcases hres with ⟨hx, hlen⟩ | ⟨hx, hlen, hd⟩
    · rw [hempty, spliced_nil] at hx
      rw [Nat.zero_max] at hlen
      obtain ⟨x, rest, hchain, hhead⟩ := mCopyback_head hroom hcopy
      rw [hx, List.length_append, List.length_replicate] at hhead
      have hbytes : x.bytes ++ contents rest = List.replicate align 0 ++ frame := by
        rw [← hx, hchain]
        rfl
      have hdata : contents (x.adj align :: rest) = frame := by
        have hdrop := congrArg (List.drop align) hbytes
        rw [List.drop_append_of_le_length (by rw [length_bytes]; unfold align at hhead ⊢; omega),
          List.drop_append_of_le_length (by simp), ← bytes_adj] at hdrop
        simpa [contents] using hdrop
      simp only [hlen, if_true, hchain]
      refine ⟨_, rfl, .copied pool (x.mem.slice align 6) ?_ ?_⟩
      · intro hsix
        have hfront := congrArg (fun l => (l.drop align).take 6) hbytes
        have hlong : align + 6 ≤ x.len := by unfold align at hhead ⊢; omega
        simp only [List.drop_append_of_le_length
          (show align ≤ x.bytes.length by rw [length_bytes]; omega)] at hfront
        rw [List.take_append_of_le_length (by rw [List.length_drop, length_bytes]; omega)] at hfront
        rw [slice_mem hlong, hfront]
        simp
      · unfold deliver
        simp only [hdata, Nat.add_sub_cancel_left]
    · rw [Nat.zero_max] at hlen
      have hne : ¬align + frame.length = p.len := by omega
      simp only [if_neg hne]
      exact ⟨_, rfl, .refused pool (by omega) rfl⟩

/-- What goes up has come from the host, in its order. -/
structure Receives (s : Ifnet) : Prop where
  order : (s.input.map Input.bytes).Sublist s.arrived
  whole : ∀ x ∈ s.input, x.len = x.bytes.length
  counted : s.ipackets = s.input.length

theorem receives_frame {s s' : Ifnet} {frame : List UInt8} (h : Receives s)
    (ho : Outcome frame { s with arrived := s.arrived ++ [frame] } s') : Receives s' := by
  have hskip : (s.input.map Input.bytes).Sublist (s.arrived ++ [frame]) :=
    h.order.trans (List.sublist_append_left _ _)
  cases ho with
  | refused pool _ hs =>
    subst hs
    exact ⟨hskip, h.whole, h.counted⟩
  | copied pool dhost _ hs =>
    cases hp : passup s.enaddr s.promisc dhost with
    | none =>
      simp only [hp] at hs
      subst hs
      exact ⟨hskip, h.whole, h.counted⟩
    | some mark =>
      simp only [hp] at hs
      subst hs
      refine ⟨?_, ?_, ?_⟩
      · rw [List.map_append]
        exact h.order.append (List.Sublist.refl _)
      · intro x hx
        rcases List.mem_append.mp hx with hx | hx
        · exact h.whole x hx
        · rw [List.mem_singleton.mp hx]
      · simp [h.counted]

/-- A frame leaves the queue alone. -/
theorem Outcome.sends {s s' : Ifnet} {frame : List UInt8} (ho : Outcome frame s s') (h : Sends s) :
    Sends s' := by
  cases ho with
  | refused pool _ hs =>
    subst hs
    exact h.frame _ _ _ _ _ _
  | copied pool dhost _ hs =>
    cases hp : passup s.enaddr s.promisc dhost with
    | none | some mark =>
      simp only [hp] at hs
      subst hs
      exact h.frame _ _ _ _ _ _

/-- In two pieces or more nothing arrives: behind the first one, the length is
compared with a sum that counts it twice. -/
theorem copyPieces_two (z : Sizes) {v w : List UInt8} (hv : v ≠ []) (hw : w ≠ [])
    (iov : List (List UInt8)) {p : Packet} (hp : p.chain ≠ []) (off : Nat) (pool : Pool) :
    ∃ pool', copyPieces z (v :: w :: iov) off p pool = some (none, pool') := by
  have hvpos : 0 < v.length := List.length_pos_of_ne_nil hv
  obtain ⟨p₁, pool₁, h₁, hres₁⟩ := mCopyback_spec z hp off hv pool (Nat.le_refl (fuel p off v))
  rw [copyPieces, h₁]
  by_cases hok : p.len + (off + v.length) = p₁.len
  · simp only [if_pos hok]
    have hp₁ : p₁.chain ≠ [] := by
      intro hnil
      rcases hres₁ with ⟨hx, _⟩ | ⟨hx, hlen, _⟩
      · have hlong := congrArg List.length hx
        rw [hnil, spliced, Bytes.length_overlay (by simp; omega)] at hlong
        simp [contents] at hlong
        omega
      · rw [hnil] at hlen
        simp [contents] at hlen
        omega
    obtain ⟨p₂, pool₂, h₂, hres₂⟩ := mCopyback_spec z hp₁ (off + v.length) hw pool₁
      (Nat.le_refl (fuel p₁ (off + v.length) w))
    rw [copyPieces, h₂]
    have hbad : ¬p₁.len + (off + v.length + w.length) = p₂.len := by
      rcases hres₂ with ⟨_, hlen⟩ | ⟨hx, hlen, _⟩ <;> omega
    simp only [if_neg hbad]
    exact ⟨pool₂, rfl⟩
  · simp only [if_neg hok]
    exact ⟨pool₁, rfl⟩

theorem vifDeliverpkt_pieces (z : Sizes) {v w : List UInt8} (hv : v ≠ []) (hw : w ≠ [])
    (iov : List (List UInt8)) (s : Ifnet) :
    ∃ pool, vifDeliverpkt z (v :: w :: iov) s = some { s with pool := pool } := by
  unfold vifDeliverpkt
  split
  · exact ⟨s.pool, rfl⟩
  · split
    · exact ⟨_, rfl⟩
    · obtain ⟨pool, hcopy⟩ := copyPieces_two z hv hw iov
        (p := ⟨[Mbuf.new z.MHLEN false (s.pool.fresh s.pool.used) 0], 0⟩) (List.cons_ne_nil _ _)
        align s.pool.next
      simp only [hcopy]
      exact ⟨pool, rfl⟩

/-- `VIF_DELIVERPKT`, whatever buffers it gets: it always returns. What goes up
is a frame in one piece, byte for byte, that the interface wants while it runs;
and every such frame does unless a request for a buffer was refused. A frame in
more pieces never goes up. -/
theorem deliverpkt_exact (z : Sizes) (s : Ifnet) {iov : List (List UInt8)} (hiov : iov ≠ [])
    (hpieces : ∀ v ∈ iov, v ≠ []) :
    ∃ s', vifDeliverpkt z iov s = some s' ∧
      (s'.input = s.input ∨ ∃ frame mark, iov = [frame] ∧ s.running = true ∧
        (6 ≤ frame.length → passup s.enaddr s.promisc (frame.take 6) = some mark) ∧
        s'.input = s.input ++ [⟨mark, frame, frame.length⟩]) ∧
      ∀ frame, iov = [frame] → 6 ≤ frame.length → s.running = true →
        s'.pool.drops = s.pool.drops → s'.input = s.input ++
          (passup s.enaddr s.promisc (frame.take 6)).toList.map fun mark =>
            ⟨mark, frame, frame.length⟩ := by
  cases iov with
  | nil => exact absurd rfl hiov
  | cons v iov =>
    have hv : v ≠ [] := hpieces v List.mem_cons_self
    cases iov with
    | cons w iov =>
      have hw : w ≠ [] := hpieces w (List.mem_cons_of_mem _ List.mem_cons_self)
      obtain ⟨pool, hs⟩ := vifDeliverpkt_pieces z hv hw iov s
      refine ⟨_, hs, .inl rfl, ?_⟩
      intro frame hone
      simp at hone
    | nil =>
      by_cases hrun : s.running = true
      · obtain ⟨s', hs, ho⟩ := vifDeliverpkt_outcome z hv hrun
        refine ⟨s', hs, ?_⟩
        cases ho with
        | refused pool hd heq =>
          subst heq
          refine ⟨.inl rfl, ?_⟩
          intro frame _ _ _ hsame
          exact absurd hsame (Nat.ne_of_gt hd)
        | copied pool dhost hdest heq =>
          cases hp : passup s.enaddr s.promisc dhost with
          | none =>
            simp only [hp] at heq
            subst heq
            refine ⟨.inl rfl, ?_⟩
            intro frame hone hsix _ _
            cases hone
            rw [← hdest hsix, hp]
            simp
          | some mark =>
            simp only [hp] at heq
            subst heq
            refine ⟨.inr ⟨v, mark, rfl, hrun, fun hsix => hdest hsix ▸ hp, rfl⟩, ?_⟩
            intro frame hone hsix _ _
            cases hone
            rw [← hdest hsix, hp]
            rfl
      · exact ⟨s, vifDeliverpkt_stopped z [v] hrun, .inl rfl, fun _ _ _ h => absurd h hrun⟩

/-- Small buffers, so that a short frame takes two. -/
def demoSizes : Sizes := ⟨16, 16, 64, Nat.le_refl 16, Nat.le_refl 16, Nat.le_add_right 16 48⟩

def demoPool : Pool := ⟨[], fun _ _ => 0xff, 0, 0⟩

/-- A broadcast frame. -/
def demoFrame : List UInt8 := List.replicate 6 0xff ++ List.replicate 14 0

def demoIfnet : Ifnet := { boot [2, 0, 0, 0, 0, 2] 50 demoPool with running := true }

theorem deliverpkt_exact_broadcast : ∃ s', vifDeliverpkt demoSizes [demoFrame] demoIfnet = some s' ∧
    s'.pool.used = 2 ∧ s'.input = [⟨false, demoFrame, 20⟩] := by
  obtain ⟨s', hs, _, hall⟩ := deliverpkt_exact demoSizes demoIfnet (List.cons_ne_nil demoFrame [])
    (by decide)
  have hpool : (vifDeliverpkt demoSizes [demoFrame] demoIfnet).map
      (fun s => (s.pool.used, s.pool.drops)) = some (2, 0) := by decide
  rw [hs, Option.map_some, Option.some.injEq, Prod.mk.injEq] at hpool
  exact ⟨s', hs, hpool.1, hall demoFrame rfl (by decide) rfl hpool.2⟩

/-! ## Whole runs -/

theorem step_carries {z : Sizes} {s s' : Ifnet} {e : Event} (hs : step z s e = some s')
    (h : Sends s ∧ Receives s) : Sends s' ∧ Receives s' := by
  obtain ⟨hsend, hrecv⟩ := h
  unfold step at hs
  split at hs
  · cases hs
  · rename_i hp
    have hp : s.panicked = false := by simpa using hp
    cases e with
    | enqueue m =>
      cases hs
      refine ⟨sends_enqueue hsend m, ?_⟩
      unfold ifqEnqueue
      split
      · exact hrecv
      · exact ⟨hrecv.order, hrecv.whole, hrecv.counted⟩
    | transmit =>
      simp only at hs
      split at hs
      · cases hs
        refine ⟨sends_start hsend hp, ?_⟩
        unfold virtifStart
        cases s.snd with
        | nil => exact ⟨hrecv.order, hrecv.whole, hrecv.counted⟩
        | cons m snd =>
          simp only
          split
          · exact ⟨hrecv.order, hrecv.whole, hrecv.counted⟩
          · exact ⟨hrecv.order, hrecv.whole, hrecv.counted⟩
      · cases hs
    | receive frame =>
      simp only at hs
      split at hs
      · cases hs
      · rename_i hframe
        by_cases hrun : s.running = true
        · obtain ⟨t, ht, ho⟩ := vifDeliverpkt_outcome z (not_or.mp hframe).1
            (s := { s with arrived := s.arrived ++ [frame] }) hrun
          rw [ht] at hs
          cases hs
          exact ⟨ho.sends (hsend.frame _ _ _ _ _ _), receives_frame hrecv ho⟩
        · rw [@vifDeliverpkt_stopped z [frame] { s with arrived := s.arrived ++ [frame] } hrun] at hs
          cases hs
          refine ⟨hsend.frame _ _ _ _ _ _, ?_, hrecv.whole, hrecv.counted⟩
          exact hrecv.order.trans (List.sublist_append_left _ _)
    | flags running promisc =>
      cases hs
      exact ⟨hsend.frame _ _ _ _ _ _, hrecv.order, hrecv.whole, hrecv.counted⟩
    | down =>
      cases hs
      exact ⟨sends_down hsend hp, hrecv.order, hrecv.whole, hrecv.counted⟩

/-- Over every order of events: the packets that were accepted leave the queue in
their order, and each is handed to the host once and with all its bytes, as a
vector of at most 32 pieces, or is purged when the interface is taken down; if it
never was, the host gets them all. Packets wait only while somebody is sending; a
panic comes from a packet with a buffer behind 32 that are not empty. What goes up
are frames of the host, byte for byte and in their order; and unless it has
panicked, the interface takes every frame. -/
theorem virtif_carries {z : Sizes} {enaddr : List UInt8} {maxlen : Nat} {pool : Pool}
    {tr : List (Ifnet × Event)} {s : Ifnet} (hr : Run (step z) (boot enaddr maxlen pool) tr s) :
    (∃ l last, Fates s l last) ∧
    (s.purged = [] → s.panicked = false →
      s.accepted = s.sent.map List.flatten ++ s.snd.map contents) ∧
    (∀ io ∈ s.sent, io.length ≤ 32 ∧ ∀ v ∈ io, v ≠ []) ∧
    (s.snd ≠ [] → s.oactive = true) ∧
    (s.input.map Input.bytes).Sublist s.arrived ∧
    (s.opackets = s.sent.length ∧ s.ipackets = s.input.length) ∧
    (s.panicked = false → ∀ frame, frame ≠ [] → frame.length ≤ 9018 →
      (step z s (.receive frame)).isSome = true) := by
  have hboot : Sends (boot enaddr maxlen pool) ∧ Receives (boot enaddr maxlen pool) :=
    ⟨⟨⟨[], [], rfl, rfl, rfl, nofun, by simp [boot]⟩, by simp [boot], rfl, by simp [boot]⟩,
      List.Sublist.refl _, by simp [boot], rfl⟩
  obtain ⟨hsend, hrecv⟩ := Run.always (I := fun s => Sends s ∧ Receives s) hboot
    (fun s e s' h hs => step_carries hs h) hr
  obtain ⟨l, last, hf⟩ := hsend.order
  refine ⟨⟨l, last, hf⟩, hf.undisturbed, hsend.pieces, hsend.busy, hrecv.order,
    ⟨hsend.counted, hrecv.counted⟩, ?_⟩
  intro hp frame hframe hlen
  unfold step
  rw [if_neg (by simp [hp])]
  simp only [hframe, show ¬RCVBUF < frame.length from Nat.not_lt.mpr hlen, or_self, if_false]
  by_cases hrun : s.running = true
  · obtain ⟨t, ht, _⟩ := vifDeliverpkt_outcome z hframe
      (s := { s with arrived := s.arrived ++ [frame] }) hrun
    rw [ht, Option.isSome_some]
  · rw [@vifDeliverpkt_stopped z [frame] { s with arrived := s.arrived ++ [frame] } hrun,
      Option.isSome_some]

/-- A buffer of one byte. -/
def demoMbuf (b : UInt8) : Mbuf := .new 16 false (fun _ => b) 1

/-- Two packets are put on the queue before the first is sent, and a frame comes
in between. A third one is still there when the interface is taken down. -/
theorem virtif_carries_two : ∃ tr s, Run (step demoSizes) (boot [2, 0, 0, 0, 0, 2] 50 demoPool) tr s ∧
    s.sent = [[[1], [2]], [[3]]] ∧ s.purged = [[4]] ∧ s.input = [⟨false, demoFrame, 20⟩] ∧
    s.snd.length = 0 ∧ ∃ l last, Fates s l last := by
  obtain ⟨tr, s, hr, hs⟩ := exists_run (f := step demoSizes) (s := boot [2, 0, 0, 0, 0, 2] 50 demoPool)
    (p := fun _ s => decide (s.sent = [[[1], [2]], [[3]]] ∧ s.purged = [[4]] ∧
      s.input = [⟨false, demoFrame, 20⟩] ∧ s.snd.length = 0))
    [.flags true false, .enqueue [demoMbuf 1, demoMbuf 2], .enqueue [demoMbuf 3], .transmit,
      .receive demoFrame, .transmit, .enqueue [demoMbuf 4], .down, .transmit] (by decide)
  obtain ⟨hsent, hpurged, hinput, hsnd⟩ := of_decide_eq_true hs
  exact ⟨tr, s, hr, hsent, hpurged, hinput, hsnd, (virtif_carries hr).1⟩

end Frankenlibc.Virtif.Packets

import Frankenlibc.Lib.Bytes

/-!
# Chains of mbufs, and `m_copyback`

A packet is a chain of buffers. `m_copyback` writes into it at an offset, makes
the chain longer where it has to, and fills a gap with zeros. It jumps between
its two loops; each label is one function here. When no buffer is to be had it
stops where it is: the length in the packet's header is then too short.

Only chains whose buffers can be written are modelled, as those of a packet that
is being received. A buffer is new when it was never asked for before, and holds
anything. Lengths have no bound here and are `int`s in the code: it does the same
as long as the offset behind the last byte is below `2^31`; then no length is
`M_COPYALL`, which is -1. The receive buffer of the interface has 9018 bytes.
-/
namespace Frankenlibc.Virtif.Packets

open Frankenlibc.Lib

/-- The room in a buffer: with a packet header, without one, in a cluster. Each
has room for an aligned Ethernet header. -/
structure Sizes where
  MHLEN : Nat
  MLEN : Nat
  MCLBYTES : Nat
  header : 16 ≤ MHLEN
  plain : 16 ≤ MLEN
  cluster : 16 ≤ MCLBYTES

def Sizes.MINCLSIZE (z : Sizes) : Nat := z.MHLEN + z.MLEN + 1

/-- A buffer: the room from `m_data` on, what is there, and `m_len`. -/
structure Mbuf where
  room : Nat
  ext : Bool
  mem : Bytes
  len : Nat
  fits : len ≤ room

def Mbuf.bytes (m : Mbuf) : List UInt8 := m.mem.slice 0 m.len

/-- `M_TRAILINGSPACE`. -/
def Mbuf.space (m : Mbuf) : Nat := m.room - m.len

theorem Mbuf.grow_fits (m : Mbuf) (n : Nat) : m.len + min m.space n ≤ m.room := by
  have hfits := m.fits
  unfold Mbuf.space
  omega

/-- `m_len` grows by `n`, as far as there is room. -/
def Mbuf.grow (m : Mbuf) (n : Nat) : Mbuf where
  room := m.room
  ext := m.ext
  mem := m.mem
  len := m.len + min m.space n
  fits := m.grow_fits n

def Mbuf.zero (m : Mbuf) (a n : Nat) : Mbuf := { m with mem := m.mem.fill a n 0 }

def Mbuf.write (m : Mbuf) (a : Nat) (l : List UInt8) : Mbuf := { m with mem := m.mem.blit a l }

/-- A buffer with some content and at most `n` bytes of it in use. -/
def Mbuf.new (room : Nat) (ext : Bool) (mem : Bytes) (n : Nat) : Mbuf :=
  ⟨room, ext, mem, min room n, Nat.min_le_left room n⟩

/-- The allocator: which of the next requests are granted, what the buffers hold,
and how many requests were made and refused. Behind the end of `grants` all are
granted. -/
structure Pool where
  grants : List Bool
  fresh : Nat → Bytes
  used : Nat
  drops : Nat

def Pool.granted (p : Pool) : Bool := p.grants.headD true

def Pool.next (p : Pool) : Pool :=
  ⟨p.grants.tail, p.fresh, p.used + 1, if p.granted then p.drops else p.drops + 1⟩

theorem Pool.drops_le (p : Pool) : p.drops ≤ p.next.drops := by
  unfold Pool.next
  split <;> simp

/-! ## The code -/

/-- The variables of `m_copyback0`: the buffers in front of `m`, `m` itself and
those behind it; `cp` is what is still to be copied, and `len` its length. -/
structure Copy where
  done : List Mbuf
  m : Mbuf
  rest : List Mbuf
  off : Nat
  cp : List UInt8
  totlen : Nat
  pool : Pool

inductive Label
  | seek
  | extend
  | copy
  | out
deriving DecidableEq, Repr

/-- The condition and the body of the first loop. -/
def seek (c : Copy) : Label × Copy :=
  if c.m.len < c.off then
    let c := { c with off := c.off - c.m.len, totlen := c.totlen + c.m.len }
    match c.rest with
    | [] => (.extend, c)
    | n :: rest => (.seek, { c with done := c.done ++ [c.m], m := n, rest := rest })
  else (.copy, c)

/-- `MCLGET` at the label `extend`. -/
def cluster (z : Sizes) (c : Copy) : Copy :=
  if z.MINCLSIZE ≤ c.off + c.cp.length ∧ c.m.ext = false ∧ c.m.len = 0 then
    if c.pool.granted then
      { c with m := .new z.MCLBYTES true (c.pool.fresh c.pool.used) 0, pool := c.pool.next }
    else { c with pool := c.pool.next }
  else c

/-- `m_getcl` or `m_get`, and how much of it is used. -/
def Copy.buffer (z : Sizes) (c : Copy) : Mbuf :=
  if z.MINCLSIZE ≤ c.off + c.cp.length then
    .new z.MCLBYTES true (c.pool.fresh c.pool.used) (c.off + c.cp.length)
  else .new z.MLEN false (c.pool.fresh c.pool.used) (c.off + c.cp.length)

/-- A buffer behind `m`. -/
def append (z : Sizes) (c : Copy) : Label × Copy :=
  if c.pool.granted then
    (.seek, { c with
      done := c.done ++ [c.m]
      m := (c.buffer z).zero 0 (min (c.buffer z).len c.off)
      pool := c.pool.next })
  else (.out, { c with pool := c.pool.next })

/-- The label `extend`. -/
def extend (z : Sizes) (c : Copy) : Label × Copy :=
  let c := cluster z c
  if 0 < c.m.space then
    let tspace := min c.m.space (c.off + c.cp.length)
    (.seek, { c with
      m := (c.m.zero c.m.len (min c.off tspace)).grow (c.off + c.cp.length)
      off := c.off + c.m.len
      totlen := c.totlen - c.m.len })
  else append z c

/-- The condition and the body of the second loop. -/
def copy (c : Copy) : Label × Copy :=
  if c.cp = [] then (.out, c)
  else
    let mlen := min (c.m.len - c.off) c.cp.length
    let c := { c with
      m := c.m.write c.off (c.cp.take mlen)
      cp := c.cp.drop mlen
      totlen := c.totlen + (mlen + c.off)
      off := 0 }
    if c.cp = [] then (.out, c)
    else match c.rest with
      | [] => (.extend, c)
      | n :: rest => (.copy, { c with done := c.done ++ [c.m], m := n, rest := rest })

def next (z : Sizes) (l : Label) (c : Copy) : Label × Copy :=
  match l with
  | .seek => seek c
  | .extend => extend z c
  | .copy => copy c
  | .out => (.out, c)

/-- `m_copyback0` from a label on; `fuel` bounds the jumps. -/
def mCopyback0 (z : Sizes) : Nat → Label → Copy → Option Copy
  | _, .out, c => some c
  | 0, _, _ => none
  | fuel + 1, l, c => mCopyback0 z fuel (next z l c).1 (next z l c).2

/-- A packet: its chain and `m_pkthdr.len`. -/
structure Packet where
  chain : List Mbuf
  len : Nat

def contents (l : List Mbuf) : List UInt8 := l.flatMap Mbuf.bytes

def Copy.chain (c : Copy) : List Mbuf := c.done ++ c.m :: c.rest

def mCopyback (z : Sizes) (fuel : Nat) (p : Packet) (off : Nat) (bs : List UInt8) (pool : Pool) :
    Option (Packet × Pool) :=
  match p.chain with
  | [] => some (p, pool)
  | m :: rest =>
    (mCopyback0 z fuel .seek ⟨[], m, rest, off, bs, 0, pool⟩).map fun c =>
      (⟨c.chain, if p.len < c.totlen then c.totlen else p.len⟩, c.pool)

/-! ## What is written where -/

section Laid

variable {x₀ bs x : List UInt8} {off₀ k : Nat}

/-- What `m_copyback` makes of a content: `bs` at `off₀`, behind zeros if that is
past the end. -/
def spliced (x₀ : List UInt8) (off₀ : Nat) (bs : List UInt8) : List UInt8 :=
  Bytes.overlay (x₀ ++ List.replicate (off₀ + bs.length - x₀.length) 0) off₀ bs

/-- The content `x` on the way there, when `k` bytes have been copied. What lies
behind them and behind the old end is not known. -/
structure Laid (x₀ : List UInt8) (off₀ : Nat) (bs : List UInt8) (k : Nat) (x : List UInt8) :
    Prop where
  front : ∀ i < off₀, i < x.length → x[i]? = some (x₀.getD i 0)
  copied : ∀ j < k, x[off₀ + j]? = bs[j]?
  behind : ∀ i, off₀ + k ≤ i → i < x₀.length → x[i]? = x₀[i]?
  longer : x₀.length ≤ x.length
  bounded : x.length ≤ max x₀.length (off₀ + bs.length)

theorem Laid.start (x₀ bs : List UInt8) (off₀ : Nat) : Laid x₀ off₀ bs 0 x₀ where
  front := fun i _ hi => by rw [List.getD_eq_getElem?_getD, List.getElem?_eq_getElem hi]; rfl
  copied := fun j hj => absurd hj (Nat.not_lt_zero j)
  behind := fun _ _ _ => rfl
  longer := Nat.le_refl _
  bounded := Nat.le_max_left _ _

/-- The chain grows at its end: zeros up to the place to write at, then anything. -/
theorem Laid.grown (h : Laid x₀ off₀ bs k x) {zs : List UInt8} (hk : k ≤ bs.length)
    (hz : ∀ i < zs.length, x.length + i < off₀ + k → zs[i]? = some 0)
    (hlen : x.length + zs.length ≤ off₀ + bs.length) : Laid x₀ off₀ bs k (x ++ zs) where
  front := by
    intro i hi hlt
    rw [List.length_append] at hlt
    by_cases hx : i < x.length
    · rw [List.getElem?_append_left hx]
      exact h.front i hi hx
    · have hlong := h.longer
      rw [List.getElem?_append_right (by omega), hz (i - x.length) (by omega) (by omega),
        List.getD_eq_getElem?_getD, List.getElem?_eq_none (by omega)]
      rfl
  copied := by
    intro j hj
    have hold := h.copied j hj
    have hx : off₀ + j < x.length := by
      by_contra hge
      rw [List.getElem?_eq_none (by omega), List.getElem?_eq_getElem (by omega)] at hold
      cases hold
    rw [List.getElem?_append_left hx]
    exact hold
  behind := by
    intro i hi hx
    have hlong := h.longer
    rw [List.getElem?_append_left (by omega)]
    exact h.behind i hi hx
  longer := by
    have hlong := h.longer
    rw [List.length_append]
    omega
  bounded := by
    rw [List.length_append]
    omega

/-- The next `n` bytes are copied. -/
theorem Laid.written (h : Laid x₀ off₀ bs k x) {n : Nat} (hx : off₀ + k + n ≤ x.length)
    (hn : k + n ≤ bs.length) :
    Laid x₀ off₀ bs (k + n) (Bytes.overlay x (off₀ + k) ((bs.drop k).take n)) := by
  have hw : ((bs.drop k).take n).length = n := by
    rw [List.length_take, List.length_drop]
    omega
  have hfit : off₀ + k + ((bs.drop k).take n).length ≤ x.length := by omega
  have hlen := Bytes.length_overlay hfit
  constructor
  · intro i hi hlt
    rw [Bytes.getElem?_overlay hfit, if_neg (by omega)]
    exact h.front i hi (by omega)
  · intro j hj
    rw [Bytes.getElem?_overlay hfit, hw]
    by_cases hold : j < k
    · rw [if_neg (by omega)]
      exact h.copied j hold
    · rw [if_pos (by omega), List.getElem?_take_of_lt (by omega), List.getElem?_drop]
      congr 1
      omega
  · intro i hi hlt
    rw [Bytes.getElem?_overlay hfit, hw, if_neg (by omega)]
    exact h.behind i (by omega) hlt
  · rw [hlen]
    exact h.longer
  · rw [hlen]
    exact h.bounded

theorem Laid.finished (h : Laid x₀ off₀ bs bs.length x) (hx : off₀ + bs.length ≤ x.length) :
    x = spliced x₀ off₀ bs := by
  have hlong := h.longer
  have hbound := h.bounded
  have hpad : (x₀ ++ List.replicate (off₀ + bs.length - x₀.length) 0).length = x.length := by
    rw [List.length_append, List.length_replicate]
    omega
  apply List.ext_getElem?
  intro i
  unfold spliced
  rw [Bytes.getElem?_overlay (by omega)]
  split
  · rename_i hin
    have hold := h.copied (i - off₀) (by omega)
    rw [show off₀ + (i - off₀) = i by omega] at hold
    exact hold
  · rename_i hout
    by_cases hlt : i < x.length
    · by_cases hi : i < x₀.length
      · rw [List.getElem?_append_left hi]
        by_cases hfront : i < off₀
        · rw [h.front i hfront hlt, List.getD_eq_getElem?_getD, List.getElem?_eq_getElem hi]
          rfl
        · exact h.behind i (by omega) hi
      · rw [h.front i (by omega) hlt, List.getElem?_append_right (by omega),
          List.getElem?_replicate, if_pos (by omega), List.getD_eq_getElem?_getD,
          List.getElem?_eq_none (by omega)]
        rfl
    · rw [List.getElem?_eq_none (by omega), List.getElem?_eq_none (by omega)]

end Laid

/-! ## The buffers -/

section Buffers

variable {m : Mbuf}

@[simp] theorem length_bytes (m : Mbuf) : m.bytes.length = m.len := by
  simp [Mbuf.bytes]

theorem contents_append (l l' : List Mbuf) : contents (l ++ l') = contents l ++ contents l' := by
  simp [contents]

theorem contents_single (m : Mbuf) : contents [m] = m.bytes := by
  simp [contents]

theorem contents_chain (c : Copy) :
    contents c.chain = contents c.done ++ (c.m.bytes ++ contents c.rest) := by
  simp [Copy.chain, contents]

theorem bytes_write {a : Nat} {l : List UInt8} (h : a + l.length ≤ m.len) :
    (m.write a l).bytes = Bytes.overlay m.bytes a l :=
  Bytes.slice_blit_overlay h

/-- What a buffer holds when more of it comes into use. -/
theorem bytes_grow (m : Mbuf) (z n : Nat) :
    ((m.zero m.len z).grow n).bytes =
      m.bytes ++ (m.mem.fill m.len z 0).slice m.len (min m.space n) := by
  show Bytes.slice _ 0 (m.len + min m.space n) = _
  rw [Bytes.slice_add, Nat.zero_add]
  congr 1
  apply Bytes.slice_congr
  intro x _ hx
  exact Bytes.fill_outside (by omega)

/-- The bytes at a place inside. -/
theorem slice_mem {a n : Nat} (h : a + n ≤ m.len) : m.mem.slice a n = (m.bytes.drop a).take n := by
  apply List.ext_getElem?
  intro i
  by_cases hi : i < n
  · have hlt : a + i < m.len := by omega
    rw [List.getElem?_take_of_lt hi, List.getElem?_drop]
    simp [Mbuf.bytes, Bytes.slice, hi, hlt]
  · rw [List.getElem?_eq_none (by rw [Bytes.length_slice]; omega),
      List.getElem?_eq_none (by rw [List.length_take]; omega)]

theorem getElem?_slice_fill {mem : Bytes} {a z n i : Nat} (hi : i < n) (hz : i < z) :
    ((mem.fill a z 0).slice a n)[i]? = some 0 := by
  simp [Bytes.slice, Bytes.fill, hi, hz]

end Buffers

/-! ## The loops -/

section Loops

variable {x₀ bs : List UInt8} {off₀ : Nat} {z : Sizes} {c : Copy} {d : Nat}

/-- How far the chain in front of `m` goes. -/
def Copy.before (c : Copy) : Nat := (contents c.done).length

/-- `k` bytes have been copied, and not all. -/
structure Copying (x₀ : List UInt8) (off₀ : Nat) (bs : List UInt8) (d k : Nat) (c : Copy) :
    Prop where
  laid : Laid x₀ off₀ bs k (contents c.chain)
  left : c.cp = bs.drop k
  some : k < bs.length
  drops : d ≤ c.pool.drops

/-- The chain is too short, and a request was refused. -/
def Short (off₀ : Nat) (bs : List UInt8) (d : Nat) (c : Copy) : Prop :=
  (contents c.chain).length < off₀ + bs.length ∧ c.totlen = (contents c.chain).length ∧
    d < c.pool.drops

/-- What holds at the labels; `d` requests had been refused before. -/
def At (x₀ : List UInt8) (off₀ : Nat) (bs : List UInt8) (d : Nat) (c : Copy) : Label → Prop
  | .seek => ∃ k, Copying x₀ off₀ bs d k c ∧ c.before + c.off = off₀ + k ∧ c.totlen = c.before
  | .copy => ∃ k, Copying x₀ off₀ bs d k c ∧ c.before + c.off = off₀ + k ∧ c.totlen = c.before ∧
      c.off ≤ c.m.len
  | .extend => ∃ k, Copying x₀ off₀ bs d k c ∧ c.before + c.m.len + c.off = off₀ + k ∧
      c.totlen = c.before + c.m.len ∧ c.rest = []
  | .out => (contents c.chain = spliced x₀ off₀ bs ∧ c.totlen = off₀ + bs.length) ∨
      Short off₀ bs d c

/-- A bound for the jumps that are left: what is missing in the chain, the
buffers that follow, and the order of the labels. -/
def Copy.todo (c : Copy) : Label → Nat
  | .seek => 3 * (c.off + c.cp.length - (c.m.len + (contents c.rest).length) + c.rest.length) + 2
  | .copy => 3 * (c.off + c.cp.length - (c.m.len + (contents c.rest).length) + c.rest.length) + 1
  | .extend => 3 * (c.off + c.cp.length)
  | .out => 0

theorem length_contents_cons (n : Mbuf) (rest : List Mbuf) :
    (contents (n :: rest)).length = n.len + (contents rest).length := by
  simp [contents]

theorem length_contents_snoc (done : List Mbuf) (m : Mbuf) :
    (contents (done ++ [m])).length = (contents done).length + m.len := by
  rw [contents_append, contents_single, List.length_append, length_bytes]

theorem length_chain (h : c.rest = []) : (contents c.chain).length = c.before + c.m.len := by
  rw [contents_chain, h]
  simp [contents, Copy.before]

/-- To pass over a buffer changes nothing of the chain. -/
theorem chain_pass (done : List Mbuf) (m n : Mbuf) (rest : List Mbuf) (o o' t t' : Nat)
    (cp cp' : List UInt8) (pool pool' : Pool) :
    (⟨done ++ [m], n, rest, o, cp, t, pool⟩ : Copy).chain =
      (⟨done, m, n :: rest, o', cp', t', pool'⟩ : Copy).chain := by
  simp [Copy.chain]

theorem seek_at (h : At x₀ off₀ bs d c .seek) :
    At x₀ off₀ bs d (seek c).2 (seek c).1 ∧ (seek c).2.todo (seek c).1 < c.todo .seek := by
  obtain ⟨k, hc, hpos, htot⟩ := h
  obtain ⟨done, m, rest, off, cp, totlen, pool⟩ := c
  simp only [Copy.before] at hpos htot
  unfold seek
  by_cases hoff : m.len < off
  · rw [if_pos hoff]
    cases rest with
    | nil =>
      refine ⟨⟨k, ⟨hc.laid, hc.left, hc.some, hc.drops⟩, ?_, ?_, rfl⟩, ?_⟩
      · show (contents done).length + m.len + (off - m.len) = off₀ + k
        omega
      · show totlen + m.len = (contents done).length + m.len
        omega
      · simp only [Copy.todo, contents, List.flatMap_nil, List.length_nil]
        omega
    | cons n rest =>
      have hsnoc := length_contents_snoc done m
      refine ⟨⟨k, ⟨?_, hc.left, hc.some, hc.drops⟩, ?_, ?_⟩, ?_⟩
      · rw [chain_pass]
        exact hc.laid
      · show (contents (done ++ [m])).length + (off - m.len) = off₀ + k
        omega
      · show totlen + m.len = (contents (done ++ [m])).length
        omega
      · simp only [Copy.todo, length_contents_cons, List.length_cons]
        omega
  · rw [if_neg hoff]
    have hin : off ≤ m.len := by omega
    exact ⟨⟨k, hc, hpos, htot, hin⟩, by simp only [Copy.todo]; omega⟩

theorem copy_at (h : At x₀ off₀ bs d c .copy) :
    At x₀ off₀ bs d (copy c).2 (copy c).1 ∧ (copy c).2.todo (copy c).1 < c.todo .copy := by
  obtain ⟨k, hc, hpos, htot, hin⟩ := h
  obtain ⟨done, m, rest, off, cp, totlen, pool⟩ := c
  obtain ⟨hlaid, hleft, hk, hdrops⟩ := hc
  simp only [Copy.before] at hpos htot hin hleft
  have hcp : cp.length = bs.length - k := by rw [hleft, List.length_drop]
  have hne : cp ≠ [] := by
    intro hnil
    rw [hnil] at hcp
    simp at hcp
    omega
  unfold copy
  rw [if_neg hne]
  generalize hmlen : min (m.len - off) cp.length = mlen
  have hw : (cp.take mlen).length = mlen := by
    rw [List.length_take]
    omega
  have hbytes : (m.write off (cp.take mlen)).bytes = Bytes.overlay m.bytes off (cp.take mlen) :=
    bytes_write (by omega)
  have hchain : ∀ rest' o t p (cp' : List UInt8), rest' = rest →
      contents (⟨done, m.write off (cp.take mlen), rest', o, cp', t, p⟩ : Copy).chain =
        Bytes.overlay (contents (⟨done, m, rest, off, cp, totlen, pool⟩ : Copy).chain) (off₀ + k)
          ((bs.drop k).take mlen) := by
    intro rest' o t p cp' hrest
    rw [contents_chain, contents_chain, hbytes, ← hpos, hrest, ← hleft]
    exact (Bytes.overlay_middle (by rw [length_bytes]; omega)).symm
  have hlaid' := @Laid.written _ _ _ _ _ hlaid mlen (by
    rw [contents_chain, List.length_append, List.length_append, length_bytes]
    show off₀ + k + mlen ≤ (contents done).length + (m.len + _)
    omega) (by omega)
  have hleft' : cp.drop mlen = bs.drop (k + mlen) := by rw [hleft, List.drop_drop]
  have hcp' : (cp.drop mlen).length = cp.length - mlen := List.length_drop ..
  by_cases hall : cp.drop mlen = []
  · rw [if_pos hall]
    have hend : k + mlen = bs.length := by
      rw [hall, List.length_nil] at hcp'
      omega
    refine ⟨.inl ⟨?_, ?_⟩, ?_⟩
    · rw [hchain _ _ _ _ _ rfl]
      rw [hend] at hlaid'
      apply hlaid'.finished
      have hfit : off₀ + k + ((bs.drop k).take mlen).length ≤
          (contents (⟨done, m, rest, off, cp, totlen, pool⟩ : Copy).chain).length := by
        rw [← hleft, hw, contents_chain, List.length_append, List.length_append, length_bytes]
        show off₀ + k + mlen ≤ (contents done).length + (m.len + _)
        omega
      rw [Bytes.length_overlay hfit]
      rw [← hleft, hw] at hfit
      omega
    · show totlen + (mlen + off) = off₀ + bs.length
      omega
    · simp only [Copy.todo]
      omega
  · rw [if_neg hall]
    have hmore : mlen = m.len - off ∧ k + mlen < bs.length := by
      have hpos' : 0 < (cp.drop mlen).length := List.length_pos_of_ne_nil hall
      omega
    cases rest with
    | nil =>
      refine ⟨⟨k + mlen, ⟨?_, hleft', hmore.2, hdrops⟩, ?_, ?_, rfl⟩, ?_⟩
      · rw [hchain _ _ _ _ _ rfl]
        exact hlaid'
      · show (contents done).length + m.len + 0 = off₀ + (k + mlen)
        omega
      · show totlen + (mlen + off) = (contents done).length + m.len
        omega
      · simp only [Copy.todo, contents, List.flatMap_nil, List.length_nil, hcp']
        omega
    | cons n rest =>
      have hsnoc := length_contents_snoc done (m.write off (cp.take mlen))
      have hlen : (m.write off (cp.take mlen)).len = m.len := rfl
      refine ⟨⟨k + mlen, ⟨?_, hleft', hmore.2, hdrops⟩, ?_, ?_, Nat.zero_le _⟩, ?_⟩
      · rw [chain_pass _ _ _ _ _ 0 _ 0 _ [] _ pool, hchain _ _ _ _ _ rfl]
        exact hlaid'
      · show (contents (done ++ [m.write off (cp.take mlen)])).length + 0 = off₀ + (k + mlen)
        omega
      · show totlen + (mlen + off) = (contents (done ++ [m.write off (cp.take mlen)])).length
        omega
      · simp only [Copy.todo, length_contents_cons, List.length_cons, hcp']
        omega

/-- A cluster takes the place of a buffer that is empty. -/
theorem cluster_at (h : At x₀ off₀ bs d c .extend) :
    At x₀ off₀ bs d (cluster z c) .extend ∧
      (cluster z c).todo .extend = c.todo .extend := by
  unfold cluster
  split
  · rename_i hcl
    obtain ⟨k, hc, hpos, htot, hrest⟩ := h
    have hdrops : d ≤ c.pool.next.drops := Nat.le_trans hc.drops c.pool.drops_le
    split
    · have hempty : c.m.bytes = [] := List.eq_nil_of_length_eq_zero ((length_bytes _).trans hcl.2.2)
      have hnew : (Mbuf.new z.MCLBYTES true (c.pool.fresh c.pool.used) 0).bytes = [] := by
        simp [Mbuf.bytes, Mbuf.new, Bytes.slice]
      have hchain := hc.laid
      rw [contents_chain, hempty] at hchain
      rw [hcl.2.2] at hpos htot
      refine ⟨⟨k, ⟨?_, hc.left, hc.some, hdrops⟩, ?_, ?_, hrest⟩, rfl⟩
      · rw [contents_chain, hnew]
        exact hchain
      · show c.before + min z.MCLBYTES 0 + c.off = off₀ + k
        rw [Nat.min_zero]
        exact hpos
      · show c.totlen = c.before + min z.MCLBYTES 0
        rw [Nat.min_zero]
        exact htot
    · exact ⟨⟨k, ⟨hc.laid, hc.left, hc.some, hdrops⟩, hpos, htot, hrest⟩, rfl⟩
  · exact ⟨h, rfl⟩

/-- The chain has got longer by `t` bytes, those in front of the place to write
at are zero. -/
theorem Copying.grown {k : Nat} (hc : Copying x₀ off₀ bs d k c) {c' : Copy} (mem : Bytes)
    (a y t : Nat) (hpos : (contents c.chain).length + c.off = off₀ + k)
    (hchain : contents c'.chain = contents c.chain ++ (mem.fill a y 0).slice a t)
    (hcp : c'.cp = c.cp) (hd : d ≤ c'.pool.drops) (ht : t ≤ c.off + c.cp.length) (hy : y = min c.off t) :
    Copying x₀ off₀ bs d k c' := by
  have hleft := congrArg List.length hc.left
  rw [List.length_drop] at hleft
  have hk := hc.some
  refine ⟨?_, hcp.trans hc.left, hk, hd⟩
  rw [hchain]
  apply hc.laid.grown (by omega)
  · intro i hi hlt
    rw [Bytes.length_slice] at hi
    exact getElem?_slice_fill hi (by omega)
  · rw [Bytes.length_slice]
    omega

theorem append_at (h : At x₀ off₀ bs d c .extend) :
    At x₀ off₀ bs d (append z c).2 (append z c).1 ∧
      (append z c).2.todo (append z c).1 < c.todo .extend := by
  obtain ⟨k, hc, hpos, htot, hrest⟩ := h
  have hleft := congrArg List.length hc.left
  rw [List.length_drop] at hleft
  have hk := hc.some
  have hflat := length_chain hrest
  unfold append
  by_cases hg : c.pool.granted = true
  · rw [if_pos hg]
    have hlen : 0 < (c.buffer z).len ∧ (c.buffer z).len ≤ c.off + c.cp.length := by
      have hplain := z.plain
      have hcluster := z.cluster
      unfold Copy.buffer
      split <;> simp only [Mbuf.new] <;> omega
    have hsnoc := length_contents_snoc c.done c.m
    refine ⟨⟨k, ?_, ?_, ?_⟩, ?_⟩
    · refine hc.grown (c.buffer z).mem 0 (min (c.buffer z).len c.off) (c.buffer z).len (by omega)
        ?_ ?_ (Nat.le_trans hc.drops c.pool.drops_le) hlen.2 (Nat.min_comm _ _)
      · rw [contents_chain, contents_chain, hrest, contents_append, contents_single]
        simp only [contents, List.flatMap_nil, List.append_nil, List.append_assoc]
        rfl
      · rfl
    · show (contents (c.done ++ [c.m])).length + c.off = off₀ + k
      rw [hsnoc]
      exact hpos
    · show c.totlen = (contents (c.done ++ [c.m])).length
      rw [hsnoc]
      exact htot
    · simp only [Copy.todo, hrest, contents, List.flatMap_nil, List.length_nil, Mbuf.zero]
      omega
  · rw [if_neg hg]
    have hdrops : c.pool.next.drops = c.pool.drops + 1 := if_neg hg
    have hd := hc.drops
    refine ⟨.inr ⟨?_, ?_, ?_⟩, ?_⟩
    · show (contents c.chain).length < off₀ + bs.length
      omega
    · show c.totlen = (contents c.chain).length
      omega
    · show d < c.pool.next.drops
      omega
    · simp only [Copy.todo]
      omega

theorem extend_at (h : At x₀ off₀ bs d c .extend) :
    At x₀ off₀ bs d (extend z c).2 (extend z c).1 ∧
      (extend z c).2.todo (extend z c).1 < c.todo .extend := by
  obtain ⟨h, htodo⟩ := @cluster_at _ _ _ z c d h
  rw [← htodo]
  unfold extend
  generalize cluster z c = c at h ⊢
  by_cases hspace : 0 < c.m.space
  · simp only [if_pos hspace]
    obtain ⟨k, hc, hpos, htot, hrest⟩ := h
    have hleft := congrArg List.length hc.left
    rw [List.length_drop] at hleft
    have hk := hc.some
    have hflat := length_chain hrest
    refine ⟨⟨k, ?_, ?_, ?_⟩, ?_⟩
    · refine hc.grown c.m.mem c.m.len (min c.off (min c.m.space (c.off + c.cp.length)))
        (min c.m.space (c.off + c.cp.length)) (by omega) ?_ ?_ hc.drops (Nat.min_le_right _ _)
        rfl
      · rw [contents_chain, contents_chain, hrest, bytes_grow]
        simp only [contents, List.flatMap_nil, List.append_nil, List.append_assoc]
      · rfl
    · show (contents c.done).length + (c.off + c.m.len) = off₀ + k
      have hbefore : c.before = (contents c.done).length := rfl
      omega
    · show c.totlen - c.m.len = (contents c.done).length
      have hbefore : c.before = (contents c.done).length := rfl
      omega
    · have hgrow : ∀ y, ((c.m.zero c.m.len y).grow (c.off + c.cp.length)).len =
          c.m.len + min c.m.space (c.off + c.cp.length) := fun _ => rfl
      simp only [Copy.todo, hrest, contents, List.flatMap_nil, List.length_nil, hgrow]
      omega
  · simp only [if_neg hspace]
    exact append_at h

theorem next_at {l : Label} (hl : l ≠ .out) (h : At x₀ off₀ bs d c l) :
    At x₀ off₀ bs d (next z l c).2 (next z l c).1 ∧ (next z l c).2.todo (next z l c).1 < c.todo l := by
  cases l with
  | seek => exact seek_at h
  | extend => exact extend_at h
  | copy => exact copy_at h
  | out => exact absurd rfl hl

/-- With enough fuel the loops come to an end, and what holds there is reached. -/
theorem mCopyback0_ends {l : Label} (h : At x₀ off₀ bs d c l) {fuel : Nat} (hf : c.todo l ≤ fuel) :
    ∃ c', mCopyback0 z fuel l c = some c' ∧ At x₀ off₀ bs d c' .out := by
  induction fuel generalizing l c with
  | zero =>
    cases l with
    | out => exact ⟨c, rfl, h⟩
    | seek | copy => simp only [Copy.todo] at hf; omega
    | extend =>
      have hlt := (@extend_at _ _ _ z c d h).2
      omega
  | succ fuel ih =>
    by_cases hl : l = .out
    · subst hl
      exact ⟨c, rfl, h⟩
    · obtain ⟨hat, hlt⟩ := @next_at _ _ _ z c d l hl h
      have hstep : mCopyback0 z (fuel + 1) l c =
          mCopyback0 z fuel (next z l c).1 (next z l c).2 := by
        cases l <;> first | rfl | exact absurd rfl hl
      rw [hstep]
      exact ih hat (by omega)

/-- `m_copyback` with something to write: the packet then holds it at its place
and has the right length, or a request was refused and the length is that of a
chain that is too short. -/
theorem mCopyback_spec (z : Sizes) {p : Packet} (hp : p.chain ≠ []) (off : Nat) (hbs : bs ≠ [])
    (pool : Pool) {fuel : Nat} (hf : 3 * (off + bs.length + p.chain.length) + 2 ≤ fuel) :
    ∃ p' pool', mCopyback z fuel p off bs pool = some (p', pool') ∧
      ((contents p'.chain = spliced (contents p.chain) off bs ∧
          p'.len = max p.len (off + bs.length)) ∨
        ((contents p'.chain).length < off + bs.length ∧
          p'.len = max p.len (contents p'.chain).length ∧ pool.drops < pool'.drops)) := by
  obtain ⟨chain, len⟩ := p
  cases chain with
  | nil => exact absurd rfl hp
  | cons m rest =>
    have hpos : 0 < bs.length := List.length_pos_of_ne_nil hbs
    have hstart : At (contents (m :: rest)) off bs pool.drops ⟨[], m, rest, off, bs, 0, pool⟩ .seek :=
      ⟨0, ⟨Laid.start _ _ _, rfl, hpos, Nat.le_refl _⟩, by simp [Copy.before, contents],
        by simp [Copy.before, contents]⟩
    have htodo : (⟨[], m, rest, off, bs, 0, pool⟩ : Copy).todo .seek ≤ fuel := by
      simp only [List.length_cons] at hf
      simp only [Copy.todo]
      omega
    obtain ⟨c, hc, hout⟩ := @mCopyback0_ends _ _ _ z _ _ _ hstart _ htodo
    have hmax : (if len < c.totlen then c.totlen else len) = max len c.totlen := by
      split <;> omega
    refine ⟨⟨c.chain, max len c.totlen⟩, c.pool, ?_, ?_⟩
    · simp only [mCopyback, hc, Option.map_some, hmax]
    · rcases hout with ⟨hx, htot⟩ | ⟨hx, htot, hd⟩
      · exact .inl ⟨hx, by rw [htot]⟩
      · exact .inr ⟨hx, by rw [htot], hd⟩

/-! ## A chain that has grown from one buffer -/

/-- Only the last buffer may have room left. -/
structure Packed (c : Copy) : Prop where
  last : c.rest = []
  full : ∀ x ∈ c.done, x.len = x.room
  roomy : 16 ≤ c.m.room ∧ ∀ x ∈ c.done, 16 ≤ x.room

theorem cluster_packed (h : Packed c) : Packed (cluster z c) := by
  unfold cluster
  split
  · split
    · exact ⟨h.last, h.full, z.cluster, h.roomy.2⟩
    · exact ⟨h.last, h.full, h.roomy⟩
  · exact h

theorem extend_packed (h : Packed c) : Packed (extend z c).2 := by
  have hc := @cluster_packed z c h
  unfold extend
  generalize cluster z c = c at hc ⊢
  by_cases hspace : 0 < c.m.space
  · simp only [if_pos hspace]
    exact ⟨hc.last, hc.full, hc.roomy⟩
  · simp only [if_neg hspace]
    have hfull : c.m.len = c.m.room := by
      have hfits := c.m.fits
      unfold Mbuf.space at hspace
      omega
    unfold append
    split
    · refine ⟨hc.last, ?_, ?_, ?_⟩
      · intro x hx
        rcases List.mem_append.mp hx with hx | hx
        · exact hc.full x hx
        · rw [List.mem_singleton.mp hx]
          exact hfull
      · have hplain := z.plain
        have hcluster := z.cluster
        show 16 ≤ (c.buffer z).room
        unfold Copy.buffer
        split <;> assumption
      · intro x hx
        rcases List.mem_append.mp hx with hx | hx
        · exact hc.roomy.2 x hx
        · rw [List.mem_singleton.mp hx]
          exact hc.roomy.1
    · exact ⟨hc.last, hc.full, hc.roomy⟩

theorem next_packed (h : Packed c) (l : Label) : Packed (next z l c).2 := by
  have hlast := h.last
  cases l with
  | seek =>
    show Packed (seek c).2
    unfold seek
    split
    · simp only [hlast]
      exact ⟨rfl, h.full, h.roomy⟩
    · exact h
  | extend => exact extend_packed h
  | copy =>
    show Packed (copy c).2
    unfold copy
    split
    · exact h
    · simp only [hlast]
      split
      · exact ⟨rfl, h.full, h.roomy⟩
      · exact ⟨rfl, h.full, h.roomy⟩
  | out => exact h

theorem mCopyback0_packed (h : Packed c) {l : Label} {fuel : Nat} {c' : Copy}
    (hc : mCopyback0 z fuel l c = some c') : Packed c' := by
  induction fuel generalizing l c with
  | zero =>
    cases l <;> cases hc
    exact h
  | succ fuel ih =>
    cases l with
    | out =>
      cases hc
      exact h
    | seek | extend | copy => exact ih (next_packed h _) hc

/-- The first buffer has the first bytes. -/
theorem Packed.head (h : Packed c) :
    ∃ m rest, c.chain = m :: rest ∧ min 16 (contents c.chain).length ≤ m.len := by
  unfold Copy.chain
  rw [h.last]
  cases hd : c.done with
  | nil =>
    refine ⟨c.m, [], rfl, ?_⟩
    rw [List.nil_append, contents_single, length_bytes]
    exact Nat.min_le_right _ _
  | cons x done =>
    refine ⟨x, done ++ [c.m], rfl, ?_⟩
    have hx : x ∈ c.done := by rw [hd]; exact List.mem_cons_self
    have hfull := h.full x hx
    have hroomy := h.roomy.2 x hx
    omega

end Loops

end Frankenlibc.Virtif.Packets

import Frankenlibc.Malloc.Bucket
import Frankenlibc.Malloc.Pool

/-!
# The heap in memory represents a pool

`Rep page s p` ties the static data and the memory of the allocator to a pool:
the links in memory thread the free lists, and every block in use has its
header before its pointer. The lemmas say when a change of memory keeps a
representation, and that unlinking, `morecore` and `free` do to the memory
what `take`, `grow` and `put` do to the pool.
-/
namespace Frankenlibc.Malloc

open Frankenlibc.Lib

/-- The header of a block in use. -/
structure Header (m : Bytes) (l : Live) : Prop where
  pad : ovAlignpad m (l.ptr - 16) = l.ptr - l.start
  magic : ovMagic m (l.ptr - 16) = MAGIC
  index : ovIndex m (l.ptr - 16) = l.index

/-- The page size has been asked for. -/
def Ready (page : PageSize) (s : State) : Prop :=
  s.pagesz = page.bytes ∧ s.pagebucket = page.shift - 5

/-- The heap represents the pool. -/
structure Rep (page : PageSize) (s : State) (p : Pool) : Prop where
  ready : s.pagesz = 0 ∨ Ready page s
  lists : ∀ i < NBUCKETS, Chain (ovNext s.mem) NULL (s.nextf i) (p.free i)
  header : ∀ l ∈ p.live, Header s.mem l
  live : s.live = p.live
  carved : s.carved = p.carved
  regions : s.regions = p.regions

theorem rep_boot (page : PageSize) (mem : Bytes) : Rep page (boot mem) Pool.empty where
  ready := .inl rfl
  lists := fun _ _ => .nil
  header := fun _ h => absurd h List.not_mem_nil
  live := rfl
  carved := rfl
  regions := rfl

/-! ## Changes of memory -/

/-- Nothing outside a block has changed. -/
def Within (b : Block) (m m' : Bytes) : Prop :=
  ∀ x, x < b.start ∨ b.stop ≤ x → m' x = m x

/-- Nothing inside a block has changed. -/
def Same (b : Block) (m m' : Bytes) : Prop :=
  ∀ x, b.start ≤ x → x < b.stop → m' x = m x

theorem Within.same {b c : Block} {m m' : Bytes} (h : Within b m m') (ha : b.Apart c) :
    Same c m m' := by
  intro x hlo hhi
  unfold Block.Apart at ha
  exact h x (by omega)

theorem Same.trans {b : Block} {m₁ m₂ m₃ : Bytes} (h : Same b m₁ m₂) (h' : Same b m₂ m₃) :
    Same b m₁ m₃ :=
  fun x hlo hhi => (h' x hlo hhi).trans (h x hlo hhi)

/-- A block has room for its link. -/
theorem Block.room_for_link (b : Block) : b.start + 32 ≤ b.stop := by
  have h : 2 ^ 5 ≤ 2 ^ (b.index + 5) := Nat.pow_le_pow_right (by decide) (Nat.le_add_left _ _)
  show b.start + 32 ≤ b.start + 2 ^ (b.index + 5)
  omega

theorem Same.next {a i : Nat} {m m' : Bytes} (h : Same ⟨a, i⟩ m m') : ovNext m' a = ovNext m a := by
  have hr := Block.room_for_link ⟨a, i⟩
  exact Bytes.load_congr fun x hlo hhi => h x hlo (by simp only at hr; omega)

/-- What is left of the header of a block in use once it is given back: the
link covers neither the magic number nor the index. -/
structure Stale (m : Bytes) (l : Live) : Prop where
  magic : ovMagic m (l.ptr - 16) = MAGIC
  index : ovIndex m (l.ptr - 16) = l.index

theorem Stale.congr {l : Live} {m m' : Bytes} (h : Stale m l) (h16 : 16 ≤ l.ptr)
    (hs : ∀ x, l.ptr - 8 ≤ x → x < l.ptr → m' x = m x) : Stale m' l := by
  constructor
  · rw [← h.magic]
    exact hs _ (by omega) (by omega)
  · rw [← h.index]
    exact congrArg UInt8.toNat (hs _ (by omega) (by omega))

theorem Header.stale {l : Live} {m : Bytes} (h : Header m l) : Stale m l := ⟨h.magic, h.index⟩

/-- The header depends on the 16 bytes before the pointer. -/
theorem Header.congr {l : Live} {m m' : Bytes} (h : Header m l) (h16 : 16 ≤ l.ptr)
    (hs : ∀ x, l.ptr - 16 ≤ x → x < l.ptr → m' x = m x) : Header m' l := by
  obtain ⟨hmagic, hindex⟩ := h.stale.congr h16 fun x hlo hhi => hs x (by omega) hhi
  refine ⟨?_, hmagic, hindex⟩
  rw [← h.pad]
  exact Bytes.load_congr fun x hlo hhi => hs x hlo (by omega)

theorem Header.same {l : Live} {m m' : Bytes} (h : Header m l) (hl : Placed l)
    (hs : Same l.toBlock m m') : Header m' l := by
  have h₁ : l.start + 16 ≤ l.ptr := hl.header
  have h₂ := hl.inside
  exact h.congr (by omega) fun x hlo hhi => hs x (by omega) (by omega)

theorem Stale.same {l : Live} {m m' : Bytes} (h : Stale m l) (hl : Placed l)
    (hs : Same l.toBlock m m') : Stale m' l := by
  have h₁ : l.start + 16 ≤ l.ptr := hl.header
  have h₂ := hl.inside
  exact h.congr (by omega) fun x hlo hhi => hs x (by omega) (by omega)

variable {page : PageSize} {s : State} {p : Pool}

namespace Rep

/-- A change of memory that keeps every link and every header. -/
theorem memory (h : Rep page s p) {m : Bytes}
    (hf : ∀ i < NBUCKETS, ∀ a ∈ p.free i, ovNext m a = ovNext s.mem a)
    (hl : ∀ l ∈ p.live, Header m l) : Rep page { s with mem := m } p where
  ready := h.ready
  lists := fun i hi => (h.lists i hi).congr (hf i hi)
  header := hl
  live := h.live
  carved := h.carved
  regions := h.regions

/-- A change of memory behind the pointer of a block in use. -/
theorem payload (h : Rep page s p) {m : Bytes} {l : Live} (hl : l ∈ p.live)
    (hm : ∀ x, x < l.ptr ∨ l.stop ≤ x → m x = s.mem x) : Rep page { s with mem := m } p := by
  have h₁ : l.start + 16 ≤ l.ptr := (p.placed l hl).header
  have hw : Within l.toBlock s.mem m := fun x hx => hm x (by omega)
  refine h.memory ?_ ?_
  · intro i hi a ha
    exact (hw.same (Pool.live_apart_free hl hi ha)).next
  · intro k hk
    by_cases hkl : k = l
    · subst hkl
      exact (h.header k hk).congr (by omega) fun x _ hhi => hm x (.inl hhi)
    · have ha : l.toBlock.Apart k.toBlock := Pool.live_apart_live hl hk (Ne.symm hkl)
      exact (h.header k hk).same (p.placed k hk) (hw.same ha)

theorem nextf_lt (h : Rep page s p) {i : Nat} (hi : i < NBUCKETS) :
    s.nextf i < 18446744073709551616 := by
  by_cases h0 : s.nextf i = NULL
  · rw [h0]
    decide
  · obtain ⟨t, ht, _⟩ := (h.lists i hi).of_ne h0
    have hmem : s.nextf i ∈ p.free i := by
      rw [ht]
      exact List.mem_cons_self
    have hc := Pool.block_stop (Pool.free_carved hi hmem)
    have hlt := Block.start_lt_stop ⟨s.nextf i, i⟩
    simp only at hlt
    omega

end Rep

theorem ovNext_setNext (m : Bytes) {a v : Nat} (hv : v < 18446744073709551616) :
    ovNext (setNext m a v) a = v := by
  unfold ovNext setNext
  rw [Bytes.load_store]
  exact Nat.mod_eq_of_lt hv

theorem setNext_within (m : Bytes) (b : Block) (v : Nat) :
    Within b m (setNext m b.start v) := by
  have hr := b.room_for_link
  intro x hx
  exact Bytes.store_outside (by omega)

end Frankenlibc.Malloc

import Frankenlibc.Lib.Shelves
import Frankenlibc.Malloc.Code
import Mathlib.Data.List.Pairwise

/-!
# The pool of blocks

What the allocator is for: memory from the host is cut into blocks, and every
block is either on the free list of its size or in use. A `Pool` carries the
proofs that the blocks do not overlap, lie in mapped memory and are suitably
aligned, so a pool with two owners of one byte cannot be built.
-/
namespace Frankenlibc.Malloc

open Frankenlibc.Lib

/-- Two blocks without a common byte. -/
def Block.Apart (b c : Block) : Prop := b.stop ≤ c.start ∨ c.stop ≤ b.start

theorem Block.start_lt_stop (b : Block) : b.start < b.stop :=
  Nat.lt_add_of_pos_right (Nat.two_pow_pos _)

theorem Block.Apart.symm {b c : Block} (h : b.Apart c) : c.Apart b := Or.symm h

instance : Std.Symm Block.Apart := ⟨fun _ _ => Block.Apart.symm⟩

theorem Block.Apart.ne {b c : Block} (h : b.Apart c) : b ≠ c := by
  rintro rfl
  have hlt := b.start_lt_stop
  unfold Block.Apart at h
  omega

/-- The largest index `aligned_alloc` can pick. -/
abbrev topIndex : Nat := 26

/-- Where a block may lie. -/
structure Sited (regions : List (Nat × Nat)) (b : Block) : Prop where
  index : b.index ≤ topIndex
  aligned : 32 ∣ b.start
  mapped : ∃ r ∈ regions, r.1 ≤ b.start ∧ b.stop ≤ r.1 + r.2

/-- Where the memory handed out for a block may lie. -/
structure Placed (l : Live) : Prop where
  header : l.start + OVERHEAD ≤ l.ptr
  inside : l.ptr ≤ l.stop
  aligned : max MINALIGN l.align ∣ l.ptr

/-- A region the host may map: not at `NULL` and not up to the last address. -/
def Mappable (r : Nat × Nat) : Prop := 0 < r.1 ∧ r.1 + r.2 < 18446744073709551616

/-- The blocks of the free lists. -/
def freeBlocks (free : Nat → List Nat) : List Block :=
  shelved NBUCKETS free fun i a => ⟨a, i⟩

/-- The free lists and the blocks in use. -/
structure Pool where
  free : Nat → List Nat
  live : List Live
  carved : List Block
  regions : List (Nat × Nat)
  whole : carved.Perm (freeBlocks free ++ live.map Live.toBlock)
  apart : carved.Pairwise Block.Apart
  sited : ∀ b ∈ carved, Sited regions b
  mappable : ∀ r ∈ regions, Mappable r
  placed : ∀ l ∈ live, Placed l

namespace Pool

variable {p : Pool} {i j a c : Nat} {l m : Live}

/-! ## What a pool rules out -/

theorem blocks_apart (p : Pool) :
    (freeBlocks p.free ++ p.live.map Live.toBlock).Pairwise Block.Apart :=
  (p.whole.pairwise_iff Block.Apart.symm).mp p.apart

theorem free_carved (hi : i < NBUCKETS) (ha : a ∈ p.free i) : ⟨a, i⟩ ∈ p.carved :=
  p.whole.mem_iff.mpr (List.mem_append_left _ (mem_shelved.mpr ⟨i, hi, a, ha, rfl⟩))

theorem live_carved (hl : l ∈ p.live) : l.toBlock ∈ p.carved :=
  p.whole.mem_iff.mpr (List.mem_append_right _ (List.mem_map_of_mem hl))

theorem live_apart (p : Pool) : p.live.Pairwise fun l m => l.toBlock.Apart m.toBlock :=
  List.pairwise_map.mp (List.pairwise_append.mp p.blocks_apart).2.1

theorem live_apart_live (hl : l ∈ p.live) (hm : m ∈ p.live) (hne : l ≠ m) :
    l.toBlock.Apart m.toBlock := by
  have hs : Std.Symm fun l m : Live => l.toBlock.Apart m.toBlock := ⟨fun _ _ h => h.symm⟩
  exact p.live_apart.forall hl hm hne

/-- A pointer belongs to one block: it lies behind the start of its block and
not behind its end. -/
theorem ptr_unique (hl : l ∈ p.live) (hm : m ∈ p.live) (h : l.ptr = m.ptr) : l = m := by
  by_contra hne
  have ha := live_apart_live hl hm hne
  have h₁ : l.start + 16 ≤ l.ptr := (p.placed l hl).header
  have h₂ : m.start + 16 ≤ m.ptr := (p.placed m hm).header
  have h₃ := (p.placed l hl).inside
  have h₄ := (p.placed m hm).inside
  unfold Block.Apart at ha
  omega

theorem live_apart_free (hl : l ∈ p.live) (hi : i < NBUCKETS) (ha : a ∈ p.free i) :
    l.toBlock.Apart ⟨a, i⟩ :=
  ((List.pairwise_append.mp p.blocks_apart).2.2 ⟨a, i⟩ (mem_shelved.mpr ⟨i, hi, a, ha, rfl⟩)
    l.toBlock (List.mem_map_of_mem hl)).symm

theorem carved_apart {b d : Block} (hb : b ∈ p.carved) (hd : d ∈ p.carved) (hne : b ≠ d) :
    b.Apart d :=
  p.apart.forall hb hd hne

theorem free_nodup (p : Pool) (hi : i < NBUCKETS) : (p.free i).Nodup := by
  have hf := (List.pairwise_append.mp p.blocks_apart).1
  exact nodup_shelf hi (hf.imp Block.Apart.ne)

theorem free_apart_free (hi : i < NBUCKETS) (hj : j < NBUCKETS) (ha : a ∈ p.free i)
    (hc : c ∈ p.free j) (hne : a ≠ c) : Block.Apart ⟨a, i⟩ ⟨c, j⟩ :=
  carved_apart (free_carved hi ha) (free_carved hj hc) (fun h => hne (congrArg Block.start h))

theorem block_pos {b : Block} (hb : b ∈ p.carved) : 0 < b.start := by
  obtain ⟨r, hr, hlo, _⟩ := (p.sited b hb).mapped
  exact Nat.lt_of_lt_of_le (p.mappable r hr).1 hlo

theorem block_stop {b : Block} (hb : b ∈ p.carved) : b.stop < 18446744073709551616 := by
  obtain ⟨r, hr, _, hhi⟩ := (p.sited b hb).mapped
  exact Nat.lt_of_le_of_lt hhi (p.mappable r hr).2

/-! ## What can happen to a pool -/

/-- Nothing is mapped yet. -/
def empty : Pool where
  free := fun _ => []
  live := []
  carved := []
  regions := []
  whole := by decide
  apart := .nil
  sited := fun _ h => absurd h List.not_mem_nil
  mappable := fun _ h => absurd h List.not_mem_nil
  placed := fun _ h => absurd h List.not_mem_nil

/-- What a new region has to satisfy to be added, cut into `starts`. -/
structure Fresh (p : Pool) (r : Nat × Nat) (i : Nat) (starts : List Nat) : Prop where
  mappable : Mappable r
  apart : ∀ q ∈ p.regions, q.1 + q.2 ≤ r.1 ∨ r.1 + r.2 ≤ q.1
  index : i ≤ topIndex
  aligned : ∀ a ∈ starts, 32 ∣ a
  inside : ∀ a ∈ starts, r.1 ≤ a ∧ Block.stop ⟨a, i⟩ ≤ r.1 + r.2
  cut : starts.Pairwise fun a c => Block.Apart ⟨a, i⟩ ⟨c, i⟩

theorem Fresh.apart_old {r : Nat × Nat} {starts : List Nat} (h : p.Fresh r i starts)
    {b : Block} (hb : b ∈ p.carved) (ha : a ∈ starts) : b.Apart ⟨a, i⟩ := by
  obtain ⟨q, hq, hlo, hhi⟩ := (p.sited b hb).mapped
  have hin := h.inside a ha
  have hq := h.apart q hq
  show b.stop ≤ a ∨ Block.stop ⟨a, i⟩ ≤ b.start
  omega

/-- A region is mapped and its blocks go to the front of a free list. -/
def grow (p : Pool) (r : Nat × Nat) (i : Nat) (starts : List Nat) (h : p.Fresh r i starts) :
    Pool where
  free := Function.update p.free i (starts ++ p.free i)
  live := p.live
  carved := p.carved ++ starts.map fun a => ⟨a, i⟩
  regions := p.regions ++ [r]
  whole := by
    have hi : i < NBUCKETS := Nat.lt_of_le_of_lt h.index (by decide)
    have hf : (freeBlocks (Function.update p.free i (starts ++ p.free i))).Perm
        (starts.map (fun a => ⟨a, i⟩) ++ freeBlocks p.free) := shelved_append hi
    have hw := (p.whole.append_left (starts.map fun a => (⟨a, i⟩ : Block)))
    rw [← List.append_assoc] at hw
    exact (List.perm_append_comm.trans hw).trans (hf.symm.append_right _)
  apart := by
    refine List.pairwise_append.mpr ⟨p.apart, List.pairwise_map.mpr h.cut, ?_⟩
    intro b hb d hd
    obtain ⟨a, ha, rfl⟩ := List.mem_map.mp hd
    exact h.apart_old hb ha
  sited := by
    intro b hb
    rcases List.mem_append.mp hb with hb | hb
    · obtain ⟨q, hq, hin⟩ := (p.sited b hb).mapped
      exact ⟨(p.sited b hb).index, (p.sited b hb).aligned, q, List.mem_append_left _ hq, hin⟩
    · obtain ⟨a, ha, rfl⟩ := List.mem_map.mp hb
      exact ⟨h.index, h.aligned a ha, r, List.mem_append_right _ (List.mem_singleton_self r),
        h.inside a ha⟩
  mappable := by
    intro q hq
    rcases List.mem_append.mp hq with hq | hq
    · exact p.mappable q hq
    · exact List.mem_singleton.mp hq ▸ h.mappable
  placed := p.placed

/-- The first block of a free list comes into use. -/
def take (p : Pool) (l : Live) (rest : List Nat) (hi : l.index < NBUCKETS)
    (hf : p.free l.index = l.start :: rest) (hl : Placed l) : Pool where
  free := Function.update p.free l.index rest
  live := l :: p.live
  carved := p.carved
  regions := p.regions
  whole := by
    have hd : (freeBlocks p.free).Perm
        (l.toBlock :: freeBlocks (Function.update p.free l.index rest)) := shelved_drop hi hf
    refine p.whole.trans ((hd.append_right _).trans ?_)
    exact List.perm_middle.symm
  apart := p.apart
  sited := p.sited
  mappable := p.mappable
  placed := by
    intro m hm
    rcases List.mem_cons.mp hm with rfl | hm
    · exact hl
    · exact p.placed m hm

/-- A block in use goes back to the front of its free list. -/
def put (p : Pool) (l : Live) (live : List Live) (h : p.live.Perm (l :: live)) : Pool where
  free := Function.update p.free l.index (l.start :: p.free l.index)
  live := live
  carved := p.carved
  regions := p.regions
  whole := by
    have hl : l ∈ p.live := h.mem_iff.mpr List.mem_cons_self
    have hi : l.index < NBUCKETS :=
      Nat.lt_of_le_of_lt (p.sited _ (live_carved hl)).index (by decide)
    have hf : (freeBlocks (Function.update p.free l.index (l.start :: p.free l.index))).Perm
        (l.toBlock :: freeBlocks p.free) := shelved_append (l := [l.start]) hi
    have hm : (p.live.map Live.toBlock).Perm (l.toBlock :: live.map Live.toBlock) :=
      h.map Live.toBlock
    refine p.whole.trans ((hm.append_left _).trans ?_)
    exact List.perm_middle.trans (hf.symm.append_right _)
  apart := p.apart
  sited := p.sited
  mappable := p.mappable
  placed := fun m hm => p.placed m (h.mem_iff.mpr (List.mem_cons_of_mem _ hm))

/-- The size a caller asked for changes, the block stays. -/
def resize (p : Pool) (cp : Nat) (nbytes : Nat) : Pool where
  free := p.free
  live := p.live.map fun l => if l.ptr = cp then { l with nbytes := nbytes } else l
  carved := p.carved
  regions := p.regions
  whole := by
    have hb : ((p.live.map fun l => if l.ptr = cp then { l with nbytes := nbytes } else l).map
        Live.toBlock) = p.live.map Live.toBlock := by
      rw [List.map_map]
      refine List.map_congr_left (fun l _ => ?_)
      simp only [Function.comp_apply]
      split <;> rfl
    rw [hb]
    exact p.whole
  apart := p.apart
  sited := p.sited
  mappable := p.mappable
  placed := by
    intro m hm
    obtain ⟨l, hl, rfl⟩ := List.mem_map.mp hm
    have h := p.placed l hl
    split
    · exact ⟨h.header, h.inside, h.aligned⟩
    · exact h

end Pool

end Frankenlibc.Malloc

import Frankenlibc.Malloc.Calls
import Frankenlibc.Platform.LinuxMmap

/-!
# Aligned memory for the rump kernel (`rumpuser_mem.c`, on Linux)

`rumpuser_malloc` takes less than a page from the heap of `malloc.c` and
anything else from `mmap`; `rumpuser_anonmmap` always calls `mmap`. What they
promise about the alignment is what these promise.
-/
namespace Frankenlibc.Rumpuser

open Frankenlibc.Lib Frankenlibc.Linux
open Frankenlibc.Malloc (PageSize answer posixMemalign)

/-- The heap and the address space. -/
structure Memory where
  heap : Malloc.State
  space : Space

abbrev EINVAL : Nat := 22

/-- `while (alignment > 1)`; an `int` is shifted out in 31 turns. -/
def alignShift : Nat → Int → Nat → Nat
  | 0, _, af => af
  | fuel + 1, alignment, af =>
    if alignment > 1 then alignShift fuel (alignment / 2) (af + 1) else af

/-- `rumpuser_malloc`, with the pointer it stores through `memp`. -/
def rumpuserMalloc (page : PageSize) (h : Linux.Host) (offer : Option (Nat × Nat)) (size : Nat)
    (alignment : Int) (w : Memory) : Except Malloc.Fault (Nat × Option Nat × Memory) :=
  if size < page.bytes then do
    let alignment := if alignment < 8 then 8 else alignment
    let (rv, mem, heap) ← posixMemalign page (answer offer) alignment.toNat size w.heap
    return (rv, mem, { w with heap := heap })
  else
    let af := alignShift 31 alignment 0
    match mmap page.bytes h ⟨0, size, Fin.ofNat 64 af, false, -1, 0⟩ w.space with
    | (.error _, m) => .ok (EINVAL, none, { w with space := m })
    | (.ok a, m) => .ok (0, some a, { w with space := m })

/-- `rumpuser_anonmmap`; what fails is returned as the error. -/
def rumpuserAnonmmap (page : PageSize) (h : Linux.Host) (prefaddr size : Nat) (alignbit : Fin 64)
    (m : Space) : Except Linux.Errno Nat × Space :=
  mmap page.bytes h ⟨prefaddr, size, alignbit, false, -1, 0⟩ m

theorem alignShift_pow {fuel n : Nat} (hn : n < fuel) (af : Nat) :
    alignShift fuel (2 ^ n) af = af + n := by
  induction n generalizing fuel af with
  | zero =>
    obtain ⟨fuel, rfl⟩ : ∃ k, fuel = k + 1 := ⟨fuel - 1, by omega⟩
    rfl
  | succ n ih =>
    obtain ⟨fuel, rfl⟩ : ∃ k, fuel = k + 1 := ⟨fuel - 1, by omega⟩
    have hpos : (0 : Int) < 2 ^ n := Int.pow_pos (by decide)
    have hhalf : (2 : Int) ^ (n + 1) / 2 = 2 ^ n := by
      rw [pow_succ]
      exact Int.mul_ediv_cancel _ (by decide)
    have hgt : (2 : Int) ^ (n + 1) > 1 := by
      rw [pow_succ]
      omega
    rw [alignShift, if_pos hgt, hhalf, ih (by omega)]
    omega

/-! ## Less than a page -/

/-- What the heap hands out for a small request is aligned. -/
theorem small_aligned {page : PageSize} {s : Malloc.State} {p : Malloc.Pool}
    (hs : Malloc.Rep page s p) {offer : Option (Nat × Nat)}
    (hm : Malloc.Maps page s.regions (answer offer)) {h : Linux.Host} {size n : Nat} (hn : n < 31)
    (hsize : size < page.bytes) {m : Space} {a : Nat} {w : Memory}
    (hok : rumpuserMalloc page h offer size (2 ^ n) ⟨s, m⟩ = .ok (0, some a, w)) :
    2 ^ n ∣ a := by
  have hpage : page.bytes ≤ 2 ^ 30 := by
    rw [page.pow]
    exact Nat.pow_le_pow_right (by decide) page.high
  have hpow : 2 ^ n ≤ 2 ^ 30 := Nat.pow_le_pow_right (by decide) (by omega)
  have hasked : (if (2 : Int) ^ n < 8 then 8 else (2 : Int) ^ n).toNat = max 8 (2 ^ n) := by
    have hcast : (2 : Int) ^ n = ((2 ^ n : Nat) : Int) := by push_cast; rfl
    rw [hcast]
    split <;> omega
  have hsum : size + max Malloc.MINALIGN (max 8 (2 ^ n)) < 18446744073709551616 := by
    show size + max 16 (max 8 (2 ^ n)) < _
    omega
  obtain ⟨rv, s', p', hcall, _, halloc, _⟩ := Malloc.alignedAlloc_rep hs hm _ size hsum
  simp only [rumpuserMalloc, if_pos hsize, posixMemalign, hasked, hcall, Malloc.ok_bind] at hok
  rcases halloc.result with ⟨rfl, _⟩ | ⟨l, rfl, hlive, _, hal, _⟩
  · cases hok
  · have hl : l ∈ p'.live := by
      rw [hlive]
      exact List.mem_cons_self
    have hplaced := (p'.placed l hl).aligned
    rw [if_neg (Malloc.ptr_ne_null hl)] at hok
    cases hok
    refine Nat.dvd_trans ?_ hplaced
    rw [hal]
    show 2 ^ n ∣ max 16 (max 8 (2 ^ n))
    rcases Nat.le_total n 4 with h4 | h4
    · have hle : 2 ^ n ≤ 2 ^ 4 := Nat.pow_le_pow_right (by decide) h4
      rw [Nat.max_eq_left (by omega : max 8 (2 ^ n) ≤ 16)]
      exact Nat.pow_dvd_pow 2 h4
    · have hle : 2 ^ 4 ≤ 2 ^ n := Nat.pow_le_pow_right (by decide) h4
      rw [Nat.max_eq_right (by omega : 8 ≤ 2 ^ n), Nat.max_eq_right (by omega)]

/-! ## From `mmap` -/

/-- Over every length, alignment and reservation: an aligned mapping is what it
should be, and the hypercalls get the alignment they ask for, exactly if the
reservation happens to be aligned or the length is a multiple of the alignment. -/
theorem aligned_memory_iff {page : PageSize} {h : Linux.Host} {r : Linux.Request} {base : Nat}
    (hr : Reserved page.bytes h r base) (m : Space) :
    (∀ a m', mmap page.bytes h r m = (.ok a, m') →
      (Aligned r base a m m' ↔ 2 ^ r.align.val ∣ base ∨ 2 ^ r.align.val ∣ r.length)) ∧
    (r.fixed = false → ∀ a m',
      rumpuserAnonmmap page h r.addr r.length r.align m = (.ok a, m') →
      (2 ^ r.align.val ∣ a ↔ 2 ^ r.align.val ∣ base ∨ 2 ^ r.align.val ∣ r.length)) ∧
    (r.fixed = false → r.addr = 0 → r.align.val < 31 → ∀ offer heap a w',
      rumpuserMalloc page h offer r.length (2 ^ r.align.val) ⟨heap, m⟩ = .ok (0, some a, w') →
      (2 ^ r.align.val ∣ a ↔ 2 ^ r.align.val ∣ base ∨ 2 ^ r.align.val ∣ r.length)) := by
  obtain ⟨addr, length, align, fixed, fd, offset⟩ := r
  obtain rfl : fd = -1 := hr.fd
  obtain rfl : offset = 0 := hr.offset
  refine ⟨fun a m' hok => mmap_aligned_iff hr hok, ?_, ?_⟩
  · rintro rfl a m' hok
    exact (mmap_mapped hr hok).dvd_iff
  · rintro hfix haddr halign offer heap a w' hok
    dsimp only at hfix haddr halign hok ⊢
    subst hfix haddr
    have hsize : ¬ length < page.bytes := Nat.not_lt.mpr (Nat.le_of_dvd hr.pos hr.pages)
    have hexp : Fin.ofNat 64 (alignShift 31 (2 ^ align.val) 0) = align := by
      rw [alignShift_pow halign, Nat.zero_add]
      exact Fin.ofNat_val_eq_self align
    rw [rumpuserMalloc, if_neg hsize] at hok
    dsimp only at hok
    rw [hexp] at hok
    rcases hcall : mmap page.bytes h ⟨0, length, align, false, -1, 0⟩ m with ⟨_ | b, m'⟩
    · rw [hcall] at hok
      cases hok
    · rw [hcall] at hok
      cases hok
      exact (mmap_mapped hr hcall).dvd_iff

/-- Pages of 4096 bytes. -/
def page4096 : PageSize := ⟨4096, 12, by decide, by decide, by decide⟩

/-- A reservation at an odd page, of twice two pages. -/
theorem aligned_memory_odd :
    (mmap page4096.bytes ⟨some 16781312, true, true⟩ ⟨0, 8192, 13, false, -1, 0⟩
      (fun _ => false)).1 = .ok 16785408 ∧
    Aligned ⟨0, 8192, 13, false, -1, 0⟩ 16781312 16785408 (fun _ => false)
      (mmap page4096.bytes ⟨some 16781312, true, true⟩ ⟨0, 8192, 13, false, -1, 0⟩
        (fun _ => false)).2 := by
  have hok : (mmap page4096.bytes ⟨some 16781312, true, true⟩ ⟨0, 8192, 13, false, -1, 0⟩
      (fun _ => false)).1 = .ok 16785408 := by decide +kernel
  have hr : Reserved page4096.bytes ⟨some 16781312, true, true⟩ ⟨0, 8192, 13, false, -1, 0⟩
      16781312 := ⟨by decide, rfl, rfl, by decide, by decide, by decide, rfl, by decide, by decide⟩
  refine ⟨hok, ((aligned_memory_iff hr _).1 _ _ (Prod.ext hok rfl)).mpr (.inr ?_)⟩
  decide

/-- One page at an alignment of two comes back at the odd page of the
reservation; at an alignment of four, two pages below it. -/
theorem aligned_memory_misplaced :
    (mmap 4096 ⟨some 16781312, true, true⟩ ⟨0, 4096, 13, false, -1, 0⟩ (fun _ => false)).1 =
        .ok 16781312 ∧ ¬ 2 ^ 13 ∣ 16781312 ∧
      (mmap 4096 ⟨some 16789504, true, true⟩ ⟨0, 4096, 14, false, -1, 0⟩ (fun _ => false)).1 =
        .ok (16789504 - 8192) := by
  decide +kernel

end Frankenlibc.Rumpuser

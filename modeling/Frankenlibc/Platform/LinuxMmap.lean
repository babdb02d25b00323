import Frankenlibc.Lib.Words

/-!
# `mmap` on Linux, with an alignment

The host knows nothing of the alignment in the flags, so `mmap` reserves twice
the length and keeps a part of it. If the reservation happens to be aligned it
keeps the lower half. If not, it gives everything back and maps the length anew
at a fixed address inside: one length above the reservation, less the offset of
the reservation from the alignment. That is a multiple of the alignment only if
the length is.

The address space is kept as the set of mapped addresses. The build is the one
without huge pages; protections and the kind of mapping are left out.
-/
namespace Frankenlibc.Linux

open Frankenlibc.Lib

/-- The addresses that are mapped. -/
abbrev Space := Nat → Bool

def Space.map (m : Space) (a len : Nat) : Space :=
  fun x => decide (a ≤ x ∧ x < a + len) || m x

def Space.unmap (m : Space) (a len : Nat) : Space :=
  fun x => !decide (a ≤ x ∧ x < a + len) && m x

inductive Errno
  | EINVAL
  | ENOMEM
  | host
deriving DecidableEq, Repr

/-- What the host answers to the system calls of one `mmap`: where the first
mapping goes if it may choose, whether memory is given back, and whether a
mapping at a fixed address is made. -/
structure Host where
  base : Option Nat
  unmaps : Bool
  fixes : Bool

/-- The arguments of `mmap`. `align` is the exponent in the flags, one that a
`long` can be shifted by, and `fixed` is `MAP_FIXED`. -/
structure Request where
  addr : Nat
  length : Nat
  align : Fin 64
  fixed : Bool
  fd : Int
  offset : Int

variable (pagesize : Nat)

/-- A new mapping, if the host has a place for it. Whole pages are mapped. -/
def mapAt (place : Option Nat) (length : Nat) (m : Space) : Option Nat × Space :=
  match place with
  | none => (none, m)
  | some a => (some a, m.map a (roundUp length pagesize))

/-- The address a mapping at a fixed address gets. -/
def fixedAt (ok : Bool) (addr : Nat) : Option Nat :=
  if ok ∧ pagesize ∣ addr then some addr else none

/-- Where the first mapping goes. -/
def reserved (h : Host) (r : Request) : Option Nat :=
  if r.fixed then fixedAt pagesize h.base.isSome r.addr else h.base

/-- `munmap`. -/
def munmap (ok : Bool) (addr length : Nat) (m : Space) : Bool × Space :=
  if ok ∧ pagesize ∣ addr ∧ 0 < length then (true, m.unmap addr (roundUp length pagesize))
  else (false, m)

def mmap (h : Host) (r : Request) (m : Space) : Except Errno Nat × Space :=
  if r.align.val = 0 ∨ 2 ^ r.align.val ≤ pagesize then
    match mapAt pagesize (reserved pagesize h r) r.length m with
    | (none, m) => (.error .host, m)
    | (some a, m) => (.ok a, m)
  else if r.fd ≠ -1 ∨ r.offset ≠ 0 then (.error .EINVAL, m)
  else
    match mapAt pagesize (reserved pagesize h r) (u64 (r.length * 2)) m with
    | (none, m) => (.error .ENOMEM, m)
    | (some mem, m) =>
      let off := mem &&& (2 ^ r.align.val - 1)
      if off = 0 then
        match munmap pagesize h.unmaps (u64 (mem + r.length)) r.length m with
        | (false, m) => (.error .ENOMEM, m)
        | (true, m) => (.ok mem, m)
      else
        match munmap pagesize h.unmaps mem (u64 (r.length * 2)) m with
        | (false, m) => (.error .ENOMEM, m)
        | (true, m) =>
          match mapAt pagesize
            (fixedAt pagesize h.fixes (sub64 (u64 (mem + r.length)) off)) r.length m with
          | (none, m) => (.error .host, m)
          | (some a, m) => (.ok a, m)

variable {pagesize} {h : Host} {r : Request} {m m' : Space} {a base : Nat}

/-! ## What an aligned mapping should be -/

/-- The mapping is aligned and inside of the reservation, of which nothing else
is left, and nothing outside of it has changed. -/
structure Aligned (r : Request) (base a : Nat) (m m' : Space) : Prop where
  aligned : 2 ^ r.align.val ∣ a
  inside : base ≤ a ∧ a + r.length ≤ base + 2 * r.length
  kept : ∀ x, base ≤ x → x < base + 2 * r.length → (m' x = true ↔ a ≤ x ∧ x < a + r.length)
  foreign : ∀ x, ¬ (base ≤ x ∧ x < base + 2 * r.length) → m' x = m x

/-- A request for an anonymous mapping with more than page alignment, of whole
pages, and the page-aligned reservation it gets. -/
structure Reserved (pagesize : Nat) (h : Host) (r : Request) (base : Nat) : Prop where
  big : pagesize < 2 ^ r.align.val
  fd : r.fd = -1
  offset : r.offset = 0
  pages : pagesize ∣ r.length
  pos : 0 < r.length
  double : 2 * r.length < 18446744073709551616
  mem : reserved pagesize h r = some base
  page : pagesize ∣ base
  fits : base + 2 * r.length ≤ 18446744073709551616

/-- The ways in which such a request succeeds. -/
inductive Mapped (r : Request) (base : Nat) (m : Space) : Nat → Space → Prop
  | lucky (hoff : base % 2 ^ r.align.val = 0) :
      Mapped r base m base
        ((m.map base (2 * r.length)).unmap (base + r.length) r.length)
  | unlucky (hoff : base % 2 ^ r.align.val ≠ 0) :
      Mapped r base m (base + r.length - base % 2 ^ r.align.val)
        (((m.map base (2 * r.length)).unmap base (2 * r.length)).map
          (base + r.length - base % 2 ^ r.align.val) r.length)

theorem mmap_mapped (hr : Reserved pagesize h r base)
    (hok : mmap pagesize h r m = (.ok a, m')) : Mapped r base m a m' := by
  have hpg : 0 < pagesize := Nat.pos_of_dvd_of_pos hr.pages hr.pos
  have hdouble : u64 (r.length * 2) = 2 * r.length := by
    rw [Nat.mul_comm, u64_of_lt hr.double]
  have hround : roundUp (2 * r.length) pagesize = 2 * r.length :=
    roundUp_of_dvd hpg (Dvd.dvd.mul_left hr.pages 2)
  have hround' : roundUp r.length pagesize = r.length := roundUp_of_dvd hpg hr.pages
  have hbig : ¬ (r.align.val = 0 ∨ 2 ^ r.align.val ≤ pagesize) := by
    rintro (h0 | hle)
    · have := hr.big
      rw [h0] at this
      omega
    · have := hr.big
      omega
  have hpos := hr.pos
  have hfits := hr.fits
  have hupper : u64 (base + r.length) = base + r.length := u64_of_lt (by omega)
  have hle : base % 2 ^ r.align.val ≤ base := Nat.mod_le _ _
  have hat : sub64 (base + r.length) (base % 2 ^ r.align.val) =
      base + r.length - base % 2 ^ r.align.val := sub64_of_le (by omega) (by omega)
  have hargs : ¬ (r.fd ≠ -1 ∨ r.offset ≠ 0) := by
    simp [hr.fd, hr.offset]
  simp only [mmap, if_neg hbig, if_neg hargs, hr.mem, mapAt, hdouble, hround, hupper,
    Nat.and_two_pow_sub_one_eq_mod, munmap, hround', hat, fixedAt] at hok
  by_cases hoff : base % 2 ^ r.align.val = 0
  · rw [if_pos hoff] at hok
    split_ifs at hok with hun
    · cases hok
      exact .lucky hoff
    · cases hok
  · rw [if_neg hoff] at hok
    split_ifs at hok with hun hfix
    · cases hok
      exact .unlucky hoff
    all_goals cases hok

/-! ## When it is one -/

theorem map_apply (m : Space) (a len x : Nat) :
    m.map a len x = true ↔ (a ≤ x ∧ x < a + len) ∨ m x = true := by
  simp [Space.map]

theorem unmap_apply (m : Space) (a len x : Nat) :
    m.unmap a len x = true ↔ ¬ (a ≤ x ∧ x < a + len) ∧ m x = true := by
  simp only [Space.unmap, Bool.and_eq_true, Bool.not_eq_true', decide_eq_false_iff_not]

/-- Less its offset, the reservation is aligned; so what is returned is aligned
just as the length is. -/
theorem Mapped.dvd_iff (hm : Mapped r base m a m') :
    2 ^ r.align.val ∣ a ↔ 2 ^ r.align.val ∣ base ∨ 2 ^ r.align.val ∣ r.length := by
  cases hm with
  | lucky hoff =>
    have hb := Nat.dvd_of_mod_eq_zero hoff
    exact iff_of_true hb (.inl hb)
  | unlucky hoff =>
    have hb : ¬ 2 ^ r.align.val ∣ base := fun hd => hoff (Nat.mod_eq_zero_of_dvd hd)
    have hle : base % 2 ^ r.align.val ≤ base := Nat.mod_le _ _
    have hsub : 2 ^ r.align.val ∣ base - base % 2 ^ r.align.val := Nat.dvd_sub_mod base
    have hsum : base + r.length - base % 2 ^ r.align.val =
        (base - base % 2 ^ r.align.val) + r.length := by omega
    rw [or_iff_right hb, hsum]
    exact (Nat.dvd_add_iff_right hsub).symm

/-- A successful request keeps what it should, if its result is aligned. -/
theorem Mapped.aligned (hpos : 0 < r.length) (hm : Mapped r base m a m')
    (ha : 2 ^ r.align.val ∣ a) : Aligned r base a m m' := by
  have hcond := hm.dvd_iff.mp ha
  cases hm with
  | lucky hoff =>
    refine ⟨ha, ⟨le_rfl, by omega⟩, fun x hlo hhi => ?_, fun x hx => ?_⟩
    · rw [unmap_apply, map_apply]
      omega
    · rw [Bool.eq_iff_iff, unmap_apply, map_apply]
      constructor
      · rintro ⟨_, hin | hin⟩
        · exact absurd hin hx
        · exact hin
      · intro hin
        exact ⟨by omega, .inr hin⟩
  | unlucky hoff =>
    have hb : ¬ 2 ^ r.align.val ∣ base := fun hd => hoff (Nat.mod_eq_zero_of_dvd hd)
    -- the offset is smaller than the alignment, and that is not more than the length
    have hlen : 2 ^ r.align.val ≤ r.length := Nat.le_of_dvd hpos (hcond.resolve_left hb)
    have hlt : base % 2 ^ r.align.val < 2 ^ r.align.val := Nat.mod_lt _ (Nat.two_pow_pos _)
    refine ⟨ha, by omega, fun x hlo hhi => ?_, fun x hx => ?_⟩
    · rw [map_apply, unmap_apply]
      omega
    · rw [Bool.eq_iff_iff, map_apply, unmap_apply, map_apply]
      constructor
      · rintro (hin | ⟨_, hin | hin⟩)
        · omega
        · exact absurd hin hx
        · exact hin
      · intro hin
        exact .inr ⟨hx, .inr hin⟩

theorem mmap_aligned_iff (hr : Reserved pagesize h r base)
    (hok : mmap pagesize h r m = (.ok a, m')) :
    Aligned r base a m m' ↔ 2 ^ r.align.val ∣ base ∨ 2 ^ r.align.val ∣ r.length := by
  have hm := mmap_mapped hr hok
  constructor
  · intro hal
    exact hm.dvd_iff.mp hal.aligned
  · intro hcond
    exact hm.aligned hr.pos (hm.dvd_iff.mpr hcond)

end Frankenlibc.Linux

import Mathlib.Algebra.Order.Ring.Nat
import Mathlib.Data.Int.Init
import Mathlib.Data.Nat.Bitwise
import Mathlib.Tactic.Common

/-!
# Fixed-width integers as wrapped naturals and integers

The code's 64-bit values are kept as `Nat` or `Int` and reduced explicitly
where the width matters. Signed arithmetic is two's complement. The second
half is about the two idioms C code has for powers of two: the mask
`x & ~(a - 1)` and the test `a & (a - 1)`.
-/
namespace Frankenlibc.Lib

/-- The `int64_t` value of a mathematical integer. -/
def i64 (x : Int) : Int := x.bmod 18446744073709551616

/-- The `int` value of a mathematical integer. -/
def i32 (x : Int) : Int := x.bmod 4294967296

/-- The `unsigned int` value of a natural number. -/
def u32 (x : Nat) : Nat := x % 4294967296

/-- The `size_t` value of a natural number. -/
def u64 (x : Nat) : Nat := x % 18446744073709551616

/-- Subtraction in `size_t`. -/
def sub64 (x y : Nat) : Nat := u64 (x + (18446744073709551616 - y))

/-- Bitwise complement in `size_t`. -/
def not64 (x : Nat) : Nat := 18446744073709551615 - x

/-- The conversion of a signed value to `size_t`. -/
def toSize (x : Int) : Nat := (x % 18446744073709551616).toNat

theorem i64_of_range {x : Int} (h : -9223372036854775808 ≤ x) (h' : x < 9223372036854775808) :
    i64 x = x := by
  unfold i64
  rw [Int.bmod_def]
  split <;> omega

theorem i64_range (x : Int) : -9223372036854775808 ≤ i64 x ∧ i64 x < 9223372036854775808 := by
  have hlo := Int.le_bmod (x := x) (m := 18446744073709551616) (by decide)
  have hhi := Int.bmod_lt (x := x) (m := 18446744073709551616) (by decide)
  unfold i64
  omega

theorem i64_add_i64 (x y : Int) : i64 (x + i64 y) = i64 (x + y) := by
  unfold i64
  exact Int.add_bmod_bmod

theorem i32_of_range {x : Int} (h : -2147483648 ≤ x) (h' : x < 2147483648) : i32 x = x := by
  unfold i32
  rw [Int.bmod_def]
  split <;> omega

theorem i32_add_left (x y : Int) : i32 (i32 x + y) = i32 (x + y) := by
  unfold i32
  exact Int.bmod_add_bmod

theorem u64_of_lt {x : Nat} (h : x < 18446744073709551616) : u64 x = x :=
  Nat.mod_eq_of_lt h

theorem sub64_of_le {x y : Nat} (h : y ≤ x) (hx : x < 18446744073709551616) :
    sub64 x y = x - y := by
  unfold sub64 u64
  omega

/-! ## Powers of two -/

/-- Masking a word with the complement of `2 ^ j - 1` rounds down to a multiple. -/
theorem and_not_mask {w x j : Nat} (hx : x < 2 ^ w) (hj : j ≤ w) :
    x &&& (2 ^ w - 1 - (2 ^ j - 1)) = x / 2 ^ j * 2 ^ j := by
  have hpos : 0 < 2 ^ j := Nat.two_pow_pos j
  have hle : 2 ^ j ≤ 2 ^ w := Nat.pow_le_pow_right (by decide) hj
  have hm : 2 ^ w - 1 - (2 ^ j - 1) = 2 ^ w - ((2 ^ j - 1) + 1) := by omega
  apply Nat.eq_of_testBit_eq
  intro i
  rw [hm, Nat.testBit_and, Nat.testBit_two_pow_sub_succ (by omega),
    Nat.testBit_two_pow_sub_one, Nat.testBit_mul_two_pow, Nat.testBit_div_two_pow]
  by_cases hij : j ≤ i
  · rw [Nat.sub_add_cancel hij]
    by_cases hi : i < w
    · simp [hij, hi]
    · have hwi : 2 ^ w ≤ 2 ^ i := Nat.pow_le_pow_right (by decide) (by omega)
      have hbig : x < 2 ^ i := by omega
      simp [Nat.testBit_lt_two_pow hbig]
  · have hlt : i < j := by omega
    simp [hij, hlt]

theorem and_not64_mask {x j : Nat} (hx : x < 18446744073709551616) (hj : j ≤ 64) :
    x &&& not64 (2 ^ j - 1) = x / 2 ^ j * 2 ^ j :=
  and_not_mask hx hj

/-- A nonzero value that passes the test `a & (a - 1)` is a power of two. -/
theorem pow_two_of_and_pred {a : Nat} (ha : 0 < a) (h : a &&& (a - 1) = 0) :
    ∃ j, a = 2 ^ j := by
  have hne : a ≠ 0 := by omega
  have hlo : 2 ^ a.log2 ≤ a := Nat.log2_self_le hne
  have hhi : a < 2 ^ (a.log2 + 1) := Nat.lt_log2_self
  by_contra hno
  have hgt : 2 ^ a.log2 < a := lt_of_le_of_ne hlo (fun he => hno ⟨_, he.symm⟩)
  -- the top bit is then shared with the predecessor
  have h₁ : a.testBit a.log2 = true :=
    Nat.testBit_of_two_pow_le_and_two_pow_add_one_gt hlo hhi
  have h₂ : (a - 1).testBit a.log2 = true :=
    Nat.testBit_of_two_pow_le_and_two_pow_add_one_gt (by omega) (by omega)
  have h₃ : (a &&& (a - 1)).testBit a.log2 = true := by
    rw [Nat.testBit_and, h₁, h₂]
    rfl
  rw [h, Nat.zero_testBit] at h₃
  exact absurd h₃ (by decide)

/-- The least multiple of `d` that is not below `x`. -/
def roundUp (x d : Nat) : Nat := (x + d - 1) / d * d

theorem dvd_roundUp (x d : Nat) : d ∣ roundUp x d :=
  Nat.dvd_mul_left d _

theorem le_roundUp {x d : Nat} (hd : 0 < d) : x ≤ roundUp x d := by
  have h := Nat.div_add_mod (x + d - 1) d
  have hm := Nat.mod_lt (x + d - 1) hd
  rw [Nat.mul_comm] at h
  unfold roundUp
  omega

theorem roundUp_le {x d m : Nat} (hd : 0 < d) (hx : x ≤ m * d) : roundUp x d ≤ m * d := by
  have hlt : x + d - 1 < (m + 1) * d := by
    rw [Nat.add_mul]
    omega
  exact Nat.mul_le_mul_right d (Nat.le_of_lt_succ ((Nat.div_lt_iff_lt_mul hd).mpr hlt))

/-- Rounding down and adding `d` rounds up what is not a multiple. -/
theorem roundUp_of_not_dvd {x d : Nat} (hd : 0 < d) (hx : ¬ d ∣ x) :
    roundUp x d = x / d * d + d := by
  have hpos : 0 < x % d := Nat.pos_of_ne_zero fun h => hx (Nat.dvd_of_mod_eq_zero h)
  have hmod := Nat.mod_lt x hd
  have hdecomp : x + d - 1 = (x % d - 1) + (x / d + 1) * d := by
    have := Nat.div_add_mod x d
    rw [Nat.add_mul, Nat.mul_comm (x / d)]
    omega
  rw [roundUp, hdecomp, Nat.add_mul_div_right _ _ hd, Nat.div_eq_of_lt (by omega), Nat.zero_add,
    Nat.add_mul, Nat.one_mul]

theorem roundUp_of_dvd {x d : Nat} (hd : 0 < d) (hx : d ∣ x) : roundUp x d = x := by
  obtain ⟨m, rfl⟩ := hx
  have hle := roundUp_le hd (Nat.le_of_eq (Nat.mul_comm d m))
  rw [Nat.mul_comm m d] at hle
  exact Nat.le_antisymm hle (le_roundUp hd)

/-- The round-up idiom `(x + a - 1) & ~(a - 1)`. -/
theorem round_up_idiom {x j : Nat} (hx : x + 2 ^ j - 1 < 18446744073709551616) (hj : j ≤ 64) :
    u64 (x + 2 ^ j - 1) &&& not64 (2 ^ j - 1) = roundUp x (2 ^ j) := by
  rw [u64_of_lt hx, and_not64_mask hx hj, roundUp]

end Frankenlibc.Lib

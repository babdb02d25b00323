import Frankenlibc.Malloc.Code
import Mathlib.Algebra.Order.Ring.Int
import Mathlib.Data.Nat.Log

/-!
# Sizes, buckets and addresses

The arithmetic of `aligned_alloc`: which bucket a request is given, how many
bytes of the block lie before the pointer that is returned, and what the `int`
shifts of the code are worth.
-/
namespace Frankenlibc.Malloc

open Frankenlibc.Lib

/-! ## Shifts -/

theorem intShl_small {n : Nat} (h : n ≤ 30) : toSize (intShl n) = 2 ^ n := by
  have hle : 2 ^ n ≤ 2 ^ 30 := Nat.pow_le_pow_right (by decide) h
  have hc : ((2 ^ n : Nat) : Int) = 2 ^ n := by push_cast; rfl
  unfold toSize intShl i32
  rw [← hc]
  generalize 2 ^ n = x at hle ⊢
  rw [Int.bmod_eq_of_le (by omega) (by omega)]
  omega

/-- Bit 31 is the sign bit of an `int`, and the conversion extends it. -/
theorem intShl_top : toSize (intShl 31) = 18446744071562067968 := by
  decide

/-! ## The two loops over buckets -/

theorem two_pow_double (b : Nat) : 2 ^ (b + 5) * 2 = 2 ^ (b + 1 + 5) :=
  (Nat.pow_succ 2 (b + 5)).symm

theorem findPagebucket_eq {k : Nat} (hk : k ≤ 31) :
    ∀ {fuel b : Nat}, b + 5 ≤ k → k < fuel + b + 5 →
      findPagebucket (2 ^ k) fuel (2 ^ (b + 5)) b = .ok (k - 5) := by
  intro fuel
  induction fuel with
  | zero =>
    intro b hb hf
    omega
  | succ fuel ih =>
    intro b hb hf
    rcases Nat.eq_or_lt_of_le hb with heq | hlt
    · rw [findPagebucket, heq, if_neg (Nat.lt_irrefl _), ← heq, Nat.add_sub_cancel]
    · have hpow : 2 ^ (b + 5) < 2 ^ k := Nat.pow_lt_pow_right (by decide) hlt
      have hdbl : u32 (2 ^ (b + 5) * 2) = 2 ^ (b + 1 + 5) := by
        have hle : 2 ^ (b + 1 + 5) ≤ 2 ^ 31 := Nat.pow_le_pow_right (by decide) (by omega)
        rw [two_pow_double]
        exact Nat.mod_eq_of_lt (by omega)
      rw [findPagebucket, if_pos hpow, hdbl]
      exact ih (by omega) (by omega)

/-- What the search for a bucket can come to: the request is over `2 ^ 31`, or
the bucket is the first one from `b` on that is large enough. -/
inductive Fit (n b : Nat) : Option Nat → Prop
  | none : 2 ^ 31 < n → Fit n b none
  | some {c : Nat} : b ≤ c → c ≤ 26 → n ≤ 2 ^ (c + 5) → Fit n b (some c)

/-- The first bucket whose blocks have `n` bytes. -/
def bucketOf (n : Nat) : Nat := Nat.clog 2 n - 5

theorem le_bucketOf_iff {n b : Nat} : bucketOf n ≤ b ↔ n ≤ 2 ^ (b + 5) := by
  rw [bucketOf, Nat.sub_le_iff_le_add]
  exact Nat.clog_le_iff_le_pow (by decide)

theorem bucketOf_le {n : Nat} (h : n ≤ 2 ^ 31) : bucketOf n ≤ 26 := le_bucketOf_iff.mpr h

theorem findBucket_eq (n : Nat) :
    ∀ {m b : Nat}, b ≤ 26 → 27 ≤ m + b →
      findBucket n m (2 ^ (b + 5)) b =
        .ok (if n ≤ 2 ^ 31 then some (max b (bucketOf n)) else none) := by
  intro fuel
  induction fuel with
  | zero =>
    intro b hb hf
    omega
  | succ fuel ih =>
    intro b hb hf
    have hfirst : bucketOf n ≤ b ↔ n ≤ 2 ^ (b + 5) := le_bucketOf_iff
    by_cases hn : n > 2 ^ (b + 5)
    · rcases Nat.eq_or_lt_of_le hb with rfl | hlt
      · -- doubling the largest block size wraps to zero
        have hbig : ¬ n ≤ 2 ^ 31 := Nat.not_le.mpr hn
        rw [findBucket, if_pos hn, if_pos (by decide), if_neg hbig]
      · have hle : 2 ^ (b + 1 + 5) ≤ 2 ^ 31 := Nat.pow_le_pow_right (by decide) (by omega)
        have hpos : 0 < 2 ^ (b + 1 + 5) := Nat.two_pow_pos _
        have hd : u32 (2 ^ (b + 5) * 2) = 2 ^ (b + 1 + 5) := by
          rw [two_pow_double]
          exact Nat.mod_eq_of_lt (by omega)
        have hmax : max (b + 1) (bucketOf n) = max b (bucketOf n) := by omega
        rw [findBucket, if_pos hn, hd, if_neg (by omega), ih (by omega) (by omega), hmax]
    · have hle : 2 ^ (b + 5) ≤ 2 ^ 31 := Nat.pow_le_pow_right (by decide) (by omega)
      have hmax : max b (bucketOf n) = b := by omega
      rw [findBucket, if_neg hn, if_pos (by omega), hmax]

/-- The first bucket is large enough. -/
theorem fit_first (n : Nat) : Fit n 0 (if n ≤ 2 ^ 31 then some (bucketOf n) else none) := by
  split
  next h => exact .some (Nat.zero_le _) (bucketOf_le h) (le_bucketOf_iff.mp le_rfl)
  next h => exact .none (by omega)

/-! ## Requests and addresses -/

theorem roundUp_self {x d : Nat} (hx : 0 < x) (hle : x ≤ d) : roundUp x d = d := by
  have hd : 0 < d := by omega
  have h₁ : roundUp x d ≤ 1 * d := roundUp_le hd (by omega)
  have h₂ : x ≤ roundUp x d := le_roundUp hd
  have h₃ : d ≤ roundUp x d := Nat.le_of_dvd (by omega) (dvd_roundUp x d)
  omega

/-- The header is charged as much as the alignment, in 64 bits. -/
theorem allocbytes_mod {j : Nat} (hj : 4 ≤ j) (hj' : j ≤ 63) (n : Nat) :
    allocbytes (2 ^ j) n = u64 (n + 2 ^ j) := by
  have h16 : 2 ^ 4 ≤ 2 ^ j := Nat.pow_le_pow_right (by decide) hj
  have h63 : 2 ^ j ≤ 2 ^ 63 := Nat.pow_le_pow_right (by decide) hj'
  have hadd : 16 + (2 ^ j - 1) = 16 + 2 ^ j - 1 := by omega
  show u64 (n + (u64 (16 + sub64 (2 ^ j) 1) &&& not64 (sub64 (2 ^ j) 1))) = u64 (n + 2 ^ j)
  rw [sub64_of_le (by omega) (by omega), hadd, round_up_idiom (by omega) (by omega),
    roundUp_self (by decide) (by omega)]

/-- In a block at `op` the memory returned starts at most `2 ^ j` bytes in,
because `op` itself is a multiple of 16. -/
theorem place_eq {j op stop : Nat} (hj : 4 ≤ j) (hop : 32 ∣ op) (hst : 32 ∣ stop)
    (hle : op + 2 ^ j ≤ stop) (hlt : stop < 18446744073709551616) :
    op + 16 ≤ place (2 ^ j) op ∧ place (2 ^ j) op ≤ op + 2 ^ j ∧ 2 ^ j ∣ place (2 ^ j) op := by
  have h16 : 2 ^ 4 ≤ 2 ^ j := Nat.pow_le_pow_right (by decide) hj
  have hd16 : 2 ^ 4 ∣ 2 ^ j := Nat.pow_dvd_pow 2 hj
  have hj64 : j ≤ 64 := by
    by_contra hc
    have h64 : 2 ^ 64 ≤ 2 ^ j := Nat.pow_le_pow_right (by decide) (by omega)
    omega
  have heq : place (2 ^ j) op = roundUp (op + 16) (2 ^ j) := by
    show u64 (u64 (op + 16) + 2 ^ j - 1) &&& not64 (sub64 (2 ^ j) 1) = _
    rw [u64_of_lt (x := op + 16) (by omega), sub64_of_le (by omega) (by omega)]
    exact round_up_idiom (by omega) hj64
  have hmul : op + 16 ≤ (op / 2 ^ j + 1) * 2 ^ j := by
    have hdm := Nat.div_add_mod op (2 ^ j)
    have hlt' := Nat.mod_lt op (Nat.two_pow_pos j)
    have hr : 16 ∣ op % 2 ^ j := (Nat.dvd_mod_iff hd16).mpr (by omega)
    rw [Nat.add_mul, Nat.mul_comm (op / 2 ^ j)]
    omega
  have hup : (op / 2 ^ j + 1) * 2 ^ j ≤ op + 2 ^ j := by
    have hdm := Nat.div_mul_le_self op (2 ^ j)
    rw [Nat.add_mul]
    omega
  rw [heq]
  exact ⟨le_roundUp (Nat.two_pow_pos j), (roundUp_le (Nat.two_pow_pos j) hmul).trans hup,
    dvd_roundUp _ _⟩

end Frankenlibc.Malloc

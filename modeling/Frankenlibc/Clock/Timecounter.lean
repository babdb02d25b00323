import Frankenlibc.Lib.Words
import Mathlib.Tactic.Linarith
import Mathlib.Tactic.Ring

/-!
# The timecounter of `libtc/franken_tc.c`

The rump kernel derives its time from a counter of 32 bits and a frequency.
`franken_tc_modcmd` registers the frequency `10^9 / res`, and `franken_tc_get`
computes the counter from a reading of the monotonic clock: nanoseconds are
divided by the resolution, and seconds are multiplied by it. A second has
`10^9 / res` ticks, not `res`, and the two are never the same number.
-/
namespace Frankenlibc.Timecounter

open Frankenlibc.Lib

/-- `struct timespec`. -/
structure Timespec where
  sec : Int
  nsec : Int
deriving DecidableEq, Repr

/-- Nanoseconds of a reading. -/
def Timespec.total (t : Timespec) : Int := t.sec * 1000000000 + t.nsec

/-- The nanoseconds stay below a second. -/
def Timespec.Normal (t : Timespec) : Prop := 0 ≤ t.nsec ∧ t.nsec < 1000000000

instance (t : Timespec) : Decidable t.Normal := inferInstanceAs (Decidable (_ ∧ _))

/-- `res`, and what of `struct timecounter` changes. -/
structure Tc where
  res : Int
  frequency : Nat
  attached : Bool
deriving DecidableEq, Repr

/-- The static data before the module is loaded. -/
def unloaded : Tc := ⟨0, 0, false⟩

/-- `franken_tc_get`, for a reading of the monotonic clock. -/
def frankenTcGet (tc : Tc) (ts : Timespec) : Nat :=
  u32 (toSize (i64 (ts.sec * tc.res + ts.nsec.tdiv tc.res)))

inductive Cmd
  | init
  | fini
  | other
deriving DecidableEq, Repr

/-- `ENOTTY`. -/
abbrev ENOTTY : Nat := 25

/-- `franken_tc_modcmd`; `ret` and `ts` are what `clock_getres` returns. -/
def frankenTcModcmd (cmd : Cmd) (ret : Int) (ts : Timespec) (tc : Tc) : Except Nat Tc :=
  match cmd with
  | .init =>
    if ret ≠ 0 ∨ ts.sec ≠ 0 ∨ ts.nsec = 0 then .error ENOTTY
    else .ok ⟨ts.nsec, 1000000000 / toSize ts.nsec, true⟩
  | .fini => .ok { tc with attached := false }
  | .other => .error ENOTTY

/-! ## Counting ticks -/

/-- Ticks of a clock of resolution `res` up to a reading. -/
def ticks (res : Int) (t : Timespec) : Int := t.total / res

/-- Between two readings the counter advances by the ticks of the registered
frequency, modulo its 32 bits. -/
def Consistent (tc : Tc) (t₁ t₂ : Timespec) : Prop :=
  (tc.frequency : Int) * tc.res = 1000000000 ∧
    ((frankenTcGet tc t₂ : Int) - frankenTcGet tc t₁) % 4294967296 =
      (ticks tc.res t₂ - ticks tc.res t₁) % 4294967296

instance (tc : Tc) (t₁ t₂ : Timespec) : Decidable (Consistent tc t₁ t₂) :=
  inferInstanceAs (Decidable (_ ∧ _))

/-- The counter before its truncation to 64 and 32 bits. -/
theorem frankenTcGet_mod (tc : Tc) (t : Timespec) :
    (frankenTcGet tc t : Int) = (t.sec * tc.res + t.nsec.tdiv tc.res) % 4294967296 := by
  unfold frankenTcGet u32 toSize i64
  generalize t.sec * tc.res + t.nsec.tdiv tc.res = x
  have hb : x.bmod 18446744073709551616 % 18446744073709551616 = x % 18446744073709551616 :=
    Int.bmod_emod
  push_cast
  rw [hb, Int.toNat_of_nonneg (Int.emod_nonneg x (by decide))]
  exact Int.emod_emod_of_dvd x (by decide)

/-- A second has as many ticks as the frequency says. -/
theorem ticks_eq {res f : Int} (hres : 0 < res) (hf : f * res = 1000000000) (t : Timespec) :
    ticks res t = t.sec * f + t.nsec / res := by
  unfold ticks Timespec.total
  rw [← hf, ← Int.mul_assoc, Int.add_comm, Int.add_mul_ediv_right _ _ (by omega)]
  omega

theorem modcmd_init {ret : Int} {ts : Timespec} {tc tc' : Tc}
    (h : frankenTcModcmd .init ret ts tc = .ok tc') :
    tc'.res = ts.nsec ∧ tc'.frequency = 1000000000 / toSize ts.nsec := by
  unfold frankenTcModcmd at h
  simp only at h
  split at h
  · cases h
  · cases h
    exact ⟨rfl, rfl⟩

/-- The registered frequency is exact for a resolution that divides a second. -/
theorem frequency_mul {ret : Int} {ts : Timespec} {tc tc' : Tc}
    (h : frankenTcModcmd .init ret ts tc = .ok tc') (hpos : 0 < ts.nsec)
    (hdvd : ts.nsec ∣ 1000000000) : (tc'.frequency : Int) * tc'.res = 1000000000 := by
  obtain ⟨hres, hf⟩ := modcmd_init h
  have hle : ts.nsec ≤ 1000000000 := Int.le_of_dvd (by decide) hdvd
  have hsize : (toSize ts.nsec : Int) = ts.nsec := by
    unfold toSize
    omega
  rw [hres, hf]
  push_cast
  rw [hsize]
  exact Int.ediv_mul_cancel hdvd

/-- The error of a reading: the seconds are scaled by `res` where the ticks are
scaled by the frequency. -/
theorem get_error {ret : Int} {ts : Timespec} {tc tc' : Tc}
    (hinit : frankenTcModcmd .init ret ts tc = .ok tc') (hpos : 0 < ts.nsec)
    (hdvd : ts.nsec ∣ 1000000000) {t : Timespec} (ht : t.Normal) :
    (frankenTcGet tc' t : Int) =
      (ticks tc'.res t + t.sec * (ts.nsec - 1000000000 / ts.nsec)) % 4294967296 := by
  obtain ⟨hres, _⟩ := modcmd_init hinit
  rw [frankenTcGet_mod, hres, ticks_eq hpos (Int.ediv_mul_cancel hdvd),
    Int.tdiv_eq_ediv_of_nonneg ht.1]
  congr 1
  ring

/-- So the difference of two readings is off by the seconds between them times
the difference of the two scales. -/
theorem get_sub {ret : Int} {ts : Timespec} {tc tc' : Tc}
    (hinit : frankenTcModcmd .init ret ts tc = .ok tc') (hpos : 0 < ts.nsec)
    (hdvd : ts.nsec ∣ 1000000000) {t₁ t₂ : Timespec} (h₁ : t₁.Normal) (h₂ : t₂.Normal) :
    ((frankenTcGet tc' t₂ : Int) - frankenTcGet tc' t₁) % 4294967296 =
      (ticks tc'.res t₂ - ticks tc'.res t₁ +
        (t₂.sec - t₁.sec) * (ts.nsec - 1000000000 / ts.nsec)) % 4294967296 := by
  rw [get_error hinit hpos hdvd h₁, get_error hinit hpos hdvd h₂, ← Int.sub_emod]
  congr 1
  ring

/-- For every resolution the module accepts and any two readings of the clock:
the counter is consistent with its frequency exactly if what the seconds are
miscounted by is a multiple of `2^32`. -/
theorem timecounter_iff {ret : Int} {ts : Timespec} {tc tc' : Tc}
    (hinit : frankenTcModcmd .init ret ts tc = .ok tc') (hpos : 0 < ts.nsec)
    (hdvd : ts.nsec ∣ 1000000000) {t₁ t₂ : Timespec} (h₁ : t₁.Normal) (h₂ : t₂.Normal) :
    Consistent tc' t₁ t₂ ↔
      (4294967296 : Int) ∣ (t₂.sec - t₁.sec) * (ts.nsec - 1000000000 / ts.nsec) := by
  have hf := frequency_mul hinit hpos hdvd
  rw [Consistent, and_iff_right hf, get_sub hinit hpos hdvd h₁ h₂]
  omega

/-- Two readings within one second. -/
theorem timecounter_within :
    Consistent ⟨1, 1000000000, true⟩ ⟨5, 3⟩ ⟨5, 700⟩ ↔
      (4294967296 : Int) ∣ ((5 : Int) - 5) * (1 - 1000000000 / 1) :=
  timecounter_iff
    (show frankenTcModcmd .init 0 ⟨0, 1⟩ unloaded = .ok ⟨1, 1000000000, true⟩ by decide)
    (by decide) (by decide) (by decide) (by decide)

/-- At a resolution of one nanosecond the counter falls back by almost a second
whenever a second begins. -/
theorem timecounter_second :
    frankenTcModcmd .init 0 ⟨0, 1⟩ unloaded = .ok ⟨1, 1000000000, true⟩ ∧
      frankenTcGet ⟨1, 1000000000, true⟩ ⟨0, 999999999⟩ = 999999999 ∧
      frankenTcGet ⟨1, 1000000000, true⟩ ⟨1, 0⟩ = 1 ∧
      ¬ Consistent ⟨1, 1000000000, true⟩ ⟨0, 999999999⟩ ⟨1, 0⟩ := by
  decide

/-- No resolution is right: `10^9` is not a square. -/
theorem res_ne_frequency {res : Int} (hpos : 0 < res) (hdvd : res ∣ 1000000000) :
    res ≠ 1000000000 / res := by
  intro h
  have hsq : res * res = 1000000000 := by
    nth_rewrite 1 [h]
    exact Int.ediv_mul_cancel hdvd
  have hlo : 31622 < res := by
    by_contra hn
    have := Int.mul_le_mul (by omega : res ≤ 31622) (by omega : res ≤ 31622) (by omega) (by decide)
    omega
  have hhi : res < 31623 := by
    by_contra hn
    have := Int.mul_le_mul (by omega : 31623 ≤ res) (by omega : 31623 ≤ res) (by decide) (by omega)
    omega
  omega

/-- Two readings one second apart are inconsistent at every resolution. -/
theorem second_inconsistent {ret : Int} {ts : Timespec} {tc tc' : Tc}
    (hinit : frankenTcModcmd .init ret ts tc = .ok tc') (hpos : 0 < ts.nsec)
    (hdvd : ts.nsec ∣ 1000000000) {t : Timespec} (ht : t.Normal) :
    ¬ Consistent tc' t ⟨t.sec + 1, t.nsec⟩ := by
  have hf := frequency_mul hinit hpos hdvd
  have hle : ts.nsec ≤ 1000000000 := Int.le_of_dvd (by decide) hdvd
  have hquot : 1000000000 / ts.nsec ≤ 1000000000 := Int.ediv_le_self _ (by decide)
  have hquot0 : 0 ≤ 1000000000 / ts.nsec := Int.ediv_nonneg (by decide) (by omega)
  have hne := res_ne_frequency hpos hdvd
  have hsub := get_sub hinit hpos hdvd ht (show Timespec.Normal ⟨t.sec + 1, t.nsec⟩ from ht)
  have hone : t.sec + 1 - t.sec = 1 := by omega
  rw [Consistent, and_iff_right hf, hsub, hone, Int.one_mul]
  omega

end Frankenlibc.Timecounter

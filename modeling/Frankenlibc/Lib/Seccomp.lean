import Mathlib.Tactic.Common

/-!
# System-call filters

A filter is a list of rules. A rule names a system call and may compare its
arguments with constants; it admits a call that has the name and passes all its
tests. A call that no rule admits kills the caller. Nothing here names a
particular policy.
-/
namespace Frankenlibc.Lib

/-- A system call as the filter sees it: its name and its arguments. -/
structure Trap (ν : Type) where
  no : ν
  arg : Fin 6 → UInt64

abbrev A0 : Fin 6 := 0
abbrev A1 : Fin 6 := 1
abbrev A2 : Fin 6 := 2
abbrev A3 : Fin 6 := 3
abbrev A4 : Fin 6 := 4

/-- `SCMP_CMP_EQ` and `SCMP_CMP_MASKED_EQ` on one argument. -/
inductive Test
  | eq (i : Fin 6) (v : UInt64)
  | masked (i : Fin 6) (mask v : UInt64)
deriving DecidableEq

def Test.holds (arg : Fin 6 → UInt64) : Test → Prop
  | .eq i v => arg i = v
  | .masked i mask v => arg i &&& mask = v

instance (arg : Fin 6 → UInt64) : (t : Test) → Decidable (t.holds arg)
  | .eq i v => inferInstanceAs (Decidable (arg i = v))
  | .masked i mask v => inferInstanceAs (Decidable (arg i &&& mask = v))

structure Rule (ν : Type) where
  no : ν
  tests : List Test
deriving DecidableEq

variable {ν : Type}

def Rule.Admits (r : Rule ν) (c : Trap ν) : Prop := r.no = c.no ∧ ∀ t ∈ r.tests, t.holds c.arg

def Admitted (rules : List (Rule ν)) (c : Trap ν) : Prop := ∃ r ∈ rules, r.Admits c

instance [DecidableEq ν] (r : Rule ν) (c : Trap ν) : Decidable (r.Admits c) :=
  inferInstanceAs (Decidable (r.no = c.no ∧ ∀ t ∈ r.tests, t.holds c.arg))

instance [DecidableEq ν] (rules : List (Rule ν)) (c : Trap ν) : Decidable (Admitted rules c) :=
  inferInstanceAs (Decidable (∃ r ∈ rules, r.Admits c))

/-- A filter with more rules admits more. -/
theorem Admitted.mono {rules rules' : List (Rule ν)} {c : Trap ν} (h : Admitted rules c)
    (hs : rules ⊆ rules') : Admitted rules' c := by
  obtain ⟨r, hr, ha⟩ := h
  exact ⟨r, hs hr, ha⟩

theorem admitted_append {rules rules' : List (Rule ν)} {c : Trap ν} :
    Admitted (rules ++ rules') c ↔ Admitted rules c ∨ Admitted rules' c := by
  simp only [Admitted, List.mem_append, or_and_right, exists_or]

theorem admitted_flatMap {α : Type} {l : List α} {f : α → List (Rule ν)} {c : Trap ν} :
    Admitted (l.flatMap f) c ↔ ∃ a ∈ l, Admitted (f a) c := by
  simp only [Admitted, List.mem_flatMap]
  constructor
  · intro ⟨r, ⟨a, ha, hr⟩, hc⟩
    exact ⟨a, ha, r, hr, hc⟩
  · intro ⟨a, ha, r, hr, hc⟩
    exact ⟨r, ⟨a, ha, hr⟩, hc⟩

end Frankenlibc.Lib

import Mathlib.Data.List.Basic
import Mathlib.Data.List.Nodup
import Mathlib.Data.List.Perm.Basic
import Mathlib.Logic.Function.Basic
import Mathlib.Tactic.Common

/-!
# A family of lists laid out in one

`shelved n f mk` lists what the first `n` lists of a family hold, each entry
labelled with its index. Adding to one list or removing from it changes the
layout by exactly those entries, up to order.
-/
namespace Frankenlibc.Lib

variable {α β : Type*} {n b : Nat} {f : Nat → List α} {g : Nat → α → β}

/-- All entries of the lists below `n`. -/
def shelved (n : Nat) (f : Nat → List α) (mk : Nat → α → β) : List β :=
  (List.range n).flatMap fun i => (f i).map (mk i)

theorem mem_shelved {x : β} : x ∈ shelved n f g ↔ ∃ i < n, ∃ a ∈ f i, g i a = x := by
  simp [shelved, List.mem_flatMap]

theorem shelved_succ : shelved (n + 1) f g = shelved n f g ++ (f n).map (g n) := by
  simp [shelved, List.range_succ]

theorem shelved_update_ge {l : List α} (h : n ≤ b) :
    shelved n (Function.update f b l) g = shelved n f g := by
  induction n with
  | zero => rfl
  | succ n ih =>
    rw [shelved_succ, shelved_succ, ih (by omega), Function.update_of_ne (by omega)]

/-- One shelf can be taken out in front. -/
theorem shelved_update {l : List α} (h : b < n) :
    (shelved n (Function.update f b l) g).Perm
      (l.map (g b) ++ shelved n (Function.update f b []) g) := by
  induction n with
  | zero => omega
  | succ n ih =>
    rw [shelved_succ, shelved_succ]
    by_cases hb : b = n
    · subst hb
      rw [shelved_update_ge (Nat.le_refl b), shelved_update_ge (Nat.le_refl b), Function.update_self,
        Function.update_self, List.map_nil, List.append_nil]
      exact List.perm_append_comm
    · rw [Function.update_of_ne (Ne.symm hb), Function.update_of_ne (Ne.symm hb),
        ← List.append_assoc]
      exact (ih (by omega)).append_right _

/-- What is put in front of one shelf comes on top. -/
theorem shelved_append {l : List α} (h : b < n) :
    (shelved n (Function.update f b (l ++ f b)) g).Perm (l.map (g b) ++ shelved n f g) := by
  have h₁ := shelved_update (f := f) (g := g) (l := l ++ f b) h
  have h₂ := shelved_update (f := f) (g := g) (l := f b) h
  rw [Function.update_eq_self] at h₂
  rw [List.map_append, List.append_assoc] at h₁
  exact h₁.trans (h₂.symm.append_left _)

/-- What is taken from the front of one shelf is gone. -/
theorem shelved_drop {a : α} {l : List α} (h : b < n) (hb : f b = a :: l) :
    (shelved n f g).Perm (g b a :: shelved n (Function.update f b l) g) := by
  have h₁ := shelved_append (f := Function.update f b l) (g := g) (l := [a]) h
  rw [Function.update_self, Function.update_idem, List.singleton_append, ← hb,
    Function.update_eq_self] at h₁
  exact h₁

theorem nodup_shelf (h : b < n) (hn : (shelved n f g).Nodup) : (f b).Nodup := by
  have h₂ := shelved_update (f := f) (g := g) (l := f b) h
  rw [Function.update_eq_self] at h₂
  exact ((h₂.nodup_iff.mp hn).of_append_left).of_map

end Frankenlibc.Lib

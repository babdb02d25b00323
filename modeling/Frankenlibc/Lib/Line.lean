import Mathlib.Data.List.Basic
import Mathlib.Tactic.Common

/-!
# Standing in a line

A list without repetitions read as a line: who stands ahead of a member, who
behind it. Others join at the end, leave, or step back to the end; none of
this puts anyone ahead of the member.
-/
namespace Frankenlibc.Lib

variable {α : Type*} [DecidableEq α] {l : List α} {a b : α}

/-- The members that stand before the first `a`. -/
def ahead (a : α) (l : List α) : List α := l.takeWhile (fun b => b ≠ a)

/-- The members that stand after the first `a`. -/
def behind (a : α) (l : List α) : List α := (l.dropWhile (fun b => b ≠ a)).tail

theorem ahead_cons_self (a : α) (l : List α) : ahead a (a :: l) = [] := by simp [ahead]

theorem ahead_cons_of_ne (h : b ≠ a) (l : List α) : ahead a (b :: l) = b :: ahead a l := by
  simp [ahead, h]

theorem behind_cons_self (a : α) (l : List α) : behind a (a :: l) = l := by simp [behind]

theorem behind_cons_of_ne (h : b ≠ a) (l : List α) : behind a (b :: l) = behind a l := by
  simp [behind, h]

/-- Who joins at the end stands behind. -/
theorem ahead_append (h : a ∈ l) (l' : List α) : ahead a (l ++ l') = ahead a l := by
  induction l with
  | nil => cases h
  | cons b l ih =>
    by_cases hb : b = a
    · subst hb
      rw [List.cons_append, ahead_cons_self, ahead_cons_self]
    · have hl : a ∈ l := (List.mem_cons.mp h).resolve_left (Ne.symm hb)
      rw [List.cons_append, ahead_cons_of_ne hb, ahead_cons_of_ne hb, ih hl]

theorem behind_append (h : a ∈ l) (l' : List α) : behind a (l ++ l') = behind a l ++ l' := by
  induction l with
  | nil => cases h
  | cons b l ih =>
    by_cases hb : b = a
    · subst hb
      rw [List.cons_append, behind_cons_self, behind_cons_self]
    · have hl : a ∈ l := (List.mem_cons.mp h).resolve_left (Ne.symm hb)
      rw [List.cons_append, behind_cons_of_ne hb, behind_cons_of_ne hb, ih hl]

/-- Another member leaves the line. -/
theorem ahead_erase (h : b ≠ a) (l : List α) : ahead a (l.erase b) = (ahead a l).erase b := by
  induction l with
  | nil => rfl
  | cons c l ih =>
    by_cases hc : c = b
    · subst hc
      rw [ahead_cons_of_ne h, List.erase_cons_head, List.erase_cons_head]
    · rw [List.erase_cons_tail (by simpa using hc)]
      by_cases hca : c = a
      · subst hca
        rw [ahead_cons_self, ahead_cons_self, List.erase_nil]
      · rw [ahead_cons_of_ne hca, ahead_cons_of_ne hca, List.erase_cons_tail (by simpa using hc),
          ih]

/-- A member ahead steps back to the end of the line. -/
theorem ahead_rotate (ha : a ∈ l) (h : b ≠ a) :
    ahead a (l.erase b ++ [b]) = (ahead a l).erase b ∧ b ∈ behind a (l.erase b ++ [b]) := by
  have hm : a ∈ l.erase b := (List.mem_erase_of_ne (Ne.symm h)).mpr ha
  refine ⟨by rw [ahead_append hm, ahead_erase h], ?_⟩
  rw [behind_append hm]
  simp

end Frankenlibc.Lib

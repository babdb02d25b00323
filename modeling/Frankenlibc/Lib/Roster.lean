import Mathlib.Algebra.BigOperators.Group.List.Basic
import Mathlib.Data.List.Basic
import Mathlib.Tactic.Common

/-!
# What the members of a list hold together

Threads are kept in a list and a step replaces one of them. What all of them
hold is a sum; the replacement exchanges one summand. What the members yield
one after the other is a concatenation, and two of these are compared member by
member.
-/
namespace Frankenlibc.Lib

variable {α M : Type*} [AddCommMonoid M] {l : List α} {k : Nat} {a : α}

/-- The sum over a list, with the member at `k` taken out in front. -/
theorem sum_set (f : α → M) (h : l[k]? = some a) :
    ∃ r, (l.map f).sum = f a + r ∧ ∀ b, ((l.set k b).map f).sum = f b + r := by
  induction l generalizing k with
  | nil => simp at h
  | cons x l ih =>
    cases k with
    | zero =>
      simp only [List.getElem?_cons_zero, Option.some.injEq] at h
      subst h
      exact ⟨(l.map f).sum, by simp, fun b => by simp⟩
    | succ k =>
      simp only [List.getElem?_cons_succ] at h
      obtain ⟨r, hr, hset⟩ := ih h
      refine ⟨f x + r, ?_, fun b => ?_⟩
      · rw [List.map_cons, List.sum_cons, hr]
        exact add_left_comm _ _ _
      · rw [List.set_cons_succ, List.map_cons, List.sum_cons, hset]
        exact add_left_comm _ _ _

/-- How many members have a property, with the one at `k` counted apart. -/
theorem countP_set (p : α → Bool) (h : l[k]? = some a) :
    ∃ r, l.countP p = (if p a then 1 else 0) + r ∧
      ∀ b, (l.set k b).countP p = (if p b then 1 else 0) + r := by
  obtain ⟨hk, rfl⟩ := List.getElem?_eq_some_iff.mp h
  have hle := List.boole_getElem_le_countP (p := p) hk
  refine ⟨l.countP p - (if p l[k] then 1 else 0), (Nat.add_sub_of_le hle).symm, fun b => ?_⟩
  rw [List.countP_set hk, Nat.add_comm]

/-- If all members are the same, so is the last one. -/
theorem getLast?_of_forall {β : Type*} {l : List β} {o : Option β} (hall : ∀ v ∈ l, some v = o)
    (hne : o ≠ none → l ≠ []) : l.getLast? = o := by
  cases l with
  | nil =>
    by_contra hx
    exact hne (Ne.symm hx) rfl
  | cons v l =>
    rw [List.getLast?_eq_some_getLast (List.cons_ne_nil v l)]
    exact hall _ (List.getLast_mem _)

/-- If each member yields at least as much in one way as in the other, the
yields agree as a whole only if they do for each member. -/
theorem flatMap_agree {β γ : Type*} {f g : β → List γ} {es : List β} {pre : List γ}
    (hle : ∀ e ∈ es, (g e).length ≤ (f e).length) :
    pre ++ es.flatMap f = es.flatMap g ↔ pre = [] ∧ ∀ e ∈ es, f e = g e := by
  constructor
  · intro h
    induction es generalizing pre with
    | nil =>
      rw [List.flatMap_nil, List.append_nil] at h
      exact ⟨h, fun e he => absurd he List.not_mem_nil⟩
    | cons e es ih =>
      obtain ⟨hhead, htail⟩ := List.forall_mem_cons.mp hle
      rw [List.flatMap_cons, List.flatMap_cons, ← List.append_assoc] at h
      -- what `pre` and `f e` have beyond `g e` goes to the front of the rest
      have hsplit : (pre ++ f e).take (g e).length ++
          ((pre ++ f e).drop (g e).length ++ es.flatMap f) = g e ++ es.flatMap g := by
        rw [← List.append_assoc, List.take_append_drop]
        exact h
      have hlen : ((pre ++ f e).take (g e).length).length = (g e).length := by
        rw [List.length_take, List.length_append]
        omega
      obtain ⟨hg, hrest⟩ := List.append_inj hsplit hlen
      obtain ⟨hdrop, hall⟩ := ih htail hrest
      have hshort : (pre ++ f e).length ≤ (g e).length := List.drop_eq_nil_iff.mp hdrop
      rw [List.length_append] at hshort
      have hpre : pre = [] := List.length_eq_zero_iff.mp (by omega)
      subst hpre
      rw [List.nil_append, List.take_of_length_le (by omega)] at hg
      exact ⟨rfl, List.forall_mem_cons.mpr ⟨hg, hall⟩⟩
  · rintro ⟨rfl, hall⟩
    rw [List.nil_append]
    exact List.flatMap_congr hall

end Frankenlibc.Lib

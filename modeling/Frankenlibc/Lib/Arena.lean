import Mathlib.Data.List.Pairwise
import Mathlib.Order.Basic
import Mathlib.Order.Nat
import Mathlib.Tactic.Common

/-!
# An arena that is carved from below

Spans are taken off a range of addresses in ascending order, with gaps, and are
never given back. What makes them disjoint is that everything taken lies below
`next` and everything to be taken above it; the arena carries this with it.
-/
namespace Frankenlibc.Lib

structure Span where
  start : Nat
  len : Nat
deriving DecidableEq, Repr

def Span.stop (a : Span) : Nat := a.start + a.len

def Span.Apart (a b : Span) : Prop := a.stop ≤ b.start ∨ b.stop ≤ a.start

instance (a b : Span) : Decidable (a.Apart b) := inferInstanceAs (Decidable (_ ∨ _))

/-- What has been carved from the range from `lo` to `hi`. -/
structure Arena (lo hi : Nat) where
  next : Nat
  spans : List Span
  low : lo ≤ next
  within : ∀ a ∈ spans, lo ≤ a.start ∧ a.stop ≤ next ∧ a.stop ≤ hi
  apart : spans.Pairwise Span.Apart

namespace Arena

variable {lo hi : Nat}

def empty (lo hi : Nat) : Arena lo hi := ⟨lo, [], le_rfl, by simp, .nil⟩

/-- Leave a gap. -/
def skip (A : Arena lo hi) (n : Nat) (hn : A.next ≤ n) : Arena lo hi where
  next := n
  spans := A.spans
  low := A.low.trans hn
  within a ha := ⟨(A.within a ha).1, (A.within a ha).2.1.trans hn, (A.within a ha).2.2⟩
  apart := A.apart

/-- Take a span off. -/
def carve (A : Arena lo hi) (a : Span) (hn : A.next ≤ a.start) (hh : a.stop ≤ hi) :
    Arena lo hi where
  next := a.stop
  spans := A.spans ++ [a]
  low := A.low.trans (hn.trans (Nat.le_add_right _ _))
  within b hb := by
    rcases List.mem_append.mp hb with hb | hb
    · obtain ⟨h₁, h₂, h₃⟩ := A.within b hb
      exact ⟨h₁, h₂.trans (hn.trans (Nat.le_add_right _ _)), h₃⟩
    · rw [List.mem_singleton.mp hb]
      exact ⟨A.low.trans hn, le_rfl, hh⟩
  apart := by
    rw [List.pairwise_append]
    refine ⟨A.apart, List.pairwise_singleton _ _, fun b hb c hc => ?_⟩
    rw [List.mem_singleton.mp hc]
    exact .inl ((A.within b hb).2.1.trans hn)

end Arena

end Frankenlibc.Lib

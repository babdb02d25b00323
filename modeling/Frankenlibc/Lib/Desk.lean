import Mathlib.Data.List.Nodup

/-!
# A desk that hands things out against a key

What a desk has issued is outstanding until somebody shows its key. The desk
keeps a record of both: what was issued, newest first, and who took what. A
thing is issued once, and taken once; what is outstanding is defined from the
records and is not kept.
-/
namespace Frankenlibc.Lib

/-- The records of a desk. -/
structure Desk {κ β : Type} (key : β → κ) where
  issued : List β
  consumed : List (κ × β)
  distinct : issued.Nodup
  once : (consumed.map Prod.snd).Nodup
  known : ∀ c ∈ consumed, c.2 ∈ issued ∧ key c.2 = c.1

namespace Desk

variable {κ β : Type} {key : β → κ} {d : Desk key} {b : β} {k : κ}

def empty : Desk key where
  issued := []
  consumed := []
  distinct := .nil
  once := .nil
  known := by simp

theorem consumed_issued (h : b ∈ d.consumed.map Prod.snd) : b ∈ d.issued := by
  obtain ⟨c, hc, rfl⟩ := List.mem_map.mp h
  exact (d.known c hc).1

variable [DecidableEq β]

/-- Issued and not yet consumed. -/
def outstanding (d : Desk key) : List β :=
  d.issued.filter fun b => b ∉ d.consumed.map Prod.snd

theorem mem_outstanding : b ∈ d.outstanding ↔ b ∈ d.issued ∧ b ∉ d.consumed.map Prod.snd := by
  rw [outstanding, List.mem_filter, decide_eq_true_eq]

theorem outstanding_nodup : d.outstanding.Nodup := d.distinct.filter _

/-- What was issued before is not issued again. -/
def issue (b : β) (d : Desk key) : Desk key :=
  if h : b ∈ d.issued then d
  else
    { d with
      issued := b :: d.issued
      distinct := List.nodup_cons.mpr ⟨h, d.distinct⟩
      known := fun c hc => (d.known c hc).imp_left (List.mem_cons_of_mem b) }

theorem issued_issue (h : b ∉ d.issued) : (d.issue b).issued = b :: d.issued := by
  rw [issue, dif_neg h]

@[simp] theorem consumed_issue : (d.issue b).consumed = d.consumed := by
  unfold issue
  split
  · rfl
  · rfl

theorem outstanding_issue (h : b ∉ d.issued) :
    (d.issue b).outstanding = b :: d.outstanding := by
  have hb : b ∉ d.consumed.map Prod.snd := fun hc => h (consumed_issued hc)
  rw [outstanding, issued_issue h, consumed_issue, List.filter_cons_of_pos (by simpa using hb)]
  rfl

variable [DecidableEq κ]

theorem found (h : d.outstanding.find? (fun b => key b = k) = some b) :
    (b ∈ d.issued ∧ key b = k) ∧ b ∉ d.consumed.map Prod.snd := by
  obtain ⟨hi, hc⟩ := mem_outstanding.mp (List.mem_of_find?_eq_some h)
  exact ⟨⟨hi, by simpa using List.find?_some h⟩, hc⟩

/-- The newest thing outstanding under the key is taken. -/
def present (k : κ) (d : Desk key) : Desk key :=
  match h : d.outstanding.find? fun b => key b = k with
  | none => d
  | some b =>
    { d with
      consumed := (k, b) :: d.consumed
      once := List.nodup_cons.mpr ⟨(found h).2, d.once⟩
      known := List.forall_mem_cons.mpr ⟨(found h).1, d.known⟩ }

@[simp] theorem issued_present : (d.present k).issued = d.issued := by
  unfold present
  split
  · rfl
  · rfl

theorem present_none (h : d.outstanding.find? (fun b => key b = k) = none) : d.present k = d := by
  unfold present
  split
  · rfl
  · rename_i b hb
    rw [h] at hb
    cases hb

theorem consumed_present (h : d.outstanding.find? (fun b => key b = k) = some b) :
    (d.present k).consumed = (k, b) :: d.consumed := by
  unfold present
  split
  · rename_i hb
    rw [h] at hb
    cases hb
  · rename_i b' hb
    rw [h] at hb
    cases hb
    rfl

/-- Taking one thing leaves all others outstanding. -/
theorem outstanding_present (h : d.outstanding.find? (fun b => key b = k) = some b) :
    (d.present k).outstanding = d.outstanding.erase b := by
  rw [outstanding_nodup.erase_eq_filter, outstanding, issued_present, consumed_present h,
    outstanding, List.filter_filter]
  refine List.filter_congr fun x _ => ?_
  simp only [List.map_cons, List.mem_cons, not_or, Bool.decide_and, bne, decide_not]
  rfl

end Desk

end Frankenlibc.Lib

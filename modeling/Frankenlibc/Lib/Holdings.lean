import Mathlib.Data.List.Nodup
import Mathlib.Logic.Function.Basic
import Mathlib.Tactic.Common

/-!
# Who holds what

Things are made, passed from place to place, and freed; a place holds one thing
or none. A thing that is passed on, or written over, is not held by its old
place any more, so no dealing can give a thing two holders or free it twice.
What a dealing can do is lose a thing: write over a place that holds one.
-/
namespace Frankenlibc.Lib

variable {ω : Type*}

/-- The things made are numbered; `freed` lists those that were freed. -/
structure Holdings (ω : Type*) where
  held : ω → Option Nat
  made : Nat
  freed : List Nat

inductive Deal (ω : Type*)
  | make (o : ω)
  | pass (o o' : ω)
  | free (o : ω)
  | forget (o : ω)

namespace Holdings

variable {b : Holdings ω} {d : Deal ω} {o : ω} {x : Nat}

/-- Before anything is made. -/
def blank : Holdings ω := ⟨fun _ => none, 0, []⟩

/-- Two places never hold one thing, what is held is not freed, and nothing is
freed twice. -/
structure Proper (b : Holdings ω) : Prop where
  lone : ∀ o o' x, b.held o = some x → b.held o' = some x → o = o'
  alive : ∀ o x, b.held o = some x → x < b.made ∧ x ∉ b.freed
  old : ∀ x ∈ b.freed, x < b.made
  once : b.freed.Nodup

/-- Nothing is lost. -/
def Kept (b : Holdings ω) : Prop := ∀ x < b.made, x ∈ b.freed ∨ ∃ o, b.held o = some x

theorem blank_proper : Proper (blank : Holdings ω) where
  lone o o' x h _ := by cases h
  alive o x h := by cases h
  old x h := by cases h
  once := List.nodup_nil

theorem blank_kept : Kept (blank : Holdings ω) := fun _ h => absurd h (Nat.not_lt_zero _)

/-- A thing that is not freed has exactly one holder. -/
theorem Proper.holder (hp : Proper b) (hk : Kept b) (hx : x < b.made) (hf : x ∉ b.freed) :
    ∃! o, b.held o = some x := by
  obtain ⟨o, ho⟩ := (hk x hx).resolve_left hf
  exact ⟨o, ho, fun o' ho' => hp.lone o' o x ho' ho⟩

/-- Held by nobody and never freed. -/
def Lost (b : Holdings ω) (x : Nat) : Prop := x < b.made ∧ x ∉ b.freed ∧ ∀ o, b.held o ≠ some x

theorem Lost.not_kept (h : Lost b x) : ¬ Kept b := by
  intro hk
  rcases hk x h.1 with hf | ⟨o, ho⟩
  · exact h.2.1 hf
  · exact h.2.2 o ho

variable [DecidableEq ω]

/-- `pass o o'` moves what `o` holds to `o'`. -/
def deal : Deal ω → Holdings ω → Holdings ω
  | .make o, b => { b with held := Function.update b.held o (some b.made), made := b.made + 1 }
  | .pass o o', b =>
    { b with held := Function.update (Function.update b.held o' (b.held o)) o none }
  | .free o, b =>
    { b with held := Function.update b.held o none, freed := b.freed ++ (b.held o).toList }
  | .forget o, b => { b with held := Function.update b.held o none }

/-- The dealing writes over a place that holds something. -/
def loses : Deal ω → Holdings ω → Bool
  | .make o, b => (b.held o).isSome
  | .pass _ o', b => (b.held o').isSome
  | .free _, _ => false
  | .forget o, b => (b.held o).isSome

section Places

variable {p o' : ω}

@[simp] theorem held_make :
    (deal (.make o) b).held p = if p = o then some b.made else b.held p :=
  Function.update_apply ..

@[simp] theorem held_free : (deal (.free o) b).held p = if p = o then none else b.held p :=
  Function.update_apply ..

@[simp] theorem held_forget : (deal (.forget o) b).held p = if p = o then none else b.held p :=
  Function.update_apply ..

@[simp] theorem held_pass : (deal (.pass o o') b).held p =
    if p = o then none else if p = o' then b.held o else b.held p := by
  simp only [deal, Function.update_apply]

end Places

/-! ## One place at a time -/

/-- A place is emptied. -/
theorem Proper.empty (hp : Proper b) (o : ω) :
    Proper { b with held := Function.update b.held o none } := by
  have hsub : ∀ p x, Function.update b.held o none p = some x → b.held p = some x := by
    intro p x hx
    by_cases hpo : p = o
    · rw [hpo, Function.update_self] at hx
      cases hx
    · rwa [Function.update_of_ne hpo] at hx
  exact ⟨fun p p' x h h' => hp.lone p p' x (hsub p x h) (hsub p' x h'),
    fun p x h => hp.alive p x (hsub p x h), hp.old, hp.once⟩

/-- A place is given something nobody holds. -/
theorem Proper.give (hp : Proper b) (hx : x < b.made) (hf : x ∉ b.freed)
    (hno : ∀ p, p ≠ o → b.held p ≠ some x) :
    Proper { b with held := Function.update b.held o (some x) } := by
  have hcases : ∀ p y, Function.update b.held o (some x) p = some y →
      p = o ∧ y = x ∨ p ≠ o ∧ b.held p = some y := by
    intro p y hy
    by_cases hpo : p = o
    · rw [hpo, Function.update_self] at hy
      exact .inl ⟨hpo, (Option.some.inj hy).symm⟩
    · rw [Function.update_of_ne hpo] at hy
      exact .inr ⟨hpo, hy⟩
  refine ⟨fun p p' y h h' => ?_, fun p y h => ?_, hp.old, hp.once⟩
  · rcases hcases p y h with ⟨rfl, rfl⟩ | ⟨hne, hy⟩
    · rcases hcases p' y h' with ⟨rfl, _⟩ | ⟨hne', hy'⟩
      · rfl
      · exact absurd hy' (hno p' hne')
    · rcases hcases p' y h' with ⟨rfl, rfl⟩ | ⟨_, hy'⟩
      · exact absurd hy (hno p hne)
      · exact hp.lone p p' y hy hy'
  · rcases hcases p y h with ⟨_, rfl⟩ | ⟨_, hy⟩
    · exact ⟨hx, hf⟩
    · exact hp.alive p y hy

/-! ## Dealings -/

/-- No dealing breaks the holdings. -/
theorem Proper.deal (hp : Proper b) (d : Deal ω) : Proper (deal d b) := by
  cases d with
  | make o =>
    have hgrown : Proper { b with made := b.made + 1 } :=
      ⟨hp.lone, fun p x h => (hp.alive p x h).imp_left Nat.lt_succ_of_lt,
        fun x h => Nat.lt_succ_of_lt (hp.old x h), hp.once⟩
    refine hgrown.give (Nat.lt_succ_self b.made) (fun h => Nat.lt_irrefl _ (hp.old _ h)) ?_
    exact fun p _ h => Nat.lt_irrefl _ (hp.alive p _ h).1
  | pass o o' =>
    cases hx : b.held o with
    | none =>
      simp only [Holdings.deal, hx]
      exact (hp.empty o').empty o
    | some x =>
      simp only [Holdings.deal, hx]
      by_cases hoo : o' = o
      · rw [hoo, Function.update_idem]
        exact hp.empty o
      · rw [Function.update_comm hoo]
        obtain ⟨hlt, hf⟩ := hp.alive o x hx
        refine (hp.empty o).give hlt hf fun p _ hpx => ?_
        by_cases hpo : p = o
        · simp [hpo] at hpx
        · simp only [Function.update_of_ne hpo] at hpx
          exact hpo (hp.lone p o x hpx hx)
  | free o =>
    have he := hp.empty o
    cases hx : b.held o with
    | none =>
      simp only [Holdings.deal, hx, Option.toList_none, List.append_nil]
      exact he
    | some x =>
      obtain ⟨hlt, hf⟩ := hp.alive o x hx
      simp only [Holdings.deal, hx, Option.toList_some]
      refine ⟨he.lone, fun p y h => ?_, ?_, ?_⟩
      · obtain ⟨hy, hfy⟩ := he.alive p y h
        refine ⟨hy, fun hmem => ?_⟩
        rcases List.mem_append.mp hmem with hmem | hmem
        · exact hfy hmem
        · rw [List.mem_singleton] at hmem
          subst hmem
          have hpo : p ≠ o := fun heq => by simp [heq] at h
          simp only [Function.update_of_ne hpo] at h
          exact hpo (hp.lone p o y h hx)
      · intro y hmem
        rcases List.mem_append.mp hmem with hmem | hmem
        · exact hp.old y hmem
        · rw [List.mem_singleton] at hmem
          exact hmem ▸ hlt
      · exact List.nodup_append.mpr ⟨hp.once, List.nodup_singleton x, fun y hy z hz => by
          rw [List.mem_singleton] at hz
          exact fun heq => hf (hz ▸ heq ▸ hy)⟩
  | forget o => exact hp.empty o

/-- A dealing that writes over a place loses what was there. -/
theorem Proper.lost_of_loses (hp : Proper b) (h : loses d b = true) :
    ∃ x, Lost (Holdings.deal d b) x := by
  -- whatever replaces `x` in its place, nobody else has it
  have hgone : ∀ {q : ω}, (b.held q).isSome = true → ∃ x, x < b.made ∧ x ∉ b.freed ∧
      ∀ p, p ≠ q → b.held p ≠ some x := by
    intro q hq
    obtain ⟨x, hx⟩ := Option.isSome_iff_exists.mp hq
    obtain ⟨hlt, hf⟩ := hp.alive q x hx
    exact ⟨x, hlt, hf, fun p hne hpx => hne (hp.lone p q x hpx hx)⟩
  cases d with
  | make q =>
    obtain ⟨x, hlt, hf, hno⟩ := hgone h
    refine ⟨x, Nat.lt_succ_of_lt hlt, hf, fun p hpx => ?_⟩
    by_cases hpq : p = q
    · simp only [Holdings.deal, hpq, Function.update_self, Option.some.injEq] at hpx
      exact Nat.ne_of_lt hlt hpx.symm
    · simp only [Holdings.deal, Function.update_of_ne hpq] at hpx
      exact hno p hpq hpx
  | pass q q' =>
    obtain ⟨x, hlt, hf, hno⟩ := hgone h
    refine ⟨x, hlt, hf, fun p hpx => ?_⟩
    by_cases hpq : p = q
    · simp [Holdings.deal, hpq] at hpx
    · simp only [Holdings.deal, Function.update_of_ne hpq] at hpx
      by_cases hpq' : p = q'
      · rw [hpq', Function.update_self] at hpx
        exact hno q (fun heq => hpq (hpq'.trans heq.symm)) hpx
      · rw [Function.update_of_ne hpq'] at hpx
        exact hno p hpq' hpx
  | free q => cases h
  | forget q =>
    obtain ⟨x, hlt, hf, hno⟩ := hgone h
    refine ⟨x, hlt, hf, fun p hpx => ?_⟩
    by_cases hpq : p = q
    · simp [Holdings.deal, hpq] at hpx
    · simp only [Holdings.deal, Function.update_of_ne hpq] at hpx
      exact hno p hpq hpx

/-- Every other dealing keeps what there is. -/
theorem Kept.deal (hk : Kept b) (h : loses d b = false) : Kept (Holdings.deal d b) := by
  cases d with
  | make q =>
    intro x hx
    rcases Nat.lt_succ_iff_lt_or_eq.mp hx with hlt | rfl
    · rcases hk x hlt with hf | ⟨o, ho⟩
      · exact .inl hf
      · have hoq : o ≠ q := fun heq => by simp [loses, ← heq, ho] at h
        exact .inr ⟨o, (Function.update_of_ne hoq ..).trans ho⟩
    · exact .inr ⟨q, Function.update_self ..⟩
  | pass q q' =>
    intro x hx
    rcases hk x hx with hf | ⟨o, ho⟩
    · exact .inl hf
    · have hoq' : o ≠ q' := fun heq => by simp [loses, ← heq, ho] at h
      refine .inr ?_
      by_cases hoq : o = q
      · refine ⟨q', ?_⟩
        have hqq : q' ≠ q := fun heq => hoq' (hoq.trans heq.symm)
        simp only [Holdings.deal, Function.update_of_ne hqq, Function.update_self]
        exact hoq ▸ ho
      · refine ⟨o, ?_⟩
        simp only [Holdings.deal, Function.update_of_ne hoq, Function.update_of_ne hoq']
        exact ho
  | free q =>
    intro x hx
    rcases hk x hx with hf | ⟨o, ho⟩
    · exact .inl (List.mem_append_left _ hf)
    · by_cases hoq : o = q
      · refine .inl (List.mem_append_right _ ?_)
        rw [← hoq]
        exact Option.mem_toList.mpr ho
      · exact .inr ⟨o, (Function.update_of_ne hoq ..).trans ho⟩
  | forget q =>
    intro x hx
    rcases hk x hx with hf | ⟨o, ho⟩
    · exact .inl hf
    · have hoq : o ≠ q := fun heq => by simp [loses, ← heq, ho] at h
      exact .inr ⟨o, (Function.update_of_ne hoq ..).trans ho⟩

end Holdings

end Frankenlibc.Lib

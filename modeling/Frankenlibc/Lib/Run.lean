import Mathlib.Data.List.Basic
import Mathlib.Tactic.Common

/-!
# Runs of a guarded transition function

A machine is a partial step function on states and events. A run is the list
of the pairs (state, event) it went through, oldest first, together with the
state it has reached. A guard restricts which steps a client may take; a run
whose steps all satisfy a guard is `Guarded` by it. Nothing here names a
particular machine.

A call that may stop returns an `Except`; what it has done is read off with the
lemmas at the end.
-/
namespace Frankenlibc.Lib

variable {σ ε : Type*}

/-- `Run step s₀ tr s`: the steps recorded in `tr` lead from `s₀` to `s`. -/
inductive Run (step : σ → ε → Option σ) (s₀ : σ) : List (σ × ε) → σ → Prop
  | nil : Run step s₀ [] s₀
  | snoc {tr : List (σ × ε)} {s s' : σ} {e : ε} :
      Run step s₀ tr s → step s e = some s' → Run step s₀ (tr ++ [(s, e)]) s'

/-- Every step of the run is one the guard allows. -/
def Guarded (ok : σ → ε → Prop) (tr : List (σ × ε)) : Prop :=
  ∀ p ∈ tr, ok p.1 p.2

instance {ok : σ → ε → Prop} [∀ s e, Decidable (ok s e)] (tr : List (σ × ε)) :
    Decidable (Guarded ok tr) :=
  inferInstanceAs (Decidable (∀ p ∈ tr, ok p.1 p.2))

theorem Guarded.nil (ok : σ → ε → Prop) : Guarded ok [] := by
  intro p hp
  cases hp

theorem guarded_snoc {ok : σ → ε → Prop} {tr : List (σ × ε)} {s : σ} {e : ε} :
    Guarded ok (tr ++ [(s, e)]) ↔ Guarded ok tr ∧ ok s e := by
  constructor
  · intro h
    exact ⟨fun p hp => h p (List.mem_append_left _ hp), h (s, e) (by simp)⟩
  · rintro ⟨h, he⟩ p hp
    rcases List.mem_append.mp hp with hp | hp
    · exact h p hp
    · rw [List.mem_singleton] at hp
      exact hp ▸ he

theorem Guarded.prefix_of {ok : σ → ε → Prop} {l tr : List (σ × ε)} (hl : l <+: tr)
    (h : Guarded ok tr) : Guarded ok l :=
  fun p hp => h p (hl.subset hp)

/-- The invariant rule: what holds at the start and is kept by every allowed
step holds in the state a guarded run has reached. -/
theorem Run.invariant {step : σ → ε → Option σ} {ok : σ → ε → Prop} {s₀ : σ}
    {I : σ → Prop} (hinit : I s₀) (hstep : ∀ s e s', I s → ok s e → step s e = some s' → I s')
    {tr : List (σ × ε)} {s : σ} (hr : Run step s₀ tr s) (hg : Guarded ok tr) : I s := by
  induction hr with
  | nil => exact hinit
  | snoc _ hs ih =>
    obtain ⟨hg', he⟩ := guarded_snoc.mp hg
    exact hstep _ _ _ (ih hg') he hs

/-- The same rule for runs without a guard. -/
theorem Run.always {step : σ → ε → Option σ} {s₀ : σ} {I : σ → Prop} (hinit : I s₀)
    (hstep : ∀ s e s', I s → step s e = some s' → I s')
    {tr : List (σ × ε)} {s : σ} (hr : Run step s₀ tr s) : I s := by
  have hg : Guarded (fun _ _ => True) tr := fun _ _ => trivial
  exact Run.invariant hinit (fun s e s' h _ => hstep s e s' h) hr hg

/-- Every state a run has passed through is itself the end of a run. -/
theorem Run.reaches_mem {step : σ → ε → Option σ} {s₀ : σ} {tr : List (σ × ε)} {s : σ}
    (hr : Run step s₀ tr s) {p : σ × ε} (hp : p ∈ tr) :
    ∃ l, Run step s₀ l p.1 ∧ l <+: tr := by
  induction hr with
  | nil => cases hp
  | @snoc tr s s' e hr _ ih =>
    rcases List.mem_append.mp hp with hp | hp
    · obtain ⟨l, hl, hle⟩ := ih hp
      exact ⟨l, hl, hle.trans (List.prefix_append _ _)⟩
    · rw [List.mem_singleton] at hp
      subst hp
      exact ⟨tr, hr, List.prefix_append _ _⟩

/-- Before each of its steps a run was a run, over what it had recorded so far. -/
theorem Run.before {step : σ → ε → Option σ} {s₀ : σ} {tr l : List (σ × ε)} {s q : σ} {e : ε}
    (hr : Run step s₀ tr s) (hl : l ++ [(q, e)] <+: tr) :
    Run step s₀ l q ∧ ∃ q', step q e = some q' := by
  induction hr with
  | nil => simp at hl
  | @snoc tr s s' e' hr hs ih =>
    rcases List.prefix_concat_iff.mp hl with heq | hl
    · obtain ⟨rfl, hlast⟩ := List.append_inj' heq rfl
      cases hlast
      exact ⟨hr, s', hs⟩
    · exact ih hl

/-- Runs compose. -/
theorem Run.trans {step : σ → ε → Option σ} {s₀ s₁ s₂ : σ} {l₁ l₂ : List (σ × ε)}
    (h₁ : Run step s₀ l₁ s₁) (h₂ : Run step s₁ l₂ s₂) : Run step s₀ (l₁ ++ l₂) s₂ := by
  induction h₂ with
  | nil => simpa using h₁
  | snoc _ hs ih =>
    rw [← List.append_assoc]
    exact .snoc ih hs

/-- The descent rule: a measure that no step raises and every tick lowers pays
for the ticks of the run. -/
theorem Run.descent {step : σ → ε → Option σ} {s₀ : σ} {tr : List (σ × ε)} {s : σ}
    (hr : Run step s₀ tr s) (μ : σ → Nat) (tick : σ → ε → Bool)
    (hd : ∀ p ∈ tr, ∀ s', step p.1 p.2 = some s' → μ s' + (tick p.1 p.2).toNat ≤ μ p.1) :
    μ s + tr.countP (fun p => tick p.1 p.2) ≤ μ s₀ := by
  induction hr with
  | nil => simp
  | @snoc tr s s' e _ hs ih =>
    have hold := ih fun p hp => hd p (List.mem_append_left _ hp)
    have hnew := hd (s, e) (by simp) s' hs
    rw [List.countP_append, List.countP_singleton]
    cases htick : tick s e with
    | true =>
      simp only [htick, Bool.toNat_true, if_true] at hnew ⊢
      omega
    | false =>
      simp only [htick, Bool.toNat_false, Bool.false_eq_true, if_false] at hnew ⊢
      omega

/-- Execute a list of events from a state, recording the steps taken. -/
def trace (step : σ → ε → Option σ) : σ → List ε → Option (List (σ × ε) × σ)
  | s, [] => some ([], s)
  | s, e :: es =>
    match step s e with
    | none => none
    | some s' => (trace step s' es).map fun r => ((s, e) :: r.1, r.2)

/-- An execution of a list of events is a run. -/
theorem run_of_trace {step : σ → ε → Option σ} {es : List ε} {s s' : σ} {tr : List (σ × ε)}
    (h : trace step s es = some (tr, s')) : Run step s tr s' := by
  induction es generalizing s tr with
  | nil =>
    simp only [trace, Option.some.injEq, Prod.mk.injEq] at h
    obtain ⟨rfl, rfl⟩ := h
    exact .nil
  | cons e es ih =>
    simp only [trace] at h
    cases hs : step s e with
    | none => simp [hs] at h
    | some s₁ =>
      rw [hs] at h
      simp only [Option.map_eq_some_iff, Prod.mk.injEq, Prod.exists] at h
      obtain ⟨l, s₂, hl, rfl, rfl⟩ := h
      have hone : Run step s ([] ++ [(s, e)]) s₁ := .snoc .nil hs
      exact hone.trans (ih hl)

/-- A computed check on an execution yields a run that passes it. -/
theorem exists_run {f : σ → ε → Option σ} {s : σ} (es : List ε)
    {p : List (σ × ε) → σ → Bool} (h : (trace f s es).any (fun r => p r.1 r.2) = true) :
    ∃ tr s', Run f s tr s' ∧ p tr s' = true := by
  cases ht : trace f s es with
  | none => simp [ht] at h
  | some r =>
    rw [ht] at h
    exact ⟨r.1, r.2, run_of_trace ht, h⟩

/-! ## Calls that may stop -/

section Stops

variable {α β : Type} {x : Except ε α}

theorem map_ok_iff {f : α → β} {b : β} : x.map f = .ok b ↔ ∃ a, x = .ok a ∧ f a = b := by
  cases x <;> simp [Except.map]

theorem bind_ok_iff {f : α → Except ε β} {b : β} :
    (x >>= f) = .ok b ↔ ∃ a, x = .ok a ∧ f a = .ok b := by
  cases x <;> simp [bind, Except.bind]

theorem bind_error_iff {f : α → Except ε β} {e : ε} :
    (x >>= f) = .error e ↔ x = .error e ∨ ∃ a, x = .ok a ∧ f a = .error e := by
  cases x <;> simp [bind, Except.bind]

end Stops

end Frankenlibc.Lib

import Frankenlibc.Lib.Run

/-!
# Simulations

A machine simulates another when every step of the second is matched by a run
of the first, which may be empty, and which shows the same to an observer. The
match is up to a relation between the states; what the relation says at the
start it says after every run. Nothing here names a particular machine.
-/
namespace Frankenlibc.Lib

variable {σ ε σ' ε' ω : Type*}

/-- What an observer has seen of a run. -/
def observed (see : ε → Option ω) (tr : List (σ × ε)) : List ω :=
  tr.filterMap fun p => see p.2

@[simp] theorem observed_append (see : ε → Option ω) (l₁ l₂ : List (σ × ε)) :
    observed see (l₁ ++ l₂) = observed see l₁ ++ observed see l₂ :=
  List.filterMap_append

@[simp] theorem observed_single (see : ε → Option ω) (s : σ) (e : ε) :
    observed see [(s, e)] = (see e).toList := by
  cases h : see e <;> simp [observed, h]

/-- Every step that the guard allows, from related states, is matched by a run
that ends in related states and looks the same. -/
def Simulates (step : σ → ε → Option σ) (ok : σ → ε → Prop) (see : ε → Option ω)
    (step' : σ' → ε' → Option σ') (see' : ε' → Option ω) (R : σ → σ' → Prop) : Prop :=
  ∀ s e s₁ a, R s a → ok s e → step s e = some s₁ →
    ∃ tr a₁, Run step' a tr a₁ ∧ R s₁ a₁ ∧ observed see' tr = (see e).toList

/-- The simulation rule: a guarded run is matched by a run. -/
theorem Simulates.run {step : σ → ε → Option σ} {ok : σ → ε → Prop} {see : ε → Option ω}
    {step' : σ' → ε' → Option σ'} {see' : ε' → Option ω} {R : σ → σ' → Prop}
    (h : Simulates step ok see step' see' R) {s₀ s : σ} {a₀ : σ'} (hinit : R s₀ a₀)
    {tr : List (σ × ε)} (hr : Run step s₀ tr s) (hg : Guarded ok tr) :
    ∃ tr' a, Run step' a₀ tr' a ∧ R s a ∧ observed see' tr' = observed see tr := by
  induction hr with
  | nil => exact ⟨[], a₀, .nil, hinit, rfl⟩
  | snoc _ hs ih =>
    obtain ⟨hg', hok⟩ := guarded_snoc.mp hg
    obtain ⟨tr', a, hrun, hR, hsee⟩ := ih hg'
    obtain ⟨tr₁, a₁, hrun₁, hR₁, hsee₁⟩ := h _ _ _ _ hR hok hs
    refine ⟨tr' ++ tr₁, a₁, hrun.trans hrun₁, hR₁, ?_⟩
    rw [observed_append, observed_append, observed_single, hsee, hsee₁]

/-- One step is a run. -/
theorem Run.single {step : σ → ε → Option σ} {s s' : σ} {e : ε} (h : step s e = some s') :
    Run step s [(s, e)] s' :=
  .snoc .nil h

/-- Two steps are a run. -/
theorem Run.pair {step : σ → ε → Option σ} {s s₁ s₂ : σ} {e₁ e₂ : ε}
    (h₁ : step s e₁ = some s₁) (h₂ : step s₁ e₂ = some s₂) :
    Run step s [(s, e₁), (s₁, e₂)] s₂ :=
  .snoc (.snoc .nil h₁) h₂

end Frankenlibc.Lib

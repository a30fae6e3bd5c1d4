import Mathlib.Data.List.Basic

/-!
# Finite runs of a labelled step relation

A run lists the labels of its steps, oldest first, and grows at its newest end.
The invariant rule is the only induction most safety results need: what holds at
the start and survives every step holds at the end of every run.
-/

namespace Miranda.Runs

universe u v
variable {σ : Type u} {ℓ : Type v}

/-- A finite run from one state to another. -/
inductive Run (step : σ → ℓ → σ → Prop) : σ → List ℓ → σ → Prop where
  | nil (state : σ) : Run step state [] state
  | snoc {initial state next : σ} {labels : List ℓ} {label : ℓ}
      (before : Run step initial labels state) (taken : step state label next) :
      Run step initial (labels ++ [label]) next

variable {step : σ → ℓ → σ → Prop}

/-- What every step preserves holds after every run. -/
theorem Run.invariant {holds : σ → Prop} {initial final : σ} {labels : List ℓ}
    (run : Run step initial labels final) (start : holds initial)
    (preserved : ∀ state label next, holds state → step state label next → holds next) :
    holds final := by
  induction run with
  | nil => exact start
  | snoc before taken ih =>
    exact preserved _ _ _ ih taken

/-- Executing a step function that only takes steps of the relation is a run. -/
theorem Run.of_foldlM {next : σ → ℓ → Option σ}
    (sound : ∀ state label after, next state label = some after → step state label after)
    {initial state final : σ} {before : List ℓ} (run : Run step initial before state)
    (labels : List ℓ) (executed : labels.foldlM next state = some final) :
    Run step initial (before ++ labels) final := by
  induction labels generalizing state before with
  | nil =>
    cases executed
    rwa [List.append_nil]
  | cons label rest ih =>
    obtain ⟨middle, first, later⟩ := Option.bind_eq_some_iff.mp executed
    rw [List.append_cons]
    exact ih (run.snoc (sound _ _ _ first)) later

/-- Executing steps that may fail succeeds if the first and the others do. -/
theorem foldlM_cons_ok {ε : Type u} {next : σ → ℓ → Except ε σ} {initial final : σ} {label : ℓ}
    {rest : List ℓ} : (label :: rest).foldlM next initial = .ok final ↔
      ∃ middle, next initial label = .ok middle ∧ rest.foldlM next middle = .ok final := by
  rw [List.foldlM_cons]
  cases next initial label with
  | error failure => exact ⟨by rintro ⟨⟩, by rintro ⟨_, ⟨⟩, _⟩⟩
  | ok middle => exact ⟨fun others => ⟨middle, rfl, others⟩, by rintro ⟨_, ⟨⟩, others⟩; exact others⟩

end Miranda.Runs

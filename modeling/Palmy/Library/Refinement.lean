/-
Refinement of one machine by another.  Every step of the concrete machine
stands for a list of abstract actions, none if it changes nothing the abstract
machine knows of, and so does every run.
-/
import Palmy.Library.Timeline

namespace Timeline

universe u v w x

variable {σ : Type u} {α : Type v} {τ : Type w} {β : Type x}

/-- The abstract actions a run from `start` stands for. -/
def interpretation (step : σ → α → σ) (meaning : σ → α → List β) (start : σ) :
    List α → List β
  | [] => []
  | action :: actions =>
      meaning start action ++ interpretation step meaning (step start action) actions

/-- Rule of invariants for runs of one kind of action. -/
theorem run_induction_of_forall {step : σ → α → σ} {P : σ → Prop} {Q : α → Prop}
    (hstep : ∀ state action, Q action → P state → P (step state action)) {start : σ}
    (hstart : P start) {actions : List α} (hactions : ∀ action ∈ actions, Q action) :
    P (run step start actions) := by
  induction actions generalizing start with
  | nil => exact hstart
  | cons action actions ih =>
      obtain ⟨hfirst, hrest⟩ := List.forall_mem_cons.mp hactions
      exact ih (hstep start action hfirst hstart) hrest

section Interpretations

variable {step : σ → α → σ} {meaning : σ → α → List β} {step' : τ → β → τ} {abs : σ → τ}

theorem interpretation_append (start : σ) (first second : List α) :
    interpretation step meaning start (first ++ second) =
      interpretation step meaning start first ++
        interpretation step meaning (run step start first) second := by
  induction first generalizing start with
  | nil => rfl
  | cons action first ih =>
      rw [List.cons_append, interpretation, interpretation, ih, List.append_assoc]
      rfl

theorem interpretation_concat (start : σ) (actions : List α) (action : α) :
    interpretation step meaning start (actions ++ [action]) =
      interpretation step meaning start actions ++ meaning (run step start actions) action := by
  rw [interpretation_append]
  exact congrArg _ (List.append_nil _)

/-- Simulation: if every step does what it stands for, so does every run.  The
steps need to do so in the states an invariant allows only. -/
theorem run_refines {P : σ → Prop} (hkept : ∀ state action, P state → P (step state action))
    (hstep : ∀ state action, P state →
      abs (step state action) = run step' (abs state) (meaning state action))
    {start : σ} (hstart : P start) (actions : List α) :
    abs (run step start actions) =
      run step' (abs start) (interpretation step meaning start actions) := by
  induction actions generalizing start with
  | nil => rfl
  | cons action actions ih =>
      change abs (run step (step start action) actions) = _
      rw [ih (hkept start action hstart), hstep start action hstart]
      exact (run_append step' (abs start) _ _).symm

end Interpretations

end Timeline

/-
Runs of timestamped actions.  A deterministic step function is folded over a
list of actions; the state at the end of a time is the state after the actions
stamped no later than it.
-/
import Mathlib.Data.Fintype.BigOperators

namespace Timeline

universe u v

variable {σ : Type u} {α : Type v}

/-- The state reached by performing `actions` in order. -/
def run (step : σ → α → σ) (start : σ) (actions : List α) : σ :=
  actions.foldl step start

/-- Timestamps never decrease along the list. -/
def Ordered (time : α → ℕ) (actions : List α) : Prop :=
  actions.Pairwise fun earlier later => time earlier ≤ time later

instance (time : α → ℕ) (actions : List α) : Decidable (Ordered time actions) :=
  inferInstanceAs (Decidable (actions.Pairwise _))

/-- The state at the end of `moment`. -/
def stateAt (step : σ → α → σ) (time : α → ℕ) (start : σ) (actions : List α)
    (moment : ℕ) : σ :=
  run step start (actions.filter fun action => time action ≤ moment)

variable (step : σ → α → σ) (time : α → ℕ) (start : σ)

@[simp] theorem run_nil : run step start [] = start := rfl

@[simp] theorem run_concat (actions : List α) (action : α) :
    run step start (actions ++ [action]) = step (run step start actions) action := by
  simp [run]

theorem run_append (first second : List α) :
    run step start (first ++ second) = run step (run step start first) second :=
  List.foldl_append

/-- Rule of invariants: what every step preserves holds after every run. -/
theorem run_induction {step : σ → α → σ} {start : σ} {P : σ → Prop}
    (hstart : P start) (hstep : ∀ state action, P state → P (step state action))
    (actions : List α) : P (run step start actions) := by
  induction actions using List.reverseRecOn with
  | nil => exact hstart
  | append_singleton actions action ih =>
      rw [run_concat]
      exact hstep _ action ih

/-- Nothing stamped later than `moment` is seen at `moment`. -/
theorem stateAt_concat_of_lt (actions : List α) {action : α} {moment : ℕ}
    (hlater : moment < time action) :
    stateAt step time start (actions ++ [action]) moment =
      stateAt step time start actions moment := by
  simp [stateAt, Nat.not_le.mpr hlater]

theorem stateAt_append_of_lt (actions : List α) {later : List α} {moment : ℕ}
    (hlater : ∀ action ∈ later, moment < time action) :
    stateAt step time start (actions ++ later) moment =
      stateAt step time start actions moment := by
  have hnone : later.filter (fun action => time action ≤ moment) = [] := by
    apply List.filter_eq_nil_iff.mpr
    simpa using hlater
  rw [stateAt, stateAt, List.filter_append, hnone, List.append_nil]

theorem stateAt_of_forall_le {actions : List α} {moment : ℕ}
    (hle : ∀ action ∈ actions, time action ≤ moment) :
    stateAt step time start actions moment = run step start actions := by
  rw [stateAt, List.filter_eq_self.mpr]
  simpa using hle

/-- The last action is the latest of all. -/
theorem forall_le_of_last {time : α → ℕ} {actions : List α} {action : α} {moment : ℕ}
    (hordered : ∀ earlier ∈ actions, time earlier ≤ time action)
    (hle : time action ≤ moment) : ∀ a ∈ actions ++ [action], time a ≤ moment := by
  intro a ha
  rcases List.mem_append.mp ha with hearlier | hlast
  · exact Nat.le_trans (hordered a hearlier) hle
  · rw [List.mem_singleton] at hlast
    rwa [hlast]

/-- Up to a moment no earlier than `action`, everything before `action` counts. -/
theorem stateAt_append_cons {first second : List α} {action : α} {moment : ℕ}
    (hordered : Ordered time (first ++ action :: second)) (hle : time action ≤ moment) :
    stateAt step time start (first ++ action :: second) moment =
      run step start (first ++ action :: second.filter fun later => time later ≤ moment) := by
  have hfirst : first.filter (fun earlier => time earlier ≤ moment) = first := by
    apply List.filter_eq_self.mpr
    intro earlier hearlier
    have hbefore := (List.pairwise_append.mp hordered).2.2 earlier hearlier action
      List.mem_cons_self
    simpa using Nat.le_trans hbefore hle
  rw [stateAt, List.filter_append, hfirst, List.filter_cons_of_pos (by simpa using hle)]

theorem Ordered.of_append_left {first second : List α}
    (hordered : Ordered time (first ++ second)) : Ordered time first :=
  (List.pairwise_append.mp hordered).1

theorem ordered_concat_iff {actions : List α} {action : α} :
    Ordered time (actions ++ [action]) ↔
      Ordered time actions ∧ ∀ earlier ∈ actions, time earlier ≤ time action := by
  simp [Ordered, List.pairwise_append]

end Timeline

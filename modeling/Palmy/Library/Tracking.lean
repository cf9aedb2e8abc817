/-
A quantity tracked by a checkpoint history.  Each step either leaves both alone
or records the new value at the moment of the step; then the history answers
for the end of every moment since it was started.
-/
import Palmy.Library.Checkpoint
import Palmy.Library.Timeline

namespace Tracking

open Checkpoint

universe u v w

section Steps

variable {κ : Type u} {ν : Type v} [LinearOrder κ]

/-- What a step made at `moment` does to a history and the value it tracks. -/
inductive Tracked (moment : κ) (history history' : List (κ × ν)) (value value' : ν) : Prop where
  | kept (hhistory : history' = history) (hvalue : value' = value)
  | recorded (hhistory : history' = record history moment value')

variable {moment : κ} {h₀ h₁ h₂ : List (κ × ν)} {v₀ v₁ v₂ : ν}

/-- Two steps of one moment are one step: the later record hides the earlier. -/
theorem Tracked.trans (hfirst : Tracked moment h₀ h₁ v₀ v₁)
    (hsecond : Tracked moment h₁ h₂ v₁ v₂) : Tracked moment h₀ h₂ v₀ v₂ := by
  cases hsecond with
  | kept hhistory hvalue =>
      rw [hhistory, hvalue]
      exact hfirst
  | recorded hhistory =>
      apply Tracked.recorded
      cases hfirst with
      | kept hsame _ => rw [hhistory, hsame]
      | recorded hrecord => rw [hhistory, hrecord, record_record]

theorem Tracked.sorted (h : Tracked moment h₀ h₁ v₀ v₁) (hsorted : Sorted h₀) : Sorted h₁ := by
  cases h with
  | kept hhistory _ => rwa [hhistory]
  | recorded hhistory =>
      rw [hhistory]
      exact sorted_record hsorted _ _

theorem Tracked.forall_le (h : Tracked moment h₀ h₁ v₀ v₁)
    (hle : ∀ entry ∈ h₀, entry.1 ≤ moment) : ∀ entry ∈ h₁, entry.1 ≤ moment := by
  cases h with
  | kept hhistory _ => rwa [hhistory]
  | recorded hhistory =>
      rw [hhistory]
      exact forall_le_record _ hle le_rfl

/-- A history that is empty after the step was so before, and nothing changed. -/
theorem Tracked.of_nil (h : Tracked moment h₀ h₁ v₀ v₁) (hnil : h₁ = []) :
    h₀ = [] ∧ v₁ = v₀ := by
  cases h with
  | kept hhistory hvalue => exact ⟨hhistory.symm.trans hnil, hvalue⟩
  | recorded hhistory =>
      rw [hnil] at hhistory
      exact absurd hhistory.symm (record_ne_nil _ _ _)

/-- What a history says about moments before the step does not change. -/
theorem Tracked.filter_of_lt (h : Tracked moment h₀ h₁ v₀ v₁) {query : κ}
    (hlt : query < moment) :
    h₁.filter (fun entry => entry.1 ≤ query) = h₀.filter fun entry => entry.1 ≤ query := by
  cases h with
  | kept hhistory _ => rw [hhistory]
  | recorded hhistory =>
      rw [hhistory]
      exact filter_record_of_lt h₀ v₁ hlt

theorem Tracked.lookup_of_lt (h : Tracked moment h₀ h₁ v₀ v₁) (default : ν) {query : κ}
    (hlt : query < moment) : lookup default h₁ query = lookup default h₀ query := by
  rw [lookup, lookup, h.filter_of_lt hlt]

/-- A history that answered with the value before the step does so after it. -/
theorem Tracked.lookup_current (h : Tracked moment h₀ h₁ v₀ v₁) (default : ν) {query : κ}
    (hle : moment ≤ query) (hcurrent : lookup default h₀ query = v₀) :
    lookup default h₁ query = v₁ := by
  cases h with
  | kept hhistory hvalue => rw [hhistory, hvalue, hcurrent]
  | recorded hhistory =>
      rw [hhistory]
      exact lookup_record_of_le default h₀ v₁ hle

end Steps

section Runs

variable {σ : Type u} {α : Type v} {ν : Type w} {step : σ → α → σ} {time : α → ℕ} {start : σ}
  (history : σ → List (ℕ × ν)) (value : σ → ν) {actions : List α} {action : α}

/-- One more tracked step: the history still answers for the end of a moment. -/
theorem lookup_stateAt_concat {default : ν} {moment : ℕ}
    (hordered : ∀ earlier ∈ actions, time earlier ≤ time action)
    (htracked : Tracked (time action) (history (Timeline.run step start actions))
      (history (Timeline.run step start (actions ++ [action])))
      (value (Timeline.run step start actions))
      (value (Timeline.run step start (actions ++ [action]))))
    (hprevious : lookup default (history (Timeline.run step start actions)) moment =
      value (Timeline.stateAt step time start actions moment)) :
    lookup default (history (Timeline.run step start (actions ++ [action]))) moment =
      value (Timeline.stateAt step time start (actions ++ [action]) moment) := by
  by_cases hlt : moment < time action
  · rw [Timeline.stateAt_concat_of_lt step time start actions hlt, ← hprevious]
    exact htracked.lookup_of_lt default hlt
  · have hle : time action ≤ moment := Nat.le_of_not_lt hlt
    have hall := Timeline.forall_le_of_last hordered hle
    rw [Timeline.stateAt_of_forall_le step time start hall]
    rw [Timeline.stateAt_of_forall_le step time start fun earlier hearlier =>
      hall earlier (List.mem_append_left _ hearlier)] at hprevious
    exact htracked.lookup_current default hle hprevious

/-- The history at the end of a moment is the part of today's history that is
not later than it. -/
theorem filter_stateAt_concat {moment : ℕ}
    (hordered : ∀ earlier ∈ actions, time earlier ≤ time action)
    (htracked : Tracked (time action) (history (Timeline.run step start actions))
      (history (Timeline.run step start (actions ++ [action])))
      (value (Timeline.run step start actions))
      (value (Timeline.run step start (actions ++ [action]))))
    (hle : ∀ entry ∈ history (Timeline.run step start (actions ++ [action])),
      entry.1 ≤ time action)
    (hprevious : (history (Timeline.run step start actions)).filter
        (fun entry => entry.1 ≤ moment) =
      history (Timeline.stateAt step time start actions moment)) :
    (history (Timeline.run step start (actions ++ [action]))).filter
        (fun entry => entry.1 ≤ moment) =
      history (Timeline.stateAt step time start (actions ++ [action]) moment) := by
  by_cases hlt : moment < time action
  · rw [Timeline.stateAt_concat_of_lt step time start actions hlt, ← hprevious]
    exact htracked.filter_of_lt hlt
  · have hmoment : time action ≤ moment := Nat.le_of_not_lt hlt
    rw [Timeline.stateAt_of_forall_le step time start
      (Timeline.forall_le_of_last hordered hmoment), List.filter_eq_self.mpr]
    intro entry hentry
    simpa using (hle entry hentry).trans hmoment

end Runs

end Tracking

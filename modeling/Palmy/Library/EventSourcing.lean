/-
Logs that tell a part of the state.  A machine appends events to a log; an
observer who sees nothing else keeps a view and changes it at every event.
-/
import Mathlib.Logic.Relation
import Palmy.Library.Timeline

namespace EventSourcing

universe u v w

variable {σ : Type u} {ε : Type v} {ι : Type w}

/-- What the observer makes of a list of events. -/
def replay (observe : ι → ε → ι) (held : ι) (events : List ε) : ι := events.foldl observe held

variable (log : σ → List ε) (view : σ → ι) (observe : ι → ε → ι)

/-- What the log gained takes the view of one state to the view of the other. -/
def Told (s s' : σ) : Prop :=
  ∃ events, log s' = log s ++ events ∧ view s' = replay observe (view s) events

/-- The log gained events of one kind. -/
def Appends (Q : ε → Prop) (s s' : σ) : Prop :=
  ∃ events, log s' = log s ++ events ∧ ∀ event ∈ events, Q event

variable {log : σ → List ε} {view : σ → ι} {observe : ι → ε → ι} {Q : ε → Prop} {s s₁ s' : σ}

theorem replay_append (held : ι) (first second : List ε) :
    replay observe held (first ++ second) = replay observe (replay observe held first) second :=
  List.foldl_append

/-- Events that say nothing to the observer. -/
theorem replay_of_quiet {events : List ε} (hquiet : ∀ event ∈ events, ∀ held,
    observe held event = held) (held : ι) : replay observe held events = held := by
  induction events generalizing held with
  | nil => rfl
  | cons event events ih =>
      obtain ⟨hfirst, hrest⟩ := List.forall_mem_cons.mp hquiet
      change replay observe (observe held event) events = held
      rw [hfirst]
      exact ih hrest held

namespace Appends

theorem of_same (hlog : log s' = log s) : Appends log Q s s' :=
  ⟨[], by rw [hlog, List.append_nil], List.forall_mem_nil _⟩

theorem single {event : ε} (hlog : log s' = log s ++ [event]) (hevent : Q event) :
    Appends log Q s s' :=
  ⟨[event], hlog, List.forall_mem_singleton.mpr hevent⟩

theorem mono {R : ε → Prop} (happends : Appends log Q s s') (hkinds : ∀ event, Q event → R event) :
    Appends log R s s' := by
  obtain ⟨events, hlog, hkind⟩ := happends
  exact ⟨events, hlog, fun event hevent => hkinds event (hkind event hevent)⟩

theorem trans (hfirst : Appends log Q s s₁) (hsecond : Appends log Q s₁ s') :
    Appends log Q s s' := by
  obtain ⟨first, hlog₁, hkind₁⟩ := hfirst
  obtain ⟨second, hlog₂, hkind₂⟩ := hsecond
  refine ⟨first ++ second, ?_, List.forall_mem_append.mpr ⟨hkind₁, hkind₂⟩⟩
  rw [hlog₂, hlog₁, List.append_assoc]

/-- The events gained are determined by the two logs. -/
theorem forall_mem (happends : Appends log Q s s') {events : List ε}
    (hlog : log s' = log s ++ events) : ∀ event ∈ events, Q event := by
  obtain ⟨gained, hgained, hkind⟩ := happends
  rwa [List.append_cancel_left (hlog.symm.trans hgained)]

end Appends

namespace Told

theorem of_same (hlog : log s' = log s) (hview : view s' = view s) : Told log view observe s s' :=
  ⟨[], by rw [hlog, List.append_nil], hview⟩

theorem single {event : ε} (hlog : log s' = log s ++ [event])
    (hview : view s' = observe (view s) event) : Told log view observe s s' :=
  ⟨[event], hlog, hview⟩

/-- One event that matters, after others that say nothing. -/
theorem after_quiet {event : ε} (happends : Appends log Q s s₁)
    (hquiet : ∀ event, Q event → ∀ held, observe held event = held)
    (hlog : log s' = log s₁ ++ [event]) (hview : view s' = observe (view s) event) :
    Told log view observe s s' := by
  obtain ⟨events, hlog₁, hkind⟩ := happends
  refine ⟨events ++ [event], ?_, ?_⟩
  · rw [hlog, hlog₁, List.append_assoc]
  · rw [replay_append, replay_of_quiet fun event hevent => hquiet event (hkind event hevent),
      hview]
    rfl

theorem trans (hfirst : Told log view observe s s₁) (hsecond : Told log view observe s₁ s') :
    Told log view observe s s' := by
  obtain ⟨first, hlog₁, hview₁⟩ := hfirst
  obtain ⟨second, hlog₂, hview₂⟩ := hsecond
  refine ⟨first ++ second, ?_, ?_⟩
  · rw [hlog₂, hlog₁, List.append_assoc]
  · rw [hview₂, hview₁, replay_append]

/-- Steps that are told make a run that is. -/
theorem of_run {step : σ → σ → Prop} (hstep : ∀ s s', step s s' → Told log view observe s s')
    (hrun : Relation.ReflTransGen step s s') : Told log view observe s s' := by
  induction hrun with
  | refl => exact of_same rfl rfl
  | tail _ hlast ih => exact ih.trans (hstep _ _ hlast)

/-- The same for a machine that performs a list of actions. -/
theorem of_actions {α : Type*} {step : σ → α → σ}
    (hstep : ∀ s action, Told log view observe s (step s action)) (s : σ) (actions : List α) :
    Told log view observe s (Timeline.run step s actions) := by
  induction actions generalizing s with
  | nil => exact of_same rfl rfl
  | cons action actions ih => exact (hstep s action).trans (ih (step s action))

/-- An observer who was there from the empty log on holds the view. -/
theorem rebuilds (htold : Told log view observe s s') (hempty : log s = []) :
    replay observe (view s) (log s') = view s' := by
  obtain ⟨events, hlog, hview⟩ := htold
  rw [hlog, hempty, List.nil_append, hview]

end Told

end EventSourcing

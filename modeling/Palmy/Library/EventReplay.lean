/-
Replaying an event log.  An observer holds a map and overwrites one key at
every event that announces a value for it.
-/
import Mathlib.Data.List.Induction

namespace EventReplay

universe u v w

variable {ε : Type u} {κ : Type v} {ν : Type w} [DecidableEq κ] (announces : ε → Option (κ × ν))

/-- What the observer holds after one event. -/
def observe (held : κ → ν) (event : ε) : κ → ν :=
  match announces event with
  | some (key, value) => Function.update held key value
  | none => held

/-- What the observer holds after a log. -/
def replay (held : κ → ν) (events : List ε) : κ → ν := events.foldl (observe announces) held

/-- The value an event announces for one key. -/
def announcedFor (key : κ) (event : ε) : Option ν :=
  (announces event).bind fun announced => if announced.1 = key then some announced.2 else none

/-- The last value a log announces for one key. -/
def lastAnnounced (key : κ) (events : List ε) : Option ν :=
  (events.filterMap (announcedFor announces key)).getLast?

variable {announces}

theorem replay_append (held : κ → ν) (first second : List ε) :
    replay announces held (first ++ second) =
      replay announces (replay announces held first) second :=
  List.foldl_append

theorem observe_apply (held : κ → ν) (event : ε) (key : κ) :
    observe announces held event key = (announcedFor announces key event).getD (held key) := by
  unfold observe announcedFor
  cases announces event with
  | none => rfl
  | some announced =>
      by_cases hkey : announced.1 = key
      · subst hkey
        simp
      · simp [hkey, Function.update_of_ne (Ne.symm hkey)]

/-- The observer holds the last value announced, or what it started from. -/
theorem replay_apply (held : κ → ν) (events : List ε) (key : κ) :
    replay announces held events key = (lastAnnounced announces key events).getD (held key) := by
  induction events using List.reverseRecOn with
  | nil => rfl
  | append_singleton events event ih =>
      rw [replay_append]
      change observe announces _ event key = _
      rw [observe_apply, ih, lastAnnounced, lastAnnounced, List.filterMap_append,
        List.getLast?_append]
      cases hannounced : announcedFor announces key event with
      | none => simp [hannounced]
      | some value => simp [hannounced]

/-- A log that announces nothing leaves the observer as it was. -/
theorem replay_of_silent (held : κ → ν) {events : List ε}
    (hsilent : ∀ event ∈ events, announces event = none) :
    replay announces held events = held := by
  induction events with
  | nil => rfl
  | cons event events ih =>
      change replay announces (observe announces held event) events = held
      have hnone := hsilent event List.mem_cons_self
      have hsame : observe announces held event = held := by simp only [observe, hnone]
      rw [hsame]
      exact ih fun later hlater => hsilent later (List.mem_cons_of_mem _ hlater)

end EventReplay

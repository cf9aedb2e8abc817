/-
The powers that `DelegatedPowerChanged` events announce, as an indexer that
replays the event log sees them.
-/
import Palmy.Library.EventReplay
import Palmy.TokenStorage

namespace Palmy

open Solidity
open EventReplay

/-- The power of one type an event announces: whose it is and how much. -/
def Event.announcedPower (t : DelegationType) : Event → Option (Address × Uint256)
  | .delegatedPowerChanged user amount t' => if t' = t then some (user, amount) else none
  | _ => none

/-- An indexer of the powers of one type after the events. -/
def indexed (t : DelegationType) (powers : Address → Uint256) (events : List Event) :
    Address → Uint256 :=
  replay (Event.announcedPower t) powers events

/-- The amount in the last `DelegatedPowerChanged` event of a user and type. -/
def lastPowerChanged (t : DelegationType) (user : Address) (events : List Event) :
    Option Uint256 :=
  lastAnnounced (Event.announcedPower t) user events

/-- No event is about powers of the type. -/
def Silent (t : DelegationType) (events : List Event) : Prop :=
  ∀ event ∈ events, event.announcedPower t = none

/-- An indexer that holds the powers `w` holds `w'` after the events. -/
def Carries (t : DelegationType) (events : List Event) (w w' : Address → ℕ) : Prop :=
  ∀ powers : Address → Uint256, (∀ user, (powers user).val = w user) →
    ∀ user, (indexed t powers events user).val = w' user

variable {t : DelegationType} {w w₁ w' : Address → ℕ} {first second events : List Event}

theorem Silent.append (hfirst : Silent t first) (hsecond : Silent t second) :
    Silent t (first ++ second) := fun event hevent =>
  (List.mem_append.mp hevent).elim (hfirst event) (hsecond event)

theorem Silent.carries (hsilent : Silent t events) (w : Address → ℕ) : Carries t events w w := by
  intro powers hpowers
  rw [indexed, replay_of_silent powers hsilent]
  exact hpowers

theorem Carries.append (hfirst : Carries t first w w₁) (hsecond : Carries t second w₁ w') :
    Carries t (first ++ second) w w' := by
  intro powers hpowers
  rw [indexed, replay_append]
  exact hsecond _ (hfirst powers hpowers)

theorem Carries.single {user : Address} {amount : Uint256} (huser : amount.val = w' user)
    (hrest : ∀ u ≠ user, w' u = w u) :
    Carries t [.delegatedPowerChanged user amount t] w w' := by
  intro powers hpowers u
  have hindexed : indexed t powers [.delegatedPowerChanged user amount t] =
      Function.update powers user amount := by
    simp [indexed, replay, observe, Event.announcedPower]
  rw [hindexed]
  by_cases hu : u = user
  · subst hu
    rw [Function.update_self]
    exact huser
  · rw [Function.update_of_ne hu, hrest u hu]
    exact hpowers u

theorem silent_of_other {t' : DelegationType} (hne : t' ≠ t) (user : Address)
    (amount : Uint256) : Silent t [.delegatedPowerChanged user amount t'] := by
  intro event hevent
  rw [List.mem_singleton] at hevent
  subst hevent
  exact if_neg hne

/-- What an indexer holds is the power last announced, or the power before. -/
theorem Carries.lastPowerChanged (hcarries : Carries t events w w')
    (hfits : ∀ user, w user < 2 ^ 256) (user : Address) :
    match lastPowerChanged t user events with
    | none => w' user = w user
    | some amount => amount.val = w' user := by
  have hindexed := hcarries (fun u => ⟨w u, hfits u⟩) (fun _ => rfl) user
  rw [indexed, replay_apply] at hindexed
  unfold Palmy.lastPowerChanged
  cases hlast : lastAnnounced (Event.announcedPower t) user events with
  | none =>
      rw [hlast] at hindexed
      exact hindexed.symm
  | some amount =>
      rw [hlast] at hindexed
      exact hindexed

/-- The events of a step that changes powers of one type: they announce those
changes and none of the other type. -/
def Announced (t : DelegationType) (w w' : Address → ℕ) (s s' : Token) : Prop :=
  ∃ events, s'.log = s.log ++ events ∧ Carries t events w w' ∧ ∀ t' ≠ t, Silent t' events

theorem announced_of_sameLog {s s' : Token} (hlog : s'.log = s.log) (w : Address → ℕ) :
    Announced t w w s s' := by
  have hsilent : ∀ t', Silent t' [] := fun _ _ hnone => absurd hnone List.not_mem_nil
  exact ⟨[], by rw [hlog, List.append_nil], (hsilent t).carries w, fun t' _ => hsilent t'⟩

theorem Announced.trans {s s₁ s' : Token} (hfirst : Announced t w w₁ s s₁)
    (hsecond : Announced t w₁ w' s₁ s') : Announced t w w' s s' := by
  obtain ⟨first, hlog₁, hcarries₁, hsilent₁⟩ := hfirst
  obtain ⟨second, hlog₂, hcarries₂, hsilent₂⟩ := hsecond
  refine ⟨first ++ second, ?_, hcarries₁.append hcarries₂, fun t' hne =>
    (hsilent₁ t' hne).append (hsilent₂ t' hne)⟩
  rw [hlog₂, hlog₁, List.append_assoc]

end Palmy

/-
The internal functions that a call runs through.  What composes along them is
checked once for each, and not again for every call.
-/
import Mathlib.Logic.Relation
import Palmy.CallEffects

namespace Palmy

open Solidity
open GovernancePowerDelegation

/-- The hook that `_transfer` and `_mint` run before anything moves. -/
def Implementation.beforeTokenTransfer (env : Env) : Implementation → ERC20.BeforeTokenTransfer
  | .plmyToken => PlmyToken.beforeTokenTransfer env
  | .plmyTokenV2 => PlmyTokenV2.beforeTokenTransfer env

/-- One internal function that went through. -/
inductive InternalStep (implementation : Implementation) (env : Env) (s s' : Token) : Prop where
  | transferred {sender recipient : Address} {amount : Uint256}
      (h : ERC20.transferInternal (implementation.beforeTokenTransfer env) sender recipient amount
        s = .ok s')
  | minted {account : Address} {amount : Uint256}
      (h : ERC20.mint (implementation.beforeTokenTransfer env) account amount s = .ok s')
  | approved {owner spender : Address} {amount : Uint256}
      (h : ERC20.approveInternal owner spender amount s = .ok s')
  | delegated {delegator delegatee : Address} {t : DelegationType}
      (h : delegateByTypeInternal env delegator delegatee t s = .ok s')
  | counted (h : s' = { s with nonces := s'.nonces })
  | revised (h : s' = { s with lastInitializedRevision := PlmyTokenV2.revision })

/-- What a call runs through after the slots are configured, if it does that. -/
abbrev InternalSteps (implementation : Implementation) (env : Env) : Token → Token → Prop :=
  Relation.ReflTransGen (InternalStep implementation env)

section Calls

variable {chain : Chain} {env : Env} {s s' : Token} {call : Call}

theorem ERC20.internalSteps_execute (implementation : Implementation)
    (h : execute (implementation.beforeTokenTransfer env) chain env s call = .ok s') :
    InternalSteps implementation env s s' := by
  cases call with
  | transfer recipient amount => exact .single (.transferred h)
  | approve spender amount => exact .single (.approved h)
  | transferFrom sender recipient amount =>
      obtain ⟨s₁, htransfer, hrest⟩ := bind_eq_ok.mp h
      obtain ⟨remaining, -, happrove⟩ := bind_eq_ok.mp hrest
      exact .tail (.single (.transferred htransfer)) (.approved happrove)
  | increaseAllowance spender addedValue =>
      obtain ⟨raised, -, happrove⟩ := bind_eq_ok.mp h
      exact .single (.approved happrove)
  | decreaseAllowance spender subtractedValue =>
      obtain ⟨lowered, -, happrove⟩ := bind_eq_ok.mp h
      exact .single (.approved happrove)
  | permit owner spender value deadline v r sig =>
      simp only [execute, permit, bind_eq_ok, require_eq_ok, exists_const] at h
      obtain ⟨-, -, -, nextNonce, -, happrove⟩ := h
      exact .tail (.single (.counted rfl)) (.approved happrove)
  | _ => cases h

theorem PlmyTokenV2.DelegationEffect.internalSteps (h : DelegationEffect env s s') :
    InternalSteps .plmyTokenV2 env s s' := by
  cases h with
  | one hnonces hdelegate => exact .tail (.single (.counted hnonces)) (.delegated hdelegate)
  | both hnonces hvoting hproposition =>
      exact .tail (.tail (.single (.counted hnonces)) (.delegated hvoting))
        (.delegated hproposition)

theorem PlmyToken.internalSteps_mint {account : Address} {amount : Uint256}
    (h : (account ≠ 0 ∧ ERC20.mint (beforeTokenTransfer env) account amount s = .ok s') ∨
      (¬ account ≠ 0 ∧ s = s')) : InternalSteps .plmyToken env s s' := by
  rcases h with ⟨-, hmint⟩ | ⟨-, rfl⟩
  · exact .single (.minted hmint)
  · exact .refl

/-- A call starts where it is, or configures a token for the first time. -/
def Token.ConfiguredFrom (chain : Chain) (s s₀ : Token) : Prop :=
  s₀ = s ∨ (s.lastInitializedRevision = 0 ∧
    ∃ palmyGovernance, s₀ = PlmyToken.configured chain palmyGovernance s)

theorem Implementation.internalSteps_execute (implementation : Implementation)
    (h : implementation.execute chain env s call = .ok s') :
    ∃ s₀, s.ConfiguredFrom chain s₀ ∧ InternalSteps implementation env s₀ s' := by
  cases implementation with
  | plmyToken =>
      have h : PlmyToken.execute chain env s call = .ok s' := h
      by_cases hcall : call.isErc20
      · rw [PlmyToken.execute_of_isErc20 chain env s hcall] at h
        exact ⟨s, Or.inl rfl, ERC20.internalSteps_execute .plmyToken h⟩
      cases call with
      | initializeV1 vestingAddress vaultAddress palmyGovernance =>
          have hfirst := (PlmyToken.initializeToken_cases h).1
          simp only [PlmyToken.execute, PlmyToken.initializeToken, initializer, bind_eq_ok,
            require_eq_ok, pure_eq_ok, exists_const, ite_pure_eq_ok] at h
          obtain ⟨s₀, ⟨-, rfl⟩, s₁, hvesting, hvault⟩ := h
          exact ⟨_, Or.inr ⟨hfirst, palmyGovernance, rfl⟩,
            (PlmyToken.internalSteps_mint hvesting).trans (PlmyToken.internalSteps_mint hvault)⟩
      | initializeV2 | delegateByType | delegate | delegateByTypeBySig | delegateBySig => cases h
      | _ => exact absurd rfl hcall
  | plmyTokenV2 =>
      have h : PlmyTokenV2.execute chain env s call = .ok s' := h
      refine ⟨s, Or.inl rfl, ?_⟩
      by_cases hcall : call.isErc20
      · rw [PlmyTokenV2.execute_of_isErc20 chain env s hcall] at h
        exact ERC20.internalSteps_execute .plmyTokenV2 h
      rcases PlmyTokenV2.other_cases hcall h with ⟨-, hinit⟩ | heffect
      · simp only [PlmyTokenV2.initializeToken, initializer, bind_eq_ok, require_eq_ok,
          pure_eq_ok, exists_const] at hinit
        obtain ⟨-, rfl⟩ := hinit
        exact .single (.revised rfl)
      · exact heffect.internalSteps

end Calls

end Palmy

/-
What leaves an account by the hand of others is charged to their allowances,
unit by unit.  The log says how much left.
-/
import Palmy.PlmyLedger
import Palmy.TokenEvents

namespace Palmy

open Solidity
open EventSourcing
open GovernancePowerDelegation

/-- A call of `caller` charges its allowance on `account` with all that the log
says the account sent, and no other allowance. -/
structure Charged (account caller : Address) (s s' : Token) : Prop where
  others : ∀ spender ≠ caller, s'.allowances account spender = s.allowances account spender
  charged : (s'.allowances account caller).val + sent account s'.log =
    (s.allowances account caller).val + sent account s.log
  grows : sent account s.log ≤ sent account s'.log

namespace Charged

variable {account caller : Address} {s s₁ s' : Token}

theorem trans (hfirst : Charged account caller s s₁) (hsecond : Charged account caller s₁ s') :
    Charged account caller s s' where
  others spender hne := (hsecond.others spender hne).trans (hfirst.others spender hne)
  charged := hsecond.charged.trans hfirst.charged
  grows := hfirst.grows.trans hsecond.grows

theorem of_kept (hallowances : s'.allowances account = s.allowances account)
    (hsent : sent account s'.log = sent account s.log) : Charged account caller s s' where
  others spender _ := congrFun hallowances spender
  charged := by rw [hallowances, hsent]
  grows := hsent.ge

theorem refl (s : Token) : Charged account caller s s := .of_kept rfl rfl

theorem of_power (hallowances : s'.allowances = s.allowances) (hpower : AnnouncesPower s s') :
    Charged account caller s s' :=
  .of_kept (congrFun hallowances account) (hpower.sent account)

/-- Who was allowed nothing took nothing. -/
theorem of_unapproved (h : Charged account caller s s')
    (hunapproved : s.allowances account caller = 0) :
    s'.allowances account = s.allowances account ∧ sent account s'.log = sent account s.log := by
  have hcharged := h.charged
  have hgrows := h.grows
  rw [hunapproved] at hcharged
  have hzero : (s'.allowances account caller).val = 0 := by
    change _ + _ = 0 + _ at hcharged
    omega
  refine ⟨?_, ?_⟩
  · funext spender
    by_cases heq : spender = caller
    · rw [heq, hunapproved]
      exact Fin.ext hzero
    · exact h.others spender heq
  · change _ + _ = 0 + _ at hcharged
    omega

theorem of_event {event : Event} (hallowances : s'.allowances account = s.allowances account)
    (hlog : s'.log = s.log ++ [event]) (hdebit : event.debit account = 0) :
    Charged account caller s s' := by
  apply of_kept hallowances
  rw [hlog, sent_append, sent_singleton, hdebit, Nat.add_zero]

end Charged

section Calls

variable {chain : Chain} {env : Env} {account caller : Address} {s s₁ s' : Token}
  {sender recipient : Address} {amount : Uint256} {beforeTokenTransfer : ERC20.BeforeTokenTransfer}

theorem ERC20.charged_approveInternal {owner spender : Address}
    (h : approveInternal owner spender amount s = .ok s') (hne : owner ≠ account) :
    Charged account caller s s' := by
  refine .of_event ?_ (log_approveInternal h) rfl
  simp only [approveInternal, bind_eq_ok, require_eq_ok, pure_eq_ok, exists_const] at h
  obtain ⟨-, -, rfl⟩ := h
  exact Function.update_of_ne hne.symm _ _

theorem ERC20.transferInternal_books (hhook : Discreet beforeTokenTransfer)
    (h : transferInternal beforeTokenTransfer sender recipient amount s = .ok s') :
    s'.allowances = s.allowances ∧
      sent account s'.log = sent account s.log + if sender = account then amount.val else 0 := by
  obtain ⟨-, -, s₁, hbefore, -, -, -⟩ := transferInternal_cases h
  refine ⟨(transferInternal_kept hhook.snapshots h).2.2.1, ?_⟩
  rw [log_transferInternal h hbefore, sent_append, (hhook.power hbefore).sent, sent_singleton]
  rfl

theorem ERC20.charged_transferInternal (hhook : Discreet beforeTokenTransfer)
    (h : transferInternal beforeTokenTransfer sender recipient amount s = .ok s')
    (hne : sender ≠ account) : Charged account caller s s' := by
  obtain ⟨hallowances, hsent⟩ := transferInternal_books hhook h
  rw [if_neg hne, Nat.add_zero] at hsent
  exact .of_kept (congrFun hallowances account) hsent

/-- The one call that makes an account send by another's hand. -/
theorem ERC20.charged_transferFrom (hhook : Discreet beforeTokenTransfer)
    (h : transferFrom beforeTokenTransfer env sender recipient amount s = .ok s') :
    Charged account env.msgSender s s' := by
  simp only [transferFrom, bind_eq_ok, SafeMath.subOr_eq_ok] at h
  obtain ⟨s₁, htransfer, remaining, ⟨hallowed, hremaining⟩, happrove⟩ := h
  by_cases hsender : sender = account
  · subst hsender
    obtain ⟨hallowances, hsent⟩ := transferInternal_books hhook htransfer
    rw [if_pos rfl] at hsent
    have hlog := log_approveInternal happrove
    simp only [approveInternal, bind_eq_ok, require_eq_ok, pure_eq_ok, exists_const] at happrove
    obtain ⟨-, -, rfl⟩ := happrove
    have hle : amount.val ≤ (s₁.allowances sender env.msgSender).val := hallowed
    refine ⟨?_, ?_, ?_⟩
    · intro spender hne
      change Function.update s₁.allowances sender _ sender spender = _
      rw [Function.update_self, Function.update_of_ne hne, hallowances]
    · change (Function.update s₁.allowances sender _ sender env.msgSender).val + _ = _
      rw [Function.update_self, Function.update_self, hlog, sent_append, sent_singleton, hsent,
        hremaining, ← hallowances]
      change _ + (_ + 0) = _
      omega
    · rw [hlog, sent_append, hsent]
      omega
  · exact (charged_transferInternal hhook htransfer hsender).trans
      (charged_approveInternal happrove hsender)

theorem charged_mint (hhook : ERC20.Discreet beforeTokenTransfer)
    (h : ERC20.mint beforeTokenTransfer recipient amount s = .ok s') (haccount : account ≠ 0) :
    Charged account caller s s' := by
  simp only [ERC20.mint, bind_eq_ok, require_eq_ok, pure_eq_ok, exists_const] at h
  obtain ⟨-, s₁, hbefore, supply, -, credited, -, rfl⟩ := h
  refine Charged.trans (.of_power (hhook.snapshots hbefore).allowances (hhook.power hbefore))
    (.of_event rfl rfl ?_)
  exact if_neg haccount.symm

theorem charged_delegateByTypeInternal {delegator delegatee : Address} {t : DelegationType}
    (h : delegateByTypeInternal env delegator delegatee t s = .ok s') :
    Charged account caller s s' := by
  have hallowances := (sameLedger_delegateByTypeInternal h).allowances
  obtain ⟨s₁, -, hpower, rfl⟩ := announcesPower_delegateByTypeInternal h
  have hfirst : Charged account caller s s₁ := .of_power hallowances hpower
  exact hfirst.trans (.of_event rfl rfl rfl)

theorem charged_of_nonces (h : s' = { s with nonces := s'.nonces }) :
    Charged account caller s s' := by
  rw [h]
  exact .of_kept rfl rfl

section Execution

variable {call : Call} (haccount : account ≠ 0) (hsender : env.msgSender ≠ account)
  (hunsigned : ∀ signed, call.signed chain s = some signed → signed.signer ≠ account)
include hsender hunsigned

theorem ERC20.charged_execute (hhook : Discreet beforeTokenTransfer)
    (h : execute beforeTokenTransfer chain env s call = .ok s') :
    Charged account env.msgSender s s' := by
  cases call with
  | transfer recipient amount => exact charged_transferInternal hhook h hsender
  | approve spender amount => exact charged_approveInternal h hsender
  | transferFrom sender recipient amount => exact charged_transferFrom hhook h
  | increaseAllowance spender addedValue =>
      obtain ⟨raised, -, happrove⟩ := bind_eq_ok.mp h
      exact charged_approveInternal happrove hsender
  | decreaseAllowance spender subtractedValue =>
      obtain ⟨lowered, -, happrove⟩ := bind_eq_ok.mp h
      exact charged_approveInternal happrove hsender
  | permit owner spender value deadline v r sig =>
      simp only [execute, permit, bind_eq_ok, require_eq_ok, exists_const] at h
      obtain ⟨-, -, hsigner, nextNonce, -, happrove⟩ := h
      have hne : owner ≠ account := fun heq => hunsigned _ rfl (hsigner.symm.trans heq)
      exact (charged_of_nonces rfl).trans (charged_approveInternal happrove hne)
  | _ => cases h

theorem PlmyTokenV2.charged_execute (h : execute chain env s call = .ok s') :
    Charged account env.msgSender s s' := by
  by_cases hcall : call.isErc20
  · rw [execute_of_isErc20 chain env s hcall] at h
    exact ERC20.charged_execute hsender hunsigned (discreet env) h
  rcases other_cases hcall h with ⟨-, hinit⟩ | heffect
  · simp only [initializeToken, initializer, bind_eq_ok, require_eq_ok, pure_eq_ok,
      exists_const] at hinit
    obtain ⟨-, rfl⟩ := hinit
    exact .of_kept rfl rfl
  cases heffect with
  | one hnonces hdelegate =>
      exact (charged_of_nonces hnonces).trans (charged_delegateByTypeInternal hdelegate)
  | both hnonces hvoting hproposition =>
      exact ((charged_of_nonces hnonces).trans (charged_delegateByTypeInternal hvoting)).trans
        (charged_delegateByTypeInternal hproposition)

include haccount

theorem PlmyToken.charged_execute (h : execute chain env s call = .ok s') :
    Charged account env.msgSender s s' := by
  by_cases hcall : call.isErc20
  · rw [execute_of_isErc20 chain env s hcall] at h
    exact ERC20.charged_execute hsender hunsigned (discreet env) h
  cases call with
  | initializeV1 vestingAddress vaultAddress palmyGovernance =>
      simp only [execute, initializeToken, initializer, bind_eq_ok, require_eq_ok, pure_eq_ok,
        exists_const, ite_pure_eq_ok] at h
      obtain ⟨_, ⟨-, rfl⟩, s₁, hvesting, hvault⟩ := h
      have hconfigured : Charged account env.msgSender s (configured chain palmyGovernance s) :=
        .of_kept rfl rfl
      have hfirst : Charged account env.msgSender s s₁ := by
        rcases hvesting with ⟨-, hmint⟩ | ⟨-, rfl⟩
        · exact hconfigured.trans (charged_mint (discreet env) hmint haccount)
        · exact hconfigured
      rcases hvault with ⟨-, hmint⟩ | ⟨-, rfl⟩
      · exact hfirst.trans (charged_mint (discreet env) hmint haccount)
      · exact hfirst
  | initializeV2 | delegateByType | delegate | delegateByTypeBySig | delegateBySig => cases h
  | _ => exact absurd rfl hcall

theorem Implementation.charged_execute (implementation : Implementation)
    (h : implementation.execute chain env s call = .ok s') :
    Charged account env.msgSender s s' := by
  cases implementation with
  | plmyToken => exact PlmyToken.charged_execute haccount hsender hunsigned h
  | plmyTokenV2 => exact PlmyTokenV2.charged_execute hsender hunsigned h

end Execution

end Calls

theorem Proxy.charged_step {chain : Chain} {account : Address} {p : Proxy} {tx : Tx}
    (haccount : account ≠ 0) (hsender : tx.env.msgSender ≠ account)
    (hunsigned : ∀ digest v r sig, chain.ecrecover digest v r sig ≠ account) :
    Charged account tx.env.msgSender p.token (step chain p tx).token := by
  obtain ⟨env, action⟩ := tx
  cases action with
  | upgradeTo implementation => exact .refl p.token
  | call call =>
      cases houtcome : execute chain p ⟨env, .call call⟩ with
      | error e =>
          rw [step, houtcome]
          exact .refl p.token
      | ok p' =>
          rw [step, houtcome]
          simp only [execute, bind_eq_ok, pure_eq_ok] at houtcome
          obtain ⟨token, hcall, rfl⟩ := houtcome
          refine p.implementation.charged_execute haccount hsender ?_ hcall
          intro signed hsigned
          exact Call.signer_ne hunsigned hsigned

end Palmy

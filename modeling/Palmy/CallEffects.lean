/-
What one successful call can do, said once for each implementation.  Every
invariant below is checked against these cases and never unfolds a call.
-/
import Palmy.Proxy
import Palmy.TokenLedger

namespace Palmy

open Solidity
open Delegation
open Token

/-- What a successful `_mint` does. -/
structure Minted (beforeTokenTransfer : ERC20.BeforeTokenTransfer) (account : Address)
    (amount : Uint256) (s s' : Token) : Prop where
  account_ne_zero : account ≠ 0
  hook : ∃ s₁, beforeTokenTransfer 0 account amount s = .ok s₁ ∧
    s' = { s₁ with
      balances := s'.balances, totalSupply := s'.totalSupply, log := s'.log } ∧
    s'.totalSupply.val = s₁.totalSupply.val + amount.val ∧
    ∀ x, s'.holdings x = s₁.holdings x + (if account = x then amount.val else 0)

theorem ERC20.minted_of_mint {beforeTokenTransfer : ERC20.BeforeTokenTransfer}
    {account : Address} {amount : Uint256} {s s' : Token}
    (h : ERC20.mint beforeTokenTransfer account amount s = .ok s') :
    Minted beforeTokenTransfer account amount s s' := by
  simp only [ERC20.mint, bind_eq_ok, require_eq_ok, pure_eq_ok, exists_const,
    SafeMath.add_eq_ok] at h
  obtain ⟨haccount, s₁, hbefore, supply, hsupply, credited, hcredited, rfl⟩ := h
  refine ⟨haccount, s₁, hbefore, rfl, hsupply, ?_⟩
  intro x
  change (Function.update s₁.balances account credited x).val = _
  by_cases heq : account = x
  · subst heq
    rw [Function.update_self, if_pos rfl, hcredited]
    rfl
  · rw [Function.update_of_ne (Ne.symm heq), if_neg heq, Nat.add_zero]
    rfl

/-- An optional mint of `initialize`: skipped when the account is zero. -/
def MintedIfSet (beforeTokenTransfer : ERC20.BeforeTokenTransfer) (account : Address)
    (amount : Uint256) (s s' : Token) : Prop :=
  Minted beforeTokenTransfer account amount s s' ∨ account = 0 ∧ s' = s

/-- The six calls both implementations answer. -/
def Call.isErc20 : Call → Bool
  | .transfer .. | .approve .. | .transferFrom .. | .increaseAllowance ..
  | .decreaseAllowance .. | .permit .. => true
  | _ => false

namespace ERC20

/-- The answers to the six calls, which differ between the implementations in
the transfer hook only. -/
def execute (beforeTokenTransfer : BeforeTokenTransfer) (chain : Chain) (env : Env) (s : Token) :
    Call → Result Token
  | .transfer recipient amount => transfer beforeTokenTransfer env recipient amount s
  | .approve spender amount => approve env spender amount s
  | .transferFrom sender recipient amount =>
      transferFrom beforeTokenTransfer env sender recipient amount s
  | .increaseAllowance spender addedValue => increaseAllowance env spender addedValue s
  | .decreaseAllowance spender subtractedValue => decreaseAllowance env spender subtractedValue s
  | .permit owner spender value deadline v r sig =>
      permit chain env owner spender value deadline v r sig s
  | _ => .error .silent

theorem effect_of_execute {beforeTokenTransfer : BeforeTokenTransfer} {chain : Chain} {env : Env}
    {s s' : Token} {call : Call} (h : execute beforeTokenTransfer chain env s call = .ok s') :
    Erc20Effect beforeTokenTransfer s s' := by
  cases call with
  | transfer recipient amount => exact transfer_effect h
  | approve spender amount => exact approve_effect h
  | transferFrom sender recipient amount => exact transferFrom_effect h
  | increaseAllowance spender addedValue => exact increaseAllowance_effect h
  | decreaseAllowance spender subtractedValue => exact decreaseAllowance_effect h
  | permit owner spender value deadline v r sig => exact permit_effect h
  | _ => cases h

end ERC20

namespace PlmyToken

/-- What `initialize` has written when it starts to mint. -/
def configured (chain : Chain) (palmyGovernance : Address) (s : Token) : Token :=
  { s with
    lastInitializedRevision := revision
    domainSeparator := domainSeparatorOf chain
    name := nameOfToken
    symbol := symbolOfToken
    decimals := decimalsOfToken
    palmyGovernance := palmyGovernance }

/-- A successful `initialize` of V1 is the first of all, and mints twice. -/
theorem initializeToken_cases {chain : Chain} {env : Env}
    {vestingAddress vaultAddress palmyGovernance : Address} {s s' : Token}
    (h : initializeToken chain env vestingAddress vaultAddress palmyGovernance s = .ok s') :
    s.lastInitializedRevision = 0 ∧ ∃ s₁,
      MintedIfSet (beforeTokenTransfer env) vestingAddress distributionAmount
        (configured chain palmyGovernance s) s₁ ∧
      MintedIfSet (beforeTokenTransfer env) vaultAddress incentiveAmount s₁ s' := by
  simp only [initializeToken, initializer, bind_eq_ok, require_eq_ok, pure_eq_ok,
    exists_const, ite_pure_eq_ok] at h
  obtain ⟨s₀, ⟨hrevision, rfl⟩, s₁, hvesting, hvault⟩ := h
  refine ⟨?_, s₁, ?_, ?_⟩
  · have hlt : s.lastInitializedRevision.val < 1 := hrevision
    exact Fin.ext (by change s.lastInitializedRevision.val = 0; omega)
  · rcases hvesting with ⟨-, hmint⟩ | ⟨hzero, hskip⟩
    · exact Or.inl (ERC20.minted_of_mint hmint)
    · exact Or.inr ⟨not_not.mp hzero, hskip.symm⟩
  · rcases hvault with ⟨-, hmint⟩ | ⟨hzero, hskip⟩
    · exact Or.inl (ERC20.minted_of_mint hmint)
    · exact Or.inr ⟨not_not.mp hzero, hskip.symm⟩

theorem execute_of_isErc20 (chain : Chain) (env : Env) (s : Token) {call : Call}
    (hcall : call.isErc20) :
    execute chain env s call = ERC20.execute (beforeTokenTransfer env) chain env s call := by
  cases call <;> first | rfl | cases hcall

theorem erc20Effect_of_execute {chain : Chain} {env : Env} {s s' : Token} {call : Call}
    (hcall : call.isErc20) (h : execute chain env s call = .ok s') :
    Erc20Effect (beforeTokenTransfer env) s s' := by
  rw [execute_of_isErc20 chain env s hcall] at h
  exact ERC20.effect_of_execute h

/-- A successful call of V1 initialises or is an ERC20 call. -/
theorem execute_cases {chain : Chain} {env : Env} {s s' : Token} {call : Call}
    (h : execute chain env s call = .ok s') :
    (∃ vestingAddress vaultAddress palmyGovernance,
      call = .initializeV1 vestingAddress vaultAddress palmyGovernance ∧
      initializeToken chain env vestingAddress vaultAddress palmyGovernance s = .ok s') ∨
    Erc20Effect (beforeTokenTransfer env) s s' := by
  by_cases hcall : call.isErc20
  · exact Or.inr (erc20Effect_of_execute hcall h)
  cases call with
  | initializeV1 vestingAddress vaultAddress palmyGovernance =>
      exact Or.inl ⟨_, _, _, rfl, h⟩
  | initializeV2 | delegateByType | delegate | delegateByTypeBySig | delegateBySig =>
      cases h
  | _ => exact absurd rfl hcall

end PlmyToken

namespace PlmyTokenV2

open GovernancePowerDelegation

/-- What a successful delegation does, signed or not: one type or both, after at
most a nonce was spent. -/
inductive DelegationEffect (env : Env) (s s' : Token) : Prop where
  | one {delegator delegatee : Address} {t : DelegationType} {s₁ : Token}
      (hnonces : s₁ = { s with nonces := s₁.nonces })
      (hdelegate : delegateByTypeInternal env delegator delegatee t s₁ = .ok s')
  | both {delegator delegatee : Address} {s₁ s₂ : Token}
      (hnonces : s₁ = { s with nonces := s₁.nonces })
      (hvoting : delegateByTypeInternal env delegator delegatee .votingPower s₁ = .ok s₂)
      (hproposition :
        delegateByTypeInternal env delegator delegatee .propositionPower s₂ = .ok s')

theorem spendNonce_rest {env : Env} {signatory : Address} {nonce expiry : Uint256}
    {s s' : Token} (h : spendNonce env signatory nonce expiry s = .ok s') :
    s' = { s with nonces := s'.nonces } := by
  simp only [spendNonce, bind_eq_ok, require_eq_ok, pure_eq_ok, exists_const] at h
  obtain ⟨-, nextNonce, -, -, -, rfl⟩ := h
  rfl

theorem execute_of_isErc20 (chain : Chain) (env : Env) (s : Token) {call : Call}
    (hcall : call.isErc20) :
    execute chain env s call = ERC20.execute (beforeTokenTransfer env) chain env s call := by
  cases call <;> first | rfl | cases hcall

theorem erc20Effect_of_execute {chain : Chain} {env : Env} {s s' : Token} {call : Call}
    (hcall : call.isErc20) (h : execute chain env s call = .ok s') :
    Erc20Effect (beforeTokenTransfer env) s s' := by
  rw [execute_of_isErc20 chain env s hcall] at h
  exact ERC20.effect_of_execute h

/-- A successful call of V2 beyond the ERC20 ones takes the revision or delegates. -/
theorem other_cases {chain : Chain} {env : Env} {s s' : Token} {call : Call}
    (hcall : ¬ call.isErc20) (h : execute chain env s call = .ok s') :
    (call = .initializeV2 ∧ initializeToken s = .ok s') ∨ DelegationEffect env s s' := by
  cases call with
  | initializeV1 => cases h
  | initializeV2 => exact Or.inl ⟨rfl, h⟩
  | delegateByType delegatee t => exact Or.inr (.one rfl h)
  | delegate delegatee =>
      simp only [execute, delegate, bind_eq_ok] at h
      obtain ⟨s₂, hvoting, hproposition⟩ := h
      exact Or.inr (.both rfl hvoting hproposition)
  | delegateByTypeBySig delegatee t nonce expiry v r sig =>
      simp only [execute, delegateByTypeBySig, bind_eq_ok] at h
      obtain ⟨s₁, hspend, hdelegate⟩ := h
      exact Or.inr (.one (spendNonce_rest hspend) hdelegate)
  | delegateBySig delegatee nonce expiry v r sig =>
      simp only [execute, delegateBySig, bind_eq_ok] at h
      obtain ⟨s₁, hspend, s₂, hvoting, hproposition⟩ := h
      exact Or.inr (.both (spendNonce_rest hspend) hvoting hproposition)
  | _ => exact absurd rfl hcall

/-- A successful call of V2 takes the revision, is an ERC20 call, or delegates. -/
theorem execute_cases {chain : Chain} {env : Env} {s s' : Token} {call : Call}
    (h : execute chain env s call = .ok s') :
    (call = .initializeV2 ∧ initializeToken s = .ok s') ∨
    Erc20Effect (beforeTokenTransfer env) s s' ∨ DelegationEffect env s s' := by
  by_cases hcall : call.isErc20
  · exact Or.inr (Or.inl (erc20Effect_of_execute hcall h))
  · exact (other_cases hcall h).imp_right Or.inr

end PlmyTokenV2

/-- Balances, allowances, supply, revision, hook and domain stay; delegatees,
snapshots, nonces, log and ghost may change. -/
structure SameLedger (s s' : Token) : Prop where
  balances : s'.balances = s.balances
  allowances : s'.allowances = s.allowances
  totalSupply : s'.totalSupply = s.totalSupply
  lastInitializedRevision : s'.lastInitializedRevision = s.lastInitializedRevision
  palmyGovernance : s'.palmyGovernance = s.palmyGovernance
  domainSeparator : s'.domainSeparator = s.domainSeparator

theorem SameLedger.trans {s t u : Token} (hfirst : SameLedger s t)
    (hsecond : SameLedger t u) : SameLedger s u where
  balances := hsecond.balances.trans hfirst.balances
  allowances := hsecond.allowances.trans hfirst.allowances
  totalSupply := hsecond.totalSupply.trans hfirst.totalSupply
  lastInitializedRevision :=
    hsecond.lastInitializedRevision.trans hfirst.lastInitializedRevision
  palmyGovernance := hsecond.palmyGovernance.trans hfirst.palmyGovernance
  domainSeparator := hsecond.domainSeparator.trans hfirst.domainSeparator

theorem SameLedger.holdings {s s' : Token} (h : SameLedger s s') :
    s'.holdings = s.holdings := by
  funext account
  rw [Token.holdings, Token.holdings, h.balances]

theorem sameLedger_of_onlySnapshots {s s' : Token} (h : OnlySnapshots s s') :
    SameLedger s s' :=
  ⟨h.balances, h.allowances, h.totalSupply, h.lastInitializedRevision, h.palmyGovernance,
    h.domainSeparator⟩

namespace GovernancePowerDelegation

/-- A delegation writes one delegatee and then only snapshots. -/
theorem delegateByTypeInternal_cases {env : Env} {delegator delegatee : Address}
    {t : DelegationType} {s s' : Token}
    (h : delegateByTypeInternal env delegator delegatee t s = .ok s') :
    delegatee ≠ 0 ∧ ∃ s₂,
      moveDelegatesByType env (getDelegatee delegator (s.delegates t)) delegatee
        (s.balances delegator) t
        (s.setDelegates t (Function.update (s.delegates t) delegator delegatee)) = .ok s₂ ∧
      s' = s₂.emit (.delegateChanged delegator delegatee t) := by
  simp only [delegateByTypeInternal, bind_eq_ok, require_eq_ok, pure_eq_ok, exists_const] at h
  obtain ⟨hdelegatee, s₂, hmove, rfl⟩ := h
  exact ⟨hdelegatee, s₂, hmove, rfl⟩

/-- A delegation stores one delegatee of one type. -/
theorem delegates_delegateByTypeInternal {env : Env} {delegator delegatee : Address}
    {t : DelegationType} {s s' : Token}
    (h : delegateByTypeInternal env delegator delegatee t s = .ok s') :
    s'.delegates t = Function.update (s.delegates t) delegator delegatee ∧
      ∀ t' ≠ t, s'.delegates t' = s.delegates t' := by
  obtain ⟨-, s₂, hmove, hemit⟩ := delegateByTypeInternal_cases h
  have hframe := (onlySnapshots_moveDelegatesByType hmove).trans
    (Token.onlySnapshots_emit s₂ (.delegateChanged delegator delegatee t))
  rw [← hemit] at hframe
  constructor
  · rw [hframe.delegates, Token.delegates_setDelegates]
  · intro t' hne
    rw [hframe.delegates, Token.delegates_setDelegates_of_ne hne]

theorem sameLedger_setDelegates (s : Token) (t : DelegationType)
    (delegates : Address → Address) : SameLedger s (s.setDelegates t delegates) := by
  cases t <;> exact ⟨rfl, rfl, rfl, rfl, rfl, rfl⟩

theorem sameLedger_delegateByTypeInternal {env : Env} {delegator delegatee : Address}
    {t : DelegationType} {s s' : Token}
    (h : delegateByTypeInternal env delegator delegatee t s = .ok s') : SameLedger s s' := by
  obtain ⟨-, s₂, hmove, rfl⟩ := delegateByTypeInternal_cases h
  have hsnapshots := (onlySnapshots_moveDelegatesByType hmove).trans (onlySnapshots_emit s₂
    (.delegateChanged delegator delegatee t))
  exact (sameLedger_setDelegates s t _).trans (sameLedger_of_onlySnapshots hsnapshots)

theorem sameLedger_of_nonces {s s' : Token} (h : s' = { s with nonces := s'.nonces }) :
    SameLedger s s' := by
  rw [h]
  exact ⟨rfl, rfl, rfl, rfl, rfl, rfl⟩

end GovernancePowerDelegation

theorem PlmyTokenV2.DelegationEffect.sameLedger {env : Env} {s s' : Token}
    (h : DelegationEffect env s s') : SameLedger s s' := by
  cases h with
  | one hnonces hdelegate =>
      exact (GovernancePowerDelegation.sameLedger_of_nonces hnonces).trans
        (GovernancePowerDelegation.sameLedger_delegateByTypeInternal hdelegate)
  | both hnonces hvoting hproposition =>
      exact ((GovernancePowerDelegation.sameLedger_of_nonces hnonces).trans
        (GovernancePowerDelegation.sameLedger_delegateByTypeInternal hvoting)).trans
        (GovernancePowerDelegation.sameLedger_delegateByTypeInternal hproposition)

end Palmy

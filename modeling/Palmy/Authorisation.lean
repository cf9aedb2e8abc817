/-
Who may touch an account.  A call by somebody else that the account did not
sign leaves its nonce and its delegatees alone and can only draw on the
allowance of the caller.
-/
import Palmy.SignedCalls

namespace Palmy

open Solidity
open Delegation
open Token
open GovernancePowerDelegation

/-- All that `caller` may do to `account`: spend what the allowance covers. -/
structure DrawsOnAllowance (account caller : Address) (s s' : Token) : Prop where
  nonce : s'.nonces account = s.nonces account
  delegatee : ∀ t, s'.delegates t account = s.delegates t account
  others : ∀ spender ≠ caller, s'.allowances account spender = s.allowances account spender
  allowance : s'.allowances account caller ≤ s.allowances account caller
  balance : s.holdings account + (s'.allowances account caller).val ≤
    s'.holdings account + (s.allowances account caller).val

namespace DrawsOnAllowance

variable {account caller : Address} {s s₁ s' : Token}

theorem trans (hfirst : DrawsOnAllowance account caller s s₁)
    (hsecond : DrawsOnAllowance account caller s₁ s') :
    DrawsOnAllowance account caller s s' where
  nonce := hsecond.nonce.trans hfirst.nonce
  delegatee t := (hsecond.delegatee t).trans (hfirst.delegatee t)
  others spender hne := (hsecond.others spender hne).trans (hfirst.others spender hne)
  allowance := hsecond.allowance.trans hfirst.allowance
  balance := by
    have hbefore := hfirst.balance
    have hafter := hsecond.balance
    omega

theorem of_kept (hnonce : s'.nonces account = s.nonces account)
    (hdelegatee : ∀ t, s'.delegates t account = s.delegates t account)
    (hallowances : s'.allowances account = s.allowances account)
    (hbalance : s.holdings account ≤ s'.holdings account) :
    DrawsOnAllowance account caller s s' where
  nonce := hnonce
  delegatee := hdelegatee
  others spender _ := congrFun hallowances spender
  allowance := (congrFun hallowances caller).le
  balance := by
    rw [hallowances]
    exact Nat.add_le_add_right hbalance _

/-- Snapshots are nobody's property. -/
theorem of_onlySnapshots (h : OnlySnapshots s s') : DrawsOnAllowance account caller s s' :=
  .of_kept (by rw [h.nonces]) (fun t => by rw [h.delegates]) (by rw [h.allowances])
    (by rw [h.holdings])

end DrawsOnAllowance

section Calls

variable {account caller : Address} {s s' : Token}

theorem ERC20.draws_approveInternal {owner spender : Address} {amount : Uint256}
    (h : approveInternal owner spender amount s = .ok s') (hne : owner ≠ account) :
    DrawsOnAllowance account caller s s' := by
  simp only [approveInternal, bind_eq_ok, require_eq_ok, pure_eq_ok, exists_const] at h
  obtain ⟨-, -, rfl⟩ := h
  refine .of_kept rfl (fun t => by cases t <;> rfl) ?_ le_rfl
  exact Function.update_of_ne hne.symm _ _

section Transfers

variable {beforeTokenTransfer : ERC20.BeforeTokenTransfer} {env : Env}
  {sender recipient : Address} {amount : Uint256}
  (hframe : ERC20.TakesSnapshotsOnly beforeTokenTransfer)
include hframe

/-- A transfer writes balances and snapshots, and nobody but the sender loses. -/
theorem ERC20.transferInternal_kept
    (h : ERC20.transferInternal beforeTokenTransfer sender recipient amount s = .ok s') :
    s'.nonces = s.nonces ∧ (∀ t, s'.delegates t = s.delegates t) ∧
      s'.allowances = s.allowances ∧
      ∀ a, s.holdings a ≤ s'.holdings a + (if sender = a then amount.val else 0) := by
  obtain ⟨-, -, s₁, hbefore, -, hrest, hmoved⟩ := ERC20.transferInternal_cases h
  have hsnapshots := hframe hbefore
  refine ⟨?_, fun t => ?_, ?_, fun a => ?_⟩
  · rw [hrest]
    exact hsnapshots.nonces
  · rw [hrest, ← hsnapshots.delegates t]
    cases t <;> rfl
  · rw [hrest]
    exact hsnapshots.allowances
  · have hat := hmoved a
    rw [hsnapshots.holdings] at hat
    exact (Nat.le_add_right _ _).trans hat.ge

theorem ERC20.draws_transferInternal
    (h : ERC20.transferInternal beforeTokenTransfer sender recipient amount s = .ok s')
    (hne : sender ≠ account) : DrawsOnAllowance account caller s s' := by
  obtain ⟨hnonces, hdelegates, hallowances, hholdings⟩ := transferInternal_kept hframe h
  have hbalance := hholdings account
  rw [if_neg hne] at hbalance
  exact .of_kept (congrFun hnonces account) (fun t => congrFun (hdelegates t) account)
    (congrFun hallowances account) hbalance

/-- The only call that debits the account of another: the allowance falls by
the amount moved, also when the account pays itself or the caller. -/
theorem ERC20.draws_transferFrom
    (h : ERC20.transferFrom beforeTokenTransfer env sender recipient amount s = .ok s') :
    DrawsOnAllowance account env.msgSender s s' := by
  simp only [ERC20.transferFrom, bind_eq_ok, SafeMath.subOr_eq_ok] at h
  obtain ⟨s₁, htransfer, remaining, ⟨hallowed, hremaining⟩, happrove⟩ := h
  by_cases hsender : sender = account
  · subst hsender
    obtain ⟨hnonces, hdelegates, hallowances, hholdings⟩ :=
      transferInternal_kept hframe htransfer
    simp only [approveInternal, bind_eq_ok, require_eq_ok, pure_eq_ok, exists_const] at happrove
    obtain ⟨-, -, rfl⟩ := happrove
    have hbalance := hholdings sender
    rw [if_pos rfl] at hbalance
    have hle : amount.val ≤ (s₁.allowances sender env.msgSender).val := hallowed
    have hallowance : (Function.update s₁.allowances sender
        (Function.update (s₁.allowances sender) env.msgSender remaining) sender
        env.msgSender) = remaining := by
      rw [Function.update_self, Function.update_self]
    refine ⟨congrFun hnonces sender, fun t => ?_, ?_, ?_, ?_⟩
    · rw [← congrFun (hdelegates t) sender]
      cases t <;> rfl
    · intro spender hne
      change Function.update s₁.allowances sender _ sender spender = _
      rw [Function.update_self, Function.update_of_ne hne, hallowances]
    · refine le_of_eq_of_le hallowance ?_
      rw [← hallowances, Fin.le_def]
      omega
    · change _ + (Function.update s₁.allowances sender _ sender env.msgSender).val ≤
        s₁.holdings sender + _
      rw [hallowance, ← hallowances]
      omega
  · exact (draws_transferInternal hframe htransfer hsender).trans
      (draws_approveInternal happrove hsender)

theorem draws_mintedIfSet {minted : Address}
    (h : MintedIfSet beforeTokenTransfer minted amount s s') :
    DrawsOnAllowance account caller s s' := by
  rcases h with hmint | ⟨-, rfl⟩
  · obtain ⟨s₁, hbefore, hrest, -, hholdings⟩ := hmint.hook
    have hcredit : s₁.holdings account ≤ s'.holdings account := by
      rw [hholdings]
      exact Nat.le_add_right _ _
    refine DrawsOnAllowance.trans (.of_onlySnapshots (hframe hbefore))
      (.of_kept ?_ (fun t => ?_) ?_ hcredit)
    · rw [hrest]
    · rw [hrest]
      cases t <;> rfl
    · rw [hrest]
  · exact .of_kept rfl (fun _ => rfl) rfl le_rfl

end Transfers

theorem draws_delegateByTypeInternal {env : Env} {delegator delegatee : Address}
    {t : DelegationType} (h : delegateByTypeInternal env delegator delegatee t s = .ok s')
    (hne : delegator ≠ account) : DrawsOnAllowance account caller s s' := by
  obtain ⟨-, s₂, hmove, rfl⟩ := delegateByTypeInternal_cases h
  have hsnapshots := (onlySnapshots_moveDelegatesByType hmove).trans
    (onlySnapshots_emit s₂ (.delegateChanged delegator delegatee t))
  refine DrawsOnAllowance.trans (.of_kept ?_ (fun t' => ?_) ?_ ?_) (.of_onlySnapshots hsnapshots)
  · cases t <;> rfl
  · by_cases heq : t' = t
    · rw [heq, delegates_setDelegates]
      exact Function.update_of_ne hne.symm _ _
    · rw [delegates_setDelegates_of_ne heq]
  · cases t <;> rfl
  · cases t <;> exact le_rfl

theorem draws_of_nonces {signer : Address} {next : Uint256}
    (hnonces : s'.nonces = Function.update s.nonces signer next)
    (hrest : s' = { s with nonces := s'.nonces }) (hne : signer ≠ account) :
    DrawsOnAllowance account caller s s' := by
  refine .of_kept ?_ ?_ ?_ ?_
  · rw [hnonces]
    exact Function.update_of_ne hne.symm _ _
  · rw [hrest]
    exact fun t => by cases t <;> rfl
  · rw [hrest]
  · rw [hrest]
    exact le_rfl

section Execution

variable {chain : Chain} {env : Env} {call : Call} (hsender : env.msgSender ≠ account)
  (hunsigned : ∀ signed, call.signed chain s = some signed → signed.signer ≠ account)
include hsender hunsigned

theorem ERC20.draws_execute {beforeTokenTransfer : ERC20.BeforeTokenTransfer}
    (hframe : ERC20.TakesSnapshotsOnly beforeTokenTransfer)
    (h : ERC20.execute beforeTokenTransfer chain env s call = .ok s') :
    DrawsOnAllowance account env.msgSender s s' := by
  cases call with
  | transfer recipient amount => exact draws_transferInternal hframe h hsender
  | approve spender amount => exact draws_approveInternal h hsender
  | transferFrom sender recipient amount => exact draws_transferFrom hframe h
  | increaseAllowance spender addedValue =>
      obtain ⟨raised, -, happrove⟩ := bind_eq_ok.mp h
      exact draws_approveInternal happrove hsender
  | decreaseAllowance spender subtractedValue =>
      obtain ⟨lowered, -, happrove⟩ := bind_eq_ok.mp h
      exact draws_approveInternal happrove hsender
  | permit owner spender value deadline v r sig =>
      simp only [execute, permit, bind_eq_ok, require_eq_ok, exists_const] at h
      obtain ⟨-, -, hsigner, nextNonce, -, happrove⟩ := h
      -- the owner is the account the signature recovers to
      have hne : owner ≠ account := fun heq => hunsigned _ rfl (hsigner.symm.trans heq)
      exact (draws_of_nonces rfl rfl hne).trans (draws_approveInternal happrove hne)
  | _ => cases h

theorem PlmyToken.draws_execute (h : execute chain env s call = .ok s') :
    DrawsOnAllowance account env.msgSender s s' := by
  by_cases hcall : call.isErc20
  · rw [execute_of_isErc20 chain env s hcall] at h
    exact ERC20.draws_execute hsender hunsigned (takesSnapshotsOnly env) h
  cases call with
  | initializeV1 vestingAddress vaultAddress palmyGovernance =>
      obtain ⟨-, s₁, hvesting, hvault⟩ := initializeToken_cases h
      have hconfigured : DrawsOnAllowance account env.msgSender s
          (configured chain palmyGovernance s) :=
        .of_kept rfl (fun t => by cases t <;> rfl) rfl le_rfl
      exact (hconfigured.trans (draws_mintedIfSet (takesSnapshotsOnly env) hvesting)).trans
        (draws_mintedIfSet (takesSnapshotsOnly env) hvault)
  | initializeV2 | delegateByType | delegate | delegateByTypeBySig | delegateBySig => cases h
  | _ => exact absurd rfl hcall

theorem PlmyTokenV2.draws_execute (h : execute chain env s call = .ok s') :
    DrawsOnAllowance account env.msgSender s s' := by
  by_cases hcall : call.isErc20
  · rw [execute_of_isErc20 chain env s hcall] at h
    exact ERC20.draws_execute hsender hunsigned (takesSnapshotsOnly env) h
  cases call with
  | initializeV1 => cases h
  | initializeV2 =>
      simp only [execute, initializeToken, initializer, bind_eq_ok, require_eq_ok, pure_eq_ok,
        exists_const] at h
      obtain ⟨-, rfl⟩ := h
      exact .of_kept rfl (fun t => by cases t <;> rfl) rfl le_rfl
  | delegateByType delegatee t => exact draws_delegateByTypeInternal h hsender
  | delegate delegatee =>
      obtain ⟨s₁, hvoting, hproposition⟩ := bind_eq_ok.mp h
      exact (draws_delegateByTypeInternal hvoting hsender).trans
        (draws_delegateByTypeInternal hproposition hsender)
  | delegateByTypeBySig delegatee t nonce expiry v r sig =>
      obtain ⟨s₁, hspend, hdelegate⟩ := bind_eq_ok.mp h
      obtain ⟨-, -, next, -, hnonces⟩ := spendNonce_cases hspend
      exact (draws_of_nonces hnonces (spendNonce_rest hspend) (hunsigned _ rfl)).trans
        (draws_delegateByTypeInternal hdelegate (hunsigned _ rfl))
  | delegateBySig delegatee nonce expiry v r sig =>
      obtain ⟨s₁, hspend, hdelegate⟩ := bind_eq_ok.mp h
      obtain ⟨s₂, hvoting, hproposition⟩ := bind_eq_ok.mp hdelegate
      obtain ⟨-, -, next, -, hnonces⟩ := spendNonce_cases hspend
      exact ((draws_of_nonces hnonces (spendNonce_rest hspend) (hunsigned _ rfl)).trans
        (draws_delegateByTypeInternal hvoting (hunsigned _ rfl))).trans
        (draws_delegateByTypeInternal hproposition (hunsigned _ rfl))
  | _ => exact absurd rfl hcall

theorem Implementation.draws_execute (implementation : Implementation)
    (h : implementation.execute chain env s call = .ok s') :
    DrawsOnAllowance account env.msgSender s s' := by
  cases implementation with
  | plmyToken => exact PlmyToken.draws_execute hsender hunsigned h
  | plmyTokenV2 => exact PlmyTokenV2.draws_execute hsender hunsigned h

end Execution

end Calls

/-- What the account holds falls by no more than all its allowances together. -/
theorem DrawsOnAllowance.total {account caller : Address} {s s' : Token}
    (h : DrawsOnAllowance account caller s s') :
    s.holdings account + ∑ spender, (s'.allowances account spender).val ≤
      s'.holdings account + ∑ spender, (s.allowances account spender).val := by
  have hothers : ∑ spender ∈ Finset.univ.erase caller, (s'.allowances account spender).val =
      ∑ spender ∈ Finset.univ.erase caller, (s.allowances account spender).val :=
    Finset.sum_congr rfl fun spender hspender =>
      congrArg Fin.val (h.others spender (Finset.ne_of_mem_erase hspender))
  have hbalance := h.balance
  rw [← Finset.sum_erase_add _ _ (Finset.mem_univ caller), hothers,
    ← Finset.sum_erase_add Finset.univ (fun spender => (s.allowances account spender).val)
      (Finset.mem_univ caller)]
  omega

namespace Proxy

variable {chain : Chain} {account : Address}

theorem step_draws {p : Proxy} {tx : Tx} (hsender : tx.env.msgSender ≠ account)
    (hunsigned : ∀ signed ∈ acceptedBy chain p tx, signed.signer ≠ account) :
    DrawsOnAllowance account tx.env.msgSender p.token (step chain p tx).token := by
  have hsame : DrawsOnAllowance account tx.env.msgSender p.token p.token :=
    .of_kept rfl (fun _ => rfl) rfl le_rfl
  obtain ⟨env, action⟩ := tx
  cases action with
  | upgradeTo implementation => exact hsame
  | call call =>
      cases houtcome : execute chain p ⟨env, .call call⟩ with
      | error e =>
          rw [step, houtcome]
          exact hsame
      | ok p' =>
          rw [step, houtcome]
          simp only [acceptedBy, houtcome] at hunsigned
          simp only [execute, bind_eq_ok, pure_eq_ok] at houtcome
          obtain ⟨token, hcall, rfl⟩ := houtcome
          exact p.implementation.draws_execute hsender hunsigned hcall

/-- A whole run of others, who got nothing signed by the account accepted. -/
theorem run_draws (p : Proxy) (later : List Tx)
    (hsenders : ∀ tx ∈ later, tx.env.msgSender ≠ account)
    (hunsigned : ∀ signed ∈ acceptedFrom chain p later, signed.signer ≠ account) :
    p.token.holdings account +
        ∑ spender, ((Timeline.run (step chain) p later).token.allowances account spender).val ≤
      (Timeline.run (step chain) p later).token.holdings account +
        ∑ spender, (p.token.allowances account spender).val := by
  induction later generalizing p with
  | nil => exact le_rfl
  | cons tx later ih =>
      have hfirst := (step_draws (hsenders tx List.mem_cons_self) fun signed hsigned =>
        hunsigned signed (List.mem_append_left _ (Option.mem_toList.mpr hsigned))).total
      have hrest := ih (step chain p tx)
        (fun tx' htx' => hsenders tx' (List.mem_cons_of_mem _ htx'))
        (fun signed hsigned => hunsigned signed (List.mem_append_right _ hsigned))
      change p.token.holdings account + ∑ spender,
          ((Timeline.run (step chain) (step chain p tx) later).token.allowances account
            spender).val ≤
        (Timeline.run (step chain) (step chain p tx) later).token.holdings account +
          ∑ spender, (p.token.allowances account spender).val
      omega

end Proxy

/-- Nothing of an account moves without its authorisation.  In every state of
either implementation, a call sent by another account that is not signed by this
one over its current nonce leaves its nonce, its delegatees and its allowances
for others alone, and debits no more than the allowance of the caller falls by.
Over a whole run of others the balance falls by no more than what was allowed at
its start. -/
theorem nothing_moves_without_authorisation (chain : Chain) (txs : List Tx) (account : Address) :
    (∀ env call s',
      (Proxy.run chain txs).implementation.execute chain env (Proxy.run chain txs).token call =
        .ok s' →
      env.msgSender ≠ account →
      (∀ signed, call.signed chain (Proxy.run chain txs).token = some signed →
        ¬ (signed.signer = account ∧
          signed.nonce = (Proxy.run chain txs).token.nonces account)) →
      s'.nonces account = (Proxy.run chain txs).token.nonces account ∧
        (∀ t, s'.delegates t account = (Proxy.run chain txs).token.delegates t account) ∧
        (∀ spender, spender ≠ env.msgSender → ERC20.allowance s' account spender =
          ERC20.allowance (Proxy.run chain txs).token account spender) ∧
        ERC20.allowance s' account env.msgSender ≤
          ERC20.allowance (Proxy.run chain txs).token account env.msgSender ∧
        (ERC20.balanceOf (Proxy.run chain txs).token account).val -
            (ERC20.balanceOf s' account).val ≤
          (ERC20.allowance (Proxy.run chain txs).token account env.msgSender).val -
            (ERC20.allowance s' account env.msgSender).val) ∧
      ∀ later : List Tx, (∀ tx ∈ later, tx.env.msgSender ≠ account) →
        (∀ signed ∈ Proxy.acceptedFrom chain (Proxy.run chain txs) later,
          signed.signer ≠ account) →
        (ERC20.balanceOf (Proxy.run chain txs).token account).val -
            (ERC20.balanceOf (Proxy.run chain (txs ++ later)).token account).val ≤
          ∑ spender, (ERC20.allowance (Proxy.run chain txs).token account spender).val := by
  refine ⟨?_, ?_⟩
  · intro env call s' h hsender hunsigned
    have hsigner : ∀ signed, call.signed chain (Proxy.run chain txs).token = some signed →
        signed.signer ≠ account := by
      intro signed hsigned heq
      -- a signed call that went through was made over the next nonce of its signer
      have hspends := Implementation.nonceStep_execute h
      rw [NonceStep, hsigned] at hspends
      exact hunsigned signed hsigned ⟨heq, heq ▸ hspends.nonce⟩
    have hdraws := Implementation.draws_execute hsender hsigner _ h
    have hbalance : _ + _ ≤ _ + _ := hdraws.balance
    have hallowance : (s'.allowances account env.msgSender).val ≤ _ := hdraws.allowance
    refine ⟨hdraws.nonce, hdraws.delegatee, hdraws.others, hdraws.allowance, ?_⟩
    change (Proxy.run chain txs).token.holdings account - s'.holdings account ≤
      ((Proxy.run chain txs).token.allowances account env.msgSender).val -
        (s'.allowances account env.msgSender).val
    omega
  · intro later hsenders hunsigned
    have htotal := Proxy.run_draws (Proxy.run chain txs) later hsenders hunsigned
    rw [← Proxy.run_append] at htotal
    change (Proxy.run chain txs).token.holdings account -
      (Proxy.run chain (txs ++ later)).token.holdings account ≤
        ∑ spender, ((Proxy.run chain txs).token.allowances account spender).val
    omega

/-- Alice's payment to Bob in block 5 takes nothing of his. -/
theorem nothing_moves_without_authorisation_sample :
    (Proxy.run Sample.chain Sample.txs).token.nonces Sample.bob =
        (Proxy.run Sample.chain (Sample.txs.take 4)).token.nonces Sample.bob ∧
      ERC20.allowance (Proxy.run Sample.chain Sample.txs).token Sample.bob Sample.alice ≤
        ERC20.allowance (Proxy.run Sample.chain (Sample.txs.take 4)).token Sample.bob
          Sample.alice := by
  obtain ⟨hcall, -⟩ := nothing_moves_without_authorisation Sample.chain (Sample.txs.take 4)
    Sample.bob
  obtain ⟨hnonce, -, -, hallowance, -⟩ := hcall (Sample.env Sample.alice 5)
    (.transfer Sample.bob 1) (Proxy.run Sample.chain Sample.txs).token rfl (by decide)
    (fun _ hunsigned => nomatch hunsigned)
  exact ⟨hnonce, hallowance⟩

end Palmy

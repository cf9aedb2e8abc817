/-
What the public ERC20 functions do to balances, allowances and nonces, with the
snapshot hook as a parameter that leaves all three alone.
-/
import Palmy.Library.Delegation
import Palmy.PlmyToken
import Palmy.PlmyTokenV2

namespace Palmy

open Solidity
open Delegation

namespace Token

/-- Balances as plain numbers, which add up without wrapping. -/
def holdings (s : Token) (account : Address) : ℕ := (s.balances account).val

/-- `after` differs from `s` in snapshots, event log and ghost only. -/
def OnlySnapshots (s after : Token) : Prop :=
  after = { s with
    votingSnapshots := after.votingSnapshots
    propositionPowerSnapshots := after.propositionPowerSnapshots
    log := after.log
    narrowed := after.narrowed }

namespace OnlySnapshots

variable {s t u : Token}

theorem refl (s : Token) : OnlySnapshots s s := rfl

theorem trans (hfirst : OnlySnapshots s t) (hsecond : OnlySnapshots t u) :
    OnlySnapshots s u := by
  unfold OnlySnapshots at *
  rw [hsecond, hfirst]

variable (h : OnlySnapshots s t)
include h

theorem balances : t.balances = s.balances := by
  rw [OnlySnapshots] at h
  rw [h]

theorem holdings : t.holdings = s.holdings := by
  funext account
  rw [Token.holdings, Token.holdings, h.balances]

theorem allowances : t.allowances = s.allowances := by
  rw [OnlySnapshots] at h
  rw [h]

theorem totalSupply : t.totalSupply = s.totalSupply := by
  rw [OnlySnapshots] at h
  rw [h]

theorem lastInitializedRevision : t.lastInitializedRevision = s.lastInitializedRevision := by
  rw [OnlySnapshots] at h
  rw [h]

theorem nonces : t.nonces = s.nonces := by
  rw [OnlySnapshots] at h
  rw [h]

theorem palmyGovernance : t.palmyGovernance = s.palmyGovernance := by
  rw [OnlySnapshots] at h
  rw [h]

theorem domainSeparator : t.domainSeparator = s.domainSeparator := by
  rw [OnlySnapshots] at h
  rw [h]

theorem delegates (d : DelegationType) : t.delegates d = s.delegates d := by
  rw [OnlySnapshots] at h
  rw [h]
  cases d <;> rfl

end OnlySnapshots

theorem onlySnapshots_emit (s : Token) (event : Event) : OnlySnapshots s (s.emit event) := rfl

theorem onlySnapshots_noteNarrowed (s : Token) (values : List Uint256) :
    OnlySnapshots s (s.noteNarrowed values) := rfl

@[simp] theorem delegates_setDelegates (s : Token) (t : DelegationType)
    (delegates : Address → Address) : (s.setDelegates t delegates).delegates t = delegates := by
  cases t <;> rfl

theorem delegates_setDelegates_of_ne {s : Token} {t t' : DelegationType} (hne : t' ≠ t)
    (delegates : Address → Address) :
    (s.setDelegates t delegates).delegates t' = s.delegates t' := by
  cases t <;> cases t' <;> first | rfl | exact absurd rfl hne

@[simp] theorem snapshotTable_setDelegates (s : Token) (t t' : DelegationType)
    (delegates : Address → Address) :
    (s.setDelegates t delegates).snapshotTable t' = s.snapshotTable t' := by
  cases t <;> cases t' <;> rfl

@[simp] theorem narrowed_setDelegates (s : Token) (t : DelegationType)
    (delegates : Address → Address) : (s.setDelegates t delegates).narrowed = s.narrowed := by
  cases t <;> rfl

theorem onlySnapshots_setSnapshotTable (s : Token) (t : DelegationType)
    (table : SnapshotTable) : OnlySnapshots s (s.setSnapshotTable t table) := by
  cases t <;> rfl

end Token

open Token

/-- An optional step of a computation: done under a condition, else skipped. -/
theorem ite_pure_eq_ok {condition : Prop} [Decidable condition] {s s' : Token}
    {x : Result Token} :
    (if condition then x else pure s) = .ok s' ↔
      condition ∧ x = .ok s' ∨ ¬ condition ∧ s = s' := by
  by_cases h : condition <;> simp [h]

namespace PlmyToken

theorem onlySnapshots_writeNarrowed {env : Env} {owner : Address}
    {oldValue newValue : Uint256} {s s' : Token}
    (h : writeNarrowed env owner oldValue newValue s = .ok s') : OnlySnapshots s s' := by
  simp only [writeNarrowed, writeSnapshot, bind_eq_ok, pure_eq_ok] at h
  obtain ⟨table, _, rfl⟩ := h
  rfl

/-- The hook of V1 writes two snapshots at most, and then only asks. -/
theorem beforeTokenTransfer_rule {R : Token → Token → Prop} {env : Env} {src dst : Address}
    {amount : Uint256} {s s' : Token} (hrefl : ∀ s, R s s)
    (htrans : ∀ s₁ s₂ s₃, R s₁ s₂ → R s₂ s₃ → R s₁ s₃)
    (hwrite : ∀ owner oldValue newValue s s',
      writeNarrowed env owner oldValue newValue s = .ok s' → R s s')
    (h : beforeTokenTransfer env src dst amount s = .ok s') : R s s' := by
  unfold beforeTokenTransfer at h
  split at h
  · rw [pure_eq_ok] at h
    rw [h]
    exact hrefl s'
  · simp only [bind_eq_ok, pure_eq_ok, ite_pure_eq_ok] at h
    obtain ⟨s₁, hfirst, s₂, hsecond, _, _, rfl⟩ := h
    have hdebit : R s s₁ := by
      rcases hfirst with ⟨-, _, -, hdebited⟩ | ⟨-, rfl⟩
      · exact hwrite _ _ _ _ _ hdebited
      · exact hrefl _
    have hcredit : R s₁ s₂ := by
      rcases hsecond with ⟨-, _, -, hcredited⟩ | ⟨-, rfl⟩
      · exact hwrite _ _ _ _ _ hcredited
      · exact hrefl _
    exact htrans _ _ _ hdebit hcredit

theorem onlySnapshots_beforeTokenTransfer {env : Env} {src dst : Address}
    {amount : Uint256} {s s' : Token}
    (h : beforeTokenTransfer env src dst amount s = .ok s') : OnlySnapshots s s' :=
  beforeTokenTransfer_rule OnlySnapshots.refl (fun _ _ _ => OnlySnapshots.trans)
    (fun _ _ _ _ _ => onlySnapshots_writeNarrowed) h

end PlmyToken

namespace GovernancePowerDelegation

theorem onlySnapshots_changePower {env : Env} {user : Address}
    {change : Uint256 → Result Uint256} {t : DelegationType} {s s' : Token}
    (h : changePower env user change t s = .ok s') : OnlySnapshots s s' := by
  simp only [changePower, bind_eq_ok, pure_eq_ok] at h
  obtain ⟨changed, _, table, _, rfl⟩ := h
  exact ((onlySnapshots_noteNarrowed s _).trans
    (onlySnapshots_setSnapshotTable _ t table)).trans (onlySnapshots_emit _ _)

/-- A move changes two powers at most. -/
theorem moveDelegatesByType_rule {R : Token → Token → Prop} {env : Env} {src dst : Address}
    {amount : Uint256} {t : DelegationType} {s s' : Token} (hrefl : ∀ s, R s s)
    (htrans : ∀ s₁ s₂ s₃, R s₁ s₂ → R s₂ s₃ → R s₁ s₃)
    (hchange : ∀ user change s s', changePower env user change t s = .ok s' → R s s')
    (h : moveDelegatesByType env src dst amount t s = .ok s') : R s s' := by
  unfold moveDelegatesByType at h
  split at h
  · rw [pure_eq_ok] at h
    rw [h]
    exact hrefl s'
  · simp only [bind_eq_ok, ite_pure_eq_ok] at h
    obtain ⟨s₁, hfirst, hsecond⟩ := h
    have hdebit : R s s₁ := by
      rcases hfirst with ⟨-, hdebited⟩ | ⟨-, rfl⟩
      · exact hchange _ _ _ _ hdebited
      · exact hrefl _
    rcases hsecond with ⟨-, hcredited⟩ | ⟨-, rfl⟩
    · exact htrans _ _ _ hdebit (hchange _ _ _ _ hcredited)
    · exact hdebit

theorem onlySnapshots_moveDelegatesByType {env : Env} {src dst : Address} {amount : Uint256}
    {t : DelegationType} {s s' : Token}
    (h : moveDelegatesByType env src dst amount t s = .ok s') : OnlySnapshots s s' :=
  moveDelegatesByType_rule OnlySnapshots.refl (fun _ _ _ => OnlySnapshots.trans)
    (fun _ _ _ _ => onlySnapshots_changePower) h

end GovernancePowerDelegation

theorem PlmyTokenV2.onlySnapshots_beforeTokenTransfer {env : Env} {src dst : Address}
    {amount : Uint256} {s s' : Token}
    (h : PlmyTokenV2.beforeTokenTransfer env src dst amount s = .ok s') :
    OnlySnapshots s s' := by
  simp only [PlmyTokenV2.beforeTokenTransfer, bind_eq_ok, pure_eq_ok] at h
  obtain ⟨s₁, hvoting, s₂, hproposition, _, _, rfl⟩ := h
  exact (GovernancePowerDelegation.onlySnapshots_moveDelegatesByType hvoting).trans
    (GovernancePowerDelegation.onlySnapshots_moveDelegatesByType hproposition)

/-- A transfer hook that takes snapshots and does nothing else. -/
def ERC20.TakesSnapshotsOnly (beforeTokenTransfer : ERC20.BeforeTokenTransfer) : Prop :=
  ∀ ⦃src dst amount s s'⦄, beforeTokenTransfer src dst amount s = .ok s' → OnlySnapshots s s'

theorem PlmyToken.takesSnapshotsOnly (env : Env) :
    ERC20.TakesSnapshotsOnly (PlmyToken.beforeTokenTransfer env) :=
  fun _ _ _ _ _ h => PlmyToken.onlySnapshots_beforeTokenTransfer h

theorem PlmyTokenV2.takesSnapshotsOnly (env : Env) :
    ERC20.TakesSnapshotsOnly (PlmyTokenV2.beforeTokenTransfer env) :=
  fun _ _ _ _ _ h => PlmyTokenV2.onlySnapshots_beforeTokenTransfer h

/-- What a successful ERC20 call does.  Either a transfer went through after the
hook ran, or only allowances and nonces were touched. -/
inductive Erc20Effect (beforeTokenTransfer : ERC20.BeforeTokenTransfer) (s s' : Token) :
    Prop where
  | moved {sender recipient : Address} {amount : Uint256} {s₁ : Token}
      (hsender : sender ≠ 0) (hrecipient : recipient ≠ 0)
      (hbefore : beforeTokenTransfer sender recipient amount s = .ok s₁)
      (hrest : s' = { s₁ with
        balances := s'.balances, allowances := s'.allowances, log := s'.log })
      (henough : amount.val ≤ s₁.holdings sender)
      (hmoved : Moved s₁.holdings s'.holdings sender recipient amount.val)
  | approved
      (hrest : s' = { s with
        allowances := s'.allowances, nonces := s'.nonces, log := s'.log })

/-- ERC20 calls leave delegatees, the hook and the revision alone. -/
theorem Erc20Effect.frame {beforeTokenTransfer : ERC20.BeforeTokenTransfer} {s s' : Token}
    (hframe : ERC20.TakesSnapshotsOnly beforeTokenTransfer)
    (h : Erc20Effect beforeTokenTransfer s s') :
    (∀ t, s'.delegates t = s.delegates t) ∧ s'.palmyGovernance = s.palmyGovernance ∧
      s'.lastInitializedRevision = s.lastInitializedRevision := by
  cases h with
  | moved hsender hrecipient hbefore hrest henough hmoved =>
      have hsnapshots := hframe hbefore
      rw [hrest]
      refine ⟨fun t => ?_, hsnapshots.palmyGovernance, hsnapshots.lastInitializedRevision⟩
      rw [← hsnapshots.delegates t]
      cases t <;> rfl
  | approved hrest =>
      rw [hrest]
      exact ⟨fun t => by cases t <;> rfl, rfl, rfl⟩

namespace ERC20

variable {beforeTokenTransfer : BeforeTokenTransfer} {env : Env} {s s' : Token}
  {owner spender sender recipient : Address} {amount : Uint256}

theorem approveInternal_rest (h : approveInternal owner spender amount s = .ok s') :
    s' = { s with allowances := s'.allowances, log := s'.log } := by
  simp only [approveInternal, bind_eq_ok, require_eq_ok, pure_eq_ok, exists_const] at h
  obtain ⟨_, _, rfl⟩ := h
  rfl

/-- Debiting one account and crediting another moves the amount, even when the
two are one account. -/
theorem moved_of_updates {balances : Address → Uint256} {debited credited : Uint256}
    (henough : amount ≤ balances sender)
    (hdebited : debited.val = (balances sender).val - amount.val)
    (hcredited : credited.val =
      (Function.update balances sender debited recipient).val + amount.val) :
    Moved (fun account => (balances account).val)
      (fun account => (Function.update (Function.update balances sender debited)
        recipient credited account).val) sender recipient amount.val := by
  have hle : amount.val ≤ (balances sender).val := henough
  intro account
  have hcredit : (Function.update (Function.update balances sender debited)
      recipient credited account).val =
      (Function.update balances sender debited account).val +
        (if recipient = account then amount.val else 0) := by
    by_cases heq : recipient = account
    · subst heq
      rw [Function.update_self, if_pos rfl, hcredited]
    · rw [Function.update_of_ne (Ne.symm heq), if_neg heq, Nat.add_zero]
  have hdebit : (Function.update balances sender debited account).val +
      (if sender = account then amount.val else 0) = (balances account).val := by
    by_cases heq : sender = account
    · subst heq
      rw [Function.update_self, if_pos rfl, hdebited]
      omega
    · rw [Function.update_of_ne (Ne.symm heq), if_neg heq, Nat.add_zero]
  beta_reduce
  omega

theorem transferInternal_cases
    (h : transferInternal beforeTokenTransfer sender recipient amount s = .ok s') :
    sender ≠ 0 ∧ recipient ≠ 0 ∧
      ∃ s₁, beforeTokenTransfer sender recipient amount s = .ok s₁ ∧
        amount.val ≤ s₁.holdings sender ∧
        s' = { s₁ with balances := s'.balances, log := s'.log } ∧
        Moved s₁.holdings s'.holdings sender recipient amount.val := by
  simp only [transferInternal, bind_eq_ok, require_eq_ok, pure_eq_ok, exists_const,
    SafeMath.subOr_eq_ok, SafeMath.add_eq_ok] at h
  obtain ⟨hsender, hrecipient, s₁, hbefore, debited, ⟨henough, hdebited⟩, credited,
    hcredited, rfl⟩ := h
  exact ⟨hsender, hrecipient, s₁, hbefore, henough, rfl,
    moved_of_updates henough hdebited hcredited⟩

/-- The event of a transfer follows those of the hook. -/
theorem log_transferInternal {s₁ : Token}
    (h : transferInternal beforeTokenTransfer sender recipient amount s = .ok s')
    (hbefore : beforeTokenTransfer sender recipient amount s = .ok s₁) :
    s'.log = s₁.log ++ [.transfer sender recipient amount] := by
  simp only [transferInternal, hbefore, ok_bind, bind_eq_ok, require_eq_ok, pure_eq_ok,
    exists_const] at h
  obtain ⟨-, -, debited, -, credited, -, rfl⟩ := h
  rfl

theorem log_approveInternal (h : approveInternal owner spender amount s = .ok s') :
    s'.log = s.log ++ [.approval owner spender amount] := by
  simp only [approveInternal, bind_eq_ok, require_eq_ok, pure_eq_ok, exists_const] at h
  obtain ⟨_, _, rfl⟩ := h
  rfl

theorem transferInternal_effect
    (h : transferInternal beforeTokenTransfer sender recipient amount s = .ok s') :
    Erc20Effect beforeTokenTransfer s s' := by
  obtain ⟨hsender, hrecipient, s₁, hbefore, henough, hrest, hmoved⟩ := transferInternal_cases h
  refine .moved hsender hrecipient hbefore ?_ henough hmoved
  rw [hrest]

theorem transfer_effect (h : transfer beforeTokenTransfer env recipient amount s = .ok s') :
    Erc20Effect beforeTokenTransfer s s' :=
  transferInternal_effect h

theorem transferFrom_effect
    (h : transferFrom beforeTokenTransfer env sender recipient amount s = .ok s') :
    Erc20Effect beforeTokenTransfer s s' := by
  simp only [transferFrom, bind_eq_ok] at h
  obtain ⟨s₂, htransfer, remaining, -, happrove⟩ := h
  obtain ⟨hsender, hrecipient, s₁, hbefore, henough, hrest, hmoved⟩ :=
    transferInternal_cases htransfer
  have hrest' := approveInternal_rest happrove
  have hholdings : s'.holdings = s₂.holdings := by
    funext account
    rw [Token.holdings, Token.holdings, hrest']
  refine .moved hsender hrecipient hbefore ?_ henough (hholdings ▸ hmoved)
  rw [hrest', hrest]

theorem approve_effect (h : approve env spender amount s = .ok s') :
    Erc20Effect beforeTokenTransfer s s' := by
  refine .approved ?_
  rw [approveInternal_rest h]

theorem increaseAllowance_effect (h : increaseAllowance env spender amount s = .ok s') :
    Erc20Effect beforeTokenTransfer s s' := by
  simp only [increaseAllowance, bind_eq_ok] at h
  obtain ⟨raised, -, happrove⟩ := h
  refine .approved ?_
  rw [approveInternal_rest happrove]

theorem decreaseAllowance_effect (h : decreaseAllowance env spender amount s = .ok s') :
    Erc20Effect beforeTokenTransfer s s' := by
  simp only [decreaseAllowance, bind_eq_ok] at h
  obtain ⟨lowered, -, happrove⟩ := h
  refine .approved ?_
  rw [approveInternal_rest happrove]

end ERC20

theorem permit_effect {chain : Chain} {env : Env} {owner spender : Address}
    {value deadline : Uint256} {v : UInt8} {r sig : Bytes32} {s s' : Token}
    {beforeTokenTransfer : ERC20.BeforeTokenTransfer}
    (h : permit chain env owner spender value deadline v r sig s = .ok s') :
    Erc20Effect beforeTokenTransfer s s' := by
  simp only [permit, bind_eq_ok, require_eq_ok, exists_const] at h
  obtain ⟨-, -, -, nextNonce, -, happrove⟩ := h
  refine .approved ?_
  rw [ERC20.approveInternal_rest happrove]

end Palmy

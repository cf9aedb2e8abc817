/-
The repository's own ERC20.sol as the token a vesting contract pays out.  With
its empty transfer hook, and the supply PLMY mints, it is a standard token.
-/
import Palmy.Availability
import Palmy.OpenZeppelin

namespace Palmy

open Solidity
open Delegation

namespace ERC20

/-- The `_beforeTokenTransfer` of ERC20.sol itself. -/
def emptyHook : BeforeTokenTransfer := fun _ _ _ s => .ok s

theorem takesSnapshotsOnly_emptyHook : TakesSnapshotsOnly emptyHook := by
  intro src dst amount s s' h
  cases h
  exact Token.OnlySnapshots.refl s

variable {sender recipient : Address} {amount : Uint256} {s s' : Token}

theorem supplyInvariant_transferInternal (hinv : SupplyInvariant s)
    (h : transferInternal emptyHook sender recipient amount s = .ok s') :
    SupplyInvariant s' := by
  let env : Env := ⟨sender, ⟨0, 0, by decide⟩, fun _ _ _ _ => .ok ()⟩
  have htransfer : transfer emptyHook env recipient amount s = .ok s' := h
  exact hinv.kept (supplyKept_of_erc20Effect takesSnapshotsOnly_emptyHook
    (transfer_effect htransfer))

/-- A transfer that carries the supply invariant along. -/
def transferLedger (sender recipient : Address) (amount : Uint256)
    (ledger : {s : Token // SupplyInvariant s}) : Result {s : Token // SupplyInvariant s} :=
  match h : transferInternal emptyHook sender recipient amount ledger.val with
  | .ok s' => .ok ⟨s', supplyInvariant_transferInternal ledger.property h⟩
  | .error e => .error e

theorem transferLedger_eq_ok {ledger ledger' : {s : Token // SupplyInvariant s}} :
    transferLedger sender recipient amount ledger = .ok ledger' ↔
      transferInternal emptyHook sender recipient amount ledger.val = .ok ledger'.val := by
  unfold transferLedger
  split
  · next s' h =>
      constructor
      · intro hledger
        cases hledger
        exact h
      · intro hledger
        rw [h] at hledger
        cases hledger
        rfl
  · next e h =>
      rw [h]
      simp

/-- The token contracts of a chain where ERC20.sol is deployed at one address. -/
abbrev deployedAt (plmy : Address) (hplmy : plmy ≠ 0) : OpenZeppelin.Tokens where
  Ledger := {s : Token // SupplyInvariant s}
  balanceOf token account ledger :=
    if token = plmy then .ok (balanceOf ledger.val account) else .error .silent
  safeTransfer token sender recipient amount ledger :=
    if token = plmy then transferLedger sender recipient amount ledger else .error .silent
  balanceOf_zero account ledger := by
    rw [if_neg (Ne.symm hplmy)]
    exact not_succeeds_error _

variable {plmy : Address} (hplmy : plmy ≠ 0)

theorem holdings_deployedAt (ledger : (deployedAt plmy hplmy).Ledger) :
    (deployedAt plmy hplmy).holdings plmy ledger = ledger.val.holdings := by
  funext account
  rw [OpenZeppelin.Tokens.holdings_of_balanceOf (k := deployedAt plmy hplmy) (if_pos rfl)]
  rfl

/-- ERC20.sol is a standard token. -/
theorem standard_deployedAt : (deployedAt plmy hplmy).Standard plmy where
  balanceOf_succeeds account ledger := ⟨balanceOf ledger.val account, if_pos rfl⟩
  transfer_moves sender recipient amount ledger ledger' h := by
    rw [holdings_deployedAt, holdings_deployedAt]
    change (if plmy = plmy then _ else _) = _ at h
    rw [if_pos rfl, transferLedger_eq_ok] at h
    obtain ⟨-, -, s₁, hhook, henough, -, hmoved⟩ := transferInternal_cases h
    cases hhook
    exact ⟨henough, hmoved⟩
  pays ledger sender recipient amount hsender hrecipient henough := by
    rw [holdings_deployedAt] at henough
    change Succeeds (if plmy = plmy then _ else _)
    rw [if_pos rfl]
    have hkept : ∀ {s₁}, emptyHook sender recipient amount ledger.val = .ok s₁ →
        s₁.balances = ledger.val.balances := by
      intro s₁ hhook
      cases hhook
      rfl
    obtain ⟨s', h⟩ := (succeeds_transferInternal_iff ledger.property hkept fun _ =>
      succeeds_ok _).mpr ⟨hsender, hrecipient, henough⟩
    exact ⟨⟨s', supplyInvariant_transferInternal ledger.property h⟩, transferLedger_eq_ok.mpr h⟩

end ERC20

end Palmy

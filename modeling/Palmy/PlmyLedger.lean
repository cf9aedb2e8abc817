/-
PLMY as the token a vesting contract pays out: the proxied token itself, across
its upgrade and whatever its other users do with it, seen between two calls of
the vesting contract.
-/
import Palmy.Authorisation
import Palmy.OpenZeppelin
import Palmy.WithoutDelegations

namespace Palmy

open Solidity
open Delegation

section Transfers

variable {chain : Chain} {env : Env} {s s' : Token} {recipient : Address} {amount : Uint256}

theorem Implementation.moved_transfer (implementation : Implementation)
    (h : implementation.execute chain env s (.transfer recipient amount) = .ok s') :
    amount.val ≤ s.holdings env.msgSender ∧
      Moved s.holdings s'.holdings env.msgSender recipient amount.val := by
  have hmoved : ∀ {hook : ERC20.BeforeTokenTransfer}, ERC20.TakesSnapshotsOnly hook →
      ERC20.transfer hook env recipient amount s = .ok s' →
      amount.val ≤ s.holdings env.msgSender ∧
        Moved s.holdings s'.holdings env.msgSender recipient amount.val := by
    intro hook hframe htransfer
    obtain ⟨-, -, s₁, hbefore, henough, -, hmoved⟩ := ERC20.transferInternal_cases htransfer
    rw [(hframe hbefore).holdings] at henough hmoved
    exact ⟨henough, hmoved⟩
  cases implementation with
  | plmyToken => exact hmoved (PlmyToken.takesSnapshotsOnly env) h
  | plmyTokenV2 => exact hmoved (PlmyTokenV2.takesSnapshotsOnly env) h

/-- It writes no allowance and no delegatee. -/
theorem Implementation.kept_transfer (implementation : Implementation)
    (h : implementation.execute chain env s (.transfer recipient amount) = .ok s') :
    s'.allowances = s.allowances ∧ ∀ t, s'.delegates t = s.delegates t := by
  have hkept : ∀ {hook : ERC20.BeforeTokenTransfer}, ERC20.TakesSnapshotsOnly hook →
      ERC20.transfer hook env recipient amount s = .ok s' →
      s'.allowances = s.allowances ∧ ∀ t, s'.delegates t = s.delegates t := by
    intro hook hframe htransfer
    obtain ⟨-, hdelegates, hallowances, -⟩ := ERC20.transferInternal_kept hframe htransfer
    exact ⟨hallowances, hdelegates⟩
  cases implementation with
  | plmyToken => exact hkept (PlmyToken.takesSnapshotsOnly env) h
  | plmyTokenV2 => exact hkept (PlmyTokenV2.takesSnapshotsOnly env) h

/-- In the states of a run, what the balance covers can be transferred. -/
theorem Implementation.succeeds_transfer (implementation : Implementation)
    (hinv : PowerInvariant s env.block.number.val) (hhook : HookAccepts env s)
    (hsender : env.msgSender ≠ 0) (hrecipient : recipient ≠ 0)
    (henough : amount ≤ s.balances env.msgSender) :
    Succeeds (implementation.execute chain env s (.transfer recipient amount)) := by
  cases implementation with
  | plmyToken =>
      apply (ERC20.succeeds_transferInternal_iff hinv.supply
        (fun h => (PlmyToken.onlySnapshots_beforeTokenTransfer h).balances) ?_).mpr
        ⟨hsender, hrecipient, henough⟩
      intro _
      exact PlmyToken.succeeds_beforeTokenTransfer hinv le_rfl hhook henough hsender hrecipient
  | plmyTokenV2 =>
      exact (PlmyTokenV2.succeeds_transferInternal_iff hinv le_rfl hhook).mpr
        ⟨hsender, hrecipient, henough⟩

end Transfers

/-- An address nobody has a key of signs nothing. -/
theorem Call.signer_ne {chain : Chain} {holder : Address}
    (hkeyless : ∀ digest v r sig, chain.ecrecover digest v r sig ≠ holder)
    {s : Token} {call : Call} {signed : SignedRequest}
    (h : call.signed chain s = some signed) : signed.signer ≠ holder := by
  cases call with
  | permit | delegateByTypeBySig | delegateBySig =>
      cases h
      exact hkeyless _ _ _ _
  | _ => cases h

/-- PLMY in the block its next transaction falls into: the transactions so far,
and the answers of the transfer hook in that block.  The contract at `holder`
has approved nobody and delegated nothing. -/
structure PlmyLedger (chain : Chain) (holder : Address) where
  implementation : Implementation
  txs : List Tx
  block : Block
  onTransfer : Address → Address → Address → Uint256 → Result Unit
  run : UpgradeRun chain implementation txs
  block_le : ∀ tx ∈ txs, tx.block ≤ block.number.val
  unapproved : ∀ spender, (Proxy.run chain txs).token.allowances holder spender = 0
  undelegated : ∀ t, (Proxy.run chain txs).token.delegates t holder = 0

namespace PlmyLedger

variable {chain : Chain} {holder : Address}

def token (l : PlmyLedger chain holder) : Token := (Proxy.run chain l.txs).token

/-- What a transaction of `sender` sees. -/
def env (l : PlmyLedger chain holder) (sender : Address) : Env :=
  ⟨sender, l.block, l.onTransfer⟩

variable {l l' : PlmyLedger chain holder} {sender recipient : Address} {amount : Uint256}

theorem powerInvariant (l : PlmyLedger chain holder) :
    PowerInvariant l.token l.block.number.val :=
  l.run.powerInvariant l.block_le

theorem block_le_concat (l : PlmyLedger chain holder) (sender : Address) (action : Action) :
    ∀ tx ∈ l.txs ++ [⟨l.env sender, action⟩], tx.block ≤ l.block.number.val := by
  intro tx htx
  rcases List.mem_append.mp htx with hold | hnew
  · exact l.block_le tx hold
  · rw [List.mem_singleton.mp hnew]
    exact le_rfl

theorem token_concat (l : PlmyLedger chain holder) (sender : Address) (call : Call) :
    (Proxy.run chain (l.txs ++ [⟨l.env sender, .call call⟩])).token =
      commit l.token (l.implementation.execute chain (l.env sender) l.token call) := by
  rw [Proxy.run_concat, (Proxy.execute_call chain _ rfl).2, l.run.implementation_eq]
  rfl

theorem token_of_ok {call : Call} {s' : Token}
    (h : l.implementation.execute chain (l.env sender) l.token call = .ok s') :
    (Proxy.run chain (l.txs ++ [⟨l.env sender, .call call⟩])).token = s' := by
  rw [token_concat, h, commit_ok]

/-- `safeTransfer`: a transaction of the token. -/
def transfer (sender recipient : Address) (amount : Uint256) (l : PlmyLedger chain holder) :
    Result (PlmyLedger chain holder) :=
  match h : l.implementation.execute chain (l.env sender) l.token (.transfer recipient amount) with
  | .ok _ => .ok { l with
      txs := l.txs ++ [⟨l.env sender, .call (.transfer recipient amount)⟩]
      run := l.run.call l.block_le
      block_le := l.block_le_concat sender _
      unapproved := fun spender => by
        rw [token_of_ok h, (l.implementation.kept_transfer h).1]
        exact l.unapproved spender
      undelegated := fun t => by
        rw [token_of_ok h, (l.implementation.kept_transfer h).2]
        exact l.undelegated t }
  | .error e => .error e

/-- A transfer is a transaction of the token that succeeds, and nothing else. -/
theorem transfer_eq_ok (h : transfer sender recipient amount l = .ok l') :
    l.implementation.execute chain (l.env sender) l.token (.transfer recipient amount) =
        .ok l'.token ∧
      l'.txs = l.txs ++ [⟨l.env sender, .call (.transfer recipient amount)⟩] ∧
      l'.implementation = l.implementation ∧ l'.block = l.block := by
  unfold transfer at h
  split at h
  · next s' hexecute =>
      cases h
      exact ⟨hexecute.trans (congrArg Except.ok (token_of_ok hexecute).symm), rfl, rfl, rfl⟩
  · cases h

theorem succeeds_transfer_iff : Succeeds (transfer sender recipient amount l) ↔
    Succeeds (l.implementation.execute chain (l.env sender) l.token
      (.transfer recipient amount)) := by
  unfold transfer
  split
  · next hexecute => exact iff_of_true (succeeds_ok _) ⟨_, hexecute⟩
  · next hexecute =>
      apply iff_of_false (not_succeeds_error _)
      rintro ⟨s', hok⟩
      rw [hexecute] at hok
      cases hok

end PlmyLedger

/-- The token contracts of a chain where PLMY is deployed behind its proxy. -/
abbrev plmyTokens (chain : Chain) (holder : Address) (hself : chain.self ≠ 0) :
    OpenZeppelin.Tokens where
  Ledger := PlmyLedger chain holder
  balanceOf token account ledger :=
    if token = chain.self then .ok (ERC20.balanceOf ledger.token account) else .error .silent
  safeTransfer token sender recipient amount ledger :=
    if token = chain.self then ledger.transfer sender recipient amount else .error .silent
  balanceOf_zero account ledger := by
    rw [if_neg (Ne.symm hself)]
    exact not_succeeds_error _

section Tokens

variable {chain : Chain} {holder : Address} (hself : chain.self ≠ 0)

theorem holdings_plmyTokens (ledger : PlmyLedger chain holder) :
    (plmyTokens chain holder hself).holdings chain.self ledger = ledger.token.holdings := by
  funext account
  rw [OpenZeppelin.Tokens.holdings_of_balanceOf (k := plmyTokens chain holder hself) (if_pos rfl)]
  rfl

/-- PLMY is a faithful token, at every moment of its life. -/
theorem faithful_plmyTokens : (plmyTokens chain holder hself).Faithful chain.self where
  balanceOf_succeeds account ledger := ⟨ERC20.balanceOf ledger.token account, if_pos rfl⟩
  transfer_moves sender recipient amount ledger ledger' h := by
    rw [holdings_plmyTokens, holdings_plmyTokens]
    change (if chain.self = chain.self then _ else _) = _ at h
    rw [if_pos rfl] at h
    exact ledger.implementation.moved_transfer (PlmyLedger.transfer_eq_ok h).1

/-- It pays in the blocks in which its transfer hook lets transfers pass. -/
theorem pays_plmyTokens {ledger : PlmyLedger chain holder}
    (hhook : HookAccepts (ledger.env holder) ledger.token) :
    (plmyTokens chain holder hself).Pays chain.self ledger := by
  intro sender recipient amount hsender hrecipient henough
  rw [holdings_plmyTokens] at henough
  change Succeeds (if chain.self = chain.self then _ else _)
  rw [if_pos rfl, PlmyLedger.succeeds_transfer_iff]
  exact ledger.implementation.succeeds_transfer ledger.powerInvariant hhook hsender hrecipient
    henough

end Tokens

end Palmy

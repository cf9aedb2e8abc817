/-
The vesting contract of PLMY together with the token: calls of the one, calls
and the upgrade of the other by anybody else, and the passing of blocks, in any
order.  Every run of the two is a run of each.
-/
import Palmy.PlmyLedger
import Palmy.VestingRevocation

namespace Palmy

open Solidity
open TokenVesting

section Ledgers

variable {chain : Chain} {holder : Address}

namespace PlmyLedger

variable (l : PlmyLedger chain holder)

/-- What anybody else's call, reverted or not, does to the holder. -/
theorem draws_token (hkeyless : ∀ digest v r sig, chain.ecrecover digest v r sig ≠ holder)
    {sender : Address} (hsender : sender ≠ holder) (call : Call) :
    DrawsOnAllowance holder sender l.token
      (Proxy.run chain (l.txs ++ [⟨l.env sender, .call call⟩])).token := by
  rw [Proxy.run_concat]
  change DrawsOnAllowance holder (Tx.mk (l.env sender) (.call call)).env.msgSender _ _
  apply Proxy.step_draws hsender
  intro signed hsigned
  unfold Proxy.acceptedBy at hsigned
  split at hsigned
  · next haction _ =>
      cases haction
      exact Call.signer_ne hkeyless hsigned
  · cases hsigned

/-- A call of the token by anybody else. -/
def call (hkeyless : ∀ digest v r sig, chain.ecrecover digest v r sig ≠ holder)
    (sender : Address) (hsender : sender ≠ holder) (call : Call) : PlmyLedger chain holder :=
  { l with
    txs := l.txs ++ [⟨l.env sender, .call call⟩]
    run := l.run.call l.block_le
    block_le := l.block_le_concat sender _
    unapproved := fun spender => by
      have hdraws := l.draws_token hkeyless hsender call
      by_cases hspender : spender = sender
      · rw [hspender]
        exact nonpos_iff_eq_zero.mp (hdraws.allowance.trans_eq (l.unapproved sender))
      · exact (hdraws.others spender hspender).trans (l.unapproved spender)
    undelegated := fun t =>
      ((l.draws_token hkeyless hsender call).delegatee t).trans (l.undelegated t) }

/-- The upgrade. -/
def upgrade (himplementation : l.implementation = .plmyToken) (sender : Address) :
    PlmyLedger chain holder :=
  have htoken : (Proxy.run chain (l.txs ++ [⟨l.env sender, .upgradeTo .plmyTokenV2⟩])).token =
      l.token := by
    rw [Proxy.run_concat]
    rfl
  { l with
    implementation := .plmyTokenV2
    txs := l.txs ++ [⟨l.env sender, .upgradeTo .plmyTokenV2⟩]
    run := .upgrade (himplementation ▸ l.run) l.block_le
    block_le := l.block_le_concat sender _
    unapproved := htoken ▸ l.unapproved
    undelegated := htoken ▸ l.undelegated }

/-- The next block, or a later one. -/
def nextBlock (block : Block) (onTransfer : Address → Address → Address → Uint256 → Result Unit)
    (hblock : l.block.number ≤ block.number) : PlmyLedger chain holder :=
  { l with
    block := block
    onTransfer := onTransfer
    block_le := fun tx htx => (l.block_le tx htx).trans hblock }

variable {l}

/-- Nobody else's call takes anything from the holder. -/
theorem holdings_call {hkeyless : ∀ digest v r sig, chain.ecrecover digest v r sig ≠ holder}
    {sender : Address} {hsender : sender ≠ holder} {call : Call} :
    l.token.holdings holder ≤ (l.call hkeyless sender hsender call).token.holdings holder := by
  have hbalance := (l.draws_token hkeyless hsender call).balance
  have hbefore : (l.token.allowances holder sender).val = 0 :=
    congrArg Fin.val (l.unapproved sender)
  rw [hbefore] at hbalance
  exact le_of_add_le_left hbalance

theorem token_upgrade {himplementation : l.implementation = .plmyToken} {sender : Address} :
    (l.upgrade himplementation sender).token = l.token := by
  change (Proxy.run chain (l.txs ++ [_])).token = _
  rw [Proxy.run_concat]
  rfl

end PlmyLedger

end Ledgers

namespace TokenVesting

variable {d : Deployment} {m : Message} {s s' : TokenVesting d}

/-- The tokens move by transfers of the contract's own, if at all. -/
theorem ledger_rule {R : d.tokens.Ledger → d.tokens.Ledger → Prop} (hdoc : d.Documented)
    (hrefl : ∀ ledger, R ledger ledger)
    (hpay : ∀ recipient amount ledger ledger',
      d.tokens.safeTransfer s.token d.self recipient amount ledger = .ok ledger' →
        R ledger ledger')
    {call : Call} (h : execute d m s call = .ok s') : R s.ledger s'.ledger := by
  have hrelease : ∀ {id amount s₁}, release d m id amount s = .ok s₁ → R s.ledger s₁.ledger := by
    intro id amount s₁ hok
    obtain ⟨_, _, _, _, ledger, -, -, -, -, -, -, -, -, hpaid, rfl⟩ :=
      (release_eq_ok hdoc.safeMath).mp hok
    exact hpay _ _ _ _ hpaid
  cases call with
  | initialzie token =>
      simp only [execute, initialzie, bind_eq_ok, requireSilently_eq_ok, pure_eq_ok] at h
      obtain ⟨_, -, -, -, rfl⟩ := h
      exact hrefl _
  | createVestingSchedule =>
      obtain ⟨_, _, _, _, _, -, -, -, -, -, -, -, rfl⟩ := createVestingSchedule_cases hdoc h
      exact hrefl _
  | revoke id =>
      simp only [execute, revoke, bind_eq_ok] at h
      obtain ⟨_, -, _, -, _, -, due, -, paid, hpaid, hclose⟩ := h
      have hreleased : R s.ledger paid.ledger := by
        split at hpaid
        · exact hrelease hpaid
        · rw [pure_eq_ok] at hpaid
          rw [← hpaid]
          exact hrefl _
      obtain ⟨_, -, -, rfl⟩ := (closeSchedule_eq_ok hdoc.safeMath).mp hclose
      exact hreleased
  | withdraw amount =>
      simp only [execute, withdraw, bind_eq_ok, pure_eq_ok] at h
      obtain ⟨_, -, _, -, _, -, _, -, ledger, hpaid, rfl⟩ := h
      exact hpay _ _ _ _ hpaid
  | release id amount => exact hrelease h
  | transferOwnership newOwner =>
      simp only [execute, bind_eq_ok, pure_eq_ok] at h
      obtain ⟨_, -, rfl⟩ := h
      exact hrefl _
  | renounceOwnership =>
      simp only [execute, bind_eq_ok, pure_eq_ok] at h
      obtain ⟨_, -, rfl⟩ := h
      exact hrefl _

end TokenVesting

/-- A chain with PLMY and a vesting contract, whose address nobody has a key
of.  What `contract` says of tokens is replaced by PLMY. -/
structure PlmyVesting where
  chain : Chain
  token_ne_zero : chain.self ≠ 0
  contract : Deployment
  keyless : ∀ digest v r sig, chain.ecrecover digest v r sig ≠ contract.self

namespace PlmyVesting

variable (d : PlmyVesting)

/-- The vesting contract on PLMY. -/
abbrev deployment : Deployment :=
  { d.contract with
    keccak256 := d.chain.keccak256
    tokens := plmyTokens d.chain d.contract.self d.token_ne_zero }

variable {d}

theorem documented (hdoc : d.contract.Documented) : d.deployment.Documented :=
  ⟨hdoc.safeMath, hdoc.ownable, hdoc.guard, hdoc.initializable⟩

/-- PLMY in a state of the two contracts. -/
def plmy (v : VestingState d.deployment) : PlmyLedger d.chain d.contract.self :=
  v.contract.ledger

/-- The state with PLMY moved on. -/
def withPlmy (v : VestingState d.deployment) (ledger : PlmyLedger d.chain d.contract.self) :
    VestingState d.deployment :=
  ⟨v.now, { v.contract with ledger := ledger }⟩

/-- What a call of the vesting contract sees in the current block. -/
def message (v : VestingState d.deployment) (sender : Address) : Message :=
  ⟨sender, (plmy v).block.timestamp⟩

/-- One step of the two contracts. -/
inductive Step : VestingState d.deployment → VestingState d.deployment → Prop where
  | nextBlock {v : VestingState d.deployment} (block : Block)
      (onTransfer : Address → Address → Address → Uint256 → Result Unit)
      (hnumber : (plmy v).block.number ≤ block.number)
      (htime : (plmy v).block.timestamp ≤ block.timestamp) :
      Step v (withPlmy v ((plmy v).nextBlock block onTransfer hnumber))
  | token {v : VestingState d.deployment} (sender : Address) (hsender : sender ≠ d.contract.self)
      (call : Call) : Step v (withPlmy v ((plmy v).call d.keyless sender hsender call))
  | upgrade {v : VestingState d.deployment} (sender : Address)
      (himplementation : (plmy v).implementation = .plmyToken) :
      Step v (withPlmy v ((plmy v).upgrade himplementation sender))
  | vesting {v : VestingState d.deployment} (sender : Address) (call : TokenVesting.Call) :
      Step v ⟨(message v sender).timestamp,
        commit v.contract (execute d.deployment (message v sender) v.contract call)⟩

/-- The states the two contracts reach from the deployment of the vesting
contract on. -/
def Reachable (v : VestingState d.deployment) : Prop :=
  ∃ (owner : Address) (ledger : PlmyLedger d.chain d.contract.self),
    Relation.ReflTransGen Step ⟨ledger.block.timestamp, genesis d.deployment owner ledger⟩ v

section Runs

variable {v w : VestingState d.deployment}

theorem holdings_eq (token : Address) (ledger : PlmyLedger d.chain d.contract.self) :
    d.deployment.tokens.holdings token ledger d.contract.self =
      if token = d.chain.self then ledger.token.holdings d.contract.self else 0 := by
  by_cases htoken : token = d.chain.self
  · rw [if_pos htoken, htoken]
    exact congrFun (holdings_plmyTokens d.token_ne_zero ledger) _
  · rw [if_neg htoken, OpenZeppelin.Tokens.holdings]
    simp only [if_neg htoken]

theorem faithful_of_bound (hbound : v.contract.token = d.chain.self) :
    d.deployment.tokens.Faithful v.contract.token :=
  hbound.symm ▸ faithful_plmyTokens d.token_ne_zero

theorem pays_of_bound (hbound : v.contract.token = d.chain.self)
    (hhook : HookAccepts ((plmy v).env d.contract.self) (plmy v).token) :
    d.deployment.tokens.Pays v.contract.token v.contract.ledger :=
  hbound.symm ▸ pays_plmyTokens d.token_ne_zero hhook

/-- Whatever moves PLMY on, and takes nothing from the contract, is a deposit. -/
theorem vestingStep_withPlmy {ledger : PlmyLedger d.chain d.contract.self}
    (hkept : (plmy v).token.holdings d.contract.self ≤ ledger.token.holdings d.contract.self) :
    VestingStep v (withPlmy v ledger) := by
  apply VestingStep.deposit
  rw [holdings_eq, holdings_eq]
  split
  · exact hkept
  · exact le_rfl

/-- A call of the vesting contract leaves the block as it is. -/
theorem block_execute (hdoc : d.deployment.Documented) {m : Message} {call : TokenVesting.Call}
    {s s' : TokenVesting d.deployment} (h : execute d.deployment m s call = .ok s') :
    (show PlmyLedger d.chain d.contract.self from s'.ledger).block =
      (show PlmyLedger d.chain d.contract.self from s.ledger).block := by
  refine ledger_rule (d := d.deployment)
    (R := fun ledger ledger' : PlmyLedger d.chain d.contract.self => ledger'.block = ledger.block)
    hdoc (fun _ => rfl) ?_ h
  intro recipient amount ledger ledger' hpaid
  change (if s.token = d.chain.self then _ else _) = _ at hpaid
  split at hpaid
  · exact (PlmyLedger.transfer_eq_ok hpaid).2.2.2
  · cases hpaid

/-- The clock of the vesting contract is never ahead of the block. -/
theorem Step.now_le (hdoc : d.deployment.Documented) (hstep : Step v w)
    (hnow : v.now ≤ (plmy v).block.timestamp) : w.now ≤ (plmy w).block.timestamp := by
  cases hstep with
  | nextBlock block onTransfer hnumber htime => exact hnow.trans htime
  | token | upgrade => exact hnow
  | vesting sender call =>
      rcases commit_cases v.contract (execute d.deployment (message v sender) v.contract call)
        with hsame | hok
      · exact (congrArg (fun s : TokenVesting d.deployment =>
          (show PlmyLedger d.chain d.contract.self from s.ledger).block.timestamp) hsame).ge
      · exact (congrArg Block.timestamp (block_execute hdoc hok)).ge

theorem Step.vestingStep (hstep : Step v w) (hnow : v.now ≤ (plmy v).block.timestamp) :
    VestingStep v w := by
  cases hstep with
  | nextBlock block onTransfer hnumber htime => exact vestingStep_withPlmy le_rfl
  | token sender hsender call => exact vestingStep_withPlmy PlmyLedger.holdings_call
  | upgrade sender himplementation =>
      apply vestingStep_withPlmy
      rw [PlmyLedger.token_upgrade]
  | vesting sender call => exact .call (message v sender) call hnow

theorem run_vestingSteps (hdoc : d.deployment.Documented)
    (hnow : v.now ≤ (plmy v).block.timestamp) (hrun : Relation.ReflTransGen Step v w) :
    Relation.ReflTransGen VestingStep v w ∧ w.now ≤ (plmy w).block.timestamp := by
  induction hrun with
  | refl => exact ⟨.refl, hnow⟩
  | tail _ hstep ih =>
      obtain ⟨hsteps, hbefore⟩ := ih
      exact ⟨hsteps.tail (hstep.vestingStep hbefore), hstep.now_le hdoc hbefore⟩

/-- A run of the two contracts is a run of the vesting contract. -/
theorem Reachable.vesting (hdoc : d.deployment.Documented) (hreach : Reachable v) :
    v.Reachable ∧ v.now ≤ (plmy v).block.timestamp := by
  obtain ⟨owner, ledger, hrun⟩ := hreach
  obtain ⟨hsteps, hnow⟩ := run_vestingSteps hdoc le_rfl hrun
  exact ⟨⟨_, owner, ledger, hsteps⟩, hnow⟩

theorem Reachable.accounted (hdoc : d.deployment.Documented) (hreach : Reachable v)
    (hbound : v.contract.token = d.chain.self)
    (hcollision : Set.InjOn d.chain.keccak256 v.contract.hashed) :
    Accounted v.now v.contract :=
  (hreach.vesting hdoc).1.accounted hdoc (fun _ => faithful_of_bound hbound) hcollision

end Runs

end PlmyVesting

namespace Sample

-- PLMY is minted to the vesting contract, Alice grants Bob a thousand units,
-- and the token is upgraded before anything is due.

def plmyVesting : PlmyVesting where
  chain := { chain with keccak256 := deployment.keccak256 }
  token_ne_zero := by decide
  contract := deployment
  keyless _ _ _ _ := show (0 : Address) ≠ vestingAddress by decide

def plmyMinted : PlmyLedger plmyVesting.chain vestingAddress where
  implementation := .plmyToken
  txs := [⟨env alice 1, .call (.initializeV1 vestingAddress bob 0)⟩]
  block := block 1
  onTransfer _ _ _ _ := .ok ()
  run := .call .deployed (by decide)
  block_le := by decide
  unapproved _ := rfl
  undelegated t := by cases t <;> rfl

/-- A call of the vesting contract of PLMY, and the state after it. -/
def sendOnPlmy (v : VestingState plmyVesting.deployment) (sender : Address)
    (call : TokenVesting.Call) : VestingState plmyVesting.deployment :=
  ⟨(PlmyVesting.message v sender).timestamp, commit v.contract
    (execute plmyVesting.deployment (PlmyVesting.message v sender) v.contract call)⟩

def grantedOnPlmy : VestingState plmyVesting.deployment :=
  sendOnPlmy (sendOnPlmy ⟨0, genesis plmyVesting.deployment alice plmyMinted⟩ alice
    (.initialzie chain.self)) alice (.createVestingSchedule bob 10 0 100 1 true 1000)

/-- Block 2, a minute later. -/
def minuteLater : Block := ⟨2, 60, by decide⟩

def upgradedOnPlmy : VestingState plmyVesting.deployment :=
  PlmyVesting.withPlmy grantedOnPlmy
    (((PlmyVesting.plmy grantedOnPlmy).upgrade (by rfl) alice).nextBlock minuteLater
      (fun _ _ _ _ => .ok ()) (by decide))

theorem grantedOnPlmy_reachable : PlmyVesting.Reachable grantedOnPlmy :=
  ⟨alice, plmyMinted, .tail (.single (.vesting alice (.initialzie chain.self)))
    (.vesting alice (.createVestingSchedule bob 10 0 100 1 true 1000))⟩

theorem upgradedOnPlmy_reachable : PlmyVesting.Reachable upgradedOnPlmy := by
  obtain ⟨owner, ledger, hrun⟩ := grantedOnPlmy_reachable
  exact ⟨owner, ledger, .tail (.tail hrun (.upgrade alice (by rfl)))
    (.nextBlock minuteLater (fun _ _ _ _ => .ok ()) (by decide) (by decide))⟩

theorem upgradedOnPlmy_injOn :
    Set.InjOn plmyVesting.chain.keccak256 upgradedOnPlmy.contract.hashed :=
  injOn_hashed_of_one (s := granted.contract) rfl

end Sample

namespace PlmyVesting

variable {d : PlmyVesting}

/-- The vesting contract of PLMY is solvent whatever happens to the token.  In
every state that calls of the contract, calls and the upgrade of the token by
others and new blocks lead to, in any order, what the schedules owe adds up to
the total, the PLMY balance of the contract covers it, the rest can be
withdrawn, nobody else may spend of it, and the token is in a state of a run of
its own, with all balances adding up to its supply. -/
theorem plmy_vesting_is_solvent {v : VestingState d.deployment}
    (hdoc : d.deployment.Documented) (hreach : Reachable v)
    (hbound : v.contract.token = d.chain.self)
    (hcollision : Set.InjOn d.chain.keccak256 v.contract.hashed) :
    v.contract.vestingSchedulesTotalAmount.val =
        ∑ id with (v.contract.vestingSchedules id).Active,
          ((v.contract.vestingSchedules id).amountTotal.val -
            (v.contract.vestingSchedules id).released.val) ∧
      (∃ withdrawable, getWithdrawableAmount d.deployment v.contract = .ok withdrawable ∧
        v.contract.vestingSchedulesTotalAmount.val + withdrawable.val =
          ((plmy v).token.balances d.contract.self).val) ∧
      (∀ spender, (plmy v).token.allowances d.contract.self spender = 0) ∧
      UpgradeRun d.chain (plmy v).implementation (plmy v).txs ∧
      ∑ account, ((plmy v).token.balances account).val = (plmy v).token.totalSupply.val := by
  have hinv := hreach.accounted hdoc hbound hcollision
  have hholdings : d.deployment.tokens.holdings v.contract.token v.contract.ledger
      d.contract.self = ((plmy v).token.balances d.contract.self).val := by
    rw [hbound]
    exact (holdings_eq _ _).trans (if_pos rfl)
  refine ⟨?_, ?_, (plmy v).unapproved, (plmy v).run, (plmy v).powerInvariant.supply.total⟩
  · rw [hinv.total, Finset.sum_filter]
    rfl
  · obtain ⟨withdrawable, hok, hsum⟩ := getWithdrawableAmount_of_le hdoc.safeMath
      (faithful_of_bound hbound) (hinv.funded (hbound.symm ▸ d.token_ne_zero))
    exact ⟨withdrawable, hok, hsum.trans hholdings⟩

/-- After the upgrade in the sample run Bob's thousand units are covered. -/
theorem plmy_vesting_is_solvent_sample :
    ∃ withdrawable, getWithdrawableAmount Sample.plmyVesting.deployment
        Sample.upgradedOnPlmy.contract = .ok withdrawable ∧
      1000 + withdrawable.val =
        ((plmy Sample.upgradedOnPlmy).token.balances Sample.vestingAddress).val := by
  obtain ⟨-, ⟨withdrawable, hok, hsum⟩, -⟩ := plmy_vesting_is_solvent
    (documented Sample.deployment_documented) Sample.upgradedOnPlmy_reachable rfl
    Sample.upgradedOnPlmy_injOn
  exact ⟨withdrawable, hok, hsum⟩

section Votes

variable {v : VestingState d.deployment} {id : Bytes32} {amount : Uint256} {sender : Address}
  {s' : TokenVesting d.deployment}

/-- A release is a transfer of PLMY by the contract. -/
theorem transfer_of_release (hdoc : d.deployment.Documented)
    (hbound : v.contract.token = d.chain.self)
    (h : release d.deployment (message v sender) id amount v.contract = .ok s') :
    PlmyLedger.transfer d.contract.self (v.contract.vestingSchedules id).beneficiary amount
      (plmy v) = .ok (plmy ⟨v.now, s'⟩) := by
  obtain ⟨_, _, _, _, ledger, -, -, -, -, -, -, -, -, hpaid, rfl⟩ :=
    (release_eq_ok hdoc.safeMath).mp h
  change (if v.contract.token = d.chain.self then _ else _) = _ at hpaid
  rwa [if_pos hbound] at hpaid

/-- A transfer moves the power of either type between the delegatees. -/
theorem moved_power_transfer {l l' : PlmyLedger d.chain d.contract.self} {src dst : Address}
    (h : PlmyLedger.transfer src dst amount l = .ok l') (t : DelegationType) :
    Delegation.Moved (l.token.delegatedPower t) (l'.token.delegatedPower t)
      (GovernancePowerDelegation.getDelegateeByType src t l.token)
      (GovernancePowerDelegation.getDelegateeByType dst t l.token) amount.val := by
  obtain ⟨hexecute, -⟩ := PlmyLedger.transfer_eq_ok h
  obtain ⟨-, hmoved⟩ := l.implementation.moved_transfer hexecute
  obtain ⟨-, hdelegates⟩ := l.implementation.kept_transfer hexecute
  have hpower := hmoved.power fun account =>
    GovernancePowerDelegation.getDelegateeByType account t l.token
  have hafter : l'.token.delegatedPower t = Delegation.power l'.token.holdings
      (fun account => GovernancePowerDelegation.getDelegateeByType account t l.token) := by
    funext user
    rw [Token.delegatedPower_eq]
    simp only [GovernancePowerDelegation.getDelegateeByType, hdelegates]
  rw [hafter]
  exact hpower

/-- The contract is its own delegatee. -/
theorem getDelegateeByType_self (l : PlmyLedger d.chain d.contract.self) (t : DelegationType) :
    GovernancePowerDelegation.getDelegateeByType d.contract.self t l.token = d.contract.self := by
  rw [GovernancePowerDelegation.getDelegateeByType, GovernancePowerDelegation.getDelegatee]
  exact if_pos (l.undelegated t)

end Votes

/-- Locked tokens do not vote, and released ones do.  In every state of the two
contracts the power of either type that stands for what the schedules owe is the
vesting contract's own.  Where the transfer hook lets transfers pass, whoever may
release an amount that is due of a schedule that fits can do so; and whenever a
release goes through, the power of its amount has gone from the contract to the
delegatee of the beneficiary, and no other power has changed. -/
theorem released_tokens_bring_their_votes {v : VestingState d.deployment}
    (hdoc : d.deployment.Documented) (hreach : Reachable v)
    (hbound : v.contract.token = d.chain.self)
    (hcollision : Set.InjOn d.chain.keccak256 v.contract.hashed) (t : DelegationType) :
    (∃ power, GovernancePowerDelegation.getPowerCurrent (plmy v).block d.contract.self t
        (plmy v).token = .ok power ∧ v.contract.vestingSchedulesTotalAmount ≤ power) ∧
      (∀ id amount sender, HookAccepts ((plmy v).env d.contract.self) (plmy v).token →
        (v.contract.vestingSchedules id).Active → (v.contract.vestingSchedules id).Fits →
        sender = (v.contract.vestingSchedules id).beneficiary ∨
          sender = d.contract.ownable.owner v.contract.owner →
        amount.val ≤ (v.contract.vestingSchedules id).vestedAt (plmy v).block.timestamp -
          (v.contract.vestingSchedules id).released.val →
        Succeeds (release d.deployment (message v sender) id amount v.contract)) ∧
      ∀ id amount sender s',
        release d.deployment (message v sender) id amount v.contract = .ok s' →
        ∀ user, ∃ before after,
          GovernancePowerDelegation.getPowerCurrent (plmy v).block user t (plmy v).token =
              .ok before ∧
            GovernancePowerDelegation.getPowerCurrent (plmy v).block user t
              (plmy ⟨v.now, s'⟩).token = .ok after ∧
            after.val + (if d.contract.self = user then amount.val else 0) =
              before.val + (if GovernancePowerDelegation.getDelegateeByType
                (v.contract.vestingSchedules id).beneficiary t (plmy v).token = user
                  then amount.val else 0) := by
  have hinv := hreach.accounted hdoc hbound hcollision
  obtain ⟨-, hnow⟩ := hreach.vesting hdoc
  refine ⟨?_, ?_, ?_⟩
  · obtain ⟨power, hpower, hval⟩ := getPowerCurrent_spec (t := t)
      (plmy v).powerInvariant d.contract.self
    refine ⟨power, hpower, Fin.le_def.mpr ?_⟩
    have hfunded := hinv.funded (hbound.symm ▸ d.token_ne_zero)
    rw [hbound, holdings_eq, if_pos rfl] at hfunded
    have hown := Delegation.le_power (plmy v).token.holdings
      (fun account => GovernancePowerDelegation.getDelegateeByType account t (plmy v).token)
      d.contract.self
    rw [getDelegateeByType_self] at hown
    rw [hval]
    exact hfunded.trans hown
  · intro id amount sender hhook hactive hfits hcaller henough
    exact (hinv.succeeds_release_iff (m := message v sender) hdoc (pays_of_bound hbound hhook)
      hactive hfits hnow hcaller).mpr henough
  · intro id amount sender s' hrelease user
    have htransfer := transfer_of_release hdoc hbound hrelease
    have hmoved := moved_power_transfer htransfer t user
    rw [getDelegateeByType_self] at hmoved
    have hblock := (PlmyLedger.transfer_eq_ok htransfer).2.2.2
    obtain ⟨before, hbefore, hbeforeVal⟩ := getPowerCurrent_spec (t := t)
      (plmy v).powerInvariant user
    obtain ⟨after, hafter, hafterVal⟩ := getPowerCurrent_spec (t := t)
      (hblock ▸ (plmy ⟨v.now, s'⟩).powerInvariant) user
    exact ⟨before, after, hbefore, hafter, by rw [hafterVal, hbeforeVal]; exact hmoved⟩

/-- Bob can release half of his grant after the upgrade. -/
theorem released_tokens_bring_their_votes_sample :
    Succeeds (release Sample.plmyVesting.deployment (message Sample.upgradedOnPlmy Sample.bob)
      Sample.grantId 500 Sample.upgradedOnPlmy.contract) := by
  have hgrant : Sample.upgradedOnPlmy.contract.vestingSchedules Sample.grantId =
      ⟨true, Sample.bob, 10, 10, 100, 1, true, 1000, 0, false⟩ := by decide +kernel
  exact (released_tokens_bring_their_votes (d := Sample.plmyVesting)
    (documented Sample.deployment_documented) Sample.upgradedOnPlmy_reachable rfl
    Sample.upgradedOnPlmy_injOn .votingPower).2.1 Sample.grantId 500 Sample.bob (Or.inl rfl)
    (by rw [hgrant]; decide) (by rw [hgrant]; exact ⟨by decide, by decide⟩)
    (by rw [hgrant]; decide) (by rw [hgrant]; decide)

end PlmyVesting

end Palmy

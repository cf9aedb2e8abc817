/-
TokenVesting.sol: schedules that vest tokens to beneficiaries out of one
balance, and the runs of the contract.
-/
import Palmy.Library.AbiEncoding
import Palmy.Library.Accrual
import Palmy.OpenZeppelin

namespace Palmy

open Solidity

/-- What a vesting contract is deployed with: the hash function of the chain,
its own address, and the code it is built on. -/
structure Deployment where
  keccak256 : Bytes → Bytes32
  self : Address
  self_ne_zero : self ≠ 0
  safeMath : OpenZeppelin.SafeMath
  ownable : OpenZeppelin.Ownable
  guard : OpenZeppelin.ReentrancyGuard
  initializable : OpenZeppelin.Initializable
  tokens : OpenZeppelin.Tokens

structure Deployment.Documented (d : Deployment) : Prop where
  safeMath : d.safeMath.Documented
  ownable : d.ownable.Documented
  guard : d.guard.Documented
  initializable : d.initializable.Documented

structure VestingSchedule where
  initialized : Bool
  beneficiary : Address
  cliff : Uint256
  start : Uint256
  duration : Uint256
  slicePeriodSeconds : Uint256
  revocable : Bool
  amountTotal : Uint256
  released : Uint256
  revoked : Bool
deriving DecidableEq

/-- A slot of the mapping that nobody wrote. -/
def VestingSchedule.empty : VestingSchedule := ⟨false, 0, 0, 0, 0, 0, false, 0, 0, false⟩

inductive VestingEvent where
  | scheduleCreated (vestingScheduleId : Bytes32) (beneficiary : Address)
      (start cliff duration slicePeriodSeconds : Uint256) (revocable : Bool) (amount : Uint256)
  | released (vestingScheduleId : Bytes32) (amount : Uint256)
  | revoked (vestingScheduleId : Bytes32)
deriving DecidableEq

/-- The storage of the contract and of the tokens, with the event log. -/
structure TokenVesting (d : Deployment) where
  owner : d.ownable.Slot
  status : d.guard.Slot
  initialized : d.initializable.Slot
  token : Address
  vestingSchedulesIds : List Bytes32
  vestingSchedules : Bytes32 → VestingSchedule
  vestingSchedulesTotalAmount : Uint256
  holdersVestingCount : Address → Uint256
  ledger : d.tokens.Ledger
  log : List VestingEvent

/-- One transaction as the contract sees it. -/
structure Message where
  msgSender : Address
  timestamp : Uint256

namespace TokenVesting

variable (d : Deployment)

/-- The contract as its constructor leaves it. -/
def genesis (owner : Address) (ledger : d.tokens.Ledger) : TokenVesting d where
  owner := d.ownable.ownedBy owner
  status := d.guard.idle
  initialized := d.initializable.fresh
  token := 0
  vestingSchedulesIds := []
  vestingSchedules _ := .empty
  vestingSchedulesTotalAmount := 0
  holdersVestingCount _ := 0
  ledger := ledger
  log := []

def initialzie (token : Address) (s : TokenVesting d) : Result (TokenVesting d) := do
  let initialized ← d.initializable.initializer s.initialized
  let s := { s with initialized := initialized }
  requireSilently (token ≠ 0)
  return { s with token := token }

def getWithdrawableAmount (s : TokenVesting d) : Result Uint256 := do
  let balance ← d.tokens.balanceOf s.token d.self s.ledger
  d.safeMath.sub balance s.vestingSchedulesTotalAmount

def computeVestingScheduleIdForAddressAndIndex (holder : Address) (index : Uint256) : Bytes32 :=
  d.keccak256 (holder.packed ++ wordBytes index)

def computeNextVestingScheduleIdForHolder (s : TokenVesting d) (holder : Address) : Bytes32 :=
  computeVestingScheduleIdForAddressAndIndex d holder (s.holdersVestingCount holder)

/-- The number of ids handed out. -/
def getVestingSchedulesCount (s : TokenVesting d) : ℕ := s.vestingSchedulesIds.length

def createVestingSchedule (m : Message) (beneficiary : Address)
    (start cliff duration slicePeriodSeconds : Uint256) (revocable : Bool) (amount : Uint256)
    (s : TokenVesting d) : Result (TokenVesting d) := do
  d.ownable.onlyOwner m.msgSender s.owner
  let withdrawable ← getWithdrawableAmount d s
  require (amount ≤ withdrawable)
    "TokenVesting: cannot create vesting schedule because not sufficient tokens"
  require (0 < duration) "TokenVesting: duration must be > 0"
  require (0 < amount) "TokenVesting: amount must be > 0"
  require (1 ≤ slicePeriodSeconds) "TokenVesting: slicePeriodSeconds must be >= 1"
  require (beneficiary ≠ 0) "TokenVesting: benefiticary must not be empty"
  let vestingScheduleId := computeNextVestingScheduleIdForHolder d s beneficiary
  let cliff ← d.safeMath.add start cliff
  let s := { s with
    vestingSchedules := Function.update s.vestingSchedules vestingScheduleId
      ⟨true, beneficiary, cliff, start, duration, slicePeriodSeconds, revocable, amount, 0,
        false⟩ }
  let total ← d.safeMath.add s.vestingSchedulesTotalAmount amount
  let s := { s with vestingSchedulesTotalAmount := total }
  let s := { s with vestingSchedulesIds := s.vestingSchedulesIds ++ [vestingScheduleId] }
  let count ← d.safeMath.add (s.holdersVestingCount beneficiary) 1
  let s := { s with
    holdersVestingCount := Function.update s.holdersVestingCount beneficiary count }
  return { s with log := s.log ++ [.scheduleCreated vestingScheduleId beneficiary start cliff
    duration slicePeriodSeconds revocable amount] }

/-- `_computeReleasableAmount`, at the time `getCurrentTime` gives. -/
def computeReleasableAmountInternal (currentTime : Uint256) (vestingSchedule : VestingSchedule) :
    Result Uint256 :=
  if currentTime < vestingSchedule.cliff ∨ vestingSchedule.revoked = true then
    return 0
  else do
    let finish ← d.safeMath.add vestingSchedule.start vestingSchedule.duration
    if finish ≤ currentTime then
      d.safeMath.sub vestingSchedule.amountTotal vestingSchedule.released
    else
      let timeFromStart ← d.safeMath.sub currentTime vestingSchedule.start
      let vestedSlicePeriods ← d.safeMath.div timeFromStart vestingSchedule.slicePeriodSeconds
      let vestedSeconds ← d.safeMath.mul vestedSlicePeriods vestingSchedule.slicePeriodSeconds
      let product ← d.safeMath.mul vestingSchedule.amountTotal vestedSeconds
      let vestedAmount ← d.safeMath.div product vestingSchedule.duration
      d.safeMath.sub vestedAmount vestingSchedule.released

/-- The modifier `onlyIfVestingScheduleNotRevoked`. -/
def onlyIfVestingScheduleNotRevoked (vestingScheduleId : Bytes32) (s : TokenVesting d) :
    Result Unit := do
  requireSilently ((s.vestingSchedules vestingScheduleId).initialized = true)
  requireSilently ((s.vestingSchedules vestingScheduleId).revoked = false)

def computeReleasableAmount (m : Message) (vestingScheduleId : Bytes32) (s : TokenVesting d) :
    Result Uint256 := do
  onlyIfVestingScheduleNotRevoked d vestingScheduleId s
  computeReleasableAmountInternal d m.timestamp (s.vestingSchedules vestingScheduleId)

def release (m : Message) (vestingScheduleId : Bytes32) (amount : Uint256) (s : TokenVesting d) :
    Result (TokenVesting d) := do
  let entered ← d.guard.enter s.status
  let s := { s with status := entered }
  onlyIfVestingScheduleNotRevoked d vestingScheduleId s
  let vestingSchedule := s.vestingSchedules vestingScheduleId
  require (m.msgSender = vestingSchedule.beneficiary ∨ m.msgSender = d.ownable.owner s.owner)
    "TokenVesting: only beneficiary and owner can release vested tokens"
  let vestedAmount ← computeReleasableAmountInternal d m.timestamp vestingSchedule
  require (amount ≤ vestedAmount)
    "TokenVesting: cannot release tokens, not enough vested tokens"
  let released ← d.safeMath.add vestingSchedule.released amount
  let s := { s with
    vestingSchedules := Function.update s.vestingSchedules vestingScheduleId
      { vestingSchedule with released := released } }
  let total ← d.safeMath.sub s.vestingSchedulesTotalAmount amount
  let s := { s with vestingSchedulesTotalAmount := total }
  let ledger ← d.tokens.safeTransfer s.token d.self vestingSchedule.beneficiary amount s.ledger
  let s := { s with ledger := ledger }
  let s := { s with log := s.log ++ [VestingEvent.released vestingScheduleId amount] }
  return { s with status := d.guard.leave s.status }

/-- What is left of `revoke` once the vested amount is released: the rest of
the schedule is freed, read from storage again. -/
def closeSchedule (vestingScheduleId : Bytes32) (s : TokenVesting d) : Result (TokenVesting d) := do
  let vestingSchedule := s.vestingSchedules vestingScheduleId
  let unreleased ← d.safeMath.sub vestingSchedule.amountTotal vestingSchedule.released
  let total ← d.safeMath.sub s.vestingSchedulesTotalAmount unreleased
  let s := { s with vestingSchedulesTotalAmount := total }
  let s := { s with
    vestingSchedules := Function.update s.vestingSchedules vestingScheduleId
      { vestingSchedule with revoked := true } }
  return { s with log := s.log ++ [.revoked vestingScheduleId] }

def revoke (m : Message) (vestingScheduleId : Bytes32) (s : TokenVesting d) :
    Result (TokenVesting d) := do
  d.ownable.onlyOwner m.msgSender s.owner
  onlyIfVestingScheduleNotRevoked d vestingScheduleId s
  require ((s.vestingSchedules vestingScheduleId).revocable = true)
    "TokenVesting: vesting is not revocable"
  let vestedAmount ← computeReleasableAmountInternal d m.timestamp
    (s.vestingSchedules vestingScheduleId)
  let s ← (if 0 < vestedAmount then release d m vestingScheduleId vestedAmount s else pure s)
  closeSchedule d vestingScheduleId s

def withdraw (m : Message) (amount : Uint256) (s : TokenVesting d) :
    Result (TokenVesting d) := do
  let entered ← d.guard.enter s.status
  let s := { s with status := entered }
  d.ownable.onlyOwner m.msgSender s.owner
  let withdrawable ← getWithdrawableAmount d s
  require (amount ≤ withdrawable) "TokenVesting: not enough withdrawable funds"
  let ledger ← d.tokens.safeTransfer s.token d.self (d.ownable.owner s.owner) amount s.ledger
  let s := { s with ledger := ledger }
  return { s with status := d.guard.leave s.status }

/-- The public functions that change state, `Ownable`'s included. -/
inductive Call where
  | initialzie (token : Address)
  | createVestingSchedule (beneficiary : Address)
      (start cliff duration slicePeriodSeconds : Uint256) (revocable : Bool) (amount : Uint256)
  | revoke (vestingScheduleId : Bytes32)
  | withdraw (amount : Uint256)
  | release (vestingScheduleId : Bytes32) (amount : Uint256)
  | transferOwnership (newOwner : Address)
  | renounceOwnership

def execute (m : Message) (s : TokenVesting d) : Call → Result (TokenVesting d)
  | .initialzie token => initialzie d token s
  | .createVestingSchedule beneficiary start cliff duration slicePeriodSeconds revocable amount =>
      createVestingSchedule d m beneficiary start cliff duration slicePeriodSeconds revocable
        amount s
  | .revoke vestingScheduleId => revoke d m vestingScheduleId s
  | .withdraw amount => withdraw d m amount s
  | .release vestingScheduleId amount => release d m vestingScheduleId amount s
  | .transferOwnership newOwner => do
      let owner ← d.ownable.transferOwnership m.msgSender newOwner s.owner
      return { s with owner := owner }
  | .renounceOwnership => do
      let owner ← d.ownable.renounceOwnership m.msgSender s.owner
      return { s with owner := owner }

end TokenVesting

/-- The contract at the time of the last transaction. -/
structure VestingState (d : Deployment) where
  now : Uint256
  contract : TokenVesting d

/-- One step of a run: a call by anybody, whether it succeeds or reverts, or
token transfers among others, which can only add to the contract's balance. -/
inductive VestingStep {d : Deployment} : VestingState d → VestingState d → Prop where
  | call {v : VestingState d} (m : Message) (call : TokenVesting.Call)
      (htime : v.now ≤ m.timestamp) :
      VestingStep v ⟨m.timestamp, commit v.contract (TokenVesting.execute d m v.contract call)⟩
  | deposit {v : VestingState d} {ledger : d.tokens.Ledger}
      (hkept : d.tokens.holdings v.contract.token v.contract.ledger d.self ≤
        d.tokens.holdings v.contract.token ledger d.self) :
      VestingStep v ⟨v.now, { v.contract with ledger := ledger }⟩

/-- The states a run of a freshly deployed contract reaches. -/
def VestingState.Reachable {d : Deployment} (v : VestingState d) : Prop :=
  ∃ now owner ledger,
    Relation.ReflTransGen VestingStep ⟨now, TokenVesting.genesis d owner ledger⟩ v

section Runs

variable {d : Deployment} {v w : VestingState d}

theorem VestingStep.of_ok {m : Message} (call : TokenVesting.Call) {s' : TokenVesting d}
    (htime : v.now ≤ m.timestamp) (h : TokenVesting.execute d m v.contract call = .ok s') :
    VestingStep v ⟨m.timestamp, s'⟩ := by
  have hstep := VestingStep.call m call htime
  rwa [h, commit_ok] at hstep

theorem VestingState.Reachable.run (hreach : v.Reachable)
    (hrun : Relation.ReflTransGen VestingStep v w) : w.Reachable := by
  obtain ⟨now, owner, ledger, hbefore⟩ := hreach
  exact ⟨now, owner, ledger, hbefore.trans hrun⟩

end Runs

end Palmy

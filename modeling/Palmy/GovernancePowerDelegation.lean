/-
GovernancePowerDelegationERC20.sol: delegation of voting and proposition power,
and the search of past powers.
-/
import Palmy.Permit

namespace Palmy

namespace GovernancePowerDelegation

open Solidity

def delegateByTypeTypehash (chain : Chain) : Bytes32 :=
  chain.keccak256 (stringBytes
    "DelegateByType(address delegatee,uint256 type,uint256 nonce,uint256 expiry)")

def delegateTypehash (chain : Chain) : Bytes32 :=
  chain.keccak256 (stringBytes "Delegate(address delegatee,uint256 nonce,uint256 expiry)")

/-- `_getDelegatee`: an account that never delegated is its own delegatee. -/
def getDelegatee (delegator : Address) (delegates : Address → Address) : Address :=
  let previousDelegatee := delegates delegator
  if previousDelegatee = 0 then delegator else previousDelegatee

def getDelegateeByType (delegator : Address) (t : DelegationType) (s : Token) : Address :=
  getDelegatee delegator (s.delegates t)

/-- The power last written for `user`, or its balance when nothing was. -/
def previousPower (user : Address) (t : DelegationType) (s : Token) : Uint256 :=
  let table := s.snapshotTable t
  let snapshotsCount := table.counts user
  if snapshotsCount ≠ 0 then uint256 (table.snapshots user (snapshotsCount - 1)).value
  else s.balances user

/-- One of the two branches of `_moveDelegatesByType`: read the power of `user`,
change it, write the snapshot and announce the new power.  The event carries
all 256 bits, the snapshot the low 128. -/
def changePower (env : Env) (user : Address) (change : Uint256 → Result Uint256)
    (t : DelegationType) (s : Token) : Result Token := do
  let previous := previousPower user t s
  let changed ← change previous
  let s := s.noteNarrowed [previous, changed]
  let table ← (s.snapshotTable t).writeSnapshot env.block user (uint128 changed)
  let s := s.setSnapshotTable t table
  return s.emit (.delegatedPowerChanged user changed t)

/-- `_moveDelegatesByType`. -/
def moveDelegatesByType (env : Env) (src dst : Address) (amount : Uint256)
    (t : DelegationType) (s : Token) : Result Token := do
  if src = dst then
    return s
  else
    let s ← (if src ≠ 0 then
        changePower env src (fun previous => SafeMath.sub previous amount) t s
      else pure s)
    if dst ≠ 0 then
      changePower env dst (fun previous => SafeMath.add previous amount) t s
    else pure s

/-- `_delegateByType`.  The delegatee is stored before the power moves. -/
def delegateByTypeInternal (env : Env) (delegator delegatee : Address) (t : DelegationType)
    (s : Token) : Result Token := do
  require (delegatee ≠ 0) "INVALID_DELEGATEE"
  let delegatorBalance := s.balances delegator
  let previousDelegatee := getDelegatee delegator (s.delegates t)
  let s := s.setDelegates t (Function.update (s.delegates t) delegator delegatee)
  let s ← moveDelegatesByType env previousDelegatee delegatee delegatorBalance t s
  return s.emit (.delegateChanged delegator delegatee t)

def delegateByType (env : Env) (delegatee : Address) (t : DelegationType) (s : Token) :
    Result Token :=
  delegateByTypeInternal env env.msgSender delegatee t s

def delegate (env : Env) (delegatee : Address) (s : Token) : Result Token := do
  let s ← delegateByTypeInternal env env.msgSender delegatee .votingPower s
  delegateByTypeInternal env env.msgSender delegatee .propositionPower s

/-- The `while` loop of `_searchByBlockNumber`.  One unit of fuel pays for one
evaluation of the loop condition. -/
def searchLoop (snapshotsUser : Uint256 → Snapshot) (blockNumber : Uint256) :
    ℕ → Uint256 → Uint256 → Result Uint256
  | 0, _, _ => .error .outOfGas
  | fuel + 1, lower, upper =>
      if lower < upper then do
        let width ← checkedSub upper lower
        let half ← checkedDiv width 2
        let center ← checkedSub upper half
        let snapshot := snapshotsUser center
        if uint256 snapshot.blockNumber = blockNumber then
          return uint256 snapshot.value
        else if uint256 snapshot.blockNumber < blockNumber then
          searchLoop snapshotsUser blockNumber fuel center upper
        else do
          let upper ← checkedSub center 1
          searchLoop snapshotsUser blockNumber fuel lower upper
      else return uint256 (snapshotsUser lower).value

/-- `_searchByBlockNumber`, called in the block `now`. -/
def searchByBlockNumber (now : Block) (table : SnapshotTable) (balanceOf : Address → Uint256)
    (user : Address) (blockNumber : Uint256) : Result Uint256 := do
  require (blockNumber ≤ now.number) "INVALID_BLOCK_NUMBER"
  let snapshotsCount := table.counts user
  let snapshotsUser := table.snapshots user
  if snapshotsCount = 0 then
    return balanceOf user
  -- First check most recent balance
  else if uint256 (snapshotsUser (snapshotsCount - 1)).blockNumber ≤ blockNumber then
    return uint256 (snapshotsUser (snapshotsCount - 1)).value
  -- Next check implicit zero balance
  else if blockNumber < uint256 (snapshotsUser 0).blockNumber then
    return 0
  else
    searchLoop snapshotsUser blockNumber snapshotsCount.val 0 (snapshotsCount - 1)

def getPowerCurrent (now : Block) (user : Address) (t : DelegationType) (s : Token) :
    Result Uint256 :=
  searchByBlockNumber now (s.snapshotTable t) s.balances user now.number

def getPowerAtBlock (now : Block) (user : Address) (blockNumber : Uint256)
    (t : DelegationType) (s : Token) : Result Uint256 :=
  searchByBlockNumber now (s.snapshotTable t) s.balances user blockNumber

/-- The block number is ignored: there is no minting after initialisation. -/
def totalSupplyAt (_blockNumber : Uint256) (s : Token) : Uint256 := s.totalSupply

end GovernancePowerDelegation

end Palmy

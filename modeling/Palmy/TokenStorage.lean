/-
What a transaction sees and what the token keeps.  PlmyToken and PlmyTokenV2
are two implementations behind one proxy and lay out the same slots, so one
record serves both; the slots V1 does not have stay zero while V1 runs.
-/
import Palmy.Library.AbiEncoding
import Palmy.SafeMath

namespace Palmy

open Solidity

/-- A block header.  Chains number their blocks in 64 bits, which the contracts
rely on when they store a block number in a `uint128`. -/
structure Block where
  number : Uint256
  timestamp : Uint256
  number_lt : number.val < 2 ^ 128

/-- One transaction as the token sees it.  `onTransfer` is the answer of the
transfer hook contract at a given address: it may refuse, on any ground of its
own, and it does not call back. -/
structure Env where
  msgSender : Address
  block : Block
  onTransfer : Address → Address → Address → Uint256 → Result Unit

/-- What the chain provides to every transaction: the two cryptographic
precompiles, the chain id and the address of the proxy. -/
structure Chain where
  keccak256 : Bytes → Bytes32
  ecrecover : Bytes32 → UInt8 → Bytes32 → Bytes32 → Address
  chainid : Uint256
  self : Address

inductive DelegationType where
  | votingPower
  | propositionPower
deriving Repr, DecidableEq

/-- The value of an enum as an ABI word. -/
def DelegationType.toWord : DelegationType → Uint256
  | .votingPower => 0
  | .propositionPower => 1

structure Snapshot where
  blockNumber : Uint128
  value : Uint128
deriving DecidableEq

instance : Inhabited Snapshot := ⟨⟨0, 0⟩⟩

/-- One mapping of snapshots with its mapping of counts: `_snapshots` and
`_countsSnapshots` in V1, which V2 renames `_votingSnapshots` and
`_votingSnapshotsCounts`, or the two of V2's proposition power. -/
@[ext] structure SnapshotTable where
  snapshots : Address → Uint256 → Snapshot
  counts : Address → Uint256

inductive Event where
  | transfer (src dst : Address) (value : Uint256)
  | approval (owner spender : Address) (value : Uint256)
  | snapshotDone (owner : Address) (oldValue newValue : Uint128)
  | delegateChanged (delegator delegatee : Address) (delegationType : DelegationType)
  | delegatedPowerChanged (user : Address) (amount : Uint256) (delegationType : DelegationType)
deriving DecidableEq

/-- The storage behind the proxy, with the event log of the run so far.
`narrowed` is a ghost: every `uint256` that the code converted to `uint128` on
its way into a snapshot. -/
structure Token where
  balances : Address → Uint256
  allowances : Address → Address → Uint256
  totalSupply : Uint256
  name : String
  symbol : String
  decimals : UInt8
  lastInitializedRevision : Uint256
  nonces : Address → Uint256
  votingSnapshots : SnapshotTable
  palmyGovernance : Address
  domainSeparator : Bytes32
  votingDelegates : Address → Address
  propositionPowerSnapshots : SnapshotTable
  propositionPowerDelegates : Address → Address
  log : List Event
  narrowed : List Uint256

/-- The storage of a proxy nobody has called yet. -/
def Token.genesis : Token where
  balances _ := 0
  allowances _ _ := 0
  totalSupply := 0
  name := ""
  symbol := ""
  decimals := 0
  lastInitializedRevision := 0
  nonces _ := 0
  votingSnapshots := ⟨fun _ _ => default, fun _ => 0⟩
  palmyGovernance := 0
  domainSeparator := 0
  votingDelegates _ := 0
  propositionPowerSnapshots := ⟨fun _ _ => default, fun _ => 0⟩
  propositionPowerDelegates _ := 0
  log := []
  narrowed := []

namespace Token

def emit (s : Token) (event : Event) : Token := { s with log := s.log ++ [event] }

def noteNarrowed (s : Token) (values : List Uint256) : Token :=
  { s with narrowed := s.narrowed ++ values }

/-- The snapshot mappings of a delegation type, as a storage reference. -/
def snapshotTable (s : Token) : DelegationType → SnapshotTable
  | .votingPower => s.votingSnapshots
  | .propositionPower => s.propositionPowerSnapshots

def setSnapshotTable (s : Token) : DelegationType → SnapshotTable → Token
  | .votingPower, table => { s with votingSnapshots := table }
  | .propositionPower, table => { s with propositionPowerSnapshots := table }

/-- The delegatees of a delegation type, as a storage reference. -/
def delegates (s : Token) : DelegationType → Address → Address
  | .votingPower => s.votingDelegates
  | .propositionPower => s.propositionPowerDelegates

def setDelegates (s : Token) : DelegationType → (Address → Address) → Token
  | .votingPower, delegates => { s with votingDelegates := delegates }
  | .propositionPower, delegates => { s with propositionPowerDelegates := delegates }

end Token

/-- The body of `_writeSnapshot`, the same in both contracts: a second write in
one block overwrites the newest entry, any other appends one. -/
def SnapshotTable.writeSnapshot (block : Block) (table : SnapshotTable) (owner : Address)
    (newValue : Uint128) : Result SnapshotTable := do
  let currentBlock := uint128 block.number
  let ownerSnapshotsCount := table.counts owner
  let snapshotsOwner := table.snapshots owner
  if ownerSnapshotsCount ≠ 0 ∧
      (snapshotsOwner (ownerSnapshotsCount - 1)).blockNumber = currentBlock then
    let newest := ownerSnapshotsCount - 1
    let overwritten := { snapshotsOwner newest with value := newValue }
    return { table with
      snapshots := Function.update table.snapshots owner
        (Function.update snapshotsOwner newest overwritten) }
  else
    let count ← checkedAdd ownerSnapshotsCount 1
    return {
      snapshots := Function.update table.snapshots owner
        (Function.update snapshotsOwner ownerSnapshotsCount ⟨currentBlock, newValue⟩)
      counts := Function.update table.counts owner count }

/-- The call both `_beforeTokenTransfer`s end with. -/
def callTransferHook (env : Env) (src dst : Address) (amount : Uint256) (s : Token) :
    Result Unit :=
  if s.palmyGovernance ≠ 0 then env.onTransfer s.palmyGovernance src dst amount else .ok ()

/-- The modifier of VersionedInitializable.sol. -/
def initializer (revision : Uint256) (s : Token) : Result Token := do
  require (s.lastInitializedRevision < revision)
    "Contract instance has already been initialized"
  return { s with lastInitializedRevision := revision }

end Palmy

/-
The proxy: one storage, a current implementation, and transactions that call
the implementation's public functions or switch it.
-/
import Palmy.Library.Timeline
import Palmy.PlmyToken
import Palmy.PlmyTokenV2

namespace Palmy

open Solidity

/-- The state-changing public functions of the two tokens.  A call the current
implementation has no function for reverts. -/
inductive Call where
  | initializeV1 (vestingAddress vaultAddress palmyGovernance : Address)
  | initializeV2
  | transfer (recipient : Address) (amount : Uint256)
  | approve (spender : Address) (amount : Uint256)
  | transferFrom (sender recipient : Address) (amount : Uint256)
  | increaseAllowance (spender : Address) (addedValue : Uint256)
  | decreaseAllowance (spender : Address) (subtractedValue : Uint256)
  | permit (owner spender : Address) (value deadline : Uint256) (v : UInt8) (r sig : Bytes32)
  | delegateByType (delegatee : Address) (t : DelegationType)
  | delegate (delegatee : Address)
  | delegateByTypeBySig (delegatee : Address) (t : DelegationType) (nonce expiry : Uint256)
      (v : UInt8) (r sig : Bytes32)
  | delegateBySig (delegatee : Address) (nonce expiry : Uint256) (v : UInt8) (r sig : Bytes32)

def PlmyToken.execute (chain : Chain) (env : Env) (s : Token) : Call → Result Token
  | .initializeV1 vestingAddress vaultAddress palmyGovernance =>
      PlmyToken.initializeToken chain env vestingAddress vaultAddress palmyGovernance s
  | .transfer recipient amount => PlmyToken.transfer env recipient amount s
  | .approve spender amount => ERC20.approve env spender amount s
  | .transferFrom sender recipient amount => PlmyToken.transferFrom env sender recipient amount s
  | .increaseAllowance spender addedValue => ERC20.increaseAllowance env spender addedValue s
  | .decreaseAllowance spender subtractedValue =>
      ERC20.decreaseAllowance env spender subtractedValue s
  | .permit owner spender value deadline v r sig =>
      Palmy.permit chain env owner spender value deadline v r sig s
  | _ => .error .silent

def PlmyTokenV2.execute (chain : Chain) (env : Env) (s : Token) : Call → Result Token
  | .initializeV1 .. => .error .silent
  | .initializeV2 => PlmyTokenV2.initializeToken s
  | .transfer recipient amount => PlmyTokenV2.transfer env recipient amount s
  | .approve spender amount => ERC20.approve env spender amount s
  | .transferFrom sender recipient amount =>
      PlmyTokenV2.transferFrom env sender recipient amount s
  | .increaseAllowance spender addedValue => ERC20.increaseAllowance env spender addedValue s
  | .decreaseAllowance spender subtractedValue =>
      ERC20.decreaseAllowance env spender subtractedValue s
  | .permit owner spender value deadline v r sig =>
      Palmy.permit chain env owner spender value deadline v r sig s
  | .delegateByType delegatee t =>
      GovernancePowerDelegation.delegateByType env delegatee t s
  | .delegate delegatee => GovernancePowerDelegation.delegate env delegatee s
  | .delegateByTypeBySig delegatee t nonce expiry v r sig =>
      PlmyTokenV2.delegateByTypeBySig chain env delegatee t nonce expiry v r sig s
  | .delegateBySig delegatee nonce expiry v r sig =>
      PlmyTokenV2.delegateBySig chain env delegatee nonce expiry v r sig s

inductive Implementation where
  | plmyToken
  | plmyTokenV2
deriving Repr, DecidableEq

def Implementation.execute (chain : Chain) (env : Env) (s : Token) :
    Implementation → Call → Result Token
  | .plmyToken => PlmyToken.execute chain env s
  | .plmyTokenV2 => PlmyTokenV2.execute chain env s

/-- The proxy with the storage it holds for its implementation. -/
structure Proxy where
  implementation : Implementation
  token : Token

/-- A freshly deployed proxy points at V1. -/
def Proxy.genesis : Proxy := ⟨.plmyToken, .genesis⟩

/-- `upgradeTo` is for the admin of the proxy alone; `upgradeToAndCall` is it
followed by a call in the same block. -/
inductive Action where
  | call (call : Call)
  | upgradeTo (implementation : Implementation)

structure Tx where
  env : Env
  action : Action

def Tx.block (tx : Tx) : ℕ := tx.env.block.number.val

namespace Proxy

variable (chain : Chain)

/-- The outcome of a transaction. -/
def execute (p : Proxy) (tx : Tx) : Result Proxy :=
  match tx.action with
  | .call call => do
      let token ← p.implementation.execute chain tx.env p.token call
      return { p with token := token }
  | .upgradeTo implementation => return { p with implementation := implementation }

/-- A transaction that reverts leaves the proxy as it was. -/
def step (p : Proxy) (tx : Tx) : Proxy := commit p (execute chain p tx)

/-- The proxy after a list of transactions. -/
def run (txs : List Tx) : Proxy := Timeline.run (step chain) genesis txs

/-- The proxy at the end of a block. -/
def stateAt (txs : List Tx) (block : ℕ) : Proxy :=
  Timeline.stateAt (step chain) Tx.block genesis txs block

end Proxy

/-- Runs of V1: a successful initialisation of a fresh proxy, then any calls in
any order, block numbers never going back. -/
inductive RunV1 (chain : Chain) : List Tx → Prop where
  | init {env : Env} {vestingAddress vaultAddress palmyGovernance : Address} {s : Token}
      (hinit : PlmyToken.initializeToken chain env vestingAddress vaultAddress palmyGovernance
        .genesis = .ok s) :
      RunV1 chain [⟨env, .call (.initializeV1 vestingAddress vaultAddress palmyGovernance)⟩]
  | call {txs : List Tx} {env : Env} {call : Call} (hrun : RunV1 chain txs)
      (hblock : ∀ tx ∈ txs, tx.block ≤ env.block.number.val) :
      RunV1 chain (txs ++ [⟨env, .call call⟩])

/-- Runs that upgrade once: a run of V1, the upgrade, then any calls of V2. -/
inductive RunV2 (chain : Chain) : List Tx → Prop where
  | upgrade {txs : List Tx} {env : Env} (hrun : RunV1 chain txs)
      (hblock : ∀ tx ∈ txs, tx.block ≤ env.block.number.val) :
      RunV2 chain (txs ++ [⟨env, .upgradeTo .plmyTokenV2⟩])
  | call {txs : List Tx} {env : Env} {call : Call} (hrun : RunV2 chain txs)
      (hblock : ∀ tx ∈ txs, tx.block ≤ env.block.number.val) :
      RunV2 chain (txs ++ [⟨env, .call call⟩])

/-- Runs of a fresh proxy that upgrade at most once, with the implementation in
charge at their end: calls of any kind and block numbers never going back. -/
inductive UpgradeRun (chain : Chain) : Implementation → List Tx → Prop where
  | deployed : UpgradeRun chain .plmyToken []
  | call {implementation : Implementation} {txs : List Tx} {env : Env} {call : Call}
      (hrun : UpgradeRun chain implementation txs)
      (hblock : ∀ tx ∈ txs, tx.block ≤ env.block.number.val) :
      UpgradeRun chain implementation (txs ++ [⟨env, .call call⟩])
  | upgrade {txs : List Tx} {env : Env} (hrun : UpgradeRun chain .plmyToken txs)
      (hblock : ∀ tx ∈ txs, tx.block ≤ env.block.number.val) :
      UpgradeRun chain .plmyTokenV2 (txs ++ [⟨env, .upgradeTo .plmyTokenV2⟩])

namespace Sample

-- One run, short enough to evaluate: Alice receives the distribution, pays Bob,
-- the proxy is upgraded, Alice delegates her vote to Bob and pays him again.

def chain : Chain where
  keccak256 _ := 0
  ecrecover _ _ _ _ := 0
  chainid := 1
  self := Address.ofNat 0x5075

instance neZero_hundred : NeZero 100 := ⟨by decide⟩

def block (number : Fin 100) : Block where
  number := ⟨number.val, by omega⟩
  timestamp := 0
  number_lt := Nat.lt_trans number.isLt (by decide)

def env (msgSender : Address) (number : Fin 100) : Env where
  msgSender := msgSender
  block := block number
  onTransfer _ _ _ _ := .ok ()

def alice : Address := Address.ofNat 1
def bob : Address := Address.ofNat 2

def txs : List Tx :=
  [⟨env alice 1, .call (.initializeV1 alice bob 0)⟩,
    ⟨env alice 2, .call (.transfer bob 100)⟩,
    ⟨env alice 3, .upgradeTo .plmyTokenV2⟩,
    ⟨env alice 4, .call (.delegateByType bob .votingPower)⟩,
    ⟨env alice 5, .call (.transfer bob 1)⟩]

theorem runV1_txs : RunV1 chain (txs.take 2) :=
  .call (.init rfl) (by decide)

theorem runV2_txs : RunV2 chain txs :=
  .call (.call (.upgrade runV1_txs (by decide)) (by decide)) (by decide)

theorem upgradeRun_upgraded : UpgradeRun chain .plmyTokenV2 (txs.take 3) :=
  .upgrade (.call (.call .deployed (by decide)) (by decide)) (by decide)

theorem upgradeRun_txs : UpgradeRun chain .plmyTokenV2 txs :=
  .call (.call upgradeRun_upgraded (by decide)) (by decide)

/-- A payment of Bob's that either implementation may execute. -/
def payment : Tx := ⟨env bob 3, .call (.transfer alice 40)⟩

end Sample

end Palmy

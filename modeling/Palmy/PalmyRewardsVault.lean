/-
PalmyRewardsVault.sol and MockIncentivesController.sol, with what SafeERC20.sol
does for the controller, on the chain of PLMY.
-/
import Palmy.Proxy

namespace Palmy

open Solidity

/-- `callOptionalReturn`: a token answers with a `bool` or with nothing at all. -/
def SafeERC20.callOptionalReturn {σ : Type} (isContract : Bool)
    (answer : Result (Option Bool × σ)) : Result σ := do
  require isContract "SafeERC20: call to non-contract"
  match answer with
  | .error _ => .error (.reason "SafeERC20: low-level call failed")
  | .ok (returndata, after) => do
      require (returndata ≠ some false) "SafeERC20: ERC20 operation did not succeed"
      return after

/-- The storage of the vault. -/
structure PalmyRewardsVault where
  lastInitializedRevision : Uint256
  token : Address
  incentivesController : Address

/-- The immutable fields of a controller. -/
structure MockIncentivesController where
  vault : Address
  token : Address

/-- What surrounds PLMY: the address of the vault, the addresses that hold
controllers, and what tokens other than PLMY answer.  Those call nobody back. -/
structure RewardsDeployment where
  chain : Chain
  vault : Address
  controllers : Address → Option MockIncentivesController
  isContract : Address → Bool
  approve : Address → Address → Uint256 → Result Unit
  transferFrom : Address → Address → Address → Uint256 → Result (Option Bool)

/-- The vault and PLMY. -/
@[ext] structure RewardsState where
  vault : PalmyRewardsVault
  plmy : Proxy

namespace PalmyRewardsVault

def revision : Uint256 := 1

/-- `type(uint256).max`. -/
def maxUint256 : Uint256 := Fin.last (2 ^ 256 - 1)

/-- A vault nobody has called yet. -/
def genesis : PalmyRewardsVault := ⟨0, 0, 0⟩

end PalmyRewardsVault

/-- A controller, or anybody, calls the vault or PLMY. -/
inductive RewardsRequest where
  | initializeVault (token incentivesController : Address)
  | transferFromVault (controller recipient : Address) (amount : Uint256)
  | plmy (action : Action)

structure RewardsTx where
  env : Env
  request : RewardsRequest

namespace RewardsDeployment

variable (d : RewardsDeployment)

/-- A call of PLMY by a contract. -/
def callPlmy (env : Env) (sender : Address) (call : Call) (plmy : Proxy) : Result Proxy :=
  Proxy.execute d.chain plmy ⟨{ env with msgSender := sender }, .call call⟩

/-- `token.approve(spender, amount)`, called by the vault. -/
def approveToken (env : Env) (token spender : Address) (amount : Uint256) (plmy : Proxy) :
    Result Proxy :=
  if token = d.chain.self then d.callPlmy env d.vault (.approve spender amount) plmy
  else do
    d.approve token spender amount
    return plmy

/-- `initialize` of the vault. -/
def initializeVault (env : Env) (token incentivesController : Address) (s : RewardsState) :
    Result RewardsState := do
  require (s.vault.lastInitializedRevision < PalmyRewardsVault.revision)
    "Contract instance has already been initialized"
  let vault := { s.vault with lastInitializedRevision := PalmyRewardsVault.revision }
  require (token ≠ 0) "RewardsVault: token address must not be empty"
  require (incentivesController ≠ 0) "RewardsVault: incentive controller not be empty"
  let vault := { vault with token := token, incentivesController := incentivesController }
  let plmy ← d.approveToken env token incentivesController PalmyRewardsVault.maxUint256 s.plmy
  return ⟨vault, plmy⟩

/-- What a token answers to `transferFrom`, called by `sender`.  PLMY is behind
its proxy and returns `true`. -/
def answerTransferFrom (env : Env) (sender token src recipient : Address) (amount : Uint256)
    (plmy : Proxy) : Result (Option Bool × Proxy) :=
  if token = d.chain.self then do
    let plmy ← d.callPlmy env sender (.transferFrom src recipient amount) plmy
    return (some true, plmy)
  else do
    let returndata ← d.transferFrom token src recipient amount
    return (returndata, plmy)

/-- `transferFromVault` of the controller at an address. -/
def transferFromVault (env : Env) (controller recipient : Address) (amount : Uint256)
    (s : RewardsState) : Result RewardsState :=
  match d.controllers controller with
  | none => .error .silent
  | some ⟨vault, token⟩ => do
      let plmy ← SafeERC20.callOptionalReturn (token = d.chain.self ∨ d.isContract token)
        (d.answerTransferFrom env controller token vault recipient amount s.plmy)
      return { s with plmy := plmy }

/-- The outcome of a transaction. -/
def execute (s : RewardsState) (tx : RewardsTx) : Result RewardsState :=
  match tx.request with
  | .initializeVault token incentivesController =>
      d.initializeVault tx.env token incentivesController s
  | .transferFromVault controller recipient amount =>
      d.transferFromVault tx.env controller recipient amount s
  | .plmy action => do
      let plmy ← Proxy.execute d.chain s.plmy ⟨tx.env, action⟩
      return { s with plmy := plmy }

/-- A transaction that reverts leaves everything as it was. -/
def step (s : RewardsState) (tx : RewardsTx) : RewardsState := commit s (d.execute s tx)

/-- The vault and PLMY after a list of transactions. -/
def run (txs : List RewardsTx) : RewardsState :=
  Timeline.run d.step ⟨.genesis, .genesis⟩ txs

end RewardsDeployment

namespace Sample

-- The sample run of the token with a vault beside it: Alice pays the vault,
-- the vault is opened, and its controller pays Bob.

def vaultAddress : Address := Address.ofNat 0x7a
def controllerAddress : Address := Address.ofNat 0xc0

def rewards : RewardsDeployment where
  chain := chain
  vault := vaultAddress
  controllers account :=
    if account = controllerAddress then some ⟨vaultAddress, chain.self⟩ else none
  isContract _ := false
  approve _ _ _ := .error .silent
  transferFrom _ _ _ _ := .error .silent

def rewardsTxs : List RewardsTx :=
  [⟨env bob 1, .plmy (.call (.initializeV1 alice bob 0))⟩,
    ⟨env alice 2, .plmy (.call (.transfer vaultAddress 100))⟩,
    ⟨env bob 2, .initializeVault chain.self controllerAddress⟩,
    ⟨env bob 3, .transferFromVault controllerAddress bob 30⟩]

end Sample

end Palmy

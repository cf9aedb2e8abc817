/-
InitializableAdminUpgradeabilityProxy.sol with its bases: a proxy that runs the
code of its implementation on its own storage, for everybody but its admin,
who can replace the implementation and nothing else.
-/
import Palmy.Library.Refinement
import Palmy.Proxy

namespace Palmy

open Solidity

/-- The calldata of a call to the proxy, by the function it selects.  `call` is
for the functions of implementations, which `δ` lists; `empty` selects none. -/
inductive Calldata (δ : Type) where
  | empty
  | call (data : δ)
  | admin
  | implementation
  | changeAdmin (newAdmin : Address)
  | upgradeTo (newImplementation : Address)
  | upgradeToAndCall (newImplementation : Address) (data : Calldata δ)
  | initializeProxy (logic : Address) (data : Calldata δ)
  | initializeProxyWithAdmin (logic newAdmin : Address) (data : Calldata δ)
deriving DecidableEq

/-- What a chain runs at its addresses: code that reads the environment of a
call and works on the storage of whoever delegates to it.  There is no code at
address zero. -/
structure Contracts (ε δ σ : Type) where
  msgSender : ε → Address
  code : Address → Option (ε → δ → σ → Result σ)
  code_zero : code 0 = none

inductive ProxyEvent where
  | upgraded (implementation : Address)
  | adminChanged (previousAdmin newAdmin : Address)
deriving DecidableEq

/-- The two slots of the proxy, the storage of its implementation, and the log.
The slots are hashes, which no variable of an implementation shares. -/
structure AdminProxy (σ : Type) where
  implementation : Address
  admin : Address
  storage : σ
  log : List ProxyEvent

/-- A proxy nobody has initialised yet. -/
def AdminProxy.genesis {σ : Type} (storage : σ) : AdminProxy σ := ⟨0, 0, storage, []⟩

/-- A call of the proxy. -/
structure ProxyRequest (ε δ : Type) where
  env : ε
  calldata : Calldata δ

variable {ε δ σ : Type} (c : Contracts ε δ σ)

/-- `Address.isContract`. -/
def isContract (account : Address) : Bool := (c.code account).isSome

/-- `delegatecall`.  Without code there is nothing to fail.  The implementations
answer their own functions and have no fallback. -/
def delegatecall (env : ε) (target : Address) (data : Calldata δ) (storage : σ) : Result σ :=
  match c.code target, data with
  | none, _ => .ok storage
  | some run, .call data => run env data storage
  | some _, _ => .error .silent

/-- `(bool success,) = target.delegatecall(data); require(success);` -/
def delegatecallOrRevert (env : ε) (target : Address) (data : Calldata δ) (storage : σ) :
    Result σ :=
  match delegatecall c env target data storage with
  | .ok storage => .ok storage
  | .error _ => .error .silent

namespace BaseUpgradeabilityProxy

/-- `_setImplementation`. -/
def setImplementation (newImplementation : Address) (p : AdminProxy σ) :
    Result (AdminProxy σ) := do
  require (isContract c newImplementation = true)
    "Cannot set a proxy implementation to a non-contract address"
  return { p with implementation := newImplementation }

/-- `_upgradeTo`. -/
def upgradeToInternal (newImplementation : Address) (p : AdminProxy σ) :
    Result (AdminProxy σ) := do
  let p ← setImplementation c newImplementation p
  return { p with log := p.log ++ [.upgraded newImplementation] }

end BaseUpgradeabilityProxy

namespace BaseAdminUpgradeabilityProxy

open BaseUpgradeabilityProxy

/-- `_fallback`, with the check of `_willFallback`. -/
def fallback (env : ε) (data : Calldata δ) (p : AdminProxy σ) : Result (AdminProxy σ) := do
  require (c.msgSender env ≠ p.admin) "Cannot call fallback function from the proxy admin"
  let storage ← delegatecall c env p.implementation data p.storage
  return { p with storage := storage }

/-- The modifier `ifAdmin`: anybody else's call goes to the implementation. -/
def ifAdmin (env : ε) (data : Calldata δ) (body : AdminProxy σ → Result (AdminProxy σ))
    (p : AdminProxy σ) : Result (AdminProxy σ) :=
  if c.msgSender env = p.admin then body p else fallback c env data p

def changeAdmin (env : ε) (newAdmin : Address) : AdminProxy σ → Result (AdminProxy σ) :=
  ifAdmin c env (.changeAdmin newAdmin) fun p => do
    require (newAdmin ≠ 0) "Cannot change the admin of a proxy to the zero address"
    let p := { p with log := p.log ++ [ProxyEvent.adminChanged p.admin newAdmin] }
    return { p with admin := newAdmin }

def upgradeTo (env : ε) (newImplementation : Address) : AdminProxy σ → Result (AdminProxy σ) :=
  ifAdmin c env (.upgradeTo newImplementation) (upgradeToInternal c newImplementation)

def upgradeToAndCall (env : ε) (newImplementation : Address) (data : Calldata δ) :
    AdminProxy σ → Result (AdminProxy σ) :=
  ifAdmin c env (.upgradeToAndCall newImplementation data) fun p => do
    let p ← upgradeToInternal c newImplementation p
    let storage ← delegatecallOrRevert c env newImplementation data p.storage
    return { p with storage := storage }

/-- `admin()`, with the address it answers the admin. -/
def admin (env : ε) (p : AdminProxy σ) : Result (AdminProxy σ × Option Address) :=
  if c.msgSender env = p.admin then return (p, some p.admin)
  else do
    let p ← fallback c env .admin p
    return (p, none)

/-- `implementation()`, with the address it answers the admin. -/
def implementation (env : ε) (p : AdminProxy σ) : Result (AdminProxy σ × Option Address) :=
  if c.msgSender env = p.admin then return (p, some p.implementation)
  else do
    let p ← fallback c env .implementation p
    return (p, none)

end BaseAdminUpgradeabilityProxy

open BaseUpgradeabilityProxy

/-- `initialize(_logic, _data)`, which is public too. -/
def InitializableUpgradeabilityProxy.initializeProxy (env : ε) (logic : Address) (data : Calldata δ)
    (p : AdminProxy σ) : Result (AdminProxy σ) := do
  requireSilently (p.implementation = 0)
  let p ← setImplementation c logic p
  match data with
  | .empty => return p
  | data => do
      let storage ← delegatecallOrRevert c env logic data p.storage
      return { p with storage := storage }

/-- `initialize(_logic, _admin, _data)`. -/
def InitializableAdminUpgradeabilityProxy.initializeProxy (env : ε) (logic newAdmin : Address)
    (data : Calldata δ) (p : AdminProxy σ) : Result (AdminProxy σ) := do
  requireSilently (p.implementation = 0)
  let p ← InitializableUpgradeabilityProxy.initializeProxy c env logic data p
  return { p with admin := newAdmin }

namespace AdminProxy

open BaseAdminUpgradeabilityProxy

/-- The function a call selects.  What no function of the proxy matches goes to
its fallback. -/
def execute (p : AdminProxy σ) (r : ProxyRequest ε δ) : Result (AdminProxy σ) :=
  match r.calldata with
  | .admin => do
      let (p, _) ← BaseAdminUpgradeabilityProxy.admin c r.env p
      return p
  | .implementation => do
      let (p, _) ← BaseAdminUpgradeabilityProxy.implementation c r.env p
      return p
  | .changeAdmin newAdmin => changeAdmin c r.env newAdmin p
  | .upgradeTo newImplementation => upgradeTo c r.env newImplementation p
  | .upgradeToAndCall newImplementation data => upgradeToAndCall c r.env newImplementation data p
  | .initializeProxy logic data =>
      InitializableUpgradeabilityProxy.initializeProxy c r.env logic data p
  | .initializeProxyWithAdmin logic newAdmin data =>
      InitializableAdminUpgradeabilityProxy.initializeProxy c r.env logic newAdmin data p
  | data => fallback c r.env data p

/-- A call that reverts leaves the proxy as it was. -/
def step (p : AdminProxy σ) (r : ProxyRequest ε δ) : AdminProxy σ := commit p (execute c p r)

/-- The proxy after a list of calls. -/
def run (p : AdminProxy σ) (requests : List (ProxyRequest ε δ)) : AdminProxy σ :=
  Timeline.run (step c) p requests

end AdminProxy

/-- The chain as a proxy of PLMY sees it: some addresses hold code of the one
token or the other. -/
structure PlmyDeployment where
  chain : Chain
  code : Address → Option Implementation
  code_zero : code 0 = none

/-- The two tokens as code to delegate to. -/
def PlmyDeployment.contracts (d : PlmyDeployment) : Contracts Env Call Token where
  msgSender env := env.msgSender
  code account := (d.code account).map fun implementation env call s =>
    implementation.execute d.chain env s call
  code_zero := by rw [d.code_zero, Option.map_none]

namespace Sample

-- The sample run of the token, as the proxy carries it out: the deployer
-- initialises both, Alice pays Bob, and the admin upgrades.

def plmyTokenAddress : Address := Address.ofNat 0x11
def plmyTokenV2Address : Address := Address.ofNat 0x12
def proxyAdmin : Address := Address.ofNat 0xad

def plmy : PlmyDeployment where
  chain := chain
  code account :=
    if account = plmyTokenAddress then some .plmyToken
    else if account = plmyTokenV2Address then some .plmyTokenV2
    else none
  code_zero := by decide

def requests : List (ProxyRequest Env Call) :=
  [⟨env bob 1, .initializeProxyWithAdmin plmyTokenAddress proxyAdmin
      (.call (.initializeV1 alice bob 0))⟩,
    ⟨env alice 2, .call (.transfer bob 100)⟩,
    ⟨env proxyAdmin 3, .upgradeToAndCall plmyTokenV2Address (.call .initializeV2)⟩,
    ⟨env alice 4, .call (.delegateByType bob .votingPower)⟩,
    ⟨env alice 5, .call (.transfer bob 1)⟩]

end Sample

end Palmy

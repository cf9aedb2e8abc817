/-
PlmyToken.sol, the first implementation.  Its snapshots record balances.
-/
import Palmy.Permit

namespace Palmy

namespace PlmyToken

open Solidity

def revision : Uint256 := 1

/-- 10000000 ether. -/
def distributionAmount : Uint256 := Fin.ofNat (2 ^ 256) (10000000 * 10 ^ 18)

def incentiveAmount : Uint256 := 0

/-- `_writeSnapshot`. -/
def writeSnapshot (env : Env) (owner : Address) (oldValue newValue : Uint128) (s : Token) :
    Result Token := do
  let table ← s.votingSnapshots.writeSnapshot env.block owner newValue
  return { s with votingSnapshots := table }.emit (.snapshotDone owner oldValue newValue)

/-- `_writeSnapshot(owner, uint128(oldValue), uint128(newValue))`. -/
def writeNarrowed (env : Env) (owner : Address) (oldValue newValue : Uint256) (s : Token) :
    Result Token :=
  writeSnapshot env owner (uint128 oldValue) (uint128 newValue)
    (s.noteNarrowed [oldValue, newValue])

/-- `_beforeTokenTransfer`. -/
def beforeTokenTransfer (env : Env) : ERC20.BeforeTokenTransfer := fun src dst amount s => do
  if src = dst then
    return s
  else
    let s ← (if src ≠ 0 then do
        let fromBalance := s.balances src
        let newValue ← SafeMath.sub fromBalance amount
        writeNarrowed env src fromBalance newValue s
      else pure s)
    let s ← (if dst ≠ 0 then do
        let toBalance := s.balances dst
        let newValue ← SafeMath.add toBalance amount
        writeNarrowed env dst toBalance newValue s
      else pure s)
    callTransferHook env src dst amount s
    return s

/-- `initialize`, called once through the proxy. -/
def initializeToken (chain : Chain) (env : Env)
    (vestingAddress vaultAddress palmyGovernance : Address) (s : Token) : Result Token := do
  let s ← initializer revision s
  let s := { s with
    domainSeparator := domainSeparatorOf chain
    name := nameOfToken
    symbol := symbolOfToken
    decimals := decimalsOfToken
    palmyGovernance := palmyGovernance }
  let s ← (if vestingAddress ≠ 0 then
      ERC20.mint (beforeTokenTransfer env) vestingAddress distributionAmount s
    else pure s)
  if vaultAddress ≠ 0 then
    ERC20.mint (beforeTokenTransfer env) vaultAddress incentiveAmount s
  else pure s

def transfer (env : Env) (recipient : Address) (amount : Uint256) (s : Token) : Result Token :=
  ERC20.transfer (beforeTokenTransfer env) env recipient amount s

def transferFrom (env : Env) (sender recipient : Address) (amount : Uint256) (s : Token) :
    Result Token :=
  ERC20.transferFrom (beforeTokenTransfer env) env sender recipient amount s

end PlmyToken

end Palmy

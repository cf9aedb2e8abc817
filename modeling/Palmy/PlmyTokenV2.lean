/-
PlmyTokenV2.sol, the second implementation, on the storage V1 left behind.
-/
import Palmy.GovernancePowerDelegation

namespace Palmy

namespace PlmyTokenV2

open Solidity
open GovernancePowerDelegation

def revision : Uint256 := 2

/-- `initialize`, which only takes the revision. -/
def initializeToken (s : Token) : Result Token := initializer revision s

/-- `_beforeTokenTransfer`: both powers move between the delegatees. -/
def beforeTokenTransfer (env : Env) : ERC20.BeforeTokenTransfer := fun src dst amount s => do
  let votingFromDelegatee := getDelegatee src s.votingDelegates
  let votingToDelegatee := getDelegatee dst s.votingDelegates
  let s ← moveDelegatesByType env votingFromDelegatee votingToDelegatee amount .votingPower s
  let propPowerFromDelegatee := getDelegatee src s.propositionPowerDelegates
  let propPowerToDelegatee := getDelegatee dst s.propositionPowerDelegates
  let s ← moveDelegatesByType env propPowerFromDelegatee propPowerToDelegatee amount
    .propositionPower s
  callTransferHook env src dst amount s
  return s

def transfer (env : Env) (recipient : Address) (amount : Uint256) (s : Token) : Result Token :=
  ERC20.transfer (beforeTokenTransfer env) env recipient amount s

def transferFrom (env : Env) (sender recipient : Address) (amount : Uint256) (s : Token) :
    Result Token :=
  ERC20.transferFrom (beforeTokenTransfer env) env sender recipient amount s

/-- The words of the struct a `delegateByTypeBySig` signs. -/
def delegateByTypeWords (chain : Chain) (delegatee : Address) (t : DelegationType)
    (nonce expiry : Uint256) : List Uint256 :=
  [delegateByTypeTypehash chain, delegatee.toWord, t.toWord, nonce, expiry]

/-- The words of the struct a `delegateBySig` signs. -/
def delegateWords (chain : Chain) (delegatee : Address) (nonce expiry : Uint256) :
    List Uint256 :=
  [delegateTypehash chain, delegatee.toWord, nonce, expiry]

/-- The checks both signed delegations make: a real signer, its next nonce, which
`_nonces[signatory]++` spends, and the expiry. -/
def spendNonce (env : Env) (signatory : Address) (nonce expiry : Uint256) (s : Token) :
    Result Token := do
  require (signatory ≠ 0) "INVALID_SIGNATURE"
  let nextNonce ← checkedAdd (s.nonces signatory) 1
  let spent := { s with nonces := Function.update s.nonces signatory nextNonce }
  require (nonce = s.nonces signatory) "INVALID_NONCE"
  require (env.block.timestamp ≤ expiry) "INVALID_EXPIRATION"
  return spent

def delegateByTypeBySig (chain : Chain) (env : Env) (delegatee : Address) (t : DelegationType)
    (nonce expiry : Uint256) (v : UInt8) (r sig : Bytes32) (s : Token) : Result Token := do
  let digest := typedDataDigest chain s.domainSeparator
    (delegateByTypeWords chain delegatee t nonce expiry)
  let signatory := chain.ecrecover digest v r sig
  let s ← spendNonce env signatory nonce expiry s
  delegateByTypeInternal env signatory delegatee t s

def delegateBySig (chain : Chain) (env : Env) (delegatee : Address)
    (nonce expiry : Uint256) (v : UInt8) (r sig : Bytes32) (s : Token) : Result Token := do
  let digest := typedDataDigest chain s.domainSeparator
    (delegateWords chain delegatee nonce expiry)
  let signatory := chain.ecrecover digest v r sig
  let s ← spendNonce env signatory nonce expiry s
  let s ← delegateByTypeInternal env signatory delegatee .votingPower s
  delegateByTypeInternal env signatory delegatee .propositionPower s

end PlmyTokenV2

end Palmy

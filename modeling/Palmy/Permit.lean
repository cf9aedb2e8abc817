/-
The EIP-712 part both tokens share: type hashes, the domain separator, typed
data digests, and `permit`, which V2 repeats from V1 word for word.
-/
import Palmy.ERC20

namespace Palmy

open Solidity

def nameOfToken : String := "Plmy Token"

def symbolOfToken : String := "PLMY"

def decimalsOfToken : UInt8 := 18

def eip712Revision : String := "1"

def eip712Domain (chain : Chain) : Bytes32 :=
  chain.keccak256 (stringBytes
    "EIP712Domain(string name,string version,uint256 chainId,address verifyingContract)")

def permitTypehash (chain : Chain) : Bytes32 :=
  chain.keccak256 (stringBytes
    "Permit(address owner,address spender,uint256 value,uint256 nonce,uint256 deadline)")

/-- The separator that V1's `initialize` stores. -/
def domainSeparatorOf (chain : Chain) : Bytes32 :=
  chain.keccak256 (abiEncode [eip712Domain chain,
    chain.keccak256 (stringBytes nameOfToken),
    chain.keccak256 (stringBytes eip712Revision),
    chain.chainid, chain.self.toWord])

/-- `abi.encodePacked('\x19\x01', DOMAIN_SEPARATOR, structHash)`. -/
def typedDataBytes (domainSeparator structHash : Bytes32) : Bytes :=
  [0x19, 0x01] ++ (wordBytes domainSeparator ++ wordBytes structHash)

/-- The digest a wallet signs for the struct encoded by `words`. -/
def typedDataDigest (chain : Chain) (domainSeparator : Bytes32) (words : List Uint256) :
    Bytes32 :=
  chain.keccak256 (typedDataBytes domainSeparator (chain.keccak256 (abiEncode words)))

/-- The words of the struct a permit signs. -/
def permitWords (chain : Chain) (owner spender : Address) (value nonce deadline : Uint256) :
    List Uint256 :=
  [permitTypehash chain, owner.toWord, spender.toWord, value, nonce, deadline]

def permitDigest (chain : Chain) (owner spender : Address) (value deadline : Uint256)
    (s : Token) : Bytes32 :=
  typedDataDigest chain s.domainSeparator
    (permitWords chain owner spender value (s.nonces owner) deadline)

/-- `permit` of both tokens. -/
def permit (chain : Chain) (env : Env) (owner spender : Address) (value deadline : Uint256)
    (v : UInt8) (r sig : Bytes32) (s : Token) : Result Token := do
  require (owner ≠ 0) "INVALID_OWNER"
  require (env.block.timestamp ≤ deadline) "INVALID_EXPIRATION"
  let currentValidNonce := s.nonces owner
  let digest := permitDigest chain owner spender value deadline s
  require (owner = chain.ecrecover digest v r sig) "INVALID_SIGNATURE"
  let nextNonce ← SafeMath.add currentValidNonce 1
  let s := { s with nonces := Function.update s.nonces owner nextNonce }
  ERC20.approveInternal owner spender value s

end Palmy

/-
ERC20.sol.  The virtual `_beforeTokenTransfer` is a parameter: each token
passes its own override.
-/
import Palmy.TokenStorage

namespace Palmy

namespace ERC20

open Solidity

/-- What `_beforeTokenTransfer(from, to, amount)` does to the token. -/
abbrev BeforeTokenTransfer := Address → Address → Uint256 → Token → Result Token

def balanceOf (s : Token) (account : Address) : Uint256 := s.balances account

def allowance (s : Token) (owner spender : Address) : Uint256 := s.allowances owner spender

/-- `_approve`. -/
def approveInternal (owner spender : Address) (amount : Uint256) (s : Token) :
    Result Token := do
  require (owner ≠ 0) "ERC20: approve from the zero address"
  require (spender ≠ 0) "ERC20: approve to the zero address"
  let s := { s with
    allowances := Function.update s.allowances owner
      (Function.update (s.allowances owner) spender amount) }
  return s.emit (.approval owner spender amount)

/-- `_transfer`.  The hook runs before the two balances change, and the second
balance is read after the first was written. -/
def transferInternal (beforeTokenTransfer : BeforeTokenTransfer)
    (sender recipient : Address) (amount : Uint256) (s : Token) : Result Token := do
  require (sender ≠ 0) "ERC20: transfer from the zero address"
  require (recipient ≠ 0) "ERC20: transfer to the zero address"
  let s ← beforeTokenTransfer sender recipient amount s
  let debited ← SafeMath.subOr (s.balances sender) amount
    "ERC20: transfer amount exceeds balance"
  let s := { s with balances := Function.update s.balances sender debited }
  let credited ← SafeMath.add (s.balances recipient) amount
  let s := { s with balances := Function.update s.balances recipient credited }
  return s.emit (.transfer sender recipient amount)

/-- `_mint`. -/
def mint (beforeTokenTransfer : BeforeTokenTransfer) (account : Address) (amount : Uint256)
    (s : Token) : Result Token := do
  require (account ≠ 0) "ERC20: mint to the zero address"
  let s ← beforeTokenTransfer 0 account amount s
  let supply ← SafeMath.add s.totalSupply amount
  let s := { s with totalSupply := supply }
  let credited ← SafeMath.add (s.balances account) amount
  let s := { s with balances := Function.update s.balances account credited }
  return s.emit (.transfer 0 account amount)

def transfer (beforeTokenTransfer : BeforeTokenTransfer) (env : Env) (recipient : Address)
    (amount : Uint256) (s : Token) : Result Token :=
  transferInternal beforeTokenTransfer env.msgSender recipient amount s

def approve (env : Env) (spender : Address) (amount : Uint256) (s : Token) : Result Token :=
  approveInternal env.msgSender spender amount s

/-- The allowance is checked and lowered only after the transfer. -/
def transferFrom (beforeTokenTransfer : BeforeTokenTransfer) (env : Env)
    (sender recipient : Address) (amount : Uint256) (s : Token) : Result Token := do
  let s ← transferInternal beforeTokenTransfer sender recipient amount s
  let remaining ← SafeMath.subOr (s.allowances sender env.msgSender) amount
    "ERC20: transfer amount exceeds allowance"
  approveInternal sender env.msgSender remaining s

def increaseAllowance (env : Env) (spender : Address) (addedValue : Uint256) (s : Token) :
    Result Token := do
  let raised ← SafeMath.add (s.allowances env.msgSender spender) addedValue
  approveInternal env.msgSender spender raised s

def decreaseAllowance (env : Env) (spender : Address) (subtractedValue : Uint256)
    (s : Token) : Result Token := do
  let lowered ← SafeMath.subOr (s.allowances env.msgSender spender) subtractedValue
    "ERC20: decreased allowance below zero"
  approveInternal env.msgSender spender lowered s

end ERC20

end Palmy

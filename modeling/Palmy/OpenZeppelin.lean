/-
The parts of OpenZeppelin that the vesting contract is built on, and the token
it pays out.  None of them is in the repository, so each is a parameter with
the storage it keeps for itself, and says apart what its documentation
promises.
-/
import Palmy.Library.Delegation
import Palmy.Library.Solidity

namespace Palmy

open Solidity

namespace OpenZeppelin

/-- The library `SafeMath`. -/
structure SafeMath where
  add : Uint256 → Uint256 → Result Uint256
  sub : Uint256 → Uint256 → Result Uint256
  mul : Uint256 → Uint256 → Result Uint256
  div : Uint256 → Uint256 → Result Uint256

/-- Exact results, and a revert where there is none. -/
structure SafeMath.Documented (m : SafeMath) : Prop where
  add_eq_ok : ∀ a b c, m.add a b = .ok c ↔ c.val = a.val + b.val
  sub_eq_ok : ∀ a b c, m.sub a b = .ok c ↔ b ≤ a ∧ c.val = a.val - b.val
  mul_eq_ok : ∀ a b c, m.mul a b = .ok c ↔ c.val = a.val * b.val
  div_eq_ok : ∀ a b c, m.div a b = .ok c ↔ b.val ≠ 0 ∧ c.val = a.val / b.val

section Results

variable {m : SafeMath} (hdoc : m.Documented) {a b : Uint256}
include hdoc

theorem SafeMath.Documented.add_of_lt (h : a.val + b.val < 2 ^ 256) :
    ∃ c, m.add a b = .ok c ∧ c.val = a.val + b.val :=
  ⟨⟨_, h⟩, (hdoc.add_eq_ok _ _ _).mpr rfl, rfl⟩

theorem SafeMath.Documented.sub_of_le (h : b.val ≤ a.val) :
    ∃ c, m.sub a b = .ok c ∧ c.val = a.val - b.val :=
  ⟨⟨a.val - b.val, by omega⟩, (hdoc.sub_eq_ok _ _ _).mpr ⟨h, rfl⟩, rfl⟩

theorem SafeMath.Documented.mul_of_lt (h : a.val * b.val < 2 ^ 256) :
    ∃ c, m.mul a b = .ok c ∧ c.val = a.val * b.val :=
  ⟨⟨_, h⟩, (hdoc.mul_eq_ok _ _ _).mpr rfl, rfl⟩

theorem SafeMath.Documented.div_of_pos (h : 0 < b.val) :
    ∃ c, m.div a b = .ok c ∧ c.val = a.val / b.val :=
  ⟨⟨_, Nat.lt_of_le_of_lt (Nat.div_le_self _ _) a.isLt⟩,
    (hdoc.div_eq_ok _ _ _).mpr ⟨Nat.ne_of_gt h, rfl⟩, rfl⟩

end Results

/-- The contract `Ownable`. -/
structure Ownable where
  Slot : Type
  owner : Slot → Address
  /-- `_transferOwnership`, which the constructor calls. -/
  ownedBy : Address → Slot
  onlyOwner : Address → Slot → Result Unit
  transferOwnership (msgSender newOwner : Address) : Slot → Result Slot
  renounceOwnership (msgSender : Address) : Slot → Result Slot

/-- Only the owner passes, and only the owner names another one or nobody. -/
structure Ownable.Documented (o : Ownable) : Prop where
  owner_ownedBy : ∀ account, o.owner (o.ownedBy account) = account
  onlyOwner_eq_ok : ∀ msgSender slot u,
    o.onlyOwner msgSender slot = .ok u ↔ msgSender = o.owner slot
  transferOwnership_of_ok : ∀ msgSender newOwner slot slot',
    o.transferOwnership msgSender newOwner slot = .ok slot' →
      msgSender = o.owner slot ∧ newOwner ≠ 0 ∧ o.owner slot' = newOwner
  renounceOwnership_of_ok : ∀ msgSender slot slot',
    o.renounceOwnership msgSender slot = .ok slot' →
      msgSender = o.owner slot ∧ o.owner slot' = 0

/-- The contract `ReentrancyGuard`: what `nonReentrant` does before and after
the function it guards. -/
structure ReentrancyGuard where
  Slot : Type
  idle : Slot
  enter : Slot → Result Slot
  leave : Slot → Slot

/-- A guarded function cannot be entered twice, and can be entered again once
it is left. -/
structure ReentrancyGuard.Documented (g : ReentrancyGuard) : Prop where
  succeeds_idle : Succeeds (g.enter g.idle)
  not_succeeds_entered : ∀ slot entered, g.enter slot = .ok entered →
    ¬ Succeeds (g.enter entered)
  succeeds_left : ∀ slot entered, g.enter slot = .ok entered →
    Succeeds (g.enter (g.leave entered))

/-- The contract `Initializable`, with the modifier `initializer`. -/
structure Initializable where
  Slot : Type
  fresh : Slot
  initializer : Slot → Result Slot

/-- A function with the modifier can be called once. -/
structure Initializable.Documented (i : Initializable) : Prop where
  succeeds_fresh : Succeeds (i.initializer i.fresh)
  once : ∀ slot slot', i.initializer slot = .ok slot' → ¬ Succeeds (i.initializer slot')

/-- The token contracts on the chain, with `SafeERC20.safeTransfer` for a
caller.  They do not call back, and nothing answers at address zero. -/
structure Tokens where
  Ledger : Type
  balanceOf (token account : Address) : Ledger → Result Uint256
  safeTransfer (token sender recipient : Address) (amount : Uint256) : Ledger → Result Ledger
  balanceOf_zero : ∀ account ledger, ¬ Succeeds (balanceOf 0 account ledger)

namespace Tokens

variable (k : Tokens)

/-- Balances as plain numbers. -/
def holdings (token : Address) (ledger : k.Ledger) (account : Address) : ℕ :=
  match k.balanceOf token account ledger with
  | .ok balance => balance.val
  | .error _ => 0

/-- A faithful token: a transfer moves exactly its amount, and fails when the
balance is short. -/
structure Faithful (token : Address) : Prop where
  balanceOf_succeeds : ∀ account ledger, Succeeds (k.balanceOf token account ledger)
  transfer_moves : ∀ sender recipient amount ledger ledger',
    k.safeTransfer token sender recipient amount ledger = .ok ledger' →
      amount.val ≤ k.holdings token ledger sender ∧
        Delegation.Moved (k.holdings token ledger) (k.holdings token ledger') sender recipient
          amount.val

/-- As things stand, what a balance covers can be sent between accounts that
exist. -/
def Pays (token : Address) (ledger : k.Ledger) : Prop :=
  ∀ sender recipient amount, sender ≠ 0 → recipient ≠ 0 →
    amount.val ≤ k.holdings token ledger sender →
      Succeeds (k.safeTransfer token sender recipient amount ledger)

/-- A standard ERC20 token: faithful, and it always pays. -/
structure Standard (token : Address) : Prop extends k.Faithful token where
  pays : ∀ ledger, k.Pays token ledger

variable {k} {token account sender recipient : Address} {ledger ledger' : k.Ledger}
  {balance amount : Uint256}

theorem holdings_of_balanceOf (h : k.balanceOf token account ledger = .ok balance) :
    k.holdings token ledger account = balance.val := by
  rw [holdings, h]

theorem token_ne_zero_of_balanceOf (h : k.balanceOf token account ledger = .ok balance) :
    token ≠ 0 := by
  rintro rfl
  exact k.balanceOf_zero account ledger ⟨balance, h⟩

namespace Faithful

variable (hfaithful : k.Faithful token)
include hfaithful

theorem balanceOf_eq (account : Address) (ledger : k.Ledger) :
    ∃ balance, k.balanceOf token account ledger = .ok balance ∧
      balance.val = k.holdings token ledger account := by
  obtain ⟨balance, hbalance⟩ := hfaithful.balanceOf_succeeds account ledger
  exact ⟨balance, hbalance, (holdings_of_balanceOf hbalance).symm⟩

/-- A sender keeps all but the amount sent, and all of it when it pays itself. -/
theorem holdings_sender_le
    (h : k.safeTransfer token sender recipient amount ledger = .ok ledger') :
    k.holdings token ledger sender ≤ k.holdings token ledger' sender + amount.val := by
  obtain ⟨-, hmoved⟩ := hfaithful.transfer_moves _ _ _ _ _ h
  have hsender := hmoved sender
  rw [if_pos rfl] at hsender
  omega

end Faithful

end Tokens

end OpenZeppelin

end Palmy

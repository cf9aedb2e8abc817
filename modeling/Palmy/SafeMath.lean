/-
SafeMath.sol.  Under Solidity 0.8 the bare operators already revert, so the
`require` after an addition or a multiplication never fires and overflow
panics; the `require` before a subtraction or a division carries its message.
-/
import Palmy.Library.Solidity

namespace Palmy

namespace SafeMath

open Solidity

def add (a b : Uint256) : Result Uint256 := do
  let c ← checkedAdd a b
  require (a ≤ c) "SafeMath: addition overflow"
  return c

/-- The three-argument `sub`. -/
def subOr (a b : Uint256) (errorMessage : String) : Result Uint256 := do
  require (b ≤ a) errorMessage
  checkedSub a b

def sub (a b : Uint256) : Result Uint256 :=
  subOr a b "SafeMath: subtraction overflow"

@[simp] theorem add_eq_ok {a b c : Uint256} : add a b = .ok c ↔ c.val = a.val + b.val := by
  simp only [add, bind_eq_ok, checkedAdd_eq_ok, require_eq_ok, pure_eq_ok, exists_const]
  constructor
  · rintro ⟨d, hd, -, rfl⟩
    exact hd
  · intro hc
    exact ⟨c, hc, Fin.le_def.mpr (by omega), rfl⟩

@[simp] theorem subOr_eq_ok {a b c : Uint256} {message : String} :
    subOr a b message = .ok c ↔ b ≤ a ∧ c.val = a.val - b.val := by
  simp [subOr]

@[simp] theorem sub_eq_ok {a b c : Uint256} :
    sub a b = .ok c ↔ b ≤ a ∧ c.val = a.val - b.val :=
  subOr_eq_ok

end SafeMath

end Palmy

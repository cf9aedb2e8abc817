/-
The fragment of Solidity 0.8 that the contracts are written in: fixed-width
words, reverting computations, and arithmetic that reverts instead of wrapping.
-/
import Mathlib.Algebra.GroupWithZero.Nat
import Mathlib.Data.Fintype.BigOperators

namespace Solidity

-- The widths in use are not zero, so that they have numerals.

instance neZero_two_pow_128 : NeZero (2 ^ 128) := ⟨Nat.ne_of_gt (Nat.two_pow_pos 128)⟩
instance neZero_two_pow_160 : NeZero (2 ^ 160) := ⟨Nat.ne_of_gt (Nat.two_pow_pos 160)⟩
instance neZero_two_pow_256 : NeZero (2 ^ 256) := ⟨Nat.ne_of_gt (Nat.two_pow_pos 256)⟩

abbrev Uint128 := Fin (2 ^ 128)
abbrev Uint256 := Fin (2 ^ 256)
abbrev Bytes32 := Uint256
abbrev Bytes := List UInt8

/-- A 160-bit account address.  Address zero is the account nobody owns. -/
def Address := Fin (2 ^ 160)
deriving DecidableEq, Fintype

instance : Zero Address := ⟨(0 : Fin (2 ^ 160))⟩

def Address.ofNat (n : ℕ) : Address := Fin.ofNat (2 ^ 160) n

/-- Why a call reverted.  `silent` is a `require` without a message, or a call
no function answers; `panic` carries the compiler's panic code. -/
inductive Revert where
  | reason (message : String)
  | silent
  | panic (code : ℕ)
  | outOfGas
deriving Repr, DecidableEq

/-- A computation that may revert.  A reverted call has no effect at all. -/
abbrev Result (α : Type) := Except Revert α

def require (condition : Prop) [Decidable condition] (message : String) : Result Unit :=
  if condition then .ok () else .error (.reason message)

/-- A `require` without a message. -/
def requireSilently (condition : Prop) [Decidable condition] : Result Unit :=
  if condition then .ok () else .error .silent

/-- The panic code of arithmetic overflow and underflow. -/
def arithmeticPanic : Revert := .panic 0x11

def checkedAdd (a b : Uint256) : Result Uint256 :=
  if h : a.val + b.val < 2 ^ 256 then .ok ⟨a.val + b.val, h⟩ else .error arithmeticPanic

def checkedSub (a b : Uint256) : Result Uint256 :=
  if b ≤ a then .ok ⟨a.val - b.val, by omega⟩ else .error arithmeticPanic

def checkedMul (a b : Uint256) : Result Uint256 :=
  if h : a.val * b.val < 2 ^ 256 then .ok ⟨a.val * b.val, h⟩ else .error arithmeticPanic

/-- Division by zero panics with its own code. -/
def checkedDiv (a b : Uint256) : Result Uint256 :=
  if b.val = 0 then .error (.panic 0x12)
  else .ok ⟨a.val / b.val, Nat.lt_of_le_of_lt (Nat.div_le_self _ _) a.isLt⟩

/-- The explicit conversion `uint128(x)`, which keeps the low 128 bits. -/
def uint128 (x : Uint256) : Uint128 := Fin.ofNat (2 ^ 128) x.val

/-- The implicit widening of a `uint128`. -/
def uint256 (x : Uint128) : Uint256 := Fin.castLE (by decide) x

section Outcomes

variable {α β : Type} {x : Result α} {f : α → Result β} {b : β}

@[simp] theorem bind_eq_ok : (x >>= f) = .ok b ↔ ∃ a, x = .ok a ∧ f a = .ok b := by
  cases x with
  | error e =>
      change (Except.error e = Except.ok b) ↔ _
      simp
  | ok a =>
      change f a = Except.ok b ↔ _
      simp

@[simp] theorem pure_eq_ok {a a' : α} : (pure a : Result α) = .ok a' ↔ a = a' := by
  change (Except.ok a = Except.ok a') ↔ _
  simp

@[simp] theorem ok_bind (a : α) : (Except.ok a >>= f) = f a := rfl

/-- Two continuations that agree on the outcome of a computation. -/
theorem bind_congr_ok {g : α → Result β} (hagree : ∀ a, x = .ok a → f a = g a) :
    (x >>= f) = (x >>= g) := by
  cases x with
  | error e => rfl
  | ok a => exact hagree a rfl

/-- A computation succeeds when it has some result. -/
def Succeeds (x : Result α) : Prop := ∃ a, x = .ok a

@[simp] theorem succeeds_ok (a : α) : Succeeds (.ok a : Result α) := ⟨a, rfl⟩

@[simp] theorem succeeds_pure (a : α) : Succeeds (pure a : Result α) := ⟨a, rfl⟩

@[simp] theorem not_succeeds_error (e : Revert) : ¬ Succeeds (.error e : Result α) := by
  rintro ⟨a, ha⟩
  cases ha

theorem succeeds_bind : Succeeds (x >>= f) ↔ ∃ a, x = .ok a ∧ Succeeds (f a) := by
  simp only [Succeeds, bind_eq_ok]
  constructor
  · rintro ⟨b, a, hx, hf⟩
    exact ⟨a, hx, b, hf⟩
  · rintro ⟨a, hx, b, hf⟩
    exact ⟨b, a, hx, hf⟩

/-- The state a reverting transaction leaves is the state it started from. -/
def commit {σ : Type} (before : σ) (outcome : Result σ) : σ :=
  match outcome with
  | .ok after => after
  | .error _ => before

@[simp] theorem commit_ok {σ : Type} (before after : σ) :
    commit before (.ok after) = after := rfl

@[simp] theorem commit_error {σ : Type} (before : σ) (e : Revert) :
    commit before (.error e) = before := rfl

/-- A committed state is the old one, or what a successful call returned. -/
theorem commit_cases {σ : Type} (before : σ) (outcome : Result σ) :
    commit before outcome = before ∨
      outcome = .ok (commit before outcome) := by
  cases outcome with
  | ok after => exact Or.inr rfl
  | error e => exact Or.inl rfl

end Outcomes

section Relations

variable {α β γ δ : Type}

/-- Two computations both fail, or both succeed with related results. -/
structure Matches (R : α → β → Prop) (x : Result α) (y : Result β) : Prop where
  succeeds : Succeeds x ↔ Succeeds y
  related : ∀ a b, x = .ok a → y = .ok b → R a b

theorem Matches.pure {R : α → β → Prop} {a : α} {b : β} (hrelated : R a b) :
    Matches R (Pure.pure a) (Pure.pure b) where
  succeeds := ⟨fun _ => succeeds_pure b, fun _ => succeeds_pure a⟩
  related a' b' ha hb := by
    rw [pure_eq_ok] at ha hb
    rwa [← ha, ← hb]

theorem Matches.refl (x : Result α) : Matches Eq x x where
  succeeds := Iff.rfl
  related _ _ ha hb := Except.ok.inj (ha.symm.trans hb)

/-- Related computations continue to related computations. -/
theorem Matches.bind {R : α → β → Prop} {S : γ → δ → Prop} {x : Result α} {y : Result β}
    {f : α → Result γ} {g : β → Result δ} (hmatches : Matches R x y)
    (hnext : ∀ a b, R a b → Matches S (f a) (g b)) : Matches S (x >>= f) (y >>= g) where
  succeeds := by
    rw [succeeds_bind, succeeds_bind]
    constructor
    · rintro ⟨a, ha, hf⟩
      obtain ⟨b, hb⟩ := hmatches.succeeds.mp ⟨a, ha⟩
      exact ⟨b, hb, (hnext a b (hmatches.related a b ha hb)).succeeds.mp hf⟩
    · rintro ⟨b, hb, hg⟩
      obtain ⟨a, ha⟩ := hmatches.succeeds.mpr ⟨b, hb⟩
      exact ⟨a, ha, (hnext a b (hmatches.related a b ha hb)).succeeds.mpr hg⟩
  related c d hc hd := by
    obtain ⟨a, ha, hf⟩ := bind_eq_ok.mp hc
    obtain ⟨b, hb, hg⟩ := bind_eq_ok.mp hd
    exact (hnext a b (hmatches.related a b ha hb)).related c d hf hg

/-- A reverted pair stays related, and so does a committed one. -/
theorem Matches.commit {R : α → β → Prop} {a : α} {b : β} {x : Result α} {y : Result β}
    (hmatches : Matches R x y) (hrelated : R a b) :
    R (Solidity.commit a x) (Solidity.commit b y) := by
  cases hx : x with
  | ok a' =>
      obtain ⟨b', hb'⟩ := hmatches.succeeds.mp ⟨a', hx⟩
      rw [hb', commit_ok, commit_ok]
      exact hmatches.related a' b' hx hb'
  | error e =>
      cases hy : y with
      | ok b' =>
          obtain ⟨a', ha'⟩ := hmatches.succeeds.mpr ⟨b', hy⟩
          rw [hx] at ha'
          cases ha'
      | error e' => exact hrelated

end Relations

section Specifications

variable {a b c : Uint256}

@[simp] theorem require_eq_ok {condition : Prop} [Decidable condition] {message : String}
    {u : Unit} : require condition message = .ok u ↔ condition := by
  by_cases h : condition <;> simp [require, h]

@[simp] theorem requireSilently_eq_ok {condition : Prop} [Decidable condition] {u : Unit} :
    requireSilently condition = .ok u ↔ condition := by
  by_cases h : condition <;> simp [requireSilently, h]

@[simp] theorem checkedAdd_eq_ok : checkedAdd a b = .ok c ↔ c.val = a.val + b.val := by
  unfold checkedAdd
  split
  · simp [Fin.ext_iff, eq_comm]
  · simp only [reduceCtorEq, false_iff]
    omega

@[simp] theorem checkedSub_eq_ok :
    checkedSub a b = .ok c ↔ b ≤ a ∧ c.val = a.val - b.val := by
  unfold checkedSub
  split
  · next hle => simp only [Except.ok.injEq, Fin.ext_iff, hle, true_and, eq_comm]
  · next hlt => simp only [reduceCtorEq, hlt, false_and]

@[simp] theorem checkedMul_eq_ok : checkedMul a b = .ok c ↔ c.val = a.val * b.val := by
  unfold checkedMul
  split
  · simp [Fin.ext_iff, eq_comm]
  · simp only [reduceCtorEq, false_iff]
    have := c.isLt
    omega

@[simp] theorem checkedDiv_eq_ok :
    checkedDiv a b = .ok c ↔ b.val ≠ 0 ∧ c.val = a.val / b.val := by
  unfold checkedDiv
  split
  · next hzero => simp only [reduceCtorEq, hzero, ne_eq, not_true, false_and]
  · next hne => simp only [Except.ok.injEq, Fin.ext_iff, hne, ne_eq, not_false_iff, true_and, eq_comm]

/-- A sum that does not wrap is that of the words. -/
theorem eq_add_of_val (h : c.val = a.val + b.val) : c = a + b := by
  apply Fin.ext
  rw [Fin.val_add, ← h, Nat.mod_eq_of_lt c.isLt]

theorem eq_sub_of_val (h : c.val + b.val = a.val) : c = a - b := by
  have hle : b ≤ a := Fin.le_def.mpr (by omega)
  apply Fin.ext
  rw [Fin.sub_val_of_le hle]
  omega

@[simp] theorem uint128_val (x : Uint256) : (uint128 x).val = x.val % 2 ^ 128 := rfl

@[simp] theorem uint256_val (x : Uint128) : (uint256 x).val = x.val := rfl

end Specifications

end Solidity

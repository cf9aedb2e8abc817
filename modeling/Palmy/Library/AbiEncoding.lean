/-
Big-endian byte strings of fixed width, and the ABI encodings built from them.
A list of words encodes to one string, and no two lists share a string.
-/
import Palmy.Library.Solidity

namespace Solidity

/-- The low `width` bytes of `n`, most significant first. -/
def bigEndian : ℕ → ℕ → Bytes
  | 0, _ => []
  | width + 1, n => bigEndian width (n / 256) ++ [UInt8.ofNat n]

/-- A 32-byte word. -/
def wordBytes (x : Uint256) : Bytes := bigEndian 32 x.val

/-- `abi.encode` of static arguments, one word each. -/
def abiEncode (words : List Uint256) : Bytes := words.flatMap wordBytes

/-- An address as a left-padded word. -/
def Address.toWord (a : Address) : Uint256 := Fin.castLE (by decide) a

/-- An address as the 20 bytes `abi.encodePacked` gives it. -/
def Address.packed (a : Address) : Bytes := bigEndian 20 (Fin.val a)

def stringBytes (s : String) : Bytes := s.toUTF8.data.toList

@[simp] theorem length_bigEndian (width n : ℕ) : (bigEndian width n).length = width := by
  induction width generalizing n with
  | zero => rfl
  | succ width ih => simp [bigEndian, ih]

theorem bigEndian_injective {width m n : ℕ} (hm : m < 256 ^ width) (hn : n < 256 ^ width)
    (heq : bigEndian width m = bigEndian width n) : m = n := by
  induction width generalizing m n with
  | zero => simp at hm hn; omega
  | succ width ih =>
      rw [bigEndian, bigEndian] at heq
      obtain ⟨hfront, hlast⟩ := List.append_inj heq (by simp)
      have hquot : m / 256 = n / 256 := by
        apply ih _ _ hfront
        · rw [Nat.pow_succ] at hm
          omega
        · rw [Nat.pow_succ] at hn
          omega
      have hbyte : m % 256 = n % 256 := by
        have := congrArg UInt8.toNat (List.singleton_inj.mp hlast)
        simpa using this
      omega

@[simp] theorem length_wordBytes (x : Uint256) : (wordBytes x).length = 32 :=
  length_bigEndian 32 _

theorem wordBytes_injective : Function.Injective wordBytes := by
  intro x y heq
  exact Fin.ext (bigEndian_injective (by omega) (by omega) heq)

@[simp] theorem length_abiEncode (words : List Uint256) :
    (abiEncode words).length = 32 * words.length := by
  induction words with
  | nil => rfl
  | cons word words ih =>
      rw [abiEncode] at ih ⊢
      rw [List.flatMap_cons, List.length_append, ih, length_wordBytes, List.length_cons]
      omega

/-- Words all take 32 bytes, so an encoding can be cut in one way only. -/
theorem abiEncode_injective : Function.Injective abiEncode := by
  intro xs ys heq
  induction xs generalizing ys with
  | nil =>
      have hlength := congrArg List.length heq
      rw [length_abiEncode, length_abiEncode] at hlength
      have hempty : ys.length = 0 := by
        simp only [List.length_nil] at hlength
        omega
      exact (List.length_eq_zero_iff.mp hempty).symm
  | cons x xs ih =>
      cases ys with
      | nil =>
          have hlength := congrArg List.length heq
          rw [length_abiEncode, length_abiEncode] at hlength
          simp at hlength
      | cons y ys =>
          rw [abiEncode, abiEncode, List.flatMap_cons, List.flatMap_cons] at heq
          obtain ⟨hword, hrest⟩ := List.append_inj heq (by simp)
          rw [wordBytes_injective hword, ih hrest]

@[simp] theorem Address.length_packed (a : Address) : a.packed.length = 20 :=
  length_bigEndian 20 _

theorem Address.packed_injective : Function.Injective Address.packed := by
  intro a b heq
  exact Fin.ext (bigEndian_injective (Fin.isLt a) (Fin.isLt b) heq)

/-- `abi.encodePacked` of an address and a word has one reading. -/
theorem Address.packed_append_inj {a b : Address} {x y : Uint256}
    (heq : a.packed ++ wordBytes x = b.packed ++ wordBytes y) : a = b ∧ x = y := by
  obtain ⟨haddress, hword⟩ := List.append_inj heq (by simp)
  exact ⟨packed_injective haddress, wordBytes_injective hword⟩

theorem Address.toWord_injective : Function.Injective Address.toWord :=
  Fin.castLE_injective (by decide)

end Solidity

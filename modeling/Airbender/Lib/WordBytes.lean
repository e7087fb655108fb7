import Mathlib

/-!
# Bytes of a word

Masks that clear the lowest bits of a 32-bit word, and a word as its four bytes.
-/

namespace WordBytes

set_option autoImplicit false

variable (word : BitVec 32)

theorem toNat_and_mask (bits : ℕ) :
    (word &&& BitVec.allOnes 32 <<< bits).toNat = word.toNat / 2 ^ bits * 2 ^ bits := by
  have below : word.toNat / 2 ^ bits * 2 ^ bits ≤ word.toNat := Nat.div_mul_le_self _ _
  rw [← BitVec.shiftLeft_ushiftRight, BitVec.toNat_shiftLeft, BitVec.toNat_ushiftRight,
    Nat.shiftLeft_eq, Nat.shiftRight_eq_div_pow]
  exact Nat.mod_eq_of_lt (below.trans_lt word.isLt)

theorem toNat_and_not_one : (word &&& ~~~0x1).toNat = word.toNat / 2 * 2 :=
  toNat_and_mask word 1

theorem toNat_and_not_three : (word &&& ~~~0x3).toNat = word.toNat / 4 * 4 :=
  toNat_and_mask word 2

theorem getLsbD_zero : word.getLsbD 0 = decide (word.toNat % 2 = 1) := by
  rw [BitVec.getLsbD, Nat.testBit_eq_decide_div_mod_eq, Nat.pow_zero, Nat.div_one]

theorem getLsbD_one : word.getLsbD 1 = decide (word.toNat / 2 % 2 = 1) := by
  rw [BitVec.getLsbD, Nat.testBit_eq_decide_div_mod_eq]

theorem offset_eq (address : BitVec 32) :
    address.toNat % 4 = (address.getLsbD 0).toNat + 2 * (address.getLsbD 1).toNat := by
  simp only [getLsbD_zero, getLsbD_one, Bool.toNat, Bool.cond_decide]
  split_ifs <;> omega

def byteAt (word : BitVec 32) (index : ℕ) : BitVec 8 := word.extractLsb' (8 * index) 8

theorem byteAt_toNat (index : ℕ) :
    (byteAt word index).toNat = word.toNat / 2 ^ (8 * index) % 2 ^ 8 := by
  rw [byteAt, BitVec.extractLsb'_toNat, Nat.shiftRight_eq_div_pow]

/-- The word of four bytes, the lowest first. -/
def ofBytes (byte : ℕ → BitVec 8) : BitVec 32 := byte 3 ++ byte 2 ++ byte 1 ++ byte 0

theorem eq_of_byteAt_eq {first second : BitVec 32}
    (equal : ∀ index < 4, byteAt first index = byteAt second index) : first = second := by
  apply BitVec.eq_of_getLsbD_eq
  intro bit inside
  have byte := congrArg (fun value => value.getLsbD (bit % 8)) (equal (bit / 8) (by omega))
  simpa [byteAt, Nat.mod_lt, Nat.div_add_mod] using byte

theorem byteAt_ofBytes (byte : ℕ → BitVec 8) {index : ℕ} (inside : index < 4) :
    byteAt (ofBytes byte) index = byte index := by
  apply BitVec.eq_of_getLsbD_eq
  intro bit below
  simp only [byteAt, ofBytes, BitVec.getLsbD_extractLsb', BitVec.getLsbD_append, below,
    decide_true, Bool.true_and]
  interval_cases index <;> split_ifs <;>
    first
    | omega
    | (congr 1; omega)

end WordBytes

import Mathlib

/-!
# The base field

`Mersenne31Field` is the prime field of `2^31 - 1` elements, with the facts about casts of small
numbers and of flags that the circuits use to read an equation of the field as one of numbers.
-/

namespace Airbender

/-- The field of the circuits, `F_p` with `p = 2^31 - 1`. -/
abbrev Mersenne31Field := ZMod 2147483647

theorem mersenne31_prime : Nat.Prime 2147483647 := by
  have prime : (mersenne 31).Prime := lucas_lehmer_sufficiency _ (by simp) (by norm_num)
  simpa [mersenne] using prime

instance primeFact : Fact (Nat.Prime 2147483647) := ⟨mersenne31_prime⟩

scoped instance numeralTwo : Nat.AtLeastTwo 2 := inferInstance

scoped instance numeralThree : Nat.AtLeastTwo 3 := inferInstance

scoped instance numeralFour : Nat.AtLeastTwo 4 := inferInstance

scoped instance numeralFive : Nat.AtLeastTwo 5 := inferInstance

scoped instance numeralEight : Nat.AtLeastTwo 8 := inferInstance

scoped instance numeralMaxHalf : Nat.AtLeastTwo 65535 := inferInstance

namespace Mersenne31Field

theorem val_natCast_of_lt {value : ℕ} (bounded : value < 2147483647) :
    ((value : ℕ) : Mersenne31Field).val = value := ZMod.val_natCast_of_lt bounded

theorem int_eq_zero {value : ℤ} (vanishes : (value : Mersenne31Field) = 0)
    (lower : -2147483647 < value) (upper : value < 2147483647) : value = 0 := by
  have divides : ((2147483647 : ℕ) : ℤ) ∣ value :=
    (ZMod.intCast_zmod_eq_zero_iff_dvd _ _).mp vanishes
  obtain ⟨multiple, rfl⟩ := divides
  push_cast at lower upper ⊢
  omega

theorem nat_eq {left right : ℕ} (same : (left : Mersenne31Field) = right)
    (leftBound : left < 2147483647) (rightBound : right < 2147483647) : left = right := by
  have difference : ((left : ℤ) - right : ℤ) = 0 := by
    apply int_eq_zero
    · push_cast
      rw [same, sub_self]
    · omega
    · omega
  omega

theorem exists_nat {value : Mersenne31Field} {bound : ℕ} (small : value.val < bound) :
    ∃ number : ℕ, number < bound ∧ value = (number : Mersenne31Field) :=
  ⟨value.val, small, (ZMod.natCast_zmod_val value).symm⟩

def bit (flag : Bool) : Mersenne31Field := if flag then 1 else 0

@[simp] theorem bit_true : bit true = 1 := rfl

@[simp] theorem bit_false : bit false = 0 := rfl

@[simp] theorem bit_inj {left right : Bool} : bit left = bit right ↔ left = right := by
  cases left <;> cases right <;> simp

@[simp] theorem bit_eq_zero {flag : Bool} : bit flag = 0 ↔ flag = false := by
  cases flag <;> simp

@[simp] theorem bit_mul_bit (left right : Bool) : bit left * bit right = bit (left && right) := by
  cases left <;> cases right <;> simp

@[simp] theorem one_sub_bit (flag : Bool) : 1 - bit flag = bit (!flag) := by
  cases flag <;> simp

@[simp] theorem bit_or_bit (left right : Bool) :
    bit left + bit right - bit (left && right) = bit (left || right) := by
  cases left <;> cases right <;> simp

@[simp] theorem bit_xor_bit (left right : Bool) :
    bit left + bit right - bit (left && right) * 2 = bit (left ^^ right) := by
  cases left <;> cases right <;> norm_num

@[simp] theorem bit_choose (condition left right : Bool) :
    bit condition * (bit left - bit right) + bit right =
      bit (if condition then left else right) := by
  cases condition <;> simp

theorem bit_eq_natCast (flag : Bool) : bit flag = ((flag.toNat : ℕ) : Mersenne31Field) := by
  cases flag <;> simp

theorem boolean_iff (value : Mersenne31Field) :
    (1 - value) * value = 0 ↔ ∃ flag, bit flag = value := by
  rw [mul_eq_zero, sub_eq_zero]
  constructor
  · rintro (one | zero)
    · exact ⟨true, one⟩
    · exact ⟨false, zero.symm⟩
  · rintro ⟨flag, rfl⟩
    cases flag <;> simp

def toReducedU32 (element : Mersenne31Field) : BitVec 32 := BitVec.ofNat 32 element.val

theorem toNat_toReducedU32 (element : Mersenne31Field) :
    (toReducedU32 element).toNat = element.val := by
  have bound := ZMod.val_lt element
  rw [toReducedU32, BitVec.toNat_ofNat]
  omega

theorem toReducedU32_eq_zero {element : Mersenne31Field} (zero : toReducedU32 element = 0) :
    element = 0 := by
  have value := toNat_toReducedU32 element
  rw [zero] at value
  exact (ZMod.val_eq_zero element).mp value.symm

end Mersenne31Field

end Airbender

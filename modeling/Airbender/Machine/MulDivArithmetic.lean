import Airbender.Machine.MulDivFamilies
import Airbender.RiscV.MulDiv

/-!
# The arithmetic of multiplication and division rows

A satisfied slot is a congruence modulo `2^64`. For divisions it is an equation, which together with
the comparison of absolute values determines quotient and remainder.
-/

namespace Airbender.Machine

open Cs OptimizationContext RiscV

/-- The integer a word stands for when `sign` is its sign bit. -/
def signedValue (word : BitVec 32) (sign : Bool) : ℤ := word.toNat - 2 ^ 32 * sign.toNat

variable (word : BitVec 32) (sign : Bool) (x y : BitVec 32)

@[simp] theorem signedValue_false : signedValue word false = word.toNat := by
  simp [signedValue]

@[simp] theorem signedValue_msb : signedValue word word.msb = word.toInt := by
  have bound := word.isLt
  rw [BitVec.toInt_eq_msb_cond]
  cases word.msb <;> simp [signedValue]

theorem extended_eq_signedValue :
    (extended word sign : ℤ) = signedValue word sign + 2 ^ 64 * sign.toNat := by
  unfold extended signedValue
  push_cast
  ring

theorem slot_congruence (op1 op2 additive low high : BitVec 32) (sign1 sign2 additiveSign : Bool) :
    (extended op1 sign1 * extended op2 sign2 + extended additive additiveSign) % 2 ^ 64 =
        low.toNat + 2 ^ 32 * high.toNat ↔
      ∃ wraps : ℤ, signedValue op1 sign1 * signedValue op2 sign2
          + signedValue additive additiveSign =
        low.toNat + 2 ^ 32 * high.toNat + 2 ^ 64 * wraps := by
  have lowBound := low.isLt
  have highBound := high.isLt
  have product :
      ((extended op1 sign1 * extended op2 sign2 + extended additive additiveSign : ℕ) : ℤ)
      = signedValue op1 sign1 * signedValue op2 sign2 + signedValue additive additiveSign
        + 2 ^ 64 * (sign1.toNat * signedValue op2 sign2 + signedValue op1 sign1 * sign2.toNat
          + 2 ^ 64 * (sign1.toNat * sign2.toNat) + additiveSign.toNat) := by
    push_cast
    rw [extended_eq_signedValue, extended_eq_signedValue, extended_eq_signedValue]
    ring
  generalize extended op1 sign1 * extended op2 sign2 + extended additive additiveSign = total at *
  generalize signedValue op1 sign1 * signedValue op2 sign2
    + signedValue additive additiveSign = exact at *
  generalize (sign1.toNat * signedValue op2 sign2 + signedValue op1 sign1 * sign2.toNat
          + 2 ^ 64 * (sign1.toNat * sign2.toNat) + additiveSign.toNat : ℤ) = wraps at *
  constructor
  · intro reduced
    exact ⟨(total / 2 ^ 64 : ℕ) - wraps, by push_cast; omega⟩
  · rintro ⟨others, same⟩
    omega

theorem ofInt_eq {value : ℤ} {word : BitVec 32} (wraps : ℤ)
    (congruent : value = word.toNat + 2 ^ 32 * wraps) : BitVec.ofInt 32 value = word := by
  apply BitVec.eq_of_toNat_eq
  have bound := word.isLt
  rw [BitVec.toNat_ofInt]
  omega

theorem product_halves_iff (product : ℤ) (low high : BitVec 32) :
    (∃ wraps : ℤ, product = low.toNat + 2 ^ 32 * high.toNat + 2 ^ 64 * wraps) ↔
      low = BitVec.ofInt 32 product ∧ high = BitVec.ofInt 32 (product / 2 ^ 32) := by
  have lowBound := low.isLt
  constructor
  · rintro ⟨wraps, equation⟩
    exact ⟨(ofInt_eq (high.toNat + 2 ^ 32 * wraps) (by rw [equation]; ring)).symm,
      (ofInt_eq wraps (by omega)).symm⟩
  · rintro ⟨rfl, rfl⟩
    refine ⟨product / 2 ^ 64, ?_⟩
    rw [BitVec.toNat_ofInt, BitVec.toNat_ofInt]
    omega

theorem signedValue_bounds : -2 ^ 32 ≤ signedValue word sign ∧ signedValue word sign < 2 ^ 32 := by
  have bound := word.isLt
  unfold signedValue
  cases sign <;> simp <;> omega

theorem signWord_toNat :
    (word.toNat + 2 ^ 32 * (signWord sign).toNat : ℤ) =
      signedValue word sign + 2 ^ 64 * sign.toNat := by
  cases sign <;> simp [signWord, signedValue]
  ring

theorem abs_toInt_le : |word.toInt| ≤ 2 ^ 31 := by
  have upper := word.toInt_lt
  have lower := word.le_toInt
  exact abs_le.mpr ⟨by omega, by omega⟩

/-- No quotient and remainder satisfy the division equation only modulo `2^64`. -/
theorem division_exact {divisor quotient remainder divident wraps : ℤ}
    (equation : divisor * quotient + remainder = divident + 2 ^ 64 * wraps)
    (divisorBound : |divisor| ≤ 2 ^ 31) (quotientBound : |quotient| ≤ 2 ^ 32)
    (remainderBound : |remainder| ≤ 2 ^ 32) (dividentBound : |divident| ≤ 2 ^ 31) : wraps = 0 := by
  have product : |divisor * quotient| ≤ 2 ^ 31 * 2 ^ 32 := by
    rw [abs_mul]
    exact mul_le_mul divisorBound quotientBound (abs_nonneg _) (by norm_num)
  rw [abs_le] at *
  omega

theorem unsigned_division_exact {divisor quotient remainder divident : BitVec 32} {wraps : ℤ}
    (equation : (divisor.toNat * quotient.toNat + remainder.toNat : ℤ) =
      divident.toNat + 2 ^ 64 * wraps) : wraps = 0 := by
  have bound : divisor.toNat * quotient.toNat ≤ (2 ^ 32 - 1) * (2 ^ 32 - 1) :=
    Nat.mul_le_mul (by omega) (by omega)
  generalize product : divisor.toNat * quotient.toNat = value at bound
  have := divident.isLt
  have := remainder.isLt
  rw [← Nat.cast_mul, product] at equation
  omega

theorem comparison_iff {remainder divisor compared : BitVec 32}
    {negative1 negative2 overflow : Bool}
    (slot : (if negative1 ^^ negative2 then remainder else compared).toNat + divisor.toNat =
      (if negative1 ^^ negative2 then compared else remainder).toNat + 2 ^ 32 * overflow.toNat) :
    (if negative1 then !(negative1 ^^ negative2 ^^ overflow) && !decide (compared = 0)
      else negative1 ^^ negative2 ^^ overflow) = true ↔
      (signedValue remainder negative1).natAbs < (signedValue divisor negative2).natAbs := by
  have remainderBound := remainder.isLt
  have divisorBound := divisor.isLt
  have comparedBound := compared.isLt
  have comparedZero : compared = 0#32 ↔ compared.toNat = 0 := BitVec.toNat_inj.symm
  unfold signedValue
  cases negative1 <;> cases negative2 <;> cases overflow <;> simp [comparedZero] at slot ⊢ <;> omega

theorem exists_comparison (remainder divisor : BitVec 32) (isAdd : Bool) :
    ∃ (compared : BitVec 32) (overflow : Bool),
      (if isAdd then remainder else compared).toNat + divisor.toNat =
        (if isAdd then compared else remainder).toNat + 2 ^ 32 * overflow.toNat := by
  have remainderBound := remainder.isLt
  have divisorBound := divisor.isLt
  cases isAdd with
  | true =>
    refine ⟨remainder + divisor, decide (2 ^ 32 ≤ remainder.toNat + divisor.toNat), ?_⟩
    simp only [if_true, BitVec.toNat_add, Bool.toNat, Bool.cond_decide]
    split_ifs <;> omega
  | false =>
    refine ⟨remainder - divisor, decide (remainder.toNat < divisor.toNat), ?_⟩
    simp only [Bool.false_eq_true, if_false, BitVec.toNat_sub, Bool.toNat, Bool.cond_decide]
    split_ifs <;> omega

theorem truncated_division {divident divisor quotient remainder : ℤ} (nonzero : divisor ≠ 0)
    (equation : divisor * quotient + remainder = divident)
    (smaller : remainder.natAbs < divisor.natAbs)
    (signs : 0 ≤ divident ∧ 0 ≤ remainder ∨ divident ≤ 0 ∧ remainder ≤ 0) :
    divident.tdiv divisor = quotient ∧ divident.tmod divisor = remainder := by
  rcases signs with ⟨nonnegative, sign⟩ | ⟨nonpositive, sign⟩
  · exact (Int.tdiv_tmod_unique nonnegative nonzero).mpr ⟨by omega, sign, by omega⟩
  · exact (Int.tdiv_tmod_unique' nonpositive nonzero).mpr ⟨by omega, by omega, sign⟩

theorem tdiv_signs (divident divisor : ℤ) :
    (0 ≤ divident.tmod divisor ∨ divident < 0) ∧ (divident.tmod divisor ≤ 0 ∨ 0 ≤ divident) ∧
    (if (decide (divident < 0) ^^ decide (divisor < 0)) then divident.tdiv divisor ≤ 0
      else 0 ≤ divident.tdiv divisor) := by
  refine ⟨?_, ?_, ?_⟩
  · exact (le_or_gt 0 divident).imp (Int.tmod_nonneg divisor) id
  · refine (le_or_gt 0 divident).symm.imp (fun negative => ?_) id
    have opposite := Int.tmod_nonneg divisor (show 0 ≤ -divident by omega)
    rw [Int.neg_tmod] at opposite
    omega
  · rcases le_or_gt 0 divident with nonnegative | negative <;>
      rcases le_or_gt 0 divisor with positive | opposite
    · simpa [not_lt.mpr nonnegative, not_lt.mpr positive] using Int.tdiv_nonneg nonnegative positive
    · simpa [not_lt.mpr nonnegative, opposite] using
        Int.tdiv_nonpos_of_nonneg_of_nonpos nonnegative opposite.le
    · have flipped := Int.tdiv_nonneg (show 0 ≤ -divident by omega) positive
      rw [Int.neg_tdiv] at flipped
      simp [negative, not_lt.mpr positive]
      omega
    · simpa [negative, opposite] using
        Int.tdiv_nonneg_of_nonpos_of_nonpos negative.le opposite.le

theorem signedValue_ofInt {value : ℤ} {negative : Bool} (lower : -2 ^ 32 < value)
    (upper : value < 2 ^ 32) (sign : if negative then value ≤ 0 else 0 ≤ value) :
    signedValue (BitVec.ofInt 32 value) (negative && !decide (BitVec.ofInt 32 value = 0#32)) =
      value := by
  have zero : BitVec.ofInt 32 value = 0#32 ↔ value = 0 := by
    rw [← BitVec.toNat_inj, BitVec.toNat_ofInt]
    simp
    omega
  simp only [zero, signedValue, BitVec.toNat_ofInt]
  cases negative with
  | false => simp at sign ⊢; omega
  | true =>
    by_cases vanishes : value = 0
    · simp [vanishes]
    · simp [vanishes] at sign ⊢
      omega

theorem result_div {x y : BitVec 32} (nonzero : y ≠ 0) :
    MulDivInstruction.div.result x y = BitVec.ofInt 32 (x.toInt.tdiv y.toInt) := by
  by_cases overflow : x = BitVec.intMin 32 ∧ y = BitVec.allOnes 32
  · obtain ⟨rfl, rfl⟩ := overflow
    decide
  · simp only [MulDivInstruction.result, if_neg nonzero, if_neg overflow]

theorem result_rem {x y : BitVec 32} (nonzero : y ≠ 0) :
    MulDivInstruction.rem.result x y = BitVec.ofInt 32 (x.toInt.tmod y.toInt) := by
  by_cases overflow : x = BitVec.intMin 32 ∧ y = BitVec.allOnes 32
  · obtain ⟨rfl, rfl⟩ := overflow
    decide
  · simp only [MulDivInstruction.result, if_neg nonzero, if_neg overflow]

/-- The conditions on quotient and remainder in an executing row without sign support. -/
structure UnsignedDivides (x y quotient remainder : BitVec 32) : Prop where
  equation : y.toNat * quotient.toNat + remainder.toNat = x.toNat
  smaller : y ≠ 0#32 → remainder.toNat < y.toNat
  byZero : y = 0#32 → quotient = BitVec.allOnes 32

theorem unsignedDivides_iff (quotient remainder : BitVec 32) :
    UnsignedDivides x y quotient remainder ↔
      quotient = MulDivInstruction.divu.result x y ∧
        remainder = MulDivInstruction.remu.result x y := by
  by_cases zero : y = 0#32
  · subst zero
    constructor
    · intro divides
      have equation := divides.equation
      simp only [BitVec.toNat_ofNat, Nat.zero_mod, zero_mul, zero_add] at equation
      exact ⟨divides.byZero rfl, BitVec.eq_of_toNat_eq equation⟩
    · rintro ⟨rfl, rfl⟩
      exact ⟨by simp [MulDivInstruction.result], by simp, fun _ => rfl⟩
  · have positive : 0 < y.toNat := by
      rw [Nat.pos_iff_ne_zero]
      exact fun vanishes => zero (BitVec.eq_of_toNat_eq vanishes)
    have xBound := x.isLt
    have quotientBound : x.toNat / y.toNat < 2 ^ 32 := (Nat.div_le_self _ _).trans_lt xBound
    have remainderBound : x.toNat % y.toNat < 2 ^ 32 := (Nat.mod_le _ _).trans_lt xBound
    simp only [MulDivInstruction.result, BitVec.ofNat_eq_ofNat, if_neg zero]
    constructor
    · intro divides
      obtain ⟨quotientValue, remainderValue⟩ := (Nat.div_mod_unique positive).mpr
        ⟨(add_comm _ _).trans divides.equation, divides.smaller zero⟩
      rw [quotientValue, remainderValue]
      simp
    · rintro ⟨rfl, rfl⟩
      refine ⟨?_, fun _ => ?_, fun vanishes => absurd vanishes zero⟩
      · rw [BitVec.toNat_ofNat, BitVec.toNat_ofNat, Nat.mod_eq_of_lt quotientBound,
          Nat.mod_eq_of_lt remainderBound, Nat.div_add_mod]
      · rw [BitVec.toNat_ofNat, Nat.mod_eq_of_lt remainderBound]
        exact Nat.mod_lt _ positive

structure SignedDivides (x y quotient remainder : BitVec 32) : Prop where
  equation : y.toInt * signedValue quotient ((x.msb ^^ y.msb) && !decide (quotient = 0#32))
    + signedValue remainder (x.msb && !decide (remainder = 0#32)) = x.toInt
  smaller : y ≠ 0#32 → (signedValue remainder (x.msb && !decide (remainder = 0#32))).natAbs <
    y.toInt.natAbs
  byZero : y = 0#32 → quotient = BitVec.allOnes 32

theorem toInt_ne_zero {word : BitVec 32} (nonzero : word ≠ 0#32) : word.toInt ≠ 0 := by
  intro vanishes
  exact nonzero (BitVec.eq_of_toInt_eq vanishes)

theorem remainder_sign (divident remainder : BitVec 32) :
    0 ≤ divident.toInt ∧
        0 ≤ signedValue remainder (divident.msb && !decide (remainder = 0#32)) ∨
      divident.toInt ≤ 0 ∧
        signedValue remainder (divident.msb && !decide (remainder = 0#32)) ≤ 0 := by
  have bound := remainder.isLt
  rw [BitVec.msb_eq_toInt]
  by_cases negative : divident.toInt < 0
  · by_cases zero : remainder = 0#32
    · subst zero
      exact Or.inr ⟨negative.le, by simp⟩
    · refine Or.inr ⟨negative.le, ?_⟩
      simp only [negative, zero, signedValue, decide_true, decide_false, Bool.not_false,
        Bool.and_true, Bool.toNat_true]
      omega
  · exact Or.inl ⟨by omega, by simp [negative]⟩

theorem ofInt_signedValue : BitVec.ofInt 32 (signedValue word sign) = word :=
  ofInt_eq (-sign.toNat) (by unfold signedValue; ring)

theorem msb_and_nonzero : (word.msb && !decide (word = 0#32)) = word.msb := by
  by_cases zero : word = 0#32
  · subst zero
    rfl
  · simp [zero]

theorem truncated_bounds (divisor : ℤ) :
    (x.toInt.tdiv divisor).natAbs ≤ 2 ^ 31 ∧ (x.toInt.tmod divisor).natAbs ≤ 2 ^ 31 := by
  have upper := x.toInt_lt
  have lower := x.le_toInt
  have dividentBound : x.toInt.natAbs ≤ 2 ^ 31 := by omega
  rw [Int.natAbs_tdiv, Int.natAbs_tmod]
  exact ⟨(Nat.div_le_self _ _).trans dividentBound, (Nat.mod_le _ _).trans dividentBound⟩

theorem signedValue_tdiv :
    signedValue (BitVec.ofInt 32 (x.toInt.tdiv y.toInt)) ((x.msb ^^ y.msb) &&
      !decide (BitVec.ofInt 32 (x.toInt.tdiv y.toInt) = 0#32)) = x.toInt.tdiv y.toInt := by
  have bounds := truncated_bounds x y.toInt
  apply signedValue_ofInt
  · omega
  · omega
  · rw [BitVec.msb_eq_toInt, BitVec.msb_eq_toInt]
    exact (tdiv_signs x.toInt y.toInt).2.2

theorem signedValue_tmod :
    signedValue (BitVec.ofInt 32 (x.toInt.tmod y.toInt)) (x.msb &&
      !decide (BitVec.ofInt 32 (x.toInt.tmod y.toInt) = 0#32)) = x.toInt.tmod y.toInt := by
  have bounds := truncated_bounds x y.toInt
  obtain ⟨nonnegative, nonpositive, _⟩ := tdiv_signs x.toInt y.toInt
  apply signedValue_ofInt
  · omega
  · omega
  · rw [BitVec.msb_eq_toInt]
    by_cases negative : x.toInt < 0
    · simp only [negative, decide_true, if_true]
      omega
    · simp only [negative, decide_false, Bool.false_eq_true, if_false]
      omega

theorem signedDivides_iff (quotient remainder : BitVec 32) :
    SignedDivides x y quotient remainder ↔
      quotient = MulDivInstruction.div.result x y ∧
        remainder = MulDivInstruction.rem.result x y := by
  by_cases zero : y = 0#32
  · subst zero
    constructor
    · intro divides
      have equation := divides.equation
      simp only [BitVec.toInt_zero, zero_mul, zero_add] at equation
      refine ⟨divides.byZero rfl, ?_⟩
      rw [← ofInt_signedValue remainder, equation]
      simp [MulDivInstruction.result]
    · rintro ⟨rfl, rfl⟩
      refine ⟨?_, by simp, fun _ => rfl⟩
      simp [MulDivInstruction.result, msb_and_nonzero]
  · rw [result_div zero, result_rem zero]
    constructor
    · intro divides
      obtain ⟨quotientValue, remainderValue⟩ := truncated_division (toInt_ne_zero zero)
        divides.equation (divides.smaller zero) (remainder_sign x remainder)
      rw [quotientValue, remainderValue, ofInt_signedValue, ofInt_signedValue]
      exact ⟨rfl, rfl⟩
    · rintro ⟨rfl, rfl⟩
      refine ⟨?_, fun _ => ?_, fun vanishes => absurd vanishes zero⟩
      · rw [signedValue_tdiv, signedValue_tmod, Int.mul_tdiv_add_tmod]
      · rw [signedValue_tmod, Int.natAbs_tmod]
        exact Nat.mod_lt _ (Int.natAbs_pos.mpr (toInt_ne_zero zero))

theorem divides_if_iff (isSigned : Bool) (x y quotient remainder : BitVec 32) :
    (if isSigned then SignedDivides x y quotient remainder
      else UnsignedDivides x y quotient remainder) ↔
      quotient = (if isSigned then MulDivInstruction.div else .divu).result x y ∧
        remainder = (if isSigned then MulDivInstruction.rem else .remu).result x y := by
  cases isSigned with
  | true => exact signedDivides_iff x y quotient remainder
  | false => exact unsignedDivides_iff x y quotient remainder

def productHalf (lowHalf : Bool) (product : ℤ) : BitVec 32 :=
  if lowHalf then BitVec.ofInt 32 product else BitVec.ofInt 32 (product / 2 ^ 32)

theorem productHalf_mul :
    productHalf true (x.toNat * y.toNat) = MulDivInstruction.mul.result x y := by
  have product : BitVec.ofInt 32 (x.toInt * y.toInt) = BitVec.ofInt 32 (x.toNat * y.toNat) := by
    rw [BitVec.ofInt_mul, BitVec.ofInt_mul, BitVec.ofInt_toInt, BitVec.ofInt_toInt]
    simp
  simp only [productHalf, if_true, MulDivInstruction.result, product]

theorem productHalf_mulhu :
    productHalf false (x.toNat * y.toNat) = MulDivInstruction.mulhu.result x y := by
  simp only [productHalf, Bool.false_eq_true, if_false, MulDivInstruction.result]
  exact BitVec.ofInt_natCast 32 (x.toNat * y.toNat / 2 ^ 32)

end Airbender.Machine

import Airbender.Cs.MergedAddSub
import Airbender.Machine.MulDivArithmetic

/-!
# Rows of the multiplication and division families

Every satisfying assignment of a row that executes a multiplication or division instruction
yields the result of the instruction set, and every pair of operands has a satisfying assignment.
-/

namespace Airbender.Machine

open CircuitLib Circuit Mersenne31Field Cs OptimizationContext RiscV List

theorem enforceAll_unsigned (tables : TableDriver) (product : MulDivRelation) (execute : Bool)
    (x y quotient remainder difference : BitVec 32) (divisorIsZero borrow : Bool) (result : Unit) :
    ((unsignedDivisionContext product execute x y quotient remainder difference divisorIsZero
      borrow).enforceAll tables).Yields result ↔
      (masked execute difference).toNat + (masked execute y).toNat =
          (masked execute remainder).toNat + 2 ^ 32 * borrow.toNat ∧
        decide (masked execute y = 0) = divisorIsZero ∧
        (enforceMulDivSlot [product,
          unsignedDivisionRelation execute x y quotient remainder]).Yields result := by
  simp only [enforceAll, enforceSlots, slotCount, slot, unsignedDivisionContext]
  simp
  exact and_congr
    ((exists_congr (yields_enforceAddSubSlot rfl execute difference y remainder)).trans
      (exists_const Unit))
    (and_congr ((exists_congr (yields_enforceIsZeroSlot rfl execute y)).trans (exists_const Unit))
      Iff.rfl)

theorem enforceAll_signed (tables : TableDriver) (product : MulDivRelation) (flags : BooleanSet)
    (x y : BitVec 32) (division : SignedDivision) (result : Unit) :
    ((division.context flags x y product).enforceAll tables).Yields result ↔
      ((masked (flags.majorFlag .divRemCommon) (if division.signsDiffer flags x y then
            division.remainder else division.compared)).toNat +
          (masked (flags.majorFlag .divRemCommon) y).toNat =
        (masked (flags.majorFlag .divRemCommon) (if division.signsDiffer flags x y then
            division.compared else division.remainder)).toNat +
          2 ^ 32 * division.overflow.toNat) ∧
      (decide (masked (flags.majorFlag .divRemCommon) division.quotient = 0) =
          division.quotientIsZero ∧
        decide (masked (flags.majorFlag .divRemCommon) division.remainder = 0) =
          division.remainderIsZero ∧
        decide (masked (flags.majorFlag .divRemCommon) y = 0) = division.divisorIsZero) ∧
      (enforceMulDivSlot [product, division.relation flags x y]).Yields result := by
  simp only [enforceAll, enforceSlots, slotCount, slot, SignedDivision.context]
  simp [range_succ, and_assoc]
  refine and_congr ?_ (and_congr ?_ (and_congr ?_ (and_congr ?_ Iff.rfl)))
  · exact (exists_congr (yields_enforceAddSubSlot_exclusive rfl _ _ _ _ _)).trans
      (exists_const Unit)
  · exact (exists_congr (yields_enforceIsZeroSlot rfl _ _)).trans (exists_const Unit)
  · exact (exists_congr (yields_enforceIsZeroSlot rfl _ _)).trans (exists_const Unit)
  · exact (exists_congr (yields_enforceIsZeroSlot rfl _ _)).trans (exists_const Unit)

variable {idle : MulDivRelation}

theorem yields_productSlot (x y low high : BitVec 32) {sign1 sign2 : Cs.Num}
    {negative1 negative2 : Bool} (value1 : sign1.value = bit negative1)
    (value2 : sign2.value = bit negative2) (idleFlag : idle.execFlag = .is (bit false))
    (result : Unit) :
    (enforceMulDivSlot [productRelation true x y sign1 sign2 low high, idle]).Yields result ↔
      low = BitVec.ofInt 32 (signedValue x negative1 * signedValue y negative2) ∧
        high = BitVec.ofInt 32 (signedValue x negative1 * signedValue y negative2 / 2 ^ 32) := by
  have slot := yields_enforceMulDivRelation (.constant true) x y 0#32 low high negative1 negative2
    false result
  rw [slot_congruence, signedValue_false, BitVec.toNat_ofNat, Nat.zero_mod, Nat.cast_zero, add_zero,
    product_halves_iff] at slot
  rw [yields_enforceMulDivSlot true rfl idleFlag, ← slot]
  simp [resolved, productRelation, value1, value2]

theorem yields_unsignedDivisionSlot (idleFlag : idle.execFlag = .is (bit false))
    (x y quotient remainder : BitVec 32) (result : Unit) :
    (enforceMulDivSlot [idle,
      unsignedDivisionRelation true x y quotient remainder]).Yields result ↔
      y.toNat * quotient.toNat + remainder.toNat = x.toNat := by
  have slot := yields_enforceMulDivRelation (.constant true) y quotient remainder x 0#32 false false
    false result
  rw [slot_congruence] at slot
  simp only [signedValue_false, BitVec.toNat_ofNat, Nat.zero_mod, Nat.cast_zero, mul_zero,
    add_zero] at slot
  have shape : resolved (unsignedDivisionRelation true x y quotient remainder) =
      { execFlag := .constant true
        op1 := .ofWord y
        op1Sign := .var (bit false)
        op2 := .ofWord quotient
        op2Sign := .var (bit false)
        additiveTerm := .ofWord remainder
        additiveTermSign := .var (bit false)
        mulLow := .ofWord x
        mulHigh := .ofWord 0#32 } := by
    simp [resolved, unsignedDivisionRelation]
  rw [yields_enforceMulDivSlot false idleFlag rfl, if_neg Bool.false_ne_true, shape, slot]
  constructor
  · rintro ⟨wraps, equation⟩
    rw [unsigned_division_exact equation] at equation
    exact_mod_cast equation
  · intro equation
    exact ⟨0, by exact_mod_cast equation⟩

theorem yields_signedDivisionSlot (idleFlag : idle.execFlag = .is (bit false)) {flags : BooleanSet}
    (executing : flags.majorFlag .divRemCommon = true) (x y : BitVec 32) (division : SignedDivision)
    (result : Unit) :
    (enforceMulDivSlot [idle, division.relation flags x y]).Yields result ↔
      signedValue y (SignedDivision.divisorSign flags y)
          * signedValue division.quotient (division.quotientSign flags x y)
        + signedValue division.remainder (division.remainderSign flags x) =
      signedValue x (SignedDivision.dividentSign flags x) := by
  have slot := yields_enforceMulDivRelation (.constant true) y division.quotient division.remainder
    x (signWord (SignedDivision.dividentSign flags x)) (SignedDivision.divisorSign flags y)
    (division.quotientSign flags x y) (division.remainderSign flags x) result
  rw [slot_congruence] at slot
  have divisionFlag : (division.relation flags x y).execFlag = .is (bit true) := by
    rw [← executing]
    rfl
  refine (yields_enforceMulDivSlot false idleFlag divisionFlag result).trans (slot.trans ?_)
  simp only [signWord_toNat]
  constructor
  · rintro ⟨wraps, equation⟩
    have noWrap : (SignedDivision.dividentSign flags x).toNat + wraps = 0 := by
      have quotientBound := signedValue_bounds division.quotient (division.quotientSign flags x y)
      have remainderBound := signedValue_bounds division.remainder (division.remainderSign flags x)
      cases signed : SignedDivision.isSigned flags with
      | true =>
        refine division_exact (by rw [equation]; ring) ?_ (abs_le.mpr ⟨by omega, by omega⟩)
          (abs_le.mpr ⟨by omega, by omega⟩) ?_
        · rw [SignedDivision.divisorSign, signed, Bool.true_and, signedValue_msb]
          exact abs_toInt_le y
        · rw [SignedDivision.dividentSign, signed, Bool.true_and, signedValue_msb]
          exact abs_toInt_le x
      | false =>
        simp only [SignedDivision.divisorSign, SignedDivision.dividentSign,
          SignedDivision.quotientSign, SignedDivision.remainderSign, signed, Bool.false_and,
          Bool.xor_false, signedValue_false, Bool.toNat_false, Nat.cast_zero, mul_zero, add_zero,
          zero_add] at equation ⊢
        exact unsigned_division_exact equation
    rw [equation]
    linear_combination 2 ^ 64 * noWrap
  · intro equation
    exact ⟨-(SignedDivision.dividentSign flags x).toNat, by rw [equation]; ring⟩

theorem yields_selectFinalRdValue_mul (product division : BitVec 32) (result : Register) :
    (CommonDiffs.selectFinalRdValue
      [wordDiffs true product, wordDiffs false division]).Yields result ↔
      .ofWord product = result := by
  simp [CommonDiffs.selectFinalRdValue, wordDiffs, Boolean.isIs]

theorem yields_selectFinalRdValue_divRem (product division : BitVec 32) (result : Register) :
    (CommonDiffs.selectFinalRdValue
      [wordDiffs false product, wordDiffs true division]).Yields result ↔
      .ofWord division = result := by
  simp [CommonDiffs.selectFinalRdValue, wordDiffs, Boolean.isIs]

section

variable {tables : TableDriver}
  (signTable : tables .u16GetSignAndHighByte = u16GetSignAndHighByteTable)
  {flags : BooleanSet} {x y : BitVec 32} {rd : Register}

include signTable in
theorem yields_mulDivCircuit_unsigned :
    (mulDivCircuit tables false flags (.ofWord x) (.ofWord y)).Yields rd ↔
      ∃ (low high : BitVec 32) (divisorIsZero : Bool) (difference : BitVec 32) (borrow : Bool),
        ((divisorIsZero = false → borrow = true) ∨ flags.majorFlag .divRemCommon = false) ∧
        (divisorIsZero = true → flags.majorFlag .divRemCommon = true → low = BitVec.allOnes 32) ∧
        (masked (flags.majorFlag .divRemCommon) difference).toNat +
            (masked (flags.majorFlag .divRemCommon) y).toNat =
          (masked (flags.majorFlag .divRemCommon) high).toNat + 2 ^ 32 * borrow.toNat ∧
        decide (masked (flags.majorFlag .divRemCommon) y = 0) = divisorIsZero ∧
        (enforceMulDivSlot [productRelation (flags.majorFlag .mulCommon) x y (.constant 0)
            (.constant 0) low high,
          unsignedDivisionRelation (flags.majorFlag .divRemCommon) x y low high]).Yields () ∧
        (CommonDiffs.selectFinalRdValue
          [wordDiffs (flags.majorFlag .mulCommon)
            (if flags.minorFlag .mulCommon .mul then low else high),
          wordDiffs (flags.majorFlag .divRemCommon)
            (if flags.minorFlag .divRemCommon .divu then low else high)]).Yields rd := by
  refine yields_parsed signTable fun src1 holds1 _ =>
    yields_parsed signTable fun src2 holds2 _ => ?_
  simp only [MulOp.apply, DivRemOp.apply, Bool.false_eq_true, if_false, StateT.run_bind,
    StateT.run_pure, yields_bind, yields_pure, mulOp_unsigned holds1 holds2]
  constructor
  · rintro ⟨_, ⟨_, ⟨low, high, rfl⟩, _, divided, rfl⟩, _, enforced, chosen⟩
    obtain ⟨divisorIsZero, difference, borrow, smaller, ones, rfl⟩ :=
      (divRemOp_unsigned holds1 holds2 flags _ low high _).mp divided
    obtain ⟨sum, isZero, slot⟩ := (enforceAll_unsigned ..).mp enforced
    exact ⟨low, high, divisorIsZero, difference, borrow, smaller, ones, sum, isZero, slot, chosen⟩
  · rintro ⟨low, high, divisorIsZero, difference, borrow, smaller, ones, sum, isZero, slot, chosen⟩
    exact ⟨_, ⟨_, ⟨low, high, rfl⟩, _, (divRemOp_unsigned holds1 holds2 flags _ low high _).mpr
      ⟨divisorIsZero, difference, borrow, smaller, ones, rfl⟩, rfl⟩, (),
      (enforceAll_unsigned ..).mpr ⟨sum, isZero, slot⟩, chosen⟩

include signTable in
theorem yields_mulDivCircuit_signed :
    (mulDivCircuit tables true flags (.ofWord x) (.ofWord y)).Yields rd ↔
      ∃ division : SignedDivision,
        (flags.majorFlag .divRemCommon = true → division.divisorIsZero = false →
          division.isSmaller flags x y = true) ∧
        ((division.divisorIsZero && flags.majorFlag .divRemCommon) = true →
          division.quotient = BitVec.allOnes 32) ∧
        ((division.context flags x y (productRelation (flags.majorFlag .mulCommon) x y
          (.var (bit (mulSign1 flags x))) (.var (bit (mulSign2 flags y))) division.quotient
          division.remainder)).enforceAll tables).Yields () ∧
        (CommonDiffs.selectFinalRdValue
          [wordDiffs (flags.majorFlag .mulCommon) (if flags.minorFlag .mulCommon .mul then
            division.quotient else division.remainder),
          wordDiffs (flags.majorFlag .divRemCommon)
            (if flags.minorFlag .divRemCommon .div || flags.minorFlag .divRemCommon .divu then
              division.quotient else division.remainder)]).Yields rd := by
  refine yields_parsed signTable fun src1 holds1 sign1 =>
    yields_parsed signTable fun src2 holds2 sign2 => ?_
  simp only [MulOp.apply, DivRemOp.apply, if_true, StateT.run_bind, StateT.run_pure, yields_bind,
    yields_pure, mulOp_signed holds1 holds2 flags sign1 sign2]
  constructor
  · rintro ⟨_, ⟨_, ⟨low, high, rfl⟩, _, divided, rfl⟩, _, enforced, chosen⟩
    obtain ⟨division, rfl, rfl, smaller, ones, rfl⟩ :=
      (divRemOp_signed holds1 holds2 flags sign1 sign2 _ low high _).mp divided
    exact ⟨division, smaller, ones, enforced, chosen⟩
  · rintro ⟨division, smaller, ones, enforced, chosen⟩
    exact ⟨_, ⟨_, ⟨division.quotient, division.remainder, rfl⟩, _,
      (divRemOp_signed holds1 holds2 flags sign1 sign2 _ _ _ _).mpr
        ⟨division, rfl, rfl, smaller, ones, rfl⟩, rfl⟩, (), enforced, chosen⟩

include signTable in
theorem unsigned_mul_row (isMul : flags.majorFlag .mulCommon = true)
    (notDiv : flags.majorFlag .divRemCommon = false) :
    (mulDivCircuit tables false flags (.ofWord x) (.ofWord y)).Yields rd ↔
      .ofWord (productHalf (flags.minorFlag .mulCommon .mul) (x.toNat * y.toNat)) = rd := by
  rw [yields_mulDivCircuit_unsigned signTable, isMul, notDiv]
  have slot : ∀ low high, (enforceMulDivSlot [productRelation true x y (.constant 0) (.constant 0)
      low high, unsignedDivisionRelation false x y low high]).Yields () ↔
      low = BitVec.ofInt 32 (signedValue x false * signedValue y false) ∧
        high = BitVec.ofInt 32 (signedValue x false * signedValue y false / 2 ^ 32) :=
    fun low high => yields_productSlot x y low high rfl rfl rfl ()
  simp only [signedValue_false] at slot
  simp only [slot, yields_selectFinalRdValue_mul, productHalf]
  constructor
  · rintro ⟨_, _, _, _, _, _, _, _, _, ⟨rfl, rfl⟩, chosen⟩
    exact chosen
  · intro chosen
    exact ⟨BitVec.ofInt 32 (x.toNat * y.toNat), BitVec.ofInt 32 (x.toNat * y.toNat / 2 ^ 32), true,
      0#32, false, Or.inr trivial, by simp, rfl, rfl, ⟨rfl, rfl⟩, chosen⟩

include signTable in
theorem unsigned_divRem_row (notMul : flags.majorFlag .mulCommon = false)
    (isDiv : flags.majorFlag .divRemCommon = true) :
    (mulDivCircuit tables false flags (.ofWord x) (.ofWord y)).Yields rd ↔
      .ofWord (if flags.minorFlag .divRemCommon .divu then MulDivInstruction.divu.result x y
        else MulDivInstruction.remu.result x y) = rd := by
  rw [yields_mulDivCircuit_unsigned signTable, notMul, isDiv]
  have slot : ∀ low high, (enforceMulDivSlot [productRelation false x y (.constant 0) (.constant 0)
      low high, unsignedDivisionRelation true x y low high]).Yields () ↔
      y.toNat * low.toNat + high.toNat = x.toNat :=
    fun low high => yields_unsignedDivisionSlot rfl x y low high ()
  simp only [slot, yields_selectFinalRdValue_divRem, masked_true]
  have yBound := y.isLt
  constructor
  · rintro ⟨quotient, remainder, _, difference, borrow, smaller, ones, sum, rfl, equation, chosen⟩
    have differenceBound := difference.isLt
    have divides : UnsignedDivides x y quotient remainder := by
      refine ⟨equation, fun nonzero => ?_, fun zero => ones (by simp [zero]) trivial⟩
      have borrowed : borrow = true := by simpa [nonzero] using smaller
      rw [borrowed, Bool.toNat_true] at sum
      omega
    obtain ⟨rfl, rfl⟩ := (unsignedDivides_iff x y quotient remainder).mp divides
    exact chosen
  · intro chosen
    have divides := (unsignedDivides_iff x y _ _).mpr ⟨rfl, rfl⟩
    obtain ⟨difference, borrow, sum⟩ :=
      exists_comparison (MulDivInstruction.remu.result x y) y false
    simp only [Bool.false_eq_true, if_false] at sum
    refine ⟨_, _, _, difference, borrow, Or.inl fun nonzero => ?_,
      fun zero _ => divides.byZero (decide_eq_true_eq.mp zero), sum, rfl, divides.equation, chosen⟩
    have smaller := divides.smaller (decide_eq_false_iff_not.mp nonzero)
    cases borrow
    · rw [Bool.toNat_false] at sum
      omega
    · rfl

include signTable in
theorem signed_mul_row (isMul : flags.majorFlag .mulCommon = true)
    (notDiv : flags.majorFlag .divRemCommon = false) :
    (mulDivCircuit tables true flags (.ofWord x) (.ofWord y)).Yields rd ↔
      .ofWord (productHalf (flags.minorFlag .mulCommon .mul)
        (signedValue x (mulSign1 flags x) * signedValue y (mulSign2 flags y))) = rd := by
  rw [yields_mulDivCircuit_signed signTable]
  have slot : ∀ division : SignedDivision, (enforceMulDivSlot [productRelation true x y
      (.var (bit (mulSign1 flags x))) (.var (bit (mulSign2 flags y))) division.quotient
        division.remainder, division.relation flags x y]).Yields () ↔ _ :=
    fun division => yields_productSlot x y division.quotient division.remainder rfl rfl
      (by rw [← notDiv]; rfl) ()
  simp only [enforceAll_signed, isMul, notDiv, slot, yields_selectFinalRdValue_mul, productHalf,
    masked_false]
  constructor
  · rintro ⟨division, _, _, ⟨_, _, quotientValue, remainderValue⟩, chosen⟩
    rw [← quotientValue, ← remainderValue]
    exact chosen
  · intro chosen
    exact ⟨⟨_, _, 0#32, true, true, true, false⟩, by simp, by simp,
      ⟨by simp, by simp, rfl, rfl⟩, chosen⟩

/-- Once the flags are what the zero tests say, the remaining conditions of an executing row are
those of the signed or of the unsigned division. -/
theorem divides_iff {division : SignedDivision}
    (sum : (if division.signsDiffer flags x y then division.remainder
        else division.compared).toNat + y.toNat =
      (if division.signsDiffer flags x y then division.compared
        else division.remainder).toNat + 2 ^ 32 * division.overflow.toNat)
    (quotientZero : decide (division.quotient = 0#32) = division.quotientIsZero)
    (remainderZero : decide (division.remainder = 0#32) = division.remainderIsZero)
    (divisorZero : decide (y = 0#32) = division.divisorIsZero) :
    (division.divisorIsZero = false → division.isSmaller flags x y = true) ∧
      (division.divisorIsZero = true → division.quotient = BitVec.allOnes 32) ∧
      signedValue y (SignedDivision.divisorSign flags y)
          * signedValue division.quotient (division.quotientSign flags x y)
        + signedValue division.remainder (division.remainderSign flags x) =
      signedValue x (SignedDivision.dividentSign flags x) ↔
    if SignedDivision.isSigned flags then SignedDivides x y division.quotient division.remainder
    else UnsignedDivides x y division.quotient division.remainder := by
  have smaller : division.isSmaller flags x y = true ↔ _ := comparison_iff sum
  rw [smaller, ← divisorZero, decide_eq_false_iff_not, decide_eq_true_eq]
  cases signed : SignedDivision.isSigned flags with
  | true =>
    simp only [SignedDivision.divisorSign, SignedDivision.dividentSign,
      SignedDivision.quotientSign, SignedDivision.remainderSign, signed, Bool.true_and,
      ← quotientZero, ← remainderZero, signedValue_msb, if_true]
    exact ⟨fun ⟨smaller, ones, equation⟩ => ⟨equation, smaller, ones⟩,
      fun ⟨equation, smaller, ones⟩ => ⟨smaller, ones, equation⟩⟩
  | false =>
    simp only [SignedDivision.divisorSign, SignedDivision.dividentSign,
      SignedDivision.quotientSign, SignedDivision.remainderSign, signed, Bool.false_and,
      Bool.xor_false, signedValue_false, Int.natAbs_natCast, Bool.false_eq_true, if_false]
    exact ⟨fun ⟨smaller, ones, equation⟩ => ⟨by exact_mod_cast equation, smaller, ones⟩,
      fun ⟨equation, smaller, ones⟩ => ⟨smaller, ones, by exact_mod_cast equation⟩⟩

include signTable in
theorem signed_divRem_row (notMul : flags.majorFlag .mulCommon = false)
    (isDiv : flags.majorFlag .divRemCommon = true) :
    (mulDivCircuit tables true flags (.ofWord x) (.ofWord y)).Yields rd ↔
      .ofWord (if flags.minorFlag .divRemCommon .div || flags.minorFlag .divRemCommon .divu then
        (if SignedDivision.isSigned flags then MulDivInstruction.div else .divu).result x y
        else (if SignedDivision.isSigned flags then MulDivInstruction.rem else .remu).result x y)
          = rd := by
  rw [yields_mulDivCircuit_signed signTable]
  simp only [enforceAll_signed, notMul, isDiv, masked_true, yields_selectFinalRdValue_divRem,
    yields_signedDivisionSlot (show (productRelation false x y _ _ _ _).execFlag =
      .is (bit false) from rfl) isDiv, Bool.and_true, true_implies]
  constructor
  · rintro ⟨division, smaller, ones,
      ⟨sum, ⟨quotientZero, remainderZero, divisorZero⟩, equation⟩, chosen⟩
    have divides :=
      (divides_iff sum quotientZero remainderZero divisorZero).mp ⟨smaller, ones, equation⟩
    obtain ⟨quotientValue, remainderValue⟩ := (divides_if_iff ..).mp divides
    rw [← quotientValue, ← remainderValue]
    exact chosen
  · intro chosen
    have divides := (divides_if_iff (SignedDivision.isSigned flags) x y _ _).mpr ⟨rfl, rfl⟩
    generalize (if SignedDivision.isSigned flags then MulDivInstruction.div else .divu).result x y
      = quotient at divides chosen
    generalize (if SignedDivision.isSigned flags then MulDivInstruction.rem else .remu).result x y
      = remainder at divides chosen
    obtain ⟨compared, overflow, sum⟩ := exists_comparison remainder y
      ((SignedDivision.dividentSign flags x && !decide (remainder = 0#32))
        ^^ SignedDivision.divisorSign flags y)
    let division : SignedDivision := ⟨quotient, remainder, compared, decide (quotient = 0#32),
      decide (remainder = 0#32), decide (y = 0#32), overflow⟩
    obtain ⟨smaller, ones, equation⟩ : _ ∧ _ ∧ _ :=
      (@divides_iff flags x y division sum rfl rfl rfl).mpr divides
    exact ⟨division, smaller, ones, ⟨sum, ⟨rfl, rfl, rfl⟩, equation⟩, chosen⟩

/-- The decoder entry of an instruction: the one of the two families that supports it. -/
def mulDivSubspace (supportSigned : Bool) (instruction : MulDivInstruction) :
    Option DecoderSubspace :=
  (MulOp.defineDecoderSubspace supportSigned operationOp instruction.funct3 mExtFunct7).or
    (DivRemOp.defineDecoderSubspace supportSigned operationOp instruction.funct3 mExtFunct7)

section

variable {instruction : MulDivInstruction} {format : InstructionType}
  {minors : List DecoderInstructionVariantsKey}

theorem unsigned_mul_result
    (supported : MulOp.defineDecoderSubspace false operationOp instruction.funct3 mExtFunct7 =
      some (format, .mulCommon, minors)) (decoded : flags.Selects .mulCommon minors) :
    productHalf (flags.minorFlag .mulCommon .mul) (x.toNat * y.toNat) =
      instruction.result x y := by
  cases instruction <;>
    simp [MulOp.defineDecoderSubspace, MulDivInstruction.funct3, operationOp, mExtFunct7]
      at supported <;>
    obtain ⟨rfl, rfl⟩ := supported <;>
    simp [decoded.minor_iff, productHalf_mul, productHalf_mulhu]

theorem signed_mul_result
    (supported : MulOp.defineDecoderSubspace true operationOp instruction.funct3 mExtFunct7 =
      some (format, .mulCommon, minors)) (decoded : flags.Selects .mulCommon minors) :
    productHalf (flags.minorFlag .mulCommon .mul)
      (signedValue x (mulSign1 flags x) * signedValue y (mulSign2 flags y)) =
        instruction.result x y := by
  cases instruction <;>
    simp [MulOp.defineDecoderSubspace, MulDivInstruction.funct3, operationOp, mExtFunct7]
      at supported <;>
    obtain ⟨rfl, rfl⟩ := supported <;>
    simp [mulSign1, mulSign2, decoded.minor_iff, signedValue_msb, signedValue_false,
      productHalf_mul, productHalf_mulhu]
  · simp [productHalf, MulDivInstruction.result]
  · simp [productHalf, MulDivInstruction.result]

theorem unsigned_divRem_result
    (supported : DivRemOp.defineDecoderSubspace false operationOp instruction.funct3 mExtFunct7 =
      some (format, .divRemCommon, minors)) (decoded : flags.Selects .divRemCommon minors) :
    (if flags.minorFlag .divRemCommon .divu then MulDivInstruction.divu.result x y
      else MulDivInstruction.remu.result x y) = instruction.result x y := by
  cases instruction <;>
    simp [DivRemOp.defineDecoderSubspace, MulDivInstruction.funct3, operationOp, mExtFunct7]
      at supported <;>
    obtain ⟨rfl, rfl⟩ := supported <;>
    simp [decoded.minor_iff]

theorem signed_divRem_result
    (supported : DivRemOp.defineDecoderSubspace true operationOp instruction.funct3 mExtFunct7 =
      some (format, .divRemCommon, minors)) (decoded : flags.Selects .divRemCommon minors) :
    (if flags.minorFlag .divRemCommon .div || flags.minorFlag .divRemCommon .divu then
      (if SignedDivision.isSigned flags then MulDivInstruction.div else .divu).result x y
      else (if SignedDivision.isSigned flags then MulDivInstruction.rem else .remu).result x y) =
        instruction.result x y := by
  cases instruction <;>
    simp [DivRemOp.defineDecoderSubspace, MulDivInstruction.funct3, operationOp, mExtFunct7]
      at supported <;>
    obtain ⟨rfl, rfl⟩ := supported <;>
    simp [SignedDivision.isSigned, decoded.minor_iff]

end

variable {major : DecoderMajorInstructionFamilyKey} {minors : List DecoderInstructionVariantsKey}

theorem supported_family {supportSigned : Bool} {instruction : MulDivInstruction}
    {format : InstructionType}
    (supported : mulDivSubspace supportSigned instruction = some (format, major, minors)) :
    major = .mulCommon ∧
        MulOp.defineDecoderSubspace supportSigned operationOp instruction.funct3 mExtFunct7 =
          some (format, .mulCommon, minors) ∨
      major = .divRemCommon ∧
        DivRemOp.defineDecoderSubspace supportSigned operationOp instruction.funct3 mExtFunct7 =
          some (format, .divRemCommon, minors) := by
  cases supportSigned <;> cases instruction <;>
    simp_all [mulDivSubspace, MulOp.defineDecoderSubspace, DivRemOp.defineDecoderSubspace,
      MulDivInstruction.funct3, operationOp, mExtFunct7]

include signTable in
theorem yields_mulDivCircuit {supportSigned : Bool} {instruction : MulDivInstruction}
    {format : InstructionType}
    (supported : mulDivSubspace supportSigned instruction = some (format, major, minors))
    (decoded : flags.Selects major minors) :
    (mulDivCircuit tables supportSigned flags (.ofWord x) (.ofWord y)).Yields rd ↔
      .ofWord (instruction.result x y) = rd := by
  rcases supported_family supported with ⟨rfl, family⟩ | ⟨rfl, family⟩
  · have isMul : flags.majorFlag .mulCommon = true := decoded.major_iff _
    have notDiv : flags.majorFlag .divRemCommon = false := decoded.major_iff _
    cases supportSigned with
    | false => rw [unsigned_mul_row signTable isMul notDiv, unsigned_mul_result family decoded]
    | true => rw [signed_mul_row signTable isMul notDiv, signed_mul_result family decoded]
  · have notMul : flags.majorFlag .mulCommon = false := decoded.major_iff _
    have isDiv : flags.majorFlag .divRemCommon = true := decoded.major_iff _
    cases supportSigned with
    | false =>
      rw [unsigned_divRem_row signTable notMul isDiv, unsigned_divRem_result family decoded]
    | true => rw [signed_divRem_row signTable notMul isDiv, signed_divRem_result family decoded]

include signTable in
/-- Every satisfying assignment of a row that executes a supported instruction writes the result
of the instruction set, and such an assignment exists for all operands. -/
theorem mulDivRow_sound_and_complete {supportSigned : Bool} {instruction : MulDivInstruction}
    {format : InstructionType} {major : DecoderMajorInstructionFamilyKey}
    {minors : List DecoderInstructionVariantsKey}
    (supported : mulDivSubspace supportSigned instruction = some (format, major, minors))
    (decoded : flags.Selects major minors) (x y : BitVec 32) :
    (∀ (assignment : List F) (rd : Register),
      (mulDivCircuit tables supportSigned flags (.ofWord x) (.ofWord y)).run assignment =
        some (rd, []) → rd = .ofWord (instruction.result x y)) ∧
    ∃ assignment : List F,
      (mulDivCircuit tables supportSigned flags (.ofWord x) (.ofWord y)).run assignment =
        some (.ofWord (instruction.result x y), []) := by
  exact run_determined fun rd => yields_mulDivCircuit signTable supported decoded

end

def divisionFlags : BooleanSet where
  majorFlag key := decide (key = .divRemCommon)
  minorFlag _ minor := decide (minor = .div)

/-- The quotient of the smallest integer and `-1` does not fit and wraps around to itself. -/
theorem mulDivRow_signed_overflow :
    ∃ assignment : List F,
      (mulDivCircuit (fun _ => u16GetSignAndHighByteTable) true divisionFlags
        (.ofWord (BitVec.intMin 32)) (.ofWord (BitVec.allOnes 32))).run assignment =
        some (.ofWord (BitVec.intMin 32), []) := by
  have decoded : divisionFlags.Selects .divRemCommon [.div] :=
    ⟨fun _ => rfl, fun minor => by cases minor <;> rfl⟩
  have supported : mulDivSubspace true .div = some (.rType, .divRemCommon, [.div]) := rfl
  exact (mulDivRow_sound_and_complete rfl supported decoded (BitVec.intMin 32)
    (BitVec.allOnes 32)).2

end Airbender.Machine

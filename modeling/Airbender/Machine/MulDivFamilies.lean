import Airbender.Machine.MulDivOps

/-!
# The multiplication and division families

What `MulOp` and `DivRemOp` register and return, with and without signs, as relations between
32-bit words. `SignedDivision` names the flags that the signed division introduces.
-/

namespace Airbender.Machine

open CircuitLib Circuit Mersenne31Field Cs OptimizationContext List

@[simp] theorem yields_enforceDivisionByZeroQuotient (enforce : Bool) (quotient : BitVec 32)
    (result : Unit) :
    (DivRemOp.enforceDivisionByZeroQuotient (.is (bit enforce)) (.ofWord quotient)).Yields result ↔
      (enforce = true → quotient = BitVec.allOnes 32) := by
  have ones : lowLimb (BitVec.allOnes 32) = 65535 ∧ highLimb (BitVec.allOnes 32) = 65535 := by
    decide
  have limbs := @limbs_inj quotient (BitVec.allOnes 32)
  rw [ones.1, ones.2] at limbs
  push_cast at limbs
  cases enforce with
  | false => simp [DivRemOp.enforceDivisionByZeroQuotient]
  | true => simp [DivRemOp.enforceDivisionByZeroQuotient, sub_eq_zero, ← limbs]

section

variable {src1 src2 : RegisterDecompositionWithSign} {x y : BitVec 32}
  (holds1 : src1.u16Limbs = .ofWord x) (holds2 : src2.u16Limbs = .ofWord y) (flags : BooleanSet)

def productRelation (execute : Bool) (x y : BitVec 32) (sign1 sign2 : Cs.Num)
    (low high : BitVec 32) : MulDivRelation where
  execFlag := .is (bit execute)
  op1 := .ofWord x
  op1Sign := sign1
  op2 := .ofWord y
  op2Sign := sign2
  additiveTerm := ⟨.constant 0, .constant 0⟩
  additiveTermSign := .constant 0
  mulLow := .ofWord low
  mulHigh := .ofWord high

def productContext (relation : MulDivRelation) (low high : BitVec 32) : OptimizationContext where
  indexers := { registerAllocation := 2, mulDiv := 1 }
  registers := [.ofWord low, .ofWord high]
  mulDivRelations := [(0, relation)]

include holds1 holds2 in
theorem mulOp_unsigned (result : CommonDiffs × OptimizationContext) :
    ((MulOp.applyUnsigned src1 src2 flags).run {}).Yields result ↔
      ∃ low high : BitVec 32,
        (wordDiffs (flags.majorFlag .mulCommon)
            (if flags.minorFlag .mulCommon .mul then low else high),
          productContext (productRelation (flags.majorFlag .mulCommon) x y (.constant 0)
            (.constant 0) low high) low high) = result := by
  simp [MulOp.applyUnsigned, resetIndexers, appendMulRelationUnsigned, appendProductRelation,
    getRegisterOutput, appendMulRelationInner, BooleanSet.getMajorFlag, BooleanSet.getMinorFlag,
    holds1, holds2, productContext, productRelation]

/-- The relation `divisor * quotient + remainder = divident` of an unsigned division. -/
def unsignedDivisionRelation (execute : Bool) (x y quotient remainder : BitVec 32) :
    MulDivRelation where
  execFlag := .is (bit execute)
  op1 := .ofWord y
  op1Sign := .constant 0
  op2 := .ofWord quotient
  op2Sign := .constant 0
  additiveTerm := .ofWord remainder
  additiveTermSign := .constant 0
  mulLow := .ofWord x
  mulHigh := ⟨.constant 0, .constant 0⟩

/-- The context after both families; quotient and remainder reuse the registers of the product. -/
def unsignedDivisionContext (product : MulDivRelation) (execute : Bool)
    (x y quotient remainder difference : BitVec 32) (divisorIsZero borrow : Bool) :
    OptimizationContext where
  indexers := { registerAllocation := 3, addSub := 1, mulDiv := 1, zero := 1 }
  registers := [.ofWord quotient, .ofWord remainder, .ofWord difference]
  addSubOfs := [.is (bit borrow)]
  addSubRelations := [(0, ⟨.is (bit execute), .ofWord difference, .ofWord y, .ofWord remainder⟩)]
  isZeroFlags := [.is (bit divisorIsZero)]
  isZeroRelations := [(0, ⟨.is (bit execute), .ofWord y⟩)]
  mulDivRelations := [(0, product), (0, unsignedDivisionRelation execute x y quotient remainder)]

include holds1 holds2 in
theorem divRemOp_unsigned (product : MulDivRelation) (quotient remainder : BitVec 32)
    (result : CommonDiffs × OptimizationContext) :
    ((DivRemOp.applyUnsigned src1 src2 flags).run
        (productContext product quotient remainder)).Yields result ↔
      ∃ (divisorIsZero : Bool) (difference : BitVec 32) (borrow : Bool),
        ((divisorIsZero = false → borrow = true) ∨ flags.majorFlag .divRemCommon = false) ∧
        (divisorIsZero = true → flags.majorFlag .divRemCommon = true →
          quotient = BitVec.allOnes 32) ∧
        (wordDiffs (flags.majorFlag .divRemCommon)
            (if flags.minorFlag .divRemCommon .divu then quotient else remainder),
          unsignedDivisionContext product (flags.majorFlag .divRemCommon) x y quotient remainder
            difference divisorIsZero borrow) = result := by
  simp only [DivRemOp.applyUnsigned, appendSubRelation, appendAddSubRelation,
    BooleanSet.getMajorFlag, BooleanSet.getMinorFlag, holds1, holds2, productContext,
    unsignedDivisionContext, unsignedDivisionRelation, bind_assoc, pure_bind]
  simp only [yields_resetIndexers, yields_getRegisterOutput_pooled, yields_getRegisterOutput_new,
    yields_appendMulRelationInner, yields_appendIsZeroRelation_new, yields_pushAddSubRelation_new,
    yields_lift_bind, yields_run_lift, length_cons, length_nil, getElem_cons_zero,
    getElem_cons_succ, Nat.reduceAdd, Nat.reduceLT, Nat.zero_add, Nat.le_refl]
  simp [-Bool.exists_bool, -Bool.forall_bool]

variable (sign1 : src1.signBit = .is (bit x.msb)) (sign2 : src2.signBit = .is (bit y.msb))

/-- The signs of the operands as the variants of the multiplication family read them. -/
def mulSign1 (flags : BooleanSet) (x : BitVec 32) : Bool :=
  (flags.minorFlag .mulCommon .mulh || flags.minorFlag .mulCommon .mulhsu) && x.msb

@[inherit_doc mulSign1]
def mulSign2 (flags : BooleanSet) (y : BitVec 32) : Bool :=
  flags.minorFlag .mulCommon .mulh && y.msb

include holds1 holds2 sign1 sign2 in
theorem mulOp_signed (result : CommonDiffs × OptimizationContext) :
    ((MulOp.applySigned src1 src2 flags).run {}).Yields result ↔
      ∃ low high : BitVec 32,
        (wordDiffs (flags.majorFlag .mulCommon)
            (if flags.minorFlag .mulCommon .mul then low else high),
          productContext (productRelation (flags.majorFlag .mulCommon) x y
            (.var (bit (mulSign1 flags x))) (.var (bit (mulSign2 flags y))) low high)
            low high) = result := by
  simp only [MulOp.applySigned, resetIndexers, appendMulRelationRaw, appendProductRelation,
    getRegisterOutput, appendMulRelationInner, BooleanSet.getMajorFlag, BooleanSet.getMinorFlag,
    holds1, holds2, sign1, sign2, productContext, productRelation]
  simp [mulSign1, mulSign2]

def signWord (sign : Bool) : BitVec 32 := if sign then BitVec.allOnes 32 else 0

theorem signWord_limbs (sign : Bool) :
    (⟨.var (bit sign * 0xffff), .var (bit sign * 0xffff)⟩ : Register) =
      .ofWord (signWord sign) := by
  cases sign <;> rfl

/-- Everything the division family fixes besides the shared registers. -/
structure SignedDivision where
  quotient : BitVec 32
  remainder : BitVec 32
  /-- The output of the comparison, `remainder + divisor` or `remainder - divisor`. -/
  compared : BitVec 32
  quotientIsZero : Bool
  remainderIsZero : Bool
  divisorIsZero : Bool
  overflow : Bool

namespace SignedDivision

variable (division : SignedDivision) (flags : BooleanSet) (x y : BitVec 32)

def isSigned : Bool := flags.minorFlag .divRemCommon .div || flags.minorFlag .divRemCommon .rem

def divisorSign : Bool := isSigned flags && y.msb

def dividentSign : Bool := isSigned flags && x.msb

def quotientSign : Bool :=
  (dividentSign flags x ^^ divisorSign flags y) && !division.quotientIsZero

def remainderSign : Bool := dividentSign flags x && !division.remainderIsZero

def signsDiffer : Bool := division.remainderSign flags x ^^ divisorSign flags y

def isSmaller : Bool :=
  if division.remainderSign flags x then
    !(division.signsDiffer flags x y ^^ division.overflow) && !decide (division.compared = 0)
  else division.signsDiffer flags x y ^^ division.overflow

def relation : MulDivRelation where
  execFlag := .is (bit (flags.majorFlag .divRemCommon))
  op1 := .ofWord y
  op1Sign := .var (bit (divisorSign flags y))
  op2 := .ofWord division.quotient
  op2Sign := .var (bit (division.quotientSign flags x y))
  additiveTerm := .ofWord division.remainder
  additiveTermSign := .var (bit (division.remainderSign flags x))
  mulLow := .ofWord x
  mulHigh := .ofWord (signWord (dividentSign flags x))

def context (product : MulDivRelation) : OptimizationContext where
  indexers := { registerAllocation := 3, addSub := 1, mulDiv := 1, zero := 3 }
  registers := [.ofWord division.quotient, .ofWord division.remainder, .ofWord division.compared]
  addSubOfs := [.is (bit division.overflow)]
  addSubRelations :=
    [(0, ⟨.is (bit (flags.majorFlag .divRemCommon && division.signsDiffer flags x y)),
        .ofWord division.remainder, .ofWord y, .ofWord division.compared⟩),
      (0, ⟨.is (bit (flags.majorFlag .divRemCommon && !division.signsDiffer flags x y)),
        .ofWord division.compared, .ofWord y, .ofWord division.remainder⟩)]
  isZeroFlags := [.is (bit division.quotientIsZero), .is (bit division.remainderIsZero),
    .is (bit division.divisorIsZero)]
  isZeroRelations :=
    [(0, ⟨.is (bit (flags.majorFlag .divRemCommon)), .ofWord division.quotient⟩),
      (1, ⟨.is (bit (flags.majorFlag .divRemCommon)), .ofWord division.remainder⟩),
      (2, ⟨.is (bit (flags.majorFlag .divRemCommon)), .ofWord y⟩)]
  mulDivRelations := [(0, product), (0, division.relation flags x y)]

end SignedDivision

theorem unless_zero_iff (execute divisorIsZero smaller : Bool) :
    (bit execute - bit (divisorIsZero && execute)) * bit (!smaller) = 0 ↔
      (execute = true → divisorIsZero = false → smaller = true) := by
  cases execute <;> cases divisorIsZero <;> cases smaller <;> simp

include holds1 holds2 sign1 sign2 in
theorem divRemOp_signed (product : MulDivRelation) (quotient remainder : BitVec 32)
    (result : CommonDiffs × OptimizationContext) :
    ((DivRemOp.applySigned src1 src2 flags).run
        (productContext product quotient remainder)).Yields result ↔
      ∃ division : SignedDivision, division.quotient = quotient ∧ division.remainder = remainder ∧
        (flags.majorFlag .divRemCommon = true → division.divisorIsZero = false →
          division.isSmaller flags x y = true) ∧
        ((division.divisorIsZero && flags.majorFlag .divRemCommon) = true →
          quotient = BitVec.allOnes 32) ∧
        (wordDiffs (flags.majorFlag .divRemCommon)
            (if flags.minorFlag .divRemCommon .div || flags.minorFlag .divRemCommon .divu then
              quotient else remainder),
          division.context flags x y product) = result := by
  simp only [DivRemOp.applySigned, DivRemOp.isModularInequality, appendAddRelation,
    appendSubRelation, appendAddSubRelation, BooleanSet.getMajorFlag, BooleanSet.getMinorFlag,
    holds1, holds2, sign1, sign2, productContext, bind_assoc, pure_bind]
  -- The program is run operation by operation; `simp` alone would unfold all of them at once.
  simp only [yields_resetIndexers, yields_saveIndexers, yields_restoreIndexers,
    yields_getRegisterOutput_pooled, yields_getRegisterOutput_new, yields_appendMulRelationInner,
    yields_appendIsZeroRelation_new, yields_pushAddSubRelation_new,
    yields_pushAddSubRelation_pooled, yields_lift_bind, yields_run_lift, length_cons, length_nil,
    getElem_cons_zero, getElem_cons_succ, nil_append, cons_append, Nat.reduceAdd, Nat.reduceLT,
    Nat.zero_add, Nat.le_refl, Boolean.toggle, Boolean.yields_or_is_is, Boolean.yields_and_is_is,
    Boolean.yields_and_is_not, Boolean.yields_and_not_not, Boolean.yields_xor_is_is,
    Boolean.yields_choose_is_is, exists_eq_left', bit_mul_bit, bit_or_bit, bit_xor_bit, bit_choose,
    one_sub_bit, Num.fromBooleanIs, Boolean.getVariable_is, Boolean.value, yields_pure,
    yields_addVariableFromConstraint, yields_assert, yields_addConstraint, yields_isZeroReg,
    Register.yields_choose_ofWord, yields_writesRegister, yields_enforceDivisionByZeroQuotient,
    signWord_limbs, unless_zero_iff, decide_true, Bool.and_true, true_and, exists_const,
    Bool.false_eq_true, if_true, if_false, supportedOperands_ofWord]
  constructor
  · rintro ⟨quotientIsZero, remainderIsZero, divisorIsZero, compared, overflow, smaller, ones, rfl⟩
    exact ⟨⟨quotient, remainder, compared, quotientIsZero, remainderIsZero, divisorIsZero,
      overflow⟩, rfl, rfl, smaller, ones, rfl⟩
  · rintro ⟨division, rfl, rfl, smaller, ones, rfl⟩
    exact ⟨division.quotientIsZero, division.remainderIsZero, division.divisorIsZero,
      division.compared, division.overflow, smaller, ones, rfl⟩

end

end Airbender.Machine

import Airbender.Machine.Diffs

/-!
# The multiplication and division families

`MulOp` and `DivRemOp` register one relation `op1 * op2 + additive = low + 2^32 * high` each, and
the side conditions that make quotient and remainder unique.
-/

namespace Airbender.Machine

open CircuitLib Circuit Mersenne31Field Cs OptimizationContext

def writesRegister (execFlag : Boolean) (rd : Register) : Assembly CommonDiffs := do
  let low ← rd.low.getVariable
  let high ← rd.high.getVariable
  pure { execFlag, rdValue := [((low, high), execFlag)], newPcValue := .default }

@[simp] theorem yields_writesRegister (execute : Bool) (rd : BitVec 32) (result : CommonDiffs) :
    (writesRegister (.is (bit execute)) (.ofWord rd)).Yields result ↔
      wordDiffs execute rd = result := by
  simp [writesRegister, wordDiffs]

def operationOp : ℕ := 0b0110011

def mExtFunct7 : ℕ := 0b0000001

namespace MulOp

def defineDecoderSubspace (supportSigned : Bool) (opcode func3 func7 : ℕ) :
    Option DecoderSubspace :=
  if opcode = operationOp ∧ func7 = mExtFunct7 then
    match func3 with
    | 0b000 => some (.rType, .mulCommon, [.mul])
    | 0b001 => if supportSigned then some (.rType, .mulCommon, [.mulh]) else none
    | 0b010 => if supportSigned then some (.rType, .mulCommon, [.mulhsu]) else none
    -- `MULHU` is the family without any variant flag.
    | 0b011 => some (.rType, .mulCommon, [])
    | _ => none
  else none

def applyUnsigned (src1 src2 : RegisterDecompositionWithSign) (flags : BooleanSet) :
    ContextM CommonDiffs := do
  resetIndexers
  let execFlag := flags.getMajorFlag .mulCommon
  let mulFlag := flags.getMinorFlag .mulCommon .mul
  let (mulLow, mulHigh) ← appendMulRelationUnsigned src1.u16Limbs src2.u16Limbs execFlag
  let rd ← Register.choose mulFlag mulLow mulHigh
  writesRegister execFlag rd

def applySigned (src1 src2 : RegisterDecompositionWithSign) (flags : BooleanSet) :
    ContextM CommonDiffs := do
  resetIndexers
  let execFlag := flags.getMajorFlag .mulCommon
  let mulFlag := flags.getMinorFlag .mulCommon .mul
  let mulhFlag := flags.getMinorFlag .mulCommon .mulh
  let mulhsuFlag := flags.getMinorFlag .mulCommon .mulhsu
  let op1IsSigned ← Boolean.or mulhFlag mulhsuFlag
  let op2IsSigned := mulhFlag
  let op1Sign ← Boolean.choose op1IsSigned src1.signBit (.constant false)
  let op2Sign ← Boolean.choose op2IsSigned src2.signBit (.constant false)
  let (mulLow, mulHigh) ← appendMulRelationRaw src1.u16Limbs (← Num.fromBooleanIs op1Sign)
    src2.u16Limbs (← Num.fromBooleanIs op2Sign) execFlag
  let rd ← Register.choose mulFlag mulLow mulHigh
  writesRegister execFlag rd

def apply (supportSigned : Bool) (src1 src2 : RegisterDecompositionWithSign)
    (flags : BooleanSet) : ContextM CommonDiffs :=
  if supportSigned then applySigned src1 src2 flags else applyUnsigned src1 src2 flags

end MulOp

namespace DivRemOp

def defineDecoderSubspace (supportSigned : Bool) (opcode func3 func7 : ℕ) :
    Option DecoderSubspace :=
  if opcode = operationOp ∧ func7 = mExtFunct7 then
    match func3 with
    | 0b100 => if supportSigned then some (.rType, .divRemCommon, [.div]) else none
    | 0b101 => some (.rType, .divRemCommon, [.divu])
    | 0b110 => if supportSigned then some (.rType, .divRemCommon, [.rem]) else none
    -- `REMU` is the family without any variant flag.
    | 0b111 => some (.rType, .divRemCommon, [])
    | _ => none
  else none

/-- Division by zero has quotient `2^32 - 1`; the relation itself leaves it open. -/
def enforceDivisionByZeroQuotient (shouldEnforce : Boolean) (quotient : Register) :
    Assembly Unit := do
  addConstraint (shouldEnforce.value * (quotient.low.value - 0xffff))
  addConstraint (shouldEnforce.value * (quotient.high.value - 0xffff))

def applyUnsigned (src1 src2 : RegisterDecompositionWithSign) (flags : BooleanSet) :
    ContextM CommonDiffs := do
  resetIndexers
  let execFlag := flags.getMajorFlag .divRemCommon
  let divident := src1.u16Limbs
  let divisor := src2.u16Limbs
  let unsignedDivFlag := flags.getMinorFlag .divRemCommon .divu
  let quotient ← getRegisterOutput
  let remainder ← getRegisterOutput
  appendMulRelationInner
    { execFlag
      op1 := divisor
      op1Sign := .constant 0
      op2 := quotient
      op2Sign := .constant 0
      additiveTerm := remainder
      additiveTermSign := .constant 0
      mulLow := divident
      mulHigh := ⟨.constant 0, .constant 0⟩ }
  let divisorIsZero ← appendIsZeroRelation divisor execFlag
  let (_, borrow) ← appendSubRelation remainder divisor execFlag
  let tooLarge ← Boolean.and divisorIsZero.toggle borrow.toggle
  addConstraint (tooLarge.value * execFlag.value)
  let shouldEnforce ← Boolean.and divisorIsZero execFlag
  enforceDivisionByZeroQuotient shouldEnforce quotient
  let rd ← Register.choose unsignedDivFlag quotient remainder
  writesRegister execFlag rd

/-- Whether `|remainder| < |divisor|`, from one addition or subtraction chosen by the signs:

  remainder < 0   divisor < 0
  no              no            r - d borrows
  yes             yes           r - d does not borrow and is not zero
  no              yes           r + d does not overflow
  yes             no            r + d overflows and is not zero
-/
def isModularInequality (execFlag remainderSign divisorSign : Boolean)
    (remainder divisor : Register) : ContextM Boolean := do
  let xor ← Boolean.xor remainderSign divisorSign
  let indexers ← saveIndexers
  let execAdd ← Boolean.and execFlag xor
  let (out, overflow) ← appendAddRelation remainder divisor execAdd
  restoreIndexers indexers
  let execSub ← Boolean.and execFlag xor.toggle
  let (out', overflow') ← appendSubRelation remainder divisor execSub
  (assert (decide (out = out') && decide (overflow = overflow')) : Assembly Unit)
  let condition ← Boolean.xor xor overflow
  let isZero ← isZeroReg out
  let conditionVariant ← Boolean.and condition.toggle isZero.toggle
  Boolean.choose remainderSign conditionVariant condition

def applySigned (src1 src2 : RegisterDecompositionWithSign) (flags : BooleanSet) :
    ContextM CommonDiffs := do
  resetIndexers
  let execFlag := flags.getMajorFlag .divRemCommon
  let signedDivFlag := flags.getMinorFlag .divRemCommon .div
  let signedRemFlag := flags.getMinorFlag .divRemCommon .rem
  let unsignedDivFlag := flags.getMinorFlag .divRemCommon .divu
  let isSignedDivision ← Boolean.or signedDivFlag signedRemFlag
  let divident := src1.u16Limbs
  let divisor := src2.u16Limbs
  let quotient ← getRegisterOutput
  let remainder ← getRegisterOutput
  let divisorSign ← Boolean.and isSignedDivision src2.signBit
  let dividentSign ← Boolean.and isSignedDivision src1.signBit
  let signsDiffer ← Boolean.xor dividentSign divisorSign
  let quotientIsZero ← appendIsZeroRelation quotient execFlag
  let quotientSign ← Boolean.and signsDiffer quotientIsZero.toggle
  let remainderIsZero ← appendIsZeroRelation remainder execFlag
  let remainderSign ← Boolean.and dividentSign remainderIsZero.toggle
  let dividentSignExtension ← addVariableFromConstraint (dividentSign.value * 0xffff)
  appendMulRelationInner
    { execFlag
      op1 := divisor
      op1Sign := ← Num.fromBooleanIs divisorSign
      op2 := quotient
      op2Sign := .var (← quotientSign.getVariable)
      additiveTerm := remainder
      additiveTermSign := .var (← remainderSign.getVariable)
      mulLow := divident
      mulHigh := ⟨.var dividentSignExtension, .var dividentSignExtension⟩ }
  let divisorIsZero ← appendIsZeroRelation divisor execFlag
  let isDivisionAndDivisorZero ← Boolean.and divisorIsZero execFlag
  let isModularInequality ←
    isModularInequality execFlag remainderSign divisorSign remainder divisor
  let isDivisionAndDivisorNotZero := execFlag.value - isDivisionAndDivisorZero.value
  addConstraint (isDivisionAndDivisorNotZero * (1 - isModularInequality.value))
  enforceDivisionByZeroQuotient isDivisionAndDivisorZero quotient
  let outputQuotient ← Boolean.or signedDivFlag unsignedDivFlag
  let rd ← Register.choose outputQuotient quotient remainder
  writesRegister execFlag rd

def apply (supportSigned : Bool) (src1 src2 : RegisterDecompositionWithSign)
    (flags : BooleanSet) : ContextM CommonDiffs :=
  if supportSigned then applySigned src1 src2 flags else applyUnsigned src1 src2 flags

end DivRemOp

/-- The two families applied to one pair of operands in a fresh context, all relations enforced,
and the destination value selected. -/
def mulDivCircuit (tables : TableDriver) (supportSigned : Bool) (flags : BooleanSet)
    (rs1 rs2 : Register) : Assembly Register := do
  let src1 ← RegisterDecompositionWithSign.parseReg tables rs1
  let src2 ← RegisterDecompositionWithSign.parseReg tables rs2
  let families : ContextM (List CommonDiffs) := do
    let mulDiffs ← MulOp.apply supportSigned src1 src2 flags
    let divRemDiffs ← DivRemOp.apply supportSigned src1 src2 flags
    pure [mulDiffs, divRemDiffs]
  let (diffs, context) ← families.run {}
  context.enforceAll tables
  CommonDiffs.selectFinalRdValue diffs

end Airbender.Machine

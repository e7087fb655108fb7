import Airbender.Cs.OptimizationContext

/-!
# Multiplication and division relations

A slot relates `op1 * op2 + additive` to a 64-bit value; signs extend the operands to 64 bits. The
product is formed byte by byte in four 16-bit columns with range-checked carries. No column can wrap
around the field, so a satisfied slot is the equation modulo `2^64`.
-/

namespace Airbender.Cs

open CircuitLib Circuit Mersenne31Field

namespace OptimizationContext

/-- Boolean variables `b₀, b₁, …` read as the number `Σ 2^i * bᵢ`. -/
def allocateBits : ℕ → Assembly F
  | 0 => pure 0
  | count + 1 => do
      let bit ← addBooleanVariable
      let rest ← allocateBits count
      pure (bit.value + 2 * rest)

/-- A carry of `8 + bits` bits: Boolean variables for its upper bits and a range-checked byte. -/
def allocateCarry (bits : ℕ) : Assembly F := do
  let upper ← allocateBits bits
  let byte ← addVariable
  requireRangeChecked byte 8
  pure (byte + 2 ^ 8 * upper)

/-- One column: the low 16 bits of the total are the destination limb, the rest is the carry. -/
def enforceColumn (carryBits : ℕ) (total destination : F) : Assembly F := do
  let carry ← allocateCarry carryBits
  addConstraint (total - destination - 2 ^ 16 * carry)
  pure carry

def signExtendedBytes (operand : RegisterDecomposition) (sign : F) : ℕ → F
  | 0 => operand.byte0.value
  | 1 => operand.byte1.value
  | 2 => operand.byte2.value
  | 3 => operand.byte3.value
  | _ => 0xff * sign

section

variable {R : Type} [CommSemiring R] (a b : ℕ → R)

/-- Products of weight `2^0` and `2^8`. -/
def column0 : R := a 0 * b 0 + a 0 * b 1 * 2 ^ 8 + a 1 * b 0 * 2 ^ 8

def column1 : R :=
  a 0 * b 2 + a 0 * b 3 * 2 ^ 8 + a 1 * b 1 + a 1 * b 2 * 2 ^ 8 + a 2 * b 0
    + a 2 * b 1 * 2 ^ 8 + a 3 * b 0 * 2 ^ 8

def column2 : R :=
  a 0 * b 4 + a 0 * b 5 * 2 ^ 8 + a 1 * b 3 + a 1 * b 4 * 2 ^ 8 + a 2 * b 2
    + a 2 * b 3 * 2 ^ 8 + a 3 * b 1 + a 3 * b 2 * 2 ^ 8 + a 4 * b 0 + a 4 * b 1 * 2 ^ 8
    + a 5 * b 0 * 2 ^ 8

def column3 : R :=
  a 0 * b 6 + a 0 * b 7 * 2 ^ 8 + a 1 * b 5 + a 1 * b 6 * 2 ^ 8 + a 2 * b 4
    + a 2 * b 5 * 2 ^ 8 + a 3 * b 3 + a 3 * b 4 * 2 ^ 8 + a 4 * b 2 + a 4 * b 3 * 2 ^ 8
    + a 5 * b 1 + a 5 * b 2 * 2 ^ 8 + a 6 * b 0 + a 6 * b 1 * 2 ^ 8 + a 7 * b 0 * 2 ^ 8

def unsignedColumn2 : R :=
  a 1 * b 3 + a 2 * b 2 + a 2 * b 3 * 2 ^ 8 + a 3 * b 1 + a 3 * b 2 * 2 ^ 8

def unsignedColumn3 : R := a 3 * b 3

end

/-- The factor by which a sign contributes to an extended operand; a constant sign must be a
Boolean. -/
def signTerm (scale : F) : Num → Assembly F
  | .var sign => pure (scale * sign)
  | .constant sign => if sign = 1 then pure scale else if sign = 0 then pure 0 else abort

def enforceMulDivRelation (relation : MulDivRelation) : Assembly Unit := do
  let op1 ← RegisterDecomposition.parseReg relation.op1
  let op2 ← RegisterDecomposition.parseReg relation.op2
  let _ ← signTerm 0xff relation.op1Sign
  let _ ← signTerm 0xff relation.op2Sign
  let signTerm ← signTerm 0xffff relation.additiveTermSign
  let a := signExtendedBytes op1 relation.op1Sign.value
  let b := signExtendedBytes op2 relation.op2Sign.value
  let carry ← enforceColumn 1 (column0 a b + relation.additiveTerm.low.value)
    relation.mulLow.low.value
  let carry ← enforceColumn 2 (carry + column1 a b + relation.additiveTerm.high.value)
    relation.mulLow.high.value
  match relation.additiveTermSign, relation.op1Sign, relation.op2Sign with
  | .var _, .var _, .var _ =>
    let carry ← enforceColumn 3 (carry + column2 a b + signTerm) relation.mulHigh.low.value
    -- The product is truncated to 64 bits: the last carry is range checked and dropped.
    let _ ← enforceColumn 3 (carry + column3 a b + signTerm) relation.mulHigh.high.value
  | .constant additiveSign, .constant sign1, .constant sign2 =>
    assert (additiveSign == 0 && sign1 == 0 && sign2 == 0)
    let carry ← enforceColumn 1 (carry + unsignedColumn2 a b) relation.mulHigh.low.value
    addConstraint (carry + unsignedColumn3 a b - relation.mulHigh.high.value)
  | _, _, _ => abort

/-- Merge the candidates of one slot by their flags and enforce the selected relation once. -/
def enforceMulDivSlot (relations : List MulDivRelation) : Assembly Unit := do
  let flags := relations.map (·.execFlag)
  let op1 ← Register.chooseFromOrthogonalVariants flags (relations.map (·.op1))
  let op1Sign ← chooseFromOrthogonalVariants flags (relations.map (·.op1Sign))
  let op2 ← Register.chooseFromOrthogonalVariants flags (relations.map (·.op2))
  let op2Sign ← chooseFromOrthogonalVariants flags (relations.map (·.op2Sign))
  let additiveTerm ← Register.chooseFromOrthogonalVariants flags (relations.map (·.additiveTerm))
  let additiveTermSign ←
    chooseFromOrthogonalVariants flags (relations.map (·.additiveTermSign))
  let mulLow ← Register.chooseFromOrthogonalVariants flags (relations.map (·.mulLow))
  let mulHigh ← Register.chooseFromOrthogonalVariants flags (relations.map (·.mulHigh))
  enforceMulDivRelation
    { execFlag := .constant true, op1, op1Sign, op2, op2Sign, additiveTerm, additiveTermSign
      mulLow, mulHigh }

def enforceAll (tables : TableDriver) (context : OptimizationContext) : Assembly Unit := do
  enforceSlots context.addSubRelations (enforceAddSubSlot context)
  assert (slotCount context.addSubRelations == context.addSubOfs.length)
  enforceSlots context.u16ToU8x2DecompositionRelations (enforceDecompositionSlot context)
  assert (slotCount context.u16ToU8x2DecompositionRelations == context.u16ToU8x2Splits.length)
  enforceSlots context.u16RangeCheckRelations fun _ => enforceRangeCheckSlot
  enforceSlots context.isZeroRelations (enforceIsZeroSlot context)
  assert (slotCount context.isZeroRelations == context.isZeroFlags.length)
  enforceSlots context.lookupRelations fun _ => enforceLookupSlot tables
  enforceSlots context.mulDivRelations fun _ => enforceMulDivSlot

theorem yields_allocateBits (count : ℕ) (result : F) :
    (allocateBits count).Yields result ↔
      ∃ number : ℕ, number < 2 ^ count ∧ (number : F) = result := by
  induction count generalizing result with
  | zero => simp [allocateBits, eq_comm]
  | succ count ih =>
    simp only [allocateBits, yields_bind, yields_addBooleanVariable, yields_pure, ih, pow_succ]
    constructor
    · rintro ⟨_, ⟨flag, rfl⟩, _, ⟨rest, restBound, rfl⟩, rfl⟩
      refine ⟨flag.toNat + 2 * rest, by have := flag.toNat_lt; omega, ?_⟩
      rw [Boolean.value_is, bit_eq_natCast]
      push_cast
      rfl
    · rintro ⟨number, bounded, rfl⟩
      have digits : (decide (number % 2 = 1)).toNat + 2 * (number / 2) = number := by
        rcases Nat.mod_two_eq_zero_or_one number with parity | parity <;>
          simp only [parity] <;> simp <;> omega
      refine ⟨_, ⟨decide (number % 2 = 1), rfl⟩, _, ⟨number / 2, by omega, rfl⟩, ?_⟩
      have lifted := congrArg (fun number : ℕ => (number : F)) digits
      rw [Boolean.value_is, bit_eq_natCast]
      push_cast at lifted
      exact lifted

theorem yields_allocateCarry (bits : ℕ) (result : F) :
    (allocateCarry bits).Yields result ↔
      ∃ number : ℕ, number < 2 ^ (8 + bits) ∧ (number : F) = result := by
  simp only [allocateCarry, yields_bind, yields_allocateBits, yields_addVariable, true_and,
    yields_requireRangeChecked, yields_pure, pow_add]
  constructor
  · rintro ⟨_, ⟨upper, upperBound, rfl⟩, byte, _, byteBound, rfl⟩
    obtain ⟨byte, byteSmall, rfl⟩ := exists_nat byteBound
    refine ⟨byte + 2 ^ 8 * upper, by omega, ?_⟩
    push_cast
    rfl
  · rintro ⟨number, bounded, rfl⟩
    have byteBound : ((number % 2 ^ 8 : ℕ) : F).val < 2 ^ 8 := by
      rw [val_natCast_of_lt (by omega)]
      omega
    refine ⟨_, ⟨number / 2 ^ 8, by omega, rfl⟩, _, (), byteBound, ?_⟩
    have digits : number % 2 ^ 8 + 2 ^ 8 * (number / 2 ^ 8) = number := by omega
    have lifted := congrArg (fun number : ℕ => (number : F)) digits
    push_cast at lifted ⊢
    exact lifted

theorem yields_enforceColumn {carryBits total destination : ℕ} (small : carryBits ≤ 3)
    (totalBound : total < 2 ^ (24 + carryBits)) (destinationBound : destination < 2 ^ 16)
    (carry : F) :
    (enforceColumn carryBits (total : F) (destination : F)).Yields carry ↔
      total % 2 ^ 16 = destination ∧ ((total / 2 ^ 16 : ℕ) : F) = carry := by
  have powers : 2 ^ (24 + carryBits) ≤ 2 ^ 27 := Nat.pow_le_pow_right (by omega) (by omega)
  have split : 2 ^ (24 + carryBits) = 2 ^ 16 * 2 ^ (8 + carryBits) := by
    rw [← pow_add]
    congr 1
    omega
  simp only [enforceColumn, yields_bind, yields_allocateCarry, yields_addConstraint, yields_pure]
  constructor
  · rintro ⟨_, ⟨number, carryBound, rfl⟩, _, balanced, rfl⟩
    have sum : total = destination + 2 ^ 16 * number := by
      apply nat_eq
      · push_cast
        linear_combination balanced
      · omega
      · omega
    exact ⟨by omega, by congr 1; omega⟩
  · rintro ⟨limb, rfl⟩
    refine ⟨_, ⟨total / 2 ^ 16, by omega, rfl⟩, (), ?_, rfl⟩
    have digits : total = destination + 2 ^ 16 * (total / 2 ^ 16) := by omega
    have lifted := congrArg (fun number : ℕ => (number : F)) digits
    push_cast at lifted ⊢
    linear_combination lifted

theorem exists_enforceColumn {carryBits total destination : ℕ} (small : carryBits ≤ 3)
    (totalBound : total < 2 ^ (24 + carryBits)) (destinationBound : destination < 2 ^ 16)
    {rest : F → Prop} :
    (∃ carry, (enforceColumn carryBits (total : F) (destination : F)).Yields carry ∧ rest carry) ↔
      total % 2 ^ 16 = destination ∧ rest ((total / 2 ^ 16 : ℕ) : F) := by
  simp [yields_enforceColumn small totalBound destinationBound]

theorem carry_chain {total0 total1 total2 total3 limb0 limb1 limb2 limb3 : ℕ}
    (bound0 : limb0 < 2 ^ 16) (bound1 : limb1 < 2 ^ 16) (bound2 : limb2 < 2 ^ 16)
    (bound3 : limb3 < 2 ^ 16) :
    (total0 % 2 ^ 16 = limb0 ∧ (total0 / 2 ^ 16 + total1) % 2 ^ 16 = limb1 ∧
      ((total0 / 2 ^ 16 + total1) / 2 ^ 16 + total2) % 2 ^ 16 = limb2 ∧
      (((total0 / 2 ^ 16 + total1) / 2 ^ 16 + total2) / 2 ^ 16 + total3) % 2 ^ 16 = limb3) ↔
      (total0 + 2 ^ 16 * total1 + 2 ^ 32 * total2 + 2 ^ 48 * total3) % 2 ^ 64 =
        limb0 + 2 ^ 16 * limb1 + 2 ^ 32 * limb2 + 2 ^ 48 * limb3 := by
  omega

def extended (word : BitVec 32) (sign : Bool) : ℕ :=
  word.toNat + (2 ^ 64 - 2 ^ 32) * sign.toNat

def extendedByte (word : BitVec 32) (sign : Bool) (index : ℕ) : ℕ :=
  if index < 4 then wordByte word index else 255 * sign.toNat

theorem extendedByte_le (word : BitVec 32) (sign : Bool) (index : ℕ) :
    extendedByte word sign index ≤ 255 := by
  have byteBound := wordByte_lt word index
  have signBound := sign.toNat_lt
  unfold extendedByte
  split <;> omega

theorem signExtendedBytes_eq (word : BitVec 32) (sign : Bool) :
    signExtendedBytes (.ofWord word) (bit sign) =
      fun index => ((extendedByte word sign index : ℕ) : F) := by
  funext index
  match index with
  | 0 | 1 | 2 | 3 => simp [signExtendedBytes, extendedByte, RegisterDecomposition.ofWord]
  | index + 4 =>
    simp only [signExtendedBytes, extendedByte, bit_eq_natCast]
    rw [if_neg (by omega)]
    push_cast
    norm_num

section

variable {a b : ℕ → ℕ}

theorem column_casts (a b : ℕ → ℕ) :
    column0 (fun index => (a index : F)) (fun index => (b index : F)) = (column0 a b : ℕ) ∧
    column1 (fun index => (a index : F)) (fun index => (b index : F)) = (column1 a b : ℕ) ∧
    column2 (fun index => (a index : F)) (fun index => (b index : F)) = (column2 a b : ℕ) ∧
    column3 (fun index => (a index : F)) (fun index => (b index : F)) = (column3 a b : ℕ) := by
  simp only [column0, column1, column2, column3]
  push_cast
  exact ⟨rfl, rfl, rfl, rfl⟩

theorem column_bounds (aBound : ∀ index, a index ≤ 255) (bBound : ∀ index, b index ≤ 255) :
    column0 a b ≤ 33357825 ∧ column1 a b ≤ 66780675 ∧ column2 a b ≤ 100203525 ∧
      column3 a b ≤ 133626375 := by
  refine ⟨?_, ?_, ?_, ?_⟩
  · calc column0 a b ≤ column0 (fun _ => 255) (fun _ => 255) := by
          unfold column0
          gcongr <;> apply_rules [aBound, bBound]
      _ = 33357825 := rfl
  · calc column1 a b ≤ column1 (fun _ => 255) (fun _ => 255) := by
          unfold column1
          gcongr <;> apply_rules [aBound, bBound]
      _ = 66780675 := rfl
  · calc column2 a b ≤ column2 (fun _ => 255) (fun _ => 255) := by
          unfold column2
          gcongr <;> apply_rules [aBound, bBound]
      _ = 100203525 := rfl
  · calc column3 a b ≤ column3 (fun _ => 255) (fun _ => 255) := by
          unfold column3
          gcongr <;> apply_rules [aBound, bBound]
      _ = 133626375 := rfl

def byteValue (a : ℕ → ℕ) : ℕ :=
  a 0 + 2 ^ 8 * a 1 + 2 ^ 16 * a 2 + 2 ^ 24 * a 3 + 2 ^ 32 * a 4 + 2 ^ 40 * a 5 + 2 ^ 48 * a 6
    + 2 ^ 56 * a 7

theorem product_eq_columns (a b : ℕ → ℕ) :
    ∃ overflow, byteValue a * byteValue b =
      column0 a b + 2 ^ 16 * column1 a b + 2 ^ 32 * column2 a b + 2 ^ 48 * column3 a b
        + 2 ^ 64 * overflow := by
  refine ⟨∑ i ∈ Finset.range 7, a (i + 1) * ∑ j ∈ Finset.range (i + 1), b (7 - i + j) * 2 ^ (8 * j),
    ?_⟩
  simp only [Finset.sum_range_succ, Finset.sum_range_zero, byteValue, column0, column1, column2,
    column3]
  ring

theorem byteValue_extendedByte (word : BitVec 32) (sign : Bool) :
    byteValue (extendedByte word sign) = extended word sign := by
  have := word.isLt
  simp only [byteValue, extendedByte, extended, wordByte]
  norm_num
  omega

end

theorem yields_enforceMulDivRelation (flag : Boolean) (op1 op2 additive low high : BitVec 32)
    (sign1 sign2 additiveSign : Bool) (result : Unit) :
    (enforceMulDivRelation
      { execFlag := flag
        op1 := .ofWord op1
        op1Sign := .var (bit sign1)
        op2 := .ofWord op2
        op2Sign := .var (bit sign2)
        additiveTerm := .ofWord additive
        additiveTermSign := .var (bit additiveSign)
        mulLow := .ofWord low
        mulHigh := .ofWord high }).Yields result ↔
      (extended op1 sign1 * extended op2 sign2 + extended additive additiveSign) % 2 ^ 64 =
        low.toNat + 2 ^ 32 * high.toNat := by
  obtain ⟨cast0, cast1, cast2, cast3⟩ :=
    column_casts (extendedByte op1 sign1) (extendedByte op2 sign2)
  obtain ⟨bound0, bound1, bound2, bound3⟩ :=
    column_bounds (extendedByte_le op1 sign1) (extendedByte_le op2 sign2)
  obtain ⟨overflow, product⟩ := product_eq_columns (extendedByte op1 sign1)
    (extendedByte op2 sign2)
  rw [byteValue_extendedByte, byteValue_extendedByte] at product
  simp only [enforceMulDivRelation, yields_bind, yields_parseReg, signTerm, yields_pure,
    Num.value_var, Register.ofWord_low, Register.ofWord_high, exists_eq_left',
    signExtendedBytes_eq, cast0, cast1, cast2, cast3]
  have signCast : (0xffff : F) * bit additiveSign = ((65535 * additiveSign.toNat : ℕ) : F) := by
    rw [bit_eq_natCast]
    push_cast
    rfl
  have additiveLow := lowLimb_lt additive
  have additiveHigh := highLimb_lt additive
  have signBound := additiveSign.toNat_lt
  generalize column0 (extendedByte op1 sign1) (extendedByte op2 sign2) = total0 at *
  generalize column1 (extendedByte op1 sign1) (extendedByte op2 sign2) = total1 at *
  generalize column2 (extendedByte op1 sign1) (extendedByte op2 sign2) = total2 at *
  generalize column3 (extendedByte op1 sign1) (extendedByte op2 sign2) = total3 at *
  simp only [signCast, ← Nat.cast_add, add_assoc]
  rw [exists_enforceColumn (by omega) (by omega) (lowLimb_lt low)]
  simp only [← Nat.cast_add]
  rw [exists_enforceColumn (by omega) (by omega) (highLimb_lt low)]
  simp only [← Nat.cast_add]
  rw [exists_enforceColumn (by omega) (by omega) (lowLimb_lt high)]
  simp only [← Nat.cast_add]
  rw [exists_enforceColumn (by omega) (by omega) (highLimb_lt high), and_true]
  rw [carry_chain (lowLimb_lt low) (highLimb_lt low) (lowLimb_lt high) (highLimb_lt high)]
  have total : total0 + lowLimb additive + 2 ^ 16 * (total1 + highLimb additive)
      + 2 ^ 32 * (total2 + 65535 * additiveSign.toNat)
      + 2 ^ 48 * (total3 + 65535 * additiveSign.toNat) + 2 ^ 64 * overflow =
      extended op1 sign1 * extended op2 sign2 + extended additive additiveSign := by
    have additiveValue := toNat_eq_limbs additive
    rw [product]
    unfold extended
    omega
  have lowValue := toNat_eq_limbs low
  have highValue := toNat_eq_limbs high
  rw [← total]
  omega

def resolved (relation : MulDivRelation) : MulDivRelation where
  execFlag := .constant true
  op1 := ⟨.var relation.op1.low.value, .var relation.op1.high.value⟩
  op1Sign := .var relation.op1Sign.value
  op2 := ⟨.var relation.op2.low.value, .var relation.op2.high.value⟩
  op2Sign := .var relation.op2Sign.value
  additiveTerm := ⟨.var relation.additiveTerm.low.value, .var relation.additiveTerm.high.value⟩
  additiveTermSign := .var relation.additiveTermSign.value
  mulLow := ⟨.var relation.mulLow.low.value, .var relation.mulLow.high.value⟩
  mulHigh := ⟨.var relation.mulHigh.low.value, .var relation.mulHigh.high.value⟩

theorem yields_enforceMulDivSlot {first second : MulDivRelation} (isFirst : Bool)
    (firstFlag : first.execFlag = .is (bit isFirst))
    (secondFlag : second.execFlag = .is (bit !isFirst)) (result : Unit) :
    (enforceMulDivSlot [first, second]).Yields result ↔
      (enforceMulDivRelation (resolved (if isFirst then first else second))).Yields result := by
  cases isFirst <;> simp [enforceMulDivSlot, Register.chooseFromOrthogonalVariants, firstFlag,
    secondFlag, Boolean.isConstant, resolved]

end OptimizationContext

end Airbender.Cs

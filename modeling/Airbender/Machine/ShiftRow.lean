import Airbender.Machine.Decoder
import Airbender.Cs.FamilyContext

/-!
# Rows of the shift family

A table gives for each half what stays in place and what moves to its neighbour; another one gives
the ones that fill a negative number. The contributions never overlap, so their sum is the shifted
word.
-/

namespace Airbender.Machine

open CircuitLib Circuit Mersenne31Field Cs OptimizationContext Simulator List

/-- `ShiftOp::apply`. Rotations are declared but have no implementation. -/
def ShiftOp.apply (supportSra supportRot : Bool) (src1 src2 : RegisterDecompositionWithSign)
    (flags : BooleanSet) : ContextM CommonDiffs := do
  resetIndexers
  let execFlag := flags.getMajorFlag .shiftCommon
  let isRightShift := flags.getMinorFlag .shiftCommon .shiftRight
  let input := src1.u16Limbs
  let inputSign := src1.signBit
  let (shiftAmountToUse, _) ←
    appendLookupPair src2.u16Limbs.low.value .extractLower5Bits execFlag
  if supportRot then
    (abort : Assembly CommonDiffs)
  else
    let (lowInPlace, shiftedFromLowPlace) ← appendLookupPair
      (input.low.value + 2 ^ 16 * shiftAmountToUse + 2 ^ 21 * isRightShift.value)
      .shiftImplementation execFlag
    let (highInPlace, shiftedFromHighPlace) ← appendLookupPair
      (input.high.value + 2 ^ 16 * shiftAmountToUse + 2 ^ 21 * isRightShift.value)
      .shiftImplementation execFlag
    let selectedLow ← addVariableFromConstraint
      (isRightShift.value * (lowInPlace + shiftedFromHighPlace) +
        (1 - isRightShift.value) * lowInPlace)
    let selectedHigh ← addVariableFromConstraint
      (isRightShift.value * highInPlace +
        (1 - isRightShift.value) * (highInPlace + shiftedFromLowPlace))
    if supportSra then
      let isSra := flags.getMinorFlag .shiftCommon .shiftRightAlgebraic
      let (sraFillerLow, sraFillerHigh) ← appendLookupPair
        (inputSign.value + 2 ^ 1 * isSra.value + 2 ^ 2 * shiftAmountToUse)
        .sraSignFiller execFlag
      pure
        { execFlag
          rdValue := [((selectedLow + sraFillerLow, selectedHigh + sraFillerHigh), execFlag)]
          newPcValue := .default }
    else
      pure
        { execFlag
          rdValue := [((selectedLow, selectedHigh), execFlag)]
          newPcValue := .default }

def shiftCircuit (tables : TableDriver) (supportSra supportRot : Bool) (flags : BooleanSet)
    (rs1 rs2 : Register) : Assembly Register := do
  let src1 ← RegisterDecompositionWithSign.parseReg tables rs1
  let src2 ← RegisterDecompositionWithSign.parseReg tables rs2
  let diffs ← enforced tables (ShiftOp.apply supportSra supportRot src1 src2 flags)
  CommonDiffs.selectFinalRdValue [diffs]

theorem pow_split {amount : ℕ} (small : amount ≤ 16) :
    ∃ p q : ℕ, 2 ^ amount = p ∧ 0 < p ∧ 0 < q ∧ p * q = 2 ^ 16 :=
  ⟨2 ^ amount, 2 ^ (16 - amount), rfl, Nat.two_pow_pos _, Nat.two_pow_pos _, by
    rw [← Nat.pow_add, Nat.add_sub_cancel' small]⟩

theorem right_shift_halves {low : ℕ} (lowBound : low < 2 ^ 16) (high amount : ℕ) :
    low / 2 ^ amount + high * 2 ^ 16 / 2 ^ amount % 2 ^ 16 =
      (low + 2 ^ 16 * high) / 2 ^ amount % 2 ^ 16 := by
  rcases Nat.le_total amount 16 with small | large
  · obtain ⟨p, q, power, pPositive, qPositive, product⟩ := pow_split small
    have inside : low / p < q := Nat.div_lt_of_lt_mul (by omega)
    have moved : high * 2 ^ 16 / p = q * high := by
      rw [mul_comm, ← product, mul_assoc, Nat.mul_div_cancel_left _ pPositive]
    have total : (low + 2 ^ 16 * high) / p = low / p + q * high := by
      rw [← product, mul_assoc, Nat.add_mul_div_left _ _ pPositive]
    have kept : q * high % 2 ^ 16 = q * (high % p) := by
      rw [← product, mul_comm p q, Nat.mul_mod_mul_left]
    have gap : q * (high % p) + q ≤ 2 ^ 16 := by
      have room := Nat.mul_le_mul_left q (Nat.mod_lt high pPositive)
      rw [Nat.mul_succ, mul_comm q p, product] at room
      exact room
    rw [power, moved, total, kept]
    generalize low / p = lowPart at inside ⊢
    omega
  · obtain ⟨r, rest⟩ : ∃ r, 2 ^ amount = 2 ^ 16 * r :=
      ⟨2 ^ (amount - 16), by rw [← Nat.pow_add, Nat.add_sub_cancel' large]⟩
    rw [rest, ← Nat.div_div_eq_div_mul, ← Nat.div_div_eq_div_mul, ← Nat.div_div_eq_div_mul,
      Nat.div_eq_of_lt lowBound, Nat.zero_div, Nat.zero_add, Nat.mul_div_cancel _ (by omega),
      Nat.add_mul_div_left _ _ (by omega), Nat.div_eq_of_lt lowBound, Nat.zero_add]

theorem left_shift_halves {low : ℕ} (lowBound : low < 2 ^ 16) (high amount : ℕ) :
    high * 2 ^ amount % 2 ^ 16 + low * 2 ^ amount / 2 ^ 16 % 2 ^ 16 =
      (low + 2 ^ 16 * high) * 2 ^ amount % 2 ^ 32 / 2 ^ 16 := by
  have disjoint : high * 2 ^ amount % 2 ^ 16 + low * 2 ^ amount / 2 ^ 16 % 2 ^ 16 < 2 ^ 16 := by
    rcases Nat.le_total amount 16 with small | large
    · obtain ⟨p, q, power, pPositive, qPositive, product⟩ := pow_split small
      have carried : low * p / 2 ^ 16 < p := by
        apply Nat.div_lt_of_lt_mul
        exact Nat.mul_lt_mul_of_pos_right lowBound pPositive
      have kept : high * p % 2 ^ 16 = p * (high % q) := by
        rw [← product, mul_comm high p, Nat.mul_mod_mul_left]
      have gap := Nat.mul_le_mul_left p (Nat.mod_lt high qPositive)
      rw [Nat.mul_succ, product] at gap
      rw [power]
      omega
    · have multiple : high * 2 ^ amount % 2 ^ 16 = 0 := by
        apply Nat.mod_eq_zero_of_dvd
        exact Dvd.dvd.mul_left (Nat.pow_dvd_pow 2 large) high
      omega
  have spread : (low + 2 ^ 16 * high) * 2 ^ amount =
      low * 2 ^ amount + 2 ^ 16 * (high * 2 ^ amount) := by ring
  rw [spread]
  omega

def halvesOf (isRight : Bool) (amount word : ℕ) : ℕ × ℕ :=
  if isRight then (word / 2 ^ amount, word * 2 ^ 16 / 2 ^ amount % 2 ^ 16)
  else (word * 2 ^ amount % 2 ^ 16, word * 2 ^ amount / 2 ^ 16 % 2 ^ 16)

theorem shiftedHalves_key {word amount : ℕ} (wordBound : word < 2 ^ 16) (amountBound : amount < 32)
    (isRight : Bool) :
    shiftedHalves (word + 2 ^ 16 * amount + 2 ^ 21 * isRight.toNat) =
      halvesOf isRight amount word := by
  have flagBound := isRight.toNat_lt
  have inputWord : (word + 2 ^ 16 * amount + 2 ^ 21 * isRight.toNat) % 2 ^ 16 = word := by omega
  have shiftAmount :
      ((word + 2 ^ 16 * amount + 2 ^ 21 * isRight.toNat) >>> 16) &&& 0b11111 = amount := by
    rw [Nat.and_two_pow_sub_one_eq_mod _ 5, Nat.shiftRight_eq_div_pow]
    omega
  have direction : decide (0 < (word + 2 ^ 16 * amount + 2 ^ 21 * isRight.toNat) >>> (16 + 5)) =
      isRight := by
    rw [Nat.shiftRight_eq_div_pow]
    cases isRight with
    | false =>
      rw [decide_eq_false_iff_not, Bool.toNat_false]
      omega
    | true =>
      rw [decide_eq_true_eq, Bool.toNat_true]
      omega
  simp only [shiftedHalves, inputWord, shiftAmount, direction, halvesOf]
  simp only [Nat.shiftRight_eq_div_pow, Nat.shiftLeft_eq]
  cases isRight with
  | false =>
    simp only [Bool.false_eq_true, if_false, Prod.mk.injEq]
    generalize word * 2 ^ amount = shifted
    omega
  | true =>
    have inPlace : word * 2 ^ 16 / 2 ^ amount / 2 ^ 16 = word / 2 ^ amount := by
      rw [Nat.div_div_eq_div_mul, mul_comm (2 ^ amount), ← Nat.div_div_eq_div_mul,
        Nat.mul_div_cancel _ (by omega)]
    have inside : word / 2 ^ amount ≤ word := Nat.div_le_self _ _
    simp only [if_true, Prod.mk.injEq, inPlace, and_true]
    exact Nat.mod_eq_of_lt (Nat.lt_of_le_of_lt inside wordBound)

theorem sraFiller_key (sign isSra : Bool) (amount : ℕ) :
    sraFiller (sign.toNat + 2 * isSra.toNat + 4 * amount) =
      let mask := if sign && isSra then BitVec.allOnes 32 <<< (32 - amount) else 0#32
      (lowLimb mask, highLimb mask) := by
  have signBit : (sign.toNat + 2 * isSra.toNat + 4 * amount) &&& 1 = sign.toNat := by
    have := sign.toNat_lt
    rw [Nat.and_one_is_mod]
    omega
  have sraBit : ((sign.toNat + 2 * isSra.toNat + 4 * amount) >>> 1) &&& 1 = isSra.toNat := by
    have := sign.toNat_lt
    have := isSra.toNat_lt
    rw [Nat.and_one_is_mod, Nat.shiftRight_eq_div_pow]
    omega
  have shiftAmount : (sign.toNat + 2 * isSra.toNat + 4 * amount) >>> 2 = amount := by
    have := sign.toNat_lt
    have := isSra.toNat_lt
    rw [Nat.shiftRight_eq_div_pow]
    omega
  have known : ∀ flag : Bool, decide (0 < flag.toNat) = flag := by decide
  simp only [sraFiller, signBit, sraBit, shiftAmount, known]
  cases sign <;> cases isSra <;> simp
  intro zero
  rw [zero]
  decide

theorem limbs_of_disjoint {left right : BitVec 32} (disjoint : left &&& right = 0#32) :
    lowLimb (left ||| right) = lowLimb left + lowLimb right ∧
      highLimb (left ||| right) = highLimb left + highLimb right := by
  have low : ∀ word : BitVec 32, lowLimb word = (word.extractLsb' 0 16).toNat := by
    intro word
    simp [lowLimb]
  have high : ∀ word : BitVec 32, highLimb word = (word.extractLsb' 16 16).toNat := by
    intro word
    have := word.isLt
    simp only [highLimb, BitVec.extractLsb'_toNat, Nat.shiftRight_eq_div_pow]
    omega
  have part : ∀ start, ((left ||| right).extractLsb' start 16).toNat =
      (left.extractLsb' start 16).toNat + (right.extractLsb' start 16).toNat := by
    intro start
    have apart : left.extractLsb' start 16 &&& right.extractLsb' start 16 = 0#16 := by
      rw [← BitVec.extractLsb'_and, disjoint, BitVec.extractLsb'_zero]
    rw [BitVec.extractLsb'_or, ← BitVec.add_eq_or_of_and_eq_zero _ _ apart,
      BitVec.toNat_add_of_and_eq_zero apart]
  rw [low, low, low, high, high, high]
  exact ⟨part 0, part 16⟩

theorem sshiftRight_eq_or {x : BitVec 32} (negative : x.msb = true) {amount : ℕ}
    (small : amount < 32) :
    x.sshiftRight amount = (x >>> amount) ||| (BitVec.allOnes 32 <<< (32 - amount)) ∧
      (x >>> amount) &&& (BitVec.allOnes 32 <<< (32 - amount)) = 0#32 := by
  constructor
  · apply BitVec.eq_of_getLsbD_eq
    intro index inside
    rw [BitVec.getLsbD_sshiftRight, negative, BitVec.getLsbD_or, BitVec.getLsbD_ushiftRight,
      BitVec.getLsbD_shiftLeft, BitVec.getLsbD_allOnes]
    by_cases below : amount + index < 32
    · simp [below, inside, show index < 32 - amount by omega]
    · simp [below, inside, show ¬ index < 32 - amount by omega,
        show index - (32 - amount) < 32 by omega]
  · apply BitVec.eq_of_getLsbD_eq
    intro index inside
    simp [inside]
    intro bit
    by_contra h
    rw [BitVec.getLsbD_of_ge _ _ (by omega)] at bit
    simp at bit

theorem limbs_ushiftRight (x : BitVec 32) (amount : ℕ) :
    lowLimb (x >>> amount) = lowLimb x / 2 ^ amount + highLimb x * 2 ^ 16 / 2 ^ amount % 2 ^ 16 ∧
      highLimb (x >>> amount) = highLimb x / 2 ^ amount := by
  rw [right_shift_halves (lowLimb_lt x), ← toNat_eq_limbs]
  constructor
  · rw [lowLimb, BitVec.toNat_ushiftRight, Nat.shiftRight_eq_div_pow]
  · rw [highLimb, highLimb, BitVec.toNat_ushiftRight, Nat.shiftRight_eq_div_pow,
      Nat.div_div_eq_div_mul, Nat.div_div_eq_div_mul, mul_comm]

theorem limbs_shiftLeft (x : BitVec 32) (amount : ℕ) :
    lowLimb (x <<< amount) = lowLimb x * 2 ^ amount % 2 ^ 16 ∧
      highLimb (x <<< amount) =
        highLimb x * 2 ^ amount % 2 ^ 16 + lowLimb x * 2 ^ amount / 2 ^ 16 % 2 ^ 16 := by
  rw [left_shift_halves (lowLimb_lt x), ← toNat_eq_limbs]
  constructor
  · rw [lowLimb, BitVec.toNat_shiftLeft, Nat.shiftLeft_eq, Nat.mod_mod_of_dvd _ (by norm_num),
      lowLimb, Nat.mod_mul_mod]
  · rw [highLimb, BitVec.toNat_shiftLeft, Nat.shiftLeft_eq]

def logicalShift (isRight : Bool) (x : BitVec 32) (amount : ℕ) : BitVec 32 :=
  if isRight then x >>> amount else x <<< amount

def signFill (fills : Bool) (amount : ℕ) : BitVec 32 :=
  if fills then BitVec.allOnes 32 <<< (32 - amount) else 0#32

/-- The result of the family: the sum of a shifted word and what fills it. -/
def shiftDiffs (shifted fill : BitVec 32) : CommonDiffs where
  execFlag := .is (bit true)
  rdValue := [(((lowLimb shifted : F) + lowLimb fill, (highLimb shifted : F) + highLimb fill),
    .is (bit true))]
  newPcValue := .default

section

variable {romBits : ℕ} {image : List (BitVec 32)} {tables : TableDriver}
  (machine : MachineTables romBits image tables)

include machine in
theorem extractLower5Bits_row (y : BitVec 32) (amount unused : F) :
    tables .extractLower5Bits ⟨(lowLimb y : F), amount, unused⟩ = true ↔
      amount = ((y &&& 0x1f).toNat : F) ∧ unused = 0 := by
  have low : lowLimb y &&& 0b11111 = (y &&& 0x1f).toNat := by
    rw [BitVec.toNat_and, lowLimb, Nat.and_two_pow_sub_one_eq_mod _ 5,
      show (0x1f : BitVec 32).toNat = 2 ^ 5 - 1 from rfl, Nat.and_two_pow_sub_one_eq_mod]
    omega
  rw [machine.extractLower5Bits, extractLower5BitsTable,
    oneKeyTable_natCast (by omega) _ (lowLimb_lt y), low, Nat.cast_zero]

include machine in
theorem shiftImplementation_row {word amount : ℕ} (wordBound : word < 2 ^ 16)
    (amountBound : amount < 32) (isRight : Bool) (inPlace moved : F) :
    tables .shiftImplementation
        ⟨(word : F) + 2 ^ 16 * (amount : F) + 2 ^ 21 * bit isRight, inPlace, moved⟩ = true ↔
      inPlace = ((halvesOf isRight amount word).1 : F) ∧
        moved = ((halvesOf isRight amount word).2 : F) := by
  have flagBound := isRight.toNat_lt
  have key : (word : F) + 2 ^ 16 * (amount : F) + 2 ^ 21 * bit isRight =
      ((word + 2 ^ 16 * amount + 2 ^ 21 * isRight.toNat : ℕ) : F) := by
    rw [bit_eq_natCast]
    push_cast
    rfl
  rw [machine.shiftImplementation, shiftImplementationTable, key,
    oneKeyTable_natCast (by omega) _ (by omega), shiftedHalves_key wordBound amountBound]

include machine in
theorem sraSignFiller_row (supportSra sign isSra : Bool) {amount : ℕ} (amountBound : amount < 32)
    (low high : F) :
    (if supportSra then tables .sraSignFiller
        ⟨bit sign + 2 ^ 1 * bit isSra + 2 ^ 2 * (amount : F), low, high⟩ = true
      else low = 0 ∧ high = 0) ↔
      low = (lowLimb (signFill (sign && (supportSra && isSra)) amount) : F) ∧
        high = (highLimb (signFill (sign && (supportSra && isSra)) amount) : F) := by
  have signBound := sign.toNat_lt
  have sraBound := isSra.toNat_lt
  have key : bit sign + 2 ^ 1 * bit isSra + 2 ^ 2 * (amount : F) =
      ((sign.toNat + 2 * isSra.toNat + 4 * amount : ℕ) : F) := by
    rw [bit_eq_natCast, bit_eq_natCast]
    push_cast
    ring
  cases supportSra with
  | false => simp [signFill]
  | true =>
    rw [if_pos rfl, machine.sraSignFiller, sraSignFillerTable, key,
      oneKeyTable_natCast (by omega) _ (by omega), sraFiller_key]
    rfl

@[mk_iff] structure ShiftLookups (tables : TableDriver) (isRight : Bool) (x y : BitVec 32)
    (amount unused lowInPlace fromLow highInPlace fromHigh : F) : Prop where
  extracted : tables .extractLower5Bits ⟨(lowLimb y : F), amount, unused⟩ = true
  low : tables .shiftImplementation
    ⟨(lowLimb x : F) + 2 ^ 16 * amount + 2 ^ 21 * bit isRight, lowInPlace, fromLow⟩ = true
  high : tables .shiftImplementation
    ⟨(highLimb x : F) + 2 ^ 16 * amount + 2 ^ 21 * bit isRight, highInPlace, fromHigh⟩ = true

theorem shiftAmount_lt (y : BitVec 32) : (y &&& 0x1f).toNat < 32 := by
  rw [BitVec.toNat_and, show (0x1f : BitVec 32).toNat = 2 ^ 5 - 1 from rfl,
    Nat.and_two_pow_sub_one_eq_mod]
  omega

include machine in
theorem shiftLookups_outputs (isRight : Bool) (x y : BitVec 32)
    (amount unused lowInPlace fromLow highInPlace fromHigh : F) :
    ShiftLookups tables isRight x y amount unused lowInPlace fromLow highInPlace fromHigh ↔
      (amount = ((y &&& 0x1f).toNat : F) ∧ unused = 0) ∧
      (lowInPlace = ((halvesOf isRight (y &&& 0x1f).toNat (lowLimb x)).1 : F) ∧
        fromLow = ((halvesOf isRight (y &&& 0x1f).toNat (lowLimb x)).2 : F)) ∧
      highInPlace = ((halvesOf isRight (y &&& 0x1f).toNat (highLimb x)).1 : F) ∧
        fromHigh = ((halvesOf isRight (y &&& 0x1f).toNat (highLimb x)).2 : F) := by
  have lowRow := shiftImplementation_row machine (lowLimb_lt x) (shiftAmount_lt y) isRight
    lowInPlace fromLow
  have highRow := shiftImplementation_row machine (highLimb_lt x) (shiftAmount_lt y) isRight
    highInPlace fromHigh
  rw [← extractLower5Bits_row machine, ← lowRow, ← highRow]
  constructor
  · intro lookups
    have extracted := (extractLower5Bits_row machine y amount unused).mp lookups.extracted
    have low := lookups.low
    have high := lookups.high
    rw [extracted.1] at low high
    exact ⟨lookups.extracted, low, high⟩
  · intro rows
    have extracted := (extractLower5Bits_row machine y amount unused).mp rows.1
    rw [← extracted.1] at rows
    exact ⟨rows.1, rows.2.1, rows.2.2⟩

theorem selected_halves (isRight : Bool) (x : BitVec 32) (amount : ℕ) :
    bit isRight * (((halvesOf isRight amount (lowLimb x)).1 : F) +
          ((halvesOf isRight amount (highLimb x)).2 : F)) +
        (1 - bit isRight) * ((halvesOf isRight amount (lowLimb x)).1 : F) =
        (lowLimb (logicalShift isRight x amount) : F) ∧
      bit isRight * ((halvesOf isRight amount (highLimb x)).1 : F) +
        (1 - bit isRight) * (((halvesOf isRight amount (highLimb x)).1 : F) +
          ((halvesOf isRight amount (lowLimb x)).2 : F)) =
        (highLimb (logicalShift isRight x amount) : F) := by
  cases isRight with
  | true =>
    have limbs := limbs_ushiftRight x amount
    simp [halvesOf, logicalShift, limbs.1, limbs.2]
  | false =>
    have limbs := limbs_shiftLeft x amount
    simp [halvesOf, logicalShift, limbs.1, limbs.2]

variable {src1 src2 : RegisterDecompositionWithSign} {x y : BitVec 32}
  (holds1 : src1.u16Limbs = .ofWord x) (sign1 : src1.signBit = .is (bit x.msb))
  (holds2 : src2.u16Limbs = .ofWord y) {flags : BooleanSet}
  (executing : flags.majorFlag .shiftCommon = true)

def shiftCandidate (isRight : Bool) (lowInPlace fromLow highInPlace fromHigh fillLow fillHigh : F) :
    CommonDiffs where
  execFlag := .is (bit true)
  rdValue := [((bit isRight * (lowInPlace + fromHigh) + (1 - bit isRight) * lowInPlace + fillLow,
    bit isRight * highInPlace + (1 - bit isRight) * (highInPlace + fromLow) + fillHigh),
    .is (bit true))]
  newPcValue := .default

include machine holds1 sign1 holds2 executing in
theorem shiftOp_lookups (supportSra : Bool) (result : CommonDiffs) :
    (enforced tables (ShiftOp.apply supportSra false src1 src2 flags)).Yields result ↔
      ∃ amount unused lowInPlace fromLow highInPlace fromHigh fillLow fillHigh : F,
        ShiftLookups tables (flags.minorFlag .shiftCommon .shiftRight) x y amount unused lowInPlace
          fromLow highInPlace fromHigh ∧
        (if supportSra then tables .sraSignFiller ⟨bit x.msb +
            2 ^ 1 * bit (flags.minorFlag .shiftCommon .shiftRightAlgebraic) + 2 ^ 2 * amount,
            fillLow, fillHigh⟩ = true
          else fillLow = 0 ∧ fillHigh = 0) ∧
        shiftCandidate (flags.minorFlag .shiftCommon .shiftRight) lowInPlace fromLow highInPlace
          fromHigh fillLow fillHigh = result := by
  cases supportSra <;>
  · simp only [yields_enforced, ShiftOp.apply, BooleanSet.getMajorFlag, BooleanSet.getMinorFlag,
      holds1, sign1, holds2, bind_assoc, pure_bind, Bool.false_eq_true, if_false, if_true,
      yields_resetIndexers, yields_appendLookupPair_new, withLookup, yields_lift_bind,
      yields_addVariableFromConstraint, exists_eq_left', yields_finish, length_nil,
      length_cons, nil_append, cons_append, Nat.reduceAdd, Nat.zero_add]
    simp [enforceAll, enforceSlots, slotCount, slot, range_succ, executing, and_assoc,
      yields_lookupSlot_executed machine.zeroEntry, shiftLookups_iff, shiftCandidate]

include machine holds1 sign1 holds2 executing in
theorem yields_shiftOp (supportSra : Bool) (result : CommonDiffs) :
    (enforced tables (ShiftOp.apply supportSra false src1 src2 flags)).Yields result ↔
      shiftDiffs (logicalShift (flags.minorFlag .shiftCommon .shiftRight) x (y &&& 0x1f).toNat)
        (signFill (x.msb && (supportSra && flags.minorFlag .shiftCommon .shiftRightAlgebraic))
          (y &&& 0x1f).toNat) = result := by
  have halves := selected_halves (flags.minorFlag .shiftCommon .shiftRight) x (y &&& 0x1f).toNat
  have fill := sraSignFiller_row machine supportSra x.msb
    (flags.minorFlag .shiftCommon .shiftRightAlgebraic) (shiftAmount_lt y)
  rw [shiftOp_lookups machine holds1 sign1 holds2 executing, shiftDiffs, ← halves.1, ← halves.2]
  simp only [shiftLookups_outputs machine]
  constructor
  · rintro ⟨_, _, _, _, _, _, _, _, ⟨⟨rfl, rfl⟩, ⟨rfl, rfl⟩, rfl, rfl⟩, filled, rfl⟩
    obtain ⟨rfl, rfl⟩ := (fill _ _).mp filled
    rfl
  · rintro rfl
    exact ⟨_, _, _, _, _, _, _, _, ⟨⟨rfl, rfl⟩, ⟨rfl, rfl⟩, rfl, rfl⟩,
      (fill _ _).mpr ⟨rfl, rfl⟩, rfl⟩

theorem limbs_sshiftRight (x : BitVec 32) {amount : ℕ} (small : amount < 32) :
    lowLimb (x.sshiftRight amount) = lowLimb (x >>> amount) + lowLimb (signFill x.msb amount) ∧
      highLimb (x.sshiftRight amount) =
        highLimb (x >>> amount) + highLimb (signFill x.msb amount) := by
  cases negative : x.msb with
  | false =>
    rw [BitVec.sshiftRight_eq_of_msb_false negative]
    simp [signFill]
  | true =>
    have filled := sshiftRight_eq_or negative small
    rw [filled.1]
    exact limbs_of_disjoint filled.2

variable {supportSra : Bool} {opcode : ℕ} {funct3 : BitVec 3} {funct7 : BitVec 7}
  {format : InstructionType} {major : DecoderMajorInstructionFamilyKey}
  {minors : List DecoderInstructionVariantsKey} {operation : AluOperation}

theorem shift_fields (encodes : AluOperation.ofShiftFields funct3 funct7 = some operation) :
    (operation = .sll ∧ funct3 = 0b001 ∧ funct7 = 0b0000000) ∨
      (operation = .srl ∧ funct3 = 0b101 ∧ funct7 = 0b0000000) ∨
      (operation = .sra ∧ funct3 = 0b101 ∧ funct7 = 0b0100000) := by
  unfold AluOperation.ofShiftFields at encodes
  split_ifs at encodes with left logical arithmetic
  · exact Or.inl ⟨(Option.some.inj encodes).symm, left⟩
  · exact Or.inr (Or.inl ⟨(Option.some.inj encodes).symm, logical⟩)
  · exact Or.inr (Or.inr ⟨(Option.some.inj encodes).symm, arithmetic⟩)

theorem shift_declared
    (supported : ShiftOp.defineDecoderSubspace supportSra false opcode funct3.toNat funct7.toNat =
      some (format, major, minors))
    (encodes : AluOperation.ofShiftFields funct3 funct7 = some operation) :
    major = .shiftCommon ∧
      (operation = .sll ∧ minors = [] ∨ operation = .srl ∧ minors = [.shiftRight] ∨
        operation = .sra ∧ minors = [.shiftRight, .shiftRightAlgebraic] ∧ supportSra = true) := by
  have declared : ∃ isImmediate,
      ShiftOp.variants supportSra false isImmediate funct3.toNat funct7.toNat = some minors ∧
        major = .shiftCommon := by
    unfold ShiftOp.defineDecoderSubspace at supported
    split_ifs at supported
    all_goals
      obtain ⟨variants, found, same⟩ := Option.map_eq_some_iff.mp supported
      cases same
      exact ⟨_, found, rfl⟩
  obtain ⟨isImmediate, found, family⟩ := declared
  refine ⟨family, ?_⟩
  rcases shift_fields encodes with ⟨rfl, rfl, rfl⟩ | ⟨rfl, rfl, rfl⟩ | ⟨rfl, rfl, rfl⟩
  · left
    simpa [ShiftOp.variants, eq_comm] using found
  · right
    left
    simpa [ShiftOp.variants, eq_comm] using found
  · right
    right
    have both : supportSra = true ∧ [.shiftRight, .shiftRightAlgebraic] = minors := by
      simpa [ShiftOp.variants] using found
    exact ⟨rfl, both.2.symm, both.1⟩

theorem shift_result (decoded : flags.Selects .shiftCommon minors)
    (declared : operation = .sll ∧ minors = [] ∨ operation = .srl ∧ minors = [.shiftRight] ∨
      operation = .sra ∧ minors = [.shiftRight, .shiftRightAlgebraic] ∧ supportSra = true) :
    let shifted := logicalShift (flags.minorFlag .shiftCommon .shiftRight) x (y &&& 0x1f).toNat
    let fill := signFill (x.msb && (supportSra &&
      flags.minorFlag .shiftCommon .shiftRightAlgebraic)) (y &&& 0x1f).toNat
    lowLimb shifted + lowLimb fill = lowLimb (operation.result x y) ∧
      highLimb shifted + highLimb fill = highLimb (operation.result x y) := by
  have arithmetic := limbs_sshiftRight x (shiftAmount_lt y)
  rcases declared with ⟨rfl, rfl⟩ | ⟨rfl, rfl⟩ | ⟨rfl, rfl, rfl⟩
  · simp [decoded.minor_iff, logicalShift, signFill, AluOperation.result]
  · simp [decoded.minor_iff, logicalShift, signFill, AluOperation.result]
  · simp only [decoded.minor_iff, logicalShift, AluOperation.result, arithmetic]
    simp

include machine in
theorem yields_shiftCircuit
    (supported : ShiftOp.defineDecoderSubspace supportSra false opcode funct3.toNat funct7.toNat =
      some (format, major, minors))
    (encodes : AluOperation.ofShiftFields funct3 funct7 = some operation)
    (decoded : flags.Selects major minors) (rd : Register) :
    (shiftCircuit tables supportSra false flags (.ofWord x) (.ofWord y)).Yields rd ↔
      .ofWord (operation.result x y) = rd := by
  obtain ⟨rfl, declared⟩ := shift_declared supported encodes
  have executing : flags.majorFlag .shiftCommon = true := decoded.major_iff _
  obtain ⟨low, high⟩ := @shift_result x y flags supportSra minors operation decoded declared
  apply yields_parsed machine.u16GetSignAndHighByte
  intro src1 holds1 sign1
  apply yields_parsed machine.u16GetSignAndHighByte
  intro src2 holds2 _
  simp only [yields_bind, yields_shiftOp machine holds1 sign1 holds2 executing, exists_eq_left']
  rw [yields_selectFinalRdValue_alone _ rfl, ← Nat.cast_add, ← Nat.cast_add, low, high]
  exact Iff.rfl

include machine in
/-- Every satisfying assignment of a row that executes a supported shift writes the result of the
instruction set, whatever is in the upper bits of the amount, and such an assignment exists. -/
theorem shiftRow_sound_and_complete
    (supported : ShiftOp.defineDecoderSubspace supportSra false opcode funct3.toNat funct7.toNat =
      some (format, major, minors))
    (encodes : AluOperation.ofShiftFields funct3 funct7 = some operation)
    (decoded : flags.Selects major minors) (x y : BitVec 32) :
    (∀ (assignment : List F) (rd : Register),
      (shiftCircuit tables supportSra false flags (.ofWord x) (.ofWord y)).run assignment =
        some (rd, []) → rd = .ofWord (operation.result x y)) ∧
    ∃ assignment : List F,
      (shiftCircuit tables supportSra false flags (.ofWord x) (.ofWord y)).run assignment =
        some (.ofWord (operation.result x y), []) := by
  exact run_determined fun rd => @yields_shiftCircuit _ _ _ machine x y flags _ _ _ _ _ _ _ _
    supported encodes decoded rd

end

def sraFlags : BooleanSet where
  majorFlag key := decide (key = .shiftCommon)
  minorFlag _ minor := decide (minor ∈ [DecoderInstructionVariantsKey.shiftRight,
    .shiftRightAlgebraic])

theorem shiftRow_negative :
    ∃ assignment : List F,
      (shiftCircuit (machineTables 5 []) true false sraFlags (.ofWord (BitVec.intMin 32))
        (.ofWord 0x41f)).run assignment = some (.ofWord (BitVec.allOnes 32), []) := by
  have supported : ShiftOp.defineDecoderSubspace true false operationOpImm (0b101 : BitVec 3).toNat
      (0b0100000 : BitVec 7).toNat =
      some (.iType, .shiftCommon, [.shiftRight, .shiftRightAlgebraic]) := rfl
  have decoded : sraFlags.Selects .shiftCommon [.shiftRight, .shiftRightAlgebraic] :=
    ⟨fun _ => rfl, fun _ => rfl⟩
  exact (shiftRow_sound_and_complete (machineTables_spec 5 []) supported rfl decoded
    (BitVec.intMin 32) 0x41f).2

end Airbender.Machine

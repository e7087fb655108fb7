import Airbender.Machine.DecoderTable

/-!
# The decoder

Every satisfying assignment of the decoder's circuit splits the instruction into its fields, looks
the opcode up, and exposes the flags and the immediate that `decodedInstruction` computes.
-/

namespace Airbender.Machine

open CircuitLib Circuit Mersenne31Field Cs

def wordField (word : BitVec 32) (fromBit numBits : ℕ) : ℕ := word.toNat / 2 ^ fromBit % 2 ^ numBits

variable (word : BitVec 32) (fromBit : ℕ)

theorem wordField_lt (numBits : ℕ) :
    wordField word fromBit numBits < 2 ^ numBits := Nat.mod_lt _ (by positivity)

theorem exists_bit_wordField : ∃ flag : Bool, bit flag = (wordField word fromBit 1 : F) := by
  refine ⟨word.toNat.testBit fromBit, ?_⟩
  rw [bit_eq_natCast, Nat.toNat_testBit]
  rfl

def instructionChunks (word : BitVec 32) : InstructionChunks ℕ where
  opcode := wordField word 0 7
  imm11 := wordField word 7 1
  imm4To1 := wordField word 8 4
  funct3 := wordField word 12 3
  rs1Low := wordField word 15 1
  rs1High := wordField word 16 4
  rs2Low := wordField word 20 1
  rs2High := wordField word 21 4
  imm10To5 := wordField word 25 6
  signBit := wordField word 31 1

def InstructionChunks.map {α β : Type} (convert : α → β) (chunks : InstructionChunks α) :
    InstructionChunks β where
  opcode := convert chunks.opcode
  imm11 := convert chunks.imm11
  imm4To1 := convert chunks.imm4To1
  funct3 := convert chunks.funct3
  rs1Low := convert chunks.rs1Low
  rs1High := convert chunks.rs1High
  rs2Low := convert chunks.rs2Low
  rs2High := convert chunks.rs2High
  imm10To5 := convert chunks.imm10To5
  signBit := convert chunks.signBit

theorem gap_iff {limb rest width : ℕ} (limbBound : limb < 2 ^ 16) (restBound : rest < 2 ^ 16)
    (small : width < 16) (gap : F) (gapDef : gap = ((limb : F) - (rest : F)) * (2 ^ width)⁻¹) :
    gap * (gap - 1) = 0 ↔ ∃ flag : Bool, limb = rest + 2 ^ width * flag.toNat ∧ gap = bit flag := by
  have powers : 2 ^ width ≤ 2 ^ 15 := Nat.pow_le_pow_right (by omega) (by omega)
  have invertible : ((2 : F) ^ width) ≠ 0 := pow_ne_zero _ (by decide)
  have recomposed : gap * 2 ^ width = (limb : F) - (rest : F) := by
    rw [gapDef, mul_assoc, inv_mul_cancel₀ invertible, mul_one]
  constructor
  · intro boolean
    obtain ⟨flag, rfl⟩ := (boolean_iff gap).mp (by linear_combination -boolean)
    refine ⟨flag, ?_, rfl⟩
    have flagBound := Bool.toNat_lt flag
    have same : ((limb : ℕ) : F) = ((rest + 2 ^ width * flag.toNat : ℕ) : F) := by
      push_cast
      rw [← bit_eq_natCast]
      linear_combination -recomposed
    have productBound : 2 ^ width * flag.toNat ≤ 2 ^ 15 * 1 := Nat.mul_le_mul powers (by omega)
    exact nat_eq same (by omega) (by omega)
  · rintro ⟨flag, _, rfl⟩
    cases flag <;> simp

/-- Widths of the three range-checked chunks of a limb. The gap stands after the first of them, a
Boolean variable behind the last. -/
structure LimbLayout where
  first : ℕ
  second : ℕ
  third : ℕ

def lowLayout : LimbLayout := ⟨7, 4, 3⟩

def highLayout : LimbLayout := ⟨4, 4, 6⟩

theorem limbChunks_iff {layout : LimbLayout} (known : layout = lowLayout ∨ layout = highLayout)
    {limb : ℕ} (limbBound : limb < 2 ^ 16) (first second third gap : F) (last : Bool)
    (gapDef : gap = ((limb : F) - first - 2 ^ (layout.first + 1) * second -
      2 ^ (layout.first + 1 + layout.second) * third - bit last * 2 ^ 15) * (2 ^ layout.first)⁻¹) :
    first.val < 2 ^ layout.first ∧ second.val < 2 ^ layout.second ∧
        third.val < 2 ^ layout.third ∧ gap * (gap - 1) = 0 ↔
      first = ((limb % 2 ^ layout.first : ℕ) : F) ∧
        second = ((limb / 2 ^ (layout.first + 1) % 2 ^ layout.second : ℕ) : F) ∧
        third = ((limb / 2 ^ (layout.first + 1 + layout.second) % 2 ^ layout.third : ℕ) : F) ∧
        bit last = ((limb / 2 ^ 15 : ℕ) : F) ∧
        gap = ((limb / 2 ^ layout.first % 2 : ℕ) : F) := by
  have lastBound := Bool.toNat_lt last
  constructor
  · rintro ⟨firstBound, secondBound, thirdBound, boolean⟩
    obtain ⟨first, firstSmall, rfl⟩ := exists_nat firstBound
    obtain ⟨second, secondSmall, rfl⟩ := exists_nat secondBound
    obtain ⟨third, thirdSmall, rfl⟩ := exists_nat thirdBound
    have restDef : gap = ((limb : F) - ((first + 2 ^ (layout.first + 1) * second +
        2 ^ (layout.first + 1 + layout.second) * third + 2 ^ 15 * last.toNat : ℕ) : F)) *
        (2 ^ layout.first)⁻¹ := by
      rw [gapDef, bit_eq_natCast]
      push_cast
      ring
    have restBound : first + 2 ^ (layout.first + 1) * second +
        2 ^ (layout.first + 1 + layout.second) * third + 2 ^ 15 * last.toNat < 2 ^ 16 := by
      rcases known with rfl | rfl <;> simp only [lowLayout, highLayout] at * <;> omega
    have narrow : layout.first < 16 := by rcases known with rfl | rfl <;> decide
    obtain ⟨flag, sum, rfl⟩ := (gap_iff limbBound restBound narrow gap restDef).mp boolean
    have flagBound := Bool.toNat_lt flag
    rw [bit_eq_natCast, bit_eq_natCast]
    refine ⟨?_, ?_, ?_, ?_, ?_⟩ <;> congr 1 <;> rcases known with rfl | rfl <;>
      simp only [lowLayout, highLayout] at * <;> omega
  · rintro ⟨rfl, rfl, rfl, _, gapSame⟩
    have chunkVal : ∀ value width : ℕ, width ≤ 7 →
        ((value % 2 ^ width : ℕ) : F).val < 2 ^ width := by
      intro value width small
      have powers : 2 ^ width ≤ 2 ^ 7 := Nat.pow_le_pow_right (by omega) small
      have bounded : value % 2 ^ width < 2 ^ width := Nat.mod_lt _ (by positivity)
      rwa [val_natCast_of_lt (by omega)]
    refine ⟨chunkVal _ _ ?_, chunkVal _ _ ?_, chunkVal _ _ ?_, ?_⟩
    · rcases known with rfl | rfl <;> decide
    · rcases known with rfl | rfl <;> decide
    · rcases known with rfl | rfl <;> decide
    · rw [gapSame]
      rcases Nat.mod_two_eq_zero_or_one (limb / 2 ^ layout.first) with zero | one
      · rw [zero, Nat.cast_zero, zero_mul]
      · rw [one, Nat.cast_one, sub_self, mul_zero]

theorem gap_of_sum {limb first gap second third last width next after : ℕ}
    (sum : limb = first + 2 ^ width * gap + 2 ^ next * second + 2 ^ after * third + 2 ^ 15 * last) :
    ((limb : F) - first - 2 ^ next * second - 2 ^ after * third - last * 2 ^ 15) *
      (2 ^ width)⁻¹ = gap := by
  have invertible : (2 ^ width : F) * (2 ^ width)⁻¹ = 1 :=
    mul_inv_cancel₀ (pow_ne_zero _ (by decide))
  rw [sum]
  push_cast
  linear_combination (gap : F) * invertible

theorem lowLimb_eq_fields :
    lowLimb word = wordField word 0 7 + 2 ^ 7 * wordField word 7 1 + 2 ^ 8 * wordField word 8 4 +
      2 ^ 12 * wordField word 12 3 + 2 ^ 15 * wordField word 15 1 := by
  unfold lowLimb wordField
  omega

theorem highLimb_eq_fields :
    highLimb word = wordField word 16 4 + 2 ^ 4 * wordField word 20 1 +
      2 ^ 5 * wordField word 21 4 + 2 ^ 9 * wordField word 25 6 + 2 ^ 15 * wordField word 31 1 := by
  have bounded := word.isLt
  unfold highLimb wordField
  omega

theorem yields_splitInstruction {allOpcodes : List DecodableMachineOp} {tables : TableDriver}
    (decoderTables : DecoderTables allOpcodes tables) (word : BitVec 32)
    (result : InstructionChunks F) :
    (splitInstruction tables (.ofWord word)).Yields result ↔
      (instructionChunks word).map Nat.cast = result := by
  have lowFields : lowLimb word % 2 ^ 7 = wordField word 0 7 ∧
      lowLimb word / 2 ^ (7 + 1) % 2 ^ 4 = wordField word 8 4 ∧
      lowLimb word / 2 ^ (7 + 1 + 4) % 2 ^ 3 = wordField word 12 3 ∧
      lowLimb word / 2 ^ 15 = wordField word 15 1 ∧
      lowLimb word / 2 ^ 7 % 2 = wordField word 7 1 := by
    unfold lowLimb wordField
    omega
  have highFields : highLimb word % 2 ^ 4 = wordField word 16 4 ∧
      highLimb word / 2 ^ (4 + 1) % 2 ^ 4 = wordField word 21 4 ∧
      highLimb word / 2 ^ (4 + 1 + 4) % 2 ^ 6 = wordField word 25 6 ∧
      highLimb word / 2 ^ 15 = wordField word 31 1 ∧
      highLimb word / 2 ^ 4 % 2 = wordField word 20 1 := by
    have bounded := word.isLt
    unfold highLimb wordField
    omega
  have lowIff := limbChunks_iff (.inl rfl) (lowLimb_lt word)
  have highIff := limbChunks_iff (.inr rfl) (highLimb_lt word)
  simp only [lowLayout, highLayout, lowFields, highFields] at lowIff highIff
  simp only [splitInstruction, yields_bind, yields_addVariable, yields_addBooleanVariable,
    true_and, yields_enforceLookupTupleForFixedTable, yields_addConstraint,
    decoderTables.check4x4x4, decoderTables.check7x3x6, quickDecodeDecompositionCheck4x4x4Table,
    quickDecodeDecompositionCheck7x3x6Table, Register.ofWord_low, Register.ofWord_high,
    Num.value_var, yields_pure, Bool.and_eq_true, decide_eq_true_eq, exists_const]
  constructor
  · rintro ⟨opcode, imm4To1, funct3, _, ⟨rs1Low, rfl⟩, rs1High, rs2High, imm10To5, _,
      ⟨signBit, rfl⟩, ⟨⟨immBound, rs1Bound⟩, rs2Bound⟩, ⟨⟨opcodeBound, funct3Bound⟩, imm10Bound⟩,
      lowGap, highGap, rfl⟩
    obtain ⟨rfl, rfl, rfl, rs1LowSame, imm11Same⟩ :=
      (lowIff opcode imm4To1 funct3 _ rs1Low rfl).mp ⟨opcodeBound, immBound, funct3Bound, lowGap⟩
    obtain ⟨rfl, rfl, rfl, signSame, rs2LowSame⟩ :=
      (highIff rs1High rs2High imm10To5 _ signBit (by rw [Boolean.value_is]; ring)).mp
        ⟨rs1Bound, rs2Bound, imm10Bound, highGap⟩
    exact InstructionChunks.ext rfl imm11Same.symm rfl rfl rs1LowSame.symm rfl rs2LowSame.symm rfl
      rfl signSame.symm
  · rintro rfl
    obtain ⟨rs1Low, rs1LowSame⟩ := exists_bit_wordField word 15
    obtain ⟨signBit, signSame⟩ := exists_bit_wordField word 31
    have imm11Same := gap_of_sum (lowLimb_eq_fields word)
    have rs2LowSame := gap_of_sum (highLimb_eq_fields word)
    rw [← rs1LowSame] at imm11Same
    rw [← signSame, mul_comm (2 ^ 5), mul_comm (2 ^ 9)] at rs2LowSame
    obtain ⟨opcodeBound, immBound, funct3Bound, lowGap⟩ :=
      (lowIff _ _ _ _ rs1Low imm11Same.symm).mpr ⟨rfl, rfl, rfl, rs1LowSame, rfl⟩
    obtain ⟨rs1Bound, rs2Bound, imm10Bound, highGap⟩ :=
      (highIff _ _ _ _ signBit (by rw [← rs2LowSame]; ring)).mpr ⟨rfl, rfl, rfl, signSame, rfl⟩
    refine ⟨_, _, _, _, ⟨rs1Low, rfl⟩, _, _, _, _, ⟨signBit, rfl⟩, ⟨⟨immBound, rs1Bound⟩, rs2Bound⟩,
      ⟨⟨opcodeBound, funct3Bound⟩, imm10Bound⟩, ?_, ?_, ?_⟩
    · rwa [Boolean.value_is, imm11Same]
    · rwa [Boolean.value_is, rs2LowSame]
    · exact InstructionChunks.ext rfl imm11Same rfl rfl rs1LowSame rfl rs2LowSame rfl rfl signSame

def instructionSubspace (allOpcodes : List DecodableMachineOp) (word : BitVec 32) :
    Option DecoderSubspace :=
  supportedSubspace allOpcodes (wordField word 0 7) (wordField word 12 3) (wordField word 25 7)

def instructionBitmask (allOpcodes : List DecodableMachineOp) (word : BitVec 32) : ℕ :=
  decoderBitmask allOpcodes (wordField word 0 7) (wordField word 12 3) (wordField word 25 7)

def decodedInstruction (allOpcodes : List DecodableMachineOp) (word : BitVec 32) :
    DecodedInstruction :=
  let chunks : InstructionChunks F := (instructionChunks word).map Nat.cast
  let (isInvalid, formatBits, otherBits) :=
    exposedBits allOpcodes (instructionBitmask allOpcodes word)
  { isInvalid
    output :=
      { rs1 := .var (wordField word 15 5 : F)
        rs2 := (wordField word 20 5 : F)
        rd := (wordField word 7 5 : F)
        imm :=
          ⟨.var (immLow formatBits chunks), .var (immHigh formatBits chunks (highLimb word : F))⟩
        funct3 := .var (wordField word 12 3 : F)
        funct7 := (wordField word 25 7 : F)
        funct12 := (wordField word 20 12 : F) }
    formatBits
    otherBits }

theorem wordField_concat (first second : ℕ) :
    (wordField word (fromBit + first) second : F) * 2 ^ first + (wordField word fromBit first : F) =
      (wordField word fromBit (first + second) : F) := by
  have sum : wordField word fromBit (first + second) =
      wordField word fromBit first + 2 ^ first * wordField word (fromBit + first) second := by
    unfold wordField
    rw [pow_add, Nat.mod_mul, Nat.div_div_eq_div_mul, ← pow_add]
  rw [sum]
  push_cast
  ring

theorem yields_decode {allOpcodes : List DecodableMachineOp} {tables : TableDriver}
    (decoderTables : DecoderTables allOpcodes tables) (word : BitVec 32)
    (result : DecodedInstruction) :
    (decode tables (.ofWord word) (decoderTableSplitting allOpcodes)).Yields result ↔
      decodedInstruction allOpcodes word = result := by
  have rs1 : (wordField word 16 4 : F) * 2 ^ 1 + (wordField word 15 1 : F) =
      (wordField word 15 5 : F) := wordField_concat word 15 1 4
  have rs2 : (wordField word 21 4 : F) * 2 ^ 1 + (wordField word 20 1 : F) =
      (wordField word 20 5 : F) := wordField_concat word 20 1 4
  have rd : (wordField word 8 4 : F) * 2 ^ 1 + (wordField word 7 1 : F) =
      (wordField word 7 5 : F) := wordField_concat word 7 1 4
  have funct7 : (wordField word 31 1 : F) * 2 ^ 6 + (wordField word 25 6 : F) =
      (wordField word 25 7 : F) := wordField_concat word 25 6 1
  have funct12 : (wordField word 20 5 : F) + (wordField word 25 7 : F) * 2 ^ 5 =
      (wordField word 20 12 : F) := by
    rw [add_comm]
    exact wordField_concat word 20 5 7
  simp only [decode, yields_bind, yields_splitInstruction decoderTables,
    yields_addVariableFromConstraint, yields_pure, Register.ofWord_high, Num.value_var,
    exists_eq_left', InstructionChunks.map, instructionChunks, rs1, rs2, rd, funct7, funct12,
    yields_opcodeLookup decoderTables (wordField_lt word 0 7) (wordField_lt word 12 3)
      (wordField_lt word 25 7)]
  exact Iff.rfl

/-- The flags of a row; a key that the machine does not have is not set. -/
def BasicFlagsSource.booleanSet (source : BasicFlagsSource) : BooleanSet where
  majorFlag major := (source.getMajorFlag? major).any fun flag => flag.value = 1
  minorFlag major minor := (source.getMinorFlag? major minor).any fun flag => flag.value = 1

def DecodedInstruction.flags (allOpcodes : List DecodableMachineOp)
    (decoded : DecodedInstruction) : BooleanSet :=
  BasicFlagsSource.booleanSet ⟨allDecoderKeys allOpcodes, decoded.otherBits⟩

/-- Under every satisfying assignment the decoder finds a word valid, of one format, and of one
family with the given variants. -/
structure Assigns (allOpcodes : List DecodableMachineOp) (tables : TableDriver)
    (word : BitVec 32) (format : InstructionType) (major : DecoderMajorInstructionFamilyKey)
    (minors : List DecoderInstructionVariantsKey) : Prop where
  satisfiable : ∃ decoded,
    (decode tables (.ofWord word) (decoderTableSplitting allOpcodes)).Yields decoded
  valid : ∀ decoded,
    (decode tables (.ofWord word) (decoderTableSplitting allOpcodes)).Yields decoded →
      decoded.isInvalid.value = 0
  format_iff : ∀ decoded,
    (decode tables (.ofWord word) (decoderTableSplitting allOpcodes)).Yields decoded →
      ∀ other, formatBit decoded.formatBits other = bit (decide (other = format))
  family : ∀ decoded,
    (decode tables (.ofWord word) (decoderTableSplitting allOpcodes)).Yields decoded →
      (decoded.flags allOpcodes).Selects major minors

section

variable {allOpcodes : List DecodableMachineOp}

theorem formatBit_exposedBits (mask : ℕ) (format : InstructionType) :
    formatBit (exposedBits allOpcodes mask).2.1 format = bit (mask.testBit (1 + format.index)) := by
  have bit : ((bitsBelow numInstructionTypes (mask >>> 1)).map flagVariable)[format.index]? =
      some (flagVariable (mask.testBit (1 + format.index))) := by
    rw [List.getElem?_map, getElem?_bitsBelow format.index_lt, Nat.testBit_shiftRight]
    rfl
  simp [formatBit, exposedBits, List.getD_eq_getElem?_getD, bit, flagVariable]

theorem exposedBits_other (mask : ℕ) {index : ℕ} (inside : index + 7 < totalUsedBits allOpcodes) :
    (exposedBits allOpcodes mask).2.2[index]? = some (flagVariable (mask.testBit (7 + index))) := by
  simp only [exposedBits]
  rw [List.getElem?_map, getElem?_bitsBelow (by omega), Nat.testBit_shiftRight]
  rfl

theorem any_flagVariable (flag : Bool) :
    (some (flagVariable flag)).any (fun flag => decide (flag.value = 1)) = flag := by
  cases flag <;> decide

variable {word : BitVec 32} {major : DecoderMajorInstructionFamilyKey}
  {minors : List DecoderInstructionVariantsKey}

theorem selects_of_supported {format : InstructionType}
    (supported : instructionSubspace allOpcodes word = some (format, major, minors)) :
    ((decodedInstruction allOpcodes word).flags allOpcodes).Selects major minors := by
  have declared := declared_of_supported allOpcodes (wordField_lt word 0 7)
    (wordField_lt word 12 3) (wordField_lt word 25 7) supported
  have testBit := testBit_decoderBitmask allOpcodes supported
  have majorOffset : majorKeyOffset = 7 := rfl
  constructor
  · intro key
    by_cases known : key ∈ (allDecoderKeys allOpcodes).majors
    · have bound := getMajorIndex_lt allOpcodes known
      have flag := @exposedBits_other allOpcodes (instructionBitmask allOpcodes word)
        ((allDecoderKeys allOpcodes).getMajorIndex key)
        (by unfold totalUsedBits minorKeyOffset; omega)
      simp only [DecodedInstruction.flags, BasicFlagsSource.booleanSet,
        BasicFlagsSource.getMajorFlag?, if_pos known, decodedInstruction, flag, any_flagVariable]
      rw [Bool.eq_iff_iff, decide_eq_true_eq,
        ← @maskBit_major allOpcodes format major minors key known, ← testBit]
      rfl
    · have different : key ≠ major := by
        rintro rfl
        exact known declared.major_mem
      simp [DecodedInstruction.flags, BasicFlagsSource.booleanSet,
        BasicFlagsSource.getMajorFlag?, known, different]
  · intro minor
    by_cases known : minor ∈ (allDecoderKeys allOpcodes).minors major
    · have bound := getMinorIndex_lt allOpcodes declared.major_mem known
      have flag := @exposedBits_other allOpcodes (instructionBitmask allOpcodes word)
        ((allDecoderKeys allOpcodes).majors.length +
          (allDecoderKeys allOpcodes).getMinorIndex major minor)
        (by unfold totalUsedBits minorKeyOffset; omega)
      simp only [DecodedInstruction.flags, BasicFlagsSource.booleanSet,
        BasicFlagsSource.getMinorFlag?, if_pos (And.intro declared.major_mem known),
        decodedInstruction, flag, any_flagVariable]
      rw [Bool.eq_iff_iff, decide_eq_true_eq,
        ← @maskBit_minor allOpcodes format major minors declared minor known, ← testBit,
        minorKeyOffset, majorOffset, Nat.add_assoc]
      rfl
    · have absent : minor ∉ minors := fun member => known (declared.minors_mem minor member)
      simp [DecodedInstruction.flags, BasicFlagsSource.booleanSet,
        BasicFlagsSource.getMinorFlag?, known, absent]

theorem assigns_of_supported {tables : TableDriver}
    (decoderTables : DecoderTables allOpcodes tables) {format : InstructionType}
    (supported : instructionSubspace allOpcodes word = some (format, major, minors)) :
    Assigns allOpcodes tables word format major minors := by
  have testBit := testBit_decoderBitmask allOpcodes supported
  refine ⟨⟨_, (yields_decode decoderTables word _).mpr rfl⟩, ?_, ?_, ?_⟩ <;>
    intro decoded yields <;>
    obtain rfl := (yields_decode decoderTables word decoded).mp yields
  · have unset : (instructionBitmask allOpcodes word).testBit 0 = false := by
      rw [Bool.eq_false_iff, ne_eq, instructionBitmask, testBit]
      exact maskBit_zero
    simp [decodedInstruction, exposedBits, unset, flagVariable]
  · intro other
    change formatBit (exposedBits allOpcodes (instructionBitmask allOpcodes word)).2.1 other = _
    rw [formatBit_exposedBits, bit_inj, Bool.eq_iff_iff, decide_eq_true_eq, instructionBitmask,
      testBit, maskBit_format]
  · exact selects_of_supported supported

theorem instructionBitmask_of_unsupported
    (unsupported : instructionSubspace allOpcodes word = none) :
    instructionBitmask allOpcodes word = 17 := by
  have none : supportedSubspace allOpcodes (wordField word 0 7) (wordField word 12 3)
      (wordField word 25 7) = none := unsupported
  simp [instructionBitmask, decoderBitmask, none, basicInvalidBitmask, InstructionType.index]

theorem not_assigns_of_unsupported {tables : TableDriver}
    (decoderTables : DecoderTables allOpcodes tables)
    (unsupported : instructionSubspace allOpcodes word = none) (format : InstructionType)
    (major : DecoderMajorInstructionFamilyKey) (minors : List DecoderInstructionVariantsKey) :
    ¬ Assigns allOpcodes tables word format major minors := by
  intro assigns
  have valid := assigns.valid _ ((yields_decode decoderTables word _).mpr rfl)
  have mask := instructionBitmask_of_unsupported unsupported
  simp [decodedInstruction, exposedBits, mask, flagVariable] at valid

end

end Airbender.Machine

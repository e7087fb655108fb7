import Airbender.Machine.DecoderProof

/-!
# Fields and immediates of a decoded word

The decoder assembles the immediate of the selected format from chunks of the word and copies of its
sign bit. Here the limbs are compared with the immediates of the instruction set.
-/

namespace Airbender.Machine

open CircuitLib Circuit Mersenne31Field Cs BitVec

/-- The immediate of a word under a format; register-to-register instructions have none. -/
def immediate (format : InstructionType) (word : BitVec 32) : Option (BitVec 32) :=
  match format with
  | .rType => none
  | .iType => some ((word.extractLsb' 20 12).signExtend 32)
  | .sType => some ((word.extractLsb' 25 7 ++ word.extractLsb' 7 5).signExtend 32)
  | .bType => some ((word.extractLsb' 31 1 ++ word.extractLsb' 7 1 ++ word.extractLsb' 25 6 ++
      word.extractLsb' 8 4 ++ 0#1).signExtend 32)
  | .uType => some (word.extractLsb' 12 20 ++ 0#12)
  | .jType => some ((word.extractLsb' 31 1 ++ word.extractLsb' 12 8 ++ word.extractLsb' 20 1 ++
      word.extractLsb' 21 10 ++ 0#1).signExtend 32)

theorem toNat_extractLsb' (word : BitVec 32) (fromBit numBits : ℕ) :
    (word.extractLsb' fromBit numBits).toNat = wordField word fromBit numBits := by
  rw [extractLsb'_toNat, Nat.shiftRight_eq_div_pow, wordField]

theorem toNat_append_eq {first second : ℕ} (upper : BitVec first) (lower : BitVec second) :
    (upper ++ lower).toNat = upper.toNat * 2 ^ second + lower.toNat := by
  rw [toNat_append, ← Nat.shiftLeft_add_eq_or_of_lt lower.isLt, Nat.shiftLeft_eq]

theorem toNat_signExtend {width : ℕ} (value : BitVec (width + 1)) (small : width + 1 ≤ 32)
    {sign rest : ℕ} (split : value.toNat = sign * 2 ^ width + rest) (isBit : sign < 2)
    (bounded : rest < 2 ^ width) :
    (value.signExtend 32).toNat = rest + sign * (2 ^ 32 - 2 ^ width) := by
  have powers : 2 ^ (width + 1) ≤ 2 ^ 32 := Nat.pow_le_pow_right (by omega) small
  have double : 2 ^ (width + 1) = 2 * 2 ^ width := by rw [pow_succ, mul_comm]
  rw [BitVec.toNat_signExtend, msb_eq_decide, toNat_setWidth, split, Nat.add_sub_cancel]
  interval_cases sign
  · rw [if_neg (by simpa using bounded)]
    omega
  · rw [if_pos (by simp)]
    omega

def chunkLimbs (format : InstructionType) (word : BitVec 32) : ℕ × ℕ :=
  let sign := wordField word 31 1
  let imm10To5 := wordField word 25 6 * 2 ^ 5
  let upper := (wordField word 15 1 * 2 ^ 3 + wordField word 12 3) * 2 ^ 12
  match format with
  | .rType => (imm10To5, sign * 0xffff)
  | .iType => (wordField word 20 1 + wordField word 21 4 * 2 + imm10To5 + sign * 2 ^ 11 +
      sign * 0b1111 * 2 ^ 12, sign * 0xffff)
  | .sType => (wordField word 7 1 + wordField word 8 4 * 2 + imm10To5 + sign * 2 ^ 11 +
      sign * 0b1111 * 2 ^ 12, sign * 0xffff)
  | .bType => (wordField word 8 4 * 2 + imm10To5 + wordField word 7 1 * 2 ^ 11 +
      sign * 0b1111 * 2 ^ 12, sign * 0xffff)
  | .uType => (upper, highLimb word)
  | .jType => (wordField word 21 4 * 2 + imm10To5 + wordField word 20 1 * 2 ^ 11 + upper,
      sign * 0xfff0 + wordField word 16 4)

variable {format : InstructionType}

theorem decoder_limbs {formatBits : List Boolean}
    (selected : ∀ other, formatBit formatBits other = bit (decide (other = format)))
    (word : BitVec 32) : let chunks : InstructionChunks F := (instructionChunks word).map Nat.cast
    immLow formatBits chunks = ((chunkLimbs format word).1 : F) ∧
      immHigh formatBits chunks (highLimb word : F) = ((chunkLimbs format word).2 : F) := by
  cases format <;>
    simp [immLow, immHigh, selected, InstructionChunks.map, instructionChunks, chunkLimbs] <;>
    norm_num

theorem chunkLimbs_lt (format : InstructionType) (word : BitVec 32) :
    (chunkLimbs format word).1 < 2 ^ 16 := by
  have imm11 := wordField_lt word 7 1
  have imm4To1 := wordField_lt word 8 4
  have funct3 := wordField_lt word 12 3
  have rs1Low := wordField_lt word 15 1
  have rs2Low := wordField_lt word 20 1
  have rs2High := wordField_lt word 21 4
  have imm10To5 := wordField_lt word 25 6
  have sign := wordField_lt word 31 1
  cases format <;> simp only [chunkLimbs] <;> omega

theorem chunkLimbs_eq {word value : BitVec 32} (has : immediate format word = some value) :
    value.toNat = (chunkLimbs format word).1 + 2 ^ 16 * (chunkLimbs format word).2 := by
  have bounded := word.isLt
  have imm11 := wordField_lt word 7 1
  have imm4To1 := wordField_lt word 8 4
  have funct3 := wordField_lt word 12 3
  have rs1Low := wordField_lt word 15 1
  have rs1High := wordField_lt word 16 4
  have rs2Low := wordField_lt word 20 1
  have rs2High := wordField_lt word 21 4
  have imm10To5 := wordField_lt word 25 6
  have sign := wordField_lt word 31 1
  cases format with
  | rType => cases has
  | iType =>
    cases has
    have split : (word.extractLsb' 20 12).toNat = wordField word 31 1 * 2 ^ 11 +
        (wordField word 20 1 + wordField word 21 4 * 2 + wordField word 25 6 * 2 ^ 5) := by
      rw [toNat_extractLsb']
      unfold wordField
      omega
    rw [toNat_signExtend _ (by omega) split sign (by omega), chunkLimbs]
    omega
  | sType =>
    cases has
    have split : (word.extractLsb' 25 7 ++ word.extractLsb' 7 5).toNat =
        wordField word 31 1 * 2 ^ 11 +
        (wordField word 7 1 + wordField word 8 4 * 2 + wordField word 25 6 * 2 ^ 5) := by
      rw [toNat_append_eq, toNat_extractLsb', toNat_extractLsb']
      unfold wordField
      omega
    refine (@toNat_signExtend 11 _ (by omega) _ _ split sign (by omega)).trans ?_
    rw [chunkLimbs]
    omega
  | bType =>
    cases has
    have split : (word.extractLsb' 31 1 ++ word.extractLsb' 7 1 ++ word.extractLsb' 25 6 ++
        word.extractLsb' 8 4 ++ 0#1).toNat = wordField word 31 1 * 2 ^ 12 +
        (wordField word 8 4 * 2 + wordField word 25 6 * 2 ^ 5 + wordField word 7 1 * 2 ^ 11) := by
      simp only [toNat_append_eq, toNat_extractLsb', toNat_zero]
      omega
    refine (@toNat_signExtend 12 _ (by omega) _ _ split sign (by omega)).trans ?_
    rw [chunkLimbs]
    omega
  | uType =>
    cases has
    rw [toNat_append_eq, toNat_extractLsb', toNat_zero, chunkLimbs]
    unfold wordField highLimb
    omega
  | jType =>
    cases has
    have upper : wordField word 12 8 = wordField word 12 3 + wordField word 15 1 * 2 ^ 3 +
        wordField word 16 4 * 2 ^ 4 := by
      unfold wordField
      omega
    have lower : wordField word 21 10 = wordField word 21 4 + wordField word 25 6 * 2 ^ 4 := by
      unfold wordField
      omega
    have split : (word.extractLsb' 31 1 ++ word.extractLsb' 12 8 ++ word.extractLsb' 20 1 ++
        word.extractLsb' 21 10 ++ 0#1).toNat = wordField word 31 1 * 2 ^ 20 +
        (wordField word 21 10 * 2 + wordField word 20 1 * 2 ^ 11 +
          wordField word 12 8 * 2 ^ 12) := by
      simp only [toNat_append_eq, toNat_extractLsb', toNat_zero]
      omega
    refine (@toNat_signExtend 20 _ (by omega) _ _ split sign (by omega)).trans ?_
    rw [chunkLimbs]
    omega

theorem decoder_immediate {formatBits : List Boolean}
    (selected : ∀ other, formatBit formatBits other = bit (decide (other = format)))
    {word value : BitVec 32} (has : immediate format word = some value) :
    let chunks : InstructionChunks F := (instructionChunks word).map Nat.cast
    (⟨.var (immLow formatBits chunks), .var (immHigh formatBits chunks (highLimb word : F))⟩ :
      Register) = .ofWord value := by
  have sum := chunkLimbs_eq has
  have bounded := chunkLimbs_lt format word
  have low : lowLimb value = (chunkLimbs format word).1 := by
    rw [lowLimb]
    omega
  have high : highLimb value = (chunkLimbs format word).2 := by
    rw [highLimb]
    omega
  obtain ⟨lowValue, highValue⟩ := decoder_limbs selected word
  intro chunks
  rw [lowValue, highValue, Register.ofWord, low, high]

section

variable {allOpcodes : List DecodableMachineOp} (word : BitVec 32)

/-- The format whose flag is set: the declared one, and the one of branches for words that the
machine does not support. -/
def selectedFormat (allOpcodes : List DecodableMachineOp) (word : BitVec 32) : InstructionType :=
  match instructionSubspace allOpcodes word with
  | some declared => declared.1
  | none => .bType

theorem formatBit_decoded (other : InstructionType) :
    formatBit (decodedInstruction allOpcodes word).formatBits other =
      bit (decide (other = selectedFormat allOpcodes word)) := by
  change formatBit (exposedBits allOpcodes (instructionBitmask allOpcodes word)).2.1 other = _
  rw [formatBit_exposedBits, bit_inj, Bool.eq_iff_iff, decide_eq_true_eq, selectedFormat]
  cases supported : instructionSubspace allOpcodes word with
  | none =>
    rw [instructionBitmask_of_unsupported supported]
    cases other <;> decide
  | some declared =>
    rw [instructionBitmask, testBit_decoderBitmask allOpcodes supported]
    exact maskBit_format other

theorem majorFlag_of_unsupported (unsupported : instructionSubspace allOpcodes word = none)
    (key : DecoderMajorInstructionFamilyKey) :
    ((decodedInstruction allOpcodes word).flags allOpcodes).majorFlag key = false := by
  have clear : ∀ flag ∈ (decodedInstruction allOpcodes word).otherBits, flag.value ≠ 1 := by
    intro flag member
    change flag ∈ (exposedBits allOpcodes (instructionBitmask allOpcodes word)).2.2 at member
    rw [instructionBitmask_of_unsupported unsupported] at member
    obtain ⟨set, inside, rfl⟩ := List.mem_map.mp member
    obtain ⟨index, _, rfl⟩ := List.mem_map.mp inside
    simp [flagVariable]
  change ((BasicFlagsSource.getMajorFlag? ⟨_, _⟩ key).any fun flag => flag.value = 1) = false
  rw [BasicFlagsSource.getMajorFlag?, Bool.eq_false_iff, ne_eq, Option.any_eq_true]
  rintro ⟨flag, found, isSet⟩
  split_ifs at found
  exact clear flag (List.mem_of_getElem? found) (of_decide_eq_true isSet)

theorem majorFlag_unique {first second : DecoderMajorInstructionFamilyKey}
    (isFirst : ((decodedInstruction allOpcodes word).flags allOpcodes).majorFlag first = true)
    (isSecond : ((decodedInstruction allOpcodes word).flags allOpcodes).majorFlag second = true) :
    first = second := by
  cases supported : instructionSubspace allOpcodes word with
  | none =>
    rw [majorFlag_of_unsupported word supported] at isFirst
    cases isFirst
  | some declared =>
    have selects := selects_of_supported supported
    rw [selects.major_iff, decide_eq_true_eq] at isFirst isSecond
    rw [isFirst, isSecond]

/-- Every satisfying assignment of the decoder gives the fields of the word, sets the flag of one
format and of at most one family, and gives the immediate of that format. For a supported word these
are the declared ones. Every word has such an assignment. -/
theorem decode_sound_and_complete {tables : TableDriver}
    (decoderTables : DecoderTables allOpcodes tables) (word : BitVec 32) :
    (∀ (assignment : List F) (decoded : DecodedInstruction),
      (decode tables (.ofWord word) (decoderTableSplitting allOpcodes)).run assignment =
        some (decoded, []) →
      decoded.output.rd = ((word.extractLsb' 7 5).toNat : F) ∧
      decoded.output.rs1 = .var ((word.extractLsb' 15 5).toNat : F) ∧
      decoded.output.rs2 = ((word.extractLsb' 20 5).toNat : F) ∧
      decoded.output.funct3 = .var ((word.extractLsb' 12 3).toNat : F) ∧
      decoded.output.funct7 = ((word.extractLsb' 25 7).toNat : F) ∧
      (∃ format, (∀ other, formatBit decoded.formatBits other = bit (decide (other = format))) ∧
        (∀ declared, instructionSubspace allOpcodes word = some declared → format = declared.1) ∧
        ∀ value, immediate format word = some value → decoded.output.imm = .ofWord value) ∧
      (∀ first second, (decoded.flags allOpcodes).majorFlag first = true →
        (decoded.flags allOpcodes).majorFlag second = true → first = second) ∧
      ∀ format major minors, instructionSubspace allOpcodes word = some (format, major, minors) →
        (decoded.flags allOpcodes).Selects major minors) ∧
    ∃ (assignment : List F) (decoded : DecodedInstruction),
      (decode tables (.ofWord word) (decoderTableSplitting allOpcodes)).run assignment =
        some (decoded, []) := by
  constructor
  · intro assignment decoded accepted
    have yielded := (yields_iff_run _ _).mpr ⟨assignment, accepted⟩
    obtain rfl := (yields_decode decoderTables word decoded).mp yielded
    simp only [toNat_extractLsb']
    refine ⟨rfl, rfl, rfl, rfl, rfl, ⟨selectedFormat allOpcodes word, formatBit_decoded word,
      ?_, ?_⟩, ?_, ?_⟩
    · intro declared supported
      rw [selectedFormat, supported]
    · intro value has
      exact decoder_immediate (formatBit_decoded word) has
    · intro first second isFirst isSecond
      exact majorFlag_unique word isFirst isSecond
    · intro format major minors supported
      exact selects_of_supported supported
  · obtain ⟨assignment, accepted⟩ :=
      (yields_iff_run _ _).mp ((yields_decode decoderTables word _).mpr rfl)
    exact ⟨assignment, _, accepted⟩

end

theorem decode_jump_backwards :
    ∃ (assignment : List F) (decoded : DecodedInstruction),
      (decode (decoderTableDriver fullIsaOpcodes) (.ofWord 0xffdff06f)
        (decoderTableSplitting fullIsaOpcodes)).run assignment = some (decoded, []) ∧
      decoded.output.imm = .ofWord (-4) := by
  obtain ⟨sound, assignment, decoded, accepted⟩ :=
    decode_sound_and_complete (decoderTables_driver fullIsaOpcodes) 0xffdff06f
  obtain ⟨_, _, _, _, _, ⟨format, _, declared, imm⟩, _⟩ := sound assignment decoded accepted
  have supported : instructionSubspace fullIsaOpcodes 0xffdff06f =
      some (.jType, .jumpCommon, [.jal]) := by decide +kernel
  obtain rfl := declared _ supported
  exact ⟨assignment, decoded, accepted, imm _ (by decide)⟩

end Airbender.Machine

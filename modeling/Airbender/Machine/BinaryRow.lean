import Airbender.Machine.Provability
import Airbender.Cs.FamilyContext

/-!
# Rows of the bitwise operations

The operands are looked up byte by byte in the table whose id is `funct3`. The decomposition of the
decoder leaves the low bytes of an operand open; the keys of the table are bytes, which closes them.
-/

namespace Airbender.Machine

open CircuitLib Circuit Mersenne31Field Cs OptimizationContext List
open Simulator (Word AluOperation getOpcodeBits funct3Bits funct7Bits)

/-- A table with two keys of one byte, as `create_xor_table` for bytes, `create_or_table` and
`create_and_table` generate it. -/
def byteTable (operation : ℕ → ℕ → ℕ) (row : Row) : Bool :=
  decide (row.first.val < 2 ^ 8) && decide (row.second.val < 2 ^ 8) &&
    decide (row.third = (operation row.first.val row.second.val : F))

structure BinaryTables (tables : TableDriver) : Prop where
  u16GetSignAndHighByte : tables .u16GetSignAndHighByte = u16GetSignAndHighByteTable
  xor : tables .xor = byteTable (· ^^^ ·)
  or : tables .or = byteTable (· ||| ·)
  and : tables .and = byteTable (· &&& ·)

def BinaryOp.apply (src1 src2 : RegisterDecompositionWithSign) (funct3 : Cs.Num)
    (flags : BooleanSet) : ContextM CommonDiffs := do
  resetIndexers
  let execFlag := flags.getMajorFlag .binopCommon
  let (src1Byte0, src1Byte1) := src1.lowWordUnconstrainedDecomposition
  let (src2Byte0, src2Byte1) := src2.lowWordUnconstrainedDecomposition
  let (src1Byte2, src1Byte3) := src1.highWordDecomposition
  let (src2Byte2, src2Byte3) := src2.highWordDecomposition
  let chunk0 ← appendLookupVariable src1Byte0 src2Byte0 funct3 execFlag
  let chunk1 ← appendLookupVariable src1Byte1 src2Byte1 funct3 execFlag
  let chunk2 ← appendLookupVariable src1Byte2 src2Byte2 funct3 execFlag
  let chunk3 ← appendLookupVariable src1Byte3 src2Byte3 funct3 execFlag
  pure { execFlag
         rdValue := [((chunk0 + 2 ^ 8 * chunk1, chunk2 + 2 ^ 8 * chunk3), execFlag)]
         newPcValue := .default }

def binaryCircuit (tables : TableDriver) (flags : BooleanSet) (funct3 : Cs.Num)
    (rs1 rs2 : Register) :
    Assembly (Register × RegisterDecompositionWithSign × RegisterDecompositionWithSign) := do
  let src1 ← RegisterDecompositionWithSign.parseReg tables rs1
  let src2 ← RegisterDecompositionWithSign.parseReg tables rs2
  let diffs ← enforced tables (BinaryOp.apply src1 src2 funct3 flags)
  let rd ← CommonDiffs.selectFinalRdValue [diffs]
  pure (rd, src1, src2)

def trueDecomposition (word : BitVec 32) : RegisterDecompositionWithSign where
  u16Limbs := .ofWord word
  lowWordUnconstrainedDecomposition := ((wordByte word 0 : F), (wordByte word 1 : F))
  highWordDecomposition := ((wordByte word 2 : F), (wordByte word 3 : F))
  signBit := .is (bit word.msb)

/-- Operations that act on every byte by itself. -/
def Bytewise (operation : ℕ → ℕ → ℕ) (result : BitVec 32 → BitVec 32 → BitVec 32) : Prop :=
  ∀ x y index, wordByte (result x y) index = operation (wordByte x index) (wordByte y index)

theorem wordByte_eq (word : BitVec 32) (index : ℕ) :
    wordByte word index = word.toNat >>> (8 * index) % 2 ^ 8 := by
  rw [wordByte, Nat.shiftRight_eq_div_pow, pow_mul]
  rfl

theorem bytewise_xor : Bytewise (· ^^^ ·) (· ^^^ ·) := by
  intro x y index
  rw [wordByte_eq, BitVec.toNat_xor, Nat.shiftRight_xor_distrib, Nat.xor_mod_two_pow, wordByte_eq,
    wordByte_eq]

theorem bytewise_or : Bytewise (· ||| ·) (· ||| ·) := by
  intro x y index
  rw [wordByte_eq, BitVec.toNat_or, Nat.shiftRight_or_distrib, Nat.or_mod_two_pow, wordByte_eq,
    wordByte_eq]

theorem bytewise_and : Bytewise (· &&& ·) (· &&& ·) := by
  intro x y index
  rw [wordByte_eq, BitVec.toNat_and, Nat.shiftRight_and_distrib, Nat.and_mod_two_pow, wordByte_eq,
    wordByte_eq]

theorem byteTable_natCast (operation : ℕ → ℕ → ℕ) {first second : ℕ} (firstBound : first < 2 ^ 8)
    (secondBound : second < 2 ^ 8) (third : F) :
    byteTable operation ⟨(first : F), (second : F), third⟩ = true ↔
      third = (operation first second : F) := by
  have firstVal : (first : F).val = first := val_natCast_of_lt (by omega)
  have secondVal : (second : F).val = second := val_natCast_of_lt (by omega)
  simp only [byteTable, firstVal, secondVal, Bool.and_eq_true, decide_eq_true_eq]
  exact and_iff_right ⟨firstBound, secondBound⟩

theorem low_bytes_iff (word : BitVec 32) (byte0 : F) :
    (byte0.val < 2 ^ 8 ∧ (((lowLimb word : F) - byte0) * (2 ^ 8)⁻¹).val < 2 ^ 8) ↔
      byte0 = (wordByte word 0 : F) ∧
        ((lowLimb word : F) - byte0) * (2 ^ 8)⁻¹ = (wordByte word 1 : F) := by
  have digits := wordByte_eq_limb_bytes word
  have invertible : (2 ^ 8 : F) ≠ 0 := by decide
  constructor
  · rintro ⟨bound0, bound1⟩
    obtain ⟨number0, small0, rfl⟩ := exists_nat bound0
    obtain ⟨number1, small1, isByte1⟩ := exists_nat bound1
    have recomposed : (number1 : F) * 2 ^ 8 + (number0 : F) - (lowLimb word : F) = 0 := by
      rw [← isByte1, mul_assoc, inv_mul_cancel₀ invertible]
      ring
    obtain ⟨rfl, rfl⟩ := (bytes_of_limb (lowLimb_lt word) small0 small1).mp recomposed
    rw [isByte1, digits.1, digits.2.1]
    exact ⟨rfl, rfl⟩
  · rintro ⟨rfl, isByte1⟩
    have bound := wordByte_lt word
    rw [isByte1, val_natCast_of_lt (by have := bound 0; omega),
      val_natCast_of_lt (by have := bound 1; omega)]
    exact ⟨bound 0, bound 1⟩

section

variable {tables : TableDriver} (known : BinaryTables tables) {flags : BooleanSet}
  (executing : flags.majorFlag .binopCommon = true)

theorem yields_lookupSlot_variable (row : Row) (table : Cs.Num) (result : Unit) :
    (enforceLookupSlot tables [⟨.is 1, row, table⟩]).Yields result ↔
      tables.containsId table.value row = true := by
  have alone : Orthogonal (·.1) [(true, row, table)] := pairwise_singleton _ _
  simpa [activeLookup] using
    yields_enforceLookupSlot tables (cons_ne_nil _ _) alone result

include executing in
theorem binaryOp_lookups (src1 src2 : RegisterDecompositionWithSign) (funct3 : F)
    (result : CommonDiffs) :
    (enforced tables (BinaryOp.apply src1 src2 (.var funct3) flags)).Yields result ↔
      ∃ chunk0 chunk1 chunk2 chunk3 : F,
        tables.containsId funct3 ⟨src1.lowWordUnconstrainedDecomposition.1,
          src2.lowWordUnconstrainedDecomposition.1, chunk0⟩ = true ∧
        tables.containsId funct3 ⟨src1.lowWordUnconstrainedDecomposition.2,
          src2.lowWordUnconstrainedDecomposition.2, chunk1⟩ = true ∧
        tables.containsId funct3 ⟨src1.highWordDecomposition.1, src2.highWordDecomposition.1,
          chunk2⟩ = true ∧
        tables.containsId funct3 ⟨src1.highWordDecomposition.2, src2.highWordDecomposition.2,
          chunk3⟩ = true ∧
        (⟨.is 1, [((chunk0 + 2 ^ 8 * chunk1, chunk2 + 2 ^ 8 * chunk3), .is 1)], .default⟩ :
          CommonDiffs) = result := by
  simp only [yields_enforced, BinaryOp.apply, BooleanSet.getMajorFlag, executing, bind_assoc,
    pure_bind, yields_resetIndexers, yields_appendLookupVariable_new, withLookup, yields_finish,
    length_nil, length_cons, nil_append, cons_append, Nat.zero_add, Nat.reduceAdd]
  simp [enforceAll, enforceSlots, slotCount, slot, range_succ, yields_lookupSlot_variable,
    and_assoc]

theorem high_bytes (word : BitVec 32) :
    (highLimb word : F) - (wordByte word 3 : F) * 2 ^ 8 = (wordByte word 2 : F) := by
  obtain ⟨-, -, low, high⟩ := wordByte_eq_limb_bytes word
  have split : highLimb word = wordByte word 2 + 256 * wordByte word 3 := by omega
  rw [split]
  push_cast
  ring

theorem limbs_of_bytes (word : BitVec 32) :
    (wordByte word 0 : F) + 2 ^ 8 * (wordByte word 1 : F) = (lowLimb word : F) ∧
      (wordByte word 2 : F) + 2 ^ 8 * (wordByte word 3 : F) = (highLimb word : F) := by
  obtain ⟨byte0, byte1, byte2, byte3⟩ := wordByte_eq_limb_bytes word
  have low : lowLimb word = wordByte word 0 + 256 * wordByte word 1 := by omega
  have high : highLimb word = wordByte word 2 + 256 * wordByte word 3 := by omega
  rw [low, high]
  constructor <;> push_cast <;> ring

include known executing in
theorem yields_binaryCircuit {funct3 : F} {operation : ℕ → ℕ → ℕ}
    {result : BitVec 32 → BitVec 32 → BitVec 32} (bytewise : Bytewise operation result)
    (selects : ∀ row, tables.containsId funct3 row = byteTable operation row) (x y : BitVec 32)
    (outcome : Register × RegisterDecompositionWithSign × RegisterDecompositionWithSign) :
    (binaryCircuit tables flags (.var funct3) (.ofWord x) (.ofWord y)).Yields outcome ↔
      (.ofWord (result x y), trueDecomposition x, trueDecomposition y) = outcome := by
  have bound := wordByte_lt
  have rows := fun index => byteTable_natCast operation (bound x index) (bound y index)
  have limbs := limbs_of_bytes (result x y)
  simp only [bytewise x y] at limbs
  simp only [binaryCircuit, yields_bind, yields_parseReg_withSign known.u16GetSignAndHighByte,
    binaryOp_lookups executing, selects, yields_pure]
  constructor
  · rintro ⟨_, ⟨byteX, rfl⟩, _, ⟨byteY, rfl⟩, _, ⟨chunk0, chunk1, chunk2, chunk3, row0, row1, row2,
      row3, rfl⟩, rd, written, rfl⟩
    have keys0 := row0
    have keys1 := row1
    simp only [byteTable, Bool.and_eq_true, decide_eq_true_eq] at keys0 keys1
    obtain ⟨isX0, isX1⟩ := (low_bytes_iff x byteX).mp ⟨keys0.1.1, keys1.1.1⟩
    obtain ⟨isY0, isY1⟩ := (low_bytes_iff y byteY).mp ⟨keys0.1.2, keys1.1.2⟩
    rw [isX0, isY0, rows 0] at row0
    rw [isX1, isY1, rows 1] at row1
    rw [high_bytes, high_bytes, rows 2] at row2
    rw [rows 3] at row3
    rw [yields_selectFinalRdValue_alone _ rfl, row0, row1, row2, row3, limbs.1, limbs.2] at written
    rw [← written, isX1, isY1, isX0, isY0, high_bytes, high_bytes]
    rfl
  · rintro rfl
    have byte1 : ∀ word : BitVec 32,
        ((lowLimb word : F) - (wordByte word 0 : F)) * (2 ^ 8)⁻¹ = (wordByte word 1 : F) := by
      intro word
      have invertible : (2 ^ 8 : F) ≠ 0 := by decide
      rw [← (limbs_of_bytes word).1, add_sub_cancel_left, mul_comm, inv_mul_cancel_left₀ invertible]
    let chunk := fun index => (operation (wordByte x index) (wordByte y index) : F)
    refine ⟨_, ⟨(wordByte x 0 : F), rfl⟩, _, ⟨(wordByte y 0 : F), rfl⟩, _, ⟨_, chunk 1, chunk 2, _,
      (rows 0 _).mpr rfl, ?_, ?_, (rows 3 _).mpr rfl, rfl⟩, .ofWord (result x y), ?_, ?_⟩
    · rw [byte1, byte1]
      exact (rows 1 _).mpr rfl
    · rw [high_bytes, high_bytes]
      exact (rows 2 _).mpr rfl
    · rw [yields_selectFinalRdValue_alone _ rfl, limbs.1, limbs.2]
      rfl
    · rw [byte1, byte1, high_bytes, high_bytes]
      rfl

variable {instr : Word} {format : InstructionType} {major : DecoderMajorInstructionFamilyKey}
  {minors : List DecoderInstructionVariantsKey}

include known in
theorem funct3_selects {funct3 : BitVec 3} {operation : AluOperation}
    (encodes : binaryOperation funct3 = some operation) :
    ∃ bytes, Bytewise bytes operation.result ∧
      ∀ row, tables.containsId (funct3.toNat : F) row = byteTable bytes row := by
  unfold binaryOperation at encodes
  split_ifs at encodes with isXor isOr isAnd
  · obtain rfl := Option.some.inj encodes
    refine ⟨_, bytewise_xor, fun row => ?_⟩
    rw [isXor, ← known.xor]
    exact @containsId_toNum tables .xor (by decide) row
  · obtain rfl := Option.some.inj encodes
    refine ⟨_, bytewise_or, fun row => ?_⟩
    rw [isOr, ← known.or]
    exact @containsId_toNum tables .or (by decide) row
  · obtain rfl := Option.some.inj encodes
    refine ⟨_, bytewise_and, fun row => ?_⟩
    rw [isAnd, ← known.and]
    exact @containsId_toNum tables .and (by decide) row

theorem binary_declared
    (supported : BinaryOp.defineDecoderSubspace (getOpcodeBits instr).toNat
      (funct3Bits instr).toNat (funct7Bits instr).toNat = some (format, major, minors)) :
    major = .binopCommon ∧ ∃ operation, binaryOperation (funct3Bits instr) = some operation ∧
      (denoted format major minors (funct3Bits instr) = some (.alu operation) ∨
        denoted format major minors (funct3Bits instr) = some (.aluImmediate operation)) := by
  have named : ∀ funct3 : BitVec 3, funct3.toNat = 0b111 ∨ funct3.toNat = 0b110 ∨
      funct3.toNat = 0b100 → (binaryOperation funct3).isSome = true := by
    decide
  unfold BinaryOp.defineDecoderSubspace at supported
  split_ifs at supported with isBinary isRegister isImmediate
  · obtain ⟨operation, encodes⟩ := Option.isSome_iff_exists.mp (named _ isBinary)
    cases supported
    refine ⟨rfl, operation, encodes, Or.inl ?_⟩
    rw [denoted, encodes]
    rfl
  · obtain ⟨operation, encodes⟩ := Option.isSome_iff_exists.mp (named _ isBinary)
    cases supported
    refine ⟨rfl, operation, encodes, Or.inr ?_⟩
    rw [denoted, encodes]
    rfl

include known in
/-- Every satisfying assignment of a row that executes a bitwise operation writes its result and
splits both operands into their bytes, and such an assignment exists. -/
theorem binaryRow_sound_and_complete
    (supported : BinaryOp.defineDecoderSubspace (getOpcodeBits instr).toNat
      (funct3Bits instr).toNat (funct7Bits instr).toNat = some (format, major, minors))
    (decoded : flags.Selects major minors) (x y : Word) :
    ∃ operation, binaryOperation (funct3Bits instr) = some operation ∧
      (denoted format major minors (funct3Bits instr) = some (.alu operation) ∨
        denoted format major minors (funct3Bits instr) = some (.aluImmediate operation)) ∧
      (∀ (assignment : List F) (outcome : Register × RegisterDecompositionWithSign ×
          RegisterDecompositionWithSign),
        (binaryCircuit tables flags (.var ((funct3Bits instr).toNat : F)) (.ofWord x)
            (.ofWord y)).run assignment = some (outcome, []) →
          outcome = (.ofWord (operation.result x y), trueDecomposition x, trueDecomposition y)) ∧
      ∃ assignment : List F,
        (binaryCircuit tables flags (.var ((funct3Bits instr).toNat : F)) (.ofWord x)
          (.ofWord y)).run assignment =
            some ((.ofWord (operation.result x y), trueDecomposition x, trueDecomposition y),
              []) := by
  obtain ⟨rfl, operation, encodes, denotes⟩ := binary_declared supported
  have executing : flags.majorFlag .binopCommon = true := decoded.major_iff _
  obtain ⟨bytes, bytewise, selects⟩ := funct3_selects known encodes
  exact ⟨operation, encodes, denotes,
    run_determined (yields_binaryCircuit known executing bytewise selects x y)⟩

end

def binaryTables : TableDriver
  | .u16GetSignAndHighByte => u16GetSignAndHighByteTable
  | .xor => byteTable (· ^^^ ·)
  | .or => byteTable (· ||| ·)
  | .and => byteTable (· &&& ·)
  | _ => fun _ => false

theorem binaryRow_andi :
    ∃ assignment : List F, ∃ src1 src2, (binaryCircuit binaryTables
      ⟨fun key => decide (key = .binopCommon), fun _ _ => false⟩ (.var 7)
      (.ofWord (-1)) (.ofWord 3)).run assignment = some ((.ofWord 3, src1, src2), []) := by
  have known : BinaryTables binaryTables := ⟨rfl, rfl, rfl, rfl⟩
  have supported : BinaryOp.defineDecoderSubspace (getOpcodeBits 0x0030f093).toNat
      (funct3Bits 0x0030f093).toNat (funct7Bits 0x0030f093).toNat =
      some (.iType, .binopCommon, []) := rfl
  have decoded : BooleanSet.Selects ⟨fun key => decide (key = .binopCommon), fun _ _ => false⟩
      .binopCommon [] := ⟨fun _ => rfl, fun _ => rfl⟩
  obtain ⟨operation, encodes, -, -, assignment, accepted⟩ :=
    binaryRow_sound_and_complete known supported decoded (-1) 3
  obtain rfl : .and = operation := Option.some.inj encodes
  exact ⟨assignment, _, _, accepted⟩

end Airbender.Machine

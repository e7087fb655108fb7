import Airbender.Simulator.Isa

/-!
# The fields of the simulators

What the simulators cut out of an instruction and extend are the fields and immediates of the
instruction set.
-/

namespace Airbender.Simulator

open BitVec

section

variable (instr : Word)

theorem getOpcodeBits_eq : getOpcodeBits instr = Fields.opcode instr := rfl

theorem funct3Bits_eq : funct3Bits instr = Fields.funct3 instr := rfl

theorem getFormalRs1Bits_eq : getFormalRs1Bits instr = Fields.rs1 instr := rfl

theorem funct7Bits_eq : funct7Bits instr = Fields.funct7 instr := rfl

end

theorem getLsbD_lowMask {numBits : ℕ} (small : numBits < 32) (index : ℕ) :
    (((1 : Word) <<< numBits) - 1).getLsbD index = decide (index < numBits) := by
  have value : (((1 : Word) <<< numBits) - 1).toNat = 2 ^ numBits - 1 := by
    have below : 2 ^ numBits < 2 ^ 32 := Nat.pow_lt_pow_right (by omega) small
    have positive : 0 < 2 ^ numBits := Nat.two_pow_pos _
    have shifted : ((1 : Word) <<< numBits).toNat = 2 ^ numBits := by
      rw [toNat_shiftLeft, Nat.shiftLeft_eq]
      change 1 * 2 ^ numBits % 2 ^ 32 = _
      rw [one_mul, Nat.mod_eq_of_lt below]
    rw [toNat_sub, shifted]
    change (2 ^ 32 - 1 + 2 ^ numBits) % 2 ^ 32 = _
    omega
  rw [getLsbD, value, Nat.testBit_two_pow_sub_one]

theorem getLsbD_maskBits (src : Word) {fromBit numBits : ℕ} (small : numBits < 32) (index : ℕ) :
    (maskBits src fromBit numBits).getLsbD index =
      (src.getLsbD index && decide (fromBit ≤ index ∧ index < fromBit + numBits)) := by
  rw [maskBits, getLsbD_and, getLsbD_shiftLeft, getLsbD_lowMask small]
  by_cases inside : index < 32
  · simp only [inside, decide_true, Bool.true_and]
    congr 1
    by_cases lower : index < fromBit
    · simp [lower, Nat.not_le.mpr lower]
    · simp only [lower, decide_false, Bool.not_false, Bool.true_and, decide_eq_decide]
      omega
  · simp [getLsbD_of_ge _ _ (Nat.le_of_not_lt inside)]

/-- Setting the upper bits of a value whose highest bit is set extends its sign. -/
theorem signExtend_setWidth {width : ℕ} (value : BitVec width) (positive : 0 < width)
    (small : width < 32) : signExtend (value.setWidth 32) width = value.signExtend 32 := by
  have sign : value.setWidth 32 &&& ((1 : Word) <<< (width - 1)) ≠ 0 ↔ value.msb = true := by
    have bit : (value.setWidth 32).getLsbD (width - 1) = value.msb := by
      rw [getLsbD_setWidth, msb_eq_getLsbD_last, decide_eq_true (by omega), Bool.true_and]
    have power : twoPow 32 (width - 1) ≠ 0#32 := by
      intro zero
      have off := congrArg (fun word => word.getLsbD (width - 1)) zero
      simp [show width - 1 < 32 by omega] at off
    rw [show (1 : Word) <<< (width - 1) = twoPow 32 (width - 1) from rfl, and_twoPow, bit]
    cases value.msb <;> simp [power]
  apply eq_of_getLsbD_eq
  intro index inside
  rw [signExtend, getLsbD_signExtend, decide_eq_true inside, Bool.true_and]
  by_cases negative : value.msb = true
  · rw [if_pos (sign.mpr negative), getLsbD_or, getLsbD_not, getLsbD_lowMask small, negative,
      getLsbD_setWidth]
    by_cases lower : index < width <;> simp [lower, inside]
  · rw [if_neg (sign.not.mpr negative), getLsbD_setWidth, decide_eq_true inside, Bool.true_and]
    by_cases lower : index < width
    · simp [lower]
    · simp [lower, negative, getLsbD_of_ge _ _ (Nat.le_of_not_lt lower)]

section

variable (instr : Word)

theorem imm_I_eq : ITypeOpcode.imm instr = (Fields.csr instr).setWidth 32 := by
  apply eq_of_getLsbD_eq
  intro index inside
  simp only [ITypeOpcode.imm, getBitsAndAlignRight, getLsbD_ushiftRight,
    getLsbD_maskBits _ (show 12 < 32 by omega), Fields.csr, getLsbD_setWidth, getLsbD_extractLsb',
    inside]
  interval_cases index <;> simp

theorem imm_I_eq_iff (number : BitVec 12) :
    ITypeOpcode.imm instr = number.setWidth 32 ↔ Fields.csr instr = number := by
  rw [imm_I_eq]
  refine ⟨fun equal => ?_, fun equal => by rw [equal]⟩
  have narrowed := congrArg (BitVec.setWidth 12) equal
  rwa [setWidth_setWidth_of_le _ (by omega), setWidth_setWidth_of_le _ (by omega), setWidth_eq,
    setWidth_eq] at narrowed

theorem signExtend_immediateI :
    signExtend (ITypeOpcode.imm instr) 12 = Fields.immediateI instr := by
  rw [imm_I_eq, signExtend_setWidth _ (by omega) (by omega), Fields.csr, Fields.immediateI]

theorem signExtend_immediateS :
    signExtend (STypeOpcode.imm instr) 12 = Fields.immediateS instr := by
  have bits : STypeOpcode.imm instr =
      (instr.extractLsb' 25 7 ++ instr.extractLsb' 7 5).setWidth 32 := by
    apply eq_of_getLsbD_eq
    intro index inside
    simp only [STypeOpcode.imm, getBitsAndAlignRight, getBitsAndShiftRight, getLsbD_or,
      getLsbD_ushiftRight, getLsbD_maskBits _ (show 5 < 32 by omega),
      getLsbD_maskBits _ (show 7 < 32 by omega), getLsbD_setWidth, getLsbD_append,
      getLsbD_extractLsb', inside]
    interval_cases index <;> simp
  rw [bits, signExtend_setWidth _ (by omega) (by omega), Fields.immediateS]

theorem signExtend_immediateB :
    signExtend (BTypeOpcode.imm instr) 13 = Fields.immediateB instr := by
  have bits : BTypeOpcode.imm instr = (instr.extractLsb' 31 1 ++ instr.extractLsb' 7 1 ++
      instr.extractLsb' 25 6 ++ instr.extractLsb' 8 4 ++ 0#1).setWidth 32 := by
    apply eq_of_getLsbD_eq
    intro index inside
    simp only [BTypeOpcode.imm, getBitsAndShiftRight, getBitsAndShiftLeft, getLsbD_or,
      getLsbD_ushiftRight, getLsbD_shiftLeft, getLsbD_maskBits _ (show 1 < 32 by omega),
      getLsbD_maskBits _ (show 4 < 32 by omega), getLsbD_maskBits _ (show 6 < 32 by omega),
      getLsbD_setWidth, getLsbD_append, getLsbD_extractLsb', inside]
    interval_cases index <;> simp
  rw [bits, signExtend_setWidth _ (by omega) (by omega), Fields.immediateB]

theorem signExtend_immediateJ :
    signExtend (JTypeOpcode.imm instr) 21 = Fields.immediateJ instr := by
  have bits : JTypeOpcode.imm instr = (instr.extractLsb' 31 1 ++ instr.extractLsb' 12 8 ++
      instr.extractLsb' 20 1 ++ instr.extractLsb' 21 10 ++ 0#1).setWidth 32 := by
    apply eq_of_getLsbD_eq
    intro index inside
    simp only [JTypeOpcode.imm, getBitsAndShiftRight, getLsbD_or, getLsbD_ushiftRight,
      getLsbD_maskBits _ (show 1 < 32 by omega), getLsbD_maskBits _ (show 8 < 32 by omega),
      getLsbD_maskBits _ (show 10 < 32 by omega), getLsbD_setWidth, getLsbD_append,
      getLsbD_extractLsb', inside]
    interval_cases index <;> simp
  rw [bits, signExtend_setWidth _ (by omega) (by omega), Fields.immediateJ]

theorem imm_U_eq : UTypeOpcode.imm instr = Fields.immediateU instr := by
  apply eq_of_getLsbD_eq
  intro index inside
  simp only [UTypeOpcode.imm, getBitsAndShiftRight, getLsbD_ushiftRight,
    getLsbD_maskBits _ (show 20 < 32 by omega), Fields.immediateU, getLsbD_append,
    getLsbD_extractLsb']
  interval_cases index <;> simp

end

theorem zeroExtend8_eq (src : Word) : zeroExtend8 src = (src.setWidth 8).setWidth 32 := by
  apply eq_of_getLsbD_eq
  intro index inside
  rw [zeroExtend8]
  interval_cases index <;> simp

theorem zeroExtend16_eq (src : Word) : zeroExtend16 src = (src.setWidth 16).setWidth 32 := by
  apply eq_of_getLsbD_eq
  intro index inside
  rw [zeroExtend16]
  interval_cases index <;> simp

theorem signExtend8_eq (src : Word) : signExtend8 src = (src.setWidth 8).signExtend 32 := by
  rw [← signExtend_setWidth _ (by omega) (by omega), ← zeroExtend8_eq]
  rfl

theorem signExtend16_eq (src : Word) : signExtend16 src = (src.setWidth 16).signExtend 32 := by
  rw [← signExtend_setWidth _ (by omega) (by omega), ← zeroExtend16_eq]
  rfl

theorem LoadKind.extend_eq (kind : LoadKind) (value : Word) : kind.extend value =
    match kind with
    | lb => signExtend8 value
    | lh => signExtend16 value
    | lw => value
    | lbu => zeroExtend8 value
    | lhu => zeroExtend16 value := by
  cases kind <;>
    simp only [extend, signExtend8_eq, signExtend16_eq, zeroExtend8_eq, zeroExtend16_eq]

theorem and_three_eq_zero_iff (target : Word) : target &&& 0x3 = 0 ↔ 4 ∣ target.toNat := by
  rw [← toNat_inj, toNat_and, Nat.dvd_iff_mod_eq_zero]
  exact (Nat.and_two_pow_sub_one_eq_mod _ 2).congr_left

end Airbender.Simulator

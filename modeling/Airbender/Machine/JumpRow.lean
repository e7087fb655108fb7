import Airbender.Machine.NextPc
import Airbender.Lib.WordBytes

/-!
# Rows of the jump family

A table clears the two lowest bits of the target and reports the second one, which must be zero. The
lowest bit is cleared in silence: for `JALR` the instruction set asks for it, and the immediate of
`JAL` is even.
-/

namespace Airbender.Machine

open CircuitLib Circuit Mersenne31Field Cs OptimizationContext Simulator WordBytes

/-- `JumpOp::apply`, for trusted code. -/
def JumpOp.apply (src1 : RegisterDecompositionWithSign) (pc pcNext imm : Register)
    (flags : BooleanSet) : ContextM CommonDiffs := do
  resetIndexers
  let execFlag := flags.getMajorFlag .jumpCommon
  let isJal := flags.getMinorFlag .jumpCommon .jal
  let src1 ← Register.choose isJal pc src1.u16Limbs
  let (x, _) ← appendAddRelation src1 imm execFlag
  let (bit1, dstLow) ← appendLookupPair (← x.low.getVariable) .jumpCleanupOffset execFlag
  addConstraint (bit1 * execFlag.value)
  let dst : Register := ⟨.var dstLow, x.high⟩
  let low ← pcNext.low.getVariable
  let high ← pcNext.high.getVariable
  pure { execFlag, rdValue := [((low, high), execFlag)], newPcValue := .custom dst }

/-- The family applied to a register, the program counter and an immediate; the values are the new
`rd` and the new program counter. -/
def jumpCircuit (tables : TableDriver) (flags : BooleanSet) (rs1 pc imm : Register) :
    Assembly (Register × Register) := do
  let pcNext ← calculatePcNextNoOverflows pc
  let src1 ← RegisterDecompositionWithSign.parseReg tables rs1
  let diffs ← enforced tables (JumpOp.apply src1 pc pcNext imm flags)
  finishRow diffs pcNext

theorem aligned_target_iff (sum target : BitVec 32) :
    (sum.getLsbD 1 = false ∧ sum &&& ~~~0x3 = target) ↔
      ((sum &&& ~~~0x1).toNat % 4 = 0 ∧ sum &&& ~~~0x1 = target) := by
  rw [getLsbD_one, decide_eq_false_iff_not, BitVec.toNat_eq, BitVec.toNat_eq, toNat_and_not_one,
    toNat_and_not_three]
  omega

theorem and_not_one_of_even {word : BitVec 32} (even : word.toNat % 2 = 0) :
    word &&& ~~~0x1 = word := by
  apply BitVec.eq_of_toNat_eq
  rw [toNat_and_not_one]
  omega

section

variable {romBits : ℕ} {image : List (BitVec 32)} {tables : TableDriver}
  (machine : MachineTables romBits image tables)

include machine in
theorem jumpCleanupOffset_row (target : BitVec 32) (bit1 cleared : F) :
    tables .jumpCleanupOffset ⟨(lowLimb target : F), bit1, cleared⟩ = true ↔
      bit1 = bit (target.getLsbD 1) ∧ cleared = (lowLimb (target &&& ~~~0x3) : F) := by
  have second : (lowLimb target >>> 1) &&& 0x01 = (target.getLsbD 1).toNat := by
    rw [getLsbD_one, Nat.and_one_is_mod, Nat.shiftRight_eq_div_pow, lowLimb]
    by_cases isSet : target.toNat / 2 % 2 = 1
    · simp only [isSet, decide_true, Bool.toNat_true]
      omega
    · simp only [isSet, decide_false, Bool.toNat_false]
      omega
  have others : lowLimb target - (lowLimb target &&& 0x3) = lowLimb (target &&& ~~~0x3) := by
    rw [Nat.and_two_pow_sub_one_eq_mod _ 2, lowLimb, lowLimb, toNat_and_not_three]
    omega
  rw [machine.jumpCleanupOffset, jumpCleanupOffsetTable,
    oneKeyTable_natCast (by omega) _ (lowLimb_lt target), second, others, bit_eq_natCast]

variable {src1 : RegisterDecompositionWithSign} {x pc pcNext imm : BitVec 32}
  (holds1 : src1.u16Limbs = .ofWord x) {flags : BooleanSet}
  (executing : flags.majorFlag .jumpCommon = true)

def jumpBase (flags : BooleanSet) (x pc : BitVec 32) : BitVec 32 :=
  if flags.minorFlag .jumpCommon .jal then pc else x

def jumpDiffs (pcNext target : BitVec 32) : CommonDiffs where
  execFlag := .is (bit true)
  rdValue := [(((lowLimb pcNext : F), (highLimb pcNext : F)), .is (bit true))]
  newPcValue := .custom (.ofWord target)

include machine holds1 executing in
theorem jumpOp_lookup (result : CommonDiffs) :
    (enforced tables (JumpOp.apply src1 (.ofWord pc) (.ofWord pcNext) (.ofWord imm) flags)).Yields
        result ↔
      ∃ dstLow : F, tables .jumpCleanupOffset
          ⟨(lowLimb (jumpBase flags x pc + imm) : F), 0, dstLow⟩ = true ∧
        ({ execFlag := .is (bit true)
           rdValue := [(((lowLimb pcNext : F), (highLimb pcNext : F)), .is (bit true))]
           newPcValue := .custom
            ⟨.var dstLow, .var (highLimb (jumpBase flags x pc + imm) : F)⟩ } : CommonDiffs) =
          result := by
  simp only [yields_enforced, JumpOp.apply, BooleanSet.getMajorFlag, BooleanSet.getMinorFlag,
    appendAddRelation, appendAddSubRelation, holds1, executing, bind_assoc, pure_bind,
    yields_resetIndexers, yields_lift_bind, exists_eq_left', Register.yields_choose_ofWord,
    yields_addConstraint, yields_getRegisterOutput_new, yields_pushAddSubRelation_new,
    yields_appendLookupPair_new, withLookup, Register.ofWord_low, Register.ofWord_high,
    Num.getVariable_var, yields_pure, yields_finish, List.length_nil, List.nil_append,
    Nat.zero_add, Nat.le_refl]
  simp [enforceAll, enforceSlots, slotCount, slot, enforceAddSubSlot, yields_addition_executed,
    yields_lookupSlot_executed machine.zeroEntry, jumpBase, -Bool.exists_bool]

include machine holds1 executing in
theorem yields_jumpOp (result : CommonDiffs) :
    (enforced tables (JumpOp.apply src1 (.ofWord pc) (.ofWord pcNext) (.ofWord imm) flags)).Yields
        result ↔
      ((jumpBase flags x pc + imm) &&& ~~~0x1).toNat % 4 = 0 ∧
        jumpDiffs pcNext ((jumpBase flags x pc + imm) &&& ~~~0x1) = result := by
  rw [jumpOp_lookup machine holds1 executing]
  simp only [jumpCleanupOffset_row machine]
  generalize jumpBase flags x pc + imm = sum
  have high : highLimb (sum &&& ~~~0x3) = highLimb sum := by
    rw [highLimb, highLimb, toNat_and_not_three]
    omega
  constructor
  · rintro ⟨_, ⟨clear, rfl⟩, rfl⟩
    have second : sum.getLsbD 1 = false := bit_eq_zero.mp clear.symm
    obtain ⟨aligned, same⟩ := (aligned_target_iff sum _).mp ⟨second, rfl⟩
    refine ⟨aligned, ?_⟩
    rw [same, jumpDiffs, Register.ofWord, high]
  · rintro ⟨aligned, rfl⟩
    obtain ⟨second, same⟩ := (aligned_target_iff sum _).mpr ⟨aligned, rfl⟩
    refine ⟨_, ⟨by rw [second, bit_false], rfl⟩, ?_⟩
    rw [← same, jumpDiffs, Register.ofWord, high]

include machine in
theorem yields_jumpCircuit (executing : flags.majorFlag .jumpCommon = true)
    (result : Register × Register) :
    (jumpCircuit tables flags (.ofWord x) (.ofWord pc) (.ofWord imm)).Yields result ↔
      pc.toNat + 4 < 2 ^ 32 ∧ ((jumpBase flags x pc + imm) &&& ~~~0x1).toNat % 4 = 0 ∧
        (.ofWord (pc + 4), .ofWord ((jumpBase flags x pc + imm) &&& ~~~0x1)) = result := by
  have row : (RegisterDecompositionWithSign.parseReg tables (.ofWord x) >>= fun src1 =>
      enforced tables (JumpOp.apply src1 (.ofWord pc) (.ofWord (pc + 4)) (.ofWord imm) flags) >>=
        fun diffs => finishRow diffs (.ofWord (pc + 4))).Yields result ↔
      ((jumpBase flags x pc + imm) &&& ~~~0x1).toNat % 4 = 0 ∧
        (.ofWord (pc + 4), .ofWord ((jumpBase flags x pc + imm) &&& ~~~0x1)) = result := by
    apply yields_parsed machine.u16GetSignAndHighByte
    intro src1 holds1 _
    simp only [yields_bind, yields_jumpOp machine holds1 executing, and_assoc, exists_and_left,
      exists_eq_left']
    exact and_congr_right fun _ => yields_finishRow (_, _) (_, _) (pc + 4) result
  rw [← row, jumpCircuit, yields_bind]
  simp [yields_calculatePcNextNoOverflows]

variable {opcode funct3 funct7 : ℕ} {format : InstructionType}
  {major : DecoderMajorInstructionFamilyKey} {minors : List DecoderInstructionVariantsKey}

def jumpTarget (opcode : ℕ) (x pc imm : BitVec 32) : BitVec 32 :=
  if opcode = operationJal then pc + imm else (x + imm) &&& ~~~0x1

theorem jump_declared
    (supported : JumpOp.defineDecoderSubspace opcode funct3 funct7 = some (format, major, minors)) :
    major = .jumpCommon ∧ (opcode = operationJal ∧ minors = [.jal] ∨
      opcode ≠ operationJal ∧ minors = []) := by
  unfold JumpOp.defineDecoderSubspace at supported
  split_ifs at supported with jal jalr
  · cases supported
    exact ⟨rfl, Or.inl ⟨jal, rfl⟩⟩
  · cases supported
    exact ⟨rfl, Or.inr ⟨jal, rfl⟩⟩

theorem jumpBase_target
    (declared : opcode = operationJal ∧ minors = [.jal] ∨ opcode ≠ operationJal ∧ minors = [])
    (decoded : flags.Selects .jumpCommon minors) (aligned : pc.toNat % 4 = 0)
    (even : opcode = operationJal → imm.toNat % 2 = 0) :
    (jumpBase flags x pc + imm) &&& ~~~0x1 = jumpTarget opcode x pc imm := by
  rcases declared with ⟨jal, rfl⟩ | ⟨jalr, rfl⟩
  · have base : jumpBase flags x pc = pc := by simp [jumpBase, decoded.minor_iff]
    have sumEven : (pc + imm).toNat % 2 = 0 := by
      have := even jal
      rw [BitVec.toNat_add]
      omega
    rw [base, and_not_one_of_even sumEven, jumpTarget, if_pos jal]
  · have base : jumpBase flags x pc = x := by simp [jumpBase, decoded.minor_iff]
    rw [base, jumpTarget, if_neg jalr]

include machine in
/-- Every satisfying assignment of a row that executes a jump writes `pc + 4` and continues at the
target, which is a multiple of 4; and `pc + 4` is all that the computation of the default next
address yields. -/
theorem jumpRow_spec
    (supported : JumpOp.defineDecoderSubspace opcode funct3 funct7 = some (format, major, minors))
    (decoded : flags.Selects major minors) (x pc imm : BitVec 32) (aligned : pc.toNat % 4 = 0)
    (even : opcode = operationJal → imm.toNat % 2 = 0) :
    (∀ (assignment : List F) (rd nextPc : Register),
      (jumpCircuit tables flags (.ofWord x) (.ofWord pc) (.ofWord imm)).run assignment =
        some ((rd, nextPc), []) →
      rd = .ofWord (pc + 4) ∧ nextPc = .ofWord (jumpTarget opcode x pc imm) ∧
        (jumpTarget opcode x pc imm).toNat % 4 = 0) ∧
    (pc.toNat + 4 < 2 ^ 32 → (jumpTarget opcode x pc imm).toNat % 4 = 0 →
      ∃ assignment : List F,
        (jumpCircuit tables flags (.ofWord x) (.ofWord pc) (.ofWord imm)).run assignment =
          some ((.ofWord (pc + 4), .ofWord (jumpTarget opcode x pc imm)), [])) ∧
    ∀ (pc : BitVec 32) (assignment : List F) (pcNext : Register),
      (calculatePcNextNoOverflows (.ofWord pc)).run assignment = some (pcNext, []) →
        pcNext = .ofWord (pc + 4) := by
  obtain ⟨rfl, declared⟩ := jump_declared supported
  have yields := @yields_jumpCircuit _ _ _ machine x pc imm flags (decoded.major_iff _)
  rw [jumpBase_target declared decoded aligned even] at yields
  refine ⟨?_, ?_, ?_⟩
  · intro assignment rd nextPc accepted
    obtain ⟨_, multiple, same⟩ := (yields _).mp ((yields_iff_run _ _).mpr ⟨assignment, accepted⟩)
    rw [Prod.mk.injEq] at same
    exact ⟨same.1.symm, same.2.symm, multiple⟩
  · intro fits multiple
    exact (yields_iff_run _ _).mp ((yields _).mpr ⟨fits, multiple, rfl⟩)
  · intro pc assignment pcNext accepted
    have yielded := (yields_iff_run _ pcNext).mpr ⟨assignment, accepted⟩
    exact ((yields_calculatePcNextNoOverflows pc pcNext).mp yielded).2.symm

end

def jalFlags : BooleanSet where
  majorFlag key := decide (key = .jumpCommon)
  minorFlag _ minor := decide (minor = .jal)

theorem jalFlags_selects : jalFlags.Selects .jumpCommon [.jal] :=
  ⟨fun _ => rfl, fun minor => by cases minor <;> rfl⟩

theorem jumpRow_backwards :
    ∃ assignment : List F,
      (jumpCircuit (machineTables 5 []) jalFlags (.ofWord 0) (.ofWord 8) (.ofWord (-4))).run
        assignment = some ((.ofWord 12, .ofWord 4), []) :=
  (jumpRow_spec (machineTables_spec 5 []) (show JumpOp.defineDecoderSubspace operationJal 0 0 =
    some (.jType, .jumpCommon, [.jal]) from rfl) jalFlags_selects 0 8 (-4) (by decide)
    (fun _ => by decide)).2.1 (by decide) (by decide)

/-- The lowest bit of an odd immediate is lost: the row continues at `pc` instead of `pc + 1`. -/
theorem jumpRow_odd_immediate :
    (∃ assignment : List F,
      (jumpCircuit (machineTables 5 []) jalFlags (.ofWord 0) (.ofWord 0) (.ofWord 1)).run
        assignment = some ((.ofWord 4, .ofWord 0), [])) ∧
      Register.ofWord 0 ≠ .ofWord (0 + 1) := by
  refine ⟨(yields_iff_run _ _).mp ?_, ?_⟩
  · exact (yields_jumpCircuit (machineTables_spec 5 []) rfl _).mpr ⟨by decide, by decide, rfl⟩
  · rw [ne_eq, Register.ofWord_inj]
    decide

end Airbender.Machine

import Airbender.Simulator.EncodingFields
import Airbender.Simulator.SubwordAccess

/-!
# The simulator executes the instruction set

A cycle performs the operation an instruction decodes to, except for encodings that the simulator
tolerates although they are no instruction of the machine.
-/

namespace Airbender.Simulator

open RiscV (MulDivInstruction)

open Function
open Option hiding guard guard_false guard_true
open BitVec hiding not_or

theorem setWidth_sshiftRight (product : BitVec 64) :
    (product.sshiftRight 32).setWidth 32 = BitVec.ofInt 32 (product.toInt / 2 ^ 32) := by
  apply eq_of_toInt_eq
  rw [← signExtend_eq_setWidth_of_le _ (by omega), toInt_signExtend,
    toInt_ofInt, toInt_sshiftRight, Int.shiftRight_eq_div_pow]
  rfl

theorem toInt_mul_of_bounds {x y : BitVec 64} (lower : -2 ^ 63 ≤ x.toInt * y.toInt)
    (upper : x.toInt * y.toInt < 2 ^ 63) : (x * y).toInt = x.toInt * y.toInt := by
  rw [toInt_mul]
  apply Int.bmod_eq_of_le
  · norm_num
    omega
  · norm_num
    omega

variable (x y : Word)

theorem toInt_signExtend_word : (x.signExtend 64).toInt = x.toInt :=
  toInt_signExtend_of_le (by omega)

theorem toInt_setWidth_word : (x.setWidth 64).toInt = (x.toNat : ℤ) := by
  have bounded := x.isLt
  rw [toInt_eq_toNat_of_lt] <;> rw [toNat_setWidth_of_le (by omega)]
  omega

theorem toInt_bounds : -2 ^ 31 ≤ x.toInt ∧ x.toInt < 2 ^ 31 :=
  ⟨x.le_toInt, x.toInt_lt⟩

theorem mulh_eq_result :
    ((x.signExtend 64 * y.signExtend 64).sshiftRight 32).setWidth 32 =
      MulDivInstruction.mulh.result x y := by
  obtain ⟨xLower, xUpper⟩ := toInt_bounds x
  obtain ⟨yLower, yUpper⟩ := toInt_bounds y
  rw [setWidth_sshiftRight, toInt_mul_of_bounds] <;>
    rw [toInt_signExtend_word, toInt_signExtend_word]
  · rfl
  · nlinarith
  · nlinarith

theorem mulhsu_eq_result :
    ((x.signExtend 64 * y.setWidth 64).sshiftRight 32).setWidth 32 =
      MulDivInstruction.mulhsu.result x y := by
  obtain ⟨xLower, xUpper⟩ := toInt_bounds x
  have yUpper : (y.toNat : ℤ) < 2 ^ 32 := by exact_mod_cast y.isLt
  have yLower : 0 ≤ (y.toNat : ℤ) := by positivity
  rw [setWidth_sshiftRight, toInt_mul_of_bounds] <;>
    rw [toInt_signExtend_word, toInt_setWidth_word]
  · rfl
  · nlinarith
  · nlinarith

theorem mulhu_eq_result :
    ((x.setWidth 64 * y.setWidth 64) >>> 32).setWidth 32 =
      MulDivInstruction.mulhu.result x y := by
  have bounded : x.toNat * y.toNat < 2 ^ 64 := by
    have product := Nat.mul_lt_mul'' x.isLt y.isLt
    omega
  apply eq_of_toNat_eq
  rw [toNat_setWidth, toNat_ushiftRight, toNat_mul,
    toNat_setWidth_of_le (by omega), toNat_setWidth_of_le (by omega),
    Nat.mod_eq_of_lt bounded, Nat.shiftRight_eq_div_pow]
  rfl

theorem mul_eq_result : x * y = MulDivInstruction.mul.result x y := by
  simp [MulDivInstruction.result, ofInt_mul]

theorem div_eq_result :
    (if y = 0 then BitVec.allOnes 32
      else if x = BitVec.intMin 32 ∧ y = BitVec.allOnes 32 then x else x.sdiv y) =
      MulDivInstruction.div.result x y := by
  have quotient : x.sdiv y = BitVec.ofInt 32 (x.toInt.tdiv y.toInt) := by
    apply eq_of_toInt_eq
    rw [toInt_sdiv, toInt_ofInt]
  rw [quotient]
  unfold MulDivInstruction.result
  split_ifs with zero overflow
  · rfl
  · exact overflow.1
  · rfl

theorem rem_eq_result :
    (if y = 0 then x
      else if x = BitVec.intMin 32 ∧ y = BitVec.allOnes 32 then 0 else x.srem y) =
      MulDivInstruction.rem.result x y := by
  have remainder : x.srem y = BitVec.ofInt 32 (x.toInt.tmod y.toInt) := by
    rw [← toInt_srem, ofInt_toInt]
  rw [remainder]
  rfl

theorem divu_eq_result :
    (if y = 0 then 0xffffffff else x / y) = MulDivInstruction.divu.result x y := by
  have quotient : x / y = BitVec.ofNat 32 (x.toNat / y.toNat) := by
    apply eq_of_toNat_eq
    have bounded : x.toNat / y.toNat < 2 ^ 32 := (Nat.div_le_self _ _).trans_lt x.isLt
    rw [toNat_udiv, toNat_ofNat, Nat.mod_eq_of_lt bounded]
  rw [quotient]
  rfl

theorem remu_eq_result : (if y = 0 then x else x % y) = MulDivInstruction.remu.result x y := by
  have remainder : x % y = BitVec.ofNat 32 (x.toNat % y.toNat) := by
    apply eq_of_toNat_eq
    have bounded : x.toNat % y.toNat < 2 ^ 32 := (Nat.mod_le _ _).trans_lt x.isLt
    rw [toNat_umod, toNat_ofNat, Nat.mod_eq_of_lt bounded]
  rw [remainder]
  rfl

namespace Unrolled

def supported (config : MachineConfig) (operation : Operation) (value : Word) : Option Word :=
  if config.supports operation then some value else none

theorem mulDivValue_eq (config : MachineConfig) (funct3 : BitVec 3) (x y : Word) :
    mulDivValue config funct3 x y =
      supported config (.mulDiv (mulDivOfFunct3 funct3))
        ((mulDivOfFunct3 funct3).result x y) := by
  rcases eq_of_bitVec_three funct3 with rfl | rfl | rfl | rfl | rfl | rfl | rfl | rfl <;>
    simp only [mulDivValue, mul_eq_result, mulh_eq_result, mulhsu_eq_result, mulhu_eq_result,
      div_eq_result, divu_eq_result, rem_eq_result, remu_eq_result] <;>
    rfl

theorem opImmValue_eq {config : MachineConfig} (noRot : config.supportRot = false)
    (funct3 : BitVec 3) (funct7 : BitVec 7) (x y : Word) :
    opImmValue config funct3 funct7 x y =
      (AluOperation.ofImmediateFields funct3 funct7).bind fun operation =>
        supported config (.aluImmediate operation) (operation.result x y) := by
  rcases eq_of_bitVec_three funct3 with rfl | rfl | rfl | rfl | rfl | rfl | rfl | rfl
  case inr.inl =>
    by_cases zero : funct7 = 0#7
    · subst zero
      rfl
    · simp [opImmValue, AluOperation.ofImmediateFields, AluOperation.ofShiftFields, sllFunct7, zero]
  case inr.inr.inr.inr.inr.inl =>
    by_cases zero : funct7 = 0#7
    · subst zero
      rfl
    by_cases sra : funct7 = 0b0100000#7
    · subst sra
      rfl
    · simp [opImmValue, AluOperation.ofImmediateFields, AluOperation.ofShiftFields, srlFunct7,
        sraFunct7, zero, sra, noRot]
  all_goals rfl

theorem basicValue_eq {config : MachineConfig} (noRot : config.supportRot = false)
    {funct3 : BitVec 3} {funct7 : BitVec 7} (notMul : funct7 ≠ mExtFunct7)
    (strict : ¬ looseFunct7 funct3 funct7) (x y : Word) :
    basicValue config funct3 funct7 x y =
      (AluOperation.ofRegisterFields funct3 funct7).bind fun operation =>
        supported config (.alu operation) (operation.result x y) := by
  by_cases zero : funct7 = 0#7
  · subst zero
    rcases eq_of_bitVec_three funct3 with rfl | rfl | rfl | rfl | rfl | rfl | rfl | rfl <;> rfl
  by_cases thirtyTwo : funct7 = 0b0100000#7
  · subst thirtyTwo
    rcases eq_of_bitVec_three funct3 with rfl | rfl | rfl | rfl | rfl | rfl | rfl | rfl <;>
      first
      | rfl
      | exact absurd (by decide) strict
  · rcases eq_of_bitVec_three funct3 with rfl | rfl | rfl | rfl | rfl | rfl | rfl | rfl
    case inl => simp [basicValue, AluOperation.ofRegisterFields, subFunct7, zero, thirtyTwo]
    case inr.inl => simp [basicValue, AluOperation.ofRegisterFields, AluOperation.ofShiftFields,
      sllFunct7, zero, noRot]
    case inr.inr.inr.inr.inr.inl => simp [basicValue, AluOperation.ofRegisterFields,
      AluOperation.ofShiftFields, srlFunct7, sraFunct7, zero, thirtyTwo, noRot]
    all_goals exact absurd ⟨zero, notMul, by decide, by decide, by decide⟩ strict

theorem shouldJump_eq (funct3 : BitVec 3) (x y : Word) :
    shouldJump funct3 x y = (BranchCondition.ofFunct3 funct3).map fun condition =>
      condition.holds x y := by
  rcases eq_of_bitVec_three funct3 with rfl | rfl | rfl | rfl | rfl | rfl | rfl | rfl <;> rfl

section

variable {M S : Type} {config : MachineConfig} {instr : Word}

theorem map_jump (progress : Progress M S) (target : Word) :
    (progress.jump target).map Progress.machine = Operation.jumpTo progress.machine target := by
  unfold Progress.jump Operation.jumpTo
  simp only [and_three_eq_zero_iff]
  by_cases aligned : 4 ∣ target.toNat
  · simp only [aligned, guard_true]
    rfl
  · simp only [aligned, guard_false]
    rfl

theorem map_jump_writeRd (progress : Progress M S) (target : Word) (rd : BitVec 5) (value : Word) :
    ((progress.jump target).map fun jumped => (jumped.writeRd rd value).machine) =
      (Operation.jumpTo progress.machine target).map fun jumped => jumped.setRegister rd value := by
  rw [← map_jump, map_map]
  rfl

theorem map_writeRd_supported (operation : Operation) (value : Word) (progress : Progress M S)
    (rd : BitVec 5) :
    ((supported config operation value).map (progress.writeRd rd)).map Progress.machine = (do
      guard (config.supports operation)
      some (progress.machine.setRegister rd value)) := by
  by_cases supports : config.supports operation = true
  · simp only [supported, supports, if_true, guard_true]
    rfl
  · simp only [supported, supports]
    rfl

theorem mop_eq {operation : ModularOperation}
    (known : ModularOperation.ofFunct7 (funct7Bits instr) = some operation)
    (mops : config.supportMops = true) (rs1Value rs2Value : Word) (progress : Progress M S) :
    mop config instr rs1Value rs2Value progress =
      some (progress.writeRd (getRdBits instr) (operation.result rs1Value rs2Value)) := by
  unfold mop
  unfold ModularOperation.ofFunct7 at known
  generalize funct7Bits instr = funct7 at *
  split_ifs at known with add sub mul <;> obtain rfl := Option.some.inj known
  · subst add
    simp only [mops]
    rfl
  · subst sub
    simp only [mops]
    rfl
  · subst mul
    simp only [mops]
    rfl

theorem map_oracleAccess [NonDeterminismCSRSource M S] (rd formalRs1 : BitVec 5) (rs1Value : Word)
    (machine : Machine M S) (events : List TraceEvent) :
    ((nonDeterminismRead rd ⟨machine, events⟩).bind fun read =>
      (nonDeterminismWrite formalRs1 rs1Value read.2).map fun written =>
        (read.1, written.machine)) =
      Operation.oracleAccess rd formalRs1 rs1Value machine := by
  unfold nonDeterminismRead nonDeterminismWrite Operation.oracleAccess oracleRead oracleWrite
  simp only [Bool.and_eq_true, beq_iff_eq, And.comm, Progress.trace, bind_eq_bind, bind_assoc,
    bind_some, Option.map_bind, comp_def, map_some]

end

section

variable {M S : Type} [MemorySource M] [NonDeterminismCSRSource M S]

def port : Port M S where
  load := MemorySource.getNoexcept
  store := MemorySource.setNoexcept
  delegate csr machine :=
    (processWrite MemorySource.getNoexcept MemorySource.setNoexcept (csr.setWidth 32) machine).map
      Prod.fst

def specified (config : MachineConfig) (instr : Word) (machine : Machine M S) :
    Option (Machine M S) :=
  (Operation.decode instr).bind fun operation => operation.execute port config instr machine

/-- The encodings that the simulator executes although they are not instructions of the machine:
`JALR` with another `funct3`, operations between registers with another `funct7`, and modular
operations on a machine that has none or that are none. -/
def Tolerated (config : MachineConfig) (instr : Word) : Prop :=
  Fields.opcode instr = 0b1100111 ∧ Fields.funct3 instr ≠ 0b000 ∨
    Fields.opcode instr = 0b0110011 ∧ looseFunct7 (Fields.funct3 instr) (Fields.funct7 instr) ∨
    Fields.opcode instr = 0b1110011 ∧ Fields.funct3 instr = 0b100 ∧
      ¬(config.supportMops = true ∧
        (ModularOperation.ofFunct7 (Fields.funct7 instr)).isSome = true)

section

variable {config : MachineConfig} {instr : Word} {machine : Machine M S}

theorem decode_eq (instr : Word) : Operation.decode instr =
    Operation.ofFields (getOpcodeBits instr) (funct3Bits instr) (funct7Bits instr) := rfl

theorem executed_lui (op : getOpcodeBits instr = opcodeLui) :
    executed config instr machine = specified config instr machine := by
  have decoded : Operation.decode instr = some .lui := by
    rw [decode_eq, Operation.ofFields, op]
    rfl
  rw [executed, execute_lui _ _ _ _ _ op, specified, decoded, imm_U_eq]
  rfl

theorem executed_auipc (op : getOpcodeBits instr = opcodeAuipc) :
    executed config instr machine = specified config instr machine := by
  have decoded : Operation.decode instr = some .auipc := by
    rw [decode_eq, Operation.ofFields, op]
    rfl
  rw [executed, execute_auipc _ _ _ _ _ op, specified, decoded, imm_U_eq]
  rfl

theorem executed_jal (op : getOpcodeBits instr = opcodeJal) :
    executed config instr machine = specified config instr machine := by
  have decoded : Operation.decode instr = some .jal := by
    rw [decode_eq, Operation.ofFields, op]
    rfl
  rw [executed, execute_jal _ _ _ _ _ op, specified, decoded, map_map, comp_def,
    map_jump_writeRd, signExtend_immediateJ, map_eq_bind]
  rfl

theorem executed_jalr (op : getOpcodeBits instr = opcodeJalr) (funct3 : funct3Bits instr = 0b000) :
    executed config instr machine = specified config instr machine := by
  have decoded : Operation.decode instr = some .jalr := by
    simp [decode_eq, Operation.ofFields, op, opcodeJalr, funct3]
  rw [executed, execute_jalr _ _ _ _ _ op, specified, decoded, map_map, comp_def,
    map_jump_writeRd, signExtend_immediateI, map_eq_bind]
  rfl

theorem executed_branch (op : getOpcodeBits instr = opcodeBranch) :
    executed config instr machine = specified config instr machine := by
  have decoded : Operation.decode instr =
      (BranchCondition.ofFunct3 (funct3Bits instr)).map .branch := by
    rw [decode_eq, Operation.ofFields, op]
    rfl
  have notLoad : getOpcodeBits instr ≠ opcodeLoad := by rw [op]; decide
  rw [executed, execute_branch _ _ _ _ _ op, specified, decoded, shouldJump_eq,
    rs2Operand_of_ne notLoad]
  cases BranchCondition.ofFunct3 (funct3Bits instr) with
  | none => rfl
  | some condition =>
    have performed : (Operation.branch condition).execute port config instr machine =
        if condition.holds (machine.registers (getFormalRs1Bits instr))
            (machine.registers (getFormalRs2Bits instr)) then
          Operation.jumpTo machine (machine.pc + signExtend (BTypeOpcode.imm instr) 13)
        else some { machine with pc := machine.pc + 4 } := by
      rw [signExtend_immediateB]
      rfl
    simp only [map_some, bind_some, Progress.jumpIf, performed]
    by_cases taken : condition.holds (machine.registers (getFormalRs1Bits instr))
        (machine.registers (getFormalRs2Bits instr))
    · rw [if_pos taken, if_pos taken, map_map]
      exact map_jump _ _
    · rw [if_neg taken, if_neg taken]
      rfl

theorem executed_opImm (noRot : config.supportRot = false)
    (op : getOpcodeBits instr = opImmSubmask) :
    executed config instr machine = specified config instr machine := by
  have decoded : Operation.decode instr =
      (AluOperation.ofImmediateFields (funct3Bits instr) (funct7Bits instr)).map
        .aluImmediate := by
    rw [decode_eq, Operation.ofFields, op]
    rfl
  rw [executed, execute_opImm _ _ _ _ _ op, specified, decoded, opImmValue_eq noRot,
    signExtend_immediateI]
  cases AluOperation.ofImmediateFields (funct3Bits instr) (funct7Bits instr) with
  | none => rfl
  | some operation =>
    rw [map_some, bind_some, bind_some, map_writeRd_supported]
    rfl

theorem executed_op (noRot : config.supportRot = false) (op : getOpcodeBits instr = opSubmask)
    (strict : ¬ looseFunct7 (funct3Bits instr) (funct7Bits instr)) :
    executed config instr machine = specified config instr machine := by
  have decoded : Operation.decode instr =
      if funct7Bits instr = mExtFunct7 then some (.mulDiv (mulDivOfFunct3 (funct3Bits instr)))
      else (AluOperation.ofRegisterFields (funct3Bits instr) (funct7Bits instr)).map .alu := by
    rw [decode_eq, Operation.ofFields, op]
    rfl
  have notLoad : getOpcodeBits instr ≠ opcodeLoad := by rw [op]; decide
  rw [executed, execute_op _ _ _ _ _ op, specified, decoded, rs2Operand_of_ne notLoad, opValue]
  by_cases mul : funct7Bits instr = mExtFunct7
  · rw [if_pos mul, if_pos mul, mulDivValue_eq, bind_some, map_writeRd_supported]
    rfl
  · rw [if_neg mul, if_neg mul, basicValue_eq noRot mul strict]
    cases AluOperation.ofRegisterFields (funct3Bits instr) (funct7Bits instr) with
    | none => rfl
    | some operation =>
      rw [map_some, bind_some, bind_some, map_writeRd_supported]
      rfl

theorem sub_mod_four (address : ℕ) : address - address % 4 = address / 4 * 4 := by omega

theorem accessIsSupported_eq (address : Word) {bytes : ℕ}
    (width : bytes = 1 ∨ bytes = 2 ∨ bytes = 4) :
    accessIsSupported config (address.toNat % 4) bytes =
      Operation.accessAllowed config address bytes := by
  unfold accessIsSupported Operation.accessAllowed
  rw [Bool.eq_iff_iff]
  split_ifs with subword
  · simp only [subword, or_true, and_true, List.mem_cons, List.not_mem_nil, or_false,
      Prod.mk.injEq, decide_eq_true_eq]
    rcases width with rfl | rfl | rfl <;> omega
  · simp only [subword, or_false, beq_iff_eq, Prod.mk.injEq, decide_eq_true_eq, Bool.false_eq_true]
    rcases width with rfl | rfl | rfl <;> omega

theorem loadKind_width (kind : LoadKind) :
    kind.bytes = 1 ∨ kind.bytes = 2 ∨ kind.bytes = 4 := by
  cases kind <;> simp [LoadKind.bytes]

theorem storeKind_width (kind : StoreKind) :
    kind.bytes = 1 ∨ kind.bytes = 2 ∨ kind.bytes = 4 := by
  cases kind <;> simp [StoreKind.bytes]

/-- The extension drops what the mask would have cleared. -/
theorem extend_loadedPart {kind : LoadKind} {unalignment : ℕ}
    (supported : accessIsSupported config unalignment kind.bytes) (word : Word) :
    kind.extend (loadedPart config unalignment kind.bytes word) =
      kind.extend (word >>> (8 * unalignment)) := by
  have part : loadedPart config unalignment kind.bytes word =
      (word >>> (8 * unalignment)) &&& bytesMask kind.bytes := loadedPart_eq supported word
  rw [part]
  generalize word >>> (8 * unalignment) = value
  have masked {width : ℕ} (mask : Word) (ones : mask.setWidth width = allOnes width) :
      (value &&& mask).setWidth width = value.setWidth width := by
    rw [setWidth_and, ones, and_allOnes]
  cases kind with
  | lb => exact congrArg (BitVec.signExtend 32) (masked _ (by decide))
  | lh => exact congrArg (BitVec.signExtend 32) (masked _ (by decide))
  | lw => exact and_allOnes
  | lbu => exact congrArg (BitVec.setWidth 32) (masked _ (by decide))
  | lhu => exact congrArg (BitVec.setWidth 32) (masked _ (by decide))

theorem storedWord_eq {unalignment numBytes : ℕ}
    (supported : accessIsSupported config unalignment numBytes) (old value : Word) :
    storedWord config unalignment numBytes old value =
      Operation.replaceBytes old value unalignment numBytes := by
  apply WordBytes.eq_of_byteAt_eq
  intro index inside
  rw [byteAt_storedWord supported _ _ inside, Operation.replaceBytes,
    WordBytes.byteAt_ofBytes _ inside]

theorem loadBytes_eq (funct3 : BitVec 3) :
    loadBytes funct3 = (LoadKind.ofFunct3 funct3).map LoadKind.bytes := by
  rcases eq_of_bitVec_three funct3 with rfl | rfl | rfl | rfl | rfl | rfl | rfl | rfl <;> rfl

theorem loadedValue_eq {funct3 : BitVec 3} {kind : LoadKind}
    (known : LoadKind.ofFunct3 funct3 = some kind) (value : Word) :
    loadedValue config funct3 value = supported config (.load kind) (kind.extend value) := by
  rw [LoadKind.extend_eq]
  rcases eq_of_bitVec_three funct3 with rfl | rfl | rfl | rfl | rfl | rfl | rfl | rfl <;>
    first
    | (obtain rfl := Option.some.inj known; rfl)
    | exact absurd known (by simp [LoadKind.ofFunct3])

theorem executed_load (op : getOpcodeBits instr = opcodeLoad) :
    executed config instr machine = specified config instr machine := by
  have decoded : Operation.decode instr = (LoadKind.ofFunct3 (funct3Bits instr)).map .load := by
    rw [decode_eq, Operation.ofFields, op]
    rfl
  rw [executed, execute_load _ _ _ _ _ op, specified, decoded]
  unfold load
  rw [loadBytes_eq]
  cases known : LoadKind.ofFunct3 (funct3Bits instr) with
  | none => rfl
  | some kind =>
    simp only [map_some, bind_some, bind_eq_bind, loadedValue_eq known,
      memRead_eq, Operation.execute, supported]
    by_cases supports : config.supports (.load kind) = true
    · simp only [supports, if_true, guard_true, bind_some, bind_assoc,
        Option.map_bind, comp_def, map_some, pure_def, signExtend_immediateI, sub_mod_four]
      rw [← getFormalRs1Bits_eq, ← accessIsSupported_eq _ (loadKind_width kind)]
      by_cases allowed : accessIsSupported config ((machine.registers (getFormalRs1Bits instr) +
          Fields.immediateI instr).toNat % 4) kind.bytes = true
      · simp only [allowed, guard_true, pure_def, bind_some, extend_loadedPart allowed]
        rfl
      · simp only [allowed]
        rfl
    · simp [supports, guard_false]

theorem storeBytes_eq (funct3 : BitVec 3) :
    storeBytes funct3 = (StoreKind.ofFunct3 funct3).map StoreKind.bytes := by
  rcases eq_of_bitVec_three funct3 with rfl | rfl | rfl | rfl | rfl | rfl | rfl | rfl <;> rfl

theorem executed_store (op : getOpcodeBits instr = opcodeStore) :
    executed config instr machine = specified config instr machine := by
  have decoded : Operation.decode instr = (StoreKind.ofFunct3 (funct3Bits instr)).map .store := by
    rw [decode_eq, Operation.ofFields, op]
    rfl
  have notLoad : getOpcodeBits instr ≠ opcodeLoad := by rw [op]; decide
  rw [executed, execute_store _ _ _ _ _ op, specified, decoded, rs2Operand_of_ne notLoad]
  unfold store
  rw [storeBytes_eq]
  cases StoreKind.ofFunct3 (funct3Bits instr) with
  | none => rfl
  | some kind =>
    simp only [map_some, bind_some, bind_eq_bind, memWrite_eq,
      Operation.execute, MachineConfig.supports, guard_true, bind_assoc, Option.map_bind,
      comp_def, pure_def, signExtend_immediateS, sub_mod_four]
    rw [← getFormalRs1Bits_eq, ← accessIsSupported_eq _ (storeKind_width kind)]
    by_cases allowed : accessIsSupported config ((machine.registers (getFormalRs1Bits instr) +
        Fields.immediateS instr).toNat % 4) kind.bytes = true
    · simp only [allowed, guard_true, pure_def, bind_some, storedWord_eq allowed]
      rfl
    · simp only [allowed]
      rfl

theorem decode_system (op : getOpcodeBits instr = opcodeSystem) :
    Operation.decode instr =
      if funct3Bits instr = 0b000 ∧ funct7Bits instr = 0 then some .environment
      else if funct3Bits instr = 0b001 then some .csrrw
      else if funct3Bits instr = 0b100 then
        (ModularOperation.ofFunct7 (funct7Bits instr)).map .modular
      else none := by
  rw [decode_eq, Operation.ofFields, op]
  rfl

variable (instr) in
theorem map_csrAccess (rs1Value : Word) (machine : Machine M S) (events : List TraceEvent) :
    ((csrRead (ITypeOpcode.imm instr) (getRdBits instr) ⟨machine, events⟩).bind fun read =>
      (csrWrite (ITypeOpcode.imm instr) (getFormalRs1Bits instr) rs1Value read.2).map
        fun written => (read.1, written.machine)) =
      Operation.csrAccess port (Fields.csr instr) (getRdBits instr) (getFormalRs1Bits instr)
        rs1Value machine := by
  have oracle : ITypeOpcode.imm instr = nonDeterminismCsr ↔ Fields.csr instr = 0x7c0 :=
    imm_I_eq_iff instr 0x7c0
  have marker : ITypeOpcode.imm instr = markerCsr ↔ Fields.csr instr = 0x7ff :=
    imm_I_eq_iff instr 0x7ff
  unfold csrRead csrWrite Operation.csrAccess
  simp only [oracle, marker]
  split_ifs
  · exact map_oracleAccess _ _ _ _ _
  · rfl
  · simp [delegate, Progress.trace, port, imm_I_eq, map_eq_bind, bind_assoc]

theorem executed_system (standard : config.supportStandardCsrs = false)
    (onlyCsrrw : config.supportOnlyCsrrw = true) (op : getOpcodeBits instr = opcodeSystem)
    (strict : funct3Bits instr = 0b100 → config.supportMops = true ∧
      (ModularOperation.ofFunct7 (funct7Bits instr)).isSome = true) :
    executed config instr machine = specified config instr machine := by
  have notLoad : getOpcodeBits instr ≠ opcodeLoad := by rw [op]; decide
  rw [executed, execute_system _ _ _ _ _ op, specified, decode_system op, rs2Operand_of_ne notLoad]
  unfold system
  by_cases modular : funct3Bits instr = 0b100
  · obtain ⟨mops, known⟩ := strict modular
    obtain ⟨operation, known⟩ := isSome_iff_exists.mp known
    have notEnvironment : ¬(funct3Bits instr = 0b000 ∧ funct7Bits instr = 0) := by
      rw [modular]
      exact fun both => absurd both.1 (by decide)
    rw [if_pos modular, if_pos modular, mop_eq known mops, known, if_neg notEnvironment,
      if_neg (by rw [modular]; decide)]
    simp only [map_some, bind_some, Operation.execute, MachineConfig.supports, mops,
      guard_true]
    rfl
  rw [if_neg modular, if_neg modular]
  by_cases csrrw : funct3Bits instr = 0b001
  · have notEnvironment : ¬(funct3Bits instr = 0b000 ∧ funct7Bits instr = 0) := by
      rw [csrrw]
      exact fun both => absurd both.1 (by decide)
    rw [if_pos (by rw [csrrw]; decide), if_neg notEnvironment, if_pos csrrw,
      csrAccess_csrrw standard onlyCsrrw csrrw]
    have accesses := map_csrAccess instr (machine.registers (getFormalRs1Bits instr))
      (readOperands instr machine).machine (readOperands instr machine).events
    have written := congrArg
      (Option.map fun access : Word × Machine M S =>
        access.2.setRegister (getRdBits instr) access.1)
      accesses
    simp only [Option.map_bind, map_map, comp_def] at written ⊢
    refine written.trans ?_
    rw [map_eq_bind]
    rfl
  · rw [if_neg csrrw]
    rw [csrAccess_of_not_csrrw csrrw, ite_self]
    split_ifs <;> rfl

/-- The simulator does what the instruction set says, for every encoding that it does not merely
tolerate. -/
theorem executed_eq_specified (known : config ∈ machineConfigs)
    (strict : ¬ Tolerated config instr) :
    executed config instr machine = specified config instr machine := by
  obtain ⟨noRot, standard, onlyCsrrw⟩ := machineConfigs_common known
  by_cases executable : getOpcodeBits instr ∈ executableOpcodes
  · simp only [executableOpcodes, List.mem_cons, List.not_mem_nil, or_false] at executable
    rcases executable with op | op | op | op | op | op | op | op | op | op
    · exact executed_lui op
    · exact executed_auipc op
    · exact executed_jal op
    · exact executed_jalr op (by
        by_contra other
        exact strict (.inl ⟨op, other⟩))
    · exact executed_branch op
    · exact executed_opImm noRot op
    · exact executed_op noRot op fun loose => strict (.inr (.inl ⟨op, loose⟩))
    · exact executed_load op
    · exact executed_store op
    · exact executed_system standard onlyCsrrw op fun funct3 => by
        by_contra other
        exact strict (.inr (.inr ⟨op, funct3, other⟩))
  · rw [executed, execute_unknown _ _ _ _ _ executable, specified, decode_eq]
    simp only [executableOpcodes, opcodeLui, opcodeAuipc, opcodeJal, opcodeJalr, opcodeBranch,
      opcodeLoad, opcodeStore, opImmSubmask, opSubmask, opcodeSystem, List.mem_cons,
      List.not_mem_nil, or_false, not_or] at executable
    simp only [Operation.ofFields, executable, if_false]
    split_ifs <;> rfl

end

end

end Unrolled

end Airbender.Simulator

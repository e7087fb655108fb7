import Airbender.Simulator.Completion

/-!
# Agreement of the simulators

Whatever a cycle of the reference simulator completes the simulator of the prover completes with the
same result, but not the other way around: the former checks more.
-/

namespace Airbender.Simulator

open Unrolled (Progress)

open Option Function
open BitVec hiding not_or

section

variable {ε α β : Type}

@[simp] theorem toOption_ok (value : α) : (Except.ok value : Except ε α).toOption = some value :=
  rfl

@[simp] theorem toOption_error (error : ε) : (Except.error error : Except ε α).toOption = none :=
  rfl

@[simp] theorem toOption_pure (value : α) : (pure value : Except ε α).toOption = some value := rfl

@[simp] theorem toOption_bind (first : Except ε α) (next : α → Except ε β) :
    (first >>= next).toOption = first.toOption.bind fun value => (next value).toOption := by
  cases first <;> rfl

theorem toOption_ite {condition : Prop} [Decidable condition] (first second : Except ε α) :
    (if condition then first else second).toOption =
      if condition then first.toOption else second.toOption :=
  apply_ite Except.toOption condition first second

end

theorem toOption_mulDivValue (config : MachineConfig) (funct3 : BitVec 3) (x y : Word) :
    (Reference.mulDivValue config funct3 x y).toOption =
      Unrolled.mulDivValue config funct3 x y := by
  unfold Reference.mulDivValue Unrolled.mulDivValue
  simp only [toOption_ite, toOption_ok, toOption_error]

variable (funct3 : BitVec 3)

theorem toOption_shouldJump (x y : Word) :
    (Reference.shouldJump funct3 x y).toOption = Unrolled.shouldJump funct3 x y := by
  unfold Reference.shouldJump Unrolled.shouldJump
  simp only [toOption_ite, toOption_ok, toOption_error]

theorem toOption_loadBytes : (Reference.loadBytes funct3).toOption = Unrolled.loadBytes funct3 := by
  unfold Reference.loadBytes Unrolled.loadBytes
  simp only [toOption_ite, toOption_ok, toOption_error]

theorem toOption_loadedValue (config : MachineConfig) (funct3 : BitVec 3) (value : Word) :
    (Reference.loadedValue config funct3 value).toOption =
      Unrolled.loadedValue config funct3 value := by
  unfold Reference.loadedValue Unrolled.loadedValue
  simp only [toOption_ite, toOption_ok, toOption_error]

theorem toOption_storeBytes :
    (Reference.storeBytes funct3).toOption = Unrolled.storeBytes funct3 := by
  unfold Reference.storeBytes Unrolled.storeBytes
  simp only [toOption_ite, toOption_ok, toOption_error]

theorem and_mask_eq_funct7 (instr mask : Word) (high : ∀ index < 25, mask.getLsbD index = false) :
    instr &&& mask = ((funct7Bits instr).setWidth 32 <<< 25) &&& mask := by
  apply eq_of_getLsbD_eq
  intro index bound
  by_cases low : index < 25
  · simp [getLsbD_and, high index low]
  · have split : 25 + (index - 25) = index := by omega
    have inField : index - 25 < 7 := by omega
    simp [funct7Bits, low, bound, split, inField]

theorem isRType_eq (instr : Word) : instr.getLsbD 5 = (getOpcodeBits instr).getLsbD 5 := by
  simp [getOpcodeBits]

variable {config : MachineConfig} {instr : Word}

theorem toOption_arithmetic_opImm (noRot : config.supportRot = false)
    (op : getOpcodeBits instr = opImmSubmask) (rs1 rs2 : Word) :
    (Reference.arithmetic config instr rs1 rs2).toOption =
      Unrolled.opImmValue config (funct3Bits instr) (funct7Bits instr) rs1
        (signExtend (ITypeOpcode.imm instr) 12) := by
  have notRType : instr.getLsbD 5 = false := by
    rw [isRType_eq, op]
    rfl
  unfold Reference.arithmetic Reference.basicValue
  simp only [notRType, Reference.rotateMask, and_mask_eq_funct7 instr 0x40000000 (by decide),
    and_mask_eq_funct7 instr 0x60000000 (by decide)]
  generalize funct7Bits instr = funct7
  rcases eq_of_bitVec_three (funct3Bits instr) with
    funct3 | funct3 | funct3 | funct3 | funct3 | funct3 | funct3 | funct3 <;>
    simp only [funct3]
  case inr.inl =>
    by_cases zero : funct7 = 0#7
    · subst zero
      simp [Reference.validEncoding, Unrolled.opImmValue, sllFunct7]
    · by_cases rot : funct7 = 0b0110000#7
      · subst rot
        simp [Reference.validEncoding, Unrolled.opImmValue, sllFunct7, noRot]
      · simp [Reference.validEncoding, Unrolled.opImmValue, sllFunct7, zero, rot]
  case inr.inr.inr.inr.inr.inl =>
    by_cases zero : funct7 = 0#7
    · subst zero
      simp [Reference.validEncoding, Unrolled.opImmValue, srlFunct7]
    · by_cases sra : funct7 = 0b0100000#7
      · subst sra
        simp [Reference.validEncoding, Unrolled.opImmValue, srlFunct7, sraFunct7, toOption_ite]
      · by_cases rot : funct7 = 0b0110000#7
        · subst rot
          simp [Reference.validEncoding, Unrolled.opImmValue, srlFunct7, sraFunct7, rotFunct7,
            noRot]
        · simp [Reference.validEncoding, Unrolled.opImmValue, srlFunct7, sraFunct7, rotFunct7,
            zero, sra, rot]
  all_goals simp [Reference.validEncoding, Unrolled.opImmValue]

theorem isRType_of_opSubmask (op : getOpcodeBits instr = opSubmask) : instr.getLsbD 5 = true := by
  rw [isRType_eq, op]
  rfl

theorem toOption_arithmetic_op (noRot : config.supportRot = false)
    (op : getOpcodeBits instr = opSubmask)
    (strict : ¬looseFunct7 (funct3Bits instr) (funct7Bits instr)) (rs1 rs2 : Word) :
    (Reference.arithmetic config instr rs1 rs2).toOption =
      Unrolled.opValue config (funct3Bits instr) (funct7Bits instr) rs1 rs2 := by
  unfold Reference.arithmetic Unrolled.opValue
  simp only [isRType_of_opSubmask op, true_and, if_true]
  by_cases mExt : funct7Bits instr = mExtFunct7
  · have one : funct7Bits instr = 1 := mExt
    rw [if_pos one, if_pos mExt]
    exact toOption_mulDivValue config _ rs1 rs2
  have notOne : ¬funct7Bits instr = 1 := mExt
  rw [if_neg notOne, if_neg mExt]
  unfold Reference.basicValue looseFunct7 at *
  simp only [Reference.rotateMask, and_mask_eq_funct7 instr 0x40000000 (by decide),
    and_mask_eq_funct7 instr 0x60000000 (by decide), mExtFunct7] at *
  generalize funct7Bits instr = funct7 at *
  rcases eq_of_bitVec_three (funct3Bits instr) with
    funct3 | funct3 | funct3 | funct3 | funct3 | funct3 | funct3 | funct3 <;>
    simp only [funct3] at *
  case inl =>
    by_cases zero : funct7 = 0#7
    · subst zero
      simp [Reference.validEncoding, Unrolled.basicValue]
    · by_cases sub : funct7 = 0b0100000#7
      · subst sub
        simp [Reference.validEncoding, Unrolled.basicValue, subFunct7]
      · simp [Reference.validEncoding, Unrolled.basicValue, subFunct7, zero, sub]
  case inr.inl =>
    by_cases zero : funct7 = 0#7
    · subst zero
      simp [Reference.validEncoding, Unrolled.basicValue, sllFunct7]
    · simp [Reference.validEncoding, Unrolled.basicValue, sllFunct7, zero, noRot]
  case inr.inr.inr.inr.inr.inl =>
    by_cases zero : funct7 = 0#7
    · subst zero
      simp [Reference.validEncoding, Unrolled.basicValue, srlFunct7]
    · by_cases sra : funct7 = 0b0100000#7
      · subst sra
        simp [Reference.validEncoding, Unrolled.basicValue, srlFunct7, sraFunct7, toOption_ite]
      · simp [Reference.validEncoding, Unrolled.basicValue, srlFunct7, sraFunct7, zero, sra, noRot]
  all_goals
    have zero : funct7 = 0#7 := by
      by_contra nonzero
      have one : funct7 = 1#7 := by simpa [nonzero] using strict
      exact mExt one
    subst zero
    simp [Reference.validEncoding, Unrolled.basicValue]

theorem arithmetic_op_strict (op : getOpcodeBits instr = opSubmask) {rs1 rs2 value : Word}
    (completed : (Reference.arithmetic config instr rs1 rs2).toOption = some value) :
    ¬looseFunct7 (funct3Bits instr) (funct7Bits instr) := by
  rintro ⟨nonzero, notMul, notAdd, notSll, notSrl⟩
  unfold Reference.arithmetic at completed
  simp only [isRType_of_opSubmask op, true_and, if_true] at completed
  have notShift : ¬(funct3Bits instr = 0 ∨ funct3Bits instr = 5) := by
    rintro (add | srl)
    · exact notAdd add
    · exact notSrl srl
  have invalid : Reference.validEncoding true (funct3Bits instr) (funct7Bits instr) = false := by
    unfold Reference.validEncoding
    rw [if_neg (by decide), if_neg notShift]
    exact beq_eq_false_iff_ne.mpr nonzero
  have notOne : ¬funct7Bits instr = 1 := notMul
  rw [if_neg notOne, invalid] at completed
  simp at completed

theorem sub_four_and_three (target : Word) : (target - 4) &&& 0x3 = target &&& 0x3 := by
  apply eq_of_toNat_eq
  have low (word : Word) : (word &&& 0x3).toNat = word.toNat % 4 := by
    rw [toNat_and]
    exact Nat.and_two_pow_sub_one_eq_mod word.toNat 2
  have four : (4 : Word).toNat = 4 := rfl
  rw [low, low, toNat_sub, four]
  omega

theorem toOption_jumpBefore (target : Word) :
    (Reference.jumpBefore (target - 4)).toOption =
      if target &&& 0x3 = 0 then some (target - 4) else none := by
  unfold Reference.jumpBefore
  rw [sub_four_and_three]
  split_ifs <;> simp_all

theorem toOption_ofPanic {α : Type} (call : Option α) :
    (Reference.ofPanic call).toOption = call := by
  cases call <;> rfl

theorem holds_of_assert {condition : Bool} {result : Unit}
    (completed : (Reference.assert condition).toOption = some result) : condition = true := by
  cases condition with
  | true => rfl
  | false => cases completed

theorem csr_privilege (csr : Word) :
    ¬Reference.Mode.machine.asRegisterValue < (getBitsAndAlignRight csr 8 2).toNat := by
  have masked : (getBitsAndAlignRight csr 8 2).toNat = (csr.toNat &&& 0x300) / 2 ^ 8 := by
    unfold getBitsAndAlignRight maskBits
    rw [toNat_ushiftRight, toNat_and, Nat.shiftRight_eq_div_pow]
    rfl
  have small : csr.toNat &&& 0x300 ≤ 0x300 := Nat.and_le_right
  rw [masked, Reference.Mode.asRegisterValue]
  omega

theorem accessIsSupported_word (unalignment : ℕ) :
    Unrolled.accessIsSupported config unalignment 4 = true ↔ unalignment = 0 := by
  unfold Unrolled.accessIsSupported
  split_ifs <;> simp

section

variable {M S : Type}

def completedCycle (effect : Reference.Effect M S) : Machine M S :=
  { effect.machine.setRegister effect.rd effect.retVal with pc := effect.pc + 4 }

variable {machine : Machine M S} {memory : M} {physAddress : ℕ} {accessType : AccessType}
  {config : MachineConfig} {count : ℕ}

theorem setRegister_zero (zero : machine.registers 0 = 0) (value : Word) :
    machine.setRegister 0 value = machine := by
  unfold Machine.setRegister
  rw [if_pos rfl, ← zero, update_eq_self]

theorem jump_eq (machine : Machine M S) (events : List Unrolled.TraceEvent) (target : Word)
    (rd : BitVec 5) (value : Word) :
    ((Progress.jump ⟨machine, events⟩ target).map fun jumped => (jumped.writeRd rd value).machine) =
      ((Reference.jumpBefore (target - 4)).toOption.map fun before =>
        completedCycle ⟨rd, value, before, machine⟩) := by
  rw [toOption_jumpBefore, Progress.jump_eq]
  split_ifs with aligned
  · simp [Progress.writeRd, completedCycle, Machine.setRegister]
  · rfl

theorem readOperands_memory :
    (Unrolled.readOperands instr machine).machine.memory = machine.memory := rfl

theorem toOption_mop (supported : config.supportMops = true ∧
      funct7Bits instr &&& Unrolled.mopFunct7Test = Unrolled.mopFunct7Test)
    (rs1 rs2 : Word) (progress : Progress M S) :
    Unrolled.mop config instr rs1 rs2 progress =
      (Reference.mop config instr rs1 rs2).toOption.map
        (progress.writeRd (getRdBits instr)) := by
  unfold Unrolled.mop Reference.mop
  simp only [if_pos supported, if_pos supported.1, if_pos supported.2]
  generalize Unrolled.mopValue _ rs1 rs2 = value
  cases value <;> rfl

variable [MemorySource M]

theorem readWord_eq_accessed (memory : M) (physAddress : ℕ) :
    Reference.readWord memory physAddress =
      accessed (MemorySource.get memory physAddress .regWrite) := by
  unfold Reference.readWord
  rcases MemorySource.get memory physAddress .regWrite with _ | ⟨value, _ | reason⟩ <;> rfl

theorem writeWord_eq_accessed (memory : M) (physAddress : ℕ) (value : Word) :
    Reference.writeWord memory physAddress value =
      accessed (MemorySource.set memory physAddress value .regWrite) := rfl

section

variable [NonDeterminismCSRSource M S] {effect : Reference.Effect M S}

def referenceOutcome (config : MachineConfig) (instr : Word) (machine : Machine M S) :
    Option (Machine M S) :=
  (Reference.execute config .machine instr machine).toOption.map completedCycle

theorem outcomes_lui (op : getOpcodeBits instr = opcodeLui) :
    Unrolled.executed config instr machine = referenceOutcome config instr machine := by
  rw [Unrolled.executed, referenceOutcome, Unrolled.execute_lui _ _ _ _ _ op,
    Reference.execute_lui _ _ _ op]
  rfl

theorem outcomes_auipc (op : getOpcodeBits instr = opcodeAuipc) :
    Unrolled.executed config instr machine = referenceOutcome config instr machine := by
  rw [Unrolled.executed, referenceOutcome, Unrolled.execute_auipc _ _ _ _ _ op,
    Reference.execute_auipc _ _ _ op]
  rfl

theorem outcomes_jal (op : getOpcodeBits instr = opcodeJal) :
    Unrolled.executed config instr machine = referenceOutcome config instr machine := by
  have before : machine.pc - 4 + signExtend (JTypeOpcode.imm instr) 21 =
      machine.pc + signExtend (JTypeOpcode.imm instr) 21 - 4 := by bv_omega
  rw [Unrolled.executed, referenceOutcome, Unrolled.execute_jal _ _ _ _ _ op,
    Reference.execute_jal _ _ _ op, map_map, before, toOption_bind]
  refine (jump_eq _ _ _ _ _).trans ?_
  cases Reference.jumpBefore (machine.pc + signExtend (JTypeOpcode.imm instr) 21 - 4) <;> rfl

theorem outcomes_jalr (op : getOpcodeBits instr = opcodeJalr) :
    Unrolled.executed config instr machine = referenceOutcome config instr machine := by
  rw [Unrolled.executed, referenceOutcome, Unrolled.execute_jalr _ _ _ _ _ op,
    Reference.execute_jalr _ _ _ op, map_map, toOption_bind]
  refine (jump_eq _ _ _ _ _).trans ?_
  generalize Reference.jumpBefore _ = jump
  cases jump <;> rfl

theorem outcomes_branch (zero : machine.registers 0 = 0) (op : getOpcodeBits instr = opcodeBranch) :
    Unrolled.executed config instr machine = referenceOutcome config instr machine := by
  rw [Unrolled.executed, referenceOutcome, Unrolled.execute_branch _ _ _ _ _ op,
    Reference.execute_branch _ _ _ op, Unrolled.rs2Operand_of_ne (by rw [op]; decide),
    toOption_bind, toOption_shouldJump]
  cases Unrolled.shouldJump (funct3Bits instr) (machine.registers (getFormalRs1Bits instr))
      (machine.registers (getFormalRs2Bits instr)) with
  | none => rfl
  | some taken =>
    cases taken with
    | false =>
      change some _ = some (completedCycle _)
      rw [completedCycle, setRegister_zero zero]
      rfl
    | true =>
      simp only [bind_some, toOption_bind, Progress.jumpIf, Reference.jumpBeforeIf,
        if_true, toOption_jumpBefore, Progress.jump_eq]
      split_ifs
      · change some _ = some (completedCycle _)
        rw [completedCycle, setRegister_zero zero, BitVec.sub_add_cancel]
        rfl
      · rfl

theorem outcomes_opImm (noRot : config.supportRot = false)
    (op : getOpcodeBits instr = opImmSubmask) :
    Unrolled.executed config instr machine = referenceOutcome config instr machine := by
  rw [Unrolled.executed, referenceOutcome, Unrolled.execute_opImm _ _ _ _ _ op,
    Reference.execute_arithmetic _ _ _ (Or.inl op), toOption_bind,
    toOption_arithmetic_opImm noRot op]
  generalize Unrolled.opImmValue _ _ _ _ _ = value
  cases value <;> rfl

theorem outcomes_op (noRot : config.supportRot = false) (op : getOpcodeBits instr = opSubmask)
    (strict : ¬looseFunct7 (funct3Bits instr) (funct7Bits instr)) :
    Unrolled.executed config instr machine = referenceOutcome config instr machine := by
  rw [Unrolled.executed, referenceOutcome, Unrolled.execute_op _ _ _ _ _ op,
    Reference.execute_arithmetic _ _ _ (Or.inr op), toOption_bind,
    toOption_arithmetic_op noRot op strict, Unrolled.rs2Operand_of_ne (by rw [op]; decide)]
  generalize Unrolled.opValue _ _ _ _ _ = value
  cases value <;> rfl

theorem outcomes_mop (op : getOpcodeBits instr = opcodeSystem) (funct3 : funct3Bits instr = 0b100)
    (supported : config.supportMops = true ∧
      funct7Bits instr &&& Unrolled.mopFunct7Test = Unrolled.mopFunct7Test) :
    Unrolled.executed config instr machine = referenceOutcome config instr machine := by
  rw [Unrolled.executed, referenceOutcome, Unrolled.execute_system _ _ _ _ _ op,
    Reference.execute_system _ _ _ op, Unrolled.rs2Operand_of_ne (by rw [op]; decide),
    Unrolled.system, Reference.system, if_pos funct3]
  simp only [funct3]
  rw [if_neg (by decide), if_neg (by decide), toOption_mop supported]
  simp only [toOption_bind]
  cases Reference.mop config instr (machine.registers (getFormalRs1Bits instr))
    (machine.registers (getFormalRs2Bits instr)) <;> rfl

theorem toOption_csrAccess_of_not_csrrw (onlyCsrrw : config.supportOnlyCsrrw = true)
    (funct3 : funct3Bits instr ≠ 0b001) (rs1 : Word) :
    (Reference.csrAccess config .machine instr rs1 machine).toOption = none := by
  unfold Reference.csrAccess Reference.csrWriteVal
  simp only [if_neg (csr_privilege _), if_neg funct3, onlyCsrrw, if_true, toOption_bind,
    toOption_error, bind_none, bind_fun_none]

theorem toOption_csrAccess_csrrw (funct3 : funct3Bits instr = 0b001) (rs1 : Word) :
    (Reference.csrAccess config .machine instr rs1 machine).toOption =
      (Reference.csrRead config (ITypeOpcode.imm instr) (getRdBits instr) machine).toOption.bind
        fun read => (Reference.csrWrite config (ITypeOpcode.imm instr) (getFormalRs1Bits instr)
          rs1 rs1 read.2).toOption.map fun written => (read.1, written) := by
  unfold Reference.csrAccess Reference.csrWriteVal
  simp only [if_neg (csr_privilege _), if_pos funct3, toOption_bind, toOption_ok, toOption_pure,
    bind_some, map_eq_bind, comp_def]

theorem funct7_checked (op : getOpcodeBits instr = opSubmask)
    (completed : (Reference.execute config .machine instr machine).toOption = some effect) :
    ¬looseFunct7 (funct3Bits instr) (funct7Bits instr) := by
  rw [Reference.execute_arithmetic _ _ _ (Or.inr op)] at completed
  simp only [toOption_bind, bind_eq_some_iff] at completed
  obtain ⟨value, computed, -⟩ := completed
  exact arithmetic_op_strict op computed

theorem mop_checked (op : getOpcodeBits instr = opcodeSystem) (funct3 : funct3Bits instr = 0b100)
    (completed : (Reference.execute config .machine instr machine).toOption = some effect) :
    config.supportMops = true ∧
      funct7Bits instr &&& Unrolled.mopFunct7Test = Unrolled.mopFunct7Test := by
  rw [Reference.execute_system _ _ _ op] at completed
  unfold Reference.system at completed
  simp only [funct3] at completed
  rw [if_neg (by decide), if_neg (by decide)] at completed
  simp only [toOption_bind, bind_eq_some_iff] at completed
  obtain ⟨-, ⟨value, computed, -⟩, -⟩ := completed
  unfold Reference.mop at computed
  simp only [toOption_ite, toOption_error] at computed
  split_ifs at computed with test supported
  exact ⟨supported, test⟩

theorem reference_cycleExt_eq (config : MachineConfig) (machine : Machine M S) :
    (Reference.cycleExt config (.running machine)).toOption.map Reference.State.machine =
      (Reference.memRead config machine.memory machine.pc.toNat 4 .instruction).toOption.bind
        fun instr => referenceOutcome config instr machine := by
  unfold Reference.cycleExt referenceOutcome
  simp only [Reference.State.running, Bool.false_eq_true, if_false, toOption_bind, map_eq_bind,
    bind_assoc, comp_def, toOption_pure, bind_some, completedCycle]

end

variable [BoundedMemory M]

theorem aligned_div (physAddress : ℕ) : (physAddress - physAddress % 4) / 4 = physAddress / 4 := by
  omega

theorem accessed_get_inside (inside : Inside memory physAddress) (rom : accessType.readsRom) :
    accessed (MemorySource.get memory (physAddress - physAddress % 4) accessType) =
      some ((BoundedMemory.words memory).word (physAddress / 4)) := by
  rw [BoundedMemory.accessed_get, aligned_div, if_pos ⟨inside, Or.inr rom⟩]

theorem getNoexcept_inside (inside : Inside memory physAddress) :
    MemorySource.getNoexcept memory (physAddress - physAddress % 4) =
      some ((BoundedMemory.words memory).word (physAddress / 4)) := by
  rw [BoundedMemory.getNoexcept_inside _ _ (by rw [aligned_div]; exact inside), aligned_div]

theorem setNoexcept_eq_accessed_set (inside : Inside memory physAddress) (value : Word)
    (accessType : AccessType) :
    MemorySource.setNoexcept memory (physAddress - physAddress % 4) value =
      accessed (MemorySource.set memory (physAddress - physAddress % 4) value accessType) := by
  have aligned : Inside memory (physAddress - physAddress % 4) := by
    unfold Inside
    rw [aligned_div]
    exact inside
  rw [BoundedMemory.setNoexcept_inside _ _ _ aligned, BoundedMemory.accessed_set]
  exact if_congr (by simp [show _ < _ from aligned]) rfl rfl

variable {value : Word}

theorem inside_of_accessed_get
    (completed : accessed (MemorySource.get memory (physAddress - physAddress % 4) accessType) =
      some value) : Inside memory physAddress := by
  rw [BoundedMemory.accessed_get, aligned_div] at completed
  split_ifs at completed with inside
  exact inside.1

theorem toOption_memRead (config : MachineConfig) {physAddress : Word}
    (inside : Inside memory physAddress.toNat) (numBytes : ℕ) :
    (Reference.memRead config memory physAddress.toNat numBytes .memLoad).toOption =
      (Unrolled.memRead config memory physAddress numBytes).map Prod.snd := by
  rw [Reference.memRead_eq _ _ _ _ (.inr rfl)]
  unfold Unrolled.memRead
  simp only [getNoexcept_inside inside]
  by_cases supported :
      Unrolled.accessIsSupported config (physAddress.toNat % 4) numBytes = true
  · simp only [supported, if_true, toOption_bind, toOption_ofAccess,
      accessed_get_inside inside (by rfl : AccessType.readsRom .memLoad = true)]
    split_ifs <;> simp
  · simp [supported]

theorem toOption_memWrite (config : MachineConfig) {physAddress : Word}
    (inside : Inside memory physAddress.toNat) (value : Word) (numBytes : ℕ) :
    (Reference.memWrite config memory physAddress.toNat value numBytes).toOption =
      (Unrolled.memWrite config memory physAddress value numBytes).map fun (_, _, memory) =>
        memory := by
  unfold Reference.memWrite Unrolled.memWrite
  simp only [getNoexcept_inside inside]
  by_cases supported :
      Unrolled.accessIsSupported config (physAddress.toNat % 4) numBytes = true
  · simp only [supported, if_true, toOption_bind, toOption_ofAccess,
      accessed_get_inside inside (by rfl : AccessType.readsRom .memLoad = true),
      setNoexcept_eq_accessed_set inside _ .memStore]
    split_ifs <;> simp [Option.map_bind]
  · simp [supported]

theorem toOption_fetch (aligned : machine.pc.toNat % 4 = 0)
    (inside : Inside machine.memory machine.pc.toNat) :
    (Reference.memRead config machine.memory machine.pc.toNat 4 .instruction).toOption =
      MemorySource.getOpcodeNoexcept machine.memory machine.pc.toNat := by
  have got := accessed_get_inside inside (by rfl : AccessType.readsRom .instruction = true)
  rw [BoundedMemory.getOpcodeNoexcept_inside _ _ inside]
  rw [Reference.memRead_eq _ _ _ _ (.inl rfl)]
  simp only [aligned, (accessIsSupported_word 0).mpr rfl, if_true, toOption_bind,
    toOption_ofAccess] at got ⊢
  rw [got]
  have whole (word : Word) : (word >>> (8 * 0)) &&& Unrolled.bytesMask 4 = word :=
    and_allOnes
  split_ifs
  · simp only [bind_some, whole, toOption_pure]
  · rfl

theorem supported_of_memRead {numBytes : ℕ}
    (reads : accessType = .instruction ∨ accessType = .memLoad)
    (completed : (Reference.memRead config memory physAddress numBytes accessType).toOption =
      some value) :
    Unrolled.accessIsSupported config (physAddress % 4) numBytes = true ∧
      Inside memory physAddress := by
  rw [Reference.memRead_eq _ _ _ _ reads] at completed
  simp only [toOption_ite, toOption_bind, toOption_ofAccess, toOption_error] at completed
  split_ifs at completed with supported
  all_goals
    obtain ⟨word, got, -⟩ := bind_eq_some_iff.mp completed
    exact ⟨supported, inside_of_accessed_get got⟩

theorem inside_of_memWrite {after : M} {numBytes : ℕ}
    (completed : (Reference.memWrite config memory physAddress value numBytes).toOption =
      some after) : Inside memory physAddress := by
  unfold Reference.memWrite at completed
  simp only [toOption_ite, toOption_bind, toOption_ofAccess, toOption_error] at completed
  split_ifs at completed
  all_goals
    obtain ⟨word, got, -⟩ := bind_eq_some_iff.mp completed
    exact inside_of_accessed_get got

/-- Consecutive words of memory that can be read and written. -/
def Covers (memory : M) (physAddress count : ℕ) : Prop :=
  ∀ index < count, Inside memory (physAddress + 4 * index) ∧
    BoundedMemory.romBound memory ≤ physAddress + 4 * index

theorem Covers.head (covers : Covers memory physAddress (count + 1)) :
    Inside memory physAddress ∧ BoundedMemory.romBound memory ≤ physAddress :=
  covers 0 (Nat.succ_pos count)

theorem Covers.tail (covers : Covers memory physAddress (count + 1)) :
    Covers memory (physAddress + 4) count := by
  intro index bound
  have next := covers (index + 1) (Nat.succ_lt_succ bound)
  rwa [Nat.mul_add, Nat.mul_one, Nat.add_comm (4 * index), ← Nat.add_assoc] at next

theorem Covers.write (covers : Covers memory physAddress count) (other : ℕ) (value : Word) :
    Covers (BoundedMemory.write memory other value) physAddress count := by
  intro index bound
  unfold Inside
  rw [BoundedMemory.words_write, WordVec.length_set, BoundedMemory.romBound_write]
  exact covers index bound

theorem readContinuousWords_eq (covers : Covers memory physAddress count) :
    readContinuousWords Reference.readWord memory physAddress count =
      readContinuousWords MemorySource.getNoexcept memory physAddress count := by
  induction count generalizing physAddress with
  | zero => rfl
  | succ count ih =>
    obtain ⟨inside, writable⟩ := covers.head
    unfold readContinuousWords
    rw [readWord_eq_accessed, BoundedMemory.accessed_get, if_pos ⟨inside, Or.inl writable⟩,
      BoundedMemory.getNoexcept_inside _ _ inside, ih covers.tail]

theorem covers_of_readContinuousWords {words : List Word}
    (completed : readContinuousWords Reference.readWord memory physAddress count = some words) :
    Covers memory physAddress count := by
  induction count generalizing physAddress words with
  | zero => exact fun index bound => absurd bound (Nat.not_lt_zero index)
  | succ count ih =>
    simp only [readContinuousWords, bind_eq_bind, bind_eq_some_iff,
      readWord_eq_accessed, BoundedMemory.accessed_get] at completed
    obtain ⟨word, first, rest, readRest, -⟩ := completed
    split_ifs at first with inside
    have writable : BoundedMemory.romBound memory ≤ physAddress := by
      rcases inside.2 with writable | rom
      · exact writable
      · exact absurd rom (by decide)
    have tail := ih readRest
    intro index bound
    cases index with
    | zero => exact ⟨inside.1, writable⟩
    | succ index =>
      have next := tail index (Nat.lt_of_succ_lt_succ bound)
      rwa [Nat.mul_add, Nat.mul_one, Nat.add_comm (4 * index), ← Nat.add_assoc]

theorem writeContinuousWords_eq {words : List Word}
    (covers : Covers memory physAddress words.length) :
    writeContinuousWords Reference.writeWord memory physAddress words =
      writeContinuousWords MemorySource.setNoexcept memory physAddress words := by
  induction words generalizing memory physAddress with
  | nil => rfl
  | cons word words ih =>
    obtain ⟨inside, writable⟩ := covers.head
    unfold writeContinuousWords
    rw [writeWord_eq_accessed, BoundedMemory.accessed_set, if_pos ⟨inside, writable⟩,
      BoundedMemory.setNoexcept_inside _ _ _ inside, if_pos writable]
    exact ih (covers.tail.write physAddress word)

def CoversDelegation (csr : Word) (machine : Machine M S) : Prop :=
  Covers machine.memory (machine.registers 10).toNat (delegationShape csr).writes ∧
    Covers machine.memory (machine.registers 11).toNat (delegationShape csr).reads

theorem processWrite_eq {csr : Word} (covers : CoversDelegation csr machine) :
    processWrite Reference.readWord Reference.writeWord csr machine =
      processWrite MemorySource.getNoexcept MemorySource.setNoexcept csr machine := by
  refine processWrite_congr (readContinuousWords_eq covers.2) (readContinuousWords_eq covers.1) ?_
  intro words length
  apply writeContinuousWords_eq
  rw [length]
  exact covers.1

theorem coversDelegation_of_processWrite {csr : Word} {after : Machine M S}
    {record : DelegationRecord}
    (completed : processWrite Reference.readWord Reference.writeWord csr machine =
      some (after, record)) : CoversDelegation csr machine := by
  have effect := processWrite_effect completed
  exact ⟨covers_of_readContinuousWords effect.writtenReads,
    covers_of_readContinuousWords effect.indirectReads⟩

variable [NonDeterminismCSRSource M S]

/-- What the reference simulator insists on and the simulator of the prover does not look at. -/
structure ExtraChecks (config : MachineConfig) (machine : Machine M S) (instr : Word) : Prop where
  pc_aligned : machine.pc.toNat % 4 = 0
  pc_inside : Inside machine.memory machine.pc.toNat
  funct7 : getOpcodeBits instr = opSubmask → ¬looseFunct7 (funct3Bits instr) (funct7Bits instr)
  load : getOpcodeBits instr = opcodeLoad → Inside machine.memory
    (machine.registers (getFormalRs1Bits instr) + signExtend (ITypeOpcode.imm instr) 12).toNat
  store : getOpcodeBits instr = opcodeStore → Inside machine.memory
    (machine.registers (getFormalRs1Bits instr) + signExtend (STypeOpcode.imm instr) 12).toNat
  mop : getOpcodeBits instr = opcodeSystem → funct3Bits instr = 0b100 →
    config.supportMops = true ∧ funct7Bits instr &&& Unrolled.mopFunct7Test = Unrolled.mopFunct7Test
  delegation : getOpcodeBits instr = opcodeSystem → funct3Bits instr = 0b001 →
    ITypeOpcode.imm instr ≠ nonDeterminismCsr → ITypeOpcode.imm instr ≠ markerCsr →
      ITypeOpcode.imm instr ∈ config.allowedDelegationCsrs ∧
      machine.registers (getFormalRs1Bits instr) = 0 ∧
      CoversDelegation (ITypeOpcode.imm instr) machine

theorem outcomes_load (op : getOpcodeBits instr = opcodeLoad)
    (inside : Inside machine.memory
      (machine.registers (getFormalRs1Bits instr) + signExtend (ITypeOpcode.imm instr) 12).toNat) :
    Unrolled.executed config instr machine = referenceOutcome config instr machine := by
  rw [Unrolled.executed, referenceOutcome, Unrolled.execute_load _ _ _ _ _ op,
    Reference.execute_load _ _ _ op]
  simp only [toOption_bind, toOption_loadBytes, toOption_memRead config inside,
    toOption_loadedValue, Unrolled.load, bind_eq_bind]
  cases Unrolled.loadBytes (funct3Bits instr) with
  | none => rfl
  | some numBytes =>
    simp only [bind_some, readOperands_memory]
    generalize Unrolled.memRead _ machine.memory _ _ = read
    rcases read with _ | ⟨aligned, part⟩
    · rfl
    · simp only [map_some, bind_some]
      cases Unrolled.loadedValue config (funct3Bits instr) part <;> rfl

theorem outcomes_store (zero : machine.registers 0 = 0)
    (op : getOpcodeBits instr = opcodeStore)
    (inside : Inside machine.memory
      (machine.registers (getFormalRs1Bits instr) + signExtend (STypeOpcode.imm instr) 12).toNat) :
    Unrolled.executed config instr machine = referenceOutcome config instr machine := by
  have swap : signExtend (STypeOpcode.imm instr) 12 + machine.registers (getFormalRs1Bits instr) =
      machine.registers (getFormalRs1Bits instr) + signExtend (STypeOpcode.imm instr) 12 :=
    BitVec.add_comm _ _
  rw [Unrolled.executed, referenceOutcome, Unrolled.execute_store _ _ _ _ _ op,
    Reference.execute_store _ _ _ op, swap, Unrolled.rs2Operand_of_ne (by rw [op]; decide)]
  simp only [toOption_bind, toOption_storeBytes, toOption_memWrite config inside,
    Unrolled.store, bind_eq_bind]
  cases Unrolled.storeBytes (funct3Bits instr) with
  | none => rfl
  | some numBytes =>
    simp only [bind_some, readOperands_memory]
    generalize Unrolled.memWrite _ machine.memory _ _ _ = write
    rcases write with _ | ⟨old, new, memory⟩
    · rfl
    · have kept := @setRegister_zero M S { machine with memory } zero 0
      change some _ = some (completedCycle _)
      rw [completedCycle, kept]
      rfl

theorem csrHalves_eq (checked : ITypeOpcode.imm instr ≠ nonDeterminismCsr →
      ITypeOpcode.imm instr ≠ markerCsr → ITypeOpcode.imm instr ∈ config.allowedDelegationCsrs ∧
        machine.registers (getFormalRs1Bits instr) = 0 ∧
        CoversDelegation (ITypeOpcode.imm instr) machine)
    (events : List Unrolled.TraceEvent) :
    ((Unrolled.csrRead (ITypeOpcode.imm instr) (getRdBits instr)
        ⟨{ machine with pc := machine.pc + 4 }, events⟩).bind fun read =>
      (Unrolled.csrWrite (ITypeOpcode.imm instr) (getFormalRs1Bits instr)
        (machine.registers (getFormalRs1Bits instr)) read.2).map fun written =>
          (read.1, written.machine)) =
    ((Reference.csrRead config (ITypeOpcode.imm instr) (getRdBits instr) machine).toOption.bind
      fun read => (Reference.csrWrite config (ITypeOpcode.imm instr) (getFormalRs1Bits instr)
        (machine.registers (getFormalRs1Bits instr)) (machine.registers (getFormalRs1Bits instr))
        read.2).toOption.map fun written => (read.1, { written with pc := machine.pc + 4 })) := by
  by_cases oracle : ITypeOpcode.imm instr = nonDeterminismCsr
  · simp only [Unrolled.csrRead, Reference.csrRead, Unrolled.csrWrite, Reference.csrWrite,
      if_pos oracle, Unrolled.nonDeterminismRead, Unrolled.nonDeterminismWrite, toOption_bind,
      toOption_ofPanic]
    cases Unrolled.oracleRead M (getRdBits instr) machine.source with
    | none => rfl
    | some read =>
      simp only [bind_eq_bind, bind_some, toOption_pure, Progress.trace]
      cases Unrolled.oracleWrite (getFormalRs1Bits instr)
        (machine.registers (getFormalRs1Bits instr)) machine.memory read.2 <;> rfl
  by_cases marker : ITypeOpcode.imm instr = markerCsr
  · simp only [Unrolled.csrRead, Reference.csrRead, Unrolled.csrWrite, Reference.csrWrite,
      if_neg oracle, if_pos marker]
    rfl
  obtain ⟨allowed, rs1, covers⟩ := checked oracle marker
  simp only [Unrolled.csrRead, Reference.csrRead, Unrolled.csrWrite, Reference.csrWrite,
    if_neg oracle, if_neg marker, rs1, Reference.assert, allowed, decide_true, if_true,
    toOption_bind, toOption_pure, bind_some, Unrolled.delegate, bind_eq_bind,
    processWrite_pc, ← processWrite_eq covers, Reference.processRead, Reference.processWrite]
  by_cases known : ITypeOpcode.imm instr = blake2RoundFunctionWithExtendedControlAccessId ∨
      ITypeOpcode.imm instr = u256OpsWithControlAccessId
  · simp only [if_pos known, toOption_bind, toOption_ok, toOption_pure, toOption_ofPanic, bind_some]
    cases processWrite Reference.readWord Reference.writeWord (ITypeOpcode.imm instr) machine <;>
      rfl
  · have nothing : processWrite Reference.readWord Reference.writeWord (ITypeOpcode.imm instr)
        machine = none := by
      obtain ⟨notBlake, notU256⟩ := not_or.mp known
      unfold processWrite
      rw [if_neg notBlake, if_neg notU256]
    simp only [if_neg known, nothing]
    rfl

theorem outcomes_csr (standard : config.supportStandardCsrs = false)
    (onlyCsrrw : config.supportOnlyCsrrw = true) (op : getOpcodeBits instr = opcodeSystem)
    (notMop : funct3Bits instr ≠ 0b100)
    (checked : funct3Bits instr = 0b001 → ITypeOpcode.imm instr ≠ nonDeterminismCsr →
      ITypeOpcode.imm instr ≠ markerCsr → ITypeOpcode.imm instr ∈ config.allowedDelegationCsrs ∧
        machine.registers (getFormalRs1Bits instr) = 0 ∧
        CoversDelegation (ITypeOpcode.imm instr) machine) :
    Unrolled.executed config instr machine = referenceOutcome config instr machine := by
  rw [Unrolled.executed, referenceOutcome, Unrolled.execute_system _ _ _ _ _ op,
    Reference.execute_system _ _ _ op, Unrolled.system, Reference.system, if_neg notMop]
  by_cases csr : funct3Bits instr &&& 0x3 ≠ 0
  · rw [if_pos csr, if_pos csr, toOption_bind]
    by_cases csrrw : funct3Bits instr = 0b001
    · rw [Unrolled.csrAccess_csrrw standard onlyCsrrw csrrw, toOption_csrAccess_csrrw csrrw]
      have halves := congrArg
        (Option.map fun access : Word × Machine M S =>
          access.2.setRegister (getRdBits instr) access.1)
        (csrHalves_eq (checked csrrw) (Unrolled.readOperands instr machine).events)
      simp only [map_eq_bind, bind_assoc, bind_some, comp_def, toOption_pure] at halves ⊢
      exact halves
    · rw [Unrolled.csrAccess_of_not_csrrw csrrw, toOption_csrAccess_of_not_csrrw onlyCsrrw csrrw]
      rfl
  · have zero : funct3Bits instr = 0b000 := by
      rcases eq_of_bitVec_three (funct3Bits instr) with
        funct3 | funct3 | funct3 | funct3 | funct3 | funct3 | funct3 | funct3
      · exact funct3
      case inr.inr.inr.inr.inl => exact absurd funct3 notMop
      all_goals exact absurd (by rw [funct3]; decide) csr
    rw [if_neg csr, if_neg csr, if_pos zero]
    rfl

theorem outcomes_eq (known : config ∈ machineConfigs) (zero : machine.registers 0 = 0)
    (checks : ExtraChecks config machine instr) :
    Unrolled.executed config instr machine = referenceOutcome config instr machine := by
  obtain ⟨noRot, standard, onlyCsrrw⟩ := machineConfigs_common known
  by_cases executable : getOpcodeBits instr ∈ Unrolled.executableOpcodes
  · simp only [Unrolled.executableOpcodes, List.mem_cons, List.not_mem_nil, or_false]
      at executable
    rcases executable with op | op | op | op | op | op | op | op | op | op
    · exact outcomes_lui op
    · exact outcomes_auipc op
    · exact outcomes_jal op
    · exact outcomes_jalr op
    · exact outcomes_branch zero op
    · exact outcomes_opImm noRot op
    · exact outcomes_op noRot op (checks.funct7 op)
    · exact outcomes_load op (checks.load op)
    · exact outcomes_store zero op (checks.store op)
    · by_cases mop : funct3Bits instr = 0b100
      · exact outcomes_mop op mop (checks.mop op mop)
      · exact outcomes_csr standard onlyCsrrw op mop (checks.delegation op)
  · rw [Unrolled.executed, referenceOutcome, Unrolled.execute_unknown _ _ _ _ _ executable,
      Reference.execute_unknown _ _ _ executable]
    rfl

variable {effect : Reference.Effect M S}

theorem load_checked (op : getOpcodeBits instr = opcodeLoad)
    (completed : (Reference.execute config .machine instr machine).toOption = some effect) :
    Inside machine.memory
      (machine.registers (getFormalRs1Bits instr) + signExtend (ITypeOpcode.imm instr) 12).toNat
    := by
  rw [Reference.execute_load _ _ _ op] at completed
  simp only [toOption_bind, bind_eq_some_iff] at completed
  obtain ⟨numBytes, -, operand, read, -⟩ := completed
  exact (supported_of_memRead (.inr rfl) read).2

theorem store_checked (op : getOpcodeBits instr = opcodeStore)
    (completed : (Reference.execute config .machine instr machine).toOption = some effect) :
    Inside machine.memory
      (machine.registers (getFormalRs1Bits instr) + signExtend (STypeOpcode.imm instr) 12).toNat
    := by
  rw [Reference.execute_store _ _ _ op, BitVec.add_comm] at completed
  simp only [toOption_bind, bind_eq_some_iff] at completed
  obtain ⟨numBytes, -, memory, written, -⟩ := completed
  exact inside_of_memWrite written

theorem delegation_checked (op : getOpcodeBits instr = opcodeSystem)
    (funct3 : funct3Bits instr = 0b001) (notOracle : ITypeOpcode.imm instr ≠ nonDeterminismCsr)
    (notMarker : ITypeOpcode.imm instr ≠ markerCsr)
    (completed : (Reference.execute config .machine instr machine).toOption = some effect) :
    ITypeOpcode.imm instr ∈ config.allowedDelegationCsrs ∧
      machine.registers (getFormalRs1Bits instr) = 0 ∧
      CoversDelegation (ITypeOpcode.imm instr) machine := by
  rw [Reference.execute_system _ _ _ op] at completed
  unfold Reference.system at completed
  simp only [funct3] at completed
  rw [if_pos (by decide), toOption_bind, toOption_csrAccess_csrrw funct3] at completed
  simp only [bind_eq_some_iff, Reference.csrRead, Reference.csrWrite, if_neg notOracle,
    if_neg notMarker, toOption_bind, map_eq_some_iff, Reference.processWrite,
    toOption_pure, Option.some.injEq] at completed
  obtain ⟨_, ⟨_, ⟨_, -, _, -, rfl⟩, _, ⟨_, allowed, written⟩, -⟩, -⟩ := completed
  simp only [toOption_ite, toOption_bind, toOption_ofPanic, toOption_error] at written
  split_ifs at written
  simp only [bind_eq_some_iff] at written
  obtain ⟨_, rs1, ⟨after, record⟩, processed, -⟩ := written
  exact ⟨of_decide_eq_true (holds_of_assert allowed), of_decide_eq_true (holds_of_assert rs1),
    coversDelegation_of_processWrite processed⟩

theorem extraChecks_of_reference (aligned : machine.pc.toNat % 4 = 0)
    (inside : Inside machine.memory machine.pc.toNat) {after : Machine M S}
    (completed : referenceOutcome config instr machine = some after) :
    ExtraChecks config machine instr := by
  obtain ⟨effect, completed, -⟩ := map_eq_some_iff.mp completed
  exact {
    pc_aligned := aligned
    pc_inside := inside
    funct7 := fun op => funct7_checked op completed
    load := fun op => load_checked op completed
    store := fun op => store_checked op completed
    mop := fun op funct3 => mop_checked op funct3 completed
    delegation := fun op funct3 notOracle notMarker =>
      delegation_checked op funct3 notOracle notMarker completed }

def observable (machine : Machine M S) : (BitVec 5 → Word) × Word × M :=
  (machine.registers, machine.pc, machine.memory)

/-- Both simulators complete the cycle and end in the same state, or neither completes it. -/
def SimulatorsAgree (config : MachineConfig) (machine : Machine M S) : Prop :=
  (Unrolled.cycle config machine).map (fun completed => observable completed.1.machine) =
    (Reference.cycleExt config (.running machine)).toOption.map fun state =>
      observable state.machine

theorem cycles_eq (known : config ∈ machineConfigs) (zero : machine.registers 0 = 0) {instr : Word}
    (fetched : MemorySource.getOpcodeNoexcept machine.memory machine.pc.toNat = some instr)
    (checks : ExtraChecks config machine instr) :
    (Unrolled.cycle config machine).map (fun completed => completed.1.machine) =
      (Reference.cycleExt config (.running machine)).toOption.map Reference.State.machine := by
  rw [Unrolled.machine_cycle_eq, reference_cycleExt_eq,
    toOption_fetch checks.pc_aligned checks.pc_inside, fetched]
  exact outcomes_eq known zero checks

theorem cycle_isSome_iff (known : config ∈ machineConfigs) :
    (Unrolled.cycle config machine).isSome ↔ ∃ instr,
      MemorySource.getOpcodeNoexcept machine.memory machine.pc.toNat = some instr ∧
        Completes config machine instr := by
  have outcome := congrArg Option.isSome (Unrolled.machine_cycle_eq config machine)
  rw [isSome_map] at outcome
  rw [outcome]
  cases MemorySource.getOpcodeNoexcept machine.memory machine.pc.toNat with
  | none => simp
  | some instr => simp [executed_isSome_iff known]

theorem checks_of_cycleExt
    (completed : (Reference.cycleExt config (.running machine)).toOption.isSome) :
    ∃ instr, MemorySource.getOpcodeNoexcept machine.memory machine.pc.toNat = some instr ∧
      ExtraChecks config machine instr := by
  obtain ⟨state, completed⟩ := isSome_iff_exists.mp completed
  have outcome := reference_cycleExt_eq config machine
  rw [completed] at outcome
  obtain ⟨instr, fetched, executed⟩ := bind_eq_some_iff.mp outcome.symm
  obtain ⟨supported, inside⟩ := supported_of_memRead (.inl rfl) fetched
  have aligned := (accessIsSupported_word _).mp supported
  rw [toOption_fetch aligned inside] at fetched
  exact ⟨instr, fetched, extraChecks_of_reference aligned inside executed⟩

/-- The simulators agree on a cycle exactly if the fetched instruction, in case that it is one that
the simulator of the prover completes, passes the checks that only the reference simulator makes. -/
theorem simulators_agree_iff {config : MachineConfig} (known : config ∈ machineConfigs)
    (machine : Machine M S) (zero : machine.registers 0 = 0) :
    SimulatorsAgree config machine ↔ ∀ instr,
      MemorySource.getOpcodeNoexcept machine.memory machine.pc.toNat = some instr →
        Completes config machine instr → ExtraChecks config machine instr := by
  constructor
  · intro agree instr fetched completes
    have completed : (Unrolled.cycle config machine).isSome :=
      (cycle_isSome_iff known).mpr ⟨instr, fetched, completes⟩
    have same := congrArg Option.isSome agree
    rw [isSome_map, isSome_map, completed] at same
    obtain ⟨other, refetched, checks⟩ := checks_of_cycleExt same.symm
    cases fetched.symm.trans refetched
    exact checks
  · intro checked
    have decided : (Unrolled.cycle config machine).isSome ∨
        (Reference.cycleExt config (.running machine)).toOption.isSome →
        SimulatorsAgree config machine := by
      intro completes
      obtain ⟨instr, fetched, checks⟩ : ∃ instr,
          MemorySource.getOpcodeNoexcept machine.memory machine.pc.toNat = some instr ∧
            ExtraChecks config machine instr := by
        rcases completes with unrolled | reference
        · obtain ⟨instr, fetched, completes⟩ := (cycle_isSome_iff known).mp unrolled
          exact ⟨instr, fetched, checked instr fetched completes⟩
        · exact checks_of_cycleExt reference
      have equal := congrArg (Option.map observable) (cycles_eq known zero fetched checks)
      rwa [map_map, map_map] at equal
    by_cases completes : (Unrolled.cycle config machine).isSome ∨
        (Reference.cycleExt config (.running machine)).toOption.isSome
    · exact decided completes
    · obtain ⟨unrolled, reference⟩ := not_or.mp completes
      unfold SimulatorsAgree
      rw [not_isSome_iff_eq_none.mp unrolled, not_isSome_iff_eq_none.mp reference]
      rfl

end

theorem simulators_agree_on_jump :
    SimulatorsAgree imStandardIsaConfig (oneInstruction 0x0000006f fun _ => 0) := by
  refine (simulators_agree_iff (by simp [machineConfigs]) _ rfl).mpr fun instr fetched _ => ?_
  obtain rfl : 0x0000006f = instr := Option.some.inj fetched
  exact {
    pc_aligned := rfl
    pc_inside := show 0 / 4 < 2 ^ 20 by decide
    funct7 := fun op => absurd op (by decide)
    load := fun op => absurd op (by decide)
    store := fun op => absurd op (by decide)
    mop := fun op => absurd op (by decide)
    delegation := fun op => absurd op (by decide) }

/-- `csrrw x0, 0x7ca, x5` with a one in `x5`: the operand that the reference simulator insists on
is ignored by the simulator of the prover. -/
theorem simulators_disagree_on_delegation_operand :
    ¬SimulatorsAgree imStandardIsaConfig (oneInstruction 0x7ca29073 fun register =>
      if register = 5 then 1 else if register = 10 then 0x200000
      else if register = 11 then 0x200020 else if register = 12 then 1 else 0) := by
  intro agree
  have same := congrArg Option.isSome agree
  rw [isSome_map, isSome_map] at same
  revert same
  decide +kernel

end Airbender.Simulator

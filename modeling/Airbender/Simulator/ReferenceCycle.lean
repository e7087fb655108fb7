import Airbender.Simulator.UnrolledCycle

/-!
# The reference simulator

`RiscV32State::cycle_ext` without address translation and the standard CSRs, which no configuration
has. A trap leaves the cycle with its reason, a panic without one; every configuration turns a trap
into a panic.
-/

namespace Airbender.Simulator.Reference

open Unrolled (accessIsSupported bytesMask maskOld mopFunct7Test mopValue oracleRead oracleWrite)

inductive Halt where
  | trap (reason : TrapReason)
  | panic
deriving DecidableEq

abbrev illegalInstruction {α : Type} : Except Halt α := .error (.trap .illegalInstruction)

def assert (holds : Bool) : Except Halt Unit := if holds then pure () else .error .panic

/-- An access that may panic, and may report a trap. -/
def ofAccess {α : Type} : Option (α × Option TrapReason) → Except Halt α
  | none => .error .panic
  | some (_, some reason) => .error (.trap reason)
  | some (value, none) => .ok value

def ofPanic {α : Type} : Option α → Except Halt α
  | none => .error .panic
  | some value => .ok value

inductive Mode where
  | user
  | supervisor
  | reserved
  | machine
deriving DecidableEq

namespace Mode

def asRegisterValue : Mode → ℕ
  | user => 0
  | supervisor => 1
  | reserved => 2
  | machine => 3

end Mode

variable {M S : Type}

structure State (M S : Type) where
  machine : Machine M S
  waitForInterrupt : Bool
  mode : Mode

/-- The flags that `initial` sets and no instruction changes. -/
def State.running (machine : Machine M S) : State M S := ⟨machine, false, .machine⟩

section

variable [MemorySource M]

def memRead (config : MachineConfig) (memory : M) (physAddress numBytes : ℕ)
    (accessType : AccessType) : Except Halt Word := do
  assert (accessType = .instruction ∨ accessType = .memLoad)
  let unalignment := physAddress % 4
  if accessIsSupported config unalignment numBytes then
    let value ← ofAccess (MemorySource.get memory (physAddress - unalignment) accessType)
    if config.supportLoadLessThanWord then
      pure ((value >>> (8 * unalignment)) &&& bytesMask numBytes)
    else pure value
  else .error (.trap .loadAddressMisaligned)

theorem memRead_eq (config : MachineConfig) (memory : M) (physAddress numBytes : ℕ)
    {accessType : AccessType} (reads : accessType = .instruction ∨ accessType = .memLoad) :
    memRead config memory physAddress numBytes accessType =
      if accessIsSupported config (physAddress % 4) numBytes then do
        let value ← ofAccess (MemorySource.get memory (physAddress - physAddress % 4) accessType)
        if config.supportLoadLessThanWord then
          pure ((value >>> (8 * (physAddress % 4))) &&& bytesMask numBytes)
        else pure value
      else .error (.trap .loadAddressMisaligned) := by
  rw [memRead, decide_eq_true reads]
  rfl

def memWrite (config : MachineConfig) (memory : M) (physAddress : ℕ) (value : Word)
    (numBytes : ℕ) : Except Halt M := do
  let unalignment := physAddress % 4
  let alignedAddress := physAddress - unalignment
  if accessIsSupported config unalignment numBytes then
    let oldValue ← ofAccess (MemorySource.get memory alignedAddress .memLoad)
    let newValue :=
      if config.supportLoadLessThanWord then
        ((value &&& bytesMask numBytes) <<< (8 * unalignment)) |||
          (oldValue &&& maskOld unalignment numBytes)
      else value
    ofAccess (MemorySource.set memory alignedAddress newValue .memStore)
  else .error (.trap .storeOrAMOAddressMisaligned)

/-- The accessors of the delegations panic on a trap. -/
def readWord (memory : M) (address : ℕ) : Option Word :=
  match MemorySource.get memory address .regWrite with
  | some (value, none) => some value
  | _ => none

def writeWord (memory : M) (address : ℕ) (value : Word) : Option M :=
  match MemorySource.set memory address value .regWrite with
  | some (memory, none) => some memory
  | _ => none

def mulDivValue (config : MachineConfig) (funct3 : BitVec 3) (operand1 operand2 : Word) :
    Except Halt Word :=
  if funct3 = 0 then
    if config.supportMul then .ok (operand1 * operand2) else illegalInstruction
  else if funct3 = 1 then
    if config.supportMul && config.supportSignedMul then
      .ok (((operand1.signExtend 64 * operand2.signExtend 64).sshiftRight 32).setWidth 32)
    else illegalInstruction
  else if funct3 = 2 then
    if config.supportMul && config.supportSignedMul then
      .ok (((operand1.signExtend 64 * operand2.setWidth 64).sshiftRight 32).setWidth 32)
    else illegalInstruction
  else if funct3 = 3 then
    if config.supportMul then
      .ok (((operand1.setWidth 64 * operand2.setWidth 64) >>> 32).setWidth 32)
    else illegalInstruction
  else if funct3 = 4 then
    if config.supportDiv && config.supportSignedDiv then
      .ok (if operand2 = 0 then BitVec.allOnes 32
        else if operand1 = BitVec.intMin 32 ∧ operand2 = BitVec.allOnes 32 then operand1
        else operand1.sdiv operand2)
    else illegalInstruction
  else if funct3 = 5 then
    if config.supportDiv then
      .ok (if operand2 = 0 then 0xffffffff else operand1 / operand2)
    else illegalInstruction
  else if funct3 = 6 then
    if config.supportDiv && config.supportSignedDiv then
      .ok (if operand2 = 0 then operand1
        else if operand1 = BitVec.intMin 32 ∧ operand2 = BitVec.allOnes 32 then 0
        else operand1.srem operand2)
    else illegalInstruction
  else
    if config.supportDiv then .ok (if operand2 = 0 then operand1 else operand1 % operand2)
    else illegalInstruction

def rotateMask : Word := 0x60000000

/-- The value of the basic set, before the encoding is validated. -/
def basicValue (config : MachineConfig) (isRType : Bool) (instr operand1 operand2 : Word) :
    Except Halt Word :=
  let funct3 := funct3Bits instr
  let shift := (operand2 &&& 0x1f).toNat
  if funct3 = 0 then
    if isRType ∧ instr &&& 0x40000000 ≠ 0 then .ok (operand1 - operand2)
    else .ok (operand1 + operand2)
  else if funct3 = 1 then
    if instr &&& rotateMask ≠ 0 then
      if config.supportRot then .ok (operand1.rotateLeft shift) else illegalInstruction
    else .ok (operand1 <<< shift)
  else if funct3 = 2 then .ok (if operand1.slt operand2 then 1 else 0)
  else if funct3 = 3 then .ok (if operand1.ult operand2 then 1 else 0)
  else if funct3 = 4 then .ok (operand1 ^^^ operand2)
  else if funct3 = 5 then
    if instr &&& rotateMask = rotateMask then
      if config.supportRot then .ok (operand1.rotateRight shift) else illegalInstruction
    else if instr &&& 0x40000000 ≠ 0 then
      if config.supportSra then .ok (operand1.sshiftRight shift) else illegalInstruction
    else .ok (operand1 >>> shift)
  else if funct3 = 6 then .ok (operand1 ||| operand2)
  else .ok (operand1 &&& operand2)

/-- The rotations between registers have no valid encoding. -/
def validEncoding (isRType : Bool) (funct3 : BitVec 3) (funct7 : BitVec 7) : Bool :=
  if !isRType then
    if funct3 = 1 then funct7 == 0 || funct7 == 0b0110000
    else if funct3 = 5 then funct7 == 0 || funct7 == 0b0100000 || funct7 == 0b0110000
    else true
  else if funct3 = 0 ∨ funct3 = 5 then funct7 == 0 || funct7 == 0b0100000
  else funct7 == 0

def arithmetic (config : MachineConfig) (instr rs1 rs2 : Word) : Except Halt Word := do
  let isRType := instr.getLsbD 5
  let operand2 := if isRType then rs2 else signExtend (ITypeOpcode.imm instr) 12
  if isRType ∧ funct7Bits instr = 1 then mulDivValue config (funct3Bits instr) rs1 operand2
  else
    let value ← basicValue config isRType instr rs1 operand2
    if validEncoding isRType (funct3Bits instr) (funct7Bits instr) then pure value
    else illegalInstruction

def shouldJump (funct3 : BitVec 3) (rs1 rs2 : Word) : Except Halt Bool :=
  if funct3 = 0 then .ok (rs1 == rs2)
  else if funct3 = 1 then .ok (rs1 != rs2)
  else if funct3 = 4 then .ok (rs1.slt rs2)
  else if funct3 = 5 then .ok (!rs1.slt rs2)
  else if funct3 = 6 then .ok (rs1.ult rs2)
  else if funct3 = 7 then .ok (!rs1.ult rs2)
  else illegalInstruction

def loadBytes (funct3 : BitVec 3) : Except Halt ℕ :=
  if funct3 = 0 ∨ funct3 = 4 then .ok 1
  else if funct3 = 1 ∨ funct3 = 5 then .ok 2
  else if funct3 = 2 then .ok 4
  else illegalInstruction

def loadedValue (config : MachineConfig) (funct3 : BitVec 3) (operand : Word) :
    Except Halt Word :=
  if funct3 = 0 then
    if config.supportSignedLoad then .ok (signExtend8 operand) else illegalInstruction
  else if funct3 = 1 then
    if config.supportSignedLoad then .ok (signExtend16 operand) else illegalInstruction
  else if funct3 = 2 then .ok operand
  else if funct3 = 4 then .ok (zeroExtend8 operand)
  else .ok (zeroExtend16 operand)

def storeBytes (funct3 : BitVec 3) : Except Halt ℕ :=
  if funct3 = 0 ∨ funct3 = 1 ∨ funct3 = 2 then .ok (1 <<< funct3.toNat) else illegalInstruction

def mop (config : MachineConfig) (instr rs1 rs2 : Word) : Except Halt Word :=
  let funct7 := funct7Bits instr
  if funct7 &&& mopFunct7Test = mopFunct7Test then
    if config.supportMops then
      let mopNumber := ((funct7 &&& 0b110) >>> 1) ||| ((funct7 &&& 0b100000) >>> 5)
      match mopValue mopNumber rs1 rs2 with
      | some value => .ok value
      | none => illegalInstruction
    else illegalInstruction
  else illegalInstruction

def processRead (csr : Word) : Except Halt Word :=
  if csr = blake2RoundFunctionWithExtendedControlAccessId ∨ csr = u256OpsWithControlAccessId then
    .ok 0
  else illegalInstruction

/-- `process_write` of the delegations; both insist on a zero operand. -/
def processWrite (csr rs1 : Word) (machine : Machine M S) : Except Halt (Machine M S) :=
  if csr = blake2RoundFunctionWithExtendedControlAccessId ∨ csr = u256OpsWithControlAccessId then do
    assert (rs1 = 0)
    let (machine, _) ← ofPanic (Simulator.processWrite readWord writeWord csr machine)
    pure machine
  else illegalInstruction

variable [NonDeterminismCSRSource M S]

def csrRead (config : MachineConfig) (csrNumber : Word) (rd : BitVec 5) (machine : Machine M S) :
    Except Halt (Word × Machine M S) :=
  if csrNumber = nonDeterminismCsr then do
    let (retVal, source) ← ofPanic (oracleRead M rd machine.source)
    pure (retVal, { machine with source })
  else if csrNumber = markerCsr then pure (0, machine)
  else do
    assert (csrNumber ∈ config.allowedDelegationCsrs)
    let retVal ← processRead csrNumber
    pure (retVal, machine)

def csrWrite (config : MachineConfig) (csrNumber : Word) (rs1Index : BitVec 5)
    (rs1 writeVal : Word) (machine : Machine M S) : Except Halt (Machine M S) :=
  if csrNumber = nonDeterminismCsr then do
    let source ← ofPanic (oracleWrite rs1Index writeVal machine.memory machine.source)
    pure { machine with source }
  else if csrNumber = markerCsr then pure machine
  else do
    assert (csrNumber ∈ config.allowedDelegationCsrs)
    processWrite csrNumber rs1 machine

def csrWriteVal (config : MachineConfig) (funct3 : BitVec 3) (retVal rs1 rs1AsImm : Word) :
    Except Halt Word :=
  if funct3 = 1 then .ok rs1
  else if config.supportOnlyCsrrw then illegalInstruction
  else if funct3 = 2 then .ok (retVal ||| rs1)
  else if funct3 = 3 then .ok (retVal &&& ~~~rs1)
  else if funct3 = 5 then .ok rs1AsImm
  else if funct3 = 6 then .ok (retVal ||| rs1AsImm)
  else if funct3 = 7 then .ok (retVal &&& ~~~rs1AsImm)
  else illegalInstruction

def csrAccess (config : MachineConfig) (mode : Mode) (instr rs1 : Word) (machine : Machine M S) :
    Except Halt (Word × Machine M S) :=
  let csrNumber := ITypeOpcode.imm instr
  let rs1Index := getFormalRs1Bits instr
  if mode.asRegisterValue < (getBitsAndAlignRight csrNumber 8 2).toNat then illegalInstruction
  else do
    let (retVal, machine) ← csrRead config csrNumber (getRdBits instr) machine
    let writeVal ← csrWriteVal config (funct3Bits instr) retVal rs1 (rs1Index.setWidth 32)
    let machine ← csrWrite config csrNumber rs1Index rs1 writeVal machine
    pure (retVal, machine)

def system (config : MachineConfig) (mode : Mode) (instr rs1 rs2 : Word) (machine : Machine M S) :
    Except Halt (Word × Machine M S) :=
  let funct3 := funct3Bits instr
  if funct3 &&& 0x3 ≠ 0 then csrAccess config mode instr rs1 machine
  else if funct3 = 0b000 then illegalInstruction
  else do
    let retVal ← mop config instr rs1 rs2
    pure (retVal, machine)

/-- The destination, its value, the address before the next instruction, and the machine. -/
structure Effect (M S : Type) where
  rd : BitVec 5
  retVal : Word
  pc : Word
  machine : Machine M S

def jumpBefore (target : Word) : Except Halt Word :=
  if target &&& 0x3 ≠ 0 then .error (.trap .instructionAddressMisaligned) else .ok target

def jumpBeforeIf (taken : Bool) (target pc : Word) : Except Halt Word :=
  if taken then jumpBefore target else .ok pc

def execute (config : MachineConfig) (mode : Mode) (instr : Word) (machine : Machine M S) :
    Except Halt (Effect M S) :=
  let op := getOpcodeBits instr
  let rd := getRdBits instr
  let pc := machine.pc
  let rs1 := machine.registers (getFormalRs1Bits instr)
  let rs2 := machine.registers (getFormalRs2Bits instr)
  if op = 0b0110111 then .ok ⟨rd, UTypeOpcode.imm instr, pc, machine⟩
  else if op = 0b0010111 then .ok ⟨rd, pc + UTypeOpcode.imm instr, pc, machine⟩
  else if op = 0b1101111 then do
    let target ← jumpBefore (pc - 4 + signExtend (JTypeOpcode.imm instr) 21)
    pure ⟨rd, pc + 4, target, machine⟩
  else if op = 0b1100111 then do
    let target ←
      jumpBefore (((rs1 + signExtend (ITypeOpcode.imm instr) 12) &&& ~~~0x1) - 4)
    pure ⟨rd, pc + 4, target, machine⟩
  else if op = 0b1100011 then do
    let taken ← shouldJump (funct3Bits instr) rs1 rs2
    let dst := pc + signExtend (BTypeOpcode.imm instr) 13 - 4
    let target ← jumpBeforeIf taken dst pc
    pure ⟨0, 0, target, machine⟩
  else if op = 0b0000011 then do
    let virtualAddress := rs1 + signExtend (ITypeOpcode.imm instr) 12
    let numBytes ← loadBytes (funct3Bits instr)
    let operand ← memRead config machine.memory virtualAddress.toNat numBytes .memLoad
    let retVal ← loadedValue config (funct3Bits instr) operand
    pure ⟨rd, retVal, pc, machine⟩
  else if op = 0b0100011 then do
    let virtualAddress := signExtend (STypeOpcode.imm instr) 12 + rs1
    let storeLength ← storeBytes (funct3Bits instr)
    let memory ← memWrite config machine.memory virtualAddress.toNat rs2 storeLength
    pure ⟨0, 0, pc, { machine with memory }⟩
  else if op = 0b0010011 ∨ op = 0b0110011 then do
    let retVal ← arithmetic config instr rs1 rs2
    pure ⟨rd, retVal, pc, machine⟩
  else if op = 0b1110011 then do
    let (retVal, machine) ← system config mode instr rs1 rs2 machine
    pure ⟨rd, retVal, pc, machine⟩
  else illegalInstruction

section

variable (config : MachineConfig) (mode : Mode) {instr : Word} (machine : Machine M S)

theorem execute_lui (op : getOpcodeBits instr = opcodeLui) :
    execute config mode instr machine =
      .ok ⟨getRdBits instr, UTypeOpcode.imm instr, machine.pc, machine⟩ := by
  simp [execute, op, opcodeLui]

theorem execute_auipc (op : getOpcodeBits instr = opcodeAuipc) :
    execute config mode instr machine =
      .ok ⟨getRdBits instr, machine.pc + UTypeOpcode.imm instr, machine.pc, machine⟩ := by
  simp [execute, op, opcodeAuipc]

theorem execute_jal (op : getOpcodeBits instr = opcodeJal) :
    execute config mode instr machine = (do
      let target ← jumpBefore (machine.pc - 4 + signExtend (JTypeOpcode.imm instr) 21)
      pure ⟨getRdBits instr, machine.pc + 4, target, machine⟩) := by
  simp [execute, op, opcodeJal]

theorem execute_jalr (op : getOpcodeBits instr = opcodeJalr) :
    execute config mode instr machine = (do
      let target ← jumpBefore (((machine.registers (getFormalRs1Bits instr) +
        signExtend (ITypeOpcode.imm instr) 12) &&& ~~~0x1) - 4)
      pure ⟨getRdBits instr, machine.pc + 4, target, machine⟩) := by
  simp [execute, op, opcodeJalr]

theorem execute_branch (op : getOpcodeBits instr = opcodeBranch) :
    execute config mode instr machine = (do
      let taken ← shouldJump (funct3Bits instr) (machine.registers (getFormalRs1Bits instr))
        (machine.registers (getFormalRs2Bits instr))
      let target ← jumpBeforeIf taken
        (machine.pc + signExtend (BTypeOpcode.imm instr) 13 - 4) machine.pc
      pure ⟨0, 0, target, machine⟩) := by
  simp [execute, op, opcodeBranch]

theorem execute_load (op : getOpcodeBits instr = opcodeLoad) :
    execute config mode instr machine = (do
      let numBytes ← loadBytes (funct3Bits instr)
      let operand ← memRead config machine.memory (machine.registers (getFormalRs1Bits instr) +
        signExtend (ITypeOpcode.imm instr) 12).toNat numBytes .memLoad
      let retVal ← loadedValue config (funct3Bits instr) operand
      pure ⟨getRdBits instr, retVal, machine.pc, machine⟩) := by
  simp [execute, op, opcodeLoad]

theorem execute_store (op : getOpcodeBits instr = opcodeStore) :
    execute config mode instr machine = (do
      let storeLength ← storeBytes (funct3Bits instr)
      let memory ← memWrite config machine.memory (signExtend (STypeOpcode.imm instr) 12 +
        machine.registers (getFormalRs1Bits instr)).toNat
        (machine.registers (getFormalRs2Bits instr)) storeLength
      pure ⟨0, 0, machine.pc, { machine with memory }⟩) := by
  simp [execute, op, opcodeStore]

theorem execute_arithmetic
    (op : getOpcodeBits instr = opImmSubmask ∨ getOpcodeBits instr = opSubmask) :
    execute config mode instr machine = (do
      let retVal ← arithmetic config instr (machine.registers (getFormalRs1Bits instr))
        (machine.registers (getFormalRs2Bits instr))
      pure ⟨getRdBits instr, retVal, machine.pc, machine⟩) := by
  rcases op with op | op <;> simp [execute, op, opImmSubmask, opSubmask]

theorem execute_system (op : getOpcodeBits instr = opcodeSystem) :
    execute config mode instr machine = (do
      let (retVal, accessed) ← system config mode instr
        (machine.registers (getFormalRs1Bits instr)) (machine.registers (getFormalRs2Bits instr))
        machine
      pure ⟨getRdBits instr, retVal, machine.pc, accessed⟩) := by
  simp [execute, op, opcodeSystem]

theorem execute_unknown (op : getOpcodeBits instr ∉ Unrolled.executableOpcodes) :
    execute config mode instr machine = illegalInstruction := by
  simp only [Unrolled.executableOpcodes, List.mem_cons, List.not_mem_nil, or_false, not_or] at op
  obtain ⟨lui, auipc, jal, jalr, branch, opImm, register, load, store, system⟩ := op
  have arithmetic : ¬(getOpcodeBits instr = opImmSubmask ∨ getOpcodeBits instr = opSubmask) := by
    simp [opImm, register]
  refine (if_neg lui).trans <| (if_neg auipc).trans <| (if_neg jal).trans <| (if_neg jalr).trans <|
    (if_neg branch).trans <| (if_neg load).trans <| (if_neg store).trans <|
    (if_neg arithmetic).trans <| if_neg system

end

def cycleExt (config : MachineConfig) (state : State M S) : Except Halt (State M S) :=
  if state.waitForInterrupt then .ok state
  else do
    let machine := state.machine
    let instr ← memRead config machine.memory machine.pc.toNat 4 .instruction
    let effect ← execute config state.mode instr machine
    let machine := effect.machine.setRegister effect.rd effect.retVal
    pure { state with machine := { machine with pc := effect.pc + 4 } }

end

end Airbender.Simulator.Reference

import Airbender.Simulator.Delegations
import Airbender.Field.Mersenne31

/-!
# The simulator of the prover

`RiscV32StateForUnrolledProver::cycle`. A panic has no result. Calls of the tracer are collected in
order; checks of debug builds are left out.
-/

namespace Airbender.Simulator.Unrolled

open Option hiding guard guard_false guard_true

inductive TraceEvent where
  | atCycleStart (pc : Word)
  | traceRs1Read (register : BitVec 5) (readValue : Word)
  | traceRs2Read (register : BitVec 5) (readValue : Word)
  | traceRdWrite (register : BitVec 5) (readValue writtenValue : Word)
  | traceNonDeterminismRead (readValue : Word)
  | traceNonDeterminismWrite (writtenValue : Word)
  | traceRamRead (physAddress readValue : Word)
  | traceRamReadWrite (physAddress readValue writtenValue : Word)
  | recordDelegation (record : DelegationRecord)
  | atCycleEnd
deriving DecidableEq

structure Progress (M S : Type) where
  machine : Machine M S
  events : List TraceEvent

variable {M S : Type}

namespace Progress

def trace (progress : Progress M S) (event : TraceEvent) : Progress M S :=
  { progress with events := progress.events ++ [event] }

def writeRd (progress : Progress M S) (rd : BitVec 5) (value : Word) : Progress M S :=
  { machine := progress.machine.setRegister rd value
    events := progress.events ++ [.traceRdWrite rd (progress.machine.registers rd) value] }

def jump (progress : Progress M S) (target : Word) : Option (Progress M S) := do
  guard (target &&& 0x3 = 0)
  some { progress with machine := { progress.machine with pc := target } }

theorem jump_eq (progress : Progress M S) (target : Word) :
    progress.jump target =
      if target &&& 0x3 = 0 then
        some { progress with machine := { progress.machine with pc := target } }
      else none := by
  unfold jump guard
  split_ifs <;> rfl

/-- The target of a branch matters only when it is taken. -/
def jumpIf (progress : Progress M S) (taken : Bool) (target : Word) : Option (Progress M S) :=
  if taken then progress.jump target else some progress

end Progress

def opImmValue (config : MachineConfig) (funct3 : BitVec 3) (funct7 : BitVec 7)
    (operand1 operand2 : Word) : Option Word :=
  let shift := (operand2 &&& 0x1f).toNat
  if funct3 = 0b000 then some (operand1 + operand2)
  else if funct3 = 0b001 ∧ funct7 = sllFunct7 then some (operand1 <<< shift)
  else if funct3 = 0b101 ∧ funct7 = srlFunct7 then some (operand1 >>> shift)
  else if funct3 = 0b101 ∧ funct7 = sraFunct7 then
    if config.supportSra then some (operand1.sshiftRight shift) else none
  else if funct3 = 0b101 ∧ funct7 = rotFunct7 then
    if config.supportRot then some (operand1.rotateRight shift) else none
  else if funct3 = 0b010 then some (if operand1.slt operand2 then 1 else 0)
  else if funct3 = 0b011 then some (if operand1.ult operand2 then 1 else 0)
  else if funct3 = 0b100 then some (operand1 ^^^ operand2)
  else if funct3 = 0b110 then some (operand1 ||| operand2)
  else if funct3 = 0b111 then some (operand1 &&& operand2)
  else none

/-- The multiplication extension, on signed or unsigned 64-bit intermediates. -/
def mulDivValue (config : MachineConfig) (funct3 : BitVec 3) (operand1 operand2 : Word) :
    Option Word :=
  if funct3 = 0b000 then
    if config.supportMul then some (operand1 * operand2) else none
  else if funct3 = 0b001 then
    if config.supportMul && config.supportSignedMul then
      some (((operand1.signExtend 64 * operand2.signExtend 64).sshiftRight 32).setWidth 32)
    else none
  else if funct3 = 0b010 then
    if config.supportMul && config.supportSignedMul then
      some (((operand1.signExtend 64 * operand2.setWidth 64).sshiftRight 32).setWidth 32)
    else none
  else if funct3 = 0b011 then
    if config.supportMul then
      some (((operand1.setWidth 64 * operand2.setWidth 64) >>> 32).setWidth 32)
    else none
  else if funct3 = 0b100 then
    if config.supportDiv && config.supportSignedDiv then
      some (if operand2 = 0 then BitVec.allOnes 32
        else if operand1 = BitVec.intMin 32 ∧ operand2 = BitVec.allOnes 32 then operand1
        else operand1.sdiv operand2)
    else none
  else if funct3 = 0b101 then
    if config.supportDiv then
      some (if operand2 = 0 then 0xffffffff else operand1 / operand2)
    else none
  else if funct3 = 0b110 then
    if config.supportDiv && config.supportSignedDiv then
      some (if operand2 = 0 then operand1
        else if operand1 = BitVec.intMin 32 ∧ operand2 = BitVec.allOnes 32 then 0
        else operand1.srem operand2)
    else none
  else
    if config.supportDiv then some (if operand2 = 0 then operand1 else operand1 % operand2)
    else none

/-- The basic set. Comparisons and bitwise operations do not look at `funct7`. -/
def basicValue (config : MachineConfig) (funct3 : BitVec 3) (funct7 : BitVec 7)
    (operand1 operand2 : Word) : Option Word :=
  let shift := (operand2 &&& 0x1f).toNat
  if funct3 = 0b000 ∧ funct7 = 0 then some (operand1 + operand2)
  else if funct3 = 0b000 ∧ funct7 = subFunct7 then some (operand1 - operand2)
  else if funct3 = 0b001 ∧ funct7 = sllFunct7 then some (operand1 <<< shift)
  else if funct3 = 0b001 ∧ funct7 = rotFunct7 then
    if config.supportRot then some (operand1.rotateLeft shift) else none
  else if funct3 = 0b101 ∧ funct7 = srlFunct7 then some (operand1 >>> shift)
  else if funct3 = 0b101 ∧ funct7 = sraFunct7 then
    if config.supportSra then some (operand1.sshiftRight shift) else none
  else if funct3 = 0b101 ∧ funct7 = rotFunct7 then
    if config.supportRot then some (operand1.rotateRight shift) else none
  else if funct3 = 0b010 then some (if operand1.slt operand2 then 1 else 0)
  else if funct3 = 0b011 then some (if operand1.ult operand2 then 1 else 0)
  else if funct3 = 0b100 then some (operand1 ^^^ operand2)
  else if funct3 = 0b110 then some (operand1 ||| operand2)
  else if funct3 = 0b111 then some (operand1 &&& operand2)
  else none

def opValue (config : MachineConfig) (funct3 : BitVec 3) (funct7 : BitVec 7)
    (operand1 operand2 : Word) : Option Word :=
  if funct7 = mExtFunct7 then mulDivValue config funct3 operand1 operand2
  else basicValue config funct3 funct7 operand1 operand2

def shouldJump (funct3 : BitVec 3) (rs1Value rs2Value : Word) : Option Bool :=
  if funct3 = 0 then some (rs1Value == rs2Value)
  else if funct3 = 1 then some (rs1Value != rs2Value)
  else if funct3 = 4 then some (rs1Value.slt rs2Value)
  else if funct3 = 5 then some (!rs1Value.slt rs2Value)
  else if funct3 = 6 then some (rs1Value.ult rs2Value)
  else if funct3 = 7 then some (!rs1Value.ult rs2Value)
  else none

section

variable [MemorySource M]

def accessIsSupported (config : MachineConfig) (unalignment numBytes : ℕ) : Bool :=
  if config.supportLoadLessThanWord then
    (unalignment, numBytes) ∈ [(0, 4), (0, 2), (2, 2), (0, 1), (1, 1), (2, 1), (3, 1)]
  else (unalignment, numBytes) == (0, 4)

def bytesMask (numBytes : ℕ) : Word :=
  if numBytes = 1 then 0x000000ff else if numBytes = 2 then 0x0000ffff else 0xffffffff

def maskOld (unalignment numBytes : ℕ) : Word :=
  ~~~(bytesMask numBytes <<< (8 * unalignment))

/-- `mem_read`: the aligned word and the part of it that was asked for. -/
def memRead (config : MachineConfig) (memory : M) (physAddress : Word) (numBytes : ℕ) :
    Option (Word × Word) := do
  let unalignment := physAddress.toNat % 4
  let alignedValue ← MemorySource.getNoexcept memory (physAddress.toNat - unalignment)
  guard (accessIsSupported config unalignment numBytes)
  if config.supportLoadLessThanWord then
    some (alignedValue, (alignedValue >>> (8 * unalignment)) &&& bytesMask numBytes)
  else some (alignedValue, alignedValue)

/-- `mem_write`: the aligned word before and after, and the memory. -/
def memWrite (config : MachineConfig) (memory : M) (physAddress value : Word) (numBytes : ℕ) :
    Option (Word × Word × M) := do
  let unalignment := physAddress.toNat % 4
  let alignedAddress := physAddress.toNat - unalignment
  let oldAlignedValue ← MemorySource.getNoexcept memory alignedAddress
  guard (accessIsSupported config unalignment numBytes)
  let newValue :=
    if config.supportLoadLessThanWord then
      ((value &&& bytesMask numBytes) <<< (8 * unalignment)) |||
        (oldAlignedValue &&& maskOld unalignment numBytes)
    else value
  let memory ← MemorySource.setNoexcept memory alignedAddress newValue
  some (oldAlignedValue, newValue, memory)

def loadBytes (funct3 : BitVec 3) : Option ℕ :=
  if funct3 = 0 ∨ funct3 = 4 then some 1
  else if funct3 = 1 ∨ funct3 = 5 then some 2
  else if funct3 = 2 then some 4
  else none

def loadedValue (config : MachineConfig) (funct3 : BitVec 3) (ramReadValue : Word) :
    Option Word :=
  if funct3 = 0 then if config.supportSignedLoad then some (signExtend8 ramReadValue) else none
  else if funct3 = 1 then
    if config.supportSignedLoad then some (signExtend16 ramReadValue) else none
  else if funct3 = 2 then some ramReadValue
  else if funct3 = 4 then some (zeroExtend8 ramReadValue)
  else some (zeroExtend16 ramReadValue)

def load (config : MachineConfig) (opcode rs1Value : Word) (progress : Progress M S) :
    Option (Progress M S) := do
  let loadAddress := rs1Value + signExtend (ITypeOpcode.imm opcode) 12
  let numBytes ← loadBytes (funct3Bits opcode)
  let (alignedRamReadValue, ramReadValue) ←
    memRead config progress.machine.memory loadAddress numBytes
  let progress := progress.trace (.traceRamRead (loadAddress &&& ~~~0x3) alignedRamReadValue)
  let rdValue ← loadedValue config (funct3Bits opcode) ramReadValue
  some (progress.writeRd (getRdBits opcode) rdValue)

def storeBytes (funct3 : BitVec 3) : Option ℕ :=
  if funct3 = 0 ∨ funct3 = 1 ∨ funct3 = 2 then some (1 <<< funct3.toNat) else none

def store (config : MachineConfig) (opcode rs1Value rs2Value : Word) (progress : Progress M S) :
    Option (Progress M S) := do
  let storeAddress := rs1Value + signExtend (STypeOpcode.imm opcode) 12
  let storeLength ← storeBytes (funct3Bits opcode)
  let (oldValue, newValue, memory) ←
    memWrite config progress.machine.memory storeAddress rs2Value storeLength
  some (Progress.trace { progress with machine := { progress.machine with memory } }
    (.traceRamReadWrite (storeAddress &&& ~~~0x3) oldValue newValue))

def mopValue (mopNumber : BitVec 7) (operand1 operand2 : Word) : Option Word :=
  let x : Mersenne31Field := (operand1.toNat : Mersenne31Field)
  let y : Mersenne31Field := (operand2.toNat : Mersenne31Field)
  if mopNumber = 0 then some (Mersenne31Field.toReducedU32 (x + y))
  else if mopNumber = 1 then some (Mersenne31Field.toReducedU32 (x - y))
  else if mopNumber = 2 then some (Mersenne31Field.toReducedU32 (x * y))
  else none

def mopFunct7Test : BitVec 7 := 0b1000001

/-- An encoding that fails the test falls through without any effect. -/
def mop (config : MachineConfig) (opcode rs1Value rs2Value : Word) (progress : Progress M S) :
    Option (Progress M S) := do
  let funct7 := funct7Bits opcode
  if config.supportMops ∧ funct7 &&& mopFunct7Test = mopFunct7Test then
    let mopNumber := ((funct7 &&& 0b110) >>> 1) ||| ((funct7 &&& 0b100000) >>> 5)
    let rdValue ← mopValue mopNumber rs1Value rs2Value
    some (progress.writeRd (getRdBits opcode) rdValue)
  else some progress

variable [NonDeterminismCSRSource M S]

/-- `read`, unless the access is meant to be a write. -/
def oracleRead (M : Type) {S : Type} [NonDeterminismCSRSource M S] (rd : BitVec 5)
    (source : S) : Option (Word × S) :=
  if NonDeterminismCSRSource.shouldMockReadsBeforeWrites M S && rd == 0 then some (0, source)
  else NonDeterminismCSRSource.read M source

/-- `write_with_memory_access`, unless the access is meant to be a read. -/
def oracleWrite (formalRs1 : BitVec 5) (rs1Value : Word) (memory : M) (source : S) : Option S :=
  if NonDeterminismCSRSource.shouldIgnoreWritesAfterReads M S && formalRs1 == 0 then some source
  else NonDeterminismCSRSource.writeWithMemoryAccess source memory rs1Value

def nonDeterminismRead (rd : BitVec 5) (progress : Progress M S) :
    Option (Word × Progress M S) := do
  let (rdValue, source) ← oracleRead M rd progress.machine.source
  let progress := { progress with machine := { progress.machine with source } }
  some (rdValue, progress.trace (.traceNonDeterminismRead rdValue))

def nonDeterminismWrite (formalRs1 : BitVec 5) (rs1Value : Word) (progress : Progress M S) :
    Option (Progress M S) := do
  let source ← oracleWrite formalRs1 rs1Value progress.machine.memory progress.machine.source
  let progress := { progress with machine := { progress.machine with source } }
  some (progress.trace (.traceNonDeterminismWrite rs1Value))

/-- The call of a delegation: its effect, then its record. -/
def delegate (csr : Word) (progress : Progress M S) : Option (Progress M S) := do
  let (machine, record) ←
    processWrite MemorySource.getNoexcept MemorySource.setNoexcept csr progress.machine
  some (Progress.trace { progress with machine } (.recordDelegation record))

/-- The read half of an access to a CSR; only the oracle returns a value. -/
def csrRead (csrNumber : Word) (rd : BitVec 5) (progress : Progress M S) :
    Option (Word × Progress M S) :=
  if csrNumber = nonDeterminismCsr then nonDeterminismRead rd progress else some (0, progress)

def csrWrite (csrNumber : Word) (formalRs1 : BitVec 5) (rs1Value : Word)
    (progress : Progress M S) : Option (Progress M S) :=
  if csrNumber = nonDeterminismCsr then nonDeterminismWrite formalRs1 rs1Value progress
  else if csrNumber = markerCsr then some progress
  else delegate csrNumber progress

def csrAccess (config : MachineConfig) (opcode rs1Value : Word) (progress : Progress M S) :
    Option (Progress M S) := do
  guard (config.supportStandardCsrs = false)
  guard (config.supportOnlyCsrrw = true)
  let csrNumber := ITypeOpcode.imm opcode
  let rd := getRdBits opcode
  let (rdValue, progress) ← csrRead csrNumber rd progress
  guard (funct3Bits opcode = 0b001)
  let progress ← csrWrite csrNumber (getFormalRs1Bits opcode) rs1Value progress
  some (progress.writeRd rd rdValue)

theorem csrAccess_csrrw {config : MachineConfig} (standard : config.supportStandardCsrs = false)
    (onlyCsrrw : config.supportOnlyCsrrw = true) {opcode : Word}
    (funct3 : funct3Bits opcode = 0b001) (rs1Value : Word) (progress : Progress M S) :
    csrAccess config opcode rs1Value progress =
      (csrRead (ITypeOpcode.imm opcode) (getRdBits opcode) progress).bind fun read =>
        (csrWrite (ITypeOpcode.imm opcode) (getFormalRs1Bits opcode) rs1Value read.2).map
          fun written => written.writeRd (getRdBits opcode) read.1 := by
  unfold csrAccess
  simp only [standard, onlyCsrrw, funct3, guard_true, pure_def, bind_eq_bind,
    bind_some, map_eq_bind, Function.comp_def]

theorem csrAccess_of_not_csrrw {config : MachineConfig} {opcode : Word}
    (funct3 : funct3Bits opcode ≠ 0b001) (rs1Value : Word) (progress : Progress M S) :
    csrAccess config opcode rs1Value progress = none := by
  unfold csrAccess
  simp only [funct3, guard_false, failure_eq_none, bind_eq_bind, bind_none,
    bind_fun_none]

def system (config : MachineConfig) (opcode rs1Value rs2Value : Word) (progress : Progress M S) :
    Option (Progress M S) :=
  let funct3 := funct3Bits opcode
  if funct3 = 0b100 then mop config opcode rs1Value rs2Value progress
  else if funct3 &&& 0x3 ≠ 0 then csrAccess config opcode rs1Value progress
  else none

/-- The instruction at `pc` after its operands are read; `progress` already points behind it. -/
def execute (config : MachineConfig) (opcode pc rs1Value rs2Value : Word)
    (progress : Progress M S) : Option (Progress M S) :=
  let op := getOpcodeBits opcode
  let rd := getRdBits opcode
  let funct3 := funct3Bits opcode
  let funct7 := funct7Bits opcode
  if op = opcodeLui then some (progress.writeRd rd (UTypeOpcode.imm opcode))
  else if op = opcodeAuipc then some (progress.writeRd rd (pc + UTypeOpcode.imm opcode))
  else if op = opcodeJal then do
    let jumped ← progress.jump (pc + signExtend (JTypeOpcode.imm opcode) 21)
    some (jumped.writeRd rd progress.machine.pc)
  else if op = opcodeJalr then do
    let jumped ← progress.jump ((rs1Value + signExtend (ITypeOpcode.imm opcode) 12) &&& ~~~0x1)
    some (jumped.writeRd rd progress.machine.pc)
  else if op = opcodeBranch then do
    let taken ← shouldJump funct3 rs1Value rs2Value
    let progress ← progress.jumpIf taken (pc + signExtend (BTypeOpcode.imm opcode) 13)
    some (progress.trace (.traceRdWrite 0 (progress.machine.registers 0) 0))
  else if op = opImmSubmask then do
    let rdValue ← opImmValue config funct3 funct7 rs1Value (signExtend (ITypeOpcode.imm opcode) 12)
    some (progress.writeRd rd rdValue)
  else if op = opSubmask then do
    let rdValue ← opValue config funct3 funct7 rs1Value rs2Value
    some (progress.writeRd rd rdValue)
  else if op = opcodeLoad then load config opcode rs1Value progress
  else if op = opcodeStore then store config opcode rs1Value rs2Value progress
  else if op = opcodeSystem then system config opcode rs1Value rs2Value progress
  else none

section

variable (config : MachineConfig) {opcode : Word} (pc rs1Value rs2Value : Word)
  (progress : Progress M S)

theorem execute_lui (op : getOpcodeBits opcode = opcodeLui) :
    execute config opcode pc rs1Value rs2Value progress =
      some (progress.writeRd (getRdBits opcode) (UTypeOpcode.imm opcode)) := by
  simp [execute, op]

theorem execute_auipc (op : getOpcodeBits opcode = opcodeAuipc) :
    execute config opcode pc rs1Value rs2Value progress =
      some (progress.writeRd (getRdBits opcode) (pc + UTypeOpcode.imm opcode)) := by
  rw [execute, op]
  rfl

theorem execute_jal (op : getOpcodeBits opcode = opcodeJal) :
    execute config opcode pc rs1Value rs2Value progress =
      (progress.jump (pc + signExtend (JTypeOpcode.imm opcode) 21)).map fun jumped =>
        jumped.writeRd (getRdBits opcode) progress.machine.pc := by
  rw [execute, op, map_eq_bind]
  rfl

theorem execute_jalr (op : getOpcodeBits opcode = opcodeJalr) :
    execute config opcode pc rs1Value rs2Value progress =
      (progress.jump ((rs1Value + signExtend (ITypeOpcode.imm opcode) 12) &&& ~~~0x1)).map
        fun jumped => jumped.writeRd (getRdBits opcode) progress.machine.pc := by
  rw [execute, op, map_eq_bind]
  rfl

theorem execute_branch (op : getOpcodeBits opcode = opcodeBranch) :
    execute config opcode pc rs1Value rs2Value progress =
      (shouldJump (funct3Bits opcode) rs1Value rs2Value).bind fun taken =>
        (progress.jumpIf taken (pc + signExtend (BTypeOpcode.imm opcode) 13)).map fun progress =>
          progress.trace (.traceRdWrite 0 (progress.machine.registers 0) 0) := by
  simp only [execute, op, map_eq_bind]
  rfl

theorem execute_opImm (op : getOpcodeBits opcode = opImmSubmask) :
    execute config opcode pc rs1Value rs2Value progress =
      (opImmValue config (funct3Bits opcode) (funct7Bits opcode) rs1Value
        (signExtend (ITypeOpcode.imm opcode) 12)).map
        (progress.writeRd (getRdBits opcode)) := by
  rw [execute, op, map_eq_bind]
  rfl

theorem execute_op (op : getOpcodeBits opcode = opSubmask) :
    execute config opcode pc rs1Value rs2Value progress =
      (opValue config (funct3Bits opcode) (funct7Bits opcode) rs1Value rs2Value).map
        (progress.writeRd (getRdBits opcode)) := by
  rw [execute, op, map_eq_bind]
  rfl

theorem execute_load (op : getOpcodeBits opcode = opcodeLoad) :
    execute config opcode pc rs1Value rs2Value progress =
      load config opcode rs1Value progress := by
  rw [execute, op]
  rfl

theorem execute_store (op : getOpcodeBits opcode = opcodeStore) :
    execute config opcode pc rs1Value rs2Value progress =
      store config opcode rs1Value rs2Value progress := by
  rw [execute, op]
  rfl

theorem execute_system (op : getOpcodeBits opcode = opcodeSystem) :
    execute config opcode pc rs1Value rs2Value progress =
      system config opcode rs1Value rs2Value progress := by
  rw [execute, op]
  rfl

def executableOpcodes : List (BitVec 7) :=
  [opcodeLui, opcodeAuipc, opcodeJal, opcodeJalr, opcodeBranch, opImmSubmask, opSubmask,
    opcodeLoad, opcodeStore, opcodeSystem]

theorem execute_unknown (op : getOpcodeBits opcode ∉ executableOpcodes) :
    execute config opcode pc rs1Value rs2Value progress = none := by
  simp only [executableOpcodes, List.mem_cons, List.not_mem_nil, or_false, not_or] at op
  simp [execute, op]

end

/-- The operand of `rs2`; a load leaves its slot to the access to memory. -/
def rs2Operand (opcode : Word) (machine : Machine M S) : Word :=
  if getOpcodeBits opcode ≠ opcodeLoad then machine.registers (getFormalRs2Bits opcode) else 0

omit [MemorySource M] [NonDeterminismCSRSource M S] in
theorem rs2Operand_of_ne {opcode : Word} {machine : Machine M S}
    (op : getOpcodeBits opcode ≠ opcodeLoad) :
    rs2Operand opcode machine = machine.registers (getFormalRs2Bits opcode) := if_pos op

/-- The reads of the operands, with the program counter already advanced. -/
def readOperands (opcode : Word) (machine : Machine M S) : Progress M S where
  machine := { machine with pc := machine.pc + 4 }
  events :=
    let rs1 := getFormalRs1Bits opcode
    let rs2 := getFormalRs2Bits opcode
    [.atCycleStart machine.pc, .traceRs1Read rs1 (machine.registers rs1)] ++
      if getOpcodeBits opcode ≠ opcodeLoad then [.traceRs2Read rs2 (machine.registers rs2)] else []

/-- `cycle`. The second component is set when the program counter did not move. -/
def cycle (config : MachineConfig) (machine : Machine M S) : Option (Progress M S × Bool) := do
  let opcode ← MemorySource.getOpcodeNoexcept machine.memory machine.pc.toNat
  let progress ← execute config opcode machine.pc (machine.registers (getFormalRs1Bits opcode))
    (rs2Operand opcode machine) (readOperands opcode machine)
  some (progress.trace .atCycleEnd, progress.machine.pc == machine.pc)

/-- The machine after the instruction, which is already fetched. -/
def executed (config : MachineConfig) (instr : Word) (machine : Machine M S) :
    Option (Machine M S) :=
  (execute config instr machine.pc (machine.registers (getFormalRs1Bits instr))
    (rs2Operand instr machine) (readOperands instr machine)).map Progress.machine

theorem machine_cycle_eq (config : MachineConfig) (machine : Machine M S) :
    (cycle config machine).map (fun result => result.1.machine) =
      (MemorySource.getOpcodeNoexcept machine.memory machine.pc.toNat).bind fun instr =>
        executed config instr machine := by
  unfold cycle executed
  simp only [bind_eq_bind, map_eq_bind, bind_assoc, bind_some, Function.comp_def, Progress.trace]

theorem cycle_eq_executed {config : MachineConfig} {instr : Word} {machine : Machine M S}
    (fetched : MemorySource.getOpcodeNoexcept machine.memory machine.pc.toNat = some instr) :
    (cycle config machine).map (fun result => result.1.machine) =
      executed config instr machine := by
  rw [machine_cycle_eq, fetched, bind_some]

end

end Airbender.Simulator.Unrolled

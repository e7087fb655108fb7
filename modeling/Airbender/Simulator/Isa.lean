import Airbender.Lib.WordBytes
import Airbender.RiscV.MulDiv
import Airbender.Simulator.UnrolledCycle

/-!
# The instruction set

The operations of RV32IM, the access to a CSR and the modular operations, their encodings, and the
state each leads to. None of it refers to how the simulators decode, extend, mask or address. Memory
and the delegations are reached through a port, so that the same semantics serves different
machines.
-/

namespace Airbender.Simulator

open RiscV (MulDivInstruction)
open WordBytes (byteAt ofBytes)

/-! The bits of an instruction that the formats give a name. -/

namespace Fields

variable (instr : Word)

def opcode : BitVec 7 := instr.extractLsb' 0 7

def rd : BitVec 5 := instr.extractLsb' 7 5

def funct3 : BitVec 3 := instr.extractLsb' 12 3

def rs1 : BitVec 5 := instr.extractLsb' 15 5

def rs2 : BitVec 5 := instr.extractLsb' 20 5

def funct7 : BitVec 7 := instr.extractLsb' 25 7

def csr : BitVec 12 := instr.extractLsb' 20 12

def immediateI : Word := (instr.extractLsb' 20 12).signExtend 32

def immediateS : Word := (instr.extractLsb' 25 7 ++ instr.extractLsb' 7 5).signExtend 32

def immediateB : Word :=
  (instr.extractLsb' 31 1 ++ instr.extractLsb' 7 1 ++ instr.extractLsb' 25 6 ++
    instr.extractLsb' 8 4 ++ 0#1).signExtend 32

def immediateU : Word := instr.extractLsb' 12 20 ++ 0#12

def immediateJ : Word :=
  (instr.extractLsb' 31 1 ++ instr.extractLsb' 12 8 ++ instr.extractLsb' 20 1 ++
    instr.extractLsb' 21 10 ++ 0#1).signExtend 32

end Fields

inductive AluOperation where
  | add
  | sub
  | sll
  | slt
  | sltu
  | xor
  | srl
  | sra
  | or
  | and
deriving DecidableEq

namespace AluOperation

def result (operation : AluOperation) (x y : Word) : Word :=
  match operation with
  | add => x + y
  | sub => x - y
  | sll => x <<< (y &&& 0x1f).toNat
  | slt => if x.slt y then 1 else 0
  | sltu => if x.ult y then 1 else 0
  | xor => x ^^^ y
  | srl => x >>> (y &&& 0x1f).toNat
  | sra => x.sshiftRight (y &&& 0x1f).toNat
  | or => x ||| y
  | and => x &&& y

/-- The operations that leave no choice to `funct7`. -/
def ofFunct3 (funct3 : BitVec 3) : Option AluOperation :=
  if funct3 = 0b010 then some slt
  else if funct3 = 0b011 then some sltu
  else if funct3 = 0b100 then some xor
  else if funct3 = 0b110 then some or
  else if funct3 = 0b111 then some and
  else none

/-- Shifts have the same encoding in both formats. -/
def ofShiftFields (funct3 : BitVec 3) (funct7 : BitVec 7) : Option AluOperation :=
  if funct3 = 0b001 ∧ funct7 = 0b0000000 then some sll
  else if funct3 = 0b101 ∧ funct7 = 0b0000000 then some srl
  else if funct3 = 0b101 ∧ funct7 = 0b0100000 then some sra
  else none

def ofImmediateFields (funct3 : BitVec 3) (funct7 : BitVec 7) : Option AluOperation :=
  if funct3 = 0b000 then some add
  else if funct3 = 0b001 ∨ funct3 = 0b101 then ofShiftFields funct3 funct7
  else ofFunct3 funct3

def ofRegisterFields (funct3 : BitVec 3) (funct7 : BitVec 7) : Option AluOperation :=
  if funct3 = 0b000 ∧ funct7 = 0b0000000 then some add
  else if funct3 = 0b000 ∧ funct7 = 0b0100000 then some sub
  else if funct3 = 0b001 ∨ funct3 = 0b101 then ofShiftFields funct3 funct7
  else if funct7 = 0b0000000 then ofFunct3 funct3
  else none

end AluOperation

inductive BranchCondition where
  | eq
  | ne
  | lt
  | ge
  | ltu
  | geu
deriving DecidableEq

namespace BranchCondition

def holds (condition : BranchCondition) (x y : Word) : Bool :=
  match condition with
  | eq => x == y
  | ne => x != y
  | lt => x.slt y
  | ge => !x.slt y
  | ltu => x.ult y
  | geu => !x.ult y

def ofFunct3 (funct3 : BitVec 3) : Option BranchCondition :=
  if funct3 = 0b000 then some eq
  else if funct3 = 0b001 then some ne
  else if funct3 = 0b100 then some lt
  else if funct3 = 0b101 then some ge
  else if funct3 = 0b110 then some ltu
  else if funct3 = 0b111 then some geu
  else none

end BranchCondition

inductive LoadKind where
  | lb
  | lh
  | lw
  | lbu
  | lhu
deriving DecidableEq

namespace LoadKind

def bytes : LoadKind → ℕ
  | lb => 1
  | lh => 2
  | lw => 4
  | lbu => 1
  | lhu => 2

def extend (kind : LoadKind) (value : Word) : Word :=
  match kind with
  | lb => (value.setWidth 8).signExtend 32
  | lh => (value.setWidth 16).signExtend 32
  | lw => value
  | lbu => (value.setWidth 8).setWidth 32
  | lhu => (value.setWidth 16).setWidth 32

def ofFunct3 (funct3 : BitVec 3) : Option LoadKind :=
  if funct3 = 0b000 then some lb
  else if funct3 = 0b001 then some lh
  else if funct3 = 0b010 then some lw
  else if funct3 = 0b100 then some lbu
  else if funct3 = 0b101 then some lhu
  else none

end LoadKind

inductive StoreKind where
  | sb
  | sh
  | sw
deriving DecidableEq

namespace StoreKind

def bytes : StoreKind → ℕ
  | sb => 1
  | sh => 2
  | sw => 4

def ofFunct3 (funct3 : BitVec 3) : Option StoreKind :=
  if funct3 = 0b000 then some sb
  else if funct3 = 0b001 then some sh
  else if funct3 = 0b010 then some sw
  else none

end StoreKind

inductive ModularOperation where
  | addmod
  | submod
  | mulmod
deriving DecidableEq

namespace ModularOperation

def result (operation : ModularOperation) (x y : Word) : Word :=
  let x : Mersenne31Field := (x.toNat : Mersenne31Field)
  let y : Mersenne31Field := (y.toNat : Mersenne31Field)
  match operation with
  | addmod => Mersenne31Field.toReducedU32 (x + y)
  | submod => Mersenne31Field.toReducedU32 (x - y)
  | mulmod => Mersenne31Field.toReducedU32 (x * y)

def ofFunct7 (funct7 : BitVec 7) : Option ModularOperation :=
  if funct7 = 0b1000001 then some addmod
  else if funct7 = 0b1000011 then some submod
  else if funct7 = 0b1000101 then some mulmod
  else none

end ModularOperation

def mulDivOfFunct3 (funct3 : BitVec 3) : MulDivInstruction :=
  if funct3 = 0b000 then .mul
  else if funct3 = 0b001 then .mulh
  else if funct3 = 0b010 then .mulhsu
  else if funct3 = 0b011 then .mulhu
  else if funct3 = 0b100 then .div
  else if funct3 = 0b101 then .divu
  else if funct3 = 0b110 then .rem
  else .remu

inductive Operation where
  | lui
  | auipc
  | jal
  | jalr
  | branch (condition : BranchCondition)
  | load (kind : LoadKind)
  | store (kind : StoreKind)
  | aluImmediate (operation : AluOperation)
  | alu (operation : AluOperation)
  | mulDiv (instruction : MulDivInstruction)
  | csrrw
  | modular (operation : ModularOperation)
  /-- `ECALL` and `EBREAK`, which no machine supports. -/
  | environment
  /-- Not supported by any machine either. -/
  | fence
deriving DecidableEq

namespace Operation

def ofFields (op : BitVec 7) (funct3 : BitVec 3) (funct7 : BitVec 7) : Option Operation :=
  if op = 0b0110111 then some lui
  else if op = 0b0010111 then some auipc
  else if op = 0b1101111 then some jal
  else if op = 0b1100111 then if funct3 = 0b000 then some jalr else none
  else if op = 0b1100011 then (BranchCondition.ofFunct3 funct3).map branch
  else if op = 0b0000011 then (LoadKind.ofFunct3 funct3).map load
  else if op = 0b0100011 then (StoreKind.ofFunct3 funct3).map store
  else if op = 0b0010011 then (AluOperation.ofImmediateFields funct3 funct7).map aluImmediate
  else if op = 0b0110011 then
    if funct7 = 0b0000001 then some (mulDiv (mulDivOfFunct3 funct3))
    else (AluOperation.ofRegisterFields funct3 funct7).map alu
  else if op = 0b1110011 then
    if funct3 = 0b000 ∧ funct7 = 0 then some environment
    else if funct3 = 0b001 then some csrrw
    else if funct3 = 0b100 then (ModularOperation.ofFunct7 funct7).map modular
    else none
  else if op = 0b0001111 ∧ funct3 = 0b000 then some fence
  else none

def decode (instr : Word) : Option Operation :=
  ofFields (Fields.opcode instr) (Fields.funct3 instr) (Fields.funct7 instr)

end Operation

def MachineConfig.supports (config : MachineConfig) : Operation → Bool
  | .load .lb | .load .lh => config.supportSignedLoad
  | .aluImmediate .sra | .alu .sra => config.supportSra
  | .mulDiv .mul | .mulDiv .mulhu => config.supportMul
  | .mulDiv .mulh | .mulDiv .mulhsu => config.supportMul && config.supportSignedMul
  | .mulDiv .div | .mulDiv .rem => config.supportDiv && config.supportSignedDiv
  | .mulDiv .divu | .mulDiv .remu => config.supportDiv
  | .modular _ => config.supportMops
  | .environment | .fence => false
  | _ => true

structure Port (M S : Type) where
  load : M → (address : ℕ) → Option Word
  store : M → (address : ℕ) → Word → Option M
  /-- What a delegation does to the machine is not up to the instruction set. -/
  delegate : BitVec 12 → Machine M S → Option (Machine M S)

namespace Operation

/-- The word `old` with `count` of its bytes, from `first` on, taken from the lowest of `value`. -/
def replaceBytes (old value : Word) (first count : ℕ) : Word :=
  ofBytes fun index =>
    if first ≤ index ∧ index < first + count then byteAt value (index - first)
    else byteAt old index

/-- Accesses are aligned; some machines only have those to whole words. -/
def accessAllowed (config : MachineConfig) (address : Word) (bytes : ℕ) : Bool :=
  bytes ∣ address.toNat ∧ (bytes = 4 ∨ config.supportLoadLessThanWord)

variable {M S : Type}

def jumpTo (machine : Machine M S) (target : Word) : Option (Machine M S) := do
  guard (4 ∣ target.toNat)
  some { machine with pc := target }

variable [NonDeterminismCSRSource M S]

/-- `CSRRW` with the oracle reads a word and then writes one. An oracle may want to be spared the
read if its result is dropped, and the write if it is that of register zero. -/
def oracleAccess (rd rs1 : BitVec 5) (value : Word) (machine : Machine M S) :
    Option (Word × Machine M S) := do
  let (answer, source) ←
    (if rd = 0 ∧ NonDeterminismCSRSource.shouldMockReadsBeforeWrites M S then
      some (0, machine.source)
    else NonDeterminismCSRSource.read M machine.source)
  let source ←
    (if rs1 = 0 ∧ NonDeterminismCSRSource.shouldIgnoreWritesAfterReads M S then some source
    else NonDeterminismCSRSource.writeWithMemoryAccess source machine.memory value)
  some (answer, { machine with source })

/-- `0x7c0` is the oracle and `0x7ff` a marker; the others ask for a delegation, and read zero. -/
def csrAccess (port : Port M S) (csr : BitVec 12) (rd rs1 : BitVec 5) (value : Word)
    (machine : Machine M S) : Option (Word × Machine M S) :=
  if csr = 0x7c0 then oracleAccess rd rs1 value machine
  else if csr = 0x7ff then some (0, machine)
  else (port.delegate csr machine).map fun delegated => (0, delegated)

def execute (port : Port M S) (config : MachineConfig) (operation : Operation) (instr : Word)
    (machine : Machine M S) : Option (Machine M S) := do
  guard (config.supports operation)
  let rd := Fields.rd instr
  let rs1 := machine.registers (Fields.rs1 instr)
  let rs2 := machine.registers (Fields.rs2 instr)
  let next : Machine M S := { machine with pc := machine.pc + 4 }
  match operation with
  | lui => some (next.setRegister rd (Fields.immediateU instr))
  | auipc => some (next.setRegister rd (machine.pc + Fields.immediateU instr))
  | jal => do
      let jumped ← jumpTo machine (machine.pc + Fields.immediateJ instr)
      some (jumped.setRegister rd next.pc)
  | jalr => do
      let jumped ← jumpTo machine ((rs1 + Fields.immediateI instr) &&& ~~~0x1)
      some (jumped.setRegister rd next.pc)
  | branch condition =>
    if condition.holds rs1 rs2 then jumpTo machine (machine.pc + Fields.immediateB instr)
    else some next
  | load kind => do
      let address := rs1 + Fields.immediateI instr
      guard (accessAllowed config address kind.bytes)
      let word ← port.load machine.memory (address.toNat / 4 * 4)
      some (next.setRegister rd (kind.extend (word >>> (8 * (address.toNat % 4)))))
  | store kind => do
      let address := rs1 + Fields.immediateS instr
      guard (accessAllowed config address kind.bytes)
      let old ← port.load machine.memory (address.toNat / 4 * 4)
      let memory ← port.store machine.memory (address.toNat / 4 * 4)
        (replaceBytes old rs2 (address.toNat % 4) kind.bytes)
      some { next with memory }
  | aluImmediate operation =>
    some (next.setRegister rd (operation.result rs1 (Fields.immediateI instr)))
  | alu operation => some (next.setRegister rd (operation.result rs1 rs2))
  | mulDiv instruction => some (next.setRegister rd (instruction.result rs1 rs2))
  | csrrw => do
      let (value, accessed) ← csrAccess port (Fields.csr instr) rd (Fields.rs1 instr) rs1 next
      some (accessed.setRegister rd value)
  | modular operation => some (next.setRegister rd (operation.result rs1 rs2))
  | environment => none
  | fence => none

end Operation

end Airbender.Simulator

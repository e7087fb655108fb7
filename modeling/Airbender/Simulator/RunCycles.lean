import Airbender.Simulator.UnrolledCycle

/-!
# Runs of many cycles

`run_cycles` and the memory that a run starts with. All cycles of a chunk are run, even after the
program has come to its end, which it shows by a cycle that does not move the program counter.
-/

namespace Airbender.Simulator

def entryPoint : Word := 0

def Machine.initial {M S : Type} (initialPc : Word) (memory : M) (source : S) : Machine M S where
  registers _ := 0
  pc := initialPc
  memory := memory
  source := source

namespace VectorMemoryImplWithRom

def newForByteSize (bytes romBound : ℕ) : Option VectorMemoryImplWithRom := do
  guard (romBound ≠ 0 ∧ 2 ^ romBound.log2 = romBound)
  guard (romBound % 4 = 0)
  guard (bytes % 4 = 0)
  guard (romBound ≤ bytes)
  some ⟨.zeroed (max romBound bytes / 4), romBound⟩

def populate (memory : VectorMemoryImplWithRom) (address : Word) (value : Word) :
    Option VectorMemoryImplWithRom := do
  guard (address.toNat % 4 = 0)
  guard (address.toNat / 4 < memory.ram.length)
  some { memory with ram := memory.ram.set (address.toNat / 4) value }

/-- The words of memory with those of the ROM cleared. -/
def getFinalRamState (memory : VectorMemoryImplWithRom) (index : ℕ) : Word :=
  if index < memory.romBound / 4 then 0 else memory.ram.word index

end VectorMemoryImplWithRom

/-- Both kinds of memory are filled with a binary word by word. -/
def populateBinary {M : Type} (populate : M → Word → Word → Option M) (memory : M)
    (binary : List Word) : Option M :=
  binary.zipIdx.foldlM
    (fun memory (insn, idx) => populate memory (entryPoint + BitVec.ofNat 32 idx * 4) insn) memory

namespace Unrolled

variable {M S : Type} [MemorySource M] [NonDeterminismCSRSource M S]

/-- `run_cycles`. The second component is set when some cycle did not move the program counter. -/
def runCycles (config : MachineConfig) : (numCycles : ℕ) → Machine M S →
    Option (Progress M S × Bool)
  | 0, machine => some (⟨machine, []⟩, false)
  | numCycles + 1, machine => do
      let (progress, finished) ← cycle config machine
      let (rest, finishedLater) ← runCycles config numCycles progress.machine
      some (⟨rest.machine, progress.events ++ rest.events⟩, finished || finishedLater)

def selfJump : Word := 0x6f

/-- What an instruction is traced as that neither accesses memory nor a CSR. -/
def registerEvents (pc : Word) (rs1 rs2 rd : BitVec 5) (rs1Value rs2Value old new : Word) :
    List TraceEvent :=
  [.atCycleStart pc, .traceRs1Read rs1 rs1Value, .traceRs2Read rs2 rs2Value,
    .traceRdWrite rd old new, .atCycleEnd]

theorem cycle_selfJump (config : MachineConfig) {machine : Machine M S}
    (fetched : MemorySource.getOpcodeNoexcept machine.memory machine.pc.toNat = some selfJump)
    (zero : machine.registers 0 = 0) (aligned : machine.pc &&& 0x3 = 0) :
    cycle config machine =
      some (⟨machine, registerEvents machine.pc 0 0 0 0 0 0 (machine.pc + 4)⟩, true) := by
  have target : machine.pc + signExtend (JTypeOpcode.imm selfJump) 21 = machine.pc := by
    have offset : signExtend (JTypeOpcode.imm selfJump) 21 = 0 := by decide
    rw [offset]
    exact BitVec.add_zero _
  have registers : Function.update machine.registers 0 0 = machine.registers := by
    rw [Function.update_eq_self_iff]
    exact zero.symm
  have rd : getRdBits selfJump = 0 := by decide
  have rs1 : getFormalRs1Bits selfJump = 0 := by decide
  have rs2 : getFormalRs2Bits selfJump = 0 := by decide
  have notLoad : getOpcodeBits selfJump ≠ opcodeLoad := by decide
  simp only [cycle, fetched, Option.bind_eq_bind, Option.bind_some]
  rw [execute_jal config _ _ _ _ (by decide), target, Progress.jump_eq, if_pos aligned]
  simp only [Option.map_some, Option.bind_some, Progress.writeRd, Progress.trace, readOperands,
    Machine.setRegister, rd, rs1, rs2, if_true, registers, zero, notLoad, ne_eq,
    not_false_eq_true, registerEvents, beq_self_eq_true]
  rfl

end Unrolled

end Airbender.Simulator

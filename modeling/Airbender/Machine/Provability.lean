import Airbender.Machine.DecoderProof
import Airbender.Simulator.IsaRefinement

/-!
# Simulated instructions against the decoder

Whether the decoder of the full machine has a family and variant for what the simulator of the
prover executes, and whether it stands for the same operation.
-/

namespace Airbender.Machine

open CircuitLib Circuit Mersenne31Field Cs
open Simulator (Word Operation AluOperation BranchCondition Machine MemorySource
  NonDeterminismCSRSource imStandardIsaConfig getOpcodeBits funct3Bits funct7Bits)
open Simulator.Unrolled (Tolerated executableOpcodes)

def aluOperation (format : InstructionType) (operation : AluOperation) : Option Operation :=
  if format = .rType then some (.alu operation)
  else if format = .iType then some (.aluImmediate operation)
  else none

def binaryOperation (funct3 : BitVec 3) : Option AluOperation :=
  if funct3 = 0b100 then some .xor
  else if funct3 = 0b110 then some .or
  else if funct3 = 0b111 then some .and
  else none

def comparison (funct3 : BitVec 3) : Option AluOperation :=
  if funct3 = 0b010 then some .slt else if funct3 = 0b011 then some .sltu else none

/-- The operation that the flags of a family stand for. The families of bitwise operations, of
comparisons and of branches look at `funct3` themselves; a machine without accesses to parts of a
word reads and writes words without a flag. -/
def denoted (format : InstructionType) (major : DecoderMajorInstructionFamilyKey)
    (minors : List DecoderInstructionVariantsKey) (funct3 : BitVec 3) : Option Operation :=
  match major with
  | .add => aluOperation format .add
  | .sub => aluOperation format .sub
  | .lui => some .lui
  | .auipc => some .auipc
  | .binopCommon => (binaryOperation funct3).bind (aluOperation format)
  | .mulCommon =>
    if .mul ∈ minors then some (.mulDiv .mul)
    else if .mulh ∈ minors then some (.mulDiv .mulh)
    else if .mulhsu ∈ minors then some (.mulDiv .mulhsu)
    else some (.mulDiv .mulhu)
  | .divRemCommon =>
    if .div ∈ minors then some (.mulDiv .div)
    else if .divu ∈ minors then some (.mulDiv .divu)
    else if .rem ∈ minors then some (.mulDiv .rem)
    else some (.mulDiv .remu)
  | .conditionalCommon =>
    if format = .bType then (BranchCondition.ofFunct3 funct3).map .branch
    else (comparison funct3).bind (aluOperation format)
  | .shiftCommon =>
    if .shiftCyclic ∈ minors then none
    else if .shiftRightAlgebraic ∈ minors then aluOperation format .sra
    else if .shiftRight ∈ minors then aluOperation format .srl
    else aluOperation format .sll
  | .jumpCommon => if .jal ∈ minors then some .jal else some .jalr
  | .loadCommon =>
    if .loadWord ∈ minors then some (.load .lw)
    else if .loadHalfWord ∈ minors then
      if .signExtendOnLoad ∈ minors then some (.load .lh) else some (.load .lhu)
    else if .signExtendOnLoad ∈ minors then some (.load .lb)
    else some (.load .lbu)
  | .storeCommon =>
    if .storeWord ∈ minors then some (.store .sw)
    else if .storeHalfWord ∈ minors then some (.store .sh)
    else some (.store .sb)
  | .csrCommon => if .csrrw ∈ minors then some .csrrw else none
  | .mop =>
    if .addmod ∈ minors then some (.modular .addmod)
    else if .submod ∈ minors then some (.modular .submod)
    else if .mulmod ∈ minors then some (.modular .mulmod)
    else none

def fullIsaOperation (op : BitVec 7) (funct3 : BitVec 3) (funct7 : BitVec 7) : Option Operation :=
  (supportedSubspace fullIsaOpcodes op.toNat funct3.toNat funct7.toNat).bind
    fun (format, major, minors) => denoted format major minors funct3

theorem wordField_opcode (word : Word) : wordField word 0 7 = (getOpcodeBits word).toNat := by
  simp [wordField, getOpcodeBits]

theorem wordField_funct3 (word : Word) : wordField word 12 3 = (funct3Bits word).toNat := by
  simp [wordField, funct3Bits, Nat.shiftRight_eq_div_pow]

theorem wordField_funct7 (word : Word) : wordField word 25 7 = (funct7Bits word).toNat := by
  simp [wordField, funct7Bits, Nat.shiftRight_eq_div_pow]

theorem fullIsaOperation_opImm : ∀ (funct3 : BitVec 3) (funct7 : BitVec 7),
    fullIsaOperation Simulator.opImmSubmask funct3 funct7 =
      (Operation.ofFields Simulator.opImmSubmask funct3 funct7).filter
        imStandardIsaConfig.supports := by
  decide +kernel

theorem fullIsaOperation_op : ∀ (funct3 : BitVec 3) (funct7 : BitVec 7),
    fullIsaOperation Simulator.opSubmask funct3 funct7 =
      (Operation.ofFields Simulator.opSubmask funct3 funct7).filter
        imStandardIsaConfig.supports := by
  decide +kernel

theorem fullIsaOperation_system : ∀ (funct3 : BitVec 3) (funct7 : BitVec 7),
    fullIsaOperation Simulator.opcodeSystem funct3 funct7 =
      (Operation.ofFields Simulator.opcodeSystem funct3 funct7).filter
        imStandardIsaConfig.supports := by
  decide +kernel

theorem fullIsaOperation_eq {op : BitVec 7} (executable : op ∈ executableOpcodes)
    (funct3 : BitVec 3) (funct7 : BitVec 7) :
    fullIsaOperation op funct3 funct7 =
      (Operation.ofFields op funct3 funct7).filter imStandardIsaConfig.supports := by
  simp only [executableOpcodes, List.mem_cons, List.not_mem_nil, or_false] at executable
  rcases executable with rfl | rfl | rfl | rfl | rfl | rfl | rfl | rfl | rfl | rfl
  case inr.inr.inr.inr.inr.inl => exact fullIsaOperation_opImm funct3 funct7
  case inr.inr.inr.inr.inr.inr.inl => exact fullIsaOperation_op funct3 funct7
  case inr.inr.inr.inr.inr.inr.inr.inr.inr => exact fullIsaOperation_system funct3 funct7
  -- The other opcodes do not look at `funct7`.
  all_goals
    rcases Simulator.eq_of_bitVec_three funct3 with
      rfl | rfl | rfl | rfl | rfl | rfl | rfl | rfl <;> rfl

theorem unsupported_of_loose : ∀ (funct3 : BitVec 3) (funct7 : BitVec 7),
    Simulator.looseFunct7 funct3 funct7 →
      supportedSubspace fullIsaOpcodes Simulator.opSubmask.toNat funct3.toNat funct7.toNat =
        none := by
  decide +kernel

theorem unsupported_of_tolerated {instr : Word} (tolerated : Tolerated imStandardIsaConfig instr) :
    instructionSubspace fullIsaOpcodes instr = none := by
  rw [instructionSubspace, wordField_opcode, wordField_funct3, wordField_funct7,
    Simulator.getOpcodeBits_eq, Simulator.funct3Bits_eq, Simulator.funct7Bits_eq]
  rcases tolerated with ⟨op, funct3⟩ | ⟨op, loose⟩ | ⟨op, funct3, _⟩
  · rw [op]
    generalize Simulator.Fields.funct3 instr = bits at *
    rcases Simulator.eq_of_bitVec_three bits with
      rfl | rfl | rfl | rfl | rfl | rfl | rfl | rfl <;>
      first
      | rfl
      | exact absurd rfl funct3
  · rw [op]
    exact unsupported_of_loose _ _ loose
  · rw [op, funct3]
    rfl

variable {M S : Type} [MemorySource M] [NonDeterminismCSRSource M S]

/-- The decoder of the full machine assigns an instruction to one family and variant, which stands
for an operation that leads from one machine to another. -/
def Provable (tables : TableDriver) (instr : Word) (before after : Machine M S) : Prop :=
  ∃ format major minors operation,
    Assigns fullIsaOpcodes tables instr format major minors ∧
      denoted format major minors (funct3Bits instr) = some operation ∧
      operation.execute Simulator.Unrolled.port imStandardIsaConfig instr before = some after

theorem provable_of_specified {tables : TableDriver}
    (decoderTables : DecoderTables fullIsaOpcodes tables) {instr : Word}
    (executable : getOpcodeBits instr ∈ executableOpcodes) {before after : Machine M S}
    (specified : Simulator.Unrolled.specified imStandardIsaConfig instr before = some after) :
    Provable tables instr before after := by
  obtain ⟨operation, decoded, executes⟩ := Option.bind_eq_some_iff.mp specified
  have supports : imStandardIsaConfig.supports operation = true := by
    by_contra unsupported
    simp [Operation.execute, unsupported] at executes
  have denoted : fullIsaOperation (getOpcodeBits instr) (funct3Bits instr) (funct7Bits instr) =
      some operation := by
    rw [fullIsaOperation_eq executable]
    exact Option.filter_eq_some_iff.mpr ⟨decoded, supports⟩
  obtain ⟨⟨format, major, minors⟩, supported, denotes⟩ := Option.bind_eq_some_iff.mp denoted
  rw [← wordField_opcode, ← wordField_funct3, ← wordField_funct7] at supported
  exact ⟨format, major, minors, operation, assigns_of_supported decoderTables supported, denotes,
    executes⟩

/-- An instruction that the simulator executes is provable unless the simulator only tolerates its
encoding. -/
theorem simulated_instruction_provable_iff {tables : TableDriver}
    (decoderTables : DecoderTables fullIsaOpcodes tables) {machine : Machine M S} {instr : Word}
    (fetched : MemorySource.getOpcodeNoexcept machine.memory machine.pc.toNat = some instr)
    {progress : Simulator.Unrolled.Progress M S} {finished : Bool}
    (completed : Simulator.Unrolled.cycle imStandardIsaConfig machine = some (progress, finished)) :
    Provable tables instr machine progress.machine ↔ ¬ Tolerated imStandardIsaConfig instr := by
  have executed : Simulator.Unrolled.executed imStandardIsaConfig instr machine =
      some progress.machine := by
    rw [← Simulator.Unrolled.cycle_eq_executed fetched, completed]
    rfl
  constructor
  · rintro ⟨format, major, minors, _, assigns, _⟩ tolerated
    exact not_assigns_of_unsupported decoderTables (unsupported_of_tolerated tolerated) _ _ _
      assigns
  · intro strict
    have known : imStandardIsaConfig ∈ Simulator.machineConfigs := List.mem_cons_self
    have executable : getOpcodeBits instr ∈ executableOpcodes := by
      by_contra unknown
      rw [Simulator.Unrolled.executed,
        Simulator.Unrolled.execute_unknown _ _ _ _ _ unknown] at executed
      exact absurd executed (by simp)
    rw [Simulator.Unrolled.executed_eq_specified known strict] at executed
    exact provable_of_specified decoderTables executable executed

theorem simulated_jump_provable :
    ∃ progress finished,
      Simulator.Unrolled.cycle imStandardIsaConfig
          (Simulator.oneInstruction 0x0000006f fun _ => 0) = some (progress, finished) ∧
        Provable (decoderTableDriver fullIsaOpcodes) 0x0000006f
          (Simulator.oneInstruction 0x0000006f fun _ => 0) progress.machine := by
  have completes : (Simulator.Unrolled.cycle imStandardIsaConfig
      (Simulator.oneInstruction 0x0000006f fun _ => 0)).isSome = true := by decide +kernel
  obtain ⟨⟨progress, finished⟩, completed⟩ := Option.isSome_iff_exists.mp completes
  refine ⟨progress, finished, completed, ?_⟩
  refine (simulated_instruction_provable_iff (decoderTables_driver _) rfl completed).mpr ?_
  rintro (⟨op, _⟩ | ⟨op, _⟩ | ⟨op, _⟩) <;> exact absurd op (by decide)

/-- `JALR` with `funct3 = 1`, a comparison with the `funct7` of a subtraction, and a `SYSTEM`
instruction with `funct3 = 4`. -/
theorem tolerated_instructions_not_provable :
    ([0x00001067, 0x40002033, 0x00004073] : List Word).Forall fun instr =>
      (Simulator.Unrolled.cycle imStandardIsaConfig
          (Simulator.oneInstruction instr fun _ => 0)).isSome = true ∧
        ∀ format major minors,
          ¬ Assigns fullIsaOpcodes (decoderTableDriver fullIsaOpcodes) instr format major
            minors := by
  apply List.forall_iff_forall_mem.mpr
  intro instr member
  have unassigned : Tolerated imStandardIsaConfig instr → ∀ format major minors,
      ¬ Assigns fullIsaOpcodes (decoderTableDriver fullIsaOpcodes) instr format major minors :=
    fun tolerated => not_assigns_of_unsupported (decoderTables_driver _)
      (unsupported_of_tolerated tolerated)
  simp only [List.mem_cons, List.not_mem_nil, or_false] at member
  rcases member with rfl | rfl | rfl
  · exact ⟨by decide +kernel, unassigned (.inl (by decide))⟩
  · exact ⟨by decide +kernel, unassigned (.inr (.inl (by decide)))⟩
  · exact ⟨by decide +kernel, unassigned (.inr (.inr (by decide)))⟩

end Airbender.Machine

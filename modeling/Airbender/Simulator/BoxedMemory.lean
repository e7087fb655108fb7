import Airbender.Simulator.RunCycles

/-!
# The memory of the workers

`BoxedMemoryImplWithRom` truncates addresses and compares them with the bound of the ROM by a mask.
On the accesses of the simulator it is the memory of the sequential run.
-/

namespace Airbender.Simulator

open Nat BitVec Function
open Option hiding guard guard_true

/-- The sizes are parameters of the type. -/
structure BoxedMemoryImplWithRom (ramSize logRomBound : ℕ) where
  words : ℕ → Word

namespace BoxedMemoryImplWithRom

variable {ramSize logRomBound : ℕ}

def romBoundMask (logRomBound : ℕ) : Word := ((1 : Word) <<< logRomBound) - 1

def new (ramSize logRomBound : ℕ) : Option (BoxedMemoryImplWithRom ramSize logRomBound) := do
  guard (2 ^ logRomBound ≤ ramSize)
  guard (ramSize % 4 = 0)
  some ⟨fun _ => 0⟩

variable (memory : BoxedMemoryImplWithRom ramSize logRomBound)

def populate (address value : Word) :
    Option (BoxedMemoryImplWithRom ramSize logRomBound) := do
  guard (address.toNat / 4 < ramSize / 4)
  some ⟨Function.update memory.words (address.toNat / 4) value⟩

/-- The assertion looks at the address inside of the ROM, not at its other bits. -/
def get (physAddress : ℕ)
    (accessType : AccessType) : Option (Word × Option TrapReason) :=
  let physAddress := BitVec.ofNat 32 physAddress
  if physAddress.toNat < ramSize then
    if physAddress &&& romBoundMask logRomBound = 0 ∧
        ¬(accessType = .instruction ∨ accessType = .memLoad) then none
    else some (memory.words (physAddress.toNat / 4), none)
  else (accessFault accessType).map fun trap => (0, some trap)

def set (physAddress : ℕ) (value : Word)
    (accessType : AccessType) :
    Option (BoxedMemoryImplWithRom ramSize logRomBound × Option TrapReason) :=
  let physAddress := BitVec.ofNat 32 physAddress
  if physAddress.toNat < ramSize then
    if physAddress &&& ~~~romBoundMask logRomBound = 0 then none
    else some (⟨Function.update memory.words (physAddress.toNat / 4) value⟩, none)
  else (accessFault accessType).map fun trap => (memory, some trap)

def setNoexcept (physAddress : ℕ)
    (value : Word) : Option (BoxedMemoryImplWithRom ramSize logRomBound) :=
  let physAddress := BitVec.ofNat 32 physAddress
  if physAddress.toNat < ramSize then
    if physAddress &&& ~~~romBoundMask logRomBound = 0 then none
    else some ⟨Function.update memory.words (physAddress.toNat / 4) value⟩
  else none

def getNoexcept (physAddress : ℕ) :
    Option Word :=
  let physAddress := BitVec.ofNat 32 physAddress
  if physAddress.toNat < ramSize then some (memory.words (physAddress.toNat / 4)) else none

/-- The source reads without a check; outside of memory that is undefined. -/
def getOpcodeNoexcept (physAddress : ℕ) :
    Option Word :=
  let physAddress := BitVec.ofNat 32 physAddress
  if physAddress.toNat / 4 < ramSize / 4 then some (memory.words (physAddress.toNat / 4)) else none

instance : MemorySource (BoxedMemoryImplWithRom ramSize logRomBound) where
  get := get
  set := set
  setNoexcept := setNoexcept
  getNoexcept := getNoexcept
  getOpcodeNoexcept := getOpcodeNoexcept

end BoxedMemoryImplWithRom

section

variable {M N S : Type}

def Machine.mapMemory (convert : M → N) (machine : Machine M S) : Machine N S where
  registers := machine.registers
  pc := machine.pc
  memory := convert machine.memory
  source := machine.source

def Unrolled.Progress.mapMemory (convert : M → N) (progress : Unrolled.Progress M S) :
    Unrolled.Progress N S where
  machine := progress.machine.mapMemory convert
  events := progress.events

namespace Unrolled

section

variable (convert : M → N)

variable (progress : Progress M S)

@[simp] theorem Progress.mapMemory_trace (event : TraceEvent) :
    (progress.trace event).mapMemory convert = (progress.mapMemory convert).trace event := rfl

@[simp] theorem Progress.mapMemory_writeRd (rd : BitVec 5) (value : Word) :
    (progress.writeRd rd value).mapMemory convert =
      (progress.mapMemory convert).writeRd rd value := rfl

theorem Progress.jump_mapMemory (target : Word) :
    (progress.mapMemory convert).jump target =
      (progress.jump target).map (Progress.mapMemory convert) := by
  rw [Progress.jump_eq, Progress.jump_eq]
  split_ifs <;> rfl

theorem Progress.jumpIf_mapMemory (taken : Bool) (target : Word) :
    (progress.mapMemory convert).jumpIf taken target =
      (progress.jumpIf taken target).map (Progress.mapMemory convert) := by
  unfold Progress.jumpIf
  split_ifs
  · exact Progress.jump_mapMemory convert progress target
  · rfl

theorem mop_mapMemory (config : MachineConfig) (opcode rs1Value rs2Value : Word)
    (progress : Progress M S) :
    mop config opcode rs1Value rs2Value (progress.mapMemory convert) =
      (mop config opcode rs1Value rs2Value progress).map (Progress.mapMemory convert) := by
  simp only [mop]
  split_ifs
  · simp only [bind_eq_bind, Option.map_bind, comp_def, map_some,
      Progress.mapMemory_writeRd]
  · rfl

end

end Unrolled

/-- An oracle that does not tell the memories apart. -/
structure SameOracle (S : Type) [NonDeterminismCSRSource M S] [NonDeterminismCSRSource N S]
    (valid : M → Prop) (convert : M → N) : Prop where
  shouldMockReadsBeforeWrites : NonDeterminismCSRSource.shouldMockReadsBeforeWrites N S =
    NonDeterminismCSRSource.shouldMockReadsBeforeWrites M S
  shouldIgnoreWritesAfterReads : NonDeterminismCSRSource.shouldIgnoreWritesAfterReads N S =
    NonDeterminismCSRSource.shouldIgnoreWritesAfterReads M S
  read : ∀ source : S, NonDeterminismCSRSource.read N source = NonDeterminismCSRSource.read M source
  write : ∀ (source : S) (memory : M), valid memory → ∀ value,
    NonDeterminismCSRSource.writeWithMemoryAccess source (convert memory) value =
      NonDeterminismCSRSource.writeWithMemoryAccess source memory value

variable {convert : M → N}

theorem Unrolled.csrRead_mapMemory [NonDeterminismCSRSource M S] [NonDeterminismCSRSource N S]
    (oracle : SameOracle S (fun _ => True) convert) (csrNumber : Word) (rd : BitVec 5)
    (progress : Progress M S) :
    csrRead csrNumber rd (progress.mapMemory convert) =
      (csrRead csrNumber rd progress).map fun (value, after) =>
        (value, after.mapMemory convert) := by
  have reads (source : S) : oracleRead N rd source = oracleRead M rd source := by
    simp only [oracleRead, oracle.shouldMockReadsBeforeWrites, oracle.read]
  have source : (progress.mapMemory convert).machine.source = progress.machine.source := rfl
  unfold csrRead
  split_ifs
  · simp only [nonDeterminismRead, source, reads, bind_eq_bind, Option.map_bind,
      comp_def, map_some]
    rfl
  · rfl

variable [MemorySource M] [MemorySource N]

/-- The accesses of the simulator to two memories, one of them the image of the other. -/
structure SameAccesses (convert : M → N) : Prop where
  getOpcodeNoexcept : ∀ memory : M, ∀ physAddress < 2 ^ 32,
    MemorySource.getOpcodeNoexcept (convert memory) physAddress =
      MemorySource.getOpcodeNoexcept memory physAddress
  getNoexcept : ∀ memory : M, ∀ physAddress < 2 ^ 32,
    MemorySource.getNoexcept (convert memory) physAddress =
      MemorySource.getNoexcept memory physAddress
  setNoexcept : ∀ memory : M, ∀ physAddress < 2 ^ 32, ∀ value,
    MemorySource.setNoexcept (convert memory) physAddress value =
      (MemorySource.setNoexcept memory physAddress value).map convert
  /-- The last addresses of the 32-bit space are outside, so that no access wraps around. -/
  getNoexcept_outside : ∀ memory : M, ∀ physAddress < 2 ^ 32, 2 ^ 31 ≤ physAddress →
    MemorySource.getNoexcept memory physAddress = none
  setNoexcept_outside : ∀ memory : M, ∀ physAddress < 2 ^ 32, 2 ^ 31 ≤ physAddress → ∀ value,
    MemorySource.setNoexcept memory physAddress value = none

section

variable (same : SameAccesses convert)

include same

namespace SameAccesses

theorem readContinuousWords (memory : M) {address : ℕ} (inside : address < 2 ^ 32) (count : ℕ) :
    readContinuousWords MemorySource.getNoexcept (convert memory) address count =
      readContinuousWords MemorySource.getNoexcept memory address count := by
  induction count generalizing address with
  | zero => rfl
  | succ count ih =>
    simp only [Simulator.readContinuousWords]
    rw [same.getNoexcept memory address inside]
    by_cases outside : 2 ^ 31 ≤ address
    · rw [same.getNoexcept_outside memory address inside outside]
      rfl
    · rw [ih (by omega)]

theorem writeContinuousWords (memory : M) {address : ℕ} (inside : address < 2 ^ 32)
    (words : List Word) :
    writeContinuousWords MemorySource.setNoexcept (convert memory) address words =
      (writeContinuousWords MemorySource.setNoexcept memory address words).map convert := by
  induction words generalizing memory address with
  | nil => rfl
  | cons word words ih =>
    simp only [Simulator.writeContinuousWords]
    rw [same.setNoexcept memory address inside]
    by_cases outside : 2 ^ 31 ≤ address
    · rw [same.setNoexcept_outside memory address inside outside]
      rfl
    · cases MemorySource.setNoexcept memory address word with
      | none => rfl
      | some after => exact ih after (by omega)

theorem processWrite_mapMemory (csr : Word) (machine : Machine M S) :
    processWrite MemorySource.getNoexcept MemorySource.setNoexcept csr
        (machine.mapMemory convert) =
      (processWrite MemorySource.getNoexcept MemorySource.setNoexcept csr machine).map
        fun (after, record) => (after.mapMemory convert, record) := by
  have reads (register : BitVec 5) (count : ℕ) :=
    same.readContinuousWords machine.memory (machine.registers register).isLt count
  have writes (register : BitVec 5) (words : List Word) :=
    same.writeContinuousWords machine.memory (machine.registers register).isLt words
  unfold processWrite
  split_ifs
  · simp only [blake2RoundFunctionWithExtendedControl, Machine.mapMemory, reads, writes,
      bind_eq_bind, Option.map_bind, bind_map, comp_def, map_some]
    rfl
  · simp only [u256OpsWithControl, Machine.mapMemory, reads, writes, bind_eq_bind,
      Option.map_bind, bind_map, comp_def, map_some]
    rfl
  · rfl

end SameAccesses

namespace Unrolled

variable (config : MachineConfig) (opcode pc rs1Value rs2Value : Word) (progress : Progress M S)

theorem load_mapMemory :
    load config opcode rs1Value (progress.mapMemory convert) =
      (load config opcode rs1Value progress).map (Progress.mapMemory convert) := by
  have reads (address : Word) (numBytes : ℕ) :
      memRead config (progress.mapMemory convert).machine.memory address numBytes =
        memRead config progress.machine.memory address numBytes := by
    have inside := address.isLt
    simp only [memRead]
    rw [← same.getNoexcept _ _ (by omega)]
    rfl
  simp only [load, reads, bind_eq_bind, Option.map_bind, comp_def,
    map_some, Progress.mapMemory_trace, Progress.mapMemory_writeRd]

theorem store_mapMemory :
    store config opcode rs1Value rs2Value (progress.mapMemory convert) =
      (store config opcode rs1Value rs2Value progress).map (Progress.mapMemory convert) := by
  have writes (address value : Word) (numBytes : ℕ) :
      memWrite config (progress.mapMemory convert).machine.memory address value numBytes =
        (memWrite config progress.machine.memory address value numBytes).map
          fun written => (written.1, written.2.1, convert written.2.2) := by
    have inside := address.isLt
    simp only [memWrite, Progress.mapMemory, Machine.mapMemory]
    rw [same.getNoexcept _ _ (by omega)]
    simp only [same.setNoexcept _ (address.toNat - address.toNat % 4) (by omega),
      bind_eq_bind, Option.map_bind, bind_map, comp_def, map_some]
  simp only [store, writes, bind_eq_bind, Option.map_bind, bind_map,
    comp_def, map_some]
  rfl

variable [NonDeterminismCSRSource M S] [NonDeterminismCSRSource N S]
  (oracle : SameOracle S (fun _ => True) convert)

include oracle

theorem csrWrite_mapMemory (csrNumber : Word) (formalRs1 : BitVec 5) :
    csrWrite csrNumber formalRs1 rs1Value (progress.mapMemory convert) =
      (csrWrite csrNumber formalRs1 rs1Value progress).map (Progress.mapMemory convert) := by
  have writes (source : S) :
      oracleWrite formalRs1 rs1Value (progress.mapMemory convert).machine.memory source =
        oracleWrite formalRs1 rs1Value progress.machine.memory source := by
    simp only [oracleWrite, oracle.shouldIgnoreWritesAfterReads, ← oracle.write _ _ trivial]
    rfl
  unfold csrWrite
  split_ifs
  · simp only [nonDeterminismWrite, writes, bind_eq_bind, Option.map_bind,
      comp_def, map_some]
    rfl
  · rfl
  · have delegated := same.processWrite_mapMemory csrNumber progress.machine
    change ((processWrite _ _ csrNumber (progress.machine.mapMemory convert)).bind _) = _
    simp only [delegate, delegated, bind_eq_bind, Option.map_bind, bind_map,
      comp_def, map_some]
    rfl

theorem csrAccess_mapMemory :
    csrAccess config opcode rs1Value (progress.mapMemory convert) =
      (csrAccess config opcode rs1Value progress).map (Progress.mapMemory convert) := by
  simp only [csrAccess, csrRead_mapMemory oracle, csrWrite_mapMemory same _ _ oracle,
    bind_eq_bind, Option.map_bind, bind_map, comp_def, map_some,
    Progress.mapMemory_writeRd]

theorem system_mapMemory :
    system config opcode rs1Value rs2Value (progress.mapMemory convert) =
      (system config opcode rs1Value rs2Value progress).map (Progress.mapMemory convert) := by
  simp only [system]
  split_ifs
  · exact mop_mapMemory convert config opcode rs1Value rs2Value progress
  · exact csrAccess_mapMemory same config opcode rs1Value progress oracle
  · rfl

theorem execute_mapMemory :
    execute config opcode pc rs1Value rs2Value (progress.mapMemory convert) =
      (execute config opcode pc rs1Value rs2Value progress).map
        (Progress.mapMemory convert) := by
  by_cases known : getOpcodeBits opcode ∈ executableOpcodes
  · simp only [executableOpcodes, List.mem_cons, List.not_mem_nil, or_false] at known
    rcases known with op | op | op | op | op | op | op | op | op | op
    · rw [execute_lui config _ _ _ _ op, execute_lui config _ _ _ _ op]
      rfl
    · rw [execute_auipc config _ _ _ _ op, execute_auipc config _ _ _ _ op]
      rfl
    · rw [execute_jal config _ _ _ _ op, execute_jal config _ _ _ _ op, Progress.jump_mapMemory,
        map_map, map_map]
      rfl
    · rw [execute_jalr config _ _ _ _ op, execute_jalr config _ _ _ _ op,
        Progress.jump_mapMemory, map_map, map_map]
      rfl
    · rw [execute_branch config _ _ _ _ op, execute_branch config _ _ _ _ op, Option.map_bind]
      apply Option.bind_congr
      intro taken _
      rw [Progress.jumpIf_mapMemory, comp_apply, map_map, map_map]
      rfl
    · rw [execute_opImm config _ _ _ _ op, execute_opImm config _ _ _ _ op, map_map]
      rfl
    · rw [execute_op config _ _ _ _ op, execute_op config _ _ _ _ op, map_map]
      rfl
    · rw [execute_load config _ _ _ _ op, execute_load config _ _ _ _ op]
      exact load_mapMemory same config opcode rs1Value progress
    · rw [execute_store config _ _ _ _ op, execute_store config _ _ _ _ op]
      exact store_mapMemory same config opcode rs1Value rs2Value progress
    · rw [execute_system config _ _ _ _ op, execute_system config _ _ _ _ op]
      exact system_mapMemory same config opcode rs1Value rs2Value progress oracle
  · rw [execute_unknown config _ _ _ _ known, execute_unknown config _ _ _ _ known]
    rfl

theorem cycle_mapMemory (machine : Machine M S) :
    cycle config (machine.mapMemory convert) =
      (cycle config machine).map fun (progress, finished) =>
        (progress.mapMemory convert, finished) := by
  have fetch : MemorySource.getOpcodeNoexcept (machine.mapMemory convert).memory
      (machine.mapMemory convert).pc.toNat =
        MemorySource.getOpcodeNoexcept machine.memory machine.pc.toNat :=
    same.getOpcodeNoexcept _ _ machine.pc.isLt
  simp only [cycle, fetch, bind_eq_bind, Option.map_bind, comp_def]
  apply Option.bind_congr
  intro opcode _
  have step : execute config opcode (machine.mapMemory convert).pc
      ((machine.mapMemory convert).registers (getFormalRs1Bits opcode))
      (rs2Operand opcode (machine.mapMemory convert))
      (readOperands opcode (machine.mapMemory convert)) = _ :=
    execute_mapMemory same config opcode machine.pc _ (rs2Operand opcode machine)
      (readOperands opcode machine) oracle
  rw [step, bind_map]
  rfl

theorem runCycles_mapMemory (numCycles : ℕ) (machine : Machine M S) :
    runCycles config numCycles (machine.mapMemory convert) =
      (runCycles config numCycles machine).map fun (progress, finished) =>
        (progress.mapMemory convert, finished) := by
  induction numCycles generalizing machine with
  | zero => rfl
  | succ numCycles ih =>
    simp only [runCycles, cycle_mapMemory same config oracle, bind_eq_bind,
      Option.map_bind, bind_map, comp_def]
    apply Option.bind_congr
    intro result _
    change (runCycles config numCycles (result.1.machine.mapMemory convert)).bind _ = _
    rw [ih, bind_map]
    rfl

end Unrolled

end

end

section

variable {ramSize logRomBound : ℕ}

/-- The words of a memory of the sequential run in a memory of a worker. -/
def VectorMemoryImplWithRom.toBoxed (ramSize logRomBound : ℕ) (memory : VectorMemoryImplWithRom) :
    BoxedMemoryImplWithRom ramSize logRomBound :=
  ⟨memory.ram.word⟩

/-- A memory of the sequential run of the size of a worker's. -/
structure VectorMemoryImplWithRom.HasSize (ramSize logRomBound : ℕ)
    (memory : VectorMemoryImplWithRom) : Prop where
  length : memory.ram.length = ramSize / 4
  romBound : memory.romBound = 2 ^ logRomBound

def BoxedMemoryImplWithRom.toVector (memory : BoxedMemoryImplWithRom ramSize logRomBound) :
    VectorMemoryImplWithRom :=
  ⟨⟨ramSize / 4, memory.words⟩, 2 ^ logRomBound⟩

theorem SameOracle.toVector {S : Type} [NonDeterminismCSRSource VectorMemoryImplWithRom S]
    [NonDeterminismCSRSource (BoxedMemoryImplWithRom ramSize logRomBound) S]
    (oracle : SameOracle S (VectorMemoryImplWithRom.HasSize ramSize logRomBound)
      (VectorMemoryImplWithRom.toBoxed ramSize logRomBound)) :
    SameOracle S (fun _ : BoxedMemoryImplWithRom ramSize logRomBound => True)
      BoxedMemoryImplWithRom.toVector where
  shouldMockReadsBeforeWrites := oracle.shouldMockReadsBeforeWrites.symm
  shouldIgnoreWritesAfterReads := oracle.shouldIgnoreWritesAfterReads.symm
  read source := (oracle.read source).symm
  write source memory _ value := (oracle.write source memory.toVector ⟨rfl, rfl⟩ value).symm

theorem toNat_romBoundMask (small : logRomBound < 32) :
    (BoxedMemoryImplWithRom.romBoundMask logRomBound).toNat = 2 ^ logRomBound - 1 := by
  have below : 2 ^ logRomBound < 2 ^ 32 := Nat.pow_lt_pow_right (by omega) small
  have positive : 0 < 2 ^ logRomBound := Nat.two_pow_pos _
  have shifted : ((1 : Word) <<< logRomBound).toNat = 2 ^ logRomBound := by
    rw [toNat_shiftLeft, Nat.shiftLeft_eq]
    change 1 * 2 ^ logRomBound % 2 ^ 32 = _
    rw [one_mul, mod_eq_of_lt below]
  rw [BoxedMemoryImplWithRom.romBoundMask, toNat_sub, shifted]
  change (2 ^ 32 - 1 + 2 ^ logRomBound) % 2 ^ 32 = _
  omega

theorem and_not_romBoundMask_eq_zero_iff (small : logRomBound < 32) (address : Word) :
    address &&& ~~~BoxedMemoryImplWithRom.romBoundMask logRomBound = 0 ↔
      address.toNat < 2 ^ logRomBound := by
  have maskBit (index : ℕ) : (BoxedMemoryImplWithRom.romBoundMask logRomBound).getLsbD index =
      decide (index < logRomBound) := by
    rw [← testBit_toNat, toNat_romBoundMask small, testBit_two_pow_sub_one]
  constructor
  · intro masked
    apply lt_pow_two_of_testBit
    intro index above
    rw [testBit_toNat]
    by_cases inside : index < 32
    · have bit : (address &&& ~~~BoxedMemoryImplWithRom.romBoundMask logRomBound).getLsbD index =
          false := by
        rw [masked]
        exact BitVec.getLsbD_zero
      rw [getLsbD_and, getLsbD_not, maskBit] at bit
      simpa [inside, Nat.not_lt_of_ge above] using bit
    · exact getLsbD_of_ge _ _ (Nat.le_of_not_lt inside)
  · intro below
    apply eq_of_getLsbD_eq
    intro index inside
    change _ = (0#32).getLsbD index
    rw [getLsbD_and, getLsbD_not, maskBit, BitVec.getLsbD_zero]
    by_cases above : logRomBound ≤ index
    · have bit : address.getLsbD index = false := by
        rw [← testBit_toNat]
        apply testBit_lt_two_pow
        exact lt_of_lt_of_le below (Nat.pow_le_pow_right (by omega) above)
      rw [bit, Bool.false_and]
    · simp [Nat.lt_of_not_le above]

theorem sameAccesses_toVector (small : logRomBound < 32) (aligned : ramSize % 4 = 0)
    (bounded : ramSize ≤ 2 ^ 31) :
    SameAccesses fun memory : BoxedMemoryImplWithRom ramSize logRomBound => memory.toVector where
  getOpcodeNoexcept memory physAddress inside := by
    change VectorMemoryImplWithRom.getOpcodeNoexcept _ _ =
      BoxedMemoryImplWithRom.getOpcodeNoexcept _ _
    simp only [BoxedMemoryImplWithRom.getOpcodeNoexcept, toNat_ofNat, mod_eq_of_lt inside]
    rfl
  getNoexcept memory physAddress inside := by
    change VectorMemoryImplWithRom.getNoexcept _ _ = BoxedMemoryImplWithRom.getNoexcept _ _
    have bounds : physAddress < ramSize ↔ physAddress / 4 < ramSize / 4 := by omega
    simp only [BoxedMemoryImplWithRom.getNoexcept, toNat_ofNat, mod_eq_of_lt inside, bounds]
    rfl
  setNoexcept memory physAddress inside value := by
    change VectorMemoryImplWithRom.setNoexcept _ _ _ =
      (BoxedMemoryImplWithRom.setNoexcept _ _ _).map _
    have bounds : physAddress < ramSize ↔ physAddress / 4 < ramSize / 4 := by omega
    simp only [BoxedMemoryImplWithRom.setNoexcept, VectorMemoryImplWithRom.setNoexcept,
      BoxedMemoryImplWithRom.toVector, and_not_romBoundMask_eq_zero_iff small, toNat_ofNat,
      mod_eq_of_lt inside, bounds]
    by_cases rom : physAddress < 2 ^ logRomBound <;>
      by_cases ram : physAddress / 4 < ramSize / 4 <;>
      simp only [rom, ram, if_true, if_false] <;> rfl
  getNoexcept_outside memory physAddress inside outside := by
    change BoxedMemoryImplWithRom.getNoexcept _ _ = _
    simp only [BoxedMemoryImplWithRom.getNoexcept, toNat_ofNat, mod_eq_of_lt inside]
    rw [if_neg (by omega)]
  setNoexcept_outside memory physAddress inside outside value := by
    change BoxedMemoryImplWithRom.setNoexcept _ _ _ = _
    simp only [BoxedMemoryImplWithRom.setNoexcept, toNat_ofNat, mod_eq_of_lt inside]
    rw [if_neg (by omega)]

theorem binaryAddress_aligned (idx : ℕ) : (entryPoint + BitVec.ofNat 32 idx * 4).toNat % 4 = 0 := by
  rw [toNat_add, toNat_mul, toNat_ofNat]
  change (0 + idx % 2 ^ 32 * 4 % 2 ^ 32) % 2 ^ 32 % 4 = 0
  omega

theorem populateBinary_toVector (memory : BoxedMemoryImplWithRom ramSize logRomBound)
    (binary : List Word) :
    populateBinary VectorMemoryImplWithRom.populate memory.toVector binary =
      (populateBinary BoxedMemoryImplWithRom.populate memory binary).map
        BoxedMemoryImplWithRom.toVector := by
  unfold populateBinary
  generalize binary.zipIdx = insns
  induction insns generalizing memory with
  | nil => rfl
  | cons head rest ih =>
    have populated : memory.toVector.populate (entryPoint + BitVec.ofNat 32 head.2 * 4) head.1 =
        (memory.populate (entryPoint + BitVec.ofNat 32 head.2 * 4) head.1).map
          BoxedMemoryImplWithRom.toVector := by
      simp only [BoxedMemoryImplWithRom.populate, VectorMemoryImplWithRom.populate,
        binaryAddress_aligned head.2, guard_true, pure_def, bind_eq_bind,
        bind_some, Option.map_bind, comp_def, map_some]
      rfl
    simp only [List.foldlM_cons, populated, bind_eq_bind]
    cases memory.populate (entryPoint + BitVec.ofNat 32 head.2 * 4) head.1 with
    | none => rfl
    | some after => exact ih after

end

end Airbender.Simulator

import Airbender.Execution.CpuWorker

/-!
# Cycles split between workers

Workers that trace every chunk of their own and run over the others leave the same timestamps in
their tables as the sequential run, so that together they record the chunks of the sequential run.
-/

namespace Airbender.Execution

open Simulator Simulator.Unrolled LastUse Tracing List
open Option hiding filter_filter guard

/-- A tracer of a worker and the tracer of the sequential run at the same event of a chunk. -/
structure InStep (traced : Bool) (worker : ExecutionTracer Unit)
    (sequential : GPUFriendlyTracer) : Prop where
  romBound : sequential.bookkeepingAuxData.romBound = 2 ^ logRomSize
  lastUse : worker.ramTracingData.lastUse = sequential.bookkeepingAuxData.lastUse
  currentTimestamp : worker.currentTimestamp = sequential.currentTimestamp
  perCycleData : traced = true → worker.perCycleData = sequential.traceChunk.perCycleData

theorem accepts_of_sequential (flags : TracerFlags) {event : TraceEvent}
    (accepts : GPUFriendlyTracer.Accepts (2 ^ logRomSize) event) :
    ExecutionTracer.Accepts flags logRomSize event := by
  cases event with
  | traceRdWrite register readValue writtenValue => exact fun _ => accepts
  | traceRamReadWrite physAddress readValue writtenValue => exact accepts.2
  | atCycleStart pc => trivial
  | traceRs1Read register readValue => trivial
  | traceRs2Read register readValue => trivial
  | traceNonDeterminismRead readValue => trivial
  | traceNonDeterminismWrite writtenValue => trivial
  | traceRamRead physAddress readValue => trivial
  | recordDelegation record => trivial
  | atCycleEnd => trivial

theorem InStep.trace {traced : Bool} {worker : ExecutionTracer Unit}
    {sequential after : GPUFriendlyTracer} {event : TraceEvent}
    (inStep : InStep traced worker sequential) (completed : sequential.trace event = some after) :
    ∃ workerAfter, worker.trace (cyclesFlags traced) logRomSize unreachableSwapFn event =
        some workerAfter ∧ InStep traced workerAfter after := by
  have sequentialTraces := GPUFriendlyTracer.traces_of_trace completed
  have accepts := accepts_of_sequential (cyclesFlags traced)
    (inStep.romBound ▸ sequentialTraces.accepts)
  rcases ExecutionTracer.trace_of_accepts (cyclesFlags traced) logRomSize unreachableSwapFn rfl
    (by decide) worker accepts with ⟨workerAfter, workerCompleted, workerTraces⟩
  refine ⟨workerAfter, workerCompleted, ?_, ?_, ?_, ?_⟩
  · rw [sequentialTraces.romBound, inStep.romBound]
  · rw [workerTraces.lastUse, sequentialTraces.lastUse, inStep.lastUse, inStep.currentTimestamp,
      inStep.romBound]
  · rw [workerTraces.currentTimestamp, sequentialTraces.currentTimestamp, inStep.currentTimestamp]
  · intro isTraced
    rw [workerTraces.perCycleData isTraced, sequentialTraces.perCycleData, inStep.lastUse,
      inStep.currentTimestamp, inStep.romBound, inStep.perCycleData isTraced]

theorem InStep.traceAll {traced : Bool} {worker : ExecutionTracer Unit}
    {sequential after : GPUFriendlyTracer} {events : List TraceEvent}
    (inStep : InStep traced worker sequential)
    (completed : sequential.traceAll events = some after) :
    ∃ workerAfter, worker.traceAll (cyclesFlags traced) logRomSize unreachableSwapFn events =
        some workerAfter ∧ InStep traced workerAfter after ∧
      after.tracedChunks = sequential.tracedChunks := by
  induction events generalizing worker sequential with
  | nil =>
    cases completed
    exact ⟨worker, rfl, inStep, rfl⟩
  | cons event rest ih =>
    simp only [GPUFriendlyTracer.traceAll, foldlM_cons, bind_eq_bind,
      bind_eq_some_iff] at completed
    rcases completed with ⟨middle, first, remaining⟩
    rcases inStep.trace first with ⟨workerMiddle, workerFirst, inStepMiddle⟩
    rcases ih inStepMiddle remaining with ⟨workerAfter, workerRest, inStepAfter, chunks⟩
    refine ⟨workerAfter, ?_, inStepAfter, ?_⟩
    · simp only [ExecutionTracer.traceAll, foldlM_cons, workerFirst, bind_eq_bind,
        bind_some]
      exact workerRest
    · rw [chunks, (GPUFriendlyTracer.traces_of_trace first).tracedChunks]

def completedChunks (chunkIdx : ℕ) (tracer : GPUFriendlyTracer) : List CycleData :=
  if chunkIdx = 0 then [] else tracer.tracedChunks ++ [tracer.traceChunk]

structure Fresh (cyclesPerChunk : ℕ) (tracer : GPUFriendlyTracer) : Prop where
  tracedChunks : tracer.tracedChunks = []
  perCycleData : tracer.traceChunk.perCycleData = []
  currentTimestamp : tracer.currentTimestamp = chunkTimestamp cyclesPerChunk 0

variable {cyclesPerChunk : ℕ}

theorem startChunk_spec {chunkIdx : ℕ} {tracer started : GPUFriendlyTracer}
    (fresh : chunkIdx = 0 → Fresh cyclesPerChunk tracer)
    (completed : startChunk cyclesPerChunk chunkIdx tracer = some started) :
    started.tracedChunks = completedChunks chunkIdx tracer ∧
      started.traceChunk.perCycleData = [] ∧
      started.currentTimestamp = chunkTimestamp cyclesPerChunk chunkIdx ∧
      started.bookkeepingAuxData = tracer.bookkeepingAuxData := by
  unfold startChunk at completed
  split_ifs at completed with first
  · simp only [GPUFriendlyTracer.prepareForNextChunk, CycleData.newWithCyclesCapacity,
      bind_eq_bind, bind_eq_some_iff, Option.some.injEq] at completed
    rcases completed with ⟨_, _, _, ⟨_, _, rfl⟩, rfl⟩
    exact ⟨by rw [completedChunks, if_neg first], rfl, rfl, rfl⟩
  · rw [not_not] at first
    cases completed
    rw [first]
    exact ⟨(fresh first).tracedChunks, (fresh first).perCycleData, (fresh first).currentTimestamp,
      rfl⟩

section

variable {S R : Type}

def chunkMessages (arguments : WorkerArguments S) (splitCount splitIndex firstIndex : ℕ)
    (chunks : List CycleData) : List (CpuWorkerResult R) :=
  ((chunks.zipIdx firstIndex).filter fun (_, index) =>
    isTraced arguments splitCount splitIndex index).map fun (chunk, index) =>
      .cyclesChunk index chunk.perCycleData

theorem chunkMessages_cons (arguments : WorkerArguments S)
    (splitCount splitIndex firstIndex : ℕ) (chunk : CycleData) (chunks : List CycleData) :
    (chunkMessages arguments splitCount splitIndex firstIndex (chunk :: chunks) :
        List (CpuWorkerResult R)) =
      (if isTraced arguments splitCount splitIndex firstIndex then
        [.cyclesChunk firstIndex chunk.perCycleData] else []) ++
        chunkMessages arguments splitCount splitIndex (firstIndex + 1) chunks := by
  simp only [chunkMessages, zipIdx_cons, filter_cons]
  split_ifs <;> rfl

variable [NonDeterminismCSRSource VectorMemoryImplWithRom S]
  [NonDeterminismCSRSource WorkerMemory S]

section

variable (sameOracle : SameOracle S (VectorMemoryImplWithRom.HasSize ramByteSize logRomSize)
    (VectorMemoryImplWithRom.toBoxed ramByteSize logRomSize))
  (arguments : WorkerArguments S) (splitCount splitIndex : ℕ)

include sameOracle

theorem traceCyclesLoop_chunk (chunkIdx : ℕ) {machine : Machine WorkerMemory S}
    {progress : Progress VectorMemoryImplWithRom S}
    {finished : Bool} {started traced : GPUFriendlyTracer} {ramTracingData : RamTracingData}
    (ran : runCycles arguments.config arguments.circuitType.cyclesPerChunk
      (machine.mapMemory BoxedMemoryImplWithRom.toVector) = some (progress, finished))
    (inStep : InStep (isTraced arguments splitCount splitIndex chunkIdx)
      (ExecutionTracer.new ramTracingData ()
        (chunkTimestamp arguments.circuitType.cyclesPerChunk chunkIdx)) started)
    (traces : started.traceAll progress.events = some traced) :
    ∃ (after : RamTracingData) (next : Machine WorkerMemory S),
      after.lastUse = traced.bookkeepingAuxData.lastUse ∧
      progress.machine = next.mapMemory BoxedMemoryImplWithRom.toVector ∧
      traced.bookkeepingAuxData.romBound = 2 ^ logRomSize ∧
      traced.tracedChunks = started.tracedChunks ∧
      ∀ bound, (traceCyclesLoop arguments splitCount splitIndex (bound + 1) chunkIdx machine
          ramTracingData : Option (List (CpuWorkerResult R))) =
        (if finished then some [.cyclesTracingResult (chunkIdx + 1)] else
          traceCyclesLoop arguments splitCount splitIndex bound (chunkIdx + 1) next after).map
          (chunkMessages arguments splitCount splitIndex chunkIdx [traced.traceChunk] ++ ·) := by
  have same : SameAccesses fun memory : WorkerMemory => memory.toVector :=
    sameAccesses_toVector (by decide) (by decide) (by decide)
  rw [runCycles_mapMemory same _ sameOracle.toVector, map_eq_some_iff] at ran
  rcases ran with ⟨⟨workerProgress, finished⟩, workerRan, mapped⟩
  cases mapped
  rcases inStep.traceAll traces with ⟨workerAfter, workerTraces, inStepAfter, chunks⟩
  refine ⟨workerAfter.ramTracingData, workerProgress.machine, inStepAfter.lastUse, rfl,
    inStepAfter.romBound, chunks, ?_⟩
  intro bound
  have sent : (if isTraced arguments splitCount splitIndex chunkIdx then
      [(.cyclesChunk chunkIdx workerAfter.perCycleData : CpuWorkerResult R)] else []) =
      chunkMessages arguments splitCount splitIndex chunkIdx [traced.traceChunk] := by
    rw [chunkMessages_cons]
    split_ifs with isTraced
    · rw [inStepAfter.perCycleData isTraced]
      rfl
    · rfl
  simp only [traceCyclesLoop, workerRan, bind_eq_bind, bind_some]
  change ((ExecutionTracer.traceAll _ _ _ _ workerProgress.events).bind _) = _
  rw [show ExecutionTracer.traceAll _ _ _ _ workerProgress.events = _ from workerTraces,
    bind_some, sent]
  split_ifs
  · rfl
  · rw [map_eq_bind]
    rfl

theorem traceCyclesLoop_of_runChunks {remaining chunkIdx count : ℕ}
    {machine : Machine WorkerMemory S} {last : Machine VectorMemoryImplWithRom S}
    {tracer final : GPUFriendlyTracer} {ramTracingData : RamTracingData}
    (completed : runChunks arguments.config arguments.circuitType.cyclesPerChunk remaining chunkIdx
      (machine.mapMemory BoxedMemoryImplWithRom.toVector) tracer = some (last, final, count))
    (fresh : chunkIdx = 0 → Fresh arguments.circuitType.cyclesPerChunk tracer)
    (romBound : tracer.bookkeepingAuxData.romBound = 2 ^ logRomSize)
    (lastUse : ramTracingData.lastUse = tracer.bookkeepingAuxData.lastUse) :
    ∃ chunks, final.tracedChunks ++ [final.traceChunk] =
        completedChunks chunkIdx tracer ++ chunks ∧ count = chunkIdx + chunks.length ∧
      ∀ bound, chunks.length ≤ bound →
        traceCyclesLoop arguments splitCount splitIndex bound chunkIdx machine ramTracingData =
        some (chunkMessages arguments splitCount splitIndex chunkIdx chunks ++
          [(.cyclesTracingResult count : CpuWorkerResult R)]) := by
  induction remaining generalizing chunkIdx machine tracer ramTracingData with
  | zero => cases completed
  | succ remaining ih =>
    simp only [runChunks, bind_eq_bind, bind_eq_some_iff, Prod.exists] at completed
    rcases completed with ⟨started, starts, progress, finished, ran, traced, traces, rest⟩
    rcases startChunk_spec fresh starts with
      ⟨startedChunks, startedCycles, startedTimestamp, startedTables⟩
    have inStep : InStep (isTraced arguments splitCount splitIndex chunkIdx)
        (ExecutionTracer.new ramTracingData ()
          (chunkTimestamp arguments.circuitType.cyclesPerChunk chunkIdx)) started := by
      constructor
      · rw [startedTables, romBound]
      · rw [startedTables, ← lastUse]
        rfl
      · exact startedTimestamp.symm
      · intro _
        exact startedCycles.symm
    rcases traceCyclesLoop_chunk (R := R) sameOracle arguments splitCount splitIndex chunkIdx
      ran inStep traces with ⟨after, next, afterLastUse, continues, afterRomBound, sameChunks, loop⟩
    cases finished with
    | true =>
      rw [if_pos rfl, Option.some.injEq, Prod.mk.injEq, Prod.mk.injEq] at rest
      rcases rest with ⟨rfl, rfl, rfl⟩
      refine ⟨[traced.traceChunk], by rw [sameChunks, startedChunks], rfl, ?_⟩
      intro bound enough
      cases bound with
      | zero => simp at enough
      | succ bound =>
        rw [loop bound]
        rfl
    | false =>
      rw [if_neg Bool.false_ne_true, continues] at rest
      rcases ih rest (fun zero => absurd zero (Nat.succ_ne_zero chunkIdx)) afterRomBound
        afterLastUse with ⟨chunks, split, total, laterLoop⟩
      have complete : completedChunks (chunkIdx + 1) traced =
          completedChunks chunkIdx tracer ++ [traced.traceChunk] := by
        rw [completedChunks, if_neg (Nat.succ_ne_zero chunkIdx), sameChunks, startedChunks]
      refine ⟨traced.traceChunk :: chunks, ?_, ?_, ?_⟩
      · rw [split, complete, append_assoc]
        rfl
      · rw [total, length_cons]
        omega
      · intro bound enough
        cases bound with
        | zero => simp at enough
        | succ bound =>
          have fits : chunks.length ≤ bound := by
            rw [length_cons] at enough
            omega
          rw [loop bound, if_neg Bool.false_ne_true, laterLoop bound fits, map_some,
            chunkMessages_cons, chunkMessages_cons, append_assoc, append_assoc]
          rfl

end

omit [NonDeterminismCSRSource VectorMemoryImplWithRom S]
  [NonDeterminismCSRSource WorkerMemory S] in
theorem initialMachine_of_sequential {memory populated : VectorMemoryImplWithRom}
    {binary : List Word} (nonDeterminism : S)
    (created : VectorMemoryImplWithRom.newForByteSize ramByteSize
      (1 <<< (16 + romAddressSpaceSecondWordBits)) = some memory)
    (populates : populateBinary VectorMemoryImplWithRom.populate memory binary = some populated) :
    ∃ machine : Machine WorkerMemory S, initialMachine binary nonDeterminism = some machine ∧
      Machine.initial entryPoint populated nonDeterminism =
        machine.mapMemory BoxedMemoryImplWithRom.toVector := by
  simp only [VectorMemoryImplWithRom.newForByteSize, bind_eq_bind, bind_eq_some_iff,
    Option.some.injEq] at created
  rcases created with ⟨_, _, _, _, _, _, _, _, rfl⟩
  have boxed : BoxedMemoryImplWithRom.new ramByteSize logRomSize = some ⟨fun _ => 0⟩ := rfl
  have same : (⟨.zeroed (max (1 <<< (16 + romAddressSpaceSecondWordBits)) ramByteSize / 4),
      1 <<< (16 + romAddressSpaceSecondWordBits)⟩ : VectorMemoryImplWithRom) =
      (⟨fun _ => 0⟩ : WorkerMemory).toVector := rfl
  rw [same, populateBinary_toVector, map_eq_some_iff] at populates
  rcases populates with ⟨memory, filled, rfl⟩
  refine ⟨Machine.initial entryPoint memory nonDeterminism, ?_, rfl⟩
  simp only [initialMachine, boxed, bind_eq_bind, bind_some, filled]

theorem traceCycles_of_sequential
    (sameOracle : SameOracle S (VectorMemoryImplWithRom.HasSize ramByteSize logRomSize)
      (VectorMemoryImplWithRom.toBoxed ramByteSize logRomSize))
    (arguments : WorkerArguments S) {numCyclesUpperBound : ℕ}
    {delegationFactories : BitVec 16 → Option Tracing.DelegationWitness} {run : SequentialRun}
    (completed : runTillEndForGpuForMachineConfig arguments.config romAddressSpaceSecondWordBits
      numCyclesUpperBound arguments.circuitType.getDomainSize arguments.binary
      arguments.nonDeterminism delegationFactories = some run)
    (enough : run.tracedChunks.length ≤ arguments.numMainChunksUpperBound)
    {splitCount : ℕ} (split : splitCount ≠ 0) (splitIndex : ℕ) :
    traceCycles arguments splitCount splitIndex =
      some (chunkMessages arguments splitCount splitIndex 0 run.tracedChunks ++
        [(.cyclesTracingResult run.tracedChunks.length : CpuWorkerResult R)]) := by
  simp only [runTillEndForGpuForMachineConfig, bind_eq_bind, bind_eq_some_iff,
    Option.some.injEq, Prod.exists] at completed
  rcases completed with ⟨_, _, memory, created, populated, populates, _, _, tables, newTables,
    tracer, newTracer, last, final, count, ran, _, _, rfl⟩
  rcases initialMachine_of_sequential arguments.nonDeterminism created populates with
    ⟨machine, started, same⟩
  rw [same] at ran
  simp only [Tracing.RamTracingData.newForRamSizeAndRomBound, bind_eq_bind,
    bind_eq_some_iff, Option.some.injEq] at newTables
  rcases newTables with ⟨_, _, _, _, rfl⟩
  simp only [GPUFriendlyTracer.new, CycleData.newWithCyclesCapacity, bind_eq_bind,
    bind_eq_some_iff, Option.some.injEq] at newTracer
  rcases newTracer with ⟨_, _, _, ⟨_, _, rfl⟩, rfl⟩
  rcases traceCyclesLoop_of_runChunks (R := R) sameOracle arguments splitCount splitIndex ran
    (fun _ => ⟨rfl, rfl, rfl⟩) rfl (by
      rw [RamTracingData.lastUse_new]
      funext location
      cases location <;> rfl) with ⟨chunks, chunksSplit, total, loop⟩
  have all : final.tracedChunks ++ [final.traceChunk] = chunks := chunksSplit
  rw [all] at enough ⊢
  simp only [traceCycles, started, guard, if_pos split, Option.pure_def, bind_eq_bind,
    bind_some]
  rw [loop _ enough, total, Nat.zero_add]

def sentChunks (results : List (CpuWorkerResult R)) : List (ℕ × List SingleCycleTracingData) :=
  results.filterMap fun
    | .cyclesChunk index data => some (index, data)
    | _ => none

def recordsOf (chunks : List (CycleData × ℕ)) : List (ℕ × List SingleCycleTracingData) :=
  chunks.map fun (chunk, index) => (index, chunk.perCycleData)

omit [NonDeterminismCSRSource VectorMemoryImplWithRom S]
  [NonDeterminismCSRSource WorkerMemory S] in
theorem sentChunks_chunkMessages (arguments : WorkerArguments S)
    (splitCount splitIndex count : ℕ) (chunks : List CycleData) :
    sentChunks (chunkMessages arguments splitCount splitIndex 0 chunks ++
        [(.cyclesTracingResult count : CpuWorkerResult R)]) =
      recordsOf (chunks.zipIdx.filter fun (_, index) =>
        isTraced arguments splitCount splitIndex index) := by
  simp only [sentChunks, chunkMessages, filterMap_append, filterMap_map,
    Function.comp_def, filterMap_cons_none, filterMap_nil, append_nil, recordsOf]
  exact congrFun filterMap_eq_map' _

theorem flatMap_range_of_lt {α : Type} (element : α) {key count : ℕ} (below : key < count) :
    ((List.range count).flatMap fun index => if key = index then [element] else []) =
      [element] := by
  induction count with
  | zero => cases below
  | succ count ih =>
    rw [range_succ, flatMap_append, flatMap_singleton]
    by_cases last : key = count
    · have before : ((List.range count).flatMap fun index =>
          if key = index then [element] else []) = [] := by
        rw [flatMap_eq_nil_iff]
        intro index member
        have smaller := mem_range.mp member
        exact if_neg (by omega)
      rw [before, if_pos last, nil_append]
    · rw [ih (by omega), if_neg last, append_nil]

theorem flatMap_filter_perm {α : Type} (key : α → ℕ) {count : ℕ}
    (below : ∀ element, key element < count) (list : List α) :
    ((List.range count).flatMap fun index => list.filter fun element => key element = index).Perm
      list := by
  induction list with
  | nil => simp
  | cons element rest ih =>
    have heads : (fun index => (element :: rest).filter fun other => key other = index) =
        fun index => (if key element = index then [element] else []) ++
          rest.filter fun other => key other = index := by
      funext index
      rw [filter_cons]
      simp only [decide_eq_true_eq]
      split_ifs <;> rfl
    rw [heads]
    apply (flatMap_append_perm _ _ _).symm.trans
    rw [flatMap_range_of_lt element (below element)]
    exact ih.cons element

/-- Every worker records the chunks of its own indexes as the sequential run records them, and all
workers together record all chunks, up to those to be skipped. -/
theorem cycles_workers_record_sequential_chunks
    (sameOracle : SameOracle S (VectorMemoryImplWithRom.HasSize ramByteSize logRomSize)
      (VectorMemoryImplWithRom.toBoxed ramByteSize logRomSize))
    (arguments : WorkerArguments S) {numCyclesUpperBound : ℕ}
    {delegationFactories : BitVec 16 → Option Tracing.DelegationWitness} {run : SequentialRun}
    (completed : runTillEndForGpuForMachineConfig arguments.config romAddressSpaceSecondWordBits
      numCyclesUpperBound arguments.circuitType.getDomainSize arguments.binary
      arguments.nonDeterminism delegationFactories = some run)
    (enough : run.tracedChunks.length ≤ arguments.numMainChunksUpperBound)
    {splitCount : ℕ} (split : splitCount ≠ 0) :
    ∃ results : ℕ → List (CpuWorkerResult R),
      (∀ splitIndex, traceCycles arguments splitCount splitIndex = some (results splitIndex)) ∧
      (∀ splitIndex, sentChunks (results splitIndex) =
        recordsOf (run.tracedChunks.zipIdx.filter fun (_, index) =>
          index % splitCount = splitIndex ∧
            (CircuitType.main arguments.circuitType, index) ∉ arguments.skipSet)) ∧
      ((List.range splitCount).flatMap fun splitIndex => sentChunks (results splitIndex)).Perm
        (recordsOf (run.tracedChunks.zipIdx.filter fun (_, index) =>
          (CircuitType.main arguments.circuitType, index) ∉ arguments.skipSet)) := by
  have sent (splitIndex : ℕ) := sentChunks_chunkMessages (R := R) arguments splitCount splitIndex
    run.tracedChunks.length run.tracedChunks
  refine ⟨_, traceCycles_of_sequential sameOracle arguments completed enough split, sent, ?_⟩
  simp only [sent, recordsOf]
  rw [← map_flatMap]
  apply List.Perm.map
  have owners := flatMap_filter_perm (fun chunk : CycleData × ℕ => chunk.2 % splitCount)
    (fun chunk => Nat.mod_lt _ (Nat.pos_of_ne_zero split))
    (run.tracedChunks.zipIdx.filter fun (_, index) =>
      (CircuitType.main arguments.circuitType, index) ∉ arguments.skipSet)
  simpa only [filter_filter, isTraced, Bool.decide_and] using owners

end

/-! ## A program of three chunks

`x1` is counted up in steps of `1024` until it overflows to zero. -/

/-- `addi x1, x1, 1024`. -/
def countUp : Word := 0x40008093

/-- `bne x1, x0, -4`. -/
def branchBack : Word := 0xfe009ee3

def countingArguments : WorkerArguments ZeroedSource where
  config := imStandardIsaConfig
  numMainChunksUpperBound := 3
  circuitType := .riscVCycles
  binary := [countUp, branchBack, selfJump]
  nonDeterminism := ⟨⟩
  skipSet := []

def countingMemory : VectorMemoryImplWithRom where
  ram := (((WordVec.zeroed (ramByteSize / 4)).set 0 countUp).set 1 branchBack).set 2 selfJump
  romBound := 2 ^ logRomSize

def counter (value pc : Word) : Machine VectorMemoryImplWithRom ZeroedSource where
  registers := Function.update (fun _ => 0) 1 value
  pc := pc
  memory := countingMemory
  source := ⟨⟩

/-- The number of cycles before the last instruction is reached. -/
def countingCycles : ℕ := 2 ^ 23

/-- The machine after some cycles. -/
def counterAfter (cycles : ℕ) : Machine VectorMemoryImplWithRom ZeroedSource :=
  if cycles < countingCycles then
    counter (BitVec.ofNat 32 (1024 * ((cycles + 1) / 2))) (BitVec.ofNat 32 (4 * (cycles % 2)))
  else counter 0 8

theorem cycle_countUp (value : Word) :
    cycle imStandardIsaConfig (counter value 0) =
      some (⟨counter (value + 1024) 4, registerEvents 0 1 0 1 value 0 value (value + 1024)⟩,
        false) := by
  have fetched : MemorySource.getOpcodeNoexcept (counter value 0).memory
      (counter value 0).pc.toNat = some countUp := by
    change MemorySource.getOpcodeNoexcept countingMemory 0 = _
    decide +kernel
  have computed : opImmValue imStandardIsaConfig (funct3Bits countUp) (funct7Bits countUp) value
      (signExtend (ITypeOpcode.imm countUp) 12) = some (value + 1024) := rfl
  have registers : Function.update (counter value 0).registers 1 (value + 1024) =
      (counter (value + 1024) 0).registers := Function.update_idem _ _ _
  rw [cycle, fetched, bind_eq_bind, bind_some]
  change (execute _ countUp 0 value 0 (readOperands countUp (counter value 0))).bind _ = _
  rw [execute_opImm _ _ _ _ _ (by decide), computed, map_some, bind_some]
  exact congrArg (fun registers => some (Progress.mk { counter value 4 with registers }
    (registerEvents 0 1 0 1 value 0 value (value + 1024)), false)) registers

theorem cycle_branchBack (value : Word) :
    cycle imStandardIsaConfig (counter value 4) =
      some (⟨counter value (if value = 0 then 8 else 0), registerEvents 4 1 0 0 value 0 0 0⟩,
        false) := by
  have fetched : MemorySource.getOpcodeNoexcept (counter value 4).memory
      (counter value 4).pc.toNat = some branchBack := by
    change MemorySource.getOpcodeNoexcept countingMemory 4 = _
    decide +kernel
  have compared : shouldJump (funct3Bits branchBack) value 0 = some (value != 0) := rfl
  rw [cycle, fetched, bind_eq_bind, bind_some]
  change (execute _ branchBack 4 value 0 (readOperands branchBack (counter value 4))).bind _ = _
  rw [execute_branch _ _ _ _ _ (by decide), compared, bind_some]
  by_cases zero : value = 0
  · subst zero
    rfl
  · rw [bne_iff_ne.mpr zero, if_neg zero]
    rfl

/-- The events of some cycles that a tracer never refuses. -/
structure Quiet (cycles : ℕ) (events : List TraceEvent) : Prop where
  accepts : ∀ event ∈ events, GPUFriendlyTracer.Accepts (2 ^ logRomSize) event
  noDelegation : ∀ record, .recordDelegation record ∉ events
  count : events.countP startsCycle = cycles

theorem quiet_nil : Quiet 0 [] := ⟨by simp, by simp, rfl⟩

theorem quiet_registerEvents (pc : Word) (rs1 rs2 rd : BitVec 5) (rs1Value rs2Value old new : Word)
    (zero : rd = 0 → old = 0) :
    Quiet 1 (registerEvents pc rs1 rs2 rd rs1Value rs2Value old new) := by
  refine ⟨fun event member => ?_, by simp [registerEvents], rfl⟩
  simp only [registerEvents, mem_cons, not_mem_nil, or_false] at member
  rcases member with rfl | rfl | rfl | rfl | rfl
  · trivial
  · trivial
  · trivial
  · exact zero
  · trivial

theorem Quiet.append {cycles later : ℕ} {events rest : List TraceEvent}
    (first : Quiet cycles events) (second : Quiet later rest) :
    Quiet (cycles + later) (events ++ rest) where
  accepts event member := (mem_append.mp member).elim (first.accepts event) (second.accepts event)
  noDelegation record member :=
    (mem_append.mp member).elim (first.noDelegation record) (second.noDelegation record)
  count := by rw [countP_append, first.count, second.count]

section

variable {cycles : ℕ} (counting : cycles < countingCycles)

include counting

theorem counterAfter_succ_of_even (even : cycles % 2 = 0) : counterAfter (cycles + 1) =
    counter (BitVec.ofNat 32 (1024 * ((cycles + 1) / 2)) + 1024) 4 := by
  have inside : cycles + 1 < countingCycles := by
    unfold countingCycles at counting ⊢
    omega
  have passes : 1024 * ((cycles + 1 + 1) / 2) = 1024 * ((cycles + 1) / 2) + 1024 := by omega
  have second : (cycles + 1) % 2 = 1 := by omega
  rw [counterAfter, if_pos inside, passes, BitVec.ofNat_add, second]
  rfl

theorem counterAfter_succ_of_odd (odd : cycles % 2 = 1) : counterAfter (cycles + 1) =
    counter (BitVec.ofNat 32 (1024 * ((cycles + 1) / 2)))
      (if BitVec.ofNat 32 (1024 * ((cycles + 1) / 2)) = 0 then 8 else 0) := by
  by_cases last : cycles + 1 = countingCycles
  · have overflow : BitVec.ofNat 32 (1024 * (countingCycles / 2)) = 0 := by decide
    rw [last, overflow, counterAfter, if_neg (Nat.lt_irrefl _), if_pos rfl]
  · have inside : cycles + 1 < countingCycles := by omega
    have more : BitVec.ofNat 32 (1024 * ((cycles + 1) / 2)) ≠ 0 := by
      unfold countingCycles at inside
      intro zero
      have value := congrArg BitVec.toNat zero
      rw [BitVec.toNat_ofNat] at value
      change _ = 0 at value
      omega
    have passes : (cycles + 1 + 1) / 2 = (cycles + 1) / 2 := by omega
    have first : (cycles + 1) % 2 = 0 := by omega
    rw [counterAfter, if_pos inside, passes, first, if_neg more]
    rfl

end

theorem cycle_counterAfter (cycles : ℕ) :
    ∃ events, Quiet 1 events ∧ cycle imStandardIsaConfig (counterAfter cycles) =
      some (⟨counterAfter (cycles + 1), events⟩, decide (countingCycles ≤ cycles)) := by
  by_cases counting : cycles < countingCycles
  · have notYet : decide (countingCycles ≤ cycles) = false := decide_eq_false (by omega)
    rw [notYet]
    rcases Nat.mod_two_eq_zero_or_one cycles with even | odd
    · rw [counterAfter_succ_of_even counting even, counterAfter, if_pos counting, even]
      exact ⟨_, quiet_registerEvents _ _ _ _ _ _ _ _ (fun zero => absurd zero (by decide)),
        cycle_countUp _⟩
    · rw [counterAfter_succ_of_odd counting odd, counterAfter, if_pos counting, odd]
      exact ⟨_, quiet_registerEvents _ _ _ _ _ _ _ _ (fun _ => rfl), cycle_branchBack _⟩
  · have finished : decide (countingCycles ≤ cycles) = true := decide_eq_true (by omega)
    have fetched : MemorySource.getOpcodeNoexcept (counter 0 8).memory (counter 0 8).pc.toNat =
        some selfJump := by
      change MemorySource.getOpcodeNoexcept countingMemory 8 = _
      decide +kernel
    rw [finished, counterAfter, if_neg counting, counterAfter, if_neg (by omega)]
    exact ⟨_, quiet_registerEvents _ _ _ _ _ _ _ _ (fun _ => rfl),
      cycle_selfJump _ fetched rfl rfl⟩

theorem runCycles_counterAfter (numCycles cycles : ℕ) :
    ∃ events, Quiet numCycles events ∧
      runCycles imStandardIsaConfig numCycles (counterAfter cycles) =
        some (⟨counterAfter (cycles + numCycles), events⟩,
          decide (0 < numCycles ∧ countingCycles < cycles + numCycles)) := by
  induction numCycles generalizing cycles with
  | zero => exact ⟨[], quiet_nil, rfl⟩
  | succ numCycles ih =>
    rcases cycle_counterAfter cycles with ⟨events, quiet, first⟩
    rcases ih (cycles + 1) with ⟨rest, quietRest, remaining⟩
    refine ⟨events ++ rest, Nat.add_comm 1 _ ▸ quiet.append quietRest, ?_⟩
    simp only [runCycles, first, remaining, bind_eq_bind, bind_some, Nat.add_right_comm cycles 1,
      ← Nat.add_assoc, ← Bool.decide_or]
    have finished : (countingCycles ≤ cycles ∨
        0 < numCycles ∧ countingCycles < cycles + numCycles + 1) ↔
        0 < numCycles + 1 ∧ countingCycles < cycles + numCycles + 1 := by
      omega
    rw [decide_eq_decide.mpr finished]

theorem startChunk_next {tracer : GPUFriendlyTracer} {chunkIdx : ℕ}
    (power : 2 ^ (cyclesPerChunk + 1).log2 = cyclesPerChunk + 1)
    (size : tracer.chunkSize = cyclesPerChunk)
    (full : tracer.traceChunk.perCycleData.length = tracer.traceChunk.numCyclesChunkSize) :
    startChunk cyclesPerChunk (chunkIdx + 1) tracer = some { tracer with
      traceChunk := ⟨0, [], cyclesPerChunk⟩
      tracedChunks := tracer.tracedChunks ++ [tracer.traceChunk]
      currentTimestamp := chunkTimestamp cyclesPerChunk (chunkIdx + 1) } := by
  rw [startChunk, if_pos (Nat.succ_ne_zero chunkIdx), GPUFriendlyTracer.prepareForNextChunk,
    guard, if_pos full, size, CycleData.newWithCyclesCapacity, guard, if_pos power]
  rfl

/-- A tracer at the start of a chunk. -/
structure Empty (cyclesPerChunk chunkIdx : ℕ) (tracer : GPUFriendlyTracer) : Prop where
  romBound : tracer.bookkeepingAuxData.romBound = 2 ^ logRomSize
  chunkSize : tracer.chunkSize = cyclesPerChunk
  traceChunk : tracer.traceChunk = ⟨0, [], cyclesPerChunk⟩
  tracedChunks : tracer.tracedChunks.length = chunkIdx

theorem runChunks_counterAfter {remaining chunkIdx : ℕ} {tracer started : GPUFriendlyTracer}
    (positive : 0 < cyclesPerChunk) (power : 2 ^ (cyclesPerChunk + 1).log2 = cyclesPerChunk + 1)
    (starts : startChunk cyclesPerChunk chunkIdx tracer = some started)
    (empty : Empty cyclesPerChunk chunkIdx started)
    (notYet : chunkIdx * cyclesPerChunk ≤ countingCycles)
    (enough : countingCycles < (chunkIdx + remaining) * cyclesPerChunk) :
    ∃ machine after, runChunks imStandardIsaConfig cyclesPerChunk remaining chunkIdx
        (counterAfter (chunkIdx * cyclesPerChunk)) tracer =
          some (machine, after, countingCycles / cyclesPerChunk + 1) ∧
      (after.tracedChunks ++ [after.traceChunk]).length =
        countingCycles / cyclesPerChunk + 1 := by
  induction remaining generalizing chunkIdx tracer started with
  | zero => exact absurd enough (Nat.not_lt_of_ge notYet)
  | succ remaining ih =>
    rcases runCycles_counterAfter cyclesPerChunk (chunkIdx * cyclesPerChunk) with
      ⟨events, quiet, ran⟩
    rcases GPUFriendlyTracer.exists_traceAll started
      (fun event member => empty.romBound ▸ quiet.accepts event member) quiet.noDelegation with
      ⟨after, traces, continues⟩
    have traced : after.tracedChunks.length = chunkIdx := by
      rw [continues.tracedChunks, empty.tracedChunks]
    rw [← Nat.succ_mul] at ran
    simp only [runChunks, starts, ran, traces, bind_eq_bind, bind_some, positive, true_and,
      decide_eq_true_eq]
    split_ifs with finished
    · have index : countingCycles / cyclesPerChunk = chunkIdx :=
        Nat.div_eq_of_lt_le notYet finished
      rw [index]
      exact ⟨_, after, rfl, by rw [length_append, traced]; rfl⟩
    · have full : after.traceChunk.perCycleData.length = after.traceChunk.numCyclesChunkSize := by
        rw [continues.length, continues.capacity, empty.traceChunk, quiet.count]
        exact Nat.zero_add _
      have size : after.chunkSize = cyclesPerChunk := continues.chunkSize.trans empty.chunkSize
      refine ih (startChunk_next power size full)
        ⟨continues.romBound.trans empty.romBound, size, rfl, ?_⟩ (Nat.le_of_not_lt finished) ?_
      · rw [length_append, traced]
        rfl
      · rw [Nat.add_right_comm]
        exact enough

theorem exists_counting_run (positive : 0 < cyclesPerChunk)
    (power : 2 ^ (cyclesPerChunk + 1).log2 = cyclesPerChunk + 1) {numChunks : ℕ}
    (needed : countingCycles / cyclesPerChunk + 1 = numChunks) :
    ∃ run, runTillEndForGpuForMachineConfig countingArguments.config romAddressSpaceSecondWordBits
        (numChunks * cyclesPerChunk) (cyclesPerChunk + 1) countingArguments.binary
        countingArguments.nonDeterminism (fun _ => none) = some run ∧
      run.tracedChunks.length = numChunks := by
  have created : VectorMemoryImplWithRom.newForByteSize ramByteSize
      (1 <<< (16 + romAddressSpaceSecondWordBits)) =
        some ⟨.zeroed (ramByteSize / 4), 2 ^ logRomSize⟩ := rfl
  have populates : populateBinary VectorMemoryImplWithRom.populate
      ⟨.zeroed (ramByteSize / 4), 2 ^ logRomSize⟩ countingArguments.binary =
        some countingMemory := rfl
  have machine : Machine.initial entryPoint countingMemory countingArguments.nonDeterminism =
      counterAfter (0 * cyclesPerChunk) := by
    have registers : Function.update (fun _ => 0 : BitVec 5 → Word) 1 0 = fun _ => 0 :=
      Function.update_eq_self 1 (fun _ => 0 : BitVec 5 → Word)
    rw [Nat.zero_mul, counterAfter, if_pos (by decide), counter]
    exact congrArg (fun registers => Machine.mk registers (0 : Word) countingMemory
      countingArguments.nonDeterminism) registers.symm
  let tables : Tracing.RamTracingData :=
    ⟨fun _ => 0, fun _ => 0, fun _ => false, 0, 1 <<< (16 + romAddressSpaceSecondWordBits)⟩
  let tracer : GPUFriendlyTracer := ⟨tables, ⟨0, [], cyclesPerChunk⟩, [],
    ⟨fun _ => none, fun _ => [], fun _ => none⟩, cyclesPerChunk, chunkTimestamp cyclesPerChunk 0⟩
  have newTracer : GPUFriendlyTracer.new (chunkTimestamp cyclesPerChunk 0) tables
      ⟨fun _ => none, fun _ => [], fun _ => none⟩ cyclesPerChunk = some tracer := by
    simp only [GPUFriendlyTracer.new, CycleData.newWithCyclesCapacity, guard, if_pos power,
      Option.pure_def, bind_eq_bind, bind_some]
    rfl
  have bound : (numChunks * cyclesPerChunk + cyclesPerChunk - 1) / cyclesPerChunk *
      cyclesPerChunk / cyclesPerChunk = numChunks := by
    rw [Nat.mul_div_cancel _ positive, Nat.add_sub_assoc positive, Nat.mul_comm,
      Nat.mul_add_div positive, Nat.div_eq_of_lt (Nat.sub_one_lt_of_lt positive), Nat.add_zero]
  have enough : countingCycles < (0 + numChunks) * cyclesPerChunk := by
    rw [Nat.zero_add, ← needed]
    exact Nat.lt_mul_of_div_lt (Nat.lt_succ_self _) positive
  have starts : startChunk cyclesPerChunk 0 tracer = some tracer := rfl
  have empty : Empty cyclesPerChunk 0 tracer := ⟨rfl, rfl, rfl, rfl⟩
  have notYet : 0 * cyclesPerChunk ≤ countingCycles := by
    rw [Nat.zero_mul]
    exact Nat.zero_le _
  rcases runChunks_counterAfter positive power starts empty notYet enough with
    ⟨last, after, loop, chunks⟩
  rw [← machine] at loop
  nth_rewrite 1 [← bound] at loop
  rcases exists_run power (Nat.ne_of_gt positive) created populates rfl newTracer loop chunks with
    ⟨run, completed, sameChunks⟩
  exact ⟨run, completed, by rw [sameChunks, chunks, needed]⟩

theorem counting_run :
    ∃ run, runTillEndForGpuForMachineConfig countingArguments.config romAddressSpaceSecondWordBits
        (3 * MainCircuitType.riscVCycles.cyclesPerChunk)
        countingArguments.circuitType.getDomainSize countingArguments.binary
        countingArguments.nonDeterminism (fun _ => none) = some run ∧
      run.tracedChunks.length = 3 := by
  have size : countingArguments.circuitType.getDomainSize =
      MainCircuitType.riscVCycles.cyclesPerChunk + 1 := by
    decide +kernel
  rw [size]
  exact exists_counting_run (by decide) (by decide +kernel) (by decide +kernel)

/-- The first worker traces the first and the last chunk, the second one the chunk between. -/
theorem two_workers_record_three_chunks :
    ∃ run, runTillEndForGpuForMachineConfig countingArguments.config romAddressSpaceSecondWordBits
        (3 * MainCircuitType.riscVCycles.cyclesPerChunk)
        countingArguments.circuitType.getDomainSize countingArguments.binary
        countingArguments.nonDeterminism (fun _ => none) = some run ∧
      run.tracedChunks.length = 3 ∧
      ∃ results : ℕ → List (CpuWorkerResult Unit),
        (∀ splitIndex, traceCycles countingArguments 2 splitIndex = some (results splitIndex)) ∧
        (sentChunks (results 0)).map Prod.fst = [0, 2] ∧
        (sentChunks (results 1)).map Prod.fst = [1] ∧
        ((List.range 2).flatMap fun splitIndex => sentChunks (results splitIndex)).Perm
          (recordsOf (run.tracedChunks.zipIdx.filter fun (_, index) =>
            (CircuitType.main .riscVCycles, index) ∉ countingArguments.skipSet)) := by
  rcases counting_run with ⟨run, completed, three⟩
  have sameOracle : SameOracle ZeroedSource
      (VectorMemoryImplWithRom.HasSize ramByteSize logRomSize)
      (VectorMemoryImplWithRom.toBoxed ramByteSize logRomSize) :=
    ⟨rfl, rfl, fun _ => rfl, fun _ _ _ _ => rfl⟩
  rcases cycles_workers_record_sequential_chunks (R := Unit) sameOracle countingArguments completed
    (Nat.le_of_eq three) (by decide : 2 ≠ 0) with ⟨results, traced, sent, all⟩
  match chunks : run.tracedChunks, three with
  | [first, second, third], _ =>
    refine ⟨run, completed, by rw [chunks]; rfl, results, traced, ?_, ?_, all⟩
    · rw [sent, chunks]
      rfl
    · rw [sent, chunks]
      rfl

end Airbender.Execution

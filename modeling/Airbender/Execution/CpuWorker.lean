import Airbender.Execution.ExecutionTracer
import Airbender.Tracing.GpuFriendlyTracer

/-!
# CPU workers

Some workers of a batch share the records of the cycles of its program between them. Each of them
runs the whole program on its own; what it sends is its result here. A worker that panics has none.
-/

namespace Airbender.Execution

open Simulator Simulator.Unrolled Tracing

namespace MainCircuitType

def logDomainSize : MainCircuitType → ℕ
  | finalReducedRiscVMachine => 25
  | machineWithoutSignedMulDiv => 22
  | reducedRiscVLog23Machine => 23
  | reducedRiscVMachine => 22
  | riscVCycles => 22

def getDomainSize (circuitType : MainCircuitType) : ℕ := 2 ^ circuitType.logDomainSize

def cyclesPerChunk (circuitType : MainCircuitType) : ℕ := circuitType.getDomainSize - 1

end MainCircuitType

/-- `ROM_ADDRESS_SPACE_SECOND_WORD_BITS`, the same for all machines. -/
def romAddressSpaceSecondWordBits : ℕ := 5

def logRomSize : ℕ := 16 + romAddressSpaceSecondWordBits

/-- `BoxedMemoryImplWithRom::<RAM_SIZE, LOG_ROM_SIZE>`. -/
abbrev WorkerMemory := BoxedMemoryImplWithRom ramByteSize logRomSize

structure LazyInitAndTeardown where
  address : Word
  teardownValue : Word
  teardownTimestamp : TimestampData
deriving DecidableEq

/-- What CPU workers send, and the GPU manager on the same channel. -/
abbrev CpuWorkerResult (R : Type) :=
  WorkerResult (List LazyInitAndTeardown) (List SingleCycleTracingData) DelegationCall
    (List Prover.FinalRegisterValue) R

structure WorkerArguments (S : Type) where
  config : MachineConfig
  numMainChunksUpperBound : ℕ
  circuitType : MainCircuitType
  binary : List Word
  nonDeterminism : S
  skipSet : List (CircuitType × ℕ)

/-- The swap function of workers that do not trace delegations is never called. -/
def unreachableSwapFn : DelegationSwapFn Unit := fun _ _ _ => none

section

variable {S R : Type} [NonDeterminismCSRSource WorkerMemory S]

def initialMachine (binary : List Word) (nonDeterminism : S) : Option (Machine WorkerMemory S) := do
  let memory ← BoxedMemoryImplWithRom.new ramByteSize logRomSize
  let memory ← populateBinary BoxedMemoryImplWithRom.populate memory binary
  some (Machine.initial entryPoint memory nonDeterminism)

/-- A worker traces every chunk of its own that is not skipped, and runs over the others. -/
def isTraced (arguments : WorkerArguments S) (splitCount splitIndex chunkIndex : ℕ) : Bool :=
  chunkIndex % splitCount = splitIndex ∧
    (CircuitType.main arguments.circuitType, chunkIndex) ∉ arguments.skipSet

def cyclesFlags (traced : Bool) : TracerFlags where
  traceTouchedRam := false
  traceCycles := traced
  traceDelegations := false

def traceCyclesLoop (arguments : WorkerArguments S) (splitCount splitIndex : ℕ) :
    (remaining chunkIndex : ℕ) → Machine WorkerMemory S → RamTracingData →
      Option (List (CpuWorkerResult R))
  | 0, _, _, _ => none
  | remaining + 1, chunkIndex, machine, ramTracingData => do
      let cyclesPerChunk := arguments.circuitType.cyclesPerChunk
      let traced := isTraced arguments splitCount splitIndex chunkIndex
      let (progress, finished) ← runCycles arguments.config cyclesPerChunk machine
      let initialTimestamp := chunkTimestamp cyclesPerChunk chunkIndex
      let tracer ← (ExecutionTracer.new ramTracingData () initialTimestamp).traceAll
        (cyclesFlags traced) logRomSize unreachableSwapFn progress.events
      let sent := if traced then [.cyclesChunk chunkIndex tracer.perCycleData] else []
      let chunksTracedCount := chunkIndex + 1
      if finished then some (sent ++ [.cyclesTracingResult chunksTracedCount])
      else do
        let rest ← traceCyclesLoop arguments splitCount splitIndex remaining chunksTracedCount
          progress.machine tracer.ramTracingData
        some (sent ++ rest)

def traceCycles (arguments : WorkerArguments S) (splitCount splitIndex : ℕ) :
    Option (List (CpuWorkerResult R)) := do
  guard (splitCount ≠ 0)
  let machine ← initialMachine arguments.binary arguments.nonDeterminism
  traceCyclesLoop arguments splitCount splitIndex arguments.numMainChunksUpperBound 0 machine
    RamTracingData.new

end

end Airbender.Execution

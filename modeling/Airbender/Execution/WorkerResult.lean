import Airbender.Execution.GpuManager

/-!
# The results channel of a batch

What the CPU workers and the GPU send to `get_results`, and the requests that are made of it.
-/

namespace Airbender.Execution

inductive MainCircuitType where
  | finalReducedRiscVMachine
  | machineWithoutSignedMulDiv
  | reducedRiscVLog23Machine
  | reducedRiscVMachine
  | riscVCycles
deriving DecidableEq

inductive DelegationCircuitType where
  | bigIntWithControl
  | blake2WithCompression
deriving DecidableEq

def DelegationCircuitType.id : DelegationCircuitType → ℕ
  | bigIntWithControl => 1994
  | blake2WithCompression => 1991

inductive CircuitType where
  | main (type : MainCircuitType)
  | delegation (type : DelegationCircuitType)
deriving DecidableEq

instance : LawfulBEq (CircuitType × ℕ) := inferInstance

structure DelegationWitness (D : Type) where
  delegationType : DelegationCircuitType
  calls : List D
deriving DecidableEq

inductive TracingData (S C D : Type) where
  | main (setupAndTeardown : Option S) (trace : C)
  | delegation (witness : DelegationWitness D)
deriving DecidableEq

/-- What a request is about. -/
structure Chunk (S C D : Type) where
  circuitType : CircuitType
  circuitSequence : ℕ
  tracingData : TracingData S C D
deriving DecidableEq

/-- The messages on the results channel. The result of the GPU is a memory commitment or a
proof, depending on its kind. -/
inductive WorkerResult (S C D V R : Type) where
  | setupAndTeardownChunk (index : ℕ) (chunk : Option S)
  | ramTracingResult (chunksTracedCount : ℕ) (finalRegisterValues : V)
  | cyclesChunk (index : ℕ) (data : C)
  | cyclesTracingResult (chunksTracedCount : ℕ)
  | delegationWitness (circuitSequence : ℕ) (witness : DelegationWitness D)
  | delegationTracingResult (delegationChunksCounts : List (DelegationCircuitType × ℕ))
  | gpuResult (result : GpuWorkResult (Chunk S C D)) (value : R)
deriving DecidableEq

end Airbender.Execution

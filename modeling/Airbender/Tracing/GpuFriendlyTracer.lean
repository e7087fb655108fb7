import Airbender.Prover.FsTransform
import Airbender.Tracing.CycleRecord

/-!
# The sequential run

`GPUFriendlyTracer` and `run_till_end_for_gpu_for_machine_config`, which runs a program chunk by
chunk. Checks of debug builds are left out.
-/

namespace Airbender.Tracing

open Simulator Simulator.Unrolled LastUse List
open Option hiding guard

structure RamTracingData where
  registerLastLiveTimestamps : BitVec 5 → ℕ
  ramWordsLastLiveTimestamps : ℕ → ℕ
  /-- One bit for each word. -/
  accessBitmask : ℕ → Bool
  numTouchedRamCells : ℕ
  romBound : ℕ

namespace RamTracingData

def newForRamSizeAndRomBound (ramSize romBound : ℕ) : Option RamTracingData := do
  guard (ramSize % 4 = 0)
  guard (romBound % 4 = 0)
  some {
    registerLastLiveTimestamps := fun _ => 0
    ramWordsLastLiveTimestamps := fun _ => 0
    accessBitmask := fun _ => false
    numTouchedRamCells := 0
    romBound := romBound }

def markRegisterUse (data : RamTracingData) (regIdx : BitVec 5) (writeTimestamp : ℕ) :
    ℕ × RamTracingData :=
  (data.registerLastLiveTimestamps regIdx,
    { data with
      registerLastLiveTimestamps :=
        Function.update data.registerLastLiveTimestamps regIdx writeTimestamp })

def markRamSlotUse (data : RamTracingData) (physWordIdx writeTimestamp : ℕ) :
    ℕ × RamTracingData :=
  (data.ramWordsLastLiveTimestamps physWordIdx,
    { data with
      ramWordsLastLiveTimestamps :=
        Function.update data.ramWordsLastLiveTimestamps physWordIdx writeTimestamp
      accessBitmask := Function.update data.accessBitmask physWordIdx true
      numTouchedRamCells := data.numTouchedRamCells + (!data.accessBitmask physWordIdx).toNat })

def lastUse (data : RamTracingData) : Location → ℕ
  | .register index => data.registerLastLiveTimestamps index
  | .word index => data.ramWordsLastLiveTimestamps index

variable (data : RamTracingData)

@[simp] theorem lastUse_markRegisterUse (regIdx : BitVec 5) (writeTimestamp : ℕ) :
    (data.markRegisterUse regIdx writeTimestamp).2.lastUse =
      mark data.lastUse ⟨.register regIdx, writeTimestamp⟩ := by
  funext location
  cases location with
  | register index =>
    by_cases same : index = regIdx
    · simp [lastUse, markRegisterUse, mark, same]
    · simp [lastUse, markRegisterUse, mark, same]
  | word index => simp [lastUse, markRegisterUse, mark]

@[simp] theorem lastUse_markRamSlotUse (physWordIdx writeTimestamp : ℕ) :
    (data.markRamSlotUse physWordIdx writeTimestamp).2.lastUse =
      mark data.lastUse ⟨.word physWordIdx, writeTimestamp⟩ := by
  funext location
  cases location with
  | register index => simp [lastUse, markRamSlotUse, mark]
  | word index =>
    by_cases same : index = physWordIdx
    · simp [lastUse, markRamSlotUse, mark, same]
    · simp [lastUse, markRamSlotUse, mark, same]

def registerMark (writeTimestamp : ℕ) (data : RamTracingData) (register : BitVec 5) :
    ℕ × RamTracingData :=
  data.markRegisterUse register writeTimestamp

def wordMark (writeTimestamp : ℕ) (data : RamTracingData) (word : ℕ) : ℕ × RamTracingData :=
  data.markRamSlotUse word writeTimestamp

theorem marksAt (writeTimestamp : ℕ) :
    MarksAt lastUse writeTimestamp (registerMark writeTimestamp) (wordMark writeTimestamp) where
  register_fst _ _ := rfl
  register_snd data register := lastUse_markRegisterUse data register writeTimestamp
  word_fst _ _ := rfl
  word_snd data word := lastUse_markRamSlotUse data word writeTimestamp

theorem romBound_markAll {κ : Type} {markUse : RamTracingData → κ → ℕ × RamTracingData}
    (same : ∀ data key, (markUse data key).2.romBound = data.romBound) (data : RamTracingData)
    (keys : List κ) : (markAll markUse data keys).2.romBound = data.romBound := by
  induction keys generalizing data with
  | nil => rfl
  | cons key rest ih =>
    rw [← same data key]
    exact ih _

theorem romBound_traceCall (writeTimestamp : ℕ) (record : DelegationRecord) :
    (traceCall (registerMark writeTimestamp) (wordMark writeTimestamp) data writeTimestamp
      record).2.romBound = data.romBound := by
  simp only [traceCall, markCall]
  rw [romBound_markAll fun _ _ => rfl, romBound_markAll fun _ _ => rfl,
    romBound_markAll fun _ _ => rfl]

end RamTracingData

structure CycleData where
  cyclesTraced : ℕ
  perCycleData : List SingleCycleTracingData
  numCyclesChunkSize : ℕ
deriving DecidableEq

def CycleData.newWithCyclesCapacity (numCycles : ℕ) : Option CycleData := do
  guard (2 ^ (numCycles + 1).log2 = numCycles + 1)
  some ⟨0, [], numCycles⟩

/-- The vectors of a witness are grouped by call. -/
structure DelegationWitness where
  numRequests : ℕ
  baseRegisterIndex : BitVec 5
  delegationType : BitVec 16
  calls : List DelegationCall
deriving DecidableEq

def DelegationWitness.atCapacity (witness : DelegationWitness) : Option Bool := do
  guard (witness.calls.length ≤ witness.numRequests)
  some (witness.numRequests = witness.calls.length)

/-- The factories are known by the witness they make. -/
structure DelegationTracingData where
  currentPerTypeLogs : BitVec 16 → Option DelegationWitness
  allPerTypeLogs : BitVec 16 → List DelegationWitness
  delegationWitnessFactories : BitVec 16 → Option DelegationWitness

structure GPUFriendlyTracer where
  bookkeepingAuxData : RamTracingData
  traceChunk : CycleData
  tracedChunks : List CycleData
  delegationTracer : DelegationTracingData
  chunkSize : ℕ
  currentTimestamp : ℕ

namespace GPUFriendlyTracer

def new (initialTimestamp : ℕ) (bookkeepingAuxData : RamTracingData)
    (delegationTracer : DelegationTracingData) (chunkSize : ℕ) : Option GPUFriendlyTracer := do
  guard (2 ^ (chunkSize + 1).log2 = chunkSize + 1)
  let traceChunk ← CycleData.newWithCyclesCapacity chunkSize
  some {
    bookkeepingAuxData := bookkeepingAuxData
    traceChunk := traceChunk
    tracedChunks := []
    delegationTracer := delegationTracer
    chunkSize := chunkSize
    currentTimestamp := initialTimestamp }

variable (tracer : GPUFriendlyTracer)

def prepareForNextChunk (timestamp : ℕ) :
    Option GPUFriendlyTracer := do
  guard (tracer.traceChunk.perCycleData.length = tracer.traceChunk.numCyclesChunkSize)
  let traceChunk ← CycleData.newWithCyclesCapacity tracer.chunkSize
  some { tracer with
    traceChunk
    tracedChunks := tracer.tracedChunks ++ [tracer.traceChunk]
    currentTimestamp := timestamp }

def recordCycle
    (change : SingleCycleTracingData → SingleCycleTracingData) : GPUFriendlyTracer :=
  { tracer with
    traceChunk := { tracer.traceChunk with
      perCycleData := modifyLast change tracer.traceChunk.perCycleData } }

def markRegisterUse (regIdx : BitVec 5) (writeTimestamp : ℕ) :
    ℕ × GPUFriendlyTracer :=
  let (readTimestamp, bookkeepingAuxData) :=
    tracer.bookkeepingAuxData.markRegisterUse regIdx writeTimestamp
  (readTimestamp, { tracer with bookkeepingAuxData })

def markRamSlotUse (physWordIdx writeTimestamp : ℕ) :
    ℕ × GPUFriendlyTracer :=
  let (readTimestamp, bookkeepingAuxData) :=
    tracer.bookkeepingAuxData.markRamSlotUse physWordIdx writeTimestamp
  (readTimestamp, { tracer with bookkeepingAuxData })

def atCycleStartExt (pc : Word) : GPUFriendlyTracer :=
  { tracer with
    traceChunk := { tracer.traceChunk with
      perCycleData :=
        tracer.traceChunk.perCycleData ++ [{ SingleCycleTracingData.empty with pc }] } }

def atCycleEndExt : GPUFriendlyTracer :=
  { tracer with
    currentTimestamp := tracer.currentTimestamp + timestampStep
    traceChunk := { tracer.traceChunk with cyclesTraced := tracer.traceChunk.cyclesTraced + 1 } }

def traceRs1Read (regIdx : BitVec 5) (readValue : Word) :
    GPUFriendlyTracer :=
  let writeTimestamp := tracer.currentTimestamp + rs1AccessIdx
  let (readTimestamp, tracer) := tracer.markRegisterUse regIdx writeTimestamp
  tracer.recordCycle fun dst => { dst with
    rs1ReadValue := readValue
    rs1ReadTimestamp := .fromScalar readTimestamp
    rs1RegIdx := regIdx.setWidth 16 }

def traceRs2Read (regIdx : BitVec 5) (readValue : Word) :
    GPUFriendlyTracer :=
  let writeTimestamp := tracer.currentTimestamp + rs2AccessIdx
  let (readTimestamp, tracer) := tracer.markRegisterUse regIdx writeTimestamp
  tracer.recordCycle fun dst => { dst with
    rs2OrMemWordReadValue := readValue
    rs2OrMemWordAddress := .register regIdx
    rs2OrMemReadTimestamp := .fromScalar readTimestamp }

def traceRdWrite (regIdx : BitVec 5)
    (readValue writtenValue : Word) : Option GPUFriendlyTracer := do
  let writeTimestamp := tracer.currentTimestamp + rdAccessIdx
  let (readTimestamp, tracer) := tracer.markRegisterUse regIdx writeTimestamp
  guard (regIdx = 0 → readValue = 0)
  some (tracer.recordCycle fun dst => { dst with
    rdOrMemWordReadValue := readValue
    rdOrMemWordWriteValue := if regIdx = 0 then 0 else writtenValue
    rdOrMemWordAddress := .register regIdx
    rdOrMemReadTimestamp := .fromScalar readTimestamp })

def traceNonDeterminismRead (readValue : Word) :
    GPUFriendlyTracer :=
  tracer.recordCycle fun dst => { dst with nonDeterminismRead := readValue }

def traceRamRead (physAddress readValue : Word) :
    Option GPUFriendlyTracer := do
  guard (physAddress.toNat % 4 = 0)
  let (address, readValue) :=
    if physAddress.toNat < tracer.bookkeepingAuxData.romBound then (0, 0)
    else (physAddress, readValue)
  let writeTimestamp := tracer.currentTimestamp + ramReadAccessIdx
  let (readTimestamp, tracer) := tracer.markRamSlotUse (address.toNat / 4) writeTimestamp
  some (tracer.recordCycle fun dst => { dst with
    rs2OrMemWordReadValue := readValue
    rs2OrMemWordAddress := .memory address
    rs2OrMemReadTimestamp := .fromScalar readTimestamp })

def traceRamReadWrite (physAddress readValue writtenValue : Word) :
    Option GPUFriendlyTracer := do
  guard (physAddress.toNat % 4 = 0)
  guard (tracer.bookkeepingAuxData.romBound ≤ physAddress.toNat)
  let writeTimestamp := tracer.currentTimestamp + ramWriteAccessIdx
  let (readTimestamp, tracer) := tracer.markRamSlotUse (physAddress.toNat / 4) writeTimestamp
  some (tracer.recordCycle fun dst => { dst with
    rdOrMemWordReadValue := readValue
    rdOrMemWordWriteValue := writtenValue
    rdOrMemWordAddress := .memory physAddress
    rdOrMemReadTimestamp := .fromScalar readTimestamp })

/-- `entry(..).or_insert_with(..)`. -/
def currentLog (delegations : DelegationTracingData) (delegationType : BitVec 16) :
    Option DelegationWitness :=
  match delegations.currentPerTypeLogs delegationType with
  | some current => some current
  | none => delegations.delegationWitnessFactories delegationType

/-- The log after a call; a full one is replaced by a new one. -/
def storeLog (delegations : DelegationTracingData) (delegationType : BitVec 16)
    (current : DelegationWitness) : Option DelegationTracingData := do
  let shouldReplace ← current.atCapacity
  if shouldReplace then do
    let newTracer ← delegations.delegationWitnessFactories delegationType
    some { delegations with
      currentPerTypeLogs :=
        Function.update delegations.currentPerTypeLogs delegationType (some newTracer)
      allPerTypeLogs := Function.update delegations.allPerTypeLogs delegationType
        (delegations.allPerTypeLogs delegationType ++ [current]) }
  else
    some { delegations with
      currentPerTypeLogs :=
        Function.update delegations.currentPerTypeLogs delegationType (some current) }

def recordDelegation (record : DelegationRecord) :
    Option GPUFriendlyTracer := do
  guard (tracer.currentTimestamp % timestampStep = 0)
  guard (record.indirectReadAddresses.length = record.indirectReads.length)
  guard (record.indirectWriteAddresses.length = record.indirectWrites.length)
  let writeTimestamp := tracer.currentTimestamp + delegationAccessIdx
  let delegationType := record.accessId.setWidth 16
  let current ← currentLog tracer.delegationTracer delegationType
  guard (current.baseRegisterIndex = record.baseRegister)
  let (call, bookkeepingAuxData) := traceCall (RamTracingData.registerMark writeTimestamp)
    (RamTracingData.wordMark writeTimestamp) tracer.bookkeepingAuxData writeTimestamp record
  let delegationTracer ← storeLog tracer.delegationTracer delegationType
    { current with calls := current.calls ++ [call] }
  let tracer := tracer.recordCycle fun dst => { dst with delegationRequest := delegationType }
  some { tracer with bookkeepingAuxData, delegationTracer }

def trace : TraceEvent → Option GPUFriendlyTracer
  | .atCycleStart pc => some (tracer.atCycleStartExt pc)
  | .traceRs1Read register readValue => some (tracer.traceRs1Read register readValue)
  | .traceRs2Read register readValue => some (tracer.traceRs2Read register readValue)
  | .traceRdWrite register readValue writtenValue =>
    tracer.traceRdWrite register readValue writtenValue
  | .traceNonDeterminismRead readValue => some (tracer.traceNonDeterminismRead readValue)
  | .traceNonDeterminismWrite _ => some tracer
  | .traceRamRead physAddress readValue => tracer.traceRamRead physAddress readValue
  | .traceRamReadWrite physAddress readValue writtenValue =>
    tracer.traceRamReadWrite physAddress readValue writtenValue
  | .recordDelegation record => tracer.recordDelegation record
  | .atCycleEnd => some tracer.atCycleEndExt

def traceAll (events : List TraceEvent) :
    Option GPUFriendlyTracer :=
  events.foldlM trace tracer

/-- The calls whose assertions hold, up to those about delegations. -/
def Accepts (romBound : ℕ) : TraceEvent → Prop
  | .traceRdWrite register readValue _ => register = 0 → readValue = 0
  | .traceRamRead physAddress _ => physAddress.toNat % 4 = 0
  | .traceRamReadWrite physAddress _ _ => physAddress.toNat % 4 = 0 ∧ romBound ≤ physAddress.toNat
  | .recordDelegation record => record.WellFormed
  | _ => True

structure Traces (tracer after : GPUFriendlyTracer) (event : TraceEvent) : Prop where
  accepts : Accepts tracer.bookkeepingAuxData.romBound event
  lastUse : after.bookkeepingAuxData.lastUse = marked tracer.bookkeepingAuxData.lastUse
    (eventUses tracer.bookkeepingAuxData.romBound tracer.currentTimestamp event)
  romBound : after.bookkeepingAuxData.romBound = tracer.bookkeepingAuxData.romBound
  currentTimestamp : after.currentTimestamp = nextTimestamp tracer.currentTimestamp event
  perCycleData : after.traceChunk.perCycleData =
    recordEvent tracer.bookkeepingAuxData.romBound (replaced tracer.bookkeepingAuxData.lastUse
      (eventUses tracer.bookkeepingAuxData.romBound tracer.currentTimestamp event)) event
      tracer.traceChunk.perCycleData
  tracedChunks : after.tracedChunks = tracer.tracedChunks
  chunkSize : after.chunkSize = tracer.chunkSize
  capacity : after.traceChunk.numCyclesChunkSize = tracer.traceChunk.numCyclesChunkSize

theorem traces_of_trace {tracer after : GPUFriendlyTracer} {event : TraceEvent}
    (completed : tracer.trace event = some after) : Traces tracer after event := by
  cases event with
  | atCycleStart pc =>
    cases completed
    exact ⟨trivial, rfl, rfl, rfl, rfl, rfl, rfl, rfl⟩
  | traceRs1Read register readValue =>
    cases completed
    exact ⟨trivial, RamTracingData.lastUse_markRegisterUse _ register _,
      rfl, rfl, rfl, rfl, rfl, rfl⟩
  | traceRs2Read register readValue =>
    cases completed
    exact ⟨trivial, RamTracingData.lastUse_markRegisterUse _ register _,
      rfl, rfl, rfl, rfl, rfl, rfl⟩
  | traceRdWrite register readValue writtenValue =>
    simp only [trace, traceRdWrite, bind_eq_bind, bind_eq_some_iff,
      guard_eq_some', Option.some.injEq] at completed
    rcases completed with ⟨_, zero, rfl⟩
    exact ⟨zero, RamTracingData.lastUse_markRegisterUse _ register _, rfl, rfl, rfl, rfl, rfl, rfl⟩
  | traceNonDeterminismRead readValue =>
    cases completed
    exact ⟨trivial, rfl, rfl, rfl, rfl, rfl, rfl, rfl⟩
  | traceNonDeterminismWrite writtenValue =>
    cases completed
    exact ⟨trivial, rfl, rfl, rfl, rfl, rfl, rfl, rfl⟩
  | traceRamRead physAddress readValue =>
    have substituted : (if physAddress.toNat < tracer.bookkeepingAuxData.romBound then (0, 0)
        else (physAddress, readValue)) =
        (readAddress tracer.bookkeepingAuxData.romBound physAddress,
          readValueOf tracer.bookkeepingAuxData.romBound physAddress readValue) := by
      simp only [readAddress, readValueOf]
      split_ifs <;> rfl
    simp only [trace, traceRamRead, substituted, bind_eq_bind, bind_eq_some_iff,
      guard_eq_some', Option.some.injEq] at completed
    rcases completed with ⟨_, aligned, rfl⟩
    exact ⟨aligned, RamTracingData.lastUse_markRamSlotUse _ _ _, rfl, rfl, rfl, rfl, rfl, rfl⟩
  | traceRamReadWrite physAddress readValue writtenValue =>
    simp only [trace, traceRamReadWrite, bind_eq_bind, bind_eq_some_iff,
      guard_eq_some', Option.some.injEq] at completed
    rcases completed with ⟨_, aligned, _, outside, rfl⟩
    exact ⟨⟨aligned, outside⟩, RamTracingData.lastUse_markRamSlotUse _ _ _,
      rfl, rfl, rfl, rfl, rfl, rfl⟩
  | recordDelegation record =>
    simp only [trace, recordDelegation, bind_eq_bind, bind_eq_some_iff,
      guard_eq_some', Option.some.injEq] at completed
    rcases completed with ⟨_, _, _, reads, _, writes, current, _, _, _, delegations, _, rfl⟩
    have wellFormed : record.WellFormed := ⟨reads, writes⟩
    have spec := traceCall_spec
      (RamTracingData.marksAt (tracer.currentTimestamp + delegationAccessIdx))
      tracer.bookkeepingAuxData wellFormed
    exact ⟨wellFormed, spec.2, RamTracingData.romBound_traceCall _ _ _, rfl, rfl, rfl, rfl,
      rfl⟩
  | atCycleEnd =>
    cases completed
    exact ⟨trivial, rfl, rfl, rfl, rfl, rfl, rfl, rfl⟩

theorem exists_trace {event : TraceEvent}
    (accepts : Accepts tracer.bookkeepingAuxData.romBound event)
    (other : ∀ record, event ≠ .recordDelegation record) :
    ∃ after, tracer.trace event = some after := by
  cases event with
  | traceRdWrite register readValue writtenValue =>
    have holds : register = 0 → readValue = 0 := accepts
    exact ⟨_, by rw [trace, traceRdWrite, guard, if_pos holds]; rfl⟩
  | traceRamRead physAddress readValue =>
    have aligned : physAddress.toNat % 4 = 0 := accepts
    exact ⟨_, by rw [trace, traceRamRead, guard, if_pos aligned]; rfl⟩
  | traceRamReadWrite physAddress readValue writtenValue =>
    rw [trace, traceRamReadWrite, guard, guard, if_pos accepts.1, if_pos accepts.2]
    exact ⟨_, rfl⟩
  | recordDelegation record => exact absurd rfl (other record)
  | atCycleStart pc => exact ⟨_, rfl⟩
  | traceRs1Read register readValue => exact ⟨_, rfl⟩
  | traceRs2Read register readValue => exact ⟨_, rfl⟩
  | traceNonDeterminismRead readValue => exact ⟨_, rfl⟩
  | traceNonDeterminismWrite writtenValue => exact ⟨_, rfl⟩
  | atCycleEnd => exact ⟨_, rfl⟩

/-- What a run of the given number of cycles leaves of a tracer. -/
structure Continues (tracer after : GPUFriendlyTracer) (cycles : ℕ) : Prop where
  romBound : after.bookkeepingAuxData.romBound = tracer.bookkeepingAuxData.romBound
  tracedChunks : after.tracedChunks = tracer.tracedChunks
  chunkSize : after.chunkSize = tracer.chunkSize
  capacity : after.traceChunk.numCyclesChunkSize = tracer.traceChunk.numCyclesChunkSize
  length : after.traceChunk.perCycleData.length = tracer.traceChunk.perCycleData.length + cycles

theorem Traces.continues {tracer after : GPUFriendlyTracer} {event : TraceEvent}
    (traces : Traces tracer after event) :
    Continues tracer after ([event].countP startsCycle) :=
  ⟨traces.romBound, traces.tracedChunks, traces.chunkSize, traces.capacity, by
    rw [traces.perCycleData, length_recordEvent]⟩

theorem exists_traceAll {events : List TraceEvent}
    (accepts : ∀ event ∈ events, Accepts tracer.bookkeepingAuxData.romBound event)
    (other : ∀ record, .recordDelegation record ∉ events) :
    ∃ after, tracer.traceAll events = some after ∧
      Continues tracer after (events.countP startsCycle) := by
  induction events generalizing tracer with
  | nil => exact ⟨tracer, rfl, rfl, rfl, rfl, rfl, rfl⟩
  | cons event rest ih =>
    have otherHead : ∀ record, event ≠ .recordDelegation record :=
      fun record same => other record (same ▸ mem_cons_self)
    rcases exists_trace tracer (accepts event mem_cons_self) otherHead with ⟨middle, first⟩
    have continues := (traces_of_trace first).continues
    have acceptsRest : ∀ later ∈ rest, Accepts middle.bookkeepingAuxData.romBound later := by
      intro later member
      rw [continues.romBound]
      exact accepts later (mem_cons_of_mem _ member)
    rcases ih middle acceptsRest (fun record member => other record
      (mem_cons_of_mem _ member)) with ⟨after, remaining, later⟩
    refine ⟨after, ?_, ?_⟩
    · simp only [traceAll, foldlM_cons, first, bind_eq_bind, bind_some]
      exact remaining
    · constructor
      · rw [later.romBound, continues.romBound]
      · rw [later.tracedChunks, continues.tracedChunks]
      · rw [later.chunkSize, continues.chunkSize]
      · rw [later.capacity, continues.capacity]
      · rw [later.length, continues.length, Nat.add_assoc, ← countP_append]
        rfl

end GPUFriendlyTracer

section

variable {M S : Type} [MemorySource M] [NonDeterminismCSRSource M S]

/-- The first chunk begins with the tracer. -/
def startChunk (cyclesPerChunk chunkIdx : ℕ) (tracer : GPUFriendlyTracer) :
    Option GPUFriendlyTracer :=
  if chunkIdx ≠ 0 then tracer.prepareForNextChunk (chunkTimestamp cyclesPerChunk chunkIdx)
  else some tracer

/-- The loop over the chunks; it has no result when the end is not reached. -/
def runChunks (config : MachineConfig) (cyclesPerChunk : ℕ) : (remaining chunkIdx : ℕ) →
    Machine M S → GPUFriendlyTracer → Option (Machine M S × GPUFriendlyTracer × ℕ)
  | 0, _, _, _ => none
  | remaining + 1, chunkIdx, machine, tracer => do
      let tracer ← startChunk cyclesPerChunk chunkIdx tracer
      let (progress, finished) ← runCycles config cyclesPerChunk machine
      let tracer ← tracer.traceAll progress.events
      if finished then some (progress.machine, tracer, chunkIdx + 1)
      else runChunks config cyclesPerChunk remaining (chunkIdx + 1) progress.machine tracer

end

def ramByteSize : ℕ := 2 ^ 30

/-- The words that were accessed, in the order of their addresses: the address, the timestamp of
the last access and the final value. The source collects them in one piece for every thread. -/
def touchedWords (data : RamTracingData) (finalState : ℕ → Word) : List (Word × ℕ × Word) :=
  ((List.range (ramByteSize / 4)).filter data.accessBitmask).map fun wordIdx =>
    (BitVec.ofNat 32 (wordIdx <<< 2), data.ramWordsLastLiveTimestamps wordIdx, finalState wordIdx)

structure SequentialRun where
  finalPc : Word
  tracedChunks : List CycleData
  allPerTypeLogs : BitVec 16 → List DelegationWitness
  registersFinalStates : List Prover.FinalRegisterValue
  touchedWords : List (Word × ℕ × Word)

/-- Logs that are neither full nor empty are added at the end. -/
def flushLogs (delegations : DelegationTracingData) (delegationType : BitVec 16) :
    List DelegationWitness :=
  match delegations.currentPerTypeLogs delegationType with
  | none => delegations.allPerTypeLogs delegationType
  | some current =>
    if current.calls.isEmpty then delegations.allPerTypeLogs delegationType
    else delegations.allPerTypeLogs delegationType ++ [current]

def finalRegisters {M S : Type} (machine : Machine M S) (timestamps : BitVec 5 → ℕ) :
    List Prover.FinalRegisterValue :=
  (List.range 32).map fun index =>
    ⟨machine.registers (BitVec.ofNat 5 index),
      BitVec.ofNat 64 (timestamps (BitVec.ofNat 5 index))⟩

section

variable {S : Type} [NonDeterminismCSRSource VectorMemoryImplWithRom S]

/-- `run_till_end_for_gpu_for_machine_config`. A chunk of no cycles has no multiple to round up
to. -/
def runTillEndForGpuForMachineConfig (config : MachineConfig)
    (romAddressSpaceSecondWordBits numCyclesUpperBound traceSize : ℕ) (binary : List Word)
    (nonDeterminism : S) (delegationFactories : BitVec 16 → Option DelegationWitness) :
    Option SequentialRun := do
  guard (traceSize ≠ 0 ∧ 2 ^ traceSize.log2 = traceSize)
  let romAddressSpaceBound := 1 <<< (16 + romAddressSpaceSecondWordBits)
  let memory ← VectorMemoryImplWithRom.newForByteSize ramByteSize romAddressSpaceBound
  let memory ← populateBinary VectorMemoryImplWithRom.populate memory binary
  let cyclesPerChunk := traceSize - 1
  guard (cyclesPerChunk ≠ 0)
  let numCyclesUpperBound :=
    (numCyclesUpperBound + cyclesPerChunk - 1) / cyclesPerChunk * cyclesPerChunk
  let numCircuitsUpperBound := numCyclesUpperBound / cyclesPerChunk
  let bookkeepingAuxData ←
    RamTracingData.newForRamSizeAndRomBound ramByteSize romAddressSpaceBound
  let tracer ← GPUFriendlyTracer.new (chunkTimestamp cyclesPerChunk 0) bookkeepingAuxData
    ⟨fun _ => none, fun _ => [], delegationFactories⟩ cyclesPerChunk
  let (machine, tracer, circuitsNeeded) ← runChunks config cyclesPerChunk numCircuitsUpperBound 0
    (Machine.initial entryPoint memory nonDeterminism) tracer
  let tracedChunks := tracer.tracedChunks ++ [tracer.traceChunk]
  guard (tracedChunks.length = circuitsNeeded)
  some {
    finalPc := machine.pc
    tracedChunks := tracedChunks
    allPerTypeLogs := flushLogs tracer.delegationTracer
    registersFinalStates :=
      finalRegisters machine tracer.bookkeepingAuxData.registerLastLiveTimestamps
    touchedWords := touchedWords tracer.bookkeepingAuxData machine.memory.getFinalRamState }

theorem exists_run {config : MachineConfig}
    {romAddressSpaceSecondWordBits numCyclesUpperBound cyclesPerChunk circuitsNeeded : ℕ}
    {binary : List Word} {nonDeterminism : S}
    {delegationFactories : BitVec 16 → Option DelegationWitness}
    {memory populated : VectorMemoryImplWithRom} {bookkeepingAuxData : RamTracingData}
    {started tracer : GPUFriendlyTracer} {machine : Machine VectorMemoryImplWithRom S}
    (power : 2 ^ (cyclesPerChunk + 1).log2 = cyclesPerChunk + 1) (nonempty : cyclesPerChunk ≠ 0)
    (created : VectorMemoryImplWithRom.newForByteSize ramByteSize
      (1 <<< (16 + romAddressSpaceSecondWordBits)) = some memory)
    (populates : populateBinary VectorMemoryImplWithRom.populate memory binary = some populated)
    (tables : RamTracingData.newForRamSizeAndRomBound ramByteSize
      (1 <<< (16 + romAddressSpaceSecondWordBits)) = some bookkeepingAuxData)
    (starts : GPUFriendlyTracer.new (chunkTimestamp cyclesPerChunk 0) bookkeepingAuxData
      ⟨fun _ => none, fun _ => [], delegationFactories⟩ cyclesPerChunk = some started)
    (loop : runChunks config cyclesPerChunk
      ((numCyclesUpperBound + cyclesPerChunk - 1) / cyclesPerChunk * cyclesPerChunk /
        cyclesPerChunk) 0 (Machine.initial entryPoint populated nonDeterminism) started =
        some (machine, tracer, circuitsNeeded))
    (counted : (tracer.tracedChunks ++ [tracer.traceChunk]).length = circuitsNeeded) :
    ∃ run, runTillEndForGpuForMachineConfig config romAddressSpaceSecondWordBits
        numCyclesUpperBound (cyclesPerChunk + 1) binary nonDeterminism delegationFactories =
          some run ∧
      run.tracedChunks = tracer.tracedChunks ++ [tracer.traceChunk] := by
  have size : cyclesPerChunk + 1 ≠ 0 ∧ 2 ^ (cyclesPerChunk + 1).log2 = cyclesPerChunk + 1 :=
    ⟨Nat.succ_ne_zero _, power⟩
  simp only [runTillEndForGpuForMachineConfig, Nat.add_sub_cancel, guard, if_pos size,
    if_pos nonempty, created, populates, tables, starts, loop, if_pos counted, Option.pure_def,
    bind_eq_bind, bind_some]
  exact ⟨_, rfl, rfl⟩

end

end Airbender.Tracing

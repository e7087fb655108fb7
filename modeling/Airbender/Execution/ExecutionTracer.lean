import Airbender.Execution.WorkerResult
import Airbender.Simulator.BoxedMemory
import Airbender.Tracing.CycleRecord

/-!
# The tracer of the execution

`ExecutionTracer` marks the last use of every register and word, counts the touched words of each
page, and hands the records of a delegation to witnesses that are swapped when they are full. Its
timestamps are those of the last-use table of `Lib.LastUse`.
-/

namespace Airbender.Execution

open Simulator Simulator.Unrolled LastUse Tracing

def pageWordsLogSize : ℕ := 10

structure RamTracingData where
  registerLastLiveTimestamps : BitVec 5 → ℕ
  ramWordsLastLiveTimestamps : ℕ → ℕ
  numTouchedRamCellsInPages : ℕ → ℕ

namespace RamTracingData

def new : RamTracingData := ⟨fun _ => 0, fun _ => 0, fun _ => 0⟩

def markRegisterUse (data : RamTracingData) (regIdx : BitVec 5) (writeTimestamp : ℕ) :
    ℕ × RamTracingData :=
  (data.registerLastLiveTimestamps regIdx,
    { data with
      registerLastLiveTimestamps :=
        Function.update data.registerLastLiveTimestamps regIdx writeTimestamp })

def countNewCell (data : RamTracingData) (physWordIdx : ℕ) : RamTracingData :=
  let pageIdx := physWordIdx >>> pageWordsLogSize
  { data with
    numTouchedRamCellsInPages :=
      Function.update data.numTouchedRamCellsInPages pageIdx
        (data.numTouchedRamCellsInPages pageIdx + 1) }

def markRamSlotUse (traceTouchedRam : Bool) (data : RamTracingData)
    (physWordIdx writeTimestamp : ℕ) : ℕ × RamTracingData :=
  let readTimestamp := data.ramWordsLastLiveTimestamps physWordIdx
  let data := { data with
    ramWordsLastLiveTimestamps :=
      Function.update data.ramWordsLastLiveTimestamps physWordIdx writeTimestamp }
  (readTimestamp,
    if traceTouchedRam = true ∧ readTimestamp = 0 then data.countNewCell physWordIdx else data)

def lastUse (data : RamTracingData) : Location → ℕ
  | .register index => data.registerLastLiveTimestamps index
  | .word index => data.ramWordsLastLiveTimestamps index

@[simp] theorem lastUse_new : new.lastUse = fun _ => 0 := by
  funext location
  cases location <;> rfl

variable (traceTouchedRam : Bool) (data : RamTracingData)

@[simp] theorem markRegisterUse_fst (regIdx : BitVec 5) (writeTimestamp : ℕ) :
    (data.markRegisterUse regIdx writeTimestamp).1 = data.lastUse (.register regIdx) := rfl

@[simp] theorem markRamSlotUse_fst (physWordIdx writeTimestamp : ℕ) :
    (data.markRamSlotUse traceTouchedRam physWordIdx writeTimestamp).1 =
      data.lastUse (.word physWordIdx) := rfl

@[simp] theorem lastUse_markRegisterUse (regIdx : BitVec 5) (writeTimestamp : ℕ) :
    (data.markRegisterUse regIdx writeTimestamp).2.lastUse =
      mark data.lastUse ⟨.register regIdx, writeTimestamp⟩ := by
  funext location
  cases location with
  | register index =>
    by_cases same : index = regIdx
    · simp [lastUse, markRegisterUse, mark, same]
    · simp [lastUse, markRegisterUse, mark, same]
  | word index => simp [lastUse, markRegisterUse, mark]

@[simp] theorem lastUse_markRamSlotUse (physWordIdx writeTimestamp : ℕ) :
    (data.markRamSlotUse traceTouchedRam physWordIdx writeTimestamp).2.lastUse =
      mark data.lastUse ⟨.word physWordIdx, writeTimestamp⟩ := by
  funext location
  simp only [markRamSlotUse]
  cases location with
  | register index => split_ifs <;> simp [lastUse, mark, countNewCell]
  | word index =>
    by_cases same : index = physWordIdx
    · split_ifs <;> simp [lastUse, mark, countNewCell, same]
    · split_ifs <;> simp [lastUse, mark, countNewCell, same]

def registerMark (writeTimestamp : ℕ) (data : RamTracingData) (register : BitVec 5) :
    ℕ × RamTracingData :=
  data.markRegisterUse register writeTimestamp

def wordMark (traceTouchedRam : Bool) (writeTimestamp : ℕ) (data : RamTracingData) (word : ℕ) :
    ℕ × RamTracingData :=
  data.markRamSlotUse traceTouchedRam word writeTimestamp

theorem marksAt (writeTimestamp : ℕ) :
    MarksAt lastUse writeTimestamp (registerMark writeTimestamp)
      (wordMark traceTouchedRam writeTimestamp) where
  register_fst data register := markRegisterUse_fst data register writeTimestamp
  register_snd data register := lastUse_markRegisterUse data register writeTimestamp
  word_fst data word := markRamSlotUse_fst traceTouchedRam data word writeTimestamp
  word_snd data word := lastUse_markRamSlotUse traceTouchedRam data word writeTimestamp

end RamTracingData

def DelegationCircuitType.numDelegationCycles : DelegationCircuitType → ℕ
  | bigIntWithControl => 2 ^ 21 - 1
  | blake2WithCompression => 2 ^ 20 - 1

/-- `From<u16>`; other numbers panic. -/
def DelegationCircuitType.ofId (delegationType : BitVec 16) : Option DelegationCircuitType :=
  if delegationType.toNat = bigIntWithControl.id then some bigIntWithControl
  else if delegationType.toNat = blake2WithCompression.id then some blake2WithCompression
  else none

/-- The number of requests of a witness is that of its type. -/
inductive DelegationTracingType where
  | counter (numRequests count : ℕ)
  | witness (witness : DelegationWitness DelegationCall)
deriving DecidableEq

def atCapacity (witness : DelegationWitness DelegationCall) : Option Bool := do
  guard (witness.calls.length ≤ witness.delegationType.numDelegationCycles)
  some (witness.delegationType.numDelegationCycles = witness.calls.length)

/-- What `swap_delegation_witness_fn` does to the variables it captures. -/
abbrev DelegationSwapFn (W : Type) :=
  DelegationCircuitType → Option DelegationTracingType → W → Option (DelegationTracingType × W)

structure TracerFlags where
  traceTouchedRam : Bool
  traceCycles : Bool
  traceDelegations : Bool
deriving DecidableEq

structure ExecutionTracer (W : Type) where
  ramTracingData : RamTracingData
  perCycleData : List SingleCycleTracingData
  tracingTypes : DelegationCircuitType → Option DelegationTracingType
  swapState : W
  currentTimestamp : ℕ

namespace ExecutionTracer

variable {W : Type} (flags : TracerFlags) (logRomBound : ℕ) (swap : DelegationSwapFn W)

def new (ramTracingData : RamTracingData) (swapState : W) (initialTimestamp : ℕ) :
    ExecutionTracer W where
  ramTracingData := ramTracingData
  perCycleData := []
  tracingTypes _ := none
  swapState := swapState
  currentTimestamp := initialTimestamp

variable (tracer : ExecutionTracer W)

def recordCycle
    (change : SingleCycleTracingData → SingleCycleTracingData) : ExecutionTracer W :=
  if flags.traceCycles then { tracer with perCycleData := modifyLast change tracer.perCycleData }
  else tracer

def markRegisterUse (regIdx : BitVec 5) (writeTimestamp : ℕ) :
    ℕ × ExecutionTracer W :=
  let (readTimestamp, ramTracingData) := tracer.ramTracingData.markRegisterUse regIdx writeTimestamp
  (readTimestamp, { tracer with ramTracingData })

def markRamSlotUse (physWordIdx writeTimestamp : ℕ) :
    ℕ × ExecutionTracer W :=
  let (readTimestamp, ramTracingData) :=
    tracer.ramTracingData.markRamSlotUse flags.traceTouchedRam physWordIdx writeTimestamp
  (readTimestamp, { tracer with ramTracingData })

def atCycleStartExt (pc : Word) : ExecutionTracer W :=
  if flags.traceCycles then
    { tracer with
      perCycleData := tracer.perCycleData ++ [{ SingleCycleTracingData.empty with pc }] }
  else tracer

def atCycleEndExt : ExecutionTracer W :=
  { tracer with currentTimestamp := tracer.currentTimestamp + timestampStep }

def traceRs1Read (regIdx : BitVec 5) (readValue : Word) :
    ExecutionTracer W :=
  let writeTimestamp := tracer.currentTimestamp + rs1AccessIdx
  let (readTimestamp, tracer) := tracer.markRegisterUse regIdx writeTimestamp
  tracer.recordCycle flags fun dst => { dst with
    rs1ReadValue := readValue
    rs1ReadTimestamp := .fromScalar readTimestamp
    rs1RegIdx := regIdx.setWidth 16 }

def traceRs2Read (regIdx : BitVec 5) (readValue : Word) :
    ExecutionTracer W :=
  let writeTimestamp := tracer.currentTimestamp + rs2AccessIdx
  let (readTimestamp, tracer) := tracer.markRegisterUse regIdx writeTimestamp
  tracer.recordCycle flags fun dst => { dst with
    rs2OrMemWordReadValue := readValue
    rs2OrMemWordAddress := .register regIdx
    rs2OrMemReadTimestamp := .fromScalar readTimestamp }

/-- The value of `x0` is looked at only when cycles are traced. -/
def traceRdWrite (regIdx : BitVec 5)
    (readValue writtenValue : Word) : Option (ExecutionTracer W) := do
  let writeTimestamp := tracer.currentTimestamp + rdAccessIdx
  let (readTimestamp, tracer) := tracer.markRegisterUse regIdx writeTimestamp
  guard (flags.traceCycles = true → regIdx = 0 → readValue = 0)
  some (tracer.recordCycle flags fun dst => { dst with
    rdOrMemWordReadValue := readValue
    rdOrMemWordWriteValue := if regIdx = 0 then 0 else writtenValue
    rdOrMemWordAddress := .register regIdx
    rdOrMemReadTimestamp := .fromScalar readTimestamp })

def traceNonDeterminismRead (readValue : Word) :
    ExecutionTracer W :=
  tracer.recordCycle flags fun dst => { dst with nonDeterminismRead := readValue }

def inRom (physAddress : Word) : Bool :=
  physAddress &&& ~~~BoxedMemoryImplWithRom.romBoundMask logRomBound = 0

def traceRamRead (physAddress readValue : Word) :
    ExecutionTracer W :=
  let (address, readValue) :=
    if inRom logRomBound physAddress then (0, 0) else (physAddress, readValue)
  let writeTimestamp := tracer.currentTimestamp + ramReadAccessIdx
  let (readTimestamp, tracer) := tracer.markRamSlotUse flags (address.toNat / 4) writeTimestamp
  tracer.recordCycle flags fun dst => { dst with
    rs2OrMemWordReadValue := readValue
    rs2OrMemWordAddress := .memory address
    rs2OrMemReadTimestamp := .fromScalar readTimestamp }

def traceRamReadWrite (physAddress readValue writtenValue : Word) :
    Option (ExecutionTracer W) := do
  guard (inRom logRomBound physAddress = false)
  let writeTimestamp := tracer.currentTimestamp + ramWriteAccessIdx
  let (readTimestamp, tracer) := tracer.markRamSlotUse flags (physAddress.toNat / 4) writeTimestamp
  some (tracer.recordCycle flags fun dst => { dst with
    rdOrMemWordReadValue := readValue
    rdOrMemWordWriteValue := writtenValue
    rdOrMemWordAddress := .memory physAddress
    rdOrMemReadTimestamp := .fromScalar readTimestamp })

/-- What the current tracer of the type makes of a call, and whether it is full. -/
def addCall (writeTimestamp : ℕ) (record : DelegationRecord) :
    DelegationTracingType → Option (DelegationTracingType × Bool × RamTracingData)
  | .counter numRequests count =>
    some (.counter numRequests (count + 1), decide (count + 1 = numRequests),
      tracer.ramTracingData)
  | .witness witness => do
      let (call, data) := traceCall (RamTracingData.registerMark writeTimestamp)
        (RamTracingData.wordMark flags.traceTouchedRam writeTimestamp) tracer.ramTracingData
        writeTimestamp record
      let witness := { witness with calls := witness.calls ++ [call] }
      let shouldReplace ← atCapacity witness
      some (.witness witness, shouldReplace, data)

def currentTracer (circuitType : DelegationCircuitType) :
    Option (DelegationTracingType × W) :=
  match tracer.tracingTypes circuitType with
  | some current => some (current, tracer.swapState)
  | none => swap circuitType none tracer.swapState

def replaceIfFull (circuitType : DelegationCircuitType) (current : DelegationTracingType)
    (shouldReplace : Bool) (swapState : W) : Option (DelegationTracingType × W) :=
  if shouldReplace then swap circuitType (some current) swapState else some (current, swapState)

/-- `record_delegation` with `TRACE_DELEGATIONS`. -/
def traceDelegation (record : DelegationRecord) :
    Option (ExecutionTracer W) := do
  let circuitType ← DelegationCircuitType.ofId (record.accessId.setWidth 16)
  let (current, swapState) ← tracer.currentTracer swap circuitType
  let (current, shouldReplace, ramTracingData) ←
    tracer.addCall flags (tracer.currentTimestamp + delegationAccessIdx) record current
  let (current, swapState) ← replaceIfFull swap circuitType current shouldReplace swapState
  some { tracer with
    ramTracingData
    swapState
    tracingTypes := Function.update tracer.tracingTypes circuitType (some current) }

/-- `record_delegation` without `TRACE_DELEGATIONS`. -/
def markDelegationOnly (record : DelegationRecord) :
    ExecutionTracer W :=
  let writeTimestamp := tracer.currentTimestamp + delegationAccessIdx
  let (_, ramTracingData) := markCall (RamTracingData.registerMark writeTimestamp)
    (RamTracingData.wordMark flags.traceTouchedRam writeTimestamp) tracer.ramTracingData
    (accessedRegisters record)
    (record.indirectReadAddresses.map fun address => address.toNat / 4)
    (record.indirectWriteAddresses.map fun address => address.toNat / 4)
  { tracer with ramTracingData }

def recordDelegation (record : DelegationRecord) :
    Option (ExecutionTracer W) :=
  let tracer := tracer.recordCycle flags fun dst => { dst with
    delegationRequest := record.accessId.setWidth 16 }
  if flags.traceDelegations then tracer.traceDelegation flags swap record
  else some (tracer.markDelegationOnly flags record)

def trace : TraceEvent → Option (ExecutionTracer W)
  | .atCycleStart pc => some (tracer.atCycleStartExt flags pc)
  | .traceRs1Read register readValue => some (tracer.traceRs1Read flags register readValue)
  | .traceRs2Read register readValue => some (tracer.traceRs2Read flags register readValue)
  | .traceRdWrite register readValue writtenValue =>
    tracer.traceRdWrite flags register readValue writtenValue
  | .traceNonDeterminismRead readValue => some (tracer.traceNonDeterminismRead flags readValue)
  | .traceNonDeterminismWrite _ => some tracer
  | .traceRamRead physAddress readValue =>
    some (tracer.traceRamRead flags logRomBound physAddress readValue)
  | .traceRamReadWrite physAddress readValue writtenValue =>
    tracer.traceRamReadWrite flags logRomBound physAddress readValue writtenValue
  | .recordDelegation record => tracer.recordDelegation flags swap record
  | .atCycleEnd => some tracer.atCycleEndExt

def traceAll (events : List TraceEvent) :
    Option (ExecutionTracer W) :=
  events.foldlM (fun tracer event => tracer.trace flags logRomBound swap event) tracer

variable (tracer : ExecutionTracer W) (change : SingleCycleTracingData → SingleCycleTracingData)

@[simp] theorem recordCycle_ramTracingData :
    (tracer.recordCycle flags change).ramTracingData = tracer.ramTracingData := by
  unfold recordCycle
  split_ifs <;> rfl

@[simp] theorem recordCycle_currentTimestamp :
    (tracer.recordCycle flags change).currentTimestamp = tracer.currentTimestamp := by
  unfold recordCycle
  split_ifs <;> rfl

@[simp] theorem recordCycle_tracingTypes :
    (tracer.recordCycle flags change).tracingTypes = tracer.tracingTypes := by
  unfold recordCycle
  split_ifs <;> rfl

@[simp] theorem recordCycle_swapState :
    (tracer.recordCycle flags change).swapState = tracer.swapState := by
  unfold recordCycle
  split_ifs <;> rfl

variable {flags} in
theorem recordCycle_perCycleData (traced : flags.traceCycles = true) (tracer : ExecutionTracer W)
    (change : SingleCycleTracingData → SingleCycleTracingData) :
    (tracer.recordCycle flags change).perCycleData = modifyLast change tracer.perCycleData := by
  simp only [recordCycle, traced, if_true]

def Accepts : TraceEvent → Prop
  | .traceRdWrite register readValue _ => flags.traceCycles = true → register = 0 → readValue = 0
  | .traceRamReadWrite physAddress _ _ => 2 ^ logRomBound ≤ physAddress.toNat
  | _ => True

theorem inRom_eq (small : logRomBound < 32) (physAddress : Word) :
    inRom logRomBound physAddress = decide (physAddress.toNat < 2 ^ logRomBound) := by
  simp only [inRom, and_not_romBoundMask_eq_zero_iff small]

structure Traces (tracer after : ExecutionTracer W) (event : TraceEvent) : Prop where
  lastUse : after.ramTracingData.lastUse = marked tracer.ramTracingData.lastUse
    (eventUses (2 ^ logRomBound) tracer.currentTimestamp event)
  currentTimestamp : after.currentTimestamp = nextTimestamp tracer.currentTimestamp event
  perCycleData : flags.traceCycles = true → after.perCycleData =
    recordEvent (2 ^ logRomBound) (replaced tracer.ramTracingData.lastUse
      (eventUses (2 ^ logRomBound) tracer.currentTimestamp event)) event tracer.perCycleData

theorem trace_of_accepts (noDelegations : flags.traceDelegations = false) (small : logRomBound < 32)
    (tracer : ExecutionTracer W) {event : TraceEvent} (accepts : Accepts flags logRomBound event) :
    ∃ after, tracer.trace flags logRomBound swap event = some after ∧
      Traces flags logRomBound tracer after event := by
  cases event with
  | atCycleStart pc =>
    refine ⟨_, rfl, ?_, ?_, ?_⟩
    · simp only [atCycleStartExt]
      split_ifs <;> rfl
    · simp only [atCycleStartExt]
      split_ifs <;> rfl
    · intro traced
      simp only [atCycleStartExt, traced, if_true]
      rfl
  | traceRs1Read register readValue =>
    refine ⟨_, rfl, ?_, ?_, ?_⟩
    · rw [traceRs1Read, recordCycle_ramTracingData]
      exact RamTracingData.lastUse_markRegisterUse _ register _
    · rw [traceRs1Read, recordCycle_currentTimestamp]
      rfl
    · intro traced
      rw [traceRs1Read, recordCycle_perCycleData traced]
      rfl
  | traceRs2Read register readValue =>
    refine ⟨_, rfl, ?_, ?_, ?_⟩
    · rw [traceRs2Read, recordCycle_ramTracingData]
      exact RamTracingData.lastUse_markRegisterUse _ register _
    · rw [traceRs2Read, recordCycle_currentTimestamp]
      rfl
    · intro traced
      rw [traceRs2Read, recordCycle_perCycleData traced]
      rfl
  | traceRdWrite register readValue writtenValue =>
    have holds : flags.traceCycles = true → register = 0 → readValue = 0 := accepts
    refine ⟨_, by rw [trace, traceRdWrite, guard, if_pos holds]; rfl, ?_, ?_, ?_⟩
    · rw [recordCycle_ramTracingData]
      exact RamTracingData.lastUse_markRegisterUse _ register _
    · rw [recordCycle_currentTimestamp]
      rfl
    · intro traced
      rw [recordCycle_perCycleData traced]
      rfl
  | traceNonDeterminismRead readValue =>
    refine ⟨_, rfl, ?_, ?_, ?_⟩
    · simp [traceNonDeterminismRead, eventUses]
    · simp [traceNonDeterminismRead, nextTimestamp]
    · intro traced
      rw [traceNonDeterminismRead, recordCycle_perCycleData traced]
      rfl
  | traceNonDeterminismWrite writtenValue => exact ⟨_, rfl, rfl, rfl, fun _ => rfl⟩
  | traceRamRead physAddress readValue =>
    have substituted : (if inRom logRomBound physAddress then (0, 0)
        else (physAddress, readValue)) =
        (readAddress (2 ^ logRomBound) physAddress,
          readValueOf (2 ^ logRomBound) physAddress readValue) := by
      simp only [inRom_eq logRomBound small, decide_eq_true_eq, readAddress, readValueOf]
      split_ifs <;> rfl
    refine ⟨_, rfl, ?_, ?_, ?_⟩
    · rw [traceRamRead, substituted, recordCycle_ramTracingData]
      exact RamTracingData.lastUse_markRamSlotUse flags.traceTouchedRam _ _ _
    · rw [traceRamRead, substituted, recordCycle_currentTimestamp]
      rfl
    · intro traced
      rw [traceRamRead, substituted, recordCycle_perCycleData traced]
      rfl
  | traceRamReadWrite physAddress readValue writtenValue =>
    have outside : inRom logRomBound physAddress = false := by
      rw [inRom_eq logRomBound small, decide_eq_false_iff_not]
      exact Nat.not_lt_of_ge accepts
    refine ⟨_, by rw [trace, traceRamReadWrite, guard, if_pos outside]; rfl, ?_, ?_, ?_⟩
    · rw [recordCycle_ramTracingData]
      exact RamTracingData.lastUse_markRamSlotUse flags.traceTouchedRam _ _ _
    · rw [recordCycle_currentTimestamp]
      rfl
    · intro traced
      rw [recordCycle_perCycleData traced]
      rfl
  | recordDelegation record =>
    refine ⟨_, by rw [trace, recordDelegation, noDelegations]; rfl, ?_, ?_, ?_⟩
    · rcases markCall_spec (RamTracingData.marksAt flags.traceTouchedRam
        (tracer.currentTimestamp + delegationAccessIdx)) tracer.ramTracingData
        (accessedRegisters record) (record.indirectReadAddresses.map wordIndex)
        (record.indirectWriteAddresses.map wordIndex) with ⟨_, _, _, _, _, _, _, table⟩
      simp only [markDelegationOnly, recordCycle_ramTracingData, recordCycle_currentTimestamp]
      exact table
    · simp [markDelegationOnly, nextTimestamp]
    · intro traced
      simp only [markDelegationOnly]
      rw [recordCycle_perCycleData traced]
      rfl
  | atCycleEnd => exact ⟨_, rfl, rfl, rfl, fun _ => rfl⟩

end ExecutionTracer

end Airbender.Execution

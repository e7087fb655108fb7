import Airbender.Lib.LastUse
import Airbender.Memory.Timestamps
import Airbender.Simulator.RunCycles

/-!
# What tracers record

The record of a cycle and of a delegation call, and the accesses that an event stands for. An access
leaves its timestamp at its location and is recorded with the one that it found there.
-/

/-- Every indirect access comes with its address. -/
structure Airbender.Simulator.DelegationRecord.WellFormed
    (record : Airbender.Simulator.DelegationRecord) : Prop where
  reads : record.indirectReadAddresses.length = record.indirectReads.length
  writes : record.indirectWriteAddresses.length = record.indirectWrites.length

namespace Airbender.Tracing

open Simulator Simulator.Unrolled LastUse List

/-- `TimestampData`, three limbs of 16 bits. -/
abbrev TimestampData := BitVec 48

/-- `from_scalar`: the bits of higher limbs are lost. -/
def TimestampData.fromScalar (timestamp : ℕ) : TimestampData := BitVec.ofNat 48 timestamp

def timestampStep : ℕ := 4
def rs1AccessIdx : ℕ := 0
def rs2AccessIdx : ℕ := 1
def rdAccessIdx : ℕ := 2
def delegationAccessIdx : ℕ := 3
def ramReadAccessIdx : ℕ := rs2AccessIdx
def ramWriteAccessIdx : ℕ := rdAccessIdx

/-- The first timestamp of a chunk; the length of the trace is a power of two. -/
def chunkTimestamp (cyclesPerChunk circuitSequence : ℕ) : ℕ :=
  Memory.timestampFromChunkCycleAndSequence 0 (cyclesPerChunk + 1).log2 circuitSequence

structure RegIndexOrMemWordIndex where
  raw : Word
deriving DecidableEq

namespace RegIndexOrMemWordIndex

def empty : RegIndexOrMemWordIndex := ⟨0⟩

def register (index : BitVec 5) : RegIndexOrMemWordIndex := ⟨index.setWidth 32⟩

def memory (absoluteAddress : Word) : RegIndexOrMemWordIndex :=
  ⟨(absoluteAddress >>> 2) ||| 0x80000000⟩

end RegIndexOrMemWordIndex

structure SingleCycleTracingData where
  pc : Word
  rs1ReadValue : Word
  rs1ReadTimestamp : TimestampData
  rs1RegIdx : BitVec 16
  rs2OrMemWordReadValue : Word
  rs2OrMemWordAddress : RegIndexOrMemWordIndex
  rs2OrMemReadTimestamp : TimestampData
  delegationRequest : BitVec 16
  rdOrMemWordReadValue : Word
  rdOrMemWordWriteValue : Word
  rdOrMemWordAddress : RegIndexOrMemWordIndex
  rdOrMemReadTimestamp : TimestampData
  nonDeterminismRead : Word
deriving DecidableEq

def SingleCycleTracingData.empty : SingleCycleTracingData where
  pc := 0
  rs1ReadValue := 0
  rs1ReadTimestamp := 0
  rs1RegIdx := 0
  rs2OrMemWordReadValue := 0
  rs2OrMemWordAddress := .empty
  rs2OrMemReadTimestamp := 0
  delegationRequest := 0
  rdOrMemWordReadValue := 0
  rdOrMemWordWriteValue := 0
  rdOrMemWordAddress := .empty
  rdOrMemReadTimestamp := 0
  nonDeterminismRead := 0

structure RegisterOrIndirectReadData where
  readValue : Word
  timestamp : TimestampData
deriving DecidableEq

structure RegisterOrIndirectReadWriteData where
  readValue : Word
  writeValue : Word
  timestamp : TimestampData
deriving DecidableEq

/-- The items that a delegation call appends to the vectors of a witness. -/
structure DelegationCall where
  writeTimestamp : TimestampData
  registerAccesses : List RegisterOrIndirectReadWriteData
  indirectReads : List RegisterOrIndirectReadData
  indirectWrites : List RegisterOrIndirectReadWriteData
deriving DecidableEq

def modifyLast {α : Type} (change : α → α) : List α → List α
  | [] => []
  | [last] => [change last]
  | first :: second :: rest => first :: modifyLast change (second :: rest)

@[simp] theorem length_modifyLast {α : Type} (change : α → α) (list : List α) :
    (modifyLast change list).length = list.length := by
  fun_induction modifyLast change list with
  | case1 => rfl
  | case2 => rfl
  | case3 first second rest ih =>
    rw [length_cons, ih]
    rfl

theorem zipWith_append_right {α β γ : Type} (f : α → β → γ) {first : List α} {second : List β}
    (same : first.length = second.length) (rest : List β) :
    List.zipWith f first (second ++ rest) = List.zipWith f first second := by
  have split : List.zipWith f (first ++ []) (second ++ rest) = _ := zipWith_append same
  simpa using split

theorem map_zip_fst {α β γ : Type} (f : α → γ) {first : List α} {second : List β}
    (same : first.length = second.length) :
    ((first.zip second).map fun pair => f pair.1) = first.map f := by
  have firsts := map_fst_zip (Nat.le_of_eq same)
  calc ((first.zip second).map fun pair => f pair.1)
      = ((first.zip second).map Prod.fst).map f := by rw [map_map]; rfl
    _ = first.map f := by rw [firsts]

/-- The loops of `record_delegation`: every location is marked, and what it held is kept. -/
def markAll {D κ : Type} (markUse : D → κ → ℕ × D) : D → List κ → List ℕ × D
  | data, [] => ([], data)
  | data, location :: rest =>
    let (readTimestamp, data) := markUse data location
    let (readTimestamps, data) := markAll markUse data rest
    (readTimestamp :: readTimestamps, data)

def accessedRegisters (record : DelegationRecord) : List (BitVec 5) :=
  (List.range record.registerAccesses.length).map fun index =>
    record.baseRegister + BitVec.ofNat 5 index

def stampReadWrite (access : ReadWrite) (readTimestamp : ℕ) : RegisterOrIndirectReadWriteData :=
  ⟨access.readValue, access.writeValue, .fromScalar readTimestamp⟩

def stampRead (readValue : Word) (readTimestamp : ℕ) : RegisterOrIndirectReadData :=
  ⟨readValue, .fromScalar readTimestamp⟩

section

variable {D : Type} (markRegister : D → BitVec 5 → ℕ × D) (markWord : D → ℕ → ℕ × D)

/-- The marks of a delegation call: its registers, then the words it reads, then those it
writes. -/
def markCall (data : D) (registers : List (BitVec 5)) (readWords writtenWords : List ℕ) :
    (List ℕ × List ℕ × List ℕ) × D :=
  let (registerTimestamps, data) := markAll markRegister data registers
  let (readTimestamps, data) := markAll markWord data readWords
  let (writtenTimestamps, data) := markAll markWord data writtenWords
  ((registerTimestamps, readTimestamps, writtenTimestamps), data)

/-- The marks of a call that is recorded, and the items they make. -/
def traceCall (data : D) (writeTimestamp : ℕ) (record : DelegationRecord) : DelegationCall × D :=
  let readWords := (record.indirectReadAddresses.zip record.indirectReads).map fun (address, _) =>
    address.toNat / 4
  let writtenWords :=
    (record.indirectWriteAddresses.zip record.indirectWrites).map fun (address, _) =>
      address.toNat / 4
  let ((registerTimestamps, readTimestamps, writtenTimestamps), data) :=
    markCall markRegister markWord data (accessedRegisters record) readWords writtenWords
  ({ writeTimestamp := .fromScalar writeTimestamp
     registerAccesses := List.zipWith stampReadWrite record.registerAccesses registerTimestamps
     indirectReads := List.zipWith stampRead record.indirectReads readTimestamps
     indirectWrites := List.zipWith stampReadWrite record.indirectWrites writtenTimestamps },
    data)

end

inductive Location where
  | register (index : BitVec 5)
  | word (index : ℕ)
deriving DecidableEq

/-- Reads of the ROM are replaced by reads of the first word. -/
def readAddress (romBound : ℕ) (physAddress : Word) : Word :=
  if physAddress.toNat < romBound then 0 else physAddress

def readValueOf (romBound : ℕ) (physAddress readValue : Word) : Word :=
  if physAddress.toNat < romBound then 0 else readValue

def wordIndex (physAddress : Word) : ℕ := physAddress.toNat / 4

/-- The accesses of a delegation call in the order in which it marks them. -/
def callUses (writeTimestamp : ℕ) (registers : List (BitVec 5)) (readWords writtenWords : List ℕ) :
    List (Use Location) :=
  (registers.map fun register => ⟨.register register, writeTimestamp⟩) ++
    (readWords.map fun word => ⟨.word word, writeTimestamp⟩) ++
    (writtenWords.map fun word => ⟨.word word, writeTimestamp⟩)

def delegationUses (writeTimestamp : ℕ) (record : DelegationRecord) : List (Use Location) :=
  callUses writeTimestamp (accessedRegisters record) (record.indirectReadAddresses.map wordIndex)
    (record.indirectWriteAddresses.map wordIndex)

def eventUses (romBound timestamp : ℕ) : TraceEvent → List (Use Location)
  | .traceRs1Read register _ => [⟨.register register, timestamp + rs1AccessIdx⟩]
  | .traceRs2Read register _ => [⟨.register register, timestamp + rs2AccessIdx⟩]
  | .traceRdWrite register _ _ => [⟨.register register, timestamp + rdAccessIdx⟩]
  | .traceRamRead physAddress _ =>
    [⟨.word (wordIndex (readAddress romBound physAddress)), timestamp + ramReadAccessIdx⟩]
  | .traceRamReadWrite physAddress _ _ =>
    [⟨.word (wordIndex physAddress), timestamp + ramWriteAccessIdx⟩]
  | .recordDelegation record => delegationUses (timestamp + delegationAccessIdx) record
  | _ => []

/-- The record of a cycle after an event whose accesses found the given timestamps. -/
def recordEvent (romBound : ℕ) (readTimestamps : List ℕ) :
    TraceEvent → List SingleCycleTracingData → List SingleCycleTracingData
  | .atCycleStart pc, cycles => cycles ++ [{ SingleCycleTracingData.empty with pc }]
  | .traceRs1Read register readValue, cycles =>
    modifyLast (fun cycle => { cycle with
      rs1ReadValue := readValue
      rs1ReadTimestamp := .fromScalar (readTimestamps.headD 0)
      rs1RegIdx := register.setWidth 16 }) cycles
  | .traceRs2Read register readValue, cycles =>
    modifyLast (fun cycle => { cycle with
      rs2OrMemWordReadValue := readValue
      rs2OrMemWordAddress := .register register
      rs2OrMemReadTimestamp := .fromScalar (readTimestamps.headD 0) }) cycles
  | .traceRdWrite register readValue writtenValue, cycles =>
    modifyLast (fun cycle => { cycle with
      rdOrMemWordReadValue := readValue
      rdOrMemWordWriteValue := if register = 0 then 0 else writtenValue
      rdOrMemWordAddress := .register register
      rdOrMemReadTimestamp := .fromScalar (readTimestamps.headD 0) }) cycles
  | .traceNonDeterminismRead readValue, cycles =>
    modifyLast (fun cycle => { cycle with nonDeterminismRead := readValue }) cycles
  | .traceNonDeterminismWrite _, cycles => cycles
  | .traceRamRead physAddress readValue, cycles =>
    modifyLast (fun cycle => { cycle with
      rs2OrMemWordReadValue := readValueOf romBound physAddress readValue
      rs2OrMemWordAddress := .memory (readAddress romBound physAddress)
      rs2OrMemReadTimestamp := .fromScalar (readTimestamps.headD 0) }) cycles
  | .traceRamReadWrite physAddress readValue writtenValue, cycles =>
    modifyLast (fun cycle => { cycle with
      rdOrMemWordReadValue := readValue
      rdOrMemWordWriteValue := writtenValue
      rdOrMemWordAddress := .memory physAddress
      rdOrMemReadTimestamp := .fromScalar (readTimestamps.headD 0) }) cycles
  | .recordDelegation record, cycles =>
    modifyLast (fun cycle => { cycle with
      delegationRequest := record.accessId.setWidth 16 }) cycles
  | .atCycleEnd, cycles => cycles

def startsCycle : TraceEvent → Bool
  | .atCycleStart _ => true
  | _ => false

theorem length_recordEvent (romBound : ℕ) (readTimestamps : List ℕ) (event : TraceEvent)
    (cycles : List SingleCycleTracingData) :
    (recordEvent romBound readTimestamps event cycles).length =
      cycles.length + [event].countP startsCycle := by
  cases event <;> simp [recordEvent, startsCycle]

/-- The items of a call whose accesses found the given timestamps. -/
def recordedCall (writeTimestamp : ℕ) (record : DelegationRecord) (readTimestamps : List ℕ) :
    DelegationCall where
  writeTimestamp := .fromScalar writeTimestamp
  registerAccesses := List.zipWith stampReadWrite record.registerAccesses readTimestamps
  indirectReads := List.zipWith stampRead record.indirectReads
    (readTimestamps.drop record.registerAccesses.length)
  indirectWrites := List.zipWith stampReadWrite record.indirectWrites
    (readTimestamps.drop (record.registerAccesses.length + record.indirectReads.length))

section

variable {D : Type} {lastUse : D → Location → ℕ}

theorem markAll_spec {κ : Type} {markUse : D → κ → ℕ × D} {use : κ → Use Location}
    (reads : ∀ data key, (markUse data key).1 = lastUse data (use key).location)
    (marks : ∀ data key, lastUse (markUse data key).2 = mark (lastUse data) (use key))
    (data : D) (keys : List κ) :
    (markAll markUse data keys).1 = replaced (lastUse data) (keys.map use) ∧
      lastUse (markAll markUse data keys).2 = marked (lastUse data) (keys.map use) := by
  induction keys generalizing data with
  | nil => exact ⟨rfl, rfl⟩
  | cons key rest ih =>
    have tail := ih (markUse data key).2
    rw [marks] at tail
    constructor
    · simp only [markAll, map_cons, replaced, reads, tail.1]
    · simp only [markAll, map_cons, marked_cons, tail.2]

/-- What marks at a time do to the tables. -/
structure MarksAt (lastUse : D → Location → ℕ) (writeTimestamp : ℕ)
    (markRegister : D → BitVec 5 → ℕ × D) (markWord : D → ℕ → ℕ × D) : Prop where
  register_fst : ∀ data register,
    (markRegister data register).1 = lastUse data (.register register)
  register_snd : ∀ data register, lastUse (markRegister data register).2 =
    mark (lastUse data) ⟨.register register, writeTimestamp⟩
  word_fst : ∀ data word, (markWord data word).1 = lastUse data (.word word)
  word_snd : ∀ data word, lastUse (markWord data word).2 =
    mark (lastUse data) ⟨.word word, writeTimestamp⟩

variable {writeTimestamp : ℕ} {markRegister : D → BitVec 5 → ℕ × D} {markWord : D → ℕ → ℕ × D}

theorem markCall_spec (marksAt : MarksAt lastUse writeTimestamp markRegister markWord) (data : D)
    (registers : List (BitVec 5)) (readWords writtenWords : List ℕ) :
    ∃ registerTimestamps readTimestamps writtenTimestamps,
      (markCall markRegister markWord data registers readWords writtenWords).1 =
        (registerTimestamps, readTimestamps, writtenTimestamps) ∧
      registerTimestamps.length = registers.length ∧ readTimestamps.length = readWords.length ∧
      registerTimestamps ++ readTimestamps ++ writtenTimestamps =
        replaced (lastUse data) (callUses writeTimestamp registers readWords writtenWords) ∧
      lastUse (markCall markRegister markWord data registers readWords writtenWords).2 =
        marked (lastUse data) (callUses writeTimestamp registers readWords writtenWords) := by
  let registerUse (register : BitVec 5) : Use Location := ⟨.register register, writeTimestamp⟩
  let wordUse (word : ℕ) : Use Location := ⟨.word word, writeTimestamp⟩
  have registersMarked := @markAll_spec _ _ _ _ registerUse marksAt.register_fst
    marksAt.register_snd data registers
  have wordsMarked := @markAll_spec _ _ _ _ wordUse marksAt.word_fst marksAt.word_snd
  refine ⟨_, _, _, rfl, ?_, ?_, ?_, ?_⟩
  · rw [registersMarked.1, length_replaced, length_map]
  · rw [(wordsMarked _ _).1, length_replaced, length_map]
  · rw [registersMarked.1, (wordsMarked _ _).1, (wordsMarked _ _).1, (wordsMarked _ _).2,
      registersMarked.2, callUses, replaced_append, replaced_append, marked_append]
  · simp only [markCall]
    rw [(wordsMarked _ _).2, (wordsMarked _ _).2, registersMarked.2, callUses, marked_append,
      marked_append]

theorem traceCall_spec (marksAt : MarksAt lastUse writeTimestamp markRegister markWord) (data : D)
    {record : DelegationRecord} (wellFormed : record.WellFormed) :
    (traceCall markRegister markWord data writeTimestamp record).1 =
        recordedCall writeTimestamp record
          (replaced (lastUse data) (delegationUses writeTimestamp record)) ∧
      lastUse (traceCall markRegister markWord data writeTimestamp record).2 =
        marked (lastUse data) (delegationUses writeTimestamp record) := by
  have reads : ((record.indirectReadAddresses.zip record.indirectReads).map fun (address, _) =>
      address.toNat / 4) = record.indirectReadAddresses.map wordIndex :=
    map_zip_fst wordIndex wellFormed.reads
  have writes : ((record.indirectWriteAddresses.zip record.indirectWrites).map fun (address, _) =>
      address.toNat / 4) = record.indirectWriteAddresses.map wordIndex :=
    map_zip_fst wordIndex wellFormed.writes
  rcases markCall_spec marksAt data (accessedRegisters record)
    (record.indirectReadAddresses.map wordIndex) (record.indirectWriteAddresses.map wordIndex) with
    ⟨registerTimestamps, readTimestamps, writtenTimestamps, timestamps, registersLength,
      readsLength, all, table⟩
  have registersSame : record.registerAccesses.length = registerTimestamps.length := by
    rw [registersLength, accessedRegisters, length_map, length_range]
  have readsSame : record.indirectReads.length = readTimestamps.length := by
    rw [readsLength, length_map, wellFormed.reads]
  simp only [traceCall, reads, writes, timestamps]
  constructor
  · rw [delegationUses, ← all, recordedCall, append_assoc, zipWith_append_right _ registersSame,
      registersSame, drop_left, zipWith_append_right _ readsSame, readsSame, ← append_assoc,
      ← length_append, drop_left]
  · exact table

end

def nextTimestamp (timestamp : ℕ) : TraceEvent → ℕ
  | .atCycleEnd => timestamp + timestampStep
  | _ => timestamp

end Airbender.Tracing

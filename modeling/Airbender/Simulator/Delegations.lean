import Airbender.Simulator.Environment
import Airbender.Blake2s.State

/-!
# Delegated computations

What a simulator computes when a program writes to a delegation CSR. Both simulators have their
own copy of each function; the copies differ only in how they access memory, which is a parameter
here.
-/

namespace Airbender.Simulator

open Blake2s
open Option hiding guard

def overflowingAdd (a b : BitVec 256) : BitVec 256 × Bool :=
  (a + b, decide (2 ^ 256 ≤ a.toNat + b.toNat))

def overflowingSub (a b : BitVec 256) : BitVec 256 × Bool := (a - b, decide (a.toNat < b.toNat))

/-- Two operations in a row, the second with the carry or borrow. -/
def withCarry (operation : BitVec 256 → BitVec 256 → BitVec 256 × Bool)
    (a b carryOrBorrow : BitVec 256) : BitVec 256 × Bool :=
  let (t, of0) := operation a b
  let (t, of1) := operation t carryOrBorrow
  (t, of0 || of1)

def countOnes (mask : Word) : ℕ := (List.range 32).countP fun index => mask.getLsbD index

/-- The result and the flag of one operation, chosen by the control mask. -/
def u256Operation (controlMask : Word) (a b : BitVec 256) : Option (BitVec 256 × Bool) := do
  guard (controlMask < 1 <<< 8)
  guard (countOnes (controlMask &&& ~~~((1 : Word) <<< 6)) = 1)
  let carryBit := controlMask.getLsbD 6
  let carryOrBorrow := BitVec.ofNat 256 carryBit.toNat
  if controlMask.getLsbD 0 then some (withCarry overflowingAdd a b carryOrBorrow)
  else if controlMask.getLsbD 1 then some (withCarry overflowingSub a b carryOrBorrow)
  else if controlMask.getLsbD 2 then some (withCarry overflowingSub b a carryOrBorrow)
  else if controlMask.getLsbD 3 then
    let t := a.toNat * b.toNat
    some (BitVec.ofNat 256 t, decide (t / 2 ^ 256 ≠ 0))
  else if controlMask.getLsbD 4 then
    some (BitVec.ofNat 256 (a.toNat * b.toNat / 2 ^ 256), false)
  else if controlMask.getLsbD 5 then some (a, decide (a = b))
  else if controlMask.getLsbD 7 then
    if carryBit then some (overflowingAdd b carryOrBorrow) else some (b, false)
  else none

def u256FromWords (words : List Word) : BitVec 256 :=
  BitVec.ofNat 256 (Nat.ofDigits (2 ^ 32) (words.map BitVec.toNat))

def u256ToWords (value : BitVec 256) : List Word :=
  (List.range 8).map fun index => (value >>> (32 * index)).setWidth 32

def permutationIndex (permutationBitmask : Word) : Option ℕ :=
  (List.range 32).find? fun index => permutationBitmask = 1 <<< index

def compressionModeExtendedState : Vector Word 16 :=
  let extended := configuredIv ++ iv
  (extended.set 12 (extended[12] ^^^ 64)).set 14 (extended[14] ^^^ 0xffffffff)

/-- The extended state at the first round of a block; two words are the caller's. -/
def normalModeExtendedState (state : Vector Word 8) (extended : Vector Word 16) :
    Vector Word 16 :=
  ((state ++ iv).set 12 extended[12]).set 14 extended[14]

/-- The words of both nodes in order. -/
def compressionModeBuffer (nodeIsRight : Bool) (state : Vector Word 8) (input : Vector Word 16) :
    Vector Word 16 :=
  let other : Vector Word 8 := input.take 8
  if nodeIsRight then other ++ state else state ++ other

def blake2Round (permutationBitmask controlRegister : Word) (state : Vector Word 8)
    (extended input : Vector Word 16) : Option (Vector Word 8 × Vector Word 16) := do
  let modeCompression := controlRegister.getLsbD 2
  let lastRound := controlRegister.getLsbD 0
  let compressionModeNodeIsRight := controlRegister.getLsbD 1
  let index ← permutationIndex permutationBitmask
  let sigma ← sigmas.toList[index]?
  let extended :=
    if index = 0 then
      if modeCompression then compressionModeExtendedState
      else normalModeExtendedState state extended
    else extended
  let message :=
    if modeCompression then compressionModeBuffer compressionModeNodeIsRight state input
    else input
  let extended := mixingFunction extended message sigma
  let chaining := if modeCompression then configuredIv else state
  some (if lastRound then Blake2sState.fold chaining extended else state, extended)

section

variable {M S : Type} (readWord : M → ℕ → Option Word) (writeWord : M → ℕ → Word → Option M)

def readContinuousWords (memory : M) : (address count : ℕ) → Option (List Word)
  | _, 0 => some []
  | address, count + 1 => do
      let word ← readWord memory address
      let words ← readContinuousWords memory (address + 4) count
      some (word :: words)

def writeContinuousWords : M → (address : ℕ) → List Word → Option M
  | memory, _, [] => some memory
  | memory, address, word :: words => do
      let memory ← writeWord memory address word
      writeContinuousWords memory (address + 4) words

def indirectAddresses (register : Word) (count : ℕ) : List Word :=
  (List.range count).map fun index => register + BitVec.ofNat 32 (4 * index)

structure ReadWrite where
  readValue : Word
  writeValue : Word
deriving DecidableEq

structure DelegationRecord where
  accessId : Word
  baseRegister : BitVec 5
  registerAccesses : List ReadWrite
  indirectReadAddresses : List Word
  indirectReads : List Word
  indirectWriteAddresses : List Word
  indirectWrites : List ReadWrite
deriving DecidableEq

/-- Memory starts above the largest ROM. -/
def delegationPointerBound : Word := 1 <<< 21

def u256OpsWithControl (machine : Machine M S) : Option (Machine M S × DelegationRecord) := do
  let x10 := machine.registers 10
  let x11 := machine.registers 11
  let x12 := machine.registers 12
  guard (x10.toNat % 32 = 0)
  guard (x11.toNat % 32 = 0)
  guard (delegationPointerBound ≤ x10)
  guard (delegationPointerBound ≤ x11)
  guard (x10 ≠ x11)
  let aWords ← readContinuousWords readWord machine.memory x10.toNat 8
  let bWords ← readContinuousWords readWord machine.memory x11.toNat 8
  let (result, flag) ← u256Operation x12 (u256FromWords aWords) (u256FromWords bWords)
  let memory ← writeContinuousWords writeWord machine.memory x10.toNat (u256ToWords result)
  let flagWord := BitVec.ofNat 32 flag.toNat
  some ({ machine with memory, registers := Function.update machine.registers 12 flagWord },
    { accessId := u256OpsWithControlAccessId
      baseRegister := 10
      registerAccesses := [⟨x10, x10⟩, ⟨x11, x11⟩, ⟨x12, flagWord⟩]
      indirectReadAddresses := indirectAddresses x11 8
      indirectReads := bWords
      indirectWriteAddresses := indirectAddresses x10 8
      indirectWrites := List.zipWith ReadWrite.mk aWords (u256ToWords result) })

def blake2RoundFunctionWithExtendedControl (machine : Machine M S) :
    Option (Machine M S × DelegationRecord) := do
  let x10 := machine.registers 10
  let x11 := machine.registers 11
  let x12 := machine.registers 12
  let x13 := machine.registers 13
  guard (x10.toNat % 128 = 0)
  guard (x11.toNat % 4 = 0)
  guard (delegationPointerBound ≤ x10)
  guard (delegationPointerBound ≤ x11)
  guard (x10 ≠ x11)
  let stateWords ← readContinuousWords readWord machine.memory x10.toNat 24
  let inputWords ← readContinuousWords readWord machine.memory x11.toNat 16
  let state : Vector Word 8 := Vector.ofFn fun index => stateWords.getD index 0
  let extended : Vector Word 16 := Vector.ofFn fun index => stateWords.getD (8 + index) 0
  let input : Vector Word 16 := Vector.ofFn fun index => inputWords.getD index 0
  let (state, extended) ← blake2Round x12 x13 state extended input
  let written := state.toList ++ extended.toList
  let memory ← writeContinuousWords writeWord machine.memory x10.toNat written
  some ({ machine with memory },
    { accessId := blake2RoundFunctionWithExtendedControlAccessId
      baseRegister := 10
      registerAccesses := [⟨x10, x10⟩, ⟨x11, x11⟩, ⟨x12, x12⟩, ⟨x13, x13⟩]
      indirectReadAddresses := indirectAddresses x11 16
      indirectReads := inputWords
      indirectWriteAddresses := indirectAddresses x10 24
      indirectWrites := List.zipWith ReadWrite.mk stateWords written })

/-- The delegation behind a CSR; there is none behind other CSRs. -/
def processWrite (csr : Word) (machine : Machine M S) :
    Option (Machine M S × DelegationRecord) :=
  if csr = blake2RoundFunctionWithExtendedControlAccessId then
    blake2RoundFunctionWithExtendedControl readWord writeWord machine
  else if csr = u256OpsWithControlAccessId then u256OpsWithControl readWord writeWord machine
  else none

/-- How much a delegation accesses: registers from `x10` on, words behind `x11` that it only
reads, and words behind `x10` that it also writes. -/
structure DelegationShape where
  registers : ℕ
  reads : ℕ
  writes : ℕ
deriving DecidableEq

def delegationShape (csr : Word) : DelegationShape :=
  if csr = blake2RoundFunctionWithExtendedControlAccessId then ⟨4, 16, 24⟩ else ⟨3, 8, 8⟩

def delegationRegister (index : ℕ) : BitVec 5 := 10 + BitVec.ofNat 5 index

/-- The effect of a completed delegation, and that its record tells the truth. -/
structure DelegationEffect (csr : Word) (machine after : Machine M S) (record : DelegationRecord) :
    Prop where
  accessId : record.accessId = csr
  baseRegister : record.baseRegister = 10
  aligned_reads : (machine.registers 11).toNat % 4 = 0
  aligned_writes : (machine.registers 10).toNat % 4 = 0
  bound_le_reads : delegationPointerBound ≤ machine.registers 11
  bound_le_writes : delegationPointerBound ≤ machine.registers 10
  registerAccesses : record.registerAccesses =
    (List.range (delegationShape csr).registers).map fun index =>
      ⟨machine.registers (delegationRegister index), after.registers (delegationRegister index)⟩
  registers : ∀ register, (∀ index < (delegationShape csr).registers,
    register ≠ delegationRegister index) → after.registers register = machine.registers register
  indirectReadAddresses : record.indirectReadAddresses =
    indirectAddresses (machine.registers 11) (delegationShape csr).reads
  indirectReads : readContinuousWords readWord machine.memory (machine.registers 11).toNat
    (delegationShape csr).reads = some record.indirectReads
  indirectWriteAddresses : record.indirectWriteAddresses =
    indirectAddresses (machine.registers 10) (delegationShape csr).writes
  writtenReads : readContinuousWords readWord machine.memory (machine.registers 10).toNat
    (delegationShape csr).writes = some (record.indirectWrites.map ReadWrite.readValue)
  memory : writeContinuousWords writeWord machine.memory (machine.registers 10).toNat
    (record.indirectWrites.map ReadWrite.writeValue) = some after.memory
  pc : after.pc = machine.pc
  source : after.source = machine.source

variable {readWord writeWord}

theorem length_of_readContinuousWords {memory : M} {address count : ℕ} {words : List Word}
    (completed : readContinuousWords readWord memory address count = some words) :
    words.length = count := by
  induction count generalizing address words with
  | zero =>
    cases completed
    rfl
  | succ count ih =>
    simp only [readContinuousWords, bind_eq_bind, bind_eq_some_iff,
      Option.some.injEq] at completed
    obtain ⟨word, -, rest, readRest, rfl⟩ := completed
    rw [List.length_cons, ih readRest]

theorem map_readValue_zipWith {olds news : List Word} (same : olds.length = news.length) :
    (List.zipWith ReadWrite.mk olds news).map ReadWrite.readValue = olds := by
  induction olds generalizing news with
  | nil => rfl
  | cons old olds ih =>
    cases news with
    | nil => contradiction
    | cons new news => simp [ih (Nat.succ.inj same)]

theorem map_writeValue_zipWith {olds news : List Word} (same : olds.length = news.length) :
    (List.zipWith ReadWrite.mk olds news).map ReadWrite.writeValue = news := by
  induction olds generalizing news with
  | nil => exact (List.length_eq_zero_iff.mp same.symm).symm
  | cons old olds ih =>
    cases news with
    | nil => contradiction
    | cons new news => simp [ih (Nat.succ.inj same)]

variable {machine after : Machine M S} {record : DelegationRecord}

theorem u256OpsWithControl_effect
    (completed : u256OpsWithControl readWord writeWord machine = some (after, record)) :
    DelegationEffect readWord writeWord u256OpsWithControlAccessId machine after record := by
  simp only [u256OpsWithControl, bind_eq_bind, bind_eq_some_iff,
    guard_eq_some', Prod.exists, Option.some.injEq, Prod.mk.injEq] at completed
  obtain ⟨-, aligned10, -, aligned11, -, bound10, -, bound11, -, -, aWords, readA, bWords, readB,
    result, flag, -, memory, written, rfl, rfl⟩ := completed
  have shape : delegationShape u256OpsWithControlAccessId = ⟨3, 8, 8⟩ := by decide
  have same : aWords.length = (u256ToWords result).length := by
    rw [length_of_readContinuousWords readA]
    simp [u256ToWords]
  exact {
    accessId := rfl
    baseRegister := rfl
    aligned_reads := by omega
    aligned_writes := by omega
    bound_le_reads := bound11
    bound_le_writes := bound10
    registerAccesses := by
      rw [shape]
      rfl
    registers := fun register other => by
      rw [shape] at other
      exact Function.update_of_ne (other 2 (by decide)) _ _
    indirectReadAddresses := by rw [shape]
    indirectReads := by
      rw [shape]
      exact readB
    indirectWriteAddresses := by rw [shape]
    writtenReads := by
      rw [shape, map_readValue_zipWith same]
      exact readA
    memory := by
      rw [map_writeValue_zipWith same]
      exact written
    pc := rfl
    source := rfl }

theorem blake2RoundFunctionWithExtendedControl_effect
    (completed : blake2RoundFunctionWithExtendedControl readWord writeWord machine =
      some (after, record)) :
    DelegationEffect readWord writeWord blake2RoundFunctionWithExtendedControlAccessId machine
      after record := by
  simp only [blake2RoundFunctionWithExtendedControl, bind_eq_bind, bind_eq_some_iff,
    guard_eq_some', Prod.exists, Option.some.injEq, Prod.mk.injEq] at completed
  obtain ⟨-, aligned10, -, aligned11, -, bound10, -, bound11, -, -, stateWords, readState,
    inputWords, readInput, state, extended, -, memory, written, rfl, rfl⟩ := completed
  have shape : delegationShape blake2RoundFunctionWithExtendedControlAccessId = ⟨4, 16, 24⟩ :=
    by decide
  have same : stateWords.length = (state.toList ++ extended.toList).length := by
    rw [length_of_readContinuousWords readState]
    simp
  exact {
    accessId := rfl
    baseRegister := rfl
    aligned_reads := aligned11
    aligned_writes := by omega
    bound_le_reads := bound11
    bound_le_writes := bound10
    registerAccesses := by
      rw [shape]
      rfl
    registers := fun _ _ => rfl
    indirectReadAddresses := by rw [shape]
    indirectReads := by
      rw [shape]
      exact readInput
    indirectWriteAddresses := by rw [shape]
    writtenReads := by
      rw [shape, map_readValue_zipWith same]
      exact readState
    memory := by
      rw [map_writeValue_zipWith same]
      exact written
    pc := rfl
    source := rfl }

theorem processWrite_effect {csr : Word}
    (completed : processWrite readWord writeWord csr machine = some (after, record)) :
    DelegationEffect readWord writeWord csr machine after record := by
  unfold processWrite at completed
  split_ifs at completed with blake u256
  · rw [blake]
    exact blake2RoundFunctionWithExtendedControl_effect completed
  · rw [u256]
    exact u256OpsWithControl_effect completed

theorem processWrite_pc (csr pc : Word) (machine : Machine M S) :
    processWrite readWord writeWord csr { machine with pc } =
      (processWrite readWord writeWord csr machine).map fun (after, record) =>
        ({ after with pc }, record) := by
  unfold processWrite
  split_ifs
  · simp [blake2RoundFunctionWithExtendedControl]
  · simp [u256OpsWithControl]
  · rfl

theorem processWrite_congr {readWord' : M → ℕ → Option Word} {writeWord' : M → ℕ → Word → Option M}
    {csr : Word} (reads : readContinuousWords readWord machine.memory (machine.registers 11).toNat
        (delegationShape csr).reads =
      readContinuousWords readWord' machine.memory (machine.registers 11).toNat
        (delegationShape csr).reads)
    (olds : readContinuousWords readWord machine.memory (machine.registers 10).toNat
        (delegationShape csr).writes =
      readContinuousWords readWord' machine.memory (machine.registers 10).toNat
        (delegationShape csr).writes)
    (writes : ∀ words : List Word, words.length = (delegationShape csr).writes →
      writeContinuousWords writeWord machine.memory (machine.registers 10).toNat words =
        writeContinuousWords writeWord' machine.memory (machine.registers 10).toNat words) :
    processWrite readWord writeWord csr machine =
      processWrite readWord' writeWord' csr machine := by
  unfold processWrite
  split_ifs with blake u256
  · subst blake
    have shape : delegationShape blake2RoundFunctionWithExtendedControlAccessId = ⟨4, 16, 24⟩ :=
      by decide
    rw [shape] at reads olds writes
    have written (state : Vector Word 8) (extended : Vector Word 16) :=
      writes (state.toList ++ extended.toList) (by simp)
    simp only [blake2RoundFunctionWithExtendedControl, reads, olds, written]
  · subst u256
    have shape : delegationShape u256OpsWithControlAccessId = ⟨3, 8, 8⟩ := by decide
    rw [shape] at reads olds writes
    have written (result : BitVec 256) := writes (u256ToWords result) (by simp [u256ToWords])
    simp only [u256OpsWithControl, reads, olds, written]
  · rfl

end

end Airbender.Simulator

import Airbender.Simulator.BoundedMemory

/-!
# When the simulator of the prover completes a cycle

A condition on the fetched word, the registers, the oracle and the bounds of memory. It follows the
decision tree of the cycle, and says nothing about the values that the cycle computes.
-/

namespace Airbender.Simulator

open Unrolled (accessIsSupported oracleRead oracleWrite)
open Blake2s
open BitVec hiding not_or
open Option hiding guard guard_false guard_true

theorem isSome_guard_bind {α : Type} {holds : Prop} [Decidable holds] {next : Unit → Option α} :
    ((guard holds : Option Unit) >>= next).isSome ↔ holds ∧ (next ()).isSome := by
  by_cases condition : holds <;> simp [condition, guard_true, guard_false]

theorem isSome_bind_iff {α β : Type} {first : Option α} {next : α → Option β} {here later : Prop}
    (atFirst : first.isSome ↔ here) (atNext : ∀ value, (next value).isSome ↔ later) :
    (first >>= next).isSome ↔ here ∧ later := by
  rw [← atFirst]
  cases first with
  | none => simp
  | some value => simpa using atNext value

/-- The shifts, the only immediate operations that look at `funct7`. -/
def ShiftEncoding (config : MachineConfig) (funct3 : BitVec 3) (funct7 : BitVec 7) : Prop :=
  (funct3 = 0b001 → funct7 = 0b0000000) ∧
    (funct3 = 0b101 → funct7 = 0b0000000 ∨ funct7 = 0b0100000 ∧ config.supportSra = true)

def MulDivSupported (config : MachineConfig) (funct3 : BitVec 3) : Prop :=
  if funct3 = 0b000 ∨ funct3 = 0b011 then config.supportMul = true
  else if funct3 = 0b001 ∨ funct3 = 0b010 then
    config.supportMul = true ∧ config.supportSignedMul = true
  else if funct3 = 0b100 ∨ funct3 = 0b110 then
    config.supportDiv = true ∧ config.supportSignedDiv = true
  else config.supportDiv = true

def RegisterEncoding (config : MachineConfig) (funct3 : BitVec 3) (funct7 : BitVec 7) : Prop :=
  if funct7 = mExtFunct7 then MulDivSupported config funct3
  else (funct3 = 0b000 → funct7 = 0b0000000 ∨ funct7 = 0b0100000) ∧
    ShiftEncoding config funct3 funct7

/-- What is no modular operation has no effect. -/
def MopCompletes (config : MachineConfig) (instr : Word) : Prop :=
  let funct7 := funct7Bits instr
  config.supportMops = true ∧ funct7 &&& Unrolled.mopFunct7Test = Unrolled.mopFunct7Test →
    ¬(funct7.getLsbD 2 = true ∧ (funct7.getLsbD 1 = true ∨ funct7.getLsbD 5 = true))

section

variable {config : MachineConfig} {funct3 : BitVec 3} {funct7 : BitVec 7} {x y : Word}

theorem opImmValue_isSome_iff (noRot : config.supportRot = false) :
    (Unrolled.opImmValue config funct3 funct7 x y).isSome ↔ ShiftEncoding config funct3 funct7 := by
  rcases eq_of_bitVec_three funct3 with rfl | rfl | rfl | rfl | rfl | rfl | rfl | rfl
  case inr.inl =>
    by_cases zero : funct7 = 0#7 <;>
      simp [Unrolled.opImmValue, ShiftEncoding, sllFunct7, zero]
  case inr.inr.inr.inr.inr.inl =>
    by_cases zero : funct7 = 0#7
    · simp [Unrolled.opImmValue, ShiftEncoding, srlFunct7, zero]
    by_cases sra : funct7 = 0b0100000#7
    · simp [Unrolled.opImmValue, ShiftEncoding, srlFunct7, sraFunct7, sra]
    · simp [Unrolled.opImmValue, ShiftEncoding, srlFunct7, sraFunct7, zero, sra, noRot]
  all_goals simp [Unrolled.opImmValue, ShiftEncoding]

theorem mulDivValue_isSome_iff :
    (Unrolled.mulDivValue config funct3 x y).isSome ↔ MulDivSupported config funct3 := by
  rcases eq_of_bitVec_three funct3 with rfl | rfl | rfl | rfl | rfl | rfl | rfl | rfl <;>
    simp [Unrolled.mulDivValue, MulDivSupported]

theorem basicValue_isSome_iff (noRot : config.supportRot = false) :
    (Unrolled.basicValue config funct3 funct7 x y).isSome ↔
      (funct3 = 0b000 → funct7 = 0b0000000 ∨ funct7 = 0b0100000) ∧
        ShiftEncoding config funct3 funct7 := by
  rcases eq_of_bitVec_three funct3 with rfl | rfl | rfl | rfl | rfl | rfl | rfl | rfl
  case inl =>
    by_cases zero : funct7 = 0#7
    · simp [Unrolled.basicValue, ShiftEncoding, zero]
    · by_cases sub : funct7 = 0b0100000#7 <;>
        simp [Unrolled.basicValue, ShiftEncoding, subFunct7, zero, sub]
  case inr.inl =>
    by_cases zero : funct7 = 0#7 <;>
      simp [Unrolled.basicValue, ShiftEncoding, sllFunct7, zero, noRot]
  case inr.inr.inr.inr.inr.inl =>
    by_cases zero : funct7 = 0#7
    · simp [Unrolled.basicValue, ShiftEncoding, srlFunct7, zero]
    by_cases sra : funct7 = 0b0100000#7
    · simp [Unrolled.basicValue, ShiftEncoding, srlFunct7, sraFunct7, sra]
    · simp [Unrolled.basicValue, ShiftEncoding, srlFunct7, sraFunct7, zero, sra, noRot]
  all_goals simp [Unrolled.basicValue, ShiftEncoding]

theorem opValue_isSome_iff (noRot : config.supportRot = false) :
    (Unrolled.opValue config funct3 funct7 x y).isSome ↔
      RegisterEncoding config funct3 funct7 := by
  unfold Unrolled.opValue RegisterEncoding
  by_cases mul : funct7 = mExtFunct7
  · rw [if_pos mul, if_pos mul, mulDivValue_isSome_iff]
  · rw [if_neg mul, if_neg mul, basicValue_isSome_iff noRot]

theorem loadedValue_isSome_iff :
    (Unrolled.loadedValue config funct3 x).isSome ↔
      (funct3 = 0b000 ∨ funct3 = 0b001 → config.supportSignedLoad = true) := by
  rcases eq_of_bitVec_three funct3 with rfl | rfl | rfl | rfl | rfl | rfl | rfl | rfl <;>
    simp [Unrolled.loadedValue]

end

section

variable {M S : Type} {progress : Unrolled.Progress M S} {rs1Value rs2Value : Word}

theorem jump_isSome_iff {target : Word} : (progress.jump target).isSome ↔ target &&& 0x3 = 0 := by
  rw [Unrolled.Progress.jump_eq]
  split_ifs with aligned
  · exact iff_of_true rfl aligned
  · exact iff_of_false Bool.false_ne_true aligned

theorem branch_isSome_iff {funct3 : BitVec 3} {target : Word}
    {next : Unrolled.Progress M S → Unrolled.Progress M S} :
    ((Unrolled.shouldJump funct3 rs1Value rs2Value).bind fun taken =>
      (progress.jumpIf taken target).map next).isSome ↔
      ∃ taken, Unrolled.shouldJump funct3 rs1Value rs2Value = some taken ∧
        (taken = true → target &&& 0x3 = 0) := by
  cases Unrolled.shouldJump funct3 rs1Value rs2Value with
  | none => simp
  | some taken =>
    rw [bind_some, isSome_map]
    cases taken with
    | false => simp [Unrolled.Progress.jumpIf]
    | true => simpa [Unrolled.Progress.jumpIf] using jump_isSome_iff

/-- The number of a modular operation is the last one exactly for these bits. -/
theorem mopNumber_iff : ∀ funct7 : BitVec 7,
    ((((funct7 &&& 0b110) >>> 1) ||| ((funct7 &&& 0b100000) >>> 5)) = 0 ∨
      (((funct7 &&& 0b110) >>> 1) ||| ((funct7 &&& 0b100000) >>> 5)) = 1 ∨
      (((funct7 &&& 0b110) >>> 1) ||| ((funct7 &&& 0b100000) >>> 5)) = 2) ↔
      ¬(funct7.getLsbD 2 = true ∧ (funct7.getLsbD 1 = true ∨ funct7.getLsbD 5 = true)) := by
  decide

theorem mopValue_isSome_iff {mopNumber : BitVec 7} :
    (Unrolled.mopValue mopNumber rs1Value rs2Value).isSome ↔
      mopNumber = 0 ∨ mopNumber = 1 ∨ mopNumber = 2 := by
  unfold Unrolled.mopValue
  split_ifs <;> simp_all

theorem oracle_isSome_iff [NonDeterminismCSRSource M S] {rd rs1 : BitVec 5}
    {next : Word × Unrolled.Progress M S → Unrolled.Progress M S → Unrolled.Progress M S} :
    ((Unrolled.nonDeterminismRead rd progress).bind fun read =>
      (Unrolled.nonDeterminismWrite rs1 rs1Value read.2).map (next read)).isSome ↔
      ∃ word source, oracleRead M rd progress.machine.source = some (word, source) ∧
        (oracleWrite rs1 rs1Value progress.machine.memory source).isSome := by
  unfold Unrolled.nonDeterminismRead Unrolled.nonDeterminismWrite
  rcases oracleRead M rd progress.machine.source with _ | ⟨word, source⟩
  · simp
  · cases written : oracleWrite rs1 rs1Value progress.machine.memory source <;>
      simp [written, Unrolled.Progress.trace]

theorem mop_isSome_iff [MemorySource M] {config : MachineConfig} {instr : Word} :
    (Unrolled.mop config instr rs1Value rs2Value progress).isSome ↔ MopCompletes config instr := by
  simp only [Unrolled.mop, MopCompletes]
  split_ifs with test
  · refine (isSome_bind_iff mopValue_isSome_iff fun _ => iff_of_true rfl trivial).trans ?_
    rw [and_true, mopNumber_iff, forall_prop_of_true test]
  · exact iff_of_true rfl fun tested => absurd tested test

end

section

variable {M S : Type} [MemorySource M] [BoundedMemory M]

def Readable (memory : M) (physAddress : ℕ) : Prop :=
  Inside memory physAddress ∨ BoundedMemory.lenient M = true

def Writable (memory : M) (physAddress : ℕ) : Prop :=
  Readable memory physAddress ∧
    (Inside memory physAddress → BoundedMemory.romBound memory ≤ physAddress)

variable {memory after : M} {physAddress : ℕ} {value : Word}

theorem getNoexcept_isSome_iff :
    (MemorySource.getNoexcept memory physAddress).isSome ↔ Readable memory physAddress := by
  unfold Readable
  by_cases inside : Inside memory physAddress
  · rw [BoundedMemory.getNoexcept_inside _ _ inside]
    simp [inside]
  · rw [BoundedMemory.getNoexcept_outside _ _ inside]
    cases BoundedMemory.lenient M <;> simp [inside]

theorem setNoexcept_isSome_iff :
    (MemorySource.setNoexcept memory physAddress value).isSome ↔ Writable memory physAddress := by
  unfold Writable Readable
  by_cases inside : Inside memory physAddress
  · rw [BoundedMemory.setNoexcept_inside _ _ _ inside]
    split_ifs <;> simp_all
  · rw [BoundedMemory.setNoexcept_outside _ _ _ inside]
    cases BoundedMemory.lenient M <;> simp [inside]

theorem writable_setNoexcept
    (stored : MemorySource.setNoexcept memory physAddress value = some after) (other : ℕ) :
    Writable after other ↔ Writable memory other := by
  by_cases inside : Inside memory physAddress
  · rw [BoundedMemory.setNoexcept_inside _ _ _ inside] at stored
    split_ifs at stored
    cases stored
    unfold Writable Readable Inside
    rw [BoundedMemory.words_write, BoundedMemory.romBound_write, WordVec.length_set]
  · rw [BoundedMemory.setNoexcept_outside _ _ _ inside] at stored
    split_ifs at stored
    cases stored
    rfl

/-- The words of a range, one by one: the first, then the others. -/
theorem forall_words_succ {P : ℕ → Prop} {count : ℕ} :
    (∀ index < count + 1, P (physAddress + 4 * index)) ↔
      P physAddress ∧ ∀ index < count, P (physAddress + 4 + 4 * index) := by
  constructor
  · intro all
    refine ⟨all 0 (Nat.succ_pos count), fun index bound => ?_⟩
    have next := all (index + 1) (Nat.succ_lt_succ bound)
    rwa [Nat.mul_add, Nat.mul_one, Nat.add_comm (4 * index), ← Nat.add_assoc] at next
  · intro ⟨first, others⟩ index bound
    cases index with
    | zero => exact first
    | succ index =>
      have next := others index (Nat.lt_of_succ_lt_succ bound)
      rwa [Nat.mul_add, Nat.mul_one, Nat.add_comm (4 * index), ← Nat.add_assoc]

theorem readContinuousWords_isSome_iff {count : ℕ} :
    (readContinuousWords MemorySource.getNoexcept memory physAddress count).isSome ↔
      ∀ index < count, Readable memory (physAddress + 4 * index) := by
  induction count generalizing physAddress with
  | zero => simp [readContinuousWords]
  | succ count ih =>
    rw [forall_words_succ, ← ih, ← getNoexcept_isSome_iff, readContinuousWords]
    cases MemorySource.getNoexcept memory physAddress with
    | none => simp
    | some word =>
      cases readContinuousWords MemorySource.getNoexcept memory (physAddress + 4) count <;> simp

theorem writeContinuousWords_isSome_iff {words : List Word} {count : ℕ}
    (length : words.length = count) :
    (writeContinuousWords MemorySource.setNoexcept memory physAddress words).isSome ↔
      ∀ index < count, Writable memory (physAddress + 4 * index) := by
  subst length
  induction words generalizing memory physAddress with
  | nil => simp [writeContinuousWords]
  | cons word words ih =>
    rw [List.length_cons, forall_words_succ, ← @setNoexcept_isSome_iff M _ _ _ _ word,
      writeContinuousWords]
    cases stored : MemorySource.setNoexcept memory physAddress word with
    | none => simp
    | some after => simp [ih, writable_setNoexcept stored]

theorem exists_operation_bit : ∀ mask : Fin 256,
    countOnes (BitVec.ofNat 32 mask &&& ~~~((1 : Word) <<< 6)) = 1 →
      ∃ bit ∈ [0, 1, 2, 3, 4, 5, 7], (BitVec.ofNat 32 mask).getLsbD bit = true := by
  decide +kernel

theorem u256Operation_isSome_iff {controlMask : Word} {a b : BitVec 256} :
    (u256Operation controlMask a b).isSome ↔
      controlMask < 1 <<< 8 ∧ countOnes (controlMask &&& ~~~((1 : Word) <<< 6)) = 1 := by
  rw [u256Operation, isSome_guard_bind, isSome_guard_bind]
  refine and_congr_right fun small => and_iff_left_of_imp fun one => ?_
  have bound : controlMask.toNat < 256 := small
  obtain ⟨bit, known, set⟩ := exists_operation_bit ⟨controlMask.toNat, bound⟩ (by simpa using one)
  simp only [ofNat_toNat, setWidth_eq] at set
  simp only [List.mem_cons, List.not_mem_nil, or_false] at known
  rcases known with rfl | rfl | rfl | rfl | rfl | rfl | rfl <;> simp only [set] <;>
    split_ifs <;> rfl

theorem permutationIndex_one_shiftLeft : ∀ index < 10,
    permutationIndex (1 <<< index) = some index := by
  decide +kernel

theorem blake2Round_isSome_iff {permutationBitmask controlRegister : Word} {state : Vector Word 8}
    {extended input : Vector Word 16} :
    (blake2Round permutationBitmask controlRegister state extended input).isSome ↔
      ∃ index < 10, permutationBitmask = 1 <<< index := by
  constructor
  · intro completed
    obtain ⟨result, completed⟩ := isSome_iff_exists.mp completed
    obtain ⟨index, found, completed⟩ := bind_eq_some_iff.mp completed
    obtain ⟨sigma, known, -⟩ := bind_eq_some_iff.mp completed
    have bound := (List.getElem?_eq_some_iff.mp known).1
    exact ⟨index, bound, by simpa using List.find?_some found⟩
  · rintro ⟨index, bound, rfl⟩
    have known : sigmas.toList[index]? = some sigmas[index] := by simp [bound]
    rw [blake2Round, permutationIndex_one_shiftLeft index bound, bind_eq_bind, bind_some, known]
    rfl

/-- What the functions of the delegations check themselves. -/
def DelegationCompletes (csr : Word) (machine : Machine M S) : Prop :=
  let x10 := machine.registers 10
  let x11 := machine.registers 11
  let x12 := machine.registers 12
  (csr = blake2RoundFunctionWithExtendedControlAccessId ∧ x10.toNat % 128 = 0 ∧ x11.toNat % 4 = 0 ∧
      (∃ index < 10, x12 = 1 <<< index) ∨
    csr = u256OpsWithControlAccessId ∧ x10.toNat % 32 = 0 ∧ x11.toNat % 32 = 0 ∧
      x12 < 1 <<< 8 ∧ countOnes (x12 &&& ~~~((1 : Word) <<< 6)) = 1) ∧
  delegationPointerBound ≤ x10 ∧ delegationPointerBound ≤ x11 ∧ x10 ≠ x11 ∧
  (∀ index < (delegationShape csr).reads, Readable machine.memory (x11.toNat + 4 * index)) ∧
  ∀ index < (delegationShape csr).writes, Writable machine.memory (x10.toNat + 4 * index)

theorem Writable.readable {count : ℕ}
    (writable : ∀ index < count, Writable memory (physAddress + 4 * index)) :
    ∀ index < count, Readable memory (physAddress + 4 * index) :=
  fun index bound => (writable index bound).1

theorem blake2_isSome_iff {machine : Machine M S} :
    (blake2RoundFunctionWithExtendedControl MemorySource.getNoexcept MemorySource.setNoexcept
      machine).isSome ↔
      DelegationCompletes blake2RoundFunctionWithExtendedControlAccessId machine := by
  have shape : delegationShape blake2RoundFunctionWithExtendedControlAccessId = ⟨4, 16, 24⟩ :=
    by decide
  have other : ¬blake2RoundFunctionWithExtendedControlAccessId = u256OpsWithControlAccessId := by
    decide
  unfold blake2RoundFunctionWithExtendedControl DelegationCompletes
  simp only [isSome_guard_bind, shape, other, false_and, or_false, true_and]
  refine (and_congr_right fun _ => and_congr_right fun _ => and_congr_right fun _ =>
    and_congr_right fun _ => and_congr_right fun _ =>
    isSome_bind_iff readContinuousWords_isSome_iff fun stateWords =>
    isSome_bind_iff readContinuousWords_isSome_iff fun inputWords =>
    isSome_bind_iff blake2Round_isSome_iff fun rounded =>
    isSome_bind_iff (writeContinuousWords_isSome_iff (by simp : _ = 24)) fun _ =>
    iff_of_true rfl trivial).trans ?_
  constructor
  · rintro ⟨aligned10, aligned11, bound10, bound11, distinct, -, reads, round, writes, -⟩
    exact ⟨⟨aligned10, aligned11, round⟩, bound10, bound11, distinct, reads, writes⟩
  · rintro ⟨⟨aligned10, aligned11, round⟩, bound10, bound11, distinct, reads, writes⟩
    exact ⟨aligned10, aligned11, bound10, bound11, distinct, Writable.readable writes, reads, round,
      writes, trivial⟩

theorem u256_isSome_iff {machine : Machine M S} :
    (u256OpsWithControl MemorySource.getNoexcept MemorySource.setNoexcept machine).isSome ↔
      DelegationCompletes u256OpsWithControlAccessId machine := by
  have shape : delegationShape u256OpsWithControlAccessId = ⟨3, 8, 8⟩ := by decide
  have other : ¬u256OpsWithControlAccessId = blake2RoundFunctionWithExtendedControlAccessId := by
    decide
  unfold u256OpsWithControl DelegationCompletes
  simp only [isSome_guard_bind, shape, other, false_and, false_or, true_and]
  refine (and_congr_right fun _ => and_congr_right fun _ => and_congr_right fun _ =>
    and_congr_right fun _ => and_congr_right fun _ =>
    isSome_bind_iff readContinuousWords_isSome_iff fun aWords =>
    isSome_bind_iff readContinuousWords_isSome_iff fun bWords =>
    isSome_bind_iff u256Operation_isSome_iff fun result =>
    isSome_bind_iff (writeContinuousWords_isSome_iff (by simp [u256ToWords] : _ = 8)) fun _ =>
    iff_of_true rfl trivial).trans ?_
  constructor
  · rintro ⟨aligned10, aligned11, bound10, bound11, distinct, -, reads, control, writes, -⟩
    exact ⟨⟨aligned10, aligned11, control⟩, bound10, bound11, distinct, reads, writes⟩
  · rintro ⟨⟨aligned10, aligned11, control⟩, bound10, bound11, distinct, reads, writes⟩
    exact ⟨aligned10, aligned11, bound10, bound11, distinct, Writable.readable writes, reads,
      control, writes, trivial⟩

theorem processWrite_isSome_iff {csr : Word} {machine : Machine M S} :
    (processWrite MemorySource.getNoexcept MemorySource.setNoexcept csr machine).isSome ↔
      DelegationCompletes csr machine := by
  unfold processWrite
  split_ifs with blake u256
  · rw [blake2_isSome_iff, blake]
  · rw [u256_isSome_iff, u256]
  · simp [DelegationCompletes, blake, u256]

section

variable (config : MachineConfig) (machine : Machine M S) (instr : Word)

def LoadCompletes : Prop :=
  let address := (machine.registers (getFormalRs1Bits instr) +
    signExtend (ITypeOpcode.imm instr) 12).toNat
  ∃ numBytes, Unrolled.loadBytes (funct3Bits instr) = some numBytes ∧
    accessIsSupported config (address % 4) numBytes ∧
    Readable machine.memory (address - address % 4) ∧
    (funct3Bits instr = 0b000 ∨ funct3Bits instr = 0b001 → config.supportSignedLoad = true)

def StoreCompletes : Prop :=
  let address := (machine.registers (getFormalRs1Bits instr) +
    signExtend (STypeOpcode.imm instr) 12).toNat
  ∃ storeLength, Unrolled.storeBytes (funct3Bits instr) = some storeLength ∧
    accessIsSupported config (address % 4) storeLength ∧
    Writable machine.memory (address - address % 4)

variable [NonDeterminismCSRSource M S]

/-- The oracle is part of the input; it has to answer. -/
def CsrCompletes : Prop :=
  let csr := ITypeOpcode.imm instr
  let rs1 := getFormalRs1Bits instr
  funct3Bits instr = 0b001 ∧
    if csr = nonDeterminismCsr then
      ∃ word source, oracleRead M (getRdBits instr) machine.source = some (word, source) ∧
        (oracleWrite rs1 (machine.registers rs1) machine.memory source).isSome
    else if csr = markerCsr then True
    else DelegationCompletes csr machine

/-- What the simulator of the prover asks of an instruction, of the registers and of memory. -/
def Completes : Prop :=
  let op := getOpcodeBits instr
  let rs1 := machine.registers (getFormalRs1Bits instr)
  let rs2 := machine.registers (getFormalRs2Bits instr)
  if op = opcodeLui ∨ op = opcodeAuipc then True
  else if op = opcodeJal then (machine.pc + signExtend (JTypeOpcode.imm instr) 21) &&& 0x3 = 0
  else if op = opcodeJalr then
    ((rs1 + signExtend (ITypeOpcode.imm instr) 12) &&& ~~~0x1) &&& 0x3 = 0
  else if op = opcodeBranch then
    ∃ taken, Unrolled.shouldJump (funct3Bits instr) rs1 rs2 = some taken ∧
      (taken = true → (machine.pc + signExtend (BTypeOpcode.imm instr) 13) &&& 0x3 = 0)
  else if op = opImmSubmask then ShiftEncoding config (funct3Bits instr) (funct7Bits instr)
  else if op = opSubmask then RegisterEncoding config (funct3Bits instr) (funct7Bits instr)
  else if op = opcodeLoad then LoadCompletes config machine instr
  else if op = opcodeStore then StoreCompletes config machine instr
  else if op = opcodeSystem then
    if funct3Bits instr = 0b100 then MopCompletes config instr else CsrCompletes machine instr
  else False

end

section

variable {config : MachineConfig} {machine : Machine M S} {instr : Word}

theorem memRead_isSome_iff {address : Word} {numBytes : ℕ} :
    (Unrolled.memRead config memory address numBytes).isSome ↔
      accessIsSupported config (address.toNat % 4) numBytes ∧
        Readable memory (address.toNat - address.toNat % 4) := by
  rw [And.comm, Unrolled.memRead]
  refine isSome_bind_iff getNoexcept_isSome_iff fun word => isSome_guard_bind.trans ?_
  split_ifs <;> simp

theorem memWrite_isSome_iff {address value : Word} {numBytes : ℕ} :
    (Unrolled.memWrite config memory address value numBytes).isSome ↔
      accessIsSupported config (address.toNat % 4) numBytes ∧
        Writable memory (address.toNat - address.toNat % 4) := by
  rw [Unrolled.memWrite]
  refine (isSome_bind_iff getNoexcept_isSome_iff fun word => isSome_guard_bind.trans <|
    and_congr_right fun _ => isSome_bind_iff setNoexcept_isSome_iff fun _ =>
    iff_of_true rfl trivial).trans ?_
  constructor
  · rintro ⟨-, supported, writable, -⟩
    exact ⟨supported, writable⟩
  · rintro ⟨supported, writable⟩
    exact ⟨writable.1, supported, writable, trivial⟩

theorem load_isSome_iff :
    (Unrolled.load config instr (machine.registers (getFormalRs1Bits instr))
      (Unrolled.readOperands instr machine)).isSome ↔ LoadCompletes config machine instr := by
  unfold Unrolled.load LoadCompletes
  cases Unrolled.loadBytes (funct3Bits instr) with
  | none => simp
  | some numBytes =>
    simp only [bind_eq_bind, bind_some, Option.some.injEq, exists_eq_left']
    refine (isSome_bind_iff memRead_isSome_iff fun read =>
      isSome_bind_iff loadedValue_isSome_iff fun _ => iff_of_true rfl trivial).trans ?_
    rw [and_true]
    exact and_assoc

theorem store_isSome_iff {rs2Value : Word} :
    (Unrolled.store config instr (machine.registers (getFormalRs1Bits instr)) rs2Value
      (Unrolled.readOperands instr machine)).isSome ↔ StoreCompletes config machine instr := by
  unfold Unrolled.store StoreCompletes
  cases Unrolled.storeBytes (funct3Bits instr) with
  | none => simp
  | some storeLength =>
    simp only [bind_eq_bind, bind_some, Option.some.injEq, exists_eq_left']
    refine (isSome_bind_iff memWrite_isSome_iff fun write => iff_of_true rfl trivial).trans ?_
    rw [and_true]
    exact Iff.rfl

theorem delegate_isSome_iff {csr : Word} {events : List Unrolled.TraceEvent} :
    (Unrolled.delegate csr ⟨{ machine with pc := machine.pc + 4 }, events⟩).isSome ↔
      DelegationCompletes csr machine := by
  refine (isSome_bind_iff processWrite_isSome_iff fun _ => iff_of_true rfl trivial).trans ?_
  rw [and_true]
  exact Iff.rfl

variable [NonDeterminismCSRSource M S]

theorem csrAccess_isSome_iff (standard : config.supportStandardCsrs = false)
    (onlyCsrrw : config.supportOnlyCsrrw = true) :
    (Unrolled.csrAccess config instr (machine.registers (getFormalRs1Bits instr))
      (Unrolled.readOperands instr machine)).isSome ↔ CsrCompletes machine instr := by
  by_cases csrrw : funct3Bits instr = 0b001
  · rw [Unrolled.csrAccess_csrrw standard onlyCsrrw csrrw, CsrCompletes, and_iff_right csrrw]
    unfold Unrolled.csrRead Unrolled.csrWrite
    split_ifs with oracle marker
    · exact oracle_isSome_iff
    · simp
    · rw [bind_some, isSome_map]
      exact delegate_isSome_iff
  · rw [Unrolled.csrAccess_of_not_csrrw csrrw]
    exact iff_of_false Bool.false_ne_true fun completes => csrrw completes.1

theorem executed_isSome_iff (known : config ∈ machineConfigs) :
    (Unrolled.executed config instr machine).isSome ↔ Completes config machine instr := by
  obtain ⟨noRot, standard, onlyCsrrw⟩ := machineConfigs_common known
  rw [Unrolled.executed, isSome_map]
  by_cases executable : getOpcodeBits instr ∈ Unrolled.executableOpcodes
  · simp only [Unrolled.executableOpcodes, List.mem_cons, List.not_mem_nil, or_false] at executable
    unfold Completes
    rcases executable with op | op | op | op | op | op | op | op | op | op
    · simp [Unrolled.execute_lui _ _ _ _ _ op, op]
    · simp [Unrolled.execute_auipc _ _ _ _ _ op, op]
    · rw [Unrolled.execute_jal _ _ _ _ _ op, isSome_map, jump_isSome_iff, op]
      rfl
    · rw [Unrolled.execute_jalr _ _ _ _ _ op, isSome_map, jump_isSome_iff, op]
      rfl
    · have notLoad : getOpcodeBits instr ≠ opcodeLoad := by rw [op]; decide
      rw [Unrolled.execute_branch _ _ _ _ _ op, Unrolled.rs2Operand_of_ne notLoad,
        branch_isSome_iff, op]
      rfl
    · rw [Unrolled.execute_opImm _ _ _ _ _ op, isSome_map, opImmValue_isSome_iff noRot, op]
      rfl
    · rw [Unrolled.execute_op _ _ _ _ _ op, isSome_map, opValue_isSome_iff noRot, op]
      rfl
    · rw [Unrolled.execute_load _ _ _ _ _ op, load_isSome_iff, op]
      rfl
    · rw [Unrolled.execute_store _ _ _ _ _ op, store_isSome_iff, op]
      rfl
    · rw [Unrolled.execute_system _ _ _ _ _ op, op]
      change _ ↔ if funct3Bits instr = 0b100 then MopCompletes config instr
        else CsrCompletes machine instr
      simp only [Unrolled.system]
      split_ifs with modular access
      · exact mop_isSome_iff
      · exact csrAccess_isSome_iff standard onlyCsrrw
      · refine iff_of_false Bool.false_ne_true fun completes => access ?_
        rw [completes.1]
        decide
  · rw [Unrolled.execute_unknown _ _ _ _ _ executable]
    simp only [Unrolled.executableOpcodes, List.mem_cons, List.not_mem_nil, or_false, not_or]
      at executable
    simp [Completes, executable]

end

end

end Airbender.Simulator

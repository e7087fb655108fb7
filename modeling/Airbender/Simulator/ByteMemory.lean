import Airbender.Simulator.BoundedMemory
import Airbender.Simulator.BoxedMemory
import Airbender.Simulator.SubwordAccess

/-!
# Accesses to bytes of memory

Both simulators read and write whole words. Their accesses to one, two and four bytes act on memory
as a little-endian array of bytes.
-/

namespace Airbender.Simulator

open WordBytes BitVec

/-- What the simulators rely on inside of a memory. -/
class WordMemory (M : Type) [MemorySource M] where
  words : M → WordVec
  romBound : M → ℕ
  get_inside : ∀ memory accessType index, index < 2 ^ 30 → index < (words memory).length →
    accessType.readsRom →
      MemorySource.get memory (4 * index) accessType = some ((words memory).word index, none)
  getNoexcept_inside : ∀ memory index, index < 2 ^ 30 → index < (words memory).length →
    MemorySource.getNoexcept memory (4 * index) = some ((words memory).word index)
  set_inside : ∀ memory value index, index < 2 ^ 30 → index < (words memory).length →
    romBound memory ≤ 4 * index → ∃ after,
      MemorySource.set memory (4 * index) value .memStore = some (after, none) ∧
      MemorySource.setNoexcept memory (4 * index) value = some after ∧
      words after = (words memory).set index value ∧ romBound after = romBound memory

theorem eq_some_of_accessed {α : Type} {access : Option (α × Option TrapReason)} {value : α}
    (completed : accessed access = some value) : access = some (value, none) := by
  rcases access with _ | ⟨result, _ | reason⟩
  · cases completed
  · rw [← Option.some.inj completed]
  · cases completed

theorem eq_of_readsRom {accessType : AccessType} (reads : accessType.readsRom) :
    accessType = .instruction ∨ accessType = .memLoad := by
  simpa [AccessType.readsRom] using reads

variable {M : Type} [MemorySource M]

instance [BoundedMemory M] : WordMemory M where
  words := BoundedMemory.words
  romBound := BoundedMemory.romBound
  get_inside memory accessType index _ inside reads := by
    apply eq_some_of_accessed
    simp [BoundedMemory.accessed_get, inside, reads]
  getNoexcept_inside memory index _ inside := by
    simp [BoundedMemory.getNoexcept_inside memory (4 * index), inside]
  set_inside memory value index _ inside writable := by
    refine ⟨BoundedMemory.write memory (4 * index) value, eq_some_of_accessed ?_, ?_, ?_,
      BoundedMemory.romBound_write _ _ _⟩
    · simp [BoundedMemory.accessed_set, inside, writable]
    · simp [BoundedMemory.setNoexcept_inside memory (4 * index), inside, writable]
    · simp [BoundedMemory.words_write]

section

variable {ramSize logRomBound index : ℕ}

theorem truncated_address (small : index < 2 ^ 30) (inside : index < ramSize / 4) :
    4 * index % 4294967296 = 4 * index ∧ 4 * index < ramSize := by omega

theorem and_not_romBoundMask_ne_zero (small : index < 2 ^ 30)
    (writable : 2 ^ logRomBound ≤ 4 * index) :
    ¬BitVec.ofNat 32 (4 * index) &&& ~~~BoxedMemoryImplWithRom.romBoundMask logRomBound = 0 := by
  have log : logRomBound < 32 := (Nat.pow_lt_pow_iff_right (a := 2) (by omega)).mp (by omega)
  apply (and_not_romBoundMask_eq_zero_iff log (BitVec.ofNat 32 (4 * index))).not.mpr
  rw [toNat_ofNat]
  omega

instance : WordMemory (BoxedMemoryImplWithRom ramSize logRomBound) where
  words memory := ⟨ramSize / 4, memory.words⟩
  romBound _ := 2 ^ logRomBound
  get_inside memory accessType index small inside reads := by
    change BoxedMemoryImplWithRom.get memory (4 * index) accessType = _
    simp [BoxedMemoryImplWithRom.get, truncated_address small inside, eq_of_readsRom reads]
  getNoexcept_inside memory index small inside := by
    change BoxedMemoryImplWithRom.getNoexcept memory (4 * index) = _
    simp [BoxedMemoryImplWithRom.getNoexcept, truncated_address small inside]
  set_inside memory value index small inside writable := by
    have ram := and_not_romBoundMask_ne_zero small writable
    refine ⟨⟨Function.update memory.words index value⟩, ?_, ?_, rfl, rfl⟩
    · change BoxedMemoryImplWithRom.set memory (4 * index) value .memStore = _
      simpa [BoxedMemoryImplWithRom.set, truncated_address small inside] using ram
    · change BoxedMemoryImplWithRom.setNoexcept memory (4 * index) value = _
      simpa [BoxedMemoryImplWithRom.setNoexcept, truncated_address small inside] using ram

end

/-- The bytes of memory, least significant first in each word. -/
def WordVec.byte (words : WordVec) (address : ℕ) : BitVec 8 :=
  byteAt (words.word (address / 4)) (address % 4)

open Unrolled

section

variable [WordMemory M] (config : MachineConfig) (memory : M) (address value : Word) (numBytes : ℕ)

open WordMemory (words romBound)

def ReadsBytes (byte : ℕ → BitVec 8) : Prop :=
  ∃ read, (Unrolled.memRead config memory address numBytes).map Prod.snd = some read ∧
    (∀ accessType, accessType.readsRom →
      Reference.memRead config memory address.toNat numBytes accessType = .ok read) ∧
    ∀ index, byteAt read index = if index < numBytes then byte index else 0

/-- Both versions leave the same memory, in which only the addressed bytes are new. -/
structure WritesBytes (after : M) : Prop where
  unrolled : (Unrolled.memWrite config memory address value numBytes).map (·.2.2) = some after
  reference : Reference.memWrite config memory address.toNat value numBytes = .ok after
  length : (words after).length = (words memory).length
  romBound : romBound after = romBound memory
  byte : ∀ target, (words after).byte target =
    if address.toNat ≤ target ∧ target < address.toNat + numBytes then
      byteAt value (target - address.toNat)
    else (words memory).byte target

variable {config memory address value numBytes}

theorem aligned_eq (address : ℕ) : address - address % 4 = 4 * (address / 4) := by omega

theorem readsBytes (supported : accessIsSupported config (address.toNat % 4) numBytes)
    (inside : address.toNat / 4 < (words memory).length) :
    ReadsBytes config memory address numBytes fun index =>
      (words memory).byte (address.toNat + index) := by
  have small : address.toNat / 4 < 2 ^ 30 := by omega
  refine ⟨loadedPart config (address.toNat % 4) numBytes ((words memory).word (address.toNat / 4)),
    ?_, fun accessType reads => ?_, fun index => ?_⟩
  · rw [Unrolled.memRead_eq, supported, aligned_eq, WordMemory.getNoexcept_inside _ _ small inside]
    rfl
  · rw [Reference.memRead_eq _ _ _ _ (eq_of_readsRom reads), if_pos supported, aligned_eq,
      WordMemory.get_inside _ _ _ small inside reads, loadedPart]
    split_ifs <;> rfl
  · rw [byteAt_loadedPart supported]
    have inWord := (bytes_of_supported supported).1
    refine if_ctx_congr Iff.rfl (fun covered => ?_) (fun _ => rfl)
    unfold WordVec.byte
    congr 2 <;> omega

variable (value) in
theorem exists_writesBytes (supported : accessIsSupported config (address.toNat % 4) numBytes)
    (inside : address.toNat / 4 < (words memory).length)
    (writable : romBound memory ≤ 4 * (address.toNat / 4)) :
    ∃ after, WritesBytes config memory address value numBytes after := by
  have small : address.toNat / 4 < 2 ^ 30 := by omega
  obtain ⟨after, set, setNoexcept, written, bound⟩ := WordMemory.set_inside memory
    (storedWord config (address.toNat % 4) numBytes ((words memory).word (address.toNat / 4))
      value) _ small inside writable
  refine ⟨after, ?_, ?_, by rw [written, WordVec.length_set], bound, fun target => ?_⟩
  · rw [Unrolled.memWrite_eq, supported, aligned_eq, WordMemory.getNoexcept_inside _ _ small inside]
    simp [guard_true, setNoexcept]
  · rw [storedWord] at set
    simp only [Reference.memWrite, supported, if_true, aligned_eq,
      WordMemory.get_inside _ _ _ small inside (by rfl : AccessType.readsRom .memLoad)]
    exact congrArg Reference.ofAccess set
  · have inWord := (bytes_of_supported supported).1
    have byteInWord : target % 4 < 4 := Nat.mod_lt _ (by omega)
    rw [WordVec.byte, written, WordVec.word_set]
    by_cases same : target / 4 = address.toNat / 4
    · rw [if_pos same, byteAt_storedWord supported _ _ byteInWord]
      refine if_ctx_congr (by omega) (fun covered => ?_) (fun _ => ?_)
      · congr 1
        omega
      · rw [WordVec.byte, same]
    · rw [if_neg same, if_neg (by omega)]
      rfl

variable (config memory address value numBytes) in
/-- Both versions of the accesses act as a little-endian memory of bytes, and refuse the same
accesses. -/
theorem memRead_memWrite_bytes :
    (accessIsSupported config (address.toNat % 4) numBytes →
      address.toNat / 4 < (words memory).length →
        (ReadsBytes config memory address numBytes fun index =>
          (words memory).byte (address.toNat + index)) ∧
        (romBound memory ≤ 4 * (address.toNat / 4) → ∃ after,
          WritesBytes config memory address value numBytes after ∧
          ReadsBytes config after address numBytes (byteAt value))) ∧
    (accessIsSupported config (address.toNat % 4) numBytes = false →
      Unrolled.memRead config memory address numBytes = none ∧
        Unrolled.memWrite config memory address value numBytes = none ∧
        (∀ accessType, accessType.readsRom →
          Reference.memRead config memory address.toNat numBytes accessType =
            .error (.trap .loadAddressMisaligned)) ∧
        Reference.memWrite config memory address.toNat value numBytes =
          .error (.trap .storeOrAMOAddressMisaligned)) := by
  constructor
  · intro supported inside
    refine ⟨readsBytes supported inside, fun writable => ?_⟩
    obtain ⟨after, writes⟩ := exists_writesBytes value supported inside writable
    obtain ⟨read, unrolled, reference, bytes⟩ := readsBytes supported (writes.length.symm ▸ inside)
    refine ⟨after, writes, read, unrolled, reference, fun index => (bytes index).trans ?_⟩
    refine if_ctx_congr Iff.rfl (fun covered => ?_) (fun _ => rfl)
    apply (writes.byte _).trans
    rw [if_pos (by omega), Nat.add_sub_cancel_left]
  · intro refused
    rw [Unrolled.memRead_eq, Unrolled.memWrite_eq]
    refine ⟨by simp [refused], by simp [refused], fun accessType reads => ?_, ?_⟩
    · rw [Reference.memRead_eq _ _ _ _ (eq_of_readsRom reads), if_neg (by simp [refused])]
    · simp [Reference.memWrite, refused]

theorem memRead_memWrite_bytes_half :
    ∃ after : VectorMemoryImpl, WritesBytes imStandardIsaConfig ⟨.zeroed 2⟩ 6 0xabcd 2 after ∧
      ReadsBytes imStandardIsaConfig after 6 2 (byteAt 0xabcd) :=
  ((memRead_memWrite_bytes _ (⟨.zeroed 2⟩ : VectorMemoryImpl) 6 0xabcd 2).1 (by decide)
    (by decide)).2 (Nat.zero_le _)

/-- The accesses are aligned. One word past a memory the versions differ, and neither writes to a
ROM. -/
theorem memRead_memWrite_outside :
    let memory : VectorMemoryImpl := ⟨.zeroed 2⟩
    let withRom : VectorMemoryImplWithRom := ⟨.zeroed 4, 8⟩
    accessIsSupported imStandardIsaConfig 0 4 ∧
      (Unrolled.memRead imStandardIsaConfig memory 8 4).map Prod.snd = some 0 ∧
      Reference.memRead imStandardIsaConfig memory 8 4 .memLoad =
        .error (.trap .loadAccessFault) ∧
      (Unrolled.memWrite imStandardIsaConfig memory 8 1 4).map (·.2.2) = some memory ∧
      Reference.memWrite imStandardIsaConfig memory 8 1 4 = .error (.trap .loadAccessFault) ∧
      Unrolled.memWrite imStandardIsaConfig withRom 4 1 4 = none ∧
      Reference.memWrite imStandardIsaConfig withRom 4 1 4 = .error .panic :=
  ⟨rfl, rfl, rfl, rfl, rfl, rfl, rfl⟩

end

end Airbender.Simulator

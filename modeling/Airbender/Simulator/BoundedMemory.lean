import Airbender.Simulator.ReferenceCycle

/-!
# Bounded memories

Both memories of the simulators are an array of words whose lowest part may be a ROM. The accesses
of either are described by that array and the bound, so that the simulators can be compared over
any of them.
-/

namespace Airbender.Simulator

def accessed {α : Type} (access : Option (α × Option TrapReason)) : Option α :=
  match access with
  | some (value, none) => some value
  | _ => none

theorem toOption_ofAccess {α : Type} (access : Option (α × Option TrapReason)) :
    (Reference.ofAccess access).toOption = accessed access := by
  rcases access with _ | ⟨value, _ | reason⟩ <;> rfl

/-- Fetches and loads may read below the bound. -/
def AccessType.readsRom (accessType : AccessType) : Bool :=
  accessType = .instruction || accessType = .memLoad

/-- A memory of words, the lowest of which may be a ROM. The accesses without exceptions of a
lenient memory read zero outside of it and drop what is written there; others panic. -/
class BoundedMemory (M : Type) [MemorySource M] where
  words : M → WordVec
  romBound : M → ℕ
  lenient : Bool
  write : M → (physAddress : ℕ) → Word → M
  words_write : ∀ memory physAddress value,
    words (write memory physAddress value) = (words memory).set (physAddress / 4) value
  romBound_write : ∀ memory physAddress value,
    romBound (write memory physAddress value) = romBound memory
  accessed_get : ∀ memory physAddress accessType,
    accessed (MemorySource.get memory physAddress accessType) =
      if physAddress / 4 < (words memory).length ∧
          (romBound memory ≤ physAddress ∨ accessType.readsRom) then
        some ((words memory).word (physAddress / 4))
      else none
  accessed_set : ∀ memory physAddress value accessType,
    accessed (MemorySource.set memory physAddress value accessType) =
      if physAddress / 4 < (words memory).length ∧ romBound memory ≤ physAddress then
        some (write memory physAddress value)
      else none
  getNoexcept_inside : ∀ memory physAddress, physAddress / 4 < (words memory).length →
    MemorySource.getNoexcept memory physAddress = some ((words memory).word (physAddress / 4))
  setNoexcept_inside : ∀ memory physAddress value, physAddress / 4 < (words memory).length →
    MemorySource.setNoexcept memory physAddress value =
      if romBound memory ≤ physAddress then some (write memory physAddress value) else none
  getNoexcept_outside : ∀ memory physAddress, ¬physAddress / 4 < (words memory).length →
    MemorySource.getNoexcept memory physAddress = if lenient then some 0 else none
  setNoexcept_outside : ∀ memory physAddress value, ¬physAddress / 4 < (words memory).length →
    MemorySource.setNoexcept memory physAddress value = if lenient then some memory else none
  getOpcodeNoexcept_inside : ∀ memory physAddress, physAddress / 4 < (words memory).length →
    MemorySource.getOpcodeNoexcept memory physAddress =
      some ((words memory).word (physAddress / 4))

instance : BoundedMemory VectorMemoryImpl where
  words memory := memory.inner
  romBound _ := 0
  lenient := true
  write memory physAddress value := ⟨memory.inner.set (physAddress / 4) value⟩
  words_write _ _ _ := rfl
  romBound_write _ _ _ := rfl
  accessed_get memory physAddress accessType := by
    change accessed (VectorMemoryImpl.get memory physAddress accessType) = _
    by_cases inside : physAddress / 4 < memory.inner.length <;> cases accessType <;>
      simp [VectorMemoryImpl.get, inside, accessed, accessFault]
  accessed_set memory physAddress value accessType := by
    change accessed (VectorMemoryImpl.set memory physAddress value accessType) = _
    by_cases inside : physAddress / 4 < memory.inner.length <;> cases accessType <;>
      simp [VectorMemoryImpl.set, inside, accessed, accessFault]
  getNoexcept_inside memory physAddress inside := by
    change (VectorMemoryImpl.get memory physAddress .memLoad).map Prod.fst = _
    simp [VectorMemoryImpl.get, inside]
  setNoexcept_inside memory physAddress value inside := by
    change (VectorMemoryImpl.set memory physAddress value .memStore).map Prod.fst = _
    simp [VectorMemoryImpl.set, inside]
  getNoexcept_outside memory physAddress outside := by
    change (VectorMemoryImpl.get memory physAddress .memLoad).map Prod.fst = _
    simp [VectorMemoryImpl.get, outside, accessFault]
  setNoexcept_outside memory physAddress value outside := by
    change (VectorMemoryImpl.set memory physAddress value .memStore).map Prod.fst = _
    simp [VectorMemoryImpl.set, outside, accessFault]
  getOpcodeNoexcept_inside memory physAddress inside := by
    change (VectorMemoryImpl.get memory physAddress .instruction).map Prod.fst = _
    simp [VectorMemoryImpl.get, inside]

instance : BoundedMemory VectorMemoryImplWithRom where
  words memory := memory.ram
  romBound memory := memory.romBound
  lenient := false
  write memory physAddress value := { memory with ram := memory.ram.set (physAddress / 4) value }
  words_write _ _ _ := rfl
  romBound_write _ _ _ := rfl
  accessed_get memory physAddress accessType := by
    change accessed (VectorMemoryImplWithRom.get memory physAddress accessType) = _
    by_cases rom : physAddress < memory.romBound <;>
      by_cases inside : physAddress / 4 < memory.ram.length <;>
      cases accessType <;>
      simp [VectorMemoryImplWithRom.get, AccessType.readsRom, inside, rom, accessed, accessFault,
        Nat.not_le_of_lt, Nat.le_of_not_lt]
  accessed_set memory physAddress value accessType := by
    change accessed (VectorMemoryImplWithRom.set memory physAddress value accessType) = _
    by_cases rom : physAddress < memory.romBound <;>
      by_cases inside : physAddress / 4 < memory.ram.length <;>
      cases accessType <;>
      simp [VectorMemoryImplWithRom.set, inside, rom, accessed, accessFault, Nat.not_le_of_lt,
        Nat.le_of_not_lt]
  getNoexcept_inside memory physAddress inside := by
    change VectorMemoryImplWithRom.getNoexcept memory physAddress = _
    simp [VectorMemoryImplWithRom.getNoexcept, inside]
  setNoexcept_inside memory physAddress value inside := by
    change VectorMemoryImplWithRom.setNoexcept memory physAddress value = _
    by_cases rom : physAddress < memory.romBound <;>
      simp [VectorMemoryImplWithRom.setNoexcept, inside, rom, Nat.not_le_of_lt, Nat.le_of_not_lt]
  getNoexcept_outside memory physAddress outside := by
    change VectorMemoryImplWithRom.getNoexcept memory physAddress = _
    simp [VectorMemoryImplWithRom.getNoexcept, outside]
  setNoexcept_outside memory physAddress value outside := by
    change VectorMemoryImplWithRom.setNoexcept memory physAddress value = _
    simp [VectorMemoryImplWithRom.setNoexcept, outside]
  getOpcodeNoexcept_inside memory physAddress inside := by
    change VectorMemoryImplWithRom.getOpcodeNoexcept memory physAddress = _
    simp [VectorMemoryImplWithRom.getOpcodeNoexcept, inside]

def Inside {M : Type} [MemorySource M] [BoundedMemory M] (memory : M) (physAddress : ℕ) : Prop :=
  physAddress / 4 < (BoundedMemory.words memory).length

end Airbender.Simulator

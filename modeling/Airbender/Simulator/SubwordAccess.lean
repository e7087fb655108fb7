import Airbender.Lib.WordBytes
import Airbender.Simulator.UnrolledCycle

/-!
# Parts of a word

The simulator reads and replaces parts of a word by shifts and masks. Their effect on each byte.
-/

namespace Airbender.Simulator.Unrolled

open WordBytes
open Option hiding guard guard_false guard_true
open BitVec

/-- The value of a word in memory with some of its bytes replaced. -/
def storedWord (config : MachineConfig) (unalignment numBytes : ℕ) (old value : Word) : Word :=
  if config.supportLoadLessThanWord then
    ((value &&& bytesMask numBytes) <<< (8 * unalignment)) |||
      (old &&& maskOld unalignment numBytes)
  else value

def loadedPart (config : MachineConfig) (unalignment numBytes : ℕ) (word : Word) : Word :=
  if config.supportLoadLessThanWord then (word >>> (8 * unalignment)) &&& bytesMask numBytes
  else word

section

variable {M : Type} [MemorySource M] {config : MachineConfig}

theorem memRead_eq (memory : M) (physAddress : Word) (numBytes : ℕ) :
    memRead config memory physAddress numBytes = (do
      guard (accessIsSupported config (physAddress.toNat % 4) numBytes)
      let word ← MemorySource.getNoexcept memory (physAddress.toNat - physAddress.toNat % 4)
      some (word, loadedPart config (physAddress.toNat % 4) numBytes word)) := by
  unfold memRead loadedPart
  by_cases access : accessIsSupported config (physAddress.toNat % 4) numBytes = true
  · simp only [access, guard_true, pure_def, bind_eq_bind, bind_some]
    split_ifs <;> rfl
  · simp [access, guard_false]

theorem memWrite_eq (memory : M) (physAddress value : Word) (numBytes : ℕ) :
    memWrite config memory physAddress value numBytes = (do
      guard (accessIsSupported config (physAddress.toNat % 4) numBytes)
      let old ← MemorySource.getNoexcept memory (physAddress.toNat - physAddress.toNat % 4)
      let stored := storedWord config (physAddress.toNat % 4) numBytes old value
      let memory ←
        MemorySource.setNoexcept memory (physAddress.toNat - physAddress.toNat % 4) stored
      some (old, stored, memory)) := by
  unfold memWrite storedWord
  by_cases access : accessIsSupported config (physAddress.toNat % 4) numBytes = true
  · simp [access, guard_true]
  · simp [access, guard_false]

end

variable {config : MachineConfig} {unalignment numBytes : ℕ}

theorem bytes_of_supported (supported : accessIsSupported config unalignment numBytes) :
    unalignment + numBytes ≤ 4 ∧
      (∀ bit, (bytesMask numBytes).getLsbD bit = decide (bit < 8 * numBytes)) ∧
      (config.supportLoadLessThanWord = false → unalignment = 0 ∧ numBytes = 4) := by
  have width : (numBytes = 1 ∨ numBytes = 2 ∨ numBytes = 4) ∧ unalignment + numBytes ≤ 4 ∧
      (config.supportLoadLessThanWord = false → unalignment = 0 ∧ numBytes = 4) := by
    unfold accessIsSupported at supported
    split at supported
    · simp only [List.mem_cons, List.not_mem_nil, or_false, Prod.mk.injEq,
        decide_eq_true_eq] at supported
      exact ⟨by omega, by omega, by simp [*]⟩
    · obtain ⟨rfl, rfl⟩ := Prod.mk.inj (beq_iff_eq.mp supported)
      exact ⟨by omega, le_rfl, fun _ => ⟨rfl, rfl⟩⟩
  refine ⟨width.2.1, fun bit => ?_, width.2.2⟩
  by_cases inside : bit < 32
  · rcases width.1 with rfl | rfl | rfl <;> decide +revert
  · rw [getLsbD_of_ge _ _ (Nat.le_of_not_lt inside)]
    exact (decide_eq_false (by omega)).symm

theorem loadedPart_eq (supported : accessIsSupported config unalignment numBytes) (word : Word) :
    loadedPart config unalignment numBytes word =
      (word >>> (8 * unalignment)) &&& bytesMask numBytes := by
  unfold loadedPart
  split_ifs with subword
  · rfl
  · obtain ⟨rfl, rfl⟩ :=
      (bytes_of_supported supported).2.2 (Bool.eq_false_of_not_eq_true subword)
    exact (and_allOnes).symm

theorem byteAt_loadedPart (supported : accessIsSupported config unalignment numBytes) (word : Word)
    (index : ℕ) : byteAt (loadedPart config unalignment numBytes word) index =
      if index < numBytes then byteAt word (unalignment + index) else 0 := by
  obtain ⟨bound, mask, -⟩ := bytes_of_supported supported
  apply eq_of_getLsbD_eq
  intro bit inside
  simp only [loadedPart_eq supported, byteAt, getLsbD_extractLsb', getLsbD_and,
    getLsbD_ushiftRight, mask]
  split_ifs with covered
  · rw [getLsbD_extractLsb', decide_eq_true (show 8 * index + bit < 8 * numBytes by omega),
      Bool.and_true, Nat.mul_add, Nat.add_assoc]
  · rw [decide_eq_false (show ¬ 8 * index + bit < 8 * numBytes by omega), Bool.and_false,
      Bool.and_false]
    exact BitVec.getLsbD_zero.symm

theorem byteAt_storedWord (supported : accessIsSupported config unalignment numBytes)
    (old value : Word) {index : ℕ} (inWord : index < 4) :
    byteAt (storedWord config unalignment numBytes old value) index =
      if unalignment ≤ index ∧ index < unalignment + numBytes then
        byteAt value (index - unalignment)
      else byteAt old index := by
  obtain ⟨bound, mask, whole⟩ := bytes_of_supported supported
  have stored : storedWord config unalignment numBytes old value =
      ((value &&& bytesMask numBytes) <<< (8 * unalignment)) |||
        (old &&& maskOld unalignment numBytes) := by
    unfold storedWord
    split_ifs with subword
    · rfl
    · obtain ⟨rfl, rfl⟩ := whole (Bool.eq_false_of_not_eq_true subword)
      change _ = ((value &&& BitVec.allOnes 32) <<< 0) ||| (old &&& 0#32)
      rw [and_allOnes, shiftLeft_zero, and_zero, or_zero]
  apply eq_of_getLsbD_eq
  intro bit inside
  simp only [stored, maskOld, byteAt, getLsbD_extractLsb', getLsbD_or,
    getLsbD_and, getLsbD_shiftLeft, getLsbD_not, mask,
    show 8 * index + bit < 32 by omega]
  split_ifs with covered
  · have first : ¬ 8 * index + bit < 8 * unalignment := by omega
    have last : 8 * index + bit - 8 * unalignment < 8 * numBytes := by omega
    have position : 8 * (index - unalignment) + bit = 8 * index + bit - 8 * unalignment := by omega
    simp [first, last, inside, position]
  · by_cases first : 8 * index + bit < 8 * unalignment
    · simp [first, inside]
    · have last : ¬ 8 * index + bit - 8 * unalignment < 8 * numBytes := by omega
      simp [first, last, inside]

end Airbender.Simulator.Unrolled

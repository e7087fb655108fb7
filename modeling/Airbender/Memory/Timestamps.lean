import Airbender.Memory.Access
import Airbender.Verifier.FullStatement

/-!
# Timestamps across chunks

A row of the setup numbers the cycles of one chunk; the verifier adds the contribution of the
chunk's index to the high limb. One bound on the number of chunks, derived from the trace length of
the base layer, is used for all machines.
-/

namespace Airbender.Memory

open Verifier Nat

/-- `timestamp_high_contribution_from_circuit_sequence`, a 64-bit shift. -/
def timestampHighContributionFromCircuitSequence (circuitSequence traceLenLog2 : ℕ) : ℕ :=
  circuitSequence <<< (traceLenLog2 + 2) % 2 ^ 64

def timestampFromChunkCycleAndSequence (cycleInChunk traceLenLog2 circuitSequence : ℕ) : ℕ :=
  4 + 4 * cycleInChunk + timestampHighContributionFromCircuitSequence circuitSequence traceLenLog2

/-- The contribution to the high limb that the verifier of a chunk derives from its index, after
the assertion that the shift loses no bits. -/
def memoryTimestampHighFromCircuitSequence (circuitSequence traceLenLog2 : ℕ) :
    Option Mersenne31Field := do
  let circuitSequenceBitsShift := traceLenLog2 + 2 - 19
  guard (circuitSequence ≤ (2 ^ 32 - 1) >>> circuitSequenceBitsShift)
  some ((circuitSequence <<< circuitSequenceBitsShift : ℕ) : Mersenne31Field)

/-- The timestamp that an access writes, by limbs: the row of the setup, with the access added to
the low limb and the contribution of the chunk to the high one. -/
def chunkWriteTimestamp (traceLenLog2 circuitSequence row accessIdx : ℕ) :
    Option (Mersenne31Field × Mersenne31Field) := do
  let high ← memoryTimestampHighFromCircuitSequence circuitSequence traceLenLog2
  let setup := rowIntoTimestampLimbsForSetup row
  some ((setup.1 : Mersenne31Field) + (accessIdx : Mersenne31Field),
    (setup.2 : Mersenne31Field) + high)

/-- The main circuits that `verify_full_statement` is instantiated with. -/
inductive MainMachine where
  | riscVCycles
  | reducedRiscVMachine
  | reducedRiscVLog23Machine
  | finalReducedRiscVMachine
deriving DecidableEq

namespace MainMachine

def traceLenLog2 : MainMachine → ℕ
  | riscVCycles => 22
  | reducedRiscVMachine => 22
  | reducedRiscVLog23Machine => 23
  | finalReducedRiscVMachine => 25

def baseLayer : MainMachine → Bool
  | riscVCycles => true
  | _ => false

/-- The numbers of chunks that pass the assertions of the verifier. -/
def Accepts (machine : MainMachine) (numCircuits : ℕ) : Prop :=
  0 < numCircuits ∧ numCircuits ≤
    if machine.baseLayer then maxBaseLayerCircuits else maxRecursionLayerCircuits

theorem Accepts.le {machine : MainMachine} {numCircuits : ℕ}
    (accepted : machine.Accepts numCircuits) : numCircuits ≤ 2 ^ 14 := by
  have sameBound : (if machine.baseLayer then maxBaseLayerCircuits
      else maxRecursionLayerCircuits) = 2 ^ 14 := by
    cases machine <;> decide
  exact le_of_le_of_eq accepted.2 sameBound

end MainMachine

/-- An access in a run of several chunks. The last row of a trace is not in use; three accesses
and the delegation request share a cycle. -/
structure AccessPosition (machine : MainMachine) (numCircuits : ℕ) where
  circuitSequence : ℕ
  row : ℕ
  accessIdx : ℕ
  sequence_lt : circuitSequence < numCircuits
  row_lt : row < 2 ^ machine.traceLenLog2 - 1
  access_lt : accessIdx < 4

namespace AccessPosition

variable {machine : MainMachine} {numCircuits : ℕ}

def order (position : AccessPosition machine numCircuits) : ℕ ×ₗ ℕ ×ₗ ℕ :=
  toLex (position.circuitSequence, toLex (position.row, position.accessIdx))

def writeTimestamp (position : AccessPosition machine numCircuits) :
    Option (Mersenne31Field × Mersenne31Field) :=
  chunkWriteTimestamp machine.traceLenLog2 position.circuitSequence position.row
    position.accessIdx

def timestamp (position : AccessPosition machine numCircuits) : ℕ :=
  timestampFromChunkCycleAndSequence position.row machine.traceLenLog2 position.circuitSequence +
    position.accessIdx

end AccessPosition

/-- The limbs of every access of a run hold its timestamp, have 19 bits, and follow the order of
execution. -/
structure TimestampsHold (machine : MainMachine) (numCircuits : ℕ) : Prop where
  agree : ∀ position : AccessPosition machine numCircuits, ∃ limbs,
    position.writeTimestamp = some limbs ∧
      limbs.1.val + 2 ^ 19 * limbs.2.val = position.timestamp
  increasing : ∀ earlier later : AccessPosition machine numCircuits,
    earlier.order < later.order → earlier.timestamp < later.timestamp
  ranged : ∀ position : AccessPosition machine numCircuits, ∀ limbs,
    position.writeTimestamp = some limbs → Ranged limbs

namespace AccessPosition

variable {machine : MainMachine} {numCircuits : ℕ} (position : AccessPosition machine numCircuits)

def sequenceHigh : ℕ := position.circuitSequence * 2 ^ (machine.traceLenLog2 - 17)

variable (accepted : machine.Accepts numCircuits)

include accepted

theorem sequence_le : position.circuitSequence < 2 ^ 14 :=
  lt_of_lt_of_le position.sequence_lt accepted.le

theorem writeTimestamp_eq :
    position.writeTimestamp =
      some ((((position.row + 1) * 4 % 2 ^ 19 + position.accessIdx : ℕ) : Mersenne31Field),
        (((position.row + 1) * 4 / 2 ^ 19 + position.sequenceHigh : ℕ) : Mersenne31Field)) := by
  have sequence := position.sequence_le accepted
  have passes : position.circuitSequence ≤
      (2 ^ 32 - 1) >>> (machine.traceLenLog2 + 2 - 19) := by
    cases machine <;> simp only [MainMachine.traceLenLog2, shiftRight_eq_div_pow] <;> omega
  have shift : machine.traceLenLog2 + 2 - 19 = machine.traceLenLog2 - 17 := by omega
  have contribution : memoryTimestampHighFromCircuitSequence position.circuitSequence
      machine.traceLenLog2 = some ((position.sequenceHigh : ℕ) : Mersenne31Field) := by
    rw [memoryTimestampHighFromCircuitSequence, guard, if_pos passes, shift, shiftLeft_eq]
    rfl
  rw [writeTimestamp, chunkWriteTimestamp, contribution]
  simp only [rowIntoTimestampLimbsForSetup, shiftLeft_eq, and_two_pow_sub_one_eq_mod,
    shiftRight_eq_div_pow]
  push_cast
  rfl

theorem timestamp_eq :
    position.timestamp = (position.row + 1) * 4 + position.accessIdx +
      2 ^ 19 * position.sequenceHigh := by
  have sequence := position.sequence_le accepted
  have shifted : timestampHighContributionFromCircuitSequence position.circuitSequence
      machine.traceLenLog2 = 2 ^ 19 * position.sequenceHigh := by
    rw [timestampHighContributionFromCircuitSequence, shiftLeft_eq, sequenceHigh]
    cases machine <;> simp only [MainMachine.traceLenLog2] <;> omega
  rw [timestamp, timestampFromChunkCycleAndSequence, shifted]
  ring

theorem writeTimestamp_val :
    ∃ limbs, position.writeTimestamp = some limbs ∧
      limbs.1.val = (position.row + 1) * 4 % 2 ^ 19 + position.accessIdx ∧
      limbs.2.val = (position.row + 1) * 4 / 2 ^ 19 + position.sequenceHigh := by
  have sequence := position.sequence_le accepted
  have row := position.row_lt
  have access := position.access_lt
  refine ⟨_, position.writeTimestamp_eq accepted, ?_, ?_⟩
  · exact Mersenne31Field.val_natCast_of_lt (by omega)
  · refine Mersenne31Field.val_natCast_of_lt ?_
    rw [sequenceHigh]
    cases machine <;> simp only [MainMachine.traceLenLog2] at row ⊢ <;> omega

end AccessPosition

variable {machine : MainMachine} {numCircuits : ℕ}

theorem timestamp_increasing (accepted : machine.Accepts numCircuits)
    {earlier later : AccessPosition machine numCircuits}
    (before : earlier.order < later.order) : earlier.timestamp < later.timestamp := by
  rw [earlier.timestamp_eq accepted, later.timestamp_eq accepted]
  have row := earlier.row_lt
  have access := earlier.access_lt
  simp only [AccessPosition.order, Prod.Lex.toLex_lt_toLex] at before
  rw [AccessPosition.sequenceHigh, AccessPosition.sequenceHigh]
  rcases before with chunk | ⟨sameChunk, cycle | ⟨sameCycle, slot⟩⟩
  · cases machine <;> simp only [MainMachine.traceLenLog2] at row ⊢ <;> omega
  · rw [sameChunk]
    omega
  · rw [sameChunk, sameCycle]
    omega

theorem timestamps_ranged_iff (accepted : machine.Accepts numCircuits) :
    (∀ position : AccessPosition machine numCircuits, ∀ limbs,
        position.writeTimestamp = some limbs → Ranged limbs) ↔
      numCircuits * 2 ^ machine.traceLenLog2 ≤ 2 ^ 36 := by
  constructor
  · intro ranged
    have positive := accepted.1
    let last : AccessPosition machine numCircuits :=
      { circuitSequence := numCircuits - 1
        row := 2 ^ machine.traceLenLog2 - 2
        accessIdx := 0
        sequence_lt := by omega
        row_lt := by cases machine <;> decide
        access_lt := by decide }
    obtain ⟨limbs, written, -, high⟩ := last.writeTimestamp_val accepted
    have bound := (ranged last limbs written).2
    rw [high, AccessPosition.sequenceHigh] at bound
    change (2 ^ machine.traceLenLog2 - 2 + 1) * 4 / 2 ^ 19 +
      (numCircuits - 1) * 2 ^ (machine.traceLenLog2 - 17) < 2 ^ 19 at bound
    cases machine <;> simp only [MainMachine.traceLenLog2] at bound ⊢ <;> omega
  · intro fits position limbs written
    obtain ⟨others, same, low, high⟩ := position.writeTimestamp_val accepted
    obtain rfl : others = limbs := Option.some.inj (same.symm.trans written)
    have row := position.row_lt
    have access := position.access_lt
    have sequence := position.sequence_lt
    rw [Ranged, low, high, AccessPosition.sequenceHigh]
    cases machine <;> simp only [MainMachine.traceLenLog2] at row fits ⊢ <;> omega

/-- All is well as long as the cycles of all chunks fit the 36 bits that the empty bits for the
access leave. -/
theorem timestamps_hold_iff (accepted : machine.Accepts numCircuits) :
    TimestampsHold machine numCircuits ↔ numCircuits * 2 ^ machine.traceLenLog2 ≤ 2 ^ 36 := by
  constructor
  · intro holds
    exact (timestamps_ranged_iff accepted).mp holds.ranged
  · intro fits
    refine ⟨fun position => ?_, fun earlier later => timestamp_increasing accepted,
      (timestamps_ranged_iff accepted).mpr fits⟩
    obtain ⟨limbs, written, low, high⟩ := position.writeTimestamp_val accepted
    refine ⟨limbs, written, ?_⟩
    rw [low, high, position.timestamp_eq accepted]
    omega

theorem timestamps_hold_base_layer : TimestampsHold .riscVCycles (2 ^ 14) :=
  (@timestamps_hold_iff .riscVCycles (2 ^ 14) ⟨by decide, by decide⟩).mpr (by decide)

/-- The last recursion machine has traces of `2^25` rows. Its verifier accepts more than `2^11`
chunks, and the high limb of the next one has 20 bits. -/
theorem timestamp_exceeds_limbs :
    MainMachine.finalReducedRiscVMachine.Accepts 2049 ∧
      ∃ position : AccessPosition .finalReducedRiscVMachine 2049, ∃ limbs,
        position.writeTimestamp = some limbs ∧ limbs.2.val = 2 ^ 19 ∧ ¬ Ranged limbs := by
  have accepted : MainMachine.finalReducedRiscVMachine.Accepts 2049 := ⟨by decide, by decide⟩
  refine ⟨accepted, ⟨2048, 0, 0, by decide, by decide, by decide⟩, ?_⟩
  obtain ⟨limbs, written, -, high⟩ := AccessPosition.writeTimestamp_val
    ⟨2048, 0, 0, by decide, by decide, by decide⟩ accepted
  have value : limbs.2.val = 2 ^ 19 := high
  exact ⟨limbs, written, value, fun ranged => absurd ranged.2 (by omega)⟩

end Airbender.Memory

import Airbender.Simulator.Delegations

/-!
# The words a delegation touches

All accesses of one delegation request carry one write timestamp, and the circuits ask each read
timestamp to be smaller than it. A request is provable only if it touches no word twice.
-/

namespace Airbender.Simulator

open Option BitVec

/-- What a delegation asserts of its two pointers before it touches memory. -/
structure PointerChecks (csr x10 x11 : Word) : Prop where
  aligned_writes : x10.toNat %
    (if csr = blake2RoundFunctionWithExtendedControlAccessId then 128 else 32) = 0
  aligned_reads : x11.toNat %
    (if csr = blake2RoundFunctionWithExtendedControlAccessId then 4 else 32) = 0
  bound_le_writes : delegationPointerBound ≤ x10
  bound_le_reads : delegationPointerBound ≤ x11
  ne : x10 ≠ x11

section

variable {M S : Type} {readWord : M → ℕ → Option Word} {writeWord : M → ℕ → Word → Option M}
variable {csr : Word} {machine after : Machine M S} {record : DelegationRecord}

theorem u256OpsWithControl_pointerChecks
    (completed : u256OpsWithControl readWord writeWord machine = some (after, record)) :
    PointerChecks u256OpsWithControlAccessId (machine.registers 10) (machine.registers 11) := by
  simp only [u256OpsWithControl, bind_eq_bind, bind_eq_some_iff, guard_eq_some'] at completed
  rcases completed with ⟨-, aligned10, -, aligned11, -, bound10, -, bound11, -, ne, -⟩
  exact ⟨aligned10, aligned11, bound10, bound11, ne⟩

theorem blake2RoundFunctionWithExtendedControl_pointerChecks
    (completed : blake2RoundFunctionWithExtendedControl readWord writeWord machine =
      some (after, record)) :
    PointerChecks blake2RoundFunctionWithExtendedControlAccessId (machine.registers 10)
      (machine.registers 11) := by
  simp only [blake2RoundFunctionWithExtendedControl, bind_eq_bind,
    bind_eq_some_iff, guard_eq_some'] at completed
  rcases completed with ⟨-, aligned10, -, aligned11, -, bound10, -, bound11, -, ne, -⟩
  exact ⟨aligned10, aligned11, bound10, bound11, ne⟩

theorem processWrite_pointerChecks
    (completed : processWrite readWord writeWord csr machine = some (after, record)) :
    PointerChecks csr (machine.registers 10) (machine.registers 11) := by
  unfold processWrite at completed
  split_ifs at completed with blake u256
  · rw [blake]
    exact blake2RoundFunctionWithExtendedControl_pointerChecks completed
  · rw [u256]
    exact u256OpsWithControl_pointerChecks completed

end

theorem mem_indirectAddresses {register address : Word} {count : ℕ} :
    address ∈ indirectAddresses register count ↔
      ∃ index < count, register + BitVec.ofNat 32 (4 * index) = address := by
  simp [indirectAddresses]

theorem toNat_add_offset {register : Word} {offset : ℕ} (fits : register.toNat + offset < 2 ^ 32) :
    (register + BitVec.ofNat 32 offset).toNat = register.toNat + offset := by
  rw [toNat_add, toNat_ofNat, Nat.add_mod_mod, Nat.mod_eq_of_lt fits]

theorem nodup_indirectAddresses (register : Word) {count : ℕ} (small : count ≤ 2 ^ 30) :
    (indirectAddresses register count).Nodup := by
  unfold indirectAddresses
  refine List.Nodup.map_on ?_ List.nodup_range
  intro left leftBound right rightBound same
  rw [List.mem_range] at leftBound rightBound
  have offsets := congrArg BitVec.toNat (add_left_cancel same)
  rw [toNat_ofNat, toNat_ofNat, Nat.mod_eq_of_lt (by omega), Nat.mod_eq_of_lt (by omega)] at offsets
  omega

theorem disjoint_indirectAddresses_iff {left right : Word} {leftCount rightCount : ℕ}
    (aligned : left.toNat % 4 = right.toNat % 4) (leftFits : left.toNat + 4 * leftCount ≤ 2 ^ 32)
    (rightFits : right.toNat + 4 * rightCount ≤ 2 ^ 32) (leftPos : 0 < leftCount)
    (rightPos : 0 < rightCount) :
    List.Disjoint (indirectAddresses left leftCount) (indirectAddresses right rightCount) ↔
      left.toNat + 4 * leftCount ≤ right.toNat ∨ right.toNat + 4 * rightCount ≤ left.toNat := by
  have meets : ∀ i < leftCount, ∀ j < rightCount, left.toNat + 4 * i = right.toNat + 4 * j →
      ¬List.Disjoint (indirectAddresses left leftCount) (indirectAddresses right rightCount) := by
    intro i leftIndex j rightIndex same disjoint
    have equal : left + BitVec.ofNat 32 (4 * i) = right + BitVec.ofNat 32 (4 * j) := by
      apply eq_of_toNat_eq
      rw [toNat_add_offset (by omega), toNat_add_offset (by omega), same]
    exact disjoint (mem_indirectAddresses.mpr ⟨i, leftIndex, rfl⟩)
      (mem_indirectAddresses.mpr ⟨j, rightIndex, equal.symm⟩)
  constructor
  · intro disjoint
    by_contra overlap
    push Not at overlap
    by_cases order : left.toNat ≤ right.toNat
    · exact meets ((right.toNat - left.toNat) / 4) (by omega) 0 rightPos (by omega) disjoint
    · exact meets 0 leftPos ((left.toNat - right.toNat) / 4) (by omega) (by omega) disjoint
  · intro apart address inLeft inRight
    rcases mem_indirectAddresses.mp inLeft with ⟨i, leftIndex, isLeft⟩
    rcases mem_indirectAddresses.mp inRight with ⟨j, rightIndex, isRight⟩
    have same := congrArg BitVec.toNat (isLeft.trans isRight.symm)
    rw [toNat_add_offset (by omega), toNat_add_offset (by omega)] at same
    omega

/-- Every access behind `x10` and `x11` goes to a word of its own, and no address wraps around. -/
structure TouchesDistinctWords (csr x10 x11 : Word) (record : DelegationRecord) : Prop where
  nodup : (record.indirectReadAddresses ++ record.indirectWriteAddresses).Nodup
  reads_fit : ∀ index < (delegationShape csr).reads, x11.toNat + 4 * index < 2 ^ 32
  writes_fit : ∀ index < (delegationShape csr).writes, x10.toNat + 4 * index < 2 ^ 32

/-- The block a Blake2s round reads ends in memory and does not meet the block it rewrites. -/
def BlakeBlocksApart (x10 x11 : Word) : Prop :=
  x11.toNat + 64 ≤ 2 ^ 32 ∧ (x11.toNat + 64 ≤ x10.toNat ∨ x10.toNat + 96 ≤ x11.toNat)

instance (x10 x11 : Word) : Decidable (BlakeBlocksApart x10 x11) := by
  unfold BlakeBlocksApart
  infer_instance

theorem delegationShape_pos (csr : Word) :
    0 < (delegationShape csr).reads ∧ 0 < (delegationShape csr).writes := by
  unfold delegationShape
  split_ifs <;> decide

theorem delegationShape_small (csr : Word) :
    (delegationShape csr).reads ≤ 2 ^ 30 ∧ (delegationShape csr).writes ≤ 2 ^ 30 := by
  unfold delegationShape
  split_ifs <;> decide

theorem touchesDistinctWords_of_addresses {csr x10 x11 : Word} {record : DelegationRecord}
    (readAddresses : record.indirectReadAddresses =
      indirectAddresses x11 (delegationShape csr).reads)
    (writeAddresses : record.indirectWriteAddresses =
      indirectAddresses x10 (delegationShape csr).writes)
    (alignedReads : x11.toNat % 4 = 0) (alignedWrites : x10.toNat % 4 = 0) :
    TouchesDistinctWords csr x10 x11 record ↔
      x11.toNat + 4 * (delegationShape csr).reads ≤ 2 ^ 32 ∧
        x10.toNat + 4 * (delegationShape csr).writes ≤ 2 ^ 32 ∧
        (x11.toNat + 4 * (delegationShape csr).reads ≤ x10.toNat ∨
          x10.toNat + 4 * (delegationShape csr).writes ≤ x11.toNat) := by
  rcases delegationShape_pos csr with ⟨readsPos, writesPos⟩
  rcases delegationShape_small csr with ⟨readsSmall, writesSmall⟩
  have aligned : x11.toNat % 4 = x10.toNat % 4 := alignedReads.trans alignedWrites.symm
  constructor
  · intro distinct
    have lastRead := distinct.reads_fit ((delegationShape csr).reads - 1) (by omega)
    have lastWrite := distinct.writes_fit ((delegationShape csr).writes - 1) (by omega)
    have readsFit : x11.toNat + 4 * (delegationShape csr).reads ≤ 2 ^ 32 := by omega
    have writesFit : x10.toNat + 4 * (delegationShape csr).writes ≤ 2 ^ 32 := by omega
    have apart := (List.nodup_append'.mp distinct.nodup).2.2
    rw [readAddresses, writeAddresses,
      disjoint_indirectAddresses_iff aligned readsFit writesFit readsPos writesPos] at apart
    exact ⟨readsFit, writesFit, apart⟩
  · intro ⟨readsFit, writesFit, apart⟩
    constructor
    · rw [readAddresses, writeAddresses, List.nodup_append']
      exact ⟨nodup_indirectAddresses _ readsSmall, nodup_indirectAddresses _ writesSmall,
        (disjoint_indirectAddresses_iff aligned readsFit writesFit readsPos writesPos).mpr apart⟩
    · intro index bound
      omega
    · intro index bound
      omega

section

variable {M S : Type} {readWord : M → ℕ → Option Word} {writeWord : M → ℕ → Word → Option M}
variable {csr : Word} {machine after : Machine M S} {record : DelegationRecord}

/-- The checks of a delegation keep the words of a 256-bit operation apart; those of a Blake2s
round do not. -/
theorem accepted_delegation_touches_distinct_words_iff
    (completed : processWrite readWord writeWord csr machine = some (after, record)) :
    TouchesDistinctWords csr (machine.registers 10) (machine.registers 11) record ↔
      (csr = blake2RoundFunctionWithExtendedControlAccessId →
        BlakeBlocksApart (machine.registers 10) (machine.registers 11)) := by
  have checks := processWrite_pointerChecks completed
  have effect := processWrite_effect completed
  have alignedWrites := checks.aligned_writes
  have alignedReads := checks.aligned_reads
  have words := touchesDistinctWords_of_addresses effect.indirectReadAddresses
    effect.indirectWriteAddresses effect.aligned_reads effect.aligned_writes
  have belowWrites := (machine.registers 10).isLt
  have belowReads := (machine.registers 11).isLt
  by_cases blake : csr = blake2RoundFunctionWithExtendedControlAccessId
  · have shape : delegationShape csr = ⟨4, 16, 24⟩ := if_pos blake
    rw [if_pos blake] at alignedWrites
    rw [words, shape]
    dsimp only [BlakeBlocksApart]
    constructor
    · intro apart _
      omega
    · intro apart
      have blocks := apart blake
      omega
  · have shape : delegationShape csr = ⟨3, 8, 8⟩ := if_neg blake
    rw [if_neg blake] at alignedWrites alignedReads
    have ne : (machine.registers 10).toNat ≠ (machine.registers 11).toNat :=
      fun same => checks.ne (eq_of_toNat_eq same)
    rw [words, shape]
    dsimp only
    constructor
    · intro _ isBlake
      exact absurd isBlake blake
    · intro _
      omega

end

def blakeRoundAt (x11 : Word) : Machine VectorMemoryImplWithRom ZeroedSource :=
  oneInstruction 0 fun register =>
    if register = 10 then delegationPointerBound
    else if register = 11 then x11
    else if register = 12 then 1
    else 0

theorem separate_blocks_touch_distinct_words :
    ∃ after record, processWrite MemorySource.getNoexcept MemorySource.setNoexcept
        blake2RoundFunctionWithExtendedControlAccessId
        (blakeRoundAt (delegationPointerBound + 96)) = some (after, record) ∧
      TouchesDistinctWords blake2RoundFunctionWithExtendedControlAccessId delegationPointerBound
        (delegationPointerBound + 96) record := by
  have accepted : (processWrite MemorySource.getNoexcept MemorySource.setNoexcept
      blake2RoundFunctionWithExtendedControlAccessId
      (blakeRoundAt (delegationPointerBound + 96))).isSome = true := by decide +kernel
  rcases isSome_iff_exists.mp accepted with ⟨⟨after, record⟩, completed⟩
  have distinct := (accepted_delegation_touches_distinct_words_iff completed).mpr
    (fun _ => by decide)
  exact ⟨after, record, completed, distinct⟩

/-- An input that starts at the second word of the state is accepted. -/
theorem overlapping_blocks_accepted :
    ∃ after record, processWrite MemorySource.getNoexcept MemorySource.setNoexcept
        blake2RoundFunctionWithExtendedControlAccessId
        (blakeRoundAt (delegationPointerBound + 4)) = some (after, record) ∧
      ¬TouchesDistinctWords blake2RoundFunctionWithExtendedControlAccessId delegationPointerBound
        (delegationPointerBound + 4) record := by
  have accepted : (processWrite MemorySource.getNoexcept MemorySource.setNoexcept
      blake2RoundFunctionWithExtendedControlAccessId
      (blakeRoundAt (delegationPointerBound + 4))).isSome = true := by decide +kernel
  rcases isSome_iff_exists.mp accepted with ⟨⟨after, record⟩, completed⟩
  have effect := processWrite_effect completed
  refine ⟨after, record, completed, ?_⟩
  intro distinct
  have apart := (touchesDistinctWords_of_addresses effect.indirectReadAddresses
    effect.indirectWriteAddresses (by decide) (by decide)).mp distinct
  exact absurd apart (by decide)

end Airbender.Simulator

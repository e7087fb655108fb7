import Airbender.Field.Mersenne31
import Airbender.Lib.PaddedOrder

/-!
# Lazy initialisation of memory

A row may initialise one memory word and record its final value. Auxiliary columns order the
addresses of consecutive rows; rows that are not followed by a larger address are padding, whose
records cancel.
-/

namespace Airbender.Memory

open Mersenne31Field PaddedOrder List

/-- The lazy-init and teardown columns of one row with the auxiliary columns of the comparison. -/
structure LazyInitRow where
  initAddress : Mersenne31Field × Mersenne31Field
  teardownValue : Mersenne31Field × Mersenne31Field
  teardownTimestamp : Mersenne31Field × Mersenne31Field
  aux : Mersenne31Field × Mersenne31Field
  intermediateBorrow : Mersenne31Field
  finalBorrow : Mersenne31Field
deriving DecidableEq

namespace LazyInitRow

/-- The columns that a row without final borrow must leave at zero. -/
def recordColumns (row : LazyInitRow) : List Mersenne31Field :=
  [row.initAddress.1, row.initAddress.2, row.teardownValue.1, row.teardownValue.2,
    row.teardownTimestamp.1, row.teardownTimestamp.2]

/-- The constraints inside one row: range checks, Boolean columns and the padding rule. -/
structure RowConstraints (row : LazyInitRow) : Prop where
  addressRange : row.initAddress.1.val < 2 ^ 16 ∧ row.initAddress.2.val < 2 ^ 16
  auxRange : row.aux.1.val < 2 ^ 16 ∧ row.aux.2.val < 2 ^ 16
  intermediateBoolean : (1 - row.intermediateBorrow) * row.intermediateBorrow = 0
  finalBoolean : (1 - row.finalBorrow) * row.finalBorrow = 0
  paddingRule : ∀ column ∈ row.recordColumns, (row.finalBorrow - 1) * column = 0

/-- The constraints between a row and the next one: the subtraction of the addresses by limbs. -/
structure SortingConstraints (this next : LazyInitRow) : Prop where
  low : 2 ^ 16 * this.intermediateBorrow + this.initAddress.1 - next.initAddress.1
    - this.aux.1 = 0
  high : 2 ^ 16 * this.finalBorrow + this.initAddress.2 - this.intermediateBorrow
    - next.initAddress.2 - this.aux.2 = 0

def address (row : LazyInitRow) : ℕ := row.initAddress.1.val + 2 ^ 16 * row.initAddress.2.val

/-- A record whose initial and final parts cancel. -/
def IsPadding (row : LazyInitRow) : Prop := ∀ column ∈ row.recordColumns, column = 0

instance : DecidablePred IsPadding := fun row =>
  inferInstanceAs (Decidable (∀ column ∈ row.recordColumns, column = 0))

theorem address_of_isPadding {row : LazyInitRow} (padded : row.IsPadding) : row.address = 0 := by
  have low := padded row.initAddress.1 (by simp [recordColumns])
  have high := padded row.initAddress.2 (by simp [recordColumns])
  simp [address, low, high]

theorem follows_of_constraints {this next : LazyInitRow} (row : this.RowConstraints)
    (nextRow : next.RowConstraints) (sorting : SortingConstraints this next) :
    Follows address IsPadding this next := by
  obtain ⟨finalFlag, finalValue⟩ := (boolean_iff this.finalBorrow).mp row.finalBoolean
  obtain ⟨lowFlag, lowValue⟩ := (boolean_iff this.intermediateBorrow).mp row.intermediateBoolean
  cases finalFlag with
  | false =>
    refine Or.inr fun column member => ?_
    have rule := row.paddingRule column member
    rw [← finalValue, bit_false] at rule
    simpa using rule
  | true =>
    have lowBound := lowFlag.toNat_lt
    obtain ⟨thisLow, thisLowBound, thisLowCast⟩ := exists_nat row.addressRange.1
    obtain ⟨thisHigh, thisHighBound, thisHighCast⟩ := exists_nat row.addressRange.2
    obtain ⟨nextLow, nextLowBound, nextLowCast⟩ := exists_nat nextRow.addressRange.1
    obtain ⟨nextHigh, nextHighBound, nextHighCast⟩ := exists_nat nextRow.addressRange.2
    obtain ⟨auxLow, auxLowBound, auxLowCast⟩ := exists_nat row.auxRange.1
    obtain ⟨auxHigh, auxHighBound, auxHighCast⟩ := exists_nat row.auxRange.2
    have lowSum : 2 ^ 16 * lowFlag.toNat + thisLow = nextLow + auxLow := by
      apply nat_eq
      · have low := sorting.low
        rw [thisLowCast, nextLowCast, auxLowCast, ← lowValue, bit_eq_natCast] at low
        push_cast
        linear_combination low
      · omega
      · omega
    have highSum : 2 ^ 16 + thisHigh = lowFlag.toNat + nextHigh + auxHigh := by
      apply nat_eq
      · have high := sorting.high
        rw [thisHighCast, nextHighCast, auxHighCast, ← lowValue, ← finalValue, bit_true,
          bit_eq_natCast] at high
        push_cast
        linear_combination high
      · omega
      · omega
    refine Or.inl ?_
    rw [address, address, thisLowCast, thisHighCast, nextLowCast, nextHighCast,
      val_natCast_of_lt (by omega), val_natCast_of_lt (by omega), val_natCast_of_lt (by omega),
      val_natCast_of_lt (by omega)]
    omega

theorem follows_in_chunk {rows : List LazyInitRow} (allRows : ∀ row ∈ rows, row.RowConstraints)
    (sorting : rows.IsChain SortingConstraints) : rows.IsChain (Follows address IsPadding) := by
  induction rows with
  | nil => exact List.IsChain.nil
  | cons row rest ih =>
    obtain ⟨next, restSorting⟩ := isChain_cons.mp sorting
    refine isChain_cons.mpr ⟨fun following member => ?_,
      ih (fun other inRest => allRows other (mem_cons_of_mem _ inRest)) restSorting⟩
    exact follows_of_constraints (allRows row mem_cons_self)
      (allRows following (mem_cons_of_mem _ (mem_of_mem_head? member)))
      (next following member)

/-- A row without its auxiliary columns. -/
def cleared (row : LazyInitRow) : LazyInitRow :=
  { row with aux := 0, intermediateBorrow := 0, finalBorrow := 0 }

def InRange (row : LazyInitRow) : Prop :=
  row.initAddress.1.val < 2 ^ 16 ∧ row.initAddress.2.val < 2 ^ 16

theorem exists_borrow {left right : ℕ} (leftBound : left < 2 ^ 16) (rightBound : right ≤ 2 ^ 16) :
    ∃ (flag : Bool) (aux : ℕ), aux < 2 ^ 16 ∧ 2 ^ 16 * flag.toNat + left = right + aux := by
  by_cases below : left < right
  · exact ⟨true, 2 ^ 16 + left - right, by omega, by rw [Bool.toNat_true]; omega⟩
  · exact ⟨false, left - right, by omega, by rw [Bool.toNat_false]; omega⟩

theorem exists_constrained {row next : LazyInitRow} (range : row.InRange)
    (nextRange : next.InRange) (follows : Follows address IsPadding row next) :
    ∃ filled, filled.cleared = row.cleared ∧ filled.RowConstraints ∧
      ∀ other, other.initAddress = next.initAddress → SortingConstraints filled other := by
  obtain ⟨lowFlag, auxLow, lowBound, low⟩ := exists_borrow range.1 nextRange.1.le
  have carried : lowFlag.toNat + next.initAddress.2.val ≤ 2 ^ 16 := by
    have := lowFlag.toNat_lt
    have := nextRange.2
    omega
  obtain ⟨flag, auxHigh, highBound, high⟩ := exists_borrow range.2 carried
  refine ⟨{ row with
      aux := (auxLow, auxHigh), intermediateBorrow := bit lowFlag, finalBorrow := bit flag },
    rfl, ⟨range, ?_, ?_, ?_, ?_⟩, ?_⟩
  · rw [val_natCast_of_lt (by omega), val_natCast_of_lt (by omega)]
    exact ⟨lowBound, highBound⟩
  · exact (boolean_iff _).mpr ⟨lowFlag, rfl⟩
  · exact (boolean_iff _).mpr ⟨flag, rfl⟩
  · intro column member
    cases flag with
    | true => simp
    | false =>
      -- Without a borrow the next address is not above this one.
      have padded : row.IsPadding := by
        apply follows.resolve_left
        rw [Bool.toNat_false] at high
        unfold address
        omega
      rw [padded column member, mul_zero]
  · intro other same
    have lowCast := congrArg (Nat.cast (R := Mersenne31Field)) low
    have highCast := congrArg (Nat.cast (R := Mersenne31Field)) high
    push_cast [ZMod.natCast_zmod_val, ← bit_eq_natCast, ← same] at lowCast highCast
    constructor
    · linear_combination lowCast
    · linear_combination highCast

theorem exists_constrained_rows {rows : List LazyInitRow} (ranges : ∀ row ∈ rows, row.InRange)
    (ordered : rows.IsChain (Follows address IsPadding)) :
    ∃ filled : List LazyInitRow, filled.map cleared = rows.map cleared ∧
      (∀ row ∈ filled, row.RowConstraints) ∧ filled.IsChain SortingConstraints := by
  induction rows with
  | nil => exact ⟨[], rfl, by simp, .nil⟩
  | cons row rest ih =>
    obtain ⟨range, restRanges⟩ := forall_mem_cons.mp ranges
    obtain ⟨filled, same, constrained, sorted⟩ := ih restRanges (isChain_cons.mp ordered).2
    cases rest with
    | nil =>
      cases map_eq_nil_iff.mp same
      refine ⟨[{ row.cleared with finalBorrow := 1 }], rfl, ?_, .singleton _⟩
      simp only [mem_singleton, forall_eq]
      exact ⟨range, by simp [cleared], by simp [cleared], by simp, by simp⟩
    | cons next rest =>
      obtain ⟨head, tail, rfl, sameHead, -⟩ := map_eq_cons_iff.mp same
      have nextAddress := congrArg initAddress sameHead
      obtain ⟨first, sameFirst, rowConstraints, sorting⟩ := exists_constrained range
        (restRanges next mem_cons_self) (isChain_cons_cons.mp ordered).1
      refine ⟨first :: head :: tail, ?_, forall_mem_cons.mpr ⟨rowConstraints, constrained⟩,
        isChain_cons_cons.mpr ⟨sorting head nextAddress, sorted⟩⟩
      rw [map_cons, same, sameFirst, ← map_cons]

/-- The auxiliary columns can be filled exactly if padding is followed by increasing addresses. -/
theorem lazyInit_rows_iff (rows : List LazyInitRow) :
    (∃ filled : List LazyInitRow, filled.map cleared = rows.map cleared ∧
      (∀ row ∈ filled, row.RowConstraints) ∧ filled.IsChain SortingConstraints) ↔
    (∀ row ∈ rows, row.InRange) ∧ rows.IsChain (Follows address IsPadding) := by
  constructor
  · intro ⟨filled, same, constrained, sorted⟩
    have ranges : ∀ row ∈ filled.map cleared, row.InRange :=
      forall_mem_map.mpr fun row member => (constrained row member).addressRange
    have ordered : (filled.map cleared).IsChain (Follows address IsPadding) :=
      (isChain_map cleared).mpr (follows_in_chunk constrained sorted)
    rw [same] at ranges ordered
    exact ⟨(forall_mem_map (f := cleared)).mp ranges, (isChain_map cleared).mp ordered⟩
  · intro ⟨ranges, ordered⟩
    exact exists_constrained_rows ranges ordered

end LazyInitRow

end Airbender.Memory

import Airbender.Field.Mersenne31

/-!
# Memory accesses and their timestamps

Main circuits access registers and RAM in three slots; delegation circuits access registers and the
words their values point to. An access consumes the record of an earlier write and produces a new
one, and compiled expressions of 19 bits order the timestamps.
-/

namespace Airbender.Memory

open Mersenne31Field

/-- A tuple of the memory argument; words and timestamps are held in two limbs. -/
structure MemoryRecord where
  isRegister : Mersenne31Field
  address : Mersenne31Field × Mersenne31Field
  timestamp : Mersenne31Field × Mersenne31Field
  value : Mersenne31Field × Mersenne31Field
deriving DecidableEq

abbrev Location := Mersenne31Field × Mersenne31Field × Mersenne31Field

namespace MemoryRecord

def location (record : MemoryRecord) : Location := (record.isRegister, record.address)

def time (record : MemoryRecord) : ℕ := record.timestamp.1.val + 2 ^ 19 * record.timestamp.2.val

end MemoryRecord

def Ranged (timestamp : Mersenne31Field × Mersenne31Field) : Prop :=
  timestamp.1.val < 2 ^ 19 ∧ timestamp.2.val < 2 ^ 19

/-- The high limb may exceed 19 bits, but differences of 19 bits do not wrap around the field. -/
def Comparable (timestamp : Mersenne31Field × Mersenne31Field) : Prop :=
  timestamp.1.val < 2 ^ 19 ∧ timestamp.2.val < 2 ^ 29

theorem comparable_zero : Comparable (0, 0) := ⟨by decide, by decide⟩

def rowIntoTimestampLimbsForSetup (row : ℕ) : ℕ × ℕ :=
  let timestamp := (row + 1) <<< 2
  (timestamp &&& (2 ^ 19 - 1), timestamp >>> 19)

/-- The row of a main circuit in the sequence of circuits, of which the verifier accepts at most
`2^14`. The last row of a trace is not in use, and evaluation domains have at most `2^31` points. -/
structure Cycle where
  traceLenLog2 : ℕ
  circuitSequence : ℕ
  row : ℕ
  traceLen_ge : 17 ≤ traceLenLog2
  traceLen_le : traceLenLog2 ≤ 31
  row_lt : row < 2 ^ traceLenLog2 - 1
  sequence_lt : circuitSequence < 2 ^ 14
deriving DecidableEq

namespace Cycle

def memoryTimestampHighFromCircuitIdx (cycle : Cycle) : Mersenne31Field :=
  ((cycle.circuitSequence <<< (cycle.traceLenLog2 + 2 - 19) : ℕ) : Mersenne31Field)

def setupTimestamp (cycle : Cycle) : Mersenne31Field × Mersenne31Field :=
  let limbs := rowIntoTimestampLimbsForSetup cycle.row
  ((limbs.1 : Mersenne31Field), (limbs.2 : Mersenne31Field))

def writeTimestamp (cycle : Cycle) (accessIdx : ℕ) : Mersenne31Field × Mersenne31Field :=
  (cycle.setupTimestamp.1 + (accessIdx : Mersenne31Field),
    cycle.setupTimestamp.2 + cycle.memoryTimestampHighFromCircuitIdx)

theorem writeTimestamp_comparable (cycle : Cycle) {accessIdx : ℕ} (slot : accessIdx < 4) :
    Comparable (cycle.writeTimestamp accessIdx) := by
  obtain ⟨shift, shiftSum⟩ : ∃ shift, cycle.traceLenLog2 = shift + 17 :=
    ⟨cycle.traceLenLog2 - 17, by have := cycle.traceLen_ge; omega⟩
  have shiftBound : 2 ^ shift ≤ 2 ^ 14 := by
    have := cycle.traceLen_le
    exact Nat.pow_le_pow_right (by omega) (by omega)
  have row := cycle.row_lt
  have sameShift : shift + 17 + 2 - 19 = shift := by omega
  rw [shiftSum, pow_add] at row
  have sequenceBound : cycle.circuitSequence * 2 ^ shift ≤ 2 ^ 14 * 2 ^ 14 :=
    Nat.mul_le_mul cycle.sequence_lt.le shiftBound
  have rowBound : (cycle.row + 1) * 2 ^ 2 / 2 ^ 19 < 2 ^ shift := by
    rw [Nat.div_lt_iff_lt_mul (by decide)]
    omega
  refine ⟨?_, ?_⟩
  · have low : (cycle.writeTimestamp accessIdx).1 =
        (((cycle.row + 1) * 2 ^ 2 % 2 ^ 19 + accessIdx : ℕ) : Mersenne31Field) := by
      simp only [writeTimestamp, setupTimestamp, rowIntoTimestampLimbsForSetup,
        Nat.shiftLeft_eq, Nat.and_two_pow_sub_one_eq_mod]
      push_cast
      rfl
    rw [low, val_natCast_of_lt (by omega)]
    omega
  · have high : (cycle.writeTimestamp accessIdx).2 = (((cycle.row + 1) * 2 ^ 2 / 2 ^ 19
        + cycle.circuitSequence * 2 ^ shift : ℕ) : Mersenne31Field) := by
      simp only [writeTimestamp, setupTimestamp, rowIntoTimestampLimbsForSetup,
        memoryTimestampHighFromCircuitIdx, shiftSum, sameShift, Nat.shiftLeft_eq,
        Nat.shiftRight_eq_div_pow]
      push_cast
      rfl
    rw [high, val_natCast_of_lt (by omega)]
    omega

end Cycle

inductive ShuffleRamAddress where
  | registerOnly (registerIndex : Mersenne31Field)
  | registerOrRam (isRegister : Mersenne31Field) (address : Mersenne31Field × Mersenne31Field)
deriving DecidableEq

/-- An access slot of the main circuit. Read-only queries have no column for a written value and
write back what they read. -/
structure ShuffleRamQuery where
  localTimestampInCycle : Fin 3
  address : ShuffleRamAddress
  readTimestamp : Mersenne31Field × Mersenne31Field
  readValue : Mersenne31Field × Mersenne31Field
  writeValue : Option (Mersenne31Field × Mersenne31Field)
  borrow : Mersenne31Field
deriving DecidableEq

/-- The columns of a delegation circuit that all accesses of a row share. -/
structure DelegationRow where
  execute : Mersenne31Field
  writeTimestamp : Mersenne31Field × Mersenne31Field
deriving DecidableEq

/-- Registers are fixed by the circuit. A word is addressed by the value of a register and a
constant offset; aligned pointers need no carry. -/
inductive DelegationAddress where
  | register (registerIndex : ℕ)
  | indirect (base : Mersenne31Field × Mersenne31Field) (offset : ℕ)
      (carry : Option Mersenne31Field)
deriving DecidableEq

structure DelegationQuery where
  address : DelegationAddress
  readTimestamp : Mersenne31Field × Mersenne31Field
  readValue : Mersenne31Field × Mersenne31Field
  writeValue : Option (Mersenne31Field × Mersenne31Field)
  borrow : Mersenne31Field
deriving DecidableEq

inductive Access where
  | shuffleRam (cycle : Cycle) (query : ShuffleRamQuery)
  | delegation (row : DelegationRow) (query : DelegationQuery)
deriving DecidableEq

namespace Access

/-- Address columns of the record: the register flag and two limbs. -/
def location : Access → Location
  | shuffleRam _ query =>
    match query.address with
    | .registerOnly registerIndex => (1, registerIndex, 0)
    | .registerOrRam isRegister address => (isRegister, address)
  | delegation _ query =>
    match query.address with
    | .register registerIndex => (1, (registerIndex : Mersenne31Field), 0)
    | .indirect base offset none => (0, base.1 + (offset : Mersenne31Field), base.2)
    | .indirect base offset (some carry) =>
      (0, base.1 - 2 ^ 16 * carry + (offset : Mersenne31Field), base.2 + carry)

def readTimestamp : Access → Mersenne31Field × Mersenne31Field
  | shuffleRam _ query => query.readTimestamp
  | delegation _ query => query.readTimestamp

def readValue : Access → Mersenne31Field × Mersenne31Field
  | shuffleRam _ query => query.readValue
  | delegation _ query => query.readValue

def writeValue : Access → Mersenne31Field × Mersenne31Field
  | shuffleRam _ query => query.writeValue.getD query.readValue
  | delegation _ query => query.writeValue.getD query.readValue

def writeTimestamp : Access → Mersenne31Field × Mersenne31Field
  | shuffleRam cycle query => cycle.writeTimestamp query.localTimestampInCycle
  | delegation row _ => row.writeTimestamp

def read (access : Access) : MemoryRecord :=
  { isRegister := access.location.1
    address := access.location.2
    timestamp := access.readTimestamp
    value := access.readValue }

def written (access : Access) : MemoryRecord :=
  { isRegister := access.location.1
    address := access.location.2
    timestamp := access.writeTimestamp
    value := access.writeValue }

def borrow : Access → Mersenne31Field
  | shuffleRam _ query => query.borrow
  | delegation _ query => query.borrow

def timestampLowExpression : Access → Mersenne31Field
  | shuffleRam cycle query =>
    2 ^ 19 * query.borrow + query.readTimestamp.1 - cycle.setupTimestamp.1
      - ((query.localTimestampInCycle : ℕ) : Mersenne31Field)
  | delegation row query => 2 ^ 19 * query.borrow + query.readTimestamp.1 - row.writeTimestamp.1

/-- The compiled comparison of the high limbs. In the main circuit the contribution of the
circuit index is subtracted when the expression is evaluated. -/
def timestampHighExpression : Access → Mersenne31Field
  | shuffleRam cycle query =>
    query.readTimestamp.2 - cycle.setupTimestamp.2 - query.borrow + 2 ^ 19
      - cycle.memoryTimestampHighFromCircuitIdx
  | delegation row query =>
    2 ^ 19 * row.execute + query.readTimestamp.2 - row.writeTimestamp.2 - query.borrow

/-- Rows of a delegation circuit without request are padding. -/
def Performed : Access → Prop
  | shuffleRam _ _ => True
  | delegation row _ => row.execute = 1

instance : DecidablePred Performed
  | shuffleRam _ _ => .isTrue trivial
  | delegation row _ => inferInstanceAs (Decidable (row.execute = 1))

def conventionColumns (row : DelegationRow) (query : DelegationQuery) : List Mersenne31Field :=
  [row.writeTimestamp.1, row.writeTimestamp.2, query.readTimestamp.1, query.readTimestamp.2,
    query.readValue.1, query.readValue.2] ++
    (query.writeValue.map fun value => [value.1, value.2]).getD []

def Conventions : Access → Prop
  | shuffleRam _ _ => True
  | delegation row query => row.execute * (row.execute - 1) = 0 ∧
      ∀ column ∈ conventionColumns row query, (row.execute - 1) * column = 0

/-- What the circuits enforce on an access: a Boolean borrow, the range checks of the two
comparisons and the conventions for padding. -/
structure Constraints (access : Access) : Prop where
  borrowBoolean : (1 - access.borrow) * access.borrow = 0
  lowRange : access.timestampLowExpression.val < 2 ^ 19
  highRange : access.timestampHighExpression.val < 2 ^ 19
  conventions : access.Conventions

/-- The delegation argument: a processed request was made by a row of a main circuit, whose
fourth timestamp it carries. -/
def Requested : Access → Prop
  | shuffleRam _ _ => True
  | delegation row _ =>
    row.execute = 1 → ∃ cycle : Cycle, row.writeTimestamp = cycle.writeTimestamp 3

theorem location_written (access : Access) : access.written.location = access.read.location := rfl

variable {access : Access}

theorem written_comparable (performed : access.Performed) (requested : access.Requested) :
    Comparable access.written.timestamp := by
  cases access with
  | shuffleRam cycle query =>
    exact cycle.writeTimestamp_comparable (by have := query.localTimestampInCycle.isLt; omega)
  | delegation row query =>
    obtain ⟨cycle, same⟩ := requested performed
    change Comparable row.writeTimestamp
    rw [same]
    exact cycle.writeTimestamp_comparable (by decide)

theorem expressions_eq (performed : access.Performed) :
    access.timestampLowExpression =
      2 ^ 19 * access.borrow + access.read.timestamp.1 - access.written.timestamp.1 ∧
    access.timestampHighExpression =
      2 ^ 19 + access.read.timestamp.2 - access.written.timestamp.2 - access.borrow := by
  cases access with
  | shuffleRam cycle query =>
    constructor
    · simp only [timestampLowExpression, borrow, read, written, readTimestamp, writeTimestamp,
        Cycle.writeTimestamp]
      ring
    · simp only [timestampHighExpression, borrow, read, written, readTimestamp, writeTimestamp,
        Cycle.writeTimestamp]
      ring
  | delegation row query =>
    have execute : row.execute = 1 := performed
    refine ⟨rfl, ?_⟩
    simp only [timestampHighExpression, execute, mul_one]
    rfl

theorem forward (constraints : access.Constraints) (performed : access.Performed)
    (readComparable : Comparable access.read.timestamp)
    (writtenComparable : Comparable access.written.timestamp) :
    access.read.time < access.written.time := by
  obtain ⟨lowSame, highSame⟩ := expressions_eq performed
  obtain ⟨flag, flagValue⟩ := (boolean_iff access.borrow).mp constraints.borrowBoolean
  have flagBound := flag.toNat_lt
  obtain ⟨low, lowBound, lowCast⟩ := exists_nat constraints.lowRange
  obtain ⟨high, highBound, highCast⟩ := exists_nat constraints.highRange
  obtain ⟨readLow, readLowBound, readLowCast⟩ := exists_nat readComparable.1
  obtain ⟨readHigh, readHighBound, readHighCast⟩ := exists_nat readComparable.2
  obtain ⟨writtenLow, writtenLowBound, writtenLowCast⟩ := exists_nat writtenComparable.1
  obtain ⟨writtenHigh, writtenHighBound, writtenHighCast⟩ := exists_nat writtenComparable.2
  have lowSum : low + writtenLow = 2 ^ 19 * flag.toNat + readLow := by
    apply nat_eq
    · rw [lowCast, ← flagValue, bit_eq_natCast, readLowCast, writtenLowCast] at lowSame
      push_cast
      linear_combination lowSame
    · omega
    · omega
  have highSum : high + writtenHigh + flag.toNat = 2 ^ 19 + readHigh := by
    apply nat_eq
    · rw [highCast, ← flagValue, bit_eq_natCast, readHighCast, writtenHighCast] at highSame
      push_cast
      linear_combination highSame
    · omega
    · omega
  rw [MemoryRecord.time, MemoryRecord.time, readLowCast, readHighCast, writtenLowCast,
    writtenHighCast, val_natCast_of_lt (by omega), val_natCast_of_lt (by omega),
    val_natCast_of_lt (by omega), val_natCast_of_lt (by omega)]
  omega

theorem read_eq_written (constraints : access.Constraints) (padded : ¬ access.Performed) :
    access.read = access.written := by
  cases access with
  | shuffleRam cycle query => exact absurd trivial padded
  | delegation row query =>
    have notOne : row.execute - 1 ≠ 0 := fun one => padded (sub_eq_zero.mp one)
    have zero : ∀ column ∈ conventionColumns row query, column = 0 := fun column member =>
      (mul_eq_zero.mp (constraints.conventions.2 column member)).resolve_left notOne
    have sameTimestamp : query.readTimestamp = row.writeTimestamp := by
      apply Prod.ext
      · rw [zero query.readTimestamp.1 (by simp [conventionColumns]),
          zero row.writeTimestamp.1 (by simp [conventionColumns])]
      · rw [zero query.readTimestamp.2 (by simp [conventionColumns]),
          zero row.writeTimestamp.2 (by simp [conventionColumns])]
    have sameValue : query.readValue = query.writeValue.getD query.readValue := by
      cases written : query.writeValue with
      | none => rfl
      | some value =>
        apply Prod.ext
        · rw [zero query.readValue.1 (by simp [conventionColumns]), Option.getD_some,
            zero value.1 (by simp [conventionColumns, written])]
        · rw [zero query.readValue.2 (by simp [conventionColumns]), Option.getD_some,
            zero value.2 (by simp [conventionColumns, written])]
    simp only [read, Access.written, readTimestamp, writeTimestamp, readValue, writeValue,
      sameTimestamp, ← sameValue]

end Access

end Airbender.Memory

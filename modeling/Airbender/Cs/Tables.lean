import Airbender.Cs.Gadgets

/-!
# Lookup tables

A table is the test whether it has a row. A generated table lists its key columns first and fills
the rest with values that are computed from the reduced keys. Tables that depend on the machine are
supplied by the `TableDriver`.
-/

namespace Airbender.Cs

open CircuitLib Circuit Mersenne31Field

/-- The identifiers of fixed tables, in the order of their table ids. -/
inductive TableType where
  | zeroEntry
  | opTypeBitmask
  | powersOf2
  | insnEncodingChecker
  | xor
  | csrBitmask
  | or
  | and
  | rangeCheckSmall
  | rangeCheckLarge
  | andNot
  | quickDecodeDecompositionCheck4x4x4
  | quickDecodeDecompositionCheck7x3x6
  | mRetProcessLow
  | mRetClearHigh
  | trapProcessLow
  | u16GetSignAndHighByte
  | jumpCleanupOffset
  | memoryOffsetGetBits
  | memoryLoadGetSigns
  | sraSignFiller
  | conditionalOpUnsignedConditionsResolver
  | conditionalOpAllConditionsResolver
  | romAddressSpaceSeparator
  | romRead
  | specialCSRProperties
  | xor3
  | xor4
  | xor7
  | xor9
  | xor12
  | u16SplitAsBytes
  | rangeCheck9x9
  | rangeCheck10x10
  | rangeCheck11
  | rangeCheck12
  | rangeCheck13
  | shiftImplementation
  | u16SelectByteAndGetByteSign
  | extendLoadedValue
  | storeByteSourceContribution
  | storeByteExistingContribution
  | truncateShift
  | extractLower5Bits
  | dynamicPlaceholder
deriving DecidableEq

namespace TableType

def toTableId (table : TableType) : ℕ := table.ctorIdx

/-- `TOTAL_NUM_OF_TABLES`, which does not count the placeholder. -/
def totalNumOfTables : ℕ := dynamicPlaceholder.toTableId

/-- `get_table_from_id`; from the id of the placeholder on there is none. -/
def getTableFromId (id : ℕ) : Option TableType :=
  if id < totalNumOfTables then some (ofNat id) else none

def toNum (table : TableType) : Num := .constant (table.toTableId : F)

end TableType

structure Row where
  first : F
  second : F
  third : F
deriving DecidableEq

def oneKeyTable (width : ℕ) (values : ℕ → ℕ × ℕ) (row : Row) : Bool :=
  decide (row.first.val < 2 ^ width) &&
    decide (row.second = ((values row.first.val).1 : F)) &&
    decide (row.third = ((values row.first.val).2 : F))

theorem oneKeyTable_iff (width : ℕ) (values : ℕ → ℕ × ℕ) (row : Row) :
    oneKeyTable width values row = true ↔
      row.first.val < 2 ^ width ∧ row.second = ((values row.first.val).1 : F) ∧
        row.third = ((values row.first.val).2 : F) := by
  simp [oneKeyTable, and_assoc]

def u16GetSignAndHighByteTable : Row → Bool :=
  oneKeyTable 16 fun a => (a >>> 15, a >>> 8)

def zeroEntryTable (row : Row) : Bool := decide (row = ⟨0, 0, 0⟩)

abbrev TableDriver := TableType → Row → Bool

def TableDriver.containsId (tables : TableDriver) (id : F) (row : Row) : Bool :=
  match TableType.getTableFromId id.val with
  | some table => tables table row
  | none => false

def enforceLookupTupleForFixedTable (tables : TableDriver) (row : Row) (table : TableType) :
    Assembly Unit :=
  require (tables table row)

def enforceLookupTupleForVariableTable (tables : TableDriver) (row : Row) (tableId : F) :
    Assembly Unit :=
  require (tables.containsId tableId row)

/-- One key, two fresh output variables constrained to the row of the key. -/
def getVariablesFromLookupConstrained (tables : TableDriver) (input : F) (table : TableType) :
    Assembly (F × F) := do
  let first ← addVariable
  let second ← addVariable
  enforceLookupTupleForFixedTable tables ⟨input, first, second⟩ table
  pure (first, second)

variable (tables : TableDriver) (word : BitVec 32)

@[simp] theorem yields_enforceLookupTupleForFixedTable (row : Row)
    (table : TableType) (result : Unit) :
    (enforceLookupTupleForFixedTable tables row table).Yields result ↔
      tables table row = true := by
  simp [enforceLookupTupleForFixedTable]

@[simp] theorem yields_enforceLookupTupleForVariableTable (row : Row)
    (tableId : F) (result : Unit) :
    (enforceLookupTupleForVariableTable tables row tableId).Yields result ↔
      tables.containsId tableId row = true := by
  simp [enforceLookupTupleForVariableTable]

@[simp] theorem yields_getVariablesFromLookupConstrained (input : F)
    (table : TableType) (result : F × F) :
    (getVariablesFromLookupConstrained tables input table).Yields result ↔
      tables table ⟨input, result.1, result.2⟩ = true := by
  simp [getVariablesFromLookupConstrained, Prod.ext_iff]

structure RegisterDecomposition where
  u16Limbs : Register
  byte0 : Num
  byte1 : Num
  byte2 : Num
  byte3 : Num

def RegisterDecomposition.parseReg (register : Register) : Assembly RegisterDecomposition := do
  let byte0 ← addVariableWithRangeCheck 8
  let byte1 ← addVariableWithRangeCheck 8
  let byte2 ← addVariableWithRangeCheck 8
  let byte3 ← addVariableWithRangeCheck 8
  addConstraint (byte1.value * 2 ^ 8 + byte0.value - register.low.value)
  addConstraint (byte3.value * 2 ^ 8 + byte2.value - register.high.value)
  pure ⟨register, byte0, byte1, byte2, byte3⟩

def wordByte (word : BitVec 32) (index : ℕ) : ℕ := word.toNat / 256 ^ index % 256

theorem wordByte_lt (index : ℕ) : wordByte word index < 256 :=
  Nat.mod_lt _ (by omega)

def RegisterDecomposition.ofWord (word : BitVec 32) : RegisterDecomposition where
  u16Limbs := .ofWord word
  byte0 := .var (wordByte word 0 : F)
  byte1 := .var (wordByte word 1 : F)
  byte2 := .var (wordByte word 2 : F)
  byte3 := .var (wordByte word 3 : F)

/-- An operand of the decoder together with its sign bit. The low byte of the low limb is not
range checked here; every use of it goes through a table. -/
structure RegisterDecompositionWithSign where
  u16Limbs : Register
  lowWordUnconstrainedDecomposition : F × F
  highWordDecomposition : F × F
  signBit : Boolean

def RegisterDecompositionWithSign.parseReg (tables : TableDriver) (register : Register) :
    Assembly RegisterDecompositionWithSign := do
  let byte0 ← addVariable
  let byte1 := (register.low.value - byte0) * (2 ^ 8)⁻¹
  let (sign, byte3) ← getVariablesFromLookupConstrained tables (← register.high.getVariable)
    .u16GetSignAndHighByte
  let byte2 := register.high.value - byte3 * 2 ^ 8
  pure ⟨register, (byte0, byte1), (byte2, byte3), .is sign⟩

theorem bytes_of_limb {limb byte0 byte1 : ℕ} (limbBound : limb < 2 ^ 16)
    (bound0 : byte0 < 2 ^ 8) (bound1 : byte1 < 2 ^ 8) :
    (byte1 : F) * 2 ^ 8 + (byte0 : F) - (limb : F) = 0 ↔
      byte0 = limb % 256 ∧ byte1 = limb / 256 := by
  constructor
  · intro recomposed
    have sum : byte1 * 256 + byte0 = limb := by
      apply nat_eq
      · push_cast
        linear_combination recomposed
      · omega
      · omega
    exact ⟨by omega, by omega⟩
  · rintro ⟨rfl, rfl⟩
    have digits : limb / 256 * 256 + limb % 256 = limb := by omega
    have lifted := congrArg (fun number : ℕ => (number : F)) digits
    push_cast at lifted ⊢
    linear_combination lifted

theorem wordByte_eq_limb_bytes :
    wordByte word 0 = lowLimb word % 256 ∧ wordByte word 1 = lowLimb word / 256 ∧
      wordByte word 2 = highLimb word % 256 ∧ wordByte word 3 = highLimb word / 256 := by
  have := word.isLt
  unfold wordByte lowLimb highLimb
  omega

@[simp] theorem yields_parseReg (result : RegisterDecomposition) :
    (RegisterDecomposition.parseReg (.ofWord word)).Yields result ↔
      RegisterDecomposition.ofWord word = result := by
  have digits := wordByte_eq_limb_bytes word
  simp only [RegisterDecomposition.parseReg, yields_bind, yields_addVariableWithRangeCheck,
    yields_addConstraint, yields_pure, Register.ofWord_low, Register.ofWord_high, Num.value_var]
  constructor
  · rintro ⟨_, ⟨byte0, bound0, rfl⟩, _, ⟨byte1, bound1, rfl⟩, _, ⟨byte2, bound2, rfl⟩, _,
      ⟨byte3, bound3, rfl⟩, _, lowDigits, _, highDigits, rfl⟩
    obtain ⟨number0, small0, rfl⟩ := exists_nat bound0
    obtain ⟨number1, small1, rfl⟩ := exists_nat bound1
    obtain ⟨number2, small2, rfl⟩ := exists_nat bound2
    obtain ⟨number3, small3, rfl⟩ := exists_nat bound3
    obtain ⟨rfl, rfl⟩ := (bytes_of_limb (lowLimb_lt word) small0 small1).mp lowDigits
    obtain ⟨rfl, rfl⟩ := (bytes_of_limb (highLimb_lt word) small2 small3).mp highDigits
    obtain ⟨same0, same1, same2, same3⟩ := digits
    rw [RegisterDecomposition.ofWord, same0, same1, same2, same3]
  · rintro rfl
    have byteBound : ∀ index, ((wordByte word index : ℕ) : F).val < 2 ^ 8 := by
      intro index
      have := wordByte_lt word index
      rwa [val_natCast_of_lt (by omega)]
    have lowDigits := (bytes_of_limb (lowLimb_lt word) (wordByte_lt word 0)
      (wordByte_lt word 1)).mpr ⟨digits.1, digits.2.1⟩
    have highDigits := (bytes_of_limb (highLimb_lt word) (wordByte_lt word 2)
      (wordByte_lt word 3)).mpr ⟨digits.2.2.1, digits.2.2.2⟩
    exact ⟨_, ⟨_, byteBound 0, rfl⟩, _, ⟨_, byteBound 1, rfl⟩, _, ⟨_, byteBound 2, rfl⟩, _,
      ⟨_, byteBound 3, rfl⟩, (), lowDigits, (), highDigits, rfl⟩

/-- The decoder's decomposition determines the sign bit; the low byte stays free. -/
theorem yields_parseReg_withSign {tables : TableDriver}
    (signTable : tables .u16GetSignAndHighByte = u16GetSignAndHighByteTable) (word : BitVec 32)
    (result : RegisterDecompositionWithSign) :
    (RegisterDecompositionWithSign.parseReg tables (.ofWord word)).Yields result ↔
      ∃ byte0 : F, (⟨.ofWord word, (byte0, ((lowLimb word : F) - byte0) * (2 ^ 8)⁻¹),
        ((highLimb word : F) - (wordByte word 3 : F) * 2 ^ 8, (wordByte word 3 : F)),
        .is (bit word.msb)⟩ : RegisterDecompositionWithSign) = result := by
  have highBound := highLimb_lt word
  have highVal : ((highLimb word : ℕ) : F).val = highLimb word := val_natCast_of_lt (by omega)
  have sign : ((highLimb word >>> 15 : ℕ) : F) = bit word.msb := by
    rw [bit_eq_natCast, Nat.shiftRight_eq_div_pow, BitVec.msb_eq_decide]
    congr 1
    have := word.isLt
    by_cases negative : 2 ^ (32 - 1) ≤ word.toNat
    · simp only [negative, decide_true, Bool.toNat_true, highLimb]
      omega
    · simp only [negative, decide_false, Bool.toNat_false, highLimb]
      omega
  have topByte : highLimb word >>> 8 = wordByte word 3 := by
    rw [Nat.shiftRight_eq_div_pow, (wordByte_eq_limb_bytes word).2.2.2]
  simp only [RegisterDecompositionWithSign.parseReg, Register.ofWord_low, Register.ofWord_high,
    Num.value_var, Num.getVariable_var, pure_bind, yields_bind, yields_addVariable, true_and,
    yields_getVariablesFromLookupConstrained, yields_pure, signTable, u16GetSignAndHighByteTable,
    oneKeyTable_iff, highVal, sign, topByte]
  constructor
  · rintro ⟨byte0, ⟨_, _⟩, ⟨_, rfl, rfl⟩, rfl⟩
    exact ⟨byte0, rfl⟩
  · rintro ⟨byte0, rfl⟩
    exact ⟨byte0, (_, _), ⟨highBound, rfl, rfl⟩, rfl⟩

theorem yields_parsed {tables : TableDriver}
    (signTable : tables .u16GetSignAndHighByte = u16GetSignAndHighByteTable) {α : Type}
    {word : BitVec 32} {result : α} {meaning : Prop}
    {rest : RegisterDecompositionWithSign → Assembly α}
    (holds : ∀ source : RegisterDecompositionWithSign, source.u16Limbs = .ofWord word →
      source.signBit = .is (bit word.msb) → ((rest source).Yields result ↔ meaning)) :
    (RegisterDecompositionWithSign.parseReg tables (.ofWord word) >>= rest).Yields result ↔
      meaning := by
  rw [yields_bind]
  simp only [yields_parseReg_withSign signTable]
  constructor
  · rintro ⟨_, ⟨byte0, rfl⟩, continued⟩
    exact (holds _ rfl rfl).mp continued
  · intro meant
    exact ⟨_, ⟨0, rfl⟩, (holds _ rfl rfl).mpr meant⟩

end Airbender.Cs

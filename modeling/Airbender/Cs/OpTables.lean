import Airbender.Cs.MergedLookups
import Airbender.Simulator.Isa

/-!
# The tables of the families

The rows of the tables that jumps, branches, shifts, loads and the ROM are looked up in, as the
`create_*_table` functions compute them, and `MachineTables`, the assumption under which a driver
has them.
-/

namespace Airbender.Cs

open CircuitLib Circuit Mersenne31Field

/-- `create_jump_cleanup_offset_table`: bit 1, and the offset without its two lowest bits. -/
def jumpCleanupOffsetTable : Row → Bool :=
  oneKeyTable 16 fun a => ((a >>> 1) &&& 0x01, a - (a &&& 0x3))

/-- `create_memory_offset_lowest_bits_table`. -/
def memoryOffsetGetBitsTable : Row → Bool :=
  oneKeyTable 16 fun a => (a &&& 0x01, (a >>> 1) &&& 0x01)

def extractLower5BitsTable : Row → Bool := oneKeyTable 16 fun a => (a &&& 0b11111, 0)

/-- The halves of a shifted half-word: what stays in place, and what moves to its neighbour. -/
def shiftedHalves (a : ℕ) : ℕ × ℕ :=
  let inputWord := a % 2 ^ 16
  let shiftAmount := (a >>> 16) &&& 0b11111
  let isRightShift := decide (0 < a >>> (16 + 5))
  if isRightShift then
    let t := (inputWord <<< 16) >>> shiftAmount
    ((t >>> 16) % 2 ^ 16, t % 2 ^ 16)
  else
    let t := (inputWord <<< shiftAmount) % 2 ^ 32
    (t % 2 ^ 16, (t >>> 16) % 2 ^ 16)

def shiftImplementationTable : Row → Bool := oneKeyTable (16 + 5 + 1) shiftedHalves

/-- The ones that fill an arithmetic shift of a negative number. -/
def sraFiller (a : ℕ) : ℕ × ℕ :=
  let inputSign := decide (0 < a &&& 1)
  let isSra := decide (0 < (a >>> 1) &&& 1)
  let shiftAmount := a >>> 2
  if !inputSign || !isSra then (0, 0)
  else if shiftAmount = 0 then (0, 0)
  else
    let mask := BitVec.allOnes 32 <<< (32 - shiftAmount)
    (lowLimb mask, highLimb mask)

def sraSignFillerTable : Row → Bool := oneKeyTable (1 + 1 + 5) sraFiller

def conditionResolution (a : ℕ) : Bool × Bool :=
  let funct3 := a &&& 0x7
  let unsignedLtFlag := a &&& (1 <<< 3) != 0
  let eqFlag := a &&& (1 <<< 4) != 0
  let src1Bit := a &&& (1 <<< 5) != 0
  let src2Bit := a &&& (1 <<< 6) != 0
  let operandsDifferentSignsFlag := src1Bit ^^ src2Bit
  -- with different signs the negative operand is the larger unsigned number
  let signedLtFlag := if operandsDifferentSignsFlag then !unsignedLtFlag else unsignedLtFlag
  match funct3 with
  | 0b000 => (eqFlag, false)
  | 0b001 => (!eqFlag, false)
  | 0b010 => (false, signedLtFlag)
  | 0b011 => (false, unsignedLtFlag)
  | 0b100 => (signedLtFlag, false)
  | 0b101 => (!signedLtFlag, false)
  | 0b110 => (unsignedLtFlag, false)
  | _ => (!unsignedLtFlag, false)

def conditionalOpResolutionTable : Row → Bool :=
  oneKeyTable (3 + 1 + 1 + 1 + 1) fun a =>
    ((conditionResolution a).1.toNat, (conditionResolution a).2.toNat)

/-- `create_rom_separator_table`: addresses from `2^(16 + bits)` on are RAM. -/
def romSeparatorTable (romBits : ℕ) : Row → Bool :=
  oneKeyTable 16 fun a => ((decide (1 <<< romBits ≤ a)).toNat, a % (1 <<< romBits))

def unimpOpcode : BitVec 32 := 0xc0001073

def romWord (image : List (BitVec 32)) (address : ℕ) : BitVec 32 :=
  image.getD (address / 4) unimpOpcode

/-- `create_table_for_rom_image`: a row for every aligned address. -/
def romTable (romBits : ℕ) (image : List (BitVec 32)) (row : Row) : Bool :=
  let address := row.first.val
  decide (address < 2 ^ (16 + romBits)) && decide (address % 4 = 0) &&
    decide (row.second = (lowLimb (romWord image address) : F)) &&
    decide (row.third = (highLimb (romWord image address) : F))

def extendedValue (a : ℕ) : BitVec 32 :=
  let word := BitVec.ofNat 16 a
  let useHighHalf := (a >>> 16) &&& 1 != 0
  let funct3 := a >>> 17
  let selectedByte := if useHighHalf then word.extractLsb' 8 8 else word.extractLsb' 0 8
  match funct3 with
  | 0b000 => if selectedByte.msb then selectedByte.setWidth 32 ||| 0xffffff00
      else selectedByte.setWidth 32
  | 0b100 => selectedByte.setWidth 32
  | 0b001 => if word.msb then word.setWidth 32 ||| 0xffff0000 else word.setWidth 32
  | 0b101 => word.setWidth 32
  | _ => 0

/-- `create_mem_load_extend_table`. -/
def extendLoadedValueTable : Row → Bool :=
  oneKeyTable (16 + 1 + 3) fun a => (lowLimb (extendedValue a), highLimb (extendedValue a))

/-- A table with a key of 16 bits, a key of one bit and one value. -/
def byteContributionTable (value : ℕ → Bool → ℕ) (row : Row) : Bool :=
  decide (row.first.val < 2 ^ 16) && decide (row.second.val < 2) &&
    decide (row.third = ((value row.first.val (decide (row.second.val ≠ 0)) : ℕ) : F))

/-- `create_store_byte_source_contribution_table`: the low byte, moved to its place. -/
def storeByteSourceContributionTable : Row → Bool :=
  byteContributionTable fun a bit0 => if bit0 then (a % 2 ^ 8) <<< 8 else a % 2 ^ 8

/-- `create_store_byte_existing_contribution_table`: the half-word without the byte. -/
def storeByteExistingContributionTable : Row → Bool :=
  byteContributionTable fun a bit0 => if bit0 then a &&& 0x00ff else a &&& 0xff00

/-- The tables of a machine as far as the families look them up. The table for unsigned conditions
cannot be generated. -/
structure MachineTables (romBits : ℕ) (image : List (BitVec 32)) (tables : TableDriver) :
    Prop where
  zeroEntry : tables .zeroEntry = zeroEntryTable
  u16GetSignAndHighByte : tables .u16GetSignAndHighByte = u16GetSignAndHighByteTable
  jumpCleanupOffset : tables .jumpCleanupOffset = jumpCleanupOffsetTable
  memoryOffsetGetBits : tables .memoryOffsetGetBits = memoryOffsetGetBitsTable
  extractLower5Bits : tables .extractLower5Bits = extractLower5BitsTable
  shiftImplementation : tables .shiftImplementation = shiftImplementationTable
  sraSignFiller : tables .sraSignFiller = sraSignFillerTable
  allConditions : tables .conditionalOpAllConditionsResolver = conditionalOpResolutionTable
  unsignedConditions : tables .conditionalOpUnsignedConditionsResolver = fun _ => false
  romAddressSpaceSeparator : tables .romAddressSpaceSeparator = romSeparatorTable romBits
  romRead : tables .romRead = romTable romBits image
  extendLoadedValue : tables .extendLoadedValue = extendLoadedValueTable
  storeByteSourceContribution :
    tables .storeByteSourceContribution = storeByteSourceContributionTable
  storeByteExistingContribution :
    tables .storeByteExistingContribution = storeByteExistingContributionTable

def machineTables (romBits : ℕ) (image : List (BitVec 32)) : TableDriver
  | .zeroEntry => zeroEntryTable
  | .u16GetSignAndHighByte => u16GetSignAndHighByteTable
  | .jumpCleanupOffset => jumpCleanupOffsetTable
  | .memoryOffsetGetBits => memoryOffsetGetBitsTable
  | .extractLower5Bits => extractLower5BitsTable
  | .shiftImplementation => shiftImplementationTable
  | .sraSignFiller => sraSignFillerTable
  | .conditionalOpAllConditionsResolver => conditionalOpResolutionTable
  | .romAddressSpaceSeparator => romSeparatorTable romBits
  | .romRead => romTable romBits image
  | .extendLoadedValue => extendLoadedValueTable
  | .storeByteSourceContribution => storeByteSourceContributionTable
  | .storeByteExistingContribution => storeByteExistingContributionTable
  | _ => fun _ => false

theorem machineTables_spec (romBits : ℕ) (image : List (BitVec 32)) :
    MachineTables romBits image (machineTables romBits image) := by
  constructor <;> rfl

theorem containsId_toNum (tables : TableDriver) {table : TableType}
    (real : table ≠ .dynamicPlaceholder) (row : Row) :
    tables.containsId table.toNum.value row = tables table row := by
  have known : TableType.getTableFromId table.toTableId = some table := by
    cases table <;> first | exact absurd rfl real | rfl
  have bounded : table.toTableId < 2147483647 := by cases table <;> decide
  rw [TableDriver.containsId, TableType.toNum, Num.value_constant, val_natCast_of_lt bounded, known]

theorem oneKeyTable_natCast {width : ℕ} (small : width ≤ 30) (values : ℕ → ℕ × ℕ) {key : ℕ}
    (bounded : key < 2 ^ width) (first second : F) :
    oneKeyTable width values ⟨(key : F), first, second⟩ = true ↔
      first = ((values key).1 : F) ∧ second = ((values key).2 : F) := by
  have powers : 2 ^ width ≤ 2 ^ 30 := Nat.pow_le_pow_right (by omega) small
  rw [oneKeyTable_iff, val_natCast_of_lt (by omega)]
  exact and_iff_right bounded

theorem byteContributionTable_natCast (value : ℕ → Bool → ℕ) {word : ℕ} (bounded : word < 2 ^ 16)
    (flag : Bool) (third : F) :
    byteContributionTable value ⟨(word : F), bit flag, third⟩ = true ↔
      third = (value word flag : F) := by
  have first : (word : F).val = word := val_natCast_of_lt (by omega)
  have second : (bit flag : F).val = flag.toNat := by
    rw [bit_eq_natCast, val_natCast_of_lt (by have := flag.toNat_lt; omega)]
  have chosen : decide (flag.toNat ≠ 0) = flag := by cases flag <;> rfl
  simp only [byteContributionTable, first, second, chosen, Bool.and_eq_true, decide_eq_true_eq]
  exact and_iff_right ⟨bounded, flag.toNat_lt⟩

end Airbender.Cs

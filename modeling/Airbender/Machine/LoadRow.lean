import Airbender.Machine.MemoryQuery

/-!
# Rows of the load family

A load reads an aligned word from ROM, which is a table, or from RAM, and a table extends the part
that the address selects. The lookups of the two cases share variables.
-/

namespace Airbender.Machine

open CircuitLib Circuit Mersenne31Field Cs OptimizationContext Simulator WordBytes List

namespace LoadOp

/-- The value for `rd` from a word: the word itself, or an extended part of it. -/
def selectValue (fullWordAccessFlag : Boolean) (word subword : F × F) : ContextM (F × F) := do
  let low ← addVariableFromConstraint
    (fullWordAccessFlag.value * word.1 + (1 - fullWordAccessFlag.value) * subword.1)
  let high ← addVariableFromConstraint
    (fullWordAccessFlag.value * word.2 + (1 - fullWordAccessFlag.value) * subword.2)
  pure (low, high)

/-- `LoadOp::spec_apply` with `SUPPORT_LESS_THAN_WORD` and `SUPPORT_SIGNED`, for trusted code. -/
def specApplyBytes (src1 : RegisterDecompositionWithSign) (imm : Register) (funct3 : Cs.Num)
    (rs2Index : F) (flags : BooleanSet) (query : ShuffleRamMemQuery) :
    ContextM (CommonDiffs × ShuffleRamMemQuery) := do
  resetIndexers
  let executeFamily := flags.getMajorFlag .loadCommon
  let fullWordAccessFlag := flags.getMinorFlag .loadCommon .loadWord
  let halfWordAccessFlag := flags.getMinorFlag .loadCommon .loadHalfWord
  let execWord ← Boolean.and executeFamily fullWordAccessFlag
  let execHalfWord ← Boolean.and executeFamily halfWordAccessFlag
  let (unalignedAddress, _) ← appendAddRelation src1.u16Limbs imm executeFamily
  let (bit0, bit1) ←
    appendLookupPair (← unalignedAddress.low.getVariable) .memoryOffsetGetBits executeFamily
  let alignedAddressLow := unalignedAddress.low.value - 2 * bit1 - bit0
  addConstraint ((bit0 + bit1) * execWord.value)
  addConstraint (bit0 * execHalfWord.value)
  let (isRamRange, addressHighBitsForRom) ←
    appendLookupPair (← unalignedAddress.high.getVariable) .romAddressSpaceSeparator executeFamily
  let isRomRead ← addVariableFromConstraint ((← executeFamily.getVariable) * (1 - isRamRange))
  let isRamRead ← addVariableFromConstraint ((← executeFamily.getVariable) * isRamRange)
  let indexers ← saveIndexers
  let (romValueLow, romValueHigh) ← appendLookupPair
    (alignedAddressLow + 2 ^ 16 * addressHighBitsForRom) .romRead (.is isRomRead)
  let romSubword ← addVariableFromConstraint (bit1 * romValueHigh + (1 - bit1) * romValueLow)
  let romExtended ← appendLookupPair (romSubword + 2 ^ 16 * bit0 + 2 ^ 17 * funct3.value)
    .extendLoadedValue (.is isRomRead)
  -- a read from ROM leaves a read of 0 from address 0 in RAM
  addConstraint (query.address.1 * isRomRead)
  addConstraint (query.address.2 * isRomRead)
  addConstraint (query.readValue.1 * isRomRead)
  addConstraint (query.readValue.2 * isRomRead)
  let romSelected ← selectValue fullWordAccessFlag (romValueLow, romValueHigh) romExtended
  restoreIndexers indexers
  addConstraint ((alignedAddressLow - query.address.1) * isRamRead)
  addConstraint ((unalignedAddress.high.value - query.address.2) * isRamRead)
  let ramSubword ← addVariableFromConstraint
    (bit1 * query.readValue.2 + (1 - bit1) * query.readValue.1)
  let ramExtended ← appendLookupPair (ramSubword + 2 ^ 16 * bit0 + 2 ^ 17 * funct3.value)
    .extendLoadedValue (.is isRamRead)
  let ramSelected ← selectValue fullWordAccessFlag query.readValue ramExtended
  let isRegister ← addVariableFromConstraint (1 - executeFamily.value)
  addConstraint ((rs2Index - query.address.1) * (1 - executeFamily.value))
  addConstraint (query.address.2 * (1 - executeFamily.value))
  pure ({ execFlag := executeFamily
          rdValue := [(romSelected, .is isRomRead), (ramSelected, .is isRamRead)]
          newPcValue := .default },
    { query with isRegister := .is isRegister })

/-- `LoadOp::spec_apply` without `SUPPORT_LESS_THAN_WORD`: the ROM is looked up in any case, which
excludes misaligned addresses. -/
def specApplyWord (src1 : RegisterDecompositionWithSign) (imm : Register) (rs2Index : F)
    (flags : BooleanSet) (query : ShuffleRamMemQuery) :
    ContextM (CommonDiffs × ShuffleRamMemQuery) := do
  resetIndexers
  let executeFamily := flags.getMajorFlag .loadCommon
  let (unalignedAddress, _) ← appendAddRelation src1.u16Limbs imm executeFamily
  let (isRamRange, addressHighBitsForRom) ←
    appendLookupPair (← unalignedAddress.high.getVariable) .romAddressSpaceSeparator executeFamily
  let romValue ← appendLookupPair
    (unalignedAddress.low.value + 2 ^ 16 * addressHighBitsForRom) .romRead executeFamily
  let isRomRead ← addVariableFromConstraint ((← executeFamily.getVariable) * (1 - isRamRange))
  let isRamRead ← addVariableFromConstraint ((← executeFamily.getVariable) * isRamRange)
  addConstraint (query.address.1 * isRomRead)
  addConstraint (query.address.2 * isRomRead)
  addConstraint (query.readValue.1 * isRomRead)
  addConstraint (query.readValue.2 * isRomRead)
  addConstraint ((unalignedAddress.low.value - query.address.1) * isRamRead)
  addConstraint ((unalignedAddress.high.value - query.address.2) * isRamRead)
  let isRegister ← addVariableFromConstraint (1 - executeFamily.value)
  addConstraint ((rs2Index - query.address.1) * (1 - executeFamily.value))
  addConstraint (query.address.2 * (1 - executeFamily.value))
  pure ({ execFlag := executeFamily
          rdValue := [(romValue, .is isRomRead), (query.readValue, .is isRamRead)]
          newPcValue := .default },
    { query with isRegister := .is isRegister })

/-- `LoadOp::spec_apply`. Parts of words without signs are declared but have no implementation. -/
def specApply (supportSigned supportLessThanWord : Bool) (src1 : RegisterDecompositionWithSign)
    (imm : Register) (funct3 : Cs.Num) (rs2Index : F) (flags : BooleanSet)
    (query : ShuffleRamMemQuery) : ContextM (CommonDiffs × ShuffleRamMemQuery) :=
  if supportLessThanWord then
    if supportSigned then specApplyBytes src1 imm funct3 rs2Index flags query
    else (abort : Assembly _)
  else specApplyWord src1 imm rs2Index flags query

end LoadOp

/-- The end of a row that loads: the new value of `rd` and the access. -/
def finishLoad (outcome : CommonDiffs × ShuffleRamMemQuery) :
    Assembly (Register × ShuffleRamMemQuery) := do
  let rd ← CommonDiffs.selectFinalRdValue [outcome.1]
  pure (rd, outcome.2)

/-- The family applied to a base address, an immediate and the word that the access reads, which it
also writes back; the address is a variable. -/
def loadCircuit (tables : TableDriver) (supportSigned supportLessThanWord : Bool)
    (flags : BooleanSet) (rs1 imm : Register) (funct3 : Cs.Num) (rs2Index : F)
    (readValue : F × F) : Assembly (Register × ShuffleRamMemQuery) := do
  let address := (← addVariable, ← addVariable)
  let src1 ← RegisterDecompositionWithSign.parseReg tables rs1
  let outcome ← enforced tables (LoadOp.specApply supportSigned supportLessThanWord src1 imm
    funct3 rs2Index flags
    { isRegister := .constant true, address, readValue, writeValue := readValue })
  finishLoad outcome

theorem signExtend_eq_fill {width : ℕ} (value : BitVec width) (small : width ≤ 32) :
    value.signExtend 32 =
      if value.msb then value.setWidth 32 ||| (BitVec.allOnes 32 <<< width)
      else value.setWidth 32 := by
  cases sign : value.msb with
  | false => rw [if_neg Bool.false_ne_true, BitVec.signExtend_eq_setWidth_of_msb_false sign]
  | true =>
    apply BitVec.eq_of_getLsbD_eq
    intro index inside
    rw [if_pos rfl, BitVec.getLsbD_signExtend, sign, BitVec.getLsbD_or, BitVec.getLsbD_setWidth,
      BitVec.getLsbD_shiftLeft, BitVec.getLsbD_allOnes]
    by_cases below : index < width
    · simp [below, inside]
    · simp [below, inside, show index - width < 32 by omega]

/-- What a load gives a register, from the aligned word and the offset in it. -/
def loadedValue (kind : LoadKind) (word : BitVec 32) (offset : ℕ) : BitVec 32 :=
  match kind with
  | .lb => (word.extractLsb' (8 * offset) 8).signExtend 32
  | .lh => (word.extractLsb' (8 * offset) 16).signExtend 32
  | .lw => word
  | .lbu => (word.extractLsb' (8 * offset) 8).setWidth 32
  | .lhu => (word.extractLsb' (8 * offset) 16).setWidth 32

def extendPart (funct3 : BitVec 3) (bit0 : Bool) (half : BitVec 16) : BitVec 32 :=
  let selectedByte := if bit0 then half.extractLsb' 8 8 else half.extractLsb' 0 8
  if funct3 = 0b000 then selectedByte.signExtend 32
  else if funct3 = 0b100 then selectedByte.setWidth 32
  else if funct3 = 0b001 then half.signExtend 32
  else if funct3 = 0b101 then half.setWidth 32
  else 0

theorem extendedValue_key (funct3 : BitVec 3) (bit0 : Bool) {half : ℕ} (bounded : half < 2 ^ 16) :
    extendedValue (half + 2 ^ 16 * bit0.toNat + 2 ^ 17 * funct3.toNat) =
      extendPart funct3 bit0 (BitVec.ofNat 16 half) := by
  have bitBound := bit0.toNat_lt
  obtain ⟨key, packed⟩ :
      ∃ key, half + 2 ^ 16 * bit0.toNat + 2 ^ 17 * funct3.toNat = key := ⟨_, rfl⟩
  have word : BitVec.ofNat 16 key = BitVec.ofNat 16 half := by
    apply BitVec.eq_of_toNat_eq
    rw [BitVec.toNat_ofNat, BitVec.toNat_ofNat]
    omega
  have useHighHalf : (key >>> 16 &&& 1 != 0) = bit0 := by
    have selector : key / 2 ^ 16 % 2 = bit0.toNat := by omega
    rw [Nat.and_one_is_mod, Nat.shiftRight_eq_div_pow, selector]
    cases bit0 <;> rfl
  have opcode : key >>> 17 = funct3.toNat := by
    rw [Nat.shiftRight_eq_div_pow]
    omega
  have known : ∀ funct3 : BitVec 3, funct3 = 0b000 ∨ funct3 = 0b001 ∨ funct3 = 0b010 ∨
      funct3 = 0b011 ∨ funct3 = 0b100 ∨ funct3 = 0b101 ∨ funct3 = 0b110 ∨ funct3 = 0b111 := by
    decide
  rw [packed, extendedValue]
  simp only [word, useHighHalf, opcode, extendPart, signExtend_eq_fill _ (show 8 ≤ 32 by omega),
    signExtend_eq_fill _ (show 16 ≤ 32 by omega)]
  rcases known funct3 with rfl | rfl | rfl | rfl | rfl | rfl | rfl | rfl <;> rfl

def halfOf (address word : BitVec 32) : BitVec 16 :=
  BitVec.ofNat 16 (if address.getLsbD 1 then highLimb word else lowLimb word)

theorem halfOf_eq (address word : BitVec 32) (even : address.toNat % 2 = 0) :
    halfOf address word = word.extractLsb' (8 * (address.toNat % 4)) 16 := by
  have offset := offset_eq address
  have wordBound := word.isLt
  have first : address.getLsbD 0 = false := by
    rw [getLsbD_zero, even]
    rfl
  rw [first] at offset
  apply BitVec.eq_of_toNat_eq
  rw [halfOf, BitVec.toNat_ofNat, BitVec.extractLsb'_toNat, Nat.shiftRight_eq_div_pow, offset]
  cases address.getLsbD 1 <;> simp [highLimb, lowLimb]

theorem byteOf_half (address word : BitVec 32) :
    (if address.getLsbD 0 then (halfOf address word).extractLsb' 8 8
      else (halfOf address word).extractLsb' 0 8) =
      word.extractLsb' (8 * (address.toNat % 4)) 8 := by
  have offset := offset_eq address
  have wordBound := word.isLt
  apply BitVec.eq_of_toNat_eq
  rw [apply_ite BitVec.toNat, BitVec.extractLsb'_toNat, BitVec.extractLsb'_toNat,
    BitVec.extractLsb'_toNat, Nat.shiftRight_eq_div_pow, Nat.shiftRight_eq_div_pow,
    Nat.shiftRight_eq_div_pow, halfOf, BitVec.toNat_ofNat, offset]
  cases address.getLsbD 0 <;> cases address.getLsbD 1 <;> simp [highLimb, lowLimb] <;> omega

theorem extendPart_eq {funct3 : BitVec 3} {kind : LoadKind}
    (encodes : LoadKind.ofFunct3 funct3 = some kind) (less : kind ≠ .lw) (address word : BitVec 32)
    (aligned : kind.bytes ∣ address.toNat) :
    extendPart funct3 (address.getLsbD 0) (halfOf address word) =
      loadedValue kind word (address.toNat % 4) := by
  have half := halfOf_eq address word
  simp only [extendPart, byteOf_half]
  unfold LoadKind.ofFunct3 at encodes
  split_ifs at encodes with lb lh lw lbu lhu
  · cases encodes
    rw [if_pos lb]
    rfl
  · cases encodes
    rw [half (Nat.mod_eq_zero_of_dvd aligned), lh]
    rfl
  · cases encodes
    exact absurd rfl less
  · cases encodes
    rw [lbu]
    rfl
  · cases encodes
    rw [half (Nat.mod_eq_zero_of_dvd aligned), lhu]
    rfl

section

variable {romBits : ℕ} {image : List (BitVec 32)} {tables : TableDriver}
  (machine : MachineTables romBits image tables)

variable {src1 : RegisterDecompositionWithSign} {base imm : BitVec 32}
  (holds1 : src1.u16Limbs = .ofWord base)
  {flags : BooleanSet} (executing : flags.majorFlag .loadCommon = true)

def loadDiffs (isRamRange : F) (rom ram : F × F) : CommonDiffs where
  execFlag := .is (bit true)
  rdValue := [(rom, .is (1 - isRamRange)), (ram, .is isRamRange)]
  newPcValue := .default

include machine holds1 executing in
theorem loadOp_word_lookups (supportSigned : Bool) (funct3 rs2Index : F)
    (query : ShuffleRamMemQuery) (result : CommonDiffs × ShuffleRamMemQuery) :
    (enforced tables (LoadOp.specApply supportSigned false src1 (.ofWord imm) (.var funct3) rs2Index
        flags query)).Yields result ↔
      ∃ (isRam chunk : F) (romValue : F × F),
        query.address.1 * (1 - isRam) = 0 ∧ query.address.2 * (1 - isRam) = 0 ∧
        query.readValue.1 * (1 - isRam) = 0 ∧ query.readValue.2 * (1 - isRam) = 0 ∧
        ((lowLimb (base + imm) : F) - query.address.1) * isRam = 0 ∧
        ((highLimb (base + imm) : F) - query.address.2) * isRam = 0 ∧
        tables .romAddressSpaceSeparator ⟨(highLimb (base + imm) : F), isRam, chunk⟩ = true ∧
        tables .romRead ⟨(lowLimb (base + imm) : F) + 2 ^ 16 * chunk, romValue.1,
          romValue.2⟩ = true ∧
        (loadDiffs isRam romValue query.readValue,
          { query with isRegister := .is 0 }) = result := by
  simp only [LoadOp.specApply, Bool.false_eq_true, if_false, yields_enforced, LoadOp.specApplyWord,
    BooleanSet.getMajorFlag, appendAddRelation, appendAddSubRelation, holds1, executing, bind_assoc,
    pure_bind, yields_resetIndexers, yields_lift_bind, exists_eq_left', yields_addConstraint,
    yields_addVariableFromConstraint, yields_getRegisterOutput_new, yields_pushAddSubRelation_new,
    yields_appendLookupPair_new, withLookup, Register.ofWord_low, Register.ofWord_high,
    Num.getVariable_var, Boolean.getVariable_is, yields_pure, yields_finish, length_nil,
    length_cons, nil_append, cons_append, Nat.zero_add, Nat.reduceAdd, Nat.le_refl]
  simp [enforceAll, enforceSlots, slotCount, slot, range_succ, enforceAddSubSlot,
    yields_addition_executed base imm, yields_lookupSlot_executed machine.zeroEntry, and_assoc,
    loadDiffs, -Bool.exists_bool, -mul_eq_zero]

def selectedHalf (bit1 : F) (word : F × F) : F := bit1 * word.2 + (1 - bit1) * word.1

def selectedValue (word : Bool) (whole part : F × F) : F × F :=
  (bit word * whole.1 + (1 - bit word) * part.1, bit word * whole.2 + (1 - bit word) * part.2)

/-- The demands of a load from an address, as constraints and rows of tables. The variables of
`shared` hold a word of ROM or an extended part of a word of RAM. -/
@[mk_iff] structure LoadDemands (tables : TableDriver) (address : BitVec 32) (word half : Bool)
    (funct3 : F) (query : ShuffleRamMemQuery) (bit0 bit1 isRam chunk : F)
    (shared romExtended : F × F) : Prop where
  wordAligned : (bit0 + bit1) * bit word = 0
  halfAligned : bit0 * bit half = 0
  romAddress : query.address.1 * (1 - isRam) = 0 ∧ query.address.2 * (1 - isRam) = 0
  romRead : query.readValue.1 * (1 - isRam) = 0 ∧ query.readValue.2 * (1 - isRam) = 0
  ramAddress : ((lowLimb address : F) - 2 * bit1 - bit0 - query.address.1) * isRam = 0 ∧
    ((highLimb address : F) - query.address.2) * isRam = 0
  offset : tables .memoryOffsetGetBits ⟨(lowLimb address : F), bit0, bit1⟩ = true
  range : tables .romAddressSpaceSeparator ⟨(highLimb address : F), isRam, chunk⟩ = true
  sharedRow : (enforceLookupSlot tables
    [⟨.is (1 - isRam), ⟨(lowLimb address : F) - 2 * bit1 - bit0 + 2 ^ 16 * chunk, shared.1,
        shared.2⟩, TableType.romRead.toNum⟩,
      ⟨.is isRam, ⟨selectedHalf bit1 query.readValue + 2 ^ 16 * bit0 + 2 ^ 17 * funct3, shared.1,
        shared.2⟩, TableType.extendLoadedValue.toNum⟩]).Yields ()
  romRow : (enforceLookupSlot tables
    [⟨.is (1 - isRam), ⟨selectedHalf bit1 shared + 2 ^ 16 * bit0 + 2 ^ 17 * funct3, romExtended.1,
      romExtended.2⟩, TableType.extendLoadedValue.toNum⟩]).Yields ()

include machine holds1 executing in
theorem loadOp_bytes_lookups (funct3 rs2Index : F) (query : ShuffleRamMemQuery)
    (result : CommonDiffs × ShuffleRamMemQuery) :
    (enforced tables (LoadOp.specApply true true src1 (.ofWord imm) (.var funct3) rs2Index flags
        query)).Yields result ↔
      ∃ (bit0 bit1 isRam chunk : F) (shared romExtended : F × F),
        LoadDemands tables (base + imm) (flags.minorFlag .loadCommon .loadWord)
          (flags.minorFlag .loadCommon .loadHalfWord) funct3 query bit0 bit1 isRam chunk shared
          romExtended ∧
        (loadDiffs isRam
          (selectedValue (flags.minorFlag .loadCommon .loadWord) shared romExtended)
          (selectedValue (flags.minorFlag .loadCommon .loadWord) query.readValue shared),
          { query with isRegister := .is 0 }) = result := by
  simp only [LoadOp.specApply, if_true, yields_enforced, LoadOp.specApplyBytes, LoadOp.selectValue,
    BooleanSet.getMajorFlag, BooleanSet.getMinorFlag, appendAddRelation, appendAddSubRelation,
    holds1, executing, bind_assoc, pure_bind, yields_resetIndexers, yields_saveIndexers,
    yields_restoreIndexers, yields_lift_bind, exists_eq_left', yields_addConstraint,
    yields_addVariableFromConstraint, yields_getRegisterOutput_new, yields_pushAddSubRelation_new,
    yields_appendLookupPair_new, withLookup, yields_appendLookupPair_pooled,
    Boolean.yields_and_is_is, Register.ofWord_low, Register.ofWord_high, Num.getVariable_var,
    Boolean.getVariable_is, yields_finish, length_nil, length_cons, nil_append, cons_append,
    Nat.zero_add, Nat.reduceAdd, Nat.reduceLeDiff, Nat.le_refl]
  simp only [bit_true, yields_pure, supportedOperands_ofWord, yields_assert, one_mul,
    Boolean.value_is, Num.value_var, sub_self, mul_zero, enforceAll, enforceSlots, slotCount,
    Bool.false_eq_true, ↓reduceIte, map_cons, zero_add, map_nil, foldl_cons, zero_le,
    sup_of_le_right, foldl_nil, range_succ, range_zero, nil_append, enforceAddSubSlot, slot,
    all_map, all_filter, Function.comp_apply, all_cons, hasConstant_ofWord, Bool.not_false,
    Bool.and_self, Bool.or_true, all_nil, forM_eq_forM, forM_cons, length_cons, length_nil,
    Order.lt_one_iff, getElem?_pos, getElem_cons_zero, BEq.rfl, filter_cons_of_pos, filter_nil,
    forM_nil, bind_pure_comp, id_map', getD_eq_getElem?_getD, Nat.reduceAdd, Nat.reduceLT,
    getElem_cons_succ, Option.getD_some, Nat.one_le_ofNat, Nat.reduceLeDiff, sup_of_le_left,
    cons_append, Nat.reduceBEq, not_false_eq_true, filter_cons_of_neg, map_bind, pure_bind,
    yields_bind, yields_addition_executed base imm, Nat.reducePow,
    yields_lookupSlot_executed machine.zeroEntry, ne_eq, reduceCtorEq, Unique.exists_iff,
    PUnit.default_eq_unit,
    true_and, and_assoc, one_sub_bit, exists_and_left, exists_eq_left', ↓existsAndEq,
    loadDemands_iff, selectedHalf, loadDiffs, selectedValue, Prod.exists]

/-- What the table gives for the part of a word that an address selects. -/
def partOf (funct3 : BitVec 3) (address word : BitVec 32) : BitVec 32 :=
  extendPart funct3 (address.getLsbD 0) (halfOf address word)

include machine in
theorem extendLoadedValue_row (funct3 : BitVec 3) (address word : BitVec 32) (extended : F × F) :
    tables .extendLoadedValue ⟨selectedHalf (bit (address.getLsbD 1)) (limbsOf word) +
        2 ^ 16 * bit (address.getLsbD 0) + 2 ^ 17 * (funct3.toNat : F), extended.1,
        extended.2⟩ = true ↔
      extended = limbsOf (partOf funct3 address word) := by
  have low := lowLimb_lt word
  have high := highLimb_lt word
  have funct3Bound := funct3.isLt
  have bitBound := (address.getLsbD 0).toNat_lt
  have half : (if address.getLsbD 1 then highLimb word else lowLimb word) < 2 ^ 16 := by
    split_ifs <;> assumption
  have key : selectedHalf (bit (address.getLsbD 1)) (limbsOf word) +
      2 ^ 16 * bit (address.getLsbD 0) + 2 ^ 17 * (funct3.toNat : F) =
      (((if address.getLsbD 1 then highLimb word else lowLimb word) +
        2 ^ 16 * (address.getLsbD 0).toNat + 2 ^ 17 * funct3.toNat : ℕ) : F) := by
    rw [selectedHalf, limbsOf, bit_choice, bit_eq_natCast (address.getLsbD 0)]
    push_cast
    rfl
  rw [machine.extendLoadedValue, extendLoadedValueTable, key,
    oneKeyTable_natCast (by omega) _ (by omega), extendedValue_key funct3 _ half, Prod.ext_iff]
  rfl

include machine in
theorem romRead_row (small : romBits ≤ 14) {key : ℕ} (bounded : key < 2 ^ (16 + romBits))
    (value : F × F) :
    tables .romRead ⟨(key : F), value.1, value.2⟩ = true ↔
      key % 4 = 0 ∧ value = limbsOf (romWord image key) := by
  have powers : 2 ^ (16 + romBits) ≤ 2 ^ 30 := Nat.pow_le_pow_right (by omega) (by omega)
  have reduced : ((key : F)).val = key := val_natCast_of_lt (by omega)
  rw [machine.romRead, romTable, Prod.ext_iff]
  simp only [reduced, bounded, decide_true, Bool.true_and, Bool.and_eq_true, decide_eq_true_eq,
    and_assoc]
  rfl

variable {address : BitVec 32}

theorem chunk_of_rom (rom : isRamAddress romBits address = false) :
    highLimb address % 2 ^ romBits = highLimb address := by
  have below : address.toNat < 2 ^ (16 + romBits) := not_le.mp (of_decide_eq_false rom)
  apply Nat.mod_eq_of_lt
  rw [highLimb]
  apply Nat.div_lt_of_lt_mul
  rwa [← pow_add]

def romWordAt (image : List (BitVec 32)) (address : BitVec 32) : BitVec 32 :=
  romWord image (alignedAddress address).toNat

include machine in
theorem romRead_aligned (small : romBits ≤ 14) (rom : isRamAddress romBits address = false)
    (value : F × F) :
    tables .romRead ⟨(lowLimb address : F) - 2 * bit (address.getLsbD 1) -
        bit (address.getLsbD 0) + 2 ^ 16 * ((highLimb address % 2 ^ romBits : ℕ) : F), value.1,
        value.2⟩ = true ↔ value = limbsOf (romWordAt image address) := by
  have below : address.toNat < 2 ^ (16 + romBits) := not_le.mp (of_decide_eq_false rom)
  have aligned : (alignedAddress address).toNat = address.toNat / 4 * 4 := toNat_and_not_three _
  have key : (lowLimb (alignedAddress address) : F) + 2 ^ 16 * (highLimb address : F) =
      ((alignedAddress address).toNat : F) := by
    rw [toNat_eq_limbs (alignedAddress address), highLimb_alignedAddress]
    push_cast
    rfl
  have multiple : (alignedAddress address).toNat % 4 = 0 := by omega
  rw [lowLimb_alignedAddress, chunk_of_rom rom, key, romRead_row machine small (by omega)]
  exact and_iff_right multiple

/-- The address inside of ROM that the low part of an address is. -/
def romPart (romBits : ℕ) (address : BitVec 32) : ℕ :=
  lowLimb address + 2 ^ 16 * (highLimb address % 2 ^ romBits)

theorem romPart_of_rom (rom : isRamAddress romBits address = false) :
    romPart romBits address = address.toNat := by
  rw [romPart, chunk_of_rom rom, ← toNat_eq_limbs]

include machine in
theorem romRead_unaligned (small : romBits ≤ 14) (address : BitVec 32) (value : F × F) :
    tables .romRead ⟨(lowLimb address : F) + 2 ^ 16 * ((highLimb address % 2 ^ romBits : ℕ) : F),
        value.1, value.2⟩ = true ↔
      address.toNat % 4 = 0 ∧ value = limbsOf (romWord image (romPart romBits address)) := by
  have low := lowLimb_lt address
  have limbs := toNat_eq_limbs address
  have chunk := Nat.mod_lt (highLimb address) (Nat.two_pow_pos romBits)
  have key : (lowLimb address : F) + 2 ^ 16 * ((highLimb address % 2 ^ romBits : ℕ) : F) =
      (romPart romBits address : F) := by
    rw [romPart]
    push_cast
    rfl
  have bounded : romPart romBits address < 2 ^ (16 + romBits) := by
    rw [romPart, pow_add]
    omega
  have multiple : romPart romBits address % 4 = address.toNat % 4 := by
    rw [romPart]
    omega
  rw [key, romRead_row machine small bounded, multiple]

def readWord (romBits : ℕ) (image : List (BitVec 32)) (address read : BitVec 32) : BitVec 32 :=
  if isRamAddress romBits address then read else romWordAt image address

/-- Where the access of a load goes: reads from ROM leave a read of 0 from address 0. -/
def LoadTarget (romBits : ℕ) (address : BitVec 32) (query : ShuffleRamMemQuery) : Prop :=
  if isRamAddress romBits address then query.address = limbsOf (alignedAddress address)
  else query.address = limbsOf 0 ∧ query.readValue = limbsOf 0

theorem loadTarget_iff {low isRam : F} (aligned : low = (lowLimb (alignedAddress address) : F))
    (space : isRam = bit (isRamAddress romBits address)) (query : ShuffleRamMemQuery) :
    LoadTarget romBits address query ↔
      (query.address.1 * (1 - isRam) = 0 ∧ query.address.2 * (1 - isRam) = 0) ∧
      (query.readValue.1 * (1 - isRam) = 0 ∧ query.readValue.2 * (1 - isRam) = 0) ∧
      (low - query.address.1) * isRam = 0 ∧
      ((highLimb address : F) - query.address.2) * isRam = 0 := by
  have zero : ∀ limbs : F × F, limbs = limbsOf 0#32 ↔ limbs.1 = 0 ∧ limbs.2 = 0 :=
    fun _ => Prod.ext_iff
  rw [LoadTarget, aligned, space, ← highLimb_alignedAddress]
  cases isRamAddress romBits address with
  | false => simp [zero]
  | true => simp [eq_limbsOf_iff]

/-- What the shared variables hold: an extended part of a word of RAM, or a word of ROM. -/
def HoldsLoaded (romBits : ℕ) (image : List (BitVec 32)) (funct3 : BitVec 3)
    (address read : BitVec 32) (shared romExtended : F × F) : Prop :=
  if isRamAddress romBits address then shared = limbsOf (partOf funct3 address read)
  else shared = limbsOf (romWordAt image address) ∧
    romExtended = limbsOf (partOf funct3 address (romWordAt image address))

variable {read : BitVec 32}

include machine in
theorem loadDemands_solved (small : romBits ≤ 14) (address : BitVec 32) (word half : Bool)
    (funct3 : BitVec 3) (query : ShuffleRamMemQuery) (reads : query.readValue = limbsOf read)
    (bit0 bit1 isRam chunk : F) (shared romExtended : F × F) :
    LoadDemands tables address word half (funct3.toNat : F) query bit0 bit1 isRam chunk shared
        romExtended ↔
      (bit0 = bit (address.getLsbD 0) ∧ bit1 = bit (address.getLsbD 1)) ∧
      (isRam = bit (isRamAddress romBits address) ∧
        chunk = ((highLimb address % 2 ^ romBits : ℕ) : F)) ∧
      (word = true → address.toNat % 4 = 0) ∧ (half = true → address.toNat % 2 = 0) ∧
      LoadTarget romBits address query ∧
      HoldsLoaded romBits image funct3 address read shared romExtended := by
  have exclusive : ¬ ((!isRamAddress romBits address) = true ∧
      isRamAddress romBits address = true) := by simp
  have romReal : TableType.romRead ≠ .dynamicPlaceholder := by decide
  have extendReal : TableType.extendLoadedValue ≠ .dynamicPlaceholder := by decide
  have offset := memoryOffsetGetBits_row machine address bit0 bit1
  have range := romAddressSpaceSeparator_row machine address isRam chunk
  rw [← word_aligned_iff, ← half_aligned_iff, loadTarget_iff (lowLimb_alignedAddress address) rfl]
  constructor
  · intro demands
    obtain ⟨rfl, rfl⟩ := offset.mp demands.offset
    obtain ⟨rfl, rfl⟩ := range.mp demands.range
    have sharedRow := demands.sharedRow
    have romRow := demands.romRow
    rw [one_sub_bit, yields_lookupSlot_two machine.zeroEntry exclusive _ _ romReal extendReal,
      Bool.not_eq_true', reads, extendLoadedValue_row machine] at sharedRow
    rw [one_sub_bit, yields_lookupSlot_one machine.zeroEntry _ _ extendReal,
      Bool.not_eq_true'] at romRow
    refine ⟨⟨rfl, rfl⟩, ⟨rfl, rfl⟩, demands.wordAligned, demands.halfAligned,
      ⟨demands.romAddress, demands.romRead, demands.ramAddress⟩, ?_⟩
    unfold HoldsLoaded
    split_ifs with ram
    · exact sharedRow.2 ram
    · have rom := Bool.eq_false_of_not_eq_true ram
      have found := (romRead_aligned machine small rom shared).mp (sharedRow.1 rom)
      subst found
      exact ⟨rfl, (extendLoadedValue_row machine funct3 address _ romExtended).mp (romRow rom)⟩
  · rintro ⟨⟨rfl, rfl⟩, ⟨rfl, rfl⟩, wordAligned, halfAligned, ⟨romAddress, romRead, ramAddress⟩,
      holds⟩
    refine ⟨wordAligned, halfAligned, romAddress, romRead, ramAddress, offset.mpr ⟨rfl, rfl⟩,
      range.mpr ⟨rfl, rfl⟩, ?_, ?_⟩
    · rw [one_sub_bit, yields_lookupSlot_two machine.zeroEntry exclusive _ _ romReal extendReal,
        Bool.not_eq_true', reads, extendLoadedValue_row machine]
      constructor
      · intro rom
        rw [HoldsLoaded, rom] at holds
        exact (romRead_aligned machine small rom shared).mpr holds.1
      · intro ram
        rwa [HoldsLoaded, ram] at holds
    · rw [one_sub_bit, yields_lookupSlot_one machine.zeroEntry _ _ extendReal, Bool.not_eq_true']
      intro rom
      rw [HoldsLoaded, rom] at holds
      rw [holds.1, extendLoadedValue_row machine]
      exact holds.2

theorem yields_finishLoad (isRam : Bool) (rom ram : F × F) (query : ShuffleRamMemQuery)
    (result : Register × ShuffleRamMemQuery) :
    (finishLoad (loadDiffs (bit isRam) rom ram, query)).Yields result ↔
      (⟨.var (if isRam then ram else rom).1, .var (if isRam then ram else rom).2⟩, query) =
        result := by
  cases isRam <;> simp [finishLoad, CommonDiffs.selectFinalRdValue, loadDiffs]

theorem selectedValue_limbsOf (word : Bool) (whole part : BitVec 32) :
    selectedValue word (limbsOf whole) (limbsOf part) =
      limbsOf (if word then whole else part) := by
  cases word <;> simp [selectedValue, limbsOf]

theorem HoldsLoaded.value {funct3 : BitVec 3} {readValue shared romExtended : F × F}
    (holds : HoldsLoaded romBits image funct3 address read shared romExtended)
    (reads : readValue = limbsOf read) (word : Bool) :
    (if isRamAddress romBits address then selectedValue word readValue shared
      else selectedValue word shared romExtended) =
      limbsOf (if word then readWord romBits image address read
        else partOf funct3 address (readWord romBits image address read)) := by
  unfold HoldsLoaded at holds
  unfold readWord
  split_ifs at holds ⊢ <;> simp_all [selectedValue_limbsOf]

theorem exists_holdsLoaded (romBits : ℕ) (image : List (BitVec 32)) (funct3 : BitVec 3)
    (address read : BitVec 32) :
    ∃ shared romExtended, HoldsLoaded romBits image funct3 address read shared romExtended := by
  unfold HoldsLoaded
  cases isRamAddress romBits address with
  | false => exact ⟨_, _, rfl, rfl⟩
  | true => exact ⟨_, (0, 0), rfl⟩

include machine holds1 executing in
theorem yields_loadOp_bytes (small : romBits ≤ 14) (funct3 : BitVec 3) (rs2Index : F)
    (query : ShuffleRamMemQuery) (reads : query.readValue = limbsOf read)
    (result : Register × ShuffleRamMemQuery) :
    let word := flags.minorFlag .loadCommon .loadWord
    let half := flags.minorFlag .loadCommon .loadHalfWord
    let found := readWord romBits image (base + imm) read
    (enforced tables (LoadOp.specApply true true src1 (.ofWord imm) (.var (funct3.toNat : F))
        rs2Index flags query) >>= finishLoad).Yields result ↔
      (word = true → (base + imm).toNat % 4 = 0) ∧ (half = true → (base + imm).toNat % 2 = 0) ∧
        LoadTarget romBits (base + imm) query ∧
        (.ofWord (if word then found else partOf funct3 (base + imm) found),
          { query with isRegister := .is 0 }) = result := by
  intro word half found
  rw [yields_bind]
  simp only [loadOp_bytes_lookups machine holds1 executing, found]
  generalize base + imm = address
  have rows := loadDemands_solved machine small address word half funct3 query reads
  constructor
  · rintro ⟨_, ⟨bit0, bit1, isRam, chunk, shared, romExtended, demands, rfl⟩, ends⟩
    obtain ⟨⟨rfl, rfl⟩, ⟨rfl, rfl⟩, wordAligned, halfAligned, target, holds⟩ :=
      (rows _ _ _ _ _ _).mp demands
    rw [yields_finishLoad, holds.value reads] at ends
    exact ⟨wordAligned, halfAligned, target, ends⟩
  · rintro ⟨wordAligned, halfAligned, target, rfl⟩
    obtain ⟨shared, romExtended, holds⟩ := exists_holdsLoaded romBits image funct3 address read
    refine ⟨_, ⟨_, _, _, _, shared, romExtended, (rows _ _ _ _ _ _).mpr ⟨⟨rfl, rfl⟩, ⟨rfl, rfl⟩,
      wordAligned, halfAligned, target, holds⟩, rfl⟩, ?_⟩
    rw [yields_finishLoad, holds.value reads]
    rfl

include machine holds1 executing in
theorem yields_loadOp_word (small : romBits ≤ 14) (supportSigned : Bool) (funct3 rs2Index : F)
    (query : ShuffleRamMemQuery) (reads : query.readValue = limbsOf read)
    (result : Register × ShuffleRamMemQuery) :
    (enforced tables (LoadOp.specApply supportSigned false src1 (.ofWord imm) (.var funct3)
        rs2Index flags query) >>= finishLoad).Yields result ↔
      (base + imm).toNat % 4 = 0 ∧ LoadTarget romBits (base + imm) query ∧
        (.ofWord (readWord romBits image (base + imm) read),
          { query with isRegister := .is 0 }) = result := by
  rw [yields_bind]
  simp only [loadOp_word_lookups machine holds1 executing]
  generalize base + imm = address
  have range := romAddressSpaceSeparator_row machine address
  have rows := romRead_unaligned machine small address
  have targets : address.toNat % 4 = 0 → (LoadTarget romBits address query ↔ _) :=
    fun aligned => loadTarget_iff (by rw [alignedAddress_eq aligned]) rfl query
  have value : address.toNat % 4 = 0 →
      (if isRamAddress romBits address then query.readValue
        else limbsOf (romWord image (romPart romBits address))) =
      limbsOf (readWord romBits image address read) := by
    intro aligned
    cases ram : isRamAddress romBits address with
    | false => simp [readWord, ram, romWordAt, romPart_of_rom ram, alignedAddress_eq aligned]
    | true => simp [readWord, ram, reads]
  constructor
  · rintro ⟨_, ⟨isRam, chunk, romValue, addressLow, addressHigh, readLow, readHigh, ramLow,
      ramHigh, space, row, rfl⟩, ends⟩
    obtain ⟨rfl, rfl⟩ := (range _ _).mp space
    obtain ⟨aligned, rfl⟩ := (rows _).mp row
    rw [yields_finishLoad, value aligned] at ends
    exact ⟨aligned, (targets aligned).mpr
      ⟨⟨addressLow, addressHigh⟩, ⟨readLow, readHigh⟩, ramLow, ramHigh⟩, ends⟩
  · rintro ⟨aligned, target, rfl⟩
    obtain ⟨⟨addressLow, addressHigh⟩, ⟨readLow, readHigh⟩, ramLow, ramHigh⟩ :=
      (targets aligned).mp target
    refine ⟨_, ⟨_, _, _, addressLow, addressHigh, readLow, readHigh, ramLow, ramHigh,
      (range _ _).mpr ⟨rfl, rfl⟩, (rows _).mpr ⟨aligned, rfl⟩, rfl⟩, ?_⟩
    rw [yields_finishLoad, value aligned]
    rfl

def loadsWord (supportLessThanWord : Bool) (flags : BooleanSet) : Bool :=
  !supportLessThanWord || flags.minorFlag .loadCommon .loadWord

def loadsHalf (supportLessThanWord : Bool) (flags : BooleanSet) : Bool :=
  supportLessThanWord && flags.minorFlag .loadCommon .loadHalfWord

def loadQuery (romBits : ℕ) (address read : BitVec 32) : ShuffleRamMemQuery where
  isRegister := .is 0
  address := limbsOf (if isRamAddress romBits address then alignedAddress address else 0)
  readValue := limbsOf read
  writeValue := limbsOf read

include machine in
theorem yields_loadCircuit (small : romBits ≤ 14) {supportSigned supportLessThanWord : Bool}
    (implemented : supportLessThanWord = true → supportSigned = true)
    (executing : flags.majorFlag .loadCommon = true) (base imm read : BitVec 32)
    (funct3 : BitVec 3) (rs2Index : F) (result : Register × ShuffleRamMemQuery) :
    let word := loadsWord supportLessThanWord flags
    let half := loadsHalf supportLessThanWord flags
    let found := readWord romBits image (base + imm) read
    (loadCircuit tables supportSigned supportLessThanWord flags (.ofWord base) (.ofWord imm)
        (.var (funct3.toNat : F)) rs2Index (limbsOf read)).Yields result ↔
      (word = true → (base + imm).toNat % 4 = 0) ∧ (half = true → (base + imm).toNat % 2 = 0) ∧
        (isRamAddress romBits (base + imm) = false → read = 0) ∧
        (.ofWord (if word then found else partOf funct3 (base + imm) found),
          loadQuery romBits (base + imm) read) = result := by
  intro word half found
  have family : ∀ query : ShuffleRamMemQuery, query.readValue = limbsOf read →
      ((RegisterDecompositionWithSign.parseReg tables (.ofWord base) >>= fun src1 =>
        enforced tables (LoadOp.specApply supportSigned supportLessThanWord src1 (.ofWord imm)
          (.var (funct3.toNat : F)) rs2Index flags query) >>= finishLoad).Yields result ↔
        (word = true → (base + imm).toNat % 4 = 0) ∧ (half = true → (base + imm).toNat % 2 = 0) ∧
          LoadTarget romBits (base + imm) query ∧
          (.ofWord (if word then found else partOf funct3 (base + imm) found),
            { query with isRegister := .is 0 }) = result) := by
    intro query reads
    apply yields_parsed machine.u16GetSignAndHighByte
    intro src1 holds1 _
    cases supportLessThanWord with
    | false =>
      rw [yields_loadOp_word machine holds1 executing small supportSigned _ _ query reads]
      simp [word, half, found, loadsWord, loadsHalf]
    | true =>
      rw [implemented rfl]
      exact yields_loadOp_bytes machine holds1 executing small funct3 rs2Index query reads result
  simp only [loadCircuit, yields_bind, yields_addVariable, true_and] at family ⊢
  simp only [family, LoadTarget, loadQuery]
  cases isRamAddress romBits (base + imm) with
  | false =>
    simp only [Bool.false_eq_true, if_false, true_imp_iff, limbsOf_inj]
    constructor
    · rintro ⟨low, high, wordAligned, halfAligned, ⟨target, zero⟩, rfl⟩
      rw [target]
      exact ⟨wordAligned, halfAligned, zero, rfl⟩
    · rintro ⟨wordAligned, halfAligned, zero, rfl⟩
      exact ⟨_, _, wordAligned, halfAligned, ⟨rfl, zero⟩, rfl⟩
  | true =>
    simp only [Bool.true_eq_false, false_imp_iff, true_and, if_true]
    constructor
    · rintro ⟨low, high, wordAligned, halfAligned, target, rfl⟩
      rw [target]
      exact ⟨wordAligned, halfAligned, rfl⟩
    · rintro ⟨wordAligned, halfAligned, rfl⟩
      exact ⟨_, _, wordAligned, halfAligned, rfl, rfl⟩

variable {supportSigned supportLessThanWord : Bool} {opcode : ℕ} {funct3 : BitVec 3} {funct7 : ℕ}
  {format : InstructionType} {major : DecoderMajorInstructionFamilyKey}
  {minors : List DecoderInstructionVariantsKey}

theorem LoadOp.variants_kind (supportSigned supportLessThanWord : Bool) (funct3 : BitVec 3) :
    (LoadOp.variants supportSigned supportLessThanWord funct3.toNat).all fun minors =>
      (LoadKind.ofFunct3 funct3).any fun kind =>
        (!supportLessThanWord || decide (.loadWord ∈ minors)) == decide (kind = .lw) &&
        (supportLessThanWord && decide (.loadHalfWord ∈ minors)) ==
          decide (kind = .lh ∨ kind = .lhu) := by
  revert funct3
  cases supportSigned <;> cases supportLessThanWord <;> decide

theorem load_declared
    (supported : LoadOp.defineDecoderSubspace supportSigned supportLessThanWord opcode
      funct3.toNat funct7 = some (format, major, minors)) (decoded : flags.Selects major minors) :
    major = .loadCommon ∧ ∃ kind, LoadKind.ofFunct3 funct3 = some kind ∧
      loadsWord supportLessThanWord flags = decide (kind = .lw) ∧
      loadsHalf supportLessThanWord flags = decide (kind = .lh ∨ kind = .lhu) := by
  unfold LoadOp.defineDecoderSubspace at supported
  split_ifs at supported
  obtain ⟨minors, found, same⟩ := Option.map_eq_some_iff.mp supported
  cases same
  have kinds := LoadOp.variants_kind supportSigned supportLessThanWord funct3
  rw [found, Option.all_some, Option.any_eq_true] at kinds
  obtain ⟨kind, encodes, fits⟩ := kinds
  rw [Bool.and_eq_true, beq_iff_eq, beq_iff_eq] at fits
  rw [loadsWord, loadsHalf, decoded.minor_iff, decoded.minor_iff]
  exact ⟨rfl, kind, encodes, fits⟩

theorem load_aligned_iff (kind : LoadKind) (address : BitVec 32) :
    kind.bytes ∣ address.toNat ↔
      (decide (kind = .lw) = true → address.toNat % 4 = 0) ∧
        (decide (kind = .lh ∨ kind = .lhu) = true → address.toNat % 2 = 0) := by
  cases kind <;> simp [LoadKind.bytes, Nat.dvd_iff_mod_eq_zero]

theorem loaded_value {kind : LoadKind} (encodes : LoadKind.ofFunct3 funct3 = some kind)
    (word : BitVec 32) (aligned : kind.bytes ∣ address.toNat) :
    (if decide (kind = .lw) then word else partOf funct3 address word) =
      loadedValue kind word (address.toNat % 4) := by
  by_cases whole : kind = .lw
  · rw [if_pos (decide_eq_true whole), whole]
    rfl
  · rw [if_neg (by simpa using whole)]
    exact extendPart_eq encodes whole address word aligned

theorem loadCircuit_unimplemented (result : Register × ShuffleRamMemQuery) (rs1 imm : Register)
    (funct3 : Cs.Num) (rs2Index : F) (readValue : F × F) :
    ¬ (loadCircuit tables false true flags rs1 imm funct3 rs2Index readValue).Yields result := by
  simp [loadCircuit, LoadOp.specApply, yields_enforced]

include machine in
/-- Every satisfying assignment of a row that executes a load reads the aligned word that contains
the address, from the ROM below its bound and from RAM otherwise, and gives `rd` the extended part
of it. A misaligned address has no such assignment. With a read from ROM goes a read of 0 from
address 0 of RAM. The bound of the ROM of all machines is `2^(16 + 5)`. -/
theorem loadRow_sound_and_complete (small : romBits ≤ 14)
    (supported : LoadOp.defineDecoderSubspace supportSigned supportLessThanWord opcode
      funct3.toNat funct7 = some (format, major, minors)) (decoded : flags.Selects major minors)
    (base imm read : BitVec 32) (rs2Index : F) :
    ∃ kind, LoadKind.ofFunct3 funct3 = some kind ∧
      (∀ (assignment : List F) (rd : Register) (query : ShuffleRamMemQuery),
        (loadCircuit tables supportSigned supportLessThanWord flags (.ofWord base) (.ofWord imm)
          (.var (funct3.toNat : F)) rs2Index (limbsOf read)).run assignment =
          some ((rd, query), []) →
        kind.bytes ∣ (base + imm).toNat ∧ query.isRegister = .is 0 ∧
        query.readValue = limbsOf read ∧ query.writeValue = limbsOf read ∧
        if (base + imm).toNat < 2 ^ (16 + romBits) then
          query.address = limbsOf 0 ∧ read = 0 ∧
            rd = .ofWord (loadedValue kind (romWord image (alignedAddress (base + imm)).toNat)
              ((base + imm).toNat % 4))
        else
          query.address = limbsOf (alignedAddress (base + imm)) ∧
            rd = .ofWord (loadedValue kind read ((base + imm).toNat % 4))) ∧
      ((supportLessThanWord = true → supportSigned = true) → kind.bytes ∣ (base + imm).toNat →
        ((base + imm).toNat < 2 ^ (16 + romBits) → read = 0) →
        ∃ (assignment : List F) (result : Register × ShuffleRamMemQuery),
          (loadCircuit tables supportSigned supportLessThanWord flags (.ofWord base) (.ofWord imm)
            (.var (funct3.toNat : F)) rs2Index (limbsOf read)).run assignment =
            some (result, [])) := by
  obtain ⟨rfl, kind, encodes, word, half⟩ := load_declared supported decoded
  have executing : flags.majorFlag .loadCommon = true := decoded.major_iff _
  refine ⟨kind, encodes, ?_, ?_⟩
  · intro assignment rd query accepted
    have yielded := (yields_iff_run _ _).mpr ⟨assignment, accepted⟩
    have implemented : supportLessThanWord = true → supportSigned = true := by
      rintro rfl
      cases supportSigned with
      | false => exact absurd yielded (loadCircuit_unimplemented _ _ _ _ _ _)
      | true => rfl
    have solved := (yields_loadCircuit machine small implemented executing base imm read funct3
      rs2Index _).mp yielded
    simp only [word, half] at solved
    obtain ⟨wordAligned, halfAligned, zero, same⟩ := solved
    have aligned := (load_aligned_iff kind _).mpr ⟨wordAligned, halfAligned⟩
    rw [loaded_value encodes _ aligned] at same
    cases same
    refine ⟨aligned, rfl, rfl, rfl, ?_⟩
    by_cases rom : (base + imm).toNat < 2 ^ (16 + romBits)
    · have notRam : isRamAddress romBits (base + imm) = false := decide_eq_false (not_le.mpr rom)
      rw [if_pos rom, loadQuery, readWord, notRam]
      exact ⟨rfl, zero notRam, rfl⟩
    · have ram : isRamAddress romBits (base + imm) = true := decide_eq_true (not_lt.mp rom)
      rw [if_neg rom, loadQuery, readWord, ram]
      exact ⟨rfl, rfl⟩
  · intro implemented aligned zero
    have yields := yields_loadCircuit machine small implemented executing base imm read funct3
      rs2Index
    simp only [word, half] at yields
    obtain ⟨wordAligned, halfAligned⟩ := (load_aligned_iff kind _).mp aligned
    have rom : isRamAddress romBits (base + imm) = false → read = 0 :=
      fun notRam => zero (not_le.mp (of_decide_eq_false notRam))
    obtain ⟨assignment, accepted⟩ := (yields_iff_run _ _).mp
      ((yields _).mpr ⟨wordAligned, halfAligned, rom, rfl⟩)
    exact ⟨assignment, _, accepted⟩

end

def loadHalfFlags : BooleanSet where
  majorFlag key := decide (key = .loadCommon)
  minorFlag _ minor := decide (minor ∈ [DecoderInstructionVariantsKey.loadHalfWord,
    .signExtendOnLoad])

theorem loadRow_negative_half :
    ∃ (assignment : List F) (query : ShuffleRamMemQuery),
      (loadCircuit (machineTables 5 [0x80010000]) true true loadHalfFlags (.ofWord 0) (.ofWord 2)
        (.var (1 : ℕ)) 0 (limbsOf 0)).run assignment = some ((.ofWord 0xffff8001, query), []) := by
  have supported : LoadOp.defineDecoderSubspace true true operationLoad (0b001 : BitVec 3).toNat 0 =
      some (.iType, .loadCommon, [.loadHalfWord, .signExtendOnLoad]) := rfl
  have decoded : loadHalfFlags.Selects .loadCommon [.loadHalfWord, .signExtendOnLoad] :=
    ⟨fun _ => rfl, fun _ => rfl⟩
  obtain ⟨kind, encodes, sound, complete⟩ := loadRow_sound_and_complete
    (machineTables_spec 5 [0x80010000]) (by decide) supported decoded 0 2 0 0
  cases encodes
  obtain ⟨assignment, ⟨rd, query⟩, accepted⟩ := complete (fun _ => rfl) (by decide) (fun _ => rfl)
  obtain ⟨_, _, _, _, result⟩ := sound assignment rd query accepted
  obtain ⟨_, _, rfl⟩ := result
  exact ⟨assignment, query, accepted⟩

end Airbender.Machine

import Airbender.Machine.MemoryQuery

/-!
# Rows of the store family

A store replaces bytes in one half of a word: two tables give the byte of the source in its place
and what the half keeps, and the lowest bits of the address select the byte and the half.
-/

namespace Airbender.Machine

open CircuitLib Circuit Mersenne31Field Cs OptimizationContext Simulator WordBytes List

namespace StoreOp

/-- `StoreOp::spec_apply` with `SUPPORT_LESS_THAN_WORD`, for trusted code. -/
def specApplyBytes (src1 src2 : RegisterDecompositionWithSign) (imm : Register)
    (flags : BooleanSet) (query : ShuffleRamMemQuery) :
    ContextM (CommonDiffs × ShuffleRamMemQuery) := do
  resetIndexers
  let executeFamily := flags.getMajorFlag .storeCommon
  let fullWordAccessFlag := flags.getMinorFlag .storeCommon .storeWord
  let halfWordAccessFlag := flags.getMinorFlag .storeCommon .storeHalfWord
  let execWord ← Boolean.and executeFamily fullWordAccessFlag
  let execHalfWord ← Boolean.and executeFamily halfWordAccessFlag
  let (unalignedAddress, _) ← appendAddRelation src1.u16Limbs imm executeFamily
  let (bit0, bit1) ←
    appendLookupPair (← unalignedAddress.low.getVariable) .memoryOffsetGetBits executeFamily
  let alignedAddressLow := unalignedAddress.low.value - 2 * bit1 - bit0
  addConstraint ((bit0 + bit1) * execWord.value)
  addConstraint (bit0 * execHalfWord.value)
  let (isRamRange, _) ←
    appendLookupPair (← unalignedAddress.high.getVariable) .romAddressSpaceSeparator executeFamily
  addConstraint (executeFamily.value * (1 - isRamRange))
  let (baseLow, baseHigh) := query.readValue
  let srcHalfWord ← src2.u16Limbs.low.getVariable
  let subwordToUseForUpdate ← addVariableFromConstraint (bit1 * baseHigh + (1 - bit1) * baseLow)
  let updateContribution ←
    appendLookupSingle srcHalfWord bit0 .storeByteSourceContribution executeFamily
  let toKeepContribution ← appendLookupSingle subwordToUseForUpdate bit0
    .storeByteExistingContribution executeFamily
  addConstraint ((alignedAddressLow - query.address.1) * executeFamily.value)
  addConstraint ((unalignedAddress.high.value - query.address.2) * executeFamily.value)
  addConstraint ((src2.u16Limbs.low.value - query.writeValue.1) * execWord.value)
  addConstraint ((src2.u16Limbs.high.value - query.writeValue.2) * execWord.value)
  -- for a full word the selected half is not used
  let selectedSubword ← addVariableFromConstraint (halfWordAccessFlag.value * srcHalfWord +
    (updateContribution + toKeepContribution) * (1 - halfWordAccessFlag.value))
  let selectedLow ← addVariableFromConstraint (bit1 * baseLow + (1 - bit1) * selectedSubword)
  let selectedHigh ← addVariableFromConstraint (bit1 * selectedSubword + (1 - bit1) * baseHigh)
  addConstraint ((selectedLow - query.writeValue.1) * (executeFamily.value - execWord.value))
  addConstraint ((selectedHigh - query.writeValue.2) * (executeFamily.value - execWord.value))
  let isRegister ← addVariableFromConstraint (1 - executeFamily.value)
  pure ({ execFlag := executeFamily, rdValue := [], newPcValue := .default },
    { query with isRegister := .is isRegister })

/-- `StoreOp::spec_apply` without it: only `SW`. -/
def specApplyWord (src1 src2 : RegisterDecompositionWithSign) (imm : Register)
    (flags : BooleanSet) (query : ShuffleRamMemQuery) :
    ContextM (CommonDiffs × ShuffleRamMemQuery) := do
  resetIndexers
  let executeFamily := flags.getMajorFlag .storeCommon
  let (unalignedAddress, _) ← appendAddRelation src1.u16Limbs imm executeFamily
  let (bit0, bit1) ←
    appendLookupPair (← unalignedAddress.low.getVariable) .memoryOffsetGetBits executeFamily
  addConstraint ((bit0 + bit1) * executeFamily.value)
  let (isRamRange, _) ←
    appendLookupPair (← unalignedAddress.high.getVariable) .romAddressSpaceSeparator executeFamily
  addConstraint (executeFamily.value * (1 - isRamRange))
  addConstraint ((unalignedAddress.low.value - query.address.1) * executeFamily.value)
  addConstraint ((unalignedAddress.high.value - query.address.2) * executeFamily.value)
  addConstraint ((src2.u16Limbs.low.value - query.writeValue.1) * executeFamily.value)
  addConstraint ((src2.u16Limbs.high.value - query.writeValue.2) * executeFamily.value)
  let isRegister ← addVariableFromConstraint (1 - executeFamily.value)
  pure ({ execFlag := executeFamily, rdValue := [], newPcValue := .default },
    { query with isRegister := .is isRegister })

def specApply (supportLessThanWord : Bool) (src1 src2 : RegisterDecompositionWithSign)
    (imm : Register) (flags : BooleanSet) (query : ShuffleRamMemQuery) :
    ContextM (CommonDiffs × ShuffleRamMemQuery) :=
  if supportLessThanWord then specApplyBytes src1 src2 imm flags query
  else specApplyWord src1 src2 imm flags query

end StoreOp

/-- The family applied to a base address, a value to store, an immediate and the word that the
access reads; the address and the written value are variables. -/
def storeCircuit (tables : TableDriver) (supportLessThanWord : Bool) (flags : BooleanSet)
    (rs1 rs2 imm : Register) (readValue : F × F) : Assembly (CommonDiffs × ShuffleRamMemQuery) := do
  let writeValue := (← addVariable, ← addVariable)
  let address := (← addVariable, ← addVariable)
  let src1 ← RegisterDecompositionWithSign.parseReg tables rs1
  let src2 ← RegisterDecompositionWithSign.parseReg tables rs2
  enforced tables (StoreOp.specApply supportLessThanWord src1 src2 imm flags
    { isRegister := .constant true, address, readValue, writeValue })

def sourceByte (bit0 : Bool) (source : ℕ) : ℕ :=
  if bit0 then source % 2 ^ 8 * 2 ^ 8 else source % 2 ^ 8

def keptByte (bit0 : Bool) (existing : ℕ) : ℕ :=
  if bit0 then existing % 2 ^ 8 else existing / 2 ^ 8 * 2 ^ 8

def storedHalf (half bit0 : Bool) (existing source : ℕ) : ℕ :=
  if half then source else sourceByte bit0 source + keptByte bit0 existing

theorem storedHalf_lt (half bit0 : Bool) {existing source : ℕ} (existingBound : existing < 2 ^ 16)
    (sourceBound : source < 2 ^ 16) : storedHalf half bit0 existing source < 2 ^ 16 := by
  unfold storedHalf sourceByte keptByte
  split_ifs <;> omega

theorem limbByte_storedHalf (bit0 : Bool) {existing source index : ℕ} (inside : index < 2) :
    limbByte (storedHalf false bit0 existing source) index =
      if index = bit0.toNat then limbByte source 0 else limbByte existing index := by
  interval_cases index <;> cases bit0 <;> simp [limbByte, storedHalf, sourceByte, keptByte] <;>
    omega

def wordAfterStore (word half : Bool) (address old value : BitVec 32) : BitVec 32 :=
  if word then value
  else if address.getLsbD 1 then
    ofLimbs (lowLimb old)
      (storedHalf half (address.getLsbD 0) (highLimb old) (lowLimb value))
  else
    ofLimbs (storedHalf half (address.getLsbD 0) (lowLimb old) (lowLimb value)) (highLimb old)

theorem wordAfterStore_limbs (half : Bool) (address old value : BitVec 32) :
    let stored := storedHalf half (address.getLsbD 0)
      (if address.getLsbD 1 then highLimb old else lowLimb old) (lowLimb value)
    lowLimb (wordAfterStore false half address old value) =
        (if address.getLsbD 1 then lowLimb old else stored) ∧
      highLimb (wordAfterStore false half address old value) =
        if address.getLsbD 1 then stored else highLimb old := by
  have oldLow := lowLimb_lt old
  have oldHigh := highLimb_lt old
  have valueLow := lowLimb_lt value
  have lowBound := storedHalf_lt half (address.getLsbD 0) oldLow valueLow
  have highBound := storedHalf_lt half (address.getLsbD 0) oldHigh valueLow
  unfold wordAfterStore
  cases address.getLsbD 1 with
  | false => exact ⟨lowLimb_ofLimbs lowBound oldHigh, highLimb_ofLimbs lowBound oldHigh⟩
  | true => exact ⟨lowLimb_ofLimbs oldLow highBound, highLimb_ofLimbs oldLow highBound⟩

theorem byteAt_wordAfterStore (kind : StoreKind) (address old value : BitVec 32)
    (aligned : kind.bytes ∣ address.toNat) {index : ℕ} (inside : index < 4) :
    byteAt (wordAfterStore (decide (kind = .sw)) (decide (kind = .sh)) address old value) index =
      if address.toNat % 4 ≤ index ∧ index < address.toNat % 4 + kind.bytes then
        byteAt value (index - address.toNat % 4)
      else byteAt old index := by
  have offset := offset_eq address
  obtain ⟨low, high⟩ := wordAfterStore_limbs (decide (kind = .sh)) address old value
  have bytes : ∀ word : BitVec 32, (byteAt word index).toNat =
      if index < 2 then limbByte (lowLimb word) index else limbByte (highLimb word) (index - 2) :=
    fun word => byteAt_eq_limbByte word inside
  have source : (byteAt value (index - address.toNat % 4)).toNat =
      if index - address.toNat % 4 < 2 then limbByte (lowLimb value) (index - address.toNat % 4)
      else limbByte (highLimb value) (index - address.toNat % 4 - 2) :=
    byteAt_eq_limbByte value (by omega)
  apply BitVec.eq_of_toNat_eq
  rw [apply_ite BitVec.toNat, bytes old, source]
  cases kind with
  | sw =>
    have whole : address.toNat % 4 = 0 := Nat.mod_eq_zero_of_dvd aligned
    rw [whole, if_pos ⟨Nat.zero_le _, by simpa [StoreKind.bytes] using inside⟩]
    exact bytes value
  | sh =>
    have even : address.toNat % 2 = 0 := Nat.mod_eq_zero_of_dvd aligned
    have first : address.getLsbD 0 = false := by
      rw [getLsbD_zero, even]
      rfl
    rw [first] at offset low high
    rw [show decide (StoreKind.sh = .sw) = false from rfl, bytes, low, high, offset]
    cases address.getLsbD 1 <;> interval_cases index <;> simp [storedHalf, StoreKind.bytes]
  | sb =>
    rw [show decide (StoreKind.sb = .sw) = false from rfl, bytes, low, high, offset]
    cases address.getLsbD 0 <;> cases address.getLsbD 1 <;> interval_cases index <;>
      simp [limbByte_storedHalf, StoreKind.bytes]

section

variable {romBits : ℕ} {image : List (BitVec 32)} {tables : TableDriver}
  (machine : MachineTables romBits image tables)

variable {src1 src2 : RegisterDecompositionWithSign} {base imm value : BitVec 32}
  (holds1 : src1.u16Limbs = .ofWord base) (holds2 : src2.u16Limbs = .ofWord value)
  {flags : BooleanSet} (executing : flags.majorFlag .storeCommon = true)

def storeDiffs : CommonDiffs where
  execFlag := .is (bit true)
  rdValue := []
  newPcValue := .default

variable (address : BitVec 32) (query : ShuffleRamMemQuery)

include machine holds1 holds2 executing in
theorem storeOp_word_lookups (result : CommonDiffs × ShuffleRamMemQuery) :
    (enforced tables (StoreOp.specApply false src1 src2 (.ofWord imm) flags query)).Yields result ↔
      ∃ bit0 bit1 isRam chunk : F, bit0 + bit1 = 0 ∧ 1 - isRam = 0 ∧
        (lowLimb (base + imm) : F) - query.address.1 = 0 ∧
        (highLimb (base + imm) : F) - query.address.2 = 0 ∧
        (lowLimb value : F) - query.writeValue.1 = 0 ∧
        (highLimb value : F) - query.writeValue.2 = 0 ∧
        tables .memoryOffsetGetBits ⟨(lowLimb (base + imm) : F), bit0, bit1⟩ = true ∧
        tables .romAddressSpaceSeparator ⟨(highLimb (base + imm) : F), isRam, chunk⟩ = true ∧
        (storeDiffs, { query with isRegister := .is 0 }) = result := by
  simp only [StoreOp.specApply, Bool.false_eq_true, if_false, yields_enforced,
    StoreOp.specApplyWord, BooleanSet.getMajorFlag, appendAddRelation, appendAddSubRelation, holds1,
    holds2, executing, bind_assoc, pure_bind, yields_resetIndexers, yields_lift_bind,
    exists_eq_left', yields_addConstraint, yields_addVariableFromConstraint,
    yields_getRegisterOutput_new, yields_pushAddSubRelation_new, yields_appendLookupPair_new,
    withLookup, Register.ofWord_low, Register.ofWord_high, Num.getVariable_var,
    Boolean.getVariable_is, yields_pure, yields_finish, length_nil, length_cons, nil_append,
    cons_append, Nat.zero_add, Nat.reduceAdd, Nat.le_refl]
  simp [enforceAll, enforceSlots, slotCount, slot, range_succ, enforceAddSubSlot,
    yields_addition_executed base imm, yields_lookupSlot_executed machine.zeroEntry, and_assoc,
    storeDiffs, -Bool.exists_bool, -mul_eq_zero]

def selectedSubword (half : Bool) (value : BitVec 32) (update keep : F) : F :=
  bit half * (lowLimb value : F) + (update + keep) * (1 - bit half)

@[mk_iff] structure StoreDemands (tables : TableDriver) (address value : BitVec 32)
    (word half : Bool) (query : ShuffleRamMemQuery) (bit0 bit1 isRam chunk update keep : F) :
    Prop where
  wordAligned : (bit0 + bit1) * bit word = 0
  halfAligned : bit0 * bit half = 0
  inRam : 1 - isRam = 0
  addressLow : (lowLimb address : F) - 2 * bit1 - bit0 - query.address.1 = 0
  addressHigh : (highLimb address : F) - query.address.2 = 0
  wordLow : ((lowLimb value : F) - query.writeValue.1) * bit word = 0
  wordHigh : ((highLimb value : F) - query.writeValue.2) * bit word = 0
  partLow : (bit1 * query.readValue.1 + (1 - bit1) * selectedSubword half value update keep -
    query.writeValue.1) * (1 - bit word) = 0
  partHigh : (bit1 * selectedSubword half value update keep + (1 - bit1) * query.readValue.2 -
    query.writeValue.2) * (1 - bit word) = 0
  offset : tables .memoryOffsetGetBits ⟨(lowLimb address : F), bit0, bit1⟩ = true
  range : tables .romAddressSpaceSeparator ⟨(highLimb address : F), isRam, chunk⟩ = true
  source : tables .storeByteSourceContribution ⟨(lowLimb value : F), bit0, update⟩ = true
  existing : tables .storeByteExistingContribution
    ⟨bit1 * query.readValue.2 + (1 - bit1) * query.readValue.1, bit0, keep⟩ = true

include machine holds1 holds2 executing in
theorem storeOp_bytes_lookups (result : CommonDiffs × ShuffleRamMemQuery) :
    (enforced tables (StoreOp.specApply true src1 src2 (.ofWord imm) flags query)).Yields result ↔
      ∃ bit0 bit1 isRam chunk update keep : F,
        StoreDemands tables (base + imm) value (flags.minorFlag .storeCommon .storeWord)
          (flags.minorFlag .storeCommon .storeHalfWord) query bit0 bit1 isRam chunk update keep ∧
        (storeDiffs, { query with isRegister := .is 0 }) = result := by
  simp only [StoreOp.specApply, if_true, yields_enforced, StoreOp.specApplyBytes,
    BooleanSet.getMajorFlag, BooleanSet.getMinorFlag, appendAddRelation, appendAddSubRelation,
    holds1, holds2, executing, bind_assoc, pure_bind, yields_resetIndexers, yields_lift_bind,
    exists_eq_left', yields_addConstraint, yields_addVariableFromConstraint,
    yields_getRegisterOutput_new, yields_pushAddSubRelation_new, yields_appendLookupPair_new,
    withLookup, yields_appendLookupSingle_new, Boolean.yields_and_is_is, Register.ofWord_low,
    Register.ofWord_high, Num.getVariable_var, Boolean.getVariable_is, yields_finish, length_nil,
    length_cons, nil_append, cons_append, Nat.zero_add, Nat.reduceAdd, Nat.le_refl]
  simp [enforceAll, enforceSlots, slotCount, slot, range_succ, enforceAddSubSlot,
    yields_addition_executed base imm, yields_lookupSlot_executed machine.zeroEntry, and_assoc,
    storeDiffs, storeDemands_iff, selectedSubword, -Bool.exists_bool, -mul_eq_zero]

theorem and_high_byte {word : ℕ} (bounded : word < 2 ^ 16) :
    word &&& 0xff00 = word / 2 ^ 8 * 2 ^ 8 := by
  apply Nat.eq_of_testBit_eq
  intro index
  rw [Nat.testBit_and, show 0xff00 = (2 ^ 8 - 1) * 2 ^ 8 from rfl, Nat.testBit_mul_two_pow,
    Nat.testBit_mul_two_pow, Nat.testBit_two_pow_sub_one, Nat.testBit_div_two_pow]
  by_cases above : 8 ≤ index
  · by_cases inside : index - 8 < 8
    · simp [above, inside]
    · have clear : word.testBit index = false :=
        Nat.testBit_lt_two_pow (bounded.trans_le (Nat.pow_le_pow_right (by omega) (by omega)))
      simp [above, clear]
  · simp [above]

include machine in
theorem storeByteSourceContribution_row (bit0 : Bool) (value : BitVec 32) (update : F) :
    tables .storeByteSourceContribution ⟨(lowLimb value : F), bit bit0, update⟩ = true ↔
      update = (sourceByte bit0 (lowLimb value) : F) := by
  rw [machine.storeByteSourceContribution, storeByteSourceContributionTable,
    byteContributionTable_natCast _ (lowLimb_lt value), Nat.shiftLeft_eq, sourceByte]

include machine in
theorem storeByteExistingContribution_row (bit0 : Bool) {existing : ℕ}
    (bounded : existing < 2 ^ 16) (keep : F) :
    tables .storeByteExistingContribution ⟨(existing : F), bit bit0, keep⟩ = true ↔
      keep = (keptByte bit0 existing : F) := by
  rw [machine.storeByteExistingContribution, storeByteExistingContributionTable,
    byteContributionTable_natCast _ bounded, and_high_byte bounded,
    show 0x00ff = 2 ^ 8 - 1 from rfl, Nat.and_two_pow_sub_one_eq_mod, keptByte]

theorem selectedSubword_eq (half bit0 : Bool) (value : BitVec 32) (existing : ℕ) :
    selectedSubword half value (sourceByte bit0 (lowLimb value) : F) (keptByte bit0 existing : F) =
      (storedHalf half bit0 existing (lowLimb value) : F) := by
  cases half <;> simp [selectedSubword, storedHalf]

theorem query_address_iff :
    ((lowLimb address : F) - 2 * bit (address.getLsbD 1) - bit (address.getLsbD 0) -
          query.address.1 = 0 ∧ (highLimb address : F) - query.address.2 = 0) ↔
      query.address = limbsOf (alignedAddress address) := by
  rw [lowLimb_alignedAddress, ← highLimb_alignedAddress, eq_limbsOf_iff]

theorem query_writeValue_iff (old value : BitVec 32) (word half : Bool) {stored : F}
    (selects : stored = (storedHalf half (address.getLsbD 0)
      (if address.getLsbD 1 then highLimb old else lowLimb old) (lowLimb value) : F))
    (query : ShuffleRamMemQuery) (reads : query.readValue = limbsOf old) :
    (((lowLimb value : F) - query.writeValue.1) * bit word = 0 ∧
      ((highLimb value : F) - query.writeValue.2) * bit word = 0 ∧
      (bit (address.getLsbD 1) * query.readValue.1 + (1 - bit (address.getLsbD 1)) * stored -
        query.writeValue.1) * (1 - bit word) = 0 ∧
      (bit (address.getLsbD 1) * stored + (1 - bit (address.getLsbD 1)) * query.readValue.2 -
        query.writeValue.2) * (1 - bit word) = 0) ↔
      query.writeValue = limbsOf (wordAfterStore word half address old value) := by
  cases word with
  | true =>
    simp only [bit_true, mul_one, sub_self, mul_zero, and_true]
    exact (eq_limbsOf_iff query.writeValue value).symm
  | false =>
    obtain ⟨low, high⟩ := wordAfterStore_limbs half address old value
    rw [eq_limbsOf_iff, low, high, reads, selects, limbsOf, bit_choice, bit_choice]
    simp [bit_false]

include machine in
theorem storeDemands_solved (old value : BitVec 32) (word half : Bool)
    (query : ShuffleRamMemQuery) (reads : query.readValue = limbsOf old) :
    (∃ bit0 bit1 isRam chunk update keep : F,
      StoreDemands tables address value word half query bit0 bit1 isRam chunk update keep) ↔
      (word = true → address.toNat % 4 = 0) ∧ (half = true → address.toNat % 2 = 0) ∧
        isRamAddress romBits address = true ∧ query.address = limbsOf (alignedAddress address) ∧
        query.writeValue = limbsOf (wordAfterStore word half address old value) := by
  have oldLow := lowLimb_lt old
  have oldHigh := highLimb_lt old
  let existing := if address.getLsbD 1 then highLimb old else lowLimb old
  have existingBound : existing < 2 ^ 16 := by
    unfold existing
    split_ifs <;> assumption
  have subword : bit (address.getLsbD 1) * query.readValue.2 +
      (1 - bit (address.getLsbD 1)) * query.readValue.1 = (existing : F) := by
    rw [reads, limbsOf, bit_choice]
  have selects := selectedSubword_eq half (address.getLsbD 0) value existing
  have inRam : 1 - bit (isRamAddress romBits address) = 0 ↔
      isRamAddress romBits address = true := by
    cases isRamAddress romBits address <;> simp
  have offset := memoryOffsetGetBits_row machine address
  have range := romAddressSpaceSeparator_row machine address
  have source := storeByteSourceContribution_row machine (address.getLsbD 0) value
  have kept := storeByteExistingContribution_row machine (address.getLsbD 0) existingBound
  rw [← query_writeValue_iff address old value word half selects query reads, ← query_address_iff,
    ← word_aligned_iff, ← half_aligned_iff, ← inRam]
  constructor
  · rintro ⟨bit0, bit1, isRam, chunk, update, keep, demands⟩
    obtain ⟨rfl, rfl⟩ := (offset _ _).mp demands.offset
    obtain ⟨rfl, rfl⟩ := (range _ _).mp demands.range
    have updates := (source _).mp demands.source
    have keeps := demands.existing
    rw [subword, kept] at keeps
    subst updates keeps
    exact ⟨demands.wordAligned, demands.halfAligned, demands.inRam,
      ⟨demands.addressLow, demands.addressHigh⟩,
      demands.wordLow, demands.wordHigh, demands.partLow, demands.partHigh⟩
  · rintro ⟨wordAligned, halfAligned, ram, ⟨addressLow, addressHigh⟩, wordLow, wordHigh, partLow,
      partHigh⟩
    refine ⟨_, _, _, _, _, _, wordAligned, halfAligned, ram, addressLow, addressHigh, wordLow,
      wordHigh, partLow, partHigh, (offset _ _).mpr ⟨rfl, rfl⟩, (range _ _).mpr ⟨rfl, rfl⟩,
      (source _).mpr rfl, ?_⟩
    rw [subword]
    exact (kept _).mpr rfl

include machine in
theorem wordDemands_solved (value : BitVec 32) (query : ShuffleRamMemQuery) :
    (∃ bit0 bit1 isRam chunk : F, bit0 + bit1 = 0 ∧ 1 - isRam = 0 ∧
        (lowLimb address : F) - query.address.1 = 0 ∧
        (highLimb address : F) - query.address.2 = 0 ∧
        (lowLimb value : F) - query.writeValue.1 = 0 ∧
        (highLimb value : F) - query.writeValue.2 = 0 ∧
        tables .memoryOffsetGetBits ⟨(lowLimb address : F), bit0, bit1⟩ = true ∧
        tables .romAddressSpaceSeparator ⟨(highLimb address : F), isRam, chunk⟩ = true) ↔
      address.toNat % 4 = 0 ∧ isRamAddress romBits address = true ∧
        query.address = limbsOf (alignedAddress address) ∧ query.writeValue = limbsOf value := by
  have inRam : 1 - bit (isRamAddress romBits address) = 0 ↔
      isRamAddress romBits address = true := by
    cases isRamAddress romBits address <;> simp
  have sum : bit (address.getLsbD 0) + bit (address.getLsbD 1) = 0 ↔ address.toNat % 4 = 0 := by
    simpa using word_aligned_iff address true
  have offset := memoryOffsetGetBits_row machine address
  have range := romAddressSpaceSeparator_row machine address
  constructor
  · rintro ⟨_, _, _, _, aligned, ram, addressLow, addressHigh, wordLow, wordHigh, bits, space⟩
    obtain ⟨rfl, rfl⟩ := (offset _ _).mp bits
    obtain ⟨rfl, rfl⟩ := (range _ _).mp space
    rw [alignedAddress_eq (sum.mp aligned), eq_limbsOf_iff, eq_limbsOf_iff]
    exact ⟨sum.mp aligned, inRam.mp ram, ⟨addressLow, addressHigh⟩, wordLow, wordHigh⟩
  · rintro ⟨aligned, ram, target, written⟩
    rw [alignedAddress_eq aligned, eq_limbsOf_iff] at target
    rw [eq_limbsOf_iff] at written
    exact ⟨_, _, _, _, sum.mpr aligned, inRam.mpr ram, target.1, target.2, written.1, written.2,
      (offset _ _).mpr ⟨rfl, rfl⟩, (range _ _).mpr ⟨rfl, rfl⟩⟩

def storesWord (supportLessThanWord : Bool) (flags : BooleanSet) : Bool :=
  !supportLessThanWord || flags.minorFlag .storeCommon .storeWord

def storesHalf (supportLessThanWord : Bool) (flags : BooleanSet) : Bool :=
  supportLessThanWord && flags.minorFlag .storeCommon .storeHalfWord

include machine holds1 holds2 executing in
theorem yields_storeOp (supportLessThanWord : Bool) (imm old : BitVec 32)
    (query : ShuffleRamMemQuery) (reads : query.readValue = limbsOf old)
    (result : CommonDiffs × ShuffleRamMemQuery) :
    let word := storesWord supportLessThanWord flags
    let half := storesHalf supportLessThanWord flags
    (enforced tables (StoreOp.specApply supportLessThanWord src1 src2 (.ofWord imm) flags
        query)).Yields result ↔
      ((word = true → (base + imm).toNat % 4 = 0) ∧ (half = true → (base + imm).toNat % 2 = 0) ∧
        isRamAddress romBits (base + imm) = true ∧
        query.address = limbsOf (alignedAddress (base + imm)) ∧
        query.writeValue = limbsOf (wordAfterStore word half (base + imm) old value)) ∧
        (storeDiffs, { query with isRegister := .is 0 }) = result := by
  intro word half
  cases supportLessThanWord with
  | true =>
    rw [storeOp_bytes_lookups machine holds1 holds2 executing,
      ← storeDemands_solved machine _ _ _ word half query reads]
    simp only [exists_and_right]
    rfl
  | false =>
    have solved := wordDemands_solved machine (base + imm) value query
    rw [storeOp_word_lookups machine holds1 holds2 executing]
    simp only [← and_assoc, exists_and_right] at solved ⊢
    rw [solved]
    simp [word, half, storesWord, storesHalf, wordAfterStore, and_assoc]

def storeQuery (address old written : BitVec 32) : ShuffleRamMemQuery where
  isRegister := .is 0
  address := limbsOf (alignedAddress address)
  readValue := limbsOf old
  writeValue := limbsOf written

include machine in
theorem yields_storeCircuit (supportLessThanWord : Bool)
    (executing : flags.majorFlag .storeCommon = true) (base imm old value : BitVec 32)
    (result : CommonDiffs × ShuffleRamMemQuery) :
    let word := storesWord supportLessThanWord flags
    let half := storesHalf supportLessThanWord flags
    (storeCircuit tables supportLessThanWord flags (.ofWord base) (.ofWord value) (.ofWord imm)
        (limbsOf old)).Yields result ↔
      (word = true → (base + imm).toNat % 4 = 0) ∧ (half = true → (base + imm).toNat % 2 = 0) ∧
        isRamAddress romBits (base + imm) = true ∧
        (storeDiffs, storeQuery (base + imm) old
          (wordAfterStore word half (base + imm) old value)) = result := by
  intro word half
  have family := fun query reads =>
    yields_parsed machine.u16GetSignAndHighByte fun src1 (holds1 : _ = Register.ofWord base) _ =>
      yields_parsed machine.u16GetSignAndHighByte fun src2 (holds2 : _ = Register.ofWord value) _ =>
        yields_storeOp machine holds1 holds2 executing supportLessThanWord imm old query reads
        result
  simp only [storeCircuit, yields_bind, yields_addVariable, true_and] at family ⊢
  simp only [family]
  constructor
  · rintro ⟨writeLow, writeHigh, addressLow, addressHigh,
      ⟨wordAligned, halfAligned, ram, target, written⟩, rfl⟩
    refine ⟨wordAligned, halfAligned, ram, ?_⟩
    rw [storeQuery, ← target, ← written]
  · rintro ⟨wordAligned, halfAligned, ram, rfl⟩
    exact ⟨_, _, _, _, ⟨wordAligned, halfAligned, ram, rfl, rfl⟩, rfl⟩

variable {supportLessThanWord : Bool} {opcode : ℕ} {funct3 : BitVec 3} {funct7 : ℕ}
  {format : InstructionType} {major : DecoderMajorInstructionFamilyKey}
  {minors : List DecoderInstructionVariantsKey}

theorem StoreOp.variants_kind (supportLessThanWord : Bool) (funct3 : BitVec 3) :
    (StoreOp.variants supportLessThanWord funct3.toNat).all fun minors =>
      (StoreKind.ofFunct3 funct3).any fun kind =>
        (!supportLessThanWord || decide (.storeWord ∈ minors)) == decide (kind = .sw) &&
        (supportLessThanWord && decide (.storeHalfWord ∈ minors)) == decide (kind = .sh) := by
  revert funct3
  cases supportLessThanWord <;> decide

theorem store_declared
    (supported : StoreOp.defineDecoderSubspace supportLessThanWord opcode funct3.toNat funct7 =
      some (format, major, minors)) (decoded : flags.Selects major minors) :
    major = .storeCommon ∧ ∃ kind, StoreKind.ofFunct3 funct3 = some kind ∧
      storesWord supportLessThanWord flags = decide (kind = .sw) ∧
      storesHalf supportLessThanWord flags = decide (kind = .sh) := by
  unfold StoreOp.defineDecoderSubspace at supported
  split_ifs at supported
  obtain ⟨minors, found, same⟩ := Option.map_eq_some_iff.mp supported
  cases same
  have kinds := StoreOp.variants_kind supportLessThanWord funct3
  rw [found, Option.all_some, Option.any_eq_true] at kinds
  obtain ⟨kind, encodes, fits⟩ := kinds
  rw [Bool.and_eq_true, beq_iff_eq, beq_iff_eq] at fits
  rw [storesWord, storesHalf, decoded.minor_iff, decoded.minor_iff]
  exact ⟨rfl, kind, encodes, fits⟩

include machine in
/-- Every satisfying assignment of a row that executes a store writes to the word of RAM that
contains the address, where it replaces the addressed bytes by the lowest bytes of the value. A
misaligned address or one in ROM has no such assignment, and every other address has one. -/
theorem storeRow_sound_and_complete
    (supported : StoreOp.defineDecoderSubspace supportLessThanWord opcode funct3.toNat funct7 =
      some (format, major, minors)) (decoded : flags.Selects major minors)
    (base imm old value : BitVec 32) :
    ∃ kind, StoreKind.ofFunct3 funct3 = some kind ∧
      (∀ (assignment : List F) (diffs : CommonDiffs) (query : ShuffleRamMemQuery),
        (storeCircuit tables supportLessThanWord flags (.ofWord base) (.ofWord value) (.ofWord imm)
          (limbsOf old)).run assignment = some ((diffs, query), []) →
        kind.bytes ∣ (base + imm).toNat ∧ 2 ^ (16 + romBits) ≤ (base + imm).toNat ∧
        query.isRegister = .is 0 ∧ query.address = limbsOf (alignedAddress (base + imm)) ∧
        query.readValue = limbsOf old ∧
        ∃ written : BitVec 32, query.writeValue = limbsOf written ∧
          ∀ index < 4, byteAt written index =
            if (base + imm).toNat % 4 ≤ index ∧ index < (base + imm).toNat % 4 + kind.bytes then
              byteAt value (index - (base + imm).toNat % 4)
            else byteAt old index) ∧
      (kind.bytes ∣ (base + imm).toNat → 2 ^ (16 + romBits) ≤ (base + imm).toNat →
        ∃ (assignment : List F) (result : CommonDiffs × ShuffleRamMemQuery),
          (storeCircuit tables supportLessThanWord flags (.ofWord base) (.ofWord value)
            (.ofWord imm) (limbsOf old)).run assignment = some (result, [])) := by
  obtain ⟨rfl, kind, encodes, word, half⟩ := store_declared supported decoded
  have executing : flags.majorFlag .storeCommon = true := decoded.major_iff _
  have yields := yields_storeCircuit machine supportLessThanWord executing base imm old value
  simp only [word, half] at yields
  have alignment : kind.bytes ∣ (base + imm).toNat ↔
      (decide (kind = .sw) = true → (base + imm).toNat % 4 = 0) ∧
        (decide (kind = .sh) = true → (base + imm).toNat % 2 = 0) := by
    cases kind <;> simp [StoreKind.bytes, Nat.dvd_iff_mod_eq_zero]
  refine ⟨kind, encodes, ?_, ?_⟩
  · intro assignment diffs query accepted
    obtain ⟨wordAligned, halfAligned, ram, same⟩ :=
      (yields _).mp ((yields_iff_run _ _).mpr ⟨assignment, accepted⟩)
    cases same
    have aligned := alignment.mpr ⟨wordAligned, halfAligned⟩
    refine ⟨aligned, of_decide_eq_true ram, rfl, rfl, rfl, _, rfl, ?_⟩
    intro index inside
    exact byteAt_wordAfterStore kind (base + imm) old value aligned inside
  · intro aligned ram
    obtain ⟨wordAligned, halfAligned⟩ := alignment.mp aligned
    obtain ⟨assignment, accepted⟩ := (yields_iff_run _ _).mp
      ((yields _).mpr ⟨wordAligned, halfAligned, decide_eq_true ram, rfl⟩)
    exact ⟨assignment, _, accepted⟩

end

def storeByteFlags : BooleanSet where
  majorFlag key := decide (key = .storeCommon)
  minorFlag _ _ := false

theorem storeRow_last_byte :
    ∃ (assignment : List F) (diffs : CommonDiffs) (query : ShuffleRamMemQuery),
      (storeCircuit (machineTables 5 []) true storeByteFlags (.ofWord 0x200000) (.ofWord 0x1ff)
        (.ofWord 3) (limbsOf 0x11223344)).run assignment = some ((diffs, query), []) ∧
      query.address = limbsOf 0x200000 ∧
      ∃ written : BitVec 32, query.writeValue = limbsOf written ∧ byteAt written 3 = 0xff ∧
        byteAt written 2 = 0x22 := by
  have supported : StoreOp.defineDecoderSubspace true operationStore (0b000 : BitVec 3).toNat 0 =
      some (.sType, .storeCommon, []) := rfl
  have decoded : storeByteFlags.Selects .storeCommon [] :=
    ⟨fun _ => rfl, fun minor => by cases minor <;> rfl⟩
  obtain ⟨kind, encodes, sound, complete⟩ := storeRow_sound_and_complete (machineTables_spec 5 [])
    supported decoded 0x200000 3 0x11223344 0x1ff
  cases encodes
  obtain ⟨assignment, ⟨diffs, query⟩, accepted⟩ := complete (by decide) (by decide)
  obtain ⟨_, _, _, target, _, written, writes, bytes⟩ := sound assignment diffs query accepted
  exact ⟨assignment, diffs, query, accepted, target, written, writes, bytes 3 (by decide),
    bytes 2 (by decide)⟩

end Airbender.Machine

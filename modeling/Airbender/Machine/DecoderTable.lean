import Airbender.Machine.Decoder

/-!
# The decoder's table

The mask that the table of opcodes stores for an instruction, bit by bit: one bit for each format,
family and variant. `Declared` says which of them an operation's subspace sets.
-/

namespace Airbender.Machine

open CircuitLib Circuit Mersenne31Field Cs List

def bitsBelow (count number : ℕ) : List Bool := (List.range count).map number.testBit

@[simp] theorem length_bitsBelow (count number : ℕ) : (bitsBelow count number).length = count := by
  simp [bitsBelow]

theorem bitsBelow_add (first second number : ℕ) :
    bitsBelow (first + second) number =
      bitsBelow first number ++ bitsBelow second (number >>> first) := by
  simp [bitsBelow, range_add, Function.comp_def, Nat.testBit_shiftRight]

theorem getElem?_bitsBelow {count number index : ℕ} (inside : index < count) :
    (bitsBelow count number)[index]? = some (number.testBit index) := by
  simp [bitsBelow, inside]

theorem ofDigits_bitsBelow (count number : ℕ) :
    Nat.ofDigits 2 ((bitsBelow count number).map Bool.toNat) = number % 2 ^ count := by
  induction count with
  | zero => simp [bitsBelow, Nat.mod_one]
  | succ count ih =>
    have last : bitsBelow 1 (number >>> count) = [number.testBit count] := by
      simp only [bitsBelow, range_one, map_cons, map_nil, Nat.testBit_shiftRight, Nat.add_zero]
    rw [bitsBelow_add, map_append, Nat.ofDigits_append, ih, length_map, length_bitsBelow,
      Nat.mod_pow_succ, last, map_singleton, Nat.ofDigits_singleton, Nat.toNat_testBit]

theorem ofDigits_bits_lt (flags : List Bool) :
    Nat.ofDigits 2 (flags.map Bool.toNat) < 2 ^ flags.length := by
  have bounded := Nat.ofDigits_lt_base_pow_length (b := 2) (by omega)
    (show ∀ digit ∈ flags.map Bool.toNat, digit < 2 by
      intro digit member
      obtain ⟨flag, _, rfl⟩ := mem_map.mp member
      exact Bool.toNat_lt flag)
  rwa [length_map] at bounded

theorem ofDigits_eq_iff {flags : List Bool} {count number : ℕ} (length : flags.length = count) :
    Nat.ofDigits 2 (flags.map Bool.toNat) = number % 2 ^ count ↔
      flags = bitsBelow count number := by
  constructor
  · intro same
    rw [← ofDigits_bitsBelow] at same
    have digits : ∀ list : List Bool, ∀ digit ∈ list.map Bool.toNat, digit < 2 := by
      intro list digit member
      obtain ⟨flag, _, rfl⟩ := mem_map.mp member
      exact Bool.toNat_lt flag
    have sameDigits := Nat.ofDigits_inj_of_len_eq (by omega) (by simp [length]) (digits flags)
      (digits (bitsBelow count number)) same
    exact map_injective_iff.mpr (Function.LeftInverse.injective Bool.ofNat_toNat) sameDigits
  · rintro rfl
    exact ofDigits_bitsBelow count number

def flagVariable (flag : Bool) : Boolean := .is (bit flag)

theorem yields_addSplittingBits (count : ℕ) (result : List Boolean × F) :
    (addSplittingBits count).Yields result ↔
      ∃ flags : List Bool, flags.length = count ∧
        (flags.map flagVariable, ((Nat.ofDigits 2 (flags.map Bool.toNat) : ℕ) : F)) = result := by
  induction count generalizing result with
  | zero => simp [addSplittingBits]
  | succ count ih =>
    have step : addSplittingBits (count + 1) = (do
        let bits ← addSplittingBits count
        let fresh ← addBooleanVariable
        pure (bits.1 ++ [fresh], bits.2 + 2 ^ count * fresh.value)) := by
      simp [addSplittingBits, range_succ]
    rw [step, yields_bind]
    simp only [ih, yields_bind, yields_addBooleanVariable, yields_pure]
    have appended : ∀ (flags : List Bool) (flag : Bool), flags.length = count →
        ((flags ++ [flag]).map flagVariable,
          ((Nat.ofDigits 2 ((flags ++ [flag]).map Bool.toNat) : ℕ) : F)) =
        (flags.map flagVariable ++ [Boolean.is (bit flag)],
          ((Nat.ofDigits 2 (flags.map Bool.toNat) : ℕ) : F) +
            2 ^ count * (Boolean.is (bit flag)).value) := by
      intro flags flag length
      rw [map_append, map_append, Nat.ofDigits_append, length_map, length]
      simp [flagVariable, bit_eq_natCast]
    constructor
    · rintro ⟨_, ⟨flags, length, rfl⟩, _, ⟨flag, rfl⟩, rfl⟩
      exact ⟨flags ++ [flag], by simp [length], appended flags flag length⟩
    · rintro ⟨flags, length, rfl⟩
      obtain ⟨initial, last, rfl⟩ : ∃ initial last, flags = initial ++ [last] :=
        ⟨flags.dropLast, flags.getLast (by rintro rfl; simp at length),
          (dropLast_append_getLast _).symm⟩
      have initialLength : initial.length = count := by simpa using length
      exact ⟨_, ⟨initial, initialLength, rfl⟩, _, ⟨last, rfl⟩,
        (appended initial last initialLength).symm⟩

section

variable {allOpcodes : List DecodableMachineOp}

theorem mem_familiesByName (major : DecoderMajorInstructionFamilyKey) : major ∈ familiesByName := by
  cases major <;> decide

theorem mem_variantsByName (minor : DecoderInstructionVariantsKey) : minor ∈ variantsByName := by
  cases minor <;> decide

theorem mem_declaredSubspaces {opcode func3 func7 : ℕ} {declared : DecoderSubspace}
    (opcodeBound : opcode < 2 ^ 7) (func3Bound : func3 < 2 ^ 3) (func7Bound : func7 < 2 ^ 7)
    (supported : supportedSubspace allOpcodes opcode func3 func7 = some declared) :
    declared ∈ declaredSubspaces allOpcodes := by
  unfold declaredSubspaces
  refine mem_filterMap.mpr ⟨opcode + 2 ^ 7 * func3 + 2 ^ 10 * func7, ?_, ?_⟩
  · rw [mem_range]
    omega
  · rw [← supported]
    congr 1 <;> omega

variable {major : DecoderMajorInstructionFamilyKey} {minors : List DecoderInstructionVariantsKey}

theorem mem_majors {format : InstructionType}
    (declared : (format, major, minors) ∈ declaredSubspaces allOpcodes) :
    major ∈ (allDecoderKeys allOpcodes).majors := by
  refine mem_filter.mpr ⟨mem_familiesByName major, any_eq_true.mpr ⟨_, declared, ?_⟩⟩
  simp

theorem mem_minors {format : InstructionType}
    (declared : (format, major, minors) ∈ declaredSubspaces allOpcodes)
    {minor : DecoderInstructionVariantsKey} (member : minor ∈ minors) :
    minor ∈ (allDecoderKeys allOpcodes).minors major := by
  refine mem_filter.mpr ⟨mem_variantsByName minor, any_eq_true.mpr ⟨_, declared, ?_⟩⟩
  simp [member]

theorem length_minors_le (major : DecoderMajorInstructionFamilyKey)
    (declared : major ∈ (allDecoderKeys allOpcodes).majors) :
    ((allDecoderKeys allOpcodes).minors major).length ≤
      (allDecoderKeys allOpcodes).maxMinorKeys := by
  have bounded : ∀ (lengths : List ℕ) (start value : ℕ), value = start ∨ value ∈ lengths →
      value ≤ lengths.foldl max start := by
    intro lengths
    induction lengths with
    | nil => simp
    | cons length lengths ih =>
      intro start value member
      rw [foldl_cons]
      rcases member with rfl | member
      · exact (le_max_left value length).trans (ih _ _ (.inl rfl))
      · rcases mem_cons.mp member with rfl | member
        · exact (le_max_right start value).trans (ih _ _ (.inl rfl))
        · exact ih _ _ (.inr member)
  exact bounded _ _ _ (.inr (mem_map.mpr ⟨major, declared, rfl⟩))

theorem maxMinorKeys_le : (allDecoderKeys allOpcodes).maxMinorKeys ≤ 21 := by
  have bounded : ∀ (lengths : List ℕ) (start : ℕ), start ≤ 21 → (∀ value ∈ lengths, value ≤ 21) →
      lengths.foldl max start ≤ 21 := by
    intro lengths
    induction lengths with
    | nil => simp
    | cons length lengths ih =>
      intro start startBound bounds
      rw [foldl_cons]
      exact ih _ (max_le startBound (bounds _ mem_cons_self))
        fun value member => bounds value (mem_cons_of_mem _ member)
  refine bounded _ _ (by omega) fun value member => ?_
  obtain ⟨major, _, rfl⟩ := mem_map.mp member
  exact length_filter_le _ _

theorem totalUsedBits_le (allOpcodes : List DecodableMachineOp) :
    totalUsedBits allOpcodes ≤ 2 * fieldCapacity := by
  have majors : (allDecoderKeys allOpcodes).majors.length ≤ 14 := length_filter_le _ _
  have minors : (allDecoderKeys allOpcodes).maxMinorKeys ≤ 21 := maxMinorKeys_le
  unfold totalUsedBits minorKeyOffset majorKeyOffset numInstructionTypes fieldCapacity
  omega

end

section

variable (allOpcodes : List DecodableMachineOp)

def maskBit (format : InstructionType) (major : DecoderMajorInstructionFamilyKey)
    (minors : List DecoderInstructionVariantsKey) (index : ℕ) : Prop :=
  index = 1 + format.index ∨
    index = majorKeyOffset + (allDecoderKeys allOpcodes).getMajorIndex major ∨
    ∃ minor ∈ minors,
      index = minorKeyOffset allOpcodes + (allDecoderKeys allOpcodes).getMinorIndex major minor

theorem testBit_shifted_one (position offset index : ℕ) :
    ((1 <<< position) <<< offset).testBit index = true ↔ index = offset + position := by
  rw [← Nat.shiftLeft_add, Nat.one_shiftLeft, Nat.testBit_two_pow, decide_eq_true_eq]
  omega

variable {major : DecoderMajorInstructionFamilyKey} {minors : List DecoderInstructionVariantsKey}

theorem testBit_decoderBitmask {opcode func3 func7 : ℕ} {format : InstructionType}
    (supported : supportedSubspace allOpcodes opcode func3 func7 = some (format, major, minors))
    (index : ℕ) :
    (decoderBitmask allOpcodes opcode func3 func7).testBit index = true ↔
      maskBit allOpcodes format major minors index := by
  have folded : ∀ (minors : List DecoderInstructionVariantsKey) (mask : ℕ),
      (minors.foldl (fun mask minor => mask |||
        ((1 <<< (allDecoderKeys allOpcodes).getMinorIndex major minor) <<<
          minorKeyOffset allOpcodes)) mask).testBit index = true ↔
        mask.testBit index = true ∨ ∃ minor ∈ minors,
          index = minorKeyOffset allOpcodes +
            (allDecoderKeys allOpcodes).getMinorIndex major minor := by
    intro minors
    induction minors with
    | nil => simp
    | cons minor minors ih =>
      intro mask
      rw [foldl_cons, ih, Nat.testBit_or, Bool.or_eq_true, testBit_shifted_one]
      simp [or_assoc]
  simp only [decoderBitmask, supported]
  rw [folded, Nat.testBit_or, Bool.or_eq_true, testBit_shifted_one, testBit_shifted_one, or_assoc]
  rfl

theorem getMajorIndex_lt (declared : major ∈ (allDecoderKeys allOpcodes).majors) :
    (allDecoderKeys allOpcodes).getMajorIndex major <
      (allDecoderKeys allOpcodes).majors.length := idxOf_lt_length_of_mem declared

theorem getMinorIndex_lt {minor : DecoderInstructionVariantsKey}
    (declaredMajor : major ∈ (allDecoderKeys allOpcodes).majors)
    (declared : minor ∈ (allDecoderKeys allOpcodes).minors major) :
    (allDecoderKeys allOpcodes).getMinorIndex major minor <
      (allDecoderKeys allOpcodes).maxMinorKeys :=
  (idxOf_lt_length_of_mem declared).trans_le (length_minors_le major declaredMajor)

theorem InstructionType.index_lt (format : InstructionType) :
    format.index < numInstructionTypes := by
  cases format <;> decide

theorem InstructionType.index_inj {left right : InstructionType} :
    left.index = right.index ↔ left = right := by
  cases left <;> cases right <;> decide

/-- Keys that the machine declares together for some encoding. -/
structure Declared (major : DecoderMajorInstructionFamilyKey)
    (minors : List DecoderInstructionVariantsKey) : Prop where
  major_mem : major ∈ (allDecoderKeys allOpcodes).majors
  minors_mem : ∀ minor ∈ minors, minor ∈ (allDecoderKeys allOpcodes).minors major

theorem declared_of_supported {opcode func3 func7 : ℕ} {format : InstructionType}
    (opcodeBound : opcode < 2 ^ 7) (func3Bound : func3 < 2 ^ 3) (func7Bound : func7 < 2 ^ 7)
    (supported : supportedSubspace allOpcodes opcode func3 func7 = some (format, major, minors)) :
    Declared allOpcodes major minors :=
  have member := mem_declaredSubspaces opcodeBound func3Bound func7Bound supported
  ⟨mem_majors member, fun _ inMinors => mem_minors member inMinors⟩

variable {allOpcodes}

section

variable {format : InstructionType} {major : DecoderMajorInstructionFamilyKey}
  {minors : List DecoderInstructionVariantsKey}

theorem maskBit_lt (declared : Declared allOpcodes major minors) {index : ℕ}
    (set : maskBit allOpcodes format major minors index) : index < totalUsedBits allOpcodes := by
  have formatBound := format.index_lt
  have majorBound := getMajorIndex_lt allOpcodes declared.major_mem
  unfold totalUsedBits minorKeyOffset majorKeyOffset
  rcases set with rfl | rfl | ⟨minor, member, rfl⟩
  · omega
  · unfold majorKeyOffset
    omega
  · have minorBound := getMinorIndex_lt allOpcodes declared.major_mem
      (declared.minors_mem minor member)
    unfold minorKeyOffset majorKeyOffset
    omega

theorem maskBit_zero : ¬ maskBit allOpcodes format major minors 0 := by
  unfold maskBit minorKeyOffset majorKeyOffset
  rintro (same | same | ⟨_, _, same⟩) <;> omega

theorem maskBit_format (other : InstructionType) :
    maskBit allOpcodes format major minors (1 + other.index) ↔ other = format := by
  have otherBound := other.index_lt
  rw [← InstructionType.index_inj]
  unfold maskBit minorKeyOffset majorKeyOffset
  constructor
  · rintro (same | same | ⟨_, _, same⟩) <;> omega
  · intro same
    exact .inl (by omega)

theorem maskBit_major {other : DecoderMajorInstructionFamilyKey}
    (otherDeclared : other ∈ (allDecoderKeys allOpcodes).majors) :
    maskBit allOpcodes format major minors
      (majorKeyOffset + (allDecoderKeys allOpcodes).getMajorIndex other) ↔ other = major := by
  have formatBound := format.index_lt
  have otherBound := getMajorIndex_lt allOpcodes otherDeclared
  constructor
  · rintro (same | same | ⟨_, _, same⟩)
    · unfold majorKeyOffset at same
      omega
    · exact (idxOf_inj otherDeclared).mp (Nat.add_left_cancel same)
    · unfold minorKeyOffset at same
      omega
  · rintro rfl
    exact .inr (.inl rfl)

theorem maskBit_minor (declared : Declared allOpcodes major minors)
    {other : DecoderInstructionVariantsKey}
    (otherDeclared : other ∈ (allDecoderKeys allOpcodes).minors major) :
    maskBit allOpcodes format major minors
      (minorKeyOffset allOpcodes + (allDecoderKeys allOpcodes).getMinorIndex major other) ↔
        other ∈ minors := by
  have formatBound := format.index_lt
  have majorBound := getMajorIndex_lt allOpcodes declared.major_mem
  constructor
  · rintro (same | same | ⟨minor, member, same⟩)
    · unfold minorKeyOffset majorKeyOffset at same
      omega
    · unfold minorKeyOffset at same
      omega
    · rwa [(idxOf_inj otherDeclared).mp (Nat.add_left_cancel same)]
  · intro member
    exact .inr (.inr ⟨other, member, rfl⟩)

end

theorem decoderBitmask_lt {opcode func3 func7 : ℕ} (opcodeBound : opcode < 2 ^ 7)
    (func3Bound : func3 < 2 ^ 3) (func7Bound : func7 < 2 ^ 7) :
    decoderBitmask allOpcodes opcode func3 func7 < 2 ^ totalUsedBits allOpcodes := by
  cases supported : supportedSubspace allOpcodes opcode func3 func7 with
  | none =>
    have seven : 7 ≤ totalUsedBits allOpcodes := by
      unfold totalUsedBits minorKeyOffset majorKeyOffset numInstructionTypes
      omega
    have enough : 2 ^ 7 ≤ 2 ^ totalUsedBits allOpcodes := Nat.pow_le_pow_right (by omega) seven
    have mask : decoderBitmask allOpcodes opcode func3 func7 = 17 := by
      simp [decoderBitmask, supported, basicInvalidBitmask, InstructionType.index]
    omega
  | some declared =>
    obtain ⟨format, major, minors⟩ := declared
    have declared := declared_of_supported allOpcodes opcodeBound func3Bound func7Bound supported
    refine Nat.lt_pow_two_of_testBit _ fun index outside => ?_
    rw [Bool.eq_false_iff, ne_eq, testBit_decoderBitmask allOpcodes supported]
    intro set
    have inside := maskBit_lt declared set
    omega

end

section

variable {allOpcodes : List DecodableMachineOp} {tables : TableDriver}

theorem decoderTableSplitting_spec (allOpcodes : List DecodableMachineOp) :
    (decoderTableSplitting allOpcodes).1 + (decoderTableSplitting allOpcodes).2 =
        totalUsedBits allOpcodes ∧
      (decoderTableSplitting allOpcodes).1 ≤ 30 ∧ (decoderTableSplitting allOpcodes).2 ≤ 30 := by
  have bounded := totalUsedBits_le allOpcodes
  unfold decoderTableSplitting fieldCapacity at *
  simp only
  omega

theorem column_iff {flags : List Bool} {count number : ℕ} (length : flags.length = count)
    (small : count ≤ 30) (bounded : number < 2 ^ count) :
    ((Nat.ofDigits 2 (flags.map Bool.toNat) : ℕ) : F) = (number : F) ↔
      flags = bitsBelow count number := by
  have powers : 2 ^ count ≤ 2 ^ 30 := Nat.pow_le_pow_right (by omega) small
  have flagsBound := ofDigits_bits_lt flags
  rw [length] at flagsBound
  rw [← ofDigits_eq_iff length, Nat.mod_eq_of_lt bounded]
  constructor
  · intro same
    exact nat_eq same (by omega) (by omega)
  · intro same
    rw [same]

def exposedBits (allOpcodes : List DecodableMachineOp) (mask : ℕ) :
    Boolean × List Boolean × List Boolean :=
  (flagVariable (mask.testBit 0), (bitsBelow numInstructionTypes (mask >>> 1)).map flagVariable,
    (bitsBelow (totalUsedBits allOpcodes - 7) (mask >>> 7)).map flagVariable)

theorem bitsBelow_totalUsedBits (mask : ℕ) :
    bitsBelow (totalUsedBits allOpcodes) mask =
      mask.testBit 0 :: (bitsBelow numInstructionTypes (mask >>> 1) ++
        bitsBelow (totalUsedBits allOpcodes - 7) (mask >>> 7)) := by
  have total : totalUsedBits allOpcodes =
      1 + (numInstructionTypes + (totalUsedBits allOpcodes - 7)) := by
    unfold totalUsedBits minorKeyOffset majorKeyOffset numInstructionTypes
    omega
  have seven : mask >>> 1 >>> numInstructionTypes = mask >>> 7 := by
    rw [← Nat.shiftRight_add]
    rfl
  rw [total, bitsBelow_add, bitsBelow_add, seven, ← total]
  rfl

theorem yields_exposeBits (mask : ℕ) (result : Boolean × List Boolean × List Boolean) :
    (exposeBits ((bitsBelow (totalUsedBits allOpcodes) mask).map flagVariable)).Yields result ↔
      exposedBits allOpcodes mask = result := by
  have formats : ((bitsBelow numInstructionTypes (mask >>> 1)).map flagVariable).length =
      numInstructionTypes := by simp
  rw [bitsBelow_totalUsedBits, map_cons, map_append, exposeBits]
  simp only [yields_bind, yields_assert, yields_pure, take_left' formats, drop_left' formats,
    length_append, formats, Nat.le_add_right, decide_true, true_and, exists_const]
  rfl

theorem yields_opcodeLookup (decoderTables : DecoderTables allOpcodes tables)
    {opcode funct3 funct7 : ℕ} (opcodeBound : opcode < 2 ^ 7) (funct3Bound : funct3 < 2 ^ 3)
    (funct7Bound : funct7 < 2 ^ 7) (result : Boolean × List Boolean × List Boolean) :
    (opcodeLookup tables (.var opcode) (.var funct3) (funct7 : F)
      (decoderTableSplitting allOpcodes)).Yields result ↔
      exposedBits allOpcodes (decoderBitmask allOpcodes opcode funct3 funct7) = result := by
  obtain ⟨total, firstBound, secondBound⟩ := decoderTableSplitting_spec allOpcodes
  have maskBound := @decoderBitmask_lt allOpcodes _ _ _ opcodeBound funct3Bound funct7Bound
  have key : (opcode : F) + (funct3 : F) * 2 ^ 7 + (funct7 : F) * 2 ^ 10 =
      ((opcode + funct3 * 2 ^ 7 + funct7 * 2 ^ 10 : ℕ) : F) := by push_cast; rfl
  have keyValue : (((opcode + funct3 * 2 ^ 7 + funct7 * 2 ^ 10 : ℕ) : F)).val =
      opcode + funct3 * 2 ^ 7 + funct7 * 2 ^ 10 := val_natCast_of_lt (by omega)
  have keyOpcode : (opcode + funct3 * 2 ^ 7 + funct7 * 2 ^ 10) % 2 ^ 7 = opcode := by omega
  have keyFunct3 : (opcode + funct3 * 2 ^ 7 + funct7 * 2 ^ 10) / 2 ^ 7 % 2 ^ 3 = funct3 := by omega
  have keyFunct7 : (opcode + funct3 * 2 ^ 7 + funct7 * 2 ^ 10) / 2 ^ 10 = funct7 := by omega
  have keyBound : opcode + funct3 * 2 ^ 7 + funct7 * 2 ^ 10 < 2 ^ 17 := by omega
  generalize maskDef : decoderBitmask allOpcodes opcode funct3 funct7 = mask at *
  have secondColumn : mask >>> (decoderTableSplitting allOpcodes).1 <
      2 ^ (decoderTableSplitting allOpcodes).2 := by
    rw [Nat.shiftRight_eq_div_pow, Nat.div_lt_iff_lt_mul (by positivity), ← pow_add,
      Nat.add_comm, total]
    exact maskBound
  have firstColumn : mask % 2 ^ (decoderTableSplitting allOpcodes).1 <
      2 ^ (decoderTableSplitting allOpcodes).1 := Nat.mod_lt _ (by positivity)
  have row : ∀ first second : F,
      tables .opTypeBitmask ⟨(opcode : F) + (funct3 : F) * 2 ^ 7 + (funct7 : F) * 2 ^ 10, first,
        second⟩ = true ↔
      first = ((mask % 2 ^ (decoderTableSplitting allOpcodes).1 : ℕ) : F) ∧
        second = ((mask >>> (decoderTableSplitting allOpcodes).1 : ℕ) : F) := by
    intro first second
    rw [decoderTables.opTypeBitmask, decoderTable, oneKeyTable_iff]
    simp only [key, keyValue, keyOpcode, keyFunct3, keyFunct7, maskDef, Nat.one_shiftLeft,
      Nat.and_two_pow_sub_one_eq_mod, keyBound, true_and]
  have lowBits : bitsBelow (decoderTableSplitting allOpcodes).1
      (mask % 2 ^ (decoderTableSplitting allOpcodes).1) =
      bitsBelow (decoderTableSplitting allOpcodes).1 mask := by
    refine map_congr_left fun index inside => ?_
    rw [Nat.testBit_mod_two_pow, decide_eq_true (mem_range.mp inside), Bool.true_and]
  simp only [opcodeLookup, yields_bind, yields_addSplittingBits,
    yields_enforceLookupTupleForFixedTable, Num.value_var, row]
  constructor
  · rintro ⟨_, ⟨firstFlags, firstLength, rfl⟩, _, ⟨secondFlags, secondLength, rfl⟩, _,
      ⟨firstSame, secondSame⟩, continued⟩
    rw [column_iff firstLength firstBound firstColumn, lowBits] at firstSame
    rw [column_iff secondLength secondBound secondColumn] at secondSame
    rwa [firstSame, secondSame, ← map_append, ← bitsBelow_add, total,
      yields_exposeBits] at continued
  · intro same
    let first := (decoderTableSplitting allOpcodes).1
    let second := (decoderTableSplitting allOpcodes).2
    refine ⟨_, ⟨bitsBelow first mask, length_bitsBelow _ _, rfl⟩, _,
      ⟨bitsBelow second (mask >>> first), length_bitsBelow _ _, rfl⟩, (), ⟨?_, ?_⟩, ?_⟩
    · rw [column_iff (length_bitsBelow _ _) firstBound firstColumn, lowBits]
    · rw [column_iff (length_bitsBelow _ _) secondBound secondColumn]
    · rwa [← map_append, ← bitsBelow_add, total, yields_exposeBits]

end

end Airbender.Machine

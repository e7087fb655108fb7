import Airbender.Memory.Access

/-!
# Columns and addresses of indirect accesses

A delegation circuit accesses words at constant offsets from the values of registers. Their
addresses are linear expressions of the two limbs of the register; a carry column joins them only
where the declared alignment and the number of words leave room for a carry.
-/

namespace Airbender.OneRowCompiler

open Mersenne31Field Memory List

/-- One register and the words behind it; the list tells which of the words are written. -/
structure RegisterAccessRequest where
  registerIndex : ℕ
  registerWrite : Bool
  indirectsAlignmentLog2 : ℕ
  indirectAccesses : List Bool
deriving DecidableEq

/-- First columns of the sets; timestamps and values take two columns each. -/
structure RegisterAccessColumns where
  registerIndex : ℕ
  readTimestamp : ℕ
  readValue : ℕ
  writeValue : Option ℕ
deriving DecidableEq

structure IndirectAccessColumns where
  readTimestamp : ℕ
  readValue : ℕ
  writeValue : Option ℕ
  offset : ℕ
  addressDerivationCarryBit : Option ℕ
deriving DecidableEq

structure RegisterAndIndirectAccessDescription where
  registerAccess : RegisterAccessColumns
  indirectAccesses : List IndirectAccessColumns
deriving DecidableEq

namespace RegisterAccessRequest

variable (request : RegisterAccessRequest)

/-- A declared alignment spares the carries when all words fit one aligned block. Without overflow
checks, machine words are shifted by the amount modulo their width. -/
def considerAligned : Bool :=
  if request.indirectsAlignmentLog2 < 2 then false
  else decide (request.indirectAccesses.length ≤
    1 <<< ((request.indirectsAlignmentLog2 - 2) % 64))

/-- `from_u64_unchecked` takes the lower half of its argument. -/
def alignmentFactor : Mersenne31Field :=
  ((1 <<< (request.indirectsAlignmentLog2 % 64) % 2 ^ 32 : ℕ) : Mersenne31Field)

end RegisterAccessRequest

def layoutWriteValue (memoryTreeOffset : ℕ) (isWrite : Bool) : Option ℕ × ℕ :=
  if isWrite then (some memoryTreeOffset, memoryTreeOffset + 2) else (none, memoryTreeOffset)

def layoutAddressCarry (considerAligned : Bool) (idx memoryTreeOffset : ℕ) : Option ℕ × ℕ :=
  if idx = 0 then (none, memoryTreeOffset)
  else if considerAligned then (none, memoryTreeOffset)
  else (some memoryTreeOffset, memoryTreeOffset + 1)

def compileIndirectAccess (considerAligned : Bool) (idx memoryTreeOffset : ℕ) (isWrite : Bool) :
    Option (IndirectAccessColumns × ℕ) :=
  let (addressDerivationCarryBit, next) :=
    layoutAddressCarry considerAligned idx (memoryTreeOffset + 2)
  let (writeValue, final) := layoutWriteValue (next + 2) isWrite
  if idx * 4 < 1 <<< 16 then
    some ({ readTimestamp := memoryTreeOffset
            readValue := next
            writeValue
            offset := idx * 4
            addressDerivationCarryBit }, final)
  else none

def compileIndirectAccesses (considerAligned : Bool) :
    (idx memoryTreeOffset : ℕ) → List Bool → Option (List IndirectAccessColumns × ℕ)
  | _, memoryTreeOffset, [] => some ([], memoryTreeOffset)
  | idx, memoryTreeOffset, isWrite :: rest => do
      let (access, next) ← compileIndirectAccess considerAligned idx memoryTreeOffset isWrite
      let (accesses, final) ← compileIndirectAccesses considerAligned (idx + 1) next rest
      some (access :: accesses, final)

/-- The columns of one request. Words need a pointer aligned to words, and the alignment has to
be an invertible element of the field. -/
def compileRegisterAccess (memoryTreeOffset : ℕ) (request : RegisterAccessRequest) :
    Option (RegisterAndIndirectAccessDescription × ℕ) := do
  guard (0 < request.registerIndex)
  guard (request.registerIndex < 32)
  let (writeValue, next) := layoutWriteValue (memoryTreeOffset + 4) request.registerWrite
  guard (request.indirectAccesses = [] ∨
    2 ≤ request.indirectsAlignmentLog2 ∧ request.alignmentFactor ≠ 0)
  let (indirectAccesses, final) ←
    compileIndirectAccesses request.considerAligned 0 next request.indirectAccesses
  some ({ registerAccess :=
            { registerIndex := request.registerIndex
              readTimestamp := memoryTreeOffset
              readValue := memoryTreeOffset + 2
              writeValue }
          indirectAccesses }, final)

def compileRegisterAccesses : (memoryTreeOffset : ℕ) → List RegisterAccessRequest →
    Option (List (RegisterAccessRequest × RegisterAndIndirectAccessDescription) × ℕ)
  | memoryTreeOffset, [] => some ([], memoryTreeOffset)
  | memoryTreeOffset, request :: rest => do
      let (description, next) ← compileRegisterAccess memoryTreeOffset request
      let (descriptions, final) ← compileRegisterAccesses next rest
      some ((request, description) :: descriptions, final)

/-- A linear expression over the columns of the memory subtree. -/
structure CompiledDegree1Constraint where
  linearTerms : List (Mersenne31Field × ℕ)
  constantTerm : Mersenne31Field
deriving DecidableEq

namespace CompiledDegree1Constraint

def evaluate (constraint : CompiledDegree1Constraint) (row : ℕ → Mersenne31Field) :
    Mersenne31Field :=
  (constraint.linearTerms.map fun (coefficient, column) => coefficient * row column).sum
    + constraint.constantTerm

end CompiledDegree1Constraint

/-- The low limb of the pointer divided by its alignment. -/
def alignmentExpression (request : RegisterAccessRequest) (readValue : ℕ) :
    CompiledDegree1Constraint :=
  ⟨[(request.alignmentFactor⁻¹, readValue)], 0⟩

def addressLowExpression (readValue carry offset : ℕ) : CompiledDegree1Constraint :=
  ⟨[(1, readValue), (-(2 ^ 16 : Mersenne31Field), carry)], (offset : Mersenne31Field)⟩

def addressHighExpression (readValue carry : ℕ) : CompiledDegree1Constraint :=
  ⟨[(1, readValue + 1), (1, carry)], 0⟩

/-- The expressions of a request that are looked up in the table of 16-bit numbers. -/
def rangeCheck16Expressions (request : RegisterAccessRequest)
    (description : RegisterAndIndirectAccessDescription) : List CompiledDegree1Constraint :=
  let readValue := description.registerAccess.readValue
  (if request.indirectAccesses = [] then [] else [alignmentExpression request readValue]) ++
    description.indirectAccesses.flatMap fun access =>
      match access.addressDerivationCarryBit with
      | none => []
      | some carry =>
        [addressLowExpression readValue carry access.offset, addressHighExpression readValue carry]

/-- Every access compares two limbs of timestamps. -/
def timestampComparisons (requests : List RegisterAccessRequest) : ℕ :=
  (requests.map fun request => 2 * (1 + request.indirectAccesses.length)).sum

/-- The accesses of a delegation circuit with `rangeChecks16` range checks of its own. The number
of lookups has to stay below the characteristic of the field. -/
def compileMemoryAccesses (traceLenLog2 rangeChecks16 memoryTreeOffset : ℕ)
    (requests : List RegisterAccessRequest) :
    Option (List (RegisterAccessRequest × RegisterAndIndirectAccessDescription) × ℕ) := do
  guard (19 < traceLenLog2)
  let (layout, final) ← compileRegisterAccesses memoryTreeOffset requests
  let extraRangeChecks16 := layout.flatMap fun entry => rangeCheck16Expressions entry.1 entry.2
  guard ((rangeChecks16 + extraRangeChecks16.length) * 2 ^ traceLenLog2 < 2 ^ 31 - 1)
  guard (timestampComparisons requests * 2 ^ traceLenLog2 < 2 ^ 31 - 1)
  some (layout, final)

/-- A row passes the range checks, and its carries pass the Boolean constraint of the quotient. -/
structure AddressChecks (request : RegisterAccessRequest)
    (description : RegisterAndIndirectAccessDescription) (row : ℕ → Mersenne31Field) : Prop where
  ranges : ∀ expression ∈ rangeCheck16Expressions request description,
    (expression.evaluate row).val < 2 ^ 16
  carries : ∀ access ∈ description.indirectAccesses,
    ∀ carry ∈ access.addressDerivationCarryBit, row carry * (row carry - 1) = 0

def valueAt (row : ℕ → Mersenne31Field) (start : ℕ) : Mersenne31Field × Mersenne31Field :=
  (row start, row (start + 1))

def indirectQuery (row : ℕ → Mersenne31Field) (register : RegisterAccessColumns)
    (access : IndirectAccessColumns) (borrow : Mersenne31Field) : DelegationQuery where
  address := .indirect (valueAt row register.readValue) access.offset
    (access.addressDerivationCarryBit.map row)
  readTimestamp := valueAt row access.readTimestamp
  readValue := valueAt row access.readValue
  writeValue := access.writeValue.map (valueAt row)
  borrow := borrow

def wordLimbs (word : ℕ) : Mersenne31Field × Mersenne31Field :=
  (((word % 2 ^ 16 : ℕ) : Mersenne31Field), ((word / 2 ^ 16 : ℕ) : Mersenne31Field))

/-- Behind every word in the register, the accesses go to the words that follow it. -/
def AddressesExact (description : RegisterAndIndirectAccessDescription)
    (row : ℕ → Mersenne31Field) : Prop :=
  ∀ base < 2 ^ 32, valueAt row description.registerAccess.readValue = wordLimbs base →
    ∀ (index : ℕ) (access : IndirectAccessColumns),
      description.indirectAccesses[index]? = some access →
      ∀ (delegation : DelegationRow) (borrow : Mersenne31Field),
        base + 4 * index < 2 ^ 32 ∧
          (Access.delegation delegation
            (indirectQuery row description.registerAccess access borrow)).location =
            (0, wordLimbs (base + 4 * index))

/-- `stage_2_indirect_access_assemble_address_contribution`: the prover adds the offset to the
limbs as machine words and asserts that the high limb does not overflow. -/
def stage2IndirectAddress (baseValue : BitVec 16 × BitVec 16) (offset : BitVec 16) :
    Option (BitVec 16 × BitVec 16) :=
  let addressLow := baseValue.1 + offset
  let overflow := decide (2 ^ 16 ≤ baseValue.1.toNat + offset.toNat)
  let addressHigh := baseValue.2 + BitVec.ofNat 16 overflow.toNat
  if 2 ^ 16 ≤ baseValue.2.toNat + overflow.toNat then none else some (addressLow, addressHigh)

structure IndirectAccessAt (considerAligned : Bool) (idx first final : ℕ)
    (access : IndirectAccessColumns) : Prop where
  offset : access.offset = idx * 4
  offset_lt : access.offset < 2 ^ 16
  carry_isNone : access.addressDerivationCarryBit = none ↔ idx = 0 ∨ considerAligned = true
  carry_range : ∀ carry ∈ access.addressDerivationCarryBit, first ≤ carry ∧ carry < final

variable {considerAligned : Bool} {first final : ℕ} {access : IndirectAccessColumns}
  {request : RegisterAccessRequest} {description : RegisterAndIndirectAccessDescription}
  {alignment : ℕ} {layout : List (RegisterAccessRequest × RegisterAndIndirectAccessDescription)}

theorem IndirectAccessAt.mono {idx first' final' : ℕ}
    (spec : IndirectAccessAt considerAligned idx first final access) (below : first' ≤ first)
    (above : final ≤ final') : IndirectAccessAt considerAligned idx first' final' access where
  offset := spec.offset
  offset_lt := spec.offset_lt
  carry_isNone := spec.carry_isNone
  carry_range := by
    intro carry isCarry
    have range := spec.carry_range carry isCarry
    omega

theorem layoutWriteValue_le (memoryTreeOffset : ℕ) (isWrite : Bool) :
    memoryTreeOffset ≤ (layoutWriteValue memoryTreeOffset isWrite).2 := by
  cases isWrite <;> simp [layoutWriteValue]

theorem compileIndirectAccess_spec {isWrite : Bool} {idx : ℕ}
    (compiled : compileIndirectAccess considerAligned idx first isWrite = some (access, final)) :
    first ≤ final ∧ IndirectAccessAt considerAligned idx first final access := by
  unfold compileIndirectAccess at compiled
  dsimp only at compiled
  split_ifs at compiled with small
  cases compiled
  have written := layoutWriteValue_le
    ((layoutAddressCarry considerAligned idx (first + 2)).2 + 2) isWrite
  unfold layoutAddressCarry at written ⊢
  split_ifs at written ⊢ with atZero aligned
  · exact ⟨by omega, ⟨rfl, small, by simp [atZero], by simp⟩⟩
  · exact ⟨by omega, ⟨rfl, small, by simp [aligned], by simp⟩⟩
  · refine ⟨by omega, ⟨rfl, small, by simp [atZero, aligned], ?_⟩⟩
    intro carry isCarry
    cases isCarry
    omega

theorem compileIndirectAccesses_spec {writes : List Bool} {idx : ℕ}
    {accesses : List IndirectAccessColumns}
    (compiled : compileIndirectAccesses considerAligned idx first writes =
      some (accesses, final)) :
    first ≤ final ∧ accesses.length = writes.length ∧
      ∀ (index : ℕ) (access : IndirectAccessColumns), accesses[index]? = some access →
        IndirectAccessAt considerAligned (idx + index) first final access := by
  induction writes generalizing idx first accesses with
  | nil =>
    cases compiled
    simp
  | cons isWrite rest ih =>
    simp only [compileIndirectAccesses, Option.bind_eq_bind, Option.bind_eq_some_iff,
      Prod.exists, Option.some.injEq, Prod.mk.injEq] at compiled
    rcases compiled with ⟨head, next, compiledHead, tail, final', compiledTail, rfl, rfl⟩
    rcases compileIndirectAccess_spec compiledHead with ⟨headLe, headSpec⟩
    rcases ih compiledTail with ⟨tailLe, tailLength, tailSpec⟩
    refine ⟨by omega, by simp [tailLength], ?_⟩
    intro index access found
    cases index with
    | zero =>
      cases found
      exact headSpec.mono (Nat.le_refl _) tailLe
    | succ index =>
      have spec := tailSpec index access (by simpa using found)
      rw [Nat.add_right_comm, Nat.add_assoc] at spec
      exact spec.mono headLe (Nat.le_refl _)

structure RegisterAccessLaidOut (request : RegisterAccessRequest)
    (description : RegisterAndIndirectAccessDescription) (first final : ℕ) : Prop where
  first_le : first ≤ description.registerAccess.readValue
  lt_final : description.registerAccess.readValue + 1 < final
  length : description.indirectAccesses.length = request.indirectAccesses.length
  alignment : request.indirectAccesses ≠ [] →
    2 ≤ request.indirectsAlignmentLog2 ∧ request.alignmentFactor ≠ 0
  access : ∀ (index : ℕ) (access : IndirectAccessColumns),
    description.indirectAccesses[index]? = some access →
      IndirectAccessAt request.considerAligned index
        (description.registerAccess.readValue + 2) final access

theorem compileRegisterAccess_spec
    (compiled : compileRegisterAccess first request = some (description, final)) :
    RegisterAccessLaidOut request description first final := by
  simp only [compileRegisterAccess, Option.bind_eq_bind, Option.bind_eq_some_iff,
    Option.guard_eq_some', Prod.exists, Option.some.injEq, Prod.mk.injEq] at compiled
  rcases compiled with ⟨-, -, -, -, -, alignment, accesses, final', compiledAccesses, rfl, rfl⟩
  rcases compileIndirectAccesses_spec compiledAccesses with ⟨le, length, spec⟩
  have written := layoutWriteValue_le (first + 4) request.registerWrite
  refine ⟨by simp, by dsimp only; omega, length, ?_, ?_⟩
  · intro nonempty
    exact alignment.resolve_left nonempty
  · intro index access found
    have atIndex := spec index access found
    rw [Nat.zero_add] at atIndex
    exact atIndex.mono written (Nat.le_refl _)

theorem inv_two_pow (small : alignment ≤ 31) :
    ((2 ^ alignment : ℕ) : Mersenne31Field)⁻¹ = ((2 ^ (31 - alignment) : ℕ) : Mersenne31Field) := by
  have rotation : ((2 ^ alignment : ℕ) : Mersenne31Field)
      * ((2 ^ (31 - alignment) : ℕ) : Mersenne31Field) = 1 := by
    rw [← Nat.cast_mul, ← pow_add, Nat.add_sub_cancel' small]
    decide
  exact inv_eq_of_mul_eq_one_right rotation

theorem dvd_of_alignment_range {low : ℕ} (small : alignment ≤ 15) (limb : low < 2 ^ 16)
    (range : (((2 ^ alignment : ℕ) : Mersenne31Field)⁻¹ * (low : Mersenne31Field)).val < 2 ^ 16) :
    2 ^ alignment ∣ low := by
  rcases exists_nat range with ⟨quotient, quotientLt, isQuotient⟩
  have powerLe : 2 ^ alignment ≤ 2 ^ 15 := Nat.pow_le_pow_right (by decide) small
  have bound : 2 ^ alignment * quotient < 2147483647 := by
    calc 2 ^ alignment * quotient ≤ 2 ^ 15 * (2 ^ 16 - 1) := Nat.mul_le_mul powerLe (by omega)
      _ < 2147483647 := by decide
  have nonzero : ((2 ^ alignment : ℕ) : Mersenne31Field) ≠ 0 := by
    intro zero
    have := nat_eq (zero.trans Nat.cast_zero.symm) (by omega) (by decide)
    simp at this
  have product : ((2 ^ alignment * quotient : ℕ) : Mersenne31Field) = (low : Mersenne31Field) := by
    rw [Nat.cast_mul, ← isQuotient, mul_inv_cancel_left₀ nonzero]
  exact ⟨quotient, (nat_eq product bound (by omega)).symm⟩

theorem alignment_range_iff {low : ℕ} (large : 16 ≤ alignment) (small : alignment < 31)
    (limb : low < 2 ^ 16) :
    (((2 ^ alignment : ℕ) : Mersenne31Field)⁻¹ * (low : Mersenne31Field)).val < 2 ^ 16 ↔
      low < 2 ^ (alignment - 15) := by
  have rotated : 2 ^ (31 - alignment) * low < 2147483647 := by
    calc 2 ^ (31 - alignment) * low ≤ 2 ^ 15 * (2 ^ 16 - 1) :=
          Nat.mul_le_mul (Nat.pow_le_pow_right (by decide) (by omega)) (by omega)
      _ < 2147483647 := by decide
  have split : 2 ^ 16 = 2 ^ (31 - alignment) * 2 ^ (alignment - 15) := by
    rw [← pow_add]
    congr 1
    omega
  rw [inv_two_pow (by omega), ← Nat.cast_mul, val_natCast_of_lt rotated, split]
  exact Nat.mul_lt_mul_left (by positivity)

theorem alignmentFactor_eq (small : request.indirectsAlignmentLog2 % 64 < 32) :
    request.alignmentFactor =
      ((2 ^ (request.indirectsAlignmentLog2 % 64) : ℕ) : Mersenne31Field) := by
  rw [RegisterAccessRequest.alignmentFactor, Nat.one_shiftLeft,
    Nat.mod_eq_of_lt (Nat.pow_lt_pow_right (by decide) small)]

theorem lt_of_alignmentFactor_ne_zero (nonzero : request.alignmentFactor ≠ 0) :
    request.indirectsAlignmentLog2 % 64 < 32 := by
  by_contra large
  apply nonzero
  have dropped : 2 ^ (request.indirectsAlignmentLog2 % 64) % 2 ^ 32 = 0 :=
    Nat.mod_eq_zero_of_dvd (Nat.pow_dvd_pow 2 (by omega))
  rw [RegisterAccessRequest.alignmentFactor, Nat.one_shiftLeft, dropped, Nat.cast_zero]

/-- Several words need an alignment that neither wraps around the width of a machine word nor is
`2^31`, which is one in the field. -/
def AlignmentFits (request : RegisterAccessRequest) : Prop :=
  2 ≤ request.indirectAccesses.length →
    2 ≤ request.indirectsAlignmentLog2 % 64 ∧ request.indirectsAlignmentLog2 % 64 < 31

instance : DecidablePred AlignmentFits := fun request => by
  unfold AlignmentFits
  infer_instance

theorem considerAligned_iff (words : 2 ≤ request.indirectsAlignmentLog2) :
    request.considerAligned = true ↔
      request.indirectAccesses.length ≤ 2 ^ ((request.indirectsAlignmentLog2 - 2) % 64) := by
  rw [RegisterAccessRequest.considerAligned, if_neg (by omega), decide_eq_true_iff,
    Nat.one_shiftLeft]

theorem aligned_low_add_lt {low index count : ℕ} (words : 2 ≤ alignment) (small : alignment < 31)
    (limb : low < 2 ^ 16)
    (range : (((2 ^ alignment : ℕ) : Mersenne31Field)⁻¹ * (low : Mersenne31Field)).val < 2 ^ 16)
    (block : count ≤ 2 ^ (alignment - 2)) (inside : index < count) (few : count ≤ 1022) :
    low + index * 4 < 2 ^ 16 := by
  by_cases large : 16 ≤ alignment
  · have below := (alignment_range_iff large small limb).mp range
    have half : 2 ^ (alignment - 15) ≤ 2 ^ 15 := Nat.pow_le_pow_right (by decide) (by omega)
    omega
  · rcases dvd_of_alignment_range (by omega) limb range with ⟨quotient, rfl⟩
    have split : 2 ^ 16 = 2 ^ alignment * 2 ^ (16 - alignment) := by
      rw [← pow_add]
      congr 1
      omega
    rw [split] at limb
    have quotientLt := Nat.lt_of_mul_lt_mul_left limb
    have whole : 2 ^ alignment * (quotient + 1) ≤ 2 ^ 16 := by
      rw [split]
      exact Nat.mul_le_mul_left _ quotientLt
    have blockSize : 2 ^ alignment = 4 * 2 ^ (alignment - 2) := by
      rw [show (4 : ℕ) = 2 ^ 2 by decide, ← pow_add]
      congr 1
      omega
    rw [Nat.mul_succ] at whole
    omega

theorem mem_rangeCheck16Expressions {expression : CompiledDegree1Constraint} :
    expression ∈ rangeCheck16Expressions request description ↔
      (request.indirectAccesses ≠ [] ∧
        expression = alignmentExpression request description.registerAccess.readValue) ∨
      ∃ access ∈ description.indirectAccesses, ∃ carry,
        access.addressDerivationCarryBit = some carry ∧
        (expression = addressLowExpression description.registerAccess.readValue carry
            access.offset ∨
          expression = addressHighExpression description.registerAccess.readValue carry) := by
  rw [rangeCheck16Expressions, mem_append, mem_flatMap]
  refine or_congr ?_ (exists_congr fun access => and_congr_right fun _ => ?_)
  · split_ifs with empty <;> simp [empty]
  · cases access.addressDerivationCarryBit <;> simp

theorem carry_determined {low high offset : ℕ} {carry : Mersenne31Field} (lowLimb : low < 2 ^ 16)
    (highLimb : high < 2 ^ 16) (offsetLimb : offset < 2 ^ 16) (boolean : carry * (carry - 1) = 0)
    (lowRange : ((low : Mersenne31Field) - 2 ^ 16 * carry + offset).val < 2 ^ 16)
    (highRange : ((high : Mersenne31Field) + carry).val < 2 ^ 16) :
    low + 2 ^ 16 * high + offset < 2 ^ 32 ∧
      ((low : Mersenne31Field) - 2 ^ 16 * carry + offset, (high : Mersenne31Field) + carry) =
        wordLimbs (low + 2 ^ 16 * high + offset) := by
  rcases mul_eq_zero.mp boolean with zero | one
  · subst zero
    rw [mul_zero, sub_zero, ← Nat.cast_add, val_natCast_of_lt (by omega)] at lowRange
    have lowSum : (low + 2 ^ 16 * high + offset) % 2 ^ 16 = low + offset := by omega
    have highSum : (low + 2 ^ 16 * high + offset) / 2 ^ 16 = high := by omega
    refine ⟨by omega, ?_⟩
    rw [wordLimbs, lowSum, highSum, mul_zero, sub_zero, add_zero, Nat.cast_add]
  · have isOne : carry = 1 := sub_eq_zero.mp one
    subst isOne
    rcases exists_nat lowRange with ⟨rest, restLt, isRest⟩
    have sum : ((low + offset : ℕ) : Mersenne31Field) =
        ((rest + 2 ^ 16 : ℕ) : Mersenne31Field) := by
      push_cast
      rw [← isRest]
      ring
    have carried := nat_eq sum (by omega) (by omega)
    rw [← Nat.cast_one, ← Nat.cast_add, val_natCast_of_lt (by omega)] at highRange
    have lowSum : (low + 2 ^ 16 * high + offset) % 2 ^ 16 = rest := by omega
    have highSum : (low + 2 ^ 16 * high + offset) / 2 ^ 16 = high + 1 := by omega
    refine ⟨by omega, ?_⟩
    rw [wordLimbs, lowSum, highSum, isRest]
    push_cast
    rfl

theorem addressesExact_of_checks {row : ℕ → Mersenne31Field}
    (laidOut : RegisterAccessLaidOut request description first final)
    (few : request.indirectAccesses.length ≤ 1022) (fits : AlignmentFits request)
    (checks : AddressChecks request description row) : AddressesExact description row := by
  intro base baseLt isBase index access found delegation borrow
  have spec := laidOut.access index access found
  have inside : index < request.indirectAccesses.length := by
    rw [← laidOut.length]
    exact (List.getElem?_eq_some_iff.mp found).1
  have nonempty : request.indirectAccesses ≠ [] := ne_nil_of_length_pos (by omega)
  rcases laidOut.alignment nonempty with ⟨words, -⟩
  have lowLimb : base % 2 ^ 16 < 2 ^ 16 := Nat.mod_lt _ (by decide)
  have highLimb : base / 2 ^ 16 < 2 ^ 16 := by omega
  have limbs : base % 2 ^ 16 + 2 ^ 16 * (base / 2 ^ 16) = base := Nat.mod_add_div _ _
  have isLow : row description.registerAccess.readValue = ((base % 2 ^ 16 : ℕ) : Mersenne31Field) :=
    congrArg Prod.fst isBase
  have isHigh : row (description.registerAccess.readValue + 1) =
      ((base / 2 ^ 16 : ℕ) : Mersenne31Field) := congrArg Prod.snd isBase
  cases isCarry : access.addressDerivationCarryBit with
  | none =>
    have noCarry : base % 2 ^ 16 + index * 4 < 2 ^ 16 := by
      rcases spec.carry_isNone.mp isCarry with atZero | aligned
      · omega
      · have inRange := checks.ranges _
          (mem_rangeCheck16Expressions.mpr (.inl ⟨nonempty, rfl⟩))
        simp only [alignmentExpression, CompiledDegree1Constraint.evaluate, map_cons,
          map_nil, sum_cons, sum_nil, add_zero, isLow] at inRange
        by_cases single : request.indirectAccesses.length < 2
        · omega
        · obtain ⟨lower, upper⟩ := fits (by omega)
          have block := (considerAligned_iff words).mp aligned
          rw [show (request.indirectsAlignmentLog2 - 2) % 64 =
            request.indirectsAlignmentLog2 % 64 - 2 by omega] at block
          rw [alignmentFactor_eq (by omega)] at inRange
          exact aligned_low_add_lt lower upper lowLimb inRange block inside few
    have lowSum : (base + 4 * index) % 2 ^ 16 = base % 2 ^ 16 + index * 4 := by omega
    have highSum : (base + 4 * index) / 2 ^ 16 = base / 2 ^ 16 := by omega
    refine ⟨by omega, ?_⟩
    simp only [Access.location, indirectQuery, isCarry, Option.map_none, valueAt, wordLimbs,
      isLow, isHigh, spec.offset, lowSum, highSum, Nat.cast_add]
  | some carry =>
    have member : access ∈ description.indirectAccesses := List.mem_of_getElem? found
    have lowRange := checks.ranges _
      (mem_rangeCheck16Expressions.mpr (.inr ⟨access, member, carry, isCarry, .inl rfl⟩))
    have highRange := checks.ranges _
      (mem_rangeCheck16Expressions.mpr (.inr ⟨access, member, carry, isCarry, .inr rfl⟩))
    simp only [addressLowExpression, addressHighExpression, CompiledDegree1Constraint.evaluate,
      map_cons, map_nil, sum_cons, sum_nil, add_zero, isLow, isHigh,
      one_mul, neg_mul, ← sub_eq_add_neg] at lowRange highRange
    have determined := carry_determined lowLimb highLimb spec.offset_lt
      (checks.carries access member carry isCarry) lowRange highRange
    rw [limbs, spec.offset, Nat.mul_comm index 4] at determined
    refine ⟨determined.1, ?_⟩
    simp only [Access.location, indirectQuery, isCarry, Option.map_some, valueAt, isLow, isHigh,
      spec.offset, Nat.mul_comm index 4, ← determined.2]

theorem stage2IndirectAddress_eq_some_iff (base : BitVec 32) (offset : BitVec 16)
    (address : BitVec 16 × BitVec 16) :
    stage2IndirectAddress (base.extractLsb' 0 16, base.extractLsb' 16 16) offset = some address ↔
      base.toNat + offset.toNat < 2 ^ 32 ∧
        address.1.toNat = (base.toNat + offset.toNat) % 2 ^ 16 ∧
        address.2.toNat = (base.toNat + offset.toNat) / 2 ^ 16 := by
  have baseLt := base.isLt
  have offsetLt := offset.isLt
  have low : (base.extractLsb' 0 16).toNat = base.toNat % 2 ^ 16 := by
    simp [BitVec.extractLsb'_toNat]
  have high : (base.extractLsb' 16 16).toNat = base.toNat / 2 ^ 16 := by
    simp only [BitVec.extractLsb'_toNat, Nat.shiftRight_eq_div_pow]
    omega
  have carry : (decide (2 ^ 16 ≤ base.toNat % 2 ^ 16 + offset.toNat)).toNat =
      (base.toNat % 2 ^ 16 + offset.toNat) / 2 ^ 16 := by
    by_cases overflow : 2 ^ 16 ≤ base.toNat % 2 ^ 16 + offset.toNat
    · simp only [overflow, decide_true, Bool.toNat_true]
      omega
    · simp only [overflow, decide_false, Bool.toNat_false]
      omega
  simp only [stage2IndirectAddress, low, high, carry]
  split_ifs with wraps
  · simp only [false_iff]
    omega
  · rw [Option.some.injEq, Prod.ext_iff, ← BitVec.toNat_inj, ← BitVec.toNat_inj]
    simp only [BitVec.toNat_add, low, high, BitVec.toNat_ofNat]
    omega

section

variable {request : RegisterAccessRequest} {description : RegisterAndIndirectAccessDescription}
variable {first final : ℕ} {row : ℕ → Mersenne31Field}

theorem addressChecks_of_zero (laidOut : RegisterAccessLaidOut request description first final)
    (zero : ∀ column, first ≤ column → column < final → row column = 0) :
    AddressChecks request description row := by
  have firstLe := laidOut.first_le
  have ltFinal := laidOut.lt_final
  have low : row description.registerAccess.readValue = 0 := zero _ firstLe (by omega)
  have high : row (description.registerAccess.readValue + 1) = 0 := zero _ (by omega) ltFinal
  have noCarry : ∀ access ∈ description.indirectAccesses,
      ∀ carry ∈ access.addressDerivationCarryBit, row carry = 0 := by
    intro access member carry isCarry
    rcases mem_iff_getElem?.mp member with ⟨index, found⟩
    have range := (laidOut.access index access found).carry_range carry isCarry
    exact zero carry (by omega) range.2
  constructor
  · intro expression member
    rcases mem_rangeCheck16Expressions.mp member with
      ⟨-, rfl⟩ | ⟨access, accessMember, carry, isCarry, rfl | rfl⟩
    · simp [alignmentExpression, CompiledDegree1Constraint.evaluate, low]
    · rcases mem_iff_getElem?.mp accessMember with ⟨index, found⟩
      have offsetLt := (laidOut.access index access found).offset_lt
      simp only [addressLowExpression, CompiledDegree1Constraint.evaluate, map_cons, map_nil,
        sum_cons, sum_nil, low, noCarry access accessMember carry isCarry, mul_zero, add_zero,
        zero_add]
      rw [val_natCast_of_lt (by omega)]
      exact offsetLt
    · simp [addressHighExpression, CompiledDegree1Constraint.evaluate, high,
        noCarry access accessMember carry isCarry]
  · intro access member carry isCarry
    rw [noCarry access member carry isCarry, zero_mul]

def pointerRow (readValue low : ℕ) : ℕ → Mersenne31Field :=
  fun column => if column = readValue then (low : Mersenne31Field) else 0

variable (laidOut : RegisterAccessLaidOut request description first final)

include laidOut

/-- Under the alignments that do not fit, the largest even limb passes the only check. -/
theorem addressChecks_pointerRow (aligned : request.considerAligned = true)
    (wraps : request.indirectsAlignmentLog2 % 64 = 0 ∨ request.indirectsAlignmentLog2 % 64 = 1 ∨
      request.indirectsAlignmentLog2 % 64 = 31) :
    AddressChecks request description
      (pointerRow description.registerAccess.readValue 0xfffe) := by
  have noCarry : ∀ access ∈ description.indirectAccesses,
      access.addressDerivationCarryBit = none := by
    intro access member
    rcases mem_iff_getElem?.mp member with ⟨index, found⟩
    exact (laidOut.access index access found).carry_isNone.mpr (Or.inr aligned)
  constructor
  · intro expression member
    rcases mem_rangeCheck16Expressions.mp member with
      ⟨-, rfl⟩ | ⟨access, accessMember, carry, isCarry, -⟩
    · simp only [alignmentExpression, CompiledDegree1Constraint.evaluate, map_cons, map_nil,
        sum_cons, sum_nil, add_zero, pointerRow, if_true]
      rw [alignmentFactor_eq (by omega), inv_two_pow (by omega)]
      rcases wraps with wraps | wraps | wraps <;> rw [wraps] <;> decide
    · simp [noCarry access accessMember] at isCarry
  · intro access member carry isCarry
    simp [noCarry access member] at isCarry

/-- Where the alignment does not fit, the second word behind some pointer has a low limb that is
not a limb. -/
theorem exists_inexact_row (few : request.indirectAccesses.length ≤ 1022)
    (unfit : ¬AlignmentFits request) :
    AddressChecks request description
        (pointerRow description.registerAccess.readValue 0xfffe) ∧
      ¬AddressesExact description
        (pointerRow description.registerAccess.readValue 0xfffe) := by
  unfold AlignmentFits at unfit
  push Not at unfit
  rcases unfit with ⟨several, outside⟩
  have nonempty : request.indirectAccesses ≠ [] := ne_nil_of_length_pos (by omega)
  rcases laidOut.alignment nonempty with ⟨words, nonzero⟩
  have small := lt_of_alignmentFactor_ne_zero nonzero
  have wraps : request.indirectsAlignmentLog2 % 64 = 0 ∨
      request.indirectsAlignmentLog2 % 64 = 1 ∨ request.indirectsAlignmentLog2 % 64 = 31 := by
    omega
  have aligned : request.considerAligned = true := by
    rw [considerAligned_iff words]
    have power : 2 ^ 29 ≤ 2 ^ ((request.indirectsAlignmentLog2 - 2) % 64) :=
      Nat.pow_le_pow_right (by decide) (by omega)
    omega
  refine ⟨addressChecks_pointerRow laidOut aligned wraps, fun exactAt => ?_⟩
  have secondLt : 1 < description.indirectAccesses.length := by
    rw [laidOut.length]
    omega
  have found := getElem?_eq_getElem secondLt
  have spec := laidOut.access _ _ found
  have isBase : valueAt (pointerRow description.registerAccess.readValue 0xfffe)
      description.registerAccess.readValue = wordLimbs 0xfffe := by
    simp [valueAt, pointerRow, wordLimbs]
  have location := (exactAt 0xfffe (by omega) isBase _ _ found ⟨0, 0, 0⟩ 0).2
  have lowLimb := congrArg (fun place => place.2.1) location
  simp only [Access.location, indirectQuery, spec.carry_isNone.mpr (Or.inr aligned),
    Option.map_none, isBase, wordLimbs, spec.offset, ← Nat.cast_add] at lowLimb
  exact absurd lowLimb (by decide)

end

/-- Every row that passes the checks of a layout addresses the words behind its pointers. -/
def LayoutAddressesExact
    (layout : List (RegisterAccessRequest × RegisterAndIndirectAccessDescription)) : Prop :=
  ∀ row : ℕ → Mersenne31Field, (∀ entry ∈ layout, AddressChecks entry.1 entry.2 row) →
    ∀ entry ∈ layout, AddressesExact entry.2 row

theorem compileRegisterAccesses_cons {rest : List RegisterAccessRequest}
    (compiled : compileRegisterAccesses first (request :: rest) = some (layout, final)) :
    ∃ description next tail, RegisterAccessLaidOut request description first next ∧
      compileRegisterAccesses next rest = some (tail, final) ∧
      layout = (request, description) :: tail := by
  simp only [compileRegisterAccesses, Option.bind_eq_bind, Option.bind_eq_some_iff, Prod.exists,
    Option.some.injEq, Prod.mk.injEq] at compiled
  rcases compiled with ⟨description, next, compiledHead, tail, final', compiledTail, rfl, rfl⟩
  exact ⟨description, next, tail, compileRegisterAccess_spec compiledHead, compiledTail, rfl⟩

theorem compileRegisterAccesses_spec {requests : List RegisterAccessRequest}
    (compiled : compileRegisterAccesses first requests = some (layout, final)) :
    ∀ entry ∈ layout, entry.1 ∈ requests ∧
      ∃ start stop, first ≤ start ∧ RegisterAccessLaidOut entry.1 entry.2 start stop := by
  induction requests generalizing first layout with
  | nil =>
    cases compiled
    simp
  | cons request rest ih =>
    rcases compileRegisterAccesses_cons compiled with ⟨description, next, tail, head, rest', rfl⟩
    intro entry member
    rcases mem_cons.mp member with rfl | inTail
    · exact ⟨mem_cons_self, first, next, Nat.le_refl _, head⟩
    · rcases ih rest' entry inTail with ⟨requested, start, stop, startLe, laidOut⟩
      have firstLe := head.first_le
      have ltNext := head.lt_final
      exact ⟨mem_cons_of_mem _ requested, start, stop, by omega, laidOut⟩

theorem exists_inexact_layout_row {requests : List RegisterAccessRequest}
    (compiled : compileRegisterAccesses first requests = some (layout, final))
    (requested : request ∈ requests) (few : request.indirectAccesses.length ≤ 1022)
    (unfit : ¬AlignmentFits request) :
    ∃ row : ℕ → Mersenne31Field, (∀ column < first, row column = 0) ∧
      (∀ entry ∈ layout, AddressChecks entry.1 entry.2 row) ∧
      ∃ entry ∈ layout, ¬AddressesExact entry.2 row := by
  induction requests generalizing first layout with
  | nil => contradiction
  | cons head rest ih =>
    rcases compileRegisterAccesses_cons compiled with
      ⟨description, next, tail, laidOut, compiledTail, rfl⟩
    have firstLe := laidOut.first_le
    have ltNext := laidOut.lt_final
    rcases mem_cons.mp requested with rfl | inRest
    · rcases exists_inexact_row laidOut few unfit with ⟨checks, inexact⟩
      have zero : ∀ column, column ≠ description.registerAccess.readValue →
          pointerRow description.registerAccess.readValue 0xfffe column = 0 :=
        fun column other => if_neg other
      refine ⟨pointerRow description.registerAccess.readValue 0xfffe, ?_, ?_,
        (request, description), mem_cons_self, inexact⟩
      · intro column before
        exact zero column (by omega)
      · intro entry member
        rcases mem_cons.mp member with rfl | inTail
        · exact checks
        · rcases compileRegisterAccesses_spec compiledTail entry inTail with
            ⟨-, start, stop, startLe, entryLaidOut⟩
          apply addressChecks_of_zero entryLaidOut
          intro column columnGe _
          exact zero column (by omega)
    · rcases ih compiledTail inRest with ⟨row, zero, checks, entry, member, inexact⟩
      refine ⟨row, ?_, ?_, entry, mem_cons_of_mem _ member, inexact⟩
      · intro column before
        exact zero column (by omega)
      · intro entry' member'
        rcases mem_cons.mp member' with rfl | inTail
        · apply addressChecks_of_zero laidOut
          intro column _ columnLt
          exact zero column columnLt
        · exact checks entry' inTail

theorem compileMemoryAccesses_spec {traceLenLog2 rangeChecks16 : ℕ}
    {requests : List RegisterAccessRequest}
    (compiled : compileMemoryAccesses traceLenLog2 rangeChecks16 first requests =
      some (layout, final)) :
    compileRegisterAccesses first requests = some (layout, final) ∧
      ∀ request ∈ requests, request.indirectAccesses.length ≤ 1022 := by
  simp only [compileMemoryAccesses, Option.bind_eq_bind, Option.bind_eq_some_iff,
    Option.guard_eq_some', Prod.exists, Option.some.injEq, Prod.mk.injEq] at compiled
  obtain ⟨-, long, _, _, accesses, -, -, -, comparisons, rfl, rfl⟩ := compiled
  refine ⟨accesses, fun request requested => ?_⟩
  have part : 2 * (1 + request.indirectAccesses.length) ≤ timestampComparisons requests :=
    List.single_le_sum (fun _ _ => Nat.zero_le _) _ (mem_map_of_mem requested)
  have rows : 2 ^ 20 ≤ 2 ^ traceLenLog2 := Nat.pow_le_pow_right (by decide) long
  have product := Nat.mul_le_mul part rows
  omega

/-- Addresses are exact in all layouts but those with several words behind a pointer whose
alignment the field or the machine word cannot express. -/
theorem indirect_addresses_exact_iff {traceLenLog2 rangeChecks16 first final : ℕ}
    {requests : List RegisterAccessRequest}
    {layout : List (RegisterAccessRequest × RegisterAndIndirectAccessDescription)}
    (compiled : compileMemoryAccesses traceLenLog2 rangeChecks16 first requests =
      some (layout, final)) :
    LayoutAddressesExact layout ↔ ∀ request ∈ requests, AlignmentFits request := by
  obtain ⟨accesses, few⟩ := compileMemoryAccesses_spec compiled
  constructor
  · intro exactLayout request requested
    by_contra unfit
    rcases exists_inexact_layout_row accesses requested (few request requested) unfit with
      ⟨row, -, checks, entry, member, inexact⟩
    exact inexact (exactLayout row checks entry member)
  · intro fits row checks entry member
    rcases compileRegisterAccesses_spec accesses entry member with
      ⟨requested, start, stop, -, laidOut⟩
    exact addressesExact_of_checks laidOut (few _ requested) (fits entry.1 requested)
      (checks entry member)

def firstAccessColumn : ℕ := 4

/-- The requests of the Blake2s circuit: the state is declared aligned, the input is not. -/
def blake2Requests : List RegisterAccessRequest :=
  [⟨10, false, 7, List.replicate 24 true⟩, ⟨11, false, 2, List.replicate 16 false⟩,
    ⟨12, false, 0, []⟩, ⟨13, false, 0, []⟩]

theorem blake2_addresses_exact :
    ∃ layout final, compileMemoryAccesses 20 0 firstAccessColumn blake2Requests =
      some (layout, final) ∧ LayoutAddressesExact layout := by
  have succeeds : (compileMemoryAccesses 20 0 firstAccessColumn blake2Requests).isSome = true := by
    decide +kernel
  rcases Option.isSome_iff_exists.mp succeeds with ⟨⟨layout, final⟩, compiled⟩
  exact ⟨layout, final, compiled, (indirect_addresses_exact_iff compiled).mpr (by decide)⟩

/-- A pointer declared aligned to `2^31` bytes, which every limb divides in the field. -/
def hugeAlignmentRequest : RegisterAccessRequest := ⟨10, false, 31, [false, false]⟩

theorem huge_alignment_inexact :
    ∃ layout final, compileMemoryAccesses 20 0 firstAccessColumn [hugeAlignmentRequest] =
      some (layout, final) ∧ ¬LayoutAddressesExact layout := by
  have succeeds : (compileMemoryAccesses 20 0 firstAccessColumn
      [hugeAlignmentRequest]).isSome = true := by
    decide +kernel
  rcases Option.isSome_iff_exists.mp succeeds with ⟨⟨layout, final⟩, compiled⟩
  rcases exists_inexact_layout_row (compileMemoryAccesses_spec compiled).1 mem_cons_self
    (by decide) (by decide : ¬AlignmentFits hugeAlignmentRequest) with
    ⟨row, -, checks, entry, member, inexact⟩
  exact ⟨layout, final, compiled, fun exactLayout => inexact (exactLayout row checks entry member)⟩

/-- The prover finds the address that the columns of a row stand for. -/
def Stage2Agrees (description : RegisterAndIndirectAccessDescription)
    (row : ℕ → Mersenne31Field) : Prop :=
  ∀ base : BitVec 32, valueAt row description.registerAccess.readValue = wordLimbs base.toNat →
    ∀ access ∈ description.indirectAccesses,
      ∀ (delegation : DelegationRow) (borrow : Mersenne31Field),
        ∃ low high : BitVec 16,
          stage2IndirectAddress (base.extractLsb' 0 16, base.extractLsb' 16 16)
            (BitVec.ofNat 16 access.offset) = some (low, high) ∧
          (Access.delegation delegation
            (indirectQuery row description.registerAccess access borrow)).location =
            (0, (low.toNat : Mersenne31Field), (high.toNat : Mersenne31Field))

theorem stage2_addresses_agree {traceLenLog2 rangeChecks16 first final : ℕ}
    {requests : List RegisterAccessRequest}
    {layout : List (RegisterAccessRequest × RegisterAndIndirectAccessDescription)}
    {row : ℕ → Mersenne31Field}
    (compiled : compileMemoryAccesses traceLenLog2 rangeChecks16 first requests =
      some (layout, final))
    (fits : ∀ request ∈ requests, AlignmentFits request)
    (checks : ∀ entry ∈ layout, AddressChecks entry.1 entry.2 row) :
    ∀ entry ∈ layout, Stage2Agrees entry.2 row := by
  intro entry member base isBase access isAccess delegation borrow
  obtain ⟨accesses, few⟩ := compileMemoryAccesses_spec compiled
  obtain ⟨requested, start, stop, -, laidOut⟩ := compileRegisterAccesses_spec accesses entry member
  obtain ⟨index, found⟩ := mem_iff_getElem?.mp isAccess
  have spec := laidOut.access index access found
  obtain ⟨inside, location⟩ := addressesExact_of_checks laidOut (few _ requested)
    (fits _ requested) (checks entry member) base.toNat base.isLt isBase index access found
    delegation borrow
  have offset : (BitVec.ofNat 16 access.offset).toNat = 4 * index := by
    rw [BitVec.toNat_ofNat, Nat.mod_eq_of_lt spec.offset_lt, spec.offset, mul_comm]
  let low := BitVec.ofNat 16 ((base.toNat + 4 * index) % 2 ^ 16)
  let high := BitVec.ofNat 16 ((base.toNat + 4 * index) / 2 ^ 16)
  have isLow : low.toNat = (base.toNat + 4 * index) % 2 ^ 16 := by simp [low]
  have isHigh : high.toNat = (base.toNat + 4 * index) / 2 ^ 16 := by
    simp only [high, BitVec.toNat_ofNat]
    omega
  refine ⟨low, high, ?_, ?_⟩
  · rw [stage2IndirectAddress_eq_some_iff, offset]
    exact ⟨inside, isLow, isHigh⟩
  · rw [location, isLow, isHigh]
    rfl

/-- `x10` points to the state and `x11` to eight bytes before the end of a block of `2^16`: from the
third word on, the carries are set. -/
def carriesRow (column : ℕ) : Mersenne31Field :=
  if column = 6 then 0x100
  else if column = 154 then 0xfff8
  else if column = 155 then 5
  else if column ∈ [167, 172, 177, 182, 187, 192, 197, 202, 207, 212, 217, 222, 227, 232] then 1
  else 0

instance (request : RegisterAccessRequest) (description : RegisterAndIndirectAccessDescription)
    (row : ℕ → Mersenne31Field) : Decidable (AddressChecks request description row) :=
  decidable_of_iff
    ((∀ expression ∈ rangeCheck16Expressions request description,
        (expression.evaluate row).val < 2 ^ 16) ∧
      ∀ access ∈ description.indirectAccesses,
        ∀ carry ∈ access.addressDerivationCarryBit, row carry * (row carry - 1) = 0)
    ⟨fun both => ⟨both.1, both.2⟩, fun checks => ⟨checks.ranges, checks.carries⟩⟩

theorem stage2_addresses_agree_blake2 :
    ∃ layout final, compileMemoryAccesses 20 0 firstAccessColumn blake2Requests =
      some (layout, final) ∧ ∀ entry ∈ layout, Stage2Agrees entry.2 carriesRow := by
  have succeeds : (compileMemoryAccesses 20 0 firstAccessColumn blake2Requests).any
      (fun compiled => ∀ entry ∈ compiled.1, AddressChecks entry.1 entry.2 carriesRow) = true := by
    decide +kernel
  obtain ⟨⟨layout, final⟩, compiled, checks⟩ := (Option.any_eq_true _ _).mp succeeds
  exact ⟨layout, final, compiled,
    stage2_addresses_agree compiled (by decide) (of_decide_eq_true checks)⟩

end Airbender.OneRowCompiler

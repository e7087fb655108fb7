import Airbender.Machine.JumpRow

/-!
# Rows of the conditional family

Branches and comparisons share one subtraction. Its borrow and whether it is zero, the signs of the
operands and `funct3` are the key of a table that says whether to branch and what to store.
-/

namespace Airbender.Machine

open CircuitLib Circuit Mersenne31Field Cs OptimizationContext Simulator WordBytes List

def conditionKey (supportSigned : Bool) (funct3 : F) (bltuFlag eqFlag src1SignBit src2SignBit : F) :
    F :=
  if supportSigned then
    funct3 + 2 ^ 3 * bltuFlag + 2 ^ 4 * eqFlag + 2 ^ 5 * src1SignBit + 2 ^ 6 * src2SignBit
  else funct3 + 2 ^ 3 * bltuFlag + 2 ^ 4 * eqFlag

def conditionTable (supportSigned : Bool) : TableType :=
  if supportSigned then .conditionalOpAllConditionsResolver
  else .conditionalOpUnsignedConditionsResolver

/-- `ConditionalOp::apply`, for trusted code. -/
def ConditionalOp.apply (supportSigned : Bool) (src1 src2 : RegisterDecompositionWithSign)
    (pc pcNext imm : Register) (funct3 : Cs.Num) (flags : BooleanSet) : ContextM CommonDiffs := do
  resetIndexers
  let execFlag := flags.getMajorFlag .conditionalCommon
  let (diff, ufFlag) ← appendSubRelation src1.u16Limbs src2.u16Limbs execFlag
  let eqFlag ← appendIsZeroRelation diff execFlag
  let (jmpAddr, _) ← appendAddRelation pc imm execFlag
  let keyConstraint := conditionKey supportSigned (← funct3.getVariable) (← ufFlag.getVariable)
    (← eqFlag.getVariable) (← src1.signBit.getVariable) (← src2.signBit.getVariable)
  let (bit1, _) ← appendLookupPair (← jmpAddr.low.getVariable) .jumpCleanupOffset execFlag
  let (shouldJump, comparisonValue) ←
    appendLookupPair keyConstraint (conditionTable supportSigned) execFlag
  let trapped ← addVariableFromConstraint (shouldJump * bit1)
  addConstraint (trapped * execFlag.value)
  let newPcLow ← addVariableFromConstraint
    (shouldJump * jmpAddr.low.value + (1 - shouldJump) * (← pcNext.low.getVariable))
  let newPcHigh ← addVariableFromConstraint
    (shouldJump * (← jmpAddr.high.getVariable) + (1 - shouldJump) * (← pcNext.high.getVariable))
  pure
    { execFlag
      rdValue := [((comparisonValue, 0), execFlag)]
      newPcValue := .custom ⟨.var newPcLow, .var newPcHigh⟩ }

/-- The family applied to two operands, the program counter, an immediate and `funct3`; the values
are the new `rd` and the new program counter. -/
def conditionalCircuit (tables : TableDriver) (supportSigned : Bool) (flags : BooleanSet)
    (rs1 rs2 pc imm : Register) (funct3 : Cs.Num) : Assembly (Register × Register) := do
  let pcNext ← calculatePcNextNoOverflows pc
  let src1 ← RegisterDecompositionWithSign.parseReg tables rs1
  let src2 ← RegisterDecompositionWithSign.parseReg tables rs2
  let diffs ← enforced tables
    (ConditionalOp.apply supportSigned src1 src2 pc pcNext imm funct3 flags)
  finishRow diffs pcNext

def branches (funct3 : BitVec 3) (x y : BitVec 32) : Bool :=
  ((BranchCondition.ofFunct3 funct3).map fun condition => condition.holds x y).getD false

def stores (funct3 : BitVec 3) (x y : BitVec 32) : Bool :=
  if funct3 = 0b010 then x.slt y else if funct3 = 0b011 then x.ult y else false

/-- The outcome in terms of the flags of the subtraction and the signs. -/
def resolution (funct3 : BitVec 3) (lt eq sign1 sign2 : Bool) : Bool × Bool :=
  let signedLt := (sign1 != sign2) ^^ lt
  if funct3 = 0b000 then (eq, false)
  else if funct3 = 0b001 then (!eq, false)
  else if funct3 = 0b010 then (false, signedLt)
  else if funct3 = 0b011 then (false, lt)
  else if funct3 = 0b100 then (signedLt, false)
  else if funct3 = 0b101 then (!signedLt, false)
  else if funct3 = 0b110 then (lt, false)
  else (!lt, false)

theorem conditionResolution_key (funct3 : BitVec 3) (lt eq sign1 sign2 : Bool) :
    conditionResolution (funct3.toNat + 2 ^ 3 * lt.toNat + 2 ^ 4 * eq.toNat + 2 ^ 5 * sign1.toNat +
      2 ^ 6 * sign2.toNat) = resolution funct3 lt eq sign1 sign2 := by
  revert funct3 lt eq sign1 sign2
  decide

theorem resolution_eq (funct3 : BitVec 3) (x y : BitVec 32) :
    resolution funct3 (decide (x.toNat < y.toNat)) (decide (x - y = 0)) x.msb y.msb =
      (branches funct3 x y, stores funct3 x y) := by
  have unsignedLt : decide (x.toNat < y.toNat) = x.ult y := rfl
  have equal : decide (x - y = 0) = (x == y) := by
    rw [Bool.beq_eq_decide_eq, decide_eq_decide, BitVec.sub_eq_iff_eq_add]
    simp
  have known : ∀ funct3 : BitVec 3, funct3 = 0b000 ∨ funct3 = 0b001 ∨ funct3 = 0b010 ∨
      funct3 = 0b011 ∨ funct3 = 0b100 ∨ funct3 = 0b101 ∨ funct3 = 0b110 ∨ funct3 = 0b111 := by
    decide
  simp only [unsignedLt, equal, resolution, ← BitVec.slt_eq_ult]
  rcases known funct3 with rfl | rfl | rfl | rfl | rfl | rfl | rfl | rfl <;> rfl

def conditionalDiffs (comparisonValue newPcLow newPcHigh : F) : CommonDiffs where
  execFlag := .is (bit true)
  rdValue := [((comparisonValue, 0), .is (bit true))]
  newPcValue := .custom ⟨.var newPcLow, .var newPcHigh⟩

section

variable {romBits : ℕ} {image : List (BitVec 32)} {tables : TableDriver}
  (machine : MachineTables romBits image tables)

variable {src1 src2 : RegisterDecompositionWithSign} {x y pc pcNext imm : BitVec 32}
  (holds1 : src1.u16Limbs = .ofWord x) (sign1 : src1.signBit = .is (bit x.msb))
  (holds2 : src2.u16Limbs = .ofWord y) (sign2 : src2.signBit = .is (bit y.msb))
  {flags : BooleanSet} (executing : flags.majorFlag .conditionalCommon = true)

include machine holds1 sign1 holds2 sign2 executing in
theorem conditionalOp_lookups (supportSigned : Bool) (funct3 : F) (result : CommonDiffs) :
    (enforced tables (ConditionalOp.apply supportSigned src1 src2 (.ofWord pc) (.ofWord pcNext)
        (.ofWord imm) (.var funct3) flags)).Yields result ↔
      ∃ bit1 dstLow shouldJump comparisonValue : F,
        shouldJump * bit1 = 0 ∧
        tables .jumpCleanupOffset ⟨(lowLimb (pc + imm) : F), bit1, dstLow⟩ = true ∧
        tables (conditionTable supportSigned) ⟨conditionKey supportSigned funct3
          (bit (decide (x.toNat < y.toNat))) (bit (decide (x - y = 0))) (bit x.msb) (bit y.msb),
          shouldJump, comparisonValue⟩ = true ∧
        conditionalDiffs comparisonValue
          (shouldJump * lowLimb (pc + imm) + (1 - shouldJump) * lowLimb pcNext)
          (shouldJump * highLimb (pc + imm) + (1 - shouldJump) * highLimb pcNext) = result := by
  have real : conditionTable supportSigned ≠ .dynamicPlaceholder := by
    cases supportSigned <;> decide
  simp only [yields_enforced, ConditionalOp.apply, BooleanSet.getMajorFlag, appendAddRelation,
    appendSubRelation, appendAddSubRelation, holds1, sign1, holds2, sign2, executing, bind_assoc,
    pure_bind, yields_resetIndexers, yields_lift_bind, exists_eq_left', yields_addConstraint,
    yields_addVariableFromConstraint, yields_getRegisterOutput_new, yields_pushAddSubRelation_new,
    yields_appendIsZeroRelation_new, yields_appendLookupPair_new, withLookup, Register.ofWord_low,
    Register.ofWord_high, Num.getVariable_var, Boolean.getVariable_is, yields_pure, yields_finish,
    length_nil, length_cons, nil_append, cons_append, Nat.zero_add, Nat.reduceAdd, Nat.le_refl]
  simp [enforceAll, enforceSlots, slotCount, slot, range_succ, enforceAddSubSlot,
    enforceIsZeroSlot, Register.chooseFromOrthogonalVariants, yields_subtraction_executed x y,
    yields_addition_executed pc imm, yields_lookupSlot_executed machine.zeroEntry, real, and_assoc,
    conditionalDiffs, -Bool.exists_bool, -mul_eq_zero]

include machine in
theorem allConditions_row (funct3 : BitVec 3) (x y : BitVec 32) (shouldJump comparisonValue : F) :
    tables .conditionalOpAllConditionsResolver ⟨conditionKey true (funct3.toNat : F)
        (bit (decide (x.toNat < y.toNat))) (bit (decide (x - y = 0))) (bit x.msb) (bit y.msb),
        shouldJump, comparisonValue⟩ = true ↔
      shouldJump = bit (branches funct3 x y) ∧ comparisonValue = bit (stores funct3 x y) := by
  have resolved := resolution_eq funct3 x y
  generalize decide (x.toNat < y.toNat) = lt at *
  generalize decide (x - y = 0) = eq at *
  have funct3Bound := funct3.isLt
  have ltBound := lt.toNat_lt
  have eqBound := eq.toNat_lt
  have sign1Bound := x.msb.toNat_lt
  have sign2Bound := y.msb.toNat_lt
  have key : conditionKey true (funct3.toNat : F) (bit lt) (bit eq) (bit x.msb) (bit y.msb) =
      ((funct3.toNat + 2 ^ 3 * lt.toNat + 2 ^ 4 * eq.toNat + 2 ^ 5 * x.msb.toNat +
        2 ^ 6 * y.msb.toNat : ℕ) : F) := by
    rw [conditionKey, if_pos rfl]
    simp only [bit_eq_natCast]
    push_cast
    rfl
  rw [machine.allConditions, conditionalOpResolutionTable, key,
    oneKeyTable_natCast (by omega) _ (by omega), conditionResolution_key, resolved,
    bit_eq_natCast, bit_eq_natCast]

include machine holds1 sign1 holds2 sign2 executing in
theorem yields_conditionalOp (funct3 : BitVec 3) (result : CommonDiffs) :
    (enforced tables (ConditionalOp.apply true src1 src2 (.ofWord pc) (.ofWord pcNext)
        (.ofWord imm) (.var (funct3.toNat : F)) flags)).Yields result ↔
      (branches funct3 x y = true → (pc + imm).getLsbD 1 = false) ∧
        let target := if branches funct3 x y then pc + imm else pcNext
        conditionalDiffs (bit (stores funct3 x y)) (lowLimb target) (highLimb target) = result := by
  rw [conditionalOp_lookups machine holds1 sign1 holds2 sign2 executing]
  simp only [conditionTable, if_true, jumpCleanupOffset_row machine, allConditions_row machine]
  have untrapped : bit (branches funct3 x y) * bit ((pc + imm).getLsbD 1) = 0 ↔
      (branches funct3 x y = true → (pc + imm).getLsbD 1 = false) := by
    cases branches funct3 x y <;> simp
  have selected : ∀ limb : BitVec 32 → ℕ,
      bit (branches funct3 x y) * (limb (pc + imm) : F) +
          (1 - bit (branches funct3 x y)) * (limb pcNext : F) =
        (limb (if branches funct3 x y then pc + imm else pcNext) : F) := by
    intro limb
    cases branches funct3 x y <;> simp
  constructor
  · rintro ⟨_, _, _, _, product, ⟨rfl, rfl⟩, ⟨rfl, rfl⟩, rfl⟩
    rw [selected lowLimb, selected highLimb]
    exact ⟨untrapped.mp product, rfl⟩
  · rintro ⟨clear, rfl⟩
    refine ⟨_, _, _, _, untrapped.mpr clear, ⟨rfl, rfl⟩, ⟨rfl, rfl⟩, ?_⟩
    rw [selected lowLimb, selected highLimb]

def truthWord (flag : Bool) : BitVec 32 := if flag then 1 else 0

theorem truthWord_limbs (flag : Bool) :
    (⟨.var (bit flag), .var 0⟩ : Register) = .ofWord (truthWord flag) := by
  cases flag <;> rfl

include machine in
theorem yields_conditionalCircuit_signed (executing : flags.majorFlag .conditionalCommon = true)
    (funct3 : BitVec 3) (result : Register × Register) :
    (conditionalCircuit tables true flags (.ofWord x) (.ofWord y) (.ofWord pc) (.ofWord imm)
        (.var (funct3.toNat : F))).Yields result ↔
      pc.toNat + 4 < 2 ^ 32 ∧ (branches funct3 x y = true → (pc + imm).getLsbD 1 = false) ∧
        (.ofWord (truthWord (stores funct3 x y)),
          .ofWord (if branches funct3 x y then pc + imm else pc + 4)) = result := by
  have row : (RegisterDecompositionWithSign.parseReg tables (.ofWord x) >>= fun src1 =>
      RegisterDecompositionWithSign.parseReg tables (.ofWord y) >>= fun src2 =>
      enforced tables (ConditionalOp.apply true src1 src2 (.ofWord pc) (.ofWord (pc + 4))
        (.ofWord imm) (.var (funct3.toNat : F)) flags) >>=
        fun diffs => finishRow diffs (.ofWord (pc + 4))).Yields result ↔
      (branches funct3 x y = true → (pc + imm).getLsbD 1 = false) ∧
        (.ofWord (truthWord (stores funct3 x y)),
          .ofWord (if branches funct3 x y then pc + imm else pc + 4)) = result := by
    apply yields_parsed machine.u16GetSignAndHighByte
    intro src1 holds1 sign1
    apply yields_parsed machine.u16GetSignAndHighByte
    intro src2 holds2 sign2
    simp only [yields_bind, yields_conditionalOp machine holds1 sign1 holds2 sign2 executing,
      and_assoc, exists_and_left, exists_eq_left', ← truthWord_limbs]
    exact and_congr_right fun _ => yields_finishRow (_, _) (_, _) (pc + 4) result
  rw [← row, conditionalCircuit, yields_bind]
  simp [yields_calculatePcNextNoOverflows]

include machine in
/-- The table for unsigned conditions only has no rows, so nothing executes without sign support. -/
theorem yields_conditionalCircuit_unsigned (executing : flags.majorFlag .conditionalCommon = true)
    (funct3 : BitVec 3) (result : Register × Register) :
    ¬ (conditionalCircuit tables false flags (.ofWord x) (.ofWord y) (.ofWord pc) (.ofWord imm)
        (.var (funct3.toNat : F))).Yields result := by
  have row : ∀ pcNext : BitVec 32,
      (RegisterDecompositionWithSign.parseReg tables (.ofWord x) >>= fun src1 =>
      RegisterDecompositionWithSign.parseReg tables (.ofWord y) >>= fun src2 =>
      enforced tables (ConditionalOp.apply false src1 src2 (.ofWord pc) (.ofWord pcNext)
        (.ofWord imm) (.var (funct3.toNat : F)) flags) >>=
        fun diffs => finishRow diffs (.ofWord pcNext)).Yields result ↔ False := by
    intro pcNext
    apply yields_parsed machine.u16GetSignAndHighByte
    intro src1 holds1 sign1
    apply yields_parsed machine.u16GetSignAndHighByte
    intro src2 holds2 sign2
    simp [conditionalOp_lookups machine holds1 sign1 holds2 sign2 executing, conditionTable,
      machine.unsignedConditions]
  rw [conditionalCircuit, yields_bind]
  rintro ⟨_, next, continued⟩
  obtain ⟨_, rfl⟩ := (yields_calculatePcNextNoOverflows pc _).mp next
  exact (row (pc + 4)).mp continued

variable {supportSigned : Bool} {opcode : ℕ} {funct3 : BitVec 3} {funct7 : ℕ}
  {format : InstructionType} {major : DecoderMajorInstructionFamilyKey}
  {minors : List DecoderInstructionVariantsKey}

theorem conditional_declared
    (supported : ConditionalOp.defineDecoderSubspace supportSigned opcode funct3.toNat funct7 =
      some (format, major, minors)) :
    major = .conditionalCommon ∧
      if opcode = operationBranch then funct3 ≠ 0b010 ∧ funct3 ≠ 0b011
      else funct3 = 0b010 ∨ funct3 = 0b011 := by
  have comparison : funct3 = 0b010 ∨ funct3 = 0b011 ↔
      funct3.toNat = 0b010 ∨ funct3.toNat = 0b011 := by
    rw [BitVec.toNat_eq, BitVec.toNat_eq]
    rfl
  unfold ConditionalOp.defineDecoderSubspace at supported
  split_ifs at supported with compares immediate register branch
  · cases supported
    rw [if_neg (by rw [immediate]; decide)]
    exact ⟨rfl, comparison.mpr (compares.imp And.left id)⟩
  · cases supported
    rw [if_neg (by rw [register.1]; decide)]
    exact ⟨rfl, comparison.mpr (compares.imp And.left id)⟩
  · cases supported
    rw [if_pos branch.1]
    refine ⟨rfl, ?_, ?_⟩
    · rintro rfl
      simp at branch
    · rintro rfl
      simp at branch

theorem branches_eq (other : funct3 ≠ 0b010 ∧ funct3 ≠ 0b011) :
    ∃ condition, BranchCondition.ofFunct3 funct3 = some condition ∧
      ∀ x y, branches funct3 x y = condition.holds x y := by
  have declared : ∀ funct3 : BitVec 3, funct3 ≠ 0b010 ∧ funct3 ≠ 0b011 →
      (BranchCondition.ofFunct3 funct3).isSome = true := by decide
  obtain ⟨condition, found⟩ := Option.isSome_iff_exists.mp (declared funct3 other)
  refine ⟨condition, found, ?_⟩
  intro x y
  rw [branches, found]
  rfl

theorem stores_eq (compares : funct3 = 0b010 ∨ funct3 = 0b011) :
    (∀ x y, branches funct3 x y = false) ∧
      ∃ operation, AluOperation.ofFunct3 funct3 = some operation ∧
        ∀ x y, truthWord (stores funct3 x y) = operation.result x y := by
  rcases compares with rfl | rfl
  · exact ⟨fun _ _ => rfl, .slt, rfl, fun _ _ => rfl⟩
  · exact ⟨fun _ _ => rfl, .sltu, rfl, fun _ _ => rfl⟩

theorem second_bit_clear {target : BitVec 32} (multiple : target.toNat % 4 = 0) :
    target.getLsbD 1 = false := by
  rw [getLsbD_one, decide_eq_false_iff_not]
  omega

theorem multiple_of_second_bit_clear (aligned : pc.toNat % 4 = 0) (even : imm.toNat % 2 = 0)
    (clear : (pc + imm).getLsbD 1 = false) : (pc + imm).toNat % 4 = 0 := by
  have sum := BitVec.toNat_add pc imm
  rw [getLsbD_one, decide_eq_false_iff_not] at clear
  omega

include machine in
/-- Every satisfying assignment of a row that executes a branch or a comparison continues or writes
as the instruction set says, a branch that is taken from a multiple of 4 by an even offset goes to a
multiple of 4, and nothing else prevents an assignment when signs are supported. -/
theorem conditionalRow_spec
    (supported : ConditionalOp.defineDecoderSubspace supportSigned opcode funct3.toNat funct7 =
      some (format, major, minors)) (decoded : flags.Selects major minors)
    (x y pc imm : BitVec 32) :
    (∀ (assignment : List F) (rd nextPc : Register),
      (conditionalCircuit tables supportSigned flags (.ofWord x) (.ofWord y) (.ofWord pc)
        (.ofWord imm) (.var (funct3.toNat : F))).run assignment = some ((rd, nextPc), []) →
      if opcode = operationBranch then
        ∃ condition, BranchCondition.ofFunct3 funct3 = some condition ∧
          nextPc = .ofWord (if condition.holds x y then pc + imm else pc + 4) ∧
          (pc.toNat % 4 = 0 → imm.toNat % 2 = 0 → condition.holds x y = true →
            (pc + imm).toNat % 4 = 0)
      else
        ∃ operation, AluOperation.ofFunct3 funct3 = some operation ∧
          rd = .ofWord (operation.result x y) ∧ nextPc = .ofWord (pc + 4)) ∧
    (supportSigned = true → pc.toNat + 4 < 2 ^ 32 →
      (branches funct3 x y = true → (pc + imm).toNat % 4 = 0) →
      ∃ assignment : List F,
        (conditionalCircuit tables supportSigned flags (.ofWord x) (.ofWord y) (.ofWord pc)
          (.ofWord imm) (.var (funct3.toNat : F))).run assignment =
          some ((.ofWord (truthWord (stores funct3 x y)),
            .ofWord (if branches funct3 x y then pc + imm else pc + 4)), [])) := by
  obtain ⟨rfl, declared⟩ := conditional_declared supported
  have executing : flags.majorFlag .conditionalCommon = true := decoded.major_iff _
  cases supportSigned with
  | false =>
    refine ⟨?_, ?_⟩
    · intro assignment rd nextPc accepted
      have yielded := (yields_iff_run _ _).mpr ⟨assignment, accepted⟩
      exact absurd yielded (yields_conditionalCircuit_unsigned machine executing funct3 _)
    · intro unsupported
      cases unsupported
  | true =>
    have yields := @yields_conditionalCircuit_signed _ _ _ machine x y pc imm flags executing funct3
    refine ⟨?_, ?_⟩
    · intro assignment rd nextPc accepted
      obtain ⟨_, clear, same⟩ := (yields _).mp ((yields_iff_run _ _).mpr ⟨assignment, accepted⟩)
      cases same
      by_cases branch : opcode = operationBranch
      · rw [if_pos branch] at declared ⊢
        obtain ⟨condition, found, taken⟩ := branches_eq declared
        rw [taken] at clear ⊢
        exact ⟨condition, found, rfl, fun aligned even holds =>
          multiple_of_second_bit_clear aligned even (clear holds)⟩
      · rw [if_neg branch] at declared ⊢
        obtain ⟨never, operation, found, stored⟩ := stores_eq declared
        rw [never, stored]
        exact ⟨operation, found, rfl, rfl⟩
    · intro _ fits multiple
      refine (yields_iff_run _ _).mp ((yields _).mpr ⟨fits, ?_, rfl⟩)
      exact fun taken => second_bit_clear (multiple taken)

end

def conditionalFlags : BooleanSet where
  majorFlag key := decide (key = .conditionalCommon)
  minorFlag _ _ := false

theorem conditionalRow_signed_branch :
    ∃ assignment : List F,
      (conditionalCircuit (machineTables 5 []) true conditionalFlags (.ofWord (BitVec.intMin 32))
        (.ofWord (BitVec.intMax 32)) (.ofWord 8) (.ofWord (-8)) (.var (4 : ℕ))).run assignment =
        some ((.ofWord 0, .ofWord 0), []) := by
  have supported : ConditionalOp.defineDecoderSubspace true operationBranch (0b100 : BitVec 3).toNat
      0 = some (.bType, .conditionalCommon, []) := rfl
  have decoded : conditionalFlags.Selects .conditionalCommon [] :=
    ⟨fun _ => rfl, fun minor => by cases minor <;> rfl⟩
  exact (conditionalRow_spec (machineTables_spec 5 []) supported decoded (BitVec.intMin 32)
    (BitVec.intMax 32) 8 (-8)).2 rfl (by decide) (fun _ => by decide)

/-- A branch from an odd address to an odd address: only the second bit is checked. -/
theorem conditionalRow_odd_target :
    (∃ assignment : List F,
      (conditionalCircuit (machineTables 5 []) true conditionalFlags (.ofWord 0) (.ofWord 0)
        (.ofWord 1) (.ofWord 4) (.var (0 : ℕ))).run assignment =
        some ((.ofWord 0, .ofWord 5), [])) ∧
      BranchCondition.eq.holds 0 0 = true ∧ (5 : BitVec 32) = 1 + 4 ∧
      (5 : BitVec 32).toNat % 4 ≠ 0 := by
  refine ⟨(yields_iff_run _ _).mp ?_, by decide⟩
  exact (yields_conditionalCircuit_signed (machineTables_spec 5 []) rfl 0 _).mpr
    ⟨by decide, by decide, rfl⟩

end Airbender.Machine

import Airbender.Machine.Decoder
import Airbender.Cs.FamilyContext

/-!
# Rows of the CSR family

A row reads the oracle or requests a delegation. Whether the CSR is one for delegations is a lookup
output that families share, so it is any field element when another family executes; the request is
masked by the flag of the family.
-/

namespace Airbender.Machine

open CircuitLib Circuit Mersenne31Field Cs OptimizationContext CursorScript List

def nonDeterminismCsrIndex : ℕ := 0x7c0

def supportedCsr (supportNonDeterminismCsr : Bool) (supportedDelegations : List ℕ)
    (csrIndex : ℕ) : Bool :=
  (csrIndex == nonDeterminismCsrIndex && supportNonDeterminismCsr) ||
    supportedDelegations.contains csrIndex

/-- `create_special_csr_properties_table`; the generation asserts that a delegation is a CSR and
not the oracle. -/
def createSpecialCSRPropertiesTable (supportNonDeterminismCsr : Bool)
    (supportedDelegations : List ℕ) : Option (Row → Bool) :=
  if supportedDelegations.all (· < 2 ^ 12) &&
      !supportedDelegations.contains nonDeterminismCsrIndex then
    some (oneKeyTable 12 fun csrIndex =>
      ((supportedCsr supportNonDeterminismCsr supportedDelegations csrIndex).toNat,
        (supportedDelegations.contains csrIndex).toNat))
  else none

structure DelegatedComputationRequest where
  execute : F
  degegationType : F
  memoryOffsetHigh : F
deriving DecidableEq

def DelegatedComputationRequest.zero : DelegatedComputationRequest := ⟨0, 0, 0⟩

/-- `apply_csr_with_delegation` for trusted code. The one request of the row is returned with what
the row writes. -/
def CsrOp.apply (supportCsrrc supportCsrrs supportCsrImmediates : Bool) (src1 : Register)
    (csrIndex : F) (flags : BooleanSet) :
    ContextM (DelegatedComputationRequest × CommonDiffs) := do
  if supportCsrImmediates || supportCsrrc || supportCsrrs then
    (abort : Assembly (DelegatedComputationRequest × CommonDiffs))
  else
    resetIndexers
    let execFlag := flags.getMajorFlag .csrCommon
    let externalOracle ← Register.new
    let (isSupportedCsr, isForDelegation) ←
      appendLookupPair csrIndex .specialCSRProperties execFlag
    addConstraint ((1 - isSupportedCsr) * execFlag.value)
    let shouldDelegate ← addVariableFromConstraint (isForDelegation * execFlag.value)
    let offsetMasked ← addVariableFromConstraint (shouldDelegate * src1.high.value)
    let csrIndexMasked ← addVariableFromConstraint (shouldDelegate * csrIndex)
    let delegationRequest : DelegatedComputationRequest :=
      ⟨shouldDelegate, csrIndexMasked, offsetMasked⟩
    -- a delegation returns nothing through the oracle
    addConstraint (isForDelegation * externalOracle.low.value)
    addConstraint (isForDelegation * externalOracle.high.value)
    let diffs ← writesRegister execFlag externalOracle
    pure (delegationRequest, diffs)

/-- A row: the family after the relations of some families in the context, and before others. The
outputs of the lookups are returned with the request and what the family writes. -/
def csrRow (tables : TableDriver) (flags : BooleanSet) (src1 : Register) (csrIndex : F)
    (before : OptimizationContext) (others : ContextM Unit) :
    Assembly ((DelegatedComputationRequest × CommonDiffs) × List F) := do
  let (outcome, context) ← (CsrOp.apply false false false src1 csrIndex flags).run before
  let (_, context) ← others.run context
  context.enforceAll tables
  pure (outcome, context.lookupOutputs)

/-- The lookups that a program registers are those of families that do not execute. -/
def AddsIdleLookups (others : ContextM Unit) : Prop :=
  ∀ context after, (others.run context).Yields ((), after) →
    ∃ added, after.lookupRelations = context.lookupRelations ++ added ∧
      ∀ entry ∈ added, entry.2.execFlag = .is 0

theorem appendLookupPair_registers {β : Type} {context : OptimizationContext}
    {result : β × OptimizationContext} {input : F} {table : TableType} {flag : F}
    {rest : F × F → ContextM β}
    (reached : context.indexers.lookupOutputs ≤ context.lookupOutputs.length)
    (runs : ((appendLookupPair input table (.is flag) >>= rest).run context).Yields result) :
    ∃ first second pool indexers, ((rest (first, second)).run { context with
      lookupOutputs := pool
      lookupRelations := context.lookupRelations ++
        [(context.indexers.lookup, ⟨.is flag, ⟨input, first, second⟩, table.toNum⟩)]
      indexers := indexers }).Yields result := by
  rw [appendLookupPair, bind_assoc,
    yields_appendLookupRelation _ _ _ _ _ _ _ (by simp) (by simp) reached] at runs
  obtain ⟨extra, -, rested⟩ := runs
  simp only [pure_bind] at rested
  exact ⟨_, _, _, _, rested⟩

theorem idle_relations {relations : List LookupRelation}
    (idle : ∀ relation ∈ relations, relation.execFlag = .is 0) :
    relations = (relations.map fun relation => (false, relation.row, relation.table)).map
      fun relation => ⟨.is (bit relation.1), relation.2.1, relation.2.2⟩ := by
  rw [map_map]
  nth_rewrite 1 [← map_id relations]
  apply map_congr_left
  intro relation member
  simp [← idle relation member]

theorem executed_lookup_holds {tables : TableDriver} {final : OptimizationContext} {position : ℕ}
    {row : Row} {table : TableType} {before after : List (ℕ × LookupRelation)}
    (real : table ≠ .dynamicPlaceholder)
    (registered : final.lookupRelations =
      before ++ (position, ⟨.is 1, row, table.toNum⟩) :: after)
    (idleBefore : ∀ entry ∈ before, entry.2.execFlag = .is 0)
    (idleAfter : ∀ entry ∈ after, entry.2.execFlag = .is 0)
    (satisfied : (final.enforceAll tables).Yields ()) : tables table row = true := by
  have slots : (enforceSlots final.lookupRelations
      fun _ => enforceLookupSlot tables).Yields () := by
    simp only [enforceAll, yields_bind] at satisfied
    obtain ⟨_, -, _, -, _, -, _, -, _, -, _, -, _, -, _, slots, -⟩ := satisfied
    exact slots
  have inside : position < slotCount final.lookupRelations := by
    have member : (position, ⟨.is 1, row, table.toNum⟩) ∈ final.lookupRelations := by
      rw [registered]
      exact mem_append_right _ mem_cons_self
    exact le_extent_of_mem 0 (mem_map_of_mem (f := fun entry => entry.1 + 1) member)
  have own := (yields_enforceSlots _ _ _).mp slots position inside
  have idle : ∀ entries : List (ℕ × LookupRelation),
      (∀ entry ∈ entries, entry.2.execFlag = .is 0) →
      ∀ relation ∈ slot entries position, relation.execFlag = .is 0 := by
    intro entries holds relation member
    obtain ⟨entry, found, rfl⟩ := mem_map.mp member
    exact holds entry (mem_filter.mp found).1
  have split : slot final.lookupRelations position =
      slot before position ++ ⟨.is 1, row, table.toNum⟩ :: slot after position := by
    simp [registered, slot]
  let flagged := fun relation : LookupRelation => (false, relation.row, relation.table)
  let relations := (slot before position).map flagged ++
    (true, row, table.toNum) :: (slot after position).map flagged
  have exclusive : Orthogonal (·.1) relations := by
    refine pairwise_append.mpr ⟨?_, pairwise_cons.mpr ⟨?_, ?_⟩, ?_⟩ <;>
      simp [flagged, pairwise_map, pairwise_of_forall]
  rw [split, idle_relations (idle before idleBefore), idle_relations (idle after idleAfter)] at own
  have active : activeLookup relations = (row, table.toNum.value) := by
    have none : ((slot before position).map flagged).find? (·.1) = none := by simp [flagged]
    simp [activeLookup, relations, find?_append, none]
  have nonempty : relations ≠ [] := by simp [relations]
  have found := (yields_enforceLookupSlot tables nonempty exclusive ()).mp
    (by simpa [relations, flagged] using own)
  rw [active, containsId_toNum tables real] at found
  exact found

section

variable {tables : TableDriver} {flags : BooleanSet} {rs1 : BitVec 32} {csrIndex : F}

variable {before : OptimizationContext}

theorem csrOp_outcome {after : OptimizationContext}
    {outcome : DelegatedComputationRequest × CommonDiffs}
    (runs : ((CsrOp.apply false false false (.ofWord rs1) csrIndex flags).run before).Yields
      (outcome, after)) : let execute : F := bit (flags.majorFlag .csrCommon)
    ∃ (oracle : BitVec 32) (isSupported isForDelegation : F),
      after.lookupRelations = before.lookupRelations ++ [(0, ⟨.is execute,
        ⟨csrIndex, isSupported, isForDelegation⟩, TableType.specialCSRProperties.toNum⟩)] ∧
      (1 - isSupported) * execute = 0 ∧ isForDelegation * (lowLimb oracle : F) = 0 ∧
      isForDelegation * (highLimb oracle : F) = 0 ∧
      outcome = (⟨isForDelegation * execute, isForDelegation * execute * csrIndex,
        isForDelegation * execute * (highLimb rs1 : F)⟩,
        wordDiffs (flags.majorFlag .csrCommon) oracle) := by
  simp only [CsrOp.apply, Bool.or_self, Bool.false_eq_true, if_false, yields_resetIndexers,
    BooleanSet.getMajorFlag, yields_lift_bind, Register.yields_new] at runs
  obtain ⟨_, ⟨oracle, rfl⟩, runs⟩ := runs
  obtain ⟨isSupported, isForDelegation, pool, indexers, runs⟩ :=
    appendLookupPair_registers (Nat.zero_le _) runs
  simp only [yields_lift_bind, yields_addConstraint, yields_addVariableFromConstraint,
    exists_eq_left', yields_writesRegister, yields_run_pure, Prod.mk.injEq, Boolean.value_is,
    Register.ofWord_low, Register.ofWord_high, Num.value_var] at runs
  obtain ⟨_, supported, _, low, _, high, rfl, rfl⟩ := runs
  exact ⟨oracle, isSupported, isForDelegation, rfl, supported, low, high, rfl⟩

theorem yields_csrRow {others : ContextM Unit}
    (outcome : (DelegatedComputationRequest × CommonDiffs) × List F) :
    (csrRow tables flags (.ofWord rs1) csrIndex before others).Yields outcome ↔
      ∃ context final, ((CsrOp.apply false false false (.ofWord rs1) csrIndex flags).run
          before).Yields (outcome.1, context) ∧ (others.run context).Yields ((), final) ∧
        (final.enforceAll tables).Yields () ∧ final.lookupOutputs = outcome.2 := by
  obtain ⟨produced, outputs⟩ := outcome
  simp only [csrRow, yields_bind, yields_pure, Prod.mk.injEq]
  constructor
  · rintro ⟨⟨_, context⟩, runs, ⟨_, final⟩, later, _, enforces, rfl, rfl⟩
    exact ⟨context, final, runs, later, enforces, rfl⟩
  · rintro ⟨context, final, runs, later, enforces, rfl⟩
    exact ⟨(produced, context), runs, ((), final), later, (), enforces, rfl, rfl⟩

theorem csrRow_executing {others : ContextM Unit} (executing : flags.majorFlag .csrCommon = true)
    (idle : ∀ entry ∈ before.lookupRelations, entry.2.execFlag = .is 0)
    (idleOthers : AddsIdleLookups others)
    {outcome : (DelegatedComputationRequest × CommonDiffs) × List F}
    (satisfied : (csrRow tables flags (.ofWord rs1) csrIndex before others).Yields outcome) :
    ∃ (rd : BitVec 32) (isForDelegation : F),
      tables .specialCSRProperties ⟨csrIndex, 1, isForDelegation⟩ = true ∧
      isForDelegation * (lowLimb rd : F) = 0 ∧ isForDelegation * (highLimb rd : F) = 0 ∧
      outcome.1 = (⟨isForDelegation, isForDelegation * csrIndex,
        isForDelegation * (highLimb rs1 : F)⟩, wordDiffs true rd) := by
  obtain ⟨context, final, runs, later, enforces, -⟩ := (yields_csrRow outcome).mp satisfied
  obtain ⟨oracle, isSupported, isForDelegation, registered, supported, low, high, same⟩ :=
    csrOp_outcome runs
  obtain ⟨added, extended, idleAdded⟩ := idleOthers _ _ later
  rw [registered, executing, bit_true, append_assoc] at extended
  have inTable := executed_lookup_holds (by decide) extended idle idleAdded enforces
  rw [executing, bit_true, mul_one, sub_eq_zero] at supported
  rw [← supported] at inTable
  refine ⟨oracle, isForDelegation, inTable, low, high, ?_⟩
  rw [same, executing, bit_true, mul_one]

theorem supported_iff {supportNonDeterminismCsr : Bool} {supportedDelegations : List ℕ}
    {table : Row → Bool}
    (created : createSpecialCSRPropertiesTable supportNonDeterminismCsr supportedDelegations =
      some table) (isForDelegation : F) :
    table ⟨csrIndex, 1, isForDelegation⟩ = true ↔
      csrIndex.val < 2 ^ 12 ∧
        supportedCsr supportNonDeterminismCsr supportedDelegations csrIndex.val = true ∧
        isForDelegation = bit (supportedDelegations.contains csrIndex.val) := by
  have known := (Option.ite_none_right_eq_some.mp created).2
  rw [← Option.some.inj known, oneKeyTable_iff, ← bit_eq_natCast, ← bit_eq_natCast]
  cases supportedCsr supportNonDeterminismCsr supportedDelegations csrIndex.val <;> simp

theorem csrRow_satisfied (zeroEntry : tables .zeroEntry = zeroEntryTable) {execute : Bool}
    (executes : flags.majorFlag .csrCommon = execute) (rs1 oracle : BitVec 32)
    (csrIndex isSupported isForDelegation : F)
    (looked : execute = true →
      tables .specialCSRProperties ⟨csrIndex, isSupported, isForDelegation⟩ = true)
    (supported : (1 - isSupported) * bit execute = 0)
    (low : isForDelegation * (lowLimb oracle : F) = 0)
    (high : isForDelegation * (highLimb oracle : F) = 0) :
    (csrRow tables flags (.ofWord rs1) csrIndex {} (pure ())).Yields
      ((⟨isForDelegation * bit execute, isForDelegation * bit execute * csrIndex,
        isForDelegation * bit execute * (highLimb rs1 : F)⟩, wordDiffs execute oracle),
        [isSupported, isForDelegation]) := by
  simp only [yields_csrRow, CsrOp.apply, Bool.or_self, Bool.false_eq_true, if_false,
    yields_resetIndexers, BooleanSet.getMajorFlag, executes, yields_lift_bind,
    Register.yields_new, exists_exists_eq_and, yields_appendLookupPair_new, withLookup, length_nil,
    yields_addConstraint, yields_addVariableFromConstraint, exists_eq_left',
    yields_writesRegister, yields_run_pure, Prod.mk.injEq, Boolean.value_is]
  refine ⟨_, _, ⟨oracle, isSupported, isForDelegation, (), supported, (), low, (), high,
    ⟨rfl, rfl⟩, rfl⟩, ⟨trivial, rfl⟩, ?_, rfl⟩
  have slotHolds := (yields_lookupSlot_one zeroEntry execute
    ⟨csrIndex, isSupported, isForDelegation⟩ (by decide) ()).mpr looked
  simpa [enforceAll, enforceSlots, slotCount, slot] using slotHolds

/-- A row that executes the family has a supported CSR. It requests the delegation of a CSR for
delegations and writes zero, or it requests nothing and writes any word. A row of another family
requests nothing, whatever the outputs of the lookup are. -/
theorem csrRow_requests {supportNonDeterminismCsr : Bool} {supportedDelegations : List ℕ}
    {table : Row → Bool}
    (created : createSpecialCSRPropertiesTable supportNonDeterminismCsr supportedDelegations =
      some table)
    (tabled : tables .specialCSRProperties = table)
    (zeroEntry : tables .zeroEntry = zeroEntryTable) (rs1 : BitVec 32) (csrIndex : F) :
    (flags.majorFlag .csrCommon = true → ∀ before others,
      (∀ entry ∈ before.lookupRelations, entry.2.execFlag = .is 0) → AddsIdleLookups others →
      ∀ (assignment : List F) request diffs outputs,
        (csrRow tables flags (.ofWord rs1) csrIndex before others).run assignment =
            some (((request, diffs), outputs), []) →
          ∃ (csr : ℕ) (rd : BitVec 32), csr < 2 ^ 12 ∧ csrIndex = (csr : F) ∧
            supportedCsr supportNonDeterminismCsr supportedDelegations csr = true ∧
            diffs = wordDiffs true rd ∧
            if csr ∈ supportedDelegations then
              request = ⟨1, (csr : F), (highLimb rs1 : F)⟩ ∧ rd = 0
            else request = .zero) ∧
    (flags.majorFlag .csrCommon = false →
      (∀ before others (assignment : List F) request diffs outputs,
        (csrRow tables flags (.ofWord rs1) csrIndex before others).run assignment =
            some (((request, diffs), outputs), []) → request = .zero) ∧
      ∀ isSupported isForDelegation : F, ∃ assignment diffs,
        (csrRow tables flags (.ofWord rs1) csrIndex {} (pure ())).run assignment =
          some (((.zero, diffs), [isSupported, isForDelegation]), [])) := by
  constructor
  · intro executing before others idle idleOthers assignment request diffs outputs accepted
    obtain ⟨rd, isForDelegation, inTable, low, high, same⟩ := csrRow_executing executing idle
      idleOthers ((yields_iff_run _ _).mpr ⟨assignment, accepted⟩)
    obtain ⟨rfl, rfl⟩ := Prod.mk.inj same
    rw [tabled, supported_iff created] at inTable
    obtain ⟨bounded, supported, rfl⟩ := inTable
    refine ⟨csrIndex.val, rd, bounded, (ZMod.natCast_zmod_val csrIndex).symm, supported, rfl, ?_⟩
    rw [ZMod.natCast_zmod_val]
    split_ifs with delegated
    · have flagged : supportedDelegations.contains csrIndex.val = true :=
        contains_iff_mem.mpr delegated
      rw [flagged, bit_true, one_mul] at low high
      rw [flagged, bit_true, one_mul, one_mul]
      refine ⟨rfl, (limb_sum_eq_zero rd).mp ?_⟩
      rw [low, high, add_zero]
    · have flagged : supportedDelegations.contains csrIndex.val = false := by simpa using delegated
      rw [flagged, bit_false, zero_mul, zero_mul]
      rfl
  · intro idleFamily
    constructor
    · intro before others assignment request diffs outputs accepted
      obtain ⟨_, _, runs, -, -, -⟩ :=
        (yields_csrRow _).mp ((yields_iff_run _ _).mpr ⟨assignment, accepted⟩)
      obtain ⟨_, _, isForDelegation, -, -, -, -, same⟩ := csrOp_outcome runs
      rw [(Prod.mk.inj same).1, idleFamily, bit_false, mul_zero, zero_mul, zero_mul]
      rfl
    · intro isSupported isForDelegation
      have satisfied := csrRow_satisfied zeroEntry idleFamily rs1 0 csrIndex isSupported
        isForDelegation (fun executes => absurd executes Bool.false_ne_true) (by simp) (by simp)
        (by simp)
      rw [bit_false, mul_zero, zero_mul, zero_mul] at satisfied
      obtain ⟨assignment, accepted⟩ := (yields_iff_run _ _).mp satisfied
      exact ⟨assignment, wordDiffs false 0, accepted⟩

end

def csrTables (table : Row → Bool) : TableDriver
  | .zeroEntry => zeroEntryTable
  | .specialCSRProperties => table
  | _ => fun _ => false

def csrFlags : BooleanSet := ⟨fun key => decide (key = .csrCommon), fun _ _ => false⟩

theorem csrRow_delegates :
    ∃ (table : Row → Bool) (assignment : List F) (diffs : CommonDiffs) (outputs : List F),
      createSpecialCSRPropertiesTable true [0x7c7] = some table ∧
      (csrRow (csrTables table) csrFlags (.ofWord 0x30000) ((0x7c7 : ℕ) : F) {}
        (pure ())).run assignment =
          some (((⟨1, ((0x7c7 : ℕ) : F), (3 : ℕ)⟩, diffs), outputs), []) := by
  obtain ⟨table, created⟩ : ∃ table, createSpecialCSRPropertiesTable true [0x7c7] = some table :=
    ⟨_, rfl⟩
  have small : ((0x7c7 : ℕ) : F).val = 0x7c7 := val_natCast_of_lt (by omega)
  have looked : table ⟨((0x7c7 : ℕ) : F), 1, 1⟩ = true := by
    rw [supported_iff created, small]
    decide
  have satisfied := @csrRow_satisfied (csrTables table) csrFlags rfl true rfl 0x30000 0
    ((0x7c7 : ℕ) : F) 1 1 (fun _ => looked) (by simp) (by simp) (by simp)
  obtain ⟨assignment, accepted⟩ := (yields_iff_run _ _).mp satisfied
  have idleOthers : AddsIdleLookups (pure ()) := by
    intro context after runs
    obtain ⟨-, rfl⟩ := Prod.mk.inj ((yields_run_pure context _ ()).mp runs)
    exact ⟨[], (append_nil _).symm, fun _ impossible => absurd impossible not_mem_nil⟩
  obtain ⟨csr, rd, bounded, same, -, -, delegates⟩ :=
    (csrRow_requests created rfl rfl 0x30000 ((0x7c7 : ℕ) : F)).1 rfl {} (pure ())
      (fun _ impossible => absurd impossible not_mem_nil) idleOthers assignment _ _ _ accepted
  obtain rfl : csr = 0x7c7 := by
    rw [← val_natCast_of_lt (show csr < 2147483647 by omega), ← same, small]
  rw [if_pos mem_cons_self] at delegates
  rw [delegates.1] at accepted
  exact ⟨table, assignment, _, _, created, accepted⟩

end Airbender.Machine

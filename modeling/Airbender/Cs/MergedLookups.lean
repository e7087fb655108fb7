import Airbender.Cs.MergedRelations

/-!
# Merged lookups

The lookups of several families share the slots of `append_lookup_relation`, inputs and table id
included. They are an instance of the scripts with a cursor: when at most one of the lookups of a
slot is executed, the slot holds the row of that one, and a slot without one holds the zero row.
-/

namespace Airbender.Cs.OptimizationContext

open CircuitLib Circuit Mersenne31Field CursorScript List

/-- A call of `append_lookup_relation` with one, two or three inputs. -/
structure LookupRequest where
  execute : Bool
  inputs : List F
  table : Num
  keyed : inputs ≠ []
  width : inputs.length ≤ 3

namespace LookupRequest

def outputCount (request : LookupRequest) : ℕ := 3 - request.inputs.length

def append (request : LookupRequest) : ContextM (List F) :=
  appendLookupRelation request.inputs request.outputCount request.table
    (.is (bit request.execute))

def row (request : LookupRequest) (outputs : List F) : Row := rowOfCells (request.inputs ++ outputs)

def relation (request : LookupRequest) (outputs : List F) : LookupRelation :=
  ⟨.is (bit request.execute), request.row outputs, request.table⟩

def Holds (tables : TableDriver) (request : LookupRequest) (outputs : List F) : Prop :=
  tables.containsId request.table.value (request.row outputs) = true

end LookupRequest

/-- Places are a slot and a position among the outputs. -/
abbrev LookupCursor := ℕ × ℕ

def lookupOutput (pool : List F) (cursor : LookupCursor) (request : LookupRequest) : List F :=
  (pool.drop cursor.2).take request.outputCount

def lookupContext (cursor : LookupCursor) (pool : List F)
    (placed : List (LookupCursor × LookupRequest)) : OptimizationContext where
  indexers := { lookup := cursor.1, lookupOutputs := cursor.2 }
  lookupOutputs := pool
  lookupRelations := placed.map fun entry =>
    (entry.1.1, entry.2.relation (lookupOutput pool entry.1 entry.2))

theorem lookupOutput_append {pool : List F} {cursor : LookupCursor} {request : LookupRequest}
    (inside : cursor.2 + request.outputCount ≤ pool.length) (extra : List F) :
    lookupOutput (pool ++ extra) cursor request = lookupOutput pool cursor request := by
  rw [lookupOutput, lookupOutput, drop_append_of_le_length (by omega),
    take_append_of_le_length (by rw [length_drop]; omega)]

theorem yields_appendLookup {γ : Type} (cursor : LookupCursor) (request : LookupRequest)
    (pool : List F) (placed : List (LookupCursor × LookupRequest)) (rest : List F → ContextM γ)
    (result : γ × OptimizationContext) (reached : cursor.2 ≤ pool.length)
    (fits : ∀ entry ∈ placed, entry.1.2 + entry.2.outputCount ≤ pool.length) :
    ((request.append >>= rest).run (lookupContext cursor pool placed)).Yields result ↔
      ∃ extra : List F, extra.length = cursor.2 + request.outputCount - pool.length ∧
        ((rest (lookupOutput (pool ++ extra) cursor request)).run
          (lookupContext (cursor.1 + 1, cursor.2 + request.outputCount) (pool ++ extra)
            (placed ++ [(cursor, request)]))).Yields result := by
  have width : request.inputs.length + request.outputCount = 3 := by
    have := request.width
    rw [LookupRequest.outputCount]
    omega
  have earlier : ∀ extra : List F, (placed.map fun entry =>
      (entry.1.1, entry.2.relation (lookupOutput (pool ++ extra) entry.1 entry.2))) =
      placed.map fun entry =>
        (entry.1.1, entry.2.relation (lookupOutput pool entry.1 entry.2)) := by
    intro extra
    apply map_congr_left
    intro entry member
    rw [lookupOutput_append (fits entry member)]
  rw [LookupRequest.append, yields_appendLookupRelation _ _ _ _ _ _ _ request.keyed width reached]
  apply exists_congr
  intro extra
  simp only [lookupContext, withLookup, map_append, earlier]
  rfl

def lookupRegistry : Registry LookupRequest (List F) F LookupCursor where
  append := LookupRequest.append
  start := (0, 0)
  advance cursor request := (cursor.1 + 1, cursor.2 + request.outputCount)
  indexers cursor := { lookup := cursor.1, lookupOutputs := cursor.2 }
  reach cursor := cursor.2
  output := lookupOutput
  context := lookupContext
  indexers_start := rfl
  reach_start := rfl
  indexers_context _ _ _ := rfl
  context_restore _ _ _ _ := rfl
  output_append _ extra _ _ inside := lookupOutput_append inside extra
  yields_append := yields_appendLookup

theorem selected_map {α : Type} (items : List α) (flag : α → Boolean) (weight : α → F) :
    selected (items.map flag) (items.map weight) =
      (items.map fun item => (flag item).value * weight item).sum := by
  rw [selected, zip_map', map_map]
  rfl

def activeLookup (relations : List (Bool × Row × Num)) : Row × F :=
  ((relations.find? (·.1)).map fun relation => (relation.2.1, relation.2.2.value)).getD
    (⟨0, 0, 0⟩, 0)

theorem yields_enforceLookupSlot (tables : TableDriver) {relations : List (Bool × Row × Num)}
    (nonempty : relations ≠ []) (orthogonal : Orthogonal (·.1) relations) (result : Unit) :
    (enforceLookupSlot tables (relations.map fun relation =>
      ⟨.is (bit relation.1), relation.2.1, relation.2.2⟩)).Yields result ↔
      tables.containsId (activeLookup relations).2 (activeLookup relations).1 = true := by
  have flagged : ((relations.map fun relation => (Boolean.is (bit relation.1))).all
      Boolean.isIs) = true := by
    simp
  have plain : ((relations.map fun relation => (Boolean.is (bit relation.1))).any
      Boolean.isConstant) = false := by
    simp
  have sums := fun weight : Bool × Row × Num → F =>
    (selected_map relations (fun relation => .is (bit relation.1)) weight).trans
      (sum_executed orthogonal weight)
  simp only [enforceLookupSlot, map_map, Function.comp_def, yields_bind,
    yields_chooseFromOrthogonalVariantsForLinearTerms, yields_chooseFromOrthogonalVariants, flagged,
    plain, sums, length_map, ne_eq, map_eq_nil_iff, nonempty, not_false_iff, true_and,
    exists_eq_left', Num.getVariable_var, yields_pure, Num.value_var,
    yields_enforceLookupTupleForVariableTable, activeLookup]
  cases relations.find? (·.1) with
  | none => rfl
  | some relation => rfl

def mergedLookups (tables : TableDriver) (steps : List (Step LookupRequest)) :
    Assembly (List (List F)) := do
  let (outputs, context) ← (runSteps LookupRequest.append steps {}).run {}
  context.enforceAll tables
  pure outputs

def LookupsOrthogonal (placed : List (LookupCursor × LookupRequest)) : Prop :=
  placed.Pairwise fun first second =>
    first.1.1 = second.1.1 → ¬ (first.2.execute = true ∧ second.2.execute = true)

def lookupsInSlot (placed : List (LookupCursor × LookupRequest)) (index : ℕ) :
    List (LookupCursor × LookupRequest) :=
  placed.filter fun entry => entry.1.1 == index

theorem lookupSlot_eq (placed : List (LookupCursor × LookupRequest)) (pool : List F) (index : ℕ) :
    slot (placed.map fun entry =>
        (entry.1.1, entry.2.relation (lookupOutput pool entry.1 entry.2))) index =
      ((lookupsInSlot placed index).map fun entry => (entry.2.execute,
        entry.2.row (lookupOutput pool entry.1 entry.2), entry.2.table)).map fun relation =>
          ⟨.is (bit relation.1), relation.2.1, relation.2.2⟩ := by
  rw [slot, lookupsInSlot, filter_map, map_map, map_map]
  rfl

theorem orthogonal_lookupsInSlot {placed : List (LookupCursor × LookupRequest)}
    (orthogonal : LookupsOrthogonal placed) (index : ℕ) :
    Orthogonal (fun entry => entry.2.execute) (lookupsInSlot placed index) := by
  apply (orthogonal.filter _).imp_of_mem
  intro first second firstMember secondMember exclusive
  have firstSlot := (mem_filter.mp firstMember).2
  have secondSlot := (mem_filter.mp secondMember).2
  exact exclusive ((eq_of_beq firstSlot).trans (eq_of_beq secondSlot).symm)

variable {tables : TableDriver}

theorem lookupSlot_iff (zeroEntry : tables.containsId 0 ⟨0, 0, 0⟩ = true)
    {entries : List (LookupCursor × LookupRequest)}
    (orthogonal : Orthogonal (fun entry => entry.2.execute) entries) (pool : List F) :
    (let active := activeLookup (entries.map fun entry => (entry.2.execute,
        entry.2.row (lookupOutput pool entry.1 entry.2), entry.2.table))
    tables.containsId active.2 active.1 = true) ↔
      ∀ entry ∈ entries, entry.2.execute = true →
        entry.2.Holds tables (lookupOutput pool entry.1 entry.2) := by
  rw [forall_executed_iff orthogonal]
  simp only [activeLookup, find?_map, Function.comp_def]
  cases entries.find? fun entry => entry.2.execute with
  | none =>
    constructor
    · intro _ entry impossible
      cases impossible
    · intro _
      exact zeroEntry
  | some entry =>
    constructor
    · intro holds other sought
      cases sought
      exact holds
    · intro holds
      exact holds entry rfl

theorem yields_enforceAll_lookups (zeroEntry : tables.containsId 0 ⟨0, 0, 0⟩ = true)
    (steps : List (Step LookupRequest))
    (orthogonal : LookupsOrthogonal (lookupRegistry.placed steps)) (cursor : LookupCursor)
    (pool : List F) (result : Unit) :
    ((lookupContext cursor pool (lookupRegistry.placed steps)).enforceAll tables).Yields result ↔
      ∀ entry ∈ lookupRegistry.placed steps, entry.2.execute = true →
        entry.2.Holds tables (lookupOutput pool entry.1 entry.2) := by
  have alone : ((lookupContext cursor pool (lookupRegistry.placed steps)).enforceAll tables).Yields
      result ↔ (enforceSlots (lookupContext cursor pool
        (lookupRegistry.placed steps)).lookupRelations
          fun _ => enforceLookupSlot tables).Yields () := by
    simp only [enforceAll, yields_bind, yields_assert]
    simp [lookupContext, yields_enforceSlots, slotCount]
  have count : slotCount (lookupContext cursor pool
      (lookupRegistry.placed steps)).lookupRelations =
        extent ((lookupRegistry.placed steps).map fun entry => entry.1.1 + 1) 0 := by
    rw [slotCount, lookupContext, map_map]
    rfl
  have slots : ∀ index < extent ((lookupRegistry.placed steps).map fun entry => entry.1.1 + 1) 0,
      ((enforceLookupSlot tables (slot (lookupContext cursor pool
        (lookupRegistry.placed steps)).lookupRelations index)).Yields () ↔
        ∀ entry ∈ lookupsInSlot (lookupRegistry.placed steps) index, entry.2.execute = true →
          entry.2.Holds tables (lookupOutput pool entry.1 entry.2)) := by
    intro index inside
    rcases exists_placement lookupRegistry.start lookupRegistry.advance Prod.fst rfl
      (fun _ _ => rfl) steps (Nat.le_refl 0) (Nat.le_refl 0) (Nat.zero_le index) inside with
      ⟨entry, member, same⟩
    have used : entry ∈ lookupsInSlot (lookupRegistry.placed steps) index :=
      mem_filter.mpr ⟨member, beq_iff_eq.mpr same⟩
    have exclusive := orthogonal_lookupsInSlot orthogonal index
    rw [← lookupSlot_iff zeroEntry exclusive pool]
    change (enforceLookupSlot tables (slot ((lookupRegistry.placed steps).map _) index)).Yields ()
      ↔ _
    rw [lookupSlot_eq]
    apply yields_enforceLookupSlot
    · exact ne_nil_of_mem (mem_map_of_mem used)
    · exact pairwise_map.mpr exclusive
  rw [alone, yields_enforceSlots, count]
  constructor
  · intro holds entry member executes
    have inside := le_extent_of_mem 0
      (mem_map_of_mem (f := fun entry : LookupCursor × LookupRequest => entry.1.1 + 1) member)
    exact (slots entry.1.1 inside).mp (holds entry.1.1 inside) entry
      (mem_filter.mpr ⟨member, beq_self_eq_true _⟩) executes
  · intro holds index inside
    apply (slots index inside).mpr
    intro entry member
    exact holds entry (mem_filter.mp member).1

theorem mergedLookups_iff (zeroEntry : tables.containsId 0 ⟨0, 0, 0⟩ = true)
    (steps : List (Step LookupRequest))
    (orthogonal : LookupsOrthogonal (lookupRegistry.placed steps)) (outputs : List (List F)) :
    (∃ assignment, (mergedLookups tables steps).run assignment = some (outputs, [])) ↔
      ∃ pool : List F, pool.length = lookupRegistry.poolSize (lookupRegistry.placed steps) 0 ∧
        outputs = (lookupRegistry.placed steps).map
          (fun entry => lookupOutput pool entry.1 entry.2) ∧
        ∀ entry ∈ lookupRegistry.placed steps, entry.2.execute = true →
          entry.2.Holds tables (lookupOutput pool entry.1 entry.2) := by
  have runs := lookupRegistry.yields_run steps
  have enforces := yields_enforceAll_lookups zeroEntry steps orthogonal
  rw [← yields_iff_run]
  simp only [mergedLookups, yields_bind, yields_pure]
  constructor
  · intro found
    rcases found with ⟨middle, ran, _, enforced, rfl⟩
    rcases (runs middle).mp ran with ⟨pool, sized, rfl⟩
    exact ⟨pool, sized, rfl, (enforces _ pool _).mp enforced⟩
  · intro found
    rcases found with ⟨pool, sized, rfl, holds⟩
    exact ⟨_, (runs _).mpr ⟨pool, sized, rfl⟩, (), (enforces _ pool _).mpr holds, rfl⟩

/-- The merged lookups are satisfied exactly by the outputs with which the executed lookups are in
their own tables; without an executed lookup some outputs always do. -/
theorem mergedLookups_spec {tables : TableDriver} (zeroEntry : tables .zeroEntry = zeroEntryTable)
    (steps : List (Step LookupRequest))
    (orthogonal : LookupsOrthogonal (lookupRegistry.placed steps)) :
    (∀ outputs, (∃ assignment, (mergedLookups tables steps).run assignment = some (outputs, [])) ↔
      ∃ pool : List F, pool.length = lookupRegistry.poolSize (lookupRegistry.placed steps) 0 ∧
        outputs = (lookupRegistry.placed steps).map
          (fun entry => lookupOutput pool entry.1 entry.2) ∧
        ∀ entry ∈ lookupRegistry.placed steps, entry.2.execute = true →
          entry.2.Holds tables (lookupOutput pool entry.1 entry.2)) ∧
    ((∀ entry ∈ lookupRegistry.placed steps, entry.2.execute = false) →
      ∃ assignment outputs, (mergedLookups tables steps).run assignment = some (outputs, [])) := by
  have zeroRow : tables.containsId 0 ⟨0, 0, 0⟩ = true := by
    change tables .zeroEntry ⟨0, 0, 0⟩ = true
    rw [zeroEntry]
    rfl
  have merged := mergedLookups_iff zeroRow steps orthogonal
  refine ⟨merged, ?_⟩
  intro idle
  let pool : List F := List.replicate (lookupRegistry.poolSize (lookupRegistry.placed steps) 0) 0
  have satisfied := (merged _).mpr ⟨pool, length_replicate, rfl, by
    intro entry member executes
    rw [idle entry member] at executes
    cases executes⟩
  rcases satisfied with ⟨assignment, accepted⟩
  exact ⟨assignment, _, accepted⟩

def signOrComparison : List (Step LookupRequest) :=
  [.reset, .place ⟨true, [0x8001], TableType.toNum .u16GetSignAndHighByte, by simp, by simp⟩,
    .reset, .place ⟨false, [1, 2], TableType.toNum .xor, by simp, by simp⟩]

def signTables : TableDriver
  | .zeroEntry => zeroEntryTable
  | .u16GetSignAndHighByte => u16GetSignAndHighByteTable
  | _ => fun _ => false

theorem signOrComparison_satisfiable :
    ∃ assignment, (mergedLookups signTables signOrComparison).run assignment =
      some ([[1, 0x80], [1]], []) := by
  have orthogonal : LookupsOrthogonal (lookupRegistry.placed signOrComparison) := by
    unfold LookupsOrthogonal
    decide
  apply ((mergedLookups_spec rfl signOrComparison orthogonal).1 _).mpr
  refine ⟨[1, 0x80], rfl, rfl, ?_⟩
  unfold LookupRequest.Holds
  decide +kernel

end Airbender.Cs.OptimizationContext

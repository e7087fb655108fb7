import Airbender.Cs.MergedAddSub
import Airbender.Cs.OpTables

/-!
# A family in its own context

`enforced` runs one family against an empty `OptimizationContext` and then `enforceAll`. The lemmas
say what each operation of the context asks for when its variables are fresh, so that a family's own
proof only has to collect the relations it registers.
-/

namespace Airbender.Cs.OptimizationContext

open CircuitLib Circuit Mersenne31Field List

/-- `append_lookup_relation` with one input. -/
def appendLookupPair (input : F) (table : TableType) (execFlag : Boolean) : ContextM (F × F) := do
  let outputs ← appendLookupRelation [input] 2 table.toNum execFlag
  pure (outputs.getD 0 0, outputs.getD 1 0)

/-- `append_lookup_relation` with two inputs. -/
def appendLookupSingle (first second : F) (table : TableType) (execFlag : Boolean) :
    ContextM F := do
  let outputs ← appendLookupRelation [first, second] 1 table.toNum execFlag
  pure (outputs.getD 0 0)

def appendLookupVariable (first second : F) (table : Num) (execFlag : Boolean) : ContextM F := do
  let outputs ← appendLookupRelation [first, second] 1 table execFlag
  pure (outputs.getD 0 0)

/-- A family alone in a fresh context, and its relations. -/
def enforced {α : Type} (tables : TableDriver) (family : ContextM α) : Assembly α := do
  let (outcome, context) ← family.run {}
  context.enforceAll tables
  pure outcome

/-- The end of a family's run: what it registered is enforced, and the context is discarded. -/
def finish {α : Type} (tables : TableDriver) (outcome : α) : ContextM α := do
  let context ← get
  (context.enforceAll tables : Assembly Unit)
  set ({} : OptimizationContext)
  pure outcome

theorem yields_finish {α : Type} (tables : TableDriver) (context : OptimizationContext)
    (outcome result : α) :
    ((finish tables outcome).run context).Yields (result, {}) ↔
      (context.enforceAll tables).Yields () ∧ outcome = result := by
  simp [finish, Unique.exists_iff]

theorem yields_enforced {α : Type} (tables : TableDriver) (family : ContextM α) (result : α) :
    (enforced tables family).Yields result ↔
      ((family >>= finish tables).run {}).Yields (result, {}) := by
  simp [enforced, yields_bind, yields_finish, Unique.exists_iff]

section

variable {β : Type} (context : OptimizationContext) (result : β × OptimizationContext)

theorem yields_appendLookupPair_new (input : F) (table : TableType) (flag : F)
    (rest : F × F → ContextM β)
    (exhausted : context.lookupOutputs.length = context.indexers.lookupOutputs) :
    ((appendLookupPair input table (.is flag) >>= rest).run context).Yields result ↔
      ∃ first second : F, ((rest (first, second)).run (context.withLookup [first, second] 2
        ⟨.is flag, ⟨input, first, second⟩, table.toNum⟩)).Yields result := by
  rw [appendLookupPair, bind_assoc,
    yields_appendLookupRelation _ _ _ _ _ _ _ (by simp) (by simp) (Nat.le_of_eq exhausted.symm)]
  simp only [pure_bind, ← exhausted, Nat.add_sub_cancel_left, drop_left]
  constructor
  · intro found
    rcases found with ⟨extra, two, rested⟩
    rcases length_eq_two.mp two with ⟨first, second, rfl⟩
    exact ⟨first, second, rested⟩
  · intro found
    rcases found with ⟨first, second, rested⟩
    exact ⟨[first, second], rfl, rested⟩

theorem yields_appendLookupPair_pooled (input : F) (table : TableType) (flag : F)
    (rest : F × F → ContextM β)
    (pooled : context.indexers.lookupOutputs + 2 ≤ context.lookupOutputs.length) :
    ((appendLookupPair input table (.is flag) >>= rest).run context).Yields result ↔
      let first := context.lookupOutputs.getD context.indexers.lookupOutputs 0
      let second := context.lookupOutputs.getD (context.indexers.lookupOutputs + 1) 0
      ((rest (first, second)).run (context.withLookup [] 2
        ⟨.is flag, ⟨input, first, second⟩, table.toNum⟩)).Yields result := by
  have inside : context.indexers.lookupOutputs < context.lookupOutputs.length := by omega
  have next : context.indexers.lookupOutputs + 1 < context.lookupOutputs.length := by omega
  have drops := drop_eq_getElem_cons inside
  rw [drop_eq_getElem_cons next] at drops
  rw [appendLookupPair, bind_assoc,
    yields_appendLookupRelation _ _ _ _ _ _ _ (by simp) (by simp) (by omega),
    getD_eq_getElem _ _ inside, getD_eq_getElem _ _ next]
  have enough : context.indexers.lookupOutputs + 2 - context.lookupOutputs.length = 0 := by omega
  simp only [pure_bind, enough, length_eq_zero_iff]
  rw [exists_eq_left, append_nil, drops]
  rfl

theorem yields_appendLookupVariable_new (first second : F) (table : Num) (flag : F)
    (rest : F → ContextM β)
    (exhausted : context.lookupOutputs.length = context.indexers.lookupOutputs) :
    ((appendLookupVariable first second table (.is flag) >>= rest).run context).Yields result ↔
      ∃ output : F, ((rest output).run (context.withLookup [output] 1
        ⟨.is flag, ⟨first, second, output⟩, table⟩)).Yields result := by
  rw [appendLookupVariable, bind_assoc,
    yields_appendLookupRelation _ _ _ _ _ _ _ (by simp) (by simp) (Nat.le_of_eq exhausted.symm)]
  simp only [pure_bind, ← exhausted, Nat.add_sub_cancel_left, drop_left]
  constructor
  · intro found
    rcases found with ⟨extra, one, rested⟩
    rcases length_eq_one_iff.mp one with ⟨output, rfl⟩
    exact ⟨output, rested⟩
  · intro found
    rcases found with ⟨output, rested⟩
    exact ⟨[output], rfl, rested⟩

theorem yields_appendLookupSingle_new (first second : F) (table : TableType) (flag : F)
    (rest : F → ContextM β)
    (exhausted : context.lookupOutputs.length = context.indexers.lookupOutputs) :
    ((appendLookupSingle first second table (.is flag) >>= rest).run context).Yields result ↔
      ∃ output : F, ((rest output).run (context.withLookup [output] 1
        ⟨.is flag, ⟨first, second, output⟩, table.toNum⟩)).Yields result :=
  yields_appendLookupVariable_new context result first second table.toNum flag rest exhausted

end

variable {tables : TableDriver}

variable (zeroEntry : tables .zeroEntry = zeroEntryTable)

include zeroEntry

theorem yields_lookupSlot {relations : List (Bool × Row × TableType)} (nonempty : relations ≠ [])
    (orthogonal : Orthogonal (·.1) relations)
    (real : ∀ relation ∈ relations, relation.2.2 ≠ .dynamicPlaceholder) (result : Unit) :
    (enforceLookupSlot tables (relations.map fun relation =>
      ⟨.is (bit relation.1), relation.2.1, relation.2.2.toNum⟩)).Yields result ↔
      ∀ relation ∈ relations, relation.1 = true → tables relation.2.2 relation.2.1 = true := by
  let numbered := relations.map fun relation => (relation.1, relation.2.1, relation.2.2.toNum)
  have exclusive : Orthogonal (·.1) numbered := pairwise_map.mpr orthogonal
  have slot := yields_enforceLookupSlot tables (by simpa [numbered] using nonempty) exclusive result
  rw [map_map] at slot
  refine slot.trans ?_
  rw [forall_executed_iff orthogonal]
  simp only [numbered, activeLookup, find?_map, Function.comp_def]
  cases found : relations.find? (·.1) with
  | none =>
    have idle : tables.containsId 0 ⟨0, 0, 0⟩ = true := by
      change tables .zeroEntry ⟨0, 0, 0⟩ = true
      rw [zeroEntry]
      rfl
    simp [idle]
  | some relation => simp [containsId_toNum tables (real relation (mem_of_find?_eq_some found))]

theorem yields_lookupSlot_one (execute : Bool) (row : Row) {table : TableType}
    (real : table ≠ .dynamicPlaceholder) (result : Unit) :
    (enforceLookupSlot tables [⟨.is (bit execute), row, table.toNum⟩]).Yields result ↔
      (execute = true → tables table row = true) := by
  have alone : Orthogonal (·.1) [(execute, row, table)] := pairwise_singleton _ _
  simpa using yields_lookupSlot zeroEntry (cons_ne_nil _ _) alone (by simpa using real) result

theorem yields_lookupSlot_executed (row : Row) {table : TableType}
    (real : table ≠ .dynamicPlaceholder) (result : Unit) :
    (enforceLookupSlot tables [⟨.is 1, row, table.toNum⟩]).Yields result ↔
      tables table row = true := by
  simpa using yields_lookupSlot_one zeroEntry true row real result

theorem yields_lookupSlot_two {first second : Bool} (exclusive : ¬ (first = true ∧ second = true))
    (firstRow secondRow : Row) {firstTable secondTable : TableType}
    (firstReal : firstTable ≠ .dynamicPlaceholder) (secondReal : secondTable ≠ .dynamicPlaceholder)
    (result : Unit) :
    (enforceLookupSlot tables [⟨.is (bit first), firstRow, firstTable.toNum⟩,
      ⟨.is (bit second), secondRow, secondTable.toNum⟩]).Yields result ↔
      (first = true → tables firstTable firstRow = true) ∧
        (second = true → tables secondTable secondRow = true) := by
  have both : Orthogonal (·.1) [(first, firstRow, firstTable), (second, secondRow, secondTable)] :=
    pairwise_pair.mpr exclusive
  have real : ∀ relation ∈ [(first, firstRow, firstTable), (second, secondRow, secondTable)],
      relation.2.2 ≠ .dynamicPlaceholder := by simp [firstReal, secondReal]
  simpa using yields_lookupSlot zeroEntry (cons_ne_nil _ _) both real result

omit zeroEntry

def newFromConstant (word : BitVec 32) : Register :=
  ⟨.constant (lowLimb word : F), .constant (highLimb word : F)⟩

@[simp] theorem hasConstant_ofWord (word : BitVec 32) : hasConstant (.ofWord word) = false := rfl

@[simp] theorem hasConstant_newFromConstant (word : BitVec 32) :
    hasConstant (newFromConstant word) = true := rfl

@[simp] theorem supportedOperands_newFromConstant (a b : BitVec 32) :
    supportedOperands (.ofWord a) (newFromConstant b) = true := rfl

theorem enforceAddSubRelation_executed (overflow : Bool) (a b c : BitVec 32) (result : Unit) :
    (enforceAddSubRelation (.is (bit overflow))
      [⟨.is 1, .ofWord a, .ofWord b, .ofWord c⟩]).Yields result ↔
      a.toNat + b.toNat = c.toNat + 2 ^ 32 * overflow.toNat := by
  have alone : Orthogonal (·.execute) [(⟨true, .var a, .var b, .var c⟩ : Addition)] :=
    pairwise_singleton _ _
  exact Addition.yields_spec alone overflow result

theorem yields_addition_executed (a b : BitVec 32) (overflow : Bool) (c : BitVec 32)
    (result : Unit) :
    (enforceAddSubRelation (.is (bit overflow))
      [⟨.is 1, .ofWord a, .ofWord b, .ofWord c⟩]).Yields result ↔
      c = a + b ∧ overflow = decide (2 ^ 32 ≤ a.toNat + b.toNat) := by
  have determined := AddSubRequest.addition_iff ⟨true, .var a, .var b, false, rfl⟩ (c, overflow)
  rw [Prod.mk.injEq] at determined
  exact (enforceAddSubRelation_executed overflow a b c result).trans determined

theorem yields_subtraction_executed (a b : BitVec 32) (borrow : Bool) (c : BitVec 32)
    (result : Unit) :
    (enforceAddSubRelation (.is (bit borrow))
      [⟨.is 1, .ofWord c, .ofWord b, .ofWord a⟩]).Yields result ↔
      c = a - b ∧ borrow = decide (a.toNat < b.toNat) := by
  have determined := AddSubRequest.addition_iff ⟨true, .var a, .var b, true, rfl⟩ (c, borrow)
  rw [Prod.mk.injEq] at determined
  exact (enforceAddSubRelation_executed borrow c b a result).trans determined

theorem yields_constantAddition_executed (overflow : Bool) (a b c : BitVec 32) (result : Unit) :
    (enforceMaskedAddSubRelation (.is (bit overflow))
      [⟨.is 1, .ofWord a, newFromConstant b, .ofWord c⟩]).Yields result ↔
      a.toNat + b.toNat = c.toNat + 2 ^ 32 * overflow.toNat := by
  have alone : Orthogonal (·.execute) [(⟨true, .var a, .constant b, .var c⟩ : Addition)] :=
    pairwise_singleton _ _
  exact Addition.yields_masked alone overflow result

end Airbender.Cs.OptimizationContext

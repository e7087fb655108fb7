import Airbender.Cs.MulDivRelation
import Airbender.Lib.CursorScript

/-!
# Merged relations

Families register relations one after the other, each from the first slot or from a saved one, so
that relations of different families meet in a slot and share its output variables. When at most one
of them has its flag set, `enforceAll` demands that one and nothing else.
-/

namespace Airbender.Cs.OptimizationContext

open CircuitLib Circuit Mersenne31Field CursorScript List

section

variable {α β ε κ : Type}

def runSteps (append : α → ContextM β) : List (Step α) → OptCtxIndexers → ContextM (List β)
  | [], _ => pure []
  | .reset :: steps, saved => do
      resetIndexers
      runSteps append steps saved
  | .save :: steps, _ => do
      let saved ← saveIndexers
      runSteps append steps saved
  | .restore :: steps, saved => do
      restoreIndexers saved
      runSteps append steps saved
  | .place item :: steps, saved => do
      let output ← append item
      let outputs ← runSteps append steps saved
      pure (output :: outputs)

/-- A kind of registration. Its outputs come from a pool that is indexed by cursors, so the context
is determined by the current cursor, the pool and what has been placed so far. -/
structure Registry (α β ε κ : Type) where
  append : α → ContextM β
  start : κ
  advance : κ → α → κ
  indexers : κ → OptCtxIndexers
  reach : κ → ℕ
  output : List ε → κ → α → β
  context : κ → List ε → List (κ × α) → OptimizationContext
  indexers_start : indexers start = {}
  reach_start : reach start = 0
  indexers_context : ∀ cursor pool placed, (context cursor pool placed).indexers = indexers cursor
  context_restore : ∀ cursor other pool placed,
    { context cursor pool placed with indexers := indexers other } = context other pool placed
  output_append : ∀ pool extra cursor item, reach (advance cursor item) ≤ pool.length →
    output (pool ++ extra) cursor item = output pool cursor item
  yields_append : ∀ {γ : Type} cursor item pool placed (rest : β → ContextM γ) result,
    reach cursor ≤ pool.length →
    (∀ entry ∈ placed, reach (advance entry.1 entry.2) ≤ pool.length) →
    (((append item >>= rest).run (context cursor pool placed)).Yields result ↔
      ∃ extra : List ε, extra.length = reach (advance cursor item) - pool.length ∧
        ((rest (output (pool ++ extra) cursor item)).run
          (context (advance cursor item) (pool ++ extra) (placed ++ [(cursor, item)]))).Yields
            result)

namespace Registry

variable (registry : Registry α β ε κ)

def placed (steps : List (Step α)) : List (κ × α) :=
  placements registry.start registry.advance steps registry.start registry.start

def poolSize (entries : List (κ × α)) (reached : ℕ) : ℕ :=
  extent (entries.map fun entry => registry.reach (registry.advance entry.1 entry.2)) reached

theorem exists_append_iff {first second : ℕ} {holds : List ε → Prop} :
    (∃ extra : List ε, extra.length = first + second ∧ holds extra) ↔
      ∃ front : List ε, front.length = first ∧
        ∃ back : List ε, back.length = second ∧ holds (front ++ back) := by
  constructor
  · rintro ⟨extra, long, found⟩
    refine ⟨extra.take first, by simp [long], extra.drop first, by simp [long], ?_⟩
    rwa [take_append_drop]
  · rintro ⟨front, rfl, back, rfl, found⟩
    exact ⟨_, length_append, found⟩

theorem yields_runSteps (steps : List (Step α)) {current saved : κ} {pool : List ε}
    {placed : List (κ × α)} (currentReached : registry.reach current ≤ pool.length)
    (savedReached : registry.reach saved ≤ pool.length)
    (fits : ∀ entry ∈ placed, registry.reach (registry.advance entry.1 entry.2) ≤ pool.length)
    (result : List β × OptimizationContext) :
    let added := placements registry.start registry.advance steps current saved
    ((runSteps registry.append steps (registry.indexers saved)).run
        (registry.context current pool placed)).Yields result ↔
      ∃ extra : List ε, pool.length + extra.length = registry.poolSize added pool.length ∧
        (added.map fun entry => registry.output (pool ++ extra) entry.1 entry.2,
          registry.context (finish registry.start registry.advance steps current saved)
            (pool ++ extra) (placed ++ added)) = result := by
  induction steps generalizing current saved pool placed result with
  | nil =>
    simp only [placements, finish, runSteps, yields_run_pure, poolSize, map_nil, extent,
      foldl_nil, append_nil]
    constructor
    · intro same
      exact ⟨[], rfl, by rw [append_nil]; exact same⟩
    · intro found
      rcases found with ⟨extra, short, same⟩
      have none : extra = [] := length_eq_zero_iff.mp (by omega)
      rwa [none, append_nil] at same
  | cons step steps ih =>
    cases step with
    | reset =>
      have atStart : { registry.context current pool placed with indexers := {} } =
          registry.context registry.start pool placed := by
        rw [← registry.indexers_start, registry.context_restore]
      rw [runSteps, yields_resetIndexers, atStart]
      exact ih (registry.reach_start ▸ Nat.zero_le _) savedReached fits result
    | save =>
      rw [runSteps, yields_saveIndexers, registry.indexers_context]
      exact ih currentReached currentReached fits result
    | restore =>
      rw [runSteps, yields_restoreIndexers, registry.context_restore]
      exact ih savedReached savedReached fits result
    | place item =>
      -- the pool grows to the end of this item first, and then to the end of the others
      rw [runSteps, registry.yields_append _ _ _ _ _ _ currentReached fits]
      simp only [StateT.run_bind, yields_bind, StateT.run_pure, yields_pure, placements, finish,
        poolSize, map_cons, extent_cons]
      have long := le_extent ((placements registry.start registry.advance steps
        (registry.advance current item) saved).map
          fun entry => registry.reach (registry.advance entry.1 entry.2))
        (max pool.length (registry.reach (registry.advance current item)))
      generalize size : extent _ (max pool.length _) = total at long ⊢
      have parts (extra : List ε) : pool.length + extra.length = total ↔ extra.length =
          registry.reach (registry.advance current item) - pool.length +
            (total - max pool.length (registry.reach (registry.advance current item))) := by
        omega
      simp only [parts, exists_append_iff]
      refine exists_congr fun first => and_congr_right fun short => ?_
      have grown : (pool ++ first).length =
          max pool.length (registry.reach (registry.advance current item)) := by
        rw [length_append, short]
        omega
      have fitsNext : ∀ entry ∈ placed ++ [(current, item)],
          registry.reach (registry.advance entry.1 entry.2) ≤ (pool ++ first).length := by
        intro entry member
        rw [grown]
        rcases mem_append.mp member with earlier | last
        · exact (fits entry earlier).trans (Nat.le_max_left _ _)
        · rw [mem_singleton.mp last]
          exact Nat.le_max_right _ _
      have rest := ih (grown ▸ Nat.le_max_right _ _)
        (savedReached.trans (grown ▸ Nat.le_max_left _ _)) fitsNext
      have outputs (second : List ε) := registry.output_append (pool ++ first) second current item
        (grown ▸ Nat.le_max_right _ _)
      simp only [rest, poolSize, grown, size, append_assoc, singleton_append] at outputs ⊢
      constructor
      · rintro ⟨_, ⟨second, reached, rfl⟩, same⟩
        exact ⟨second, by omega, by rw [← same, outputs]⟩
      · rintro ⟨second, reached, same⟩
        exact ⟨_, ⟨second, by omega, rfl⟩, by rw [← same, outputs]⟩

theorem yields_run (steps : List (Step α)) (result : List β × OptimizationContext) :
    ((runSteps registry.append steps {}).run (registry.context registry.start [] [])).Yields
        result ↔
      ∃ pool : List ε, pool.length = registry.poolSize (registry.placed steps) 0 ∧
        ((registry.placed steps).map fun entry => registry.output pool entry.1 entry.2,
          registry.context
            (finish registry.start registry.advance steps registry.start registry.start) pool
            (registry.placed steps)) = result := by
  have reached : registry.reach registry.start ≤ ([] : List ε).length :=
    Nat.le_of_eq registry.reach_start
  have runs := registry.yields_runSteps steps reached reached
    (fun entry (member : entry ∈ []) => absurd member not_mem_nil) result
  simpa only [placed, registry.indexers_start, length_nil, Nat.zero_add, nil_append] using runs

end Registry

end

def Orthogonal {α : Type} (execute : α → Bool) (items : List α) : Prop :=
  items.Pairwise fun first second => ¬ (execute first = true ∧ execute second = true)

theorem sum_executed {α : Type} {execute : α → Bool} {items : List α}
    (orthogonal : Orthogonal execute items) (weight : α → F) :
    (items.map fun item => bit (execute item) * weight item).sum =
      ((items.find? execute).map weight).getD 0 := by
  induction items with
  | nil => rfl
  | cons item items ih =>
    rcases pairwise_cons.mp orthogonal with ⟨exclusive, rest⟩
    rw [map_cons, sum_cons, find?_cons]
    cases executes : execute item with
    | false => rw [ih rest, bit_false, zero_mul, zero_add]
    | true =>
      have others : (items.map fun item => bit (execute item) * weight item).sum = 0 := by
        apply sum_eq_zero
        intro product member
        rcases mem_map.mp member with ⟨other, inside, rfl⟩
        have both := exclusive other inside
        have idle : execute other = false := by simpa [executes] using both
        rw [idle, bit_false, zero_mul]
      rw [others, bit_true, one_mul, add_zero]
      rfl

theorem forall_executed_iff {α : Type} {execute : α → Bool} {items : List α}
    (orthogonal : Orthogonal execute items) (holds : α → Prop) :
    (∀ item ∈ items, execute item = true → holds item) ↔
      ∀ item, items.find? execute = some item → holds item := by
  constructor
  · intro all item found
    exact all item (mem_of_find?_eq_some found) (find?_some found)
  · intro first item member executes
    have symmetric : Std.Symm fun first second : α =>
        ¬ (execute first = true ∧ execute second = true) :=
      ⟨fun _ _ exclusive both => exclusive both.symm⟩
    cases found : items.find? execute with
    | none => exact absurd executes (find?_eq_none.mp found item member)
    | some other =>
      have only : other = item := by
        by_contra different
        exact orthogonal.forall (mem_of_find?_eq_some found) member different
          ⟨find?_some found, executes⟩
      exact only ▸ first other found

theorem yields_enforceSlots {α : Type} (relations : List (ℕ × α))
    (enforce : ℕ → List α → Assembly Unit) (result : Unit) :
    (enforceSlots relations enforce).Yields result ↔
      ∀ index < slotCount relations, (enforce index (slot relations index)).Yields () := by
  rw [enforceSlots, yields_forM]
  simp only [mem_range]

end Airbender.Cs.OptimizationContext

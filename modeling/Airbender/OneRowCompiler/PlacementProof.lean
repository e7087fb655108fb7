import Airbender.OneRowCompiler.ConstraintAlgebra
import Airbender.OneRowCompiler.VariableElimination

/-!
# Placement of variables

What the compiler places before it eliminates variables: whatever an input, a range check or a
lookup uses has a column afterwards and is no longer a candidate.
-/

namespace Airbender.OneRowCompiler

open List Option

variable {F : Type}

/-- A variable with a column is no longer to be placed. -/
structure Placement.WellFormed (placement : Placement) : Prop where
  nodup : placement.allVariablesToPlace.Nodup
  apart : ∀ var ∈ placement.layout, var ∉ placement.allVariablesToPlace

/-- One placement extends another one by at least the given variables. -/
structure Places (before after : Placement) (vars : List Variable) : Prop where
  wellFormed : after.WellFormed
  layout : before.layout ⊆ after.layout
  vars : vars ⊆ after.layout

namespace Placement

variable {before after : Placement}

theorem place_spec {var : Variable} (wellFormed : before.WellFormed)
    (placed : before.place var = some after) : Places before after [var] := by
  rw [place] at placed
  split at placed
  case isFalse => cases placed
  case isTrue member =>
    cases placed
    refine ⟨⟨wellFormed.nodup.erase var, fun other inside left => ?_⟩,
      subset_cons_of_subset var (List.Subset.refl _), ?_⟩
    · rcases mem_cons.mp inside with rfl | earlier
      · exact wellFormed.nodup.not_mem_erase left
      · exact wellFormed.apart other earlier (mem_of_mem_erase left)
    · intro other same
      rw [mem_singleton.mp same]
      exact mem_cons_self

theorem placeInput_spec {var : Variable} (wellFormed : before.WellFormed)
    (placed : before.placeInput var = some after) : Places before after [var] := by
  rw [placeInput] at placed
  split at placed
  case isTrue member =>
    cases placed
    refine ⟨wellFormed, List.Subset.refl _, fun other same => ?_⟩
    rw [mem_singleton.mp same]
    exact member
  case isFalse => exact place_spec wellFormed placed

theorem foldlM_places {α : Type} {step : Placement → α → Option Placement}
    (vars : α → List Variable)
    (each : ∀ before after item, before.WellFormed → step before item = some after →
      Places before after (vars item)) {items : List α} (wellFormed : before.WellFormed)
    (placed : items.foldlM step before = some after) :
    Places before after (items.flatMap vars) := by
  induction items generalizing before with
  | nil =>
    cases placed
    exact ⟨wellFormed, List.Subset.refl _, nil_subset _⟩
  | cons item items ih =>
    obtain ⟨middle, first, placed⟩ := bind_eq_some_iff.mp placed
    have start := each _ _ _ wellFormed first
    have rest := ih start.wellFormed placed
    refine ⟨rest.wellFormed, List.Subset.trans start.layout rest.layout, ?_⟩
    rw [flatMap_cons]
    exact append_subset.mpr ⟨List.Subset.trans start.vars rest.layout, rest.vars⟩

theorem placeRangeCheck_spec {query : RangeCheckQuery F} (wellFormed : before.WellFormed)
    (placed : before.placeRangeCheck query = some after) :
    Places before after query.input.variables := by
  rw [placeRangeCheck] at placed
  split at placed
  case h_1 var input =>
    rw [input]
    exact place_spec wellFormed placed
  case h_2 => cases placed

theorem placeTable_spec {table : LookupQueryTableType} (wellFormed : before.WellFormed)
    (placed : before.placeTable table = some after) : Places before after table.variables := by
  cases table with
  | var name => exact place_spec wellFormed placed
  | constant tableType =>
    cases placed
    exact ⟨wellFormed, List.Subset.refl _, nil_subset _⟩

theorem placeLookup_spec {query : LookupQuery F} (wellFormed : before.WellFormed)
    (placed : before.placeLookup query = some after) :
    Places before after query.variables := by
  obtain ⟨-, placed⟩ := guard_bind_eq_some placed
  obtain ⟨middle, row, table⟩ := bind_eq_some_iff.mp placed
  have inputs := foldlM_places (fun var => [var]) (fun _ _ _ => placeInput_spec) wellFormed row
  rw [flatMap_singleton'] at inputs
  have last := placeTable_spec inputs.wellFormed table
  exact ⟨last.wellFormed, List.Subset.trans inputs.layout last.layout,
    append_subset.mpr ⟨List.Subset.trans inputs.vars last.layout, last.vars⟩⟩

end Placement

open Placement in
theorem placeVariables_spec {circuit : Circuit F} {placement : Placement}
    (placed : placeVariables circuit = some placement) :
    placement.WellFormed ∧
      (∀ query ∈ circuit.lookups, query.variables ⊆ placement.layout) ∧
      (∀ query ∈ circuit.rangeCheckExpressions, query.input.variables ⊆ placement.layout) ∧
      ∀ input ∈ circuit.timestampRangeCheckExpressions, input.variables ⊆ placement.layout := by
  obtain ⟨widths, placed⟩ := guard_bind_eq_some placed
  obtain ⟨afterMemory, memory, placed⟩ := bind_eq_some_iff.mp placed
  obtain ⟨afterSmall, small, placed⟩ := bind_eq_some_iff.mp placed
  obtain ⟨afterLarge, large, placed⟩ := bind_eq_some_iff.mp placed
  obtain ⟨afterBooleans, booleans, placed⟩ := bind_eq_some_iff.mp placed
  obtain ⟨last, lookups, placed⟩ := bind_eq_some_iff.mp placed
  obtain ⟨timestamps, placed⟩ := guard_bind_eq_some placed
  cases placed
  have start : WellFormed ⟨List.range circuit.numVariables, []⟩ :=
    ⟨nodup_range, fun _ member => absurd member not_mem_nil⟩
  have memory := foldlM_places (fun var => [var]) (fun _ _ _ => place_spec) start memory
  have small := foldlM_places (fun query => query.input.variables)
    (fun _ _ _ => placeRangeCheck_spec) memory.wellFormed small
  have large := foldlM_places (fun query => query.input.variables)
    (fun _ _ _ => placeRangeCheck_spec) small.wellFormed large
  have booleans := foldlM_places (fun var => [var]) (fun _ _ _ => place_spec) large.wellFormed
    booleans
  have lookups := foldlM_places LookupQuery.variables (fun _ _ _ => placeLookup_spec)
    booleans.wellFormed lookups
  refine ⟨lookups.wellFormed, fun query member var occurs => ?_,
    fun query member var occurs => ?_, fun input member var occurs => ?_⟩
  · exact lookups.vars (mem_flatMap.mpr ⟨query, member, occurs⟩)
  · have width := List.all_eq_true.mp widths query member
    rw [Bool.or_eq_true] at width
    rcases width with isLarge | isSmall
    · exact lookups.layout (booleans.layout (large.vars (mem_flatMap.mpr
        ⟨query, mem_filter.mpr ⟨member, isLarge⟩, occurs⟩)))
    · exact lookups.layout (booleans.layout (large.layout (small.vars (mem_flatMap.mpr
        ⟨query, mem_filter.mpr ⟨member, isSmall⟩, occurs⟩))))
  · have known := List.all_eq_true.mp timestamps var
      (mem_flatMap.mpr ⟨input, member, occurs⟩)
    exact contains_iff_mem.mp known

end Airbender.OneRowCompiler

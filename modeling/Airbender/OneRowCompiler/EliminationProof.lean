import Airbender.Lib.Projection
import Airbender.OneRowCompiler.PlacementProof
import Airbender.OneRowCompiler.Substitution

/-!
# Optimizing variables out keeps the circuit

A constraint with the square of a variable is not among its occurrences and is kept as it is. As
long as no such variable is optimized out, the constraints that are kept are the projection of the
original ones.
-/

namespace Airbender.OneRowCompiler

open Constraint Projection List Option

set_option autoImplicit false

variable {F : Type}

variable {constraints : List (Constraint F × Bool)} {idx : ℕ} {var : Variable}
  {expression : Constraint F} {replacements : List (ℕ × Constraint F)}
  {params : OptimizedOutParams F} {constraint : Constraint F} {start : Elimination F}
  {normalized : List (Constraint F × Bool)}

theorem mem_indexes {keep : (Constraint F × Bool) × ℕ → Bool} :
    idx ∈ (constraints.zipIdx.filter keep).map Prod.snd ↔
      ∃ entry, constraints[idx]? = some entry ∧ keep (entry, idx) = true := by
  constructor
  · intro member
    obtain ⟨⟨entry, position⟩, inside, rfl⟩ := List.mem_map.mp member
    obtain ⟨inside, kept⟩ := mem_filter.mp inside
    exact ⟨entry, mem_zipIdx_iff_getElem?.mp inside, kept⟩
  · rintro ⟨entry, known, kept⟩
    exact List.mem_map.mpr ⟨(entry, idx), mem_filter.mpr
      ⟨mem_zipIdx_iff_getElem?.mpr known, kept⟩, rfl⟩

theorem mem_definingConstraints (member : idx ∈ definingConstraints constraints var) :
    ∃ entry, constraints[idx]? = some entry ∧ entry.1.degree ≤ 1 := by
  obtain ⟨entry, known, kept⟩ := mem_indexes.mp member
  simp only [Bool.and_eq_true, decide_eq_true_eq] at kept
  exact ⟨entry, known, kept.1.2⟩

theorem mem_occurrences :
    idx ∈ occurrences constraints var ↔ ∃ entry, constraints[idx]? = some entry ∧
      entry.1.Mentions var ∧ entry.1.degreeForVar var < 2 := by
  rw [occurrences, mem_indexes]
  simp [containsVar_iff]

theorem selectVariable_candidate {circuit : Circuit F} {elimination : Elimination F}
    {vars : List Variable} (selected : selectVariable circuit elimination vars = .candidate var) :
    var ∈ vars ∧ var ∉ elimination.optimizedOutVariables ∧ var ∉ elimination.triedVariables ∧
      var ∉ circuit.substitutions ∧ definingConstraints elimination.constraints var ≠ [] := by
  fun_induction selectVariable circuit elimination vars
  case case1 | case4 => cases selected
  case case7 first vars fresh untried bound _ _ found =>
    cases selected
    exact ⟨mem_cons_self, fresh, untried, bound, length_pos_iff.mp found.1⟩
  case case2 ih | case3 ih | case5 ih | case6 ih | case8 ih =>
    exact ⟨mem_cons_of_mem _ (ih selected).1, (ih selected).2⟩

theorem mem_of_getElem? {entry : Constraint F × Bool} (known : constraints[idx]? = some entry) :
    entry.1 ∈ constraints.map Prod.fst :=
  List.mem_map.mpr ⟨entry, List.mem_of_getElem? known, rfl⟩

theorem mem_of_lookup {replacement : Constraint F}
    (found : replacements.lookup idx = some replacement) : (idx, replacement) ∈ replacements := by
  induction replacements with
  | nil => cases found
  | cons first replacements ih =>
    obtain ⟨key, value⟩ := first
    rw [lookup_cons] at found
    split at found
    case h_1 same =>
      cases found
      rw [beq_iff_eq.mp same]
      exact mem_cons_self
    case h_2 => exact mem_cons_of_mem _ (ih found)

theorem not_mem_of_lookup (missing : replacements.lookup idx = none) (replacement : Constraint F) :
    (idx, replacement) ∉ replacements := by
  intro member
  have absent := lookup_eq_none_iff.mp missing (idx, replacement) member
  simp at absent

theorem mem_newConstraints {result : Constraint F} :
    result ∈ (newConstraints constraints params).map Prod.fst ↔
      ∃ idx old, constraints[idx]? = some old ∧ idx ≠ params.definingConstraintIdx ∧
        (params.replacementConstraints.lookup idx).getD old.1 = result := by
  constructor
  · intro member
    obtain ⟨⟨constraint, prevent⟩, inside, rfl⟩ := List.mem_map.mp member
    obtain ⟨⟨old, idx⟩, indexed, made⟩ := mem_filterMap.mp inside
    dsimp only at made
    split at made
    case isTrue => cases made
    case isFalse different =>
      refine ⟨idx, old, mem_zipIdx_iff_getElem?.mp indexed, different, ?_⟩
      split at made
      case h_1 replacement lookup =>
        cases made
        rw [lookup, getD_some]
      case h_2 lookup =>
        cases made
        rw [lookup, getD_none]
  · rintro ⟨idx, old, known, different, rfl⟩
    refine List.mem_map.mpr ⟨(_, old.2), mem_filterMap.mpr
      ⟨(old, idx), mem_zipIdx_iff_getElem?.mpr known, ?_⟩, rfl⟩
    dsimp only
    rw [if_neg different]
    cases params.replacementConstraints.lookup idx with
    | none => rfl
    | some replacement => rfl

variable [Field F]

theorem square_of_degreeForVar (normal : constraint.Normal) (quadratic : constraint.degree ≤ 2)
    (square : 2 ≤ constraint.degreeForVar var) : constraint.coefficient {var, var} ≠ 0 := by
  obtain ⟨term, member, twice⟩ : ∃ term ∈ constraint.terms, 2 ≤ term.monomial.count var := by
    by_contra none
    push Not at none
    have small : constraint.degreeForVar var ≤ 1 :=
      degreeForVar_le.mpr fun term member => Nat.le_of_lt_succ (none term member)
    omega
  have small := degree_le.mp quadratic term member
  have bounded := Multiset.count_le_card var term.monomial
  have monomial : term.monomial = {var, var} := by
    have all : term.monomial.count var = term.monomial.card := by omega
    have size : term.monomial.card = 2 := by omega
    exact Multiset.eq_replicate.mpr ⟨size, fun other inside =>
      (Multiset.count_eq_card.mp all other inside).symm⟩
  have proper : term.monomial ≠ 0 := by
    rw [monomial]
    exact Multiset.cons_ne_zero
  rw [← monomial, normal.coefficient_eq member proper]
  exact normal.nonzero term member

theorem mentions_of_square (square : constraint.coefficient {var, var} ≠ 0) :
    constraint.Mentions var := by
  obtain ⟨term, member, monomial⟩ := exists_of_coefficient square
  refine ⟨term, member, ?_⟩
  rw [monomial]
  exact Parts.mem_square.mpr rfl

theorem square_eq_zero_of_linear (linear : constraint.degree ≤ 1) (var : Variable) :
    constraint.coefficient {var, var} = 0 := by
  by_contra square
  obtain ⟨term, member, monomial⟩ := exists_of_coefficient square
  have small := degree_le.mp linear term member
  rw [monomial, Multiset.card_pair] at small
  omega

theorem value_ignores (absent : ¬ constraint.Mentions var) :
    Ignores (fun assignment => constraint.value assignment) var := by
  intro assignment value
  refine value_congr fun other mentions => Function.update_of_ne ?_ _ _
  rintro rfl
  exact absent mentions

variable [DecidableEq F] [ReducedForm F]

theorem rewriteOccurrences_spec {defining : ℕ} {indexes : List ℕ}
    (rewritten : rewriteOccurrences constraints var expression defining indexes =
      some (some replacements)) :
    (∀ replacement ∈ replacements, ∃ entry, constraints[replacement.1]? = some entry ∧
      entry.1.substituteVariable var expression = some replacement.2) ∧
    ∀ idx ∈ indexes, idx ≠ defining → ∃ replacement, (idx, replacement) ∈ replacements := by
  induction indexes generalizing replacements with
  | nil =>
    cases rewritten
    exact ⟨fun _ member => absurd member not_mem_nil,
      fun _ member => absurd member not_mem_nil⟩
  | cons first indexes ih =>
    rw [rewriteOccurrences] at rewritten
    split at rewritten
    case isTrue same =>
      obtain ⟨made, complete⟩ := ih rewritten
      refine ⟨made, fun idx member different => ?_⟩
      rcases mem_cons.mp member with rfl | later
      · exact absurd same different
      · exact complete idx later different
    case isFalse =>
      obtain ⟨entry, known, rewritten⟩ := bind_eq_some_iff.mp rewritten
      obtain ⟨replacement, substituted, rewritten⟩ := bind_eq_some_iff.mp rewritten
      split at rewritten
      case isTrue => cases rewritten
      case isFalse =>
        obtain ⟨others, rest, rewritten⟩ := bind_eq_some_iff.mp rewritten
        obtain ⟨list, rfl, rfl⟩ := map_eq_some_iff.mp (Option.some.inj rewritten)
        obtain ⟨made, complete⟩ := ih rest
        refine ⟨?_, fun idx member different => ?_⟩
        · rintro replaced member
          rcases mem_cons.mp member with rfl | later
          · exact ⟨entry, known, substituted⟩
          · exact made replaced later
        · rcases mem_cons.mp member with rfl | later
          · exact ⟨replacement, mem_cons_self⟩
          · obtain ⟨other, inside⟩ := complete idx later different
            exact ⟨other, mem_cons_of_mem _ inside⟩

/-- Parameters that come from one of the defining constraints. -/
structure FromDefining (constraints : List (Constraint F × Bool)) (var : Variable)
    (indexes : List ℕ) (params : OptimizedOutParams F) (entry : Constraint F × Bool)
    (expressed expression : Constraint F) : Prop where
  member : params.definingConstraintIdx ∈ indexes
  known : constraints[params.definingConstraintIdx]? = some entry
  solved : entry.1.expressVariable var = some expressed
  normalized : expressed.normalize = some expression
  rewritten : rewriteOccurrences constraints var expression params.definingConstraintIdx
    (occurrences constraints var) = some (some params.replacementConstraints)

theorem tryDefiningConstraints_spec {indexes : List ℕ} {start : Option (OptimizedOutParams F)}
    {tried triedAfter : List Variable}
    (succeeded : tryDefiningConstraints constraints var indexes start tried =
      some (some params, triedAfter)) :
    start = some params ∨ ∃ entry expressed expression,
      FromDefining constraints var indexes params entry expressed expression := by
  induction indexes generalizing start tried with
  | nil =>
    cases succeeded
    exact Or.inl rfl
  | cons idx indexes ih =>
    obtain ⟨entry, known, succeeded⟩ := bind_eq_some_iff.mp succeeded
    obtain ⟨expressed, solved, succeeded⟩ := bind_eq_some_iff.mp succeeded
    obtain ⟨expression, normalized, succeeded⟩ := bind_eq_some_iff.mp succeeded
    obtain ⟨rewritten, made, succeeded⟩ := bind_eq_some_iff.mp succeeded
    have later : ∀ {entry expressed expression},
        FromDefining constraints var indexes params entry expressed expression →
        FromDefining constraints var (idx :: indexes) params entry expressed expression :=
      fun found => ⟨mem_cons_of_mem _ found.member, found.known, found.solved,
        found.normalized, found.rewritten⟩
    cases rewritten with
    | none =>
      rcases ih succeeded with kept | ⟨_, _, _, found⟩
      · exact Or.inl kept
      · exact Or.inr ⟨_, _, _, later found⟩
    | some replacements =>
      rcases ih succeeded with kept | ⟨_, _, _, found⟩
      · cases kept
        exact Or.inr ⟨entry, expressed, expression, mem_cons_self, known, solved,
          normalized, made⟩
      · exact Or.inr ⟨_, _, _, later found⟩

def Elimination.system (elimination : Elimination F) : List (Constraint F) :=
  elimination.constraints.map Prod.fst

/-- A constraint that stays as it is when a variable is optimized out. -/
def Untouched (var : Variable) (constraint : Constraint F) : Prop :=
  ¬ constraint.Mentions var ∨ 2 ≤ constraint.degreeForVar var

structure Replaces (before after : List (Constraint F)) (var : Variable)
    (definition expression : Constraint F) : Prop where
  defined : definition ∈ before
  linear : definition.degree ≤ 1
  solved : definition.Solved var expression
  forward : ∀ constraint ∈ before, constraint = definition ∨
    (∃ result ∈ after, Substituted constraint var expression result) ∨
    (constraint ∈ after ∧ Untouched var constraint)
  backward : ∀ result ∈ after,
    (∃ constraint ∈ before, Substituted constraint var expression result) ∨
    (result ∈ before ∧ Untouched var result)

theorem newConstraints_replaces {entry : Constraint F × Bool} {expressed : Constraint F}
    (normal : ∀ constraint ∈ constraints.map Prod.fst, constraint.Normal)
    (found : FromDefining constraints var (definingConstraints constraints var) params entry
      expressed expression) :
    Replaces (constraints.map Prod.fst) ((newConstraints constraints params).map Prod.fst) var
      entry.1 expression := by
  obtain ⟨sameEntry, known, linear⟩ := mem_definingConstraints found.member
  rw [found.known] at known
  cases known
  have defined := mem_of_getElem? found.known
  have solved := (expressVariable_solved (normal _ defined) linear found.solved).normalize
    found.normalized
  obtain ⟨made, complete⟩ := rewriteOccurrences_spec found.rewritten
  have replaced : ∀ {idx replacement}, params.replacementConstraints.lookup idx =
      some replacement → ∃ old, constraints[idx]? = some old ∧
        Substituted old.1 var expression replacement := by
    intro idx replacement lookup
    obtain ⟨old, known, substituted⟩ := made _ (mem_of_lookup lookup)
    obtain ⟨extras, parts⟩ := substituteVariable_parts substituted
    exact ⟨old, known, parts.substituted solved.not_mentions⟩
  have untouched : ∀ {idx old}, constraints[idx]? = some old →
      idx ≠ params.definingConstraintIdx →
      params.replacementConstraints.lookup idx = none → Untouched var old.1 := by
    intro idx old known different lookup
    by_contra touched
    rw [Untouched, not_or, not_not, Nat.not_le] at touched
    obtain ⟨replacement, member⟩ := complete idx (mem_occurrences.mpr ⟨old, known, touched⟩)
      different
    exact not_mem_of_lookup lookup replacement member
  refine ⟨defined, linear, solved, fun constraint member => ?_, fun result member => ?_⟩
  · obtain ⟨old, inside, rfl⟩ := List.mem_map.mp member
    obtain ⟨idx, known⟩ := mem_iff_getElem?.mp inside
    by_cases same : idx = params.definingConstraintIdx
    · rw [same, found.known] at known
      cases known
      exact Or.inl rfl
    · have kept := mem_newConstraints.mpr ⟨idx, old, known, same, rfl⟩
      refine Or.inr ?_
      cases lookup : params.replacementConstraints.lookup idx with
      | none =>
        rw [lookup, getD_none] at kept
        exact Or.inr ⟨kept, untouched known same lookup⟩
      | some replacement =>
        rw [lookup, getD_some] at kept
        obtain ⟨other, knownOther, substituted⟩ := replaced lookup
        rw [known] at knownOther
        cases knownOther
        exact Or.inl ⟨replacement, kept, substituted⟩
  · obtain ⟨idx, old, known, different, rfl⟩ := mem_newConstraints.mp member
    cases lookup : params.replacementConstraints.lookup idx with
    | none => exact Or.inr ⟨mem_of_getElem? known, untouched known different lookup⟩
    | some replacement =>
      obtain ⟨other, knownOther, substituted⟩ := replaced lookup
      exact Or.inl ⟨other.1, mem_of_getElem? knownOther, substituted⟩

theorem Iterates.cases {circuit : Circuit F} {before after : Elimination F}
    (normal : ∀ constraint ∈ before.system, constraint.Normal)
    (iterates : Iterates circuit before after) :
    (∃ var definition expression, var ∈ before.allVariablesToPlace ∧
      var ∉ before.optimizedOutVariables ∧
      after.optimizedOutVariables = before.optimizedOutVariables ++ [var] ∧
      after.allVariablesToPlace = before.allVariablesToPlace.erase var ∧
      Replaces before.system after.system var definition expression) ∨
    after.system = before.system ∧
      after.optimizedOutVariables = before.optimizedOutVariables ∧
      after.allVariablesToPlace = before.allVariablesToPlace := by
  rw [Iterates, iteration] at iterates
  split at iterates
  case h_1 => cases iterates
  case h_2 =>
    cases iterates
    exact Or.inr ⟨rfl, rfl, rfl⟩
  case h_3 var selected =>
    obtain ⟨inside, fresh, -⟩ := selectVariable_candidate selected
    obtain ⟨next, optimized, same⟩ := map_eq_some_iff.mp iterates
    cases same
    obtain ⟨⟨params, tried⟩, succeeded, optimized⟩ := bind_eq_some_iff.mp optimized
    cases params with
    | none =>
      cases optimized
      exact Or.inr ⟨rfl, rfl, rfl⟩
    | some params =>
      cases optimized
      rcases tryDefiningConstraints_spec succeeded with kept | ⟨entry, _, expression, found⟩
      · cases kept
      · exact Or.inl ⟨var, entry.1, expression, inside, fresh, rfl, rfl,
          newConstraints_replaces normal found⟩

/-- What holds in every state: a variable that was optimized out is left only where it is
squared. -/
structure Invariant (available : List Variable) (elimination : Elimination F) : Prop where
  normal : ∀ constraint ∈ elimination.system, constraint.Normal
  quadratic : ∀ constraint ∈ elimination.system, constraint.degree ≤ 2
  squares : ∀ var ∈ elimination.optimizedOutVariables, ∀ constraint ∈ elimination.system,
    constraint.Mentions var → constraint.coefficient {var, var} ≠ 0
  optimizedOut : ∀ var ∈ elimination.optimizedOutVariables, var ∈ available
  toPlace : ∀ var ∈ elimination.allVariablesToPlace, var ∈ available

variable {available : List Variable} {circuit : Circuit F} {before after : Elimination F}

variable (invariant : Invariant available before)

include invariant

omit [DecidableEq F] [ReducedForm F] in
theorem Invariant.not_mentions {definition : Constraint F} (member : definition ∈ before.system)
    (linear : definition.degree ≤ 1) (optimizedOut : var ∈ before.optimizedOutVariables) :
    ¬ definition.Mentions var := fun mentions =>
  invariant.squares var optimizedOut definition member mentions
    (square_eq_zero_of_linear linear var)

theorem Invariant.square_stays
    (iterates : Iterates circuit before after) (optimizedOut : var ∈ before.optimizedOutVariables)
    (member : constraint ∈ before.system) (square : constraint.coefficient {var, var} ≠ 0) :
    ∃ result ∈ after.system, result.coefficient {var, var} ≠ 0 := by
  rcases iterates.cases invariant.normal with
    ⟨other, definition, expression, -, fresh, -, -, replaces⟩ | ⟨same, -, -⟩
  · have absent : ¬ expression.Mentions var := fun inside =>
      invariant.not_mentions replaces.defined replaces.linear optimizedOut
        (replaces.solved.mentions inside)
    have different : var ≠ other := by
      rintro rfl
      exact fresh optimizedOut
    rcases replaces.forward constraint member with
      rfl | ⟨result, inside, substituted⟩ | ⟨inside, -⟩
    · exact absurd (square_eq_zero_of_linear replaces.linear var) square
    · refine ⟨result, inside, ?_⟩
      rw [substituted.square different absent]
      exact square
    · exact ⟨constraint, inside, square⟩
  · rw [same]
    exact ⟨constraint, member, square⟩

theorem Invariant.step (iterates : Iterates circuit before after) : Invariant available after := by
  rcases iterates.cases invariant.normal with
    ⟨var, definition, expression, inside, fresh, optimizedOut, toPlace, replaces⟩ |
      ⟨same, optimizedOut, toPlace⟩
  · have normal : ∀ constraint ∈ after.system, constraint.Normal := by
      intro result member
      rcases replaces.backward result member with ⟨_, _, substituted⟩ | ⟨kept, -⟩
      · exact substituted.normal
      · exact invariant.normal result kept
    have quadratic : ∀ constraint ∈ after.system, constraint.degree ≤ 2 := by
      intro result member
      rcases replaces.backward result member with ⟨_, _, substituted⟩ | ⟨kept, -⟩
      · exact substituted.quadratic
      · exact invariant.quadratic result kept
    refine ⟨normal, quadratic, fun other member result inResult mentions => ?_, ?_, ?_⟩
    · rw [optimizedOut, mem_append, mem_singleton] at member
      rcases member with earlier | rfl
      · have different : other ≠ var := by
          rintro rfl
          exact fresh earlier
        have absent : ¬ expression.Mentions other := fun occurs =>
          invariant.not_mentions replaces.defined replaces.linear earlier
            (replaces.solved.mentions occurs)
        rcases replaces.backward result inResult with
          ⟨constraint, inBefore, substituted⟩ | ⟨kept, -⟩
        · rw [substituted.square different absent]
          rcases substituted.mentions mentions with inConstraint | inExpression
          · exact invariant.squares other earlier constraint inBefore inConstraint
          · exact absurd inExpression absent
        · exact invariant.squares other earlier result kept mentions
      · rcases replaces.backward result inResult with ⟨_, _, substituted⟩ | ⟨kept, untouched⟩
        · exact absurd mentions substituted.not_mentions
        · rcases untouched with absent | square
          · exact absurd mentions absent
          · exact square_of_degreeForVar (normal result inResult) (quadratic result inResult)
              square
    · intro other member
      rw [optimizedOut, mem_append, mem_singleton] at member
      rcases member with earlier | rfl
      · exact invariant.optimizedOut other earlier
      · exact invariant.toPlace other inside
    · intro other member
      rw [toPlace] at member
      exact invariant.toPlace other (mem_of_mem_erase member)
  · refine ⟨?_, ?_, ?_, ?_, ?_⟩
    · rw [same]
      exact invariant.normal
    · rw [same]
      exact invariant.quadratic
    · rw [same, optimizedOut]
      exact invariant.squares
    · rw [optimizedOut]
      exact invariant.optimizedOut
    · rw [toPlace]
      exact invariant.toPlace

theorem Invariant.reaches (reaches : Reaches circuit before after) : Invariant available after := by
  induction reaches with
  | refl => exact invariant
  | tail _ iterates ih => exact ih.step iterates

theorem optimizedOut_subset
    (reaches : Reaches circuit before after) (member : var ∈ before.optimizedOutVariables) :
    var ∈ after.optimizedOutVariables := by
  induction reaches with
  | refl => exact member
  | tail reaches iterates ih =>
    rcases iterates.cases (invariant.reaches reaches).normal with
      ⟨_, _, _, _, _, optimizedOut, _⟩ | ⟨_, optimizedOut, _⟩
    · rw [optimizedOut]
      exact mem_append_left _ ih
    · rw [optimizedOut]
      exact ih

theorem Invariant.square_remains
    (reaches : Reaches circuit before after) (optimizedOut : var ∈ before.optimizedOutVariables)
    (square : ∃ constraint ∈ before.system, constraint.coefficient {var, var} ≠ 0) :
    ∃ constraint ∈ after.system, constraint.coefficient {var, var} ≠ 0 := by
  induction reaches with
  | refl => exact square
  | tail reaches iterates ih =>
    obtain ⟨constraint, member, nonzero⟩ := ih
    exact (invariant.reaches reaches).square_stays iterates
      (optimizedOut_subset invariant reaches optimizedOut) member nonzero

theorem Invariant.square_kept (iterates : Iterates circuit before after)
    (optimizedOut : after.optimizedOutVariables = before.optimizedOutVariables ++ [var])
    (member : constraint ∈ before.system) (square : 2 ≤ constraint.degreeForVar var) :
    constraint ∈ after.system := by
  rcases iterates.cases invariant.normal with
    ⟨other, definition, expression, -, -, removed, -, replaces⟩ | ⟨-, unchanged, -⟩
  · have same : var = other := by
      rw [optimizedOut] at removed
      exact singleton_inj.mp (append_cancel_left removed)
    subst same
    rcases replaces.forward constraint member with rfl | ⟨_, _, substituted⟩ | ⟨inside, -⟩
    · have nonzero := square_of_degreeForVar (invariant.normal _ member)
        (invariant.quadratic _ member) square
      exact absurd (square_eq_zero_of_linear replaces.linear var) nonzero
    · have once := substituted.once
      omega
    · exact inside
  · rw [optimizedOut] at unchanged
    exact absurd unchanged (by simp)

omit invariant

def solutions (system : List (Constraint F)) : Set (Variable → F) :=
  { assignment | ∀ constraint ∈ system, constraint.value assignment = 0 }

omit [ReducedForm F] in
theorem Replaces.projects {original kept : List (Constraint F)} {definition : Constraint F}
    (replaces : Replaces original kept var definition expression)
    (noSquare : ∀ constraint ∈ original, constraint.degreeForVar var < 2) :
    Projects {var} (solutions original) (solutions kept) := by
  have independent := value_ignores replaces.solved.not_mentions
  have unchanged : ∀ {constraint : Constraint F}, constraint ∈ original →
      Untouched var constraint → ∀ assignment : Variable → F, constraint.value (Function.update
        assignment var (expression.value assignment)) = constraint.value assignment := by
    intro constraint member untouched assignment
    rcases untouched with absent | square
    · exact value_ignores absent assignment _
    · have bounded := noSquare constraint member
      omega
  refine Projects.solve (fun assignment => expression.value assignment) independent ?_ ?_
  · intro solution member
    exact (replaces.solved.value_eq_zero solution).mp (member definition replaces.defined)
  · intro solution
    constructor
    · intro satisfied constraint member
      rcases replaces.forward constraint member with
        rfl | ⟨result, inside, substituted⟩ | ⟨inside, untouched⟩
      · rw [replaces.solved.value_eq_zero, Function.update_self]
        exact (independent solution _).symm
      · rw [← substituted.value_eq]
        exact satisfied result inside
      · rw [unchanged member untouched]
        exact satisfied constraint inside
    · intro satisfied result member
      rcases replaces.backward result member with
        ⟨constraint, inside, substituted⟩ | ⟨inside, untouched⟩
      · rw [substituted.value_eq]
        exact satisfied constraint inside
      · rw [← unchanged inside untouched]
        exact satisfied result inside

/-- No variable is optimized out while a constraint contains its square. -/
def NoSquareOptimizedOut (circuit : Circuit F) (start : Elimination F) : Prop :=
  ∀ before after var, Reaches circuit start before → Iterates circuit before after →
    after.optimizedOutVariables = before.optimizedOutVariables ++ [var] →
    ∀ constraint ∈ before.system, constraint.degreeForVar var < 2

theorem setOf_append_singleton (vars : List Variable) (var : Variable) :
    { other | other ∈ vars ++ [var] } = { other | other ∈ vars } ∪ {var} := by
  ext other
  simp [or_comm]

theorem projects_of_reaches (fresh : start.optimizedOutVariables = [])
    (invariant : Invariant available start) (noSquare : NoSquareOptimizedOut circuit start)
    (reaches : Reaches circuit start after) :
    Projects { var | var ∈ after.optimizedOutVariables } (solutions start.system)
      (solutions after.system) := by
  induction reaches with
  | refl =>
    have none : { var | var ∈ start.optimizedOutVariables } = (∅ : Set Variable) := by
      rw [fresh]
      exact Set.eq_empty_of_forall_notMem fun _ => not_mem_nil
    rw [none]
    exact Projects.refl _
  | tail reaches iterates ih =>
    rcases iterates.cases (invariant.reaches reaches).normal with
      ⟨var, _, _, _, _, optimizedOut, _, replaces⟩ | ⟨same, optimizedOut, _⟩
    · have step := replaces.projects (noSquare _ _ _ reaches iterates optimizedOut)
      rw [optimizedOut, setOf_append_singleton]
      exact ih.trans step
    · rw [same, optimizedOut]
      exact ih

theorem not_mentions_of_reaches (fresh : start.optimizedOutVariables = [])
    (invariant : Invariant available start) (noSquare : NoSquareOptimizedOut circuit start)
    (reaches : Reaches circuit start after) :
    ∀ constraint ∈ after.system, ∀ var ∈ after.optimizedOutVariables,
      ¬ constraint.Mentions var := by
  induction reaches with
  | refl =>
    intro constraint _ var member
    rw [fresh] at member
    exact absurd member not_mem_nil
  | tail reaches iterates ih =>
    rcases iterates.cases (invariant.reaches reaches).normal with
      ⟨removed, definition, expression, _, _, optimizedOut, _, replaces⟩ |
        ⟨same, optimizedOut, _⟩
    · intro result member var out mentions
      rw [optimizedOut, mem_append, mem_singleton] at out
      rcases replaces.backward result member with
        ⟨constraint, inside, substituted⟩ | ⟨inside, untouched⟩
      · rcases out with earlier | rfl
        · rcases substituted.mentions mentions with inConstraint | inExpression
          · exact ih constraint inside var earlier inConstraint
          · exact ih definition replaces.defined var earlier
              (replaces.solved.mentions inExpression)
        · exact substituted.not_mentions mentions
      · rcases out with earlier | rfl
        · exact ih result inside var earlier mentions
        · rcases untouched with absent | square
          · exact absent mentions
          · have bounded := noSquare _ _ _ reaches iterates optimizedOut result inside
            omega
    · rw [same, optimizedOut]
      exact ih

theorem eliminationLoop_reaches {fuel : ℕ} {result : Elimination F}
    (completed : eliminationLoop circuit fuel start = some result) :
    Reaches circuit start result ∧ iteration circuit result = some .finished := by
  induction fuel generalizing start with
  | zero => cases completed
  | succ fuel ih =>
    obtain ⟨outcome, iterated, completed⟩ := bind_eq_some_iff.mp completed
    cases outcome with
    | finished =>
      cases completed
      exact ⟨Relation.ReflTransGen.refl, iterated⟩
    | next elimination =>
      obtain ⟨reaches, finished⟩ := ih completed
      exact ⟨Relation.ReflTransGen.head iterated reaches, finished⟩

theorem reaches_result {result : Elimination F} (reaches : Reaches circuit start result)
    (finished : iteration circuit result = some .finished)
    (between : Reaches circuit start before) :
    Reaches circuit before result := by
  have deterministic : Relator.RightUnique (Iterates circuit) := by
    intro state first second left right
    rw [Iterates] at left right
    rw [left] at right
    cases right
    rfl
  rcases Relation.ReflTransGen.total_of_right_unique deterministic between reaches with
    forward | backward
  · exact forward
  · rcases Relation.ReflTransGen.cases_head backward with same | ⟨next, iterates, -⟩
    · rw [same]
      exact Relation.ReflTransGen.refl
    · rw [Iterates, finished] at iterates
      cases iterates

theorem normalizeConstraints_spec (succeeded : normalizeConstraints constraints = some normalized) :
    List.Forall₂ (fun before after => before.1.normalize = some after.1)
      constraints normalized := by
  refine (mapM_spec succeeded).imp fun before after made => ?_
  obtain ⟨constraint, found, same⟩ := bind_eq_some_iff.mp made
  cases same
  exact found

theorem solutions_normalizeConstraints
    (succeeded : normalizeConstraints constraints = some normalized) :
    solutions (normalized.map Prod.fst) = solutions (constraints.map Prod.fst) := by
  have pairs := normalizeConstraints_spec succeeded
  ext assignment
  clear succeeded
  induction pairs with
  | nil => rfl
  | @cons before after _ _ made _ ih =>
    have same : after.1.value assignment = before.1.value assignment := weigh_normalize _ made
    have first : after.1.value assignment = 0 ↔ before.1.value assignment = 0 := by rw [same]
    change (∀ constraint ∈ after.1 :: _, _) ↔ (∀ constraint ∈ before.1 :: _, _)
    rw [forall_mem_cons, forall_mem_cons]
    exact and_congr first ih

theorem startElimination_spec (started : startElimination circuit = some start) :
    ∃ placement, placeVariables circuit = some placement ∧
      Invariant placement.allVariablesToPlace start ∧ start.optimizedOutVariables = [] ∧
      solutions start.system = solutions (circuit.constraints.map Prod.fst) := by
  obtain ⟨placement, placed, started⟩ := bind_eq_some_iff.mp started
  obtain ⟨normalized, succeeded, started⟩ := bind_eq_some_iff.mp started
  cases started
  have made : ∀ constraint ∈ normalized.map Prod.fst, ∃ original : Constraint F,
      original.normalize = some constraint := by
    intro constraint member
    obtain ⟨entry, inside, rfl⟩ := List.mem_map.mp member
    have pairs := normalizeConstraints_spec succeeded
    obtain ⟨index, bound, rfl⟩ := mem_iff_getElem.mp inside
    exact ⟨_, pairs.get (by rw [pairs.length_eq]; exact bound) bound⟩
  refine ⟨placement, placed, ⟨fun constraint member => ?_, fun constraint member => ?_,
    fun _ member => absurd member not_mem_nil,
    fun _ member => absurd member not_mem_nil, fun _ member => member⟩, rfl,
    solutions_normalizeConstraints succeeded⟩
  · obtain ⟨original, normal⟩ := made constraint member
    exact normalize_normal normal
  · obtain ⟨original, normal⟩ := made constraint member
    exact normalize_degree_le normal

/-- The constraints that are kept are the original ones without the variables that were optimized
out, and nothing else mentions such a variable. -/
structure Preserves (circuit : Circuit F) (result : Elimination F) : Prop where
  projects : Projects { var | var ∈ result.optimizedOutVariables }
    (solutions (circuit.constraints.map Prod.fst)) (solutions result.system)
  constraints : ∀ constraint ∈ result.system, ∀ var ∈ result.optimizedOutVariables,
    constraint.containsVar var = false
  lookups : ∀ query ∈ circuit.lookups, ∀ var ∈ query.variables,
    var ∉ result.optimizedOutVariables
  rangeChecks : ∀ query ∈ circuit.rangeCheckExpressions, ∀ var ∈ query.input.variables,
    var ∉ result.optimizedOutVariables
  timestampRangeChecks : ∀ input ∈ circuit.timestampRangeCheckExpressions,
    ∀ var ∈ input.variables, var ∉ result.optimizedOutVariables

/-- Elimination keeps the circuit exactly if no variable is optimized out while it is squared in
some constraint. -/
theorem elimination_preserves_iff {circuit : Circuit F} {fuel : ℕ} {start result : Elimination F}
    (started : startElimination circuit = some start)
    (completed : eliminateVariables fuel circuit = some result) :
    Preserves circuit result ↔ NoSquareOptimizedOut circuit start := by
  obtain ⟨placement, placed, invariant, fresh, same⟩ := startElimination_spec started
  obtain ⟨wellFormed, lookups, rangeChecks, timestamps⟩ := placeVariables_spec placed
  obtain ⟨reaches, finished⟩ : Reaches circuit start result ∧
      iteration circuit result = some .finished := by
    obtain ⟨other, startedOther, looped⟩ := bind_eq_some_iff.mp completed
    rw [started] at startedOther
    cases startedOther
    exact eliminationLoop_reaches looped
  have last := invariant.reaches reaches
  have apart : ∀ {var}, var ∈ placement.layout → var ∉ result.optimizedOutVariables :=
    fun inside optimizedOut => wellFormed.apart _ inside (last.optimizedOut _ optimizedOut)
  constructor
  · intro preserves before after var between iterates optimizedOut constraint member
    by_contra square
    have invariantBefore := invariant.reaches between
    have inAfter : var ∈ after.optimizedOutVariables := by
      rw [optimizedOut]
      exact mem_append_right _ (mem_singleton_self var)
    have kept : ∃ constraint ∈ after.system, constraint.coefficient {var, var} ≠ 0 :=
      ⟨constraint, invariantBefore.square_kept iterates optimizedOut member (Nat.not_lt.mp square),
        square_of_degreeForVar (invariantBefore.normal constraint member)
          (invariantBefore.quadratic constraint member) (Nat.not_lt.mp square)⟩
    have later := reaches_result reaches finished (between.tail iterates)
    obtain ⟨left, inside, remains⟩ :=
      (invariantBefore.step iterates).square_remains later inAfter kept
    have absent := preserves.constraints left inside var
      (optimizedOut_subset (invariantBefore.step iterates) later inAfter)
    rw [containsVar_iff.mpr (mentions_of_square remains)] at absent
    exact absurd absent (by decide)
  · intro noSquare
    have noMention : ∀ constraint ∈ result.system, ∀ var ∈ result.optimizedOutVariables,
        constraint.containsVar var = false := by
      intro constraint member var optimizedOut
      have absent := not_mentions_of_reaches fresh invariant noSquare reaches constraint member
        var optimizedOut
      exact Bool.eq_false_iff.mpr fun contains => absent (containsVar_iff.mp contains)
    refine ⟨?_, noMention, fun query member var occurs => ?_,
      fun query member var occurs => ?_, fun input member var occurs => ?_⟩
    · rw [← same]
      exact projects_of_reaches fresh invariant noSquare reaches
    · exact apart (lookups query member occurs)
    · exact apart (rangeChecks query member occurs)
    · exact apart (timestamps input member occurs)

/-- A delegation circuit that reads one register. Variables 0 to 4 are its own, with `v0 = v1` and
`v0 * v2 = v3` and more constraints; then come the predicate, the high half of the memory offset and
the two halves of the register. The compiler adds the timestamp of the request, the borrow of the
comparison and the timestamp that is read. -/
def copyCircuit (more : List (Constraint Mersenne31Field × Bool)) : Circuit Mersenne31Field where
  numVariables := 14
  constraints := [(⟨[.expression 1 [0], .expression (-1) [1]]⟩, false),
    (⟨[.expression 1 [0, 2], .expression (-1) [3]]⟩, false)] ++ more
  lookups := []
  rangeCheckExpressions := []
  timestampRangeCheckExpressions :=
    [.expression [(-1, 9), (2 ^ 19, 11), (1, 12)] 0,
      .expression [(2 ^ 19, 5), (-1, 10), (-1, 11), (1, 13)] 0]
  booleanVars := [11]
  memoryVariables := [5, 6, 9, 10, 12, 13, 7, 8]
  substitutions := []
  stateInput := []
  stateOutput := []

def copyStart (more : List (Constraint Mersenne31Field × Bool)) : Elimination Mersenne31Field where
  constraints := (copyCircuit more).constraints
  allVariablesToPlace := [0, 1, 2, 3, 4]
  optimizedOutVariables := []
  triedVariables := []

def copyResult (more : List (Constraint Mersenne31Field × Bool)) :
    Elimination Mersenne31Field where
  constraints := (⟨[.expression 1 [1, 2], .expression (-1) [3]]⟩, false) :: more
  allVariablesToPlace := [1, 2, 3, 4]
  optimizedOutVariables := [0]
  triedVariables := []

theorem iteration_copyStart :
    iteration (copyCircuit []) (copyStart []) = some (.next (copyResult [])) := by
  decide +kernel

theorem iteration_copyResult : iteration (copyCircuit []) (copyResult []) = some .finished := by
  decide +kernel

theorem reaches_copyStart {state : Elimination Mersenne31Field}
    (reaches : Reaches (copyCircuit []) (copyStart []) state) :
    state = copyStart [] ∨ state = copyResult [] := by
  induction reaches with
  | refl => exact .inl rfl
  | @tail before after _ iterates ih =>
    rcases ih with rfl | rfl
    · exact .inr (Outcome.next.inj (Option.some.inj (iterates.symm.trans iteration_copyStart)))
    · exact absurd (iterates.symm.trans iteration_copyResult) (by simp)

theorem elimination_preserves_copy :
    eliminateVariables 3 (copyCircuit []) = some (copyResult []) ∧
      NoSquareOptimizedOut (copyCircuit []) (copyStart []) ∧
      Preserves (copyCircuit []) (copyResult []) := by
  have started : startElimination (copyCircuit []) = some (copyStart []) := by decide +kernel
  have completed : eliminateVariables 3 (copyCircuit []) = some (copyResult []) := by decide +kernel
  have noSquare : NoSquareOptimizedOut (copyCircuit []) (copyStart []) := by
    intro before after var reaches iterates optimizedOut
    rcases reaches_copyStart reaches with rfl | rfl
    · cases iterates.symm.trans iteration_copyStart
      cases optimizedOut
      decide +kernel
    · exact absurd (iterates.symm.trans iteration_copyResult) (by simp)
  exact ⟨completed, noSquare, (elimination_preserves_iff started completed).mpr noSquare⟩

def squareOfCopy : List (Constraint Mersenne31Field × Bool) :=
  [(⟨[.expression 1 [0, 0], .expression (-1) [4]]⟩, false)]

/-- The copy is optimized out although its square is kept. -/
theorem square_of_optimized_out_kept :
    eliminateVariables 3 (copyCircuit squareOfCopy) = some (copyResult squareOfCopy) ∧
      ¬ Preserves (copyCircuit squareOfCopy) (copyResult squareOfCopy) := by
  refine ⟨by decide +kernel, fun preserves => ?_⟩
  have absent := preserves.constraints ⟨[.expression 1 [0, 0], .expression (-1) [4]]⟩
    (mem_cons_of_mem _ mem_cons_self) 0 mem_cons_self
  exact absurd absent (by decide)

end Airbender.OneRowCompiler

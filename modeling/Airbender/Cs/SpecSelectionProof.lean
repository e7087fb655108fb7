import Airbender.Cs.SpecSelection

/-!
# What orthogonal selections compute

The constraint is the flag-weighted sum of the variants, whatever was merged. The value function
joins the flags with coefficient one into a single mask, which counts once however many of them are
set.
-/

namespace Airbender.SpecSelection

open OneRowCompiler Constraint List

set_option autoImplicit false

variable {F : Type} {constraint : Constraint F} {booleans : List Variable}
  {assignment : Variable → F} {result index : Variable} {α : Type}

theorem linearTerm_eq_some {term : Term F} {coeff : F} :
    linearTerm term = some (coeff, index) ↔ term = .expression coeff [index] := by
  match term with
  | .constant value => simp [linearTerm]
  | .expression other [] => simp [linearTerm]
  | .expression other [first] => simp [linearTerm]
  | .expression other (_ :: _ :: _) => simp [linearTerm]

theorem asSlice_eq_singleton {term : Term F}
    (single : term.monomial = {index}) : ∃ coeff, term = .expression coeff [index] := by
  cases term with
  | constant value => exact absurd single (Multiset.singleton_ne_zero index).symm
  | expression coeff inner =>
    have slice : inner = [index] := Multiset.coe_eq_singleton.mp single
    exact ⟨coeff, by rw [slice]⟩

variable [Field F]

@[simp] theorem weigh_single (weight : Multiset Variable → F) (term : Term F) :
    (Constraint.mk [term]).weigh weight = term.weigh weight := by
  rw [weigh_cons, weigh_nil, add_zero]

@[simp] theorem monomial_variableTerm (index : Variable) :
    (variableTerm index : Term F).monomial = {index} := rfl

@[simp] theorem getCoef_variableTerm (index : Variable) :
    (variableTerm index : Term F).getCoef = 1 := rfl

theorem weigh_negation (weight : Multiset Variable → F) (index : Variable) :
    (negation index : Constraint F).weigh weight = weight 0 - weight {index} := by
  rw [negation, weigh_cons, weigh_single, Term.weigh_scale, Term.weigh, Term.weigh,
    monomial_variableTerm, getCoef_variableTerm]
  change 1 * weight 0 + _ = _
  ring

theorem weigh_foldlM {step : Constraint F → α → Option (Constraint F)}
    {weight : Multiset Variable → F} {amount : α → F}
    (adds : ∀ accumulator entry sum, step accumulator entry = some sum →
      sum.weigh weight = accumulator.weigh weight + amount entry)
    (entries : List α) {start result : Constraint F}
    (folded : entries.foldlM step start = some result) :
    result.weigh weight = start.weigh weight + (entries.map amount).sum := by
  induction entries generalizing start with
  | nil =>
    cases folded
    rw [map_nil, sum_nil, add_zero]
  | cons entry entries ih =>
    rcases Option.bind_eq_some_iff.mp folded with ⟨sum, first, folded⟩
    rw [ih folded, adds start entry sum first, map_cons, sum_cons, add_assoc]

theorem value_eq_parts (assignment : Variable → F) (terms : List (Term F))
    (small : ∀ term ∈ terms, term.degree ≤ 2) :
    (Constraint.mk terms).value assignment =
      ((terms.filter fun term => decide (term.degree = 0)).map Term.getCoef).sum +
        ((terms.filterMap quadraticTerm).map fun entry =>
          entry.1 * (assignment entry.2.1 * assignment entry.2.2)).sum +
        ((terms.filterMap linearTerm).map fun entry => entry.1 * assignment entry.2).sum := by
  induction terms with
  | nil => simp [value]
  | cons term terms ih =>
    have rest := ih fun other member => small other (mem_cons_of_mem _ member)
    have split : (Constraint.mk (term :: terms)).value assignment =
        term.weigh (fun monomial => (monomial.map assignment).prod) +
          (Constraint.mk terms).value assignment := weigh_cons _ _ _
    have bound := small term mem_cons_self
    rw [split, rest]
    rcases term with _ | ⟨_, _ | ⟨_, _ | ⟨_, _ | _⟩⟩⟩
    case expression.cons.cons.cons => simp [Term.degree, Term.asSlice] at bound
    all_goals
      simp [Term.weigh, Term.getCoef, Term.monomial, Term.asSlice, Term.degree, quadraticTerm,
        linearTerm, filterMap_cons]
      ring

theorem parseQuadratic_spec {entry : F × Variable × Variable} {result : Variable × F × Variable}
    (parse : parseQuadratic booleans entry = some result) (assignment : Variable → F) :
    result.1 ∈ booleans ∧ entry.1 * (assignment entry.2.1 * assignment entry.2.2) =
      result.2.1 * (assignment result.1 * assignment result.2.2) := by
  rcases entry with ⟨coeff, first, second⟩
  rw [parseQuadratic] at parse
  split at parse
  case isTrue inside =>
    rcases guard_bind_eq_some parse with ⟨-, parse⟩
    cases parse
    exact ⟨inside, rfl⟩
  case isFalse =>
    rcases guard_bind_eq_some parse with ⟨inside, parse⟩
    cases parse
    exact ⟨inside, by rw [mul_comm (assignment first)]⟩

theorem mapM_parseQuadratic (assignment : Variable → F) {quadratic : List (F × Variable × Variable)}
    {parsed : List (Variable × F × Variable)}
    (done : quadratic.mapM (parseQuadratic booleans) = some parsed) :
    (∀ entry ∈ parsed, entry.1 ∈ booleans) ∧
      (quadratic.map fun entry => entry.1 * (assignment entry.2.1 * assignment entry.2.2)).sum =
        (parsed.map fun entry => entry.2.1 * (assignment entry.1 * assignment entry.2.2)).sum := by
  have pairs := mapM_spec done
  clear done
  induction pairs with
  | nil => exact ⟨fun entry member => absurd member not_mem_nil, rfl⟩
  | cons parse _ ih =>
    rcases parseQuadratic_spec parse assignment with ⟨inside, product⟩
    refine ⟨forall_mem_cons.mpr ⟨inside, ih.1⟩, ?_⟩
    simp only [map_cons, sum_cons, ih.2, product]

theorem mem_linear_iff (normal : constraint.Normal) {coeff : F} :
    (coeff, index) ∈ constraint.terms.filterMap linearTerm ↔
      coeff ≠ 0 ∧ constraint.coefficient {index} = coeff := by
  rw [mem_filterMap]
  constructor
  · intro found
    rcases found with ⟨term, member, parsed⟩
    cases linearTerm_eq_some.mp parsed
    have proper : (Term.expression coeff [index]).monomial ≠ 0 := Multiset.singleton_ne_zero index
    exact ⟨normal.nonzero _ member, normal.coefficient_eq member proper⟩
  · intro found
    rcases found with ⟨nonzero, same⟩
    rcases exists_of_coefficient (same.trans_ne nonzero) with ⟨term, member, single⟩
    have coefficient := normal.coefficient_eq member
      (by rw [single]; exact Multiset.singleton_ne_zero index)
    rw [single, same] at coefficient
    rcases asSlice_eq_singleton single with ⟨other, rfl⟩
    exact ⟨_, member, by rw [coefficient]; rfl⟩

theorem nodup_linear (normal : constraint.Normal) :
    (constraint.terms.filterMap linearTerm).Pairwise fun first second => first.2 ≠ second.2 := by
  apply List.Pairwise.filterMap (S := fun first second => first.2 ≠ second.2) linearTerm _
    normal.distinct
  intro first second apart entry parsed other parsed' same
  have one := linearTerm_eq_some.mp parsed
  have two := linearTerm_eq_some.mp parsed'
  rw [one, two] at apart
  apply apart (Multiset.singleton_ne_zero _)
  exact congrArg (fun index => ({index} : Multiset Variable)) same

def BooleanOn (assignment : Variable → F) (booleans : List Variable) : Prop :=
  ∀ index ∈ booleans, assignment index = 0 ∨ assignment index = 1

theorem Boolean.weigh_value (assignment : Variable → F) (flag : Boolean) (variant : Constraint F) :
    flag.weigh (fun monomial => (monomial.map assignment).prod) variant =
      flag.value assignment * variant.value assignment := by
  have pulled : ∀ index, (variant.weigh fun monomial =>
      ((monomial + {index}).map assignment).prod) =
        assignment index * variant.value assignment := by
    intro index
    rw [Constraint.value, ← weigh_mul]
    apply congrArg (fun weight => variant.weigh weight)
    funext monomial
    rw [Multiset.map_add, Multiset.prod_add, Multiset.map_singleton, Multiset.prod_singleton,
      mul_comm]
  cases flag with
  | is index => exact pulled index
  | not index =>
    rw [Boolean.weigh, pulled, Boolean.value]
    change variant.value assignment - _ = _
    ring
  | constant flag =>
    cases flag with
    | false => exact (zero_mul _).symm
    | true => exact (one_mul _).symm

theorem Boolean.value_boolean {flag : Boolean} (boolean : BooleanOn assignment flag.vars) :
    flag.value assignment = 0 ∨ flag.value assignment = 1 := by
  cases flag with
  | is index => exact boolean index (mem_singleton_self index)
  | not index =>
    rcases boolean index (mem_singleton_self index) with zero | one
    · exact .inr (by rw [Boolean.value, zero, sub_zero])
    · exact .inl (by rw [Boolean.value, one, sub_self])
  | constant flag =>
    cases flag with
    | false => exact .inl rfl
    | true => exact .inr rfl

variable [DecidableEq F]

theorem addAssignMasked_eq (entries : List (Variable × F)) (value : F)
    (boolean : ∀ entry ∈ entries, assignment entry.1 = 0 ∨ assignment entry.1 = 1) :
    addAssignMasked assignment entries value =
      value + (entries.map fun entry => assignment entry.1 * entry.2).sum := by
  induction entries generalizing value with
  | nil => simp [addAssignMasked]
  | cons entry entries ih =>
    have rest := fun value => ih value fun other member => boolean other (mem_cons_of_mem _ member)
    rw [addAssignMasked, foldl_cons, ← addAssignMasked, rest, map_cons, sum_cons, getBoolean]
    rcases boolean entry mem_cons_self with zero | one
    · simp [zero]
    · simp [one, add_assoc]

theorem addAssignMasked_map (entries : List α) (flag : α → Variable) (amount : α → F) (value : F)
    (boolean : ∀ entry ∈ entries, assignment (flag entry) = 0 ∨ assignment (flag entry) = 1) :
    addAssignMasked assignment (entries.map fun entry => (flag entry, amount entry)) value =
      value + (entries.map fun entry => assignment (flag entry) * amount entry).sum := by
  rw [addAssignMasked_eq _ _ (forall_mem_map.mpr boolean), map_map]
  rfl

theorem sum_trivial_add (entries : List α) (coeff amount : α → F) :
    ((entries.filter fun entry => decide (coeff entry = 1)).map amount).sum +
        ((entries.filter fun entry => decide (coeff entry ≠ 1)).map
          fun entry => coeff entry * amount entry).sum =
      (entries.map fun entry => coeff entry * amount entry).sum := by
  induction entries with
  | nil => simp
  | cons entry entries ih =>
    rw [map_cons, sum_cons, ← ih]
    by_cases one : coeff entry = 1
    · simp [one, add_assoc]
    · simp [one, add_left_comm]

theorem sum_boolean (indices : List Variable) (boolean : BooleanOn assignment indices) :
    (indices.map assignment).sum =
      ((indices.filter fun index => decide (assignment index = 1)).length : F) := by
  induction indices with
  | nil => simp
  | cons index indices ih =>
    have rest := ih fun other member => boolean other (mem_cons_of_mem _ member)
    rw [map_cons, sum_cons, rest]
    rcases boolean index mem_cons_self with zero | one
    · simp [zero]
    · simp [one, add_comm]

theorem addAssignMasked_products (parsed : List (Variable × F × Variable)) (value : F)
    (boolean : ∀ entry ∈ parsed, assignment entry.1 = 0 ∨ assignment entry.1 = 1) :
    addAssignMasked assignment ((parsed.filter fun entry => decide (entry.2.1 ≠ 1)).map
        fun entry => (entry.1, entry.2.1 * assignment entry.2.2))
      (addAssignMasked assignment ((parsed.filter fun entry => decide (entry.2.1 = 1)).map
        fun entry => (entry.1, assignment entry.2.2)) value) =
      value +
        (parsed.map fun entry => entry.2.1 * (assignment entry.1 * assignment entry.2.2)).sum := by
  have masks : ∀ (keep : Variable × F × Variable → Bool), ∀ entry ∈ parsed.filter keep,
      assignment entry.1 = 0 ∨ assignment entry.1 = 1 :=
    fun keep entry member => boolean entry (mem_filter.mp member).1
  rw [addAssignMasked_map _ _ _ _ (masks _), addAssignMasked_map _ _ _ _ (masks _), add_assoc,
    ← sum_trivial_add parsed]
  simp only [mul_left_comm]

theorem addAssignMasked_entries (entries : List (Variable × Num F))
    (boolean : ∀ entry ∈ entries, assignment entry.1 = 0 ∨ assignment entry.1 = 1) :
    addAssignMasked assignment (entries.filterMap constantVariant)
        (addAssignMasked assignment ((entries.filterMap variableVariant).map
          fun entry => (entry.1, assignment entry.2)) 0) =
      (entries.map fun entry => (Boolean.is entry.1).value assignment *
        (Constraint.mk [entry.2.term]).value assignment).sum := by
  rw [addAssignMasked_eq, addAssignMasked_eq]
  · clear boolean
    rw [zero_add, map_map]
    induction entries with
    | nil => simp
    | cons entry entries ih =>
      rw [map_cons, sum_cons, ← ih]
      rcases entry with ⟨flag, index | value⟩ <;>
        simp [variableVariant, constantVariant, filterMap_cons, Boolean.value, Constraint.value,
          Num.term, Term.weigh, Term.getCoef, Term.monomial, Term.asSlice, variableTerm]
      · ring
      · ring
  · intro entry member
    rcases mem_map.mp member with ⟨original, inside, rfl⟩
    rcases mem_filterMap.mp inside with ⟨⟨flag, variant⟩, found, parsed⟩
    cases variant with
    | var index =>
      cases parsed
      exact boolean _ found
    | constant value => cases parsed
  · intro entry member
    rcases mem_filterMap.mp member with ⟨⟨flag, variant⟩, found, parsed⟩
    cases variant with
    | var index => cases parsed
    | constant value =>
      cases parsed
      exact boolean _ found

def setCount (assignment : Variable → F) (indices : List Variable) : ℕ :=
  (indices.filter fun index => decide (assignment index = 1)).length

theorem any_eq_min_setCount (assignment : Variable → F) (indices : List Variable) :
    (if indices.any (getBoolean assignment) then 1 else 0) =
      ((min (setCount assignment indices) 1 : ℕ) : F) := by
  by_cases some : indices.any (getBoolean assignment) = true
  · rcases any_eq_true.mp some with ⟨index, member, one⟩
    have positive : 0 < setCount assignment indices :=
      length_pos_of_mem (mem_filter.mpr ⟨member, one⟩)
    rw [if_pos some, Nat.min_eq_right positive, Nat.cast_one]
  · have none : setCount assignment indices = 0 := by
      apply length_eq_zero_iff.mpr
      apply filter_eq_nil_iff.mpr
      intro index member one
      exact some (any_eq_true.mpr ⟨index, member, one⟩)
    rw [if_neg some, none, Nat.min_eq_left (Nat.zero_le 1), Nat.cast_zero]

theorem sum_eq_find (entries : List (Boolean × Constraint F))
    (boolean : ∀ entry ∈ entries, entry.1.value assignment = 0 ∨ entry.1.value assignment = 1)
    (orthogonal : (entries.filter fun entry => entry.1.holds assignment).length ≤ 1) :
    (entries.map fun entry => entry.1.value assignment * entry.2.value assignment).sum =
      ((entries.find? fun entry => entry.1.holds assignment).map
        fun entry => entry.2.value assignment).getD 0 := by
  induction entries with
  | nil => rfl
  | cons entry entries ih =>
    have restBoolean := fun other (member : other ∈ entries) =>
      boolean other (mem_cons_of_mem _ member)
    rw [map_cons, sum_cons]
    rcases boolean entry mem_cons_self with zero | one
    · have unset : entry.1.holds assignment = false := by simp [Boolean.holds, zero]
      rw [filter_cons_of_neg (by simp [unset])] at orthogonal
      rw [zero, zero_mul, zero_add, ih restBoolean orthogonal, find?_cons_of_neg (by simp [unset])]
    · have set : entry.1.holds assignment = true := by simp [Boolean.holds, one]
      rw [filter_cons, if_pos set, length_cons] at orthogonal
      have none : entries.filter (fun entry => entry.1.holds assignment) = [] :=
        length_eq_zero_iff.mp (by omega)
      have zeros : (entries.map fun entry =>
          entry.1.value assignment * entry.2.value assignment).sum = 0 := by
        apply sum_eq_zero
        intro product member
        rcases mem_map.mp member with ⟨other, inside, rfl⟩
        rcases restBoolean other inside with otherZero | otherOne
        · rw [otherZero, zero_mul]
        · have unset := filter_eq_nil_iff.mp none other inside
          exact absurd (by simp [Boolean.holds, otherOne]) unset
      rw [zeros, one, one_mul, add_zero, find?_cons, set]
      rfl

variable [ReducedForm F]

theorem weigh_mask {boolean : Boolean} {variant : Num F} {accumulator masked : Constraint F}
    (done : maskByBooleanIntoAccumulatorConstraint boolean variant accumulator = some masked)
    (weight : Multiset Variable → F) :
    masked.weigh weight = accumulator.weigh weight + boolean.weigh weight ⟨[variant.term]⟩ := by
  cases boolean with
  | constant flag =>
    cases flag with
    | false =>
      cases done
      simp [Boolean.weigh]
    | true =>
      cases done
      simp [Boolean.weigh]
  | is index =>
    rcases Option.bind_eq_some_iff.mp done with ⟨product, made, added⟩
    rcases mul_spec made with ⟨monomial, coefficient⟩
    have sum := weigh_normalize weight added
    rw [sum, weigh_append, weigh_single, Boolean.weigh, weigh_single, Term.weigh, Term.weigh,
      monomial, coefficient, monomial_variableTerm, getCoef_variableTerm, mul_one]
    ring
  | not index =>
    rcases Option.bind_eq_some_iff.mp done with ⟨product, made, added⟩
    have sum := weigh_normalize weight added
    rw [sum, weigh_append, weigh_mulTerm made, weigh_negation, Boolean.weigh, weigh_single,
      weigh_single, Term.weigh, Term.weigh, zero_add, add_comm {index} variant.term.monomial]
    ring

theorem weigh_maskLinearTerm {boolean : Boolean} {variant accumulator masked : Constraint F}
    (done : maskLinearTermByBooleanIntoAccumulatorConstraint boolean variant accumulator =
      some masked) (weight : Multiset Variable → F) :
    masked.weigh weight = accumulator.weigh weight + boolean.weigh weight variant := by
  rcases Option.bind_eq_some_iff.mp done with ⟨factor, terms, done⟩
  rcases Option.bind_eq_some_iff.mp done with ⟨product, made, added⟩
  have sum := weigh_normalize weight added
  rw [sum, weigh_append]
  apply congrArg (accumulator.weigh weight + ·)
  rw [weigh_mulTerm made]
  cases boolean with
  | constant flag =>
    cases terms
    cases flag with
    | false => exact zero_mul _
    | true =>
      change 1 * variant.weigh (fun monomial => weight (monomial + 0)) = variant.weigh weight
      simp only [add_zero, one_mul]
  | is index =>
    cases terms
    exact one_mul _
  | not index => cases terms

theorem weigh_addVariant {sum : Constraint F} {flag : Variable} {variant : Num F}
    (added : addVariant constraint (flag, variant) = some sum) (weight : Multiset Variable → F) :
    sum.weigh weight = constraint.weigh weight +
      (Boolean.is flag).weigh weight ⟨[variant.term]⟩ := by
  cases variant with
  | var index =>
    have steps : ((variableTerm flag).mul (variableTerm index)).bind
        (fun product => constraint.add ⟨[product]⟩) = some sum := added
    rcases Option.bind_eq_some_iff.mp steps with ⟨product, made, added⟩
    rcases mul_spec made with ⟨monomial, coefficient⟩
    have merged := weigh_normalize weight added
    have swapped : ({flag} : Multiset Variable) + {index} = {index} + {flag} := add_comm _ _
    rw [merged, weigh_append, weigh_single, Boolean.weigh, weigh_single, Term.weigh, Term.weigh,
      monomial, coefficient, Num.term, monomial_variableTerm, monomial_variableTerm,
      getCoef_variableTerm, getCoef_variableTerm, one_mul, swapped]
  | constant value =>
    cases added
    rw [weigh_append, weigh_single, Boolean.weigh, weigh_single, Term.weigh, Term.weigh]
    rfl

theorem value_addConstraint {added : Constraint F}
    (done : addConstraint ⟨constraint.terms ++ [(variableTerm result).scale (-1)]⟩ = some added)
    (assignment : Variable → F) :
    added.value assignment = constraint.value assignment - assignment result := by
  rcases guard_bind_eq_some done with ⟨-, done⟩
  rcases guard_bind_eq_some done with ⟨-, normalized⟩
  rw [value, weigh_normalize _ normalized, weigh_append, weigh_single, Term.weigh_scale, Term.weigh,
    monomial_variableTerm, getCoef_variableTerm, Multiset.map_singleton, Multiset.prod_singleton]
  change constraint.value assignment + _ = _
  ring

theorem inner_spec {selection : Selection F}
    (done : specChooseFromOrthogonalVariantsForConstraintInner booleans constraint result =
      some selection) (boolean : BooleanOn assignment booleans) :
    selection.constraint.value assignment = constraint.value assignment - assignment result ∧
      ∃ units : List Variable, units.Nodup ∧
        (∀ index, index ∈ units ↔ index ∈ booleans ∧ constraint.coefficient {index} = 1) ∧
        selection.valueFn assignment + (setCount assignment units : F) =
          constraint.value assignment + ((min (setCount assignment units) 1 : ℕ) : F) := by
  rcases Option.bind_eq_some_iff.mp done with ⟨split, splitted, done⟩
  rcases Option.bind_eq_some_iff.mp done with ⟨parsed, quadratics, done⟩
  rcases guard_bind_eq_some done with ⟨linearFlags, done⟩
  rcases guard_bind_eq_some done with ⟨-, done⟩
  rcases guard_bind_eq_some done with ⟨-, done⟩
  rcases Option.bind_eq_some_iff.mp done with ⟨added, emitted, done⟩
  cases done
  refine ⟨value_addConstraint emitted assignment, ?_⟩
  rcases Option.bind_eq_some_iff.mp splitted with ⟨normalized, normalizes, splitted⟩
  rcases guard_bind_eq_some splitted with ⟨small, splitted⟩
  rcases guard_bind_eq_some splitted with ⟨-, splitted⟩
  cases splitted
  have normal := normalize_normal normalizes
  have sameCoefficient : ∀ monomial,
      normalized.coefficient monomial = constraint.coefficient monomial :=
    fun monomial => weigh_normalize _ normalizes
  have linearBoolean : ∀ entry ∈ normalized.terms.filterMap linearTerm, entry.2 ∈ booleans :=
    fun entry member => of_decide_eq_true (all_eq_true.mp linearFlags entry member)
  rcases mapM_parseQuadratic assignment quadratics with ⟨parsedFlags, parsedSum⟩
  let linear := normalized.terms.filterMap linearTerm
  let trivial := linear.filter fun entry => decide (entry.1 = 1)
  let units := trivial.map Prod.snd
  have unitsBoolean : BooleanOn assignment units := by
    intro index member
    rcases mem_map.mp member with ⟨entry, inside, rfl⟩
    exact boolean _ (linearBoolean entry (mem_filter.mp inside).1)
  refine ⟨units, ?_, ?_, ?_⟩
  · apply List.Pairwise.map Prod.snd (fun _ _ apart => apart)
    exact (nodup_linear normal).filter _
  · intro index
    rw [← sameCoefficient]
    constructor
    · intro member
      rcases mem_map.mp member with ⟨⟨coeff, other⟩, inside, same⟩
      rcases mem_filter.mp inside with ⟨inLinear, one⟩
      cases same
      cases of_decide_eq_true one
      exact ⟨linearBoolean _ inLinear, ((mem_linear_iff normal).mp inLinear).2⟩
    · intro found
      have inLinear := (mem_linear_iff normal).mpr ⟨one_ne_zero, found.2⟩
      exact mem_map.mpr ⟨(1, index), mem_filter.mpr ⟨inLinear, by simp⟩, rfl⟩
  · have total : constraint.value assignment =
        ((normalized.terms.filter fun term => decide (term.degree = 0)).map Term.getCoef).sum +
          (parsed.map fun entry => entry.2.1 * (assignment entry.1 * assignment entry.2.2)).sum +
          (linear.map fun entry => entry.1 * assignment entry.2).sum := by
      have bounded : ∀ term ∈ normalized.terms, term.degree ≤ 2 :=
        fun term member => of_decide_eq_true (all_eq_true.mp small term member)
      rw [← parsedSum, ← value_eq_parts assignment _ bounded]
      exact (weigh_normalize _ normalizes).symm
    have partition := sum_trivial_add linear Prod.fst fun entry => assignment entry.2
    have unitsSum : (trivial.map fun entry => assignment entry.2).sum =
        (setCount assignment units : F) := by
      rw [setCount, ← sum_boolean units unitsBoolean, map_map]
      rfl
    have others : ∀ value, addAssignMasked assignment
        ((linear.filter fun entry => decide (entry.1 ≠ 1)).map fun entry => (entry.2, entry.1))
          value = value +
        ((linear.filter fun entry => decide (entry.1 ≠ 1)).map
          fun entry => entry.1 * assignment entry.2).sum := by
      intro value
      rw [addAssignMasked_map]
      · simp only [mul_comm]
      · intro entry member
        exact boolean _ (linearBoolean entry (mem_filter.mp member).1)
    have mask : (trivial.any fun entry => getBoolean assignment entry.2) =
        units.any (getBoolean assignment) := by
      rw [any_map]
      rfl
    have split : ∀ (condition : Bool) (value : F),
        (if condition then value + 1 else value) = value + if condition then 1 else 0 := by
      intro condition value
      cases condition
      · exact (add_zero value).symm
      · rfl
    have values := addAssignMasked_products parsed
      ((normalized.terms.filter fun term => decide (term.degree = 0)).map Term.getCoef).sum
      fun entry member => boolean _ (parsedFlags entry member)
    dsimp only
    rw [others, values, mask, split, any_eq_min_setCount, total, ← partition, unitsSum]
    ring

theorem booleanVars_eq {flags : List Boolean} (collected : booleanVars flags = some booleans) :
    flags.flatMap Boolean.vars = booleans := by
  have pairs := mapM_spec collected
  clear collected
  induction pairs with
  | nil => rfl
  | @cons flag index flags booleans first rest ih =>
    rw [flatMap_cons, ih]
    cases flag with
    | is other =>
      cases first
      rfl
    | not other =>
      cases first
      rfl
    | constant value => cases first

namespace Request

variable {request : Request F} {selection : Selection F}

def value (request : Request F) (assignment : Variable → F) : F :=
  request.weigh fun monomial => (monomial.map assignment).prod

omit [DecidableEq F] [ReducedForm F] in
theorem value_eq_sum (request : Request F) (assignment : Variable → F) :
    request.value assignment =
      (request.entries.map fun entry =>
        entry.1.value assignment * entry.2.value assignment).sum := by
  apply congrArg List.sum
  apply map_congr_left
  intro entry _
  exact Boolean.weigh_value assignment entry.1 entry.2

variable (built : request.specChoose result = some selection)

include built

theorem length_eq : request.flags.length = request.variants.length := by
  cases request with
  | numbers flags variants =>
    rw [Request.variants, length_map]
    exact (guard_bind_eq_some built).1
  | linearTerms flags variants => exact (guard_bind_eq_some built).1

theorem value_eq_chosen (boolean : BooleanOn assignment (request.flags.flatMap Boolean.vars))
    (orthogonal : (request.flags.filter (Boolean.holds assignment)).length ≤ 1) :
    request.value assignment = request.chosen assignment := by
  have firsts : request.entries.map Prod.fst = request.flags :=
    map_fst_zip (Nat.le_of_eq (length_eq built))
  rw [value_eq_sum]
  apply sum_eq_find
  · intro entry member
    apply Boolean.value_boolean
    intro index inside
    apply boolean
    apply mem_flatMap.mpr
    exact ⟨entry.1, firsts ▸ mem_map_of_mem member, inside⟩
  · rw [← firsts, filter_map, length_map] at orthogonal
    exact orthogonal

omit built

omit [ReducedForm F] in
theorem setCount_eq_card {units : List Variable} (distinct : units.Nodup)
    (collected : request.flags.flatMap Boolean.vars = booleans)
    (members : ∀ index, index ∈ units ↔ index ∈ booleans ∧ request.linearCoefficient index = 1) :
    setCount assignment units = (request.setUnits assignment).card := by
  rw [setCount, ← toFinset_card_of_nodup (distinct.filter _)]
  apply congrArg Finset.card
  ext index
  rw [mem_toFinset, mem_filter, members, setUnits, Finset.mem_filter, mem_toFinset,
    collected, decide_eq_true_eq, and_assoc]

theorem inner_request {constraint : Constraint F}
    (collected : request.flags.flatMap Boolean.vars = booleans)
    (merged : ∀ weight, constraint.weigh weight = request.weigh weight)
    (done : specChooseFromOrthogonalVariantsForConstraintInner booleans constraint result =
      some selection) (boolean : BooleanOn assignment booleans) :
    selection.constraint.value assignment = request.value assignment - assignment result ∧
      selection.valueFn assignment + ((request.setUnits assignment).card : F) =
        request.value assignment + ((min (request.setUnits assignment).card 1 : ℕ) : F) := by
  rcases inner_spec done boolean with ⟨constrained, units, distinct, members, value⟩
  have count : setCount assignment units = (request.setUnits assignment).card := by
    apply setCount_eq_card distinct collected
    intro index
    rw [members, linearCoefficient, ← merged]
    rfl
  rw [count] at value
  rw [Request.value, ← merged]
  exact ⟨constrained, value⟩

omit [ReducedForm F] in
theorem card_setUnits_le_one (distinct : booleans.Nodup)
    (plain : request.flags = booleans.map Boolean.is)
    (orthogonal : (request.flags.filter (Boolean.holds assignment)).length ≤ 1) :
    (request.setUnits assignment).card ≤ 1 := by
  have collected : request.flags.flatMap Boolean.vars = booleans := by
    rw [plain, flatMap_map]
    exact flatMap_singleton' booleans
  have holds : (Boolean.holds assignment ∘ Boolean.is) =
      fun index => decide (assignment index = 1) := rfl
  rw [plain, filter_map, length_map, holds,
    ← toFinset_card_of_nodup (distinct.filter _)] at orthogonal
  apply Nat.le_trans _ orthogonal
  apply Finset.card_le_card
  intro index member
  rw [setUnits, collected] at member
  rcases Finset.mem_filter.mp member with ⟨inside, -, one⟩
  apply mem_toFinset.mpr
  exact mem_filter.mpr ⟨mem_toFinset.mp inside, decide_eq_true one⟩

end Request

theorem flags_eq_of_isIs {flags : List Boolean} (collected : booleanVars flags = some booleans)
    (plain : flags.all Boolean.isIs = true) : flags = booleans.map Boolean.is := by
  have pairs := mapM_spec collected
  clear collected
  induction pairs with
  | nil => rfl
  | @cons flag index flags booleans first rest ih =>
    rw [all_cons, Bool.and_eq_true] at plain
    rw [map_cons, ← ih plain.2]
    cases flag with
    | is other =>
      cases first
      rfl
    | not other => cases plain.1
    | constant value => cases plain.1

theorem noNots_spec {variants : List (Num F)} {selection : Selection F}
    (done : specChooseFromOrthogonalVariantsNoNots booleans variants result = some selection)
    (boolean : BooleanOn assignment booleans) :
    booleans.Nodup ∧
      selection.constraint.value assignment =
        (Request.numbers (booleans.map Boolean.is) variants).value assignment -
          assignment result ∧
      selection.valueFn assignment =
        (Request.numbers (booleans.map Boolean.is) variants).value assignment := by
  rcases guard_bind_eq_some done with ⟨-, done⟩
  rcases guard_bind_eq_some done with ⟨distinct, done⟩
  rcases Option.bind_eq_some_iff.mp done with ⟨constraint, folded, done⟩
  rcases Option.bind_eq_some_iff.mp done with ⟨added, emitted, done⟩
  cases done
  have entries : (Request.numbers (booleans.map Boolean.is) variants).entries =
      (booleans.zip variants).map fun entry => (Boolean.is entry.1, ⟨[entry.2.term]⟩) := zip_map
  have merged : constraint.value assignment =
      (Request.numbers (booleans.map Boolean.is) variants).value assignment := by
    have sum := weigh_foldlM (fun accumulator entry sum added => weigh_addVariant added
      fun monomial => (monomial.map assignment).prod) _ folded
    rw [Request.value, Request.weigh, entries, map_map, Constraint.value, sum, empty,
      weigh_nil, zero_add]
    rfl
  refine ⟨distinct, ?_, ?_⟩
  · rw [value_addConstraint emitted, merged]
  · rw [Request.value_eq_sum, entries, map_map]
    apply addAssignMasked_entries
    intro entry member
    exact boolean _ (of_mem_zip member).1

namespace Request

variable {request : Request F} {selection : Selection F}

theorem specChoose_spec (built : request.specChoose result = some selection)
    (boolean : BooleanOn assignment (request.flags.flatMap Boolean.vars))
    (orthogonal : (request.flags.filter (Boolean.holds assignment)).length ≤ 1) :
    selection.constraint.value assignment = request.value assignment - assignment result ∧
      selection.valueFn assignment + ((request.setUnits assignment).card : F) =
        request.value assignment + ((min (request.setUnits assignment).card 1 : ℕ) : F) := by
  cases request with
  | numbers flags variants =>
    rcases guard_bind_eq_some built with ⟨-, built⟩
    rcases Option.bind_eq_some_iff.mp built with ⟨booleans, collected, built⟩
    have vars : (numbers flags variants).flags.flatMap Boolean.vars = booleans :=
      booleanVars_eq collected
    have booleanVars : BooleanOn assignment booleans := vars ▸ boolean
    split at built
    case isTrue plain =>
      have same := flags_eq_of_isIs collected plain
      rcases noNots_spec built booleanVars with ⟨distinct, constrained, value⟩
      rw [← same] at constrained value
      have few : ((numbers flags variants).setUnits assignment).card ≤ 1 :=
        card_setUnits_le_one distinct same orthogonal
      rw [value, Nat.min_eq_left few]
      exact ⟨constrained, rfl⟩
    case isFalse =>
      rcases Option.bind_eq_some_iff.mp built with ⟨constraint, folded, done⟩
      apply inner_request vars _ done booleanVars
      intro weight
      have sum := weigh_foldlM (fun accumulator entry sum added => weigh_mask added weight) _
        folded
      have entries : (numbers flags variants).entries =
          (flags.zip variants).map fun entry => (entry.1, ⟨[entry.2.term]⟩) :=
        zip_map_right
      rw [sum, Constraint.empty, weigh_nil, zero_add, weigh, entries, map_map]
      rfl
  | linearTerms flags variants =>
    rcases guard_bind_eq_some built with ⟨-, built⟩
    rcases Option.bind_eq_some_iff.mp built with ⟨booleans, collected, built⟩
    rcases Option.bind_eq_some_iff.mp built with ⟨constraint, folded, done⟩
    have vars : (linearTerms flags variants).flags.flatMap Boolean.vars = booleans :=
      booleanVars_eq collected
    apply inner_request vars _ done (vars ▸ boolean)
    intro weight
    have sum := weigh_foldlM
      (fun accumulator entry sum added => weigh_maskLinearTerm added weight) _ folded
    rw [sum, Constraint.empty, weigh_nil, zero_add]
    rfl

/-- The output is forced to the variant of the flag that is set. It is assigned that value exactly
when the flag variables left alone with coefficient one are not set together. -/
theorem selection_spec (built : request.specChoose result = some selection)
    (boolean : BooleanOn assignment (request.flags.flatMap Boolean.vars))
    (orthogonal : (request.flags.filter (Boolean.holds assignment)).length ≤ 1) :
    ((selection.constraint.value assignment = 0 ↔
          assignment result = request.chosen assignment) ∧
        selection.valueFn assignment = request.chosen assignment) ↔
      ((request.setUnits assignment).card : F) =
        ((min (request.setUnits assignment).card 1 : ℕ) : F) := by
  rcases specChoose_spec built boolean orthogonal with ⟨constrained, value⟩
  rw [value_eq_chosen built boolean orthogonal] at constrained value
  have forced : selection.constraint.value assignment = 0 ↔
      assignment result = request.chosen assignment := by
    rw [constrained, sub_eq_zero, eq_comm]
  constructor
  · intro both
    rw [both.2] at value
    exact add_left_cancel value
  · intro few
    rw [few] at value
    exact ⟨forced, add_right_cancel value⟩

end Request

/-- Choose `1` when variable `0` is set and `-1` when variable `1` is not. -/
def negatedFlagRequest : Request Mersenne31Field :=
  .numbers [.is 0, .not 1] [.constant 1, .constant (-1)]

def setOnly (indices : List Variable) (index : Variable) : Mersenne31Field :=
  if index ∈ indices then 1 else 0

theorem booleanOn_setOnly (indices booleans : List Variable) :
    BooleanOn (setOnly indices) booleans := by
  intro index _
  by_cases inside : index ∈ indices
  · exact .inr (if_pos inside)
  · exact .inl (if_neg inside)

theorem negatedFlagRequest_unset :
    ∃ selection, negatedFlagRequest.specChoose 2 = some selection ∧
      (selection.constraint.value (setOnly [1]) = 0 ↔
        setOnly [1] 2 = negatedFlagRequest.chosen (setOnly [1])) ∧
      selection.valueFn (setOnly [1]) = negatedFlagRequest.chosen (setOnly [1]) := by
  refine ⟨_, rfl, ?_⟩
  apply (Request.selection_spec rfl (booleanOn_setOnly _ _) (by decide +kernel)).mpr
  decide +kernel

/-- With both variables set only the first flag holds. The constraint forces one, but the mask of
the two variables counts once and the output is assigned zero. -/
theorem negatedFlagRequest_set :
    ∃ selection, negatedFlagRequest.specChoose 2 = some selection ∧
      BooleanOn (setOnly [0, 1]) (negatedFlagRequest.flags.flatMap Boolean.vars) ∧
      (negatedFlagRequest.flags.filter (Boolean.holds (setOnly [0, 1]))).length = 1 ∧
      negatedFlagRequest.chosen (setOnly [0, 1]) = 1 ∧
      selection.valueFn (setOnly [0, 1]) = 0 := by
  refine ⟨_, rfl, booleanOn_setOnly _ _, ?_, ?_, ?_⟩
  · decide +kernel
  · decide +kernel
  · decide +kernel

end Airbender.SpecSelection

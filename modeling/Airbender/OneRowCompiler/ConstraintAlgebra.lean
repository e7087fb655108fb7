import Airbender.OneRowCompiler.Constraint

/-!
# Constraints as polynomials

What `normalize` keeps: the sum of all terms, weighed by their monomials in any way. Values under an
assignment and single coefficients are such sums.
-/

namespace Airbender.OneRowCompiler

open List

theorem guard_bind_eq_some {α : Type} {condition : Prop} [Decidable condition]
    {next : Unit → Option α} {result : α} (succeeded : (guard condition >>= next) = some result) :
    condition ∧ next () = some result := by
  by_cases holds : condition
  · rw [guard, if_pos holds] at succeeded
    exact ⟨holds, succeeded⟩
  · rw [guard, if_neg holds] at succeeded
    cases succeeded

variable {F : Type}

namespace Term

variable {term : Term F}

def monomial (term : Term F) : Multiset Variable := term.asSlice

theorem monomial_congr {first second : Term F} (same : first.asSlice = second.asSlice) :
    first.monomial = second.monomial := by
  rw [monomial, monomial, same]

theorem monomial_eq_zero : term.monomial = 0 ↔ term.asSlice = [] :=
  Multiset.coe_eq_zero _

end Term

namespace Constraint

variable {constraint : Constraint F} {property : Multiset Variable → Prop}

def Mentions (constraint : Constraint F) (var : Variable) : Prop :=
  ∃ term ∈ constraint.terms, var ∈ term.monomial

theorem containsVar_iff {var : Variable} :
    constraint.containsVar var = true ↔ constraint.Mentions var := by
  simp [containsVar, Term.containsVar, Mentions, Term.monomial]

theorem foldl_max_le {α : Type} (measure : α → ℕ) (items : List α) (start bound : ℕ) :
    items.foldl (fun largest item => max largest (measure item)) start ≤ bound ↔
      start ≤ bound ∧ ∀ item ∈ items, measure item ≤ bound := by
  induction items generalizing start with
  | nil => simp
  | cons item items ih => rw [foldl_cons, ih, max_le_iff, forall_mem_cons, and_assoc]

theorem degree_le {bound : ℕ} :
    constraint.degree ≤ bound ↔ ∀ term ∈ constraint.terms, term.monomial.card ≤ bound := by
  rw [degree, foldl_max_le]
  exact and_iff_right (Nat.zero_le _)

theorem degreeForVar_le {var : Variable} {bound : ℕ} :
    constraint.degreeForVar var ≤ bound ↔
      ∀ term ∈ constraint.terms, term.monomial.count var ≤ bound := by
  have count : ∀ term : Term F, term.degreeForVar var = term.monomial.count var :=
    fun term => (Multiset.coe_count var term.asSlice).symm
  rw [degreeForVar, foldl_max_le]
  simp only [count, Nat.zero_le, true_and]

def Within (property : Multiset Variable → Prop) (constraint : Constraint F) : Prop :=
  ∀ term ∈ constraint.terms, term.monomial ≠ 0 → property term.monomial

theorem not_mentions_iff {var : Variable} :
    ¬ constraint.Mentions var ↔ constraint.Within fun monomial => var ∉ monomial := by
  constructor
  · intro absent term member _ inside
    exact absent ⟨term, member, inside⟩
  · rintro within ⟨term, member, inside⟩
    refine within term member ?_ inside
    rintro zero
    rw [zero] at inside
    exact absurd inside (Multiset.notMem_zero var)

theorem Within.append {first second : List (Term F)} (left : (Constraint.mk first).Within property)
    (right : (Constraint.mk second).Within property) :
    (Constraint.mk (first ++ second)).Within property := by
  intro term member
  rcases mem_append.mp member with inFirst | inSecond
  · exact left term inFirst
  · exact right term inSecond

theorem Within.filter {terms : List (Term F)} (within : (Constraint.mk terms).Within property)
    (keep : Term F → Bool) : (Constraint.mk (terms.filter keep)).Within property :=
  fun term member => within term (mem_filter.mp member).1

theorem sort_perm [ReducedForm F] (terms : List (Term F)) : (sort terms).Perm terms :=
  perm_insertionSort _ _

end Constraint

variable [Field F]

namespace Term

def weigh (weight : Multiset Variable → F) (term : Term F) : F :=
  term.getCoef * weight term.monomial

variable (weight : Multiset Variable → F)

theorem weigh_of_zero {term : Term F} (zero : term.getCoef = 0) : term.weigh weight = 0 := by
  rw [weigh, zero, zero_mul]

theorem weigh_combine {existing term sum : Term F} (combined : existing.combine term = some sum) :
    sum.weigh weight = existing.weigh weight + term.weigh weight := by
  cases existing with
  | constant value =>
    cases term with
    | constant other =>
      cases combined
      exact add_mul _ _ _
    | expression other inner => cases combined
  | expression coeff inner =>
    cases term with
    | constant other => cases combined
    | expression other inner' =>
      rw [combine] at combined
      split at combined
      case isTrue same =>
        cases combined
        rw [← same]
        exact add_mul _ _ _
      case isFalse => cases combined

@[simp] theorem weigh_scale (factor : F) (term : Term F) :
    (term.scale factor).weigh weight = factor * term.weigh weight := by
  cases term with
  | constant value => simp only [scale, weigh, getCoef, monomial, asSlice]; ring
  | expression coeff inner => simp only [scale, weigh, getCoef, monomial, asSlice]; ring

variable {term : Term F}

theorem asSlice_combine {existing sum : Term F} (combined : existing.combine term = some sum) :
    sum.asSlice = existing.asSlice := by
  cases existing with
  | constant value =>
    cases term with
    | constant other => cases combined; rfl
    | expression other inner => cases combined
  | expression coeff inner =>
    cases term with
    | constant other => cases combined
    | expression other inner' =>
      rw [combine] at combined
      split at combined
      case isTrue => cases combined; rfl
      case isFalse => cases combined

theorem monomial_ne_of_combine {existing : Term F} (apart : existing.combine term = none)
    (sorted : existing.asSlice.Pairwise (· ≤ ·)) (sorted' : term.asSlice.Pairwise (· ≤ ·))
    (proper : existing.monomial ≠ 0) : existing.monomial ≠ term.monomial := by
  intro same
  cases existing with
  | constant value => exact proper rfl
  | expression coeff inner =>
    cases term with
    | constant other => exact proper same
    | expression other inner' =>
      have equal : inner = inner' := (Multiset.coe_eq_coe.mp same).eq_of_pairwise
        (fun _ _ _ _ => le_antisymm) sorted sorted'
      rw [combine, if_pos equal] at apart
      cases apart

end Term

namespace Constraint

def weigh (weight : Multiset Variable → F) (constraint : Constraint F) : F :=
  (constraint.terms.map (Term.weigh weight)).sum

section

variable (weight : Multiset Variable → F)

@[simp] theorem weigh_empty : (empty : Constraint F).weigh weight = 0 := rfl

@[simp] theorem weigh_nil : (Constraint.mk ([] : List (Term F))).weigh weight = 0 := rfl

@[simp] theorem weigh_cons (term : Term F) (terms : List (Term F)) :
    (Constraint.mk (term :: terms)).weigh weight =
      term.weigh weight + (Constraint.mk terms).weigh weight := by
  rw [weigh, map_cons, sum_cons]
  rfl

@[simp] theorem weigh_append (first second : List (Term F)) :
    (Constraint.mk (first ++ second)).weigh weight =
      (Constraint.mk first).weigh weight + (Constraint.mk second).weigh weight := by
  rw [weigh, map_append, sum_append]
  rfl

theorem weigh_perm {first second : List (Term F)} (permuted : first.Perm second) :
    (Constraint.mk first).weigh weight = (Constraint.mk second).weigh weight :=
  (permuted.map _).sum_eq

variable (constraint : Constraint F)

@[simp] theorem weigh_scale (factor : F) :
    (constraint.scale factor).weigh weight = factor * constraint.weigh weight := by
  simp only [weigh, scale, map_map, Function.comp_def, Term.weigh_scale, sum_map_mul_left]

theorem weigh_mul (factor : F) :
    (constraint.weigh fun monomial => factor * weight monomial) =
      factor * constraint.weigh weight := by
  rw [weigh, weigh, ← sum_map_mul_left]
  apply congrArg List.sum
  apply map_congr_left
  intro term _
  rw [Term.weigh, Term.weigh]
  ring

end

variable {term : Term F} {constraint : Constraint F} {property : Multiset Variable → Prop}

def coefficient (monomial : Multiset Variable) (constraint : Constraint F) : F :=
  constraint.weigh fun other => if other = monomial then 1 else 0

theorem exists_of_coefficient {monomial : Multiset Variable}
    (nonzero : constraint.coefficient monomial ≠ 0) :
    ∃ term ∈ constraint.terms, term.monomial = monomial := by
  by_contra none
  push Not at none
  refine nonzero ?_
  have zeros : ∀ term ∈ constraint.terms,
      term.weigh (fun other => if other = monomial then 1 else 0) = 0 := by
    intro term member
    rw [Term.weigh, if_neg (none term member), mul_zero]
  rw [coefficient, weigh, map_congr_left zeros, map_const', sum_replicate, smul_zero]

theorem coefficient_cons (monomial : Multiset Variable) (term : Term F) (terms : List (Term F)) :
    (Constraint.mk (term :: terms)).coefficient monomial =
      (if term.monomial = monomial then term.getCoef else 0) +
        (Constraint.mk terms).coefficient monomial := by
  rw [coefficient, weigh_cons, Term.weigh, mul_ite, mul_one, mul_zero]
  rfl

theorem coefficient_eq_of_alone {terms : List (Term F)} (member : term ∈ terms)
    (alone : terms.Pairwise fun first second =>
      first.monomial = term.monomial → second.monomial ≠ term.monomial) :
    (Constraint.mk terms).coefficient term.monomial = term.getCoef := by
  induction terms with
  | nil => exact absurd member not_mem_nil
  | cons first terms ih =>
    obtain ⟨apart, rest⟩ := pairwise_cons.mp alone
    rw [coefficient_cons]
    rcases mem_cons.mp member with rfl | later
    · have others : (Constraint.mk terms).coefficient term.monomial = 0 := by
        by_contra nonzero
        obtain ⟨other, inside, same⟩ := exists_of_coefficient nonzero
        exact apart other inside rfl same
      rw [if_pos rfl, others, add_zero]
    · have different : first.monomial ≠ term.monomial := by
        intro same
        exact apart term later same rfl
      rw [if_neg different, zero_add, ih later rest]

theorem coefficient_of_within {monomial : Multiset Variable} (proper : monomial ≠ 0)
    (within : constraint.Within (· ≠ monomial)) : constraint.coefficient monomial = 0 := by
  by_contra nonzero
  obtain ⟨term, member, same⟩ := exists_of_coefficient nonzero
  rw [← same] at proper
  exact within term member proper same

/-- Different terms have different variables; there are no zeros. -/
structure Normal (constraint : Constraint F) : Prop where
  nonzero : ∀ term ∈ constraint.terms, term.getCoef ≠ 0
  distinct : constraint.terms.Pairwise fun first second =>
    first.monomial ≠ 0 → first.monomial ≠ second.monomial

theorem Normal.coefficient_eq (normal : constraint.Normal) (member : term ∈ constraint.terms)
    (proper : term.monomial ≠ 0) : constraint.coefficient term.monomial = term.getCoef := by
  apply coefficient_eq_of_alone member
  refine normal.distinct.imp fun {first second} apart same equal => ?_
  rw [← same] at proper equal
  exact apart proper equal.symm

theorem monomial_scale (factor : F) (term : Term F) :
    (term.scale factor).monomial = term.monomial := by
  cases term <;> rfl

theorem Within.scale (within : constraint.Within property) (factor : F) :
    (constraint.scale factor).Within property := by
  intro term member
  obtain ⟨original, inside, rfl⟩ := mem_map.mp member
  rw [monomial_scale]
  exact within original inside

def value (assignment : Variable → F) (constraint : Constraint F) : F :=
  constraint.weigh fun monomial => (monomial.map assignment).prod

theorem value_congr {first second : Variable → F}
    (same : ∀ var, constraint.Mentions var → first var = second var) :
    constraint.value first = constraint.value second := by
  refine congrArg List.sum (map_congr_left fun term member => ?_)
  refine congrArg (term.getCoef * ·) (congrArg Multiset.prod ?_)
  exact Multiset.map_congr rfl fun var inside => same var ⟨term, member, inside⟩

end Constraint

variable [DecidableEq F]

namespace Term

@[simp] theorem weigh_normalize (weight : Multiset Variable → F) (term : Term F) :
    term.normalize.weigh weight = term.weigh weight := by
  cases term with
  | constant value => rfl
  | expression coeff inner =>
    rw [normalize]
    split
    case isTrue zero =>
      have original : (expression coeff inner).getCoef = 0 := zero
      rw [weigh_of_zero weight original, weigh_of_zero weight rfl]
    case isFalse =>
      have same : ((inner.insertionSort (· ≤ ·) : List Variable) : Multiset Variable) = inner :=
        Multiset.coe_eq_coe.mpr (perm_insertionSort _ _)
      simp only [weigh, getCoef, monomial, asSlice, same]

theorem asSlice_normalize (term : Term F) : term.normalize.asSlice = [] ∨
    term.normalize.asSlice = term.asSlice.insertionSort (· ≤ ·) := by
  cases term with
  | constant value => exact Or.inl rfl
  | expression coeff inner =>
    rw [normalize]
    split
    case isTrue => exact Or.inl rfl
    case isFalse => exact Or.inr rfl

theorem asSlice_normalize_sorted (term : Term F) : term.normalize.asSlice.Pairwise (· ≤ ·) := by
  rcases term.asSlice_normalize with none | sorted
  · rw [none]
    exact List.Pairwise.nil
  · rw [sorted]
    exact pairwise_insertionSort _ _

variable {term : Term F}

theorem asSlice_normalize_of_sorted (sorted : term.asSlice.Pairwise (· ≤ ·)) :
    term.normalize.asSlice = [] ∨ term.normalize.asSlice = term.asSlice := by
  rcases term.asSlice_normalize with none | reordered
  · exact Or.inl none
  · rw [sorted.insertionSort_eq] at reordered
    exact Or.inr reordered

theorem normalize_eq_self (nonzero : term.getCoef ≠ 0) (sorted : term.asSlice.Pairwise (· ≤ ·)) :
    term.normalize = term := by
  cases term with
  | constant value => rfl
  | expression coeff inner =>
    have ordered : inner.insertionSort (· ≤ ·) = inner := sorted.insertionSort_eq
    rw [normalize, if_neg (show ¬ coeff = 0 from nonzero), ordered]

end Term

namespace Constraint

section

variable (weight : Multiset Variable → F) (terms : List (Term F))

theorem weigh_map_normalize :
    (Constraint.mk (terms.map Term.normalize)).weigh weight =
      (Constraint.mk terms).weigh weight := by
  simp only [weigh, map_map, Function.comp_def, Term.weigh_normalize]

theorem weigh_absorb (combined : List (Term F)) (term : Term F) :
    (Constraint.mk (absorb combined term)).weigh weight =
      (Constraint.mk combined).weigh weight + term.weigh weight := by
  induction combined with
  | nil => simp [absorb]
  | cons existing combined ih =>
    rw [absorb]
    split
    case h_1 sum found =>
      simp only [weigh_cons, Term.weigh_normalize, Term.weigh_combine weight found]
      ring
    case h_2 => rw [weigh_cons, ih, weigh_cons, add_assoc]

theorem weigh_foldl_absorb (combined : List (Term F)) :
    (Constraint.mk (terms.foldl absorb combined)).weigh weight =
      (Constraint.mk combined).weigh weight + (Constraint.mk terms).weigh weight := by
  induction terms generalizing combined with
  | nil => simp
  | cons term terms ih => rw [foldl_cons, ih, weigh_absorb, weigh_cons, add_assoc]

theorem weigh_filter_nonzero :
    (Constraint.mk (terms.filter fun term => !term.isZero)).weigh weight =
      (Constraint.mk terms).weigh weight := by
  induction terms with
  | nil => rfl
  | cons term terms ih =>
    rw [filter_cons]
    split
    case isTrue => rw [weigh_cons, ih, weigh_cons]
    case isFalse zero =>
      have coefficient : term.getCoef = 0 := by simpa [Term.isZero] using zero
      rw [ih, weigh_cons, Term.weigh_of_zero weight coefficient, zero_add]

end

variable {combined : List (Term F)} {added term : Term F} {constraint result : Constraint F}
  {property : Multiset Variable → Prop}

/-- The variables of every term are in order, as like terms are compared by position. -/
def SortedTerms (terms : List (Term F)) : Prop := ∀ term ∈ terms, term.asSlice.Pairwise (· ≤ ·)

theorem mem_absorb (member : term ∈ absorb combined added) :
    term = added ∨ term ∈ combined ∨
      ∃ existing ∈ combined, ∃ sum, existing.combine added = some sum ∧ term = sum.normalize := by
  induction combined with
  | nil => exact Or.inl (mem_singleton.mp member)
  | cons existing combined ih =>
    rw [absorb] at member
    split at member
    case h_1 sum found =>
      rcases mem_cons.mp member with rfl | later
      · exact Or.inr (Or.inr ⟨existing, mem_cons_self, sum, found, rfl⟩)
      · exact Or.inr (Or.inl (mem_cons_of_mem _ later))
    case h_2 =>
      rcases mem_cons.mp member with rfl | later
      · exact Or.inr (Or.inl mem_cons_self)
      · rcases ih later with new | old | ⟨other, inside, found⟩
        · exact Or.inl new
        · exact Or.inr (Or.inl (mem_cons_of_mem _ old))
        · exact Or.inr (Or.inr ⟨other, mem_cons_of_mem _ inside, found⟩)

theorem asSlice_of_mem_absorb (sorted : SortedTerms combined)
    (member : term ∈ absorb combined added) :
    term.asSlice = [] ∨ term = added ∨ ∃ existing ∈ combined, term.asSlice = existing.asSlice := by
  rcases mem_absorb member with new | old | ⟨existing, inside, sum, found, rfl⟩
  · exact Or.inr (Or.inl new)
  · exact Or.inr (Or.inr ⟨term, old, rfl⟩)
  · have slice := Term.asSlice_combine found
    have first := sorted existing inside
    rw [← slice] at first
    rcases Term.asSlice_normalize_of_sorted first with none | same
    · exact Or.inl none
    · exact Or.inr (Or.inr ⟨existing, inside, same.trans slice⟩)

theorem sortedTerms_absorb (sorted : SortedTerms combined)
    (addedSorted : added.asSlice.Pairwise (· ≤ ·)) : SortedTerms (absorb combined added) := by
  intro term member
  rcases asSlice_of_mem_absorb sorted member with none | rfl | ⟨existing, inside, same⟩
  · rw [none]
    exact List.Pairwise.nil
  · exact addedSorted
  · rw [same]
    exact sorted existing inside

/-- Terms with variables have different variables. -/
def Distinct (terms : List (Term F)) : Prop :=
  terms.Pairwise fun first second => first.monomial ≠ 0 → first.monomial ≠ second.monomial

theorem distinct_absorb (sorted : SortedTerms combined)
    (addedSorted : added.asSlice.Pairwise (· ≤ ·)) (distinct : Distinct combined) :
    Distinct (absorb combined added) := by
  induction combined with
  | nil => exact pairwise_singleton _ _
  | cons existing combined ih =>
    have existingSorted := sorted existing mem_cons_self
    have others : SortedTerms combined := fun other inside =>
      sorted other (mem_cons_of_mem _ inside)
    obtain ⟨apart, rest⟩ := pairwise_cons.mp distinct
    rw [absorb]
    split
    case h_1 sum found =>
      refine pairwise_cons.mpr ⟨fun other inside proper => ?_, rest⟩
      have slice := Term.asSlice_combine found
      rw [← slice] at existingSorted
      rcases Term.asSlice_normalize_of_sorted existingSorted with none | same
      · exact absurd (Term.monomial_eq_zero.mpr none) proper
      · have monomial : sum.normalize.monomial = existing.monomial :=
          Term.monomial_congr (same.trans slice)
        rw [monomial] at proper ⊢
        exact apart other inside proper
    case h_2 separate =>
      refine pairwise_cons.mpr ⟨fun other inside proper => ?_, ih others rest⟩
      rcases asSlice_of_mem_absorb others inside with none | rfl | ⟨original, member, same⟩
      · rw [Term.monomial_eq_zero.mpr none]
        exact proper
      · exact Term.monomial_ne_of_combine separate existingSorted addedSorted proper
      · have monomial : other.monomial = original.monomial := Term.monomial_congr same
        rw [monomial]
        exact apart original member proper

theorem foldl_absorb (terms combined : List (Term F)) (termsSorted : SortedTerms terms)
    (sorted : SortedTerms combined) (distinct : Distinct combined) :
    SortedTerms (terms.foldl absorb combined) ∧ Distinct (terms.foldl absorb combined) := by
  induction terms generalizing combined with
  | nil => exact ⟨sorted, distinct⟩
  | cons term terms ih =>
    have first := termsSorted term mem_cons_self
    exact ih _ (fun other inside => termsSorted other (mem_cons_of_mem _ inside))
      (sortedTerms_absorb sorted first) (distinct_absorb sorted first distinct)

variable [ReducedForm F]

def collected (constraint : Constraint F) : List (Term F) :=
  ((sort (constraint.terms.map Term.normalize)).foldl absorb []).filter fun term => !term.isZero

theorem weigh_collected (weight : Multiset Variable → F) (constraint : Constraint F) :
    (Constraint.mk constraint.collected).weigh weight = constraint.weigh weight := by
  rw [collected, weigh_filter_nonzero, weigh_foldl_absorb, weigh_nil, zero_add,
    weigh_perm weight (sort_perm _), weigh_map_normalize]

theorem getCoef_ne_zero_of_mem_collected {term : Term F} (member : term ∈ constraint.collected) :
    term.getCoef ≠ 0 := by
  have nonzero := (mem_filter.mp member).2
  simpa [Term.isZero] using nonzero

theorem collected_normal (constraint : Constraint F) :
    SortedTerms constraint.collected ∧ Distinct constraint.collected := by
  have sorted : SortedTerms (sort (constraint.terms.map Term.normalize)) := by
    intro term member
    obtain ⟨original, -, rfl⟩ := mem_map.mp ((sort_perm _).mem_iff.mp member)
    exact original.asSlice_normalize_sorted
  obtain ⟨all, distinct⟩ := foldl_absorb _ [] sorted (fun _ inside => absurd inside (by simp))
    List.Pairwise.nil
  exact ⟨fun term member => all term (mem_filter.mp member).1, distinct.filter _⟩

theorem normalize_eq_some (normalized : constraint.normalize = some result) :
    result = ⟨sort (constraint.collected.map Term.normalize)⟩ ∧
      (Constraint.mk constraint.collected).degree ≤ 2 := by
  obtain ⟨degree, normalized⟩ := guard_bind_eq_some normalized
  refine ⟨?_, degree⟩
  split at normalized
  case isTrue zero =>
    have member : Term.constant 0 ∈ constraint.collected := by
      rw [collected, zero.2]
      exact mem_singleton_self _
    exact absurd rfl (getCoef_ne_zero_of_mem_collected member)
  case isFalse =>
    obtain ⟨-, normalized⟩ := guard_bind_eq_some normalized
    exact (Option.some.inj normalized).symm

theorem weigh_normalize (weight : Multiset Variable → F)
    (normalized : constraint.normalize = some result) :
    result.weigh weight = constraint.weigh weight := by
  rw [(normalize_eq_some normalized).1, weigh_perm weight (sort_perm _), weigh_map_normalize,
    weigh_collected]

theorem normalize_perm (normalized : constraint.normalize = some result) :
    result.terms.Perm constraint.collected := by
  have unchanged : constraint.collected.map Term.normalize = constraint.collected := by
    refine (map_congr_left fun term member => ?_).trans (map_id _)
    exact Term.normalize_eq_self (getCoef_ne_zero_of_mem_collected member)
      (constraint.collected_normal.1 term member)
  rw [(normalize_eq_some normalized).1, unchanged]
  exact sort_perm _

theorem normalize_normal (normalized : constraint.normalize = some result) : result.Normal := by
  have permuted := normalize_perm normalized
  refine ⟨fun term member => ?_, ?_⟩
  · exact getCoef_ne_zero_of_mem_collected (permuted.mem_iff.mp member)
  · refine permuted.symm.pairwise constraint.collected_normal.2 fun apart proper same => ?_
    rw [same] at proper
    exact apart proper same.symm

theorem Within.normalize (within : constraint.Within property)
    (normalized : constraint.normalize = some result) : result.Within property := by
  intro term member proper
  have normal := normalize_normal normalized
  have same : constraint.coefficient term.monomial = term.getCoef := by
    rw [← normal.coefficient_eq member proper]
    exact (weigh_normalize _ normalized).symm
  obtain ⟨original, inside, equal⟩ := exists_of_coefficient
    (same.trans_ne (normal.nonzero term member))
  rw [← equal] at proper ⊢
  exact within original inside proper

theorem normalize_degree_le (normalized : constraint.normalize = some result) :
    result.degree ≤ 2 := by
  refine degree_le.mpr fun term member => ?_
  exact degree_le.mp (normalize_eq_some normalized).2 term
    ((normalize_perm normalized).mem_iff.mp member)

end Constraint

end Airbender.OneRowCompiler

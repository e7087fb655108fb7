import Airbender.OneRowCompiler.ConstraintAlgebra

/-!
# Replacing a variable

A linear constraint is solved for a variable, and the solution takes its place in another one.
-/

namespace Airbender.OneRowCompiler

open Multiset
open Option hiding guard or_self

variable {F : Type}

namespace Constraint

variable {var : Variable} {factor term : Term F} {constraint expression result : Constraint F}

theorem mem_monomial_iff : var ∈ term.monomial ↔ term.containsVar var = true := by
  simp [Term.monomial, Term.containsVar]

theorem others_within (constraint : Constraint F) (var : Variable) :
    (Constraint.mk (constraint.terms.filter fun term => !term.containsVar var)).Within
      fun monomial => var ∉ monomial := by
  intro term member _ inside
  have without := (List.mem_filter.mp member).2
  rw [mem_monomial_iff.mp inside] at without
  exact absurd without (by decide)

variable [Field F]

theorem weigh_partition (weight : Multiset Variable → F) (terms : List (Term F))
    (keep : Term F → Bool) :
    (Constraint.mk terms).weigh weight = (Constraint.mk (terms.filter keep)).weigh weight +
      (Constraint.mk (terms.filter fun term => !keep term)).weigh weight := by
  rw [← weigh_append]
  exact (weigh_perm weight (List.filter_append_perm keep terms)).symm

theorem filter_containsVar (normal : constraint.Normal) (linear : constraint.degree ≤ 1)
    (mentions : constraint.Mentions var) :
    ∃ term, constraint.terms.filter (fun term => term.containsVar var) = [term] ∧
      term.monomial = {var} ∧ term.getCoef ≠ 0 := by
  have single : ∀ term ∈ constraint.terms.filter (fun term => term.containsVar var),
      term.monomial = {var} := by
    intro term member
    obtain ⟨inside, contains⟩ := List.mem_filter.mp member
    have small := degree_le.mp linear term inside
    have mem := mem_monomial_iff.mpr contains
    have one : term.monomial.card = 1 := by
      have positive : 0 < term.monomial.card := card_pos_iff_exists_mem.mpr ⟨var, mem⟩
      omega
    obtain ⟨other, same⟩ := card_eq_one.mp one
    rw [same, mem_singleton] at mem
    rw [same, mem]
  have distinct := normal.distinct.filter fun term => term.containsVar var
  obtain ⟨term, member, contains⟩ := mentions
  have kept : term ∈ constraint.terms.filter (fun term => term.containsVar var) :=
    List.mem_filter.mpr ⟨member, mem_monomial_iff.mp contains⟩
  match terms : constraint.terms.filter (fun term => term.containsVar var) with
  | [] =>
    rw [terms] at kept
    exact absurd kept List.not_mem_nil
  | [only] =>
    have inside : only ∈ constraint.terms.filter (fun term => term.containsVar var) := by
      rw [terms]
      exact List.mem_singleton_self _
    exact ⟨only, terms, single only inside, normal.nonzero only (List.mem_filter.mp inside).1⟩
  | first :: second :: others =>
    rw [terms] at single distinct
    have firstSingle := single first List.mem_cons_self
    have secondSingle := single second (List.mem_cons_of_mem _ List.mem_cons_self)
    have apart := (List.pairwise_cons.mp distinct).1 second List.mem_cons_self
    refine absurd (firstSingle.trans secondSingle.symm) (apart ?_)
    rw [firstSingle]
    exact singleton_ne_zero var

theorem mul_spec {product : Term F} (multiplied : term.mul factor = some product) :
    product.monomial = term.monomial + factor.monomial ∧
      product.getCoef = term.getCoef * factor.getCoef := by
  cases term with
  | constant value =>
    cases factor with
    | constant other =>
      cases multiplied
      exact ⟨(zero_add _).symm, rfl⟩
    | expression other inner =>
      cases multiplied
      exact ⟨(zero_add _).symm, rfl⟩
  | expression coeff inner =>
    cases factor with
    | constant other =>
      cases multiplied
      exact ⟨(add_zero _).symm, rfl⟩
    | expression other inner' =>
      rw [Term.mul] at multiplied
      split at multiplied
      case isTrue =>
        cases multiplied
        exact ⟨(coe_add _ _).symm, rfl⟩
      case isFalse => cases multiplied

variable [DecidableEq F] [ReducedForm F]

structure Solved (constraint : Constraint F) (var : Variable) (expression : Constraint F) :
    Prop where
  value_eq_zero : ∀ assignment, constraint.value assignment = 0 ↔
    assignment var = expression.value assignment
  not_mentions : ¬ expression.Mentions var
  mentions : ∀ {other}, expression.Mentions other → constraint.Mentions other

theorem expressVariable_solved (normal : constraint.Normal) (linear : constraint.degree ≤ 1)
    (expressed : constraint.expressVariable var = some expression) :
    constraint.Solved var expression := by
  obtain ⟨contains, expressed⟩ := guard_bind_eq_some expressed
  obtain ⟨-, expressed⟩ := guard_bind_eq_some expressed
  obtain ⟨-, expressed⟩ := guard_bind_eq_some expressed
  obtain ⟨-, normalized⟩ := guard_bind_eq_some expressed
  obtain ⟨term, defining, monomial, nonzero⟩ :=
    filter_containsVar normal linear (containsVar_iff.mp contains)
  rw [defining, List.foldl_cons, List.foldl_nil] at normalized
  refine ⟨fun assignment => ?_, ?_, fun {other} occurs => ?_⟩
  · have whole := weigh_partition (fun monomial => (monomial.map assignment).prod)
      constraint.terms fun term => term.containsVar var
    have scaled := weigh_scale (fun monomial => (monomial.map assignment).prod)
      ⟨constraint.terms.filter fun term => !term.containsVar var⟩ (-term.getCoef⁻¹)
    have solution : expression.value assignment = -term.getCoef⁻¹ * (Constraint.mk
        (constraint.terms.filter fun term => !term.containsVar var)).value assignment :=
      (weigh_normalize _ normalized).trans scaled
    have linearTerm : term.weigh (fun monomial => (monomial.map assignment).prod) =
        term.getCoef * assignment var := by
      rw [Term.weigh, monomial, map_singleton, prod_singleton]
    rw [defining, weigh_cons, weigh_nil, add_zero, linearTerm] at whole
    rw [solution, value, show constraint.weigh _ = _ from whole, value]
    constructor
    · intro zero
      field_simp
      linear_combination zero
    · intro solved
      rw [solved]
      field_simp
      ring
  · exact not_mentions_iff.mpr (((others_within constraint var).scale _).normalize normalized)
  · by_contra missing
    have within := (not_mentions_iff.mp missing).filter fun term => !term.containsVar var
    exact not_mentions_iff.mpr ((within.scale _).normalize normalized) occurs

theorem Solved.normalize {expressed : Constraint F} (solved : constraint.Solved var expressed)
    (normalized : expressed.normalize = some expression) : constraint.Solved var expression  where
  value_eq_zero assignment := by
    have same : expression.value assignment = expressed.value assignment :=
      weigh_normalize _ normalized
    rw [same]
    exact solved.value_eq_zero assignment
  not_mentions := not_mentions_iff.mpr
    ((not_mentions_iff.mp solved.not_mentions).normalize normalized)
  mentions := by
    intro other occurs
    by_contra missing
    have absent : ¬ expressed.Mentions other := fun inside => missing (solved.mentions inside)
    exact not_mentions_iff.mpr ((not_mentions_iff.mp absent).normalize normalized) occurs

theorem Within.add {property : Multiset Variable → Prop} {first second sum : Constraint F}
    (left : first.Within property) (right : second.Within property)
    (added : first.add second = some sum) : sum.Within property :=
  (Within.append left right).normalize added

theorem foldlM_mul (terms : List (Term F)) {start : Constraint F}
    (multiplied : terms.foldlM (fun sum existing => do
      let intermediate ← existing.mul factor
      sum.add ⟨[intermediate]⟩) start = some result) :
    (∀ weight, result.weigh weight = start.weigh weight + factor.getCoef *
      (Constraint.mk terms).weigh fun monomial => weight (monomial + factor.monomial)) ∧
    ∀ property : Multiset Variable → Prop, start.Within property →
      (∀ term ∈ terms, property (term.monomial + factor.monomial)) → result.Within property := by
  induction terms generalizing start with
  | nil =>
    cases multiplied
    refine ⟨fun weight => ?_, fun _ within _ => within⟩
    rw [weigh_nil, mul_zero, add_zero]
  | cons term terms ih =>
    obtain ⟨sum, first, multiplied⟩ := bind_eq_some_iff.mp multiplied
    obtain ⟨product, made, added⟩ := bind_eq_some_iff.mp first
    obtain ⟨monomial, coefficient⟩ := mul_spec made
    obtain ⟨weights, within⟩ := ih multiplied
    refine ⟨fun weight => ?_, fun property inStart inTerms => ?_⟩
    · have sumWeight : sum.weigh weight = start.weigh weight + product.weigh weight := by
        rw [weigh_normalize weight added, weigh_append, weigh_cons, weigh_nil, add_zero]
      have productWeight : product.weigh weight = factor.getCoef *
          term.weigh fun monomial => weight (monomial + factor.monomial) := by
        rw [Term.weigh, Term.weigh, monomial, coefficient]
        ring
      rw [weights, sumWeight, productWeight, weigh_cons]
      ring
    · refine within property (Within.add inStart ?_ added) fun other member =>
        inTerms other (List.mem_cons_of_mem _ member)
      intro other member _
      rw [List.mem_singleton.mp member, monomial]
      exact inTerms term List.mem_cons_self

theorem weigh_mulTerm {product : Constraint F}
    (multiplied : constraint.mulTerm factor = some product) (weight : Multiset Variable → F) :
    product.weigh weight = factor.getCoef *
      constraint.weigh fun monomial => weight (monomial + factor.monomial) := by
  obtain ⟨sum, folded, normalized⟩ := bind_eq_some_iff.mp multiplied
  rw [weigh_normalize weight normalized, (foldlM_mul _ folded).1, weigh_empty, zero_add]

theorem mulTerm_spec {product : Constraint F} {coeff : F}
    (multiplied : constraint.mulTerm (.expression coeff [var]) = some product) :
    (∀ assignment, product.value assignment =
      constraint.value assignment * (coeff * assignment var)) ∧
    ∀ property : Multiset Variable → Prop,
      (∀ term ∈ constraint.terms, property (term.monomial + {var})) → product.Within property := by
  refine ⟨fun assignment => ?_, fun property inTerms => ?_⟩
  · have pulled : (fun monomial : Multiset Variable => ((monomial + {var}).map assignment).prod) =
        fun monomial => assignment var * (monomial.map assignment).prod := by
      funext monomial
      rw [Multiset.map_add, prod_add, map_singleton, prod_singleton, mul_comm]
    have product := weigh_mulTerm multiplied fun monomial => (monomial.map assignment).prod
    rw [value, value, product]
    change coeff * constraint.weigh (fun monomial => ((monomial + {var}).map assignment).prod) = _
    rw [pulled, weigh_mul]
    ring
  · obtain ⟨sum, folded, normalized⟩ := bind_eq_some_iff.mp multiplied
    have start : (empty : Constraint F).Within property :=
      fun term member => absurd member List.not_mem_nil
    exact ((foldlM_mul _ folded).2 property start inTerms).normalize normalized

theorem substituteTerm_product {otherVar : Variable} {extra : Constraint F} {coeff : F}
    (different : otherVar ≠ var)
    (multiplied : expression.mulTerm (.expression coeff [otherVar]) = some extra)
    (assignment : Variable → F) :
    extra.value assignment = coeff * ((({var} + {otherVar} : Multiset Variable)).map
      (Function.update assignment var (expression.value assignment))).prod := by
  rw [(mulTerm_spec multiplied).1, Multiset.map_add, prod_add, map_singleton, map_singleton,
    prod_singleton, prod_singleton, Function.update_self, Function.update_of_ne different]
  ring

theorem substituteTerm_spec {extra : Constraint F} (once : term.monomial.count var = 1)
    (substituted : substituteTerm var expression term = some extra) :
    (∀ assignment, extra.value assignment = term.weigh fun monomial =>
      (monomial.map (Function.update assignment var (expression.value assignment))).prod) ∧
    ∃ rest, term.monomial = {var} + rest ∧ rest.card ≤ 1 ∧
      ∀ property : Multiset Variable → Prop, (∀ other ∈ expression.terms,
        other.monomial + rest ≠ 0 → property (other.monomial + rest)) → extra.Within property := by
  match term, once, substituted with
  | .expression coeff [only], once, substituted =>
    have same : only = var := by
      by_contra different
      have absent : (Term.expression coeff [only]).monomial.count var = 0 :=
        count_eq_zero.mpr (by simpa [Term.monomial, Term.asSlice] using Ne.symm different)
      omega
    subst same
    cases substituted
    refine ⟨fun assignment => ?_, 0, (add_zero _).symm, Nat.zero_le _,
      fun property within => ?_⟩
    · rw [value, weigh_scale, Term.weigh]
      have product : ((Term.expression coeff [only]).monomial.map
          (Function.update assignment only (expression.value assignment))).prod =
            expression.value assignment := by
        simp [Term.monomial, Term.asSlice]
      rw [product]
      rfl
    · refine Within.scale (fun other member proper => ?_) coeff
      have all := within other member
      rw [add_zero] at all
      exact all proper
  | .expression coeff [first, second], once, substituted =>
    have pair : (Term.expression coeff [first, second]).monomial = {first} + {second} := rfl
    obtain ⟨otherVar, chosen, substituted⟩ := bind_eq_some_iff.mp substituted
    obtain ⟨-, multiplied⟩ := guard_bind_eq_some substituted
    have split : (Term.expression coeff [first, second]).monomial = {var} + {otherVar} := by
      rw [pair]
      rw [otherVariable] at chosen
      split at chosen
      case isTrue same =>
        cases chosen
        rw [same]
      case isFalse =>
        split at chosen
        case isTrue same =>
          cases chosen
          rw [same, add_comm]
        case isFalse => cases chosen
    have different : otherVar ≠ var := by
      intro same
      rw [split, same, count_add, count_singleton_self] at once
      omega
    refine ⟨fun assignment => ?_, {otherVar}, split, le_refl _, fun property within => ?_⟩
    · rw [substituteTerm_product different multiplied, Term.weigh, split]
      rfl
    · refine (mulTerm_spec multiplied).2 property fun other member => within other member ?_
      intro zero
      have empty := (add_eq_zero.mp zero).2
      exact absurd empty (singleton_ne_zero otherVar)

theorem mapM_spec {α β : Type} {function : α → Option β} {items : List α} {results : List β}
    (mapped : items.mapM function = some results) :
    List.Forall₂ (fun item result => function item = some result) items results := by
  induction items generalizing results with
  | nil =>
    cases mapped
    exact List.Forall₂.nil
  | cons item items ih =>
    rw [List.mapM_cons] at mapped
    obtain ⟨result, first, mapped⟩ := bind_eq_some_iff.mp mapped
    obtain ⟨others, rest, mapped⟩ := bind_eq_some_iff.mp mapped
    cases mapped
    exact List.Forall₂.cons first (ih rest)

theorem foldlM_add (extras : List (Constraint F)) {start : Constraint F}
    (added : extras.foldlM (fun sum extra => do
      let sum ← sum.add extra
      guard (sum.degree ≤ 2)
      some sum) start = some result) :
    (∀ weight, result.weigh weight =
      start.weigh weight + (extras.map (Constraint.weigh weight)).sum) ∧
    ∀ property : Multiset Variable → Prop, start.Within property →
      (∀ extra ∈ extras, extra.Within property) → result.Within property := by
  induction extras generalizing start with
  | nil =>
    cases added
    exact ⟨fun _ => (add_zero _).symm, fun _ within _ => within⟩
  | cons extra extras ih =>
    obtain ⟨middle, first, added⟩ := bind_eq_some_iff.mp added
    obtain ⟨sum, first, checked⟩ := bind_eq_some_iff.mp first
    obtain ⟨-, same⟩ := guard_bind_eq_some checked
    cases same
    obtain ⟨weights, within⟩ := ih added
    refine ⟨fun weight => ?_, fun property inStart inExtras => ?_⟩
    · have total : middle.weigh weight = start.weigh weight + extra.weigh weight :=
        (weigh_normalize weight first).trans (weigh_append weight _ _)
      rw [weights, total, List.map_cons, List.sum_cons, add_assoc]
    · refine within property (inStart.add (inExtras extra List.mem_cons_self) first) ?_
      exact fun other member => inExtras other (List.mem_cons_of_mem _ member)

structure Substituted (constraint : Constraint F) (var : Variable)
    (expression result : Constraint F) : Prop where
  once : constraint.degreeForVar var ≤ 1
  value_eq : ∀ assignment, result.value assignment =
    constraint.value (Function.update assignment var (expression.value assignment))
  normal : result.Normal
  quadratic : result.degree ≤ 2
  not_mentions : ¬ result.Mentions var
  mentions : ∀ {other}, result.Mentions other →
    constraint.Mentions other ∨ expression.Mentions other
  square : ∀ {other}, other ≠ var → ¬ expression.Mentions other →
    result.coefficient {other, other} = constraint.coefficient {other, other}

structure Parts (constraint : Constraint F) (var : Variable) (expression result : Constraint F)
    (extras : List (Constraint F)) : Prop where
  once : ∀ term ∈ constraint.terms, term.monomial.count var ≤ 1
  replaced : List.Forall₂ (fun term extra => substituteTerm var expression term = some extra)
    (constraint.terms.filter fun term => term.containsVar var) extras
  weigh : ∀ weight, result.weigh weight = (Constraint.mk (constraint.terms.filter
    fun term => !term.containsVar var)).weigh weight + (extras.map (Constraint.weigh weight)).sum
  within : ∀ property : Multiset Variable → Prop,
    (Constraint.mk (constraint.terms.filter fun term => !term.containsVar var)).Within property →
    (∀ extra ∈ extras, extra.Within property) → result.Within property
  normal : result.Normal
  quadratic : result.degree ≤ 2

theorem substituteVariable_parts
    (substituted : constraint.substituteVariable var expression = some result) :
    ∃ extras, Parts constraint var expression result extras := by
  obtain ⟨-, substituted⟩ := guard_bind_eq_some substituted
  obtain ⟨once, substituted⟩ := guard_bind_eq_some substituted
  obtain ⟨extras, mapped, substituted⟩ := bind_eq_some_iff.mp substituted
  obtain ⟨sum, added, normalized⟩ := bind_eq_some_iff.mp substituted
  obtain ⟨weights, within⟩ := foldlM_add _ added
  refine ⟨extras, degreeForVar_le.mp once.le, mapM_spec mapped, fun weight => ?_,
    fun property left right => (within property left right).normalize normalized,
    normalize_normal normalized, normalize_degree_le normalized⟩
  rw [weigh_normalize weight normalized, weights]

namespace Parts

variable {constraint expression result : Constraint F} {var : Variable}
  {extras : List (Constraint F)}

variable (parts : Parts constraint var expression result extras)

include parts

theorem count_eq_one {term : Term F}
    (member : term ∈ constraint.terms.filter fun term => term.containsVar var) :
    term.monomial.count var = 1 := by
  obtain ⟨inside, contains⟩ := List.mem_filter.mp member
  have positive := count_pos.mpr (mem_monomial_iff.mpr contains)
  have small := parts.once term inside
  omega

theorem exists_term {extra : Constraint F} (member : extra ∈ extras) :
    ∃ term ∈ constraint.terms.filter fun term => term.containsVar var,
      substituteTerm var expression term = some extra := by
  obtain ⟨index, inside, rfl⟩ := List.mem_iff_getElem.mp member
  have bound : index < (constraint.terms.filter fun term => term.containsVar var).length := by
    rw [parts.replaced.length_eq]
    exact inside
  exact ⟨_, List.getElem_mem bound, parts.replaced.get bound inside⟩

theorem sum_extras (assignment : Variable → F) :
    (extras.map (Constraint.value assignment)).sum = (Constraint.mk (constraint.terms.filter
      fun term => term.containsVar var)).value
        (Function.update assignment var (expression.value assignment)) := by
  have counts : ∀ term ∈ constraint.terms.filter fun term => term.containsVar var,
      term.monomial.count var = 1 := fun _ member => parts.count_eq_one member
  have pairs := parts.replaced
  clear parts
  generalize constraint.terms.filter (fun term => term.containsVar var) = terms at counts pairs ⊢
  induction pairs with
  | nil => rfl
  | cons made pairs ih =>
    rw [List.map_cons, List.sum_cons, ih fun term member =>
      counts term (List.mem_cons_of_mem _ member),
      (substituteTerm_spec (counts _ List.mem_cons_self) made).1]
    exact (weigh_cons _ _ _).symm

theorem extra_within
    {property : Multiset Variable → Prop}
    (products : ∀ term ∈ constraint.terms, ∀ rest, term.monomial = {var} + rest → var ∉ rest →
      rest.card ≤ 1 → ∀ other ∈ expression.terms, other.monomial + rest ≠ 0 →
        property (other.monomial + rest)) {extra : Constraint F} (member : extra ∈ extras) :
    extra.Within property := by
  obtain ⟨term, inside, made⟩ := parts.exists_term member
  have once := parts.count_eq_one inside
  obtain ⟨rest, split, small, within⟩ := (substituteTerm_spec once made).2
  have absent : var ∉ rest := by
    rw [split, count_add, count_singleton_self] at once
    exact count_eq_zero.mp (by omega)
  exact within property (products term (List.mem_filter.mp inside).1 rest split absent small)

theorem value_eq (assignment : Variable → F) : result.value assignment =
      constraint.value (Function.update assignment var (expression.value assignment)) := by
  have split := weigh_partition (fun monomial => (monomial.map
    (Function.update assignment var (expression.value assignment))).prod) constraint.terms
    fun term => term.containsVar var
  have unchanged : (Constraint.mk (constraint.terms.filter
      fun term => !term.containsVar var)).value assignment = (Constraint.mk (constraint.terms.filter
        fun term => !term.containsVar var)).value
          (Function.update assignment var (expression.value assignment)) := by
    refine value_congr fun other mentioned => ?_
    have different : other ≠ var := by
      rintro rfl
      exact not_mentions_iff.mpr (others_within constraint other) mentioned
    rw [Function.update_of_ne different]
  calc result.value assignment
      = (Constraint.mk (constraint.terms.filter fun term => !term.containsVar var)).value
          assignment + (extras.map (Constraint.value assignment)).sum := parts.weigh _
    _ = (Constraint.mk (constraint.terms.filter fun term => term.containsVar var)).value
          (Function.update assignment var (expression.value assignment)) +
        (Constraint.mk (constraint.terms.filter fun term => !term.containsVar var)).value
          (Function.update assignment var (expression.value assignment)) := by
        rw [unchanged, parts.sum_extras, add_comm]
    _ = constraint.value (Function.update assignment var (expression.value assignment)) :=
        split.symm

omit parts

theorem mem_square {first second : Variable} :
    first ∈ ({second, second} : Multiset Variable) ↔ first = second := by
  rw [insert_eq_cons, mem_cons, mem_singleton, or_self]

include parts

theorem square {other : Variable} (different : other ≠ var) (absent : ¬ expression.Mentions other) :
    result.coefficient {other, other} = constraint.coefficient {other, other} := by
  have proper : ({other, other} : Multiset Variable) ≠ 0 := cons_ne_zero
  have split := weigh_partition
    (fun monomial => if monomial = ({other, other} : Multiset Variable) then (1 : F) else 0)
    constraint.terms fun term => term.containsVar var
  have replaced : (Constraint.mk (constraint.terms.filter
      fun term => term.containsVar var)).coefficient {other, other} = 0 := by
    refine coefficient_of_within proper fun term member _ same => different ?_
    have inside := mem_monomial_iff.mpr (List.mem_filter.mp member).2
    rw [same] at inside
    exact (mem_square.mp inside).symm
  have extra : ∀ extra ∈ extras, extra.coefficient {other, other} = 0 := by
    refine fun extra member => coefficient_of_within proper (parts.extra_within ?_ member)
    intro term _ rest _ _ small factor inside _ same
    -- one of the two variables comes from the expression
    have total := congrArg Multiset.card same
    rw [card_add, card_pair] at total
    obtain ⟨var, occurs⟩ := card_pos_iff_exists_mem.mp
      (show 0 < factor.monomial.card by omega)
    have equal : var ∈ ({other, other} : Multiset Variable) := by
      rw [← same]
      exact mem_add.mpr (Or.inl occurs)
    rw [mem_square.mp equal] at occurs
    exact absent ⟨factor, inside, occurs⟩
  have extrasSum : (extras.map (coefficient {other, other})).sum = 0 := by
    rw [List.map_congr_left extra, List.map_const', List.sum_replicate, smul_zero]
  calc result.coefficient {other, other}
      = (Constraint.mk (constraint.terms.filter fun term => !term.containsVar var)).coefficient
          {other, other} + (extras.map (coefficient {other, other})).sum := parts.weigh _
    _ = (Constraint.mk (constraint.terms.filter fun term => term.containsVar var)).coefficient
          {other, other} + (Constraint.mk (constraint.terms.filter
            fun term => !term.containsVar var)).coefficient {other, other} := by
        rw [extrasSum, replaced, add_zero, zero_add]
    _ = constraint.coefficient {other, other} := split.symm

theorem substituted
    (absent : ¬ expression.Mentions var) : Substituted constraint var expression result where
  once := degreeForVar_le.mpr parts.once
  normal := parts.normal
  quadratic := parts.quadratic
  value_eq := parts.value_eq
  not_mentions := by
    refine not_mentions_iff.mpr (parts.within _ (others_within constraint var)
      fun extra member => parts.extra_within ?_ member)
    intro term _ rest _ missing _ other inside _ occurs
    rcases mem_add.mp occurs with inOther | inRest
    · exact absent ⟨other, inside, inOther⟩
    · exact missing inRest
  mentions := by
    intro other occurs
    by_contra neither
    rw [not_or] at neither
    refine not_mentions_iff.mpr (parts.within _ ((not_mentions_iff.mp neither.1).filter _)
      fun extra member => parts.extra_within ?_ member) occurs
    intro term member rest split _ _ factor inside _ appears
    rcases mem_add.mp appears with inFactor | inRest
    · exact neither.2 ⟨factor, inside, inFactor⟩
    · refine neither.1 ⟨term, member, ?_⟩
      rw [split]
      exact mem_add.mpr (Or.inr inRest)
  square := parts.square

end Parts

end Constraint

end Airbender.OneRowCompiler

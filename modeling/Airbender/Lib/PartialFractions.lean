import Mathlib

/-!
# Sums of reciprocals

Reciprocals of denominators that homomorphisms tell apart are linearly independent, so two lists
with the same sum of reciprocals are permutations of each other, as long as no key occurs as often
as the characteristic.
-/

namespace PartialFractions

set_option autoImplicit false

open List Finset

variable {ι R S K : Type} [DecidableEq ι] [CommRing R] [CommRing S] [IsDomain S] [Field K]
  [Algebra R K] [IsFractionRing R K]

/-- A homomorphism under which one denominator vanishes and all others do not. -/
structure Separates (denominator : ι → R) (key : ι) (separator : R →+* S) : Prop where
  vanishes : separator (denominator key) = 0
  others : ∀ other, other ≠ key → separator (denominator other) ≠ 0

theorem weight_eq_zero {denominator : ι → R} (nonzero : ∀ key, denominator key ≠ 0)
    {support : Finset ι} {weight : ι → R}
    (sum : ∑ key ∈ support, algebraMap R K (weight key) / algebraMap R K (denominator key) = 0)
    {key : ι} (member : key ∈ support) {separator : R →+* S}
    (separates : Separates denominator key separator) : separator (weight key) = 0 := by
  have nonzeroK : ∀ other, algebraMap R K (denominator other) ≠ 0 := fun other zero =>
    nonzero other ((map_eq_zero_iff _ (IsFractionRing.injective R K)).mp zero)
  -- Multiply by all denominators.
  have cleared : ∑ other ∈ support, weight other * ∏ rest ∈ support.erase other,
      denominator rest = 0 := by
    apply IsFractionRing.injective R K
    rw [map_sum, map_zero, ← mul_zero (∏ other ∈ support, algebraMap R K (denominator other)),
      ← sum, mul_sum]
    refine sum_congr rfl fun other inside => ?_
    rw [map_mul, map_prod, ← mul_prod_erase support _ inside]
    field_simp [nonzeroK other]
  -- All summands but one contain the denominator that vanishes.
  have image := congrArg separator cleared
  rw [map_sum, map_zero, sum_eq_single_of_mem key member] at image
  · rw [map_mul, map_prod] at image
    refine (mul_eq_zero.mp image).resolve_right (prod_ne_zero_iff.mpr fun rest inside => ?_)
    exact separates.others rest (ne_of_mem_erase inside)
  · intro other _ different
    rw [map_mul, map_prod, Finset.prod_eq_zero (mem_erase.mpr ⟨different.symm, member⟩)
      separates.vanishes, mul_zero]

theorem sum_map_eq_count {support : Finset ι} {keys : List ι}
    (inside : ∀ key ∈ keys, key ∈ support) (value : ι → K) :
    (keys.map value).sum = ∑ key ∈ support, (keys.count key : K) * value key := by
  have subset : keys.toFinset ⊆ support := fun key member => inside key (mem_toFinset.mp member)
  rw [sum_list_map_count]
  simp only [nsmul_eq_mul]
  refine sum_subset subset fun key _ absent => ?_
  have none : keys.count key = 0 := count_eq_zero.mpr fun member => absent (mem_toFinset.mpr member)
  rw [none, Nat.cast_zero, zero_mul]

theorem perm_of_sum_eq {denominator : ι → R} (nonzero : ∀ key, denominator key ≠ 0)
    {left right : List ι}
    (sums : (left.map fun key => (algebraMap R K (denominator key))⁻¹).sum =
      (right.map fun key => (algebraMap R K (denominator key))⁻¹).sum)
    (separated : ∀ key, ∃ separator : R →+* S, Separates denominator key separator)
    {p : ℕ} [CharP S p] (leftFew : ∀ key, left.count key < p)
    (rightFew : ∀ key, right.count key < p) : left.Perm right := by
  have weighted : ∑ key ∈ (left ++ right).toFinset,
      algebraMap R K ((left.count key : R) - (right.count key : R)) /
        algebraMap R K (denominator key) = 0 := by
    rw [sum_map_eq_count (fun key member => mem_toFinset.mpr (mem_append_left right member)),
      sum_map_eq_count (fun key member => mem_toFinset.mpr (mem_append_right left member)),
      ← sub_eq_zero, ← sum_sub_distrib] at sums
    rw [← sums]
    refine sum_congr rfl fun key _ => ?_
    rw [map_sub, map_natCast, map_natCast, div_eq_mul_inv, sub_mul]
  rw [perm_iff_count]
  intro key
  by_cases member : key ∈ left ++ right
  · obtain ⟨separator, separates⟩ := separated key
    have zero := weight_eq_zero nonzero weighted (mem_toFinset.mpr member) separates
    rw [map_sub, map_natCast, map_natCast, sub_eq_zero] at zero
    exact CharP.natCast_injOn_Iio S p (leftFew key) (rightFew key) zero
  · rw [mem_append, not_or] at member
    rw [count_eq_zero.mpr member.1, count_eq_zero.mpr member.2]

end PartialFractions

import Airbender.Field.Extension
import Airbender.Lib.BitReverse

/-!
# Roots of unity

The generator of the subgroup of order `2^31` of the complex extension, its powers, and the
twiddles in bit-reversed order that folding reads.
-/

namespace Airbender

open BitReverse

namespace Mersenne31Quartic

def fromBase (element : Mersenne31Complex) : Mersenne31Quartic := ⟨element, 0⟩

def mulByComplex (element : Mersenne31Quartic) (scalar : Mersenne31Complex) :
    Mersenne31Quartic := ⟨element.c0 * scalar, element.c1 * scalar⟩

def fusedMulAdd (element a b : Mersenne31Quartic) : Mersenne31Quartic := element * a + b

theorem mulByComplex_eq (element : Mersenne31Quartic) (scalar : Mersenne31Complex) :
    element.mulByComplex scalar = element * fromBase scalar := by
  ext1 <;> simp [mulByComplex, fromBase]

def ofComplex : Mersenne31Complex →+* Mersenne31Quartic where
  toFun := fromBase
  map_one' := rfl
  map_zero' := rfl
  map_mul' left right := by ext1 <;> simp [fromBase]
  map_add' left right := by ext1 <;> simp [fromBase]

@[simp] theorem fromBase_eq (element : Mersenne31Complex) :
    fromBase element = ofComplex element := rfl

end Mersenne31Quartic

namespace Mersenne31Complex

theorem inverse_eq_some {element other : Mersenne31Complex} (unit : element * other = 1) :
    element.inverse = some other := by
  have norm : (element.c0 * element.c0 + element.c1 * element.c1) *
      (other.c0 * other.c0 + other.c1 * other.c1) = 1 := by
    have real := congrArg c0 unit
    have imaginary := congrArg c1 unit
    simp only [mul_c0, mul_c1, one_c0, one_c1] at real imaginary
    linear_combination (element.c0 * other.c0 - element.c1 * other.c1 + 1) * real +
      (element.c0 * other.c1 + element.c1 * other.c0) * imaginary
  have nonzero : element.c0 * element.c0 + element.c1 * element.c1 ≠ 0 := by
    intro zero
    rw [zero, zero_mul] at norm
    exact zero_ne_one norm
  obtain ⟨inverted, found⟩ : ∃ inverted, element.inverse = some inverted :=
    ⟨_, (inverse_eq element).trans (if_neg nonzero)⟩
  have same : inverted = other := by
    calc inverted = (element * other) * inverted := by rw [unit, one_mul]
      _ = other * (element * inverted) := by ring
      _ = other := by rw [mul_inverse found, mul_one]
  rw [found, same]

def twoAdicGenerator : Mersenne31Complex := ⟨311014874, 1584694829⟩

/-- `TWO_ADICITY_GENERATORS`, by the logarithm of the size of the domain. -/
def twoAdicityGenerators (sizeLog2 : ℕ) : Mersenne31Complex :=
  squareTimes (31 - sizeLog2) twoAdicGenerator

/-- `TWO_ADICITY_GENERATORS_INVERSED`; all generators have an inverse. -/
def twoAdicityGeneratorsInversed (sizeLog2 : ℕ) : Mersenne31Complex :=
  (twoAdicityGenerators sizeLog2).inverse.getD 0

def squareRepresentatives (element : ℕ × ℕ) : ℕ × ℕ :=
  ((element.1 * element.1 + (2147483647 - element.2) * element.2) % 2147483647,
    2 * element.1 * element.2 % 2147483647)

def ofRepresentatives (element : ℕ × ℕ) : Mersenne31Complex := ⟨element.1, element.2⟩

theorem ofRepresentatives_square {element : ℕ × ℕ} (bounded : element.2 ≤ 2147483647) :
    ofRepresentatives (squareRepresentatives element) =
      ofRepresentatives element * ofRepresentatives element := by
  ext
  · simp only [ofRepresentatives, squareRepresentatives, mul_c0, ZMod.natCast_mod]
    push_cast [bounded]
    have zero : ((2147483647 : ℕ) : Mersenne31Field) = 0 := ZMod.natCast_self _
    push_cast at zero
    rw [zero]
    ring
  · simp only [ofRepresentatives, squareRepresentatives, mul_c1, ZMod.natCast_mod]
    push_cast
    ring

theorem ofRepresentatives_squareTimes (count : ℕ) {element : ℕ × ℕ}
    (bounded : element.2 ≤ 2147483647) :
    squareTimes count (ofRepresentatives element) =
      ofRepresentatives (squareRepresentatives^[count] element) := by
  induction count generalizing element with
  | zero => rfl
  | succ count ih =>
    have next : (squareRepresentatives element).2 ≤ 2147483647 :=
      le_of_lt (Nat.mod_lt _ (by decide))
    rw [squareTimes, ← ofRepresentatives_square bounded, ih next, Function.iterate_succ_apply]

theorem twoAdicityGenerators_one : twoAdicityGenerators 1 = -1 := by
  have start : twoAdicGenerator = ofRepresentatives (311014874, 1584694829) := rfl
  have last : squareRepresentatives^[30] (311014874, 1584694829) = (2147483646, 0) := by decide
  have minusOne : ((2147483646 : ℕ) : Mersenne31Field) = -1 := by
    rw [eq_neg_iff_add_eq_zero]
    exact_mod_cast ZMod.natCast_self 2147483647
  rw [twoAdicityGenerators, start, ofRepresentatives_squareTimes _ (by decide), last,
    ofRepresentatives]
  ext
  · exact minusOne
  · simp

variable {sizeLog2 : ℕ}

theorem twoAdicityGenerators_pow (extra : ℕ) (bound : sizeLog2 + extra ≤ 31) :
    twoAdicityGenerators (sizeLog2 + extra) ^ 2 ^ extra = twoAdicityGenerators sizeLog2 := by
  rw [twoAdicityGenerators, twoAdicityGenerators, squareTimes_eq, squareTimes_eq, ← pow_mul,
    ← pow_add]
  congr 2
  omega

theorem twoAdicityGenerators_half (bound : sizeLog2 + 1 ≤ 31) :
    twoAdicityGenerators (sizeLog2 + 1) ^ 2 ^ sizeLog2 = -1 := by
  rw [← twoAdicityGenerators_one, Nat.add_comm]
  exact twoAdicityGenerators_pow sizeLog2 (by omega)

theorem twoAdicityGenerators_order (bound : sizeLog2 ≤ 31) :
    twoAdicityGenerators sizeLog2 ^ 2 ^ sizeLog2 = 1 := by
  cases sizeLog2 with
  | zero =>
    have one := twoAdicityGenerators_pow 1 (show 0 + 1 ≤ 31 by decide)
    rw [Nat.zero_add, twoAdicityGenerators_one, pow_one, neg_one_sq] at one
    rw [pow_zero, pow_one, ← one]
  | succ sizeLog2 => rw [pow_succ, pow_mul, twoAdicityGenerators_half bound, neg_one_sq]

theorem twoAdicityGenerators_unit (bound : sizeLog2 ≤ 31) :
    twoAdicityGeneratorsInversed sizeLog2 * twoAdicityGenerators sizeLog2 = 1 := by
  have order := twoAdicityGenerators_order bound
  have positive : 2 ^ sizeLog2 = 2 ^ sizeLog2 - 1 + 1 :=
    (Nat.sub_add_cancel Nat.one_le_two_pow).symm
  rw [positive, pow_succ'] at order
  rw [twoAdicityGeneratorsInversed, inverse_eq_some order, Option.getD_some, mul_comm]
  exact order

theorem twoAdicityGeneratorsInversed_pow (extra : ℕ) (bound : sizeLog2 + extra ≤ 31) :
    twoAdicityGeneratorsInversed (sizeLog2 + extra) ^ 2 ^ extra =
      twoAdicityGeneratorsInversed sizeLog2 := by
  have large := twoAdicityGenerators_unit bound
  have small := twoAdicityGenerators_unit (show sizeLog2 ≤ 31 by omega)
  have power : twoAdicityGeneratorsInversed (sizeLog2 + extra) ^ 2 ^ extra *
      twoAdicityGenerators sizeLog2 = 1 := by
    rw [← twoAdicityGenerators_pow extra bound, ← mul_pow, large, one_pow]
  calc twoAdicityGeneratorsInversed (sizeLog2 + extra) ^ 2 ^ extra
      = twoAdicityGeneratorsInversed (sizeLog2 + extra) ^ 2 ^ extra *
          (twoAdicityGeneratorsInversed sizeLog2 * twoAdicityGenerators sizeLog2) := by
        rw [small, mul_one]
    _ = twoAdicityGeneratorsInversed sizeLog2 := by rw [mul_left_comm, power, mul_one]

/-- `precompute_inverse_twiddles_for_fft`: half of the powers of the inverse generator, in
bit-reversed order. -/
def inverseTwiddles (sizeLog2 : ℕ) : List Mersenne31Complex :=
  bitReversed (sizeLog2 - 1) ((List.range (2 ^ (sizeLog2 - 1))).map
    fun exponent => twoAdicityGeneratorsInversed sizeLog2 ^ exponent)

theorem getD_inverseTwiddles {index : ℕ} (bound : index < 2 ^ (sizeLog2 - 1)) :
    (inverseTwiddles sizeLog2).getD index 0 =
      twoAdicityGeneratorsInversed sizeLog2 ^ bitReverse (sizeLog2 - 1) index := by
  rw [List.getD_eq_getElem?_getD, inverseTwiddles, getElem?_bitReversed (by simp) bound,
    List.getElem?_map, List.getElem?_range (bitReverse_lt _ _)]
  rfl

theorem getD_inverseTwiddles_prefix {smaller index : ℕ} (fits : smaller + 1 ≤ sizeLog2)
    (large : sizeLog2 ≤ 31) (bound : index < 2 ^ smaller) :
    (inverseTwiddles sizeLog2).getD index 0 =
      twoAdicityGeneratorsInversed (smaller + 1) ^ bitReverse smaller index := by
  obtain ⟨extra, rfl⟩ := Nat.exists_eq_add_of_le fits
  have width : smaller + 1 + extra - 1 = extra + smaller := by omega
  have inside : index < 2 ^ (smaller + 1 + extra - 1) := by
    rw [width]
    exact lt_of_lt_of_le bound (Nat.pow_le_pow_right Nat.two_pos (by omega))
  rw [getD_inverseTwiddles inside, width, bitReverse_extend extra smaller bound, mul_comm, pow_mul,
    twoAdicityGeneratorsInversed_pow extra large]

end Mersenne31Complex

end Airbender

import Airbender.Field.Mersenne31

/-!
# The extension fields

`Mersenne31Complex` adjoins a square root of `-1` to the base field and `Mersenne31Quartic` a square
root of `2 + i` to that, with the multiplications of the source.
-/

namespace Airbender

/-- `exp_power_of_2`. -/
def squareTimes {R : Type} [Mul R] : ℕ → R → R
  | 0, element => element
  | count + 1, element => squareTimes count (element * element)

theorem squareTimes_eq {R : Type} [CommRing R] (count : ℕ) (element : R) :
    squareTimes count element = element ^ 2 ^ count := by
  induction count generalizing element with
  | zero => rw [squareTimes, pow_zero, pow_one]
  | succ count ih => rw [squareTimes, ih, ← sq, ← pow_mul, ← pow_succ']

namespace Mersenne31Field

/-- `inverse_impl`: the power with exponent `2^31 - 3`; the names spell the exponents in binary. -/
def inverse (element : Mersenne31Field) : Option Mersenne31Field :=
  if element = 0 then none
  else
    let p101 := squareTimes 2 element * element
    let p1111 := p101 * p101 * p101
    let p11111111 := squareTimes 4 p1111 * p1111
    let p111111110000 := squareTimes 4 p11111111
    let p111111111111 := p111111110000 * p1111
    let p1111111111111111 := squareTimes 4 p111111110000 * p11111111
    let p1111111111111111111111111111 := squareTimes 12 p1111111111111111 * p111111111111
    some (squareTimes 3 p1111111111111111111111111111 * p101)

theorem pow_eq_inv {element : Mersenne31Field} (nonzero : element ≠ 0) :
    element ^ 2147483645 = element⁻¹ := by
  apply eq_inv_of_mul_eq_one_left
  rw [← pow_succ]
  exact ZMod.pow_card_sub_one_eq_one nonzero

theorem inverse_eq (element : Mersenne31Field) :
    inverse element = if element = 0 then none else some element⁻¹ := by
  unfold inverse
  split_ifs with zero
  · rfl
  · simp only [squareTimes_eq, ← pow_succ, ← pow_mul, ← pow_add]
    exact congrArg some (pow_eq_inv zero)

theorem eq_zero_of_squares {x y : Mersenne31Field} (sum : x * x + y * y = 0) : x = 0 ∧ y = 0 := by
  have second : y = 0 := by
    by_contra nonzero
    apply ZMod.mod_four_ne_three_of_sq_eq_neg_sq' nonzero (x := x)
    · linear_combination sum
    · rfl
  rw [second, mul_zero, add_zero] at sum
  exact ⟨mul_self_eq_zero.mp sum, second⟩

theorem five_not_square : ¬ IsSquare (5 : Mersenne31Field) := by
  have nonResidue : ¬ IsSquare (2 : ZMod 5) := by decide
  have five : Fact (Nat.Prime 5) := ⟨by norm_num⟩
  have reciprocity := ZMod.exists_sq_eq_prime_iff_of_mod_four_eq_one (p := 5) (q := 2147483647)
    rfl (by norm_num)
  have residue : ((2147483647 : ℕ) : ZMod 5) = 2 := rfl
  rw [residue] at reciprocity
  intro square
  exact nonResidue (reciprocity.mpr square)

end Mersenne31Field

open Mersenne31Field

@[ext] structure Mersenne31Complex where
  c0 : Mersenne31Field
  c1 : Mersenne31Field
deriving DecidableEq

namespace Mersenne31Complex

instance : Zero Mersenne31Complex := ⟨⟨0, 0⟩⟩

instance : One Mersenne31Complex := ⟨⟨1, 0⟩⟩

instance : Add Mersenne31Complex := ⟨fun a b => ⟨a.c0 + b.c0, a.c1 + b.c1⟩⟩

instance : Sub Mersenne31Complex := ⟨fun a b => ⟨a.c0 - b.c0, a.c1 - b.c1⟩⟩

instance : Neg Mersenne31Complex := ⟨fun a => ⟨-a.c0, -a.c1⟩⟩

instance : Mul Mersenne31Complex :=
  ⟨fun a b =>
    let v0 := a.c0 * b.c0
    let v1 := a.c1 * b.c1
    ⟨v0 - v1, (a.c1 + a.c0) * (b.c0 + b.c1) - v0 - v1⟩⟩

@[simp] theorem zero_c0 : (0 : Mersenne31Complex).c0 = 0 := rfl

@[simp] theorem zero_c1 : (0 : Mersenne31Complex).c1 = 0 := rfl

@[simp] theorem one_c0 : (1 : Mersenne31Complex).c0 = 1 := rfl

@[simp] theorem one_c1 : (1 : Mersenne31Complex).c1 = 0 := rfl

variable (a : Mersenne31Complex)

variable (b : Mersenne31Complex)

@[simp] theorem add_c0 : (a + b).c0 = a.c0 + b.c0 := rfl

@[simp] theorem add_c1 : (a + b).c1 = a.c1 + b.c1 := rfl

@[simp] theorem sub_c0 : (a - b).c0 = a.c0 - b.c0 := rfl

@[simp] theorem sub_c1 : (a - b).c1 = a.c1 - b.c1 := rfl

@[simp] theorem neg_c0 : (-a).c0 = -a.c0 := rfl

@[simp] theorem neg_c1 : (-a).c1 = -a.c1 := rfl

@[simp] theorem mul_c0 : (a * b).c0 = a.c0 * b.c0 - a.c1 * b.c1 := rfl

@[simp] theorem mul_c1 : (a * b).c1 = a.c0 * b.c1 + a.c1 * b.c0 := by
  change (a.c1 + a.c0) * (b.c0 + b.c1) - a.c0 * b.c0 - a.c1 * b.c1 = _
  ring

instance : CommRing Mersenne31Complex where
  add_assoc a b c := by ext <;> simp [add_assoc]
  zero_add a := by ext <;> simp
  add_zero a := by ext <;> simp
  add_comm a b := by ext <;> simp [add_comm]
  neg_add_cancel a := by ext <;> simp
  sub_eq_add_neg a b := by ext <;> simp [sub_eq_add_neg]
  left_distrib a b c := by ext <;> simp <;> ring
  right_distrib a b c := by ext <;> simp <;> ring
  zero_mul a := by ext <;> simp
  mul_zero a := by ext <;> simp
  mul_assoc a b c := by ext <;> simp <;> ring
  one_mul a := by ext <;> simp
  mul_one a := by ext <;> simp
  mul_comm a b := by ext <;> simp <;> ring
  nsmul := nsmulRec
  zsmul := zsmulRec

/-- `mul_by_non_residue`: the product with `2 + i`. -/
def mulByNonResidue (element : Mersenne31Complex) : Mersenne31Complex :=
  ⟨element.c0 + element.c0 - element.c1, element.c1 + element.c1 + element.c0⟩

theorem mulByNonResidue_eq (element : Mersenne31Complex) :
    element.mulByNonResidue = element * ⟨2, 1⟩ := by
  ext <;> simp [mulByNonResidue] <;> ring

def inverse (element : Mersenne31Complex) : Option Mersenne31Complex :=
  let norm := element.c0 * element.c0 + element.c1 * element.c1
  (Mersenne31Field.inverse norm).map fun inverted =>
    ⟨element.c0 * inverted, -(element.c1 * inverted)⟩

theorem inverse_eq (element : Mersenne31Complex) :
    element.inverse = if element.c0 * element.c0 + element.c1 * element.c1 = 0 then none
      else some ⟨element.c0 * (element.c0 * element.c0 + element.c1 * element.c1)⁻¹,
        -(element.c1 * (element.c0 * element.c0 + element.c1 * element.c1)⁻¹)⟩ := by
  rw [inverse, Mersenne31Field.inverse_eq]
  split_ifs <;> rfl

theorem mul_inverse {element inverted : Mersenne31Complex}
    (found : element.inverse = some inverted) : element * inverted = 1 := by
  rw [inverse_eq] at found
  split_ifs at found with nonzero
  · have same := Option.some.inj found
    subst same
    ext
    · simp only [mul_c0, one_c0]
      rw [mul_neg, sub_neg_eq_add, ← mul_assoc, ← mul_assoc, ← add_mul, mul_inv_cancel₀ nonzero]
    · simp only [mul_c1, one_c1]
      ring

theorem inverse_eq_none_iff (element : Mersenne31Complex) :
    element.inverse = none ↔ element = 0 := by
  constructor
  · intro missing
    simp only [inverse_eq, ite_eq_left_iff, reduceCtorEq, imp_false, not_not] at missing
    obtain ⟨first, second⟩ := eq_zero_of_squares missing
    exact Mersenne31Complex.ext first second
  · rintro rfl
    rfl

end Mersenne31Complex

@[ext] structure Mersenne31Quartic where
  c0 : Mersenne31Complex
  c1 : Mersenne31Complex
deriving DecidableEq

namespace Mersenne31Quartic

open Mersenne31Complex (mulByNonResidue mulByNonResidue_eq)

instance : Zero Mersenne31Quartic := ⟨⟨0, 0⟩⟩

instance : One Mersenne31Quartic := ⟨⟨1, 0⟩⟩

instance : Add Mersenne31Quartic := ⟨fun a b => ⟨a.c0 + b.c0, a.c1 + b.c1⟩⟩

instance : Sub Mersenne31Quartic := ⟨fun a b => ⟨a.c0 - b.c0, a.c1 - b.c1⟩⟩

instance : Neg Mersenne31Quartic := ⟨fun a => ⟨-a.c0, -a.c1⟩⟩

instance : Mul Mersenne31Quartic :=
  ⟨fun a b =>
    let v0 := a.c0 * b.c0
    let v1 := a.c1 * b.c1
    ⟨v0 + v1.mulByNonResidue, (a.c1 + a.c0) * (b.c0 + b.c1) - v0 - v1⟩⟩

@[simp] theorem zero_c0 : (0 : Mersenne31Quartic).c0 = 0 := rfl

@[simp] theorem zero_c1 : (0 : Mersenne31Quartic).c1 = 0 := rfl

@[simp] theorem one_c0 : (1 : Mersenne31Quartic).c0 = 1 := rfl

@[simp] theorem one_c1 : (1 : Mersenne31Quartic).c1 = 0 := rfl

variable (a : Mersenne31Quartic)

variable (b : Mersenne31Quartic)

@[simp] theorem add_c0 : (a + b).c0 = a.c0 + b.c0 := rfl

@[simp] theorem add_c1 : (a + b).c1 = a.c1 + b.c1 := rfl

@[simp] theorem sub_c0 : (a - b).c0 = a.c0 - b.c0 := rfl

@[simp] theorem sub_c1 : (a - b).c1 = a.c1 - b.c1 := rfl

@[simp] theorem neg_c0 : (-a).c0 = -a.c0 := rfl

@[simp] theorem neg_c1 : (-a).c1 = -a.c1 := rfl

@[simp] theorem mul_c0 : (a * b).c0 = a.c0 * b.c0 + a.c1 * b.c1 * ⟨2, 1⟩ := by
  change a.c0 * b.c0 + (a.c1 * b.c1).mulByNonResidue = _
  rw [mulByNonResidue_eq]

@[simp] theorem mul_c1 : (a * b).c1 = a.c0 * b.c1 + a.c1 * b.c0 := by
  change (a.c1 + a.c0) * (b.c0 + b.c1) - a.c0 * b.c0 - a.c1 * b.c1 = _
  ring

instance : CommRing Mersenne31Quartic where
  add_assoc a b c := by ext1 <;> simp only [add_c0, add_c1, add_assoc]
  zero_add a := by ext1 <;> simp
  add_zero a := by ext1 <;> simp
  add_comm a b := by ext1 <;> simp only [add_c0, add_c1, add_comm]
  neg_add_cancel a := by ext1 <;> simp
  sub_eq_add_neg a b := by ext1 <;> simp [sub_eq_add_neg]
  left_distrib a b c := by ext1 <;> simp only [add_c0, add_c1, mul_c0, mul_c1] <;> ring
  right_distrib a b c := by ext1 <;> simp only [add_c0, add_c1, mul_c0, mul_c1] <;> ring
  zero_mul a := by ext1 <;> simp
  mul_zero a := by ext1 <;> simp
  mul_assoc a b c := by ext1 <;> simp only [mul_c0, mul_c1] <;> ring
  one_mul a := by ext1 <;> simp
  mul_one a := by ext1 <;> simp
  mul_comm a b := by ext1 <;> simp only [mul_c0, mul_c1] <;> ring
  nsmul := nsmulRec
  zsmul := zsmulRec

def mulByBase (element : Mersenne31Quartic) (scalar : Mersenne31Field) : Mersenne31Quartic :=
  ⟨⟨element.c0.c0 * scalar, element.c0.c1 * scalar⟩,
    ⟨element.c1.c0 * scalar, element.c1.c1 * scalar⟩⟩

def fromCoeffsInBase (c0 c1 c2 c3 : Mersenne31Field) : Mersenne31Quartic := ⟨⟨c0, c1⟩, ⟨c2, c3⟩⟩

def inverse (element : Mersenne31Quartic) : Option Mersenne31Quartic :=
  let norm := element.c0 * element.c0 - (element.c1 * element.c1).mulByNonResidue
  norm.inverse.map fun inverted => ⟨element.c0 * inverted, -(element.c1 * inverted)⟩

theorem mul_inverse {element inverted : Mersenne31Quartic}
    (found : element.inverse = some inverted) : element * inverted = 1 := by
  obtain ⟨factor, normInverse, rfl⟩ := Option.map_eq_some_iff.mp found
  have cancels := Mersenne31Complex.mul_inverse normInverse
  rw [mulByNonResidue_eq] at cancels
  ext1
  · simp only [mul_c0, one_c0]
    rw [← cancels]
    ring
  · simp only [mul_c1, one_c1]
    ring

/-- The non-residue has no square root: otherwise `5`, its norm, would be a square. -/
theorem eq_zero_of_norm {element : Mersenne31Quartic}
    (norm : element.c0 * element.c0 - (element.c1 * element.c1).mulByNonResidue = 0) :
    element = 0 := by
  obtain ⟨⟨x, y⟩, ⟨u, v⟩⟩ := element
  have first := congrArg Mersenne31Complex.c0 norm
  have second := congrArg Mersenne31Complex.c1 norm
  simp [mulByNonResidue] at first second
  have norms : (x * x + y * y) * (x * x + y * y) =
      5 * ((u * u + v * v) * (u * u + v * v)) := by
    linear_combination (x * x - y * y + 2 * (u * u - v * v) - 2 * u * v) * first +
      (2 * x * y + u * u - v * v + 4 * u * v) * second
  by_cases zero : u * u + v * v = 0
  · rw [zero, mul_zero, mul_zero] at norms
    obtain ⟨rfl, rfl⟩ := eq_zero_of_squares zero
    obtain ⟨rfl, rfl⟩ := eq_zero_of_squares (mul_self_eq_zero.mp norms)
    rfl
  · refine absurd ⟨(x * x + y * y) / (u * u + v * v), ?_⟩ five_not_square
    rw [div_mul_div_comm, norms, mul_div_cancel_right₀ _ (mul_ne_zero zero zero)]

/-- Every element but zero has an inverse, and it is the one that is computed. -/
theorem inverse_correct (element : Mersenne31Quartic) :
    (element.inverse = none ↔ element = 0) ∧
      ∀ inverted, element.inverse = some inverted ↔ element * inverted = 1 := by
  have missing : element.inverse = none ↔ element = 0 := by
    rw [inverse, Option.map_eq_none_iff, Mersenne31Complex.inverse_eq_none_iff]
    constructor
    · exact eq_zero_of_norm
    · rintro rfl
      rfl
  refine ⟨missing, fun inverted => ⟨mul_inverse, fun product => ?_⟩⟩
  cases found : element.inverse with
  | none =>
    rw [missing.mp found, zero_mul] at product
    exact absurd product (by decide)
  | some other =>
    have cancels := mul_inverse found
    rw [Option.some.injEq, ← mul_one other, ← product]
    linear_combination inverted * cancels

end Mersenne31Quartic

end Airbender

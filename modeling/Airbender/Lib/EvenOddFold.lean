import Mathlib

/-!
# Folding polynomials by their even and odd parts

A polynomial `f(X) = e(X²) + X · o(X²)` is folded to `e + c · o`. Two opposite values and the
inverse of their point give twice the value of the folded polynomial.
-/

namespace EvenOddFold

open Polynomial

set_option autoImplicit false

variable {R : Type} [CommRing R]

noncomputable def evenPart (f : R[X]) : R[X] := contract 2 f

noncomputable def oddPart (f : R[X]) : R[X] := contract 2 f.divX

theorem split (f : R[X]) : expand R 2 (evenPart f) + X * expand R 2 (oddPart f) = f := by
  ext index
  have coefficient : ∀ (g : R[X]) (n : ℕ), (expand R 2 (contract 2 g)).coeff n =
      if 2 ∣ n then g.coeff n else 0 := by
    intro g n
    rw [coeff_expand Nat.two_pos]
    split
    case isTrue even => rw [coeff_contract two_ne_zero, Nat.div_mul_cancel even]
    case isFalse => rfl
  rw [coeff_add, evenPart, oddPart, coefficient]
  cases index with
  | zero => simp
  | succ index =>
    rw [coeff_X_mul, coefficient, coeff_divX]
    by_cases even : 2 ∣ index
    · rw [if_pos even, if_neg (by omega), zero_add]
    · rw [if_neg even, if_pos (by omega), add_zero]

theorem eval_split (f : R[X]) (x : R) :
    f.eval x = (evenPart f).eval (x ^ 2) + x * (oddPart f).eval (x ^ 2) := by
  conv_lhs => rw [← split f]
  rw [eval_add, eval_mul, eval_X, expand_eval, expand_eval]

noncomputable def fold (challenge : R) (f : R[X]) : R[X] :=
  evenPart f + C challenge * oddPart f

/-- Fold `rounds` times, with a challenge that is squared from round to round. -/
noncomputable def foldMany (challenge : R) (f : R[X]) : ℕ → R[X]
  | 0 => f
  | round + 1 => fold (challenge ^ 2 ^ round) (foldMany challenge f round)

theorem fold_pair (challenge : R) (f : R[X]) {point root : R} (inverse : root * point = 1) :
    (f.eval point - f.eval (-point)) * root * challenge + f.eval point + f.eval (-point) =
      2 * (fold challenge f).eval (point ^ 2) := by
  rw [eval_split f point, eval_split f (-point), neg_sq, fold, eval_add, eval_mul, eval_C]
  linear_combination 2 * (oddPart f).eval (point ^ 2) * challenge * inverse

theorem fold_rounds {value root point : ℕ → ℕ → R} {challenge : R} {f : R[X]} {rounds : ℕ}
    (step : ∀ round < rounds, ∀ index < 2 ^ (rounds - round - 1),
      value (round + 1) index =
        (value round (2 * index) - value round (2 * index + 1)) * root round index *
          challenge ^ 2 ^ round + value round (2 * index) + value round (2 * index + 1))
    (opposite : ∀ round < rounds, ∀ index < 2 ^ (rounds - round - 1),
      point round (2 * index + 1) = -point round (2 * index))
    (squared : ∀ round < rounds, ∀ index < 2 ^ (rounds - round - 1),
      point (round + 1) index = point round (2 * index) ^ 2)
    (inverse : ∀ round < rounds, ∀ index < 2 ^ (rounds - round - 1),
      root round index * point round (2 * index) = 1)
    (codeword : ∀ index < 2 ^ rounds, value 0 index = f.eval (point 0 index)) :
    ∀ round ≤ rounds, ∀ index < 2 ^ (rounds - round),
      value round index = 2 ^ round * (foldMany challenge f round).eval (point round index) := by
  intro round
  induction round with
  | zero =>
    intro _ index bound
    rw [pow_zero, one_mul]
    exact codeword index bound
  | succ round ih =>
    intro inside index bound
    have half : index < 2 ^ (rounds - round - 1) := by
      rw [Nat.sub_sub]
      exact bound
    have double : 2 ^ (rounds - round) = 2 * 2 ^ (rounds - round - 1) := by
      rw [← pow_succ']
      congr 1
      omega
    have left := ih (by omega) (2 * index) (by omega)
    have right := ih (by omega) (2 * index + 1) (by omega)
    rw [opposite round inside index half] at right
    have folded := fold_pair (challenge ^ 2 ^ round) (foldMany challenge f round)
      (inverse round inside index half)
    rw [step round inside index half, squared round inside index half, left, right, foldMany,
      pow_succ]
    linear_combination 2 ^ round * folded

end EvenOddFold

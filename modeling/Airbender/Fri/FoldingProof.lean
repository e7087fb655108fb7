import Airbender.Fri.Folding
import Airbender.Lib.EvenOddFold

/-!
# Prover and verifier fold alike

Both sides combine opposite values with the inverse of their point: the prover finds it among the
twiddles, the verifier computes it from the position of the query. The common recurrence folds the
polynomial.
-/

namespace Airbender.Fri

open BitReverse EvenOddFold Polynomial Mersenne31Complex Mersenne31Quartic List

/-- Values that are folded by pairs in `rounds` rounds. -/
def FoldedBy (rounds : ℕ) (root : ℕ → ℕ → Mersenne31Complex) (challenge : Mersenne31Quartic)
    (value : ℕ → Buffer) : Prop :=
  ∀ round < rounds, ∀ index < 2 ^ (rounds - round - 1),
    value (round + 1) index =
      (value round (2 * index) - value round (2 * index + 1)) * ofComplex (root round index) *
        challenge ^ 2 ^ round + value round (2 * index) + value round (2 * index + 1)

theorem two_pow_sub {rounds round : ℕ} (inside : round < rounds) :
    2 ^ (rounds - round) = 2 * 2 ^ (rounds - round - 1) := by
  rw [← pow_succ']
  congr 1
  omega

theorem FoldedBy.unique {rounds : ℕ} {root : ℕ → ℕ → Mersenne31Complex}
    {challenge : Mersenne31Quartic} {value other : ℕ → Buffer}
    (folded : FoldedBy rounds root challenge value)
    (otherFolded : FoldedBy rounds root challenge other)
    (start : ∀ index < 2 ^ rounds, value 0 index = other 0 index) :
    ∀ round ≤ rounds, ∀ index < 2 ^ (rounds - round), value round index = other round index := by
  intro round
  induction round with
  | zero => exact fun _ => start
  | succ round ih =>
    intro inside index bound
    have half : index < 2 ^ (rounds - round - 1) := by
      rw [Nat.sub_sub]
      exact bound
    have double := two_pow_sub inside
    rw [folded round inside index half, otherFolded round inside index half,
      ih (by omega) (2 * index) (by omega), ih (by omega) (2 * index + 1) (by omega)]

section

variable (sizeLog2 degreeLog2 : ℕ) (tau tauInv : Mersenne31Complex) (leafIndex : ℕ)

def leafPoint (round index : ℕ) : Mersenne31Complex :=
  tau ^ 2 ^ round * twoAdicityGenerators (sizeLog2 - round) ^
    bitReverse (sizeLog2 - round) (leafIndex * 2 ^ (degreeLog2 - round) + index)

def pairRoot (round index : ℕ) : Mersenne31Complex :=
  tauInv ^ 2 ^ round * twoAdicityGeneratorsInversed (sizeLog2 - round) ^
    bitReverse (sizeLog2 - round - 1) (leafIndex * 2 ^ (degreeLog2 - round - 1) + index)

variable {sizeLog2 degreeLog2 tau tauInv leafIndex} {round : ℕ}

theorem bitReverse_pair (fits : degreeLog2 ≤ sizeLog2) (inside : round < degreeLog2) (index : ℕ) :
    bitReverse (sizeLog2 - round) (leafIndex * 2 ^ (degreeLog2 - round) + 2 * index) =
      bitReverse (sizeLog2 - round - 1)
        (leafIndex * 2 ^ (degreeLog2 - round - 1) + index) := by
  have double : leafIndex * 2 ^ (degreeLog2 - round) + 2 * index =
      2 * (leafIndex * 2 ^ (degreeLog2 - round - 1) + index) := by
    rw [two_pow_sub inside]
    ring
  have width : sizeLog2 - round = sizeLog2 - round - 1 + 1 := by omega
  rw [double]
  conv_lhs => rw [width]
  exact bitReverse_two_mul _ _

theorem leafPoint_opposite (large : sizeLog2 ≤ 31) (fits : degreeLog2 ≤ sizeLog2)
    (inside : round < degreeLog2) (index : ℕ) :
    leafPoint sizeLog2 degreeLog2 tau leafIndex round (2 * index + 1) =
      -leafPoint sizeLog2 degreeLog2 tau leafIndex round (2 * index) := by
  have double : leafIndex * 2 ^ (degreeLog2 - round) + (2 * index + 1) =
      2 * (leafIndex * 2 ^ (degreeLog2 - round - 1) + index) + 1 := by
    rw [two_pow_sub inside]
    ring
  have exponent : bitReverse (sizeLog2 - round)
        (leafIndex * 2 ^ (degreeLog2 - round) + (2 * index + 1)) =
      2 ^ (sizeLog2 - round - 1) + bitReverse (sizeLog2 - round - 1)
        (leafIndex * 2 ^ (degreeLog2 - round - 1) + index) := by
    have width : sizeLog2 - round = sizeLog2 - round - 1 + 1 := by omega
    rw [double]
    conv_lhs => rw [width]
    exact bitReverse_two_mul_add_one _ _
  have half : twoAdicityGenerators (sizeLog2 - round) ^ 2 ^ (sizeLog2 - round - 1) = -1 := by
    have width : sizeLog2 - round = sizeLog2 - round - 1 + 1 := by omega
    conv_lhs => rw [width]
    exact twoAdicityGenerators_half (by omega)
  rw [leafPoint, leafPoint, exponent, bitReverse_pair fits inside, pow_add, half]
  ring

theorem leafPoint_squared (large : sizeLog2 ≤ 31) (fits : degreeLog2 ≤ sizeLog2)
    (inside : round < degreeLog2) (index : ℕ) :
    leafPoint sizeLog2 degreeLog2 tau leafIndex (round + 1) index =
      leafPoint sizeLog2 degreeLog2 tau leafIndex round (2 * index) ^ 2 := by
  have square : twoAdicityGenerators (sizeLog2 - round) ^ 2 =
      twoAdicityGenerators (sizeLog2 - round - 1) := by
    have width : sizeLog2 - round = sizeLog2 - round - 1 + 1 := by omega
    conv_lhs => rw [width]
    exact twoAdicityGenerators_pow 1 (by omega)
  rw [leafPoint, leafPoint, bitReverse_pair fits inside, ← Nat.sub_sub, ← Nat.sub_sub, mul_pow,
    ← pow_mul, ← pow_succ, ← square, ← pow_mul, ← pow_mul, Nat.mul_comm 2]

theorem pairRoot_inverse (large : sizeLog2 ≤ 31) (fits : degreeLog2 ≤ sizeLog2)
    (inside : round < degreeLog2) (inverse : tauInv * tau = 1) (index : ℕ) :
    pairRoot sizeLog2 degreeLog2 tauInv leafIndex round index *
      leafPoint sizeLog2 degreeLog2 tau leafIndex round (2 * index) = 1 := by
  rw [pairRoot, leafPoint, bitReverse_pair fits inside, mul_mul_mul_comm, ← mul_pow, ← mul_pow,
    inverse, twoAdicityGenerators_unit (by omega), one_pow, one_pow, one_mul]

end

section

variable (adjustment : Option Mersenne31Complex) (twiddles : List Mersenne31Complex)
  (tauInv : Mersenne31Complex) (challenge : Mersenne31Quartic) (start : Buffer × ℕ)

def proverState (rounds : ℕ) : Buffer × ℕ :=
  (List.range rounds).foldl (foldLeafRound adjustment twiddles tauInv challenge) start

theorem proverState_succ (rounds : ℕ) :
    proverState adjustment twiddles tauInv challenge start (rounds + 1) =
      foldLeafRound adjustment twiddles tauInv challenge
        (proverState adjustment twiddles tauInv challenge start rounds) rounds := by
  rw [proverState, range_succ, foldl_append]
  rfl

theorem proverState_index (rounds : ℕ) :
    (proverState adjustment twiddles tauInv challenge start rounds).2 = start.2 / 2 ^ rounds := by
  induction rounds with
  | zero => exact (Nat.div_one _).symm
  | succ rounds ih =>
    rw [proverState_succ, pow_succ, ← Nat.div_div_eq_div_mul, ← ih]
    rfl

theorem foldValues_eq (twiddle tauInv : Mersenne31Complex) (challenge a b : Mersenne31Quartic) :
    foldValues twiddle tauInv challenge a b =
      (a - b) * ofComplex (tauInv * twiddle) * challenge + a + b := by
  rw [foldValues, mulByComplex_eq, mulByComplex_eq, fromBase_eq, fromBase_eq, map_mul]
  ring

theorem twiddle_eq_pairRoot {sizeLog2 degreeLog2 domainLog2 leafIndex round index : ℕ}
    {tauInv : Mersenne31Complex} (large : domainLog2 ≤ 31) (nested : sizeLog2 ≤ domainLog2)
    (fits : degreeLog2 ≤ sizeLog2) (leaf : leafIndex < 2 ^ (sizeLog2 - degreeLog2))
    (inside : round < degreeLog2) (bound : index < 2 ^ (degreeLog2 - round - 1)) :
    tauInv ^ 2 ^ round * (inverseTwiddles domainLog2).getD
        (leafIndex * 2 ^ degreeLog2 / 2 / 2 ^ round + index) 0 =
      pairRoot sizeLog2 degreeLog2 tauInv leafIndex round index := by
  have first : leafIndex * 2 ^ degreeLog2 / 2 / 2 ^ round =
      leafIndex * 2 ^ (degreeLog2 - round - 1) := by
    have parts : 2 ^ degreeLog2 = 2 ^ (degreeLog2 - round - 1) * (2 * 2 ^ round) := by
      rw [← pow_succ', ← pow_add]
      congr 1
      omega
    rw [Nat.div_div_eq_div_mul, parts, ← Nat.mul_assoc,
      Nat.mul_div_cancel _ (Nat.mul_pos Nat.two_pos (Nat.two_pow_pos _))]
  have inDomain :
      leafIndex * 2 ^ (degreeLog2 - round - 1) + index < 2 ^ (sizeLog2 - round - 1) := by
    have total : 2 ^ (sizeLog2 - round - 1) =
        2 ^ (sizeLog2 - degreeLog2) * 2 ^ (degreeLog2 - round - 1) := by
      rw [← pow_add]
      congr 1
      omega
    have next := Nat.mul_le_mul_right (2 ^ (degreeLog2 - round - 1)) (Nat.succ_le_of_lt leaf)
    rw [Nat.succ_mul] at next
    omega
  have width : sizeLog2 - round = sizeLog2 - round - 1 + 1 := by omega
  rw [first, getD_inverseTwiddles_prefix (by omega) large inDomain, pairRoot, ← width]

end

theorem proverState_folded {sizeLog2 degreeLog2 domainLog2 leafIndex : ℕ}
    (large : domainLog2 ≤ 31) (nested : sizeLog2 ≤ domainLog2) (fits : degreeLog2 ≤ sizeLog2)
    (leaf : leafIndex < 2 ^ (sizeLog2 - degreeLog2)) (tauInv : Mersenne31Complex)
    (challenge : Mersenne31Quartic) (buffer : Buffer) :
    FoldedBy degreeLog2 (pairRoot sizeLog2 degreeLog2 tauInv leafIndex) challenge fun round =>
      (proverState none (inverseTwiddles domainLog2) tauInv challenge
        (buffer, leafIndex * 2 ^ degreeLog2 / 2) round).1 := by
  intro round inside index bound
  dsimp only
  rw [proverState_succ, ← twiddle_eq_pairRoot large nested fits leaf inside bound]
  simp only [foldLeafRound, foldValues_eq, proverState_index, squareTimes_eq]

section

variable {ρ : Type} [CommRing ρ] (degreeLog2 : ℕ)
  (combine : ℕ → ρ → Mersenne31Quartic → Mersenne31Quartic → Mersenne31Quartic)
  (roots : ℕ → ρ) (leaf : Buffer)

def verifierState (rounds : ℕ) : (ℕ → ρ) × Buffer :=
  (List.range rounds).foldl (foldRound degreeLog2 combine) (roots, leaf)

theorem verifierState_succ (rounds : ℕ) :
    verifierState degreeLog2 combine roots leaf (rounds + 1) =
      foldRound degreeLog2 combine (verifierState degreeLog2 combine roots leaf rounds)
        rounds := by
  rw [verifierState, range_succ, foldl_append]
  rfl

theorem verifierState_roots {round : ℕ} (inside : round < degreeLog2) {index : ℕ}
    (bound : index < 2 ^ (degreeLog2 - round - 1)) :
    (verifierState degreeLog2 combine roots leaf (round + 1)).1 (index * 2 ^ round) =
      roots (index * 2 ^ round) ^ 2 ^ round := by
  induction round generalizing index with
  | zero =>
    rw [pow_zero, pow_one]
    rfl
  | succ round ih =>
    have double := two_pow_sub (show round + 1 < degreeLog2 from inside)
    have before := @ih (by omega) (2 * index) (by
      rw [Nat.sub_sub, double]
      omega)
    have place : 2 * index * 2 ^ round = index * 2 ^ (round + 1) := by
      rw [pow_succ]
      ring
    rw [place] at before
    have used : index * 2 ^ (round + 1) % 2 ^ (round + 1) = 0 ∧
        index * 2 ^ (round + 1) / 2 ^ (round + 1) < 2 ^ (degreeLog2 - (round + 1) - 1) := by
      rw [Nat.mul_mod_left, Nat.mul_div_cancel _ (Nat.two_pow_pos _)]
      exact ⟨rfl, bound⟩
    rw [verifierState_succ, foldRound]
    dsimp only
    rw [if_pos (Nat.succ_pos round), remapRoots, if_pos used, before, ← sq, ← pow_mul, ← pow_succ]

variable {degreeLog2 combine roots leaf}

theorem verifierState_folded {root : ℕ → ℕ → Mersenne31Complex} {challenge : Mersenne31Quartic}
    (combined : ∀ round < degreeLog2, ∀ index < 2 ^ (degreeLog2 - round - 1), ∀ a b,
      combine round (roots (index * 2 ^ round) ^ 2 ^ round) a b =
        (a - b) * ofComplex (root round index) * challenge ^ 2 ^ round + a + b) :
    FoldedBy degreeLog2 root challenge fun round =>
      (verifierState degreeLog2 combine roots leaf round).2 := by
  intro round inside index bound
  dsimp only
  rw [← combined round inside index bound, ← verifierState_roots degreeLog2 combine roots leaf
    inside bound, verifierState_succ]
  rfl

end

theorem getD_sharedFactors {index : ℕ} (bound : index < 16) :
    sharedFactorsForFolding.getD index 0 =
      twoAdicityGeneratorsInversed 5 ^ bitReverse 4 index := by
  have table : sharedFactorsForFolding =
      (List.range 16).map fun index => twoAdicityGeneratorsInversed 5 ^ bitReverse 4 index := by
    unfold sharedFactorsForFolding
    generalize twoAdicityGeneratorsInversed 5 = generator
    have indices : List.range 16 = [0, 1, 2, 3, 4, 5, 6, 7, 8, 9, 10, 11, 12, 13, 14, 15] := rfl
    simp only [indices, foldl_cons, foldl_nil, bitReverse, map_cons, map_nil]
    simp [pow_succ, pow_zero]
  rw [table, getD_eq_getElem?_getD, getElem?_map, getElem?_range bound]
  rfl

theorem sharedFactor_eq_pairRoot {sizeLog2 degreeLog2 leafIndex round index : ℕ}
    {tauInv : Mersenne31Complex} (large : sizeLog2 ≤ 31) (small : degreeLog2 ≤ 5)
    (fits : degreeLog2 ≤ sizeLog2) (inside : round < degreeLog2)
    (bound : index < 2 ^ (degreeLog2 - round - 1)) :
    (sharedFactorsForFolding.getD (index * 2 ^ round) 0 *
        (twoAdicityGeneratorsInversed sizeLog2 ^ bitReverse (sizeLog2 - degreeLog2) leafIndex *
          tauInv)) ^ 2 ^ round =
      pairRoot sizeLog2 degreeLog2 tauInv leafIndex round index := by
  have half : index * 2 ^ round < 2 ^ (degreeLog2 - 1) := by
    have total : 2 ^ (degreeLog2 - 1) = 2 ^ (degreeLog2 - round - 1) * 2 ^ round := by
      rw [← pow_add]
      congr 1
      omega
    rw [total]
    exact Nat.mul_lt_mul_of_pos_right bound (Nat.two_pow_pos _)
  have table : index * 2 ^ round < 16 :=
    lt_of_lt_of_le half (Nat.pow_le_pow_right Nat.two_pos (by omega : degreeLog2 - 1 ≤ 4))
  -- The digits of the index in the table, of the index in the leaf and of the leaf.
  have digits : bitReverse 4 (index * 2 ^ round) =
      bitReverse (degreeLog2 - round - 1) index * 2 ^ (5 - degreeLog2) := by
    have narrow := bitReverse_extend (5 - degreeLog2) (degreeLog2 - 1) half
    have shifted := bitReverse_join (degreeLog2 - round - 1) round index (Nat.two_pow_pos round)
    have width : degreeLog2 - round - 1 + round = degreeLog2 - 1 := by omega
    have four : 5 - degreeLog2 + (degreeLog2 - 1) = 4 := by omega
    rw [bitReverse_zero, Nat.zero_mul, Nat.zero_add, Nat.add_zero, width] at shifted
    rw [four, shifted] at narrow
    exact narrow
  have joined : bitReverse (sizeLog2 - round - 1)
        (leafIndex * 2 ^ (degreeLog2 - round - 1) + index) =
      bitReverse (degreeLog2 - round - 1) index * 2 ^ (sizeLog2 - degreeLog2) +
        bitReverse (sizeLog2 - degreeLog2) leafIndex := by
    have width : sizeLog2 - round - 1 = sizeLog2 - degreeLog2 + (degreeLog2 - round - 1) := by omega
    rw [width]
    exact bitReverse_join _ _ _ bound
  have fromTable : twoAdicityGeneratorsInversed 5 ^ 2 ^ (5 - degreeLog2) =
      twoAdicityGeneratorsInversed degreeLog2 := by
    have width : 5 = degreeLog2 + (5 - degreeLog2) := by omega
    conv_lhs => rw [width]
    rw [Nat.add_sub_cancel_left]
    exact twoAdicityGeneratorsInversed_pow _ (by omega)
  have later : ∀ size, round ≤ size → size ≤ 31 →
      twoAdicityGeneratorsInversed size ^ 2 ^ round =
        twoAdicityGeneratorsInversed (size - round) := by
    intro size started bounded
    have width : size = size - round + round := by omega
    conv_lhs => rw [width]
    exact twoAdicityGeneratorsInversed_pow _ (by omega)
  have inLeaf : twoAdicityGeneratorsInversed (sizeLog2 - round) ^ 2 ^ (sizeLog2 - degreeLog2) =
      twoAdicityGeneratorsInversed (degreeLog2 - round) := by
    have width : sizeLog2 - round = degreeLog2 - round + (sizeLog2 - degreeLog2) := by omega
    conv_lhs => rw [width]
    exact twoAdicityGeneratorsInversed_pow _ (by omega)
  rw [getD_sharedFactors table, digits, Nat.mul_comm, pow_mul, fromTable, pairRoot, joined,
    pow_add, Nat.mul_comm _ (2 ^ (sizeLog2 - degreeLog2)), pow_mul, inLeaf,
    ← later degreeLog2 (by omega) (by omega), ← later sizeLog2 (by omega) large]
  ring

def coefficients (element : Mersenne31Quartic) : List Mersenne31Field :=
  [element.c0.c0, element.c0.c1, element.c1.c0, element.c1.c1]

theorem leafValue_flatMap (values : List Mersenne31Quartic) {index : ℕ}
    (bound : index < values.length) :
    leafValue (values.flatMap coefficients) index = values.getD index 0 := by
  induction values generalizing index with
  | nil => exact absurd bound (Nat.not_lt_zero _)
  | cons value values ih =>
    cases index with
    | zero => rfl
    | succ index => exact ih (Nat.lt_of_succ_lt_succ bound)

/-- A codeword on a coset of a two-adic domain, together with the inverse of its offset. -/
structure Codeword where
  sizeLog2 : ℕ
  source : CosetBoundTrace
  tauInv : Mersenne31Complex
  supported : sizeLog2 ≤ 31
  size : source.trace.length = 2 ^ sizeLog2
  inverse : source.tau.inverse = some tauInv

namespace Codeword

variable (codeword : Codeword)

def point (position : ℕ) : Mersenne31Complex :=
  codeword.source.tau * twoAdicityGenerators codeword.sizeLog2 ^
    bitReverse codeword.sizeLog2 position

def EvaluatesTo (f : Mersenne31Quartic[X]) : Prop :=
  ∀ position < 2 ^ codeword.sizeLog2,
    codeword.source.trace.getD position 0 = f.eval (ofComplex (codeword.point position))

def leaf (degreeLog2 leafIndex : ℕ) : List Mersenne31Field :=
  ((List.range (2 ^ degreeLog2)).map fun index =>
    codeword.source.trace.getD (leafIndex * 2 ^ degreeLog2 + index) 0).flatMap coefficients

/-- The state of a verifier that has arrived at a position of the codeword. -/
def stateAt (position : ℕ) : FoldState where
  expectedValue := codeword.source.trace.getD position 0
  evaluationPoint := codeword.point position
  domainSizeLog2 := codeword.sizeLog2
  domainIndex := bitReverse codeword.sizeLog2 position
  treeIndex := position
  offsetInv := codeword.tauInv

theorem leafValue_leaf {degreeLog2 leafIndex index : ℕ} (bound : index < 2 ^ degreeLog2) :
    leafValue (codeword.leaf degreeLog2 leafIndex) index =
      codeword.source.trace.getD (leafIndex * 2 ^ degreeLog2 + index) 0 := by
  rw [leaf, leafValue_flatMap _ (by simpa using bound), getD_eq_getElem?_getD,
    getElem?_map, getElem?_range bound]
  rfl

theorem tauInv_mul : codeword.tauInv * codeword.source.tau = 1 := by
  rw [mul_comm]
  exact mul_inverse codeword.inverse

theorem sharedBits_eq {degreeLog2 position : ℕ} (fits : degreeLog2 ≤ codeword.sizeLog2) :
    bitReverse codeword.sizeLog2 position % 2 ^ (codeword.sizeLog2 - degreeLog2) =
      bitReverse (codeword.sizeLog2 - degreeLog2) (position / 2 ^ degreeLog2) := by
  have joined := bitReverse_join (codeword.sizeLog2 - degreeLog2) degreeLog2
    (position / 2 ^ degreeLog2) (Nat.mod_lt position (Nat.two_pow_pos degreeLog2))
  rw [Nat.sub_add_cancel fits, Nat.div_add_mod'] at joined
  rw [joined, Nat.mul_add_mod', Nat.mod_eq_of_lt (bitReverse_lt _ _)]

end Codeword

theorem guard_and_bind {α : Type} {condition : Prop} [Decidable condition] (holds : condition)
    (next : Unit → Option α) : (guard condition >>= next) = next () := by
  rw [guard, if_pos holds]
  rfl

section

variable {codeword : Codeword} {degreeLog2 domainLog2 position : ℕ}
  (challenge : Mersenne31Quartic)

def storedValue (codeword : Codeword) (degreeLog2 domainLog2 leafIndex : ℕ)
    (challenge : Mersenne31Quartic) : Mersenne31Quartic :=
  foldLeaf false degreeLog2 codeword.source (inverseTwiddles domainLog2) codeword.tauInv
    challenge leafIndex

theorem leafIndex_lt (fits : degreeLog2 ≤ codeword.sizeLog2)
    (inside : position < 2 ^ codeword.sizeLog2) :
    position / 2 ^ degreeLog2 < 2 ^ (codeword.sizeLog2 - degreeLog2) := by
  rw [Nat.div_lt_iff_lt_mul (Nat.two_pow_pos _), ← pow_add, Nat.sub_add_cancel fits]
  exact inside

theorem foldRounds_eq {ρ : Type} [CommRing ρ]
    {combine : ℕ → ρ → Mersenne31Quartic → Mersenne31Quartic → Mersenne31Quartic}
    {roots : ℕ → ρ} {challenge : Mersenne31Quartic} (large : domainLog2 ≤ 31)
    (nested : codeword.sizeLog2 ≤ domainLog2) (fits : degreeLog2 ≤ codeword.sizeLog2)
    {leafIndex : ℕ} (leaf : leafIndex < 2 ^ (codeword.sizeLog2 - degreeLog2))
    (combined : ∀ round < degreeLog2, ∀ index < 2 ^ (degreeLog2 - round - 1), ∀ a b,
      combine round (roots (index * 2 ^ round) ^ 2 ^ round) a b =
        (a - b) * ofComplex (pairRoot codeword.sizeLog2 degreeLog2 codeword.tauInv leafIndex
          round index) * challenge ^ 2 ^ round + a + b) :
    foldRounds degreeLog2 combine roots (leafValue (codeword.leaf degreeLog2 leafIndex)) =
      storedValue codeword degreeLog2 domainLog2 leafIndex challenge := by
  have prover := proverState_folded large nested fits leaf codeword.tauInv challenge
    (fun index => codeword.source.trace.getD (leafIndex * 2 ^ degreeLog2 + index) 0)
  have verifier := @verifierState_folded ρ _ degreeLog2 combine roots
    (leafValue (codeword.leaf degreeLog2 leafIndex)) _ _ combined
  exact verifier.unique prover (fun index bound => codeword.leafValue_leaf bound) degreeLog2
    (le_refl _) 0 (Nat.two_pow_pos _)

theorem combineWithChallenge_eq (small : degreeLog2 ≤ 5) (root : Mersenne31Complex) {round : ℕ}
    (inside : round < degreeLog2) (a b : Mersenne31Quartic) :
    combineWithChallenge false ((List.range 5).map fun power => squareTimes power challenge)
        round root a b = (a - b) * ofComplex root * challenge ^ 2 ^ round + a + b := by
  have power : ((List.range 5).map fun power => squareTimes power challenge).getD round 0 =
      challenge ^ 2 ^ round := by
    rw [getD_eq_getElem?_getD, getElem?_map, getElem?_range (by omega), ← squareTimes_eq]
    rfl
  simp only [combineWithChallenge, power, mulByComplex_eq, fromBase_eq]
  rfl

theorem combineWithFma_eq (root : Mersenne31Complex) (round : ℕ) (a b : Mersenne31Quartic) :
    combineWithFma round (ofComplex root * challenge ^ 2 ^ round) a b =
      (a - b) * ofComplex root * challenge ^ 2 ^ round + a + b := by
  simp only [combineWithFma, fusedMulAdd]
  ring

theorem verifierFold_eq (preferFma : Bool) (positive : 0 < degreeLog2) (small : degreeLog2 ≤ 5)
    (large : domainLog2 ≤ 31) (nested : codeword.sizeLog2 ≤ domainLog2)
    (fits : degreeLog2 ≤ codeword.sizeLog2) (inside : position < 2 ^ codeword.sizeLog2) :
    verifierFold preferFma degreeLog2 (codeword.stateAt position)
        (codeword.leaf degreeLog2 (position / 2 ^ degreeLog2)) challenge =
      some ((codeword.stateAt position).next degreeLog2 (storedValue codeword degreeLog2
        domainLog2 (position / 2 ^ degreeLog2) challenge)) := by
  have leaf := leafIndex_lt fits inside
  have expected : (codeword.stateAt position).expectedValue =
      leafValue (codeword.leaf degreeLog2 (position / 2 ^ degreeLog2))
        ((codeword.stateAt position).treeIndex % 2 ^ degreeLog2) := by
    rw [codeword.leafValue_leaf (Nat.mod_lt _ (Nat.two_pow_pos _))]
    change _ = codeword.source.trace.getD
      (position / 2 ^ degreeLog2 * 2 ^ degreeLog2 + position % 2 ^ degreeLog2) 0
    rw [Nat.div_add_mod']
    rfl
  have sharedBits : (codeword.stateAt position).domainIndex %
      2 ^ ((codeword.stateAt position).domainSizeLog2 - degreeLog2) =
        bitReverse (codeword.sizeLog2 - degreeLog2) (position / 2 ^ degreeLog2) :=
    codeword.sharedBits_eq fits
  have root : ∀ round < degreeLog2, ∀ index < 2 ^ (degreeLog2 - round - 1),
      (sharedFactorsForFolding.getD (index * 2 ^ round) 0 *
        (twoAdicityGeneratorsInversed codeword.sizeLog2 ^
          bitReverse (codeword.sizeLog2 - degreeLog2) (position / 2 ^ degreeLog2) *
            codeword.tauInv)) ^ 2 ^ round =
        pairRoot codeword.sizeLog2 degreeLog2 codeword.tauInv (position / 2 ^ degreeLog2) round
          index :=
    fun round started index bound =>
      sharedFactor_eq_pairRoot codeword.supported small fits started bound
  cases preferFma with
  | false =>
    rw [verifierFold, if_neg (by decide), friFoldByLogN, guard_and_bind ⟨positive, small⟩,
      guard_and_bind expected]
    refine congrArg (fun value => some ((codeword.stateAt position).next degreeLog2 value)) ?_
    refine foldRounds_eq large nested fits leaf fun round started index bound a b => ?_
    rw [combineWithChallenge_eq challenge small _ started, ← root round started index bound,
      sharedBits]
    rfl
  | true =>
    rw [verifierFold, if_pos rfl, friFoldByLogNWithFma, guard_and_bind ⟨positive, small⟩,
      guard_and_bind expected, sharedBits]
    refine congrArg (fun value => some ((codeword.stateAt position).next degreeLog2 value)) ?_
    refine foldRounds_eq large nested fits leaf fun round started index bound a b => ?_
    rw [← combineWithFma_eq challenge _ round, ← root round started index bound]
    refine congrArg (combineWithFma round · a b) ?_
    rw [map_pow, ← mul_pow]
    refine congrArg (· ^ 2 ^ round) ?_
    change fusedMulAdd (fusedMulAdd ((ofComplex (twoAdicityGeneratorsInversed codeword.sizeLog2) ^
      bitReverse (codeword.sizeLog2 - degreeLog2) (position / 2 ^ degreeLog2)).mulByComplex
        codeword.tauInv) (fromBase (sharedFactorsForFolding.getD (index * 2 ^ round) 0)) 0)
      challenge 0 = _
    simp only [fusedMulAdd, mulByComplex_eq, fromBase_eq, map_mul, map_pow]
    ring

theorem foldByLogN_eq (positive : 0 < degreeLog2) (small : degreeLog2 ≤ 5)
    (nested : codeword.sizeLog2 ≤ domainLog2) :
    foldByLogN false degreeLog2 codeword.source (inverseTwiddles domainLog2) challenge =
      some
        { trace := (List.range (codeword.source.trace.length / 2 ^ degreeLog2)).map fun leafIndex =>
            storedValue codeword degreeLog2 domainLog2 leafIndex challenge
          tau := squareTimes degreeLog2 codeword.source.tau } := by
  have powerOfTwo : 2 ^ codeword.source.trace.length.log2 = codeword.source.trace.length := by
    rw [codeword.size, Nat.log2_two_pow]
  have enough : codeword.source.trace.length / 2 ≤ (inverseTwiddles domainLog2).length := by
    have half : codeword.source.trace.length / 2 ≤ 2 ^ (codeword.sizeLog2 - 1) := by
      rw [codeword.size]
      cases codeword.sizeLog2 with
      | zero => decide
      | succ sizeLog2 => rw [pow_succ, Nat.mul_div_cancel _ Nat.two_pos, Nat.add_sub_cancel]
    rw [inverseTwiddles, length_bitReversed (by simp)]
    exact le_trans half (Nat.pow_le_pow_right Nat.two_pos (by omega))
  rw [foldByLogN, guard_and_bind ⟨positive, small⟩, guard_and_bind powerOfTwo, codeword.inverse,
    Option.bind_eq_bind, Option.bind_some, guard_and_bind enough]
  rfl

theorem point_pow (fits : degreeLog2 ≤ codeword.sizeLog2) :
    codeword.point position ^ 2 ^ degreeLog2 =
      leafPoint codeword.sizeLog2 degreeLog2 codeword.source.tau (position / 2 ^ degreeLog2)
        degreeLog2 0 := by
  have joined := bitReverse_join (codeword.sizeLog2 - degreeLog2) degreeLog2
    (position / 2 ^ degreeLog2) (Nat.mod_lt position (Nat.two_pow_pos degreeLog2))
  rw [Nat.sub_add_cancel fits, Nat.div_add_mod'] at joined
  have smaller : twoAdicityGenerators codeword.sizeLog2 ^ 2 ^ degreeLog2 =
      twoAdicityGenerators (codeword.sizeLog2 - degreeLog2) := by
    have supported := codeword.supported
    have width : codeword.sizeLog2 = codeword.sizeLog2 - degreeLog2 + degreeLog2 := by omega
    conv_lhs => rw [width]
    exact twoAdicityGenerators_pow _ (by omega)
  have around : twoAdicityGenerators (codeword.sizeLog2 - degreeLog2) ^
      2 ^ (codeword.sizeLog2 - degreeLog2) = 1 :=
    twoAdicityGenerators_order (le_trans (Nat.sub_le _ _) codeword.supported)
  rw [Codeword.point, leafPoint, mul_pow, joined, ← pow_mul, Nat.mul_comm _ (2 ^ degreeLog2),
    pow_mul, smaller, pow_add, Nat.mul_comm _ (2 ^ (codeword.sizeLog2 - degreeLog2)), pow_mul,
    around, one_pow, one_mul, Nat.sub_self, pow_zero, Nat.mul_one, Nat.add_zero]

theorem storedValue_eval {f : Mersenne31Quartic[X]} (values : codeword.EvaluatesTo f)
    (large : domainLog2 ≤ 31) (nested : codeword.sizeLog2 ≤ domainLog2)
    (fits : degreeLog2 ≤ codeword.sizeLog2) (inside : position < 2 ^ codeword.sizeLog2) :
    storedValue codeword degreeLog2 domainLog2 (position / 2 ^ degreeLog2) challenge =
      2 ^ degreeLog2 * (foldMany challenge f degreeLog2).eval
        (ofComplex (codeword.point position) ^ 2 ^ degreeLog2) := by
  have leaf := leafIndex_lt fits inside
  have supported := codeword.supported
  have points : ∀ index < 2 ^ degreeLog2,
      codeword.source.trace.getD (position / 2 ^ degreeLog2 * 2 ^ degreeLog2 + index) 0 =
        f.eval (ofComplex (leafPoint codeword.sizeLog2 degreeLog2 codeword.source.tau
          (position / 2 ^ degreeLog2) 0 index)) := by
    intro index bound
    have within : position / 2 ^ degreeLog2 * 2 ^ degreeLog2 + index < 2 ^ codeword.sizeLog2 := by
      have next := Nat.mul_le_mul_right (2 ^ degreeLog2) (Nat.succ_le_of_lt leaf)
      rw [Nat.succ_mul, ← pow_add, Nat.sub_add_cancel fits] at next
      omega
    rw [values _ within, leafPoint, Codeword.point, pow_zero, pow_one, Nat.sub_zero, Nat.sub_zero]
  have folded := proverState_folded large nested fits leaf codeword.tauInv challenge
    (fun index => codeword.source.trace.getD
      (position / 2 ^ degreeLog2 * 2 ^ degreeLog2 + index) 0)
  have result := @fold_rounds Mersenne31Quartic _
    (fun round => (proverState none (inverseTwiddles domainLog2) codeword.tauInv challenge
      (fun index => codeword.source.trace.getD
        (position / 2 ^ degreeLog2 * 2 ^ degreeLog2 + index) 0,
        position / 2 ^ degreeLog2 * 2 ^ degreeLog2 / 2) round).1)
    (fun round index => ofComplex (pairRoot codeword.sizeLog2 degreeLog2 codeword.tauInv
      (position / 2 ^ degreeLog2) round index))
    (fun round index => ofComplex (leafPoint codeword.sizeLog2 degreeLog2 codeword.source.tau
      (position / 2 ^ degreeLog2) round index)) challenge f degreeLog2 folded
    (fun round started index _ => by rw [leafPoint_opposite supported fits started, map_neg])
    (fun round started index _ => by rw [leafPoint_squared supported fits started, map_pow])
    (fun round started index _ => by
      rw [← map_mul, pairRoot_inverse supported fits started codeword.tauInv_mul, map_one])
    points degreeLog2 (le_refl _) 0 (Nat.two_pow_pos _)
  rw [← map_pow, point_pow fits]
  exact result

end

/-- A folding step of the verifier, with the leaf that the prover opens, finds the value that the
prover stores for the leaf, and this is the polynomial folded by its even and odd parts, scaled by
the size of the leaf. All calls of the prover leave the first values as they are. -/
theorem fold_step_agrees (codeword : Codeword) (preferFma : Bool)
    (degreeLog2 domainLog2 position : ℕ) (challenge : Mersenne31Quartic)
    (positive : 0 < degreeLog2) (small : degreeLog2 ≤ 5) (fits : degreeLog2 ≤ codeword.sizeLog2)
    (nested : codeword.sizeLog2 ≤ domainLog2) (large : domainLog2 ≤ 31)
    (inside : position < 2 ^ codeword.sizeLog2) :
    ∃ folded next,
      foldByLogN false degreeLog2 codeword.source (inverseTwiddles domainLog2) challenge =
        some folded ∧
      verifierFold preferFma degreeLog2 (codeword.stateAt position)
        (codeword.leaf degreeLog2 (position / 2 ^ degreeLog2)) challenge = some next ∧
      folded.trace[position / 2 ^ degreeLog2]? = some next.expectedValue ∧
      ∀ f, codeword.EvaluatesTo f → next.expectedValue =
        2 ^ degreeLog2 * (foldMany challenge f degreeLog2).eval
          (ofComplex (codeword.point position) ^ 2 ^ degreeLog2) := by
  have leaf := leafIndex_lt fits inside
  have leafs : codeword.source.trace.length / 2 ^ degreeLog2 =
      2 ^ (codeword.sizeLog2 - degreeLog2) := by
    rw [codeword.size, Nat.pow_div fits Nat.two_pos]
  refine ⟨_, _, foldByLogN_eq challenge positive small nested,
    verifierFold_eq challenge preferFma positive small large nested fits inside, ?_, ?_⟩
  · rw [getElem?_map, leafs, getElem?_range leaf]
    rfl
  · intro f values
    exact storedValue_eval challenge values large nested fits inside

/-- The values of `X + X^2 + X^3` on the coset of the fourth roots of unity that `i` shifts. -/
def cubicCodeword : Codeword where
  sizeLog2 := 2
  source := { trace := [-1, -1, 3, -1], tau := ⟨0, 1⟩ }
  tauInv := ⟨0, -1⟩
  supported := by decide
  size := rfl
  inverse := inverse_eq_some (by decide)

theorem cubicCodeword_evaluatesTo : cubicCodeword.EvaluatesTo (X + X ^ 2 + X ^ 3) := by
  intro position inside
  rw [eval_add, eval_add, eval_pow, eval_pow, eval_X]
  match position, inside with
  | 0, _ => decide +kernel
  | 1, _ => decide +kernel
  | 2, _ => decide +kernel
  | 3, _ => decide +kernel

/-- Two rounds: with the challenge `5` first `6 X + 5` and then `6 * 25 + 5`, both doubled. -/
theorem fold_step_agrees_cubic :
    ∃ folded next,
      foldByLogN false 2 cubicCodeword.source (inverseTwiddles 3) 5 = some folded ∧
      verifierFold true 2 (cubicCodeword.stateAt 2) (cubicCodeword.leaf 2 0) 5 = some next ∧
      folded.trace[0]? = some next.expectedValue ∧
      next.expectedValue = 2 ^ 2 * (foldMany 5 (X + X ^ 2 + X ^ 3) 2).eval
        (ofComplex (cubicCodeword.point 2) ^ 2 ^ 2) ∧
      next.expectedValue = 620 := by
  obtain ⟨folded, next, prover, verifier, stored, value⟩ :=
    fold_step_agrees cubicCodeword true 2 3 2 5 (by decide) (by decide) (by decide)
      (by decide) (by decide) (by decide)
  refine ⟨folded, next, prover, verifier, stored, value _ cubicCodeword_evaluatesTo, ?_⟩
  have computed : (foldByLogN false 2 cubicCodeword.source (inverseTwiddles 3) 5).map
      (fun folded => folded.trace[0]?) = some (some 620) := by
    decide +kernel
  change folded.trace[0]? = _ at stored
  rw [prover, Option.map_some, stored] at computed
  exact Option.some.inj (Option.some.inj computed)

def constantCodeword : Codeword where
  sizeLog2 := 1
  source := { trace := [1, 1], tau := 1 }
  tauInv := 1
  supported := by decide
  size := rfl
  inverse := inverse_eq_some (mul_one 1)

theorem constantCodeword_evaluatesTo : constantCodeword.EvaluatesTo (C 1) := by
  intro position inside
  rw [eval_C]
  match position, inside with
  | 0, _ => rfl
  | 1, _ => rfl

/-- Folding a constant doubles it, while its even part is the constant itself. -/
theorem fold_is_scaled :
    constantCodeword.EvaluatesTo (C 1) ∧
    ∃ next, verifierFold false 1 (constantCodeword.stateAt 0) (constantCodeword.leaf 1 0) 0 =
        some next ∧
      next.expectedValue ≠ (foldMany 0 (C 1 : Mersenne31Quartic[X]) 1).eval
        (ofComplex (constantCodeword.point 0) ^ 2 ^ 1) := by
  refine ⟨constantCodeword_evaluatesTo, _, @verifierFold_eq constantCodeword 1 1 0 0 false
    (by decide) (by decide) (by decide) (by decide) (by decide) (by decide), ?_⟩
  have value := @storedValue_eval constantCodeword 1 1 0 0 (C 1) constantCodeword_evaluatesTo
    (by decide) (by decide) (by decide) (by decide)
  have two : storedValue constantCodeword 1 1 (0 / 2 ^ 1) 0 = 2 := by decide
  intro equal
  change storedValue constantCodeword 1 1 (0 / 2 ^ 1) 0 = _ at equal
  rw [← equal, two] at value
  exact absurd value (by decide)

end Airbender.Fri

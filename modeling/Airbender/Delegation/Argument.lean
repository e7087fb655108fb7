import Airbender.Lib.PartialFractions
import Airbender.Memory.Timestamps

/-!
# The delegation argument

Rows of main circuits request computations at the last timestamp of their cycle, rows of delegation
circuits process them. Both sides accumulate a sum of reciprocals of linearised requests, and the
verifier compares the sums.
-/

namespace Airbender.Delegation

open Memory MvPolynomial PartialFractions
open List hiding Vector

@[ext] structure DelegationRequest where
  delegationType : Mersenne31Field
  abiMemOffsetHigh : Mersenne31Field
  timestamp : Mersenne31Field × Mersenne31Field
deriving DecidableEq

structure RequestRow where
  multiplicity : Mersenne31Field
  delegationType : Mersenne31Field
  abiMemOffsetHigh : Mersenne31Field
  setupTimestamp : Mersenne31Field × Mersenne31Field

structure RequestCircuit where
  memoryTimestampHighFromSequenceIdx : Mersenne31Field
  rows : List RequestRow

structure ProcessingRow where
  multiplicity : Mersenne31Field
  abiMemOffsetHigh : Mersenne31Field
  writeTimestamp : Mersenne31Field × Mersenne31Field

/-- The rows of one delegation circuit. The verifier provides the type. -/
structure ProcessingCircuit where
  delegationType : Mersenne31Field
  rows : List ProcessingRow

/-- The request of a row, at the timestamp after the accesses of its cycle. -/
def RequestCircuit.request (circuit : RequestCircuit) (row : RequestRow) : DelegationRequest where
  delegationType := row.delegationType
  abiMemOffsetHigh := row.abiMemOffsetHigh
  timestamp := (row.setupTimestamp.1 + 3,
    row.setupTimestamp.2 + circuit.memoryTimestampHighFromSequenceIdx)

def ProcessingCircuit.request (circuit : ProcessingCircuit) (row : ProcessingRow) :
    DelegationRequest where
  delegationType := circuit.delegationType
  abiMemOffsetHigh := row.abiMemOffsetHigh
  timestamp := row.writeTimestamp

def requested (circuits : List RequestCircuit) : List (Mersenne31Field × DelegationRequest) :=
  circuits.flatMap fun circuit =>
    circuit.rows.map fun row => (row.multiplicity, circuit.request row)

def processed (circuits : List ProcessingCircuit) : List (Mersenne31Field × DelegationRequest) :=
  circuits.flatMap fun circuit =>
    circuit.rows.map fun row => (row.multiplicity, circuit.request row)

structure Challenges (R : Type) where
  linearization : Vector R 3
  gamma : R

section

variable {R : Type} [CommRing R] (embed : Mersenne31Field →+* R) (challenges : Challenges R)

def aggregatedKey (request : DelegationRequest) : R :=
  challenges.linearization[2] * embed request.timestamp.2 +
    challenges.linearization[1] * embed request.timestamp.1 +
    challenges.linearization[0] * embed request.abiMemOffsetHigh +
    embed request.delegationType + challenges.gamma

/-- The constraint on the accumulator of a row, the same for both kinds of circuits. -/
def accumulatorTerm (row : Mersenne31Field × DelegationRequest) (accumulator : R) : R :=
  aggregatedKey embed challenges row.2 * accumulator - embed row.1

/-- A column of accumulators that satisfies the constraints and sums up to `total`. -/
def Accumulates (rows : List (Mersenne31Field × DelegationRequest)) (total : R) : Prop :=
  ∃ column : List R,
    List.Forall₂ (fun row accumulator => accumulatorTerm embed challenges row accumulator = 0)
      rows column ∧ column.sum = total

end

section

variable {K : Type} [Field K] (embed : Mersenne31Field →+* K) (challenges : Challenges K)

/-- The sum of `multiplicity / aggregated key`. -/
def accumulatedSum (rows : List (Mersenne31Field × DelegationRequest)) : K :=
  (rows.map fun row => embed row.1 / aggregatedKey embed challenges row.2).sum

theorem accumulates_iff (nonzero : ∀ request, aggregatedKey embed challenges request ≠ 0)
    (rows : List (Mersenne31Field × DelegationRequest)) (total : K) :
    Accumulates embed challenges rows total ↔ total = accumulatedSum embed challenges rows := by
  have term : ∀ row accumulator, accumulatorTerm embed challenges row accumulator = 0 ↔
      accumulator = embed row.1 / aggregatedKey embed challenges row.2 := by
    intro row accumulator
    rw [accumulatorTerm, sub_eq_zero, eq_div_iff (nonzero row.2), mul_comm]
  constructor
  · rintro ⟨column, constrained, rfl⟩
    induction constrained with
    | nil => rfl
    | cons first _ ih =>
      rw [sum_cons, ih, (term _ _).mp first]
      rfl
  · rintro rfl
    refine ⟨rows.map fun row => embed row.1 / aggregatedKey embed challenges row.2, ?_, rfl⟩
    rw [forall₂_map_right_iff, forall₂_same]
    exact fun row _ => (term row _).mpr rfl

def executed (rows : List (Mersenne31Field × DelegationRequest)) : List DelegationRequest :=
  (rows.filter fun row => row.1 = 1).map Prod.snd

theorem accumulatedSum_eq {rows : List (Mersenne31Field × DelegationRequest)}
    (boolean : ∀ row ∈ rows, row.1 = 0 ∨ row.1 = 1) :
    accumulatedSum embed challenges rows =
      ((executed rows).map fun request => (aggregatedKey embed challenges request)⁻¹).sum := by
  induction rows with
  | nil => rfl
  | cons row rows ih =>
    have rest := ih fun other member => boolean other (mem_cons_of_mem _ member)
    rw [accumulatedSum] at rest
    rw [accumulatedSum, map_cons, sum_cons, rest]
    rcases boolean row mem_cons_self with zero | one
    · rw [zero, map_zero, zero_div, zero_add, executed, executed,
        filter_cons_of_neg (by rw [zero]; decide)]
    · rw [one, map_one, one_div, executed, executed, filter_cons_of_pos (by simp [one])]
      rfl

end

abbrev ChallengePolynomial := MvPolynomial (Fin 4) Mersenne31Field

abbrev ChallengeFunction := FractionRing ChallengePolynomial

noncomputable def polynomialChallenges : Challenges ChallengePolynomial where
  linearization := #v[X 0, X 1, X 2]
  gamma := X 3

noncomputable def variableChallenges : Challenges ChallengeFunction where
  linearization := polynomialChallenges.linearization.map (algebraMap _ _)
  gamma := algebraMap _ _ polynomialChallenges.gamma

noncomputable def constants : Mersenne31Field →+* ChallengeFunction :=
  (algebraMap ChallengePolynomial ChallengeFunction).comp C

noncomputable def keyPolynomial (request : DelegationRequest) : ChallengePolynomial :=
  aggregatedKey C polynomialChallenges request

variable (request : DelegationRequest)

theorem keyPolynomial_eq :
    keyPolynomial request = X 2 * C request.timestamp.2 + X 1 * C request.timestamp.1 +
      X 0 * C request.abiMemOffsetHigh + C request.delegationType + X 3 := rfl

theorem aggregatedKey_eq :
    aggregatedKey constants variableChallenges request =
      algebraMap ChallengePolynomial ChallengeFunction (keyPolynomial request) := by
  rw [keyPolynomial, aggregatedKey, aggregatedKey]
  simp only [variableChallenges, Vector.getElem_map, map_add, map_mul]
  rfl

/-- Substitute the last challenge such that the key of `request` vanishes. -/
noncomputable def separator (request : DelegationRequest) :
    ChallengePolynomial →+* ChallengePolynomial :=
  eval₂Hom C fun index => if index = 3 then
    -(X 2 * C request.timestamp.2 + X 1 * C request.timestamp.1 +
      X 0 * C request.abiMemOffsetHigh + C request.delegationType) else X index

theorem separator_keyPolynomial (other : DelegationRequest) :
    separator request (keyPolynomial other) =
      X 2 * C (other.timestamp.2 - request.timestamp.2) +
        X 1 * C (other.timestamp.1 - request.timestamp.1) +
        X 0 * C (other.abiMemOffsetHigh - request.abiMemOffsetHigh) +
        C (other.delegationType - request.delegationType) := by
  rw [keyPolynomial_eq]
  simp only [separator, map_add, map_mul, eval₂Hom_X', eval₂Hom_C, map_sub]
  simp only [if_true, show (2 : Fin 4) ≠ 3 by decide, show (1 : Fin 4) ≠ 3 by decide,
    show (0 : Fin 4) ≠ 3 by decide, if_false]
  ring

theorem separates :
    Separates keyPolynomial request (separator request) where
  vanishes := by
    rw [separator_keyPolynomial]
    simp
  others := by
    intro other different zero
    rw [separator_keyPolynomial] at zero
    apply different
    -- The values at zero and at the unit vectors are the differences of the parts.
    have value : ∀ point : Fin 4 → Mersenne31Field,
        point 2 * (other.timestamp.2 - request.timestamp.2) +
          point 1 * (other.timestamp.1 - request.timestamp.1) +
          point 0 * (other.abiMemOffsetHigh - request.abiMemOffsetHigh) +
          (other.delegationType - request.delegationType) = 0 := by
      intro point
      have evaluated := congrArg (eval point) zero
      simpa only [map_add, map_mul, eval_X, eval_C, map_zero] using evaluated
    have sameType : other.delegationType = request.delegationType := by
      simpa [sub_eq_zero] using value 0
    have sameOffset : other.abiMemOffsetHigh = request.abiMemOffsetHigh := by
      simpa [sub_eq_zero, sameType] using value (Pi.single 0 1)
    have sameLow : other.timestamp.1 = request.timestamp.1 := by
      simpa [sub_eq_zero, sameType] using value (Pi.single 1 1)
    have sameHigh : other.timestamp.2 = request.timestamp.2 := by
      simpa [sub_eq_zero, sameType] using value (Pi.single 2 1)
    exact DelegationRequest.ext sameType sameOffset (Prod.ext sameLow sameHigh)

theorem keyPolynomial_ne_zero : keyPolynomial request ≠ 0 := by
  intro zero
  have value := congrArg (eval (Pi.single 3 (1 - request.delegationType))) zero
  rw [keyPolynomial_eq] at value
  simp at value

/-- The sums over main circuits and over delegation circuits are the same function of the
challenges. -/
def Balanced (requests : List RequestCircuit) (circuits : List ProcessingCircuit) : Prop :=
  accumulatedSum constants variableChallenges (requested requests) =
    accumulatedSum constants variableChallenges (processed circuits)

/-- The constraints on both columns of accumulators can be met with one total exactly then. -/
theorem accumulator_columns_iff (requests : List RequestCircuit)
    (circuits : List ProcessingCircuit) :
    (∃ total, Accumulates constants variableChallenges (requested requests) total ∧
      Accumulates constants variableChallenges (processed circuits) total) ↔
      Balanced requests circuits := by
  have nonzero : ∀ request, aggregatedKey constants variableChallenges request ≠ 0 := by
    intro request
    rw [aggregatedKey_eq, map_ne_zero_iff _ (IsFractionRing.injective _ _)]
    exact keyPolynomial_ne_zero request
  simp only [accumulates_iff _ _ nonzero, exists_eq_left]
  rfl

/-- Every request is processed exactly once and nothing else is processed. Requests differ in
their timestamps, so that only the processed rows have to be fewer than the characteristic. -/
theorem delegation_argument_sound (requests : List RequestCircuit)
    (circuits : List ProcessingCircuit)
    (requestsBoolean : ∀ row ∈ requested requests, row.1 = 0 ∨ row.1 = 1)
    (processedBoolean : ∀ row ∈ processed circuits, row.1 = 0 ∨ row.1 = 1)
    (distinct : ((executed (requested requests)).map DelegationRequest.timestamp).Nodup)
    (few : (processed circuits).length < 2 ^ 31 - 1) (balanced : Balanced requests circuits) :
    (executed (processed circuits)).Perm (executed (requested requests)) ∧
      (executed (requested requests)).Nodup := by
  have unique : (executed (requested requests)).Nodup := List.Nodup.of_map _ distinct
  refine ⟨List.Perm.symm ?_, unique⟩
  have sums := balanced
  rw [Balanced, accumulatedSum_eq _ _ requestsBoolean, accumulatedSum_eq _ _ processedBoolean]
    at sums
  simp only [aggregatedKey_eq] at sums
  refine @perm_of_sum_eq DelegationRequest ChallengePolynomial ChallengePolynomial
    ChallengeFunction _ _ _ _ _ _ _ keyPolynomial keyPolynomial_ne_zero _ _ sums
    (fun request => ⟨separator request, separates request⟩) (2 ^ 31 - 1) ?_ ?_ ?_
  · exact inferInstanceAs (CharP (MvPolynomial (Fin 4) (ZMod 2147483647)) 2147483647)
  · intro request
    have once := nodup_iff_count_le_one.mp unique request
    exact lt_of_le_of_lt once (by decide)
  · intro request
    have length : (executed (processed circuits)).length ≤ (processed circuits).length := by
      rw [executed, length_map]
      exact length_filter_le _ _
    exact lt_of_le_of_lt (le_trans count_le_length length) few

section

def sampleRequests : List RequestCircuit :=
  [{ memoryTimestampHighFromSequenceIdx := 0
     rows := [⟨0, 0, 0, (4, 0)⟩, ⟨1, 1991, 5, (8, 0)⟩] }]

def sampleCircuits : List ProcessingCircuit :=
  [{ delegationType := 1991
     rows := [⟨0, 0, (0, 0)⟩, ⟨1, 5, (11, 0)⟩] }]

theorem delegation_argument_sound_sample :
    (executed (processed sampleCircuits)).Perm (executed (requested sampleRequests)) ∧
      (executed (requested sampleRequests)).Nodup := by
  have requestsBoolean : ∀ row ∈ requested sampleRequests, row.1 = 0 ∨ row.1 = 1 := by decide
  have processedBoolean : ∀ row ∈ processed sampleCircuits, row.1 = 0 ∨ row.1 = 1 := by decide
  have same : executed (requested sampleRequests) = executed (processed sampleCircuits) := by decide
  refine delegation_argument_sound sampleRequests sampleCircuits requestsBoolean processedBoolean
    (by decide) (by decide) ?_
  rw [Balanced, accumulatedSum_eq _ _ requestsBoolean, accumulatedSum_eq _ _ processedBoolean, same]

end

end Airbender.Delegation

import Airbender.Field.TwoAdic

/-!
# Folding

`fold_by_log_n` of the prover, which folds a whole codeword leaf by leaf, and `fri_fold_by_log_n` of
the verifier, which folds the one leaf of a query with roots it keeps squaring.
-/

namespace Airbender.Fri

open BitReverse Mersenne31Complex Mersenne31Quartic

abbrev Buffer := ℕ → Mersenne31Quartic

/-- A codeword on a coset of a domain, in bit-reversed order. -/
structure CosetBoundTrace where
  trace : List Mersenne31Quartic
  tau : Mersenne31Complex

/-- `(a - b) * twiddle * tau^-1 * challenge + a + b`. -/
def foldValues (twiddle tauInv : Mersenne31Complex) (challenge a b : Mersenne31Quartic) :
    Mersenne31Quartic :=
  (((a - b).mulByComplex twiddle).mulByComplex tauInv) * challenge + a + b

/-- One round over a leaf: the buffer and the index of its first twiddle, which is halved. -/
def foldLeafRound (adjustment : Option Mersenne31Complex) (twiddles : List Mersenne31Complex)
    (tauInv : Mersenne31Complex) (challenge : Mersenne31Quartic) (state : Buffer × ℕ)
    (round : ℕ) : Buffer × ℕ :=
  let (buffer, absoluteSetIdx) := state
  let challenge := squareTimes round challenge
  let tauInv := squareTimes round tauInv
  let folded : Buffer := fun index =>
    let value := foldValues (twiddles.getD (absoluteSetIdx + index) 0) tauInv challenge
      (buffer (2 * index)) (buffer (2 * index + 1))
    match round, adjustment with
    | 0, some factor => value.mulByComplex factor
    | _, _ => value
  (folded, absoluteSetIdx / 2)

def foldLeaf (adjustFirstValues : Bool) (degreeLog2 : ℕ) (source : CosetBoundTrace)
    (twiddles : List Mersenne31Complex) (tauInv : Mersenne31Complex)
    (challenge : Mersenne31Quartic) (leafIndex : ℕ) : Mersenne31Quartic :=
  let tauInDomainByHalf := source.tau ^ (source.trace.length / 2)
  let adjustment := if adjustFirstValues then some tauInDomainByHalf else none
  let rounds := (List.range degreeLog2).foldl (foldLeafRound adjustment twiddles tauInv challenge)
    (fun index => source.trace.getD (leafIndex * 2 ^ degreeLog2 + index) 0,
      leafIndex * 2 ^ degreeLog2 / 2)
  rounds.1 0

/-- `fold_by_log_n`, without the distribution over workers. -/
def foldByLogN (adjustFirstValues : Bool) (degreeLog2 : ℕ) (source : CosetBoundTrace)
    (inverseTwiddles : List Mersenne31Complex) (challenge : Mersenne31Quartic) :
    Option CosetBoundTrace := do
  guard (0 < degreeLog2 ∧ degreeLog2 ≤ 5)
  guard (2 ^ source.trace.length.log2 = source.trace.length)
  let tauInv ← source.tau.inverse
  guard (source.trace.length / 2 ≤ inverseTwiddles.length)
  some
    { trace := (List.range (source.trace.length / 2 ^ degreeLog2)).map
        (foldLeaf adjustFirstValues degreeLog2 source inverseTwiddles tauInv challenge)
      tau := squareTimes degreeLog2 source.tau }

/-- `SHARED_FACTORS_FOR_FOLDING`: powers of the inverse generator of 32 points, written to
bit-reversed places. -/
def sharedFactorsForFolding : List Mersenne31Complex :=
  ((List.range 16).foldl (fun (state : List Mersenne31Complex × Mersenne31Complex) i =>
    (state.1.set (bitReverse 4 i) state.2, state.2 * twoAdicityGeneratorsInversed 5))
    (List.replicate 16 0, 1)).1

structure FoldState where
  expectedValue : Mersenne31Quartic
  evaluationPoint : Mersenne31Complex
  domainSizeLog2 : ℕ
  domainIndex : ℕ
  treeIndex : ℕ
  offsetInv : Mersenne31Complex

def leafValue (leaf : List Mersenne31Field) : Buffer := fun index =>
  fromCoeffsInBase (leaf.getD (4 * index) 0) (leaf.getD (4 * index + 1) 0)
    (leaf.getD (4 * index + 2) 0) (leaf.getD (4 * index + 3) 0)

def remapRoots {ρ : Type} [Mul ρ] (degreeLog2 round : ℕ) (roots : ℕ → ρ) : ℕ → ρ := fun index =>
  if index % 2 ^ round = 0 ∧ index / 2 ^ round < 2 ^ (degreeLog2 - round - 1) then
    roots index * roots index else roots index

/-- One round of both verifier functions; they differ in the roots and in how two values are
combined. -/
def foldRound {ρ : Type} [Mul ρ] (degreeLog2 : ℕ)
    (combine : ℕ → ρ → Mersenne31Quartic → Mersenne31Quartic → Mersenne31Quartic)
    (state : (ℕ → ρ) × Buffer) (round : ℕ) : (ℕ → ρ) × Buffer :=
  let roots := if round > 0 then remapRoots degreeLog2 round state.1 else state.1
  let folded : Buffer := fun index => combine round (roots (index * 2 ^ round))
    (state.2 (2 * index)) (state.2 (2 * index + 1))
  (roots, folded)

def foldRounds {ρ : Type} [Mul ρ] (degreeLog2 : ℕ)
    (combine : ℕ → ρ → Mersenne31Quartic → Mersenne31Quartic → Mersenne31Quartic)
    (roots : ℕ → ρ) (leaf : Buffer) : Mersenne31Quartic :=
  ((List.range degreeLog2).foldl (foldRound degreeLog2 combine) (roots, leaf)).2 0

/-- How `fri_fold_by_log_n` combines two values. The branch for fused operations is compiled into
the function but is not taken by the verifier, which calls the other function instead. -/
def combineWithChallenge (preferFma : Bool) (challengePowers : List Mersenne31Quartic) (round : ℕ)
    (root : Mersenne31Complex) (a b : Mersenne31Quartic) : Mersenne31Quartic :=
  let challenge := challengePowers.getD round 0
  if preferFma then
    let t := fusedMulAdd 0 (a - b) (fromBase root)
    fusedMulAdd a t challenge + b
  else (a - b).mulByComplex root * challenge + a + b

/-- How `fri_fold_by_log_n_with_fma` combines two values; roots include the challenge. -/
def combineWithFma (_round : ℕ) (root a b : Mersenne31Quartic) : Mersenne31Quartic :=
  fusedMulAdd (fusedMulAdd b (-1) a) root (fusedMulAdd b 1 a)

def FoldState.next (state : FoldState) (degreeLog2 : ℕ) (folded : Mersenne31Quartic) :
    FoldState where
  expectedValue := folded
  evaluationPoint := squareTimes degreeLog2 state.evaluationPoint
  domainSizeLog2 := state.domainSizeLog2 - degreeLog2
  domainIndex := state.domainIndex % 2 ^ (state.domainSizeLog2 - degreeLog2)
  treeIndex := state.treeIndex >>> degreeLog2
  offsetInv := squareTimes degreeLog2 state.offsetInv

def friFoldByLogN (preferFma : Bool) (degreeLog2 : ℕ) (state : FoldState)
    (leaf : List Mersenne31Field) (challengePowers : List Mersenne31Quartic)
    (sharedFactors : List Mersenne31Complex) : Option FoldState := do
  guard (0 < degreeLog2 ∧ degreeLog2 ≤ 5)
  guard (state.expectedValue = leafValue leaf (state.treeIndex % 2 ^ degreeLog2))
  let sharedBits := state.domainIndex % 2 ^ (state.domainSizeLog2 - degreeLog2)
  let sharedFactor := twoAdicityGeneratorsInversed state.domainSizeLog2 ^ sharedBits *
    state.offsetInv
  let roots := fun index => sharedFactors.getD index 0 * sharedFactor
  some (state.next degreeLog2 (foldRounds degreeLog2
    (combineWithChallenge preferFma challengePowers) roots (leafValue leaf)))

def friFoldByLogNWithFma (degreeLog2 : ℕ) (state : FoldState) (leaf : List Mersenne31Field)
    (challenge : Mersenne31Quartic) (sharedFactors : List Mersenne31Complex) :
    Option FoldState := do
  guard (0 < degreeLog2 ∧ degreeLog2 ≤ 5)
  guard (state.expectedValue = leafValue leaf (state.treeIndex % 2 ^ degreeLog2))
  let sharedBits := state.domainIndex % 2 ^ (state.domainSizeLog2 - degreeLog2)
  let sharedFactor := (fromBase (twoAdicityGeneratorsInversed state.domainSizeLog2) ^
    sharedBits).mulByComplex state.offsetInv
  let roots := fun index =>
    fusedMulAdd (fusedMulAdd sharedFactor (fromBase (sharedFactors.getD index 0)) 0) challenge 0
  some (state.next degreeLog2 (foldRounds degreeLog2 combineWithFma roots (leafValue leaf)))

/-- A folding step of the verifier: which function is called is fixed at compile time. -/
def verifierFold (preferFma : Bool) (degreeLog2 : ℕ) (state : FoldState)
    (leaf : List Mersenne31Field) (challenge : Mersenne31Quartic) : Option FoldState :=
  if preferFma then
    friFoldByLogNWithFma degreeLog2 state leaf challenge sharedFactorsForFolding
  else
    friFoldByLogN preferFma degreeLog2 state leaf
      ((List.range 5).map fun power => squareTimes power challenge) sharedFactorsForFolding

end Airbender.Fri

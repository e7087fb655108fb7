import Airbender.Lib.PackedRecord
import Airbender.Merkle.LeafInclusion
import Airbender.Verifier.Fill

/-!
# The proof skeleton and the queries

A proof is a packed structure of caps and field elements, followed by the queried leafs with
their Merkle paths. Offsets are in words; the structure has no gaps.
-/

namespace Airbender.Verifier

open Blake2s Merkle

inductive SkeletonField
  | padding
  | circuitSequenceIdx
  | delegationType
  | publicInputs
  | setupCaps
  | memoryArgumentChallenges
  | delegationArgumentChallenges
  | auxBoundaryValues
  | witnessCaps
  | memoryCaps
  | stage2Caps
  | memoryGrandProductAccumulator
  | delegationArgumentAccumulator
  | quotientCaps
  | openingsAtZ
  | openingsAtZOmega
  | friIntermediateOracles
  | friFinalStepLeafs
  | monomialCoeffs
  | powNonce
deriving DecidableEq

namespace SkeletonField

def inOrder : List SkeletonField :=
  [padding, circuitSequenceIdx, delegationType, publicInputs, setupCaps,
    memoryArgumentChallenges, delegationArgumentChallenges, auxBoundaryValues, witnessCaps,
    memoryCaps, stage2Caps, memoryGrandProductAccumulator, delegationArgumentAccumulator,
    quotientCaps, openingsAtZ, openingsAtZOmega, friIntermediateOracles, friFinalStepLeafs,
    monomialCoeffs, powNonce]

def isFieldElement : SkeletonField → Bool
  | publicInputs | memoryArgumentChallenges | delegationArgumentChallenges | auxBoundaryValues
  | memoryGrandProductAccumulator | delegationArgumentAccumulator | openingsAtZ
  | openingsAtZOmega | friFinalStepLeafs | monomialCoeffs => true
  | _ => false

end SkeletonField

/-- The constants of a compiled circuit that fix the shape of its proofs. -/
structure ProofLayout where
  traceLenLog2 : ℕ
  friFactorLog2 : ℕ
  treeCapSizeLog2 : ℕ
  skeletonPadding : ℕ
  numPublicInputs : ℕ
  numDelegationChallenges : ℕ
  numAuxBoundaryValues : ℕ
  numOpeningsAtZ : ℕ
  numOpeningsAtZOmega : ℕ
  /-- Folding degrees of the steps that have an oracle. -/
  friFoldingSchedule : List ℕ
  lastFriStepLeafsTotalSizePerCoset : ℕ
  friFinalDegree : ℕ
  leafSizeSetup : ℕ
  leafSizeWitnessTree : ℕ
  leafSizeMemoryTree : ℕ
  leafSizeStage2 : ℕ

def reducedRiscVMachine : ProofLayout where
  traceLenLog2 := 22
  friFactorLog2 := 1
  treeCapSizeLog2 := 6
  skeletonPadding := 2
  numPublicInputs := 4
  numDelegationChallenges := 1
  numAuxBoundaryValues := 1
  numOpeningsAtZ := 199
  numOpeningsAtZOmega := 5
  friFoldingSchedule := [4, 4, 3, 3]
  lastFriStepLeafsTotalSizePerCoset := 256
  friFinalDegree := 32
  leafSizeSetup := 12
  leafSizeWitnessTree := 117
  leafSizeMemoryTree := 30
  leafSizeStage2 := 132

namespace ProofLayout

variable (layout : ProofLayout)

def numCosets : ℕ := 2 ^ layout.friFactorLog2

def treeCapSize : ℕ := 2 ^ layout.treeCapSizeLog2

def defaultMerklePathLength : ℕ := layout.traceLenLog2 - layout.treeCapSizeLog2

def bitsForQueryIndex : ℕ := layout.traceLenLog2 + layout.friFactorLog2

def capsWords : ℕ := layout.numCosets * (layout.treeCapSize * 8)

open SkeletonField in
def size : SkeletonField → ℕ
  | padding => layout.skeletonPadding
  | circuitSequenceIdx => 1
  | delegationType => 1
  | publicInputs => layout.numPublicInputs
  | setupCaps => layout.capsWords
  | memoryArgumentChallenges => 28
  | delegationArgumentChallenges => 16 * layout.numDelegationChallenges
  | auxBoundaryValues => 12 * layout.numAuxBoundaryValues
  | witnessCaps => layout.capsWords
  | memoryCaps => layout.capsWords
  | stage2Caps => layout.capsWords
  | memoryGrandProductAccumulator => 4
  | delegationArgumentAccumulator => 4 * layout.numDelegationChallenges
  | quotientCaps => layout.capsWords
  | openingsAtZ => 4 * layout.numOpeningsAtZ
  | openingsAtZOmega => 4 * layout.numOpeningsAtZOmega
  | friIntermediateOracles => layout.friFoldingSchedule.length * layout.capsWords
  | friFinalStepLeafs => layout.numCosets * (4 * layout.lastFriStepLeafsTotalSizePerCoset)
  | monomialCoeffs => 4 * layout.friFinalDegree
  | powNonce => 2

/-- `offset_of!`, in words. -/
def offset (field : SkeletonField) : ℕ :=
  PackedRecord.offset SkeletonField.inOrder layout.size field

def skeletonWords : ℕ := layout.offset .powNonce + layout.size .powNonce

def skeletonLoops : List (ReadMode × ℕ) :=
  [(.word, layout.offset .publicInputs),
    (.reducedFieldElement, layout.offset .setupCaps),
    (.word, layout.offset .memoryArgumentChallenges),
    (.reducedFieldElement, layout.offset .witnessCaps),
    (.word, layout.offset .memoryGrandProductAccumulator),
    (.reducedFieldElement, layout.offset .quotientCaps),
    (.word, layout.offset .openingsAtZ),
    (.reducedFieldElement, layout.offset .friIntermediateOracles),
    (.word, layout.offset .monomialCoeffs),
    (.reducedFieldElement, layout.offset .powNonce),
    (.word, layout.skeletonWords)]

def fillSkeleton (slot : Memory) : VerifierM Memory := do
  let skeleton ← fillLoops layout.skeletonLoops (layout.offset .circuitSequenceIdx) slot
  check (skeleton (layout.offset .circuitSequenceIdx) &&& 0xffff0000 == 0)
  check (skeleton (layout.offset .delegationType) &&& 0xffff0000 == 0)
  pure skeleton

def slice (memory : Memory) (start stop : ℕ) : List Word :=
  (List.range (stop - start)).map fun word => memory (start + word)

/-- What the transcript absorbs of a skeleton, commitment by commitment. -/
def transcriptElements (skeleton : Memory) : List (List Word) :=
  [slice skeleton (layout.offset .circuitSequenceIdx) (layout.offset .stage2Caps),
    slice skeleton (layout.offset .stage2Caps) (layout.offset .quotientCaps),
    slice skeleton (layout.offset .quotientCaps) (layout.offset .openingsAtZ),
    slice skeleton (layout.offset .openingsAtZ) (layout.offset .friIntermediateOracles)] ++
  (List.range layout.friFoldingSchedule.length).map (fun step =>
    slice skeleton (layout.offset .friIntermediateOracles + step * layout.capsWords)
      (layout.offset .friIntermediateOracles + step * layout.capsWords + layout.capsWords)) ++
  [slice skeleton (layout.offset .friFinalStepLeafs) (layout.offset .monomialCoeffs),
    slice skeleton (layout.offset .monomialCoeffs) (layout.offset .powNonce)]

def leafSizeQuotient : ℕ := 4

def friLeafSize (degree : ℕ) : ℕ := 4 * 2 ^ degree

def totalFriLeafsSizes : ℕ := (layout.friFoldingSchedule.map friLeafSize).sum

/-- Words of `QueryValues`: the query index and the leafs. -/
def queryWords : ℕ :=
  1 + layout.leafSizeSetup + layout.leafSizeWitnessTree + layout.leafSizeMemoryTree +
    layout.leafSizeStage2 + leafSizeQuotient + layout.totalFriLeafsSizes

/-- The caps of all cosets that lie in a skeleton from `start` on. -/
def capsAt (skeleton : Memory) (start : ℕ) : List (List Digest) :=
  (List.range layout.numCosets).map fun coset => (List.range layout.treeCapSize).map fun entry =>
    Vector.ofFn fun word : Fin 8 =>
      skeleton (start + ((coset * layout.treeCapSize + entry) * 8 + word.val))

/-- A leaf of the trees over the whole trace. -/
def baseOpening (skeleton query : Memory) (cosetIndex treeIndex start width : ℕ)
    (caps : SkeletonField) : LeafOpening where
  cosetIndex
  leafIndex := treeIndex
  depth := layout.defaultMerklePathLength
  memory := fun word => query (start + word)
  width
  caps := layout.capsAt skeleton (layout.offset caps)

/-- The leafs of the FRI oracles; trees get smaller with every step. -/
def friOpenings (skeleton query : Memory) (cosetIndex : ℕ) :
    List ℕ → (step treeIndex pathLength start : ℕ) → List LeafOpening
  | [], _, _, _, _ => []
  | degree :: schedule, step, treeIndex, pathLength, start =>
    { cosetIndex
      leafIndex := treeIndex >>> degree
      depth := pathLength - degree
      memory := fun word => query (start + word)
      width := friLeafSize degree
      caps := layout.capsAt skeleton
        (layout.offset .friIntermediateOracles + step * layout.capsWords) } ::
    friOpenings skeleton query cosetIndex schedule (step + 1) (treeIndex >>> degree)
      (pathLength - degree) (start + friLeafSize degree)

def leafOpenings (skeleton query : Memory) (cosetIndex treeIndex : ℕ) : List LeafOpening :=
  let witnessStart := 1 + layout.leafSizeSetup
  let memoryStart := witnessStart + layout.leafSizeWitnessTree
  let stage2Start := memoryStart + layout.leafSizeMemoryTree
  let quotientStart := stage2Start + layout.leafSizeStage2
  let opening := layout.baseOpening skeleton query cosetIndex treeIndex
  [opening 1 layout.leafSizeSetup .setupCaps,
    opening witnessStart layout.leafSizeWitnessTree .witnessCaps,
    opening memoryStart layout.leafSizeMemoryTree .memoryCaps,
    opening stage2Start layout.leafSizeStage2 .stage2Caps,
    opening quotientStart leafSizeQuotient .quotientCaps] ++
  layout.friOpenings skeleton query cosetIndex layout.friFoldingSchedule 0 treeIndex
    layout.defaultMerklePathLength (quotientStart + leafSizeQuotient)

end ProofLayout

/-- The `LeafInclusionVerifier` trait: a hasher that checks openings. -/
structure LeafInclusionVerifier where
  Hasher : Type
  verifyLeafInclusion : Hasher → LeafOpening → VerifierM (Bool × Hasher)

/-- The hasher with alternative compression. A call starts from the initial state, so what the
previous call left behind does not matter. -/
def blake2sVerifier : LeafInclusionVerifier where
  Hasher := Blake2sState
  verifyLeafInclusion hasher opening := do
    let included ← alternativeVerifyLeafInclusion true hasher opening
    pure (included, hasher)

variable (verifier : LeafInclusionVerifier) (layout : ProofLayout)

def verifyLeafs : List LeafOpening → verifier.Hasher → VerifierM verifier.Hasher
  | [], hasher => pure hasher
  | opening :: openings, hasher => do
      let (included, hasher) ← verifier.verifyLeafInclusion hasher opening
      check included
      verifyLeafs openings hasher

def fillQuery (skeleton slot : Memory) (hasher : verifier.Hasher) :
    VerifierM (Memory × verifier.Hasher) := do
  let queryIndex ← readWord
  check (decide (queryIndex.toNat < 2 ^ layout.bitsForQueryIndex))
  let query ← fillWords .reducedFieldElement (layout.queryWords - 1) 1
    (Function.update slot 0 queryIndex)
  let treeIndex := queryIndex.toNat % 2 ^ layout.traceLenLog2
  let cosetIndex := queryIndex.toNat >>> layout.traceLenLog2
  let hasher ← verifyLeafs verifier
    (layout.leafOpenings skeleton query cosetIndex treeIndex) hasher
  pure (query, hasher)

/-- `QueryValuesInstance::fill_array`, one query for every slot. -/
def fillArray (skeleton : Memory) :
    List Memory → verifier.Hasher → VerifierM (List Memory)
  | [], _ => pure []
  | slot :: slots, hasher => do
      let (query, hasher) ← fillQuery verifier layout skeleton slot hasher
      let queries ← fillArray skeleton slots hasher
      pure (query :: queries)

structure FilledProof where
  skeleton : Memory
  queries : List Memory

def fillProof (hasher : verifier.Hasher) (skeletonSlot : Memory) (querySlots : List Memory) :
    VerifierM FilledProof := do
  let skeleton ← layout.fillSkeleton skeletonSlot
  let queries ← fillArray verifier layout skeleton querySlots hasher
  pure { skeleton, queries }

end Airbender.Verifier

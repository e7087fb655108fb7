import Airbender.Lib.MemoryLayout
import Airbender.Verifier.FullStatement
import Airbender.Verifier.SkeletonFill

/-!
# Flattening of proofs

`flatten_proof_for_skeleton` and `flatten_query` write the components of a proof in the order in
which the verifier fills its structures. The structures themselves are given by the layout of each
field.
-/

namespace Airbender.Verifier

open Blake2s Merkle Mersenne31Field MemoryLayout BitVec

structure Query where
  queryIndex : Word
  leafContent : List Mersenne31Field
  merkleProof : List Digest

structure QuerySet where
  witnessQuery : Query
  memoryQuery : Query
  setupQuery : Query
  stage2Query : Query
  quotientQuery : Query
  initialFriQuery : Query
  intermediateFriQueries : List Query

abbrev TreeCaps := List (List Digest)

structure Proof where
  memoryArgument : ExternalMemoryArgumentChallenges
  delegationArgument : Option ExternalDelegationArgumentChallenges
  auxBoundaryValues : AuxArgumentsBoundaryValues
  publicInputs : List Mersenne31Field
  witnessTreeCaps : TreeCaps
  memoryTreeCaps : TreeCaps
  setupTreeCaps : TreeCaps
  stage2TreeCaps : TreeCaps
  memoryGrandProductAccumulator : Mersenne31Quartic
  delegationArgumentAccumulator : Option Mersenne31Quartic
  quotientTreeCaps : TreeCaps
  evaluationsAtRandomPoints : List Mersenne31Quartic
  deepPolyCaps : TreeCaps
  intermediateFriOracleCaps : List TreeCaps
  lastFriStepPlainLeafValues : List (List Mersenne31Quartic)
  finalMonomialForm : List Mersenne31Quartic
  queries : List QuerySet
  powNonce : BitVec 64
  circuitSequence : BitVec 16
  delegationType : BitVec 16

def intoCoeffsInBase (element : Mersenne31Quartic) : List Mersenne31Field :=
  [element.c0.c0, element.c0.c1, element.c1.c0, element.c1.c1]

def reducedCoefficients (element : Mersenne31Quartic) : List Word :=
  (intoCoeffsInBase element).map toReducedU32

def ExternalMemoryArgumentChallenges.flatten (challenges : ExternalMemoryArgumentChallenges) :
    List Word :=
  challenges.memoryArgumentLinearizationChallenges.toList.flatMap reducedCoefficients ++
    reducedCoefficients challenges.memoryArgumentGamma

def ExternalDelegationArgumentChallenges.flatten
    (challenges : ExternalDelegationArgumentChallenges) : List Word :=
  challenges.delegationArgumentLinearizationChallenges.toList.flatMap reducedCoefficients ++
    reducedCoefficients challenges.delegationArgumentGamma

def AuxArgumentsBoundaryValues.flatten (values : AuxArgumentsBoundaryValues) : List Word :=
  [values.lazyInitFirstRow, values.teardownValueFirstRow, values.teardownTimestampFirstRow,
    values.lazyInitOneBeforeLastRow, values.teardownValueOneBeforeLastRow,
    values.teardownTimestampOneBeforeLastRow].flatMap fun limbs =>
      [toReducedU32 limbs.1, toReducedU32 limbs.2]

def flattenMerkleCapsInto (trees : TreeCaps) : List Word :=
  trees.flatMap fun subtree => subtree.flatMap Vector.toList

def flattenLeafInto (leaf : List Mersenne31Field) : List Word := leaf.map toReducedU32

def flattenMerklePathInto (path : List Digest) : List Word := path.flatMap Vector.toList

def flattenProofForSkeleton (proof : Proof) (applyShuffleRamLazyInit : Bool) : List Word :=
  [proof.circuitSequence.setWidth 32] ++
  [proof.delegationType.setWidth 32] ++
  proof.publicInputs.map toReducedU32 ++
  flattenMerkleCapsInto proof.setupTreeCaps ++
  proof.memoryArgument.flatten ++
  proof.delegationArgument.elim [] ExternalDelegationArgumentChallenges.flatten ++
  (if applyShuffleRamLazyInit then proof.auxBoundaryValues.flatten else []) ++
  flattenMerkleCapsInto proof.witnessTreeCaps ++
  flattenMerkleCapsInto proof.memoryTreeCaps ++
  flattenMerkleCapsInto proof.stage2TreeCaps ++
  reducedCoefficients proof.memoryGrandProductAccumulator ++
  proof.delegationArgumentAccumulator.elim [] reducedCoefficients ++
  flattenMerkleCapsInto proof.quotientTreeCaps ++
  proof.evaluationsAtRandomPoints.flatMap reducedCoefficients ++
  flattenMerkleCapsInto proof.deepPolyCaps ++
  proof.intermediateFriOracleCaps.flatMap flattenMerkleCapsInto ++
  (if proof.lastFriStepPlainLeafValues.length > 0 then
    proof.lastFriStepPlainLeafValues.flatMap fun values => values.flatMap reducedCoefficients
    else []) ++
  proof.finalMonomialForm.flatMap reducedCoefficients ++
  [proof.powNonce.setWidth 32] ++
  [(proof.powNonce >>> 32).setWidth 32]

namespace QuerySet

variable (query : QuerySet)

def inOrder : List Query :=
  [query.setupQuery, query.witnessQuery, query.memoryQuery, query.stage2Query,
    query.quotientQuery, query.initialFriQuery] ++ query.intermediateFriQueries

end QuerySet

/-- `flatten_query`: the leafs, then the paths in the same sequence. -/
def flattenQuery (query : QuerySet) : Option (List Word) := do
  guard (query.witnessQuery.queryIndex = query.memoryQuery.queryIndex)
  guard (query.witnessQuery.queryIndex = query.stage2Query.queryIndex)
  guard (query.witnessQuery.queryIndex = query.quotientQuery.queryIndex)
  guard (query.witnessQuery.queryIndex = query.setupQuery.queryIndex)
  some ([query.witnessQuery.queryIndex] ++
    flattenLeafInto query.setupQuery.leafContent ++
    flattenLeafInto query.witnessQuery.leafContent ++
    flattenLeafInto query.memoryQuery.leafContent ++
    flattenLeafInto query.stage2Query.leafContent ++
    flattenLeafInto query.quotientQuery.leafContent ++
    flattenLeafInto query.initialFriQuery.leafContent ++
    (query.intermediateFriQueries.flatMap fun fri => flattenLeafInto fri.leafContent) ++
    flattenMerklePathInto query.setupQuery.merkleProof ++
    flattenMerklePathInto query.witnessQuery.merkleProof ++
    flattenMerklePathInto query.memoryQuery.merkleProof ++
    flattenMerklePathInto query.stage2Query.merkleProof ++
    flattenMerklePathInto query.quotientQuery.merkleProof ++
    flattenMerklePathInto query.initialFriQuery.merkleProof ++
    query.intermediateFriQueries.flatMap fun fri => flattenMerklePathInto fri.merkleProof)

instance : Inhabited Mersenne31Quartic := ⟨0⟩

def fieldElementLayout : Layout Word Mersenne31Field where
  size := 1
  Fits _ := True
  write element := [toReducedU32 element]
  view memory := ((memory 0).toNat : Mersenne31Field)
  length_write _ := rfl
  view_eq _ holds := by
    rw [(holds_cons.mp holds).1, toNat_toReducedU32, ZMod.natCast_val, ZMod.cast_id', id]

def complexLayout : Layout Word Mersenne31Complex :=
  (fieldElementLayout.pair fieldElementLayout).via (fun element => (element.c0, element.c1))
    (fun parts => ⟨parts.1, parts.2⟩) fun _ => rfl

def quarticLayout : Layout Word Mersenne31Quartic :=
  (complexLayout.pair complexLayout).via (fun element => (element.c0, element.c1))
    (fun parts => ⟨parts.1, parts.2⟩) fun _ => rfl

def limbsLayout : Layout Word (Mersenne31Field × Mersenne31Field) :=
  fieldElementLayout.pair fieldElementLayout

def memoryChallengesLayout : Layout Word ExternalMemoryArgumentChallenges :=
  ((Layout.vector 6 quarticLayout).pair quarticLayout).via
    (fun challenges =>
      (challenges.memoryArgumentLinearizationChallenges, challenges.memoryArgumentGamma))
    (fun parts => ⟨parts.1, parts.2⟩) fun _ => rfl

def delegationChallengesLayout : Layout Word ExternalDelegationArgumentChallenges :=
  ((Layout.vector 3 quarticLayout).pair quarticLayout).via
    (fun challenges =>
      (challenges.delegationArgumentLinearizationChallenges, challenges.delegationArgumentGamma))
    (fun parts => ⟨parts.1, parts.2⟩) fun _ => rfl

def boundaryValuesLayout : Layout Word AuxArgumentsBoundaryValues :=
  (limbsLayout.pair (limbsLayout.pair (limbsLayout.pair (limbsLayout.pair
    (limbsLayout.pair limbsLayout))))).via
    (fun values => (values.lazyInitFirstRow, values.teardownValueFirstRow,
      values.teardownTimestampFirstRow, values.lazyInitOneBeforeLastRow,
      values.teardownValueOneBeforeLastRow, values.teardownTimestampOneBeforeLastRow))
    (fun (first, value, timestamp, last, lastValue, lastTimestamp) =>
      ⟨first, value, timestamp, last, lastValue, lastTimestamp⟩) fun _ => rfl

def digestLayout : Layout Word Digest := Layout.vector 8 Layout.word

def u64Layout : Layout Word (BitVec 64) :=
  (Layout.word.pair Layout.word).via
    (fun value => (value.setWidth 32, (value >>> 32).setWidth 32))
    (fun words => words.2 ++ words.1) (by
      intro value
      refine eq_of_toNat_eq ?_
      simp only [toNat_append, toNat_setWidth, toNat_ushiftRight]
      have bound := value.isLt
      rw [← Nat.shiftLeft_add_eq_or_of_lt (Nat.mod_lt _ (by decide)), Nat.shiftLeft_eq,
        Nat.shiftRight_eq_div_pow]
      omega)

namespace ProofLayout

variable (layout : ProofLayout)

def capsLayout : Layout Word TreeCaps :=
  (digestLayout.array layout.treeCapSize).array layout.numCosets

open SkeletonField in
/-- The type of a field. Padding is never read. -/
def FieldType : SkeletonField → Type
  | padding => Unit
  | circuitSequenceIdx | delegationType => Word
  | publicInputs => List Mersenne31Field
  | setupCaps | witnessCaps | memoryCaps | stage2Caps | quotientCaps => TreeCaps
  | memoryArgumentChallenges => ExternalMemoryArgumentChallenges
  | delegationArgumentChallenges => List ExternalDelegationArgumentChallenges
  | auxBoundaryValues => List AuxArgumentsBoundaryValues
  | memoryGrandProductAccumulator => Mersenne31Quartic
  | delegationArgumentAccumulator | openingsAtZ | openingsAtZOmega | monomialCoeffs =>
    List Mersenne31Quartic
  | friIntermediateOracles => List TreeCaps
  | friFinalStepLeafs => List (List Mersenne31Quartic)
  | powNonce => BitVec 64

open SkeletonField in
def fieldLayout : (field : SkeletonField) → Layout Word (FieldType field)
  | padding => Layout.unit
  | circuitSequenceIdx | delegationType => Layout.word
  | publicInputs => fieldElementLayout.array layout.numPublicInputs
  | setupCaps | witnessCaps | memoryCaps | stage2Caps | quotientCaps => layout.capsLayout
  | memoryArgumentChallenges => memoryChallengesLayout
  | delegationArgumentChallenges => delegationChallengesLayout.array layout.numDelegationChallenges
  | auxBoundaryValues => boundaryValuesLayout.array layout.numAuxBoundaryValues
  | memoryGrandProductAccumulator => quarticLayout
  | delegationArgumentAccumulator => quarticLayout.array layout.numDelegationChallenges
  | openingsAtZ => quarticLayout.array layout.numOpeningsAtZ
  | openingsAtZOmega => quarticLayout.array layout.numOpeningsAtZOmega
  | friIntermediateOracles => layout.capsLayout.array layout.friFoldingSchedule.length
  | friFinalStepLeafs =>
    (quarticLayout.array layout.lastFriStepLeafsTotalSizePerCoset).array layout.numCosets
  | monomialCoeffs => quarticLayout.array layout.friFinalDegree
  | powNonce => u64Layout

def fieldOf (skeleton : Memory) (field : SkeletonField) : FieldType field :=
  (layout.fieldLayout field).view (shift skeleton (layout.offset field))

open SkeletonField in
/-- The component of a proof that a field is for. Without exposed leafs the last FRI step has an
empty array for every coset. -/
def componentOf (proof : Proof) (applyShuffleRamLazyInit : Bool) :
    (field : SkeletonField) → FieldType field
  | padding => ()
  | circuitSequenceIdx => proof.circuitSequence.setWidth 32
  | delegationType => proof.delegationType.setWidth 32
  | publicInputs => proof.publicInputs
  | setupCaps => proof.setupTreeCaps
  | memoryArgumentChallenges => proof.memoryArgument
  | delegationArgumentChallenges => proof.delegationArgument.toList
  | auxBoundaryValues => if applyShuffleRamLazyInit then [proof.auxBoundaryValues] else []
  | witnessCaps => proof.witnessTreeCaps
  | memoryCaps => proof.memoryTreeCaps
  | stage2Caps => proof.stage2TreeCaps
  | memoryGrandProductAccumulator => proof.memoryGrandProductAccumulator
  | delegationArgumentAccumulator => proof.delegationArgumentAccumulator.toList
  | quotientCaps => proof.quotientTreeCaps
  | openingsAtZ => proof.evaluationsAtRandomPoints.take layout.numOpeningsAtZ
  | openingsAtZOmega => proof.evaluationsAtRandomPoints.drop layout.numOpeningsAtZ
  | friIntermediateOracles => proof.deepPolyCaps :: proof.intermediateFriOracleCaps
  | friFinalStepLeafs => if proof.lastFriStepPlainLeafValues.length > 0 then
      proof.lastFriStepPlainLeafValues else List.replicate layout.numCosets []
  | monomialCoeffs => proof.finalMonomialForm
  | powNonce => proof.powNonce

/-- The components of a proof have the lengths that the verifier is configured for. -/
structure Matches (proof : Proof) (applyShuffleRamLazyInit : Bool) : Prop where
  publicInputs : proof.publicInputs.length = layout.numPublicInputs
  setupTreeCaps : layout.capsLayout.Fits proof.setupTreeCaps
  delegationArgument : proof.delegationArgument.toList.length = layout.numDelegationChallenges
  auxBoundaryValues : (if applyShuffleRamLazyInit then 1 else 0) = layout.numAuxBoundaryValues
  witnessTreeCaps : layout.capsLayout.Fits proof.witnessTreeCaps
  memoryTreeCaps : layout.capsLayout.Fits proof.memoryTreeCaps
  stage2TreeCaps : layout.capsLayout.Fits proof.stage2TreeCaps
  delegationArgumentAccumulator :
    proof.delegationArgumentAccumulator.toList.length = layout.numDelegationChallenges
  quotientTreeCaps : layout.capsLayout.Fits proof.quotientTreeCaps
  evaluations : proof.evaluationsAtRandomPoints.length =
    layout.numOpeningsAtZ + layout.numOpeningsAtZOmega
  friOracles : proof.intermediateFriOracleCaps.length + 1 = layout.friFoldingSchedule.length
  deepPolyCaps : layout.capsLayout.Fits proof.deepPolyCaps
  intermediateCaps : ∀ caps ∈ proof.intermediateFriOracleCaps, layout.capsLayout.Fits caps
  lastFriStep : proof.lastFriStepPlainLeafValues.length =
    if layout.lastFriStepLeafsTotalSizePerCoset = 0 then 0 else layout.numCosets
  lastFriStepLeafs : ∀ values ∈ proof.lastFriStepPlainLeafValues,
    values.length = layout.lastFriStepLeafsTotalSizePerCoset
  finalMonomialForm : proof.finalMonomialForm.length = layout.friFinalDegree

/-- Sizes of the leafs of a query, in the order in which they are written. -/
def leafSizes : List ℕ :=
  [layout.leafSizeSetup, layout.leafSizeWitnessTree, layout.leafSizeMemoryTree,
    layout.leafSizeStage2, leafSizeQuotient] ++ layout.friFoldingSchedule.map friLeafSize

structure QueryMatches (query : QuerySet) : Prop where
  leafs : query.inOrder.map (fun part => part.leafContent.length) = layout.leafSizes
  paths : query.inOrder.map (fun part => part.merkleProof.length) = layout.pathLengths

end ProofLayout

end Airbender.Verifier

import Airbender.Transcript.Buffering

/-!
# The seed of the external challenges

The challenges of the memory and delegation arguments are drawn from a transcript of the final
registers, the setup of the main circuit, and the commitments to the memory of all circuits.
-/

namespace Airbender.Prover

open Blake2s Transcript
open List hiding Vector

structure FinalRegisterValue where
  value : Word
  lastAccessTimestamp : BitVec 64
deriving DecidableEq

/-- `split_timestamp`: two columns of 19 bits, the upper one cut to a word. -/
def splitTimestamp (timestamp : BitVec 64) : Word × Word :=
  ((timestamp &&& (1#64 <<< 19 - 1)).setWidth 32, (timestamp >>> 19).setWidth 32)

abbrev MerkleTreeCapVarLength := List (Vector Word 8)

def flattenMerkleCaps (trees : List MerkleTreeCapVarLength) : List Word :=
  trees.flatMap fun subtree => subtree.flatMap Vector.toList

def registerValuesAndTimestamps (finalRegisterValues : List FinalRegisterValue) : List Word :=
  finalRegisterValues.flatMap fun register =>
    let (low, high) := splitTimestamp register.lastAccessTimestamp
    [register.value, low, high]

def absorbAllCaps (transcript : Blake2sBufferingTranscript)
    (caps : List (List MerkleTreeCapVarLength)) : Blake2sBufferingTranscript :=
  caps.foldl (fun transcript caps => transcript.absorb (flattenMerkleCaps caps)) transcript

/-- The block in front of the commitments of a delegation type. -/
def delegationHeader (delegationType : Word) : List Word := delegationType :: List.replicate 15 0

/-- The circuits of one delegation type. The header is left out when there are none. -/
def absorbDelegationCircuits (transcript : Blake2sBufferingTranscript)
    (circuits : Word × List (List MerkleTreeCapVarLength)) :
    Option Blake2sBufferingTranscript := do
  let started := if circuits.2.length > 0 then transcript.absorb (delegationHeader circuits.1)
    else transcript
  let absorbed := absorbAllCaps started circuits.2
  guard (absorbed.getCurrentBufferOffset = 16)
  some absorbed

def fsTransformForMemoryAndDelegationArguments (mainCircuitSetupCap : List MerkleTreeCapVarLength)
    (finalRegisterValues : List FinalRegisterValue)
    (riscVCircuitMerkleTreeCaps : List (List MerkleTreeCapVarLength))
    (delegationCircuitsMerkleTreeCaps : List (Word × List (List MerkleTreeCapVarLength))) :
    Option Seed := do
  let registers := Blake2sBufferingTranscript.new.absorb
    (registerValuesAndTimestamps finalRegisterValues)
  let setup := registers.absorb (flattenMerkleCaps mainCircuitSetupCap)
  let main := absorbAllCaps setup riscVCircuitMerkleTreeCaps
  guard (main.getCurrentBufferOffset = 16)
  guard (delegationCircuitsMerkleTreeCaps.IsChain fun first second => first.1 < second.1)
  let delegations ← delegationCircuitsMerkleTreeCaps.foldlM absorbDelegationCircuits main
  some delegations.finalize

def Blocks (slice : List Word) : Prop := slice ≠ [] ∧ slice.length % 16 = 0

def absorbAll (slices : List (List Word)) : Blake2sBufferingTranscript :=
  slices.foldl Blake2sBufferingTranscript.absorb .new

theorem absorbAll_snoc (slices : List (List Word)) (slice : List Word) :
    absorbAll (slices ++ [slice]) = (absorbAll slices).absorb slice := by
  rw [absorbAll, foldl_append]
  rfl

theorem absorbAll_append (slices more : List (List Word)) :
    absorbAll (slices ++ more) =
      more.foldl Blake2sBufferingTranscript.absorb (absorbAll slices) := by
  rw [absorbAll, foldl_append]
  rfl

variable {slices : List (List Word)} {circuits : Word × List (List MerkleTreeCapVarLength)}

theorem absorbAll_offset (blocks : ∀ slice ∈ slices, Blocks slice) (nonempty : slices ≠ []) :
    (absorbAll slices).bufferOffset = 16 := by
  induction slices using List.reverseRecOn with
  | nil => contradiction
  | append_singleton slices slice ih =>
    rw [absorbAll_snoc]
    have last := blocks slice (by simp)
    apply Blake2sBufferingTranscript.absorb_blocks ?_ last.1 last.2
    by_cases first : slices = []
    · subst first
      exact Or.inl rfl
    · exact Or.inr (ih (fun other member => blocks other (mem_append_left _ member)) first)

def delegationSlices (circuits : Word × List (List MerkleTreeCapVarLength)) : List (List Word) :=
  if circuits.2 = [] then []
  else delegationHeader circuits.1 :: circuits.2.map flattenMerkleCaps

theorem absorbAllCaps_eq (slices : List (List Word)) (caps : List (List MerkleTreeCapVarLength)) :
    absorbAllCaps (absorbAll slices) caps = absorbAll (slices ++ caps.map flattenMerkleCaps) := by
  rw [absorbAll_append, foldl_map]
  rfl

theorem delegationSlices_blocks (capBlocks : ∀ caps ∈ circuits.2, Blocks (flattenMerkleCaps caps)) :
    ∀ slice ∈ delegationSlices circuits, Blocks slice := by
  intro slice member
  unfold delegationSlices at member
  split_ifs at member with none
  · simp at member
  · rcases mem_cons.mp member with rfl | isSlice
    · exact ⟨by simp [delegationHeader], by simp [delegationHeader]⟩
    · rcases mem_map.mp isSlice with ⟨caps, isCaps, rfl⟩
      exact capBlocks caps isCaps

theorem absorbDelegationCircuits_eq (blocks : ∀ slice ∈ slices, Blocks slice)
    (nonempty : slices ≠ []) (capBlocks : ∀ caps ∈ circuits.2, Blocks (flattenMerkleCaps caps)) :
    absorbDelegationCircuits (absorbAll slices) circuits =
      some (absorbAll (slices ++ delegationSlices circuits)) := by
  have absorbed : absorbAllCaps (if circuits.2.length > 0 then
      (absorbAll slices).absorb (delegationHeader circuits.1) else absorbAll slices) circuits.2 =
      absorbAll (slices ++ delegationSlices circuits) := by
    unfold delegationSlices
    by_cases none : circuits.2 = []
    · simp [none, absorbAllCaps]
    · rw [if_pos (length_pos_of_ne_nil none), if_neg none, ← absorbAll_snoc,
        absorbAllCaps_eq, append_assoc, singleton_append]
  have offset : (absorbAll (slices ++ delegationSlices circuits)).bufferOffset = 16 := by
    apply absorbAll_offset ?_ (by simp [nonempty])
    intro slice member
    rcases mem_append.mp member with before | now
    · exact blocks slice before
    · exact delegationSlices_blocks capBlocks slice now
  simp [absorbDelegationCircuits, absorbed, Blake2sBufferingTranscript.getCurrentBufferOffset,
    offset]

theorem foldlM_absorbDelegationCircuits
    {delegations : List (Word × List (List MerkleTreeCapVarLength))}
    (blocks : ∀ slice ∈ slices, Blocks slice) (nonempty : slices ≠ [])
    (capBlocks : ∀ circuits ∈ delegations, ∀ caps ∈ circuits.2, Blocks (flattenMerkleCaps caps)) :
    delegations.foldlM absorbDelegationCircuits (absorbAll slices) =
      some (absorbAll (slices ++ delegations.flatMap delegationSlices)) := by
  induction delegations generalizing slices with
  | nil => simp
  | cons circuits delegations ih =>
    have first := capBlocks circuits (by simp)
    have stillBlocks : ∀ slice ∈ slices ++ delegationSlices circuits, Blocks slice := by
      intro slice member
      rcases mem_append.mp member with before | now
      · exact blocks slice before
      · exact delegationSlices_blocks first slice now
    rw [foldlM_cons, absorbDelegationCircuits_eq blocks nonempty first]
    have rest := ih stillBlocks (by simp [nonempty])
      fun other member => capBlocks other (mem_cons_of_mem _ member)
    simpa [flatMap_cons, append_assoc] using rest

def statementSlices (registers setup : List Word) (main : List (List Word))
    (delegations : List (List Word)) : List (List Word) :=
  registers :: setup :: (main ++ delegations)

theorem fsTransform_eq {mainCircuitSetupCap : List MerkleTreeCapVarLength}
    {finalRegisterValues : List FinalRegisterValue}
    {riscVCircuitMerkleTreeCaps : List (List MerkleTreeCapVarLength)}
    {delegationCircuitsMerkleTreeCaps : List (Word × List (List MerkleTreeCapVarLength))}
    (registerBlocks : Blocks (registerValuesAndTimestamps finalRegisterValues))
    (setupBlocks : Blocks (flattenMerkleCaps mainCircuitSetupCap))
    (mainBlocks : ∀ caps ∈ riscVCircuitMerkleTreeCaps, Blocks (flattenMerkleCaps caps))
    (delegationBlocks : ∀ circuits ∈ delegationCircuitsMerkleTreeCaps, ∀ caps ∈ circuits.2,
      Blocks (flattenMerkleCaps caps))
    (sorted : delegationCircuitsMerkleTreeCaps.IsChain fun first second => first.1 < second.1) :
    fsTransformForMemoryAndDelegationArguments mainCircuitSetupCap finalRegisterValues
        riscVCircuitMerkleTreeCaps delegationCircuitsMerkleTreeCaps =
      some (absorbAll (statementSlices (registerValuesAndTimestamps finalRegisterValues)
        (flattenMerkleCaps mainCircuitSetupCap)
        (riscVCircuitMerkleTreeCaps.map flattenMerkleCaps)
        (delegationCircuitsMerkleTreeCaps.flatMap delegationSlices))).finalize := by
  let start : List (List Word) := registerValuesAndTimestamps finalRegisterValues ::
    flattenMerkleCaps mainCircuitSetupCap :: riscVCircuitMerkleTreeCaps.map flattenMerkleCaps
  have main : absorbAllCaps ((Blake2sBufferingTranscript.new.absorb
      (registerValuesAndTimestamps finalRegisterValues)).absorb
        (flattenMerkleCaps mainCircuitSetupCap)) riscVCircuitMerkleTreeCaps = absorbAll start :=
    absorbAllCaps_eq [_, _] _
  have blocks : ∀ slice ∈ start, Blocks slice := by
    intro slice member
    simp only [start, mem_cons, mem_map] at member
    rcases member with rfl | rfl | ⟨caps, isCaps, rfl⟩
    · exact registerBlocks
    · exact setupBlocks
    · exact mainBlocks caps isCaps
  have offset := absorbAll_offset blocks (by simp [start])
  have delegations := foldlM_absorbDelegationCircuits blocks (by simp [start]) delegationBlocks
  simp only [fsTransformForMemoryAndDelegationArguments, main,
    Blake2sBufferingTranscript.getCurrentBufferOffset, offset, sorted, guard_true, delegations]
  rfl

end Airbender.Prover

import Airbender.Verifier.ProofFlattener

/-!
# Reading what was written

Filling a skeleton from a flattened proof consumes exactly the flattened words and puts every
component into its own field, for all combinations of optional components.
-/

namespace Airbender.Verifier

open Blake2s Merkle Mersenne31Field MemoryLayout BitVec
open List hiding Vector

def Preserved (mode : ReadMode) (words : List Word) : Prop :=
  ∀ word ∈ words, mode.convert word = word

theorem preserved_word (words : List Word) : Preserved .word words := fun _ _ => rfl

theorem preserved_append {mode : ReadMode} {first second : List Word} :
    Preserved mode (first ++ second) ↔ Preserved mode first ∧ Preserved mode second := by
  simp only [Preserved, mem_append, or_imp, forall_and]

theorem preserved_flatMap {α : Type} {mode : ReadMode} {values : List α} {write : α → List Word}
    (each : ∀ value, Preserved mode (write value)) : Preserved mode (values.flatMap write) := by
  intro word member
  obtain ⟨value, -, inside⟩ := mem_flatMap.mp member
  exact each value word inside

variable (mode : ReadMode)

theorem convert_toReducedU32 (element : Mersenne31Field) :
    mode.convert (toReducedU32 element) = toReducedU32 element := by
  cases mode with
  | word => rfl
  | reducedFieldElement =>
    refine eq_of_toNat_eq ?_
    rw [ReadMode.convert, toNat_umod, toNat_toReducedU32]
    exact Nat.mod_eq_of_lt (ZMod.val_lt element)

theorem preserved_reducedCoefficients (element : Mersenne31Quartic) :
    Preserved mode (reducedCoefficients element) := by
  intro word member
  obtain ⟨coefficient, -, rfl⟩ := mem_map.mp member
  exact convert_toReducedU32 mode coefficient

theorem preserved_leaf (leaf : List Mersenne31Field) : Preserved mode (flattenLeafInto leaf) := by
  intro word member
  obtain ⟨element, -, rfl⟩ := mem_map.mp member
  exact convert_toReducedU32 mode element

theorem digestLayout_write (digest : Digest) : digestLayout.write digest = digest.toList :=
  flatMap_singleton' digest.toList

namespace ProofLayout

variable (layout : ProofLayout)

theorem capsLayout_write (caps : TreeCaps) :
    layout.capsLayout.write caps = flattenMerkleCapsInto caps := by
  have digests : digestLayout.write = Vector.toList := funext digestLayout_write
  change caps.flatMap (fun cap => cap.flatMap digestLayout.write) = _
  rw [digests]
  rfl

def componentWords (proof : Proof) (applyShuffleRamLazyInit : Bool) (field : SkeletonField) :
    List Word :=
  (layout.fieldLayout field).write (layout.componentOf proof applyShuffleRamLazyInit field)

section

variable (proof : Proof) (applyShuffleRamLazyInit : Bool)

theorem componentWords_delegationArgument :
    layout.componentWords proof applyShuffleRamLazyInit .delegationArgumentChallenges =
      proof.delegationArgument.elim [] ExternalDelegationArgumentChallenges.flatten := by
  change proof.delegationArgument.toList.flatMap delegationChallengesLayout.write = _
  cases proof.delegationArgument with
  | none => rfl
  | some challenges => rw [Option.toList_some, flatMap_singleton]; rfl

theorem componentWords_delegationAccumulator :
    layout.componentWords proof applyShuffleRamLazyInit .delegationArgumentAccumulator =
      proof.delegationArgumentAccumulator.elim [] reducedCoefficients := by
  change proof.delegationArgumentAccumulator.toList.flatMap quarticLayout.write = _
  cases proof.delegationArgumentAccumulator with
  | none => rfl
  | some accumulator => rw [Option.toList_some, flatMap_singleton]; rfl

theorem componentWords_auxBoundaryValues :
    layout.componentWords proof applyShuffleRamLazyInit .auxBoundaryValues =
      if applyShuffleRamLazyInit then proof.auxBoundaryValues.flatten else [] := by
  change (if applyShuffleRamLazyInit then [proof.auxBoundaryValues] else []).flatMap
    boundaryValuesLayout.write = _
  cases applyShuffleRamLazyInit with
  | false => rfl
  | true => rw [if_pos rfl, if_pos rfl, flatMap_singleton]; rfl

theorem componentWords_openings :
    layout.componentWords proof applyShuffleRamLazyInit .openingsAtZ ++
        layout.componentWords proof applyShuffleRamLazyInit .openingsAtZOmega =
      proof.evaluationsAtRandomPoints.flatMap reducedCoefficients := by
  change (proof.evaluationsAtRandomPoints.take _).flatMap quarticLayout.write ++
    (proof.evaluationsAtRandomPoints.drop _).flatMap quarticLayout.write = _
  rw [← flatMap_append, take_append_drop]
  rfl

theorem componentWords_friOracles :
    layout.componentWords proof applyShuffleRamLazyInit .friIntermediateOracles =
      flattenMerkleCapsInto proof.deepPolyCaps ++
        proof.intermediateFriOracleCaps.flatMap flattenMerkleCapsInto := by
  have caps : layout.capsLayout.write = flattenMerkleCapsInto := funext layout.capsLayout_write
  change (proof.deepPolyCaps :: proof.intermediateFriOracleCaps).flatMap
    layout.capsLayout.write = _
  rw [caps, flatMap_cons]

theorem componentWords_lastFriStep :
    layout.componentWords proof applyShuffleRamLazyInit .friFinalStepLeafs =
      if proof.lastFriStepPlainLeafValues.length > 0 then
        proof.lastFriStepPlainLeafValues.flatMap fun values => values.flatMap reducedCoefficients
      else [] := by
  change (if proof.lastFriStepPlainLeafValues.length > 0 then proof.lastFriStepPlainLeafValues
    else List.replicate layout.numCosets []).flatMap
      (fun values => values.flatMap quarticLayout.write) = _
  split
  · rfl
  · simp

theorem flatMap_inOrder {words : SkeletonField → List Word} {openings : List Word}
    (both : words .openingsAtZ ++ words .openingsAtZOmega = openings) :
    SkeletonField.inOrder.tail.flatMap words =
      words .circuitSequenceIdx ++ words .delegationType ++ words .publicInputs ++
        words .setupCaps ++ words .memoryArgumentChallenges ++
        words .delegationArgumentChallenges ++ words .auxBoundaryValues ++ words .witnessCaps ++
        words .memoryCaps ++ words .stage2Caps ++ words .memoryGrandProductAccumulator ++
        words .delegationArgumentAccumulator ++ words .quotientCaps ++
        openings ++ words .friIntermediateOracles ++ words .friFinalStepLeafs ++
        words .monomialCoeffs ++ words .powNonce := by
  rw [← both]
  simp only [SkeletonField.inOrder, tail_cons, flatMap_cons, flatMap_nil,
    append_nil, List.append_assoc]

theorem flattenProofForSkeleton_eq :
    flattenProofForSkeleton proof applyShuffleRamLazyInit =
      SkeletonField.inOrder.tail.flatMap
        (layout.componentWords proof applyShuffleRamLazyInit) := by
  have sequence : layout.componentWords proof applyShuffleRamLazyInit .circuitSequenceIdx =
    [proof.circuitSequence.setWidth 32] := rfl
  have delegation : layout.componentWords proof applyShuffleRamLazyInit .delegationType =
    [proof.delegationType.setWidth 32] := rfl
  have inputs : layout.componentWords proof applyShuffleRamLazyInit .publicInputs =
    proof.publicInputs.map toReducedU32 := map_eq_flatMap.symm
  have setup : layout.componentWords proof applyShuffleRamLazyInit .setupCaps =
    flattenMerkleCapsInto proof.setupTreeCaps := layout.capsLayout_write _
  have challenges : layout.componentWords proof applyShuffleRamLazyInit
    .memoryArgumentChallenges = proof.memoryArgument.flatten := rfl
  have witness : layout.componentWords proof applyShuffleRamLazyInit .witnessCaps =
    flattenMerkleCapsInto proof.witnessTreeCaps := layout.capsLayout_write _
  have memory : layout.componentWords proof applyShuffleRamLazyInit .memoryCaps =
    flattenMerkleCapsInto proof.memoryTreeCaps := layout.capsLayout_write _
  have stage2 : layout.componentWords proof applyShuffleRamLazyInit .stage2Caps =
    flattenMerkleCapsInto proof.stage2TreeCaps := layout.capsLayout_write _
  have product : layout.componentWords proof applyShuffleRamLazyInit
    .memoryGrandProductAccumulator =
      reducedCoefficients proof.memoryGrandProductAccumulator := rfl
  have quotient : layout.componentWords proof applyShuffleRamLazyInit .quotientCaps =
    flattenMerkleCapsInto proof.quotientTreeCaps := layout.capsLayout_write _
  have monomials : layout.componentWords proof applyShuffleRamLazyInit .monomialCoeffs =
    proof.finalMonomialForm.flatMap reducedCoefficients := rfl
  have nonce : layout.componentWords proof applyShuffleRamLazyInit .powNonce =
    [proof.powNonce.setWidth 32, (proof.powNonce >>> 32).setWidth 32] := rfl
  rw [flatMap_inOrder (layout.componentWords_openings proof applyShuffleRamLazyInit), sequence,
    delegation, inputs, setup, challenges, componentWords_delegationArgument,
    componentWords_auxBoundaryValues, witness, memory, stage2, product,
    componentWords_delegationAccumulator, quotient, componentWords_friOracles,
    componentWords_lastFriStep, monomials, nonce]
  unfold flattenProofForSkeleton
  simp only [List.append_assoc, List.cons_append, nil_append]

end

variable {field : SkeletonField} {layout : ProofLayout} {proof : Proof}
  {applyShuffleRamLazyInit : Bool}

theorem fieldLayout_size (real : field ≠ .padding) :
    (layout.fieldLayout field).size = layout.size field := by
  cases field with
  | padding => exact absurd rfl real
  | publicInputs => exact Nat.mul_one _
  | delegationArgumentChallenges => exact Nat.mul_comm _ 16
  | auxBoundaryValues => exact Nat.mul_comm _ 12
  | delegationArgumentAccumulator => exact Nat.mul_comm _ 4
  | openingsAtZ => exact Nat.mul_comm _ 4
  | openingsAtZOmega => exact Nat.mul_comm _ 4
  | monomialCoeffs => exact Nat.mul_comm _ 4
  | friFinalStepLeafs => exact congrArg (layout.numCosets * ·) (Nat.mul_comm _ 4)
  | _ => rfl

theorem quarticLayout_fits (element : Mersenne31Quartic) : quarticLayout.Fits element :=
  ⟨⟨trivial, trivial⟩, trivial, trivial⟩

theorem quartics_fit {values : List Mersenne31Quartic} {count : ℕ}
    (length : values.length = count) : (quarticLayout.array count).Fits values :=
  ⟨length, fun element _ => quarticLayout_fits element⟩

theorem Matches.fits (lengths : layout.Matches proof applyShuffleRamLazyInit)
    (field : SkeletonField) :
    (layout.fieldLayout field).Fits (layout.componentOf proof applyShuffleRamLazyInit field) := by
  cases field with
  | padding => trivial
  | circuitSequenceIdx => trivial
  | delegationType => trivial
  | publicInputs => exact ⟨lengths.publicInputs, fun _ _ => trivial⟩
  | setupCaps => exact lengths.setupTreeCaps
  | memoryArgumentChallenges =>
    exact ⟨Layout.vector_fits quarticLayout_fits _, quarticLayout_fits _⟩
  | delegationArgumentChallenges =>
    exact ⟨lengths.delegationArgument, fun challenges _ =>
      ⟨Layout.vector_fits quarticLayout_fits _, quarticLayout_fits _⟩⟩
  | auxBoundaryValues =>
    refine ⟨?_, fun values _ => ?_⟩
    · rw [← lengths.auxBoundaryValues]
      cases applyShuffleRamLazyInit <;> rfl
    · exact ⟨⟨trivial, trivial⟩, ⟨trivial, trivial⟩, ⟨trivial, trivial⟩, ⟨trivial, trivial⟩,
        ⟨trivial, trivial⟩, trivial, trivial⟩
  | witnessCaps => exact lengths.witnessTreeCaps
  | memoryCaps => exact lengths.memoryTreeCaps
  | stage2Caps => exact lengths.stage2TreeCaps
  | memoryGrandProductAccumulator => exact quarticLayout_fits _
  | delegationArgumentAccumulator => exact quartics_fit lengths.delegationArgumentAccumulator
  | quotientCaps => exact lengths.quotientTreeCaps
  | openingsAtZ =>
    have length : (proof.evaluationsAtRandomPoints.take layout.numOpeningsAtZ).length =
        layout.numOpeningsAtZ := by
      rw [length_take, lengths.evaluations]
      omega
    exact quartics_fit length
  | openingsAtZOmega =>
    have length : (proof.evaluationsAtRandomPoints.drop layout.numOpeningsAtZ).length =
        layout.numOpeningsAtZOmega := by
      rw [length_drop, lengths.evaluations]
      omega
    exact quartics_fit length
  | friIntermediateOracles =>
    refine ⟨lengths.friOracles, fun caps member => ?_⟩
    rcases mem_cons.mp member with rfl | later
    · exact lengths.deepPolyCaps
    · exact lengths.intermediateCaps caps later
  | friFinalStepLeafs =>
    have length := lengths.lastFriStep
    change ((quarticLayout.array _).array _).Fits (if proof.lastFriStepPlainLeafValues.length > 0
      then proof.lastFriStepPlainLeafValues else List.replicate layout.numCosets [])
    by_cases hidden : layout.lastFriStepLeafsTotalSizePerCoset = 0
    · rw [if_pos hidden] at length
      rw [if_neg (by omega)]
      refine ⟨length_replicate, fun values member => quartics_fit ?_⟩
      rw [(mem_replicate.mp member).2, hidden, length_nil]
    · rw [if_neg hidden] at length
      have cosets : 0 < layout.numCosets := Nat.two_pow_pos _
      rw [if_pos (by omega)]
      exact ⟨length, fun values member => quartics_fit (lengths.lastFriStepLeafs values member)⟩
  | monomialCoeffs => exact quartics_fit lengths.finalMonomialForm
  | powNonce => exact ⟨trivial, trivial⟩

theorem componentWords_preserved (proof : Proof) (applyShuffleRamLazyInit : Bool)
    (field : SkeletonField) :
    Preserved (fieldMode skeletonStops field)
      (layout.componentWords proof applyShuffleRamLazyInit field) := by
  have quartics : ∀ values : List Mersenne31Quartic,
      Preserved .reducedFieldElement (values.flatMap quarticLayout.write) :=
    fun values => preserved_flatMap (preserved_reducedCoefficients _)
  rw [fieldMode_eq]
  split
  case isFalse => exact preserved_word _
  case isTrue element =>
    cases field with
    | publicInputs => exact preserved_flatMap fun value => preserved_leaf _ [value]
    | memoryArgumentChallenges =>
      exact preserved_append.mpr ⟨quartics _, preserved_reducedCoefficients _ _⟩
    | delegationArgumentChallenges =>
      exact preserved_flatMap fun value =>
        preserved_append.mpr ⟨quartics _, preserved_reducedCoefficients _ _⟩
    | auxBoundaryValues =>
      refine preserved_flatMap fun value => ?_
      change Preserved _ value.flatten
      exact preserved_flatMap fun limbs => preserved_leaf _ [limbs.1, limbs.2]
    | memoryGrandProductAccumulator => exact preserved_reducedCoefficients _ _
    | delegationArgumentAccumulator => exact quartics _
    | openingsAtZ => exact quartics _
    | openingsAtZOmega => exact quartics _
    | monomialCoeffs => exact quartics _
    | friFinalStepLeafs => exact absurd rfl element.2
    | padding => exact absurd element.1 (by decide)
    | circuitSequenceIdx => exact absurd element.1 (by decide)
    | delegationType => exact absurd element.1 (by decide)
    | setupCaps => exact absurd element.1 (by decide)
    | witnessCaps => exact absurd element.1 (by decide)
    | memoryCaps => exact absurd element.1 (by decide)
    | stage2Caps => exact absurd element.1 (by decide)
    | quotientCaps => exact absurd element.1 (by decide)
    | friIntermediateOracles => exact absurd element.1 (by decide)
    | powNonce => exact absurd element.1 (by decide)

theorem length_componentWords (lengths : layout.Matches proof applyShuffleRamLazyInit)
    (real : field ≠ .padding) :
    (layout.componentWords proof applyShuffleRamLazyInit field).length = layout.size field := by
  rw [← layout.fieldLayout_size real]
  exact (layout.fieldLayout field).length_write (lengths.fits field)

theorem map_range_getD (words : List Word) :
    (List.range words.length).map (fun index => words.getD index 0) = words := by
  refine ext_getElem? fun index => ?_
  by_cases inside : index < words.length
  · simp [inside, getD_eq_getElem?_getD]
  · have outside := Nat.not_lt.mp inside
    rw [List.getElem?_eq_none (by simpa using outside), List.getElem?_eq_none outside]

theorem flattenProofForSkeleton_layOut (lengths : layout.Matches proof applyShuffleRamLazyInit) :
    flattenProofForSkeleton proof applyShuffleRamLazyInit =
      PackedRecord.layOut SkeletonField.inOrder.tail layout.size fun field index =>
        (layout.componentWords proof applyShuffleRamLazyInit field).getD index 0 := by
  rw [layout.flattenProofForSkeleton_eq, PackedRecord.layOut]
  refine flatMap_congr fun field member => ?_
  have real : field ≠ .padding := by
    rintro rfl
    exact absurd member (by decide)
  rw [← length_componentWords lengths real, map_range_getD]

def skeletonOfProof (slot : Memory) (proof : Proof) (applyShuffleRamLazyInit : Bool)
    (rest : Source) : Memory :=
  layout.skeletonOf slot
    (fun field index => (layout.componentWords proof applyShuffleRamLazyInit field).getD index 0)
    rest

variable (lengths : layout.Matches proof applyShuffleRamLazyInit)

include lengths

variable (slot : Memory) (rest : Source)

theorem skeletonOfProof_holds (real : field ≠ .padding) :
    Holds (shift (layout.skeletonOfProof slot proof applyShuffleRamLazyInit rest)
      (layout.offset field)) (layout.componentWords proof applyShuffleRamLazyInit field) := by
  intro index word known
  obtain ⟨inside, -⟩ := List.getElem?_eq_some_iff.mp known
  rw [length_componentWords lengths real] at inside
  rw [shift, skeletonOfProof, layout.skeletonOf_word slot _ rest real inside,
    getD_eq_getElem?_getD, known, Option.getD_some]
  exact layout.componentWords_preserved proof applyShuffleRamLazyInit field word
    (List.mem_of_getElem? known)

theorem fieldOf_skeletonOfProof (real : field ≠ .padding) :
    layout.fieldOf (layout.skeletonOfProof slot proof applyShuffleRamLazyInit rest) field =
      layout.componentOf proof applyShuffleRamLazyInit field :=
  (layout.fieldLayout field).view_eq (lengths.fits field)
    (skeletonOfProof_holds lengths slot rest real)

omit lengths

theorem zeroExtended_and (value : BitVec 16) : value.setWidth 32 &&& 0xffff0000 = (0 : Word) := by
  refine eq_of_getLsbD_eq fun index bound => ?_
  have zero : (0 : Word).getLsbD index = false := BitVec.getLsbD_zero
  rw [getLsbD_and, getLsbD_setWidth, zero]
  by_cases low : index < 16
  · have mask : ∀ bit < 16, (0xffff0000 : Word).getLsbD bit = false := by decide
    rw [mask index low, Bool.and_false]
  · rw [getLsbD_of_ge value index (Nat.not_lt.mp low), Bool.and_false, Bool.false_and]

include lengths

theorem fillSkeleton_flatten :
    (layout.fillSkeleton slot).run
        (flattenProofForSkeleton proof applyShuffleRamLazyInit ++ rest) =
      some (layout.skeletonOfProof slot proof applyShuffleRamLazyInit rest, rest) := by
  rw [flattenProofForSkeleton_layOut lengths]
  exact layout.fillSkeleton_layOut slot rest (zeroExtended_and proof.circuitSequence)
    (zeroExtended_and proof.delegationType)

end ProofLayout

end Airbender.Verifier

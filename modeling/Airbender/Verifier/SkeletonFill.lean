import Airbender.Verifier.Skeleton

/-!
# Filling the skeleton

The loops that fill the skeleton stop at the offsets of its fields, so that each field is read in
one mode: as words, or reduced to field elements. A source that lists the fields in order fills the
skeleton with them.
-/

namespace Airbender.Verifier

open Blake2s Merkle List

namespace ProofLayout

variable (layout : ProofLayout)

def skeletonStops : List (ReadMode × SkeletonField) :=
  [(.word, .publicInputs), (.reducedFieldElement, .setupCaps),
    (.word, .memoryArgumentChallenges), (.reducedFieldElement, .witnessCaps),
    (.word, .memoryGrandProductAccumulator), (.reducedFieldElement, .quotientCaps),
    (.word, .openingsAtZ), (.reducedFieldElement, .friIntermediateOracles),
    (.word, .monomialCoeffs), (.reducedFieldElement, .powNonce)]

theorem skeletonLoops_eq : layout.skeletonLoops =
    skeletonStops.map (fun stop => (stop.1, layout.offset stop.2)) ++
      [(.word, layout.skeletonWords)] := rfl

def position (field : SkeletonField) : ℕ := SkeletonField.inOrder.idxOf field

theorem offset_add_size_le {field next : SkeletonField} (before : position field < position next) :
    layout.offset field + layout.size field ≤ layout.offset next :=
  PackedRecord.offset_add_size_le before

theorem offset_le {field next : SkeletonField} (notAfter : position field ≤ position next) :
    layout.offset field ≤ layout.offset next := by
  rcases Nat.lt_or_eq_of_le notAfter with before | same
  · have ends := layout.offset_add_size_le before
    omega
  · rw [offset, offset, PackedRecord.offset, PackedRecord.offset]
    rw [position, position] at same
    rw [same]

/-- The mode in which a field is read: that of the first loop that stops behind it. -/
def fieldMode : List (ReadMode × SkeletonField) → SkeletonField → ReadMode
  | [], _ => .word
  | (mode, next) :: stops, field =>
    if position field < position next then mode else fieldMode stops field

theorem modeAt_stops (stops : List (ReadMode × SkeletonField)) {field : SkeletonField}
    {index : ℕ} (inside : index < layout.size field) (last : ℕ) :
    modeAt (stops.map (fun stop => (stop.1, layout.offset stop.2)) ++ [(.word, last)])
      (layout.offset field + index) = fieldMode stops field := by
  induction stops with
  | nil => simp [modeAt, fieldMode]
  | cons stop stops ih =>
    obtain ⟨mode, next⟩ := stop
    simp only [map_cons, cons_append, modeAt, fieldMode]
    by_cases before : position field < position next
    · have ends := layout.offset_add_size_le before
      rw [if_pos before, if_pos (by omega)]
    · have starts := layout.offset_le (Nat.not_lt.mp before)
      rw [if_neg before, if_neg (by omega), ih]

theorem fieldMode_eq (field : SkeletonField) : fieldMode skeletonStops field =
    if field.isFieldElement = true ∧ field ≠ .friFinalStepLeafs then .reducedFieldElement
    else .word := by
  cases field <;> decide

theorem skeletonWords_eq :
    layout.skeletonWords = (SkeletonField.inOrder.map layout.size).sum :=
  @PackedRecord.offset_add_size_last _ _ SkeletonField.inOrder.dropLast _ _ (by decide)

theorem offset_le_skeletonWords (field : SkeletonField) :
    layout.offset field ≤ layout.skeletonWords := by
  have last : position field ≤ position .powNonce := by cases field <;> decide
  exact le_trans (layout.offset_le last) (Nat.le_add_right _ _)

theorem loopsEnd_skeletonLoops :
    loopsEnd layout.skeletonLoops (layout.offset .circuitSequenceIdx) = layout.skeletonWords := by
  rw [skeletonLoops_eq]
  refine loopsEnd_append _ _ (layout.offset_le_skeletonWords _) ?_
  intro loop member
  obtain ⟨stop, -, rfl⟩ := mem_map.mp member
  exact layout.offset_le_skeletonWords stop.2

/-- The word of the source that is written to a place of the skeleton. -/
def skeletonInput (source : Source) (place : ℕ) : Word :=
  source.getD (place - layout.offset .circuitSequenceIdx) 0

theorem filledLoops_skeleton (slot : Memory) (source : Source) {field : SkeletonField}
    (real : field ≠ .padding) {index : ℕ} (inside : index < layout.size field) :
    filledLoops layout.skeletonLoops (layout.offset .circuitSequenceIdx) slot source
        (layout.offset field + index) =
      (fieldMode skeletonStops field).convert
        (layout.skeletonInput source (layout.offset field + index)) := by
  have starts : layout.offset .circuitSequenceIdx ≤ layout.offset field := by
    refine layout.offset_le ?_
    cases field <;> first | exact absurd rfl real | decide
  have ends : layout.offset field + layout.size field ≤ layout.skeletonWords := by
    by_cases last : field = .powNonce
    · rw [last]
      exact le_refl _
    · have before : position field < position .powNonce := by
        cases field <;> first | exact absurd rfl last | decide
      exact le_trans (layout.offset_add_size_le before) (Nat.le_add_right _ _)
  rw [filledLoops, loopsEnd_skeletonLoops, if_pos (by omega), skeletonLoops_eq,
    layout.modeAt_stops _ inside]
  rfl

theorem fillSkeleton_eq_some {slot skeleton : Memory} {source rest : Source}
    (filled : (layout.fillSkeleton slot).run source = some (skeleton, rest)) :
    skeleton = filledLoops layout.skeletonLoops (layout.offset .circuitSequenceIdx) slot
      source := by
  obtain ⟨memory, afterLoops, loops, checks⟩ := bind_eq_some filled
  obtain ⟨_, _, _, checks⟩ := bind_eq_some checks
  obtain ⟨_, _, _, checks⟩ := bind_eq_some checks
  have result : memory = skeleton := congrArg Prod.fst (Option.some.inj checks)
  rw [fillLoops_run] at loops
  split at loops
  · rw [← result]
    exact (congrArg Prod.fst (Option.some.inj loops)).symm
  · exact absurd loops (by simp)

theorem skeletonInput_layOut (word : SkeletonField → ℕ → Word) (rest : Source)
    {field : SkeletonField} (real : field ≠ .padding) {index : ℕ}
    (inside : index < layout.size field) :
    layout.skeletonInput (PackedRecord.layOut SkeletonField.inOrder.tail layout.size word ++ rest)
        (layout.offset field + index) = word field index := by
  have member : field ∈ SkeletonField.inOrder.tail := by
    cases field <;> first | exact absurd rfl real | decide
  have shifted : layout.offset field = layout.offset .circuitSequenceIdx +
      PackedRecord.offset SkeletonField.inOrder.tail layout.size field :=
    PackedRecord.offset_cons_of_ne (Ne.symm real)
  rw [skeletonInput, shifted, Nat.add_assoc, Nat.add_sub_cancel_left]
  exact PackedRecord.getD_layOut _ _ _ member inside

/-- The skeleton that is filled with the given words of its fields. -/
def skeletonOf (slot : Memory) (word : SkeletonField → ℕ → Word) (rest : Source) : Memory :=
  filledLoops layout.skeletonLoops (layout.offset .circuitSequenceIdx) slot
    (PackedRecord.layOut SkeletonField.inOrder.tail layout.size word ++ rest)

theorem skeletonOf_word (slot : Memory) (word : SkeletonField → ℕ → Word) (rest : Source)
    {field : SkeletonField} (real : field ≠ .padding) {index : ℕ}
    (inside : index < layout.size field) :
    layout.skeletonOf slot word rest (layout.offset field + index) =
      (fieldMode skeletonStops field).convert (word field index) := by
  rw [skeletonOf, layout.filledLoops_skeleton _ _ real inside,
    layout.skeletonInput_layOut word rest real inside]

theorem fillSkeleton_layOut (slot : Memory) {word : SkeletonField → ℕ → Word} (rest : Source)
    (sequence : word .circuitSequenceIdx 0 &&& 0xffff0000 = 0)
    (delegation : word .delegationType 0 &&& 0xffff0000 = 0) :
    (layout.fillSkeleton slot).run
        (PackedRecord.layOut SkeletonField.inOrder.tail layout.size word ++ rest) =
      some (layout.skeletonOf slot word rest, rest) := by
  have length : layout.skeletonWords - layout.offset .circuitSequenceIdx =
      (PackedRecord.layOut SkeletonField.inOrder.tail layout.size word).length := by
    have start : layout.offset .circuitSequenceIdx = layout.size .padding := rfl
    have parts : (SkeletonField.inOrder.map layout.size).sum =
        layout.size .padding + (SkeletonField.inOrder.tail.map layout.size).sum := rfl
    rw [PackedRecord.length_layOut, skeletonWords_eq, start, parts, Nat.add_sub_cancel_left]
  have loops : (fillLoops layout.skeletonLoops (layout.offset .circuitSequenceIdx) slot).run
      (PackedRecord.layOut SkeletonField.inOrder.tail layout.size word ++ rest) =
        some (layout.skeletonOf slot word rest, rest) := by
    rw [fillLoops_run, loopsEnd_skeletonLoops, length, if_pos (by simp)]
    exact congrArg (fun others => some (layout.skeletonOf slot word rest, others)) drop_left
  have sequenceWord : layout.skeletonOf slot word rest (layout.offset .circuitSequenceIdx) =
      word .circuitSequenceIdx 0 :=
    @skeletonOf_word layout slot word rest .circuitSequenceIdx (by decide) 0 Nat.one_pos
  have delegationWord : layout.skeletonOf slot word rest (layout.offset .delegationType) =
      word .delegationType 0 :=
    @skeletonOf_word layout slot word rest .delegationType (by decide) 0 Nat.one_pos
  simp only [fillSkeleton, StateT.run_bind, loops, Option.bind_eq_bind, Option.bind_some,
    sequenceWord, delegationWord, sequence, delegation]
  rfl

def friPathLengths : List ℕ → (pathLength : ℕ) → List ℕ
  | [], _ => []
  | degree :: schedule, pathLength =>
    (pathLength - degree) :: friPathLengths schedule (pathLength - degree)

def pathLengths : List ℕ :=
  List.replicate 5 layout.defaultMerklePathLength ++
    friPathLengths layout.friFoldingSchedule layout.defaultMerklePathLength

theorem depth_friOpenings (skeleton query : Memory) (cosetIndex : ℕ) (schedule : List ℕ)
    (step treeIndex pathLength start : ℕ) :
    (layout.friOpenings skeleton query cosetIndex schedule step treeIndex pathLength
        start).map LeafOpening.depth = friPathLengths schedule pathLength := by
  induction schedule generalizing step treeIndex pathLength start with
  | nil => rfl
  | cons degree schedule ih => rw [friOpenings, map_cons, friPathLengths, ih]

theorem depth_leafOpenings (skeleton query : Memory) (cosetIndex treeIndex : ℕ) :
    (layout.leafOpenings skeleton query cosetIndex treeIndex).map LeafOpening.depth =
      layout.pathLengths := by
  rw [leafOpenings, map_append, depth_friOpenings]
  rfl

end ProofLayout

end Airbender.Verifier

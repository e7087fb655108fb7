import Airbender.Merkle.LeafInclusionProof
import Airbender.Verifier.SkeletonFill

/-!
# Which words of a proof are canonical

Every field element of a filled proof is reduced when it is read, except for the leafs of the last
FRI step: the loop that reads them takes words as they come.
-/

namespace Airbender.Verifier

open Blake2s Merkle MerkleTree Option Nat
open List hiding Vector count

variable (layout : ProofLayout)

/-- Everything that is later used as a field element is below the modulus. -/
structure Canonical (proof : FilledProof) : Prop where
  skeleton : ∀ field, field.isFieldElement = true → ∀ index < layout.size field,
    (proof.skeleton (layout.offset field + index)).toNat < 2147483647
  queries : ∀ query ∈ proof.queries, ∀ place, 1 ≤ place → place < layout.queryWords →
    (query place).toNat < 2147483647

/-- Two skeletons with the same field elements and the same unstructured words. -/
def SameData (first second : Memory) : Prop :=
  ∀ field, field ≠ .padding → ∀ index < layout.size field,
    if field.isFieldElement = true then
      ((first (layout.offset field + index)).toNat : Mersenne31Field) =
        (second (layout.offset field + index)).toNat
    else first (layout.offset field + index) = second (layout.offset field + index)

/-- The source delivers the leafs of the last FRI step reduced. -/
def LeafsReduced (source : Source) : Prop :=
  ∀ index < layout.size .friFinalStepLeafs,
    (layout.skeletonInput source (layout.offset .friFinalStepLeafs + index)).toNat < 2147483647

variable {layout}

variable {verifier : LeafInclusionVerifier} {hasher : verifier.Hasher}

theorem fillQuery_canonical {skeleton slot query : Memory} {after : verifier.Hasher}
    {source rest : Source} (filled : (fillQuery verifier layout skeleton slot hasher).run source =
      some ((query, after), rest)) {place : ℕ} (leaf : 1 ≤ place)
    (inside : place < layout.queryWords) : (query place).toNat < 2147483647 := by
  obtain ⟨queryIndex, _, _, filled⟩ := bind_eq_some filled
  obtain ⟨_, _, _, filled⟩ := bind_eq_some filled
  obtain ⟨memory, _, words, filled⟩ := bind_eq_some filled
  obtain ⟨_, _, _, filled⟩ := bind_eq_some filled
  have result : memory = query := congrArg (fun state => state.1.1) (Option.some.inj filled)
  rw [fillWords_run] at words
  split at words
  · rw [Option.some.injEq, Prod.mk.injEq] at words
    rw [← result, ← words.1, filledWords, if_pos (by omega)]
    exact ReadMode.convert_lt _
  · exact absurd words (by simp)

theorem fillArray_canonical {skeleton : Memory} {slots queries : List Memory} {source rest : Source}
    (filled : (fillArray verifier layout skeleton slots hasher).run source =
      some (queries, rest)) :
    ∀ query ∈ queries, ∀ place, 1 ≤ place → place < layout.queryWords →
      (query place).toNat < 2147483647 := by
  induction slots generalizing queries hasher source rest with
  | nil =>
    have none : [] = queries := congrArg Prod.fst (Option.some.inj filled)
    simp [← none]
  | cons slot slots ih =>
    obtain ⟨⟨query, after⟩, _, first, filled⟩ := bind_eq_some filled
    obtain ⟨others, _, more, filled⟩ := bind_eq_some filled
    have result : query :: others = queries := congrArg Prod.fst (Option.some.inj filled)
    rw [← result]
    intro other member
    rcases mem_cons.mp member with rfl | later
    · exact fun place leaf inside => fillQuery_canonical first leaf inside
    · exact ih more other later

theorem canonical_iff {skeletonSlot : Memory} {querySlots : List Memory} {source rest : Source}
    {proof : FilledProof}
    (filled : (fillProof verifier layout hasher skeletonSlot querySlots).run source =
      some (proof, rest)) : Canonical layout proof ↔ LeafsReduced layout source := by
  obtain ⟨skeleton, _, base, filled⟩ := bind_eq_some filled
  obtain ⟨queries, _, more, filled⟩ := bind_eq_some filled
  have result : ({ skeleton, queries } : FilledProof) = proof :=
    congrArg Prod.fst (Option.some.inj filled)
  have words := layout.fillSkeleton_eq_some base
  rw [← result]
  constructor
  · intro canonical index inside
    have word := canonical.skeleton .friFinalStepLeafs rfl index inside
    simp only [words] at word
    rw [layout.filledLoops_skeleton _ _ (by decide) inside] at word
    exact word
  · intro reduced
    refine ⟨fun field element index inside => ?_, fillArray_canonical more⟩
    have real : field ≠ .padding := by
      rintro rfl
      exact absurd element (by decide)
    simp only [words]
    rw [layout.filledLoops_skeleton _ _ real inside, ProofLayout.fieldMode_eq]
    by_cases last : field = .friFinalStepLeafs
    · subst last
      exact reduced index inside
    · rw [if_pos ⟨element, last⟩]
      exact ReadMode.convert_lt _

theorem ProofLayout.slice_congr {first second : Memory} {start stop : ℕ}
    (same : ∀ place, start ≤ place → place < stop → first place = second place) :
    slice first start stop = slice second start stop := by
  refine map_congr_left fun word member => ?_
  have bound := mem_range.mp member
  exact same (start + word) (Nat.le_add_right _ _) (by omega)

theorem ProofLayout.exists_field {place : ℕ} (starts : layout.offset .circuitSequenceIdx ≤ place)
    (ends : place < layout.skeletonWords) :
    ∃ field, field ≠ .padding ∧ ∃ index < layout.size field,
      place = layout.offset field + index := by
  obtain ⟨field, -, index, inside, same⟩ :=
    PackedRecord.exists_field (by decide) (lt_of_lt_of_eq ends layout.skeletonWords_eq)
  refine ⟨field, ?_, index, inside, same⟩
  rintro rfl
  have padding : layout.offset .padding + layout.size .padding ≤
      layout.offset .circuitSequenceIdx := layout.offset_add_size_le (by decide)
  change place = layout.offset .padding + index at same
  omega

theorem ProofLayout.transcriptElements_congr {first second : Memory}
    (same : ∀ field, field ≠ .padding → ∀ index < layout.size field,
      first (layout.offset field + index) = second (layout.offset field + index)) :
    layout.transcriptElements first = layout.transcriptElements second := by
  have places : ∀ start stop, layout.offset .circuitSequenceIdx ≤ start →
      stop ≤ layout.skeletonWords → slice first start stop = slice second start stop := by
    intro start stop starts ends
    refine slice_congr fun place above below => ?_
    obtain ⟨field, real, index, inside, rfl⟩ :=
      layout.exists_field (le_trans starts above) (lt_of_lt_of_le below ends)
    exact same field real index inside
  have fields : ∀ field next, field ≠ .padding →
      slice first (layout.offset field) (layout.offset next) =
        slice second (layout.offset field) (layout.offset next) := by
    intro field next real
    refine places _ _ (layout.offset_le ?_) (layout.offset_le_skeletonWords next)
    cases field <;> first | exact absurd rfl real | decide
  have oracles : ∀ step ∈ List.range layout.friFoldingSchedule.length,
      slice first (layout.offset .friIntermediateOracles + step * layout.capsWords)
          (layout.offset .friIntermediateOracles + step * layout.capsWords + layout.capsWords) =
        slice second (layout.offset .friIntermediateOracles + step * layout.capsWords)
          (layout.offset .friIntermediateOracles + step * layout.capsWords +
            layout.capsWords) := by
    intro step member
    have within : (step + 1) * layout.capsWords ≤ layout.size .friIntermediateOracles :=
      Nat.mul_le_mul_right _ (mem_range.mp member)
    rw [succ_mul] at within
    have starts : layout.offset .circuitSequenceIdx ≤ layout.offset .friIntermediateOracles :=
      layout.offset_le (by decide)
    have ends : layout.offset .friIntermediateOracles + layout.size .friIntermediateOracles ≤
        layout.offset .friFinalStepLeafs := layout.offset_add_size_le (by decide)
    have whole := layout.offset_le_skeletonWords .friFinalStepLeafs
    exact places _ _ (by omega) (by omega)
  unfold transcriptElements
  rw [map_congr_left oracles, fields .circuitSequenceIdx _ (by decide),
    fields .stage2Caps _ (by decide), fields .quotientCaps _ (by decide),
    fields .openingsAtZ _ (by decide), fields .friFinalStepLeafs _ (by decide),
    fields .monomialCoeffs _ (by decide)]

theorem ProofLayout.transcriptElements_leafs {first second : Memory}
    (same : layout.transcriptElements first = layout.transcriptElements second) (index : ℕ)
    (inside : index < layout.size .friFinalStepLeafs) :
    first (layout.offset .friFinalStepLeafs + index) =
      second (layout.offset .friFinalStepLeafs + index) := by
  have leafs : slice first (layout.offset .friFinalStepLeafs) (layout.offset .monomialCoeffs) =
      slice second (layout.offset .friFinalStepLeafs) (layout.offset .monomialCoeffs) := by
    rw [transcriptElements, transcriptElements] at same
    have last := append_inj_right' same (by rw [length_cons, length_cons]; rfl)
    exact (List.cons.inj last).1
  have ends : layout.offset .friFinalStepLeafs + layout.size .friFinalStepLeafs ≤
      layout.offset .monomialCoeffs := layout.offset_add_size_le (by decide)
  have member : index ∈ List.range (layout.offset .monomialCoeffs -
      layout.offset .friFinalStepLeafs) := mem_range.mpr (by omega)
  rw [slice, slice] at leafs
  exact map_inj_left.mp leafs index member

theorem Canonical.transcriptElements_eq {first second : FilledProof}
    (canonicalFirst : Canonical layout first) (canonicalSecond : Canonical layout second)
    (same : SameData layout first.skeleton second.skeleton) :
    layout.transcriptElements first.skeleton = layout.transcriptElements second.skeleton := by
  refine ProofLayout.transcriptElements_congr fun field real index inside => ?_
  have word := same field real index inside
  split at word
  case isTrue element =>
    exact BitVec.eq_of_toNat_eq (Mersenne31Field.nat_eq word
      (canonicalFirst.skeleton field element index inside)
      (canonicalSecond.skeleton field element index inside))
  case isFalse => exact word

/-- Two proofs are canonical, and so are absorbed alike if they carry the same data, exactly when
both sources deliver the leafs of the last FRI step reduced. -/
theorem fill_canonical_iff (verifier : LeafInclusionVerifier) (layout : ProofLayout)
    (hasher : verifier.Hasher) (skeletonSlot : Memory) (querySlots : List Memory)
    {source otherSource rest otherRest : Source} {proof otherProof : FilledProof}
    (filled : (fillProof verifier layout hasher skeletonSlot querySlots).run source =
      some (proof, rest))
    (otherFilled : (fillProof verifier layout hasher skeletonSlot querySlots).run otherSource =
      some (otherProof, otherRest)) :
    (Canonical layout proof ∧ Canonical layout otherProof ∧
      (SameData layout proof.skeleton otherProof.skeleton →
        layout.transcriptElements proof.skeleton =
          layout.transcriptElements otherProof.skeleton)) ↔
      LeafsReduced layout source ∧ LeafsReduced layout otherSource := by
  rw [canonical_iff filled, canonical_iff otherFilled]
  constructor
  · rintro ⟨reduced, otherReduced, -⟩
    exact ⟨reduced, otherReduced⟩
  · rintro ⟨reduced, otherReduced⟩
    exact ⟨reduced, otherReduced, ((canonical_iff filled).mpr reduced).transcriptElements_eq
      ((canonical_iff otherFilled).mpr otherReduced)⟩

/-! ## Proofs that open nothing but zeros

For any layout there are proofs that fill without complaint: all leafs and all siblings are zero
and the caps hold the nodes above them. The leafs of the last FRI step and the other field elements
of the skeleton are free. -/

def zeroDigest : Digest := Vector.replicate 8 0

/-- The node above a leaf of zeros at index zero when all siblings are zero. -/
def zeroRoot (depth width : ℕ) : Digest :=
  climb (compressNodes true)
    (alternativeHashLeaf true Blake2sState.new (fun _ => 0) width).state 0
    (List.replicate depth zeroDigest)

/-- An opening of zeros against a cap that starts with the node above them. -/
structure OpensZeros (opening : LeafOpening) : Prop where
  index : opening.leafIndex = 0
  leaf : opening.memory = fun _ => 0
  root : ∃ cap, opening.caps[opening.cosetIndex]? = some cap ∧
    cap[0]? = some (zeroRoot opening.depth opening.width)

theorem flatMap_zeroDigest (depth : ℕ) :
    (List.replicate depth zeroDigest).flatMap Vector.toList =
      List.replicate (8 * depth) (0 : Word) := by
  induction depth with
  | zero => rfl
  | succ depth ih =>
    have digest : zeroDigest.toList = List.replicate 8 (0 : Word) := rfl
    rw [replicate_succ, flatMap_cons, ih, digest, replicate_append_replicate,
      mul_succ, Nat.add_comm 8]

theorem OpensZeros.accepted {opening : LeafOpening} (zeros : OpensZeros opening)
    (hasher : Blake2sState) (rest : Source) :
    (blake2sVerifier.verifyLeafInclusion hasher opening).run
        (List.replicate (8 * opening.depth) 0 ++ rest) = some ((true, hasher), rest) := by
  obtain ⟨cap, known, entry⟩ := zeros.root
  have leaf : (alternativeHashLeaf true hasher opening.memory opening.width).state =
      (alternativeHashLeaf true Blake2sState.new (fun _ => 0) opening.width).state := by
    rw [alternativeHashLeaf_eq, alternativeHashLeaf_eq, zeros.leaf]
  have climbed := climbPath_append true (List.replicate opening.depth zeroDigest)
    (alternativeHashLeaf true Blake2sState.new (fun _ => 0) opening.width).state 0 rest
  rw [length_replicate, flatMap_zeroDigest] at climbed
  have included : (alternativeVerifyLeafInclusion true hasher opening).run
      (List.replicate (8 * opening.depth) 0 ++ rest) = some (true, rest) := by
    rw [alternativeVerifyLeafInclusion_eq, StateT.run_bind, leaf, zeros.index, climbed,
      zero_shiftRight, bind_eq_bind, bind_some, compareWithCap_run known entry]
    exact congrArg (fun equal => some (equal, rest)) (beq_self_eq_true _)
  simp only [blake2sVerifier, StateT.run_bind, included, bind_eq_bind, bind_some]
  rfl

theorem verifyLeafs_zeros {openings : List LeafOpening}
    (zeros : ∀ opening ∈ openings, OpensZeros opening) (hasher : Blake2sState) (rest : Source) :
    (verifyLeafs blake2sVerifier openings hasher).run
        (List.replicate (8 * (openings.map LeafOpening.depth).sum) 0 ++ rest) =
      some (hasher, rest) := by
  induction openings with
  | nil => rfl
  | cons opening openings ih =>
    have first := (zeros opening mem_cons_self).accepted hasher
      (List.replicate (8 * (openings.map LeafOpening.depth).sum) 0 ++ rest)
    have others := ih fun other member => zeros other (mem_cons_of_mem _ member)
    have split : List.replicate (8 * ((opening :: openings).map LeafOpening.depth).sum)
          (0 : Word) ++ rest = List.replicate (8 * opening.depth) 0 ++
        (List.replicate (8 * (openings.map LeafOpening.depth).sum) 0 ++ rest) := by
      rw [map_cons, sum_cons, Nat.mul_add, ← replicate_append_replicate,
        append_assoc]
    simp only [split, verifyLeafs, StateT.run_bind, first, bind_eq_bind]
    exact others

namespace ProofLayout

variable (layout : ProofLayout)

def friPathLength (step : ℕ) : ℕ :=
  layout.defaultMerklePathLength - (layout.friFoldingSchedule.take (step + 1)).sum

open SkeletonField in
/-- The words of a skeleton over zeros with `leaf` in the leafs of the last FRI step. -/
def zeroSkeletonWord (leaf element : Word) : SkeletonField → ℕ → Word
  | setupCaps, index =>
    (zeroRoot layout.defaultMerklePathLength layout.leafSizeSetup).toList.getD (index % 8) 0
  | witnessCaps, index =>
    (zeroRoot layout.defaultMerklePathLength layout.leafSizeWitnessTree).toList.getD
      (index % 8) 0
  | memoryCaps, index =>
    (zeroRoot layout.defaultMerklePathLength layout.leafSizeMemoryTree).toList.getD
      (index % 8) 0
  | stage2Caps, index =>
    (zeroRoot layout.defaultMerklePathLength layout.leafSizeStage2).toList.getD (index % 8) 0
  | quotientCaps, index =>
    (zeroRoot layout.defaultMerklePathLength leafSizeQuotient).toList.getD (index % 8) 0
  | friIntermediateOracles, index =>
    let step := index / layout.capsWords
    (zeroRoot (layout.friPathLength step)
      (friLeafSize (layout.friFoldingSchedule.getD step 0))).toList.getD (index % 8) 0
  | friFinalStepLeafs, _ => leaf
  | field, _ => if field.isFieldElement then element else 0

def pathWords : ℕ :=
  8 * ((layout.leafOpenings (fun _ => 0) (fun _ => 0) 0 0).map LeafOpening.depth).sum

def queryInputWords : ℕ := layout.queryWords + layout.pathWords

def zeroProof (leaf element : Word) (numQueries : ℕ) : Source :=
  PackedRecord.layOut SkeletonField.inOrder.tail layout.size
      (layout.zeroSkeletonWord leaf element) ++
    List.replicate (numQueries * layout.queryInputWords) 0

theorem capsWords_pos : 8 ≤ layout.capsWords := by
  have cosets : 1 ≤ layout.numCosets := Nat.one_le_two_pow
  have entries : 1 ≤ layout.treeCapSize := Nat.one_le_two_pow
  calc 8 = 1 * (1 * 8) := rfl
    _ ≤ layout.capsWords := Nat.mul_le_mul cosets (Nat.mul_le_mul_right 8 entries)

theorem capsWords_mod : layout.capsWords % 8 = 0 := by
  rw [capsWords, ← Nat.mul_assoc, mul_mod_left]

theorem capsAt_first {skeleton : Memory} {start : ℕ} {digest : Digest}
    (words : ∀ word, word < 8 → skeleton (start + word) = digest.toList.getD word 0) :
    ∃ cap, (layout.capsAt skeleton start)[0]? = some cap ∧ cap[0]? = some digest := by
  have cosets : 0 < layout.numCosets := Nat.two_pow_pos _
  have entries : 0 < layout.treeCapSize := Nat.two_pow_pos _
  refine ⟨_, by rw [capsAt, getElem?_map, getElem?_range cosets]; rfl, ?_⟩
  rw [getElem?_map, getElem?_range entries]
  refine congrArg some ?_
  ext word bound
  simp [words word bound, getD_eq_getElem?_getD, bound]

variable (leaf element : Word) (numQueries : ℕ) {index : ℕ}

theorem skeletonInput_zeroProof {field : SkeletonField}
    (real : field ≠ .padding) (inside : index < layout.size field) :
    layout.skeletonInput (layout.zeroProof leaf element numQueries) (layout.offset field + index) =
      layout.zeroSkeletonWord leaf element field index :=
  layout.skeletonInput_layOut _ _ real inside

def zeroSkeleton (leaf element : Word) (numQueries : ℕ) : Memory :=
  filledLoops layout.skeletonLoops (layout.offset .circuitSequenceIdx) (fun _ => 0)
    (layout.zeroProof leaf element numQueries)

theorem zeroSkeleton_word {field : SkeletonField}
    (real : field ≠ .padding) (inside : index < layout.size field) :
    layout.zeroSkeleton leaf element numQueries (layout.offset field + index) =
      (fieldMode skeletonStops field).convert (layout.zeroSkeletonWord leaf element field index) :=
  layout.skeletonOf_word _ _ _ real inside

theorem zeroSkeleton_leaf (inside : index < layout.size .friFinalStepLeafs) :
    layout.zeroSkeleton leaf element numQueries (layout.offset .friFinalStepLeafs + index) = leaf :=
  layout.zeroSkeleton_word leaf element numQueries (by decide) inside

theorem fillSkeleton_zeroProof :
    (layout.fillSkeleton fun _ => 0).run (layout.zeroProof leaf element numQueries) =
      some (layout.zeroSkeleton leaf element numQueries,
        List.replicate (numQueries * layout.queryInputWords) 0) := by
  have zero : (0 : Word) &&& 0xffff0000 = 0 := rfl
  exact layout.fillSkeleton_layOut _ _ zero zero

theorem baseOpening_zeroSkeleton (start width : ℕ)
    {caps : SkeletonField} (real : caps ≠ .padding) (size : layout.size caps = layout.capsWords)
    (raw : fieldMode skeletonStops caps = .word)
    (words : ∀ index, layout.zeroSkeletonWord leaf element caps index =
      (zeroRoot layout.defaultMerklePathLength width).toList.getD (index % 8) 0) :
    OpensZeros (layout.baseOpening (layout.zeroSkeleton leaf element numQueries) (fun _ => 0) 0 0
      start width caps) := by
  have enough := layout.capsWords_pos
  refine ⟨rfl, rfl, layout.capsAt_first fun word bound => ?_⟩
  rw [layout.zeroSkeleton_word leaf element numQueries real (by omega), raw, words,
    mod_eq_of_lt bound]
  rfl

theorem friOpenings_zeroSkeleton (schedule : List ℕ)
    (step start : ℕ) (remaining : layout.friFoldingSchedule.drop step = schedule) :
    ∀ opening ∈ layout.friOpenings (layout.zeroSkeleton leaf element numQueries) (fun _ => 0) 0
      schedule step 0
      (layout.defaultMerklePathLength - (layout.friFoldingSchedule.take step).sum) start,
      OpensZeros opening := by
  induction schedule generalizing step start with
  | nil => simp [friOpenings]
  | cons degree schedule ih =>
    have here : layout.friFoldingSchedule[step]? = some degree := by
      rw [← head?_drop, remaining, head?_cons]
    have inSchedule : step < layout.friFoldingSchedule.length :=
      (List.getElem?_eq_some_iff.mp here).1
    have taken : (layout.friFoldingSchedule.take (step + 1)).sum =
        (layout.friFoldingSchedule.take step).sum + degree := by
      rw [take_add_one, here, List.sum_append]
      rfl
    have path : layout.defaultMerklePathLength - (layout.friFoldingSchedule.take step).sum -
        degree = layout.friPathLength step := by
      rw [friPathLength, taken, Nat.sub_sub]
    have next : layout.friFoldingSchedule.drop (step + 1) = schedule := by
      rw [← tail_drop, remaining, tail_cons]
    intro opening member
    rw [friOpenings, mem_cons, zero_shiftRight, path] at member
    rcases member with rfl | later
    · refine ⟨rfl, rfl, layout.capsAt_first fun word bound => ?_⟩
      have enough := layout.capsWords_pos
      have aligned := layout.capsWords_mod
      have within : (step + 1) * layout.capsWords ≤ layout.size .friIntermediateOracles :=
        Nat.mul_le_mul_right _ inSchedule
      rw [succ_mul] at within
      have quotient : (step * layout.capsWords + word) / layout.capsWords = step := by
        rw [Nat.add_comm, add_mul_div_right _ _ (by omega), div_eq_of_lt (by omega), Nat.zero_add]
      have rest : (step * layout.capsWords + word) % 8 = word := by
        rw [add_mod, mul_mod, aligned]
        omega
      rw [Nat.add_assoc, layout.zeroSkeleton_word leaf element numQueries (by decide) (by omega)]
      simp only [zeroSkeletonWord, quotient, rest, getD_eq_getElem?_getD, here]
      rfl
    · rw [friPathLength] at later
      exact ih (step + 1) _ next opening later

theorem leafOpenings_zeroSkeleton :
    ∀ opening ∈ layout.leafOpenings (layout.zeroSkeleton leaf element numQueries) (fun _ => 0) 0 0,
      OpensZeros opening := by
  intro opening member
  rcases mem_append.mp member with base | fri
  · simp only [mem_cons, not_mem_nil, or_false] at base
    rcases base with rfl | rfl | rfl | rfl | rfl
    all_goals
      apply layout.baseOpening_zeroSkeleton leaf element numQueries
      · decide
      · rfl
      · decide
      · exact fun _ => rfl
  · exact layout.friOpenings_zeroSkeleton leaf element numQueries _ 0 _ rfl opening fri

end ProofLayout

theorem fillWords_zeros (mode : ReadMode) (count i rest : ℕ) :
    (fillWords mode count i fun _ => 0).run (List.replicate (count + rest) 0) =
      some (fun _ => 0, List.replicate rest 0) := by
  have zeros : filledWords mode count i (fun _ => 0) (List.replicate (count + rest) 0) =
      fun _ => 0 := by
    funext place
    have word : (List.replicate (count + rest) (0 : Word)).getD (place - i) 0 = 0 := by
      rw [getD_eq_getElem?_getD, getElem?_replicate]
      split <;> rfl
    rw [filledWords, word, ReadMode.convert_zero, ite_self]
  rw [fillWords_run, if_pos (by simp), zeros, drop_replicate, Nat.add_sub_cancel_left]

theorem fillQuery_zeros (layout : ProofLayout) (leaf element : Word) (numQueries : ℕ)
    (hasher : Blake2sState) (rest : ℕ) :
    (fillQuery blake2sVerifier layout (layout.zeroSkeleton leaf element numQueries) (fun _ => 0)
        hasher).run (List.replicate (layout.queryInputWords + rest) 0) =
      some ((fun _ => 0, hasher), List.replicate rest 0) := by
  have openings := verifyLeafs_zeros (layout.leafOpenings_zeroSkeleton leaf element numQueries)
    hasher (List.replicate rest 0)
  rw [layout.depth_leafOpenings, ← layout.depth_leafOpenings (fun _ => 0) (fun _ => 0) 0 0,
    replicate_append_replicate] at openings
  have words : layout.queryInputWords + rest =
      layout.queryWords - 1 + (layout.pathWords + rest) + 1 := by
    unfold ProofLayout.queryInputWords ProofLayout.queryWords
    omega
  have first : ∀ count, readWord.run (List.replicate (count + 1) 0) =
      some (0, List.replicate count 0) := fun _ => rfl
  have checked : ∀ source, (check (decide
      ((0 : Word).toNat < 2 ^ layout.bitsForQueryIndex))).run source = some ((), source) := by
    intro source
    rw [decide_eq_true (show (0 : Word).toNat < _ from Nat.two_pow_pos _)]
    rfl
  have slot : Function.update (fun _ => 0 : Memory) 0 0 = fun _ => 0 :=
    Function.update_eq_self 0 (fun _ => 0 : Memory)
  have index : (0 : Word).toNat = 0 := rfl
  rw [words]
  refine (run_bind_of_some (first _) _).trans ?_
  refine (run_bind_of_some (checked _) _).trans ?_
  rw [slot]
  refine (run_bind_of_some (fillWords_zeros _ _ _ _) _).trans ?_
  simp only [index, zero_mod, zero_shiftRight]
  exact run_bind_of_some openings _

theorem fillArray_zeros (layout : ProofLayout) (leaf element : Word) (numQueries remaining : ℕ)
    (hasher : Blake2sState) :
    (fillArray blake2sVerifier layout (layout.zeroSkeleton leaf element numQueries)
        (List.replicate remaining fun _ => 0) hasher).run
        (List.replicate (remaining * layout.queryInputWords) 0) =
      some (List.replicate remaining fun _ => 0, []) := by
  induction remaining with
  | zero => simp [fillArray]
  | succ remaining ih =>
    rw [succ_mul, Nat.add_comm (remaining * _), replicate_succ]
    refine (run_bind_of_some (fillQuery_zeros layout leaf element numQueries hasher _) _).trans ?_
    exact run_bind_of_some ih _

theorem fillProof_zeroProof (layout : ProofLayout) (leaf element : Word) (numQueries : ℕ) :
    (fillProof blake2sVerifier layout Blake2sState.new (fun _ => 0)
        (List.replicate numQueries fun _ => 0)).run (layout.zeroProof leaf element numQueries) =
      some (⟨layout.zeroSkeleton leaf element numQueries,
        List.replicate numQueries fun _ => 0⟩, []) := by
  refine (run_bind_of_some (layout.fillSkeleton_zeroProof leaf element numQueries) _).trans ?_
  exact run_bind_of_some (fillArray_zeros layout leaf element numQueries numQueries _) _

/-- One source delivers `7` unreduced wherever it may do so, the other one reduced: they are filled
with the same data, and absorbed alike. -/
theorem fill_canonical_unreduced_elements :
    Canonical reducedRiscVMachine
        ⟨reducedRiscVMachine.zeroSkeleton 5 0x80000006 53, List.replicate 53 fun _ => 0⟩ ∧
      Canonical reducedRiscVMachine
        ⟨reducedRiscVMachine.zeroSkeleton 5 7 53, List.replicate 53 fun _ => 0⟩ ∧
      reducedRiscVMachine.transcriptElements (reducedRiscVMachine.zeroSkeleton 5 0x80000006 53) =
        reducedRiscVMachine.transcriptElements (reducedRiscVMachine.zeroSkeleton 5 7 53) := by
  have reduced : ∀ element, LeafsReduced reducedRiscVMachine
      (reducedRiscVMachine.zeroProof 5 element 53) := by
    intro element index inside
    rw [reducedRiscVMachine.skeletonInput_zeroProof 5 element 53 (by decide) inside]
    exact (by decide : (5 : Word).toNat < 2147483647)
  have filled := fillProof_zeroProof reducedRiscVMachine 5 0x80000006 53
  have otherFilled := fillProof_zeroProof reducedRiscVMachine 5 7 53
  obtain ⟨canonical, otherCanonical, absorbed⟩ :=
    (fill_canonical_iff _ _ _ _ _ filled otherFilled).mpr ⟨reduced _, reduced _⟩
  have element : ReadMode.reducedFieldElement.convert 0x80000006 =
      ReadMode.reducedFieldElement.convert 7 := by
    decide
  have same := congrArg (fun word : Word => (word.toNat : Mersenne31Field)) element
  refine ⟨canonical, otherCanonical, absorbed fun field real index inside => ?_⟩
  dsimp only
  rw [reducedRiscVMachine.zeroSkeleton_word _ _ _ real inside,
    reducedRiscVMachine.zeroSkeleton_word _ _ _ real inside]
  cases field <;> first | exact absurd rfl real | exact same | rfl

/-- Two proofs of the reduced machine with the same data that are absorbed differently: the leafs
of the last FRI step are zeros in one and equal to the modulus in the other. -/
theorem unreduced_leafs_filled :
    ∃ proof otherProof,
      (fillProof blake2sVerifier reducedRiscVMachine Blake2sState.new (fun _ => 0)
        (List.replicate 53 fun _ => 0)).run (reducedRiscVMachine.zeroProof 0x7fffffff 0 53) =
          some (proof, []) ∧
      (fillProof blake2sVerifier reducedRiscVMachine Blake2sState.new (fun _ => 0)
        (List.replicate 53 fun _ => 0)).run (reducedRiscVMachine.zeroProof 0 0 53) =
          some (otherProof, []) ∧
      ¬ Canonical reducedRiscVMachine proof ∧
      SameData reducedRiscVMachine proof.skeleton otherProof.skeleton ∧
      reducedRiscVMachine.transcriptElements proof.skeleton ≠
        reducedRiscVMachine.transcriptElements otherProof.skeleton := by
  refine ⟨_, _, fillProof_zeroProof _ _ _ _, fillProof_zeroProof _ _ _ _, ?_, ?_, ?_⟩
  · intro canonical
    have word := canonical.skeleton .friFinalStepLeafs rfl 0 (by decide)
    dsimp only at word
    rw [reducedRiscVMachine.zeroSkeleton_leaf _ _ _ (by decide)] at word
    exact absurd word (by decide)
  · intro field real index inside
    have leafs : ((0x7fffffff : Word).toNat : Mersenne31Field) = ((0 : Word).toNat : ℕ) :=
      (ZMod.natCast_self 2147483647).trans cast_zero.symm
    dsimp only
    rw [reducedRiscVMachine.zeroSkeleton_word _ _ _ real inside,
      reducedRiscVMachine.zeroSkeleton_word _ _ _ real inside]
    cases field <;> first | exact absurd rfl real | exact leafs | rfl
  · intro same
    have word := reducedRiscVMachine.transcriptElements_leafs same 0 (by decide)
    dsimp only at word
    rw [reducedRiscVMachine.zeroSkeleton_leaf _ _ _ (by decide),
      reducedRiscVMachine.zeroSkeleton_leaf _ _ _ (by decide)] at word
    exact absurd word (by decide)

end Airbender.Verifier

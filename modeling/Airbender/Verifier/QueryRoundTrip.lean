import Airbender.Merkle.LeafInclusionProof
import Airbender.Verifier.FlattenRoundTrip

/-!
# Reading queries back

A query is read in two parts: the leafs go into memory, the paths are consumed while the leafs are
verified. Every verifier that reads one path for each opening sees the paths of the proof.
-/

namespace Airbender.Verifier

open Blake2s Merkle Mersenne31Field MemoryLayout
open List hiding Vector

variable {query : QuerySet} {layout : ProofLayout}

/-- The leafs of a query that stem from the five commitments of a row have one index. -/
structure QuerySet.SameIndex (query : QuerySet) : Prop where
  memory : query.witnessQuery.queryIndex = query.memoryQuery.queryIndex
  stage2 : query.witnessQuery.queryIndex = query.stage2Query.queryIndex
  quotient : query.witnessQuery.queryIndex = query.quotientQuery.queryIndex
  setup : query.witnessQuery.queryIndex = query.setupQuery.queryIndex

def leafWords (query : QuerySet) : List Word :=
  query.inOrder.flatMap fun part => flattenLeafInto part.leafContent

def pathWords (query : QuerySet) : List Word :=
  query.inOrder.flatMap fun part => flattenMerklePathInto part.merkleProof

theorem flattenQuery_eq (same : query.SameIndex) :
    flattenQuery query =
      some (query.witnessQuery.queryIndex :: (leafWords query ++ pathWords query)) := by
  simp [flattenQuery, ← same.memory, ← same.stage2, ← same.quotient, ← same.setup, leafWords,
    pathWords, QuerySet.inOrder]

def openedLeaf (opening : LeafOpening) : List Mersenne31Field :=
  (fieldElementLayout.array opening.width).view opening.memory

/-- Leafs that lie one behind the other. -/
def InRow : Memory → List LeafOpening → Prop
  | _, [] => True
  | memory, opening :: openings =>
    opening.memory = memory ∧ InRow (shift memory opening.width) openings

theorem openedLeaf_eq {openings : List LeafOpening} {leafs : List (List Mersenne31Field)}
    {memory : Memory} (row : InRow memory openings)
    (widths : leafs.map List.length = openings.map LeafOpening.width)
    (holds : Holds memory (leafs.flatMap flattenLeafInto)) : openings.map openedLeaf = leafs := by
  induction openings generalizing leafs memory with
  | nil =>
    rw [map_nil, map_eq_nil_iff] at widths
    rw [widths, map_nil]
  | cons opening openings ih =>
    cases leafs with
    | nil => cases widths
    | cons leaf leafs =>
      rw [map_cons, map_cons, List.cons.injEq] at widths
      rw [flatMap_cons, holds_append] at holds
      have length : (flattenLeafInto leaf).length = opening.width := by
        rw [flattenLeafInto, length_map, widths.1]
      have written : (fieldElementLayout.array opening.width).write leaf =
          flattenLeafInto leaf := map_eq_flatMap.symm
      have first : openedLeaf opening = leaf := by
        refine (fieldElementLayout.array opening.width).view_eq
          ⟨widths.1, fun _ _ => trivial⟩ ?_
        rw [written, row.1]
        exact holds.1
      rw [length] at holds
      rw [map_cons, first, ih row.2 widths.2 holds.2]

namespace ProofLayout

variable (layout : ProofLayout)

theorem friOpenings_inRow (skeleton query : Memory) (cosetIndex : ℕ) (schedule : List ℕ)
    (step treeIndex pathLength start : ℕ) :
    InRow (shift query start)
      (layout.friOpenings skeleton query cosetIndex schedule step treeIndex pathLength start) := by
  induction schedule generalizing step treeIndex pathLength start with
  | nil => trivial
  | cons degree schedule ih =>
    refine ⟨rfl, ?_⟩
    rw [shift_shift]
    exact ih _ _ _ _

theorem inRow_baseOpening {skeleton query : Memory} {cosetIndex treeIndex start width : ℕ}
    {caps : SkeletonField} {openings : List LeafOpening}
    (others : InRow (shift query (start + width)) openings) :
    InRow (shift query start)
      (layout.baseOpening skeleton query cosetIndex treeIndex start width caps :: openings) := by
  refine ⟨rfl, ?_⟩
  rw [shift_shift]
  exact others

theorem leafOpenings_inRow (skeleton query : Memory) (cosetIndex treeIndex : ℕ) :
    InRow (shift query 1) (layout.leafOpenings skeleton query cosetIndex treeIndex) := by
  refine layout.inRow_baseOpening ?_
  refine layout.inRow_baseOpening ?_
  refine layout.inRow_baseOpening ?_
  refine layout.inRow_baseOpening ?_
  refine layout.inRow_baseOpening ?_
  exact layout.friOpenings_inRow _ _ _ _ _ _ _ _

theorem width_friOpenings (skeleton query : Memory) (cosetIndex : ℕ) (schedule : List ℕ)
    (step treeIndex pathLength start : ℕ) :
    (layout.friOpenings skeleton query cosetIndex schedule step treeIndex pathLength
        start).map LeafOpening.width = schedule.map friLeafSize := by
  induction schedule generalizing step treeIndex pathLength start with
  | nil => rfl
  | cons degree schedule ih => rw [friOpenings, map_cons, map_cons, ih]

theorem width_leafOpenings (skeleton query : Memory) (cosetIndex treeIndex : ℕ) :
    (layout.leafOpenings skeleton query cosetIndex treeIndex).map LeafOpening.width =
      layout.leafSizes := by
  rw [leafOpenings, map_append, width_friOpenings]
  rfl

theorem sum_leafSizes : layout.leafSizes.sum = layout.queryWords - 1 := by
  simp only [leafSizes, sum_append, sum_cons, sum_nil, queryWords,
    totalFriLeafsSizes]
  omega

end ProofLayout

structure PathVerifier extends LeafInclusionVerifier where
  /-- What a call decides once it knows the path. -/
  judge : Hasher → LeafOpening → List Digest → Option (Bool × Hasher)
  reads : ∀ hasher opening (path : List Digest) rest, path.length = opening.depth →
    (verifyLeafInclusion hasher opening).run (flattenMerklePathInto path ++ rest) =
      (judge hasher opening path).map (·, rest)

/-- Compare the top of a path with the entry of the cap above the leaf. -/
def judgePath (hash : Digest) (opening : LeafOpening) (path : List Digest) : Option Bool := do
  let cap ← opening.caps[opening.cosetIndex]?
  let entry ← cap[opening.leafIndex >>> opening.depth]?
  some (MerkleTree.climb (compressNodes true) hash opening.leafIndex path == entry)

theorem compareWithCap_eq (caps : List (List Digest)) (cosetIndex index : ℕ) (digest : Digest)
    (rest : Source) :
    (compareWithCap caps cosetIndex index digest).run rest =
      (caps[cosetIndex]?.bind fun cap => cap[index]?.bind fun entry =>
        some (digest == entry)).map (·, rest) := by
  rw [compareWithCap]
  cases caps[cosetIndex]? with
  | none => rfl
  | some cap =>
    change ((liftM cap[index]? : VerifierM Digest) >>= fun entry =>
      pure (digest == entry)).run rest = _
    rw [Option.bind_some]
    cases cap[index]? with
    | none => rfl
    | some entry => rfl

theorem alternativeVerifyLeafInclusion_reads (hasher : Blake2sState) (opening : LeafOpening)
    {path : List Digest} (length : path.length = opening.depth) (rest : Source) :
    (alternativeVerifyLeafInclusion true hasher opening).run
        (flattenMerklePathInto path ++ rest) =
      (judgePath (alternativeHashLeaf true hasher opening.memory opening.width).state opening
        path).map (·, rest) := by
  have climbed := climbPath_append true path
    (alternativeHashLeaf true hasher opening.memory opening.width).state opening.leafIndex rest
  rw [length] at climbed
  rw [alternativeVerifyLeafInclusion_eq]
  exact (run_bind_of_some climbed _).trans (compareWithCap_eq _ _ _ _ _)

/-- The hasher with alternative compression reads one path for each opening. -/
def blake2sPathVerifier : PathVerifier where
  toLeafInclusionVerifier := blake2sVerifier
  judge hasher opening path :=
    (judgePath (alternativeHashLeaf true hasher opening.memory opening.width).state opening
      path).map (·, hasher)
  reads hasher opening path rest length := by
    change ((alternativeVerifyLeafInclusion true hasher opening >>= fun included =>
      pure (included, hasher)).run _) = _
    rw [StateT.run_bind, alternativeVerifyLeafInclusion_reads hasher opening length rest]
    cases judgePath (alternativeHashLeaf true hasher opening.memory opening.width).state opening
      path with
    | none => rfl
    | some included => rfl

variable (verifier : PathVerifier)

/-- Judge every opening with its own path. -/
def judgeLeafs : List (LeafOpening × List Digest) → verifier.Hasher → Option verifier.Hasher
  | [], hasher => some hasher
  | (opening, path) :: openings, hasher => do
      let (included, hasher) ← verifier.judge hasher opening path
      guard included
      judgeLeafs openings hasher

theorem verifyLeafs_run {openings : List LeafOpening} {paths : List (List Digest)}
    (depths : paths.map List.length = openings.map LeafOpening.depth) (hasher : verifier.Hasher)
    (rest : Source) :
    (verifyLeafs verifier.toLeafInclusionVerifier openings hasher).run
        (paths.flatMap flattenMerklePathInto ++ rest) =
      (judgeLeafs verifier (openings.zip paths) hasher).map (·, rest) := by
  induction openings generalizing paths hasher with
  | nil =>
    rw [map_nil, map_eq_nil_iff] at depths
    rw [depths]
    rfl
  | cons opening openings ih =>
    cases paths with
    | nil => cases depths
    | cons path paths =>
      rw [map_cons, map_cons, List.cons.injEq] at depths
      rw [flatMap_cons, append_assoc, verifyLeafs, StateT.run_bind,
        verifier.reads hasher opening path _ depths.1, zip_cons_cons, judgeLeafs]
      cases verifier.judge hasher opening path with
      | none => rfl
      | some verdict =>
        obtain ⟨included, after⟩ := verdict
        cases included with
        | false => rfl
        | true => exact ih depths.2 after

theorem length_leafWords (lengths : layout.QueryMatches query) :
    (leafWords query).length = layout.queryWords - 1 := by
  rw [← layout.sum_leafSizes, ← lengths.leafs, leafWords, length_flatMap]
  refine congrArg List.sum (map_congr_left fun part _ => ?_)
  rw [flattenLeafInto, length_map]

/-- `QueryValues` as it is filled from a flattened query. -/
def valuesOfQuery (slot : Memory) (query : QuerySet) : Memory :=
  filledWords .reducedFieldElement (leafWords query).length 1
    (Function.update slot 0 query.witnessQuery.queryIndex) (leafWords query)

theorem valuesOfQuery_index (slot : Memory) (query : QuerySet) :
    valuesOfQuery slot query 0 = query.witnessQuery.queryIndex := by
  rw [valuesOfQuery, filledWords, if_neg (by omega), Function.update_self]

theorem valuesOfQuery_holds (slot : Memory) (query : QuerySet) :
    Holds (shift (valuesOfQuery slot query) 1) (leafWords query) := by
  have preserved : Preserved .reducedFieldElement (leafWords query) :=
    preserved_flatMap fun part => preserved_leaf _ part.leafContent
  intro index word known
  obtain ⟨inside, -⟩ := List.getElem?_eq_some_iff.mp known
  rw [shift, valuesOfQuery, filledWords, if_pos (by omega), Nat.add_sub_cancel_left,
    getD_eq_getElem?_getD, known, Option.getD_some]
  exact preserved word (List.mem_of_getElem? known)

def openingsOf (layout : ProofLayout) (skeleton values : Memory) : List LeafOpening :=
  layout.leafOpenings skeleton values ((values 0).toNat >>> layout.traceLenLog2)
    ((values 0).toNat % 2 ^ layout.traceLenLog2)

theorem openedLeaf_valuesOfQuery (lengths : layout.QueryMatches query) (skeleton slot : Memory) :
    (openingsOf layout skeleton (valuesOfQuery slot query)).map openedLeaf =
      query.inOrder.map Query.leafContent := by
  refine openedLeaf_eq (layout.leafOpenings_inRow _ _ _ _) ?_ ?_
  · rw [openingsOf, map_map, layout.width_leafOpenings]
    exact lengths.leafs
  · rw [flatMap_map]
    exact valuesOfQuery_holds slot query

theorem fillQuery_flatten (lengths : layout.QueryMatches query)
    (inRange : query.witnessQuery.queryIndex.toNat < 2 ^ layout.bitsForQueryIndex)
    (skeleton slot : Memory) (hasher : verifier.Hasher) (rest : Source) :
    (fillQuery verifier.toLeafInclusionVerifier layout skeleton slot hasher).run
        (query.witnessQuery.queryIndex :: (leafWords query ++ pathWords query) ++ rest) =
      (judgeLeafs verifier ((openingsOf layout skeleton (valuesOfQuery slot query)).zip
        (query.inOrder.map Query.merkleProof)) hasher).map
          fun hasher => ((valuesOfQuery slot query, hasher), rest) := by
  obtain ⟨paths, pathsEq⟩ : ∃ paths, paths =
      (query.inOrder.map Query.merkleProof).flatMap flattenMerklePathInto ++ rest := ⟨_, rfl⟩
  have source : query.witnessQuery.queryIndex :: (leafWords query ++ pathWords query) ++ rest =
      query.witnessQuery.queryIndex :: (leafWords query ++ paths) := by
    rw [pathsEq, flatMap_map, pathWords, cons_append, append_assoc]
  have index : readWord.run (query.witnessQuery.queryIndex :: (leafWords query ++ paths)) =
      some (query.witnessQuery.queryIndex, leafWords query ++ paths) := rfl
  have checked : (check (decide (query.witnessQuery.queryIndex.toNat <
      2 ^ layout.bitsForQueryIndex))).run (leafWords query ++ paths) =
        some ((), leafWords query ++ paths) := by
    rw [decide_eq_true inRange]
    rfl
  have values : (fillWords .reducedFieldElement (layout.queryWords - 1) 1
      (Function.update slot 0 query.witnessQuery.queryIndex)).run (leafWords query ++ paths) =
        some (valuesOfQuery slot query, paths) := by
    rw [← length_leafWords lengths, fillWords_run, if_pos (by simp), drop_left,
      filledWords_append _ _ _ (le_refl _)]
    rfl
  have depths : (query.inOrder.map Query.merkleProof).map List.length =
      (openingsOf layout skeleton (valuesOfQuery slot query)).map LeafOpening.depth := by
    rw [openingsOf, layout.depth_leafOpenings, map_map]
    exact lengths.paths
  have verified := verifyLeafs_run verifier depths hasher rest
  rw [← pathsEq] at verified
  rw [source]
  refine (run_bind_of_some index _).trans ?_
  refine (run_bind_of_some checked _).trans ?_
  refine (run_bind_of_some values _).trans ?_
  have opened : layout.leafOpenings skeleton (valuesOfQuery slot query)
      (query.witnessQuery.queryIndex.toNat >>> layout.traceLenLog2)
      (query.witnessQuery.queryIndex.toNat % 2 ^ layout.traceLenLog2) =
        openingsOf layout skeleton (valuesOfQuery slot query) := by
    rw [openingsOf, valuesOfQuery_index]
  dsimp only
  rw [opened, StateT.run_bind, verified]
  cases judgeLeafs verifier _ hasher with
  | none => rfl
  | some after => rfl

/-- Flattened proofs are read back: filling the skeleton consumes exactly its words and gives
every component its own field; filling a query consumes exactly its leafs and paths, shows every
leaf in its own place and judges it with its own path. -/
theorem flattened_proof_read_back {layout : ProofLayout} {proof : Proof}
    {applyShuffleRamLazyInit : Bool} (lengths : layout.Matches proof applyShuffleRamLazyInit)
    (queryLengths : ∀ query ∈ proof.queries, layout.QueryMatches query) (slot : Memory)
    (rest : Source) :
    ∃ skeleton, (layout.fillSkeleton slot).run
        (flattenProofForSkeleton proof applyShuffleRamLazyInit ++ rest) = some (skeleton, rest) ∧
      (∀ field, field ≠ .padding → layout.fieldOf skeleton field =
        layout.componentOf proof applyShuffleRamLazyInit field) ∧
      ∀ query ∈ proof.queries, query.SameIndex →
        query.witnessQuery.queryIndex.toNat < 2 ^ layout.bitsForQueryIndex →
        ∃ words, flattenQuery query = some words ∧
        ∀ (querySlot : Memory) (hasher : verifier.Hasher) (following : Source),
          ∃ values, (fillQuery verifier.toLeafInclusionVerifier layout skeleton querySlot
              hasher).run (words ++ following) =
            (judgeLeafs verifier ((openingsOf layout skeleton values).zip
              (query.inOrder.map Query.merkleProof)) hasher).map
                (fun after => ((values, after), following)) ∧
            values 0 = query.witnessQuery.queryIndex ∧
            (openingsOf layout skeleton values).map openedLeaf =
              query.inOrder.map Query.leafContent := by
  refine ⟨_, ProofLayout.fillSkeleton_flatten lengths slot rest,
    fun field real => ProofLayout.fieldOf_skeletonOfProof lengths slot rest real, ?_⟩
  intro query member same inRange
  have matching := queryLengths query member
  refine ⟨_, flattenQuery_eq same, fun querySlot hasher following => ?_⟩
  exact ⟨valuesOfQuery querySlot query,
    fillQuery_flatten verifier matching inRange _ querySlot hasher following,
    valuesOfQuery_index querySlot query, openedLeaf_valuesOfQuery matching _ querySlot⟩

/-! A proof of the reduced machine, with the same digests and field elements in the skeleton. The
leafs and paths of its queries count from a number of their own. -/

def countingQuery (start width depth : ℕ) : Query where
  queryIndex := 5
  leafContent := (List.range width).map fun index => ((start + index : ℕ) : Mersenne31Field)
  merkleProof := (List.range depth).map fun level => Vector.replicate 8 (BitVec.ofNat 32 level)

def countingQuerySet : QuerySet where
  witnessQuery := countingQuery 0 117 16
  memoryQuery := countingQuery 1000 30 16
  setupQuery := countingQuery 2000 12 16
  stage2Query := countingQuery 3000 132 16
  quotientQuery := countingQuery 4000 4 16
  initialFriQuery := countingQuery 5000 64 12
  intermediateFriQueries :=
    [countingQuery 6000 64 8, countingQuery 7000 32 5, countingQuery 8000 32 2]

def constantCaps : TreeCaps := List.replicate 2 (List.replicate 64 (Vector.replicate 8 7))

def constantProof : Proof where
  memoryArgument := ⟨Vector.replicate 6 1, 1⟩
  delegationArgument := some ⟨Vector.replicate 3 1, 1⟩
  auxBoundaryValues := ⟨(1, 1), (1, 1), (1, 1), (1, 1), (1, 1), (1, 1)⟩
  publicInputs := List.replicate 4 1
  witnessTreeCaps := constantCaps
  memoryTreeCaps := constantCaps
  setupTreeCaps := constantCaps
  stage2TreeCaps := constantCaps
  memoryGrandProductAccumulator := 1
  delegationArgumentAccumulator := some 1
  quotientTreeCaps := constantCaps
  evaluationsAtRandomPoints := List.replicate 204 1
  deepPolyCaps := constantCaps
  intermediateFriOracleCaps := List.replicate 3 constantCaps
  lastFriStepPlainLeafValues := List.replicate 2 (List.replicate 256 1)
  finalMonomialForm := List.replicate 32 1
  queries := List.replicate 53 countingQuerySet
  powNonce := 11
  circuitSequence := 3
  delegationType := 0

theorem constantProof_matches : reducedRiscVMachine.Matches constantProof true := by
  have digest : ∀ value : Digest, digestLayout.Fits value :=
    fun value => Layout.vector_fits (fun _ => trivial) value
  have caps : reducedRiscVMachine.capsLayout.Fits constantCaps := by
    refine ⟨rfl, fun cap member => ?_⟩
    rw [(mem_replicate.mp member).2]
    exact ⟨rfl, fun value _ => digest value⟩
  refine ⟨rfl, caps, rfl, rfl, caps, caps, caps, rfl, caps, length_replicate, rfl, caps, ?_,
    rfl, ?_, rfl⟩
  · intro others member
    rw [(mem_replicate.mp member).2]
    exact caps
  · intro values member
    rw [(mem_replicate.mp member).2]
    exact length_replicate

theorem countingQuerySet_matches : reducedRiscVMachine.QueryMatches countingQuerySet :=
  ⟨by decide +kernel, by decide +kernel⟩

theorem flattened_proof_read_back_counting :
    ∃ skeleton, (reducedRiscVMachine.fillSkeleton fun _ => 0).run
        (flattenProofForSkeleton constantProof true ++ []) = some (skeleton, []) ∧
      reducedRiscVMachine.fieldOf skeleton .powNonce = (11 : BitVec 64) ∧
      ∃ words, flattenQuery countingQuerySet = some words ∧
      ∀ (hasher : Blake2sState) (following : Source), ∃ values,
        (fillQuery blake2sVerifier reducedRiscVMachine skeleton (fun _ => 0) hasher).run
            (words ++ following) =
          (judgeLeafs blake2sPathVerifier ((openingsOf reducedRiscVMachine skeleton values).zip
            (countingQuerySet.inOrder.map Query.merkleProof)) hasher).map
              (fun after => ((values, after), following)) ∧
        values 0 = 5 ∧
        (openingsOf reducedRiscVMachine skeleton values).map openedLeaf =
          countingQuerySet.inOrder.map Query.leafContent := by
  have queries : ∀ query ∈ constantProof.queries, reducedRiscVMachine.QueryMatches query := by
    intro query member
    rw [(mem_replicate.mp member).2]
    exact countingQuerySet_matches
  obtain ⟨skeleton, filled, fields, queried⟩ := flattened_proof_read_back blake2sPathVerifier
    constantProof_matches queries (fun _ => 0) []
  obtain ⟨words, flattened, read⟩ := queried countingQuerySet
    (mem_replicate.mpr ⟨by decide, rfl⟩) ⟨rfl, rfl, rfl, rfl⟩ (by decide)
  exact ⟨skeleton, filled, fields .powNonce (by decide), words, flattened, read _⟩

end Airbender.Verifier

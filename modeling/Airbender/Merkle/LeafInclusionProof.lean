import Airbender.Merkle.LeafInclusion

/-!
# Leaf inclusion is complete

Both verifiers compute the same function of a leaf, a path and a cap. It accepts the openings of
the prover's trees as long as the rounds of the leaf are its own words.
-/

namespace Airbender.Merkle

open Blake2s MerkleTree Verifier
open List hiding Vector

variable (buffer : Vector Word 16)

theorem readHalf_writeHalf (right : Bool) (digest : Digest) :
    readHalf (writeHalf buffer right digest) right = digest := by
  ext index bound
  cases right with
  | false => simp [readHalf, writeHalf, Vector.get_eq_getElem, Nat.mod_eq_of_lt bound]
  | true => simp [readHalf, writeHalf, Vector.get_eq_getElem, Nat.mod_eq_of_lt bound]

theorem writeHalf_left (digest : Digest) :
    writeHalf buffer false digest = digest ++ readHalf buffer true := by
  ext index bound
  rw [Vector.getElem_append]
  by_cases low : index < 8
  · simp [writeHalf, low, Nat.mod_eq_of_lt low]
  · have restored : index - 8 + 8 = index := by omega
    simp [writeHalf, readHalf, low, restored, Vector.get_eq_getElem]

theorem writeHalf_right (digest : Digest) :
    writeHalf buffer true digest = readHalf buffer false ++ digest := by
  ext index bound
  rw [Vector.getElem_append]
  by_cases low : index < 8
  · simp [writeHalf, readHalf, low, Nat.not_le.mpr low, Vector.get_eq_getElem]
  · have reduced : index % 8 = index - 8 := by omega
    simp [writeHalf, low, Nat.not_lt.mp low, reduced]

/-- The block of a node: the running hash stands on its own side. -/
def nodeBlock (index : ℕ) (hash sibling : Digest) : Vector Word 16 :=
  if index % 2 = 1 then sibling ++ hash else hash ++ sibling

theorem writeHalf_sibling {buffer : Vector Word 16} {index : ℕ} {hash : Digest}
    (held : readHalf buffer (index % 2 == 1) = hash) (sibling : Digest) :
    writeHalf buffer (!(index % 2 == 1)) sibling = nodeBlock index hash sibling := by
  rcases Nat.mod_two_eq_zero_or_one index with even | odd
  · simp only [even] at held ⊢
    rw [← held]
    simp [nodeBlock, even, writeHalf_right]
  · simp only [odd] at held ⊢
    rw [← held]
    simp [nodeBlock, odd, writeHalf_left]

def parent (reducedRounds : Bool) (index : ℕ) (hash sibling : Digest) : Digest :=
  if index % 2 = 1 then compressNodes reducedRounds sibling hash
  else compressNodes reducedRounds hash sibling

variable (reducedRounds : Bool)

variable (depth : ℕ) (hasher : Blake2sState) (index : ℕ)

theorem compress_nodeBlock (hash sibling : Digest) :
    Blake2sState.compressTwoToOne reducedRounds (nodeBlock index hash sibling) =
      parent reducedRounds index hash sibling := by
  unfold nodeBlock parent compressNodes
  split <;> rfl

def climbPath (reducedRounds : Bool) : ℕ → Digest → ℕ → VerifierM Digest
  | 0, hash, _ => pure hash
  | depth + 1, hash, index => do
      let sibling ← readDigest
      climbPath reducedRounds depth (parent reducedRounds index hash sibling) (index >>> 1)

theorem followPath_eq :
    followPath reducedRounds depth hasher index =
      climbPath reducedRounds depth hasher.state index := by
  induction depth generalizing hasher index with
  | zero => rfl
  | succ depth ih =>
    simp only [followPath, pathStep, climbPath, bind_assoc, pure_bind, ih]
    refine congrArg (readDigest >>= ·) (funext fun sibling => ?_)
    rw [writeHalf_sibling (readHalf_writeHalf _ _ _), ← compress_nodeBlock]
    rfl

theorem specRunSingleRound_reset (buffer : Vector Word 16) :
    specRunSingleRound reducedRounds { hasher.reset with inputBuffer := buffer } 16 =
      Blake2sState.compressTwoToOne reducedRounds buffer := by
  have bytes : BitVec.ofNat 32 (16 * 4) = 64 := rfl
  simp only [specRunSingleRound, Blake2sState.compressTwoToOne, Blake2sState.reset, bytes]

theorem specFollowPath_eq
    (hash : Digest) (held : readHalf hasher.inputBuffer (index % 2 == 1) = hash) :
    specFollowPath reducedRounds depth hasher index =
      climbPath reducedRounds depth hash index := by
  induction depth generalizing hasher index hash with
  | zero =>
    rw [specFollowPath, held]
    rfl
  | succ depth ih =>
    simp only [specFollowPath, specPathStep, climbPath, bind_assoc, pure_bind]
    refine congrArg (readDigest >>= ·) (funext fun sibling => ?_)
    rw [specRunSingleRound_reset, writeHalf_sibling held, compress_nodeBlock]
    apply ih
    exact readHalf_writeHalf _ _ _

theorem specFollowPath_writeHalf (buffer : Vector Word 16) (hash : Digest) :
    specFollowPath reducedRounds depth
        { hasher with inputBuffer := writeHalf buffer (index % 2 == 1) hash } index =
      climbPath reducedRounds depth hash index := by
  apply specFollowPath_eq
  exact readHalf_writeHalf _ _ _

theorem alternativeFollowPath_eq :
    alternativeFollowPath reducedRounds depth hasher index =
      climbPath reducedRounds depth hasher.state index := by
  induction depth generalizing hasher index with
  | zero => rfl
  | succ depth ih =>
    simp only [alternativeFollowPath, climbPath, ih]
    refine congrArg (readDigest >>= ·) (funext fun sibling => ?_)
    rw [← compress_nodeBlock]
    rcases Nat.mod_two_eq_zero_or_one index with even | odd
    · simp only [compressNode, readHalf_writeHalf, nodeBlock, even]
      rfl
    · simp only [compressNode, readHalf_writeHalf, nodeBlock, odd]
      rfl

def compressBlock (reducedRounds : Bool) (chaining : Digest × Word) (block : List Word)
    (lastRound : Bool) : Digest × Word :=
  let t := chaining.2 + BitVec.ofNat 32 (block.length * 4)
  (Blake2sState.fold chaining.1 (roundFunction reducedRounds
    (Blake2sState.extendedState chaining.1 t lastRound) (toBlock block)), t)

def hashBlocks (reducedRounds : Bool) (full : List (List Word)) (last : List Word) : Digest :=
  (compressBlock reducedRounds (full.foldl
    (fun chaining block => compressBlock reducedRounds chaining block false) (configuredIv, 0))
    last true).1

def chaining (hasher : Blake2sState) : Digest × Word := (hasher.state, hasher.t)

theorem length_of_mem_fullBlocks {memory : ℕ → Word} {numFullRounds : ℕ} {block : List Word}
    (member : block ∈ fullBlocks memory numFullRounds) : block.length = 16 := by
  obtain ⟨round, -, rfl⟩ := mem_map.mp member
  rw [length_map, length_range]

variable (memory : ℕ → Word)

variable (hasher : Blake2sState) (numFullRounds : ℕ) {width : ℕ}

theorem length_lastBlock (lastRoundLen : ℕ) :
    (lastBlock memory numFullRounds lastRoundLen).length = lastRoundLen := by
  rw [lastBlock, length_map, length_range]

theorem chaining_foldl (step : Blake2sState → List Word → Blake2sState)
    (steps : ∀ hasher block, block.length = 16 →
      chaining (step hasher block) = compressBlock reducedRounds (chaining hasher) block false)
    (blocks : List (List Word)) (sizes : ∀ block ∈ blocks, block.length = 16)
    (hasher : Blake2sState) :
    chaining (blocks.foldl step hasher) = blocks.foldl
      (fun chain block => compressBlock reducedRounds chain block false) (chaining hasher) := by
  induction blocks generalizing hasher with
  | nil => rfl
  | cons block rest ih =>
    rw [foldl_cons, foldl_cons,
      ih (fun other inRest => sizes other (mem_cons_of_mem _ inRest)),
      steps hasher block (sizes block mem_cons_self)]

theorem hashLeaf_eq (memory : ℕ → Word)
    (width : ℕ) : (hashLeaf reducedRounds hasher memory width).state =
      hashBlocks reducedRounds (fullBlocks memory (leafRounds width).1)
        (lastBlock memory (leafRounds width).1 (leafRounds width).2) := by
  have full := chaining_foldl reducedRounds
    (fun hasher block => Blake2sState.runRoundFunction reducedRounds
      { hasher with inputBuffer := toBlock block } 16 false)
    (fun hasher block size => by simp only [chaining, compressBlock, size]; rfl)
    (fullBlocks memory (leafRounds width).1) (fun _ => length_of_mem_fullBlocks) hasher.reset
  have start : chaining hasher.reset = (configuredIv, 0) := rfl
  rw [hashBlocks, ← start, ← full]
  simp only [compressBlock, length_lastBlock]
  rfl

theorem alternativeHashLeaf_eq (memory : ℕ → Word) (width : ℕ) :
    (alternativeHashLeaf reducedRounds hasher memory width).state =
      hashBlocks reducedRounds (fullBlocks memory (leafRounds width).1)
        (lastBlock memory (leafRounds width).1 (leafRounds width).2) := by
  have full := chaining_foldl reducedRounds
    (fun hasher block => runRoundFunctionWithInput reducedRounds hasher (toBlock block) 16 false)
    (fun hasher block size => by simp only [chaining, compressBlock, size]; rfl)
    (fullBlocks memory (leafRounds width).1) (fun _ => length_of_mem_fullBlocks) hasher.reset
  have start : chaining hasher.reset = (configuredIv, 0) := rfl
  rw [hashBlocks, ← start, ← full]
  simp only [compressBlock, length_lastBlock]
  rfl

/-- Both verifiers are the same function, on every leaf, path and cap. -/
theorem verifyLeafInclusion_agree (supportSpecSingleRound : Bool)
    (hasher other : Blake2sState) (opening : LeafOpening) :
    verifyLeafInclusion reducedRounds supportSpecSingleRound hasher opening =
      alternativeVerifyLeafInclusion reducedRounds other opening := by
  have sameLeaf : (hashLeaf reducedRounds hasher opening.memory opening.width).state =
      (alternativeHashLeaf reducedRounds other opening.memory opening.width).state := by
    rw [hashLeaf_eq, alternativeHashLeaf_eq]
  unfold verifyLeafInclusion alternativeVerifyLeafInclusion
  simp only [Blake2sState.readStateForOutput, followPath_eq, alternativeFollowPath_eq,
    specFollowPath_writeHalf]
  simp only [sameLeaf, ite_self]

theorem fullBlocks_succ :
    fullBlocks memory (numFullRounds + 1) =
      fullBlocks memory numFullRounds ++ [lastBlock memory numFullRounds 16] := by
  simp only [fullBlocks, range_succ, map_append]
  rfl

theorem flatten_fullBlocks :
    (fullBlocks memory numFullRounds).flatten =
      (List.range (16 * numFullRounds)).map memory := by
  induction numFullRounds with
  | zero => rfl
  | succ numFullRounds ih =>
    rw [fullBlocks_succ, flatten_append, ih, Nat.mul_succ, range_add,
      map_append, map_map]
    simp [lastBlock, Function.comp_def]

theorem flatten_leafBlocks (width : ℕ) :
    (leafBlocks memory width).flatten =
      (List.range (16 * (leafRounds width).1 + (leafRounds width).2)).map memory := by
  rw [leafBlocks, flatten_append, flatten_fullBlocks, range_add, map_append,
    map_map]
  simp [lastBlock, Function.comp_def]

theorem leafRounds_total (positive : 1 ≤ width) :
    16 * (leafRounds width).1 + (leafRounds width).2 = width ↔ width ≠ 16 := by
  unfold leafRounds
  dsimp only
  split
  · split <;> dsimp only <;> omega
  · dsimp only
    omega

theorem leafBlocks_iff (positive : 1 ≤ width) :
    (leafBlocks memory width).flatten = (List.range width).map memory ↔ width ≠ 16 := by
  rw [flatten_leafBlocks, ← leafRounds_total positive]
  constructor
  · intro same
    have lengths := congrArg List.length same
    simpa only [length_map, length_range] using lengths
  · intro total
    rw [total]

theorem take_drop_eq {start count : ℕ} (fits : start + count ≤ width) :
    (((List.range width).map memory).drop start).take count =
      (List.range count).map fun word => memory (start + word) := by
  apply ext_getElem?
  intro index
  simp only [getElem?_take, getElem?_drop, getElem?_map]
  by_cases inside : index < count
  · rw [if_pos inside, getElem?_range (by omega), getElem?_range inside]
    rfl
  · rw [if_neg inside, getElem?_eq_none (by simpa using inside)]
    rfl

section

variable (reducedRounds onlyFullRounds : Bool) (numFullRounds : ℕ) (memory : ℕ → Word)
  {width : ℕ}

def absorbChunks (row : List Word) (state : LeafState) (rounds : ℕ) : LeafState :=
  (List.range rounds).foldl (fun state index => absorbChunk reducedRounds onlyFullRounds
    numFullRounds state index ((row.drop (16 * index)).take 16)) state

theorem absorbChunks_chaining (state : LeafState) {rounds : ℕ} (fits : 16 * rounds ≤ width)
    (notLast : ∀ index < rounds, ¬ (index = numFullRounds - 1 ∧ onlyFullRounds = true)) :
    chaining (absorbChunks reducedRounds onlyFullRounds numFullRounds
        ((List.range width).map memory) state rounds).hasher =
      (fullBlocks memory rounds).foldl
        (fun chain block => compressBlock reducedRounds chain block false)
        (chaining state.hasher) := by
  induction rounds with
  | zero => rfl
  | succ rounds ih =>
    have before := ih (by omega) fun index bound => notLast index (by omega)
    have continues : (rounds == numFullRounds - 1 && onlyFullRounds) = false := by
      simpa using notLast rounds (by omega)
    rw [fullBlocks_succ, foldl_append, ← before]
    simp only [absorbChunks, range_succ, foldl_append, foldl_cons, foldl_nil]
    rw [take_drop_eq memory (by omega), absorbChunk, continues]
    simp only [compressBlock, length_lastBlock]
    rfl

end

theorem absorbFinalBlock_eq (block : List Word) :
    hasher.absorbFinalBlock reducedRounds (toBlock block) block.length =
      (compressBlock reducedRounds (chaining hasher) block true).1 := rfl

theorem leafHash_full (rounds : ℕ) :
    leafHash reducedRounds ((List.range (16 * (rounds + 1))).map memory) =
      hashBlocks reducedRounds (fullBlocks memory rounds) (lastBlock memory rounds 16) := by
  have full := absorbChunks_chaining reducedRounds true (rounds + 1) memory
    ⟨Blake2sState.new.reset, Vector.replicate 8 0⟩
    (show 16 * rounds ≤ 16 * (rounds + 1) by omega) (by omega)
  have start : chaining Blake2sState.new.reset = (configuredIv, 0) := rfl
  have rowLength : ((List.range (16 * (rounds + 1))).map memory).length = 16 * (rounds + 1) := by
    rw [length_map, length_range]
  have noRemainder : (16 * (rounds + 1) % 16 == 0) = true := by simp
  have quotient : 16 * (rounds + 1) / 16 = rounds + 1 := by omega
  have last : (rounds == rounds + 1 - 1 && true) = true := by simp
  rw [hashBlocks, ← start, ← full, ← absorbFinalBlock_eq]
  simp only [leafHash, rowLength, noRemainder, quotient, if_true, range_succ,
    foldl_append, foldl_cons, foldl_nil]
  rw [absorbChunk, last, take_drop_eq memory (by omega), if_pos rfl, length_lastBlock]
  rfl

theorem leafHash_remainder (rounds : ℕ)
    {remainder : ℕ} (positive : 0 < remainder) (short : remainder < 16) :
    leafHash reducedRounds ((List.range (16 * rounds + remainder)).map memory) =
      hashBlocks reducedRounds (fullBlocks memory rounds)
        (lastBlock memory rounds remainder) := by
  have full := absorbChunks_chaining reducedRounds false rounds memory
    ⟨Blake2sState.new.reset, Vector.replicate 8 0⟩
    (show 16 * rounds ≤ 16 * rounds + remainder by omega) (by simp)
  have start : chaining Blake2sState.new.reset = (configuredIv, 0) := rfl
  have rowLength : ((List.range (16 * rounds + remainder)).map memory).length =
      16 * rounds + remainder := by
    rw [length_map, length_range]
  have someRemainder : ((16 * rounds + remainder) % 16 == 0) = false := by
    rw [beq_eq_false_iff_ne]
    omega
  have quotient : (16 * rounds + remainder) / 16 = rounds := by omega
  have last : ((List.range (16 * rounds + remainder)).map memory).drop (16 * rounds) =
      lastBlock memory rounds remainder := by
    rw [lastBlock, ← take_drop_eq memory (le_refl _), take_of_length_le]
    rw [length_drop, rowLength]
    omega
  rw [hashBlocks, ← start, ← full, ← absorbFinalBlock_eq]
  simp only [leafHash, rowLength, someRemainder, quotient, last]
  rfl

theorem leafHash_eq (positive : 1 ≤ width) (notOneBlock : width ≠ 16) :
    leafHash reducedRounds ((List.range width).map memory) =
      hashBlocks reducedRounds (fullBlocks memory (leafRounds width).1)
        (lastBlock memory (leafRounds width).1 (leafRounds width).2) := by
  have total := (leafRounds_total positive).mpr notOneBlock
  by_cases remainder : width % 16 = 0
  · have rounds : (leafRounds width).2 = 16 := by simp only [leafRounds, remainder, if_true]
    rw [rounds] at total ⊢
    have whole : width = 16 * ((leafRounds width).1 + 1) := by omega
    generalize (leafRounds width).1 = count at whole
    rw [whole]
    exact leafHash_full reducedRounds memory count
  · have rounds : leafRounds width = (width / 16, width % 16) := by
      simp only [leafRounds, remainder, if_false]
    rw [rounds]
    have split : width = 16 * (width / 16) + width % 16 := by omega
    conv_lhs => rw [split]
    exact leafHash_remainder reducedRounds memory _ (by omega) (by omega)

theorem readDigest_append (digest : Digest) (rest : List Word) :
    readDigest.run (digest.toList ++ rest) = some (digest, rest) := by
  have words := readWords_append digest.toList rest
  rw [Vector.length_toList] at words
  rw [readDigest, StateT.run_map, words]
  refine congrArg (fun digest => some (digest, rest)) ?_
  ext index bound
  simp [getD_eq_getElem?_getD]

theorem climbPath_append (path : List Digest) (hash : Digest) (index : ℕ) (rest : List Word) :
    (climbPath reducedRounds path.length hash index).run
        (path.flatMap Vector.toList ++ rest) =
      some (climb (compressNodes reducedRounds) hash index path, rest) := by
  induction path generalizing hash index with
  | nil => rfl
  | cons sibling path ih =>
    simp only [length_cons, climbPath, flatMap_cons, append_assoc,
      StateT.run_bind, readDigest_append, Option.bind_eq_bind, Option.bind_some, ih]
    rfl

/-- A leaf of a committed tree, held in the memory of a verifier that knows the cap. -/
structure CommittedLeaf (reducedRounds : Bool) where
  rows : List (List Mersenne31Field)
  treeSizeLog2 : ℕ
  capSizeLog2 : ℕ
  bitreverse : Bool
  idx : ℕ
  row : List Mersenne31Field
  cosetIndex : ℕ
  caps : List (List Digest)
  memory : ℕ → Word
  treeSize : rows.length = 2 ^ treeSizeLog2
  capFits : capSizeLog2 ≤ treeSizeLog2
  leaf : (treeRows rows bitreverse)[idx]? = some row
  nonempty : 1 ≤ row.length
  committed : caps[cosetIndex]? = some (Blake2sU32MerkleTreeWithCap.constructForCoset
    reducedRounds rows (2 ^ capSizeLog2) bitreverse).getCap
  inMemory : (List.range row.length).map memory = rowWords row

namespace CommittedLeaf

variable {reducedRounds : Bool} (committed : CommittedLeaf reducedRounds)

def tree : Blake2sU32MerkleTreeWithCap :=
  Blake2sU32MerkleTreeWithCap.constructForCoset reducedRounds committed.rows
    (2 ^ committed.capSizeLog2) committed.bitreverse

def opening : LeafOpening where
  cosetIndex := committed.cosetIndex
  leafIndex := committed.idx
  depth := committed.treeSizeLog2 - committed.capSizeLog2
  memory := committed.memory
  width := committed.row.length
  caps := committed.caps

/-- The prover's opening is accepted by both verifiers over the words of the leaf alone, and
nothing at all tells the two verifiers apart. -/
structure Included (supportSpecSingleRound : Bool) (hasher other : Blake2sState) : Prop where
  accepted : ∃ leaf path, committed.tree.getProof committed.idx = some (leaf, path) ∧
    ∀ rest : Source,
      (verifyLeafInclusion reducedRounds supportSpecSingleRound hasher committed.opening).run
        (path.flatMap Vector.toList ++ rest) = some (true, rest) ∧
      (alternativeVerifyLeafInclusion reducedRounds other committed.opening).run
        (path.flatMap Vector.toList ++ rest) = some (true, rest)
  ownWords : (leafBlocks committed.memory committed.row.length).flatten = rowWords committed.row
  agree : ∀ (opening : LeafOpening) (source : Source),
    (verifyLeafInclusion reducedRounds supportSpecSingleRound hasher opening).run source =
      (alternativeVerifyLeafInclusion reducedRounds other opening).run source

end CommittedLeaf

theorem compareWithCap_run {caps : List (List Digest)} {cap : List Digest}
    {cosetIndex index : ℕ} {entry : Digest} (known : caps[cosetIndex]? = some cap)
    (inCap : cap[index]? = some entry) (digest : Digest) (source : Source) :
    (compareWithCap caps cosetIndex index digest).run source = some (digest == entry, source) := by
  have compare : (do
      let entry ← liftM (cap[index]?)
      pure (digest == entry) : VerifierM Bool).run source = some (digest == entry, source) := by
    rw [inCap]
    rfl
  rw [compareWithCap, known]
  exact compare

theorem alternativeVerifyLeafInclusion_eq (opening : LeafOpening) :
    alternativeVerifyLeafInclusion reducedRounds hasher opening = (do
      let digest ← climbPath reducedRounds opening.depth
        (alternativeHashLeaf reducedRounds hasher opening.memory opening.width).state
        opening.leafIndex
      compareWithCap opening.caps opening.cosetIndex (opening.leafIndex >>> opening.depth)
        digest) := by
  unfold alternativeVerifyLeafInclusion
  simp only [alternativeFollowPath_eq, Blake2sState.readStateForOutput]
  split
  case isTrue atCap =>
    rw [atCap]
    rfl
  case isFalse => rfl

theorem CommittedLeaf.alternative_accepts {reducedRounds : Bool}
    (committed : CommittedLeaf reducedRounds) (other : Blake2sState)
    (notOneBlock : committed.row.length ≠ 16) :
    ∃ leaf path, committed.tree.getProof committed.idx = some (leaf, path) ∧
      ∀ rest : Source,
        (alternativeVerifyLeafInclusion reducedRounds other committed.opening).run
          (path.flatMap Vector.toList ++ rest) = some (true, rest) := by
  obtain ⟨path, found, length, reached⟩ := @getProof_spec reducedRounds _ _ _ _ _ _
    committed.treeSize committed.capFits committed.leaf
  refine ⟨_, path, found, fun rest => ?_⟩
  have sameHash : (alternativeHashLeaf reducedRounds other committed.memory
      committed.row.length).state = leafHash reducedRounds (rowWords committed.row) := by
    rw [alternativeHashLeaf_eq, ← committed.inMemory,
      leafHash_eq reducedRounds committed.memory committed.nonempty notOneBlock]
  have climbed := climbPath_append reducedRounds path
    (leafHash reducedRounds (rowWords committed.row)) committed.idx rest
  rw [length] at climbed
  rw [alternativeVerifyLeafInclusion_eq]
  simp only [CommittedLeaf.opening, sameHash, StateT.run_bind, climbed, Option.bind_eq_bind,
    Option.bind_some]
  rw [compareWithCap_run committed.committed reached, beq_self_eq_true]

/-- Openings of committed leafs are accepted over exactly their own words, except for leafs that
fill one block: there the last round covers sixteen words behind the leaf. -/
theorem leaf_included_iff {reducedRounds : Bool} (committed : CommittedLeaf reducedRounds)
    (supportSpecSingleRound : Bool) (hasher other : Blake2sState) :
    committed.Included supportSpecSingleRound hasher other ↔ committed.row.length ≠ 16 := by
  have words := leafBlocks_iff committed.memory committed.nonempty
  rw [committed.inMemory] at words
  constructor
  · intro included
    exact words.mp included.ownWords
  · intro notOneBlock
    obtain ⟨leaf, path, found, accepts⟩ := committed.alternative_accepts other notOneBlock
    refine ⟨⟨leaf, path, found, fun rest => ⟨?_, accepts rest⟩⟩, words.mpr notOneBlock, ?_⟩
    · rw [verifyLeafInclusion_agree reducedRounds supportSpecSingleRound hasher other]
      exact accepts rest
    · intro opening source
      rw [verifyLeafInclusion_agree reducedRounds supportSpecSingleRound hasher other]

/-- A tree with one leaf of sixteen zeros that is its own cap. -/
def oneBlockLeaf : CommittedLeaf true where
  rows := [List.replicate 16 0]
  treeSizeLog2 := 0
  capSizeLog2 := 0
  bitreverse := false
  idx := 0
  row := List.replicate 16 0
  cosetIndex := 0
  caps := [(Blake2sU32MerkleTreeWithCap.constructForCoset true [List.replicate 16 0] 1
    false).getCap]
  memory := fun _ => 0
  treeSize := rfl
  capFits := le_refl 0
  leaf := rfl
  nonempty := by decide
  committed := rfl
  inMemory := by decide

/-- The verifiers reject the honest opening of a one-block leaf. -/
theorem oneBlockLeaf_rejected :
    ¬ oneBlockLeaf.Included true Blake2sState.new Blake2sState.new ∧
      oneBlockLeaf.tree.getProof 0 = some (leafHash true (List.replicate 16 0), []) ∧
      (verifyLeafInclusion true true Blake2sState.new oneBlockLeaf.opening).run [] =
        some (false, []) := by
  refine ⟨fun included => ?_, rfl, by decide +kernel⟩
  have lengths := congrArg List.length included.ownWords
  exact absurd lengths (by decide)

end Airbender.Merkle

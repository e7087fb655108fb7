import Airbender.Merkle.LeafInclusionProof

/-!
# Leaf inclusion is sound

A leaf that the verifier accepts under the cap of a tree hashes to the leaf that was committed
there, unless the two ways to the cap meet in a collision of the hash function.
-/

namespace Airbender.Merkle

open Blake2s MerkleTree Verifier

variable {reducedRounds : Bool}

theorem readDigest_eq_some {source rest : Source} {digest : Digest}
    (read : readDigest.run source = some (digest, rest)) : source = digest.toList ++ rest := by
  rw [readDigest, StateT.run_map] at read
  obtain ⟨⟨words, after⟩, found, isDigest⟩ := Option.map_eq_some_iff.mp read
  obtain ⟨length, rfl⟩ := readWords_eq_some found
  cases isDigest
  congr 1
  apply List.ext_getElem
  · simp [length]
  · intro index inside _
    simp [List.getD_eq_getElem?_getD, inside]

theorem climbPath_eq_some {depth index : ℕ} {hash digest : Digest} {source rest : Source}
    (climbed : (climbPath reducedRounds depth hash index).run source = some (digest, rest)) :
    ∃ path : List Digest, path.length = depth ∧ source = path.flatMap Vector.toList ++ rest ∧
      digest = climb (compressNodes reducedRounds) hash index path := by
  induction depth generalizing hash index source with
  | zero =>
    cases climbed
    exact ⟨[], rfl, rfl, rfl⟩
  | succ depth ih =>
    obtain ⟨sibling, middle, read, above⟩ := bind_eq_some climbed
    obtain ⟨path, length, rfl, reached⟩ := ih above
    refine ⟨sibling :: path, congrArg Nat.succ length, ?_, reached⟩
    rw [readDigest_eq_some read, List.flatMap_cons, List.append_assoc]

/-- The digest that the verifiers compute for a leaf. -/
def leafDigest (reducedRounds : Bool) (memory : ℕ → Word) (width : ℕ) : Digest :=
  (hashLeaf reducedRounds Blake2sState.new memory width).state

theorem alternativeVerifyLeafInclusion_eq_some {hasher : Blake2sState} {opening : LeafOpening}
    {cap : List Digest} {entry : Digest} {source rest : Source}
    (known : opening.caps[opening.cosetIndex]? = some cap)
    (inCap : cap[opening.leafIndex >>> opening.depth]? = some entry)
    (accepted : (alternativeVerifyLeafInclusion reducedRounds hasher opening).run source =
      some (true, rest)) :
    ∃ path : List Digest, path.length = opening.depth ∧
      source = path.flatMap Vector.toList ++ rest ∧
      climb (compressNodes reducedRounds) (leafDigest reducedRounds opening.memory opening.width)
        opening.leafIndex path = entry := by
  rw [alternativeVerifyLeafInclusion_eq, alternativeHashLeaf_eq,
    ← hashLeaf_eq reducedRounds Blake2sState.new] at accepted
  obtain ⟨digest, middle, climbed, compared⟩ := bind_eq_some accepted
  obtain ⟨path, length, rfl, rfl⟩ := climbPath_eq_some climbed
  rw [compareWithCap_run known inCap, Option.some.injEq, Prod.mk.injEq, beq_iff_eq] at compared
  exact ⟨path, length, congrArg _ compared.2, compared.1⟩

/-- Some implementation of the verifier, with or without the evaluation of single rounds, accepts
an opening. -/
def Accepts (reducedRounds : Bool) (opening : LeafOpening) (source rest : Source) : Prop :=
  (∃ supportSpecSingleRound hasher,
    (verifyLeafInclusion reducedRounds supportSpecSingleRound hasher opening).run source =
      some (true, rest)) ∨
  ∃ hasher, (alternativeVerifyLeafInclusion reducedRounds hasher opening).run source =
    some (true, rest)

/-- A leaf that is accepted in the place of a committed one has its digest, or the path that was
read and the one of the tree meet in a collision. -/
theorem accepted_leaf_bound (committed : CommittedLeaf reducedRounds) (memory : ℕ → Word)
    (width : ℕ) {source rest : Source}
    (accepted : Accepts reducedRounds
      { committed.opening with memory := memory, width := width } source rest) :
    ∃ leaf honest path, committed.tree.getProof committed.idx = some (leaf, honest) ∧
      source = path.flatMap Vector.toList ++ rest ∧
      (leafDigest reducedRounds memory width = leaf ∨
        Collision (compressNodes reducedRounds)
          (climbPairs (compressNodes reducedRounds) (leafDigest reducedRounds memory width)
            committed.idx path)
          (climbPairs (compressNodes reducedRounds) leaf committed.idx honest)) := by
  obtain ⟨honest, found, honestLength, reached⟩ := @getProof_spec reducedRounds _ _ _ _ _ _
    committed.treeSize committed.capFits committed.leaf
  have alternative : ∃ hasher, (alternativeVerifyLeafInclusion reducedRounds hasher
      { committed.opening with memory := memory, width := width }).run source =
        some (true, rest) := by
    rcases accepted with ⟨supportSpecSingleRound, hasher, accepted⟩ | accepted
    · rw [verifyLeafInclusion_agree reducedRounds _ hasher hasher] at accepted
      exact ⟨hasher, accepted⟩
    · exact accepted
  obtain ⟨hasher, accepted⟩ := alternative
  obtain ⟨path, length, read, same⟩ :=
    alternativeVerifyLeafInclusion_eq_some committed.committed reached accepted
  refine ⟨_, honest, path, found, read, ?_⟩
  apply or_iff_not_imp_left.mpr
  intro different
  apply collision_of_climb_eq
  · exact length.trans honestLength.symm
  · exact different
  · exact same

/-- The third of four leafs, two levels below the cap. -/
def thirdOfFour : CommittedLeaf true where
  rows := [[0], [1], [2], [3]]
  treeSizeLog2 := 2
  capSizeLog2 := 0
  bitreverse := false
  idx := 2
  row := [2]
  cosetIndex := 0
  caps := [(Blake2sU32MerkleTreeWithCap.constructForCoset true [[0], [1], [2], [3]] 1
    false).getCap]
  memory := fun _ => 2
  treeSize := rfl
  capFits := Nat.zero_le 2
  leaf := rfl
  nonempty := le_refl 1
  committed := rfl
  inMemory := by decide

theorem accepted_leaf_bound_third :
    ∃ leaf honest path source, thirdOfFour.tree.getProof 2 = some (leaf, honest) ∧
      honest.length = 2 ∧ Accepts true thirdOfFour.opening source [] ∧
      source = path.flatMap Vector.toList ++ [] ∧
      (leafDigest true (fun _ => 2) 1 = leaf ∨
        Collision (compressNodes true)
          (climbPairs (compressNodes true) (leafDigest true (fun _ => 2) 1) 2 path)
          (climbPairs (compressNodes true) leaf 2 honest)) := by
  obtain ⟨_, honest, -, accepts⟩ :=
    thirdOfFour.alternative_accepts Blake2sState.new (by decide)
  have accepted : Accepts true thirdOfFour.opening (honest.flatMap Vector.toList ++ []) [] :=
    .inr ⟨_, accepts []⟩
  obtain ⟨leaf, tree, path, found, read, bound⟩ :=
    accepted_leaf_bound thirdOfFour (fun _ => 2) 1 accepted
  obtain ⟨siblings, spec, length, -⟩ := @getProof_spec true _ _ _ _ _ _
    thirdOfFour.treeSize thirdOfFour.capFits thirdOfFour.leaf
  obtain ⟨-, rfl⟩ := Prod.mk.inj (Option.some.inj (found.symm.trans spec))
  exact ⟨leaf, tree, path, _, found, length, accepted, read, bound⟩

end Airbender.Merkle

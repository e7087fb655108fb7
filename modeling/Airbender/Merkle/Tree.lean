import Airbender.Blake2s.State
import Airbender.Field.Mersenne31
import Airbender.Lib.BitReverse
import Airbender.Lib.MerkleTree

/-!
# The prover's tree

Leaf hashes of the rows of a coset, the tree over them down to the cap, and the proofs it gives out,
which are the paths of the tree in `Lib.MerkleTree`.
-/

namespace Airbender.Merkle

open Blake2s MerkleTree BitReverse

abbrev Digest := Vector Word 8

def toBlock (words : List Word) : Vector Word 16 := Vector.ofFn fun index => words.getD index 0

/-- State of the loop over full blocks: the hasher and the slot for the leaf hash. -/
structure LeafState where
  hasher : Blake2sState
  writeInto : Digest

/-- One full block of a row. The last block of a row without remainder ends the hash. -/
def absorbChunk (reducedRounds onlyFullRounds : Bool) (numFullRounds : ℕ) (state : LeafState)
    (index : ℕ) (chunk : List Word) : LeafState :=
  if index == numFullRounds - 1 && onlyFullRounds then
    { state with writeInto := state.hasher.absorbFinalBlock reducedRounds (toBlock chunk) 16 }
  else { state with hasher := state.hasher.absorb reducedRounds (toBlock chunk) }

/-- The hash of one row in `blake2s_leaf_hashes_for_coset`. An empty row leaves the slot as it
is. -/
def leafHash (reducedRounds : Bool) (row : List Word) : Digest :=
  let onlyFullRounds := row.length % 16 == 0
  let numFullRounds := row.length / 16
  let chunk := fun index => (row.drop (16 * index)).take 16
  let state := (List.range numFullRounds).foldl
    (fun state index => absorbChunk reducedRounds onlyFullRounds numFullRounds state index
      (chunk index))
    { hasher := Blake2sState.new.reset, writeInto := Vector.replicate 8 0 }
  if onlyFullRounds then state.writeInto
  else
    let remainder := row.drop (16 * numFullRounds)
    state.hasher.absorbFinalBlock reducedRounds (toBlock remainder) remainder.length

def rowWords (row : List Mersenne31Field) : List Word := row.map Mersenne31Field.toReducedU32

def treeRows (rows : List (List Mersenne31Field)) (bitreverse : Bool) :
    List (List Mersenne31Field) :=
  if bitreverse then bitReversed rows.length.log2 rows else rows

def blake2sLeafHashesForCoset (reducedRounds : Bool) (rows : List (List Mersenne31Field))
    (bitreverse : Bool) : List Digest :=
  let leafHashes := rows.map fun row => leafHash reducedRounds (rowWords row)
  if bitreverse then bitReversed rows.length.log2 leafHashes else leafHashes

def compressNodes (reducedRounds : Bool) (left right : Digest) : Digest :=
  Blake2sState.compressTwoToOne reducedRounds (left ++ right)

structure Blake2sU32MerkleTreeWithCap where
  capSize : ℕ
  leafHashes : List Digest
  nodeHashesEnumeratedFromLeafs : List (List Digest)

namespace Blake2sU32MerkleTreeWithCap

/-- Sizes are asserted to be powers of two. -/
def continueFromLeafHashes (reducedRounds : Bool) (leafHashes : List Digest) (capSize : ℕ) :
    Blake2sU32MerkleTreeWithCap :=
  { capSize
    leafHashes
    nodeHashesEnumeratedFromLeafs := buildLayers (compressNodes reducedRounds) leafHashes
      (leafHashes.length.log2 - capSize.log2) }

def constructForCoset (reducedRounds : Bool) (rows : List (List Mersenne31Field)) (capSize : ℕ)
    (bitreverse : Bool) : Blake2sU32MerkleTreeWithCap :=
  continueFromLeafHashes reducedRounds (blake2sLeafHashesForCoset reducedRounds rows bitreverse)
    capSize

def getCap (tree : Blake2sU32MerkleTreeWithCap) : List Digest :=
  (tree.leafHashes :: tree.nodeHashesEnumeratedFromLeafs).getLast (List.cons_ne_nil _ _)

def getProof (tree : Blake2sU32MerkleTreeWithCap) (idx : ℕ) : Option (Digest × List Digest) := do
  let leaf ← tree.leafHashes[idx]?
  let path ← siblings tree.leafHashes tree.nodeHashesEnumeratedFromLeafs idx
  some (leaf, path)

end Blake2sU32MerkleTreeWithCap

theorem leafHashes_eq (reducedRounds : Bool) (rows : List (List Mersenne31Field))
    (bitreverse : Bool) : blake2sLeafHashesForCoset reducedRounds rows bitreverse =
      (treeRows rows bitreverse).map fun row => leafHash reducedRounds (rowWords row) := by
  cases bitreverse with
  | false => rfl
  | true => exact bitReversed_map _ _ _

theorem length_treeRows {rows : List (List Mersenne31Field)} {treeSizeLog2 : ℕ}
    (size : rows.length = 2 ^ treeSizeLog2) (bitreverse : Bool) :
    (treeRows rows bitreverse).length = 2 ^ treeSizeLog2 := by
  cases bitreverse with
  | false => exact size
  | true =>
    have bits : rows.length.log2 = treeSizeLog2 := by rw [size, Nat.log2_two_pow]
    rw [treeRows, if_pos rfl, bits]
    exact length_bitReversed size

theorem getProof_spec {reducedRounds : Bool} {rows : List (List Mersenne31Field)}
    {treeSizeLog2 capSizeLog2 idx : ℕ} {bitreverse : Bool} {row : List Mersenne31Field}
    (treeSize : rows.length = 2 ^ treeSizeLog2) (capFits : capSizeLog2 ≤ treeSizeLog2)
    (leaf : (treeRows rows bitreverse)[idx]? = some row) :
    let tree := Blake2sU32MerkleTreeWithCap.constructForCoset reducedRounds rows
      (2 ^ capSizeLog2) bitreverse
    ∃ path, tree.getProof idx = some (leafHash reducedRounds (rowWords row), path) ∧
      path.length = treeSizeLog2 - capSizeLog2 ∧
      tree.getCap[idx >>> (treeSizeLog2 - capSizeLog2)]? =
        some (climb (compressNodes reducedRounds) (leafHash reducedRounds (rowWords row)) idx
          path) := by
  intro tree
  have leafs : tree.leafHashes = (treeRows rows bitreverse).map fun row =>
    leafHash reducedRounds (rowWords row) := leafHashes_eq reducedRounds rows bitreverse
  have length : tree.leafHashes.length = 2 ^ treeSizeLog2 := by
    rw [leafs, List.length_map, length_treeRows treeSize]
  have layers : tree.nodeHashesEnumeratedFromLeafs = buildLayers (compressNodes reducedRounds)
      tree.leafHashes (treeSizeLog2 - capSizeLog2) := by
    change buildLayers _ tree.leafHashes (tree.leafHashes.length.log2 - (2 ^ capSizeLog2).log2) = _
    rw [length, Nat.log2_two_pow, Nat.log2_two_pow]
  have sizes : tree.leafHashes.length = 2 ^ (treeSizeLog2 - capSizeLog2) * 2 ^ capSizeLog2 := by
    rw [length, ← pow_add, Nat.sub_add_cancel capFits]
  have here : tree.leafHashes[idx]? = some (leafHash reducedRounds (rowWords row)) := by
    rw [leafs, List.getElem?_map, leaf, Option.map_some]
  obtain ⟨path, found, pathLength, reached⟩ :=
    climb_siblings (treeSizeLog2 - capSizeLog2) (2 ^ capSizeLog2) sizes here
  refine ⟨path, ?_, pathLength, ?_⟩
  · rw [Blake2sU32MerkleTreeWithCap.getProof, here, layers, Option.bind_eq_bind,
      Option.bind_some, found]
    rfl
  · simp only [Blake2sU32MerkleTreeWithCap.getCap, layers]
    exact reached

end Airbender.Merkle

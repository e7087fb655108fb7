import Airbender.Merkle.Tree
import Airbender.Verifier.Source

/-!
# Leaf inclusion

The two verifiers of leaf openings. Both hash a leaf that lies in memory and then read the
siblings from the non-determinism source, one with a two-block input buffer, one with the
compression mode of the hash evaluator.
-/

namespace Airbender.Merkle

open Blake2s MerkleTree Verifier

/-- Number of full rounds and length of the last round for a leaf of `width` words. -/
def leafRounds (width : ℕ) : ℕ × ℕ :=
  let numFullRounds := width / 16
  let lastRoundLen := width % 16
  if lastRoundLen = 0 then
    (if numFullRounds > 1 then numFullRounds - 1 else numFullRounds, 16)
  else (numFullRounds, lastRoundLen)

/-- The words that the full rounds copy; `memory` holds the leaf and what follows it. -/
def fullBlocks (memory : ℕ → Word) (numFullRounds : ℕ) : List (List Word) :=
  (List.range numFullRounds).map fun round => (List.range 16).map fun word =>
    memory (16 * round + word)

def lastBlock (memory : ℕ → Word) (numFullRounds lastRoundLen : ℕ) : List Word :=
  (List.range lastRoundLen).map fun word => memory (16 * numFullRounds + word)

/-- All words that are hashed for a leaf of `width` words, by rounds. -/
def leafBlocks (memory : ℕ → Word) (width : ℕ) : List (List Word) :=
  fullBlocks memory (leafRounds width).1 ++
    [lastBlock memory (leafRounds width).1 (leafRounds width).2]

def writeHalf (buffer : Vector Word 16) (right : Bool) (digest : Digest) : Vector Word 16 :=
  Vector.ofFn fun index : Fin 16 =>
    if right == decide (8 ≤ index.val) then digest[index.val % 8] else buffer.get index

def readHalf (buffer : Vector Word 16) (right : Bool) : Digest :=
  Vector.ofFn fun index : Fin 8 =>
    if right then buffer.get (index.natAdd 8) else buffer.get (index.castAdd 8)

def readDigest : VerifierM Digest :=
  (fun words => Vector.ofFn fun index : Fin 8 => words.getD index 0) <$> readWords 8

def hashLeaf (reducedRounds : Bool) (hasher : Blake2sState) (memory : ℕ → Word) (width : ℕ) :
    Blake2sState :=
  let (numFullRounds, lastRoundLen) := leafRounds width
  let hasher := (fullBlocks memory numFullRounds).foldl
    (fun hasher block => Blake2sState.runRoundFunction reducedRounds
      { hasher with inputBuffer := toBlock block } 16 false) hasher.reset
  Blake2sState.runRoundFunction reducedRounds
    { hasher with inputBuffer := toBlock (lastBlock memory numFullRounds lastRoundLen) }
    lastRoundLen true

/-- One level: the running hash and its sibling go into the halves of the input buffer. -/
def pathStep (reducedRounds : Bool) (hasher : Blake2sState) (index : ℕ) :
    VerifierM Blake2sState := do
  let inputIsRight := index % 2 == 1
  let buffer := writeHalf hasher.inputBuffer inputIsRight hasher.readStateForOutput
  let witness ← readDigest
  let buffer := writeHalf buffer (!inputIsRight) witness
  pure (Blake2sState.runRoundFunction reducedRounds { hasher.reset with inputBuffer := buffer }
    16 true)

def followPath (reducedRounds : Bool) : ℕ → Blake2sState → ℕ → VerifierM Digest
  | 0, hasher, _ => pure hasher.readStateForOutput
  | depth + 1, hasher, index => do
      let hasher ← pathStep reducedRounds hasher index
      followPath reducedRounds depth hasher (index >>> 1)

/-- `spec_run_single_round_into_destination`. -/
def specRunSingleRound (reducedRounds : Bool) (hasher : Blake2sState) (blockLen : ℕ) : Digest :=
  let extended := roundFunction reducedRounds
    (Blake2sState.extendedState hasher.state (BitVec.ofNat 32 (blockLen * 4)) true)
    hasher.inputBuffer
  Blake2sState.fold configuredIv extended

/-- One level when single rounds write their digest straight into the input buffer. -/
def specPathStep (reducedRounds : Bool) (hasher : Blake2sState) (index : ℕ) :
    VerifierM Blake2sState := do
  let inputIsRight := index % 2 == 1
  let witness ← readDigest
  let buffer := writeHalf hasher.inputBuffer (!inputIsRight) witness
  let outputIsRight := (index >>> 1) % 2 == 1
  let hasher := { hasher.reset with inputBuffer := buffer }
  pure { hasher with
    inputBuffer := writeHalf buffer outputIsRight (specRunSingleRound reducedRounds hasher 16) }

def specFollowPath (reducedRounds : Bool) : ℕ → Blake2sState → ℕ → VerifierM Digest
  | 0, hasher, index => pure (readHalf hasher.inputBuffer (index % 2 == 1))
  | depth + 1, hasher, index => do
      let hasher ← specPathStep reducedRounds hasher index
      specFollowPath reducedRounds depth hasher (index >>> 1)

def compareWithCap (caps : List (List Digest)) (cosetIndex index : ℕ) (digest : Digest) :
    VerifierM Bool := do
  let cap ← liftM (caps[cosetIndex]?)
  let entry ← liftM (cap[index]?)
  pure (digest == entry)

/-- What a verifier is asked: where the leaf lies, how far the cap is and where it should be. -/
structure LeafOpening where
  cosetIndex : ℕ
  leafIndex : ℕ
  depth : ℕ
  memory : ℕ → Word
  width : ℕ
  caps : List (List Digest)

def verifyLeafInclusion (reducedRounds supportSpecSingleRound : Bool) (hasher : Blake2sState)
    (opening : LeafOpening) : VerifierM Bool := do
  let hasher := hashLeaf reducedRounds hasher opening.memory opening.width
  let index := opening.leafIndex
  if opening.depth = 0 then
    compareWithCap opening.caps opening.cosetIndex index hasher.readStateForOutput
  else if supportSpecSingleRound then do
    let buffer := writeHalf hasher.inputBuffer (index % 2 == 1) hasher.readStateForOutput
    let digest ← specFollowPath reducedRounds opening.depth
      { hasher with inputBuffer := buffer } index
    compareWithCap opening.caps opening.cosetIndex (index >>> opening.depth) digest
  else do
    let digest ← followPath reducedRounds opening.depth hasher index
    compareWithCap opening.caps opening.cosetIndex (index >>> opening.depth) digest

def runRoundFunctionWithInput (reducedRounds : Bool) (hasher : Blake2sState)
    (inputBuffer : Vector Word 16) (inputSizeWords : ℕ) (lastRound : Bool) : Blake2sState :=
  let t := hasher.t + BitVec.ofNat 32 (inputSizeWords * 4)
  let extended := roundFunction reducedRounds
    (Blake2sState.extendedState hasher.state t lastRound) inputBuffer
  { hasher with state := Blake2sState.fold hasher.state extended, t := t }

/-- `compress_node`: the sibling is in the first half of the input buffer, the hash in the
state. -/
def compressNode (reducedRounds : Bool) (hasher : Blake2sState) (isRight : Bool) :
    Blake2sState :=
  let witness := readHalf hasher.inputBuffer false
  let input := if isRight then witness ++ hasher.state else hasher.state ++ witness
  let extended := roundFunction reducedRounds (Blake2sState.extendedState configuredIv 64 true)
    input
  { hasher with state := Blake2sState.fold configuredIv extended }

def alternativeHashLeaf (reducedRounds : Bool) (hasher : Blake2sState) (memory : ℕ → Word)
    (width : ℕ) : Blake2sState :=
  let (numFullRounds, lastRoundLen) := leafRounds width
  let hasher := (fullBlocks memory numFullRounds).foldl
    (fun hasher block => runRoundFunctionWithInput reducedRounds hasher (toBlock block) 16 false)
    hasher.reset
  runRoundFunctionWithInput reducedRounds hasher
    (toBlock (lastBlock memory numFullRounds lastRoundLen)) lastRoundLen true

def alternativeFollowPath (reducedRounds : Bool) : ℕ → Blake2sState → ℕ → VerifierM Digest
  | 0, hasher, _ => pure hasher.readStateForOutput
  | depth + 1, hasher, index => do
      let inputIsRight := index % 2 == 1
      let witness ← readDigest
      let hasher := compressNode reducedRounds
        { hasher with inputBuffer := writeHalf hasher.inputBuffer false witness } inputIsRight
      alternativeFollowPath reducedRounds depth hasher (index >>> 1)

def alternativeVerifyLeafInclusion (reducedRounds : Bool) (hasher : Blake2sState)
    (opening : LeafOpening) : VerifierM Bool := do
  let hasher := alternativeHashLeaf reducedRounds hasher opening.memory opening.width
  let index := opening.leafIndex
  if opening.depth = 0 then
    compareWithCap opening.caps opening.cosetIndex index hasher.readStateForOutput
  else do
    let digest ← alternativeFollowPath reducedRounds opening.depth hasher index
    compareWithCap opening.caps opening.cosetIndex (index >>> opening.depth) digest

end Airbender.Merkle

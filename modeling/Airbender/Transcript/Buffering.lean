import Airbender.Blake2s.State

/-!
# Transcripts

`Blake2sBufferingTranscript` hashes a sequence of word slices as they arrive. A full block stays
in the buffer until more words follow, because the last block is compressed with a different flag.
-/

namespace Airbender.Transcript

open Blake2s
open List hiding Vector

abbrev Seed := Vector Word 8

def useReducedBlake2Rounds : Bool := true

def copyWords (buffer : Vector Word 16) (offset : ℕ) (words : List Word) : Vector Word 16 :=
  Vector.ofFn fun index : Fin 16 =>
    if offset ≤ index.val then words.getD (index.val - offset) (buffer.get index)
    else buffer.get index

def zeroRest (buffer : Vector Word 16) (offset : ℕ) : Vector Word 16 :=
  Vector.ofFn fun index : Fin 16 => if offset ≤ index.val then 0 else buffer.get index

structure Blake2sBufferingTranscript where
  state : Blake2sState
  bufferOffset : ℕ
deriving DecidableEq

namespace Blake2sBufferingTranscript

def new : Blake2sBufferingTranscript := ⟨.new, 0⟩

variable (transcript : Blake2sBufferingTranscript)

def getCurrentBufferOffset : ℕ := transcript.bufferOffset

def runAbsorb : Blake2sBufferingTranscript :=
  ⟨transcript.state.runRoundFunction useReducedBlake2Rounds 16 false, 0⟩

/-- The loop of `absorb`. Every iteration but one that starts with a full buffer consumes words,
so one more iteration than there are words is enough. -/
def absorbLoop : ℕ → Blake2sBufferingTranscript → List Word → Blake2sBufferingTranscript
  | 0, transcript, _ => transcript
  | iterations + 1, transcript, values =>
    if values.isEmpty then transcript
    else
      let absorbThisRound := min values.length (16 - transcript.bufferOffset)
      let filled : Blake2sBufferingTranscript :=
        ⟨{ transcript.state with
            inputBuffer := copyWords transcript.state.inputBuffer transcript.bufferOffset
              (values.take absorbThisRound) },
          transcript.bufferOffset + absorbThisRound⟩
      let rest := values.drop absorbThisRound
      if rest.isEmpty then filled else absorbLoop iterations filled.runAbsorb rest

def absorb (values : List Word) :
    Blake2sBufferingTranscript :=
  absorbLoop (values.length + 1) transcript values

def finalizeReset :
    Seed × Blake2sBufferingTranscript :=
  let padded := { transcript.state with
    inputBuffer := zeroRest transcript.state.inputBuffer transcript.bufferOffset }
  let final := padded.runRoundFunction useReducedBlake2Rounds transcript.bufferOffset true
  (final.readStateForOutput, ⟨final.reset, 0⟩)

def finalize : Seed :=
  let padded := { transcript.state with
    inputBuffer := zeroRest transcript.state.inputBuffer transcript.bufferOffset }
  (padded.runRoundFunction useReducedBlake2Rounds transcript.bufferOffset true).readStateForOutput

theorem finalizeReset_fst : transcript.finalizeReset.1 = transcript.finalize := rfl

end Blake2sBufferingTranscript

/-- The chaining value, and the number of bytes that went into it. -/
abbrev Chaining := Vector Word 8 × Word

def paddedBlock (words : List Word) : Vector Word 16 :=
  Vector.ofFn fun index : Fin 16 => words.getD index.val 0

def compress (chaining : Chaining) (block : List Word) (last : Bool) : Chaining :=
  let hasher := Blake2sState.runRoundFunction useReducedBlake2Rounds
    ⟨chaining.1, paddedBlock block, chaining.2⟩ block.length last
  (hasher.state, hasher.t)

/-- The words that are left make up the last block. -/
def seedOf (absorbed : Chaining × List Word) : Seed := (compress absorbed.1 absorbed.2 true).1

/-- Compress blocks as long as words follow them; the words of the last block are left. -/
def feed (chaining : Chaining) (words : List Word) : Chaining × List Word :=
  if words.length ≤ 16 then (chaining, words)
  else feed (compress chaining (words.take 16) false) (words.drop 16)
termination_by words.length
decreasing_by
  rw [length_drop]
  omega

theorem feed_block {chaining : Chaining} {block rest : List Word} (full : block.length = 16)
    (more : rest ≠ []) :
    feed chaining (block ++ rest) = feed (compress chaining block false) rest := by
  have positive := length_pos_of_ne_nil more
  rw [feed, if_neg (by rw [length_append]; omega), take_left' full, drop_left' full]

theorem feed_length (chaining : Chaining) (words : List Word) :
    (feed chaining words).2.length ≤ 16 ∧
      (feed chaining words).2.length % 16 = words.length % 16 ∧
      (words ≠ [] → (feed chaining words).2 ≠ []) := by
  fun_induction feed chaining words with
  | case1 chaining words short => exact ⟨short, rfl, id⟩
  | case2 chaining words long ih =>
    rcases ih with ⟨short, same, nonempty⟩
    rw [length_drop] at same
    refine ⟨short, by omega, fun _ => nonempty ?_⟩
    rw [ne_eq, drop_eq_nil_iff]
    omega

namespace Blake2sBufferingTranscript

variable {transcript : Blake2sBufferingTranscript}

def absorbed (transcript : Blake2sBufferingTranscript) : Chaining × List Word :=
  ((transcript.state.state, transcript.state.t),
    transcript.state.inputBuffer.toList.take transcript.bufferOffset)

theorem length_absorbed (within : transcript.bufferOffset ≤ 16) :
    transcript.absorbed.2.length = transcript.bufferOffset := by
  simp [absorbed, within]

variable {values : List Word} (buffer : Vector Word 16)

theorem take_copyWords {offset count : ℕ}
    (enough : count ≤ values.length) (within : offset + count ≤ 16) :
    (copyWords buffer offset (values.take count)).toList.take (offset + count) =
      buffer.toList.take offset ++ values.take count := by
  apply ext_getElem
  · simp
    omega
  · intro index inside _
    simp at inside
    simp only [copyWords, getElem_take, Vector.getElem_toList, Vector.getElem_ofFn,
      Vector.get_eq_getElem, getElem_append, length_take, Vector.length_toList]
    grind

theorem paddedBlock_take (offset : ℕ) :
    paddedBlock (buffer.toList.take offset) = zeroRest buffer offset := by
  ext1 index inside
  by_cases rest : offset ≤ index
  · simp [paddedBlock, zeroRest, rest]
  · simp [paddedBlock, zeroRest, rest, getElem?_take, Nat.lt_of_not_le rest,
      Vector.get_eq_getElem]

theorem absorbed_runAbsorb (full : transcript.bufferOffset = 16) :
    transcript.runAbsorb.absorbed =
      (compress transcript.absorbed.1 transcript.absorbed.2 false, []) := by
  have whole : zeroRest transcript.state.inputBuffer 16 = transcript.state.inputBuffer := by
    ext1 index inside
    simp [zeroRest, Nat.not_le.mpr inside, Vector.get_eq_getElem]
  rw [compress, length_absorbed full.le]
  simp only [absorbed, paddedBlock_take, full, whole, runAbsorb, take_zero]

theorem feed_short (within : transcript.bufferOffset ≤ 16) :
    feed transcript.absorbed.1 transcript.absorbed.2 = transcript.absorbed := by
  rw [feed, if_pos (by rw [length_absorbed within]; exact within)]

theorem feed_filled {count : ℕ} (filled : Blake2sBufferingTranscript)
    (within : transcript.bufferOffset ≤ 16)
    (isCount : count = min values.length (16 - transcript.bufferOffset))
    (offset : filled.bufferOffset = transcript.bufferOffset + count)
    (copied : filled.absorbed =
      (transcript.absorbed.1, transcript.absorbed.2 ++ values.take count)) :
    feed transcript.absorbed.1 (transcript.absorbed.2 ++ values) =
      if (values.drop count).isEmpty then filled.absorbed
      else feed filled.runAbsorb.absorbed.1
        (filled.runAbsorb.absorbed.2 ++ values.drop count) := by
  split_ifs with last
  · rw [List.isEmpty_iff, drop_eq_nil_iff] at last
    rw [← feed_short (by omega : filled.bufferOffset ≤ 16), copied, take_of_length_le last]
  · have more := mt List.isEmpty_iff.mpr last
    have full : filled.bufferOffset = 16 := by
      rw [drop_eq_nil_iff] at more
      omega
    have block := (length_absorbed full.le).trans full
    rw [absorbed_runAbsorb full, nil_append, ← feed_block block more, copied,
      append_assoc, take_append_drop]

theorem absorbed_absorbLoop {iterations : ℕ} (within : transcript.bufferOffset ≤ 16)
    (enough : values.length + transcript.bufferOffset / 16 ≤ iterations) :
    (absorbLoop iterations transcript values).bufferOffset ≤ 16 ∧
      (absorbLoop iterations transcript values).absorbed =
        feed transcript.absorbed.1 (transcript.absorbed.2 ++ values) := by
  induction iterations generalizing transcript values with
  | zero =>
    rw [eq_nil_of_length_eq_zero (by omega : values.length = 0), append_nil,
      feed_short within]
    exact ⟨within, rfl⟩
  | succ iterations ih =>
    by_cases empty : values = []
    · simp [absorbLoop, empty, feed_short within, within]
    · have positive := length_pos_of_ne_nil empty
      simp only [absorbLoop, List.isEmpty_iff, empty, if_false]
      generalize isCount : min values.length (16 - transcript.bufferOffset) = count
      have copied := take_copyWords transcript.state.inputBuffer
        (show count ≤ values.length by omega)
        (show transcript.bufferOffset + count ≤ 16 by omega)
      rw [feed_filled ⟨⟨transcript.state.state, copyWords transcript.state.inputBuffer
        transcript.bufferOffset (values.take count), transcript.state.t⟩, _⟩ within isCount.symm
        rfl (congrArg (Prod.mk transcript.absorbed.1) copied)]
      simp only [List.isEmpty_iff]
      split_ifs with last
      · exact ⟨by dsimp only; omega, rfl⟩
      · rw [drop_eq_nil_iff] at last
        exact ih (Nat.zero_le _) (by simp only [runAbsorb, length_drop]; omega)

theorem absorbed_absorb (within : transcript.bufferOffset ≤ 16) (values : List Word) :
    (transcript.absorb values).bufferOffset ≤ 16 ∧ (transcript.absorb values).absorbed =
      feed transcript.absorbed.1 (transcript.absorbed.2 ++ values) :=
  absorbed_absorbLoop within (by omega)

theorem absorb_blocks
    (between : transcript.bufferOffset = 0 ∨ transcript.bufferOffset = 16) (nonempty : values ≠ [])
    (blocks : values.length % 16 = 0) : (transcript.absorb values).bufferOffset = 16 := by
  have within : transcript.bufferOffset ≤ 16 := by omega
  have after := absorbed_absorb within values
  have left := feed_length transcript.absorbed.1 (transcript.absorbed.2 ++ values)
  rw [← after.2, length_absorbed after.1, length_append, length_absorbed within] at left
  have positive := length_pos_of_ne_nil (left.2.2 (append_ne_nil_of_right_ne_nil _ nonempty))
  rw [length_absorbed after.1] at positive
  omega

end Blake2sBufferingTranscript

namespace Blake2sTranscript

/-- `draw_randomness_inner`: hash the seed alone, as one zero-padded block. -/
def drawRandomnessInner (seed : Seed) : Seed :=
  let hasher : Blake2sState := { Blake2sState.new with
    inputBuffer := seed ++ (Vector.replicate 8 0 : Vector Word 8) }
  (hasher.runRoundFunction useReducedBlake2Rounds 8 true).readStateForOutput

/-- `draw_randomness` of `8 * blocks` words: the seed first, then its successors. -/
def drawRandomness : ℕ → Seed → List Word
  | 0, _ => []
  | blocks + 1, seed => seed.toList ++ drawRandomness blocks (drawRandomnessInner seed)

end Blake2sTranscript

/-- The operations of a transcript, as far as verifiers use them. Statements about verifiers hold
for any of them; `blake2s` is the one the source is built with. -/
structure TranscriptImplementation where
  State : Type
  new : State
  absorb : State → List Word → State
  getCurrentBufferOffset : State → ℕ
  finalizeReset : State → Seed × State
  drawRandomness : (blocks : ℕ) → Seed → List Word

def blake2s : TranscriptImplementation where
  State := Blake2sBufferingTranscript
  new := .new
  absorb := Blake2sBufferingTranscript.absorb
  getCurrentBufferOffset := Blake2sBufferingTranscript.getCurrentBufferOffset
  finalizeReset := Blake2sBufferingTranscript.finalizeReset
  drawRandomness := Blake2sTranscript.drawRandomness

end Airbender.Transcript

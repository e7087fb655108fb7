import Airbender.Transcript.Buffering

/-!
# Splitting the input of a transcript

A seed depends on the words that were absorbed, and not on the slices in which they came. The
transcripts that commit to their input at once arrive at the same seed.
-/

namespace Airbender.Transcript

open Blake2s

set_option autoImplicit false

namespace Blake2sBufferingTranscript

theorem feed_append (chaining : Chaining) (words more : List Word) :
    feed chaining (words ++ more) =
      feed (feed chaining words).1 ((feed chaining words).2 ++ more) := by
  fun_induction feed chaining words with
  | case1 => rfl
  | case2 chaining words long ih =>
    have longer : ¬(words ++ more).length ≤ 16 := by
      rw [List.length_append]
      omega
    rw [feed, if_neg longer, List.take_append_of_le_length (by omega),
      List.drop_append_of_le_length (by omega), ih]

theorem take_zeroRest (buffer : Vector Word 16) (offset : ℕ) :
    (zeroRest buffer offset).toList.take offset = buffer.toList.take offset := by
  apply List.ext_getElem
  · simp
  · intro index inside _
    have before : ¬offset ≤ index := by
      rw [List.length_take] at inside
      omega
    simp [zeroRest, before, Vector.get_eq_getElem]

theorem finalize_eq {transcript : Blake2sBufferingTranscript}
    (within : transcript.bufferOffset ≤ 16) :
    transcript.finalize = seedOf transcript.absorbed := by
  rw [seedOf, compress, length_absorbed within]
  simp only [absorbed, paddedBlock_take]
  rfl

end Blake2sBufferingTranscript

namespace Blake2sTranscript

/-- The loop of `commit_inner`, which zeroes the rest of the buffer in every round. -/
def commitRounds : ℕ → Blake2sState → List Word → ℕ → Blake2sState × ℕ
  | 0, hasher, _, bufferOffset => (hasher, bufferOffset)
  | rounds + 1, hasher, input, bufferOffset =>
    let wordsToUse := min input.length (16 - bufferOffset)
    let copied := copyWords hasher.inputBuffer bufferOffset (input.take wordsToUse)
    let bufferOffset := bufferOffset + wordsToUse
    let hasher := { hasher with inputBuffer := zeroRest copied bufferOffset }
    let input := input.drop wordsToUse
    if input.isEmpty then commitRounds rounds hasher input bufferOffset
    else commitRounds rounds (hasher.runRoundFunction useReducedBlake2Rounds 16 false) input 0

def commitInner (hasher : Blake2sState) (input : List Word) (offset : ℕ) : Blake2sState × ℕ :=
  let effectiveInputLen := offset + input.length
  let numRounds := effectiveInputLen / 16 + if effectiveInputLen % 16 > 0 then 1 else 0
  commitRounds numRounds hasher input offset

def flush (hasher : Blake2sState) (offset : ℕ) : Blake2sState :=
  hasher.runRoundFunction useReducedBlake2Rounds offset true

def commitInitial (input : List Word) : Seed :=
  let (hasher, offset) := commitInner .new input 0
  (flush hasher offset).readStateForOutput

def commitWithSeed (seed : Seed) (input : List Word) : Seed :=
  let (hasher, offset) := commitInner .new seed.toList 0
  let (hasher, offset) := commitInner hasher input offset
  (flush hasher offset).readStateForOutput

open Blake2sBufferingTranscript

/-- A hasher whose buffer holds some words of the last block, padded by zeros. -/
structure Holds (hasher : Blake2sState × ℕ) (absorbed : Chaining × List Word) : Prop where
  within : hasher.2 ≤ 16
  padded : zeroRest hasher.1.inputBuffer hasher.2 = hasher.1.inputBuffer
  absorbed : Blake2sBufferingTranscript.absorbed ⟨hasher.1, hasher.2⟩ = absorbed

theorem Holds.flush {hasher : Blake2sState × ℕ} {absorbed : Chaining × List Word}
    (holds : Holds hasher absorbed) :
    (flush hasher.1 hasher.2).readStateForOutput = seedOf absorbed := by
  rw [← holds.absorbed, ← finalize_eq holds.within]
  simp only [finalize, holds.padded]
  rfl

theorem zeroRest_zeroRest (buffer : Vector Word 16) (offset : ℕ) :
    zeroRest (zeroRest buffer offset) offset = zeroRest buffer offset := by
  rw [← paddedBlock_take, take_zeroRest, paddedBlock_take]

variable {input : List Word}

theorem commitRounds_holds {rounds : ℕ} {hasher : Blake2sState} {offset : ℕ} (within : offset ≤ 16)
    (nonempty : 0 < offset + input.length) (enough : (offset + input.length + 15) / 16 = rounds) :
    Holds (commitRounds rounds hasher input offset)
      (feed (absorbed ⟨hasher, offset⟩).1 ((absorbed ⟨hasher, offset⟩).2 ++ input)) := by
  induction rounds generalizing hasher input offset with
  | zero => omega
  | succ rounds ih =>
    simp only [commitRounds]
    generalize isCount : min input.length (16 - offset) = count
    have copied := take_copyWords hasher.inputBuffer (show count ≤ input.length by omega)
      (show offset + count ≤ 16 by omega)
    rw [← take_zeroRest] at copied
    rw [feed_filled ⟨⟨hasher.state, zeroRest (copyWords hasher.inputBuffer offset
      (input.take count)) (offset + count), hasher.t⟩, _⟩ within isCount.symm rfl
      (congrArg (Prod.mk (absorbed ⟨hasher, offset⟩).1) copied)]
    simp only [List.isEmpty_iff]
    split_ifs with last
    · rw [List.drop_eq_nil_iff] at last
      have none : rounds = 0 := by omega
      rw [none]
      exact ⟨by dsimp only [commitRounds]; omega, zeroRest_zeroRest _ _, rfl⟩
    · rw [List.drop_eq_nil_iff] at last
      exact ih (Nat.zero_le _) (by rw [List.length_drop]; omega)
        (by rw [List.length_drop]; omega)

theorem commitInner_holds (hasher : Blake2sState) {offset : ℕ}
    (within : offset ≤ 16) (nonempty : 0 < offset + input.length) :
    Holds (commitInner hasher input offset)
      (feed (absorbed ⟨hasher, offset⟩).1 ((absorbed ⟨hasher, offset⟩).2 ++ input)) := by
  apply commitRounds_holds within nonempty
  split_ifs <;> omega

theorem commitInitial_eq (nonempty : input ≠ []) :
    commitInitial input = seedOf (feed new.absorbed.1 input) :=
  have positive := Nat.add_pos_right 0 (List.length_pos_of_ne_nil nonempty)
  (commitInner_holds _ (Nat.zero_le _) positive).flush

theorem commitWithSeed_eq (seed : Seed) (nonempty : input ≠ []) :
    commitWithSeed seed input = commitInitial (seed.toList ++ input) := by
  have seeded : Holds (commitInner .new seed.toList 0) _ :=
    commitInner_holds _ (Nat.zero_le _) (by simp)
  have committed := commitInner_holds (commitInner .new seed.toList 0).1 seeded.within
    (Nat.add_pos_right _ (List.length_pos_of_ne_nil nonempty))
  rw [seeded.absorbed, ← feed_append] at committed
  rw [commitInitial_eq (by simp [nonempty])]
  exact committed.flush

end Blake2sTranscript

namespace Blake2sBufferingTranscript

def pad (transcript : Blake2sBufferingTranscript) : Blake2sBufferingTranscript :=
  ⟨{ transcript.state with
      inputBuffer := zeroRest transcript.state.inputBuffer transcript.bufferOffset }, 16⟩

/-- What can be done with a transcript before it is finalized. -/
inductive Operation where
  | absorb (values : List Word)
  | pad
  | getCurrentBufferOffset
  | finalizeReset
deriving DecidableEq

/-- What is seen of a transcript while some operations are done and when it is finalized. -/
def observe : List Operation → Blake2sBufferingTranscript → List (Seed ⊕ ℕ)
  | [], transcript => [.inl transcript.finalize]
  | .absorb values :: operations, transcript => observe operations (transcript.absorb values)
  | .pad :: operations, transcript => observe operations transcript.pad
  | .getCurrentBufferOffset :: operations, transcript =>
    .inr transcript.getCurrentBufferOffset :: observe operations transcript
  | .finalizeReset :: operations, transcript =>
    .inl transcript.finalizeReset.1 :: observe operations transcript.finalizeReset.2

theorem absorbed_pad (transcript : Blake2sBufferingTranscript) :
    transcript.pad.absorbed =
      (transcript.absorbed.1, (paddedBlock transcript.absorbed.2).toList) := by
  simp [absorbed, pad, paddedBlock_take]

theorem absorbed_finalizeReset (transcript : Blake2sBufferingTranscript) :
    transcript.finalizeReset.2.absorbed = new.absorbed := by
  simp only [absorbed, finalizeReset, new, Blake2sState.reset, Blake2sState.new, List.take_zero]

/-- Nothing else is seen of a transcript than what it has absorbed. -/
theorem observe_congr (operations : List Operation) {transcript other : Blake2sBufferingTranscript}
    (within : transcript.bufferOffset ≤ 16) (within' : other.bufferOffset ≤ 16)
    (same : transcript.absorbed = other.absorbed) :
    observe operations transcript = observe operations other := by
  induction operations generalizing transcript other with
  | nil => rw [observe, observe, finalize_eq within, finalize_eq within', same]
  | cons operation operations ih =>
    cases operation with
    | absorb values =>
      have after := absorbed_absorb within values
      have after' := absorbed_absorb within' values
      exact ih after.1 after'.1 (by rw [after.2, after'.2, same])
    | pad => exact ih (Nat.le_refl 16) (Nat.le_refl 16) (by rw [absorbed_pad, absorbed_pad, same])
    | getCurrentBufferOffset =>
      rw [observe, observe, ih within within' same, getCurrentBufferOffset, getCurrentBufferOffset,
        ← length_absorbed within, same, length_absorbed within']
    | finalizeReset =>
      have reset := @ih transcript.finalizeReset.2 other.finalizeReset.2 (Nat.zero_le _)
        (Nat.zero_le _) (by rw [absorbed_finalizeReset, absorbed_finalizeReset])
      rw [observe, observe, finalizeReset_fst, finalizeReset_fst, finalize_eq within,
        finalize_eq within', same, reset]

theorem absorbed_foldl (slices : List (List Word)) {transcript : Blake2sBufferingTranscript}
    (within : transcript.bufferOffset ≤ 16) :
    (slices.foldl absorb transcript).bufferOffset ≤ 16 ∧
      (slices.foldl absorb transcript).absorbed =
        feed transcript.absorbed.1 (transcript.absorbed.2 ++ slices.flatten) := by
  induction slices generalizing transcript with
  | nil =>
    rw [List.flatten_nil, List.append_nil, feed_short within]
    exact ⟨within, rfl⟩
  | cons slice slices ih =>
    have first := absorbed_absorb within slice
    have rest := ih first.1
    rw [first.2, ← feed_append, List.append_assoc] at rest
    exact rest

open Blake2sTranscript in
/-- It does not matter how the input of a transcript is cut into slices. -/
theorem transcript_splits (slices : List (List Word)) (seed : Seed) (input : List Word)
    (transcript : Blake2sBufferingTranscript) (operations : List Operation) :
    (slices.foldl absorb new).finalize = (new.absorb slices.flatten).finalize ∧
      (slices.flatten ≠ [] →
        (new.absorb slices.flatten).finalize = commitInitial slices.flatten) ∧
      (input ≠ [] → commitWithSeed seed input = commitInitial (seed.toList ++ input)) ∧
      transcript.finalizeReset.1 = transcript.finalize ∧
      observe operations transcript.finalizeReset.2 = observe operations new := by
  have start : new.bufferOffset ≤ 16 := Nat.zero_le _
  have fed := absorbed_foldl slices start
  have whole := absorbed_absorb start slices.flatten
  refine ⟨?_, ?_, commitWithSeed_eq seed, rfl, ?_⟩
  · rw [finalize_eq fed.1, finalize_eq whole.1, fed.2, whole.2]
  · intro nonempty
    rw [finalize_eq whole.1, whole.2, commitInitial_eq nonempty]
    rfl
  · exact observe_congr operations (Nat.zero_le _) start (absorbed_finalizeReset _)

open Blake2sTranscript in
theorem transcript_splits_two :
    ([[1], [], [2, 3]].foldl absorb new).finalize = commitInitial [1, 2, 3] :=
  have splits := transcript_splits [[1], [], [2, 3]] (Vector.replicate 8 0) [1] new []
  splits.1.trans (splits.2.1 (by decide))

end Blake2sBufferingTranscript

end Airbender.Transcript

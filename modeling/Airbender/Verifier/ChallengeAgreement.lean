import Airbender.Prover.FsTransform
import Airbender.Verifier.Continuity

/-!
# The challenges of prover and verifier

The full-statement verifier absorbs the commitments of the prover while it verifies proof after
proof, and skips delegation types without circuits. Both arrive at the same seed, and no assertion
about the transcript's buffer fails.
-/

namespace Airbender.Verifier

open Blake2s Transcript Prover BitVec
open List hiding Vector cons nil

/-- What the verifier holds when it draws the challenges. -/
structure ReadStatement (hash : TranscriptImplementation) where
  registers : List Word
  mainState : MainState hash
  proofOutput0 : MainProofOutput
  final : DelegationState hash

/-- The part of `verify_full_statement` in front of the challenges. -/
def readStatement (hash : TranscriptImplementation) (baseLayer : Bool)
    (mainVerifier : MainCircuitVerifier) (delegationVerifiers : List DelegationCircuitVerifier) :
    VerifierM (ReadStatement hash) := do
  let registers ← readWords (32 * 3)
  check (registers.getD 0 0 == 0)
  let numCircuits ← readWord
  check (decide (0 < numCircuits.toNat))
  check (decide (numCircuits.toNat ≤
    if baseLayer then maxBaseLayerCircuits else maxRecursionLayerCircuits))
  let mainState ← verifyMainCircuits hash mainVerifier numCircuits.toNat 0
    { transcript := hash.absorb hash.new registers
      expectedInputPc := 0
      memoryGrandProductAccumulator := 1
      delegationSetAccumulator := 0
      proofOutput0 := none
      proofOutput1 := none }
  check (hash.getCurrentBufferOffset mainState.transcript == 16)
  let proofOutput0 ← liftM mainState.proofOutput0
  let final ← verifyDelegations hash proofOutput0 delegationVerifiers 0
    { transcript := mainState.transcript
      memoryGrandProductAccumulator := mainState.memoryGrandProductAccumulator
      delegationSetAccumulator := mainState.delegationSetAccumulator
      totalDelegationRequests := 0 }
  check (decide (final.totalDelegationRequests < 2 ^ 31 - 1))
  pure ⟨registers, mainState, proofOutput0, final⟩

def ReadStatement.expectedChallenges {hash : TranscriptImplementation}
    (statement : ReadStatement hash) : ExternalChallenges :=
  drawFromTranscriptSeed hash (hash.finalizeReset statement.final.transcript).1

variable (hash : TranscriptImplementation) (caps : MerkleTreeCaps)

/-- The verifier compares the challenges with those of the proofs, and goes on with the memory
argument. -/
theorem verifyFullStatement_eq (baseLayer : Bool)
    (mainVerifier : MainCircuitVerifier) (delegationVerifiers : List DelegationCircuitVerifier) :
    verifyFullStatement hash baseLayer mainVerifier delegationVerifiers = (do
      let statement ← readStatement hash baseLayer mainVerifier delegationVerifiers
      check (statement.expectedChallenges.memoryArgument ==
        statement.proofOutput0.memoryChallenges)
      check (statement.expectedChallenges.delegationArgument ==
        statement.proofOutput0.delegationChallenges)
      let registerContribution ← liftM (produceRegisterContributionIntoMemoryAccumulatorRaw
        statement.registers statement.proofOutput0.memoryChallenges)
      check (statement.final.memoryGrandProductAccumulator * registerContribution == 1)
      check (statement.final.delegationSetAccumulator == 0)
      let resultHasher := hash.absorb (hash.absorb hash.new [statement.mainState.expectedInputPc])
        (flattenCaps statement.proofOutput0.setupCaps)
      let (endParams, resultHasher) := hash.finalizeReset resultHasher
      let chain ← continueChain hash baseLayer statement.registers endParams resultHasher
      pure ((List.range 8).map (fun index => statement.registers.getD ((10 + index) * 3) 0) ++
        chain)) := by
  simp only [verifyFullStatement, readStatement, bind_assoc, pure_bind]
  apply bind_congr
  intro registers
  apply bind_congr
  intro _
  apply bind_congr
  intro numCircuits
  apply bind_congr
  intro _
  apply bind_congr
  intro _
  apply bind_congr
  intro mainState
  apply bind_congr
  intro _
  cases mainState.proofOutput0 with
  | none => rfl
  | some proofOutput0 => rfl

/-- The transcript that only remembers what it absorbs. -/
def recordedTranscript : TranscriptImplementation where
  State := List (List Word)
  new := []
  absorb slices slice := slices ++ [slice]
  getCurrentBufferOffset _ := 16
  finalizeReset _ := (Vector.replicate 8 0, [])
  drawRandomness blocks _ := List.replicate (8 * blocks) 0

def replay (hash : TranscriptImplementation) (slices : List (List Word)) : hash.State :=
  slices.foldl hash.absorb hash.new

/-- Between slices of whole blocks, the buffer of the transcript is full. -/
def KeepsBlocks (hash : TranscriptImplementation) : Prop :=
  ∀ slices, slices ≠ [] → (∀ slice ∈ slices, Blocks slice) →
    hash.getCurrentBufferOffset (replay hash slices) = 16

theorem blake2s_keepsBlocks : KeepsBlocks blake2s :=
  fun _ nonempty blocks => absorbAll_offset blocks nonempty

theorem constantTranscript_keepsBlocks : KeepsBlocks constantTranscript := fun _ _ _ => rfl

section

variable (hash : TranscriptImplementation)

theorem replay_snoc (slices : List (List Word)) (slice : List Word) :
    replay hash (slices ++ [slice]) = hash.absorb (replay hash slices) slice := by
  rw [replay, foldl_append]
  rfl

def MainState.replay (state : MainState recordedTranscript) : MainState hash where
  transcript := Verifier.replay hash state.transcript
  expectedInputPc := state.expectedInputPc
  memoryGrandProductAccumulator := state.memoryGrandProductAccumulator
  delegationSetAccumulator := state.delegationSetAccumulator
  proofOutput0 := state.proofOutput0
  proofOutput1 := state.proofOutput1

def DelegationState.replay (state : DelegationState recordedTranscript) : DelegationState hash where
  transcript := Verifier.replay hash state.transcript
  memoryGrandProductAccumulator := state.memoryGrandProductAccumulator
  delegationSetAccumulator := state.delegationSetAccumulator
  totalDelegationRequests := state.totalDelegationRequests

def ReadStatement.replay (statement : ReadStatement recordedTranscript) : ReadStatement hash where
  registers := statement.registers
  mainState := statement.mainState.replay hash
  proofOutput0 := statement.proofOutput0
  final := statement.final.replay hash

theorem advance_replay (state : MainState recordedTranscript) (circuitSequence : ℕ)
    (current : MainProofOutput) (endPc : Word) :
    (state.replay hash).advance hash circuitSequence current endPc =
      (state.advance recordedTranscript circuitSequence current endPc).replay hash := by
  have absorbed : ∀ slices slice, Verifier.replay hash (recordedTranscript.absorb slices slice) =
      hash.absorb (Verifier.replay hash slices) slice := replay_snoc hash
  by_cases first : circuitSequence = 0
  · simp only [MainState.advance, MainState.replay, first, if_true, absorbed]
  · simp only [MainState.advance, MainState.replay, first, if_false, absorbed]

theorem verifyMainCircuit_replay (verifier : MainCircuitVerifier) (circuitSequence : ℕ)
    (state : MainState recordedTranscript) :
    verifyMainCircuit hash verifier circuitSequence (state.replay hash) =
      MainState.replay hash <$> verifyMainCircuit recordedTranscript verifier circuitSequence
        state := by
  simp only [verifyMainCircuit, map_bind, map_pure, advance_replay]
  rfl

theorem verifyMainCircuits_replay (verifier : MainCircuitVerifier) (remaining circuitSequence : ℕ)
    (state : MainState recordedTranscript) :
    verifyMainCircuits hash verifier remaining circuitSequence (state.replay hash) =
      MainState.replay hash <$> verifyMainCircuits recordedTranscript verifier remaining
        circuitSequence state := by
  induction remaining generalizing circuitSequence state with
  | zero => rfl
  | succ remaining ih =>
    simp [verifyMainCircuits, verifyMainCircuit_replay, ih]

theorem verifyDelegationCircuit_replay (parameters : DelegationCircuitVerifier)
    (reference : MainProofOutput) (state : DelegationState recordedTranscript) :
    verifyDelegationCircuit hash parameters reference (state.replay hash) =
      DelegationState.replay hash <$> verifyDelegationCircuit recordedTranscript parameters
        reference state := by
  have absorbed : ∀ slices slice, Verifier.replay hash (recordedTranscript.absorb slices slice) =
      hash.absorb (Verifier.replay hash slices) slice := replay_snoc hash
  simp [verifyDelegationCircuit, DelegationState.replay, absorbed]

theorem verifyDelegationCircuits_replay (parameters : DelegationCircuitVerifier)
    (reference : MainProofOutput) (remaining : ℕ) (state : DelegationState recordedTranscript) :
    verifyDelegationCircuits hash parameters reference remaining (state.replay hash) =
      DelegationState.replay hash <$> verifyDelegationCircuits recordedTranscript parameters
        reference remaining state := by
  induction remaining generalizing state with
  | zero => rfl
  | succ remaining ih =>
    simp [verifyDelegationCircuits, verifyDelegationCircuit_replay, ih]

end

def consecutive {α : Type} (program : VerifierM α) : ℕ → VerifierM (List α)
  | 0 => pure []
  | count + 1 => do
      let value ← program
      let values ← consecutive program count
      pure (value :: values)

/-- The proofs of every delegation type, in the order in which the verifier asks for them. -/
def delegationProofs :
    List DelegationCircuitVerifier → VerifierM (List (Word × List DelegationProofOutput))
  | [] => pure []
  | parameters :: rest => do
      let numCircuits ← readWord
      let outputs ← consecutive parameters.verificationFunction numCircuits.toNat
      let others ← delegationProofs rest
      pure ((parameters.delegationType, outputs) :: others)

structure StatementProofs where
  registers : List Word
  main : List MainCircuitProof
  delegations : List (Word × List DelegationProofOutput)

/-- The contents of a stream, as the verifiers of single circuits read them. -/
def statementProofs (mainVerifier : MainCircuitVerifier)
    (delegationVerifiers : List DelegationCircuitVerifier) : VerifierM StatementProofs := do
  let registers ← readWords (32 * 3)
  let numCircuits ← readWord
  let main ← mainCircuitProofs mainVerifier numCircuits.toNat
  let delegations ← delegationProofs delegationVerifiers
  pure ⟨registers, main, delegations⟩

/-- The setup in front of the first chunk, and the memory of every chunk. -/
def mainSlices : ℕ → List MainCircuitProof → List (List Word)
  | _, [] => []
  | 0, proof :: proofs =>
    flattenCaps proof.1.setupCaps :: flattenCaps proof.1.memoryCaps :: mainSlices 1 proofs
  | circuitSequence + 1, proof :: proofs =>
    flattenCaps proof.1.memoryCaps :: mainSlices (circuitSequence + 2) proofs

def outputSlices (circuits : Word × List DelegationProofOutput) : List (List Word) :=
  if circuits.2 = [] then []
  else delegationHeader circuits.1 :: circuits.2.map fun output => flattenCaps output.memoryCaps

def MainState.slices (state : MainState recordedTranscript) : List (List Word) := state.transcript

def DelegationState.slices (state : DelegationState recordedTranscript) : List (List Word) :=
  state.transcript

/-- The header of a delegation type, unless it has no circuits. -/
def headerSlices (delegationType numCircuits : Word) : List (List Word) :=
  if numCircuits > 0 then [delegationHeader delegationType] else []

/-- The state in front of the circuits of a delegation type. -/
def DelegationState.started (hash : TranscriptImplementation) (delegationType numCircuits : Word)
    (state : DelegationState hash) : DelegationState hash :=
  { state with
    transcript := if numCircuits > 0 then
      hash.absorb state.transcript (delegationHeader delegationType) else state.transcript }

theorem verifyDelegations_cons (reference : MainProofOutput)
    (parameters : DelegationCircuitVerifier) (verifiers : List DelegationCircuitVerifier)
    (previous : Word) (state : DelegationState hash) :
    verifyDelegations hash reference (parameters :: verifiers) previous state = (do
      check (decide (previous < parameters.delegationType))
      let numCircuits ← readWord
      let next ← verifyDelegationCircuits hash parameters reference numCircuits.toNat
        (state.started hash parameters.delegationType numCircuits)
      check (hash.getCurrentBufferOffset next.transcript == 16)
      verifyDelegations hash reference verifiers parameters.delegationType next) := rfl

theorem DelegationState.started_slices (delegationType numCircuits : Word)
    (state : DelegationState recordedTranscript) :
    (state.started recordedTranscript delegationType numCircuits).slices =
      state.slices ++ headerSlices delegationType numCircuits := by
  unfold started headerSlices slices
  split_ifs <;> simp [recordedTranscript]

theorem DelegationState.started_replay
    (delegationType numCircuits : Word) (state : DelegationState recordedTranscript) :
    (state.replay hash).started hash delegationType numCircuits =
      (state.started recordedTranscript delegationType numCircuits).replay hash := by
  have absorbed : ∀ slices slice, Verifier.replay hash (recordedTranscript.absorb slices slice) =
      hash.absorb (Verifier.replay hash slices) slice := replay_snoc hash
  unfold started DelegationState.replay
  split_ifs <;> simp [absorbed]

theorem outputSlices_eq {delegationType numCircuits : Word} {outputs : List DelegationProofOutput}
    (length : outputs.length = numCircuits.toNat) :
    outputSlices (delegationType, outputs) = headerSlices delegationType numCircuits ++
      outputs.map fun output => flattenCaps output.memoryCaps := by
  have positive : numCircuits > 0 ↔ 0 < outputs.length := by
    rw [gt_iff_lt, lt_def, length]
    rfl
  unfold outputSlices headerSlices
  simp only [positive]
  cases outputs <;> simp

section

variable {source rest : Source}

theorem verifyMainCircuit_slices {verifier : MainCircuitVerifier} {circuitSequence : ℕ}
    {state next : MainState recordedTranscript}
    (succeeded : (verifyMainCircuit recordedTranscript verifier circuitSequence state).run source =
      some (next, rest)) :
    ∃ proof : MainCircuitProof, verifier.run source = some (proof, rest) ∧
      next.slices = state.slices ++ mainSlices circuitSequence [proof] := by
  rcases verifyMainCircuit_eq_some succeeded with ⟨proof, called, -, -, -, -, pc, rfl⟩
  refine ⟨proof, called, ?_⟩
  cases circuitSequence with
  | zero => simp [MainState.slices, MainState.advance, recordedTranscript, mainSlices]
  | succ circuitSequence =>
    simp [MainState.slices, MainState.advance, recordedTranscript, mainSlices]

theorem mainSlices_cons (circuitSequence : ℕ) (proof : MainCircuitProof)
    (proofs : List MainCircuitProof) :
    mainSlices circuitSequence (proof :: proofs) =
      mainSlices circuitSequence [proof] ++ mainSlices (circuitSequence + 1) proofs := by
  cases circuitSequence <;> rfl

theorem verifyMainCircuits_slices {verifier : MainCircuitVerifier}
    {remaining circuitSequence : ℕ} {state final : MainState recordedTranscript}
    (succeeded : (verifyMainCircuits recordedTranscript verifier remaining circuitSequence
      state).run source = some (final, rest)) :
    ∃ proofs, (mainCircuitProofs verifier remaining).run source = some (proofs, rest) ∧
      final.slices = state.slices ++ mainSlices circuitSequence proofs := by
  induction remaining generalizing circuitSequence state source with
  | zero =>
    cases succeeded
    exact ⟨[], rfl, by simp [mainSlices]⟩
  | succ remaining ih =>
    rcases bind_eq_some succeeded with ⟨next, middle, verified, continued⟩
    rcases verifyMainCircuit_slices verified with ⟨proof, called, absorbed⟩
    rcases ih continued with ⟨proofs, calls, others⟩
    refine ⟨proof :: proofs, ?_, ?_⟩
    · simp only [mainCircuitProofs, StateT.run_bind, called, Option.bind_eq_bind,
        Option.bind_some, calls, StateT.run_pure]
      rfl
    · rw [others, absorbed, List.append_assoc, ← mainSlices_cons]

variable {state : DelegationState recordedTranscript} {parameters : DelegationCircuitVerifier}
  {reference : MainProofOutput} {final : DelegationState recordedTranscript}

theorem verifyDelegationCircuit_slices {next : DelegationState recordedTranscript}
    (succeeded : (verifyDelegationCircuit recordedTranscript parameters reference state).run
      source = some (next, rest)) :
    ∃ output, parameters.verificationFunction.run source = some (output, rest) ∧
      next.slices = state.slices ++ [flattenCaps output.memoryCaps] := by
  unfold verifyDelegationCircuit at succeeded
  rcases bind_eq_some succeeded with ⟨output, _, verified, afterVerifier⟩
  rcases check_bind_eq_some afterVerifier with ⟨-, afterSequence⟩
  rcases check_bind_eq_some afterSequence with ⟨-, afterType⟩
  rcases check_bind_eq_some afterType with ⟨-, afterSetup⟩
  rcases check_bind_eq_some afterSetup with ⟨-, afterMemory⟩
  rcases check_bind_eq_some afterMemory with ⟨-, advanced⟩
  cases advanced
  exact ⟨output, verified, rfl⟩

theorem verifyDelegationCircuits_slices {remaining : ℕ}
    (succeeded : (verifyDelegationCircuits recordedTranscript parameters reference remaining
      state).run source = some (final, rest)) :
    ∃ outputs, (consecutive parameters.verificationFunction remaining).run source =
        some (outputs, rest) ∧ outputs.length = remaining ∧
      final.slices = state.slices ++ outputs.map fun output => flattenCaps output.memoryCaps := by
  induction remaining generalizing state source with
  | zero =>
    cases succeeded
    exact ⟨[], rfl, rfl, by simp⟩
  | succ remaining ih =>
    rcases bind_eq_some succeeded with ⟨next, middle, verified, continued⟩
    rcases verifyDelegationCircuit_slices verified with ⟨output, called, absorbed⟩
    rcases ih continued with ⟨outputs, calls, length, others⟩
    refine ⟨output :: outputs, ?_, by rw [length_cons, length], ?_⟩
    · simp only [consecutive, StateT.run_bind, called, Option.bind_eq_bind, Option.bind_some,
        calls, StateT.run_pure]
      rfl
    · rw [others, absorbed, List.append_assoc]
      rfl

theorem verifyDelegations_slices {verifiers : List DelegationCircuitVerifier} {previous : Word}
    (succeeded : (verifyDelegations recordedTranscript reference verifiers previous state).run
      source = some (final, rest)) :
    ∃ delegations, (delegationProofs verifiers).run source = some (delegations, rest) ∧
      (previous :: verifiers.map DelegationCircuitVerifier.delegationType).IsChain (· < ·) ∧
      final.slices = state.slices ++ delegations.flatMap outputSlices := by
  induction verifiers generalizing previous state source with
  | nil =>
    cases succeeded
    exact ⟨[], rfl, List.IsChain.singleton _, by simp⟩
  | cons parameters verifiers ih =>
    rw [verifyDelegations_cons] at succeeded
    rcases check_bind_eq_some succeeded with ⟨increasing, afterType⟩
    rcases bind_eq_some afterType with ⟨numCircuits, afterNumber, numberRead, afterRead⟩
    rcases bind_eq_some afterRead with ⟨next, middle, verified, afterCircuits⟩
    rcases check_bind_eq_some afterCircuits with ⟨-, continued⟩
    rcases verifyDelegationCircuits_slices verified with ⟨outputs, calls, length, absorbed⟩
    rcases ih continued with ⟨delegations, others, chain, absorbedOthers⟩
    refine ⟨(parameters.delegationType, outputs) :: delegations, ?_, ?_, ?_⟩
    · simp only [delegationProofs, StateT.run_bind, numberRead, Option.bind_eq_bind,
        Option.bind_some, calls, others, StateT.run_pure]
      rfl
    · exact List.IsChain.cons_cons (of_decide_eq_true increasing) chain
    · rw [absorbedOthers, absorbed, DelegationState.started_slices, flatMap_cons,
        outputSlices_eq length]
      simp only [List.append_assoc]

end

theorem flattenCaps_length : (flattenCaps caps).length = 1024 := by
  have cap : ∀ cap : MerkleTreeCap, (cap.toList.flatMap Vector.toList).length = 512 := by
    intro cap
    simp [length_flatMap]
  simp [flattenCaps, length_flatMap, cap]

theorem flattenCaps_blocks : Blocks (flattenCaps caps) := by
  have length := flattenCaps_length caps
  refine ⟨?_, by rw [length]⟩
  intro empty
  rw [empty] at length
  contradiction

theorem mainSlices_blocks (circuitSequence : ℕ) (proofs : List MainCircuitProof) :
    ∀ slice ∈ mainSlices circuitSequence proofs, Blocks slice := by
  induction proofs generalizing circuitSequence with
  | nil => simp [mainSlices]
  | cons proof proofs ih =>
    intro slice member
    rw [mainSlices_cons] at member
    rcases mem_append.mp member with now | later
    · cases circuitSequence with
      | zero =>
        simp only [mainSlices, mem_cons, not_mem_nil, or_false] at now
        rcases now with rfl | rfl
        · exact flattenCaps_blocks _
        · exact flattenCaps_blocks _
      | succ circuitSequence =>
        rw [mem_singleton.mp now]
        exact flattenCaps_blocks _
    · exact ih _ slice later

theorem outputSlices_blocks (circuits : Word × List DelegationProofOutput) :
    ∀ slice ∈ outputSlices circuits, Blocks slice := by
  intro slice member
  unfold outputSlices at member
  split_ifs at member with none
  · simp at member
  · rcases mem_cons.mp member with rfl | isOutput
    · exact ⟨by simp [delegationHeader], by simp [delegationHeader]⟩
    · rcases mem_map.mp isOutput with ⟨output, -, rfl⟩
      exact flattenCaps_blocks _

theorem bind_congr_of_results {α β : Type} {program : VerifierM α} {next other : α → VerifierM β}
    (agree : ∀ source value rest, program.run source = some (value, rest) →
      next value = other value) : program >>= next = program >>= other := by
  funext source
  change (program >>= next).run source = (program >>= other).run source
  cases called : program.run source with
  | none => simp [StateT.run_bind, called]
  | some result =>
    rw [run_bind_of_some called, run_bind_of_some called, agree source result.1 result.2 called]

/-- The slices so far are whole blocks. -/
def AllBlocks (slices : List (List Word)) : Prop := slices ≠ [] ∧ ∀ slice ∈ slices, Blocks slice

theorem AllBlocks.append {slices more : List (List Word)} (blocks : AllBlocks slices)
    (moreBlocks : ∀ slice ∈ more, Blocks slice) : AllBlocks (slices ++ more) := by
  refine ⟨by simp [blocks.1], ?_⟩
  intro slice member
  rcases mem_append.mp member with before | now
  · exact blocks.2 slice before
  · exact moreBlocks slice now

theorem verifyDelegations_replay {hash : TranscriptImplementation} (keeps : KeepsBlocks hash)
    (reference : MainProofOutput) (verifiers : List DelegationCircuitVerifier) (previous : Word)
    {state : DelegationState recordedTranscript} (blocks : AllBlocks state.slices) :
    verifyDelegations hash reference verifiers previous (state.replay hash) =
      DelegationState.replay hash <$> verifyDelegations recordedTranscript reference verifiers
        previous state := by
  induction verifiers generalizing previous state with
  | nil => rfl
  | cons parameters verifiers ih =>
    rw [verifyDelegations_cons, verifyDelegations_cons]
    simp only [map_bind, DelegationState.started_replay, verifyDelegationCircuits_replay,
      bind_map_left]
    apply bind_congr
    intro _
    apply bind_congr
    intro numCircuits
    apply bind_congr_of_results
    intro source next rest verified
    rcases verifyDelegationCircuits_slices verified with ⟨outputs, -, length, absorbed⟩
    have nextBlocks : AllBlocks next.slices := by
      rw [absorbed, DelegationState.started_slices, List.append_assoc, ← outputSlices_eq length]
      exact blocks.append (outputSlices_blocks _)
    have offset : hash.getCurrentBufferOffset (next.replay hash).transcript = 16 :=
      keeps _ nextBlocks.1 nextBlocks.2
    rw [offset, ih parameters.delegationType nextBlocks]
    rfl

theorem registers_blocks {registers : List Word} (length : registers.length = 32 * 3) :
    AllBlocks [registers] := by
  refine ⟨by simp, ?_⟩
  intro slice member
  rw [mem_singleton.mp member]
  refine ⟨?_, by rw [length]⟩
  intro empty
  rw [empty] at length
  contradiction

theorem readStatement_replay {hash : TranscriptImplementation} (keeps : KeepsBlocks hash)
    (baseLayer : Bool) (mainVerifier : MainCircuitVerifier)
    (delegationVerifiers : List DelegationCircuitVerifier) :
    readStatement hash baseLayer mainVerifier delegationVerifiers =
      ReadStatement.replay hash <$> readStatement recordedTranscript baseLayer mainVerifier
        delegationVerifiers := by
  let start : List Word → MainState recordedTranscript := fun registers =>
    { transcript := [registers]
      expectedInputPc := 0
      memoryGrandProductAccumulator := 1
      delegationSetAccumulator := 0
      proofOutput0 := none
      proofOutput1 := none }
  simp only [readStatement, map_bind]
  apply bind_congr_of_results
  intro source registers rest registersRead
  have length := (readWords_eq_some registersRead).1
  apply bind_congr
  intro _
  apply bind_congr
  intro numCircuits
  apply bind_congr
  intro _
  apply bind_congr
  intro _
  have mainReplay := verifyMainCircuits_replay hash mainVerifier numCircuits.toNat 0
    (start registers)
  change (verifyMainCircuits hash mainVerifier numCircuits.toNat 0
    ((start registers).replay hash) >>= _) = (verifyMainCircuits recordedTranscript mainVerifier
      numCircuits.toNat 0 (start registers) >>= _)
  rw [mainReplay, bind_map_left]
  apply bind_congr_of_results
  intro _ mainState _ verified
  rcases verifyMainCircuits_slices verified with ⟨proofs, -, absorbed⟩
  have blocks : AllBlocks mainState.slices := by
    rw [absorbed]
    exact (registers_blocks length).append (mainSlices_blocks 0 proofs)
  have offset : hash.getCurrentBufferOffset (mainState.replay hash).transcript = 16 :=
    keeps _ blocks.1 blocks.2
  rw [offset]
  apply bind_congr
  intro _
  apply bind_congr
  intro proofOutput0
  have delegationReplay := verifyDelegations_replay keeps proofOutput0 delegationVerifiers 0
    (show AllBlocks (DelegationState.slices ⟨mainState.transcript,
      mainState.memoryGrandProductAccumulator, mainState.delegationSetAccumulator, 0⟩) from blocks)
  change (verifyDelegations hash proofOutput0 delegationVerifiers 0 (DelegationState.replay hash
    ⟨mainState.transcript, mainState.memoryGrandProductAccumulator,
      mainState.delegationSetAccumulator, 0⟩) >>= _) = _
  rw [delegationReplay, bind_map_left]
  rfl

section

variable {Circuit : Type} {slices : Word × List Circuit → List (List Word)}

def circuitsOf (delegations : List (Word × List Circuit)) (delegationType : Word) : List Circuit :=
  (delegations.lookup delegationType).getD []

variable {delegations : List (Word × List Circuit)}
  (sorted : delegations.Pairwise fun first second => first.1 < second.1)

include sorted

theorem mem_iff_circuitsOf {delegationType : Word} {circuits : List Circuit}
    (some : circuits ≠ []) :
    (delegationType, circuits) ∈ delegations ↔
      circuitsOf delegations delegationType = circuits := by
  induction delegations with
  | nil => simp [circuitsOf, some.symm]
  | cons entry delegations ih =>
    rcases entry with ⟨first, held⟩
    have later := (pairwise_cons.mp sorted).1
    by_cases same : delegationType = first
    · subst same
      have absent : (delegationType, circuits) ∉ delegations :=
        fun member => BitVec.lt_irrefl delegationType (later _ member)
      simp [circuitsOf, absent, eq_comm]
    · simp [ih (pairwise_cons.mp sorted).2, circuitsOf, lookup_cons, beq_false_of_ne same, same]

theorem flatMap_circuitsOf (skips : ∀ delegationType, slices (delegationType, []) = [])
    {types : List Word} (typesSorted : types.Pairwise (· < ·))
    (known : ∀ circuits ∈ delegations, circuits.2 ≠ [] → circuits.1 ∈ types) :
    types.flatMap (fun delegationType => slices (delegationType, circuitsOf delegations
      delegationType)) = delegations.flatMap slices := by
  have skipped : ∀ entries : List (Word × List Circuit),
      (entries.filter (!·.2.isEmpty)).flatMap slices = entries.flatMap slices := by
    intro entries
    induction entries with
    | nil => rfl
    | cons entry entries ih => rcases entry with ⟨delegationType, _ | _⟩ <;> simp [skips, ih]
  have distinct : ∀ {entries : List (Word × List Circuit)},
      (entries.Pairwise fun first second => first.1 < second.1) → entries.Nodup := by
    intro entries inOrder
    apply inOrder.imp
    intro first second before same
    exact BitVec.lt_irrefl _ (same ▸ before)
  have calledSorted : (types.map fun delegationType => (delegationType, circuitsOf delegations
      delegationType)).Pairwise fun first second => first.1 < second.1 :=
    pairwise_map.mpr typesSorted
  have perm : (types.map fun delegationType => (delegationType, circuitsOf delegations
      delegationType)).filter (!·.2.isEmpty) ~ delegations.filter (!·.2.isEmpty) := by
    apply (perm_ext_iff_of_nodup ((distinct calledSorted).filter _)
      ((distinct sorted).filter _)).mpr
    intro ⟨delegationType, circuits⟩
    cases circuits with
    | nil => simp
    | cons circuit circuits =>
      have found : _ ↔ circuitsOf delegations delegationType = _ :=
        mem_iff_circuitsOf sorted (cons_ne_nil circuit circuits)
      have asked := known (delegationType, circuit :: circuits)
      simpa [found] using asked
  have same := perm.eq_of_pairwise
    (fun _ _ _ _ before after => absurd before (BitVec.lt_asymm after))
    (calledSorted.filter _) (sorted.filter _)
  rw [← skipped delegations, ← same, skipped, flatMap_map]

end

/-- What the prover commits to, with caps of the size that proofs have. -/
structure MemoryCommitments where
  setupCaps : MerkleTreeCaps
  finalRegisterValues : Vector FinalRegisterValue 32
  main : List MerkleTreeCaps
  delegations : List (Word × List MerkleTreeCaps)
  sorted : delegations.IsChain fun first second => first.1 < second.1

def varLength (caps : MerkleTreeCaps) : List MerkleTreeCapVarLength :=
  caps.toList.map Vector.toList

def MemoryCommitments.seed (commitments : MemoryCommitments) : Option Seed :=
  fsTransformForMemoryAndDelegationArguments (varLength commitments.setupCaps)
    commitments.finalRegisterValues.toList (commitments.main.map varLength)
    (commitments.delegations.map fun circuits => (circuits.1, circuits.2.map varLength))

/-- The stream holds the registers and proofs for these commitments, and the verifier asks for all
types that have circuits. -/
structure Corresponds (verifiers : List DelegationCircuitVerifier)
    (commitments : MemoryCommitments) (proofs : StatementProofs) : Prop where
  registers : proofs.registers =
    registerValuesAndTimestamps commitments.finalRegisterValues.toList
  setup : ∀ proof ∈ proofs.main.head?, proof.1.setupCaps = commitments.setupCaps
  main : proofs.main.map (fun proof => proof.1.memoryCaps) = commitments.main
  delegations : ∀ circuits ∈ proofs.delegations,
    circuits.2.map (fun output => output.memoryCaps) =
      circuitsOf commitments.delegations circuits.1
  known : ∀ circuits ∈ commitments.delegations, circuits.2 ≠ [] →
    circuits.1 ∈ verifiers.map DelegationCircuitVerifier.delegationType

theorem flattenMerkleCaps_varLength : flattenMerkleCaps (varLength caps) = flattenCaps caps := by
  rw [flattenMerkleCaps, varLength, flatMap_map]
  rfl

def capsSlices (circuits : Word × List MerkleTreeCaps) : List (List Word) :=
  if circuits.2 = [] then [] else delegationHeader circuits.1 :: circuits.2.map flattenCaps

def MemoryCommitments.slices (commitments : MemoryCommitments) : List (List Word) :=
  statementSlices (registerValuesAndTimestamps commitments.finalRegisterValues.toList)
    (flattenCaps commitments.setupCaps) (commitments.main.map flattenCaps)
    (commitments.delegations.flatMap capsSlices)

theorem registerValuesAndTimestamps_length (registers : List FinalRegisterValue) :
    (registerValuesAndTimestamps registers).length = 3 * registers.length := by
  induction registers with
  | nil => rfl
  | cons register registers ih =>
    have split : registerValuesAndTimestamps (register :: registers) =
        register.value :: (splitTimestamp register.lastAccessTimestamp).1 ::
          (splitTimestamp register.lastAccessTimestamp).2 ::
            registerValuesAndTimestamps registers := rfl
    rw [split]
    simp only [length_cons, ih]
    omega

theorem MemoryCommitments.seed_eq (commitments : MemoryCommitments) :
    commitments.seed = some (absorbAll commitments.slices).finalize := by
  have capsBlocks : ∀ caps : MerkleTreeCaps, Blocks (flattenMerkleCaps (varLength caps)) := by
    intro caps
    rw [flattenMerkleCaps_varLength]
    exact flattenCaps_blocks caps
  have registerBlocks : Blocks
      (registerValuesAndTimestamps commitments.finalRegisterValues.toList) := by
    have length := registerValuesAndTimestamps_length commitments.finalRegisterValues.toList
    rw [Vector.length_toList] at length
    exact (registers_blocks length).2 _ (by simp)
  have sorted : (commitments.delegations.map fun circuits =>
      (circuits.1, circuits.2.map varLength)).IsChain
        fun first second => first.1 < second.1 := by
    rw [isChain_map]
    exact commitments.sorted
  rw [seed, fsTransform_eq registerBlocks (capsBlocks _) ?_ ?_ sorted]
  · have delegationSlices_eq : (commitments.delegations.map fun circuits =>
        (circuits.1, circuits.2.map varLength)).flatMap delegationSlices =
        commitments.delegations.flatMap capsSlices := by
      rw [flatMap_map]
      apply flatMap_congr
      intro circuits _
      simp [delegationSlices, capsSlices, Function.comp_def, flattenMerkleCaps_varLength]
    rw [delegationSlices_eq, flattenMerkleCaps_varLength, map_map]
    simp only [Function.comp_def, flattenMerkleCaps_varLength]
    rfl
  · intro caps member
    rcases mem_map.mp member with ⟨fixed, -, rfl⟩
    exact capsBlocks fixed
  · intro circuits member caps isCaps
    rcases mem_map.mp member with ⟨fixed, -, rfl⟩
    rcases mem_map.mp isCaps with ⟨fixedCaps, -, rfl⟩
    exact capsBlocks fixedCaps

section

variable {source rest after : Source} {mainVerifier : MainCircuitVerifier}
  {delegationVerifiers : List DelegationCircuitVerifier} {commitments : MemoryCommitments}
  {proofs : StatementProofs} {baseLayer : Bool} {statement : ReadStatement recordedTranscript}

theorem delegationProofs_types {verifiers : List DelegationCircuitVerifier}
    {delegations : List (Word × List DelegationProofOutput)}
    (succeeded : (delegationProofs verifiers).run source = some (delegations, rest)) :
    delegations.map Prod.fst = verifiers.map DelegationCircuitVerifier.delegationType := by
  induction verifiers generalizing source delegations with
  | nil =>
    cases succeeded
    rfl
  | cons parameters verifiers ih =>
    rcases bind_eq_some succeeded with ⟨numCircuits, _, _, afterNumber⟩
    rcases bind_eq_some afterNumber with ⟨outputs, _, _, afterOutputs⟩
    rcases bind_eq_some afterOutputs with ⟨others, _, othersRead, advanced⟩
    cases advanced
    rw [map_cons, map_cons, ih othersRead]

theorem mainSlices_succ (circuitSequence : ℕ) (main : List MainCircuitProof) :
    mainSlices (circuitSequence + 1) main =
      (main.map fun proof => proof.1.memoryCaps).map flattenCaps := by
  induction main generalizing circuitSequence with
  | nil => rfl
  | cons proof main ih =>
    rw [mainSlices, ih]
    rfl

theorem Corresponds.mainSlices (corresponds : Corresponds delegationVerifiers commitments proofs)
    (some : proofs.main ≠ []) :
    mainSlices 0 proofs.main =
      flattenCaps commitments.setupCaps :: commitments.main.map flattenCaps := by
  have isMain := corresponds.main
  have isSetup := corresponds.setup
  cases isProofs : proofs.main with
  | nil => contradiction
  | cons proof main =>
    rw [isProofs] at isMain isSetup
    rw [← isMain, ← isSetup proof rfl]
    change _ :: _ :: Verifier.mainSlices (0 + 1) main = _
    rw [mainSlices_succ]
    rfl

theorem Corresponds.delegationSlices
    (corresponds : Corresponds delegationVerifiers commitments proofs)
    (types : proofs.delegations.map Prod.fst =
      delegationVerifiers.map DelegationCircuitVerifier.delegationType)
    (typesSorted : (delegationVerifiers.map DelegationCircuitVerifier.delegationType).IsChain
      (· < ·)) :
    proofs.delegations.flatMap outputSlices = commitments.delegations.flatMap capsSlices := by
  have byType : proofs.delegations.flatMap outputSlices =
      (proofs.delegations.map Prod.fst).flatMap fun delegationType =>
        capsSlices (delegationType, circuitsOf commitments.delegations delegationType) := by
    rw [flatMap_map]
    apply flatMap_congr
    intro circuits member
    rw [← corresponds.delegations circuits member]
    simp [outputSlices, capsSlices, Function.comp_def]
  have transitive : Trans (· < · : Word → Word → Prop) (· < ·) (· < ·) := ⟨BitVec.lt_trans⟩
  let before : Word × List MerkleTreeCaps → Word × List MerkleTreeCaps → Prop :=
    fun first second => first.1 < second.1
  have entriesTransitive : Trans before before before := ⟨BitVec.lt_trans⟩
  have sorted : commitments.delegations.Pairwise before :=
    isChain_iff_pairwise.mp commitments.sorted
  rw [byType, types]
  exact flatMap_circuitsOf sorted (fun _ => rfl) (isChain_iff_pairwise.mp typesSorted)
    corresponds.known

theorem readStatement_slices
    (read : (statementProofs mainVerifier delegationVerifiers).run source = some (proofs, rest))
    (corresponds : Corresponds delegationVerifiers commitments proofs)
    (succeeded : (readStatement recordedTranscript baseLayer mainVerifier
      delegationVerifiers).run source = some (statement, after)) :
    statement.final.slices = commitments.slices := by
  unfold readStatement at succeeded
  unfold statementProofs at read
  rcases bind_eq_some succeeded with ⟨registers, afterRegisters, registersRead, checked⟩
  rcases check_bind_eq_some checked with ⟨-, afterZero⟩
  rcases bind_eq_some afterZero with ⟨numCircuits, afterNumber, numberRead, afterCount⟩
  rcases check_bind_eq_some afterCount with ⟨positive, afterPositive⟩
  rcases check_bind_eq_some afterPositive with ⟨-, afterBound⟩
  rcases bind_eq_some afterBound with ⟨mainState, afterMain, mainVerified, afterLoop⟩
  rcases check_bind_eq_some afterLoop with ⟨-, afterOffset⟩
  rcases lift_bind_eq_some afterOffset with ⟨proofOutput0, -, afterOutput⟩
  rcases bind_eq_some afterOutput with ⟨final, afterDelegations, delegationsVerified, afterFinal⟩
  rcases check_bind_eq_some afterFinal with ⟨-, returned⟩
  cases returned
  rcases verifyMainCircuits_slices mainVerified with ⟨main, mainRead, mainAbsorbed⟩
  rcases verifyDelegations_slices delegationsVerified with
    ⟨delegations, delegationsRead, typesSorted, delegationsAbsorbed⟩
  rw [run_bind_of_some registersRead, run_bind_of_some numberRead, run_bind_of_some mainRead,
    run_bind_of_some delegationsRead] at read
  cases read
  have some : main ≠ [] := by
    intro empty
    rcases verifyMainCircuits_eq_some mainVerified with ⟨same, sameRead, length, -⟩
    rw [mainRead, empty] at sameRead
    cases sameRead
    rw [← length] at positive
    simp at positive
  have mainSlices := corresponds.mainSlices some
  have delegationSlices := corresponds.delegationSlices (delegationProofs_types delegationsRead)
    (isChain_cons.mp typesSorted).2
  have isRegisters := corresponds.registers
  dsimp only at mainSlices delegationSlices isRegisters
  change final.slices = _
  rw [delegationsAbsorbed, delegationSlices]
  change mainState.slices ++ _ = _
  rw [mainAbsorbed, mainSlices]
  change ([registers] ++ _) ++ _ = _
  rw [isRegisters]
  rfl

/-- The verifier draws the challenges of the prover from a stream of proofs for its commitments,
unless a check of the proofs themselves fails. -/
theorem prover_and_verifier_challenges_agree (commitments : MemoryCommitments) (baseLayer : Bool)
    (mainVerifier : MainCircuitVerifier) (delegationVerifiers : List DelegationCircuitVerifier)
    (source rest : Source) (proofs : StatementProofs)
    (read : (statementProofs mainVerifier delegationVerifiers).run source = some (proofs, rest))
    (corresponds : Corresponds delegationVerifiers commitments proofs) :
    ∃ seed, commitments.seed = some seed ∧
      ((readStatement blake2s baseLayer mainVerifier delegationVerifiers).run source).map
          (fun result => result.1.expectedChallenges) =
        ((readStatement constantTranscript baseLayer mainVerifier delegationVerifiers).run
          source).map fun _ => drawFromTranscriptSeed blake2s seed := by
  refine ⟨_, commitments.seed_eq, ?_⟩
  rw [readStatement_replay blake2s_keepsBlocks, readStatement_replay constantTranscript_keepsBlocks,
    StateT.run_map, StateT.run_map]
  cases succeeded : (readStatement recordedTranscript baseLayer mainVerifier
      delegationVerifiers).run source with
  | none => rfl
  | some result =>
    have slices := readStatement_slices read corresponds succeeded
    change some (drawFromTranscriptSeed blake2s
      (absorbAll result.1.final.slices).finalizeReset.1) = some _
    rw [slices, Blake2sBufferingTranscript.finalizeReset_fst]

def sampleCaps (value : Word) : MerkleTreeCaps :=
  Vector.replicate 2 (Vector.replicate 64 (Vector.replicate 8 value))

def sampleDelegationOutput (value : Word) : DelegationProofOutput where
  setupCaps := sampleCaps 0
  memoryCaps := sampleCaps value
  memoryChallenges := ⟨Vector.replicate 6 0, 0⟩
  delegationChallenges := ⟨Vector.replicate 3 0, 0⟩
  lazyInitBoundaryValues := ()
  memoryGrandProductAccumulator := 1
  delegationArgumentAccumulator := 0
  circuitSequence := 0
  delegationType := 1991

/-- A circuit whose proof is one word, the value of its memory caps. -/
def sampleDelegationVerifier : DelegationCircuitVerifier where
  delegationType := 1991
  delegationRequestsPerCircuit := 10
  setupCaps := sampleCaps 0
  verificationFunction := sampleDelegationOutput <$> readWord

/-- Two chunks and one delegation circuit; the second delegation type has none. -/
def sampleCommitments : MemoryCommitments where
  setupCaps := sampleCaps 0
  finalRegisterValues := Vector.replicate 32 ⟨0, 0⟩
  main := [sampleCaps 0, sampleCaps 0]
  delegations := [(1991, [sampleCaps 5]), (1994, [])]
  sorted := by decide

def sampleStream : Source := List.replicate 96 0 ++ [2, 0, 1, 1, 5]

def sampleStatementProofs : StatementProofs where
  registers := List.replicate 96 0
  main := [sampleProof 0, sampleProof 1]
  delegations := [(1991, [sampleDelegationOutput 5])]

set_option maxRecDepth 4000 in
theorem sampleStream_proofs :
    (statementProofs sampleVerifier [sampleDelegationVerifier]).run sampleStream =
      some (sampleStatementProofs, []) := rfl

theorem sampleStream_corresponds :
    Corresponds [sampleDelegationVerifier] sampleCommitments sampleStatementProofs where
  registers := by decide +kernel
  setup := by
    intro proof isFirst
    cases isFirst
    rfl
  main := rfl
  delegations := by
    intro circuits member
    rw [mem_singleton.mp member]
    rfl
  known := by
    intro circuits member some
    rcases mem_cons.mp member with rfl | other
    · decide
    · rw [mem_singleton.mp other] at some
      contradiction

theorem sampleStream_checked : ((readStatement constantTranscript true sampleVerifier
    [sampleDelegationVerifier]).run sampleStream).isSome = true := by
  decide +kernel

theorem sample_challenges_agree :
    ∃ seed, sampleCommitments.seed = some seed ∧
      ((readStatement blake2s true sampleVerifier [sampleDelegationVerifier]).run
        sampleStream).map (fun result => result.1.expectedChallenges) =
          some (drawFromTranscriptSeed blake2s seed) := by
  rcases prover_and_verifier_challenges_agree sampleCommitments true sampleVerifier
    [sampleDelegationVerifier] sampleStream [] sampleStatementProofs sampleStream_proofs
    sampleStream_corresponds with ⟨seed, isSeed, agree⟩
  refine ⟨seed, isSeed, ?_⟩
  rcases Option.isSome_iff_exists.mp sampleStream_checked with ⟨result, checked⟩
  rw [agree, checked]
  rfl

end

end Airbender.Verifier

import Airbender.Field.Extension
import Airbender.Transcript.Buffering
import Airbender.Verifier.Source

/-!
# The full-statement verifier

`verify_full_statement` checks main-circuit chunks, the delegation circuits they requested, and what
connects them. Proofs come from a stream; a failed assertion or the end of the stream makes the run
return nothing. The verifiers of single circuits and the hash are parameters.
-/

namespace Airbender.Verifier

open Blake2s Transcript Mersenne31Field

def parseFieldElsAsU32FromU16LimbsChecked (limbs : Mersenne31Field × Mersenne31Field) :
    Option Word :=
  let low := toReducedU32 limbs.1
  let high := toReducedU32 limbs.2
  if low &&& 0xffff0000#32 = 0#32 ∧ high &&& 0xffff0000#32 = 0#32 then
    some (low ||| high <<< 16)
  else none

abbrev MerkleTreeCap := Vector (Vector Word 8) 64

abbrev MerkleTreeCaps := Vector MerkleTreeCap 2

def flattenCaps (caps : MerkleTreeCaps) : List Word :=
  caps.toList.flatMap fun cap => cap.toList.flatMap Vector.toList

structure ExternalMemoryArgumentChallenges where
  memoryArgumentLinearizationChallenges : Vector Mersenne31Quartic 6
  memoryArgumentGamma : Mersenne31Quartic
deriving DecidableEq

structure ExternalDelegationArgumentChallenges where
  delegationArgumentLinearizationChallenges : Vector Mersenne31Quartic 3
  delegationArgumentGamma : Mersenne31Quartic
deriving DecidableEq

structure ExternalChallenges where
  memoryArgument : ExternalMemoryArgumentChallenges
  delegationArgument : ExternalDelegationArgumentChallenges
deriving DecidableEq

section

variable (hash : TranscriptImplementation)

def challengeAt (words : List Word) (index : ℕ) : Mersenne31Quartic :=
  let coefficient := fun offset => ((words.getD (4 * index + offset) 0).toNat : Mersenne31Field)
  .fromCoeffsInBase (coefficient 0) (coefficient 1) (coefficient 2) (coefficient 3)

/-- `draw_from_transcript_seed` with delegation challenges: eleven quartic elements. -/
def drawFromTranscriptSeed (seed : Seed) : ExternalChallenges :=
  let words := hash.drawRandomness 6 seed
  { memoryArgument :=
      { memoryArgumentLinearizationChallenges := Vector.ofFn fun index => challengeAt words index
        memoryArgumentGamma := challengeAt words 6 }
    delegationArgument :=
      { delegationArgumentLinearizationChallenges :=
          Vector.ofFn fun index => challengeAt words (7 + index)
        delegationArgumentGamma := challengeAt words 10 } }

/-- Lazy-init and teardown columns of the first row and of the last row that is in use. -/
structure AuxArgumentsBoundaryValues where
  lazyInitFirstRow : Mersenne31Field × Mersenne31Field
  teardownValueFirstRow : Mersenne31Field × Mersenne31Field
  teardownTimestampFirstRow : Mersenne31Field × Mersenne31Field
  lazyInitOneBeforeLastRow : Mersenne31Field × Mersenne31Field
  teardownValueOneBeforeLastRow : Mersenne31Field × Mersenne31Field
  teardownTimestampOneBeforeLastRow : Mersenne31Field × Mersenne31Field

/-- What the verifier of one circuit hands over. Delegation circuits have no boundary values. -/
structure ProofOutput (Boundary : Type) where
  setupCaps : MerkleTreeCaps
  memoryCaps : MerkleTreeCaps
  memoryChallenges : ExternalMemoryArgumentChallenges
  delegationChallenges : ExternalDelegationArgumentChallenges
  lazyInitBoundaryValues : Boundary
  memoryGrandProductAccumulator : Mersenne31Quartic
  delegationArgumentAccumulator : Mersenne31Quartic
  circuitSequence : Word
  delegationType : Word

/-- The program counter before and after a chunk, by limbs. -/
structure ProofPublicInputs where
  inputStateVariables : Mersenne31Field × Mersenne31Field
  outputStateVariables : Mersenne31Field × Mersenne31Field

abbrev MainProofOutput := ProofOutput AuxArgumentsBoundaryValues

abbrev DelegationProofOutput := ProofOutput Unit

abbrev MainCircuitVerifier := VerifierM (MainProofOutput × ProofPublicInputs)

structure DelegationCircuitVerifier where
  delegationType : Word
  delegationRequestsPerCircuit : Word
  setupCaps : MerkleTreeCaps
  verificationFunction : VerifierM DelegationProofOutput

structure MainState where
  transcript : hash.State
  expectedInputPc : Word
  memoryGrandProductAccumulator : Mersenne31Quartic
  delegationSetAccumulator : Mersenne31Quartic
  /-- The two buffers that proof outputs alternate between. -/
  proofOutput0 : Option MainProofOutput
  proofOutput1 : Option MainProofOutput

/-- The lazy-init order across two chunks: either strictly increasing, or the previous chunk ends
in a padding record. -/
def checkLazyInits (previous current : AuxArgumentsBoundaryValues) : Option Unit := do
  let lastPrevious ← parseFieldElsAsU32FromU16LimbsChecked previous.lazyInitOneBeforeLastRow
  let firstCurrent ← parseFieldElsAsU32FromU16LimbsChecked current.lazyInitFirstRow
  if firstCurrent > lastPrevious then pure ()
  else do
    guard (lastPrevious = 0)
    guard (toReducedU32 previous.teardownValueOneBeforeLastRow.1 = 0)
    guard (toReducedU32 previous.teardownValueOneBeforeLastRow.2 = 0)
    guard (toReducedU32 previous.teardownTimestampOneBeforeLastRow.1 = 0)
    guard (toReducedU32 previous.teardownTimestampOneBeforeLastRow.2 = 0)

def checkContinuity (previous current : MainProofOutput) : Option Unit := do
  guard (previous.setupCaps = current.setupCaps)
  guard (previous.memoryChallenges = current.memoryChallenges)
  guard (previous.delegationChallenges = current.delegationChallenges)
  checkLazyInits previous.lazyInitBoundaryValues current.lazyInitBoundaryValues

def checkPrevious (circuitSequence : ℕ) (previous : Option MainProofOutput)
    (current : MainProofOutput) : Option Unit :=
  if circuitSequence > 0 then previous.bind fun previous => checkContinuity previous current
  else some ()

/-- The output buffer written by the iteration before `circuitSequence`. -/
def MainState.previous (state : MainState hash) (circuitSequence : ℕ) : Option MainProofOutput :=
  if circuitSequence % 2 = 0 then state.proofOutput1 else state.proofOutput0

/-- Absorb the commitments of a chunk, store its output and update the accumulators. -/
def MainState.advance (state : MainState hash) (circuitSequence : ℕ) (current : MainProofOutput)
    (endPc : Word) : MainState hash :=
  let transcript := if circuitSequence = 0 then
    hash.absorb state.transcript (flattenCaps current.setupCaps) else state.transcript
  { transcript := hash.absorb transcript (flattenCaps current.memoryCaps)
    expectedInputPc := endPc
    memoryGrandProductAccumulator :=
      state.memoryGrandProductAccumulator * current.memoryGrandProductAccumulator
    delegationSetAccumulator :=
      state.delegationSetAccumulator + current.delegationArgumentAccumulator
    proofOutput0 := if circuitSequence % 2 = 0 then some current else state.proofOutput0
    proofOutput1 := if circuitSequence % 2 = 0 then state.proofOutput1 else some current }

def verifyMainCircuit (verifier : MainCircuitVerifier) (circuitSequence : ℕ)
    (state : MainState hash) : VerifierM (MainState hash) := do
  let (current, stateVariables) ← verifier
  check (current.circuitSequence == BitVec.ofNat 32 circuitSequence)
  check (current.delegationType == 0)
  liftM (checkPrevious circuitSequence (state.previous hash circuitSequence) current)
  let startPc ← liftM (parseFieldElsAsU32FromU16LimbsChecked stateVariables.inputStateVariables)
  check (startPc == state.expectedInputPc)
  let endPc ← liftM (parseFieldElsAsU32FromU16LimbsChecked stateVariables.outputStateVariables)
  pure (state.advance hash circuitSequence current endPc)

/-- The loop over main circuits from `circuitSequence` on. -/
def verifyMainCircuits (verifier : MainCircuitVerifier) :
    (remaining circuitSequence : ℕ) → MainState hash → VerifierM (MainState hash)
  | 0, _, state => pure state
  | remaining + 1, circuitSequence, state => do
      let state ← verifyMainCircuit hash verifier circuitSequence state
      verifyMainCircuits verifier remaining (circuitSequence + 1) state

structure DelegationState where
  transcript : hash.State
  memoryGrandProductAccumulator : Mersenne31Quartic
  delegationSetAccumulator : Mersenne31Quartic
  totalDelegationRequests : ℕ

def verifyDelegationCircuit (parameters : DelegationCircuitVerifier) (reference : MainProofOutput)
    (state : DelegationState hash) : VerifierM (DelegationState hash) := do
  let output ← parameters.verificationFunction
  check (output.circuitSequence == 0)
  check (output.delegationType == parameters.delegationType)
  check (output.setupCaps == parameters.setupCaps)
  check (output.memoryChallenges == reference.memoryChallenges)
  check (output.delegationChallenges == reference.delegationChallenges)
  pure
    { transcript := hash.absorb state.transcript (flattenCaps output.memoryCaps)
      memoryGrandProductAccumulator :=
        state.memoryGrandProductAccumulator * output.memoryGrandProductAccumulator
      delegationSetAccumulator :=
        state.delegationSetAccumulator - output.delegationArgumentAccumulator
      totalDelegationRequests :=
        state.totalDelegationRequests + parameters.delegationRequestsPerCircuit.toNat }

def verifyDelegationCircuits (parameters : DelegationCircuitVerifier)
    (reference : MainProofOutput) : ℕ → DelegationState hash → VerifierM (DelegationState hash)
  | 0, state => pure state
  | remaining + 1, state => do
      let state ← verifyDelegationCircuit hash parameters reference state
      verifyDelegationCircuits parameters reference remaining state

/-- The circuits of every delegation type, in the order of increasing types. -/
def verifyDelegations (reference : MainProofOutput) :
    List DelegationCircuitVerifier → (previousDelegationType : Word) → DelegationState hash →
      VerifierM (DelegationState hash)
  | [], _, state => pure state
  | parameters :: rest, previousDelegationType, state => do
      check (decide (previousDelegationType < parameters.delegationType))
      let numCircuits ← readWord
      let header := parameters.delegationType :: List.replicate 15 0
      let transcript :=
        if numCircuits > 0 then hash.absorb state.transcript header else state.transcript
      let state ← verifyDelegationCircuits hash parameters reference numCircuits.toNat
        { state with transcript := transcript }
      check (hash.getCurrentBufferOffset state.transcript == 16)
      verifyDelegations reference rest parameters.delegationType state

def splitU32IntoPairU16 (number : Word) : Word × Word :=
  (number &&& 0x0000ffff#32, number >>> 16)

/-- The initial record of a register: value and timestamp are zero. -/
def registerInitContribution (challenges : ExternalMemoryArgumentChallenges) (index : ℕ) :
    Mersenne31Quartic :=
  1 + challenges.memoryArgumentLinearizationChallenges[0].mulByBase (index : Mersenne31Field)
    + challenges.memoryArgumentGamma

def registerFinalContribution (challenges : ExternalMemoryArgumentChallenges) (index : ℕ)
    (value timestampLow timestampHigh : Word) : Mersenne31Quartic :=
  let powers := challenges.memoryArgumentLinearizationChallenges
  let valueLow := (splitU32IntoPairU16 value).1
  let valueHigh := (splitU32IntoPairU16 value).2
  1 + powers[0].mulByBase (index : Mersenne31Field)
    + powers[2].mulByBase (timestampLow.toNat : Mersenne31Field)
    + powers[3].mulByBase (timestampHigh.toNat : Mersenne31Field)
    + powers[4].mulByBase (valueLow.toNat : Mersenne31Field)
    + powers[5].mulByBase (valueHigh.toNat : Mersenne31Field)
    + challenges.memoryArgumentGamma

def produceRegisterContributionIntoMemoryAccumulatorRaw (registers : List Word)
    (challenges : ExternalMemoryArgumentChallenges) : Option Mersenne31Quartic := do
  let writeSet := ((List.range 32).map (registerInitContribution challenges)).prod
  let readSet := ((List.range 32).map fun index =>
    registerFinalContribution challenges index (registers.getD (3 * index) 0)
      (registers.getD (3 * index + 1) 0) (registers.getD (3 * index + 2) 0)).prod
  let inverted ← readSet.inverse
  pure (writeSet * inverted)

/-- All timestamps of a run fit their limbs, and every chunk uses one row less than its trace. -/
def maxBaseLayerCircuits : ℕ := 2 ^ (19 * 2) / 2 ^ 2 / (2 ^ 22 - 1)

def maxRecursionLayerCircuits : ℕ := maxBaseLayerCircuits

/-- The hash chain of the programs executed so far, continued by this layer. -/
def continueChain (baseLayer : Bool) (registers : List Word) (endParams : Seed)
    (hasher : hash.State) : VerifierM (List Word) := do
  let auxRegisters := (List.range 8).map fun index => registers.getD ((18 + index) * 3) 0
  if baseLayer then
    check (auxRegisters.all (· == 0))
    let (chain, _) := hash.finalizeReset
      (hash.absorb hasher (List.replicate 8 0 ++ endParams.toList))
    pure chain.toList
  else
    let preimage ← readWords 16
    let (preimageHash, hasher) := hash.finalizeReset (hash.absorb hasher preimage)
    check (preimageHash.toList == auxRegisters)
    -- The chain is not continued by a repetition of its last program.
    if preimage.drop 8 == endParams.toList then pure auxRegisters
    else
      let (chain, _) := hash.finalizeReset
        (hash.absorb hasher (auxRegisters ++ endParams.toList))
      pure chain.toList

def verifyFullStatement (baseLayer : Bool) (mainVerifier : MainCircuitVerifier)
    (delegationVerifiers : List DelegationCircuitVerifier) : VerifierM (List Word) := do
  let registers ← readWords (32 * 3)
  check (registers.getD 0 0 == 0)
  let transcript := hash.absorb hash.new registers
  let numCircuits ← readWord
  check (decide (0 < numCircuits.toNat))
  check (decide (numCircuits.toNat ≤
    if baseLayer then maxBaseLayerCircuits else maxRecursionLayerCircuits))
  let mainState ← verifyMainCircuits hash mainVerifier numCircuits.toNat 0
    { transcript
      expectedInputPc := 0
      memoryGrandProductAccumulator := 1
      delegationSetAccumulator := 0
      proofOutput0 := none
      proofOutput1 := none }
  check (hash.getCurrentBufferOffset mainState.transcript == 16)
  let some proofOutput0 := mainState.proofOutput0 | failure
  let final ← verifyDelegations hash proofOutput0 delegationVerifiers 0
    { transcript := mainState.transcript
      memoryGrandProductAccumulator := mainState.memoryGrandProductAccumulator
      delegationSetAccumulator := mainState.delegationSetAccumulator
      totalDelegationRequests := 0 }
  check (decide (final.totalDelegationRequests < 2 ^ 31 - 1))
  let (memorySeed, _) := hash.finalizeReset final.transcript
  let expectedChallenges := drawFromTranscriptSeed hash memorySeed
  check (expectedChallenges.memoryArgument == proofOutput0.memoryChallenges)
  check (expectedChallenges.delegationArgument == proofOutput0.delegationChallenges)
  let registerContribution ← liftM (produceRegisterContributionIntoMemoryAccumulatorRaw registers
    proofOutput0.memoryChallenges)
  check (final.memoryGrandProductAccumulator * registerContribution == 1)
  check (final.delegationSetAccumulator == 0)
  let resultHasher := hash.absorb (hash.absorb hash.new [mainState.expectedInputPc])
    (flattenCaps proofOutput0.setupCaps)
  let (endParams, resultHasher) := hash.finalizeReset resultHasher
  let chain ← continueChain hash baseLayer registers endParams resultHasher
  pure ((List.range 8).map (fun index => registers.getD ((10 + index) * 3) 0) ++ chain)

end

end Airbender.Verifier

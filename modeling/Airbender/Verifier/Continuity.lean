import Airbender.Memory.LazyInit
import Airbender.Verifier.FullStatement

/-!
# Continuity across chunks

After a successful run the program counters of the main circuits form one chain, and their lazy-init
records, in order, obey the rule that the circuit enforces inside a chunk.
-/

namespace Airbender.Verifier

open Blake2s Transcript Memory PaddedOrder Mersenne31Field BitVec
open List hiding Vector cons nil
open Option hiding guard

theorem high_bits_eq (word : Word) : word &&& 0xffff0000#32 = (word >>> 16) <<< 16 := by
  apply eq_of_getLsbD_eq
  intro index bound
  interval_cases index <;> simp

theorem high_bits_zero_iff (word : Word) : word &&& 0xffff0000#32 = 0#32 ↔ word.toNat < 2 ^ 16 := by
  have bound := word.isLt
  rw [high_bits_eq, ← toNat_inj, toNat_shiftLeft, toNat_ushiftRight,
    Nat.shiftRight_eq_div_pow, Nat.shiftLeft_eq, toNat_ofNat]
  omega

theorem parse_eq_some {limbs : Mersenne31Field × Mersenne31Field} {word : Word}
    (parsed : parseFieldElsAsU32FromU16LimbsChecked limbs = some word) :
    limbs.1.val < 2 ^ 16 ∧ limbs.2.val < 2 ^ 16 ∧
      word.toNat = limbs.1.val + 2 ^ 16 * limbs.2.val := by
  simp only [parseFieldElsAsU32FromU16LimbsChecked, high_bits_zero_iff, toNat_toReducedU32]
    at parsed
  split at parsed
  · rename_i bounds
    refine ⟨bounds.1, bounds.2, ?_⟩
    rw [← Option.some.inj parsed, toNat_or, toNat_shiftLeft, toNat_toReducedU32,
      toNat_toReducedU32, Nat.mod_eq_of_lt (by rw [Nat.shiftLeft_eq]; omega), Nat.or_comm,
      ← Nat.shiftLeft_add_eq_or_of_lt bounds.1, Nat.shiftLeft_eq]
    omega
  · contradiction

abbrev MainCircuitProof := MainProofOutput × ProofPublicInputs

namespace MainCircuitProof

def startPc (proof : MainCircuitProof) : Option Word :=
  parseFieldElsAsU32FromU16LimbsChecked proof.2.inputStateVariables

def endPc (proof : MainCircuitProof) : Option Word :=
  parseFieldElsAsU32FromU16LimbsChecked proof.2.outputStateVariables

end MainCircuitProof

open MainCircuitProof

/-- The outputs of `count` consecutive calls of the main circuit verifier. -/
def mainCircuitProofs (verifier : MainCircuitVerifier) : ℕ → VerifierM (List MainCircuitProof)
  | 0 => pure []
  | count + 1 => do
      let proof ← verifier
      let proofs ← mainCircuitProofs verifier count
      pure (proof :: proofs)

section

variable {hash : TranscriptImplementation} {verifier : MainCircuitVerifier}

theorem verifyMainCircuit_eq_some {circuitSequence : ℕ} {state next : MainState hash}
    {source rest : Source}
    (succeeded : (verifyMainCircuit hash verifier circuitSequence state).run source =
      some (next, rest)) :
    ∃ proof : MainCircuitProof, verifier.run source = some (proof, rest) ∧
      proof.startPc = some state.expectedInputPc ∧ proof.endPc = some next.expectedInputPc ∧
      (0 < circuitSequence → ∃ previous, state.previous hash circuitSequence = some previous ∧
        checkContinuity previous proof.1 = some ()) ∧
      next.previous hash (circuitSequence + 1) = some proof.1 ∧
      ∃ pc, next = state.advance hash circuitSequence proof.1 pc := by
  unfold verifyMainCircuit at succeeded
  obtain ⟨⟨current, stateVariables⟩, _, verified, afterVerifier⟩ := bind_eq_some succeeded
  obtain ⟨-, afterSequence⟩ := check_bind_eq_some afterVerifier
  obtain ⟨-, afterType⟩ := check_bind_eq_some afterSequence
  obtain ⟨_, continuous, afterPrevious⟩ := lift_bind_eq_some afterType
  obtain ⟨startPc, startParsed, afterStart⟩ := lift_bind_eq_some afterPrevious
  obtain ⟨samePc, afterPc⟩ := check_bind_eq_some afterStart
  obtain ⟨endPc, endParsed, advanced⟩ := lift_bind_eq_some afterPc
  cases advanced
  refine ⟨(current, stateVariables), verified, ?_, endParsed, fun positive => ?_, ?_, _, rfl⟩
  · rw [← eq_of_beq samePc]
    exact startParsed
  · rw [checkPrevious, if_pos positive] at continuous
    exact bind_eq_some_iff.mp continuous
  · simp only [MainState.previous, MainState.advance]
    split <;> split <;> first | rfl | omega

def Continues (previous next : MainCircuitProof) : Prop :=
  checkContinuity previous.1 next.1 = some () ∧
    ∃ pc, previous.endPc = some pc ∧ next.startPc = some pc

theorem verifyMainCircuits_eq_some {remaining circuitSequence : ℕ} {state final : MainState hash}
    {source rest : Source}
    (succeeded : (verifyMainCircuits hash verifier remaining circuitSequence state).run source =
      some (final, rest)) :
    ∃ proofs, (mainCircuitProofs verifier remaining).run source = some (proofs, rest) ∧
      proofs.length = remaining ∧
      (∀ proof ∈ proofs.head?, proof.startPc = some state.expectedInputPc ∧
        (0 < circuitSequence → ∃ previous, state.previous hash circuitSequence = some previous ∧
          checkContinuity previous proof.1 = some ())) ∧
      proofs.IsChain Continues := by
  induction remaining generalizing circuitSequence state source with
  | zero =>
    cases succeeded
    exact ⟨[], rfl, rfl, by simp, List.IsChain.nil⟩
  | succ remaining ih =>
    obtain ⟨next, middle, verified, continued⟩ := bind_eq_some succeeded
    obtain ⟨proof, called, started, ended, linked, stored, -⟩ := verifyMainCircuit_eq_some verified
    obtain ⟨proofs, calls, length, first, chain⟩ := ih continued
    refine ⟨proof :: proofs, ?_, by rw [length_cons, length], ?_, ?_⟩
    · simp only [mainCircuitProofs, StateT.run_bind, called, bind_eq_bind,
        bind_some, calls, StateT.run_pure]
      rfl
    · rintro _ ⟨⟩
      exact ⟨started, linked⟩
    · refine isChain_cons.mpr ⟨fun following member => ?_, chain⟩
      obtain ⟨followingStart, followingLinked⟩ := first following member
      obtain ⟨previous, wasStored, continuous⟩ := followingLinked (Nat.succ_pos _)
      rw [stored] at wasStored
      cases wasStored
      exact ⟨continuous, _, ended, followingStart⟩

end

/-- The rows of a chunk behind a proof: they obey the rule that the circuit enforces between
neighbours (`LazyInitRow.follows_in_chunk`), and the boundary values of the proof are the columns
of their first and last row. -/
structure Attests (proof : MainCircuitProof) (rows : List LazyInitRow) : Prop where
  nonempty : rows ≠ []
  rowRule : rows.IsChain (Follows LazyInitRow.address LazyInitRow.IsPadding)
  firstRow : ∀ row ∈ rows.head?,
    proof.1.lazyInitBoundaryValues.lazyInitFirstRow = row.initAddress
  lastRow : ∀ row ∈ rows.getLast?,
    proof.1.lazyInitBoundaryValues.lazyInitOneBeforeLastRow = row.initAddress ∧
    proof.1.lazyInitBoundaryValues.teardownValueOneBeforeLastRow = row.teardownValue ∧
    proof.1.lazyInitBoundaryValues.teardownTimestampOneBeforeLastRow = row.teardownTimestamp

/-- The check between two chunks is the row rule between the last record of the first and the
first record of the second. -/
theorem follows_of_checkLazyInits {previous current : AuxArgumentsBoundaryValues}
    {last first : LazyInitRow} (checked : checkLazyInits previous current = some ())
    (lastAddress : previous.lazyInitOneBeforeLastRow = last.initAddress)
    (lastValue : previous.teardownValueOneBeforeLastRow = last.teardownValue)
    (lastTimestamp : previous.teardownTimestampOneBeforeLastRow = last.teardownTimestamp)
    (firstAddress : current.lazyInitFirstRow = first.initAddress) :
    Follows LazyInitRow.address LazyInitRow.IsPadding last first := by
  unfold checkLazyInits at checked
  obtain ⟨lastPrevious, lastParsed, afterLast⟩ := bind_eq_some_iff.mp checked
  obtain ⟨firstCurrent, firstParsed, afterFirst⟩ := bind_eq_some_iff.mp afterLast
  rw [lastAddress] at lastParsed
  rw [firstAddress] at firstParsed
  obtain ⟨-, -, lastNumber⟩ := parse_eq_some lastParsed
  obtain ⟨-, -, firstNumber⟩ := parse_eq_some firstParsed
  split at afterFirst
  · rename_i increasing
    refine Or.inl ?_
    rw [LazyInitRow.address, LazyInitRow.address, ← lastNumber, ← firstNumber]
    exact increasing
  · simp only [lastValue, lastTimestamp] at afterFirst
    simp [guard, bind_eq_some_iff] at afterFirst
    obtain ⟨rfl, valueLow, valueHigh, timestampLow, timestampHigh⟩ := afterFirst
    have addressLow : last.initAddress.1 = 0 :=
      (ZMod.val_eq_zero _).mp (by rw [toNat_ofNat] at lastNumber; omega)
    have addressHigh : last.initAddress.2 = 0 :=
      (ZMod.val_eq_zero _).mp (by rw [toNat_ofNat] at lastNumber; omega)
    refine Or.inr fun column member => ?_
    simp only [LazyInitRow.recordColumns, mem_cons, not_mem_nil, or_false] at member
    rcases member with rfl | rfl | rfl | rfl | rfl | rfl
    · exact addressLow
    · exact addressHigh
    · exact toReducedU32_eq_zero valueLow
    · exact toReducedU32_eq_zero valueHigh
    · exact toReducedU32_eq_zero timestampLow
    · exact toReducedU32_eq_zero timestampHigh

theorem follows_of_continues {previous next : MainCircuitProof} {rows nextRows : List LazyInitRow}
    (continues : Continues previous next) (attested : Attests previous rows)
    (nextAttested : Attests next nextRows) :
    ∀ last ∈ rows.getLast?, ∀ first ∈ nextRows.head?,
      Follows LazyInitRow.address LazyInitRow.IsPadding last first := by
  intro last isLast first isFirst
  have continuity := continues.1
  unfold checkContinuity at continuity
  simp only [bind_eq_bind, bind_eq_some_iff] at continuity
  obtain ⟨_, _, _, _, _, _, ordered⟩ := continuity
  obtain ⟨address, value, timestamp⟩ := attested.lastRow last isLast
  exact follows_of_checkLazyInits ordered address value timestamp
    (nextAttested.firstRow first isFirst)

theorem follows_of_chain {proofs : List MainCircuitProof} {chunks : List (List LazyInitRow)}
    (chain : proofs.IsChain Continues) (attested : List.Forall₂ Attests proofs chunks) :
    chunks.flatten.IsChain (Follows LazyInitRow.address LazyInitRow.IsPadding) := by
  induction attested with
  | nil => exact List.IsChain.nil
  | @cons proof rows proofs chunks first others ih =>
    obtain ⟨continues, restChain⟩ := isChain_cons.mp chain
    rw [flatten_cons, isChain_append]
    refine ⟨first.rowRule, ih restChain, ?_⟩
    cases others with
    | nil => simp
    | @cons next nextRows _ _ nextAttested _ =>
      rw [flatten_cons, head?_append_of_ne_nil _ nextAttested.nonempty]
      exact follows_of_continues (continues next rfl) first nextAttested

def chunkProofs (verifier : MainCircuitVerifier) : VerifierM (List MainCircuitProof) := do
  let _ ← readWords (32 * 3)
  let numCircuits ← readWord
  mainCircuitProofs verifier numCircuits.toNat

theorem chunkProofs_of_verifyFullStatement {hash : TranscriptImplementation} {baseLayer : Bool}
    {verifier : MainCircuitVerifier} {delegationVerifiers : List DelegationCircuitVerifier}
    {source rest : Source} {output : List Word}
    (succeeded : (verifyFullStatement hash baseLayer verifier delegationVerifiers).run source =
      some (output, rest)) :
    ∃ first proofs afterMain,
      (chunkProofs verifier).run source = some (first :: proofs, afterMain) ∧
      first.startPc = some 0 ∧ (first :: proofs).IsChain Continues := by
  unfold verifyFullStatement at succeeded
  obtain ⟨registers, afterRegisters, registersRead, checked⟩ := bind_eq_some succeeded
  obtain ⟨-, afterZero⟩ := check_bind_eq_some checked
  obtain ⟨numCircuits, _, numberRead, afterNumber⟩ := bind_eq_some afterZero
  obtain ⟨positive, afterPositive⟩ := check_bind_eq_some afterNumber
  obtain ⟨-, afterBound⟩ := check_bind_eq_some afterPositive
  obtain ⟨mainState, afterMain, mainVerified, -⟩ := bind_eq_some afterBound
  obtain ⟨proofs, called, length, started, chain⟩ := verifyMainCircuits_eq_some mainVerified
  cases proofs with
  | nil =>
    rw [← length] at positive
    simp at positive
  | cons first proofs =>
    refine ⟨first, proofs, afterMain, ?_, (started first rfl).1, chain⟩
    simp [chunkProofs, registersRead, numberRead, called]

theorem verifyFullStatement_continuity {hash : TranscriptImplementation} {baseLayer : Bool}
    {verifier : MainCircuitVerifier} {delegationVerifiers : List DelegationCircuitVerifier}
    {source rest : Source} {output : List Word}
    (succeeded : (verifyFullStatement hash baseLayer verifier delegationVerifiers).run source =
      some (output, rest)) :
    ∃ first proofs afterMain,
      (chunkProofs verifier).run source = some (first :: proofs, afterMain) ∧
      first.startPc = some 0 ∧
      (first :: proofs).IsChain (fun previous next =>
        ∃ pc, previous.endPc = some pc ∧ next.startPc = some pc) ∧
      ∀ chunks, List.Forall₂ Attests (first :: proofs) chunks →
        ∃ pads reals, chunks.flatten = pads ++ reals ∧ (∀ row ∈ pads, row.IsPadding) ∧
          (∀ row ∈ reals, ¬ row.IsPadding) ∧
          reals.Pairwise (fun row later => row.address < later.address) ∧
          (reals.map LazyInitRow.address).Nodup := by
  obtain ⟨first, proofs, afterMain, read, started, chain⟩ :=
    chunkProofs_of_verifyFullStatement succeeded
  refine ⟨first, proofs, afterMain, read, started,
    chain.imp fun _ _ continues => continues.2, fun chunks attested => ?_⟩
  have lowest : ∀ low other : LazyInitRow, low.IsPadding → ¬ other.address < low.address := by
    intro low other padded
    rw [LazyInitRow.address_of_isPadding padded]
    exact Nat.not_lt_zero _
  obtain ⟨pads, reals, split, padded, real, increasing⟩ :=
    padding_then_increasing lowest (follows_of_chain chain attested)
  refine ⟨pads, reals, split, padded, real, increasing, ?_⟩
  exact pairwise_map.mpr (increasing.imp Nat.ne_of_lt)

def constantTranscript : TranscriptImplementation where
  State := Unit
  new := ()
  absorb _ _ := ()
  getCurrentBufferOffset _ := 16
  finalizeReset _ := (Vector.replicate 8 0, ())
  drawRandomness blocks _ := List.replicate (8 * blocks) 0

def paddingRow : LazyInitRow := ⟨(0, 0), (0, 0), (0, 0), (0, 0), 0, 0⟩

def realRow (address : Mersenne31Field) : LazyInitRow :=
  ⟨(address, 0), (0, 0), (0, 0), (0, 0), 0, 1⟩

/-- Proofs of two chunks: padding, then the initialisation of two words. -/
def sampleProof (circuitSequence : Word) : MainCircuitProof :=
  ({ setupCaps := Vector.replicate 2 (Vector.replicate 64 (Vector.replicate 8 0))
     memoryCaps := Vector.replicate 2 (Vector.replicate 64 (Vector.replicate 8 0))
     memoryChallenges := ⟨Vector.replicate 6 0, 0⟩
     delegationChallenges := ⟨Vector.replicate 3 0, 0⟩
     lazyInitBoundaryValues :=
       if circuitSequence = 0 then ⟨(0, 0), (0, 0), (0, 0), (0, 0), (0, 0), (0, 0)⟩
       else ⟨(4, 0), (0, 0), (0, 0), (8, 0), (0, 0), (0, 0)⟩
     memoryGrandProductAccumulator := 1
     delegationArgumentAccumulator := 0
     circuitSequence
     delegationType := 0 },
    ⟨(0, 0), (0, 0)⟩)

def sampleVerifier : MainCircuitVerifier := sampleProof <$> readWord

def sampleSource : Source := List.replicate 96 0 ++ [2, 0, 1]

theorem sampleRun : (verifyFullStatement constantTranscript true sampleVerifier []).run
    sampleSource = some (List.replicate 16 0, []) := by
  decide +kernel

theorem sampleChunks : List.Forall₂ Attests [sampleProof 0, sampleProof 1]
    [[paddingRow], [realRow 4, realRow 8]] := by
  refine .cons ⟨by simp, List.IsChain.singleton _, ?_, ?_⟩
    (.cons ⟨by simp, ?_, ?_, ?_⟩ .nil)
  · rintro _ ⟨⟩
    rfl
  · rintro _ ⟨⟩
    exact ⟨rfl, rfl, rfl⟩
  · exact isChain_pair.mpr (Or.inl (by decide))
  · rintro _ ⟨⟩
    rfl
  · rintro _ ⟨⟩
    exact ⟨rfl, rfl, rfl⟩

set_option maxRecDepth 4000 in
theorem sampleProofs : (chunkProofs sampleVerifier).run sampleSource =
    some ([sampleProof 0, sampleProof 1], []) := rfl

theorem verifyFullStatement_two_chunks :
    ∃ pads reals, [paddingRow, realRow 4, realRow 8] = pads ++ reals ∧
      (∀ row ∈ pads, row.IsPadding) ∧ (∀ row ∈ reals, ¬ row.IsPadding) ∧
      reals.Pairwise (fun row later => row.address < later.address) ∧
      (reals.map LazyInitRow.address).Nodup := by
  obtain ⟨first, proofs, afterMain, read, -, -, ordered⟩ := verifyFullStatement_continuity sampleRun
  rw [sampleProofs] at read
  cases read
  exact ordered _ sampleChunks

end Airbender.Verifier

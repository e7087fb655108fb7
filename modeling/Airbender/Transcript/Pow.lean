import Airbender.Transcript.Buffering

/-!
# Proof of work

The search for a nonce runs serially when few bits are asked for, and otherwise in threads that
share their result in an atomic cell. Both test the leading word of the digest by their own
threshold. Every interleaving of the threads is a schedule.
-/

namespace Airbender.Transcript

open Blake2s BitVec

abbrev Nonce := BitVec 64

def nonceWords (nonce : Nonce) : List Word := [nonce.setWidth 32, (nonce >>> 32).setWidth 32]

/-- `0xffffffff >> pow_bits`. The shift of a word takes its amount modulo 32. -/
def powThreshold (powBits : ℕ) : Word := (0xffffffff : Word) >>> (powBits % 32)

namespace Blake2sTranscript

def verifyPowUsingHasher (hasher : Blake2sState) (seed : Seed) (nonce : Nonce) (powBits : ℕ) :
    Option Seed := do
  guard (powBits ≤ 32)
  let buffer := copyWords (copyWords hasher.inputBuffer 0 seed.toList) 8 (nonceWords nonce)
  let hasher := { hasher.reset with inputBuffer := zeroRest buffer 10 }
  let hasher := hasher.runRoundFunction useReducedBlake2Rounds 10 true
  guard (hasher.state[0] ≤ powThreshold powBits)
  some hasher.readStateForOutput

def verifyPow (seed : Seed) (nonce : Nonce) (powBits : ℕ) : Option Seed :=
  verifyPowUsingHasher .new seed nonce powBits

def initialState : Vector Word 16 :=
  Blake2sState.extendedState configuredIv 40 true

def attempt (seed : Seed) (challenge : Nonce) : Vector Word 16 :=
  roundFunction useReducedBlake2Rounds initialState
    (copyWords (copyWords (Vector.replicate 16 0) 0 seed.toList) 8 (nonceWords challenge))

def passes (seed : Seed) (powBits : ℕ) (challenge : Nonce) : Bool :=
  let state := attempt seed challenge
  configuredIv[0] ^^^ state[0] ^^^ state[8] ≤ powThreshold powBits

def searchSerial (seed : Seed) (powBits : ℕ) : ℕ → ℕ → Option (Seed × Nonce)
  | 0, _ => none
  | remaining + 1, challenge =>
    let nonce := BitVec.ofNat 64 challenge
    if passes seed powBits nonce then
      some (Blake2sState.fold configuredIv (attempt seed nonce), nonce)
    else searchSerial seed powBits remaining (challenge + 1)

/-- Where a thread is: at the load before its iteration `i`, at the challenge `j` of that
iteration, or at its end. -/
inductive Searcher where
  | loading (i : ℕ)
  | testing (i j : ℕ)
  | done
deriving DecidableEq

def blake2sNoResult : Nonce := .allOnes 64

def blake2sRoundsPerInvocation : ℕ := 2 ^ 16

structure Search (numWorkers : ℕ) where
  result : Nonce
  searchers : Fin numWorkers → Searcher

namespace Search

variable {numWorkers : ℕ}

def initial : Search numWorkers := ⟨blake2sNoResult, fun _ => .loading 0⟩

def step (test : Nonce → Bool) (search : Search numWorkers) (worker : Fin numWorkers) :
    Search numWorkers :=
  let goTo := fun searcher => Function.update search.searchers worker searcher
  match search.searchers worker with
  | .loading i =>
    if i < (2 ^ 64 - 2) / numWorkers / blake2sRoundsPerInvocation ∧
        search.result = blake2sNoResult then ⟨search.result, goTo (.testing i 0)⟩
    else ⟨search.result, goTo .done⟩
  | .testing i j =>
    let base := (worker.val + i * numWorkers) * blake2sRoundsPerInvocation
    let challenge := BitVec.ofNat 64 (base + j)
    if j = blake2sRoundsPerInvocation then ⟨search.result, goTo (.loading (i + 1))⟩
    else if test challenge then
      -- the exchange succeeds when no other thread has found a result
      ⟨if search.result = blake2sNoResult then challenge else search.result,
        goTo (.loading (i + 1))⟩
    else ⟨search.result, goTo (.testing i (j + 1))⟩
  | .done => search

end Search

/-- The threads, interleaved by a schedule at whose end all of them are done. -/
def searchThreads {numWorkers : ℕ} (seed : Seed) (powBits : ℕ)
    (schedule : List (Fin numWorkers)) : Option (Seed × Nonce) :=
  let search := schedule.foldl (Search.step (passes seed powBits)) .initial
  if 0 < numWorkers ∧ ∀ worker, search.searchers worker = .done then do
    let newSeed ← verifyPow seed search.result powBits
    some (newSeed, search.result)
  else none

def searchPow {numWorkers : ℕ} (seed : Seed) (powBits : ℕ) (schedule : List (Fin numWorkers)) :
    Option (Seed × Nonce) :=
  if powBits ≤ 16 then
    (searchSerial seed powBits (2 ^ 64 - 2) 0).or (searchThreads seed powBits schedule)
  else if powBits ≤ 32 then searchThreads seed powBits schedule
  else none

def powDigest (seed : Seed) (nonce : Nonce) : Seed :=
  seedOf ((configuredIv, 0), seed.toList ++ nonceWords nonce)

theorem padded_nonce (buffer : Vector Word 16) (seed : Seed) (nonce : Nonce) :
    zeroRest (copyWords (copyWords buffer 0 seed.toList) 8 (nonceWords nonce)) 10 =
        paddedBlock (seed.toList ++ nonceWords nonce) ∧
      copyWords (copyWords (Vector.replicate 16 0) 0 seed.toList) 8 (nonceWords nonce) =
        paddedBlock (seed.toList ++ nonceWords nonce) := by
  constructor <;> ext1 index inside <;> interval_cases index <;>
    simp [zeroRest, copyWords, paddedBlock, nonceWords]

variable {found : Seed × Nonce} {powBits : ℕ} (seed : Seed)

theorem verifyPow_eq (nonce : Nonce) (powBits : ℕ) :
    verifyPow seed nonce powBits =
      if powBits ≤ 32 ∧ (powDigest seed nonce)[0] ≤ powThreshold powBits then
        some (powDigest seed nonce)
      else none := by
  have digest : (Blake2sState.runRoundFunction useReducedBlake2Rounds
      { Blake2sState.new.reset with
        inputBuffer := paddedBlock (seed.toList ++ nonceWords nonce) } 10 true).state =
      powDigest seed nonce := by
    simp only [powDigest, seedOf, compress, List.length_append, Vector.length_toList]
    rfl
  simp only [verifyPow, verifyPowUsingHasher, (padded_nonce _ _ _).1,
    Blake2sState.readStateForOutput, digest]
  by_cases few : powBits ≤ 32
  · by_cases small : (powDigest seed nonce)[0] ≤ powThreshold powBits
    · rw [if_pos ⟨few, small⟩, guard, guard, if_pos few, if_pos small]
      rfl
    · rw [if_neg (fun both => small both.2), guard, guard, if_pos few, if_neg small]
      rfl
  · rw [if_neg (fun both => few both.1), guard, if_neg few]
    rfl

theorem fold_attempt (challenge : Nonce) :
    Blake2sState.fold configuredIv (attempt seed challenge) = powDigest seed challenge := by
  have length : (seed.toList ++ nonceWords challenge).length = 10 := by simp [nonceWords]
  have state : initialState =
      Blake2sState.extendedState configuredIv (0 + BitVec.ofNat 32 (10 * 4)) true := by decide
  rw [attempt, state, (padded_nonce (Vector.replicate 16 0) _ _).2]
  simp only [powDigest, seedOf, compress, Blake2sState.runRoundFunction, length]

theorem powThreshold_iff (small : powBits < 32) (word : Word) :
    word ≤ powThreshold powBits ↔ ∀ bit < powBits, word.getMsbD bit = false := by
  have shifted : ∀ bits < 32, ((0xffffffff : Word) >>> bits).toNat + 1 = 2 ^ (32 - bits) := by
    decide
  have threshold := shifted powBits small
  rw [powThreshold, Nat.mod_eq_of_lt small, le_def, ← Nat.lt_succ_iff, Nat.succ_eq_add_one,
    threshold]
  constructor
  · intro below bit inside
    rw [getMsbD_eq_getLsbD, BitVec.getLsbD, Nat.testBit_lt_two_pow, Bool.and_false]
    exact below.trans_le (Nat.pow_le_pow_right (by omega) (by omega))
  · intro zeros
    apply Nat.lt_pow_two_of_testBit
    intro bit high
    by_cases inside : bit < 32
    · have zero := zeros (31 - bit) (by omega)
      rw [getMsbD_eq_getLsbD, decide_eq_true (by omega : 31 - bit < 32), Bool.true_and,
        show 32 - 1 - (31 - bit) = bit by omega] at zero
      exact zero
    · exact getLsbD_of_ge word bit (by omega)

theorem searchSerial_verified {seed : Seed} {remaining challenge : ℕ}
    (few : powBits ≤ 32) (isFound : searchSerial seed powBits remaining challenge = some found) :
    verifyPow seed found.2 powBits = some found.1 := by
  induction remaining generalizing challenge with
  | zero => contradiction
  | succ remaining ih =>
    rw [searchSerial] at isFound
    split_ifs at isFound with passed
    · cases isFound
      have word : (powDigest seed (BitVec.ofNat 64 challenge))[0] ≤ powThreshold powBits := by
        rw [← fold_attempt]
        simpa [passes, Blake2sState.fold] using passed
      rw [verifyPow_eq, if_pos ⟨few, word⟩, fold_attempt]
    · exact ih isFound

theorem searchThreads_verified {numWorkers : ℕ} {seed : Seed} {schedule : List (Fin numWorkers)}
    (isFound : searchThreads seed powBits schedule = some found) :
    verifyPow seed found.2 powBits = some found.1 := by
  rw [searchThreads, Option.ite_none_right_eq_some] at isFound
  rcases Option.bind_eq_some_iff.mp isFound.2 with ⟨newSeed, verified, isFound⟩
  cases isFound
  exact verified

theorem searchPow_verified {numWorkers : ℕ} {seed : Seed} {schedule : List (Fin numWorkers)}
    (isFound : searchPow seed powBits schedule = some found) :
    verifyPow seed found.2 powBits = some found.1 := by
  unfold searchPow at isFound
  split_ifs at isFound with few some
  · rcases Option.or_eq_some_iff.mp isFound with serial | ⟨-, threads⟩
    · exact searchSerial_verified (by omega) serial
    · exact searchThreads_verified threads
  · exact searchThreads_verified isFound

def PowSound (numWorkers powBits : ℕ) : Prop :=
  ∀ seed : Seed,
    (∀ (schedule : List (Fin numWorkers)) (newSeed : Seed) (nonce : Nonce),
      searchPow seed powBits schedule = some (newSeed, nonce) →
        verifyPow seed nonce powBits = some newSeed) ∧
      ∀ nonce : Nonce, (verifyPow seed nonce powBits).isSome ↔
        ∀ bit < powBits, (powDigest seed nonce)[0].getMsbD bit = false

theorem verifyPow_all (nonce : Nonce) : (verifyPow seed nonce 32).isSome := by
  rw [verifyPow_eq, if_pos ⟨Nat.le_refl 32, le_def.mpr (Nat.le_of_lt_succ (BitVec.isLt _))⟩]
  rfl

theorem powDigest_zero : (powDigest (Vector.replicate 8 0) 0)[0].getMsbD 1 = true := by
  decide +kernel

/-- A nonce is accepted for 32 bits although the leading word is not zero. -/
theorem verifyPow_accepts_nonzero :
    (verifyPow (Vector.replicate 8 0) 0 32).isSome ∧
      (powDigest (Vector.replicate 8 0) 0)[0].getMsbD 1 = true :=
  ⟨verifyPow_all _ _, powDigest_zero⟩

/-- The search and the verifier agree, but for 32 bits. -/
theorem powSound_iff (numWorkers : ℕ) {powBits : ℕ} (few : powBits ≤ 32) :
    PowSound numWorkers powBits ↔ powBits ≠ 32 := by
  constructor
  · intro sound all
    subst all
    have zero := ((sound (Vector.replicate 8 0)).2 0).mp (verifyPow_all _ _) 1 (by decide)
    exact Bool.noConfusion (powDigest_zero.symm.trans zero)
  · intro notAll seed
    refine ⟨fun schedule newSeed nonce => searchPow_verified, fun nonce => ?_⟩
    rw [← powThreshold_iff (by omega : powBits < 32), verifyPow_eq]
    by_cases small : (powDigest seed nonce)[0] ≤ powThreshold powBits
    · simp [few, small]
    · simp [small]

theorem powSound_default : PowSound 4 31 := (powSound_iff 4 (by decide)).mpr (by decide)

end Blake2sTranscript

end Airbender.Transcript

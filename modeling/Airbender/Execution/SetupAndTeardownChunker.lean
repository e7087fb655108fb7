import Airbender.Execution.CpuWorker

/-!
# Chunks of lazy-init and teardown records

`SetupAndTeardownChunker` hands out the records of the touched words chunk by chunk, and can skip
chunks. The first chunk begins with padding.
-/

namespace Airbender.Execution

open Simulator Tracing List Option

def LazyInitAndTeardown.default : LazyInitAndTeardown := ⟨0, 0, 0⟩

abbrev Records := List LazyInitAndTeardown

/-- The iterator is the list of what it has not returned. -/
structure SetupAndTeardownChunker where
  touchedRamCellsCount : ℕ
  chunkSize : ℕ
  nextChunkIndex : ℕ
  iterator : Records

namespace SetupAndTeardownChunker

def getChunksCount (chunker : SetupAndTeardownChunker) : ℕ :=
  (chunker.touchedRamCellsCount + chunker.chunkSize - 1) / chunker.chunkSize

/-- Take records for the next chunk. Past the end of the iterator a call to skip panics, and a
call to populate is undefined. -/
def advance (chunker : SetupAndTeardownChunker) (count : ℕ) :
    Option (Records × SetupAndTeardownChunker) :=
  if count ≤ chunker.iterator.length then
    some (chunker.iterator.take count,
      { chunker with
        nextChunkIndex := chunker.nextChunkIndex + 1
        iterator := chunker.iterator.drop count })
  else none

def paddingSize (chunker : SetupAndTeardownChunker) : ℕ :=
  if chunker.nextChunkIndex = 0 then
    chunker.getChunksCount * chunker.chunkSize - chunker.touchedRamCellsCount
  else 0

/-- The buffer is overwritten, so that only its length matters. -/
def populateNextChunk (chunker : SetupAndTeardownChunker) (chunkLen : ℕ) :
    Option (Records × SetupAndTeardownChunker) :=
  if chunker.nextChunkIndex < chunker.getChunksCount ∧ chunker.chunkSize = chunkLen then
    (chunker.advance (chunkLen - chunker.paddingSize)).map fun (dst, after) =>
      (List.replicate chunker.paddingSize .default ++ dst, after)
  else none

def skipNextChunk (chunker : SetupAndTeardownChunker) : Option SetupAndTeardownChunker :=
  if chunker.nextChunkIndex < chunker.getChunksCount then
    (chunker.advance (if chunker.nextChunkIndex = 0 then
      chunker.touchedRamCellsCount % chunker.chunkSize else chunker.chunkSize)).map Prod.snd
  else none

inductive Call where
  | populateNextChunk
  | skipNextChunk
deriving DecidableEq

def step (chunker : SetupAndTeardownChunker) : Call → Option SetupAndTeardownChunker
  | .populateNextChunk => (chunker.populateNextChunk chunker.chunkSize).map Prod.snd
  | .skipNextChunk => chunker.skipNextChunk

def contentAfter (chunker : SetupAndTeardownChunker) (calls : List Call) : Option Records :=
  (calls.foldlM step chunker).bind fun after =>
    (after.populateNextChunk after.chunkSize).map Prod.fst

section

variable (pages : List ℕ) (memory : ℕ → Word) (timestamps : ℕ → ℕ)

def getValue (index : ℕ) : Option LazyInitAndTeardown :=
  if timestamps index ≠ 0 then
    some ⟨BitVec.ofNat 32 index <<< 2, memory index, .fromScalar (timestamps index)⟩
  else none

def touchedRecords : Records :=
  let starts := pages.zipIdx.filterMap fun (count, index) =>
    if count = 0 then none else some (index <<< pageWordsLogSize)
  starts.flatMap fun index =>
    (List.range' index (1 <<< pageWordsLogSize)).filterMap (getValue memory timestamps)

def createSetupAndTeardownChunker (chunkSize : ℕ) : SetupAndTeardownChunker :=
  ⟨pages.sum, chunkSize, 0, touchedRecords pages memory timestamps⟩

variable {memory timestamps} in
theorem address_of_getValue {index : ℕ} {record : LazyInitAndTeardown}
    (value : getValue memory timestamps index = some record) :
    record.address.toNat = index * 4 % 2 ^ 32 := by
  unfold getValue at value
  split at value
  · rw [← Option.some.inj value, BitVec.toNat_shiftLeft, BitVec.toNat_ofNat, Nat.shiftLeft_eq]
    omega
  · cases value

theorem nodup_touchedRecords (small : pages.length ≤ 2 ^ 20) :
    (touchedRecords pages memory timestamps).Nodup := by
  apply pairwise_flatMap.mpr
  constructor
  · intro start _
    rw [pairwise_filterMap]
    apply (pairwise_lt_range' 1).imp_of_mem
    intro first second firstInPage secondInPage increasing record value other otherValue same
    have address := address_of_getValue value
    rw [same, address_of_getValue otherValue] at address
    simp only [mem_range'_1, Nat.one_shiftLeft, pageWordsLogSize] at firstInPage secondInPage
    omega
  · rw [pairwise_filterMap, pairwise_iff_getElem]
    intro first second firstInside secondInside increasing start started next followed record member
      other otherMember same
    rw [length_zipIdx] at secondInside
    obtain ⟨word, inPage, value⟩ := mem_filterMap.mp member
    obtain ⟨otherWord, inNext, otherValue⟩ := mem_filterMap.mp otherMember
    have address := address_of_getValue value
    rw [same, address_of_getValue otherValue] at address
    simp only [getElem_zipIdx, ite_none_left_eq_some, Option.some.injEq, Nat.zero_add,
      Nat.shiftLeft_eq, mem_range'_1, pageWordsLogSize] at started followed inPage inNext
    omega

end

variable {chunker after : SetupAndTeardownChunker}

/-- Skipping moves the iterator as populating does, except at a first chunk whose size divides the
number of records: there it does not move. -/
theorem skipNextChunk_eq (uneven : chunker.nextChunkIndex = 0 →
      chunker.touchedRamCellsCount % chunker.chunkSize ≠ 0) :
    chunker.step .skipNextChunk = chunker.step .populateNextChunk := by
  unfold step skipNextChunk populateNextChunk paddingSize
  by_cases inside : chunker.nextChunkIndex < chunker.getChunksCount
  · simp only [inside, if_true, and_self, Option.map_map]
    congr 2
    split_ifs with first
    · have size : 0 < chunker.chunkSize := by
        apply Nat.pos_of_ne_zero
        intro zero
        simp [getChunksCount, zero] at inside
      have remainder := Nat.mod_lt chunker.touchedRamCellsCount size
      have whole := Nat.div_add_mod' chunker.touchedRamCellsCount chunker.chunkSize
      have nonzero := uneven first
      have count : chunker.getChunksCount =
          chunker.touchedRamCellsCount / chunker.chunkSize + 1 := by
        apply Nat.div_eq_of_lt_le <;> simp only [Nat.add_mul, Nat.one_mul] <;> omega
      rw [count, Nat.add_mul, Nat.one_mul]
      omega
    · rfl
  · simp [inside]

theorem of_step {call : Call} (stepped : chunker.step call = some after) :
    after.nextChunkIndex = chunker.nextChunkIndex + 1 ∧
      after.getChunksCount = chunker.getChunksCount := by
  cases call <;> simp only [step, populateNextChunk, skipNextChunk, advance] at stepped <;>
    split_ifs at stepped <;> simp at stepped <;> rw [← stepped] <;> exact ⟨rfl, rfl⟩

theorem contentAfter_cons (call : Call) (calls : List Call) :
    chunker.contentAfter (call :: calls) =
      (chunker.step call).bind fun after => after.contentAfter calls := by
  rw [contentAfter, foldlM_cons, bind_eq_bind, bind_assoc]
  rfl

theorem contentAfter_eq_none (past : chunker.getChunksCount ≤ chunker.nextChunkIndex)
    (calls : List Call) : chunker.contentAfter calls = none := by
  have refused := Nat.not_lt_of_le past
  cases calls with
  | nil => simp [contentAfter, populateNextChunk, refused]
  | cons call calls =>
    cases call <;> simp [contentAfter, step, populateNextChunk, skipNextChunk, refused]

theorem foldlM_step_eq {calls : List Call} (uneven : chunker.nextChunkIndex = 0 →
      chunker.touchedRamCellsCount % chunker.chunkSize ≠ 0) :
    calls.foldlM step chunker =
      (List.replicate calls.length .populateNextChunk).foldlM step chunker := by
  induction calls generalizing chunker with
  | nil => rfl
  | cons call calls ih =>
    have same : chunker.step call = chunker.step .populateNextChunk := by
      cases call with
      | populateNextChunk => rfl
      | skipNextChunk => exact skipNextChunk_eq uneven
    rw [length_cons, replicate_succ, foldlM_cons, foldlM_cons, same]
    cases stepped : chunker.step .populateNextChunk with
    | none => rfl
    | some after =>
      have index := (of_step stepped).1
      exact ih fun first => by omega

theorem contentAfter_eq_none_of_length {calls : List Call}
    (past : chunker.getChunksCount ≤ chunker.nextChunkIndex + calls.length) :
    chunker.contentAfter calls = none := by
  induction calls generalizing chunker with
  | nil => exact contentAfter_eq_none past []
  | cons call calls ih =>
    rw [contentAfter_cons, bind_eq_none_iff]
    intro after stepped
    obtain ⟨index, count⟩ := of_step stepped
    exact ih (by rw [index, count]; rw [length_cons] at past; omega)

/-- After the first chunk, calls of both kinds take as many records as a chunk has. -/
theorem step_later {call : Call} (later : chunker.nextChunkIndex ≠ 0)
    (inside : chunker.nextChunkIndex < chunker.getChunksCount)
    (enough : chunker.chunkSize ≤ chunker.iterator.length) :
    chunker.step call = some { chunker with
      nextChunkIndex := chunker.nextChunkIndex + 1
      iterator := chunker.iterator.drop chunker.chunkSize } := by
  have populates : chunker.step .populateNextChunk = some { chunker with
      nextChunkIndex := chunker.nextChunkIndex + 1
      iterator := chunker.iterator.drop chunker.chunkSize } := by
    simp [step, populateNextChunk, advance, paddingSize, later, inside, enough]
  cases call with
  | populateNextChunk => exact populates
  | skipNextChunk => exact (skipNextChunk_eq fun first => absurd first later).trans populates

theorem contentAfter_later {calls : List Call} (later : chunker.nextChunkIndex ≠ 0)
    (inside : chunker.nextChunkIndex + calls.length < chunker.getChunksCount)
    (enough : (calls.length + 1) * chunker.chunkSize ≤ chunker.iterator.length) :
    chunker.contentAfter calls =
      some ((chunker.iterator.drop (calls.length * chunker.chunkSize)).take
        chunker.chunkSize) := by
  induction calls generalizing chunker with
  | nil =>
    rw [length_nil, Nat.zero_add, Nat.one_mul] at enough
    rw [length_nil, Nat.add_zero] at inside
    simp [contentAfter, populateNextChunk, advance, paddingSize, later, inside, enough]
  | cons call calls ih =>
    rw [length_cons, Nat.add_mul, Nat.one_mul] at enough
    rw [length_cons] at inside
    rw [contentAfter_cons, step_later later (by omega) (by omega), bind_some, ih]
    · rw [drop_drop, length_cons, Nat.add_mul, Nat.one_mul, Nat.add_comm chunker.chunkSize]
    · exact Nat.succ_ne_zero _
    · change chunker.nextChunkIndex + 1 + calls.length < chunker.getChunksCount
      omega
    · change (calls.length + 1) * chunker.chunkSize ≤
        (chunker.iterator.drop chunker.chunkSize).length
      rw [length_drop]
      omega

theorem contentAfter_cons_eq {call : Call} {calls : List Call}
    (first : chunker.step call = chunker.step .populateNextChunk) :
    chunker.contentAfter (call :: calls) = chunker.contentAfter
      (.populateNextChunk :: List.replicate calls.length .populateNextChunk) := by
  rw [contentAfter_cons, contentAfter_cons, first]
  refine Option.bind_congr fun after stepped => ?_
  have later : after.nextChunkIndex ≠ 0 := by
    rw [(of_step stepped).1]
    exact Nat.succ_ne_zero _
  rw [contentAfter, foldlM_step_eq fun zero => absurd zero later]
  rfl

theorem getChunksCount_whole {count : ℕ} (size : 0 < chunker.chunkSize)
    (whole : chunker.touchedRamCellsCount = count * chunker.chunkSize) :
    chunker.getChunksCount = count := by
  rw [getChunksCount, whole]
  apply Nat.div_eq_of_lt_le
  · omega
  · rw [Nat.add_mul]
    omega

/-- What the calls of a sequence populate is what they would populate if there were no skips. -/
def SameContents (chunker : SetupAndTeardownChunker) (calls : List Call) : Prop :=
  ∀ index, calls[index]? = some .populateNextChunk →
    chunker.contentAfter (calls.take index) =
      chunker.contentAfter (List.replicate index .populateNextChunk)

/-- A skipped first chunk takes no records if the size of chunks divides their number, and the
chunks behind it get what belongs to the one before them. -/
theorem contentAfter_skip_ne {records : Records} {count chunkSize : ℕ} (calls : List Call)
    (size : 0 < chunkSize) (inside : calls.length + 1 < count)
    (length : records.length = count * chunkSize) (distinct : records.Nodup) :
    contentAfter ⟨count * chunkSize, chunkSize, 0, records⟩ (.skipNextChunk :: calls) ≠
      contentAfter ⟨count * chunkSize, chunkSize, 0, records⟩
        (.populateNextChunk :: List.replicate calls.length .populateNextChunk) := by
  have chunks (index : ℕ) (rest : Records) :
      getChunksCount ⟨count * chunkSize, chunkSize, index, rest⟩ = count :=
    getChunksCount_whole size rfl
  have long : (calls.length + 2) * chunkSize ≤ count * chunkSize :=
    Nat.mul_le_mul_right chunkSize inside
  rw [Nat.add_mul] at long
  have populates : step ⟨count * chunkSize, chunkSize, 0, records⟩ .populateNextChunk =
      some ⟨count * chunkSize, chunkSize, 1, records.drop chunkSize⟩ := by
    simp [step, populateNextChunk, chunks, advance, paddingSize, show 0 < count by omega,
      show chunkSize ≤ records.length by omega]
  have skips : step ⟨count * chunkSize, chunkSize, 0, records⟩ .skipNextChunk =
      some ⟨count * chunkSize, chunkSize, 1, records⟩ := by
    simp [step, skipNextChunk, chunks, advance, show 0 < count by omega]
  have content (rest : Records) (others : List Call) (same : others.length = calls.length)
      (enough : (calls.length + 1) * chunkSize ≤ rest.length) :
      contentAfter ⟨count * chunkSize, chunkSize, 1, rest⟩ others =
        some ((rest.drop (calls.length * chunkSize)).take chunkSize) := by
    rw [contentAfter_later one_ne_zero]
    · rw [same]
    · rw [chunks, same]
      change 1 + calls.length < count
      omega
    · rw [same]
      exact enough
  intro equal
  rw [contentAfter_cons, contentAfter_cons, skips, populates, bind_some, bind_some,
    content records calls rfl (by rw [Nat.add_mul]; omega),
    content _ _ length_replicate (by rw [length_drop, Nat.add_mul]; omega), drop_drop,
    Nat.add_comm chunkSize, ← drop_drop] at equal
  have shifted := Option.some.inj equal
  have first : 0 < ((records.drop (calls.length * chunkSize)).take chunkSize).length := by
    rw [length_take, length_drop]
    omega
  obtain ⟨record, member⟩ := exists_mem_of_length_pos first
  exact disjoint_take_drop (distinct.sublist (drop_sublist _ _)) le_rfl member
    (mem_of_mem_take (shifted ▸ member))

/-- Skips do not change what a sequence of calls populates, unless the first chunk is skipped, a
later one populated, and the size of chunks divides the number of records. -/
theorem sameContents_iff (pages : List ℕ) (memory : ℕ → Word) (timestamps : ℕ → ℕ)
    (chunkSize : ℕ) (calls : List Call) (small : pages.length ≤ 2 ^ 20)
    (counted : pages.sum = (touchedRecords pages memory timestamps).length) :
    let chunker := createSetupAndTeardownChunker pages memory timestamps chunkSize
    chunker.SameContents calls ↔
      (calls.head? = some .skipNextChunk → pages.sum % chunkSize = 0 →
        ∀ index < chunker.getChunksCount, calls[index]? ≠ some .populateNextChunk) := by
  intro chunker
  constructor
  · intro same skipped divides index inside populated
    obtain ⟨calls, rfl⟩ : ∃ rest, calls = .skipNextChunk :: rest := by
      cases calls with
      | nil => cases skipped
      | cons call rest => exact ⟨rest, by rw [Option.some.inj skipped]⟩
    obtain ⟨count, whole⟩ := Nat.dvd_of_mod_eq_zero divides
    rw [Nat.mul_comm] at whole
    obtain ⟨before, rfl⟩ : ∃ before, index = before + 1 :=
      Nat.exists_eq_succ_of_ne_zero fun zero => by simp [zero] at populated
    have size : 0 < chunkSize := Nat.pos_of_ne_zero fun zero => by
      simp [getChunksCount, chunker, createSetupAndTeardownChunker, zero] at inside
    have chunks : chunker.getChunksCount = count := getChunksCount_whole size whole
    have length : (calls.take before).length = before := by
      rw [List.getElem?_cons_succ] at populated
      rw [length_take, Nat.min_eq_left (List.getElem?_eq_some_iff.mp populated).1.le]
    have differ := contentAfter_skip_ne (calls.take before) size
      (by rw [length, ← chunks]; exact inside) (counted.symm.trans whole)
      (nodup_touchedRecords pages memory timestamps small)
    rw [length, ← whole] at differ
    exact differ (same _ populated)
  · intro condition index populated
    by_cases past : chunker.getChunksCount ≤ index
    · have long : index < calls.length := (List.getElem?_eq_some_iff.mp populated).1
      rw [contentAfter_eq_none_of_length, contentAfter_eq_none_of_length]
      · rw [length_replicate]
        exact past.trans (Nat.le_add_left _ _)
      · rw [length_take, Nat.min_eq_left long.le]
        exact past.trans (Nat.le_add_left _ _)
    cases calls with
    | nil => cases populated
    | cons call calls =>
      cases index with
      | zero => rfl
      | succ index =>
        have first : chunker.step call = chunker.step .populateNextChunk := by
          cases call with
          | populateNextChunk => rfl
          | skipNextChunk =>
            refine skipNextChunk_eq fun _ divides => ?_
            exact condition rfl divides (index + 1) (Nat.lt_of_not_le past) populated
        have long : index < calls.length := by
          simpa using (List.getElem?_eq_some_iff.mp populated).1
        rw [take_succ_cons, replicate_succ, contentAfter_cons_eq first, length_take,
          Nat.min_eq_left long.le]

theorem sameContents_iff_populated_first :
    let chunker := createSetupAndTeardownChunker [6] (fun _ => 0) (fun index => 6 - index) 2
    chunker.SameContents [.populateNextChunk, .skipNextChunk, .populateNextChunk] :=
  (sameContents_iff [6] _ _ 2 _ (by decide) (by decide +kernel)).mpr (by decide)

theorem skipped_first_of_two_chunks :
    let chunker := createSetupAndTeardownChunker [4] (fun _ => 0) (fun index => 4 - index) 2
    ¬chunker.SameContents [.skipNextChunk, .populateNextChunk] := by
  intro chunker same
  have equal := same 1 rfl
  revert equal
  decide +kernel

end SetupAndTeardownChunker

end Airbender.Execution

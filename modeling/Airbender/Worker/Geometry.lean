import Mathlib

/-!
# How work is divided among cores

`worker/src/lib.rs`: every core gets a chunk of consecutive items, and iterators cut slices into
these chunks. All chunks but the last have the same size. Products of machine words wrap.
-/

namespace Airbender.Worker

open List Nat

structure WorkerGeometry where
  numChunks : ℕ
  ordinaryChunkSize : ℕ
  remainder : ℕ
deriving DecidableEq

namespace WorkerGeometry

variable (geometry : WorkerGeometry)

/-- For an index below the number of chunks, which the iterators check. -/
def getChunkSize (chunkIdx : ℕ) : ℕ :=
  if geometry.remainder = 0 then geometry.ordinaryChunkSize
  else if chunkIdx = geometry.numChunks - 1 then geometry.remainder
  else geometry.ordinaryChunkSize

def getChunkStartPos (chunkIdx : ℕ) : ℕ := geometry.ordinaryChunkSize * chunkIdx

def chunkSizes : List ℕ := (range geometry.numChunks).map geometry.getChunkSize

def sizesLeft (scale : ℕ) : ℕ → List ℕ
  | 0 => []
  | left + 1 =>
    geometry.getChunkSize (geometry.numChunks - (left + 1)) * scale :: sizesLeft scale left

/-- The iterators call `next` until the slice is empty, with `left` chunks left in the geometry.
They differ in how they cut a chunk off and in what they yield for it. -/
def chunksLoop {α β : Type} (scale : ℕ) (cut : List α → ℕ → β × List α) :
    ℕ → List α → Option (List β)
  | _, [] => some []
  | 0, _ :: _ => none
  | left + 1, item :: items =>
    let size := geometry.getChunkSize (geometry.numChunks - (left + 1)) * scale
    if size ≤ (item :: items).length then
      (chunksLoop scale cut left (cut (item :: items) size).2).map
        ((cut (item :: items) size).1 :: ·)
    else none

def splitFront {α : Type} (items : List α) (size : ℕ) : List α × List α :=
  (items.take size, items.drop size)

/-- A chunk with the item behind it, which is the first one behind the last chunk. -/
def splitWindow {α : Type} (first : α) (items : List α) (size : ℕ) : (List α × α) × List α :=
  ((items.take size, (items.drop size).headD first), items.drop size)

def splitBack {α : Type} (items : List α) (size : ℕ) : List α × List α :=
  (items.drop (items.length - size), items.take (items.length - size))

def chunksForGeometryWithScale {α : Type} (scale : ℕ) (items : List α) : Option (List (List α)) :=
  geometry.chunksLoop scale splitFront geometry.numChunks items

/-- The mutable iterator makes the same cuts. -/
def chunksForGeometryWithScaleMut {α : Type} (scale : ℕ) (items : List α) :
    Option (List (List α)) :=
  geometry.chunksLoop scale splitFront geometry.numChunks items

def chunksForGeometryWindows {α : Type} (scale : ℕ) : List α → Option (List (List α × α))
  | [] => none
  | first :: items =>
    geometry.chunksLoop scale (splitWindow first) geometry.numChunks (first :: items)

def chunksForGeometry {α : Type} (items : List α) : Option (List (List α)) :=
  geometry.chunksForGeometryWithScale 1 items

/-- The index starts at the last item of the slice, not at the last chunk, and goes up. -/
def chunksForGeometryRev {α : Type} (items : List α) : Option (List (List α)) :=
  geometry.chunksLoop 1 splitBack (geometry.numChunks - (items.length - 1)) items

variable {geometry} {α : Type} {scale left : ℕ} {items : List α}

@[simp] theorem chunksLoop_nil {β : Type} (cut : List α → ℕ → β × List α) :
    geometry.chunksLoop scale cut left [] = some [] := by
  cases left <;> rfl

theorem flatten_of_chunksLoop {chunks : List (List α)}
    (runs : geometry.chunksLoop scale splitFront left items = some chunks) :
    chunks.flatten = items := by
  fun_induction geometry.chunksLoop scale splitFront left items generalizing chunks with
  | case1 => cases runs; rfl
  | case2 => cases runs
  | case3 left item items size fits =>
    rename_i ih
    obtain ⟨tail, rest, rfl⟩ := Option.map_eq_some_iff.mp runs
    rw [flatten_cons, ih rest]
    exact take_append_drop size _
  | case4 => cases runs

theorem length_of_chunksLoop {cut : List α → ℕ → List α × List α}
    (cuts : ∀ items size, size ≤ items.length → (cut items size).1.length = size)
    {chunks : List (List α)} (runs : geometry.chunksLoop scale cut left items = some chunks) :
    chunks.map length <+: geometry.sizesLeft scale left := by
  fun_induction geometry.chunksLoop scale cut left items generalizing chunks with
  | case1 => cases runs; exact nil_prefix
  | case2 => cases runs
  | case3 left item items size fits =>
    rename_i ih
    obtain ⟨tail, rest, rfl⟩ := Option.map_eq_some_iff.mp runs
    rw [map_cons, cuts _ _ fits, sizesLeft, cons_prefix_cons]
    exact ⟨rfl, ih rest⟩
  | case4 => cases runs

theorem splitFront_length (items : List α) (size : ℕ) (fits : size ≤ items.length) :
    (splitFront items size).1.length = size := by
  rw [splitFront, length_take_of_le fits]

theorem splitBack_length (items : List α) (size : ℕ) (fits : size ≤ items.length) :
    (splitBack items size).1.length = size := by
  rw [splitBack, length_drop, Nat.sub_sub_self fits]

theorem chunksLoop_some (positive : ∀ size ∈ geometry.sizesLeft scale left, 0 < size)
    (sum : (geometry.sizesLeft scale left).sum = items.length) :
    ∃ chunks, geometry.chunksLoop scale splitFront left items = some chunks ∧
      chunks.map length = geometry.sizesLeft scale left := by
  induction left generalizing items with
  | zero =>
    cases length_eq_zero_iff.mp sum.symm
    exact ⟨[], rfl, rfl⟩
  | succ left ih =>
    rw [sizesLeft] at positive sum ⊢
    have first := positive _ mem_cons_self
    rw [sum_cons] at sum
    cases items with
    | nil =>
      rw [length_nil] at sum
      omega
    | cons item items =>
      have fits : geometry.getChunkSize (geometry.numChunks - (left + 1)) * scale ≤
          (item :: items).length := by omega
      have restLength : (geometry.sizesLeft scale left).sum = (splitFront (item :: items)
          (geometry.getChunkSize (geometry.numChunks - (left + 1)) * scale)).2.length := by
        rw [splitFront, length_drop]
        omega
      obtain ⟨tail, runs, lengths⟩ :=
        ih (fun later member => positive later (.tail _ member)) restLength
      apply Exists.intro
      constructor
      · rw [chunksLoop, if_pos fits]
        exact congrArg (Option.map _) runs
      · rw [map_cons, splitFront_length _ _ fits, lengths]

theorem windows_eq (geometry : WorkerGeometry) (scale left : ℕ) (first : α) (items : List α) :
    (geometry.chunksLoop scale (splitWindow first) left items).map (map Prod.fst) =
      geometry.chunksLoop scale splitFront left items := by
  fun_induction geometry.chunksLoop scale splitFront left items with
  | case1 => simp
  | case2 => rfl
  | case3 left item items size fits =>
    rename_i ih
    rw [chunksLoop, if_pos fits, ← ih, Option.map_map, Option.map_map]
    rfl
  | case4 left item items size fits => rw [chunksLoop, if_neg fits]; rfl

theorem sizesLeft_eq {left : ℕ} (bound : left ≤ geometry.numChunks) :
    geometry.sizesLeft scale left =
      (range' (geometry.numChunks - left) left).map fun idx =>
        geometry.getChunkSize idx * scale := by
  induction left with
  | zero => rfl
  | succ left ih =>
    have next : geometry.numChunks - (left + 1) + 1 = geometry.numChunks - left := by omega
    rw [sizesLeft, ih (by omega), range'_succ, map_cons, next]

theorem sizesLeft_all : geometry.sizesLeft scale geometry.numChunks =
    geometry.chunkSizes.map (· * scale) := by
  rw [sizesLeft_eq le_rfl, Nat.sub_self, ← range_eq_range', chunkSizes, map_map]
  rfl

theorem getChunkSize_ordinary {idx : ℕ} (before : idx + 1 < geometry.numChunks) :
    geometry.getChunkSize idx = geometry.ordinaryChunkSize := by
  rw [getChunkSize, if_neg (by omega : idx ≠ geometry.numChunks - 1), ite_self]

theorem sum_chunkSizes (nonempty : 0 < geometry.numChunks) : geometry.chunkSizes.sum =
    (geometry.numChunks - 1) * geometry.ordinaryChunkSize +
      geometry.getChunkSize (geometry.numChunks - 1) := by
  obtain ⟨count, counted⟩ := exists_eq_succ_of_ne_zero nonempty.ne'
  have ordinary : ∀ idx ∈ range count, geometry.getChunkSize idx = geometry.ordinaryChunkSize := by
    intro idx before
    rw [mem_range] at before
    exact getChunkSize_ordinary (by omega)
  rw [chunkSizes, counted, range_succ, map_append, sum_append_nat, map_congr_left ordinary,
    map_const', length_range, sum_replicate_nat]
  simp

end WorkerGeometry

def nextPowerOfTwo (value : ℕ) : ℕ := 2 ^ Nat.clog 2 value

/-- A size close to a power of two becomes that power. -/
def roundedChunkSize (ordinary : ℕ) : ℕ :=
  if nextPowerOfTwo ordinary - ordinary < 32 then nextPowerOfTwo ordinary else ordinary

def usizeModulus : ℕ := 2 ^ 64

/-- The items of all chunks but the last when the size is rounded. -/
def roundedMainPart (numChunks workSize : ℕ) : ℕ :=
  (numChunks - 1) * roundedChunkSize (workSize / numChunks)

def initialGeometry (numChunks workSize : ℕ) : Option WorkerGeometry :=
  if numChunks = 0 then none
  else if workSize % numChunks = 0 then some ⟨numChunks, workSize / numChunks, 0⟩
  else if numChunks ≤ 1 then none
  else
    let mainPart := roundedMainPart numChunks workSize % usizeModulus
    if mainPart < workSize then
      some ⟨numChunks, roundedChunkSize (workSize / numChunks), workSize - mainPart⟩
    else
      let ordinary :=
        if workSize % (numChunks - 1) ≠ 0 then workSize / (numChunks - 1) else workSize / numChunks
      let mainPart := (numChunks - 1) * ordinary
      if mainPart < workSize then some ⟨numChunks, ordinary, workSize - mainPart⟩ else none

def getGeometryForNumCores (numCores workSize : ℕ) : Option WorkerGeometry := do
  let result ← initialGeometry (min numCores workSize) workSize
  if result.ordinaryChunkSize < result.remainder ∧ numCores - 1 < result.remainder then
    let remainder := result.remainder - (numCores - 1)
    guard (remainder < result.ordinaryChunkSize + 1)
    some ⟨result.numChunks, result.ordinaryChunkSize + 1, remainder⟩
  else some result

/-- The product that is compared with the work does not wrap to a smaller one. -/
def MainPartFits (numChunks workSize : ℕ) : Prop :=
  workSize % numChunks ≠ 0 → roundedMainPart numChunks workSize % usizeModulus < workSize →
    roundedMainPart numChunks workSize < usizeModulus

theorem le_roundedChunkSize (ordinary : ℕ) : ordinary ≤ roundedChunkSize ordinary := by
  rw [roundedChunkSize]
  split
  · exact le_pow_clog Nat.one_lt_two ordinary
  · exact le_rfl

theorem one_lt_of_mod_ne_zero {numChunks workSize : ℕ} (some_chunks : 0 < numChunks)
    (rest : workSize % numChunks ≠ 0) : 1 < numChunks := by
  have : numChunks ≠ 1 := fun one => rest (by rw [one, mod_one])
  omega

theorem initialGeometry_rounded {numChunks workSize : ℕ} (some_chunks : 0 < numChunks)
    (rest : workSize % numChunks ≠ 0)
    (small : roundedMainPart numChunks workSize % usizeModulus < workSize) :
    initialGeometry numChunks workSize = some ⟨numChunks, roundedChunkSize (workSize / numChunks),
      workSize - roundedMainPart numChunks workSize % usizeModulus⟩ := by
  have many := one_lt_of_mod_ne_zero some_chunks rest
  rw [initialGeometry, if_neg some_chunks.ne', if_neg rest, if_neg (by omega), if_pos small]

/-- The chunks make up the work, and the last one is at most so much larger than the others that
every other chunk could take one item of it. -/
theorem initialGeometry_spec {numChunks workSize : ℕ} (some_chunks : 0 < numChunks)
    (work : numChunks ≤ workSize) (fits : MainPartFits numChunks workSize) :
    ∃ ordinary remainder,
      initialGeometry numChunks workSize = some ⟨numChunks, ordinary, remainder⟩ ∧
      0 < ordinary ∧ remainder ≤ ordinary + (numChunks - 1) ∧
      (numChunks - 1) * ordinary + (if remainder = 0 then ordinary else remainder) = workSize := by
  have divided := div_add_mod workSize numChunks
  have positive : 0 < workSize / numChunks := Nat.div_pos work some_chunks
  have below := mod_lt workSize some_chunks
  have product : ∀ size, numChunks * size = (numChunks - 1) * size + size := by
    intro size
    rw [← succ_mul, succ_eq_add_one, Nat.sub_add_cancel some_chunks]
  by_cases equal : workSize % numChunks = 0
  · rw [initialGeometry, if_neg some_chunks.ne', if_pos equal]
    refine ⟨_, _, rfl, positive, by omega, ?_⟩
    rw [if_pos rfl, ← product, Nat.mul_div_cancel' (dvd_of_mod_eq_zero equal)]
  have many := one_lt_of_mod_ne_zero some_chunks equal
  have grown := le_roundedChunkSize (workSize / numChunks)
  have whole := product (workSize / numChunks)
  by_cases small : roundedMainPart numChunks workSize % usizeModulus < workSize
  · have same := mod_eq_of_lt (fits equal small)
    rw [initialGeometry_rounded some_chunks equal small]
    rw [same, roundedMainPart] at small ⊢
    generalize roundedChunkSize (workSize / numChunks) = rounded at *
    refine ⟨_, _, rfl, by omega, ?_, ?_⟩
    · have more : (numChunks - 1) * (workSize / numChunks) ≤ (numChunks - 1) * rounded :=
        Nat.mul_le_mul_left _ grown
      omega
    · rw [if_neg (by omega)]
      omega
  · rw [initialGeometry, if_neg some_chunks.ne', if_neg equal, if_neg (by omega), if_neg small]
    split
    · have other := div_add_mod workSize (numChunks - 1)
      have less := mod_lt workSize (by omega : numChunks - 1 > 0)
      rw [if_pos (by omega)]
      have rest : workSize - (numChunks - 1) * (workSize / (numChunks - 1)) ≤ numChunks - 1 := by
        omega
      refine ⟨_, _, rfl, Nat.div_pos (by omega) (by omega), rest.trans (Nat.le_add_left _ _), ?_⟩
      rw [if_neg (by omega)]
      omega
    · rw [if_pos (by omega)]
      refine ⟨_, _, rfl, positive, by omega, ?_⟩
      rw [if_neg (by omega)]
      omega

namespace WorkerGeometry

/-- The geometry divides the work, and the forward iterators cut slices accordingly. -/
structure Partitions (geometry : WorkerGeometry) (numCores workSize : ℕ) : Prop where
  few : geometry.numChunks ≤ numCores
  consecutive : ∀ idx, idx + 1 < geometry.numChunks → geometry.getChunkStartPos (idx + 1) =
    geometry.getChunkStartPos idx + geometry.getChunkSize idx
  nonempty : ∀ idx < geometry.numChunks, 0 < geometry.getChunkSize idx
  total : geometry.chunkSizes.sum = workSize
  iterators : ∀ {α : Type} (scale : ℕ) (items : List α), 0 < scale →
    items.length = workSize * scale → ∃ chunks windows,
      geometry.chunksForGeometryWithScale scale items = some chunks ∧
      geometry.chunksForGeometryWithScaleMut scale items = some chunks ∧
      geometry.chunksForGeometryWindows scale items = some windows ∧
      windows.map Prod.fst = chunks ∧ chunks.flatten = items ∧
      chunks.map length = geometry.chunkSizes.map (· * scale)

variable {geometry : WorkerGeometry} {numCores workSize : ℕ}

theorem partitions_of_total (work : 0 < workSize) (few : geometry.numChunks ≤ numCores)
    (ordinary : 0 < geometry.ordinaryChunkSize) (total : geometry.chunkSizes.sum = workSize) :
    geometry.Partitions numCores workSize := by
  have nonempty : ∀ idx < geometry.numChunks, 0 < geometry.getChunkSize idx := by
    intro idx _
    rw [getChunkSize]
    split_ifs <;> omega
  refine ⟨few, ?_, nonempty, total, ?_⟩
  · intro idx before
    rw [getChunkStartPos, getChunkStartPos, mul_succ, getChunkSize_ordinary before]
  intro α scale items positive length
  have cut : ∃ chunks, geometry.chunksForGeometryWithScale scale items = some chunks ∧
      chunks.map List.length = geometry.sizesLeft scale geometry.numChunks := by
    apply chunksLoop_some
    · rw [sizesLeft_all]
      intro size member
      obtain ⟨chunk, among, rfl⟩ := mem_map.mp member
      obtain ⟨idx, inside, rfl⟩ := mem_map.mp among
      exact Nat.mul_pos (nonempty idx (mem_range.mp inside)) positive
    · rw [sizesLeft_all, length, ← total]
      exact (sum_map_mul_right geometry.chunkSizes id scale).trans (by rw [map_id])
  obtain ⟨chunks, runs, lengths⟩ := cut
  rw [sizesLeft_all] at lengths
  cases items with
  | nil => exact absurd length (Nat.mul_pos work positive).ne
  | cons first rest =>
    have same := windows_eq geometry scale geometry.numChunks first (first :: rest)
    rw [show geometry.chunksLoop scale _ _ _ = some chunks from runs] at same
    obtain ⟨windows, found, firsts⟩ := Option.map_eq_some_iff.mp same
    exact ⟨chunks, windows, runs, runs, found, firsts, flatten_of_chunksLoop runs, lengths⟩

end WorkerGeometry

theorem getGeometryForNumCores_eq {numCores workSize numChunks ordinary remainder : ℕ}
    (some_chunks : 0 < numChunks) (all_cores : remainder ≠ 0 → numChunks = numCores)
    (initial : initialGeometry (min numCores workSize) workSize =
      some ⟨numChunks, ordinary, remainder⟩) :
    (remainder ≤ ordinary + (numCores - 1) →
      (getGeometryForNumCores numCores workSize).isSome) ∧
    ∀ geometry, getGeometryForNumCores numCores workSize = some geometry →
      geometry.numChunks = numChunks ∧ ordinary ≤ geometry.ordinaryChunkSize ∧
      geometry.chunkSizes.sum =
        (numChunks - 1) * ordinary + if remainder = 0 then ordinary else remainder := by
  rw [getGeometryForNumCores, initial, Option.bind_eq_bind, Option.bind_some]
  dsimp only
  split
  · rename_i greater
    have moved := all_cores (by omega)
    constructor
    · intro bound
      rw [guard, if_pos (by omega)]
      rfl
    · intro geometry found
      obtain ⟨-, -, same⟩ := Option.bind_eq_some_iff.mp found
      cases same
      refine ⟨rfl, le_succ _, ?_⟩
      rw [WorkerGeometry.sum_chunkSizes some_chunks, WorkerGeometry.getChunkSize]
      dsimp only
      rw [if_neg (by omega), if_pos rfl, if_neg (by omega), mul_succ]
      omega
  · constructor
    · intro _
      rfl
    · intro geometry found
      cases found
      refine ⟨rfl, le_rfl, ?_⟩
      rw [WorkerGeometry.sum_chunkSizes some_chunks, WorkerGeometry.getChunkSize]
      simp

/-- There is a partition for every number of cores but zero, unless the product with the rounded
size wraps to less than the work. -/
theorem geometry_partitions_iff (numCores workSize : ℕ) (work : 0 < workSize) :
    (∃ geometry, getGeometryForNumCores numCores workSize = some geometry ∧
      geometry.Partitions numCores workSize) ↔
      0 < numCores ∧ MainPartFits (min numCores workSize) workSize := by
  by_cases cores : numCores = 0
  · simp [cores, getGeometryForNumCores, initialGeometry]
  have some_chunks : 0 < min numCores workSize := by omega
  -- with fewer items than cores every chunk is one item, and nothing is left over
  have all_cores : workSize % min numCores workSize ≠ 0 → min numCores workSize = numCores := by
    intro rest
    rcases Nat.le_total numCores workSize with fits | few
    · exact Nat.min_eq_left fits
    · rw [Nat.min_eq_right few, mod_self] at rest
      exact absurd rfl rest
  constructor
  · intro ⟨geometry, found, partitions⟩
    apply And.intro (Nat.pos_of_ne_zero cores)
    intro rest small
    have initial := initialGeometry_rounded some_chunks rest small
    have result := (getGeometryForNumCores_eq some_chunks (fun _ => all_cores rest) initial).2
      geometry found
    have total := result.2.2.symm.trans partitions.total
    rw [if_neg (by omega)] at total
    have same : roundedMainPart (min numCores workSize) workSize =
      roundedMainPart (min numCores workSize) workSize % usizeModulus := by
      rw [roundedMainPart] at *
      omega
    rw [same]
    exact mod_lt _ (Nat.two_pow_pos 64)
  · intro ⟨_, fits⟩
    obtain ⟨ordinary, remainder, initial, positive, bound, total⟩ :=
      initialGeometry_spec some_chunks (Nat.min_le_right _ _) fits
    have whole : remainder ≠ 0 → min numCores workSize = numCores := by
      intro rest
      apply all_cores
      intro equal
      rw [initialGeometry, if_neg some_chunks.ne', if_pos equal] at initial
      cases initial
      exact rest rfl
    have result := getGeometryForNumCores_eq some_chunks whole initial
    obtain ⟨geometry, found⟩ := Option.isSome_iff_exists.mp (result.1 (by omega))
    obtain ⟨chunks, larger, sum⟩ := result.2 geometry found
    apply Exists.intro geometry
    apply And.intro found
    exact WorkerGeometry.partitions_of_total work (chunks ▸ Nat.min_le_left _ _)
      (positive.trans_le larger) (sum.trans total)

/-- Ten items for three cores. -/
theorem geometry_partitions_ten : ∃ geometry, getGeometryForNumCores 3 10 = some geometry ∧
    geometry.Partitions 3 10 :=
  (geometry_partitions_iff 3 10 (by decide)).mpr ⟨by decide, fun _ _ => by decide⟩

/-- The number of chunks is zero without cores. With more than `2^34` cores the product wraps to
zero, and the last assertion fails. -/
theorem geometry_fails : getGeometryForNumCores 0 1 = none ∧
    getGeometryForNumCores (2 ^ 34 + 1) (2 ^ 64 - 1) = none := by
  decide

end Airbender.Worker

import Mathlib

/-!
# The transpose with digit-reversed columns

`fft/src/grinded_fft/utils.rs`: the columns of a matrix become rows, in the order in which the
digits to base `D` of their numbers are reversed. Positions are accessed unchecked, and an access
out of bounds has no outcome here.
-/

namespace Airbender.Fft

set_option autoImplicit false

open List

/-- Writes values one after the other, where a value that could not be read has no outcome. -/
def writeCells {α : Type} (output : List α) : List (ℕ × Option α) → Option (List α)
  | [] => some output
  | (target, value) :: rest => do
    let temp ← value
    guard (target < output.length)
    writeCells (output.set target temp) rest

/-- Distinct positions hold what was written to them, and the others keep what they held. -/
theorem writeCells_spec {α : Type} (cells : List (ℕ × Option α)) (output : List α)
    (distinct : (cells.map Prod.fst).Nodup)
    (readable : ∀ cell ∈ cells, cell.1 < output.length ∧ cell.2.isSome) :
    ∃ written, writeCells output cells = some written ∧ written.length = output.length ∧
      (∀ cell ∈ cells, written[cell.1]? = cell.2) ∧
      ∀ position, position ∉ cells.map Prod.fst → written[position]? = output[position]? := by
  induction cells generalizing output with
  | nil => exact ⟨output, rfl, rfl, by simp, fun _ _ => rfl⟩
  | cons cell rest ih =>
    have fresh := nodup_cons.mp distinct
    have first := readable cell mem_cons_self
    obtain ⟨value, held⟩ := Option.isSome_iff_exists.mp first.2
    obtain ⟨written, runs, sameLength, cells', others⟩ := ih (output.set cell.1 value) fresh.2
      (by
        intro later member
        rw [length_set]
        exact readable later (mem_cons_of_mem _ member))
    have here : written[cell.1]? = cell.2 := by
      rw [others cell.1 fresh.1, getElem?_set_self first.1, held]
    apply Exists.intro written
    constructor
    · rw [writeCells, held]
      simp only [Option.bind_eq_bind, Option.bind_some, guard, first.1, if_true]
      exact runs
    constructor
    · rw [sameLength, length_set]
    constructor
    · intro later member
      cases mem_cons.mp member with
      | inl same => rw [same, here]
      | inr member => exact cells' later member
    · intro position absent
      rw [map_cons, mem_cons, not_or] at absent
      rw [others position absent.2, getElem?_set_ne (Ne.symm absent.1)]

/-- Copies `input` to `output` along pairs of an input and an output position. -/
def copyCells {α : Type} (pairs : List (ℕ × ℕ)) (input output : List α) : Option (List α) :=
  writeCells output (pairs.map fun pair => (pair.2, input[pair.1]?))

/-- Every position is read once and written once. -/
structure Reindexes (pairs : List (ℕ × ℕ)) (size : ℕ) : Prop where
  reads : pairs.map Prod.fst ~ range size
  writes : pairs.map Prod.snd ~ range size

namespace Reindexes

variable {pairs : List (ℕ × ℕ)} {size : ℕ} (reindexes : Reindexes pairs size)

include reindexes

theorem swap : Reindexes (pairs.map Prod.swap) size := by
  constructor
  · rw [map_map]
    exact reindexes.writes
  · rw [map_map]
    exact reindexes.reads

theorem read_lt {pair : ℕ × ℕ} (member : pair ∈ pairs) : pair.1 < size :=
  mem_range.mp (reindexes.reads.subset (mem_map_of_mem member))

theorem writeCells_some {α : Type} (value : ℕ → Option α) {output : List α}
    (readable : ∀ position < size, (value position).isSome) (length : output.length = size) :
    ∃ written, writeCells output (pairs.map fun pair => (pair.2, value pair.1)) = some written ∧
      written.length = size ∧ ∀ pair ∈ pairs, written[pair.2]? = value pair.1 := by
  have targets : (pairs.map fun pair => (pair.2, value pair.1)).map Prod.fst = pairs.map Prod.snd :=
    map_map
  obtain ⟨written, runs, sameLength, cells, -⟩ := writeCells_spec
    (pairs.map fun pair => (pair.2, value pair.1)) output
    (by
      rw [targets]
      exact reindexes.writes.nodup_iff.mpr nodup_range)
    (by
      intro cell member
      obtain ⟨pair, among, rfl⟩ := mem_map.mp member
      rw [length]
      exact ⟨reindexes.swap.read_lt (mem_map_of_mem among), readable _ (reindexes.read_lt among)⟩)
  exact ⟨written, runs, sameLength.trans length, fun pair member => cells _ (mem_map_of_mem member)⟩

variable {α : Type} {input output spare : List α} (inputLength : input.length = size)
  (outputLength : output.length = size)

include inputLength outputLength

theorem copyCells_some : ∃ written, copyCells pairs input output = some written ∧
    written.length = size ∧ ∀ pair ∈ pairs, written[pair.2]? = input[pair.1]? := by
  apply reindexes.writeCells_some _ _ outputLength
  intro position bound
  rw [getElem?_eq_getElem (inputLength ▸ bound)]
  rfl

/-- Copying back along the same pairs restores the input. -/
theorem copyCells_swap (spareLength : spare.length = size) {written : List α}
    (runs : copyCells pairs input output = some written) :
    copyCells (pairs.map Prod.swap) written spare = some input := by
  obtain ⟨written', runs', length, cells⟩ := reindexes.copyCells_some inputLength outputLength
  rw [runs, Option.some_inj] at runs'
  subst runs'
  obtain ⟨restored, back, restoredLength, held⟩ := reindexes.swap.copyCells_some length spareLength
  rw [back, Option.some_inj]
  apply ext_getElem?
  intro position
  by_cases bound : position < size
  · obtain ⟨pair, member, rfl⟩ := mem_map.mp (reindexes.reads.mem_iff.mpr (mem_range.mpr bound))
    exact (held _ (mem_map_of_mem member)).trans (cells pair member)
  · rw [getElem?_eq_none (by omega), getElem?_eq_none (by omega)]

end Reindexes

/-- The loop of `reverse_bits`: the digits to base `d` move from `value` to `result`. -/
def reverseLoop (d : ℕ) : ℕ → ℕ → ℕ → ℕ
  | 0, _, result => result
  | digits + 1, value, result => reverseLoop d digits (value / d) (result * d + value % d)

def reverseBits (d value revDigits : ℕ) : ℕ := reverseLoop d revDigits value 0

theorem reverseLoop_eq (d digits value result : ℕ) :
    reverseLoop d digits value result = result * d ^ digits + reverseBits d value digits := by
  induction digits generalizing value result with
  | zero => simp [reverseLoop, reverseBits]
  | succ digits ih =>
    rw [reverseBits, reverseLoop, reverseLoop, ih, ih (value / d) (0 * d + value % d)]
    ring

theorem reverseBits_succ (d value digits : ℕ) :
    reverseBits d value (digits + 1) =
      d ^ digits * (value % d) + reverseBits d (value / d) digits := by
  rw [reverseBits, reverseLoop, reverseLoop_eq, Nat.zero_mul, Nat.zero_add, Nat.mul_comm]

section

variable {d : ℕ} (base : 1 < d)

include base

theorem reverseBits_lt (value digits : ℕ) : reverseBits d value digits < d ^ digits := by
  induction digits generalizing value with
  | zero => exact Nat.one_pos
  | succ digits ih =>
    have rest := ih (value / d)
    have digit : value % d + 1 ≤ d := Nat.mod_lt value (by omega)
    rw [reverseBits_succ, pow_succ]
    nlinarith

theorem reverseBits_inj {digits left right : ℕ} (leftBound : left < d ^ digits)
    (rightBound : right < d ^ digits)
    (same : reverseBits d left digits = reverseBits d right digits) : left = right := by
  induction digits generalizing left right with
  | zero =>
    rw [pow_zero] at leftBound rightBound
    omega
  | succ digits ih =>
    rw [reverseBits_succ, reverseBits_succ] at same
    have positive : 0 < d ^ digits := Nat.pow_pos (by omega)
    have digit := congrArg (· / d ^ digits) same
    have rest := congrArg (· % d ^ digits) same
    simp only [Nat.mul_add_div positive, Nat.mul_add_mod,
      Nat.div_eq_of_lt (reverseBits_lt base _ digits),
      Nat.mod_eq_of_lt (reverseBits_lt base _ digits), Nat.add_zero] at digit rest
    have quotient := ih (Nat.div_lt_of_lt_mul (pow_succ' d digits ▸ leftBound))
      (Nat.div_lt_of_lt_mul (pow_succ' d digits ▸ rightBound)) rest
    rw [← Nat.div_add_mod left d, ← Nat.div_add_mod right d, quotient, digit]

end

/-- `usize::trailing_zeros`. -/
def trailingZeros (value : ℕ) : ℕ := if value = 0 then 64 else padicValNat 2 value

theorem trailingZeros_two_pow (bits : ℕ) : trailingZeros (2 ^ bits) = bits := by
  rw [trailingZeros, if_neg (Nat.two_pow_pos bits).ne', padicValNat.prime_pow]

/-- The input and output positions in the order of the loops, with the columns `d * x + i`. -/
def visits (d height width revDigits : ℕ) : List (ℕ × ℕ) :=
  (range (width / d) ×ˢ range height ×ˢ range d).map fun (x, y, i) =>
    (d * x + i + y * width, y + reverseBits d (d * x + i) revDigits * height)

/-- The assertions and the number of digits that the three functions share. -/
def transposeVisits (d height size : ℕ) : Option (List (ℕ × ℕ)) := do
  guard (height ≠ 0)
  let width := size / height
  guard (1 < d ∧ size % height = 0)
  guard (d.isPowerOfTwo)
  let widthBits := trailingZeros width
  let dBits := trailingZeros d
  guard (widthBits % dBits = 0)
  let revDigits := widthBits / dBits
  guard (∀ column < d * (width / d), reverseBits d column revDigits < width)
  some (visits d height width revDigits)

def bitreversedTranspose {α : Type} (d height : ℕ) (input output : List α) : Option (List α) := do
  guard (input.length = output.length)
  copyCells (← transposeVisits d height input.length) input output

def bitreversedTransposeMirrored {α : Type} (d height : ℕ) (input output : List α) :
    Option (List α) := do
  guard (input.length = output.length)
  copyCells ((← transposeVisits d height input.length).map Prod.swap) input output

def createBitrversedTransposeLookup (d size height : ℕ) : Option (List ℕ) := do
  let pairs ← transposeVisits d height size
  writeCells (replicate size 0) (pairs.map fun pair => (pair.2, some pair.1))

theorem perm_range {positions : List ℕ} {size : ℕ} (distinct : positions.Nodup)
    (below : ∀ position ∈ positions, position < size) (length : positions.length = size) :
    positions ~ range size := by
  apply (distinct.subperm fun position member =>
    mem_range.mpr (below position member)).perm_of_length_le
  rw [length, length_range]

theorem place_eq {width low low' high high' : ℕ} (bound : low < width) (bound' : low' < width)
    (same : low + high * width = low' + high' * width) : low = low' ∧ high = high' := by
  have lows := congrArg (· % width) same
  have highs := congrArg (· / width) same
  simp only [Nat.add_mul_mod_self_right, Nat.mod_eq_of_lt bound, Nat.mod_eq_of_lt bound',
    Nat.add_mul_div_right _ _ (Nat.zero_lt_of_lt bound), Nat.div_eq_of_lt bound,
    Nat.div_eq_of_lt bound', Nat.zero_add] at lows highs
  exact ⟨lows, highs⟩

theorem place_lt {width height low high : ℕ} (lowBound : low < width) (highBound : high < height) :
    low + high * width < height * width := by
  nlinarith

section

variable {d height digits : ℕ} (positive : 1 ≤ digits)

include positive

/-- The loops visit every row of every column once. -/
theorem map_visits_perm (place : ℕ → ℕ → ℕ)
    (below : ∀ column < d ^ digits, ∀ y < height, place column y < height * d ^ digits)
    (injective : ∀ column < d ^ digits, ∀ column' < d ^ digits, ∀ y < height, ∀ y' < height,
      place column y = place column' y' → column = column' ∧ y = y') :
    ((range (d ^ digits / d) ×ˢ range height ×ˢ range d).map fun (x, y, i) =>
      place (d * x + i) y) ~ range (height * d ^ digits) := by
  have whole : d * (d ^ digits / d) = d ^ digits := Nat.mul_div_cancel' (dvd_pow_self d (by omega))
  have bounds : ∀ {x y i : ℕ}, (x, y, i) ∈ range (d ^ digits / d) ×ˢ range height ×ˢ range d →
      d * x + i < d ^ digits ∧ y < height ∧ i < d := by
    intro x y i member
    simp only [mem_product, mem_range] at member
    have inside : d * (x + 1) ≤ d * (d ^ digits / d) := Nat.mul_le_mul_left d member.1
    rw [whole, Nat.mul_succ] at inside
    exact ⟨by omega, member.2⟩
  apply perm_range
  · apply Nodup.map_on _ (nodup_range.product (nodup_range.product nodup_range))
    intro (x, y, i) member (x', y', i') member' same
    have here := bounds member
    have there := bounds member'
    have columns := injective _ here.1 _ there.1 y here.2.1 y' there.2.1 same
    have parts := place_eq here.2.2 there.2.2 (show i + x * d = i' + x' * d by linarith [columns.1])
    rw [parts.1, parts.2, columns.2]
  · intro position member
    obtain ⟨⟨x, y, i⟩, among, rfl⟩ := mem_map.mp member
    exact below _ (bounds among).1 y (bounds among).2.1
  · rw [length_map, length_product, length_product, length_range, length_range, length_range]
    calc d ^ digits / d * (height * d) = height * (d * (d ^ digits / d)) := by ring
      _ = height * d ^ digits := by rw [whole]

theorem visits_reindexes (base : 1 < d) :
    Reindexes (visits d height (d ^ digits) digits) (height * d ^ digits) := by
  constructor
  · rw [visits, map_map]
    apply map_visits_perm positive fun column y => column + y * d ^ digits
    · intro column bound y row
      exact place_lt bound row
    · intro column bound column' bound' y _ y' _ same
      exact place_eq bound bound' same
  · rw [visits, map_map]
    apply map_visits_perm positive fun column y => y + reverseBits d column digits * height
    · intro column _ y row
      rw [Nat.mul_comm height]
      exact place_lt row (reverseBits_lt base column digits)
    · intro column bound column' bound' y row y' row' same
      have parts := place_eq row row' same
      exact ⟨reverseBits_inj base bound bound' parts.2, parts.1⟩

end

theorem transposeVisits_eq {bits height : ℕ} (base : 1 ≤ bits) (rows : 1 ≤ height) (digits : ℕ) :
    transposeVisits (2 ^ bits) height (height * (2 ^ bits) ^ digits) =
      some (visits (2 ^ bits) height ((2 ^ bits) ^ digits) digits) := by
  have large : 1 < 2 ^ bits := Nat.one_lt_two_pow (by omega)
  have widthBits : trailingZeros ((2 ^ bits) ^ digits) = bits * digits := by
    rw [← pow_mul, trailingZeros_two_pow]
  have columns : ∀ column < 2 ^ bits * ((2 ^ bits) ^ digits / 2 ^ bits),
      reverseBits (2 ^ bits) column digits < (2 ^ bits) ^ digits :=
    fun column _ => reverseBits_lt large column digits
  simp only [transposeVisits, Nat.mul_div_cancel_left _ rows, widthBits, trailingZeros_two_pow,
    Nat.mul_mod_right, Nat.mul_div_cancel_left _ base, guard]
  rw [if_pos (Nat.ne_of_gt rows), if_pos ⟨large, trivial⟩, if_pos ⟨bits, rfl⟩, if_pos trivial,
    if_pos columns]
  rfl

/-- Every output position is written once and every input position read once, the mirrored
transpose is the inverse on both sides, and the lookup table holds for each output position the
input position that it is read from. -/
theorem bitreversed_transpose_bijective {α : Type} {bits height digits : ℕ} (base : 1 ≤ bits)
    (rows : 1 ≤ height) (positive : 1 ≤ digits) (input output spare : List α)
    (inputLength : input.length = height * (2 ^ bits) ^ digits)
    (outputLength : output.length = input.length) (spareLength : spare.length = input.length) :
    ∃ pairs, transposeVisits (2 ^ bits) height input.length = some pairs ∧
      pairs.map Prod.fst ~ range input.length ∧ pairs.map Prod.snd ~ range input.length ∧
      (∃ transposed, bitreversedTranspose (2 ^ bits) height input output = some transposed ∧
        (∀ pair ∈ pairs, transposed[pair.2]? = input[pair.1]?) ∧
        bitreversedTransposeMirrored (2 ^ bits) height transposed spare = some input) ∧
      (∃ mirrored, bitreversedTransposeMirrored (2 ^ bits) height input output = some mirrored ∧
        bitreversedTranspose (2 ^ bits) height mirrored spare = some input) ∧
      ∃ table, createBitrversedTransposeLookup (2 ^ bits) input.length height = some table ∧
        table.length = input.length ∧ ∀ pair ∈ pairs, table[pair.2]? = some pair.1 := by
  have large : 1 < 2 ^ bits := Nat.one_lt_two_pow (by omega)
  have visited := transposeVisits_eq base rows digits
  have reindexes : Reindexes (visits _ height _ digits) _ := visits_reindexes positive large
  rw [← inputLength] at visited reindexes
  generalize visits (2 ^ bits) height ((2 ^ bits) ^ digits) digits = pairs at visited reindexes
  obtain ⟨transposed, runs, length, cells⟩ := reindexes.copyCells_some rfl outputLength
  obtain ⟨mirrored, runs', length', -⟩ := reindexes.swap.copyCells_some rfl outputLength
  obtain ⟨table, filled, tableLength, entries⟩ :=
    reindexes.writeCells_some some (fun _ _ => rfl) (length_replicate (a := 0))
  refine ⟨pairs, visited, reindexes.reads, reindexes.writes, ⟨transposed, ?_, cells, ?_⟩,
    ⟨mirrored, ?_, ?_⟩, table, ?_, tableLength, entries⟩
  · simp [bitreversedTranspose, outputLength, visited, runs]
  · have back := reindexes.copyCells_swap rfl outputLength spareLength runs
    simp [bitreversedTransposeMirrored, length, spareLength, visited, back]
  · simp [bitreversedTransposeMirrored, outputLength, visited, runs']
  · have back := reindexes.swap.copyCells_swap rfl outputLength spareLength runs'
    rw [map_map, Prod.swap_swap_eq, map_id] at back
    simp [bitreversedTranspose, length', spareLength, visited, back]
  · simp [createBitrversedTransposeLookup, visited, filled]

theorem bitreversed_transpose_bijective_eight :
    ∃ transposed, bitreversedTranspose 2 2 [1, 2, 3, 4, 5, 6, 7, 8] (replicate 8 0) =
        some transposed ∧
      bitreversedTransposeMirrored 2 2 transposed (replicate 8 0) =
        some [1, 2, 3, 4, 5, 6, 7, 8] := by
  obtain ⟨_, -, -, -, ⟨transposed, runs, -, back⟩, -, -⟩ :=
    bitreversed_transpose_bijective (Nat.le_refl 1) Nat.one_lt_two.le Nat.one_lt_two.le
      [1, 2, 3, 4, 5, 6, 7, 8] (replicate 8 0) (replicate 8 0) rfl rfl rfl
  exact ⟨transposed, runs, back⟩

end Airbender.Fft

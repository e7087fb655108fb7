import Airbender.Worker.Geometry

/-!
# Chunks in reverse order

`chunks_for_geometry_rev` cuts chunks off the end of a slice. Its index counts up from the length
of the slice where it should count down from the last chunk.
-/

namespace Airbender.Worker.WorkerGeometry

open List

variable {geometry : WorkerGeometry} {α : Type} {items : List α} {chunks : List (List α)}

theorem chunksLoop_splitBack {left size : ℕ} {front last : List α} {tail : List (List α)}
    (nonempty : last ≠ []) (length : last.length = size)
    (expected : geometry.getChunkSize (geometry.numChunks - (left + 1)) = size)
    (rest : geometry.chunksLoop 1 splitBack left front = some tail) :
    geometry.chunksLoop 1 splitBack (left + 1) (front ++ last) = some (last :: tail) := by
  have cut : splitBack (front ++ last) size = (last, front) := by
    simp [splitBack, ← length]
  cases whole : front ++ last with
  | nil => exact absurd (append_eq_nil_iff.mp whole).2 nonempty
  | cons item items =>
    rw [chunksLoop, expected, Nat.mul_one, ← whole, cut, rest, if_pos]
    · rfl
    · simp [length]

theorem chunksLoop_rev {size left : ℕ} (positive : 0 < size) (bound : left ≤ geometry.numChunks)
    (lengths : ∀ chunk ∈ chunks, chunk.length = size) (enough : chunks.length ≤ left)
    (expected : ∀ idx < chunks.length,
      geometry.getChunkSize (geometry.numChunks - left + idx) = size) :
    geometry.chunksLoop 1 splitBack left chunks.flatten = some chunks.reverse := by
  induction chunks using reverseRecOn generalizing left with
  | nil => exact chunksLoop_nil _
  | append_singleton chunks last ih =>
    rw [length_append, length_singleton] at enough expected
    obtain ⟨before, rfl⟩ := Nat.exists_eq_add_of_le' (Nat.one_le_of_lt enough)
    have lastLength := lengths last (by simp)
    rw [flatten_append, flatten_singleton, reverse_append, reverse_singleton]
    apply chunksLoop_splitBack (ne_nil_of_length_pos (lastLength ▸ positive)) lastLength
      (expected 0 (by omega))
    apply ih (by omega) (fun chunk member => lengths chunk (mem_append_left _ member)) (by omega)
    intro idx inside
    have next :
        geometry.numChunks - before + idx = geometry.numChunks - (before + 1) + (idx + 1) := by
      omega
    rw [next]
    exact expected (idx + 1) (by omega)

theorem getElem?_length {cut : List α → ℕ → List α × List α} {left idx : ℕ}
    (cuts : ∀ items size, size ≤ items.length → (cut items size).1.length = size)
    (bound : left ≤ geometry.numChunks)
    (runs : geometry.chunksLoop 1 cut left items = some chunks) (inside : idx < chunks.length) :
    idx < left ∧ (chunks.map length)[idx]? =
      some (geometry.getChunkSize (geometry.numChunks - left + idx)) := by
  have sizes := length_of_chunksLoop cuts runs
  have few := sizes.length_le
  rw [sizesLeft_eq bound] at sizes few
  rw [length_map, length_map, length_range'] at few
  obtain ⟨rest, whole⟩ := sizes
  have within : idx < left := inside.trans_le few
  apply And.intro within
  rw [← getElem?_append_left (by rwa [length_map]), whole, getElem?_map, getElem?_range' within]
  simp

/-- For a slice that is cut into chunks, the reverse iterator yields these in the opposite order
only if the geometry has enough chunks of one size behind the index that it starts with. -/
theorem chunks_rev_iff (runs : geometry.chunksForGeometry items = some chunks) :
    geometry.chunksForGeometryRev items = some chunks.reverse ↔
      items = [] ∨ items.length + chunks.length ≤ geometry.numChunks ∨
        items.length + chunks.length = geometry.numChunks + 1 ∧
          geometry.getChunkSize 0 = geometry.getChunkSize (geometry.numChunks - 1) := by
  have flat := flatten_of_chunksLoop runs
  by_cases empty : items = []
  · cases empty
    rw [chunksForGeometry, chunksForGeometryWithScale, chunksLoop_nil] at runs
    cases runs
    simp [chunksForGeometryRev]
  have some_items : 0 < items.length := length_pos_iff.mpr empty
  have some_chunks : 0 < chunks.length := by
    apply length_pos_iff.mpr
    intro none
    rw [none] at flat
    exact empty flat.symm
  have forward : ∀ idx < chunks.length, idx < geometry.numChunks ∧
      (chunks.map length)[idx]? = some (geometry.getChunkSize idx) := by
    intro idx inside
    have sizes := getElem?_length splitFront_length le_rfl runs inside
    rwa [Nat.sub_self, Nat.zero_add] at sizes
  constructor
  · intro reversed
    have last := getElem?_length splitBack_length (Nat.sub_le _ _) reversed
      (by rw [length_reverse]; exact Nat.sub_one_lt_of_lt some_chunks)
    by_cases enough : items.length + chunks.length ≤ geometry.numChunks
    · exact .inr (.inl enough)
    · have exact_fit : items.length + chunks.length = geometry.numChunks + 1 := by omega
      have index : geometry.numChunks - (geometry.numChunks - (items.length - 1)) +
          (chunks.length - 1) = geometry.numChunks - 1 := by omega
      rw [map_reverse, getElem?_reverse (by rw [length_map]; omega), length_map, index,
        Nat.sub_self, (forward 0 some_chunks).2] at last
      exact .inr (.inr ⟨exact_fit, Option.some.inj last.2⟩)
  · intro condition
    have enough : items.length - 1 + chunks.length ≤ geometry.numChunks := by
      rcases condition with none | enough | ⟨exact_fit, _⟩
      · exact absurd none empty
      · omega
      · omega
    have one_size : ∀ idx < items.length - 1 + chunks.length,
        geometry.getChunkSize idx = geometry.getChunkSize 0 := by
      intro idx inside
      by_cases before : idx + 1 < geometry.numChunks
      · rw [getChunkSize_ordinary before, getChunkSize_ordinary (by omega)]
      · rcases condition with none | more | ⟨_, same⟩
        · exact absurd none empty
        · omega
        · rw [same, (by omega : idx = geometry.numChunks - 1)]
    have lengths : ∀ chunk ∈ chunks, chunk.length = geometry.getChunkSize 0 := by
      intro chunk member
      obtain ⟨idx, inside, rfl⟩ := getElem_of_mem member
      have size := (forward idx inside).2
      rw [getElem?_map, getElem?_eq_getElem inside] at size
      exact (Option.some.inj size).trans (one_size idx (by omega))
    have positive : 0 < geometry.getChunkSize 0 := by
      apply Nat.pos_of_ne_zero
      intro zero
      apply empty
      rw [← flat, flatten_eq_nil_iff]
      exact fun chunk member => eq_nil_of_length_eq_zero ((lengths chunk member).trans zero)
    have reversed : geometry.chunksLoop 1 splitBack (geometry.numChunks - (items.length - 1))
        chunks.flatten = some chunks.reverse := by
      apply chunksLoop_rev positive (Nat.sub_le _ _) lengths (by omega)
      intro idx inside
      rw [Nat.sub_sub_self (by omega)]
      exact one_size _ (by omega)
    rwa [flat] at reversed

/-- With four cores two items are few enough. -/
theorem chunks_rev_four_cores :
    (⟨4, 1, 0⟩ : WorkerGeometry).chunksForGeometryRev ['a', 'b'] = some [['b'], ['a']] := by
  have runs : (⟨4, 1, 0⟩ : WorkerGeometry).chunksForGeometry ['a', 'b'] = some [['a'], ['b']] := rfl
  exact (chunks_rev_iff runs).mpr (.inr (.inl (by decide)))

/-- Two items for two cores: after the first chunk the index is out of range. -/
theorem chunks_rev_two :
    (⟨2, 1, 0⟩ : WorkerGeometry).chunksForGeometry ['a', 'b'] = some [['a'], ['b']] ∧
      (⟨2, 1, 0⟩ : WorkerGeometry).chunksForGeometryRev ['a', 'b'] = none :=
  ⟨rfl, rfl⟩

end Airbender.Worker.WorkerGeometry

import Mathlib

/-!
# Packed records

The offsets of the fields of a record that are laid out one after the other, and the words of the
record by field and index.
-/

namespace PackedRecord

set_option autoImplicit false

open List

variable {φ α : Type} [DecidableEq φ] (order : List φ) (size : φ → ℕ)

def offset (field : φ) : ℕ := ((order.take (order.idxOf field)).map size).sum

variable {order size}

@[simp] theorem offset_cons_self (field : φ) : offset (field :: order) size field = 0 := by
  simp [offset]

theorem offset_cons_of_ne {first field : φ} (other : first ≠ field) :
    offset (first :: order) size field = size first + offset order size field := by
  simp [offset, idxOf_cons_ne order other]

theorem offset_add_size_le {field next : φ} (before : order.idxOf field < order.idxOf next) :
    offset order size field + size field ≤ offset order size next := by
  induction order with
  | nil => exact absurd before (lt_irrefl _)
  | cons first order ih =>
    by_cases isNext : first = next
    · rw [isNext, idxOf_cons_self] at before
      exact absurd before (Nat.not_lt_zero _)
    rw [offset_cons_of_ne isNext]
    by_cases isField : first = field
    · rw [isField, offset_cons_self]
      omega
    · rw [idxOf_cons_ne order isNext, idxOf_cons_ne order isField] at before
      rw [offset_cons_of_ne isField]
      have rest := ih (by omega)
      omega

theorem offset_add_size_last {last : φ} (fresh : last ∉ order) :
    offset (order ++ [last]) size last + size last = ((order ++ [last]).map size).sum := by
  induction order with
  | nil => simp
  | cons first order ih =>
    rw [mem_cons, not_or] at fresh
    rw [cons_append, offset_cons_of_ne (Ne.symm fresh.1), map_cons, sum_cons,
      ← ih fresh.2, Nat.add_assoc]

theorem exists_field (distinct : order.Nodup) {place : ℕ} (inside : place < (order.map size).sum) :
    ∃ field ∈ order, ∃ index < size field, place = offset order size field + index := by
  induction order generalizing place with
  | nil => exact absurd inside (Nat.not_lt_zero _)
  | cons first order ih =>
    rw [nodup_cons] at distinct
    rw [map_cons, sum_cons] at inside
    by_cases here : place < size first
    · refine ⟨first, mem_cons_self, place, here, ?_⟩
      rw [offset_cons_self, Nat.zero_add]
    · have later : place - size first < (order.map size).sum := by omega
      obtain ⟨field, member, index, bound, same⟩ := ih distinct.2 later
      refine ⟨field, mem_cons_of_mem _ member, index, bound, ?_⟩
      have other : first ≠ field := by
        rintro rfl
        exact distinct.1 member
      rw [offset_cons_of_ne other]
      omega

variable (order size)

def layOut (word : φ → ℕ → α) : List α :=
  order.flatMap fun field => (List.range (size field)).map (word field)

variable {order size}

omit [DecidableEq φ] in
theorem length_layOut (word : φ → ℕ → α) :
    (layOut order size word).length = (order.map size).sum := by
  simp [layOut, length_flatMap]

theorem getD_layOut (word : φ → ℕ → α) (fallback : α) (suffix : List α) {field : φ}
    (member : field ∈ order) {index : ℕ} (inside : index < size field) :
    (layOut order size word ++ suffix).getD (offset order size field + index) fallback =
      word field index := by
  induction order with
  | nil => exact absurd member not_mem_nil
  | cons first order ih =>
    have length : ((List.range (size first)).map (word first)).length = size first := by simp
    rw [layOut, flatMap_cons, append_assoc]
    by_cases here : first = field
    · subst here
      rw [offset_cons_self, Nat.zero_add, getD_append _ _ _ _ (by omega)]
      simp [getD_eq_getElem?_getD, getElem?_range inside]
    · have later : field ∈ order := by
        rcases mem_cons.mp member with same | later
        · exact absurd same.symm here
        · exact later
      rw [offset_cons_of_ne here, getD_append_right _ _ _ _ (by omega), length,
        Nat.add_assoc, Nat.add_sub_cancel_left]
      exact ih later

end PackedRecord

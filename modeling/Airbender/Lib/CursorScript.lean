import Mathlib

/-!
# Scripts that place items at a cursor

Programs that share a row of places take turns: each starts at the first place, or returns to a
saved one, and puts its items side by side. `placements` says at which cursor each item stands.
-/

namespace CursorScript

set_option autoImplicit false

inductive Step (α : Type) where
  | reset
  | save
  | restore
  | place (item : α)

variable {α κ : Type} (start : κ) (advance : κ → α → κ)

/-- The items of a script with their cursors, from a current and a saved cursor. -/
def placements : List (Step α) → κ → κ → List (κ × α)
  | [], _, _ => []
  | .reset :: steps, _, saved => placements steps start saved
  | .save :: steps, current, _ => placements steps current current
  | .restore :: steps, _, saved => placements steps saved saved
  | .place item :: steps, current, saved =>
    (current, item) :: placements steps (advance current item) saved

def finish : List (Step α) → κ → κ → κ
  | [], current, _ => current
  | .reset :: steps, _, saved => finish steps start saved
  | .save :: steps, current, _ => finish steps current current
  | .restore :: steps, _, saved => finish steps saved saved
  | .place item :: steps, current, saved => finish steps (advance current item) saved

def extent (ends : List ℕ) (reached : ℕ) : ℕ := ends.foldl max reached

theorem le_extent (ends : List ℕ) (reached : ℕ) : reached ≤ extent ends reached := by
  induction ends generalizing reached with
  | nil => exact Nat.le_refl reached
  | cons place ends ih => exact Nat.le_trans (Nat.le_max_left reached place) (ih _)

theorem extent_cons (place : ℕ) (ends : List ℕ) (reached : ℕ) :
    extent (place :: ends) reached = extent ends (max reached place) := rfl

theorem le_extent_of_mem {place : ℕ} {ends : List ℕ} (reached : ℕ) (member : place ∈ ends) :
    place ≤ extent ends reached := by
  induction ends generalizing reached with
  | nil => cases member
  | cons first ends ih =>
    rcases List.mem_cons.mp member with rfl | later
    · exact Nat.le_trans (Nat.le_max_right reached place) (le_extent ends _)
    · exact ih _ later

theorem exists_placement (slot : κ → ℕ) (startSlot : slot start = 0)
    (advances : ∀ cursor item, slot (advance cursor item) = slot cursor + 1)
    (steps : List (Step α)) {current saved : κ} {reached : ℕ}
    (currentReached : slot current ≤ reached) (savedReached : slot saved ≤ reached) {index : ℕ}
    (outside : reached ≤ index)
    (inside : index < extent ((placements start advance steps current saved).map
      fun entry => slot entry.1 + 1) reached) :
    ∃ entry ∈ placements start advance steps current saved, slot entry.1 = index := by
  induction steps generalizing current saved reached with
  | nil => exact absurd inside (Nat.not_lt.mpr outside)
  | cons step steps ih =>
    cases step with
    | reset => exact ih (startSlot ▸ Nat.zero_le reached) savedReached outside inside
    | save => exact ih currentReached currentReached outside inside
    | restore => exact ih savedReached savedReached outside inside
    | place item =>
      rw [placements, List.map_cons, extent_cons] at inside
      by_cases here : slot current = index
      · exact ⟨_, List.mem_cons_self, here⟩
      · have beyond : max reached (slot current + 1) ≤ index := Nat.max_le.mpr ⟨outside, by omega⟩
        have next := ih (advances current item ▸ Nat.le_max_right reached _)
          (Nat.le_trans savedReached (Nat.le_max_left reached _)) beyond inside
        rcases next with ⟨entry, member, same⟩
        exact ⟨entry, List.mem_cons_of_mem _ member, same⟩

end CursorScript

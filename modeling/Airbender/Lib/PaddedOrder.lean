import Mathlib

/-!
# Sorted lists with leading padding

Neighbours are strictly increasing unless the first of them is padding. When padding is never above
anything, such a list is a run of padding and a strictly increasing part.
-/

namespace PaddedOrder

set_option autoImplicit false

open List

variable {α κ : Type} [Preorder κ] {key : α → κ} {padding : α → Prop}

def Follows (key : α → κ) (padding : α → Prop) (first second : α) : Prop :=
  key first < key second ∨ padding first

section

variable (lowest : ∀ low other, padding low → ¬ key other < key low)

include lowest

theorem increasing_of_real {entry : α} {rest : List α} (real : ¬ padding entry)
    (ordered : (entry :: rest).IsChain (Follows key padding)) :
    (entry :: rest).Pairwise (fun first second => key first < key second) ∧
      ∀ other ∈ rest, ¬ padding other := by
  have transitive : IsTrans α fun first second => key first < key second := ⟨fun _ _ _ => lt_trans⟩
  induction rest generalizing entry with
  | nil => exact ⟨pairwise_singleton _ _, by simp⟩
  | cons next rest ih =>
    obtain ⟨link, restOrdered⟩ := isChain_cons_cons.mp ordered
    have below := link.resolve_right real
    have nextReal : ¬ padding next := fun padded => lowest next entry padded below
    obtain ⟨increasing, noPadding⟩ := ih nextReal restOrdered
    refine ⟨?_, ?_⟩
    · rw [← isChain_iff_pairwise] at increasing ⊢
      exact isChain_cons_cons.mpr ⟨below, increasing⟩
    · intro other member
      rcases mem_cons.mp member with rfl | inRest
      · exact nextReal
      · exact noPadding other inRest

theorem padding_then_increasing {entries : List α}
    (ordered : entries.IsChain (Follows key padding)) :
    ∃ pads reals, entries = pads ++ reals ∧ (∀ entry ∈ pads, padding entry) ∧
      (∀ entry ∈ reals, ¬ padding entry) ∧
      reals.Pairwise fun first second => key first < key second := by
  induction entries with
  | nil => exact ⟨[], [], rfl, by simp, by simp, List.Pairwise.nil⟩
  | cons entry rest ih =>
    by_cases isPadding : padding entry
    · obtain ⟨pads, reals, rfl, padded, real, increasing⟩ := ih (isChain_cons.mp ordered).2
      refine ⟨entry :: pads, reals, rfl, ?_, real, increasing⟩
      intro other member
      rcases mem_cons.mp member with rfl | inPads
      · exact isPadding
      · exact padded other inPads
    · obtain ⟨increasing, noPadding⟩ := increasing_of_real lowest isPadding ordered
      refine ⟨[], entry :: rest, rfl, by simp, ?_, increasing⟩
      intro other member
      rcases mem_cons.mp member with rfl | inRest
      · exact isPadding
      · exact noPadding other inRest

end

end PaddedOrder

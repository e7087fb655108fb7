import Mathlib

/-!
# Eliminating variables from systems of equations

A system is the set of its solutions. It is projected along variables when the result has the
solutions of the original one, whatever values these variables have.
-/

namespace Projection

set_option autoImplicit false

variable {ν α : Type}

/-- Two assignments that differ at most in hidden variables. -/
def Agree (hidden : Set ν) (first second : ν → α) : Prop :=
  ∀ var, var ∉ hidden → first var = second var

/-- One system is the other one without the hidden variables. -/
structure Projects (hidden : Set ν) (original kept : Set (ν → α)) : Prop where
  sound : ∀ solution ∈ original, ∀ other, Agree hidden solution other → other ∈ kept
  complete : ∀ solution ∈ kept, ∃ extended ∈ original, Agree hidden extended solution

variable {first second : ν → α}

theorem Agree.symm {hidden : Set ν} (agree : Agree hidden first second) :
    Agree hidden second first := fun var visible => (agree var visible).symm

theorem agree_empty : Agree ∅ first second ↔ first = second := by
  constructor
  · intro agree
    funext var
    exact agree var (Set.notMem_empty var)
  · rintro rfl var -
    rfl

theorem Projects.refl (system : Set (ν → α)) : Projects ∅ system system where
  sound solution member other agree := by
    rw [← agree_empty.mp agree]
    exact member
  complete solution member := ⟨solution, member, fun _ _ => rfl⟩

open Classical in
theorem Projects.trans {first second : Set ν} {original middle kept : Set (ν → α)}
    (left : Projects first original middle) (right : Projects second middle kept) :
    Projects (first ∪ second) original kept where
  sound solution member other agree := by
    -- a solution of the system in the middle takes the values of variables hidden first
    -- from `other`
    have toMiddle : Agree first solution fun var => if var ∈ first then other var
        else solution var := by
      intro var visible
      exact (if_neg visible).symm
    refine right.sound _ (left.sound solution member _ toMiddle) other ?_
    intro var visible
    by_cases inFirst : var ∈ first
    · exact if_pos inFirst
    · exact (if_neg inFirst).trans (agree var fun either => either.elim inFirst visible)
  complete solution member := by
    obtain ⟨extended, inMiddle, agree⟩ := right.complete solution member
    obtain ⟨original, inOriginal, agreeFirst⟩ := left.complete extended inMiddle
    refine ⟨original, inOriginal, fun var visible => ?_⟩
    rw [Set.mem_union, not_or] at visible
    rw [agreeFirst var visible.1, agree var visible.2]

variable [DecidableEq ν]

theorem Agree.update_eq {var : ν} (agree : Agree {var} first second) :
    Function.update first var (second var) = second := by
  funext other
  by_cases same : other = var
  · rw [same, Function.update_self]
  · rw [Function.update_of_ne same, agree other same]

def Ignores {β : Type} (function : (ν → α) → β) (var : ν) : Prop :=
  ∀ assignment value, function (Function.update assignment var value) = function assignment

theorem Ignores.congr {β : Type} {function : (ν → α) → β} {var : ν} (ignores : Ignores function var)
    (agree : Agree {var} first second) : function first = function second := by
  rw [← ignores first (second var), agree.update_eq]

theorem Projects.solve {original kept : Set (ν → α)} {var : ν} (expression : (ν → α) → α)
    (independent : Ignores expression var)
    (solved : ∀ solution ∈ original, solution var = expression solution)
    (substituted : ∀ solution, solution ∈ kept ↔
      Function.update solution var (expression solution) ∈ original) :
    Projects {var} original kept where
  sound solution member other agree := by
    rw [substituted, ← independent.congr agree, ← solved solution member, agree.symm.update_eq]
    exact member
  complete solution member := by
    refine ⟨_, (substituted solution).mp member, fun position visible => ?_⟩
    exact Function.update_of_ne visible _ _

end Projection

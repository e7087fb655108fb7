import Mathlib

/-!
# Last uses

A table of the time of the last use of every location, the times that a sequence of uses replaces,
and what the table is after them.
-/

namespace LastUse

set_option autoImplicit false

variable {κ : Type}

structure Use (κ : Type) where
  location : κ
  time : ℕ
deriving DecidableEq

section

variable [DecidableEq κ]

def mark (table : κ → ℕ) (use : Use κ) : κ → ℕ :=
  Function.update table use.location use.time

def marked (table : κ → ℕ) (uses : List (Use κ)) : κ → ℕ := uses.foldl mark table

def replaced (table : κ → ℕ) : List (Use κ) → List ℕ
  | [] => []
  | use :: rest => table use.location :: replaced (mark table use) rest

variable (table : κ → ℕ)

@[simp] theorem marked_nil : marked table [] = table := rfl

@[simp] theorem marked_cons (use : Use κ) (rest : List (Use κ)) :
    marked table (use :: rest) = marked (mark table use) rest := rfl

theorem marked_append (first second : List (Use κ)) :
    marked table (first ++ second) = marked (marked table first) second :=
  List.foldl_append

@[simp] theorem length_replaced (uses : List (Use κ)) :
    (replaced table uses).length = uses.length := by
  induction uses generalizing table with
  | nil => rfl
  | cons use rest ih => simp [replaced, ih]

theorem replaced_append (first second : List (Use κ)) :
    replaced table (first ++ second) =
      replaced table first ++ replaced (marked table first) second := by
  induction first generalizing table with
  | nil => rfl
  | cons use rest ih => simp [replaced, ih]

end

end LastUse

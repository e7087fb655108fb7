import Airbender.Blake2s.State

/-!
# The verifier's input

A stream of words, read one after the other by computations that may fail an assertion.
-/

namespace Airbender.Verifier

open Blake2s

abbrev Source := List Word

/-- Computations that consume the source and may fail an assertion. -/
abbrev VerifierM := StateT Source Option

def readWord : VerifierM Word := fun source =>
  match source with
  | [] => none
  | word :: rest => some (word, rest)

def readWords : ℕ → VerifierM (List Word)
  | 0 => pure []
  | count + 1 => do
      let word ← readWord
      let rest ← readWords count
      pure (word :: rest)

def check (condition : Bool) : VerifierM Unit := if condition then pure () else failure

section

variable {α β : Type} {source rest : Source}

theorem bind_eq_some {program : VerifierM α} {next : α → VerifierM β} {result : β}
    (succeeded : (program >>= next).run source = some (result, rest)) :
    ∃ value middle, program.run source = some (value, middle) ∧
      (next value).run middle = some (result, rest) := by
  rw [StateT.run_bind] at succeeded
  obtain ⟨⟨value, middle⟩, first, second⟩ := Option.bind_eq_some_iff.mp succeeded
  exact ⟨value, middle, first, second⟩

theorem run_bind_of_some {program : VerifierM α} {value : α} {middle : Source}
    (first : program.run source = some (value, middle)) (next : α → VerifierM β) :
    (program >>= next).run source = (next value).run middle := by
  rw [StateT.run_bind, first]
  rfl

theorem check_bind_eq_some {condition : Bool} {next : Unit → VerifierM β} {result : β}
    (succeeded : (check condition >>= next).run source = some (result, rest)) :
    condition = true ∧ (next ()).run source = some (result, rest) := by
  cases condition with
  | false => simp [check] at succeeded
  | true => exact ⟨rfl, succeeded⟩

theorem lift_bind_eq_some {program : Option α} {next : α → VerifierM β} {result : β}
    (succeeded : ((liftM program : VerifierM α) >>= next).run source = some (result, rest)) :
    ∃ value, program = some value ∧ (next value).run source = some (result, rest) := by
  cases program with
  | none => simp at succeeded
  | some value => exact ⟨value, rfl, succeeded⟩

theorem readWords_append (words rest : List Word) :
    (readWords words.length).run (words ++ rest) = some (words, rest) := by
  induction words with
  | nil => rfl
  | cons word words ih =>
    have first : readWord.run (word :: (words ++ rest)) = some (word, words ++ rest) := rfl
    simp only [List.length_cons, readWords, List.cons_append, StateT.run_bind, first,
      Option.bind_eq_bind, Option.bind_some, ih, StateT.run_pure]
    rfl

theorem readWords_eq_some {count : ℕ} {words : List Word}
    (succeeded : (readWords count).run source = some (words, rest)) :
    words.length = count ∧ source = words ++ rest := by
  induction count generalizing source words with
  | zero =>
    cases succeeded
    exact ⟨rfl, rfl⟩
  | succ count ih =>
    obtain ⟨word, afterWord, readOne, succeeded⟩ := bind_eq_some succeeded
    obtain ⟨others, afterOthers, readOthers, succeeded⟩ := bind_eq_some succeeded
    cases succeeded
    obtain ⟨length, split⟩ := ih readOthers
    cases source with
    | nil => cases readOne
    | cons first remaining =>
      cases readOne
      exact ⟨congrArg (· + 1) length, congrArg (word :: ·) split⟩

end

end Airbender.Verifier

import Airbender.Field.Mersenne31
import Airbender.Verifier.Source

/-!
# Filling memory from the source

Proofs are read into packed structures by loops over ranges of words. A loop either takes words
as they come or reduces them modulo the characteristic of the field.
-/

namespace Airbender.Verifier

open Blake2s List

abbrev Memory := ℕ → Word

inductive ReadMode
  | word
  | reducedFieldElement
deriving DecidableEq

def ReadMode.convert : ReadMode → Word → Word
  | .word, value => value
  | .reducedFieldElement, value => value % 0x7fffffff

/-- `read_word` and `read_reduced_field_element`. -/
def readAs (mode : ReadMode) : VerifierM Word := mode.convert <$> readWord

/-- A loop that writes `count` words from `i` on. -/
def fillWords (mode : ReadMode) : ℕ → ℕ → Memory → VerifierM Memory
  | 0, _, memory => pure memory
  | count + 1, i, memory => do
      let word ← readAs mode
      fillWords mode count (i + 1) (Function.update memory i word)

/-- Successive loops `while i < stop`. -/
def fillLoops : List (ReadMode × ℕ) → ℕ → Memory → VerifierM Memory
  | [], _, memory => pure memory
  | (mode, stop) :: loops, i, memory => do
      let memory ← fillWords mode (stop - i) i memory
      fillLoops loops (max i stop) memory

def loopsEnd : List (ReadMode × ℕ) → ℕ → ℕ
  | [], i => i
  | (_, stop) :: loops, i => loopsEnd loops (max i stop)

/-- The mode in which successive loops read the word for a place. -/
def modeAt : List (ReadMode × ℕ) → ℕ → ReadMode
  | [], _ => .word
  | (mode, stop) :: loops, place => if place < stop then mode else modeAt loops place

def filledWords (mode : ReadMode) (count i : ℕ) (memory : Memory) (source : Source) : Memory :=
  fun place => if i ≤ place ∧ place < i + count then mode.convert (source.getD (place - i) 0)
    else memory place

def filledLoops (loops : List (ReadMode × ℕ)) (i : ℕ) (memory : Memory) (source : Source) :
    Memory :=
  fun place => if i ≤ place ∧ place < loopsEnd loops i then
    (modeAt loops place).convert (source.getD (place - i) 0) else memory place

theorem ReadMode.convert_lt (value : Word) :
    (ReadMode.reducedFieldElement.convert value).toNat < 2147483647 := by
  rw [ReadMode.convert, BitVec.toNat_umod]
  exact Nat.mod_lt _ (by decide)

variable (mode : ReadMode) (loops : List (ReadMode × ℕ)) (i : ℕ)

theorem ReadMode.convert_zero : mode.convert 0 = 0 := by
  cases mode <;> rfl

theorem filledWords_cons (count i : ℕ) (memory : Memory) (word : Word) (source : Source) :
    filledWords mode count (i + 1) (Function.update memory i (mode.convert word)) source =
      filledWords mode (count + 1) i memory (word :: source) := by
  funext place
  unfold filledWords
  rcases Nat.lt_trichotomy place i with before | here | after
  · rw [if_neg (by omega), if_neg (by omega), Function.update_of_ne (by omega)]
  · subst here
    rw [if_neg (by omega), if_pos (by omega), Function.update_self, Nat.sub_self, getD_cons_zero]
  · obtain ⟨distance, rfl⟩ : ∃ distance, place = i + 1 + distance := ⟨place - (i + 1), by omega⟩
    have later : i + 1 + distance - i = distance + 1 := by omega
    rw [Nat.add_sub_cancel_left, later, getD_cons_succ, Function.update_of_ne (by omega)]
    exact if_congr (by omega) rfl rfl

theorem filledWords_append (memory : Memory) {count : ℕ}
    {source : Source} (enough : count ≤ source.length) (rest : Source) :
    filledWords mode count i memory (source ++ rest) = filledWords mode count i memory source := by
  funext place
  unfold filledWords
  by_cases inside : i ≤ place ∧ place < i + count
  · rw [if_pos inside, if_pos inside, getD_append _ _ _ _ (by omega)]
  · rw [if_neg inside, if_neg inside]

theorem fillWords_run (count i : ℕ) (memory : Memory) (source : Source) :
    (fillWords mode count i memory).run source =
      if count ≤ source.length then
        some (filledWords mode count i memory source, source.drop count)
      else none := by
  induction count generalizing i memory source with
  | zero =>
    have unchanged : filledWords mode 0 i memory source = memory := by
      funext place
      rw [filledWords, if_neg (by omega)]
    rw [unchanged]
    rfl
  | succ count ih =>
    cases source with
    | nil => rfl
    | cons word source =>
      have first : (readAs mode).run (word :: source) = some (mode.convert word, source) := rfl
      rw [fillWords, StateT.run_bind, first, Option.bind_eq_bind, Option.bind_some, ih,
        filledWords_cons]
      exact if_congr (Nat.add_le_add_iff_right.symm) rfl rfl

theorem le_loopsEnd : i ≤ loopsEnd loops i := by
  induction loops generalizing i with
  | nil => exact le_refl i
  | cons loop loops ih => exact le_trans (le_max_left i loop.2) (ih _)

theorem loopsEnd_append (mode : ReadMode) {i stop : ℕ}
    (starts : i ≤ stop) (last : ∀ loop ∈ loops, loop.2 ≤ stop) :
    loopsEnd (loops ++ [(mode, stop)]) i = stop := by
  induction loops generalizing i with
  | nil => exact max_eq_right starts
  | cons loop loops ih =>
    have first := last loop mem_cons_self
    exact ih (max_le starts first) fun other member => last other (mem_cons_of_mem _ member)

theorem filledLoops_cons (stop : ℕ) (loops : List (ReadMode × ℕ)) (i : ℕ)
    (memory : Memory) (source : Source) :
    filledLoops loops (max i stop) (filledWords mode (stop - i) i memory source)
        (source.drop (stop - i)) =
      filledLoops ((mode, stop) :: loops) i memory source := by
  have reached := le_loopsEnd loops (max i stop)
  have ends : loopsEnd ((mode, stop) :: loops) i = loopsEnd loops (max i stop) := rfl
  funext place
  rw [filledLoops, filledLoops, filledWords, ends]
  by_cases here : i ≤ place ∧ place < stop
  · rw [if_neg (by omega), if_pos (by omega), if_pos (by omega), modeAt, if_pos here.2]
  by_cases later : max i stop ≤ place ∧ place < loopsEnd loops (max i stop)
  · have distance : stop - i + (place - max i stop) = place - i := by omega
    rw [if_pos later, if_pos (by omega), modeAt, if_neg (by omega),
      getD_eq_getElem?_getD, getElem?_drop, distance, getD_eq_getElem?_getD]
  · rw [if_neg later, if_neg (by omega), if_neg (by omega)]

theorem fillLoops_run (memory : Memory) (source : Source) :
    (fillLoops loops i memory).run source =
      if loopsEnd loops i - i ≤ source.length then
        some (filledLoops loops i memory source, source.drop (loopsEnd loops i - i))
      else none := by
  induction loops generalizing i memory source with
  | nil =>
    have unchanged : filledLoops [] i memory source = memory := by
      funext place
      have ends : loopsEnd [] i = i := rfl
      rw [filledLoops, ends, if_neg (by omega)]
    have ends : loopsEnd [] i - i = 0 := Nat.sub_self i
    rw [unchanged, ends, if_pos (Nat.zero_le _)]
    rfl
  | cons loop loops ih =>
    obtain ⟨mode, stop⟩ := loop
    have reached := le_loopsEnd loops (max i stop)
    have ends : loopsEnd ((mode, stop) :: loops) i = loopsEnd loops (max i stop) := rfl
    rw [fillLoops, StateT.run_bind, fillWords_run, ends, ← filledLoops_cons]
    by_cases enough : stop - i ≤ source.length
    · have rest : stop - i + (loopsEnd loops (max i stop) - max i stop) =
          loopsEnd loops (max i stop) - i := by omega
      rw [if_pos enough, Option.bind_eq_bind, Option.bind_some, ih, drop_drop, rest]
      exact if_congr (by rw [length_drop]; omega) rfl rfl
    · rw [if_neg enough, if_neg (by omega)]
      rfl

end Airbender.Verifier

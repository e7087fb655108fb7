import Mathlib

/-!
# Layouts of a memory of words

A layout says how many words a value takes, which words they are, and how the value is viewed in a
memory that holds them; viewing what was written gives the value back. Layouts of products, arrays
and vectors are built from those of their parts.
-/

namespace MemoryLayout

set_option autoImplicit false

open List hiding Vector

variable {ω α β : Type}

def shift (memory : ℕ → ω) (distance : ℕ) : ℕ → ω := fun index => memory (distance + index)

def Holds (memory : ℕ → ω) (words : List ω) : Prop :=
  ∀ index word, words[index]? = some word → memory index = word

theorem shift_zero (memory : ℕ → ω) : shift memory 0 = memory := by
  funext index
  rw [shift, Nat.zero_add]

theorem shift_shift (memory : ℕ → ω) (first second : ℕ) :
    shift (shift memory first) second = shift memory (first + second) := by
  funext index
  rw [shift, shift, shift, Nat.add_assoc]

theorem holds_append {memory : ℕ → ω} {first second : List ω} :
    Holds memory (first ++ second) ↔
      Holds memory first ∧ Holds (shift memory first.length) second := by
  constructor
  · intro holds
    refine ⟨fun index word member => ?_, fun index word member => ?_⟩
    · have bound : index < first.length := (List.getElem?_eq_some_iff.mp member).1
      exact holds index word (by rw [getElem?_append_left bound, member])
    · refine holds (first.length + index) word ?_
      rw [getElem?_append_right (Nat.le_add_right _ _), Nat.add_sub_cancel_left, member]
  · rintro ⟨left, right⟩ index word member
    by_cases before : index < first.length
    · rw [getElem?_append_left before] at member
      exact left index word member
    · obtain ⟨distance, rfl⟩ := Nat.exists_eq_add_of_le (Nat.not_lt.mp before)
      rw [getElem?_append_right (Nat.le_add_right _ _), Nat.add_sub_cancel_left] at member
      exact right distance word member

theorem holds_cons {memory : ℕ → ω} {word : ω} {words : List ω} :
    Holds memory (word :: words) ↔ memory 0 = word ∧ Holds (shift memory 1) words := by
  have single : Holds memory [word] ↔ memory 0 = word := by
    constructor
    · intro holds
      exact holds 0 word rfl
    · rintro rfl index other member
      obtain ⟨inside, rfl⟩ := List.getElem?_eq_some_iff.mp member
      rw [length_singleton, Nat.lt_one_iff] at inside
      subst inside
      rfl
  rw [← single, ← singleton_append, holds_append, length_singleton]

/-- A fixed-size representation of the values that fit. -/
structure Layout (ω α : Type) where
  size : ℕ
  Fits : α → Prop
  write : α → List ω
  view : (ℕ → ω) → α
  length_write : ∀ {value}, Fits value → (write value).length = size
  view_eq : ∀ {value memory}, Fits value → Holds memory (write value) → view memory = value

namespace Layout

def unit : Layout ω Unit where
  size := 0
  Fits _ := True
  write _ := []
  view _ := ()
  length_write _ := rfl
  view_eq _ _ := rfl

def word : Layout ω ω where
  size := 1
  Fits _ := True
  write value := [value]
  view memory := memory 0
  length_write _ := rfl
  view_eq _ holds := (holds_cons.mp holds).1

def pair (first : Layout ω α) (second : Layout ω β) : Layout ω (α × β) where
  size := first.size + second.size
  Fits value := first.Fits value.1 ∧ second.Fits value.2
  write value := first.write value.1 ++ second.write value.2
  view memory := (first.view memory, second.view (shift memory first.size))
  length_write fits := by
    rw [length_append, first.length_write fits.1, second.length_write fits.2]
  view_eq fits holds := by
    rw [holds_append, first.length_write fits.1] at holds
    exact Prod.ext (first.view_eq fits.1 holds.1) (second.view_eq fits.2 holds.2)

/-- Represent a value by another one that determines it. -/
def via (inner : Layout ω β) (encode : α → β) (decode : β → α)
    (inverse : ∀ value, decode (encode value) = value) : Layout ω α where
  size := inner.size
  Fits value := inner.Fits (encode value)
  write value := inner.write (encode value)
  view memory := decode (inner.view memory)
  length_write fits := inner.length_write fits
  view_eq fits holds := by
    rw [inner.view_eq fits holds]
    exact inverse _

def viewArray (item : Layout ω α) (count : ℕ) (memory : ℕ → ω) : List α :=
  (List.range count).map fun index => item.view (shift memory (index * item.size))

variable (item : Layout ω α)

theorem viewArray_succ (count : ℕ) (memory : ℕ → ω) :
    item.viewArray (count + 1) memory =
      item.view memory :: item.viewArray count (shift memory item.size) := by
  rw [viewArray, range_succ_eq_map, map_cons, map_map, Nat.zero_mul, shift_zero,
    viewArray]
  refine congrArg (item.view memory :: ·) (map_congr_left fun index _ => ?_)
  rw [Function.comp_apply, shift_shift, Nat.succ_mul, Nat.add_comm]

theorem length_flatMap_write {values : List α} (fits : ∀ value ∈ values, item.Fits value) :
    (values.flatMap item.write).length = values.length * item.size := by
  induction values with
  | nil => simp
  | cons value values ih =>
    have first := item.length_write (fits value mem_cons_self)
    have rest := ih fun other member => fits other (mem_cons_of_mem _ member)
    rw [flatMap_cons, length_append, first, rest, length_cons, Nat.succ_mul,
      Nat.add_comm]

theorem viewArray_eq {values : List α} {memory : ℕ → ω}
    (fits : ∀ value ∈ values, item.Fits value) (holds : Holds memory (values.flatMap item.write)) :
    item.viewArray values.length memory = values := by
  induction values generalizing memory with
  | nil => rfl
  | cons value values ih =>
    have first := fits value mem_cons_self
    rw [flatMap_cons, holds_append, item.length_write first] at holds
    rw [length_cons, viewArray_succ, item.view_eq first holds.1,
      ih (fun other member => fits other (mem_cons_of_mem _ member)) holds.2]

def array (count : ℕ) (item : Layout ω α) : Layout ω (List α) where
  size := count * item.size
  Fits values := values.length = count ∧ ∀ value ∈ values, item.Fits value
  write values := values.flatMap item.write
  view := item.viewArray count
  length_write := by
    rintro values ⟨rfl, fits⟩
    exact item.length_flatMap_write fits
  view_eq := by
    rintro values memory ⟨rfl, fits⟩ holds
    exact item.viewArray_eq fits holds

def vector [Inhabited α] (count : ℕ) (item : Layout ω α) : Layout ω (Vector α count) :=
  (array count item).via Vector.toList
    (fun values => Vector.ofFn fun index => values.getD index default) (by
      intro values
      refine Vector.ext fun index inside => ?_
      simp [getD_eq_getElem?_getD])

theorem vector_fits [Inhabited α] {count : ℕ} {item : Layout ω α}
    (fits : ∀ value, item.Fits value) (values : Vector α count) : (vector count item).Fits values :=
  ⟨values.length_toList, fun value _ => fits value⟩

end Layout

end MemoryLayout

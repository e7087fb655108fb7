import Mathlib

/-!
# Bit reversal

Reversal of the lowest bits of an index, and of the positions of a list of `2^bits` elements.
-/

namespace BitReverse

set_option autoImplicit false

open List

def bitReverse : ℕ → ℕ → ℕ
  | 0, _ => 0
  | bits + 1, index => index % 2 * 2 ^ bits + bitReverse bits (index / 2)

theorem bitReverse_lt (bits index : ℕ) : bitReverse bits index < 2 ^ bits := by
  induction bits generalizing index with
  | zero => exact Nat.one_pos
  | succ bits ih =>
    have rest := ih (index / 2)
    have digit := Nat.mod_lt index Nat.two_pos
    rw [bitReverse, pow_succ]
    nlinarith

theorem bitReverse_zero (bits : ℕ) : bitReverse bits 0 = 0 := by
  induction bits with
  | zero => rfl
  | succ bits ih => rw [bitReverse, Nat.zero_mod, Nat.zero_mul, Nat.zero_div, ih]

theorem bitReverse_two_mul (bits index : ℕ) :
    bitReverse (bits + 1) (2 * index) = bitReverse bits index := by
  rw [bitReverse, Nat.mul_mod_right, Nat.zero_mul, Nat.zero_add,
    Nat.mul_div_cancel_left _ Nat.two_pos]

theorem bitReverse_two_mul_add_one (bits index : ℕ) :
    bitReverse (bits + 1) (2 * index + 1) = 2 ^ bits + bitReverse bits index := by
  have digit : (2 * index + 1) % 2 = 1 := by omega
  have rest : (2 * index + 1) / 2 = index := by omega
  rw [bitReverse, digit, rest, Nat.one_mul]

theorem bitReverse_join (high low index : ℕ) {slot : ℕ} (bound : slot < 2 ^ low) :
    bitReverse (high + low) (index * 2 ^ low + slot) =
      bitReverse low slot * 2 ^ high + bitReverse high index := by
  induction low generalizing slot with
  | zero =>
    have zero : slot = 0 := by simpa using bound
    simp [zero, bitReverse]
  | succ low ih =>
    have digit : (index * 2 ^ (low + 1) + slot) % 2 = slot % 2 := by
      rw [pow_succ, ← Nat.mul_assoc]
      omega
    have rest : (index * 2 ^ (low + 1) + slot) / 2 = index * 2 ^ low + slot / 2 := by
      rw [pow_succ, ← Nat.mul_assoc]
      omega
    have half : slot / 2 < 2 ^ low := by
      rw [pow_succ] at bound
      omega
    rw [← Nat.add_assoc, bitReverse, digit, rest, ih half, bitReverse, pow_add]
    ring

theorem bitReverse_extend (extra bits : ℕ) {index : ℕ} (bound : index < 2 ^ bits) :
    bitReverse (extra + bits) index = bitReverse bits index * 2 ^ extra := by
  have joined := bitReverse_join extra bits 0 bound
  rwa [Nat.zero_mul, Nat.zero_add, bitReverse_zero, Nat.add_zero] at joined

/-- The elements of a list of `2 ^ bits` in bit-reversed order. -/
def bitReversed {α : Type} (bits : ℕ) (values : List α) : List α :=
  (List.range (2 ^ bits)).filterMap fun index => values[bitReverse bits index]?

variable {α β : Type}

theorem bitReversed_map (bits : ℕ) (values : List α) (image : α → β) :
    bitReversed bits (values.map image) = (bitReversed bits values).map image := by
  simp only [bitReversed, map_filterMap, getElem?_map]

variable {values : List α} {bits : ℕ}

theorem bitReversed_eq_map (size : values.length = 2 ^ bits) :
    bitReversed bits values = (List.range (2 ^ bits)).map fun index =>
      values.get ⟨bitReverse bits index, by rw [size]; exact bitReverse_lt bits index⟩ := by
  rw [bitReversed, ← filterMap_eq_map]
  refine filterMap_congr fun index _ => ?_
  rw [getElem?_eq_getElem (by rw [size]; exact bitReverse_lt bits index)]
  rfl

theorem length_bitReversed (size : values.length = 2 ^ bits) :
    (bitReversed bits values).length = 2 ^ bits := by
  rw [bitReversed_eq_map size, length_map, length_range]

theorem getElem?_bitReversed (size : values.length = 2 ^ bits)
    {index : ℕ} (bound : index < 2 ^ bits) :
    (bitReversed bits values)[index]? = values[bitReverse bits index]? := by
  rw [bitReversed_eq_map size, getElem?_map, getElem?_range bound,
    getElem?_eq_getElem (by rw [size]; exact bitReverse_lt bits index)]
  rfl

end BitReverse

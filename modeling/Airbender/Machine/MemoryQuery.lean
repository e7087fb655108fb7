import Airbender.Machine.Decoder
import Airbender.Cs.FamilyContext
import Airbender.Lib.WordBytes

/-!
# Memory queries of loads and stores

A query of a load or a store and the arithmetic of its address: limbs, bytes of a limb, the aligned
address, and the border between ROM and RAM.
-/

namespace Airbender.Machine

open CircuitLib Circuit Mersenne31Field Cs OptimizationContext WordBytes

/-- `ShuffleRamMemQuery` whose type is `RegisterOrRam`. -/
structure ShuffleRamMemQuery where
  isRegister : Boolean
  address : F × F
  readValue : F × F
  writeValue : F × F

def limbsOf (word : BitVec 32) : F × F := ((lowLimb word : F), (highLimb word : F))

theorem eq_limbsOf_iff (limbs : F × F) (word : BitVec 32) :
    limbs = limbsOf word ↔
      (lowLimb word : F) - limbs.1 = 0 ∧ (highLimb word : F) - limbs.2 = 0 := by
  rw [sub_eq_zero, sub_eq_zero, limbsOf, Prod.ext_iff, eq_comm, @eq_comm _ limbs.2]

theorem limbsOf_inj {left right : BitVec 32} : limbsOf left = limbsOf right ↔ left = right := by
  rw [limbsOf, limbsOf, Prod.mk.injEq, limbs_inj]

def ofLimbs (low high : ℕ) : BitVec 32 := BitVec.ofNat 32 (low + 2 ^ 16 * high)

theorem ofLimbs_toNat {low high : ℕ} (lowBound : low < 2 ^ 16) (highBound : high < 2 ^ 16) :
    (ofLimbs low high).toNat = low + 2 ^ 16 * high := by
  rw [ofLimbs, BitVec.toNat_ofNat]
  omega

theorem lowLimb_ofLimbs {low high : ℕ} (lowBound : low < 2 ^ 16) (highBound : high < 2 ^ 16) :
    lowLimb (ofLimbs low high) = low := by
  rw [lowLimb, ofLimbs_toNat lowBound highBound]
  omega

theorem highLimb_ofLimbs {low high : ℕ} (lowBound : low < 2 ^ 16) (highBound : high < 2 ^ 16) :
    highLimb (ofLimbs low high) = high := by
  rw [highLimb, ofLimbs_toNat lowBound highBound]
  omega

def limbByte (limb index : ℕ) : ℕ := limb / 2 ^ (8 * index) % 2 ^ 8

theorem byteAt_eq_limbByte (word : BitVec 32) {index : ℕ} (inside : index < 4) :
    (byteAt word index).toNat =
      if index < 2 then limbByte (lowLimb word) index
      else limbByte (highLimb word) (index - 2) := by
  have limbs := toNat_eq_limbs word
  have low := lowLimb_lt word
  rw [byteAt_toNat, limbs]
  interval_cases index <;> simp [limbByte] <;> omega

def isRamAddress (romBits : ℕ) (address : BitVec 32) : Bool :=
  decide (2 ^ (16 + romBits) ≤ address.toNat)

def alignedAddress (address : BitVec 32) : BitVec 32 := address &&& ~~~0x3

theorem alignedAddress_eq {address : BitVec 32} (aligned : address.toNat % 4 = 0) :
    alignedAddress address = address := by
  apply BitVec.eq_of_toNat_eq
  rw [alignedAddress, toNat_and_not_three]
  omega

variable (address : BitVec 32)

theorem highLimb_alignedAddress : highLimb (alignedAddress address) = highLimb address := by
  rw [alignedAddress, highLimb, highLimb, toNat_and_not_three]
  omega

theorem lowLimb_alignedAddress :
    (lowLimb address : F) - 2 * bit (address.getLsbD 1) - bit (address.getLsbD 0) =
      (lowLimb (alignedAddress address) : F) := by
  have offset := offset_eq address
  have split : lowLimb address = lowLimb (alignedAddress address) +
      2 * (address.getLsbD 1).toNat + (address.getLsbD 0).toNat := by
    rw [alignedAddress, lowLimb, lowLimb, toNat_and_not_three]
    omega
  rw [split, bit_eq_natCast, bit_eq_natCast]
  push_cast
  ring

theorem word_aligned_iff (word : Bool) :
    (bit (address.getLsbD 0) + bit (address.getLsbD 1)) * bit word = 0 ↔
      (word = true → address.toNat % 4 = 0) := by
  have two : (1 + 1 : F) ≠ 0 := by decide
  rw [offset_eq]
  cases word <;> cases address.getLsbD 0 <;> cases address.getLsbD 1 <;> simp [two]

theorem half_aligned_iff (half : Bool) :
    bit (address.getLsbD 0) * bit half = 0 ↔ (half = true → address.toNat % 2 = 0) := by
  rw [getLsbD_zero]
  cases half <;> simp

theorem bit_choice (flag : Bool) (left right : ℕ) :
    bit flag * (left : F) + (1 - bit flag) * (right : F) =
      ((if flag then left else right : ℕ) : F) := by
  cases flag <;> simp

section

variable {romBits : ℕ} {image : List (BitVec 32)} {tables : TableDriver}
  (machine : MachineTables romBits image tables)

include machine in
theorem memoryOffsetGetBits_row (address : BitVec 32) (bit0 bit1 : F) :
    tables .memoryOffsetGetBits ⟨(lowLimb address : F), bit0, bit1⟩ = true ↔
      bit0 = bit (address.getLsbD 0) ∧ bit1 = bit (address.getLsbD 1) := by
  have offset := offset_eq address
  have first := (address.getLsbD 0).toNat_lt
  have second := (address.getLsbD 1).toNat_lt
  have lowest : lowLimb address &&& 0x01 = (address.getLsbD 0).toNat := by
    rw [Nat.and_one_is_mod, lowLimb]
    omega
  have next : (lowLimb address >>> 1) &&& 0x01 = (address.getLsbD 1).toNat := by
    rw [Nat.and_one_is_mod, Nat.shiftRight_eq_div_pow, lowLimb]
    omega
  rw [machine.memoryOffsetGetBits, memoryOffsetGetBitsTable,
    oneKeyTable_natCast (by omega) _ (lowLimb_lt address), lowest, next, bit_eq_natCast,
    bit_eq_natCast]

include machine in
theorem romAddressSpaceSeparator_row (address : BitVec 32) (isRam chunk : F) :
    tables .romAddressSpaceSeparator ⟨(highLimb address : F), isRam, chunk⟩ = true ↔
      isRam = bit (isRamAddress romBits address) ∧
        chunk = ((highLimb address % 2 ^ romBits : ℕ) : F) := by
  have range : decide (1 <<< romBits ≤ highLimb address) = isRamAddress romBits address := by
    rw [isRamAddress, decide_eq_decide, Nat.one_shiftLeft, highLimb, pow_add, mul_comm,
      Nat.le_div_iff_mul_le (by omega)]
  rw [machine.romAddressSpaceSeparator, romSeparatorTable,
    oneKeyTable_natCast (by omega) _ (highLimb_lt address), range, Nat.one_shiftLeft,
    bit_eq_natCast]

end

end Airbender.Machine

import Airbender.Field.Mersenne31

/-!
# Integers as field elements

The conversions of `field/src/base.rs` between machine integers and Mersenne31 words. Two builds
compile: `riscv32` with `use_division`, where all words are below the modulus, and the other targets
without, where zero has two words. Subtractions wrap, as they do without overflow checks.
-/

namespace Airbender.Field

def order : BitVec 32 := 2147483647

def lowMask : BitVec 32 := 0x7fffffff

def msbitMask : BitVec 32 := 0x80000000

/-- A `Mersenne31Field` word as `new` admits it. -/
@[ext] structure Element where
  word : BitVec 32
  bounded : word.toNat < 2 ^ 31

def Element.value (element : Element) : Mersenne31Field := (element.word.toNat : ℕ)

/-- The top bit of a sum is worth one modulo `2^31 - 1` and is added back. -/
def foldMsb (sum : BitVec 32) : BitVec 32 :=
  let msb := sum &&& msbitMask
  (sum ^^^ msb) + if msb != 0 then 1 else 0

def addMod (useDivision : Bool) (a b : BitVec 32) : BitVec 32 :=
  if useDivision then (a + b) % order else foldMsb (a + b)

def toReducedU32 (useDivision : Bool) (word : BitVec 32) : BitVec 32 :=
  if useDivision then word else if word = order then 0 else word

def subtractOrder (c : BitVec 32) : BitVec 32 := if order ≤ c then c - order else c

def fromNonreducedU32 (useDivision : Bool) (c : BitVec 32) : BitVec 32 :=
  if useDivision then c % order else subtractOrder (subtractOrder c)

def fromU64 (value : BitVec 64) : Option (BitVec 32) :=
  if order ≤ value.setWidth 32 then none else some (value.setWidth 32)

def fromU64WithReduction (value : BitVec 64) : BitVec 32 :=
  (value % order.setWidth 64).setWidth 32

def fromU62 (useDivision : Bool) (x : BitVec 64) : BitVec 32 :=
  addMod useDivision (x.setWidth 32 &&& lowMask) ((x >>> 31).setWidth 32)

def fromNegativeU64WithReduction (x : BitVec 64) : BitVec 32 :=
  let low := x.setWidth 32 &&& lowMask
  let high := (x >>> 31).setWidth 32 &&& lowMask
  let sign := (x >>> 63).setWidth 32
  subtractOrder (foldMsb (low + high - sign))

theorem toNat_and_lowMask (word : BitVec 32) : (word &&& lowMask).toNat = word.toNat % 2 ^ 31 :=
  Nat.and_two_pow_sub_one_eq_mod word.toNat 31

theorem xor_msbitMask (word : BitVec 32) : word ^^^ (word &&& msbitMask) = word &&& lowMask := by
  apply BitVec.eq_of_getElem_eq
  intro index bound
  interval_cases index <;> simp [msbitMask, lowMask]

theorem and_msbitMask_ne_zero (word : BitVec 32) :
    (word &&& msbitMask != 0) = true ↔ 2 ^ 31 ≤ word.toNat := by
  have digit : (word &&& msbitMask).toNat = (word.toNat.testBit 31).toNat * 2 ^ 31 :=
    Nat.and_two_pow word.toNat 31
  have bound := word.isLt
  rw [Nat.testBit_eq_decide_div_mod_eq] at digit
  rw [bne_iff_ne, ne_eq, ← BitVec.toNat_inj, digit]
  by_cases high : word.toNat / 2 ^ 31 % 2 = 1
  · simp only [high]
    simp
    omega
  · simp only [high]
    simp
    omega

theorem toNat_foldMsb (sum : BitVec 32) :
    (foldMsb sum).toNat = sum.toNat % 2 ^ 31 + sum.toNat / 2 ^ 31 := by
  have bound := sum.isLt
  simp only [foldMsb, xor_msbitMask, and_msbitMask_ne_zero, BitVec.toNat_add, toNat_and_lowMask]
  by_cases high : 2 ^ 31 ≤ sum.toNat
  · rw [if_pos high]
    simp
    omega
  · rw [if_neg high]
    simp
    omega

theorem toNat_order : order.toNat = 2147483647 := rfl

theorem toNat_subtractOrder (c : BitVec 32) :
    (subtractOrder c).toNat = if 2147483647 ≤ c.toNat then c.toNat - 2147483647 else c.toNat := by
  by_cases above : order ≤ c
  · rw [subtractOrder, if_pos above, BitVec.toNat_sub_of_le above, toNat_order, if_pos]
    exact above
  · rw [subtractOrder, if_neg above, if_neg]
    exact above

theorem fromU64_eq_iff (value : BitVec 64) :
    fromU64 value = (if value.toNat < 2147483647 then some (value.setWidth 32) else none) ↔
      value.toNat < 2 ^ 32 ∨ 2147483647 ≤ value.toNat % 2 ^ 32 := by
  have low : (value.setWidth 32).toNat = value.toNat % 2 ^ 32 := BitVec.toNat_setWidth 32 value
  simp only [fromU64, BitVec.le_def, low, toNat_order]
  by_cases small : value.toNat < 2147483647
  · rw [if_pos small, if_neg (by omega)]
    simp
    omega
  · rw [if_neg small]
    simp
    omega

theorem toNat_fromU64WithReduction (value : BitVec 64) :
    (fromU64WithReduction value).toNat = value.toNat % 2147483647 := by
  have reduced : (value % order.setWidth 64).toNat = value.toNat % 2147483647 :=
    BitVec.toNat_umod
  rw [fromU64WithReduction, BitVec.toNat_setWidth, reduced]
  omega

theorem toNat_fromNonreducedU32 (useDivision : Bool) (c : BitVec 32) :
    (fromNonreducedU32 useDivision c).toNat = c.toNat % 2147483647 := by
  have bound := c.isLt
  rw [fromNonreducedU32]
  split
  · exact BitVec.toNat_umod
  · rw [toNat_subtractOrder, toNat_subtractOrder]
    split_ifs <;> omega

/-- Below `2^62` the high part has 31 bits as well, and the sum of both parts does not wrap. -/
theorem toNat_fromU62 (useDivision : Bool) (x : BitVec 64) (bound : x.toNat < 2 ^ 62) :
    (toReducedU32 useDivision (fromU62 useDivision x)).toNat = x.toNat % 2147483647 := by
  have sum : ((x.setWidth 32 &&& lowMask) + (x >>> 31).setWidth 32).toNat =
      x.toNat % 2 ^ 31 + x.toNat / 2 ^ 31 := by
    rw [BitVec.toNat_add, toNat_and_lowMask, BitVec.toNat_setWidth, BitVec.toNat_setWidth,
      BitVec.toNat_ushiftRight, Nat.shiftRight_eq_div_pow]
    omega
  cases useDivision with
  | true =>
    change ((_ + _) % order).toNat = _
    rw [BitVec.toNat_umod, sum, toNat_order]
    omega
  | false =>
    have folded := toNat_foldMsb ((x.setWidth 32 &&& lowMask) + (x >>> 31).setWidth 32)
    rw [sum] at folded
    change (if foldMsb _ = order then 0 else foldMsb _).toNat = _
    split
    · rename_i full
      rw [full, toNat_order] at folded
      change 0 = x.toNat % 2147483647
      omega
    · rename_i below
      rw [← BitVec.toNat_inj, folded, toNat_order] at below
      omega

theorem fromNegative_eq (x : BitVec 64) : (fromNegativeU64WithReduction x).toNat =
    let parts := x.toNat % 2 ^ 31 + x.toNat / 2 ^ 31 % 2 ^ 31
    let wrapped := (parts + (2 ^ 32 - x.toNat / 2 ^ 63)) % 2 ^ 32
    let sum := wrapped % 2 ^ 31 + wrapped / 2 ^ 31
    if 2147483647 ≤ sum then sum - 2147483647 else sum := by
  have low : (x.setWidth 32 &&& lowMask).toNat = x.toNat % 2 ^ 31 := by
    rw [toNat_and_lowMask, BitVec.toNat_setWidth]
    omega
  have high : ((x >>> 31).setWidth 32 &&& lowMask).toNat = x.toNat / 2 ^ 31 % 2 ^ 31 := by
    rw [toNat_and_lowMask, BitVec.toNat_setWidth, BitVec.toNat_ushiftRight,
      Nat.shiftRight_eq_div_pow]
    omega
  have sign : ((x >>> 63).setWidth 32).toNat = x.toNat / 2 ^ 63 := by
    have bound := x.isLt
    rw [BitVec.toNat_setWidth, BitVec.toNat_ushiftRight, Nat.shiftRight_eq_div_pow]
    omega
  rw [fromNegativeU64WithReduction, toNat_subtractOrder, toNat_foldMsb, BitVec.toNat_sub,
    BitVec.toNat_add, low, high, sign, Nat.add_comm (2 ^ 32 - _), Nat.mod_add_mod]

theorem toInt_eq_parts (x : BitVec 64) (lower : -2 ^ 62 ≤ x.toInt) (upper : x.toInt < 2 ^ 62) :
    x.toInt = (x.toNat % 2 ^ 31 : ℕ) + 2 ^ 31 * (x.toNat / 2 ^ 31 % 2 ^ 31 : ℕ) -
      2 ^ 62 * (x.toNat / 2 ^ 63 : ℕ) := by
  have bound := x.isLt
  rw [BitVec.toInt_eq_toNat_cond] at lower upper ⊢
  split_ifs at lower upper ⊢ <;> omega

theorem fromNegative_iff (x : BitVec 64) (lower : -2 ^ 62 ≤ x.toInt) (upper : x.toInt < 2 ^ 62) :
    ((fromNegativeU64WithReduction x).toNat : ℤ) = x.toInt % 2147483647 ↔ x.toInt ≠ -2 ^ 62 := by
  have lowBound : x.toNat % 2 ^ 31 < 2 ^ 31 := by omega
  have highBound : x.toNat / 2 ^ 31 % 2 ^ 31 < 2 ^ 31 := by omega
  have signBound : x.toNat / 2 ^ 63 < 2 := by
    have bound := x.isLt
    omega
  rw [fromNegative_eq, toInt_eq_parts x lower upper]
  generalize x.toNat % 2 ^ 31 = low at *
  generalize x.toNat / 2 ^ 31 % 2 ^ 31 = high at *
  generalize x.toNat / 2 ^ 63 = sign at *
  dsimp only
  by_cases least : low + high < sign
  · have zeros : low = 0 ∧ high = 0 ∧ sign = 1 := by omega
    rw [zeros.1, zeros.2.1, zeros.2.2]
    decide
  · have wrapped : (low + high + (2 ^ 32 - sign)) % 2 ^ 32 = low + high - sign := by omega
    rw [wrapped]
    constructor
    · omega
    · intro _
      split_ifs <;> omega

/-- The left rotation of 31 bits that `mul_2exp_u64` makes. -/
def rotateLeft (word : BitVec 32) (exp : ℕ) : BitVec 32 :=
  ((word <<< exp) &&& lowMask) ||| (word >>> (31 - exp))

/-- The right rotation of 31 bits that `div_2exp_u64` makes. -/
def rotateRight (word : BitVec 32) (exp : ℕ) : BitVec 32 :=
  (word >>> exp) ||| ((word <<< (31 - exp)) &&& lowMask)

theorem rotateRight_eq (word : BitVec 32) {exp : ℕ} (small : exp ≤ 31) :
    rotateRight word exp = rotateLeft word (31 - exp) := by
  rw [rotateRight, rotateLeft, BitVec.or_comm, Nat.sub_sub_self small]

theorem toNat_rotateLeft {word : BitVec 32} {exp high low : ℕ} (small : exp ≤ 31)
    (lowBound : low < 2 ^ (31 - exp)) (highBound : high < 2 ^ exp)
    (parts : word.toNat = 2 ^ (31 - exp) * high + low) :
    (rotateLeft word exp).toNat = 2 ^ exp * low + high := by
  have whole : 2 ^ exp * 2 ^ (31 - exp) = 2 ^ 31 := by
    rw [← pow_add, Nat.add_sub_cancel' small]
  have shifted : word.toNat * 2 ^ exp = 2 ^ 31 * high + 2 ^ exp * low := by
    rw [parts, ← whole]
    ring
  have lowFits : 2 ^ exp * low < 2 ^ 31 := by
    rw [← whole]
    exact Nat.mul_lt_mul_of_pos_left lowBound (Nat.two_pow_pos exp)
  have left : ((word <<< exp) &&& lowMask).toNat = 2 ^ exp * low := by
    rw [toNat_and_lowMask, BitVec.toNat_shiftLeft, Nat.shiftLeft_eq, shifted]
    omega
  have right : (word >>> (31 - exp)).toNat = high := by
    rw [BitVec.toNat_ushiftRight, Nat.shiftRight_eq_div_pow, parts,
      Nat.mul_add_div (Nat.two_pow_pos _), Nat.div_eq_of_lt lowBound, Nat.add_zero]
  rw [rotateLeft, BitVec.toNat_or, left, right, Nat.two_pow_add_eq_or_of_lt highBound]

section

variable {word : BitVec 32} {exp : ℕ} (bounded : word.toNat < 2 ^ 31) (small : exp ≤ 31)

include bounded small

theorem toNat_rotateLeft_eq : (rotateLeft word exp).toNat =
    2 ^ exp * (word.toNat % 2 ^ (31 - exp)) + word.toNat / 2 ^ (31 - exp) := by
  apply toNat_rotateLeft small (Nat.mod_lt _ (Nat.two_pow_pos _))
  · apply Nat.div_lt_of_lt_mul
    rwa [← pow_add, Nat.sub_add_cancel small]
  · exact (Nat.div_add_mod _ _).symm

theorem rotateLeft_rotateLeft : rotateLeft (rotateLeft word exp) (31 - exp) = word := by
  apply BitVec.eq_of_toNat_eq
  rw [toNat_rotateLeft (Nat.sub_le 31 exp) _ (Nat.mod_lt word.toNat (Nat.two_pow_pos _))
    (by rw [Nat.sub_sub_self small, toNat_rotateLeft_eq bounded small])]
  · exact Nat.div_add_mod _ _
  · rw [Nat.sub_sub_self small]
    apply Nat.div_lt_of_lt_mul
    rwa [← pow_add, Nat.sub_add_cancel small]

theorem rotateLeft_value :
    (((rotateLeft word exp).toNat : ℕ) : Mersenne31Field) = (word.toNat : ℕ) * 2 ^ exp := by
  have parts := Nat.div_add_mod word.toNat (2 ^ (31 - exp))
  have whole : (2 : Mersenne31Field) ^ (31 - exp) * 2 ^ exp = 1 := by
    rw [← pow_add, Nat.sub_add_cancel small]
    rfl
  rw [toNat_rotateLeft_eq bounded small]
  nth_rewrite 3 [← parts]
  generalize word.toNat / 2 ^ (31 - exp) = high
  generalize word.toNat % 2 ^ (31 - exp) = low
  push_cast
  linear_combination -(high : Mersenne31Field) * whole

end

theorem rotateLeft_lt {word : BitVec 32} (exp : ℕ) (bounded : word.toNat < 2 ^ 31) :
    (rotateLeft word exp).toNat < 2 ^ 31 := by
  rw [rotateLeft, BitVec.toNat_or, toNat_and_lowMask, BitVec.toNat_ushiftRight]
  apply Nat.or_lt_two_pow (Nat.mod_lt _ (Nat.two_pow_pos 31))
  rw [Nat.shiftRight_eq_div_pow]
  exact lt_of_le_of_lt (Nat.div_le_self _ _) bounded

def exponent (exp : BitVec 64) : ℕ := exp.toNat % 31

theorem exponent_le (exp : BitVec 64) : exponent exp ≤ 31 := by
  rw [exponent]
  omega

theorem two_pow_exponent (exp : BitVec 64) : (2 : Mersenne31Field) ^ exponent exp = 2 ^ exp.toNat :=
  (pow_eq_pow_mod _ rfl).symm

namespace Element

variable (element : Element) (exp : BitVec 64)

def mul2ExpU64 : Element :=
  ⟨rotateLeft element.word (exponent exp), rotateLeft_lt _ element.bounded⟩

def div2ExpU64 : Element where
  word := rotateRight element.word (exponent exp)
  bounded := by
    rw [rotateRight_eq _ (exponent_le exp)]
    exact rotateLeft_lt _ element.bounded

theorem mul2ExpU64_value :
    (element.mul2ExpU64 exp).value = element.value * 2 ^ exp.toNat := by
  rw [← two_pow_exponent]
  exact rotateLeft_value element.bounded (exponent_le exp)

theorem div2ExpU64_mul2ExpU64 :
    (element.mul2ExpU64 exp).div2ExpU64 exp = element := by
  apply Element.ext
  exact (rotateRight_eq _ (exponent_le exp)).trans
    (rotateLeft_rotateLeft element.bounded (exponent_le exp))

theorem mul2ExpU64_div2ExpU64 :
    (element.div2ExpU64 exp).mul2ExpU64 exp = element := by
  apply Element.ext
  have undone := rotateLeft_rotateLeft element.bounded (Nat.sub_le 31 (exponent exp))
  rwa [Nat.sub_sub_self (exponent_le exp), ← rotateRight_eq _ (exponent_le exp)] at undone

theorem div2ExpU64_value :
    (element.div2ExpU64 exp).value = element.value / 2 ^ exp.toNat := by
  have two : (2 : Mersenne31Field) ^ exp.toNat ≠ 0 := pow_ne_zero _ (by decide)
  rw [eq_div_iff two, ← mul2ExpU64_value, mul2ExpU64_div2ExpU64]

end Element

/-- Every conversion returns the residue of its input, and the rotations multiply and divide by
powers of two, but for two kinds of inputs. `from_u64` looks at the low 32 bits only, and the most
negative input of `from_negative_u64_with_reduction` wraps below zero. -/
theorem conversions_faithful_iff (useDivision : Bool) :
    (∀ value : BitVec 64,
      (fromU64 value = (if value.toNat < 2147483647 then some (value.setWidth 32) else none) ↔
        value.toNat < 2 ^ 32 ∨ 2147483647 ≤ value.toNat % 2 ^ 32) ∧
      (fromU64WithReduction value).toNat = value.toNat % 2147483647 ∧
      (value.toNat < 2 ^ 62 →
        (toReducedU32 useDivision (fromU62 useDivision value)).toNat = value.toNat % 2147483647) ∧
      (-2 ^ 62 ≤ value.toInt → value.toInt < 2 ^ 62 →
        (((fromNegativeU64WithReduction value).toNat : ℤ) = value.toInt % 2147483647 ↔
          value.toInt ≠ -2 ^ 62))) ∧
    (∀ c : BitVec 32, (fromNonreducedU32 useDivision c).toNat = c.toNat % 2147483647) ∧
    ∀ (element : Element) (exp : BitVec 64),
      (element.mul2ExpU64 exp).value = element.value * 2 ^ exp.toNat ∧
      (element.div2ExpU64 exp).value = element.value / 2 ^ exp.toNat ∧
      (element.mul2ExpU64 exp).div2ExpU64 exp = element ∧
      (element.div2ExpU64 exp).mul2ExpU64 exp = element := by
  constructor
  · intro value
    exact ⟨fromU64_eq_iff value, toNat_fromU64WithReduction value, toNat_fromU62 useDivision value,
      fromNegative_iff value⟩
  constructor
  · exact toNat_fromNonreducedU32 useDivision
  · intro element exp
    exact ⟨element.mul2ExpU64_value exp, element.div2ExpU64_value exp,
      element.div2ExpU64_mul2ExpU64 exp, element.mul2ExpU64_div2ExpU64 exp⟩

/-- `2^32` is taken for zero, and `-2^62` becomes one in place of minus one. -/
theorem conversions_not_faithful :
    fromU64 4294967296 = some 0 ∧
      (BitVec.ofInt 64 (-2 ^ 62)).toInt = -2 ^ 62 ∧ (-2 ^ 62 : ℤ) % 2147483647 = 2147483646 ∧
      fromNegativeU64WithReduction (BitVec.ofInt 64 (-2 ^ 62)) = 1 := by
  decide

end Airbender.Field

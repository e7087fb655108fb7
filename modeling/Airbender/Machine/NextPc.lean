import Airbender.Machine.Decoder
import Airbender.Cs.FamilyContext

/-!
# The next program counter

`calculate_pc_next_no_overflows` is satisfiable exactly when `pc + 4` does not leave the 32-bit
range, and the proposals of the families are combined into one.
-/

namespace Airbender.Machine

open CircuitLib Circuit Mersenne31Field Cs OptimizationContext

def pcIncStep : F := 4

def pcCarry (low next : F) : F := (low + pcIncStep - next) * (2 ^ 16)⁻¹

/-- `calculate_pc_next_no_overflows`: the carry is a linear expression that has to be Boolean, and
the high limb must not leave its range. -/
def calculatePcNextNoOverflows (pc : Register) : Assembly Register := do
  let pcNextLow ← addVariable
  requireRangeChecked pcNextLow 16
  let carry := pcCarry pc.low.value pcNextLow
  addConstraint (carry * (carry - 1))
  let pcNextHigh ← addVariableFromConstraint (carry + pc.high.value)
  let inversionWitness ← addVariable
  addConstraint (inversionWitness * (pcNextHigh - 2 ^ 16) - 1)
  let _ ← pc.low.getVariable
  let _ ← pc.high.getVariable
  pure ⟨.var pcNextLow, .var pcNextHigh⟩

namespace CommonDiffs

def defaultCase (source : CommonDiffs) : Option Boolean :=
  match source.newPcValue with
  | .default => some source.execFlag
  | .custom _ => none

def customCase (source : CommonDiffs) : Option (Boolean × Register) :=
  match source.newPcValue with
  | .default => none
  | .custom target => some (source.execFlag, target)

def selectFinalPcValue (sources : List CommonDiffs) (defaultNextPc : Register) :
    Assembly Register := do
  let defaultCaseExecFlags := sources.filterMap defaultCase
  let nonDefaultCases := sources.filterMap customCase
  assert (sources.all fun source => source.execFlag.isIs)
  nonDefaultCases.forM fun (_, target) => do
    let _ ← target.low.getVariable
    let _ ← target.high.getVariable
  let low ← addVariable
  let high ← addVariable
  let _ ← defaultNextPc.low.getVariable
  let _ ← defaultNextPc.high.getVariable
  let masked := fun (limb : Register → Cs.Num) =>
    nonDefaultCases.foldl (fun accumulator (flag, target) =>
      maskByBooleanIntoAccumulatorConstraint flag (limb target) accumulator)
      (defaultCaseExecFlags.foldl (fun accumulator flag =>
        maskByBooleanIntoAccumulatorConstraint flag (limb defaultNextPc) accumulator) 0)
  addConstraint (masked Register.low - low)
  addConstraint (masked Register.high - high)
  pure ⟨.var low, .var high⟩

end CommonDiffs

/-- The end of a row in which one family executes: the new values of `rd` and of the program
counter. -/
def finishRow (diffs : CommonDiffs) (pcNext : Register) : Assembly (Register × Register) := do
  let rd ← CommonDiffs.selectFinalRdValue [diffs]
  let nextPc ← CommonDiffs.selectFinalPcValue [diffs] pcNext
  pure (rd, nextPc)

theorem yields_finishRow (rd target : F × F) (pcNext : BitVec 32) (result : Register × Register) :
    (finishRow ⟨.is (bit true), [(rd, .is (bit true))], .custom ⟨.var target.1, .var target.2⟩⟩
      (.ofWord pcNext)).Yields result ↔
      (⟨.var rd.1, .var rd.2⟩, ⟨.var target.1, .var target.2⟩) = result := by
  simp [finishRow, CommonDiffs.selectFinalRdValue, CommonDiffs.selectFinalPcValue,
    CommonDiffs.defaultCase, CommonDiffs.customCase, List.filterMap_cons, mask_by_boolean_eq,
    sub_eq_zero]

theorem pcCarry_eq_iff {low next : ℕ} (lowBound : low < 2 ^ 16) (nextBound : next < 2 ^ 16)
    (flag : Bool) :
    bit flag = pcCarry (low : F) (next : F) ↔ low + 4 = next + 2 ^ 16 * flag.toNat := by
  have invertible : (2 ^ 16 : F) ≠ 0 := by decide
  have flagBound := flag.toNat_lt
  rw [pcCarry, eq_mul_inv_iff_mul_eq₀ invertible, bit_eq_natCast, pcIncStep]
  constructor
  · intro scaled
    apply nat_eq
    · push_cast
      linear_combination -scaled
    · omega
    · omega
  · intro sum
    have lifted := congrArg (fun number : ℕ => (number : F)) sum
    push_cast at lifted
    linear_combination -lifted

theorem pcCarry_boolean_iff {low next : ℕ} (lowBound : low < 2 ^ 16) (nextBound : next < 2 ^ 16) :
    pcCarry (low : F) (next : F) * (pcCarry (low : F) (next : F) - 1) = 0 ↔
      ∃ flag : Bool, low + 4 = next + 2 ^ 16 * flag.toNat := by
  have boolean : ∀ carry : F, carry * (carry - 1) = 0 ↔ (1 - carry) * carry = 0 := by
    intro carry
    rw [mul_comm, ← neg_sub, neg_mul, neg_eq_zero]
  rw [boolean, boolean_iff]
  exact exists_congr (pcCarry_eq_iff lowBound nextBound)

theorem exists_inversion_iff (value : F) :
    (∃ inversion : F, inversion * value - 1 = 0) ↔ value ≠ 0 := by
  constructor
  · rintro ⟨inversion, inverse⟩ rfl
    rw [mul_zero, zero_sub, neg_eq_zero] at inverse
    exact one_ne_zero inverse
  · intro nonzero
    exact ⟨value⁻¹, by rw [inv_mul_cancel₀ nonzero, sub_self]⟩

theorem pc_next_iff (pc : BitVec 32) (low high : ℕ) :
    (low < 2 ^ 16 ∧ ∃ carry : Bool, lowLimb pc + 4 = low + 2 ^ 16 * carry.toNat ∧
      high = carry.toNat + highLimb pc ∧ high ≠ 2 ^ 16) ↔
      pc.toNat + 4 < 2 ^ 32 ∧ low = lowLimb (pc + 4) ∧ high = highLimb (pc + 4) := by
  have lowBound := lowLimb_lt pc
  have highBound := highLimb_lt pc
  have limbs := toNat_eq_limbs pc
  have sum : (pc + 4).toNat = (pc.toNat + 4) % 2 ^ 32 := BitVec.toNat_add pc 4
  have nextLimbs := toNat_eq_limbs (pc + 4)
  have nextLow := lowLimb_lt (pc + 4)
  constructor
  · rintro ⟨small, carry, lows, rfl, inside⟩
    have := carry.toNat_lt
    omega
  · rintro ⟨fits, rfl, rfl⟩
    refine ⟨nextLow, decide (2 ^ 16 ≤ lowLimb pc + 4), ?_⟩
    by_cases carries : 2 ^ 16 ≤ lowLimb pc + 4
    · simp only [carries, decide_true, Bool.toNat_true]
      omega
    · simp only [carries, decide_false, Bool.toNat_false]
      omega

theorem yields_calculatePcNextNoOverflows (pc : BitVec 32) (result : Register) :
    (calculatePcNextNoOverflows (.ofWord pc)).Yields result ↔
      pc.toNat + 4 < 2 ^ 32 ∧ .ofWord (pc + 4) = result := by
  simp only [calculatePcNextNoOverflows, yields_bind, yields_addVariable, true_and,
    yields_requireRangeChecked, yields_addConstraint, yields_addVariableFromConstraint,
    exists_eq_left', yields_pure, Register.ofWord_low, Register.ofWord_high, Num.value_var,
    Num.getVariable_var, exists_const, pure_bind, exists_and_right, exists_inversion_iff]
  rw [exists_rangeChecked_iff (by omega)]
  have high : ∀ carry : Bool,
      bit carry + (highLimb pc : F) = ((carry.toNat + highLimb pc : ℕ) : F) := by
    intro carry
    rw [bit_eq_natCast, Nat.cast_add]
  constructor
  · rintro ⟨low, lowBound, boolean, inside, rfl⟩
    obtain ⟨carry, lows⟩ := (pcCarry_boolean_iff (lowLimb_lt pc) lowBound).mp boolean
    rw [← (pcCarry_eq_iff (lowLimb_lt pc) lowBound carry).mpr lows, high] at inside ⊢
    have bounded : carry.toNat + highLimb pc ≠ 2 ^ 16 := by
      intro overflow
      rw [overflow] at inside
      exact inside (by decide)
    obtain ⟨fits, sameLow, sameHigh⟩ :=
      (pc_next_iff pc _ _).mp ⟨lowBound, carry, lows, rfl, bounded⟩
    rw [sameLow, sameHigh]
    exact ⟨fits, rfl⟩
  · rintro ⟨fits, rfl⟩
    obtain ⟨lowBound, carry, lows, sameHigh, bounded⟩ := (pc_next_iff pc _ _).mpr ⟨fits, rfl, rfl⟩
    refine ⟨_, lowBound, (pcCarry_boolean_iff (lowLimb_lt pc) lowBound).mpr ⟨carry, lows⟩, ?_⟩
    rw [← (pcCarry_eq_iff (lowLimb_lt pc) lowBound carry).mpr lows, high, ← sameHigh]
    refine ⟨?_, rfl⟩
    intro vanishes
    apply bounded
    apply nat_eq
    · push_cast
      exact sub_eq_zero.mp vanishes
    · have := highLimb_lt (pc + 4)
      omega
    · omega

end Airbender.Machine

import Airbender.Cs.Basic

/-!
# Gadgets

Boolean algebra on flags, registers of two 16-bit limbs, selection between candidate values and
zero tests, with the branches of the source. Each gadget has one lemma that says what it yields.
-/

namespace Airbender.Cs

open CircuitLib Circuit Mersenne31Field

namespace Boolean

def and : Boolean → Boolean → Assembly Boolean
  | constant false, _ => pure (constant false)
  | _, constant false => pure (constant false)
  | constant true, other => pure other
  | other, constant true => pure other
  | is a, not b => do return is (← addVariableFromConstraint (a * (1 - b)))
  | not b, is a => do return is (← addVariableFromConstraint (a * (1 - b)))
  | not a, not b => do return is (← addVariableFromConstraint ((1 - a) * (1 - b)))
  | is a, is b => do return is (← addVariableFromConstraint (a * b))

def or : Boolean → Boolean → Assembly Boolean
  | constant true, _ => pure (constant true)
  | _, constant true => pure (constant true)
  | constant false, other => pure other
  | other, constant false => pure other
  | is a, not b => do return is (← addVariableFromConstraint (1 - b + a * b))
  | not b, is a => do return is (← addVariableFromConstraint (1 - b + a * b))
  | not _, not _ => abort
  | is a, is b => do return is (← addVariableFromConstraint (a + b - a * b))

def xor : Boolean → Boolean → Assembly Boolean
  | constant false, other => pure other
  | other, constant false => pure other
  | constant true, other => pure other.toggle
  | other, constant true => pure other.toggle
  | is a, is b => do return is (← addVariableFromConstraint (a + b - a * b * 2))
  | _, _ => abort

/-- Selection between two Booleans; a negated flag or a negated candidate is not supported. -/
def choose (flag : Boolean) : (ifTrue ifFalse : Boolean) → Assembly Boolean
  | constant a, constant b =>
    if a = b then pure (constant a)
    else
      match flag with
      | constant flag => pure (constant (if flag then a else b))
      | is condition => do
          let difference : F := (constant a).value - (constant b).value
          return is (← addVariableFromConstraint (condition * difference + (constant b).value))
      | not _ => abort
  | is a, is b =>
    match flag with
    | constant flag => pure (if flag then is a else is b)
    | is condition => do return is (← addVariableFromConstraint (condition * (a - b) + b))
    | not _ => abort
  | is a, constant b =>
    match flag with
    | constant flag => pure (if flag then is a else constant b)
    | is condition => do
        let other := (constant b).value
        return is (← addVariableFromConstraint (condition * (a - other) + other))
    | not _ => abort
  | constant a, is b =>
    match flag with
    | constant flag => pure (if flag then constant a else is b)
    | is condition => do
        let other := (constant a).value
        return is (← addVariableFromConstraint (condition * (other - b) + b))
    | not _ => abort
  | _, _ => abort

@[simp] theorem yields_and_is_is (a b : F) (result : Boolean) :
    (Boolean.and (is a) (is b)).Yields result ↔ is (a * b) = result := by
  simp [Boolean.and]

@[simp] theorem yields_and_is_not (a b : F) (result : Boolean) :
    (Boolean.and (is a) (not b)).Yields result ↔ is (a * (1 - b)) = result := by
  simp [Boolean.and]

@[simp] theorem yields_and_not_not (a b : F) (result : Boolean) :
    (Boolean.and (not a) (not b)).Yields result ↔ is ((1 - a) * (1 - b)) = result := by
  simp [Boolean.and]

@[simp] theorem yields_or_is_is (a b : F) (result : Boolean) :
    (Boolean.or (is a) (is b)).Yields result ↔ is (a + b - a * b) = result := by
  simp [Boolean.or]

@[simp] theorem yields_xor_is_is (a b : F) (result : Boolean) :
    (Boolean.xor (is a) (is b)).Yields result ↔ is (a + b - a * b * 2) = result := by
  simp [Boolean.xor]

@[simp] theorem yields_choose_is_is (condition a b : F) (result : Boolean) :
    (Boolean.choose (is condition) (is a) (is b)).Yields result ↔
      is (condition * (a - b) + b) = result := by
  simp [Boolean.choose]

@[simp] theorem yields_choose_is_false (condition a : F) (result : Boolean) :
    (Boolean.choose (is condition) (is a) (constant false)).Yields result ↔
      is (condition * a) = result := by
  simp [Boolean.choose, Boolean.value]

end Boolean

def chooseVarConstant (flag : Boolean) (a constant : F) : Assembly Num :=
  match flag with
  | .constant flag => pure (if flag then .var a else .constant constant)
  | .is condition => do
      return .var (← addVariableFromConstraint (condition * (a - constant) + constant))
  | .not condition => do
      return .var (← addVariableFromConstraint (condition * (constant - a) + a))

/-- `Circuit::choose`. A constant first candidate is handled by toggling the flag. -/
def choose (flag : Boolean) : (ifTrue ifFalse : Num) → Assembly Num
  | .var a, .var b =>
    match flag with
    | .constant flag => pure (if flag then .var a else .var b)
    | .is condition => do
        return .var (← addVariableFromConstraint (condition * (a - b) + b))
    | .not _ => abort
  | .var a, .constant constant => chooseVarConstant flag a constant
  | .constant constant, .var b => chooseVarConstant flag.toggle b constant
  | .constant a, .constant b =>
    if a = b then pure (.constant a)
    else
      match flag with
      | .constant flag => pure (.constant (if flag then a else b))
      | .is condition => do
          return .var (← addVariableFromConstraint (condition * (a - b) + b))
      | .not condition => do
          return .var (← addVariableFromConstraint (condition * (b - a) + a))

@[simp] theorem yields_choose_var_var (condition a b : F) (result : Num) :
    (choose (.is condition) (.var a) (.var b)).Yields result ↔
      .var (condition * (a - b) + b) = result := by
  simp [choose]

def maskByBooleanIntoAccumulatorConstraint (boolean : Boolean) (number : Num) (accumulator : F) :
    F :=
  match number, boolean with
  | .var value, .constant flag => if flag then accumulator + value else accumulator
  | .var value, .is bit => value * bit + accumulator
  | .var value, .not bit => value * (1 - bit) + accumulator
  | .constant value, .is bit => value * bit + accumulator
  | .constant value, .not bit => value * (1 - bit) + accumulator
  | .constant value, .constant flag => if flag then accumulator + value else accumulator

theorem mask_by_boolean_eq (boolean : Boolean) (number : Num) (accumulator : F) :
    maskByBooleanIntoAccumulatorConstraint boolean number accumulator =
      accumulator + boolean.value * number.value := by
  cases number <;> cases boolean with
  | is bit => simp [maskByBooleanIntoAccumulatorConstraint]; ring
  | not bit => simp [maskByBooleanIntoAccumulatorConstraint]; ring
  | constant flag => cases flag <;> simp [maskByBooleanIntoAccumulatorConstraint, Boolean.value]

def selected (flags : List Boolean) (variants : List F) : F :=
  ((flags.zip variants).map fun entry => entry.1.value * entry.2).sum

@[simp] theorem selected_nil (variants : List F) : selected [] variants = 0 := rfl

@[simp] theorem selected_cons (flag : Boolean) (flags : List Boolean) (variant : F)
    (variants : List F) :
    selected (flag :: flags) (variant :: variants) =
      flag.value * variant + selected flags variants := by
  simp [selected]

/-- `spec_choose_from_orthogonal_variants` without negated flags. -/
def specChooseFromOrthogonalVariantsNoNots (flags : List Boolean) (variants : List Num) :
    Assembly Num := do
  let constraint := (flags.zip variants).foldl
    (fun accumulator entry => accumulator + entry.1.value * entry.2.value) 0
  return .var (← addVariableFromConstraint constraint)

def specChooseFromOrthogonalVariants (flags : List Boolean) (variants : List Num) :
    Assembly Num := do
  assert (flags.length == variants.length)
  if flags.all Boolean.isIs then
    specChooseFromOrthogonalVariantsNoNots flags variants
  else
    assert (!flags.any Boolean.isConstant)
    let constraint := (flags.zip variants).foldl
      (fun accumulator entry =>
        maskByBooleanIntoAccumulatorConstraint entry.1 entry.2 accumulator) 0
    return .var (← addVariableFromConstraint constraint)

def chooseFromOrthogonalVariants (flags : List Boolean) (variants : List Num) : Assembly Num := do
  assert (!flags.isEmpty)
  specChooseFromOrthogonalVariants flags variants

/-- The variant of the selection whose candidates are linear expressions. A negated flag has no
term of its own, so it is refused together with constant flags. -/
def chooseFromOrthogonalVariantsForLinearTerms (flags : List Boolean) (variants : List F) :
    Assembly Num := do
  assert (!flags.isEmpty)
  assert (flags.length == variants.length)
  assert (flags.all Boolean.isIs)
  let constraint := (flags.zip variants).foldl
    (fun accumulator entry => accumulator + entry.2 * entry.1.value) 0
  return .var (← addVariableFromConstraint constraint)

theorem foldl_accumulate {α : Type} (entries : List α) (weight : α → F) (start : F) :
    entries.foldl (fun accumulator entry => accumulator + weight entry) start =
      start + (entries.map weight).sum := by
  induction entries generalizing start with
  | nil => simp
  | cons entry entries ih => simp [ih, add_assoc]

theorem selected_values (flags : List Boolean) (variants : List Num) :
    ((flags.zip variants).map fun entry => entry.1.value * entry.2.value).sum =
      selected flags (variants.map Num.value) := by
  rw [selected, List.zip_map_right]
  simp [Function.comp_def]

@[simp] theorem yields_chooseFromOrthogonalVariants {flags : List Boolean} {variants : List Num}
    (result : Num) :
    (chooseFromOrthogonalVariants flags variants).Yields result ↔
      flags ≠ [] ∧ flags.length = variants.length ∧ flags.any Boolean.isConstant = false ∧
        .var (selected flags (variants.map Num.value)) = result := by
  have noNots : flags.all Boolean.isIs = true → flags.any Boolean.isConstant = false := by
    intro allIs
    rw [List.any_eq_false]
    intro flag member
    have isFlag := List.all_eq_true.mp allIs flag member
    cases flag <;> simp_all [Boolean.isIs, Boolean.isConstant]
  have general : (fun (accumulator : F) (entry : Boolean × Num) =>
      maskByBooleanIntoAccumulatorConstraint entry.1 entry.2 accumulator) =
      fun accumulator entry => accumulator + entry.1.value * entry.2.value := by
    funext accumulator entry
    exact mask_by_boolean_eq entry.1 entry.2 accumulator
  simp only [chooseFromOrthogonalVariants, specChooseFromOrthogonalVariants, general,
    specChooseFromOrthogonalVariantsNoNots, foldl_accumulate, zero_add, selected_values]
  by_cases allIs : flags.all Boolean.isIs = true
  · simp [allIs, noNots allIs]
  · simp [allIs]

@[simp] theorem yields_chooseFromOrthogonalVariantsForLinearTerms {flags : List Boolean}
    {variants : List F} (result : Num) :
    (chooseFromOrthogonalVariantsForLinearTerms flags variants).Yields result ↔
      flags ≠ [] ∧ flags.length = variants.length ∧ flags.all Boolean.isIs = true ∧
        .var (selected flags variants) = result := by
  have order : (fun (accumulator : F) (entry : Boolean × F) =>
      accumulator + entry.2 * entry.1.value) =
      fun accumulator entry => accumulator + entry.1.value * entry.2 := by
    funext accumulator entry
    rw [mul_comm]
  simp only [chooseFromOrthogonalVariantsForLinearTerms, order, foldl_accumulate, zero_add]
  simp [selected]

theorem zero_flag_iff {difference flag : F} :
    (∃ inverse, difference * flag = 0 ∧ difference * inverse + flag - 1 = 0) ↔
      bit (decide (difference = 0)) = flag := by
  constructor
  · rintro ⟨inverse, cancels, complement⟩
    by_cases zero : difference = 0
    · rw [zero, zero_mul, zero_add] at complement
      simpa [zero] using (sub_eq_zero.mp complement).symm
    · simpa [zero] using ((mul_eq_zero.mp cancels).resolve_left zero).symm
  · rintro rfl
    by_cases zero : difference = 0
    · exact ⟨0, by simp [zero], by simp [zero]⟩
    · exact ⟨difference⁻¹, by simp [zero], by simp [zero]⟩

/-- A 32-bit register as two 16-bit limbs, least significant first. -/
structure Register where
  low : Num
  high : Num
deriving DecidableEq

namespace Register

def new : Assembly Register := do
  let low ← addVariableWithRangeCheck 16
  let high ← addVariableWithRangeCheck 16
  pure ⟨low, high⟩

def choose (flag : Boolean) (ifTrue ifFalse : Register) : Assembly Register := do
  let low ← Cs.choose flag ifTrue.low ifFalse.low
  let high ← Cs.choose flag ifTrue.high ifFalse.high
  pure ⟨low, high⟩

def chooseFromOrthogonalVariants (flags : List Boolean) (variants : List Register) :
    Assembly Register := do
  let low ← Cs.chooseFromOrthogonalVariants flags (variants.map Register.low)
  let high ← Cs.chooseFromOrthogonalVariants flags (variants.map Register.high)
  pure ⟨low, high⟩

end Register

def lowLimb (word : BitVec 32) : ℕ := word.toNat % 2 ^ 16

def highLimb (word : BitVec 32) : ℕ := word.toNat / 2 ^ 16

variable (word : BitVec 32)

theorem lowLimb_lt : lowLimb word < 2 ^ 16 := Nat.mod_lt _ (by omega)

theorem highLimb_lt : highLimb word < 2 ^ 16 := by
  have := word.isLt
  unfold highLimb
  omega

@[simp] theorem lowLimb_zero : lowLimb 0#32 = 0 := rfl

@[simp] theorem highLimb_zero : highLimb 0#32 = 0 := rfl

theorem toNat_eq_limbs : word.toNat = lowLimb word + 2 ^ 16 * highLimb word := by
  unfold lowLimb highLimb
  omega

theorem exists_word {low high : ℕ} (lowBound : low < 2 ^ 16) (highBound : high < 2 ^ 16) :
    ∃ word : BitVec 32, lowLimb word = low ∧ highLimb word = high := by
  refine ⟨BitVec.ofNat 32 (low + 2 ^ 16 * high), ?_, ?_⟩ <;>
    simp only [lowLimb, highLimb, BitVec.toNat_ofNat] <;> omega

def Register.ofWord (word : BitVec 32) : Register :=
  ⟨.var (lowLimb word : F), .var (highLimb word : F)⟩

@[simp] theorem Register.ofWord_low : (Register.ofWord word).low = .var (lowLimb word : F) := rfl

@[simp] theorem Register.ofWord_high : (Register.ofWord word).high = .var (highLimb word : F) := rfl

theorem limbs_inj {left right : BitVec 32} :
    ((lowLimb left : F) = lowLimb right ∧ (highLimb left : F) = highLimb right) ↔
      left = right := by
  constructor
  · rintro ⟨lowSame, highSame⟩
    have lows := nat_eq lowSame (by have := lowLimb_lt left; omega)
      (by have := lowLimb_lt right; omega)
    have highs := nat_eq highSame (by have := highLimb_lt left; omega)
      (by have := highLimb_lt right; omega)
    apply BitVec.eq_of_toNat_eq
    rw [toNat_eq_limbs left, toNat_eq_limbs right, lows, highs]
  · rintro rfl
    exact ⟨rfl, rfl⟩

@[simp] theorem Register.ofWord_inj {left right : BitVec 32} :
    Register.ofWord left = Register.ofWord right ↔ left = right := by
  rw [← limbs_inj]
  simp [Register.ofWord]

@[simp] theorem Register.yields_new (result : Register) :
    Register.new.Yields result ↔ ∃ word, Register.ofWord word = result := by
  simp only [Register.new, yields_bind, yields_addVariableWithRangeCheck, yields_pure]
  constructor
  · rintro ⟨_, ⟨low, lowBound, rfl⟩, _, ⟨high, highBound, rfl⟩, rfl⟩
    obtain ⟨word, lowSame, highSame⟩ := exists_word lowBound highBound
    refine ⟨word, ?_⟩
    rw [Register.ofWord, lowSame, highSame, ZMod.natCast_zmod_val, ZMod.natCast_zmod_val]
  · rintro ⟨word, rfl⟩
    have lowBound := lowLimb_lt word
    have highBound := highLimb_lt word
    exact ⟨_, ⟨_, by rwa [val_natCast_of_lt (by omega)], rfl⟩, _,
      ⟨_, by rwa [val_natCast_of_lt (by omega)], rfl⟩, rfl⟩

@[simp] theorem Register.yields_choose_ofWord (condition : Bool) (left right : BitVec 32)
    (result : Register) :
    (Register.choose (.is (bit condition)) (.ofWord left) (.ofWord right)).Yields result ↔
      Register.ofWord (if condition then left else right) = result := by
  cases condition <;> simp [Register.choose, Register.ofWord]

@[simp] theorem Register.ofWord_eta :
    (⟨.var (lowLimb word : F), .var (highLimb word : F)⟩ : Register) = .ofWord word := rfl

@[simp] theorem Register.zero_eq_ofWord : (⟨.var 0, .var 0⟩ : Register) = .ofWord 0#32 := by
  simp [Register.ofWord, -Register.ofWord_eta]

/-- `is_zero_reg_explicit`: the limbs of the register are range checked elsewhere, so their sum
vanishes exactly when both do. -/
def isZeroRegExplicit (register : Register) (isZeroFlag : F) : Assembly Unit :=
  match register with
  | ⟨.var low, .var high⟩ => do
      let inverse ← addVariable
      let notZeroFlag := 1 - isZeroFlag
      addConstraint (inverse * (low + high) - notZeroFlag)
      addConstraint ((1 - notZeroFlag) * (low + high))
  | _ => abort

def isZeroReg (register : Register) : Assembly Boolean := do
  let isZeroFlag ← addVariable
  isZeroRegExplicit register isZeroFlag
  pure (.is isZeroFlag)

theorem limb_sum_eq_zero : (lowLimb word : F) + (highLimb word : F) = 0 ↔ word = 0 := by
  have lowBound := lowLimb_lt word
  have highBound := highLimb_lt word
  constructor
  · intro vanishes
    have sum : lowLimb word + highLimb word = 0 := by
      apply nat_eq
      · push_cast
        exact vanishes
      · omega
      · omega
    apply BitVec.eq_of_toNat_eq
    have value := toNat_eq_limbs word
    rw [show (0 : BitVec 32).toNat = 0 from rfl]
    omega
  · rintro rfl
    simp [lowLimb, highLimb]

@[simp] theorem yields_isZeroRegExplicit (flag : F) (result : Unit) :
    (isZeroRegExplicit (.ofWord word) flag).Yields result ↔ bit (decide (word = 0)) = flag := by
  have sumFlag : decide (word = 0) = decide ((lowLimb word : F) + (highLimb word : F) = 0) := by
    simp only [limb_sum_eq_zero]
  rw [sumFlag, ← zero_flag_iff]
  simp only [isZeroRegExplicit, Register.ofWord, yields_bind, yields_addVariable, true_and,
    yields_addConstraint]
  constructor
  · rintro ⟨inverse, _, complement, cancels⟩
    exact ⟨inverse, by linear_combination cancels, by linear_combination complement⟩
  · rintro ⟨inverse, cancels, complement⟩
    exact ⟨inverse, (), by linear_combination complement, by linear_combination cancels⟩

@[simp] theorem yields_isZeroReg (result : Boolean) :
    (isZeroReg (.ofWord word)).Yields result ↔ .is (bit (decide (word = 0))) = result := by
  simp [isZeroReg]

end Airbender.Cs

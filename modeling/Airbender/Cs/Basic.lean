import Airbender.Lib.Circuit
import Airbender.Field.Mersenne31

/-!
# Circuit values and primitive constraints

A variable stands for the value an assignment gives it, so a `Constraint` or `Term` of the source is
the field element it evaluates to. Branches that panic while the circuit is built abort the program.
Witness generation, the degree bookkeeping and the identity of variables are not represented. The
last one decides whether `choose` and `xor` take a shortcut for the same variable twice, and which
terms a selection between orthogonal variants merges. The shortcut of `choose` returns the
candidate, also under a negated flag, which the general branch refuses; that of `xor` returns the
constant zero, the value of the general branch for a Boolean. Merged selections have a model of
their own.
-/

namespace Airbender.Cs

open CircuitLib Circuit Mersenne31Field

abbrev F := Mersenne31Field

abbrev Assembly := Circuit F

inductive Num where
  | var (value : F)
  | constant (value : F)
deriving DecidableEq

namespace Num

def value : Num → F
  | var value => value
  | constant value => value

def getVariable : Num → Assembly F
  | var value => pure value
  | constant _ => abort

variable (value : F)

@[simp] theorem value_var : (var value).value = value := rfl

@[simp] theorem value_constant : (constant value).value = value := rfl

@[simp] theorem getVariable_var : (var value).getVariable = pure value := rfl

end Num

inductive Boolean where
  | is (value : F)
  | not (value : F)
  | constant (value : Bool)
deriving DecidableEq

namespace Boolean

def value : Boolean → F
  | is value => value
  | not value => 1 - value
  | constant value => bit value

def toggle : Boolean → Boolean
  | is value => not value
  | not value => is value
  | constant value => constant (!value)

/-- The variable behind an unnegated flag; every other view of a Boolean has none. -/
def getVariable : Boolean → Assembly F
  | is value => pure value
  | _ => abort

def isConstant : Boolean → Bool
  | constant _ => true
  | _ => false

def isIs : Boolean → Bool
  | is _ => true
  | _ => false

variable (value : F)

@[simp] theorem value_is : (is value).value = value := rfl

@[simp] theorem value_not : (not value).value = 1 - value := rfl

@[simp] theorem toggle_is : (is value).toggle = not value := rfl

@[simp] theorem toggle_not : (not value).toggle = is value := rfl

@[simp] theorem getVariable_is : (is value).getVariable = pure value := rfl

@[simp] theorem isIs_is : (is value).isIs = true := rfl

@[simp] theorem isConstant_is : (is value).isConstant = false := rfl

end Boolean

def Num.fromBooleanIs : Boolean → Assembly Num
  | .is value => pure (.var value)
  | .constant value => pure (.constant (bit value))
  | .not _ => abort

@[simp] theorem Num.fromBooleanIs_is (value : F) :
    Num.fromBooleanIs (.is value) = pure (.var value) := rfl

def addConstraint (constraint : F) : Assembly Unit := require (decide (constraint = 0))

def requireBoolean (fresh : F) : Assembly Unit := addConstraint ((1 - fresh) * fresh)

def requireRangeChecked (fresh : F) (width : ℕ) : Assembly Unit :=
  require (decide (fresh.val < 2 ^ width))

def addBooleanVariable : Assembly Boolean := do
  let fresh ← addVariable
  requireBoolean fresh
  pure (.is fresh)

def addVariableWithRangeCheck (width : ℕ) : Assembly Num := do
  let fresh ← addVariable
  requireRangeChecked fresh width
  pure (.var fresh)

def addVariableFromConstraint (constraint : F) : Assembly F := do
  let fresh ← addVariable
  addConstraint (constraint - fresh)
  pure fresh

@[simp] theorem yields_addConstraint (constraint : F) (result : Unit) :
    (addConstraint constraint).Yields result ↔ constraint = 0 := by
  simp [addConstraint]

@[simp] theorem yields_requireBoolean (fresh : F) (result : Unit) :
    (requireBoolean fresh).Yields result ↔ ∃ flag, bit flag = fresh := by
  simp only [requireBoolean, yields_addConstraint]
  exact boolean_iff fresh

@[simp] theorem yields_requireRangeChecked (fresh : F) (width : ℕ) (result : Unit) :
    (requireRangeChecked fresh width).Yields result ↔ fresh.val < 2 ^ width := by
  simp [requireRangeChecked]

@[simp] theorem yields_addBooleanVariable (result : Boolean) :
    addBooleanVariable.Yields result ↔
      ∃ flag, Boolean.is (bit flag) = result := by
  simp [addBooleanVariable]

@[simp] theorem yields_addVariableWithRangeCheck (width : ℕ) (result : Num) :
    (addVariableWithRangeCheck width).Yields result ↔
      ∃ fresh : F, fresh.val < 2 ^ width ∧ Num.var fresh = result := by
  simp [addVariableWithRangeCheck]

theorem exists_rangeChecked_iff {width : ℕ} (small : width ≤ 30) {motive : F → Prop} :
    (∃ fresh : F, fresh.val < 2 ^ width ∧ motive fresh) ↔
      ∃ number : ℕ, number < 2 ^ width ∧ motive (number : F) := by
  have powers : 2 ^ width ≤ 2 ^ 30 := Nat.pow_le_pow_right (by omega) small
  constructor
  · rintro ⟨fresh, bounded, holds⟩
    exact ⟨fresh.val, bounded, by rwa [ZMod.natCast_zmod_val]⟩
  · rintro ⟨number, bounded, holds⟩
    exact ⟨number, by rwa [val_natCast_of_lt (by omega)], holds⟩

@[simp] theorem yields_addVariableFromConstraint (constraint result : F) :
    (addVariableFromConstraint constraint).Yields result ↔ constraint = result := by
  simp [addVariableFromConstraint, sub_eq_zero]

end Airbender.Cs

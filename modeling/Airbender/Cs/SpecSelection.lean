import Airbender.OneRowCompiler.Substitution

/-!
# Selection between orthogonal variants

The constraint of a selection is the flag-weighted sum of the variants minus a fresh output, merged
term by term; the function that computes the output is rebuilt from the merged terms. Flags and
variants are symbolic, as the merging depends on which variables coincide.
-/

namespace Airbender.SpecSelection

open OneRowCompiler

set_option autoImplicit false

inductive Boolean where
  | is (index : Variable)
  | not (index : Variable)
  | constant (value : Bool)
deriving DecidableEq

inductive Num (F : Type) where
  | var (index : Variable)
  | constant (value : F)

variable {F : Type} [Field F] [DecidableEq F] [ReducedForm F]

def variableTerm (var : Variable) : Term F := .expression 1 [var]

def Num.term : Num F → Term F
  | .var index => variableTerm index
  | .constant value => .constant value

def negation (bit : Variable) : Constraint F := ⟨[.constant 1, (variableTerm bit).scale (-1)]⟩

def maskByBooleanIntoAccumulatorConstraint (boolean : Boolean) (variant : Num F)
    (accumulator : Constraint F) : Option (Constraint F) :=
  match boolean with
  | .constant flag => if flag then some ⟨accumulator.terms ++ [variant.term]⟩ else some accumulator
  | .is bit => do
      let product ← variant.term.mul (variableTerm bit)
      Constraint.add ⟨[product]⟩ accumulator
  | .not bit => do
      let product ← (negation bit).mulTerm variant.term
      product.add accumulator

/-- A negated flag has no term of its own. -/
def Boolean.getTerms : Boolean → Option (Term F)
  | .is index => some (variableTerm index)
  | .not _ => none
  | .constant value => some (.constant (if value then 1 else 0))

def maskLinearTermByBooleanIntoAccumulatorConstraint (boolean : Boolean) (input : Constraint F)
    (accumulator : Constraint F) : Option (Constraint F) := do
  let product ← input.mulTerm (← boolean.getTerms)
  accumulator.add product

structure MaxQuadratic (F : Type) where
  quadratic : List (F × Variable × Variable)
  linear : List (F × Variable)
  constantTerm : F

def quadraticTerm : Term F → Option (F × Variable × Variable)
  | .expression coeff [first, second] => some (coeff, first, second)
  | _ => none

def linearTerm : Term F → Option (F × Variable)
  | .expression coeff [var] => some (coeff, var)
  | _ => none

def splitMaxQuadratic (constraint : Constraint F) : Option (MaxQuadratic F) := do
  let normalized ← constraint.normalize
  let constants := normalized.terms.filter fun term => decide (term.degree = 0)
  guard (normalized.terms.all fun term => decide (term.degree ≤ 2))
  guard (constants.length ≤ 1)
  some
    { quadratic := normalized.terms.filterMap quadraticTerm
      linear := normalized.terms.filterMap linearTerm
      constantTerm := (constants.map Term.getCoef).sum }

/-- `add_constraint`, or `add_constraint_allow_explicit_linear` for a linear constraint. -/
def addConstraint (constraint : Constraint F) : Option (Constraint F) := do
  guard (0 < constraint.degree)
  guard (constraint.degree ≤ 2)
  constraint.normalize

def getBoolean (assignment : Variable → F) (var : Variable) : Bool := decide (assignment var = 1)

/-- `add_assign_masked` for each of the entries. -/
def addAssignMasked (assignment : Variable → F) (entries : List (Variable × F)) (value : F) : F :=
  entries.foldl (fun value entry =>
    if getBoolean assignment entry.1 then value + entry.2 else value) value

/-- What a selection leaves in the circuit: a constraint, and the value of the output as a function
of the variables assigned before. -/
structure Selection (F : Type) where
  constraint : Constraint F
  valueFn : (Variable → F) → F

def parseQuadratic (booleans : List Variable) :
    F × Variable × Variable → Option (Variable × F × Variable)
  | (coeff, first, second) =>
    if first ∈ booleans then do
      guard (second ∉ booleans)
      some (first, coeff, second)
    else do
      guard (second ∈ booleans)
      some (second, coeff, first)

def specChooseFromOrthogonalVariantsForConstraintInner (booleans : List Variable)
    (constraint : Constraint F) (result : Variable) : Option (Selection F) := do
  let split ← splitMaxQuadratic constraint
  let parsedQuadratic ← split.quadratic.mapM (parseQuadratic booleans)
  guard (split.linear.all fun entry => decide (entry.2 ∈ booleans))
  let constraint := ⟨constraint.terms ++ [(variableTerm result).scale (-1)]⟩
  guard (parsedQuadratic.all fun entry => decide (entry.2.1 ≠ 0))
  let quadraticTrivial := parsedQuadratic.filter fun entry => decide (entry.2.1 = 1)
  let quadraticNontrivial := parsedQuadratic.filter fun entry => decide (entry.2.1 ≠ 1)
  guard (split.linear.all fun entry => decide (entry.1 ≠ 0))
  let linearTrivial := split.linear.filter fun entry => decide (entry.1 = 1)
  let linearNontrivial := split.linear.filter fun entry => decide (entry.1 ≠ 1)
  let valueFn := fun assignment =>
    let value := addAssignMasked assignment
      (quadraticTrivial.map fun entry => (entry.1, assignment entry.2.2)) split.constantTerm
    let value := addAssignMasked assignment
      (quadraticNontrivial.map fun entry => (entry.1, entry.2.1 * assignment entry.2.2)) value
    -- one mask for all coefficients that are one
    let value := if linearTrivial.any fun entry => getBoolean assignment entry.2 then value + 1
      else value
    addAssignMasked assignment (linearNontrivial.map fun entry => (entry.2, entry.1)) value
  let constraint ← addConstraint constraint
  some { constraint, valueFn }

/-- The variables of the flags; constant flags are refused. -/
def booleanVars (flags : List Boolean) : Option (List Variable) :=
  flags.mapM fun
    | .is index => some index
    | .not index => some index
    | .constant _ => none

def addVariant (constraint : Constraint F) : Variable × Num F → Option (Constraint F)
  | (flag, .var variant) => do
      let product ← (variableTerm flag).mul (variableTerm variant)
      constraint.add ⟨[product]⟩
  | (flag, .constant value) => some ⟨constraint.terms ++ [.expression value [flag]]⟩

def variableVariant : Variable × Num F → Option (Variable × Variable)
  | (flag, .var variant) => some (flag, variant)
  | (_, .constant _) => none

def constantVariant : Variable × Num F → Option (Variable × F)
  | (_, .var _) => none
  | (flag, .constant value) => some (flag, value)

def specChooseFromOrthogonalVariantsNoNots (flags : List Variable) (variants : List (Num F))
    (result : Variable) : Option (Selection F) := do
  guard (flags.length = variants.length)
  guard flags.Nodup
  let constraint ← (flags.zip variants).foldlM addVariant Constraint.empty
  let parsedQuadratic := (flags.zip variants).filterMap variableVariant
  let parsedLinear := (flags.zip variants).filterMap constantVariant
  let constraint := ⟨constraint.terms ++ [(variableTerm result).scale (-1)]⟩
  let valueFn := fun assignment =>
    let value := addAssignMasked assignment
      (parsedQuadratic.map fun entry => (entry.1, assignment entry.2)) 0
    addAssignMasked assignment parsedLinear value
  let constraint ← addConstraint constraint
  some { constraint, valueFn }

def Boolean.isIs : Boolean → Bool
  | .is _ => true
  | _ => false

def specChooseFromOrthogonalVariants (flags : List Boolean) (variants : List (Num F))
    (result : Variable) : Option (Selection F) := do
  guard (flags.length = variants.length)
  let booleans ← booleanVars flags
  if flags.all Boolean.isIs then
    specChooseFromOrthogonalVariantsNoNots booleans variants result
  else
    let constraint ← (flags.zip variants).foldlM (fun accumulator entry =>
      maskByBooleanIntoAccumulatorConstraint entry.1 entry.2 accumulator) Constraint.empty
    specChooseFromOrthogonalVariantsForConstraintInner booleans constraint result

def specChooseFromOrthogonalVariantsForLinearTerms (flags : List Boolean)
    (variants : List (Constraint F)) (result : Variable) : Option (Selection F) := do
  guard (flags.length = variants.length)
  let booleans ← booleanVars flags
  let constraint ← (flags.zip variants).foldlM (fun accumulator entry =>
    maskLinearTermByBooleanIntoAccumulatorConstraint entry.1 entry.2 accumulator) Constraint.empty
  specChooseFromOrthogonalVariantsForConstraintInner booleans constraint result

namespace Boolean

def value (assignment : Variable → F) : Boolean → F
  | is index => assignment index
  | not index => 1 - assignment index
  | constant flag => if flag then 1 else 0

def holds (assignment : Variable → F) (flag : Boolean) : Bool := decide (flag.value assignment = 1)

def vars : Boolean → List Variable
  | is index => [index]
  | not index => [index]
  | constant _ => []

def weigh (weight : Multiset Variable → F) (variant : Constraint F) : Boolean → F
  | is index => variant.weigh fun monomial => weight (monomial + {index})
  | not index => variant.weigh weight - variant.weigh fun monomial => weight (monomial + {index})
  | constant flag => if flag then variant.weigh weight else 0

end Boolean

inductive Request (F : Type) where
  | numbers (flags : List Boolean) (variants : List (Num F))
  | linearTerms (flags : List Boolean) (variants : List (Constraint F))

namespace Request

def flags : Request F → List Boolean
  | numbers flags _ => flags
  | linearTerms flags _ => flags

def variants : Request F → List (Constraint F)
  | numbers _ variants => variants.map fun variant => ⟨[variant.term]⟩
  | linearTerms _ variants => variants

variable (request : Request F)

def specChoose (result : Variable) : Option (Selection F) :=
  match request with
  | numbers flags variants => specChooseFromOrthogonalVariants flags variants result
  | linearTerms flags variants =>
    specChooseFromOrthogonalVariantsForLinearTerms flags variants result

def entries : List (Boolean × Constraint F) :=
  request.flags.zip request.variants

/-- The variant of the flag that is set, and zero when none is. -/
def chosen (assignment : Variable → F) : F :=
  ((request.entries.find? fun entry => entry.1.holds assignment).map
    fun entry => entry.2.value assignment).getD 0

def weigh (weight : Multiset Variable → F) : F :=
  (request.entries.map fun entry => entry.1.weigh weight entry.2).sum

/-- The coefficient with which a variable stands alone in that sum. -/
def linearCoefficient (index : Variable) : F :=
  request.weigh fun monomial => if monomial = {index} then 1 else 0

/-- The variables behind the flags that stand alone with coefficient one, and are set. -/
def setUnits (assignment : Variable → F) : Finset Variable :=
  (request.flags.flatMap Boolean.vars).toFinset.filter fun index =>
    request.linearCoefficient index = 1 ∧ assignment index = 1

end Request

end Airbender.SpecSelection

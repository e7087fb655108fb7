import Airbender.Field.Mersenne31

/-!
# Constraints as sparse polynomials

A `Constraint` is a sum of terms that an assignment has to bring to zero. Normalization sorts the
terms, merges those with the same variables and drops zeros; the polynomial stays the same.
-/

namespace Airbender.OneRowCompiler

abbrev Variable := ℕ

def Variable.isPlaceholder (var : Variable) : Bool := decide (var = 2 ^ 64 - 1)

/-- `as_u64_reduced`, which terms are ordered by. -/
class ReducedForm (F : Type) where
  asU64Reduced : F → ℕ

instance : ReducedForm Mersenne31Field := ⟨ZMod.val⟩

inductive Term (F : Type) where
  | constant (value : F)
  | expression (coeff : F) (inner : List Variable)
deriving DecidableEq

structure Constraint (F : Type) where
  terms : List (Term F)
deriving DecidableEq

variable {F : Type} [Field F] [DecidableEq F] [ReducedForm F]

namespace Term

def getCoef : Term F → F
  | constant value => value
  | expression coeff _ => coeff

def asSlice : Term F → List Variable
  | constant _ => []
  | expression _ inner => inner

def degree (term : Term F) : ℕ := term.asSlice.length

def isZero (term : Term F) : Bool := decide (term.getCoef = 0)

def containsVar (term : Term F) (var : Variable) : Bool := term.asSlice.contains var

def degreeForVar (term : Term F) (var : Variable) : ℕ := term.asSlice.count var

def scale (factor : F) : Term F → Term F
  | constant value => constant (value * factor)
  | expression coeff inner => expression (coeff * factor) inner

def normalize : Term F → Term F
  | constant value => constant value
  | expression coeff inner =>
    if coeff = 0 then constant 0 else expression coeff (inner.insertionSort (· ≤ ·))

/-- Add like terms. Expressions have at least one variable, so they are never like a constant. -/
def combine : Term F → Term F → Option (Term F)
  | constant value, constant other => some (constant (value + other))
  | expression coeff inner, expression other inner' =>
    if inner = inner' then some (expression (coeff + other) inner) else none
  | _, _ => none

/-- Higher degrees first, then by variables, then by coefficient. -/
def cmp (first second : Term F) : Ordering :=
  (compare second.degree first.degree).then <| match first, second with
    | constant value, constant other =>
      compare (ReducedForm.asU64Reduced value) (ReducedForm.asU64Reduced other)
    | constant _, expression _ _ => .lt
    | expression _ _, constant _ => .gt
    | expression coeff inner, expression other inner' =>
      (compare inner inner').then
        (compare (ReducedForm.asU64Reduced coeff) (ReducedForm.asU64Reduced other))

/-- Products have at most four variables. -/
def mul : Term F → Term F → Option (Term F)
  | expression coeff inner, expression other inner' =>
    if inner.length + inner'.length ≤ 4 then some (expression (coeff * other) (inner ++ inner'))
    else none
  | expression coeff inner, constant other => some (expression (coeff * other) inner)
  | constant value, expression other inner => some (expression (value * other) inner)
  | constant value, constant other => some (constant (value * other))

end Term

namespace Constraint

def empty : Constraint F := ⟨[]⟩

def degree (constraint : Constraint F) : ℕ :=
  constraint.terms.foldl (fun degree term => max degree term.degree) 0

variable (constraint : Constraint F)

def containsVar (var : Variable) : Bool :=
  constraint.terms.any fun term => term.containsVar var

def degreeForVar (var : Variable) : ℕ :=
  constraint.terms.foldl (fun degree term => max degree (term.degreeForVar var)) 0

def scale (factor : F) : Constraint F :=
  ⟨constraint.terms.map (Term.scale factor)⟩

def sort (terms : List (Term F)) : List (Term F) :=
  terms.insertionSort fun first second => (first.cmp second).isLE = true

/-- Add a term to the first like term, or put it behind all others. -/
def absorb : List (Term F) → Term F → List (Term F)
  | [], term => [term]
  | existing :: combined, term =>
    match existing.combine term with
    | some sum => sum.normalize :: combined
    | none => existing :: absorb combined term

def normalize : Option (Constraint F) := do
  let terms := sort (constraint.terms.map Term.normalize)
  let initialDegree := (Constraint.mk terms).degree
  let combined := terms.foldl absorb []
  let terms := combined.filter fun term => !term.isZero
  let finalDegree := (Constraint.mk terms).degree
  guard (finalDegree ≤ 2)
  if finalDegree = 0 ∧ terms = [Term.constant 0] then some empty
  else do
    let terms := sort (terms.map Term.normalize)
    guard (finalDegree ≤ initialDegree)
    some ⟨terms⟩

def add (first second : Constraint F) : Option (Constraint F) :=
  normalize ⟨first.terms ++ second.terms⟩

def mulTerm (factor : Term F) : Option (Constraint F) := do
  let product ← constraint.terms.foldlM (fun sum existing => do
    let intermediate ← existing.mul factor
    sum.add ⟨[intermediate]⟩) empty
  product.normalize

def expressVariable (var : Variable) :
    Option (Constraint F) := do
  guard (constraint.containsVar var)
  guard (constraint.degreeForVar var = 1)
  let others := constraint.terms.filter fun term => !term.containsVar var
  let defining := constraint.terms.filter fun term => term.containsVar var
  guard (defining.all fun term => decide (term.degreeForVar var = 1))
  -- the last term with the variable gives the prefactor
  let prefactor := defining.foldl (fun _ term => term.getCoef) 0
  guard (prefactor ≠ 0)
  normalize ⟨others.map (Term.scale (-prefactor⁻¹))⟩

def otherVariable (var first second : Variable) : Option Variable :=
  if first = var then some second else if second = var then some first else none

/-- What a term with the variable becomes when the variable is replaced. -/
def substituteTerm (var : Variable) (expression : Constraint F) :
    Term F → Option (Constraint F)
  | .constant _ => none
  | .expression coeff [_] => some (expression.scale coeff)
  | .expression coeff [first, second] => do
      let otherVar ← otherVariable var first second
      guard (!otherVar.isPlaceholder)
      expression.mulTerm (.expression coeff [otherVar])
  | .expression _ _ => none

def substituteVariable (var : Variable)
    (expression : Constraint F) : Option (Constraint F) := do
  guard (constraint.containsVar var)
  guard (constraint.degreeForVar var = 1)
  let replaced := constraint.terms.filter fun term => term.containsVar var
  let others := constraint.terms.filter fun term => !term.containsVar var
  let extraConstraintsToAdd ← replaced.mapM (substituteTerm var expression)
  let sum ← extraConstraintsToAdd.foldlM (fun sum extra => do
    let sum ← sum.add extra
    guard (sum.degree ≤ 2)
    some sum) (Constraint.mk others)
  sum.normalize

end Constraint

end Airbender.OneRowCompiler

import Airbender.OneRowCompiler.Constraint

/-!
# Variables that the compiler optimizes out

`compile_inner` places every variable that memory queries, range checks, Booleans and lookups use.
Then it solves linear constraints for the remaining variables and replaces these in the other
constraints.
-/

namespace Airbender.OneRowCompiler

inductive LookupInput (F : Type) where
  | var (name : Variable)
  | expression (linearTerms : List (F × Variable)) (constantCoeff : F)

inductive LookupQueryTableType where
  | var (name : Variable)
  | constant (tableType : ℕ)

structure LookupQuery (F : Type) where
  row : List (LookupInput F)
  table : LookupQueryTableType

structure RangeCheckQuery (F : Type) where
  input : LookupInput F
  width : ℕ

/-- A circuit once its memory accesses are described: the variables that the compiler adds for them
are counted, their borrows are among the Booleans and their comparisons among the timestamp
expressions. -/
structure Circuit (F : Type) where
  numVariables : ℕ
  /-- Constraints, each with the flag that keeps it from defining a variable. -/
  constraints : List (Constraint F × Bool)
  lookups : List (LookupQuery F)
  rangeCheckExpressions : List (RangeCheckQuery F)
  timestampRangeCheckExpressions : List (LookupInput F)
  booleanVars : List Variable
  memoryVariables : List Variable
  substitutions : List Variable
  stateInput : List Variable
  stateOutput : List Variable

def LookupInput.variables {F : Type} : LookupInput F → List Variable
  | var name => [name]
  | expression linearTerms _ => linearTerms.map Prod.snd

def LookupQueryTableType.variables : LookupQueryTableType → List Variable
  | var name => [name]
  | constant _ => []

def LookupQuery.variables {F : Type} (query : LookupQuery F) : List Variable :=
  query.row.flatMap LookupInput.variables ++ query.table.variables

variable {F : Type}

structure Placement where
  allVariablesToPlace : List Variable
  layout : List Variable

namespace Placement

def place (placement : Placement) (var : Variable) : Option Placement :=
  if var ∈ placement.allVariablesToPlace then
    some ⟨placement.allVariablesToPlace.erase var, var :: placement.layout⟩
  else none

def placeInput (placement : Placement) (var : Variable) : Option Placement :=
  if var ∈ placement.layout then some placement else placement.place var

def placeRangeCheck (placement : Placement) (query : RangeCheckQuery F) : Option Placement :=
  match query.input with
  | .var var => placement.place var
  | .expression _ _ => none

def placeTable (placement : Placement) : LookupQueryTableType → Option Placement
  | .var var => placement.place var
  | .constant _ => some placement

def placeLookup (placement : Placement) (query : LookupQuery F) : Option Placement := do
  guard (query.row.length = 3)
  let placement ← (query.row.flatMap LookupInput.variables).foldlM placeInput placement
  placement.placeTable query.table

end Placement

open Placement in
/-- Everything that is placed before variables are optimized out. -/
def placeVariables (circuit : Circuit F) : Option Placement := do
  guard (circuit.rangeCheckExpressions.all fun query => query.width == 16 || query.width == 8)
  let placement : Placement := ⟨List.range circuit.numVariables, []⟩
  let placement ← circuit.memoryVariables.foldlM place placement
  let placement ← (circuit.rangeCheckExpressions.filter fun query => query.width == 8).foldlM
    placeRangeCheck placement
  let placement ← (circuit.rangeCheckExpressions.filter fun query => query.width == 16).foldlM
    placeRangeCheck placement
  let placement ← circuit.booleanVars.foldlM place placement
  let placement ← circuit.lookups.foldlM placeLookup placement
  guard ((circuit.timestampRangeCheckExpressions.flatMap LookupInput.variables).all
    fun var => placement.layout.contains var)
  some placement

variable [Field F] [DecidableEq F]

structure Elimination (F : Type) where
  constraints : List (Constraint F × Bool)
  allVariablesToPlace : List Variable
  optimizedOutVariables : List Variable
  triedVariables : List Variable
deriving DecidableEq

def definingConstraints (constraints : List (Constraint F × Bool)) (var : Variable) : List ℕ :=
  (constraints.zipIdx.filter fun ((constraint, preventOptimizations), _) =>
    !preventOptimizations && decide (constraint.degree ≤ 1) &&
      decide (constraint.degreeForVar var ≠ 0)).map Prod.snd

/-- The constraints in which the variable will be replaced. -/
def occurrences (constraints : List (Constraint F × Bool)) (var : Variable) : List ℕ :=
  (constraints.zipIdx.filter fun ((constraint, _), _) =>
    constraint.containsVar var && decide (constraint.degreeForVar var < 2)).map Prod.snd

inductive Selection where
  | nothing
  /-- A placeholder makes the loop start over. -/
  | restart
  | candidate (var : Variable)

def selectVariable (circuit : Circuit F) (elimination : Elimination F) :
    List Variable → Selection
  | [] => .nothing
  | var :: vars =>
    if var ∈ elimination.optimizedOutVariables then selectVariable circuit elimination vars
    else if var ∈ elimination.triedVariables then selectVariable circuit elimination vars
    else if var ∈ circuit.substitutions then .restart
    else if var ∈ circuit.stateInput then selectVariable circuit elimination vars
    else if var ∈ circuit.stateOutput then selectVariable circuit elimination vars
    else if (definingConstraints elimination.constraints var).length > 0 ∧
      (occurrences elimination.constraints var).length > 1 then .candidate var
    else selectVariable circuit elimination vars

variable [ReducedForm F]

/-- Replace the variable in all constraints but the defining one; without success if the degree of
a constraint gets too high. -/
def rewriteOccurrences (constraints : List (Constraint F × Bool)) (var : Variable)
    (expression : Constraint F) (definingConstraintIdx : ℕ) :
    List ℕ → Option (Option (List (ℕ × Constraint F)))
  | [] => some (some [])
  | idx :: indexes =>
    if idx = definingConstraintIdx then
      rewriteOccurrences constraints var expression definingConstraintIdx indexes
    else do
      let (existingConstraint, _) ← constraints[idx]?
      let rewrittenConstraint ← existingConstraint.substituteVariable var expression
      if rewrittenConstraint.degree > 2 then some none
      else do
        let others ← rewriteOccurrences constraints var expression definingConstraintIdx indexes
        some (others.map ((idx, rewrittenConstraint) :: ·))

/-- A defining constraint with the constraints in which its variable was replaced. -/
structure OptimizedOutParams (F : Type) where
  definingConstraintIdx : ℕ
  replacementConstraints : List (ℕ × Constraint F)

def tryDefiningConstraints (constraints : List (Constraint F × Bool)) (var : Variable) :
    List ℕ → Option (OptimizedOutParams F) → List Variable →
      Option (Option (OptimizedOutParams F) × List Variable)
  | [], params, tried => some (params, tried)
  | idx :: indexes, params, tried => do
      let (definingConstraint, _) ← constraints[idx]?
      let expression ← definingConstraint.expressVariable var
      let expression ← expression.normalize
      let rewritten ← rewriteOccurrences constraints var expression idx
        (occurrences constraints var)
      match rewritten with
      | some replacements =>
        tryDefiningConstraints constraints var indexes (some ⟨idx, replacements⟩) tried
      | none => tryDefiningConstraints constraints var indexes params (var :: tried)

/-- Drop the defining constraint and put the replacements in place. -/
def newConstraints (constraints : List (Constraint F × Bool)) (params : OptimizedOutParams F) :
    List (Constraint F × Bool) :=
  constraints.zipIdx.filterMap fun ((constraint, preventOptimizations), idx) =>
    if idx = params.definingConstraintIdx then none
    else match params.replacementConstraints.lookup idx with
      | some replacement => some (replacement, preventOptimizations)
      | none => some (constraint, preventOptimizations)

def optimizeOut (elimination : Elimination F) (var : Variable) : Option (Elimination F) := do
  let (params, tried) ← tryDefiningConstraints elimination.constraints var
    (definingConstraints elimination.constraints var) none elimination.triedVariables
  match params with
  | some params => some {
      constraints := newConstraints elimination.constraints params
      allVariablesToPlace := elimination.allVariablesToPlace.erase var
      optimizedOutVariables := elimination.optimizedOutVariables ++ [var]
      triedVariables := tried }
  | none => some { elimination with triedVariables := tried }

inductive Outcome (F : Type) where
  | finished
  | next (elimination : Elimination F)
deriving DecidableEq

/-- One iteration; `none` when an assertion fails. -/
def iteration (circuit : Circuit F) (elimination : Elimination F) : Option (Outcome F) :=
  match selectVariable circuit elimination elimination.allVariablesToPlace with
  | .nothing => some .finished
  | .restart => some (.next elimination)
  | .candidate var => Outcome.next <$> optimizeOut elimination var

def eliminationLoop (circuit : Circuit F) : ℕ → Elimination F → Option (Elimination F)
  | 0, _ => none
  | fuel + 1, elimination => do
      match ← iteration circuit elimination with
      | .finished => some elimination
      | .next elimination => eliminationLoop circuit fuel elimination

def normalizeConstraints (constraints : List (Constraint F × Bool)) :
    Option (List (Constraint F × Bool)) :=
  constraints.mapM fun (constraint, preventOptimizations) => do
    let constraint ← constraint.normalize
    some (constraint, preventOptimizations)

def startElimination (circuit : Circuit F) : Option (Elimination F) := do
  let placement ← placeVariables circuit
  let constraints ← normalizeConstraints circuit.constraints
  some ⟨constraints, placement.allVariablesToPlace, [], []⟩

/-- Place what is used elsewhere, then optimize variables out. -/
def eliminateVariables (fuel : ℕ) (circuit : Circuit F) : Option (Elimination F) := do
  let elimination ← startElimination circuit
  eliminationLoop circuit fuel elimination

def Iterates (circuit : Circuit F) (before after : Elimination F) : Prop :=
  iteration circuit before = some (.next after)

def Reaches (circuit : Circuit F) : Elimination F → Elimination F → Prop :=
  Relation.ReflTransGen (Iterates circuit)

end Airbender.OneRowCompiler

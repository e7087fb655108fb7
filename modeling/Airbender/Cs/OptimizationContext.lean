import Airbender.Cs.Tables

/-!
# The optimization context

Families register relations in a context, under slot indexes that restart for every family, and draw
outputs from shared pools. `enforceAll` merges the relations of each slot: as at most one family
executes, the flag-weighted sum of the candidates is the executing one.
-/

namespace Airbender.Cs

open CircuitLib Circuit Mersenne31Field
open List hiding modify

structure AddSubRelation where
  execFlag : Boolean
  a : Register
  b : Register
  c : Register

structure RangeCheckRelation where
  execFlag : Boolean
  x : Num

structure MulDivRelation where
  execFlag : Boolean
  op1 : Register
  op1Sign : Num
  op2 : Register
  op2Sign : Num
  additiveTerm : Register
  additiveTermSign : Num
  mulLow : Register
  mulHigh : Register

structure IsZeroRelation where
  execFlag : Boolean
  register : Register

structure LookupRelation where
  execFlag : Boolean
  row : Row
  table : Num

structure OptCtxIndexers where
  registerAllocation : ℕ := 0
  addSub : ℕ := 0
  u16ToU8x2Decomposition : ℕ := 0
  u16RangeCheck : ℕ := 0
  mulDiv : ℕ := 0
  lookup : ℕ := 0
  lookupOutputs : ℕ := 0
  zero : ℕ := 0

structure OptimizationContext where
  indexers : OptCtxIndexers := {}
  addSubRelations : List (ℕ × AddSubRelation) := []
  u16ToU8x2DecompositionRelations : List (ℕ × RangeCheckRelation) := []
  u16RangeCheckRelations : List (ℕ × RangeCheckRelation) := []
  mulDivRelations : List (ℕ × MulDivRelation) := []
  lookupRelations : List (ℕ × LookupRelation) := []
  isZeroRelations : List (ℕ × IsZeroRelation) := []
  u16ToU8x2Splits : List (Num × Num) := []
  registers : List Register := []
  addSubOfs : List Boolean := []
  isZeroFlags : List Boolean := []
  lookupOutputs : List F := []

abbrev ContextM := StateT OptimizationContext Assembly

namespace OptimizationContext

def resetIndexers : ContextM Unit := modify fun context => { context with indexers := {} }

def saveIndexers : ContextM OptCtxIndexers := do return (← get).indexers

def restoreIndexers (indexers : OptCtxIndexers) : ContextM Unit :=
  modify fun context => { context with indexers := indexers }

def getRegisterOutput : ContextM Register := do
  let context ← get
  let index := context.indexers.registerAllocation
  let register ← match context.registers[index]? with
    | some register => pure register
    | none => do
        let register ← Register.new
        modify fun context => { context with registers := context.registers ++ [register] }
        pure register
  modify fun context =>
    { context with indexers := { context.indexers with registerAllocation := index + 1 } }
  pure register

/-- Register a relation in the next addition slot; its carry flag comes from the pool. -/
def pushAddSubRelation (relation : AddSubRelation) : ContextM Boolean := do
  let context ← get
  let index := context.indexers.addSub
  (assert (decide (index ≤ context.addSubOfs.length)) : Assembly Unit)
  let overflow ← match context.addSubOfs[index]? with
    | some overflow => pure overflow
    | none => do
        let overflow ← addBooleanVariable
        modify fun context => { context with addSubOfs := context.addSubOfs ++ [overflow] }
        pure overflow
  modify fun context => { context with
    addSubRelations := context.addSubRelations ++ [(index, relation)]
    indexers := { context.indexers with addSub := index + 1 } }
  pure overflow

/-- The operands for which a result can be computed: at most one is a constant, and a constant has
two constant limbs. -/
def supportedOperands (a b : Register) : Bool :=
  match a, b with
  | ⟨.var _, .var _⟩, ⟨.var _, .var _⟩ => true
  | ⟨.constant _, .constant _⟩, ⟨.var _, .var _⟩ => true
  | ⟨.var _, .var _⟩, ⟨.constant _, .constant _⟩ => true
  | _, _ => false

@[simp] theorem supportedOperands_ofWord (a b : BitVec 32) :
    supportedOperands (.ofWord a) (.ofWord b) = true := rfl

/-- A subtraction `a - b` is stored as the addition `result + b = a`. -/
def appendAddSubRelation (a b : Register) (execFlag : Boolean) (isSub : Bool) :
    ContextM (Register × Boolean) := do
  let result ← getRegisterOutput
  let overflow ← pushAddSubRelation
    (if isSub then ⟨execFlag, result, b, a⟩ else ⟨execFlag, a, b, result⟩)
  let _ ← execFlag.getVariable
  (assert (supportedOperands a b) : Assembly Unit)
  pure (result, overflow)

def appendAddRelation (a b : Register) (execFlag : Boolean) : ContextM (Register × Boolean) :=
  appendAddSubRelation a b execFlag false

def appendSubRelation (a b : Register) (execFlag : Boolean) : ContextM (Register × Boolean) :=
  appendAddSubRelation a b execFlag true

def appendIsZeroRelation (register : Register) (execFlag : Boolean) : ContextM Boolean := do
  let context ← get
  let index := context.indexers.zero
  (assert (decide (index ≤ context.isZeroFlags.length)) : Assembly Unit)
  let flag ← match context.isZeroFlags[index]? with
    | some flag => pure flag
    | none => do
        let flag ← addBooleanVariable
        modify fun context => { context with isZeroFlags := context.isZeroFlags ++ [flag] }
        pure flag
  modify fun context => { context with
    isZeroRelations := context.isZeroRelations ++ [(index, ⟨execFlag, register⟩)]
    indexers := { context.indexers with zero := index + 1 } }
  pure flag

def appendMulRelationInner (relation : MulDivRelation) : ContextM Unit :=
  modify fun context => { context with
    mulDivRelations := context.mulDivRelations ++ [(context.indexers.mulDiv, relation)]
    indexers := { context.indexers with mulDiv := context.indexers.mulDiv + 1 } }

/-- Register a product without an additive term; its two halves are pool registers. -/
def appendProductRelation (op1 : Register) (op1Sign : Num) (op2 : Register) (op2Sign : Num)
    (execFlag : Boolean) : ContextM (Register × Register) := do
  let mulLow ← getRegisterOutput
  let mulHigh ← getRegisterOutput
  appendMulRelationInner
    { execFlag, op1, op1Sign, op2, op2Sign
      additiveTerm := ⟨.constant 0, .constant 0⟩
      additiveTermSign := .constant 0
      mulLow, mulHigh }
  pure (mulLow, mulHigh)

def appendMulRelationUnsigned (a b : Register) (execFlag : Boolean) :
    ContextM (Register × Register) :=
  appendProductRelation a (.constant 0) b (.constant 0) execFlag

/-- Explicit signs must be variables. -/
def appendMulRelationRaw (op1 : Register) (op1Sign : Num) (op2 : Register) (op2Sign : Num)
    (execFlag : Boolean) : ContextM (Register × Register) := do
  let _ ← op1Sign.getVariable
  let _ ← op2Sign.getVariable
  appendProductRelation op1 op1Sign op2 op2Sign execFlag

def getLookupOutput (position : ℕ) : ContextM F := do
  let context ← get
  match context.lookupOutputs[position]? with
  | some output => pure output
  | none => do
      let output ← (addVariable : Assembly F)
      modify fun context => { context with lookupOutputs := context.lookupOutputs ++ [output] }
      pure output

def getLookupOutputs : (count position : ℕ) → ContextM (List F)
  | 0, _ => pure []
  | count + 1, position => do
      let output ← getLookupOutput position
      let outputs ← getLookupOutputs count (position + 1)
      pure (output :: outputs)

def rowOfCells (cells : List F) : Row := ⟨cells.getD 0 0, cells.getD 1 0, cells.getD 2 0⟩

/-- `append_lookup_relation` and, as a linear expression is its value here,
`append_lookup_relation_from_linear_terms`. -/
def appendLookupRelation (inputs : List F) (outputCount : ℕ) (table : Num) (execFlag : Boolean) :
    ContextM (List F) := do
  let position := (← get).indexers.lookupOutputs
  let outputs ← getLookupOutputs outputCount position
  (assert (!inputs.isEmpty) : Assembly Unit)
  let _ ← execFlag.getVariable
  (assert (inputs.length + outputCount == 3) : Assembly Unit)
  modify fun context => { context with
    lookupRelations := context.lookupRelations ++
      [(context.indexers.lookup, ⟨execFlag, rowOfCells (inputs ++ outputs), table⟩)]
    indexers := { context.indexers with
      lookup := context.indexers.lookup + 1
      lookupOutputs := context.indexers.lookupOutputs + outputCount } }
  pure outputs

section

variable {α β : Type} (context : OptimizationContext) (result : β × OptimizationContext)

theorem yields_run_pure (value : β) :
    ((pure value : ContextM β).run context).Yields result ↔ (value, context) = result := by
  simp only [StateT.run_pure, yields_pure]

theorem yields_run_lift (program : Assembly β) :
    ((liftM program : ContextM β).run context).Yields result ↔
      ∃ value, program.Yields value ∧ (value, context) = result := by
  simp

theorem yields_lift_bind (program : Assembly α) (rest : α → ContextM β) :
    ((liftM program >>= rest : ContextM β).run context).Yields result ↔
      ∃ value, program.Yields value ∧ ((rest value).run context).Yields result := by
  simp

theorem yields_resetIndexers (rest : Unit → ContextM β) :
    ((resetIndexers >>= rest).run context).Yields result ↔
      ((rest ()).run { context with indexers := {} }).Yields result := by
  simp [resetIndexers]

theorem yields_saveIndexers (rest : OptCtxIndexers → ContextM β) :
    ((saveIndexers >>= rest).run context).Yields result ↔
      ((rest context.indexers).run context).Yields result := by
  simp [saveIndexers]

theorem yields_restoreIndexers (indexers : OptCtxIndexers) (rest : Unit → ContextM β) :
    ((restoreIndexers indexers >>= rest).run context).Yields result ↔
      ((rest ()).run { context with indexers := indexers }).Yields result := by
  simp [restoreIndexers]

theorem yields_appendMulRelationInner (relation : MulDivRelation) (rest : Unit → ContextM β) :
    ((appendMulRelationInner relation >>= rest).run context).Yields result ↔
      ((rest ()).run { context with
        mulDivRelations := context.mulDivRelations ++ [(context.indexers.mulDiv, relation)]
        indexers := { context.indexers with
          mulDiv := context.indexers.mulDiv + 1 } }).Yields result := by
  simp [appendMulRelationInner]

theorem yields_getRegisterOutput_pooled (rest : Register → ContextM β)
    (pooled : context.indexers.registerAllocation < context.registers.length) :
    ((getRegisterOutput >>= rest).run context).Yields result ↔
      ((rest context.registers[context.indexers.registerAllocation]).run { context with
        indexers := { context.indexers with
          registerAllocation := context.indexers.registerAllocation + 1 } }).Yields result := by
  simp [getRegisterOutput, getElem?_eq_getElem pooled]

theorem yields_getRegisterOutput_new (rest : Register → ContextM β)
    (exhausted : context.registers.length ≤ context.indexers.registerAllocation) :
    ((getRegisterOutput >>= rest).run context).Yields result ↔
      ∃ word, ((rest (.ofWord word)).run { context with
        registers := context.registers ++ [.ofWord word]
        indexers := { context.indexers with
          registerAllocation := context.indexers.registerAllocation + 1 } }).Yields result := by
  simp [getRegisterOutput, getElem?_eq_none exhausted]

theorem yields_appendIsZeroRelation_new (register : Register) (execFlag : Boolean)
    (rest : Boolean → ContextM β) (exhausted : context.isZeroFlags.length = context.indexers.zero) :
    ((appendIsZeroRelation register execFlag >>= rest).run context).Yields result ↔
      ∃ flag, ((rest (.is (bit flag))).run { context with
        isZeroFlags := context.isZeroFlags ++ [.is (bit flag)]
        isZeroRelations :=
          context.isZeroRelations ++ [(context.indexers.zero, ⟨execFlag, register⟩)]
        indexers := { context.indexers with
          zero := context.indexers.zero + 1 } }).Yields result := by
  simp [appendIsZeroRelation, exhausted, -Bool.exists_bool]

theorem yields_pushAddSubRelation_pooled (relation : AddSubRelation) (rest : Boolean → ContextM β)
    (pooled : context.indexers.addSub < context.addSubOfs.length) :
    ((pushAddSubRelation relation >>= rest).run context).Yields result ↔
      ((rest context.addSubOfs[context.indexers.addSub]).run { context with
        addSubRelations := context.addSubRelations ++ [(context.indexers.addSub, relation)]
        indexers := { context.indexers with
          addSub := context.indexers.addSub + 1 } }).Yields result := by
  simp [pushAddSubRelation, getElem?_eq_getElem pooled, Nat.le_of_lt pooled]

theorem yields_pushAddSubRelation_new (relation : AddSubRelation) (rest : Boolean → ContextM β)
    (exhausted : context.addSubOfs.length = context.indexers.addSub) :
    ((pushAddSubRelation relation >>= rest).run context).Yields result ↔
      ∃ overflow, ((rest (.is (bit overflow))).run { context with
        addSubOfs := context.addSubOfs ++ [.is (bit overflow)]
        addSubRelations := context.addSubRelations ++ [(context.indexers.addSub, relation)]
        indexers := { context.indexers with
          addSub := context.indexers.addSub + 1 } }).Yields result := by
  have bounded : context.indexers.addSub ≤ context.addSubOfs.length := Nat.le_of_eq exhausted.symm
  simp [pushAddSubRelation, getElem?_eq_none (Nat.le_of_eq exhausted), bounded,
    -Bool.exists_bool]

theorem yields_getLookupOutput_pooled (position : ℕ) (rest : F → ContextM β)
    (pooled : position < context.lookupOutputs.length) :
    ((getLookupOutput position >>= rest).run context).Yields result ↔
      ((rest context.lookupOutputs[position]).run context).Yields result := by
  simp [getLookupOutput, getElem?_eq_getElem pooled]

theorem yields_getLookupOutput_new (position : ℕ) (rest : F → ContextM β)
    (exhausted : context.lookupOutputs.length ≤ position) :
    ((getLookupOutput position >>= rest).run context).Yields result ↔
      ∃ output, ((rest output).run { context with
        lookupOutputs := context.lookupOutputs ++ [output] }).Yields result := by
  simp [getLookupOutput, getElem?_eq_none exhausted]

theorem yields_getLookupOutputs (count position : ℕ) (rest : List F → ContextM β)
    (reached : position ≤ context.lookupOutputs.length) :
    ((getLookupOutputs count position >>= rest).run context).Yields result ↔
      ∃ extra : List F, extra.length = position + count - context.lookupOutputs.length ∧
        ((rest (((context.lookupOutputs ++ extra).drop position).take count)).run { context with
          lookupOutputs := context.lookupOutputs ++ extra }).Yields result := by
  induction count generalizing position context rest with
  | zero =>
    have enough : position - context.lookupOutputs.length = 0 := Nat.sub_eq_zero_of_le reached
    simp [getLookupOutputs, enough]
  | succ count ih =>
    simp only [getLookupOutputs, bind_assoc, pure_bind]
    rcases Nat.lt_or_eq_of_le reached with pooled | exhausted
    · rw [yields_getLookupOutput_pooled _ _ _ _ pooled, ih _ _ _ pooled,
        show position + 1 + count = position + (count + 1) by omega]
      apply exists_congr
      intro extra
      rw [drop_eq_getElem_cons (i := position) (by simp; omega), take_succ_cons,
        getElem_append_left pooled]
    · subst exhausted
      rw [yields_getLookupOutput_new _ _ _ _ (Nat.le_refl _)]
      have next := fun output => ih { context with
        lookupOutputs := context.lookupOutputs ++ [output] } (context.lookupOutputs.length + 1)
        (fun outputs => rest (output :: outputs)) (by simp)
      have past : context.lookupOutputs.drop (context.lookupOutputs.length + 1) = [] :=
        drop_eq_nil_of_le (Nat.le_succ _)
      simp only [next, length_append, length_singleton, Nat.add_sub_cancel_left,
        append_assoc, singleton_append]
      constructor
      · intro found
        rcases found with ⟨output, extra, short, rested⟩
        refine ⟨output :: extra, by simp [short], ?_⟩
        simpa [drop_append, past] using rested
      · intro found
        rcases found with ⟨extra, short, rested⟩
        rcases exists_cons_of_length_eq_add_one short with ⟨output, extra, rfl⟩
        refine ⟨output, extra, by simpa using short, ?_⟩
        simpa [drop_append, past] using rested

/-- The context after a lookup, whose outputs beyond the pool are new. -/
def withLookup (context : OptimizationContext) (fresh : List F) (count : ℕ)
    (relation : LookupRelation) : OptimizationContext :=
  { context with
    lookupOutputs := context.lookupOutputs ++ fresh
    lookupRelations := context.lookupRelations ++ [(context.indexers.lookup, relation)]
    indexers := { context.indexers with
      lookup := context.indexers.lookup + 1
      lookupOutputs := context.indexers.lookupOutputs + count } }

theorem yields_appendLookupRelation (inputs : List F) (outputCount : ℕ) (table : Num) (flag : F)
    (rest : List F → ContextM β) (keyed : inputs ≠ []) (width : inputs.length + outputCount = 3)
    (reached : context.indexers.lookupOutputs ≤ context.lookupOutputs.length) :
    ((appendLookupRelation inputs outputCount table (.is flag) >>= rest).run context).Yields
        result ↔
      ∃ extra : List F, extra.length =
          context.indexers.lookupOutputs + outputCount - context.lookupOutputs.length ∧
        let outputs := ((context.lookupOutputs ++ extra).drop
          context.indexers.lookupOutputs).take outputCount
        ((rest outputs).run (context.withLookup extra outputCount
          ⟨.is flag, rowOfCells (inputs ++ outputs), table⟩)).Yields result := by
  have nonempty : inputs.isEmpty = false := isEmpty_eq_false_iff.mpr keyed
  have step : (appendLookupRelation inputs outputCount table (.is flag) >>= rest).run context =
      ((getLookupOutputs outputCount context.indexers.lookupOutputs >>= fun outputs => do
        modify fun context => context.withLookup [] outputCount
          ⟨.is flag, rowOfCells (inputs ++ outputs), table⟩
        rest outputs).run context) := by
    simp [appendLookupRelation, width, nonempty, assert_true, withLookup]
  rw [step, yields_getLookupOutputs _ _ _ _ _ reached]
  simp [withLookup]

end

def slot {α : Type} (relations : List (ℕ × α)) (index : ℕ) : List α :=
  (relations.filter fun entry => entry.1 == index).map Prod.snd

/-- The enforcement loops visit slot indices from zero until every relation has been seen, that
is, up to the largest index in use. -/
def slotCount {α : Type} (relations : List (ℕ × α)) : ℕ :=
  (relations.map fun entry => entry.1 + 1).foldl max 0

def enforceSlots {α : Type} (relations : List (ℕ × α)) (enforce : ℕ → List α → Assembly Unit) :
    Assembly Unit :=
  (List.range (slotCount relations)).forM fun index => enforce index (slot relations index)

def hasConstant (register : Register) : Bool :=
  match register with
  | ⟨.var _, .var _⟩ => false
  | _ => true

def enforceAddSubRelation (carryOut : Boolean) (relations : List AddSubRelation) :
    Assembly Unit := do
  assert (relations.all fun relation => relation.execFlag.isIs)
  let constraintLow := relations.foldl (fun accumulator relation =>
    accumulator + (relation.execFlag.value * relation.a.low.value
      + relation.execFlag.value * relation.b.low.value
      - relation.execFlag.value * relation.c.low.value)) 0
  let constraintHigh := relations.foldl (fun accumulator relation =>
    accumulator + (relation.execFlag.value * relation.a.high.value
      + relation.execFlag.value * relation.b.high.value
      - relation.execFlag.value * relation.c.high.value)) 0
  let carryIntermediate ← addBooleanVariable
  addConstraint (constraintLow - 2 ^ 16 * carryIntermediate.value)
  addConstraint (constraintHigh + carryIntermediate.value - 2 ^ 16 * (← carryOut.getVariable))

/-- The general form: candidates are masked one register at a time. -/
def enforceMaskedAddSubRelation (carryOut : Boolean) (relations : List AddSubRelation) :
    Assembly Unit := do
  let masked := fun (limb : AddSubRelation → Num) =>
    relations.foldl (fun accumulator relation =>
      maskByBooleanIntoAccumulatorConstraint relation.execFlag (limb relation) accumulator) 0
  let carryIntermediate ← addBooleanVariable
  let constraintLow := masked (·.a.low) + masked (·.b.low) - masked (·.c.low)
  addConstraint (constraintLow - 2 ^ 16 * carryIntermediate.value)
  let constraintHigh := masked (·.a.high) + masked (·.b.high) - masked (·.c.high)
  addConstraint (constraintHigh + carryIntermediate.value - 2 ^ 16 * (← carryOut.getVariable))

def enforceAddSubSlot (context : OptimizationContext) (index : ℕ)
    (relations : List AddSubRelation) : Assembly Unit := do
  let canSpec := relations.all fun relation =>
    !hasConstant relation.a && !hasConstant relation.b && !hasConstant relation.c
  match context.addSubOfs[index]? with
  | some carryOut =>
    if canSpec then enforceAddSubRelation carryOut relations
    else enforceMaskedAddSubRelation carryOut relations
  | none => abort

def enforceDecompositionSlot (context : OptimizationContext) (index : ℕ)
    (relations : List RangeCheckRelation) : Assembly Unit := do
  let x ← chooseFromOrthogonalVariants (relations.map (·.execFlag)) (relations.map (·.x))
  match context.u16ToU8x2Splits[index]? with
  | some (low, high) => addConstraint (high.value * 2 ^ 8 + low.value - x.value)
  | none => abort

def enforceRangeCheckSlot (relations : List RangeCheckRelation) : Assembly Unit := do
  let x ← chooseFromOrthogonalVariants (relations.map (·.execFlag)) (relations.map (·.x))
  requireRangeChecked (← x.getVariable) 16

def enforceIsZeroSlot (context : OptimizationContext) (index : ℕ)
    (relations : List IsZeroRelation) : Assembly Unit := do
  let register ← Register.chooseFromOrthogonalVariants (relations.map (·.execFlag))
    (relations.map (·.register))
  match context.isZeroFlags[index]? with
  | some flag => isZeroRegExplicit register (← flag.getVariable)
  | none => abort

/-- A family that does not use the slot degrades to the row of zeroes in the table with id 0. -/
def enforceLookupSlot (tables : TableDriver) (relations : List LookupRelation) :
    Assembly Unit := do
  let flags := relations.map (·.execFlag)
  let first ← chooseFromOrthogonalVariantsForLinearTerms flags (relations.map (·.row.first))
  let second ← chooseFromOrthogonalVariantsForLinearTerms flags (relations.map (·.row.second))
  let third ← chooseFromOrthogonalVariantsForLinearTerms flags (relations.map (·.row.third))
  let tableId ← chooseFromOrthogonalVariants flags (relations.map (·.table))
  enforceLookupTupleForVariableTable tables ⟨first.value, second.value, third.value⟩
    (← tableId.getVariable)

theorem limb_addition_iff (a b c : BitVec 32) (carryOut : Bool) :
    (∃ carry, (lowLimb a : F) + lowLimb b - lowLimb c - 2 ^ 16 * bit carry = 0 ∧
      (highLimb a : F) + highLimb b - highLimb c + bit carry - 2 ^ 16 * bit carryOut = 0) ↔
      a.toNat + b.toNat = c.toNat + 2 ^ 32 * carryOut.toNat := by
  have aLow := lowLimb_lt a
  have aHigh := highLimb_lt a
  have bLow := lowLimb_lt b
  have bHigh := highLimb_lt b
  have cLow := lowLimb_lt c
  have cHigh := highLimb_lt c
  have outBound := carryOut.toNat_lt
  rw [toNat_eq_limbs a, toNat_eq_limbs b, toNat_eq_limbs c]
  simp only [bit_eq_natCast]
  constructor
  · rintro ⟨carry, lowBalanced, highBalanced⟩
    have carryBound := carry.toNat_lt
    have lows : lowLimb a + lowLimb b = lowLimb c + 2 ^ 16 * carry.toNat := by
      apply nat_eq
      · push_cast
        linear_combination lowBalanced
      · omega
      · omega
    have highs : highLimb a + highLimb b + carry.toNat = highLimb c + 2 ^ 16 * carryOut.toNat := by
      apply nat_eq
      · push_cast
        linear_combination highBalanced
      · omega
      · omega
    omega
  · intro sum
    refine ⟨decide (2 ^ 16 ≤ lowLimb a + lowLimb b), ?_⟩
    have lows : lowLimb a + lowLimb b =
        lowLimb c + 2 ^ 16 * (decide (2 ^ 16 ≤ lowLimb a + lowLimb b)).toNat := by
      by_cases carries : 2 ^ 16 ≤ lowLimb a + lowLimb b
      · simp only [carries, decide_true, Bool.toNat_true]
        omega
      · simp only [carries, decide_false, Bool.toNat_false]
        omega
    have highs : highLimb a + highLimb b + (decide (2 ^ 16 ≤ lowLimb a + lowLimb b)).toNat =
        highLimb c + 2 ^ 16 * carryOut.toNat := by omega
    have lowsLifted := congrArg (fun number : ℕ => (number : F)) lows
    have highsLifted := congrArg (fun number : ℕ => (number : F)) highs
    push_cast at lowsLifted highsLifted
    exact ⟨by linear_combination lowsLifted, by linear_combination highsLifted⟩

def masked (flag : Bool) (word : BitVec 32) : BitVec 32 := if flag then word else 0

@[simp] theorem masked_true (word : BitVec 32) : masked true word = word := rfl

@[simp] theorem masked_false (word : BitVec 32) : masked false word = 0#32 := rfl

@[simp] theorem bit_mul_lowLimb (flag : Bool) (word : BitVec 32) :
    bit flag * (lowLimb word : F) = lowLimb (masked flag word) := by
  cases flag <;> simp

@[simp] theorem bit_mul_highLimb (flag : Bool) (word : BitVec 32) :
    bit flag * (highLimb word : F) = highLimb (masked flag word) := by
  cases flag <;> simp

variable {context : OptimizationContext}

theorem yields_enforceIsZeroSlot {index : ℕ} {isZero : Bool}
    (pooled : context.isZeroFlags[index]? = some (.is (bit isZero))) (execute : Bool)
    (word : BitVec 32) (result : Unit) :
    (enforceIsZeroSlot context index [⟨.is (bit execute), .ofWord word⟩]).Yields result ↔
      decide (masked execute word = 0) = isZero := by
  simp [enforceIsZeroSlot, Register.chooseFromOrthogonalVariants, pooled, Boolean.isConstant]

end OptimizationContext

end Airbender.Cs

import Airbender.Cs.MergedRelations

/-!
# Merged additions and subtractions

A request takes a register and a carry from the pools; its relation is merged with the others of its
slot. The merged relations are exactly the additions and subtractions of the executed requests.
-/

namespace Airbender.Cs.OptimizationContext

open CircuitLib Circuit Mersenne31Field CursorScript List

/-- An operand: a word in variables, or a word that is known when the circuit is built. -/
inductive Operand where
  | var (word : BitVec 32)
  | constant (word : BitVec 32)

namespace Operand

def word : Operand → BitVec 32
  | var word => word
  | constant word => word

def isConstant : Operand → Bool
  | var _ => false
  | constant _ => true

def register : Operand → Register
  | var word => .ofWord word
  | constant word => ⟨.constant (lowLimb word : F), .constant (highLimb word : F)⟩

end Operand

structure Addition where
  execute : Bool
  a : Operand
  b : Operand
  c : Operand

def Addition.relation (addition : Addition) : AddSubRelation :=
  ⟨.is (bit addition.execute), addition.a.register, addition.b.register, addition.c.register⟩

/-- A call of `append_add_sub_relation`; two constant operands have no witness function. -/
structure AddSubRequest where
  execute : Bool
  a : Operand
  b : Operand
  isSub : Bool
  supported : (a.isConstant && b.isConstant) = false

namespace AddSubRequest

variable (request : AddSubRequest)

def append : ContextM (Register × Boolean) :=
  appendAddSubRelation request.a.register request.b.register (.is (bit request.execute))
    request.isSub

/-- The registered relation, for a result register that holds a word. -/
def addition (value : BitVec 32) : Addition :=
  if request.isSub then ⟨request.execute, .var value, request.b, request.a⟩
  else ⟨request.execute, request.a, request.b, .var value⟩

def result : BitVec 32 :=
  if request.isSub then request.a.word - request.b.word else request.a.word + request.b.word

def overflow : Bool :=
  if request.isSub then decide (request.a.word.toNat < request.b.word.toNat)
  else decide (2 ^ 32 ≤ request.a.word.toNat + request.b.word.toNat)

theorem relation_addition (value : BitVec 32) :
    (if request.isSub then
      (⟨.is (bit request.execute), .ofWord value, request.b.register, request.a.register⟩ :
        AddSubRelation)
    else ⟨.is (bit request.execute), request.a.register, request.b.register, .ofWord value⟩) =
      (request.addition value).relation := by
  rw [addition]
  split <;> rfl

theorem supportedOperands_eq : supportedOperands request.a.register request.b.register = true := by
  have supported := request.supported
  cases first : request.a with
  | var word => cases second : request.b <;> rfl
  | constant word =>
    cases second : request.b with
    | var other => rfl
    | constant other =>
      rw [first, second] at supported
      cases supported

end AddSubRequest

abbrev AddSubEntry := BitVec 32 × Bool

def addSubEntry (pool : List AddSubEntry) (index : ℕ) : AddSubEntry := pool.getD index (0, false)

def addSubOutput (entry : AddSubEntry) : Register × Boolean := (.ofWord entry.1, .is (bit entry.2))

def addSubContext (cursor : ℕ) (pool : List AddSubEntry) (placed : List (ℕ × AddSubRequest)) :
    OptimizationContext where
  indexers := { registerAllocation := cursor, addSub := cursor }
  registers := pool.map fun entry => .ofWord entry.1
  addSubOfs := pool.map fun entry => .is (bit entry.2)
  addSubRelations := placed.map fun entry =>
    (entry.1, (entry.2.addition (addSubEntry pool entry.1).1).relation)

variable {pool : List AddSubEntry} {placed : List (ℕ × AddSubRequest)}

variable {index : ℕ} (tables : TableDriver)

theorem addSubEntry_append (inside : index < pool.length) (extra : List AddSubEntry) :
    addSubEntry (pool ++ extra) index = addSubEntry pool index :=
  getD_append _ _ _ _ inside

theorem addSubEntry_eq (inside : index < pool.length) :
    addSubEntry pool index = pool[index] := getD_eq_getElem _ _ inside

theorem relations_append (fits : ∀ entry ∈ placed, entry.1 + 1 ≤ pool.length)
    (extra : List AddSubEntry) :
    (placed.map fun entry =>
        (entry.1, (entry.2.addition (addSubEntry (pool ++ extra) entry.1).1).relation)) =
      placed.map fun entry =>
        (entry.1, (entry.2.addition (addSubEntry pool entry.1).1).relation) := by
  apply map_congr_left
  intro entry member
  rw [addSubEntry_append (fits entry member)]

theorem yields_appendAddSub {γ : Type} (cursor : ℕ) (request : AddSubRequest)
    (pool : List AddSubEntry) (placed : List (ℕ × AddSubRequest))
    (rest : Register × Boolean → ContextM γ) (result : γ × OptimizationContext)
    (reached : cursor ≤ pool.length) (fits : ∀ entry ∈ placed, entry.1 + 1 ≤ pool.length) :
    ((request.append >>= rest).run (addSubContext cursor pool placed)).Yields result ↔
      ∃ extra : List AddSubEntry, extra.length = cursor + 1 - pool.length ∧
        ((rest (addSubOutput (addSubEntry (pool ++ extra) cursor))).run
          (addSubContext (cursor + 1) (pool ++ extra) (placed ++ [(cursor, request)]))).Yields
            result := by
  simp only [AddSubRequest.append, appendAddSubRelation, bind_assoc, pure_bind,
    request.supportedOperands_eq, Boolean.getVariable_is]
  rcases Nat.lt_or_eq_of_le reached with pooled | exhausted
  · have enough : cursor + 1 - pool.length = 0 := by omega
    rw [yields_getRegisterOutput_pooled _ _ _ (by simpa [addSubContext] using pooled),
      yields_pushAddSubRelation_pooled _ _ _ _ (by simpa [addSubContext] using pooled)]
    simp [addSubContext, addSubOutput, enough, addSubEntry_eq pooled, request.relation_addition]
  · subst exhausted
    have last : ∀ entry, addSubEntry (pool ++ [entry]) pool.length = entry := by
      intro entry
      simp [addSubEntry]
    have single : ∀ motive : List AddSubEntry → Prop,
        (∃ extra : List AddSubEntry, extra.length = pool.length + 1 - pool.length ∧ motive extra) ↔
          ∃ word overflow, motive [(word, overflow)] := by
      intro motive
      rw [Nat.add_sub_cancel_left]
      constructor
      · intro found
        rcases found with ⟨extra, one, holds⟩
        rcases length_eq_one_iff.mp one with ⟨⟨word, overflow⟩, rfl⟩
        exact ⟨word, overflow, holds⟩
      · intro found
        rcases found with ⟨word, overflow, holds⟩
        exact ⟨[(word, overflow)], rfl, holds⟩
    rw [yields_getRegisterOutput_new _ _ _ (by simp [addSubContext]), single]
    apply exists_congr
    intro word
    rw [yields_pushAddSubRelation_new _ _ _ _ (by simp [addSubContext])]
    apply exists_congr
    intro overflow
    simp [addSubContext, addSubOutput, last, request.relation_addition, relations_append fits]

namespace Operand

@[simp] theorem word_var (word : BitVec 32) : (var word).word = word := rfl

@[simp] theorem low_value (operand : Operand) :
    operand.register.low.value = (lowLimb operand.word : F) := by
  cases operand <;> rfl

@[simp] theorem high_value (operand : Operand) :
    operand.register.high.value = (highLimb operand.word : F) := by
  cases operand <;> rfl

end Operand

namespace Addition

def active (additions : List Addition) (part : Addition → Operand) : BitVec 32 :=
  ((additions.find? (·.execute)).map fun addition => (part addition).word).getD 0

theorem sum_limb {additions : List Addition} (orthogonal : Orthogonal (·.execute) additions)
    (part : Addition → Operand) (limb : BitVec 32 → ℕ) (vanishes : limb 0 = 0) :
    (additions.map fun addition => bit addition.execute * (limb (part addition).word : F)).sum =
      (limb (active additions part) : F) := by
  rw [sum_executed orthogonal, active]
  cases additions.find? (·.execute) with
  | none =>
    change (0 : F) = ((limb 0 : ℕ) : F)
    rw [vanishes, Nat.cast_zero]
  | some addition => rfl

theorem spec_sum (additions : List Addition) (limb : Register → F) :
    ((additions.map relation).map fun relation =>
      relation.execFlag.value * limb relation.a + relation.execFlag.value * limb relation.b -
        relation.execFlag.value * limb relation.c).sum =
      (additions.map fun addition => bit addition.execute * limb addition.a.register).sum +
        (additions.map fun addition => bit addition.execute * limb addition.b.register).sum -
        (additions.map fun addition => bit addition.execute * limb addition.c.register).sum := by
  induction additions with
  | nil => simp
  | cons addition additions ih =>
    simp only [map_cons, sum_cons] at ih ⊢
    rw [ih, relation, Boolean.value_is]
    ring

theorem masked_sum (additions : List Addition) (limb : AddSubRelation → Num) :
    (additions.map relation).foldl (fun accumulator relation =>
      maskByBooleanIntoAccumulatorConstraint relation.execFlag (limb relation) accumulator) 0 =
      (additions.map fun addition =>
        bit addition.execute * (limb addition.relation).value).sum := by
  simp only [mask_by_boolean_eq, foldl_accumulate, zero_add, map_map]
  rfl

variable {additions : List Addition} (orthogonal : Orthogonal (·.execute) additions)

include orthogonal in
theorem yields_spec (overflow : Bool) (result : Unit) :
    (enforceAddSubRelation (.is (bit overflow)) (additions.map relation)).Yields result ↔
      (active additions (·.a)).toNat + (active additions (·.b)).toNat =
        (active additions (·.c)).toNat + 2 ^ 32 * overflow.toNat := by
  have flagged : (additions.map relation).all (fun relation => relation.execFlag.isIs) = true := by
    apply all_eq_true.mpr
    intro relation member
    rcases mem_map.mp member with ⟨addition, -, rfl⟩
    rfl
  have lows := spec_sum additions fun register => register.low.value
  have highs := spec_sum additions fun register => register.high.value
  simp only [Operand.low_value, sum_limb orthogonal _ lowLimb lowLimb_zero] at lows
  simp only [Operand.high_value, sum_limb orthogonal _ highLimb highLimb_zero] at highs
  rw [← limb_addition_iff]
  simp only [enforceAddSubRelation, foldl_accumulate, zero_add, lows, highs, flagged, yields_bind,
    yields_assert, true_and, yields_addBooleanVariable, yields_addConstraint,
    Boolean.getVariable_is, pure_bind]
  constructor
  · rintro ⟨_, _, ⟨carry, rfl⟩, _, low, high⟩
    exact ⟨carry, low, high⟩
  · rintro ⟨carry, low, high⟩
    exact ⟨(), _, ⟨carry, rfl⟩, (), low, high⟩

include orthogonal in
theorem yields_masked (overflow : Bool) (result : Unit) :
    (enforceMaskedAddSubRelation (.is (bit overflow)) (additions.map relation)).Yields result ↔
      (active additions (·.a)).toNat + (active additions (·.b)).toNat =
        (active additions (·.c)).toNat + 2 ^ 32 * overflow.toNat := by
  rw [← limb_addition_iff]
  simp only [enforceMaskedAddSubRelation, masked_sum, relation, Operand.low_value,
    Operand.high_value, sum_limb orthogonal _ lowLimb lowLimb_zero,
    sum_limb orthogonal _ highLimb highLimb_zero, yields_bind, yields_addBooleanVariable,
    yields_addConstraint, Boolean.getVariable_is, pure_bind]
  constructor
  · intro found
    rcases found with ⟨_, ⟨carry, rfl⟩, _, low, high⟩
    exact ⟨carry, low, high⟩
  · intro found
    rcases found with ⟨carry, low, high⟩
    exact ⟨_, ⟨carry, rfl⟩, (), low, high⟩

include orthogonal in
theorem yields_slot {context : OptimizationContext} {index : ℕ} {overflow : Bool}
    (pooled : context.addSubOfs[index]? = some (.is (bit overflow))) (result : Unit) :
    (enforceAddSubSlot context index (additions.map relation)).Yields result ↔
      (active additions (·.a)).toNat + (active additions (·.b)).toNat =
        (active additions (·.c)).toNat + 2 ^ 32 * overflow.toNat := by
  rw [enforceAddSubSlot, pooled]
  dsimp only
  split
  · exact yields_spec orthogonal overflow result
  · exact yields_masked orthogonal overflow result

end Addition

theorem yields_enforceAddSubSlot {context : OptimizationContext} {overflow : Bool}
    (pooled : context.addSubOfs[index]? = some (.is (bit overflow))) (execute : Bool)
    (a b c : BitVec 32) (result : Unit) :
    (enforceAddSubSlot context index
      [⟨.is (bit execute), .ofWord a, .ofWord b, .ofWord c⟩]).Yields result ↔
      (masked execute a).toNat + (masked execute b).toNat =
        (masked execute c).toNat + 2 ^ 32 * overflow.toNat := by
  have alone : Orthogonal (·.execute) [(⟨execute, .var a, .var b, .var c⟩ : Addition)] :=
    pairwise_singleton _ _
  have slot := Addition.yields_slot alone pooled result
  cases execute <;> exact slot

theorem yields_enforceAddSubSlot_exclusive {context : OptimizationContext}
    {overflow : Bool} (pooled : context.addSubOfs[index]? = some (.is (bit overflow)))
    (execute isAdd : Bool) (a b c : BitVec 32) (result : Unit) :
    (enforceAddSubSlot context index
      [⟨.is (bit (execute && isAdd)), .ofWord a, .ofWord b, .ofWord c⟩,
        ⟨.is (bit (execute && !isAdd)), .ofWord c, .ofWord b, .ofWord a⟩]).Yields result ↔
      (masked execute (if isAdd then a else c)).toNat + (masked execute b).toNat =
        (masked execute (if isAdd then c else a)).toNat + 2 ^ 32 * overflow.toNat := by
  have both : Orthogonal (·.execute) [(⟨execute && isAdd, .var a, .var b, .var c⟩ : Addition),
      ⟨execute && !isAdd, .var c, .var b, .var a⟩] :=
    pairwise_pair.mpr (by cases isAdd <;> simp)
  have slot := Addition.yields_slot both pooled result
  cases execute <;> cases isAdd <;> exact slot

def addSubRegistry : Registry AddSubRequest (Register × Boolean) AddSubEntry ℕ where
  append := AddSubRequest.append
  start := 0
  advance cursor _ := cursor + 1
  indexers cursor := { registerAllocation := cursor, addSub := cursor }
  reach cursor := cursor
  output pool cursor _ := addSubOutput (addSubEntry pool cursor)
  context := addSubContext
  indexers_start := rfl
  reach_start := rfl
  indexers_context _ _ _ := rfl
  context_restore _ _ _ _ := rfl
  output_append _ extra _ _ inside := congrArg addSubOutput (addSubEntry_append inside extra)
  yields_append := yields_appendAddSub

theorem eq_decide_iff (flag : Bool) (condition : Prop) [Decidable condition] :
    flag = decide condition ↔ (flag.toNat = 1 ↔ condition) := by
  cases flag <;> simp

theorem AddSubRequest.addition_iff (request : AddSubRequest) (entry : AddSubEntry) :
    (request.addition entry.1).a.word.toNat + (request.addition entry.1).b.word.toNat =
        (request.addition entry.1).c.word.toNat + 2 ^ 32 * entry.2.toNat ↔
      entry = (request.result, request.overflow) := by
  rcases entry with ⟨value, carry⟩
  have aBound := request.a.word.isLt
  have bBound := request.b.word.isLt
  have valueBound := value.isLt
  have carryBound := carry.toNat_lt
  rw [Prod.mk.injEq, BitVec.toNat_eq]
  cases sub : request.isSub with
  | true =>
    simp only [AddSubRequest.addition, AddSubRequest.result, AddSubRequest.overflow, sub, if_true,
      Operand.word_var, eq_decide_iff, BitVec.toNat_sub]
    omega
  | false =>
    simp only [AddSubRequest.addition, AddSubRequest.result, AddSubRequest.overflow, sub,
      Bool.false_eq_true, if_false, Operand.word_var, eq_decide_iff, BitVec.toNat_add]
    omega

def mergedAddSub (tables : TableDriver) (steps : List (Step AddSubRequest)) :
    Assembly (List (Register × Boolean)) := do
  let (outputs, context) ← (runSteps AddSubRequest.append steps {}).run {}
  context.enforceAll tables
  pure outputs

def SlotOrthogonal (placed : List (ℕ × AddSubRequest)) : Prop :=
  placed.Pairwise fun first second =>
    first.1 = second.1 → ¬ (first.2.execute = true ∧ second.2.execute = true)

def inSlot (placed : List (ℕ × AddSubRequest)) (index : ℕ) : List AddSubRequest :=
  (placed.filter fun entry => entry.1 == index).map Prod.snd

theorem slot_eq (placed : List (ℕ × AddSubRequest)) (pool : List AddSubEntry) (index : ℕ) :
    slot (placed.map fun entry =>
        (entry.1, (entry.2.addition (addSubEntry pool entry.1).1).relation)) index =
      ((inSlot placed index).map fun request =>
        request.addition (addSubEntry pool index).1).map Addition.relation := by
  rw [slot, inSlot, filter_map, map_map, map_map, map_map]
  apply map_congr_left
  intro entry member
  have same : entry.1 = index := by simpa using (mem_filter.mp member).2
  subst same
  rfl

@[simp] theorem AddSubRequest.execute_addition (request : AddSubRequest) (value : BitVec 32) :
    (request.addition value).execute = request.execute := by
  rw [addition]
  split <;> rfl

theorem slot_iff {requests : List AddSubRequest} (orthogonal : Orthogonal (·.execute) requests)
    (entry : AddSubEntry) :
    (let additions := requests.map fun request => request.addition entry.1
    (Addition.active additions (·.a)).toNat + (Addition.active additions (·.b)).toNat =
      (Addition.active additions (·.c)).toNat + 2 ^ 32 * entry.2.toNat) ↔
      (∀ request ∈ requests, request.execute = true →
        entry = (request.result, request.overflow)) ∧
      ((∀ request ∈ requests, request.execute = false) → entry.2 = false) := by
  have search : (requests.map fun request => request.addition entry.1).find? (·.execute) =
      (requests.find? (·.execute)).map fun request => request.addition entry.1 := by
    rw [find?_map]
    simp only [Function.comp_def, AddSubRequest.execute_addition]
  rw [forall_executed_iff orthogonal]
  simp only [Addition.active, search]
  cases found : requests.find? (·.execute) with
  | none =>
    have idle : ∀ request ∈ requests, request.execute = false := by
      intro request member
      simpa using find?_eq_none.mp found request member
    constructor
    · intro balanced
      refine ⟨?_, ?_⟩
      · intro request impossible
        cases impossible
      · intro _
        cases carry : entry.2 with
        | false => rfl
        | true => simp [carry] at balanced
    · intro both
      simp [both.2 idle]
  | some request =>
    have executes := find?_some found
    have member := mem_of_find?_eq_some found
    refine (request.addition_iff entry).trans ⟨fun same => ⟨?_, ?_⟩, fun both => ?_⟩
    · intro other sought
      cases sought
      exact same
    · intro idle
      rw [idle request member] at executes
      cases executes
    · exact both.1 request rfl

theorem mem_inSlot {request : AddSubRequest} :
    request ∈ inSlot placed index ↔ (index, request) ∈ placed := by
  simp [inSlot]

theorem orthogonal_inSlot (orthogonal : SlotOrthogonal placed) (index : ℕ) :
    Orthogonal (·.execute) (inSlot placed index) := by
  apply pairwise_map.mpr
  apply (orthogonal.filter _).imp_of_mem
  intro first second firstMember secondMember exclusive
  have firstSlot := (mem_filter.mp firstMember).2
  have secondSlot := (mem_filter.mp secondMember).2
  exact exclusive ((eq_of_beq firstSlot).trans (eq_of_beq secondSlot).symm)

def Correct (placed : List (ℕ × AddSubRequest)) (outputs : ℕ → AddSubEntry) : Prop :=
  ∀ entry ∈ placed, entry.2.execute = true → outputs entry.1 = (entry.2.result, entry.2.overflow)

def executed (placed : List (ℕ × AddSubRequest)) (index : ℕ) : Bool :=
  (inSlot placed index).any (·.execute)

theorem yields_enforceAll_addSub (cursor : ℕ) (orthogonal : SlotOrthogonal placed)
    (sized : pool.length = addSubRegistry.poolSize placed 0) (result : Unit) :
    ((addSubContext cursor pool placed).enforceAll tables).Yields result ↔
      Correct placed (addSubEntry pool) ∧
        ∀ index < pool.length, executed placed index = false →
          (addSubEntry pool index).2 = false := by
  have count : slotCount (addSubContext cursor pool placed).addSubRelations = pool.length := by
    rw [sized, slotCount, addSubContext, map_map]
    rfl
  have slots : ∀ index < pool.length,
      ((enforceAddSubSlot (addSubContext cursor pool placed) index
        (slot (addSubContext cursor pool placed).addSubRelations index)).Yields () ↔
        (∀ request ∈ inSlot placed index, request.execute = true →
          addSubEntry pool index = (request.result, request.overflow)) ∧
        ((∀ request ∈ inSlot placed index, request.execute = false) →
          (addSubEntry pool index).2 = false)) := by
    intro index inside
    have merged : Orthogonal (·.execute) ((inSlot placed index).map fun request =>
        request.addition (addSubEntry pool index).1) := by
      apply pairwise_map.mpr
      simp only [AddSubRequest.execute_addition]
      exact orthogonal_inSlot orthogonal index
    have pooled : (addSubContext cursor pool placed).addSubOfs[index]? =
        some (.is (bit (addSubEntry pool index).2)) := by
      rw [addSubEntry_eq inside, addSubContext, getElem?_map, getElem?_eq_getElem inside]
      rfl
    rw [← slot_iff (orthogonal_inSlot orthogonal index)]
    change (enforceAddSubSlot _ index (slot (placed.map _) index)).Yields () ↔ _
    rw [slot_eq]
    exact Addition.yields_slot merged pooled ()
  have alone : ((addSubContext cursor pool placed).enforceAll tables).Yields result ↔
      (enforceSlots (addSubContext cursor pool placed).addSubRelations
        (enforceAddSubSlot (addSubContext cursor pool placed))).Yields () := by
    simp only [enforceAll, yields_bind, yields_assert, count]
    simp [addSubContext, yields_enforceSlots, slotCount]
  rw [alone, yields_enforceSlots, count]
  constructor
  · intro holds
    refine ⟨?_, ?_⟩
    · intro entry member executes
      have inside : entry.1 < pool.length := by
        rw [sized]
        exact le_extent_of_mem 0 (mem_map_of_mem member)
      exact ((slots entry.1 inside).mp (holds entry.1 inside)).1 entry.2 (mem_inSlot.mpr member)
        executes
    · intro index inside idle
      apply ((slots index inside).mp (holds index inside)).2
      intro request member
      simpa using any_eq_false.mp idle request member
  · intro holds index inside
    apply (slots index inside).mpr
    refine ⟨?_, ?_⟩
    · intro request member executes
      exact holds.1 (index, request) (mem_inSlot.mp member) executes
    · intro idle
      apply holds.2 index inside
      apply any_eq_false.mpr
      intro request member
      simp [idle request member]

theorem yields_mergedAddSub {steps : List (Step AddSubRequest)}
    (orthogonal : SlotOrthogonal (addSubRegistry.placed steps))
    (outputs : List (Register × Boolean)) :
    (mergedAddSub tables steps).Yields outputs ↔
      ∃ pool : List AddSubEntry,
        pool.length = addSubRegistry.poolSize (addSubRegistry.placed steps) 0 ∧
        Correct (addSubRegistry.placed steps) (addSubEntry pool) ∧
        (∀ index < pool.length, executed (addSubRegistry.placed steps) index = false →
          (addSubEntry pool index).2 = false) ∧
        ((addSubRegistry.placed steps).map fun entry =>
          addSubOutput (addSubEntry pool entry.1)) = outputs := by
  have runs := addSubRegistry.yields_run steps
  simp only [mergedAddSub, yields_bind, yields_pure]
  constructor
  · intro found
    rcases found with ⟨middle, ran, _, enforced, rfl⟩
    rcases (runs middle).mp ran with ⟨pool, sized, rfl⟩
    rcases (yields_enforceAll_addSub tables _ orthogonal sized _).mp enforced with ⟨correct, idle⟩
    exact ⟨pool, sized, correct, idle, rfl⟩
  · intro found
    rcases found with ⟨pool, sized, correct, idle, rfl⟩
    exact ⟨_, (runs _).mpr ⟨pool, sized, rfl⟩, (),
      (yields_enforceAll_addSub tables _ orthogonal sized _).mpr ⟨correct, idle⟩, rfl⟩

theorem addSubEntry_map_range (outputs : ℕ → AddSubEntry) {size : ℕ} (inside : index < size) :
    addSubEntry ((List.range size).map outputs) index = outputs index := by
  rw [addSubEntry_eq (by simpa using inside)]
  simp

theorem lt_poolSize {entry : ℕ × AddSubRequest} (member : entry ∈ placed) :
    entry.1 < addSubRegistry.poolSize placed 0 :=
  le_extent_of_mem 0 (mem_map_of_mem member)

/-- Results that are right for the executed requests are accepted, whatever the registers of the
other slots hold; slots without an executed request have no carry. -/
theorem exists_mergedAddSub {steps : List (Step AddSubRequest)}
    (orthogonal : SlotOrthogonal (addSubRegistry.placed steps)) {results : ℕ → AddSubEntry}
    (correct : Correct (addSubRegistry.placed steps) results) :
    ∃ assignment, (mergedAddSub tables steps).run assignment =
      some ((addSubRegistry.placed steps).map fun entry =>
        addSubOutput ((results entry.1).1,
          executed (addSubRegistry.placed steps) entry.1 && (results entry.1).2), []) := by
  let placed := addSubRegistry.placed steps
  let outputs : ℕ → AddSubEntry := fun index =>
    ((results index).1, executed placed index && (results index).2)
  apply (yields_iff_run _ _).mp
  apply (yields_mergedAddSub tables orthogonal _).mpr
  refine ⟨(List.range (addSubRegistry.poolSize placed 0)).map outputs, by simp [placed], ?_, ?_, ?_⟩
  · intro entry member executes
    have busy : executed placed entry.1 = true :=
      any_eq_true.mpr ⟨entry.2, mem_inSlot.mpr member, executes⟩
    rw [addSubEntry_map_range outputs (lt_poolSize member), ← correct entry member executes]
    simp only [outputs, busy, Bool.true_and]
  · intro index inside idle
    have bounded : index < addSubRegistry.poolSize placed 0 := by simpa using inside
    have quiet : executed placed index = false := idle
    rw [addSubEntry_map_range outputs bounded]
    simp only [outputs, quiet, Bool.false_and]
  · apply map_congr_left
    intro entry member
    rw [addSubEntry_map_range outputs (lt_poolSize member)]

/-- The merged relations say that the executed requests have their results and carries, and they
say nothing else. -/
theorem mergedAddSub_spec (tables : TableDriver) (steps : List (Step AddSubRequest))
    (orthogonal : SlotOrthogonal (addSubRegistry.placed steps)) :
    (∀ assignment outputs, (mergedAddSub tables steps).run assignment = some (outputs, []) →
      List.Forall₂ (fun (entry : ℕ × AddSubRequest) output => entry.2.execute = true →
        output = (Register.ofWord entry.2.result, Boolean.is (bit entry.2.overflow)))
        (addSubRegistry.placed steps) outputs) ∧
    (∀ results : ℕ → AddSubEntry, Correct (addSubRegistry.placed steps) results →
      ∃ assignment, (mergedAddSub tables steps).run assignment =
        some ((addSubRegistry.placed steps).map fun entry =>
          addSubOutput ((results entry.1).1,
            executed (addSubRegistry.placed steps) entry.1 && (results entry.1).2), [])) ∧
    ((∀ entry ∈ addSubRegistry.placed steps, entry.2.execute = false) →
      ∃ assignment, (mergedAddSub tables steps).run assignment =
        some ((addSubRegistry.placed steps).map fun _ => addSubOutput (0, false), [])) := by
  refine ⟨?_, ?_, ?_⟩
  · intro assignment outputs accepted
    have yielded := (yields_iff_run _ _).mpr ⟨assignment, accepted⟩
    rcases (yields_mergedAddSub tables orthogonal outputs).mp yielded with
      ⟨pool, -, correct, -, rfl⟩
    apply forall₂_map_right_iff.mpr
    apply forall₂_same.mpr
    intro entry member executes
    rw [correct entry member executes]
    rfl
  · intro results correct
    exact exists_mergedAddSub tables orthogonal correct
  · intro idle
    have correct : Correct (addSubRegistry.placed steps) fun _ => (0, false) := by
      intro entry member executes
      rw [idle entry member] at executes
      cases executes
    simpa only [Bool.and_false] using exists_mergedAddSub tables orthogonal correct

def additionOrSubtraction : List (Step AddSubRequest) :=
  [.reset, .place ⟨true, .var 1, .var 2, false, rfl⟩,
    .reset, .place ⟨false, .var 5, .constant 7, true, rfl⟩]

theorem additionOrSubtraction_satisfiable :
    ∃ assignment, (mergedAddSub (fun _ _ => false) additionOrSubtraction).run assignment =
      some ([addSubOutput (3, false), addSubOutput (3, false)], []) := by
  have orthogonal : SlotOrthogonal (addSubRegistry.placed additionOrSubtraction) := by
    unfold SlotOrthogonal
    decide
  have correct : Correct (addSubRegistry.placed additionOrSubtraction) fun _ => (3, false) := by
    unfold Correct
    decide
  exact (mergedAddSub_spec _ additionOrSubtraction orthogonal).2.1 _ correct

end Airbender.Cs.OptimizationContext

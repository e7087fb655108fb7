import Airbender.Field.TwoAdic

/-!
# Consistency checks of the queries

The verifier combines every column opened at `z` and at `z * omega` with powers of one challenge,
once for the claimed evaluations and once per query for the leaf values. The plain version stores
the powers; the version for fused multiply-add walks the columns backwards by the rule of Horner.
Columns of the base field enter both as extension elements, so one fold over the list of all
columns is the value of either.
-/

namespace Airbender.Verifier

set_option autoImplicit false

/-- The constants of a compiled verifier that count columns and openings. -/
structure OpeningLayout where
  setupWidth : ℕ
  witnessWidth : ℕ
  memoryWidth : ℕ
  numBaseFieldPolys : ℕ
  ext4PolysOffset : ℕ
  numExt4FieldPolys : ℕ
  /-- `WITNESS_NEXT_ROW_OPENING_INDEXES`. -/
  witnessNextRow : List (Fin witnessWidth)
  /-- `MEMORY_NEXT_ROW_OPENING_INDEXES`. -/
  memoryNextRow : List (Fin memoryWidth)
  /-- `MEMORY_GRAND_PRODUCT_ACCUMULATOR_POLY_INDEX`, counted from the first extension column. -/
  grandProduct : Fin numExt4FieldPolys
  basePolysFirst : numBaseFieldPolys ≤ ext4PolysOffset
  /-- The number of openings is a `usize` of the RISC-V machine. -/
  countFits : setupWidth + witnessWidth + memoryWidth + numBaseFieldPolys + numExt4FieldPolys + 1
    < 2 ^ 32

namespace OpeningLayout

variable (layout : OpeningLayout)

def numOpeningsAtZ : ℕ :=
  layout.setupWidth + layout.witnessWidth + layout.memoryWidth + layout.numBaseFieldPolys +
    layout.numExt4FieldPolys + 1

def numOpeningsAtZOmega : ℕ :=
  layout.witnessNextRow.length + layout.memoryNextRow.length + 1

end OpeningLayout

/-- The target and the feature that the fused operations depend on. -/
structure Build where
  riscv32 : Bool
  modularExt4Ops : Bool

/-- `CAN_PROJECT_FROM_BASE`: elsewhere the alignment of an extension element is 16. -/
def Build.canProjectFromBase (build : Build) : Bool := build.riscv32

structure Openings (layout : OpeningLayout) where
  atZ : Vector Mersenne31Quartic layout.numOpeningsAtZ
  atZOmega : Vector Mersenne31Quartic layout.numOpeningsAtZOmega

structure LeafValues (layout : OpeningLayout) where
  setup : Vector Mersenne31Field layout.setupWidth
  witness : Vector Mersenne31Field layout.witnessWidth
  memory : Vector Mersenne31Field layout.memoryWidth
  stage2 : Vector Mersenne31Field (layout.ext4PolysOffset + layout.numExt4FieldPolys * 4)
  quotient : Vector Mersenne31Field 4

variable {layout : OpeningLayout}

namespace LeafValues

variable (query : LeafValues layout)

def stage2Base : List Mersenne31Field := query.stage2.toList.take layout.numBaseFieldPolys

/-- One chunk of four after `ext4_polys_offset`. -/
def stage2Ext (index : Fin layout.numExt4FieldPolys) : Mersenne31Quartic :=
  let start := layout.ext4PolysOffset + index * 4
  .fromCoeffsInBase (query.stage2.get ⟨start, by omega⟩) (query.stage2.get ⟨start + 1, by omega⟩)
    (query.stage2.get ⟨start + 2, by omega⟩) (query.stage2.get ⟨start + 3, by omega⟩)

def quotientValue : Mersenne31Quartic :=
  .fromCoeffsInBase query.quotient[0] query.quotient[1] query.quotient[2] query.quotient[3]

def witnessNext : List Mersenne31Field := layout.witnessNextRow.map query.witness.get

def memoryNext : List Mersenne31Field := layout.memoryNextRow.map query.memory.get

end LeafValues

/-! ### The plain version -/

/-- What the loops of `precompute_for_consistency_checks` carry: the powers written so far, a sum
and the next power. -/
structure Precompute where
  powers : List Mersenne31Quartic
  sum : Mersenne31Quartic
  current : Mersenne31Quartic

section Definitions

variable (deepPolyAlpha : Mersenne31Quartic) (powers : List Mersenne31Quartic)

def precomputeStep (state : Precompute) (eval : Mersenne31Quartic) : Precompute :=
  ⟨state.powers ++ [state.current], state.sum + state.current * eval,
    state.current * deepPolyAlpha⟩

/-- `precompute_for_consistency_checks`: the two sums, and the array of powers it fills. -/
def precomputeForConsistencyChecks (skeleton : Openings layout) :
    (Mersenne31Quartic × Mersenne31Quartic) × List Mersenne31Quartic :=
  let step := precomputeStep deepPolyAlpha
  let atZ := skeleton.atZ.toList.foldl step ⟨[], 0, 1⟩
  let atZOmega := skeleton.atZOmega.toList.foldl step { atZ with sum := 0 }
  ((atZ.sum, atZOmega.sum), atZOmega.powers)

/-- The next power times a column of the base field; the index stays inside of the array. -/
def addBase (state : ℕ × Mersenne31Quartic) (leafEl : Mersenne31Field) : ℕ × Mersenne31Quartic :=
  (state.1 + 1, state.2 + (powers.getD state.1 0).mulByBase leafEl)

def addExt (state : ℕ × Mersenne31Quartic) (leafEl : Mersenne31Quartic) : ℕ × Mersenne31Quartic :=
  (state.1 + 1, state.2 + powers.getD state.1 0 * leafEl)

/-- How both versions end: `tau` scales what was accumulated, all terms being linear. -/
def simulatedFrom (precomputed accumulated divisor : Mersenne31Quartic)
    (tauInDomainByHalf : Mersenne31Complex) : Mersenne31Quartic :=
  (precomputed - accumulated.mulByComplex tauInDomainByHalf) * divisor

section Row

variable (build : Build)
  (precomputeWithEvalsAtZ precomputeWithEvalsAtZOmega divisorForZ divisorForZOmega :
    Mersenne31Quartic)
  (tauInDomainByHalf tauInDomainByHalfInversed : Mersenne31Complex) (query : LeafValues layout)

def accumulateOverRowForConsistencyCheck : Mersenne31Quartic :=
  let columns := query.setup.toList.foldl (addBase powers) (0, 0)
  let columns := query.witness.toList.foldl (addBase powers) columns
  let columns := query.memory.toList.foldl (addBase powers) columns
  let columns := query.stage2Base.foldl (addBase powers) columns
  let columns := (List.ofFn query.stage2Ext).foldl (addExt powers) columns
  -- the quotient is computed outside of the main domain: the scaling is cancelled for it
  let quotient := powers.getD columns.1 0 * query.quotientValue
  let accumulatedAtZ := columns.2 + quotient.mulByComplex tauInDomainByHalfInversed
  let nextRow := query.witnessNext.foldl (addBase powers) (columns.1 + 1, 0)
  let nextRow := query.memoryNext.foldl (addBase powers) nextRow
  let accumulatedAtZOmega :=
    nextRow.2 + powers.getD nextRow.1 0 * query.stage2Ext layout.grandProduct
  simulatedFrom precomputeWithEvalsAtZ accumulatedAtZ divisorForZ tauInDomainByHalf +
    simulatedFrom precomputeWithEvalsAtZOmega accumulatedAtZOmega divisorForZOmega
      tauInDomainByHalf

/-! ### The version with fused operations -/

/-- `mul_assign_with_fma`; `modular_ext4_ops` of a RISC-V build adds zero to the product. -/
def mulWithFma (element other : Mersenne31Quartic) : Mersenne31Quartic :=
  if build.riscv32 && build.modularExt4Ops then element.fusedMulAdd other 0 else element * other

/-- The loop of `pow_with_fma`. -/
def powLoop (base result : Mersenne31Quartic) (exp : ℕ) : Mersenne31Quartic :=
  if exp = 0 then result
  else powLoop (mulWithFma build base base)
    (if exp % 2 = 1 then mulWithFma build result base else result) (exp / 2)

/-- One fused step of the loops, which run from the last column down. -/
def hornerStep (leafEl accumulated : Mersenne31Quartic) : Mersenne31Quartic :=
  accumulated.fusedMulAdd deepPolyAlpha leafEl

/-- A column of the base field, copied into the first coefficient of `leaf_value`. -/
def leafValueOf (leafEl : Mersenne31Field) : Mersenne31Quartic := .fromCoeffsInBase leafEl 0 0 0

/-- `precompute_for_consistency_checks_with_fma`: the two sums and the extra factor. -/
def precomputeForConsistencyChecksWithFma (skeleton : Openings layout) :
    (Mersenne31Quartic × Mersenne31Quartic) × Mersenne31Quartic :=
  let atZ := skeleton.atZ.toList.foldr (hornerStep deepPolyAlpha) 0
  let atZOmega := skeleton.atZOmega.toList.foldr (hornerStep deepPolyAlpha) 0
  let extraFactor := powLoop build deepPolyAlpha 1 (layout.numOpeningsAtZ % 2 ^ 32)
  ((atZ, mulWithFma build atZOmega extraFactor), extraFactor)

/-- A loop over columns of the base field. -/
def hornerBase (leaf : List Mersenne31Field) (accumulated : Mersenne31Quartic) :
    Mersenne31Quartic :=
  leaf.foldr (fun leafEl => hornerStep deepPolyAlpha (leafValueOf leafEl)) accumulated

def accumulateOverRowForConsistencyCheckWithFma (extraFactor : Mersenne31Quartic) :
    Option Mersenne31Quartic := do
  guard build.canProjectFromBase
  let accumulated := query.quotientValue.mulByComplex tauInDomainByHalfInversed
  let accumulated := (List.ofFn query.stage2Ext).foldr (hornerStep deepPolyAlpha) accumulated
  let accumulated := hornerBase deepPolyAlpha query.stage2Base accumulated
  let accumulated := hornerBase deepPolyAlpha query.memory.toList accumulated
  let accumulated := hornerBase deepPolyAlpha query.witness.toList accumulated
  let accumulatedAtZ := hornerBase deepPolyAlpha query.setup.toList accumulated
  let accumulated := query.stage2Ext layout.grandProduct
  let accumulated := hornerBase deepPolyAlpha query.memoryNext accumulated
  let accumulated := hornerBase deepPolyAlpha query.witnessNext accumulated
  let accumulatedAtZOmega := mulWithFma build accumulated extraFactor
  some (simulatedFrom precomputeWithEvalsAtZ accumulatedAtZ divisorForZ tauInDomainByHalf +
    simulatedFrom precomputeWithEvalsAtZOmega accumulatedAtZOmega divisorForZOmega
      tauInDomainByHalf)

end Row

end Definitions

/-! ### Both as folds over all columns -/

variable (alpha : Mersenne31Quartic) (powers : List Mersenne31Quartic)

theorem hornerStep_eq (leafEl accumulated : Mersenne31Quartic) :
    hornerStep alpha leafEl accumulated = accumulated * alpha + leafEl := rfl

/-- What the accumulator held before the loop is scaled once per column. -/
theorem foldr_hornerStep (columns : List Mersenne31Quartic) (accumulated : Mersenne31Quartic) :
    columns.foldr (hornerStep alpha) accumulated =
      columns.foldr (hornerStep alpha) 0 +
        alpha ^ columns.length * accumulated := by
  induction columns with
  | nil => simp
  | cons column columns ih =>
    rw [List.foldr_cons, List.foldr_cons, List.length_cons, hornerStep_eq, hornerStep_eq, ih]
    ring

theorem hornerBase_eq (leaf : List Mersenne31Field) (accumulated : Mersenne31Quartic) :
    hornerBase alpha leaf accumulated =
      (leaf.map leafValueOf).foldr (hornerStep alpha) accumulated := by
  rw [List.foldr_map, hornerBase]

def powersUpTo (count : ℕ) : List Mersenne31Quartic := (List.range count).map (alpha ^ ·)

theorem foldl_precomputeStep (evals : List Mersenne31Quartic) (start : ℕ)
    (sum : Mersenne31Quartic) :
    evals.foldl (precomputeStep alpha)
        ⟨powersUpTo alpha start, sum, alpha ^ start⟩ =
      ⟨powersUpTo alpha (start + evals.length),
        sum + alpha ^ start * evals.foldr (hornerStep alpha) 0,
        alpha ^ (start + evals.length)⟩ := by
  induction evals generalizing start sum with
  | nil => simp
  | cons eval evals ih =>
    have stored : powersUpTo alpha start ++ [alpha ^ start] =
        powersUpTo alpha (start + 1) := by
      simp [powersUpTo, List.range_succ]
    rw [List.foldl_cons, precomputeStep, stored, ← pow_succ, ih, List.length_cons,
      Nat.add_right_comm start 1, Nat.add_assoc start, List.foldr_cons, hornerStep_eq]
    congr 1
    ring

theorem foldl_addBase (leaf : List Mersenne31Field) (state : ℕ × Mersenne31Quartic) :
    leaf.foldl (addBase powers) state = (leaf.map leafValueOf).foldl (addExt powers) state := by
  have scaled (power : Mersenne31Quartic) (leafEl : Mersenne31Field) :
      power.mulByBase leafEl = power * leafValueOf leafEl := by
    ext <;> simp [Mersenne31Quartic.mulByBase, leafValueOf, Mersenne31Quartic.fromCoeffsInBase]
  rw [List.foldl_map]
  apply List.foldl_ext
  intro state leafEl _
  rw [addBase, addExt, scaled]

theorem powersUpTo_getD {total index : ℕ} (inside : index < total) :
    (powersUpTo alpha total).getD index 0 = alpha ^ index := by
  simp [powersUpTo, inside]

theorem foldl_addExt {total : ℕ} (columns : List Mersenne31Quartic) (start : ℕ)
    (sum : Mersenne31Quartic) (inside : start + columns.length ≤ total) :
    columns.foldl (addExt (powersUpTo alpha total)) (start, sum) =
      (start + columns.length,
        sum + alpha ^ start * columns.foldr (hornerStep alpha) 0) := by
  induction columns generalizing start sum with
  | nil => simp
  | cons column columns ih =>
    rw [List.length_cons] at inside
    rw [List.foldl_cons, addExt, powersUpTo_getD alpha (by omega), ih _ _ (by omega),
      List.length_cons, Nat.add_right_comm start 1, Nat.add_assoc start, List.foldr_cons,
      hornerStep_eq]
    congr 1
    ring

theorem mulWithFma_eq (build : Build) (element other : Mersenne31Quartic) :
    mulWithFma build element other = element * other := by
  unfold mulWithFma
  split_ifs
  · exact add_zero _
  · rfl

theorem powLoop_eq (build : Build) (base result : Mersenne31Quartic) (exp : ℕ) :
    powLoop build base result exp = result * base ^ exp := by
  fun_induction powLoop build base result exp with
  | case1 base result => simp
  | case2 base result exp positive ih =>
    have parts := Nat.div_add_mod exp 2
    rw [mulWithFma_eq, mulWithFma_eq, dite_eq_ite] at ih
    rw [mulWithFma_eq, mulWithFma_eq, ih, ← sq, ← pow_mul]
    rcases Nat.mod_two_eq_zero_or_one exp with even | odd
    · rw [even, Nat.add_zero] at parts
      rw [even, if_neg Nat.zero_ne_one, parts]
    · rw [odd] at parts
      rw [if_pos odd, mul_assoc, ← pow_succ', parts]

namespace LeafValues

variable (query : LeafValues layout)

/-- The columns opened at `z`, but for the quotient. -/
def columns : List Mersenne31Quartic :=
  (query.setup.toList ++ query.witness.toList ++ query.memory.toList ++ query.stage2Base).map
    leafValueOf ++ List.ofFn query.stage2Ext

/-- The base columns opened at `z * omega`. -/
def nextColumns : List Mersenne31Quartic :=
  (query.witnessNext ++ query.memoryNext).map leafValueOf

theorem length_columns : query.columns.length + 1 = layout.numOpeningsAtZ := by
  have first := layout.basePolysFirst
  have base : query.stage2Base.length = layout.numBaseFieldPolys := by
    rw [stage2Base, List.length_take, Vector.length_toList]
    omega
  simp [columns, base, OpeningLayout.numOpeningsAtZ, Nat.add_assoc]

theorem length_nextColumns : query.nextColumns.length + 1 = layout.numOpeningsAtZOmega := by
  simp [nextColumns, witnessNext, memoryNext, OpeningLayout.numOpeningsAtZOmega]

theorem foldl_columns :
    query.columns.foldl (addExt powers) (0, 0) =
      (List.ofFn query.stage2Ext).foldl (addExt powers) (query.stage2Base.foldl (addBase powers)
        (query.memory.toList.foldl (addBase powers) (query.witness.toList.foldl (addBase powers)
          (query.setup.toList.foldl (addBase powers) (0, 0))))) := by
  simp only [columns, foldl_addBase, List.map_append, List.foldl_append]

theorem foldl_nextColumns (state : ℕ × Mersenne31Quartic) :
    query.nextColumns.foldl (addExt powers) state =
      query.memoryNext.foldl (addBase powers) (query.witnessNext.foldl (addBase powers) state) := by
  simp only [nextColumns, foldl_addBase, List.map_append, List.foldl_append]

end LeafValues

/-- A layout with one extension column, which is that of the grand product. -/
def oneColumnLayout : OpeningLayout :=
  ⟨0, 0, 0, 0, 0, 1, [], [], ⟨0, Nat.one_pos⟩, Nat.le_refl 0, by decide⟩

end Airbender.Verifier

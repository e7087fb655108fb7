import Airbender.Machine.Decoder
import Airbender.Cs.FamilyContext

/-!
# Rows of the modular operations

The result is tied to the operands by one equation in the field, which several pairs of limbs
solve. A subtraction of the modulus that has to borrow leaves the canonical one.
-/

namespace Airbender.Machine

open CircuitLib Circuit Mersenne31Field Cs OptimizationContext Simulator

def modulus : BitVec 32 := 2147483647

def fieldElement (register : Register) : Assembly F := do
  let low ← register.low.getVariable
  let high ← register.high.getVariable
  pure (low + 2 ^ 16 * high)

def MopOp.apply (src1 src2 : RegisterDecompositionWithSign) (flags : BooleanSet) :
    ContextM CommonDiffs := do
  resetIndexers
  let execFlag := flags.getMajorFlag .mop
  let addmod := flags.getMinorFlag .mop .addmod
  let submod := flags.getMinorFlag .mop .submod
  let mulmod := flags.getMinorFlag .mop .mulmod
  let a ← fieldElement src1.u16Limbs
  let b ← fieldElement src2.u16Limbs
  let productResult ← addVariableFromConstraint (a * b)
  -- the register may hold the output of another family, so the result has variables of its own
  let resultRegister ← getRegisterOutput
  let resultTmpLow ← (addVariable : Assembly F)
  let resultTmpHigh ← (addVariable : Assembly F)
  addConstraint (mulmod.value * productResult + addmod.value * (a + b) + submod.value * (a - b) -
    (resultTmpLow + 2 ^ 16 * resultTmpHigh))
  addConstraint (execFlag.value * (resultTmpLow - resultRegister.low.value))
  addConstraint (execFlag.value * (resultTmpHigh - resultRegister.high.value))
  let (_, ufFlag) ← appendSubRelation resultRegister (newFromConstant modulus) execFlag
  addConstraint ((1 - ufFlag.value) * execFlag.value)
  writesRegister execFlag resultRegister

def mopCircuit (tables : TableDriver) (flags : BooleanSet) (rs1 rs2 : Register) :
    Assembly Register := do
  let src1 ← RegisterDecompositionWithSign.parseReg tables rs1
  let src2 ← RegisterDecompositionWithSign.parseReg tables rs2
  let diffs ← enforced tables (MopOp.apply src1 src2 flags)
  CommonDiffs.selectFinalRdValue [diffs]

theorem natCast_toNat (word : BitVec 32) :
    ((word.toNat : ℕ) : F) = (lowLimb word : F) + 2 ^ 16 * (highLimb word : F) := by
  rw [toNat_eq_limbs]
  push_cast
  rfl

@[simp] theorem yields_fieldElement (word : BitVec 32) (result : F) :
    (fieldElement (.ofWord word)).Yields result ↔ (word.toNat : F) = result := by
  simp [fieldElement, natCast_toNat]

section

variable (tables : TableDriver) {src1 src2 : RegisterDecompositionWithSign} {x y : BitVec 32}
  (holds1 : src1.u16Limbs = .ofWord x) (holds2 : src2.u16Limbs = .ofWord y) {flags : BooleanSet}
  (executing : flags.majorFlag .mop = true)

def modularValue (flags : BooleanSet) (x y : BitVec 32) : F :=
  bit (flags.minorFlag .mop .mulmod) * (x.toNat * y.toNat) +
    bit (flags.minorFlag .mop .addmod) * (x.toNat + y.toNat) +
    bit (flags.minorFlag .mop .submod) * (x.toNat - y.toNat)

include holds1 holds2 executing in
theorem mopOp_equation (result : CommonDiffs) :
    (enforced tables (MopOp.apply src1 src2 flags)).Yields result ↔
      ∃ word : BitVec 32, modularValue flags x y = (word.toNat : F) ∧
        (∃ difference : BitVec 32, difference.toNat + modulus.toNat = word.toNat + 2 ^ 32) ∧
        wordDiffs true word = result := by
  simp only [yields_enforced, MopOp.apply, BooleanSet.getMajorFlag, BooleanSet.getMinorFlag,
    appendSubRelation, appendAddSubRelation, holds1, holds2, executing, bind_assoc, pure_bind,
    yields_resetIndexers, yields_lift_bind, yields_fieldElement, exists_eq_left',
    yields_addVariableFromConstraint, yields_addVariable, yields_addConstraint,
    yields_getRegisterOutput_new, yields_pushAddSubRelation_new, yields_writesRegister,
    yields_finish, List.length_nil, List.length_cons, List.nil_append, List.cons_append,
    Nat.reduceAdd, Nat.zero_add, Nat.le_refl, true_and]
  simp [enforceAll, enforceSlots, slotCount, slot, enforceAddSubSlot,
    yields_constantAddition_executed, sub_eq_zero, modularValue, natCast_toNat]

theorem reduced_iff (value : F) (word : BitVec 32) :
    (value = (word.toNat : F) ∧
        ∃ difference : BitVec 32, difference.toNat + modulus.toNat = word.toNat + 2 ^ 32) ↔
      toReducedU32 value = word := by
  have order : modulus.toNat = 2147483647 := rfl
  constructor
  · rintro ⟨rfl, difference, borrowed⟩
    have := difference.isLt
    apply BitVec.eq_of_toNat_eq
    rw [toNat_toReducedU32, val_natCast_of_lt (by omega)]
  · rintro rfl
    have bound := ZMod.val_lt value
    have canonical := toNat_toReducedU32 value
    refine ⟨by rw [canonical, ZMod.natCast_zmod_val], toReducedU32 value - modulus, ?_⟩
    rw [BitVec.toNat_sub, canonical, order]
    omega

include holds1 holds2 executing in
theorem yields_mopOp (result : CommonDiffs) :
    (enforced tables (MopOp.apply src1 src2 flags)).Yields result ↔
      wordDiffs true (toReducedU32 (modularValue flags x y)) = result := by
  rw [mopOp_equation tables holds1 holds2 executing]
  constructor
  · rintro ⟨word, equation, borrowed, written⟩
    rw [(reduced_iff _ word).mp ⟨equation, borrowed⟩]
    exact written
  · intro written
    obtain ⟨equation, borrowed⟩ := (reduced_iff (modularValue flags x y) _).mpr rfl
    exact ⟨_, equation, borrowed, written⟩

variable {instr : Word} {format : InstructionType} {major : DecoderMajorInstructionFamilyKey}
  {minors : List DecoderInstructionVariantsKey} {operation : ModularOperation}

theorem modular_funct7 {funct7 : BitVec 7}
    (encodes : ModularOperation.ofFunct7 funct7 = some operation) :
    (operation = .addmod ∧ funct7 = 0b1000001) ∨ (operation = .submod ∧ funct7 = 0b1000011) ∨
      (operation = .mulmod ∧ funct7 = 0b1000101) := by
  unfold ModularOperation.ofFunct7 at encodes
  split_ifs at encodes with add sub mul
  · exact Or.inl ⟨(Option.some.inj encodes).symm, add⟩
  · exact Or.inr (Or.inl ⟨(Option.some.inj encodes).symm, sub⟩)
  · exact Or.inr (Or.inr ⟨(Option.some.inj encodes).symm, mul⟩)

def modularVariant : ModularOperation → DecoderInstructionVariantsKey
  | .addmod => .addmod
  | .submod => .submod
  | .mulmod => .mulmod

theorem mop_declared
    (supported : MopOp.defineDecoderSubspace (getOpcodeBits instr).toNat (funct3Bits instr).toNat
      (funct7Bits instr).toNat = some (format, major, minors))
    (encodes : ModularOperation.ofFunct7 (funct7Bits instr) = some operation) :
    major = .mop ∧ minors = [modularVariant operation] := by
  rcases modular_funct7 encodes with ⟨rfl, funct7⟩ | ⟨rfl, funct7⟩ | ⟨rfl, funct7⟩ <;>
    simp [MopOp.defineDecoderSubspace, funct7] at supported <;>
    obtain ⟨-, -, rfl, rfl⟩ := supported <;>
    exact ⟨rfl, rfl⟩

theorem modular_result (decoded : flags.Selects .mop [modularVariant operation]) :
    toReducedU32 (modularValue flags x y) = operation.result x y := by
  cases operation with
  | addmod => simp [modularValue, decoded.minor_iff, modularVariant, ModularOperation.result]
  | submod => simp [modularValue, decoded.minor_iff, modularVariant, ModularOperation.result]
  | mulmod => simp [modularValue, decoded.minor_iff, modularVariant, ModularOperation.result]

theorem mop_writes {M S : Type} {config : MachineConfig} (supports : config.supportMops = true)
    (encodes : ModularOperation.ofFunct7 (funct7Bits instr) = some operation)
    (progress : Unrolled.Progress M S) :
    Unrolled.mop config instr x y progress =
      some (progress.writeRd (getRdBits instr) (operation.result x y)) := by
  rcases modular_funct7 encodes with ⟨rfl, funct7⟩ | ⟨rfl, funct7⟩ | ⟨rfl, funct7⟩ <;>
    simp [Unrolled.mop, Unrolled.mopValue, Unrolled.mopFunct7Test, funct7, supports,
      ModularOperation.result]

theorem modular_result_lt (x y : Word) : (operation.result x y).toNat < modulus.toNat := by
  cases operation with
  | addmod => exact (toNat_toReducedU32 _).trans_lt (ZMod.val_lt _)
  | submod => exact (toNat_toReducedU32 _).trans_lt (ZMod.val_lt _)
  | mulmod => exact (toNat_toReducedU32 _).trans_lt (ZMod.val_lt _)

variable {tables : TableDriver}
  (signTable : tables .u16GetSignAndHighByte = u16GetSignAndHighByteTable)

include signTable in
theorem yields_mopCircuit (decoded : flags.Selects .mop [modularVariant operation])
    (rd : Register) :
    (mopCircuit tables flags (.ofWord x) (.ofWord y)).Yields rd ↔
      .ofWord (operation.result x y) = rd := by
  have executing : flags.majorFlag .mop = true := decoded.major_iff _
  apply yields_parsed signTable
  intro src1 holds1 _
  apply yields_parsed signTable
  intro src2 holds2 _
  simp only [yields_bind, yields_mopOp tables holds1 holds2 executing, exists_eq_left']
  rw [yields_selectFinalRdValue_alone _ rfl, modular_result decoded]
  exact Iff.rfl

include signTable in
/-- Every satisfying assignment of a row that executes a modular operation writes the canonical
representative that the simulator writes, and such an assignment exists. -/
theorem mopRow_sound_and_complete
    (supported : MopOp.defineDecoderSubspace (getOpcodeBits instr).toNat (funct3Bits instr).toNat
      (funct7Bits instr).toNat = some (format, major, minors))
    (encodes : ModularOperation.ofFunct7 (funct7Bits instr) = some operation)
    (decoded : flags.Selects major minors) (x y : Word) :
    (operation.result x y).toNat < modulus.toNat ∧
    (∀ {M S : Type} (config : MachineConfig) (progress : Unrolled.Progress M S),
      config.supportMops = true → Unrolled.mop config instr x y progress =
        some (progress.writeRd (getRdBits instr) (operation.result x y))) ∧
    (∀ (assignment : List F) (rd : Register),
      (mopCircuit tables flags (.ofWord x) (.ofWord y)).run assignment = some (rd, []) →
        rd = .ofWord (operation.result x y)) ∧
    ∃ assignment : List F, (mopCircuit tables flags (.ofWord x) (.ofWord y)).run assignment =
      some (.ofWord (operation.result x y), []) := by
  obtain ⟨rfl, rfl⟩ := mop_declared supported encodes
  exact ⟨modular_result_lt x y,
    fun config progress supports => mop_writes supports encodes progress,
    run_determined fun rd => @yields_mopCircuit x y flags operation tables signTable decoded rd⟩

end

def submodFlags : BooleanSet where
  majorFlag key := decide (key = .mop)
  minorFlag _ minor := decide (minor = .submod)

theorem mopRow_noncanonical :
    ∃ assignment : List F,
      (mopCircuit (machineTables 5 []) submodFlags (.ofWord 0) (.ofWord modulus)).run assignment =
        some (.ofWord 0, []) := by
  have supported : MopOp.defineDecoderSubspace (getOpcodeBits 0x86004073).toNat
      (funct3Bits 0x86004073).toNat (funct7Bits 0x86004073).toNat =
      some (.rType, .mop, [.submod]) := rfl
  have decoded : submodFlags.Selects .mop [.submod] :=
    ⟨fun _ => rfl, fun minor => by cases minor <;> rfl⟩
  exact (mopRow_sound_and_complete (machineTables_spec 5 []).u16GetSignAndHighByte supported rfl
    decoded 0 modulus).2.2.2

end Airbender.Machine

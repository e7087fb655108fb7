import Airbender.Machine.MulDivOps

/-!
# The instruction decoder

A machine asks its families in order which encodings they support and tabulates the answers; the
decoder circuit cuts an instruction into fields and looks them up.
-/

namespace Airbender.Machine

open CircuitLib Circuit Mersenne31Field Cs

def operationOpImm : ℕ := 0b0010011

def operationLui : ℕ := 0b0110111

def operationAuipc : ℕ := 0b0010111

def operationBranch : ℕ := 0b1100011

def operationJal : ℕ := 0b1101111

def operationJalr : ℕ := 0b1100111

def operationLoad : ℕ := 0b0000011

def operationStore : ℕ := 0b0100011

def operationSystem : ℕ := 0b1110011

def AddOp.defineDecoderSubspace (opcode func3 func7 : ℕ) : Option DecoderSubspace :=
  if opcode = operationOp ∧ func3 = 0b000 ∧ func7 = 0b0000000 then some (.rType, .add, [])
  else if opcode = operationOpImm ∧ func3 = 0b000 then some (.iType, .add, [])
  else none

def SubOp.defineDecoderSubspace (opcode func3 func7 : ℕ) : Option DecoderSubspace :=
  if opcode = operationOp ∧ func3 = 0b000 ∧ func7 = 0b0100000 then some (.rType, .sub, [])
  else none

def LuiOp.defineDecoderSubspace (opcode _func3 _func7 : ℕ) : Option DecoderSubspace :=
  if opcode = operationLui then some (.uType, .lui, []) else none

def AuiPc.defineDecoderSubspace (opcode _func3 _func7 : ℕ) : Option DecoderSubspace :=
  if opcode = operationAuipc then some (.uType, .auipc, []) else none

/-- `AND`, `OR` and `XOR` differ in `funct3` only, which the family looks at itself. -/
def BinaryOp.defineDecoderSubspace (opcode func3 func7 : ℕ) : Option DecoderSubspace :=
  if func3 = 0b111 ∨ func3 = 0b110 ∨ func3 = 0b100 then
    if opcode = operationOp ∧ func7 = 0b0000000 then some (.rType, .binopCommon, [])
    else if opcode = operationOpImm then some (.iType, .binopCommon, [])
    else none
  else none

/-- Comparisons and branches; `funct3` tells them apart. -/
def ConditionalOp.defineDecoderSubspace (supportSigned : Bool) (opcode func3 func7 : ℕ) :
    Option DecoderSubspace :=
  if (func3 = 0b010 ∧ supportSigned) ∨ func3 = 0b011 then
    if opcode = operationOpImm then some (.iType, .conditionalCommon, [])
    else if opcode = operationOp ∧ func7 = 0 then some (.rType, .conditionalCommon, [])
    else none
  else if opcode = operationBranch ∧ (func3 = 0b000 ∨ func3 = 0b001 ∨
      ((func3 = 0b100 ∨ func3 = 0b101) ∧ supportSigned) ∨ func3 = 0b110 ∨ func3 = 0b111) then
    some (.bType, .conditionalCommon, [])
  else none

def ShiftOp.variants (supportSra supportRot isImmediate : Bool) (func3 func7 : ℕ) :
    Option (List DecoderInstructionVariantsKey) :=
  if func3 = 0b001 ∧ func7 = 0 then some []
  else if func3 = 0b101 ∧ func7 = 0 then some [.shiftRight]
  else if func3 = 0b101 ∧ func7 = 0b0100000 ∧ supportSra then
    some [.shiftRight, .shiftRightAlgebraic]
  else if func3 = 0b001 ∧ func7 = 0b0110000 ∧ supportRot ∧ !isImmediate then some [.shiftCyclic]
  else if func3 = 0b101 ∧ func7 = 0b0110000 ∧ supportRot then some [.shiftRight, .shiftCyclic]
  else none

def ShiftOp.defineDecoderSubspace (supportSra supportRot : Bool) (opcode func3 func7 : ℕ) :
    Option DecoderSubspace :=
  if opcode = operationOpImm then
    (variants supportSra supportRot true func3 func7).map fun minors =>
      (.iType, .shiftCommon, minors)
  else if opcode = operationOp then
    (variants supportSra supportRot false func3 func7).map fun minors =>
      (.rType, .shiftCommon, minors)
  else none

def JumpOp.defineDecoderSubspace (opcode func3 _func7 : ℕ) : Option DecoderSubspace :=
  if opcode = operationJal then some (.jType, .jumpCommon, [.jal])
  else if opcode = operationJalr ∧ func3 = 0b000 then some (.iType, .jumpCommon, [])
  else none

/-- Without accesses to parts of a word the variants are not needed. -/
def LoadOp.variants (supportSigned supportLessThanWord : Bool) (func3 : ℕ) :
    Option (List DecoderInstructionVariantsKey) :=
  if func3 = 0b000 ∧ supportSigned ∧ supportLessThanWord then some [.signExtendOnLoad]
  else if func3 = 0b001 ∧ supportSigned ∧ supportLessThanWord then
    some [.loadHalfWord, .signExtendOnLoad]
  else if func3 = 0b010 then if supportLessThanWord then some [.loadWord] else some []
  else if func3 = 0b100 ∧ supportLessThanWord then some []
  else if func3 = 0b101 ∧ supportLessThanWord then some [.loadHalfWord]
  else none

def LoadOp.defineDecoderSubspace (supportSigned supportLessThanWord : Bool)
    (opcode func3 _func7 : ℕ) : Option DecoderSubspace :=
  if opcode = operationLoad then
    (variants supportSigned supportLessThanWord func3).map fun minors =>
      (.iType, .loadCommon, minors)
  else none

def StoreOp.variants (supportLessThanWord : Bool) (func3 : ℕ) :
    Option (List DecoderInstructionVariantsKey) :=
  if func3 = 0b000 ∧ supportLessThanWord then some []
  else if func3 = 0b001 ∧ supportLessThanWord then some [.storeHalfWord]
  else if func3 = 0b010 then if supportLessThanWord then some [.storeWord] else some []
  else none

def StoreOp.defineDecoderSubspace (supportLessThanWord : Bool) (opcode func3 _func7 : ℕ) :
    Option DecoderSubspace :=
  if opcode = operationStore then
    (variants supportLessThanWord func3).map fun minors => (.sType, .storeCommon, minors)
  else none

def CsrOp.variant (supportCsrImmediates supportCsrrc supportCsrrs : Bool) (func3 : ℕ) :
    Option DecoderInstructionVariantsKey :=
  if func3 = 0b001 then some .csrrw
  else if func3 = 0b101 ∧ supportCsrImmediates then some .csrrw
  else if func3 = 0b011 ∧ supportCsrrc then some .csrrc
  else if func3 = 0b111 ∧ supportCsrrc ∧ supportCsrImmediates then some .csrrc
  else if func3 = 0b010 ∧ supportCsrrs then some .csrrs
  else if func3 = 0b110 ∧ supportCsrrs ∧ supportCsrImmediates then some .csrrs
  else none

def CsrOp.defineDecoderSubspace (supportCsrImmediates supportCsrrc supportCsrrs : Bool)
    (opcode func3 _func7 : ℕ) : Option DecoderSubspace :=
  if opcode = operationSystem then
    (variant supportCsrImmediates supportCsrrc supportCsrrs func3).map fun minor =>
      (.iType, .csrCommon, [minor])
  else none

def MopOp.defineDecoderSubspace (opcode func3 func7 : ℕ) : Option DecoderSubspace :=
  if opcode = operationSystem ∧ func3 = 0b100 then
    if func7 = 0b1000001 then some (.rType, .mop, [.addmod])
    else if func7 = 0b1000011 then some (.rType, .mop, [.submod])
    else if func7 = 0b1000101 then some (.rType, .mop, [.mulmod])
    else none
  else none

inductive DecodableMachineOp where
  | addOp
  | subOp
  | luiOp
  | auiPc
  | binaryOp
  | mulOp (supportSigned : Bool)
  | divRemOp (supportSigned : Bool)
  | conditionalOp (supportSigned : Bool)
  | shiftOp (supportSra supportRot : Bool)
  | jumpOp
  | loadOp (supportSigned supportLessThanWord : Bool)
  | storeOp (supportLessThanWord : Bool)
  | csrOp (supportCsrImmediates supportCsrrc supportCsrrs : Bool)
  | mopOp

def DecodableMachineOp.defineDecoderSubspace :
    DecodableMachineOp → (opcode func3 func7 : ℕ) → Option DecoderSubspace
  | addOp => AddOp.defineDecoderSubspace
  | subOp => SubOp.defineDecoderSubspace
  | luiOp => LuiOp.defineDecoderSubspace
  | auiPc => AuiPc.defineDecoderSubspace
  | binaryOp => BinaryOp.defineDecoderSubspace
  | mulOp supportSigned => MulOp.defineDecoderSubspace supportSigned
  | divRemOp supportSigned => DivRemOp.defineDecoderSubspace supportSigned
  | conditionalOp supportSigned => ConditionalOp.defineDecoderSubspace supportSigned
  | shiftOp supportSra supportRot => ShiftOp.defineDecoderSubspace supportSra supportRot
  | jumpOp => JumpOp.defineDecoderSubspace
  | loadOp supportSigned supportLessThanWord =>
    LoadOp.defineDecoderSubspace supportSigned supportLessThanWord
  | storeOp supportLessThanWord => StoreOp.defineDecoderSubspace supportLessThanWord
  | csrOp supportCsrImmediates supportCsrrc supportCsrrs =>
    CsrOp.defineDecoderSubspace supportCsrImmediates supportCsrrc supportCsrrs
  | mopOp => MopOp.defineDecoderSubspace

/-- `FullIsaMachine`, with and without delegations. -/
def fullIsaOpcodes : List DecodableMachineOp :=
  [.addOp, .subOp, .luiOp, .auiPc, .binaryOp, .mulOp true, .divRemOp true, .conditionalOp true,
    .shiftOp true false, .jumpOp, .loadOp true true, .storeOp true, .csrOp false false false]

def supportedSubspace (allOpcodes : List DecodableMachineOp) (opcode func3 func7 : ℕ) :
    Option DecoderSubspace :=
  allOpcodes.findSome? fun supported => supported.defineDecoderSubspace opcode func3 func7

def familiesByName : List DecoderMajorInstructionFamilyKey :=
  [.add, .auipc, .binopCommon, .conditionalCommon, .csrCommon, .divRemCommon, .jumpCommon, .lui,
    .loadCommon, .mop, .mulCommon, .shiftCommon, .sub, .storeCommon]

def variantsByName : List DecoderInstructionVariantsKey :=
  [.addmod, .csrrc, .csrrs, .csrrw, .div, .divu, .jal, .signExtendOnLoad, .loadHalfWord, .loadWord,
    .mul, .mulh, .mulhsu, .mulmod, .rem, .shiftCyclic, .storeHalfWord, .shiftRightAlgebraic,
    .shiftRight, .submod, .storeWord]

structure DecoderOutputExtraKeysHolder where
  majors : List DecoderMajorInstructionFamilyKey
  minors : DecoderMajorInstructionFamilyKey → List DecoderInstructionVariantsKey

namespace DecoderOutputExtraKeysHolder

variable (keys : DecoderOutputExtraKeysHolder)

def maxMinorKeys : ℕ := (keys.majors.map fun major => (keys.minors major).length).foldl max 0

def getMajorIndex (major : DecoderMajorInstructionFamilyKey) : ℕ := keys.majors.idxOf major

def getMinorIndex (major : DecoderMajorInstructionFamilyKey)
    (minor : DecoderInstructionVariantsKey) : ℕ := (keys.minors major).idxOf minor

end DecoderOutputExtraKeysHolder

@[irreducible] def declaredSubspaces (allOpcodes : List DecodableMachineOp) :
    List DecoderSubspace :=
  (List.range (2 ^ 17)).filterMap fun key =>
    supportedSubspace allOpcodes (key % 2 ^ 7) (key / 2 ^ 7 % 2 ^ 3) (key / 2 ^ 10)

def allDecoderKeys (allOpcodes : List DecodableMachineOp) : DecoderOutputExtraKeysHolder where
  majors := familiesByName.filter fun major =>
    (declaredSubspaces allOpcodes).any fun declared => declared.2.1 = major
  minors major := variantsByName.filter fun minor =>
    (declaredSubspaces allOpcodes).any fun declared => declared.2.1 = major ∧ minor ∈ declared.2.2

def InstructionType.index : InstructionType → ℕ
  | .rType => 0
  | .iType => 1
  | .sType => 2
  | .bType => 3
  | .uType => 4
  | .jType => 5

def numInstructionTypes : ℕ := 6

def basicInvalidBitmask : ℕ := 1 ||| ((1 <<< InstructionType.index .bType) <<< 1)

section

variable (allOpcodes : List DecodableMachineOp)

def majorKeyOffset : ℕ := 1 + numInstructionTypes

def minorKeyOffset : ℕ := majorKeyOffset + (allDecoderKeys allOpcodes).majors.length

def totalUsedBits : ℕ := minorKeyOffset allOpcodes + (allDecoderKeys allOpcodes).maxMinorKeys

def fieldCapacity : ℕ := 30

/-- How the bits of the decoder are distributed over two columns. -/
def decoderTableSplitting : ℕ × ℕ :=
  let first := min (totalUsedBits allOpcodes) fieldCapacity
  (first, totalUsedBits allOpcodes - first)

def decoderBitmask (opcode func3 func7 : ℕ) : ℕ :=
  match supportedSubspace allOpcodes opcode func3 func7 with
  | none => basicInvalidBitmask
  | some (format, major, minors) =>
    let keys := allDecoderKeys allOpcodes
    let mask := (1 <<< format.index) <<< 1
    let mask := mask ||| ((1 <<< keys.getMajorIndex major) <<< majorKeyOffset)
    minors.foldl (fun mask minor =>
      mask ||| ((1 <<< keys.getMinorIndex major minor) <<< minorKeyOffset allOpcodes)) mask

def decoderTable : Row → Bool :=
  oneKeyTable 17 fun key =>
    let bitmask := decoderBitmask allOpcodes (key % 2 ^ 7) (key / 2 ^ 7 % 2 ^ 3) (key / 2 ^ 10)
    let firstWordBits := (decoderTableSplitting allOpcodes).1
    (bitmask &&& (1 <<< firstWordBits - 1), bitmask >>> firstWordBits)

end

def quickDecodeDecompositionCheck4x4x4Table (row : Row) : Bool :=
  decide (row.first.val < 2 ^ 4) && decide (row.second.val < 2 ^ 4) &&
    decide (row.third.val < 2 ^ 4)

def quickDecodeDecompositionCheck7x3x6Table (row : Row) : Bool :=
  decide (row.first.val < 2 ^ 7) && decide (row.second.val < 2 ^ 3) &&
    decide (row.third.val < 2 ^ 6)

structure DecoderTables (allOpcodes : List DecodableMachineOp) (tables : TableDriver) : Prop where
  check4x4x4 : tables .quickDecodeDecompositionCheck4x4x4 = quickDecodeDecompositionCheck4x4x4Table
  check7x3x6 : tables .quickDecodeDecompositionCheck7x3x6 = quickDecodeDecompositionCheck7x3x6Table
  opTypeBitmask : tables .opTypeBitmask = decoderTable allOpcodes

def decoderTableDriver (allOpcodes : List DecodableMachineOp) : TableDriver
  | .opTypeBitmask => decoderTable allOpcodes
  | .quickDecodeDecompositionCheck4x4x4 => quickDecodeDecompositionCheck4x4x4Table
  | .quickDecodeDecompositionCheck7x3x6 => quickDecodeDecompositionCheck7x3x6Table
  | _ => fun _ => false

theorem decoderTables_driver (allOpcodes : List DecodableMachineOp) :
    DecoderTables allOpcodes (decoderTableDriver allOpcodes) := ⟨rfl, rfl, rfl⟩

/-- Linear expressions are represented by their value. -/
structure OptimizedDecoderOutput where
  rs1 : Cs.Num
  rs2 : F
  rd : F
  imm : Register
  funct3 : Cs.Num
  funct7 : F
  funct12 : F

structure DecodedInstruction where
  isInvalid : Boolean
  output : OptimizedDecoderOutput
  formatBits : List Boolean
  otherBits : List Boolean

/-- Fresh Booleans together with the number they are the digits of. -/
def addSplittingBits (count : ℕ) : Assembly (List Boolean × F) :=
  (List.range count).foldlM (fun (allBits, splittingConstraint) index => do
    let fresh ← addBooleanVariable
    pure (allBits ++ [fresh], splittingConstraint + 2 ^ index * fresh.value)) ([], 0)

/-- The bits in front are the validity and the format. -/
def exposeBits : List Boolean → Assembly (Boolean × List Boolean × List Boolean)
  | [] => abort
  | isInvalid :: others => do
      assert (decide (numInstructionTypes ≤ others.length))
      pure (isInvalid, others.take numInstructionTypes, others.drop numInstructionTypes)

def opcodeLookup (tables : TableDriver) (opcode funct3 : Cs.Num) (funct7 : F)
    (splitting : ℕ × ℕ) : Assembly (Boolean × List Boolean × List Boolean) := do
  let tableInput := opcode.value + funct3.value * 2 ^ 7 + funct7 * 2 ^ 10
  let (firstBits, splittingConstraint0) ← addSplittingBits splitting.1
  let (secondBits, splittingConstraint1) ← addSplittingBits splitting.2
  enforceLookupTupleForFixedTable tables ⟨tableInput, splittingConstraint0, splittingConstraint1⟩
    .opTypeBitmask
  exposeBits (firstBits ++ secondBits)

@[ext] structure InstructionChunks (α : Type) where
  opcode : α
  imm11 : α
  imm4To1 : α
  funct3 : α
  rs1Low : α
  rs1High : α
  rs2Low : α
  rs2High : α
  imm10To5 : α
  signBit : α

def formatBit (formatBits : List Boolean) (format : InstructionType) : F :=
  (formatBits.getD format.index (.constant false)).value

/-- The low half of the immediate, from its chunks:

  bits 15-12           bit 11     bits 10-5   bits 4-1   bit 0
  sign                 sign       imm10-5     rs2 high   rs2 low   I
  sign                 sign       imm10-5     imm4-1     imm11     S
  sign                 imm11      imm10-5     imm4-1     0         B
  rs1 low, funct3      0          0           0          0         U
  rs1 low, funct3      rs2 low    imm10-5     rs2 high   0         J
-/
def immLow (formatBits : List Boolean) (chunks : InstructionChunks F) : F :=
  let i := formatBit formatBits .iType
  let s := formatBit formatBits .sType
  let b := formatBit formatBits .bType
  let u := formatBit formatBits .uType
  let j := formatBit formatBits .jType
  let chunk0 := i * chunks.rs2Low + s * chunks.imm11
  let chunk1 := (i + j) * chunks.rs2High + (s + b) * chunks.imm4To1
  let chunk2 := (1 - u) * chunks.imm10To5
  let chunk3 := (i + s) * chunks.signBit + b * chunks.imm11 + j * chunks.rs2Low
  let chunk4 := (i + s + b) * chunks.signBit * 0b1111 +
    (u + j) * (chunks.rs1Low * 2 ^ 3 + chunks.funct3)
  chunk0 + chunk1 * 2 ^ 1 + chunk2 * 2 ^ 5 + chunk3 * 2 ^ 11 + chunk4 * 2 ^ 12

/-- The high half: all of the high limb for U, part of it for J, and signs otherwise. -/
def immHigh (formatBits : List Boolean) (chunks : InstructionChunks F) (highInsn : F) : F :=
  let u := formatBit formatBits .uType
  let j := formatBit formatBits .jType
  j * (chunks.signBit * 0xfff0 + chunks.rs1High) + u * highInsn +
    (1 - j - u) * chunks.signBit * 0xffff

/-- The decomposition that `decode` starts with. Two bits stay linear expressions, which are
constrained to be Boolean. -/
def splitInstruction (tables : TableDriver) (instruction : Register) :
    Assembly (InstructionChunks F) := do
  let opcode ← addVariable
  let imm4To1 ← addVariable
  let funct3 ← addVariable
  let rs1Low ← addBooleanVariable
  let rs1High ← addVariable
  let rs2High ← addVariable
  let imm10To5 ← addVariable
  let signBit ← addBooleanVariable
  enforceLookupTupleForFixedTable tables ⟨imm4To1, rs1High, rs2High⟩
    .quickDecodeDecompositionCheck4x4x4
  enforceLookupTupleForFixedTable tables ⟨opcode, funct3, imm10To5⟩
    .quickDecodeDecompositionCheck7x3x6
  let imm11 := (instruction.low.value - opcode - 2 ^ 8 * imm4To1 - 2 ^ 12 * funct3 -
    rs1Low.value * 2 ^ 15) * (2 ^ 7)⁻¹
  addConstraint (imm11 * (imm11 - 1))
  let rs2Low := (instruction.high.value - rs1High - rs2High * 2 ^ 5 - imm10To5 * 2 ^ 9 -
    signBit.value * 2 ^ 15) * (2 ^ 4)⁻¹
  addConstraint (rs2Low * (rs2Low - 1))
  pure
    { opcode, imm11, imm4To1, funct3, rs1Low := rs1Low.value, rs1High, rs2Low, rs2High, imm10To5,
      signBit := signBit.value }

def decode (tables : TableDriver) (instruction : Register) (splitting : ℕ × ℕ) :
    Assembly DecodedInstruction := do
  let chunks ← splitInstruction tables instruction
  let rs1 ← addVariableFromConstraint (chunks.rs1High * 2 ^ 1 + chunks.rs1Low)
  let rs2 := chunks.rs2High * 2 ^ 1 + chunks.rs2Low
  let rd := chunks.imm4To1 * 2 ^ 1 + chunks.imm11
  let funct7 := chunks.signBit * 2 ^ 6 + chunks.imm10To5
  let (isInvalid, formatBits, otherBits) ←
    opcodeLookup tables (.var chunks.opcode) (.var chunks.funct3) funct7 splitting
  let low ← addVariableFromConstraint (immLow formatBits chunks)
  let high ← addVariableFromConstraint (immHigh formatBits chunks instruction.high.value)
  let funct12 := rs2 + funct7 * 2 ^ 5
  pure
    { isInvalid
      output :=
        { rs1 := .var rs1, rs2, rd, imm := ⟨.var low, .var high⟩, funct3 := .var chunks.funct3,
          funct7, funct12 }
      formatBits
      otherBits }

/-- The flags of the families and their variants behind the bits of the decoder. -/
structure BasicFlagsSource where
  keys : DecoderOutputExtraKeysHolder
  values : List Boolean

namespace BasicFlagsSource

variable (source : BasicFlagsSource)

def getMajorFlag? (major : DecoderMajorInstructionFamilyKey) : Option Boolean :=
  if major ∈ source.keys.majors then source.values[source.keys.getMajorIndex major]? else none

def getMinorFlag? (major : DecoderMajorInstructionFamilyKey)
    (minor : DecoderInstructionVariantsKey) : Option Boolean :=
  if major ∈ source.keys.majors ∧ minor ∈ source.keys.minors major then
    source.values[source.keys.majors.length + source.keys.getMinorIndex major minor]?
  else none

end BasicFlagsSource

end Airbender.Machine

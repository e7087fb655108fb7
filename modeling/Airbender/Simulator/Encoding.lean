import Mathlib

/-!
# Fields of an instruction

The simulators' extraction of fields and immediates by masks and shifts, as the source writes it,
and the configurations of the machine.
-/

namespace Airbender.Simulator

abbrev Word := BitVec 32

def getOpcodeBits (src : Word) : BitVec 7 := src.setWidth 7

def getRdBits (src : Word) : BitVec 5 := (src >>> 7).setWidth 5

def funct3Bits (src : Word) : BitVec 3 := (src >>> 12).setWidth 3

def getFormalRs1Bits (src : Word) : BitVec 5 := (src >>> 15).setWidth 5

def getFormalRs2Bits (src : Word) : BitVec 5 := (src >>> 20).setWidth 5

def funct7Bits (src : Word) : BitVec 7 := (src >>> 25).setWidth 7

def maskBits (src : Word) (fromBit numBits : ℕ) : Word :=
  src &&& ((((1 : Word) <<< numBits) - 1) <<< fromBit)

def getBitsAndAlignRight (src : Word) (fromBit numBits : ℕ) : Word :=
  maskBits src fromBit numBits >>> fromBit

def getBitsAndShiftRight (src : Word) (fromBit numBits shift : ℕ) : Word :=
  maskBits src fromBit numBits >>> shift

def getBitsAndShiftLeft (src : Word) (fromBit numBits shift : ℕ) : Word :=
  maskBits src fromBit numBits <<< shift

def signExtend (value : Word) (totalBits : ℕ) : Word :=
  if value &&& ((1 : Word) <<< (totalBits - 1)) ≠ 0 then
    value ||| ~~~(((1 : Word) <<< totalBits) - 1)
  else value

def signExtend8 (src : Word) : Word := signExtend (src &&& 0x000000ff) 8

def signExtend16 (src : Word) : Word := signExtend (src &&& 0x0000ffff) 16

def zeroExtend8 (src : Word) : Word := src &&& 0x000000ff

def zeroExtend16 (src : Word) : Word := src &&& 0x0000ffff

namespace UTypeOpcode

def imm (src : Word) : Word := getBitsAndShiftRight src 12 20 0

end UTypeOpcode

namespace ITypeOpcode

def imm (src : Word) : Word := getBitsAndAlignRight src 20 12

end ITypeOpcode

namespace STypeOpcode

def imm (src : Word) : Word := getBitsAndAlignRight src 7 5 ||| getBitsAndShiftRight src 25 7 20

end STypeOpcode

namespace BTypeOpcode

def imm (src : Word) : Word :=
  getBitsAndShiftRight src 8 4 7 ||| getBitsAndShiftRight src 25 6 20 |||
    getBitsAndShiftLeft src 7 1 4 ||| getBitsAndShiftRight src 31 1 19

end BTypeOpcode

namespace JTypeOpcode

def imm (src : Word) : Word :=
  getBitsAndShiftRight src 21 10 20 ||| getBitsAndShiftRight src 20 1 9 |||
    getBitsAndShiftRight src 12 8 0 ||| getBitsAndShiftRight src 31 1 11

end JTypeOpcode

def opcodeLui : BitVec 7 := 0b0110111

def opcodeAuipc : BitVec 7 := 0b0010111

def opcodeJal : BitVec 7 := 0b1101111

def opcodeJalr : BitVec 7 := 0b1100111

def opcodeBranch : BitVec 7 := 0b1100011

def opcodeLoad : BitVec 7 := 0b0000011

def opcodeStore : BitVec 7 := 0b0100011

def opcodeSystem : BitVec 7 := 0b1110011

def opImmSubmask : BitVec 7 := 0b0010011

def opSubmask : BitVec 7 := 0b0110011

def subFunct7 : BitVec 7 := 0b0100000

def sllFunct7 : BitVec 7 := 0

def srlFunct7 : BitVec 7 := 0

def sraFunct7 : BitVec 7 := 0b0100000

def rotFunct7 : BitVec 7 := 0b0110000

def mExtFunct7 : BitVec 7 := 0b0000001

/-- The encodings between registers that only the simulator of the prover accepts. -/
def looseFunct7 (funct3 : BitVec 3) (funct7 : BitVec 7) : Prop :=
  funct7 ≠ 0 ∧ funct7 ≠ mExtFunct7 ∧ funct3 ≠ 0 ∧ funct3 ≠ 1 ∧ funct3 ≠ 5

instance (funct3 : BitVec 3) (funct7 : BitVec 7) : Decidable (looseFunct7 funct3 funct7) :=
  inferInstanceAs (Decidable (_ ∧ _))

theorem eq_of_bitVec_three (funct3 : BitVec 3) :
    funct3 = 0 ∨ funct3 = 1 ∨ funct3 = 2 ∨ funct3 = 3 ∨ funct3 = 4 ∨ funct3 = 5 ∨ funct3 = 6 ∨
      funct3 = 7 := by
  revert funct3
  decide

def nonDeterminismCsr : Word := 0x7c0

def markerCsr : Word := 0x7ff

def blake2RoundFunctionWithExtendedControlAccessId : Word := nonDeterminismCsr + 7

def u256OpsWithControlAccessId : Word := nonDeterminismCsr + 10

structure MachineConfig where
  supportMul : Bool
  supportDiv : Bool
  supportSignedMul : Bool
  supportSignedDiv : Bool
  supportSignedLoad : Bool
  supportLoadLessThanWord : Bool
  supportSra : Bool
  supportRot : Bool
  supportMops : Bool
  supportStandardCsrs : Bool
  supportOnlyCsrrw : Bool
  allowedDelegationCsrs : List Word
deriving DecidableEq

def imStandardIsaConfig : MachineConfig where
  supportMul := true
  supportDiv := true
  supportSignedMul := true
  supportSignedDiv := true
  supportSignedLoad := true
  supportLoadLessThanWord := true
  supportSra := true
  supportRot := false
  supportMops := false
  supportStandardCsrs := false
  supportOnlyCsrrw := true
  allowedDelegationCsrs :=
    [blake2RoundFunctionWithExtendedControlAccessId, u256OpsWithControlAccessId]

def imWithoutSignedMulDivIsaConfig : MachineConfig :=
  { imStandardIsaConfig with supportSignedMul := false, supportSignedDiv := false }

def iWithoutByteAccessIsaConfigWithDelegation : MachineConfig where
  supportMul := false
  supportDiv := false
  supportSignedMul := false
  supportSignedDiv := false
  supportSignedLoad := false
  supportLoadLessThanWord := false
  supportSra := true
  supportRot := false
  supportMops := true
  supportStandardCsrs := false
  supportOnlyCsrrw := true
  allowedDelegationCsrs := [blake2RoundFunctionWithExtendedControlAccessId]

def iWithoutByteAccessIsaConfig : MachineConfig :=
  { iWithoutByteAccessIsaConfigWithDelegation with allowedDelegationCsrs := [] }

def imIsaConfigWithAllDelegations : MachineConfig :=
  { imStandardIsaConfig with supportMops := true }

def machineConfigs : List MachineConfig :=
  [imStandardIsaConfig, imWithoutSignedMulDivIsaConfig, iWithoutByteAccessIsaConfigWithDelegation,
    iWithoutByteAccessIsaConfig, imIsaConfigWithAllDelegations]

theorem machineConfigs_common {config : MachineConfig} (known : config ∈ machineConfigs) :
    config.supportRot = false ∧ config.supportStandardCsrs = false ∧
      config.supportOnlyCsrrw = true := by
  simp only [machineConfigs, List.mem_cons, List.not_mem_nil, or_false] at known
  rcases known with rfl | rfl | rfl | rfl | rfl <;> exact ⟨rfl, rfl, rfl⟩

end Airbender.Simulator

import Mathlib

/-!
# The M extension

The eight instructions, their `funct3`, and their results as the specification gives them.
-/

namespace RiscV

inductive MulDivInstruction where
  | mul
  | mulh
  | mulhsu
  | mulhu
  | div
  | divu
  | rem
  | remu
deriving DecidableEq

namespace MulDivInstruction

/-- The third function field of the encoding; all of these are `OP` instructions with
`funct7 = 1`. -/
def funct3 : MulDivInstruction → ℕ
  | mul => 0
  | mulh => 1
  | mulhsu => 2
  | mulhu => 3
  | div => 4
  | divu => 5
  | rem => 6
  | remu => 7

def result (instruction : MulDivInstruction) (x y : BitVec 32) : BitVec 32 :=
  match instruction with
  | mul => BitVec.ofInt 32 (x.toInt * y.toInt)
  | mulh => BitVec.ofInt 32 (x.toInt * y.toInt / 2 ^ 32)
  | mulhsu => BitVec.ofInt 32 (x.toInt * y.toNat / 2 ^ 32)
  | mulhu => BitVec.ofNat 32 (x.toNat * y.toNat / 2 ^ 32)
  | div =>
    if y = 0 then BitVec.allOnes 32
    else if x = BitVec.intMin 32 ∧ y = BitVec.allOnes 32 then BitVec.intMin 32
    else BitVec.ofInt 32 (x.toInt.tdiv y.toInt)
  | divu => if y = 0 then BitVec.allOnes 32 else BitVec.ofNat 32 (x.toNat / y.toNat)
  | rem =>
    if y = 0 then x
    else if x = BitVec.intMin 32 ∧ y = BitVec.allOnes 32 then 0
    else BitVec.ofInt 32 (x.toInt.tmod y.toInt)
  | remu => if y = 0 then x else BitVec.ofNat 32 (x.toNat % y.toNat)

end MulDivInstruction

end RiscV

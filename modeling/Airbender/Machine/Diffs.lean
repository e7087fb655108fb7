import Airbender.Cs.MulDivRelation

/-!
# What a family leaves behind

The keys of families and variants, the flags the decoder sets for them, and the value of `rd` and
the next program counter that a family proposes together with its flag.
-/

namespace Airbender.Machine

open CircuitLib Circuit Mersenne31Field Cs

inductive DecoderMajorInstructionFamilyKey where
  | add
  | sub
  | lui
  | auipc
  | binopCommon
  | mulCommon
  | divRemCommon
  | conditionalCommon
  | shiftCommon
  | jumpCommon
  | loadCommon
  | storeCommon
  | csrCommon
  | mop
deriving DecidableEq

/-- Variants inside of a family, which may be combined; `MULHU`, `REMU` and other instructions
that are what remains of a family have no key. -/
inductive DecoderInstructionVariantsKey where
  | mul
  | mulh
  | mulhsu
  | div
  | divu
  | rem
  | shiftRight
  | shiftCyclic
  | shiftRightAlgebraic
  | jal
  | loadWord
  | loadHalfWord
  | signExtendOnLoad
  | storeWord
  | storeHalfWord
  | csrrw
  | csrrc
  | csrrs
  | addmod
  | submod
  | mulmod
deriving DecidableEq

inductive InstructionType where
  | rType
  | iType
  | sType
  | bType
  | uType
  | jType
deriving DecidableEq

/-- What a family declares for an encoding it supports: format, family key and variant keys. -/
abbrev DecoderSubspace :=
  InstructionType × DecoderMajorInstructionFamilyKey × List DecoderInstructionVariantsKey

/-- The decoder flags of one row. Variant flags are indexed by their family because families
share the variables behind them. -/
structure BooleanSet where
  majorFlag : DecoderMajorInstructionFamilyKey → Bool
  minorFlag : DecoderMajorInstructionFamilyKey → DecoderInstructionVariantsKey → Bool

namespace BooleanSet

variable (flags : BooleanSet)

def getMajorFlag (key : DecoderMajorInstructionFamilyKey) : Boolean :=
  .is (bit (flags.majorFlag key))

def getMinorFlag (major : DecoderMajorInstructionFamilyKey)
    (minor : DecoderInstructionVariantsKey) : Boolean :=
  .is (bit (flags.minorFlag major minor))

/-- The flags the decoder produces for an encoding: the family flags are one-hot, and inside the
selected family exactly the declared variants are set. Variant flags of other families are
whatever the shared variables happen to be. -/
structure Selects (major : DecoderMajorInstructionFamilyKey)
    (minors : List DecoderInstructionVariantsKey) : Prop where
  major_iff : ∀ key, flags.majorFlag key = decide (key = major)
  minor_iff : ∀ minor, flags.minorFlag major minor = decide (minor ∈ minors)

end BooleanSet

inductive NextPcValue where
  | default
  | custom (target : Register)

structure CommonDiffs where
  execFlag : Boolean
  /-- Candidate destination values, as two linear expressions each, with their flags. -/
  rdValue : List ((F × F) × Boolean)
  newPcValue : NextPcValue

namespace CommonDiffs

/-- The value written to `rd` is the flag-weighted sum of all candidates. -/
def selectFinalRdValue (sources : List CommonDiffs) : Assembly Register := do
  let candidates := sources.flatMap (·.rdValue)
  let flags := candidates.map (·.2)
  let low ← chooseFromOrthogonalVariantsForLinearTerms flags (candidates.map (·.1.1))
  let high ← chooseFromOrthogonalVariantsForLinearTerms flags (candidates.map (·.1.2))
  pure ⟨low, high⟩

end CommonDiffs

def wordDiffs (execute : Bool) (rd : BitVec 32) : CommonDiffs where
  execFlag := .is (bit execute)
  rdValue := [(((lowLimb rd : F), (highLimb rd : F)), .is (bit execute))]
  newPcValue := .default

theorem yields_selectFinalRdValue_alone (diffs : CommonDiffs) {low high : F}
    (writes : diffs.rdValue = [((low, high), .is (bit true))]) (result : Register) :
    (CommonDiffs.selectFinalRdValue [diffs]).Yields result ↔ ⟨.var low, .var high⟩ = result := by
  simp [CommonDiffs.selectFinalRdValue, writes]

end Airbender.Machine

import Airbender.Simulator.Encoding

/-!
# Memory and non-determinism of the simulators

The traits behind which the simulators see memory and the oracle. A call that panics has no result;
one that reports a trap has a result and a reason, which the variants without exceptions discard
unless they are overridden.
-/

namespace Airbender.Simulator

inductive AccessType where
  | instruction
  | memLoad
  | memStore
  | regReadFirst
  | regReadSecond
  | regWrite
  | none
deriving DecidableEq

inductive TrapReason where
  | instructionAddressMisaligned
  | instructionAccessFault
  | illegalInstruction
  | loadAddressMisaligned
  | loadAccessFault
  | storeOrAMOAddressMisaligned
  | storeOrAMOAccessFault
  | instructionPageFault
  | loadPageFault
  | storeOrAMOPageFault
deriving DecidableEq

class MemorySource (M : Type) where
  get : M → (physAddress : ℕ) → AccessType → Option (Word × Option TrapReason)
  set : M → (physAddress : ℕ) → (value : Word) → AccessType → Option (M × Option TrapReason)
  setNoexcept : M → (physAddress : ℕ) → (value : Word) → Option M :=
    fun memory physAddress value => (set memory physAddress value .memStore).map Prod.fst
  getNoexcept : M → (physAddress : ℕ) → Option Word :=
    fun memory physAddress => (get memory physAddress .memLoad).map Prod.fst
  getOpcodeNoexcept : M → (physAddress : ℕ) → Option Word :=
    fun memory physAddress => (get memory physAddress .instruction).map Prod.fst

class NonDeterminismCSRSource (M S : Type) where
  shouldMockReadsBeforeWrites : Bool := true
  shouldIgnoreWritesAfterReads : Bool := true
  read : S → Option (Word × S)
  writeWithMemoryAccess : S → M → Word → Option S

/-- An oracle that is always at zero. -/
structure ZeroedSource where
deriving DecidableEq

instance (M : Type) : NonDeterminismCSRSource M ZeroedSource where
  read source := some (0, source)
  writeWithMemoryAccess source _ _ := some source

/-- A `Vec<u32>`; positions from `length` on are out of bounds. -/
structure WordVec where
  length : ℕ
  word : ℕ → Word

namespace WordVec

def zeroed (length : ℕ) : WordVec := ⟨length, fun _ => 0⟩

def set (vec : WordVec) (index : ℕ) (value : Word) : WordVec :=
  { vec with word := Function.update vec.word index value }

@[simp] theorem length_set (vec : WordVec) (index : ℕ) (value : Word) :
    (vec.set index value).length = vec.length := rfl

theorem word_set (vec : WordVec) (index : ℕ) (value : Word) (other : ℕ) :
    (vec.set index value).word other = if other = index then value else vec.word other := by
  simp [set, Function.update_apply]

end WordVec

/-- The fault of an access outside of memory; only instructions, loads and stores have one. -/
def accessFault : AccessType → Option TrapReason
  | .instruction => some .instructionAccessFault
  | .memLoad => some .loadAccessFault
  | .memStore => some .storeOrAMOAccessFault
  | _ => none

structure VectorMemoryImpl where
  inner : WordVec

namespace VectorMemoryImpl

def get (memory : VectorMemoryImpl) (physAddress : ℕ) (accessType : AccessType) :
    Option (Word × Option TrapReason) :=
  if physAddress / 4 < memory.inner.length then
    some (memory.inner.word (physAddress / 4), none)
  else (accessFault accessType).map fun trap => (0, some trap)

def set (memory : VectorMemoryImpl) (physAddress : ℕ) (value : Word) (accessType : AccessType) :
    Option (VectorMemoryImpl × Option TrapReason) :=
  if physAddress / 4 < memory.inner.length then
    some (⟨memory.inner.set (physAddress / 4) value⟩, none)
  else (accessFault accessType).map fun trap => (memory, some trap)

instance : MemorySource VectorMemoryImpl where
  get := get
  set := set

end VectorMemoryImpl

structure VectorMemoryImplWithRom where
  ram : WordVec
  romBound : ℕ

namespace VectorMemoryImplWithRom

variable (memory : VectorMemoryImplWithRom)

def get (physAddress : ℕ) (accessType : AccessType) :
    Option (Word × Option TrapReason) :=
  if physAddress < memory.romBound then
    if (accessType = .instruction ∨ accessType = .memLoad) ∧
        physAddress / 4 < memory.ram.length then
      some (memory.ram.word (physAddress / 4), none)
    else none
  else if physAddress / 4 < memory.ram.length then
    some (memory.ram.word (physAddress / 4), none)
  else (accessFault accessType).map fun trap => (0, some trap)

def set (physAddress : ℕ) (value : Word)
    (accessType : AccessType) : Option (VectorMemoryImplWithRom × Option TrapReason) :=
  if physAddress < memory.romBound then none
  else if physAddress / 4 < memory.ram.length then
    some ({ memory with ram := memory.ram.set (physAddress / 4) value }, none)
  else (accessFault accessType).map fun trap => (memory, some trap)

def setNoexcept (physAddress : ℕ) (value : Word) :
    Option VectorMemoryImplWithRom :=
  if physAddress < memory.romBound then none
  else if physAddress / 4 < memory.ram.length then
    some { memory with ram := memory.ram.set (physAddress / 4) value }
  else none

def getNoexcept (physAddress : ℕ) : Option Word :=
  if physAddress / 4 < memory.ram.length then some (memory.ram.word (physAddress / 4)) else none

/-- The source reads without a check; outside of memory that is undefined. -/
def getOpcodeNoexcept (physAddress : ℕ) : Option Word :=
  if physAddress / 4 < memory.ram.length then some (memory.ram.word (physAddress / 4)) else none

instance : MemorySource VectorMemoryImplWithRom where
  get := get
  set := set
  setNoexcept := setNoexcept
  getNoexcept := getNoexcept
  getOpcodeNoexcept := getOpcodeNoexcept

end VectorMemoryImplWithRom

/-- What both simulators have in common: the observable state, memory and the oracle. -/
structure Machine (M S : Type) where
  registers : BitVec 5 → Word
  pc : Word
  memory : M
  source : S

namespace Machine

variable {M S : Type}

/-- Register zero is overwritten with zero. -/
def setRegister (machine : Machine M S) (register : BitVec 5) (value : Word) : Machine M S :=
  { machine with
    registers := Function.update machine.registers register (if register = 0 then 0 else value) }

end Machine

def oneInstruction (instr : Word) (registers : BitVec 5 → Word) :
    Machine VectorMemoryImplWithRom ZeroedSource where
  registers := registers
  pc := 0
  memory := ⟨⟨2 ^ 20, fun index => if index = 0 then instr else 0⟩, 2 ^ 21⟩
  source := ⟨⟩

end Airbender.Simulator

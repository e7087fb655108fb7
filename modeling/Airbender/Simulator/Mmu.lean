import Airbender.Simulator.ReferenceCycle

/-!
# Virtual memory

`SimpleMMU` translates addresses by a walk over page tables in physical memory. The walk is
compared with the one that Sv32 prescribes.
-/

namespace Airbender.Simulator.Reference

open Unrolled (accessIsSupported)

inductive EntryBit where
  | valid
  | read
  | write
  | execute
  | userMode
  | global
  | accessed
  | dirty
deriving DecidableEq

def EntryBit.index : EntryBit → ℕ
  | valid => 0
  | read => 1
  | write => 2
  | execute => 3
  | userMode => 4
  | global => 5
  | accessed => 6
  | dirty => 7

structure PageTableEntry where
  value : Word
deriving DecidableEq

namespace PageTableEntry

def testBit (entry : PageTableEntry) (bit : EntryBit) : Bool := entry.value.getLsbD bit.index

def isValid (entry : PageTableEntry) : Bool :=
  entry.testBit .valid && !(entry.testBit .write && !entry.testBit .read)

def isValidForAccessTypeInPrivilege (entry : PageTableEntry) (accessType : AccessType)
    (privilege : Mode) : Bool :=
  !(privilege = .user && !entry.testBit .userMode ||
    accessType = .memLoad && !entry.testBit .read ||
    accessType = .memStore && !entry.testBit .write ||
    accessType = .instruction && !entry.testBit .execute)

def isValidForAdFlags (entry : PageTableEntry) (accessType : AccessType) : Bool :=
  !(!entry.testBit .accessed || accessType = .memStore && !entry.testBit .dirty)

end PageTableEntry

/-- Other accesses do not go through page tables. -/
def pageFault {α : Type} : AccessType → Except Halt α
  | .instruction => .error (.trap .instructionPageFault)
  | .memLoad => .error (.trap .loadPageFault)
  | .memStore => .error (.trap .storeOrAMOPageFault)
  | _ => .error .panic

structure SimpleMMU where
  sapt : Word
deriving DecidableEq

variable {M : Type} [MemorySource M]

namespace SimpleMMU

def readEntry (config : MachineConfig) (memory : M) (pteAddr : Word) (accessType : AccessType) :
    Except Halt PageTableEntry := do
  let value ← memRead config memory pteAddr.toNat 4 accessType
  pure ⟨value⟩

def walk (config : MachineConfig) (memory : M) (virtAddress : Word) (accessType : AccessType) :
    ℕ → Word → Except Halt (ℕ × PageTableEntry)
  | 0, _ => pageFault accessType
  | level + 1, a => do
    let vpn := getBitsAndAlignRight virtAddress (12 + 10 * level) 10
    let pte ← readEntry config memory (a + vpn) accessType
    if !pte.isValid then pageFault accessType
    else if !pte.testBit .read && !pte.testBit .execute then
      walk config memory virtAddress accessType level (getBitsAndAlignRight pte.value 10 22 <<< 12)
    else pure (level, pte)

def mapVirtualToPhysical (config : MachineConfig) (mmu : SimpleMMU) (virtAddress : Word)
    (mode : Mode) (accessType : AccessType) (memory : M) : Except Halt ℕ :=
  if mode.asRegisterValue < Mode.machine.asRegisterValue ∧
      getBitsAndAlignRight mmu.sapt 31 1 ≠ 0 then do
    let (level, pte) ← walk config memory virtAddress accessType 2
      (getBitsAndAlignRight mmu.sapt 0 22 <<< 12)
    let pteValue := pte.value <<< 2
    let ppn0 := getBitsAndAlignRight pteValue 10 10
    let ppn1 := (getBitsAndAlignRight pteValue 20 12).toNat
    if !pte.isValidForAccessTypeInPrivilege accessType mode then pageFault accessType
    else if 0 < level ∧ ppn0 ≠ 0 then pageFault accessType
    else if !pte.isValidForAdFlags accessType then pageFault accessType
    else if level = 0 then
      pure (ppn1 <<< 22 ||| ppn0.toNat <<< 12 ||| (getBitsAndAlignRight virtAddress 0 12).toNat)
    else pure (ppn1 <<< 22 ||| (getBitsAndAlignRight virtAddress 0 22).toNat)
  else pure virtAddress.toNat

end SimpleMMU

namespace Sv32

def bits (word : Word) (low width : ℕ) : ℕ := word.toNat / 2 ^ low % 2 ^ width

/-- The walk reads the entry `vpn` of a table of words, and its addresses have 34 bits. -/
def walk (memory : M) (virtAddress : Word) (accessType : AccessType) :
    ℕ → ℕ → Except Halt (ℕ × Word)
  | 0, _ => pageFault accessType
  | level + 1, a => do
    let pte ← ofAccess
      (MemorySource.get memory (a + 4 * bits virtAddress (12 + 10 * level) 10) accessType)
    if bits pte 0 1 = 0 ∨ bits pte 1 1 = 0 ∧ bits pte 2 1 = 1 then pageFault accessType
    else if bits pte 1 1 = 1 ∨ bits pte 3 1 = 1 then pure (level, pte)
    else walk memory virtAddress accessType level (bits pte 10 22 * 2 ^ 12)

/-- User mode may use the pages marked for it, and supervisor mode the others. -/
def Permits (pte : Word) (mode : Mode) : AccessType → Prop
  | .instruction => bits pte 4 1 = (if mode = .user then 1 else 0) ∧ bits pte 3 1 = 1
  | .memLoad => bits pte 4 1 = (if mode = .user then 1 else 0) ∧ bits pte 1 1 = 1
  | .memStore => bits pte 4 1 = (if mode = .user then 1 else 0) ∧ bits pte 2 1 = 1
  | _ => False

instance (pte : Word) (mode : Mode) (accessType : AccessType) :
    Decidable (Permits pte mode accessType) := by
  cases accessType <;> unfold Permits <;> infer_instance

def translate (memory : M) (satp virtAddress : Word) (mode : Mode) (accessType : AccessType) :
    Except Halt ℕ :=
  if mode = .machine ∨ bits satp 31 1 = 0 then pure virtAddress.toNat
  else do
    let (level, pte) ← walk memory virtAddress accessType 2 (bits satp 0 22 * 2 ^ 12)
    if ¬Permits pte mode accessType then pageFault accessType
    -- a superpage that is not aligned
    else if 0 < level ∧ bits pte 10 10 ≠ 0 then pageFault accessType
    else if bits pte 6 1 = 0 ∨ accessType = .memStore ∧ bits pte 7 1 = 0 then pageFault accessType
    else if level = 0 then pure (bits pte 10 22 * 2 ^ 12 + bits virtAddress 0 12)
    else pure (bits pte 20 12 * 2 ^ 22 + bits virtAddress 0 22)

end Sv32

theorem translates_iff (mmu : SimpleMMU) (mode : Mode) :
    mode.asRegisterValue < Mode.machine.asRegisterValue ∧ getBitsAndAlignRight mmu.sapt 31 1 ≠ 0 ↔
      ¬(mode = .machine ∨ Sv32.bits mmu.sapt 31 1 = 0) := by
  have shifted : (getBitsAndAlignRight mmu.sapt 31 1).toNat = Sv32.bits mmu.sapt 31 1 := by
    have shifted : getBitsAndAlignRight mmu.sapt 31 1 = mmu.sapt >>> 31 := by
      apply BitVec.eq_of_getLsbD_eq
      intro index inside
      interval_cases index <;> simp [getBitsAndAlignRight, maskBits]
    have bound := mmu.sapt.isLt
    rw [shifted, BitVec.toNat_ushiftRight, Nat.shiftRight_eq_div_pow, Sv32.bits]
    omega
  rw [ne_eq, ← BitVec.toNat_inj, shifted, not_or]
  cases mode <;> simp [Mode.asRegisterValue]

theorem walk_misaligned (config : MachineConfig) (memory : M) (table : Word) :
    SimpleMMU.walk config memory 0x400000 .memLoad 2 (table <<< 12) =
      .error (.trap .loadAddressMisaligned) := by
  have vpn : getBitsAndAlignRight 0x400000 (12 + 10 * 1) 10 = 1 := by decide
  have unaligned : (table <<< 12 + 1).toNat % 4 = 1 := by
    simp
    omega
  have refused : accessIsSupported config 1 4 = false := by
    unfold accessIsSupported
    split_ifs <;> decide
  rw [SimpleMMU.walk, vpn, SimpleMMU.readEntry, memRead_eq _ _ _ _ (.inr rfl), unaligned, refused]
  rfl

/-- Addresses are mapped as by Sv32 only where they are not translated. -/
theorem mapsAsSv32_iff (config : MachineConfig) (mmu : SimpleMMU) (mode : Mode) :
    (∀ (M : Type) [MemorySource M] (memory : M) (virtAddress : Word) (accessType : AccessType),
      mmu.mapVirtualToPhysical config virtAddress mode accessType memory =
        Sv32.translate memory mmu.sapt virtAddress mode accessType) ↔
      mode = .machine ∨ Sv32.bits mmu.sapt 31 1 = 0 := by
  constructor
  · intro same
    by_contra translates
    have walked := same VectorMemoryImpl ⟨.zeroed 0⟩ 0x400000 .memLoad
    have outside : ∀ table, Sv32.walk (⟨.zeroed 0⟩ : VectorMemoryImpl) 0x400000 .memLoad 2 table =
        .error (.trap .loadAccessFault) := fun _ => rfl
    rw [SimpleMMU.mapVirtualToPhysical, if_pos ((translates_iff mmu mode).mpr translates),
      walk_misaligned, Sv32.translate, if_neg translates, outside] at walked
    exact absurd (Except.error.inj walked) (by decide)
  · intro bare M _ memory virtAddress accessType
    have bare' := fun translates => (translates_iff mmu mode).mp translates bare
    rw [SimpleMMU.mapVirtualToPhysical, if_neg bare', Sv32.translate, if_pos bare]

/-- Sv32 finds a superpage in the second entry of the root table. -/
theorem superpage_not_found :
    let memory : VectorMemoryImpl := ⟨(WordVec.zeroed 1024).set 1 0xdf⟩
    Sv32.translate memory 0x80000000 0x400abc .user .memLoad = .ok 0xabc ∧
      SimpleMMU.mapVirtualToPhysical imStandardIsaConfig ⟨0x80000000⟩ 0x400abc .user .memLoad
        memory = .error (.trap .loadAddressMisaligned) := by
  decide

end Airbender.Simulator.Reference

import Airbender.Lib.OfflineMemory
import Airbender.Memory.Access
import Airbender.Memory.LazyInit
import Airbender.Verifier.FullStatement

/-!
# Memory consistency

The records that accesses consume and produce balance with the initial and final ones. With the
timestamp comparisons, the accesses to every location are one chain of reads and writes.
-/

namespace Airbender.Memory

open Blake2s Verifier OfflineMemory List Multiset

def initialRecord (location : Location) : MemoryRecord := ⟨location.1, location.2, (0, 0), (0, 0)⟩

def registerLocation (index : ℕ) : Location := (1, (index : Mersenne31Field), 0)

def registerFinalRecord (index : ℕ) (value timestampLow timestampHigh : Word) : MemoryRecord :=
  { isRegister := 1
    address := ((index : Mersenne31Field), 0)
    timestamp := ((timestampLow.toNat : Mersenne31Field), (timestampHigh.toNat : Mersenne31Field))
    value := (((splitU32IntoPairU16 value).1.toNat : Mersenne31Field),
      ((splitU32IntoPairU16 value).2.toNat : Mersenne31Field)) }

namespace LazyInitRow

def location (row : LazyInitRow) : Location := (0, row.initAddress)

def teardownRecord (row : LazyInitRow) : MemoryRecord :=
  { isRegister := 0
    address := row.initAddress
    timestamp := row.teardownTimestamp
    value := row.teardownValue }

theorem teardownRecord_of_isPadding {row : LazyInitRow} (padded : row.IsPadding) :
    row.teardownRecord = initialRecord row.location := by
  have zero := padded
  simp only [IsPadding, recordColumns, List.mem_cons, not_mem_nil, or_false,
    forall_eq_or_imp, forall_eq] at zero
  obtain ⟨-, -, valueLow, valueHigh, timestampLow, timestampHigh⟩ := zero
  simp only [teardownRecord, initialRecord, location, MemoryRecord.mk.injEq, true_and]
  exact ⟨Prod.ext timestampLow timestampHigh, Prod.ext valueLow valueHigh⟩

end LazyInitRow

abbrev RegisterFinalData := Fin 32 → Word × Word × Word

def initialRecords (lazyInits : List LazyInitRow) : List MemoryRecord :=
  (List.finRange 32).map (fun index : Fin 32 => initialRecord (registerLocation index)) ++
    lazyInits.map fun row => initialRecord row.location

def finalRecords (registers : RegisterFinalData) (lazyInits : List LazyInitRow) :
    List MemoryRecord :=
  (List.finRange 32).map (fun index : Fin 32 => registerFinalRecord index (registers index).1
    (registers index).2.1 (registers index).2.2) ++ lazyInits.map LazyInitRow.teardownRecord

section

variable {accesses : List Access} {lazyInits : List LazyInitRow} {registers : RegisterFinalData}

def Balanced (accesses : List Access) (lazyInits : List LazyInitRow)
    (registers : RegisterFinalData) : Prop :=
  (initialRecords lazyInits : Multiset MemoryRecord) + accesses.map Access.written =
    (finalRecords registers lazyInits : Multiset MemoryRecord) + accesses.map Access.read

instance : Decidable (Balanced accesses lazyInits registers) :=
  inferInstanceAs (Decidable ((_ : Multiset MemoryRecord) = _))

theorem map_split {α β : Type} (items : List α) (keep : α → Prop) [DecidablePred keep]
    (image : α → β) : ((items.map image : List β) : Multiset β) =
      (items.filter (fun item => keep item)).map image +
        (items.filter (fun item => ¬ keep item)).map image := by
  rw [← map_coe, ← map_coe, ← map_coe, ← Multiset.map_add,
    ← filter_coe, ← filter_coe, filter_add_not]

theorem cancel_padding {fixed fixed' items items' uses uses' padding idle : Multiset MemoryRecord}
    (balanced : fixed + (items + padding) + (uses + idle) =
      fixed' + (items' + padding) + (uses' + idle)) :
    fixed + items + uses = fixed' + items' + uses' := by
  have regroup : ∀ first second third : Multiset MemoryRecord,
      first + (second + padding) + (third + idle) =
        (first + second + third) + (padding + idle) := fun _ _ _ => by abel
  rw [regroup, regroup] at balanced
  exact add_right_cancel balanced

theorem Balanced.real (constraints : ∀ access ∈ accesses, access.Constraints)
    (balanced : Balanced accesses lazyInits registers) :
    Balanced (accesses.filter fun access => access.Performed)
      (lazyInits.filter fun row => ¬ row.IsPadding) registers := by
  have paddedAccesses : (accesses.filter fun access => ¬ access.Performed).map Access.written =
      (accesses.filter fun access => ¬ access.Performed).map Access.read := by
    refine map_congr_left fun access member => ?_
    simp only [List.mem_filter, decide_eq_true_eq] at member
    exact (Access.read_eq_written (constraints access member.1) member.2).symm
  have paddedInits : (lazyInits.filter fun row => ¬ ¬ row.IsPadding).map
        (fun row => initialRecord row.location) =
      (lazyInits.filter fun row => ¬ ¬ row.IsPadding).map LazyInitRow.teardownRecord := by
    refine map_congr_left fun row member => ?_
    simp only [List.mem_filter, decide_eq_true_eq, not_not] at member
    exact (LazyInitRow.teardownRecord_of_isPadding member.2).symm
  unfold Balanced initialRecords finalRecords at balanced ⊢
  simp only [← coe_add] at balanced ⊢
  rw [map_split accesses Access.Performed, map_split accesses Access.Performed,
    map_split lazyInits (fun row => ¬ row.IsPadding),
    map_split lazyInits (fun row => ¬ row.IsPadding), paddedAccesses, paddedInits] at balanced
  exact cancel_padding balanced

theorem initialRecords_location (lazyInits : List LazyInitRow) :
    (initialRecords lazyInits).map MemoryRecord.location =
      (List.finRange 32).map (fun index : Fin 32 => registerLocation index) ++
        lazyInits.map LazyInitRow.location := by
  simp only [initialRecords, map_append, List.map_map]
  rfl

theorem finalRecords_location (registers : RegisterFinalData) (lazyInits : List LazyInitRow) :
    (finalRecords registers lazyInits).map MemoryRecord.location =
      (initialRecords lazyInits).map MemoryRecord.location := by
  rw [initialRecords_location]
  simp only [finalRecords, map_append, List.map_map]
  rfl

theorem initialRecords_nodup (once : (lazyInits.map LazyInitRow.initAddress).Nodup) :
    ((initialRecords lazyInits).map MemoryRecord.location).Nodup := by
  rw [initialRecords_location]
  refine List.Nodup.append (by decide) ?_ ?_
  · have pairs := once.map (f := fun address => ((0 : Mersenne31Field), address))
      fun _ _ same => congrArg Prod.snd same
    rwa [List.map_map] at pairs
  · intro location inRegisters inRam
    obtain ⟨index, -, rfl⟩ := List.mem_map.mp inRegisters
    obtain ⟨row, -, same⟩ := List.mem_map.mp inRam
    exact absurd (congrArg Prod.fst same) (by decide : (0 : Mersenne31Field) ≠ 1)

theorem initialRecords_eq {record : MemoryRecord} (member : record ∈ initialRecords lazyInits) :
    record = initialRecord record.location := by
  rcases mem_append.mp member with inRegisters | inRam
  · obtain ⟨index, -, rfl⟩ := List.mem_map.mp inRegisters
    rfl
  · obtain ⟨row, -, rfl⟩ := List.mem_map.mp inRam
    rfl

theorem read_comparable (performed : ∀ access ∈ accesses, access.Performed)
    (requested : ∀ access ∈ accesses, access.Requested)
    (balanced : Balanced accesses lazyInits registers) :
    ∀ access ∈ accesses, Comparable access.read.timestamp := by
  intro access member
  have consumed : access.read ∈
      (initialRecords lazyInits : Multiset MemoryRecord) + accesses.map Access.written := by
    rw [balanced, mem_add]
    exact Or.inr (mem_coe.mpr (List.mem_map_of_mem member))
  rcases mem_add.mp consumed with initial | produced
  · rw [initialRecords_eq (mem_coe.mp initial)]
    exact comparable_zero
  · obtain ⟨source, sourceMember, same⟩ := List.mem_map.mp (mem_coe.mp produced)
    rw [← same]
    exact Access.written_comparable (performed source sourceMember) (requested source sourceMember)

theorem exists_access_chain (forward : ∀ access ∈ accesses, access.read.time < access.written.time)
    (once : (lazyInits.map LazyInitRow.initAddress).Nodup)
    (balanced : Balanced accesses lazyInits registers) (location : Location) :
    ∃ chain : List Access,
      (chain : Multiset Access) = accesses.filter (fun access => access.location = location) ∧
      (chain = [] ∨ ∃ final ∈ finalRecords registers lazyInits, final.location = location ∧
        initialRecord location ∈ initialRecords lazyInits ∧
        Linked Access.read Access.written (initialRecord location) chain final) := by
  obtain ⟨chain, isAccesses, ends⟩ := @exists_chain Access MemoryRecord ℕ Location _ Access.read
    Access.written MemoryRecord.time MemoryRecord.location _ _ (initialRecords lazyInits)
    (finalRecords registers lazyInits) accesses forward Access.location_written
    (initialRecords_nodup once) (congrArg Multiset.ofList (finalRecords_location registers _))
    balanced location
  refine ⟨chain, isAccesses, ends.imp_right ?_⟩
  rintro ⟨initial, initialMember, final, finalMember, rfl, sameLocation, linked⟩
  have zero := initialRecords_eq (mem_coe.mp initialMember)
  refine ⟨final, finalMember, sameLocation, ?_⟩
  rw [← zero]
  exact ⟨initialMember, linked⟩

theorem memory_consistent (constraints : ∀ access ∈ accesses, access.Constraints)
    (requested : ∀ access ∈ accesses, access.Requested)
    (once : ((lazyInits.filter fun row => ¬ row.IsPadding).map LazyInitRow.initAddress).Nodup)
    (balanced : Balanced accesses lazyInits registers) (location : Location) :
    ∃ chain : List Access,
      (chain : Multiset Access) =
        accesses.filter (fun access => access.Performed ∧ access.location = location) ∧
      (chain = [] ∨ ∃ final ∈ finalRecords registers lazyInits, final.location = location ∧
        initialRecord location ∈ initialRecords lazyInits ∧
        Linked Access.read Access.written (initialRecord location) chain final) ∧
      chain.Pairwise (fun earlier later => earlier.written.time < later.written.time) ∧
      ∀ access ∈ chain,
        ReadsLatest Access.read Access.written MemoryRecord.time (initialRecord location) chain
          access := by
  have real := balanced.real constraints
  have performed : ∀ access ∈ accesses.filter (fun access => access.Performed),
      access.Performed := fun access member => of_decide_eq_true (List.mem_filter.mp member).2
  have realRequested : ∀ access ∈ accesses.filter (fun access => access.Performed),
      access.Requested := fun access member => requested access (List.mem_filter.mp member).1
  have forward : ∀ access ∈ accesses.filter (fun access => access.Performed),
      access.read.time < access.written.time := fun access member =>
    Access.forward (constraints access (List.mem_filter.mp member).1) (performed access member)
      (read_comparable performed realRequested real access member)
      (Access.written_comparable (performed access member) (realRequested access member))
  obtain ⟨chain, isAccesses, ends⟩ := exists_access_chain forward once real location
  have chainForward : ∀ access ∈ chain, access.read.time < access.written.time := by
    intro access member
    have inAccesses := mem_coe.mpr member
    rw [isAccesses] at inAccesses
    exact forward access (List.mem_of_mem_filter (mem_coe.mp inAccesses))
  refine ⟨chain, ?_, ?_⟩
  · rw [isAccesses, List.filter_filter]
    simp only [Bool.decide_and, Bool.and_comm]
  rcases ends with rfl | ⟨final, finalMember, sameLocation, initialMember, linked⟩
  · exact ⟨Or.inl rfl, List.Pairwise.nil, by simp⟩
  · refine ⟨Or.inr ⟨final, ?_, sameLocation, ?_, linked⟩, linked.increasing chainForward,
      linked.readsLatest chainForward⟩
    · exact ((List.Sublist.refl _).append (filter_sublist.map _)).subset finalMember
    · exact ((List.Sublist.refl _).append (filter_sublist.map _)).subset initialMember

/-- High limbs that increase by at most `2^19` at a time and are back at zero after `2^12` steps. -/
def ringTimestamp (index : ℕ) : Mersenne31Field × Mersenne31Field :=
  (0, if index = 0 then 0 else 2 ^ 19 * (index : Mersenne31Field) - 1)

/-- An access to a word that is never initialised, in a row of a delegation circuit that no cycle
requests. -/
def ringAccess (index : ℕ) : Access :=
  .delegation ⟨1, ringTimestamp (index + 1)⟩
    ⟨.indirect (8, 0) 0 none, ringTimestamp index, (7, 0), none, 0⟩

def delegationRing : List Access := (List.range (2 ^ 12)).map ringAccess

theorem ringAccess_constraints (index : ℕ) : (ringAccess index).Constraints where
  borrowBoolean := by simp [ringAccess, Access.borrow]
  lowRange := by
    have zero : (ringAccess index).timestampLowExpression = 0 := by
      simp [ringAccess, Access.timestampLowExpression, ringTimestamp]
    rw [zero]
    decide
  highRange := by
    have flag : (ringAccess index).timestampHighExpression = if index = 0 then 1 else 0 := by
      simp only [ringAccess, Access.timestampHighExpression, ringTimestamp, Nat.add_eq_zero_iff,
        one_ne_zero, and_false, if_false]
      split_ifs with first
      · rw [first]
        norm_num
      · push_cast
        ring
    rw [flag]
    split_ifs <;> decide
  conventions := by simp [ringAccess, Access.Conventions]

theorem map_range_rotate {α : Type} {image : ℕ → α} {length : ℕ} (closed : image length = image 0) :
    (((List.range length).map fun index => image (index + 1) : List α) : Multiset α) =
      (List.range length).map image := by
  have whole : (List.range length).map image ++ [image length] =
      image 0 :: (List.range length).map fun index => image (index + 1) := by
    rw [← List.map_singleton, ← List.map_append, ← List.range_succ, List.range_succ_eq_map,
      List.map_cons, List.map_map]
    rfl
  rw [closed] at whole
  exact (coe_eq_coe.mpr ((List.perm_append_singleton _ _).symm.trans (.of_eq whole)).cons_inv).symm

def ringRecord (index : ℕ) : MemoryRecord := ⟨0, (8, 0), ringTimestamp index, (7, 0)⟩

theorem ringAccess_read (index : ℕ) : (ringAccess index).read = ringRecord index := by
  simp [ringAccess, Access.read, Access.location, Access.readTimestamp, Access.readValue,
    ringRecord]

theorem ringAccess_written (index : ℕ) : (ringAccess index).written = ringRecord (index + 1) := by
  simp [ringAccess, Access.written, Access.location, Access.writeTimestamp, Access.writeValue,
    ringRecord]

theorem delegationRing_balanced : Balanced delegationRing [] fun _ => (0, 0, 0) := by
  have closed : ringRecord (2 ^ 12) = ringRecord 0 := by decide
  have records : finalRecords (fun _ => (0, 0, 0)) [] = initialRecords [] := by decide +kernel
  unfold Balanced
  simp only [delegationRing, List.map_map, Function.comp_def, ringAccess_read, ringAccess_written,
    records, map_range_rotate closed]

/-- Without the requests, accesses can form a ring: it balances, and there is no write that the
first of them could have read. -/
theorem delegationRing_inconsistent :
    (∀ access ∈ delegationRing, access.Constraints) ∧
      Balanced delegationRing [] (fun _ => (0, 0, 0)) ∧
      ¬∃ chain : List Access,
        (chain : Multiset Access) = delegationRing.filter (fun access =>
          access.Performed ∧ access.location = (0, 8, 0)) ∧
        (chain = [] ∨ ∃ final ∈ finalRecords (fun _ => (0, 0, 0)) [],
          final.location = (0, 8, 0)) := by
  refine ⟨?_, delegationRing_balanced, ?_⟩
  · intro access member
    obtain ⟨index, -, rfl⟩ := List.mem_map.mp member
    exact ringAccess_constraints index
  · rintro ⟨chain, isAccesses, empty | ⟨final, finalMember, atWord⟩⟩
    · have first : ringAccess 0 ∈ (chain : Multiset Access) := by
        rw [isAccesses, mem_coe, List.mem_filter]
        exact ⟨List.mem_map_of_mem (List.mem_range.mpr (by decide)), by decide⟩
      rw [empty] at first
      exact absurd first (Multiset.notMem_zero _)
    · simp only [finalRecords, List.map_nil, List.append_nil] at finalMember
      obtain ⟨index, -, rfl⟩ := List.mem_map.mp finalMember
      exact absurd (congrArg Prod.fst atWord) (by decide : (1 : Mersenne31Field) ≠ 0)

/-- A cycle that reads register 10 and writes a word, which a delegation it requests overwrites;
then a padding row of the delegation circuit. -/
def sampleCycle : Cycle := ⟨22, 0, 0, by decide, by decide, by decide, by decide⟩

def sampleWrite : Access :=
  .shuffleRam sampleCycle ⟨2, .registerOrRam 0 (8, 0), (0, 0), (0, 0), some (7, 0), 1⟩

def sampleOverwrite : Access :=
  .delegation ⟨1, (7, 0)⟩ ⟨.indirect (0, 0) 8 none, (6, 0), (7, 0), some (9, 0), 1⟩

def sampleAccesses : List Access :=
  [.shuffleRam sampleCycle ⟨0, .registerOnly 10, (0, 0), (0, 0), none, 1⟩,
    sampleWrite,
    .delegation ⟨1, (7, 0)⟩ ⟨.register 10, (4, 0), (0, 0), none, 1⟩,
    sampleOverwrite,
    .delegation ⟨0, (0, 0)⟩ ⟨.register 10, (0, 0), (0, 0), none, 0⟩]

def sampleInits : List LazyInitRow :=
  [⟨(0, 0), (0, 0), (0, 0), (0, 0), 0, 0⟩, ⟨(8, 0), (9, 0), (7, 0), (0, 0), 0, 1⟩]

def sampleRegisters : RegisterFinalData := fun index => if index = 10 then (0, 7, 0) else (0, 0, 0)

theorem sampleAccesses_constraints :
    ∀ access ∈ sampleAccesses, access.Constraints ∧ access.Requested := by
  intro access member
  simp only [sampleAccesses, List.mem_cons, not_mem_nil, or_false] at member
  rcases member with rfl | rfl | rfl | rfl | rfl
  · exact ⟨⟨by decide, by decide, by decide, trivial⟩, trivial⟩
  · exact ⟨⟨by decide, by decide, by decide, trivial⟩, trivial⟩
  · exact ⟨⟨by decide, by decide, by decide, by simp [Access.Conventions]⟩,
      fun _ => ⟨sampleCycle, by decide⟩⟩
  · exact ⟨⟨by decide, by decide, by decide, by simp [Access.Conventions, sampleOverwrite]⟩,
      fun _ => ⟨sampleCycle, by decide⟩⟩
  · exact ⟨⟨by decide, by decide, by decide,
      by simp [Access.Conventions, Access.conventionColumns]⟩,
      fun performed => absurd performed (by decide)⟩

theorem sampleInits_once :
    ((sampleInits.filter fun row => ¬ row.IsPadding).map LazyInitRow.initAddress).Nodup := by
  have real : (8 : Mersenne31Field) ≠ 0 := by decide
  simp [sampleInits, LazyInitRow.IsPadding, LazyInitRow.recordColumns, List.filter, real]

theorem memory_consistent_sample :
    ∃ chain : List Access, (chain : Multiset Access) = [sampleWrite, sampleOverwrite] ∧
      (chain = [] ∨ ∃ final ∈ finalRecords sampleRegisters sampleInits,
        final.location = (0, 8, 0) ∧ initialRecord (0, 8, 0) ∈ initialRecords sampleInits ∧
        Linked Access.read Access.written (initialRecord (0, 8, 0)) chain final) ∧
      chain.Pairwise (fun earlier later => earlier.written.time < later.written.time) ∧
      ∀ access ∈ chain,
        ReadsLatest Access.read Access.written MemoryRecord.time (initialRecord (0, 8, 0)) chain
          access := by
  have selected : sampleAccesses.filter (fun access => access.Performed ∧
      access.location = (0, 8, 0)) = [sampleWrite, sampleOverwrite] := by
    decide +kernel
  rw [← selected]
  exact memory_consistent (fun access member => (sampleAccesses_constraints access member).1)
    (fun access member => (sampleAccesses_constraints access member).2) sampleInits_once
    (by decide +kernel) (0, 8, 0)

end

end Airbender.Memory

import Mathlib

/-!
# Offline memory checking

Accesses consume the record they read and produce the record they write. If they move forward in
time and all records balance, the accesses of an address form one chain from its initial to its
final record.
-/

namespace OfflineMemory

set_option autoImplicit false

open Multiset

variable {α ρ τ κ : Type} [LinearOrder τ] {read written : α → ρ} {time : ρ → τ} {address : ρ → κ}

/-- Every access reads the record that the access before it has written. -/
def Linked (read written : α → ρ) : ρ → List α → ρ → Prop
  | start, [], finish => start = finish
  | start, access :: rest, finish =>
    read access = start ∧ Linked read written (written access) rest finish

section

variable [WellFoundedLT τ]

theorem eq_zero_of_closed {accesses : Multiset α}
    (forward : ∀ access ∈ accesses, time (read access) < time (written access))
    (closed : accesses.map written = accesses.map read) : accesses = 0 := by
  by_contra nonzero
  obtain ⟨some, someMember⟩ := exists_mem_of_ne_zero nonzero
  obtain ⟨earliest, ⟨access, member, rfl⟩, least⟩ :=
    WellFounded.has_min wellFounded_lt
      {moment | ∃ access ∈ accesses, time (written access) = moment} ⟨_, some, someMember, rfl⟩
  have consumed : read access ∈ accesses.map written := by
    rw [closed]
    exact mem_map_of_mem read member
  obtain ⟨source, sourceMember, same⟩ := mem_map.mp consumed
  refine least (time (written source)) ⟨source, sourceMember, rfl⟩ ?_
  rw [same]
  exact forward access member

theorem exists_linked {accesses : Multiset α} {initial final : ρ}
    (forward : ∀ access ∈ accesses, time (read access) < time (written access))
    (balanced : initial ::ₘ accesses.map written = final ::ₘ accesses.map read) :
    ∃ chain : List α, (chain : Multiset α) = accesses ∧
      Linked read written initial chain final := by
  induction count : accesses.card generalizing accesses initial with
  | zero =>
    obtain rfl := card_eq_zero.mp count
    exact ⟨[], rfl, by simpa [Linked] using balanced⟩
  | succ remaining ih =>
    by_cases first : ∃ access ∈ accesses, read access = initial
    · obtain ⟨access, member, rfl⟩ := first
      obtain ⟨others, rfl⟩ := exists_cons_of_mem member
      rw [map_cons, map_cons, cons_swap final, cons_inj_right] at balanced
      obtain ⟨chain, rfl, linked⟩ :=
        ih (fun other inOthers => forward other (mem_cons_of_mem inOthers)) balanced
          (by simpa using count)
      exact ⟨access :: chain, rfl, rfl, linked⟩
    · -- Nobody reads the initial record, so it is the final one and the rest closes a circle.
      have same : initial = final := by
        have consumed : initial ∈ final ::ₘ accesses.map read := by
          rw [← balanced]
          exact mem_cons_self _ _
        rcases mem_cons.mp consumed with same | inReads
        · exact same
        · exact absurd (mem_map.mp inReads) first
      rw [same, cons_inj_right] at balanced
      rw [eq_zero_of_closed forward balanced] at count
      simp at count

end

theorem Linked.after_start {start finish : ρ} {chain : List α}
    (forward : ∀ access ∈ chain, time (read access) < time (written access))
    (linked : Linked read written start chain finish) :
    ∀ access ∈ chain, time start < time (written access) := by
  induction chain generalizing start with
  | nil => simp
  | cons first rest ih =>
    obtain ⟨reads, restLinked⟩ := linked
    have firstForward := forward first List.mem_cons_self
    rw [reads] at firstForward
    intro access member
    rcases List.mem_cons.mp member with rfl | inRest
    · exact firstForward
    · exact firstForward.trans
        (ih (fun other inRest => forward other (List.mem_cons_of_mem _ inRest)) restLinked
          access inRest)

theorem Linked.increasing {start finish : ρ} {chain : List α}
    (forward : ∀ access ∈ chain, time (read access) < time (written access))
    (linked : Linked read written start chain finish) :
    chain.Pairwise fun first second => time (written first) < time (written second) := by
  induction chain generalizing start with
  | nil => exact List.Pairwise.nil
  | cons first rest ih =>
    have restForward : ∀ access ∈ rest, time (read access) < time (written access) :=
      fun other inRest => forward other (List.mem_cons_of_mem _ inRest)
    exact List.pairwise_cons.mpr
      ⟨linked.2.after_start restForward, ih restForward linked.2⟩

/-- The access reads what the latest earlier write left, or `start` if there is none. -/
def ReadsLatest (read written : α → ρ) (time : ρ → τ) (start : ρ) (chain : List α) (access : α) :
    Prop :=
  (read access = start ∧ ∀ other ∈ chain, ¬ time (written other) < time (written access)) ∨
    ∃ writer ∈ chain, read access = written writer ∧
      time (written writer) < time (written access) ∧
      ∀ other ∈ chain, time (written other) < time (written access) →
        time (written other) ≤ time (written writer)

theorem Linked.readsLatest {start finish : ρ} {chain : List α}
    (forward : ∀ access ∈ chain, time (read access) < time (written access))
    (linked : Linked read written start chain finish) :
    ∀ access ∈ chain, ReadsLatest read written time start chain access := by
  induction chain generalizing start with
  | nil => simp
  | cons first rest ih =>
    have restForward : ∀ access ∈ rest, time (read access) < time (written access) :=
      fun other inRest => forward other (List.mem_cons_of_mem _ inRest)
    have later := linked.2.after_start restForward
    intro access member
    rcases List.mem_cons.mp member with rfl | inRest
    · refine Or.inl ⟨linked.1, fun other otherMember => ?_⟩
      rcases List.mem_cons.mp otherMember with rfl | otherInRest
      · exact lt_irrefl _
      · exact (later other otherInRest).asymm
    · right
      rcases ih restForward linked.2 access inRest with ⟨reads, none⟩ | ⟨writer, inChain, rest⟩
      · refine ⟨first, List.mem_cons_self, reads, later access inRest, fun other mem before => ?_⟩
        rcases List.mem_cons.mp mem with rfl | otherInRest
        · exact le_rfl
        · exact absurd before (none other otherInRest)
      · obtain ⟨reads, before, latest⟩ := rest
        refine ⟨writer, List.mem_cons_of_mem _ inChain, reads, before, fun other mem early => ?_⟩
        rcases List.mem_cons.mp mem with rfl | otherInRest
        · exact (later writer inChain).le
        · exact latest other otherInRest early

section

variable [WellFoundedLT τ] [DecidableEq κ]

theorem card_filter_le_one {records : Multiset ρ} (distinct : (records.map address).Nodup)
    (location : κ) : (records.filter (address · = location)).card ≤ 1 := by
  have once := nodup_iff_count_le_one.mp distinct location
  rw [count_map] at once
  simpa only [eq_comm] using once

/-- When all records balance, the accesses of every address form a chain from its initial
record; an address without initial record is not accessed. -/
theorem exists_chain {initials finals : Multiset ρ} {accesses : Multiset α}
    (forward : ∀ access ∈ accesses, time (read access) < time (written access))
    (sameAddress : ∀ access, address (written access) = address (read access))
    (once : (initials.map address).Nodup) (paired : finals.map address = initials.map address)
    (balanced : initials + accesses.map written = finals + accesses.map read) (location : κ) :
    ∃ chain : List α,
      (chain : Multiset α) = accesses.filter (fun access => address (read access) = location) ∧
      (chain = [] ∨ ∃ initial ∈ initials, ∃ final ∈ finals, address initial = location ∧
        address final = location ∧ Linked read written initial chain final) := by
  have balancedHere := congrArg (Multiset.filter (address · = location)) balanced
  rw [filter_add, filter_add, filter_map, filter_map] at balancedHere
  have sameFilter : accesses.filter ((address · = location) ∘ written) =
      accesses.filter ((address · = location) ∘ read) :=
    filter_congr fun access _ => by simp only [Function.comp, sameAddress]
  rw [sameFilter] at balancedHere
  have localForward : ∀ access ∈ accesses.filter ((address · = location) ∘ read),
      time (read access) < time (written access) :=
    fun access member => forward access (mem_of_mem_filter member)
  have initialsOnce := card_filter_le_one once location
  have finalsCard : (finals.filter (address · = location)).card =
      (initials.filter (address · = location)).card := by
    have counts := congrArg (Multiset.count location) paired
    rw [count_map, count_map] at counts
    simpa only [eq_comm] using counts
  rcases Nat.le_one_iff_eq_zero_or_eq_one.mp initialsOnce with none | one
  · rw [none] at finalsCard
    rw [card_eq_zero.mp none, card_eq_zero.mp finalsCard,
      Multiset.zero_add, Multiset.zero_add] at balancedHere
    exact ⟨[], (eq_zero_of_closed localForward balancedHere).symm, Or.inl rfl⟩
  · rw [one] at finalsCard
    obtain ⟨initial, onlyInitial⟩ := card_eq_one.mp one
    obtain ⟨final, onlyFinal⟩ := card_eq_one.mp finalsCard
    have initialMember : initial ∈ initials.filter (address · = location) := by simp [onlyInitial]
    have finalMember : final ∈ finals.filter (address · = location) := by simp [onlyFinal]
    rw [onlyInitial, onlyFinal, singleton_add, singleton_add] at balancedHere
    obtain ⟨chain, isAccesses, linked⟩ := exists_linked localForward balancedHere
    rw [mem_filter] at initialMember finalMember
    exact ⟨chain, isAccesses, Or.inr ⟨initial, initialMember.1, final, finalMember.1,
      initialMember.2, finalMember.2, linked⟩⟩

end

end OfflineMemory

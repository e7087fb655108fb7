import Airbender.OneRowCompiler.EliminationProof

/-!
# Whether the loop that optimizes variables out ends

An iteration for a candidate optimizes it out or marks it as tried, so there are no more of them
than unplaced variables. A placeholder that is not placed makes the loop start over with nothing
changed.
-/

namespace Airbender.OneRowCompiler

open List Option

variable {F : Type} {circuit : Circuit F} {before after state start : Elimination F}

def Progresses (before after : Elimination F) : Prop :=
  ∃ var ∈ before.allVariablesToPlace, var ∉ before.triedVariables ∧
    ((after.optimizedOutVariables = before.optimizedOutVariables ++ [var] ∧
        after.allVariablesToPlace = before.allVariablesToPlace.erase var) ∨
      (var ∈ after.triedVariables ∧
        after.optimizedOutVariables = before.optimizedOutVariables ∧
        after.allVariablesToPlace = before.allVariablesToPlace))

def remaining (elimination : Elimination F) : ℕ :=
  elimination.allVariablesToPlace.countP fun var => decide (var ∉ elimination.triedVariables)

theorem remaining_lt (progresses : Progresses before after)
    (kept : ∀ var ∈ before.triedVariables, var ∈ after.triedVariables) :
    remaining after < remaining before := by
  obtain ⟨var, inside, untried, outcome⟩ := progresses
  have open' := (perm_cons_erase inside).countP_eq
    fun var => decide (var ∉ before.triedVariables)
  rw [countP_cons_of_pos (by simpa using untried)] at open'
  have others : remaining after = (before.allVariablesToPlace.erase var).countP
      fun var => decide (var ∉ after.triedVariables) := by
    rcases outcome with ⟨-, erased⟩ | ⟨tried, -, same⟩
    · rw [remaining, erased]
    · rw [remaining, same, (perm_cons_erase inside).countP_eq,
        countP_cons_of_neg (by simpa using tried)]
  have fewer : remaining after ≤ (before.allVariablesToPlace.erase var).countP
      fun var => decide (var ∉ before.triedVariables) := by
    rw [others]
    apply countP_mono_left
    intro other _ untriedAfter
    simp only [decide_eq_true_eq] at untriedAfter ⊢
    exact fun earlier => untriedAfter (kept other earlier)
  change remaining before = _ at open'
  omega

theorem selectVariable_restart {elimination : Elimination F} {vars : List Variable}
    (selected : selectVariable circuit elimination vars = .restart) :
    ∃ var ∈ vars, var ∈ circuit.substitutions := by
  fun_induction selectVariable circuit elimination vars
  case case1 | case7 => cases selected
  case case4 first vars _ _ bound => exact ⟨first, mem_cons_self, bound⟩
  case case2 ih | case3 ih | case5 ih | case6 ih | case8 ih =>
    obtain ⟨var, member, bound⟩ := ih selected
    exact ⟨var, mem_cons_of_mem _ member, bound⟩

theorem selectVariable_nothing {elimination : Elimination F} {vars : List Variable}
    (selected : selectVariable circuit elimination vars = .nothing) {var : Variable}
    (member : var ∈ vars) (fresh : var ∉ elimination.optimizedOutVariables)
    (untried : var ∉ elimination.triedVariables) : var ∉ circuit.substitutions := by
  induction vars with
  | nil => cases member
  | cons first vars ih =>
    rw [selectVariable] at selected
    rcases mem_cons.mp member with rfl | later
    · intro placeholder
      rw [if_neg fresh, if_neg untried, if_pos placeholder] at selected
      cases selected
    · apply fun found => ih found later
      split_ifs at selected <;> exact selected

variable [Field F] [DecidableEq F] [ReducedForm F]

def RunsFor (circuit : Circuit F) : ℕ → Elimination F → Elimination F → Prop
  | 0, before, after => before = after
  | count + 1, before, after =>
    ∃ next, Iterates circuit before next ∧ RunsFor circuit count next after

/-- The scan comes to a placeholder before it finds a variable to optimize out. -/
def MeetsPlaceholder (circuit : Circuit F) (elimination : Elimination F) : Prop :=
  selectVariable circuit elimination elimination.allVariablesToPlace = .restart

theorem tryDefiningConstraints_tried {constraints : List (Constraint F × Bool)} {var : Variable}
    {indexes : List ℕ} {start params : Option (OptimizedOutParams F)}
    {tried triedAfter : List Variable}
    (succeeded : tryDefiningConstraints constraints var indexes start tried =
      some (params, triedAfter)) :
    (∀ other ∈ tried, other ∈ triedAfter) ∧ (∀ other ∈ triedAfter, other = var ∨ other ∈ tried) ∧
      (params = none → start = none ∧ (indexes ≠ [] → var ∈ triedAfter)) := by
  induction indexes generalizing start tried with
  | nil =>
    cases succeeded
    exact ⟨fun _ member => member, fun _ member => Or.inr member,
      fun missing => ⟨missing, fun nonempty => absurd rfl nonempty⟩⟩
  | cons idx indexes ih =>
    obtain ⟨entry, -, succeeded⟩ := bind_eq_some_iff.mp succeeded
    obtain ⟨expressed, -, succeeded⟩ := bind_eq_some_iff.mp succeeded
    obtain ⟨expression, -, succeeded⟩ := bind_eq_some_iff.mp succeeded
    obtain ⟨rewritten, -, succeeded⟩ := bind_eq_some_iff.mp succeeded
    cases rewritten with
    | none =>
      obtain ⟨kept, only, failed⟩ := ih succeeded
      have marked : var ∈ triedAfter := kept var mem_cons_self
      refine ⟨fun other member => kept other (mem_cons_of_mem _ member), ?_,
        fun missing => ⟨(failed missing).1, fun _ => marked⟩⟩
      intro other member
      rcases only other member with same | earlier
      · exact Or.inl same
      · exact mem_cons.mp earlier
    | some replacements =>
      obtain ⟨kept, only, failed⟩ := ih succeeded
      exact ⟨kept, only, fun missing => absurd (failed missing).1 (some_ne_none _)⟩

theorem Iterates.progress (iterates : Iterates circuit before after) :
    (MeetsPlaceholder circuit before ∧ after = before) ∨
    (¬ MeetsPlaceholder circuit before ∧ Progresses before after ∧
      (∀ var ∈ before.triedVariables, var ∈ after.triedVariables) ∧
      ∀ var ∈ before.allVariablesToPlace, var ∈ circuit.substitutions →
        var ∉ before.triedVariables → var ∉ before.optimizedOutVariables →
        var ∈ after.allVariablesToPlace ∧ var ∉ after.triedVariables ∧
          var ∉ after.optimizedOutVariables) := by
  rw [Iterates, iteration] at iterates
  split at iterates
  case h_1 => cases iterates
  case h_2 restarts =>
    cases iterates
    exact Or.inl ⟨restarts, rfl⟩
  case h_3 var selected =>
    obtain ⟨inside, fresh, untried, bound, defined⟩ := selectVariable_candidate selected
    have noRestart : ¬ MeetsPlaceholder circuit before := by
      intro meets
      rw [MeetsPlaceholder, selected] at meets
      cases meets
    obtain ⟨next, optimized, same⟩ := map_eq_some_iff.mp iterates
    cases same
    obtain ⟨⟨params, tried⟩, succeeded, optimized⟩ := bind_eq_some_iff.mp optimized
    obtain ⟨kept, only, failed⟩ := tryDefiningConstraints_tried succeeded
    have other : ∀ placeholder ∈ circuit.substitutions, placeholder ≠ var := by
      rintro placeholder member rfl
      exact bound member
    have stays : ∀ placeholder ∈ circuit.substitutions, placeholder ∉ before.triedVariables →
        placeholder ∉ tried := by
      intro placeholder member untried marked
      exact (only placeholder marked).elim (other placeholder member) untried
    refine Or.inr ⟨noRestart, ?_⟩
    cases params with
    | none =>
      cases optimized
      refine ⟨⟨var, inside, untried, Or.inr ⟨(failed rfl).2 defined, rfl, rfl⟩⟩, kept, ?_⟩
      intro placeholder unplaced member untried fresh
      exact ⟨unplaced, stays placeholder member untried, fresh⟩
    | some params =>
      cases optimized
      refine ⟨⟨var, inside, untried, Or.inl ⟨rfl, rfl⟩⟩, kept, ?_⟩
      intro placeholder unplaced member untried fresh
      have different := other placeholder member
      refine ⟨(mem_erase_of_ne different).mpr unplaced, stays placeholder member untried, ?_⟩
      intro optimizedOut
      rcases mem_append.mp optimizedOut with earlier | last
      · exact fresh earlier
      · exact different (mem_singleton.mp last)

theorem exists_runsFor (reaches : Reaches circuit before after) :
    ∃ count, RunsFor circuit count before after := by
  induction reaches using Relation.ReflTransGen.head_induction_on with
  | refl => exact ⟨0, rfl⟩
  | head iterates _ ih =>
    obtain ⟨count, runs⟩ := ih
    exact ⟨count + 1, _, iterates, runs⟩

theorem runsFor_le {count : ℕ}
    (never : ∀ state, Reaches circuit before state → ¬ MeetsPlaceholder circuit state)
    (runs : RunsFor circuit count before after) : count + remaining after ≤ remaining before := by
  induction count generalizing before with
  | zero =>
    rw [show before = after from runs]
    omega
  | succ count ih =>
    obtain ⟨next, iterates, runs⟩ := runs
    rcases iterates.progress with ⟨meets, -⟩ | ⟨-, progresses, kept, -⟩
    · exact absurd meets (never before Relation.ReflTransGen.refl)
    · have shorter := remaining_lt progresses kept
      have rest := ih (fun state reaches =>
        never state (Relation.ReflTransGen.head iterates reaches)) runs
      omega

theorem runsFor_restarts (meets : MeetsPlaceholder circuit state) {count : ℕ}
    (runs : RunsFor circuit count start state) (more : ℕ) :
    RunsFor circuit (count + more) start state := by
  induction count generalizing start with
  | zero =>
    rw [show start = state from runs, Nat.zero_add]
    have again : Iterates circuit state state := by
      rw [Iterates, iteration, show selectVariable _ _ _ = _ from meets]
    induction more with
    | zero => rfl
    | succ more ih => exact ⟨state, again, ih⟩
  | succ count ih =>
    obtain ⟨next, iterates, runs⟩ := runs
    rw [Nat.succ_add]
    exact ⟨next, iterates, ih runs⟩

theorem unplaced_subset (reaches : Reaches circuit start state) :
    ∀ var ∈ state.allVariablesToPlace, var ∈ start.allVariablesToPlace := by
  induction reaches with
  | refl => exact fun _ member => member
  | tail _ iterates ih =>
    intro var member
    rcases iterates.progress with ⟨-, rfl⟩ | ⟨-, ⟨other, -, -, outcome⟩, -⟩
    · exact ih var member
    · rcases outcome with ⟨-, erased⟩ | ⟨-, -, same⟩
      · rw [erased] at member
        exact ih var (mem_of_mem_erase member)
      · rw [same] at member
        exact ih var member

theorem placeholder_stays (reaches : Reaches circuit start state) {var : Variable}
    (unplaced : var ∈ start.allVariablesToPlace) (placeholder : var ∈ circuit.substitutions)
    (untried : var ∉ start.triedVariables) (fresh : var ∉ start.optimizedOutVariables) :
    var ∈ state.allVariablesToPlace ∧ var ∉ state.triedVariables ∧
      var ∉ state.optimizedOutVariables := by
  induction reaches with
  | refl => exact ⟨unplaced, untried, fresh⟩
  | tail _ iterates ih =>
    rcases iterates.progress with ⟨-, rfl⟩ | ⟨-, -, -, stays⟩
    · exact ih
    · exact stays var ih.1 placeholder ih.2.1 ih.2.2

/-- Every iteration makes progress, and there are no more of them than unplaced variables. -/
structure Terminates (circuit : Circuit F) (start : Elimination F) : Prop where
  bounded : ∀ count state, RunsFor circuit count start state →
    count ≤ start.allVariablesToPlace.length
  progresses : ∀ before after, Reaches circuit start before → Iterates circuit before after →
    Progresses before after

theorem terminates_iff_never :
    Terminates circuit start ↔
      ∀ state, Reaches circuit start state → ¬ MeetsPlaceholder circuit state := by
  constructor
  · intro terminates state reaches meets
    obtain ⟨count, runs⟩ := exists_runsFor reaches
    have long := terminates.bounded _ _
      (runsFor_restarts meets runs (start.allVariablesToPlace.length + 1))
    omega
  · intro never
    constructor
    · intro count state runs
      have bounded := runsFor_le never runs
      have all : remaining start ≤ start.allVariablesToPlace.length := countP_le_length
      omega
    · intro before after reaches iterates
      rcases iterates.progress with ⟨meets, -⟩ | ⟨-, progresses, -⟩
      · exact absurd meets (never before reaches)
      · exact progresses

/-- The loop terminates exactly if its scans never come to a placeholder, for which it suffices
that all placeholders are placed. With an unplaced placeholder it does not reach its end. -/
theorem elimination_terminates_iff (started : startElimination circuit = some start) :
    (Terminates circuit start ↔
      ∀ state, Reaches circuit start state → ¬ MeetsPlaceholder circuit state) ∧
    ((∀ var ∈ start.allVariablesToPlace, var ∉ circuit.substitutions) →
      Terminates circuit start) ∧
    ((∃ var ∈ start.allVariablesToPlace, var ∈ circuit.substitutions) →
      ∀ state, Reaches circuit start state → iteration circuit state ≠ some .finished) := by
  refine ⟨terminates_iff_never, fun placed => terminates_iff_never.mpr ?_, ?_⟩
  · intro state reaches meets
    obtain ⟨var, member, placeholder⟩ := selectVariable_restart meets
    exact placed var (unplaced_subset reaches var member) placeholder
  · rintro ⟨var, unplaced, placeholder⟩ state reaches finished
    obtain ⟨placement, -, started⟩ := bind_eq_some_iff.mp started
    obtain ⟨normalized, -, started⟩ := bind_eq_some_iff.mp started
    cases started
    obtain ⟨stays, untried, fresh⟩ := placeholder_stays reaches unplaced placeholder
      not_mem_nil not_mem_nil
    rw [iteration] at finished
    split at finished
    case h_1 nothing => exact selectVariable_nothing nothing stays fresh untried placeholder
    case h_2 => cases finished
    case h_3 =>
      obtain ⟨_, _, impossible⟩ := map_eq_some_iff.mp finished
      cases impossible

theorem elimination_terminates_copy : Terminates (copyCircuit []) (copyStart []) := by
  have started : startElimination (copyCircuit []) = some (copyStart []) := by decide +kernel
  exact (elimination_terminates_iff started).2.1 fun _ _ => not_mem_nil

def placeholderCircuit : Circuit Mersenne31Field := { copyCircuit [] with
  constraints := []
  substitutions := [0] }

theorem placeholder_loops_forever :
    startElimination placeholderCircuit = some ⟨[], [0, 1, 2, 3, 4], [], []⟩ ∧
      ∀ count, RunsFor placeholderCircuit count ⟨[], [0, 1, 2, 3, 4], [], []⟩
        ⟨[], [0, 1, 2, 3, 4], [], []⟩ := by
  have started : startElimination placeholderCircuit = some ⟨[], [0, 1, 2, 3, 4], [], []⟩ := by
    decide +kernel
  have meets : MeetsPlaceholder placeholderCircuit ⟨[], [0, 1, 2, 3, 4], [], []⟩ := rfl
  refine ⟨started, fun count => ?_⟩
  have runs := runsFor_restarts meets (show RunsFor placeholderCircuit 0 _ _ from rfl) count
  rwa [Nat.zero_add] at runs

end Airbender.OneRowCompiler

import Mathlib

/-!
# Systems whose steps contain checks

A system takes events that are enabled in a state; an enabled event fails when a check in its step
does. Infinite runs are considered as well: what they lead to when events that stay ready are not
passed over forever.
-/

set_option autoImplicit false

/-- `perform` has no result when a check fails. -/
structure CheckedSystem (S E : Type) where
  initial : S
  enabled : S → E → Prop
  perform : S → E → Option S

namespace CheckedSystem

variable {S E : Type} (system : CheckedSystem S E)

def Step (state : S) (event : E) (after : S) : Prop :=
  system.enabled state event ∧ system.perform state event = some after

inductive Reachable : S → Prop where
  | initial : Reachable system.initial
  | step {state after : S} {event : E} (reachable : Reachable state)
      (step : system.Step state event after) : Reachable after

def Safe : Prop :=
  ∀ state, system.Reachable state → ∀ event, system.enabled state event →
    (system.perform state event).isSome = true

variable {system}

variable {events : List E} {state : S}

theorem Reachable.invariant {Invariant : S → Prop} (start : Invariant system.initial)
    (keep : ∀ state event after, Invariant state → system.Step state event after →
      Invariant after)
    (reachable : system.Reachable state) : Invariant state := by
  induction reachable with
  | initial => exact start
  | step _ step ih => exact keep _ _ _ ih step

variable (system) in
/-- An infinite run; at some moments nothing happens. -/
structure Run where
  state : ℕ → S
  event : ℕ → Option E
  start : state 0 = system.initial
  idle : ∀ time, event time = none → state (time + 1) = state time
  step : ∀ time moment, event time = some moment →
    system.Step (state time) moment (state (time + 1))

namespace Run

variable (run : system.Run)

theorem reachable (time : ℕ) : system.Reachable (run.state time) := by
  induction time with
  | zero =>
    rw [run.start]
    exact .initial
  | succ time ih =>
    cases happens : run.event time with
    | none =>
      rw [run.idle time happens]
      exact ih
    | some event => exact ih.step (run.step time event happens)

/-- An event that stays ready is taken. -/
def Fair (ready : S → Prop) (taken : E → Prop) : Prop :=
  ∀ time, (∀ later, time ≤ later → ready (run.state later)) →
    ∃ later, time ≤ later ∧ ∃ event, run.event later = some event ∧ taken event

def LeadsTo (P Q : S → Prop) : Prop :=
  ∀ time, P (run.state time) → ∃ later, time ≤ later ∧ Q (run.state later)

variable {run} {P Q R : S → Prop}

theorem stable
    (keep : ∀ time event, run.event time = some event → P (run.state time) →
      P (run.state (time + 1)))
    {time later : ℕ} (le : time ≤ later) (holds : P (run.state time)) : P (run.state later) := by
  induction later, le using Nat.le_induction with
  | base => exact holds
  | succ later _ ih =>
    cases happens : run.event later with
    | none =>
      rw [run.idle later happens]
      exact ih
    | some event => exact keep later event happens ih

theorem LeadsTo.trans (first : run.LeadsTo P Q) (second : run.LeadsTo Q R) : run.LeadsTo P R := by
  intro time holds
  rcases first time holds with ⟨middle, middleLe, between⟩
  rcases second middle between with ⟨later, laterLe, reached⟩
  exact ⟨later, Nat.le_trans middleLe laterLe, reached⟩

/-- The rule of one fair event: it is ready while `P` holds, and steps reach `Q` or keep `P`, the
latter only if the event is not taken. -/
theorem LeadsTo.of_fair {ready : S → Prop} {taken : E → Prop} (fair : run.Fair ready taken)
    (keep : ∀ state event after, system.Reachable state → system.Step state event after →
      P state → P after ∧ ¬taken event ∨ Q after)
    (enables : ∀ state, system.Reachable state → P state → ready state) : run.LeadsTo P Q := by
  intro time holds
  by_contra never
  push Not at never
  have persists : ∀ later, time ≤ later → P (run.state later) := by
    intro later le
    induction later, le using Nat.le_induction with
    | base => exact holds
    | succ later le ih =>
      cases happens : run.event later with
      | none =>
        rw [run.idle later happens]
        exact ih
      | some event =>
        rcases keep _ event _ (run.reachable later) (run.step later event happens) ih with
          ⟨kept, -⟩ | reached
        · exact kept
        · exact absurd reached (never _ (Nat.le_succ_of_le le))
  have readyFrom : ∀ later, time ≤ later → ready (run.state later) :=
    fun later le => enables _ (run.reachable later) (persists later le)
  rcases fair time readyFrom with ⟨later, le, event, happens, isTaken⟩
  rcases keep _ event _ (run.reachable later) (run.step later event happens) (persists later le)
    with ⟨-, notTaken⟩ | reached
  · exact notTaken isTaken
  · exact never _ (Nat.le_succ_of_le le) reached

theorem LeadsTo.of_rank (rank : S → ℕ)
    (falls : ∀ value, run.LeadsTo (fun state => P state ∧ rank state = value)
      (fun state => Q state ∨ P state ∧ rank state < value)) : run.LeadsTo P Q := by
  have bounded : ∀ value, run.LeadsTo (fun state => P state ∧ rank state = value) Q := by
    intro value
    induction value using Nat.strongRecOn with
    | ind value ih =>
      intro time holds
      rcases falls value time holds with ⟨middle, middleLe, reached | ⟨again, lower⟩⟩
      · exact ⟨middle, middleLe, reached⟩
      · rcases ih _ lower middle ⟨again, rfl⟩ with ⟨later, laterLe, reached⟩
        exact ⟨later, Nat.le_trans middleLe laterLe, reached⟩
  intro time holds
  exact bounded _ time ⟨holds, rfl⟩

/-- The rule of fair events that lower a rank. Which event is the next to be taken depends on a
mode, which does not change as long as the event is not taken and the rank stays. -/
theorem LeadsTo.of_falling {I : Type} (rank : S → ℕ) (mode : S → I) {ready : I → S → Prop}
    {taken : I → E → Prop} (fair : ∀ value, run.Fair (ready value) (taken value))
    (keep : ∀ state event after, system.Reachable state → system.Step state event after →
      P state → Q after ∨ P after ∧ (rank after < rank state ∨ rank after = rank state ∧
        mode after = mode state ∧ ¬taken (mode state) event))
    (enables : ∀ state, system.Reachable state → P state → ready (mode state) state) :
    run.LeadsTo P Q := by
  apply LeadsTo.of_rank rank
  intro value time holds
  have moves : run.LeadsTo
      (fun state => (P state ∧ rank state = value) ∧ mode state = mode (run.state time))
      (fun state => Q state ∨ P state ∧ rank state < value) := by
    refine .of_fair (fair (mode (run.state time))) ?_ ?_
    · intro state event after reachable step ⟨⟨holds, isRank⟩, isMode⟩
      rw [← isRank, ← isMode]
      rcases keep state event after reachable step holds with
        reached | ⟨again, lower | ⟨same, sameMode, notTaken⟩⟩
      · exact Or.inr (Or.inl reached)
      · exact Or.inr (Or.inr ⟨again, lower⟩)
      · exact Or.inl ⟨⟨⟨again, same⟩, sameMode⟩, notTaken⟩
    · intro state reachable ⟨⟨holds, _⟩, isMode⟩
      rw [← isMode]
      exact enables state reachable holds
  exact moves time ⟨holds, rfl⟩

/-- What is related to the state at some time, and can always follow, runs along. -/
theorem exists_following {B : Type} (Related : ℕ → B → Prop) (Follows : ℕ → B → B → Prop)
    (start : ℕ) (first : B) (related : Related start first)
    (follow : ∀ time current, start ≤ time → Related time current →
      ∃ next, Follows time current next ∧ Related (time + 1) next) :
    ∃ along : ℕ → B, along start = first ∧ ∀ time, start ≤ time →
      Related time (along time) ∧ Follows time (along time) (along (time + 1)) := by
  choose next follows stays using follow
  -- The steps are taken from `start` on; what is related is carried with them.
  let chain : (step : ℕ) → { current // Related (start + step) current } := fun step =>
    step.rec ⟨first, related⟩ fun step current =>
      ⟨next (start + step) current (Nat.le_add_right _ _) current.2,
        stays (start + step) current (Nat.le_add_right _ _) current.2⟩
  refine ⟨fun time => (chain (time - start)).1, ?_, fun time le => ?_⟩
  · change (chain (start - start)).1 = first
    rw [Nat.sub_self]
    rfl
  · obtain ⟨step, rfl⟩ := Nat.exists_eq_add_of_le le
    change Related _ (chain (start + step - start)).1 ∧
      Follows _ (chain (start + step - start)).1 (chain (start + step + 1 - start)).1
    rw [Nat.add_assoc start step 1, Nat.add_sub_cancel_left, Nat.add_sub_cancel_left]
    exact ⟨(chain step).2, follows (start + step) (chain step).1 le (chain step).2⟩

end Run

section

variable (system)

def Happen : S → List E → Prop
  | _, [] => True
  | state, event :: events =>
    system.enabled state event ∧
      match system.perform state event with
      | none => False
      | some after => Happen after events

instance decidableHappen [∀ state event, Decidable (system.enabled state event)] :
    ∀ (state : S) (events : List E), Decidable (system.Happen state events)
  | _, [] => isTrue trivial
  | state, event :: events =>
    match performed : system.perform state event with
    | none => isFalse (by simp [Happen, performed])
    | some after =>
      have := decidableHappen after events
      decidable_of_iff (system.enabled state event ∧ system.Happen after events)
        (by simp [Happen, performed])

def stateAfter : S → List E → ℕ → S
  | state, event :: events, time + 1 =>
    match system.perform state event with
    | none => state
    | some after => stateAfter after events time
  | state, _, _ => state

variable {system}

variable {events : List E}

variable {time : ℕ} {state : S}

theorem Happen.step (happen : system.Happen state events) {event : E}
    (isEvent : events[time]? = some event) :
    system.Step (system.stateAfter state events time) event
      (system.stateAfter state events (time + 1)) := by
  induction events generalizing state time with
  | nil => simp at isEvent
  | cons first events ih =>
    rcases happen with ⟨enabled, rest⟩
    cases performed : system.perform state first with
    | none => simp [performed] at rest
    | some after =>
      rw [performed] at rest
      cases time with
      | zero =>
        cases isEvent
        refine ⟨enabled, ?_⟩
        cases events <;> simp [stateAfter, performed]
      | succ time =>
        simp only [List.getElem?_cons_succ] at isEvent
        simpa [stateAfter, performed] using ih rest isEvent

theorem stateAfter_of_le (le : events.length ≤ time) :
    system.stateAfter state events time = system.stateAfter state events events.length := by
  induction events generalizing state time with
  | nil => cases time <;> rfl
  | cons first events ih =>
    cases time with
    | zero => simp at le
    | succ time =>
      simp only [List.length_cons, stateAfter]
      cases system.perform state first with
      | none => rfl
      | some after => exact ih (Nat.le_of_succ_le_succ le)

variable (system) in
def runOf (events : List E) (happen : system.Happen system.initial events) : system.Run where
  state := system.stateAfter system.initial events
  event := fun time => events[time]?
  start := by cases events <;> rfl
  idle := by
    intro time none
    have le := List.getElem?_eq_none_iff.mp none
    rw [stateAfter_of_le (Nat.le_succ_of_le le), stateAfter_of_le le]
  step := fun _ _ isEvent => happen.step isEvent

theorem runOf_state (happen : system.Happen system.initial events) (le : events.length ≤ time) :
    (system.runOf events happen).state time =
      system.stateAfter system.initial events events.length :=
  stateAfter_of_le le

theorem runOf_fair (happen : system.Happen system.initial events) {ready : S → Prop}
    {taken : E → Prop} (notReady : ¬ready (system.stateAfter system.initial events events.length)) :
    (system.runOf events happen).Fair ready taken := by
  intro time readyFrom
  have inTheEnd := readyFrom (max time events.length) (Nat.le_max_left _ _)
  rw [runOf_state happen (Nat.le_max_right _ _)] at inTheEnd
  exact absurd inTheEnd notReady

end

end CheckedSystem

import Mathlib

/-!
# Constraint programs

A constraint program allocates variables, imposes requirements on them and returns a result. An
assignment lists the values of the variables in allocation order; `Circuit.run` checks one, and
`Circuit.Yields` relates a program to the results of its satisfying assignments. Requirements are
Booleans that the client computes.
-/

namespace CircuitLib

set_option autoImplicit false

variable {F α β : Type}

/-- A program that builds a constraint system. A variable is represented by the value an
assignment gives it, so every expression over variables denotes its value. -/
inductive Circuit (F α : Type) where
  | done (result : α)
  | allocate (next : F → Circuit F α)
  | demand (holds : Bool) (next : Circuit F α)
  | abort

namespace Circuit

protected def bind : Circuit F α → (α → Circuit F β) → Circuit F β
  | done result, rest => rest result
  | allocate next, rest => allocate fun value => (next value).bind rest
  | demand holds next, rest => demand holds (next.bind rest)
  | abort, _ => abort

instance : Monad (Circuit F) where
  pure := done
  bind := Circuit.bind

variable (program : Circuit F α)

theorem bind_assoc_circuit {γ : Type} (first : α → Circuit F β) (second : β → Circuit F γ) :
    (program.bind first).bind second = program.bind fun result => (first result).bind second := by
  induction program with
  | done result => rfl
  | allocate next ih =>
    simp only [Circuit.bind]
    exact congrArg allocate (funext fun value => ih value)
  | demand holds next ih => simp only [Circuit.bind, ih]
  | abort => rfl

theorem bind_done : program.bind done = program := by
  induction program with
  | done result => rfl
  | allocate next ih =>
    simp only [Circuit.bind]
    exact congrArg allocate (funext fun value => ih value)
  | demand holds next ih => simp only [Circuit.bind, ih]
  | abort => rfl

instance : LawfulMonad (Circuit F) :=
  LawfulMonad.mk' (Circuit F) (fun program => bind_done program) (fun _ _ => rfl)
    (fun program first second => bind_assoc_circuit program first second)

def addVariable : Circuit F F := allocate done

def require (holds : Bool) : Circuit F Unit := demand holds (done ())

/-- A check made while the system is built: no system comes out when it fails. -/
def assert (holds : Bool) : Circuit F Unit := if holds then done () else abort

/-- Check an assignment: consume one value per allocated variable and stop at the first
requirement that fails. The values that were not consumed are returned with the result. -/
def run : Circuit F α → List F → Option (α × List F)
  | done result, assignment => some (result, assignment)
  | allocate _, [] => none
  | allocate next, value :: assignment => (next value).run assignment
  | demand holds next, assignment => if holds then next.run assignment else none
  | abort, _ => none

/-- Some assignment satisfies every requirement and the program returns `result` under it. -/
def Yields : Circuit F α → α → Prop
  | done value, result => value = result
  | allocate next, result => ∃ value, (next value).Yields result
  | demand holds next, result => holds = true ∧ next.Yields result
  | abort, _ => False

theorem yields_iff_run (result : α) :
    program.Yields result ↔ ∃ assignment, program.run assignment = some (result, []) := by
  induction program with
  | done value =>
    constructor
    · intro same
      exact ⟨[], by simp [run, show value = result from same]⟩
    · rintro ⟨assignment, accepted⟩
      simp only [run, Option.some.injEq, Prod.mk.injEq] at accepted
      exact accepted.1
  | allocate next ih =>
    constructor
    · rintro ⟨value, rest⟩
      obtain ⟨assignment, accepted⟩ := (ih value).mp rest
      exact ⟨value :: assignment, accepted⟩
    · rintro ⟨assignment, accepted⟩
      cases assignment with
      | nil => simp [run] at accepted
      | cons value assignment => exact ⟨value, (ih value).mpr ⟨assignment, accepted⟩⟩
  | demand holds next ih =>
    cases holds with
    | false => simp [Yields, run]
    | true => simp [Yields, run, ih]
  | abort => simp [Yields, run]

theorem run_determined {program : Circuit F α} {value : α}
    (yields : ∀ result, program.Yields result ↔ value = result) :
    (∀ assignment result, program.run assignment = some (result, []) → result = value) ∧
      ∃ assignment, program.run assignment = some (value, []) := by
  constructor
  · intro assignment result accepted
    have yielded := (yields_iff_run program result).mpr ⟨assignment, accepted⟩
    exact ((yields result).mp yielded).symm
  · exact (yields_iff_run program value).mp ((yields value).mpr rfl)

@[simp] theorem yields_pure (value result : α) :
    (pure value : Circuit F α).Yields result ↔ value = result := Iff.rfl

@[simp] theorem yields_bind (rest : α → Circuit F β) (result : β) :
    (program >>= rest).Yields result ↔
      ∃ middle, program.Yields middle ∧ (rest middle).Yields result := by
  change (program.bind rest).Yields result ↔ _
  induction program with
  | done value => simp [Circuit.bind, Yields]
  | allocate next ih =>
    simp only [Circuit.bind, Yields, ih]
    constructor
    · rintro ⟨value, middle, reached, continued⟩
      exact ⟨middle, ⟨value, reached⟩, continued⟩
    · rintro ⟨middle, ⟨value, reached⟩, continued⟩
      exact ⟨value, middle, reached, continued⟩
  | demand holds next ih => simp [Circuit.bind, Yields, ih, and_assoc]
  | abort => simp [Circuit.bind, Yields]

@[simp] theorem yields_map (convert : α → β) (result : β) :
    (convert <$> program).Yields result ↔
      ∃ middle, program.Yields middle ∧ convert middle = result := by
  rw [← bind_pure_comp, yields_bind]
  simp

@[simp] theorem yields_addVariable (value : F) :
    (addVariable : Circuit F F).Yields value := ⟨value, rfl⟩

@[simp] theorem yields_require (holds : Bool) (result : Unit) :
    (require holds : Circuit F Unit).Yields result ↔ holds = true := by
  cases result
  simp [require, Yields]

@[simp] theorem yields_assert (holds : Bool) (result : Unit) :
    (assert holds : Circuit F Unit).Yields result ↔ holds = true := by
  cases result
  cases holds <;> simp [assert, Yields]

theorem assert_true : (assert true : Circuit F Unit) = pure () := rfl

theorem yields_forM {γ : Type} (items : List γ) (program : γ → Circuit F Unit) (result : Unit) :
    (items.forM program).Yields result ↔ ∀ item ∈ items, (program item).Yields () := by
  induction items with
  | nil => simp [Yields, pure]
  | cons item items ih =>
    have split : ((item :: items).forM program).Yields result ↔
        ∃ middle, (program item).Yields middle ∧ (items.forM program).Yields result :=
      yields_bind (program item) (fun _ => items.forM program) result
    rw [split, ih, List.forall_mem_cons]
    constructor
    · intro found
      rcases found with ⟨middle, first, rest⟩
      exact ⟨first, rest⟩
    · intro both
      exact ⟨(), both⟩

@[simp] theorem yields_abort (result : α) : ¬ (abort : Circuit F α).Yields result := id

end Circuit

end CircuitLib

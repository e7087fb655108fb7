import Airbender.Execution.GpuManagerSafety

/-!
# Progress of the GPU manager

For every stage a request of a batch goes through, a rank that no step raises and that the steps of
a worker lower: a request in the worker's queue, a batch in its pipeline. The other steps concern
the intake of batches and requests, which is followed on its own. Liveness runs the ranks down.
-/

namespace Airbender.Execution

open Finset

variable {n : ℕ} {T : Type} {setups : CachedSetups}

/-- How many items have to leave a queue until the last one with a property has left it. -/
def depth {α : Type} (property : α → Bool) : List α → ℕ
  | [] => 0
  | item :: rest => if (item :: rest).any property then depth property rest + 1 else 0

section

variable {α : Type} {property : α → Bool}

theorem depth_pos_iff {queue : List α} :
    0 < depth property queue ↔ ∃ item ∈ queue, property item = true := by
  cases queue with
  | nil => simp [depth]
  | cons item rest =>
    rw [depth, ← List.any_eq_true]
    split_ifs with occurs <;> simp [occurs]

theorem depth_cons {item : α} {rest : List α} (positive : 0 < depth property (item :: rest)) :
    depth property (item :: rest) = depth property rest + 1 := by
  have occurs := List.any_eq_true.mpr (depth_pos_iff.mp positive)
  rw [depth, if_pos occurs]

theorem depth_append_singleton {queue : List α} {item : α} (without : property item = false) :
    depth property (queue ++ [item]) = depth property queue := by
  induction queue with
  | nil => simp [depth, without]
  | cons head rest ih =>
    have same : ((head :: rest) ++ [item]).any property = (head :: rest).any property := by
      simp [without]
    rw [List.cons_append] at same ⊢
    rw [depth, depth, same, ih]

end

namespace System

section

variable {system after : System n T} {worker : Fin n}

theorem Invariant.turn_inversion (invariant : system.Invariant setups) {op : SelectOp n}
    {candidates : List (Fin n)}
    (step : (gpuSystem n T setups).Step system (.turn op candidates) after) :
    ∃ middle drained, Selected setups system op middle ∧ FedSteps setups middle drained ∧
      after = drained.checkFinished := by
  rcases step with ⟨enabled, performed⟩
  rcases invariant.turn_spec enabled.1 enabled.2 candidates with
    ⟨middle, drained, isDrained, selected, steps⟩
  exact ⟨middle, drained, selected, steps, Option.some.inj (performed.symm.trans isDrained)⟩

theorem finish_inversion (step : (gpuSystem n T setups).Step system (.finish worker) after) :
    ∃ result, (system.workers worker).stage = .computing result ∧
      after = { system with
        workers := Function.update system.workers worker
          { system.workers worker with stage := .answering result } } := by
  rcases step with ⟨⟨result, computing⟩, performed⟩
  change system.perform setups (.finish worker) = some after at performed
  simp only [perform, computing] at performed
  split_ifs at performed
  cases performed
  exact ⟨result, computing, rfl⟩

theorem exit_inversion (step : (gpuSystem n T setups).Step system (.exit worker) after) :
    after = system := by
  rcases step with ⟨-, performed⟩
  change system.perform setups (.exit worker) = some after at performed
  simp only [perform, Option.bind_eq_bind, Option.bind_eq_some_iff, Option.some.injEq]
    at performed
  rcases performed with ⟨-, -, -, -, rfl⟩
  rfl

end

/-- What holds after a step: the step leaves the manager and the workers alone, completes the
body of a worker, or is a turn of the manager. A turn begins with the selected operation, and goes
on with feeding workers. -/
theorem Invariant.step_rule {system after : System n T} {event : SystemEvent n T}
    {Kept : System n T → Prop} (invariant : system.Invariant setups)
    (step : (gpuSystem n T setups).Step system event after)
    (quiet : ∀ later : System n T, later.manager = system.manager →
      later.workers = system.workers → Kept later)
    (finishes : ∀ (worker : Fin n) (result : Option (GpuWorkResult T)),
      (system.workers worker).stage = .computing result →
      Kept { system with
        workers := Function.update system.workers worker
          { system.workers worker with stage := .answering result } })
    (selects : ∀ (later : System n T) (op : SelectOp n) (candidates : List (Fin n)),
      event = .turn op candidates → (∀ worker, op ≠ .send worker) →
      Selected setups system op later → Kept later)
    (feeds : ∀ (before later : System n T) (worker : Fin n)
      (request : Option (GpuWorkRequest T)) (rest : List (GpuWorkRequest T)) (fed : Worker T),
      before.Invariant setups → (before.workers worker).stage = .waiting →
      Fed setups before later worker request rest fed → Kept before → Kept later)
    (checks : ∀ before : System n T, Kept before → Kept before.checkFinished) : Kept after := by
  cases event with
  | turn op candidates =>
    rcases invariant.turn_inversion step with ⟨middle, drained, selected, steps, rfl⟩
    have middleHolds : Kept middle := by
      by_cases sends : ∃ worker, op = .send worker
      · rcases sends with ⟨worker, rfl⟩
        cases selected with
        | send waiting isFed =>
          exact feeds system middle worker _ _ _ invariant waiting isFed (quiet _ rfl rfl)
      · push Not at sends
        exact selects middle op candidates rfl sends selected
    have middleInvariant := selected.invariant invariant step.1.1
    apply checks drained
    clear selected step
    induction steps with
    | refl => exact middleHolds
    | step waiting isFed _ ih =>
      exact ih (feeds _ _ _ _ _ _ middleInvariant waiting isFed middleHolds)
        (middleInvariant.fed isFed)
  | finish worker =>
    rcases finish_inversion step with ⟨result, computing, rfl⟩
    exact finishes worker result computing
  | exit worker =>
    rw [exit_inversion step]
    exact quiet _ rfl rfl
  | _ =>
    cases step.2
    exact quiet _ rfl rfl

theorem FedSteps.stage {system after : System n T} (steps : FedSteps setups system after)
    (worker : Fin n) : (after.workers worker).stage = (system.workers worker).stage ∨
      (system.workers worker).stage = .waiting ∧
        ∃ result, (after.workers worker).stage = .computing result := by
  induction steps with
  | refl => exact Or.inl rfl
  | @step system middle after fedWorker request rest fed waiting isFed _ ih =>
    rcases isFed.computing with ⟨result, computing⟩
    by_cases same : worker = fedWorker
    · subst same
      have atMiddle : (middle.workers worker).stage = .computing result := by
        simp [isFed.after_eq, computing]
      rcases ih with kept | ⟨stillWaiting, -⟩
      · exact Or.inr ⟨waiting, result, kept.trans atMiddle⟩
      · rw [atMiddle] at stillWaiting
        contradiction
    · have atMiddle : middle.workers worker = system.workers worker := by
        simp [isFed.after_eq, same]
      rw [atMiddle] at ih
      exact ih

section

variable {system after : System n T} {worker : Fin n}

variable {candidates : List (Fin n)}

theorem Invariant.stage_of_result (invariant : system.Invariant setups)
    (step : (gpuSystem n T setups).Step system (.turn (.result worker) candidates) after)
    (result : Option (GpuWorkResult T)) : (after.workers worker).stage ≠ .answering result := by
  rcases invariant.turn_inversion step with ⟨middle, drained, selected, steps, rfl⟩
  have waiting : (middle.workers worker).stage = .waiting := by cases selected <;> simp
  change (drained.workers worker).stage ≠ .answering result
  rcases steps.stage worker with kept | ⟨-, other, computing⟩
  · rw [kept, waiting]
    simp
  · rw [computing]
    simp

theorem Invariant.stage_of_send (invariant : system.Invariant setups)
    (step : (gpuSystem n T setups).Step system (.turn (.send worker) candidates) after) :
    (after.workers worker).stage ≠ .waiting := by
  rcases invariant.turn_inversion step with ⟨middle, drained, selected, steps, rfl⟩
  have fed : ∃ result, (middle.workers worker).stage = .computing result := by
    cases selected with
    | send waiting isFed =>
      rcases isFed.computing with ⟨result, computing⟩
      exact ⟨result, by simp [isFed.after_eq, computing]⟩
  rcases fed with ⟨result, computing⟩
  change (drained.workers worker).stage ≠ .waiting
  rcases steps.stage worker with kept | ⟨waiting, -⟩
  · rw [kept, computing]
    simp
  · rw [computing] at waiting
    contradiction

theorem stage_of_finish (step : (gpuSystem n T setups).Step system (.finish worker) after)
    (result : Option (GpuWorkResult T)) : (after.workers worker).stage ≠ .computing result := by
  rcases finish_inversion step with ⟨computed, -, rfl⟩
  simp

end

end System

def GpuWorkRequest.ofBatch (batchId : BatchId) (request : GpuWorkRequest T) : Bool :=
  decide (request.batchId = batchId)

def pipedFor (batchId : BatchId) (item : Option BatchId) : Bool := decide (item = some batchId)

namespace Manager

variable (manager : Manager n T)

variable (batchId : BatchId)

@[simp]
theorem completeBatch_workQueue :
    (manager.completeBatch batchId).workQueue = manager.workQueue := by
  unfold completeBatch
  split_ifs <;> rfl

@[simp]
theorem completeBatch_workerQueues :
    (manager.completeBatch batchId).workerQueues = manager.workerQueues := by
  unfold completeBatch
  split_ifs <;> rfl

theorem mem_completeBatch_of_ne {batchId other : BatchId} (different : batchId ≠ other) :
    (batchId ∈ (manager.completeBatch other).batchesToFlush ↔
        batchId ∈ manager.batchesToFlush) ∧
      (batchId ∈ (manager.completeBatch other).batchSenders ↔
        batchId ∈ manager.batchSenders) := by
  unfold completeBatch
  split_ifs <;> simp [different]

theorem flushing_completeBatch {batchId : BatchId} (flushing : batchId ∈ manager.batchesToFlush)
    (other : BatchId) :
    (batchId ∈ (manager.completeBatch other).batchesToFlush ∧
        (other = batchId → manager.Outstanding batchId)) ∨
      other = batchId ∧ ¬manager.Outstanding batchId ∧
        batchId ∉ (manager.completeBatch other).batchSenders := by
  by_cases same : other = batchId
  · subst same
    by_cases outstanding : manager.Outstanding other
    · left
      simp [completeBatch, outstanding, flushing]
    · right
      simp [completeBatch, outstanding, flushing]
  · left
    have stays := (manager.mem_completeBatch_of_ne (Ne.symm same)).1.mpr flushing
    exact ⟨stays, fun equal => absurd equal same⟩

theorem outstanding_iff : manager.Outstanding batchId ↔
    0 < depth (GpuWorkRequest.ofBatch batchId) manager.workQueue ∨
      ∃ worker, some batchId ∈ manager.workerQueues worker := by
  simp [Outstanding, depth_pos_iff, GpuWorkRequest.ofBatch]

end Manager

theorem mem_iff_depth_pos {batchId : BatchId} {queue : List (Option BatchId)} :
    some batchId ∈ queue ↔ 0 < depth (pipedFor batchId) queue := by
  simp [depth_pos_iff, pipedFor]

namespace System

variable {system after : System n T} {batchId : BatchId}

variable {op : SelectOp n} {carriers : Finset (Fin n)} {worker : Fin n} {event : SystemEvent n T}

theorem Selected.depth_workQueue (selected : Selected setups system op after)
    (invariant : system.Invariant setups) (notSend : ∀ worker, op ≠ .send worker)
    (flushing : batchId ∈ system.manager.batchesToFlush) :
    depth (GpuWorkRequest.ofBatch batchId) after.manager.workQueue =
      depth (GpuWorkRequest.ofBatch batchId) system.manager.workQueue := by
  cases selected with
  | @request other request requests receiving isRequest =>
    apply depth_append_singleton
    have ofOther := (invariant.produced other request (by simp [isRequest])).1
    have different : other ≠ batchId :=
      fun same => disjoint_left.mp invariant.flush_disjoint receiving (same ▸ flushing)
    simp [GpuWorkRequest.ofBatch, ofOther, different]
  | send => exact absurd rfl (notSend _)
  | result => simp
  | _ => rfl

structure Popped (system after : System n T) (worker : Fin n) (item : Option BatchId) : Prop where
  answering : ∃ result, (system.workers worker).stage = .answering result
  queue : system.manager.workerQueues worker = item :: after.manager.workerQueues worker
  waiting : (after.workers worker).stage = .waiting
  others : ∀ other, other ≠ worker →
    after.manager.workerQueues other = system.manager.workerQueues other ∧
      after.workers other = system.workers other

theorem Popped.mem_workerQueues {item : Option BatchId} (popped : Popped system after worker item)
    {carrier : Fin n} {other : Option BatchId}
    (member : other ∈ after.manager.workerQueues carrier) :
    other ∈ system.manager.workerQueues carrier := by
  by_cases same : carrier = worker
  · subst same
    rw [popped.queue]
    exact List.mem_cons_of_mem _ member
  · rw [← (popped.others carrier same).1]
    exact member

theorem Selected.flushing (selected : Selected setups system op after)
    (notSend : ∀ worker, op ≠ .send worker) (flushing : batchId ∈ system.manager.batchesToFlush) :
    batchId ∈ after.manager.batchesToFlush ∧
        after.manager.workerQueues = system.manager.workerQueues ∧
        after.workers = system.workers ∨
      ∃ worker item, Popped system after worker item ∧
        (batchId ∈ after.manager.batchesToFlush ∧
            (item = some batchId → after.manager.Outstanding batchId) ∨
          item = some batchId ∧ ¬after.manager.Outstanding batchId ∧
            batchId ∉ after.manager.batchSenders ∧ after.batches = system.batches) := by
  cases selected with
  | requestsDisconnected => exact Or.inl ⟨mem_insert_of_mem flushing, rfl, rfl⟩
  | noResult answering isQueue =>
    refine Or.inr ⟨_, none, ⟨⟨_, answering⟩, ?_, ?_, ?_⟩, Or.inl ⟨flushing, nofun⟩⟩
    · simpa using isQueue
    · simp
    · intro other different
      simp [different]
  | @result worker result queue answering isQueue live =>
    refine Or.inr ⟨worker, some result.batchId, ⟨⟨_, answering⟩, ?_, ?_, ?_⟩, ?_⟩
    · simpa using isQueue
    · simp
    · intro other different
      simp [different]
    · have completes := Manager.flushing_completeBatch { system.manager with
        workerQueues := Function.update system.manager.workerQueues worker queue }
        flushing result.batchId
      rcases completes with ⟨stays, outstanding⟩ | ⟨same, complete, gone⟩
      · refine Or.inl ⟨stays, fun isItem => ?_⟩
        simpa [Manager.outstanding_iff] using outstanding (Option.some.inj isItem)
      · refine Or.inr ⟨congrArg some same, ?_, gone, rfl⟩
        simpa [Manager.outstanding_iff] using complete
  | send => exact absurd rfl (notSend _)
  | _ => exact Or.inl ⟨flushing, rfl, rfl⟩

theorem Invariant.running (invariant : system.Invariant setups)
    (live : batchId ∈ system.manager.batchSenders) : system.finished = false := by
  cases isFinished : system.finished with
  | false => rfl
  | true =>
    rw [(invariant.stopped isFinished).2] at live
    exact absurd live (notMem_empty batchId)

section

variable {worker : Fin n} {request : Option (GpuWorkRequest T)}
  {rest : List (GpuWorkRequest T)} {fed : Worker T}

variable (isFed : Fed setups system after worker request rest fed)

include isFed

theorem Fed.mem_workerQueues
    {other : Fin n} {item : Option BatchId} (member : item ∈ system.manager.workerQueues other) :
    item ∈ after.manager.workerQueues other := by
  rw [isFed.after_eq]
  by_cases same : other = worker
  · subst same
    simp [member]
  · simpa [same] using member

theorem Fed.depth_of_pos
    (positive : 0 < depth (GpuWorkRequest.ofBatch batchId) system.manager.workQueue) :
    depth (GpuWorkRequest.ofBatch batchId) system.manager.workQueue =
        depth (GpuWorkRequest.ofBatch batchId) after.manager.workQueue + 1 ∧
      (depth (GpuWorkRequest.ofBatch batchId) after.manager.workQueue = 0 →
        some batchId ∈ after.manager.workerQueues worker) := by
  have isRest : after.manager.workQueue = rest := by rw [isFed.after_eq]
  have isQueue := isFed.queue
  cases request with
  | none =>
    rw [(isFed.moved rfl).1] at positive
    exact absurd positive (by simp [depth])
  | some request =>
    simp only [Option.toList_some, List.singleton_append] at isQueue
    rw [isQueue] at positive
    rw [isQueue, isRest]
    refine ⟨depth_cons positive, ?_⟩
    intro last
    rcases depth_pos_iff.mp positive with ⟨item, member, property⟩
    rcases List.mem_cons.mp member with rfl | later
    · have isBatch : item.batchId = batchId := by simpa [GpuWorkRequest.ofBatch] using property
      simp [isFed.after_eq, isBatch]
    · have again := depth_pos_iff.mpr ⟨item, later, property⟩
      omega

theorem Fed.depth_of_zero
    (zero : depth (GpuWorkRequest.ofBatch batchId) system.manager.workQueue = 0) :
    depth (GpuWorkRequest.ofBatch batchId) after.manager.workQueue = 0 ∧
      ∀ other, depth (pipedFor batchId) (after.manager.workerQueues other) =
        depth (pipedFor batchId) (system.manager.workerQueues other) := by
  have isRest : after.manager.workQueue = rest := by rw [isFed.after_eq]
  have none_queued : ∀ work ∈ system.manager.workQueue, work.batchId ≠ batchId := by
    intro work queued same
    have positive := depth_pos_iff.mpr
      ⟨work, queued, show GpuWorkRequest.ofBatch batchId work = true by
        simp [GpuWorkRequest.ofBatch, same]⟩
    omega
  rw [isFed.queue] at none_queued
  constructor
  · rw [isRest]
    by_contra nonzero
    rcases depth_pos_iff.mp (Nat.pos_of_ne_zero nonzero) with ⟨work, queued, property⟩
    apply none_queued work (List.mem_append_right _ queued)
    simpa [GpuWorkRequest.ofBatch] using property
  · intro other
    rw [isFed.after_eq]
    by_cases same : other = worker
    · subst same
      simp only [Function.update_self]
      apply depth_append_singleton
      cases request with
      | none => simp [pipedFor]
      | some work => simp [pipedFor, none_queued work (by simp)]
    · simp [same]

theorem Fed.stage :
    (∃ result, (after.workers worker).stage = .computing result) ∧
      ∀ other, other ≠ worker → (after.workers other).stage = (system.workers other).stage := by
  rcases isFed.computing with ⟨result, computing⟩
  constructor
  · exact ⟨result, by simp [isFed.after_eq, computing]⟩
  · intro other different
    simp [isFed.after_eq, different]

theorem Fed.flushing :
    after.manager.batchesToFlush = system.manager.batchesToFlush ∧
      after.manager.batchSenders = system.manager.batchSenders ∧
      after.batches = system.batches := by
  rw [isFed.after_eq]
  exact ⟨rfl, rfl, rfl⟩

end

structure Queued (batchId : BatchId) (system : System n T) : Prop where
  flushing : batchId ∈ system.manager.batchesToFlush
  queued : 0 < depth (GpuWorkRequest.ofBatch batchId) system.manager.workQueue

/-- A batch to flush whose last requests are in the pipelines of some workers. -/
structure Piped (batchId : BatchId) (carriers : Finset (Fin n)) (system : System n T) : Prop where
  flushing : batchId ∈ system.manager.batchesToFlush
  handed : depth (GpuWorkRequest.ofBatch batchId) system.manager.workQueue = 0
  carried : ∃ worker, some batchId ∈ system.manager.workerQueues worker
  within : ∀ worker, some batchId ∈ system.manager.workerQueues worker → worker ∈ carriers

def MovesOn (rank : System n T → ℕ) (worker : Fin n) (system after : System n T) : Prop :=
  rank after < rank system ∨
    rank after = rank system ∧ (after.workers worker).stage = (system.workers worker).stage

def sendingRank (batchId : BatchId) (worker : Fin n) (system : System n T) : ℕ :=
  3 * depth (GpuWorkRequest.ofBatch batchId) system.manager.workQueue +
    match (system.workers worker).stage with
    | .waiting => 0
    | .answering _ => 1
    | .computing _ => 2

theorem Piped.of_manager (piped : Piped batchId carriers system)
    (same : after.manager = system.manager) : Piped batchId carriers after :=
  ⟨same ▸ piped.flushing, same ▸ piped.handed, same ▸ piped.carried, same ▸ piped.within⟩

theorem Fed.piped {request : Option (GpuWorkRequest T)} {rest : List (GpuWorkRequest T)}
    {fed : Worker T} (isFed : Fed setups system after worker request rest fed)
    (piped : Piped batchId carriers system) : Piped batchId carriers after := by
  have kept := isFed.depth_of_zero piped.handed
  rcases piped.carried with ⟨carrier, member⟩
  refine ⟨isFed.flushing.1 ▸ piped.flushing, kept.1, ⟨carrier, isFed.mem_workerQueues member⟩, ?_⟩
  intro other isMember
  rw [mem_iff_depth_pos, kept.2 other, ← mem_iff_depth_pos] at isMember
  exact piped.within other isMember

/-- As long as requests of the batch are in the queue, every move of a worker lowers its rank. -/
theorem Invariant.queued_step (invariant : system.Invariant setups)
    (step : (gpuSystem n T setups).Step system event after) (queued : Queued batchId system)
    (worker : Fin n) : Piped batchId Finset.univ after ∨
      Queued batchId after ∧ MovesOn (sendingRank batchId worker) worker system after := by
  apply invariant.step_rule step
  case quiet =>
    intro later sameManager sameWorkers
    refine Or.inr ⟨⟨sameManager ▸ queued.flushing, sameManager ▸ queued.queued⟩, Or.inr ⟨?_, ?_⟩⟩
    · rw [sendingRank, sendingRank, sameManager, sameWorkers]
    · rw [sameWorkers]
  case finishes =>
    intro other result computing
    refine Or.inr ⟨⟨queued.flushing, queued.queued⟩, ?_⟩
    by_cases same : worker = other
    · subst same
      left
      simp [sendingRank, computing]
    · right
      simp [sendingRank, same]
  case selects =>
    intro later op candidates isTurn notSend selected
    have sameDepth := selected.depth_workQueue invariant notSend queued.flushing
    have stillQueued : 0 < depth (GpuWorkRequest.ofBatch batchId) later.manager.workQueue := by
      rw [sameDepth]
      exact queued.queued
    rcases selected.flushing notSend queued.flushing with
      ⟨flushing, -, sameWorkers⟩ | ⟨other, item, popped, ⟨flushing, -⟩ | ⟨-, complete, -⟩⟩
    · refine Or.inr ⟨⟨flushing, stillQueued⟩, Or.inr ?_⟩
      simp [sendingRank, sameDepth, sameWorkers]
    · refine Or.inr ⟨⟨flushing, stillQueued⟩, ?_⟩
      by_cases same : worker = other
      · subst same
        rcases popped.answering with ⟨result, answering⟩
        left
        simp [sendingRank, sameDepth, answering, popped.waiting]
      · right
        simp [sendingRank, sameDepth, (popped.others worker same).2]
    · exact absurd ((later.manager.outstanding_iff batchId).mpr (Or.inl stillQueued)) complete
  case feeds =>
    intro before later other request rest fed _ waiting isFed kept
    rcases kept with piped | ⟨stillQueued, rank⟩
    · exact Or.inl (isFed.piped piped)
    · have flushing : batchId ∈ later.manager.batchesToFlush :=
        isFed.flushing.1 ▸ stillQueued.flushing
      rcases isFed.depth_of_pos stillQueued.queued with ⟨falls, last⟩
      by_cases empty : depth (GpuWorkRequest.ofBatch batchId) later.manager.workQueue = 0
      · exact Or.inl ⟨flushing, empty, ⟨other, last empty⟩, fun _ _ => mem_univ _⟩
      · refine Or.inr ⟨⟨flushing, Nat.pos_of_ne_zero empty⟩, Or.inl ?_⟩
        have lower : sendingRank batchId worker later < sendingRank batchId worker before := by
          by_cases same : worker = other
          · subst same
            rcases isFed.stage.1 with ⟨result, computing⟩
            simp only [sendingRank, computing, waiting]
            omega
          · simp only [sendingRank, isFed.stage.2 worker same]
            omega
        rcases rank with before' | ⟨before', -⟩ <;> omega
  case checks =>
    intro before kept
    rcases kept with piped | ⟨stillQueued, rank⟩
    · exact Or.inl (piped.of_manager rfl)
    · exact Or.inr ⟨⟨stillQueued.flushing, stillQueued.queued⟩, rank⟩

def Gone (batchId : BatchId) (system : System n T) : Prop :=
  batchId ∉ system.manager.batchSenders ∧ batchId ∉ system.batches

def flushingRank (batchId : BatchId) (worker : Fin n) (system : System n T) : ℕ :=
  3 * depth (pipedFor batchId) (system.manager.workerQueues worker) +
    match (system.workers worker).stage with
    | .waiting => 2
    | .computing _ => 1
    | .answering _ => 0

/-- The pipeline of a worker that carries the last requests of a batch is moved on, until the
worker does not carry any. -/
theorem Invariant.piped_step (invariant : system.Invariant setups)
    (step : (gpuSystem n T setups).Step system event after) (piped : Piped batchId carriers system)
    (carried : some batchId ∈ system.manager.workerQueues worker) :
    (Gone batchId after ∨ Piped batchId (carriers.erase worker) after) ∨
      (Piped batchId carriers after ∧ some batchId ∈ after.manager.workerQueues worker) ∧
        MovesOn (flushingRank batchId worker) worker system after := by
  apply invariant.step_rule step
  case quiet =>
    intro later sameManager sameWorkers
    refine Or.inr ⟨⟨piped.of_manager sameManager, ?_⟩, Or.inr ⟨?_, ?_⟩⟩
    · rw [sameManager]
      exact carried
    · rw [flushingRank, flushingRank, sameManager, sameWorkers]
    · rw [sameWorkers]
  case finishes =>
    intro other result computing
    refine Or.inr ⟨⟨piped.of_manager rfl, carried⟩, ?_⟩
    by_cases same : worker = other
    · subst same
      left
      simp [flushingRank, computing]
    · right
      simp [flushingRank, same]
  case selects =>
    intro later op candidates isTurn notSend selected
    have handed : depth (GpuWorkRequest.ofBatch batchId) later.manager.workQueue = 0 := by
      rw [selected.depth_workQueue invariant notSend piped.flushing]
      exact piped.handed
    rcases selected.flushing notSend piped.flushing with
      ⟨flushing, sameQueues, sameWorkers⟩ |
        ⟨other, item, popped, ⟨flushing, outstanding⟩ | ⟨-, complete, gone, sameBatches⟩⟩
    · refine Or.inr ⟨⟨⟨flushing, handed, ?_, ?_⟩, ?_⟩, Or.inr ?_⟩
      · rw [sameQueues]
        exact piped.carried
      · rw [sameQueues]
        exact piped.within
      · rw [sameQueues]
        exact carried
      · simp [flushingRank, sameQueues, sameWorkers]
    · have within : ∀ carrier, some batchId ∈ later.manager.workerQueues carrier →
          carrier ∈ carriers :=
        fun carrier member => piped.within carrier (popped.mem_workerQueues member)
      by_cases same : worker = other
      · subst same
        rw [popped.queue, mem_iff_depth_pos] at carried
        have falls := depth_cons carried
        by_cases last : depth (pipedFor batchId) (later.manager.workerQueues worker) = 0
        · have leaves : some batchId ∉ later.manager.workerQueues worker := by
            rw [mem_iff_depth_pos]
            omega
          have isItem : item = some batchId := by
            rcases List.mem_cons.mp (mem_iff_depth_pos.mpr carried) with first | later
            · exact first.symm
            · exact absurd later leaves
          have elsewhere := (later.manager.outstanding_iff batchId).mp (outstanding isItem)
          left
          right
          refine ⟨flushing, handed, elsewhere.resolve_left (by omega), ?_⟩
          intro carrier member
          refine mem_erase.mpr ⟨?_, within carrier member⟩
          intro equal
          exact leaves (equal ▸ member)
        · have stays := mem_iff_depth_pos.mpr (Nat.pos_of_ne_zero last)
          rcases popped.answering with ⟨result, answering⟩
          refine Or.inr ⟨⟨⟨flushing, handed, ⟨worker, stays⟩, within⟩, stays⟩, Or.inl ?_⟩
          simp only [flushingRank, popped.queue, falls, popped.waiting, answering]
          omega
      · rcases popped.others worker same with ⟨sameQueue, sameWorker⟩
        have stays : some batchId ∈ later.manager.workerQueues worker := by
          rw [sameQueue]
          exact carried
        refine Or.inr ⟨⟨⟨flushing, handed, ⟨worker, stays⟩, within⟩, stays⟩, Or.inr ?_⟩
        simp [flushingRank, sameQueue, sameWorker]
    · left
      left
      refine ⟨gone, ?_⟩
      rw [sameBatches]
      exact fun announced =>
        invariant.announced batchId announced (invariant.flush_subset piped.flushing)
  case feeds =>
    intro before later other request rest fed _ waiting isFed kept
    rcases kept with (⟨noSender, notAnnounced⟩ | elsewhere) | ⟨⟨stillPiped, stillCarried⟩, rank⟩
    · left
      left
      refine ⟨?_, ?_⟩
      · rw [isFed.flushing.2.1]
        exact noSender
      · rw [isFed.flushing.2.2]
        exact notAnnounced
    · exact Or.inl (Or.inr (isFed.piped elsewhere))
    · refine Or.inr ⟨⟨isFed.piped stillPiped, isFed.mem_workerQueues stillCarried⟩, ?_⟩
      have sameDepth := (isFed.depth_of_zero stillPiped.handed).2 worker
      by_cases same : worker = other
      · subst same
        rcases isFed.stage.1 with ⟨result, computing⟩
        have lower : flushingRank batchId worker later < flushingRank batchId worker before := by
          simp [flushingRank, sameDepth, computing, waiting]
        left
        rcases rank with before' | ⟨before', -⟩ <;> omega
      · have sameStage := isFed.stage.2 worker same
        have sameRank : flushingRank batchId worker later =
            flushingRank batchId worker before := by
          simp [flushingRank, sameDepth, sameStage]
        rw [MovesOn, sameRank, sameStage]
        exact rank
  case checks =>
    intro before kept
    rcases kept with (gone | elsewhere) | ⟨⟨stillPiped, stillCarried⟩, rank⟩
    · exact Or.inl (Or.inl gone)
    · exact Or.inl (Or.inr (elsewhere.of_manager rfl))
    · exact Or.inr ⟨⟨stillPiped.of_manager rfl, stillCarried⟩, rank⟩

theorem Fed.outstanding {request : Option (GpuWorkRequest T)} {rest : List (GpuWorkRequest T)}
    {fed : Worker T} (isFed : Fed setups system after worker request rest fed) :
    after.manager.Outstanding batchId ↔ system.manager.Outstanding batchId := by
  rw [Manager.outstanding_iff, Manager.outstanding_iff]
  by_cases queued : depth (GpuWorkRequest.ofBatch batchId) system.manager.workQueue = 0
  · rcases isFed.depth_of_zero queued with ⟨empty, sameDepth⟩
    simp [queued, empty, mem_iff_depth_pos, sameDepth]
  · have positive := Nat.pos_of_ne_zero queued
    rcases isFed.depth_of_pos positive with ⟨falls, last⟩
    constructor
    · intro
      exact Or.inl positive
    · intro
      by_cases empty : depth (GpuWorkRequest.ofBatch batchId) after.manager.workQueue = 0
      · exact Or.inr ⟨worker, last empty⟩
      · exact Or.inl (Nat.pos_of_ne_zero empty)

/-- Only a result of the batch itself can leave a batch to flush without work, and then the batch
is completed. -/
theorem Selected.outstanding (selected : Selected setups system op after)
    (invariant : system.Invariant setups) (notSend : ∀ worker, op ≠ .send worker)
    (flushing : batchId ∈ system.manager.batchesToFlush)
    (stays : batchId ∈ after.manager.batchesToFlush) :
    after.manager.Outstanding batchId ↔ system.manager.Outstanding batchId := by
  have sameDepth := selected.depth_workQueue invariant notSend flushing
  rw [Manager.outstanding_iff, Manager.outstanding_iff, sameDepth]
  rcases selected.flushing notSend flushing with
    ⟨-, sameQueues, -⟩ | ⟨worker, item, popped, ⟨-, outstanding⟩ | ⟨-, -, gone, -⟩⟩
  · rw [sameQueues]
  · rw [Manager.outstanding_iff, sameDepth] at outstanding
    constructor
    · intro work
      rcases work with queued | ⟨carrier, member⟩
      · exact Or.inl queued
      · exact Or.inr ⟨carrier, popped.mem_workerQueues member⟩
    · intro work
      rcases work with queued | ⟨carrier, member⟩
      · exact Or.inl queued
      · by_cases same : carrier = worker
        · subst same
          rw [popped.queue, List.mem_cons] at member
          rcases member with first | later
          · exact outstanding first.symm
          · exact Or.inr ⟨carrier, later⟩
        · rw [← (popped.others carrier same).1] at member
          exact Or.inr ⟨carrier, member⟩
  · have running := invariant.running (invariant.flush_subset flushing)
    exact absurd ((selected.invariant invariant running).flush_subset stays) gone

theorem Selected.requestsDisconnected_of_flushing (selected : Selected setups system op after)
    (notSend : ∀ worker, op ≠ .send worker) (notFlushing : batchId ∉ system.manager.batchesToFlush)
    (flushing : batchId ∈ after.manager.batchesToFlush) :
    op = .requestsDisconnected batchId ∧
      (after.manager.Outstanding batchId ↔ system.manager.Outstanding batchId) := by
  cases selected with
  | @requestsDisconnected other receiving empty closed =>
    rcases mem_insert.mp flushing with rfl | before
    · exact ⟨rfl, Iff.rfl⟩
    · exact absurd before notFlushing
  | @result worker result queue answering isQueue live =>
    simp only [Manager.completeBatch] at flushing
    split_ifs at flushing
    · exact absurd (mem_of_mem_erase flushing) notFlushing
    · exact absurd flushing notFlushing
  | send => exact absurd rfl (notSend _)
  | _ => exact absurd flushing notFlushing

/-- Batches to flush have work, provided that they have it when their channel is seen closed. -/
theorem Invariant.outstanding_step (invariant : system.Invariant setups)
    (step : (gpuSystem n T setups).Step system event after)
    (closes : ∀ candidates, event = .turn (.requestsDisconnected batchId) candidates →
      system.manager.Outstanding batchId) (outstanding : batchId ∈ system.manager.batchesToFlush →
      system.manager.Outstanding batchId) :
    batchId ∈ after.manager.batchesToFlush → after.manager.Outstanding batchId := by
  apply invariant.step_rule step
  case quiet =>
    intro later sameManager _
    rw [sameManager]
    exact outstanding
  case finishes =>
    intro _ _ _
    exact outstanding
  case selects =>
    intro later op candidates isTurn notSend selected flushing
    by_cases before : batchId ∈ system.manager.batchesToFlush
    · rw [selected.outstanding invariant notSend before flushing]
      exact outstanding before
    · rcases selected.requestsDisconnected_of_flushing notSend before flushing with ⟨rfl, same⟩
      rw [same]
      exact closes candidates isTurn
  case feeds =>
    intro before later worker request rest fed _ _ isFed kept flushing
    rw [isFed.flushing.1] at flushing
    rw [isFed.outstanding]
    exact kept flushing
  case checks =>
    intro before kept
    exact kept

theorem Invariant.stuck_step (invariant : system.Invariant setups)
    (step : (gpuSystem n T setups).Step system event after)
    (flushing : batchId ∈ system.manager.batchesToFlush)
    (idle : ¬system.manager.Outstanding batchId) :
    batchId ∈ after.manager.batchesToFlush ∧ ¬after.manager.Outstanding batchId := by
  apply invariant.step_rule step
  case quiet =>
    intro later sameManager _
    rw [sameManager]
    exact ⟨flushing, idle⟩
  case finishes =>
    intro _ _ _
    exact ⟨flushing, idle⟩
  case selects =>
    intro later op candidates isTurn notSend selected
    have stays : batchId ∈ later.manager.batchesToFlush := by
      rcases selected.flushing notSend flushing with
        ⟨stays, -⟩ | ⟨worker, item, popped, ⟨stays, -⟩ | ⟨rfl, -⟩⟩
      · exact stays
      · exact stays
      · exact absurd (Or.inr ⟨worker, by simp [popped.queue]⟩) idle
    rw [selected.outstanding invariant notSend flushing stays]
    exact ⟨stays, idle⟩
  case feeds =>
    intro before later worker request rest fed _ _ isFed kept
    rw [isFed.flushing.1, isFed.outstanding]
    exact kept
  case checks =>
    intro before kept
    exact kept

structure Intake (T : Type) where
  batches : List BatchId
  batchesClosed : Bool
  requests : BatchId → List (GpuWorkRequest T)
  requestsClosed : BatchId → Bool
  batchesReceiver : Bool
  batchReceivers : Finset BatchId
  batchSenders : Finset BatchId
  batchesToFlush : Finset BatchId

def intake (system : System n T) : Intake T where
  batches := system.batches
  batchesClosed := system.batchesClosed
  requests := system.requests
  requestsClosed := system.requestsClosed
  batchesReceiver := system.manager.batchesReceiver
  batchReceivers := system.manager.batchReceivers
  batchSenders := system.manager.batchSenders
  batchesToFlush := system.manager.batchesToFlush

theorem FedSteps.intake {system after : System n T} (steps : FedSteps setups system after) :
    after.intake = system.intake := by
  induction steps with
  | refl => rfl
  | step _ isFed _ ih =>
    rw [ih, isFed.after_eq]
    rfl

theorem FedSteps.outstanding {system after : System n T} (steps : FedSteps setups system after) :
    after.manager.Outstanding batchId ↔ system.manager.Outstanding batchId := by
  induction steps with
  | refl => exact Iff.rfl
  | step _ isFed _ ih => exact ih.trans isFed.outstanding

theorem Invariant.disconnected_step (invariant : system.Invariant setups)
    {candidates : List (Fin n)}
    (step : (gpuSystem n T setups).Step system
      (.turn (.requestsDisconnected batchId) candidates) after) :
    batchId ∈ after.manager.batchesToFlush ∧
      (after.manager.Outstanding batchId ↔ system.manager.Outstanding batchId) := by
  rcases invariant.turn_inversion step with ⟨middle, drained, selected, steps, rfl⟩
  have sameFlush := congrArg Intake.batchesToFlush steps.intake
  cases selected with
  | requestsDisconnected receiving empty closed =>
    constructor
    · change batchId ∈ drained.intake.batchesToFlush
      rw [sameFlush]
      exact mem_insert_self _ _
    · exact steps.outstanding

/-- What the steps of the system do to batches on their way to the manager. -/
inductive IntakeStep (setups : CachedSetups) (system : System n T) :
    SystemEvent n T → Intake T → Prop where
  | announce {batchId : BatchId} (notClosed : system.batchesClosed = false)
      (fresh : batchId ∉ system.batches)
      (notLive : batchId ∉ system.manager.batchSenders) :
      IntakeStep setups system (.announce batchId) { system.intake with
        batches := system.batches ++ [batchId]
        requests := Function.update system.requests batchId []
        requestsClosed := Function.update system.requestsClosed batchId false }
  | closeBatches :
      IntakeStep setups system .closeBatches { system.intake with batchesClosed := true }
  | produce {batchId : BatchId} {request : GpuWorkRequest T}
      (notClosed : system.requestsClosed batchId = false) :
      IntakeStep setups system (.produce batchId request) { system.intake with
        requests := Function.update system.requests batchId (system.requests batchId ++ [request]) }
  | closeRequests {batchId : BatchId} :
      IntakeStep setups system (.closeRequests batchId) { system.intake with
        requestsClosed := Function.update system.requestsClosed batchId true }
  | turn {op : SelectOp n} {candidates : List (Fin n)} {middle : System n T}
      (selected : Selected setups system op middle) :
      IntakeStep setups system (.turn op candidates) middle.intake
  | finish {worker : Fin n} : IntakeStep setups system (.finish worker) system.intake
  | exit {worker : Fin n} : IntakeStep setups system (.exit worker) system.intake

theorem Invariant.intakeStep (invariant : system.Invariant setups)
    (step : (gpuSystem n T setups).Step system event after) :
    IntakeStep setups system event after.intake := by
  cases event with
  | turn op candidates =>
    rcases invariant.turn_inversion step with ⟨middle, drained, selected, steps, rfl⟩
    have same : drained.checkFinished.intake = middle.intake := steps.intake
    rw [same]
    exact .turn selected
  | announce batchId =>
    rcases step with ⟨⟨notClosed, fresh, notLive⟩, performed⟩
    cases performed
    exact .announce notClosed fresh notLive
  | closeBatches =>
    cases step.2
    exact .closeBatches
  | produce batchId request =>
    rcases step with ⟨⟨⟨-, notClosed⟩, -⟩, performed⟩
    cases performed
    exact .produce notClosed
  | closeRequests batchId =>
    cases step.2
    exact .closeRequests
  | finish worker =>
    rcases finish_inversion step with ⟨result, -, rfl⟩
    exact .finish
  | exit worker =>
    rw [exit_inversion step]
    exact .exit

structure Announced (batchId : BatchId) (intake : Intake T) : Prop where
  announced : batchId ∈ intake.batches
  closed : intake.requestsClosed batchId = true

/-- A batch from which the manager receives the last requests. -/
structure Receiving (batchId : BatchId) (intake : Intake T) : Prop where
  receiving : batchId ∈ intake.batchReceivers
  closed : intake.requestsClosed batchId = true

variable {event : SystemEvent n T} {intake : Intake T}

variable (step : IntakeStep setups system event intake)

include step

theorem IntakeStep.announced (announced : Announced batchId system.intake) :
    Announced batchId intake ∧
        intake.batches.idxOf batchId ≤ system.intake.batches.idxOf batchId ∧
        ((∃ candidates, event = .turn .batch candidates) →
          intake.batches.idxOf batchId < system.intake.batches.idxOf batchId) ∨
      Receiving batchId intake := by
  rcases announced with ⟨member, closed⟩
  cases step with
  | @announce other _ fresh _ =>
    have different : batchId ≠ other := fun same => fresh (same ▸ member)
    refine Or.inl ⟨⟨List.mem_append_left _ member, ?_⟩, ?_, nofun⟩
    · simpa [different, System.intake] using closed
    · exact (List.idxOf_append_of_mem member).le
  | closeRequests =>
    refine Or.inl ⟨⟨member, ?_⟩, Nat.le_refl _, nofun⟩
    simp only [Function.update_apply]
    split_ifs
    · rfl
    · exact closed
  | turn selected =>
    cases selected with
    | @batch other batches isBatch =>
      by_cases same : other = batchId
      · subst same
        exact Or.inr ⟨mem_insert_self _ _, closed⟩
      · have later : batchId ∈ batches := by
          change batchId ∈ system.batches at member
          rw [isBatch, List.mem_cons] at member
          exact member.resolve_left (fun equal => same equal.symm)
        have falls : batches.idxOf batchId < system.intake.batches.idxOf batchId := by
          change _ < system.batches.idxOf batchId
          rw [isBatch, List.idxOf_cons_ne _ same]
          exact Nat.lt_succ_self _
        exact Or.inl ⟨⟨later, closed⟩, falls.le, fun _ => falls⟩
    | send waiting isFed =>
      rw [isFed.after_eq]
      exact Or.inl ⟨⟨member, closed⟩, Nat.le_refl _, by simp⟩
    | _ => exact Or.inl ⟨⟨member, closed⟩, Nat.le_refl _, by simp⟩
  | _ => exact Or.inl ⟨⟨member, closed⟩, Nat.le_refl _, by simp⟩

theorem IntakeStep.receiving
    (invariant : system.Invariant setups) (receiving : Receiving batchId system.intake) :
    Receiving batchId intake ∧
        (intake.requests batchId).length ≤ (system.intake.requests batchId).length ∧
        ((∃ candidates, event = .turn (.request batchId) candidates) →
          (intake.requests batchId).length < (system.intake.requests batchId).length) ∧
        (∀ candidates, event ≠ .turn (.requestsDisconnected batchId) candidates) ∨
      batchId ∈ intake.batchesToFlush := by
  rcases receiving with ⟨member, closed⟩
  cases step with
  | @announce other _ _ notLive =>
    have different : batchId ≠ other :=
      fun same => notLive (same ▸ invariant.receivers_subset member)
    refine Or.inl ⟨⟨member, ?_⟩, ?_, nofun, nofun⟩
    · simpa [different, System.intake] using closed
    · simp [different, System.intake]
  | @produce other request notClosed =>
    have different : batchId ≠ other := by
      intro same
      subst same
      change system.requestsClosed batchId = true at closed
      rw [notClosed] at closed
      contradiction
    refine Or.inl ⟨⟨member, closed⟩, ?_, nofun, nofun⟩
    simp [different, System.intake]
  | closeRequests =>
    refine Or.inl ⟨⟨member, ?_⟩, Nat.le_refl _, nofun, nofun⟩
    simp only [Function.update_apply]
    split_ifs
    · rfl
    · exact closed
  | turn selected =>
    cases selected with
    | batch => exact Or.inl ⟨⟨mem_insert_of_mem member, closed⟩, Nat.le_refl _, by simp, by simp⟩
    | @request other request requests receiving isRequest =>
      left
      by_cases same : batchId = other
      · subst same
        have falls : requests.length < (system.intake.requests batchId).length := by
          change _ < (system.requests batchId).length
          simp [isRequest]
        refine ⟨⟨member, closed⟩, ?_, ?_, by simp⟩
        · simpa [System.intake] using falls.le
        · simpa [System.intake] using falls
      · refine ⟨⟨member, closed⟩, ?_, ?_, by simp⟩
        · simp [System.intake, same]
        · simp [Ne.symm same]
    | @requestsDisconnected other receiving empty otherClosed =>
      by_cases same : batchId = other
      · subst same
        exact Or.inr (mem_insert_self _ _)
      · refine Or.inl ⟨⟨mem_erase.mpr ⟨same, member⟩, closed⟩, Nat.le_refl _,
          by simp, ?_⟩
        simp [Ne.symm same]
    | @result worker result queue answering isQueue live =>
      refine Or.inl ⟨⟨?_, closed⟩, Nat.le_refl _, by simp, by simp⟩
      simp only [System.intake, Manager.completeBatch]
      split_ifs <;> exact member
    | send waiting isFed =>
      rw [isFed.after_eq]
      exact Or.inl ⟨⟨member, closed⟩, Nat.le_refl _, by simp, by simp⟩
    | _ => exact Or.inl ⟨⟨member, closed⟩, Nat.le_refl _, by simp, by simp⟩
  | _ => exact Or.inl ⟨⟨member, closed⟩, Nat.le_refl _, by simp, by simp⟩

theorem IntakeStep.closed (closed : system.batchesClosed = true) :
    intake.batchesClosed = true ∧
      ∀ batchId, batchId ∈ intake.batches ∨ batchId ∈ intake.batchSenders →
        batchId ∈ system.batches ∨ batchId ∈ system.manager.batchSenders := by
  cases step with
  | announce notClosed =>
    rw [closed] at notClosed
    contradiction
  | closeBatches => exact ⟨rfl, fun _ live => live⟩
  | turn selected =>
    cases selected with
    | @batch other batches isBatch =>
      refine ⟨closed, ?_⟩
      intro batchId live
      rcases live with later | sender
      · exact Or.inl (by simp [isBatch, show batchId ∈ batches from later])
      · rcases mem_insert.mp sender with rfl | before
        · exact Or.inl (by simp [isBatch])
        · exact Or.inr before
    | @result worker result queue answering isQueue live =>
      refine ⟨closed, ?_⟩
      intro batchId live
      refine live.imp id ?_
      simp only [System.intake, Manager.completeBatch]
      split_ifs
      · exact mem_of_mem_erase
      · exact id
    | send waiting isFed =>
      rw [isFed.after_eq]
      exact ⟨closed, fun _ live => live⟩
    | _ => exact ⟨closed, fun _ live => live⟩
  | _ => exact ⟨closed, fun _ live => live⟩

end System

end Airbender.Execution

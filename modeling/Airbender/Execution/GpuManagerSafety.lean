import Airbender.Execution.GpuManager

/-!
# Safety of the GPU manager

The queues of the manager mirror the pipelines, and every batch with work has a sender for its
results. So no check fails, requests and results are neither lost nor duplicated, and the manager
stops with empty pipelines.
-/

namespace Airbender.Execution

open Option Function Finset

variable {n : ℕ} {T : Type} {setups : CachedSetups}

def WorkerStage.offered : WorkerStage T → List (Option (GpuWorkResult T))
  | waiting => []
  | computing result => [result]
  | answering result => [result]

namespace Worker

/-- What comes out of a worker with the next results, the next one first. -/
def slots (worker : Worker T) : List (Option (GpuWorkResult T)) :=
  worker.stage.offered ++
    [worker.currentPhaseTwo.map fun job => job.1.result,
      worker.currentPhaseOne.map fun transfer => transfer.1.result]

def inFlight (worker : Worker T) : List (GpuWorkResult T) := worker.slots.reduceOption

structure WellFormed (setups : CachedSetups) (worker : Worker T) : Prop where
  cached : ∀ transfer ∈ worker.currentPhaseOne, transfer.1.precomputations ∈ setups.list
  transferred : ∀ transfer ∈ worker.currentPhaseOne, transfer.1.kind = .proof →
    transfer.2.isSome = true
  started : ∀ job ∈ worker.currentPhaseTwo, job.2 = job.1.kind

theorem WellFormed.atStage {worker : Worker T} (wellFormed : worker.WellFormed setups)
    (stage : WorkerStage T) : { worker with stage }.WellFormed setups :=
  ⟨wellFormed.cached, wellFormed.transferred, wellFormed.started⟩

end Worker

theorem transferTrace_spec {request : GpuWorkRequest T}
    (cached : request.precomputations ∈ setups.list) :
    ∃ setup, transferTrace setups request = some (request, setup) ∧
      (request.kind = .proof → setup.isSome = true) := by
  unfold transferTrace
  cases kind : request.kind with
  | memoryCommitment => exact ⟨none, rfl, fun isProof => by contradiction⟩
  | proof =>
    have found : (setups.list.find? fun setup =>
        setup.setupTrace = request.precomputations.setupTrace).isSome = true := by
      rw [List.find?_isSome]
      exact ⟨request.precomputations, cached, by simp⟩
    rcases isSome_iff_exists.mp found with ⟨setup, isSetup⟩
    exact ⟨some setup, by simp [isSetup], fun _ => rfl⟩

theorem startJob_spec {transfer : GpuWorkRequest T × Option CircuitPrecomputations}
    (cached : transfer.1.precomputations ∈ setups.list)
    (transferred : transfer.1.kind = .proof → transfer.2.isSome = true) :
    startJob transfer = some (transfer.1, transfer.1.kind) := by
  rcases transfer with ⟨request, setup⟩
  have checked := setups.checked request.precomputations cached
  cases kind : request.kind with
  | memoryCommitment => simp [startJob, kind, checked]
  | proof =>
    rcases isSome_iff_exists.mp (transferred kind) with ⟨found, isFound⟩
    simp [startJob, kind, show setup = some found from isFound]

theorem finishJob_spec {job : GpuWorkRequest T × WorkKind} (started : job.2 = job.1.kind) :
    finishJob job = some job.1.result := by
  rw [show job = (job.1, job.2) from rfl, finishJob, if_pos started]

theorem Worker.handle_spec {worker : Worker T} (wellFormed : worker.WellFormed setups)
    (waiting : worker.stage = .waiting) {request : Option (GpuWorkRequest T)}
    (cached : ∀ work ∈ request, work.precomputations ∈ setups.list) :
    ∃ fed, worker.handle setups request = some fed ∧ fed.WellFormed setups ∧
      (∃ result, fed.stage = .computing result) ∧
      fed.slots = worker.slots ++ [request.map GpuWorkRequest.result] := by
  have phaseOne : ∃ transfer, request.mapM (transferTrace setups) = some transfer ∧
      transfer.map Prod.fst = request ∧
      ∀ entry ∈ transfer, entry.1.kind = .proof → entry.2.isSome = true := by
    cases request with
    | none => exact ⟨none, rfl, rfl, by simp⟩
    | some work =>
      rcases transferTrace_spec (cached work rfl) with ⟨setup, isTransfer, hasSetup⟩
      refine ⟨some (work, setup), by simp [isTransfer], rfl, ?_⟩
      intro entry isEntry
      cases isEntry
      exact hasSetup
  have phaseTwo : worker.currentPhaseOne.mapM startJob =
      some (worker.currentPhaseOne.map fun transfer => (transfer.1, transfer.1.kind)) := by
    cases isOne : worker.currentPhaseOne with
    | none => rfl
    | some transfer =>
      simp [startJob_spec (wellFormed.cached transfer isOne)
        (wellFormed.transferred transfer isOne)]
  have result : worker.currentPhaseTwo.mapM finishJob =
      some (worker.currentPhaseTwo.map fun job => job.1.result) := by
    cases isTwo : worker.currentPhaseTwo with
    | none => rfl
    | some job => simp [finishJob_spec (wellFormed.started job isTwo)]
  rcases phaseOne with ⟨transfer, isTransfer, sameRequest, hasSetup⟩
  have handled : worker.handle setups request = some
      ⟨transfer, worker.currentPhaseOne.map fun transfer => (transfer.1, transfer.1.kind),
        .computing (worker.currentPhaseTwo.map fun job => job.1.result)⟩ := by
    simp [Worker.handle, isTransfer, phaseTwo, result]
  refine ⟨_, handled, ?_, ⟨_, rfl⟩, ?_⟩
  · refine ⟨?_, hasSetup, ?_⟩
    · intro entry isEntry
      apply cached entry.1
      rw [← sameRequest]
      exact Option.mem_map_of_mem _ isEntry
    · intro job isJob
      rcases map_eq_some_iff.mp isJob with ⟨entry, -, rfl⟩
      rfl
  · have requested : request.map GpuWorkRequest.result =
        transfer.map fun entry => entry.1.result := by
      rw [← sameRequest, Option.map_map]
      rfl
    simp [Worker.slots, WorkerStage.offered, waiting, requested, comp_def]

theorem Manager.sendWork_spec {manager : Manager n T} {worker : Fin n}
    (eligible : manager.workQueue ≠ [] ∨ manager.advances worker = true) :
    ∃ (request : Option (GpuWorkRequest T)) (rest : List (GpuWorkRequest T)),
      manager.workQueue = request.toList ++ rest ∧
      (request = none → manager.workQueue = [] ∧ manager.advances worker = true) ∧
      manager.sendWork worker = some ({ manager with
        workQueue := rest
        workerQueues := Function.update manager.workerQueues worker
          (manager.workerQueues worker ++ [request.map GpuWorkRequest.batchId]) }, request) := by
  cases isQueue : manager.workQueue with
  | nil =>
    have advances := eligible.resolve_left (fun nonempty => nonempty isQueue)
    refine ⟨none, [], rfl, fun _ => ⟨rfl, advances⟩, ?_⟩
    simp [Manager.sendWork, isQueue, advances]
  | cons request rest =>
    refine ⟨some request, rest, rfl, by simp, ?_⟩
    simp [Manager.sendWork, isQueue]

namespace System

/-- A worker has been fed with the first request of the queue, or with none. -/
structure Fed (setups : CachedSetups) (system after : System n T) (worker : Fin n)
    (request : Option (GpuWorkRequest T)) (rest : List (GpuWorkRequest T)) (fed : Worker T) :
    Prop where
  queue : system.manager.workQueue = request.toList ++ rest
  moved : request = none →
    system.manager.workQueue = [] ∧ system.manager.advances worker = true
  wellFormed : fed.WellFormed setups
  computing : ∃ result, fed.stage = .computing result
  slots : fed.slots = (system.workers worker).slots ++ [request.map GpuWorkRequest.result]
  after_eq : after = { system with
    manager := { system.manager with
      workQueue := rest
      workerQueues := Function.update system.manager.workerQueues worker
        (system.manager.workerQueues worker ++ [request.map GpuWorkRequest.batchId]) }
    workers := Function.update system.workers worker fed
    handed := system.handed ++ (request.map fun request => (worker, request)).toList }

theorem Fed.inFlight {system after : System n T} {worker : Fin n}
    {request : Option (GpuWorkRequest T)} {rest : List (GpuWorkRequest T)} {fed : Worker T}
    (isFed : Fed setups system after worker request rest fed) :
    fed.inFlight = (system.workers worker).inFlight ++
      (request.map GpuWorkRequest.result).toList := by
  simp only [Worker.inFlight, isFed.slots, List.reduceOption_append]
  cases request <;> rfl

end System

namespace System

structure Invariant (setups : CachedSetups) (system : System n T) : Prop where
  wellFormed : ∀ worker, (system.workers worker).WellFormed setups
  mirrored : ∀ worker, system.manager.workerQueues worker =
    (system.workers worker).slots.map (Option.map GpuWorkResult.batchId)
  /-- Only pipelines with work in them are moved on. -/
  busy : ∀ worker, (system.workers worker).stage ≠ .waiting →
    (system.workers worker).inFlight ≠ []
  produced : ∀ batchId, ∀ request ∈ system.requests batchId,
    request.batchId = batchId ∧ request.precomputations ∈ setups.list
  queued_cached : ∀ request ∈ system.manager.workQueue, request.precomputations ∈ setups.list
  queued_live : ∀ request ∈ system.manager.workQueue,
    request.batchId ∈ system.manager.batchSenders
  piped_live : ∀ worker, ∀ result ∈ (system.workers worker).inFlight,
    result.batchId ∈ system.manager.batchSenders
  receivers_subset : system.manager.batchReceivers ⊆ system.manager.batchSenders
  flush_subset : system.manager.batchesToFlush ⊆ system.manager.batchSenders
  senders_subset : system.manager.batchSenders ⊆
    system.manager.batchReceivers ∪ system.manager.batchesToFlush
  flush_disjoint : Disjoint system.manager.batchReceivers system.manager.batchesToFlush
  announced : ∀ batchId ∈ system.batches, batchId ∉ system.manager.batchSenders
  announced_nodup : system.batches.Nodup
  handed_in_order : system.received = system.handed.map Prod.snd ++ system.manager.workQueue
  answered_in_order : ∀ worker,
    (system.handed.filter (·.1 = worker)).map (·.2.result) =
      (system.delivered.filter (·.1 = worker)).map (·.2.2) ++ (system.workers worker).inFlight
  addressed : ∀ delivery ∈ system.delivered, delivery.2.2.batchId = delivery.2.1
  received_all : system.manager.batchesReceiver = false →
    system.batches = [] ∧ system.batchesClosed = true
  stopped : system.finished = true →
    system.manager.batchesReceiver = false ∧ system.manager.batchSenders = ∅

theorem initial_invariant : Invariant setups (initial : System n T) where
  wellFormed := by
    intro worker
    exact ⟨by simp [initial], by simp [initial], by simp [initial]⟩
  mirrored := fun _ => rfl
  busy := fun _ notWaiting => absurd rfl notWaiting
  produced := by simp [initial]
  queued_cached := by simp [initial]
  queued_live := by simp [initial]
  piped_live := by simp [initial, Worker.inFlight, Worker.slots, WorkerStage.offered]
  receivers_subset := by simp [initial]
  flush_subset := by simp [initial]
  senders_subset := by simp [initial]
  flush_disjoint := by simp [initial]
  announced := by simp [initial]
  announced_nodup := by simp [initial]
  handed_in_order := rfl
  answered_in_order := by simp [initial, Worker.inFlight, Worker.slots, WorkerStage.offered]
  addressed := by simp [initial]
  received_all := by simp [initial]
  stopped := by simp [initial]

namespace Invariant

variable {system : System n T}

variable (invariant : system.Invariant setups)

include invariant

theorem mem_workerQueues_iff (worker : Fin n)
    (batchId : BatchId) : some batchId ∈ system.manager.workerQueues worker ↔
      ∃ result ∈ (system.workers worker).inFlight, result.batchId = batchId := by
  rw [invariant.mirrored worker]
  simp only [List.mem_map, map_eq_some_iff, Worker.inFlight, List.reduceOption_mem_iff]
  constructor
  · intro ⟨slot, member, result, isResult, same⟩
    exact ⟨result, isResult ▸ member, same⟩
  · intro ⟨result, member, same⟩
    exact ⟨some result, member, result, rfl, same⟩

theorem inFlight_of_advances {worker : Fin n} (advances : system.manager.advances worker = true) :
    (system.workers worker).inFlight ≠ [] := by
  have work : ∃ batchId, some batchId ∈ system.manager.workerQueues worker := by
    rw [Manager.advances, Bool.or_eq_true] at advances
    rcases advances with advanced | flushed
    · unfold advance at advanced
      split at advanced
      · rename_i batchId isQueue
        exact ⟨batchId, by simp [isQueue]⟩
      · contradiction
    · unfold flush at flushed
      simp only [List.any_eq_true] at flushed
      rcases flushed with ⟨item, member, isFlushed⟩
      cases item with
      | none => contradiction
      | some batchId => exact ⟨batchId, member⟩
  rcases work with ⟨batchId, member⟩
  rcases (invariant.mem_workerQueues_iff worker batchId).mp member with ⟨result, isResult, -⟩
  exact List.ne_nil_of_mem isResult

theorem feed_fed {worker : Fin n} (waiting : (system.workers worker).stage = .waiting)
    (eligible : system.manager.workQueue ≠ [] ∨ system.manager.advances worker = true) :
    ∃ after request rest fed, system.feed setups worker = some after ∧
      Fed setups system after worker request rest fed := by
  rcases Manager.sendWork_spec eligible with ⟨request, rest, isQueue, moved, sent⟩
  have cached : ∀ work ∈ request, work.precomputations ∈ setups.list := by
    intro work isWork
    apply invariant.queued_cached work
    rw [isQueue]
    exact List.mem_append_left _ (Option.mem_toList.mpr isWork)
  rcases Worker.handle_spec (invariant.wellFormed worker) waiting cached with
    ⟨fed, handled, wellFormed, computing, slots⟩
  refine ⟨_, request, rest, fed, ?_, ⟨isQueue, moved, wellFormed, computing, slots, rfl⟩⟩
  simp [feed, sent, handled]

/-- A worker goes on with some requests and gives back some results, so that it owes the results
of the others. -/
theorem worked (worker : Fin n) (requests : List (GpuWorkRequest T))
    (results : List (GpuWorkResult T)) {rest : List (GpuWorkRequest T)} {next : Worker T}
    {queue : List (Option BatchId)}
    (isQueue : system.manager.workQueue = requests ++ rest)
    (owed : (system.workers worker).inFlight ++ requests.map GpuWorkRequest.result =
      results ++ next.inFlight)
    (wellFormed : next.WellFormed setups)
    (mirrored : queue = next.slots.map (Option.map GpuWorkResult.batchId))
    (busy : next.stage ≠ .waiting → next.inFlight ≠ []) :
    Invariant setups { system with
      manager := { system.manager with
        workQueue := rest
        workerQueues := Function.update system.manager.workerQueues worker queue }
      workers := Function.update system.workers worker next
      handed := system.handed ++ requests.map fun request => (worker, request)
      delivered := system.delivered ++
        results.map fun result => (worker, result.batchId, result) } := by
  have ofQueue : ∀ request ∈ rest, request ∈ system.manager.workQueue :=
    fun request member => isQueue ▸ List.mem_append_right _ member
  exact { invariant with
    wellFormed := by
      intro other
      by_cases same : other = worker
      · subst same
        simpa using wellFormed
      · simpa [same] using invariant.wellFormed other
    mirrored := by
      intro other
      by_cases same : other = worker
      · subst same
        simpa using mirrored
      · simpa [same] using invariant.mirrored other
    busy := by
      intro other
      by_cases same : other = worker
      · subst same
        simpa using busy
      · simpa [same] using invariant.busy other
    queued_cached := fun request member => invariant.queued_cached _ (ofQueue request member)
    queued_live := fun request member => invariant.queued_live _ (ofQueue request member)
    piped_live := by
      intro other
      by_cases same : other = worker
      · subst same
        intro result isOwed
        simp only [update_self] at isOwed
        have before := List.mem_append_right results isOwed
        rw [← owed] at before
        rcases List.mem_append.mp before with piped | queued
        · exact invariant.piped_live other result piped
        · rcases List.mem_map.mp queued with ⟨request, member, rfl⟩
          exact invariant.queued_live request (isQueue ▸ List.mem_append_left _ member)
      · simpa [same] using invariant.piped_live other
    handed_in_order := by
      rw [invariant.handed_in_order, isQueue]
      simp [comp_def]
    answered_in_order := by
      intro other
      simp only [List.filter_append, List.map_append, invariant.answered_in_order other]
      by_cases same : other = worker
      · subst same
        simpa [List.filter_map, comp_def] using owed
      · simp [same, Ne.symm same, List.filter_map, comp_def]
    addressed := by
      intro delivery member
      rcases List.mem_append.mp member with before | last
      · exact invariant.addressed delivery before
      · rcases List.mem_map.mp last with ⟨result, -, rfl⟩
        rfl }

theorem fed {after : System n T} {worker : Fin n}
    {request : Option (GpuWorkRequest T)} {rest : List (GpuWorkRequest T)} {fed : Worker T}
    (isFed : Fed setups system after worker request rest fed) : after.Invariant setups := by
  have nonempty : fed.inFlight ≠ [] := by
    rw [isFed.inFlight]
    cases request with
    | none => simpa using invariant.inFlight_of_advances (isFed.moved rfl).2
    | some work => simp
  have mirrored : system.manager.workerQueues worker ++ [request.map GpuWorkRequest.batchId] =
      fed.slots.map (Option.map GpuWorkResult.batchId) := by
    rw [isFed.slots, List.map_append, invariant.mirrored worker, List.map_singleton, Option.map_map]
    rfl
  have worked := invariant.worked worker request.toList [] isFed.queue
    (by rw [isFed.inFlight]; cases request <;> rfl) isFed.wellFormed mirrored fun _ => nonempty
  rw [isFed.after_eq]
  cases request <;> simpa using worked

end Invariant

/-- Some workers that were found waiting have been fed with requests. -/
inductive FedSteps (setups : CachedSetups) : System n T → System n T → Prop where
  | refl (system : System n T) : FedSteps setups system system
  | step {system middle after : System n T} {worker : Fin n} {request : GpuWorkRequest T}
      {rest : List (GpuWorkRequest T)} {fed : Worker T}
      (waiting : (system.workers worker).stage = .waiting)
      (isFed : Fed setups system middle worker (some request) rest fed)
      (steps : FedSteps setups middle after) : FedSteps setups system after

variable {system : System n T}

theorem FedSteps.invariant {after : System n T} (steps : FedSteps setups system after)
    (holds : system.Invariant setups) : after.Invariant setups := by
  induction steps with
  | refl => exact holds
  | step _ isFed _ ih => exact ih (holds.fed isFed)

theorem Invariant.drain_fedSteps (invariant : system.Invariant setups) (candidates : List (Fin n)) :
    ∃ after, system.drain setups candidates = some after ∧ FedSteps setups system after := by
  induction candidates generalizing system with
  | nil => exact ⟨system, rfl, .refl system⟩
  | cons worker candidates ih =>
    by_cases feeds : (!system.manager.workQueue.isEmpty &&
        (system.workers worker).stage.isWaiting) = true
    · rw [Bool.and_eq_true] at feeds
      have waiting : (system.workers worker).stage = .waiting := by
        cases stage : (system.workers worker).stage with
        | waiting => rfl
        | _ => simp [stage, WorkerStage.isWaiting] at feeds
      have nonempty : system.manager.workQueue ≠ [] := by simpa using feeds.1
      rcases invariant.feed_fed waiting (Or.inl nonempty) with
        ⟨after, request, rest, fed, isAfter, isFed⟩
      rcases ih (invariant.fed isFed) with ⟨final, drained, steps⟩
      cases request with
      | none => exact absurd (isFed.moved rfl).1 nonempty
      | some request =>
        refine ⟨final, ?_, .step waiting isFed steps⟩
        simp [drain, feeds, isAfter, drained]
    · rcases ih invariant with ⟨final, drained, steps⟩
      refine ⟨final, ?_, steps⟩
      rw [drain, if_neg feeds, drained]

inductive Selected (setups : CachedSetups) (system : System n T) :
    SelectOp n → System n T → Prop where
  | batch {batchId : BatchId} {batches : List BatchId}
      (isBatch : system.batches = batchId :: batches) :
      Selected setups system .batch { system with
        manager := { system.manager with
          batchReceivers := insert batchId system.manager.batchReceivers
          batchSenders := insert batchId system.manager.batchSenders }
        batches }
  | batchesDisconnected (empty : system.batches = []) (closed : system.batchesClosed = true) :
      Selected setups system .batchesDisconnected { system with
        manager := { system.manager with batchesReceiver := false } }
  | request {batchId : BatchId} {request : GpuWorkRequest T}
      {requests : List (GpuWorkRequest T)} (open' : batchId ∈ system.manager.batchReceivers)
      (isRequest : system.requests batchId = request :: requests) :
      Selected setups system (.request batchId) { system with
        manager := { system.manager with workQueue := system.manager.workQueue ++ [request] }
        requests := Function.update system.requests batchId requests
        received := system.received ++ [request] }
  | requestsDisconnected {batchId : BatchId} (open' : batchId ∈ system.manager.batchReceivers)
      (empty : system.requests batchId = []) (closed : system.requestsClosed batchId = true) :
      Selected setups system (.requestsDisconnected batchId) { system with
        manager := { system.manager with
          batchReceivers := system.manager.batchReceivers.erase batchId
          batchesToFlush := insert batchId system.manager.batchesToFlush } }
  | noResult {worker : Fin n} {queue : List (Option BatchId)}
      (answering : (system.workers worker).stage = .answering none)
      (isQueue : system.manager.workerQueues worker = none :: queue) :
      Selected setups system (.result worker) { system with
        manager := { system.manager with
          workerQueues := Function.update system.manager.workerQueues worker queue }
        workers := Function.update system.workers worker
          { system.workers worker with stage := .waiting } }
  | result {worker : Fin n} {result : GpuWorkResult T} {queue : List (Option BatchId)}
      (answering : (system.workers worker).stage = .answering (some result))
      (isQueue : system.manager.workerQueues worker = some result.batchId :: queue)
      (live : result.batchId ∈ system.manager.batchSenders) :
      Selected setups system (.result worker) { system with
        manager := { system.manager with
          workerQueues := Function.update system.manager.workerQueues worker queue
            }.completeBatch result.batchId
        workers := Function.update system.workers worker
          { system.workers worker with stage := .waiting }
        delivered := system.delivered ++ [(worker, result.batchId, result)] }
  | send {worker : Fin n} {after : System n T} {request : Option (GpuWorkRequest T)}
      {rest : List (GpuWorkRequest T)} {fed : Worker T}
      (waiting : (system.workers worker).stage = .waiting)
      (isFed : Fed setups system after worker request rest fed) :
      Selected setups system (.send worker) after

theorem Invariant.select_selected (invariant : system.Invariant setups) {op : SelectOp n}
    (ready : system.Ready op) :
    ∃ after, system.select setups op = some after ∧ Selected setups system op after := by
  cases op with
  | batch =>
    cases isBatch : system.batches with
    | nil => exact absurd isBatch ready.2
    | cons batchId batches =>
      have fresh := invariant.announced batchId (by simp [isBatch])
      have notReceiving : batchId ∉ system.manager.batchReceivers :=
        fun receiving => fresh (invariant.receivers_subset receiving)
      refine ⟨_, ?_, .batch isBatch⟩
      simp [select, isBatch, Manager.receiveBatch, fresh, notReceiving]
  | batchesDisconnected => exact ⟨_, rfl, .batchesDisconnected ready.2.1 ready.2.2⟩
  | request batchId =>
    cases isRequest : system.requests batchId with
    | nil => exact absurd isRequest ready.2
    | cons request requests =>
      have ofBatch := (invariant.produced batchId request (by simp [isRequest])).1
      refine ⟨_, ?_, .request ready.1 isRequest⟩
      simp [select, isRequest, Manager.receiveRequest, ofBatch]
  | requestsDisconnected batchId =>
    have notFlushed : batchId ∉ system.manager.batchesToFlush :=
      disjoint_left.mp invariant.flush_disjoint ready.1
    refine ⟨_, ?_, .requestsDisconnected ready.1 ready.2.1 ready.2.2⟩
    simp [select, Manager.closeBatch, ready.1, notFlushed]
  | result worker =>
    rcases ready with ⟨result, answering⟩
    have mirrored := invariant.mirrored worker
    simp only [Worker.slots, WorkerStage.offered, answering, List.map_cons, List.map_nil,
      List.cons_append, List.nil_append] at mirrored
    cases result with
    | none =>
      refine ⟨_, ?_, .noResult answering mirrored⟩
      simp [select, answering, Manager.receiveResult, mirrored]
    | some result =>
      have owed : result ∈ (system.workers worker).inFlight := by
        simp [Worker.inFlight, Worker.slots, WorkerStage.offered, answering]
      have live := invariant.piped_live worker result owed
      refine ⟨_, ?_, .result answering mirrored live⟩
      simp [select, answering, Manager.receiveResult, mirrored, live]
  | send worker =>
    rcases invariant.feed_fed ready.1 ready.2 with ⟨after, request, rest, fed, isAfter, isFed⟩
    exact ⟨after, isAfter, .send ready.1 isFed⟩

theorem Invariant.popped (invariant : system.Invariant setups) {worker : Fin n}
    {result : Option (GpuWorkResult T)} {queue : List (Option BatchId)}
    (answering : (system.workers worker).stage = .answering result)
    (isQueue : system.manager.workerQueues worker = result.map GpuWorkResult.batchId :: queue) :
    Invariant setups { system with
      manager := { system.manager with
        workerQueues := Function.update system.manager.workerQueues worker queue }
      workers := Function.update system.workers worker
        { system.workers worker with stage := .waiting }
      delivered := system.delivered ++
        (result.map fun result => (worker, result.batchId, result)).toList } := by
  have slots : (system.workers worker).slots =
      result :: { system.workers worker with stage := .waiting }.slots := by
    simp [Worker.slots, answering, WorkerStage.offered]
  have inFlight : (system.workers worker).inFlight =
      result.toList ++ { system.workers worker with stage := .waiting }.inFlight := by
    rw [Worker.inFlight, slots]
    cases result <;> rfl
  have mirrored := invariant.mirrored worker
  rw [isQueue, slots, List.map_cons, List.cons.injEq] at mirrored
  have worked := invariant.worked worker [] result.toList rfl
    (by rw [inFlight, List.map_nil, List.append_nil])
    ((invariant.wellFormed worker).atStage .waiting) mirrored.2 fun notWaiting =>
      absurd rfl notWaiting
  cases result <;> simpa using worked

theorem Invariant.completed (invariant : system.Invariant setups) (batchId : BatchId) :
    Invariant setups { system with manager := system.manager.completeBatch batchId } := by
  unfold Manager.completeBatch
  split_ifs with complete
  · rcases complete with ⟨flushed, done⟩
    have notReceiving : batchId ∉ system.manager.batchReceivers :=
      disjoint_right.mp invariant.flush_disjoint flushed
    exact { invariant with
      queued_live := by
        intro request queued
        refine mem_erase.mpr ⟨?_, invariant.queued_live request queued⟩
        intro same
        exact done (Or.inl ⟨request, queued, same⟩)
      piped_live := by
        intro worker result owed
        refine mem_erase.mpr ⟨?_, invariant.piped_live worker result owed⟩
        intro same
        exact done (Or.inr ⟨worker,
          (invariant.mem_workerQueues_iff worker batchId).mpr ⟨result, owed, same⟩⟩)
      receivers_subset := subset_erase.mpr ⟨invariant.receivers_subset, notReceiving⟩
      flush_subset := erase_subset_erase batchId invariant.flush_subset
      senders_subset := by
        have erased := erase_subset_erase batchId invariant.senders_subset
        rwa [erase_union_distrib, erase_eq_of_notMem notReceiving] at erased
      flush_disjoint := invariant.flush_disjoint.mono_right (erase_subset _ _)
      announced := fun other member live => invariant.announced other member (mem_of_mem_erase live)
      stopped := by
        intro isFinished
        rcases invariant.stopped isFinished with ⟨closed, empty⟩
        exact ⟨closed, by simp [empty]⟩ }
  · exact invariant

theorem Selected.invariant {after : System n T} {op : SelectOp n}
    (selected : Selected setups system op after) (holds : system.Invariant setups)
    (running : system.finished = false) : after.Invariant setups := by
  have notStopped : ∀ {claim : Prop}, system.finished = true → claim := by
    intro claim isFinished
    rw [running] at isFinished
    contradiction
  cases selected with
  | @batch batchId batches isBatch =>
    have nodup := holds.announced_nodup
    rw [isBatch, List.nodup_cons] at nodup
    have fresh := holds.announced batchId (by simp [isBatch])
    exact { holds with
      queued_live := fun request queued => mem_insert_of_mem (holds.queued_live request queued)
      piped_live := fun worker result owed =>
        mem_insert_of_mem (holds.piped_live worker result owed)
      receivers_subset := insert_subset_insert batchId holds.receivers_subset
      flush_subset := holds.flush_subset.trans (subset_insert _ _)
      senders_subset := by
        rw [insert_union]
        exact insert_subset_insert batchId holds.senders_subset
      flush_disjoint := disjoint_insert_left.mpr
        ⟨fun flushed => fresh (holds.flush_subset flushed), holds.flush_disjoint⟩
      announced := by
        intro other member live
        rcases mem_insert.mp live with rfl | before
        · exact nodup.1 member
        · exact holds.announced other (by simp [isBatch, member]) before
      announced_nodup := nodup.2
      received_all := by
        intro received
        have empty := (holds.received_all received).1
        rw [isBatch] at empty
        contradiction
      stopped := notStopped }
  | batchesDisconnected empty closed =>
    exact { holds with
      received_all := fun _ => ⟨empty, closed⟩
      stopped := notStopped }
  | @request batchId request requests receiving isRequest =>
    have valid := holds.produced batchId request (by simp [isRequest])
    exact { holds with
      produced := by
        intro other work member
        by_cases same : other = batchId
        · subst same
          simp only [update_self] at member
          exact holds.produced other work (by simp [isRequest, member])
        · simp only [update_of_ne same] at member
          exact holds.produced other work member
      queued_cached := by
        intro work queued
        rcases List.mem_append.mp queued with before | last
        · exact holds.queued_cached work before
        · rw [List.mem_singleton.mp last]
          exact valid.2
      queued_live := by
        intro work queued
        rcases List.mem_append.mp queued with before | last
        · exact holds.queued_live work before
        · rw [List.mem_singleton.mp last, valid.1]
          exact holds.receivers_subset receiving
      handed_in_order := by rw [holds.handed_in_order, List.append_assoc] }
  | @requestsDisconnected batchId receiving empty closed =>
    exact { holds with
      receivers_subset := (erase_subset _ _).trans holds.receivers_subset
      flush_subset := insert_subset (holds.receivers_subset receiving) holds.flush_subset
      senders_subset := by
        rw [union_insert, ← insert_union, insert_erase receiving]
        exact holds.senders_subset
      flush_disjoint := disjoint_insert_right.mpr
        ⟨notMem_erase _ _, holds.flush_disjoint.mono_left (erase_subset _ _)⟩ }
  | noResult answering isQueue => simpa using holds.popped answering isQueue
  | result answering isQueue live => exact (holds.popped answering isQueue).completed _
  | send waiting isFed => exact holds.fed isFed

section

variable (invariant : system.Invariant setups)

include invariant

theorem Invariant.turn_spec (running : system.finished = false) {op : SelectOp n}
    (ready : system.Ready op) (candidates : List (Fin n)) :
    ∃ middle drained, system.turn setups op candidates = some drained.checkFinished ∧
      Selected setups system op middle ∧ FedSteps setups middle drained := by
  rcases invariant.select_selected ready with ⟨middle, isMiddle, selected⟩
  rcases (selected.invariant invariant running).drain_fedSteps candidates with
    ⟨drained, isDrained, steps⟩
  exact ⟨middle, drained, by simp [turn, isMiddle, isDrained], selected, steps⟩

theorem Invariant.checkFinished : system.checkFinished.Invariant setups :=
  { invariant with
    stopped := by
      intro isFinished
      simpa [System.checkFinished] using isFinished }

theorem Invariant.announce {batchId : BatchId}
    (enabled : system.Enabled setups (.announce batchId)) :
    Invariant setups { system with
      batches := system.batches ++ [batchId]
      requests := Function.update system.requests batchId []
      requestsClosed := Function.update system.requestsClosed batchId false } := by
  rcases enabled with ⟨accepting, fresh, notLive⟩
  exact { invariant with
    produced := by
      intro other request member
      by_cases same : other = batchId
      · subst same
        simp at member
      · simp only [update_of_ne same] at member
        exact invariant.produced other request member
    announced := by
      intro other member
      rcases List.mem_append.mp member with before | last
      · exact invariant.announced other before
      · rw [List.mem_singleton.mp last]
        exact notLive
    announced_nodup := by
      rw [List.nodup_append]
      refine ⟨invariant.announced_nodup, List.nodup_singleton _, ?_⟩
      intro other before last isLast same
      rw [List.mem_singleton.mp isLast] at same
      exact fresh (same ▸ before)
    received_all := by
      intro received
      have closed := (invariant.received_all received).2
      rw [accepting] at closed
      contradiction }

theorem Invariant.produce {batchId : BatchId}
    {request : GpuWorkRequest T} (enabled : system.Enabled setups (.produce batchId request)) :
    Invariant setups { system with
      requests := Function.update system.requests batchId
        (system.requests batchId ++ [request]) } := by
  rcases enabled with ⟨-, ofBatch, cached⟩
  exact { invariant with
    produced := by
      intro other work member
      by_cases same : other = batchId
      · subst same
        simp only [update_self] at member
        rcases List.mem_append.mp member with before | last
        · exact invariant.produced other work before
        · rw [List.mem_singleton.mp last]
          exact ⟨ofBatch, cached⟩
      · simp only [update_of_ne same] at member
        exact invariant.produced other work member }

theorem Invariant.finish {worker : Fin n} {result : Option (GpuWorkResult T)}
    (computing : (system.workers worker).stage = .computing result) :
    Invariant setups { system with
      workers := Function.update system.workers worker
        { system.workers worker with stage := .answering result } } := by
  have slots : { system.workers worker with stage := .answering result }.slots =
      (system.workers worker).slots := by
    simp only [Worker.slots, computing, WorkerStage.offered]
  have inFlight : { system.workers worker with stage := .answering result }.inFlight =
      (system.workers worker).inFlight := congrArg List.reduceOption slots
  have busy : (system.workers worker).inFlight ≠ [] := invariant.busy worker (by simp [computing])
  have worked := invariant.worked worker [] [] rfl (by simp [inFlight])
    ((invariant.wellFormed worker).atStage (.answering result)) (congrArg _ slots).symm
    fun _ => inFlight ▸ busy
  rw [← invariant.mirrored] at worked
  simpa using worked

theorem Invariant.drained_of_finished (isFinished : system.finished = true) (worker : Fin n) :
    (system.workers worker).stage = .waiting ∧
      (system.workers worker).currentPhaseOne = none ∧
      (system.workers worker).currentPhaseTwo = none := by
  have empty := (invariant.stopped isFinished).2
  have nothing : (system.workers worker).inFlight = [] := by
    rw [List.eq_nil_iff_forall_not_mem]
    intro result owed
    have live := invariant.piped_live worker result owed
    rw [empty] at live
    exact notMem_empty _ live
  have waiting : (system.workers worker).stage = .waiting := by
    by_contra notWaiting
    exact invariant.busy worker notWaiting nothing
  have slots := List.filterMap_eq_nil_iff.mp nothing
  simp only [Worker.slots, waiting, WorkerStage.offered, List.nil_append, List.forall_mem_cons,
    id_eq, map_eq_none_iff] at slots
  exact ⟨waiting, slots.2.1, slots.1⟩

theorem Invariant.perform_spec {event : SystemEvent n T} (enabled : system.Enabled setups event) :
    ∃ after, system.perform setups event = some after ∧ after.Invariant setups := by
  cases event with
  | announce batchId => exact ⟨_, rfl, invariant.announce enabled⟩
  | closeBatches =>
    exact ⟨_, rfl, { invariant with
      received_all := fun received => ⟨(invariant.received_all received).1, rfl⟩ }⟩
  | produce batchId request => exact ⟨_, rfl, invariant.produce enabled⟩
  | closeRequests batchId => exact ⟨_, rfl, { invariant with }⟩
  | turn op candidates =>
    rcases invariant.turn_spec enabled.1 enabled.2 candidates with
      ⟨middle, drained, isDrained, selected, steps⟩
    exact ⟨_, isDrained,
      (steps.invariant (selected.invariant invariant enabled.1)).checkFinished⟩
  | finish worker =>
    rcases enabled with ⟨result, computing⟩
    have running : system.finished = false := by
      by_contra isFinished
      have waiting := (invariant.drained_of_finished (by simpa using isFinished) worker).1
      rw [computing] at waiting
      contradiction
    refine ⟨_, ?_, invariant.finish computing⟩
    simp [perform, computing, running]
  | exit worker =>
    rcases invariant.drained_of_finished enabled.1 worker with ⟨-, noPhaseOne, noPhaseTwo⟩
    exact ⟨system, by simp [perform, noPhaseOne, noPhaseTwo], invariant⟩

end

theorem reachable_invariant (reachable : (gpuSystem n T setups).Reachable system) :
    system.Invariant setups := by
  apply CheckedSystem.Reachable.invariant initial_invariant ?_ reachable
  intro state event after invariant step
  rcases invariant.perform_spec step.1 with ⟨after', isAfter, holds⟩
  have same : some after' = some after := isAfter.symm.trans step.2
  cases same
  exact holds

structure Accounted (system : System n T) : Prop where
  /-- Requests are handed to the workers in the order in which they were received. -/
  handed : system.received = system.handed.map Prod.snd ++ system.manager.workQueue
  /-- A worker's requests are answered in the order in which they were handed to it. -/
  answered : ∀ worker, (system.handed.filter (·.1 = worker)).map (·.2.result) =
    (system.delivered.filter (·.1 = worker)).map (·.2.2) ++ (system.workers worker).inFlight
  /-- Results go to the senders of their own batches. -/
  addressed : ∀ delivery ∈ system.delivered, delivery.2.2.batchId = delivery.2.1
  /-- The manager stops without requests, and with empty pipelines. -/
  stopped : system.finished = true → system.manager.workQueue = [] ∧
    ∀ worker, system.workers worker = ⟨none, none, .waiting⟩

end System

end Airbender.Execution

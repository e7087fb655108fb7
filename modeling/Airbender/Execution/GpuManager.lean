import Airbender.Lib.CheckedSystem

/-!
# The GPU manager and its workers

One thread distributes the requests of all batches over the GPU workers. A worker is a pipeline of
two phases: it answers a request with the result of the one before the previous one, and the manager
mirrors the pipelines in queues of batch ids. Channels to the workers have no buffer: a send
succeeds when the worker waits, a receive when it offers a result.
-/

namespace Airbender.Execution

abbrev BatchId := ℕ

/-- Setup traces are shared and compared by address. -/
structure CircuitPrecomputations where
  setupTrace : ℕ
  ldeFactor : ℕ
  domainSize : ℕ
deriving DecidableEq

inductive WorkKind where
  | memoryCommitment
  | proof
deriving DecidableEq

/-- The circuit type, the sequence number and the tracing data are only passed on. -/
structure GpuWorkRequest (T : Type) where
  kind : WorkKind
  batchId : BatchId
  precomputations : CircuitPrecomputations
  tracingData : T
deriving DecidableEq

structure GpuWorkResult (T : Type) where
  kind : WorkKind
  batchId : BatchId
  tracingData : T
deriving DecidableEq

def GpuWorkRequest.result {T : Type} (request : GpuWorkRequest T) : GpuWorkResult T :=
  ⟨request.kind, request.batchId, request.tracingData⟩

def isPowerOfTwo (number : ℕ) : Prop := number = 2 ^ number.log2

instance : DecidablePred isPowerOfTwo := fun _ => inferInstanceAs (Decidable (_ = _))

/-- The setups that every worker caches. A worker checks their sizes when it starts. -/
structure CachedSetups where
  list : List CircuitPrecomputations
  checked : ∀ setup ∈ list, isPowerOfTwo setup.ldeFactor ∧ isPowerOfTwo setup.domainSize

section

variable {T : Type} (setups : CachedSetups)

/-- Where a worker is in its loop: receiving, in the body, or sending. -/
inductive WorkerStage (T : Type) where
  | waiting
  | computing (result : Option (GpuWorkResult T))
  | answering (result : Option (GpuWorkResult T))
deriving DecidableEq

def WorkerStage.isWaiting : WorkerStage T → Bool
  | waiting => true
  | _ => false

structure Worker (T : Type) where
  currentPhaseOne : Option (GpuWorkRequest T × Option CircuitPrecomputations)
  currentPhaseTwo : Option (GpuWorkRequest T × WorkKind)
  stage : WorkerStage T
deriving DecidableEq

/-- A proof needs the setup that was cached for its trace. -/
def transferTrace (request : GpuWorkRequest T) :
    Option (GpuWorkRequest T × Option CircuitPrecomputations) :=
  match request.kind with
  | .memoryCommitment => some (request, none)
  | .proof => do
      let setup ← setups.list.find? fun setup =>
        setup.setupTrace = request.precomputations.setupTrace
      some (request, some setup)

def startJob : GpuWorkRequest T × Option CircuitPrecomputations →
    Option (GpuWorkRequest T × WorkKind)
  | (request, setup) =>
    match request.kind with
    | .memoryCommitment => do
        guard (isPowerOfTwo request.precomputations.ldeFactor)
        guard (isPowerOfTwo request.precomputations.domainSize)
        some (request, .memoryCommitment)
    | .proof => do
        let _ ← setup
        some (request, .proof)

/-- Jobs of the other kind are unreachable. -/
def finishJob : GpuWorkRequest T × WorkKind → Option (GpuWorkResult T)
  | (request, job) => if job = request.kind then some request.result else none

/-- The body of the loop of `gpu_worker`, up to the point where the result is sent. -/
def Worker.handle (worker : Worker T) (request : Option (GpuWorkRequest T)) :
    Option (Worker T) := do
  let phaseOne ← request.mapM (transferTrace setups)
  let phaseTwo ← worker.currentPhaseOne.mapM startJob
  let result ← worker.currentPhaseTwo.mapM finishJob
  some ⟨phaseOne, phaseTwo, .computing result⟩

end

/-- The variables of the manager's loop; channels are represented by the ids of their batches. -/
structure Manager (n : ℕ) (T : Type) where
  batchesReceiver : Bool
  batchReceivers : Finset BatchId
  batchSenders : Finset BatchId
  workQueue : List (GpuWorkRequest T)
  batchesToFlush : Finset BatchId
  workerQueues : Fin n → List (Option BatchId)

/-- A pipeline whose second slot alone is in use can be moved on. -/
def advance : List (Option BatchId) → Bool
  | [none, some _] => true
  | _ => false

/-- A pipeline that holds work of a batch to flush. -/
def flush (batchesToFlush : Finset BatchId) (queue : List (Option BatchId)) : Bool :=
  queue.any fun item => item.any fun batchId => decide (batchId ∈ batchesToFlush)

namespace Manager

variable {n : ℕ} {T : Type}

def receiveBatch (manager : Manager n T) (batchId : BatchId) : Option (Manager n T) := do
  guard (batchId ∉ manager.batchReceivers)
  guard (batchId ∉ manager.batchSenders)
  some { manager with
    batchReceivers := insert batchId manager.batchReceivers
    batchSenders := insert batchId manager.batchSenders }

def receiveRequest (manager : Manager n T) (batchId : BatchId) (request : GpuWorkRequest T) :
    Option (Manager n T) := do
  guard (request.batchId = batchId)
  some { manager with workQueue := manager.workQueue ++ [request] }

def closeBatch (manager : Manager n T) (batchId : BatchId) : Option (Manager n T) := do
  guard (batchId ∈ manager.batchReceivers)
  guard (batchId ∉ manager.batchesToFlush)
  some { manager with
    batchReceivers := manager.batchReceivers.erase batchId
    batchesToFlush := insert batchId manager.batchesToFlush }

def Outstanding (manager : Manager n T) (batchId : BatchId) : Prop :=
  (∃ request ∈ manager.workQueue, request.batchId = batchId) ∨
    ∃ worker, some batchId ∈ manager.workerQueues worker

instance (manager : Manager n T) (batchId : BatchId) : Decidable (manager.Outstanding batchId) :=
  inferInstanceAs (Decidable (_ ∨ _))

/-- A batch to flush is complete with its last result. -/
def completeBatch (manager : Manager n T) (batchId : BatchId) : Manager n T :=
  if batchId ∈ manager.batchesToFlush ∧ ¬manager.Outstanding batchId then
    { manager with
      batchesToFlush := manager.batchesToFlush.erase batchId
      batchSenders := manager.batchSenders.erase batchId }
  else manager

/-- The result of a worker, and what is sent to the batch of its request. -/
def receiveResult (manager : Manager n T) (worker : Fin n) (result : Option (GpuWorkResult T)) :
    Option (Manager n T × Option (BatchId × GpuWorkResult T)) :=
  match manager.workerQueues worker with
  | [] => none
  | item :: queue =>
    let popped := { manager with
      workerQueues := Function.update manager.workerQueues worker queue }
    match result with
    | none => some (popped, none)
    | some result => do
        let batchId ← item
        guard (result.batchId = batchId)
        guard (batchId ∈ popped.batchSenders)
        some (popped.completeBatch batchId, some (batchId, result))

def advances (manager : Manager n T) (worker : Fin n) : Bool :=
  advance (manager.workerQueues worker) ||
    flush manager.batchesToFlush (manager.workerQueues worker)

/-- The next request for a worker; without requests its pipeline is moved on. -/
def sendWork (manager : Manager n T) (worker : Fin n) :
    Option (Manager n T × Option (GpuWorkRequest T)) :=
  match manager.workQueue with
  | [] => do
      guard (manager.advances worker)
      some ({ manager with
        workerQueues := Function.update manager.workerQueues worker
          (manager.workerQueues worker ++ [none]) }, none)
  | request :: rest =>
    some ({ manager with
      workQueue := rest
      workerQueues := Function.update manager.workerQueues worker
        (manager.workerQueues worker ++ [some request.batchId]) }, some request)

end Manager

/-- The manager, its workers, and the channels from which batches and their requests arrive. The
last three fields remember what has happened. -/
structure System (n : ℕ) (T : Type) where
  manager : Manager n T
  finished : Bool
  workers : Fin n → Worker T
  batches : List BatchId
  batchesClosed : Bool
  requests : BatchId → List (GpuWorkRequest T)
  requestsClosed : BatchId → Bool
  received : List (GpuWorkRequest T)
  handed : List (Fin n × GpuWorkRequest T)
  delivered : List (Fin n × BatchId × GpuWorkResult T)

inductive SelectOp (n : ℕ) where
  | batch
  | batchesDisconnected
  | request (batchId : BatchId)
  | requestsDisconnected (batchId : BatchId)
  | result (worker : Fin n)
  | send (worker : Fin n)
deriving DecidableEq

/-- What happens: the provers use the channels, the manager takes a turn of its loop, a worker
completes its body or leaves its loop. -/
inductive SystemEvent (n : ℕ) (T : Type) where
  | announce (batchId : BatchId)
  | closeBatches
  | produce (batchId : BatchId) (request : GpuWorkRequest T)
  | closeRequests (batchId : BatchId)
  | turn (op : SelectOp n) (candidates : List (Fin n))
  | finish (worker : Fin n)
  | exit (worker : Fin n)
deriving DecidableEq

namespace System

variable {n : ℕ} {T : Type} (setups : CachedSetups)

def initial : System n T where
  manager :=
    { batchesReceiver := true
      batchReceivers := ∅
      batchSenders := ∅
      workQueue := []
      batchesToFlush := ∅
      workerQueues := fun _ => [none, none] }
  finished := false
  workers := fun _ => ⟨none, none, .waiting⟩
  batches := []
  batchesClosed := false
  requests := fun _ => []
  requestsClosed := fun _ => false
  received := []
  handed := []
  delivered := []

/-- Whether an operation can be selected. A channel is disconnected when it is closed and
everything in it has been received. -/
def Ready (system : System n T) : SelectOp n → Prop
  | .batch => system.manager.batchesReceiver = true ∧ system.batches ≠ []
  | .batchesDisconnected =>
    system.manager.batchesReceiver = true ∧ system.batches = [] ∧ system.batchesClosed = true
  | .request batchId => batchId ∈ system.manager.batchReceivers ∧ system.requests batchId ≠ []
  | .requestsDisconnected batchId =>
    batchId ∈ system.manager.batchReceivers ∧ system.requests batchId = [] ∧
      system.requestsClosed batchId = true
  | .result worker => ∃ result, (system.workers worker).stage = .answering result
  | .send worker => (system.workers worker).stage = .waiting ∧
      (system.manager.workQueue ≠ [] ∨ system.manager.advances worker = true)

def feed (system : System n T) (worker : Fin n) : Option (System n T) := do
  let (manager, request) ← system.manager.sendWork worker
  let fed ← (system.workers worker).handle setups request
  some { system with
    manager
    workers := Function.update system.workers worker fed
    handed := system.handed ++ (request.map fun request => (worker, request)).toList }

def select (system : System n T) : SelectOp n → Option (System n T)
  | .batch =>
    match system.batches with
    | [] => none
    | batchId :: batches => do
        let manager ← system.manager.receiveBatch batchId
        some { system with manager, batches }
  | .batchesDisconnected =>
    some { system with manager := { system.manager with batchesReceiver := false } }
  | .request batchId =>
    match system.requests batchId with
    | [] => none
    | request :: requests => do
        let manager ← system.manager.receiveRequest batchId request
        some { system with
          manager
          requests := Function.update system.requests batchId requests
          received := system.received ++ [request] }
  | .requestsDisconnected batchId => do
      let manager ← system.manager.closeBatch batchId
      some { system with manager }
  | .result worker =>
    match (system.workers worker).stage with
    | .answering result => do
        let (manager, delivery) ← system.manager.receiveResult worker result
        some { system with
          manager
          workers := Function.update system.workers worker
            { system.workers worker with stage := .waiting }
          delivered := system.delivered ++
            (delivery.map fun delivery => (worker, delivery)).toList }
    | _ => none
  | .send worker => system.feed setups worker

/-- The inner loop: as long as there are requests, they are sent to workers that are found
waiting. The source looks at the workers in the order of their queues, while these may begin to
wait at any moment; every order is considered here. -/
def drain (system : System n T) : List (Fin n) → Option (System n T)
  | [] => some system
  | worker :: rest =>
    if !system.manager.workQueue.isEmpty && (system.workers worker).stage.isWaiting then do
      let fed ← system.feed setups worker
      fed.drain rest
    else system.drain rest

/-- The loop ends when no batch can arrive and none is left. -/
def checkFinished (system : System n T) : System n T :=
  { system with
    finished := !system.manager.batchesReceiver && decide (system.manager.batchSenders = ∅) }

def turn (system : System n T) (op : SelectOp n) (candidates : List (Fin n)) :
    Option (System n T) := do
  let selected ← system.select setups op
  let drained ← selected.drain setups candidates
  some drained.checkFinished

/-- The producers of a batch use its channel from the moment the batch is sent to the manager. -/
def Producing (system : System n T) (batchId : BatchId) : Prop :=
  (batchId ∈ system.batches ∨ batchId ∈ system.manager.batchReceivers) ∧
    system.requestsClosed batchId = false

/-- The provers promise that the id of a new batch is not the id of one in progress, and that
requests carry the id of their batch and come with precomputations whose setup is cached. -/
def Enabled (system : System n T) : SystemEvent n T → Prop
  | .announce batchId => system.batchesClosed = false ∧ batchId ∉ system.batches ∧
      batchId ∉ system.manager.batchSenders
  | .closeBatches => system.batchesClosed = false
  | .produce batchId request => system.Producing batchId ∧ request.batchId = batchId ∧
      request.precomputations ∈ setups.list
  | .closeRequests batchId => system.Producing batchId
  | .turn op _ => system.finished = false ∧ system.Ready op
  | .finish worker => ∃ result, (system.workers worker).stage = .computing result
  | .exit worker => system.finished = true ∧ (system.workers worker).stage = .waiting

section

instance (stage : WorkerStage T) : Decidable (∃ result, stage = .computing result) :=
  match stage with
  | .computing result => isTrue ⟨result, rfl⟩
  | .waiting => isFalse (by simp)
  | .answering _ => isFalse (by simp)

instance (stage : WorkerStage T) : Decidable (∃ result, stage = .answering result) :=
  match stage with
  | .answering result => isTrue ⟨result, rfl⟩
  | .waiting => isFalse (by simp)
  | .computing _ => isFalse (by simp)

instance (stage : WorkerStage T) : Decidable (stage = .waiting) :=
  match stage with
  | .waiting => isTrue rfl
  | .computing _ => isFalse (by simp)
  | .answering _ => isFalse (by simp)

instance (system : System n T) (op : SelectOp n) : Decidable (system.Ready op) := by
  cases op <;> unfold Ready <;> infer_instance

instance (system : System n T) (batchId : BatchId) : Decidable (system.Producing batchId) :=
  inferInstanceAs (Decidable (_ ∧ _))

instance (system : System n T) (event : SystemEvent n T) :
    Decidable (system.Enabled setups event) := by
  cases event <;> unfold Enabled <;> infer_instance

end

def perform (system : System n T) : SystemEvent n T → Option (System n T)
  | .announce batchId =>
    some { system with
      batches := system.batches ++ [batchId]
      requests := Function.update system.requests batchId []
      requestsClosed := Function.update system.requestsClosed batchId false }
  | .closeBatches => some { system with batchesClosed := true }
  | .produce batchId request =>
    some { system with
      requests := Function.update system.requests batchId (system.requests batchId ++ [request]) }
  | .closeRequests batchId =>
    some { system with requestsClosed := Function.update system.requestsClosed batchId true }
  | .turn op candidates => system.turn setups op candidates
  | .finish worker =>
    match (system.workers worker).stage with
    | .computing result =>
      -- Once the manager has gone, nobody receives the result.
      if system.finished then none
      else some { system with
        workers := Function.update system.workers worker
          { system.workers worker with stage := .answering result } }
    | _ => none
  | .exit worker => do
      guard (system.workers worker).currentPhaseOne.isNone
      guard (system.workers worker).currentPhaseTwo.isNone
      some system

end System

def gpuSystem (n : ℕ) (T : Type) (setups : CachedSetups) :
    CheckedSystem (System n T) (SystemEvent n T) where
  initial := System.initial
  enabled := System.Enabled setups
  perform := System.perform setups

instance (n : ℕ) (T : Type) (setups : CachedSetups) (system : System n T)
    (event : SystemEvent n T) : Decidable ((gpuSystem n T setups).enabled system event) :=
  inferInstanceAs (Decidable (system.Enabled setups event))

end Airbender.Execution

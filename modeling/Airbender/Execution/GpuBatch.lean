import Airbender.Execution.GpuManagerLiveness

/-!
# One batch in the GPU manager

What the prover of a batch notices of the manager: requests are received in order, results come back
in any order, and the sender is dropped with the last result after the request channel has been seen
closed. Every event of the system is one move of this small machine, whose label is known from the
event, or none.
-/

namespace Airbender.Execution

open List Finset

/-- The request channel of a batch, and what the manager holds of it. -/
structure GpuBatch (T : Type) where
  requests : List (GpuWorkRequest T)
  requestsClosed : Bool
  /-- The results of what is in the work queue or in a pipeline. -/
  outstanding : List (GpuWorkResult T)
  toFlush : Bool
  senderDropped : Bool

namespace GpuBatch

variable {T : Type}

def accept (batch : GpuBatch T) : Option (GpuBatch T) :=
  match batch.requests with
  | [] => none
  | request :: requests =>
    some { batch with requests, outstanding := batch.outstanding ++ [request.result] }

def disconnect (batch : GpuBatch T) : Option (GpuBatch T) :=
  if batch.requests.isEmpty && batch.requestsClosed && !batch.toFlush then
    some { batch with toFlush := true }
  else none

/-- The manager delivers a result. Only then it looks whether the batch is complete. -/
def deliver (batch : GpuBatch T) (index : ℕ) : Option (GpuBatch T × GpuWorkResult T) := do
  let result ← batch.outstanding[index]?
  let outstanding := batch.outstanding.eraseIdx index
  some ({ batch with
    outstanding
    senderDropped := batch.senderDropped || (batch.toFlush && outstanding.isEmpty) }, result)

/-- What happens to a batch: its prover uses the channel, or the manager takes a step with it. -/
inductive Label (T : Type) where
  | produce (request : GpuWorkRequest T)
  | close
  | accept (request : GpuWorkRequest T)
  | disconnect
  | deliver (result : GpuWorkResult T)
deriving DecidableEq

/-- The moves of the small machine by their labels; without a label it stays where it is. -/
inductive Moves (batch : GpuBatch T) : Option (Label T) → GpuBatch T → Prop where
  | silent : Moves batch none batch
  | produce {request : GpuWorkRequest T} (opened : batch.requestsClosed = false) :
      Moves batch (some (.produce request))
        { batch with requests := batch.requests ++ [request] }
  | close (opened : batch.requestsClosed = false) :
      Moves batch (some .close) { batch with requestsClosed := true }
  | accept {request : GpuWorkRequest T} {after : GpuBatch T}
      (next : batch.requests.head? = some request) (accepted : batch.accept = some after) :
      Moves batch (some (.accept request)) after
  | disconnect {after : GpuBatch T} (disconnected : batch.disconnect = some after) :
      Moves batch (some .disconnect) after
  | deliver {after : GpuBatch T} {index : ℕ} {result : GpuWorkResult T}
      (delivered : batch.deliver index = some (after, result)) :
      Moves batch (some (.deliver result)) after

/-- The sender is dropped with the last result, after the channel has been seen closed. -/
theorem Moves.senderDropped_iff {batch after : GpuBatch T} {label : Option (Label T)}
    (moves : batch.Moves label after) (kept : batch.senderDropped = false) :
    after.senderDropped = true ↔ ∃ result, label = some (.deliver result) ∧
      batch.toFlush = true ∧ batch.outstanding = [result] := by
  cases moves with
  | silent => simp [kept]
  | produce => simp [kept]
  | close => simp [kept]
  | accept next accepted =>
    unfold GpuBatch.accept at accepted
    split at accepted <;> cases accepted
    simp [kept]
  | disconnect disconnected =>
    unfold GpuBatch.disconnect at disconnected
    split_ifs at disconnected
    cases disconnected
    simp [kept]
  | @deliver after index result delivered =>
    simp only [GpuBatch.deliver, Option.bind_eq_bind, Option.bind_eq_some_iff, Option.some.injEq,
      Prod.mk.injEq] at delivered
    obtain ⟨_, isResult, rfl, rfl⟩ := delivered
    obtain ⟨bound, isResult⟩ := List.getElem?_eq_some_iff.mp isResult
    have last : batch.outstanding.eraseIdx index = [] ↔
        batch.outstanding = [batch.outstanding[index]] := by
      have perm := getElem_cons_eraseIdx_perm bound
      constructor
      · intro empty
        rw [empty] at perm
        exact (perm_singleton.mp perm.symm)
      · intro single
        have length := perm.length_eq
        rw [congrArg List.length single, length_cons, length_singleton] at length
        exact eq_nil_of_length_eq_zero (Nat.succ.inj length)
    simp [kept, last, isResult]

end GpuBatch

theorem sum_update_part {n : ℕ} {A M : Type} [AddCommMonoid M] (values : Fin n → A)
    (index : Fin n) (changed : A) (part : A → M) :
    ∑ other, part (Function.update values index changed other) + part (values index) =
      ∑ other, part (values other) + part changed := by
  have same : ∀ other, part (Function.update values index changed other) =
      Function.update (part ∘ values) index (part changed) other := by
    intro other
    by_cases equal : other = index
    · subst equal
      simp
    · simp [equal]
  rw [sum_congr rfl fun other _ => same other,
    sum_update_of_mem (mem_univ index),
    ← sum_sdiff (subset_univ {index})]
  simp only [Finset.sum_singleton, Function.comp_apply]
  ac_rfl

namespace System

variable {n : ℕ} {T : Type} {setups : CachedSetups}

def queuedOf (batchId : BatchId) (queue : List (GpuWorkRequest T)) :
    Multiset (GpuWorkResult T) :=
  ((queue.map GpuWorkRequest.result).filter (·.batchId = batchId) : List (GpuWorkResult T))

def owedOf (batchId : BatchId) (worker : Worker T) : Multiset (GpuWorkResult T) :=
  (worker.inFlight.filter (·.batchId = batchId) : List (GpuWorkResult T))

def outstandingOf (batchId : BatchId) (system : System n T) : Multiset (GpuWorkResult T) :=
  queuedOf batchId system.manager.workQueue + ∑ worker, owedOf batchId (system.workers worker)

theorem queuedOf_append (batchId : BatchId) (first second : List (GpuWorkRequest T)) :
    queuedOf batchId (first ++ second) = queuedOf batchId first + queuedOf batchId second := by
  rw [queuedOf, map_append, filter_append, ← Multiset.coe_add]
  rfl

structure Shows (batchId : BatchId) (system : System n T) (batch : GpuBatch T) : Prop where
  requests : batch.requests = system.requests batchId
  closed : batch.requestsClosed = system.requestsClosed batchId
  outstanding : (batch.outstanding : Multiset (GpuWorkResult T)) = system.outstandingOf batchId
  toFlush : batchId ∈ system.manager.batchSenders →
    batch.toFlush = decide (batchId ∈ system.manager.batchesToFlush)
  dropped : batch.senderDropped = decide (batchId ∉ system.manager.batchSenders)

/-- What an event is for a batch. -/
def observed (batchId : BatchId) (system : System n T) :
    SystemEvent n T → Option (GpuBatch.Label T)
  | .produce other request => if other = batchId then some (.produce request) else none
  | .closeRequests other => if other = batchId then some .close else none
  | .turn (.request other) _ =>
    if other = batchId then (system.requests batchId).head?.map .accept else none
  | .turn (.requestsDisconnected other) _ => if other = batchId then some .disconnect else none
  | .turn (.result worker) _ =>
    match (system.workers worker).stage with
    | .answering (some result) =>
      if result.batchId = batchId then some (.deliver result) else none
    | _ => none
  | _ => none

variable {system after : System n T} {batchId : BatchId}

theorem Fed.outstandingOf {worker : Fin n} {request : Option (GpuWorkRequest T)}
    {rest : List (GpuWorkRequest T)} {fed : Worker T}
    (isFed : Fed setups system after worker request rest fed) :
    after.outstandingOf batchId = system.outstandingOf batchId := by
  have moved := sum_update_part system.workers worker fed (owedOf batchId)
  have owed : owedOf batchId fed =
      owedOf batchId (system.workers worker) + queuedOf batchId request.toList := by
    rw [owedOf, isFed.inFlight, filter_append, ← Multiset.coe_add]
    cases request <;> rfl
  have sums : ∑ other, owedOf batchId (Function.update system.workers worker fed other) =
      ∑ other, owedOf batchId (system.workers other) + queuedOf batchId request.toList := by
    rw [owed] at moved
    apply add_right_cancel (b := owedOf batchId (system.workers worker))
    rw [moved]
    ac_rfl
  rw [System.outstandingOf, System.outstandingOf, isFed.queue, isFed.after_eq]
  change queuedOf batchId rest +
      ∑ other, owedOf batchId (Function.update system.workers worker fed other) = _
  rw [sums, queuedOf_append]
  ac_rfl

theorem FedSteps.outstandingOf {system after : System n T} (steps : FedSteps setups system after) :
    after.outstandingOf batchId = system.outstandingOf batchId := by
  induction steps with
  | refl => rfl
  | step _ isFed _ ih => exact ih.trans isFed.outstandingOf

theorem sum_owedOf_delivered {worker : Fin n} {result : Option (GpuWorkResult T)}
    (answering : (system.workers worker).stage = .answering result) :
    ∑ other, owedOf batchId (system.workers other) =
      (result.toList.filter (·.batchId = batchId) : List (GpuWorkResult T)) +
        ∑ other, owedOf batchId (Function.update system.workers worker
          { system.workers worker with stage := .waiting } other) := by
  have moved := sum_update_part system.workers worker
    { system.workers worker with stage := .waiting } (owedOf batchId)
  have inFlight : (system.workers worker).inFlight =
      result.toList ++ { system.workers worker with stage := .waiting }.inFlight := by
    simp only [Worker.inFlight, Worker.slots, answering, WorkerStage.offered, cons_append,
      nil_append]
    cases result <;> rfl
  have owed : owedOf batchId (system.workers worker) =
      (result.toList.filter (·.batchId = batchId) : List (GpuWorkResult T)) +
        owedOf batchId { system.workers worker with stage := .waiting } := by
    rw [owedOf, inFlight, filter_append, ← Multiset.coe_add]
    rfl
  apply add_right_cancel (b := owedOf batchId { system.workers worker with stage := .waiting })
  rw [← moved, owed]
  ac_rfl

theorem Invariant.outstanding_iff (invariant : system.Invariant setups) :
    system.manager.Outstanding batchId ↔ system.outstandingOf batchId ≠ 0 := by
  have queued : (∃ request ∈ system.manager.workQueue, request.batchId = batchId) ↔
      queuedOf batchId system.manager.workQueue ≠ 0 := by
    simp [queuedOf, GpuWorkRequest.result, filter_eq_nil_iff]
  have piped : (∃ worker, some batchId ∈ system.manager.workerQueues worker) ↔
      ∑ worker, owedOf batchId (system.workers worker) ≠ 0 := by
    simp [invariant.mem_workerQueues_iff, owedOf, Finset.sum_eq_zero_iff, filter_eq_nil_iff]
  rw [Manager.Outstanding, queued, piped, System.outstandingOf, ne_eq, ne_eq, ne_eq,
    add_eq_zero, not_and_or]

variable {batch : GpuBatch T}

theorem Shows.of_intake (shows : Shows batchId system batch)
    (sameIntake : after.intake = system.intake)
    (sameOutstanding : after.outstandingOf batchId = system.outstandingOf batchId) :
    Shows batchId after batch where
  requests := by
    have same : after.requests = system.requests := congrArg Intake.requests sameIntake
    rw [same]
    exact shows.requests
  closed := by
    have same : after.requestsClosed = system.requestsClosed :=
      congrArg Intake.requestsClosed sameIntake
    rw [same]
    exact shows.closed
  outstanding := by
    rw [sameOutstanding]
    exact shows.outstanding
  toFlush := by
    have sameFlush : after.manager.batchesToFlush = system.manager.batchesToFlush :=
      congrArg Intake.batchesToFlush sameIntake
    have sameSenders : after.manager.batchSenders = system.manager.batchSenders :=
      congrArg Intake.batchSenders sameIntake
    rw [sameFlush, sameSenders]
    exact shows.toFlush
  dropped := by
    have same : after.manager.batchSenders = system.manager.batchSenders :=
      congrArg Intake.batchSenders sameIntake
    rw [same]
    exact shows.dropped

theorem Shows.selected_request (shows : Shows batchId system batch)
    (invariant : system.Invariant setups) {other : BatchId} (candidates : List (Fin n))
    (selected : Selected setups system (.request other) after) :
    ∃ moved, batch.Moves (observed batchId system (.turn (.request other) candidates)) moved ∧
      Shows batchId after moved := by
  cases selected with
  | @request _ request requests receiving isRequest =>
    have ofOther := (invariant.produced other request (by simp [isRequest])).1
    by_cases same : batchId = other
    · subst same
      have accepted : batch.accept = some { batch with
          requests, outstanding := batch.outstanding ++ [request.result] } := by
        simp [GpuBatch.accept, shows.requests, isRequest]
      have label : observed batchId system (.turn (.request batchId) candidates) =
          some (.accept request) := by
        simp [observed, isRequest]
      rw [label]
      refine ⟨_, .accept (by simp [shows.requests, isRequest]) accepted,
        { shows with requests := ?_, outstanding := ?_ }⟩
      · simp
      · rw [← Multiset.coe_add, shows.outstanding]
        simp only [System.outstandingOf, queuedOf_append]
        have own : queuedOf batchId [request] = ([request.result] : List (GpuWorkResult T)) := by
          simp [queuedOf, GpuWorkRequest.result, ofOther]
        rw [own]
        ac_rfl
    · simp only [observed, if_neg (Ne.symm same)]
      refine ⟨batch, .silent, { shows with requests := ?_, outstanding := ?_ }⟩
      · simpa [same] using shows.requests
      · rw [shows.outstanding]
        have foreign : queuedOf batchId [request] = 0 := by
          simp [queuedOf, GpuWorkRequest.result, ofOther, Ne.symm same]
        simp only [System.outstandingOf, queuedOf_append, foreign, add_zero]

theorem exists_eraseIdx {α : Type} {items : List α} {item : α} {rest : Multiset α}
    (counted : (items : Multiset α) = item ::ₘ rest) :
    ∃ index, items[index]? = some item ∧ (items.eraseIdx index : Multiset α) = rest := by
  have member : item ∈ items := by
    rw [← Multiset.mem_coe, counted]
    exact Multiset.mem_cons_self _ _
  obtain ⟨index, bound, isItem⟩ := mem_iff_getElem.mp member
  refine ⟨index, by rw [getElem?_eq_getElem bound, isItem], ?_⟩
  have split := Multiset.coe_eq_coe.mpr (getElem_cons_eraseIdx_perm bound)
  rw [isItem, counted, ← Multiset.cons_coe] at split
  exact (Multiset.cons_inj_right _).mp split

theorem Shows.selected_result (shows : Shows batchId system batch)
    (invariant : system.Invariant setups) (live : batchId ∈ system.manager.batchSenders)
    {worker : Fin n} (candidates : List (Fin n))
    (selected : Selected setups system (.result worker) after) :
    ∃ moved, batch.Moves (observed batchId system (.turn (.result worker) candidates)) moved ∧
      Shows batchId after moved := by
  cases selected with
  | noResult answering isQueue =>
    simp only [observed, answering]
    refine ⟨batch, .silent, { shows with outstanding := ?_ }⟩
    rw [shows.outstanding, System.outstandingOf, sum_owedOf_delivered answering]
    simp [System.outstandingOf]
  | @result _ result queue answering isQueue _ =>
    have delivered := @sum_owedOf_delivered _ _ _ batchId _ _ answering
    by_cases same : result.batchId = batchId
    · subst same
      have counted : (batch.outstanding : Multiset (GpuWorkResult T)) =
          result ::ₘ (queuedOf result.batchId system.manager.workQueue +
            ∑ other, owedOf result.batchId (Function.update system.workers worker
              { system.workers worker with stage := .waiting } other)) := by
        rw [shows.outstanding, System.outstandingOf, delivered]
        simp
      obtain ⟨index, isResult, rest⟩ := exists_eraseIdx counted
      have idle : ¬Manager.Outstanding { system.manager with
          workerQueues := Function.update system.manager.workerQueues worker queue }
          result.batchId ↔ batch.outstanding.eraseIdx index = [] := by
        rw [← Multiset.coe_eq_zero, rest, ← not_iff_not, not_not]
        exact (invariant.popped answering isQueue).outstanding_iff
      have delivers : batch.deliver index = some ({ batch with
          outstanding := batch.outstanding.eraseIdx index
          senderDropped := batch.senderDropped ||
            (batch.toFlush && (batch.outstanding.eraseIdx index).isEmpty) }, result) := by
        simp [GpuBatch.deliver, isResult]
      simp only [observed, answering, if_true]
      refine ⟨_, .deliver delivers, ⟨shows.requests, shows.closed, ?_, ?_, ?_⟩⟩
      · rw [rest]
        simp [System.outstandingOf]
      · simp only [Manager.completeBatch]
        split_ifs with complete
        · exact fun isLive => absurd isLive (notMem_erase _ _)
        · exact fun _ => shows.toFlush live
      · rw [shows.dropped, shows.toFlush live]
        simp only [Manager.completeBatch]
        split_ifs with complete
        · simp [complete.1, idle.mp complete.2]
        · rw [not_and_or, idle.not] at complete
          rcases complete with notFlushed | more
          · simp [live, notFlushed]
          · simp [live, more]
    · have unaffected := Manager.mem_completeBatch_of_ne { system.manager with
        workerQueues := Function.update system.manager.workerQueues worker queue }
        (Ne.symm same)
      simp only [observed, answering, if_neg same]
      refine ⟨batch, .silent, ⟨shows.requests, shows.closed, ?_, ?_, ?_⟩⟩
      · rw [shows.outstanding, System.outstandingOf, delivered]
        simp [System.outstandingOf, same]
      · intro _
        rw [shows.toFlush live]
        exact decide_eq_decide.mpr unaffected.1.symm
      · rw [shows.dropped]
        exact decide_eq_decide.mpr unaffected.2.symm.not

theorem Shows.selected (shows : Shows batchId system batch) (invariant : system.Invariant setups)
    (live : batchId ∈ system.manager.batchSenders) {op : SelectOp n} (candidates : List (Fin n))
    (selected : Selected setups system op after) :
    ∃ moved, batch.Moves (observed batchId system (.turn op candidates)) moved ∧
      Shows batchId after moved := by
  cases selected with
  | @batch other batches isBatch =>
    have fresh := invariant.announced other (by simp [isBatch])
    have different : batchId ≠ other := fun same => fresh (same ▸ live)
    refine ⟨batch, .silent, { shows with toFlush := fun _ => shows.toFlush live, dropped := ?_ }⟩
    rw [shows.dropped]
    simp [different]
  | batchesDisconnected =>
    exact ⟨batch, .silent, { shows with }⟩
  | request receiving isRequest =>
    exact shows.selected_request invariant candidates (.request receiving isRequest)
  | @requestsDisconnected other receiving empty closed =>
    by_cases same : batchId = other
    · subst same
      have notFlushed := Finset.disjoint_left.mp invariant.flush_disjoint receiving
      have disconnected : batch.disconnect = some { batch with toFlush := true } := by
        simp [GpuBatch.disconnect, shows.requests, shows.closed, shows.toFlush live, empty,
          closed, notFlushed]
      simp only [observed, if_true]
      refine ⟨_, .disconnect disconnected, { shows with toFlush := ?_ }⟩
      simp
    · simp only [observed, if_neg (Ne.symm same)]
      refine ⟨batch, .silent, { shows with toFlush := ?_ }⟩
      intro _
      rw [shows.toFlush live]
      simp [same]
  | noResult answering isQueue =>
    exact shows.selected_result invariant live candidates (.noResult answering isQueue)
  | result answering isQueue isLive =>
    exact shows.selected_result invariant live candidates (.result answering isQueue isLive)
  | send waiting isFed =>
    refine ⟨batch, .silent, shows.of_intake ?_ isFed.outstandingOf⟩
    rw [isFed.after_eq]
    rfl

theorem Shows.step (shows : Shows batchId system batch) (invariant : system.Invariant setups)
    (live : batchId ∈ system.manager.batchSenders) {event : SystemEvent n T}
    (step : (gpuSystem n T setups).Step system event after) :
    ∃ moved, batch.Moves (observed batchId system event) moved ∧ Shows batchId after moved := by
  cases event with
  | announce other =>
    rcases step with ⟨⟨-, -, notLive⟩, performed⟩
    have different : batchId ≠ other := fun same => notLive (same ▸ live)
    cases performed
    refine ⟨batch, .silent, { shows with requests := ?_, closed := ?_ }⟩
    · simpa [different] using shows.requests
    · simpa [different] using shows.closed
  | produce other request =>
    cases step.2
    by_cases same : batchId = other
    · subst same
      have opened := shows.closed.trans step.1.1.2
      simp only [observed, if_true]
      refine ⟨_, .produce opened, { shows with requests := ?_ }⟩
      simp [shows.requests]
    · simp only [observed, if_neg (Ne.symm same)]
      refine ⟨batch, .silent, { shows with requests := ?_ }⟩
      simpa [same] using shows.requests
  | closeRequests other =>
    cases step.2
    by_cases same : batchId = other
    · subst same
      have opened := shows.closed.trans step.1.2
      simp only [observed, if_true]
      refine ⟨_, .close opened, { shows with closed := ?_ }⟩
      simp
    · simp only [observed, if_neg (Ne.symm same)]
      refine ⟨batch, .silent, { shows with closed := ?_ }⟩
      simpa [same] using shows.closed
  | turn op candidates =>
    rcases invariant.turn_inversion step with ⟨middle, drained, selected, steps, rfl⟩
    rcases shows.selected invariant live candidates selected with ⟨moved, moves, middleShows⟩
    exact ⟨moved, moves, middleShows.of_intake steps.intake steps.outstandingOf⟩
  | closeBatches =>
    cases step.2
    exact ⟨batch, .silent, { shows with }⟩
  | finish worker =>
    rcases finish_inversion step with ⟨result, computing, rfl⟩
    refine ⟨batch, .silent, shows.of_intake rfl ?_⟩
    have sameOwed : ∀ other, owedOf batchId (Function.update system.workers worker
        { system.workers worker with stage := .answering result } other) =
        owedOf batchId (system.workers other) := by
      intro other
      by_cases same : other = worker
      · subst same
        simp [owedOf, Worker.inFlight, Worker.slots, WorkerStage.offered, computing]
      · simp [same]
    simp only [System.outstandingOf, sameOwed]
  | exit worker =>
    rw [exit_inversion step]
    exact ⟨batch, .silent, shows⟩

theorem exists_shows (batchId : BatchId) (system : System n T) :
    ∃ batch, Shows batchId system batch :=
  ⟨{ requests := system.requests batchId
     requestsClosed := system.requestsClosed batchId
     outstanding := (system.outstandingOf batchId).toList
     toFlush := batchId ∈ system.manager.batchesToFlush
     senderDropped := batchId ∉ system.manager.batchSenders },
    rfl, rfl, Multiset.coe_toList _, fun _ => rfl, rfl⟩

section

variable (run : (gpuSystem n T setups).Run) (batchId : BatchId)

/-- The manager has the sender of the batch from `start` on, at least until just before `stop`. -/
def LiveBetween (start stop : ℕ) : Prop :=
  ∀ time, start ≤ time → time < stop → batchId ∈ (run.state time).manager.batchSenders

def observation (time : ℕ) : Option (GpuBatch.Label T) :=
  (run.event time).bind (observed batchId (run.state time))

theorem Shows.follow {time : ℕ} (shows : Shows batchId (run.state time) batch)
    (live : batchId ∈ (run.state time).manager.batchSenders) :
    ∃ moved, batch.Moves (observation run batchId time) moved ∧
      Shows batchId (run.state (time + 1)) moved := by
  cases happens : run.event time with
  | none =>
    rw [run.idle time happens, observation, happens]
    exact ⟨batch, .silent, shows⟩
  | some event =>
    rw [observation, happens]
    exact shows.step (reachable_invariant (run.reachable time)) live (run.step time event happens)

/-- Whatever all batches do at the same time, each of them runs like the small machine: as long as
the manager has its sender, every moment of a run is the move that is observed. -/
theorem manager_simulated_by_batch (start : ℕ) :
    (∃ batch, Shows batchId (run.state start) batch) ∧
      ∀ batch, Shows batchId (run.state start) batch →
        ∃ batches : ℕ → GpuBatch T, batches start = batch ∧
          ∀ time, start ≤ time → LiveBetween run batchId start time →
            Shows batchId (run.state time) (batches time) ∧
            (batchId ∈ (run.state time).manager.batchSenders →
              (batches time).Moves (observation run batchId time) (batches (time + 1)) ∧
              ((batches (time + 1)).senderDropped = true ↔
                ∃ result, observation run batchId time = some (.deliver result) ∧
                  (batches time).toFlush = true ∧ (batches time).outstanding = [result])) := by
  refine ⟨exists_shows batchId _, fun batch shows => ?_⟩
  have follow : ∀ time current, start ≤ time →
      (LiveBetween run batchId start time → Shows batchId (run.state time) current) →
      ∃ moved, (LiveBetween run batchId start (time + 1) →
          current.Moves (observation run batchId time) moved) ∧
        (LiveBetween run batchId start (time + 1) →
          Shows batchId (run.state (time + 1)) moved) := by
    intro time current le related
    by_cases live : LiveBetween run batchId start (time + 1)
    · have before : LiveBetween run batchId start time :=
        fun earlier le less => live earlier le (Nat.lt_succ_of_lt less)
      obtain ⟨moved, moves, later⟩ := (related before).follow run batchId
        (live time le (Nat.lt_succ_self time))
      exact ⟨moved, fun _ => moves, fun _ => later⟩
    · exact ⟨current, fun holds => absurd holds live, fun holds => absurd holds live⟩
  obtain ⟨batches, first, along⟩ := CheckedSystem.Run.exists_following
    (fun time batch => LiveBetween run batchId start time → Shows batchId (run.state time) batch)
    (fun time batch moved => LiveBetween run batchId start (time + 1) →
      batch.Moves (observation run batchId time) moved)
    start batch (fun _ => shows) follow
  refine ⟨batches, first, fun time le live => ?_⟩
  obtain ⟨related, follows⟩ := along time le
  refine ⟨related live, fun now => ?_⟩
  have moves := follows fun earlier later less =>
    (Nat.lt_succ_iff_lt_or_eq.mp less).elim (live earlier later) (fun same => same ▸ now)
  have kept : (batches time).senderDropped = false := by
    rw [(related live).dropped]
    simpa using now
  exact ⟨moves, moves.senderDropped_iff kept⟩

end

/-- The second batch of the run in which it overtakes the first one: what it observes between the
events of the first, and that its sender is dropped with its result. -/
theorem manager_simulated_by_batch_overtaking :
    (List.range 23).filterMap (fun step => observation overtakingRun 1 (4 + step)) =
        [.produce (smallRequest 1), .accept (smallRequest 1), .close, .disconnect,
          .deliver (smallRequest 1).result] ∧
      ∃ batches : ℕ → GpuBatch Unit,
        (∀ time, 4 ≤ time → time < 27 →
          (batches time).Moves (observation overtakingRun 1 time) (batches (time + 1))) ∧
        (batches 26).outstanding = [(smallRequest 1).result] ∧
        (batches 26).senderDropped = false ∧ (batches 27).senderDropped = true := by
  have live : ∀ time < 27, 4 ≤ time → 1 ∈ (overtakingRun.state time).manager.batchSenders := by
    decide +kernel
  have gone : 1 ∉ (overtakingRun.state 27).manager.batchSenders := by decide +kernel
  have liveUntil : ∀ stop ≤ 27, LiveBetween overtakingRun 1 4 stop :=
    fun stop le time later less => live time (Nat.lt_of_lt_of_le less le) later
  obtain ⟨⟨batch, shows⟩, simulated⟩ := manager_simulated_by_batch overtakingRun 1 4
  obtain ⟨batches, -, along⟩ := simulated batch shows
  have dropped : (batches 27).senderDropped = true := by
    rw [(along 27 (by decide) (liveUntil 27 (by decide))).1.dropped]
    exact decide_eq_true gone
  obtain ⟨before, moves⟩ := along 26 (by decide) (liveUntil 26 (by decide))
  obtain ⟨result, delivered, -, last⟩ := (moves (live 26 (by decide) (by decide))).2.mp dropped
  have isResult : observation overtakingRun 1 26 = some (.deliver (smallRequest 1).result) := by
    decide +kernel
  cases delivered.symm.trans isResult
  refine ⟨by decide +kernel, batches, fun time le less => ?_, last, ?_, dropped⟩
  · exact ((along time le (liveUntil time (Nat.le_of_lt less))).2 (live time less le)).1
  · rw [before.dropped]
    exact decide_eq_false (not_not_intro (live 26 (by decide) (by decide)))

end System

end Airbender.Execution

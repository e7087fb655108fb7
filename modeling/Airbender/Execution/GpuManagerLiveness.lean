import Airbender.Execution.GpuManagerSteps

/-!
# Liveness of the GPU manager

The sender of a batch is dropped with a result after which nothing of the batch is outstanding,
provided that the request channel has been seen closed before. A batch with nothing outstanding at
that moment is never completed, and the manager never stops; all others are completed.
-/

namespace Airbender.Execution

open List Finset

variable {n : ℕ} {T : Type} {setups : CachedSetups}

/-- Operations that stay ready are selected, and workers complete what they compute. -/
structure FairRun (run : (gpuSystem n T setups).Run) : Prop where
  turns : ∀ op, run.Fair (fun system => system.finished = false ∧ system.Ready op)
    (fun event => ∃ candidates, event = .turn op candidates)
  workers : ∀ worker,
    run.Fair (fun system => ∃ result, (system.workers worker).stage = .computing result)
      (fun event => event = .finish worker)

def CanMove (worker : Fin n) (stage : WorkerStage T) (system : System n T) : Prop :=
  match stage with
  | .waiting => system.finished = false ∧ system.Ready (.send worker)
  | .computing _ => ∃ result, (system.workers worker).stage = .computing result
  | .answering _ => system.finished = false ∧ system.Ready (.result worker)

def Moves (worker : Fin n) (stage : WorkerStage T) (event : SystemEvent n T) : Prop :=
  match stage with
  | .waiting => ∃ candidates, event = .turn (.send worker) candidates
  | .computing _ => event = .finish worker
  | .answering _ => ∃ candidates, event = .turn (.result worker) candidates

theorem FairRun.moves {run : (gpuSystem n T setups).Run} (fair : FairRun run) (worker : Fin n)
    (stage : WorkerStage T) : run.Fair (CanMove worker stage) (Moves worker stage) := by
  cases stage with
  | waiting => exact fair.turns (.send worker)
  | computing => exact fair.workers worker
  | answering => exact fair.turns (.result worker)

/-- A worker that has something to do moves on. The rank falls with every one of its moves. -/
theorem FairRun.leadsTo_of_worker {run : (gpuSystem n T setups).Run} (fair : FairRun run)
    (worker : Fin n) (rank : System n T → ℕ) {P Q : System n T → Prop}
    (running : ∀ system : System n T, system.Invariant setups → P system →
      system.finished = false)
    (eligible : ∀ system, P system → system.manager.workQueue ≠ [] ∨
      system.manager.advances worker = true)
    (keep : ∀ system event after, system.Invariant setups →
      (gpuSystem n T setups).Step system event after → P system →
      Q after ∨ P after ∧ System.MovesOn rank worker system after) :
    run.LeadsTo P Q := by
  refine .of_falling rank (fun system => (system.workers worker).stage) (fair.moves worker) ?_ ?_
  · intro system event after reachable step holds
    have invariant := System.reachable_invariant reachable
    rcases keep system event after invariant step holds with
      reached | ⟨again, lower | ⟨sameRank, sameStage⟩⟩
    · exact Or.inl reached
    · exact Or.inr ⟨again, Or.inl lower⟩
    · refine Or.inr ⟨again, Or.inr ⟨sameRank, sameStage, ?_⟩⟩
      intro isMove
      cases isStage : (system.workers worker).stage with
      | waiting =>
        rw [isStage] at isMove sameStage
        rcases isMove with ⟨candidates, rfl⟩
        exact invariant.stage_of_send step sameStage
      | computing result =>
        rw [isStage] at isMove sameStage
        cases isMove
        exact System.stage_of_finish step result sameStage
      | answering result =>
        rw [isStage] at isMove sameStage
        rcases isMove with ⟨candidates, rfl⟩
        exact invariant.stage_of_result step result sameStage
  · intro system reachable holds
    have isRunning := running system (System.reachable_invariant reachable) holds
    cases isStage : (system.workers worker).stage with
    | waiting => exact ⟨isRunning, isStage, eligible system holds⟩
    | computing result => exact ⟨result, isStage⟩
    | answering result => exact ⟨isRunning, result, isStage⟩

section

variable {run : (gpuSystem n T setups).Run}

variable (fair : FairRun run)

include fair

variable (batchId : BatchId)

theorem FairRun.piped_leadsTo_gone (carriers : Finset (Fin n)) :
    run.LeadsTo (System.Piped batchId carriers) (System.Gone batchId) := by
  induction carriers using Finset.strongInduction with
  | H carriers ih =>
    intro time piped
    rcases piped.carried with ⟨worker, carried⟩
    have drains : run.LeadsTo
        (fun system => System.Piped batchId carriers system ∧
          some batchId ∈ system.manager.workerQueues worker)
        (fun system => System.Gone batchId system ∨
          System.Piped batchId (carriers.erase worker) system) := by
      apply fair.leadsTo_of_worker worker (System.flushingRank batchId worker)
      · intro system invariant ⟨piped, _⟩
        exact invariant.running (invariant.flush_subset piped.flushing)
      · intro system ⟨piped, carried⟩
        right
        rw [Manager.advances, Bool.or_eq_true]
        right
        simp only [flush, any_eq_true]
        exact ⟨some batchId, carried, by simp [piped.flushing]⟩
      · intro system event after invariant step ⟨piped, carried⟩
        exact invariant.piped_step step piped carried
    rcases drains time ⟨piped, carried⟩ with ⟨middle, middleLe, gone | elsewhere⟩
    · exact ⟨middle, middleLe, gone⟩
    · have fewer := erase_ssubset (piped.within worker carried)
      rcases ih _ fewer middle elsewhere with ⟨later, laterLe, gone⟩
      exact ⟨later, Nat.le_trans middleLe laterLe, gone⟩

theorem FairRun.queued_leadsTo_piped (worker : Fin n) (batchId : BatchId) :
    run.LeadsTo (System.Queued batchId) (System.Piped batchId Finset.univ) := by
  apply fair.leadsTo_of_worker worker (System.sendingRank batchId worker)
  · intro system invariant queued
    exact invariant.running (invariant.flush_subset queued.flushing)
  · intro system queued
    rcases depth_pos_iff.mp queued.queued with ⟨request, member, -⟩
    exact Or.inl (ne_nil_of_mem member)
  · intro system event after invariant step queued
    exact invariant.queued_step step queued worker

theorem FairRun.flushing_leadsTo_gone (workers : 0 < n) (batchId : BatchId) :
    run.LeadsTo (fun system => batchId ∈ system.manager.batchesToFlush ∧
      system.manager.Outstanding batchId) (System.Gone batchId) := by
  intro time ⟨flushing, outstanding⟩
  rw [Manager.outstanding_iff] at outstanding
  by_cases queued : 0 < depth (GpuWorkRequest.ofBatch batchId) (run.state time).manager.workQueue
  · have handed := (fair.queued_leadsTo_piped ⟨0, workers⟩ batchId).trans
      (fair.piped_leadsTo_gone batchId Finset.univ)
    exact handed time ⟨flushing, queued⟩
  · have carried := outstanding.resolve_left queued
    exact fair.piped_leadsTo_gone batchId Finset.univ time
      ⟨flushing, by omega, carried, fun _ _ => mem_univ _⟩

theorem FairRun.announced_leadsTo_receiving :
    run.LeadsTo (fun system => System.Announced batchId system.intake)
      (fun system => System.Receiving batchId system.intake) := by
  refine .of_falling (fun system => system.intake.batches.idxOf batchId) (fun _ => ())
    (fun _ => fair.turns .batch) ?_ ?_
  · intro system event after reachable step announced
    have invariant := System.reachable_invariant reachable
    rcases (invariant.intakeStep step).announced announced with ⟨again, le, falls⟩ | receiving
    · refine Or.inr ⟨again, (Nat.lt_or_eq_of_le le).imp_right fun same => ⟨same, rfl, ?_⟩⟩
      intro isTurn
      exact absurd same (falls isTurn).ne
    · exact Or.inl receiving
  · intro system reachable announced
    have invariant := System.reachable_invariant reachable
    have nonempty := ne_nil_of_mem announced.announced
    have listening : system.manager.batchesReceiver = true := by
      by_contra closed
      exact nonempty (invariant.received_all (Bool.eq_false_of_not_eq_true closed)).1
    refine ⟨?_, listening, nonempty⟩
    by_contra isFinished
    have stopped := invariant.stopped (Bool.eq_true_of_not_eq_false isFinished)
    exact absurd listening (by simp [stopped.1])

theorem FairRun.receiving_leadsTo_flushing :
    run.LeadsTo (fun system => System.Receiving batchId system.intake)
      (fun system => batchId ∈ system.manager.batchesToFlush) := by
  refine .of_falling (fun system => (system.intake.requests batchId).length)
    (fun system => if system.requests batchId = [] then .requestsDisconnected batchId
      else .request batchId) fair.turns ?_ ?_
  · intro system event after reachable step receiving
    have invariant := System.reachable_invariant reachable
    rcases (invariant.intakeStep step).receiving invariant receiving with
      ⟨again, le, falls, other⟩ | flushing
    · refine Or.inr ⟨again, (Nat.lt_or_eq_of_le le).imp_right fun same => ⟨same, ?_, ?_⟩⟩
      · have sameEmpty : after.requests batchId = [] ↔ system.requests batchId = [] := by
          rw [← length_eq_zero_iff, ← length_eq_zero_iff]
          exact Eq.congr_left same
        simp only [sameEmpty]
      · split_ifs
        · intro ⟨candidates, isTurn⟩
          exact other candidates isTurn
        · intro isTurn
          exact absurd same (falls isTurn).ne
    · exact Or.inl flushing
  · intro system reachable receiving
    have invariant := System.reachable_invariant reachable
    refine ⟨invariant.running (invariant.receivers_subset receiving.receiving), ?_⟩
    split_ifs with empty
    · exact ⟨receiving.receiving, empty, receiving.closed⟩
    · exact ⟨receiving.receiving, empty⟩

end

/-- A batch in progress: it waits to be received, or the manager holds its sender. -/
def System.Live (batchId : BatchId) (system : System n T) : Prop :=
  batchId ∈ system.batches ∨ batchId ∈ system.manager.batchSenders

/-- The sender of a batch is dropped after the producers have closed its request channel, and the
manager stops after no batch can arrive and the channels of all batches are closed. -/
structure ManagerLive (run : (gpuSystem n T setups).Run) : Prop where
  completes : ∀ batchId, run.LeadsTo
    (fun system => system.Live batchId ∧ system.requestsClosed batchId = true)
    (fun system => ¬system.Live batchId)
  terminates : (∃ time, (run.state time).batchesClosed = true) →
    (∀ batchId, run.LeadsTo (System.Live batchId)
      (fun system => system.requestsClosed batchId = true ∨ ¬system.Live batchId)) →
    ∃ time, (run.state time).finished = true

/-- Whenever the manager sees a request channel closed, some work of its batch is outstanding. -/
def ClosesOutstanding (run : (gpuSystem n T setups).Run) : Prop :=
  ∀ time batchId candidates,
    run.event time = some (.turn (.requestsDisconnected batchId) candidates) →
      (run.state time).manager.Outstanding batchId

section

variable {run : (gpuSystem n T setups).Run}

theorem ClosesOutstanding.outstanding (closes : ClosesOutstanding run) (time : ℕ)
    (batchId : BatchId) (flushing : batchId ∈ (run.state time).manager.batchesToFlush) :
    (run.state time).manager.Outstanding batchId := by
  have start : batchId ∈ (run.state 0).manager.batchesToFlush →
      (run.state 0).manager.Outstanding batchId := by
    rw [run.start]
    exact fun none => absurd none (notMem_empty _)
  refine CheckedSystem.Run.stable (P := fun system : System n T =>
    batchId ∈ system.manager.batchesToFlush → system.manager.Outstanding batchId) ?_
    (Nat.zero_le time) start flushing
  intro time event happens outstanding
  apply (System.reachable_invariant (run.reachable time)).outstanding_step
    (run.step time event happens) ?_ outstanding
  intro candidates isTurn
  exact closes time batchId candidates (isTurn ▸ happens)

theorem FairRun.completes (fair : FairRun run) (workers : 0 < n) (closes : ClosesOutstanding run)
    (batchId : BatchId) : run.LeadsTo
      (fun system => system.Live batchId ∧ system.requestsClosed batchId = true)
      (fun system => ¬system.Live batchId) := by
  have gone : run.LeadsTo (fun system => batchId ∈ system.manager.batchesToFlush)
      (fun system => ¬system.Live batchId) := by
    intro time flushing
    have outstanding := closes.outstanding time batchId flushing
    rcases fair.flushing_leadsTo_gone workers batchId time ⟨flushing, outstanding⟩ with
      ⟨later, le, noSender, notAnnounced⟩
    exact ⟨later, le, fun live => live.elim notAnnounced noSender⟩
  have received := (fair.receiving_leadsTo_flushing batchId).trans gone
  intro time ⟨live, closed⟩
  have invariant := System.reachable_invariant (run.reachable time)
  rcases live with announced | sender
  · exact (fair.announced_leadsTo_receiving batchId).trans received time ⟨announced, closed⟩
  · rcases mem_union.mp (invariant.senders_subset sender) with receiving | flushing
    · exact received time ⟨receiving, closed⟩
    · exact gone time flushing

theorem System.finished_of_reachable {system : System n T}
    (reachable : (gpuSystem n T setups).Reachable system)
    (closed : system.manager.batchesReceiver = false)
    (empty : system.manager.batchSenders = ∅) : system.finished = true := by
  induction reachable with
  | initial => exact absurd closed (by simp [gpuSystem, initial])
  | @step state after event reachable step ih =>
    cases event with
    | turn op candidates =>
      rcases (reachable_invariant reachable).turn_inversion step with
        ⟨middle, drained, selected, steps, rfl⟩
      have isClosed : drained.manager.batchesReceiver = false := closed
      have isEmpty : drained.manager.batchSenders = ∅ := empty
      simp [checkFinished, isClosed, isEmpty]
    | finish worker =>
      rcases finish_inversion step with ⟨result, -, rfl⟩
      exact ih closed empty
    | exit worker =>
      rw [exit_inversion step]
      exact step.1.1
    | _ =>
      cases step.2
      exact ih closed empty

/-- Once no batch can arrive, the batches in progress are completed one after the other. -/
theorem live_exhausted
    (completes : ∀ batchId, run.LeadsTo
      (fun system => system.Live batchId ∧ system.requestsClosed batchId = true)
      (fun system => ¬system.Live batchId))
    (closes : ∀ batchId, run.LeadsTo (System.Live batchId)
      (fun system => system.requestsClosed batchId = true ∨ ¬system.Live batchId))
    (live : Finset BatchId) {time : ℕ} (closed : (run.state time).batchesClosed = true)
    (within : ∀ batchId, (run.state time).Live batchId → batchId ∈ live) :
    ∃ later, (run.state later).batchesClosed = true ∧
      ∀ batchId, ¬(run.state later).Live batchId := by
  induction live using Finset.strongInduction generalizing time with
  | H live ih =>
    by_cases noneLive : ∀ batchId, ¬(run.state time).Live batchId
    · exact ⟨time, closed, noneLive⟩
    · push Not at noneLive
      rcases noneLive with ⟨batchId, isLive⟩
      have gone : ∃ later, time ≤ later ∧ ¬(run.state later).Live batchId := by
        rcases closes batchId time isLive with ⟨middle, middleLe, isClosed | notLive⟩
        · by_cases still : (run.state middle).Live batchId
          · rcases completes batchId middle ⟨still, isClosed⟩ with ⟨later, laterLe, notLive⟩
            exact ⟨later, Nat.le_trans middleLe laterLe, notLive⟩
          · exact ⟨middle, middleLe, still⟩
        · exact ⟨middle, middleLe, notLive⟩
      rcases gone with ⟨later, le, notLive⟩
      have shrinks : (run.state later).batchesClosed = true ∧
          ∀ batchId, (run.state later).Live batchId → batchId ∈ live := by
        refine CheckedSystem.Run.stable
          (P := fun system : System n T => system.batchesClosed = true ∧
            ∀ batchId, system.Live batchId → batchId ∈ live) ?_ le ⟨closed, within⟩
        intro time event happens ⟨isClosed, isWithin⟩
        have invariant := System.reachable_invariant (run.reachable time)
        rcases (invariant.intakeStep (run.step time event happens)).closed isClosed with
          ⟨staysClosed, fewer⟩
        exact ⟨staysClosed, fun batchId isLive => isWithin batchId (fewer batchId isLive)⟩
      apply ih (live.erase batchId) (erase_ssubset (within batchId isLive)) shrinks.1
      intro other otherLive
      refine mem_erase.mpr ⟨?_, shrinks.2 other otherLive⟩
      intro same
      exact notLive (same ▸ otherLive)

theorem FairRun.terminates (fair : FairRun run) (workers : 0 < n)
    (closesOutstanding : ClosesOutstanding run)
    (closes : ∀ batchId, run.LeadsTo (System.Live batchId)
      (fun system => system.requestsClosed batchId = true ∨ ¬system.Live batchId))
    {time : ℕ} (closed : (run.state time).batchesClosed = true) :
    ∃ time, (run.state time).finished = true := by
  rcases live_exhausted (fair.completes workers closesOutstanding) closes
      ((run.state time).batches.toFinset ∪ (run.state time).manager.batchSenders) closed
      (by simp [System.Live]) with ⟨exhausted, stillClosed, notLive⟩
  -- Nothing is left to do, as soon as the manager has noticed that no batch can arrive.
  have isFinished : ∀ system : System n T, (gpuSystem n T setups).Reachable system →
      (∀ batchId, ¬system.Live batchId) → system.manager.batchesReceiver = false →
      system.finished = true := by
    intro system reachable noneLive received
    apply System.finished_of_reachable reachable received
    exact eq_empty_of_forall_notMem fun batchId sender => noneLive batchId (Or.inr sender)
  have disconnects : run.LeadsTo
      (fun system => (system.batchesClosed = true ∧ ∀ batchId, ¬system.Live batchId) ∧
        system.manager.batchesReceiver = true)
      (fun system => system.finished = true) := by
    refine .of_fair (fair.turns .batchesDisconnected) ?_ ?_
    · intro system event after reachable step ⟨⟨isClosed, noneLive⟩, _⟩
      have isStep := (System.reachable_invariant reachable).intakeStep step
      rcases isStep.closed isClosed with ⟨staysClosed, fewer⟩
      have stillNone : ∀ batchId, ¬after.Live batchId :=
        fun batchId isLive => noneLive batchId (fewer batchId isLive)
      cases received : after.manager.batchesReceiver with
      | false => exact Or.inr (isFinished after (reachable.step step) stillNone received)
      | true =>
        refine Or.inl ⟨⟨⟨staysClosed, stillNone⟩, rfl⟩, ?_⟩
        rintro ⟨candidates, rfl⟩
        change after.intake.batchesReceiver = true at received
        generalize after.intake = intake at isStep received
        cases isStep with
        | turn selected =>
          cases selected
          contradiction
    · intro system reachable ⟨⟨isClosed, noneLive⟩, listening⟩
      have invariant := System.reachable_invariant reachable
      refine ⟨?_, listening, ?_, isClosed⟩
      · by_contra stopped
        have silent := (invariant.stopped (Bool.eq_true_of_not_eq_false stopped)).1
        rw [listening] at silent
        contradiction
      · apply eq_nil_iff_forall_not_mem.mpr
        exact fun batchId member => noneLive batchId (Or.inl member)
  cases received : (run.state exhausted).manager.batchesReceiver with
  | false => exact ⟨exhausted, isFinished _ (run.reachable exhausted) notLive received⟩
  | true =>
    rcases disconnects exhausted ⟨⟨stillClosed, notLive⟩, received⟩ with ⟨later, -, stopped⟩
    exact ⟨later, stopped⟩

end

/-- In a fair run, every batch is completed and the manager stops exactly when the manager never
sees the request channel of a batch closed that has nothing outstanding. There is a device, as the
prover checks. -/
theorem manager_live_iff_closes_outstanding (workers : 0 < n) (run : (gpuSystem n T setups).Run)
    (fair : FairRun run) : ManagerLive run ↔ ClosesOutstanding run := by
  constructor
  · intro live time batchId candidates happens
    by_contra idle
    have invariant := System.reachable_invariant (run.reachable time)
    have step := run.step time _ happens
    have ready : (run.state time).Ready (.requestsDisconnected batchId) := step.1.2
    have inProgress : (run.state time).Live batchId := Or.inr (invariant.receivers_subset ready.1)
    rcases live.completes batchId time ⟨inProgress, ready.2.2⟩ with ⟨later, le, gone⟩
    have isLater : time + 1 ≤ later := by
      rcases Nat.lt_or_eq_of_le le with lower | same
      · exact lower
      · exact absurd (same ▸ inProgress) gone
    have stuck : batchId ∈ (run.state (time + 1)).manager.batchesToFlush ∧
        ¬(run.state (time + 1)).manager.Outstanding batchId := by
      rcases invariant.disconnected_step step with ⟨flushing, same⟩
      exact ⟨flushing, same.not.mpr idle⟩
    have stillStuck : batchId ∈ (run.state later).manager.batchesToFlush ∧
        ¬(run.state later).manager.Outstanding batchId := by
      refine CheckedSystem.Run.stable (P := fun system : System n T =>
        batchId ∈ system.manager.batchesToFlush ∧ ¬system.manager.Outstanding batchId)
        ?_ isLater stuck
      intro time event happens ⟨flushing, isIdle⟩
      exact (System.reachable_invariant (run.reachable time)).stuck_step
        (run.step time event happens) flushing isIdle
    have laterInvariant := System.reachable_invariant (run.reachable later)
    exact gone (Or.inr (laterInvariant.flush_subset stillStuck.1))
  · intro closes
    refine ⟨fair.completes workers closes, ?_⟩
    intro ⟨time, closed⟩ producersClose
    exact fair.terminates workers closes producersClose closed

section

theorem fairRun_of_events {events : List (SystemEvent n T)}
    (happen : (gpuSystem n T setups).Happen System.initial events)
    (notReady : ∀ op, ¬(((gpuSystem n T setups).stateAfter System.initial events
        events.length).finished = false ∧
      ((gpuSystem n T setups).stateAfter System.initial events events.length).Ready op))
    (idle : ∀ worker, (((gpuSystem n T setups).stateAfter System.initial events
      events.length).workers worker).stage = .waiting) :
    FairRun ((gpuSystem n T setups).runOf events happen) where
  turns := fun op => CheckedSystem.runOf_fair happen (notReady op)
  workers := by
    intro worker
    apply CheckedSystem.runOf_fair happen
    change ¬∃ result, (((gpuSystem n T setups).stateAfter System.initial events
      events.length).workers worker).stage = .computing result
    rw [idle worker]
    simp

def smallSetup : CircuitPrecomputations := ⟨0, 2, 4⟩

def smallSetups : CachedSetups := ⟨[smallSetup], by decide⟩

def smallRequest (batchId : BatchId) : GpuWorkRequest Unit :=
  ⟨.memoryCommitment, batchId, smallSetup, ()⟩

def pass : List (SystemEvent 1 Unit) :=
  [.turn (.send 0) [], .finish 0, .turn (.result 0) []]

/-- The channel of the batch is seen closed while its request is in the queue. -/
def orderlyEvents : List (SystemEvent 1 Unit) :=
  [.announce 0, .turn .batch [], .produce 0 (smallRequest 0), .turn (.request 0) [],
    .closeRequests 0, .turn (.requestsDisconnected 0) []] ++ pass ++ pass ++ pass ++
  [.closeBatches, .turn .batchesDisconnected []]

theorem orderlyEvents_happen :
    (gpuSystem 1 Unit smallSetups).Happen System.initial orderlyEvents := by
  decide +kernel

def orderlyRun : (gpuSystem 1 Unit smallSetups).Run :=
  (gpuSystem 1 Unit smallSetups).runOf orderlyEvents orderlyEvents_happen

theorem orderlyRun_fair : FairRun orderlyRun := by
  have stopped : ((gpuSystem 1 Unit smallSetups).stateAfter System.initial orderlyEvents
      orderlyEvents.length).finished = true := by
    decide +kernel
  have idle : ∀ worker, (((gpuSystem 1 Unit smallSetups).stateAfter System.initial orderlyEvents
      orderlyEvents.length).workers worker).stage = .waiting := by
    decide +kernel
  exact fairRun_of_events orderlyEvents_happen (by simp [stopped]) idle

theorem orderlyRun_closesOutstanding : ClosesOutstanding orderlyRun := by
  intro time batchId candidates happens
  change orderlyEvents[time]? = _ at happens
  have bound : time < 17 := (List.getElem?_eq_some_iff.mp happens).1
  interval_cases time <;> simp [orderlyEvents, pass] at happens
  rcases happens with ⟨rfl, rfl⟩
  decide +kernel

/-- The one batch of this run is completed, and the manager stops. -/
theorem orderly_run_live : FairRun orderlyRun ∧ ManagerLive orderlyRun :=
  ⟨orderlyRun_fair, (manager_live_iff_closes_outstanding (by decide) orderlyRun
    orderlyRun_fair).mpr orderlyRun_closesOutstanding⟩

/-- The result of the first batch is pushed out of the pipeline by the request of the second one,
before the channel of the first batch is seen closed. -/
def overtakingEvents : List (SystemEvent 1 Unit) :=
  [.announce 0, .turn .batch [], .announce 1, .turn .batch [],
    .produce 0 (smallRequest 0), .turn (.request 0) []] ++ pass ++ pass ++
  [.produce 1 (smallRequest 1), .turn (.request 1) []] ++ pass ++
  [.closeRequests 0, .turn (.requestsDisconnected 0) [],
    .closeRequests 1, .turn (.requestsDisconnected 1) []] ++ pass ++ pass ++
  [.closeBatches, .turn .batchesDisconnected []]

theorem overtakingEvents_happen :
    (gpuSystem 1 Unit smallSetups).Happen System.initial overtakingEvents := by
  decide +kernel

def overtakingRun : (gpuSystem 1 Unit smallSetups).Run :=
  (gpuSystem 1 Unit smallSetups).runOf overtakingEvents overtakingEvents_happen

def overtakingEnd : System 1 Unit :=
  (gpuSystem 1 Unit smallSetups).stateAfter System.initial overtakingEvents overtakingEvents.length

theorem overtakingRun_state {time : ℕ} (le : overtakingEvents.length ≤ time) :
    overtakingRun.state time = overtakingEnd :=
  CheckedSystem.runOf_state overtakingEvents_happen le

theorem overtakingRun_fair : FairRun overtakingRun := by
  have noReceivers : overtakingEnd.manager.batchReceivers = ∅ := by decide +kernel
  have received : overtakingEnd.manager.batchesReceiver = false := by decide +kernel
  have idle : ∀ worker, (overtakingEnd.workers worker).stage = .waiting := by decide +kernel
  have nothingToSend : overtakingEnd.manager.workQueue = [] ∧
      ∀ worker, overtakingEnd.manager.advances worker = false := by
    decide +kernel
  apply fairRun_of_events overtakingEvents_happen ?_ idle
  change ∀ op, ¬(overtakingEnd.finished = false ∧ overtakingEnd.Ready op)
  intro op ⟨_, ready⟩
  cases op with
  | batch => simp [System.Ready, received] at ready
  | batchesDisconnected => simp [System.Ready, received] at ready
  | request batchId => simp [System.Ready, noReceivers] at ready
  | requestsDisconnected batchId => simp [System.Ready, noReceivers] at ready
  | result worker => simp [System.Ready, idle worker] at ready
  | send worker => simp [System.Ready, nothingToSend.1, nothingToSend.2 worker] at ready

/-- All channels are closed in the end, the workers have answered, and nothing can happen any
more; but the manager still holds the sender of the first batch, and has not stopped. -/
theorem overtaken_batch_never_completed :
    FairRun overtakingRun ∧ ¬ManagerLive overtakingRun ∧
      ∃ time, (overtakingRun.state time).batchesClosed = true ∧
        (overtakingRun.state time).requestsClosed 0 = true ∧
        (overtakingRun.state time).requestsClosed 1 = true ∧
        ∀ later, time ≤ later → 0 ∈ (overtakingRun.state later).manager.batchSenders ∧
          (overtakingRun.state later).finished = false := by
  have closed : overtakingEnd.batchesClosed = true ∧ overtakingEnd.requestsClosed 0 = true ∧
      overtakingEnd.requestsClosed 1 = true := by
    decide +kernel
  have held : 0 ∈ overtakingEnd.manager.batchSenders ∧ overtakingEnd.finished = false := by
    decide +kernel
  have inTheEnd := overtakingRun_state (Nat.le_refl _)
  refine ⟨overtakingRun_fair, ?_, overtakingEvents.length, ?_⟩
  · intro live
    have isClosed : (overtakingRun.state overtakingEvents.length).Live 0 ∧
        (overtakingRun.state overtakingEvents.length).requestsClosed 0 = true := by
      rw [inTheEnd]
      exact ⟨Or.inr held.1, closed.2.1⟩
    rcases live.completes 0 _ isClosed with ⟨later, le, gone⟩
    rw [overtakingRun_state le] at gone
    exact gone (Or.inr held.1)
  · rw [inTheEnd]
    refine ⟨closed.1, closed.2.1, closed.2.2, ?_⟩
    intro later le
    rw [overtakingRun_state le]
    exact held

end

end Airbender.Execution

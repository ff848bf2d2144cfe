import InferSched.Distributed.BatchResults

/-! # Reservations

`ValidateAndReserve` checks three maps in turn, two of which only ever grow. Over
every interleaving of calls and worker steps the attempts accepted for a request
increase, the epochs accepted for a partition never decrease, and the jobs that
are queued or running have different request ids, so that the worker never submits
an id that its engine still has.
-/

namespace InferSched.Distributed

open Library Engine

variable {η : Type}

/-- The requests accepted so far, in their order. -/
def accepted (past : List Action) : List DispatchRequest :=
  past.filterMap Action.accepted?

theorem accepted_snoc (past : List Action) (action : Action) :
    accepted (past ++ [action]) = accepted past ++ action.accepted?.toList := by
  unfold accepted
  rw [List.filterMap_append]
  cases isAccepted : action.accepted? with
  | none => rw [List.filterMap_cons_none isAccepted]; rfl
  | some request => rw [List.filterMap_cons_some isAccepted]; rfl

namespace EngineService

/-- Accepted fences in order, with the latest of them in the maps of the service. -/
structure Fenced (past : List Action) (service : EngineService η) : Prop where
  attempts : (accepted past).Pairwise fun earlier later =>
    earlier.request.requestId = later.request.requestId →
      earlier.fence.attemptId < later.fence.attemptId
  epochs : (accepted past).Pairwise fun earlier later =>
    earlier.fence.partitionId = later.fence.partitionId →
      earlier.fence.ownershipEpoch ≤ later.fence.ownershipEpoch
  lastAttempt : ∀ request ∈ accepted past, ∃ current,
    service.requestAttempts.lookup request.request.requestId = some current ∧
      request.fence.attemptId ≤ current
  lastEpoch : ∀ request ∈ accepted past, ∃ current,
    service.partitionEpochs.lookup request.fence.partitionId = some current ∧
      request.fence.ownershipEpoch ≤ current

/-- A step that accepts nothing keeps the attempts and moves no epoch back. -/
theorem Fenced.kept {past : List Action} {service next : EngineService η}
    (fenced : service.Fenced past) {action : Action} (nothing : action.accepted? = none)
    (attempts : next.requestAttempts = service.requestAttempts)
    (epochs : ∀ partitionId current, service.partitionEpochs.lookup partitionId = some current →
      ∃ newer, next.partitionEpochs.lookup partitionId = some newer ∧ current ≤ newer) :
    next.Fenced (past ++ [action]) := by
  have same : accepted (past ++ [action]) = accepted past := by
    rw [accepted_snoc, nothing]
    exact List.append_nil _
  refine ⟨?_, ?_, ?_, ?_⟩
  · rw [same]
    exact fenced.attempts
  · rw [same]
    exact fenced.epochs
  · rw [same, attempts]
    exact fenced.lastAttempt
  · rw [same]
    intro request member
    obtain ⟨current, found, le⟩ := fenced.lastEpoch request member
    obtain ⟨newer, isNewer, further⟩ := epochs _ current found
    exact ⟨newer, isNewer, le.trans further⟩

/-- An epoch that is not older replaces the one of its partition. -/
theorem lookup_insert_newer {epochs : AList fun _ : ℤ => ℕ} {partitionId : ℤ} {epoch : ℕ}
    (newer : ∀ current, epochs.lookup partitionId = some current → current ≤ epoch)
    (other : ℤ) (current : ℕ) (found : epochs.lookup other = some current) :
    ∃ latest, (epochs.insert partitionId epoch).lookup other = some latest ∧ current ≤ latest := by
  by_cases same : other = partitionId
  · subst same
    exact ⟨epoch, AList.lookup_insert _, newer current found⟩
  · exact ⟨current, (AList.lookup_insert_ne same).trans found, le_rfl⟩

theorem Fenced.accept {past : List Action} {service : EngineService η}
    (fenced : service.Fenced past) {request : DispatchRequest}
    (acceptable : service.Acceptable request) :
    (service.accept request).Fenced
      (past ++ [.dispatch request { status := .accepted }]) := by
  have grown : accepted (past ++ [.dispatch request { status := .accepted }]) =
      accepted past ++ [request] := accepted_snoc past _
  refine ⟨?_, ?_, ?_, ?_⟩
  · rw [grown, List.pairwise_append]
    refine ⟨fenced.attempts, List.pairwise_singleton _ _, ?_⟩
    intro earlier member later isLater same
    cases List.mem_singleton.mp isLater
    obtain ⟨current, found, le⟩ := fenced.lastAttempt earlier member
    rw [same] at found
    exact le.trans_lt (acceptable.attempt current found)
  · rw [grown, List.pairwise_append]
    refine ⟨fenced.epochs, List.pairwise_singleton _ _, ?_⟩
    intro earlier member later isLater same
    cases List.mem_singleton.mp isLater
    obtain ⟨current, found, le⟩ := fenced.lastEpoch earlier member
    rw [same] at found
    exact le.trans (acceptable.epoch current found)
  · rw [grown]
    intro other member
    unfold EngineService.accept
    dsimp only
    rcases List.mem_append.mp member with old | new
    · obtain ⟨current, found, le⟩ := fenced.lastAttempt other old
      by_cases same : other.request.requestId = request.request.requestId
      · rw [same] at found ⊢
        exact ⟨_, AList.lookup_insert _, le.trans (acceptable.attempt current found).le⟩
      · exact ⟨current, (AList.lookup_insert_ne same).trans found, le⟩
    · cases List.mem_singleton.mp new
      exact ⟨_, AList.lookup_insert _, le_rfl⟩
  · rw [grown]
    intro other member
    unfold EngineService.accept
    dsimp only
    rcases List.mem_append.mp member with old | new
    · obtain ⟨current, found, le⟩ := fenced.lastEpoch other old
      obtain ⟨latest, isLatest, further⟩ :=
        lookup_insert_newer acceptable.epoch _ current found
      exact ⟨latest, isLatest, le.trans further⟩
    · cases List.mem_singleton.mp new
      exact ⟨_, AList.lookup_insert _, le_rfl⟩

variable [RequestQueue η]

theorem Fenced.step {past : List Action} {service next : EngineService η} {action : Action}
    (fenced : service.Fenced past) (registered : service.Registered)
    (step : Step service action next) : next.Fenced (past ++ [action]) := by
  have still : ∀ partitionId current, service.partitionEpochs.lookup partitionId = some current →
      ∃ newer, service.partitionEpochs.lookup partitionId = some newer ∧ current ≤ newer :=
    fun _ current found => ⟨current, found, le_rfl⟩
  cases step with
  | dispatch request =>
      rcases service.dispatch_cases request with
        ⟨reason, epochs, isRejected, isEpochs⟩ | ⟨acceptable, isAccepted⟩
      · rw [isRejected]
        refine fenced.kept rfl rfl ?_
        rcases isEpochs with rfl | ⟨newer, rfl⟩
        · exact still
        · exact lookup_insert_newer newer
      · rw [isAccepted]
        exact fenced.accept acceptable
  | cancel request =>
      rcases service.cancel_cases request with isNone | ⟨job, _, isSome⟩
      · rw [isNone]
        exact fenced.kept rfl rfl still
      · rw [isSome]
        exact fenced.kept rfl rfl still
  | unregister phase =>
      obtain ⟨_, live, isNext⟩ := registered.unregister phase
      rw [isNext]
      exact fenced.kept rfl rfl still
  | _ => exact fenced.kept rfl rfl still

theorem Fenced.run {draws : JitterDraws} {config : EngineConfig} {queueCapacity : ℕ}
    {start service : EngineService η} {past : List Action}
    (made : new draws config queueCapacity = .ok start) (trace : Trace Step start past service) :
    service.Fenced past ∧ service.queueCapacity = queueCapacity := by
  refine (@Trace.history _ _ _ _ _ (fun past service => service.Registered ∧
    service.Fenced past ∧ service.queueCapacity = queueCapacity) ?_ _ trace ?_).2
  · rintro past before action after ⟨registered, fenced, capacity⟩ step
    exact ⟨registered.step step, fenced.step registered step,
      (step.queueCapacity_eq registered).trans capacity⟩
  · refine ⟨Registered.new made, ?_⟩
    obtain ⟨engine, _, rfl⟩ := new_eq_ok made
    exact ⟨⟨List.Pairwise.nil, List.Pairwise.nil, List.forall_mem_nil _, List.forall_mem_nil _⟩,
      rfl⟩

/-- The jobs are the accepted requests in their order. -/
theorem accepted_eq {draws : JitterDraws} {config : EngineConfig} {queueCapacity : ℕ}
    {start service : EngineService η} {past : List Action}
    (made : new draws config queueCapacity = .ok start) (trace : Trace Step start past service) :
    accepted past = (List.range service.created).map fun job => (service.jobs job).dispatch := by
  refine (@Trace.history _ _ _ _ _ (fun past service => service.Registered ∧ accepted past =
    (List.range service.created).map fun job => (service.jobs job).dispatch) ?_ _ trace ?_).2
  · rintro past before action after ⟨registered, listed⟩ step
    refine ⟨registered.step step, ?_⟩
    have same : (List.range before.created).map (fun job => (after.jobs job).dispatch) =
        (List.range before.created).map fun job => (before.jobs job).dispatch :=
      List.map_congr_left fun job member =>
        step.dispatch_eq registered (List.mem_range.mp member)
    rw [accepted_snoc, listed, ← same]
    rcases step.created_cases registered with ⟨created, nothing⟩ | ⟨request, rfl, created, isNew⟩
    · rw [created, nothing]
      exact List.append_nil _
    · rw [created, List.range_succ, List.map_append, List.map_singleton, isNew]
      rfl
  · refine ⟨Registered.new made, ?_⟩
    obtain ⟨engine, _, rfl⟩ := new_eq_ok made
    rfl

/-- The engine never gets a request whose id it still has. -/
theorem Linked.fresh {service next : EngineService η} (linked : service.Linked)
    (registered : service.Registered) {job : JobId}
    (step : Step service (.submit job) next) :
    (∀ request ∈ PriorityQueue.elements service.engine.pending,
        request.requestId ≠ (service.jobs job).requestId) ∧
      ∀ active ∈ service.engine.active,
        active.request.requestId ≠ (service.jobs job).requestId := by
  have apart : ∀ request ∈ (Moment.rest service.engine).unanswered,
      request.requestId ≠ (service.jobs job).requestId := by
    cases step with
    | @submit resultOffset passed ahead _ phase =>
        have progress := linked.progress
        rw [phase] at progress
        have isBatch : service.worker.batch = passed ++ job :: ahead := by
          rw [phase]
          rfl
        intro request member same
        rw [progress.1] at member
        obtain ⟨_, isRequest, rfl⟩ := List.mem_map.mp (Multiset.mem_coe.mp member)
        obtain ⟨other, before, rfl⟩ := List.mem_map.mp isRequest
        have isOther : other = job := by
          refine registered.requestId_inj (List.mem_append_right _ ?_)
            (List.mem_append_right _ ?_) same
          · rw [isBatch]
            exact List.mem_append_left _ before
          · rw [isBatch]
            exact List.mem_append_right _ List.mem_cons_self
        have once := (List.nodup_append.mp registered.once).2.1
        rw [isBatch] at once
        exact (List.nodup_append.mp once).2.2 other before job List.mem_cons_self isOther
  refine ⟨fun request member => apart request.ticket ?_, fun active member =>
    apart active.request.ticket (Moment.ticket_mem_unanswered member)⟩
  unfold Moment.unanswered
  refine Multiset.mem_add.mpr (Or.inl (Multiset.mem_add.mpr (Or.inl ?_)))
  exact Multiset.mem_map_of_mem _ member

/-- **Reservations.** In every state that the calls and the worker can reach, the
jobs that are queued or running have different request ids, the attempts accepted
for a request increase, the epochs accepted for a partition do not decrease and the
queue is within its capacity. The engine is never given an id that it still has. -/
theorem reservations_exclusive {draws : JitterDraws} {config : EngineConfig} {queueCapacity : ℕ}
    {start service : EngineService η} {past : List Action}
    (made : EngineService.new draws config queueCapacity = .ok start)
    (trace : Trace Step start past service) :
    (service.registered.map fun job => (service.jobs job).requestId).Nodup ∧
      ((accepted past).Pairwise fun earlier later =>
        earlier.request.requestId = later.request.requestId →
          earlier.fence.attemptId < later.fence.attemptId) ∧
      ((accepted past).Pairwise fun earlier later =>
        earlier.fence.partitionId = later.fence.partitionId →
          earlier.fence.ownershipEpoch ≤ later.fence.ownershipEpoch) ∧
      service.queue.length ≤ queueCapacity ∧
      ∀ job next, Step service (.submit job) next →
        (∀ request ∈ PriorityQueue.elements service.engine.pending,
          request.requestId ≠ (service.jobs job).requestId) ∧
        ∀ active ∈ service.engine.active,
          active.request.requestId ≠ (service.jobs job).requestId := by
  obtain ⟨registered, linked⟩ := reachable made trace
  obtain ⟨fenced, capacity⟩ := Fenced.run made trace
  refine ⟨?_, fenced.attempts, fenced.epochs, capacity ▸ registered.queued, ?_⟩
  · apply List.Nodup.map_on ?_ registered.once
    intro job member other also same
    exact registered.requestId_inj member also same
  · intro job next step
    exact linked.fresh registered step

/-- A service with room for two jobs and an engine of four blocks. -/
def small : EngineService (SelectionQueue EngineRequest) :=
  (EngineService.new (fun _ _ _ => 0) { kvBlocks := 4 } 2).toOption.get rfl

theorem new_small : EngineService.new (fun _ _ _ => 0) { kvBlocks := 4 } 2 = .ok small :=
  rfl

/-- The attempts of one request. -/
def attempt (attemptId : ℕ) : DispatchRequest where
  request := { requestId := ['a'] }
  fence := { ownershipEpoch := 1, attemptId }

/-- A request is dispatched twice while its first attempt is queued. The second
attempt is rejected, and the worker takes the first alone. -/
theorem reservations_exclusive_overlap :
    ∃ (start service : EngineService (SelectionQueue EngineRequest)) (past : List Action),
      EngineService.new (fun _ _ _ => 0) { kvBlocks := 4 } 2 = .ok start ∧
      Trace Step start past service ∧ (accepted past).length = 1 ∧
      past.length = 4 ∧ service.registered = [0] ∧
      (service.registered.map fun job => (service.jobs job).requestId).Nodup := by
  have dispatched := (Trace.single (Step.dispatch small (attempt 1))).snoc
    (Step.dispatch _ (attempt 2))
  have woken := dispatched.snoc (Step.wake rfl (by decide +kernel))
  have taken := woken.snoc (Step.take rfl)
  exact ⟨_, _, _, new_small, taken, by decide +kernel, rfl, by decide +kernel,
    (reservations_exclusive new_small taken).1⟩

end EngineService
end InferSched.Distributed

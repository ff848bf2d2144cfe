import InferSched.Distributed.Reservations

/-! # Rejected dispatches

A call that `ValidateAndReserve` rejects reserves nothing and burns no attempt. The
epoch of its partition, however, is written before the attempt and the live job are
looked at. A retry that is rejected for one of these two therefore moves the fence of
its partition, and calls of the current owner are then rejected as stale.
-/

namespace InferSched.Distributed

open Library Engine

variable {η : Type}

namespace EngineService

/-- Nothing has changed but, perhaps, the order in which the map of epochs is laid out. -/
structure SameState (service next : EngineService η) : Prop where
  fields : next = { service with partitionEpochs := next.partitionEpochs }
  epochs : ∀ partitionId,
    next.partitionEpochs.lookup partitionId = service.partitionEpochs.lookup partitionId

/-- The checks of `ValidateAndReserve` that come before its first write. -/
def RefusedFirst (service : EngineService η) (request : DispatchRequest) : Prop :=
  service.draining = true ∨ service.queueCapacity ≤ service.queue.length ∨
    ∃ current, service.partitionEpochs.lookup request.fence.partitionId = some current ∧
      request.fence.ownershipEpoch < current

/-- The checks that come after it. -/
def PassesLast (service : EngineService η) (request : DispatchRequest) : Prop :=
  (∀ current, service.requestAttempts.lookup request.request.requestId = some current →
    current < request.fence.attemptId) ∧
    service.lockLive request.request.requestId = none

/-- The service with the epoch of a request written. -/
def writeEpoch (service : EngineService η) (request : DispatchRequest) : EngineService η :=
  { service with
    partitionEpochs :=
      service.partitionEpochs.insert request.fence.partitionId request.fence.ownershipEpoch }

/-- A call is refused before the write, after it, or accepted. -/
theorem validateAndReserve_cases (service : EngineService η) (request : DispatchRequest)
    (job : JobId) :
    (service.RefusedFirst request ∧
      ∃ reason, service.validateAndReserve request job = (some reason, service)) ∨
    (¬ service.RefusedFirst request ∧ ¬ service.PassesLast request ∧
      ∃ reason, service.validateAndReserve request job =
        (some reason, service.writeEpoch request)) ∨
    (¬ service.RefusedFirst request ∧ service.PassesLast request ∧
      (service.validateAndReserve request job).1 = none) := by
  unfold validateAndReserve
  by_cases draining : service.draining = true
  · rw [if_pos draining]
    exact Or.inl ⟨Or.inl draining, _, rfl⟩
  rw [if_neg draining]
  by_cases full : service.queue.length ≥ service.queueCapacity
  · rw [if_pos full]
    exact Or.inl ⟨Or.inr (Or.inl full), _, rfl⟩
  rw [if_neg full]
  split
  · next stale =>
      obtain ⟨current, found, older⟩ := (Option.any_eq_true _ _).mp stale
      exact Or.inl ⟨Or.inr (Or.inr ⟨current, found, of_decide_eq_true older⟩), _, rfl⟩
  · next current =>
      have notFirst : ¬ service.RefusedFirst request := by
        rintro (isDraining | isFull | ⟨epoch, found, older⟩)
        · exact draining isDraining
        · exact full isFull
        · rw [found, Option.any_some, decide_eq_true_eq] at current
          exact current older
      right
      dsimp only
      split
      · next stale =>
          obtain ⟨latest, found, reached⟩ := (Option.any_eq_true _ _).mp stale
          refine Or.inl ⟨notFirst, ?_, _, rfl⟩
          intro passes
          exact absurd (passes.1 latest found) (Nat.not_lt.mpr (of_decide_eq_true reached))
      · next newer =>
          split
          · next live =>
              refine Or.inl ⟨notFirst, ?_, _, rfl⟩
              intro passes
              have alone : service.lockLive request.request.requestId = none := passes.2
              change (service.lockLive request.request.requestId).isSome = true at live
              rw [alone] at live
              cases live
          · next alone =>
              refine Or.inr ⟨notFirst, ⟨?_, ?_⟩, rfl⟩
              · intro latest found
                rw [found, Option.any_some, decide_eq_true_eq] at newer
                exact Nat.not_le.mp newer
              · exact Option.not_isSome_iff_eq_none.mp alone

/-- What a call is told. -/
theorem validateAndReserve_fst (service : EngineService η) (request : DispatchRequest)
    (job : JobId) :
    (service.validateAndReserve request job).1 =
      if service.draining then some "draining".toList
      else if service.queue.length ≥ service.queueCapacity then some "queue_full".toList
      else if (service.partitionEpochs.lookup request.fence.partitionId).any
          fun current => decide (request.fence.ownershipEpoch < current) then
        some "stale_ownership_epoch".toList
      else if (service.requestAttempts.lookup request.request.requestId).any
          fun current => decide (request.fence.attemptId ≤ current) then
        some "stale_or_duplicate_attempt".toList
      else if (service.lockLive request.request.requestId).isSome then
        some "request_already_in_flight".toList
      else none := by
  unfold validateAndReserve
  rw [apply_ite Prod.fst, apply_ite Prod.fst, apply_ite Prod.fst, apply_ite Prod.fst,
    apply_ite Prod.fst]
  rfl

/-- Equal states take the same decisions. -/
theorem SameState.decides {service next : EngineService η} (same : service.SameState next)
    (request : DispatchRequest) (job : JobId) :
    (next.validateAndReserve request job).1 = (service.validateAndReserve request job).1 := by
  obtain ⟨fields, epochs⟩ := same
  rw [validateAndReserve_fst, validateAndReserve_fst, epochs]
  rw [fields]
  rfl

/-- A call that is rejected leaves the service as it is and decides no later call. -/
def Harmless (service : EngineService η) (request : DispatchRequest) (job : JobId) : Prop :=
  (service.validateAndReserve request job).1.isSome = true →
    service.SameState (service.validateAndReserve request job).2 ∧
      ∀ later laterJob,
        ((service.validateAndReserve request job).2.validateAndReserve later laterJob).1 =
          (service.validateAndReserve later laterJob).1

/-- A rejected call changes nothing exactly when it is refused before the epoch is
written or the partition has that epoch already; a call that passes the last checks is
not rejected after the write. -/
theorem rejection_harmless_iff (service : EngineService η) (request : DispatchRequest)
    (job : JobId) :
    service.Harmless request job ↔
      service.RefusedFirst request ∨ service.PassesLast request ∨
        service.partitionEpochs.lookup request.fence.partitionId =
          some request.fence.ownershipEpoch := by
  unfold Harmless
  rcases service.validateAndReserve_cases request job with
    ⟨first, reason, refused⟩ | ⟨notFirst, notLast, reason, refused⟩ | ⟨notFirst, last, accepted⟩
  · rw [refused]
    refine iff_of_true ?_ (Or.inl first)
    intro _
    exact ⟨⟨rfl, fun _ => rfl⟩, fun _ _ => rfl⟩
  · rw [refused]
    constructor
    · intro harmless
      have written : (service.writeEpoch request).partitionEpochs.lookup
          request.fence.partitionId = some request.fence.ownershipEpoch :=
        AList.lookup_insert _
      rw [(harmless rfl).1.epochs] at written
      exact Or.inr (Or.inr written)
    · rintro (first | last | already)
      · exact absurd first notFirst
      · exact absurd last notLast
      · intro _
        have same : service.SameState (service.writeEpoch request) := by
          refine ⟨rfl, ?_⟩
          intro partitionId
          by_cases isSame : partitionId = request.fence.partitionId
          · rw [isSame, already]
            exact AList.lookup_insert _
          · exact AList.lookup_insert_ne isSame
        exact ⟨same, same.decides⟩
  · rw [accepted]
    refine iff_of_true ?_ (Or.inr (Or.inl last))
    intro rejected
    cases rejected

/-- An attempt under a new owner, while the first attempt is queued, is rejected as
overlapping. A request of the current owner, which was acceptable before, is then
rejected as stale. -/
theorem rejection_moves_fence :
    ∃ (service : EngineService (SelectionQueue EngineRequest)) (past : List Action)
      (retry later : DispatchRequest),
      Trace Step small past service ∧
      EngineService.new (fun _ _ _ => 0) { kvBlocks := 4 } 2 = .ok small ∧
      (service.validateAndReserve retry 1).1 = some "request_already_in_flight".toList ∧
      (service.validateAndReserve later 1).1 = none ∧
      ((service.validateAndReserve retry 1).2.validateAndReserve later 1).1 =
        some "stale_ownership_epoch".toList ∧
      ¬ service.Harmless retry 1 := by
  let retry : DispatchRequest :=
    { request := { requestId := ['a'] }, fence := { ownershipEpoch := 2, attemptId := 2 } }
  let later : DispatchRequest :=
    { request := { requestId := ['b'] }, fence := { ownershipEpoch := 1, attemptId := 1 } }
  have dispatched := Trace.single (Step.dispatch small (attempt 1))
  have overlapping : ((small.dispatch (attempt 1)).2.validateAndReserve retry 1).1 =
      some "request_already_in_flight".toList := by
    decide +kernel
  have acceptable : ((small.dispatch (attempt 1)).2.validateAndReserve later 1).1 = none := by
    decide +kernel
  have stale : (((small.dispatch (attempt 1)).2.validateAndReserve retry 1).2.validateAndReserve
      later 1).1 = some "stale_ownership_epoch".toList := by
    decide +kernel
  refine ⟨_, _, retry, later, dispatched, new_small, overlapping, acceptable, stale, ?_⟩
  intro harmless
  have same := (harmless (by rw [overlapping]; rfl)).2 later 1
  rw [stale, acceptable] at same
  cases same

end EngineService
end InferSched.Distributed

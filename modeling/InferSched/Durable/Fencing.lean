import InferSched.Durable.Finalization

/-! # Fences and partition epochs

The row of a request carries the fence of its most recent assignment
(`RequestRow.fence`). Along every run the fences handed out for a request have
growing attempts and never older epochs, and a completion is accepted only under
the last one. The epoch in the row is not compared with `partition_ownership`
when a request is completed, so a completion of an older epoch still passes
between the next owner's acquisition and its first assignment
(`Store.finalize_epoch_current_iff`).
-/

namespace InferSched.Durable

/-- The fence a row was last assigned under. -/
def RequestRow.fence (row : RequestRow) : Option Fence :=
  row.ownershipEpoch.bind fun epoch => row.engineId.map fun engineId =>
    ⟨row.sourcePartition, epoch, row.attemptId, engineId⟩

namespace Store

/-- A completion is compared with the fence of the row. -/
theorem fenceMatches_iff_fence (row : RequestRow) (fence : Fence) :
    fenceMatches row fence = true ↔ row.fence = some fence ∧ row.state = dispatchedState := by
  rw [fenceMatches_iff]
  unfold RequestRow.fence
  cases epoch : row.ownershipEpoch with
  | none => simp
  | some epoch =>
      cases engine : row.engineId with
      | none => simp
      | some engine =>
          cases fence
          simp only [Option.some.injEq, Option.bind_some, Option.map_some, Fence.mk.injEq]
          tauto

/-- The fence an event hands out for a request. -/
def assignedFence (requestId : Text) : Call × Response → Option Fence
  | (.assignAttempt assignedId _ _ _, .assigned (some assignment)) =>
      if assignedId = requestId then some assignment.fence else none
  | _ => none

/-- The fences handed out for a request, in the order of the calls. -/
def fences (requestId : Text) (past : List (Call × Response)) : List Fence :=
  past.filterMap (assignedFence requestId)

/-- What the tables know about the calls so far. -/
structure Fenced (requestId : Text) (past : List (Call × Response)) (store : Store) : Prop where
  increasing : (fences requestId past).Pairwise fun earlier later =>
    earlier.attemptId < later.attemptId ∧ earlier.ownershipEpoch ≤ later.ownershipEpoch
  latest : (fences requestId past).getLast? =
    (store.inferenceRequests.lookup requestId).bind RequestRow.fence
  bounded : ∀ fence ∈ fences requestId past, ∃ row epoch,
    store.inferenceRequests.lookup requestId = some row ∧
    row.sourcePartition = fence.partitionId ∧ fence.attemptId ≤ row.attemptId ∧
    store.epochOf fence.partitionId = some epoch ∧ fence.ownershipEpoch ≤ epoch
  acquired : ∀ partitionId routerId epoch,
    (Call.acquirePartition partitionId routerId, Response.epoch epoch) ∈ past →
    ∃ current, store.epochOf partitionId = some current ∧ epoch ≤ current

/-- A row keeps its source and its fence. -/
def SameFence (row next : RequestRow) : Prop :=
  next.sourcePartition = row.sourcePartition ∧ next.attemptId = row.attemptId ∧
    next.fence = row.fence

theorem sameFence_moved (row : RequestRow) (nextState : Text) :
    SameFence row (row.moved nextState) := ⟨rfl, rfl, rfl⟩

theorem sameFence_completed (row : RequestRow) (resultPayload : Text) :
    SameFence row (row.completed resultPayload) := ⟨rfl, rfl, rfl⟩

variable {store next : Store} {call : Call} {response : Response} {requestId : Text}
  {past : List (Call × Response)}

/-- An event that hands out no fence, acquires nothing and keeps the epochs and
the fence of the row keeps the relation. -/
theorem Fenced.frame (fenced : Fenced requestId past store) {event : Call × Response}
    (unassigned : assignedFence requestId event = none)
    (acquires : ∀ partitionId routerId epoch, event ≠ (.acquirePartition partitionId routerId,
      .epoch epoch))
    (epochs : ∀ partitionId, next.epochOf partitionId = store.epochOf partitionId)
    (absent : store.inferenceRequests.lookup requestId = none →
      (next.inferenceRequests.lookup requestId).bind RequestRow.fence = none)
    (kept : ∀ row, store.inferenceRequests.lookup requestId = some row →
      ∃ after, next.inferenceRequests.lookup requestId = some after ∧ SameFence row after) :
    Fenced requestId (past ++ [event]) next := by
  have same : fences requestId (past ++ [event]) = fences requestId past := by
    unfold fences
    rw [List.filterMap_append, List.filterMap_cons_none unassigned, List.filterMap_nil,
      List.append_nil]
  refine ⟨?_, ?_, ?_, ?_⟩
  · rw [same]
    exact fenced.increasing
  · rw [same, fenced.latest]
    cases found : store.inferenceRequests.lookup requestId with
    | none => exact (absent found).symm
    | some row =>
        obtain ⟨after, foundAfter, _, _, fence⟩ := kept row found
        rw [foundAfter]
        exact fence.symm
  · rw [same]
    intro fence member
    obtain ⟨row, epoch, found, source, attempt, current, older⟩ := fenced.bounded fence member
    obtain ⟨after, foundAfter, sameSource, sameAttempt, _⟩ := kept row found
    exact ⟨after, epoch, foundAfter, sameSource.trans source, sameAttempt ▸ attempt,
      (epochs _).trans current, older⟩
  · intro partitionId routerId epoch member
    rcases List.mem_append.mp member with earlier | last
    · rw [epochs]
      exact fenced.acquired partitionId routerId epoch earlier
    · exact absurd (List.mem_singleton.mp last).symm (acquires partitionId routerId epoch)

/-- An acquisition raises the epoch of its partition only. -/
theorem epochOf_acquired (store : Store) (partitionId query : ℤ) (epoch : ℕ) (routerId : Text) :
    epochOf { store with
        partitionOwnership :=
          store.partitionOwnership.insert partitionId ⟨epoch, routerId⟩ } query =
      if query = partitionId then some epoch else store.epochOf query := by
  unfold epochOf
  simp only
  by_cases same : query = partitionId
  · rw [if_pos same, same, AList.lookup_insert]
    rfl
  · rw [if_neg same, AList.lookup_insert_ne same]

@[simp] theorem insertOutbox_epochOf (store : Store) (topic messageKey payload : Text)
    (sourcePartition sourceOffset partitionId : ℤ) :
    (store.insertOutbox topic messageKey payload sourcePartition sourceOffset).epochOf partitionId =
      store.epochOf partitionId := by
  unfold insertOutbox epochOf
  dsimp only
  split <;> rfl

/-- Acquiring a partition is an event of the relation. -/
theorem Fenced.acquire (fenced : Fenced requestId past store) {partitionId : ℤ} {routerId : Text}
    {epoch : ℕ} (raised : epoch = (store.epochOf partitionId).getD 0 + 1) :
    Fenced requestId (past ++ [(.acquirePartition partitionId routerId, .epoch epoch)])
      { store with
        partitionOwnership := store.partitionOwnership.insert partitionId ⟨epoch, routerId⟩ } := by
  have same : fences requestId (past ++ [(.acquirePartition partitionId routerId, .epoch epoch)]) =
      fences requestId past := by
    unfold fences
    rw [List.filterMap_append, List.filterMap_cons_none rfl, List.filterMap_nil, List.append_nil]
  have grows : ∀ query current, store.epochOf query = some current →
      ∃ later, epochOf { store with
        partitionOwnership := store.partitionOwnership.insert partitionId ⟨epoch, routerId⟩ }
          query = some later ∧ current ≤ later := by
    intro query current found
    rw [epochOf_acquired]
    by_cases acquired : query = partitionId
    · subst acquired
      rw [if_pos rfl]
      refine ⟨epoch, rfl, ?_⟩
      rw [found, Option.getD_some] at raised
      omega
    · rw [if_neg acquired]
      exact ⟨current, found, le_rfl⟩
  refine ⟨?_, ?_, ?_, ?_⟩
  · rw [same]
    exact fenced.increasing
  · rw [same]
    exact fenced.latest
  · rw [same]
    intro fence member
    obtain ⟨row, current, found, source, attempt, owned, older⟩ := fenced.bounded fence member
    obtain ⟨later, ownedLater, grown⟩ := grows _ _ owned
    exact ⟨row, later, found, source, attempt, ownedLater, older.trans grown⟩
  · intro acquiredId acquirer value member
    rcases List.mem_append.mp member with earlier | last
    · obtain ⟨current, owned, older⟩ := fenced.acquired acquiredId acquirer value earlier
      obtain ⟨later, ownedLater, grown⟩ := grows _ _ owned
      exact ⟨later, ownedLater, older.trans grown⟩
    · cases List.mem_singleton.mp last
      refine ⟨epoch, ?_, le_rfl⟩
      rw [epochOf_acquired, if_pos rfl]

/-- A granted assignment hands out a larger attempt under the current epoch. -/
theorem Fenced.assign (fenced : Fenced requestId past store) {row : RequestRow}
    {ownershipEpoch : ℕ} {engineId : Text}
    (found : store.inferenceRequests.lookup requestId = some row)
    (current : store.epochOf row.sourcePartition = some ownershipEpoch) :
    Fenced requestId (past ++
      [(.assignAttempt requestId row.sourcePartition ownershipEpoch engineId,
      .assigned (some ⟨⟨row.sourcePartition, ownershipEpoch, row.attemptId + 1, engineId⟩,
        row.stateVersion + 1⟩))])
      (store.putRequest requestId (row.dispatched ownershipEpoch engineId)) := by
  have appended : fences requestId (past ++ [(.assignAttempt requestId row.sourcePartition
      ownershipEpoch engineId, .assigned (some ⟨⟨row.sourcePartition, ownershipEpoch,
        row.attemptId + 1, engineId⟩, row.stateVersion + 1⟩))]) =
      fences requestId past ++
        [⟨row.sourcePartition, ownershipEpoch, row.attemptId + 1, engineId⟩] := by
    unfold fences
    rw [List.filterMap_append]
    simp [assignedFence]
  have stored : (store.putRequest requestId (row.dispatched ownershipEpoch
      engineId)).inferenceRequests.lookup requestId =
        some (row.dispatched ownershipEpoch engineId) := by
    rw [putRequest_lookup, if_pos rfl]
  refine ⟨?_, ?_, ?_, ?_⟩
  · rw [appended, List.pairwise_append]
    refine ⟨fenced.increasing, List.pairwise_singleton _ _, ?_⟩
    intro earlier member later last
    cases List.mem_singleton.mp last
    obtain ⟨other, epoch, foundOther, source, attempt, owned, older⟩ :=
      fenced.bounded earlier member
    cases found.symm.trans foundOther
    rw [← source, current] at owned
    cases owned
    exact ⟨Nat.lt_succ_of_le attempt, older⟩
  · rw [appended, List.getLast?_append, stored]
    rfl
  · rw [appended]
    intro fence member
    rcases List.mem_append.mp member with earlier | last
    · obtain ⟨other, epoch, foundOther, source, attempt, owned, older⟩ :=
        fenced.bounded fence earlier
      cases found.symm.trans foundOther
      exact ⟨_, epoch, stored, source, Nat.le_succ_of_le attempt, owned, older⟩
    · cases List.mem_singleton.mp last
      exact ⟨_, ownershipEpoch, stored, rfl, le_rfl, current, le_rfl⟩
  · intro partitionId routerId epoch member
    rcases List.mem_append.mp member with earlier | last
    · exact fenced.acquired partitionId routerId epoch earlier
    · cases List.mem_singleton.mp last

/-- Writing another fence-preserving row, of this or another request. -/
theorem Fenced.put (fenced : Fenced requestId past store) {event : Call × Response}
    {writtenId : Text} {row after : RequestRow}
    (unassigned : assignedFence requestId event = none)
    (acquires : ∀ partitionId routerId epoch, event ≠ (.acquirePartition partitionId routerId,
      .epoch epoch))
    (found : store.inferenceRequests.lookup writtenId = some row) (same : SameFence row after)
    (epochs : ∀ partitionId, next.epochOf partitionId = store.epochOf partitionId)
    (written : next.inferenceRequests = (store.putRequest writtenId after).inferenceRequests) :
    Fenced requestId (past ++ [event]) next := by
  refine fenced.frame unassigned acquires epochs ?_ ?_
  · intro absent
    rw [written, putRequest_lookup]
    by_cases own : requestId = writtenId
    · rw [own, found] at absent
      cases absent
    · rw [if_neg own, absent]
      rfl
  · intro before foundBefore
    rw [written, putRequest_lookup]
    by_cases own : requestId = writtenId
    · rw [own, found] at foundBefore
      cases foundBefore
      exact ⟨after, if_pos own, same⟩
    · exact ⟨before, (if_neg own).trans foundBefore, rfl, rfl, rfl⟩

/-- Every call keeps the relation between the history and the tables. -/
theorem Fenced.step (fenced : Fenced requestId past store)
    (step : Step store call response next) :
    Fenced requestId (past ++ [(call, response)]) next := by
  have still : ∀ row, store.inferenceRequests.lookup requestId = some row →
      ∃ after, store.inferenceRequests.lookup requestId = some after ∧ SameFence row after :=
    fun row found => ⟨row, found, rfl, rfl, rfl⟩
  have nothing : store.inferenceRequests.lookup requestId = none →
      (store.inferenceRequests.lookup requestId).bind RequestRow.fence = none := by
    intro absent
    rw [absent]
    rfl
  cases step with
  | refused refusal =>
      refine fenced.frame ?_ ?_ (fun _ => rfl) nothing still
      · unfold assignedFence
        split
        · next call assignment event => cases congrArg Prod.snd event; cases refusal
        · rfl
      · intro partitionId routerId epoch event
        cases congrArg Prod.snd event
        exact refusal
  | acquired raised fits => exact fenced.acquire raised
  | @ingested ingestedId sourcePartition sourceOffset rawPayload fresh unused =>
      refine fenced.frame rfl (fun _ _ _ event => by cases event) (fun _ => rfl) ?_ ?_
      · intro absent
        rw [putRequest_lookup]
        by_cases own : requestId = ingestedId
        · rw [if_pos own]
          rfl
        · rw [if_neg own, absent]
          rfl
      · intro row found
        have other : requestId ≠ ingestedId := by
          rintro rfl
          exact fresh (AList.lookup_isSome.mp (by rw [found]; rfl))
        rw [putRequest_lookup, if_neg other]
        exact still row found
  | @assigned assignedId partitionId ownershipEpoch engineId row found source current _ _ =>
      subst source
      by_cases own : assignedId = requestId
      · subst own
        exact fenced.assign found current
      · refine fenced.frame ?_ (fun _ _ _ event => by cases event) (fun _ => rfl) ?_ ?_
        · unfold assignedFence
          simp only
          exact if_neg own
        · intro absent
          rw [putRequest_lookup, if_neg (Ne.symm own), absent]
          rfl
        · intro before foundBefore
          rw [putRequest_lookup, if_neg (Ne.symm own)]
          exact still before foundBefore
  | moved found same unresolved =>
      exact fenced.put rfl (fun _ _ _ event => by cases event) found (sameFence_moved _ _)
        (fun _ => rfl) rfl
  | completed found matched fits =>
      refine fenced.put rfl (fun _ _ _ event => by cases event) found (sameFence_completed _ _) ?_
        (insertOutbox_requests _ _ _ _ _ _)
      intro partitionId
      rw [insertOutbox_epochOf]
      rfl
  | poisoned fresh =>
      refine fenced.frame rfl (fun _ _ _ event => by cases event) ?_ ?_ ?_
      · intro partitionId
        rw [insertOutbox_epochOf]
        rfl
      · rw [insertOutbox_requests]
        exact nothing
      · rw [insertOutbox_requests]
        exact still
  | marked =>
      exact fenced.frame rfl (fun _ _ _ event => by cases event) (fun _ => rfl) nothing still

theorem Fenced.empty (requestId : Text) : Fenced requestId [] Store.empty :=
  ⟨List.Pairwise.nil, rfl, fun _ member => absurd member List.not_mem_nil,
    fun _ _ _ member => absurd member List.not_mem_nil⟩

theorem Fenced.run (requestId : Text) (calls : List Call) :
    Fenced requestId (object.history calls .empty) (object.run calls .empty) :=
  object.history_invariant (fun _ call _ fenced => fenced.step (respond_step call _)) calls .empty
    (Fenced.empty requestId)

/-- **Fencing along every run.** The fences handed out for a request have
strictly increasing attempts and never older epochs; an assignment under an epoch
below one already acquired for the partition is refused; and a completion is
accepted only under the fence handed out last. -/
theorem fencing_monotone (calls : List Call) (requestId : Text) :
    ((fences requestId (object.history calls .empty)).Pairwise fun earlier later =>
      earlier.attemptId < later.attemptId ∧ earlier.ownershipEpoch ≤ later.ownershipEpoch) ∧
    (∀ partitionId routerId epoch lower engineId,
      (Call.acquirePartition partitionId routerId, Response.epoch epoch) ∈
        object.history calls .empty → lower < epoch →
      ((object.respond (.assignAttempt requestId partitionId lower engineId)
        (object.run calls .empty)).1.Refusal ∧
      (object.respond (.assignAttempt requestId partitionId lower engineId)
        (object.run calls .empty)).2 = object.run calls .empty)) ∧
    ∀ fence payload,
      (object.respond (.finalize requestId fence payload) (object.run calls .empty)).1 =
        .accepted true →
      (fences requestId (object.history calls .empty)).getLast? = some fence := by
  have fenced := Fenced.run requestId calls
  refine ⟨fenced.increasing, ?_, ?_⟩
  · intro partitionId routerId epoch lower engineId acquired older
    obtain ⟨current, owned, bound⟩ := fenced.acquired partitionId routerId epoch acquired
    have step := respond_step (.assignAttempt requestId partitionId lower engineId)
      (object.run calls .empty)
    generalize object.respond (.assignAttempt requestId partitionId lower engineId)
      (object.run calls .empty) = result at step ⊢
    obtain ⟨response, next⟩ := result
    cases step with
    | refused refusal => exact ⟨refusal, rfl⟩
    | assigned _ _ held _ _ =>
        cases owned.symm.trans held
        omega
  · intro fence payload accepted
    obtain ⟨row, found, matched, _, _⟩ := (respond_step (.finalize requestId fence payload)
      (object.run calls .empty)).finalized rfl accepted
    rw [fenced.latest, found]
    exact ((fenceMatches_iff_fence row fence).mp matched).1

/-- Two owners in turn assign a request, and the second completes it. -/
theorem fencing_monotone_takeover :
    let calls := [Call.acquirePartition 0 ['a'], .ingest ['x'] 0 5 [],
      .assignAttempt ['x'] 0 1 ['e'], .acquirePartition 0 ['b'], .assignAttempt ['x'] 0 2 ['f']]
    (object.respond (.finalize ['x'] ⟨0, 2, 2, ['f']⟩ ['r']) (object.run calls .empty)).1 =
        .accepted true ∧
      (fences ['x'] (object.history calls .empty)).getLast? = some ⟨0, 2, 2, ['f']⟩ := by
  intro calls
  have accepted : (object.respond (.finalize ['x'] ⟨0, 2, 2, ['f']⟩ ['r'])
      (object.run calls .empty)).1 = .accepted true := by decide
  exact ⟨accepted, (fencing_monotone calls ['x']).2.2 _ _ accepted⟩

/-- The stored epochs and attempts are `BIGINT` values. -/
structure InRange (store : Store) : Prop where
  epochs : ∀ partitionId epoch, store.epochOf partitionId = some epoch → epoch ≤ int64Max
  fences : ∀ requestId row fence, store.inferenceRequests.lookup requestId = some row →
    row.fence = some fence → fence.ownershipEpoch ≤ int64Max ∧ fence.attemptId ≤ int64Max

/-- Writing a row whose fence is in range keeps the ranges. -/
theorem InRange.put (inRange : store.InRange) {writtenId : Text} {after : RequestRow}
    (epochs : ∀ partitionId, next.epochOf partitionId = store.epochOf partitionId)
    (written : next.inferenceRequests = (store.putRequest writtenId after).inferenceRequests)
    (fits : ∀ fence, after.fence = some fence →
      fence.ownershipEpoch ≤ int64Max ∧ fence.attemptId ≤ int64Max) : next.InRange := by
  refine ⟨?_, ?_⟩
  · intro partitionId epoch owned
    exact inRange.epochs partitionId epoch ((epochs partitionId).symm.trans owned)
  · intro query row fence found carried
    rw [written, putRequest_lookup] at found
    by_cases own : query = writtenId
    · rw [if_pos own] at found
      cases found
      exact fits fence carried
    · rw [if_neg own] at found
      exact inRange.fences query row fence found carried

theorem InRange.step (inRange : store.InRange) (step : Step store call response next) :
    next.InRange := by
  cases step with
  | refused refusal => exact inRange
  | marked => exact ⟨inRange.epochs, inRange.fences⟩
  | @acquired partitionId routerId epoch raised fits =>
      refine ⟨?_, inRange.fences⟩
      intro query value owned
      rw [epochOf_acquired] at owned
      by_cases same : query = partitionId
      · rw [if_pos same] at owned
        cases owned
        exact fits
      · rw [if_neg same] at owned
        exact inRange.epochs query value owned
  | ingested fresh unused =>
      exact inRange.put (fun _ => rfl) rfl fun fence carried => by cases carried
  | assigned found source current unresolved fits =>
      refine inRange.put (fun _ => rfl) rfl fun fence carried => ?_
      cases carried
      exact ⟨inRange.epochs _ _ current, fits⟩
  | moved found same unresolved =>
      exact inRange.put (fun _ => rfl) rfl
        fun fence carried => inRange.fences _ _ fence found carried
  | completed found matched fits =>
      refine inRange.put ?_ (insertOutbox_requests _ _ _ _ _ _)
        fun fence carried => inRange.fences _ _ fence found carried
      intro partitionId
      rw [insertOutbox_epochOf]
      rfl
  | poisoned fresh =>
      refine ⟨?_, ?_⟩
      · intro partitionId epoch owned
        rw [insertOutbox_epochOf] at owned
        exact inRange.epochs partitionId epoch owned
      · rw [insertOutbox_requests]
        exact inRange.fences

theorem InRange.run (calls : List Call) : (object.run calls .empty).InRange := by
  have empty : Store.empty.InRange := by
    refine ⟨?_, ?_⟩
    · intro partitionId epoch owned
      cases owned
    · intro requestId row fence found
      cases found
  exact object.invariant (fun call _ inRange => inRange.step (respond_step call _)) calls _ empty

/-- A completion under the fence of a dispatched row is accepted. -/
theorem finalize_accepted (inRange : store.InRange) {row : RequestRow} {fence : Fence}
    (found : store.inferenceRequests.lookup requestId = some row) (carried : row.fence = some fence)
    (dispatched : row.state = dispatchedState) (version : row.stateVersion < int64Max)
    (payload : Text) :
    (object.respond (.finalize requestId fence payload) store).1 = .accepted true := by
  obtain ⟨epoch, attempt⟩ := inRange.fences requestId row fence found carried
  have matched := (fenceMatches_iff_fence row fence).mpr ⟨carried, dispatched⟩
  have epochChecked : checkedInt64 fence.ownershipEpoch = .ok fence.ownershipEpoch :=
    if_neg (Nat.not_lt.mpr epoch)
  have attemptChecked : checkedInt64 fence.attemptId = .ok fence.attemptId :=
    if_neg (Nat.not_lt.mpr attempt)
  have versioned : bigintSucc row.stateVersion = .ok (row.stateVersion + 1) :=
    if_neg (Nat.not_lt.mpr version)
  change (store.transact .accepted (store.finalize requestId fence payload)).1 = _
  simp only [finalize, epochChecked, attemptChecked, found, bind, Except.bind, if_pos matched,
    versioned]
  rfl

/-- **When completions are current.** In every reachable store, `Finalize` of a
request accepts only the current epoch of the partition, whatever the fence and
the payload, exactly when no dispatched row of the request carries an epoch that
another acquisition has replaced. -/
theorem finalize_epoch_current_iff (calls : List Call) (requestId : Text) :
    (∀ fence payload,
      (object.respond (.finalize requestId fence payload) (object.run calls .empty)).1 =
        .accepted true →
      (object.run calls .empty).epochOf fence.partitionId = some fence.ownershipEpoch) ↔
    ∀ row fence, (object.run calls .empty).inferenceRequests.lookup requestId = some row →
      row.fence = some fence → row.state = dispatchedState → row.stateVersion < int64Max →
      (object.run calls .empty).epochOf fence.partitionId = some fence.ownershipEpoch := by
  constructor
  · intro current row fence found carried dispatched version
    exact current fence []
      (finalize_accepted (InRange.run calls) found carried dispatched version [])
  · intro current fence payload accepted
    have step := respond_step (.finalize requestId fence payload) (object.run calls .empty)
    obtain ⟨row, found, matched, version, _⟩ := step.finalized rfl accepted
    obtain ⟨carried, dispatched⟩ := (fenceMatches_iff_fence row fence).mp matched
    exact current row fence found carried dispatched version

/-- A second router has acquired the partition, and the first router's completion
under the old epoch is still accepted. -/
theorem finalize_accepts_replaced_epoch :
    ¬ ∀ (calls : List Call) (requestId : Text) (fence : Fence) (payload : Text),
      (object.respond (.finalize requestId fence payload) (object.run calls .empty)).1 =
        .accepted true →
      (object.run calls .empty).epochOf fence.partitionId = some fence.ownershipEpoch := by
  intro current
  have stale := current
    [.acquirePartition 0 ['a'], .ingest ['x'] 0 5 [], .assignAttempt ['x'] 0 1 ['e'],
      .acquirePartition 0 ['b']] ['x'] ⟨0, 1, 1, ['e']⟩ ['r'] (by decide)
  exact absurd stale (by decide)

end Store
end InferSched.Durable

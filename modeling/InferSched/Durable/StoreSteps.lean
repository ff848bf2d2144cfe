import InferSched.Durable.Store

/-! # What one transaction can do

`Store.Step` lists every effect a call can have on the tables, with the guard
that let it through and the response it gave; `Store.respond_step` says there is
no other. The invariants of the store are read off this relation, without
unfolding the transactions again.
-/

namespace InferSched.Durable

/-- A response that reports no effect. -/
def Store.Response.Refusal : Store.Response → Prop
  | .threw _ => True
  | .accepted value => value = false
  | .assigned assignment => assignment = none
  | .epoch _ => False
  | .done => False

namespace RequestRow

/-- The row an ingestion writes. -/
def received (sourcePartition sourceOffset : ℤ) (rawPayload : Text) : RequestRow :=
  { state := receivedState, stateVersion := 0, sourcePartition, sourceOffset, rawPayload,
    ownershipEpoch := none, engineId := none, attemptId := 0, terminalResult := none }

/-- The row after an assignment. -/
def dispatched (row : RequestRow) (ownershipEpoch : ℕ) (engineId : Text) : RequestRow :=
  { row with
    state := dispatchedState
    stateVersion := row.stateVersion + 1
    ownershipEpoch := some ownershipEpoch
    engineId := some engineId
    attemptId := row.attemptId + 1 }

/-- The row after a transition. -/
def moved (row : RequestRow) (nextState : Text) : RequestRow :=
  { row with state := nextState, stateVersion := row.stateVersion + 1 }

/-- The row after an accepted completion. -/
def completed (row : RequestRow) (resultPayload : Text) : RequestRow :=
  { row with
    state := completedState
    stateVersion := row.stateVersion + 1
    terminalResult := some resultPayload }

end RequestRow

namespace Store

/-- The effects of a call on the tables. -/
inductive Step (store : Store) : Call → Response → Store → Prop
  | refused {call : Call} {response : Response} (refusal : response.Refusal) :
      Step store call response store
  | acquired {partitionId : ℤ} {routerId : Text} {epoch : ℕ}
      (next : epoch = (store.epochOf partitionId).getD 0 + 1) (fits : epoch ≤ int64Max) :
      Step store (.acquirePartition partitionId routerId) (.epoch epoch)
        { store with
          partitionOwnership := store.partitionOwnership.insert partitionId ⟨epoch, routerId⟩ }
  | ingested {requestId : Text} {sourcePartition sourceOffset : ℤ} {rawPayload : Text}
      (fresh : requestId ∉ store.inferenceRequests)
      (unused : store.sourceTaken sourcePartition sourceOffset = false) :
      Step store (.ingest requestId sourcePartition sourceOffset rawPayload) (.accepted true)
        (store.putRequest requestId (.received sourcePartition sourceOffset rawPayload))
  | assigned {requestId : Text} {partitionId : ℤ} {ownershipEpoch : ℕ} {engineId : Text}
      {row : RequestRow} (found : store.inferenceRequests.lookup requestId = some row)
      (source : row.sourcePartition = partitionId)
      (current : store.epochOf partitionId = some ownershipEpoch)
      (unresolved : row.state ∉ terminalStates) (fits : row.attemptId + 1 ≤ int64Max) :
      Step store (.assignAttempt requestId partitionId ownershipEpoch engineId)
        (.assigned (some ⟨⟨partitionId, ownershipEpoch, row.attemptId + 1, engineId⟩,
          row.stateVersion + 1⟩))
        (store.putRequest requestId (row.dispatched ownershipEpoch engineId))
  | moved {requestId : Text} {expectedState nextState : Text} {row : RequestRow}
      (found : store.inferenceRequests.lookup requestId = some row)
      (same : row.state = expectedState) (unresolved : row.state ∉ terminalStates) :
      Step store (.transition requestId row.stateVersion expectedState nextState)
        (.accepted true) (store.putRequest requestId (row.moved nextState))
  | completed {requestId : Text} {fence : Fence} {resultPayload : Text} {row : RequestRow}
      (found : store.inferenceRequests.lookup requestId = some row)
      (fenced : fenceMatches row fence = true) (fits : row.stateVersion + 1 ≤ int64Max) :
      Step store (.finalize requestId fence resultPayload) (.accepted true)
        ((store.putRequest requestId (row.completed resultPayload)).insertOutbox resultsTopic
          requestId resultPayload row.sourcePartition row.sourceOffset)
  | poisoned {sourcePartition sourceOffset : ℤ} {rawPayload error : Text}
      (fresh : (sourcePartition, sourceOffset) ∉ store.poisonMessages) :
      Step store (.recordPoison sourcePartition sourceOffset rawPayload error) (.accepted true)
        (insertOutbox { store with
            poisonMessages := store.poisonMessages.insert (sourcePartition, sourceOffset)
              ⟨rawPayload, error⟩ }
          dlqTopic (signedDecimal sourcePartition ++ [':'] ++ signedDecimal sourceOffset)
          (encodeHex rawPayload) sourcePartition sourceOffset)
  | marked {outboxId : ℕ} :
      Step store (.markPublished outboxId) .done (store.markPublished outboxId)

/-- A number that passes the check is sent as it is. -/
theorem checkedInt64_eq_ok {value checked : ℕ} (passed : checkedInt64 value = .ok checked) :
    checked = value := by
  unfold checkedInt64 at passed
  split at passed
  · cases passed
  · cases passed
    rfl

/-- A column that can be counted up is below the largest `BIGINT`. -/
theorem bigintSucc_eq_ok {value next : ℕ} (passed : bigintSucc value = .ok next) :
    next = value + 1 ∧ value + 1 ≤ int64Max := by
  unfold bigintSucc at passed
  split at passed
  · cases passed
  · next small =>
      cases passed
      exact ⟨rfl, Nat.le_of_not_lt small⟩

/-- An acquisition writes the epoch of its partition, or throws. -/
theorem acquirePartition_step (store : Store) (partitionId : ℤ) (routerId : Text) :
    Step store (.acquirePartition partitionId routerId)
      (object.respond (.acquirePartition partitionId routerId) store).1
      (object.respond (.acquirePartition partitionId routerId) store).2 := by
  change Step store _ (store.transact .epoch (store.acquirePartition partitionId routerId)).1
    (store.transact .epoch (store.acquirePartition partitionId routerId)).2
  cases found : store.partitionOwnership.lookup partitionId with
  | none =>
      simp only [acquirePartition, found]
      exact .acquired (by simp [epochOf, found]) (by decide)
  | some row =>
      cases passed : bigintSucc row.ownershipEpoch with
      | error error =>
          simp only [acquirePartition, found, passed]
          exact .refused trivial
      | ok epoch =>
          obtain ⟨rfl, fits⟩ := bigintSucc_eq_ok passed
          simp only [acquirePartition, found, passed]
          exact .acquired (by simp [epochOf, found]) fits

/-- A fresh id and position give a received request, anything else no change. -/
theorem ingest_step (store : Store) (requestId : Text) (sourcePartition sourceOffset : ℤ)
    (rawPayload : Text) :
    Step store (.ingest requestId sourcePartition sourceOffset rawPayload)
      (object.respond (.ingest requestId sourcePartition sourceOffset rawPayload) store).1
      (object.respond (.ingest requestId sourcePartition sourceOffset rawPayload) store).2 := by
  change Step store _
    (.accepted (store.ingest requestId sourcePartition sourceOffset rawPayload).1)
    (store.ingest requestId sourcePartition sourceOffset rawPayload).2
  unfold ingest
  split
  · exact .refused rfl
  · next free =>
      simp only [not_or, Bool.not_eq_true] at free
      exact .ingested free.1 free.2

/-- A guard that holds gives the request its next attempt, one that does not leaves the
store. -/
theorem assignAttempt_step (store : Store) (requestId : Text) (partitionId : ℤ)
    (ownershipEpoch : ℕ) (engineId : Text) :
    Step store (.assignAttempt requestId partitionId ownershipEpoch engineId)
      (object.respond (.assignAttempt requestId partitionId ownershipEpoch engineId) store).1
      (object.respond (.assignAttempt requestId partitionId ownershipEpoch engineId) store).2 := by
  change Step store _
    (store.transact .assigned (store.assignAttempt requestId partitionId ownershipEpoch engineId)).1
    (store.transact .assigned (store.assignAttempt requestId partitionId ownershipEpoch engineId)).2
  cases checked : checkedInt64 ownershipEpoch with
  | error error =>
      simp only [assignAttempt, checked]
      exact .refused trivial
  | ok epoch =>
      cases checkedInt64_eq_ok checked
      cases found : store.inferenceRequests.lookup requestId with
      | none =>
          simp only [assignAttempt, checked, found]
          exact .refused rfl
      | some row =>
          by_cases guard : row.sourcePartition = partitionId ∧
              store.epochOf partitionId = some ownershipEpoch ∧ row.state ∉ terminalStates
          · cases version : bigintSucc row.stateVersion with
            | error error =>
                simp only [assignAttempt, checked, found, bind, Except.bind, if_pos guard, version]
                exact .refused trivial
            | ok stateVersion =>
                obtain ⟨rfl, _⟩ := bigintSucc_eq_ok version
                cases attempt : bigintSucc row.attemptId with
                | error error =>
                    simp only [assignAttempt, checked, found, bind, Except.bind, if_pos guard,
                      version, attempt]
                    exact .refused trivial
                | ok attemptId =>
                    obtain ⟨rfl, fits⟩ := bigintSucc_eq_ok attempt
                    simp only [assignAttempt, checked, found, bind, Except.bind, if_pos guard,
                      version, attempt]
                    exact .assigned found guard.1 guard.2.1 guard.2.2 fits
          · simp only [assignAttempt, checked, found, bind, Except.bind, if_neg guard]
            exact .refused rfl

/-- A transition writes the state and the version of one row. -/
theorem transition_step (store : Store) (requestId : Text) (expectedStateVersion : ℕ)
    (expectedState nextState : Text) :
    Step store (.transition requestId expectedStateVersion expectedState nextState)
      (object.respond (.transition requestId expectedStateVersion expectedState nextState) store).1
      (object.respond (.transition requestId expectedStateVersion expectedState nextState)
        store).2 := by
  change Step store _ (store.transact .accepted
      (store.transition requestId expectedStateVersion expectedState nextState)).1
    (store.transact .accepted
      (store.transition requestId expectedStateVersion expectedState nextState)).2
  cases checked : checkedInt64 expectedStateVersion with
  | error error =>
      simp only [transition, checked]
      exact .refused trivial
  | ok expected =>
      cases checkedInt64_eq_ok checked
      cases found : store.inferenceRequests.lookup requestId with
      | none =>
          simp only [transition, checked, found]
          exact .refused rfl
      | some row =>
          by_cases guard : row.stateVersion = expectedStateVersion ∧ row.state = expectedState ∧
              row.state ∉ terminalStates
          · cases version : bigintSucc row.stateVersion with
            | error error =>
                simp only [transition, checked, found, bind, Except.bind, if_pos guard, version]
                exact .refused trivial
            | ok stateVersion =>
                obtain ⟨rfl, _⟩ := bigintSucc_eq_ok version
                simp only [transition, checked, found, bind, Except.bind, if_pos guard, version]
                obtain ⟨rfl, same, unresolved⟩ := guard
                exact .moved found same unresolved
          · simp only [transition, checked, found, bind, Except.bind, if_neg guard]
            exact .refused rfl

/-- A completion writes the row of its request and one row of the outbox. -/
theorem finalize_step (store : Store) (requestId : Text) (fence : Fence) (resultPayload : Text) :
    Step store (.finalize requestId fence resultPayload)
      (object.respond (.finalize requestId fence resultPayload) store).1
      (object.respond (.finalize requestId fence resultPayload) store).2 := by
  change Step store _ (store.transact .accepted (store.finalize requestId fence resultPayload)).1
    (store.transact .accepted (store.finalize requestId fence resultPayload)).2
  cases epoch : checkedInt64 fence.ownershipEpoch with
  | error error =>
      simp only [finalize, epoch]
      exact .refused trivial
  | ok _ =>
      cases attempt : checkedInt64 fence.attemptId with
      | error error =>
          simp only [finalize, epoch, attempt]
          exact .refused trivial
      | ok _ =>
          cases found : store.inferenceRequests.lookup requestId with
          | none =>
              simp only [finalize, epoch, attempt, found]
              exact .refused rfl
          | some row =>
              by_cases guard : fenceMatches row fence = true
              · cases version : bigintSucc row.stateVersion with
                | error error =>
                    simp only [finalize, epoch, attempt, found, bind, Except.bind, if_pos guard,
                      version]
                    exact .refused trivial
                | ok stateVersion =>
                    obtain ⟨rfl, fits⟩ := bigintSucc_eq_ok version
                    simp only [finalize, epoch, attempt, found, bind, Except.bind, if_pos guard,
                      version]
                    exact .completed found guard fits
              · simp only [finalize, epoch, attempt, found, bind, Except.bind, if_neg guard]
                exact .refused rfl

/-- A position that is not poison yet gets its row, with one of the outbox. -/
theorem recordPoison_step (store : Store) (sourcePartition sourceOffset : ℤ)
    (rawPayload error : Text) :
    Step store (.recordPoison sourcePartition sourceOffset rawPayload error)
      (object.respond (.recordPoison sourcePartition sourceOffset rawPayload error) store).1
      (object.respond (.recordPoison sourcePartition sourceOffset rawPayload error) store).2 := by
  change Step store _
    (.accepted (store.recordPoison sourcePartition sourceOffset rawPayload error).1)
    (store.recordPoison sourcePartition sourceOffset rawPayload error).2
  unfold recordPoison
  split
  · exact .refused rfl
  · next fresh => exact .poisoned fresh

/-- A call has one of the listed effects. -/
theorem respond_step (call : Call) (store : Store) :
    Step store call (object.respond call store).1 (object.respond call store).2 := by
  cases call with
  | acquirePartition partitionId routerId =>
      exact store.acquirePartition_step partitionId routerId
  | ingest requestId sourcePartition sourceOffset rawPayload =>
      exact store.ingest_step requestId sourcePartition sourceOffset rawPayload
  | assignAttempt requestId partitionId ownershipEpoch engineId =>
      exact store.assignAttempt_step requestId partitionId ownershipEpoch engineId
  | transition requestId expectedStateVersion expectedState nextState =>
      exact store.transition_step requestId expectedStateVersion expectedState nextState
  | finalize requestId fence resultPayload =>
      exact store.finalize_step requestId fence resultPayload
  | recordPoison sourcePartition sourceOffset rawPayload error =>
      exact store.recordPoison_step sourcePartition sourceOffset rawPayload error
  | markPublished outboxId => exact .marked

end Store
end InferSched.Durable

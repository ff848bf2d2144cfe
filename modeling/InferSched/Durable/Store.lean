import Mathlib.Data.List.AList
import Mathlib.Data.List.Sort
import InferSched.Basic
import InferSched.Library.AtomicObject

/-! # The durable store

The PostgreSQL state of the pipeline and the transactions of `DurableStore`
(`durable_store.cpp`). Each table is an association list over its primary key,
`outbox` is in insertion order. A transaction is one state transformer; the
exceptions it can raise before it commits are its errors, and a transaction that
raises leaves the tables as they were. Columns that no statement reads
(`created_at`, `updated_at`) are left out, and `published_at` is kept as whether
it is set.
-/

namespace InferSched.Durable

open Library

/-- The exceptions of the store's transactions. -/
inductive StoreError
  | fenceOverflow
  | bigintOutOfRange
deriving DecidableEq, Repr

/-- The fence of a completion: a partition with its epoch, and an attempt on an engine. -/
structure Fence where
  partitionId : ℤ
  ownershipEpoch : ℕ
  attemptId : ℕ
  engineId : Text
deriving DecidableEq, Repr

/-- What a router learns of the attempt that it has started. -/
structure Assignment where
  fence : Fence
  stateVersion : ℕ
deriving DecidableEq, Repr

/-- A row of `partition_ownership`. -/
structure OwnershipRow where
  ownershipEpoch : ℕ
  routerId : Text
deriving DecidableEq, Repr

/-- A row of `inference_requests`. -/
structure RequestRow where
  state : Text
  stateVersion : ℕ
  sourcePartition : ℤ
  sourceOffset : ℤ
  rawPayload : Text
  ownershipEpoch : Option ℕ
  engineId : Option Text
  attemptId : ℕ
  terminalResult : Option Text
deriving DecidableEq, Repr

/-- A row of `poison_messages`. -/
structure PoisonRow where
  rawPayload : Text
  error : Text
deriving DecidableEq, Repr

/-- A row of `outbox`. -/
structure OutboxRow where
  id : ℕ
  topic : Text
  messageKey : Text
  payload : Text
  sourcePartition : ℤ
  sourceOffset : ℤ
  published : Bool
deriving DecidableEq, Repr

/-- A row of `RecoverUnresolved`. -/
structure RecoveredRequest where
  requestId : Text
  state : Text
  sourcePartition : ℤ
  sourceOffset : ℤ
  stateVersion : ℕ
  rawPayload : Text
deriving DecidableEq, Repr

/-- The tables; `outboxSequence` is the next value of the outbox's serial key. -/
structure Store where
  partitionOwnership : AList fun _ : ℤ => OwnershipRow
  inferenceRequests : AList fun _ : Text => RequestRow
  poisonMessages : AList fun _ : ℤ × ℤ => PoisonRow
  outbox : List OutboxRow
  outboxSequence : ℕ
deriving DecidableEq

/-- The states that the store writes. -/
def receivedState : Text := "RECEIVED".toList
def dispatchedState : Text := "DISPATCHED".toList
def completedState : Text := "COMPLETED".toList

/-- The states every guard of the store treats as final. -/
def terminalStates : List Text :=
  [completedState, "FAILED_TERMINAL".toList, "CANCELLED".toList, "TIMED_OUT".toList]

/-- The topics of the outbox. -/
def resultsTopic : Text := "inference.results".toList
def dlqTopic : Text := "inference.dlq".toList

/-- An unsigned number as a `BIGINT` parameter. -/
def checkedInt64 (value : ℕ) : Except StoreError ℕ :=
  if value > int64Max then .error .fenceOverflow else .ok value

/-- `column + 1` on a `BIGINT` column. -/
def bigintSucc (value : ℕ) : Except StoreError ℕ :=
  if value + 1 > int64Max then .error .bigintOutOfRange else .ok (value + 1)

/-- One lowercase digit of `encode(_, 'hex')`. -/
def hexDigit (value : ℕ) : Char :=
  "0123456789abcdef".toList.getD value '0'

/-- PostgreSQL's `encode(_, 'hex')`. -/
def encodeHex (bytes : Text) : Text :=
  bytes.flatMap fun byte => [hexDigit (byte.toNat / 16 % 16), hexDigit (byte.toNat % 16)]

namespace Store

/-- The tables `Migrate` creates. -/
def empty : Store := ⟨∅, ∅, ∅, [], 1⟩

/-- The current epoch of a partition, if it was ever acquired. -/
def epochOf (store : Store) (partitionId : ℤ) : Option ℕ :=
  (store.partitionOwnership.lookup partitionId).map OwnershipRow.ownershipEpoch

/-- The first epoch of a partition is 1, and every acquisition takes the next one. -/
def acquirePartition (store : Store) (partitionId : ℤ) (routerId : Text) :
    Except StoreError (ℕ × Store) := do
  let epoch ← match store.partitionOwnership.lookup partitionId with
    | none => .ok 1
    | some row => bigintSucc row.ownershipEpoch
  return (epoch, { store with
    partitionOwnership := store.partitionOwnership.insert partitionId ⟨epoch, routerId⟩ })

/-- Some request already has this source position. -/
def sourceTaken (store : Store) (sourcePartition sourceOffset : ℤ) : Bool :=
  store.inferenceRequests.entries.any fun entry =>
    entry.2.sourcePartition = sourcePartition && entry.2.sourceOffset = sourceOffset

/-- Write the row of one request. -/
def putRequest (store : Store) (requestId : Text) (row : RequestRow) : Store :=
  { store with inferenceRequests := store.inferenceRequests.insert requestId row }

/-- Insert a request, unless its id or its source position is taken. -/
def ingest (store : Store) (requestId : Text) (sourcePartition sourceOffset : ℤ)
    (rawPayload : Text) : Bool × Store :=
  if requestId ∈ store.inferenceRequests ∨ store.sourceTaken sourcePartition sourceOffset = true
  then (false, store)
  else (true, store.putRequest requestId
    { state := receivedState, stateVersion := 0, sourcePartition, sourceOffset, rawPayload,
      ownershipEpoch := none, engineId := none, attemptId := 0, terminalResult := none })

/-- Start an attempt of an open request under the current epoch of its partition. -/
def assignAttempt (store : Store) (requestId : Text) (partitionId : ℤ) (ownershipEpoch : ℕ)
    (engineId : Text) : Except StoreError (Option Assignment × Store) := do
  let epoch ← checkedInt64 ownershipEpoch
  match store.inferenceRequests.lookup requestId with
  | none => return (none, store)
  | some row =>
      if row.sourcePartition = partitionId ∧ store.epochOf partitionId = some epoch ∧
          row.state ∉ terminalStates then
        let stateVersion ← bigintSucc row.stateVersion
        let attemptId ← bigintSucc row.attemptId
        return (some ⟨⟨partitionId, ownershipEpoch, attemptId, engineId⟩, stateVersion⟩,
          store.putRequest requestId
            { row with
              state := dispatchedState
              stateVersion := stateVersion
              ownershipEpoch := some epoch
              engineId := some engineId
              attemptId := attemptId })
      else return (none, store)

/-- Move an open request from a state and version to another state. -/
def transition (store : Store) (requestId : Text) (expectedStateVersion : ℕ)
    (expectedState nextState : Text) : Except StoreError (Bool × Store) := do
  let expected ← checkedInt64 expectedStateVersion
  match store.inferenceRequests.lookup requestId with
  | none => return (false, store)
  | some row =>
      if row.stateVersion = expected ∧ row.state = expectedState ∧ row.state ∉ terminalStates then
        let stateVersion ← bigintSucc row.stateVersion
        return (true, store.putRequest requestId
          { row with state := nextState, stateVersion := stateVersion })
      else return (false, store)

/-- `INSERT INTO outbox ... ON CONFLICT (topic, message_key) DO NOTHING`; the
serial key advances even when the row is not inserted. -/
def insertOutbox (store : Store) (topic messageKey payload : Text)
    (sourcePartition sourceOffset : ℤ) : Store :=
  let store' := { store with outboxSequence := store.outboxSequence + 1 }
  if store.outbox.any fun row => row.topic = topic && row.messageKey = messageKey then store'
  else { store' with outbox := store.outbox ++
    [⟨store.outboxSequence, topic, messageKey, payload, sourcePartition, sourceOffset, false⟩] }

/-- The guard of the completing update: the row is dispatched under this fence. -/
def fenceMatches (row : RequestRow) (fence : Fence) : Bool :=
  row.sourcePartition = fence.partitionId && row.ownershipEpoch = some fence.ownershipEpoch &&
    row.attemptId = fence.attemptId && row.engineId = some fence.engineId &&
    row.state = dispatchedState

/-- Complete a dispatched request under the fence of its attempt, with its outbox row. -/
def finalize (store : Store) (requestId : Text) (fence : Fence) (resultPayload : Text) :
    Except StoreError (Bool × Store) := do
  let _ ← checkedInt64 fence.ownershipEpoch
  let _ ← checkedInt64 fence.attemptId
  match store.inferenceRequests.lookup requestId with
  | none => return (false, store)
  | some row =>
      if fenceMatches row fence then
        let stateVersion ← bigintSucc row.stateVersion
        let updated := store.putRequest requestId
          { row with
            state := completedState
            stateVersion := stateVersion
            terminalResult := some resultPayload }
        return (true, updated.insertOutbox resultsTopic requestId resultPayload
          row.sourcePartition row.sourceOffset)
      else return (false, store)

/-- Insert a malformed payload once, with its row for the dead letter topic. -/
def recordPoison (store : Store) (sourcePartition sourceOffset : ℤ) (rawPayload error : Text) :
    Bool × Store :=
  if (sourcePartition, sourceOffset) ∈ store.poisonMessages then (false, store)
  else
    let inserted := { store with
      poisonMessages := store.poisonMessages.insert (sourcePartition, sourceOffset)
        ⟨rawPayload, error⟩ }
    let key := signedDecimal sourcePartition ++ [':'] ++ signedDecimal sourceOffset
    (true, inserted.insertOutbox dlqTopic key (encodeHex rawPayload) sourcePartition sourceOffset)

/-- Unpublished rows in the order of their serial key, at most `limit` of them. -/
def fetchUnpublished (store : Store) (limit : ℕ) : List OutboxRow :=
  ((store.outbox.filter fun row => !row.published).mergeSort
    fun left right => left.id ≤ right.id).take limit

/-- Set `published_at` of a row of the outbox. -/
def markPublished (store : Store) (outboxId : ℕ) : Store :=
  { store with outbox := store.outbox.map fun row =>
      if row.id = outboxId then { row with published := true } else row }

/-- Requests in no final state, ordered by source position. -/
def recoverUnresolved (store : Store) : List RecoveredRequest :=
  let unresolved := store.inferenceRequests.entries.filter fun entry =>
    decide (entry.2.state ∉ terminalStates)
  let requests := unresolved.map fun entry => (⟨entry.1, entry.2.state, entry.2.sourcePartition,
    entry.2.sourceOffset, entry.2.stateVersion, entry.2.rawPayload⟩ : RecoveredRequest)
  requests.mergeSort fun left right =>
    left.sourcePartition < right.sourcePartition ||
      left.sourcePartition = right.sourcePartition && left.sourceOffset ≤ right.sourceOffset

/-- The request has one of the final states. -/
def isTerminal (store : Store) (requestId : Text) : Bool :=
  match store.inferenceRequests.lookup requestId with
  | none => false
  | some row => decide (row.state ∈ terminalStates)

/-- `bool_and` over the rows of a source position: null without rows. -/
def isSourcePublished (store : Store) (sourcePartition sourceOffset : ℤ) : Bool :=
  let rows := store.outbox.filter fun row =>
    row.sourcePartition = sourcePartition && row.sourceOffset = sourceOffset
  !rows.isEmpty && rows.all OutboxRow.published

/-- The transactions that write. -/
inductive Call
  | acquirePartition (partitionId : ℤ) (routerId : Text)
  | ingest (requestId : Text) (sourcePartition sourceOffset : ℤ) (rawPayload : Text)
  | assignAttempt (requestId : Text) (partitionId : ℤ) (ownershipEpoch : ℕ) (engineId : Text)
  | transition (requestId : Text) (expectedStateVersion : ℕ) (expectedState nextState : Text)
  | finalize (requestId : Text) (fence : Fence) (resultPayload : Text)
  | recordPoison (sourcePartition sourceOffset : ℤ) (rawPayload error : Text)
  | markPublished (outboxId : ℕ)
deriving DecidableEq, Repr

/-- What a call returns to its router. -/
inductive Response
  | epoch (value : ℕ)
  | accepted (value : Bool)
  | assigned (assignment : Option Assignment)
  | done
  | threw (error : StoreError)
deriving DecidableEq, Repr

/-- A raised exception rolls the transaction back. -/
def transact {α : Type} (store : Store) (respond : α → Response) :
    Except StoreError (α × Store) → Response × Store
  | .error error => (.threw error, store)
  | .ok (value, next) => (respond value, next)

/-- The store as an object that any number of routers call. -/
def object : AtomicObject Store Call Response where
  respond call store :=
    match call with
    | .acquirePartition partitionId routerId =>
        store.transact .epoch (store.acquirePartition partitionId routerId)
    | .ingest requestId sourcePartition sourceOffset rawPayload =>
        Prod.map .accepted id (store.ingest requestId sourcePartition sourceOffset rawPayload)
    | .assignAttempt requestId partitionId ownershipEpoch engineId =>
        store.transact .assigned
          (store.assignAttempt requestId partitionId ownershipEpoch engineId)
    | .transition requestId expectedStateVersion expectedState nextState =>
        store.transact .accepted
          (store.transition requestId expectedStateVersion expectedState nextState)
    | .finalize requestId fence resultPayload =>
        store.transact .accepted (store.finalize requestId fence resultPayload)
    | .recordPoison sourcePartition sourceOffset rawPayload error =>
        Prod.map .accepted id (store.recordPoison sourcePartition sourceOffset rawPayload error)
    | .markPublished outboxId => (.done, store.markPublished outboxId)

end Store
end InferSched.Durable

import InferSched.Durable.MessageHandling
import InferSched.Durable.RowStates

/-! # Calls that are granted

What a router does with a message while nothing goes wrong: no other router calls the store,
the engine answers every dispatch with an output and the broker acknowledges every
publication. A message whose request is in the log once is then completed, published and
marked (`Router.handleMessage_granted`), provided that a batch of the relay has room for all
the rows that are not published.
-/

namespace InferSched.Durable

open Library

/-- A dispatch is answered with an output, and a publication is acknowledged. -/
def RouterCall.Granted : (operation : RouterCall) → operation.Answer → Prop
  | .dispatch _ _, answer => answer ≠ []
  | .relay (.publish _), answer => answer = true
  | _, _ => True

/-- How a call is answered when nothing goes wrong. -/
def Cluster.Grants {κ : Type} [DecidableEq κ] (member : κ) (cluster : Cluster κ)
    (operation : RouterCall) (answer : operation.Answer) (next : Cluster κ) : Prop :=
  operation.Granted answer ∧ cluster.Answers member operation answer next

/-! ### The outbox -/

namespace Store

/-- The number of rows that are not published. -/
def backlog (store : Store) : ℕ :=
  (store.outbox.filter fun row => !row.published).length

variable {store : Store}

theorem backlog_eq_zero_iff :
    store.backlog = 0 ↔ ∀ row ∈ store.outbox, row.published = true := by
  simp [backlog, List.length_eq_zero_iff, List.filter_eq_nil_iff]

theorem backlog_insertOutbox {limit : ℕ} (light : store.backlog < limit)
    {topic messageKey payload : Text} {sourcePartition sourceOffset : ℤ} :
    (store.insertOutbox topic messageKey payload sourcePartition sourceOffset).backlog ≤
      limit := by
  unfold backlog at light ⊢
  rw [insertOutbox_outbox]
  split
  · exact light.le
  · simpa [Nat.succ_le_iff] using light

/-- The rows after a batch that published these records. -/
def markAll (records : List OutboxRow) (store : Store) : Store :=
  records.foldl (fun store record => store.markPublished record.id) store

theorem markAll_tables (records : List OutboxRow) (store : Store) :
    (markAll records store).inferenceRequests = store.inferenceRequests ∧
      (markAll records store).partitionOwnership = store.partitionOwnership := by
  induction records generalizing store with
  | nil => exact ⟨rfl, rfl⟩
  | cons first others ih => exact ih (store.markPublished first.id)

/-- Published rows stay published, and so do those of the records. -/
theorem published_markAll (records : List OutboxRow) {store : Store}
    (covered : ∀ row ∈ store.outbox, row.published = true ∨ ∃ record ∈ records,
      record.id = row.id) : ∀ row ∈ (markAll records store).outbox, row.published = true := by
  induction records generalizing store with
  | nil => simpa [markAll] using covered
  | cons first others ih =>
      refine @ih (store.markPublished first.id) ?_
      intro row member
      obtain ⟨before, isBefore, rfl⟩ := List.mem_map.mp member
      by_cases here : before.id = first.id
      · simp [here]
      · rw [if_neg here]
        rcases covered before isBefore with published | ⟨record, listed, same⟩
        · exact Or.inl published
        · rcases List.mem_cons.mp listed with rfl | later
          · exact absurd same.symm here
          · exact Or.inr ⟨record, later, same⟩

/-- A fetch of as many rows as there are to publish gets them all. -/
theorem mem_fetchUnpublished {limit : ℕ} (small : store.backlog ≤ limit) {row : OutboxRow}
    (member : row ∈ store.outbox) (unpublished : row.published = false) :
    row ∈ store.fetchUnpublished limit := by
  unfold fetchUnpublished
  rw [List.take_of_length_le]
  · rw [List.mem_mergeSort, List.mem_filter]
    exact ⟨member, by rw [unpublished]; rfl⟩
  · rw [List.length_mergeSort]
    exact small

end Store

/-! ### The relay -/

namespace Router

open Program

variable {κ : Type} [DecidableEq κ] {member : κ} {cluster final : Cluster κ}
  {trace : List RouterCall}

/-- A batch whose publications are acknowledged marks all its records. -/
theorem publishRecords_granted {records : List OutboxRow} {published count : ℕ}
    (runs : Runs (Cluster.Grants member) cluster
      ((OutboxRelay.publishRecords records published).lift RouterCall.relay fun _ answer => answer)
      trace count final) :
    final = { cluster with store := Store.markAll records cluster.store } := by
  induction records generalizing cluster published trace with
  | nil =>
      cases runs
      rfl
  | cons first others ih =>
      cases runs with
      | @call _ _ _ _ _ acknowledged _ _ answered rest =>
          obtain ⟨isTrue, rfl⟩ := answered
          cases (show acknowledged = true from isTrue)
          cases rest with
          | call marked later =>
              obtain ⟨_, store, responded, rfl⟩ := marked
              cases responded
              exact ih later

/-- A batch leaves requests and epochs alone, and publishes everything if it may. -/
theorem publishBatch_granted {limit count : ℕ}
    (runs : Runs (Cluster.Grants member) cluster (publishBatch limit) trace count final)
    (small : cluster.store.backlog ≤ limit) :
    ∃ store, final = { cluster with store := store } ∧
      store.inferenceRequests = cluster.store.inferenceRequests ∧
      (∀ partitionId, store.epochOf partitionId = cluster.store.epochOf partitionId) ∧
      (∀ row ∈ store.outbox, row.published = true) := by
  cases runs with
  | @call _ fetched _ _ _ records _ _ answered rest =>
      obtain ⟨_, isRecords, same⟩ := answered
      rw [show fetched = cluster from same] at rest
      have isFinal := publishRecords_granted rest
      refine ⟨_, isFinal, ?_, ?_, ?_⟩
      · exact (Store.markAll_tables _ _).1
      · intro partitionId
        unfold Store.epochOf
        rw [(Store.markAll_tables _ _).2]
      · apply Store.published_markAll
        intro row member
        by_cases published : row.published = true
        · exact Or.inl published
        · refine Or.inr ⟨row, ?_, rfl⟩
          rw [show _ = cluster.store.fetchUnpublished limit from isRecords]
          exact Store.mem_fetchUnpublished small member (Bool.not_eq_true _ ▸ published)

theorem answers_of_granted {α : Type} {program : RouterProgram α} {value : α}
    (runs : Runs (Cluster.Grants member) cluster program trace value final) :
    Runs (Cluster.Answers member) cluster program trace value final :=
  runs.mono fun _ _ _ _ granted => granted.2

theorem yields_of_granted {α : Type} {program : RouterProgram α} {value : α}
    (runs : Runs (Cluster.Grants member) cluster program trace value final) :
    Runs (Cluster.Yields member) cluster program trace value final := by
  refine runs.mono fun _ operation _ _ granted => ⟨?_, granted.2⟩
  cases operation with
  | dispatch request fence => exact granted.1
  | _ => trivial

/-- Everything is published and the position of a message is marked. -/
def Cleared (member : κ) (message : KafkaMessage) (cluster final : Cluster κ) : Prop :=
  ∃ store, final = Cluster.setPoller { cluster with store := store } member
      ((cluster.pollers member).markPublishComplete message.partitionId message.offset) ∧
    (∀ partitionId, store.epochOf partitionId = cluster.store.epochOf partitionId) ∧
    store.backlog = 0

/-- A position with a row is published and marked. -/
theorem publishAndMark_granted {message : KafkaMessage} {marked : Bool}
    (runs : Runs (Cluster.Grants member) cluster (publishAndMark message) trace marked final)
    (small : cluster.store.backlog ≤ 1000)
    (sourced : cluster.store.HasSource message.partitionId message.offset) :
    marked = true ∧ Cleared member message cluster final := by
  obtain ⟨_, _, middle, count, rfl, published, rest⟩ := runs.split
  have sources := (publishBatch_runs (answers_of_granted published)).1
  obtain ⟨store, rfl, _, epochs, drained⟩ := publishBatch_granted published small
  obtain ⟨settled, _, _, ⟨_, read, rfl⟩, rfl, ends⟩ := Runs.of_perform rest
  have isSettled : settled = true := by
    rw [read, Store.isSourcePublished_iff]
    exact ⟨(sources _ _).mpr sourced, fun row member _ _ => drained row member⟩
  subst isSettled
  obtain ⟨_, _, _, ⟨_, rfl⟩, rfl, finished⟩ := Runs.of_perform ends
  cases finished
  exact ⟨rfl, store, rfl, epochs, Store.backlog_eq_zero_iff.mpr drained⟩

end Router

/-! ### A message -/

namespace Store

variable {setup : RouterSetup} {log : ℤ → ℤ → Text} {store : Store}

/-- Result rows have the position of their request. -/
def Traced (store : Store) : Prop :=
  ∀ out ∈ store.outbox, out.topic = resultsTopic → ∃ row,
    store.inferenceRequests.lookup out.messageKey = some row ∧
      row.sourcePartition = out.sourcePartition ∧ row.sourceOffset = out.sourceOffset

/-- A finished request has an outbox row at its position. -/
theorem Finalized.hasSource (finalized : store.Finalized) (traced : store.Traced)
    {requestId : Text} {row : RequestRow}
    (found : store.inferenceRequests.lookup requestId = some row)
    (terminal : row.state ∈ terminalStates) :
    store.HasSource row.sourcePartition row.sourceOffset := by
  rcases finalized requestId row found with ⟨isOpen, _⟩ | ⟨_, out, member, isResult, rfl⟩
  · rcases isOpen with received | dispatched
    · rw [received] at terminal
      exact absurd terminal (by decide)
    · rw [dispatched] at terminal
      exact absurd terminal dispatched_not_terminal
  · obtain ⟨own, isOwn, samePartition, sameOffset⟩ := traced out member isResult
    cases found.symm.trans isOwn
    exact ⟨out, member, samePartition.symm, sameOffset.symm⟩

/-- A request is in the table from this position, and so are its result rows. -/
structure Entered (store : Store) (requestId : Text) (sourcePartition sourceOffset : ℤ)
    (row : RequestRow) : Prop where
  found : store.inferenceRequests.lookup requestId = some row
  samePartition : row.sourcePartition = sourcePartition
  sameOffset : row.sourceOffset = sourceOffset
  finished : row.state ∈ terminalStates → store.HasSource sourcePartition sourceOffset
  listed : ∀ out ∈ store.outbox, out.topic = resultsTopic → out.messageKey = requestId →
    out.sourcePartition = row.sourcePartition ∧ out.sourceOffset = row.sourceOffset

/-- A request that has a row of this position only is entered by its ingestion. -/
theorem ingest_entered (sourced : store.Sourced setup log) (finalized : store.Finalized)
    (traced : store.Traced) {message : KafkaMessage} {request : InferenceRequest}
    (parsed : setup.parsed message.payload = some request)
    (genuine : message.payload = log message.partitionId message.offset)
    (own : ∀ row, store.inferenceRequests.lookup request.requestId = some row →
      row.sourcePartition = message.partitionId ∧ row.sourceOffset = message.offset) :
    ∃ row, (store.ingest request.requestId message.partitionId message.offset
      message.payload).2.Entered request.requestId message.partitionId message.offset row := by
  have listed : ∀ out ∈ store.outbox, out.topic = resultsTopic →
      out.messageKey = request.requestId →
        out.sourcePartition = message.partitionId ∧ out.sourceOffset = message.offset := by
    rintro out member isResult isKey
    obtain ⟨before, isBefore, itsPartition, itsOffset⟩ := traced out member isResult
    rw [← itsPartition, ← itsOffset]
    exact own before (isKey ▸ isBefore)
  have recorded := store.ingest_recorded sourced parsed genuine
  unfold ingest at recorded ⊢
  split at recorded
  · next taken =>
      rw [if_pos taken]
      rcases recorded with ⟨again, isAgain, known⟩ | poisoned
      · cases parsed.symm.trans isAgain
        obtain ⟨row, found⟩ := Option.isSome_iff_exists.mp (AList.lookup_isSome.mpr known)
        obtain ⟨samePartition, sameOffset⟩ := own row found
        refine ⟨row, found, samePartition, sameOffset, fun terminal => ?_, ?_⟩
        · rw [← samePartition, ← sameOffset]
          exact finalized.hasSource traced found terminal
        · rw [samePartition, sameOffset]
          exact listed
      · have malformed := sourced.poison _ _ poisoned
        rw [← genuine, parsed] at malformed
        cases malformed
  · next free =>
      rw [if_neg free]
      refine ⟨.received message.partitionId message.offset message.payload, ?_, rfl, rfl, ?_,
        listed⟩
      · exact (store.putRequest_lookup _ _ _).trans (if_pos rfl)
      · intro terminal
        exact absurd (show receivedState ∈ terminalStates from terminal) (by decide)

theorem ingest_outbox (store : Store) (requestId : Text) (sourcePartition sourceOffset : ℤ)
    (rawPayload : Text) :
    (store.ingest requestId sourcePartition sourceOffset rawPayload).2.outbox = store.outbox := by
  unfold ingest
  split
  · rfl
  · rfl

theorem ingest_epochOf (store : Store) (requestId : Text) (sourcePartition sourceOffset : ℤ)
    (rawPayload : Text) (partitionId : ℤ) :
    (store.ingest requestId sourcePartition sourceOffset rawPayload).2.epochOf partitionId =
      store.epochOf partitionId := by
  unfold ingest
  split
  · rfl
  · rfl

/-- An insertion leaves a row of its position, be it new or the one that was there. -/
theorem hasSource_insertOutbox (store : Store) {topic messageKey : Text} (payload : Text)
    {sourcePartition sourceOffset : ℤ}
    (same : ∀ out ∈ store.outbox, out.topic = topic → out.messageKey = messageKey →
      out.sourcePartition = sourcePartition ∧ out.sourceOffset = sourceOffset) :
    (store.insertOutbox topic messageKey payload sourcePartition sourceOffset).HasSource
      sourcePartition sourceOffset := by
  unfold HasSource
  rw [insertOutbox_outbox]
  split
  · next taken =>
      obtain ⟨out, member, isSame⟩ := List.any_eq_true.mp taken
      simp only [Bool.and_eq_true, decide_eq_true_eq] at isSame
      exact ⟨out, member, same out member isSame.1 isSame.2⟩
  · exact ⟨_, List.mem_append_right _ (List.mem_singleton_self _), rfl, rfl⟩

end Store

namespace Router

open Program

variable {κ : Type} [DecidableEq κ] {member : κ} {cluster final : Cluster κ}
  {trace : List RouterCall} {setup : RouterSetup} {log : ℤ → ℤ → Text} {message : KafkaMessage}
  {request : InferenceRequest} {router later : Router} {engineId : Text}

/-- What a router does with a request that is in the table, from the question whether it is
finished on. -/
theorem serve_granted {row : RequestRow}
    (runs : Runs (Cluster.Grants member) cluster (do
      if ← perform (RouterCall.isTerminal request.requestId) then
        let _ ← publishAndMark message
        return router
      else if ← execute router engineId request message.partitionId then
        if ← publishAndMark message then
          return { router with completed := router.completed + 1 }
        else return router
      else return router) trace later final)
    (light : cluster.store.backlog < 1000)
    (entered : cluster.store.Entered request.requestId message.partitionId message.offset row)
    (current : router.Current cluster message.partitionId)
    (owns : (cluster.pollers member).owns message.partitionId = true) :
    later.epochs = router.epochs ∧ Cleared member message cluster final := by
  obtain ⟨terminal, asked, _, ⟨_, read, same⟩, rfl, decided⟩ := Runs.of_perform runs
  rw [show asked = cluster from same] at decided
  have isTerminal : terminal = decide (row.state ∈ terminalStates) := by
    rw [show terminal = _ from read]
    unfold Store.isTerminal
    rw [entered.found]
  by_cases state : row.state ∈ terminalStates
  · rw [decide_eq_true state] at isTerminal
    subst isTerminal
    obtain ⟨_, _, _, _, rfl, marks, ends⟩ := Runs.split decided
    cases ends
    exact ⟨rfl, (publishAndMark_granted marks light.le (entered.finished state)).2⟩
  · rw [decide_eq_false state] at isTerminal
    subst isTerminal
    obtain ⟨_, _, _, executed, rfl, executes, rest⟩ := Runs.split decided
    obtain ⟨rfl, epoch, payload, rfl⟩ := execute_completes (yields_of_granted executes)
      entered.found entered.samePartition state current owns
    obtain ⟨_, _, _, marked, rfl, marks, ends⟩ := Runs.split rest
    have small := @Store.backlog_insertOutbox ((cluster.store.putRequest request.requestId
      (row.dispatched epoch engineId)).putRequest request.requestId
        ((row.dispatched epoch engineId).completed payload)) _ light resultsTopic
          request.requestId payload row.sourcePartition row.sourceOffset
    have sourced := Store.hasSource_insertOutbox ((cluster.store.putRequest request.requestId
      (row.dispatched epoch engineId)).putRequest request.requestId
        ((row.dispatched epoch engineId).completed payload)) payload entered.listed
    obtain ⟨rfl, store, isFinal, epochs, drained⟩ := publishAndMark_granted marks small
      (by rw [← entered.samePartition, ← entered.sameOffset]; exact sourced)
    cases ends
    refine ⟨rfl, store, isFinal, fun partitionId => ?_, drained⟩
    rw [epochs]
    exact Store.insertOutbox_epochOf ..

/-- A message of the log that is the only one of its request is taken care of in one turn: its
position is marked, and nothing is left to publish. -/
theorem handleMessage_granted
    (runs : Runs (Cluster.Grants member) cluster (handleMessage setup engineId router message)
      trace later final)
    (sourced : cluster.store.Sourced setup log) (finalized : cluster.store.Finalized)
    (traced : cluster.store.Traced) (light : cluster.store.backlog < 1000)
    (parsed : setup.parsed message.payload = some request)
    (genuine : message.payload = log message.partitionId message.offset)
    (own : ∀ row, cluster.store.inferenceRequests.lookup request.requestId = some row →
      row.sourcePartition = message.partitionId ∧ row.sourceOffset = message.offset)
    (current : router.Current cluster message.partitionId)
    (owns : (cluster.pollers member).owns message.partitionId = true) :
    later.epochs = router.epochs ∧ Cleared member message cluster final := by
  have whole : setup.parse message.payload = some request := (Option.filter_eq_some_iff.mp parsed).1
  unfold handleMessage handle at runs
  rw [parsed] at runs
  obtain ⟨inserted, _, _, ⟨_, store, responded, rfl⟩, rfl, rest⟩ := Runs.of_perform runs
  obtain ⟨row, entered⟩ := Store.ingest_entered sourced finalized traced parsed genuine own
  have stillLight := light
  unfold Store.backlog at stillLight
  rw [← Store.ingest_outbox _ request.requestId message.partitionId message.offset
    message.payload] at stillLight
  have epochs := Store.ingest_epochOf cluster.store request.requestId message.partitionId
    message.offset message.payload
  have isStore : (cluster.store.ingest request.requestId message.partitionId
      message.offset message.payload).2 = store := congrArg Prod.snd responded
  rw [isStore] at entered stillLight epochs
  obtain ⟨epoch, hasEpoch, isCurrent⟩ := current
  have cleared : ∀ {after : Cluster κ}, Cleared member message { cluster with store := store }
      after → Cleared member message cluster after := by
    rintro after ⟨last, isLast, sameEpochs, drained⟩
    exact ⟨last, isLast, fun partitionId => (sameEpochs partitionId).trans (epochs partitionId),
      drained⟩
  have stillCurrent : ∀ other : Router, other.epochs = router.epochs →
      other.Current { cluster with store := store } message.partitionId :=
    fun other same => ⟨epoch, same ▸ hasEpoch, (epochs _).trans isCurrent⟩
  cases inserted with
  | false =>
      simp only [Bool.false_eq_true, ↓reduceIte, whole] at rest
      obtain ⟨same, served⟩ := serve_granted rest stillLight entered
        (stillCurrent _ rfl) owns
      exact ⟨same, cleared served⟩
  | true =>
      simp only [↓reduceIte, whole] at rest
      obtain ⟨same, served⟩ := serve_granted rest stillLight entered
        (stillCurrent _ rfl) owns
      exact ⟨same, cleared served⟩

end Router

end InferSched.Durable

import InferSched.Durable.Finalization
import InferSched.Durable.RouterRules

/-! # Committed positions are published

A position of the request topic is settled when the outbox has rows for it and
all of them are published. A settled position stays settled: its payload decides
for ever whether it is a request or poison, and either gives it one outbox row
(`Store.Sourced.step`). A router marks a position only after it has read that the
position is settled, so every offset below a tracker, a queued commit or a
position of the group is settled (`Cluster.Safe`), under any interleaving of
routers, rebalances, failed publications and crashes.
-/

namespace InferSched.Durable

open Library

namespace Store

/-- The outbox has rows of this source position, and all are published. -/
def Settled (store : Store) (sourcePartition sourceOffset : ℤ) : Prop :=
  (∃ row ∈ store.outbox, row.sourcePartition = sourcePartition ∧
    row.sourceOffset = sourceOffset) ∧
  ∀ row ∈ store.outbox, row.sourcePartition = sourcePartition →
    row.sourceOffset = sourceOffset → row.published = true

/-- The query of the store asks whether the position is settled. -/
theorem isSourcePublished_iff (store : Store) (sourcePartition sourceOffset : ℤ) :
    store.isSourcePublished sourcePartition sourceOffset = true ↔
      store.Settled sourcePartition sourceOffset := by
  simp only [isSourcePublished, Settled, Bool.and_eq_true, Bool.not_eq_true',
    List.isEmpty_eq_false_iff_exists_mem, List.mem_filter, List.all_eq_true, decide_eq_true_eq,
    and_imp]

/-- Every row of the store comes from the log: a request from a payload that
parses to it, poison from one that does not parse, and an outbox row from a
completed request or from poison of the same position. -/
structure Sourced (setup : RouterSetup) (log : ℤ → ℤ → Text) (store : Store) : Prop where
  requests : ∀ requestId row, store.inferenceRequests.lookup requestId = some row →
    (setup.parsed (log row.sourcePartition row.sourceOffset)).map InferenceRequest.requestId =
      some requestId
  poison : ∀ sourcePartition sourceOffset,
    (sourcePartition, sourceOffset) ∈ store.poisonMessages →
    setup.parsed (log sourcePartition sourceOffset) = none
  rows : ∀ row ∈ store.outbox,
    (∃ request, store.inferenceRequests.lookup row.messageKey = some request ∧
      request.state = completedState ∧ request.sourcePartition = row.sourcePartition ∧
      request.sourceOffset = row.sourceOffset) ∨
    (row.sourcePartition, row.sourceOffset) ∈ store.poisonMessages

/-- Ingested and poisoned payloads are those of the log. -/
def Genuine (setup : RouterSetup) (log : ℤ → ℤ → Text) : Call → Prop
  | .ingest requestId sourcePartition sourceOffset _ =>
      (setup.parsed (log sourcePartition sourceOffset)).map InferenceRequest.requestId =
        some requestId
  | .recordPoison sourcePartition sourceOffset _ _ =>
      setup.parsed (log sourcePartition sourceOffset) = none
  | _ => True

variable {setup : RouterSetup} {log : ℤ → ℤ → Text} {store next : Store}

/-- The tables of `Migrate` have no rows to account for. -/
theorem Sourced.empty : Sourced setup log .empty where
  requests _ _ found := by cases found
  poison _ _ member := absurd member (AList.notMem_empty _)
  rows _ member := absurd member List.not_mem_nil

/-- Writing the row of a request that is not completed. -/
theorem Sourced.put (sourced : Sourced setup log store) {requestId : Text} {row : RequestRow}
    (genuine : (setup.parsed (log row.sourcePartition row.sourceOffset)).map
      InferenceRequest.requestId = some requestId)
    (open' : ∀ old, store.inferenceRequests.lookup requestId = some old →
      old.state ≠ completedState) : Sourced setup log (store.putRequest requestId row) where
  requests query found lookup := by
    rw [putRequest_lookup] at lookup
    split at lookup
    · next same =>
        cases lookup
        exact same ▸ genuine
    · exact sourced.requests query found lookup
  poison := sourced.poison
  rows outboxRow member := by
    rcases sourced.rows outboxRow member with ⟨request, found, completed, source⟩ | poisoned
    · have other : outboxRow.messageKey ≠ requestId := by
        intro same
        exact open' request (same ▸ found) completed
      refine Or.inl ⟨request, ?_, completed, source⟩
      rw [putRequest_lookup, if_neg other]
      exact found
    · exact Or.inr poisoned

/-- Rewriting a request that is not completed, at the position it came from. -/
theorem Sourced.rewrite (sourced : Sourced setup log store) {requestId : Text}
    {row later : RequestRow} (found : store.inferenceRequests.lookup requestId = some row)
    (open' : row.state ≠ completedState)
    (samePartition : later.sourcePartition = row.sourcePartition)
    (sameOffset : later.sourceOffset = row.sourceOffset) :
    Sourced setup log (store.putRequest requestId later) := by
  refine sourced.put ?_ ?_
  · rw [samePartition, sameOffset]
    exact sourced.requests requestId row found
  · intro old foundOld
    cases found.symm.trans foundOld
    exact open'

/-- A row of the outbox is an old one or the one inserted. -/
theorem mem_insertOutbox {topic messageKey payload : Text} {sourcePartition sourceOffset : ℤ}
    {row : OutboxRow}
    (member : row ∈ (store.insertOutbox topic messageKey payload sourcePartition
      sourceOffset).outbox) :
    row ∈ store.outbox ∨ row.messageKey = messageKey ∧ row.sourcePartition = sourcePartition ∧
      row.sourceOffset = sourceOffset := by
  rw [insertOutbox_outbox] at member
  split at member
  · exact Or.inl member
  · rcases List.mem_append.mp member with old | new
    · exact Or.inl old
    · rw [List.mem_singleton.mp new]
      exact Or.inr ⟨rfl, rfl, rfl⟩

theorem insertOutbox_poison (store : Store) (topic messageKey payload : Text)
    (sourcePartition sourceOffset : ℤ) :
    (store.insertOutbox topic messageKey payload sourcePartition sourceOffset).poisonMessages =
      store.poisonMessages := by
  unfold insertOutbox
  dsimp only
  split <;> rfl

/-- Inserting an outbox row that has an origin. -/
theorem Sourced.insertOutbox (sourced : Sourced setup log store)
    {topic messageKey payload : Text} {sourcePartition sourceOffset : ℤ}
    (origin : (∃ request, store.inferenceRequests.lookup messageKey = some request ∧
      request.state = completedState ∧ request.sourcePartition = sourcePartition ∧
      request.sourceOffset = sourceOffset) ∨
      (sourcePartition, sourceOffset) ∈ store.poisonMessages) :
    Sourced setup log
      (store.insertOutbox topic messageKey payload sourcePartition sourceOffset) where
  requests query row found := by
    rw [insertOutbox_requests] at found
    exact sourced.requests query row found
  poison partitionId offset member := by
    rw [insertOutbox_poison] at member
    exact sourced.poison partitionId offset member
  rows row member := by
    rw [insertOutbox_requests, insertOutbox_poison]
    rcases mem_insertOutbox member with old | ⟨sameKey, samePartition, sameOffset⟩
    · exact sourced.rows row old
    · rw [sameKey, samePartition, sameOffset]
      exact origin

/-- A new row settles nothing and unsettles only its own position. -/
theorem Settled.insertOutbox {topic messageKey payload : Text} {sourcePartition sourceOffset : ℤ}
    (unused : ∀ row ∈ store.outbox, row.sourcePartition = sourcePartition →
      row.sourceOffset ≠ sourceOffset) {partitionId offset : ℤ}
    (settled : store.Settled partitionId offset) :
    (store.insertOutbox topic messageKey payload sourcePartition sourceOffset).Settled partitionId
      offset := by
  obtain ⟨⟨row, member, samePartition, sameOffset⟩, published⟩ := settled
  refine ⟨⟨row, ?_, samePartition, sameOffset⟩, ?_⟩
  · rw [insertOutbox_outbox]
    split
    · exact member
    · exact List.mem_append_left _ member
  · intro other inserted itsPartition itsOffset
    rcases mem_insertOutbox inserted with old | ⟨_, newPartition, newOffset⟩
    · exact published other old itsPartition itsOffset
    · refine absurd (sameOffset.trans (itsOffset.symm.trans newOffset)) (unused row member ?_)
      exact samePartition.trans (itsPartition.symm.trans newPartition)

/-- Publishing more rows keeps a position settled. -/
theorem Settled.markPublished (outboxId : ℕ) {partitionId offset : ℤ}
    (settled : store.Settled partitionId offset) :
    (store.markPublished outboxId).Settled partitionId offset := by
  obtain ⟨⟨row, member, source⟩, published⟩ := settled
  refine ⟨⟨_, List.mem_map_of_mem member, ?_⟩, ?_⟩
  · split <;> exact source
  · intro other marked samePartition sameOffset
    obtain ⟨before, member', rfl⟩ := List.mem_map.mp marked
    by_cases here : before.id = outboxId
    · rw [if_pos here]
    · rw [if_neg here] at samePartition sameOffset ⊢
      exact published before member' samePartition sameOffset

theorem Sourced.markPublished (outboxId : ℕ) (sourced : Sourced setup log store) :
    Sourced setup log (store.markPublished outboxId) where
  requests := sourced.requests
  poison := sourced.poison
  rows row marked := by
    obtain ⟨before, member, rfl⟩ := List.mem_map.mp marked
    have origin := sourced.rows before member
    by_cases here : before.id = outboxId
    · rw [if_pos here]
      exact origin
    · rw [if_neg here]
      exact origin

/-- A request that is not completed has no outbox row at its position. -/
theorem Sourced.unused_of_open (sourced : Sourced setup log store) {requestId : Text}
    {row : RequestRow} (found : store.inferenceRequests.lookup requestId = some row)
    (open' : row.state ≠ completedState) :
    ∀ outboxRow ∈ store.outbox, outboxRow.sourcePartition = row.sourcePartition →
      outboxRow.sourceOffset ≠ row.sourceOffset := by
  intro outboxRow member samePartition sameOffset
  have parsed := sourced.requests requestId row found
  rcases sourced.rows outboxRow member with
    ⟨request, foundOther, completed, itsPartition, itsOffset⟩ | poisoned
  · have parsedOther := sourced.requests _ request foundOther
    rw [itsPartition, itsOffset, samePartition, sameOffset, parsed] at parsedOther
    cases parsedOther
    cases found.symm.trans foundOther
    exact open' completed
  · have malformed := sourced.poison _ _ poisoned
    rw [samePartition, sameOffset] at malformed
    rw [malformed] at parsed
    cases parsed

/-- A position whose payload does not parse, and that is not yet recorded as
poison, has no outbox row. -/
theorem Sourced.unused_of_malformed (sourced : Sourced setup log store)
    {sourcePartition sourceOffset : ℤ}
    (malformed : setup.parsed (log sourcePartition sourceOffset) = none)
    (fresh : (sourcePartition, sourceOffset) ∉ store.poisonMessages) :
    ∀ outboxRow ∈ store.outbox, outboxRow.sourcePartition = sourcePartition →
      outboxRow.sourceOffset ≠ sourceOffset := by
  intro outboxRow member samePartition sameOffset
  rcases sourced.rows outboxRow member with
    ⟨request, found, completed, itsPartition, itsOffset⟩ | poisoned
  · have parsed := sourced.requests _ request found
    rw [itsPartition, itsOffset, samePartition, sameOffset, malformed] at parsed
    cases parsed
  · rw [samePartition, sameOffset] at poisoned
    exact fresh poisoned

/-- A transaction on genuine payloads keeps the origins, and what is settled. -/
theorem Sourced.step (sourced : Sourced setup log store) {call : Call} {response : Response}
    (step : Step store call response next) (genuine : Genuine setup log call) :
    Sourced setup log next ∧
      ∀ partitionId offset, store.Settled partitionId offset → next.Settled partitionId offset := by
  have notCompleted : ∀ {row : RequestRow}, row.state ∉ terminalStates →
      row.state ≠ completedState := fun unresolved same =>
    unresolved (same ▸ completed_terminal)
  cases step with
  | refused refusal => exact ⟨sourced, fun _ _ settled => settled⟩
  | acquired isNext fits =>
      exact ⟨⟨sourced.requests, sourced.poison, sourced.rows⟩, fun _ _ settled => settled⟩
  | ingested fresh unused =>
      refine ⟨sourced.put genuine ?_, fun _ _ settled => settled⟩
      intro old found
      exact absurd (AList.lookup_isSome.mp (by rw [found]; rfl)) fresh
  | assigned found source current unresolved fits =>
      exact ⟨sourced.rewrite found (notCompleted unresolved) rfl rfl, fun _ _ settled => settled⟩
  | moved found same unresolved =>
      exact ⟨sourced.rewrite found (notCompleted unresolved) rfl rfl, fun _ _ settled => settled⟩
  | @completed requestId fence payload row found fenced fits =>
      have open' : row.state ≠ completedState := by
        rw [((fenceMatches_iff _ _).mp fenced).2.2.2.2]
        exact dispatched_ne_completed
      have put : Sourced setup log (store.putRequest requestId (row.completed payload)) :=
        sourced.rewrite found open' rfl rfl
      refine ⟨put.insertOutbox (Or.inl ⟨row.completed payload, ?_, rfl, rfl, rfl⟩), ?_⟩
      · rw [putRequest_lookup, if_pos rfl]
      · intro partitionId offset settled
        apply Settled.insertOutbox
        · exact sourced.unused_of_open found open'
        · exact settled
  | @poisoned sourcePartition sourceOffset rawPayload error fresh =>
      have inserted : Sourced setup log { store with
          poisonMessages := store.poisonMessages.insert (sourcePartition, sourceOffset)
            ⟨rawPayload, error⟩ } := by
        refine ⟨sourced.requests, ?_, ?_⟩
        · intro partitionId offset member
          rcases (AList.mem_insert _).mp member with same | old
          · cases same
            exact genuine
          · exact sourced.poison partitionId offset old
        · intro row member
          rcases sourced.rows row member with request | old
          · exact Or.inl request
          · exact Or.inr ((AList.mem_insert _).mpr (Or.inr old))
      refine ⟨inserted.insertOutbox (Or.inr ((AList.mem_insert _).mpr (Or.inl rfl))), ?_⟩
      intro partitionId offset settled
      apply Settled.insertOutbox
      · exact sourced.unused_of_malformed genuine fresh
      · exact settled
  | marked => exact ⟨sourced.markPublished _, fun _ _ settled => settled.markPublished _⟩

end Store
/-! ### Pollers -/

namespace KafkaPoller

/-- Queued messages are those of the log, and every offset that a tracker, a
commit or a start position passes over has a property. -/
structure Safe (log : ℤ → ℤ → Text) (initial : ℤ → ℤ) (settled : ℤ → ℤ → Prop)
    (poller : KafkaPoller) : Prop where
  messages : ∀ message ∈ poller.messages, message.payload = log message.partitionId message.offset
  trackers : ∀ partitionId tracker, poller.trackers.lookup partitionId = some tracker →
    tracker.Covers (initial partitionId) (settled partitionId)
  commits : ∀ commit ∈ poller.commits ++ poller.flushing, ∀ offset, initial commit.1 ≤ offset →
    offset ≤ commit.2 → settled commit.1 offset
  positions : ∀ partitionId position, poller.positions.lookup partitionId = some position →
    partitionId ∈ poller.trackers ∨
      ∀ offset, initial partitionId ≤ offset → offset < position → settled partitionId offset

namespace Safe

variable {log : ℤ → ℤ → Text} {initial : ℤ → ℤ} {settled : ℤ → ℤ → Prop} {poller : KafkaPoller}

/-- A poller that has not started has neither trackers nor commits. -/
theorem new : Safe log initial settled {} where
  messages _ member := absurd member List.not_mem_nil
  trackers _ _ found := by cases found
  commits _ member := absurd member List.not_mem_nil
  positions _ _ found := by cases found

/-- A poller stays safe while more positions are settled. -/
theorem mono {later : ℤ → ℤ → Prop} (safe : poller.Safe log initial settled)
    (implies : ∀ partitionId offset, settled partitionId offset → later partitionId offset) :
    poller.Safe log initial later where
  messages := safe.messages
  trackers partitionId tracker found :=
    (safe.trackers partitionId tracker found).mono (implies partitionId)
  commits commit member offset first last :=
    implies _ _ (safe.commits commit member offset first last)
  positions partitionId position found := by
    rcases safe.positions partitionId position found with tracked | before
    · exact Or.inl tracked
    · exact Or.inr fun offset first last => implies _ _ (before offset first last)

theorem pop (safe : poller.Safe log initial settled) :
    poller.pop.2.Safe log initial settled :=
  ⟨fun message member => safe.messages message (List.mem_of_mem_tail member), safe.trackers,
    safe.commits, safe.positions⟩

theorem popOwnershipEvent (safe : poller.Safe log initial settled) :
    poller.popOwnershipEvent.2.Safe log initial settled :=
  ⟨safe.messages, safe.trackers, safe.commits, safe.positions⟩

/-- A settled position may be marked. -/
theorem markPublishComplete (safe : poller.Safe log initial settled) {partitionId offset : ℤ}
    (complete : settled partitionId offset) :
    (poller.markPublishComplete partitionId offset).Safe log initial settled := by
  unfold KafkaPoller.markPublishComplete
  split
  · exact safe
  · next tracker found =>
      obtain ⟨covers, returned⟩ :=
        (safe.trackers partitionId tracker found).markPublishComplete complete
      refine ⟨safe.messages, ?_, ?_, ?_⟩
      · intro query other lookup
        by_cases same : query = partitionId
        · subst same
          rw [AList.lookup_insert] at lookup
          cases lookup
          exact covers
        · rw [AList.lookup_insert_ne same] at lookup
          exact safe.trackers query other lookup
      · dsimp only
        split
        · intro commit member passed first last
          rw [List.append_assoc, List.mem_append, List.mem_append, List.mem_singleton] at member
          rcases member with queued | rfl | flushing
          · exact safe.commits commit (List.mem_append_left _ queued) passed first last
          · exact covers.committed passed first (returned ▸ last)
          · exact safe.commits commit (List.mem_append_right _ flushing) passed first last
        · exact safe.commits
      · intro query position lookup
        rcases safe.positions query position lookup with tracked | before
        · exact Or.inl ((AList.mem_insert _).mpr (Or.inr tracked))
        · exact Or.inr before

/-- The commits in flight are those that were queued. -/
theorem takeCommits (safe : poller.Safe log initial settled) :
    poller.takeCommits.Safe log initial settled :=
  ⟨safe.messages, safe.trackers,
    fun commit member => safe.commits commit (List.mem_append_left _ member), safe.positions⟩

theorem dropCommit (safe : poller.Safe log initial settled) :
    poller.dropCommit.Safe log initial settled := by
  refine ⟨safe.messages, safe.trackers, ?_, safe.positions⟩
  intro commit member
  rcases List.mem_append.mp member with queued | flushing
  · exact safe.commits commit (List.mem_append_left _ queued)
  · exact safe.commits commit (List.mem_append_right _ (List.mem_of_mem_tail flushing))

/-- The next message of a partition is delivered. -/
theorem enqueue (safe : poller.Safe log initial settled) {partitionId offset : ℤ}
    (position : poller.positions.lookup partitionId = some offset) :
    (poller.enqueue ⟨log partitionId offset, partitionId, offset⟩).Safe log initial settled := by
  refine ⟨?_, ?_, safe.commits, ?_⟩
  · intro message member
    rcases List.mem_append.mp member with queued | new
    · exact safe.messages message queued
    · rw [List.mem_singleton.mp new]
  · intro query tracker lookup
    unfold KafkaPoller.enqueue at lookup
    dsimp only at lookup
    split at lookup
    · exact safe.trackers query tracker lookup
    · next untracked =>
        by_cases same : query = partitionId
        · subst same
          rw [AList.lookup_insert] at lookup
          cases lookup
          apply ContiguousOffsetTracker.Covers.new
          exact (safe.positions query offset position).resolve_left untracked
        · rw [AList.lookup_insert_ne same] at lookup
          exact safe.trackers query tracker lookup
  · intro query next lookup
    unfold KafkaPoller.enqueue at lookup ⊢
    dsimp only at lookup ⊢
    by_cases same : query = partitionId
    · subst same
      refine Or.inl ?_
      split
      · next tracked => exact tracked
      · exact (AList.mem_insert _).mpr (Or.inl rfl)
    · rw [AList.lookup_insert_ne same] at lookup
      rcases safe.positions query next lookup with tracked | before
      · refine Or.inl ?_
        split
        · exact tracked
        · exact (AList.mem_insert _).mpr (Or.inr tracked)
      · exact Or.inr before

/-- An assignment starts every partition at the position of the group. -/
theorem lookup_foldl_insert {committed : ℤ → ℤ} (partitions : List ℤ)
    (positions : AList fun _ : ℤ => ℤ)
    (all : ∀ partitionId position, positions.lookup partitionId = some position →
      position = committed partitionId) {partitionId position : ℤ}
    (found : (partitions.foldl (fun positions partitionId =>
      positions.insert partitionId (committed partitionId)) positions).lookup partitionId =
        some position) : position = committed partitionId := by
  induction partitions generalizing positions with
  | nil => exact all _ _ found
  | cons first later ih =>
      refine ih _ ?_ found
      intro query other lookup
      by_cases same : query = first
      · subst same
        rw [AList.lookup_insert] at lookup
        cases lookup
        rfl
      · rw [AList.lookup_insert_ne same] at lookup
        exact all query other lookup

/-- An assignment starts at positions up to which everything is settled. -/
theorem assign (safe : poller.Safe log initial settled) {committed : ℤ → ℤ} (partitions : List ℤ)
    (before : ∀ partitionId offset, initial partitionId ≤ offset →
      offset < committed partitionId → settled partitionId offset) :
    (poller.assign committed partitions).Safe log initial settled := by
  refine ⟨safe.messages, safe.trackers, safe.commits, ?_⟩
  intro partitionId position found
  have start : position = committed partitionId :=
    lookup_foldl_insert partitions ∅ (fun _ _ none => by cases none) found
  exact Or.inr fun offset first last => before partitionId offset first (start ▸ last)

/-- What a revocation leaves of the trackers was there before. -/
theorem lookup_foldl_erase {partitions : List ℤ}
    {trackers : AList fun _ : ℤ => ContiguousOffsetTracker} {partitionId : ℤ}
    {tracker : ContiguousOffsetTracker}
    (found : (partitions.foldl (fun trackers partitionId => trackers.erase partitionId)
      trackers).lookup partitionId = some tracker) :
    trackers.lookup partitionId = some tracker := by
  induction partitions generalizing trackers with
  | nil => exact found
  | cons first later ih =>
      have lookup := ih found
      by_cases same : partitionId = first
      · rw [same, AList.lookup_erase] at lookup
        cases lookup
      · rw [AList.lookup_erase_ne same] at lookup
        exact lookup

theorem revoke (safe : poller.Safe log initial settled) (partitions : List ℤ) :
    (poller.revoke partitions).Safe log initial settled where
  messages message member := safe.messages message (List.mem_of_mem_filter member)
  trackers partitionId tracker found :=
    safe.trackers partitionId tracker (lookup_foldl_erase found)
  commits := safe.commits
  positions _ _ found := by cases found

end Safe
end KafkaPoller

/-! ### Routers -/

/-- What a router learns from the answers to its calls. -/
inductive RouterFact
  | delivered (message : KafkaMessage)
  | settled (partitionId offset : ℤ)

namespace Router

open Program

/-- A router ingests and poisons delivered payloads, and marks settled
positions. -/
def rules (setup : RouterSetup) : Rules RouterCall RouterCall.Answer RouterFact where
  allowed known operation :=
    match operation with
    | .ingest requestId sourcePartition sourceOffset rawPayload =>
        .delivered ⟨rawPayload, sourcePartition, sourceOffset⟩ ∈ known ∧
          (setup.parsed rawPayload).map InferenceRequest.requestId = some requestId
    | .recordPoison sourcePartition sourceOffset rawPayload _ =>
        .delivered ⟨rawPayload, sourcePartition, sourceOffset⟩ ∈ known ∧
          setup.parsed rawPayload = none
    | .markPublishComplete partitionId offset => .settled partitionId offset ∈ known
    | _ => True
  learns operation answer :=
    match operation, answer with
    | .pop, some message => {.delivered message}
    | .isSourcePublished sourcePartition sourceOffset, true =>
        {.settled sourcePartition sourceOffset}
    | _, _ => ∅
  mono subset allowed := by
    split at allowed
    · exact ⟨subset allowed.1, allowed.2⟩
    · exact ⟨subset allowed.1, allowed.2⟩
    · exact subset allowed
    · trivial

variable {setup : RouterSetup} {known : Set RouterFact}

theorem within_publishBatch (limit : ℕ) :
    Within (rules setup) (fun _ _ => True) known (publishBatch limit) :=
  within_lift (fun _ _ => trivial) _ fun _ _ _ => trivial

/-- The rules restrict none of the plain calls. -/
theorem rules_plain (facts : Set RouterFact) (call : RouterCall) (plain : call.Plain) :
    (rules setup).allowed facts call := by
  cases call <;> trivial

theorem within_publishAndMark (message : KafkaMessage) :
    Within (rules setup) (fun _ _ => True) known (publishAndMark message) :=
  publishAndMark_within rules_plain (fun _ => within_publishBatch 1000)
    fun _ settled => settled rfl

theorem within_execute (router : Router) (engineId : Text) (request : InferenceRequest)
    (partitionId : ℤ) :
    Within (rules setup) (fun _ _ => True) known
      (router.execute engineId request partitionId) :=
  execute_within rules_plain fun _ _ _ _ _ _ _ _ => trivial

/-- A delivered message is entered under the id that its payload parses to, or as poison. -/
theorem within_handleMessage {engineId : Text} {router : Router} {message : KafkaMessage}
    (delivered : .delivered message ∈ known) :
    Within (rules setup) (fun _ _ => True) known
      (handleMessage setup engineId router message) := by
  apply handleMessage_within rules_plain
  · apply handle_within
    · exact fun malformed => ⟨delivered, malformed⟩
    · exact fun request parsed =>
        ⟨delivered, congrArg (Option.map InferenceRequest.requestId) parsed⟩
  · exact fun _ => within_publishAndMark message
  · exact fun _ _ request _ router => within_execute router engineId request _

/-- A turn of the loop keeps to the rules. -/
theorem within_turn (routerId engineId : Text) (router : Router) :
    Within (rules setup) (fun _ _ => True) known (router.turn setup routerId engineId) := by
  apply turn_within rules_plain
  · exact fun _ => ⟨trivial, trivial⟩
  · intro _ unresolved router _
    apply recoverAll_within router fun _ => within_publishBatch 1000
    exact fun _ _ recovered _ request _ router => within_execute router engineId request _
  · exact fun _ message delivered => within_handleMessage (delivered rfl)

end Router

/-! ### The cluster -/

namespace Cluster

variable {κ : Type} [DecidableEq κ]

/-- Everything the group, a tracker or a queued commit passes over is settled. -/
structure Safe (setup : RouterSetup) (log : ℤ → ℤ → Text) (initial : ℤ → ℤ)
    (cluster : Cluster κ) : Prop where
  sourced : cluster.store.Sourced setup log
  committed : ∀ partitionId offset, initial partitionId ≤ offset →
    offset < cluster.committed partitionId → cluster.store.Settled partitionId offset
  pollers : ∀ member, (cluster.pollers member).Safe log initial cluster.store.Settled

/-- The facts of a router about the cluster. -/
def Holds (log : ℤ → ℤ → Text) (cluster : Cluster κ) : RouterFact → Prop
  | .delivered message => message.payload = log message.partitionId message.offset
  | .settled partitionId offset => cluster.store.Settled partitionId offset

variable {setup : RouterSetup} {log : ℤ → ℤ → Text} {initial : ℤ → ℤ} {cluster next : Cluster κ}

omit [DecidableEq κ] in
/-- The facts speak of the log and the store only. -/
theorem Holds.of_store {fact : RouterFact} (holds : cluster.Holds log fact)
    (sameStore : next.store = cluster.store) : next.Holds log fact := by
  cases fact with
  | delivered message => exact holds
  | settled partitionId offset =>
      change next.store.Settled partitionId offset
      rw [sameStore]
      exact holds

omit [DecidableEq κ] in
theorem Safe.start : (Cluster.start initial : Cluster κ).Safe setup log initial where
  sourced := .empty
  committed _ _ first last := absurd (lt_of_le_of_lt first last) (lt_irrefl _)
  pollers _ := .new

theorem Safe.setPoller (safe : cluster.Safe setup log initial) (member : κ) {poller : KafkaPoller}
    (pollerSafe : poller.Safe log initial cluster.store.Settled) :
    (cluster.setPoller member poller).Safe setup log initial where
  sourced := safe.sourced
  committed := safe.committed
  pollers other := by
    by_cases same : other = member
    · subst same
      simpa only [Cluster.setPoller, Function.update_self] using pollerSafe
    · simpa only [Cluster.setPoller, Function.update_of_ne same] using safe.pollers other

omit [DecidableEq κ] in
theorem Safe.writes (safe : cluster.Safe setup log initial) {call : Store.Call}
    {response : Store.Response} (written : cluster.Writes call response next)
    (genuine : Store.Genuine setup log call) :
    next.Safe setup log initial ∧ ∀ fact, cluster.Holds log fact → next.Holds log fact := by
  obtain ⟨store, responded, rfl⟩ := written
  have step := Store.respond_step call cluster.store
  rw [responded] at step
  obtain ⟨sourced, kept⟩ := safe.sourced.step step genuine
  refine ⟨⟨sourced, ?_, ?_⟩, ?_⟩
  · intro partitionId offset first last
    exact kept _ _ (safe.committed partitionId offset first last)
  · exact fun member => (safe.pollers member).mono kept
  · intro fact holds
    cases fact with
    | delivered message => exact holds
    | settled partitionId offset => exact kept _ _ holds

/-- A step of a poll thread keeps the cluster safe and changes no table. -/
theorem Safe.polls (safe : cluster.Safe setup log initial) (polled : cluster.Polls log next) :
    next.Safe setup log initial ∧ next.store = cluster.store := by
  cases polled with
  | take member idle => exact ⟨safe.setPoller member (safe.pollers member).takeCommits, rfl⟩
  | @commit member partitionId offset later here =>
      have dropped := safe.setPoller member (safe.pollers member).dropCommit
      refine ⟨⟨dropped.sourced, ?_, dropped.pollers⟩, rfl⟩
      intro query passed first last
      change passed < Function.update cluster.committed partitionId (offset + 1) query at last
      by_cases same : query = partitionId
      · subst same
        rw [Function.update_self] at last
        refine (safe.pollers member).commits (query, offset) ?_ passed first
          (Int.lt_add_one_iff.mp last)
        rw [here]
        exact List.mem_append_right _ List.mem_cons_self
      · rw [Function.update_of_ne same] at last
        exact safe.committed query passed first last
  | commitFailed member => exact ⟨safe.setPoller member (safe.pollers member).dropCommit, rfl⟩
  | consume member idle position =>
      exact ⟨safe.setPoller member ((safe.pollers member).enqueue position), rfl⟩
  | assign member partitions idle =>
      exact ⟨safe.setPoller member ((safe.pollers member).assign partitions safe.committed), rfl⟩
  | revoke member partitions idle =>
      exact ⟨safe.setPoller member ((safe.pollers member).revoke partitions), rfl⟩

/-- A call that the rules allow keeps the cluster safe and the facts, and teaches
true ones. -/
theorem Safe.answers (safe : cluster.Safe setup log initial) {member : κ} {operation : RouterCall}
    {answer : operation.Answer} {known : Set RouterFact}
    (facts : ∀ fact ∈ known, cluster.Holds log fact)
    (allowed : (Router.rules setup).allowed known operation)
    (answered : cluster.Answers member operation answer next) :
    next.Safe setup log initial ∧ (∀ fact, cluster.Holds log fact → next.Holds log fact) ∧
      ∀ fact ∈ (Router.rules setup).learns operation answer, next.Holds log fact := by
  have nothing : ∀ fact ∈ (∅ : Set RouterFact), next.Holds log fact :=
    fun fact member => absurd member (Set.notMem_empty fact)
  have wrote : ∀ {call response}, cluster.Writes call response next →
      Store.Genuine setup log call →
      next.Safe setup log initial ∧ (∀ fact, cluster.Holds log fact → next.Holds log fact) ∧
        ∀ fact ∈ (∅ : Set RouterFact), next.Holds log fact := fun written genuine =>
    ⟨(safe.writes written genuine).1, (safe.writes written genuine).2, nothing⟩
  cases operation with
  | popOwnershipEvent =>
      obtain ⟨rfl, rfl⟩ := answered
      exact ⟨safe.setPoller member (safe.pollers member).popOwnershipEvent,
        fun _ holds => holds.of_store rfl, nothing⟩
  | pop =>
      obtain ⟨rfl, rfl⟩ := answered
      refine ⟨safe.setPoller member (safe.pollers member).pop,
        fun _ holds => holds.of_store rfl, ?_⟩
      intro fact learned
      cases head : (cluster.pollers member).messages with
      | nil =>
          rw [show (cluster.pollers member).pop.1 = none by
            rw [KafkaPoller.pop, head]; rfl] at learned
          exact absurd learned (Set.notMem_empty _)
      | cons message later =>
          rw [show (cluster.pollers member).pop.1 = some message by
            rw [KafkaPoller.pop, head]; rfl] at learned
          cases learned
          exact (safe.pollers member).messages message (by rw [head]; exact List.mem_cons_self)
  | owns partitionId =>
      obtain ⟨_, rfl⟩ := answered
      exact ⟨safe, fun _ holds => holds, nothing⟩
  | markPublishComplete partitionId offset =>
      cases answered
      have settled : cluster.store.Settled partitionId offset :=
        facts (.settled partitionId offset) allowed
      exact ⟨safe.setPoller member ((safe.pollers member).markPublishComplete settled),
        fun _ holds => holds.of_store rfl, nothing⟩
  | acquirePartition partitionId routerId => exact wrote answered trivial
  | recoverUnresolved =>
      obtain ⟨_, rfl⟩ := answered
      exact ⟨safe, fun _ holds => holds, nothing⟩
  | assignAttempt requestId partitionId ownershipEpoch engineId => exact wrote answered trivial
  | finalize requestId fence resultPayload => exact wrote answered trivial
  | ingest requestId sourcePartition sourceOffset rawPayload =>
      refine wrote answered ?_
      have payload : rawPayload = log sourcePartition sourceOffset := facts _ allowed.1
      exact payload ▸ allowed.2
  | recordPoison sourcePartition sourceOffset rawPayload error =>
      refine wrote answered ?_
      have payload : rawPayload = log sourcePartition sourceOffset := facts _ allowed.1
      exact payload ▸ allowed.2
  | isTerminal requestId =>
      obtain ⟨_, rfl⟩ := answered
      exact ⟨safe, fun _ holds => holds, nothing⟩
  | isSourcePublished sourcePartition sourceOffset =>
      obtain ⟨read, rfl⟩ := answered
      refine ⟨safe, fun _ holds => holds, ?_⟩
      intro fact learned
      cases answer with
      | false => exact absurd learned (Set.notMem_empty _)
      | true =>
          cases learned
          exact (next.store.isSourcePublished_iff _ _).mp read.symm
  | dispatch request fence =>
      cases answered
      exact ⟨safe, fun _ holds => holds, nothing⟩
  | relay call =>
      cases call with
      | fetchUnpublished limit =>
          obtain ⟨_, rfl⟩ := answered
          exact ⟨safe, fun _ holds => holds, nothing⟩
      | publish record =>
          cases answered
          exact ⟨safe, fun _ holds => holds, nothing⟩
      | markPublished outboxId => exact wrote answered trivial

end Cluster

/-- The routers keep to their rules on a safe cluster. -/
def Router.discipline {κ : Type} [DecidableEq κ] (setup : RouterSetup) (log : ℤ → ℤ → Text)
    (routerId engineId : κ → Text) (initial : ℤ → ℤ) :
    (Router.team setup log routerId engineId).Discipline RouterFact where
  toRules := Router.rules setup
  holds := Cluster.Holds log
  invariant := Cluster.Safe setup log initial
  calls safe facts allowed answered := safe.answers facts allowed answered
  moves := by
    intro cluster next safe moved
    rcases moved with polled | ⟨member, rfl⟩
    · obtain ⟨kept, sameStore⟩ := safe.polls polled
      exact ⟨kept, fun _ holds => holds.of_store sameStore⟩
    · exact ⟨safe.setPoller member .new, fun _ holds => holds.of_store rfl⟩
  bodies _ router := Router.within_turn _ _ router

/-- **Commit safety.** Whenever a poller is about to commit the position after an
offset, every offset from the initial position of the group up to it has rows in
the outbox, all of them published. -/
theorem committed_positions_published {κ : Type} [DecidableEq κ] (setup : RouterSetup)
    (log : ℤ → ℤ → Text) (routerId engineId : κ → Text) (initial : ℤ → ℤ)
    {config : Team.Config κ (Cluster κ) RouterCall RouterCall.Answer Router}
    (reached : (Router.team setup log routerId engineId).Reachable (.start initial) config)
    {member : κ} {partitionId offset : ℤ} {later : List (ℤ × ℤ)}
    (commits : (config.shared.pollers member).flushing = (partitionId, offset) :: later) :
    ∀ passed, initial partitionId ≤ passed → passed < offset + 1 →
      (∃ row ∈ config.shared.store.outbox,
        row.sourcePartition = partitionId ∧ row.sourceOffset = passed) ∧
      ∀ row ∈ config.shared.store.outbox, row.sourcePartition = partitionId →
        row.sourceOffset = passed → row.published = true := by
  have safe : config.shared.Safe setup log initial :=
    ((Router.discipline setup log routerId engineId initial).disciplined_of_reachable
      Cluster.Safe.start reached).1
  intro passed first last
  refine (safe.pollers member).commits (partitionId, offset) ?_ passed first
    (Int.lt_add_one_iff.mp last)
  rw [commits]
  exact List.mem_append_right _ List.mem_cons_self

/-! One router handles one request from its assignment to its commit. -/

namespace Solo

/-- Every payload is a request whose id is the payload. -/
def setup : RouterSetup := { parse := fun payload => some ⟨payload, [], []⟩ }

/-- A router `a` with engine `e`, on a log in which every position holds `r`. -/
abbrev team : Team Unit (Cluster Unit) RouterCall RouterCall.Answer Router :=
  Router.team setup (fun _ _ => ['r']) (fun _ => ['a']) fun _ => ['e']

/-- The router can be at this point of its program. -/
abbrev At (cluster : Cluster Unit) (program : RouterProgram Router) : Prop :=
  team.Reachable (.start fun _ => 0) ⟨cluster, fun _ => program⟩

theorem At.call {cluster next : Cluster Unit} {operation : RouterCall}
    {rest : operation.Answer → RouterProgram Router} (here : At cluster (.call operation rest))
    (answer : operation.Answer) (answered : cluster.Answers () operation answer next) :
    At next (rest answer) :=
  Team.call_alone here answer answered

theorem At.again {cluster : Cluster Unit} {router : Router} (here : At cluster (.done router)) :
    At cluster (router.turn setup ['a'] ['e']) :=
  Team.again_alone here

theorem At.polls {cluster next : Cluster Unit} {program : RouterProgram Router}
    (here : At cluster program) (polled : cluster.Polls (fun _ _ => ['r']) next) :
    At next program :=
  here.tail (Team.Step.outside polled)

theorem writes {cluster : Cluster Unit} {call : Store.Call} {response : Store.Response}
    (responded : (Store.object.respond call cluster.store).1 = response) :
    cluster.Writes call response
      { cluster with store := (Store.object.respond call cluster.store).2 } :=
  ⟨_, by rw [← responded], rfl⟩

end Solo

open Solo in
/-- A router is assigned partition 0, completes the request at offset 0, and its
poller is about to commit position 1: the request's outbox row is published. -/
theorem committed_position_published_solo :
    ∃ config, team.Reachable (.start fun _ => 0) config ∧
      (config.shared.pollers ()).flushing = [(0, 0)] ∧
      ∃ row ∈ config.shared.store.outbox, row.sourcePartition = 0 ∧ row.sourceOffset = 0 ∧
        row.published = true := by
  have started : At (.start fun _ => 0) (Router.turn setup ['a'] ['e'] {}) := .refl
  have assigned := started.polls (.assign () [0] rfl)
  have notified := At.call assigned (some ⟨.assigned, [0]⟩) ⟨rfl, rfl⟩
  have acquired := At.call notified 1 (writes rfl)
  have recovered := At.call acquired [] ⟨by decide +kernel, rfl⟩
  have delivered := (At.again recovered).polls (@Cluster.Polls.consume _ _ _ _ () 0 0 rfl rfl)
  have undisturbed := At.call delivered none ⟨rfl, rfl⟩
  have popped := At.call undisturbed (some ⟨['r'], 0, 0⟩) ⟨rfl, rfl⟩
  have owned := At.call popped true ⟨rfl, rfl⟩
  have ingested := At.call owned true (writes rfl)
  have unresolved := At.call ingested false ⟨by decide +kernel, rfl⟩
  have stillOwned := At.call unresolved true ⟨rfl, rfl⟩
  have attempted := At.call stillOwned (some ⟨⟨0, 1, 1, ['e']⟩, 1⟩)
    (writes (by decide +kernel))
  have executed := At.call attempted ['x'] rfl
  have finalized := At.call executed true (writes (by decide +kernel))
  have fetched := At.call finalized [⟨1, resultsTopic, ['r'],
    resultEnvelope ⟨['r'], [], []⟩ ⟨0, 1, 1, ['e']⟩ ['x'], 0, 0, false⟩] ⟨by decide +kernel, rfl⟩
  have published := At.call fetched true rfl
  have marked := At.call published () (writes rfl)
  have settled := At.call marked true ⟨by decide +kernel, rfl⟩
  have tracked := At.call settled () rfl
  have flushing := At.polls tracked (.take () rfl)
  obtain ⟨⟨row, member, source⟩, all⟩ :=
    @committed_positions_published Unit _ _ _ _ _ _ _ flushing () 0 0 [] rfl 0 le_rfl (by decide)
  exact ⟨_, flushing, rfl, row, member, source.1, source.2, all row member source.1 source.2⟩

end InferSched.Durable

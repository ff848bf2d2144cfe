import InferSched.Durable.MessageHandling
import InferSched.Library.TeamRestriction

/-! # Where a published result comes from

A result row of the outbox is the end of a chain: a router read a message of the log,
was assigned an attempt for its request, dispatched it, wrapped the output that the
engine gave for that very request and fence, and `Finalize` accepted the envelope
because the row still had the fence. What engines give is a relation between a request,
a fence and a text; nothing else is asked of them (`RouterCall.Served`).

The message is one of the partition of the row that has the request's id. It need not
be the one the row was ingested from: a second message with that id is a duplicate for
the ingestor, and is executed as long as the request is open.
-/

namespace InferSched.Durable

open Library

/-- An engine answers a dispatch with nothing or with an output of the request. -/
def RouterCall.Served (outputs : InferenceRequest → Fence → Text → Prop) :
    (operation : RouterCall) → operation.Answer → Prop
  | .dispatch request fence, answer => answer = [] ∨ outputs request fence answer
  | _, _ => True

/-- The row carries a fence. -/
structure RequestRow.Carries (row : RequestRow) (fence : Fence) : Prop where
  partitionId : row.sourcePartition = fence.partitionId
  epoch : row.ownershipEpoch = some fence.ownershipEpoch
  attempt : row.attemptId = fence.attemptId
  engine : row.engineId = some fence.engineId

namespace Store

variable (setup : RouterSetup) (log : ℤ → ℤ → Text)
  (outputs : InferenceRequest → Fence → Text → Prop)

/-- The payload is the envelope of an output for a request that was logged. -/
def Produced (requestId : Text) (fence : Fence) (payload : Text) : Prop :=
  ∃ request text offset, setup.parse (log fence.partitionId offset) = some request ∧
    request.requestId = requestId ∧ text ≠ [] ∧ outputs request fence text ∧
    payload = resultEnvelope request fence text

/-- The outbox row publishes the terminal result of its request. -/
def Explains (store : Store) (out : OutboxRow) : Prop :=
  ∃ row fence, store.inferenceRequests.lookup out.messageKey = some row ∧
    row.state = completedState ∧ row.terminalResult = some out.payload ∧
    row.sourcePartition = out.sourcePartition ∧ row.sourceOffset = out.sourceOffset ∧
    row.Carries fence ∧ Produced setup log outputs out.messageKey fence out.payload

/-- The requests have the payloads of the log, and every result row is explained. -/
structure Authored (store : Store) : Prop where
  raw : ∀ requestId row, store.inferenceRequests.lookup requestId = some row →
    row.rawPayload = log row.sourcePartition row.sourceOffset
  results : ∀ out ∈ store.outbox, out.topic = resultsTopic → Explains setup log outputs store out

/-- Ingested payloads are those of the log, and completions have been produced. -/
def Faithful : Call → Prop
  | .ingest _ sourcePartition sourceOffset rawPayload =>
      rawPayload = log sourcePartition sourceOffset
  | .finalize requestId fence payload => Produced setup log outputs requestId fence payload
  | _ => True

variable {setup log outputs} {store next : Store}

theorem Authored.empty : Authored setup log outputs .empty where
  raw _ _ found := by cases found
  results _ member := absurd member List.not_mem_nil

/-- A completed row is kept, so what it explains stays explained. -/
theorem Explains.step {out : OutboxRow} (explains : Explains setup log outputs store out)
    {call : Call} {response : Response} (step : Step store call response next) :
    Explains setup log outputs next out := by
  obtain ⟨row, fence, found, completed, rest⟩ := explains
  exact ⟨row, fence, step.terminal_kept found (completed ▸ completed_terminal), completed, rest⟩

/-- Writing the row of a request that has the payload of its position. -/
theorem raw_put (authored : Authored setup log outputs store) {requestId : Text}
    {row : RequestRow} (genuine : row.rawPayload = log row.sourcePartition row.sourceOffset)
    (query : Text) (found : RequestRow)
    (lookup : (store.putRequest requestId row).inferenceRequests.lookup query = some found) :
    found.rawPayload = log found.sourcePartition found.sourceOffset := by
  rw [putRequest_lookup] at lookup
  split at lookup
  · cases lookup
    exact genuine
  · exact authored.raw query found lookup

/-- A faithful call keeps the results explained. -/
theorem Authored.step (authored : Authored setup log outputs store) {call : Call}
    {response : Response} (step : Step store call response next)
    (faithful : Faithful setup log outputs call) : Authored setup log outputs next := by
  have kept : ∀ out ∈ store.outbox, out.topic = resultsTopic →
      Explains setup log outputs next out := fun out member isResult =>
    (authored.results out member isResult).step step
  cases step with
  | refused refusal => exact authored
  | acquired raised fits => exact ⟨authored.raw, kept⟩
  | ingested fresh unused => exact ⟨raw_put authored faithful, kept⟩
  | assigned found source current unresolved fits =>
      have genuine := authored.raw _ _ found
      exact ⟨raw_put authored (by exact genuine), kept⟩
  | moved found same unresolved =>
      have genuine := authored.raw _ _ found
      exact ⟨raw_put authored (by exact genuine), kept⟩
  | @completed requestId fence payload row found fenced fits =>
      obtain ⟨samePartition, epoch, attempt, engine, dispatched⟩ :=
        (fenceMatches_iff _ _).mp fenced
      refine ⟨?_, ?_⟩
      · intro query other lookup
        rw [insertOutbox_requests] at lookup
        have genuine := authored.raw _ _ found
        exact raw_put authored (by exact genuine) query other lookup
      · intro out member isResult
        rw [insertOutbox_outbox] at member
        split at member
        · exact kept out member isResult
        · rcases List.mem_append.mp member with old | new
          · exact kept out old isResult
          · rw [List.mem_singleton.mp new]
            refine ⟨row.completed payload, fence, ?_, rfl, rfl, rfl, rfl,
              ⟨samePartition, epoch, attempt, engine⟩, faithful⟩
            rw [insertOutbox_requests, putRequest_lookup, if_pos rfl]
  | poisoned fresh =>
      refine ⟨?_, ?_⟩
      · intro query other lookup
        rw [insertOutbox_requests] at lookup
        exact authored.raw query other lookup
      · intro out member isResult
        rw [insertOutbox_outbox] at member
        split at member
        · exact kept out member isResult
        · rcases List.mem_append.mp member with old | new
          · exact kept out old isResult
          · rw [List.mem_singleton.mp new] at isResult
            exact absurd isResult dlq_ne_results
  | marked =>
      refine ⟨authored.raw, ?_⟩
      intro out member isResult
      obtain ⟨before, isBefore, rfl⟩ := List.mem_map.mp member
      have sameTopic : before.topic = resultsTopic := by
        split at isResult <;> exact isResult
      have explained := kept before isBefore sameTopic
      split
      · exact explained
      · exact explained

/-- A recovered request is the row of its id. -/
theorem of_mem_recoverUnresolved {recovered : RecoveredRequest}
    (member : recovered ∈ store.recoverUnresolved) :
    ∃ row, store.inferenceRequests.lookup recovered.requestId = some row ∧
      row.state ∉ terminalStates ∧ recovered = ⟨recovered.requestId, row.state,
        row.sourcePartition, row.sourceOffset, row.stateVersion, row.rawPayload⟩ := by
  unfold recoverUnresolved at member
  rw [List.mem_mergeSort] at member
  obtain ⟨⟨requestId, row⟩, isEntry, rfl⟩ := List.mem_map.mp member
  obtain ⟨isEntry, unresolved⟩ := List.mem_filter.mp isEntry
  exact ⟨row, AList.mem_lookup_iff.mpr isEntry, of_decide_eq_true unresolved, rfl⟩

theorem mem_outbox_of_fetched {limit : ℕ} {row : OutboxRow}
    (member : row ∈ store.fetchUnpublished limit) : row ∈ store.outbox := by
  have sorted := List.mem_of_mem_take member
  rw [List.mem_mergeSort] at sorted
  exact (List.mem_filter.mp sorted).1

end Store

/-! ### What a router knows of a result -/

/-- What a router learns from the answers to its calls. -/
inductive ResultFact
  | delivered (message : KafkaMessage)
  | attempted (partitionId : ℤ) (fence : Fence)
  | produced (request : InferenceRequest) (fence : Fence) (text : Text)
  | listed (record : OutboxRow)

namespace Router

open Program

/-- A router ingests delivered payloads, completes a request with an output for it and
publishes the rows it has fetched. -/
def resultRules (setup : RouterSetup) : Rules RouterCall RouterCall.Answer ResultFact where
  allowed known operation :=
    match operation with
    | .ingest _ sourcePartition sourceOffset rawPayload =>
        .delivered ⟨rawPayload, sourcePartition, sourceOffset⟩ ∈ known
    | .finalize requestId fence payload =>
        ∃ message request text, .delivered message ∈ known ∧
          setup.parse message.payload = some request ∧ request.requestId = requestId ∧
          .attempted message.partitionId fence ∈ known ∧ text ≠ [] ∧
          .produced request fence text ∈ known ∧ payload = resultEnvelope request fence text
    | .relay (.publish record) => .listed record ∈ known
    | _ => True
  learns operation answer :=
    match operation, answer with
    | .pop, some message => {.delivered message}
    | .recoverUnresolved, unresolved =>
        {fact | ∃ recovered ∈ unresolved, fact = .delivered
          ⟨recovered.rawPayload, recovered.sourcePartition, recovered.sourceOffset⟩}
    | .assignAttempt _ partitionId _ _, some assignment =>
        {.attempted partitionId assignment.fence}
    | .dispatch request fence, text => {fact | text ≠ [] ∧ fact = .produced request fence text}
    | .relay (.fetchUnpublished _), records => {fact | ∃ record ∈ records, fact = .listed record}
    | _, _ => ∅
  mono subset allowed := by
    split at allowed
    · exact subset allowed
    · obtain ⟨message, request, text, delivered, parsed, same, attempted, output, produced,
        isEnvelope⟩ := allowed
      exact ⟨message, request, text, subset delivered, parsed, same, subset attempted, output,
        subset produced, isEnvelope⟩
    · exact subset allowed
    · trivial

variable {setup : RouterSetup} {known : Set ResultFact}

theorem resultRules_publishBatch (limit : ℕ) :
    Within (resultRules setup) (fun _ _ => True) known (publishBatch limit) := by
  have records : ∀ (records : List OutboxRow) (published : ℕ) (facts : Set ResultFact),
      (∀ record ∈ records, .listed record ∈ facts) →
      Within (resultRules setup) (fun _ _ => True) facts
        ((OutboxRelay.publishRecords records published).lift RouterCall.relay
          fun _ answer => answer) := by
    intro records
    induction records with
    | nil => exact fun _ _ _ => trivial
    | cons record later ih =>
        intro published facts listed
        refine ⟨listed record List.mem_cons_self, fun answer => ?_⟩
        cases answer with
        | false => trivial
        | true =>
            refine ⟨trivial, fun _ => ih _ _ ?_⟩
            intro other member
            exact Or.inl (Or.inl (listed other (List.mem_cons_of_mem _ member)))
  refine ⟨trivial, fun answer => records answer 0 _ ?_⟩
  intro record member
  exact Or.inr ⟨record, member, rfl⟩

theorem resultRules_plain (facts : Set ResultFact) (call : RouterCall) (plain : call.Plain) :
    (resultRules setup).allowed facts call := by
  cases call <;> trivial

theorem resultRules_publishAndMark (message : KafkaMessage) :
    Within (resultRules setup) (fun _ _ => True) known (publishAndMark message) :=
  publishAndMark_within resultRules_plain (fun _ => resultRules_publishBatch 1000)
    fun _ _ => trivial

/-- An executed request is completed with the output that its dispatch gave. -/
theorem resultRules_execute {router : Router} {engineId : Text} {request : InferenceRequest}
    {message : KafkaMessage} (delivered : .delivered message ∈ known)
    (parsed : setup.parse message.payload = some request) :
    Within (resultRules setup) (fun _ _ => True) known
      (router.execute engineId request message.partitionId) := by
  apply execute_within resultRules_plain
  intro facts epoch assignment text more attempted produced output
  exact ⟨message, request, text, more delivered, parsed, rfl, attempted rfl, output,
    produced ⟨output, rfl⟩, rfl⟩

/-- A delivered message is ingested, and its request completed, with its own payload. -/
theorem resultRules_handleMessage {engineId : Text} {router : Router} {message : KafkaMessage}
    (delivered : .delivered message ∈ known) :
    Within (resultRules setup) (fun _ _ => True) known
      (handleMessage setup engineId router message) := by
  apply handleMessage_within resultRules_plain
  · exact handle_within (fun _ => trivial) fun _ _ => delivered
  · exact fun _ => resultRules_publishAndMark message
  · exact fun _ more _ parsed _ => resultRules_execute (more delivered) parsed

/-- A turn of the loop keeps to the rules. -/
theorem resultRules_turn (routerId engineId : Text) (router : Router) :
    Within (resultRules setup) (fun _ _ => True) known (router.turn setup routerId engineId) := by
  apply turn_within resultRules_plain
  · exact fun _ => ⟨trivial, trivial⟩
  · intro facts unresolved router delivered
    apply recoverAll_within router fun _ => resultRules_publishBatch 1000
    intro larger more recovered member request parsed router
    exact resultRules_execute (more (delivered ⟨recovered, member, rfl⟩)) parsed
  · exact fun _ message delivered => resultRules_handleMessage (delivered rfl)

end Router

/-! ### Routers with their engines -/

namespace Cluster

variable {κ : Type} [DecidableEq κ] {setup : RouterSetup} {log : ℤ → ℤ → Text}
  {outputs : InferenceRequest → Fence → Text → Prop} {initial : ℤ → ℤ} {cluster next : Cluster κ}

/-- The facts of a router about the cluster. -/
def Knows (setup : RouterSetup) (log : ℤ → ℤ → Text)
    (outputs : InferenceRequest → Fence → Text → Prop) (cluster : Cluster κ) : ResultFact → Prop
  | .delivered message => message.payload = log message.partitionId message.offset
  | .attempted partitionId fence => fence.partitionId = partitionId
  | .produced request fence text => outputs request fence text
  | .listed record => record.topic = resultsTopic →
      cluster.store.Explains setup log outputs record

omit [DecidableEq κ] in
/-- A fact stays true while the store does not change. -/
theorem Knows.of_store {fact : ResultFact} (knows : cluster.Knows setup log outputs fact)
    (sameStore : next.store = cluster.store) : next.Knows setup log outputs fact := by
  cases fact with
  | delivered message => exact knows
  | attempted partitionId fence => exact knows
  | produced request fence text => exact knows
  | listed record =>
      intro isResult
      rw [sameStore]
      exact knows isResult

omit [DecidableEq κ] in
/-- A faithful write keeps the store authored and the facts true. -/
theorem authored_writes (authored : cluster.store.Authored setup log outputs)
    {call : Store.Call} {response : Store.Response} (written : cluster.Writes call response next)
    (faithful : Store.Faithful setup log outputs call) :
    next.store.Authored setup log outputs ∧ ∀ fact, cluster.Knows setup log outputs fact →
      next.Knows setup log outputs fact := by
  obtain ⟨store, responded, rfl⟩ := written
  have step := Store.respond_step call cluster.store
  rw [responded] at step
  refine ⟨authored.step step faithful, ?_⟩
  intro fact knows
  cases fact with
  | delivered message => exact knows
  | attempted partitionId fence => exact knows
  | produced request fence text => exact knows
  | listed record => exact fun isResult => (knows isResult).step step

/-- The answer to an allowed call keeps the store authored and the facts true, and what
is learned from it is true. -/
theorem authored_answers (safe : cluster.Safe setup log initial)
    (authored : cluster.store.Authored setup log outputs) {member : κ} {operation : RouterCall}
    {answer : operation.Answer} {known : Set ResultFact}
    (facts : ∀ fact ∈ known, cluster.Knows setup log outputs fact)
    (allowed : (Router.resultRules setup).allowed known operation)
    (served : operation.Served outputs answer)
    (answered : cluster.Answers member operation answer next) :
    next.store.Authored setup log outputs ∧
      (∀ fact, cluster.Knows setup log outputs fact → next.Knows setup log outputs fact) ∧
      ∀ fact ∈ (Router.resultRules setup).learns operation answer,
        next.Knows setup log outputs fact := by
  have nothing : ∀ fact ∈ (∅ : Set ResultFact), next.Knows setup log outputs fact :=
    fun fact member => absurd member (Set.notMem_empty fact)
  cases operation with
  | popOwnershipEvent =>
      obtain ⟨rfl, rfl⟩ := answered
      exact ⟨authored, fun _ knows => knows.of_store rfl, nothing⟩
  | pop =>
      obtain ⟨isPopped, rfl⟩ := answered
      refine ⟨authored, fun _ knows => knows.of_store rfl, ?_⟩
      intro fact learned
      cases answer with
      | none => exact absurd learned (Set.notMem_empty _)
      | some message =>
          cases learned
          exact (safe.pollers member).messages message (List.mem_of_mem_head? isPopped.symm)
  | owns partitionId =>
      obtain ⟨_, rfl⟩ := answered
      exact ⟨authored, fun _ knows => knows, nothing⟩
  | markPublishComplete partitionId offset =>
      cases answered
      exact ⟨authored, fun _ knows => knows.of_store rfl, nothing⟩
  | acquirePartition partitionId routerId =>
      obtain ⟨kept, stable⟩ := authored_writes authored answered trivial
      exact ⟨kept, stable, nothing⟩
  | recoverUnresolved =>
      obtain ⟨rfl, rfl⟩ := answered
      refine ⟨authored, fun _ knows => knows, ?_⟩
      rintro fact ⟨recovered, isRecovered, rfl⟩
      obtain ⟨row, found, _, isRow⟩ := Store.of_mem_recoverUnresolved isRecovered
      have raw := authored.raw _ row found
      rw [isRow]
      exact raw
  | assignAttempt requestId partitionId ownershipEpoch engineId =>
      obtain ⟨kept, stable⟩ := authored_writes authored answered trivial
      refine ⟨kept, stable, ?_⟩
      intro fact learned
      cases answer with
      | none => exact absurd learned (Set.notMem_empty _)
      | some assignment =>
          cases learned
          obtain ⟨store, responded, _⟩ := answered
          have step := Store.respond_step (.assignAttempt requestId partitionId ownershipEpoch
            engineId) cluster.store
          rw [responded] at step
          cases step with
          | refused refusal => cases refusal
          | assigned found source current unresolved fits => rfl
  | finalize requestId fence payload =>
      have faithful : Store.Faithful setup log outputs (.finalize requestId fence payload) := by
        obtain ⟨message, request, text, delivered, parsed, same, attempted, output, produced,
          isEnvelope⟩ := allowed
        have isLogged : message.payload = log message.partitionId message.offset :=
          facts _ delivered
        have samePartition : fence.partitionId = message.partitionId := facts _ attempted
        refine ⟨request, text, message.offset, ?_, same, output, facts _ produced, isEnvelope⟩
        rw [samePartition, ← isLogged]
        exact parsed
      obtain ⟨kept, stable⟩ := authored_writes authored answered faithful
      exact ⟨kept, stable, nothing⟩
  | ingest requestId sourcePartition sourceOffset rawPayload =>
      have isLogged : rawPayload = log sourcePartition sourceOffset := facts _ allowed
      obtain ⟨kept, stable⟩ := authored_writes authored answered isLogged
      exact ⟨kept, stable, nothing⟩
  | recordPoison sourcePartition sourceOffset rawPayload error =>
      obtain ⟨kept, stable⟩ := authored_writes authored answered trivial
      exact ⟨kept, stable, nothing⟩
  | isTerminal requestId =>
      obtain ⟨_, rfl⟩ := answered
      exact ⟨authored, fun _ knows => knows, nothing⟩
  | isSourcePublished sourcePartition sourceOffset =>
      obtain ⟨_, rfl⟩ := answered
      exact ⟨authored, fun _ knows => knows, nothing⟩
  | dispatch request fence =>
      cases answered
      refine ⟨authored, fun _ knows => knows, ?_⟩
      rintro fact ⟨output, rfl⟩
      rcases served with isEmpty | isOutput
      · exact absurd isEmpty output
      · exact isOutput
  | relay call =>
      cases call with
      | fetchUnpublished limit =>
          obtain ⟨rfl, rfl⟩ := answered
          refine ⟨authored, fun _ knows => knows, ?_⟩
          rintro fact ⟨record, isFetched, rfl⟩
          exact authored.results record (Store.mem_outbox_of_fetched isFetched)
      | publish record =>
          cases answered
          exact ⟨authored, fun _ knows => knows, nothing⟩
      | markPublished outboxId =>
          obtain ⟨kept, stable⟩ := authored_writes authored answered trivial
          exact ⟨kept, stable, nothing⟩

end Cluster

/-- The routers, with engines that answer a dispatch with nothing or with an output. -/
abbrev Router.servedTeam {κ : Type} [DecidableEq κ] (setup : RouterSetup) (log : ℤ → ℤ → Text)
    (routerId engineId : κ → Text) (outputs : InferenceRequest → Fence → Text → Prop) :
    Team κ (Cluster κ) RouterCall RouterCall.Answer Router :=
  (Router.team setup log routerId engineId).answering (RouterCall.Served outputs)

/-- The routers keep to the rules of results on a cluster that is safe. -/
def Router.resultDiscipline {κ : Type} [DecidableEq κ] (setup : RouterSetup)
    (log : ℤ → ℤ → Text) (routerId engineId : κ → Text) (initial : ℤ → ℤ)
    (outputs : InferenceRequest → Fence → Text → Prop) :
    ((Router.servedTeam setup log routerId engineId outputs).assuming
      (Cluster.Safe setup log initial)).Discipline ResultFact where
  toRules := Router.resultRules setup
  holds := Cluster.Knows setup log outputs
  invariant cluster := cluster.store.Authored setup log outputs
  calls authored facts allowed answered :=
    Cluster.authored_answers answered.1 authored facts allowed answered.2.1 answered.2.2
  moves := by
    rintro cluster next authored (⟨safe, polled⟩ | ⟨member, safe, rfl⟩)
    · obtain ⟨_, sameStore⟩ := safe.polls polled
      refine ⟨?_, fun _ knows => knows.of_store sameStore⟩
      rw [sameStore]
      exact authored
    · exact ⟨authored, fun _ knows => knows.of_store rfl⟩
  bodies _ router := Router.resultRules_turn _ _ router

theorem Router.reachable_served {κ : Type} [DecidableEq κ] {setup : RouterSetup}
    {log : ℤ → ℤ → Text} {routerId engineId : κ → Text} {initial : ℤ → ℤ}
    {outputs : InferenceRequest → Fence → Text → Prop}
    {config : Team.Config κ (Cluster κ) RouterCall RouterCall.Answer Router}
    (reached : (Router.servedTeam setup log routerId engineId outputs).Reachable (.start initial)
      config) :
    ((Router.servedTeam setup log routerId engineId outputs).assuming
      (Cluster.Safe setup log initial)).Reachable (.start initial) config := by
  refine Team.reachable_assuming ?_ reached
  intro other here
  exact ((Router.discipline setup log routerId engineId initial).disciplined_of_reachable
    Cluster.Safe.start (Team.reachable_of_answering here)).1

theorem Router.authored_of_served {κ : Type} [DecidableEq κ] {setup : RouterSetup}
    {log : ℤ → ℤ → Text} {routerId engineId : κ → Text} {initial : ℤ → ℤ}
    {outputs : InferenceRequest → Fence → Text → Prop}
    {config : Team.Config κ (Cluster κ) RouterCall RouterCall.Answer Router}
    (reached : (Router.servedTeam setup log routerId engineId outputs).Reachable (.start initial)
      config) : config.shared.store.Authored setup log outputs := by
  have start : (Router.resultDiscipline setup log routerId engineId initial outputs).invariant
      (.start initial) := Store.Authored.empty
  exact ((Router.resultDiscipline setup log routerId engineId initial
    outputs).disciplined_of_reachable start (Router.reachable_served reached)).1

/-- The rows whose payload is or will be published as a result: those of the outbox, and
those that a router is about to hand to its producer. -/
def Publishes {κ : Type} (config : Team.Config κ (Cluster κ) RouterCall RouterCall.Answer Router)
    (record : OutboxRow) : Prop :=
  record.topic = resultsTopic ∧ (record ∈ config.shared.store.outbox ∨
    ∃ member rest, config.programs member = .call (.relay (.publish record)) rest)

/-- What a router is about to publish is explained like what is in the outbox. -/
theorem Router.explains_of_publishes {κ : Type} [DecidableEq κ] {setup : RouterSetup}
    {log : ℤ → ℤ → Text} {routerId engineId : κ → Text} {initial : ℤ → ℤ}
    {outputs : InferenceRequest → Fence → Text → Prop}
    {config : Team.Config κ (Cluster κ) RouterCall RouterCall.Answer Router} {record : OutboxRow}
    (reached : (Router.servedTeam setup log routerId engineId outputs).Reachable (.start initial)
      config) (publishes : Publishes config record) :
    config.shared.store.Explains setup log outputs record := by
  have served := Router.reachable_served reached
  have start : (Router.resultDiscipline setup log routerId engineId initial outputs).invariant
      (.start initial) := Store.Authored.empty
  obtain ⟨isResult, inOutbox | ⟨member, rest, here⟩⟩ := publishes
  · exact (Router.authored_of_served reached).results record inOutbox isResult
  · obtain ⟨known, facts, listed⟩ := (Router.resultDiscipline setup log routerId engineId
      initial outputs).call_allowed start served here
    exact facts _ listed isResult

/-- **Provenance of results.** In every configuration that routers and engines can reach,
under any interleaving, rebalance, failed call and crash, whatever is published as a
result is the terminal result of its completed request: the envelope of an output that
an engine gave, under the fence that the row still has, for a message of the partition
of the row that parses to a request of that id. All publications of one request have one
payload, and a consumer reads the request, the fence and the output back from it if none
of the strings needs an escape. -/
theorem published_results_explained {κ : Type} [DecidableEq κ] (setup : RouterSetup)
    (log : ℤ → ℤ → Text) (routerId engineId : κ → Text) (initial : ℤ → ℤ)
    (outputs : InferenceRequest → Fence → Text → Prop)
    {config : Team.Config κ (Cluster κ) RouterCall RouterCall.Answer Router}
    (reached : (Router.servedTeam setup log routerId engineId outputs).Reachable (.start initial)
      config) {record : OutboxRow} (publishes : Publishes config record) :
    (∃ row fence request text offset,
      config.shared.store.inferenceRequests.lookup record.messageKey = some row ∧
      row.state = completedState ∧ row.terminalResult = some record.payload ∧
      row.sourcePartition = record.sourcePartition ∧ row.sourceOffset = record.sourceOffset ∧
      row.Carries fence ∧ setup.parse (log record.sourcePartition offset) = some request ∧
      request.requestId = record.messageKey ∧ text ≠ [] ∧ outputs request fence text ∧
      record.payload = resultEnvelope request fence text ∧
      ((∀ field ∈ ResultEnvelope.fields request text, Unescaped field) →
        DecodesTo record.payload request fence text)) ∧
    ∀ other, Publishes config other → other.messageKey = record.messageKey →
      other.payload = record.payload := by
  have explained : ∀ record, Publishes config record →
      config.shared.store.Explains setup log outputs record := fun _ publishes =>
    Router.explains_of_publishes reached publishes
  obtain ⟨row, fence, found, completed, isTerminal, samePartition, sameOffset, carries, request,
    text, offset, parsed, isKey, output, isOutput, isEnvelope⟩ := explained record publishes
  refine ⟨⟨row, fence, request, text, offset, found, completed, isTerminal, samePartition,
    sameOffset, carries, ?_, isKey, output, isOutput, isEnvelope, ?_⟩, ?_⟩
  · rw [← samePartition, carries.partitionId]
    exact parsed
  · intro plain
    rw [isEnvelope]
    exact ResultEnvelope.decodesTo_of_unescaped request fence text plain
  · intro other alsoPublishes sameKey
    obtain ⟨otherRow, _, otherFound, _, otherTerminal, _⟩ := explained other alsoPublishes
    rw [sameKey, found] at otherFound
    cases otherFound
    exact Option.some.inj (otherTerminal.symm.trans isTerminal)

open Solo in
/-- A router has completed the request at offset 0 with the output of its engine, and is
about to publish the envelope. -/
theorem Router.publishing_solo : ∃ (cluster : Cluster Unit) (rest : _ → RouterProgram Router),
    (Router.servedTeam setup (fun _ _ => ['r']) (fun _ : Unit => ['a'])
      (fun _ => ['e']) fun request _ text => text = 'o' :: request.requestId).Reachable
        (.start fun _ => 0) ⟨cluster, fun _ => .call (.relay (.publish ⟨1, resultsTopic, ['r'],
          resultEnvelope ⟨['r'], [], []⟩ ⟨0, 1, 1, ['e']⟩ ['o', 'r'], 0, 0, false⟩)) rest⟩ := by
  have started : (Router.servedTeam setup (fun _ _ => ['r']) (fun _ : Unit => ['a'])
      (fun _ => ['e']) fun request _ text => text = 'o' :: request.requestId).Reachable
        (.start fun _ => 0) ⟨.start fun _ => 0, fun _ => Router.turn setup ['a'] ['e'] {}⟩ := .refl
  have assigned := started.tail (.outside (.assign () [0] rfl))
  have notified := Team.call_alone assigned (some ⟨.assigned, [0]⟩) ⟨trivial, rfl, rfl⟩
  have acquired := Team.call_alone notified 1 ⟨trivial, writes rfl⟩
  have recovered := Team.call_alone acquired [] ⟨trivial, by decide +kernel, rfl⟩
  have delivered := (Team.again_alone recovered).tail
    (.outside (@Cluster.Polls.consume _ _ _ _ () 0 0 rfl rfl))
  have undisturbed := Team.call_alone delivered none ⟨trivial, rfl, rfl⟩
  have popped := Team.call_alone undisturbed (some ⟨['r'], 0, 0⟩) ⟨trivial, rfl, rfl⟩
  have owned := Team.call_alone popped true ⟨trivial, rfl, rfl⟩
  have ingested := Team.call_alone owned true ⟨trivial, writes rfl⟩
  have unresolved := Team.call_alone ingested false ⟨trivial, by decide +kernel, rfl⟩
  have stillOwned := Team.call_alone unresolved true ⟨trivial, rfl, rfl⟩
  have attempted := Team.call_alone stillOwned (some ⟨⟨0, 1, 1, ['e']⟩, 1⟩)
    ⟨trivial, writes (by decide +kernel)⟩
  have executed := Team.call_alone attempted ['o', 'r'] ⟨Or.inr rfl, rfl⟩
  have finalized := Team.call_alone executed true ⟨trivial, writes (by decide +kernel)⟩
  let record : OutboxRow := ⟨1, resultsTopic, ['r'],
    resultEnvelope ⟨['r'], [], []⟩ ⟨0, 1, 1, ['e']⟩ ['o', 'r'], 0, 0, false⟩
  have fetched := Team.call_alone finalized [record] ⟨trivial, by decide +kernel, rfl⟩
  exact ⟨_, _, fetched⟩

open Solo in
/-- Its row has the envelope as terminal result. -/
theorem published_result_explained_solo :
    ∃ config record, (Router.servedTeam setup (fun _ _ => ['r']) (fun _ : Unit => ['a'])
        (fun _ => ['e']) fun request _ text => text = 'o' :: request.requestId).Reachable
          (.start fun _ => 0) config ∧
      Publishes config record ∧
      record.payload = resultEnvelope ⟨['r'], [], []⟩ ⟨0, 1, 1, ['e']⟩ ['o', 'r'] ∧
      ∃ row, config.shared.store.inferenceRequests.lookup record.messageKey = some row ∧
        row.terminalResult = some record.payload := by
  obtain ⟨cluster, rest, reached⟩ := Router.publishing_solo
  let record : OutboxRow := ⟨1, resultsTopic, ['r'],
    resultEnvelope ⟨['r'], [], []⟩ ⟨0, 1, 1, ['e']⟩ ['o', 'r'], 0, 0, false⟩
  have publishes : Publishes ⟨cluster, fun _ : Unit => .call (.relay (.publish record)) rest⟩
      record := ⟨rfl, Or.inr ⟨(), rest, rfl⟩⟩
  obtain ⟨⟨row, _, _, _, _, found, _, isTerminal, _⟩, _⟩ :=
    published_results_explained setup _ _ _ _ _ reached publishes
  exact ⟨_, record, reached, publishes, rfl, row, found, isTerminal⟩

end InferSched.Durable

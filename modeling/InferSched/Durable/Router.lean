import InferSched.Durable.KafkaPoller
import InferSched.Durable.OutboxRelay
import InferSched.Durable.ResultEnvelope

/-! # The durable router

The loop of `durable_router_main.cpp` with its `RequestIngestor`
(`request_ingestor.cpp`), as a program that calls its poller, the store, its
relay and its engine. `Router.team` runs any number of routers on one store and
one consumer group; between two calls of a router, other routers call the store,
poll threads deliver, rebalance and commit, and routers crash. A transaction that
throws has no answer: the exception ends the router, which is one of its crashes.

What is outside the repository is a parameter: `parse` is the protobuf parser,
`log` gives the payload of every position of the request topic. What an engine
answers to a dispatch and whether a publication succeeds is arbitrary. The
readiness file and the deadline of the loop are left out: a router that leaves
its loop makes no more calls.
-/

namespace InferSched.Durable

open Library

/-- The calls of a router. -/
inductive RouterCall
  | popOwnershipEvent
  | pop
  | owns (partitionId : ℤ)
  | markPublishComplete (partitionId offset : ℤ)
  | acquirePartition (partitionId : ℤ) (routerId : Text)
  | recoverUnresolved
  | assignAttempt (requestId : Text) (partitionId : ℤ) (ownershipEpoch : ℕ) (engineId : Text)
  | finalize (requestId : Text) (fence : Fence) (resultPayload : Text)
  | ingest (requestId : Text) (sourcePartition sourceOffset : ℤ) (rawPayload : Text)
  | recordPoison (sourcePartition sourceOffset : ℤ) (rawPayload error : Text)
  | isTerminal (requestId : Text)
  | isSourcePublished (sourcePartition sourceOffset : ℤ)
  | dispatch (request : InferenceRequest) (fence : Fence)
  | relay (call : RelayCall)

/-- The answers to the calls. -/
abbrev RouterCall.Answer : RouterCall → Type
  | .popOwnershipEvent => Option OwnershipEvent
  | .pop => Option KafkaMessage
  | .owns _ => Bool
  | .markPublishComplete _ _ => Unit
  | .acquirePartition _ _ => ℕ
  | .recoverUnresolved => List RecoveredRequest
  | .assignAttempt _ _ _ _ => Option Assignment
  | .finalize _ _ _ => Bool
  | .ingest _ _ _ _ => Bool
  | .recordPoison _ _ _ _ => Bool
  | .isTerminal _ => Bool
  | .isSourcePublished _ _ => Bool
  | .dispatch _ _ => Text
  | .relay call => call.Answer

abbrev RouterProgram := Program RouterCall RouterCall.Answer

inductive IngestOutcome
  | inserted
  | duplicate
  | retryParse
  | poisonRecorded
deriving DecidableEq, Repr

/-- What a router process keeps between turns of its loop. -/
structure Router where
  epochs : AList fun _ : ℤ => ℕ := ∅
  parseAttempts : AList fun _ : ℤ × ℤ => ℕ := ∅
  completed : ℕ := 0

/-- The fixed surroundings of the routers. -/
structure RouterSetup where
  parse : Text → Option InferenceRequest
  maxParseRetries : ℕ := 3

namespace RouterSetup

variable (setup : RouterSetup)

/-- `RequestIngestor::Handle` accepts the payload. -/
def parsed (payload : Text) : Option InferenceRequest :=
  (setup.parse payload).filter fun request => request.requestId ≠ []

end RouterSetup

namespace Router

open Program

def publishBatch (limit : ℕ) : RouterProgram ℕ :=
  (OutboxRelay.publishBatch limit).lift RouterCall.relay fun _ answer => answer

def handle (setup : RouterSetup) (router : Router) (message : KafkaMessage) :
    RouterProgram (IngestOutcome × Router) :=
  let position := (message.partitionId, message.offset)
  match setup.parsed message.payload with
  | none => do
      let attempts := (router.parseAttempts.lookup position).getD 0 + 1
      if attempts < setup.maxParseRetries then
        return (.retryParse,
          { router with parseAttempts := router.parseAttempts.insert position attempts })
      let _ ← perform (RouterCall.recordPoison message.partitionId message.offset message.payload
        "invalid_inference_request".toList)
      return (.poisonRecorded,
        { router with parseAttempts := router.parseAttempts.erase position })
  | some request => do
      let inserted ← perform (RouterCall.ingest request.requestId message.partitionId
        message.offset message.payload)
      return (if inserted then .inserted else .duplicate,
        { router with parseAttempts := router.parseAttempts.erase position })

/-- The lambda `execute` of the loop. -/
def execute (router : Router) (engineId : Text) (request : InferenceRequest) (partitionId : ℤ) :
    RouterProgram Bool := do
  match router.epochs.lookup partitionId with
  | none => return false
  | some epoch =>
      let owned ← perform (RouterCall.owns partitionId)
      if !owned then return false
      match ← perform (RouterCall.assignAttempt request.requestId partitionId epoch engineId) with
      | none => return false
      | some assignment =>
          let result ← perform (RouterCall.dispatch request assignment.fence)
          if result = [] then return false
          perform (RouterCall.finalize request.requestId assignment.fence
            (resultEnvelope request assignment.fence result))

/-- Acquire the partitions of an assignment in turn. -/
def acquireAll (routerId : Text) : List ℤ → Router → RouterProgram Router
  | [], router => pure router
  | partitionId :: later, router => do
      let epoch ← perform (RouterCall.acquirePartition partitionId routerId)
      acquireAll routerId later { router with epochs := router.epochs.insert partitionId epoch }

/-- Execute the unresolved requests of the partitions the router has. -/
def recoverAll (setup : RouterSetup) (engineId : Text) :
    List RecoveredRequest → Router → RouterProgram Router
  | [], router => pure router
  | recovered :: later, router => do
      if recovered.sourcePartition ∉ router.epochs then
        recoverAll setup engineId later router
      else
        match setup.parse recovered.rawPayload with
        | none => recoverAll setup engineId later router
        | some request =>
            if ← execute router engineId request recovered.sourcePartition then
              let _ ← publishBatch 1000
              recoverAll setup engineId later { router with completed := router.completed + 1 }
            else recoverAll setup engineId later router

/-- Publish, and mark the position of a message once all its rows are
published. Returns whether it was marked. -/
def publishAndMark (message : KafkaMessage) : RouterProgram Bool := do
  let _ ← publishBatch 1000
  let published ← perform (RouterCall.isSourcePublished message.partitionId message.offset)
  if published then
    perform (RouterCall.markPublishComplete message.partitionId message.offset)
  return published

/-- The part of a turn that handles a message of a partition the router owns. -/
def handleMessage (setup : RouterSetup) (engineId : Text) (router : Router)
    (message : KafkaMessage) : RouterProgram Router := do
  let (outcome, router) ← handle setup router message
  match outcome with
  | .retryParse => return router
  | .poisonRecorded =>
      let _ ← publishAndMark message
      return router
  | _ =>
      match setup.parse message.payload with
      | none => return router
      | some request =>
          if ← perform (RouterCall.isTerminal request.requestId) then
            let _ ← publishAndMark message
            return router
          else if ← execute router engineId request message.partitionId then
            if ← publishAndMark message then
              return { router with completed := router.completed + 1 }
            else return router
          else return router

/-- One turn of the loop. -/
def turn (setup : RouterSetup) (routerId engineId : Text) (router : Router) :
    RouterProgram Router := do
  match ← perform RouterCall.popOwnershipEvent with
  | some ⟨.revoked, partitions⟩ =>
      return { router with
        epochs := partitions.foldl (fun epochs partitionId => epochs.erase partitionId)
          router.epochs }
  | some ⟨.assigned, partitions⟩ =>
      let router ← acquireAll routerId partitions router
      let unresolved ← perform RouterCall.recoverUnresolved
      recoverAll setup engineId unresolved router
  | none =>
      match ← perform RouterCall.pop with
      | none => return router
      | some message =>
          let owned ← perform (RouterCall.owns message.partitionId)
          if !owned then return router
          handleMessage setup engineId router message

end Router

/-! ### Routers on one store -/

/-- The store, the positions the consumer group has committed, and the poller of
every router. -/
structure Cluster (κ : Type) where
  store : Store
  committed : ℤ → ℤ
  pollers : κ → KafkaPoller

namespace Cluster

variable {κ : Type} [DecidableEq κ]

/-- Before any router has run. -/
def start (initial : ℤ → ℤ) : Cluster κ :=
  ⟨.empty, initial, fun _ => {}⟩

def setPoller (cluster : Cluster κ) (member : κ) (poller : KafkaPoller) : Cluster κ :=
  { cluster with pollers := Function.update cluster.pollers member poller }

/-- A committed write of the store, with the response it gives. -/
def Writes (cluster : Cluster κ) (call : Store.Call) (response : Store.Response)
    (next : Cluster κ) : Prop :=
  ∃ store, Store.object.respond call cluster.store = (response, store) ∧
    next = { cluster with store := store }

/-- How a call of a router is answered. -/
def Answers (member : κ) (cluster : Cluster κ) (operation : RouterCall)
    (answer : operation.Answer) (next : Cluster κ) : Prop :=
  match operation, answer with
  | .popOwnershipEvent, answer => let popped := (cluster.pollers member).popOwnershipEvent
      answer = popped.1 ∧ next = cluster.setPoller member popped.2
  | .pop, answer => let popped := (cluster.pollers member).pop
      answer = popped.1 ∧ next = cluster.setPoller member popped.2
  | .owns partitionId, answer =>
      answer = (cluster.pollers member).owns partitionId ∧ next = cluster
  | .markPublishComplete partitionId offset, _ =>
      next = cluster.setPoller member
        ((cluster.pollers member).markPublishComplete partitionId offset)
  | .acquirePartition partitionId routerId, answer =>
      cluster.Writes (.acquirePartition partitionId routerId) (.epoch answer) next
  | .recoverUnresolved, answer => answer = cluster.store.recoverUnresolved ∧ next = cluster
  | .assignAttempt requestId partitionId ownershipEpoch engineId, answer =>
      cluster.Writes (.assignAttempt requestId partitionId ownershipEpoch engineId)
        (.assigned answer) next
  | .finalize requestId fence resultPayload, answer =>
      cluster.Writes (.finalize requestId fence resultPayload) (.accepted answer) next
  | .ingest requestId sourcePartition sourceOffset rawPayload, answer =>
      cluster.Writes (.ingest requestId sourcePartition sourceOffset rawPayload)
        (.accepted answer) next
  | .recordPoison sourcePartition sourceOffset rawPayload error, answer =>
      cluster.Writes (.recordPoison sourcePartition sourceOffset rawPayload error)
        (.accepted answer) next
  | .isTerminal requestId, answer => answer = cluster.store.isTerminal requestId ∧ next = cluster
  | .isSourcePublished sourcePartition sourceOffset, answer =>
      answer = cluster.store.isSourcePublished sourcePartition sourceOffset ∧ next = cluster
  | .dispatch _ _, _ => next = cluster
  | .relay (.fetchUnpublished limit), answer =>
      answer = cluster.store.fetchUnpublished limit ∧ next = cluster
  | .relay (.publish _), _ => next = cluster
  | .relay (.markPublished outboxId), _ =>
      cluster.Writes (.markPublished outboxId) .done next

/-- The steps of the poll threads. A thread makes the commits it has taken, which
can fail, before it consumes again; the consumer delivers the offsets of a
partition in order, and rebalances while it consumes. -/
inductive Polls (log : ℤ → ℤ → Text) (cluster : Cluster κ) : Cluster κ → Prop
  | take (member : κ) (idle : (cluster.pollers member).flushing = []) :
      Polls log cluster (cluster.setPoller member (cluster.pollers member).takeCommits)
  | commit (member : κ) {partitionId offset : ℤ} {later : List (ℤ × ℤ)}
      (here : (cluster.pollers member).flushing = (partitionId, offset) :: later) :
      Polls log cluster
        { cluster.setPoller member (cluster.pollers member).dropCommit with
          committed := Function.update cluster.committed partitionId (offset + 1) }
  | commitFailed (member : κ) :
      Polls log cluster (cluster.setPoller member (cluster.pollers member).dropCommit)
  | consume (member : κ) {partitionId offset : ℤ}
      (idle : (cluster.pollers member).flushing = [])
      (position : (cluster.pollers member).positions.lookup partitionId = some offset) :
      Polls log cluster (cluster.setPoller member ((cluster.pollers member).enqueue
        ⟨log partitionId offset, partitionId, offset⟩))
  | assign (member : κ) (partitions : List ℤ)
      (idle : (cluster.pollers member).flushing = []) :
      Polls log cluster (cluster.setPoller member
        ((cluster.pollers member).assign cluster.committed partitions))
  | revoke (member : κ) (partitions : List ℤ)
      (idle : (cluster.pollers member).flushing = []) :
      Polls log cluster (cluster.setPoller member ((cluster.pollers member).revoke partitions))

end Cluster

/-- Any number of routers, each with its own name and engine. -/
def Router.team {κ : Type} [DecidableEq κ] (setup : RouterSetup) (log : ℤ → ℤ → Text)
    (routerId engineId : κ → Text) :
    Team κ (Cluster κ) RouterCall RouterCall.Answer Router where
  answers := Cluster.Answers
  outside := Cluster.Polls log
  fails member cluster next := next = cluster.setPoller member {}
  body member router := router.turn setup (routerId member) (engineId member)
  fresh _ := {}

end InferSched.Durable

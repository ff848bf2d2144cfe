import InferSched.Durable.CommitSafety

/-! # What becomes of a popped message

A router that has popped a message of a partition it owns goes on with
`Router.handleMessage`. Whatever happens meanwhile, the message is then in the
tables, except when its payload does not parse and the ingestor asks for another
attempt: the loop has no message to attempt again, so it is lost until the
partition is assigned anew.

A handled message releases its offset only when the outbox has a row of its own
source position. A request that comes again at another position, or that ended
without a result, has none.
-/

namespace InferSched.Durable

open Library

namespace Store

/-- The request of a message, or its position as poison, is in the tables. -/
def Recorded (setup : RouterSetup) (store : Store) (message : KafkaMessage) : Prop :=
  (∃ request, setup.parsed message.payload = some request ∧
    request.requestId ∈ store.inferenceRequests) ∨
  (message.partitionId, message.offset) ∈ store.poisonMessages

variable {setup : RouterSetup} {log : ℤ → ℤ → Text} {store next : Store} {message : KafkaMessage}

theorem mem_putRequest {requestId query : Text} {row : RequestRow}
    (known : query ∈ store.inferenceRequests) :
    query ∈ (store.putRequest requestId row).inferenceRequests :=
  (AList.mem_insert _).mpr (Or.inr known)

/-- No call removes a request or a poison message. -/
theorem Step.recorded {call : Call} {response : Response} (step : Step store call response next)
    (recorded : store.Recorded setup message) : next.Recorded setup message := by
  have requests : ∀ requestId, requestId ∈ store.inferenceRequests →
      requestId ∈ next.inferenceRequests := by
    intro requestId known
    cases step with
    | refused | acquired | marked => exact known
    | ingested | assigned | moved => exact mem_putRequest known
    | completed =>
        rw [insertOutbox_requests]
        exact mem_putRequest known
    | poisoned =>
        rw [insertOutbox_requests]
        exact known
  have poison : ∀ position, position ∈ store.poisonMessages →
      position ∈ next.poisonMessages := by
    intro position known
    cases step with
    | refused | acquired | marked | ingested | assigned | moved => exact known
    | completed =>
        rw [insertOutbox_poison]
        exact known
    | poisoned =>
        rw [insertOutbox_poison]
        exact (AList.mem_insert _).mpr (Or.inr known)
  rcases recorded with ⟨request, parsed, known⟩ | known
  · exact Or.inl ⟨request, parsed, requests _ known⟩
  · exact Or.inr (poison _ known)

/-- An ingested request has a row, also when its position was taken: then the
position holds this very request. -/
theorem ingest_recorded (sourced : Sourced setup log store) {request : InferenceRequest}
    (parsed : setup.parsed message.payload = some request)
    (genuine : message.payload = log message.partitionId message.offset) :
    (store.ingest request.requestId message.partitionId message.offset
      message.payload).2.Recorded setup message := by
  refine Or.inl ⟨request, parsed, ?_⟩
  unfold ingest
  split
  · next taken =>
      rcases taken with known | taken
      · exact known
      · obtain ⟨entry, member, source⟩ := List.any_eq_true.mp taken
        simp only [Bool.and_eq_true, decide_eq_true_eq] at source
        have found : store.inferenceRequests.lookup entry.1 = some entry.2 :=
          AList.mem_lookup_iff.mpr member
        have same := sourced.requests entry.1 entry.2 found
        rw [source.1, source.2, ← genuine, parsed, Option.map_some] at same
        rw [Option.some.inj same]
        exact AList.lookup_isSome.mp (by rw [found]; rfl)
  · exact (AList.mem_insert _).mpr (Or.inl rfl)

/-- A position recorded as poison is poison. -/
theorem recordPoison_recorded (store : Store) (message : KafkaMessage) (error : Text) :
    (store.recordPoison message.partitionId message.offset message.payload
      error).2.Recorded setup message := by
  refine Or.inr ?_
  unfold recordPoison
  split
  · next known => exact known
  · dsimp only
    rw [insertOutbox_poison]
    exact (AList.mem_insert _).mpr (Or.inl rfl)

end Store

namespace Cluster

variable {κ : Type} [DecidableEq κ] {cluster next : Cluster κ}

/-- An answer changes the store by one call at most. -/
theorem Answers.store {member : κ} {operation : RouterCall} {answer : operation.Answer}
    (answered : cluster.Answers member operation answer next) :
    next.store = cluster.store ∨
      ∃ call, next.store = (Store.object.respond call cluster.store).2 := by
  have wrote : ∀ {call response}, cluster.Writes call response next →
      next.store = cluster.store ∨
        ∃ call, next.store = (Store.object.respond call cluster.store).2 := by
    rintro call response ⟨store, responded, rfl⟩
    exact Or.inr ⟨call, by rw [responded]⟩
  cases operation with
  | popOwnershipEvent | pop | owns | recoverUnresolved | isTerminal | isSourcePublished =>
      obtain ⟨_, rfl⟩ := answered
      exact Or.inl rfl
  | markPublishComplete | dispatch =>
      cases answered
      exact Or.inl rfl
  | acquirePartition | assignAttempt | finalize | ingest | recordPoison => exact wrote answered
  | relay call =>
      cases call with
      | fetchUnpublished limit =>
          obtain ⟨_, rfl⟩ := answered
          exact Or.inl rfl
      | publish record =>
          cases answered
          exact Or.inl rfl
      | markPublished outboxId => exact wrote answered

/-- The message is recorded, or it is still queued for the router. -/
def Kept (setup : RouterSetup) (cluster : Cluster κ) (member : κ) (message : KafkaMessage) : Prop :=
  cluster.store.Recorded setup message ∨ message ∈ (cluster.pollers member).messages

end Cluster

namespace Router

/-- The ingestor records the message: its payload is a request, or the attempts to
parse it are used up. -/
def Records (setup : RouterSetup) (router : Router) (message : KafkaMessage) : Prop :=
  (setup.parsed message.payload).isSome = true ∨
    setup.maxParseRetries ≤
      (router.parseAttempts.lookup (message.partitionId, message.offset)).getD 0 + 1

variable {setup : RouterSetup} {router : Router} {message : KafkaMessage}

/-- A well-formed message is ingested first. -/
theorem handleMessage_ingests (router : Router) {request : InferenceRequest}
    (parsed : setup.parsed message.payload = some request) (engineId : Text) :
    ∃ rest, handleMessage setup engineId router message = .call (.ingest request.requestId
      message.partitionId message.offset message.payload) rest := by
  unfold handleMessage handle
  rw [parsed]
  exact ⟨_, rfl⟩

/-- A malformed message is recorded as poison at its last attempt. -/
theorem handleMessage_poisons (malformed : setup.parsed message.payload = none)
    (records : router.Records setup message) (engineId : Text) :
    ∃ rest, handleMessage setup engineId router message = .call (.recordPoison
      message.partitionId message.offset message.payload "invalid_inference_request".toList)
        rest := by
  have last : ¬ (router.parseAttempts.lookup (message.partitionId, message.offset)).getD 0 + 1 <
      setup.maxParseRetries := by
    rcases records with some | last
    · rw [malformed] at some
      cases some
    · exact Nat.not_lt.mpr last
  unfold handleMessage handle
  rw [malformed]
  dsimp only
  rw [if_neg last]
  exact ⟨_, rfl⟩

/-- A malformed message with attempts left is let go without a call. -/
theorem handleMessage_drops (unrecorded : ¬ router.Records setup message) (engineId : Text) :
    ∃ later, handleMessage setup engineId router message = .done later := by
  have malformed : setup.parsed message.payload = none := by
    cases parsed : setup.parsed message.payload with
    | none => rfl
    | some request =>
        refine absurd (Or.inl ?_) unrecorded
        rw [parsed]
        rfl
  have left : (router.parseAttempts.lookup (message.partitionId, message.offset)).getD 0 + 1 <
      setup.maxParseRetries := Nat.lt_of_not_le fun last => unrecorded (Or.inr last)
  unfold handleMessage handle
  rw [malformed]
  dsimp only
  rw [if_pos left]
  exact ⟨_, rfl⟩

end Router

section Team

variable {κ : Type} [DecidableEq κ] {setup : RouterSetup} {log : ℤ → ℤ → Text}
  {routerId engineId : κ → Text}
  {config next : Team.Config κ (Cluster κ) RouterCall RouterCall.Answer Router}

/-- A step of the routers changes the store by one call at most. -/
theorem Router.team_store (step : (Router.team setup log routerId engineId).Step config next) :
    next.shared.store = config.shared.store ∨
      ∃ call, next.shared.store = (Store.object.respond call config.shared.store).2 := by
  cases step with
  | call member here answered => exact Cluster.Answers.store answered
  | again member here => exact Or.inl rfl
  | outside moved =>
      cases moved with
      | take | commit | commitFailed | consume | assign | revoke => exact Or.inl rfl
  | restart member failed =>
      cases failed
      exact Or.inl rfl

theorem Router.team_recorded {message : KafkaMessage}
    (step : (Router.team setup log routerId engineId).Step config next)
    (recorded : config.shared.store.Recorded setup message) :
    next.shared.store.Recorded setup message := by
  rcases Router.team_store step with same | ⟨call, written⟩
  · rw [same]
    exact recorded
  · rw [written]
    exact (Store.respond_step call _).recorded recorded

/-- When a router that records its message is done with it, under any interleaving
of what the others do meanwhile, the message is recorded. -/
theorem Router.recorded_when_done {initial : ℤ → ℤ} {member : κ} {router later : Router}
    {message : KafkaMessage}
    (reached : (Router.team setup log routerId engineId).Reachable (.start initial) config)
    (here : config.programs member = handleMessage setup (engineId member) router message)
    (records : router.Records setup message)
    (advances : Relation.ReflTransGen ((Router.team setup log routerId engineId).Advance member)
      config next)
    (finished : next.programs member = .done later) :
    next.shared.store.Recorded setup message := by
  cases parsed : setup.parsed message.payload with
  | none =>
      obtain ⟨rest, first⟩ := handleMessage_poisons parsed records (engineId member)
      refine Team.first_call_done (fun cluster => cluster.store.Recorded setup message) reached
        (here.trans first) (fun _ step => team_recorded step) ?_ advances finished
      rintro _ _ _ _ _ ⟨store, responded, rfl⟩
      have written : store = (_ : Store) := (congrArg Prod.snd responded).symm
      rw [written]
      exact Store.recordPoison_recorded _ message _
  | some request =>
      obtain ⟨rest, first⟩ := handleMessage_ingests router parsed (engineId member)
      refine Team.first_call_done (fun cluster => cluster.store.Recorded setup message) reached
        (here.trans first) (fun _ step => team_recorded step) ?_ advances finished
      rintro before _ _ earlier waiting ⟨store, responded, rfl⟩
      have safe := ((Router.discipline setup log routerId engineId
        initial).disciplined_of_reachable Cluster.Safe.start earlier).1
      obtain ⟨known, facts, delivered, _⟩ := (Router.discipline setup log routerId engineId
        initial).call_allowed Cluster.Safe.start earlier waiting
      have written : store = (_ : Store) := (congrArg Prod.snd responded).symm
      rw [written]
      exact Store.ingest_recorded safe.sourced parsed (facts _ delivered)

end Team

/-- No router drops a message it handles: when it is done with it, and whatever
follows, the message is recorded or queued. -/
def Router.NeverDrops {κ : Type} [DecidableEq κ] (setup : RouterSetup) (log : ℤ → ℤ → Text)
    (routerId engineId : κ → Text) (initial : ℤ → ℤ) (condition : Router → KafkaMessage → Prop) :
    Prop :=
  ∀ (config next afterwards : Team.Config κ (Cluster κ) RouterCall RouterCall.Answer Router)
    (member : κ) (router later : Router) (message : KafkaMessage),
    (Router.team setup log routerId engineId).Reachable (.start initial) config →
    config.programs member = handleMessage setup (engineId member) router message →
    condition router message →
    Relation.ReflTransGen ((Router.team setup log routerId engineId).Advance member) config next →
    next.programs member = .done later →
    Relation.ReflTransGen (Router.team setup log routerId engineId).Step next afterwards →
    afterwards.shared.Kept setup member message

/-- **Popped messages.** In every run, for every log and every number of parse
retries, a router drops no message that it records at once; any other it lets go
without a single call. -/
theorem popped_message_kept {κ : Type} [DecidableEq κ] (setup : RouterSetup) (log : ℤ → ℤ → Text)
    (routerId engineId : κ → Text) (initial : ℤ → ℤ) :
    Router.NeverDrops setup log routerId engineId initial (Router.Records setup) ∧
    ∀ (router : Router) (message : KafkaMessage) (engine : Text),
      ¬ router.Records setup message →
      ∃ later, router.handleMessage setup engine message = .done later := by
  refine ⟨?_, fun router message engine unrecorded => Router.handleMessage_drops unrecorded engine⟩
  intro config next afterwards member router later message reached here records advances finished
    follows
  refine Or.inl ?_
  induction follows with
  | refl => exact Router.recorded_when_done reached here records advances finished
  | tail _ step ih => exact Router.team_recorded step ih

namespace Solo

/-- Every message is malformed. -/
abbrev malformed (maxParseRetries : ℕ) :
    Team Unit (Cluster Unit) RouterCall RouterCall.Answer Router :=
  Router.team { parse := fun _ => none, maxParseRetries } (fun _ _ => ['m']) (fun _ => ['a'])
    fun _ => ['e']

/-- The router has popped the message at offset 0 of its partition. -/
theorem malformed_popped (maxParseRetries : ℕ) : ∃ cluster,
    (malformed maxParseRetries).Reachable (.start fun _ => 0)
      ⟨cluster, fun _ => Router.handleMessage { parse := fun _ => none, maxParseRetries } ['e']
        { epochs := (∅ : AList fun _ : ℤ => ℕ).insert 0 1 } ⟨['m'], 0, 0⟩⟩ ∧
      cluster.store = Store.object.run [.acquirePartition 0 ['a']] .empty ∧
      (cluster.pollers ()).messages = [] := by
  have started : (malformed maxParseRetries).Reachable (.start fun _ => 0)
    ⟨.start fun _ => 0, fun _ =>
      Router.turn { parse := fun _ => none, maxParseRetries } ['a'] ['e'] {}⟩ := .refl
  have assigned := started.tail (.outside (.assign () [0] rfl))
  have notified := Team.call_alone assigned (some ⟨.assigned, [0]⟩) ⟨rfl, rfl⟩
  have acquired := Team.call_alone notified 1 (Solo.writes rfl)
  have recovered := Team.call_alone acquired [] ⟨by decide +kernel, rfl⟩
  have delivered := (Team.again_alone recovered).tail
    (.outside (@Cluster.Polls.consume _ _ _ _ () 0 0 rfl rfl))
  have undisturbed := Team.call_alone delivered none ⟨rfl, rfl⟩
  have popped := Team.call_alone undisturbed (some ⟨['m'], 0, 0⟩) ⟨rfl, rfl⟩
  exact ⟨_, Team.call_alone popped true ⟨rfl, rfl⟩, rfl, rfl⟩

end Solo

open Solo in
/-- A router that allows one attempt records the message, also when its relay does not
publish the record. -/
theorem popped_message_kept_poisoned :
    ∃ (config final : Team.Config Unit (Cluster Unit) RouterCall RouterCall.Answer Router)
      (router later : Router),
      (malformed 1).Reachable (.start fun _ => 0) config ∧
      config.programs () = Router.handleMessage { parse := fun _ => none, maxParseRetries := 1 }
        ['e'] router ⟨['m'], 0, 0⟩ ∧
      router.Records { parse := fun _ => none, maxParseRetries := 1 } ⟨['m'], 0, 0⟩ ∧
      Relation.ReflTransGen ((malformed 1).Advance ()) config final ∧
      final.programs () = .done later ∧
      final.shared.Kept { parse := fun _ => none, maxParseRetries := 1 } () ⟨['m'], 0, 0⟩ := by
  obtain ⟨⟨store, committed, pollers⟩, reached, isStore, _⟩ := malformed_popped 1
  dsimp only at isStore
  subst isStore
  let row : OutboxRow := ⟨1, dlqTopic, ['0', ':', '0'], encodeHex ['m'], 0, 0, false⟩
  let poisoned := Store.object.run [.acquirePartition 0 ['a'],
    .recordPoison 0 0 ['m'] "invalid_inference_request".toList] .empty
  have isRow : poisoned.fetchUnpublished 1000 = [row] := by decide +kernel
  have unpublished : poisoned.isSourcePublished 0 0 = false := by decide +kernel
  have records : Router.Records { parse := fun _ => none, maxParseRetries := 1 }
      { epochs := (∅ : AList fun _ : ℤ => ℕ).insert 0 1 } ⟨['m'], 0, 0⟩ := by
    right
    decide
  have recorded := Relation.ReflTransGen.single (@Team.Advance.own _ _ _ _ _ _ (malformed 1) () _ _
    (fun _ => Router.handleMessage { parse := fun _ => none, maxParseRetries := 1 } ['e']
      { epochs := (∅ : AList fun _ : ℤ => ℕ).insert 0 1 } ⟨['m'], 0, 0⟩) _ _ true rfl
    (@writes ⟨Store.object.run [.acquirePartition 0 ['a']] .empty, committed, pollers⟩ _ _ rfl))
  have fetched := recorded.tail (@Team.Advance.own _ _ _ _ _ _ (malformed 1) () _ _ _ _ _ [row] rfl
    ⟨isRow.symm, rfl⟩)
  have unsent := fetched.tail (@Team.Advance.own _ _ _ _ _ _ (malformed 1) () _ _ _ _ _ false rfl
    rfl)
  have asked := unsent.tail (@Team.Advance.own _ _ _ _ _ _ (malformed 1) () _ _ _ _ _ false rfl
    ⟨unpublished.symm, rfl⟩)
  exact ⟨_, _, _, _, reached, rfl, records, asked, rfl,
    (popped_message_kept _ _ _ _ _).1 _ _ _ () _ _ _ reached rfl records asked rfl .refl⟩

open Solo in
/-- A router with the default three attempts pops the malformed message at offset 0
of its partition: it goes on with no record of it and with an empty queue. -/
theorem popped_message_dropped :
    ¬ Router.NeverDrops { parse := fun _ => none } (fun _ _ => ['m']) (fun _ : Unit => ['a'])
      (fun _ => ['e']) (fun _ => 0) fun _ _ => True := by
  intro kept
  obtain ⟨cluster, reached, isStore, emptied⟩ := malformed_popped 3
  rcases kept _ _ _ () _ _ ⟨['m'], 0, 0⟩ reached rfl trivial .refl rfl .refl with
    (⟨request, parsed, _⟩ | poisoned) | queued
  · cases parsed
  · rw [isStore] at poisoned
    exact absurd poisoned (by decide +kernel)
  · rw [emptied] at queued
    cases queued

/-! ### Release of offsets -/

namespace Store

/-- The outbox has a row of this source position. -/
def HasSource (store : Store) (sourcePartition sourceOffset : ℤ) : Prop :=
  ∃ row ∈ store.outbox, row.sourcePartition = sourcePartition ∧ row.sourceOffset = sourceOffset

theorem hasSource_markPublished (store : Store) (outboxId : ℕ) (sourcePartition sourceOffset : ℤ) :
    (store.markPublished outboxId).HasSource sourcePartition sourceOffset ↔
      store.HasSource sourcePartition sourceOffset := by
  unfold HasSource markPublished
  constructor
  · rintro ⟨row, member, source⟩
    obtain ⟨before, isBefore, rfl⟩ := List.mem_map.mp member
    refine ⟨before, isBefore, ?_⟩
    split at source
    · exact source
    · exact source
  · rintro ⟨row, member, source⟩
    refine ⟨_, List.mem_map_of_mem member, ?_⟩
    split
    · exact source
    · exact source

/-- A terminal request is known, so ingesting it again changes nothing. -/
theorem ingest_terminal {store : Store} {requestId : Text}
    (terminal : store.isTerminal requestId = true) (sourcePartition sourceOffset : ℤ)
    (rawPayload : Text) :
    store.ingest requestId sourcePartition sourceOffset rawPayload = (false, store) := by
  have known : requestId ∈ store.inferenceRequests := by
    rw [← AList.lookup_isSome]
    unfold isTerminal at terminal
    split at terminal
    · cases terminal
    · next found => rw [found]; rfl
  exact if_pos (Or.inl known)

end Store

namespace Router

open Program

variable {κ : Type} [DecidableEq κ] {member : κ} {cluster final : Cluster κ}
  {message : KafkaMessage} {trace : List RouterCall}

/-- The relay makes only its own calls and leaves the source positions alone. -/
theorem publishBatch_runs {limit count : ℕ}
    (runs : Runs (Cluster.Answers member) cluster (publishBatch limit) trace count final) :
    (∀ sourcePartition sourceOffset, final.store.HasSource sourcePartition sourceOffset ↔
      cluster.store.HasSource sourcePartition sourceOffset) ∧
    ∀ operation ∈ trace, ∃ call, operation = .relay call := by
  refine Runs.of_lift (fun before after => ∀ sourcePartition sourceOffset,
    after.store.HasSource sourcePartition sourceOffset ↔
      before.store.HasSource sourcePartition sourceOffset) ?_ ?_ ?_ runs
  · exact fun _ _ _ => Iff.rfl
  · intro one two three first second sourcePartition sourceOffset
    exact (second _ _).trans (first _ _)
  · intro before call answer after answered sourcePartition sourceOffset
    cases call with
    | fetchUnpublished limit =>
        obtain ⟨_, rfl⟩ := answered
        exact Iff.rfl
    | publish record =>
        cases answered
        exact Iff.rfl
    | markPublished outboxId =>
        obtain ⟨store, responded, rfl⟩ := answered
        have written : store = before.store.markPublished outboxId :=
          (congrArg Prod.snd responded).symm
        rw [written]
        exact before.store.hasSource_markPublished outboxId _ _

/-- A position is marked exactly when it is settled after the relay has run. -/
theorem publishAndMark_runs {marked : Bool}
    (runs : Runs (Cluster.Answers member) cluster (publishAndMark message) trace marked final) :
    (∀ sourcePartition sourceOffset, final.store.HasSource sourcePartition sourceOffset ↔
      cluster.store.HasSource sourcePartition sourceOffset) ∧
    (RouterCall.markPublishComplete message.partitionId message.offset ∈ trace ↔
      final.store.Settled message.partitionId message.offset) := by
  obtain ⟨relayed, asked, middle, count, rfl, published, rest⟩ := runs.split
  obtain ⟨sources, relays⟩ := publishBatch_runs published
  obtain ⟨settled, after, later, ⟨read, rfl⟩, rfl, ends⟩ := Runs.of_perform rest
  have notRelayed :
      RouterCall.markPublishComplete message.partitionId message.offset ∉ relayed := by
    intro called
    obtain ⟨call, isRelay⟩ := relays _ called
    cases isRelay
  have isSettled : settled = true ↔ after.store.Settled message.partitionId message.offset := by
    rw [read]
    exact after.store.isSourcePublished_iff _ _
  cases settled with
  | true =>
      obtain ⟨_, marking, _, rfl, rfl, finished⟩ := Runs.of_perform ends
      cases finished
      refine ⟨sources, iff_of_true ?_ (isSettled.mp rfl)⟩
      exact List.mem_append_right _ (List.mem_cons_of_mem _ List.mem_cons_self)
  | false =>
      cases ends
      refine ⟨sources, iff_of_false ?_ fun holds => Bool.false_ne_true (isSettled.mpr holds)⟩
      intro called
      rcases List.mem_append.mp called with inRelay | isQuestion
      · exact notRelayed inRelay
      · cases List.mem_singleton.mp isQuestion

/-- Handling a message of a terminal request ingests it in vain, asks for its
state, and then publishes and marks. -/
theorem handleMessage_terminal {setup : RouterSetup} {engineId : Text} {router later : Router}
    {request : InferenceRequest} (parsed : setup.parsed message.payload = some request)
    (terminal : cluster.store.isTerminal request.requestId = true)
    (runs : Runs (Cluster.Answers member) cluster (handleMessage setup engineId router message)
      trace later final) :
    ∃ published marked, Runs (Cluster.Answers member) cluster (publishAndMark message) published
        marked final ∧
      trace = .ingest request.requestId message.partitionId message.offset message.payload ::
        .isTerminal request.requestId :: published := by
  have whole : setup.parse message.payload = some request := (Option.filter_eq_some_iff.mp parsed).1
  unfold handleMessage handle at runs
  rw [parsed] at runs
  obtain ⟨inserted, after, asked, ⟨store, responded, rfl⟩, rfl, rest⟩ := Runs.of_perform runs
  have vain := Store.ingest_terminal terminal message.partitionId message.offset message.payload
  change Prod.map Store.Response.accepted id (cluster.store.ingest request.requestId
    message.partitionId message.offset message.payload) = _ at responded
  rw [vain] at responded
  cases responded
  simp only [Bool.false_eq_true, ↓reduceIte, whole] at rest
  obtain ⟨isFinal, same, published, ⟨read, rfl⟩, rfl, decided⟩ := Runs.of_perform rest
  have isTrue : isFinal = true := read.trans terminal
  rw [isTrue] at decided
  obtain ⟨first, last, middle, marked, rfl, ran, finished⟩ := decided.split
  cases finished
  refine ⟨first, marked, ran, ?_⟩
  rw [List.append_nil]

end Router

/-- **Release of a terminal request.** Whatever is in the store, handling a message
of a terminal request, whose rows are all published after the relay has run, marks
its position exactly when the outbox has a row of that position. -/
theorem terminal_released_iff {κ : Type} [DecidableEq κ] {cluster final : Cluster κ}
    {setup : RouterSetup} {member : κ} {engineId : Text} {router later : Router}
    {message : KafkaMessage} {request : InferenceRequest} {trace : List RouterCall}
    (parsed : setup.parsed message.payload = some request)
    (terminal : cluster.store.isTerminal request.requestId = true)
    (runs : Program.Runs (Cluster.Answers member) cluster
      (router.handleMessage setup engineId message) trace later final)
    (published : ∀ row ∈ final.store.outbox, row.sourcePartition = message.partitionId →
      row.sourceOffset = message.offset → row.published = true) :
    RouterCall.markPublishComplete message.partitionId message.offset ∈ trace ↔
      cluster.store.HasSource message.partitionId message.offset := by
  obtain ⟨relayed, marked, ran, rfl⟩ := Router.handleMessage_terminal parsed terminal runs
  obtain ⟨sources, settled⟩ := Router.publishAndMark_runs ran
  have inRelayed : RouterCall.markPublishComplete message.partitionId message.offset ∈
      RouterCall.ingest request.requestId message.partitionId message.offset message.payload ::
        .isTerminal request.requestId :: relayed ↔
      RouterCall.markPublishComplete message.partitionId message.offset ∈ relayed := by
    simp only [List.mem_cons, reduceCtorEq, false_or]
  rw [inRelayed, settled, ← sources]
  exact and_iff_left published

namespace Solo

/-- The request `x` of offset 5 is completed and its result is published. -/
def released : Cluster Unit :=
  ⟨Store.object.run [.acquirePartition 0 ['a'], .ingest ['x'] 0 5 ['x'],
    .assignAttempt ['x'] 0 1 ['e'], .finalize ['x'] ⟨0, 1, 1, ['e']⟩ ['r'], .markPublished 1]
    .empty, fun _ => 0, fun _ => {}⟩

/-- A router asks whether the position of the request is published, after it has
found the request terminal and the outbox drained. -/
theorem released_asked {offset : ℤ} {settled : Bool} {trace : List RouterCall}
    {final : Cluster Unit} (read : settled = released.store.isSourcePublished 0 offset)
    (ends : Program.Runs (Cluster.Answers ()) released
      (if settled then Program.perform (.markPublishComplete 0 offset) >>= fun _ => pure {}
        else pure {}) trace ({} : Router) final) :
    Program.Runs (Cluster.Answers ()) released
      (Router.handleMessage setup ['e'] {} ⟨['x'], 0, offset⟩)
      (.ingest ['x'] 0 offset ['x'] :: .isTerminal ['x'] :: .relay (.fetchUnpublished 1000) ::
        .isSourcePublished 0 offset :: trace) {} final := by
  have vain : released.Answers () (.ingest ['x'] 0 offset ['x']) false released := ⟨_, rfl, rfl⟩
  have terminal : released.Answers () (.isTerminal ['x']) true released := ⟨by decide +kernel, rfl⟩
  have drained : released.Answers () (.relay (.fetchUnpublished 1000)) [] released :=
    ⟨by decide +kernel, rfl⟩
  have asked : released.Answers () (.isSourcePublished 0 offset) settled released := ⟨read, rfl⟩
  refine .call vain (.call terminal (.call drained (.call asked ?_)))
  cases settled with
  | true => exact ends
  | false => exact ends

end Solo

open Solo in
/-- The message the request came with is marked when it is delivered again. -/
theorem terminal_released_again :
    ∃ trace later final, Program.Runs (Cluster.Answers ()) released
        (Router.handleMessage setup ['e'] {} ⟨['x'], 0, 5⟩) trace later final ∧
      RouterCall.markPublishComplete 0 5 ∈ trace := by
  have marks : released.Answers () (.markPublishComplete 0 5) () _ := rfl
  have handled := @released_asked 5 true _ _ (by decide +kernel) (.call marks (.done _ _))
  refine ⟨_, _, _, handled, (terminal_released_iff rfl (by decide +kernel) handled ?_).mpr ?_⟩
  · decide +kernel
  · exact ⟨⟨1, resultsTopic, ['x'], ['r'], 0, 5, true⟩, by decide +kernel, rfl, rfl⟩

open Solo in
/-- The same request comes a second time at offset 6. It is terminal and nothing is
left to publish, but its position is not marked: the only outbox row has offset
5. -/
theorem terminal_never_released :
    ¬ ∀ (calls : List Store.Call) (cluster final : Cluster Unit) (router later : Router)
      (message : KafkaMessage) (request : InferenceRequest) (trace : List RouterCall),
      cluster.store = Store.object.run calls .empty →
      setup.parsed message.payload = some request →
      cluster.store.isTerminal request.requestId = true →
      Program.Runs (Cluster.Answers ()) cluster (router.handleMessage setup ['e'] message) trace
        later final →
      (∀ row ∈ final.store.outbox, row.published = true) →
      RouterCall.markPublishComplete message.partitionId message.offset ∈ trace := by
  intro marks
  have handled := @released_asked 6 false _ _ (by decide +kernel) (.done _ _)
  have marked := marks _ _ _ _ _ ⟨['x'], 0, 6⟩ _ _ rfl rfl (by decide +kernel) handled
    (by decide +kernel)
  simp only [List.mem_cons, reduceCtorEq, List.not_mem_nil, or_self] at marked

end InferSched.Durable

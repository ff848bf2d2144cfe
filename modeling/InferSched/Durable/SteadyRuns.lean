import InferSched.Durable.GrantedCalls
import InferSched.Durable.OrderlyQueues
import InferSched.Durable.PoisonRecords

/-! # A router that keeps up

On a log without malformed payloads and without requests that are in it twice, a router to
which nothing goes wrong takes care of every message before the next one, so its trackers
always stand right before the first message that is still queued. It has no rebalance, no
other router calls the store, its engine answers and the broker acknowledges; its poll thread
goes on between any two of its calls.

The poll threads do not touch the store, and the router does not look at its queue while it
handles a message, so its calls are answered as if they stood still (`Cluster.Shadows`).

A batch publishes 1000 rows at most. A router that starts behind more rows than that may not
find the row of its message published, and then lets the message go unmarked.
-/

namespace InferSched.Durable

open Library

/-! ### Turns and polls -/

/-- Every payload of the log is a request, and no two have the same id. -/
structure RouterSetup.Distinct (setup : RouterSetup) (log : ℤ → ℤ → Text) : Prop where
  parsed : ∀ partitionId offset, ∃ request, setup.parsed (log partitionId offset) = some request
  single : ∀ {firstPartition firstOffset secondPartition secondOffset : ℤ},
    (setup.parsed (log firstPartition firstOffset)).map InferenceRequest.requestId =
      (setup.parsed (log secondPartition secondOffset)).map InferenceRequest.requestId →
    firstPartition = secondPartition ∧ firstOffset = secondOffset

namespace Store

variable {setup : RouterSetup} {log : ℤ → ℤ → Text} {store : Store}

theorem Sourced.traced (sourced : store.Sourced setup log) (distinct : setup.Distinct log) :
    store.Traced := by
  intro out member _
  rcases sourced.rows out member with ⟨row, found, _, source⟩ | poisoned
  · exact ⟨row, found, source⟩
  · obtain ⟨request, parsed⟩ := distinct.parsed out.sourcePartition out.sourceOffset
    rw [sourced.poison _ _ poisoned] at parsed
    cases parsed

/-- The row of the request of a message can only be the message's own. -/
theorem Sourced.own (sourced : store.Sourced setup log) (distinct : setup.Distinct log)
    {message : KafkaMessage} {request : InferenceRequest}
    (parsed : setup.parsed message.payload = some request)
    (genuine : message.payload = log message.partitionId message.offset) {row : RequestRow}
    (found : store.inferenceRequests.lookup request.requestId = some row) :
    row.sourcePartition = message.partitionId ∧ row.sourceOffset = message.offset := by
  apply distinct.single
  rw [sourced.requests _ row found, ← genuine, parsed]
  rfl

end Store

section Steady

variable {κ : Type} [DecidableEq κ] {member : κ} {cluster next final : Cluster κ}
  {setup : RouterSetup} {log : ℤ → ℤ → Text} {initial : ℤ → ℤ} {router later : Router}

theorem Cluster.setPoller_self (cluster : Cluster κ) (member : κ) :
    cluster.setPoller member (cluster.pollers member) = cluster := by
  unfold Cluster.setPoller
  rw [Function.update_eq_self]

omit [DecidableEq κ] in
/-- Whether an epoch is current depends on the store alone. -/
theorem Cluster.current_of_store (same : next.store = cluster.store) {partitionId : ℤ}
    (current : router.Current cluster partitionId) : router.Current next partitionId := by
  unfold Router.Current
  rw [same]
  exact current

/-- The poll threads take a step, without a rebalance of this router. -/
def Cluster.Lull (log : ℤ → ℤ → Text) (member : κ) (cluster next : Cluster κ) : Prop :=
  cluster.Polls log next ∧ (next.pollers member).ownershipEvents = []

/-- The poll threads do not touch the store. -/
theorem Cluster.Lull.store_eq (lull : cluster.Lull log member next) :
    next.store = cluster.store := by
  cases lull.1 with
  | take | commit | commitFailed | consume | assign | revoke => rfl

/-- A step of the poll thread of some router, which may be this one. -/
theorem Cluster.drifts_setPoller {other : κ} {poller : KafkaPoller}
    (own : other = member → (cluster.pollers member).Drifts log poller) :
    (cluster.pollers member).Drifts log ((cluster.setPoller other poller).pollers member) := by
  unfold Cluster.setPoller
  dsimp only
  by_cases same : other = member
  · subst same
    rw [Function.update_self]
    exact own rfl
  · rw [Function.update_of_ne (Ne.symm same)]
    exact .still

/-- In a lull the poller of the router only drifts. -/
theorem Cluster.Lull.drifts (lull : cluster.Lull log member next) :
    (cluster.pollers member).Drifts log (next.pollers member) := by
  obtain ⟨polled, calm⟩ := lull
  cases polled with
  | take other idle =>
      refine Cluster.drifts_setPoller ?_
      rintro rfl
      exact .take
  | commit other here =>
      refine @Cluster.drifts_setPoller _ _ _ cluster _ other _ ?_
      rintro rfl
      exact .drop
  | commitFailed other =>
      refine Cluster.drifts_setPoller ?_
      rintro rfl
      exact .drop
  | consume other idle position =>
      refine Cluster.drifts_setPoller ?_
      rintro rfl
      exact .enqueue position
  | assign other partitions idle | revoke other partitions idle =>
      -- a rebalance of this router would have left it an event
      refine Cluster.drifts_setPoller ?_
      rintro rfl
      unfold Cluster.setPoller at calm
      dsimp only at calm
      rw [Function.update_self] at calm
      exact absurd calm (List.append_ne_nil_of_right_ne_nil _ (List.cons_ne_nil _ _))

/-- How a call is answered when nothing goes wrong, with what the poll threads do before the
next one. -/
def Cluster.GrantsAmid (log : ℤ → ℤ → Text) (member : κ) (cluster : Cluster κ)
    (operation : RouterCall) (answer : operation.Answer) (next : Cluster κ) : Prop :=
  ∃ answered, cluster.Grants member operation answer answered ∧
    Relation.ReflTransGen (Cluster.Lull log member) answered next

/-- An answer amid poll threads is one that the team allows. -/
theorem Cluster.GrantsAmid.answers {operation : RouterCall} {answer : operation.Answer}
    (granted : cluster.GrantsAmid log member operation answer next) :
    ∃ answered, cluster.Answers member operation answer answered ∧
      Relation.ReflTransGen (Cluster.Polls log) answered next := by
  obtain ⟨answered, called, moved⟩ := granted
  have polls : Cluster.Lull log member ≤ (Cluster.Polls log : Cluster κ → _) :=
    fun _ _ lull => lull.1
  exact ⟨answered, called.2, Relation.ReflTransGen.mono polls _ _ moved⟩

/-! ### The poll threads during a message -/

/-- While it handles a message, a router does not pop another one or an event, and marks no
other message. -/
def KafkaMessage.serving (message : KafkaMessage) :
    Program.Rules RouterCall RouterCall.Answer Empty where
  allowed _ operation := match operation with
    | .pop | .popOwnershipEvent => False
    | .markPublishComplete partitionId offset =>
        partitionId = message.partitionId ∧ offset = message.offset
    | _ => True
  learns _ _ := ∅
  mono _ allowed := allowed

namespace Router

open Program

variable {message : KafkaMessage} {known : Set Empty} {engineId : Text}

/-- The rules restrict none of the plain calls. -/
theorem serving_plain (facts : Set Empty) (call : RouterCall) (plain : call.Plain) :
    message.serving.allowed facts call := by
  cases call <;> trivial

theorem serving_publishAndMark :
    Within message.serving (fun _ _ => True) known (publishAndMark message) := by
  apply publishAndMark_within serving_plain
  · exact fun _ => within_lift (fun _ _ => trivial) _ fun _ _ _ => trivial
  · exact fun _ _ => ⟨rfl, rfl⟩

/-- A message is handled without a look at the queue behind it. -/
theorem serving_handleMessage :
    Within message.serving (fun _ _ => True) known
      (handleMessage setup engineId router message) := by
  apply handleMessage_within serving_plain
  · exact handle_within (fun _ => trivial) fun _ _ => trivial
  · exact fun _ => serving_publishAndMark
  · exact fun _ _ _ _ _ => execute_within serving_plain fun _ _ _ _ _ _ _ _ => trivial

end Router

/-- A cluster whose poll threads stand still, beside one whose poll threads go on since the
poller of the router was the one before. -/
structure Cluster.Shadows (member : κ) (message : KafkaMessage) (before : KafkaPoller)
    (frozen cluster : Cluster κ) : Prop where
  store : frozen.store = cluster.store
  owes : before.Owes message
  owned : (frozen.pollers member).assignedPartitions = before.assignedPartitions
  keeps : before.Keeps (cluster.pollers member)
  phase : frozen.pollers member = before ∧ (cluster.pollers member).Owes message ∨
    (frozen.pollers member).Passed message ∧ (cluster.pollers member).Orderly ∧
      (cluster.pollers member).Passed message

namespace Cluster.Shadows

variable {message : KafkaMessage} {before : KafkaPoller} {frozen : Cluster κ}

omit [DecidableEq κ] in
/-- A write is the same whether the poll threads stand still or not. -/
theorem writes (shadows : frozen.Shadows member message before cluster) {call : Store.Call}
    {response : Store.Response} (written : cluster.Writes call response next) :
    ∃ later, frozen.Writes call response later ∧ later.Shadows member message before next := by
  obtain ⟨store, responded, rfl⟩ := written
  refine ⟨{ frozen with store := store }, ⟨store, ?_, rfl⟩, ?_⟩
  · rw [shadows.store]
    exact responded
  · exact ⟨rfl, shadows.owes, shadows.owned, shadows.keeps, shadows.phase⟩

/-- So is the mark of the message. -/
theorem mark (shadows : frozen.Shadows member message before cluster) :
    (frozen.setPoller member ((frozen.pollers member).markPublishComplete message.partitionId
      message.offset)).Shadows member message before
        (cluster.setPoller member ((cluster.pollers member).markPublishComplete
          message.partitionId message.offset)) := by
  have own : ∀ (some : Cluster κ) poller, (some.setPoller member poller).pollers member = poller :=
    fun _ _ => Function.update_self ..
  refine ⟨shadows.store, shadows.owes, ?_, ?_, Or.inr ?_⟩
  · rw [own]
    exact ((KafkaPoller.Keeps.refl _).mark _ _).owned.trans shadows.owned
  · rw [own]
    exact shadows.keeps.mark _ _
  · rw [own, own]
    rcases shadows.phase with ⟨same, owes⟩ | ⟨frozenPassed, orderly, passed⟩
    · refine ⟨?_, owes.mark⟩
      rw [same]
      exact shadows.owes.mark.2
    · obtain ⟨frozenTrackers, _⟩ := frozenPassed.mark
      obtain ⟨trackers, positions, messages⟩ := passed.mark
      obtain ⟨frozenTracker, frozenFound, frozenReached⟩ := frozenPassed
      obtain ⟨tracker, found, reached⟩ := passed
      refine ⟨⟨frozenTracker, (frozenTrackers _).trans frozenFound, frozenReached⟩, ?_, ?_⟩
      · exact orderly.of_same trackers positions messages
      · exact ⟨tracker, (trackers _).trans found, reached⟩

/-- The cluster that stands still answers the same. -/
theorem call (shadows : frozen.Shadows member message before cluster) {known : Set Empty}
    {operation : RouterCall} {answer : operation.Answer}
    (allowed : message.serving.allowed known operation)
    (granted : cluster.Grants member operation answer next) :
    ∃ later, frozen.Grants member operation answer later ∧
      later.Shadows member message before next := by
  obtain ⟨isGranted, answered⟩ := granted
  have wrote : ∀ {call : Store.Call} {response : Store.Response},
      cluster.Writes call response next → ∃ later, (operation.Granted answer ∧
        frozen.Writes call response later) ∧ later.Shadows member message before next := by
    intro call response written
    obtain ⟨later, again, after⟩ := shadows.writes written
    exact ⟨later, ⟨isGranted, again⟩, after⟩
  cases operation with
  | popOwnershipEvent | pop => exact allowed.elim
  | owns partitionId =>
      obtain ⟨isAnswer, rfl⟩ := answered
      refine ⟨frozen, ⟨isGranted, isAnswer.trans ?_, rfl⟩, shadows⟩
      unfold KafkaPoller.owns
      rw [shadows.keeps.owned, shadows.owned]
  | markPublishComplete partitionId offset =>
      obtain ⟨rfl, rfl⟩ := allowed
      cases answered
      exact ⟨_, ⟨isGranted, rfl⟩, shadows.mark⟩
  | acquirePartition | assignAttempt | finalize | ingest | recordPoison => exact wrote answered
  | recoverUnresolved | isTerminal | isSourcePublished =>
      obtain ⟨isAnswer, rfl⟩ := answered
      refine ⟨frozen, ⟨isGranted, ?_, rfl⟩, shadows⟩
      rw [shadows.store]
      exact isAnswer
  | dispatch request fence =>
      cases answered
      exact ⟨frozen, ⟨isGranted, rfl⟩, shadows⟩
  | relay relayed =>
      cases relayed with
      | fetchUnpublished limit =>
          obtain ⟨isAnswer, rfl⟩ := answered
          refine ⟨frozen, ⟨isGranted, ?_, rfl⟩, shadows⟩
          rw [shadows.store]
          exact isAnswer
      | publish record =>
          cases answered
          exact ⟨frozen, ⟨isGranted, rfl⟩, shadows⟩
      | markPublished outboxId => exact wrote answered

/-- The shadow of a cluster is one after a lull too. -/
theorem lull (shadows : frozen.Shadows member message before cluster)
    (lull : cluster.Lull log member next) : frozen.Shadows member message before next where
  store := shadows.store.trans lull.store_eq.symm
  owes := shadows.owes
  owned := shadows.owned
  keeps := shadows.keeps.drifts lull.drifts
  phase := by
    rcases shadows.phase with ⟨same, owes⟩ | ⟨frozenPassed, orderly, passed⟩
    · exact Or.inl ⟨same, owes.drifts lull.drifts⟩
    · exact Or.inr ⟨frozenPassed, orderly.drifts lull.drifts, passed.drifts lull.drifts⟩

/-- Every call of a message is answered in the shadow as it is amid the poll threads. -/
theorem amid (shadows : frozen.Shadows member message before cluster) {known : Set Empty}
    {operation : RouterCall} {answer : operation.Answer}
    (allowed : message.serving.allowed known operation)
    (granted : cluster.GrantsAmid log member operation answer next) :
    ∃ later, frozen.Grants member operation answer later ∧
      later.Shadows member message before next := by
  obtain ⟨answered, called, moved⟩ := granted
  obtain ⟨later, again, here⟩ := shadows.call allowed called
  refine ⟨later, again, ?_⟩
  induction moved with
  | refl => exact here
  | tail _ step ih => exact ih.lull step

end Cluster.Shadows

/-- A message that a router handles while the poll threads go on. -/
theorem Router.handleMessage_amid {message : KafkaMessage} {request : InferenceRequest}
    {engineId : Text} {trace : List RouterCall}
    (runs : Program.Runs (Cluster.GrantsAmid log member) cluster
      (router.handleMessage setup engineId message) trace later final)
    (sourced : cluster.store.Sourced setup log) (finalized : cluster.store.Finalized)
    (distinct : setup.Distinct log) (light : cluster.store.backlog < 1000)
    (parsed : setup.parsed message.payload = some request)
    (genuine : message.payload = log message.partitionId message.offset)
    (current : router.Current cluster message.partitionId)
    (owns : (cluster.pollers member).owns message.partitionId = true)
    (owes : (cluster.pollers member).Owes message) :
    later.epochs = router.epochs ∧
      (∀ partitionId, final.store.epochOf partitionId = cluster.store.epochOf partitionId) ∧
      final.store.backlog = 0 ∧ (cluster.pollers member).Keeps (final.pollers member) ∧
      (final.pollers member).Orderly := by
  have here : cluster.Shadows member message (cluster.pollers member) cluster :=
    ⟨rfl, owes, rfl, .refl _, Or.inl ⟨rfl, owes⟩⟩
  have within : Program.Within message.serving (fun _ _ => True) ∅
      (router.handleMessage setup engineId message) := Router.serving_handleMessage
  obtain ⟨last, frozenRuns, shadows⟩ := runs.simulate
    (Cluster.Shadows member message (cluster.pollers member))
    (fun allowed shadows granted => shadows.amid allowed granted) within here
  obtain ⟨sameEpochs, store, rfl, epochs, drained⟩ := Router.handleMessage_granted frozenRuns
    sourced finalized (sourced.traced distinct) light parsed genuine
    (fun row found => sourced.own distinct parsed genuine found) current owns
  have sameStore : store = final.store := shadows.store
  subst sameStore
  refine ⟨sameEpochs, epochs, drained, shadows.keeps, ?_⟩
  rcases shadows.phase with ⟨same, _⟩ | ⟨_, orderly, _⟩
  · -- the poller that stands still has marked the message
    have marked : (cluster.pollers member).markPublishComplete message.partitionId
        message.offset = cluster.pollers member := (Function.update_self ..).symm.trans same
    have passed := owes.mark.2
    rw [marked] at passed
    exact absurd passed owes.not_passed
  · exact orderly

/-! ### Turns -/

/-- The router is up to date: it knows of every rebalance, has the current epochs of its
partitions and is not behind with publishing. Its queue has a property. -/
structure Router.Steady (router : Router) (cluster : Cluster κ) (member : κ)
    (queue : KafkaPoller → Prop) : Prop where
  calm : (cluster.pollers member).ownershipEvents = []
  light : cluster.store.backlog < 1000
  queue : queue (cluster.pollers member)
  serves : ∀ partitionId ∈ (cluster.pollers member).positions,
    (cluster.pollers member).owns partitionId = true ∧ router.Current cluster partitionId

/-- The poll threads leave the router up to date. -/
theorem Router.Steady.lulls {queue : KafkaPoller → Prop}
    (stable : ∀ {poller later : KafkaPoller}, queue poller → poller.Drifts log later → queue later)
    (steady : router.Steady cluster member queue)
    (moved : Relation.ReflTransGen (Cluster.Lull log member) cluster next) :
    router.Steady next member queue ∧ next.store = cluster.store := by
  induction moved with
  | refl => exact ⟨steady, rfl⟩
  | tail _ lull ih =>
      obtain ⟨before, sameStore⟩ := ih
      have keeps := (KafkaPoller.Keeps.refl _).drifts lull.drifts
      refine ⟨⟨lull.2, ?_, stable before.queue lull.drifts, ?_⟩, lull.store_eq.trans sameStore⟩
      · rw [lull.store_eq]
        exact before.light
      · intro partitionId listed
        obtain ⟨owns, current⟩ := before.serves partitionId (keeps.consumed partitionId listed)
        refine ⟨?_, Cluster.current_of_store lull.store_eq current⟩
        unfold KafkaPoller.owns
        rw [keeps.owned]
        exact owns

/-- A router that has taken a message off its queue and is up to date takes care of it. -/
theorem Router.Steady.serve {message : KafkaMessage} {engineId : Text} {trace : List RouterCall}
    (steady : router.Steady cluster member (KafkaPoller.Owes · message))
    (sourced : cluster.store.Sourced setup log) (finalized : cluster.store.Finalized)
    (distinct : setup.Distinct log)
    (genuine : message.payload = log message.partitionId message.offset)
    (runs : Program.Runs (Cluster.GrantsAmid log member) cluster (do
      let owned ← Program.perform (RouterCall.owns message.partitionId)
      if !owned then return router
      router.handleMessage setup engineId message) trace later final) :
    later.Steady final member KafkaPoller.Orderly := by
  obtain ⟨owned, asked, _, ⟨_, ⟨_, isOwned, rfl⟩, moved⟩, rfl, handles⟩ :=
    Program.Runs.of_perform runs
  have listed := steady.queue.listed message List.mem_cons_self
  have isTrue : owned = true := isOwned.trans (steady.serves _ listed).1
  subst isTrue
  obtain ⟨stillSteady, sameStore⟩ := steady.lulls KafkaPoller.Owes.drifts moved
  obtain ⟨request, parsed⟩ := distinct.parsed message.partitionId message.offset
  rw [← genuine] at parsed
  rw [← sameStore] at sourced finalized
  obtain ⟨owns, current⟩ := stillSteady.serves _
    (stillSteady.queue.listed message List.mem_cons_self)
  obtain ⟨sameEpochs, epochs, drained, keeps, orderly⟩ := Router.handleMessage_amid handles
    sourced finalized distinct stillSteady.light parsed genuine current owns stillSteady.queue
  refine ⟨keeps.events.trans stillSteady.calm, lt_of_eq_of_lt drained (by decide), orderly, ?_⟩
  intro partitionId consumed
  obtain ⟨stillOwns, epoch, hasEpoch, isCurrent⟩ :=
    stillSteady.serves partitionId (keeps.consumed partitionId consumed)
  refine ⟨?_, epoch, sameEpochs ▸ hasEpoch, (epochs partitionId).trans isCurrent⟩
  unfold KafkaPoller.owns
  rw [keeps.owned]
  exact stillOwns

/-- The message that is popped is then the one that the router owes. -/
theorem Router.Steady.pop {message : KafkaMessage} {others : List KafkaMessage}
    (steady : router.Steady cluster member KafkaPoller.Orderly)
    (first : (cluster.pollers member).messages = message :: others) :
    router.Steady (cluster.setPoller member { cluster.pollers member with messages := others })
      member (KafkaPoller.Owes · message) := by
  have own : (cluster.setPoller member
      { cluster.pollers member with messages := others }).pollers member =
        { cluster.pollers member with messages := others } := Function.update_self ..
  refine ⟨?_, steady.light, ?_, ?_⟩
  · rw [own]
    exact steady.calm
  · rw [own]
    exact steady.queue.of_same (fun _ => rfl) rfl first.symm
  · rw [own]
    exact steady.serves

/-- A lull keeps the positions of the cluster safe. -/
theorem Cluster.Safe.lulls (safe : cluster.Safe setup log initial)
    (moved : Relation.ReflTransGen (Cluster.Lull log member) cluster next) :
    next.Safe setup log initial := by
  induction moved with
  | refl => exact safe
  | tail _ lull ih => exact (ih.polls lull.1).1

/-- A turn in which nothing goes wrong leaves the router up to date. -/
theorem Router.Steady.turn {routerId engineId : Text} {trace : List RouterCall}
    (steady : router.Steady cluster member KafkaPoller.Orderly)
    (safe : cluster.Safe setup log initial) (finalized : cluster.store.Finalized)
    (distinct : setup.Distinct log)
    (runs : Program.Runs (Cluster.GrantsAmid log member) cluster
      (router.turn setup routerId engineId) trace later final) :
    later.Steady final member KafkaPoller.Orderly := by
  obtain ⟨event, told, _, ⟨_, ⟨_, isEvent, rfl⟩, moved⟩, rfl, afterEvent⟩ :=
    Program.Runs.of_perform runs
  have undisturbed : (cluster.pollers member).popOwnershipEvent =
      (none, cluster.pollers member) := by
    unfold KafkaPoller.popOwnershipEvent
    rw [steady.calm]
    congr 1
    rw [show [].tail = (cluster.pollers member).ownershipEvents from steady.calm.symm]
  rw [undisturbed] at isEvent moved
  have isNone : event = none := isEvent
  subst isNone
  rw [Cluster.setPoller_self] at moved
  obtain ⟨calmed, sameStore⟩ := steady.lulls KafkaPoller.Orderly.drifts moved
  obtain ⟨popped, asked, _, ⟨_, ⟨_, isPopped, rfl⟩, drifted⟩, rfl, rest⟩ :=
    Program.Runs.of_perform afterEvent
  cases queue : (told.pollers member).messages with
  | nil =>
      have empty : (told.pollers member).pop = (none, told.pollers member) := by
        unfold KafkaPoller.pop
        rw [queue]
        congr 1
        rw [show [].tail = (told.pollers member).messages from queue.symm]
      rw [empty] at isPopped drifted
      have isNone : popped = none := isPopped
      subst isNone
      rw [Cluster.setPoller_self] at drifted
      cases rest
      exact (calmed.lulls KafkaPoller.Orderly.drifts drifted).1
  | cons message others =>
      have taken : (told.pollers member).pop =
          (some message, { told.pollers member with messages := others }) := by
        unfold KafkaPoller.pop
        rw [queue]
        rfl
      rw [taken] at isPopped drifted
      have isMessage : popped = some message := isPopped
      subst isMessage
      have toldSafe := safe.lulls moved
      have genuine := (toldSafe.pollers member).messages message
        (by rw [queue]; exact List.mem_cons_self)
      obtain ⟨holding, keptStore⟩ := (calmed.pop queue).lulls KafkaPoller.Owes.drifts drifted
      have isStore : asked.store = cluster.store := keptStore.trans sameStore
      exact holding.serve (isStore ▸ safe.sourced) (isStore ▸ finalized) distinct genuine rest

/-! ### Runs -/

/-- What happens while nothing goes wrong for a router: the poll threads move without a
rebalance of this one, or it takes a turn, in which they move as well. -/
inductive Router.Smooth (setup : RouterSetup) (log : ℤ → ℤ → Text) (routerId engineId : κ → Text)
    (member : κ) : Router × Cluster κ → Router × Cluster κ → Prop
  | lull {router : Router} {cluster next : Cluster κ} (lull : cluster.Lull log member next) :
      Smooth setup log routerId engineId member (router, cluster) (router, next)
  | turn {router later : Router} {cluster final : Cluster κ} {trace : List RouterCall}
      (runs : Program.Runs (Cluster.GrantsAmid log member) cluster
        (router.turn setup (routerId member) (engineId member)) trace later final) :
      Smooth setup log routerId engineId member (router, cluster) (later, final)

variable {routerId engineId : κ → Text}
  {config : Team.Config κ (Cluster κ) RouterCall RouterCall.Answer Router}

/-- A run in which nothing goes wrong is one of the team, and the router stays up to date. -/
theorem Router.Steady.run (distinct : setup.Distinct log)
    (reached : (Router.team setup log routerId engineId).Reachable (.start initial) config)
    (idle : config.programs member = .done router)
    (steady : router.Steady config.shared member KafkaPoller.Orderly)
    {last : Router × Cluster κ} (run : Relation.ReflTransGen
      (Router.Smooth setup log routerId engineId member) (router, config.shared) last) :
    last.1.Steady last.2 member KafkaPoller.Orderly ∧ ∃ next,
      (Router.team setup log routerId engineId).Reachable (.start initial) next ∧
      next.shared = last.2 ∧ next.programs member = .done last.1 := by
  induction run with
  | refl => exact ⟨steady, config, reached, rfl, idle⟩
  | tail _ step ih =>
      obtain ⟨stillSteady, ⟨shared, programs⟩, here, isShared, waiting⟩ := ih
      cases step with
      | lull lull =>
          cases isShared
          exact ⟨(stillSteady.lulls KafkaPoller.Orderly.drifts (.single lull)).1, _,
            here.tail (.outside lull.1), rfl, waiting⟩
      | turn runs =>
          cases isShared
          have safe := ((Router.discipline setup log routerId engineId
            initial).disciplined_of_reachable Cluster.Safe.start here).1
          refine ⟨stillSteady.turn safe (Router.finalized_of_reachable here) distinct runs, ?_⟩
          have started := here.tail (.again member waiting)
          have amid := runs.mono fun _ _ _ _ => Cluster.GrantsAmid.answers
          obtain ⟨next, steps, isFinal, finished⟩ :=
            @Team.steps_of_runs _ _ _ _ _ _ (Router.team setup log routerId engineId) _ _ _ _ _ _
              amid ⟨shared, Function.update programs member _⟩ rfl (Function.update_self ..)
          exact ⟨next, started.trans steps, isFinal, finished⟩

end Steady

/-- **A router keeps up.** On a log in which every payload is a request and no id is twice, take
any configuration that routers can reach in which one of them is up to date, and let it go on
without a rebalance and without calls of other routers, its dispatches answered and its
publications acknowledged. However its calls and the poll threads interleave, between two turns
the offsets its consumer has passed are queued or published, and the tracker of a partition is
as far behind the consumer as the queue is long. -/
theorem keeps_up {κ : Type} [DecidableEq κ] {setup : RouterSetup} {log : ℤ → ℤ → Text}
    {routerId engineId : κ → Text} {initial : ℤ → ℤ} (distinct : setup.Distinct log)
    {config : Team.Config κ (Cluster κ) RouterCall RouterCall.Answer Router}
    (reached : (Router.team setup log routerId engineId).Reachable (.start initial) config)
    {member : κ} {router later : Router} {final : Cluster κ}
    (idle : config.programs member = .done router)
    (steady : router.Steady config.shared member KafkaPoller.Orderly)
    (run : Relation.ReflTransGen (Router.Smooth setup log routerId engineId member)
      (router, config.shared) (later, final))
    {partitionId position : ℤ}
    (consumes : (final.pollers member).positions.lookup partitionId = some position) :
    (∀ offset, initial partitionId ≤ offset → offset < position →
      offset ∈ (final.pollers member).queued partitionId ∨
        final.store.Settled partitionId offset) ∧
    ∀ tracker, (final.pollers member).trackers.lookup partitionId = some tracker →
      tracker.completed = ∅ ∧
      tracker.committedOffset + ((final.pollers member).queued partitionId).length + 1 =
        position := by
  obtain ⟨stillSteady, next, here, rfl, _⟩ := steady.run distinct reached idle run
  have safe := ((Router.discipline setup log routerId engineId
    initial).disciplined_of_reachable Cluster.Safe.start here).1
  have consecutive := stillSteady.queue.queue partitionId position consumes
  unfold KafkaPoller.frontier at consecutive
  constructor
  · intro offset first last
    rcases (safe.pollers member).positions partitionId position consumes with tracked | before
    · obtain ⟨tracker, found⟩ := Option.isSome_iff_exists.mp (AList.lookup_isSome.mpr tracked)
      rw [found] at consecutive
      have covers := (safe.pollers member).trackers partitionId tracker found
      by_cases marked : offset ≤ tracker.committedOffset
      · exact Or.inr (covers.committed offset first marked)
      · exact Or.inl (consecutive.mem (Int.add_one_le_of_lt (not_le.mp marked)) last)
    · exact Or.inr (before offset first last)
  · intro tracker found
    rw [found] at consecutive
    have distance : tracker.committedOffset + 1 +
        (((next.shared.pollers member).queued partitionId).length : ℤ) = position :=
      consecutive.length_eq
    exact ⟨stillSteady.queue.whole partitionId tracker found, by omega⟩

namespace Solo

/-- Every position has a payload of its own. -/
def numbered (partitionId offset : ℤ) : Text :=
  'r' :: Store.deadLetterKey partitionId offset

theorem distinct_numbered : setup.Distinct numbered where
  parsed partitionId offset := ⟨⟨numbered partitionId offset, [], []⟩, rfl⟩
  single same :=
    Store.deadLetterKey_injective (List.cons.inj (Option.some.inj same)).2

/-- A router that was assigned partition 0 has acquired it. -/
def ready : Cluster Unit where
  store := Store.object.run [.acquirePartition 0 ['a']] .empty
  committed _ := 0
  pollers _ := { assignedPartitions := [0], positions := .insert 0 0 ∅ }

/-- What the router keeps then. -/
def readyRouter : Router := { epochs := .insert 0 1 ∅ }

theorem reachable_ready :
    (Router.team setup numbered (fun _ : Unit => ['a']) fun _ => ['e']).Reachable
      (.start fun _ => 0) ⟨ready, fun _ => .done readyRouter⟩ := by
  have started : (Router.team setup numbered (fun _ : Unit => ['a']) fun _ => ['e']).Reachable
      (.start fun _ => 0) ⟨.start fun _ => 0, fun _ => Router.turn setup ['a'] ['e'] {}⟩ := .refl
  have assigned := started.tail (.outside (.assign () [0] rfl))
  have notified := Team.call_alone assigned (some ⟨.assigned, [0]⟩) ⟨rfl, rfl⟩
  have acquired := Team.call_alone notified 1 (writes rfl)
  exact Team.call_alone acquired [] ⟨by decide +kernel, rfl⟩

theorem steady_ready : readyRouter.Steady ready () KafkaPoller.Orderly := by
  have alone : ∀ partitionId position : ℤ,
      ((∅ : AList fun _ : ℤ => ℤ).insert 0 0).lookup partitionId = some position →
      partitionId = 0 ∧ position = 0 := by
    intro partitionId position found
    by_cases same : partitionId = 0
    · subst same
      rw [AList.lookup_insert] at found
      exact ⟨rfl, (Option.some.inj found).symm⟩
    · rw [AList.lookup_insert_ne same] at found
      cases found
  refine ⟨rfl, by decide +kernel, ⟨?_, ?_, ?_⟩, ?_⟩
  · exact fun _ member => absurd member List.not_mem_nil
  · intro partitionId tracker found
    cases found
  · intro partitionId position found
    obtain ⟨rfl, rfl⟩ := alone partitionId position found
    rfl
  · intro partitionId listed
    obtain ⟨position, found⟩ := Option.isSome_iff_exists.mp (AList.lookup_isSome.mpr listed)
    obtain ⟨rfl, rfl⟩ := alone partitionId position found
    exact ⟨rfl, 1, rfl, rfl⟩

/-- The message of offset 0. -/
def firstMessage : KafkaMessage := ⟨numbered 0 0, 0, 0⟩

/-- Served as usual, the router comes from one point of its program to another. -/
def Proceeds (start : Cluster Unit) (program : RouterProgram Router) (cluster : Cluster Unit)
    (rest : RouterProgram Router) : Prop :=
  ∀ trace later final,
    Program.Runs (Cluster.GrantsAmid numbered ()) cluster rest trace later final →
      ∃ whole, Program.Runs (Cluster.GrantsAmid numbered ()) start program whole later final

theorem Proceeds.call {start cluster next : Cluster Unit} {program : RouterProgram Router}
    {operation : RouterCall} {rest : operation.Answer → RouterProgram Router}
    (here : Proceeds start program cluster (.call operation rest)) (answer : operation.Answer)
    (granted : cluster.Grants () operation answer next) :
    Proceeds start program next (rest answer) :=
  fun _ _ _ runs => here _ _ _ (.call ⟨next, granted, .refl⟩ runs)

end Solo

open Solo in
/-- A router that has acquired its partition consumes one message and serves it in a turn: the
queue is empty again and the tracker has reached the message. -/
theorem keeps_up_first :
    ∃ (later : Router) (final : Cluster Unit),
      Relation.ReflTransGen (Router.Smooth setup numbered (fun _ => ['a']) (fun _ => ['e']) ())
        (readyRouter, ready) (later, final) ∧
      (final.pollers ()).messages = [] ∧ final.store.Settled 0 0 ∧
      ∃ tracker, (final.pollers ()).trackers.lookup 0 = some tracker ∧
        tracker.committedOffset = 0 := by
  have delivered : Router.Smooth setup numbered (fun _ => ['a']) (fun _ => ['e']) ()
      (readyRouter, ready) (readyRouter, ready.setPoller () ((ready.pollers ()).enqueue
        firstMessage)) :=
    .lull ⟨.consume () rfl rfl, rfl⟩
  have begun : Proceeds (ready.setPoller () ((ready.pollers ()).enqueue firstMessage))
      (readyRouter.turn setup ['a'] ['e']) (ready.setPoller () ((ready.pollers ()).enqueue
        firstMessage)) (readyRouter.turn setup ['a'] ['e']) := fun trace _ _ runs => ⟨trace, runs⟩
  have undisturbed := begun.call none ⟨trivial, rfl, rfl⟩
  have popped := undisturbed.call (some firstMessage) ⟨trivial, rfl, rfl⟩
  have owned := popped.call true ⟨trivial, rfl, rfl⟩
  have ingested := owned.call true ⟨trivial, writes rfl⟩
  have unresolved := ingested.call false ⟨trivial, by decide +kernel, rfl⟩
  have stillOwned := unresolved.call true ⟨trivial, rfl, rfl⟩
  have attempted := stillOwned.call (some ⟨⟨0, 1, 1, ['e']⟩, 1⟩)
    ⟨trivial, writes (by decide +kernel)⟩
  have answered := attempted.call ['x'] ⟨List.cons_ne_nil _ _, rfl⟩
  have finalized := answered.call true ⟨trivial, writes (by decide +kernel)⟩
  have fetched := finalized.call [⟨1, resultsTopic, numbered 0 0,
    resultEnvelope ⟨numbered 0 0, [], []⟩ ⟨0, 1, 1, ['e']⟩ ['x'], 0, 0, false⟩]
      ⟨trivial, by decide +kernel, rfl⟩
  have published := fetched.call true ⟨rfl, rfl⟩
  have marked := published.call () ⟨trivial, writes rfl⟩
  have settled := marked.call true ⟨trivial, by decide +kernel, rfl⟩
  have tracked := settled.call () ⟨trivial, rfl⟩
  obtain ⟨trace, runs⟩ := tracked _ _ _ (.done _ _)
  have run := (Relation.ReflTransGen.single delivered).tail (.turn runs)
  obtain ⟨served, tracks⟩ := @keeps_up _ _ _ _ _ _ _ distinct_numbered _ reachable_ready () _ _ _
    rfl steady_ready run 0 1 (by decide +kernel)
  refine ⟨_, _, run, rfl, ?_, ?_⟩
  · rcases served 0 le_rfl one_pos with queued | isSettled
    · exact absurd queued List.not_mem_nil
    · exact isSettled
  · exact ⟨_, rfl, add_right_cancel ((tracks _ rfl).2.trans (zero_add 1).symm)⟩

end InferSched.Durable

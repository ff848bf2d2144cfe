import InferSched.Durable.MessageHandling
import InferSched.Library.Tasks

/-! # Poison messages and their dead letters

`RecordPoison` writes a poison message under its source position and its dead
letter under a text made from that position. The two keys stay aligned
(`Store.DeadLettered`): the text determines the position, so the dead letter is
never withheld by the row of another one.

`ingestion` runs any number of ingestors on one store. The attempts of an ingestor
are counted for each position by itself, so the outcomes at a malformed position
repeat with the number of attempts as their period, whatever is handled between
them.
-/

namespace InferSched.Durable

open Library Program

/-! ### The two tables -/

/-- The source position a row was published for. -/
def OutboxRow.position (row : OutboxRow) : ℤ × ℤ := (row.sourcePartition, row.sourceOffset)

namespace Store

/-- The key of a dead letter. -/
def deadLetterKey (sourcePartition sourceOffset : ℤ) : Text :=
  signedDecimal sourcePartition ++ [':'] ++ signedDecimal sourceOffset

def deadLetters (store : Store) : List OutboxRow :=
  store.outbox.filter fun row => row.topic = dlqTopic

/-- The positions and payloads of the dead letters. -/
def deadLetterRecords (store : Store) : List ((ℤ × ℤ) × Text) :=
  store.deadLetters.map fun row => (row.position, row.payload)

/-- The positions of the poison messages, with their payloads encoded. -/
def poisonRecords (store : Store) : List ((ℤ × ℤ) × Text) :=
  store.poisonMessages.entries.map fun entry => (entry.1, encodeHex entry.2.rawPayload)

/-- The dead letters are those of the poison messages, each under its own key. -/
structure DeadLettered (store : Store) : Prop where
  matched : store.deadLetterRecords.Perm store.poisonRecords
  keyed : ∀ row ∈ store.deadLetters,
    row.messageKey = deadLetterKey row.sourcePartition row.sourceOffset

theorem colon_notMem_signedDecimal (value : ℤ) : ':' ∉ signedDecimal value := by
  intro member
  cases value with
  | ofNat value => cases isDigit_of_mem_decimal member
  | negSucc value =>
      rcases List.mem_cons.mp member with minus | digit
      · cases minus
      · cases isDigit_of_mem_decimal digit

theorem minus_notMem_decimal (value : ℕ) : '-' ∉ decimal value := by
  intro member
  cases isDigit_of_mem_decimal member

theorem signedDecimal_injective {first second : ℤ}
    (same : signedDecimal first = signedDecimal second) : first = second := by
  cases first with
  | ofNat first =>
      cases second with
      | ofNat second => rw [decimal_injective same]
      | negSucc second =>
          apply absurd _ (minus_notMem_decimal first)
          change '-' ∈ signedDecimal (.ofNat first)
          rw [same]
          exact List.mem_cons_self
  | negSucc first =>
      cases second with
      | ofNat second =>
          apply absurd _ (minus_notMem_decimal second)
          change '-' ∈ signedDecimal (.ofNat second)
          rw [← same]
          exact List.mem_cons_self
      | negSucc second =>
          have numbers := decimal_injective (List.cons.inj same).2
          rw [Nat.succ.inj numbers]

/-- A dead letter's key determines its position. -/
theorem deadLetterKey_injective {firstPartition firstOffset secondPartition secondOffset : ℤ}
    (same : deadLetterKey firstPartition firstOffset =
      deadLetterKey secondPartition secondOffset) :
    firstPartition = secondPartition ∧ firstOffset = secondOffset := by
  unfold deadLetterKey at same
  simp only [List.append_assoc, List.singleton_append] at same
  obtain ⟨partitions, offsets⟩ := append_delimiter_inj (colon_notMem_signedDecimal _)
    (colon_notMem_signedDecimal _) same
  exact ⟨signedDecimal_injective partitions, signedDecimal_injective offsets⟩

variable {store next : Store} {call : Call} {response : Response}

/-- Calls that touch neither table. -/
theorem DeadLettered.of_eq (lettered : store.DeadLettered)
    (letters : next.deadLetters = store.deadLetters)
    (poison : next.poisonMessages = store.poisonMessages) : next.DeadLettered := by
  refine ⟨?_, ?_⟩
  · unfold deadLetterRecords poisonRecords
    rw [letters, poison]
    exact lettered.matched
  · rw [letters]
    exact lettered.keyed

/-- Inserting a row of another topic. -/
theorem deadLetters_insertOutbox_other {topic : Text} (other : topic ≠ dlqTopic)
    (messageKey payload : Text) (sourcePartition sourceOffset : ℤ) :
    (store.insertOutbox topic messageKey payload sourcePartition sourceOffset).deadLetters =
      store.deadLetters := by
  unfold deadLetters
  rw [insertOutbox_outbox]
  split
  · rfl
  · rw [List.filter_append]
    simp [other]

/-- Acknowledging a row changes neither its key nor its record. -/
theorem DeadLettered.mark (lettered : store.DeadLettered) (outboxId : ℕ) :
    (store.markPublished outboxId).DeadLettered := by
  have topics : (fun row : OutboxRow => decide (row.topic = dlqTopic)) ∘
      (fun row => if row.id = outboxId then { row with published := true } else row) =
        fun row => decide (row.topic = dlqTopic) := by
    funext row
    simp only [Function.comp_apply]
    split <;> rfl
  have letters : (store.markPublished outboxId).deadLetters = store.deadLetters.map fun row =>
      if row.id = outboxId then { row with published := true } else row := by
    unfold deadLetters markPublished
    rw [List.filter_map, topics]
  refine ⟨?_, ?_⟩
  · unfold deadLetterRecords
    rw [letters, List.map_map]
    refine List.Perm.trans (List.Perm.of_eq ?_) lettered.matched
    apply List.map_congr_left
    intro row _
    simp only [Function.comp_apply]
    split <;> rfl
  · rw [letters]
    intro row member
    obtain ⟨before, isBefore, rfl⟩ := List.mem_map.mp member
    have key := lettered.keyed before isBefore
    split
    · exact key
    · exact key

/-- A fresh poison message gets a dead letter: its key is free. -/
theorem DeadLettered.poison (lettered : store.DeadLettered) {sourcePartition sourceOffset : ℤ}
    (fresh : (sourcePartition, sourceOffset) ∉ store.poisonMessages) (rawPayload error : Text) :
    (insertOutbox { store with
        poisonMessages := store.poisonMessages.insert (sourcePartition, sourceOffset)
          ⟨rawPayload, error⟩ }
      dlqTopic (deadLetterKey sourcePartition sourceOffset) (encodeHex rawPayload) sourcePartition
      sourceOffset).DeadLettered := by
  have free : ¬ (store.outbox.any fun row => row.topic = dlqTopic &&
      row.messageKey = deadLetterKey sourcePartition sourceOffset) = true := by
    intro taken
    obtain ⟨row, member, same⟩ := List.any_eq_true.mp taken
    simp only [Bool.and_eq_true, decide_eq_true_eq] at same
    have letter : row ∈ store.deadLetters :=
      List.mem_filter.mpr ⟨member, decide_eq_true same.1⟩
    obtain ⟨partition', offset'⟩ :=
      deadLetterKey_injective ((lettered.keyed row letter).symm.trans same.2)
    have recorded : (row.position, row.payload) ∈ store.poisonRecords :=
      lettered.matched.subset (List.mem_map_of_mem letter)
    obtain ⟨entry, isEntry, isRecord⟩ := List.mem_map.mp recorded
    have position : entry.1 = row.position := congrArg Prod.fst isRecord
    apply fresh
    rw [← partition', ← offset']
    change row.position ∈ store.poisonMessages
    rw [← position]
    exact List.mem_keys_of_mem isEntry
  have letters : (insertOutbox { store with
        poisonMessages := store.poisonMessages.insert (sourcePartition, sourceOffset)
          ⟨rawPayload, error⟩ }
      dlqTopic (deadLetterKey sourcePartition sourceOffset) (encodeHex rawPayload) sourcePartition
      sourceOffset).deadLetters = store.deadLetters ++ [⟨store.outboxSequence, dlqTopic,
        deadLetterKey sourcePartition sourceOffset, encodeHex rawPayload, sourcePartition,
        sourceOffset, false⟩] := by
    unfold deadLetters
    rw [insertOutbox_outbox, if_neg free, List.filter_append]
    simp
  refine ⟨?_, ?_⟩
  · unfold deadLetterRecords poisonRecords
    rw [letters, insertOutbox_poison, AList.entries_insert_of_notMem fresh, List.map_append,
      List.map_cons]
    exact (List.perm_append_singleton _ _).trans (lettered.matched.cons _)
  · rw [letters]
    intro row member
    rcases List.mem_append.mp member with old | new
    · exact lettered.keyed row old
    · rw [List.mem_singleton.mp new]

theorem DeadLettered.step (lettered : store.DeadLettered)
    (step : Step store call response next) : next.DeadLettered := by
  cases step with
  | refused refusal => exact lettered
  | acquired raised fits => exact lettered.of_eq rfl rfl
  | ingested fresh unused => exact lettered.of_eq rfl rfl
  | assigned found source current unresolved fits => exact lettered.of_eq rfl rfl
  | moved found same unresolved => exact lettered.of_eq rfl rfl
  | completed found fenced fits =>
      apply lettered.of_eq
      · exact deadLetters_insertOutbox_other dlq_ne_results.symm _ _ _ _
      · exact insertOutbox_poison _ _ _ _ _ _
  | poisoned fresh => exact lettered.poison fresh _ _
  | marked => exact lettered.mark _

theorem deadLettered_empty : Store.empty.DeadLettered :=
  ⟨List.Perm.nil, fun _ member => absurd member List.not_mem_nil⟩

/-- No two dead letters have one position. -/
theorem DeadLettered.nodup (lettered : store.DeadLettered) :
    (store.deadLetters.map OutboxRow.position).Nodup := by
  have positions : store.deadLetterRecords.map Prod.fst =
      store.deadLetters.map OutboxRow.position := by
    unfold deadLetterRecords
    rw [List.map_map]
    rfl
  have keys : store.poisonRecords.map Prod.fst = store.poisonMessages.keys := by
    unfold poisonRecords AList.keys List.keys
    rw [List.map_map]
    rfl
  rw [← positions, (lettered.matched.map Prod.fst).nodup_iff, keys]
  exact store.poisonMessages.nodupKeys

end Store

/-! ### The ingestors -/

namespace Router

/-- The attempts counted for a position. -/
def attemptsAt (router : Router) (position : ℤ × ℤ) : ℕ :=
  (router.parseAttempts.lookup position).getD 0

variable {setup : RouterSetup} {router after : Router} {message : KafkaMessage}
  {made : List (Exchange RouterCall RouterCall.Answer)} {outcome : IngestOutcome}

/-- A malformed payload is tried again until its last attempt, which records it and
forgets the attempts. -/
theorem handle_malformed
    (path : Path (router.handle setup message) made (.done (outcome, after)))
    (malformed : setup.parsed message.payload = none) :
    (outcome, after.attemptsAt (message.partitionId, message.offset)) =
      if router.attemptsAt (message.partitionId, message.offset) + 1 < setup.maxParseRetries
      then (.retryParse, router.attemptsAt (message.partitionId, message.offset) + 1)
      else (.poisonRecorded, 0) := by
  unfold handle at path
  rw [malformed] at path
  dsimp only at path
  unfold attemptsAt
  split at path
  · next again =>
      obtain ⟨_, ended⟩ := Path.of_done path
      cases ended
      rw [if_pos again, AList.lookup_insert]
      rfl
  · next last =>
      obtain ⟨answer, later, _, rest⟩ := Path.of_perform path
      obtain ⟨_, ended⟩ := Path.of_done rest
      cases ended
      rw [if_neg last, AList.lookup_erase]
      rfl

/-- Handling a message leaves the attempts of other positions alone. -/
theorem handle_other (path : Path (router.handle setup message) made (.done (outcome, after)))
    {position : ℤ × ℤ} (other : position ≠ (message.partitionId, message.offset)) :
    after.attemptsAt position = router.attemptsAt position := by
  unfold handle at path
  dsimp only at path
  cases parsed : setup.parsed message.payload with
  | none =>
      rw [parsed] at path
      dsimp only at path
      split at path
      · obtain ⟨_, ended⟩ := Path.of_done path
        cases ended
        simp only [attemptsAt, AList.lookup_insert_ne other]
      · obtain ⟨answer, later, _, rest⟩ := Path.of_perform path
        obtain ⟨_, ended⟩ := Path.of_done rest
        cases ended
        simp only [attemptsAt, AList.lookup_erase_ne other]
  | some request =>
      rw [parsed] at path
      obtain ⟨answer, later, _, rest⟩ := Path.of_perform path
      obtain ⟨_, ended⟩ := Path.of_done rest
      cases ended
      simp only [attemptsAt, AList.lookup_erase_ne other]

end Router

/-- Any number of ingestors on one store, with the other calls of the store. -/
def ingestion {κ : Type} [DecidableEq κ] (setup : κ → RouterSetup) :
    Tasks κ (Cluster κ) KafkaMessage Router RouterCall RouterCall.Answer (IngestOutcome × Router)
      Store.Call where
  answers := Cluster.Answers
  outside cluster call next :=
    next = { cluster with store := (Store.object.respond call cluster.store).2 }
  body ingestor router message := router.handle (setup ingestor) message
  keep := Prod.snd
  fresh _ := {}

namespace Ingestion

variable {κ : Type} [DecidableEq κ]

/-- What happens in a run of the ingestors. -/
abbrev Event (κ : Type) : Type :=
  Tasks.Event κ KafkaMessage RouterCall RouterCall.Answer (IngestOutcome × Router) Store.Call

/-- The message and the outcome of an ended call of an ingestor. -/
def handled (ingestor : κ) : Event κ → Option (KafkaMessage × IngestOutcome)
  | .ended member message _ (outcome, _) =>
      if member = ingestor then some (message, outcome) else none
  | _ => none

/-- The messages an ingestor has handled at a position, with their outcomes. -/
def handledAt (ingestor : κ) (position : ℤ × ℤ) (labels : List (Event κ)) :
    List (KafkaMessage × IngestOutcome) :=
  (labels.filterMap (handled ingestor)).filter fun result =>
    (result.1.partitionId, result.1.offset) = position

/-- The outcomes of one round of attempts at a malformed position. -/
def attemptRound (maxParseRetries : ℕ) : List IngestOutcome :=
  List.replicate (maxParseRetries - 1) .retryParse ++ [.poisonRecorded]

variable {setup : κ → RouterSetup} {ingestor : κ} {position : ℤ × ℤ} {past : List (Event κ)}
  {label : Event κ}

theorem handledAt_snoc_other (unhandled : handled ingestor label = none) :
    handledAt ingestor position (past ++ [label]) = handledAt ingestor position past := by
  unfold handledAt
  rw [List.filterMap_append, List.filterMap_cons_none unhandled, List.filterMap_nil,
    List.append_nil]

theorem handledAt_snoc {message : KafkaMessage} {outcome : IngestOutcome}
    (ended : handled ingestor label = some (message, outcome)) :
    handledAt ingestor position (past ++ [label]) = handledAt ingestor position past ++
      if (message.partitionId, message.offset) = position then [(message, outcome)] else [] := by
  unfold handledAt
  rw [List.filterMap_append, List.filter_append, List.filterMap_cons_some ended,
    List.filterMap_nil, List.filter_singleton, Bool.cond_decide]

/-- The outcomes are full rounds and the attempts of the round that is going on. -/
def InRounds (maxParseRetries attempts : ℕ) (outcomes : List IngestOutcome) : Prop :=
  attempts ≤ maxParseRetries - 1 ∧ ∃ rounds, outcomes =
    (List.replicate rounds (attemptRound maxParseRetries)).flatten ++
      List.replicate attempts .retryParse

/-- One more attempt at a malformed position goes on with the round. -/
theorem InRounds.attempt {maxParseRetries attempts later : ℕ} {outcomes : List IngestOutcome}
    {outcome : IngestOutcome} (inRounds : InRounds maxParseRetries attempts outcomes)
    (result : (outcome, later) = if attempts + 1 < maxParseRetries
      then (.retryParse, attempts + 1) else (.poisonRecorded, 0)) :
    InRounds maxParseRetries later (outcomes ++ [outcome]) := by
  obtain ⟨bounded, rounds, rfl⟩ := inRounds
  split at result
  · next again =>
      cases result
      refine ⟨by omega, rounds, ?_⟩
      rw [List.append_assoc, List.replicate_succ']
  · next last =>
      cases result
      have full : attempts = maxParseRetries - 1 := by omega
      refine ⟨Nat.zero_le _, rounds + 1, ?_⟩
      rw [List.replicate_succ', List.flatten_append, full, List.append_assoc]
      simp [attemptRound]

/-- What the attempts of an ingestor at one position know about its outcomes. -/
structure Counted (setup : κ → RouterSetup) (ingestor : κ) (position : ℤ × ℤ)
    (past : List (Event κ))
    (state : Tasks.State κ (Cluster κ) KafkaMessage Router RouterCall RouterCall.Answer
      (IngestOutcome × Router)) : Prop where
  consistent : (ingestion setup).Consistent state
  rounds : Tasks.Event.crashed ingestor ∉ past →
    (∀ result ∈ handledAt ingestor position past,
      (setup ingestor).parsed result.1.payload = none) →
    InRounds (setup ingestor).maxParseRetries ((state.kept ingestor).attemptsAt position)
      ((handledAt ingestor position past).map Prod.snd)

variable {state next : Tasks.State κ (Cluster κ) KafkaMessage Router RouterCall RouterCall.Answer
  (IngestOutcome × Router)}

/-- A step in which the ingestor ends no call and does not crash. -/
theorem Counted.frame (counted : Counted setup ingestor position past state)
    (step : (ingestion setup).Step state label next) (unhandled : handled ingestor label = none)
    (kept : label ≠ .crashed ingestor → next.kept ingestor = state.kept ingestor) :
    Counted setup ingestor position (past ++ [label]) next := by
  refine ⟨counted.consistent.step step, ?_⟩
  rw [handledAt_snoc_other unhandled]
  intro alive malformed
  simp only [List.mem_append, List.mem_singleton, not_or] at alive
  rw [kept (Ne.symm alive.2)]
  exact counted.rounds alive.1 malformed

theorem Counted.step (counted : Counted setup ingestor position past state)
    (step : (ingestion setup).Step state label next) :
    Counted setup ingestor position (past ++ [label]) next := by
  cases label with
  | began member task => exact counted.frame step rfl fun _ => by cases step; rfl
  | called member exchange => exact counted.frame step rfl fun _ => by cases step; rfl
  | outside call => exact counted.frame step rfl fun _ => by cases step; rfl
  | crashed member =>
      apply counted.frame step rfl
      intro other
      cases step with
      | crashed =>
          apply Function.update_of_ne
          rintro rfl
          exact other rfl
  | ended member message made result =>
      obtain ⟨outcome, after⟩ := result
      by_cases own : member = ingestor
      · subst own
        have path := Tasks.Step.ended_path counted.consistent step
        refine ⟨counted.consistent.step step, ?_⟩
        intro alive malformed
        have before : Tasks.Event.crashed member ∉ past :=
          fun crashed => alive (List.mem_append_left _ crashed)
        have keeps : next.kept member = after := by
          cases step with
          | ended here => exact Function.update_self ..
        have ended : handled member (.ended member message made (outcome, after)) =
            some (message, outcome) := if_pos rfl
        rw [handledAt_snoc ended] at malformed ⊢
        have rounds := counted.rounds before fun result isResult =>
          malformed result (List.mem_append_left _ isResult)
        rw [keeps]
        by_cases here : (message.partitionId, message.offset) = position
        · subst here
          rw [if_pos rfl] at malformed ⊢
          rw [List.map_append]
          apply rounds.attempt
          exact Router.handle_malformed path
            (malformed _ (List.mem_append_right _ List.mem_cons_self))
        · rw [if_neg here, List.append_nil, Router.handle_other path (Ne.symm here)]
          exact rounds
      · apply counted.frame step (if_neg own)
        intro _
        cases step with
        | ended here => exact Function.update_of_ne (Ne.symm own) _ _

theorem counted_start (ingestor : κ) (position : ℤ × ℤ) (cluster : Cluster κ) :
    Counted setup ingestor position [] ((ingestion setup).start cluster) := by
  refine ⟨?_, fun _ _ => ⟨Nat.zero_le _, 0, rfl⟩⟩
  intro member running isRunning
  cases isRunning

end Ingestion

/-- **Poison and its dead letters.** In every run of any number of ingestors on a
store that others call as well, the dead letters of the outbox and the poison
messages have the same positions, each once, and a dead letter's payload is the
encoded payload of its message. At a position whose payloads are all malformed, an
ingestor that does not crash asks for `maxParseRetries - 1` further attempts
before each time it records the poison, whatever it handles at other positions. -/
theorem poison_dead_lettered {κ : Type} [DecidableEq κ] (setup : κ → RouterSetup)
    (initial : ℤ → ℤ) {labels : List (Ingestion.Event κ)}
    {state : Tasks.State κ (Cluster κ) KafkaMessage Router RouterCall RouterCall.Answer
      (IngestOutcome × Router)}
    (trace : Trace (ingestion setup).Step ((ingestion setup).start (Cluster.start initial)) labels
      state) :
    state.shared.store.deadLetterRecords.Perm state.shared.store.poisonRecords ∧
    (state.shared.store.deadLetters.map OutboxRow.position).Nodup ∧
    ∀ ingestor position, Tasks.Event.crashed ingestor ∉ labels →
      (∀ result ∈ Ingestion.handledAt ingestor position labels,
        (setup ingestor).parsed result.1.payload = none) →
      ∃ rounds attempts, attempts ≤ (setup ingestor).maxParseRetries - 1 ∧
        (Ingestion.handledAt ingestor position labels).map Prod.snd =
          (List.replicate rounds (List.replicate ((setup ingestor).maxParseRetries - 1)
            .retryParse ++ [.poisonRecorded])).flatten ++ List.replicate attempts .retryParse := by
  have responded : ∀ (store : Store) call, store.DeadLettered →
      (Store.object.respond call store).2.DeadLettered :=
    fun store call lettered => lettered.step (Store.respond_step call store)
  have lettered : state.shared.store.DeadLettered := by
    refine @Tasks.shared_invariant _ _ _ _ _ _ _ _ _ (ingestion setup) _ _
      (fun cluster => cluster.store.DeadLettered) ?_ ?_ _ trace Store.deadLettered_empty
    · intro member cluster operation answer next lettered answered
      rcases Cluster.Answers.store answered with same | ⟨call, called⟩
      · rwa [same]
      · rw [called]
        exact responded _ call lettered
    · intro cluster call next lettered moved
      cases moved
      exact responded _ call lettered
  refine ⟨lettered.matched, lettered.nodup, ?_⟩
  intro ingestor position alive malformed
  have counted := trace.history (fun _ _ _ _ before step => before.step step)
    (Ingestion.counted_start ingestor position _)
  obtain ⟨bounded, rounds, outcomes⟩ := counted.rounds alive malformed
  exact ⟨rounds, _, bounded, outcomes⟩

/-- An ingestor with two attempts handles a malformed message twice. -/
theorem poison_dead_lettered_second_attempt :
    ∃ (labels : List (Ingestion.Event Unit)) (state : Tasks.State Unit (Cluster Unit) KafkaMessage
        Router RouterCall RouterCall.Answer (IngestOutcome × Router)),
      (Ingestion.handledAt () (0, 5) labels).map Prod.snd = [.retryParse, .poisonRecorded] ∧
      state.shared.store.deadLetterRecords = [((0, 5), "78".toList)] ∧
      state.shared.store.deadLetterRecords.Perm state.shared.store.poisonRecords := by
  let message : KafkaMessage := ⟨['x'], 0, 5⟩
  let setup : Unit → RouterSetup := fun _ => ⟨fun _ => none, 2⟩
  let once : Router := { parseAttempts := AList.insert (0, 5) 1 ∅ }
  let poison : Exchange RouterCall RouterCall.Answer :=
    ⟨.recordPoison 0 5 ['x'] "invalid_inference_request".toList, true⟩
  let labels : List (Ingestion.Event Unit) :=
    [.began () message, .ended () message [] (.retryParse, once), .began () message,
      .called () poison, .ended () message [poison] (.poisonRecorded, {})].foldl
        (fun past label => past ++ [label]) []
  have handled : Trace (ingestion setup).Step ((ingestion setup).start (Cluster.start fun _ => 0))
      labels _ :=
    ((((Trace.nil.snoc (.began rfl)).snoc (.ended rfl)).snoc (.began rfl)).snoc
      (.called rfl (by exact ⟨_, rfl, rfl⟩))).snoc (.ended rfl)
  exact ⟨labels, _, rfl, by decide, (poison_dead_lettered setup _ handled).1⟩

end InferSched.Durable

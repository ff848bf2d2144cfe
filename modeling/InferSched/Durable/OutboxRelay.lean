import InferSched.Durable.Store
import InferSched.Library.Program

/-! # Publishing the outbox

`KafkaOutboxPublisher::Publish` and `OutboxRelay::PublishBatch`
(`outbox_relay.cpp`). The producer numbers its messages; a message is in flight
until a poll serves its delivery report, which can be in a later call than the
one that produced it. The publisher has one pair of flags for all its messages,
so a call returns the status of the last report it was served, whatever message
that report is about.
-/

namespace InferSched.Durable

open Library

/-- A produced message. -/
structure Message where
  number : ℕ
  record : OutboxRow
deriving DecidableEq, Repr

/-- A delivery report that librdkafka has for a message. -/
structure Report where
  number : ℕ
  ok : Bool
deriving DecidableEq, Repr

/-- What the producer does during one call: whether `produce` fails, and the
reports of each `poll` until the deadline. -/
structure Delivery where
  produceError : Bool := false
  polls : List (List Report) := []
deriving DecidableEq, Repr

/-- The publisher and its producer. `acknowledged` are the messages whose report
of success was received. -/
structure KafkaOutboxPublisher where
  complete : Bool := false
  delivered : Bool := false
  produced : ℕ := 0
  inFlight : List Message := []
  acknowledged : List Message := []
deriving DecidableEq, Repr

/-- The callbacks of one poll, and the messages that are then still in flight.
A message has one report. -/
def serve : List Message → List Report → List (Message × Bool) × List Message
  | inFlight, [] => ([], inFlight)
  | inFlight, report :: later =>
      match inFlight.find? fun message => message.number = report.number with
      | none => serve inFlight later
      | some message =>
          let rest := serve (inFlight.erase message) later
          ((message, report.ok) :: rest.1, rest.2)

namespace KafkaOutboxPublisher

def drCb (publisher : KafkaOutboxPublisher) (callback : Message × Bool) : KafkaOutboxPublisher :=
  { publisher with
    delivered := callback.2
    complete := true
    acknowledged :=
      if callback.2 then publisher.acknowledged ++ [callback.1] else publisher.acknowledged }

def poll (publisher : KafkaOutboxPublisher) (reports : List Report) : KafkaOutboxPublisher :=
  let served := serve publisher.inFlight reports
  { served.1.foldl drCb publisher with inFlight := served.2 }

/-- Poll until a report was served or the deadline has passed. -/
def pollLoop : List (List Report) → KafkaOutboxPublisher → KafkaOutboxPublisher
  | [], publisher => publisher
  | reports :: later, publisher =>
      if publisher.complete then publisher else pollLoop later (publisher.poll reports)

/-- The message a call produces. -/
def message (publisher : KafkaOutboxPublisher) (record : OutboxRow) : Message :=
  ⟨publisher.produced, record⟩

def publish (publisher : KafkaOutboxPublisher) (record : OutboxRow) (delivery : Delivery) :
    Bool × KafkaOutboxPublisher :=
  let reset := { publisher with complete := false, delivered := false }
  if delivery.produceError then (false, reset)
  else
    let produced := { reset with
      produced := publisher.produced + 1
      inFlight := publisher.inFlight ++ [publisher.message record] }
    let polled := pollLoop delivery.polls produced
    (polled.delivered, polled)

/-- A report of success for some message of this record was received. -/
def Acknowledged (publisher : KafkaOutboxPublisher) (record : OutboxRow) : Prop :=
  ∃ message ∈ publisher.acknowledged, message.record = record

/-- The callbacks of a call: those of the first poll that has any. -/
def callbacks (inFlight : List Message) : List (List Report) → List (Message × Bool)
  | [] => []
  | reports :: later =>
      if (serve inFlight reports).1 = [] then callbacks inFlight later
      else (serve inFlight reports).1

/-- What a call for the record needs of the publisher before it: a report of success
for the record was received, or every message still in flight is of the record. -/
def Clear (publisher : KafkaOutboxPublisher) (record : OutboxRow) : Prop :=
  publisher.Acknowledged record ∨ ∀ message ∈ publisher.inFlight, message.record = record

/-! ### What a call returns -/

theorem foldl_drCb (served : List (Message × Bool)) (publisher : KafkaOutboxPublisher) :
    (served.foldl drCb publisher).delivered =
        ((served.getLast?.map Prod.snd).getD publisher.delivered) ∧
      (served.foldl drCb publisher).complete = (publisher.complete || !served.isEmpty) ∧
      (served.foldl drCb publisher).acknowledged =
        publisher.acknowledged ++ (served.filter Prod.snd).map Prod.fst := by
  induction served generalizing publisher with
  | nil => simp
  | cons callback later ih =>
      obtain ⟨delivered, complete, acknowledged⟩ := ih (publisher.drCb callback)
      refine ⟨?_, ?_, ?_⟩
      · rw [List.foldl_cons, delivered, List.getLast?_cons]
        cases later.getLast? <;> rfl
      · rw [List.foldl_cons, complete]
        simp [drCb]
      · rw [List.foldl_cons, acknowledged, List.filter_cons]
        unfold drCb
        cases callback.2 <;> simp

theorem serve_left {inFlight : List Message} {reports : List Report}
    (none : (serve inFlight reports).1 = []) : (serve inFlight reports).2 = inFlight := by
  induction reports with
  | nil => rfl
  | cons report later ih =>
      unfold serve at none ⊢
      split at none
      · exact ih none
      · cases none

/-- Only messages in flight have callbacks. -/
theorem mem_of_serve {reports : List Report} {inFlight : List Message} {callback : Message × Bool}
    (member : callback ∈ (serve inFlight reports).1) : callback.1 ∈ inFlight := by
  induction reports generalizing inFlight with
  | nil => exact absurd member List.not_mem_nil
  | cons report later ih =>
      unfold serve at member
      split at member
      · exact ih member
      · next message found =>
          rcases List.mem_cons.mp member with rfl | inLater
          · exact List.mem_of_find?_eq_some found
          · exact List.mem_of_mem_erase (ih inLater)

theorem mem_of_callbacks {polls : List (List Report)} {inFlight : List Message}
    {callback : Message × Bool} (member : callback ∈ callbacks inFlight polls) :
    callback.1 ∈ inFlight := by
  induction polls with
  | nil => exact absurd member List.not_mem_nil
  | cons reports later ih =>
      unfold callbacks at member
      split at member
      · exact ih member
      · exact mem_of_serve member

/-- The reports of the messages in flight up to one of them, in the order they were
produced, have those messages as their callbacks. -/
theorem serve_prefix (before : List Message) (message : Message) (after : List Message) :
    (serve (before ++ message :: after)
        (before.map (fun earlier => ⟨earlier.number, false⟩) ++ [⟨message.number, true⟩])).1 =
      before.map (fun earlier => (earlier, false)) ++ [(message, true)] := by
  induction before with
  | nil => simp [serve]
  | cons earlier later ih =>
      simp only [List.cons_append, List.map_cons, serve, decide_true, List.find?_cons_of_pos,
        List.erase_cons_head]
      rw [ih]

/-- The flags and acknowledgements after the polls of a call. -/
theorem pollLoop_spec (polls : List (List Report)) (publisher : KafkaOutboxPublisher)
    (waiting : publisher.complete = false) :
    (pollLoop polls publisher).delivered =
        (((callbacks publisher.inFlight polls).getLast?.map Prod.snd).getD publisher.delivered) ∧
      (pollLoop polls publisher).acknowledged = publisher.acknowledged ++
        ((callbacks publisher.inFlight polls).filter Prod.snd).map Prod.fst := by
  induction polls generalizing publisher with
  | nil => simp [pollLoop, callbacks]
  | cons reports later ih =>
      rw [pollLoop, waiting, if_neg (by decide), callbacks]
      obtain ⟨delivered, complete, acknowledged⟩ :=
        foldl_drCb (serve publisher.inFlight reports).1 publisher
      split
      · next none =>
          have same : publisher.poll reports = publisher := by
            change { (serve publisher.inFlight reports).1.foldl drCb publisher with
              inFlight := (serve publisher.inFlight reports).2 } = publisher
            rw [none, serve_left none]
            rfl
          rw [same]
          exact ih publisher waiting
      · next some =>
          have finished : (publisher.poll reports).complete = true := by
            change ((serve publisher.inFlight reports).1.foldl drCb publisher).complete = true
            rw [complete, waiting]
            cases shape : (serve publisher.inFlight reports).1 with
            | nil => exact absurd shape some
            | cons => rfl
          have stopped : pollLoop later (publisher.poll reports) = publisher.poll reports := by
            cases later with
            | nil => rfl
            | cons => rw [pollLoop, finished, if_pos rfl]
          rw [stopped]
          exact ⟨delivered, acknowledged⟩

/-- Acknowledgements are kept. -/
theorem publish_acknowledged {publisher : KafkaOutboxPublisher} {record : OutboxRow}
    {delivery : Delivery} {message : Message} (member : message ∈ publisher.acknowledged) :
    message ∈ (publisher.publish record delivery).2.acknowledged := by
  unfold publish
  split
  · exact member
  · obtain ⟨_, acknowledged⟩ := pollLoop_spec delivery.polls
      { publisher with
        complete := false
        delivered := false
        produced := publisher.produced + 1
        inFlight := publisher.inFlight ++ [publisher.message record] } rfl
    dsimp only at acknowledged ⊢
    rw [acknowledged]
    exact List.mem_append_left _ member

theorem mem_successes {served : List (Message × Bool)} {message : Message} :
    message ∈ (served.filter Prod.snd).map Prod.fst ↔ (message, true) ∈ served := by
  simp

/-- What a call that produces its message returns and has received. -/
theorem publish_spec (publisher : KafkaOutboxPublisher) (record : OutboxRow)
    {delivery : Delivery} (produced : delivery.produceError = false) :
    let served := callbacks (publisher.inFlight ++ [publisher.message record]) delivery.polls
    (publisher.publish record delivery).1 = (served.getLast?.map Prod.snd).getD false ∧
      (publisher.publish record delivery).2.acknowledged =
        publisher.acknowledged ++ (served.filter Prod.snd).map Prod.fst := by
  have polled := pollLoop_spec delivery.polls
    { publisher with
      complete := false
      delivered := false
      produced := publisher.produced + 1
      inFlight := publisher.inFlight ++ [publisher.message record] } rfl
  unfold publish
  rw [produced]
  exact polled

/-- A call from a clear publisher returns true only with a report for the record. -/
theorem truthful_of_clear {publisher : KafkaOutboxPublisher} {record : OutboxRow}
    (clear : publisher.Clear record) {delivery : Delivery}
    (returned : (publisher.publish record delivery).1 = true) :
    (publisher.publish record delivery).2.Acknowledged record := by
  rcases clear with ⟨message, member, same⟩ | own
  · exact ⟨message, publish_acknowledged member, same⟩
  · cases failed : delivery.produceError with
    | true =>
        rw [publish, failed] at returned
        cases returned
    | false =>
        obtain ⟨result, acknowledged⟩ := publish_spec publisher record failed
        rw [result] at returned
        cases isLast : (callbacks (publisher.inFlight ++ [publisher.message record])
            delivery.polls).getLast? with
        | none =>
            rw [isLast] at returned
            cases returned
        | some callback =>
            obtain ⟨last, ok⟩ := callback
            rw [isLast] at returned
            have success : ok = true := returned
            subst success
            have served := List.mem_of_getLast? isLast
            refine ⟨last, ?_, ?_⟩
            · rw [acknowledged]
              exact List.mem_append_right _ (mem_successes.mpr served)
            · rcases List.mem_append.mp (mem_of_callbacks served) with earlier | now
              · exact own last earlier
              · have isOwn : last = publisher.message record := List.mem_singleton.mp now
                rw [isOwn]
                rfl

/-- When another record has a message in flight, its report of success may be the last
one that the call is served. -/
theorem exists_untruthful {publisher : KafkaOutboxPublisher} {record : OutboxRow}
    (unacknowledged : ¬ publisher.Acknowledged record) {message : Message}
    (late : message ∈ publisher.inFlight) (other : message.record ≠ record) :
    ∃ delivery, (publisher.publish record delivery).1 = true ∧
      ¬ (publisher.publish record delivery).2.Acknowledged record := by
  obtain ⟨before, after, shape⟩ := List.append_of_mem late
  let reports := before.map (fun earlier => Report.mk earlier.number false) ++
    [⟨message.number, true⟩]
  have served : (serve (publisher.inFlight ++ [publisher.message record]) reports).1 =
      before.map (fun earlier => (earlier, false)) ++ [(message, true)] := by
    rw [shape, List.append_assoc, List.cons_append]
    exact serve_prefix before message _
  have called : callbacks (publisher.inFlight ++ [publisher.message record]) [reports] =
      before.map (fun earlier => (earlier, false)) ++ [(message, true)] := by
    rw [callbacks, served, if_neg (by simp)]
  obtain ⟨result, acknowledged⟩ := publish_spec publisher record
    (show Delivery.produceError { polls := [reports] } = false from rfl)
  refine ⟨{ polls := [reports] }, ?_, ?_⟩
  · rw [result, called]
    simp
  · rintro ⟨known, member, same⟩
    rw [acknowledged, called] at member
    rcases List.mem_append.mp member with earlier | now
    · exact unacknowledged ⟨known, earlier, same⟩
    · have isLate : known = message := by simpa using now
      rw [isLate] at same
      exact other same

/-- Every call for the record is truthful exactly when the publisher is clear. -/
theorem truthful_iff (publisher : KafkaOutboxPublisher) (record : OutboxRow) :
    (∀ delivery, (publisher.publish record delivery).1 = true →
      (publisher.publish record delivery).2.Acknowledged record) ↔ publisher.Clear record := by
  constructor
  · intro truthful
    by_contra notClear
    obtain ⟨unacknowledged, others⟩ := not_or.mp notClear
    push Not at others
    obtain ⟨message, late, other⟩ := others
    obtain ⟨delivery, returned, never⟩ := exists_untruthful unacknowledged late other
    exact never (truthful delivery returned)
  · exact fun clear _ returned => truthful_of_clear clear returned

end KafkaOutboxPublisher

/-! ### The relay -/

/-- The calls of a relay to its store and its publisher. -/
inductive RelayCall
  | fetchUnpublished (limit : ℕ)
  | publish (record : OutboxRow)
  | markPublished (outboxId : ℕ)

/-- The answers to the calls. -/
abbrev RelayCall.Answer : RelayCall → Type
  | .fetchUnpublished _ => List OutboxRow
  | .publish _ => Bool
  | .markPublished _ => Unit

namespace OutboxRelay

/-- The loop of `PublishBatch` over the fetched rows. -/
def publishRecords : List OutboxRow → ℕ → Program RelayCall RelayCall.Answer ℕ
  | [], published => pure published
  | record :: later, published => do
      if ← Program.perform (.publish record) then
        Program.perform (RelayCall.markPublished record.id)
        publishRecords later (published + 1)
      else pure published

def publishBatch (limit : ℕ) : Program RelayCall RelayCall.Answer ℕ := do
  let records ← Program.perform (.fetchUnpublished limit)
  publishRecords records 0

/-- One relay that makes batch after batch with its publisher, whose calls meet a
condition. The rows a fetch returns are any: they depend on what other routers
do to the store. -/
def team (condition : KafkaOutboxPublisher → OutboxRow → Delivery → Prop) (limits : ℕ → ℕ) :
    Team Unit KafkaOutboxPublisher RelayCall RelayCall.Answer ℕ where
  answers _ publisher operation answer next :=
    match operation, answer with
    | .fetchUnpublished _, _ => next = publisher
    | .publish record, answer => ∃ delivery, condition publisher record delivery ∧
        publisher.publish record delivery = (answer, next)
    | .markPublished _, _ => next = publisher
  outside _ _ := False
  fails _ publisher next := next = { acknowledged := publisher.acknowledged }
  body _ batch := do
    let _ ← publishBatch (limits batch)
    pure (batch + 1)
  fresh _ := 0

/-- A row may be marked once it is known to be acknowledged, which a call of
`Publish` that returns true tells. -/
def rules : Program.Rules RelayCall RelayCall.Answer ℕ where
  allowed known operation :=
    match operation with
    | .markPublished outboxId => outboxId ∈ known
    | _ => True
  learns operation answer :=
    match operation, answer with
    | .publish record, true => {record.id}
    | _, _ => ∅
  mono subset allowed := by
    split at allowed
    · exact subset allowed
    · trivial

theorem within_publishRecords (records : List OutboxRow) (published : ℕ) (known : Set ℕ) :
    Program.Within rules (fun _ _ => True) known (publishRecords records published) := by
  induction records generalizing published known with
  | nil => trivial
  | cons record later ih =>
      apply Program.within_perform trivial
      intro answer
      cases answer with
      | false => trivial
      | true =>
          apply Program.within_perform
          · exact Or.inr rfl
          · exact fun _ => ih _ _

/-- A relay whose calls of `Publish` find a clear publisher marks acknowledged rows. -/
def discipline (limits : ℕ → ℕ) :
    (team (fun publisher record _ => publisher.Clear record) limits).Discipline ℕ where
  toRules := rules
  holds publisher outboxId := ∃ message ∈ publisher.acknowledged, message.record.id = outboxId
  invariant _ := True
  calls := by
    intro _ publisher operation answer next known _ _ _ answered
    refine ⟨trivial, ?_⟩
    cases operation with
    | fetchUnpublished limit =>
        cases answered
        exact ⟨fun _ holds => holds, fun _ learned => absurd learned (Set.notMem_empty _)⟩
    | markPublished outboxId =>
        cases answered
        exact ⟨fun _ holds => holds, fun _ learned => absurd learned (Set.notMem_empty _)⟩
    | publish record =>
        obtain ⟨delivery, clear, published⟩ := answered
        have result : (publisher.publish record delivery).2 = next := by rw [published]
        subst result
        refine ⟨?_, ?_⟩
        · rintro outboxId ⟨message, member, same⟩
          exact ⟨message, KafkaOutboxPublisher.publish_acknowledged member, same⟩
        · intro outboxId learned
          cases answer with
          | false => exact absurd learned (Set.notMem_empty _)
          | true =>
              cases learned
              obtain ⟨message, member, same⟩ :=
                KafkaOutboxPublisher.truthful_of_clear clear
                  (show (publisher.publish record delivery).1 = true by rw [published])
              exact ⟨message, member, congrArg OutboxRow.id same⟩
  moves := by
    rintro publisher next - (moved | ⟨_, failed⟩)
    · exact moved.elim
    · cases failed
      exact ⟨trivial, fun _ holds => holds⟩
  bodies := by
    intro _ batch
    apply Program.within_bind
    apply Program.within_perform trivial
    intro records
    exact (within_publishRecords records 0 _).mono le_rfl fun _ _ _ _ _ _ => trivial

end OutboxRelay

/-- **When `Publish` can be believed.** A call for a record returns true only with a
report of success for it, whatever the producer reports, if and only if such a report
was received before the call or no message of another record is in flight. A relay all
of whose calls find their publisher so marks a row only after a report for it. -/
theorem publish_acknowledged_iff (publisher : KafkaOutboxPublisher) (record : OutboxRow) :
    ((∀ delivery, (publisher.publish record delivery).1 = true →
      (publisher.publish record delivery).2.Acknowledged record) ↔ publisher.Clear record) ∧
    ∀ (limits : ℕ → ℕ)
      (config : Team.Config Unit KafkaOutboxPublisher RelayCall RelayCall.Answer ℕ),
      (OutboxRelay.team (fun publisher record _ => publisher.Clear record) limits).Reachable
        {} config →
      ∀ outboxId rest, config.programs () = .call (.markPublished outboxId) rest →
        ∃ message ∈ config.shared.acknowledged, message.record.id = outboxId := by
  refine ⟨publisher.truthful_iff record, ?_⟩
  intro limits config reached outboxId rest here
  obtain ⟨known, true', allowed⟩ :=
    (OutboxRelay.discipline limits).call_allowed trivial reached here
  exact true' outboxId allowed

/-- A relay publishes row 1 and times out, publishes it again on the late report,
and then takes the report of that second message for row 2. -/
theorem publish_overtaken_by_late_report :
    let first : OutboxRow := ⟨1, resultsTopic, "a".toList, "x".toList, 0, 0, false⟩
    let second : OutboxRow := ⟨2, resultsTopic, "b".toList, "y".toList, 0, 1, false⟩
    let timedOut := KafkaOutboxPublisher.publish {} first { polls := [[], []] }
    let again := timedOut.2.publish first { polls := [[⟨0, true⟩]] }
    let late := again.2.publish second { polls := [[⟨1, true⟩]] }
    timedOut.1 = false ∧ again.1 = true ∧ late.1 = true ∧ ¬ late.2.Acknowledged second := by
  refine ⟨by decide, by decide, by decide, ?_⟩
  rintro ⟨message, member, same⟩
  have numbers : message.record.id = 1 := by
    revert message
    decide
  rw [same] at numbers
  cases numbers

end InferSched.Durable

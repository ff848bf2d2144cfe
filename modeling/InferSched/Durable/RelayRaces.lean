import InferSched.Durable.OutboxRelay
import InferSched.Durable.Finalization
import InferSched.Library.Tasks

/-! # Relays that race

Any number of relays publish the same outbox (`OutboxRelay.relays`). Fetching,
publishing and marking are steps of their own, so relays publish rows that others
have published or marked meanwhile, and a crash between an acknowledgement and its
mark leaves a published row unmarked. Rows can be published twice in this way. None
is lost: rows are only added, only the mark of a published row changes one, and it
stays marked.
-/

namespace InferSched.Durable

open Library Program

namespace Store

/-- The serial keys of the outbox increase, and the sequence is past them. -/
structure Serial (store : Store) : Prop where
  increasing : store.outbox.Pairwise fun earlier later => earlier.id < later.id
  below : ∀ row ∈ store.outbox, row.id < store.outboxSequence

variable {store next : Store} {call : Call} {response : Response}

/-- What a call does to the outbox. -/
inductive OutboxStep (store : Store) : Call → Store → Prop
  | kept {call : Call} {next : Store} (rows : next.outbox = store.outbox)
      (sequence : store.outboxSequence ≤ next.outboxSequence) : OutboxStep store call next
  | added {call : Call} {next : Store} {row : OutboxRow}
      (rows : next.outbox = store.outbox ++ [row]) (fresh : row.id = store.outboxSequence)
      (unpublished : row.published = false)
      (sequence : next.outboxSequence = store.outboxSequence + 1) : OutboxStep store call next
  | marked {outboxId : ℕ} :
      OutboxStep store (.markPublished outboxId) (store.markPublished outboxId)

theorem insertOutbox_step (base : Store) (rows : base.outbox = store.outbox)
    (sequence : base.outboxSequence = store.outboxSequence) (topic messageKey payload : Text)
    (sourcePartition sourceOffset : ℤ) :
    OutboxStep store call
      (base.insertOutbox topic messageKey payload sourcePartition sourceOffset) := by
  have advanced : (base.insertOutbox topic messageKey payload sourcePartition
      sourceOffset).outboxSequence = store.outboxSequence + 1 := by
    unfold insertOutbox
    rw [← sequence]
    dsimp only
    split <;> rfl
  have inserted := base.insertOutbox_outbox topic messageKey payload sourcePartition sourceOffset
  rw [rows, sequence] at inserted
  split at inserted
  · exact .kept inserted (advanced ▸ Nat.le_succ _)
  · exact .added inserted rfl rfl advanced

theorem Step.outboxStep (step : Step store call response next) : OutboxStep store call next := by
  cases step with
  | refused refusal => exact .kept rfl le_rfl
  | acquired raised fits => exact .kept rfl le_rfl
  | ingested fresh unused => exact .kept rfl le_rfl
  | assigned found source current unresolved fits => exact .kept rfl le_rfl
  | moved found same unresolved => exact .kept rfl le_rfl
  | completed found fenced fits =>
      apply insertOutbox_step
      · rfl
      · rfl
  | poisoned fresh =>
      apply insertOutbox_step
      · rfl
      · rfl
  | marked => exact .marked

/-- A row of the store after a mark. -/
theorem mem_markPublished {outboxId : ℕ} {row : OutboxRow} :
    row ∈ (store.markPublished outboxId).outbox ↔ ∃ before ∈ store.outbox,
      (if before.id = outboxId then { before with published := true } else before) = row :=
  List.mem_map

theorem mark_id (outboxId : ℕ) (row : OutboxRow) :
    (if row.id = outboxId then { row with published := true } else row).id = row.id := by
  split <;> rfl

theorem mark_intent (outboxId : ℕ) (row : OutboxRow) :
    (if row.id = outboxId then { row with published := true } else row).intent = row.intent := by
  split <;> rfl

theorem Serial.step (serial : Serial store) (step : OutboxStep store call next) : Serial next := by
  cases step with
  | kept rows sequence =>
      refine ⟨?_, ?_⟩
      · rw [rows]
        exact serial.increasing
      · rw [rows]
        exact fun row member => (serial.below row member).trans_le sequence
  | added rows fresh unpublished sequence =>
      refine ⟨?_, ?_⟩
      · rw [rows, List.pairwise_append]
        refine ⟨serial.increasing, List.pairwise_singleton _ _, ?_⟩
        intro earlier member later new
        rw [List.mem_singleton.mp new, fresh]
        exact serial.below earlier member
      · rw [rows, sequence]
        intro row member
        rcases List.mem_append.mp member with old | new
        · exact Nat.lt_succ_of_lt (serial.below row old)
        · rw [List.mem_singleton.mp new, fresh]
          exact Nat.lt_succ_self _
  | marked =>
      refine ⟨?_, ?_⟩
      · change (List.map _ store.outbox).Pairwise _
        rw [List.pairwise_map]
        exact serial.increasing.imp fun less => by rwa [mark_id, mark_id]
      · intro row member
        obtain ⟨before, isBefore, rfl⟩ := mem_markPublished.mp member
        rw [mark_id]
        exact serial.below before isBefore

theorem serial_empty : Store.empty.Serial :=
  ⟨List.Pairwise.nil, fun _ member => absurd member List.not_mem_nil⟩

/-- The serial key determines the row. -/
theorem Serial.eq_of_id (serial : Serial store) {first second : OutboxRow}
    (isFirst : first ∈ store.outbox) (isSecond : second ∈ store.outbox)
    (same : first.id = second.id) : first = second := by
  have apart : (store.outbox.map OutboxRow.id).Nodup :=
    List.pairwise_map.mpr (serial.increasing.imp fun less => Nat.ne_of_lt less)
  exact List.inj_on_of_nodup_map apart isFirst isSecond same

/-- Every call keeps what the rows publish. -/
theorem OutboxStep.intent_kept (step : OutboxStep store call next) {row : OutboxRow}
    (member : row ∈ store.outbox) :
    ∃ kept ∈ next.outbox, kept.intent = row.intent ∧ (row.published = true → kept = row) := by
  cases step with
  | kept rows sequence =>
      rw [rows]
      exact ⟨row, member, rfl, fun _ => rfl⟩
  | added rows fresh unpublished sequence =>
      rw [rows]
      exact ⟨row, List.mem_append_left _ member, rfl, fun _ => rfl⟩
  | @marked outboxId =>
      refine ⟨_, mem_markPublished.mpr ⟨row, member, rfl⟩, mark_intent outboxId row, ?_⟩
      intro published
      split
      · cases row
        cases published
        rfl
      · rfl

/-! ### Fetching -/

/-- The unpublished rows, in the order they are fetched. -/
theorem Serial.fetchUnpublished_eq (serial : Serial store) (limit : ℕ) :
    store.fetchUnpublished limit =
      (store.outbox.filter fun row => !row.published).take limit := by
  unfold fetchUnpublished
  rw [List.mergeSort_of_pairwise]
  apply (serial.increasing.filter _).imp
  intro earlier later less
  exact decide_eq_true less.le

theorem Serial.fetched_increasing (serial : Serial store) (limit : ℕ) :
    (store.fetchUnpublished limit).Pairwise fun earlier later => earlier.id < later.id := by
  rw [serial.fetchUnpublished_eq]
  exact (serial.increasing.filter _).sublist (List.take_sublist _ _)

theorem Serial.mem_fetched (serial : Serial store) {limit : ℕ} {row : OutboxRow}
    (member : row ∈ store.fetchUnpublished limit) : row ∈ store.outbox ∧ row.published = false := by
  rw [serial.fetchUnpublished_eq] at member
  obtain ⟨isRow, unpublished⟩ := List.mem_filter.mp (List.mem_of_mem_take member)
  exact ⟨isRow, by simpa using unpublished⟩

/-- Among rows with increasing keys, a row is one of the first so many when fewer
rows come before it. -/
theorem mem_take_iff {rows : List OutboxRow} {row : OutboxRow} (member : row ∈ rows)
    (increasing : rows.Pairwise fun earlier later => earlier.id < later.id) (limit : ℕ) :
    row ∈ rows.take limit ↔ (rows.countP fun other => other.id < row.id) < limit := by
  induction rows generalizing limit with
  | nil => cases member
  | cons first later ih =>
      obtain ⟨ahead, rest⟩ := List.pairwise_cons.mp increasing
      cases limit with
      | zero => simp
      | succ limit =>
          rw [List.take_succ_cons, List.mem_cons, List.countP_cons]
          rcases List.mem_cons.mp member with rfl | inLater
          · have none : later.countP (fun other => decide (other.id < row.id)) = 0 := by
              rw [List.countP_eq_zero]
              intro other isOther
              simp only [decide_eq_true_eq]
              exact Nat.not_lt_of_lt (ahead other isOther)
            simp [none]
          · have before := ahead row inLater
            have distinct : row ≠ first := by
              rintro rfl
              exact lt_irrefl _ before
            rw [ih inLater rest limit]
            simp [before, distinct]

/-- An unpublished row is fetched when fewer than the limit come before it. -/
theorem Serial.mem_fetchUnpublished_iff (serial : Serial store) {row : OutboxRow}
    (member : row ∈ store.outbox) (unpublished : row.published = false) (limit : ℕ) :
    row ∈ store.fetchUnpublished limit ↔
      (store.outbox.countP fun other => !other.published && other.id < row.id) < limit := by
  have isRow : row ∈ store.outbox.filter fun other => !other.published :=
    List.mem_filter.mpr ⟨member, by simp [unpublished]⟩
  rw [serial.fetchUnpublished_eq, mem_take_iff isRow (serial.increasing.filter _),
    List.countP_filter]
  simp only [Bool.and_comm]

end Store

/-! ### The relays -/

namespace OutboxRelay

/-- Any number of relays on one store, with the other calls of the store. Any
publication can succeed or fail. -/
def relays (κ : Type) :
    Tasks κ Store ℕ Unit RelayCall RelayCall.Answer ℕ Store.Call where
  answers _ store operation answer next :=
    match operation, answer with
    | .fetchUnpublished limit, answer => answer = store.fetchUnpublished limit ∧ next = store
    | .publish _, _ => next = store
    | .markPublished outboxId, _ => next = store.markPublished outboxId
  outside store call next :=
    (∀ outboxId, call ≠ .markPublished outboxId) ∧ next = (Store.object.respond call store).2
  body _ _ limit := publishBatch limit
  keep _ := ()
  fresh _ := ()

/-- What happens in a run of the relays. -/
abbrev Event (κ : Type) : Type := Tasks.Event κ ℕ RelayCall RelayCall.Answer ℕ Store.Call

abbrev RelayState (κ : Type) : Type := Tasks.State κ Store ℕ Unit RelayCall RelayCall.Answer ℕ

abbrev RelayExchange : Type := Exchange RelayCall RelayCall.Answer

/-- These rows are fetched. -/
def fetch (limit : ℕ) (records : List OutboxRow) : RelayExchange :=
  ⟨.fetchUnpublished limit, records⟩

/-- A publication of the record returns this. -/
def publication (record : OutboxRow) (accepted : Bool) : RelayExchange :=
  ⟨.publish record, accepted⟩

def mark (outboxId : ℕ) : RelayExchange := ⟨.markPublished outboxId, ()⟩

/-- A batch that published these records and stopped at the first of the others. -/
def batchExchanges (limit : ℕ) (accepted refused : List OutboxRow) : List RelayExchange :=
  fetch limit (accepted ++ refused) ::
    accepted.flatMap (fun record => [publication record true, mark record.id]) ++
    (refused.take 1).map fun record => publication record false

variable {made : List RelayExchange}

/-- The program of a batch with one more row to publish. -/
theorem publishRecords_cons (record : OutboxRow) (later : List OutboxRow) (published : ℕ) :
    publishRecords (record :: later) published = .call (.publish record) fun answer =>
      if answer then .call (.markPublished record.id) fun _ => publishRecords later (published + 1)
      else .done published := by
  apply congrArg (Program.call (RelayCall.publish record))
  funext answer
  cases answer <;> rfl

/-- A finished batch. -/
theorem publishRecords_path {records : List OutboxRow} {published total : ℕ}
    (path : Path (publishRecords records published) made (.done total)) :
    ∃ accepted refused, records = accepted ++ refused ∧ total = published + accepted.length ∧
      made = accepted.flatMap (fun record => [publication record true, mark record.id]) ++
        (refused.take 1).map fun record => publication record false := by
  induction records generalizing published made with
  | nil =>
      obtain ⟨rfl, rfl⟩ := Path.of_done path
      exact ⟨[], [], rfl, rfl, rfl⟩
  | cons record later ih =>
      rw [publishRecords_cons] at path
      cases path with
      | @cons _ _ answer _ _ rest =>
          cases answer with
          | false =>
              obtain ⟨rfl, rfl⟩ := Path.of_done rest
              exact ⟨[], record :: later, rfl, rfl, rfl⟩
          | true =>
              cases rest with
              | cons rest =>
                  obtain ⟨accepted, refused, rfl, rfl, rfl⟩ := ih rest
                  refine ⟨record :: accepted, refused, rfl, ?_, rfl⟩
                  rw [List.length_cons]
                  omega

/-- A batch marks a record only after its publication. -/
theorem publishRecords_marks {records : List OutboxRow} {published outboxId : ℕ}
    {next : Unit → Program RelayCall RelayCall.Answer ℕ}
    (path : Path (publishRecords records published) made (.call (.markPublished outboxId) next)) :
    ∃ record ∈ records, record.id = outboxId ∧ publication record true ∈ made := by
  induction records generalizing published made with
  | nil => cases path
  | cons record later ih =>
      rw [publishRecords_cons] at path
      cases path with
      | @cons _ _ answer _ _ rest =>
          cases answer with
          | false => cases rest
          | true =>
              cases rest with
              | nil => exact ⟨record, List.mem_cons_self, rfl, List.mem_cons_self⟩
              | cons rest =>
                  obtain ⟨other, member, same, isMade⟩ := ih rest
                  exact ⟨other, List.mem_cons_of_mem _ member, same,
                    List.mem_cons_of_mem _ (List.mem_cons_of_mem _ isMade)⟩

theorem publishBatch_path {limit total : ℕ} (path : Path (publishBatch limit) made (.done total)) :
    ∃ accepted refused, made = batchExchanges limit accepted refused ∧
      total = accepted.length := by
  obtain ⟨records, later, rfl, rest⟩ := Path.of_perform path
  obtain ⟨accepted, refused, rfl, counted, rfl⟩ := publishRecords_path rest
  exact ⟨accepted, refused, rfl, counted.trans (Nat.zero_add _)⟩

theorem publishBatch_marks {limit outboxId : ℕ}
    {next : Unit → Program RelayCall RelayCall.Answer ℕ}
    (path : Path (publishBatch limit) made (.call (.markPublished outboxId) next)) :
    ∃ records, fetch limit records ∈ made ∧ ∃ record ∈ records, record.id = outboxId ∧
      publication record true ∈ made := by
  change Path (.call (.fetchUnpublished limit) fun records => publishRecords records 0) made _
    at path
  cases path with
  | @cons _ _ records _ _ rest =>
      obtain ⟨record, member, same, isMade⟩ := publishRecords_marks rest
      exact ⟨records, List.mem_cons_self, record, member, same, List.mem_cons_of_mem _ isMade⟩

/-! ### Runs -/

variable {κ : Type} [DecidableEq κ] {state next : RelayState κ} {label : Event κ}
  {past : List (Event κ)}

/-- Every step of the relays does to the outbox what some call of the store does. -/
theorem outboxStep_of_step (step : (relays κ).Step state label next) :
    ∃ call, state.shared.OutboxStep call next.shared := by
  have still : ∃ call, state.shared.OutboxStep call state.shared :=
    ⟨.markPublished 0, .kept rfl le_rfl⟩
  cases step with
  | began | ended | crashed => exact still
  | @called _ _ _ operation _ _ _ here answered =>
      cases operation with
      | fetchUnpublished limit =>
          obtain ⟨_, rfl⟩ := answered
          exact still
      | publish record =>
          cases answered
          exact still
      | markPublished outboxId =>
          cases answered
          exact ⟨_, .marked⟩
  | outside moved =>
      obtain ⟨_, rfl⟩ := moved
      exact ⟨_, (Store.respond_step _ _).outboxStep⟩

/-- What the outbox knows about the exchanges so far. -/
structure Relayed (past : List (Event κ)) (store : Store) : Prop where
  serial : store.Serial
  fetched : ∀ member limit records, Tasks.Event.called member (fetch limit records) ∈ past →
    records.Pairwise (fun earlier later => earlier.id < later.id) ∧
      ∀ record ∈ records, record.published = false ∧ ∃ row ∈ store.outbox, row.intent = record
  published : ∀ row ∈ store.outbox, row.published = true →
    ∃ member, Tasks.Event.called member (publication row.intent true) ∈ past
  marked : ∀ member outboxId, Tasks.Event.called member (mark outboxId) ∈ past →
    ∃ row ∈ store.outbox, row.id = outboxId ∧ row.published = true

/-- One step keeps what was known; what its own label adds is left to show. -/
theorem Relayed.snoc (relayed : Relayed past state.shared)
    (step : (relays κ).Step state label next)
    (fetches : ∀ member limit records, label = .called member (fetch limit records) →
      records.Pairwise (fun earlier later => earlier.id < later.id) ∧
        ∀ record ∈ records, record.published = false ∧
          ∃ row ∈ next.shared.outbox, row.intent = record)
    (publishes : ∀ row ∈ next.shared.outbox, row.published = true →
      row ∈ state.shared.outbox ∨
        ∃ member, Tasks.Event.called member (publication row.intent true) ∈ past)
    (marks : ∀ member outboxId, label = .called member (mark outboxId) →
      ∃ row ∈ next.shared.outbox, row.id = outboxId ∧ row.published = true) :
    Relayed (past ++ [label]) next.shared := by
  obtain ⟨call, changes⟩ := outboxStep_of_step step
  refine ⟨relayed.serial.step changes, ?_, ?_, ?_⟩
  · intro member limit records called
    rcases List.mem_append.mp called with earlier | last
    · obtain ⟨increasing, known⟩ := relayed.fetched member limit records earlier
      refine ⟨increasing, fun record isRecord => ?_⟩
      obtain ⟨unpublished, row, isRow, same⟩ := known record isRecord
      obtain ⟨kept, isKept, sameIntent, _⟩ := changes.intent_kept isRow
      exact ⟨unpublished, kept, isKept, sameIntent.trans same⟩
    · exact fetches member limit records (List.mem_singleton.mp last).symm
  · intro row isRow published
    rcases publishes row isRow published with old | ⟨member, called⟩
    · obtain ⟨member, called⟩ := relayed.published row old published
      exact ⟨member, List.mem_append_left _ called⟩
    · exact ⟨member, List.mem_append_left _ called⟩
  · intro member outboxId called
    rcases List.mem_append.mp called with earlier | last
    · obtain ⟨row, isRow, same, published⟩ := relayed.marked member outboxId earlier
      obtain ⟨kept, isKept, _, unchanged⟩ := changes.intent_kept isRow
      cases unchanged published
      exact ⟨row, isKept, same, published⟩
    · exact marks member outboxId (List.mem_singleton.mp last).symm

/-- A step that marks nothing adds no published row. -/
theorem published_of_unmarked {store after : Store} {call : Store.Call}
    (changes : store.OutboxStep call after)
    (unmarked : ∀ outboxId, call ≠ .markPublished outboxId) :
    ∀ row ∈ after.outbox, row.published = true → row ∈ store.outbox := by
  intro row isRow published
  cases changes with
  | kept rows sequence => rwa [rows] at isRow
  | added rows fresh unpublished sequence =>
      rw [rows] at isRow
      rcases List.mem_append.mp isRow with old | new
      · exact old
      · rw [List.mem_singleton.mp new, unpublished] at published
        cases published
  | marked => exact absurd rfl (unmarked _)

/-- A relay marks the row whose publication it has seen to succeed. -/
theorem Relayed.mark_step (relayed : Relayed past state.shared) {member : κ} {limit : ℕ}
    {records : List OutboxRow} {record : OutboxRow}
    (step : (relays κ).Step state (.called member (mark record.id)) next)
    (effect : next.shared = state.shared.markPublished record.id)
    (fetched : Tasks.Event.called member (fetch limit records) ∈ past)
    (isRecord : record ∈ records)
    (accepted : Tasks.Event.called member (publication record true) ∈ past) :
    Relayed (past ++ [.called member (mark record.id)]) next.shared := by
  obtain ⟨_, row, isRow, same⟩ := (relayed.fetched member limit records fetched).2 record isRecord
  have sameId : row.id = record.id := by
    rw [← same]
    rfl
  apply relayed.snoc step
  · exact fun _ _ _ other => by cases other
  · intro after isAfter published
    rw [effect] at isAfter
    obtain ⟨before, isBefore, rfl⟩ := Store.mem_markPublished.mp isAfter
    by_cases own : before.id = record.id
    · -- the marked row is the fetched one, whose publication succeeded
      right
      rw [Store.mark_intent, relayed.serial.eq_of_id isBefore isRow (own.trans sameId.symm), same]
      exact ⟨member, accepted⟩
    · left
      rw [if_neg own]
      exact isBefore
  · intro marker outboxId isLabel
    cases isLabel
    rw [effect]
    refine ⟨_, Store.mem_markPublished.mpr ⟨row, isRow, if_pos sameId⟩, sameId, rfl⟩

theorem relayed_of_trace {labels : List (Event κ)}
    (trace : Trace (relays κ).Step ((relays κ).start .empty) labels state) :
    Relayed labels state.shared := by
  induction trace with
  | nil =>
      exact ⟨Store.serial_empty, fun _ _ _ called => absurd called List.not_mem_nil,
        fun _ member => absurd member List.not_mem_nil,
        fun _ _ called => absurd called List.not_mem_nil⟩
  | @snoc labels before after label earlier step ih =>
      have same : before.shared = after.shared → ∀ row ∈ after.shared.outbox,
          row.published = true → row ∈ before.shared.outbox ∨
            ∃ member, Tasks.Event.called member (publication row.intent true) ∈ labels :=
        fun same row isRow _ => Or.inl (same ▸ isRow)
      have silent : (∀ member exchange, label ≠ .called member exchange) →
          before.shared = after.shared → Relayed (labels ++ [label]) after.shared := by
        intro quiet unchanged
        exact ih.snoc step (fun _ _ _ called => absurd called (quiet _ _)) (same unchanged)
          fun _ _ called => absurd called (quiet _ _)
      cases step with
      | began idle => exact silent (fun _ _ called => by cases called) rfl
      | ended here => exact silent (fun _ _ called => by cases called) rfl
      | crashed => exact silent (fun _ _ called => by cases called) rfl
      | @outside call store moved =>
          obtain ⟨unmarked, rfl⟩ := moved
          apply ih.snoc (.outside ⟨unmarked, rfl⟩)
          · exact fun _ _ _ called => by cases called
          · intro row isRow published
            exact Or.inl (published_of_unmarked (Store.respond_step _ _).outboxStep unmarked row
              isRow published)
          · exact fun _ _ called => by cases called
      | @called member limit made operation rest answer store here answered =>
          have made_called : ∀ exchange ∈ made, Tasks.Event.called member exchange ∈ labels :=
            fun exchange => Tasks.called_of_made earlier here
          have whole := Tasks.Step.called here answered
          cases operation with
          | fetchUnpublished bound =>
              obtain ⟨rfl, rfl⟩ := answered
              apply ih.snoc whole
              · intro fetcher fetchLimit records called
                cases called
                refine ⟨ih.serial.fetched_increasing _, fun record isRecord => ?_⟩
                obtain ⟨isRow, unpublished⟩ := ih.serial.mem_fetched isRecord
                refine ⟨unpublished, record, isRow, ?_⟩
                cases record
                cases unpublished
                rfl
              · exact same rfl
              · exact fun _ _ called => by cases called
          | publish record =>
              cases answered
              apply ih.snoc whole
              · exact fun _ _ _ called => by cases called
              · exact same rfl
              · exact fun _ _ called => by cases called
          | markPublished outboxId =>
              obtain ⟨records, fetched, record, isRecord, rfl, accepted⟩ :=
                publishBatch_marks (Tasks.consistent_of_trace earlier _ _ here)
              exact ih.mark_step whole answered (made_called _ fetched) isRecord
                (made_called _ accepted)

/-- From a state of a run on, a row keeps what it publishes; once it is marked it
stays marked and is not fetched again. -/
theorem row_kept {row : OutboxRow} (member : row ∈ state.shared.outbox)
    (serial : state.shared.Serial) {labels : List (Event κ)}
    (trace : Trace (relays κ).Step state labels next) :
    next.shared.Serial ∧ ∃ kept ∈ next.shared.outbox, kept.intent = row.intent ∧
      (row.published = true → kept = row ∧
        ∀ fetcher limit records, Tasks.Event.called fetcher (fetch limit records) ∈ labels →
          ∀ record ∈ records, record.id ≠ row.id) := by
  induction trace with
  | nil =>
      exact ⟨serial, row, member, rfl, fun _ =>
        ⟨rfl, fun _ _ _ called => absurd called List.not_mem_nil⟩⟩
  | @snoc labels before after label earlier step ih =>
      obtain ⟨ordered, kept, isKept, same, unmarked⟩ := ih
      obtain ⟨call, changes⟩ := outboxStep_of_step step
      obtain ⟨later, isLater, sameLater, unchanged⟩ := changes.intent_kept isKept
      refine ⟨ordered.step changes, later, isLater, sameLater.trans same, fun published => ?_⟩
      obtain ⟨rfl, unfetched⟩ := unmarked published
      refine ⟨unchanged published, ?_⟩
      intro fetcher limit records called record isRecord
      rcases List.mem_append.mp called with old | last
      · exact unfetched fetcher limit records old record isRecord
      · cases List.mem_singleton.mp last
        cases step with
        | called here answered =>
            obtain ⟨rfl, _⟩ := answered
            obtain ⟨isRow, unpublished⟩ := ordered.mem_fetched isRecord
            intro sameId
            rw [ordered.eq_of_id isRow isKept sameId, published] at unpublished
            cases unpublished

/-- A finished batch published the rows it fetched in the order of their keys up to
the first failure, and the rows before it are marked. -/
theorem batch_of_trace {labels : List (Event κ)}
    (trace : Trace (relays κ).Step ((relays κ).start .empty) labels state) {member : κ}
    {limit total : ℕ} (ended : Tasks.Event.ended member limit made total ∈ labels) :
    ∃ accepted refused, made = batchExchanges limit accepted refused ∧ total = accepted.length ∧
      (accepted ++ refused).Pairwise (fun earlier later => earlier.id < later.id) ∧
      ∀ record ∈ accepted, { record with published := true } ∈ state.shared.outbox := by
  have relayed := relayed_of_trace trace
  obtain ⟨⟨_, path⟩, calls⟩ := Tasks.ended_of_trace trace ended
  obtain ⟨accepted, refused, rfl, counted⟩ := publishBatch_path path
  obtain ⟨increasing, known⟩ :=
    relayed.fetched member limit (accepted ++ refused) (calls _ List.mem_cons_self)
  refine ⟨accepted, refused, rfl, counted, increasing, ?_⟩
  intro record isRecord
  have isMark : mark record.id ∈ batchExchanges limit accepted refused := by
    apply List.mem_append_left
    apply List.mem_cons_of_mem
    exact List.mem_flatMap.mpr ⟨record, isRecord, by simp⟩
  obtain ⟨marked, isMarked, sameId, published⟩ := relayed.marked member _ (calls _ isMark)
  obtain ⟨unpublished, row, isRow, same⟩ := known record (List.mem_append_left _ isRecord)
  have rowId : row.id = record.id := by
    rw [← same]
    rfl
  cases relayed.serial.eq_of_id isMarked isRow (sameId.trans rowId.symm)
  rw [← same]
  cases marked
  cases published
  exact isMarked

end OutboxRelay

/-- **Nothing is lost between racing relays.** In every run of relays whose calls
interleave with each other, with new rows and with crashes: a marked row was
published successfully before; from any state on, a row keeps what it publishes,
stays marked once it is, and is then never fetched again; an unmarked row is
fetched as soon as fewer unmarked rows than the limit precede it; and a batch that
is not cut short publishes the rows it fetched in the order of their keys, marking
exactly those before its first failure. -/
theorem outbox_relayed {κ : Type} [DecidableEq κ] {labels : List (OutboxRelay.Event κ)}
    {state : OutboxRelay.RelayState κ}
    (trace : Trace (OutboxRelay.relays κ).Step ((OutboxRelay.relays κ).start .empty) labels
      state) :
    (∀ row ∈ state.shared.outbox, row.published = true → ∃ member,
      Tasks.Event.called member (OutboxRelay.publication row.intent true) ∈ labels) ∧
    (∀ later final, Trace (OutboxRelay.relays κ).Step state later final →
      ∀ row ∈ state.shared.outbox, ∃ kept ∈ final.shared.outbox, kept.intent = row.intent ∧
        (row.published = true → kept = row ∧
          ∀ member limit records,
            Tasks.Event.called member (OutboxRelay.fetch limit records) ∈ later →
            ∀ record ∈ records, record.id ≠ row.id)) ∧
    (∀ row ∈ state.shared.outbox, row.published = false → ∀ limit,
      row ∈ state.shared.fetchUnpublished limit ↔
        (state.shared.outbox.countP fun other => !other.published && other.id < row.id) < limit) ∧
    ∀ member limit made total, Tasks.Event.ended member limit made total ∈ labels →
      ∃ accepted refused, made = OutboxRelay.batchExchanges limit accepted refused ∧
        total = accepted.length ∧
        (accepted ++ refused).Pairwise (fun earlier later => earlier.id < later.id) ∧
        ∀ record ∈ accepted, { record with published := true } ∈ state.shared.outbox := by
  have relayed := OutboxRelay.relayed_of_trace trace
  refine ⟨relayed.published, ?_, ?_, ?_⟩
  · intro later final continued row member
    exact (OutboxRelay.row_kept member relayed.serial continued).2
  · exact fun row member unpublished => relayed.serial.mem_fetchUnpublished_iff member unpublished
  · exact fun member limit made total ended => OutboxRelay.batch_of_trace trace ended

/-- Two relays fetch and publish the same row; one marks it, the other crashes. -/
theorem outbox_relayed_rivals :
    ∃ (labels : List (OutboxRelay.Event Bool)) (state : OutboxRelay.RelayState Bool),
      state.shared.outbox.map OutboxRow.published = [true] ∧
      ∀ row ∈ state.shared.outbox, row.published = true → ∃ member,
        Tasks.Event.called member (OutboxRelay.publication row.intent true) ∈ labels := by
  let row : OutboxRow := ⟨1, dlqTopic, "0:5".toList, "78".toList, 0, 5, false⟩
  let batch : List OutboxRelay.RelayExchange :=
    [OutboxRelay.fetch 10 [row], OutboxRelay.publication row true, OutboxRelay.mark 1]
  let labels : List (OutboxRelay.Event Bool) :=
    [.outside (.recordPoison 0 5 ['x'] []), .began true 10, .began false 10,
      .called true (OutboxRelay.fetch 10 [row]), .called false (OutboxRelay.fetch 10 [row]),
      .called true (OutboxRelay.publication row true),
      .called false (OutboxRelay.publication row true), .called true (OutboxRelay.mark 1),
      .crashed false, .ended true 10 batch 1].foldl (fun past label => past ++ [label]) []
  let store := (Store.object.respond (.recordPoison 0 5 ['x'] []) .empty).2
  have fetched : [row] = store.fetchUnpublished 10 := by
    have serial := Store.serial_empty.step
      (Store.respond_step (.recordPoison 0 5 ['x'] []) .empty).outboxStep
    rw [serial.fetchUnpublished_eq]
    decide
  have raced : Trace (OutboxRelay.relays Bool).Step ((OutboxRelay.relays Bool).start .empty)
      labels _ :=
    (((((((((Trace.nil.snoc (.outside ⟨by simp, rfl⟩)).snoc
      (.began rfl)).snoc (.began rfl)).snoc (.called rfl (by exact ⟨fetched, rfl⟩))).snoc
      (.called rfl (by exact ⟨fetched, rfl⟩))).snoc (.called rfl rfl)).snoc
      (.called rfl rfl)).snoc (.called rfl rfl)).snoc .crashed).snoc (.ended rfl)
  exact ⟨labels, _, by decide, (outbox_relayed raced).1⟩

end InferSched.Durable

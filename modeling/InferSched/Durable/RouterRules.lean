import InferSched.Durable.Router

/-! # The programs of a router under rules

One walk through each program of the loop, for any rules on its calls. Rules that allow the
plain calls have to allow the others where the program makes them, with the facts that it has
learned by then. Particular rules say no more than why they do.
-/

namespace InferSched.Durable

open Library

/-- The calls that write neither a row of a request nor a position: the reads, a partition
acquired, an attempt started and its dispatch. -/
def RouterCall.Plain : RouterCall → Prop
  | .owns _ | .acquirePartition _ _ | .recoverUnresolved | .assignAttempt _ _ _ _
  | .isTerminal _ | .isSourcePublished _ _ | .dispatch _ _ => True
  | _ => False

namespace Router

open Program

variable {φ : Type} {rules : Rules RouterCall RouterCall.Answer φ} {known : Set φ}
  {setup : RouterSetup} {router : Router} {engineId : Text} {message : KafkaMessage}

/-- A payload is recorded as poison where it is malformed, and ingested where it is not. -/
theorem handle_within
    (poisons : setup.parsed message.payload = none → rules.allowed known
      (.recordPoison message.partitionId message.offset message.payload
        "invalid_inference_request".toList))
    (ingests : ∀ request, setup.parsed message.payload = some request → rules.allowed known
      (.ingest request.requestId message.partitionId message.offset message.payload)) :
    Within rules (fun _ _ => True) known (handle setup router message) := by
  unfold handle
  dsimp only
  split
  · next malformed =>
      split
      · trivial
      · exact within_perform (poisons malformed) fun _ => trivial
  · next request parsed => exact within_perform (ingests request parsed) fun _ => trivial

section Plain

variable (plain : ∀ facts (call : RouterCall), call.Plain → rules.allowed facts call)

include plain

/-- A position is marked where the store has said that it is published. -/
theorem publishAndMark_within
    (publishes : ∀ facts, Within rules (fun _ _ => True) facts (publishBatch 1000))
    (marks : ∀ facts,
      rules.learns (.isSourcePublished message.partitionId message.offset) true ⊆ facts →
      rules.allowed facts (.markPublishComplete message.partitionId message.offset)) :
    Within rules (fun _ _ => True) known (publishAndMark message) := by
  apply within_then (publishes known)
  intro facts _
  apply within_perform (plain _ (.isSourcePublished _ _) trivial)
  intro published
  cases published with
  | false => trivial
  | true => exact within_perform (marks _ Set.subset_union_right) fun _ => trivial

/-- A request is completed where its attempt was dispatched and gave an output. -/
theorem execute_within {request : InferenceRequest} {partitionId : ℤ}
    (finalizes : ∀ facts epoch (assignment : Assignment) (text : Text), known ⊆ facts →
      rules.learns (.assignAttempt request.requestId partitionId epoch engineId)
        (some assignment) ⊆ facts →
      rules.learns (.dispatch request assignment.fence) text ⊆ facts → text ≠ [] →
      rules.allowed facts (.finalize request.requestId assignment.fence
        (resultEnvelope request assignment.fence text))) :
    Within rules (fun _ _ => True) known (router.execute engineId request partitionId) := by
  unfold execute
  split
  · trivial
  · next epoch _ =>
      apply within_perform (plain _ (.owns _) trivial)
      intro owned
      split
      · trivial
      · apply within_perform (plain _ (.assignAttempt _ _ _ _) trivial)
        intro assigned
        cases assigned with
        | none => trivial
        | some assignment =>
            apply within_perform (plain _ (.dispatch _ _) trivial)
            intro text
            split
            · trivial
            · next output =>
                refine ⟨finalizes _ epoch assignment text ?_ ?_ ?_ output, fun _ => trivial⟩
                · exact Set.subset_union_left.trans
                    (Set.subset_union_left.trans Set.subset_union_left)
                · exact Set.subset_union_right.trans Set.subset_union_left
                · exact Set.subset_union_right

theorem acquireAll_within (routerId : Text) (partitions : List ℤ) (router : Router) :
    Within rules (fun _ _ => True) known (acquireAll routerId partitions router) := by
  induction partitions generalizing router known with
  | nil => trivial
  | cons partitionId later ih =>
      exact within_perform (plain _ (.acquirePartition _ _) trivial) fun _ => ih _

omit plain in
theorem recoverAll_within {unresolved : List RecoveredRequest} (router : Router)
    (publishes : ∀ facts, Within rules (fun _ _ => True) facts (publishBatch 1000))
    (executes : ∀ facts, known ⊆ facts → ∀ recovered ∈ unresolved, ∀ request,
      setup.parse recovered.rawPayload = some request → ∀ router : Router,
        Within rules (fun _ _ => True) facts
          (router.execute engineId request recovered.sourcePartition)) :
    Within rules (fun _ _ => True) known (recoverAll setup engineId unresolved router) := by
  induction unresolved generalizing router known with
  | nil => trivial
  | cons recovered later ih =>
      have others : ∀ facts, known ⊆ facts → ∀ router : Router,
          Within rules (fun _ _ => True) facts (recoverAll setup engineId later router) := by
        intro facts more router
        apply ih
        intro larger further other member
        exact executes larger (more.trans further) other (List.mem_cons_of_mem _ member)
      unfold recoverAll
      split
      · exact others known le_rfl _
      · split
        · exact others known le_rfl _
        · next request parsed =>
            apply within_seq (executes known le_rfl recovered List.mem_cons_self request parsed _)
            intro facts executed more
            split
            · apply within_seq (publishes facts)
              exact fun larger _ further => others larger (more.trans further) _
            · exact others facts more _

/-- A message is executed with at least the facts that its router had. -/
theorem handleMessage_within
    (handles : Within rules (fun _ _ => True) known (handle setup router message))
    (publishes : ∀ facts, Within rules (fun _ _ => True) facts (publishAndMark message))
    (executes : ∀ facts, known ⊆ facts → ∀ request,
      setup.parse message.payload = some request → ∀ router : Router,
        Within rules (fun _ _ => True) facts
          (router.execute engineId request message.partitionId)) :
    Within rules (fun _ _ => True) known (handleMessage setup engineId router message) := by
  apply within_seq handles
  intro facts handled more
  obtain ⟨outcome, router⟩ := handled
  cases outcome with
  | retryParse => trivial
  | poisonRecorded => exact within_then (publishes facts) fun _ _ => trivial
  | inserted | duplicate =>
      dsimp only
      split
      · trivial
      · next request parsed =>
          apply within_perform (plain _ (.isTerminal _) trivial)
          intro terminal
          split
          · exact within_then (publishes _) fun _ _ => trivial
          · apply within_then
              (executes _ (more.trans Set.subset_union_left) request parsed _)
            intro facts executed
            split
            · apply within_then (publishes facts)
              intro _ marked
              split <;> trivial
            · trivial

/-- A turn recovers the rows that it has read, and handles the message that it has popped. -/
theorem turn_within (routerId : Text) (router : Router)
    (pops : ∀ facts, rules.allowed facts .popOwnershipEvent ∧ rules.allowed facts .pop)
    (recovers : ∀ facts (unresolved : List RecoveredRequest) (router : Router),
      rules.learns .recoverUnresolved unresolved ⊆ facts →
      Within rules (fun _ _ => True) facts (recoverAll setup engineId unresolved router))
    (handles : ∀ facts (message : KafkaMessage), rules.learns .pop (some message) ⊆ facts →
      Within rules (fun _ _ => True) facts (handleMessage setup engineId router message)) :
    Within rules (fun _ _ => True) known (router.turn setup routerId engineId) := by
  apply within_perform (pops known).1
  intro event
  match event with
  | some ⟨.revoked, partitions⟩ => trivial
  | some ⟨.assigned, partitions⟩ =>
      apply within_then (acquireAll_within plain routerId partitions router)
      intro facts router
      apply within_perform (plain _ .recoverUnresolved trivial)
      exact fun unresolved => recovers _ unresolved router Set.subset_union_right
  | none =>
      apply within_perform (pops _).2
      intro popped
      cases popped with
      | none => trivial
      | some message =>
          apply within_perform (plain _ (.owns _) trivial)
          intro owned
          split
          · trivial
          · exact handles _ message (Set.subset_union_right.trans Set.subset_union_left)

end Plain
end Router
end InferSched.Durable

import InferSched.Durable.RowStates
import InferSched.Gateway.Lifecycle

/-! # What a client is told

Routers with one store, the topic `inference.results` and any number of gateways that read
it. A client can ask any gateway for a request at any time. The gateway answers from the
results it has read (`_consume`), from its map of pending requests, or from the row of the
request (`result` of `app.py`), so two answers can come from a message on one side and from
the table on the other.

A message of the topic is delivered any number of times and in any order. A gateway can
lose its memory at any time. The row is read after the lock has been released, when the
routers may have gone on.
-/

namespace InferSched.Gateway

open Library

/-! ### Dictionaries -/

/-- A dictionary in the order in which its entries were written. -/
abbrev Members := List (List ℕ × Json)

/-- The last entry of a key counts. -/
def Members.value (members : Members) (key : List ℕ) : Option Json :=
  members.reverse.lookup key

/-- The dictionaries are equal. -/
def Members.Same (one two : Members) : Prop :=
  ∀ key, one.value key = two.value key

/-- An entry with a string. -/
def entry (key : String) (text : Text) : List ℕ × Json :=
  (Json.codes key.toList, .string (Json.codes text))

namespace Members

variable {one two : Members}

theorem value_append (one two : Members) (key : List ℕ) :
    (one ++ two).value key = (two.value key).or (one.value key) := by
  simp [value, List.lookup_append]

@[simp] theorem value_cons (key own : List ℕ) (json : Json) (rest : Members) :
    Members.value ((own, json) :: rest) key =
      (rest.value key).or (if key = own then some json else none) := by
  have alone : Members.value [(own, json)] key = if key = own then some json else none := by
    rw [value, List.reverse_singleton]
    by_cases same : key = own
    · rw [same, List.lookup_cons_self, if_pos rfl]
    · have differs : (key == own) = false := beq_eq_false_iff_ne.mpr same
      rw [List.lookup_cons, differs, if_neg same, List.lookup_nil]
  rw [← List.singleton_append, value_append, alone]

/-- An entry that is written again does not count. -/
theorem same_of_rewritten {key : List ℕ} {json : Json} {rest : Members}
    (again : (rest.value key).isSome) : Members.Same ((key, json) :: rest) rest := by
  intro query
  rw [value_cons]
  split
  · next isKey =>
      rw [isKey]
      obtain ⟨value, found⟩ := Option.isSome_iff_exists.mp again
      rw [found, Option.some_or]
  · rw [Option.or_none]

end Members

/-! ### The reader of results -/

/-- A decoded string. -/
def pyString (codes : List ℕ) : PyString :=
  codes.map fun code => ⟨code % 0x110000, Nat.mod_lt _ (Nat.succ_pos _)⟩

/-- The string that has this text. -/
def ofText (text : Text) : PyString :=
  pyString (Json.codes text)

theorem ofText_injective : Function.Injective ofText := by
  intro one two same
  have codes : Function.Injective fun letter : Char =>
      (⟨letter.toNat % 0x110000, Nat.mod_lt _ (Nat.succ_pos _)⟩ : CodePoint) := by
    intro letter other equal
    have values : letter.toNat % 0x110000 = other.toNat % 0x110000 := congrArg Fin.val equal
    have small : ∀ letter : Char, letter.toNat < 0x110000 := fun letter => by
      rcases letter.valid with low | ⟨_, high⟩
      · exact lt_trans low (by decide)
      · exact high
    rw [Nat.mod_eq_of_lt (small letter), Nat.mod_eq_of_lt (small other)] at values
    exact Char.toNat_inj.mp values
  refine List.map_injective_iff.mpr codes ?_
  simpa [ofText, pyString, Json.codes, Function.comp_def] using same

/-- What `_consume` makes of the value of a message. -/
inductive Receipt
  | skipped
  | kept (requestId : PyString) (result : Members)
  | raised

/-- `_consume` up to its section under the lock. The methods of a value that is no
dictionary are missing, and a list or a dictionary is no key. Under a number or a constant
nothing is found by a path, so the message is as good as skipped. -/
def receive (value : Text) : Receipt :=
  match Json.loads value with
  | none => .skipped
  | some (.object members) =>
      match Members.value members (Json.codes "request_id".toList) with
      | some (.string (code :: codes)) => .kept (pyString (code :: codes)) members
      | some (.array (_ :: _)) => .raised
      | some (.object (_ :: _)) => .raised
      | _ => .skipped
  | some _ => .raised

/-! ### The answers of a gateway -/

/-- What a handler returns or raises. -/
inductive Answer
  | dict (members : Members)
  | httpException (status : ℕ) (detail : String)
  | raised

/-- `{"state": "COMPLETED", **cached}`. -/
def cachedAnswer (cached : Members) : Members :=
  entry "state" "COMPLETED".toList :: cached

def statusAnswer (requestId status : Text) : Members :=
  [entry "request_id" requestId, entry "state" status]

/-- The answer from a row. A result that is not a dictionary cannot be unpacked. -/
def storedAnswer (requestId : Text) (row : Durable.RequestRow) : Answer :=
  match row.terminalResult with
  | none | some [] => .dict (statusAnswer requestId row.state)
  | some payload =>
      match Json.loads payload with
      | some (.object members) => .dict (statusAnswer requestId row.state ++ members)
      | _ => .raised

variable {κ ι τ : Type}

/-- `result` of `app.py`, with the row that it finds when it comes to look. -/
def answer (state : GatewayState τ Members) (requestId : Text)
    (row : Option Durable.RequestRow) : Answer :=
  match state.view (ofText requestId) row with
  | .completed cached => .dict (cachedAnswer cached)
  | .pending => .dict (statusAnswer requestId "PENDING".toList)
  | .stored row => storedAnswer requestId row
  | .notFound => .httpException 404 "request not found"

/-! ### Routers and gateways -/

/-- What is fixed: the log, the names, what engines give, and the capacities. -/
structure Installation (κ ι : Type) where
  setup : Durable.RouterSetup
  log : ℤ → ℤ → Text
  initial : ℤ → ℤ
  routerId : κ → Text
  engineId : κ → Text
  outputs : Durable.InferenceRequest → Durable.Fence → Text → Prop
  build : InferenceRequest → Option Bytes
  capacity : ι → ℤ

/-- The routers, the values of the topic of results, and the gateways. -/
structure Deployment (κ ι τ : Type) where
  routers : Team.Config κ (Durable.Cluster κ) Durable.RouterCall Durable.RouterCall.Answer
    Durable.Router
  topic : List Text
  gateways : ι → Frontend τ Members

/-- The row of a request. -/
def Deployment.row (deployment : Deployment κ ι τ) (requestId : Text) :
    Option Durable.RequestRow :=
  deployment.routers.shared.store.inferenceRequests.lookup requestId

namespace Installation

variable [DecidableEq κ] [DecidableEq ι] (site : Installation κ ι)

/-- The routers of the installation. -/
abbrev team : Team κ (Durable.Cluster κ) Durable.RouterCall Durable.RouterCall.Answer
    Durable.Router :=
  Durable.Router.servedTeam site.setup site.log site.routerId site.engineId site.outputs

/-- A gateway that has just started. -/
def newGateway (gateway : ι) : Frontend τ Members :=
  { state := { capacity := site.capacity gateway } }

/-- Nothing has run. -/
def start : Deployment κ ι τ :=
  ⟨site.team.initial (.start site.initial), [], site.newGateway⟩

inductive Step : Deployment κ ι τ → Deployment κ ι τ → Prop
  | route {deployment : Deployment κ ι τ}
      {next : Team.Config κ (Durable.Cluster κ) Durable.RouterCall Durable.RouterCall.Answer
        Durable.Router} (moved : site.team.Step deployment.routers next) :
      Step deployment { deployment with routers := next }
  | publish {deployment : Deployment κ ι τ} {record : Durable.OutboxRow}
      (publishes : Durable.Publishes deployment.routers record) :
      Step deployment { deployment with topic := deployment.topic ++ [record.payload] }
  | serve {deployment : Deployment κ ι τ} (gateway : ι) {event : Section Members}
      {next : Frontend τ Members}
      (step : Frontend.Step site.build (deployment.gateways gateway) event next)
      (reads : ∀ requestId result, event = .consumed requestId result →
        ∃ value ∈ deployment.topic, receive value = .kept requestId result) :
      Step deployment { deployment with
        gateways := Function.update deployment.gateways gateway next }
  | restart {deployment : Deployment κ ι τ} (gateway : ι) :
      Step deployment { deployment with
        gateways := Function.update deployment.gateways gateway (site.newGateway gateway) }

/-- Reached by any interleaving. -/
def Reachable (deployment : Deployment κ ι τ) : Prop :=
  Relation.ReflTransGen site.Step site.start deployment

/-- Before `final`, a gateway is asked for a request, looks for its row then or later, and
gives this answer. -/
def Gives (final : Deployment κ ι τ) (requestId : Text) (given : Answer) : Prop :=
  ∃ (asked read : Deployment κ ι τ) (gateway : ι), site.Reachable asked ∧
    Relation.ReflTransGen site.Step asked read ∧ Relation.ReflTransGen site.Step read final ∧
    given = answer (asked.gateways gateway).state requestId (read.row requestId)

/-- No string of a logged request or of an output for it needs an escape. -/
def Plain : Prop :=
  ∀ partitionId offset request fence text,
    site.setup.parse (site.log partitionId offset) = some request →
    site.outputs request fence text →
    ∀ field ∈ Durable.ResultEnvelope.fields request text, Durable.Unescaped field

end Installation

/-- The answer for a completed request. -/
def finalAnswer (request : Durable.InferenceRequest) (fence : Durable.Fence) (text : Text) :
    Members :=
  entry "state" Durable.completedState :: Durable.ResultEnvelope.members request fence text

/-- What can be told about a request. A completed one is told with the identifiers of a
logged request, the fence of its row, and an output that an engine gave for the two. -/
inductive Told (site : Installation κ ι) (final : Deployment κ ι τ) (requestId : Text) :
    Answer → Prop
  | unknown : Told site final requestId (.httpException 404 "request not found")
  | waiting {status : Text}
      (known : status = "PENDING".toList ∨ status = Durable.receivedState ∨
        status = Durable.dispatchedState) :
      Told site final requestId (.dict (statusAnswer requestId status))
  | completed {row : Durable.RequestRow} {fence : Durable.Fence}
      {request : Durable.InferenceRequest} {text : Text} {offset : ℤ} {members : Members}
      (found : final.row requestId = some row) (isCompleted : row.state = Durable.completedState)
      (isTerminal : row.terminalResult = some (Durable.resultEnvelope request fence text))
      (carries : row.Carries fence)
      (logged : site.setup.parse (site.log fence.partitionId offset) = some request)
      (own : request.requestId = requestId) (isOutput : site.outputs request fence text)
      (same : Members.Same members (finalAnswer request fence text)) :
      Told site final requestId (.dict members)

/-! ### Envelopes -/

section Envelope

variable {request : Durable.InferenceRequest} {fence : Durable.Fence} {text : Text}

theorem value_requestId (request : Durable.InferenceRequest) (fence : Durable.Fence)
    (text : Text) : Members.value (Durable.ResultEnvelope.members request fence text)
      (Json.codes "request_id".toList) = some (.string (Json.codes request.requestId)) :=
  Json.get?_of_mem (Durable.ResultEnvelope.members_distinct request fence text) (.head _)

/-- The reader keeps the members of an envelope under the id that they name. -/
theorem receive_envelope
    (plain : ∀ field ∈ Durable.ResultEnvelope.fields request text, Durable.Unescaped field) :
    receive (Durable.resultEnvelope request fence text) =
      if request.requestId = [] then .skipped
      else
        .kept (ofText request.requestId) (Durable.ResultEnvelope.members request fence text) := by
  unfold receive
  rw [Durable.ResultEnvelope.loads_envelope request fence text plain]
  simp only [value_requestId]
  cases named : request.requestId with
  | nil => rfl
  | cons letter rest => rfl

/-- Both ways to a completed answer give one dictionary. -/
theorem stored_same (request : Durable.InferenceRequest) (fence : Durable.Fence) (text : Text) :
    Members.Same (statusAnswer request.requestId Durable.completedState ++
      Durable.ResultEnvelope.members request fence text) (finalAnswer request fence text) := by
  refine @Members.same_of_rewritten _ _ (finalAnswer request fence text) ?_
  rw [finalAnswer, entry, Members.value_cons, value_requestId, Option.some_or]
  rfl

theorem storedAnswer_completed {row : Durable.RequestRow}
    (plain : ∀ field ∈ Durable.ResultEnvelope.fields request text, Durable.Unescaped field)
    (isCompleted : row.state = Durable.completedState)
    (isTerminal : row.terminalResult = some (Durable.resultEnvelope request fence text)) :
    storedAnswer request.requestId row = .dict (statusAnswer request.requestId
      Durable.completedState ++ Durable.ResultEnvelope.members request fence text) := by
  have loaded := Durable.ResultEnvelope.loads_envelope request fence text plain
  unfold storedAnswer
  rw [isTerminal, isCompleted]
  rw [Durable.ResultEnvelope.envelope_eq] at loaded ⊢
  simp only [loaded]

/-- An envelope determines the answer. -/
theorem finalAnswer_of_envelope {request' : Durable.InferenceRequest} {fence' : Durable.Fence}
    {text' : Text}
    (plain : ∀ field ∈ Durable.ResultEnvelope.fields request text, Durable.Unescaped field)
    (plain' : ∀ field ∈ Durable.ResultEnvelope.fields request' text', Durable.Unescaped field)
    (same : Durable.resultEnvelope request fence text =
      Durable.resultEnvelope request' fence' text') :
    finalAnswer request fence text = finalAnswer request' fence' text' := by
  have loaded := Durable.ResultEnvelope.loads_envelope request fence text plain
  rw [same, Durable.ResultEnvelope.loads_envelope request' fence' text' plain'] at loaded
  injection loaded with loaded
  injection loaded with members
  rw [finalAnswer, finalAnswer, members]

end Envelope

/-! ### What every deployment keeps -/

/-- A result that a gateway has was there, or it has just been read. -/
theorem Frontend.Step.results_lookup {build : InferenceRequest → Option Bytes}
    {gateway next : Frontend τ Members} {event : Section Members}
    (step : Frontend.Step build gateway event next) {requestId : PyString} {result : Members}
    (found : next.state.results.lookup requestId = some result) :
    gateway.state.results.lookup requestId = some result ∨
      event = .consumed requestId result := by
  cases step with
  | consumed own read now =>
      by_cases same : requestId = own
      · subst same
        simp only [GatewayState.consume, AList.lookup_insert] at found
        cases found
        exact Or.inr rfl
      · simp only [GatewayState.consume, AList.lookup_insert_ne same] at found
        exact Or.inl found
  | _ => exact Or.inl found

variable [DecidableEq κ] [DecidableEq ι] {site : Installation κ ι}
  {deployment next final : Deployment κ ι τ}

/-- What is in the topic was published for a completed request, and what a gateway has kept
it has read in the topic. -/
structure Sound (site : Installation κ ι) (deployment : Deployment κ ι τ) : Prop where
  routers : site.team.Reachable (.start site.initial) deployment.routers
  topic : ∀ value ∈ deployment.topic, ∃ record : Durable.OutboxRow, record.payload = value ∧
    deployment.routers.shared.store.Explains site.setup site.log site.outputs record
  kept : ∀ gateway requestId result,
    (deployment.gateways gateway).state.results.lookup requestId = some result →
    ∃ value ∈ deployment.topic, receive value = .kept requestId result

omit [DecidableEq ι] in
theorem Sound.start : Sound site (site.start : Deployment κ ι τ) where
  routers := .refl
  topic _ member := absurd member List.not_mem_nil
  kept _ _ _ found := by cases found

/-- A gateway with another state keeps the rest. -/
theorem Sound.update (sound : Sound site deployment) {gateway : ι} {frontend : Frontend τ Members}
    (read : ∀ requestId result, frontend.state.results.lookup requestId = some result →
      ∃ value ∈ deployment.topic, receive value = .kept requestId result) :
    Sound site { deployment with
      gateways := Function.update deployment.gateways gateway frontend } := by
  refine ⟨sound.routers, sound.topic, ?_⟩
  intro other requestId result found
  by_cases same : other = gateway
  · subst same
    simp only [Function.update_self] at found
    exact read requestId result found
  · simp only [Function.update_of_ne same] at found
    exact sound.kept other requestId result found

theorem Sound.step (sound : Sound site deployment) (step : site.Step deployment next) :
    Sound site next := by
  cases step with
  | route moved =>
      refine ⟨sound.routers.tail moved, ?_, sound.kept⟩
      intro value member
      obtain ⟨record, isValue, explains⟩ := sound.topic value member
      refine ⟨record, isValue, ?_⟩
      rcases Durable.Router.team_routed moved.of_answering with same | ⟨_, _, _, written⟩
      · rw [same]
        exact explains
      · exact explains.step written
  | @publish record publishes =>
      refine ⟨sound.routers, ?_, ?_⟩
      · intro value member
        rcases List.mem_append.mp member with old | new
        · exact sound.topic value old
        · exact ⟨record, (List.mem_singleton.mp new).symm,
            Durable.Router.explains_of_publishes sound.routers publishes⟩
      · intro gateway requestId result found
        obtain ⟨value, member, kept⟩ := sound.kept gateway requestId result found
        exact ⟨value, List.mem_append_left _ member, kept⟩
  | serve gateway step reads =>
      refine sound.update fun requestId result found => ?_
      rcases step.results_lookup found with old | new
      · exact sound.kept gateway requestId result old
      · exact reads requestId result new
  | restart gateway => exact sound.update fun requestId result found => by cases found

theorem Sound.of_reachable (reached : site.Reachable deployment) : Sound site deployment := by
  induction reached with
  | refl => exact .start
  | tail _ step ih => exact ih.step step

/-- A completed row stays. -/
theorem row_kept (steps : Relation.ReflTransGen site.Step deployment final) {requestId : Text}
    {row : Durable.RequestRow} (found : deployment.row requestId = some row)
    (isCompleted : row.state = Durable.completedState) : final.row requestId = some row := by
  induction steps with
  | refl => exact found
  | tail _ step ih =>
      cases step with
      | route moved =>
          rcases Durable.Router.team_routed moved.of_answering with same | ⟨_, _, _, written⟩
          · unfold Deployment.row
            rw [same]
            exact ih
          · exact written.terminal_kept ih (isCompleted ▸ Durable.Store.completed_terminal)
      | publish | serve | restart => exact ih

/-! ### The answers -/

/-- A result that a gateway has is a completed answer. -/
theorem told_cached (plain : site.Plain) {asked : Deployment κ ι τ} (sound : Sound site asked)
    (steps : Relation.ReflTransGen site.Step asked final) {gateway : ι} {requestId : Text}
    {cached : Members}
    (found : (asked.gateways gateway).state.results.lookup (ofText requestId) = some cached) :
    Told site final requestId (.dict (cachedAnswer cached)) := by
  obtain ⟨value, member, received⟩ := sound.kept gateway _ _ found
  obtain ⟨record, rfl, row, fence, isRow, isCompleted, isTerminal, _, _, carries, request, text,
    offset, logged, own, _, isOutput, isEnvelope⟩ := sound.topic value member
  have unescaped := plain _ _ request fence text logged isOutput
  rw [isEnvelope, receive_envelope unescaped] at received
  split at received
  · cases received
  · injection received with sameId sameMembers
    have named : request.requestId = requestId := ofText_injective sameId
    subst sameMembers
    rw [← own, named] at isRow
    rw [isEnvelope] at isTerminal
    exact .completed (row_kept steps isRow isCompleted) isCompleted isTerminal carries logged named
      isOutput fun _ => rfl

/-- The answer from a row is one that can be told. -/
theorem told_stored (plain : site.Plain) {read : Deployment κ ι τ} (sound : Sound site read)
    (steps : Relation.ReflTransGen site.Step read final) {requestId : Text}
    {row : Durable.RequestRow} (found : read.row requestId = some row) :
    Told site final requestId (storedAnswer requestId row) := by
  rcases Durable.Router.row_cases sound.routers found with ⟨isOpen, unfinished⟩ |
    ⟨isCompleted, fence, payload, isTerminal, carries, request, text, offset, logged, own, _,
      isOutput, rfl⟩
  · unfold storedAnswer
    rw [unfinished]
    exact .waiting (Or.inr isOpen)
  · have unescaped := plain _ _ request fence text logged isOutput
    subst own
    rw [storedAnswer_completed unescaped isCompleted isTerminal]
    exact .completed (row_kept steps found isCompleted) isCompleted isTerminal carries logged rfl
      isOutput (stored_same request fence text)

theorem told_of_gives (plain : site.Plain) {requestId : Text} {given : Answer}
    (gives : site.Gives final requestId given) : Told site final requestId given := by
  obtain ⟨asked, read, gateway, reached, meanwhile, later, rfl⟩ := gives
  have sound := Sound.of_reachable reached
  unfold answer GatewayState.view
  cases cached : (asked.gateways gateway).state.results.lookup (ofText requestId) with
  | some result => exact told_cached plain sound (meanwhile.trans later) cached
  | none =>
      by_cases pending :
          ((asked.gateways gateway).state.pending.lookup (ofText requestId)).isSome = true
      · simp only [if_pos pending]
        exact .waiting (Or.inl rfl)
      · cases found : read.row requestId with
        | none =>
            simp only [if_neg pending, Option.elim_none]
            exact .unknown
        | some row =>
            simp only [if_neg pending, Option.elim_some]
            exact told_stored plain (Sound.of_reachable (reached.trans meanwhile)) later found

/-- The dictionary says that the request is completed. -/
def SaysCompleted (members : Members) : Prop :=
  members.value (Json.codes "state".toList) = some (.string (Json.codes "COMPLETED".toList))

/-- Another state is not a completed one. -/
theorem not_saysCompleted {requestId status : Text}
    (known : status = "PENDING".toList ∨ status = Durable.receivedState ∨
      status = Durable.dispatchedState) : ¬ SaysCompleted (statusAnswer requestId status) := by
  have read : Members.value (statusAnswer requestId status) (Json.codes "state".toList) =
      some (.string (Json.codes status)) := by
    rw [statusAnswer, entry, entry, Members.value_cons, Members.value_cons, if_pos rfl]
    rfl
  intro completed
  rw [SaysCompleted, read] at completed
  injection completed with completed
  injection completed with completed
  rcases known with rfl | rfl | rfl <;> exact absurd completed (by decide)

/-- **Answers to clients.** Whatever routers and gateways do, if no string of the logged
requests and outputs needs an escape, every answer of every gateway about a request says one
of three things: the request is unknown; it is waiting, with the status of the gateway or of
the row; or it is completed, with the identifiers of a logged request of that id, the fence
that the row has, and an output that an engine gave for it. No answer is an error of the
server, and all answers that call a request completed are one dictionary, whether they come
from a message or from the table, from whichever gateway and however long apart. -/
theorem client_answers (plain : site.Plain) (final : Deployment κ ι τ) (requestId : Text) :
    (∀ given, site.Gives final requestId given → Told site final requestId given) ∧
    ∀ one two, site.Gives final requestId (.dict one) → site.Gives final requestId (.dict two) →
      SaysCompleted one → SaysCompleted two → one.Same two := by
  refine ⟨fun given gives => told_of_gives plain gives, ?_⟩
  intro one two givesOne givesTwo completedOne completedTwo
  have toldOne := told_of_gives plain givesOne
  have toldTwo := told_of_gives plain givesTwo
  cases toldOne with
  | waiting known => exact absurd completedOne (not_saysCompleted known)
  | completed found _ isTerminal _ logged _ isOutput same =>
      cases toldTwo with
      | waiting known => exact absurd completedTwo (not_saysCompleted known)
      | completed found' _ isTerminal' _ logged' _ isOutput' same' =>
          cases found.symm.trans found'
          have envelopes := Option.some.inj (isTerminal.symm.trans isTerminal')
          have answers := finalAnswer_of_envelope (plain _ _ _ _ _ logged isOutput)
            (plain _ _ _ _ _ logged' isOutput') envelopes
          intro key
          rw [same key, same' key, answers]

/-! ### A result in two gateways -/

/-- Routers reach what they reach without gateways. -/
theorem Installation.reachable_routers
    {config : Team.Config κ (Durable.Cluster κ) Durable.RouterCall Durable.RouterCall.Answer
      Durable.Router} (reached : site.team.Reachable (.start site.initial) config) :
    site.Reachable (τ := τ) ⟨config, [], site.newGateway⟩ := by
  induction reached with
  | refl => exact .refl
  | tail _ step ih => exact ih.tail (.route step)

theorem saysCompleted_finalAnswer (request : Durable.InferenceRequest) (fence : Durable.Fence)
    (text : Text) : SaysCompleted (finalAnswer request fence text) := by
  have unnamed : Members.value (Durable.ResultEnvelope.members request fence text)
      (Json.codes "state".toList) = none := by
    rw [Members.value, List.lookup_eq_none_iff]
    have keys : ∀ key ∈ (Durable.ResultEnvelope.members request fence text).map Prod.fst,
        (Json.codes "state".toList != key) = true := by
      simp only [Durable.ResultEnvelope.members, List.map_cons, List.map_nil]
      decide
    exact fun member listed => keys _ (List.mem_map_of_mem (List.mem_reverse.mp listed))
  rw [SaysCompleted, finalAnswer, entry, Members.value_cons, unnamed, if_pos rfl]
  rfl

/-- One router and two gateways. The log has the request `r` everywhere. -/
def twoGateways : Installation Unit Bool where
  setup := Durable.Solo.setup
  log := fun _ _ => ['r']
  initial := fun _ => 0
  routerId := fun _ => ['a']
  engineId := fun _ => ['e']
  outputs := fun request _ text => text = 'o' :: request.requestId
  build := fun _ => none
  capacity := fun _ => 1

theorem twoGateways_plain : twoGateways.Plain := by
  rintro partitionId offset request fence text logged isOutput
  have isRequest : request = ⟨['r'], [], []⟩ := (Option.some.inj logged).symm
  subst isRequest
  rw [isOutput]
  decide

/-- One gateway has read the result, and the other finds it in the table: they give the same
answer. -/
theorem client_answers_twice : ∃ (final : Deployment Unit Bool Unit) (one two : Members),
    twoGateways.Gives final ['r'] (.dict one) ∧ twoGateways.Gives final ['r'] (.dict two) ∧
      SaysCompleted one ∧ SaysCompleted two ∧ one.Same two := by
  obtain ⟨cluster, rest, reached⟩ := Durable.Router.publishing_solo
  let request : Durable.InferenceRequest := ⟨['r'], [], []⟩
  let fence : Durable.Fence := ⟨0, 1, 1, ['e']⟩
  let record : Durable.OutboxRow := ⟨1, Durable.resultsTopic, ['r'],
    Durable.resultEnvelope request fence ['o', 'r'], 0, 0, false⟩
  let publishing : Team.Config Unit (Durable.Cluster Unit) Durable.RouterCall
    Durable.RouterCall.Answer Durable.Router :=
      ⟨cluster, fun _ => .call (.relay (.publish record)) rest⟩
  have routed : twoGateways.Reachable (τ := Unit) ⟨publishing, [], twoGateways.newGateway⟩ :=
    Installation.reachable_routers reached
  have publishes : Durable.Publishes publishing record := ⟨rfl, Or.inr ⟨(), rest, rfl⟩⟩
  have published := routed.tail (.publish publishes)
  have plain : ∀ field ∈ Durable.ResultEnvelope.fields request ['o', 'r'],
      Durable.Unescaped field := by decide
  have received : receive record.payload = .kept (ofText ['r'])
      (Durable.ResultEnvelope.members request fence ['o', 'r']) := receive_envelope plain
  have read := published.tail (.serve true (.consumed (ofText ['r'])
    (Durable.ResultEnvelope.members request fence ['o', 'r']) ()) (by
      rintro requestId result ⟨⟩
      exact ⟨record.payload, List.mem_singleton_self _, received⟩))
  obtain ⟨row, _, found, isCompleted, isTerminal, _⟩ :=
    Durable.Router.explains_of_publishes reached publishes
  have stored := storedAnswer_completed plain isCompleted isTerminal
  have told : answer (twoGateways.newGateway (τ := Unit) false).state ['r']
      (cluster.store.inferenceRequests.lookup ['r']) = storedAnswer ['r'] row :=
    congrArg (answer (twoGateways.newGateway false).state ['r']) found
  have one : twoGateways.Gives _ ['r'] (.dict (cachedAnswer
      (Durable.ResultEnvelope.members request fence ['o', 'r']))) :=
    ⟨_, _, true, read, .refl, .refl, rfl⟩
  have two : twoGateways.Gives _ ['r'] (.dict (statusAnswer ['r'] Durable.completedState ++
      Durable.ResultEnvelope.members request fence ['o', 'r'])) :=
    ⟨_, _, false, read, .refl, .refl, stored.symm.trans told.symm⟩
  have completed := saysCompleted_finalAnswer request fence ['o', 'r']
  have completed' : SaysCompleted (statusAnswer ['r'] Durable.completedState ++
      Durable.ResultEnvelope.members request fence ['o', 'r']) :=
    (stored_same request fence ['o', 'r'] _).trans completed
  exact ⟨_, _, _, one, two, completed, completed',
    (client_answers twoGateways_plain _ _).2 _ _ one two completed completed'⟩

end InferSched.Gateway

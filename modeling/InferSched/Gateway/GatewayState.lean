import Mathlib.Algebra.Group.Nat.Defs
import Mathlib.Data.Int.Notation
import Mathlib.Data.List.AList

/-! # The gateway

`GatewayState` (`app.py`) bounds the requests in flight by the size of its map
`pending`. A call of `submit` reserves a slot under the lock, builds the message and
hands it to the Kafka producer. The thread that reads results gives the slot back.

The protobuf runtime and the producer are not part of the repository: the first is a
function from a message to its bytes, absent where it raises, and the second is one
reply for each call. A clock reading and a result envelope are opaque values.
-/

namespace InferSched.Gateway

/-! ### Strings -/

/-- A Python string is a list of code points, surrogates included. -/
abbrev CodePoint := Fin 0x110000

abbrev PyString := List CodePoint

/-- A string literal of the source. -/
def literal (text : String) : PyString :=
  text.toList.map fun letter => Fin.ofNat 0x110000 letter.toNat

/-- Surrogates have no UTF-8 encoding. -/
def CodePoint.scalar (point : CodePoint) : Bool :=
  !(0xD800 ≤ point.val && point.val ≤ 0xDFFF)

def encodable (text : PyString) : Bool :=
  text.all CodePoint.scalar

/-! ### Requests and messages -/

/-- A body that `SubmitRequest` has validated. -/
structure SubmitRequest where
  promptTokens : ℕ
  maxOutputTokens : ℕ := 16
  modelId : PyString := literal "benchmark-model"
  priority : ℕ := 1
  seed : ℕ := 1
  promptHash : Option PyString := none
  promptTokens_bounds : 1 ≤ promptTokens ∧ promptTokens ≤ 8192
  maxOutputTokens_bounds : 1 ≤ maxOutputTokens ∧ maxOutputTokens ≤ 2048
  priority_le : priority ≤ 100

/-- `infersched_pb2.SamplingParams`. -/
structure SamplingParams where
  maxOutputTokens : ℕ
  temperature : Float
  topP : Float
  seed : ℕ
deriving Repr

/-- `infersched_pb2.InferenceRequest`. -/
structure InferenceRequest where
  requestId : PyString
  modelId : PyString
  modelRevision : PyString
  tokenizerRevision : PyString
  promptTokens : ℕ
  promptHash : PyString
  priority : ℕ
  sampling : SamplingParams
  traceId : PyString
  spanId : PyString
deriving Repr

/-- The ranges of `infersched.proto`: three `uint32`, one `uint64` and strings in UTF-8. -/
def InferenceRequest.inRange (request : InferenceRequest) : Bool :=
  decide (request.promptTokens < 2 ^ 32) && decide (request.priority < 2 ^ 32) &&
    decide (request.sampling.maxOutputTokens < 2 ^ 32) &&
    decide (request.sampling.seed < 2 ^ 64) &&
    [request.requestId, request.modelId, request.modelRevision, request.tokenizerRevision,
      request.promptHash, request.traceId, request.spanId].all encodable

/-- The texts that `uuid.uuid4()` yields for one call, which are hexadecimal digits and
dashes. -/
structure Identity where
  requestId : PyString
  traceId : PyString
  spanId : PyString
  requestId_encodable : encodable requestId = true
  traceId_encodable : encodable traceId = true
  spanId_encodable : encodable spanId = true

/-- The message of a call. -/
def message (body : SubmitRequest) (identity : Identity) : InferenceRequest where
  requestId := identity.requestId
  modelId := body.modelId
  modelRevision := body.modelId ++ literal "-v1"
  tokenizerRevision := literal "tokenizer-v1"
  promptTokens := body.promptTokens
  -- an empty hash is falsy
  promptHash := (body.promptHash.filter fun hash => !hash.isEmpty).getD
    (literal "prompt-" ++ identity.requestId)
  priority := body.priority
  sampling :=
    { maxOutputTokens := body.maxOutputTokens, temperature := 0.0, topP := 1.0, seed := body.seed }
  traceId := identity.traceId
  spanId := identity.spanId

abbrev Bytes := List UInt8

/-- What `producer.produce` and `producer.poll` do in one call. -/
inductive Delivery
  | queued
  | bufferError
  | raised
deriving DecidableEq, Repr

/-- How a call of `submit` ends. -/
inductive Reply
  | returned (requestId traceId : PyString)
  | httpException (status : ℕ) (detail : String)
  | raised
deriving DecidableEq, Repr

/-- The reply has a request id. -/
def Reply.returns : Reply → Bool
  | .returned _ _ => true
  | _ => false

/-! ### The state -/

structure GatewayState (τ ρ : Type) where
  capacity : ℤ
  pending : AList fun _ : PyString => τ := ∅
  results : AList fun _ : PyString => ρ := ∅
  submitted : ℕ := 0
  completed : ℕ := 0
  rejected : ℕ := 0

namespace GatewayState

variable {τ ρ : Type}

/-- `len(self.pending) >= self.capacity`. -/
def full (state : GatewayState τ ρ) : Prop :=
  state.capacity ≤ (state.pending.entries.length : ℤ)

instance (state : GatewayState τ ρ) : Decidable state.full :=
  inferInstanceAs (Decidable (_ ≤ _))

/-- The first section of `submit` under the lock, when there is room. -/
def reserve (state : GatewayState τ ρ) (requestId : PyString) (now : τ) : GatewayState τ ρ :=
  { state with
    pending := state.pending.insert requestId now
    submitted := state.submitted + 1 }

/-- The handler of `BufferError`. -/
def withdraw (state : GatewayState τ ρ) (requestId : PyString) : GatewayState τ ρ :=
  { state with
    pending := state.pending.erase requestId
    rejected := state.rejected + 1 }

def submit (build : InferenceRequest → Option Bytes) (state : GatewayState τ ρ)
    (body : SubmitRequest) (identity : Identity) (now : τ)
    (produce : PyString → Bytes → Delivery) : Reply × GatewayState τ ρ :=
  if state.full then
    (.httpException 429 "gateway queue full", { state with rejected := state.rejected + 1 })
  else
    let state := state.reserve identity.requestId now
    match build (message body identity) with
    | none => (.raised, state)
    | some bytes =>
        match produce identity.requestId bytes with
        | .queued => (.returned identity.requestId identity.traceId, state)
        | .bufferError =>
            (.httpException 429 "Kafka producer queue full", state.withdraw identity.requestId)
        | .raised => (.raised, state)

/-- The section of `_consume` under the lock, for a result with a request id. -/
def consume (state : GatewayState τ ρ) (requestId : PyString) (result : ρ) :
    GatewayState τ ρ :=
  { state with
    pending := state.pending.erase requestId
    results := state.results.insert requestId result
    completed :=
      if (state.pending.lookup requestId).isSome then state.completed + 1 else state.completed }

end GatewayState

end InferSched.Gateway

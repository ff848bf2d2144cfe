import InferSched.Gateway.GatewayState

/-! # Failed submissions

Of the ways in which `submit` fails, only the refusal for capacity leaves the state as
it was. The slot is reserved before the message is built, and of the exceptions that
follow only `BufferError` gives it back, without taking the count of submissions back.
-/

namespace InferSched.Gateway
namespace GatewayState

variable {τ ρ : Type} {build : InferenceRequest → Option Bytes} {state : GatewayState τ ρ}
  {body : SubmitRequest} {identity : Identity} {now : τ} {produce : PyString → Bytes → Delivery}

/-- A call that returns no request id leaves the slots and the counts of requests. -/
def CleanFailure (build : InferenceRequest → Option Bytes) (state : GatewayState τ ρ)
    (body : SubmitRequest) (identity : Identity) (now : τ)
    (produce : PyString → Bytes → Delivery) : Prop :=
  (state.submit build body identity now produce).1.returns = false →
    (state.submit build body identity now produce).2.pending = state.pending ∧
    (state.submit build body identity now produce).2.submitted = state.submitted ∧
    (state.submit build body identity now produce).2.completed = state.completed

theorem submit_full (isFull : state.full) :
    state.submit build body identity now produce =
      (.httpException 429 "gateway queue full",
        { state with rejected := state.rejected + 1 }) :=
  if_pos isFull

theorem submit_raised (room : ¬ state.full) (raises : build (message body identity) = none) :
    state.submit build body identity now produce =
      (.raised, state.reserve identity.requestId now) := by
  unfold submit
  rw [if_neg room, raises]

section Built

variable {bytes : Bytes}

theorem submit_queued (room : ¬ state.full) (builds : build (message body identity) = some bytes)
    (replied : produce identity.requestId bytes = .queued) :
    state.submit build body identity now produce =
      (.returned identity.requestId identity.traceId, state.reserve identity.requestId now) := by
  unfold submit
  simp only [if_neg room, builds, replied]

theorem submit_bufferError (room : ¬ state.full)
    (builds : build (message body identity) = some bytes)
    (replied : produce identity.requestId bytes = .bufferError) :
    state.submit build body identity now produce =
      (.httpException 429 "Kafka producer queue full",
        (state.reserve identity.requestId now).withdraw identity.requestId) := by
  unfold submit
  simp only [if_neg room, builds, replied]

theorem submit_unproduced (room : ¬ state.full)
    (builds : build (message body identity) = some bytes)
    (replied : produce identity.requestId bytes = .raised) :
    state.submit build body identity now produce =
      (.raised, state.reserve identity.requestId now) := by
  unfold submit
  simp only [if_neg room, builds, replied]

end Built

/-- With room, a call is counted however it ends. -/
theorem submitted_submit (room : ¬ state.full) :
    (state.submit build body identity now produce).2.submitted = state.submitted + 1 := by
  cases built : build (message body identity) with
  | none =>
      rw [submit_raised room built]
      rfl
  | some bytes =>
      cases replied : produce identity.requestId bytes with
      | queued =>
          rw [submit_queued room built replied]
          rfl
      | bufferError =>
          rw [submit_bufferError room built replied]
          rfl
      | raised =>
          rw [submit_unproduced room built replied]
          rfl

/-- With room, a call returns exactly when its message is built and taken. -/
theorem returns_submit (room : ¬ state.full) :
    (state.submit build body identity now produce).1.returns = true ↔
      ∃ bytes, build (message body identity) = some bytes ∧
        produce identity.requestId bytes = .queued := by
  cases built : build (message body identity) with
  | none =>
      rw [submit_raised room built]
      refine iff_of_false Bool.false_ne_true ?_
      rintro ⟨bytes, builds, -⟩
      cases builds
  | some bytes =>
      constructor
      · intro returned
        refine ⟨bytes, rfl, ?_⟩
        cases replied : produce identity.requestId bytes with
        | queued => rfl
        | bufferError =>
            rw [submit_bufferError room built replied] at returned
            cases returned
        | raised =>
            rw [submit_unproduced room built replied] at returned
            cases returned
      · rintro ⟨other, builds, queued⟩
        cases builds
        rw [submit_queued room built queued]
        rfl

theorem cleanFailure_iff_published :
    state.CleanFailure build body identity now produce ↔
      state.full ∨ ∃ bytes, build (message body identity) = some bytes ∧
        produce identity.requestId bytes = .queued := by
  unfold CleanFailure
  by_cases isFull : state.full
  · rw [submit_full isFull]
    exact iff_of_true (fun _ => ⟨rfl, rfl, rfl⟩) (Or.inl isFull)
  · have returns : (state.submit build body identity now produce).1.returns = true ↔ _ :=
      returns_submit isFull
    constructor
    · intro clean
      refine Or.inr (returns.mp ?_)
      by_contra failed
      have same := (clean (Bool.not_eq_true _ ▸ failed)).2.1
      rw [submitted_submit isFull] at same
      exact Nat.succ_ne_self _ same
    · rintro (full | published) failed
      · exact absurd full isFull
      · rw [returns.mpr published] at failed
        cases failed

theorem encodable_append (first second : PyString) :
    encodable (first ++ second) = (encodable first && encodable second) :=
  List.all_append

/-- Of a validated body, only the seed and the two strings can be out of range. -/
theorem inRange_message (body : SubmitRequest) (identity : Identity) :
    (message body identity).inRange = true ↔ body.seed < 2 ^ 64 ∧
      encodable body.modelId = true ∧ encodable (body.promptHash.getD []) = true := by
  have prompts := body.promptTokens_bounds.2
  have outputs := body.maxOutputTokens_bounds.2
  have priority := body.priority_le
  have version : encodable (literal "-v1") = true := by decide
  have tokenizer : encodable (literal "tokenizer-v1") = true := by decide
  have hash : encodable (message body identity).promptHash =
      encodable (body.promptHash.getD []) := by
    have fallback : encodable (literal "prompt-" ++ identity.requestId) = true := by
      rw [encodable_append, identity.requestId_encodable]
      decide
    unfold message
    dsimp only
    cases given : body.promptHash with
    | none => exact fallback
    | some hash =>
        cases hash with
        | nil => exact fallback
        | cons point later => rfl
  unfold InferenceRequest.inRange
  rw [List.all_cons, List.all_cons, List.all_cons, List.all_cons, List.all_cons, hash]
  unfold message
  dsimp only
  rw [encodable_append, identity.requestId_encodable, version, tokenizer]
  rw [List.all_cons, List.all_cons, List.all_nil, identity.traceId_encodable,
    identity.spanId_encodable]
  simp only [Bool.and_eq_true, decide_eq_true_eq, Bool.and_true, Bool.true_and]
  constructor
  · rintro ⟨⟨-, seed⟩, model, -, isHash⟩
    exact ⟨seed, model, isHash⟩
  · rintro ⟨seed, model, isHash⟩
    exact ⟨⟨⟨⟨by omega, by omega⟩, by omega⟩, seed⟩, model, model, isHash⟩

/-- **Failed submissions.** The protobuf runtime takes a message exactly when its
integers and strings are in the ranges of their fields. Then a call that returns no
request id leaves the pending requests and both counts exactly when the gateway was
full, or the seed has 64 bits, the strings have a UTF-8 encoding and the producer takes
the message. -/
theorem failed_submission_clean_iff (state : GatewayState τ ρ) (body : SubmitRequest)
    (identity : Identity) (now : τ) (produce : PyString → Bytes → Delivery)
    (ranges : ∀ request, (build request).isSome = request.inRange) :
    state.CleanFailure build body identity now produce ↔
      state.full ∨ ((body.seed < 2 ^ 64 ∧ encodable body.modelId = true ∧
        encodable (body.promptHash.getD []) = true) ∧
          ∀ bytes, build (message body identity) = some bytes →
            produce identity.requestId bytes = .queued) := by
  rw [cleanFailure_iff_published, ← inRange_message body identity, ← ranges]
  refine or_congr_right ?_
  constructor
  · rintro ⟨bytes, builds, queued⟩
    rw [builds]
    refine ⟨rfl, ?_⟩
    rintro other isOther
    cases isOther
    exact queued
  · rintro ⟨builds, queued⟩
    obtain ⟨bytes, isBytes⟩ := Option.isSome_iff_exists.mp builds
    exact ⟨bytes, isBytes, queued bytes isBytes⟩

/-- A runtime that only checks the ranges. -/
def rangeChecked (request : InferenceRequest) : Option Bytes :=
  if request.inRange then some [] else none

theorem isSome_rangeChecked (request : InferenceRequest) :
    (rangeChecked request).isSome = request.inRange := by
  unfold rangeChecked
  cases request.inRange <;> rfl

/-- A short prompt with a given seed. -/
def seeded (seed : ℕ) : SubmitRequest where
  promptTokens := 16
  seed := seed
  promptTokens_bounds := by decide
  maxOutputTokens_bounds := by decide
  priority_le := by decide

/-- The identity of a call whose identifiers are one letter. -/
def lettered (letter : String) (short : encodable (literal letter) = true) : Identity where
  requestId := literal letter
  traceId := literal letter
  spanId := literal letter
  requestId_encodable := short
  traceId_encodable := short
  spanId_encodable := short

/-- A full gateway, and one with room whose producer takes the message. -/
theorem failed_submission_clean_seeded :
    (GatewayState.CleanFailure (τ := Unit) (ρ := Unit) rangeChecked { capacity := 0 }
        (seeded (2 ^ 64)) (lettered "a" (by decide)) () fun _ _ => .raised) ∧
      GatewayState.CleanFailure (τ := Unit) (ρ := Unit) rangeChecked { capacity := 1 }
        (seeded 7) (lettered "a" (by decide)) () fun _ _ => .queued := by
  constructor
  · exact (failed_submission_clean_iff _ _ _ _ _ isSome_rangeChecked).mpr (Or.inl (by decide))
  · refine (failed_submission_clean_iff _ _ _ _ _ isSome_rangeChecked).mpr (Or.inr ⟨?_, ?_⟩)
    · exact ⟨by decide, by decide, by decide⟩
    · intro bytes builds
      rfl

/-- A seed of 65 bits takes the only slot of a gateway: the call raises, and the next
valid call is told that the queue is full. -/
theorem wide_seed_takes_slot :
    ∃ (state next : GatewayState Unit Unit) (identity other : Identity),
      (∀ request, (rangeChecked request).isSome = request.inRange) ∧
      state.pending.entries.length = 0 ∧
      state.submit rangeChecked (seeded (2 ^ 64)) identity () (fun _ _ => .queued) =
        (.raised, next) ∧
      next.pending.entries.length = 1 ∧
      (next.submit rangeChecked (seeded 1) other () (fun _ _ => .queued)).1 =
        .httpException 429 "gateway queue full" ∧
      ¬ state.CleanFailure rangeChecked (seeded (2 ^ 64)) identity () fun _ _ => .queued := by
  let state : GatewayState Unit Unit := { capacity := 1 }
  have raises : rangeChecked (message (seeded (2 ^ 64)) (lettered "a" (by decide))) = none := by
    decide +kernel
  refine ⟨state, _, lettered "a" (by decide), lettered "b" (by decide), isSome_rangeChecked, rfl,
    submit_raised (by decide) raises, rfl, rfl, ?_⟩
  intro clean
  have same := (clean (by rw [submit_raised (by decide) raises]; rfl)).2.1
  rw [submit_raised (by decide) raises] at same
  exact Nat.succ_ne_self _ same

end GatewayState

end InferSched.Gateway

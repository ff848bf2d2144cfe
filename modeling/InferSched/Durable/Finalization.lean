import InferSched.Durable.StoreSteps

/-! # At most one authoritative completion

A request in a final state keeps its row for ever (`Store.Step.terminal_kept`),
and a result row in the outbox exists only for a completed request, at most once
(`Store.Results`). Under any interleaving of calls, a request is therefore
completed by at most one `Finalize`, and the outbox row of that call stays the
only one of its request.
-/

namespace InferSched.Durable

/-- What a row asks to publish, without its acknowledgement. -/
def OutboxRow.intent (row : OutboxRow) : OutboxRow :=
  { row with published := false }

namespace Store

/-- The result rows of a request. -/
def resultRows (store : Store) (requestId : Text) : List OutboxRow :=
  store.outbox.filter fun row => row.topic = resultsTopic && row.messageKey = requestId

/-- Result rows belong to completed requests, at most one to each. -/
structure Results (store : Store) : Prop where
  unique : ∀ requestId, (store.resultRows requestId).length ≤ 1
  completed : ∀ requestId, store.resultRows requestId ≠ [] →
    ∃ row, store.inferenceRequests.lookup requestId = some row ∧ row.state = completedState

theorem putRequest_lookup (store : Store) (requestId query : Text) (row : RequestRow) :
    (store.putRequest requestId row).inferenceRequests.lookup query =
      if query = requestId then some row else store.inferenceRequests.lookup query := by
  change (store.inferenceRequests.insert requestId row).lookup query = _
  by_cases same : query = requestId
  · rw [if_pos same, same, AList.lookup_insert]
  · rw [if_neg same, AList.lookup_insert_ne same]

@[simp] theorem insertOutbox_requests (store : Store) (topic messageKey payload : Text)
    (sourcePartition sourceOffset : ℤ) :
    (store.insertOutbox topic messageKey payload sourcePartition
      sourceOffset).inferenceRequests = store.inferenceRequests := by
  unfold insertOutbox
  dsimp only
  split <;> rfl

/-- An outbox insertion appends one row, unless its topic and key are taken. -/
theorem insertOutbox_outbox (store : Store) (topic messageKey payload : Text)
    (sourcePartition sourceOffset : ℤ) :
    (store.insertOutbox topic messageKey payload sourcePartition sourceOffset).outbox =
      if store.outbox.any fun row => row.topic = topic && row.messageKey = messageKey
      then store.outbox
      else store.outbox ++ [⟨store.outboxSequence, topic, messageKey, payload, sourcePartition,
        sourceOffset, false⟩] := by
  unfold insertOutbox
  dsimp only
  split <;> rfl

theorem any_outbox_iff (store : Store) (requestId : Text) :
    (store.outbox.any fun row => row.topic = resultsTopic && row.messageKey = requestId) = true ↔
      store.resultRows requestId ≠ [] := by
  rw [List.any_eq_true, resultRows, ne_eq, List.filter_eq_nil_iff, not_forall]
  simp only [Classical.not_imp, not_not]

/-- A final state is never a dispatched one. -/
theorem dispatched_not_terminal : dispatchedState ∉ terminalStates := by decide

theorem completed_terminal : completedState ∈ terminalStates := by decide

theorem dispatched_ne_completed : dispatchedState ≠ completedState := by decide

theorem received_ne_completed : receivedState ≠ completedState := by decide

theorem dlq_ne_results : dlqTopic ≠ resultsTopic := by decide

/-- The columns a fence is compared with. -/
theorem fenceMatches_iff (row : RequestRow) (fence : Fence) :
    fenceMatches row fence = true ↔
      row.sourcePartition = fence.partitionId ∧ row.ownershipEpoch = some fence.ownershipEpoch ∧
      row.attemptId = fence.attemptId ∧ row.engineId = some fence.engineId ∧
      row.state = dispatchedState := by
  simp only [fenceMatches, Bool.and_eq_true, decide_eq_true_eq, and_assoc]

variable {store next : Store} {call : Call} {response : Response}

/-- A row in a final state is not the one that a call rewrites. -/
theorem terminal_kept_of_put {requestId changedId : Text} {row before : RequestRow}
    (found : store.inferenceRequests.lookup requestId = some row)
    (terminal : row.state ∈ terminalStates)
    (foundBefore : store.inferenceRequests.lookup changedId = some before)
    (unresolved : before.state ∉ terminalStates) (later : RequestRow) :
    (store.putRequest changedId later).inferenceRequests.lookup requestId = some row := by
  have other : requestId ≠ changedId := by
    rintro rfl
    cases found.symm.trans foundBefore
    exact unresolved terminal
  rw [putRequest_lookup, if_neg other]
  exact found

/-- A row in a final state is kept by every call. -/
theorem Step.terminal_kept (step : Step store call response next) {requestId : Text}
    {row : RequestRow} (found : store.inferenceRequests.lookup requestId = some row)
    (terminal : row.state ∈ terminalStates) :
    next.inferenceRequests.lookup requestId = some row := by
  cases step with
  | refused refusal => exact found
  | acquired next fits => exact found
  | marked => exact found
  | poisoned fresh => rw [insertOutbox_requests]; exact found
  | @ingested ingested sourcePartition sourceOffset rawPayload fresh unused =>
      have other : requestId ≠ ingested := by
        rintro rfl
        exact fresh (AList.lookup_isSome.mp (by rw [found]; rfl))
      rw [putRequest_lookup, if_neg other]
      exact found
  | assigned foundBefore source current unresolved fits =>
      exact terminal_kept_of_put found terminal foundBefore unresolved _
  | moved foundBefore same unresolved =>
      exact terminal_kept_of_put found terminal foundBefore unresolved _
  | @completed completedId fence _ before foundBefore fenced fits =>
      have unresolved : before.state ∉ terminalStates := by
        rw [((fenceMatches_iff _ _).mp fenced).2.2.2.2]
        exact dispatched_not_terminal
      rw [insertOutbox_requests]
      exact terminal_kept_of_put found terminal foundBefore unresolved _

/-- Acknowledging rows changes no publication intent. -/
theorem resultRows_markPublished (store : Store) (outboxId : ℕ) (requestId : Text) :
    ((store.markPublished outboxId).resultRows requestId).map OutboxRow.intent =
      (store.resultRows requestId).map OutboxRow.intent := by
  unfold resultRows markPublished
  simp only
  rw [List.filter_map, List.map_map]
  have sameIntent : (OutboxRow.intent ∘ fun row : OutboxRow =>
      if row.id = outboxId then { row with published := true } else row) = OutboxRow.intent := by
    funext row
    simp only [Function.comp_apply]
    split <;> rfl
  have sameKey : ((fun row : OutboxRow => decide (row.topic = resultsTopic) &&
      decide (row.messageKey = requestId)) ∘ fun row : OutboxRow =>
        if row.id = outboxId then { row with published := true } else row) =
      fun row : OutboxRow => decide (row.topic = resultsTopic) &&
        decide (row.messageKey = requestId) := by
    funext row
    simp only [Function.comp_apply]
    split <;> rfl
  rw [sameIntent, sameKey]

/-- A row of another topic is not a result row. -/
theorem resultRows_insertOutbox_of_ne (store : Store) (topic messageKey payload : Text)
    (sourcePartition sourceOffset : ℤ) (requestId : Text)
    (other : topic ≠ resultsTopic ∨ messageKey ≠ requestId) :
    (store.insertOutbox topic messageKey payload sourcePartition sourceOffset).resultRows
      requestId = store.resultRows requestId := by
  unfold resultRows
  rw [insertOutbox_outbox]
  split
  · rfl
  · rw [List.filter_append]
    have excluded : ¬ (topic = resultsTopic ∧ messageKey = requestId) := by
      rintro ⟨sameTopic, sameKey⟩
      rcases other with different | different
      · exact different sameTopic
      · exact different sameKey
    simp [excluded]

/-- The first result row of a request is appended and becomes its only one. -/
theorem resultRows_insertOutbox_self (store : Store) (requestId payload : Text)
    (sourcePartition sourceOffset : ℤ) (none : store.resultRows requestId = []) :
    (store.insertOutbox resultsTopic requestId payload sourcePartition sourceOffset).outbox =
      store.outbox ++ [⟨store.outboxSequence, resultsTopic, requestId, payload, sourcePartition,
        sourceOffset, false⟩] ∧
    (store.insertOutbox resultsTopic requestId payload sourcePartition
      sourceOffset).resultRows requestId =
      [⟨store.outboxSequence, resultsTopic, requestId, payload, sourcePartition, sourceOffset,
        false⟩] := by
  have appended : (store.insertOutbox resultsTopic requestId payload sourcePartition
      sourceOffset).outbox = store.outbox ++ [⟨store.outboxSequence, resultsTopic, requestId,
        payload, sourcePartition, sourceOffset, false⟩] := by
    rw [insertOutbox_outbox, if_neg]
    rw [any_outbox_iff]
    exact fun present => present none
  refine ⟨appended, ?_⟩
  unfold resultRows
  rw [appended, List.filter_append]
  change store.resultRows requestId ++ _ = _
  rw [none]
  simp

/-- A dispatched request has no result row yet. -/
theorem Results.none_of_fenced (results : store.Results) {requestId : Text} {row : RequestRow}
    {fence : Fence} (found : store.inferenceRequests.lookup requestId = some row)
    (fenced : fenceMatches row fence = true) : store.resultRows requestId = [] := by
  by_contra present
  obtain ⟨other, foundOther, completed⟩ := results.completed requestId present
  cases found.symm.trans foundOther
  rw [((fenceMatches_iff _ _).mp fenced).2.2.2.2] at completed
  exact dispatched_ne_completed completed

/-- Outside its own completion, a call keeps the result rows of a request. -/
theorem Step.resultRows_kept (step : Step store call response next) (requestId : Text)
    (other : ∀ fence payload, call = .finalize requestId fence payload →
      response ≠ .accepted true) :
    (next.resultRows requestId).map OutboxRow.intent =
      (store.resultRows requestId).map OutboxRow.intent := by
  cases step with
  | refused refusal => rfl
  | acquired next fits => rfl
  | ingested fresh unused => rfl
  | assigned found source current unresolved fits => rfl
  | moved found same unresolved => rfl
  | @completed completedId fence payload row found fenced fits =>
      have different : completedId ≠ requestId := by
        rintro rfl
        exact other fence payload rfl rfl
      rw [resultRows_insertOutbox_of_ne _ _ _ _ _ _ _ (Or.inr different)]
      rfl
  | poisoned fresh =>
      rw [resultRows_insertOutbox_of_ne _ _ _ _ _ _ _ (Or.inl dlq_ne_results)]
      rfl
  | marked => exact store.resultRows_markPublished _ requestId

theorem Step.results (step : Step store call response next) (results : store.Results) :
    next.Results := by
  by_cases accepted : ∃ requestId fence payload, call = .finalize requestId fence payload ∧
      response = .accepted true
  · obtain ⟨requestId, fence, payload, rfl, rfl⟩ := accepted
    cases step with
    | refused refusal => cases refusal
    | @completed _ _ _ row found fenced fits =>
        have appended := (store.putRequest requestId
          (row.completed payload)).resultRows_insertOutbox_self requestId payload
            row.sourcePartition row.sourceOffset (results.none_of_fenced found fenced)
        constructor
        · intro query
          by_cases same : query = requestId
          · rw [same, appended.2]
            exact le_rfl
          · rw [resultRows_insertOutbox_of_ne _ _ _ _ _ _ _ (Or.inr (Ne.symm same))]
            exact results.unique query
        · intro query present
          rw [insertOutbox_requests, putRequest_lookup]
          by_cases same : query = requestId
          · exact ⟨_, if_pos same, rfl⟩
          · rw [resultRows_insertOutbox_of_ne _ _ _ _ _ _ _ (Or.inr (Ne.symm same))] at present
            rw [if_neg same]
            exact results.completed query present
  · have kept : ∀ requestId, (next.resultRows requestId).map OutboxRow.intent =
        (store.resultRows requestId).map OutboxRow.intent := fun requestId =>
      step.resultRows_kept requestId fun fence payload called answered =>
        accepted ⟨requestId, fence, payload, called, answered⟩
    constructor
    · intro requestId
      have lengths := congrArg List.length (kept requestId)
      rw [List.length_map, List.length_map] at lengths
      exact lengths ▸ results.unique requestId
    · intro requestId present
      have before : store.resultRows requestId ≠ [] := by
        intro none
        have nothing := kept requestId
        rw [none, List.map_nil, List.map_eq_nil_iff] at nothing
        exact present nothing
      obtain ⟨row, found, completed⟩ := results.completed requestId before
      exact ⟨row, step.terminal_kept found (completed ▸ completed_terminal), completed⟩

/-- The empty store has no result rows. -/
theorem Results.empty : Store.empty.Results :=
  ⟨fun _ => Nat.zero_le 1, fun _ present => absurd rfl present⟩

theorem Results.run (results : store.Results) (calls : List Call) :
    (object.run calls store).Results :=
  object.invariant (fun call _ holds => (respond_step call _).results holds) calls store results

/-- A final row survives every run. -/
theorem terminal_run (calls : List Call) {requestId : Text} {row : RequestRow}
    (found : store.inferenceRequests.lookup requestId = some row)
    (terminal : row.state ∈ terminalStates) :
    (object.run calls store).inferenceRequests.lookup requestId = some row := by
  induction calls generalizing store with
  | nil => exact found
  | cons call calls ih => exact ih ((respond_step call store).terminal_kept found terminal)

/-- A call of `Finalize` for a request that was answered with acceptance. -/
def acceptsFinalize (requestId : Text) : Call × Response → Bool
  | (.finalize finalized _ _, .accepted true) => finalized = requestId
  | _ => false

theorem acceptsFinalize_iff (requestId : Text) (event : Call × Response) :
    acceptsFinalize requestId event = true ↔
      ∃ fence payload, event = (.finalize requestId fence payload, .accepted true) := by
  constructor
  · intro accepts
    unfold acceptsFinalize at accepts
    split at accepts
    · next finalized fence payload => exact ⟨fence, payload, by rw [of_decide_eq_true accepts]⟩
    · cases accepts
  · rintro ⟨fence, payload, rfl⟩
    exact decide_eq_true rfl

/-- An accepted completion finds a dispatched row and leaves a completed one. -/
theorem Step.finalized (step : Step store call response next) {requestId : Text} {fence : Fence}
    {payload : Text} (called : call = .finalize requestId fence payload)
    (answered : response = .accepted true) :
    ∃ row, store.inferenceRequests.lookup requestId = some row ∧ fenceMatches row fence = true ∧
      row.stateVersion < int64Max ∧
      next = (store.putRequest requestId (row.completed payload)).insertOutbox resultsTopic
        requestId payload row.sourcePartition row.sourceOffset := by
  subst called answered
  cases step with
  | refused refusal => cases refusal
  | completed found fenced fits => exact ⟨_, found, fenced, fits, rfl⟩

/-- The accepted completions of a request so far: at most one, and after it the
row is final. -/
def FinalizedOnce (requestId : Text) (past : List (Call × Response)) (store : Store) : Prop :=
  past.countP (acceptsFinalize requestId) ≤ 1 ∧
    (past.countP (acceptsFinalize requestId) ≠ 0 →
      ∃ row, store.inferenceRequests.lookup requestId = some row ∧ row.state ∈ terminalStates)

theorem FinalizedOnce.step {requestId : Text} {past : List (Call × Response)}
    (once : FinalizedOnce requestId past store) (call : Call) :
    FinalizedOnce requestId (past ++ [(call, (object.respond call store).1)])
      (object.respond call store).2 := by
  have step := respond_step call store
  unfold FinalizedOnce
  rw [List.countP_append, List.countP_singleton]
  by_cases accepts : acceptsFinalize requestId (call, (object.respond call store).1) = true
  · obtain ⟨fence, payload, event⟩ := (acceptsFinalize_iff _ _).mp accepts
    obtain ⟨row, found, fenced, _, result⟩ := step.finalized
      (congrArg Prod.fst event) (congrArg Prod.snd event)
    have first : past.countP (acceptsFinalize requestId) = 0 := by
      by_contra again
      obtain ⟨other, foundOther, terminal⟩ := once.2 again
      cases found.symm.trans foundOther
      rw [((fenceMatches_iff _ _).mp fenced).2.2.2.2] at terminal
      exact dispatched_not_terminal terminal
    rw [first, if_pos accepts]
    refine ⟨le_rfl, fun _ => ⟨row.completed payload, ?_, completed_terminal⟩⟩
    rw [result, insertOutbox_requests, putRequest_lookup, if_pos rfl]
  · rw [if_neg accepts, Nat.add_zero]
    refine ⟨once.1, fun counted => ?_⟩
    obtain ⟨row, found, terminal⟩ := once.2 counted
    exact ⟨row, step.terminal_kept found terminal, terminal⟩

/-- While a request is final, its result rows keep their intents. -/
theorem resultRows_run (calls : List Call) {requestId : Text} {row : RequestRow}
    (found : store.inferenceRequests.lookup requestId = some row)
    (terminal : row.state ∈ terminalStates) :
    ((object.run calls store).resultRows requestId).map OutboxRow.intent =
      (store.resultRows requestId).map OutboxRow.intent := by
  induction calls generalizing store with
  | nil => rfl
  | cons call calls ih =>
      have step := respond_step call store
      rw [Library.AtomicObject.run_cons, ih (step.terminal_kept found terminal)]
      apply step.resultRows_kept
      intro fence payload called answered
      obtain ⟨other, foundOther, fenced, _, _⟩ := step.finalized called answered
      cases found.symm.trans foundOther
      rw [((fenceMatches_iff _ _).mp fenced).2.2.2.2] at terminal
      exact dispatched_not_terminal terminal

/-- **One authoritative completion.** In every run and for every request, at most
one `Finalize` returns true; that call completes the row and appends the outbox
row that stays the only result row of the request; a `Finalize` that does not
return true changes nothing; and a final row never changes again. -/
theorem finalize_authoritative (calls : List Call) (requestId : Text) :
    (object.history calls .empty).countP (acceptsFinalize requestId) ≤ 1 ∧
    (∀ before after fence payload,
      calls = before ++ .finalize requestId fence payload :: after →
      (object.respond (.finalize requestId fence payload) (object.run before .empty)).1 =
        .accepted true →
      ∃ row, (object.run before .empty).inferenceRequests.lookup requestId = some row ∧
        let intent : OutboxRow := ⟨(object.run before .empty).outboxSequence, resultsTopic,
          requestId, payload, row.sourcePartition, row.sourceOffset, false⟩
        let next := (object.respond (.finalize requestId fence payload)
          (object.run before .empty)).2
        next.inferenceRequests.lookup requestId = some { row with
          state := completedState
          stateVersion := row.stateVersion + 1
          terminalResult := some payload } ∧
        next.outbox = (object.run before .empty).outbox ++ [intent] ∧
        (object.run before .empty).resultRows requestId = [] ∧
        ((object.run calls .empty).resultRows requestId).map OutboxRow.intent = [intent]) ∧
    (∀ before fence payload,
      (object.respond (.finalize requestId fence payload) (object.run before .empty)).1 ≠
        .accepted true →
      (object.respond (.finalize requestId fence payload) (object.run before .empty)).2 =
        object.run before .empty) ∧
    ∀ before after row, calls = before ++ after →
      (object.run before .empty).inferenceRequests.lookup requestId = some row →
      row.state ∈ terminalStates →
      (object.run calls .empty).inferenceRequests.lookup requestId = some row := by
  refine ⟨?_, ?_, ?_, ?_⟩
  · exact (object.history_invariant (fun past call _ once => once.step call) calls .empty
      ⟨Nat.zero_le 1, fun counted => absurd rfl counted⟩ :
        FinalizedOnce requestId _ _).1
  · intro before after fence payload split accepted
    subst split
    have step := respond_step (.finalize requestId fence payload) (object.run before .empty)
    obtain ⟨row, found, fenced, _, result⟩ := step.finalized rfl accepted
    have none := (Results.empty.run before).none_of_fenced found fenced
    have appended := resultRows_insertOutbox_self ((object.run before .empty).putRequest requestId
      (row.completed payload)) requestId payload row.sourcePartition row.sourceOffset none
    refine ⟨row, found, ?_, ?_, none, ?_⟩
    · rw [result, insertOutbox_requests, putRequest_lookup, if_pos rfl]
      rfl
    · rw [result, appended.1]
      rfl
    · have completedRow : (object.respond (.finalize requestId fence payload)
          (object.run before .empty)).2.inferenceRequests.lookup requestId =
            some (row.completed payload) := by
        rw [result, insertOutbox_requests, putRequest_lookup, if_pos rfl]
      rw [Library.AtomicObject.run_append, Library.AtomicObject.run_cons,
        resultRows_run after completedRow completed_terminal, result, appended.2]
      rfl
  · intro before fence payload rejected
    have step := respond_step (.finalize requestId fence payload) (object.run before .empty)
    generalize (object.respond (.finalize requestId fence payload)
      (object.run before .empty)).2 = next at step ⊢
    generalize (object.respond (.finalize requestId fence payload)
      (object.run before .empty)).1 = response at step rejected
    cases step with
    | refused refusal => rfl
    | completed found fenced fits => exact absurd rfl rejected
  · intro before after row split found terminal
    subst split
    rw [Library.AtomicObject.run_append]
    exact terminal_run after found terminal

end Store
end InferSched.Durable

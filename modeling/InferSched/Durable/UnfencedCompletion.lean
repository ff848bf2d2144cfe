import Mathlib.Data.List.Induction
import InferSched.Durable.Finalization

/-! # Completed requests and their results

`Finalize` writes the state `COMPLETED` together with the result row of the
request. `Transition` writes any state it is asked for, also `COMPLETED`, and
writes no row. A run keeps the two tables in agreement exactly as long as no
transition completes a request.
-/

namespace InferSched.Durable.Store

/-- The request is completed exactly when the outbox has its one result, and then
the two agree on the payload. -/
structure Authoritative (store : Store) (requestId : Text) : Prop where
  completed_iff :
    (∃ row, store.inferenceRequests.lookup requestId = some row ∧ row.state = completedState) ↔
      ∃ result, store.resultRows requestId = [result]
  payload : ∀ row result, store.inferenceRequests.lookup requestId = some row →
    store.resultRows requestId = [result] → row.terminalResult = some result.payload

/-- The call is a transition to `COMPLETED` whose guards hold. -/
def CompletesUnfenced (store : Store) (call : Call) : Prop :=
  ∃ requestId row, call = .transition requestId row.stateVersion row.state completedState ∧
    store.inferenceRequests.lookup requestId = some row ∧ row.state ∉ terminalStates ∧
    row.stateVersion < int64Max

variable {store next : Store} {requestId : Text}

/-- A transition whose guards hold is accepted. -/
theorem transition_accepted {row : RequestRow} (nextState : Text)
    (found : store.inferenceRequests.lookup requestId = some row)
    (unresolved : row.state ∉ terminalStates) (version : row.stateVersion < int64Max) :
    object.respond (.transition requestId row.stateVersion row.state nextState) store =
      (.accepted true, store.putRequest requestId (row.moved nextState)) := by
  have checked : checkedInt64 row.stateVersion = .ok row.stateVersion :=
    if_neg (Nat.not_lt.mpr version.le)
  have versioned : bigintSucc row.stateVersion = .ok (row.stateVersion + 1) :=
    if_neg (Nat.not_lt.mpr version)
  change store.transact .accepted (store.transition requestId row.stateVersion row.state
    nextState) = _
  simp only [transition, checked, found, bind, Except.bind, true_and, if_pos unresolved, versioned]
  rfl

/-- An accepted transition leaves room for the next version. -/
theorem transition_version {expectedVersion : ℕ} {expectedState nextState : Text}
    {row : RequestRow} (found : store.inferenceRequests.lookup requestId = some row)
    (accepted : (object.respond (.transition requestId expectedVersion expectedState nextState)
      store).1 = .accepted true) : row.stateVersion < int64Max := by
  by_contra large
  have overflow : bigintSucc row.stateVersion = .error .bigintOutOfRange :=
    if_pos (Nat.lt_succ_of_le (Nat.le_of_not_lt large))
  change (store.transact .accepted (store.transition requestId expectedVersion expectedState
    nextState)).1 = _ at accepted
  unfold transition at accepted
  cases checked : checkedInt64 expectedVersion with
  | error error =>
      rw [checked] at accepted
      cases accepted
  | ok expected =>
      rw [checked] at accepted
      simp only [found, bind, Except.bind, overflow] at accepted
      split at accepted
      · cases accepted
      · cases accepted

namespace Authoritative

/-- The row and the publication intents of the request are the same. -/
theorem frame (authoritative : store.Authoritative requestId)
    (lookup : next.inferenceRequests.lookup requestId = store.inferenceRequests.lookup requestId)
    (intents : (next.resultRows requestId).map OutboxRow.intent =
      (store.resultRows requestId).map OutboxRow.intent) : next.Authoritative requestId := by
  have before : ∀ result, next.resultRows requestId = [result] →
      ∃ earlier, store.resultRows requestId = [earlier] ∧ earlier.payload = result.payload := by
    intro result single
    rw [single, List.map_singleton] at intents
    obtain ⟨earlier, isEarlier, same⟩ := List.map_eq_singleton_iff.mp intents.symm
    have samePayload : earlier.intent.payload = result.intent.payload := by rw [same]
    exact ⟨earlier, isEarlier, samePayload⟩
  have after : ∀ earlier, store.resultRows requestId = [earlier] →
      ∃ result, next.resultRows requestId = [result] := by
    intro earlier single
    rw [single, List.map_singleton] at intents
    obtain ⟨result, isResult, _⟩ := List.map_eq_singleton_iff.mp intents
    exact ⟨result, isResult⟩
  constructor
  · rw [lookup, authoritative.completed_iff]
    constructor
    · rintro ⟨earlier, single⟩
      exact after earlier single
    · rintro ⟨result, single⟩
      obtain ⟨earlier, isEarlier, _⟩ := before result single
      exact ⟨earlier, isEarlier⟩
  · intro row result found single
    rw [lookup] at found
    obtain ⟨earlier, isEarlier, same⟩ := before result single
    rw [← same]
    exact authoritative.payload row earlier found isEarlier

/-- A request that was not completed and is not completed has no result. -/
theorem still_open (authoritative : store.Authoritative requestId) {row : RequestRow}
    (unfinished : ∀ row, store.inferenceRequests.lookup requestId = some row →
      row.state ≠ completedState)
    (lookup : next.inferenceRequests.lookup requestId = some row)
    (state : row.state ≠ completedState)
    (intents : (next.resultRows requestId).map OutboxRow.intent =
      (store.resultRows requestId).map OutboxRow.intent) : next.Authoritative requestId := by
  have nothing : ∀ result, next.resultRows requestId ≠ [result] := by
    intro result single
    rw [single, List.map_singleton] at intents
    obtain ⟨earlier, isEarlier, _⟩ := List.map_eq_singleton_iff.mp intents.symm
    obtain ⟨row, found, completed⟩ := authoritative.completed_iff.mpr ⟨earlier, isEarlier⟩
    exact unfinished row found completed
  constructor
  · constructor
    · rintro ⟨other, found, completed⟩
      cases lookup.symm.trans found
      exact absurd completed state
    · rintro ⟨result, single⟩
      exact absurd single (nothing result)
  · exact fun _ result _ single => absurd single (nothing result)

/-- A request that is written without being completed. -/
theorem put_open (authoritative : ∀ requestId, store.Authoritative requestId) {writtenId : Text}
    {row : RequestRow} (unfinished : ∀ row, store.inferenceRequests.lookup writtenId = some row →
      row.state ≠ completedState)
    (state : row.state ≠ completedState) (requestId : Text) :
    (store.putRequest writtenId row).Authoritative requestId := by
  have found := putRequest_lookup store writtenId requestId row
  by_cases same : requestId = writtenId
  · subst same
    rw [if_pos rfl] at found
    exact (authoritative requestId).still_open unfinished found state rfl
  · rw [if_neg same] at found
    exact (authoritative requestId).frame found rfl

/-- A request that is completed with its first result. -/
theorem put_completed {row : RequestRow} {payload : Text}
    (none : (store.putRequest requestId (row.completed payload)).resultRows requestId = []) :
    ((store.putRequest requestId (row.completed payload)).insertOutbox resultsTopic requestId
      payload row.sourcePartition row.sourceOffset).Authoritative requestId := by
  have single := (resultRows_insertOutbox_self _ requestId payload row.sourcePartition
    row.sourceOffset none).2
  have lookup := putRequest_lookup store requestId requestId (row.completed payload)
  rw [if_pos rfl] at lookup
  constructor
  · rw [insertOutbox_requests, lookup, single]
    exact iff_of_true ⟨_, rfl, rfl⟩ ⟨_, rfl⟩
  · intro other result isOther isResult
    rw [insertOutbox_requests, lookup] at isOther
    rw [single] at isResult
    cases isOther
    cases isResult
    rfl

/-- Every call that does not complete a request by a transition keeps the
agreement. -/
theorem step (authoritative : ∀ requestId, store.Authoritative requestId)
    (results : store.Results) {call : Call} (fenced : ¬ store.CompletesUnfenced call)
    (requestId : Text) : (object.respond call store).2.Authoritative requestId := by
  have step := respond_step call store
  have version : ∀ movedId expectedVersion expectedState nextState row,
      call = .transition movedId expectedVersion expectedState nextState →
      (object.respond call store).1 = .accepted true →
      store.inferenceRequests.lookup movedId = some row → row.stateVersion < int64Max := by
    rintro movedId expectedVersion expectedState nextState row rfl accepted found
    exact transition_version found accepted
  generalize (object.respond call store).2 = next at step ⊢
  generalize (object.respond call store).1 = response at step version
  have kept := step.resultRows_kept requestId
  cases step with
  | refused refusal => exact authoritative requestId
  | acquired epoch fits => exact (authoritative requestId).frame rfl rfl
  | marked => exact (authoritative requestId).frame rfl (kept (by rintro _ _ ⟨⟩))
  | poisoned fresh =>
      refine (authoritative requestId).frame ?_ (kept (by rintro _ _ ⟨⟩))
      rw [insertOutbox_requests]
  | @ingested ingestedId sourcePartition sourceOffset rawPayload fresh unused =>
      refine put_open authoritative ?_ received_ne_completed requestId
      intro row known
      exact absurd (AList.lookup_isSome.mp (by rw [known]; rfl)) fresh
  | @assigned assignedId _ epoch engineId before foundBefore _ _ unresolved =>
      refine put_open authoritative ?_ dispatched_ne_completed requestId
      intro row known
      cases foundBefore.symm.trans known
      exact fun completed => unresolved (completed ▸ completed_terminal)
  | @moved movedId expectedState nextState before foundBefore sameState unresolved =>
      refine put_open authoritative ?_ ?_ requestId
      · intro row known
        cases foundBefore.symm.trans known
        exact fun completed => unresolved (completed ▸ completed_terminal)
      · intro completed
        have isCompleted : nextState = completedState := completed
        subst isCompleted sameState
        exact fenced ⟨movedId, before, rfl, foundBefore, unresolved,
          version _ _ _ _ before rfl rfl foundBefore⟩
  | @completed completedId fence payload row found guard fits =>
      by_cases same : requestId = completedId
      · subst same
        exact put_completed (results.none_of_fenced found guard)
      · refine (authoritative requestId).frame ?_ (kept ?_)
        · rw [insertOutbox_requests, putRequest_lookup, if_neg same]
        · rintro _ _ ⟨⟩
          exact absurd rfl same

theorem empty (requestId : Text) : Store.empty.Authoritative requestId := by
  constructor
  · exact iff_of_false (fun ⟨_, found, _⟩ => by cases found) fun ⟨_, single⟩ => by cases single
  · intro row result found
    cases found

end Authoritative

/-- **Completions and results.** In every state of a run the completed requests
are those with one result row, with the stored payload, exactly when no call of
the run is a transition that completes a request. -/
theorem completed_iff_result (calls : List Call) :
    (∀ before after, calls = before ++ after → ∀ requestId,
      (object.run before .empty).Authoritative requestId) ↔
    ∀ before call after, calls = before ++ call :: after →
      ¬ (object.run before .empty).CompletesUnfenced call := by
  constructor
  · rintro authoritative before call after split ⟨requestId, row, rfl, found, unresolved, version⟩
    have earlier := authoritative before _ split requestId
    have later := authoritative (before ++ [.transition requestId row.stateVersion row.state
      completedState]) after (by rw [split, List.append_assoc, List.singleton_append]) requestId
    rw [Library.AtomicObject.run_append, Library.AtomicObject.run_cons,
      Library.AtomicObject.run_nil, transition_accepted completedState found unresolved version]
      at later
    have lookup := putRequest_lookup (object.run before .empty) requestId requestId
      (row.moved completedState)
    rw [if_pos rfl] at lookup
    obtain ⟨result, single⟩ := later.completed_iff.mp ⟨_, lookup, rfl⟩
    obtain ⟨other, foundOther, completed⟩ := earlier.completed_iff.mpr ⟨result, single⟩
    cases found.symm.trans foundOther
    exact unresolved (completed ▸ completed_terminal)
  · intro fenced before
    induction before using List.reverseRecOn with
    | nil => exact fun _ _ => Authoritative.empty
    | append_singleton earlier call ih =>
        intro after split requestId
        rw [List.append_assoc, List.singleton_append] at split
        rw [Library.AtomicObject.run_append]
        exact Authoritative.step (ih _ split) (Results.empty.run earlier)
          (fenced earlier call after split) requestId

/-- A request is ingested and moved straight to `COMPLETED`: there is no result
to publish. -/
theorem completed_without_result :
    ¬ ∀ (calls : List Call) (requestId : Text),
      (object.run calls .empty).Authoritative requestId := by
  intro authoritative
  have completed := (authoritative [.ingest ['x'] 0 5 [],
    .transition ['x'] 0 receivedState completedState] ['x']).completed_iff.mp
      ⟨(RequestRow.received 0 5 []).moved completedState, by decide, rfl⟩
  obtain ⟨result, single⟩ := completed
  have nothing : (object.run [.ingest ['x'] 0 5 [],
    .transition ['x'] 0 receivedState completedState] .empty).resultRows ['x'] = [] := by decide
  cases nothing.symm.trans single

end InferSched.Durable.Store

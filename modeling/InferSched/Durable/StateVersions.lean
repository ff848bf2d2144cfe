import InferSched.Durable.Finalization

/-! # State versions and lost updates

Only `Transition` compares the version of a row, while `AssignAttempt` and
`Finalize` raise it without looking. All three raise it by one, and no other call
touches it, so along every run the version of a request counts its successful
mutations (`Store.Versioned`). A transition that was decided on a version read
before another mutation therefore finds the version spent.
-/

namespace InferSched.Durable.Store

open Library

/-- The version of a request, once it was ingested. -/
def versionOf (store : Store) (requestId : Text) : Option ℕ :=
  (store.inferenceRequests.lookup requestId).map RequestRow.stateVersion

/-- The event is a successful mutation of the request. -/
def mutates (requestId : Text) : Call × Response → Bool
  | (.assignAttempt assignedId _ _ _, .assigned (some _)) => assignedId = requestId
  | (.transition movedId _ _ _, .accepted true) => movedId = requestId
  | (.finalize completedId _ _, .accepted true) => completedId = requestId
  | _ => false

/-- The event is a transition of the request that carried this version and
returned true. -/
def transitioned (requestId : Text) (expectedStateVersion : ℕ) : Call × Response → Bool
  | (.transition movedId expected _ _, .accepted true) =>
      movedId = requestId && expected = expectedStateVersion
  | _ => false

variable {store next : Store} {call : Call} {response : Response} {requestId : Text}
  {past : List (Call × Response)}

theorem transitioned_mutates {expected : ℕ} {event : Call × Response}
    (moved : transitioned requestId expected event = true) : mutates requestId event = true := by
  unfold transitioned at moved
  split at moved
  · rw [Bool.and_eq_true] at moved
    exact moved.1
  · cases moved

theorem versionOf_eq_some {version : ℕ} :
    store.versionOf requestId = some version ↔
      ∃ row, store.inferenceRequests.lookup requestId = some row ∧ row.stateVersion = version := by
  simp only [versionOf, Option.map_eq_some_iff]

@[simp] theorem versionOf_putRequest (store : Store) (writtenId query : Text) (row : RequestRow) :
    (store.putRequest writtenId row).versionOf query =
      if query = writtenId then some row.stateVersion else store.versionOf query := by
  unfold versionOf
  rw [putRequest_lookup]
  split <;> rfl

@[simp] theorem versionOf_insertOutbox (store : Store) (topic messageKey payload : Text)
    (sourcePartition sourceOffset : ℤ) :
    (store.insertOutbox topic messageKey payload sourcePartition sourceOffset).versionOf =
      store.versionOf := by
  funext query
  unfold versionOf
  rw [insertOutbox_requests]

/-- No refusal is a mutation. -/
theorem Response.Refusal.mutates_eq (refusal : response.Refusal) (call : Call) :
    mutates requestId (call, response) = false := by
  unfold mutates
  split
  · next event => cases event; cases refusal
  · next event => cases event; cases refusal
  · next event => cases event; cases refusal
  · rfl

/-- A row written over another with the next version. -/
theorem versionOf_raised {writtenId : Text} {row after : RequestRow}
    (found : store.inferenceRequests.lookup writtenId = some row)
    (raised : after.stateVersion = row.stateVersion + 1) (same : writtenId = requestId) :
    ∃ version, store.versionOf requestId = some version ∧
      (store.putRequest writtenId after).versionOf requestId = some (version + 1) := by
  subst same
  refine ⟨row.stateVersion, versionOf_eq_some.mpr ⟨row, found, rfl⟩, ?_⟩
  rw [versionOf_putRequest, if_pos rfl, raised]

/-- A successful mutation raises the version by one. -/
theorem Step.versionOf_mutated (step : Step store call response next)
    (mutated : mutates requestId (call, response) = true) :
    ∃ version, store.versionOf requestId = some version ∧
      next.versionOf requestId = some (version + 1) := by
  cases step with
  | refused refusal => simp [refusal.mutates_eq] at mutated
  | acquired raised fits => cases mutated
  | ingested fresh unused => cases mutated
  | poisoned fresh => cases mutated
  | marked => cases mutated
  | assigned found source current unresolved fits =>
      exact versionOf_raised found rfl (of_decide_eq_true mutated)
  | moved found same unresolved => exact versionOf_raised found rfl (of_decide_eq_true mutated)
  | completed found fenced fits =>
      rw [versionOf_insertOutbox]
      exact versionOf_raised found rfl (of_decide_eq_true mutated)

/-- Writing the row of another request keeps the version. -/
theorem versionOf_other {writtenId : Text} (other : decide (writtenId = requestId) = false)
    (row : RequestRow) :
    (store.putRequest writtenId row).versionOf requestId = store.versionOf requestId := by
  rw [versionOf_putRequest, if_neg]
  exact fun same => of_decide_eq_false other same.symm

/-- An event that is no successful mutation of the request keeps its version. -/
theorem Step.versionOf_kept (step : Step store call response next)
    (other : mutates requestId (call, response) = false) {version : ℕ}
    (read : store.versionOf requestId = some version) :
    next.versionOf requestId = some version := by
  cases step with
  | refused refusal => exact read
  | acquired raised fits => exact read
  | marked => exact read
  | poisoned fresh =>
      rw [versionOf_insertOutbox]
      exact read
  | @ingested ingestedId sourcePartition sourceOffset rawPayload fresh unused =>
      obtain ⟨row, found, _⟩ := versionOf_eq_some.mp read
      have distinct : requestId ≠ ingestedId := by
        intro same
        apply fresh
        rw [← same]
        exact AList.lookup_isSome.mp (by simp [found])
      rw [versionOf_putRequest, if_neg distinct]
      exact read
  | assigned found source current unresolved fits => exact (versionOf_other other _).trans read
  | moved found same unresolved => exact (versionOf_other other _).trans read
  | completed found fenced fits =>
      rw [versionOf_insertOutbox]
      exact (versionOf_other other _).trans read

/-- A request that appears in the table starts at version zero. -/
theorem Step.versionOf_absent (step : Step store call response next)
    (absent : store.versionOf requestId = none) :
    next.versionOf requestId = none ∨ next.versionOf requestId = some 0 := by
  have written : ∀ (writtenId : Text) (row after : RequestRow),
      store.inferenceRequests.lookup writtenId = some row →
      (store.putRequest writtenId after).versionOf requestId = none := by
    intro writtenId row after found
    have distinct : requestId ≠ writtenId := by
      intro same
      rw [same, versionOf, found] at absent
      cases absent
    rw [versionOf_putRequest, if_neg distinct]
    exact absent
  cases step with
  | refused refusal => exact .inl absent
  | acquired raised fits => exact .inl absent
  | marked => exact .inl absent
  | poisoned fresh =>
      rw [versionOf_insertOutbox]
      exact .inl absent
  | ingested fresh unused =>
      rw [versionOf_putRequest]
      split
      · exact .inr rfl
      · exact .inl absent
  | assigned found source current unresolved fits => exact .inl (written _ _ _ found)
  | moved found same unresolved => exact .inl (written _ _ _ found)
  | completed found fenced fits =>
      rw [versionOf_insertOutbox]
      exact .inl (written _ _ _ found)

theorem bigintSucc_full {value : ℕ} (full : int64Max < value + 1) :
    bigintSucc value = .error .bigintOutOfRange := if_pos full

/-- An assignment of a row whose version is exhausted is refused. -/
theorem assignAttempt_full {row : RequestRow}
    (found : store.inferenceRequests.lookup requestId = some row)
    (full : int64Max < row.stateVersion + 1) (partitionId : ℤ) (ownershipEpoch : ℕ)
    (engineId : Text) :
    (object.respond (.assignAttempt requestId partitionId ownershipEpoch engineId)
      store).1.Refusal := by
  change (store.transact .assigned
    (store.assignAttempt requestId partitionId ownershipEpoch engineId)).1.Refusal
  cases checked : checkedInt64 ownershipEpoch with
  | error error =>
      simp only [assignAttempt, checked]
      trivial
  | ok epoch =>
      by_cases guard : row.sourcePartition = partitionId ∧
          store.epochOf partitionId = some epoch ∧ row.state ∉ terminalStates
      · simp only [assignAttempt, checked, found, bind, Except.bind, if_pos guard,
          bigintSucc_full full]
        trivial
      · simp only [assignAttempt, checked, found, bind, Except.bind, if_neg guard]
        rfl

/-- A transition of a row whose version is exhausted is refused. -/
theorem transition_full {row : RequestRow}
    (found : store.inferenceRequests.lookup requestId = some row)
    (full : int64Max < row.stateVersion + 1) (expectedStateVersion : ℕ)
    (expectedState nextState : Text) :
    (object.respond (.transition requestId expectedStateVersion expectedState nextState)
      store).1.Refusal := by
  change (store.transact .accepted
    (store.transition requestId expectedStateVersion expectedState nextState)).1.Refusal
  cases checked : checkedInt64 expectedStateVersion with
  | error error =>
      simp only [transition, checked]
      trivial
  | ok expected =>
      by_cases guard : row.stateVersion = expected ∧ row.state = expectedState ∧
          row.state ∉ terminalStates
      · simp only [transition, checked, found, bind, Except.bind, if_pos guard,
          bigintSucc_full full]
        trivial
      · simp only [transition, checked, found, bind, Except.bind, if_neg guard]
        rfl

/-- A successful mutation leaves a version the column can hold. -/
theorem respond_versionOf_fits (call : Call) (store : Store)
    (mutated : mutates requestId (call, (object.respond call store).1) = true) {version : ℕ}
    (read : store.versionOf requestId = some version) : version + 1 ≤ int64Max := by
  obtain ⟨row, found, rfl⟩ := versionOf_eq_some.mp read
  by_contra full
  have refused : ¬ (object.respond call store).1.Refusal := by
    intro refusal
    simp [refusal.mutates_eq] at mutated
  have step := respond_step call store
  generalize response : (object.respond call store).1 = given at step mutated
  generalize (object.respond call store).2 = after at step
  cases step with
  | refused refusal => exact refused (response ▸ refusal)
  | acquired raised fits => cases mutated
  | ingested fresh unused => cases mutated
  | poisoned fresh => cases mutated
  | marked => cases mutated
  | assigned _ _ _ _ _ =>
      cases of_decide_eq_true mutated
      exact refused (assignAttempt_full found (Nat.lt_of_not_le full) _ _ _)
  | moved _ _ _ =>
      cases of_decide_eq_true mutated
      exact refused (transition_full found (Nat.lt_of_not_le full) _ _ _)
  | completed other _ fits =>
      cases of_decide_eq_true mutated
      cases found.symm.trans other
      exact full fits

/-- What the version of a request knows about the calls so far. -/
structure Versioned (requestId : Text) (past : List (Call × Response)) (store : Store) : Prop where
  counted : past.countP (mutates requestId) = (store.versionOf requestId).getD 0
  spent : ∀ event ∈ past, ∀ expected, transitioned requestId expected event = true →
    ∃ version, store.versionOf requestId = some version ∧ expected < version
  once : ∀ expected, past.countP (transitioned requestId expected) ≤ 1
  fits : ∀ version, store.versionOf requestId = some version → version ≤ int64Max

/-- A transition that returned true carried the version of the row. -/
theorem Step.versionOf_transitioned (step : Step store call response next) {expected : ℕ}
    (moved : transitioned requestId expected (call, response) = true) :
    store.versionOf requestId = some expected := by
  cases step with
  | refused refusal =>
      have mutated := transitioned_mutates moved
      simp [refusal.mutates_eq] at mutated
  | acquired raised fits => cases moved
  | ingested fresh unused => cases moved
  | assigned found source current unresolved fits => cases moved
  | completed found fenced fits => cases moved
  | poisoned fresh => cases moved
  | marked => cases moved
  | moved found same unresolved =>
      simp only [transitioned, Bool.and_eq_true, decide_eq_true_eq] at moved
      obtain ⟨rfl, rfl⟩ := moved
      exact versionOf_eq_some.mpr ⟨_, found, rfl⟩

/-- One call keeps the relation. -/
theorem Versioned.step (versioned : Versioned requestId past store) (call : Call) :
    Versioned requestId (past ++ [(call, (object.respond call store).1)])
      (object.respond call store).2 := by
  have step := respond_step call store
  have fits : mutates requestId (call, (object.respond call store).1) = true → ∀ version,
      store.versionOf requestId = some version → version + 1 ≤ int64Max :=
    fun mutated _ => respond_versionOf_fits call store mutated
  generalize (object.respond call store).1 = response at step fits
  generalize (object.respond call store).2 = next at step
  -- a version that was spent stays spent, whatever the call did
  have grows : ∀ version, store.versionOf requestId = some version →
      ∃ later, next.versionOf requestId = some later ∧ version ≤ later ∧
        (mutates requestId (call, response) = true → version < later) := by
    intro version read
    cases mutated : mutates requestId (call, response) with
    | false => exact ⟨version, step.versionOf_kept mutated read, le_rfl, fun h => by cases h⟩
    | true =>
        obtain ⟨before, readBefore, after⟩ := step.versionOf_mutated mutated
        cases read.symm.trans readBefore
        exact ⟨version + 1, after, Nat.le_succ _, fun _ => Nat.lt_succ_self _⟩
  refine ⟨?_, ?_, ?_, ?_⟩
  · rw [List.countP_append, versioned.counted, List.countP_singleton]
    cases mutated : mutates requestId (call, response) with
    | true =>
        obtain ⟨version, read, after⟩ := step.versionOf_mutated mutated
        simp [read, after]
    | false =>
        cases read : store.versionOf requestId with
        | some version => simp [step.versionOf_kept mutated read]
        | none =>
            rcases step.versionOf_absent read with absent | zero
            · simp [absent]
            · simp [zero]
  · intro event member expected moved
    rcases List.mem_append.mp member with earlier | last
    · obtain ⟨version, read, less⟩ := versioned.spent event earlier expected moved
      obtain ⟨later, readLater, grown, _⟩ := grows version read
      exact ⟨later, readLater, less.trans_le grown⟩
    · cases List.mem_singleton.mp last
      obtain ⟨later, readLater, _, raised⟩ := grows expected (step.versionOf_transitioned moved)
      exact ⟨later, readLater, raised (transitioned_mutates moved)⟩
  · intro expected
    rw [List.countP_append, List.countP_singleton]
    split
    · next moved =>
        -- an earlier transition under this version would have spent it
        have none : past.countP (transitioned requestId expected) = 0 := by
          rw [List.countP_eq_zero]
          intro event member again
          obtain ⟨version, read, less⟩ := versioned.spent event member expected again
          cases read.symm.trans (step.versionOf_transitioned moved)
          exact lt_irrefl _ less
        rw [none]
    · exact versioned.once expected
  · intro version read
    cases mutated : mutates requestId (call, response) with
    | true =>
        obtain ⟨before, readBefore, after⟩ := step.versionOf_mutated mutated
        cases read.symm.trans after
        exact fits mutated before readBefore
    | false =>
        cases before : store.versionOf requestId with
        | some earlier =>
            cases read.symm.trans (step.versionOf_kept mutated before)
            exact versioned.fits _ before
        | none =>
            rcases step.versionOf_absent before with absent | zero
            · cases read.symm.trans absent
            · cases read.symm.trans zero
              exact Nat.zero_le _

theorem Versioned.run (requestId : Text) (calls : List Call) :
    Versioned requestId (object.history calls .empty) (object.run calls .empty) := by
  have start : Versioned requestId [] .empty := by
    refine ⟨rfl, List.forall_mem_nil _, fun _ => Nat.zero_le _, ?_⟩
    intro version read
    cases read
  exact object.history_invariant (fun _ call _ versioned => versioned.step call) calls _ start

/-- A version only grows, and a successful mutation makes it grow. -/
theorem versionOf_run (calls : List Call) {version : ℕ}
    (read : store.versionOf requestId = some version) :
    ∃ later, (object.run calls store).versionOf requestId = some later ∧
      version + (object.history calls store).countP (mutates requestId) = later := by
  have each : ∀ past call state,
      (∃ later, state.versionOf requestId = some later ∧
        version + past.countP (mutates requestId) = later) →
      ∃ later, (object.respond call state).2.versionOf requestId = some later ∧
        version + (past ++ [(call, (object.respond call state).1)]).countP (mutates requestId) =
          later := by
    intro past call state holds
    obtain ⟨later, readLater, counted⟩ := holds
    have step := respond_step call state
    rw [List.countP_append, List.countP_singleton]
    cases mutated : mutates requestId (call, (object.respond call state).1) with
    | false => exact ⟨later, step.versionOf_kept mutated readLater, counted⟩
    | true =>
        obtain ⟨before, readBefore, after⟩ := step.versionOf_mutated mutated
        cases readLater.symm.trans readBefore
        exact ⟨later + 1, after, by simp [← counted, Nat.add_assoc]⟩
  exact object.history_invariant each calls store ⟨version, read, rfl⟩

/-- A transition that carries another version of the row does nothing. -/
theorem transition_stale {version expected : ℕ}
    (read : store.versionOf requestId = some version) (stale : version ≠ expected)
    (fits : expected ≤ int64Max) (expectedState nextState : Text) :
    object.respond (.transition requestId expected expectedState nextState) store =
      (.accepted false, store) := by
  obtain ⟨row, found, rfl⟩ := versionOf_eq_some.mp read
  have checked : checkedInt64 expected = .ok expected := if_neg (Nat.not_lt.mpr fits)
  have guard : ¬ (row.stateVersion = expected ∧ row.state = expectedState ∧
      row.state ∉ terminalStates) := fun same => stale same.1
  change store.transact .accepted
    (store.transition requestId expected expectedState nextState) = _
  simp only [transition, checked, found, bind, Except.bind, if_neg guard]
  rfl

/-- **No lost update.** In every run, a successful `AssignAttempt`, `Transition` or
`Finalize` of a request raises its version by one and no other call changes it;
at most one of all transitions that carry one version returns true; and a
transition with a version read before another successful mutation returns false
and leaves the tables alone. -/
theorem state_versions (calls : List Call) (requestId : Text) :
    (∀ call version, (object.run calls .empty).versionOf requestId = some version →
      (object.respond call (object.run calls .empty)).2.versionOf requestId =
        some (if mutates requestId (call, (object.respond call (object.run calls .empty)).1)
          then version + 1 else version)) ∧
    (∀ call, mutates requestId (call, (object.respond call (object.run calls .empty)).1) = true →
      ∃ version, (object.run calls .empty).versionOf requestId = some version) ∧
    (∀ expected, (object.history calls .empty).countP (transitioned requestId expected) ≤ 1) ∧
    ∀ version between expectedState nextState,
      (object.run calls .empty).versionOf requestId = some version →
      (∃ event ∈ object.history between (object.run calls .empty),
        mutates requestId event = true) →
      object.respond (.transition requestId version expectedState nextState)
          (object.run (calls ++ between) .empty) =
        (.accepted false, object.run (calls ++ between) .empty) := by
  have versioned := Versioned.run requestId calls
  refine ⟨?_, ?_, versioned.once, ?_⟩
  · intro call version read
    have step := respond_step call (object.run calls .empty)
    cases mutated : mutates requestId
        (call, (object.respond call (object.run calls .empty)).1) with
    | false => exact step.versionOf_kept mutated read
    | true =>
        obtain ⟨before, readBefore, after⟩ := step.versionOf_mutated mutated
        cases read.symm.trans readBefore
        exact after
  · intro call mutated
    obtain ⟨version, read, _⟩ := (respond_step call _).versionOf_mutated mutated
    exact ⟨version, read⟩
  · intro version between expectedState nextState read rival
    obtain ⟨later, readLater, counted⟩ := versionOf_run between read
    rw [object.run_append]
    apply transition_stale readLater
    · have positive := List.countP_pos_iff.mpr rival
      omega
    · exact versioned.fits version read

/-- Two routers read version one; the transition of the second finds it spent. -/
theorem state_versions_rivals :
    object.respond (.transition ['x'] 1 dispatchedState receivedState)
        (object.run ([.acquirePartition 0 ['a'], .ingest ['x'] 0 5 [],
          .assignAttempt ['x'] 0 1 ['e']] ++ [.assignAttempt ['x'] 0 1 ['f']]) .empty) =
      (.accepted false, object.run ([.acquirePartition 0 ['a'], .ingest ['x'] 0 5 [],
        .assignAttempt ['x'] 0 1 ['e']] ++ [.assignAttempt ['x'] 0 1 ['f']]) .empty) :=
  (state_versions [.acquirePartition 0 ['a'], .ingest ['x'] 0 5 [],
    .assignAttempt ['x'] 0 1 ['e']] ['x']).2.2.2 1 [.assignAttempt ['x'] 0 1 ['f']]
      dispatchedState receivedState (by decide) (by decide)

end InferSched.Durable.Store

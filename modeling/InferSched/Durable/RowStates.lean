import InferSched.Durable.RecoveryRuns

/-! # The rows that routers write

`main` never calls `Transition`, so a request leaves the states of a router only through
`Finalize`. A row that routers can write is received or dispatched and has no terminal
result, or it is completed and its terminal result is what the outbox publishes. Readers of
the table, as the gateway is one, see no other row (`Router.row_cases`).
-/

namespace InferSched.Durable

open Library

namespace Store

/-- A transition, which no router makes. -/
def Call.IsTransition : Call → Prop
  | .transition _ _ _ _ => True
  | _ => False

/-- An open request has no terminal result, and every other one is completed with a result
row. -/
def Finalized (store : Store) : Prop :=
  ∀ requestId row, store.inferenceRequests.lookup requestId = some row →
    (row.state = receivedState ∨ row.state = dispatchedState) ∧ row.terminalResult = none ∨
      row.state = completedState ∧ store.HasResult requestId

variable {store next : Store} {requestId : Text} {row : RequestRow}

theorem Finalized.empty : Store.empty.Finalized := by
  intro requestId row found
  cases found

/-- Writing an open row without a result. -/
theorem Finalized.put (finalized : store.Finalized)
    (isOpen : row.state = receivedState ∨ row.state = dispatchedState)
    (unfinished : row.terminalResult = none) : (store.putRequest requestId row).Finalized := by
  intro query found lookup
  rw [putRequest_lookup] at lookup
  split at lookup
  · cases lookup
    exact Or.inl ⟨isOpen, unfinished⟩
  · exact finalized query found lookup

/-- A call that is no transition keeps the rows so. -/
theorem Finalized.step (finalized : store.Finalized) {call : Call} {response : Response}
    (step : Step store call response next) (routed : ¬ call.IsTransition) : next.Finalized := by
  have kept : ∀ query row, store.inferenceRequests.lookup query = some row →
      (row.state = receivedState ∨ row.state = dispatchedState) ∧ row.terminalResult = none ∨
        row.state = completedState ∧ next.HasResult query := by
    intro query row found
    exact (finalized query row found).imp_right fun done => ⟨done.1, step.hasResult done.2⟩
  cases step with
  | refused refusal => exact finalized
  | acquired raised fits => exact kept
  | marked => exact kept
  | ingested fresh unused => exact finalized.put (Or.inl rfl) rfl
  | assigned found source current unresolved fits =>
      refine finalized.put (Or.inr rfl) ?_
      rcases finalized _ _ found with ⟨_, unfinished⟩ | ⟨completed, _⟩
      · exact unfinished
      · exact absurd (completed ▸ completed_terminal) unresolved
  | moved found same unresolved => exact absurd trivial routed
  | @completed completedId fence payload before found fenced fits =>
      intro query row lookup
      by_cases same : query = completedId
      · subst same
        obtain ⟨⟨written, isWritten, completed⟩, published⟩ :=
          store.resolved_completed query payload before
        cases isWritten.symm.trans lookup
        exact Or.inr ⟨completed, published⟩
      · rw [insertOutbox_requests, putRequest_lookup, if_neg same] at lookup
        exact kept query row lookup
  | poisoned fresh =>
      intro query row lookup
      rw [insertOutbox_requests] at lookup
      exact kept query row lookup

end Store

/-- A router changes the store by one call at most, and not by a transition. -/
theorem Cluster.Answers.routed {κ : Type} [DecidableEq κ] {cluster next : Cluster κ} {member : κ}
    {operation : RouterCall} {answer : operation.Answer}
    (answered : cluster.Answers member operation answer next) :
    next.store = cluster.store ∨ ∃ (call : Store.Call) (response : Store.Response),
      ¬ call.IsTransition ∧ Store.Step cluster.store call response next.store := by
  have wrote : ∀ {call response}, ¬ call.IsTransition → cluster.Writes call response next →
      ∃ (call : Store.Call) (response : Store.Response), ¬ call.IsTransition ∧
        Store.Step cluster.store call response next.store := by
    rintro call response routed ⟨store, responded, rfl⟩
    have step := Store.respond_step call cluster.store
    rw [responded] at step
    exact ⟨call, response, routed, step⟩
  cases operation with
  | popOwnershipEvent | pop | owns | recoverUnresolved | isTerminal | isSourcePublished =>
      obtain ⟨_, rfl⟩ := answered
      exact Or.inl rfl
  | markPublishComplete | dispatch =>
      cases answered
      exact Or.inl rfl
  | acquirePartition | assignAttempt | finalize | ingest | recordPoison =>
      exact Or.inr (wrote id answered)
  | relay call =>
      cases call with
      | fetchUnpublished =>
          obtain ⟨_, rfl⟩ := answered
          exact Or.inl rfl
      | publish =>
          cases answered
          exact Or.inl rfl
      | markPublished => exact Or.inr (wrote id answered)

section Team

variable {κ : Type} [DecidableEq κ] {setup : RouterSetup} {log : ℤ → ℤ → Text}
  {routerId engineId : κ → Text} {initial : ℤ → ℤ}
  {config next : Team.Config κ (Cluster κ) RouterCall RouterCall.Answer Router}

theorem Router.team_routed (step : (Router.team setup log routerId engineId).Step config next) :
    next.shared.store = config.shared.store ∨
      ∃ (call : Store.Call) (response : Store.Response), ¬ call.IsTransition ∧
        Store.Step config.shared.store call response next.shared.store := by
  cases step with
  | call member here answered => exact answered.routed
  | again member here => exact Or.inl rfl
  | outside moved =>
      cases moved with
      | take | commit | commitFailed | consume | assign | revoke => exact Or.inl rfl
  | restart member failed =>
      cases failed
      exact Or.inl rfl

/-- Whatever routers do, a request that is not open was finalized. -/
theorem Router.finalized_of_reachable
    (reached : (Router.team setup log routerId engineId).Reachable (.start initial) config) :
    config.shared.store.Finalized := by
  induction reached with
  | refl => exact Store.Finalized.empty
  | tail _ step ih =>
      rcases Router.team_routed step with same | ⟨call, response, routed, written⟩
      · rw [same]
        exact ih
      · exact ih.step written routed

variable {outputs : InferenceRequest → Fence → Text → Prop} {requestId : Text} {row : RequestRow}

/-- The rows that a reader of the table can find. -/
theorem Router.row_cases
    (reached : (Router.servedTeam setup log routerId engineId outputs).Reachable (.start initial)
      config) (found : config.shared.store.inferenceRequests.lookup requestId = some row) :
    (row.state = receivedState ∨ row.state = dispatchedState) ∧ row.terminalResult = none ∨
      row.state = completedState ∧ ∃ fence payload, row.terminalResult = some payload ∧
        row.Carries fence ∧ Store.Produced setup log outputs requestId fence payload := by
  have finalized := Router.finalized_of_reachable (Team.reachable_of_answering reached)
  refine (finalized requestId row found).imp_right ?_
  rintro ⟨completed, out, listed, isResult, isKey⟩
  obtain ⟨other, fence, isRow, _, isTerminal, _, _, carries, produced⟩ :=
    (Router.authored_of_served reached).results out listed isResult
  rw [isKey] at isRow produced
  cases found.symm.trans isRow
  exact ⟨completed, fence, out.payload, isTerminal, carries, produced⟩

end Team

end InferSched.Durable

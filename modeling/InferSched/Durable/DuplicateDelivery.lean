import InferSched.Durable.MessageHandling

/-! # Requests that are in the log twice

A client that sends a request again puts it at a second position of the log. The first of
the two that is ingested gives the request its row, and its result row has the position of
that one. The other position never gets a row, so it is never settled, and the group cannot
commit past it: neither in this run nor after any restart, where the log is read again from
the position committed last.
-/

namespace InferSched.Durable

open Library

namespace Store

variable {setup : RouterSetup} {log : ℤ → ℤ → Text} {store next : Store} {requestId : Text}

/-- The row of a request came from this position of the log. -/
def IngestedFrom (store : Store) (requestId : Text) (sourcePartition sourceOffset : ℤ) : Prop :=
  ∃ row, store.inferenceRequests.lookup requestId = some row ∧
    row.sourcePartition = sourcePartition ∧ row.sourceOffset = sourceOffset

theorem IngestedFrom.put {sourcePartition sourceOffset : ℤ} {changedId : Text}
    {row later : RequestRow} (ingested : store.IngestedFrom requestId sourcePartition sourceOffset)
    (found : store.inferenceRequests.lookup changedId = some row)
    (samePartition : later.sourcePartition = row.sourcePartition)
    (sameOffset : later.sourceOffset = row.sourceOffset) :
    (store.putRequest changedId later).IngestedFrom requestId sourcePartition sourceOffset := by
  obtain ⟨before, isBefore, source⟩ := ingested
  unfold IngestedFrom
  rw [putRequest_lookup]
  split
  · next same =>
      subst same
      cases found.symm.trans isBefore
      exact ⟨later, rfl, samePartition.trans source.1, sameOffset.trans source.2⟩
  · exact ⟨before, isBefore, source⟩

theorem IngestedFrom.insertOutbox {sourcePartition sourceOffset : ℤ}
    (ingested : store.IngestedFrom requestId sourcePartition sourceOffset)
    (topic messageKey payload : Text) (partitionId offset : ℤ) :
    (store.insertOutbox topic messageKey payload partitionId offset).IngestedFrom requestId
      sourcePartition sourceOffset := by
  unfold IngestedFrom
  rw [insertOutbox_requests]
  exact ingested

/-- No call moves a request to another position. -/
theorem Step.ingestedFrom {call : Call} {response : Response}
    (step : Step store call response next) {sourcePartition sourceOffset : ℤ}
    (ingested : store.IngestedFrom requestId sourcePartition sourceOffset) :
    next.IngestedFrom requestId sourcePartition sourceOffset := by
  cases step with
  | refused refusal => exact ingested
  | acquired raised fits => exact ingested
  | marked => exact ingested
  | @ingested freshId _ _ _ fresh unused =>
      obtain ⟨row, found, source⟩ := ingested
      have other : requestId ≠ freshId := by
        rintro rfl
        exact fresh (AList.lookup_isSome.mp (by rw [found]; rfl))
      refine ⟨row, ?_, source⟩
      rw [putRequest_lookup, if_neg other]
      exact found
  | assigned found source current unresolved fits => exact ingested.put found rfl rfl
  | moved found same unresolved => exact ingested.put found rfl rfl
  | completed found fenced fits =>
      apply IngestedFrom.insertOutbox
      exact ingested.put found rfl rfl
  | poisoned fresh =>
      apply IngestedFrom.insertOutbox
      exact ingested

/-- A settled position of a request is the one that its row came from. -/
theorem Settled.ingestedFrom {sourcePartition sourceOffset : ℤ}
    (settled : store.Settled sourcePartition sourceOffset) (sourced : store.Sourced setup log)
    (parsed : (setup.parsed (log sourcePartition sourceOffset)).map InferenceRequest.requestId =
      some requestId) : store.IngestedFrom requestId sourcePartition sourceOffset := by
  obtain ⟨⟨row, member, rfl, rfl⟩, _⟩ := settled
  rcases sourced.rows row member with ⟨request, found, _, samePartition, sameOffset⟩ | poisoned
  · have own := sourced.requests _ request found
    rw [samePartition, sameOffset, parsed] at own
    cases own
    exact ⟨request, found, samePartition, sameOffset⟩
  · rw [sourced.poison _ _ poisoned] at parsed
    cases parsed

end Store

section Team

variable {κ : Type} [DecidableEq κ] {setup : RouterSetup} {log : ℤ → ℤ → Text}
  {routerId engineId : κ → Text}
  {config later : Team.Config κ (Cluster κ) RouterCall RouterCall.Answer Router}

theorem Router.team_ingestedFrom {requestId : Text} {sourcePartition sourceOffset : ℤ}
    (steps : Relation.ReflTransGen (Router.team setup log routerId engineId).Step config later)
    (ingested : config.shared.store.IngestedFrom requestId sourcePartition sourceOffset) :
    later.shared.store.IngestedFrom requestId sourcePartition sourceOffset := by
  induction steps with
  | refl => exact ingested
  | tail _ step ih =>
      rcases Router.team_store step with same | ⟨call, written⟩
      · rw [same]
        exact ih
      · rw [written]
        exact (Store.respond_step call _).ingestedFrom ih

end Team

namespace Cluster

variable {κ : Type}

/-- The group has not committed past an offset, and no poller is about to: neither a queued
commit nor a tracker has reached it. -/
structure Held (cluster : Cluster κ) (partitionId offset : ℤ) : Prop where
  committed : cluster.committed partitionId ≤ offset
  commits : ∀ member, ∀ commit ∈ (cluster.pollers member).commits ++
    (cluster.pollers member).flushing, commit.1 = partitionId → commit.2 < offset
  trackers : ∀ member tracker,
    (cluster.pollers member).trackers.lookup partitionId = some tracker →
      tracker.committedOffset < offset

/-- A position that is not settled holds the group. -/
theorem Safe.held {setup : RouterSetup} {log : ℤ → ℤ → Text} {initial : ℤ → ℤ}
    {cluster : Cluster κ} (safe : cluster.Safe setup log initial) {partitionId offset : ℤ}
    (consumed : initial partitionId ≤ offset)
    (unsettled : ¬ cluster.store.Settled partitionId offset) : cluster.Held partitionId offset where
  committed := by
    by_contra passed
    exact unsettled (safe.committed partitionId offset consumed (not_le.mp passed))
  commits member commit queued same := by
    by_contra passed
    subst same
    exact unsettled ((safe.pollers member).commits commit queued offset consumed
      (not_lt.mp passed))
  trackers member tracker found := by
    by_contra passed
    exact unsettled (((safe.pollers member).trackers partitionId tracker found).committed offset
      consumed (not_lt.mp passed))

end Cluster

/-- **A duplicate blocks its partition.** Once a request was ingested from one position of the
log, no other position with the same request id is ever committed: in every later
configuration, whatever routers, rebalances and restarts come between, the group stands at or
before it. -/
theorem duplicate_blocks {κ : Type} [DecidableEq κ] {setup : RouterSetup} {log : ℤ → ℤ → Text}
    {routerId engineId : κ → Text} {initial : ℤ → ℤ}
    {config later : Team.Config κ (Cluster κ) RouterCall RouterCall.Answer Router}
    (reached : (Router.team setup log routerId engineId).Reachable (.start initial) config)
    (steps : Relation.ReflTransGen (Router.team setup log routerId engineId).Step config later)
    {requestId : Text} {row : RequestRow}
    (found : config.shared.store.inferenceRequests.lookup requestId = some row)
    {partitionId offset : ℤ} (consumed : initial partitionId ≤ offset)
    (again : (setup.parsed (log partitionId offset)).map InferenceRequest.requestId =
      some requestId)
    (elsewhere : (row.sourcePartition, row.sourceOffset) ≠ (partitionId, offset)) :
    later.shared.Held partitionId offset := by
  have safe : later.shared.Safe setup log initial :=
    ((Router.discipline setup log routerId engineId initial).disciplined_of_reachable
      Cluster.Safe.start (reached.trans steps)).1
  refine safe.held consumed fun settled => elsewhere ?_
  obtain ⟨own, isOwn, samePartition, sameOffset⟩ :=
    Router.team_ingestedFrom steps ⟨row, found, rfl, rfl⟩
  obtain ⟨twin, isTwin, itsPartition, itsOffset⟩ := settled.ingestedFrom safe.sourced again
  cases isOwn.symm.trans isTwin
  rw [← samePartition, ← sameOffset, itsPartition, itsOffset]

open Solo in
/-- The request of offset 0 is completed and committed. It is in the log at offset 1 as well,
where the group stays. -/
theorem duplicate_blocks_second :
    ∃ config, team.Reachable (.start fun _ => 0) config ∧ config.shared.committed 0 = 1 ∧
      ∀ later, Relation.ReflTransGen team.Step config later → later.shared.committed 0 ≤ 1 := by
  have started : At (.start fun _ => 0) (Router.turn setup ['a'] ['e'] {}) := .refl
  have notified := At.call (started.polls (.assign () [0] rfl)) (some ⟨.assigned, [0]⟩) ⟨rfl, rfl⟩
  have recovered := At.call (At.call notified 1 (writes rfl)) [] ⟨by decide +kernel, rfl⟩
  have delivered := (At.again recovered).polls (@Cluster.Polls.consume _ _ _ _ () 0 0 rfl rfl)
  have popped := At.call (At.call delivered none ⟨rfl, rfl⟩) (some ⟨['r'], 0, 0⟩) ⟨rfl, rfl⟩
  have ingested := At.call (At.call popped true ⟨rfl, rfl⟩) true (writes rfl)
  have owned := At.call (At.call ingested false ⟨by decide +kernel, rfl⟩) true ⟨rfl, rfl⟩
  have attempted := At.call owned (some ⟨⟨0, 1, 1, ['e']⟩, 1⟩) (writes (by decide +kernel))
  have finalized := At.call (At.call attempted ['x'] rfl) true (writes (by decide +kernel))
  have fetched := At.call finalized [⟨1, resultsTopic, ['r'],
    resultEnvelope ⟨['r'], [], []⟩ ⟨0, 1, 1, ['e']⟩ ['x'], 0, 0, false⟩] ⟨by decide +kernel, rfl⟩
  have marked := At.call (At.call fetched true rfl) () (writes rfl)
  have tracked := At.call (At.call marked true ⟨by decide +kernel, rfl⟩) () rfl
  have committed := (At.polls tracked (.take () rfl)).polls (.commit () rfl)
  refine ⟨_, committed, by decide +kernel, fun later steps => ?_⟩
  have held := @duplicate_blocks _ _ _ _ _ _ _ _ _ committed steps ['r'] _ rfl 0 1 (by decide) rfl
    (by decide +kernel)
  exact held.committed

end InferSched.Durable

import InferSched.Durable.Fencing
import InferSched.Durable.ResultProvenance

/-! # Recovery

A router that is assigned partitions acquires them, reads the requests that have no
final state and executes those of its partitions in turn. Undisturbed, and with an
engine that answers, such a turn resolves every one of them: the epoch it has just
acquired is the current one, so no attempt is refused, and the fence of the attempt is
still on the row when the result comes back. A router that fails in the middle has
completed a part of them, and the next owner recovers the rest.
-/

namespace InferSched.Durable

open Library

/-- A dispatch is answered with an output. -/
def RouterCall.Productive : (operation : RouterCall) → operation.Answer → Prop
  | .dispatch _ _, answer => answer ≠ []
  | _, _ => True

namespace Store

/-- The outbox has a result row of a request. -/
def HasResult (store : Store) (requestId : Text) : Prop :=
  ∃ row ∈ store.outbox, row.topic = resultsTopic ∧ row.messageKey = requestId

/-- The request is completed, and its result is in the outbox. -/
def Resolved (store : Store) (requestId : Text) : Prop :=
  (∃ row, store.inferenceRequests.lookup requestId = some row ∧ row.state = completedState) ∧
    store.HasResult requestId

variable {store next : Store} {requestId engineId : Text} {row : RequestRow}

/-- An open request of a partition at its current epoch gets its attempt. -/
theorem assignAttempt_open {partitionId : ℤ} {epoch : ℕ} {answer : Option Assignment}
    (found : store.inferenceRequests.lookup requestId = some row)
    (source : row.sourcePartition = partitionId) (current : store.epochOf partitionId = some epoch)
    (unresolved : row.state ∉ terminalStates)
    (responded : object.respond (.assignAttempt requestId partitionId epoch engineId) store =
      (.assigned answer, next)) :
    answer = some ⟨⟨partitionId, epoch, row.attemptId + 1, engineId⟩, row.stateVersion + 1⟩ ∧
      next = store.putRequest requestId (row.dispatched epoch engineId) := by
  change store.transact .assigned (store.assignAttempt requestId partitionId epoch engineId) = _
    at responded
  cases checked : checkedInt64 epoch with
  | error error =>
      simp only [assignAttempt, checked, bind, Except.bind, transact] at responded
      cases responded
  | ok same =>
      cases checkedInt64_eq_ok checked
      cases version : bigintSucc row.stateVersion with
      | error error =>
          simp only [assignAttempt, checked, found, bind, Except.bind,
            if_pos (And.intro source (And.intro current unresolved)), version, transact]
            at responded
          cases responded
      | ok stateVersion =>
          obtain ⟨rfl, _⟩ := bigintSucc_eq_ok version
          cases attempt : bigintSucc row.attemptId with
          | error error =>
              simp only [assignAttempt, checked, found, bind, Except.bind,
                if_pos (And.intro source (And.intro current unresolved)), version, attempt,
                transact] at responded
              cases responded
          | ok attemptId =>
              obtain ⟨rfl, _⟩ := bigintSucc_eq_ok attempt
              simp only [assignAttempt, checked, found, bind, Except.bind,
                if_pos (And.intro source (And.intro current unresolved)), version, attempt,
                transact] at responded
              cases responded
              exact ⟨rfl, rfl⟩

/-- A dispatched request with its fence is completed. -/
theorem finalize_fenced {fence : Fence} {payload : Text} {answer : Bool}
    (found : store.inferenceRequests.lookup requestId = some row)
    (fenced : fenceMatches row fence = true)
    (responded : object.respond (.finalize requestId fence payload) store =
      (.accepted answer, next)) :
    answer = true ∧
      next = (store.putRequest requestId (row.completed payload)).insertOutbox resultsTopic
        requestId payload row.sourcePartition row.sourceOffset := by
  change store.transact .accepted (store.finalize requestId fence payload) = _ at responded
  cases epoch : checkedInt64 fence.ownershipEpoch with
  | error error =>
      simp only [finalize, epoch, bind, Except.bind, transact] at responded
      cases responded
  | ok _ =>
      cases attempt : checkedInt64 fence.attemptId with
      | error error =>
          simp only [finalize, epoch, attempt, bind, Except.bind, transact] at responded
          cases responded
      | ok _ =>
          cases version : bigintSucc row.stateVersion with
          | error error =>
              simp only [finalize, epoch, attempt, found, bind, Except.bind, if_pos fenced,
                version, transact] at responded
              cases responded
          | ok stateVersion =>
              obtain ⟨rfl, _⟩ := bigintSucc_eq_ok version
              simp only [finalize, epoch, attempt, found, bind, Except.bind, if_pos fenced,
                version, transact] at responded
              cases responded
              exact ⟨rfl, rfl⟩

theorem hasResult_markPublished {outboxId : ℕ} (published : store.HasResult requestId) :
    (store.markPublished outboxId).HasResult requestId := by
  obtain ⟨row, member, isResult⟩ := published
  refine ⟨_, List.mem_map_of_mem member, ?_⟩
  split
  · exact isResult
  · exact isResult

/-- Every insertion keeps the result rows, and one of a result leaves a row of its
request, be it new or the one that was there. -/
theorem hasResult_insertOutbox {topic messageKey payload : Text}
    {sourcePartition sourceOffset : ℤ}
    (published : store.HasResult requestId ∨ topic = resultsTopic ∧ messageKey = requestId) :
    (store.insertOutbox topic messageKey payload sourcePartition sourceOffset).HasResult
      requestId := by
  unfold HasResult
  rw [insertOutbox_outbox]
  split
  · next taken =>
      rcases published with before | ⟨rfl, rfl⟩
      · exact before
      · obtain ⟨row, member, same⟩ := List.any_eq_true.mp taken
        simp only [Bool.and_eq_true, decide_eq_true_eq] at same
        exact ⟨row, member, same⟩
  · rcases published with ⟨row, member, isResult⟩ | ⟨rfl, rfl⟩
    · exact ⟨row, List.mem_append_left _ member, isResult⟩
    · exact ⟨_, List.mem_append_right _ (List.mem_singleton_self _), rfl, rfl⟩

theorem resolved_completed (store : Store) (requestId payload : Text) (row : RequestRow) :
    ((store.putRequest requestId (row.completed payload)).insertOutbox resultsTopic requestId
      payload row.sourcePartition row.sourceOffset).Resolved requestId := by
  refine ⟨⟨row.completed payload, ?_, rfl⟩, hasResult_insertOutbox (Or.inr ⟨rfl, rfl⟩)⟩
  rw [insertOutbox_requests, putRequest_lookup, if_pos rfl]

/-- No call takes a result row away. -/
theorem Step.hasResult {call : Call} {response : Response}
    (step : Step store call response next) (published : store.HasResult requestId) :
    next.HasResult requestId := by
  cases step with
  | completed found fenced fits => exact hasResult_insertOutbox (Or.inl published)
  | poisoned fresh => exact hasResult_insertOutbox (Or.inl published)
  | marked => exact hasResult_markPublished published
  | _ => exact published

/-- The calls that execute a request or publish rows. -/
def Call.executes (requestId : Text) : Call → Prop
  | .assignAttempt own _ _ _ => own = requestId
  | .finalize own _ _ => own = requestId
  | .markPublished _ => True
  | _ => False

/-- The partition a request came from. -/
def sourceOf (store : Store) (requestId : Text) : Option ℤ :=
  (store.inferenceRequests.lookup requestId).map RequestRow.sourcePartition

theorem putRequest_sourceOf {later : RequestRow}
    (found : store.inferenceRequests.lookup requestId = some row)
    (same : later.sourcePartition = row.sourcePartition) (other : Text) :
    (store.putRequest requestId later).sourceOf other = store.sourceOf other := by
  unfold sourceOf
  rw [putRequest_lookup]
  split
  · next isSame => rw [isSame, found, Option.map_some, Option.map_some, same]
  · rfl

/-- They leave the rows of other requests, the sources and the epochs alone. -/
theorem Step.executes {call : Call} {response : Response}
    (step : Step store call response next) (own : call.executes requestId) :
    (∀ other, other ≠ requestId →
      next.inferenceRequests.lookup other = store.inferenceRequests.lookup other) ∧
    (∀ other, next.sourceOf other = store.sourceOf other) ∧
    ∀ partitionId, next.epochOf partitionId = store.epochOf partitionId := by
  cases step with
  | refused refusal => exact ⟨fun _ _ => rfl, fun _ => rfl, fun _ => rfl⟩
  | assigned found source current unresolved fits =>
      cases own
      refine ⟨?_, putRequest_sourceOf found rfl, fun _ => rfl⟩
      exact fun other different => by rw [putRequest_lookup, if_neg different]
  | @completed _ _ payload row found fenced fits =>
      cases own
      have same : (row.completed payload).sourcePartition = row.sourcePartition := rfl
      refine ⟨fun other different => ?_, fun other => ?_, fun partitionId => ?_⟩
      · rw [insertOutbox_requests, putRequest_lookup, if_neg different]
      · rw [← putRequest_sourceOf found same]
        unfold sourceOf
        rw [insertOutbox_requests]
      · exact insertOutbox_epochOf _ _ _ _ _ _ _
  | marked => exact ⟨fun _ _ => rfl, fun _ => rfl, fun _ => rfl⟩
  | acquired raised fits => exact own.elim
  | ingested fresh unused => exact own.elim
  | moved found same unresolved => exact own.elim
  | poisoned fresh => exact own.elim

end Store

namespace Cluster

variable {κ : Type} [DecidableEq κ]

/-- How a call is answered when the engine answers every dispatch. -/
def Yields (member : κ) (cluster : Cluster κ) (operation : RouterCall)
    (answer : operation.Answer) (next : Cluster κ) : Prop :=
  operation.Productive answer ∧ cluster.Answers member operation answer next

/-- What executing some requests leaves alone: the rows of other requests, the epochs,
the assignments and the result rows. -/
structure Apart (requestIds : List Text) (cluster next : Cluster κ) : Prop where
  rows : ∀ other ∉ requestIds,
    next.store.inferenceRequests.lookup other = cluster.store.inferenceRequests.lookup other
  sources : ∀ other, next.store.sourceOf other = cluster.store.sourceOf other
  epochs : ∀ partitionId, next.store.epochOf partitionId = cluster.store.epochOf partitionId
  owns : ∀ member partitionId,
    (next.pollers member).owns partitionId = (cluster.pollers member).owns partitionId
  results : ∀ other, cluster.store.HasResult other → next.store.HasResult other

variable {requestIds more : List Text} {one two three : Cluster κ}

omit [DecidableEq κ] in
theorem Apart.refl (requestIds : List Text) (cluster : Cluster κ) :
    Apart requestIds cluster cluster :=
  ⟨fun _ _ => rfl, fun _ => rfl, fun _ => rfl, fun _ _ => rfl, fun _ published => published⟩

omit [DecidableEq κ] in
theorem Apart.mono (apart : Apart requestIds one two) (subset : requestIds ⊆ more) :
    Apart more one two where
  rows other outside := apart.rows other fun inside => outside (subset inside)
  sources := apart.sources
  epochs := apart.epochs
  owns := apart.owns
  results := apart.results

omit [DecidableEq κ] in
theorem Apart.trans (first : Apart requestIds one two) (second : Apart requestIds two three) :
    Apart requestIds one three where
  rows other outside := (second.rows other outside).trans (first.rows other outside)
  sources other := (second.sources other).trans (first.sources other)
  epochs partitionId := (second.epochs partitionId).trans (first.epochs partitionId)
  owns member partitionId := (second.owns member partitionId).trans (first.owns member partitionId)
  results other published := second.results other (first.results other published)

omit [DecidableEq κ] in
/-- A resolved request stays so while other ones are executed. -/
theorem Apart.resolved (apart : Apart requestIds one two) {other : Text}
    (outside : other ∉ requestIds) (resolved : one.store.Resolved other) :
    two.store.Resolved other := by
  obtain ⟨⟨row, found, completed⟩, published⟩ := resolved
  exact ⟨⟨row, (apart.rows other outside).trans found, completed⟩,
    apart.results other published⟩

omit [DecidableEq κ] in
/-- The writes of an execution are apart from the other requests. -/
theorem Apart.of_writes {requestId : Text} {call : Store.Call} {response : Store.Response}
    (written : one.Writes call response two) (own : call.executes requestId) :
    Apart [requestId] one two := by
  obtain ⟨store, responded, rfl⟩ := written
  have step := Store.respond_step call one.store
  rw [responded] at step
  obtain ⟨rows, sources, epochs⟩ := step.executes own
  refine ⟨?_, sources, epochs, fun _ _ => rfl, fun _ published => step.hasResult published⟩
  exact fun other outside => rows other fun same => outside (List.mem_singleton.mpr same)

end Cluster

namespace Router

open Program

variable {κ : Type} [DecidableEq κ] {member : κ} {cluster final : Cluster κ}
  {trace : List RouterCall}

/-- The relay leaves every request alone. -/
theorem publishBatch_apart {limit count : ℕ}
    (runs : Runs (Cluster.Yields member) cluster (publishBatch limit) trace count final) :
    Cluster.Apart [] cluster final := by
  refine (Runs.of_lift (Cluster.Apart []) ?_ ?_ ?_ runs).1
  · exact fun state => .refl [] state
  · exact fun first second => first.trans second
  · rintro before call answer after ⟨_, answered⟩
    cases call with
    | fetchUnpublished limit =>
        obtain ⟨_, rfl⟩ := answered
        exact .refl [] _
    | publish record =>
        cases answered
        exact .refl [] _
    | markPublished outboxId =>
        obtain ⟨store, responded, rfl⟩ := answered
        have written : store = before.store.markPublished outboxId :=
          (congrArg Prod.snd responded).symm
        rw [written]
        exact ⟨fun _ _ => rfl, fun _ => rfl, fun _ => rfl, fun _ _ => rfl,
          fun _ published => Store.hasResult_markPublished published⟩

/-- The router has the current epoch of a partition. -/
def Current (router : Router) (cluster : Cluster κ) (partitionId : ℤ) : Prop :=
  ∃ epoch, router.epochs.lookup partitionId = some epoch ∧
    cluster.store.epochOf partitionId = some epoch

/-- Executing a request leaves the others alone. -/
theorem execute_apart {router : Router} {engineId : Text} {request : InferenceRequest}
    {partitionId : ℤ} {executed : Bool}
    (runs : Runs (Cluster.Yields member) cluster (router.execute engineId request partitionId)
      trace executed final) : Cluster.Apart [request.requestId] cluster final := by
  unfold execute at runs
  cases known : router.epochs.lookup partitionId with
  | none =>
      rw [known] at runs
      cases runs
      exact .refl _ _
  | some epoch =>
      rw [known] at runs
      obtain ⟨owned, cluster, _, ⟨_, isOwned, rfl⟩, rfl, afterOwned⟩ := Runs.of_perform runs
      cases owned with
      | false =>
          cases afterOwned
          exact .refl _ _
      | true =>
          obtain ⟨assignment, assigned, _, ⟨_, assigns⟩, rfl, afterAssigned⟩ :=
            Runs.of_perform afterOwned
          have apart : Cluster.Apart [request.requestId] _ assigned := .of_writes assigns rfl
          cases assignment with
          | none =>
              cases afterAssigned
              exact apart
          | some assignment =>
              obtain ⟨text, _, _, ⟨output, rfl⟩, rfl, afterDispatch⟩ :=
                Runs.of_perform afterAssigned
              rw [if_neg output] at afterDispatch
              cases afterDispatch with
              | call finalizes ends =>
                  cases ends
                  exact apart.trans (.of_writes finalizes.2 rfl)

/-- An open request of a partition whose current epoch the router has is completed, with an
envelope under the fence of its attempt. -/
theorem execute_completes {router : Router} {engineId : Text} {request : InferenceRequest}
    {partitionId : ℤ} {executed : Bool} {row : RequestRow}
    (runs : Runs (Cluster.Yields member) cluster (router.execute engineId request partitionId)
      trace executed final)
    (found : cluster.store.inferenceRequests.lookup request.requestId = some row)
    (source : row.sourcePartition = partitionId) (unresolved : row.state ∉ terminalStates)
    (current : router.Current cluster partitionId)
    (owns : (cluster.pollers member).owns partitionId = true) :
    executed = true ∧ ∃ epoch payload, final =
      { cluster with
        store := ((cluster.store.putRequest request.requestId
          (row.dispatched epoch engineId)).putRequest request.requestId
            ((row.dispatched epoch engineId).completed payload)).insertOutbox resultsTopic
              request.requestId payload row.sourcePartition row.sourceOffset } := by
  obtain ⟨epoch, hasEpoch, isCurrent⟩ := current
  unfold execute at runs
  rw [hasEpoch] at runs
  obtain ⟨owned, cluster, _, ⟨_, isOwned, rfl⟩, rfl, afterOwned⟩ := Runs.of_perform runs
  have isTrue : owned = true := isOwned.trans owns
  subst isTrue
  obtain ⟨assignment, _, _, ⟨_, store, responded, rfl⟩, rfl, afterAssigned⟩ :=
    Runs.of_perform afterOwned
  obtain ⟨rfl, rfl⟩ := Store.assignAttempt_open found source isCurrent unresolved responded
  obtain ⟨text, _, _, ⟨output, rfl⟩, rfl, afterDispatch⟩ := Runs.of_perform afterAssigned
  rw [if_neg output] at afterDispatch
  cases afterDispatch with
  | call finalizes ends =>
      cases ends
      obtain ⟨_, answered, finalized, rfl⟩ := finalizes
      -- the row still has the fence that it was given
      have isRow : (cluster.store.putRequest request.requestId
          (row.dispatched epoch engineId)).inferenceRequests.lookup request.requestId =
            some (row.dispatched epoch engineId) := by
        rw [Store.putRequest_lookup, if_pos rfl]
      have fenced : Store.fenceMatches (row.dispatched epoch engineId)
          ⟨partitionId, epoch, row.attemptId + 1, engineId⟩ = true :=
        (Store.fenceMatches_iff _ _).mpr ⟨source, rfl, rfl, rfl, rfl⟩
      obtain ⟨accepted, rfl⟩ := Store.finalize_fenced isRow fenced finalized
      exact ⟨accepted, epoch, _, rfl⟩

/-- Executing an open request leaves it resolved. -/
theorem execute_resolves {router : Router} {engineId : Text} {request : InferenceRequest}
    {partitionId : ℤ} {executed : Bool} {row : RequestRow}
    (runs : Runs (Cluster.Yields member) cluster (router.execute engineId request partitionId)
      trace executed final)
    (found : cluster.store.inferenceRequests.lookup request.requestId = some row)
    (source : row.sourcePartition = partitionId) (unresolved : row.state ∉ terminalStates)
    (current : router.Current cluster partitionId)
    (owns : (cluster.pollers member).owns partitionId = true) :
    executed = true ∧ final.store.Resolved request.requestId := by
  obtain ⟨done, epoch, payload, rfl⟩ :=
    execute_completes runs found source unresolved current owns
  exact ⟨done, Store.resolved_completed _ _ _ _⟩

/-- A recovered request is open, and its payload parses to it. -/
def Recoverable (setup : RouterSetup) (cluster : Cluster κ) (recovered : RecoveredRequest) :
    Prop :=
  ∃ row request, cluster.store.inferenceRequests.lookup recovered.requestId = some row ∧
    row.sourcePartition = recovered.sourcePartition ∧ row.state ∉ terminalStates ∧
    setup.parse recovered.rawPayload = some request ∧ request.requestId = recovered.requestId

omit [DecidableEq κ] in
theorem Recoverable.apart {setup : RouterSetup} {recovered : RecoveredRequest}
    {requestIds : List Text} (recoverable : Recoverable setup cluster recovered)
    (apart : Cluster.Apart requestIds cluster final) (outside : recovered.requestId ∉ requestIds) :
    Recoverable setup final recovered := by
  obtain ⟨row, request, found, rest⟩ := recoverable
  exact ⟨row, request, (apart.rows _ outside).trans found, rest⟩

/-- The first recovered request is executed or passed over, and the loop goes on. -/
theorem recoverAll_first {setup : RouterSetup} {engineId : Text} {recovered : RecoveredRequest}
    {others : List RecoveredRequest} {router later : Router}
    (runs : Runs (Cluster.Yields member) cluster
      (recoverAll setup engineId (recovered :: others) router) trace later final)
    (recoverable : Recoverable setup cluster recovered) :
    ∃ middle next rest, next.epochs = router.epochs ∧
      Cluster.Apart [recovered.requestId] cluster middle ∧
      (router.Current cluster recovered.sourcePartition →
        (cluster.pollers member).owns recovered.sourcePartition = true →
        middle.store.Resolved recovered.requestId) ∧
      Runs (Cluster.Yields member) middle (recoverAll setup engineId others next) rest later
        final := by
  obtain ⟨row, request, found, source, unresolved, parsed, isRequest⟩ := recoverable
  unfold recoverAll at runs
  by_cases held : recovered.sourcePartition ∉ router.epochs
  · rw [if_pos held] at runs
    refine ⟨cluster, router, trace, rfl, .refl _ _, ?_, runs⟩
    rintro ⟨epoch, hasEpoch, _⟩ _
    exact absurd (AList.lookup_isSome.mp (by rw [hasEpoch]; rfl)) held
  · rw [if_neg held, parsed] at runs
    obtain ⟨_, _, middle, executed, rfl, executes, rest⟩ := runs.split
    have apart := execute_apart executes
    have resolves := fun current owns =>
      execute_resolves executes (isRequest ▸ found) source unresolved current owns
    rw [isRequest] at apart resolves
    cases executed with
    | false =>
        refine ⟨middle, router, _, rfl, apart, ?_, rest⟩
        intro current owns
        exact Bool.noConfusion (resolves current owns).1
    | true =>
        obtain ⟨_, _, published, count, rfl, publishes, onward⟩ := Runs.split rest
        have relayed := publishBatch_apart publishes
        refine ⟨published, { router with completed := router.completed + 1 }, _, rfl,
          apart.trans (relayed.mono (List.nil_subset _)), ?_, onward⟩
        intro current owns
        have resolved := (resolves current owns).2
        exact relayed.resolved List.not_mem_nil resolved

/-- The loop of a recovery leaves other requests alone, and resolves those of the
partitions of which the router has the current epoch. -/
theorem recoverAll_runs {setup : RouterSetup} {engineId : Text}
    {unresolved : List RecoveredRequest} {router later : Router}
    (runs : Runs (Cluster.Yields member) cluster
      (recoverAll setup engineId unresolved router) trace later final)
    (distinct : (unresolved.map RecoveredRequest.requestId).Nodup)
    (recoverable : ∀ recovered ∈ unresolved, Recoverable setup cluster recovered) :
    Cluster.Apart (unresolved.map RecoveredRequest.requestId) cluster final ∧
    ∀ recovered ∈ unresolved, router.Current cluster recovered.sourcePartition →
      (cluster.pollers member).owns recovered.sourcePartition = true →
      final.store.Resolved recovered.requestId := by
  induction unresolved generalizing cluster router trace with
  | nil =>
      cases runs
      exact ⟨.refl _ _, fun _ impossible => absurd impossible List.not_mem_nil⟩
  | cons recovered others ih =>
      obtain ⟨fresh, distinctOthers⟩ := List.nodup_cons.mp distinct
      obtain ⟨middle, next, rest, sameEpochs, apart, resolves, onward⟩ :=
        recoverAll_first runs (recoverable recovered List.mem_cons_self)
      have stillRecoverable : ∀ other ∈ others, Recoverable setup middle other := by
        intro other member
        refine (recoverable other (List.mem_cons_of_mem _ member)).apart apart ?_
        intro same
        rw [← List.mem_singleton.mp same] at fresh
        exact fresh (List.mem_map_of_mem member)
      obtain ⟨apartOthers, resolvesOthers⟩ := ih onward distinctOthers stillRecoverable
      refine ⟨?_, ?_⟩
      · refine (apart.mono ?_).trans (apartOthers.mono (List.subset_cons_self _ _))
        exact fun requestId member => List.mem_singleton.mp member ▸ List.mem_cons_self
      · intro other member current owns
        rcases List.mem_cons.mp member with rfl | later
        · exact apartOthers.resolved fresh (resolves current owns)
        · refine resolvesOthers other later ?_ ((apart.owns _ _).trans owns)
          obtain ⟨epoch, hasEpoch, isCurrent⟩ := current
          exact ⟨epoch, sameEpochs ▸ hasEpoch, (apart.epochs _).trans isCurrent⟩

/-- Acquiring partitions makes the router their current owner and changes no request. -/
theorem acquireAll_runs {routerId : Text} {partitions : List ℤ} {router later : Router}
    (runs : Runs (Cluster.Yields member) cluster (acquireAll routerId partitions router) trace
      later final) :
    final.store.inferenceRequests = cluster.store.inferenceRequests ∧
      final.pollers = cluster.pollers ∧
      ∀ partitionId, partitionId ∈ partitions ∨ router.Current cluster partitionId →
        later.Current final partitionId := by
  induction partitions generalizing cluster router trace with
  | nil =>
      cases runs
      refine ⟨rfl, rfl, ?_⟩
      rintro partitionId (impossible | current)
      · exact absurd impossible List.not_mem_nil
      · exact current
  | cons first others ih =>
      obtain ⟨epoch, acquired, _, ⟨_, store, responded, rfl⟩, rfl, rest⟩ := Runs.of_perform runs
      have step := Store.respond_step (.acquirePartition first routerId) cluster.store
      rw [responded] at step
      obtain ⟨rows, pollers, current⟩ := ih rest
      have isStore : store =
          { cluster.store with
            partitionOwnership :=
              cluster.store.partitionOwnership.insert first ⟨epoch, routerId⟩ } := by
        cases step with
        | refused refusal => exact refusal.elim
        | acquired raised fits => rfl
      subst isStore
      refine ⟨rows, pollers, ?_⟩
      intro partitionId owned
      apply current
      by_cases same : partitionId = first
      · right
        subst same
        refine ⟨epoch, AList.lookup_insert _, ?_⟩
        unfold Store.epochOf
        rw [AList.lookup_insert]
        rfl
      · rcases owned with listed | ⟨before, hasEpoch, isCurrent⟩
        · exact Or.inl ((List.mem_cons.mp listed).resolve_left same)
        · right
          refine ⟨before, (AList.lookup_insert_ne same).trans hasEpoch, ?_⟩
          unfold Store.epochOf at isCurrent ⊢
          rw [AList.lookup_insert_ne same]
          exact isCurrent

end Router

/-- The requests a recovery reads are distinct. -/
theorem Store.recoverUnresolved_nodup (store : Store) :
    (store.recoverUnresolved.map RecoveredRequest.requestId).Nodup := by
  unfold recoverUnresolved
  refine ((List.mergeSort_perm _ _).map RecoveredRequest.requestId).nodup_iff.mpr ?_
  rw [List.map_map]
  have keys := List.filter_sublist (l := store.inferenceRequests.entries)
    (p := fun entry => decide (entry.2.state ∉ terminalStates))
  exact (keys.map Sigma.fst).nodup store.inferenceRequests.nodupKeys

/-- The open requests are those a recovery reads. -/
theorem Store.mem_recoverUnresolved {store : Store} {requestId : Text} {row : RequestRow}
    (found : store.inferenceRequests.lookup requestId = some row)
    (unresolved : row.state ∉ terminalStates) :
    (⟨requestId, row.state, row.sourcePartition, row.sourceOffset, row.stateVersion,
      row.rawPayload⟩ : RecoveredRequest) ∈ store.recoverUnresolved := by
  unfold recoverUnresolved
  rw [List.mem_mergeSort]
  refine List.mem_map.mpr ⟨⟨requestId, row⟩, List.mem_filter.mpr ⟨?_, ?_⟩, rfl⟩
  · exact AList.mem_lookup_iff.mp found
  · exact decide_eq_true unresolved

namespace Router

open Program

variable {κ : Type} [DecidableEq κ] {member : κ} {cluster final : Cluster κ}
  {trace : List RouterCall}

/-- A turn that starts with an assignment acquires and recovers. -/
theorem turn_assigned {setup : RouterSetup} {routerId engineId : Text} {router later : Router}
    {partitions : List ℤ}
    (notified : (cluster.pollers member).ownershipEvents.head? = some ⟨.assigned, partitions⟩)
    (runs : Runs (Cluster.Yields member) cluster (router.turn setup routerId engineId) trace later
      final) :
    ∃ notifiedCluster acquired next first rest,
      notifiedCluster = cluster.setPoller member (cluster.pollers member).popOwnershipEvent.2 ∧
      Runs (Cluster.Yields member) notifiedCluster (acquireAll routerId partitions router) first
        next acquired ∧
      Runs (Cluster.Yields member) acquired
        (recoverAll setup engineId acquired.store.recoverUnresolved next) rest later final := by
  obtain ⟨event, _, _, ⟨_, isEvent, rfl⟩, rfl, afterEvent⟩ := Runs.of_perform runs
  have isAssigned : event = some ⟨.assigned, partitions⟩ := isEvent.trans notified
  subst isAssigned
  obtain ⟨first, _, acquired, next, rfl, acquires, rest⟩ := Runs.split afterEvent
  obtain ⟨unresolved, _, later', ⟨_, rfl, rfl⟩, rfl, recovers⟩ := Runs.of_perform rest
  exact ⟨_, _, next, first, later', rfl, acquires, recovers⟩

end Router

/-- The requests that a recovery reads in a reachable configuration are recoverable. -/
theorem Router.recoverable_of_reachable {κ : Type} [DecidableEq κ] {setup : RouterSetup}
    {log : ℤ → ℤ → Text} {routerId engineId : κ → Text} {initial : ℤ → ℤ}
    {config : Team.Config κ (Cluster κ) RouterCall RouterCall.Answer Router}
    (reached : (Router.team setup log routerId engineId).Reachable (.start initial) config) :
    ∀ recovered ∈ config.shared.store.recoverUnresolved,
      Router.Recoverable setup config.shared recovered := by
  have safe : config.shared.Safe setup log initial :=
    ((Router.discipline setup log routerId engineId initial).disciplined_of_reachable
      Cluster.Safe.start reached).1
  have served : (Router.servedTeam setup log routerId engineId fun _ _ _ => True).Reachable
      (.start initial) config := by
    refine Team.reachable_answering ?_ reached
    intro operation answer
    cases operation with
    | dispatch request fence => exact Or.inr trivial
    | _ => trivial
  have authored := Router.authored_of_served served
  intro recovered member
  obtain ⟨row, found, unresolved, isRow⟩ := Store.of_mem_recoverUnresolved member
  have isPayload : recovered.rawPayload = row.rawPayload := by rw [isRow]
  have isPartition : recovered.sourcePartition = row.sourcePartition := by rw [isRow]
  obtain ⟨request, parsed, isRequest⟩ :=
    Option.map_eq_some_iff.mp (safe.sourced.requests _ row found)
  refine ⟨row, request, found, isPartition.symm, unresolved, ?_, isRequest⟩
  rw [isPayload, authored.raw _ row found]
  exact (Option.filter_eq_some_iff.mp parsed).1

/-- **Recovery.** Take any configuration that routers can reach. A router that is told
of an assignment and is undisturbed in its turn, with an engine that answers its
dispatches, leaves no request of an assigned partition that it still has without a final
state: each one that was open is completed and has its result row. -/
theorem recovery_resolves {κ : Type} [DecidableEq κ] (setup : RouterSetup) (log : ℤ → ℤ → Text)
    (routerId engineId : κ → Text) (initial : ℤ → ℤ)
    {config : Team.Config κ (Cluster κ) RouterCall RouterCall.Answer Router}
    (reached : (Router.team setup log routerId engineId).Reachable (.start initial) config)
    {member : κ} {partitions : List ℤ} {router later : Router} {trace : List RouterCall}
    {final : Cluster κ}
    (notified : (config.shared.pollers member).ownershipEvents.head? =
      some ⟨.assigned, partitions⟩)
    (runs : Program.Runs (Cluster.Yields member) config.shared
      (router.turn setup (routerId member) (engineId member)) trace later final) :
    (∀ requestId row, config.shared.store.inferenceRequests.lookup requestId = some row →
      row.sourcePartition ∈ partitions →
      (config.shared.pollers member).owns row.sourcePartition = true →
      row.state ∉ terminalStates → final.store.Resolved requestId) ∧
    ∀ requestId row, final.store.inferenceRequests.lookup requestId = some row →
      row.sourcePartition ∈ partitions →
      (config.shared.pollers member).owns row.sourcePartition = true →
      row.state ∈ terminalStates := by
  have recoverable := Router.recoverable_of_reachable reached
  obtain ⟨told, acquired, next, _, _, rfl, acquires, recovers⟩ :=
    Router.turn_assigned notified runs
  obtain ⟨sameRows, samePollers, current⟩ := Router.acquireAll_runs acquires
  have sameRows : acquired.store.inferenceRequests = config.shared.store.inferenceRequests :=
    sameRows
  have sameRecovered : acquired.store.recoverUnresolved =
      config.shared.store.recoverUnresolved := by
    unfold Store.recoverUnresolved
    rw [sameRows]
  rw [sameRecovered] at recovers
  have stillOwned : ∀ partitionId, (config.shared.pollers member).owns partitionId = true →
      (acquired.pollers member).owns partitionId = true := by
    intro partitionId owned
    rw [samePollers]
    unfold Cluster.setPoller
    dsimp only
    rw [Function.update_self]
    exact owned
  have stillRecoverable : ∀ recovered ∈ config.shared.store.recoverUnresolved,
      Router.Recoverable setup acquired recovered := by
    intro recovered isRecovered
    obtain ⟨row, request, found, rest⟩ := recoverable recovered isRecovered
    exact ⟨row, request, by rw [sameRows]; exact found, rest⟩
  obtain ⟨apart, resolves⟩ := Router.recoverAll_runs recovers
    (Store.recoverUnresolved_nodup _) stillRecoverable
  have resolved : ∀ requestId row,
      config.shared.store.inferenceRequests.lookup requestId = some row →
      row.sourcePartition ∈ partitions →
      (config.shared.pollers member).owns row.sourcePartition = true →
      row.state ∉ terminalStates → final.store.Resolved requestId := by
    intro requestId row found listed owned unresolved
    exact resolves _ (Store.mem_recoverUnresolved found unresolved)
      (current _ (Or.inl listed)) (stillOwned _ owned)
  refine ⟨resolved, ?_⟩
  intro requestId row found listed owned
  by_contra unresolved
  have sameSource := apart.sources requestId
  unfold Store.sourceOf at sameSource
  rw [found, sameRows] at sameSource
  obtain ⟨before, foundBefore, samePartition⟩ := Option.map_eq_some_iff.mp sameSource.symm
  by_cases wasOpen : before.state ∉ terminalStates
  · obtain ⟨⟨completed, foundCompleted, isCompleted⟩, _⟩ :=
      resolved requestId before foundBefore (samePartition ▸ listed) (samePartition ▸ owned)
        wasOpen
    cases found.symm.trans foundCompleted
    exact unresolved (isCompleted ▸ Store.completed_terminal)
  · have outside : requestId ∉
        config.shared.store.recoverUnresolved.map RecoveredRequest.requestId := by
      intro member
      obtain ⟨recovered, isRecovered, rfl⟩ := List.mem_map.mp member
      obtain ⟨other, foundOther, stillOpen, _⟩ := Store.of_mem_recoverUnresolved isRecovered
      cases foundBefore.symm.trans foundOther
      exact wasOpen stillOpen
    have kept := apart.rows requestId outside
    rw [found, sameRows, foundBefore] at kept
    cases kept
    exact wasOpen unresolved

namespace Solo

/-- Undisturbed, the router comes from one point of its program to another. -/
def Leads (start : Cluster Unit) (program : RouterProgram Router) (cluster : Cluster Unit)
    (rest : RouterProgram Router) : Prop :=
  ∀ trace later final, Program.Runs (Cluster.Yields ()) cluster rest trace later final →
    ∃ whole, Program.Runs (Cluster.Yields ()) start program whole later final

theorem At.leads {cluster : Cluster Unit} {program : RouterProgram Router}
    (_ : At cluster program) : Leads cluster program cluster program :=
  fun trace _ _ runs => ⟨trace, runs⟩

theorem Leads.call {start cluster next : Cluster Unit} {program : RouterProgram Router}
    {operation : RouterCall} {rest : operation.Answer → RouterProgram Router}
    (here : Leads start program cluster (.call operation rest)) (answer : operation.Answer)
    (answered : cluster.Yields () operation answer next) :
    Leads start program next (rest answer) :=
  fun _ _ _ runs => here _ _ _ (.call answered runs)

end Solo

open Solo in
/-- A router is assigned its partition a second time, after its engine has failed to
answer the dispatch of a request. It acquires the partition again and resolves it. -/
theorem recovery_resolves_solo :
    ∃ (config : Team.Config Unit (Cluster Unit) RouterCall RouterCall.Answer Router)
      (trace : List RouterCall) (later : Router) (final : Cluster Unit),
      team.Reachable (.start fun _ => 0) config ∧
      (config.shared.store.inferenceRequests.lookup ['r']).map RequestRow.state =
        some dispatchedState ∧
      Program.Runs (Cluster.Yields ()) config.shared (config.programs ()) trace later final ∧
      final.store.Resolved ['r'] := by
  have started : At (.start fun _ => 0) (Router.turn setup ['a'] ['e'] {}) := .refl
  have assigned := started.polls (.assign () [0] rfl)
  have notified := At.call assigned (some ⟨.assigned, [0]⟩) ⟨rfl, rfl⟩
  have acquired := At.call notified 1 (writes rfl)
  have recovered := At.call acquired [] ⟨by decide +kernel, rfl⟩
  have delivered := (At.again recovered).polls (@Cluster.Polls.consume _ _ _ _ () 0 0 rfl rfl)
  have undisturbed := At.call delivered none ⟨rfl, rfl⟩
  have popped := At.call undisturbed (some ⟨['r'], 0, 0⟩) ⟨rfl, rfl⟩
  have owned := At.call popped true ⟨rfl, rfl⟩
  have ingested := At.call owned true (writes rfl)
  have unresolved := At.call ingested false ⟨by decide +kernel, rfl⟩
  have stillOwned := At.call unresolved true ⟨rfl, rfl⟩
  have attempted := At.call stillOwned (some ⟨⟨0, 1, 1, ['e']⟩, 1⟩) (writes (by decide +kernel))
  have unanswered := At.call attempted [] rfl
  have again := (At.again unanswered).polls (.assign () [0] rfl)
  have told := again.leads.call (some ⟨.assigned, [0]⟩) ⟨trivial, rfl, rfl⟩
  have reacquired := told.call 2 ⟨trivial, writes (by decide +kernel)⟩
  have read := reacquired.call [⟨['r'], dispatchedState, 0, 0, 1, ['r']⟩]
    ⟨trivial, by decide +kernel, rfl⟩
  have owner := read.call true ⟨trivial, rfl, rfl⟩
  have retried := owner.call (some ⟨⟨0, 2, 2, ['e']⟩, 2⟩) ⟨trivial, writes (by decide +kernel)⟩
  have answered := retried.call ['o'] ⟨List.cons_ne_nil _ _, rfl⟩
  have finalized := answered.call true ⟨trivial, writes (by decide +kernel)⟩
  have fetched := finalized.call [⟨1, resultsTopic, ['r'],
    resultEnvelope ⟨['r'], [], []⟩ ⟨0, 2, 2, ['e']⟩ ['o'], 0, 0, false⟩]
      ⟨trivial, by decide +kernel, rfl⟩
  have unpublished := fetched.call false ⟨trivial, rfl⟩
  obtain ⟨trace, runs⟩ := unpublished _ _ _ (.done _ _)
  have resolved := (recovery_resolves setup (fun _ _ => ['r']) (fun _ => ['a']) (fun _ => ['e'])
    (fun _ => 0) again rfl runs).1 ['r'] _ rfl (by decide +kernel) (by decide +kernel)
      (by decide +kernel)
  exact ⟨_, trace, _, _, again, by decide +kernel, runs, resolved⟩

end InferSched.Durable

import InferSched.Engine.BatchConsistency

/-! # Conservation of requests

A request of an engine is pending, held by a scan or active until it is answered,
and then it has one result. Preemption changes the arrival time of a request and
nothing else of it, so requests are compared by their `ticket`, which leaves the
arrival time out.
-/

namespace InferSched.Engine

open Library

/-- A request without its arrival time. -/
def EngineRequest.ticket (request : EngineRequest) : EngineRequest :=
  { request with arrivalTime := 0 }

namespace Moment

variable {η : Type}

/-- The id and the success of a result. -/
def outcome (result : EngineResult) : Text × Bool :=
  (result.requestId, result.succeeded)

/-- The id and the success that the result of a request should have. -/
def expected (engine : ContinuousEngine η) (request : EngineRequest) : Text × Bool :=
  (request.requestId, (engine.impossibleReason request).isNone)

theorem expected_congr {engine next : ContinuousEngine η} (config : next.config = engine.config)
    (totalBlocks : next.kvCache.totalBlocks = engine.kvCache.totalBlocks) :
    expected next = expected engine := by
  funext request
  unfold expected
  rw [ContinuousEngine.impossibleReason_congr config totalBlocks]

/-- The ways a request gets its result: it can never run, its output is cached, or
its sequence is complete. -/
inductive Response (engine : ContinuousEngine η) : EngineRequest → EngineResult → Prop
  | rejected {request : EngineRequest} {reason : Text}
      (impossible : engine.impossibleReason request = some reason) :
      Response engine request
        { requestId := request.requestId, completedAt := engine.clock, succeeded := false,
          failureReason := reason }
  | cached {request : EngineRequest} {output : Text}
      (possible : engine.impossibleReason request = none)
      (found : engine.resultCache.entries.lookup (resultKey request) = some output) :
      Response engine request
        { requestId := request.requestId, output, completedAt := engine.clock,
          firstTokenAt := engine.clock, resultCacheHit := true }
  | computed {request : EngineRequest} {firstTokenAt : ℤ} {prefixCacheHit : Bool}
      (possible : engine.impossibleReason request = none) :
      Response engine request
        { requestId := request.requestId, output := simulatedOutput request,
          completedAt := engine.clock, firstTokenAt, prefixCacheHit }

theorem Response.outcome {engine : ContinuousEngine η} {request : EngineRequest}
    {result : EngineResult} (response : Response engine request result) :
    result.requestId = request.requestId ∧
      (result.succeeded = true ↔ engine.impossibleReason request = none) := by
  cases response with
  | rejected impossible =>
      rw [impossible]
      exact ⟨rfl, iff_of_false Bool.false_ne_true (Option.some_ne_none _)⟩
  | cached possible found => exact ⟨rfl, iff_of_true rfl possible⟩
  | computed possible => exact ⟨rfl, iff_of_true rfl possible⟩

variable [RequestQueue η]

/-- The tickets of the requests without a result. -/
def unanswered (moment : Moment η) : Multiset EngineRequest :=
  (PriorityQueue.elements moment.engine.pending).map EngineRequest.ticket +
    (moment.scan.deferred.map EngineRequest.ticket : List EngineRequest) +
    (moment.engine.active.map fun active => active.request.ticket : List EngineRequest)

/-- A step answers one request or none. -/
def Answers (before after : Moment η) : Prop :=
  (after.unanswered = before.unanswered ∧ after.engine.results = before.engine.results) ∨
  ∃ request result, before.unanswered = request ::ₘ after.unanswered ∧
    after.engine.results = before.engine.results ++ [result] ∧
    result.requestId = request.requestId ∧
    (result.succeeded = true ↔ before.engine.impossibleReason request = none)

/-- The last request a scan holds comes apart from the others. -/
theorem unanswered_defer (engine : ContinuousEngine η) (scan : Scan) (candidate : EngineRequest)
    (preparing : Bool) : unanswered ⟨engine, scan.defer candidate, preparing⟩ =
      candidate.ticket ::ₘ unanswered ⟨engine, scan, preparing⟩ := by
  unfold unanswered Scan.defer
  dsimp only
  rw [List.map_append, ← Multiset.coe_add, List.map_singleton, Multiset.coe_singleton, ← add_assoc,
    add_right_comm, add_comm, Multiset.singleton_add]

/-- A step leaves the requests and the results as they are or responds to one
request. -/
theorem Step.responds {before after : Moment η} (step : Step before after)
    (invariant : before.engine.Invariant before.preparing) :
    (after.unanswered = before.unanswered ∧ after.engine.results = before.engine.results) ∨
    ∃ request result, before.unanswered = request ::ₘ after.unanswered ∧
      after.engine.results = before.engine.results ++ [result] ∧
      Response before.engine request result := by
  cases step with
  | forgive empty => exact Or.inl ⟨rfl, rfl⟩
  | @pop engine scan candidate queue room popped =>
      refine Or.inl ⟨?_, rfl⟩
      have elements := PriorityQueue.elements_of_pop_some (RequestQueue.popReady_eq_some popped).1
      rw [unanswered_defer]
      unfold unanswered
      dsimp only
      rw [elements, Multiset.map_cons, Multiset.cons_add, Multiset.cons_add]
  | @reject engine scan candidate reason impossible =>
      exact Or.inr ⟨candidate.ticket, _, unanswered_defer _ _ _ _, rfl, .rejected impossible⟩
  | @answer engine scan candidate cached possible found =>
      refine Or.inr ⟨candidate.ticket, _, unanswered_defer _ _ _ _, rfl, .cached possible ?_⟩
      exact (ResultCache.get_eq_lookup _ _).symm.trans found
  | miss possible missing => exact Or.inl ⟨rfl, rfl⟩
  | touch =>
      unfold ContinuousEngine.matchPrefix
      split
      · exact Or.inl ⟨rfl, rfl⟩
      · exact Or.inl ⟨rfl, rfl⟩
  | evict evicted => exact Or.inl ⟨rfl, rfl⟩
  | @admission engine scan candidate matched possible room forgiven budget longest allocated =>
      obtain ⟨_, pending, results, _, active⟩ := ContinuousEngine.admitCandidate_frame
        { engine with
          kvCache := (engine.kvCache.allocate candidate.requestId
            (engine.promptBlocks candidate) (matched.getD [])).2 } candidate matched
      refine Or.inl ⟨?_, results⟩
      rw [unanswered_defer]
      unfold unanswered
      dsimp only
      rw [pending, active, List.map_append, ← Multiset.coe_add, List.map_singleton,
        Multiset.coe_singleton, ← add_assoc, add_comm, Multiset.singleton_add]
  | requeue engine scan =>
      refine Or.inl ⟨?_, rfl⟩
      unfold unanswered ContinuousEngine.requeue
      dsimp only
      rw [PriorityQueue.elements_pushAll, Multiset.map_add, Multiset.map_coe]
      change _ + _ + 0 + _ = _
      rw [add_zero]
  | @complete engine scan kept later active split finished =>
      refine Or.inr ⟨active.request.ticket, _, ?_, rfl, .computed ?_⟩
      · unfold unanswered ContinuousEngine.finish
        dsimp only
        rw [split, ← Multiset.add_cons, Multiset.cons_coe]
        congr 1
        rw [Multiset.coe_eq_coe, List.map_append, List.map_append, List.map_cons]
        exact List.perm_middle
      · apply invariant.possible
        rw [split]
        exact List.mem_append_right _ List.mem_cons_self
  | prepare nothing unfinished => exact Or.inl ⟨rfl, rfl⟩
  | grow member short appended => exact Or.inl ⟨rfl, rfl⟩
  | @preempt engine scan active member short scarce unpinned =>
      have inside := ContinuousEngine.selectVictim_lt (List.ne_nil_of_mem member)
      unfold ContinuousEngine.preempt
      rw [List.getElem?_eq_getElem inside]
      refine Or.inl ⟨?_, rfl⟩
      unfold unanswered
      dsimp only
      rw [PriorityQueue.elements_push, Multiset.map_cons, Multiset.cons_add, Multiset.cons_add,
        ← Multiset.add_cons, Multiset.cons_coe]
      congr 1
      rw [Multiset.coe_eq_coe]
      exact (List.getElem_cons_eraseIdx_perm inside).map fun active => active.request.ticket
  | decode inhabited prepared =>
      refine Or.inl ⟨?_, rfl⟩
      unfold unanswered ContinuousEngine.decodeBatch
      dsimp only
      rw [List.map_map]
      rfl
  | close nothing =>
      refine Or.inl ⟨?_, rfl⟩
      unfold unanswered rest
      dsimp only
      rw [nothing]

theorem Step.answers {before after : Moment η} (step : Step before after)
    (invariant : before.engine.Invariant before.preparing) : Answers before after := by
  rcases step.responds invariant with same | ⟨request, result, split, appended, response⟩
  · exact Or.inl same
  · exact Or.inr ⟨request, result, split, appended, response.outcome⟩

theorem Answers.unanswered_le {before after : Moment η} (answers : Answers before after) :
    after.unanswered ≤ before.unanswered := by
  rcases answers with ⟨same, _⟩ | ⟨request, _, split, _⟩
  · exact same.le
  · rw [split]
    exact Multiset.le_cons_self _ _

/-- An active request has no result yet. -/
theorem ticket_mem_unanswered {moment : Moment η} {active : ActiveRequest}
    (member : active ∈ moment.engine.active) : active.request.ticket ∈ moment.unanswered := by
  apply Multiset.mem_add.mpr
  right
  exact Multiset.mem_coe.mpr (List.mem_map_of_mem member)

/-- No run of steps brings in a request. -/
theorem Steps.unanswered_le {before after : Moment η} (steps : Steps before after)
    (invariant : before.engine.Invariant before.preparing) :
    after.unanswered ≤ before.unanswered := by
  induction steps with
  | refl => exact le_rfl
  | tail earlier step ih =>
      exact (step.answers (Steps.invariant earlier invariant)).unanswered_le.trans ih

/-- The outcomes there are and those to be expected of the requests without a
result. -/
def outcomes (engine : ContinuousEngine η) (moment : Moment η) : Multiset (Text × Bool) :=
  moment.unanswered.map (expected engine) + (moment.engine.results.map outcome : List _)

/-- An answer is the one to be expected. -/
theorem Answers.outcomes_eq {before after : Moment η} (answers : Answers before after) :
    outcomes before.engine after = outcomes before.engine before := by
  unfold outcomes
  rcases answers with ⟨same, results⟩ | ⟨request, result, split, results, id, success⟩
  · rw [same, results]
  · have answered : outcome result = expected before.engine request := by
      unfold outcome expected
      rw [id]
      congr 1
      rw [Bool.eq_iff_iff, success, Option.isNone_iff_eq_none]
    rw [split, results, List.map_append, ← Multiset.coe_add, List.map_singleton, answered,
      Multiset.coe_singleton, Multiset.map_cons, ← add_assoc, add_comm, Multiset.singleton_add,
      Multiset.cons_add]

/-- A run of steps answers requests as expected and loses none. -/
theorem Steps.outcomes_eq {before after : Moment η} (steps : Steps before after)
    (invariant : before.engine.Invariant before.preparing) :
    outcomes before.engine after = outcomes before.engine before := by
  induction steps with
  | refl => rfl
  | tail earlier step ih =>
      obtain ⟨config, totalBlocks⟩ := Steps.fixed earlier invariant
      have answered := (step.answers (Steps.invariant earlier invariant)).outcomes_eq
      unfold outcomes at answered ih ⊢
      rw [expected_congr config totalBlocks] at answered
      exact answered.trans ih

end Moment

namespace ContinuousEngine

variable {η : Type} [RequestQueue η]

theorem unanswered_submit (engine : ContinuousEngine η) (request : EngineRequest) :
    (Moment.rest (engine.submit request)).unanswered =
      request.ticket ::ₘ (Moment.rest engine).unanswered := by
  unfold Moment.unanswered Moment.rest submit
  dsimp only
  rw [PriorityQueue.elements_push, Multiset.map_cons, Multiset.cons_add, Multiset.cons_add]

/-- A property of tickets that holds of every submitted request holds of every
request without a result. -/
theorem run_unanswered (property : EngineRequest → Prop) {draws : JitterDraws}
    {config : EngineConfig} {start : ContinuousEngine η} (accepted : new draws config = .ok start)
    (calls : List Call)
    (submitted : ∀ request, Call.submit request ∈ calls → property request.ticket) :
    ∀ request ∈ (Moment.rest (object.run calls start)).unanswered, property request := by
  induction calls using List.reverseRecOn with
  | nil =>
      obtain ⟨_, _, _, empty, _, pending, _⟩ := new_eq_ok accepted
      unfold Moment.unanswered Moment.rest
      dsimp only [AtomicObject.run_nil]
      rw [empty, pending, PriorityQueue.elements_empty]
      exact nofun
  | append_singleton calls call ih =>
      have before := ih fun request member => submitted request (List.mem_append_left _ member)
      have invariant := (run_invariant accepted calls).1
      rw [AtomicObject.run_append]
      cases call with
      | submit request =>
          intro other member
          change other ∈ Moment.unanswered (Moment.rest (submit _ request)) at member
          rw [unanswered_submit, Multiset.mem_cons] at member
          rcases member with rfl | old
          · exact submitted request (List.mem_append_right _ List.mem_cons_self)
          · exact before other old
      | runOneIteration =>
          intro other member
          have fewer := (runOneIteration_steps invariant).unanswered_le invariant
          exact before other (Multiset.mem_of_le fewer member)
      | awaitArrival arrival => exact before
      | clearCaches => exact before

/-- The requests submitted by a list of calls. -/
def submitted (calls : List Call) : List EngineRequest :=
  calls.filterMap fun call =>
    match call with
    | .submit request => some request
    | _ => none

theorem submitted_map_submit (requests : List EngineRequest) :
    submitted (requests.map Call.submit) = requests := by
  rw [submitted, List.filterMap_map]
  exact List.filterMap_some

/-- After every list of calls, the results and the requests without one account
for every submitted request. -/
theorem run_outcomes {draws : JitterDraws} {config : EngineConfig} {start : ContinuousEngine η}
    (accepted : new draws config = .ok start) (calls : List Call) :
    Moment.outcomes start (Moment.rest (object.run calls start)) =
      ((submitted calls).map (Moment.expected start) : List (Text × Bool)) := by
  induction calls using List.reverseRecOn with
  | nil =>
      obtain ⟨_, _, _, empty, results, pending, _⟩ := new_eq_ok accepted
      unfold Moment.outcomes Moment.unanswered Moment.rest
      dsimp only [AtomicObject.run_nil]
      rw [empty, results, pending, PriorityQueue.elements_empty]
      rfl
  | append_singleton calls call ih =>
      have invariant := (run_invariant accepted calls).1
      rw [AtomicObject.run_append, submitted, List.filterMap_append, List.map_append,
        ← Multiset.coe_add, ← submitted, ← ih]
      cases call with
      | submit request =>
          change Moment.outcomes start (Moment.rest (submit _ request)) = _
          unfold Moment.outcomes
          rw [unanswered_submit, Multiset.map_cons, Multiset.cons_add, ← Multiset.singleton_add,
            add_comm]
          rfl
      | runOneIteration =>
          obtain ⟨_, sameConfig, total⟩ := run_invariant accepted calls
          obtain ⟨_, startTotal, _⟩ := Invariant.new accepted
          have startConfig := (new_eq_ok accepted).2.2.1
          have conserved := (runOneIteration_steps invariant).outcomes_eq invariant
          unfold Moment.outcomes at conserved ⊢
          rw [Moment.rest, Moment.expected_congr (sameConfig.trans startConfig.symm)
            (total.trans startTotal.symm)] at conserved
          exact conserved.trans (add_zero _).symm
      | awaitArrival arrival => exact (add_zero _).symm
      | clearCaches => exact (add_zero _).symm

end ContinuousEngine

/-! ### The balance of admissions -/

/-- A result that an admitted sequence was completed with. -/
def EngineResult.computed (result : EngineResult) : Bool :=
  result.succeeded && !result.resultCacheHit

namespace ContinuousEngine

variable {η : Type}

/-- Every admission ended in a preemption or a computed result, or is active. -/
def Balanced (engine : ContinuousEngine η) : Prop :=
  engine.stats.admissions = engine.stats.preemptions + engine.activeCount +
    engine.results.countP EngineResult.computed

/-- A result that was not computed does not count. -/
theorem Balanced.uncomputed {engine : ContinuousEngine η} (balanced : engine.Balanced)
    {result : EngineResult} (uncomputed : result.computed = false)
    {resultCache : ResultCache} {requests hits : ℕ} :
    { engine with
      resultCache := resultCache
      results := engine.results ++ [result]
      stats := { engine.stats with
        resultCacheRequests := requests
        resultCacheRequestHits := hits } : ContinuousEngine η }.Balanced := by
  unfold Balanced activeCount at balanced ⊢
  dsimp only
  rw [List.countP_append, balanced, List.countP_singleton, uncomputed]
  rfl

theorem Balanced.admitCandidate {engine : ContinuousEngine η} (balanced : engine.Balanced)
    (candidate : EngineRequest) (matched : Option (List BlockId)) {kvCache : PagedKvCache} :
    ({ engine with kvCache := kvCache }.admitCandidate candidate matched).Balanced := by
  obtain ⟨_, _, results, _, active⟩ := admitCandidate_frame
    { engine with kvCache := kvCache } candidate matched
  obtain ⟨_, _, _, stats⟩ := admitCandidate_stats_eq
    { engine with kvCache := kvCache } candidate matched
  unfold Balanced activeCount at balanced ⊢
  rw [stats, results, active, List.length_append, List.length_singleton]
  dsimp only
  omega

end ContinuousEngine

namespace Moment

variable {η : Type} [RequestQueue η]

theorem Step.balanced {before after : Moment η} (step : Step before after)
    (balanced : before.engine.Balanced) : after.engine.Balanced := by
  cases step with
  | forgive empty => exact balanced
  | pop room popped => exact balanced
  | @reject engine scan candidate reason impossible =>
      exact ContinuousEngine.Balanced.uncomputed balanced rfl
  | @answer engine scan candidate cached possible found =>
      exact ContinuousEngine.Balanced.uncomputed balanced rfl
  | miss possible missing => exact balanced
  | touch =>
      unfold ContinuousEngine.matchPrefix
      split
      · exact balanced
      · exact balanced
  | evict evicted => exact balanced
  | @admission engine scan candidate matched possible room forgiven budget longest allocated =>
      exact ContinuousEngine.Balanced.admitCandidate balanced candidate matched
  | requeue engine scan => exact balanced
  | @complete engine scan kept later active split finished =>
      unfold ContinuousEngine.Balanced ContinuousEngine.activeCount at balanced ⊢
      unfold ContinuousEngine.finish
      dsimp only at balanced ⊢
      rw [split, List.length_append, List.length_cons] at balanced
      rw [List.countP_append, List.length_append, balanced]
      change _ = _ + _ + (_ + 1)
      omega
  | prepare nothing unfinished => exact balanced
  | grow member short appended => exact balanced
  | @preempt engine scan active member short scarce unpinned =>
      have inside := ContinuousEngine.selectVictim_lt (List.ne_nil_of_mem member)
      unfold ContinuousEngine.preempt
      rw [List.getElem?_eq_getElem inside]
      unfold ContinuousEngine.Balanced ContinuousEngine.activeCount at balanced ⊢
      dsimp only at balanced ⊢
      rw [List.length_eraseIdx_of_lt inside, balanced]
      omega
  | decode inhabited prepared =>
      unfold ContinuousEngine.Balanced ContinuousEngine.activeCount at balanced ⊢
      unfold ContinuousEngine.decodeBatch
      dsimp only
      rw [List.length_map]
      exact balanced
  | close nothing => exact balanced

theorem Steps.balanced {before after : Moment η} (steps : Steps before after)
    (balanced : before.engine.Balanced) : after.engine.Balanced := by
  induction steps with
  | refl => exact balanced
  | tail _ step ih => exact step.balanced ih

end Moment

namespace ContinuousEngine

variable {η : Type} [RequestQueue η]

theorem run_balanced {draws : JitterDraws} {config : EngineConfig} {start : ContinuousEngine η}
    (accepted : new draws config = .ok start) (calls : List Call) :
    (object.run calls start).Balanced := by
  induction calls using List.reverseRecOn with
  | nil =>
      obtain ⟨_, _, _, empty, results, _, stats, _⟩ := new_eq_ok accepted
      unfold Balanced activeCount
      rw [AtomicObject.run_nil, empty, results, stats]
      rfl
  | append_singleton calls call ih =>
      have invariant := (run_invariant accepted calls).1
      rw [AtomicObject.run_append]
      cases call with
      | submit request => exact ih
      | runOneIteration => exact (runOneIteration_steps invariant).balanced ih
      | awaitArrival arrival => exact ih
      | clearCaches => exact ih

/-- The ids in the queue, in the batch and in the results. -/
def heldIds (engine : ContinuousEngine η) : Multiset Text :=
  (PriorityQueue.elements engine.pending).map EngineRequest.requestId +
    (engine.active.map fun active => active.request.requestId : List Text) +
    (engine.results.map EngineResult.requestId : List Text)

/-- **Conservation.** Between any two calls every submitted id is in the queue, in
the batch or in the results, as often as it was submitted, and the admissions
are the preemptions, the active sequences and the computed results. -/
theorem requests_conserved {draws : JitterDraws} {config : EngineConfig}
    {start : ContinuousEngine η} (accepted : new draws config = .ok start) (calls : List Call) :
    (object.run calls start).heldIds =
        ((submitted calls).map EngineRequest.requestId : List Text) ∧
      (object.run calls start).stats.admissions =
        (object.run calls start).stats.preemptions + (object.run calls start).activeCount +
          ((object.run calls start).results.filter fun result =>
            result.succeeded && !result.resultCacheHit).length := by
  refine ⟨?_, ?_⟩
  · have ids := congrArg (Multiset.map Prod.fst) (run_outcomes accepted calls)
    unfold Moment.outcomes Moment.unanswered Moment.rest at ids
    rw [Multiset.map_add, Multiset.map_map, Multiset.map_add, Multiset.map_add, Multiset.map_map,
      Multiset.map_coe, Multiset.map_coe, Multiset.map_coe, Multiset.map_coe, List.map_map,
      List.map_map, List.map_map, List.map_map] at ids
    change _ + 0 + _ + _ = _ at ids
    rw [add_zero] at ids
    exact ids
  · rw [← List.countP_eq_length_filter]
    exact run_balanced accepted calls

/-- A request submitted twice: the first copy is computed, the second is answered
from the result cache without an admission. -/
theorem requests_conserved_twins :
    let twin : EngineRequest := { requestId := ['a'], promptTokens := 10, maxOutputTokens := 1 }
    let calls := [Call.submit twin, .submit twin, .runOneIteration, .runOneIteration]
    ∃ start : ContinuousEngine (SelectionQueue EngineRequest),
      new (fun _ _ _ => 0) { kvBlocks := 4 } = .ok start ∧
      (object.run calls start).heldIds = ([['a'], ['a']] : List Text) ∧
      (object.run calls start).stats.admissions = 1 ∧
      (object.run calls start).results.length = 2 ∧
      (object.run calls start).stats.admissions =
        (object.run calls start).stats.preemptions + (object.run calls start).activeCount +
          ((object.run calls start).results.filter fun result =>
            result.succeeded && !result.resultCacheHit).length := by
  intro twin calls
  have accepted : (new (fun _ _ _ => 0) { kvBlocks := 4 } :
    Except Text (ContinuousEngine (SelectionQueue EngineRequest))) = .ok _ := rfl
  obtain ⟨held, balanced⟩ := requests_conserved accepted calls
  exact ⟨_, accepted, held, by decide +kernel, by decide +kernel, balanced⟩

end ContinuousEngine
end InferSched.Engine

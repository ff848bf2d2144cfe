import Mathlib.Data.List.Forall2
import InferSched.Engine.BatchAnswers
import InferSched.Engine.Conservation

/-! # Transparent caches

The result cache of an engine is filled by some requests and read by others. Its
key determines the output, so a cached output is the one the engine would have
computed. In both engines every result then belongs to one submitted request and
has its output, whichever caches were asked on the way.
-/

namespace InferSched.Engine

open Library

/-! ### The result cache -/

namespace ResultCache

/-- Every cached output is the output of the requests with its key. -/
def Transparent (cache : ResultCache) : Prop :=
  ∀ request output, cache.entries.lookup (resultKey request) = some output →
    output = simulatedOutput request

/-- Only the entries count, not their order or the counters. -/
theorem transparent_congr {cache other : ResultCache} (same : other.entries = cache.entries) :
    other.Transparent ↔ cache.Transparent := by
  unfold Transparent
  rw [same]

/-- An empty cache is transparent. -/
theorem Transparent.new {capacity : ℕ} {cache : ResultCache}
    (accepted : ResultCache.new capacity = .ok cache) : cache.Transparent := by
  unfold ResultCache.new at accepted
  split at accepted
  · cases accepted
  · cases accepted
    intro request output found
    cases found

/-- Dropping an entry keeps the rest. -/
theorem Transparent.evict {cache : ResultCache} (transparent : cache.Transparent) :
    cache.evict.Transparent := by
  unfold ResultCache.evict
  split
  · exact transparent
  · next oldest _ =>
      intro request output found
      by_cases same : resultKey request = oldest
      · rw [same, AList.lookup_erase] at found
        cases found
      · rw [AList.lookup_erase_ne same] at found
        exact transparent request output found

/-- Another output under its key is the output of every request with that key. -/
theorem Transparent.insert {cache : ResultCache} (transparent : cache.Transparent)
    (request : EngineRequest) :
    { cache with
      entries := cache.entries.insert (resultKey request)
        (simulatedOutput request) }.Transparent := by
  intro other output found
  by_cases same : resultKey other = resultKey request
  · rw [same, AList.lookup_insert] at found
    cases found
    exact simulatedOutput_eq_of_resultKey same.symm
  · rw [AList.lookup_insert_ne same] at found
    exact transparent other output found

/-- A computed output may be stored under the key of its request. -/
theorem Transparent.put {cache : ResultCache} (transparent : cache.Transparent)
    (request : EngineRequest) :
    (cache.put (resultKey request) (simulatedOutput request)).Transparent := by
  unfold ResultCache.put
  split
  · exact transparent.insert request
  · dsimp only
    split
    · exact transparent.evict.insert request
    · exact transparent.insert request

end ResultCache

/-! ### Results that belong to requests -/

/-- A result that belongs to a request: it has its id and, when it succeeded, its
output. -/
def EngineResult.BelongsTo (request : EngineRequest) (result : EngineResult) : Prop :=
  result.requestId = request.requestId ∧
    (result.succeeded = true → result.output = simulatedOutput request)

/-- Every result belongs to a submitted request, and no request has two. -/
def Matched (submitted : List EngineRequest) (results : List EngineResult) : Prop :=
  ∃ answered : List EngineRequest, answered.Subperm submitted ∧
    List.Forall₂ EngineResult.BelongsTo answered results

/-- To match the results with tickets is enough. -/
theorem Matched.of_tickets {submitted answered : List EngineRequest} {results : List EngineResult}
    (once : answered.Subperm (submitted.map EngineRequest.ticket))
    (belongs : List.Forall₂ EngineResult.BelongsTo answered results) :
    Matched submitted results := by
  obtain ⟨tickets, order, inside⟩ := once
  obtain ⟨requests, among, rfl⟩ := List.sublist_map_iff.mp inside
  have listed : List.Forall₂ (fun request ticket => EngineRequest.ticket request = ticket) requests
      (requests.map EngineRequest.ticket) := by
    rw [List.forall₂_map_right_iff, List.forall₂_same]
    exact fun _ _ => rfl
  have reordered : Relation.Comp List.Perm
      (List.Forall₂ fun request ticket => EngineRequest.ticket request = ticket) requests
      answered := by
    rw [← List.forall₂_comp_perm_eq_perm_comp_forall₂]
    exact ⟨_, listed, order⟩
  obtain ⟨matched, moved, same⟩ := reordered
  refine ⟨matched, moved.symm.subperm.trans among.subperm, ?_⟩
  rw [← List.forall₂_map_left_iff, List.forall₂_eq_eq_eq] at same
  rw [← same, List.forall₂_map_left_iff] at belongs
  exact belongs

/-! ### The continuous engine -/

namespace Moment

variable {η : Type}

/-- With a transparent cache a response belongs to its request. -/
theorem Response.belongsTo {engine : ContinuousEngine η} {request : EngineRequest}
    {result : EngineResult} (response : Response engine request result)
    (transparent : engine.resultCache.Transparent) : result.BelongsTo request := by
  cases response with
  | rejected impossible => exact ⟨rfl, fun succeeded => absurd succeeded Bool.false_ne_true⟩
  | cached possible found => exact ⟨rfl, fun _ => transparent request _ found⟩
  | computed possible => exact ⟨rfl, fun _ => rfl⟩

variable [RequestQueue η]

/-- No step stores anything but a computed output. -/
theorem Step.transparent {before after : Moment η} (step : Step before after)
    (transparent : before.engine.resultCache.Transparent) :
    after.engine.resultCache.Transparent := by
  cases step with
  | forgive empty => exact transparent
  | pop room popped => exact transparent
  | reject impossible => exact transparent
  | @answer engine scan candidate cached possible found =>
      exact (ResultCache.transparent_congr (engine.resultCache.entries_get _)).mpr transparent
  | @miss engine scan candidate possible missing =>
      exact (ResultCache.transparent_congr (engine.resultCache.entries_get _)).mpr transparent
  | touch =>
      unfold ContinuousEngine.matchPrefix
      split
      · exact transparent
      · exact transparent
  | evict evicted => exact transparent
  | @admission engine scan candidate matched possible room forgiven budget longest allocated =>
      obtain ⟨_, _, _, _, admitted⟩ := ContinuousEngine.admitCandidate_eq
        { engine with
          kvCache := (engine.kvCache.allocate candidate.requestId
            (engine.promptBlocks candidate) (matched.getD [])).2 } candidate matched
      obtain ⟨_, _, cached⟩ := ContinuousEngine.cachePrompt_eq
        { engine with
          kvCache := (engine.kvCache.allocate candidate.requestId
            (engine.promptBlocks candidate) (matched.getD [])).2 } candidate
      dsimp only
      rw [admitted, cached]
      exact transparent
  | requeue engine scan => exact transparent
  | @complete engine scan kept later active split finished =>
      exact ResultCache.Transparent.put transparent active.request
  | prepare nothing unfinished => exact transparent
  | grow member short appended => exact transparent
  | @preempt engine scan active member short scarce unpinned =>
      unfold ContinuousEngine.preempt
      split
      · exact transparent
      · exact transparent
  | decode inhabited prepared => exact transparent
  | close nothing => exact transparent

/-- The cache is transparent, and the results after the first ones belong to
tickets that, with those of the requests without a result, are the given ones. -/
def Accounted (first : List EngineResult) (tickets : Multiset EngineRequest)
    (moment : Moment η) : Prop :=
  moment.engine.resultCache.Transparent ∧
  ∃ (answered : List EngineRequest) (results : List EngineResult),
    moment.engine.results = first ++ results ∧
    (answered : Multiset EngineRequest) + moment.unanswered = tickets ∧
    List.Forall₂ EngineResult.BelongsTo answered results

theorem Accounted.of_transparent {moment : Moment η}
    (transparent : moment.engine.resultCache.Transparent) :
    Accounted moment.engine.results moment.unanswered moment :=
  ⟨transparent, [], [], (List.append_nil _).symm, zero_add _, List.Forall₂.nil⟩

/-- A step answers a request with its own output, or none. -/
theorem Accounted.step {first : List EngineResult} {tickets : Multiset EngineRequest}
    {before after : Moment η} (accounted : Accounted first tickets before)
    (step : Step before after) (invariant : before.engine.Invariant before.preparing) :
    Accounted first tickets after := by
  obtain ⟨transparent, answered, results, earlier, all, belongs⟩ := accounted
  refine ⟨step.transparent transparent, ?_⟩
  rcases step.responds invariant with ⟨unanswered, same⟩ |
    ⟨request, result, split, appended, response⟩
  · rw [unanswered, same]
    exact ⟨answered, results, earlier, all, belongs⟩
  · refine ⟨answered ++ [request], results ++ [result], ?_, ?_, ?_⟩
    · rw [appended, earlier, List.append_assoc]
    · rw [← Multiset.coe_add, add_assoc, Multiset.coe_singleton, Multiset.singleton_add, ← split]
      exact all
    · exact List.rel_append belongs (.cons (response.belongsTo transparent) .nil)

theorem Accounted.steps {first : List EngineResult} {tickets : Multiset EngineRequest}
    {before after : Moment η} (accounted : Accounted first tickets before)
    (steps : Steps before after) (invariant : before.engine.Invariant before.preparing) :
    Accounted first tickets after := by
  induction steps with
  | refl => exact accounted
  | tail earlier step ih => exact ih.step step (Steps.invariant earlier invariant)

end Moment

namespace ContinuousEngine

variable {η : Type} [RequestQueue η]

/-- The tickets of a list of requests. -/
def tickets (requests : List EngineRequest) : Multiset EngineRequest :=
  (requests.map EngineRequest.ticket : List EngineRequest)

/-- Tickets are given per submission. -/
theorem tickets_append (first second : List EngineRequest) :
    tickets (first ++ second) = tickets first + tickets second := by
  unfold tickets
  rw [List.map_append, Multiset.coe_add]

/-- Every list of calls accounts for the requests it submits. -/
theorem accounted_run {first : List EngineResult} {requests : List EngineRequest}
    {start : ContinuousEngine η} (invariant : start.Invariant false)
    (accounted : Moment.Accounted first (tickets requests) (Moment.rest start))
    (calls : List Call) :
    Moment.Accounted first (tickets (requests ++ submitted calls))
      (Moment.rest (object.run calls start)) := by
  induction calls using List.reverseRecOn with
  | nil =>
      rw [submitted, List.filterMap_nil, List.append_nil]
      exact accounted
  | append_singleton calls call ih =>
      have valid := (invariant_run invariant calls).1
      rw [AtomicObject.run_append, submitted, List.filterMap_append, ← submitted,
        ← List.append_assoc]
      cases call with
      | submit request =>
          obtain ⟨transparent, answered, results, earlier, all, belongs⟩ := ih
          refine ⟨transparent, answered, results, earlier, ?_, belongs⟩
          change _ + (Moment.rest (submit _ request)).unanswered = tickets (_ ++ [request])
          rw [unanswered_submit, Multiset.add_cons, all, tickets_append (_ ++ _),
            ← Multiset.singleton_add, add_comm]
          rfl
      | runOneIteration =>
          change Moment.Accounted _ (tickets (_ ++ [])) _
          rw [List.append_nil]
          exact ih.steps (runOneIteration_steps valid) valid
      | awaitArrival arrival =>
          change Moment.Accounted _ (tickets (_ ++ [])) _
          rw [List.append_nil]
          exact ih
      | clearCaches =>
          change Moment.Accounted _ (tickets (_ ++ [])) _
          rw [List.append_nil]
          exact ih

/-- Each result of a run is what its request computes, or a failure. -/
theorem run_matched {draws : JitterDraws} {config : EngineConfig} {start : ContinuousEngine η}
    (accepted : new draws config = .ok start) (calls : List Call) :
    Matched (submitted calls) (object.run calls start).results := by
  obtain ⟨_, _, _, empty, results, pending, _, cache, _⟩ := new_eq_ok accepted
  have nothing : (Moment.rest start).unanswered = tickets [] := by
    unfold Moment.unanswered Moment.rest
    dsimp only
    rw [empty, pending, PriorityQueue.elements_empty]
    rfl
  have begun := @Moment.Accounted.of_transparent η _ (Moment.rest start)
    (ResultCache.Transparent.new cache)
  rw [nothing] at begun
  obtain ⟨_, answered, all, appended, split, belongs⟩ :=
    accounted_run (Invariant.new accepted).1 begun calls
  change (object.run calls start).results = start.results ++ all at appended
  rw [results, List.nil_append] at appended
  rw [appended]
  refine Matched.of_tickets (Multiset.coe_le.mp ?_) belongs
  rw [List.nil_append] at split
  exact (Multiset.le_add_right _ _).trans_eq split

end ContinuousEngine

/-! ### The static engine -/

namespace DeterministicEngine

theorem Response.belongsTo {engine : DeterministicEngine} {request : EngineRequest}
    {result : EngineResult} (response : Response engine request result)
    (transparent : engine.resultCache.Transparent) : result.BelongsTo request := by
  cases response with
  | rejected impossible => exact ⟨rfl, fun succeeded => absurd succeeded Bool.false_ne_true⟩
  | cached possible found => exact ⟨rfl, fun _ => transparent request _ found⟩
  | computed possible => exact ⟨rfl, fun _ => rfl⟩

/-- The outputs of a batch may be stored in any order. -/
theorem transparent_foldl_cacheResult {cache : ResultCache} (transparent : cache.Transparent)
    (items : List BatchRequest) : (items.foldl cacheResult cache).Transparent := by
  induction items generalizing cache with
  | nil => exact transparent
  | cons item later ih => exact ih (transparent.put item.request)

/-- The cache is transparent and the results belong to requests that, with the
pending ones, are the given ones. -/
def Accounted (requests : List EngineRequest) (engine : DeterministicEngine) : Prop :=
  engine.resultCache.Transparent ∧
  ∃ answered : List EngineRequest, (answered ++ engine.pending).Perm requests ∧
    List.Forall₂ EngineResult.BelongsTo answered engine.results

/-- A batch answers its requests with their own outputs. -/
theorem Accounted.runOneBatch {requests : List EngineRequest} {engine : DeterministicEngine}
    (accounted : Accounted requests engine) : Accounted requests engine.runOneBatch.2 := by
  obtain ⟨transparent, answered, all, belongs⟩ := accounted
  obtain ⟨more, batch, _⟩ := engine.runOneBatch_answered
  obtain ⟨items, cache, stored, entries⟩ := batch.resultCache
  obtain ⟨new, appended, responses⟩ := batch.results
  refine ⟨?_, answered ++ more, ?_, ?_⟩
  · rw [stored]
    exact transparent_foldl_cacheResult
      ((ResultCache.transparent_congr entries).mpr transparent) items
  · rw [List.append_assoc]
    exact (batch.pending.symm.append_left answered).trans all
  · rw [appended]
    exact List.rel_append belongs
      (responses.imp fun _ _ response => response.belongsTo transparent)

theorem run_accounted {draws : JitterDraws} {config : EngineConfig} {start : DeterministicEngine}
    (accepted : new draws config = .ok start) (calls : List Call) :
    Accounted (submitted calls) (object.run calls start) := by
  induction calls using List.reverseRecOn with
  | nil =>
      obtain ⟨_, _, cache, _, pending, results⟩ := new_eq_ok accepted
      refine ⟨ResultCache.Transparent.new cache, [], ?_, ?_⟩
      · rw [AtomicObject.run_nil, pending]
        exact List.Perm.refl _
      · rw [AtomicObject.run_nil, results]
        exact List.Forall₂.nil
  | append_singleton calls call ih =>
      rw [AtomicObject.run_append, submitted, List.filterMap_append, ← submitted]
      cases call with
      | submit request =>
          obtain ⟨transparent, answered, all, belongs⟩ := ih
          refine ⟨transparent, answered, ?_, belongs⟩
          change (answered ++ (_ ++ [request])).Perm (_ ++ [request])
          rw [← List.append_assoc]
          exact all.append_right [request]
      | runOneBatch =>
          change Accounted (_ ++ []) _
          rw [List.append_nil]
          exact ih.runOneBatch
      | awaitArrival arrival =>
          change Accounted (_ ++ []) _
          rw [List.append_nil]
          exact ih
      | clearCaches =>
          change Accounted (_ ++ []) _
          rw [List.append_nil]
          exact ih

/-- Each result of a run of batches is what its request computes, or a failure. -/
theorem run_matched {draws : JitterDraws} {config : EngineConfig} {start : DeterministicEngine}
    (accepted : new draws config = .ok start) (calls : List Call) :
    Matched (submitted calls) (object.run calls start).results := by
  obtain ⟨_, answered, all, belongs⟩ := run_accounted accepted calls
  exact ⟨answered, (List.sublist_append_left _ _).subperm.trans all.subperm, belongs⟩

end DeterministicEngine

/-- **Transparency.** In every run of either engine each result belongs to one
submitted request, and a successful one has the output of that request. -/
theorem caches_transparent (draws : JitterDraws) (config : EngineConfig) :
    (∀ {η : Type} [RequestQueue η] (start : ContinuousEngine η),
      ContinuousEngine.new draws config = .ok start → ∀ calls,
        Matched (ContinuousEngine.submitted calls)
          (ContinuousEngine.object.run calls start).results) ∧
    ∀ start : DeterministicEngine, DeterministicEngine.new draws config = .ok start → ∀ calls,
      Matched (DeterministicEngine.submitted calls)
        (DeterministicEngine.object.run calls start).results :=
  ⟨fun _ accepted calls => ContinuousEngine.run_matched accepted calls,
    fun _ accepted calls => DeterministicEngine.run_matched accepted calls⟩

/-- Two requests with one result key in both engines: the second is answered from
the cache the first one filled. -/
theorem caches_transparent_twins :
    let first : EngineRequest := { requestId := ['a'], promptTokens := 10, maxOutputTokens := 1 }
    let second : EngineRequest := { requestId := ['b'], promptTokens := 10, maxOutputTokens := 1 }
    (∃ start : ContinuousEngine (SelectionQueue EngineRequest),
      ContinuousEngine.new (fun _ _ _ => 0) { kvBlocks := 4 } = .ok start ∧
      ∃ calls, (ContinuousEngine.object.run calls start).results.map
          EngineResult.resultCacheHit = [false, true] ∧
        Matched [first, second] (ContinuousEngine.object.run calls start).results) ∧
    ∃ start : DeterministicEngine,
      DeterministicEngine.new (fun _ _ _ => 0) { kvBlocks := 4 } = .ok start ∧
      ∃ calls, (DeterministicEngine.object.run calls start).results.map
          EngineResult.resultCacheHit = [false, true] ∧
        Matched [first, second] (DeterministicEngine.object.run calls start).results := by
  intro first second
  have continuous : (ContinuousEngine.new (fun _ _ _ => 0) { kvBlocks := 4 } :
    Except Text (ContinuousEngine (SelectionQueue EngineRequest))) = .ok _ := rfl
  have static : DeterministicEngine.new (fun _ _ _ => 0) { kvBlocks := 4 } = .ok _ := rfl
  have transparent := caches_transparent (fun _ _ _ => 0) { kvBlocks := 4 }
  have iterations := transparent.1 _ continuous
    [.submit first, .runOneIteration, .submit second, .runOneIteration]
  have batches := transparent.2 _ static
    [.submit first, .runOneBatch, .submit second, .runOneBatch]
  exact ⟨⟨_, continuous, _, by decide +kernel, iterations⟩,
    _, static, _, by decide +kernel, batches⟩

end InferSched.Engine

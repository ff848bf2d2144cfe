import InferSched.Engine.Conservation

/-! # The times of results

The clock of an engine never moves back, so results are completed in the order
they are listed. A request is popped only once it has arrived; its first token
and its completion come later, also when it was preempted in between and went
back to the queue with a new arrival time.
-/

namespace InferSched.Engine

open Library

/-- A request of this id was submitted to arrive by this time. -/
def Arrived (requests : List EngineRequest) (requestId : Text) (time : ℤ) : Prop :=
  ∃ request ∈ requests, request.requestId = requestId ∧ request.arrivalTime ≤ time

theorem Arrived.mono {fewer more : List EngineRequest} {requestId : Text} {earlier later : ℤ}
    (arrived : Arrived fewer requestId earlier) (subset : fewer ⊆ more) (le : earlier ≤ later) :
    Arrived more requestId later := by
  obtain ⟨request, member, same, before⟩ := arrived
  exact ⟨request, subset member, same, before.trans le⟩

theorem Arrived.later {requests : List EngineRequest} {requestId : Text} {earlier later : ℤ}
    (arrived : Arrived requests requestId earlier) (le : earlier ≤ later) :
    Arrived requests requestId later :=
  arrived.mono (List.Subset.refl _) le

/-- A result is completed after its first token, which is not before the arrival. -/
def EngineResult.Timed (requests : List EngineRequest) (result : EngineResult) : Prop :=
  result.succeeded = true → Arrived requests result.requestId result.firstTokenAt ∧
    result.firstTokenAt ≤ result.completedAt

namespace ContinuousEngine

variable {η : Type} [RequestQueue η]

/-- Every request the engine or the scan has was submitted. One that has been
popped has arrived, and a sequence with tokens got the first of them after that. -/
structure Timed (requests deferred : List EngineRequest) (engine : ContinuousEngine η) :
    Prop where
  pending : ∀ request ∈ PriorityQueue.elements engine.pending,
    Arrived requests request.requestId request.arrivalTime
  deferred : ∀ request ∈ deferred, Arrived requests request.requestId request.arrivalTime ∧
    request.arrivalTime ≤ engine.clock
  active : ∀ active ∈ engine.active, Arrived requests active.request.requestId engine.clock
  started : ∀ active ∈ engine.active, active.generatedTokens ≠ 0 →
    Arrived requests active.request.requestId active.firstTokenAt ∧
      active.firstTokenAt ≤ engine.clock
  ordered : engine.results.Pairwise fun first second => first.completedAt ≤ second.completedAt
  past : ∀ result ∈ engine.results, result.completedAt ≤ engine.clock
  results : ∀ result ∈ engine.results, result.Timed requests

namespace Timed

variable {requests deferred : List EngineRequest} {engine next : ContinuousEngine η}
  {candidate : EngineRequest}

/-- Time passes, and the other fields that change are not timed. -/
theorem wait (timed : engine.Timed requests deferred) (clock : engine.clock ≤ next.clock)
    (pending : next.pending = engine.pending) (active : next.active = engine.active)
    (results : next.results = engine.results) : next.Timed requests deferred := by
  refine ⟨?_, ?_, ?_, ?_, ?_, ?_, ?_⟩
  · rw [pending]
    exact timed.pending
  · intro request member
    obtain ⟨arrived, ready⟩ := timed.deferred request member
    exact ⟨arrived, ready.trans clock⟩
  · intro sequence member
    rw [active] at member
    exact (timed.active sequence member).later clock
  · intro sequence member tokens
    rw [active] at member
    obtain ⟨arrived, ready⟩ := timed.started sequence member tokens
    exact ⟨arrived, ready.trans clock⟩
  · rw [results]
    exact timed.ordered
  · intro result member
    rw [results] at member
    exact (timed.past result member).trans clock
  · rw [results]
    exact timed.results

/-- The candidate under consideration has arrived. -/
theorem candidate_arrived (timed : engine.Timed requests (deferred ++ [candidate])) :
    Arrived requests candidate.requestId engine.clock := by
  obtain ⟨arrived, ready⟩ := timed.deferred candidate
    (List.mem_append_right _ (List.mem_singleton_self candidate))
  exact arrived.later ready

/-- The scan lets go of its candidate. -/
theorem release (timed : engine.Timed requests (deferred ++ [candidate])) :
    engine.Timed requests deferred :=
  ⟨timed.pending, fun request member => timed.deferred request (List.mem_append_left _ member),
    timed.active, timed.started, timed.ordered, timed.past, timed.results⟩

/-- A result completed now comes after the others. -/
theorem respond (timed : engine.Timed requests deferred) {result : EngineResult}
    (now : result.completedAt = engine.clock) (isTimed : result.Timed requests)
    (clock : next.clock = engine.clock) (pending : next.pending = engine.pending)
    (active : ∀ active ∈ next.active, active ∈ engine.active)
    (results : next.results = engine.results ++ [result]) : next.Timed requests deferred := by
  refine ⟨?_, ?_, ?_, ?_, ?_, ?_, ?_⟩
  · rw [pending]
    exact timed.pending
  · rw [clock]
    exact timed.deferred
  · rw [clock]
    exact fun sequence member => timed.active sequence (active sequence member)
  · rw [clock]
    exact fun sequence member => timed.started sequence (active sequence member)
  · rw [results]
    apply List.pairwise_append.mpr
    refine ⟨timed.ordered, List.pairwise_singleton _ _, ?_⟩
    intro earlier member last isLast
    rw [List.mem_singleton.mp isLast, now]
    exact timed.past earlier member
  · rw [results, clock]
    intro other member
    rcases List.mem_append.mp member with old | new
    · exact timed.past other old
    · rw [List.mem_singleton.mp new, now]
  · rw [results]
    intro other member
    rcases List.mem_append.mp member with old | new
    · exact timed.results other old
    · rw [List.mem_singleton.mp new]
      exact isTimed

/-- A sequence without tokens joins the batch. -/
theorem join (timed : engine.Timed requests deferred) (joining : ActiveRequest)
    (arrived : Arrived requests joining.request.requestId engine.clock)
    (starts : joining.generatedTokens = 0) :
    { engine with active := engine.active ++ [joining] }.Timed requests deferred := by
  refine ⟨timed.pending, timed.deferred, ?_, ?_, timed.ordered, timed.past, timed.results⟩
  · intro sequence member
    rcases List.mem_append.mp member with old | new
    · exact timed.active sequence old
    · rw [List.mem_singleton.mp new]
      exact arrived
  · intro sequence member tokens
    rcases List.mem_append.mp member with old | new
    · exact timed.started sequence old tokens
    · rw [List.mem_singleton.mp new] at tokens
      exact absurd starts tokens

/-- A completed sequence had its first token before now, or has none. -/
theorem finish (timed : engine.Timed requests deferred) {kept later : List ActiveRequest}
    {active : ActiveRequest} (split : engine.active = kept ++ active :: later) :
    { engine.finish active with active := kept ++ later }.Timed requests deferred := by
  have member : active ∈ engine.active := by
    rw [split]
    exact List.mem_append_right _ List.mem_cons_self
  have isTimed : EngineResult.Timed requests
      { requestId := active.request.requestId
        output := simulatedOutput active.request
        completedAt := engine.clock
        firstTokenAt := if active.generatedTokens = 0 then engine.clock else active.firstTokenAt
        prefixCacheHit := active.prefixCacheHit } := by
    intro _
    dsimp only
    split
    · exact ⟨timed.active active member, le_rfl⟩
    · next tokens => exact timed.started active member tokens
  refine timed.respond rfl isTimed rfl rfl ?_ rfl
  intro other isLeft
  rw [split]
  rcases List.mem_append.mp isLeft with before | after
  · exact List.mem_append_left _ before
  · exact List.mem_append_right _ (List.mem_cons_of_mem _ after)

/-- A victim goes back to the queue as if it arrived now. -/
theorem preempt (timed : engine.Timed requests deferred) (activeIndex : ℕ) :
    (engine.preempt activeIndex).Timed requests deferred := by
  unfold ContinuousEngine.preempt
  split
  · exact timed
  · next victim found =>
      have others : ∀ active ∈ engine.active.eraseIdx activeIndex, active ∈ engine.active :=
        fun _ member => List.mem_of_mem_eraseIdx member
      refine ⟨?_, timed.deferred, fun active member => timed.active active (others active member),
        fun active member => timed.started active (others active member), timed.ordered,
        timed.past, timed.results⟩
      intro request member
      rw [PriorityQueue.elements_push] at member
      rcases Multiset.mem_cons.mp member with rfl | old
      · exact timed.active victim (List.mem_of_getElem? found)
      · exact timed.pending request old

/-- Every sequence of the batch gets a token, some their first. -/
theorem decodeBatch (timed : engine.Timed requests deferred) :
    engine.decodeBatch.Timed requests deferred := by
  have clock : engine.clock ≤ engine.decodeBatch.clock := le_advance _ _
  refine ⟨timed.pending, ?_, ?_, ?_, timed.ordered, ?_, timed.results⟩
  · intro request member
    obtain ⟨arrived, ready⟩ := timed.deferred request member
    exact ⟨arrived, ready.trans clock⟩
  · intro sequence member
    obtain ⟨active, isActive, rfl⟩ := List.mem_map.mp member
    exact (timed.active active isActive).later clock
  · intro sequence member _
    obtain ⟨active, isActive, rfl⟩ := List.mem_map.mp member
    dsimp only
    split
    · exact ⟨(timed.active active isActive).later clock, le_rfl⟩
    · next more =>
        obtain ⟨arrived, ready⟩ := timed.started active isActive (by omega)
        exact ⟨arrived, ready.trans clock⟩
  · intro result member
    exact (timed.past result member).trans clock

end Timed
end ContinuousEngine

namespace Moment

variable {η : Type} [RequestQueue η]

/-- A step keeps the times in order. -/
theorem Step.timed {requests : List EngineRequest} {before after : Moment η}
    (step : Step before after) (timed : before.engine.Timed requests before.scan.deferred) :
    after.engine.Timed requests after.scan.deferred := by
  cases step with
  | forgive empty => exact timed.wait le_rfl rfl rfl rfl
  | @pop engine scan candidate queue room popped =>
      obtain ⟨found, ready⟩ := RequestQueue.popReady_eq_some popped
      have pending := timed.pending
      rw [PriorityQueue.elements_of_pop_some found] at pending
      refine ⟨?_, ?_, timed.active, timed.started, timed.ordered, timed.past, timed.results⟩
      · intro request member
        exact pending request (Multiset.mem_cons_of_mem member)
      · intro request member
        rcases List.mem_append.mp member with old | new
        · exact timed.deferred request old
        · rw [List.mem_singleton.mp new]
          exact ⟨pending candidate (Multiset.mem_cons_self _ _), ready⟩
  | reject impossible =>
      exact timed.release.respond rfl (fun failed => by cases failed) rfl rfl (fun _ => id) rfl
  | answer possible found =>
      exact timed.release.respond rfl (fun _ => ⟨timed.candidate_arrived, le_rfl⟩) rfl rfl
        (fun _ => id) rfl
  | miss possible missing => exact timed.wait le_rfl rfl rfl rfl
  | touch =>
      unfold ContinuousEngine.matchPrefix
      split
      · exact timed
      · exact timed.wait le_rfl rfl rfl rfl
  | evict evicted => exact timed.wait le_rfl rfl rfl rfl
  | @admission engine scan candidate matched possible room forgiven budget longest allocated =>
      obtain ⟨_, _, _, cost, admitted⟩ := ContinuousEngine.admitCandidate_eq
        { engine with
          kvCache := (engine.kvCache.allocate candidate.requestId
            (engine.promptBlocks candidate) (matched.getD [])).2 } candidate matched
      obtain ⟨_, _, cached⟩ := ContinuousEngine.cachePrompt_eq
        { engine with
          kvCache := (engine.kvCache.allocate candidate.requestId
            (engine.promptBlocks candidate) (matched.getD [])).2 } candidate
      dsimp only
      rw [admitted, cached]
      have joined := timed.release.join ⟨candidate, .decode, 0, matched.isSome, 0⟩
        timed.candidate_arrived rfl
      exact joined.wait (le_advance _ _) rfl rfl rfl
  | requeue engine scan =>
      refine ⟨?_, nofun, timed.active, timed.started, timed.ordered, timed.past, timed.results⟩
      intro request member
      change request ∈ PriorityQueue.elements (PriorityQueue.pushAll _ _) at member
      rw [PriorityQueue.elements_pushAll] at member
      rcases Multiset.mem_add.mp member with old | deferred
      · exact timed.pending request old
      · exact (timed.deferred request (Multiset.mem_coe.mp deferred)).1
  | complete split finished => exact timed.finish split
  | prepare nothing unfinished => exact timed
  | grow member short appended => exact timed.wait le_rfl rfl rfl rfl
  | preempt member short scarce unpinned => exact timed.preempt _
  | decode inhabited prepared => exact timed.decodeBatch
  | @close engine scan nothing =>
      change engine.Timed requests []
      rw [← nothing]
      exact timed

theorem Steps.timed {requests : List EngineRequest} {before after : Moment η}
    (steps : Steps before after) (timed : before.engine.Timed requests before.scan.deferred) :
    after.engine.Timed requests after.scan.deferred := by
  induction steps with
  | refl => exact timed
  | tail _ step ih => exact step.timed ih

end Moment

namespace ContinuousEngine

variable {η : Type} [RequestQueue η] {draws : JitterDraws} {config : EngineConfig}
  {start : ContinuousEngine η}

theorem Timed.submit {requests : List EngineRequest} {engine : ContinuousEngine η}
    (timed : engine.Timed requests []) (request : EngineRequest) :
    (engine.submit request).Timed (requests ++ [request]) [] := by
  have more : requests ⊆ requests ++ [request] := List.subset_append_left _ _
  refine ⟨?_, nofun, ?_, ?_, timed.ordered, timed.past, ?_⟩
  · intro other member
    change other ∈ PriorityQueue.elements (PriorityQueue.push _ _) at member
    rw [PriorityQueue.elements_push] at member
    rcases Multiset.mem_cons.mp member with rfl | old
    · exact ⟨other, List.mem_append_right _ (List.mem_singleton_self _), rfl, le_rfl⟩
    · exact (timed.pending other old).mono more le_rfl
  · intro active member
    exact (timed.active active member).mono more le_rfl
  · intro active member tokens
    obtain ⟨arrived, ready⟩ := timed.started active member tokens
    exact ⟨arrived.mono more le_rfl, ready⟩
  · intro result member succeeded
    obtain ⟨arrived, ordered⟩ := timed.results result member succeeded
    exact ⟨arrived.mono more le_rfl, ordered⟩

theorem run_timed (accepted : new draws config = .ok start) (calls : List Call) :
    (object.run calls start).Timed (submitted calls) [] := by
  induction calls using List.reverseRecOn with
  | nil =>
      obtain ⟨_, _, _, empty, results, pending, _⟩ := new_eq_ok accepted
      rw [AtomicObject.run_nil]
      refine ⟨?_, nofun, ?_, ?_, ?_, ?_, ?_⟩
      · rw [pending, PriorityQueue.elements_empty]
        exact nofun
      · rw [empty]
        exact nofun
      · rw [empty]
        exact nofun
      · rw [results]
        exact .nil
      · rw [results]
        exact nofun
      · rw [results]
        exact nofun
  | append_singleton calls call ih =>
      have invariant := (run_invariant accepted calls).1
      rw [AtomicObject.run_append, submitted, List.filterMap_append, ← submitted]
      cases call with
      | submit request => exact ih.submit request
      | runOneIteration =>
          rw [List.filterMap_cons_none rfl, List.filterMap_nil, List.append_nil]
          exact (runOneIteration_steps invariant).timed ih
      | awaitArrival arrival =>
          rw [List.filterMap_cons_none rfl, List.filterMap_nil, List.append_nil]
          exact ih.wait (le_advance _ _) rfl rfl rfl
      | clearCaches =>
          rw [List.filterMap_cons_none rfl, List.filterMap_nil, List.append_nil]
          exact ih.wait le_rfl rfl rfl rfl

/-- **Times.** After every list of calls on distinct ids, the results are listed
in the order of their completion, and a result that succeeded belongs to a
submitted request, has its first token no earlier than that request arrived and
its completion no earlier than its first token. -/
theorem results_in_time (accepted : new draws config = .ok start) (calls : List Call)
    (distinct : ((submitted calls).map EngineRequest.requestId).Nodup) :
    ((object.run calls start).results.map EngineResult.completedAt).Pairwise (· ≤ ·) ∧
      ∀ result ∈ (object.run calls start).results, result.succeeded = true →
        (∃ request ∈ submitted calls, request.requestId = result.requestId) ∧
        ∀ request ∈ submitted calls, request.requestId = result.requestId →
          request.arrivalTime ≤ result.firstTokenAt ∧ result.firstTokenAt ≤ result.completedAt := by
  have timed := run_timed accepted calls
  refine ⟨List.pairwise_map.mpr timed.ordered, ?_⟩
  intro result member succeeded
  obtain ⟨⟨origin, isSubmitted, same, arrived⟩, ordered⟩ := timed.results result member succeeded
  refine ⟨⟨origin, isSubmitted, same⟩, ?_⟩
  intro request isRequest named
  have equal : request = origin :=
    List.inj_on_of_nodup_map distinct isRequest isSubmitted (named.trans same.symm)
  rw [equal]
  exact ⟨arrived, ordered⟩

/-- Two sequences compete for blocks, so that one is preempted and admitted again,
and a request without output tokens is completed before both. -/
theorem results_in_time_preempted :
    let first : EngineRequest :=
      { requestId := ['a'], promptTokens := 2, maxOutputTokens := 2, priority := 1 }
    let second : EngineRequest :=
      { requestId := ['b'], promptTokens := 2, maxOutputTokens := 2, samplingSeed := 1 }
    let empty : EngineRequest := { requestId := ['c'], arrivalTime := 40000 }
    let calls := [Call.submit first, .submit second, .runOneIteration, .submit empty,
      .awaitArrival 40000, .runOneIteration, .runOneIteration, .runOneIteration, .runOneIteration]
    ∃ start : ContinuousEngine (SelectionQueue EngineRequest),
      new (fun _ _ _ => 0)
        { kvBlocks := 2, kvBlockSizeTokens := 2, maxPrefillSequencesPerIteration := 2 } =
          .ok start ∧
      (object.run calls start).stats.preemptions = 1 ∧
      (object.run calls start).results.map EngineResult.requestId = [['c'], ['a'], ['b']] ∧
      ((object.run calls start).results.map EngineResult.completedAt).Pairwise (· ≤ ·) ∧
      ∀ result ∈ (object.run calls start).results, result.succeeded = true →
        (∃ request ∈ submitted calls, request.requestId = result.requestId) ∧
        ∀ request ∈ submitted calls, request.requestId = result.requestId →
          request.arrivalTime ≤ result.firstTokenAt ∧
            result.firstTokenAt ≤ result.completedAt := by
  intro first second empty calls
  have accepted : (new (fun _ _ _ => 0)
    { kvBlocks := 2, kvBlockSizeTokens := 2, maxPrefillSequencesPerIteration := 2 } :
    Except Text (ContinuousEngine (SelectionQueue EngineRequest))) = .ok _ := rfl
  exact ⟨_, accepted, by decide +kernel, by decide +kernel,
    results_in_time accepted calls (by decide)⟩

end ContinuousEngine
end InferSched.Engine

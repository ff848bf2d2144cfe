import InferSched.Engine.IdleRuns

/-! # Requests without block hashes

Only the hashes of a prompt bring its blocks into the prefix cache. An engine whose requests
have none never pins a block, so its sequences hold all the blocks that are in use, and an
engine with an empty batch has every block free. The requests that come over the network are
of this kind (`ToEngineRequest` in `engine_service.cpp` sets no hashes).
-/

namespace InferSched.Engine

open Library

namespace Moment

variable {η : Type} [RequestQueue η]

/-- No request without a result has block hashes, and no prefix is cached. -/
structure Hashless (moment : Moment η) : Prop where
  requests : ∀ request ∈ moment.unanswered, request.promptBlockHashes = []
  uncached : moment.engine.prefixCache.nodes = 0

/-- A candidate in hand has no hashes either. -/
theorem Hashless.candidate {engine : ContinuousEngine η} {scan : Scan} {candidate : EngineRequest}
    (hashless : Hashless ⟨engine, scan.defer candidate, false⟩) :
    candidate.promptBlockHashes = [] := by
  refine hashless.requests candidate.ticket ?_
  rw [unanswered_defer]
  exact Multiset.mem_cons_self _ _

/-- No step gives a request hashes. -/
theorem Step.hashless {before after : Moment η} (step : Step before after)
    (invariant : before.engine.Invariant before.preparing) (hashless : before.Hashless) :
    after.Hashless := by
  have among : ∀ request ∈ after.unanswered, request ∈ before.unanswered := by
    rcases step.responds invariant with ⟨same, _⟩ | ⟨answered, _, split, _⟩
    · rw [same]
      exact fun _ member => member
    · intro request member
      rw [split]
      exact Multiset.mem_cons_of_mem member
  refine ⟨fun request member => hashless.requests request (among request member), ?_⟩
  cases step with
  | @touch engine scan candidate =>
      have none : engine.candidateHashes candidate = [] := by
        rw [ContinuousEngine.candidateHashes, hashless.candidate, List.take_nil]
      unfold ContinuousEngine.matchPrefix
      rw [if_pos none]
      exact hashless.uncached
  | @evict engine scan preparing evicted =>
      rcases invariant.linked.evictOldest with ⟨nothing, _⟩ | ⟨_, _, _, _, counted⟩
      · unfold ContinuousEngine.evictOldest at evicted
        rw [nothing] at evicted
        cases evicted
      · have empty : engine.prefixCache.nodes = 0 := hashless.uncached
        rw [empty, Multiset.card_zero] at counted
        exact absurd counted.symm (Nat.succ_ne_zero _)
  | @admission engine scan candidate matched possible room forgiven budget longest allocated =>
      obtain ⟨_, _, _, _, admitted⟩ := ContinuousEngine.admitCandidate_eq
        { engine with kvCache := (engine.kvCache.allocate candidate.requestId
          (engine.promptBlocks candidate) (matched.getD [])).2 } candidate matched
      rw [admitted]
      unfold ContinuousEngine.cachePrompt
      rw [if_pos hashless.candidate]
      exact hashless.uncached
  | preempt member short scarce unpinned =>
      unfold ContinuousEngine.preempt
      split
      · exact hashless.uncached
      · exact hashless.uncached
  | _ => exact hashless.uncached

theorem Steps.hashless {before after : Moment η} (steps : Steps before after)
    (invariant : before.engine.Invariant before.preparing) (hashless : before.Hashless) :
    after.Hashless := by
  induction steps with
  | refl => exact hashless
  | tail earlier step ih => exact step.hashless (Steps.invariant earlier invariant) ih

end Moment

namespace ContinuousEngine

open Moment

variable {η : Type} {engine : ContinuousEngine η}

/-- With an empty batch and no cached prefix, every block is free. -/
theorem Invariant.freeBlocks_of_unused {preparing : Bool} (invariant : engine.Invariant preparing)
    (empty : engine.active = []) (uncached : engine.prefixCache.nodes = 0) :
    engine.kvCache.freeBlocks = engine.kvCache.totalBlocks := by
  refine invariant.linked.invariant.balanced.free_of_unheld fun block => ?_
  apply PagedKvCache.holders_eq_zero
  · intro id
    rw [AList.lookup_eq_none, invariant.sequences id, activeIds, empty]
    exact List.not_mem_nil
  · intro key
    by_contra found
    obtain ⟨blocks, found⟩ := Option.ne_none_iff_exists'.mp found
    have pinned := PagedKvCache.mem_pins_iff.mpr found
    rw [invariant.linked.pins, uncached] at pinned
    exact Multiset.notMem_zero _ pinned

variable [RequestQueue η]

theorem hashless_submit (hashless : (rest engine).Hashless) {request : EngineRequest}
    (unhashed : request.promptBlockHashes = []) : (rest (engine.submit request)).Hashless := by
  refine ⟨fun other member => ?_, hashless.uncached⟩
  rw [unanswered_submit] at member
  rcases Multiset.mem_cons.mp member with rfl | old
  · exact unhashed
  · exact hashless.requests other old

/-- Calls that submit requests without hashes leave an engine without any. -/
theorem Invariant.hashless_respond (invariant : engine.Invariant false)
    (hashless : (rest engine).Hashless) (call : Call)
    (unhashed : ∀ request, call = .submit request → request.promptBlockHashes = []) :
    (rest (object.respond call engine).2).Hashless := by
  cases call with
  | submit request => exact hashless_submit hashless (unhashed request rfl)
  | runOneIteration => exact (runOneIteration_steps invariant).hashless invariant hashless
  | awaitArrival arrival => exact ⟨hashless.requests, hashless.uncached⟩
  | clearCaches => exact ⟨hashless.requests, rfl⟩

/-- No run brings a request with hashes about. -/
theorem Invariant.hashless_run (invariant : engine.Invariant false)
    (hashless : (rest engine).Hashless) (calls : List Call)
    (unhashed : ∀ request ∈ submitted calls, request.promptBlockHashes = []) :
    (rest (object.run calls engine)).Hashless := by
  induction calls generalizing engine with
  | nil => exact hashless
  | cons call calls ih =>
      rw [AtomicObject.run_cons]
      refine ih (respond_invariant call invariant).1 ?_ ?_
      · refine invariant.hashless_respond hashless call ?_
        rintro request rfl
        exact unhashed request List.mem_cons_self
      · intro request member
        apply unhashed
        cases call with
        | submit first => exact List.mem_cons_of_mem first member
        | _ => exact member

/-- A new engine has no requests. -/
theorem hashless_new {draws : JitterDraws} {config : EngineConfig}
    (accepted : new draws config = .ok engine) : (rest engine).Hashless := by
  obtain ⟨_, radix, _⟩ := new_eq_ok accepted
  obtain ⟨_, nothing⟩ := Ready.new accepted
  refine ⟨?_, ?_⟩
  · rw [nothing]
    exact fun _ impossible => absurd impossible (Multiset.notMem_zero _)
  · change engine.prefixCache.nodes = 0
    rw [RadixPrefixCache.new_eq_ok radix]
    rfl

/-- A run until idle that brings no hashes leaves every block free. -/
theorem Ready.frees {final : ContinuousEngine η} {rounds : ℕ} (ready : engine.Ready)
    (hashless : (rest engine).Hashless) (ran : runUntilIdle rounds engine = some final) :
    (rest final).Hashless ∧ final.kvCache.totalBlocks = engine.kvCache.totalBlocks ∧
      final.kvCache.freeBlocks = engine.kvCache.totalBlocks := by
  obtain ⟨_, other, again, _, empty, _⟩ :=
    ready.invariant.runUntilIdle_ends ready.sequences ready.prefills
  cases runUntilIdle_unique ran again
  obtain ⟨calls, nothing, rfl⟩ := runUntilIdle_run ran
  have kept := ready.invariant.hashless_run hashless calls
    (by rw [nothing]; exact List.forall_mem_nil _)
  obtain ⟨invariant, _, total⟩ := invariant_run ready.invariant calls
  refine ⟨kept, total, ?_⟩
  rw [invariant.freeBlocks_of_unused empty kept.uncached, total]

end ContinuousEngine

end InferSched.Engine

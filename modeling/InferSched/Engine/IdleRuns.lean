import InferSched.Engine.CacheTransparency
import InferSched.Engine.Termination

/-! # Runs until idle

What the owner of a continuous engine can rely on when it submits requests and
calls `RunUntilIdle`: the call ends, its outcome does not depend on how long it
was allowed to run, the engine is idle afterwards, and the new results belong to
the requests that were waiting, one to each.
-/

namespace InferSched.Engine.ContinuousEngine

open Library Moment

variable {η : Type}

/-! ### The reasons of failures -/

/-- What the engine writes as a failure reason; it is empty on success. -/
def failureReasons : List Text :=
  [[], "token_count_overflow".toList, "exceeds_max_batch_tokens".toList,
    "exceeds_kv_capacity".toList]

/-- All results have a reason of the engine. -/
def Explained (engine : ContinuousEngine η) : Prop :=
  ∀ result ∈ engine.results, result.failureReason ∈ failureReasons

/-- The check gives one of the listed reasons. -/
theorem impossibleReason_mem {engine : ContinuousEngine η} {request : EngineRequest} {reason : Text}
    (impossible : engine.impossibleReason request = some reason) : reason ∈ failureReasons := by
  unfold impossibleReason at impossible
  unfold failureReasons
  split at impossible
  · cases impossible
    simp
  · split at impossible
    · cases impossible
      simp
    · split at impossible
      · cases impossible
        simp
      · cases impossible

/-- Whatever the engine responds, its reason is a listed one. -/
theorem explained_response {engine : ContinuousEngine η} {request : EngineRequest}
    {result : EngineResult} (response : Response engine request result) :
    result.failureReason ∈ failureReasons := by
  cases response with
  | rejected impossible => exact impossibleReason_mem impossible
  | cached possible found => exact List.mem_cons_self
  | computed possible => exact List.mem_cons_self

variable [RequestQueue η]

theorem Explained.steps {before after : Moment η} (explained : before.engine.Explained)
    (steps : Steps before after) (invariant : before.engine.Invariant before.preparing) :
    after.engine.Explained := by
  induction steps with
  | refl => exact explained
  | tail earlier step ih =>
      intro result member
      rcases step.responds (Steps.invariant earlier invariant) with ⟨_, same⟩ |
        ⟨request, answer, _, appended, response⟩
      · rw [same] at member
        exact ih result member
      · rw [appended, List.mem_append, List.mem_singleton] at member
        rcases member with old | rfl
        · exact ih result old
        · exact explained_response response

/-- Every result of every run has a listed reason. -/
theorem explained_run {start : ContinuousEngine η} (invariant : start.Invariant false)
    (explained : start.Explained) (calls : List Call) : (object.run calls start).Explained := by
  refine (@AtomicObject.invariant _ _ _ object
    (fun engine : ContinuousEngine η => engine.Invariant false ∧ engine.Explained) ?_ calls start
    ⟨invariant, explained⟩).2
  rintro call engine ⟨valid, holds⟩
  refine ⟨(respond_invariant call valid).1, ?_⟩
  cases call with
  | submit request => exact holds
  | runOneIteration => exact Explained.steps holds (runOneIteration_steps valid) valid
  | awaitArrival arrival => exact holds
  | clearCaches => exact holds

/-! ### Engines between runs -/

/-- An engine that may be given requests. -/
structure Ready (engine : ContinuousEngine η) : Prop where
  invariant : engine.Invariant false
  transparent : engine.resultCache.Transparent
  explained : engine.Explained
  sequences : 0 < engine.config.maxBatchSequences
  prefills : 0 < engine.config.maxPrefillSequencesPerIteration

theorem Ready.new {draws : JitterDraws} {config : EngineConfig} {engine : ContinuousEngine η}
    (accepted : ContinuousEngine.new draws config = .ok engine) :
    engine.Ready ∧ (rest engine).unanswered = 0 := by
  obtain ⟨_, _, isConfig, empty, noResults, pending, _, cache, sequences, prefills⟩ :=
    new_eq_ok accepted
  refine ⟨⟨(Invariant.new accepted).1, ResultCache.Transparent.new cache, ?_, ?_, ?_⟩, ?_⟩
  · unfold Explained
    rw [noResults]
    exact List.forall_mem_nil _
  · rw [isConfig]
    exact sequences
  · rw [isConfig]
    exact prefills
  · unfold unanswered rest
    dsimp only
    rw [empty, pending, PriorityQueue.elements_empty]
    rfl

/-- A submission leaves the engine ready. -/
theorem Ready.submit {engine : ContinuousEngine η} (ready : engine.Ready)
    (request : EngineRequest) : (engine.submit request).Ready :=
  ⟨(respond_invariant (.submit request) ready.invariant).1, ready.transparent, ready.explained,
    ready.sequences, ready.prefills⟩

/-- More rounds than enough change nothing. -/
theorem runUntilIdle_add {rounds : ℕ} {engine final : ContinuousEngine η}
    (ran : runUntilIdle rounds engine = some final) (more : ℕ) :
    runUntilIdle (rounds + more) engine = some final := by
  induction rounds generalizing engine with
  | zero => cases ran
  | succ rounds ih =>
      rw [Nat.add_right_comm]
      unfold runUntilIdle at ran ⊢
      split at ran
      · next idle =>
          rw [if_pos idle]
          exact ran
      · next busy =>
          rw [if_neg busy]
          dsimp only at ran ⊢
          split at ran
          · next progress =>
              rw [if_pos progress]
              exact ih ran
          · next still =>
              rw [if_neg still]
              split at ran
              · exact ih ran
              · exact ran

/-- More rounds than needed change nothing. -/
theorem runUntilIdle_unique {rounds others : ℕ} {engine final other : ContinuousEngine η}
    (ran : runUntilIdle rounds engine = some final)
    (again : runUntilIdle others engine = some other) : final = other := by
  have one := runUntilIdle_add ran others
  have two := runUntilIdle_add again rounds
  rw [Nat.add_comm, two] at one
  exact (Option.some.inj one).symm

/-- `RunUntilIdle` is made of calls that submit nothing. -/
theorem runUntilIdle_run {rounds : ℕ} {engine final : ContinuousEngine η}
    (ran : runUntilIdle rounds engine = some final) :
    ∃ calls, submitted calls = [] ∧ object.run calls engine = final := by
  induction rounds generalizing engine with
  | zero => cases ran
  | succ rounds ih =>
      unfold runUntilIdle at ran
      split at ran
      · exact ⟨[], rfl, Option.some.inj ran⟩
      · dsimp only at ran
        split at ran
        · obtain ⟨calls, nothing, run⟩ := ih ran
          exact ⟨.runOneIteration :: calls, nothing, run⟩
        · split at ran
          · next arrival _ =>
              obtain ⟨calls, nothing, run⟩ := ih ran
              exact ⟨.runOneIteration :: .awaitArrival arrival :: calls, nothing, run⟩
          · exact ⟨[.runOneIteration], rfl, Option.some.inj ran⟩

/-- Some number of rounds is enough. -/
theorem Ready.runUntilIdle_some {engine : ContinuousEngine η} (ready : engine.Ready) :
    ∃ rounds final, runUntilIdle rounds engine = some final := by
  obtain ⟨rounds, final, ran, _⟩ :=
    ready.invariant.runUntilIdle_ends ready.sequences ready.prefills
  exact ⟨rounds, final, ran⟩

/-- An engine without pending or active requests has answered all. -/
theorem unanswered_of_idle {engine : ContinuousEngine η} (pending : engine.pendingCount = 0)
    (empty : engine.active = []) : (rest engine).unanswered = 0 := by
  have elements : PriorityQueue.elements engine.pending = 0 := Multiset.card_eq_zero.mp pending
  unfold unanswered rest
  dsimp only
  rw [elements, empty]
  rfl

/-- The new results belong to the requests that were waiting. -/
theorem Ready.runUntilIdle_answers {engine final : ContinuousEngine η} {rounds : ℕ}
    {requests : List EngineRequest} (ready : engine.Ready)
    (waiting : (rest engine).unanswered = tickets requests)
    (ran : runUntilIdle rounds engine = some final) :
    final.Ready ∧ (rest final).unanswered = 0 ∧
      ∃ (answered : List EngineRequest) (new : List EngineResult),
        final.results = engine.results ++ new ∧
        (answered : Multiset EngineRequest) = tickets requests ∧
        List.Forall₂ EngineResult.BelongsTo answered new := by
  obtain ⟨_, other, again, pending, empty, _⟩ :=
    ready.invariant.runUntilIdle_ends ready.sequences ready.prefills
  cases runUntilIdle_unique ran again
  have idle := unanswered_of_idle pending empty
  obtain ⟨calls, nothing, run⟩ := runUntilIdle_run ran
  have begun := @Accounted.of_transparent η _ (rest engine) ready.transparent
  rw [waiting] at begun
  have accounted := accounted_run ready.invariant begun calls
  obtain ⟨invariant, sameConfig, _⟩ := invariant_run ready.invariant calls
  rw [nothing, List.append_nil, run] at accounted
  have explained := explained_run ready.invariant ready.explained calls
  rw [run] at invariant sameConfig explained
  obtain ⟨transparent, answered, new, appended, split, belongs⟩ := accounted
  rw [idle, add_zero] at split
  exact ⟨⟨invariant, transparent, explained, by rw [sameConfig]; exact ready.sequences,
    by rw [sameConfig]; exact ready.prefills⟩, idle, answered, new, appended, split, belongs⟩

end InferSched.Engine.ContinuousEngine

import Mathlib.Data.List.Induction
import InferSched.Engine.KvCheck
import InferSched.Engine.LeftBehind

/-! # The accounts of the static engine

Between two calls of a static engine every submitted request is pending or has a
result, no sequence has blocks, and the blocks in use are those of the cached
prompts. A batch mixes rejected, cached, passed over and executed requests; what
it answers leaves the pending list, and that is all it does to the accounts.
-/

namespace InferSched.Engine.DeterministicEngine

open Library

variable {start engine : DeterministicEngine} {requests : List EngineRequest}

/-- A settled engine is settled without its cached prompts. -/
theorem Settled.clearCaches (settled : engine.Settled) :
    engine.clearCaches.Settled ∧
      engine.clearCaches.kvCache.totalBlocks = engine.kvCache.totalBlocks := by
  obtain ⟨pinned, invariant, shrinks⟩ := settled.pinned.clear settled.invariant
  refine ⟨⟨invariant, pinned, fun block => (shrinks.fewer block).trans (settled.unshared block),
    List.nodup_nil, ?_, List.forall_mem_nil _⟩, shrinks.totalBlocks⟩
  intro id
  unfold DeterministicEngine.clearCaches
  dsimp only
  rw [shrinks.sequences]
  exact settled.sequences id

theorem Serving.submit (serving : Serving start requests engine) (request : EngineRequest) :
    Serving start (requests ++ [request]) (engine.submit request) := by
  obtain ⟨answered, all, judged⟩ := serving.answers
  refine ⟨serving.settled.congr rfl rfl, serving.positive, serving.config, serving.totalBlocks,
    answered, ?_, judged⟩
  change (answered ++ (engine.pending ++ [request])).Perm _
  rw [← List.append_assoc]
  exact all.append_right [request]

theorem Serving.clearCaches (serving : Serving start requests engine) :
    Serving start requests engine.clearCaches := by
  obtain ⟨settled, total⟩ := serving.settled.clearCaches
  exact ⟨settled, serving.positive, serving.config, total.trans serving.totalBlocks,
    serving.answers⟩

/-- After every list of calls, what is known of an engine on the submitted requests. -/
theorem Serving.run {draws : JitterDraws} {config : EngineConfig}
    (accepted : new draws config = .ok start) (calls : List Call) :
    Serving start (DeterministicEngine.submitted calls) (object.run calls start) := by
  induction calls using List.reverseRecOn with
  | nil => exact Serving.submitted accepted []
  | append_singleton calls call ih =>
      rw [AtomicObject.run_append, DeterministicEngine.submitted, List.filterMap_append,
        ← DeterministicEngine.submitted]
      cases call with
      | submit request => exact ih.submit request
      | runOneBatch =>
          rw [List.filterMap_cons_none rfl, List.filterMap_nil, List.append_nil]
          exact ih.runOneBatch
      | awaitArrival arrival =>
          rw [List.filterMap_cons_none rfl, List.filterMap_nil, List.append_nil]
          exact ih.awaitArrival arrival
      | clearCaches =>
          rw [List.filterMap_cons_none rfl, List.filterMap_nil, List.append_nil]
          exact ih.clearCaches

/-- Every request is pending or has a result. -/
theorem Serving.ids (serving : Serving start requests engine) :
    (engine.pending.map EngineRequest.requestId ++
      engine.results.map EngineResult.requestId).Perm
        (requests.map EngineRequest.requestId) := by
  obtain ⟨answered, all, judged⟩ := serving.answers
  have same : answered.map EngineRequest.requestId =
      engine.results.map EngineResult.requestId := by
    rw [← List.forall₂_eq_eq_eq, List.forall₂_map_left_iff, List.forall₂_map_right_iff]
    exact judged.imp fun request result outcome => outcome.1.symm
  have ids := all.map EngineRequest.requestId
  rw [List.map_append, same] at ids
  exact List.perm_append_comm.trans ids

/-- No sequence lists a block. -/
theorem Settled.unlisted (settled : engine.Settled) (block : BlockId) :
    engine.kvCache.sequenceBlocks.holders block = 0 := by
  by_contra listed
  obtain ⟨id, blocks, found, _⟩ := Holdings.holders_pos_iff.mp (Nat.pos_of_ne_zero listed)
  have known : id ∈ engine.kvCache.sequenceBlocks := by
    rw [← AList.lookup_isSome, found]
    rfl
  exact List.not_mem_nil ((settled.sequences id).mp known)

/-- The blocks in use are those of the cached prompts. -/
theorem Settled.allocated_iff (settled : engine.Settled) (block : BlockId) :
    (block < engine.kvCache.totalBlocks ∧ block ∉ engine.kvCache.freeList) ↔
      ∃ key blocks, engine.prefixCache.entries.lookup key = some blocks ∧ block ∈ blocks := by
  have unlisted := settled.unlisted block
  have count : engine.kvCache.holders block = engine.kvCache.prefixBlocks.holders block := by
    rw [PagedKvCache.holders, unlisted, Nat.zero_add]
  have inUse : (block < engine.kvCache.totalBlocks ∧ block ∉ engine.kvCache.freeList) ↔
      0 < engine.kvCache.prefixBlocks.holders block := by
    rw [settled.invariant.balanced.free, count]
    constructor
    · rintro ⟨inside, used⟩
      exact Nat.pos_of_ne_zero fun none => used ⟨inside, none⟩
    · intro pinned
      refine ⟨?_, fun unused => absurd unused.2 (Nat.ne_of_gt pinned)⟩
      by_contra outside
      have none := settled.invariant.balanced.outside block (Nat.le_of_not_lt outside)
      exact absurd (count.symm.trans none) (Nat.ne_of_gt pinned)
  rw [inUse, Holdings.holders_pos_iff]
  simp only [settled.pinned.lookup]

/-- The check of the KV cache passes: no block has more than one holder. -/
theorem Settled.checkInvariants (settled : engine.Settled)
    (sized : engine.kvCache.totalBlocks < 2 ^ sizeBits) :
    engine.kvCache.checkInvariants = true := by
  have fits : ∀ block, engine.kvCache.holders block < 2 ^ 32 := by
    intro block
    have unlisted := settled.unlisted block
    have pinned := settled.unshared block
    unfold PagedKvCache.holders
    omega
  exact (PagedKvCache.checkInvariants_iff _ sized fits).mpr (settled.invariant.exact fits)

/-- **Accounts.** After every list of calls on a static engine: the ids pending and the
ids with a result are the submitted ones; the KV cache holds no sequence, its pins are
the entries of the prefix cache, the blocks in use are exactly the pinned ones, and it
is consistent, also in the eyes of its own check. A batch that reports progress shortens
the pending list, and `RunUntilIdle` ends. -/
theorem batches_accounted {draws : JitterDraws} {config : EngineConfig}
    (accepted : new draws config = .ok start) (calls : List Call) :
    let engine := object.run calls start
    (engine.pending.map EngineRequest.requestId ++
      engine.results.map EngineResult.requestId).Perm
        ((submitted calls).map EngineRequest.requestId) ∧
    engine.kvCache.sequenceCount = 0 ∧
    (∀ key, engine.kvCache.prefixBlocks.lookup key = engine.prefixCache.entries.lookup key) ∧
    (∀ block, (block < engine.kvCache.totalBlocks ∧ block ∉ engine.kvCache.freeList) ↔
      ∃ key blocks, engine.prefixCache.entries.lookup key = some blocks ∧ block ∈ blocks) ∧
    (engine.kvCache.Invariant ∧ engine.kvCache.checkInvariants = true) ∧
    (engine.runOneBatch.1 = true → engine.runOneBatch.2.pendingCount < engine.pendingCount) ∧
    ∃ rounds final, runUntilIdle rounds engine = some final := by
  intro engine
  have serving := Serving.run accepted calls
  obtain ⟨kv, _⟩ := new_eq_ok accepted
  have sized : engine.kvCache.totalBlocks < 2 ^ sizeBits := by
    rw [serving.totalBlocks]
    exact PagedKvCache.totalBlocks_new kv
  refine ⟨serving.ids, ?_, serving.settled.pinned.lookup, serving.settled.allocated_iff,
    ⟨serving.settled.invariant, serving.settled.checkInvariants sized⟩,
    length_pending_runOneBatch, ?_⟩
  · apply List.length_eq_zero_iff.mpr
    apply List.eq_nil_iff_forall_not_mem.mpr
    intro entry member
    exact List.not_mem_nil ((serving.settled.sequences entry.1).mp (List.mem_keys_of_mem member))
  · obtain ⟨rounds, final, _, ran, _⟩ := Serving.runUntilIdle_ends _ _ _
      (Nat.lt_succ_self _) (Nat.lt_succ_self _) serving
    exact ⟨rounds, final, ran⟩

/-- Two requests of one id with different outputs and one that can never run: the batch
answers one of the two, and the other in the next batch. -/
theorem batches_accounted_twins :
    let twin (samplingSeed : ℕ) : EngineRequest :=
      { requestId := ['a'], promptTokens := 16, maxOutputTokens := 16, samplingSeed }
    let calls := [Call.submit (twin 1), .submit (twin 2),
      .submit { requestId := ['b'], promptTokens := 80 }, .runOneBatch, .clearCaches]
    ∃ start, new (fun _ _ _ => 0) { kvBlocks := 4 } = .ok start ∧
      (object.run calls start).results.map EngineResult.requestId = [['b'], ['a']] ∧
      ((object.run calls start).pending.map EngineRequest.requestId ++
        (object.run calls start).results.map EngineResult.requestId).Perm
          ((submitted calls).map EngineRequest.requestId) ∧
      (object.run calls start).runOneBatch.2.pendingCount <
        (object.run calls start).pendingCount := by
  intro twin calls
  have accepted : new (fun _ _ _ => 0) { kvBlocks := 4 } = .ok _ := rfl
  obtain ⟨ids, _, _, _, _, shrinks, _⟩ := batches_accounted accepted calls
  exact ⟨_, accepted, by decide +kernel, ids, shrinks (by decide +kernel)⟩

end InferSched.Engine.DeterministicEngine

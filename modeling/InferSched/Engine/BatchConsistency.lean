import Mathlib.Algebra.Order.Floor.Div
import InferSched.Engine.EngineRuns
import InferSched.Engine.KvCheck

/-! # Consistency of the batch and the caches

Between any two calls on a continuous engine, the KV cache holds exactly the
blocks of the batch and of the radix nodes. In particular clearing the prefix
cache of an engine with an empty batch frees every block.
-/

namespace InferSched.Engine

open Library

theorem blocksForTokens_eq_ceilDiv {blockSize : ℕ} (positive : 0 < blockSize) (tokens : ℕ) :
    blocksForTokens tokens blockSize = tokens ⌈/⌉ blockSize := by
  apply eq_of_forall_ge_iff
  intro blocks
  rw [blocksForTokens_le_iff positive, ceilDiv_le_iff_le_mul positive, Nat.mul_comm]

namespace ContinuousEngine

variable {η : Type}

/-- The sequences of the KV cache are the batch. -/
theorem Invariant.keys_perm {preparing : Bool} {engine : ContinuousEngine η}
    (invariant : engine.Invariant preparing) :
    engine.kvCache.sequenceBlocks.keys.Perm engine.activeIds :=
  (List.perm_ext_iff_of_nodup engine.kvCache.sequenceBlocks.keys_nodup invariant.distinct).mpr
    fun id => AList.mem_keys.symm.trans (invariant.sequences id)

/-- Clearing the prefix cache of an engine with an empty batch frees every block. -/
theorem Invariant.allocatedBlocks_clearCaches {preparing : Bool} {engine : ContinuousEngine η}
    (invariant : engine.Invariant preparing)
    (sized : engine.kvCache.totalBlocks < 2 ^ sizeBits) (empty : engine.active = []) :
    engine.clearCaches.kvCache.allocatedBlocks = 0 := by
  have cleared := invariant.clearCaches
  obtain ⟨_, unpinned, shrinks, _⟩ := invariant.linked.clear
  have unheld : ∀ block, engine.clearCaches.kvCache.holders block = 0 := by
    apply PagedKvCache.holders_eq_zero
    · intro id
      rw [AList.lookup_eq_none, cleared.sequences id]
      change id ∉ engine.active.map _
      rw [empty]
      exact List.not_mem_nil
    · intro key
      by_contra found
      obtain ⟨blocks, found⟩ := Option.ne_none_iff_exists'.mp found
      have pinned := PagedKvCache.mem_pins_iff.mpr found
      rw [cleared.linked.pins] at pinned
      change _ ∈ (Multiset.map RadixNode.pin (engine.prefixCache.clear engine.kvCache).1.nodes)
        at pinned
      rw [unpinned] at pinned
      exact Multiset.notMem_zero _ pinned
  have allFree : engine.clearCaches.kvCache.freeBlocks =
      engine.clearCaches.kvCache.totalBlocks :=
    cleared.linked.invariant.balanced.free_of_unheld unheld
  rw [PagedKvCache.allocatedBlocks, allFree, Word.sub_of_le le_rfl, Nat.sub_self]
  exact shrinks.totalBlocks.trans_lt sized

variable [RequestQueue η]

/-- The parts of a new engine. -/
theorem new_parts {draws : JitterDraws} {config : EngineConfig} {engine : ContinuousEngine η}
    (accepted : new draws config = .ok engine) :
    CostModel.new config.costModel config.seed draws = .ok engine.costModel ∧
      PagedKvCache.new config.kvBlocks config.kvBlockSizeTokens = .ok engine.kvCache ∧
      RadixPrefixCache.new config.prefixCacheEntries = .ok engine.prefixCache ∧
      ResultCache.new config.resultCacheEntries = .ok engine.resultCache ∧
      (0 < config.maxBatchSequences ∧ 0 < config.maxPrefillSequencesPerIteration) ∧
      engine =
        { config
          costModel := engine.costModel
          kvCache := engine.kvCache
          prefixCache := engine.prefixCache
          resultCache := engine.resultCache
          pending := PriorityQueue.empty } := by
  unfold new at accepted
  obtain ⟨costModel, cost, accepted⟩ := exists_of_bind_eq_ok accepted
  obtain ⟨kvCache, kv, accepted⟩ := exists_of_bind_eq_ok accepted
  obtain ⟨prefixCache, radix, accepted⟩ := exists_of_bind_eq_ok accepted
  obtain ⟨resultCache, stored, accepted⟩ := exists_of_bind_eq_ok accepted
  split at accepted
  · cases accepted
  · next limits =>
      cases accepted
      simp only [not_or] at limits
      exact ⟨cost, kv, radix, stored,
        ⟨Nat.pos_of_ne_zero limits.1, Nat.pos_of_ne_zero limits.2.2⟩, rfl⟩

/-- An accepted configuration gives an empty engine with empty caches. -/
theorem new_eq_ok {draws : JitterDraws} {config : EngineConfig} {engine : ContinuousEngine η}
    (accepted : new draws config = .ok engine) :
    PagedKvCache.new config.kvBlocks config.kvBlockSizeTokens = .ok engine.kvCache ∧
      RadixPrefixCache.new config.prefixCacheEntries = .ok engine.prefixCache ∧
      engine.config = config ∧ engine.active = [] ∧ engine.results = [] ∧
      engine.pending = PriorityQueue.empty ∧ engine.stats = {} ∧
      ResultCache.new config.resultCacheEntries = .ok engine.resultCache ∧
      0 < config.maxBatchSequences ∧ 0 < config.maxPrefillSequencesPerIteration := by
  obtain ⟨_, kv, radix, stored, ⟨sequences, prefills⟩, isEngine⟩ := new_parts accepted
  rw [isEngine]
  exact ⟨kv, radix, rfl, rfl, rfl, rfl, rfl, stored, sequences, prefills⟩

theorem Invariant.new {draws : JitterDraws} {config : EngineConfig} {engine : ContinuousEngine η}
    (accepted : ContinuousEngine.new draws config = .ok engine) :
    engine.Invariant false ∧ engine.kvCache.totalBlocks = config.kvBlocks ∧
      config.kvBlocks < 2 ^ 32 := by
  obtain ⟨kv, radix, isConfig, empty, _⟩ := new_eq_ok accepted
  have kvInvariant := PagedKvCache.Invariant.new kv
  obtain ⟨small, positive, isKv⟩ := PagedKvCache.new_eq_ok kv
  refine ⟨⟨?_, ?_, ?_, ?_, ?_, ?_, ?_, ?_, ?_, ?_⟩, ?_, small⟩
  · rw [isConfig]
    exact positive
  · exact RadixPrefixCache.Linked.new radix kvInvariant (by rw [isKv])
  · intro block
    rw [isKv]
    exact Nat.zero_le _
  · rw [activeIds, empty]
    exact List.nodup_nil
  · rw [empty]
    exact Nat.zero_le _
  · intro id
    rw [isKv, activeIds, empty]
    exact iff_of_false (AList.notMem_empty id) List.not_mem_nil
  · rw [empty]
    exact List.forall_mem_nil _
  · rw [empty]
    exact List.forall_mem_nil _
  · rw [empty]
    exact List.forall_mem_nil _
  · rw [empty]
    exact List.forall_mem_nil _
  · rw [isKv]
    exact List.length_replicate

/-- Every call keeps the invariant, the configuration and the number of blocks. -/
theorem respond_invariant (call : Call) {engine : ContinuousEngine η}
    (invariant : engine.Invariant false) :
    (object.respond call engine).2.Invariant false ∧
      (object.respond call engine).2.config = engine.config ∧
      (object.respond call engine).2.kvCache.totalBlocks = engine.kvCache.totalBlocks := by
  cases call with
  | submit request => exact ⟨invariant.congr rfl rfl rfl rfl, rfl, rfl⟩
  | runOneIteration =>
      have steps := runOneIteration_steps invariant
      exact ⟨steps.invariant invariant, steps.fixed invariant⟩
  | awaitArrival arrival => exact ⟨invariant.congr rfl rfl rfl rfl, rfl, rfl⟩
  | clearCaches =>
      obtain ⟨_, _, shrinks, _⟩ := invariant.linked.clear
      exact ⟨invariant.clearCaches, rfl, shrinks.totalBlocks⟩

/-- The invariant after every list of calls. -/
theorem invariant_run {start : ContinuousEngine η} (invariant : start.Invariant false)
    (calls : List Call) :
    (object.run calls start).Invariant false ∧ (object.run calls start).config = start.config ∧
      (object.run calls start).kvCache.totalBlocks = start.kvCache.totalBlocks := by
  apply @AtomicObject.invariant _ _ _ object fun engine => engine.Invariant false ∧
    engine.config = start.config ∧ engine.kvCache.totalBlocks = start.kvCache.totalBlocks
  · intro call engine holds
    obtain ⟨valid, sameConfig, sameTotal⟩ := respond_invariant call holds.1
    exact ⟨valid, sameConfig.trans holds.2.1, sameTotal.trans holds.2.2⟩
  · exact ⟨invariant, rfl, rfl⟩

/-- The invariant after every list of calls on a new engine. -/
theorem run_invariant {draws : JitterDraws} {config : EngineConfig} {start : ContinuousEngine η}
    (accepted : new draws config = .ok start) (calls : List Call) :
    (object.run calls start).Invariant false ∧ (object.run calls start).config = config ∧
      (object.run calls start).kvCache.totalBlocks = config.kvBlocks := by
  obtain ⟨invariant, total, _⟩ := Invariant.new accepted
  obtain ⟨valid, sameConfig, sameTotal⟩ := invariant_run invariant calls
  exact ⟨valid, sameConfig.trans (new_eq_ok accepted).2.2.1, sameTotal.trans total⟩

/-- Between any two calls, whatever was submitted: the batch has distinct ids and
at most the configured size; it is what the KV cache lists, every sequence with
exactly the blocks of its prompt and generated tokens; the pins are those of the
radix nodes; the KV cache is consistent, also in the eyes of its own check as
long as no block has `2 ^ 32` holders; and with an empty batch, clearing the
prefix cache leaves no block allocated. -/
theorem batch_consistent {draws : JitterDraws} {config : EngineConfig}
    {start : ContinuousEngine η} (accepted : new draws config = .ok start) (calls : List Call) :
    let engine := object.run calls start
    (engine.activeIds.Nodup ∧ engine.activeCount ≤ config.maxBatchSequences) ∧
    engine.kvCache.sequenceBlocks.keys.Perm engine.activeIds ∧
    (∀ active ∈ engine.active, (engine.kvCache.blocksFor active.request.requestId).length =
      (active.request.promptTokens + active.generatedTokens) ⌈/⌉ config.kvBlockSizeTokens) ∧
    engine.kvCache.pins = engine.prefixCache.nodes.map RadixNode.pin ∧
    engine.kvCache.Invariant ∧
    ((∀ block, engine.kvCache.holders block < 2 ^ 32) →
      engine.kvCache.checkInvariants = true) ∧
    (engine.active = [] → engine.clearCaches.kvCache.allocatedBlocks = 0) := by
  intro engine
  obtain ⟨invariant, isConfig, total⟩ := run_invariant accepted calls
  obtain ⟨_, _, small⟩ := Invariant.new accepted
  have sized : engine.kvCache.totalBlocks < 2 ^ sizeBits := by
    rw [total]
    exact small.trans (by decide)
  refine ⟨⟨invariant.distinct, ?_⟩, invariant.keys_perm, ?_, invariant.linked.pins,
    invariant.linked.invariant, ?_, invariant.allocatedBlocks_clearCaches sized⟩
  · rw [← isConfig]
    exact invariant.bounded
  · intro active member
    rw [← isConfig, ← blocksForTokens_eq_ceilDiv invariant.positive]
    rcases invariant.blocks active member with exact | ⟨impossible, _⟩
    · exact exact
    · cases impossible
  · intro fits
    exact (PagedKvCache.checkInvariants_iff _ sized fits).mpr
      (invariant.linked.invariant.exact fits)

/-- A request submitted twice: only one of the two is in the batch, and it is the
one sequence of the KV cache. -/
theorem batch_consistent_twins :
    let twin : EngineRequest :=
      { requestId := ['a'], promptTokens := 10, maxOutputTokens := 3,
        promptBlockHashes := [['h']] }
    let calls := [Call.submit twin, .submit twin, .runOneIteration, .clearCaches, .runOneIteration]
    ∃ start : ContinuousEngine (SelectionQueue EngineRequest),
      new (fun _ _ _ => 0) { kvBlocks := 4 } = .ok start ∧
      (object.run calls start).activeIds = [['a']] ∧
      (object.run calls start).kvCache.sequenceBlocks.keys.Perm
        (object.run calls start).activeIds := by
  intro twin calls
  have accepted : (new (fun _ _ _ => 0) { kvBlocks := 4 } :
    Except Text (ContinuousEngine (SelectionQueue EngineRequest))) = .ok _ := rfl
  exact ⟨_, accepted, by decide +kernel, (batch_consistent accepted calls).2.1⟩

end ContinuousEngine
end InferSched.Engine

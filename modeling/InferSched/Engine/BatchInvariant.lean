import InferSched.Engine.BatchAnswers
import InferSched.Engine.PrefixInvariant

/-! # The KV cache of the static engine

Between two batches of a static engine no sequence holds a block: the blocks in
use are those the prefix cache pins, each under one key. `Settled` says so, and
every batch keeps it. Within a batch the sequences are those of the batch, and a
sequence that found no cached prompt has its blocks for itself until its prompt
is cached.
-/

namespace InferSched.Engine

open Library

/-- The id of a sequence of a batch. -/
def BatchRequest.sequenceId (item : BatchRequest) : Text :=
  item.request.requestId

namespace DeterministicEngine

/-- What holds of the caches within a batch: `live` are the sequences with blocks,
`waiting` those whose prompt may still be cached. -/
structure Running (engine : DeterministicEngine) (waiting live : List BatchRequest) : Prop where
  invariant : engine.kvCache.Invariant
  pinned : engine.prefixCache.Pinned engine.kvCache
  unshared : ∀ block, engine.kvCache.prefixBlocks.holders block ≤ 1
  distinct : (live.map BatchRequest.sequenceId).Nodup
  sequences : ∀ id, id ∈ engine.kvCache.sequenceBlocks ↔ id ∈ live.map BatchRequest.sequenceId
  owned : ∀ item ∈ waiting, item.prefixCacheHit = false →
    ∀ block ∈ engine.kvCache.blocksFor item.sequenceId,
      engine.kvCache.Exclusive item.sequenceId block

/-- What holds between two batches. -/
def Settled (engine : DeterministicEngine) : Prop :=
  engine.Running [] []

theorem Running.congr {engine next : DeterministicEngine} {waiting live : List BatchRequest}
    (running : engine.Running waiting live) (kvCache : next.kvCache = engine.kvCache)
    (prefixCache : next.prefixCache = engine.prefixCache) : next.Running waiting live := by
  obtain ⟨invariant, pinned, unshared, distinct, sequences, owned⟩ := running
  refine ⟨?_, ?_, ?_, distinct, ?_, ?_⟩
  · rw [kvCache]
    exact invariant
  · rw [kvCache, prefixCache]
    exact pinned
  · rw [kvCache]
    exact unshared
  · rw [kvCache]
    exact sequences
  · rw [kvCache]
    exact owned

/-- A new engine has empty caches. -/
theorem Settled.new {draws : JitterDraws} {config : EngineConfig} {engine : DeterministicEngine}
    (accepted : DeterministicEngine.new draws config = .ok engine) :
    engine.Settled ∧ 0 < engine.config.kvBlockSizeTokens := by
  obtain ⟨kv, stored, _, isConfig, _⟩ := new_eq_ok accepted
  have invariant := PagedKvCache.Invariant.new kv
  obtain ⟨_, positive, isKv⟩ := PagedKvCache.new_eq_ok kv
  refine ⟨⟨invariant, .new stored (by rw [isKv]), ?_, List.nodup_nil, ?_,
    List.forall_mem_nil _⟩, ?_⟩
  · intro block
    rw [isKv]
    exact Nat.zero_le _
  · intro id
    rw [isKv]
    exact iff_of_false (AList.notMem_empty id) List.not_mem_nil
  · rw [isConfig]
    exact positive

/-! ### The scan -/

/-- The blocks a request shares are those of one pinned prefix, or none. -/
theorem matchPrefix_eq (engine : DeterministicEngine) (request : EngineRequest) :
    ((engine.matchPrefix request).1 = [] ∨
      engine.prefixCache.entries.lookup (prefixKey request) =
        some (engine.matchPrefix request).1) ∧
    (engine.matchPrefix request).1.length ≤ engine.promptBlocks request := by
  unfold matchPrefix
  dsimp only
  rw [PrefixCache.get_eq_lookup]
  cases found : engine.prefixCache.entries.lookup (prefixKey request) with
  | none => exact ⟨Or.inl rfl, Nat.zero_le _⟩
  | some blocks =>
      by_cases short : blocks.length ≤ engine.promptBlocks request
      · rw [Option.filter_some, if_pos (decide_eq_true short)]
        exact ⟨Or.inr rfl, short⟩
      · rw [Option.filter_some, if_neg (by simpa using short)]
        exact ⟨Or.inl rfl, Nat.zero_le _⟩

/-- A shared block is pinned. -/
theorem Running.shared_pinned {engine : DeterministicEngine} {waiting live : List BatchRequest}
    (running : engine.Running waiting live) (request : EngineRequest) :
    ∀ block ∈ (engine.matchPrefix request).1, 0 < engine.kvCache.prefixBlocks.holders block := by
  intro block member
  rcases (engine.matchPrefix_eq request).1 with none | found
  · rw [none] at member
    cases member
  · rw [← running.pinned.lookup] at found
    exact Holdings.holders_pos_iff.mpr ⟨_, _, found, member⟩

/-- An allocated request joins the batch. Its blocks are fresh when it shares none,
and no block it shares belongs to a sequence alone. -/
theorem Running.join {engine : DeterministicEngine} {batch : Batch} {request : EngineRequest}
    (running : engine.Running batch.active batch.active) (index : ℕ)
    (resultCache : ResultCache)
    (allocated : (engine.kvCache.allocate request.requestId (engine.requiredBlocks request)
      (engine.matchPrefix request).1).1 = .allocated) :
    Running
      { engine with
        resultCache := resultCache
        prefixCache := (engine.prefixCache.get (prefixKey request)).2
        kvCache := (engine.kvCache.allocate request.requestId (engine.requiredBlocks request)
          (engine.matchPrefix request).1).2 }
      (engine.join batch index request (engine.matchPrefix request).1).active
      (engine.join batch index request (engine.matchPrefix request).1).active ∧
    (engine.kvCache.allocate request.requestId (engine.requiredBlocks request)
      (engine.matchPrefix request).1).2.totalBlocks = engine.kvCache.totalBlocks := by
  have invariant := running.invariant.allocate request.requestId (engine.requiredBlocks request)
    (engine.matchPrefix request).1
  have sharedPinned := running.shared_pinned request
  rcases engine.kvCache.allocate_cases request.requestId (engine.requiredBlocks request)
    (engine.matchPrefix request).1 with ⟨refused, _⟩ | ⟨refused, _⟩ | ⟨refused, _⟩ |
    ⟨_, unknown, _, _, grant⟩
  · rw [refused] at allocated; cases allocated
  · rw [refused] at allocated; cases allocated
  · rw [refused] at allocated; cases allocated
  · have unlisted : request.requestId ∉ batch.active.map BatchRequest.sequenceId :=
      fun member => unknown ((running.sequences _).mpr member)
    refine ⟨⟨invariant, ⟨running.pinned.toListed.get _, fun key => ?_⟩, ?_, ?_, ?_, ?_⟩,
      grant.totalBlocks⟩
    · rw [PrefixCache.entries_get]
      dsimp only
      rw [grant.prefixes]
      exact running.pinned.lookup key
    · dsimp only
      rw [grant.prefixes]
      exact running.unshared
    · unfold DeterministicEngine.join
      dsimp only
      rw [List.map_append, List.map_singleton, List.nodup_append_comm, List.singleton_append,
        List.nodup_cons]
      exact ⟨unlisted, running.distinct⟩
    · intro id
      unfold DeterministicEngine.join
      dsimp only
      rw [grant.sequences, AList.mem_insert, List.map_append, List.mem_append, or_comm,
        running.sequences, List.map_singleton, List.mem_singleton]
      rfl
    · intro item member unshared block listed
      rcases List.mem_append.mp member with old | new
      · have known := (running.sequences item.sequenceId).mpr (List.mem_map_of_mem old)
        have different : item.sequenceId ≠ request.requestId :=
          fun same => unknown (same ▸ known)
        rw [PagedKvCache.blocksFor, grant.lookup_of_ne different, ← PagedKvCache.blocksFor]
          at listed
        have exclusive := running.owned item old unshared block listed
        refine exclusive.granted grant running.invariant
          (PagedKvCache.Invariant.held_of_sequence (PagedKvCache.lookup_of_mem known) block listed)
          fun shared => ?_
        exact absurd exclusive.unpinned (Nat.ne_of_gt (sharedPinned block shared))
      · cases List.mem_singleton.mp new
        have nothing : (engine.matchPrefix request).1 = [] := by simpa using unshared
        change block ∈ PagedKvCache.blocksFor _ request.requestId at listed
        rw [PagedKvCache.blocksFor_of_lookup grant.lookup_self] at listed
        rcases List.mem_append.mp listed with shared | fresh
        · rw [nothing] at shared
          cases shared
        · exact grant.exclusive_taken running.invariant fresh

theorem Running.turn {engine : DeterministicEngine} {batch : Batch} {index : ℕ}
    {request : EngineRequest} {after : DeterministicEngine × Batch}
    (running : engine.Running batch.active batch.active)
    (turn : Turn engine batch index request after) :
    after.1.Running after.2.active after.2.active ∧
      after.1.kvCache.totalBlocks = engine.kvCache.totalBlocks := by
  cases turn with
  | answered results found => exact ⟨running.congr rfl rfl, rfl⟩
  | passed results prefixes missing refused =>
      rcases prefixes with rfl | rfl
      · exact ⟨running.congr rfl rfl, rfl⟩
      · obtain ⟨invariant, pinned, unshared, distinct, sequences, owned⟩ := running
        exact ⟨⟨invariant, pinned.get _, unshared, distinct, sequences, owned⟩, rfl⟩
  | joined results missing counted allocated => exact running.join index _ allocated

theorem Running.scan {engine : DeterministicEngine} {batch : Batch} {later : List ℕ}
    (running : engine.Running batch.active batch.active) :
    (scanSelected later engine batch).1.Running (scanSelected later engine batch).2.active
        (scanSelected later engine batch).2.active ∧
      (scanSelected later engine batch).1.kvCache.totalBlocks = engine.kvCache.totalBlocks := by
  induction later generalizing engine batch with
  | nil => exact ⟨running, rfl⟩
  | cons index later ih =>
      unfold scanSelected
      split
      · exact ih running
      · next request _ =>
          obtain ⟨after, total⟩ :=
            running.turn (engine.considerRequest_turn batch index request)
          obtain ⟨rest, same⟩ := ih after
          exact ⟨rest, same.trans total⟩

/-! ### The run of a batch -/

/-- The prompt of the first waiting sequence is cached. Its blocks are its own, so
the sequences behind it keep theirs. -/
theorem Running.cachePrompt {engine : DeterministicEngine} {item : BatchRequest}
    {later live : List BatchRequest} (running : engine.Running (item :: later) live)
    (waiting : (item :: later).Sublist live) :
    (engine.cachePrompt item).Running later live ∧
      (engine.cachePrompt item).kvCache.totalBlocks = engine.kvCache.totalBlocks := by
  have skipped : engine.Running later live :=
    { running with
      owned := fun other member => running.owned other (List.mem_cons_of_mem _ member) }
  unfold DeterministicEngine.cachePrompt
  split
  · next condition =>
      have put := running.pinned.put running.invariant (prefixKey item.request)
        ((engine.kvCache.blocksFor item.request.requestId).take
          (min (engine.promptBlocks item.request)
            (engine.kvCache.blocksFor item.request.requestId).length))
      have own := running.owned item List.mem_cons_self condition.1
      have ids := running.distinct.sublist (waiting.map BatchRequest.sequenceId)
      refine ⟨⟨put.invariant, put.pinned, fun block => ?_, running.distinct, ?_, ?_⟩,
        put.totalBlocks⟩
      · refine (put.pins block).trans ?_
        split
        · next listed =>
            rw [(own block (List.mem_of_mem_take listed)).unpinned]
        · exact running.unshared block
      · dsimp only
        rw [put.sequences]
        exact running.sequences
      · intro other member unshared block listed
        dsimp only at listed ⊢
        rw [PagedKvCache.blocksFor, put.sequences, ← PagedKvCache.blocksFor] at listed
        have exclusive := skipped.owned other member unshared block listed
        refine ⟨by rw [put.sequences]; exact exclusive.alone, ?_⟩
        refine Nat.le_zero.mp ((put.pins block).trans ?_)
        rw [exclusive.unpinned, if_neg]
        intro pinned
        have known := (running.sequences item.sequenceId).mpr
          (List.mem_map_of_mem (waiting.subset List.mem_cons_self))
        have same := exclusive.alone _ _ (PagedKvCache.lookup_of_mem known)
          (List.mem_of_mem_take pinned)
        rw [List.map_cons, List.nodup_cons] at ids
        exact ids.1 (same ▸ List.mem_map_of_mem member)
  · exact ⟨skipped, rfl⟩

theorem Running.cachePrompts {engine : DeterministicEngine} {waiting live : List BatchRequest}
    (running : engine.Running waiting live) (sublist : waiting.Sublist live) :
    (waiting.foldl DeterministicEngine.cachePrompt engine).Running [] live ∧
      (waiting.foldl DeterministicEngine.cachePrompt engine).kvCache.totalBlocks =
        engine.kvCache.totalBlocks := by
  induction waiting generalizing engine with
  | nil => exact ⟨running, rfl⟩
  | cons item later ih =>
      obtain ⟨cached, total⟩ := running.cachePrompt sublist
      obtain ⟨rest, same⟩ := ih cached ((List.sublist_cons_self item later).trans sublist)
      exact ⟨rest, same.trans total⟩

/-- The first live sequence frees its blocks. -/
theorem Running.release {engine : DeterministicEngine} {item : BatchRequest}
    {later : List BatchRequest} (running : engine.Running [] (item :: later)) :
    { engine with kvCache := releaseSequence engine.kvCache item }.Running [] later ∧
      (releaseSequence engine.kvCache item).totalBlocks = engine.kvCache.totalBlocks := by
  obtain ⟨sequences, prefixes, totalBlocks⟩ :=
    engine.kvCache.free_tables item.request.requestId
  have distinct := running.distinct
  rw [List.map_cons] at distinct
  refine ⟨⟨running.invariant.free _, ⟨running.pinned.toListed, fun key => ?_⟩, ?_,
    (List.nodup_cons.mp distinct).2, ?_,
    List.forall_mem_nil _⟩, totalBlocks⟩
  · unfold releaseSequence
    rw [prefixes]
    exact running.pinned.lookup key
  · unfold releaseSequence
    dsimp only
    rw [prefixes]
    exact running.unshared
  · intro id
    unfold releaseSequence
    dsimp only
    rw [sequences, AList.mem_erase, running.sequences, List.map_cons, ← distinct.mem_erase_iff]
    change id ∈ (item.sequenceId :: later.map BatchRequest.sequenceId).erase item.sequenceId ↔ _
    rw [List.erase_cons_head]

theorem Running.releases {engine : DeterministicEngine} {live : List BatchRequest}
    (running : engine.Running [] live) :
    { engine with kvCache := live.foldl releaseSequence engine.kvCache }.Settled ∧
      (live.foldl releaseSequence engine.kvCache).totalBlocks = engine.kvCache.totalBlocks := by
  induction live generalizing engine with
  | nil => exact ⟨running, rfl⟩
  | cons item later ih =>
      obtain ⟨released, total⟩ := running.release
      obtain ⟨rest, same⟩ := ih released
      exact ⟨rest, same.trans total⟩

theorem Running.runBatch {engine : DeterministicEngine} {batch : Batch}
    (running : engine.Running batch.active batch.active) :
    (engine.runBatch batch).Settled ∧
      (engine.runBatch batch).kvCache.totalBlocks = engine.kvCache.totalBlocks := by
  obtain ⟨clock, costModel, prefilled⟩ := engine.runPrefill_eq batch
  have prefill : (engine.runPrefill batch).Running batch.active batch.active := by
    rw [prefilled]
    exact running.congr rfl rfl
  obtain ⟨cached, total⟩ := prefill.cachePrompts (List.Sublist.refl _)
  obtain ⟨settled, same⟩ := cached.releases
  obtain ⟨_, _, ran⟩ := engine.runBatch_eq batch
  rw [ran]
  refine ⟨settled.congr rfl rfl, same.trans (total.trans ?_)⟩
  rw [prefilled]

/-- Every batch leaves the engine settled. -/
theorem Settled.runOneBatch {engine : DeterministicEngine} (settled : engine.Settled) :
    engine.runOneBatch.2.Settled ∧
      engine.runOneBatch.2.kvCache.totalBlocks = engine.kvCache.totalBlocks := by
  obtain ⟨_, remaining, new, after, _⟩ := rejectFrom_spec (List.nil_append engine.pending).symm
  unfold DeterministicEngine.runOneBatch rejectImpossibleReadyRequests
  dsimp only
  rw [after]
  unfold runSelected
  split
  · exact ⟨settled.congr rfl rfl, rfl⟩
  · have scan := @Running.scan { engine with
      pending := [] ++ remaining, results := engine.results ++ new } {}
      (selected { engine with pending := [] ++ remaining, results := engine.results ++ new })
      (settled.congr rfl rfl)
    exact ⟨scan.1.runBatch.1, scan.1.runBatch.2.trans scan.2⟩

end DeterministicEngine
end InferSched.Engine

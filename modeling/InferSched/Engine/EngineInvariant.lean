import InferSched.Engine.EngineSteps

/-! # The invariant of the engine

`ContinuousEngine.Invariant` relates the batch, the KV cache and the prefix cache
of a continuous engine. The sequences of the KV cache are the active requests,
each with the blocks its tokens need; the pins are those of the radix nodes; and
the blocks of a sequence past the hashed part of its prompt belong to that
sequence alone. Every elementary step keeps it.
-/

namespace InferSched.Engine

open Library

namespace ContinuousEngine

variable {η : Type}

/-- The ids of the batch. -/
def activeIds (engine : ContinuousEngine η) : List Text :=
  engine.active.map fun active => active.request.requestId

/-- What holds between the elementary steps; while the batch is being given
blocks a sequence may have those of its next token already. -/
structure Invariant (engine : ContinuousEngine η) (preparing : Bool) : Prop where
  positive : 0 < engine.config.kvBlockSizeTokens
  linked : engine.prefixCache.Linked engine.kvCache
  unshared : RadixPrefixCache.Unshared engine.kvCache
  distinct : engine.activeIds.Nodup
  bounded : engine.active.length ≤ engine.config.maxBatchSequences
  sequences : ∀ id, id ∈ engine.kvCache.sequenceBlocks ↔ id ∈ engine.activeIds
  possible : ∀ active ∈ engine.active, engine.impossibleReason active.request = none
  blocks : ∀ active ∈ engine.active,
    engine.currentBlocks active = blocksForTokens
      (active.request.promptTokens + active.generatedTokens) engine.config.kvBlockSizeTokens ∨
    (preparing = true ∧ engine.currentBlocks active = engine.neededBlocks active)
  owned : ∀ active ∈ engine.active,
    ∀ block ∈ (engine.kvCache.blocksFor active.request.requestId).drop
      (engine.candidateHashes active.request).length,
      engine.kvCache.Exclusive active.request.requestId block
  unfinished : ∀ active ∈ engine.active,
    active.generatedTokens + (if preparing then 1 else 0) ≤ active.request.maxOutputTokens

theorem impossibleReason_congr {engine next : ContinuousEngine η}
    (config : next.config = engine.config)
    (totalBlocks : next.kvCache.totalBlocks = engine.kvCache.totalBlocks)
    (request : EngineRequest) :
    next.impossibleReason request = engine.impossibleReason request := by
  unfold impossibleReason
  rw [config, totalBlocks]

theorem candidateHashes_congr {engine next : ContinuousEngine η}
    (config : next.config = engine.config) (request : EngineRequest) :
    next.candidateHashes request = engine.candidateHashes request := by
  unfold candidateHashes promptBlocks
  rw [config]

theorem neededBlocks_congr {engine next : ContinuousEngine η}
    (config : next.config = engine.config) (active : ActiveRequest) :
    next.neededBlocks active = engine.neededBlocks active := by
  unfold neededBlocks
  rw [config]

theorem candidateHashes_length_le (engine : ContinuousEngine η) (request : EngineRequest) :
    (engine.candidateHashes request).length ≤ engine.promptBlocks request := by
  rw [candidateHashes, List.length_take]
  omega

namespace Invariant

variable {engine next : ContinuousEngine η} {preparing : Bool}

/-- Fewer pins and the same batch. -/
theorem frame (invariant : engine.Invariant preparing) (config : next.config = engine.config)
    (active : next.active = engine.active) (linked : next.prefixCache.Linked next.kvCache)
    (shrinks : engine.kvCache.Shrinks next.kvCache) : next.Invariant preparing := by
  refine ⟨?_, linked, ?_, ?_, ?_, ?_, ?_, ?_, ?_, ?_⟩
  · rw [config]
    exact invariant.positive
  · exact fun block => (shrinks.fewer block).trans (invariant.unshared block)
  · rw [activeIds, active]
    exact invariant.distinct
  · rw [active, config]
    exact invariant.bounded
  · rw [activeIds, active, shrinks.sequences]
    exact invariant.sequences
  · intro member isActive
    rw [active] at isActive
    rw [impossibleReason_congr config shrinks.totalBlocks]
    exact invariant.possible member isActive
  · intro member isActive
    rw [active] at isActive
    rw [currentBlocks, neededBlocks_congr config, shrinks.blocksFor, config]
    exact invariant.blocks member isActive
  · intro member isActive block listed
    rw [active] at isActive
    rw [shrinks.blocksFor, candidateHashes_congr config] at listed
    exact (invariant.owned member isActive block listed).shrinks shrinks
  · intro member isActive
    rw [active] at isActive
    exact invariant.unfinished member isActive

/-- A sequence leaves the batch and the KV cache. -/
theorem remove (invariant : engine.Invariant preparing) {kept later : List ActiveRequest}
    {leaving : ActiveRequest} (config : next.config = engine.config)
    (prefixCache : next.prefixCache = engine.prefixCache)
    (split : engine.active = kept ++ leaving :: later) (active : next.active = kept ++ later)
    (freed : next.kvCache = (engine.kvCache.free leaving.request.requestId).2) :
    next.Invariant preparing := by
  obtain ⟨sequences, prefixes, totalBlocks⟩ :=
    engine.kvCache.free_tables leaving.request.requestId
  rw [← freed] at sequences prefixes totalBlocks
  have sub : ∀ member ∈ next.active, member ∈ engine.active := by
    intro member isActive
    rw [active] at isActive
    rw [split]
    rcases List.mem_append.mp isActive with before | after
    · exact List.mem_append_left _ before
    · exact List.mem_append_right _ (List.mem_cons_of_mem _ after)
  have ids : engine.activeIds.Perm (leaving.request.requestId :: next.activeIds) := by
    rw [activeIds, activeIds, split, active, List.map_append, List.map_append, List.map_cons]
    exact List.perm_middle
  have distinct := ids.nodup_iff.mp invariant.distinct
  have others : ∀ member ∈ next.active,
      member.request.requestId ≠ leaving.request.requestId := by
    intro member isActive same
    apply (List.nodup_cons.mp distinct).1
    rw [← same]
    exact List.mem_map_of_mem isActive
  refine ⟨?_, ?_, ?_, (List.nodup_cons.mp distinct).2, ?_, ?_, ?_, ?_, ?_, ?_⟩
  · rw [config]
    exact invariant.positive
  · rw [prefixCache]
    refine invariant.linked.of_prefixBlocks ?_ prefixes
    rw [freed]
    exact invariant.linked.invariant.free _
  · intro block
    rw [prefixes]
    exact invariant.unshared block
  · have fewer : next.active.length + 1 = engine.active.length := by
      rw [active, split, List.length_append, List.length_append, List.length_cons]
      omega
    have bounded := invariant.bounded
    rw [config]
    omega
  · intro id
    rw [sequences, AList.mem_erase, invariant.sequences, ids.mem_iff, ← distinct.mem_erase_iff,
      List.erase_cons_head]
  · intro member isActive
    rw [impossibleReason_congr config totalBlocks]
    exact invariant.possible member (sub member isActive)
  · intro member isActive
    rw [currentBlocks, neededBlocks_congr config, config, freed,
      PagedKvCache.blocksFor_free (others member isActive)]
    exact invariant.blocks member (sub member isActive)
  · intro member isActive block listed
    rw [freed, PagedKvCache.blocksFor_free (others member isActive),
      candidateHashes_congr config] at listed
    rw [freed]
    exact (invariant.owned member (sub member isActive) block listed).free _
  · exact fun member isActive => invariant.unfinished member (sub member isActive)

/-- The blocks of an active request. -/
theorem lookup (invariant : engine.Invariant preparing) {active : ActiveRequest}
    (member : active ∈ engine.active) :
    engine.kvCache.sequenceBlocks.lookup active.request.requestId =
      some (engine.kvCache.blocksFor active.request.requestId) :=
  PagedKvCache.lookup_of_mem ((invariant.sequences _).mpr (List.mem_map_of_mem member))

/-- Requests of the batch with the same id are the same. -/
theorem eq_of_id (invariant : engine.Invariant preparing) {first second : ActiveRequest}
    (one : first ∈ engine.active) (two : second ∈ engine.active)
    (same : first.request.requestId = second.request.requestId) : first = second :=
  List.inj_on_of_nodup_map invariant.distinct one two same

/-- A sequence gets the blocks of its next token. -/
theorem grow (invariant : engine.Invariant true) {growing : ActiveRequest} {taken : ℕ}
    (config : next.config = engine.config) (prefixCache : next.prefixCache = engine.prefixCache)
    (active : next.active = engine.active) (member : growing ∈ engine.active)
    (enough : engine.currentBlocks growing + taken = engine.neededBlocks growing)
    (kvInvariant : next.kvCache.Invariant)
    (grant : PagedKvCache.Granted engine.kvCache next.kvCache growing.request.requestId
      (engine.kvCache.blocksFor growing.request.requestId) [] taken) :
    next.Invariant true := by
  have after := PagedKvCache.blocksFor_of_lookup grant.lookup_self
  have sameBlocks : ∀ other ∈ engine.active, other ≠ growing →
      next.kvCache.blocksFor other.request.requestId =
        engine.kvCache.blocksFor other.request.requestId := by
    intro other isActive different
    rw [PagedKvCache.blocksFor, PagedKvCache.blocksFor, grant.lookup_of_ne]
    exact fun same => different (invariant.eq_of_id isActive member same)
  have kept : ∀ other ∈ engine.active,
      ∀ block ∈ (engine.kvCache.blocksFor other.request.requestId).drop
        (engine.candidateHashes other.request).length,
        next.kvCache.Exclusive other.request.requestId block := by
    intro other isActive block listed
    refine (invariant.owned other isActive block listed).granted grant
      invariant.linked.invariant ?_ ?_
    · exact PagedKvCache.Invariant.held_of_sequence (invariant.lookup isActive) block
        (List.mem_of_mem_drop listed)
    · exact (invariant.owned other isActive block listed).alone _ _ (invariant.lookup member)
  refine ⟨?_, ?_, ?_, ?_, ?_, ?_, ?_, ?_, ?_, ?_⟩
  · rw [config]
    exact invariant.positive
  · rw [prefixCache]
    exact invariant.linked.of_prefixBlocks kvInvariant grant.prefixes
  · intro block
    rw [grant.prefixes]
    exact invariant.unshared block
  · rw [activeIds, active]
    exact invariant.distinct
  · rw [active, config]
    exact invariant.bounded
  · intro id
    rw [grant.sequences, AList.mem_insert, invariant.sequences, activeIds, activeIds, active]
    refine ⟨?_, Or.inr⟩
    rintro (rfl | known)
    · exact List.mem_map_of_mem member
    · exact known
  · intro other isActive
    rw [active] at isActive
    rw [impossibleReason_congr config grant.totalBlocks]
    exact invariant.possible other isActive
  · intro other isActive
    rw [active] at isActive
    rw [neededBlocks_congr config, config]
    by_cases same : other = growing
    · subst same
      refine Or.inr ⟨rfl, ?_⟩
      rw [currentBlocks, grant.length_self]
      exact enough
    · rw [currentBlocks, sameBlocks other isActive same]
      exact invariant.blocks other isActive
  · intro other isActive block listed
    rw [active] at isActive
    rw [candidateHashes_congr config] at listed
    by_cases same : other = growing
    · subst same
      rw [after, List.drop_append] at listed
      rcases List.mem_append.mp listed with old | fresh
      · exact kept other isActive block old
      · exact grant.exclusive_taken invariant.linked.invariant (List.mem_of_mem_drop fresh)
    · rw [sameBlocks other isActive same] at listed
      exact kept other isActive block listed
  · intro other isActive
    rw [active] at isActive
    exact invariant.unfinished other isActive

/-- Every sequence has the blocks of its next token and gets that token. -/
theorem decode (invariant : engine.Invariant true) (prepared : ∀ active ∈ engine.active,
    engine.neededBlocks active ≤ engine.currentBlocks active) :
    engine.decodeBatch.Invariant false := by
  have ids : engine.decodeBatch.activeIds = engine.activeIds := by
    unfold activeIds decodeBatch
    rw [List.map_map]
    rfl
  have decoded : ∀ active ∈ engine.decodeBatch.active, ∃ before ∈ engine.active,
      active.request = before.request ∧ active.generatedTokens = before.generatedTokens + 1 := by
    intro active member
    obtain ⟨before, isActive, rfl⟩ := List.mem_map.mp member
    exact ⟨before, isActive, rfl, rfl⟩
  refine ⟨invariant.positive, invariant.linked, invariant.unshared, ?_, ?_, ?_, ?_, ?_, ?_, ?_⟩
  · rw [ids]
    exact invariant.distinct
  · have sameLength : engine.decodeBatch.active.length = engine.active.length :=
      List.length_map _
    rw [sameLength]
    exact invariant.bounded
  · rw [ids]
    exact invariant.sequences
  · intro active member
    obtain ⟨before, isActive, request, _⟩ := decoded active member
    rw [request]
    exact invariant.possible before isActive
  · intro active member
    obtain ⟨before, isActive, request, tokens⟩ := decoded active member
    left
    rw [currentBlocks, request, tokens]
    have enough := prepared before isActive
    have grown := blocksForTokens_mono invariant.positive
      (Nat.le_succ (before.request.promptTokens + before.generatedTokens))
    rcases invariant.blocks before isActive with exact | ⟨_, exact⟩
    · exact Nat.le_antisymm (exact.le.trans grown) enough
    · exact exact
  · intro active member block listed
    obtain ⟨before, isActive, request, _⟩ := decoded active member
    rw [request] at listed ⊢
    exact invariant.owned before isActive block listed
  · intro active member
    obtain ⟨before, isActive, request, tokens⟩ := decoded active member
    rw [request, tokens]
    exact invariant.unfinished before isActive

/-- What an admission does to the caches: the sequence lists the shared prefix and
blocks that were free, and only the hashed ones of these are pinned. -/
structure Stored (kvCache : PagedKvCache) (prefixCache : RadixPrefixCache)
    (kvNext : PagedKvCache) (sequenceId : Text) (shared fresh : List BlockId) (hashed : ℕ) :
    Prop where
  linked : prefixCache.Linked kvNext
  totalBlocks : kvNext.totalBlocks = kvCache.totalBlocks
  sequences : kvNext.sequenceBlocks = kvCache.sequenceBlocks.insert sequenceId (shared ++ fresh)
  distinct : (shared ++ fresh).Nodup
  unheld : ∀ block ∈ fresh, kvCache.holders block = 0
  pinned : ∀ block, kvNext.prefixBlocks.holders block ≤ kvCache.prefixBlocks.holders block +
    if block ∈ fresh.take (hashed - shared.length) then 1 else 0

namespace Stored

variable {kvCache kvNext : PagedKvCache} {prefixCache : RadixPrefixCache} {sequenceId : Text}
  {shared fresh : List BlockId} {hashed : ℕ}

theorem lookup_self (stored : Stored kvCache prefixCache kvNext sequenceId shared fresh hashed) :
    kvNext.sequenceBlocks.lookup sequenceId = some (shared ++ fresh) := by
  rw [stored.sequences, AList.lookup_insert]

theorem lookup_of_ne (stored : Stored kvCache prefixCache kvNext sequenceId shared fresh hashed)
    {other : Text} (different : other ≠ sequenceId) :
    kvNext.sequenceBlocks.lookup other = kvCache.sequenceBlocks.lookup other := by
  rw [stored.sequences, AList.lookup_insert_ne different]

theorem unpinned (stored : Stored kvCache prefixCache kvNext sequenceId shared fresh hashed)
    {block : BlockId} (outside : block ∉ fresh.take (hashed - shared.length))
    (none : kvCache.prefixBlocks.holders block = 0) : kvNext.prefixBlocks.holders block = 0 := by
  have bound := stored.pinned block
  rw [if_neg outside, none] at bound
  exact Nat.le_zero.mp bound

/-- The hashed blocks were free, so no block is pinned twice. -/
theorem unshared (stored : Stored kvCache prefixCache kvNext sequenceId shared fresh hashed)
    (before : RadixPrefixCache.Unshared kvCache) : RadixPrefixCache.Unshared kvNext := by
  intro block
  have bound := stored.pinned block
  split at bound
  · next member =>
      have none := stored.unheld block (List.mem_of_mem_take member)
      unfold PagedKvCache.holders at none
      omega
  · exact bound.trans (before block)

/-- The blocks that other sequences have alone stay theirs: the shared prefix is
pinned, and the other blocks were free. -/
theorem exclusive_kept
    (stored : Stored kvCache prefixCache kvNext sequenceId shared fresh hashed)
    (pinned : ∀ block ∈ shared, kvCache.prefixBlocks.holders block = 1) {other : Text}
    {block : BlockId} (exclusive : kvCache.Exclusive other block)
    (held : 0 < kvCache.holders block) : kvNext.Exclusive other block := by
  have notFresh : block ∉ fresh := fun isFresh =>
    absurd (stored.unheld block isFresh) (Nat.ne_of_gt held)
  refine ⟨?_, stored.unpinned (fun taken => notFresh (List.mem_of_mem_take taken))
    exclusive.unpinned⟩
  intro holder blocks found inside
  by_cases same : holder = sequenceId
  · subst same
    rw [stored.lookup_self] at found
    cases found
    rcases List.mem_append.mp inside with isShared | isFresh
    · have one := pinned block isShared
      rw [exclusive.unpinned] at one
      cases one
    · exact absurd isFresh notFresh
  · rw [stored.lookup_of_ne same] at found
    exact exclusive.alone holder blocks found inside

/-- The new sequence has the blocks past the hashed ones alone. -/
theorem exclusive_fresh
    (stored : Stored kvCache prefixCache kvNext sequenceId shared fresh hashed) {block : BlockId}
    (listed : block ∈ fresh.drop (hashed - shared.length)) :
    kvNext.Exclusive sequenceId block := by
  have none := stored.unheld block (List.mem_of_mem_drop listed)
  refine ⟨?_, stored.unpinned ?_ (Nat.eq_zero_of_add_eq_zero_left none)⟩
  · intro other blocks found inside
    by_contra different
    rw [stored.lookup_of_ne different] at found
    exact absurd none (Nat.ne_of_gt
      (PagedKvCache.Invariant.held_of_sequence found block inside))
  · intro taken
    exact List.disjoint_take_drop (List.nodup_append.mp stored.distinct).2.1 (le_refl _) taken
      listed

end Stored
end Invariant

/-- The caches after `cachePrompt`. -/
theorem cachePrompt_stored {engine : ContinuousEngine η} {candidate : EngineRequest}
    {kvCache : PagedKvCache} {shared fresh : List BlockId}
    (linked : engine.prefixCache.Linked engine.kvCache)
    (sequences : engine.kvCache.sequenceBlocks =
      kvCache.sequenceBlocks.insert candidate.requestId (shared ++ fresh))
    (prefixes : engine.kvCache.prefixBlocks = kvCache.prefixBlocks)
    (totalBlocks : engine.kvCache.totalBlocks = kvCache.totalBlocks)
    (length : (shared ++ fresh).length = engine.promptBlocks candidate)
    (unheld : ∀ block ∈ fresh, kvCache.holders block = 0)
    (longest : shared = RadixPrefixCache.longest (engine.candidateHashes candidate)
      (engine.prefixCache.forestOf (prefixNamespace candidate))) :
    Invariant.Stored kvCache (engine.cachePrompt candidate).prefixCache
      (engine.cachePrompt candidate).kvCache candidate.requestId shared fresh
      (engine.candidateHashes candidate).length := by
  have found : engine.kvCache.sequenceBlocks.lookup candidate.requestId =
      some (shared ++ fresh) := by
    rw [sequences, AList.lookup_insert]
  have distinct := linked.invariant.sequences_nodup _ _ found
  unfold cachePrompt
  split
  · refine ⟨linked, totalBlocks, sequences, distinct, unheld, ?_⟩
    intro block
    rw [prefixes]
    exact Nat.le_add_right _ _
  · have whole : (shared ++ fresh).take
        (min (shared ++ fresh).length (engine.promptBlocks candidate)) = shared ++ fresh := by
      rw [← length, Nat.min_self, List.take_length]
    dsimp only
    rw [PagedKvCache.blocksFor_of_lookup found, whole]
    obtain ⟨after, keptSequences, keptTotal, _, _, pinned⟩ := linked.putBlockPrefixes
      (prefixNamespace candidate) (engine.candidateHashes candidate) (shared ++ fresh)
    refine ⟨after, keptTotal.trans totalBlocks, keptSequences.trans sequences, distinct, unheld, ?_⟩
    intro block
    have enough : (engine.candidateHashes candidate).length ≤ (shared ++ fresh).length := by
      rw [length]
      exact engine.candidateHashes_length_le candidate
    have unmatched := RadixPrefixCache.unmatched_zip enough longest.symm
    have bound := pinned block
    rw [unmatched, prefixes] at bound
    refine bound.trans (Nat.add_le_add_left ?_ _)
    have freshDistinct : (fresh.take
        ((engine.candidateHashes candidate).length - shared.length)).Nodup :=
      (List.nodup_append.mp distinct).2.1.sublist (List.take_sublist _ _)
    rw [freshDistinct.count]

namespace Invariant

variable {engine next : ContinuousEngine η}

/-- A request joins the batch with the blocks of its prompt. -/
theorem join (invariant : engine.Invariant false) {joining : ActiveRequest}
    {shared fresh : List BlockId} (config : next.config = engine.config)
    (active : next.active = engine.active ++ [joining])
    (room : engine.active.length < engine.config.maxBatchSequences)
    (possible : engine.impossibleReason joining.request = none)
    (starts : joining.generatedTokens = 0)
    (unknown : joining.request.requestId ∉ engine.kvCache.sequenceBlocks)
    (length : (shared ++ fresh).length = engine.promptBlocks joining.request)
    (short : shared.length ≤ (engine.candidateHashes joining.request).length)
    (pinned : ∀ block ∈ shared, engine.kvCache.prefixBlocks.holders block = 1)
    (stored : Stored engine.kvCache next.prefixCache next.kvCache joining.request.requestId
      shared fresh (engine.candidateHashes joining.request).length) :
    next.Invariant false := by
  have fresh_id : ∀ other ∈ engine.active,
      other.request.requestId ≠ joining.request.requestId := by
    intro other isActive same
    apply unknown
    rw [invariant.sequences, ← same]
    exact List.mem_map_of_mem isActive
  have sameBlocks : ∀ other ∈ engine.active, next.kvCache.blocksFor other.request.requestId =
      engine.kvCache.blocksFor other.request.requestId := by
    intro other isActive
    rw [PagedKvCache.blocksFor, PagedKvCache.blocksFor,
      stored.lookup_of_ne (fresh_id other isActive)]
  have cases : ∀ member ∈ next.active, member ∈ engine.active ∨ member = joining := by
    intro member isActive
    rw [active] at isActive
    exact (List.mem_append.mp isActive).imp_right List.mem_singleton.mp
  have newBlocks := PagedKvCache.blocksFor_of_lookup stored.lookup_self
  refine ⟨?_, stored.linked, stored.unshared invariant.unshared, ?_, ?_, ?_, ?_, ?_, ?_, ?_⟩
  · rw [config]
    exact invariant.positive
  · rw [activeIds, active, List.map_append]
    apply List.nodup_append.mpr
    refine ⟨invariant.distinct, List.nodup_singleton _, ?_⟩
    intro id known other single
    rw [List.map_singleton, List.mem_singleton] at single
    rintro rfl
    exact unknown ((invariant.sequences _).mpr (single ▸ known))
  · rw [active, config, List.length_append, List.length_singleton]
    exact room
  · intro id
    rw [stored.sequences, AList.mem_insert, invariant.sequences, activeIds, activeIds, active,
      List.map_append, List.mem_append, List.map_singleton, List.mem_singleton, or_comm]
  · intro member isActive
    rw [impossibleReason_congr config stored.totalBlocks]
    rcases cases member isActive with old | rfl
    · exact invariant.possible member old
    · exact possible
  · intro member isActive
    rw [neededBlocks_congr config, config]
    rcases cases member isActive with old | rfl
    · rw [currentBlocks, sameBlocks member old]
      exact invariant.blocks member old
    · left
      rw [currentBlocks, newBlocks, length, starts]
      rfl
  · intro member isActive block listed
    rw [candidateHashes_congr config] at listed
    rcases cases member isActive with old | rfl
    · rw [sameBlocks member old] at listed
      exact stored.exclusive_kept pinned (invariant.owned member old block listed)
        (PagedKvCache.Invariant.held_of_sequence (invariant.lookup old) block
          (List.mem_of_mem_drop listed))
    · rw [newBlocks, List.drop_append, List.drop_eq_nil_of_le short, List.nil_append] at listed
      exact stored.exclusive_fresh listed
  · intro member isActive
    rcases cases member isActive with old | rfl
    · exact invariant.unfinished member old
    · rw [starts]
      exact Nat.zero_le _

/-- Only the fields the invariant does not read change. -/
theorem congr {preparing : Bool} (invariant : engine.Invariant preparing)
    (config : next.config = engine.config) (active : next.active = engine.active)
    (prefixCache : next.prefixCache = engine.prefixCache)
    (kvCache : next.kvCache = engine.kvCache) : next.Invariant preparing := by
  apply invariant.frame config active
  · rw [prefixCache, kvCache]
    exact invariant.linked
  · rw [kvCache]
    exact .refl _

theorem clearCaches {preparing : Bool} (invariant : engine.Invariant preparing) :
    engine.clearCaches.Invariant preparing := by
  obtain ⟨linked, _, shrinks, _⟩ := invariant.linked.clear
  exact invariant.frame rfl rfl linked shrinks

theorem matchPrefix {preparing : Bool} (invariant : engine.Invariant preparing)
    (candidate : EngineRequest) : (engine.matchPrefix candidate).2.Invariant preparing := by
  unfold ContinuousEngine.matchPrefix
  split
  · exact invariant
  · obtain ⟨linked, _⟩ := invariant.linked.getLongest (prefixNamespace candidate)
      (engine.candidateHashes candidate)
    exact invariant.frame rfl rfl linked (.refl _)

theorem evictOldest {preparing : Bool} (invariant : engine.Invariant preparing) :
    engine.evictOldest.2.Invariant preparing := by
  unfold ContinuousEngine.evictOldest
  rcases invariant.linked.evictOldest with ⟨result, _⟩ | ⟨next, kvNext, result, evicted, _⟩
  · rw [result]
    exact invariant.congr rfl rfl rfl rfl
  · rw [result]
    exact invariant.frame rfl rfl evicted.linked evicted.shrinks

/-- What an admission with the longest cached prefix does to the batch and the
caches. -/
theorem admission_stored {preparing : Bool} (invariant : engine.Invariant preparing)
    {candidate : EngineRequest} {matched : Option (List BlockId)}
    (longest : matched.getD [] = RadixPrefixCache.longest (engine.candidateHashes candidate)
      (engine.prefixCache.forestOf (prefixNamespace candidate)))
    (allocated : (engine.kvCache.allocate candidate.requestId (engine.promptBlocks candidate)
      (matched.getD [])).1 = .allocated)
    (isNext : next = { engine with
      kvCache := (engine.kvCache.allocate candidate.requestId (engine.promptBlocks candidate)
        (matched.getD [])).2 }.admitCandidate candidate matched) :
    next.config = engine.config ∧
      next.active = engine.active ++
        [{ request := candidate, state := .decode, prefixCacheHit := matched.isSome }] ∧
      candidate.requestId ∉ engine.kvCache.sequenceBlocks ∧
      ∃ fresh, (matched.getD [] ++ fresh).length = engine.promptBlocks candidate ∧
        Stored engine.kvCache next.prefixCache next.kvCache candidate.requestId
          (matched.getD []) fresh (engine.candidateHashes candidate).length := by
  have kvInvariant := invariant.linked.invariant.allocate candidate.requestId
    (engine.promptBlocks candidate) (matched.getD [])
  rcases engine.kvCache.allocate_cases candidate.requestId (engine.promptBlocks candidate)
    (matched.getD []) with
    ⟨refused, _⟩ | ⟨refused, _⟩ | ⟨refused, _⟩ | ⟨_, unknown, short, _, grant⟩
  · rw [refused] at allocated
    cases allocated
  · rw [refused] at allocated
    cases allocated
  · rw [refused] at allocated
    cases allocated
  · generalize (engine.kvCache.allocate candidate.requestId (engine.promptBlocks candidate)
      (matched.getD [])).2 = kvCache at isNext kvInvariant grant
    obtain ⟨config, _, _, _, active⟩ :=
      admitCandidate_frame { engine with kvCache := kvCache } candidate matched
    obtain ⟨_, _, _, _, admitted⟩ :=
      admitCandidate_eq { engine with kvCache := kvCache } candidate matched
    have length : (matched.getD [] ++ engine.kvCache.freeList.take
        (engine.promptBlocks candidate - (matched.getD []).length)).length =
        engine.promptBlocks candidate := by
      rw [List.length_append, List.length_take_of_le grant.enough]
      exact Nat.add_sub_of_le short
    refine ⟨isNext ▸ config, isNext ▸ active, unknown, _, length, ?_⟩
    rw [isNext, admitted]
    exact @cachePrompt_stored _ { engine with kvCache := kvCache } candidate engine.kvCache
      _ _ (invariant.linked.of_prefixBlocks kvInvariant grant.prefixes) grant.sequences
      grant.prefixes grant.totalBlocks length
      (fun block => invariant.linked.invariant.unheld_of_take) longest

/-- An admission keeps the invariant. -/
theorem admission (invariant : engine.Invariant false) {candidate : EngineRequest}
    {matched : Option (List BlockId)} (possible : engine.impossibleReason candidate = none)
    (room : engine.active.length < engine.config.maxBatchSequences)
    (longest : matched.getD [] = RadixPrefixCache.longest (engine.candidateHashes candidate)
      (engine.prefixCache.forestOf (prefixNamespace candidate)))
    (allocated : (engine.kvCache.allocate candidate.requestId (engine.promptBlocks candidate)
      (matched.getD [])).1 = .allocated) :
    ({ engine with
      kvCache := (engine.kvCache.allocate candidate.requestId (engine.promptBlocks candidate)
        (matched.getD [])).2 }.admitCandidate candidate matched).Invariant false := by
  obtain ⟨config, active, unknown, fresh, length, stored⟩ :=
    invariant.admission_stored longest allocated rfl
  obtain ⟨_, shared⟩ := invariant.linked.longest_sharable invariant.unshared
    (prefixNamespace candidate) (engine.candidateHashes candidate)
  refine invariant.join config active room possible rfl unknown length ?_ ?_ stored
  · rw [longest]
    exact RadixPrefixCache.longest_length _ _
  · rw [longest]
    exact shared

/-- A preemption removes one sequence, when there is one. -/
theorem preempt [RequestQueue η] {preparing : Bool} (invariant : engine.Invariant preparing)
    (index : ℕ) : (engine.preempt index).Invariant preparing := by
  unfold ContinuousEngine.preempt
  cases found : engine.active[index]? with
  | none => exact invariant
  | some victim =>
      obtain ⟨inside, isVictim⟩ := List.getElem?_eq_some_iff.mp found
      refine @remove _ engine _ preparing invariant (engine.active.take index)
        (engine.active.drop (index + 1)) victim rfl rfl ?_ ?_ rfl
      · rw [← isVictim, List.getElem_cons_drop, List.take_append_drop]
      · exact List.eraseIdx_eq_take_drop_succ _ _

end Invariant
end ContinuousEngine

/-- Every elementary step keeps the invariant. -/
theorem Moment.Step.invariant {η : Type} [RequestQueue η] {before after : Moment η}
    (step : Step before after) (invariant : before.engine.Invariant before.preparing) :
    after.engine.Invariant after.preparing := by
  cases step with
  | forgive empty => exact invariant.congr rfl rfl rfl rfl
  | pop room popped => exact invariant.congr rfl rfl rfl rfl
  | reject impossible => exact invariant.congr rfl rfl rfl rfl
  | answer possible found => exact invariant.congr rfl rfl rfl rfl
  | miss possible missing => exact invariant.congr rfl rfl rfl rfl
  | touch => exact invariant.matchPrefix _
  | evict evicted => exact invariant.evictOldest
  | admission possible room forgiven budget longest allocated =>
      exact invariant.admission possible room longest allocated
  | requeue engine scan => exact invariant.congr rfl rfl rfl rfl
  | complete split finished => exact invariant.remove rfl rfl split rfl rfl
  | prepare nothing unfinished =>
      refine ⟨invariant.positive, invariant.linked, invariant.unshared, invariant.distinct,
        invariant.bounded, invariant.sequences, invariant.possible, ?_, invariant.owned,
        unfinished⟩
      intro active member
      rcases invariant.blocks active member with exact | ⟨impossible, _⟩
      · exact Or.inl exact
      · cases impossible
  | @grow engine scan active member short appended =>
      rcases engine.kvCache.appendBlocks_cases active.request.requestId
        (engine.neededBlocks active - engine.currentBlocks active) with
        ⟨refused, _⟩ | ⟨blocks, found, ⟨refused, _⟩ | ⟨_, grant⟩⟩
      · rw [refused] at appended
        cases appended
      · rw [refused] at appended
        cases appended
      · rw [← PagedKvCache.blocksFor_of_lookup found] at grant
        exact invariant.grow rfl rfl rfl member (Nat.add_sub_of_le short.le)
          (invariant.linked.invariant.appendBlocks _ _) grant
  | preempt member short scarce unpinned => exact invariant.preempt _
  | decode inhabited prepared => exact invariant.decode prepared
  | close nothing => exact invariant

/-- No step changes the configuration or the number of blocks. -/
theorem Moment.Step.fixed {η : Type} [RequestQueue η] {before after : Moment η}
    (step : Step before after) (invariant : before.engine.Invariant before.preparing) :
    after.engine.config = before.engine.config ∧
      after.engine.kvCache.totalBlocks = before.engine.kvCache.totalBlocks := by
  cases step with
  | forgive empty => exact ⟨rfl, rfl⟩
  | pop room popped => exact ⟨rfl, rfl⟩
  | reject impossible => exact ⟨rfl, rfl⟩
  | answer possible found => exact ⟨rfl, rfl⟩
  | miss possible missing => exact ⟨rfl, rfl⟩
  | touch =>
      unfold ContinuousEngine.matchPrefix
      split
      · exact ⟨rfl, rfl⟩
      · exact ⟨rfl, rfl⟩
  | evict evicted =>
      unfold ContinuousEngine.evictOldest
      rcases invariant.linked.evictOldest with ⟨result, _⟩ | ⟨next, kvNext, result, removed, _⟩
      · rw [result]
        exact ⟨rfl, rfl⟩
      · rw [result]
        exact ⟨rfl, removed.shrinks.totalBlocks⟩
  | admission possible room forgiven budget longest allocated =>
      obtain ⟨config, _, _, _, _, stored⟩ := invariant.admission_stored longest allocated rfl
      exact ⟨config, stored.totalBlocks⟩
  | requeue engine scan => exact ⟨rfl, rfl⟩
  | complete split finished => exact ⟨rfl, (PagedKvCache.free_tables _ _).2.2⟩
  | prepare nothing unfinished => exact ⟨rfl, rfl⟩
  | @grow engine scan active member short appended =>
      rcases engine.kvCache.appendBlocks_cases active.request.requestId
        (engine.neededBlocks active - engine.currentBlocks active) with
        ⟨refused, _⟩ | ⟨blocks, found, ⟨refused, _⟩ | ⟨_, grant⟩⟩
      · rw [refused]
        exact ⟨rfl, rfl⟩
      · rw [refused]
        exact ⟨rfl, rfl⟩
      · exact ⟨rfl, grant.totalBlocks⟩
  | preempt member short scarce unpinned =>
      unfold ContinuousEngine.preempt
      split
      · exact ⟨rfl, rfl⟩
      · exact ⟨rfl, (PagedKvCache.free_tables _ _).2.2⟩
  | decode inhabited prepared => exact ⟨rfl, rfl⟩
  | close nothing => exact ⟨rfl, rfl⟩

end InferSched.Engine

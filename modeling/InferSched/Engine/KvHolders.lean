import InferSched.Engine.KvInvariant

/-! # The holders of a block

Which blocks a sequence lists after a call of the KV cache, and when a block
belongs to one sequence alone. Taking blocks from the free list, freeing other
sequences and dropping pins leave such a block with its owner. A call that fails
changes nothing, and a grant adds blocks that had no holder
(`PagedKvCache.calls_transactional`).
-/

namespace InferSched.Engine.PagedKvCache

open Library

variable {cache : PagedKvCache}

/-- A second cache differs from a first only in pins, of which it has no more on
any block. -/
structure Shrinks (cache next : PagedKvCache) : Prop where
  sequences : next.sequenceBlocks = cache.sequenceBlocks
  totalBlocks : next.totalBlocks = cache.totalBlocks
  blockSizeTokens : next.blockSizeTokens = cache.blockSizeTokens
  fewer : ∀ block, next.prefixBlocks.holders block ≤ cache.prefixBlocks.holders block

namespace Shrinks

theorem refl (cache : PagedKvCache) : cache.Shrinks cache :=
  ⟨rfl, rfl, rfl, fun _ => le_rfl⟩

theorem trans {second third : PagedKvCache} (one : cache.Shrinks second)
    (two : second.Shrinks third) : cache.Shrinks third :=
  ⟨two.sequences.trans one.sequences, two.totalBlocks.trans one.totalBlocks,
    two.blockSizeTokens.trans one.blockSizeTokens,
    fun block => (two.fewer block).trans (one.fewer block)⟩

end Shrinks

/-- A block that at most one sequence lists and no prefix pins. -/
structure Exclusive (cache : PagedKvCache) (sequenceId : Text) (block : BlockId) : Prop where
  alone : ∀ other blocks, cache.sequenceBlocks.lookup other = some blocks → block ∈ blocks →
    other = sequenceId
  unpinned : cache.prefixBlocks.holders block = 0

/-- A sequence in the table holds the blocks that it has there. -/
theorem blocksFor_of_lookup {sequenceId : Text} {blocks : List BlockId}
    (found : cache.sequenceBlocks.lookup sequenceId = some blocks) :
    cache.blocksFor sequenceId = blocks := by
  rw [blocksFor, found]
  rfl

theorem lookup_of_mem {sequenceId : Text} (known : sequenceId ∈ cache.sequenceBlocks) :
    cache.sequenceBlocks.lookup sequenceId = some (cache.blocksFor sequenceId) := by
  obtain ⟨blocks, found⟩ := Option.isSome_iff_exists.mp (AList.lookup_isSome.mpr known)
  rw [blocksFor_of_lookup found, found]

/-- A block that a sequence alone lists has one holder. -/
theorem Exclusive.holders_eq_one {sequenceId : Text} {block : BlockId}
    (exclusive : cache.Exclusive sequenceId block) (known : sequenceId ∈ cache.sequenceBlocks)
    (member : block ∈ cache.blocksFor sequenceId) : cache.holders block = 1 := by
  have others : Holdings.holders (cache.sequenceBlocks.erase sequenceId) block = 0 := by
    by_contra positive
    obtain ⟨other, blocks, found, listed⟩ :=
      Holdings.holders_pos_iff.mp (Nat.pos_of_ne_zero positive)
    by_cases same : other = sequenceId
    · subst same
      rw [AList.lookup_erase] at found
      cases found
    · rw [AList.lookup_erase_ne same] at found
      exact same (exclusive.alone other blocks found listed)
  rw [holders, Holdings.holders_of_lookup (lookup_of_mem known), others, if_pos member,
    exclusive.unpinned]

/-- Fewer pins leave a block exclusive. -/
theorem Exclusive.shrinks {next : PagedKvCache} {sequenceId : Text} {block : BlockId}
    (exclusive : cache.Exclusive sequenceId block) (shrinks : cache.Shrinks next) :
    next.Exclusive sequenceId block := by
  refine ⟨?_, Nat.le_zero.mp (exclusive.unpinned ▸ shrinks.fewer block)⟩
  rw [shrinks.sequences]
  exact exclusive.alone

/-- Fewer pins leave every sequence its blocks. -/
theorem Shrinks.blocksFor {next : PagedKvCache} (shrinks : cache.Shrinks next)
    (sequenceId : Text) : next.blocksFor sequenceId = cache.blocksFor sequenceId := by
  rw [PagedKvCache.blocksFor, PagedKvCache.blocksFor, shrinks.sequences]

/-- Freeing a sequence removes its entry and keeps the pins. -/
theorem free_tables (cache : PagedKvCache) (sequenceId : Text) :
    (cache.free sequenceId).2.sequenceBlocks = cache.sequenceBlocks.erase sequenceId ∧
      (cache.free sequenceId).2.prefixBlocks = cache.prefixBlocks ∧
      (cache.free sequenceId).2.totalBlocks = cache.totalBlocks := by
  unfold free
  cases found : cache.sequenceBlocks.lookup sequenceId with
  | none => exact ⟨(AList.erase_of_notMem (AList.lookup_eq_none.mp found)).symm, rfl, rfl⟩
  | some blocks => exact ⟨rfl, rfl, RefPool.size_foldl_release _ _ _⟩

/-- Unpinning a prefix removes its entry and nothing else. -/
theorem unpinPrefix_tables (cache : PagedKvCache) (key : Text) :
    (cache.unpinPrefix key).2.prefixBlocks = cache.prefixBlocks.erase key ∧
      cache.Shrinks (cache.unpinPrefix key).2 := by
  unfold unpinPrefix
  cases found : cache.prefixBlocks.lookup key with
  | none =>
      exact ⟨(AList.erase_of_notMem (AList.lookup_eq_none.mp found)).symm, Shrinks.refl cache⟩
  | some blocks =>
      refine ⟨rfl, rfl, RefPool.size_foldl_release _ _ _, rfl, fun block => ?_⟩
      rw [Holdings.holders_of_lookup found]
      exact Nat.le_add_right _ _

/-- An accepted pin adds its entry and nothing else. -/
theorem pinPrefix_tables {key : Text} {blocks : List BlockId}
    (accepted : (cache.pinPrefix key blocks).1 = true) :
    key ∉ cache.prefixBlocks ∧
      (cache.pinPrefix key blocks).2.prefixBlocks = cache.prefixBlocks.insert key blocks ∧
      (cache.pinPrefix key blocks).2.sequenceBlocks = cache.sequenceBlocks ∧
      (cache.pinPrefix key blocks).2.totalBlocks = cache.totalBlocks ∧
      (cache.pinPrefix key blocks).2.blockSizeTokens = cache.blockSizeTokens := by
  unfold pinPrefix at accepted ⊢
  split at accepted
  · cases accepted
  · next known =>
      split at accepted
      · cases accepted
      · next valid =>
          rw [if_neg known, if_neg valid]
          exact ⟨fun member => known (Or.inl member), rfl, rfl, RefPool.size_foldl_retain _ _ _,
            rfl⟩

/-- A freed sequence takes nothing from another. -/
theorem blocksFor_free {sequenceId other : Text} (different : other ≠ sequenceId) :
    (cache.free sequenceId).2.blocksFor other = cache.blocksFor other := by
  rw [blocksFor, blocksFor, (cache.free_tables sequenceId).1, AList.lookup_erase_ne different]

/-- Freeing sequences gives a block no new holder. -/
theorem Exclusive.free {sequenceId : Text} {block : BlockId}
    (exclusive : cache.Exclusive sequenceId block) (freed : Text) :
    (cache.free freed).2.Exclusive sequenceId block := by
  obtain ⟨sequences, prefixes, _⟩ := cache.free_tables freed
  refine ⟨?_, by rw [prefixes]; exact exclusive.unpinned⟩
  intro other blocks found listed
  rw [sequences] at found
  by_cases same : other = freed
  · subst same
    rw [AList.lookup_erase] at found
    cases found
  · rw [AList.lookup_erase_ne same] at found
    exact exclusive.alone other blocks found listed

variable {next : PagedKvCache} {sequenceId : Text} {kept retained : List BlockId} {taken : ℕ}

theorem Granted.lookup_self (grant : Granted cache next sequenceId kept retained taken) :
    next.sequenceBlocks.lookup sequenceId = some (kept ++ cache.freeList.take taken) := by
  rw [grant.sequences, AList.lookup_insert]

theorem Granted.lookup_of_ne (grant : Granted cache next sequenceId kept retained taken)
    {other : Text} (different : other ≠ sequenceId) :
    next.sequenceBlocks.lookup other = cache.sequenceBlocks.lookup other := by
  rw [grant.sequences, AList.lookup_insert_ne different]

/-- The blocks of the sequence after the grant. -/
theorem Granted.length_self (grant : Granted cache next sequenceId kept retained taken) :
    (next.blocksFor sequenceId).length = kept.length + taken := by
  rw [blocksFor_of_lookup grant.lookup_self, List.length_append,
    List.length_take_of_le grant.enough]

/-- Growing a sequence takes no block away from any. -/
theorem Granted.length_le
    (grant : Granted cache next sequenceId (cache.blocksFor sequenceId) retained taken)
    (other : Text) : (cache.blocksFor other).length ≤ (next.blocksFor other).length := by
  by_cases same : other = sequenceId
  · subst same
    rw [grant.length_self]
    exact Nat.le_add_right _ _
  · rw [blocksFor, blocksFor, grant.lookup_of_ne same]

/-- A block that was not free stays exclusive. -/
theorem Exclusive.granted {id : Text} {block : BlockId} (exclusive : cache.Exclusive id block)
    (grant : Granted cache next sequenceId kept retained taken) (invariant : cache.Invariant)
    (held : 0 < cache.holders block) (own : block ∈ kept → sequenceId = id) :
    next.Exclusive id block := by
  refine ⟨?_, by rw [grant.prefixes]; exact exclusive.unpinned⟩
  intro other blocks found listed
  by_cases same : other = sequenceId
  · subst same
    rw [grant.lookup_self] at found
    cases found
    rcases List.mem_append.mp listed with old | fresh
    · exact own old
    · exact absurd (invariant.unheld_of_take fresh) (Nat.ne_of_gt held)
  · rw [grant.lookup_of_ne same] at found
    exact exclusive.alone other blocks found listed

/-- The blocks taken from the free list belong to the sequence alone. -/
theorem Granted.exclusive_taken (grant : Granted cache next sequenceId kept retained taken)
    (invariant : cache.Invariant) {block : BlockId} (fresh : block ∈ cache.freeList.take taken) :
    next.Exclusive sequenceId block := by
  have unheld := invariant.unheld_of_take fresh
  refine ⟨?_, ?_⟩
  · intro other blocks found listed
    by_contra different
    rw [grant.lookup_of_ne different] at found
    exact absurd unheld (Nat.ne_of_gt (Invariant.held_of_sequence found block listed))
  · rw [grant.prefixes]
    exact Nat.eq_zero_of_add_eq_zero_left unheld

/-! ### Calls that fail and calls that grant -/

/-- A refused call changes nothing. -/
theorem free_refused (refused : (cache.free sequenceId).1 = false) :
    (cache.free sequenceId).2 = cache := by
  unfold free at refused ⊢
  split at refused
  · rfl
  · cases refused

theorem pinPrefix_refused {key : Text} {blocks : List BlockId}
    (refused : (cache.pinPrefix key blocks).1 = false) :
    (cache.pinPrefix key blocks).2 = cache := by
  unfold pinPrefix at refused ⊢
  split
  · rfl
  · next known =>
      split
      · rfl
      · next valid =>
          rw [if_neg known, if_neg valid] at refused
          cases refused

theorem unpinPrefix_refused {key : Text} (refused : (cache.unpinPrefix key).1 = false) :
    (cache.unpinPrefix key).2 = cache := by
  unfold unpinPrefix at refused ⊢
  split at refused
  · rfl
  · cases refused

/-- What a grant adds to a sequence that starts with the blocks in `kept`: blocks that
no sequence and no pin listed before, and that this sequence alone lists afterwards.
The lists of the other sequences and of the pins are the same. -/
structure Grants (cache next : PagedKvCache) (sequenceId : Text) (kept : List BlockId)
    (taken : ℕ) : Prop where
  others : ∀ other, other ≠ sequenceId →
    next.sequenceBlocks.lookup other = cache.sequenceBlocks.lookup other
  pins : next.prefixBlocks = cache.prefixBlocks
  added : ∃ added, next.sequenceBlocks.lookup sequenceId = some (kept ++ added) ∧
    added.length = taken ∧ ∀ block ∈ added,
      ((∀ other blocks, cache.sequenceBlocks.lookup other = some blocks → block ∉ blocks) ∧
        ∀ key blocks, cache.prefixBlocks.lookup key = some blocks → block ∉ blocks) ∧
      (∀ other blocks, next.sequenceBlocks.lookup other = some blocks → block ∈ blocks →
        other = sequenceId) ∧
      ∀ key blocks, next.prefixBlocks.lookup key = some blocks → block ∉ blocks

/-- A grant in the terms of the table is one in the terms of blocks. -/
theorem Granted.grants (grant : Granted cache next sequenceId kept retained taken)
    (invariant : cache.Invariant) : Grants cache next sequenceId kept taken := by
  refine ⟨fun other different => grant.lookup_of_ne different, grant.prefixes,
    cache.freeList.take taken, grant.lookup_self, List.length_take_of_le grant.enough, ?_⟩
  intro block fresh
  have unheld := invariant.unheld_of_take fresh
  have unlisted : ∀ other blocks, cache.sequenceBlocks.lookup other = some blocks →
      block ∉ blocks := fun other blocks found listed =>
    absurd unheld (Nat.ne_of_gt (Invariant.held_of_sequence found block listed))
  have unpinned : ∀ key blocks, cache.prefixBlocks.lookup key = some blocks →
      block ∉ blocks := fun key blocks found listed =>
    absurd unheld (Nat.ne_of_gt (Invariant.held_of_pinned found block listed))
  refine ⟨⟨unlisted, unpinned⟩, (grant.exclusive_taken invariant fresh).alone, ?_⟩
  rw [grant.prefixes]
  exact unpinned

/-- **Transactions.** In every state that calls lead to, and for all arguments: an
allocation or growth that is not granted, and a release, pin or unpin that returns
false, leave the whole state as it is; one that is granted adds fresh blocks to its own
sequence and changes no other list. -/
theorem calls_transactional {blockCount blockSizeTokens : ℕ} {start : PagedKvCache}
    (accepted : PagedKvCache.new blockCount blockSizeTokens = .ok start) (calls : List Call) :
    let cache := object.run calls start
    (∀ sequenceId requiredBlocks shared,
      ((cache.allocate sequenceId requiredBlocks shared).1 ≠ .allocated →
        (cache.allocate sequenceId requiredBlocks shared).2 = cache) ∧
      ((cache.allocate sequenceId requiredBlocks shared).1 = .allocated →
        Grants cache (cache.allocate sequenceId requiredBlocks shared).2 sequenceId shared
          (requiredBlocks - shared.length))) ∧
    (∀ sequenceId additionalBlocks,
      ((cache.appendBlocks sequenceId additionalBlocks).1 ≠ .allocated →
        (cache.appendBlocks sequenceId additionalBlocks).2 = cache) ∧
      ((cache.appendBlocks sequenceId additionalBlocks).1 = .allocated →
        Grants cache (cache.appendBlocks sequenceId additionalBlocks).2 sequenceId
          (cache.blocksFor sequenceId) additionalBlocks)) ∧
    (∀ sequenceId, (cache.free sequenceId).1 = false → (cache.free sequenceId).2 = cache) ∧
    (∀ key blocks, (cache.pinPrefix key blocks).1 = false →
      (cache.pinPrefix key blocks).2 = cache) ∧
    ∀ key, (cache.unpinPrefix key).1 = false → (cache.unpinPrefix key).2 = cache := by
  intro cache
  have invariant : cache.Invariant := (Invariant.new accepted).run calls
  refine ⟨?_, ?_, fun _ => free_refused, fun _ _ => pinPrefix_refused,
    fun _ => unpinPrefix_refused⟩
  · intro sequenceId requiredBlocks shared
    refine ⟨allocate_refused, fun granted => ?_⟩
    rcases cache.allocate_cases sequenceId requiredBlocks shared with
      ⟨refused, _⟩ | ⟨refused, _⟩ | ⟨refused, _⟩ | ⟨_, _, _, _, grant⟩
    · rw [refused] at granted
      cases granted
    · rw [refused] at granted
      cases granted
    · rw [refused] at granted
      cases granted
    · exact grant.grants invariant
  · intro sequenceId additionalBlocks
    refine ⟨appendBlocks_refused, fun granted => ?_⟩
    rcases cache.appendBlocks_cases sequenceId additionalBlocks with
      ⟨refused, _⟩ | ⟨blocks, found, ⟨refused, _⟩ | ⟨_, grant⟩⟩
    · rw [refused] at granted
      cases granted
    · rw [refused] at granted
      cases granted
    · rw [blocksFor_of_lookup found]
      exact grant.grants invariant

/-- A sequence with two of three blocks: a second one does not fit and changes nothing, a
shared block and the last one do. -/
theorem calls_transactional_shared :
    ∃ start, PagedKvCache.new 3 1 = .ok start ∧
      let cache := object.run [.allocate ['a'] 2 []] start
      (cache.allocate ['b'] 2 []).2 = cache ∧
        Grants cache (cache.allocate ['b'] 2 [0]).2 ['b'] [0] 1 := by
  have accepted : PagedKvCache.new 3 1 = .ok _ := rfl
  obtain ⟨allocates, _⟩ := calls_transactional accepted [.allocate ['a'] 2 []]
  exact ⟨_, accepted, (allocates ['b'] 2 []).1 (by decide), (allocates ['b'] 2 [0]).2 (by decide)⟩

end InferSched.Engine.PagedKvCache

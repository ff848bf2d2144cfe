import InferSched.Engine.KvHolders
import InferSched.Engine.PrefixCache

/-! # The invariant of the prefix cache

`PrefixCache.Pinned` ties a prefix cache to the KV cache it pins blocks in: its
keys are listed once each in order of use, and the pinned prefixes are its
entries. Looking up, putting and evicting keep it, and a put adds at most one pin
to a block.
-/

namespace InferSched.Engine

open Library

namespace PrefixCache

/-- The keys of the entries are listed once each. -/
structure Listed (cache : PrefixCache) : Prop where
  distinct : cache.recency.Nodup
  keys : ∀ key, key ∈ cache.recency ↔ key ∈ cache.entries

/-- The prefixes pinned in the KV cache are the entries. -/
structure Pinned (cache : PrefixCache) (kvCache : PagedKvCache) : Prop extends Listed cache where
  lookup : ∀ key, kvCache.prefixBlocks.lookup key = cache.entries.lookup key

variable {cache : PrefixCache} {kvCache : PagedKvCache}

/-- A new cache has no entries. -/
theorem Pinned.new {capacity : ℕ} (accepted : PrefixCache.new capacity = .ok cache)
    (unpinned : kvCache.prefixBlocks = ∅) : cache.Pinned kvCache := by
  rw [new_eq_ok accepted]
  refine ⟨⟨List.nodup_nil, fun key => ?_⟩, fun key => ?_⟩
  · exact iff_of_false List.not_mem_nil (AList.notMem_empty key)
  · rw [unpinned]

theorem Listed.touch (listed : cache.Listed) {key : Text} (known : key ∈ cache.entries) :
    (cache.touch key).Listed := by
  have order := List.perm_cons_erase ((listed.keys key).mpr known)
  exact ⟨order.nodup_iff.mp listed.distinct, fun other =>
    order.mem_iff.symm.trans (listed.keys other)⟩

theorem Listed.get (listed : cache.Listed) (key : Text) : (cache.get key).2.Listed := by
  unfold PrefixCache.get
  cases found : cache.entries.lookup key with
  | none => exact ⟨listed.distinct, listed.keys⟩
  | some blocks =>
      have counted : { cache with hits := cache.hits + 1 }.Listed :=
        ⟨listed.distinct, listed.keys⟩
      exact counted.touch (AList.lookup_isSome.mp (found ▸ rfl))

theorem Pinned.get (pinned : cache.Pinned kvCache) (key : Text) :
    (cache.get key).2.Pinned kvCache := by
  refine ⟨pinned.toListed.get key, fun other => ?_⟩
  rw [entries_get]
  exact pinned.lookup other

/-- An eviction drops one key from the list and from the entries. -/
theorem Listed.evictOldest (listed : cache.Listed) (kvCache : PagedKvCache) :
    (cache.evictOldest kvCache).2.1.Listed := by
  unfold PrefixCache.evictOldest
  split
  · exact listed
  · next oldest last =>
      have order : cache.recency = cache.recency.dropLast ++ [oldest] :=
        (List.dropLast_append_getLast? oldest last).symm
      have distinct := listed.distinct
      rw [order, List.nodup_append_comm, List.singleton_append, List.nodup_cons] at distinct
      refine ⟨distinct.2, fun key => ?_⟩
      have member := listed.keys key
      rw [order, List.mem_append, List.mem_singleton] at member
      rw [AList.mem_erase, ← member]
      constructor
      · intro kept
        exact ⟨fun same => distinct.1 (same ▸ kept), Or.inl kept⟩
      · rintro ⟨different, kept | same⟩
        · exact kept
        · exact absurd same different

/-- An eviction treats a key alike in the KV cache and in the entries. -/
theorem lookup_evictOldest {key : Text}
    (same : kvCache.prefixBlocks.lookup key = cache.entries.lookup key) :
    (cache.evictOldest kvCache).2.2.prefixBlocks.lookup key =
      (cache.evictOldest kvCache).2.1.entries.lookup key := by
  unfold evictOldest
  split
  · exact same
  · next oldest _ =>
      dsimp only
      rw [(kvCache.unpinPrefix_tables oldest).1]
      by_cases evicted : key = oldest
      · rw [evicted, AList.lookup_erase, AList.lookup_erase]
      · rw [AList.lookup_erase_ne evicted, AList.lookup_erase_ne evicted, same]

/-- An eviction leaves the pins alone that are not its own. -/
theorem lookup_evictOldest_of_notMem {key : Text} (foreign : key ∉ cache.recency) :
    (cache.evictOldest kvCache).2.2.prefixBlocks.lookup key =
      kvCache.prefixBlocks.lookup key := by
  unfold evictOldest
  split
  · rfl
  · next oldest last =>
      dsimp only
      rw [(kvCache.unpinPrefix_tables oldest).1]
      refine AList.lookup_erase_ne fun evicted => foreign ?_
      rw [evicted]
      exact List.mem_of_getLast? last

/-- An eviction only drops pins. -/
theorem evictOldest_shrinks (cache : PrefixCache) (invariant : kvCache.Invariant) :
    (cache.evictOldest kvCache).2.2.Invariant ∧
      kvCache.Shrinks (cache.evictOldest kvCache).2.2 := by
  unfold evictOldest
  split
  · exact ⟨invariant, .refl kvCache⟩
  · exact ⟨invariant.unpinPrefix _, (kvCache.unpinPrefix_tables _).2⟩

/-- What a put can do: the key is there, the blocks cannot be pinned, or they are
pinned under it and then perhaps an older entry is dropped. -/
theorem put_cases (cache : PrefixCache) (kvCache : PagedKvCache) (key : Text)
    (blocks : List BlockId) :
    ((cache.put kvCache key blocks).2 = (cache.touch key, kvCache) ∧ key ∈ cache.entries) ∨
    (cache.put kvCache key blocks).2 = (cache, kvCache) ∨
    ((kvCache.pinPrefix key blocks).1 = true ∧ key ∉ cache.entries ∧
      ∃ room : PrefixCache × PagedKvCache,
        (room = (cache, (kvCache.pinPrefix key blocks).2) ∨
          room = (cache.evictOldest (kvCache.pinPrefix key blocks).2).2) ∧
        (cache.put kvCache key blocks).2 =
          ({ room.1 with
              recency := key :: room.1.recency
              entries := room.1.entries.insert key blocks }, room.2)) := by
  unfold put
  cases found : cache.entries.lookup key with
  | some stored => exact Or.inl ⟨rfl, AList.lookup_isSome.mp (found ▸ rfl)⟩
  | none =>
      dsimp only
      split
      · exact Or.inr (Or.inl rfl)
      · next accepted =>
          refine Or.inr (Or.inr ⟨by simpa using accepted, AList.lookup_eq_none.mp found, _, ?_,
            rfl⟩)
          unfold makeRoom
          split
          · exact Or.inr rfl
          · exact Or.inl rfl

/-- What is known of the two caches when the new key is pinned and there is room
for its entry. -/
structure Roomy (kvCache : PagedKvCache) (key : Text) (blocks : List BlockId)
    (room : PrefixCache × PagedKvCache) : Prop where
  listed : room.1.Listed
  fresh : key ∉ room.1.entries
  invariant : room.2.Invariant
  shrinks : (kvCache.pinPrefix key blocks).2.Shrinks room.2
  added : room.2.prefixBlocks.lookup key = some blocks
  others : ∀ other ≠ key, room.2.prefixBlocks.lookup other = room.1.entries.lookup other

theorem Pinned.roomy (pinned : cache.Pinned kvCache) (invariant : kvCache.Invariant) {key : Text}
    {blocks : List BlockId} (accepted : (kvCache.pinPrefix key blocks).1 = true)
    (fresh : key ∉ cache.entries) {room : PrefixCache × PagedKvCache}
    (made : room = (cache, (kvCache.pinPrefix key blocks).2) ∨
      room = (cache.evictOldest (kvCache.pinPrefix key blocks).2).2) :
    Roomy kvCache key blocks room := by
  obtain ⟨_, added, _⟩ := PagedKvCache.pinPrefix_tables accepted
  have own : (kvCache.pinPrefix key blocks).2.prefixBlocks.lookup key = some blocks := by
    rw [added, AList.lookup_insert]
  have others : ∀ other ≠ key, (kvCache.pinPrefix key blocks).2.prefixBlocks.lookup other =
      cache.entries.lookup other := by
    intro other different
    rw [added, AList.lookup_insert_ne different, pinned.lookup]
  have kept := invariant.pinPrefix key blocks
  rcases made with rfl | rfl
  · exact ⟨pinned.toListed, fresh, kept, .refl _, own, others⟩
  · have foreign : key ∉ cache.recency := fun member => fresh ((pinned.keys key).mp member)
    have evicted := cache.evictOldest_shrinks kept
    refine ⟨pinned.toListed.evictOldest _, ?_, evicted.1, evicted.2,
      (lookup_evictOldest_of_notMem foreign).trans own,
      fun other different => lookup_evictOldest (others other different)⟩
    unfold evictOldest
    split
    · exact fresh
    · exact fun member => fresh (AList.mem_erase.mp member).2

/-- A put keeps the link to the KV cache, leaves the sequences alone and adds at
most one pin, on the given blocks. -/
structure PutBy (kvCache : PagedKvCache) (blocks : List BlockId)
    (after : PrefixCache × PagedKvCache) : Prop where
  pinned : after.1.Pinned after.2
  invariant : after.2.Invariant
  sequences : after.2.sequenceBlocks = kvCache.sequenceBlocks
  totalBlocks : after.2.totalBlocks = kvCache.totalBlocks
  pins : ∀ block, after.2.prefixBlocks.holders block ≤
    kvCache.prefixBlocks.holders block + if block ∈ blocks then 1 else 0

theorem Roomy.insert {key : Text} {blocks : List BlockId} {room : PrefixCache × PagedKvCache}
    (roomy : Roomy kvCache key blocks room)
    (accepted : (kvCache.pinPrefix key blocks).1 = true) :
    PutBy kvCache blocks
      ({ room.1 with
          recency := key :: room.1.recency
          entries := room.1.entries.insert key blocks }, room.2) := by
  obtain ⟨absent, added, sequences, totalBlocks, _⟩ := PagedKvCache.pinPrefix_tables accepted
  have foreign : key ∉ room.1.recency :=
    fun member => roomy.fresh ((roomy.listed.keys key).mp member)
  refine ⟨⟨⟨List.nodup_cons.mpr ⟨foreign, roomy.listed.distinct⟩, ?_⟩, ?_⟩, roomy.invariant,
    roomy.shrinks.sequences.trans sequences, roomy.shrinks.totalBlocks.trans totalBlocks, ?_⟩
  · intro other
    rw [List.mem_cons, AList.mem_insert, roomy.listed.keys other]
  · intro other
    by_cases same : other = key
    · rw [same, AList.lookup_insert]
      exact roomy.added
    · rw [AList.lookup_insert_ne same]
      exact roomy.others other same
  · intro block
    have fewer := roomy.shrinks.fewer block
    rwa [added, Holdings.holders_insert_of_notMem absent] at fewer

theorem Pinned.put (pinned : cache.Pinned kvCache) (invariant : kvCache.Invariant) (key : Text)
    (blocks : List BlockId) : PutBy kvCache blocks (cache.put kvCache key blocks).2 := by
  have unchanged (after : PrefixCache) (same : after.Pinned kvCache) :
      PutBy kvCache blocks (after, kvCache) :=
    ⟨same, invariant, rfl, rfl, fun block => Nat.le_add_right _ _⟩
  rcases cache.put_cases kvCache key blocks with ⟨result, known⟩ | result |
    ⟨accepted, fresh, room, made, result⟩
  · rw [result]
    exact unchanged _ ⟨pinned.toListed.touch known, pinned.lookup⟩
  · rw [result]
    exact unchanged _ pinned
  · rw [result]
    exact (pinned.roomy invariant accepted fresh made).insert accepted

/-- Unpinning a list of keys removes them and nothing else. -/
theorem unpinAll_spec (keys : List Text) (invariant : kvCache.Invariant) :
    (keys.foldl (fun kvCache key => (kvCache.unpinPrefix key).2) kvCache).Invariant ∧
      kvCache.Shrinks (keys.foldl (fun kvCache key => (kvCache.unpinPrefix key).2) kvCache) ∧
      ∀ key, (keys.foldl (fun kvCache key => (kvCache.unpinPrefix key).2)
        kvCache).prefixBlocks.lookup key =
          if key ∈ keys then none else kvCache.prefixBlocks.lookup key := by
  induction keys generalizing kvCache with
  | nil => exact ⟨invariant, .refl kvCache, fun key => (if_neg List.not_mem_nil).symm⟩
  | cons first later ih =>
      obtain ⟨erased, shrinks⟩ := kvCache.unpinPrefix_tables first
      obtain ⟨kept, further, lookup⟩ := ih (invariant.unpinPrefix first)
      refine ⟨kept, shrinks.trans further, fun key => ?_⟩
      rw [List.foldl_cons, lookup, erased]
      by_cases same : key = first
      · subst same
        rw [AList.lookup_erase, if_pos List.mem_cons_self]
        split
        · rfl
        · rfl
      · rw [AList.lookup_erase_ne same]
        simp only [List.mem_cons, same, false_or]

/-- Clearing the cache drops all its pins. -/
theorem Pinned.clear (pinned : cache.Pinned kvCache) (invariant : kvCache.Invariant) :
    (cache.clear kvCache).1.Pinned (cache.clear kvCache).2 ∧
      (cache.clear kvCache).2.Invariant ∧ kvCache.Shrinks (cache.clear kvCache).2 := by
  obtain ⟨kept, shrinks, lookup⟩ := unpinAll_spec cache.recency invariant
  refine ⟨⟨⟨List.nodup_nil, fun key => ?_⟩, fun key => ?_⟩, kept, shrinks⟩
  · exact iff_of_false List.not_mem_nil (AList.notMem_empty key)
  · refine (lookup key).trans ?_
    split
    · rfl
    · next absent =>
        rw [pinned.lookup]
        exact AList.lookup_eq_none.mpr fun known => absent ((pinned.keys key).mpr known)

end PrefixCache
end InferSched.Engine

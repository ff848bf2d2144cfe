import InferSched.Engine.PagedKvCache

/-! # The prefix cache

`PrefixCache` (`prefix_cache.cpp`): prompt blocks by key, each entry pinned in the
KV cache under that key, with the keys in order of their last use, the most
recent at the front. The KV cache the source refers to is passed along.
-/

namespace InferSched.Engine

open Library

/-- Pinned runs of blocks by key, in the order of their last use. -/
structure PrefixCache where
  capacity : ℕ
  recency : List Text := []
  entries : Holdings Text BlockId := ∅
  hits : ℕ := 0
  misses : ℕ := 0

namespace PrefixCache

/-- The constructor, with the message of the exception it throws. -/
def new (capacity : ℕ) : Except Text PrefixCache :=
  if capacity = 0 then .error "prefix cache capacity must be positive".toList
  else .ok { capacity }

theorem new_eq_ok {capacity : ℕ} {cache : PrefixCache} (accepted : new capacity = .ok cache) :
    cache = { capacity } := by
  unfold new at accepted
  split at accepted
  · cases accepted
  · exact (Except.ok.inj accepted).symm

/-- Move a key to the front. -/
def touch (cache : PrefixCache) (key : Text) : PrefixCache :=
  { cache with recency := key :: cache.recency.erase key }

/-- Drop the least recently used prefix and its pin. False when there is none. -/
def evictOldest (cache : PrefixCache) (kvCache : PagedKvCache) :
    Bool × PrefixCache × PagedKvCache :=
  match cache.recency.getLast? with
  | none => (false, cache, kvCache)
  | some evicted =>
      (true,
        { cache with
          entries := cache.entries.erase evicted
          recency := cache.recency.dropLast },
        (kvCache.unpinPrefix evicted).2)

/-- Make room for one entry. -/
def makeRoom (cache : PrefixCache) (kvCache : PagedKvCache) : PrefixCache × PagedKvCache :=
  if cache.entries.entries.length = cache.capacity then (cache.evictOldest kvCache).2
  else (cache, kvCache)

/-- Pin blocks under a key. A key that is there keeps its blocks, and the answer is whether they
are the same. -/
def put (cache : PrefixCache) (kvCache : PagedKvCache) (key : Text) (blocks : List BlockId) :
    Bool × PrefixCache × PagedKvCache :=
  match cache.entries.lookup key with
  | some stored => (decide (stored = blocks), cache.touch key, kvCache)
  | none =>
      let pinned := kvCache.pinPrefix key blocks
      if pinned.1 = false then (false, cache, kvCache)
      else
        let room := cache.makeRoom pinned.2
        (true,
          { room.1 with
            recency := key :: room.1.recency
            entries := room.1.entries.insert key blocks },
          room.2)

/-- Look a prefix up and make it the most recently used. -/
def get (cache : PrefixCache) (key : Text) : Option (List BlockId) × PrefixCache :=
  match cache.entries.lookup key with
  | none => (none, { cache with misses := cache.misses + 1 })
  | some blocks => (some blocks, { cache with hits := cache.hits + 1 }.touch key)

/-- The key of a list of block hashes. -/
def blockPrefixKey (cacheNamespace : Text) (promptBlockHashes : List Text) : Text :=
  promptBlockHashes.foldl
    (fun key hash => key ++ ['|'] ++ decimal hash.length ++ [':'] ++ hash)
    ("blocks|".toList ++ decimal cacheNamespace.length ++ [':'] ++ cacheNamespace)

/-- The loop of `GetLongest` from a number of hashes down. -/
def longestFrom (cache : PrefixCache) (cacheNamespace : Text) (promptBlockHashes : List Text) :
    ℕ → Option (List BlockId × ℕ) × PrefixCache
  | 0 => (none, { cache with misses := cache.misses + 1 })
  | count + 1 =>
      let key := blockPrefixKey cacheNamespace (promptBlockHashes.take (count + 1))
      match cache.entries.lookup key with
      | none => longestFrom cache cacheNamespace promptBlockHashes count
      | some blocks => (some (blocks, count + 1), { cache with hits := cache.hits + 1 }.touch key)

/-- The longest cached prefix of a prompt, and how many of its blocks it covers. -/
def getLongest (cache : PrefixCache) (cacheNamespace : Text) (promptBlockHashes : List Text) :
    Option (List BlockId × ℕ) × PrefixCache :=
  cache.longestFrom cacheNamespace promptBlockHashes promptBlockHashes.length

/-- Put the prefixes of the given lengths, counting those that are stored. -/
def putLengths (cacheNamespace : Text) (promptBlockHashes : List Text) (blocks : List BlockId) :
    List ℕ → PrefixCache → PagedKvCache → ℕ × PrefixCache × PagedKvCache
  | [], cache, kvCache => (0, cache, kvCache)
  | length :: later, cache, kvCache =>
      let stored := cache.put kvCache
        (blockPrefixKey cacheNamespace (promptBlockHashes.take length)) (blocks.take length)
      let rest := putLengths cacheNamespace promptBlockHashes blocks later stored.2.1 stored.2.2
      (rest.1 + if stored.1 then 1 else 0, rest.2)

/-- Pin every block-aligned prefix of a prompt, and count those that were stored. -/
def putBlockPrefixes (cache : PrefixCache) (kvCache : PagedKvCache) (cacheNamespace : Text)
    (promptBlockHashes : List Text) (blocks : List BlockId) : ℕ × PrefixCache × PagedKvCache :=
  putLengths cacheNamespace promptBlockHashes blocks
    (List.range' 1 (min promptBlockHashes.length blocks.length)) cache kvCache

/-- Drop every prefix and its pin. -/
def clear (cache : PrefixCache) (kvCache : PagedKvCache) : PrefixCache × PagedKvCache :=
  ({ cache with entries := ∅, recency := [] },
    cache.recency.foldl (fun kvCache key => (kvCache.unpinPrefix key).2) kvCache)

@[simp] theorem entries_get (cache : PrefixCache) (key : Text) :
    (cache.get key).2.entries = cache.entries := by
  unfold get
  split
  · rfl
  · rfl

theorem get_eq_lookup (cache : PrefixCache) (key : Text) :
    (cache.get key).1 = cache.entries.lookup key := by
  unfold get
  split
  · next missing => exact missing.symm
  · next found => exact found.symm

end PrefixCache
end InferSched.Engine

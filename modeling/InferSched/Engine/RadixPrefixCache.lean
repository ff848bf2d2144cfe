import InferSched.Engine.PagedKvCache
import InferSched.Library.Trie

/-! # The radix prefix cache

`RadixPrefixCache` (`radix_prefix_cache.cpp`): for every namespace a trie over
the block hashes of prompts. A node holds one KV block, which it pins under a key
of its own, and the time it was last used. The KV cache the source refers to is
passed along. `accessClock` and `nextPinId` are unbounded counters.
-/

namespace InferSched.Engine

open Library

structure RadixNode where
  block : BlockId
  pinKey : Text
  lastAccess : ℕ
deriving DecidableEq, Repr

/-- The nodes below a namespace, or below a node. -/
abbrev RadixForest := Trie Text RadixNode

structure RadixPrefixCache where
  capacity : ℕ
  roots : AList fun _ : Text => RadixForest := ∅
  nodeCount : ℕ := 0
  accessClock : ℕ := 0
  nextPinId : ℕ := 0

namespace RadixPrefixCache

/-- The constructor, with the message of the exception it throws. -/
def new (nodeCapacity : ℕ) : Except Text RadixPrefixCache :=
  if nodeCapacity = 0 then .error "radix prefix cache capacity must be positive".toList
  else .ok { capacity := nodeCapacity }

theorem new_eq_ok {nodeCapacity : ℕ} {cache : RadixPrefixCache}
    (accepted : new nodeCapacity = .ok cache) : cache = { capacity := nodeCapacity } := by
  unfold new at accepted
  split at accepted
  · cases accepted
  · exact (Except.ok.inj accepted).symm

/-- Walk down the hashes as far as there are nodes, and stamp them: the forest,
the blocks on the way and the access clock. -/
def touchPath : List Text → RadixForest → ℕ → RadixForest × List BlockId × ℕ
  | [], forest, accessClock => (forest, [], accessClock)
  | hash :: hashes, forest, accessClock =>
      match forest.find? hash with
      | none => (forest, [], accessClock)
      | some (node, children) =>
          let below := touchPath hashes children (accessClock + 1)
          (forest.set hash { node with lastAccess := accessClock + 1 } below.1,
            node.block :: below.2.1, below.2.2)

/-- The blocks of the longest cached prefix, if any. -/
def getLongest (cache : RadixPrefixCache) (cacheNamespace : Text)
    (promptBlockHashes : List Text) : Option (List BlockId) × RadixPrefixCache :=
  match cache.roots.lookup cacheNamespace with
  | none => (none, cache)
  | some forest =>
      let touched := touchPath promptBlockHashes forest cache.accessClock
      (if touched.2.1 = [] then none else some touched.2.1,
        { cache with
          roots := cache.roots.insert cacheNamespace touched.1
          accessClock := touched.2.2 })

/-- The name under which a node pins its block. -/
def pinKey (pinId : ℕ) : Text :=
  "radix-prefix-".toList ++ decimal pinId

/-- What an insertion changes besides the forest. -/
structure Insertion where
  kvCache : PagedKvCache
  accessClock : ℕ
  nextPinId : ℕ
  inserted : ℕ

/-- The loop of an insertion: stamp the nodes that exist, and below them pin and
add the others until a pin fails. -/
def putPath : List (Text × BlockId) → RadixForest → Insertion → RadixForest × Insertion
  | [], forest, state => (forest, state)
  | (hash, block) :: later, forest, state =>
      match forest.find? hash with
      | some (node, children) =>
          let stamp := state.accessClock + 1
          let below := putPath later children { state with accessClock := stamp }
          (forest.set hash { node with lastAccess := stamp } below.1, below.2)
      | none =>
          let key := pinKey state.nextPinId
          let pinned := state.kvCache.pinPrefix key [block]
          if pinned.1 = false then (forest, { state with nextPinId := state.nextPinId + 1 })
          else
            let stamp := state.accessClock + 1
            let below := putPath later .nil
              { kvCache := pinned.2
                accessClock := stamp
                nextPinId := state.nextPinId + 1
                inserted := state.inserted + 1 }
            (.cons hash { block, pinKey := key, lastAccess := stamp } below.1 forest, below.2)

/-- A leaf that may be evicted: where it is, and when it was last used. -/
structure LeafCandidate where
  cacheNamespace : Text
  parent : List Text
  key : Text
  lastAccess : ℕ
deriving DecidableEq, Repr

/-- The older of a candidate and the leaves of a forest. -/
def findOldestLeaf (cacheNamespace : Text) (trail : List Text) :
    RadixForest → Option LeafCandidate → Option LeafCandidate
  | .nil, candidate => candidate
  | .cons key node .nil rest, candidate =>
      findOldestLeaf cacheNamespace trail rest
        (if candidate.all fun found => node.lastAccess < found.lastAccess then
          some ⟨cacheNamespace, trail, key, node.lastAccess⟩
        else candidate)
  | .cons key _ (.cons childKey child grandchildren siblings) rest, candidate =>
      findOldestLeaf cacheNamespace trail rest
        (findOldestLeaf cacheNamespace (trail ++ [key])
          (.cons childKey child grandchildren siblings) candidate)

/-- The oldest leaf of all namespaces. -/
def oldestLeaf (cache : RadixPrefixCache) : Option LeafCandidate :=
  cache.roots.entries.foldl
    (fun candidate root => findOldestLeaf root.1 [] root.2 candidate) none

/-- The node of a candidate. -/
def candidateNode (cache : RadixPrefixCache) (candidate : LeafCandidate) : Option RadixNode :=
  (cache.roots.lookup candidate.cacheNamespace).bind fun forest =>
    (forest.descend candidate.parent).bind fun siblings =>
      (siblings.find? candidate.key).map Prod.fst

def evictOldest (cache : RadixPrefixCache) (kvCache : PagedKvCache) :
    Bool × RadixPrefixCache × PagedKvCache :=
  match cache.oldestLeaf with
  | none => (false, cache, kvCache)
  | some candidate =>
      match cache.roots.lookup candidate.cacheNamespace, cache.candidateNode candidate with
      | some forest, some node =>
          (true,
            { cache with
              roots := cache.roots.insert candidate.cacheNamespace
                (forest.modifyAt (Trie.erase candidate.key) candidate.parent)
              nodeCount := cache.nodeCount - 1 },
            (kvCache.unpinPrefix node.pinKey).2)
      | _, _ => (false, cache, kvCache)

/-- Evict until the cache is within its capacity or has no leaf. A turn removes a
node, so their number bounds the turns. -/
def evictToCapacity : ℕ → RadixPrefixCache → PagedKvCache → RadixPrefixCache × PagedKvCache
  | 0, cache, kvCache => (cache, kvCache)
  | turns + 1, cache, kvCache =>
      if cache.nodeCount > cache.capacity then
        let evicted := cache.evictOldest kvCache
        if evicted.1 then evictToCapacity turns evicted.2.1 evicted.2.2 else (cache, kvCache)
      else (cache, kvCache)

def putBlockPrefixes (cache : RadixPrefixCache) (kvCache : PagedKvCache) (cacheNamespace : Text)
    (promptBlockHashes : List Text) (blocks : List BlockId) :
    ℕ × RadixPrefixCache × PagedKvCache :=
  let forest := (cache.roots.lookup cacheNamespace).getD .nil
  let put := putPath (promptBlockHashes.zip blocks) forest
    { kvCache, accessClock := cache.accessClock, nextPinId := cache.nextPinId, inserted := 0 }
  let cache := { cache with
    roots := cache.roots.insert cacheNamespace put.1
    nodeCount := cache.nodeCount + put.2.inserted
    accessClock := put.2.accessClock
    nextPinId := put.2.nextPinId }
  (put.2.inserted, evictToCapacity cache.nodeCount cache put.2.kvCache)

/-- Unpin every node of a forest, children first. -/
def unpinTree : RadixForest → PagedKvCache → PagedKvCache
  | .nil, kvCache => kvCache
  | .cons _ node children rest, kvCache =>
      unpinTree rest ((unpinTree children kvCache).unpinPrefix node.pinKey).2

def clear (cache : RadixPrefixCache) (kvCache : PagedKvCache) : RadixPrefixCache × PagedKvCache :=
  ({ cache with roots := ∅, nodeCount := 0 },
    cache.roots.entries.foldl (fun kvCache root => unpinTree root.2 kvCache) kvCache)

/-- All nodes. -/
def nodes (cache : RadixPrefixCache) : Multiset RadixNode :=
  (cache.roots.entries.map fun root => root.2.values).sum

end RadixPrefixCache
end InferSched.Engine

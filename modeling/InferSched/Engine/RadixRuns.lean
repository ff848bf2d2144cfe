import InferSched.Engine.RadixInvariant

/-! # Runs of the radix prefix cache

A radix prefix cache and the KV cache it pins blocks in, under any calls of the
first and any sequence calls of the second. The pins stay those of the nodes
(`RadixPrefixCache.Linked`), an insertion ends within the capacity, and a lookup
returns the longest prefix of the hashes that is a path of the tree.
-/

namespace InferSched.Engine

open Library

namespace PagedKvCache

/-- The calls of the KV cache that pin and unpin nothing. -/
inductive SequenceCall
  | allocate (sequenceId : Text) (requiredBlocks : ℕ) (sharedPrefixBlocks : List BlockId)
  | free (sequenceId : Text)
  | appendBlocks (sequenceId : Text) (additionalBlocks : ℕ)
deriving DecidableEq, Repr

def SequenceCall.call : SequenceCall → Call
  | .allocate sequenceId requiredBlocks shared => .allocate sequenceId requiredBlocks shared
  | .free sequenceId => .free sequenceId
  | .appendBlocks sequenceId additionalBlocks => .appendBlocks sequenceId additionalBlocks

/-- Sequence calls leave the pins alone. -/
theorem prefixBlocks_sequence (cache : PagedKvCache) (call : SequenceCall) :
    (object.respond call.call cache).2.prefixBlocks = cache.prefixBlocks := by
  cases call with
  | allocate sequenceId requiredBlocks shared =>
      change (cache.allocate sequenceId requiredBlocks shared).2.prefixBlocks = _
      rcases cache.allocate_cases sequenceId requiredBlocks shared with
        ⟨result, _⟩ | ⟨result, _⟩ | ⟨result, _⟩ | ⟨_, _, _, _, grant⟩
      · rw [result]
      · rw [result]
      · rw [result]
      · exact grant.prefixes
  | free sequenceId => exact (cache.free_tables sequenceId).2.1
  | appendBlocks sequenceId additionalBlocks =>
      change (cache.appendBlocks sequenceId additionalBlocks).2.prefixBlocks = _
      rcases cache.appendBlocks_cases sequenceId additionalBlocks with
        ⟨result, _⟩ | ⟨_, _, ⟨result, _⟩ | ⟨_, grant⟩⟩
      · rw [result]
      · rw [result]
      · exact grant.prefixes

theorem prefixBlocks_new {blockCount blockSizeTokens : ℕ} {cache : PagedKvCache}
    (accepted : PagedKvCache.new blockCount blockSizeTokens = .ok cache) :
    cache.prefixBlocks = ∅ := by
  rw [(new_eq_ok accepted).2.2]

/-- A block that is held and not up for allocation. -/
structure InUse (cache : PagedKvCache) (block : BlockId) : Prop where
  inside : block < cache.totalBlocks
  held : 0 < cache.holders block
  taken : block ∉ cache.freeList

theorem Invariant.inUse {cache : PagedKvCache} (invariant : cache.Invariant) {block : BlockId}
    (held : 0 < cache.holders block) : cache.InUse block := by
  refine ⟨?_, held, ?_⟩
  · by_contra outside
    exact absurd (invariant.balanced.outside block (Nat.le_of_not_lt outside)) (Nat.ne_of_gt held)
  · intro free
    exact absurd ((invariant.balanced.free block).mp free).2 (Nat.ne_of_gt held)

/-- No two pins have one key. -/
theorem pins_nodup (cache : PagedKvCache) : (cache.pins.map Prod.fst).Nodup := by
  unfold pins
  rw [Multiset.map_coe, Multiset.coe_nodup, List.map_map]
  exact cache.prefixBlocks.nodupKeys

end PagedKvCache

namespace RadixPrefixCache

variable {cache : RadixPrefixCache} {kvCache : PagedKvCache}

/-! ### The capacity -/

/-- As many turns as there are nodes above the capacity bring the cache within it. -/
theorem Linked.evictToCapacity_le (turns : ℕ) (linked : cache.Linked kvCache)
    (enough : cache.nodeCount ≤ cache.capacity + turns) :
    (RadixPrefixCache.evictToCapacity turns cache kvCache).1.nodeCount ≤ cache.capacity := by
  induction turns generalizing cache kvCache with
  | zero => exact enough
  | succ turns ih =>
      unfold RadixPrefixCache.evictToCapacity
      split
      · rcases linked.evictOldest with ⟨result, empty⟩ | ⟨next, kvNext, result, evicted, fewer⟩
        · rw [result]
          change cache.nodeCount ≤ _
          rw [linked.counted, empty]
          exact Nat.zero_le _
        · rw [result, ← evicted.capacity]
          apply ih evicted.linked
          have before := linked.counted
          have after := evicted.linked.counted
          rw [evicted.capacity]
          omega
      · next within => exact Nat.le_of_not_lt within

/-- An insertion ends within the capacity. -/
theorem Linked.putBlockPrefixes_le (linked : cache.Linked kvCache) (cacheNamespace : Text)
    (hashes : List Text) (blocks : List BlockId) :
    (cache.putBlockPrefixes kvCache cacheNamespace hashes blocks).2.1.nodeCount ≤
      cache.capacity := by
  obtain ⟨added, extended⟩ := putPath_extended (hashes.zip blocks)
    (cache.forestOf cacheNamespace)
    { kvCache, accessClock := cache.accessClock, nextPinId := cache.nextPinId, inserted := 0 }
    linked.invariant
  exact (linked.extended extended rfl rfl).evictToCapacity_le _ (Nat.le_add_left _ _)

/-! ### Paths -/

/-- The blocks of the nodes along the hashes, if all of them are there. -/
def pathBlocks : List Text → RadixForest → Option (List BlockId)
  | [], _ => some []
  | hash :: hashes, forest =>
      (forest.find? hash).bind fun found => (pathBlocks hashes found.2).map (found.1.block :: ·)

/-- The longest match is a path, and no longer prefix of the hashes is one. -/
theorem longest_path (hashes : List Text) (forest : RadixForest) :
    pathBlocks (hashes.take (longest hashes forest).length) forest =
        some (longest hashes forest) ∧
      ∀ count, (longest hashes forest).length < count → count ≤ hashes.length →
        pathBlocks (hashes.take count) forest = none := by
  induction hashes generalizing forest with
  | nil =>
      refine ⟨rfl, fun count longer bounded => ?_⟩
      exact absurd (longer.trans_le bounded) (Nat.lt_irrefl _)
  | cons hash hashes ih =>
      cases found : forest.find? hash with
      | none =>
          have empty : longest (hash :: hashes) forest = [] := by
            simp only [longest, found]
          rw [empty]
          refine ⟨rfl, fun count longer _ => ?_⟩
          obtain ⟨count, rfl⟩ := Nat.exists_eq_succ_of_ne_zero (Nat.ne_of_gt longer)
          simp [pathBlocks, found]
      | some entry =>
          obtain ⟨node, children⟩ := entry
          obtain ⟨path, none⟩ := ih children
          have onward : longest (hash :: hashes) forest =
              node.block :: longest hashes children := by
            simp only [longest, found]
          rw [onward]
          refine ⟨by simp [pathBlocks, found, path], fun count longer bounded => ?_⟩
          rw [List.length_cons] at longer bounded
          obtain ⟨count, rfl⟩ :=
            Nat.exists_eq_succ_of_ne_zero (Nat.ne_of_gt (Nat.zero_lt_of_lt longer))
          rw [List.take_succ_cons]
          simp [pathBlocks, found,
            none count (Nat.lt_of_succ_lt_succ longer) (Nat.le_of_succ_le_succ bounded)]

/-- What a lookup answers. -/
theorem getLongest_eq (cache : RadixPrefixCache) (cacheNamespace : Text) (hashes : List Text) :
    (cache.getLongest cacheNamespace hashes).1 =
      if longest hashes (cache.forestOf cacheNamespace) = [] then none
      else some (longest hashes (cache.forestOf cacheNamespace)) := by
  unfold RadixPrefixCache.getLongest forestOf
  cases cache.roots.lookup cacheNamespace with
  | none =>
      rw [Option.getD_none, longest_nil]
      rfl
  | some forest =>
      dsimp only
      rw [(touchPath_spec hashes forest cache.accessClock).1]
      rfl

/-! ### Runs -/

/-- The calls of the cache, and the sequence calls of its KV cache. -/
inductive Call
  | getLongest (cacheNamespace : Text) (promptBlockHashes : List Text)
  | putBlockPrefixes (cacheNamespace : Text) (promptBlockHashes : List Text)
      (blocks : List BlockId)
  | evictOldest
  | clear
  | sequence (call : PagedKvCache.SequenceCall)
deriving DecidableEq, Repr

inductive Response
  | longest (blocks : Option (List BlockId))
  | inserted (count : ℕ)
  | evicted (value : Bool)
  | cleared
  | sequence (answer : AllocationStatus ⊕ Bool)
deriving DecidableEq, Repr

/-- The cache and its KV cache as one object. -/
def object : AtomicObject (RadixPrefixCache × PagedKvCache) Call Response where
  respond call state :=
    match call with
    | .getLongest cacheNamespace hashes =>
        let found := state.1.getLongest cacheNamespace hashes
        (.longest found.1, found.2, state.2)
    | .putBlockPrefixes cacheNamespace hashes blocks =>
        let put := state.1.putBlockPrefixes state.2 cacheNamespace hashes blocks
        (.inserted put.1, put.2)
    | .evictOldest =>
        let evicted := state.1.evictOldest state.2
        (.evicted evicted.1, evicted.2)
    | .clear => (.cleared, state.1.clear state.2)
    | .sequence call =>
        let answered := PagedKvCache.object.respond call.call state.2
        (.sequence answered.1, state.1, answered.2)

/-- The two caches are linked and the nodes within the capacity. -/
structure Bounded (nodeCapacity : ℕ) (state : RadixPrefixCache × PagedKvCache) : Prop where
  linked : state.1.Linked state.2
  capacity : state.1.capacity = nodeCapacity
  bounded : state.1.nodeCount ≤ nodeCapacity

theorem Bounded.respond {nodeCapacity : ℕ} {state : RadixPrefixCache × PagedKvCache}
    (bounded : Bounded nodeCapacity state) (call : Call) :
    Bounded nodeCapacity (object.respond call state).2 := by
  obtain ⟨cache, kvCache⟩ := state
  have linked := bounded.linked
  have capacity := bounded.capacity
  cases call with
  | getLongest cacheNamespace hashes =>
      obtain ⟨kept, _, _, count, same⟩ := linked.getLongest cacheNamespace hashes
      refine ⟨kept, same.trans capacity, ?_⟩
      change (cache.getLongest cacheNamespace hashes).2.nodeCount ≤ nodeCapacity
      rw [kept.counted, count, ← linked.counted]
      exact bounded.bounded
  | putBlockPrefixes cacheNamespace hashes blocks =>
      obtain ⟨kept, _, _, _, same, _⟩ := linked.putBlockPrefixes cacheNamespace hashes blocks
      exact ⟨kept, same.trans capacity,
        capacity ▸ linked.putBlockPrefixes_le cacheNamespace hashes blocks⟩
  | evictOldest =>
      change Bounded nodeCapacity (cache.evictOldest kvCache).2
      rcases linked.evictOldest with ⟨result, _⟩ | ⟨next, kvNext, result, evicted, fewer⟩
      · rw [result]
        exact bounded
      · rw [result]
        refine ⟨evicted.linked, evicted.capacity.trans capacity, ?_⟩
        have before := linked.counted
        have after := evicted.linked.counted
        have within := bounded.bounded
        dsimp only at *
        omega
  | clear =>
      obtain ⟨kept, _, _, same⟩ := linked.clear
      exact ⟨kept, same.trans capacity, Nat.zero_le _⟩
  | sequence call =>
      exact ⟨linked.of_prefixBlocks (linked.invariant.respond call.call)
        (kvCache.prefixBlocks_sequence call), capacity, bounded.bounded⟩

/-- **The tree and its pins.** After any calls of a radix prefix cache, and any
sequence calls of its KV cache between them, the size is the number of nodes and
within the capacity; the KV cache has one pin for each node, with that node's
block and under a key of its own, so the block is in use; a lookup returns the
blocks of the longest prefix of the hashes that is a path; and clearing leaves no
node and no pin. -/
theorem tree_pinned {nodeCapacity blockCount blockSizeTokens : ℕ} {cache : RadixPrefixCache}
    {kvCache : PagedKvCache} (accepted : RadixPrefixCache.new nodeCapacity = .ok cache)
    (acceptedKv : PagedKvCache.new blockCount blockSizeTokens = .ok kvCache)
    (calls : List Call) :
    let state := object.run calls (cache, kvCache)
    state.1.nodeCount = Multiset.card state.1.nodes ∧ state.1.nodeCount ≤ nodeCapacity ∧
    state.2.pins = state.1.nodes.map RadixNode.pin ∧
    (state.1.nodes.map RadixNode.pinKey).Nodup ∧
    (∀ node ∈ state.1.nodes, state.2.InUse node.block) ∧
    (∀ cacheNamespace hashes, ∃ blocks,
      (state.1.getLongest cacheNamespace hashes).1 =
        (if blocks = [] then none else some blocks) ∧
      pathBlocks (hashes.take blocks.length) (state.1.forestOf cacheNamespace) = some blocks ∧
      ∀ count, blocks.length < count → count ≤ hashes.length →
        pathBlocks (hashes.take count) (state.1.forestOf cacheNamespace) = none) ∧
    (state.1.clear state.2).1.nodeCount = 0 ∧ (state.1.clear state.2).1.nodes = 0 ∧
    (state.1.clear state.2).2.pins = 0 := by
  intro state
  have start : Bounded nodeCapacity (cache, kvCache) := by
    refine ⟨Linked.new accepted (.new acceptedKv)
      (PagedKvCache.prefixBlocks_new acceptedKv), ?_, ?_⟩
    · rw [new_eq_ok accepted]
    · rw [new_eq_ok accepted]
      exact Nat.zero_le _
  have bounded : Bounded nodeCapacity state :=
    object.invariant (fun call _ before => before.respond call) calls _ start
  have linked := bounded.linked
  have keys := state.2.pins_nodup
  rw [linked.pins, Multiset.map_map] at keys
  obtain ⟨cleared, empty, _, _⟩ := linked.clear
  refine ⟨linked.counted, bounded.bounded, linked.pins, keys, ?_, ?_, rfl, empty, ?_⟩
  · intro node member
    apply linked.invariant.inUse
    have pinned : state.2.prefixBlocks.lookup node.pinKey = some [node.block] := by
      apply PagedKvCache.mem_pins_iff.mp
      rw [linked.pins]
      exact Multiset.mem_map_of_mem RadixNode.pin member
    exact PagedKvCache.Invariant.held_of_pinned pinned _ (List.mem_singleton_self _)
  · intro cacheNamespace hashes
    exact ⟨_, state.1.getLongest_eq cacheNamespace hashes, longest_path hashes _⟩
  · rw [cleared.pins, empty]
    rfl

/-- A cache of one node is given three blocks, of which the last does not exist. -/
theorem tree_pinned_full :
    let calls := [Call.sequence (.allocate ['a'] 2 []),
      .putBlockPrefixes [] [['h'], ['i'], ['j']] [0, 1, 7], .getLongest [] [['h'], ['k']]]
    ∃ cache kvCache, RadixPrefixCache.new 1 = .ok cache ∧ PagedKvCache.new 3 16 = .ok kvCache ∧
      (object.run calls (cache, kvCache)).1.nodeCount = 1 ∧
      (object.run calls (cache, kvCache)).1.nodeCount ≤ 1 := by
  intro calls
  have accepted : RadixPrefixCache.new 1 = .ok _ := rfl
  have acceptedKv : PagedKvCache.new 3 16 = .ok _ := rfl
  exact ⟨_, _, accepted, acceptedKv, by decide, (tree_pinned accepted acceptedKv calls).2.1⟩

end RadixPrefixCache
end InferSched.Engine

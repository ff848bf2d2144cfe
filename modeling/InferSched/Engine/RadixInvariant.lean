import Mathlib.Algebra.BigOperators.Group.List.Basic
import InferSched.Engine.KvHolders
import InferSched.Engine.RadixPrefixCache

/-! # The invariant of the radix prefix cache

`RadixPrefixCache.Linked` ties a prefix cache to the KV cache it pins blocks in:
the pins of the KV cache are one for each node, with that node's block. Every
operation keeps the link. A lookup changes no pin, an eviction removes the pin of
one node and fails only on an empty cache, and an insertion pins the blocks it is
given below the nodes that were already there.
-/

namespace InferSched.Engine

open Library

namespace PagedKvCache

/-- The pinned prefixes with their blocks. -/
def pins (cache : PagedKvCache) : Multiset (Text × List BlockId) :=
  (cache.prefixBlocks.entries.map fun entry => (entry.1, entry.2) : List (Text × List BlockId))

variable {cache : PagedKvCache}

theorem mem_pins_iff {key : Text} {blocks : List BlockId} :
    (key, blocks) ∈ cache.pins ↔ cache.prefixBlocks.lookup key = some blocks := by
  rw [pins, Multiset.mem_coe, List.mem_map]
  constructor
  · rintro ⟨⟨key', blocks'⟩, member, equal⟩
    obtain ⟨rfl, rfl⟩ := Prod.mk.inj equal
    exact AList.mem_lookup_iff.mpr member
  · intro found
    exact ⟨⟨key, blocks⟩, AList.mem_lookup_iff.mp found, rfl⟩

/-- The pins that list a block. -/
theorem holders_prefixBlocks (cache : PagedKvCache) (block : BlockId) :
    cache.prefixBlocks.holders block = cache.pins.countP fun pin => block ∈ pin.2 := by
  rw [pins, Multiset.coe_countP, List.countP_map]
  rfl

/-- Unpinning a known key removes its pin. -/
theorem unpinPrefix_pins {key : Text} {blocks : List BlockId}
    (found : cache.prefixBlocks.lookup key = some blocks) :
    cache.pins = (key, blocks) ::ₘ (cache.unpinPrefix key).2.pins ∧
      cache.Shrinks (cache.unpinPrefix key).2 := by
  obtain ⟨removed, shrinks⟩ := cache.unpinPrefix_tables key
  refine ⟨?_, shrinks⟩
  rw [pins, pins, removed, Multiset.cons_coe, Multiset.coe_eq_coe]
  exact (AList.entries_perm_of_lookup found).map _

/-- A successful pin of one block. -/
theorem pinPrefix_pins {key : Text} {block : BlockId}
    (accepted : (cache.pinPrefix key [block]).1 = true) :
    (cache.pinPrefix key [block]).2.pins = (key, [block]) ::ₘ cache.pins ∧
      (cache.pinPrefix key [block]).2.sequenceBlocks = cache.sequenceBlocks ∧
      (cache.pinPrefix key [block]).2.totalBlocks = cache.totalBlocks ∧
      (cache.pinPrefix key [block]).2.blockSizeTokens = cache.blockSizeTokens ∧
      ∀ other, (cache.pinPrefix key [block]).2.prefixBlocks.holders other =
        cache.prefixBlocks.holders other + if other = block then 1 else 0 := by
  obtain ⟨fresh, added, sequences, totalBlocks, blockSizeTokens⟩ := pinPrefix_tables accepted
  refine ⟨?_, sequences, totalBlocks, blockSizeTokens, ?_⟩
  · rw [pins, pins, added, Multiset.cons_coe, AList.entries_insert_of_notMem fresh]
    rfl
  · intro other
    rw [added, Holdings.holders_insert_of_notMem fresh]
    simp only [List.mem_singleton]

end PagedKvCache

namespace RadixNode

/-- The pin of a node. -/
def pin (node : RadixNode) : Text × List BlockId :=
  (node.pinKey, [node.block])

/-- The pins of nodes that list a block. -/
theorem countP_pin (nodes : Multiset RadixNode) (block : BlockId) :
    (nodes.map pin).countP (fun pin => block ∈ pin.2) =
      (nodes.map RadixNode.block).count block := by
  rw [Multiset.countP_map, Multiset.count, Multiset.countP_map]
  simp only [pin, List.mem_singleton]

end RadixNode

namespace RadixPrefixCache

/-- The pins of a forest. -/
def forestPins (forest : RadixForest) : Multiset (Text × List BlockId) :=
  forest.values.map RadixNode.pin

/-- The nodes of the other namespaces. -/
def otherNodes (cache : RadixPrefixCache) (cacheNamespace : Text) : Multiset RadixNode :=
  ((cache.roots.erase cacheNamespace).entries.map fun root => root.2.values).sum

/-- The nodes below a namespace, none when it is unknown. -/
def forestOf (cache : RadixPrefixCache) (cacheNamespace : Text) : RadixForest :=
  (cache.roots.lookup cacheNamespace).getD .nil

theorem nodes_eq (cache : RadixPrefixCache) (cacheNamespace : Text) :
    cache.nodes = (cache.forestOf cacheNamespace).values + cache.otherNodes cacheNamespace := by
  unfold forestOf
  cases found : cache.roots.lookup cacheNamespace with
  | none =>
      rw [otherNodes, AList.erase_of_notMem (AList.lookup_eq_none.mp found)]
      exact (zero_add _).symm
  | some forest =>
      have perm := (AList.entries_perm_of_lookup found).map fun root => root.2.values
      exact perm.sum_eq

/-- The nodes after the forest of a namespace is replaced. -/
theorem nodes_insert (cache : RadixPrefixCache) (cacheNamespace : Text) (forest : RadixForest) :
    ((cache.roots.insert cacheNamespace forest).entries.map fun root => root.2.values).sum =
      forest.values + cache.otherNodes cacheNamespace := by
  rw [AList.entries_insert, List.map_cons, List.sum_cons]
  rfl

/-- The pins of the KV cache are those of the nodes. -/
structure Linked (cache : RadixPrefixCache) (kvCache : PagedKvCache) : Prop where
  invariant : kvCache.Invariant
  pins : kvCache.pins = cache.nodes.map RadixNode.pin
  keyed : ∀ cacheNamespace forest, cache.roots.lookup cacheNamespace = some forest →
    forest.WellKeyed
  counted : cache.nodeCount = Multiset.card cache.nodes

variable {cache : RadixPrefixCache} {kvCache : PagedKvCache}

theorem forestOf_of_lookup {cacheNamespace : Text} {forest : RadixForest}
    (stored : cache.roots.lookup cacheNamespace = some forest) :
    cache.forestOf cacheNamespace = forest := by
  rw [forestOf, stored, Option.getD_some]

theorem forestOf_of_none {cacheNamespace : Text}
    (unknown : cache.roots.lookup cacheNamespace = none) :
    cache.forestOf cacheNamespace = .nil := by
  rw [forestOf, unknown, Option.getD_none]

theorem keyed_forestOf
    (keyed : ∀ cacheNamespace forest, cache.roots.lookup cacheNamespace = some forest →
      forest.WellKeyed) (cacheNamespace : Text) :
    (cache.forestOf cacheNamespace).WellKeyed := by
  cases found : cache.roots.lookup cacheNamespace with
  | none =>
      rw [forestOf_of_none found]
      trivial
  | some forest =>
      rw [forestOf_of_lookup found]
      exact keyed cacheNamespace forest found

/-- The link does not depend on the sequences. -/
theorem Linked.of_prefixBlocks (linked : cache.Linked kvCache) {kvNext : PagedKvCache}
    (invariant : kvNext.Invariant) (same : kvNext.prefixBlocks = kvCache.prefixBlocks) :
    cache.Linked kvNext := by
  refine ⟨invariant, ?_, linked.keyed, linked.counted⟩
  rw [← linked.pins, PagedKvCache.pins, same]
  rfl

/-- Replacing the forest of one namespace keeps the others. -/
theorem keyed_insert {cacheNamespace : Text} {forest : RadixForest}
    (keyed : ∀ other stored, cache.roots.lookup other = some stored → stored.WellKeyed)
    (wellKeyed : forest.WellKeyed) :
    ∀ other stored, (cache.roots.insert cacheNamespace forest).lookup other = some stored →
      stored.WellKeyed := by
  intro other stored found
  by_cases same : other = cacheNamespace
  · subst same
    rw [AList.lookup_insert] at found
    cases found
    exact wellKeyed
  · rw [AList.lookup_insert_ne same] at found
    exact keyed other stored found

/-! ### Lookups -/

/-- The blocks of the longest prefix of the hashes that is a path. -/
def longest : List Text → RadixForest → List BlockId
  | [], _ => []
  | hash :: hashes, forest =>
      match forest.find? hash with
      | none => []
      | some (node, children) => node.block :: longest hashes children

@[simp] theorem longest_nil (hashes : List Text) : longest hashes .nil = [] := by
  cases hashes with
  | nil => rfl
  | cons hash hashes => rfl

theorem longest_length (hashes : List Text) (forest : RadixForest) :
    (longest hashes forest).length ≤ hashes.length := by
  induction hashes generalizing forest with
  | nil => exact Nat.le_refl _
  | cons hash hashes ih =>
      unfold longest
      split
      · exact Nat.zero_le _
      · exact Nat.succ_le_succ (ih _)

/-- The blocks of a path are blocks of distinct nodes. -/
theorem longest_le (hashes : List Text) (forest : RadixForest) :
    (longest hashes forest : Multiset BlockId) ≤ forest.values.map RadixNode.block := by
  induction hashes generalizing forest with
  | nil => exact Multiset.zero_le _
  | cons hash hashes ih =>
      unfold longest
      split
      · exact Multiset.zero_le _
      · next node children found =>
          rw [Trie.values_of_find found, Multiset.map_cons, Multiset.map_add, ← Multiset.cons_coe]
          exact Multiset.cons_le_cons _ ((ih children).trans (Multiset.le_add_right _ _))

/-- A walk gives the longest prefix and changes only stamps on it. -/
theorem touchPath_spec (hashes : List Text) (forest : RadixForest) (accessClock : ℕ) :
    let touched := touchPath hashes forest accessClock
    touched.2.1 = longest hashes forest ∧ longest hashes touched.1 = longest hashes forest ∧
      forestPins touched.1 = forestPins forest ∧
      Multiset.card touched.1.values = Multiset.card forest.values ∧
      (forest.WellKeyed → touched.1.WellKeyed) := by
  induction hashes generalizing forest accessClock with
  | nil => exact ⟨rfl, rfl, rfl, rfl, id⟩
  | cons hash hashes ih =>
      cases found : forest.find? hash with
      | none =>
          simp only [touchPath, longest, found]
          exact ⟨trivial, trivial, trivial, trivial, id⟩
      | some entry =>
          obtain ⟨node, children⟩ := entry
          obtain ⟨blocks, again, pins, count, keyed⟩ := ih children (accessClock + 1)
          simp only [touchPath, longest, found]
          refine ⟨by rw [blocks], ?_, ?_, ?_, ?_⟩
          · rw [Trie.find?_set_self found]
            dsimp only
            rw [again]
          · unfold forestPins at pins ⊢
            rw [Trie.values_set found, Trie.values_of_find found, Multiset.map_cons,
              Multiset.map_cons, Multiset.map_add, Multiset.map_add, pins]
            rfl
          · rw [Trie.values_set found, Trie.values_of_find found, Multiset.card_cons,
              Multiset.card_cons, Multiset.card_add, Multiset.card_add, count]
          · intro wellKeyed
            exact wellKeyed.set (keyed (wellKeyed.of_find found))

/-- A lookup gives the longest cached prefix and keeps the link. -/
theorem Linked.getLongest (linked : cache.Linked kvCache) (cacheNamespace : Text)
    (hashes : List Text) :
    (cache.getLongest cacheNamespace hashes).2.Linked kvCache ∧
      ((cache.getLongest cacheNamespace hashes).1.getD []) =
        longest hashes (cache.forestOf cacheNamespace) ∧
      longest hashes ((cache.getLongest cacheNamespace hashes).2.forestOf cacheNamespace) =
        longest hashes (cache.forestOf cacheNamespace) ∧
      Multiset.card (cache.getLongest cacheNamespace hashes).2.nodes =
        Multiset.card cache.nodes ∧
      (cache.getLongest cacheNamespace hashes).2.capacity = cache.capacity := by
  have nodes := cache.nodes_eq cacheNamespace
  unfold RadixPrefixCache.getLongest
  cases found : cache.roots.lookup cacheNamespace with
  | none =>
      refine ⟨linked, ?_, rfl, rfl, rfl⟩
      rw [forestOf_of_none found, longest_nil]
      rfl
  | some forest =>
      rw [forestOf_of_lookup found] at nodes ⊢
      obtain ⟨blocks, again, pins, count, keyed⟩ :=
        touchPath_spec hashes forest cache.accessClock
      dsimp only
      have card : Multiset.card ((cache.roots.insert cacheNamespace
          (touchPath hashes forest cache.accessClock).1).entries.map fun root =>
            root.2.values).sum = Multiset.card cache.nodes := by
        rw [cache.nodes_insert, nodes, Multiset.card_add, Multiset.card_add, count]
      refine ⟨⟨linked.invariant, ?_, ?_, ?_⟩, ?_, ?_, card, rfl⟩
      · rw [linked.pins, nodes]
        unfold forestPins at pins
        change _ = Multiset.map RadixNode.pin ((cache.roots.insert cacheNamespace _).entries.map
          fun root => root.2.values).sum
        rw [cache.nodes_insert, Multiset.map_add, Multiset.map_add, pins]
      · exact keyed_insert linked.keyed (keyed (linked.keyed _ _ found))
      · exact linked.counted.trans card.symm
      · rw [← blocks]
        split
        · next none => exact none.symm
        · rfl
      · unfold forestOf
        rw [AList.lookup_insert]
        exact again

/-! ### Eviction -/

/-- A search keeps its candidate or finds a leaf, and finds one when there is one. -/
theorem findOldestLeaf_spec (cacheNamespace : Text) (trail : List Text) (forest : RadixForest)
    (candidate : Option LeafCandidate) (keyed : forest.WellKeyed) :
    (findOldestLeaf cacheNamespace trail forest candidate = candidate ∧
      (candidate = none → forest = .nil)) ∨
    ∃ path key node, findOldestLeaf cacheNamespace trail forest candidate =
        some ⟨cacheNamespace, trail ++ path, key, node.lastAccess⟩ ∧
      forest.Leaf path key node := by
  induction trail, forest, candidate using findOldestLeaf.induct cacheNamespace with
  | case1 trail candidate => exact Or.inl ⟨rfl, fun _ => rfl⟩
  | case2 trail key node rest candidate ih =>
      rw [findOldestLeaf]
      rcases ih keyed.2.2 with ⟨kept, _⟩ | ⟨path, other, found, result, leaf⟩
      · rw [kept]
        split
        · exact Or.inr ⟨[], key, node, by rw [List.append_nil], Trie.Leaf.here⟩
        · next younger =>
            refine Or.inl ⟨rfl, fun none => ?_⟩
            subst none
            exact absurd rfl younger
      · exact Or.inr ⟨path, other, found, result, leaf.sibling keyed.1⟩
  | case3 trail key node childKey child grandchildren siblings rest candidate ihChild ihRest =>
      rw [findOldestLeaf]
      rcases ihRest keyed.2.2 with ⟨kept, empty⟩ | ⟨path, other, found, result, leaf⟩
      · rw [kept]
        rcases ihChild keyed.2.1 with ⟨same, none⟩ | ⟨path, other, found, result, leaf⟩
        · refine Or.inl ⟨same, fun absent => ?_⟩
          cases none absent
        · refine Or.inr ⟨key :: path, other, found, ?_, leaf.child⟩
          rw [result, List.append_assoc]
          rfl
      · exact Or.inr ⟨path, other, found, result, leaf.sibling keyed.1⟩

/-- The candidate among all namespaces is a leaf with its stamp, and exists when there is a
node. -/
theorem oldestLeaf_cases
    (keyed : ∀ cacheNamespace forest, cache.roots.lookup cacheNamespace = some forest →
      forest.WellKeyed) :
    (cache.oldestLeaf = none ∧ cache.nodes = 0) ∨
    ∃ candidate forest node, cache.oldestLeaf = some candidate ∧
      cache.roots.lookup candidate.cacheNamespace = some forest ∧
      forest.Leaf candidate.parent candidate.key node ∧
      candidate.lastAccess = node.lastAccess := by
  -- The induction is on the namespaces still to search; `known` are those of the cache.
  have search : ∀ (roots : List (Sigma fun _ : Text => RadixForest))
      (candidate : Option LeafCandidate), (∀ root ∈ roots, root ∈ cache.roots.entries) →
      (roots.foldl (fun candidate root => findOldestLeaf root.1 [] root.2 candidate) candidate =
        candidate ∧ (candidate = none → (roots.map fun root => root.2.values).sum = 0)) ∨
      ∃ found forest node, roots.foldl (fun candidate root =>
          findOldestLeaf root.1 [] root.2 candidate) candidate = some found ∧
        cache.roots.lookup found.cacheNamespace = some forest ∧
        forest.Leaf found.parent found.key node ∧ found.lastAccess = node.lastAccess := by
    intro roots
    induction roots with
    | nil => exact fun _ _ => Or.inl ⟨rfl, fun _ => rfl⟩
    | cons root roots ih =>
        intro candidate known
        have stored : cache.roots.lookup root.1 = some root.2 :=
          AList.mem_lookup_iff.mpr (known root List.mem_cons_self)
        rw [List.foldl_cons]
        rcases ih (findOldestLeaf root.1 [] root.2 candidate)
          fun other member => known other (List.mem_cons_of_mem _ member) with
          ⟨kept, empty⟩ | found
        · rw [kept]
          rcases findOldestLeaf_spec root.1 [] root.2 candidate (keyed _ _ stored) with
            ⟨same, none⟩ | ⟨path, key, node, result, leaf⟩
          · refine Or.inl ⟨same, fun absent => ?_⟩
            rw [List.map_cons, List.sum_cons, empty (same.trans absent), none absent]
            rfl
          · exact Or.inr ⟨_, root.2, node, result, stored, leaf, rfl⟩
        · exact Or.inr found
  rcases search cache.roots.entries none fun _ member => member with ⟨same, empty⟩ | found
  · exact Or.inl ⟨same, empty rfl⟩
  · exact Or.inr found

/-- An eviction erases its leaf and unpins it. -/
theorem evictOldest_of_leaf {candidate : LeafCandidate} {forest : RadixForest} {node : RadixNode}
    (chosen : cache.oldestLeaf = some candidate)
    (stored : cache.roots.lookup candidate.cacheNamespace = some forest)
    (leaf : forest.Leaf candidate.parent candidate.key node) (kvCache : PagedKvCache) :
    cache.evictOldest kvCache =
      (true,
        { cache with
          roots := cache.roots.insert candidate.cacheNamespace
            (forest.modifyAt (Trie.erase candidate.key) candidate.parent)
          nodeCount := cache.nodeCount - 1 },
        (kvCache.unpinPrefix node.pinKey).2) := by
  have isNode : cache.candidateNode candidate = some node := by
    obtain ⟨siblings, descends, found⟩ := leaf
    rw [candidateNode, stored]
    simp only [Option.bind_some, descends, found, Option.map_some]
  unfold RadixPrefixCache.evictOldest
  rw [chosen]
  simp only [stored, isNode]

/-- The nodes without an erased leaf. -/
theorem nodes_of_leaf {cacheNamespace key : Text} {parent : List Text} {forest : RadixForest}
    {node : RadixNode} (stored : cache.roots.lookup cacheNamespace = some forest)
    (leaf : forest.Leaf parent key node) :
    cache.nodes = node ::ₘ ((cache.roots.insert cacheNamespace
      (forest.modifyAt (Trie.erase key) parent)).entries.map fun root => root.2.values).sum := by
  rw [cache.nodes_insert, cache.nodes_eq cacheNamespace, forestOf_of_lookup stored,
    leaf.values_erase, Multiset.cons_add]

/-- What evictions leave: a linked cache with some of the nodes. -/
structure Evicted (cache : RadixPrefixCache) (kvCache : PagedKvCache) (next : RadixPrefixCache)
    (kvNext : PagedKvCache) : Prop where
  linked : next.Linked kvNext
  fewer : next.nodes ≤ cache.nodes
  shrinks : kvCache.Shrinks kvNext
  capacity : next.capacity = cache.capacity

theorem Evicted.refl (linked : cache.Linked kvCache) : Evicted cache kvCache cache kvCache :=
  ⟨linked, le_rfl, .refl _, rfl⟩

theorem Evicted.trans {second third : RadixPrefixCache} {kvSecond kvThird : PagedKvCache}
    (one : Evicted cache kvCache second kvSecond) (two : Evicted second kvSecond third kvThird) :
    Evicted cache kvCache third kvThird :=
  ⟨two.linked, two.fewer.trans one.fewer, one.shrinks.trans two.shrinks,
    two.capacity.trans one.capacity⟩

/-- An eviction fails on an empty cache and otherwise removes one node. -/
theorem Linked.evictOldest (linked : cache.Linked kvCache) :
    (cache.evictOldest kvCache = (false, cache, kvCache) ∧ cache.nodes = 0) ∨
    ∃ next kvNext, cache.evictOldest kvCache = (true, next, kvNext) ∧
      Evicted cache kvCache next kvNext ∧
      Multiset.card cache.nodes = Multiset.card next.nodes + 1 := by
  rcases oldestLeaf_cases linked.keyed with
    ⟨none, empty⟩ | ⟨candidate, forest, node, chosen, stored, leaf, _⟩
  · refine Or.inl ⟨?_, empty⟩
    unfold RadixPrefixCache.evictOldest
    rw [none]
  · have nodes := nodes_of_leaf stored leaf
    have pinned : kvCache.prefixBlocks.lookup node.pinKey = some [node.block] := by
      apply PagedKvCache.mem_pins_iff.mp
      rw [linked.pins, nodes]
      exact Multiset.mem_map_of_mem RadixNode.pin (Multiset.mem_cons_self _ _)
    obtain ⟨pins, shrinks⟩ := PagedKvCache.unpinPrefix_pins pinned
    rw [linked.pins, nodes, Multiset.map_cons] at pins
    refine Or.inr ⟨_, _, evictOldest_of_leaf chosen stored leaf kvCache,
      ⟨⟨linked.invariant.unpinPrefix _, ?_, ?_, ?_⟩, ?_, shrinks, rfl⟩, ?_⟩
    · exact (Multiset.cons_inj_right _).mp pins.symm
    · exact keyed_insert linked.keyed
        ((linked.keyed _ _ stored).modifyAt (fun keyed => keyed.erase) _)
    · change cache.nodeCount - 1 = Multiset.card ((cache.roots.insert _ _).entries.map _).sum
      rw [linked.counted, nodes, Multiset.card_cons, Nat.add_sub_cancel]
    · rw [nodes]
      exact Multiset.le_cons_self _ _
    · rw [nodes, Multiset.card_cons]
      rfl

theorem Linked.evictToCapacity (turns : ℕ) (linked : cache.Linked kvCache) :
    Evicted cache kvCache (evictToCapacity turns cache kvCache).1
      (evictToCapacity turns cache kvCache).2 := by
  induction turns generalizing cache kvCache with
  | zero => exact .refl linked
  | succ turns ih =>
      unfold RadixPrefixCache.evictToCapacity
      split
      · rcases linked.evictOldest with ⟨result, _⟩ | ⟨next, kvNext, result, evicted, _⟩
        · rw [result]
          exact .refl linked
        · rw [result]
          exact evicted.trans (ih evicted.linked)
      · exact .refl linked

/-! ### Insertion -/

/-- The blocks of the pairs below the longest path that exists. -/
def unmatched (pairs : List (Text × BlockId)) (forest : RadixForest) : List BlockId :=
  (pairs.map Prod.snd).drop (longest (pairs.map Prod.fst) forest).length

/-- When the longest path has the first of the blocks, the others are unmatched. -/
theorem unmatched_zip {hashes : List Text} {shared fresh : List BlockId} {forest : RadixForest}
    (enough : hashes.length ≤ (shared ++ fresh).length)
    (path : longest hashes forest = shared) :
    unmatched (hashes.zip (shared ++ fresh)) forest =
      fresh.take (hashes.length - shared.length) := by
  have blocks : (hashes.zip (shared ++ fresh)).map Prod.snd =
      (shared ++ fresh).take hashes.length := by
    rw [List.zip_eq_zip_take_min, Nat.min_eq_left enough]
    apply List.map_snd_zip
    rw [List.length_take, List.length_take]
    omega
  rw [unmatched, List.map_fst_zip enough, path, blocks, List.drop_take, List.drop_left]

/-- What an insertion leaves: the pairs below the longest path that exists are
pinned one after another, up to the first pin that fails. -/
structure Extended (pairs : List (Text × BlockId)) (forest next : RadixForest)
    (state after : Insertion) (added : Multiset RadixNode) : Prop where
  invariant : after.kvCache.Invariant
  sequences : after.kvCache.sequenceBlocks = state.kvCache.sequenceBlocks
  totalBlocks : after.kvCache.totalBlocks = state.kvCache.totalBlocks
  blockSizeTokens : after.kvCache.blockSizeTokens = state.kvCache.blockSizeTokens
  pins : after.kvCache.pins = added.map RadixNode.pin + state.kvCache.pins
  forestPins : forestPins next = added.map RadixNode.pin + forestPins forest
  card : Multiset.card next.values = Multiset.card added + Multiset.card forest.values
  inserted : after.inserted = Multiset.card added + state.inserted
  blocks : added.map RadixNode.block ≤ unmatched pairs forest
  keyed : forest.WellKeyed → next.WellKeyed

theorem Extended.refl (pairs : List (Text × BlockId)) (forest : RadixForest)
    {state after : Insertion} (invariant : state.kvCache.Invariant)
    (kvCache : after.kvCache = state.kvCache) (inserted : after.inserted = state.inserted) :
    Extended pairs forest forest state after 0 := by
  refine ⟨?_, ?_, ?_, ?_, ?_, (zero_add _).symm, (zero_add _).symm, ?_, Multiset.zero_le _, id⟩
  · rw [kvCache]
    exact invariant
  · rw [kvCache]
  · rw [kvCache]
  · rw [kvCache]
  · rw [kvCache]
    exact (zero_add _).symm
  · rw [inserted]
    exact (zero_add _).symm

/-- The path goes on below a node that exists. -/
theorem Extended.found {hash : Text} {block : BlockId} {later : List (Text × BlockId)}
    {forest children next : RadixForest} {node : RadixNode} {state after : Insertion}
    {added : Multiset RadixNode} {stamp : ℕ}
    (found : forest.find? hash = some (node, children))
    (below : Extended later children next { state with accessClock := stamp } after added) :
    Extended ((hash, block) :: later) forest
      (forest.set hash { node with lastAccess := stamp } next) state after added := by
  refine ⟨below.invariant, below.sequences, below.totalBlocks, below.blockSizeTokens, below.pins,
    ?_, ?_, below.inserted, ?_, ?_⟩
  · have pins := below.forestPins
    unfold RadixPrefixCache.forestPins at pins ⊢
    rw [Trie.values_set found, Trie.values_of_find found, Multiset.map_cons,
      Multiset.map_cons, Multiset.map_add, Multiset.map_add, pins, Multiset.add_cons,
      add_assoc]
    rfl
  · rw [Trie.values_set found, Trie.values_of_find found, Multiset.card_cons,
      Multiset.card_cons, Multiset.card_add, Multiset.card_add, below.card]
    omega
  · simp only [unmatched, List.map_cons, longest, found, List.length_cons,
      List.drop_succ_cons]
    exact below.blocks
  · intro wellKeyed
    exact wellKeyed.set (below.keyed (wellKeyed.of_find found))

/-- The path goes on below a node that is pinned and added. -/
theorem Extended.pinned {hash : Text} {block : BlockId} {later : List (Text × BlockId)}
    {forest next : RadixForest} {state after : Insertion} {added : Multiset RadixNode}
    (missing : forest.find? hash = none)
    (accepted : (state.kvCache.pinPrefix (pinKey state.nextPinId) [block]).1 = true)
    (below : Extended later .nil next
      { kvCache := (state.kvCache.pinPrefix (pinKey state.nextPinId) [block]).2
        accessClock := state.accessClock + 1
        nextPinId := state.nextPinId + 1
        inserted := state.inserted + 1 } after added) :
    Extended ((hash, block) :: later) forest
      (.cons hash ⟨block, pinKey state.nextPinId, state.accessClock + 1⟩ next forest) state after
      (⟨block, pinKey state.nextPinId, state.accessClock + 1⟩ ::ₘ added) := by
  obtain ⟨pins, sequences, totalBlocks, blockSizeTokens, _⟩ := PagedKvCache.pinPrefix_pins accepted
  have belowBlocks := below.blocks
  rw [unmatched, longest_nil] at belowBlocks
  refine ⟨below.invariant, below.sequences.trans sequences, below.totalBlocks.trans totalBlocks,
    below.blockSizeTokens.trans blockSizeTokens, ?_, ?_, ?_, ?_, ?_, ?_⟩
  · rw [below.pins]
    dsimp only
    rw [pins, Multiset.add_cons, Multiset.map_cons, Multiset.cons_add]
    rfl
  · have inner := below.forestPins
    unfold RadixPrefixCache.forestPins at inner ⊢
    rw [Trie.values, Multiset.map_cons, Multiset.map_add, inner, Multiset.map_cons,
      Multiset.cons_add]
    change _ ::ₘ (_ + 0 + _) = _
    rw [add_zero]
  · rw [Trie.values, Multiset.card_cons, Multiset.card_add, below.card, Multiset.card_cons]
    change _ + 0 + _ + 1 = _
    omega
  · rw [below.inserted, Multiset.card_cons]
    dsimp only
    omega
  · simp only [unmatched, List.map_cons, longest, missing, List.length_nil, List.drop_zero,
      Multiset.map_cons]
    rw [← Multiset.cons_coe]
    exact Multiset.cons_le_cons _ belowBlocks
  · intro wellKeyed
    exact ⟨Trie.find?_eq_none_iff.mp missing, below.keyed trivial, wellKeyed⟩

theorem putPath_extended (pairs : List (Text × BlockId)) (forest : RadixForest)
    (state : Insertion) (invariant : state.kvCache.Invariant) :
    ∃ added, Extended pairs forest (putPath pairs forest state).1 state
      (putPath pairs forest state).2 added := by
  induction pairs generalizing forest state with
  | nil => exact ⟨0, Extended.refl [] forest invariant rfl rfl⟩
  | cons pair later ih =>
      obtain ⟨hash, block⟩ := pair
      unfold putPath
      cases found : forest.find? hash with
      | some entry =>
          obtain ⟨node, children⟩ := entry
          obtain ⟨added, below⟩ := ih children
            { state with accessClock := state.accessClock + 1 } invariant
          exact ⟨added, below.found found⟩
      | none =>
          dsimp only
          split
          · exact ⟨0, Extended.refl _ forest invariant rfl rfl⟩
          · next accepted =>
              obtain ⟨added, below⟩ := ih .nil
                { kvCache := (state.kvCache.pinPrefix (pinKey state.nextPinId) [block]).2
                  accessClock := state.accessClock + 1
                  nextPinId := state.nextPinId + 1
                  inserted := state.inserted + 1 }
                (invariant.pinPrefix (pinKey state.nextPinId) [block])
              exact ⟨_, below.pinned found (by simpa using accepted)⟩

/-- The cache with the extended forest is linked to the extended KV cache. -/
theorem Linked.extended (linked : cache.Linked kvCache) {cacheNamespace : Text}
    {pairs : List (Text × BlockId)} {next : RadixForest} {state after : Insertion}
    {added : Multiset RadixNode}
    (extended : Extended pairs (cache.forestOf cacheNamespace) next state after added)
    (starts : state.kvCache = kvCache) (none : state.inserted = 0) :
    Linked { cache with
      roots := cache.roots.insert cacheNamespace next
      nodeCount := cache.nodeCount + after.inserted
      accessClock := after.accessClock
      nextPinId := after.nextPinId } after.kvCache := by
  have nodes := cache.nodes_eq cacheNamespace
  have remaining := cache.nodes_insert cacheNamespace next
  refine ⟨extended.invariant, ?_, ?_, ?_⟩
  · have pins := extended.forestPins
    unfold forestPins at pins
    change _ = Multiset.map RadixNode.pin ((cache.roots.insert _ _).entries.map _).sum
    rw [remaining, extended.pins, starts, linked.pins, nodes, Multiset.map_add, Multiset.map_add,
      pins, add_assoc]
  · exact keyed_insert linked.keyed (extended.keyed (keyed_forestOf linked.keyed cacheNamespace))
  · change cache.nodeCount + _ = Multiset.card ((cache.roots.insert _ _).entries.map _).sum
    rw [remaining, Multiset.card_add, extended.card, extended.inserted, linked.counted, nodes,
      Multiset.card_add, none]
    omega

/-- An insertion keeps the link and pins only blocks below the longest path. -/
theorem Linked.putBlockPrefixes (linked : cache.Linked kvCache) (cacheNamespace : Text)
    (hashes : List Text) (blocks : List BlockId) :
    let put := cache.putBlockPrefixes kvCache cacheNamespace hashes blocks
    put.2.1.Linked put.2.2 ∧ put.2.2.sequenceBlocks = kvCache.sequenceBlocks ∧
      put.2.2.totalBlocks = kvCache.totalBlocks ∧
      put.2.2.blockSizeTokens = kvCache.blockSizeTokens ∧
      put.2.1.capacity = cache.capacity ∧
      ∀ block, put.2.2.prefixBlocks.holders block ≤ kvCache.prefixBlocks.holders block +
        (unmatched (hashes.zip blocks) (cache.forestOf cacheNamespace)).count block := by
  obtain ⟨added, extended⟩ := putPath_extended (hashes.zip blocks)
    (cache.forestOf cacheNamespace)
    { kvCache, accessClock := cache.accessClock, nextPinId := cache.nextPinId, inserted := 0 }
    linked.invariant
  have evicted := (linked.extended extended rfl rfl).evictToCapacity
    (cache.nodeCount + (putPath (hashes.zip blocks) (cache.forestOf cacheNamespace)
      { kvCache, accessClock := cache.accessClock, nextPinId := cache.nextPinId,
        inserted := 0 }).2.inserted)
  refine ⟨evicted.linked, evicted.shrinks.sequences.trans extended.sequences,
    evicted.shrinks.totalBlocks.trans extended.totalBlocks,
    evicted.shrinks.blockSizeTokens.trans extended.blockSizeTokens, evicted.capacity, ?_⟩
  intro block
  refine (evicted.shrinks.fewer block).trans ?_
  rw [PagedKvCache.holders_prefixBlocks, PagedKvCache.holders_prefixBlocks, extended.pins,
    Multiset.countP_add, RadixNode.countP_pin, Nat.add_comm]
  apply Nat.add_le_add_left
  rw [← Multiset.coe_count]
  exact Multiset.count_le_of_le block extended.blocks

/-- No two nodes have the same block. -/
def Unshared (kvCache : PagedKvCache) : Prop :=
  ∀ block, kvCache.prefixBlocks.holders block ≤ 1

/-- The blocks of a path are distinct pinned blocks. -/
theorem Linked.longest_sharable (linked : cache.Linked kvCache) (unshared : Unshared kvCache)
    (cacheNamespace : Text) (hashes : List Text) :
    (longest hashes (cache.forestOf cacheNamespace)).Nodup ∧
      ∀ block ∈ longest hashes (cache.forestOf cacheNamespace),
        kvCache.prefixBlocks.holders block = 1 := by
  have counted : ∀ block, (longest hashes (cache.forestOf cacheNamespace)).count block ≤
      kvCache.prefixBlocks.holders block := by
    intro block
    rw [PagedKvCache.holders_prefixBlocks, linked.pins, RadixNode.countP_pin, ← Multiset.coe_count]
    apply Multiset.count_le_of_le
    rw [cache.nodes_eq cacheNamespace, Multiset.map_add]
    exact (longest_le hashes _).trans (Multiset.le_add_right _ _)
  constructor
  · rw [List.nodup_iff_count_le_one]
    exact fun block => (counted block).trans (unshared block)
  · intro block member
    have present := List.count_pos_iff.mpr member
    exact Nat.le_antisymm (unshared block) (present.trans_le (counted block))

/-! ### Clearing -/

/-- Unpinning a forest removes its pins. -/
theorem unpinTree_spec (forest : RadixForest) (others : Multiset (Text × List BlockId))
    (invariant : kvCache.Invariant) (pins : kvCache.pins = forestPins forest + others) :
    (unpinTree forest kvCache).Invariant ∧ (unpinTree forest kvCache).pins = others ∧
      kvCache.Shrinks (unpinTree forest kvCache) := by
  induction forest generalizing kvCache others with
  | nil => exact ⟨invariant, pins.trans (zero_add _), .refl _⟩
  | cons key node children rest ihChildren ihRest =>
      have split : kvCache.pins =
          forestPins children + (node.pin ::ₘ (forestPins rest + others)) := by
        rw [pins, forestPins, Trie.values, Multiset.map_cons, Multiset.map_add, Multiset.cons_add,
          Multiset.add_cons, add_assoc]
        rfl
      obtain ⟨invariant', pins', shrinks⟩ := ihChildren _ invariant split
      have pinned : (unpinTree children kvCache).prefixBlocks.lookup node.pinKey =
          some [node.block] := by
        apply PagedKvCache.mem_pins_iff.mp
        rw [pins']
        exact Multiset.mem_cons_self _ _
      obtain ⟨removed, shrinks'⟩ := PagedKvCache.unpinPrefix_pins pinned
      have after := (Multiset.cons_inj_right _).mp (pins'.symm.trans removed)
      obtain ⟨invariant'', pins'', shrinks''⟩ :=
        ihRest others (invariant'.unpinPrefix node.pinKey) after.symm
      exact ⟨invariant'', pins'', (shrinks.trans shrinks').trans shrinks''⟩

/-- Clearing leaves no node and no pin. -/
theorem Linked.clear (linked : cache.Linked kvCache) :
    (cache.clear kvCache).1.Linked (cache.clear kvCache).2 ∧
      (cache.clear kvCache).1.nodes = 0 ∧ kvCache.Shrinks (cache.clear kvCache).2 ∧
      (cache.clear kvCache).1.capacity = cache.capacity := by
  have unpinned : ∀ (roots : List (Sigma fun _ : Text => RadixForest)) (kvCache : PagedKvCache),
      kvCache.Invariant →
      kvCache.pins = Multiset.map RadixNode.pin (roots.map fun root => root.2.values).sum →
      let left := roots.foldl (fun kvCache root => unpinTree root.2 kvCache) kvCache
      left.Invariant ∧ left.pins = 0 ∧ kvCache.Shrinks left := by
    intro roots
    induction roots with
    | nil => exact fun _ invariant pins => ⟨invariant, pins, .refl _⟩
    | cons root roots ih =>
        intro kvCache invariant pins
        rw [List.map_cons, List.sum_cons, Multiset.map_add] at pins
        obtain ⟨invariant', pins', shrinks⟩ := unpinTree_spec root.2 _ invariant pins
        obtain ⟨invariant'', pins'', shrinks'⟩ := ih _ invariant' pins'
        exact ⟨invariant'', pins'', shrinks.trans shrinks'⟩
  obtain ⟨invariant, pins, shrinks⟩ :=
    unpinned cache.roots.entries kvCache linked.invariant linked.pins
  refine ⟨⟨invariant, pins, ?_, rfl⟩, rfl, shrinks, rfl⟩
  intro cacheNamespace forest found
  cases found

/-- A new cache is linked to every KV cache without pins. -/
theorem Linked.new {nodeCapacity : ℕ} (accepted : RadixPrefixCache.new nodeCapacity = .ok cache)
    (invariant : kvCache.Invariant) (unpinned : kvCache.prefixBlocks = ∅) :
    cache.Linked kvCache := by
  rw [new_eq_ok accepted]
  refine ⟨invariant, ?_, ?_, rfl⟩
  · rw [PagedKvCache.pins, unpinned]
    rfl
  · intro cacheNamespace forest found
    cases found

end RadixPrefixCache
end InferSched.Engine

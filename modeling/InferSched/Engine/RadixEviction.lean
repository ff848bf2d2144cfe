import InferSched.Engine.AccessStamps
import InferSched.Engine.RadixPaths
import InferSched.Library.Recency
import InferSched.Library.TriePaths

/-! # The least recently touched leaf

The nodes of a radix prefix cache with the history of their touches. A node's stamp is the
position of its last touch in the history (`RadixPrefixCache.Journaled`), so `EvictOldest`
takes the leaf that all others have been touched after, in whatever order it sees the maps,
and changes nothing else.

The loop of `PutBlockPrefixes` is an operation of its own, too (`RadixPrefixCache.insertPath`),
so that the states between the evictions that follow it are states of a run.
-/

namespace InferSched.Engine.RadixPrefixCache

open Library Recency

/-! ### Operations -/

/-- The loop of `PutBlockPrefixes`, without the evictions. -/
def insertPath (cache : RadixPrefixCache) (kvCache : PagedKvCache) (cacheNamespace : Text)
    (promptBlockHashes : List Text) (blocks : List BlockId) :
    ℕ × RadixPrefixCache × PagedKvCache :=
  let forest := (cache.roots.lookup cacheNamespace).getD .nil
  let put := putPath (promptBlockHashes.zip blocks) forest
    { kvCache, accessClock := cache.accessClock, nextPinId := cache.nextPinId, inserted := 0 }
  (put.2.inserted,
    { cache with
      roots := cache.roots.insert cacheNamespace put.1
      nodeCount := cache.nodeCount + put.2.inserted
      accessClock := put.2.accessClock
      nextPinId := put.2.nextPinId },
    put.2.kvCache)

/-- The calls of the cache and the loop of an insertion by itself, with any calls of the
KV cache between them. -/
inductive Operation
  | getLongest (cacheNamespace : Text) (promptBlockHashes : List Text)
  | putBlockPrefixes (cacheNamespace : Text) (promptBlockHashes : List Text)
      (blocks : List BlockId)
  | insertPath (cacheNamespace : Text) (promptBlockHashes : List Text) (blocks : List BlockId)
  | evictOldest
  | clear
  | kvCache (call : PagedKvCache.Call)
deriving DecidableEq, Repr

inductive Answer
  | longest (blocks : Option (List BlockId))
  | inserted (count : ℕ)
  | evicted (value : Bool)
  | cleared
  | kvCache (answer : AllocationStatus ⊕ Bool)
deriving DecidableEq, Repr

def operations : AtomicObject (RadixPrefixCache × PagedKvCache) Operation Answer where
  respond operation state :=
    match operation with
    | .getLongest cacheNamespace hashes =>
        let found := state.1.getLongest cacheNamespace hashes
        (.longest found.1, found.2, state.2)
    | .putBlockPrefixes cacheNamespace hashes blocks =>
        let put := state.1.putBlockPrefixes state.2 cacheNamespace hashes blocks
        (.inserted put.1, put.2)
    | .insertPath cacheNamespace hashes blocks =>
        let put := state.1.insertPath state.2 cacheNamespace hashes blocks
        (.inserted put.1, put.2)
    | .evictOldest =>
        let evicted := state.1.evictOldest state.2
        (.evicted evicted.1, evicted.2)
    | .clear => (.cleared, state.1.clear state.2)
    | .kvCache call =>
        let answered := PagedKvCache.object.respond call state.2
        (.kvCache answered.1, state.1, answered.2)

/-- A whole insertion is its loop and then the evictions. -/
theorem putBlockPrefixes_eq (cache : RadixPrefixCache) (kvCache : PagedKvCache)
    (cacheNamespace : Text) (hashes : List Text) (blocks : List BlockId) :
    let put := cache.insertPath kvCache cacheNamespace hashes blocks
    cache.putBlockPrefixes kvCache cacheNamespace hashes blocks =
      (put.1, evictToCapacity put.2.1.nodeCount put.2.1 put.2.2) := by
  rfl

/-! ### Touches -/

/-- A node's namespace and the hashes that lead to it. -/
abbrev Place := Text × List Text

def nodeAt (cache : RadixPrefixCache) (place : Place) : Option RadixNode :=
  Trie.valueAt place.2 (cache.forestOf place.1)

/-- The node at a place is a leaf. -/
def IsLeaf (cache : RadixPrefixCache) (place : Place) (node : RadixNode) : Prop :=
  ∃ parent key, place.2 = parent ++ [key] ∧ (cache.forestOf place.1).Leaf parent key node

/-- The places along the first hashes. -/
def prefixes (cacheNamespace : Text) (hashes : List Text) (count : ℕ) : List Place :=
  (List.range' 1 count).map fun length => (cacheNamespace, hashes.take length)

/-- The places along the longest match, and along the nodes that an insertion adds to it. -/
def insertionTouches (cache : RadixPrefixCache) (kvCache : PagedKvCache) (cacheNamespace : Text)
    (hashes : List Text) (blocks : List BlockId) : List Place :=
  prefixes cacheNamespace hashes
    ((longest ((hashes.zip blocks).map Prod.fst) (cache.forestOf cacheNamespace)).length +
      (cache.insertPath kvCache cacheNamespace hashes blocks).1)

/-- The places that an operation touches, in order. -/
def touched (operation : Operation) (state : RadixPrefixCache × PagedKvCache) : List Place :=
  match operation with
  | .getLongest cacheNamespace hashes =>
      prefixes cacheNamespace hashes (longest hashes (state.1.forestOf cacheNamespace)).length
  | .putBlockPrefixes cacheNamespace hashes blocks =>
      state.1.insertionTouches state.2 cacheNamespace hashes blocks
  | .insertPath cacheNamespace hashes blocks =>
      state.1.insertionTouches state.2 cacheNamespace hashes blocks
  | .evictOldest => []
  | .clear => []
  | .kvCache _ => []

@[simp] theorem length_prefixes (cacheNamespace : Text) (hashes : List Text) (count : ℕ) :
    (prefixes cacheNamespace hashes count).length = count := by
  rw [prefixes, List.length_map, List.length_range']

/-- The places along a path are its prefixes. -/
theorem mem_prefixes {cacheNamespace other : Text} {hashes query : List Text} {count : ℕ}
    (bounded : count ≤ hashes.length) :
    (other, query) ∈ prefixes cacheNamespace hashes count ↔
      other = cacheNamespace ∧ query ≠ [] ∧ query <+: hashes.take count := by
  rw [prefixes, List.mem_map, List.prefix_take_iff]
  constructor
  · rintro ⟨length, member, same⟩
    obtain ⟨rfl, rfl⟩ := Prod.mk.inj same
    rw [List.mem_range'_1] at member
    have short : (hashes.take length).length = length := List.length_take_of_le (by omega)
    refine ⟨rfl, List.length_pos_iff.mp ?_, List.take_prefix _ _, ?_⟩
    · rw [short]
      exact member.1
    · rw [short]
      omega
  · rintro ⟨rfl, some, inside, short⟩
    have positive := List.length_pos_iff.mpr some
    refine ⟨query.length, List.mem_range'_1.mpr ⟨positive, by omega⟩, ?_⟩
    rw [← List.prefix_iff_eq_take.mp inside]

/-! ### Stamps along a path -/

/-- The nodes along the first hashes have the stamps that follow the clock, in order, and
the others keep theirs. -/
def Restamped (hashes : List Text) (count clock : ℕ) (forest next : RadixForest) : Prop :=
  ∀ query, (Trie.valueAt query next).map RadixNode.lastAccess =
    if query ≠ [] ∧ query <+: hashes.take count then some (clock + query.length)
    else (Trie.valueAt query forest).map RadixNode.lastAccess

theorem Restamped.refl (hashes : List Text) (clock : ℕ) (forest : RadixForest) :
    Restamped hashes 0 clock forest forest := by
  intro query
  rw [if_neg]
  rintro ⟨some, inside⟩
  exact some (List.prefix_nil.mp inside)

/-- A node is stamped, and the path below it. -/
theorem Restamped.step {hash : Text} {hashes : List Text} {count clock : ℕ}
    {forest next children below : RadixForest} {node : RadixNode}
    (here : next.find? hash = some (node, below)) (stamped : node.lastAccess = clock + 1)
    (others : ∀ first, first ≠ hash → next.find? first = forest.find? first)
    (old : ∀ query, query ≠ [] →
      Trie.valueAt (hash :: query) forest = Trie.valueAt query children)
    (deeper : Restamped hashes count (clock + 1) children below) :
    Restamped (hash :: hashes) (count + 1) clock forest next := by
  intro query
  rw [List.take_succ_cons]
  cases query with
  | nil => exact (if_neg fun both => both.1 rfl).symm
  | cons first query =>
      simp only [List.cons_prefix_cons, List.length_cons]
      by_cases same : first = hash
      · subst same
        rw [Trie.valueAt_cons here]
        by_cases ends : query = []
        · subst ends
          rw [if_pos rfl, if_pos ⟨List.cons_ne_nil _ _, rfl, List.nil_prefix⟩, Option.map_some,
            stamped]
          rfl
        · rw [if_neg ends, deeper query, old query ends]
          simp only [ne_eq, ends, not_false_eq_true, true_and, reduceCtorEq, Nat.add_assoc,
            Nat.add_comm 1]
      · rw [if_neg fun both => same both.2.1, Trie.valueAt_congr (others first same)]

/-- Further hashes do not matter. -/
theorem Restamped.of_take {hashes : List Text} {size count clock : ℕ} {forest next : RadixForest}
    (restamped : Restamped (hashes.take size) count clock forest next) (within : count ≤ size) :
    Restamped hashes count clock forest next := by
  intro query
  rw [restamped query, List.take_take, Nat.min_eq_left within]

theorem touchPath_restamped (hashes : List Text) (forest : RadixForest) (clock : ℕ) :
    (touchPath hashes forest clock).2.2 = clock + (longest hashes forest).length ∧
      Restamped hashes (longest hashes forest).length clock forest
        (touchPath hashes forest clock).1 := by
  induction hashes generalizing forest clock with
  | nil => exact ⟨rfl, .refl [] clock forest⟩
  | cons hash hashes ih =>
      cases found : forest.find? hash with
      | none =>
          simp only [touchPath, longest, found]
          exact ⟨rfl, .refl _ clock forest⟩
      | some entry =>
          obtain ⟨node, children⟩ := entry
          obtain ⟨ticks, deeper⟩ := ih children (clock + 1)
          simp only [touchPath, longest, found, List.length_cons]
          refine ⟨by rw [ticks]; omega, ?_⟩
          refine .step (Trie.find?_set_self found) rfl (fun first different =>
            Trie.find?_set_of_ne different) (fun query some => ?_) deeper
          rw [Trie.valueAt_cons found, if_neg some]

/-- An insertion stamps the longest match and the nodes that it adds below it. -/
theorem putPath_restamped (pairs : List (Text × BlockId)) (forest : RadixForest)
    (state : Insertion) :
    ∃ count, count ≤ pairs.length ∧
      count + state.inserted = (longest (pairs.map Prod.fst) forest).length +
        (putPath pairs forest state).2.inserted ∧
      (putPath pairs forest state).2.accessClock = state.accessClock + count ∧
      Restamped (pairs.map Prod.fst) count state.accessClock forest
        (putPath pairs forest state).1 := by
  induction pairs generalizing forest state with
  | nil => exact ⟨0, le_rfl, rfl, rfl, .refl _ _ forest⟩
  | cons pair later ih =>
      obtain ⟨hash, block⟩ := pair
      cases found : forest.find? hash with
      | some entry =>
          obtain ⟨node, children⟩ := entry
          obtain ⟨count, within, steps, ticks, deeper⟩ :=
            ih children { state with accessClock := state.accessClock + 1 }
          dsimp only at steps ticks
          simp only [putPath, longest, found, List.map_cons, List.length_cons]
          refine ⟨count + 1, Nat.succ_le_succ within, by omega, by omega, ?_⟩
          refine .step (Trie.find?_set_self found) rfl (fun first different =>
            Trie.find?_set_of_ne different) (fun query some => ?_) deeper
          rw [Trie.valueAt_cons found, if_neg some]
      | none =>
          simp only [putPath, longest, found, List.map_cons, List.length_cons]
          split
          · exact ⟨0, Nat.zero_le _, rfl, rfl, .refl _ _ forest⟩
          · obtain ⟨count, within, steps, ticks, deeper⟩ := ih .nil
              { kvCache := (state.kvCache.pinPrefix (pinKey state.nextPinId) [block]).2
                accessClock := state.accessClock + 1
                nextPinId := state.nextPinId + 1
                inserted := state.inserted + 1 }
            rw [longest_nil] at steps
            dsimp only [List.length_nil] at steps ticks ⊢
            refine ⟨count + 1, Nat.succ_le_succ within, by omega, by omega, ?_⟩
            refine .step (if_pos rfl) rfl (fun first different =>
              if_neg fun same => different same.symm) (fun query _ => ?_) deeper
            rw [Trie.valueAt_cons_of_none found, Trie.valueAt_nil]

theorem putPath_keyed (pairs : List (Text × BlockId)) (forest : RadixForest) (state : Insertion)
    (keyed : forest.WellKeyed) : (putPath pairs forest state).1.WellKeyed := by
  induction pairs generalizing forest state with
  | nil => exact keyed
  | cons pair later ih =>
      obtain ⟨hash, block⟩ := pair
      cases found : forest.find? hash with
      | some entry =>
          simp only [putPath, found]
          exact keyed.set (ih _ _ (keyed.of_find found))
      | none =>
          simp only [putPath, found]
          split
          · exact keyed
          · exact ⟨Trie.find?_eq_none_iff.mp found, ih .nil _ trivial, keyed⟩

/-! ### Stamps and history -/

/-- The places of a path up to one of them, that one, and the others. -/
theorem prefixes_split (cacheNamespace : Text) {hashes : List Text} {count length : ℕ}
    (positive : 0 < length) (within : length ≤ count) (bounded : count ≤ hashes.length) :
    ∃ after, prefixes cacheNamespace hashes count =
        prefixes cacheNamespace hashes (length - 1) ++
          (cacheNamespace, hashes.take length) :: after ∧
      (cacheNamespace, hashes.take length) ∉ after := by
  obtain ⟨before, rfl⟩ := Nat.exists_eq_succ_of_ne_zero (Nat.ne_of_gt positive)
  obtain ⟨rest, rfl⟩ := Nat.exists_eq_add_of_le within
  refine ⟨(List.range' (before + 2) rest).map fun length => (cacheNamespace, hashes.take length),
    ?_, ?_⟩
  · have parts : List.range' 1 (before + 1 + rest) =
        List.range' 1 before ++ (before + 1) :: List.range' (before + 2) rest := by
      rw [Nat.add_assoc, ← List.range'_append_1, Nat.add_comm 1 rest, List.range'_succ,
        Nat.add_comm 1 before]
    rw [prefixes, parts, List.map_append, List.map_cons]
    rfl
  · rw [List.mem_map]
    rintro ⟨other, member, same⟩
    have lengths := congrArg List.length (Prod.mk.inj same).2
    rw [List.mem_range'_1] at member
    rw [List.length_take, List.length_take] at lengths
    omega

/-- The last of the touches along a path is at the length of a place. -/
theorem lastUse_prefixes (history : List Place) (cacheNamespace : Text)
    {hashes query : List Text} {count : ℕ} (bounded : count ≤ hashes.length) (some : query ≠ [])
    (inside : query <+: hashes.take count) :
    LastUse (history ++ prefixes cacheNamespace hashes count) (cacheNamespace, query)
      (history.length + query.length) := by
  obtain ⟨onPath, short⟩ := List.prefix_take_iff.mp inside
  have positive := List.length_pos_iff.mpr some
  obtain ⟨after, parts, fresh⟩ := prefixes_split cacheNamespace positive short bounded
  rw [← List.prefix_iff_eq_take.mp onPath] at parts fresh
  have position : history.length + query.length =
      history.length + (prefixes cacheNamespace hashes (query.length - 1)).length + 1 := by
    rw [length_prefixes]
    omega
  rw [position, parts]
  exact .among history fresh

/-- The touches of a cache: the clock counts them, and the stamp of a node is the position
of its last one. -/
structure Journaled (history : List Place) (cache : RadixPrefixCache) : Prop where
  keyed : ∀ cacheNamespace forest, cache.roots.lookup cacheNamespace = some forest →
    forest.WellKeyed
  stamped : cache.Stamped
  clock : cache.accessClock = history.length
  stamps : ∀ place node, cache.nodeAt place = some node →
    LastUse history place node.lastAccess

namespace Journaled

variable {cache : RadixPrefixCache} {history : List Place}

/-- The touches along a path are journaled. -/
theorem stamps_restamped (journaled : Journaled history cache) {cacheNamespace : Text}
    {hashes : List Text} {count : ℕ} {next : RadixForest} (bounded : count ≤ hashes.length)
    (restamped : Restamped hashes count cache.accessClock (cache.forestOf cacheNamespace) next)
    {place : Place} {node : RadixNode}
    (found : Trie.valueAt place.2 (((cache.roots.insert cacheNamespace next).lookup
      place.1).getD .nil) = some node) :
    LastUse (history ++ prefixes cacheNamespace hashes count) place node.lastAccess := by
  obtain ⟨other, query⟩ := place
  rw [forestOf_insert] at found
  by_cases here : other = cacheNamespace
  · subst here
    rw [if_pos rfl] at found
    have stamp := restamped query
    rw [found, Option.map_some] at stamp
    split at stamp
    · next inside =>
        rw [Option.some.inj stamp, journaled.clock]
        exact lastUse_prefixes history other bounded inside.1 inside.2
    · next outside =>
        obtain ⟨old, foundOld, same⟩ := Option.map_eq_some_iff.mp stamp.symm
        rw [← same]
        apply (journaled.stamps (other, query) old foundOld).append
        exact fun member => outside ((mem_prefixes bounded).mp member).2
  · rw [if_neg here] at found
    apply (journaled.stamps (other, query) node found).append
    exact fun member => here ((mem_prefixes bounded).mp member).1

/-- A forest is replaced by one that is stamped along a path. -/
theorem replaced (journaled : Journaled history cache) {cacheNamespace : Text}
    {hashes : List Text} {count : ℕ} {forest : RadixForest} {next : RadixPrefixCache}
    (bounded : count ≤ hashes.length)
    (restamped : Restamped hashes count cache.accessClock (cache.forestOf cacheNamespace) forest)
    (keyed : forest.WellKeyed) (stamped : next.Stamped)
    (roots : next.roots = cache.roots.insert cacheNamespace forest)
    (clock : next.accessClock = cache.accessClock + count) :
    Journaled (history ++ prefixes cacheNamespace hashes count) next := by
  refine ⟨?_, stamped, ?_, fun place node found => ?_⟩
  · rw [roots]
    exact keyed_insert journaled.keyed keyed
  · rw [clock, journaled.clock, List.length_append, length_prefixes]
  · apply journaled.stamps_restamped bounded restamped
    rw [← roots]
    exact found

theorem getLongest (journaled : Journaled history cache) (cacheNamespace : Text)
    (hashes : List Text) :
    Journaled (history ++ prefixes cacheNamespace hashes
        (longest hashes (cache.forestOf cacheNamespace)).length)
      (cache.getLongest cacheNamespace hashes).2 := by
  have stamped := journaled.stamped.getLongest cacheNamespace hashes
  cases found : cache.roots.lookup cacheNamespace with
  | none =>
      have empty : longest hashes (cache.forestOf cacheNamespace) = [] := by
        rw [forestOf_of_none found, longest_nil]
      have same : (cache.getLongest cacheNamespace hashes).2 = cache := by
        rw [RadixPrefixCache.getLongest, found]
      rw [empty, same, List.length_nil, prefixes, List.range'_zero, List.map_nil, List.append_nil]
      exact journaled
  | some forest =>
      obtain ⟨ticks, restamped⟩ :=
        touchPath_restamped hashes (cache.forestOf cacheNamespace) cache.accessClock
      obtain ⟨_, _, _, _, keeps⟩ :=
        touchPath_spec hashes (cache.forestOf cacheNamespace) cache.accessClock
      apply journaled.replaced (longest_length _ _) restamped
        (keeps (keyed_forestOf journaled.keyed cacheNamespace)) stamped
      · rw [RadixPrefixCache.getLongest, found, forestOf_of_lookup found]
      · rw [← ticks, RadixPrefixCache.getLongest, found, forestOf_of_lookup found]

theorem insertPath (journaled : Journaled history cache) (kvCache : PagedKvCache)
    (cacheNamespace : Text) (hashes : List Text) (blocks : List BlockId) :
    Journaled (history ++ cache.insertionTouches kvCache cacheNamespace hashes blocks)
      (cache.insertPath kvCache cacheNamespace hashes blocks).2.1 := by
  let state : Insertion :=
    { kvCache, accessClock := cache.accessClock, nextPinId := cache.nextPinId, inserted := 0 }
  obtain ⟨count, within, steps, ticks, restamped⟩ :=
    putPath_restamped (hashes.zip blocks) (cache.forestOf cacheNamespace) state
  have touches : cache.insertionTouches kvCache cacheNamespace hashes blocks =
      prefixes cacheNamespace hashes count :=
    congrArg (prefixes cacheNamespace hashes) steps.symm
  rw [List.length_zip] at within
  rw [map_fst_zip_take] at restamped
  rw [touches]
  exact journaled.replaced (within.trans (Nat.min_le_left _ _)) (restamped.of_take within)
    (putPath_keyed _ _ state (keyed_forestOf journaled.keyed cacheNamespace))
    (stamped_insert (putPath_timely _ _ _ state (journaled.stamped.forestOf cacheNamespace)))
    rfl ticks

end Journaled

/-! ### Evictions -/

/-- One leaf goes, with its pin, and nothing else changes. -/
structure Evicts (place : Place) (node : RadixNode)
    (before after : RadixPrefixCache × PagedKvCache) : Prop where
  leaf : before.1.IsLeaf place node
  nodes : before.1.nodes = node ::ₘ after.1.nodes
  nodeAt : ∀ other, after.1.nodeAt other =
    if other = place then none else before.1.nodeAt other
  cache : after.1 =
    { before.1 with roots := after.1.roots, nodeCount := before.1.nodeCount - 1 }
  pins : after.2.prefixBlocks = before.2.prefixBlocks.erase node.pinKey
  sequences : after.2.sequenceBlocks = before.2.sequenceBlocks

variable {cache : RadixPrefixCache} {history : List Place}

theorem IsLeaf.nodeAt_eq {place : Place} {node : RadixNode} (leaf : cache.IsLeaf place node) :
    cache.nodeAt place = some node := by
  obtain ⟨parent, key, placeIs, leaf⟩ := leaf
  rw [nodeAt, placeIs]
  exact leaf.valueAt_eq

/-- The search meets every leaf. -/
theorem IsLeaf.mem_leafCandidates {place : Place} {node : RadixNode}
    (leaf : cache.IsLeaf place node) :
    ∃ candidate ∈ leafCandidates cache.roots.entries, candidate.lastAccess = node.lastAccess := by
  obtain ⟨parent, key, placeIs, leaf⟩ := leaf
  cases found : cache.roots.lookup place.1 with
  | none =>
      rw [forestOf_of_none found] at leaf
      cases leaf.mem_leaves []
  | some forest =>
      rw [forestOf_of_lookup found] at leaf
      refine ⟨⟨place.1, parent, key, node.lastAccess⟩, ?_, rfl⟩
      apply List.mem_flatMap_of_mem (AList.mem_lookup_iff.mp found)
      exact List.mem_map_of_mem (leaf.mem_leaves [])

/-- No leaf has an older stamp than the candidate. -/
theorem oldestLeaf_le {candidate : LeafCandidate} (chosen : cache.oldestLeaf = some candidate)
    {place : Place} {node : RadixNode} (leaf : cache.IsLeaf place node) :
    candidate.lastAccess ≤ node.lastAccess := by
  rw [oldestLeaf_eq, searchRoots_eq_argmin] at chosen
  obtain ⟨other, member, stamp⟩ := leaf.mem_leafCandidates
  rw [← stamp]
  exact List.le_of_mem_argmin member chosen

namespace Journaled

/-- An eviction fails on an empty cache, and otherwise takes a leaf with the oldest stamp. -/
theorem evicts (journaled : Journaled history cache) (kvCache : PagedKvCache) :
    (cache.evictOldest kvCache = (false, cache, kvCache) ∧ cache.nodes = 0) ∨
    ∃ place node, (cache.evictOldest kvCache).1 = true ∧
      Evicts place node (cache, kvCache) (cache.evictOldest kvCache).2 ∧
      ∀ other leaf, cache.IsLeaf other leaf → node.lastAccess ≤ leaf.lastAccess := by
  rcases oldestLeaf_cases journaled.keyed with
    ⟨none, empty⟩ | ⟨candidate, forest, node, chosen, stored, leaf, stamp⟩
  · refine Or.inl ⟨?_, empty⟩
    unfold RadixPrefixCache.evictOldest
    rw [none]
  · have forestIs := forestOf_of_lookup stored
    obtain ⟨unpinned, shrinks⟩ := kvCache.unpinPrefix_tables node.pinKey
    rw [evictOldest_of_leaf chosen stored leaf kvCache]
    refine Or.inr ⟨(candidate.cacheNamespace, candidate.parent ++ [candidate.key]), node, rfl, ?_,
      fun other found isLeaf => stamp ▸ oldestLeaf_le chosen isLeaf⟩
    refine ⟨⟨_, _, rfl, forestIs.symm ▸ leaf⟩, nodes_of_leaf stored leaf, ?_, rfl, unpinned,
      shrinks.sequences⟩
    rintro ⟨other, query⟩
    change Trie.valueAt query (((cache.roots.insert _ _).lookup other).getD .nil) = _
    rw [forestOf_insert]
    by_cases here : other = candidate.cacheNamespace
    · subst here
      rw [if_pos rfl, Trie.valueAt_erase (journaled.keyed _ _ stored) leaf, nodeAt, forestIs]
      simp only [Prod.mk.injEq, true_and]
    · rw [if_neg here, if_neg fun same => here (Prod.mk.inj same).1]
      rfl

theorem evictOldest (journaled : Journaled history cache) (kvCache : PagedKvCache) :
    Journaled history (cache.evictOldest kvCache).2.1 := by
  have stamped := journaled.stamped.evictOldest kvCache
  rcases journaled.evicts kvCache with ⟨same, _⟩ | ⟨place, node, _, evicts, _⟩
  · rw [same]
    exact journaled
  · refine ⟨?_, stamped, ?_, fun other found isNode => ?_⟩
    · unfold RadixPrefixCache.evictOldest
      split
      · exact journaled.keyed
      · split
        · next stored _ =>
            exact keyed_insert journaled.keyed
              ((journaled.keyed _ _ stored).modifyAt (fun keyed => keyed.erase) _)
        · exact journaled.keyed
    · rw [evicts.cache]
      exact journaled.clock
    · rw [evicts.nodeAt other] at isNode
      split at isNode
      · cases isNode
      · exact journaled.stamps other found isNode

theorem evictToCapacity (turns : ℕ) (journaled : Journaled history cache)
    (kvCache : PagedKvCache) :
    Journaled history (evictToCapacity turns cache kvCache).1 := by
  induction turns generalizing cache kvCache with
  | zero => exact journaled
  | succ turns ih =>
      unfold RadixPrefixCache.evictToCapacity
      dsimp only
      split
      · split
        · exact ih (journaled.evictOldest kvCache) _
        · exact journaled
      · exact journaled

theorem clear (journaled : Journaled history cache) (kvCache : PagedKvCache) :
    Journaled history (cache.clear kvCache).1 := by
  refine ⟨fun _ _ found => ?_, .clear cache kvCache, journaled.clock, fun place node found => ?_⟩
  · cases found
  · rw [nodeAt, forestOf] at found
    change Trie.valueAt place.2 .nil = some node at found
    rw [Trie.valueAt_nil] at found
    cases found

theorem new {nodeCapacity : ℕ} (accepted : RadixPrefixCache.new nodeCapacity = .ok cache) :
    Journaled [] cache := by
  have stamped := Stamped.new accepted
  rw [new_eq_ok accepted] at stamped ⊢
  refine ⟨fun _ _ found => ?_, stamped, rfl, fun place node found => ?_⟩
  · cases found
  · change Trie.valueAt place.2 .nil = some node at found
    rw [Trie.valueAt_nil] at found
    cases found

/-- Every operation is journaled. -/
theorem respond {state : RadixPrefixCache × PagedKvCache} (journaled : Journaled history state.1)
    (operation : Operation) :
    Journaled (history ++ touched operation state) (operations.respond operation state).2.1 := by
  cases operation with
  | getLongest cacheNamespace hashes => exact journaled.getLongest cacheNamespace hashes
  | putBlockPrefixes cacheNamespace hashes blocks =>
      have inserted := journaled.insertPath state.2 cacheNamespace hashes blocks
      change Journaled _ (state.1.putBlockPrefixes state.2 cacheNamespace hashes blocks).2.1
      rw [putBlockPrefixes_eq]
      exact inserted.evictToCapacity _ _
  | insertPath cacheNamespace hashes blocks =>
      exact journaled.insertPath state.2 cacheNamespace hashes blocks
  | evictOldest => exact (List.append_nil history).symm ▸ journaled.evictOldest state.2
  | clear => exact (List.append_nil history).symm ▸ journaled.clear state.2
  | kvCache call => exact (List.append_nil history).symm ▸ journaled

theorem run (journaled : Journaled history cache) (kvCache : PagedKvCache)
    (calls : List Operation) :
    Journaled (history ++ operations.emitted touched calls (cache, kvCache))
      (operations.run calls (cache, kvCache)).1 := by
  let property := fun history (state : RadixPrefixCache × PagedKvCache) =>
    Journaled history state.1
  have carried : property (history ++ operations.emitted touched calls (cache, kvCache))
      (operations.run calls (cache, kvCache)) :=
    operations.emitted_invariant (fun _ operation _ before => before.respond operation)
      calls (cache, kvCache) history journaled
  exact carried

end Journaled

/-- **The least recently touched leaf.** After any operations on a radix prefix cache and its
KV cache, no two nodes have the same stamp. An eviction fails on an empty cache, and otherwise
takes the leaf that every other leaf of every namespace has been touched after, with its pin,
and nothing else; and it is the same in whatever order it sees the maps. -/
theorem evicts_least_recent {nodeCapacity : ℕ} {cache : RadixPrefixCache}
    (accepted : RadixPrefixCache.new nodeCapacity = .ok cache) (kvCache : PagedKvCache)
    (calls : List Operation) :
    let state := operations.run calls (cache, kvCache)
    let history := operations.emitted touched calls (cache, kvCache)
    let evicted := state.1.evictOldest state.2
    (state.1.nodes.map RadixNode.lastAccess).Nodup ∧
    (state.1.nodes = 0 → evicted = (false, state)) ∧
    (state.1.nodes ≠ 0 → evicted.1 = true ∧
      ∃ place node earlier later, Evicts place node state evicted.2 ∧
        history = earlier ++ place :: later ∧ place ∉ later ∧
        ∀ other leaf, state.1.IsLeaf other leaf → other ≠ place → other ∈ later) ∧
    ∀ presented, Presents state.1.roots.entries presented →
      state.1.evictLeaf state.2 (searchRoots presented) = evicted := by
  intro state history evicted
  have start : Journaled [] cache := .new accepted
  have journaled : Journaled history state.1 := start.run kvCache calls
  refine ⟨journaled.stamped.distinct, fun empty => ?_, fun inhabited => ?_,
    fun presented presents => ?_⟩
  · rcases journaled.evicts state.2 with ⟨refused, _⟩ | ⟨place, node, _, evicts, _⟩
    · exact refused
    · have nodes := evicts.nodes
      rw [empty] at nodes
      exact absurd nodes.symm Multiset.cons_ne_zero
  · rcases journaled.evicts state.2 with ⟨_, empty⟩ | ⟨place, node, answer, evicts, least⟩
    · exact absurd empty inhabited
    · have last := journaled.stamps place node evicts.leaf.nodeAt_eq
      obtain ⟨earlier, later, split, fresh, position⟩ := last
      refine ⟨answer, place, node, earlier, later, evicts, split, fresh, ?_⟩
      intro other leaf isLeaf different
      have otherLast := journaled.stamps other leaf isLeaf.nodeAt_eq
      apply otherLast.later_mem split
      rw [← position]
      apply lt_of_le_of_ne (least other leaf isLeaf)
      intro same
      rw [← same] at otherLast
      exact different (otherLast.key_eq ⟨earlier, later, split, fresh, position⟩)
  · rw [journaled.stamped.searchRoots_presented presents, ← evictOldest_eq]

/-- The leaf of the second namespace was touched before the other leaf was looked up. -/
theorem evicts_least_recent_two :
    let calls := [Operation.kvCache (.allocate ['a'] 3 []),
      .putBlockPrefixes ['m'] [['h'], ['i']] [0, 1], .putBlockPrefixes ['n'] [['h']] [2],
      .getLongest ['m'] [['h'], ['i']]]
    ∃ cache kvCache, RadixPrefixCache.new 3 = .ok cache ∧ PagedKvCache.new 4 16 = .ok kvCache ∧
      let state := operations.run calls (cache, kvCache)
      operations.emitted touched calls (cache, kvCache) =
        [(['m'], [['h']]), (['m'], [['h'], ['i']]), (['n'], [['h']]), (['m'], [['h']]),
          (['m'], [['h'], ['i']])] ∧
      (state.1.evictOldest state.2).1 = true ∧
      (state.1.evictOldest state.2).2.1.nodeAt (['n'], [['h']]) = none := by
  intro calls
  have accepted : RadixPrefixCache.new 3 = .ok _ := rfl
  have acceptedKv : PagedKvCache.new 4 16 = .ok _ := rfl
  refine ⟨_, _, accepted, acceptedKv, by decide, ?_, by decide⟩
  exact ((evicts_least_recent accepted _ calls).2.2.1 (by decide)).1

end InferSched.Engine.RadixPrefixCache

import InferSched.Engine.BatchConsistency
import InferSched.Engine.RadixEviction

/-! # What the blocks hold

The engine keeps no tokens, but the caches only make sense if the blocks they hand out hold
what a sequence expects. A prefill fills the blocks it takes from the free list with the
parts of its prompt, each named by its namespace and the hashes up to it; a decode step
fills the blocks it takes with output. `relabel` follows these contents along the elementary
steps. However requests share, evict, preempt and reuse blocks, the block of every node is
the one its place names, and each sequence finds its own prompt in its blocks
(`prompt_blocks_filled`).
-/

namespace InferSched.Engine

open Library

/-! ### Nodes and contents -/

namespace RadixPrefixCache

variable {cache : RadixPrefixCache} {labels : BlockId → Option Place}

/-- The block of a node is the last of the path to it. -/
theorem valueAt_block (hash : Text) (hashes : List Text) (forest : RadixForest) :
    (Trie.valueAt (hash :: hashes) forest).map RadixNode.block =
      (pathBlocks (hash :: hashes) forest).bind List.getLast? := by
  induction hashes generalizing hash forest with
  | nil =>
      cases found : forest.find? hash with
      | none => rw [Trie.valueAt_cons_of_none found, pathBlocks_cons_of_none found]; rfl
      | some entry => rw [Trie.valueAt_cons found, pathBlocks_cons found]; rfl
  | cons next hashes ih =>
      cases found : forest.find? hash with
      | none => rw [Trie.valueAt_cons_of_none found, pathBlocks_cons_of_none found]; rfl
      | some entry =>
          rw [Trie.valueAt_cons found, if_neg (List.cons_ne_nil _ _), ih next entry.2,
            pathBlocks_cons found]
          cases isPath : pathBlocks (next :: hashes) entry.2 with
          | none => rfl
          | some blocks =>
              cases blocks with
              | nil =>
                  cases below : entry.2.find? next with
                  | none => simp [pathBlocks, below] at isPath
                  | some deeper => simp [pathBlocks, below] at isPath
              | cons block blocks => simp [List.getLast?_cons]

/-- The block of each node holds what the place of the node names. -/
structure Labelled (labels : BlockId → Option Place) (cache : RadixPrefixCache) : Prop where
  keyed : ∀ cacheNamespace forest, cache.roots.lookup cacheNamespace = some forest →
    forest.WellKeyed
  places : ∀ place node, cache.nodeAt place = some node → labels node.block = some place

/-- The match of some hashes is the blocks that hold the prompt parts of these hashes. -/
theorem Labelled.longest (labelled : cache.Labelled labels) {cacheNamespace : Text}
    {hashes : List Text} {index : ℕ} {block : BlockId}
    (found : (longest hashes (cache.forestOf cacheNamespace))[index]? = some block) :
    labels block = some (cacheNamespace, hashes.take (index + 1)) := by
  have inside := (List.getElem?_eq_some_iff.mp found).1
  have within : index + 1 ≤ (RadixPrefixCache.longest hashes
    (cache.forestOf cacheNamespace)).length := inside
  have path := pathBlocks_take within
  have last : ((RadixPrefixCache.longest hashes (cache.forestOf cacheNamespace)).take
      (index + 1)).getLast? = some block := by
    rw [List.getLast?_take]
    simp [found]
  cases isTaken : hashes.take (index + 1) with
  | nil =>
      rw [isTaken] at path
      rw [← Option.some.inj path] at last
      cases last
  | cons hash later =>
      rw [isTaken] at path
      have isBlock := valueAt_block hash later (cache.forestOf cacheNamespace)
      rw [path, Option.bind_some, last] at isBlock
      obtain ⟨node, isNode, rfl⟩ := Option.map_eq_some_iff.mp isBlock
      exact labelled.places (cacheNamespace, hash :: later) node isNode

/-- A lookup moves no block. -/
theorem Labelled.getLongest (labelled : cache.Labelled labels) (cacheNamespace : Text)
    (hashes : List Text) : (cache.getLongest cacheNamespace hashes).2.Labelled labels := by
  refine ⟨?_, ?_⟩
  · unfold RadixPrefixCache.getLongest
    split
    · exact labelled.keyed
    · next forest found =>
        obtain ⟨_, _, _, _, keeps⟩ := touchPath_spec hashes forest cache.accessClock
        exact keyed_insert labelled.keyed (keeps (labelled.keyed _ _ found))
  · rintro ⟨other, query⟩ node isNode
    cases query with
    | nil => cases isNode
    | cons hash query =>
        have same := valueAt_block hash query
          ((cache.getLongest cacheNamespace hashes).2.forestOf other)
        rw [pathBlocks_getLongest, ← valueAt_block] at same
        have isNode : Trie.valueAt (hash :: query)
          ((cache.getLongest cacheNamespace hashes).2.forestOf other) = some node := isNode
        rw [isNode] at same
        obtain ⟨old, isOld, sameBlock⟩ := Option.map_eq_some_iff.mp same.symm
        rw [← sameBlock]
        exact labelled.places (other, hash :: query) old isOld

/-- An eviction leaves some of the nodes. -/
theorem Labelled.evictOldest (labelled : cache.Labelled labels) (kvCache : PagedKvCache) :
    (cache.evictOldest kvCache).2.1.Labelled labels := by
  rcases oldestLeaf_cases labelled.keyed with
    ⟨none, _⟩ | ⟨candidate, forest, node, chosen, stored, leaf, _⟩
  · unfold RadixPrefixCache.evictOldest
    rw [none]
    exact labelled
  · rw [evictOldest_of_leaf chosen stored leaf kvCache]
    refine ⟨keyed_insert labelled.keyed
      ((labelled.keyed _ _ stored).modifyAt (fun keyed => keyed.erase) _), ?_⟩
    rintro ⟨other, query⟩ found isNode
    change Trie.valueAt query (((cache.roots.insert _ _).lookup other).getD .nil) = _ at isNode
    rw [forestOf_insert] at isNode
    by_cases here : other = candidate.cacheNamespace
    · subst here
      rw [if_pos rfl, Trie.valueAt_erase (labelled.keyed _ _ stored) leaf] at isNode
      split at isNode
      · cases isNode
      · rw [← forestOf_of_lookup stored] at isNode
        exact labelled.places (_, query) found isNode
    · rw [if_neg here] at isNode
      exact labelled.places (other, query) found isNode

theorem Labelled.evictToCapacity (turns : ℕ) (labelled : cache.Labelled labels)
    (kvCache : PagedKvCache) : (evictToCapacity turns cache kvCache).1.Labelled labels := by
  induction turns generalizing cache kvCache with
  | zero => exact labelled
  | succ turns ih =>
      unfold RadixPrefixCache.evictToCapacity
      dsimp only
      split
      · split
        · exact ih (labelled.evictOldest kvCache) _
        · exact labelled
      · exact labelled

/-- An insertion adds nodes whose blocks hold what their places name. -/
theorem putPath_labelled (cacheNamespace : Text) (pairs : List (Text × BlockId))
    (trail : List Text) (forest : RadixForest) (state : Insertion)
    (labelled : ∀ query node, Trie.valueAt query forest = some node →
      labels node.block = some (cacheNamespace, trail ++ query))
    (filled : ∀ index pair, pairs[index]? = some pair →
      labels pair.2 = some (cacheNamespace, trail ++ (pairs.map Prod.fst).take (index + 1)))
    {query : List Text} {node : RadixNode}
    (found : Trie.valueAt query (putPath pairs forest state).1 = some node) :
    labels node.block = some (cacheNamespace, trail ++ query) := by
  induction pairs generalizing trail forest state query with
  | nil => exact labelled query node found
  | cons pair later ih =>
      obtain ⟨hash, block⟩ := pair
      have deeper : ∀ index pair, later[index]? = some pair →
          labels pair.2 = some (cacheNamespace,
            (trail ++ [hash]) ++ (later.map Prod.fst).take (index + 1)) := by
        intro index pair isPair
        simpa using filled (index + 1) pair isPair
      cases query with
      | nil => cases found
      | cons first query =>
          cases stored : forest.find? hash with
          | some entry =>
              obtain ⟨old, children⟩ := entry
              simp only [putPath, stored] at found
              by_cases same : first = hash
              · subst same
                rw [Trie.valueAt_cons (Trie.find?_set_self stored)] at found
                have below : ∀ query node, Trie.valueAt query children = some node →
                    labels node.block = some (cacheNamespace, (trail ++ [first]) ++ query) := by
                  intro query node isNode
                  cases query with
                  | nil => cases isNode
                  | cons next query =>
                      have whole := labelled (first :: next :: query) node (by
                        rw [Trie.valueAt_cons stored, if_neg (List.cons_ne_nil _ _)]
                        exact isNode)
                      simpa using whole
                split at found
                · next ends =>
                    cases found
                    have here := labelled [first] old (by
                      rw [Trie.valueAt_cons stored, if_pos rfl])
                    rw [ends]
                    exact here
                · have result := ih (trail ++ [first]) children _ below deeper found
                  simpa using result
              · rw [Trie.valueAt_congr (Trie.find?_set_of_ne same)] at found
                exact labelled (first :: query) node found
          | none =>
              simp only [putPath, stored] at found
              split at found
              · exact labelled (first :: query) node found
              · by_cases same : first = hash
                · subst same
                  have here : ∀ (value : RadixNode) (below : RadixForest),
                      (Trie.cons first value below forest).find? first = some (value, below) :=
                    fun _ _ => if_pos rfl
                  rw [Trie.valueAt_cons (here _ _)] at found
                  split at found
                  · next ends =>
                      cases found
                      have own := filled 0 (first, block) rfl
                      rw [ends]
                      exact own
                  · have empty : ∀ (query : List Text) (node : RadixNode),
                        Trie.valueAt query .nil = some node →
                        labels node.block = some (cacheNamespace, (trail ++ [first]) ++ query) := by
                      intro query node isNode
                      rw [Trie.valueAt_nil] at isNode
                      cases isNode
                    have result := ih (trail ++ [first]) .nil _ empty deeper found
                    simpa using result
                · have other : ∀ (value : RadixNode) (below : RadixForest),
                      (Trie.cons hash value below forest).find? first = forest.find? first :=
                    fun _ _ => if_neg (Ne.symm same)
                  rw [Trie.valueAt_congr (other _ _)] at found
                  exact labelled (first :: query) node found

theorem Labelled.putBlockPrefixes (labelled : cache.Labelled labels) (kvCache : PagedKvCache)
    {cacheNamespace : Text} {hashes : List Text} {blocks : List BlockId}
    (filled : ∀ index block, index < hashes.length → blocks[index]? = some block →
      labels block = some (cacheNamespace, hashes.take (index + 1))) :
    (cache.putBlockPrefixes kvCache cacheNamespace hashes blocks).2.1.Labelled labels := by
  refine Labelled.evictToCapacity _ ⟨keyed_insert labelled.keyed
    (putPath_keyed _ _ _ (keyed_forestOf labelled.keyed cacheNamespace)), ?_⟩ _
  rintro ⟨other, query⟩ node isNode
  change Trie.valueAt query (((cache.roots.insert _ _).lookup other).getD .nil) = _ at isNode
  rw [forestOf_insert] at isNode
  by_cases here : other = cacheNamespace
  · subst here
    rw [if_pos rfl] at isNode
    refine putPath_labelled other (hashes.zip blocks) [] _ _ ?_ ?_ isNode
    · exact fun query node isNode => labelled.places (other, query) node isNode
    · intro index pair isPair
      obtain ⟨isHash, isBlock⟩ := List.getElem?_zip_eq_some.mp isPair
      have inside := (List.getElem?_eq_some_iff.mp isHash).1
      have covered := (List.getElem?_eq_some_iff.mp isBlock).1
      rw [filled index pair.2 inside isBlock, map_fst_zip_take, List.take_take,
        Nat.min_eq_left (by omega)]
      rfl
  · rw [if_neg here] at isNode
    exact labelled.places (other, query) node isNode

theorem Labelled.of_empty (empty : cache.roots = ∅) : cache.Labelled labels := by
  refine ⟨fun cacheNamespace forest found => ?_, fun place node isNode => ?_⟩
  · rw [empty, AList.lookup_empty] at found
    cases found
  · rw [nodeAt, forestOf, empty, AList.lookup_empty, Option.getD_none, Trie.valueAt_nil] at isNode
    cases isNode

end RadixPrefixCache

/-! ### Sequences and contents -/

namespace ContinuousEngine

open RadixPrefixCache

variable {η : Type}

/-- What the blocks hold: the part of a prompt that a prefill has filled the block with, if
any. -/
abbrev Contents := BlockId → Option Place

/-- The prompt part that the prefill of a new sequence fills one of its blocks with. -/
def filledBy (engine : ContinuousEngine η) (active : ActiveRequest) (block : BlockId) :
    Option Place :=
  let hashes := engine.candidateHashes active.request
  let index := (engine.kvCache.blocksFor active.request.requestId).idxOf block
  if index < hashes.length then
    some (prefixNamespace active.request, hashes.take (index + 1))
  else none

/-- The contents after an elementary step. A block that the step takes from the free list is
filled by the sequence that joins the batch, or else with output; the other blocks keep
theirs. -/
def relabel (before after : ContinuousEngine η) (contents : Contents) : Contents := fun block =>
  if block ∈ before.kvCache.freeList ∧ block ∉ after.kvCache.freeList then
    (after.active.find? fun active => !before.activeIds.contains active.request.requestId).bind
      fun joined => after.filledBy joined block
  else contents block

/-- The nodes and the sequences find in their blocks what they stand for. -/
structure Labelled (contents : Contents) (engine : ContinuousEngine η) : Prop where
  nodes : engine.prefixCache.Labelled contents
  prompts : ∀ active ∈ engine.active, ∀ index block,
    index < (engine.candidateHashes active.request).length →
    (engine.kvCache.blocksFor active.request.requestId)[index]? = some block →
    contents block = some (prefixNamespace active.request,
      (engine.candidateHashes active.request).take (index + 1))

variable {engine next : ContinuousEngine η} {contents : Contents}

/-- A block that is held keeps its contents. -/
theorem relabel_of_held (invariant : engine.kvCache.Invariant) {block : BlockId}
    (held : 0 < engine.kvCache.holders block) :
    relabel engine next contents block = contents block := by
  refine if_neg fun taken => ?_
  exact absurd ((invariant.balanced.free block).mp taken.1).2 (Nat.ne_of_gt held)

/-- The block of a node is held. -/
theorem node_held {preparing : Bool} (invariant : engine.Invariant preparing) {place : Place}
    {node : RadixNode} (isNode : engine.prefixCache.nodeAt place = some node) :
    0 < engine.kvCache.holders node.block := by
  have member : node ∈ engine.prefixCache.nodes := by
    rw [engine.prefixCache.nodes_eq place.1, Multiset.mem_add]
    exact Or.inl (Trie.mem_values_of_valueAt isNode)
  have pinned : node.pin ∈ engine.kvCache.pins := by
    rw [invariant.linked.pins]
    exact Multiset.mem_map_of_mem _ member
  exact PagedKvCache.Invariant.held_of_pinned (PagedKvCache.mem_pins_iff.mp pinned) node.block
    (List.mem_singleton_self _)

/-- The blocks of the nodes are not taken. -/
theorem Labelled.nodes_relabel {preparing : Bool} (labelled : engine.Labelled contents)
    (invariant : engine.Invariant preparing) (next : ContinuousEngine η) :
    engine.prefixCache.Labelled (relabel engine next contents) := by
  refine ⟨labelled.nodes.keyed, fun place node isNode => ?_⟩
  rw [relabel_of_held invariant.linked.invariant (node_held invariant isNode)]
  exact labelled.nodes.places place node isNode

/-- A sequence has a block for each of its hashes. -/
theorem hashes_le_blocks {preparing : Bool} (invariant : engine.Invariant preparing)
    {active : ActiveRequest} (member : active ∈ engine.active) :
    (engine.candidateHashes active.request).length ≤
      (engine.kvCache.blocksFor active.request.requestId).length := by
  refine (engine.candidateHashes_length_le active.request).trans ?_
  have grown : ∀ tokens, engine.promptBlocks active.request ≤ blocksForTokens
      (active.request.promptTokens + tokens) engine.config.kvBlockSizeTokens := fun tokens =>
    blocksForTokens_mono invariant.positive (Nat.le_add_right _ tokens)
  rcases invariant.blocks active member with exact | ⟨_, exact⟩
  · exact (grown _).trans exact.ge
  · exact (grown (active.generatedTokens + 1)).trans exact.ge

/-- A sequence that keeps its blocks keeps its prompt, also when it grows. -/
theorem Labelled.prompt_kept {preparing : Bool} (labelled : engine.Labelled contents)
    (invariant : engine.Invariant preparing) (config : next.config = engine.config)
    {before active : ActiveRequest} (member : before ∈ engine.active)
    (request : active.request = before.request)
    (extends_blocks : engine.kvCache.blocksFor before.request.requestId <+:
      next.kvCache.blocksFor before.request.requestId)
    {index : ℕ} {block : BlockId} (hashed : index < (next.candidateHashes active.request).length)
    (listed : (next.kvCache.blocksFor active.request.requestId)[index]? = some block) :
    relabel engine next contents block = some (prefixNamespace active.request,
      (next.candidateHashes active.request).take (index + 1)) := by
  rw [candidateHashes_congr config, request] at hashed ⊢
  rw [request] at listed
  have covered := hashed.trans_le (hashes_le_blocks invariant member)
  have own : (engine.kvCache.blocksFor before.request.requestId)[index]? = some block := by
    obtain ⟨grown, isGrown⟩ := extends_blocks
    rw [← listed, ← isGrown, List.getElem?_append_left covered]
  rw [relabel_of_held invariant.linked.invariant (PagedKvCache.Invariant.held_of_sequence
    (invariant.lookup member) block (List.mem_of_getElem? own))]
  exact labelled.prompts before member index block hashed own

/-- A step that adds neither nodes nor sequences. -/
theorem Labelled.kept {preparing : Bool} (labelled : engine.Labelled contents)
    (invariant : engine.Invariant preparing) (config : next.config = engine.config)
    (nodes : ∀ contents, engine.prefixCache.Labelled contents →
      next.prefixCache.Labelled contents)
    (prompts : ∀ active ∈ next.active, ∃ before ∈ engine.active,
      active.request = before.request ∧
      engine.kvCache.blocksFor before.request.requestId <+:
        next.kvCache.blocksFor before.request.requestId) :
    next.Labelled (relabel engine next contents) := by
  refine ⟨nodes _ (labelled.nodes_relabel invariant next), ?_⟩
  intro active member index block hashed listed
  obtain ⟨before, wasActive, request, extends_blocks⟩ := prompts active member
  exact labelled.prompt_kept invariant config wasActive request extends_blocks hashed listed

/-- A step that leaves the nodes, the batch and the blocks of the sequences alone. -/
theorem Labelled.congr {preparing : Bool} (labelled : engine.Labelled contents)
    (invariant : engine.Invariant preparing) (config : next.config = engine.config)
    (active : next.active = engine.active) (prefixCache : next.prefixCache = engine.prefixCache)
    (kvCache : next.kvCache = engine.kvCache) :
    next.Labelled (relabel engine next contents) := by
  refine labelled.kept invariant config ?_ ?_
  · rw [prefixCache]
    exact fun _ nodes => nodes
  · rw [active, kvCache]
    exact fun active member => ⟨active, member, rfl, List.prefix_refl _⟩

/-! ### Admission -/

/-- The blocks of an admitted request hold the parts of its prompt: the shared ones did
already, and its prefill has filled the others. -/
theorem Labelled.admission_filled (labelled : engine.Labelled contents)
    (invariant : engine.Invariant false) {candidate : EngineRequest} {shared fresh : List BlockId}
    {joining : ActiveRequest} (config : next.config = engine.config)
    (active : next.active = engine.active ++ [joining]) (request : joining.request = candidate)
    (unknown : candidate.requestId ∉ engine.kvCache.sequenceBlocks)
    (longest : shared = longest (engine.candidateHashes candidate)
      (engine.prefixCache.forestOf (prefixNamespace candidate)))
    (stored : Invariant.Stored engine.kvCache next.prefixCache next.kvCache candidate.requestId
      shared fresh (engine.candidateHashes candidate).length)
    {index : ℕ} {block : BlockId} (hashed : index < (engine.candidateHashes candidate).length)
    (listed : (shared ++ fresh)[index]? = some block) :
    relabel engine next contents block = some (prefixNamespace candidate,
      (engine.candidateHashes candidate).take (index + 1)) := by
  have blocks := PagedKvCache.blocksFor_of_lookup stored.lookup_self
  by_cases within : index < shared.length
  · rw [List.getElem?_append_left within] at listed
    obtain ⟨_, pinned⟩ := invariant.linked.longest_sharable invariant.unshared
      (prefixNamespace candidate) (engine.candidateHashes candidate)
    rw [longest] at listed
    have once := pinned block (List.mem_of_getElem? listed)
    rw [relabel_of_held invariant.linked.invariant (Nat.add_pos_right _ (by omega))]
    exact labelled.nodes.longest listed
  · have isFresh : block ∈ fresh := by
      rw [List.getElem?_append_right (Nat.le_of_not_lt within)] at listed
      exact List.mem_of_getElem? listed
    have held := PagedKvCache.Invariant.held_of_sequence stored.lookup_self block
      (List.mem_append_right _ isFresh)
    have inside : block < engine.kvCache.totalBlocks := by
      rw [← stored.totalBlocks]
      by_contra beyond
      exact absurd (stored.linked.invariant.balanced.outside block (Nat.le_of_not_lt beyond))
        (Nat.ne_of_gt held)
    have taken : block ∈ engine.kvCache.freeList ∧ block ∉ next.kvCache.freeList :=
      ⟨(invariant.linked.invariant.balanced.free block).mpr ⟨inside, stored.unheld block isFresh⟩,
        fun still => absurd ((stored.linked.invariant.balanced.free block).mp still).2
          (Nat.ne_of_gt held)⟩
    have joined : next.active.find?
        (fun active => !engine.activeIds.contains active.request.requestId) = some joining := by
      rw [active, List.find?_append, List.find?_eq_none.mpr, Option.none_or]
      · rw [invariant.sequences, ← request] at unknown
        simpa using unknown
      · intro member isActive
        have known : member.request.requestId ∈ engine.activeIds := List.mem_map_of_mem isActive
        simpa using known
    obtain ⟨_, isBlock⟩ := List.getElem?_eq_some_iff.mp listed
    unfold relabel
    rw [if_pos taken, joined, Option.bind_some, filledBy, request, candidateHashes_congr config,
      blocks, ← isBlock, List.Nodup.idxOf_getElem stored.distinct, if_pos hashed]

/-- The nodes that an admission adds name the blocks of the prompt. -/
theorem cachePrompt_labelled {engine : ContinuousEngine η} {candidate : EngineRequest}
    (linked : engine.prefixCache.Linked engine.kvCache)
    (labelled : engine.prefixCache.Labelled contents)
    (filled : ∀ index block, index < (engine.candidateHashes candidate).length →
      ((engine.cachePrompt candidate).kvCache.blocksFor candidate.requestId)[index]? =
        some block →
      contents block = some (prefixNamespace candidate,
        (engine.candidateHashes candidate).take (index + 1))) :
    (engine.cachePrompt candidate).prefixCache.Labelled contents := by
  unfold cachePrompt at filled ⊢
  split at filled
  · next none =>
      rw [if_pos none]
      exact labelled
  · next some =>
      rw [if_neg some]
      refine labelled.putBlockPrefixes _ fun index block hashed listed => ?_
      refine filled index block hashed ?_
      obtain ⟨_, kept, _⟩ := linked.putBlockPrefixes (prefixNamespace candidate)
        (engine.candidateHashes candidate) _
      rw [PagedKvCache.blocksFor, kept]
      rw [List.getElem?_take] at listed
      split at listed
      · exact listed
      · cases listed

/-- An admission fills the blocks that it takes. -/
theorem Labelled.admission (labelled : engine.Labelled contents)
    (invariant : engine.Invariant false) {candidate : EngineRequest}
    {matched : Option (List BlockId)}
    (longest : matched.getD [] = RadixPrefixCache.longest (engine.candidateHashes candidate)
      (engine.prefixCache.forestOf (prefixNamespace candidate)))
    (allocated : (engine.kvCache.allocate candidate.requestId (engine.promptBlocks candidate)
      (matched.getD [])).1 = .allocated)
    (isNext : next = { engine with
      kvCache := (engine.kvCache.allocate candidate.requestId (engine.promptBlocks candidate)
        (matched.getD [])).2 }.admitCandidate candidate matched) :
    next.Labelled (relabel engine next contents) := by
  obtain ⟨config, active, unknown, fresh, _, stored⟩ :=
    invariant.admission_stored longest allocated isNext
  have blocks := PagedKvCache.blocksFor_of_lookup stored.lookup_self
  have filled : ∀ index block, index < (engine.candidateHashes candidate).length →
      (next.kvCache.blocksFor candidate.requestId)[index]? = some block →
      relabel engine next contents block = some (prefixNamespace candidate,
        (engine.candidateHashes candidate).take (index + 1)) := by
    intro index block hashed listed
    rw [blocks] at listed
    exact labelled.admission_filled invariant config active rfl unknown longest stored hashed
      listed
  refine ⟨?_, ?_⟩
  · have nodes := labelled.nodes_relabel invariant next
    have linked : engine.prefixCache.Linked (engine.kvCache.allocate candidate.requestId
        (engine.promptBlocks candidate) (matched.getD [])).2 := by
      refine invariant.linked.of_prefixBlocks (invariant.linked.invariant.allocate _ _ _) ?_
      rcases engine.kvCache.allocate_cases candidate.requestId (engine.promptBlocks candidate)
        (matched.getD []) with
        ⟨refused, _⟩ | ⟨refused, _⟩ | ⟨refused, _⟩ | ⟨_, _, _, _, grant⟩
      · rw [refused]
      · rw [refused]
      · rw [refused]
      · exact grant.prefixes
    generalize relabel engine next contents = filling at filled nodes ⊢
    obtain ⟨_, _, _, _, admitted⟩ := admitCandidate_eq { engine with
      kvCache := (engine.kvCache.allocate candidate.requestId (engine.promptBlocks candidate)
        (matched.getD [])).2 } candidate matched
    rw [isNext, admitted] at filled ⊢
    exact cachePrompt_labelled linked nodes filled
  · intro member isActive index block hashed listed
    rw [active] at isActive
    rcases List.mem_append.mp isActive with old | joined
    · have different : member.request.requestId ≠ candidate.requestId := by
        intro same
        rw [invariant.sequences, ← same] at unknown
        exact unknown (List.mem_map_of_mem old)
      refine labelled.prompt_kept invariant config old rfl ?_ hashed listed
      rw [PagedKvCache.blocksFor, PagedKvCache.blocksFor, stored.lookup_of_ne different]
    · cases List.mem_singleton.mp joined
      rw [candidateHashes_congr config] at hashed ⊢
      exact filled index block hashed listed

/-- A growing sequence takes blocks past its prompt. -/
theorem Labelled.grow (labelled : engine.Labelled contents) (invariant : engine.Invariant true)
    {growing : ActiveRequest} {additionalBlocks : ℕ}
    (appended : (engine.kvCache.appendBlocks growing.request.requestId additionalBlocks).1 =
      .allocated)
    (isNext : next = { engine with
      kvCache := (engine.kvCache.appendBlocks growing.request.requestId additionalBlocks).2 }) :
    next.Labelled (relabel engine next contents) := by
  rcases engine.kvCache.appendBlocks_cases growing.request.requestId additionalBlocks with
    ⟨refused, _⟩ | ⟨blocks, known, ⟨refused, _⟩ | ⟨_, grant⟩⟩
  · rw [refused] at appended
    cases appended
  · rw [refused] at appended
    cases appended
  · subst isNext
    refine labelled.kept invariant rfl (fun _ nodes => nodes) fun active isActive =>
      ⟨active, isActive, rfl, ?_⟩
    by_cases same : active.request.requestId = growing.request.requestId
    · rw [same, PagedKvCache.blocksFor_of_lookup known,
        PagedKvCache.blocksFor_of_lookup grant.lookup_self]
      exact List.prefix_append _ _
    · rw [PagedKvCache.blocksFor, PagedKvCache.blocksFor, grant.lookup_of_ne same]

/-- A lookup moves no block. -/
theorem Labelled.matchPrefix {preparing : Bool} (labelled : engine.Labelled contents)
    (invariant : engine.Invariant preparing) (candidate : EngineRequest) :
    (engine.matchPrefix candidate).2.Labelled
      (relabel engine (engine.matchPrefix candidate).2 contents) := by
  unfold ContinuousEngine.matchPrefix
  split
  · exact labelled.congr invariant rfl rfl rfl rfl
  · refine labelled.kept invariant rfl (fun _ nodes => nodes.getLongest _ _) ?_
    exact fun active member => ⟨active, member, rfl, List.prefix_refl _⟩

/-- Clearing the prefix cache leaves the batch its blocks. -/
theorem Labelled.clearCaches {preparing : Bool} (labelled : engine.Labelled contents)
    (invariant : engine.Invariant preparing) : engine.clearCaches.Labelled contents := by
  obtain ⟨_, _, shrinks, _⟩ := invariant.linked.clear
  refine ⟨RadixPrefixCache.Labelled.of_empty rfl, ?_⟩
  intro active member index block hashed listed
  have same : engine.clearCaches.kvCache.blocksFor active.request.requestId =
      engine.kvCache.blocksFor active.request.requestId := shrinks.blocksFor _
  rw [same] at listed
  exact labelled.prompts active member index block hashed listed

/-- The sequences that stay find their prompts when another leaves. -/
theorem Labelled.remove {preparing : Bool} (labelled : engine.Labelled contents)
    (invariant : engine.Invariant preparing) {kept later : List ActiveRequest}
    {leaving : ActiveRequest} (config : next.config = engine.config)
    (prefixCache : next.prefixCache = engine.prefixCache)
    (split : engine.active = kept ++ leaving :: later) (active : next.active = kept ++ later)
    (freed : next.kvCache = (engine.kvCache.free leaving.request.requestId).2) :
    next.Labelled (relabel engine next contents) := by
  refine labelled.kept invariant config (by rw [prefixCache]; exact fun _ nodes => nodes) ?_
  intro staying isActive
  rw [active] at isActive
  have wasActive : staying ∈ engine.active := by
    rw [split]
    simp only [List.mem_append, List.mem_cons] at isActive ⊢
    exact isActive.imp_right Or.inr
  have different : staying.request.requestId ≠ leaving.request.requestId := by
    have distinct := invariant.distinct
    rw [activeIds, split, List.map_append, List.map_cons, List.nodup_middle] at distinct
    rintro same
    apply (List.nodup_cons.mp distinct).1
    rw [← same, ← List.map_append]
    exact List.mem_map_of_mem isActive
  refine ⟨staying, wasActive, rfl, ?_⟩
  rw [freed, PagedKvCache.blocksFor_free different]

/-- A preemption removes one sequence, when there is one. -/
theorem Labelled.preempt [RequestQueue η] {preparing : Bool} (labelled : engine.Labelled contents)
    (invariant : engine.Invariant preparing) (index : ℕ) :
    (engine.preempt index).Labelled (relabel engine (engine.preempt index) contents) := by
  cases found : engine.active[index]? with
  | none =>
      have same : engine.preempt index = engine := by rw [ContinuousEngine.preempt, found]
      rw [same]
      exact labelled.congr invariant rfl rfl rfl rfl
  | some victim =>
      obtain ⟨inside, isVictim⟩ := List.getElem?_eq_some_iff.mp found
      have split : engine.active =
          engine.active.take index ++ victim :: engine.active.drop (index + 1) := by
        rw [← isVictim, List.getElem_cons_drop, List.take_append_drop]
      unfold ContinuousEngine.preempt
      rw [found]
      exact labelled.remove invariant rfl rfl split (List.eraseIdx_eq_take_drop_succ _ _) rfl

end ContinuousEngine

/-- Every step keeps the contents right, in whatever order the steps come. -/
theorem Moment.Step.labelled {η : Type} [RequestQueue η] {before after : Moment η}
    {contents : ContinuousEngine.Contents} (step : Step before after)
    (invariant : before.engine.Invariant before.preparing)
    (labelled : before.engine.Labelled contents) :
    after.engine.Labelled (ContinuousEngine.relabel before.engine after.engine contents) := by
  cases step with
  | forgive empty => exact labelled.congr invariant rfl rfl rfl rfl
  | pop room popped => exact labelled.congr invariant rfl rfl rfl rfl
  | reject impossible => exact labelled.congr invariant rfl rfl rfl rfl
  | answer possible found => exact labelled.congr invariant rfl rfl rfl rfl
  | miss possible missing => exact labelled.congr invariant rfl rfl rfl rfl
  | touch => exact labelled.matchPrefix invariant _
  | evict evicted =>
      refine labelled.kept invariant rfl (fun _ nodes => nodes.evictOldest _) ?_
      intro active member
      refine ⟨active, member, rfl, ?_⟩
      rcases invariant.evictOldest_cases with ⟨none, _⟩ | ⟨_, ⟨_, _, relieved, _, same⟩, _⟩
      · rw [none] at evicted
        cases evicted
      · rw [PagedKvCache.blocksFor, PagedKvCache.blocksFor, relieved, same]
  | admission possible room forgiven budget longest allocated =>
      exact labelled.admission invariant longest allocated rfl
  | requeue engine scan => exact labelled.congr invariant rfl rfl rfl rfl
  | complete split finished => exact labelled.remove invariant rfl rfl split rfl rfl
  | prepare nothing unfinished => exact labelled.congr invariant rfl rfl rfl rfl
  | grow member short appended => exact labelled.grow invariant appended rfl
  | preempt member short scarce unpinned => exact labelled.preempt invariant _
  | decode inhabited prepared =>
      refine labelled.kept invariant rfl (fun _ nodes => nodes) ?_
      intro active member
      obtain ⟨before, wasActive, rfl⟩ := List.mem_map.mp member
      exact ⟨before, wasActive, rfl, List.prefix_refl _⟩
  | close nothing => exact labelled.congr invariant rfl rfl rfl rfl

namespace ContinuousEngine

variable {η : Type} [RequestQueue η]

/-- The contents along the elementary steps of the calls on an engine, whatever the blocks
hold at first. The other calls fill no block. -/
inductive Filling (start : ContinuousEngine η) : Moment η → Contents → Prop
  | start (contents : Contents) : Filling start (.rest start) contents
  | step {before after : Moment η} {contents : Contents} (earlier : Filling start before contents)
      (step : before.Step after) :
      Filling start after (relabel before.engine after.engine contents)
  | submit {engine : ContinuousEngine η} {contents : Contents}
      (earlier : Filling start (.rest engine) contents) (request : EngineRequest) :
      Filling start (.rest (engine.submit request)) contents
  | awaitArrival {engine : ContinuousEngine η} {contents : Contents}
      (earlier : Filling start (.rest engine) contents) (arrival : ℤ) :
      Filling start (.rest (engine.awaitArrival arrival)) contents
  | clearCaches {engine : ContinuousEngine η} {contents : Contents}
      (earlier : Filling start (.rest engine) contents) :
      Filling start (.rest engine.clearCaches) contents

variable {start : ContinuousEngine η} {moment : Moment η} {contents : Contents}

/-- The steps of an iteration go on filling the blocks. -/
theorem Filling.steps {before after : Moment η} (filling : Filling start before contents)
    (steps : before.Steps after) : ∃ later, Filling start after later := by
  induction steps with
  | refl => exact ⟨contents, filling⟩
  | tail _ step ih =>
      obtain ⟨_, ih⟩ := ih
      exact ⟨_, ih.step step⟩

/-- The contents are right as long as the blocks are filled so. -/
theorem Filling.labelled (filling : Filling start moment contents)
    (invariant : start.Invariant false)
    (nodes : ∀ contents, start.prefixCache.Labelled contents) (empty : start.active = []) :
    moment.engine.Invariant moment.preparing ∧ moment.engine.Labelled contents := by
  induction filling with
  | start contents =>
      refine ⟨invariant, nodes contents, ?_⟩
      change ∀ active ∈ start.active, _
      rw [empty]
      exact List.forall_mem_nil _
  | step _ step ih => exact ⟨step.invariant ih.1, step.labelled ih.1 ih.2⟩
  | submit _ request ih =>
      exact ⟨ih.1.congr rfl rfl rfl rfl, ih.2.nodes, ih.2.prompts⟩
  | awaitArrival _ arrival ih =>
      exact ⟨ih.1.congr rfl rfl rfl rfl, ih.2.nodes, ih.2.prompts⟩
  | clearCaches _ ih => exact ⟨ih.1.clearCaches, ih.2.clearCaches ih.1⟩

/-- The contents after a call. -/
theorem Filling.respond {engine : ContinuousEngine η}
    (filling : Filling start (.rest engine) contents) (invariant : engine.Invariant false)
    (call : Call) : ∃ later, Filling start (.rest (object.respond call engine).2) later := by
  cases call with
  | submit request => exact ⟨contents, filling.submit request⟩
  | runOneIteration => exact filling.steps (runOneIteration_steps invariant)
  | awaitArrival arrival => exact ⟨contents, filling.awaitArrival arrival⟩
  | clearCaches => exact ⟨contents, filling.clearCaches⟩

/-- **Prompts stay in their blocks.** However the requests of a run share, evict, preempt and
reuse blocks: at every moment each sequence of the batch has, for each hash of its prompt, a
block that a prefill has filled with just this part of a prompt and that nothing has
overwritten since; and a prefix found in the cache is made of such blocks of the candidate. -/
theorem prompt_blocks_filled {draws : JitterDraws} {config : EngineConfig}
    (accepted : new draws config = .ok start) :
    (∀ calls, ∃ contents, Filling start (.rest (object.run calls start)) contents) ∧
    ∀ moment contents, Filling start moment contents →
      (∀ active ∈ moment.engine.active,
        ∀ index < (moment.engine.candidateHashes active.request).length,
        ∃ block, (moment.engine.kvCache.blocksFor active.request.requestId)[index]? = some block ∧
          contents block = some (prefixNamespace active.request,
            (moment.engine.candidateHashes active.request).take (index + 1))) ∧
      ∀ candidate index block,
        ((moment.engine.matchPrefix candidate).1.getD [])[index]? = some block →
        contents block = some (prefixNamespace candidate,
          (moment.engine.candidateHashes candidate).take (index + 1)) := by
  obtain ⟨invariant, _, _⟩ := Invariant.new accepted
  obtain ⟨_, radix, _, empty, _⟩ := new_eq_ok accepted
  have nodes : ∀ contents, start.prefixCache.Labelled contents := fun _ =>
    RadixPrefixCache.Labelled.of_empty (by rw [RadixPrefixCache.new_eq_ok radix])
  refine ⟨fun calls => ?_, fun moment contents filling => ?_⟩
  · refine (@AtomicObject.invariant _ _ _ object (fun engine => engine.Invariant false ∧
      ∃ contents, Filling start (.rest engine) contents) ?_ calls start
        ⟨invariant, fun _ => none, .start _⟩).2
    rintro call engine ⟨valid, contents, filling⟩
    exact ⟨(respond_invariant call valid).1, filling.respond valid call⟩
  · obtain ⟨valid, labelled⟩ := filling.labelled invariant nodes empty
    refine ⟨fun active member index hashed => ?_, fun candidate index block found => ?_⟩
    · have covered := hashed.trans_le (hashes_le_blocks valid member)
      exact ⟨_, List.getElem?_eq_getElem covered,
        labelled.prompts active member index _ hashed (List.getElem?_eq_getElem covered)⟩
    · unfold matchPrefix at found
      split at found
      · cases found
      · obtain ⟨_, isLongest, _⟩ := valid.linked.getLongest (prefixNamespace candidate)
          (moment.engine.candidateHashes candidate)
        rw [isLongest] at found
        exact labelled.nodes.longest found

/-- A request with a prompt of two blocks. -/
def sibling (requestId second : Text) : EngineRequest :=
  { requestId, promptTokens := 4, maxOutputTokens := 2, promptBlockHashes := [['h'], second] }

/-- Two requests whose prompts begin with the same block. -/
def siblings : List Call :=
  [.submit (sibling ['a'] ['i']), .submit (sibling ['b'] ['j']), .runOneIteration]

/-- The second sequence finds the beginning of its prompt in a block of the first. -/
theorem prompt_blocks_filled_siblings :
    ∃ start : ContinuousEngine (SelectionQueue EngineRequest),
      new (fun _ _ _ => 0)
        { kvBlocks := 6, kvBlockSizeTokens := 2,
          maxPrefillSequencesPerIteration := 2 } = .ok start ∧
      (object.run siblings start).kvCache.blocksFor ['a'] = [0, 1, 3] ∧
      (object.run siblings start).kvCache.blocksFor ['b'] = [0, 2, 4] ∧
      ∃ contents, Filling start (.rest (object.run siblings start)) contents ∧
        contents 0 = some (prefixNamespace (sibling ['b'] ['j']), [['h']]) := by
  have accepted : (new (fun _ _ _ => 0)
      { kvBlocks := 6, kvBlockSizeTokens := 2,
        maxPrefillSequencesPerIteration := 2 } :
    Except Text (ContinuousEngine (SelectionQueue EngineRequest))) = .ok _ := rfl
  refine ⟨_, accepted, by decide +kernel, by decide +kernel, ?_⟩
  obtain ⟨fillings, right⟩ := prompt_blocks_filled accepted
  obtain ⟨contents, filling⟩ := fillings siblings
  exact ⟨contents, filling,
    (right _ contents filling).2 (sibling ['b'] ['j']) 0 0 (by decide +kernel)⟩

end ContinuousEngine

end InferSched.Engine

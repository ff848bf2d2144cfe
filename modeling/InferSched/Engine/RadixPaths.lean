import InferSched.Engine.RadixRuns

/-! # Paths of the radix tree

How the calls of `RadixPrefixCache` change its paths
(`RadixPrefixCache.pathBlocks`). A lookup keeps them all. An insertion of distinct
live blocks that begin with the match adds a path for every prefix of the hashes,
as long as it stays within the capacity.
-/

namespace InferSched.Engine

open Library

/-! ### Paths of the tree -/

namespace RadixPrefixCache

variable {cache : RadixPrefixCache} {kvCache : PagedKvCache}

@[simp] theorem pathBlocks_nil (hashes : List Text) :
    pathBlocks hashes .nil = if hashes = [] then some [] else none := by
  cases hashes <;> rfl

theorem pathBlocks_cons {hash : Text} {hashes : List Text} {forest children : RadixForest}
    {node : RadixNode} (found : forest.find? hash = some (node, children)) :
    pathBlocks (hash :: hashes) forest =
      (pathBlocks hashes children).map (node.block :: ·) := by
  simp only [pathBlocks, found, Option.bind_some]

theorem pathBlocks_cons_of_none {hash : Text} {hashes : List Text} {forest : RadixForest}
    (missing : forest.find? hash = none) : pathBlocks (hash :: hashes) forest = none := by
  simp only [pathBlocks, missing, Option.bind_none]

/-- A path depends on the node of its first hash only. -/
theorem pathBlocks_congr {hash : Text} {hashes : List Text} {forest other : RadixForest}
    (same : forest.find? hash = other.find? hash) :
    pathBlocks (hash :: hashes) forest = pathBlocks (hash :: hashes) other := by
  unfold pathBlocks
  rw [same]

/-- Prefixes of the longest match are paths. -/
theorem pathBlocks_take {hashes : List Text} {forest : RadixForest} {length : ℕ}
    (within : length ≤ (longest hashes forest).length) :
    pathBlocks (hashes.take length) forest = some ((longest hashes forest).take length) := by
  induction hashes generalizing forest length with
  | nil =>
      rw [Nat.le_zero.mp within]
      rfl
  | cons hash hashes ih =>
      cases length with
      | zero => rfl
      | succ length =>
          cases found : forest.find? hash with
          | none =>
              simp only [longest, found] at within
              cases within
          | some entry =>
              obtain ⟨node, children⟩ := entry
              simp only [longest, found, List.length_cons] at within ⊢
              rw [List.take_succ_cons, pathBlocks_cons found, ih (Nat.le_of_succ_le_succ within)]
              rfl

/-- Hashes with a path match as a whole. -/
theorem longest_of_path {hashes : List Text} {forest : RadixForest} {blocks : List BlockId}
    (path : pathBlocks hashes forest = some blocks) : longest hashes forest = blocks := by
  induction hashes generalizing forest blocks with
  | nil => exact Option.some.inj path
  | cons hash hashes ih =>
      cases found : forest.find? hash with
      | none =>
          rw [pathBlocks_cons_of_none found] at path
          cases path
      | some entry =>
          obtain ⟨node, children⟩ := entry
          rw [pathBlocks_cons found] at path
          obtain ⟨later, below, rfl⟩ := Option.map_eq_some_iff.mp path
          simp only [longest, found, ih below]

/-- A lookup keeps all paths. -/
theorem pathBlocks_touchPath (hashes query : List Text) (forest : RadixForest)
    (accessClock : ℕ) :
    pathBlocks query (touchPath hashes forest accessClock).1 = pathBlocks query forest := by
  induction hashes generalizing query forest accessClock with
  | nil => rfl
  | cons hash hashes ih =>
      cases found : forest.find? hash with
      | none => simp only [touchPath, found]
      | some entry =>
          obtain ⟨node, children⟩ := entry
          simp only [touchPath, found]
          cases query with
          | nil => rfl
          | cons first query =>
              by_cases same : first = hash
              · subst same
                rw [pathBlocks_cons (Trie.find?_set_self found), pathBlocks_cons found, ih]
              · exact pathBlocks_congr (Trie.find?_set_of_ne same)

/-- A lookup keeps the paths of every namespace. -/
theorem pathBlocks_getLongest (cache : RadixPrefixCache) (cacheNamespace other : Text)
    (hashes query : List Text) :
    pathBlocks query ((cache.getLongest cacheNamespace hashes).2.forestOf other) =
      pathBlocks query (cache.forestOf other) := by
  unfold RadixPrefixCache.getLongest
  cases found : cache.roots.lookup cacheNamespace with
  | none => rfl
  | some forest =>
      unfold forestOf
      dsimp only
      by_cases same : other = cacheNamespace
      · subst same
        rw [AList.lookup_insert, found]
        exact pathBlocks_touchPath hashes query forest cache.accessClock
      · rw [AList.lookup_insert_ne same]

end RadixPrefixCache

/-! ### Pinning live blocks -/

namespace PagedKvCache

variable {cache : PagedKvCache} {key : Text} {blocks : List BlockId} {block : BlockId}

/-- A block that may be shared. -/
structure Live (cache : PagedKvCache) (block : BlockId) : Prop where
  inside : block < cache.totalBlocks
  counted : cache.refCount block ≠ 0

instance : Decidable (cache.Live block) :=
  decidable_of_iff (block < cache.totalBlocks ∧ cache.refCount block ≠ 0)
    ⟨fun ⟨inside, counted⟩ => ⟨inside, counted⟩, fun live => ⟨live.inside, live.counted⟩⟩

/-- Distinct live blocks are pinned under a new key. -/
theorem pinPrefix_accepted (fresh : key ∉ cache.prefixBlocks) (some : blocks ≠ [])
    (distinct : blocks.Nodup) (live : ∀ block ∈ blocks, cache.Live block) :
    (cache.pinPrefix key blocks).1 = true := by
  have sharable : cache.sharable [] blocks = true :=
    (cache.sharable_iff [] blocks).mpr ⟨distinct, fun block member =>
      ⟨List.not_mem_nil, (live block member).inside, (live block member).counted⟩⟩
  unfold pinPrefix
  rw [if_neg (not_or.mpr ⟨fresh, some⟩), if_neg (by rw [sharable]; decide)]

/-- A block without a count cannot be pinned. -/
theorem pinPrefix_uncounted (member : block ∈ blocks) (uncounted : cache.refCount block = 0) :
    (cache.pinPrefix key blocks).1 = false := by
  have refused : cache.sharable [] blocks = false := by
    rw [Bool.eq_false_iff]
    intro valid
    exact (((cache.sharable_iff [] blocks).mp valid).2 block member).2.2 uncounted
  unfold pinPrefix
  rw [if_pos refused]
  split
  · rfl
  · rfl

/-- The count of a block is its holders as a word. -/
theorem Invariant.refCount_word (invariant : cache.Invariant) (inside : block < cache.totalBlocks) :
    cache.refCount block = cache.holders block % 2 ^ refcountBits :=
  invariant.balanced.stored block inside

/-- An accepted pin adds a holder to its blocks. -/
theorem holders_pinPrefix (accepted : (cache.pinPrefix key blocks).1 = true) (block : BlockId) :
    (cache.pinPrefix key blocks).2.holders block =
      cache.holders block + if block ∈ blocks then 1 else 0 := by
  obtain ⟨fresh, added, sequences, _⟩ := pinPrefix_tables accepted
  rw [holders, holders, added, sequences, Holdings.holders_insert_of_notMem fresh, Nat.add_assoc]

/-- A pin of other blocks leaves a block live. -/
theorem Live.pinPrefix (live : cache.Live block) (invariant : cache.Invariant)
    (accepted : (cache.pinPrefix key blocks).1 = true) (other : block ∉ blocks) :
    (cache.pinPrefix key blocks).2.Live block := by
  obtain ⟨_, _, _, total, _⟩ := pinPrefix_tables accepted
  have inside : block < (cache.pinPrefix key blocks).2.totalBlocks := by
    rw [total]
    exact live.inside
  refine ⟨inside, ?_⟩
  rw [(invariant.pinPrefix key blocks).refCount_word inside, holders_pinPrefix accepted,
    if_neg other, Nat.add_zero, ← invariant.refCount_word live.inside]
  exact live.counted

end PagedKvCache

/-! ### Insertions into the tree -/

namespace RadixPrefixCache

variable {cache : RadixPrefixCache} {kvCache : PagedKvCache}

theorem pinKey_injective {first second : ℕ} (same : pinKey first = pinKey second) :
    first = second :=
  decimal_injective (List.append_cancel_left same)

/-- The keys of later pins are free. -/
def Unused (nextPinId : ℕ) (kvCache : PagedKvCache) : Prop :=
  ∀ pinId, nextPinId ≤ pinId → pinKey pinId ∉ kvCache.prefixBlocks

theorem Unused.pinPrefix {nextPinId : ℕ} (unused : Unused nextPinId kvCache) {block : BlockId}
    (accepted : (kvCache.pinPrefix (pinKey nextPinId) [block]).1 = true) :
    Unused (nextPinId + 1) (kvCache.pinPrefix (pinKey nextPinId) [block]).2 := by
  intro pinId later known
  rw [(PagedKvCache.pinPrefix_tables accepted).2.1, AList.mem_insert] at known
  rcases known with same | old
  · exact absurd (pinKey_injective same) (Nat.ne_of_gt later)
  · exact unused pinId (Nat.le_of_succ_le later) old

/-- Later pins have free keys after an insertion, too. -/
theorem putPath_unused (pairs : List (Text × BlockId)) (forest : RadixForest) (state : Insertion)
    (unused : Unused state.nextPinId state.kvCache) :
    Unused (putPath pairs forest state).2.nextPinId (putPath pairs forest state).2.kvCache := by
  induction pairs generalizing forest state with
  | nil => exact unused
  | cons pair later ih =>
      obtain ⟨hash, block⟩ := pair
      unfold putPath
      cases found : forest.find? hash with
      | some entry => exact ih _ { state with accessClock := state.accessClock + 1 } unused
      | none =>
          dsimp only
          split
          · exact fun pinId after => unused pinId (Nat.le_of_succ_le after)
          · next accepted =>
              apply ih
              exact unused.pinPrefix (by simpa using accepted)

/-- The blocks of an insertion are distinct live blocks, and the keys are free. -/
structure Pinnable (pairs : List (Text × BlockId)) (state : Insertion) : Prop where
  invariant : state.kvCache.Invariant
  distinct : (pairs.map Prod.snd).Nodup
  live : ∀ block ∈ pairs.map Prod.snd, state.kvCache.Live block
  unused : Unused state.nextPinId state.kvCache

theorem Pinnable.accepted {hash : Text} {block : BlockId} {later : List (Text × BlockId)}
    {state : Insertion} (pinnable : Pinnable ((hash, block) :: later) state) :
    (state.kvCache.pinPrefix (pinKey state.nextPinId) [block]).1 = true := by
  apply PagedKvCache.pinPrefix_accepted (pinnable.unused _ le_rfl) (List.cons_ne_nil _ _)
    (List.nodup_singleton _)
  intro other member
  rw [List.mem_singleton.mp member]
  exact pinnable.live block List.mem_cons_self

/-- The rest of an insertion is pinnable after the first pin. -/
theorem Pinnable.pinned {hash : Text} {block : BlockId} {later : List (Text × BlockId)}
    {state : Insertion} (pinnable : Pinnable ((hash, block) :: later) state) :
    Pinnable later
      { kvCache := (state.kvCache.pinPrefix (pinKey state.nextPinId) [block]).2
        accessClock := state.accessClock + 1
        nextPinId := state.nextPinId + 1
        inserted := state.inserted + 1 } := by
  have distinct := pinnable.distinct
  rw [List.map_cons, List.nodup_cons] at distinct
  refine ⟨pinnable.invariant.pinPrefix _ _, distinct.2, ?_, pinnable.unused.pinPrefix
    pinnable.accepted⟩
  intro other member
  apply (pinnable.live other (List.mem_cons_of_mem _ member)).pinPrefix pinnable.invariant
    pinnable.accepted
  rw [List.mem_singleton]
  rintro rfl
  exact distinct.1 member

/-- An insertion whose blocks begin with the match makes a path of every prefix. -/
theorem pathBlocks_putPath (pairs : List (Text × BlockId)) (forest : RadixForest)
    (state : Insertion) (pinnable : Pinnable pairs state)
    (leading : longest (pairs.map Prod.fst) forest <+: pairs.map Prod.snd) (query : List Text) :
    pathBlocks query (putPath pairs forest state).1 =
      if query <+: pairs.map Prod.fst then some ((pairs.map Prod.snd).take query.length)
      else pathBlocks query forest := by
  induction pairs generalizing forest state query with
  | nil =>
      cases query with
      | nil => rfl
      | cons first query => rfl
  | cons pair later ih =>
      obtain ⟨hash, block⟩ := pair
      cases query with
      | nil =>
          rw [if_pos List.nil_prefix]
          rfl
      | cons first query =>
          unfold putPath
          simp only [List.map_cons, List.cons_prefix_cons, List.length_cons, List.take_succ_cons]
          cases found : forest.find? hash with
          | some entry =>
              obtain ⟨node, children⟩ := entry
              simp only [longest, found, List.map_cons, List.cons_prefix_cons] at leading
              obtain ⟨same, leading⟩ := leading
              have rest : Pinnable later { state with accessClock := state.accessClock + 1 } :=
                ⟨pinnable.invariant, (List.nodup_cons.mp pinnable.distinct).2,
                  fun other member => pinnable.live other (List.mem_cons_of_mem _ member),
                  pinnable.unused⟩
              by_cases isHash : first = hash
              · subst isHash
                dsimp only
                rw [pathBlocks_cons (Trie.find?_set_self found), ih _ _ rest leading,
                  pathBlocks_cons found]
                simp only [true_and]
                split
                · rw [Option.map_some, same]
                · rfl
              · dsimp only
                rw [if_neg fun both => isHash both.1]
                exact pathBlocks_congr (Trie.find?_set_of_ne isHash)
          | none =>
              dsimp only
              rw [if_neg (by rw [pinnable.accepted]; decide)]
              by_cases isHash : first = hash
              · subst isHash
                have empty : longest (later.map Prod.fst) .nil <+: later.map Prod.snd := by
                  rw [longest_nil]
                  exact List.nil_prefix
                have here : (Trie.cons first ⟨block, pinKey state.nextPinId, state.accessClock + 1⟩
                    (putPath later .nil
                      { kvCache := (state.kvCache.pinPrefix (pinKey state.nextPinId) [block]).2
                        accessClock := state.accessClock + 1
                        nextPinId := state.nextPinId + 1
                        inserted := state.inserted + 1 }).1 forest).find? first =
                    some (⟨block, pinKey state.nextPinId, state.accessClock + 1⟩, _) := if_pos rfl
                dsimp only
                rw [pathBlocks_cons here, ih _ _ pinnable.pinned empty,
                  pathBlocks_cons_of_none found]
                simp only [true_and]
                split
                · rfl
                · next apart =>
                    rw [pathBlocks_nil, if_neg]
                    · rfl
                    · rintro rfl
                      exact apart List.nil_prefix
              · dsimp only
                rw [if_neg fun both => isHash both.1]
                exact pathBlocks_congr (if_neg (Ne.symm isHash))

/-! ### Insertions within the capacity -/

theorem longest_take (hashes : List Text) (forest : RadixForest) (count : ℕ) :
    longest (hashes.take count) forest = (longest hashes forest).take count := by
  induction hashes generalizing forest count with
  | nil => simp [longest]
  | cons hash hashes ih =>
      cases count with
      | zero => rfl
      | succ count =>
          rw [List.take_succ_cons]
          cases found : forest.find? hash with
          | none => simp only [longest, found, List.take_nil]
          | some entry => simp only [longest, found, ih, List.take_succ_cons]

theorem take_ne_nil {α : Type} {list : List α} {length : ℕ} (positive : 0 < length)
    (within : length ≤ list.length) : list.take length ≠ [] := by
  intro empty
  have none := congrArg List.length empty
  rw [List.length_take_of_le within] at none
  exact absurd none (Nat.ne_of_gt positive)

/-- The prefixes of the hashes that get blocks and have no path yet. -/
def newLengths (matched : ℕ) (hashes : List Text) (blocks : List BlockId) : List ℕ :=
  List.range' (matched + 1) (min hashes.length blocks.length - matched)

theorem mem_newLengths {matched length : ℕ} {hashes : List Text} {blocks : List BlockId} :
    length ∈ newLengths matched hashes blocks ↔
      matched < length ∧ length ≤ hashes.length ∧ length ≤ blocks.length := by
  rw [newLengths, List.mem_range'_1]
  omega

/-- Within the capacity nothing is evicted. -/
theorem evictToCapacity_of_le (turns : ℕ) (within : cache.nodeCount ≤ cache.capacity) :
    evictToCapacity turns cache kvCache = (cache, kvCache) := by
  cases turns with
  | zero => rfl
  | succ turns => exact if_neg (Nat.not_lt.mpr within)

/-- The hashes that come with a block. -/
theorem map_fst_zip_take {hashes : List Text} {blocks : List BlockId} :
    (hashes.zip blocks).map Prod.fst = hashes.take (min hashes.length blocks.length) := by
  rw [List.zip_eq_zip_take_min]
  apply List.map_fst_zip
  rw [List.length_take, List.length_take]
  omega

theorem forestOf_insert (cache : RadixPrefixCache) (cacheNamespace other : Text)
    (forest : RadixForest) :
    (((cache.roots.insert cacheNamespace forest).lookup other).getD .nil) =
      if other = cacheNamespace then forest else cache.forestOf other := by
  split
  · next same => rw [same, AList.lookup_insert, Option.getD_some]
  · next different =>
      rw [AList.lookup_insert_ne different]
      rfl

/-- **Insertions and paths.** An insertion of distinct live blocks that begin with
the match, for which the cache has room, adds the paths of all prefixes of the
hashes that get blocks, and changes no other. -/
theorem Linked.pathBlocks_putBlockPrefixes (linked : cache.Linked kvCache)
    (unused : Unused cache.nextPinId kvCache) {cacheNamespace : Text} {hashes : List Text}
    {blocks : List BlockId} (distinct : blocks.Nodup) (live : ∀ block ∈ blocks, kvCache.Live block)
    (leading : longest hashes (cache.forestOf cacheNamespace) <+: blocks)
    (fits : cache.nodeCount + (newLengths (longest hashes (cache.forestOf cacheNamespace)).length
      hashes blocks).length ≤ cache.capacity) :
    let put := cache.putBlockPrefixes kvCache cacheNamespace hashes blocks
    Unused put.2.1.nextPinId put.2.2 ∧
      ∀ other query, pathBlocks query (put.2.1.forestOf other) =
        if other = cacheNamespace ∧ query <+: hashes.take (min hashes.length blocks.length) then
          some (blocks.take query.length)
        else pathBlocks query (cache.forestOf other) := by
  set count := min hashes.length blocks.length with countIs
  set forest := cache.forestOf cacheNamespace with forestIs
  have hashesOf : (hashes.zip blocks).map Prod.fst = hashes.take count := map_fst_zip_take
  have blocksOf : (hashes.zip blocks).map Prod.snd = blocks.take count := by
    rw [List.zip_eq_zip_take_min]
    apply List.map_snd_zip
    rw [List.length_take, List.length_take]
    omega
  have short : (longest hashes forest).length ≤ count :=
    Nat.le_min.mpr ⟨longest_length hashes forest, leading.length_le⟩
  have matched : longest (hashes.take count) forest = longest hashes forest := by
    rw [longest_take, List.take_of_length_le short]
  let state : Insertion :=
    { kvCache, accessClock := cache.accessClock, nextPinId := cache.nextPinId, inserted := 0 }
  have pinnable : Pinnable (hashes.zip blocks) state := by
    refine ⟨linked.invariant, ?_, ?_, unused⟩
    · rw [blocksOf]
      exact distinct.sublist (List.take_sublist _ _)
    · rw [blocksOf]
      exact fun block member => live block (List.mem_of_mem_take member)
  have onPath : longest ((hashes.zip blocks).map Prod.fst) forest <+:
      (hashes.zip blocks).map Prod.snd := by
    rw [hashesOf, blocksOf, matched, List.prefix_take_iff]
    exact ⟨leading, short⟩
  obtain ⟨added, extended⟩ := putPath_extended (hashes.zip blocks) forest state linked.invariant
  have few : (putPath (hashes.zip blocks) forest state).2.inserted ≤
      count - (longest hashes forest).length := by
    have card := Multiset.card_le_card extended.blocks
    rw [Multiset.card_map, Multiset.coe_card, unmatched, hashesOf, blocksOf, matched,
      List.length_drop, List.length_take] at card
    rw [extended.inserted]
    change Multiset.card added + 0 ≤ _
    omega
  have within : cache.nodeCount + (putPath (hashes.zip blocks) forest state).2.inserted ≤
      cache.capacity := by
    rw [newLengths, List.length_range'] at fits
    omega
  intro put
  have putIs : put.2 =
      ({ cache with
        roots := cache.roots.insert cacheNamespace (putPath (hashes.zip blocks) forest state).1
        nodeCount := cache.nodeCount + (putPath (hashes.zip blocks) forest state).2.inserted
        accessClock := (putPath (hashes.zip blocks) forest state).2.accessClock
        nextPinId := (putPath (hashes.zip blocks) forest state).2.nextPinId },
      (putPath (hashes.zip blocks) forest state).2.kvCache) :=
    evictToCapacity_of_le _ within
  rw [putIs]
  refine ⟨putPath_unused _ forest state unused, fun other query => ?_⟩
  unfold forestOf
  dsimp only
  rw [forestOf_insert]
  by_cases here : other = cacheNamespace
  · subst here
    rw [if_pos rfl, pathBlocks_putPath _ forest state pinnable onPath, hashesOf, blocksOf]
    simp only [true_and]
    split
    · next within =>
        rw [List.take_take, Nat.min_eq_left]
        have bounded := within.length_le
        rw [List.length_take] at bounded
        exact bounded.trans (Nat.min_le_left _ _)
    · rfl
  · rw [if_neg here, if_neg fun both => here both.1]
    rfl

end RadixPrefixCache
end InferSched.Engine

import InferSched.Engine.PrefixInvariant
import InferSched.Engine.RadixPaths

/-! # The tree and the map of prefixes

`RadixPrefixCache` replaces `PrefixCache`, which stores the whole block list of
every prefix under a text that encodes the namespace and the hashes. The text
determines both (`PrefixCache.blockPrefixKey_injective`), and when the two caches
are used alike the map holds, under the text of every list of hashes, the blocks of
its path in the tree (`PrefixCaches.Agreeing`). Lookups then give the same answers.

An insertion pins the first block of a prompt at most once in the tree, and once for
every new prefix in the map. Reference counts are 32-bit words, so the two part when
a block comes to `2 ^ 32` holders within an insertion: the map has no entry for the
longer prefixes.
-/

namespace InferSched.Engine

open Library

/-! ### The keys -/

namespace PrefixCache

/-- What a hash adds to a key. -/
def keyPart (hash : Text) : Text :=
  '|' :: (decimal hash.length ++ ':' :: hash)

theorem blockPrefixKey_eq (cacheNamespace : Text) (hashes : List Text) :
    blockPrefixKey cacheNamespace hashes = "blocks|".toList ++
      (decimal cacheNamespace.length ++ ':' :: (cacheNamespace ++ hashes.flatMap keyPart)) := by
  have parts : ∀ (hashes : List Text) (key : Text),
      hashes.foldl (fun key hash => key ++ ['|'] ++ decimal hash.length ++ [':'] ++ hash) key =
        key ++ hashes.flatMap keyPart := by
    intro hashes
    induction hashes with
    | nil => exact fun key => (List.append_nil key).symm
    | cons hash hashes ih =>
        intro key
        rw [List.foldl_cons, ih, List.flatMap_cons, keyPart]
        simp
  rw [blockPrefixKey, parts]
  simp

/-- A length-prefixed text is read back. -/
theorem lengthPrefixed_inj {first second restFirst restSecond : Text}
    (same : decimal first.length ++ ':' :: (first ++ restFirst) =
      decimal second.length ++ ':' :: (second ++ restSecond)) :
    first = second ∧ restFirst = restSecond := by
  obtain ⟨lengths, texts⟩ := decimal_delimiter_inj (by decide) same
  exact List.append_inj texts lengths

theorem flatMap_keyPart_injective {first second : List Text}
    (same : first.flatMap keyPart = second.flatMap keyPart) : first = second := by
  induction first generalizing second with
  | nil =>
      cases second with
      | nil => rfl
      | cons hash hashes => cases same
  | cons hash hashes ih =>
      cases second with
      | nil => cases same
      | cons other others =>
          rw [List.flatMap_cons, List.flatMap_cons, keyPart, keyPart, List.cons_append,
            List.cons_append, List.cons.injEq, List.append_assoc, List.append_assoc,
            List.cons_append, List.cons_append] at same
          obtain ⟨rfl, rests⟩ := lengthPrefixed_inj same.2
          rw [ih rests]

/-- The key determines the namespace and the hashes. -/
theorem blockPrefixKey_injective {firstNamespace secondNamespace : Text} {first second : List Text}
    (same : blockPrefixKey firstNamespace first = blockPrefixKey secondNamespace second) :
    firstNamespace = secondNamespace ∧ first = second := by
  rw [blockPrefixKey_eq, blockPrefixKey_eq] at same
  obtain ⟨namespaces, rests⟩ := lengthPrefixed_inj (List.append_cancel_left same)
  exact ⟨namespaces, flatMap_keyPart_injective rests⟩

/-! ### Lookups in the map -/

variable {cache : PrefixCache} {kvCache : PagedKvCache} {cacheNamespace : Text}
  {hashes : List Text} {blocks : List BlockId}

/-- A lookup passes over the lengths without an entry. -/
theorem longestFrom_of_absent {matched count : ℕ} (short : matched ≤ count)
    (absent : ∀ length, matched < length → length ≤ count →
      cache.entries.lookup (blockPrefixKey cacheNamespace (hashes.take length)) = none) :
    cache.longestFrom cacheNamespace hashes count =
      cache.longestFrom cacheNamespace hashes matched := by
  induction count, short using Nat.le_induction with
  | base => rfl
  | succ count short ih =>
      rw [longestFrom, absent (count + 1) (Nat.lt_succ_of_le short) le_rfl]
      exact ih fun length longer bounded => absent length longer (bounded.trans (Nat.le_succ _))

/-- When the entries of a namespace are the paths of a forest, a lookup finds the
longest one. -/
theorem getLongest_of_paths {forest : RadixForest}
    (paths : ∀ query, query ≠ [] → cache.entries.lookup (blockPrefixKey cacheNamespace query) =
      RadixPrefixCache.pathBlocks query forest) (hashes : List Text) :
    (cache.getLongest cacheNamespace hashes).1 =
      if RadixPrefixCache.longest hashes forest = [] then none
      else some (RadixPrefixCache.longest hashes forest,
        (RadixPrefixCache.longest hashes forest).length) := by
  have short := RadixPrefixCache.longest_length hashes forest
  obtain ⟨path, beyond⟩ := RadixPrefixCache.longest_path hashes forest
  have entryOf : ∀ length, 0 < length → length ≤ hashes.length →
      cache.entries.lookup (blockPrefixKey cacheNamespace (hashes.take length)) =
        RadixPrefixCache.pathBlocks (hashes.take length) forest :=
    fun length positive within => paths _ (RadixPrefixCache.take_ne_nil positive within)
  rw [getLongest, longestFrom_of_absent short fun length longer bounded => by
    rw [entryOf length (Nat.zero_lt_of_lt longer) bounded, beyond length longer bounded]]
  cases longestIs : RadixPrefixCache.longest hashes forest with
  | nil => rfl
  | cons block later =>
      rw [longestIs, List.length_cons] at path short
      rw [List.length_cons, if_neg (List.cons_ne_nil _ _), longestFrom,
        entryOf _ (Nat.succ_pos _) short, path]

theorem entries_longestFrom (cache : PrefixCache) (cacheNamespace : Text) (hashes : List Text)
    (count : ℕ) : (cache.longestFrom cacheNamespace hashes count).2.entries = cache.entries := by
  induction count with
  | zero => rfl
  | succ count ih =>
      unfold longestFrom
      dsimp only
      split
      · exact ih
      · rfl

theorem Pinned.longestFrom (pinned : cache.Pinned kvCache) (cacheNamespace : Text)
    (hashes : List Text) (count : ℕ) :
    (cache.longestFrom cacheNamespace hashes count).2.Pinned kvCache := by
  induction count with
  | zero => exact ⟨⟨pinned.distinct, pinned.keys⟩, pinned.lookup⟩
  | succ count ih =>
      unfold PrefixCache.longestFrom
      dsimp only
      split
      · exact ih
      · next found =>
          have counted : { cache with hits := cache.hits + 1 }.Listed :=
            ⟨pinned.distinct, pinned.keys⟩
          exact ⟨counted.touch (AList.lookup_isSome.mp (found ▸ rfl)), pinned.lookup⟩

/-! ### Insertions into the map -/

theorem putLengths_append (first second : List ℕ) (cache : PrefixCache) (kvCache : PagedKvCache) :
    (putLengths cacheNamespace hashes blocks (first ++ second) cache kvCache).2 =
      (putLengths cacheNamespace hashes blocks second
        (putLengths cacheNamespace hashes blocks first cache kvCache).2.1
        (putLengths cacheNamespace hashes blocks first cache kvCache).2.2).2 := by
  induction first generalizing cache kvCache with
  | nil => rfl
  | cons length later ih => exact ih _ _

/-- Insertions keep the link to the KV cache. -/
theorem Pinned.putLengths (lengths : List ℕ) (pinned : cache.Pinned kvCache)
    (invariant : kvCache.Invariant) :
    let put := PrefixCache.putLengths cacheNamespace hashes blocks lengths cache kvCache
    put.2.1.Pinned put.2.2 ∧ put.2.2.Invariant := by
  induction lengths generalizing cache kvCache with
  | nil => exact ⟨pinned, invariant⟩
  | cons length later ih =>
      have put := pinned.put invariant
        (blockPrefixKey cacheNamespace (hashes.take length)) (blocks.take length)
      exact ih put.pinned put.invariant

/-- A put under a known key leaves the entries and the KV cache as they are. -/
theorem put_known {key : Text} (known : key ∈ cache.entries) :
    (cache.put kvCache key blocks).2 = (cache.touch key, kvCache) := by
  obtain ⟨stored, found⟩ := Option.isSome_iff_exists.mp (AList.lookup_isSome.mpr known)
  unfold put
  rw [found]

theorem putLengths_known (cache : PrefixCache) (kvCache : PagedKvCache) (blocks : List BlockId)
    (lengths : List ℕ) (known : ∀ length ∈ lengths,
      blockPrefixKey cacheNamespace (hashes.take length) ∈ cache.entries) :
    (putLengths cacheNamespace hashes blocks lengths cache kvCache).2.1.entries = cache.entries ∧
      (putLengths cacheNamespace hashes blocks lengths cache kvCache).2.1.capacity =
        cache.capacity ∧
      (putLengths cacheNamespace hashes blocks lengths cache kvCache).2.2 = kvCache := by
  induction lengths generalizing cache with
  | nil => exact ⟨rfl, rfl, rfl⟩
  | cons length later ih =>
      unfold putLengths
      dsimp only
      rw [put_known (known length List.mem_cons_self)]
      exact ih _ fun other member => known other (List.mem_cons_of_mem _ member)

/-- A put under a new key, with room and blocks that can be pinned, adds its entry. -/
theorem put_fresh {key : Text} (fresh : key ∉ cache.entries)
    (room : cache.entries.entries.length < cache.capacity)
    (accepted : (kvCache.pinPrefix key blocks).1 = true) :
    (cache.put kvCache key blocks).2 =
      ({ cache with
          recency := key :: cache.recency
          entries := cache.entries.insert key blocks }, (kvCache.pinPrefix key blocks).2) := by
  unfold put makeRoom
  rw [AList.lookup_eq_none.mpr fresh]
  dsimp only
  rw [if_neg (by rw [accepted]; decide), if_neg (Nat.ne_of_lt room)]

/-- A put under a new key whose blocks cannot be pinned leaves both caches as they are. -/
theorem put_refused {key : Text} (fresh : key ∉ cache.entries)
    (refused : (kvCache.pinPrefix key blocks).1 = false) :
    (cache.put kvCache key blocks).2 = (cache, kvCache) := by
  unfold put
  rw [AList.lookup_eq_none.mpr fresh]
  exact congrArg Prod.snd (if_pos refused)

/-- The blocks are held, and each can gain a holder for every listed length that takes
it in. -/
structure Insertable (kvCache : PagedKvCache) (blocks : List BlockId) (lengths : List ℕ) :
    Prop where
  distinct : blocks.Nodup
  inside : ∀ block ∈ blocks, block < kvCache.totalBlocks
  held : ∀ block ∈ blocks, 0 < kvCache.holders block
  room : ∀ block ∈ blocks, kvCache.holders block +
    lengths.countP (fun length => block ∈ blocks.take length) ≤ 2 ^ refcountBits

theorem Insertable.accepted {length : ℕ} {later : List ℕ} {key : Text}
    (insertable : Insertable kvCache blocks (length :: later)) (invariant : kvCache.Invariant)
    (fresh : key ∉ kvCache.prefixBlocks) (some : blocks.take length ≠ []) :
    (kvCache.pinPrefix key (blocks.take length)).1 = true := by
  apply PagedKvCache.pinPrefix_accepted fresh some
    (insertable.distinct.sublist (List.take_sublist _ _))
  intro block member
  have listed := List.mem_of_mem_take member
  have held := insertable.held block listed
  have room := insertable.room block listed
  rw [List.countP_cons_of_pos (by simpa using member)] at room
  refine ⟨insertable.inside block listed, ?_⟩
  rw [invariant.refCount_eq block (by omega)]
  exact Nat.ne_of_gt held

theorem Insertable.pinned {length : ℕ} {later : List ℕ} {key : Text}
    (insertable : Insertable kvCache blocks (length :: later))
    (accepted : (kvCache.pinPrefix key (blocks.take length)).1 = true) :
    Insertable (kvCache.pinPrefix key (blocks.take length)).2 blocks later := by
  obtain ⟨_, _, _, total, _⟩ := PagedKvCache.pinPrefix_tables accepted
  refine ⟨insertable.distinct, ?_, ?_, ?_⟩
  · rw [total]
    exact insertable.inside
  · intro block member
    rw [PagedKvCache.holders_pinPrefix accepted]
    exact Nat.add_pos_left (insertable.held block member) _
  · intro block member
    have room := insertable.room block member
    rw [List.countP_cons] at room
    rw [PagedKvCache.holders_pinPrefix accepted]
    simp only [decide_eq_true_eq] at room
    omega

/-- Insertions under new keys, with room for all of them, add an entry for each length
and change no other. -/
theorem lookup_putLengths (lengths : List ℕ) (pinned : cache.Pinned kvCache)
    (invariant : kvCache.Invariant) (insertable : Insertable kvCache blocks lengths)
    (some : ∀ length ∈ lengths, blocks.take length ≠ [])
    (apart : (lengths.map fun length =>
      blockPrefixKey cacheNamespace (hashes.take length)).Nodup)
    (fresh : ∀ length ∈ lengths,
      blockPrefixKey cacheNamespace (hashes.take length) ∉ cache.entries)
    (fits : cache.entries.entries.length + lengths.length ≤ cache.capacity) :
    let put := putLengths cacheNamespace hashes blocks lengths cache kvCache
    (∀ length ∈ lengths, put.2.1.entries.lookup
      (blockPrefixKey cacheNamespace (hashes.take length)) = Option.some (blocks.take length)) ∧
    ∀ key, (∀ length ∈ lengths, key ≠ blockPrefixKey cacheNamespace (hashes.take length)) →
      put.2.1.entries.lookup key = cache.entries.lookup key := by
  induction lengths generalizing cache kvCache with
  | nil => exact ⟨fun length member => absurd member List.not_mem_nil, fun _ _ => rfl⟩
  | cons length later ih =>
      set key := blockPrefixKey cacheNamespace (hashes.take length) with keyIs
      have new : key ∉ cache.entries := fresh length List.mem_cons_self
      have unpinned : key ∉ kvCache.prefixBlocks := by
        rw [← AList.lookup_eq_none, pinned.lookup, AList.lookup_eq_none]
        exact new
      have accepted := insertable.accepted invariant unpinned (some length List.mem_cons_self)
      rw [List.length_cons] at fits
      have put := put_fresh new (Nat.lt_of_succ_le (by omega)) accepted
      have kept := pinned.put invariant key (blocks.take length)
      rw [put] at kept
      rw [List.map_cons, List.nodup_cons] at apart
      have others : ∀ other ∈ later,
          blockPrefixKey cacheNamespace (hashes.take other) ≠ key := fun other member same =>
        apart.1 (List.mem_map.mpr ⟨other, member, same⟩)
      have freshAfter : ∀ other ∈ later, blockPrefixKey cacheNamespace (hashes.take other) ∉
          cache.entries.insert key (blocks.take length) := by
        intro other member
        rw [AList.mem_insert, not_or]
        exact ⟨others other member, fresh other (List.mem_cons_of_mem _ member)⟩
      have fitsAfter : (cache.entries.insert key (blocks.take length)).entries.length +
          later.length ≤ cache.capacity := by
        rw [AList.entries_insert_of_notMem new, List.length_cons]
        omega
      have rest := ih kept.pinned kept.invariant (insertable.pinned accepted)
        (fun other member => some other (List.mem_cons_of_mem _ member)) apart.2 freshAfter
        fitsAfter
      unfold putLengths
      dsimp only
      rw [← keyIs, put]
      refine ⟨?_, ?_⟩
      · rintro other member
        rcases List.mem_cons.mp member with rfl | member
        · rw [rest.2 _ fun other member => (others other member).symm, AList.lookup_insert]
        · exact rest.1 other member
      · intro other different
        rw [rest.2 other fun length member => different length (List.mem_cons_of_mem _ member),
          AList.lookup_insert_ne (different length List.mem_cons_self)]

/-- Keys of prefixes of different lengths differ. -/
theorem blockPrefixKey_take_inj {first second : ℕ} (firstWithin : first ≤ hashes.length)
    (secondWithin : second ≤ hashes.length)
    (same : blockPrefixKey cacheNamespace (hashes.take first) =
      blockPrefixKey cacheNamespace (hashes.take second)) : first = second := by
  have lengths := congrArg List.length (blockPrefixKey_injective same).2
  rwa [List.length_take_of_le firstWithin, List.length_take_of_le secondWithin] at lengths

/-- **Insertions and entries.** An insertion adds the entries of the prefixes that are
longer than the match, when the shorter ones are entries and there is room. -/
theorem Pinned.lookup_putBlockPrefixes (pinned : cache.Pinned kvCache)
    (invariant : kvCache.Invariant) {matched : ℕ}
    (short : matched ≤ min hashes.length blocks.length)
    (known : ∀ length, 0 < length → length ≤ matched →
      blockPrefixKey cacheNamespace (hashes.take length) ∈ cache.entries)
    (fresh : ∀ length, matched < length → length ≤ hashes.length →
      blockPrefixKey cacheNamespace (hashes.take length) ∉ cache.entries)
    (insertable :
      Insertable kvCache blocks (RadixPrefixCache.newLengths matched hashes blocks))
    (fits : cache.entries.entries.length +
      (RadixPrefixCache.newLengths matched hashes blocks).length ≤ cache.capacity)
    (other : Text) (query : List Text) :
    (cache.putBlockPrefixes kvCache cacheNamespace hashes blocks).2.1.entries.lookup
        (blockPrefixKey other query) =
      if other = cacheNamespace ∧ query <+: hashes.take (min hashes.length blocks.length) ∧
          matched < query.length then some (blocks.take query.length)
      else cache.entries.lookup (blockPrefixKey other query) := by
  set lengths := RadixPrefixCache.newLengths matched hashes blocks with lengthsIs
  have within : ∀ length ∈ lengths,
      matched < length ∧ length ≤ hashes.length ∧ length ≤ blocks.length :=
    fun length member => RadixPrefixCache.mem_newLengths.mp member
  have split : List.range' 1 (min hashes.length blocks.length) =
      List.range' 1 matched ++ lengths := by
    rw [lengthsIs, RadixPrefixCache.newLengths, Nat.add_comm matched 1, List.range'_append_1,
      Nat.add_sub_cancel' short]
  obtain ⟨entries, capacity, sameKv⟩ := putLengths_known cache kvCache blocks
    (List.range' 1 matched) (fun length member => by
      rw [List.mem_range'_1] at member
      exact known length (by omega) (by omega))
  obtain ⟨pinnedBefore, _⟩ := pinned.putLengths (List.range' 1 matched) invariant
  rw [sameKv] at pinnedBefore
  have apart : (lengths.map fun length =>
      blockPrefixKey cacheNamespace (hashes.take length)).Nodup := by
    apply List.Nodup.map_on _ List.nodup_range'
    intro first firstMember second secondMember same
    exact blockPrefixKey_take_inj (within first firstMember).2.1 (within second secondMember).2.1
      same
  have some : ∀ length ∈ lengths, blocks.take length ≠ [] := by
    intro length member
    obtain ⟨longer, _, inBlocks⟩ := within length member
    exact RadixPrefixCache.take_ne_nil (Nat.zero_lt_of_lt longer) inBlocks
  have added := lookup_putLengths lengths pinnedBefore invariant insertable some apart
    (by
      rw [entries]
      exact fun length member =>
        fresh length (within length member).1 (within length member).2.1)
    (by rwa [entries, capacity])
  rw [putBlockPrefixes, split, putLengths_append, sameKv]
  split_ifs with new
  · obtain ⟨rfl, leading, longer⟩ := new
    have bounded := leading.length_le
    rw [List.length_take] at bounded
    have queryIs : query = hashes.take query.length := by
      have whole := List.prefix_iff_eq_take.mp leading
      rwa [List.take_take, Nat.min_eq_left (bounded.trans (Nat.min_le_left _ _))] at whole
    have member : query.length ∈ lengths := by
      rw [lengthsIs, RadixPrefixCache.mem_newLengths]
      omega
    have found := added.1 query.length member
    rwa [← queryIs] at found
  · rw [added.2, entries]
    intro length member same
    obtain ⟨rfl, rfl⟩ := blockPrefixKey_injective same
    obtain ⟨longer, inHashes, inBlocks⟩ := within length member
    apply new
    rw [List.length_take_of_le inHashes, List.prefix_take_iff, List.length_take_of_le inHashes]
    exact ⟨rfl, ⟨List.take_prefix _ _, Nat.le_min.mpr ⟨inHashes, inBlocks⟩⟩, longer⟩

end PrefixCache

/-! ### Both caches -/

/-- The two prefix caches, each with the KV cache it pins blocks in. -/
structure PrefixCaches where
  radix : RadixPrefixCache
  radixKv : PagedKvCache
  materialized : PrefixCache
  materializedKv : PagedKvCache

namespace PrefixCaches

open RadixPrefixCache (longest pathBlocks newLengths Unused)

/-- The calls that both caches get, and the sequence calls of either KV cache. -/
inductive Call
  | getLongest (cacheNamespace : Text) (promptBlockHashes : List Text)
  | putBlockPrefixes (cacheNamespace : Text) (promptBlockHashes : List Text)
      (blocks : List BlockId)
  | radixSequence (call : PagedKvCache.SequenceCall)
  | materializedSequence (call : PagedKvCache.SequenceCall)
deriving DecidableEq, Repr

inductive Response
  | longest (radix : Option (List BlockId)) (materialized : Option (List BlockId × ℕ))
  | inserted (radix materialized : ℕ)
  | sequence (answer : AllocationStatus ⊕ Bool)
deriving DecidableEq, Repr

/-- The two caches side by side. -/
def object : AtomicObject PrefixCaches Call Response where
  respond call caches :=
    match call with
    | .getLongest cacheNamespace hashes =>
        let path := caches.radix.getLongest cacheNamespace hashes
        let entry := caches.materialized.getLongest cacheNamespace hashes
        (.longest path.1 entry.1, { caches with radix := path.2, materialized := entry.2 })
    | .putBlockPrefixes cacheNamespace hashes blocks =>
        let path := caches.radix.putBlockPrefixes caches.radixKv cacheNamespace hashes blocks
        let entries :=
          caches.materialized.putBlockPrefixes caches.materializedKv cacheNamespace hashes blocks
        (.inserted path.1 entries.1, ⟨path.2.1, path.2.2, entries.2.1, entries.2.2⟩)
    | .radixSequence call =>
        let answered := PagedKvCache.object.respond call.call caches.radixKv
        (.sequence answered.1, { caches with radixKv := answered.2 })
    | .materializedSequence call =>
        let answered := PagedKvCache.object.respond call.call caches.materializedKv
        (.sequence answered.1, { caches with materializedKv := answered.2 })

/-- The match that an insertion starts from. -/
def matched (caches : PrefixCaches) (cacheNamespace : Text) (hashes : List Text) :
    List BlockId :=
  (caches.radix.getLongest cacheNamespace hashes).1.getD []

/-- The lengths of the prefixes that an insertion adds. -/
def added (caches : PrefixCaches) (cacheNamespace : Text) (hashes : List Text)
    (blocks : List BlockId) : List ℕ :=
  newLengths (caches.matched cacheNamespace hashes).length hashes blocks

/-- What `AdmitReady` inserts: distinct live blocks, first the match and then blocks
that are not cached. Neither cache has to evict for it. -/
structure Insertion (caches : PrefixCaches) (cacheNamespace : Text) (hashes : List Text)
    (blocks : List BlockId) : Prop where
  distinct : blocks.Nodup
  live : ∀ block ∈ blocks, caches.radixKv.Live block ∧ caches.materializedKv.Live block
  leading : caches.matched cacheNamespace hashes <+: blocks
  uncached : ∀ block ∈ blocks.drop (caches.matched cacheNamespace hashes).length,
    caches.radixKv.prefixBlocks.holders block = 0 ∧
      caches.materializedKv.prefixBlocks.holders block = 0
  radixFits : caches.radix.nodeCount + (caches.added cacheNamespace hashes blocks).length ≤
    caches.radix.capacity
  materializedFits : caches.materialized.entries.entries.length +
    (caches.added cacheNamespace hashes blocks).length ≤ caches.materialized.capacity

/-- The insertions of a run are those of `AdmitReady`. -/
def Usual : Call → PrefixCaches → Prop
  | .putBlockPrefixes cacheNamespace hashes blocks, caches =>
      caches.Insertion cacheNamespace hashes blocks
  | _, _ => True

/-- No block comes to more than `2 ^ 32` holders when every new prefix pins it. -/
def Uncrowded : Call → PrefixCaches → Prop
  | .putBlockPrefixes cacheNamespace hashes blocks, caches =>
      ∀ block ∈ blocks, caches.materializedKv.holders block +
        (caches.added cacheNamespace hashes blocks).countP
          (fun length => block ∈ blocks.take length) ≤ 2 ^ refcountBits
  | _, _ => True

instance : ∀ call caches, Decidable (Uncrowded call caches)
  | .getLongest _ _, _ => .isTrue trivial
  | .putBlockPrefixes _ _ blocks, _ => inferInstanceAs (Decidable (∀ block ∈ blocks, _))
  | .radixSequence _, _ => .isTrue trivial
  | .materializedSequence _, _ => .isTrue trivial

/-- The entries are the paths: each prefix cache is linked to its KV cache, and under
the key of a list of hashes the map has the blocks of its path. -/
structure Agreeing (caches : PrefixCaches) : Prop where
  linked : caches.radix.Linked caches.radixKv
  unused : Unused caches.radix.nextPinId caches.radixKv
  pinned : caches.materialized.Pinned caches.materializedKv
  invariant : caches.materializedKv.Invariant
  paths : ∀ cacheNamespace query, query ≠ [] →
    caches.materialized.entries.lookup (PrefixCache.blockPrefixKey cacheNamespace query) =
      pathBlocks query (caches.radix.forestOf cacheNamespace)

variable {caches : PrefixCaches}

/-- Agreeing caches give the same answers. -/
theorem Agreeing.answers (agreeing : caches.Agreeing) (cacheNamespace : Text)
    (hashes : List Text) :
    (caches.materialized.getLongest cacheNamespace hashes).1 =
      (caches.radix.getLongest cacheNamespace hashes).1.map
        fun blocks => (blocks, blocks.length) := by
  rw [caches.materialized.getLongest_of_paths (agreeing.paths cacheNamespace) hashes,
    RadixPrefixCache.getLongest_eq]
  split
  · rfl
  · rfl

theorem Agreeing.getLongest (agreeing : caches.Agreeing) (cacheNamespace : Text)
    (hashes : List Text) :
    (object.respond (.getLongest cacheNamespace hashes) caches).2.Agreeing := by
  refine ⟨(agreeing.linked.getLongest cacheNamespace hashes).1, ?_,
    agreeing.pinned.longestFrom cacheNamespace hashes hashes.length, agreeing.invariant, ?_⟩
  · have counter : (caches.radix.getLongest cacheNamespace hashes).2.nextPinId =
        caches.radix.nextPinId := by
      unfold RadixPrefixCache.getLongest
      split
      · rfl
      · rfl
    change Unused (caches.radix.getLongest cacheNamespace hashes).2.nextPinId caches.radixKv
    rw [counter]
    exact agreeing.unused
  · intro other query some
    change (caches.materialized.longestFrom _ _ _).2.entries.lookup _ =
      pathBlocks query ((caches.radix.getLongest cacheNamespace hashes).2.forestOf other)
    rw [PrefixCache.entries_longestFrom, RadixPrefixCache.pathBlocks_getLongest]
    exact agreeing.paths other query some

/-- The step of the simulation: an insertion adds the same prefixes to both caches. -/
theorem Agreeing.putBlockPrefixes (agreeing : caches.Agreeing) {cacheNamespace : Text}
    {hashes : List Text} {blocks : List BlockId}
    (insertion : caches.Insertion cacheNamespace hashes blocks)
    (uncrowded : Uncrowded (.putBlockPrefixes cacheNamespace hashes blocks) caches) :
    (object.respond (.putBlockPrefixes cacheNamespace hashes blocks) caches).2.Agreeing := by
  have matchIs : caches.matched cacheNamespace hashes =
      longest hashes (caches.radix.forestOf cacheNamespace) :=
    (agreeing.linked.getLongest cacheNamespace hashes).2.1
  have leading := insertion.leading
  have radixFits := insertion.radixFits
  have materializedFits := insertion.materializedFits
  unfold Uncrowded at uncrowded
  simp only [added, matchIs] at radixFits materializedFits uncrowded
  rw [matchIs] at leading
  set path := longest hashes (caches.radix.forestOf cacheNamespace) with pathIs
  have short : path.length ≤ min hashes.length blocks.length :=
    Nat.le_min.mpr ⟨RadixPrefixCache.longest_length _ _, leading.length_le⟩
  have entryOf : ∀ length, 0 < length → length ≤ hashes.length →
      caches.materialized.entries.lookup
          (PrefixCache.blockPrefixKey cacheNamespace (hashes.take length)) =
        pathBlocks (hashes.take length) (caches.radix.forestOf cacheNamespace) := by
    intro length positive within
    exact agreeing.paths _ _ (RadixPrefixCache.take_ne_nil positive within)
  have known : ∀ length, 0 < length → length ≤ path.length →
      PrefixCache.blockPrefixKey cacheNamespace (hashes.take length) ∈
        caches.materialized.entries := by
    intro length positive within
    rw [← AList.lookup_isSome, entryOf length positive (by omega),
      RadixPrefixCache.pathBlocks_take within]
    rfl
  have fresh : ∀ length, path.length < length → length ≤ hashes.length →
      PrefixCache.blockPrefixKey cacheNamespace (hashes.take length) ∉
        caches.materialized.entries := by
    intro length longer within
    rw [← AList.lookup_eq_none, entryOf length (Nat.zero_lt_of_lt longer) within]
    exact (RadixPrefixCache.longest_path hashes _).2 length longer within
  have insertable : PrefixCache.Insertable caches.materializedKv blocks
      (newLengths path.length hashes blocks) := by
    refine ⟨insertion.distinct, fun block member => (insertion.live block member).2.inside,
      fun block member => ?_, uncrowded⟩
    have live := (insertion.live block member).2
    apply Nat.pos_of_ne_zero
    intro unheld
    apply live.counted
    rw [agreeing.invariant.refCount_word live.inside, unheld]
    rfl
  have keptPaths := agreeing.linked.pathBlocks_putBlockPrefixes agreeing.unused
    insertion.distinct (fun block member => (insertion.live block member).1) leading radixFits
  let put :=
    caches.materialized.putBlockPrefixes caches.materializedKv cacheNamespace hashes blocks
  have keptPins : put.2.1.Pinned put.2.2 ∧ put.2.2.Invariant :=
    agreeing.pinned.putLengths _ agreeing.invariant
  refine ⟨(agreeing.linked.putBlockPrefixes cacheNamespace hashes blocks).1, keptPaths.1,
    keptPins.1, keptPins.2, ?_⟩
  intro other query some
  have entry := agreeing.pinned.lookup_putBlockPrefixes agreeing.invariant short known fresh
    insertable materializedFits other query
  have before := agreeing.paths other query some
  refine entry.trans (Eq.trans ?_ (keptPaths.2 other query).symm)
  by_cases new : other = cacheNamespace ∧
      query <+: hashes.take (min hashes.length blocks.length)
  · rw [if_pos new]
    split
    · rfl
    · next old =>
        -- Shorter prefixes are paths already, with the blocks of the match.
        obtain ⟨rfl, prefixes⟩ := new
        have within : query.length ≤ path.length :=
          Nat.le_of_not_lt fun longer => old ⟨rfl, prefixes, longer⟩
        have queryIs : hashes.take query.length = query :=
          (List.prefix_iff_eq_take.mp (prefixes.trans (List.take_prefix _ _))).symm
        have known := RadixPrefixCache.pathBlocks_take within
        rw [queryIs] at known
        rw [before, known, ← pathIs, List.prefix_iff_eq_take.mp leading, List.take_take,
          Nat.min_eq_left within]
  · rw [if_neg new, if_neg fun all => new ⟨all.1, all.2.1⟩]
    exact before

/-- A call that keeps to the conditions keeps the caches agreeing. -/
theorem Agreeing.respond (agreeing : caches.Agreeing) (call : Call) (usual : Usual call caches)
    (uncrowded : Uncrowded call caches) : (object.respond call caches).2.Agreeing := by
  cases call with
  | getLongest cacheNamespace hashes => exact agreeing.getLongest cacheNamespace hashes
  | putBlockPrefixes cacheNamespace hashes blocks =>
      exact agreeing.putBlockPrefixes usual uncrowded
  | radixSequence call =>
      have same := caches.radixKv.prefixBlocks_sequence call
      refine ⟨agreeing.linked.of_prefixBlocks (agreeing.linked.invariant.respond call.call) same,
        ?_, agreeing.pinned, agreeing.invariant, agreeing.paths⟩
      intro pinId later
      change _ ∉ (PagedKvCache.object.respond call.call caches.radixKv).2.prefixBlocks
      rw [same]
      exact agreeing.unused pinId later
  | materializedSequence call =>
      refine ⟨agreeing.linked, agreeing.unused, ⟨agreeing.pinned.toListed, fun key => ?_⟩,
        agreeing.invariant.respond call.call, agreeing.paths⟩
      change (PagedKvCache.object.respond call.call caches.materializedKv).2.prefixBlocks.lookup
        key = _
      rw [caches.materializedKv.prefixBlocks_sequence call]
      exact agreeing.pinned.lookup key

/-- New caches, both empty. -/
structure New (caches : PrefixCaches) : Prop where
  radix : ∃ nodeCapacity, RadixPrefixCache.new nodeCapacity = .ok caches.radix
  radixKv : ∃ blockCount blockSizeTokens,
    PagedKvCache.new blockCount blockSizeTokens = .ok caches.radixKv
  materialized : ∃ capacity, PrefixCache.new capacity = .ok caches.materialized
  materializedKv : ∃ blockCount blockSizeTokens,
    PagedKvCache.new blockCount blockSizeTokens = .ok caches.materializedKv

theorem New.agreeing (new : caches.New) : caches.Agreeing := by
  obtain ⟨radix, radixKv, materialized, materializedKv⟩ := caches
  obtain ⟨⟨nodeCapacity, radixIs⟩, ⟨_, _, radixKvIs⟩, ⟨capacity, materializedIs⟩,
    ⟨_, _, materializedKvIs⟩⟩ := new
  have radixUnpinned := PagedKvCache.prefixBlocks_new radixKvIs
  have materializedUnpinned := PagedKvCache.prefixBlocks_new materializedKvIs
  dsimp only at *
  have linked := RadixPrefixCache.Linked.new radixIs (.new radixKvIs) radixUnpinned
  have pinned := PrefixCache.Pinned.new materializedIs materializedUnpinned
  refine ⟨linked, ?_, pinned, .new materializedKvIs, ?_⟩
  · intro pinId _
    dsimp only
    rw [radixUnpinned]
    exact AList.notMem_empty _
  · intro cacheNamespace query some
    obtain ⟨hash, hashes, rfl⟩ := List.exists_cons_of_ne_nil some
    rw [RadixPrefixCache.new_eq_ok radixIs, PrefixCache.new_eq_ok materializedIs]
    rfl

/-- **The map and the tree answer alike.** Let both prefix caches start empty and get
the same lookups and the insertions of `AdmitReady`, with any sequence calls of their
KV caches in between. As long as no insertion would bring a block to more than
`2 ^ 32` holders, every lookup finds the same match in both. -/
theorem lookups_agree {start : PrefixCaches} (new : start.New) (calls : List Call)
    (legal : object.Legal (fun call caches => Usual call caches ∧ Uncrowded call caches) calls
      start) (cacheNamespace : Text) (hashes : List Text) :
    ((object.run calls start).materialized.getLongest cacheNamespace hashes).1 =
      ((object.run calls start).radix.getLongest cacheNamespace hashes).1.map
        fun blocks => (blocks, blocks.length) := by
  have agreeing : (object.run calls start).Agreeing :=
    object.legal_invariant (fun call _ allowed before => before.respond call allowed.1 allowed.2)
      calls start legal new.agreeing
  exact agreeing.answers cacheNamespace hashes

/-- Two prompts with a common first block. -/
theorem lookups_agree_fork :
    let calls := [Call.radixSequence (.allocate ['x'] 3 []),
      .materializedSequence (.allocate ['x'] 3 []),
      .putBlockPrefixes [] [['a'], ['b']] [0, 1], .getLongest [] [['a'], ['c']],
      .putBlockPrefixes [] [['a'], ['c']] [0, 2]]
    ∃ start, start.New ∧
      ((object.run calls start).materialized.getLongest [] [['a'], ['c']]).1 =
        ((object.run calls start).radix.getLongest [] [['a'], ['c']]).1.map
          fun blocks => (blocks, blocks.length) := by
  intro calls
  let start : PrefixCaches := ⟨{ capacity := 8 }, { RefPool.full 4 with
    blockSizeTokens := 16, sequenceBlocks := ∅, prefixBlocks := ∅ }, { capacity := 8 },
    { RefPool.full 4 with blockSizeTokens := 16, sequenceBlocks := ∅, prefixBlocks := ∅ }⟩
  have new : start.New := ⟨⟨8, rfl⟩, ⟨4, 16, rfl⟩, ⟨8, rfl⟩, ⟨4, 16, rfl⟩⟩
  have legal : object.Legal (fun call caches => Usual call caches ∧ Uncrowded call caches)
      calls start := by
    refine ⟨⟨trivial, trivial⟩, ⟨trivial, trivial⟩, ⟨⟨?_, ?_, ?_, ?_, ?_, ?_⟩, ?_⟩,
      ⟨trivial, trivial⟩, ⟨⟨?_, ?_, ?_, ?_, ?_, ?_⟩, ?_⟩, trivial⟩
    all_goals decide
  exact ⟨start, new, lookups_agree new calls legal [] [['a'], ['c']]⟩

/-! ### A block with too many holders -/

/-- A sequence with two blocks, and more that share the first of them. -/
def sharers (count : ℕ) : List PagedKvCache.SequenceCall :=
  .allocate ['x'] 2 [] :: (List.range count).map fun index => .allocate (decimal index) 1 [0]

/-- The KV cache after the calls of `sharers`. -/
structure Crowd (count : ℕ) (kvCache : PagedKvCache) : Prop where
  invariant : kvCache.Invariant
  unpinned : kvCache.prefixBlocks = ∅
  total : kvCache.totalBlocks = 2
  first : kvCache.holders 0 = count + 1
  second : kvCache.holders 1 = 1
  names : ∀ index, count ≤ index → decimal index ∉ kvCache.sequenceBlocks

theorem Crowd.live {count : ℕ} {kvCache : PagedKvCache} (crowd : Crowd count kvCache)
    (room : count + 1 < 2 ^ refcountBits) : ∀ block ∈ [0, 1], kvCache.Live block := by
  intro block member
  rcases List.mem_pair.mp member with rfl | rfl
  · refine ⟨crowd.total ▸ Nat.zero_lt_two, ?_⟩
    rw [crowd.invariant.refCount_eq 0 (crowd.first ▸ room), crowd.first]
    exact Nat.succ_ne_zero _
  · refine ⟨crowd.total ▸ Nat.one_lt_two, ?_⟩
    have few : kvCache.holders 1 < 2 ^ refcountBits := by
      rw [crowd.second]
      decide
    rw [crowd.invariant.refCount_eq 1 few, crowd.second]
    exact Nat.one_ne_zero

theorem Crowd.allocate {count : ℕ} {kvCache : PagedKvCache} (crowd : Crowd count kvCache)
    (room : count + 1 < 2 ^ refcountBits) :
    Crowd (count + 1) (kvCache.allocate (decimal count) 1 [0]).2 := by
  have live := crowd.live room 0 List.mem_cons_self
  have valid : kvCache.sharable [] [0] = true :=
    (kvCache.sharable_iff [] [0]).mpr ⟨List.nodup_singleton 0, fun block member => by
      rw [List.mem_singleton.mp member]
      exact ⟨List.not_mem_nil, live.inside, live.counted⟩⟩
  have new := crowd.names count le_rfl
  rcases kvCache.allocate_cases (decimal count) 1 [0] with
    ⟨_, known⟩ | ⟨_, _, long | invalid⟩ | ⟨_, _, _, _, scarce⟩ | ⟨_, _, _, _, grant⟩
  · exact absurd known new
  · exact absurd long (Nat.lt_irrefl _)
  · rw [valid] at invalid
    cases invalid
  · exact absurd scarce (Nat.not_lt_zero _)
  · have sequences : (kvCache.allocate (decimal count) 1 [0]).2.sequenceBlocks =
        kvCache.sequenceBlocks.insert (decimal count) [0] := grant.sequences
    have holders : ∀ block, (kvCache.allocate (decimal count) 1 [0]).2.holders block =
        kvCache.holders block + if block ∈ [0] then 1 else 0 := by
      intro block
      rw [PagedKvCache.holders, PagedKvCache.holders, sequences, grant.prefixes,
        Holdings.holders_insert_of_notMem new, Nat.add_right_comm]
    refine ⟨crowd.invariant.allocate _ _ _, grant.prefixes.trans crowd.unpinned,
      grant.totalBlocks.trans crowd.total, ?_, ?_, ?_⟩
    · rw [holders, crowd.first]
      rfl
    · rw [holders, crowd.second]
      rfl
    · intro index later known
      rw [sequences, AList.mem_insert] at known
      rcases known with same | old
      · exact absurd (decimal_injective same) (Nat.ne_of_gt later)
      · exact crowd.names index (Nat.le_of_succ_le later) old

/-- An empty KV cache of two blocks. -/
def twoBlocks : PagedKvCache :=
  { RefPool.full 2 with blockSizeTokens := 16, sequenceBlocks := ∅, prefixBlocks := ∅ }

theorem crowd_sharers {count : ℕ} (room : count < 2 ^ refcountBits) :
    Crowd count (PagedKvCache.object.run ((sharers count).map PagedKvCache.SequenceCall.call)
      twoBlocks) := by
  have accepted : PagedKvCache.new 2 16 = .ok twoBlocks := rfl
  induction count with
  | zero =>
      refine ⟨(PagedKvCache.Invariant.new accepted).run _, rfl, rfl, by decide, by decide, ?_⟩
      intro index _
      change decimal index ∉ AList.insert ['x'] [0, 1] ∅
      rw [AList.mem_insert, not_or]
      refine ⟨fun same => ?_, AList.notMem_empty _⟩
      have digit := isDigit_of_mem_decimal (same ▸ List.mem_singleton_self 'x')
      cases digit
  | succ count ih =>
      rw [sharers, List.range_succ, List.map_append, ← List.cons_append, ← sharers,
        List.map_append, AtomicObject.run_append]
      exact (ih (Nat.lt_of_succ_lt room)).allocate room

/-- Both KV caches under the same calls. -/
def both (calls : List PagedKvCache.SequenceCall) : List Call :=
  calls.flatMap fun call => [.radixSequence call, .materializedSequence call]

theorem run_both (calls : List PagedKvCache.SequenceCall) (caches : PrefixCaches) :
    object.run (both calls) caches = { caches with
      radixKv := PagedKvCache.object.run (calls.map PagedKvCache.SequenceCall.call) caches.radixKv
      materializedKv := PagedKvCache.object.run (calls.map PagedKvCache.SequenceCall.call)
        caches.materializedKv } := by
  induction calls generalizing caches with
  | nil => rfl
  | cons call calls ih => exact ih _

theorem legal_both (calls : List PagedKvCache.SequenceCall) (caches : PrefixCaches) :
    object.Legal Usual (both calls) caches := by
  induction calls generalizing caches with
  | nil => exact trivial
  | cons call calls ih => exact ⟨trivial, trivial, ih _⟩

/-- Two new caches of eight entries, each over two blocks. -/
def roomy : PrefixCaches := ⟨{ capacity := 8 }, twoBlocks, { capacity := 8 }, twoBlocks⟩

theorem roomy_new : roomy.New :=
  ⟨⟨8, rfl⟩, ⟨2, 16, rfl⟩, ⟨8, rfl⟩, ⟨2, 16, rfl⟩⟩

/-- The map can pin the shared block once more, and has no entry for both blocks. -/
theorem Crowd.materialized {count : ℕ} {kvCache : PagedKvCache} (crowd : Crowd count kvCache)
    (full : count + 2 = 2 ^ refcountBits) :
    (({ capacity := 8 : PrefixCache }.putBlockPrefixes kvCache [] [['a'], ['b']]
      [0, 1]).2.1.getLongest [] [['a'], ['b']]).1 = some ([0], 1) := by
  let key := PrefixCache.blockPrefixKey [] [['a']]
  let longKey := PrefixCache.blockPrefixKey [] [['a'], ['b']]
  have live := crowd.live (full ▸ Nat.lt_succ_self _) 0 List.mem_cons_self
  have accepted : (kvCache.pinPrefix key [0]).1 = true := by
    apply PagedKvCache.pinPrefix_accepted _ (List.cons_ne_nil _ _) (List.nodup_singleton 0)
    · intro block member
      rw [List.mem_singleton.mp member]
      exact live
    · rw [crowd.unpinned]
      exact AList.notMem_empty _
  have unshared : (kvCache.pinPrefix key [0]).2.refCount 0 = 0 := by
    have inside : 0 < (kvCache.pinPrefix key [0]).2.totalBlocks := by
      rw [(PagedKvCache.pinPrefix_tables accepted).2.2.2.1]
      exact live.inside
    rw [(crowd.invariant.pinPrefix key [0]).refCount_word inside,
      PagedKvCache.holders_pinPrefix accepted, crowd.first, if_pos List.mem_cons_self,
      Nat.add_assoc, full, Nat.mod_self]
  have refused : ((kvCache.pinPrefix key [0]).2.pinPrefix longKey [0, 1]).1 = false :=
    PagedKvCache.pinPrefix_uncounted List.mem_cons_self unshared
  have first : ({ capacity := 8 : PrefixCache }.put kvCache key [0]).2 =
      ({ capacity := 8, recency := [key], entries := AList.insert key [0] ∅ },
        (kvCache.pinPrefix key [0]).2) :=
    PrefixCache.put_fresh (AList.notMem_empty _) (by decide) accepted
  have second : (PrefixCache.put
      { capacity := 8, recency := [key], entries := AList.insert key [0] ∅ }
      (kvCache.pinPrefix key [0]).2 longKey [0, 1]).2 =
      ({ capacity := 8, recency := [key], entries := AList.insert key [0] ∅ },
        (kvCache.pinPrefix key [0]).2) :=
    PrefixCache.put_refused (by decide) refused
  have put : ({ capacity := 8 : PrefixCache }.putBlockPrefixes kvCache [] [['a'], ['b']]
      [0, 1]).2 = (PrefixCache.put ({ capacity := 8 : PrefixCache }.put kvCache key [0]).2.1
        ({ capacity := 8 : PrefixCache }.put kvCache key [0]).2.2 longKey [0, 1]).2 := rfl
  rw [put, first, second]
  rfl

/-- The tree pins each of the blocks once. -/
theorem Crowd.radix {count : ℕ} {kvCache : PagedKvCache} (crowd : Crowd count kvCache)
    (room : count + 1 < 2 ^ refcountBits) :
    (({ capacity := 8 : RadixPrefixCache }.putBlockPrefixes kvCache [] [['a'], ['b']]
      [0, 1]).2.1.getLongest [] [['a'], ['b']]).1 = some [0, 1] := by
  have accepted : RadixPrefixCache.new 8 = .ok { capacity := 8 } := rfl
  have linked := RadixPrefixCache.Linked.new accepted crowd.invariant crowd.unpinned
  have leading : longest [['a'], ['b']] ({ capacity := 8 : RadixPrefixCache }.forestOf []) <+:
      [0, 1] := List.nil_prefix
  have unused : Unused 0 kvCache := by
    intro pinId _
    rw [crowd.unpinned]
    exact AList.notMem_empty _
  obtain ⟨_, paths⟩ := linked.pathBlocks_putBlockPrefixes unused (by decide)
    (crowd.live room) leading (by decide)
  have path := paths [] [['a'], ['b']]
  rw [if_pos ⟨rfl, List.prefix_refl _⟩] at path
  rw [RadixPrefixCache.getLongest_eq, RadixPrefixCache.longest_of_path path]
  rfl

theorem Crowd.insertion {count : ℕ} {kvCache : PagedKvCache} (crowd : Crowd count kvCache)
    (room : count + 1 < 2 ^ refcountBits) :
    Insertion ⟨{ capacity := 8 }, kvCache, { capacity := 8 }, kvCache⟩ [] [['a'], ['b']]
      [0, 1] := by
  have live := crowd.live room
  have unpinned : ∀ block, kvCache.prefixBlocks.holders block = 0 := by
    intro block
    rw [crowd.unpinned]
    rfl
  have fits : 0 + 2 ≤ 8 := by decide
  exact ⟨by decide, fun block member => ⟨live block member, live block member⟩,
    List.nil_prefix, fun block _ => ⟨unpinned block, unpinned block⟩, fits, fits⟩

/-- When all but one of the holders that a count can tell have the first block, the
tree has both blocks after an insertion, and the map only the first. -/
theorem sharers_diverge {count : ℕ} (full : count + 2 = 2 ^ refcountBits) :
    let calls := both (sharers count) ++ [.putBlockPrefixes [] [['a'], ['b']] [0, 1]]
    object.Legal Usual calls roomy ∧
      ((object.run calls roomy).radix.getLongest [] [['a'], ['b']]).1 = some [0, 1] ∧
      ((object.run calls roomy).materialized.getLongest [] [['a'], ['b']]).1 =
        some ([0], 1) := by
  intro calls
  have room : count + 1 < 2 ^ refcountBits := full ▸ Nat.lt_succ_self _
  have crowd := crowd_sharers (Nat.lt_of_succ_lt room)
  have before := run_both (sharers count) roomy
  refine ⟨?_, ?_, ?_⟩
  · rw [AtomicObject.legal_append, before]
    exact ⟨legal_both _ _, crowd.insertion room, trivial⟩
  · rw [AtomicObject.run_append, before]
    exact crowd.radix room
  · rw [AtomicObject.run_append, before]
    exact crowd.materialized full

/-- The insertions of `AdmitReady` alone do not make the answers equal: the longer prefix
is in the tree and not in the map, though neither cache is full. -/
theorem map_misses_prefix :
    let hashes := [['a'], ['b']]
    let calls := both (sharers (2 ^ refcountBits - 2)) ++ [.putBlockPrefixes [] hashes [0, 1]]
    ∃ start, start.New ∧ object.Legal Usual calls start ∧
      ((object.run calls start).materialized.getLongest [] hashes).1 ≠
        ((object.run calls start).radix.getLongest [] hashes).1.map
          fun blocks => (blocks, blocks.length) := by
  have full : 2 ^ refcountBits - 2 + 2 = 2 ^ refcountBits := by decide
  obtain ⟨legal, radix, materialized⟩ := sharers_diverge full
  refine ⟨roomy, roomy_new, legal, ?_⟩
  rw [radix, materialized]
  decide

end PrefixCaches

end InferSched.Engine

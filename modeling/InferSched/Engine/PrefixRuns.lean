import InferSched.Engine.PrefixAgreement
import InferSched.Library.Recency

/-! # Runs of the prefix cache

A prefix cache and the KV cache it pins blocks in, under any calls of the first and any
sequence calls of the second. After every call the keys are listed in the order of their
last use and are within the capacity, and the pins are the entries
(`PrefixCache.Ordered`). An insertion of several prefixes is the run of its single
insertions, each of which drops the key used longest ago when there is no room.
-/

namespace InferSched.Engine.PrefixCache

open Library Recency

/-- The calls of the cache, and the sequence calls of its KV cache. -/
inductive Call
  | put (key : Text) (blocks : List BlockId)
  | get (key : Text)
  | getLongest (cacheNamespace : Text) (promptBlockHashes : List Text)
  | putBlockPrefixes (cacheNamespace : Text) (promptBlockHashes : List Text)
      (blocks : List BlockId)
  | evictOldest
  | clear
  | sequence (call : PagedKvCache.SequenceCall)
deriving DecidableEq, Repr

inductive Response
  | stored (value : Bool)
  | found (blocks : Option (List BlockId))
  | longest (found : Option (List BlockId × ℕ))
  | inserted (count : ℕ)
  | evicted (value : Bool)
  | cleared
  | sequence (answer : AllocationStatus ⊕ Bool)
deriving DecidableEq, Repr

/-- The cache and its KV cache as one object. -/
def object : AtomicObject (PrefixCache × PagedKvCache) Call Response where
  respond call state :=
    match call with
    | .put key blocks =>
        let put := state.1.put state.2 key blocks
        (.stored put.1, put.2)
    | .get key =>
        let found := state.1.get key
        (.found found.1, found.2, state.2)
    | .getLongest cacheNamespace hashes =>
        let found := state.1.getLongest cacheNamespace hashes
        (.longest found.1, found.2, state.2)
    | .putBlockPrefixes cacheNamespace hashes blocks =>
        let put := state.1.putBlockPrefixes state.2 cacheNamespace hashes blocks
        (.inserted put.1, put.2)
    | .evictOldest =>
        let evicted := state.1.evictOldest state.2
        (.evicted evicted.1, evicted.2)
    | .clear => (.cleared, state.1.clear state.2)
    | .sequence call =>
        let answered := PagedKvCache.object.respond call.call state.2
        (.sequence answered.1, state.1, answered.2)

/-- The single insertions of an insertion of prefixes. -/
def puts (cacheNamespace : Text) (hashes : List Text) (blocks : List BlockId)
    (lengths : List ℕ) : List Call :=
  lengths.map fun length =>
    .put (blockPrefixKey cacheNamespace (hashes.take length)) (blocks.take length)

variable {cache : PrefixCache} {kvCache : PagedKvCache}

/-- Prefixes are inserted one after another. -/
theorem putLengths_eq_run (cacheNamespace : Text) (hashes : List Text) (blocks : List BlockId)
    (lengths : List ℕ) (cache : PrefixCache) (kvCache : PagedKvCache) :
    (putLengths cacheNamespace hashes blocks lengths cache kvCache).2 =
      object.run (puts cacheNamespace hashes blocks lengths) (cache, kvCache) := by
  induction lengths generalizing cache kvCache with
  | nil => rfl
  | cons length later ih => exact ih _ _

/-! ### Uses -/

/-- The key that a call of a single key uses: it has an entry at the end of the call. -/
def usedOnce (call : Call) (state : PrefixCache × PagedKvCache) : List Text :=
  match call with
  | .put key _ => if key ∈ (object.respond call state).2.1.entries then [key] else []
  | .get key => if key ∈ state.1.entries then [key] else []
  | .getLongest cacheNamespace hashes =>
      ((state.1.getLongest cacheNamespace hashes).1.map fun found =>
        blockPrefixKey cacheNamespace (hashes.take found.2)).toList
  | _ => []

/-- The keys that a call uses, in order. -/
def used (call : Call) (state : PrefixCache × PagedKvCache) : List Text :=
  match call with
  | .putBlockPrefixes cacheNamespace hashes blocks =>
      object.emitted usedOnce (puts cacheNamespace hashes blocks
        (List.range' 1 (min hashes.length blocks.length))) state
  | call => usedOnce call state

/-! ### The order of the keys -/

/-- The keys are listed in the order of last use and within the capacity, and they are
pinned with their blocks. -/
structure Ordered (keyCapacity : ℕ) (uses : List Text) (state : PrefixCache × PagedKvCache) :
    Prop where
  invariant : state.2.Invariant
  pinned : state.1.Pinned state.2
  positive : 0 < keyCapacity
  capacity : state.1.capacity = keyCapacity
  within : state.1.recency.length ≤ keyCapacity
  order : state.1.recency.Sublist (byRecency uses)

theorem Listed.length (listed : cache.Listed) :
    cache.entries.entries.length = cache.recency.length :=
  AList.length_entries listed.distinct listed.keys

/-- An eviction drops the last key, with its entry. -/
theorem evictOldest_eq {oldest : Text} (last : cache.recency.getLast? = some oldest) :
    (cache.evictOldest kvCache).2.1 = { cache with
      entries := cache.entries.erase oldest
      recency := cache.recency.dropLast } := by
  rw [evictOldest, last]

theorem recency_evictOldest (cache : PrefixCache) (kvCache : PagedKvCache) :
    (cache.evictOldest kvCache).2.1.recency = cache.recency.dropLast := by
  unfold evictOldest
  split
  · next empty =>
      rw [List.getLast?_eq_none_iff.mp empty]
      rfl
  · rfl

theorem capacity_evictOldest (cache : PrefixCache) (kvCache : PagedKvCache) :
    (cache.evictOldest kvCache).2.1.capacity = cache.capacity := by
  unfold evictOldest
  split
  · rfl
  · rfl

/-- A put that pins makes room and then lists and enters its key. -/
theorem put_accepted {key : Text} {blocks : List BlockId} (fresh : key ∉ cache.entries)
    (accepted : (kvCache.pinPrefix key blocks).1 = true) :
    cache.put kvCache key blocks =
      let room := cache.makeRoom (kvCache.pinPrefix key blocks).2
      (true,
        { room.1 with
          recency := key :: room.1.recency
          entries := room.1.entries.insert key blocks },
        room.2) := by
  unfold put
  rw [AList.lookup_eq_none.mpr fresh]
  exact if_neg (by rw [accepted]; exact Bool.noConfusion)

/-- A put of a new key is a use of it. -/
theorem Listed.recency_put (listed : cache.Listed) {key : Text} {blocks : List BlockId}
    (fresh : key ∉ cache.entries) (accepted : (kvCache.pinPrefix key blocks).1 = true) :
    (cache.put kvCache key blocks).2.1.recency = use cache.capacity key cache.recency ∧
      (cache.put kvCache key blocks).2.1.capacity = cache.capacity := by
  have unlisted : key ∉ cache.recency := fun member => fresh ((listed.keys key).mp member)
  rw [put_accepted fresh accepted, use, if_neg unlisted]
  unfold makeRoom
  rw [listed.length]
  split
  · exact ⟨congrArg (key :: ·) (cache.recency_evictOldest _), cache.capacity_evictOldest _⟩
  · exact ⟨rfl, rfl⟩

/-- A state whose key list is that of a use of the key is ordered after it. -/
theorem Ordered.use {keyCapacity : ℕ} {uses : List Text}
    {state after : PrefixCache × PagedKvCache} (ordered : Ordered keyCapacity uses state)
    {key : Text} (invariant : after.2.Invariant) (pinned : after.1.Pinned after.2)
    (capacity : after.1.capacity = state.1.capacity)
    (recency : after.1.recency = Recency.use state.1.capacity key state.1.recency) :
    Ordered keyCapacity (uses ++ [key]) after := by
  rw [ordered.capacity] at capacity recency
  exact {
    invariant := invariant
    pinned := pinned
    positive := ordered.positive
    capacity := capacity
    within := recency ▸ length_use_le ordered.positive ordered.within key
    order := recency ▸ sublist_use key ordered.order }

/-- Without a use the keys stay, or some are dropped. -/
theorem Ordered.unused {keyCapacity : ℕ} {uses : List Text}
    {state after : PrefixCache × PagedKvCache} (ordered : Ordered keyCapacity uses state)
    (invariant : after.2.Invariant) (pinned : after.1.Pinned after.2)
    (capacity : after.1.capacity = state.1.capacity)
    (recency : after.1.recency.Sublist state.1.recency) :
    Ordered keyCapacity (uses ++ []) after := by
  rw [List.append_nil]
  exact {
    invariant := invariant
    pinned := pinned
    positive := ordered.positive
    capacity := capacity.trans ordered.capacity
    within := recency.length_le.trans ordered.within
    order := recency.trans ordered.order }

theorem Ordered.put {keyCapacity : ℕ} {uses : List Text} {state : PrefixCache × PagedKvCache}
    (ordered : Ordered keyCapacity uses state) (key : Text) (blocks : List BlockId) :
    Ordered keyCapacity (uses ++ usedOnce (.put key blocks) state)
      (object.respond (.put key blocks) state).2 := by
  obtain ⟨cache, kvCache⟩ := state
  have kept := ordered.pinned.put ordered.invariant key blocks
  have result : (object.respond (.put key blocks) (cache, kvCache)).2 =
    (cache.put kvCache key blocks).2 := rfl
  rw [usedOnce, result]
  by_cases known : key ∈ cache.entries
  · have touched : (cache.put kvCache key blocks).2 = (cache.touch key, kvCache) :=
      put_known known
    rw [if_pos (by rw [touched]; exact known)]
    exact ordered.use kept.invariant kept.pinned (by rw [touched]; rfl)
      (by rw [touched, use_of_mem ((ordered.pinned.keys key).mpr known)]; rfl)
  · cases accepted : (kvCache.pinPrefix key blocks).1 with
    | true =>
        obtain ⟨recency, capacity⟩ := ordered.pinned.recency_put known accepted
        rw [if_pos (by rw [put_accepted known accepted]; exact (AList.mem_insert _).mpr (.inl rfl))]
        exact ordered.use kept.invariant kept.pinned capacity recency
    | false =>
        have unchanged := put_refused known accepted
        rw [if_neg (by rw [unchanged]; exact known)]
        exact ordered.unused kept.invariant kept.pinned (by rw [unchanged])
          (by rw [unchanged])

theorem Ordered.puts {keyCapacity : ℕ} {uses : List Text} {state : PrefixCache × PagedKvCache}
    (ordered : Ordered keyCapacity uses state) (cacheNamespace : Text) (hashes : List Text)
    (blocks : List BlockId) (lengths : List ℕ) :
    Ordered keyCapacity
      (uses ++ object.emitted usedOnce (puts cacheNamespace hashes blocks lengths) state)
      (object.run (puts cacheNamespace hashes blocks lengths) state) := by
  induction lengths generalizing uses state with
  | nil => exact (List.append_nil uses).symm ▸ ordered
  | cons length later ih =>
      have first := ordered.put (blockPrefixKey cacheNamespace (hashes.take length))
        (blocks.take length)
      have rest := ih first
      rw [List.append_assoc] at rest
      exact rest

theorem Ordered.get {keyCapacity : ℕ} {uses : List Text} {state : PrefixCache × PagedKvCache}
    (ordered : Ordered keyCapacity uses state) (key : Text) :
    Ordered keyCapacity (uses ++ usedOnce (.get key) state)
      (object.respond (.get key) state).2 := by
  have pinned := ordered.pinned.get key
  change Ordered keyCapacity _ ((state.1.get key).2, state.2)
  rw [usedOnce]
  by_cases known : key ∈ state.1.entries
  · obtain ⟨blocks, found⟩ := Option.isSome_iff_exists.mp (AList.lookup_isSome.mpr known)
    have touched : (state.1.get key).2 = { state.1 with hits := state.1.hits + 1 }.touch key := by
      rw [PrefixCache.get, found]
    rw [if_pos known]
    exact ordered.use ordered.invariant pinned (by rw [touched]; rfl)
      (by rw [touched, use_of_mem ((ordered.pinned.keys key).mpr known)]; rfl)
  · have missed : (state.1.get key).2 = { state.1 with misses := state.1.misses + 1 } := by
      rw [PrefixCache.get, AList.lookup_eq_none.mpr known]
    rw [if_neg known]
    exact ordered.unused ordered.invariant pinned (by rw [missed]) (by rw [missed])

/-- A lookup of the longest prefix misses, or brings the key of an entry to the front. -/
theorem longestFrom_cases (cache : PrefixCache) (cacheNamespace : Text) (hashes : List Text)
    (count : ℕ) :
    ((cache.longestFrom cacheNamespace hashes count).1 = none ∧
      (cache.longestFrom cacheNamespace hashes count).2 =
        { cache with misses := cache.misses + 1 }) ∨
    ∃ blocks matched, (cache.longestFrom cacheNamespace hashes count).1 = some (blocks, matched) ∧
      blockPrefixKey cacheNamespace (hashes.take matched) ∈ cache.entries ∧
      (cache.longestFrom cacheNamespace hashes count).2 =
        { cache with hits := cache.hits + 1 }.touch
          (blockPrefixKey cacheNamespace (hashes.take matched)) := by
  induction count with
  | zero => exact .inl ⟨rfl, rfl⟩
  | succ count ih =>
      unfold longestFrom
      dsimp only
      split
      · exact ih
      · next blocks found =>
          exact .inr ⟨blocks, count + 1, rfl, AList.lookup_isSome.mp (found ▸ rfl), rfl⟩

theorem Ordered.getLongest {keyCapacity : ℕ} {uses : List Text}
    {state : PrefixCache × PagedKvCache} (ordered : Ordered keyCapacity uses state)
    (cacheNamespace : Text) (hashes : List Text) :
    Ordered keyCapacity (uses ++ usedOnce (.getLongest cacheNamespace hashes) state)
      (object.respond (.getLongest cacheNamespace hashes) state).2 := by
  have pinned := ordered.pinned.longestFrom cacheNamespace hashes hashes.length
  change Ordered keyCapacity _
    ((state.1.longestFrom cacheNamespace hashes hashes.length).2, state.2)
  rw [usedOnce, PrefixCache.getLongest]
  rcases state.1.longestFrom_cases cacheNamespace hashes hashes.length with
    ⟨answer, missed⟩ | ⟨blocks, matched, answer, known, touched⟩
  · rw [answer]
    exact ordered.unused ordered.invariant pinned (by rw [missed]) (by rw [missed])
  · rw [answer]
    exact ordered.use ordered.invariant pinned (by rw [touched]; rfl)
      (by rw [touched, use_of_mem ((ordered.pinned.keys _).mpr known)]; rfl)

/-- An eviction keeps the link to the KV cache. -/
theorem Pinned.evictOldest (pinned : cache.Pinned kvCache) :
    (cache.evictOldest kvCache).2.1.Pinned (cache.evictOldest kvCache).2.2 :=
  ⟨pinned.toListed.evictOldest kvCache, fun key => lookup_evictOldest (pinned.lookup key)⟩

/-- Every call keeps the keys in the order of last use. -/
theorem Ordered.respond {keyCapacity : ℕ} {uses : List Text}
    {state : PrefixCache × PagedKvCache} (ordered : Ordered keyCapacity uses state)
    (call : Call) :
    Ordered keyCapacity (uses ++ used call state) (object.respond call state).2 := by
  cases call with
  | put key blocks => exact ordered.put key blocks
  | get key => exact ordered.get key
  | getLongest cacheNamespace hashes => exact ordered.getLongest cacheNamespace hashes
  | putBlockPrefixes cacheNamespace hashes blocks =>
      have run := putLengths_eq_run cacheNamespace hashes blocks
        (List.range' 1 (min hashes.length blocks.length)) state.1 state.2
      have result : (object.respond (.putBlockPrefixes cacheNamespace hashes blocks) state).2 = _ :=
        run
      rw [result]
      exact ordered.puts cacheNamespace hashes blocks _
  | evictOldest =>
      exact ordered.unused (state.1.evictOldest_shrinks ordered.invariant).1
        ordered.pinned.evictOldest (state.1.capacity_evictOldest state.2)
        (by
          change (state.1.evictOldest state.2).2.1.recency.Sublist _
          rw [recency_evictOldest]
          exact List.dropLast_sublist _)
  | clear =>
      obtain ⟨pinned, invariant, _⟩ := ordered.pinned.clear ordered.invariant
      exact ordered.unused invariant pinned rfl (List.nil_sublist _)
  | sequence call =>
      exact ordered.unused (ordered.invariant.respond call.call)
        ⟨ordered.pinned.toListed, fun key =>
          (congrArg (AList.lookup key) (state.2.prefixBlocks_sequence call)).trans
            (ordered.pinned.lookup key)⟩
        rfl (List.Sublist.refl _)

/-- An insertion into a full cache drops the last key. -/
theorem Ordered.evicts {keyCapacity : ℕ} {uses : List Text} {state : PrefixCache × PagedKvCache}
    (ordered : Ordered keyCapacity uses state) {key : Text} {blocks : List BlockId}
    (fresh : key ∉ state.1.entries) (accepted : (state.2.pinPrefix key blocks).1 = true)
    (full : state.1.recency.length = keyCapacity) :
    ∃ oldest, state.1.recency.getLast? = some oldest ∧
      (state.1.put state.2 key blocks).2.1.recency = key :: state.1.recency.dropLast ∧
      ∀ other, (state.1.put state.2 key blocks).2.1.entries.lookup other =
        if other = key then some blocks
        else if other = oldest then none
        else state.1.entries.lookup other := by
  have filled : state.1.recency ≠ [] :=
    List.ne_nil_of_length_pos (full.symm ▸ ordered.positive)
  have last := List.getLast?_eq_some_getLast filled
  have room : (state.1.makeRoom (state.2.pinPrefix key blocks).2).1 = { state.1 with
      entries := state.1.entries.erase (state.1.recency.getLast filled)
      recency := state.1.recency.dropLast } := by
    rw [makeRoom, ordered.pinned.toListed.length, full, if_pos ordered.capacity.symm]
    exact evictOldest_eq last
  rw [put_accepted fresh accepted]
  refine ⟨_, last, ?_, fun other => ?_⟩
  · dsimp only
    rw [room]
  · dsimp only
    rw [room]
    by_cases same : other = key
    · rw [if_pos same, same, AList.lookup_insert]
    · rw [if_neg same, AList.lookup_insert_ne same]
      split
      · next dropped => rw [dropped, AList.lookup_erase]
      · next different => exact AList.lookup_erase_ne different

/-- A put that cannot pin its blocks answers false and changes nothing. -/
theorem put_unpinned {key : Text} {blocks : List BlockId} (fresh : key ∉ cache.entries)
    (refused : (kvCache.pinPrefix key blocks).1 = false) :
    cache.put kvCache key blocks = (false, cache, kvCache) := by
  unfold put
  rw [AList.lookup_eq_none.mpr fresh]
  exact if_pos refused

/-- **The prefix cache is a least recently used cache with its pins.** After any calls of a
prefix cache, and any sequence calls of its KV cache between them, the keys of the entries
are listed once each, in the order of last use and within the capacity; the pins of the KV
cache are these keys with these blocks; an insertion into a full cache drops exactly the
last key, and a put that fails to pin changes nothing. An insertion of prefixes is the run
of its single insertions. -/
theorem recency_run {keyCapacity blockCount blockSizeTokens : ℕ} {cache : PrefixCache}
    {kvCache : PagedKvCache} (accepted : new keyCapacity = .ok cache)
    (acceptedKv : PagedKvCache.new blockCount blockSizeTokens = .ok kvCache)
    (calls : List Call) :
    let state := object.run calls (cache, kvCache)
    state.1.recency.Nodup ∧ (∀ key, key ∈ state.1.recency ↔ key ∈ state.1.entries) ∧
    state.1.recency.length ≤ keyCapacity ∧
    state.1.recency.Sublist (byRecency (object.emitted used calls (cache, kvCache))) ∧
    (∀ key, state.2.prefixBlocks.lookup key = state.1.entries.lookup key) ∧
    (∀ key blocks, key ∉ state.1.entries → (state.2.pinPrefix key blocks).1 = true →
      state.1.recency.length = keyCapacity →
      ∃ oldest, state.1.recency.getLast? = some oldest ∧
        (state.1.put state.2 key blocks).2.1.recency = key :: state.1.recency.dropLast ∧
        ∀ other, (state.1.put state.2 key blocks).2.1.entries.lookup other =
          if other = key then some blocks
          else if other = oldest then none
          else state.1.entries.lookup other) ∧
    (∀ key blocks, key ∉ state.1.entries → (state.2.pinPrefix key blocks).1 = false →
      state.1.put state.2 key blocks = (false, state)) ∧
    ∀ cacheNamespace hashes blocks,
      (object.respond (.putBlockPrefixes cacheNamespace hashes blocks) state).2 =
        object.run (puts cacheNamespace hashes blocks
          (List.range' 1 (min hashes.length blocks.length))) state := by
  intro state
  have positive : 0 < keyCapacity := by
    refine Nat.pos_of_ne_zero fun zero => ?_
    rw [zero] at accepted
    cases accepted
  have start : Ordered keyCapacity [] (cache, kvCache) := by
    have created := new_eq_ok accepted
    exact {
      invariant := .new acceptedKv
      pinned := .new accepted (PagedKvCache.prefixBlocks_new acceptedKv)
      positive := positive
      capacity := congrArg PrefixCache.capacity created
      within := by
        rw [created]
        exact Nat.zero_le _
      order := by
        rw [created]
        exact List.Sublist.slnil }
  have ordered : Ordered keyCapacity (object.emitted used calls (cache, kvCache)) state :=
    object.emitted_invariant (fun _ call _ before => before.respond call) calls _ [] start
  exact ⟨ordered.pinned.distinct, ordered.pinned.keys, ordered.within, ordered.order,
    ordered.pinned.lookup, fun key blocks => ordered.evicts,
    fun key blocks => put_unpinned,
    fun cacheNamespace hashes blocks => putLengths_eq_run cacheNamespace hashes blocks _ _ _⟩

/-- With room for two keys, the insertion of three prefixes drops the first of them. -/
theorem recency_run_full :
    let calls := [Call.sequence (.allocate ['a'] 3 []),
      .putBlockPrefixes [] [['h'], ['i'], ['j']] [0, 1, 2]]
    ∃ cache kvCache, new 2 = .ok cache ∧ PagedKvCache.new 3 16 = .ok kvCache ∧
      (object.run calls (cache, kvCache)).1.recency =
        [blockPrefixKey [] [['h'], ['i'], ['j']], blockPrefixKey [] [['h'], ['i']]] ∧
      (object.run calls (cache, kvCache)).1.recency.length ≤ 2 := by
  intro calls
  have accepted : new 2 = .ok _ := rfl
  have acceptedKv : PagedKvCache.new 3 16 = .ok _ := rfl
  exact ⟨_, _, accepted, acceptedKv, by decide, (recency_run accepted acceptedKv calls).2.2.1⟩

end InferSched.Engine.PrefixCache

import InferSched.Engine.KvHolders

/-! # The self-check of the paged KV cache

`CheckInvariants` recounts the holders of every block and compares the recount
with the reference counts and the free list. `PagedKvCache.checkInvariants_iff`
says what it accepts, for any contents of the fields, as long as no block has
`2 ^ 32` holders. The invariant of `InferSched.Engine.KvInvariant` is then
enough for the check to pass, and releasing every holder frees every block.
-/

namespace InferSched.Engine.PagedKvCache

open Library

/-- Adding and taking away the free blocks gives the total back, whether or not
the subtraction wrapped. -/
theorem total_recount (cache : PagedKvCache) (fits : cache.totalBlocks < 2 ^ sizeBits) :
    Word.add sizeBits cache.allocatedBlocks cache.freeBlocks = cache.totalBlocks := by
  unfold allocatedBlocks Word.add Word.sub
  rw [Nat.mod_add_mod]
  have below : cache.freeBlocks % 2 ^ sizeBits < 2 ^ sizeBits := Nat.mod_lt _ (by decide)
  have split := Nat.div_add_mod cache.freeBlocks (2 ^ sizeBits)
  have total : cache.totalBlocks + (2 ^ sizeBits - cache.freeBlocks % 2 ^ sizeBits) +
      cache.freeBlocks =
      cache.totalBlocks + 2 ^ sizeBits * (cache.freeBlocks / 2 ^ sizeBits + 1) := by
    rw [Nat.mul_add, Nat.mul_one]
    omega
  rw [total, Nat.add_mul_mod_self_left, Nat.mod_eq_of_lt fits]

/-- A holder lists distinct blocks of the cache. -/
def HolderValid (total : ℕ) (blocks : List BlockId) : Prop :=
  blocks.Nodup ∧ ∀ block ∈ blocks, block < total

/-- `observed` stores the number `count` gives to every block. -/
def Observes (total : ℕ) (observed : List ℕ) (count : BlockId → ℕ) : Prop :=
  observed.length = total ∧
    ∀ block < total, observed.getD block 0 = count block % 2 ^ refcountBits

/-- One holder's pass succeeds exactly on a valid holder. -/
theorem observeHolder_isSome (total : ℕ) (unique blocks : List BlockId) (observed : List ℕ) :
    (observeHolder total unique blocks observed).isSome = true ↔
      HolderValid total blocks ∧ ∀ block ∈ blocks, block ∉ unique := by
  induction blocks generalizing unique observed with
  | nil => simp [observeHolder, HolderValid]
  | cons block rest ih =>
      unfold observeHolder
      by_cases refused : block ≥ total ∨ block ∈ unique
      · rw [if_pos refused]
        refine iff_of_false Bool.false_ne_true ?_
        rintro ⟨⟨_, inside⟩, unseen⟩
        rcases refused with beyond | seen
        · exact absurd (inside block List.mem_cons_self) (Nat.not_lt.mpr beyond)
        · exact unseen block List.mem_cons_self seen
      · rw [if_neg refused, ih]
        simp only [not_or, Nat.not_le, ge_iff_le] at refused
        simp only [HolderValid, List.nodup_cons, List.mem_cons, not_or, forall_eq_or_imp]
        constructor
        · rintro ⟨⟨distinct, inside⟩, unseen⟩
          exact ⟨⟨⟨fun member => (unseen block member).1 rfl, distinct⟩, refused.1, inside⟩,
            refused.2, fun other member => (unseen other member).2⟩
        · rintro ⟨⟨⟨fresh, distinct⟩, _, inside⟩, _, unseen⟩
          refine ⟨⟨distinct, inside⟩, fun other member => ⟨?_, unseen other member⟩⟩
          rintro rfl
          exact fresh member

/-- One holder's pass counts the holder once for each block it lists. -/
theorem observeHolder_counts {total : ℕ} {unique blocks : List BlockId} {observed next : List ℕ}
    {count : BlockId → ℕ} (observes : Observes total observed count)
    (passed : observeHolder total unique blocks observed = some next) :
    Observes total next fun block => count block + if block ∈ blocks then 1 else 0 := by
  have valid := (observeHolder_isSome total unique blocks observed).mp (by rw [passed]; rfl)
  induction blocks generalizing unique observed count with
  | nil =>
      cases passed
      simpa using observes
  | cons block rest ih =>
      obtain ⟨⟨distinct, inside⟩, _⟩ := valid
      obtain ⟨fresh, _⟩ := List.nodup_cons.mp distinct
      have within : block < observed.length := observes.1 ▸ inside block List.mem_cons_self
      unfold observeHolder at passed
      split at passed
      · cases passed
      · have counted : Observes total
            (observed.set block (Word.add refcountBits (observed.getD block 0) 1))
            fun query => count query + if query = block then 1 else 0 := by
          refine ⟨by rw [List.length_set]; exact observes.1, fun query bound => ?_⟩
          rw [RefPool.getD_set _ _ _ _ within]
          by_cases same : query = block
          · subst query
            simp only [↓reduceIte]
            unfold Word.add
            rw [observes.2 block bound, Nat.mod_add_mod]
          · simp only [same, ↓reduceIte, Nat.add_zero]
            exact observes.2 query bound
        have tailValid := (observeHolder_isSome total (block :: unique) rest _).mp
          (by rw [passed]; rfl)
        obtain ⟨sized, later⟩ := ih counted passed tailValid
        refine ⟨sized, fun query bound => ?_⟩
        rw [later query bound]
        by_cases same : query = block
        · subst query
          simp [fresh]
        · simp [same]

/-- The passes over a table succeed exactly when every holder is valid. -/
theorem observeHolders_isSome (total : ℕ) (table : List (List BlockId)) (observed : List ℕ) :
    (observeHolders total table observed).isSome = true ↔
      ∀ blocks ∈ table, HolderValid total blocks := by
  induction table generalizing observed with
  | nil => simp [observeHolders]
  | cons blocks rest ih =>
      have first := observeHolder_isSome total [] blocks observed
      simp only [List.not_mem_nil, not_false_eq_true, implies_true, and_true] at first
      unfold observeHolders
      simp only [List.mem_cons, forall_eq_or_imp]
      cases passed : observeHolder total [] blocks observed with
      | none =>
          rw [passed] at first
          refine iff_of_false Bool.false_ne_true fun all => ?_
          exact Bool.false_ne_true (first.mpr all.1)
      | some next =>
          rw [passed] at first
          exact (ih next).trans (and_iff_right (first.mp rfl)).symm

/-- The passes over a table add its holders to the count. -/
theorem observeHolders_counts {total : ℕ} {table : List (List BlockId)} {observed next : List ℕ}
    {count : BlockId → ℕ} (observes : Observes total observed count)
    (passed : observeHolders total table observed = some next) :
    Observes total next
      fun block => count block + table.countP fun blocks => block ∈ blocks := by
  induction table generalizing observed count with
  | nil =>
      cases passed
      simpa using observes
  | cons blocks rest ih =>
      unfold observeHolders at passed
      obtain ⟨middle, first, later⟩ := Option.bind_eq_some_iff.mp passed
      obtain ⟨sized, counted⟩ := ih (observeHolder_counts observes first) later
      refine ⟨sized, fun query bound => ?_⟩
      rw [counted query bound]
      simp only [List.countP_cons, decide_eq_true_eq]
      congr 1
      omega

/-- The pass over the free list fails on a repeated or foreign block, and
otherwise marks exactly the listed blocks. -/
theorem observeFree_spec (total : ℕ) (blocks : List BlockId) (observed : List Bool)
    (sized : observed.length = total) :
    ((observeFree total blocks observed).isSome = true ↔
      HolderValid total blocks ∧ ∀ block ∈ blocks, observed.getD block false = false) ∧
    ∀ next, observeFree total blocks observed = some next →
      ∀ query, next.getD query false = (observed.getD query false || decide (query ∈ blocks)) := by
  induction blocks generalizing observed with
  | nil =>
      refine ⟨by simp [observeFree, HolderValid], ?_⟩
      intro next passed query
      cases passed
      simp
  | cons block rest ih =>
      unfold observeFree
      by_cases refused : block ≥ total ∨ observed.getD block false = true
      · simp only [if_pos refused]
        refine ⟨iff_of_false Bool.false_ne_true ?_, fun next passed => by cases passed⟩
        rintro ⟨⟨_, inside⟩, unseen⟩
        rcases refused with beyond | seen
        · exact absurd (inside block List.mem_cons_self) (Nat.not_lt.mpr beyond)
        · exact Bool.false_ne_true ((unseen block List.mem_cons_self).symm.trans seen)
      · simp only [if_neg refused]
        simp only [not_or, Nat.not_le, ge_iff_le, Bool.not_eq_true] at refused
        obtain ⟨inside, unseen⟩ := refused
        have marked : ∀ query, (observed.set block true).getD query false =
            (observed.getD query false || decide (query = block)) := by
          intro query
          simp only [List.getD_eq_getElem?_getD, List.getElem?_set, sized, inside, ↓reduceIte]
          by_cases same : query = block
          · subst query
            simp
          · rw [if_neg (Ne.symm same)]
            simp [same]
        obtain ⟨accepts, marks⟩ := ih (observed.set block true)
          (by rw [List.length_set]; exact sized)
        constructor
        · rw [accepts]
          simp only [HolderValid, List.nodup_cons, List.mem_cons, forall_eq_or_imp, marked,
            Bool.or_eq_false_iff, decide_eq_false_iff_not]
          constructor
          · rintro ⟨⟨distinct, within⟩, fresh⟩
            exact ⟨⟨⟨fun member => (fresh block member).2 rfl, distinct⟩, inside, within⟩, unseen,
              fun other member => (fresh other member).1⟩
          · rintro ⟨⟨⟨fresh, distinct⟩, _, within⟩, _, clear⟩
            refine ⟨⟨distinct, within⟩, fun other member => ⟨clear other member, ?_⟩⟩
            rintro rfl
            exact fresh member
        · intro next passed query
          rw [marks next passed query, marked query]
          by_cases same : query = block
          · simp [same]
          · simp [same]

/-- What the self-check accepts. -/
structure Exact (cache : PagedKvCache) : Prop where
  sequences : ∀ id blocks, cache.sequenceBlocks.lookup id = some blocks →
    HolderValid cache.totalBlocks blocks
  prefixes : ∀ key blocks, cache.prefixBlocks.lookup key = some blocks →
    HolderValid cache.totalBlocks blocks
  freeList : HolderValid cache.totalBlocks cache.freeList
  refcounts : ∀ block < cache.totalBlocks, cache.refCount block = cache.holders block
  free : ∀ block < cache.totalBlocks, block ∈ cache.freeList ↔ cache.refCount block = 0

/-- The lists of a table are those its keys look up. -/
theorem forall_mem_lists {κ : Type*} [DecidableEq κ] (table : Holdings κ BlockId)
    (property : List BlockId → Prop) :
    (∀ blocks ∈ table.entries.map Sigma.snd, property blocks) ↔
      ∀ key blocks, table.lookup key = some blocks → property blocks := by
  constructor
  · intro all key blocks found
    exact all blocks (List.mem_map.mpr ⟨⟨key, blocks⟩, AList.mem_lookup_iff.mp found, rfl⟩)
  · intro all blocks member
    obtain ⟨⟨key, listed⟩, entry, rfl⟩ := List.mem_map.mp member
    exact all key listed (AList.mem_lookup_iff.mpr entry)

/-- **The self-check is exact** below `2 ^ 32` holders of a block, whatever the
fields contain. -/
theorem checkInvariants_iff (cache : PagedKvCache) (sized : cache.totalBlocks < 2 ^ sizeBits)
    (fits : ∀ block, cache.holders block < 2 ^ refcountBits) :
    cache.checkInvariants = true ↔ cache.Exact := by
  have start : Observes cache.totalBlocks (List.replicate cache.totalBlocks 0) fun _ => 0 := by
    refine ⟨List.length_replicate, fun block bound => ?_⟩
    simp [List.getD_eq_getElem?_getD, bound]
  have freeSpec := observeFree_spec cache.totalBlocks cache.freeList
    (List.replicate cache.totalBlocks false) List.length_replicate
  have blank : ∀ block, (List.replicate cache.totalBlocks false).getD block false = false := by
    intro block
    simp only [List.getD_eq_getElem?_getD, List.getElem?_replicate]
    split <;> rfl
  have sequenceSpec := (observeHolders_isSome cache.totalBlocks
    (cache.sequenceBlocks.entries.map Sigma.snd) (List.replicate cache.totalBlocks 0)).trans
      (forall_mem_lists cache.sequenceBlocks _)
  unfold checkInvariants
  simp only [total_recount cache sized, ne_eq, not_true_eq_false, ↓reduceIte]
  cases first : observeHolders cache.totalBlocks (cache.sequenceBlocks.entries.map Sigma.snd)
      (List.replicate cache.totalBlocks 0) with
  | none =>
      rw [first] at sequenceSpec
      refine iff_of_false Bool.false_ne_true fun exact => ?_
      exact Bool.false_ne_true (sequenceSpec.mpr exact.sequences)
  | some counted =>
      rw [first] at sequenceSpec
      have prefixSpec := (observeHolders_isSome cache.totalBlocks
        (cache.prefixBlocks.entries.map Sigma.snd) counted).trans
          (forall_mem_lists cache.prefixBlocks _)
      simp only [Option.bind_some]
      cases second : observeHolders cache.totalBlocks (cache.prefixBlocks.entries.map Sigma.snd)
          counted with
      | none =>
          rw [second] at prefixSpec
          refine iff_of_false Bool.false_ne_true fun exact => ?_
          exact Bool.false_ne_true (prefixSpec.mpr exact.prefixes)
      | some recount =>
          rw [second] at prefixSpec
          have observes := observeHolders_counts (observeHolders_counts start first) second
          have recounted : ∀ block < cache.totalBlocks,
              recount.getD block 0 = cache.holders block := by
            intro block bound
            rw [observes.2 block bound]
            simp only [List.countP_map, Nat.zero_add]
            exact Nat.mod_eq_of_lt (fits block)
          cases third : observeFree cache.totalBlocks cache.freeList
              (List.replicate cache.totalBlocks false) with
          | none =>
              rw [third] at freeSpec
              refine iff_of_false Bool.false_ne_true fun exact => ?_
              exact Bool.false_ne_true (freeSpec.1.mpr ⟨exact.freeList, fun block _ => blank block⟩)
          | some marked =>
              rw [third] at freeSpec
              have marks : ∀ block, marked.getD block false = decide (block ∈ cache.freeList) := by
                intro block
                rw [freeSpec.2 marked rfl block, blank block, Bool.false_or]
              simp only [List.all_eq_true, List.mem_range, Bool.and_eq_true, decide_eq_true_eq,
                marks, decide_eq_decide]
              constructor
              · intro all
                refine ⟨sequenceSpec.mp rfl, prefixSpec.mp rfl, (freeSpec.1.mp rfl).1, ?_, ?_⟩
                · intro block bound
                  rw [← (all block bound).1, recounted block bound]
                · intro block bound
                  exact (all block bound).2.symm
              · intro exact block bound
                exact ⟨by rw [recounted block bound, exact.refcounts block bound],
                  (exact.free block bound).symm⟩

/-- **The self-check accepts the consistent caches and no others.** For any contents of the
fields it passes exactly when every holder lists distinct blocks of the cache, the free list
does so too, every reference count is the number of holders, and the free blocks are those
whose count is zero. -/
theorem checkInvariants_exact (cache : PagedKvCache) (sized : cache.totalBlocks < 2 ^ sizeBits)
    (fits : ∀ block, cache.holders block < 2 ^ refcountBits) :
    cache.checkInvariants = true ↔
      (∀ holder blocks, cache.sequenceBlocks.lookup holder = some blocks ∨
          cache.prefixBlocks.lookup holder = some blocks →
        blocks.Nodup ∧ ∀ block ∈ blocks, block < cache.totalBlocks) ∧
      (cache.freeList.Nodup ∧ ∀ block ∈ cache.freeList, block < cache.totalBlocks) ∧
      (∀ block < cache.totalBlocks, cache.refCount block = cache.holders block) ∧
      ∀ block < cache.totalBlocks, block ∈ cache.freeList ↔ cache.refCount block = 0 := by
  rw [checkInvariants_iff cache sized fits]
  constructor
  · intro exact
    refine ⟨?_, exact.freeList, exact.refcounts, exact.free⟩
    rintro holder blocks (sequence | pinned)
    · exact exact.sequences holder blocks sequence
    · exact exact.prefixes holder blocks pinned
  · rintro ⟨listed, freeList, refcounts, free⟩
    exact {
      sequences := fun id blocks found => listed id blocks (.inl found)
      prefixes := fun key blocks found => listed key blocks (.inr found)
      freeList := freeList
      refcounts := refcounts
      free := free }

/-- A cache of one block that is free twice. -/
theorem checkInvariants_exact_corrupt :
    let cache : PagedKvCache :=
      { refcounts := [0], freeList := [0, 0], blockSizeTokens := 1, sequenceBlocks := ∅,
        prefixBlocks := ∅ }
    ¬cache.checkInvariants = true := by
  intro cache passed
  have facts := (checkInvariants_exact cache (by decide) fun _ =>
    Nat.two_pow_pos refcountBits).mp passed
  exact absurd facts.2.1.1 (by decide)

/-- The invariant passes the self-check. -/
theorem Invariant.exact {cache : PagedKvCache} (invariant : cache.Invariant)
    (fits : ∀ block, cache.holders block < 2 ^ refcountBits) : cache.Exact := by
  have inside : ∀ block, 0 < cache.holders block → block < cache.totalBlocks := by
    intro block held
    by_contra beyond
    exact absurd (invariant.balanced.outside block (Nat.le_of_not_lt beyond)) (by omega)
  refine ⟨?_, ?_, ?_, ?_, ?_⟩
  · intro id blocks found
    exact ⟨invariant.sequences_nodup id blocks found, fun block member =>
      inside block (held_of_sequence found block member)⟩
  · intro key blocks found
    exact ⟨invariant.prefixes_nodup key blocks found, fun block member =>
      inside block (held_of_pinned found block member)⟩
  · exact ⟨invariant.balanced.nodup, fun block member =>
      ((invariant.balanced.free block).mp member).1⟩
  · intro block _
    exact invariant.refCount_eq block (fits block)
  · intro block bound
    rw [invariant.refCount_eq block (fits block)]
    exact (invariant.balanced.free block).trans (and_iff_right bound)

/-- No call changes the number of blocks. -/
theorem respond_totalBlocks (call : Call) (cache : PagedKvCache) :
    (object.respond call cache).2.totalBlocks = cache.totalBlocks := by
  cases call with
  | allocate sequenceId requiredBlocks shared =>
      change (cache.allocate sequenceId requiredBlocks shared).2.totalBlocks = _
      rcases cache.allocate_cases sequenceId requiredBlocks shared with
        ⟨refused, _⟩ | ⟨refused, _⟩ | ⟨refused, _⟩ | ⟨_, _, _, _, grant⟩
      · rw [refused]
      · rw [refused]
      · rw [refused]
      · exact grant.totalBlocks
  | free sequenceId =>
      change (cache.free sequenceId).2.totalBlocks = _
      unfold free
      split
      · rfl
      · exact RefPool.size_foldl_release _ _ _
  | appendBlocks sequenceId additionalBlocks =>
      change (cache.appendBlocks sequenceId additionalBlocks).2.totalBlocks = _
      rcases cache.appendBlocks_cases sequenceId additionalBlocks with
        ⟨refused, _⟩ | ⟨_, _, ⟨refused, _⟩ | ⟨_, grant⟩⟩
      · rw [refused]
      · rw [refused]
      · exact grant.totalBlocks
  | pinPrefix prefixKey blocks =>
      change (cache.pinPrefix prefixKey blocks).2.totalBlocks = _
      unfold pinPrefix
      split
      · rfl
      · split
        · rfl
        · exact RefPool.size_foldl_retain _ _ _
  | unpinPrefix prefixKey =>
      change (cache.unpinPrefix prefixKey).2.totalBlocks = _
      unfold unpinPrefix
      split
      · rfl
      · exact RefPool.size_foldl_release _ _ _

theorem run_totalBlocks (calls : List Call) (cache : PagedKvCache) :
    (object.run calls cache).totalBlocks = cache.totalBlocks := by
  have kept : ∀ call state, state.totalBlocks = cache.totalBlocks →
      (object.respond call state).2.totalBlocks = cache.totalBlocks := by
    intro call state same
    rw [respond_totalBlocks call state, same]
  exact object.invariant kept calls cache rfl

theorem lookup_erase_ite (table : AList fun _ : Text => List BlockId) (key other : Text) :
    (table.erase key).lookup other = if other = key then none else table.lookup other := by
  by_cases same : other = key
  · subst same
    rw [AList.lookup_erase, if_pos rfl]
  · rw [AList.lookup_erase_ne same, if_neg same]

/-- Release calls only remove the holders they name. -/
theorem run_releases_lookup (order : List Call) (cache : PagedKvCache)
    (releasing : ∀ call ∈ order, (∃ id, call = .free id) ∨ ∃ key, call = .unpinPrefix key) :
    (∀ id, (object.run order cache).sequenceBlocks.lookup id =
      if Call.free id ∈ order then none else cache.sequenceBlocks.lookup id) ∧
    ∀ key, (object.run order cache).prefixBlocks.lookup key =
      if Call.unpinPrefix key ∈ order then none else cache.prefixBlocks.lookup key := by
  induction order generalizing cache with
  | nil => simp
  | cons call rest ih =>
      obtain ⟨sequences, prefixes⟩ := ih (object.respond call cache).2
        fun other member => releasing other (List.mem_cons_of_mem _ member)
      rw [AtomicObject.run_cons]
      rcases releasing call List.mem_cons_self with ⟨freed, rfl⟩ | ⟨unpinned, rfl⟩
      · obtain ⟨erased, kept, _⟩ := cache.free_tables freed
        constructor
        · intro id
          rw [sequences id, show (object.respond (.free freed) cache).2.sequenceBlocks = _ from
            erased, lookup_erase_ite]
          by_cases same : id = freed
          · subst id
            simp
          · simp [same]
        · intro key
          rw [prefixes key, show (object.respond (.free freed) cache).2.prefixBlocks = _ from kept]
          simp
      · obtain ⟨erased, shrinks⟩ := cache.unpinPrefix_tables unpinned
        constructor
        · intro id
          rw [sequences id, show (object.respond (.unpinPrefix unpinned) cache).2.sequenceBlocks =
            _ from shrinks.sequences]
          simp
        · intro key
          rw [prefixes key, show (object.respond (.unpinPrefix unpinned) cache).2.prefixBlocks = _
            from erased, lookup_erase_ite]
          by_cases same : key = unpinned
          · subst key
            simp
          · simp [same]

/-- Without entries in either table no block has a holder. -/
theorem holders_eq_zero {cache : PagedKvCache}
    (sequences : ∀ id, cache.sequenceBlocks.lookup id = none)
    (prefixes : ∀ key, cache.prefixBlocks.lookup key = none) (block : BlockId) :
    cache.holders block = 0 := by
  by_contra held
  have positive : 0 < cache.sequenceBlocks.holders block ∨
      0 < cache.prefixBlocks.holders block := by
    unfold holders at held
    omega
  rcases positive with listed | listed
  · obtain ⟨id, blocks, found, _⟩ := Holdings.holders_pos_iff.mp listed
    exact absurd (found.symm.trans (sequences id)) (by simp)
  · obtain ⟨key, blocks, found, _⟩ := Holdings.holders_pos_iff.mp listed
    exact absurd (found.symm.trans (prefixes key)) (by simp)

/-- Nothing is left under a key whose holder was released. -/
theorem lookup_released_eq_none {released : Prop} [Decidable released]
    {table : AList fun _ : Text => List BlockId} {key : Text}
    (complete : key ∈ table → released) :
    (if released then none else table.lookup key) = none := by
  split
  · rfl
  · next kept => exact AList.lookup_eq_none.mpr fun known => kept (complete known)

/-- Releasing every live sequence and pin, in any order, frees every block. -/
theorem Invariant.release_all {cache : PagedKvCache} (invariant : cache.Invariant)
    (order : List Call) (complete : order.Perm cache.releases) :
    (object.run order cache).freeBlocks = cache.totalBlocks := by
  have releasing : ∀ call ∈ order, (∃ id, call = .free id) ∨ ∃ key, call = .unpinPrefix key := by
    intro call member
    have listed := complete.mem_iff.mp member
    unfold releases at listed
    rcases List.mem_append.mp listed with freed | unpinned
    · obtain ⟨id, _, rfl⟩ := List.mem_map.mp freed
      exact Or.inl ⟨id, rfl⟩
    · obtain ⟨key, _, rfl⟩ := List.mem_map.mp unpinned
      exact Or.inr ⟨key, rfl⟩
  obtain ⟨sequences, prefixes⟩ := run_releases_lookup order cache releasing
  have unheld : ∀ block, (object.run order cache).holders block = 0 := by
    apply holders_eq_zero
    · intro id
      rw [sequences id]
      apply lookup_released_eq_none
      intro known
      rw [complete.mem_iff]
      exact List.mem_append_left _ (List.mem_map.mpr ⟨id, known, rfl⟩)
    · intro key
      rw [prefixes key]
      apply lookup_released_eq_none
      intro known
      rw [complete.mem_iff]
      exact List.mem_append_right _ (List.mem_map.mpr ⟨key, known, rfl⟩)
  exact ((invariant.run order).balanced.free_of_unheld unheld).trans (run_totalBlocks order cache)

/-- A block has at most as many holders as there are holders. -/
theorem holders_le (cache : PagedKvCache) (block : BlockId) :
    cache.holders block ≤ cache.sequenceCount + cache.prefixBlocks.entries.length :=
  Nat.add_le_add (List.countP_le_length) (List.countP_le_length)

/-- The constructor bounds the number of blocks. -/
theorem totalBlocks_new {blockCount blockSizeTokens : ℕ} {cache : PagedKvCache}
    (accepted : new blockCount blockSizeTokens = .ok cache) :
    cache.totalBlocks < 2 ^ sizeBits := by
  obtain ⟨small, _, rfl⟩ := new_eq_ok accepted
  simp only [totalBlocks, RefPool.full, List.length_replicate]
  exact small.trans (by decide)

/-- **Consistency of every reachable cache.** After any calls, with fewer than
`2 ^ 32` holders of each block, the counts, the holders and the free list agree,
the self-check passes, and releasing all holders in any order frees all blocks. -/
theorem reachable_consistent {blockCount blockSizeTokens : ℕ} {start : PagedKvCache}
    (accepted : new blockCount blockSizeTokens = .ok start) (calls : List Call)
    (fits : ∀ block, (object.run calls start).holders block < 2 ^ 32) :
    let cache := object.run calls start
    (∀ block, cache.refCount block = cache.holders block) ∧
    (∀ id blocks, cache.sequenceBlocks.lookup id = some blocks → blocks.Nodup) ∧
    (∀ key blocks, cache.prefixBlocks.lookup key = some blocks → blocks.Nodup) ∧
    cache.freeList.Nodup ∧
    (∀ block, block ∈ cache.freeList ↔
      block < cache.totalBlocks ∧ cache.refCount block = 0) ∧
    cache.checkInvariants = true ∧
    ∀ order : List Call, order.Perm cache.releases →
      (object.run order cache).freeBlocks = (object.run order cache).totalBlocks := by
  intro cache
  have invariant : cache.Invariant := (Invariant.new accepted).run calls
  have sized : cache.totalBlocks < 2 ^ sizeBits := by
    rw [run_totalBlocks calls start]
    exact totalBlocks_new accepted
  refine ⟨fun block => invariant.refCount_eq block (fits block), invariant.sequences_nodup,
    invariant.prefixes_nodup, invariant.balanced.nodup, ?_, ?_, ?_⟩
  · intro block
    rw [invariant.refCount_eq block (fits block)]
    exact invariant.balanced.free block
  · exact (cache.checkInvariants_iff sized fits).mpr (invariant.exact fits)
  · intro order complete
    rw [run_totalBlocks order cache]
    exact invariant.release_all order complete

/-- Two sequences that share a pinned block, and one that grew. -/
theorem reachable_consistent_shared :
    let calls := [Call.allocate ['a'] 2 [], .pinPrefix ['p'] [0], .allocate ['b'] 2 [0],
      .appendBlocks ['a'] 1, .free ['c']]
    ∃ start, new 4 16 = .ok start ∧ (object.run calls start).checkInvariants = true := by
  intro calls
  have accepted : new 4 16 = .ok _ := rfl
  refine ⟨_, accepted, (reachable_consistent accepted calls fun block => ?_).2.2.2.2.2.1⟩
  exact lt_of_le_of_lt (holders_le _ block) (by decide)

end InferSched.Engine.PagedKvCache

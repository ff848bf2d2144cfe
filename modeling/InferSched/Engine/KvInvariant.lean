import InferSched.Engine.PagedKvCache

/-! # The invariant of the paged KV cache

`PagedKvCache.Invariant` says that the reference counts and the free list agree
with the holders recorded in the two tables. Every call keeps it, whatever its
arguments and whether it succeeds. The counts are compared as 32-bit words:
`PagedKvCache.Invariant.refCount_eq` drops the reduction for a block with fewer
than `2 ^ 32` holders.
-/

namespace InferSched.Engine.PagedKvCache

open Library

/-- Counts and free list agree with the recorded holders, and no holder lists a
block twice. -/
structure Invariant (cache : PagedKvCache) : Prop where
  balanced : RefPool.Balanced refcountBits cache.toRefPool cache.holders
  sequences_nodup : ∀ id blocks, cache.sequenceBlocks.lookup id = some blocks → blocks.Nodup
  prefixes_nodup : ∀ key blocks, cache.prefixBlocks.lookup key = some blocks → blocks.Nodup

/-- The check before sharing accepts distinct blocks that are in use. -/
theorem sharable_iff (cache : PagedKvCache) (unique blocks : List BlockId) :
    cache.sharable unique blocks = true ↔
      blocks.Nodup ∧ ∀ block ∈ blocks,
        block ∉ unique ∧ block < cache.totalBlocks ∧ cache.refCount block ≠ 0 := by
  induction blocks generalizing unique with
  | nil => simp [sharable]
  | cons block rest ih =>
      unfold sharable
      by_cases refused : block ≥ cache.totalBlocks ∨ cache.refCount block = 0 ∨ block ∈ unique
      · rw [if_pos refused]
        refine iff_of_false Bool.false_ne_true fun accepted => ?_
        obtain ⟨seen, inside, counted⟩ := accepted.2 block List.mem_cons_self
        rcases refused with beyond | unused | again
        · exact absurd inside (Nat.not_lt.mpr beyond)
        · exact counted unused
        · exact seen again
      · rw [if_neg refused, ih]
        simp only [not_or, Nat.not_le, ge_iff_le] at refused
        obtain ⟨inside, counted, seen⟩ := refused
        simp only [List.nodup_cons, List.mem_cons, not_or]
        constructor
        · rintro ⟨distinct, all⟩
          refine ⟨⟨fun member => (all block member).1.1 rfl, distinct⟩, ?_⟩
          rintro other (rfl | member)
          · exact ⟨seen, inside, counted⟩
          · exact ⟨(all other member).1.2, (all other member).2⟩
        · rintro ⟨⟨fresh, distinct⟩, all⟩
          refine ⟨distinct, fun other member => ⟨⟨?_, (all other (Or.inr member)).1⟩,
            (all other (Or.inr member)).2⟩⟩
          rintro rfl
          exact fresh member

/-- What a granted allocation leaves: the sequence lists the blocks in `kept` and
then `taken` blocks from the free list, where the blocks in `retained` gained a
holder. -/
structure Granted (cache next : PagedKvCache) (sequenceId : Text) (kept retained : List BlockId)
    (taken : ℕ) : Prop where
  pool : next.toRefPool =
    ((retained.foldl (RefPool.retain refcountBits) cache.toRefPool).claim taken).1
  sequences : next.sequenceBlocks =
    cache.sequenceBlocks.insert sequenceId (kept ++ cache.freeList.take taken)
  prefixes : next.prefixBlocks = cache.prefixBlocks
  blockSizeTokens : next.blockSizeTokens = cache.blockSizeTokens
  enough : taken ≤ cache.freeList.length

namespace Granted

variable {cache next : PagedKvCache} {sequenceId : Text} {kept retained : List BlockId} {taken : ℕ}

theorem freeList (grant : Granted cache next sequenceId kept retained taken) :
    next.freeList = cache.freeList.drop taken := by
  rw [grant.pool, (RefPool.claim_eq _ _).2, RefPool.freeList_foldl_retain]

theorem totalBlocks (grant : Granted cache next sequenceId kept retained taken) :
    next.totalBlocks = cache.totalBlocks := by
  change next.toRefPool.size = cache.toRefPool.size
  rw [grant.pool, RefPool.size_claim, RefPool.size_foldl_retain]

end Granted

/-- Every outcome of an allocation, with the reason for it. -/
theorem allocate_cases (cache : PagedKvCache) (sequenceId : Text) (requiredBlocks : ℕ)
    (shared : List BlockId) :
    (cache.allocate sequenceId requiredBlocks shared = (.sequenceAlreadyExists, cache) ∧
      sequenceId ∈ cache.sequenceBlocks) ∨
    (cache.allocate sequenceId requiredBlocks shared = (.invalidSharedBlock, cache) ∧
      sequenceId ∉ cache.sequenceBlocks ∧
      (requiredBlocks < shared.length ∨ cache.sharable [] shared = false)) ∨
    (cache.allocate sequenceId requiredBlocks shared = (.insufficientBlocks, cache) ∧
      sequenceId ∉ cache.sequenceBlocks ∧ shared.length ≤ requiredBlocks ∧
      cache.sharable [] shared = true ∧
      cache.freeList.length < requiredBlocks - shared.length) ∨
    ((cache.allocate sequenceId requiredBlocks shared).1 = .allocated ∧
      sequenceId ∉ cache.sequenceBlocks ∧ shared.length ≤ requiredBlocks ∧
      cache.sharable [] shared = true ∧
      Granted cache (cache.allocate sequenceId requiredBlocks shared).2 sequenceId shared shared
        (requiredBlocks - shared.length)) := by
  unfold allocate
  by_cases known : sequenceId ∈ cache.sequenceBlocks
  · exact Or.inl ⟨if_pos known, known⟩
  · simp only [if_neg known]
    by_cases long : shared.length > requiredBlocks
    · exact Or.inr (Or.inl ⟨if_pos long, known, Or.inl long⟩)
    · simp only [if_neg long]
      by_cases invalid : cache.sharable [] shared = false
      · exact Or.inr (Or.inl ⟨if_pos invalid, known, Or.inr invalid⟩)
      · simp only [if_neg invalid]
        have short : shared.length ≤ requiredBlocks := Nat.le_of_not_lt long
        have valid : cache.sharable [] shared = true := by simpa using invalid
        by_cases scarce : cache.freeList.length < requiredBlocks - shared.length
        · exact Or.inr (Or.inr (Or.inl ⟨if_pos scarce, known, short, valid, scarce⟩))
        · simp only [if_neg scarce]
          refine Or.inr (Or.inr (Or.inr ⟨trivial, known, short, valid, ?_⟩))
          have claimed := RefPool.claim_eq (requiredBlocks - shared.length)
            (shared.foldl (RefPool.retain refcountBits) cache.toRefPool)
          rw [RefPool.freeList_foldl_retain] at claimed
          exact ⟨rfl, congrArg
            (fun taken => cache.sequenceBlocks.insert sequenceId (shared ++ taken)) claimed.1, rfl,
            rfl, Nat.le_of_not_lt scarce⟩

/-- Every outcome of growing a sequence, with the reason for it. -/
theorem appendBlocks_cases (cache : PagedKvCache) (sequenceId : Text) (additionalBlocks : ℕ) :
    (cache.appendBlocks sequenceId additionalBlocks = (.invalidSharedBlock, cache) ∧
      sequenceId ∉ cache.sequenceBlocks) ∨
    ∃ blocks, cache.sequenceBlocks.lookup sequenceId = some blocks ∧
      ((cache.appendBlocks sequenceId additionalBlocks = (.insufficientBlocks, cache) ∧
        cache.freeList.length < additionalBlocks) ∨
      ((cache.appendBlocks sequenceId additionalBlocks).1 = .allocated ∧
        Granted cache (cache.appendBlocks sequenceId additionalBlocks).2 sequenceId blocks []
          additionalBlocks)) := by
  unfold appendBlocks
  cases found : cache.sequenceBlocks.lookup sequenceId with
  | none => exact Or.inl ⟨rfl, AList.lookup_eq_none.mp found⟩
  | some blocks =>
      refine Or.inr ⟨blocks, rfl, ?_⟩
      by_cases scarce : cache.freeList.length < additionalBlocks
      · exact Or.inl ⟨if_pos scarce, scarce⟩
      · simp only [if_neg scarce]
        have claimed := RefPool.claim_eq additionalBlocks cache.toRefPool
        exact Or.inr ⟨trivial, rfl, congrArg
          (fun taken => cache.sequenceBlocks.insert sequenceId (blocks ++ taken)) claimed.1, rfl,
          rfl, Nat.le_of_not_lt scarce⟩

/-- A refused allocation changes nothing. -/
theorem allocate_refused {cache : PagedKvCache} {sequenceId : Text} {requiredBlocks : ℕ}
    {shared : List BlockId}
    (refused : (cache.allocate sequenceId requiredBlocks shared).1 ≠ .allocated) :
    (cache.allocate sequenceId requiredBlocks shared).2 = cache := by
  rcases cache.allocate_cases sequenceId requiredBlocks shared with
    ⟨result, _⟩ | ⟨result, _⟩ | ⟨result, _⟩ | ⟨granted, _⟩
  · rw [result]
  · rw [result]
  · rw [result]
  · exact absurd granted refused

/-- A refused growth changes nothing. -/
theorem appendBlocks_refused {cache : PagedKvCache} {sequenceId : Text} {additionalBlocks : ℕ}
    (refused : (cache.appendBlocks sequenceId additionalBlocks).1 ≠ .allocated) :
    (cache.appendBlocks sequenceId additionalBlocks).2 = cache := by
  rcases cache.appendBlocks_cases sequenceId additionalBlocks with
    ⟨result, _⟩ | ⟨_, _, ⟨result, _⟩ | ⟨granted, _⟩⟩
  · rw [result]
  · rw [result]
  · exact absurd granted refused

namespace Invariant

variable {cache : PagedKvCache}

/-- Below `2 ^ 32` holders the reference count is exact. -/
theorem refCount_eq (invariant : cache.Invariant) (block : BlockId)
    (fits : cache.holders block < 2 ^ refcountBits) :
    cache.refCount block = cache.holders block :=
  invariant.balanced.refCount_eq block fits

/-- A new cache has no holders. -/
theorem new {blockCount blockSizeTokens : ℕ}
    (accepted : PagedKvCache.new blockCount blockSizeTokens = .ok cache) : cache.Invariant := by
  rw [(new_eq_ok accepted).2.2]
  refine ⟨RefPool.Balanced.full blockCount, ?_, ?_⟩
  · intro id blocks found
    cases found
  · intro key blocks found
    cases found

/-- A block listed by a sequence has a holder. -/
theorem held_of_sequence {id : Text} {blocks : List BlockId}
    (found : cache.sequenceBlocks.lookup id = some blocks) :
    ∀ block ∈ blocks, 0 < cache.holders block := by
  intro block member
  have listed := Holdings.holders_pos_iff.mpr ⟨id, blocks, found, member⟩
  exact Nat.add_pos_left listed _

/-- A block listed by a pinned prefix has a holder. -/
theorem held_of_pinned {key : Text} {blocks : List BlockId}
    (found : cache.prefixBlocks.lookup key = some blocks) :
    ∀ block ∈ blocks, 0 < cache.holders block := by
  intro block member
  have listed := Holdings.holders_pos_iff.mpr ⟨key, blocks, found, member⟩
  exact Nat.add_pos_right _ listed

/-- The blocks at the top of the free list have no holder. -/
theorem unheld_of_take (invariant : cache.Invariant) {count : ℕ} {block : BlockId}
    (member : block ∈ cache.freeList.take count) : cache.holders block = 0 :=
  ((invariant.balanced.free block).mp (List.mem_of_mem_take member)).2

/-- A grant keeps the invariant when the kept blocks are the sequence's own and
the retained ones account for the difference. -/
theorem granted (invariant : cache.Invariant) {next : PagedKvCache} {sequenceId : Text}
    {kept retained : List BlockId} {taken : ℕ}
    (grant : Granted cache next sequenceId kept retained taken)
    (distinct : kept.Nodup) (sharable : cache.sharable [] retained = true)
    (held : ∀ block ∈ kept, 0 < cache.holders block)
    (accounted : ∀ block, Holdings.holders (cache.sequenceBlocks.erase sequenceId) block +
        (if block ∈ kept then 1 else 0) + cache.prefixBlocks.holders block =
      cache.holders block + if block ∈ retained then 1 else 0) : next.Invariant := by
  obtain ⟨retainedDistinct, live⟩ := (cache.sharable_iff [] retained).mp sharable
  have disjoint : ∀ block ∈ kept, block ∉ cache.freeList.take taken := by
    intro block member fresh
    exact absurd (invariant.unheld_of_take fresh) (Nat.ne_of_gt (held block member))
  have claimed := RefPool.claim_eq taken
    (retained.foldl (RefPool.retain refcountBits) cache.toRefPool)
  rw [RefPool.freeList_foldl_retain] at claimed
  refine ⟨?_, ?_, ?_⟩
  · rw [grant.pool]
    have retainedAll := invariant.balanced.retainAll retained retainedDistinct
      fun block member => (live block member).2
    refine (retainedAll.claimAll (by decide) taken).congr fun block => ?_
    have count := accounted block
    unfold holders
    rw [grant.sequences, grant.prefixes, Holdings.holders_insert, claimed.1]
    unfold holders at count
    by_cases own : block ∈ kept
    · have unclaimed := disjoint block own
      simp only [List.mem_append, own, unclaimed, ↓reduceIte, true_or] at count ⊢
      omega
    · simp only [List.mem_append, own, ↓reduceIte, false_or] at count ⊢
      omega
  · intro id blocks found
    rw [grant.sequences] at found
    by_cases same : id = sequenceId
    · subst id
      rw [AList.lookup_insert] at found
      cases found
      refine List.nodup_append.mpr ⟨distinct,
        invariant.balanced.nodup.sublist (List.take_sublist _ _), ?_⟩
      rintro block member _ fresh rfl
      exact disjoint block member fresh
    · rw [AList.lookup_insert_ne same] at found
      exact invariant.sequences_nodup id blocks found
  · rw [grant.prefixes]
    exact invariant.prefixes_nodup

theorem allocate (invariant : cache.Invariant) (sequenceId : Text) (requiredBlocks : ℕ)
    (shared : List BlockId) : (cache.allocate sequenceId requiredBlocks shared).2.Invariant := by
  rcases cache.allocate_cases sequenceId requiredBlocks shared with
    ⟨refused, _⟩ | ⟨refused, _⟩ | ⟨refused, _⟩ | ⟨_, unknown, _, valid, grant⟩
  · rw [refused]; exact invariant
  · rw [refused]; exact invariant
  · rw [refused]; exact invariant
  · obtain ⟨distinct, live⟩ := (cache.sharable_iff [] shared).mp valid
    refine invariant.granted grant distinct valid ?_ ?_
    · intro block member
      exact (invariant.balanced.live (live block member).2.1 (live block member).2.2).1
    · intro block
      rw [AList.erase_of_notMem unknown]
      unfold holders
      omega

theorem appendBlocks (invariant : cache.Invariant) (sequenceId : Text) (additionalBlocks : ℕ) :
    (cache.appendBlocks sequenceId additionalBlocks).2.Invariant := by
  rcases cache.appendBlocks_cases sequenceId additionalBlocks with
    ⟨refused, _⟩ | ⟨blocks, found, ⟨refused, _⟩ | ⟨_, grant⟩⟩
  · rw [refused]; exact invariant
  · rw [refused]; exact invariant
  · refine invariant.granted grant (invariant.sequences_nodup _ _ found) rfl
      (held_of_sequence found) ?_
    intro block
    simp only [List.not_mem_nil, ↓reduceIte, Nat.add_zero]
    unfold holders
    rw [Holdings.holders_of_lookup found]

theorem free (invariant : cache.Invariant) (sequenceId : Text) :
    (cache.free sequenceId).2.Invariant := by
  unfold PagedKvCache.free
  cases found : cache.sequenceBlocks.lookup sequenceId with
  | none => exact invariant
  | some blocks =>
      refine ⟨?_, ?_, invariant.prefixes_nodup⟩
      · refine (invariant.balanced.releaseAll blocks (invariant.sequences_nodup _ _ found)
          (held_of_sequence found)).congr fun block => ?_
        unfold holders
        rw [Holdings.holders_of_lookup found]
        simp only
        split <;> omega
      · intro id other kept
        by_cases same : id = sequenceId
        · subst id
          rw [AList.lookup_erase] at kept
          cases kept
        · rw [AList.lookup_erase_ne same] at kept
          exact invariant.sequences_nodup id other kept

theorem pinPrefix (invariant : cache.Invariant) (prefixKey : Text) (blocks : List BlockId) :
    (cache.pinPrefix prefixKey blocks).2.Invariant := by
  unfold PagedKvCache.pinPrefix
  by_cases refused : prefixKey ∈ cache.prefixBlocks ∨ blocks = []
  · rw [if_pos refused]; exact invariant
  · rw [if_neg refused]
    by_cases invalid : cache.sharable [] blocks = false
    · rw [if_pos invalid]; exact invariant
    · rw [if_neg invalid]
      obtain ⟨distinct, live⟩ := (cache.sharable_iff [] blocks).mp (by simpa using invalid)
      refine ⟨?_, invariant.sequences_nodup, ?_⟩
      · refine (invariant.balanced.retainAll blocks distinct
          fun block member => (live block member).2).congr fun block => ?_
        unfold holders
        rw [Holdings.holders_insert_of_notMem (fun known => refused (Or.inl known))]
        simp only
        omega
      · intro key other found
        by_cases same : key = prefixKey
        · subst key
          rw [AList.lookup_insert] at found
          cases found
          exact distinct
        · rw [AList.lookup_insert_ne same] at found
          exact invariant.prefixes_nodup key other found

theorem unpinPrefix (invariant : cache.Invariant) (prefixKey : Text) :
    (cache.unpinPrefix prefixKey).2.Invariant := by
  unfold PagedKvCache.unpinPrefix
  cases found : cache.prefixBlocks.lookup prefixKey with
  | none => exact invariant
  | some blocks =>
      refine ⟨?_, invariant.sequences_nodup, ?_⟩
      · refine (invariant.balanced.releaseAll blocks (invariant.prefixes_nodup _ _ found)
          (held_of_pinned found)).congr fun block => ?_
        unfold holders
        rw [Holdings.holders_of_lookup found]
        simp only
        split <;> omega
      · intro key other kept
        by_cases same : key = prefixKey
        · subst key
          rw [AList.lookup_erase] at kept
          cases kept
        · rw [AList.lookup_erase_ne same] at kept
          exact invariant.prefixes_nodup key other kept

/-- Every call keeps the invariant. -/
theorem respond (invariant : cache.Invariant) (call : Call) :
    (object.respond call cache).2.Invariant := by
  cases call with
  | allocate sequenceId requiredBlocks shared =>
      exact invariant.allocate sequenceId requiredBlocks shared
  | free sequenceId => exact invariant.free sequenceId
  | appendBlocks sequenceId additionalBlocks =>
      exact invariant.appendBlocks sequenceId additionalBlocks
  | pinPrefix prefixKey blocks => exact invariant.pinPrefix prefixKey blocks
  | unpinPrefix prefixKey => exact invariant.unpinPrefix prefixKey

/-- Every run of calls keeps the invariant. -/
theorem run (invariant : cache.Invariant) (calls : List Call) :
    (object.run calls cache).Invariant :=
  object.invariant (fun call _ holds => holds.respond call) calls cache invariant

end Invariant
end InferSched.Engine.PagedKvCache

import InferSched.Engine.Examination

/-! # Blocks shared with cached prefixes

The blocks of the longest cached prefix are handed to `Allocate` as shared blocks. A path
in the radix tree mixes the blocks of many sequences of the past, but no two nodes have the
same block, so at every attempt the blocks are distinct and no more than the prompt needs.
Each of them is pinned by its node; its 32-bit reference count is positive as long as fewer
than `2 ^ 32` sequences and pins hold it. With `2 ^ 32` holders the count is zero, and
`Allocate` takes the block for one that is not in use.
-/

namespace InferSched.Engine

open Library

variable {η : Type}

namespace Attempt

/-- The blocks handed to `Allocate`. -/
def shared (attempt : Attempt η) : List BlockId :=
  attempt.matched.getD []

/-- The blocks of the prefix are distinct blocks in use, no more than the prompt needs,
`Allocate` does not refuse them, and no two radix nodes have the same block. -/
structure Sound (attempt : Attempt η) (candidate : EngineRequest) : Prop where
  distinct : attempt.shared.Nodup
  used : ∀ block ∈ attempt.shared, 1 ≤ attempt.engine.kvCache.refCount block
  short : attempt.shared.length ≤ attempt.engine.promptBlocks candidate
  accepted : (attempt.engine.kvCache.allocate candidate.requestId
    (attempt.engine.promptBlocks candidate) attempt.shared).1 ≠ .invalidSharedBlock
  unshared : (attempt.engine.prefixCache.nodes.map RadixNode.block).Nodup

/-- What every attempt finds: a valid engine, and the longest prefix it has cached. -/
structure Looked (attempt : Attempt η) (candidate : EngineRequest) : Prop where
  invariant : attempt.engine.Invariant false
  longest : attempt.shared = RadixPrefixCache.longest
    (attempt.engine.candidateHashes candidate)
    (attempt.engine.prefixCache.forestOf (prefixNamespace candidate))

theorem Looked.of_matchPrefix {engine : ContinuousEngine η} (invariant : engine.Invariant false)
    (candidate : EngineRequest) :
    Looked ⟨(engine.matchPrefix candidate).1, (engine.matchPrefix candidate).2⟩ candidate :=
  ⟨invariant.matchPrefix candidate, (invariant.matchPrefix_longest candidate).1⟩

theorem Looked.retry {before after : Attempt η} {candidate : EngineRequest}
    (looked : before.Looked candidate) (retry : ContinuousEngine.Retry candidate before after) :
    after.Looked candidate := by
  obtain ⟨_, _, rfl⟩ := retry
  exact .of_matchPrefix looked.invariant.evictOldest candidate

end Attempt

namespace ContinuousEngine

/-- No two radix nodes have the same block. -/
theorem Invariant.nodes_nodup {engine : ContinuousEngine η} {preparing : Bool}
    (invariant : engine.Invariant preparing) :
    (engine.prefixCache.nodes.map RadixNode.block).Nodup := by
  rw [Multiset.nodup_iff_count_le_one]
  intro block
  have unshared := invariant.unshared block
  rw [PagedKvCache.holders_prefixBlocks, invariant.linked.pins, RadixNode.countP_pin] at unshared
  exact unshared

/-- The KV cache has as many sequences as the batch. -/
theorem Invariant.sequences_length {engine : ContinuousEngine η} {preparing : Bool}
    (invariant : engine.Invariant preparing) :
    engine.kvCache.sequenceBlocks.entries.length = engine.active.length := by
  have lengths := invariant.keys_perm.length_eq
  rw [activeIds, List.length_map] at lengths
  rw [← lengths]
  exact (List.length_map _).symm

/-- A block is held by at most one node and the sequences of the batch. -/
theorem Invariant.holders_le {engine : ContinuousEngine η} {preparing : Bool}
    (invariant : engine.Invariant preparing) (block : BlockId) :
    engine.kvCache.holders block ≤ engine.active.length + 1 := by
  apply Nat.add_le_add _ (invariant.unshared block)
  rw [← invariant.sequences_length]
  exact List.countP_le_length

end ContinuousEngine

namespace Attempt

/-- The blocks of a path are distinct, no more than the prompt has, and each is pinned by
one node. -/
theorem Looked.shared_blocks {attempt : Attempt η} {candidate : EngineRequest}
    (looked : attempt.Looked candidate) :
    attempt.shared.Nodup ∧ attempt.shared.length ≤ attempt.engine.promptBlocks candidate ∧
      ∀ block ∈ attempt.shared, attempt.engine.kvCache.prefixBlocks.holders block = 1 := by
  obtain ⟨distinct, pinned⟩ := looked.invariant.linked.longest_sharable looked.invariant.unshared
    (prefixNamespace candidate) (attempt.engine.candidateHashes candidate)
  rw [← looked.longest] at distinct pinned
  refine ⟨distinct, ?_, pinned⟩
  rw [looked.longest]
  exact (RadixPrefixCache.longest_length _ _).trans
    (attempt.engine.candidateHashes_length_le candidate)

/-- A shared block is in use exactly when its holders can be counted in 32 bits. -/
theorem Looked.refCount_iff {attempt : Attempt η} {candidate : EngineRequest}
    (looked : attempt.Looked candidate) {block : BlockId} (member : block ∈ attempt.shared) :
    block < attempt.engine.kvCache.totalBlocks ∧
      (1 ≤ attempt.engine.kvCache.refCount block ↔
        attempt.engine.kvCache.holders block < 2 ^ refcountBits) := by
  have pinned := looked.shared_blocks.2.2 block member
  have held : 0 < attempt.engine.kvCache.holders block :=
    Nat.add_pos_right _ (pinned.symm ▸ Nat.one_pos)
  have balanced := looked.invariant.linked.invariant.balanced
  have inside : block < attempt.engine.kvCache.totalBlocks := by
    by_contra outside
    rw [balanced.outside block (Nat.le_of_not_lt outside)] at held
    exact absurd held (Nat.lt_irrefl 0)
  refine ⟨inside, ?_⟩
  have stored : attempt.engine.kvCache.refCount block =
      attempt.engine.kvCache.holders block % 2 ^ refcountBits := balanced.stored block inside
  rcases (balanced.bounded block).lt_or_eq with fits | full
  · rw [stored, Nat.mod_eq_of_lt fits]
    exact iff_of_true held fits
  · rw [stored, full, Nat.mod_self]
    exact iff_of_false (Nat.lt_irrefl 0) (Nat.lt_irrefl _)

/-- An attempt is sound exactly when the reference counts of its blocks did not wrap. -/
theorem Looked.sound_iff {attempt : Attempt η} {candidate : EngineRequest}
    (looked : attempt.Looked candidate) :
    attempt.Sound candidate ↔
      ∀ block ∈ attempt.shared, attempt.engine.kvCache.holders block < 2 ^ refcountBits := by
  obtain ⟨distinct, short, _⟩ := looked.shared_blocks
  constructor
  · intro sound block member
    exact (looked.refCount_iff member).2.mp (sound.used block member)
  · intro fits
    have used : ∀ block ∈ attempt.shared, 1 ≤ attempt.engine.kvCache.refCount block :=
      fun block member => (looked.refCount_iff member).2.mpr (fits block member)
    refine ⟨distinct, used, short, ?_, looked.invariant.nodes_nodup⟩
    have sharable : attempt.engine.kvCache.sharable [] attempt.shared = true := by
      rw [PagedKvCache.sharable_iff]
      refine ⟨distinct, fun block member => ⟨List.not_mem_nil, ?_, ?_⟩⟩
      · exact (looked.refCount_iff member).1
      · exact Nat.one_le_iff_ne_zero.mp (used block member)
    rcases attempt.engine.kvCache.allocate_cases candidate.requestId
      (attempt.engine.promptBlocks candidate) attempt.shared with
      ⟨result, _⟩ | ⟨_, _, long | refused⟩ | ⟨result, _⟩ | ⟨granted, _⟩
    · rw [result]
      exact AllocationStatus.noConfusion
    · exact absurd short (Nat.not_le.mpr long)
    · rw [sharable] at refused
      cases refused
    · rw [result]
      exact AllocationStatus.noConfusion
    · rw [granted]
      exact AllocationStatus.noConfusion

end Attempt

/-- Every attempt of an examination finds the longest cached prefix. -/
theorem Examination.Attempts.looked {examination : Examination η} {attempt : Attempt η}
    (attempts : examination.Attempts attempt)
    (invariant : examination.engine.Invariant false) : attempt.Looked examination.candidate := by
  obtain ⟨_, retries⟩ := attempts
  induction retries with
  | refl =>
      have asked : (examination.engine.lookupResult examination.candidate).2.Invariant false :=
        invariant.congr rfl rfl rfl rfl
      exact .of_matchPrefix asked examination.candidate
  | tail _ retry ih => exact ih.retry retry

/-- Evictions and lookups leave the batch as it is. -/
theorem Examination.Attempts.active {examination : Examination η} {attempt : Attempt η}
    (attempts : examination.Attempts attempt) :
    attempt.engine.active = examination.engine.active := by
  obtain ⟨_, retries⟩ := attempts
  induction retries with
  | refl => exact Moment.active_matchPrefix _ _
  | tail _ retry ih =>
      obtain ⟨_, _, rfl⟩ := retry
      exact (Moment.active_matchPrefix _ _).trans ih

namespace ContinuousEngine

variable [RequestQueue η]

/-- **Shared blocks.** In every run no two radix nodes have the same block, and an attempt
to allocate the prompt of an examined candidate, after any number of evictions, is sound
exactly when every block of the prefix has fewer than `2 ^ 32` holders. A batch of less than
`2 ^ 32` sequences never has so many. -/
theorem shared_blocks_sound_iff {draws : JitterDraws} {config : EngineConfig}
    {start : ContinuousEngine η} (accepted : new draws config = .ok start) (calls : List Call) :
    ((object.run calls start).prefixCache.nodes.map RadixNode.block).Nodup ∧
    ∀ examination ∈ (object.run calls start).examinations,
      ∀ attempt, examination.Attempts attempt →
        (attempt.Sound examination.candidate ↔ ∀ block ∈ attempt.shared,
          attempt.engine.kvCache.holders block < 2 ^ 32) ∧
        (config.maxBatchSequences < 2 ^ 32 → attempt.Sound examination.candidate) := by
  obtain ⟨invariant, isConfig, _⟩ := run_invariant accepted calls
  refine ⟨invariant.nodes_nodup, ?_⟩
  intro examination member attempt attempts
  obtain ⟨valid, _, room⟩ := invariant.examination member
  have looked := attempts.looked valid
  refine ⟨looked.sound_iff, fun small => looked.sound_iff.mpr fun block _ => ?_⟩
  have holders := looked.invariant.holders_le block
  rw [attempts.active] at holders
  rw [isConfig] at room
  exact (holders.trans room).trans_lt small

/-! ### A block with too many holders -/

/-- The engine of one block whose batch has room for `2 ^ 32` sequences. -/
def vast : ContinuousEngine (SelectionQueue EngineRequest) :=
  (ContinuousEngine.new (fun _ _ _ => 0)
    { kvBlocks := 1, maxBatchSequences := 2 ^ 32, maxBatchTokens := 2 ^ 34,
      maxPrefillSequencesPerIteration := 2 ^ 32 }).toOption.get rfl

theorem new_vast : ContinuousEngine.new (fun _ _ _ => 0)
    { kvBlocks := 1, maxBatchSequences := 2 ^ 32, maxBatchTokens := 2 ^ 34,
      maxPrefillSequencesPerIteration := 2 ^ 32 } = .ok vast :=
  rfl

/-- A request of one hashed token, cached by an earlier request with another result. -/
def sharer (number : ℕ) : EngineRequest :=
  { requestId := decimal number, promptTokens := 1, maxOutputTokens := 1,
    promptBlockHashes := [['h']] }

/-- The engine after a request with the same prompt block was served. -/
def primed : ContinuousEngine (SelectionQueue EngineRequest) :=
  object.run [.submit { sharer 0 with promptHash := ['p'] }, .runOneIteration] vast

/-- The block of the common prompt is the only one cached for it. -/
def Keeps (cache : RadixPrefixCache) : Prop :=
  cache.nodeCount ≤ cache.capacity ∧
    ∃ node, cache.roots.lookup (prefixNamespace (sharer 0)) = some (.cons ['h'] node .nil .nil)

theorem Keeps.getLongest {cache : RadixPrefixCache} (keeps : Keeps cache) :
    Keeps (cache.getLongest (prefixNamespace (sharer 0)) [['h']]).2 ∧
      ∃ block, (cache.getLongest (prefixNamespace (sharer 0)) [['h']]).1 = some [block] := by
  obtain ⟨within, node, found⟩ := keeps
  unfold RadixPrefixCache.getLongest
  rw [found]
  exact ⟨⟨within, _, AList.lookup_insert _⟩, _, rfl⟩

theorem Keeps.putBlockPrefixes {cache : RadixPrefixCache} (keeps : Keeps cache)
    (kvCache : PagedKvCache) (blocks : List BlockId) :
    Keeps (cache.putBlockPrefixes kvCache (prefixNamespace (sharer 0)) [['h']] blocks).2.1 := by
  obtain ⟨within, node, found⟩ := keeps
  have stays : ∀ (turns : ℕ) (next : RadixPrefixCache) (kvNext : PagedKvCache), Keeps next →
      Keeps (RadixPrefixCache.evictToCapacity turns next kvNext).1 := by
    intro turns next kvNext kept
    cases turns with
    | zero => exact kept
    | succ turns =>
        unfold RadixPrefixCache.evictToCapacity
        rw [if_neg (Nat.not_lt.mpr kept.1)]
        exact kept
  unfold RadixPrefixCache.putBlockPrefixes
  rw [found]
  apply stays
  cases blocks with
  | nil => exact ⟨within, _, AList.lookup_insert _⟩
  | cons block later => exact ⟨within, _, AList.lookup_insert _⟩

omit [RequestQueue η] in
/-- An admission keeps the cached block. -/
theorem Keeps.admitCandidate {middle : ContinuousEngine η} {number : ℕ}
    (keeps : Keeps middle.prefixCache)
    (hashes : middle.candidateHashes (sharer number) = [['h']])
    (matched : Option (List BlockId)) :
    Keeps (middle.admitCandidate (sharer number) matched).prefixCache := by
  obtain ⟨_, _, _, _, isNext⟩ := admitCandidate_eq middle (sharer number) matched
  have hashed : ¬ (sharer number).promptBlockHashes = [] := List.cons_ne_nil _ _
  rw [isNext]
  change Keeps (middle.cachePrompt (sharer number)).prefixCache
  unfold ContinuousEngine.cachePrompt
  rw [if_neg hashed, hashes]
  exact keeps.putBlockPrefixes _ _

/-- So many sequences that share the block have joined the batch in this scan, and so many
are left in the queue. -/
structure Crowded (engine : ContinuousEngine η) (scan : Scan) (joined left : ℕ) : Prop where
  invariant : engine.Invariant false
  config : engine.config = vast.config
  total : engine.kvCache.totalBlocks = 1
  unanswered : engine.resultCache.entries.lookup (resultKey (sharer 0)) = none
  forgiven : engine.preemptedRequests = ∅
  started : 0 ≤ engine.clock
  length : engine.active.length = joined
  sharing : ∀ active ∈ engine.active, 0 < active.request.promptTokens
  budget : scan.prefillBudget = joined ∧ scan.prefillSequences = joined
  keeps : Keeps engine.prefixCache
  queued : ∃ numbers : Multiset ℕ, PriorityQueue.elements engine.pending = numbers.map sharer ∧
    numbers.Nodup ∧ Multiset.card numbers = left ∧
    ∀ number ∈ numbers, decimal number ∉ engine.activeIds

namespace Crowded

variable {engine : ContinuousEngine η} {scan : Scan} {joined left : ℕ}

/-- The next candidate is another sharer. -/
theorem pop (crowded : engine.Crowded scan joined (left + 1)) :
    ∃ number rest, RequestQueue.popReady engine.pending engine.clock =
        some (sharer number, rest) ∧ decimal number ∉ engine.activeIds ∧
      sharer number ∉ PriorityQueue.elements rest ∧
      Crowded { engine with pending := rest } scan joined left := by
  obtain ⟨numbers, elements, distinct, count, fresh⟩ := crowded.queued
  have inhabited : PriorityQueue.size engine.pending ≠ 0 := by
    rw [PriorityQueue.size, elements, Multiset.card_map, count]
    exact Nat.succ_ne_zero _
  obtain ⟨⟨candidate, rest⟩, popped⟩ :=
    Option.ne_none_iff_exists'.mp (PriorityQueue.pop_ne_none inhabited)
  have split := PriorityQueue.elements_of_pop_some popped
  rw [elements] at split
  obtain ⟨number, member, isCandidate⟩ := Multiset.mem_map.mp
    (split ▸ Multiset.mem_cons_self candidate _ : candidate ∈ numbers.map sharer)
  obtain ⟨others, rfl⟩ := Multiset.exists_cons_of_mem member
  subst isCandidate
  rw [Multiset.map_cons, Multiset.cons_inj_right] at split
  rw [Multiset.nodup_cons] at distinct
  refine ⟨number, rest, ?_, fresh number member, ?_, ?_⟩
  · unfold RequestQueue.popReady
    rw [popped]
    exact if_neg (Int.not_lt.mpr crowded.started)
  · rw [← split, Multiset.mem_map]
    rintro ⟨other, isOther, same⟩
    have ids : decimal other = decimal number := congrArg EngineRequest.requestId same
    exact distinct.1 (decimal_injective ids ▸ isOther)
  · rw [Multiset.card_cons] at count
    refine ⟨crowded.invariant.congr rfl rfl rfl rfl, crowded.config, crowded.total,
      crowded.unanswered, crowded.forgiven, crowded.started, crowded.length, crowded.sharing,
      crowded.budget, crowded.keeps, others, split.symm, distinct.2,
      Nat.succ_injective count, ?_⟩
    intro other isOther
    exact fresh other (Multiset.mem_cons_of_mem isOther)

/-- The block is held by its node and by every sequence that has joined. -/
theorem holders (crowded : engine.Crowded scan joined left) {block : BlockId}
    (inside : block < engine.kvCache.totalBlocks)
    (pinned : engine.kvCache.prefixBlocks.holders block = 1) :
    engine.kvCache.holders block = joined + 1 := by
  have invariant := crowded.invariant
  rw [PagedKvCache.holders, pinned, ← crowded.length]
  congr 1
  rw [← invariant.sequences_length]
  apply List.countP_eq_length.mpr
  intro entry listed
  have found : engine.kvCache.sequenceBlocks.lookup entry.1 = some entry.2 :=
    AList.mem_lookup_iff.mpr listed
  have known : entry.1 ∈ engine.kvCache.sequenceBlocks :=
    AList.lookup_isSome.mp (Option.isSome_iff_exists.mpr ⟨_, found⟩)
  obtain ⟨active, member, isEntry⟩ := List.mem_map.mp ((invariant.sequences _).mp known)
  -- the sequence has a block, and there is only one
  have some : (engine.kvCache.blocksFor entry.1).length ≠ 0 := by
    rw [← isEntry]
    rcases invariant.blocks active member with exact | ⟨impossible, _⟩
    · change engine.currentBlocks active ≠ 0
      rw [exact]
      intro none
      have enough := (blocksForTokens_le_iff invariant.positive _ _).mp none.le
      have positive := crowded.sharing active member
      omega
    · cases impossible
  rw [PagedKvCache.blocksFor_of_lookup found] at some
  obtain ⟨other, isOther⟩ := List.exists_mem_of_ne_nil _ (List.length_pos_iff.mp
    (Nat.pos_of_ne_zero some))
  have held := PagedKvCache.Invariant.held_of_sequence found other isOther
  have small : other < engine.kvCache.totalBlocks := by
    by_contra outside
    rw [invariant.linked.invariant.balanced.outside other (Nat.le_of_not_lt outside)] at held
    exact absurd held (Nat.lt_irrefl 0)
  have only : block = other := by
    rw [crowded.total, Nat.lt_one_iff] at inside small
    exact inside.trans small.symm
  rw [only]
  exact decide_eq_true isOther

/-- A sharer passes every check before the lookup. -/
theorem examines (crowded : engine.Crowded scan joined left) (room : joined < 2 ^ 32)
    (number : ℕ) : engine.Examines (sharer number) scan := by
  have config := crowded.config
  obtain ⟨budget, sequences⟩ := crowded.budget
  refine ⟨?_, ?_, ?_, ?_⟩
  · unfold impossibleReason
    rw [config, crowded.total]
    refine (if_neg ?_).trans ((if_neg ?_).trans (if_neg ?_))
    · exact (by decide : ¬ 1 > sizeMax - 1)
    · exact (by decide : ¬ 1 > 2 ^ 34)
    · exact (by decide : ¬ blocksForTokens 2 16 > 1)
  · rw [crowded.forgiven]
    exact fun preempted => absurd preempted.2 (Finset.notMem_empty _)
  · rw [config, sequences]
    exact room.ne
  · have limit : engine.config.maxBatchTokens = 2 ^ 34 :=
      congrArg EngineConfig.maxBatchTokens config
    change ¬ (engine.active.length > _ ∨ 1 > _)
    rw [limit, budget, crowded.length]
    omega

theorem candidateHashes (crowded : engine.Crowded scan joined left) (number : ℕ) :
    engine.candidateHashes (sharer number) = [['h']] := by
  unfold ContinuousEngine.candidateHashes promptBlocks
  rw [crowded.config]
  rfl

/-- The first attempt to allocate a sharer's prompt, with the cached block. -/
theorem attempt (crowded : engine.Crowded scan joined left) (number : ℕ) :
    let asked := (engine.lookupResult (sharer number)).2
    (engine.lookupResult (sharer number)).1 = none ∧
    Keeps (asked.matchPrefix (sharer number)).2.prefixCache ∧
    ∃ block, (asked.matchPrefix (sharer number)).1 = some [block] ∧
      (asked.matchPrefix (sharer number)).2.kvCache.holders block = joined + 1 := by
  intro asked
  have missing : (engine.lookupResult (sharer number)).1 = none :=
    (ResultCache.get_eq_lookup _ _).trans crowded.unanswered
  have hashes : asked.candidateHashes (sharer number) = [['h']] :=
    crowded.candidateHashes number
  have valid : asked.Invariant false := crowded.invariant.congr rfl rfl rfl rfl
  have looked := Attempt.Looked.of_matchPrefix valid (sharer number)
  have isMatch : asked.matchPrefix (sharer number) =
      ((engine.prefixCache.getLongest (prefixNamespace (sharer 0)) [['h']]).1,
        { asked with
          prefixCache :=
            (engine.prefixCache.getLongest (prefixNamespace (sharer 0)) [['h']]).2 }) := by
    unfold matchPrefix
    rw [hashes]
    rfl
  obtain ⟨keeps, block, found⟩ := crowded.keeps.getLongest
  rw [isMatch, found] at looked ⊢
  refine ⟨missing, keeps, block, rfl, ?_⟩
  have member : block ∈ ([block] : List BlockId) := List.mem_singleton_self block
  exact crowded.holders (looked.refCount_iff member).1 (looked.shared_blocks.2.2 block member)

/-- Below `2 ^ 32` holders the prompt of another sharer is allocated at once. -/
theorem tryAdmit (crowded : engine.Crowded scan joined left) (room : joined + 1 < 2 ^ 32)
    {number : ℕ} (fresh : decimal number ∉ engine.activeIds) :
    let asked := (engine.lookupResult (sharer number)).2
    let found := asked.matchPrefix (sharer number)
    ∃ kvCache, asked.tryAdmit (sharer number) scan =
      ({ found.2 with kvCache := kvCache }.admitCandidate (sharer number) found.1,
        { scan with
          prefillBudget := scan.prefillBudget + 1
          prefillSequences := scan.prefillSequences + 1
          admittedAny := true }) := by
  intro asked found
  obtain ⟨missing, keeps, block, isMatch, holders⟩ := crowded.attempt number
  have valid : asked.Invariant false := crowded.invariant.congr rfl rfl rfl rfl
  have looked := Attempt.Looked.of_matchPrefix valid (sharer number)
  obtain ⟨prefixCache, kvCache, isFound, _, sequences⟩ := matchPrefix_relieved asked (sharer number)
  have shared : found.1.getD [] = [block] := by
    rw [isMatch]
    rfl
  have sound := looked.sound_iff.mpr fun other member => by
    rw [Attempt.shared, shared, List.mem_singleton] at member
    rw [member, holders]
    exact room
  have prompt : found.2.promptBlocks (sharer number) = 1 := by
    unfold promptBlocks
    rw [isFound]
    change blocksForTokens _ engine.config.kvBlockSizeTokens = 1
    rw [crowded.config]
    exact (by decide : blocksForTokens 1 16 = 1)
  have allocated : (found.2.kvCache.allocate (sharer number).requestId
      (found.2.promptBlocks (sharer number)) (found.1.getD [])).1 = .allocated := by
    rcases found.2.kvCache.allocate_cases (sharer number).requestId
      (found.2.promptBlocks (sharer number)) (found.1.getD []) with
      ⟨_, known⟩ | ⟨refused, _⟩ | ⟨_, _, _, _, scarce⟩ | ⟨granted, _⟩
    · rw [isFound, sequences] at known
      exact absurd ((crowded.invariant.sequences _).mp known) fresh
    · exact absurd (congrArg Prod.fst refused) sound.accepted
    · rw [prompt, shared] at scarce
      exact absurd scarce (Nat.not_lt_zero _)
    · exact granted
  refine ⟨(found.2.kvCache.allocate (sharer number).requestId
    (found.2.promptBlocks (sharer number)) (found.1.getD [])).2, ?_⟩
  unfold ContinuousEngine.tryAdmit allocateEvicting
  dsimp only
  have settled : (found.2.kvCache.allocate (sharer number).requestId
      (found.2.promptBlocks (sharer number)) (found.1.getD [])).1 ≠ .insufficientBlocks := by
    rw [allocated]
    exact AllocationStatus.noConfusion
  rw [if_pos settled, if_neg (not_not_intro allocated)]
  rfl

/-- The sharers left in the queue are not in the batch that another one has joined. -/
theorem queued_join {next : ContinuousEngine η} {number : ℕ}
    (crowded : engine.Crowded scan joined left)
    (once : sharer number ∉ PriorityQueue.elements engine.pending)
    (pending : next.pending = engine.pending)
    (ids : next.activeIds = engine.activeIds ++ [decimal number]) :
    ∃ numbers : Multiset ℕ, PriorityQueue.elements next.pending = numbers.map sharer ∧
      numbers.Nodup ∧ Multiset.card numbers = left ∧
      ∀ other ∈ numbers, decimal other ∉ next.activeIds := by
  obtain ⟨numbers, elements, distinct, count, others⟩ := crowded.queued
  refine ⟨numbers, ?_, distinct, count, ?_⟩
  · rw [pending]
    exact elements
  · intro other isOther
    rw [ids, List.mem_append, not_or]
    refine ⟨others other isOther, ?_⟩
    intro same
    have isNumber : other = number := decimal_injective (List.mem_singleton.mp same)
    apply once
    rw [elements, ← isNumber]
    exact Multiset.mem_map_of_mem sharer isOther

/-- Below `2 ^ 32` holders another sharer joins the batch. -/
theorem join (crowded : engine.Crowded scan joined left) (room : joined + 1 < 2 ^ 32)
    {number : ℕ} (fresh : decimal number ∉ engine.activeIds)
    (once : sharer number ∉ PriorityQueue.elements engine.pending) :
    (engine.considerCandidate (sharer number) scan).1 = true ∧
      Crowded (engine.considerCandidate (sharer number) scan).2.1
        (engine.considerCandidate (sharer number) scan).2.2 (joined + 1) left := by
  have space : engine.active.length < engine.config.maxBatchSequences := by
    rw [crowded.length, crowded.config]
    exact Nat.lt_of_succ_lt room
  have steps := considerCandidate_steps (sharer number) scan crowded.invariant space
  have valid := Moment.Steps.invariant steps crowded.invariant
  obtain ⟨sameConfig, sameTotal⟩ := Moment.Steps.fixed steps crowded.invariant
  obtain ⟨missing, keeps, _⟩ := crowded.attempt number
  obtain ⟨kvCache, admitted⟩ := crowded.tryAdmit room fresh
  have passes := crowded.examines (Nat.lt_of_succ_lt room) number
  rcases considerCandidate_examined passes with ⟨cached, answered, _⟩ | ⟨_, turn⟩
  · rw [missing] at answered
    cases answered
  · rw [admitted] at turn
    rw [turn] at valid sameConfig sameTotal ⊢
    refine ⟨rfl, ?_⟩
    obtain ⟨foundConfig, foundClock, foundActive, foundPending, foundResults, foundPreempted⟩ :=
      (matchPrefix_relieved (engine.lookupResult (sharer number)).2 (sharer number)).frame
    generalize (engine.lookupResult (sharer number)).2.matchPrefix (sharer number) = found at *
    obtain ⟨matched, middle⟩ := found
    dsimp only at *
    obtain ⟨_, pending, _, preempted, active⟩ :=
      admitCandidate_frame { middle with kvCache := kvCache } (sharer number) matched
    obtain ⟨_, _, _, cost, isNext⟩ :=
      admitCandidate_eq { middle with kvCache := kvCache } (sharer number) matched
    obtain ⟨_, _, isCached⟩ :=
      cachePrompt_eq { middle with kvCache := kvCache } (sharer number)
    have sameActive : middle.active = engine.active := foundActive
    refine ⟨valid, sameConfig.trans crowded.config, sameTotal.trans crowded.total, ?_, ?_, ?_, ?_,
      ?_, ?_, ?_, ?_⟩
    · rw [isNext, isCached]
      change middle.resultCache.entries.lookup _ = none
      rw [foundResults]
      change (engine.resultCache.get _).2.entries.lookup _ = none
      rw [ResultCache.entries_get]
      exact crowded.unanswered
    · rw [preempted]
      exact foundPreempted.trans crowded.forgiven
    · rw [isNext]
      change 0 ≤ advance middle.clock cost
      rw [foundClock]
      exact crowded.started.trans (le_advance _ _)
    · rw [active, List.length_append, sameActive, crowded.length]
      rfl
    · intro member isActive
      rw [active, sameActive] at isActive
      rcases List.mem_append.mp isActive with old | new
      · exact crowded.sharing member old
      · rw [List.mem_singleton.mp new]
        exact Nat.one_pos
    · exact ⟨congrArg (· + 1) crowded.budget.1, congrArg (· + 1) crowded.budget.2⟩
    · have hashes : ContinuousEngine.candidateHashes { middle with kvCache := kvCache }
          (sharer number) = [['h']] :=
        (candidateHashes_congr foundConfig _).trans (crowded.candidateHashes number)
      exact @Keeps.admitCandidate η { middle with kvCache := kvCache } number keeps hashes matched
    · apply crowded.queued_join once (pending.trans foundPending)
      rw [activeIds, active, sameActive, List.map_append]
      rfl

/-- The scan begins with the examination of a sharer. -/
theorem head (crowded : engine.Crowded scan joined (left + 1)) (room : joined < 2 ^ 32) :
    ∃ number rest, decimal number ∉ engine.activeIds ∧
      sharer number ∉ PriorityQueue.elements rest ∧
      Crowded { engine with pending := rest } scan joined left ∧
      let turn := considerCandidate { engine with pending := rest } (sharer number) scan
      examinationsFrom (left + 1) engine scan =
        ⟨sharer number, { engine with pending := rest }, scan⟩ ::
          if turn.1 then examinationsFrom left turn.2.1 turn.2.2 else [] := by
  have space : engine.active.length < engine.config.maxBatchSequences := by
    rw [crowded.length, crowded.config]
    exact room
  obtain ⟨number, rest, popped, fresh, once, queued⟩ := crowded.pop
  refine ⟨number, rest, fresh, once, queued, ?_⟩
  intro turn
  conv_lhs => unfold examinationsFrom
  rw [if_pos space, popped]
  dsimp only
  rw [if_pos (queued.examines room number)]
  rfl

/-- The scan comes to a sharer whose block has `2 ^ 32` holders. -/
theorem examined (crowded : engine.Crowded scan joined (left + 1))
    (all : joined + left + 1 = 2 ^ 32) :
    ∃ examination ∈ examinationsFrom (left + 1) engine scan,
      ∃ number, examination.candidate = sharer number ∧
        examination.engine.Crowded examination.scan (2 ^ 32 - 1) 0 := by
  induction left generalizing engine scan joined with
  | zero =>
      obtain ⟨number, rest, _, _, queued, first⟩ := crowded.head (by omega)
      have last : joined = 2 ^ 32 - 1 := by omega
      rw [first]
      exact ⟨_, List.mem_cons_self, number, rfl, last ▸ queued⟩
  | succ left ih =>
      obtain ⟨number, rest, fresh, once, queued, first⟩ := crowded.head (by omega)
      obtain ⟨goes, joins⟩ := queued.join (by omega) fresh once
      obtain ⟨examination, member, found⟩ := ih joins (by omega)
      refine ⟨examination, ?_, found⟩
      rw [first, goes, if_pos rfl]
      exact List.mem_cons_of_mem _ member

end Crowded

/-- Submitting requests only fills the queue. -/
theorem run_submit (requests : List EngineRequest) (engine : ContinuousEngine η) :
    ∃ stats, object.run (requests.map .submit) engine =
      { engine with
        pending := PriorityQueue.pushAll engine.pending requests
        stats := stats } := by
  induction requests generalizing engine with
  | nil => exact ⟨engine.stats, rfl⟩
  | cons request requests ih =>
      obtain ⟨stats, ran⟩ := ih (engine.submit request)
      exact ⟨stats, ran⟩

/-- The calls that fill the queue with sharers once their block is cached. -/
def crowd (size : ℕ) : List Call :=
  [.submit { sharer 0 with promptHash := ['p'] }, .runOneIteration] ++
    ((List.range size).map sharer).map .submit

theorem keeps_primed : Keeps primed.prefixCache := by
  refine ⟨by decide +kernel, ⟨0, "radix-prefix-0".toList, 1⟩, ?_⟩
  decide +kernel

theorem crowded_crowd (size : ℕ) : Crowded (object.run (crowd size) vast).begun {} 0 size := by
  obtain ⟨invariant, config, total⟩ := run_invariant new_vast (crowd size)
  obtain ⟨stats, ran⟩ := run_submit ((List.range size).map sharer) primed
  have isRun : object.run (crowd size) vast = { primed with
      pending := PriorityQueue.pushAll primed.pending ((List.range size).map sharer)
      stats := stats } := (AtomicObject.run_append _ _ _ _).trans ran
  have empty : primed.active = [] := by decide +kernel
  have isBegun : (object.run (crowd size) vast).begun = { primed with
      pending := PriorityQueue.pushAll primed.pending ((List.range size).map sharer)
      stats := stats
      preemptedRequests := ∅ } := by
    rw [isRun]
    exact if_pos empty
  have valid := invariant.begun
  rw [isRun] at config total
  rw [isBegun] at valid ⊢
  refine ⟨valid, config, total, ?_, rfl, ?_, ?_, ?_, ⟨rfl, rfl⟩, keeps_primed,
    Multiset.range size, ?_, Multiset.nodup_range size, Multiset.card_range size, ?_⟩
  · exact (by decide +kernel :
      primed.resultCache.entries.lookup (resultKey (sharer 0)) = none)
  · exact (by decide +kernel : 0 ≤ primed.clock)
  · exact congrArg List.length empty
  · intro active member
    rw [empty] at member
    cases member
  · have queue : PriorityQueue.elements primed.pending = 0 := by decide +kernel
    rw [PriorityQueue.elements_pushAll, queue, zero_add, ← Multiset.map_coe]
    rfl
  · intro number _
    change decimal number ∉ primed.active.map _
    rw [empty]
    exact List.not_mem_nil

/-- With `2 ^ 32` sharers in one scan, the last one finds its block with a count of zero. -/
theorem shared_block_refused :
    ∃ examination ∈ (object.run (crowd (2 ^ 32)) vast).examinations,
      ∃ attempt, examination.Attempts attempt ∧ ¬ attempt.Sound examination.candidate := by
  have crowded : Crowded (object.run (crowd (2 ^ 32)) vast).begun {} 0 (2 ^ 32 - 1 + 1) :=
    crowded_crowd (2 ^ 32)
  have size : PriorityQueue.size (object.run (crowd (2 ^ 32)) vast).begun.pending =
      2 ^ 32 - 1 + 1 := by
    obtain ⟨numbers, elements, _, count, _⟩ := crowded.queued
    rw [PriorityQueue.size, elements, Multiset.card_map, count]
  obtain ⟨⟨candidate, engine, scan⟩, member, number, rfl, full⟩ := crowded.examined rfl
  obtain ⟨missing, _, block, found, holders⟩ := full.attempt number
  refine ⟨_, ?_, Examination.firstAttempt ⟨sharer number, engine, scan⟩, ⟨missing, .refl⟩, ?_⟩
  · unfold examinations
    rw [size]
    exact member
  · intro sound
    have asked : (engine.lookupResult (sharer number)).2.Invariant false :=
      full.invariant.congr rfl rfl rfl rfl
    have looked := Attempt.Looked.of_matchPrefix asked (sharer number)
    have shares : block ∈ (Examination.firstAttempt ⟨sharer number, engine, scan⟩).shared := by
      have isMatch : (Examination.firstAttempt ⟨sharer number, engine, scan⟩).matched =
          some [block] := found
      unfold Attempt.shared
      rw [isMatch]
      exact List.mem_singleton_self block
    have fits := looked.sound_iff.mp sound block shares
    rw [holders] at fits
    exact absurd fits (by decide)

/-- Two sharers in one scan. -/
theorem shared_blocks_sound_pair :
    (object.run (crowd 2) vast).examinations.length = 2 ∧
      ∀ examination ∈ (object.run (crowd 2) vast).examinations,
        ∀ attempt, examination.Attempts attempt →
          (attempt.Sound examination.candidate ↔ ∀ block ∈ attempt.shared,
            attempt.engine.kvCache.holders block < 2 ^ 32) :=
  ⟨by decide +kernel, fun examination member attempt attempts =>
    ((shared_blocks_sound_iff new_vast (crowd 2)).2 examination member attempt attempts).1⟩

end ContinuousEngine
end InferSched.Engine

import InferSched.Engine.EngineInvariant

/-! # Calls are runs of elementary steps

Each function of the continuous engine refines `Moment.Step`: from an engine that
satisfies the invariant, a call takes finitely many elementary steps to the
engine it returns. The loops that evict prefixes stop early only when no prefix
is left, and the passes over the batch end with blocks for every sequence.
-/

namespace InferSched.Engine

open Library

namespace Moment

variable {η : Type} [RequestQueue η]

/-- A run of steps keeps the invariant. -/
theorem Steps.invariant {before after : Moment η} (steps : Steps before after)
    (invariant : before.engine.Invariant before.preparing) :
    after.engine.Invariant after.preparing := by
  induction steps with
  | refl => exact invariant
  | tail _ step ih => exact step.invariant ih

/-- A run of steps keeps the configuration and the number of blocks. -/
theorem Steps.fixed {before after : Moment η} (steps : Steps before after)
    (invariant : before.engine.Invariant before.preparing) :
    after.engine.config = before.engine.config ∧
      after.engine.kvCache.totalBlocks = before.engine.kvCache.totalBlocks := by
  induction steps with
  | refl => exact ⟨rfl, rfl⟩
  | tail earlier step ih =>
      obtain ⟨config, totalBlocks⟩ := step.fixed (Steps.invariant earlier invariant)
      exact ⟨config.trans ih.1, totalBlocks.trans ih.2⟩

end Moment

namespace ContinuousEngine

open Moment

variable {η : Type} {engine : ContinuousEngine η}

/-- Only the caches of blocks differ, and the number of blocks is the same. -/
def Relieved (engine next : ContinuousEngine η) : Prop :=
  ∃ prefixCache kvCache, next = { engine with prefixCache := prefixCache, kvCache := kvCache } ∧
    kvCache.totalBlocks = engine.kvCache.totalBlocks ∧
    kvCache.sequenceBlocks = engine.kvCache.sequenceBlocks

theorem Relieved.refl (engine : ContinuousEngine η) : engine.Relieved engine :=
  ⟨_, _, rfl, rfl, rfl⟩

theorem Relieved.trans {second third : ContinuousEngine η} (one : engine.Relieved second)
    (two : second.Relieved third) : engine.Relieved third := by
  obtain ⟨_, _, rfl, total, sequences⟩ := one
  obtain ⟨_, _, rfl, total', sequences'⟩ := two
  exact ⟨_, _, rfl, total'.trans total, sequences'.trans sequences⟩

theorem Relieved.frame {next : ContinuousEngine η} (relieved : engine.Relieved next) :
    next.config = engine.config ∧ next.clock = engine.clock ∧ next.active = engine.active ∧
      next.pending = engine.pending ∧ next.resultCache = engine.resultCache ∧
      next.preemptedRequests = engine.preemptedRequests := by
  obtain ⟨_, _, rfl, _⟩ := relieved
  exact ⟨rfl, rfl, rfl, rfl, rfl, rfl⟩

theorem matchPrefix_relieved (engine : ContinuousEngine η) (candidate : EngineRequest) :
    engine.Relieved (engine.matchPrefix candidate).2 := by
  unfold matchPrefix
  split
  · exact .refl engine
  · exact ⟨_, _, rfl, rfl, rfl⟩

/-- A lookup gives the longest cached prefix, also as the cache is afterwards, and
keeps the number of nodes. -/
theorem Invariant.matchPrefix_longest {preparing : Bool} (invariant : engine.Invariant preparing)
    (candidate : EngineRequest) :
    (engine.matchPrefix candidate).1.getD [] =
      RadixPrefixCache.longest ((engine.matchPrefix candidate).2.candidateHashes candidate)
        ((engine.matchPrefix candidate).2.prefixCache.forestOf (prefixNamespace candidate)) ∧
    Multiset.card (engine.matchPrefix candidate).2.prefixCache.nodes =
      Multiset.card engine.prefixCache.nodes := by
  unfold ContinuousEngine.matchPrefix
  split
  · next empty =>
      rw [empty]
      exact ⟨rfl, rfl⟩
  · obtain ⟨_, found, again, count, _⟩ := invariant.linked.getLongest (prefixNamespace candidate)
      (engine.candidateHashes candidate)
    exact ⟨found.trans again.symm, count⟩

/-- Evicting either finds no prefix or removes one. -/
theorem Invariant.evictOldest_cases {preparing : Bool} (invariant : engine.Invariant preparing) :
    (engine.evictOldest.1 = false ∧ engine.prefixCache.nodes = 0) ∨
    (engine.evictOldest.1 = true ∧ engine.Relieved engine.evictOldest.2 ∧
      Multiset.card engine.prefixCache.nodes =
        Multiset.card engine.evictOldest.2.prefixCache.nodes + 1) := by
  unfold ContinuousEngine.evictOldest
  rcases invariant.linked.evictOldest with ⟨result, empty⟩ | ⟨next, kvNext, result, evicted, count⟩
  · rw [result]
    exact Or.inl ⟨rfl, empty⟩
  · rw [result]
    exact Or.inr ⟨rfl, ⟨_, _, rfl, evicted.shrinks.totalBlocks, evicted.shrinks.sequences⟩, count⟩

theorem Relieved.currentBlocks {next : ContinuousEngine η} (relieved : engine.Relieved next)
    (active : ActiveRequest) : next.currentBlocks active = engine.currentBlocks active := by
  obtain ⟨_, _, rfl, _, sequences⟩ := relieved
  unfold ContinuousEngine.currentBlocks PagedKvCache.blocksFor
  rw [sequences]

theorem Relieved.impossibleReason {next : ContinuousEngine η} (relieved : engine.Relieved next)
    (request : EngineRequest) :
    next.impossibleReason request = engine.impossibleReason request := by
  obtain ⟨_, _, rfl, totalBlocks, _⟩ := relieved
  unfold ContinuousEngine.impossibleReason
  dsimp only
  rw [totalBlocks]

/-! ### Victims and room -/

theorem selectFrom_lt (later : List ActiveRequest) (index victim : ℕ) (selected : ActiveRequest)
    (inside : victim < index) : selectFrom later index selected victim < index + later.length := by
  induction later generalizing index selected victim with
  | nil => exact inside
  | cons candidate later ih =>
      unfold selectFrom
      rw [List.length_cons, ← Nat.add_assoc, Nat.add_right_comm]
      dsimp only
      split
      · exact ih (index + 1) index candidate (Nat.lt_succ_self _)
      · exact ih (index + 1) victim selected (Nat.lt_succ_of_lt inside)

/-- The victim is a sequence of the batch. -/
theorem selectVictim_lt (inhabited : engine.active ≠ []) :
    engine.selectVictim < engine.active.length := by
  unfold selectVictim
  cases isActive : engine.active with
  | nil => exact absurd isActive inhabited
  | cons first later =>
      rw [List.length_cons, Nat.add_comm]
      exact selectFrom_lt later 1 0 first Nat.one_pos

/-- With no prefix cached, every block is free or held by the batch. -/
theorem Invariant.totalBlocks_le {preparing : Bool} (invariant : engine.Invariant preparing)
    (unpinned : engine.prefixCache.nodes = 0) (held : List BlockId)
    (covers : ∀ active ∈ engine.active,
      ∀ block ∈ engine.kvCache.blocksFor active.request.requestId, block ∈ held) :
    engine.kvCache.totalBlocks ≤ engine.kvCache.freeList.length + held.length := by
  apply invariant.linked.invariant.balanced.size_le_free_add
  intro block positive
  have noPin : engine.kvCache.prefixBlocks.holders block = 0 := by
    rw [PagedKvCache.holders_prefixBlocks, invariant.linked.pins, unpinned, Multiset.map_zero,
      Multiset.countP_zero]
  rw [PagedKvCache.holders, noPin] at positive
  obtain ⟨id, blocks, found, listed⟩ := Holdings.holders_pos_iff.mp positive
  have known : id ∈ engine.kvCache.sequenceBlocks :=
    AList.lookup_isSome.mp (Option.isSome_iff_exists.mpr ⟨blocks, found⟩)
  obtain ⟨active, member, rfl⟩ := List.mem_map.mp ((invariant.sequences id).mp known)
  rw [← PagedKvCache.blocksFor_of_lookup found] at listed
  exact covers active member block listed

/-- A request that is not impossible fits into the KV cache. -/
theorem blocks_le_of_possible {request : EngineRequest}
    (possible : engine.impossibleReason request = none) :
    blocksForTokens (request.promptTokens + request.maxOutputTokens)
      engine.config.kvBlockSizeTokens ≤ engine.kvCache.totalBlocks ∧
    request.promptTokens ≤ engine.config.maxBatchTokens := by
  unfold impossibleReason at possible
  split at possible
  · cases possible
  · split at possible
    · cases possible
    · next fits =>
        split at possible
        · cases possible
        · next small => exact ⟨Nat.le_of_not_lt small, Nat.le_of_not_lt fits⟩

/-- A sequence that cannot grow is not the last one: its request fits into the KV
cache, and with no prefix cached every block is free or belongs to the batch. -/
theorem Invariant.exists_other (invariant : engine.Invariant true) {active : ActiveRequest}
    (member : active ∈ engine.active)
    (scarce : engine.kvCache.freeList.length <
      engine.neededBlocks active - engine.currentBlocks active)
    (unpinned : engine.prefixCache.nodes = 0) : 1 < engine.active.length := by
  by_contra single
  have alone : ∀ other ∈ engine.active, other = active := by
    intro other isActive
    obtain ⟨first, isFirst⟩ : ∃ first, engine.active = [first] := by
      apply List.length_eq_one_iff.mp
      have inhabited := List.length_pos_of_mem member
      omega
    rw [isFirst, List.mem_singleton] at member isActive
    rw [member, isActive]
  have total := invariant.totalBlocks_le unpinned
    (engine.kvCache.blocksFor active.request.requestId) fun other isActive block listed => by
      rw [alone other isActive] at listed
      exact listed
  have fits := (blocks_le_of_possible (invariant.possible active member)).1
  have unfinished : active.generatedTokens + 1 ≤ active.request.maxOutputTokens :=
    invariant.unfinished active member
  have needed : engine.neededBlocks active ≤ engine.kvCache.totalBlocks := by
    refine le_trans (blocksForTokens_mono invariant.positive ?_) fits
    omega
  unfold currentBlocks at scarce
  omega

variable [RequestQueue η]

/-! ### Admission -/

/-- The outcome of the loop that allocates the prompt: some evictions, and then an
attempt with the longest cached prefix that is final or has no prefix to evict. -/
theorem allocateEvicting_spec {candidate : EngineRequest} (scan : Scan) (turns : ℕ)
    {matched : Option (List BlockId)} (invariant : engine.Invariant false)
    (longest : matched.getD [] = RadixPrefixCache.longest (engine.candidateHashes candidate)
      (engine.prefixCache.forestOf (prefixNamespace candidate)))
    (enough : Multiset.card engine.prefixCache.nodes < turns) :
    ∃ middle, engine.Relieved middle ∧ middle.Invariant false ∧
      Steps ⟨engine, scan.defer candidate, false⟩ ⟨middle, scan.defer candidate, false⟩ ∧
      let result := allocateEvicting candidate turns matched engine
      let attempt := middle.kvCache.allocate candidate.requestId (middle.promptBlocks candidate)
        (result.2.1.getD [])
      result.2.1.getD [] = RadixPrefixCache.longest (middle.candidateHashes candidate)
        (middle.prefixCache.forestOf (prefixNamespace candidate)) ∧
      result.1 = attempt.1 ∧ result.2.2 = { middle with kvCache := attempt.2 } ∧
      (attempt.1 = .insufficientBlocks → middle.prefixCache.nodes = 0) := by
  induction turns generalizing engine matched with
  | zero => exact absurd enough (Nat.not_lt_zero _)
  | succ turns ih =>
      unfold allocateEvicting
      by_cases settled : (engine.kvCache.allocate candidate.requestId
          (engine.promptBlocks candidate) (matched.getD [])).1 ≠ .insufficientBlocks
      · refine ⟨engine, .refl engine, invariant, .refl, ?_⟩
        simp only [if_pos settled]
        exact ⟨longest, trivial, trivial, fun scarce => absurd scarce settled⟩
      · simp only [if_neg settled]
        have scarce := not_ne_iff.mp settled
        rcases invariant.evictOldest_cases with ⟨failed, empty⟩ | ⟨evicted, relieved, count⟩
        · refine ⟨engine, .refl engine, invariant, .refl, ?_⟩
          rw [failed, if_neg Bool.false_ne_true]
          refine ⟨longest, scarce.symm, ?_, fun _ => empty⟩
          rw [PagedKvCache.allocate_refused]
          rw [scarce]
          exact fun same => by cases same
        · rw [evicted, if_pos rfl]
          have again := invariant.evictOldest
          obtain ⟨looked, sameCount⟩ := again.matchPrefix_longest candidate
          obtain ⟨middle, relieved', final, steps, outcome⟩ :=
            ih (again.matchPrefix candidate) looked (by omega)
          refine ⟨middle, (relieved.trans (matchPrefix_relieved _ _)).trans relieved', final,
            ?_, outcome⟩
          exact .head (.evict evicted) (.head .touch steps)

/-- A turn of the scan from the lookup in the prefix cache on. -/
theorem tryAdmit_steps {candidate : EngineRequest} {scan : Scan}
    (invariant : engine.Invariant false)
    (possible : engine.impossibleReason candidate = none)
    (room : engine.active.length < engine.config.maxBatchSequences)
    (forgiven : engine.active = [] ∨ candidate.requestId ∉ engine.preemptedRequests)
    (budget : engine.active.length ≤ engine.config.maxBatchTokens - scan.prefillBudget ∧
      candidate.promptTokens ≤
        engine.config.maxBatchTokens - scan.prefillBudget - engine.active.length) :
    Steps ⟨engine, scan.defer candidate, false⟩
      ⟨(engine.tryAdmit candidate scan).1, (engine.tryAdmit candidate scan).2, false⟩ := by
  have found := invariant.matchPrefix candidate
  obtain ⟨longest, _⟩ := invariant.matchPrefix_longest candidate
  have enough : Multiset.card (engine.matchPrefix candidate).2.prefixCache.nodes <
      (engine.matchPrefix candidate).2.prefixCache.nodeCount + 1 := by
    rw [found.linked.counted]
    exact Nat.lt_succ_self _
  obtain ⟨middle, relieved, _, steps, shared, status, result, _⟩ :=
    allocateEvicting_spec scan _ found longest enough
  have reason := ((matchPrefix_relieved engine candidate).trans relieved).impossibleReason candidate
  obtain ⟨_, _, isMiddle, _⟩ := (matchPrefix_relieved engine candidate).trans relieved
  unfold tryAdmit
  dsimp only
  generalize allocateEvicting candidate _ (engine.matchPrefix candidate).1
    (engine.matchPrefix candidate).2 = outcome at shared status result ⊢
  rw [status, result]
  by_cases allocated : (middle.kvCache.allocate candidate.requestId
      (middle.promptBlocks candidate) (outcome.2.1.getD [])).1 = .allocated
  · rw [if_neg (not_not_intro allocated)]
    refine .head .touch (steps.tail (.admission ?_ ?_ ?_ ?_ shared allocated))
    · exact reason.trans possible
    · rw [isMiddle]
      exact room
    · rw [isMiddle]
      exact forgiven
    · rw [isMiddle]
      exact budget
  · rw [if_pos allocated, PagedKvCache.allocate_refused allocated]
    exact .head .touch steps

/-- A turn of the scan. -/
theorem considerCandidate_steps (candidate : EngineRequest) (scan : Scan)
    (invariant : engine.Invariant false)
    (room : engine.active.length < engine.config.maxBatchSequences) :
    Steps ⟨engine, scan.defer candidate, false⟩
      ⟨(engine.considerCandidate candidate scan).2.1,
        (engine.considerCandidate candidate scan).2.2, false⟩ := by
  by_cases passes : engine.Examines candidate scan
  · obtain ⟨possible, unblocked, _, fits⟩ := id passes
    have budget : engine.active.length ≤ engine.config.maxBatchTokens - scan.prefillBudget ∧
        candidate.promptTokens ≤
          engine.config.maxBatchTokens - scan.prefillBudget - engine.active.length := by
      omega
    have forgiven : engine.active = [] ∨ candidate.requestId ∉ engine.preemptedRequests := by
      by_cases empty : engine.active = []
      · exact Or.inl empty
      · exact Or.inr fun preempted => unblocked ⟨empty, preempted⟩
    rcases considerCandidate_examined passes with ⟨cached, found, turn⟩ | ⟨missing, turn⟩
    · rw [turn]
      exact .single (.answer possible found)
    · rw [turn]
      have same : (engine.lookupResult candidate).2.Invariant false :=
        invariant.congr rfl rfl rfl rfl
      exact .head (.miss possible missing) (tryAdmit_steps same possible room forgiven budget)
  · rcases considerCandidate_unexamined passes with ⟨text, impossible, turn⟩ | ⟨goes, turn⟩
    · rw [turn]
      exact .single (.reject impossible)
    · rw [turn]

theorem scanPending_steps (remaining : ℕ) (scan : Scan) (invariant : engine.Invariant false) :
    Steps ⟨engine, scan, false⟩
      ⟨(scanPending remaining engine scan).1, (scanPending remaining engine scan).2, false⟩ := by
  induction remaining generalizing engine scan with
  | zero => exact .refl
  | succ remaining ih =>
      unfold scanPending
      split
      · next room =>
          split
          · exact .refl
          · next candidate queue popped =>
              have queued : Invariant { engine with pending := queue } false :=
                invariant.congr rfl rfl rfl rfl
              have turn := considerCandidate_steps candidate scan queued room
              dsimp only
              split
              · exact .head (.pop room popped) (turn.trans (ih _ (turn.invariant queued)))
              · exact .head (.pop room popped) turn
      · exact .refl

theorem admitReady_steps (invariant : engine.Invariant false) :
    ∃ scan, scan.deferred = [] ∧ scan.admittedAny = engine.admitReady.1 ∧
      Steps (rest engine) ⟨engine.admitReady.2, scan, false⟩ := by
  have scanned := scanPending_steps (PriorityQueue.size engine.pending) {} invariant
  exact ⟨{ (scanPending (PriorityQueue.size engine.pending) engine {}).2 with deferred := [] },
    rfl, rfl, scanned.tail (.requeue _ _)⟩

/-! ### Completion -/

/-- The loop of `CompleteFinished` completes sequences one by one and leaves the
unfinished ones. -/
theorem completeFrom_steps {scan : Scan} (later : List ActiveRequest) {kept : List ActiveRequest}
    (split : engine.active = kept ++ later)
    (unfinished : ∀ active ∈ kept, active.generatedTokens < active.request.maxOutputTokens) :
    Steps ⟨engine, scan, false⟩ ⟨completeFrom kept later engine, scan, false⟩ ∧
      ∀ active ∈ (completeFrom kept later engine).active,
        active.generatedTokens < active.request.maxOutputTokens := by
  induction later generalizing engine kept with
  | nil =>
      refine ⟨.refl, ?_⟩
      intro active member
      rw [completeFrom, split, List.append_nil] at member
      exact unfinished active member
  | cons active later ih =>
      unfold completeFrom
      by_cases going : active.generatedTokens < active.request.maxOutputTokens
      · rw [if_pos going]
        apply ih
        · rw [split, List.append_assoc, List.singleton_append]
        · intro other member
          rcases List.mem_append.mp member with old | new
          · exact unfinished other old
          · rw [List.mem_singleton.mp new]
            exact going
      · rw [if_neg going]
        obtain ⟨steps, none⟩ := @ih { engine.finish active with active := kept ++ later } kept
          rfl unfinished
        exact ⟨.head (.complete split (Nat.le_of_not_lt going)) steps, none⟩

theorem completeFinished_steps (engine : ContinuousEngine η) (scan : Scan) :
    Steps ⟨engine, scan, false⟩ ⟨engine.completeFinished, scan, false⟩ ∧
      ∀ active ∈ engine.completeFinished.active,
        active.generatedTokens < active.request.maxOutputTokens :=
  completeFrom_steps engine.active rfl nofun

/-! ### Preparation -/

/-- The outcome of the loop that grows a sequence: some evictions, and then an
attempt that is final or has no prefix to evict. -/
theorem growEvicting_spec (active : ActiveRequest) (additionalBlocks : ℕ) (scan : Scan)
    (turns : ℕ) (invariant : engine.Invariant true)
    (enough : Multiset.card engine.prefixCache.nodes < turns) :
    ∃ middle, engine.Relieved middle ∧ middle.Invariant true ∧
      Steps ⟨engine, scan, true⟩ ⟨middle, scan, true⟩ ∧
      let result := growEvicting active additionalBlocks turns engine
      let attempt := middle.kvCache.appendBlocks active.request.requestId additionalBlocks
      result.1 = attempt.1 ∧ result.2 = { middle with kvCache := attempt.2 } ∧
      (attempt.1 = .insufficientBlocks → middle.prefixCache.nodes = 0) := by
  induction turns generalizing engine with
  | zero => exact absurd enough (Nat.not_lt_zero _)
  | succ turns ih =>
      unfold growEvicting
      by_cases scarce : (engine.kvCache.appendBlocks active.request.requestId
          additionalBlocks).1 = .insufficientBlocks
      · simp only [if_pos scarce]
        rcases invariant.evictOldest_cases with ⟨failed, empty⟩ | ⟨evicted, relieved, count⟩
        · refine ⟨engine, .refl engine, invariant, .refl, ?_⟩
          rw [failed, if_neg Bool.false_ne_true]
          refine ⟨scarce.symm, ?_, fun _ => empty⟩
          rw [PagedKvCache.appendBlocks_refused]
          rw [scarce]
          exact fun same => by cases same
        · rw [evicted, if_pos rfl]
          obtain ⟨middle, relieved', final, steps, outcome⟩ :=
            ih invariant.evictOldest (by omega)
          exact ⟨middle, relieved.trans relieved', final, .head (.evict evicted) steps, outcome⟩
      · refine ⟨engine, .refl engine, invariant, .refl, ?_⟩
        simp only [if_neg scarce]
        exact ⟨trivial, trivial, fun again => absurd again scarce⟩

/-- A pass keeps the batch and takes no block away. When it succeeds every
sequence has the blocks of its next token; when it fails some sequence lacks
blocks, the free ones do not suffice and no prefix is cached. -/
structure Passed (engine : ContinuousEngine η) (later : List ActiveRequest)
    (result : Bool × ContinuousEngine η) : Prop where
  config : result.2.config = engine.config
  active : result.2.active = engine.active
  grown : ∀ active, engine.currentBlocks active ≤ result.2.currentBlocks active
  prepared : result.1 = true →
    ∀ active ∈ later, result.2.neededBlocks active ≤ result.2.currentBlocks active
  stuck : result.1 = false → result.2.prefixCache.nodes = 0 ∧
    ∃ active ∈ engine.active, result.2.currentBlocks active < result.2.neededBlocks active ∧
      result.2.kvCache.freeList.length <
        result.2.neededBlocks active - result.2.currentBlocks active

/-- Growing a sequence of the batch that lacks blocks: it gets the blocks of its next token,
or the free ones do not suffice and no prefix is cached. -/
theorem growEvicting_cases (scan : Scan) {active : ActiveRequest}
    (invariant : engine.Invariant true) (isActive : active ∈ engine.active)
    (short : engine.currentBlocks active < engine.neededBlocks active) :
    let result := growEvicting active (engine.neededBlocks active - engine.currentBlocks active)
      (engine.prefixCache.nodeCount + 1) engine
    Steps ⟨engine, scan, true⟩ ⟨result.2, scan, true⟩ ∧
      result.2.config = engine.config ∧ result.2.active = engine.active ∧
      (∀ other, engine.currentBlocks other ≤ result.2.currentBlocks other) ∧
      ((result.1 = .allocated ∧
          result.2.neededBlocks active ≤ result.2.currentBlocks active) ∨
        (result.1 ≠ .allocated ∧ result.2.prefixCache.nodes = 0 ∧
          result.2.currentBlocks active < result.2.neededBlocks active ∧
          result.2.kvCache.freeList.length <
            result.2.neededBlocks active - result.2.currentBlocks active)) := by
  intro result
  obtain ⟨middle, relieved, valid, steps, status, isResult, empty⟩ :=
    growEvicting_spec active (engine.neededBlocks active - engine.currentBlocks active) scan
      (engine.prefixCache.nodeCount + 1) invariant
      (by rw [invariant.linked.counted]; exact Nat.lt_succ_self _)
  change result.1 = _ at status
  change result.2 = _ at isResult
  obtain ⟨sameConfig, _, sameActive, _⟩ := relieved.frame
  have current := relieved.currentBlocks active
  have needed := neededBlocks_congr sameConfig active
  rw [← needed, ← current] at status isResult empty short
  rw [status, isResult]
  rcases middle.kvCache.appendBlocks_cases active.request.requestId
    (middle.neededBlocks active - middle.currentBlocks active) with
    ⟨_, unknown⟩ | ⟨blocks, found, ⟨refused, scarce⟩ | ⟨granted, grant⟩⟩
  · -- The sequence is in the KV cache because it is active.
    exact absurd ((valid.sequences _).mpr
      (List.mem_map_of_mem (sameActive ▸ isActive))) unknown
  · rw [refused] at empty ⊢
    exact ⟨steps, sameConfig, sameActive, fun other => (relieved.currentBlocks other).ge,
      Or.inr ⟨by exact nofun, empty rfl, short, scarce⟩⟩
  · have step := @Step.grow _ _ middle scan active (sameActive ▸ isActive) short granted
    rw [← PagedKvCache.blocksFor_of_lookup found] at grant
    refine ⟨steps.tail step, sameConfig, sameActive, ?_, Or.inl ⟨granted, ?_⟩⟩
    · intro other
      rw [← relieved.currentBlocks]
      exact grant.length_le other.request.requestId
    · have length := grant.length_self
      change middle.neededBlocks active ≤ (PagedKvCache.blocksFor _ _).length
      rw [length]
      change _ ≤ middle.currentBlocks active + _
      omega

theorem preparePass_steps (scan : Scan) (later : List ActiveRequest)
    (invariant : engine.Invariant true) (members : ∀ active ∈ later, active ∈ engine.active) :
    Steps ⟨engine, scan, true⟩ ⟨(preparePass later engine).2, scan, true⟩ ∧
      Passed engine later (preparePass later engine) := by
  induction later generalizing engine with
  | nil => exact ⟨.refl, rfl, rfl, fun _ => le_rfl, fun _ => List.forall_mem_nil _,
      fun failure => by cases failure⟩
  | cons active later ih =>
      obtain ⟨isActive, others⟩ := List.forall_mem_cons.mp members
      unfold preparePass
      by_cases has : engine.neededBlocks active ≤ engine.currentBlocks active
      · rw [if_pos has]
        obtain ⟨steps, passed⟩ := ih invariant others
        refine ⟨steps, passed.config, passed.active, passed.grown, ?_, passed.stuck⟩
        intro success other member
        rcases List.mem_cons.mp member with rfl | inLater
        · rw [neededBlocks_congr passed.config]
          exact has.trans (passed.grown other)
        · exact passed.prepared success other inLater
      · rw [if_neg has]
        obtain ⟨steps, config, same, grown, ⟨allocated, enough⟩ | ⟨failed, stuck⟩⟩ :=
          growEvicting_cases scan invariant isActive (Nat.lt_of_not_le has)
        · dsimp only
          rw [if_pos allocated]
          obtain ⟨steps', passed⟩ := ih (steps.invariant invariant) (same.symm ▸ others)
          refine ⟨steps.trans steps', passed.config.trans config, passed.active.trans same,
            fun other => (grown other).trans (passed.grown other), ?_, ?_⟩
          · intro success other member
            rcases List.mem_cons.mp member with rfl | inLater
            · rw [neededBlocks_congr passed.config]
              exact enough.trans (passed.grown other)
            · exact passed.prepared success other inLater
          · intro failure
            obtain ⟨none, other, member, lacking⟩ := passed.stuck failure
            exact ⟨none, other, same ▸ member, lacking⟩
        · dsimp only
          rw [if_neg failed]
          refine ⟨steps, config, same, grown, ?_, fun _ => ⟨stuck.1, active, isActive, stuck.2⟩⟩
          intro success
          cases success

/-- A preemption makes the batch shorter. -/
theorem preempt_length (inhabited : engine.active ≠ []) :
    (engine.preempt engine.selectVictim).active.length + 1 = engine.active.length := by
  have inside := selectVictim_lt inhabited
  unfold preempt
  rw [List.getElem?_eq_getElem inside]
  dsimp only
  rw [List.length_eraseIdx_of_lt inside]
  omega

/-- After a pass that fails, a preemption leaves a shorter batch that is not empty. -/
theorem Passed.preempts {scan : Scan} {result : Bool × ContinuousEngine η}
    (passed : Passed engine engine.active result) (valid : result.2.Invariant true)
    (failed : result.1 = false) :
    Step ⟨result.2, scan, true⟩ ⟨result.2.preempt result.2.selectVictim, scan, true⟩ ∧
      (result.2.preempt result.2.selectVictim).Invariant true ∧
      (result.2.preempt result.2.selectVictim).active ≠ [] ∧
      (result.2.preempt result.2.selectVictim).active.length < engine.active.length := by
  obtain ⟨none, active, member, short, scarce⟩ := passed.stuck failed
  rw [← passed.active] at member
  have step := @Step.preempt _ _ result.2 scan active member short scarce none
  have several := valid.exists_other member scarce none
  have shorter := preempt_length (List.ne_nil_of_mem member)
  refine ⟨step, step.invariant valid, ?_, ?_⟩
  · exact List.ne_nil_of_length_pos (Nat.lt_of_succ_lt_succ (several.trans_eq shorter.symm))
  · rw [← passed.active, ← shorter]
    exact Nat.lt_succ_self _

/-- The passes leave sequences in the batch, each with blocks for its next token. -/
theorem preparePasses_steps (scan : Scan) (turns : ℕ) (invariant : engine.Invariant true)
    (inhabited : engine.active ≠ []) (enough : engine.active.length < turns) :
    Steps ⟨engine, scan, true⟩ ⟨preparePasses turns engine, scan, true⟩ ∧
      (preparePasses turns engine).active ≠ [] ∧
      ∀ active ∈ (preparePasses turns engine).active,
        (preparePasses turns engine).neededBlocks active ≤
          (preparePasses turns engine).currentBlocks active := by
  induction turns generalizing engine with
  | zero => exact absurd enough (Nat.not_lt_zero _)
  | succ turns ih =>
      obtain ⟨steps, passed⟩ := preparePass_steps scan engine.active invariant fun _ => id
      unfold preparePasses
      cases success : (preparePass engine.active engine).1 with
      | true =>
          dsimp only
          rw [success, if_pos rfl]
          refine ⟨steps, ?_, ?_⟩
          · rw [passed.active]
            exact inhabited
          · rw [passed.active]
            exact passed.prepared success
      | false =>
          dsimp only
          rw [success, if_neg Bool.false_ne_true]
          obtain ⟨step, valid, left, shorter⟩ :=
            passed.preempts (steps.invariant invariant) success
          obtain ⟨steps', prepared⟩ := ih valid left
            (shorter.trans_le (Nat.le_of_lt_succ enough))
          exact ⟨(steps.tail step).trans steps', prepared⟩


/-! ### Iterations -/

/-- The part of an iteration before the batch is given blocks. -/
theorem admitAndComplete_steps (invariant : engine.Invariant false) :
    ∃ scan, scan.deferred = [] ∧ scan.admittedAny = engine.admitAndComplete.1 ∧
      Steps (rest engine) ⟨engine.admitAndComplete.2, scan, false⟩ ∧
      ∀ active ∈ engine.admitAndComplete.2.active,
        active.generatedTokens < active.request.maxOutputTokens := by
  unfold admitAndComplete
  by_cases empty : engine.active = []
  · rw [if_pos empty]
    have forgiven : Invariant { engine with preemptedRequests := ∅ } false :=
      invariant.congr rfl rfl rfl rfl
    obtain ⟨scan, nothing, progress, admitted⟩ := admitReady_steps forgiven
    obtain ⟨completed, unfinished⟩ := completeFinished_steps
      { engine with preemptedRequests := ∅ }.admitReady.2 scan
    exact ⟨scan, nothing, progress, .head (.forgive empty) (admitted.trans completed), unfinished⟩
  · rw [if_neg empty]
    obtain ⟨scan, nothing, progress, admitted⟩ := admitReady_steps invariant
    obtain ⟨completed, unfinished⟩ := completeFinished_steps engine.admitReady.2 scan
    exact ⟨scan, nothing, progress, admitted.trans completed, unfinished⟩

/-- `PrepareDecodeBlocks` on unfinished sequences. -/
theorem prepareDecodeBlocks_steps {scan : Scan} (invariant : engine.Invariant false)
    (inhabited : engine.active ≠ []) (nothing : scan.deferred = [])
    (unfinished : ∀ active ∈ engine.active,
      active.generatedTokens < active.request.maxOutputTokens) :
    Steps ⟨engine, scan, false⟩ ⟨engine.prepareDecodeBlocks.2, scan, true⟩ ∧
      engine.prepareDecodeBlocks.2.active ≠ [] ∧
      ∀ active ∈ engine.prepareDecodeBlocks.2.active,
        engine.prepareDecodeBlocks.2.neededBlocks active ≤
          engine.prepareDecodeBlocks.2.currentBlocks active := by
  have step := Step.prepare nothing unfinished
  obtain ⟨steps, left, prepared⟩ := preparePasses_steps scan (engine.active.length + 1)
    (step.invariant invariant) inhabited (Nat.lt_succ_self _)
  exact ⟨.head step steps, left, prepared⟩

/-- An iteration is a run of steps. It ends early only with an empty batch;
otherwise every sequence of the prepared batch gets a token. -/
theorem runOneIteration_cases (invariant : engine.Invariant false) :
    ∃ scan, scan.deferred = [] ∧ scan.admittedAny = engine.admitAndComplete.1 ∧
      Steps (rest engine) ⟨engine.admitAndComplete.2, scan, false⟩ ∧
      ((engine.admitAndComplete.2.active = [] ∧
        engine.runOneIteration = engine.admitAndComplete) ∨
      (engine.admitAndComplete.2.active ≠ [] ∧
        Steps ⟨engine.admitAndComplete.2, scan, false⟩
          ⟨engine.admitAndComplete.2.prepareDecodeBlocks.2, scan, true⟩ ∧
        Step ⟨engine.admitAndComplete.2.prepareDecodeBlocks.2, scan, true⟩
          ⟨engine.admitAndComplete.2.prepareDecodeBlocks.2.decodeBatch, scan, false⟩ ∧
        Steps ⟨engine.admitAndComplete.2.prepareDecodeBlocks.2.decodeBatch, scan, false⟩
          ⟨engine.runOneIteration.2, scan, false⟩ ∧
        engine.runOneIteration.1 = true)) := by
  obtain ⟨scan, nothing, progress, started, unfinished⟩ := admitAndComplete_steps invariant
  refine ⟨scan, nothing, progress, started, ?_⟩
  unfold runOneIteration
  by_cases empty : engine.admitAndComplete.2.active = []
  · exact Or.inl ⟨empty, if_pos empty⟩
  · have valid : engine.admitAndComplete.2.Invariant false := started.invariant invariant
    obtain ⟨steps, left, prepared⟩ := prepareDecodeBlocks_steps valid empty nothing unfinished
    have succeeds : engine.admitAndComplete.2.prepareDecodeBlocks.1 = true :=
      decide_eq_true left
    dsimp only
    rw [if_neg empty, succeeds, if_neg Bool.true_eq_false_eq_False]
    exact Or.inr ⟨empty, steps, .decode left prepared, (completeFinished_steps _ _).1, rfl⟩

theorem runOneIteration_steps (invariant : engine.Invariant false) :
    Steps (rest engine) (rest engine.runOneIteration.2) := by
  obtain ⟨scan, nothing, _, started, ⟨_, early⟩ | ⟨_, prepared, decoded, completed, _⟩⟩ :=
    runOneIteration_cases invariant
  · rw [early]
    exact started.tail (.close nothing)
  · exact (((started.trans prepared).tail decoded).trans completed).tail (.close nothing)

end ContinuousEngine
end InferSched.Engine

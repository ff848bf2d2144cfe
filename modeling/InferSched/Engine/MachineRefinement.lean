import InferSched.Engine.MachineEngine
import InferSched.Engine.MachineInvariant

/-! # The machine engine computes what the engine does

From a regular engine whose times are within the limit, every function of the machine engine
gives what its namesake gives, whatever orders the evictions see, as long as the times of the
result are within the limit too, and otherwise reports an overflow of time. No other fault is
possible.
-/

namespace InferSched.Engine

open Library Checked

namespace Platform

variable {η : Type} {platform : Platform} {engine : ContinuousEngine η}

/-- The times of the engine are within the limit. -/
def Within (platform : Platform) (engine : ContinuousEngine η) : Prop :=
  engine.clock ≤ platform.timeMax ∧ engine.stats.simulatedBusyTime ≤ platform.timeMax

instance (platform : Platform) (engine : ContinuousEngine η) : Decidable (platform.Within engine) :=
  inferInstanceAs (Decidable (_ ∧ _))

/-- An earlier engine has used less time. -/
theorem Within.of_later {next : ContinuousEngine η} (within : platform.Within next)
    (later : engine.Later next) : platform.Within engine :=
  ⟨later.clock.trans within.1, later.busy.trans within.2⟩

/-! ### Tokens and blocks -/

/-- The remainder and the quotient of a positive block size do not fault. -/
theorem blocksForTokens_gives {tokens blockSize : ℕ} (positive : 0 < blockSize)
    (fits : tokens < 2 ^ sizeBits) :
    Gives (blocksForTokens tokens blockSize) (.ok (Engine.blocksForTokens tokens blockSize)) := by
  have small : Engine.blocksForTokens tokens blockSize ≤ tokens :=
    (blocksForTokens_le_iff positive _ _).mpr (Nat.le_mul_of_pos_right tokens positive)
  unfold blocksForTokens
  refine (Gives.div tokens positive).bind ((Gives.mod tokens positive).bind (Gives.add ?_))
  exact small.trans_lt fits

/-- The check asks whether its sum fits a word before it adds. -/
theorem impossibleReason_gives {request : EngineRequest} (sized : request.Sized)
    (positive : 0 < engine.config.kvBlockSizeTokens) :
    Gives (impossibleReason engine request) (.ok (engine.impossibleReason request)) := by
  have output : request.maxOutputTokens ≤ sizeMax := Nat.le_pred_of_lt sized.output
  unfold impossibleReason ContinuousEngine.impossibleReason
  refine (Gives.sub output).bind ?_
  split
  · exact .pure _
  · next small =>
      split
      · exact .pure _
      · have total : request.promptTokens + request.maxOutputTokens < 2 ^ sizeBits := by
          have bound : sizeMax < 2 ^ sizeBits := by decide
          omega
        refine (Gives.add total).bind ((blocksForTokens_gives positive total).bind ?_)
        split
        · exact .pure _
        · exact .pure _

/-! ### Evictions -/

/-- As the stamps are apart, the search finds the same leaf in any order of the roots. -/
theorem evictOldestOf_gives {cache : RadixPrefixCache} (stamped : cache.Stamped)
    (kvCache : PagedKvCache) :
    Gives (platform.evictOldestOf cache kvCache) (.ok (cache.evictOldest kvCache)) := by
  unfold evictOldestOf
  apply Gives.choose_bind
  intro count
  rw [stamped.searchRoots_presented ((platform.order count).presents _),
    ← RadixPrefixCache.evictOldest_eq]
  exact .pure _

theorem evictOldest_gives (stamped : engine.prefixCache.Stamped) :
    Gives (platform.evictOldest engine) (.ok engine.evictOldest) :=
  (evictOldestOf_gives stamped engine.kvCache).bind (.pure _)

/-- Every turn of the eviction finds the leaf of the exact one. -/
theorem evictToCapacity_gives (turns : ℕ) {cache : RadixPrefixCache} (stamped : cache.Stamped)
    (kvCache : PagedKvCache) :
    Gives (platform.evictToCapacity turns cache kvCache)
      (.ok (RadixPrefixCache.evictToCapacity turns cache kvCache)) := by
  induction turns generalizing cache kvCache with
  | zero => exact .pure _
  | succ turns ih =>
      unfold evictToCapacity RadixPrefixCache.evictToCapacity
      split
      · refine (evictOldestOf_gives stamped kvCache).bind ?_
        dsimp only
        split
        · exact ih (stamped.evictOldest kvCache) _
        · exact .pure _
      · exact .pure _

/-- Storing the prefixes of a prompt comes down to the evictions after it. -/
theorem putBlockPrefixes_gives {cache : RadixPrefixCache} (stamped : cache.Stamped)
    (kvCache : PagedKvCache) (cacheNamespace : Text) (hashes : List Text)
    (blocks : List BlockId) :
    Gives (platform.putBlockPrefixes cache kvCache cacheNamespace hashes blocks)
      (.ok (cache.putBlockPrefixes kvCache cacheNamespace hashes blocks)) := by
  unfold putBlockPrefixes RadixPrefixCache.putBlockPrefixes
  refine (evictToCapacity_gives _ ?_ _).bind (.pure _)
  exact RadixPrefixCache.stamped_insert (RadixPrefixCache.putPath_timely _ _ _
    { kvCache, accessClock := cache.accessClock, nextPinId := cache.nextPinId, inserted := 0 }
    (stamped.forestOf cacheNamespace))

/-- Only the caches of blocks differ, and the stamps are apart. -/
def Recached (engine next : ContinuousEngine η) : Prop :=
  ∃ prefixCache kvCache, next = { engine with prefixCache := prefixCache, kvCache := kvCache } ∧
    prefixCache.Stamped

/-- Two steps that touch no more than the caches of blocks, one after the other. -/
theorem Recached.trans {second third : ContinuousEngine η} (one : Recached engine second)
    (two : Recached second third) : Recached engine third := by
  obtain ⟨_, _, rfl, _⟩ := one
  obtain ⟨_, _, rfl, stamped⟩ := two
  exact ⟨_, _, rfl, stamped⟩

/-- A match touches no more than the prefix cache. -/
theorem recached_matchPrefix (stamped : engine.prefixCache.Stamped) (candidate : EngineRequest) :
    Recached engine (engine.matchPrefix candidate).2 := by
  unfold ContinuousEngine.matchPrefix
  split
  · exact ⟨_, _, rfl, stamped⟩
  · exact ⟨_, _, rfl, stamped.getLongest _ _⟩

/-- An eviction moves no time. -/
theorem recached_evictOldest (stamped : engine.prefixCache.Stamped) :
    Recached engine engine.evictOldest.2 :=
  ⟨_, _, rfl, stamped.evictOldest _⟩

theorem Recached.stamped {next : ContinuousEngine η} (recached : Recached engine next) :
    next.prefixCache.Stamped := by
  obtain ⟨_, _, rfl, stamped⟩ := recached
  exact stamped

/-- No time passes. -/
theorem Recached.time {next : ContinuousEngine η} (recached : Recached engine next) :
    next.clock = engine.clock ∧ next.stats = engine.stats := by
  obtain ⟨_, _, rfl, _⟩ := recached
  exact ⟨rfl, rfl⟩

/-- An allocation moves no time, however often it evicts. -/
theorem recached_allocateEvicting (candidate : EngineRequest) (turns : ℕ)
    (matched : Option (List BlockId)) (stamped : engine.prefixCache.Stamped) :
    Recached engine (ContinuousEngine.allocateEvicting candidate turns matched engine).2.2 := by
  induction turns generalizing engine matched with
  | zero => exact ⟨_, _, rfl, stamped⟩
  | succ turns ih =>
      unfold ContinuousEngine.allocateEvicting
      dsimp only
      split
      · exact ⟨_, _, rfl, stamped⟩
      · split
        · have evicted := recached_evictOldest stamped
          have matched := recached_matchPrefix evicted.stamped candidate
          exact (evicted.trans matched).trans (ih _ matched.stamped)
        · exact ⟨_, _, rfl, stamped⟩

/-- A growth moves no time, however often it evicts. -/
theorem recached_growEvicting (active : ActiveRequest) (additionalBlocks turns : ℕ)
    (stamped : engine.prefixCache.Stamped) :
    Recached engine (ContinuousEngine.growEvicting active additionalBlocks turns engine).2 := by
  induction turns generalizing engine with
  | zero => exact ⟨_, _, rfl, stamped⟩
  | succ turns ih =>
      unfold ContinuousEngine.growEvicting
      dsimp only
      split
      · split
        · have evicted := recached_evictOldest stamped
          exact evicted.trans (ih evicted.stamped)
        · exact ⟨_, _, rfl, stamped⟩
      · exact ⟨_, _, rfl, stamped⟩

/-- The loop of an allocation takes the turns of the exact one. -/
theorem allocateEvicting_gives {candidate : EngineRequest} {promptBlocks : ℕ}
    {hashes : List Text} (turns : ℕ) (matched : Option (List BlockId))
    (stamped : engine.prefixCache.Stamped) (blocks : engine.promptBlocks candidate = promptBlocks)
    (isHashes : engine.candidateHashes candidate = hashes) :
    Gives (platform.allocateEvicting candidate promptBlocks hashes turns matched engine)
      (.ok (ContinuousEngine.allocateEvicting candidate turns matched engine)) := by
  induction turns generalizing engine matched with
  | zero => exact .pure _
  | succ turns ih =>
      subst blocks isHashes
      unfold allocateEvicting ContinuousEngine.allocateEvicting
      dsimp only
      split
      · exact .pure _
      · refine (evictOldest_gives stamped).bind ?_
        split
        · have same :
              matchPrefix engine.evictOldest.2 candidate (engine.candidateHashes candidate) =
                engine.evictOldest.2.matchPrefix candidate := rfl
          have evicted : engine.evictOldest.2.prefixCache.Stamped := stamped.evictOldest _
          have config := (ContinuousEngine.matchPrefix_relieved engine.evictOldest.2
            candidate).frame.1
          rw [same]
          refine ih _ (ContinuousEngine.stamped_matchPrefix evicted candidate)
            ?_ (ContinuousEngine.candidateHashes_congr config _)
          unfold ContinuousEngine.promptBlocks
          rw [config]
          rfl
        · exact .pure _

/-! ### Time -/

/-- The clock moves unless that takes it past the limit. -/
theorem advance_gives {now delta : ℤ} (started : 0 ≤ now) (within : now ≤ platform.timeMax) :
    Gives (platform.advance now delta)
      (guarded (Engine.advance now delta ≤ platform.timeMax) (Engine.advance now delta)) := by
  unfold advance Engine.advance
  split
  · exact .signed (by omega)
  · exact .pure_guarded within _

/-- A cost is paid: the clock advances and the busy time grows. -/
theorem pay_gives {β : Type} {cost : ℤ} {next : ℤ → ℤ → Checked β} {final : Prop}
    [Decidable final] {result : β}
    (started : 0 ≤ engine.clock ∧ 0 ≤ engine.stats.simulatedBusyTime)
    (within : platform.Within engine) (nonnegative : 0 ≤ cost)
    (rest : Engine.advance engine.clock cost ≤ platform.timeMax →
      engine.stats.simulatedBusyTime + cost ≤ platform.timeMax →
      Gives (next (Engine.advance engine.clock cost) (engine.stats.simulatedBusyTime + cost))
        (guarded final result))
    (earlier : final → Engine.advance engine.clock cost ≤ platform.timeMax ∧
      engine.stats.simulatedBusyTime + cost ≤ platform.timeMax) :
    Gives (do
      let now ← platform.advance engine.clock cost
      let busy ← Checked.signed platform.timeMax (engine.stats.simulatedBusyTime + cost)
      next now busy) (guarded final result) := by
  have sum : 0 ≤ engine.stats.simulatedBusyTime + cost := by omega
  refine (advance_gives started.1 within.1).bind_guarded (fun clock => ?_)
    (fun last => (earlier last).1)
  exact (Gives.signed sum).bind_guarded (fun busy => rest clock busy)
    (fun last => (earlier last).2)

/-! ### Admission -/

/-- The cached part of a prompt is at most the prompt. -/
theorem cached_le {candidate : EngineRequest} {matchedBlocks : ℕ}
    (positive : 0 < engine.config.kvBlockSizeTokens)
    (fewer : matchedBlocks < engine.promptBlocks candidate) :
    matchedBlocks * engine.config.kvBlockSizeTokens < candidate.promptTokens := by
  by_contra more
  have enough := (blocksForTokens_le_iff positive _ _).mpr (Nat.le_of_not_lt more)
  exact absurd enough (Nat.not_le.mpr fewer)

/-- A prefill faults exactly where it takes the clock or the busy time past the limit. -/
theorem runPrefill_gives {candidate : EngineRequest} (matchedBlocks : ℕ)
    (sized : candidate.Sized) (positive : 0 < engine.config.kvBlockSizeTokens)
    (sane : engine.costModel.Sane)
    (started : 0 ≤ engine.clock ∧ 0 ≤ engine.stats.simulatedBusyTime)
    (within : platform.Within engine) :
    Gives (platform.runPrefill engine candidate (engine.promptBlocks candidate) matchedBlocks)
      (guarded (platform.Within (engine.runPrefill candidate matchedBlocks))
        (engine.runPrefill candidate matchedBlocks)) := by
  unfold runPrefill ContinuousEngine.runPrefill
  dsimp only
  split
  · refine (Gives.pure _).bind ((Gives.sub le_rfl).bind ?_)
    exact pay_gives started within (sane.prefillCost _).1
      (fun clock busy => .pure_guarded ⟨clock, busy⟩ _) id
  · next fewer =>
      have cached := cached_le positive (Nat.lt_of_not_le fewer)
      refine (Gives.mul (cached.trans sized.prompt)).bind ((Gives.sub cached.le).bind ?_)
      exact pay_gives started within (sane.prefillCost _).1
        (fun clock busy => .pure_guarded ⟨clock, busy⟩ _) id

/-- Caching a prompt computes nothing that wraps. -/
theorem cachePrompt_gives {request : EngineRequest} {promptBlocks : ℕ} {hashes : List Text}
    (stamped : engine.prefixCache.Stamped) (blocks : engine.promptBlocks request = promptBlocks)
    (isHashes : engine.candidateHashes request = hashes) :
    Gives (platform.cachePrompt engine request promptBlocks hashes)
      (.ok (engine.cachePrompt request)) := by
  subst blocks isHashes
  unfold cachePrompt ContinuousEngine.cachePrompt
  split
  · exact .pure _
  · exact (putBlockPrefixes_gives stamped _ _ _ _).bind (.pure _)

/-- The prefill, the insertion into the prefix cache and the activation. -/
theorem prefill_gives {candidate : EngineRequest} (matchedBlocks : ℕ) (active : ActiveRequest)
    (sized : candidate.Sized) (positive : 0 < engine.config.kvBlockSizeTokens)
    (stamped : engine.prefixCache.Stamped) (sane : engine.costModel.Sane)
    (started : 0 ≤ engine.clock ∧ 0 ≤ engine.stats.simulatedBusyTime)
    (within : platform.Within engine) :
    Gives (do
      let engine' ← platform.runPrefill engine candidate (engine.promptBlocks candidate)
        matchedBlocks
      let engine' ← platform.cachePrompt engine' candidate (engine.promptBlocks candidate)
        (engine.candidateHashes candidate)
      pure (engine'.activate active))
      (guarded
        (platform.Within
          (((engine.runPrefill candidate matchedBlocks).cachePrompt candidate).activate active))
        (((engine.runPrefill candidate matchedBlocks).cachePrompt candidate).activate active)) := by
  obtain ⟨_, _, cached⟩ := (engine.runPrefill candidate matchedBlocks).cachePrompt_eq candidate
  have same : platform.Within
      (((engine.runPrefill candidate matchedBlocks).cachePrompt candidate).activate active) ↔
      platform.Within (engine.runPrefill candidate matchedBlocks) := by
    rw [cached]
    exact Iff.rfl
  refine (runPrefill_gives matchedBlocks sized positive sane started within).bind_guarded
    (fun fits => ?_) same.mp
  rw [guarded_of (same.mpr fits)]
  have still : (engine.runPrefill candidate matchedBlocks).prefixCache.Stamped := stamped
  exact (cachePrompt_gives still rfl rfl).bind (.pure _)

/-- An admission faults exactly where its prefill does. -/
theorem admitCandidate_gives {candidate : EngineRequest} (matched : Option (List BlockId))
    (sized : candidate.Sized) (positive : 0 < engine.config.kvBlockSizeTokens)
    (stamped : engine.prefixCache.Stamped) (sane : engine.costModel.Sane)
    (started : 0 ≤ engine.clock ∧ 0 ≤ engine.stats.simulatedBusyTime)
    (within : platform.Within engine) :
    Gives (platform.admitCandidate engine candidate (engine.promptBlocks candidate)
        (engine.candidateHashes candidate) matched)
      (guarded (platform.Within (engine.admitCandidate candidate matched))
        (engine.admitCandidate candidate matched)) := by
  unfold admitCandidate ContinuousEngine.admitCandidate accountPrefix
    ContinuousEngine.accountPrefix
  dsimp only
  split
  · exact @prefill_gives η platform { engine with prefixAccountedRequests := _, stats := _ }
      candidate _ _ sized positive stamped sane started within
  · exact prefill_gives _ _ sized positive stamped sane started within

/-- What `TryAdmit` does once the loop around `Allocate` has ended. -/
theorem allocated_gives {candidate : EngineRequest} {scan : Scan} (sized : candidate.Sized)
    (budget : scan.prefillBudget + candidate.promptTokens < 2 ^ sizeBits)
    (positive : 0 < engine.config.kvBlockSizeTokens) (sane : engine.costModel.Sane)
    (started : 0 ≤ engine.clock ∧ 0 ≤ engine.stats.simulatedBusyTime)
    (within : platform.Within engine)
    (allocated : AllocationStatus × Option (List BlockId) × ContinuousEngine η)
    (recached : Recached engine allocated.2.2) :
    let result :=
      if allocated.1 ≠ .allocated then (allocated.2.2, scan.defer candidate)
      else
        (allocated.2.2.admitCandidate candidate allocated.2.1,
          { scan with
            prefillBudget := scan.prefillBudget + candidate.promptTokens
            prefillSequences := scan.prefillSequences + 1
            admittedAny := true })
    Gives
      (if allocated.1 ≠ .allocated then pure (allocated.2.2, scan.defer candidate)
      else do
        let admitted ← platform.admitCandidate allocated.2.2 candidate
          (engine.promptBlocks candidate) (engine.candidateHashes candidate) allocated.2.1
        let prefillBudget ← Checked.add sizeBits scan.prefillBudget candidate.promptTokens
        pure (admitted,
          { scan with
            prefillBudget
            prefillSequences := scan.prefillSequences + 1
            admittedAny := true }))
      (guarded (platform.Within result.1) result) := by
  obtain ⟨status, matched, next⟩ := allocated
  obtain ⟨prefixCache, kvCache, isNext, still⟩ := recached
  dsimp only at isNext ⊢
  subst isNext
  by_cases failed : status ≠ .allocated
  · simp only [if_pos failed]
    exact .pure_guarded within _
  · simp only [if_neg failed]
    refine Gives.bind_guarded (@admitCandidate_gives η platform
      { engine with prefixCache := prefixCache, kvCache := kvCache } candidate matched sized
      positive still sane started within) (fun fits => ?_) id
    rw [guarded_of fits]
    exact (Gives.add budget).bind (.pure _)

/-- A turn of the scan from the lookup in the prefix cache on. -/
theorem tryAdmit_gives {candidate : EngineRequest} {scan : Scan} (sized : candidate.Sized)
    (budget : scan.prefillBudget + candidate.promptTokens < 2 ^ sizeBits)
    (positive : 0 < engine.config.kvBlockSizeTokens)
    (stamped : engine.prefixCache.Stamped) (sane : engine.costModel.Sane)
    (started : 0 ≤ engine.clock ∧ 0 ≤ engine.stats.simulatedBusyTime)
    (within : platform.Within engine) :
    Gives (platform.tryAdmit engine candidate scan)
      (guarded (platform.Within (engine.tryAdmit candidate scan).1)
        (engine.tryAdmit candidate scan)) := by
  have found := recached_matchPrefix stamped candidate
  have allocated := found.trans (recached_allocateEvicting candidate
    ((engine.matchPrefix candidate).2.prefixCache.nodeCount + 1) (engine.matchPrefix candidate).1
    found.stamped)
  have config : (engine.matchPrefix candidate).2.config = engine.config := by
    obtain ⟨_, _, isFound, _⟩ := found
    rw [isFound]
  have blocks : (engine.matchPrefix candidate).2.promptBlocks candidate =
      engine.promptBlocks candidate := by
    unfold ContinuousEngine.promptBlocks
    rw [config]
  have hashes := ContinuousEngine.candidateHashes_congr config candidate
  exact (blocksForTokens_gives positive sized.prompt).bind
    ((allocateEvicting_gives _ _ found.stamped blocks hashes).bind
      (allocated_gives sized budget positive sane started within _ allocated))

/-- The prompts admitted so far are within the budget, so no subtraction wraps. -/
theorem checkBudget_gives {candidate : EngineRequest} {scan : Scan}
    (prompts : scan.prefillBudget ≤ engine.config.maxBatchTokens) :
    Gives (checkBudget engine candidate scan)
      (.ok (decide (¬ (engine.active.length > engine.config.maxBatchTokens - scan.prefillBudget ∨
        candidate.promptTokens >
          engine.config.maxBatchTokens - scan.prefillBudget - engine.active.length)))) := by
  unfold checkBudget
  refine (Gives.sub prompts).bind ?_
  split
  · next full =>
      rw [decide_eq_false (not_not_intro (Or.inl full))]
      exact .pure _
  · next fits =>
      refine (Gives.sub (Nat.le_of_not_lt fits)).bind ?_
      have same : (¬ (engine.active.length > engine.config.maxBatchTokens - scan.prefillBudget ∨
          candidate.promptTokens >
            engine.config.maxBatchTokens - scan.prefillBudget - engine.active.length)) ↔
          candidate.promptTokens ≤
            engine.config.maxBatchTokens - scan.prefillBudget - engine.active.length := by
        omega
      rw [decide_eq_decide.mpr same]
      exact .pure _

section Queue

variable [RequestQueue η]

open Moment

/-- A candidate in hand is sized like every other request. -/
theorem sized_of_defer {candidate : EngineRequest} {scan : Scan} {preparing : Bool}
    (regular : Regular ⟨engine, scan.defer candidate, preparing⟩) : candidate.Sized := by
  have member : candidate.ticket ∈ unanswered ⟨engine, scan.defer candidate, preparing⟩ := by
    rw [unanswered_defer]
    exact Multiset.mem_cons_self _ _
  obtain ⟨prompt, output⟩ := regular.sized _ member
  exact ⟨prompt, output⟩

/-- A turn of the scan. -/
theorem considerCandidate_gives {candidate : EngineRequest} {scan : Scan}
    (regular : Regular ⟨engine, scan.defer candidate, false⟩)
    (within : platform.Within engine) :
    Gives (platform.considerCandidate engine candidate scan)
      (guarded (platform.Within (engine.considerCandidate candidate scan).2.1)
        (engine.considerCandidate candidate scan)) := by
  have sized := sized_of_defer regular
  have positive : 0 < engine.config.kvBlockSizeTokens := regular.invariant.positive
  have prompts : scan.prefillBudget ≤ engine.config.maxBatchTokens := regular.budgeted.prompts
  have limit : engine.config.maxBatchTokens < 2 ^ sizeBits := regular.limit
  unfold considerCandidate ContinuousEngine.considerCandidate
  refine (impossibleReason_gives sized positive).bind ?_
  cases reason : engine.impossibleReason candidate with
  | some text => exact .pure_guarded within _
  | none =>
      dsimp only
      by_cases preempted : engine.active ≠ [] ∧ candidate.requestId ∈ engine.preemptedRequests
      · simp only [if_pos preempted]
        exact .pure_guarded within _
      simp only [if_neg preempted]
      by_cases full : scan.prefillSequences = engine.config.maxPrefillSequencesPerIteration
      · simp only [if_pos full]
        exact .pure_guarded within _
      simp only [if_neg full]
      refine (checkBudget_gives prompts).bind ?_
      by_cases large : engine.active.length > engine.config.maxBatchTokens - scan.prefillBudget ∨
          candidate.promptTokens >
            engine.config.maxBatchTokens - scan.prefillBudget - engine.active.length
      · rw [if_pos (decide_eq_false (not_not_intro large))]
        simp only [if_pos large]
        exact .pure_guarded within _
      rw [decide_eq_true large, if_neg Bool.true_eq_false_eq_False]
      simp only [if_neg large]
      have budget : scan.prefillBudget + candidate.promptTokens < 2 ^ sizeBits := by omega
      cases found : (engine.lookupResult candidate).1 with
      | some cached =>
          have asked : engine.lookupResult candidate =
              (some cached, (engine.lookupResult candidate).2) := Prod.ext found rfl
          rw [asked]
          exact .pure_guarded within _
      | none =>
          have asked : engine.lookupResult candidate =
              (none, (engine.lookupResult candidate).2) := Prod.ext found rfl
          rw [asked]
          refine Gives.bind_guarded (@tryAdmit_gives η platform (engine.lookupResult candidate).2
            candidate scan sized budget positive regular.stamped regular.sane regular.started
            within) (fun fits => .pure_guarded fits _) id

end Queue

end Platform
end InferSched.Engine

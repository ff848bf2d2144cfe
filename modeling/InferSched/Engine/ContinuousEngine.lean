import Mathlib.Data.Finset.Insert
import InferSched.Engine.CostModel
import InferSched.Engine.ExecutionState
import InferSched.Engine.RadixPrefixCache
import InferSched.Engine.RequestQueue
import InferSched.Engine.ResultCache

/-! # The continuous batching engine

`ContinuousEngine` (`continuous_engine.cpp`), function by function. An iteration
admits ready requests into the batch, gives every sequence of the batch a KV
block for its next token, preempting sequences when blocks run out, and decodes
one token of each. The source's subtractions of `size_t` never wrap under their
guards, so counts are natural numbers; time is an unbounded number of
nanoseconds. Loops that the source ends by running out of cached prefixes or of
active sequences take that number as a bound on their turns.
-/

namespace InferSched.Engine

open Library

structure ContinuousEngineStats where
  iterations : ℕ := 0
  admissions : ℕ := 0
  preemptions : ℕ := 0
  peakActiveSequences : ℕ := 0
  prefixCacheRequests : ℕ := 0
  prefixCacheRequestHits : ℕ := 0
  resultCacheRequests : ℕ := 0
  resultCacheRequestHits : ℕ := 0
  peakPendingRequests : ℕ := 0
  simulatedBusyTime : ℤ := 0
deriving DecidableEq, Repr

structure ActiveRequest where
  request : EngineRequest
  state : ExecutionState := .waitingAdmission
  generatedTokens : ℕ := 0
  prefixCacheHit : Bool := false
  firstTokenAt : ℤ := 0
deriving DecidableEq, Repr

/-- The engine with a request queue of type `η`. -/
structure ContinuousEngine (η : Type) where
  config : EngineConfig
  clock : ℤ := 0
  costModel : CostModel
  kvCache : PagedKvCache
  prefixCache : RadixPrefixCache
  resultCache : ResultCache
  pending : η
  active : List ActiveRequest := []
  results : List EngineResult := []
  stats : ContinuousEngineStats := {}
  preemptedRequests : Finset Text := ∅
  prefixAccountedRequests : Finset Text := ∅

/-- The local variables of `AdmitReady`. -/
structure Scan where
  admittedAny : Bool := false
  prefillBudget : ℕ := 0
  prefillSequences : ℕ := 0
  deferred : List EngineRequest := []
deriving DecidableEq, Repr

/-- Put a candidate aside until the scan is over. -/
def Scan.defer (scan : Scan) (candidate : EngineRequest) : Scan :=
  { scan with deferred := scan.deferred ++ [candidate] }

namespace ContinuousEngine

variable {η : Type} [RequestQueue η]

/-- The constructor, with the message of the first exception it throws. -/
def new (draws : JitterDraws) (config : EngineConfig) : Except Text (ContinuousEngine η) := do
  let costModel ← CostModel.new config.costModel config.seed draws
  let kvCache ← PagedKvCache.new config.kvBlocks config.kvBlockSizeTokens
  let prefixCache ← RadixPrefixCache.new config.prefixCacheEntries
  let resultCache ← ResultCache.new config.resultCacheEntries
  if config.maxBatchSequences = 0 ∨ config.maxBatchTokens = 0 ∨
      config.maxPrefillSequencesPerIteration = 0 then
    .error "continuous batching limits must be positive".toList
  else
    .ok { config, costModel, kvCache, prefixCache, resultCache, pending := PriorityQueue.empty }

def pendingCount (engine : ContinuousEngine η) : ℕ :=
  PriorityQueue.size engine.pending

def activeCount (engine : ContinuousEngine η) : ℕ :=
  engine.active.length

def submit (engine : ContinuousEngine η) (request : EngineRequest) : ContinuousEngine η :=
  let pending := PriorityQueue.push engine.pending request
  { engine with
    pending
    stats := { engine.stats with
      peakPendingRequests := max engine.stats.peakPendingRequests (PriorityQueue.size pending) } }

/-- `ImpossibleReason`, which reads the configuration and the number of blocks. -/
def impossibleReason (engine : ContinuousEngine η) (request : EngineRequest) : Option Text :=
  if request.promptTokens > sizeMax - request.maxOutputTokens then
    some "token_count_overflow".toList
  else if request.promptTokens > engine.config.maxBatchTokens then
    some "exceeds_max_batch_tokens".toList
  else if blocksForTokens (request.promptTokens + request.maxOutputTokens)
      engine.config.kvBlockSizeTokens > engine.kvCache.totalBlocks then
    some "exceeds_kv_capacity".toList
  else none

/-! ### Admission -/

/-- The blocks of the prompt. -/
def promptBlocks (engine : ContinuousEngine η) (request : EngineRequest) : ℕ :=
  blocksForTokens request.promptTokens engine.config.kvBlockSizeTokens

/-- The block hashes that have a block of the prompt. -/
def candidateHashes (engine : ContinuousEngine η) (request : EngineRequest) : List Text :=
  request.promptBlockHashes.take
    (min request.promptBlockHashes.length (engine.promptBlocks request))

/-- The result of a request that can never run. -/
def reject (engine : ContinuousEngine η) (candidate : EngineRequest) (reason : Text) :
    ContinuousEngine η :=
  { engine with
    results := engine.results ++ [{
      requestId := candidate.requestId
      completedAt := engine.clock
      succeeded := false
      failureReason := reason }] }

/-- Ask the result cache. -/
def lookupResult (engine : ContinuousEngine η) (candidate : EngineRequest) :
    Option Text × ContinuousEngine η :=
  let found := engine.resultCache.get (resultKey candidate)
  (found.1, { engine with
    resultCache := found.2
    stats := { engine.stats with
      resultCacheRequests := engine.stats.resultCacheRequests + 1 } })

/-- The result of a request whose output is cached. -/
def answerCached (engine : ContinuousEngine η) (candidate : EngineRequest) (cached : Text) :
    ContinuousEngine η :=
  { engine with
    results := engine.results ++ [{
      requestId := candidate.requestId
      output := cached
      completedAt := engine.clock
      firstTokenAt := engine.clock
      resultCacheHit := true }]
    stats := { engine.stats with
      resultCacheRequestHits := engine.stats.resultCacheRequestHits + 1 } }

/-- The longest cached prefix of a candidate, looked for only when it has hashes. -/
def matchPrefix (engine : ContinuousEngine η) (candidate : EngineRequest) :
    Option (List BlockId) × ContinuousEngine η :=
  if engine.candidateHashes candidate = [] then (none, engine)
  else
    let found := engine.prefixCache.getLongest (prefixNamespace candidate)
      (engine.candidateHashes candidate)
    (found.1, { engine with prefixCache := found.2 })

/-- The engine after `EvictOldest`, and whether there was a leaf to evict. -/
def evictOldest (engine : ContinuousEngine η) : Bool × ContinuousEngine η :=
  let evicted := engine.prefixCache.evictOldest engine.kvCache
  (evicted.1, { engine with prefixCache := evicted.2.1, kvCache := evicted.2.2 })

/-- Allocate the blocks of a prompt, evicting prefixes while they do not suffice. -/
def allocateEvicting (candidate : EngineRequest) : ℕ → Option (List BlockId) →
    ContinuousEngine η → AllocationStatus × Option (List BlockId) × ContinuousEngine η
  | 0, matched, engine => (.insufficientBlocks, matched, engine)
  | turns + 1, matched, engine =>
      let allocated := engine.kvCache.allocate candidate.requestId
        (engine.promptBlocks candidate) (matched.getD [])
      if allocated.1 ≠ .insufficientBlocks then
        (allocated.1, matched, { engine with kvCache := allocated.2 })
      else
        let evicted := engine.evictOldest
        if evicted.1 then
          let again := evicted.2.matchPrefix candidate
          allocateEvicting candidate turns again.1 again.2
        else (.insufficientBlocks, matched, engine)

/-- Count a request with hashes once, and whether it found a prefix then. -/
def accountPrefix (engine : ContinuousEngine η) (candidate : EngineRequest)
    (matched : Option (List BlockId)) : ContinuousEngine η :=
  if engine.candidateHashes candidate ≠ [] ∧
      candidate.requestId ∉ engine.prefixAccountedRequests then
    { engine with
      prefixAccountedRequests := insert candidate.requestId engine.prefixAccountedRequests
      stats := { engine.stats with
        prefixCacheRequests := engine.stats.prefixCacheRequests + 1
        prefixCacheRequestHits := engine.stats.prefixCacheRequestHits +
          if matched.isSome then 1 else 0 } }
  else engine

/-- The prefill of a prompt whose first `matchedBlocks` blocks are cached. -/
def runPrefill (engine : ContinuousEngine η) (candidate : EngineRequest) (matchedBlocks : ℕ) :
    ContinuousEngine η :=
  let cachedTokens :=
    if matchedBlocks ≥ engine.promptBlocks candidate then candidate.promptTokens
    else matchedBlocks * engine.config.kvBlockSizeTokens
  let cost := engine.costModel.prefillCost (candidate.promptTokens - cachedTokens)
  { engine with
    costModel := cost.2
    clock := advance engine.clock cost.1
    stats := { engine.stats with
      simulatedBusyTime := engine.stats.simulatedBusyTime + cost.1 } }

/-- Cache the prompt blocks of an admitted request under its hashes. -/
def cachePrompt (engine : ContinuousEngine η) (request : EngineRequest) : ContinuousEngine η :=
  if request.promptBlockHashes = [] then engine
  else
    let blocks := engine.kvCache.blocksFor request.requestId
    let put := engine.prefixCache.putBlockPrefixes engine.kvCache (prefixNamespace request)
      (engine.candidateHashes request)
      (blocks.take (min blocks.length (engine.promptBlocks request)))
    { engine with prefixCache := put.2.1, kvCache := put.2.2 }

/-- Add a request to the batch. -/
def activate (engine : ContinuousEngine η) (active : ActiveRequest) : ContinuousEngine η :=
  { engine with
    active := engine.active ++ [active]
    stats := { engine.stats with
      admissions := engine.stats.admissions + 1
      peakActiveSequences := max engine.stats.peakActiveSequences (engine.active.length + 1) } }

/-- What follows a successful allocation. -/
def admitCandidate (engine : ContinuousEngine η) (candidate : EngineRequest)
    (matched : Option (List BlockId)) : ContinuousEngine η :=
  let engine := (engine.accountPrefix candidate matched).runPrefill candidate
    (matched.getD []).length
  let prefilling := ExecutionState.transitionTo .waitingAdmission .prefilling
  let decoding := prefilling.2.transitionTo .decode
  (engine.cachePrompt candidate).activate
    { request := candidate, state := decoding.2, prefixCacheHit := matched.isSome }

/-- The rest of a turn of the scan once the result cache has no answer. -/
def tryAdmit (engine : ContinuousEngine η) (candidate : EngineRequest) (scan : Scan) :
    ContinuousEngine η × Scan :=
  let found := engine.matchPrefix candidate
  let allocated := allocateEvicting candidate (found.2.prefixCache.nodeCount + 1) found.1 found.2
  if allocated.1 ≠ .allocated then (allocated.2.2, scan.defer candidate)
  else
    (allocated.2.2.admitCandidate candidate allocated.2.1,
      { scan with
        prefillBudget := scan.prefillBudget + candidate.promptTokens
        prefillSequences := scan.prefillSequences + 1
        admittedAny := true })

/-- One turn of the scan; `false` ends it. -/
def considerCandidate (engine : ContinuousEngine η) (candidate : EngineRequest) (scan : Scan) :
    Bool × ContinuousEngine η × Scan :=
  match engine.impossibleReason candidate with
  | some reason => (true, engine.reject candidate reason, { scan with admittedAny := true })
  | none =>
      if engine.active ≠ [] ∧ candidate.requestId ∈ engine.preemptedRequests then
        (true, engine, scan.defer candidate)
      else if scan.prefillSequences = engine.config.maxPrefillSequencesPerIteration then
        (false, engine, scan.defer candidate)
      else if engine.active.length > engine.config.maxBatchTokens - scan.prefillBudget ∨
          candidate.promptTokens >
            engine.config.maxBatchTokens - scan.prefillBudget - engine.active.length then
        (true, engine, scan.defer candidate)
      else
        match engine.lookupResult candidate with
        | (some cached, engine) =>
            (true, engine.answerCached candidate cached, { scan with admittedAny := true })
        | (none, engine) => (true, engine.tryAdmit candidate scan)

/-- The scan over at most as many requests as were pending when it began. -/
def scanPending : ℕ → ContinuousEngine η → Scan → ContinuousEngine η × Scan
  | 0, engine, scan => (engine, scan)
  | remaining + 1, engine, scan =>
      if engine.active.length < engine.config.maxBatchSequences then
        match RequestQueue.popReady engine.pending engine.clock with
        | none => (engine, scan)
        | some (candidate, rest) =>
            let turn := { engine with pending := rest }.considerCandidate candidate scan
            if turn.1 then scanPending remaining turn.2.1 turn.2.2 else turn.2
      else (engine, scan)

/-- Return the deferred requests to the queue. -/
def requeue (engine : ContinuousEngine η) (deferred : List EngineRequest) : ContinuousEngine η :=
  { engine with pending := PriorityQueue.pushAll engine.pending deferred }

def admitReady (engine : ContinuousEngine η) : Bool × ContinuousEngine η :=
  let scanned := scanPending (PriorityQueue.size engine.pending) engine {}
  (scanned.2.admittedAny, scanned.1.requeue scanned.2.deferred)

/-! ### Completion, preemption and decoding -/

/-- The completion of a sequence, apart from its removal from the batch. -/
def finish (engine : ContinuousEngine η) (active : ActiveRequest) : ContinuousEngine η :=
  let output := simulatedOutput active.request
  { engine with
    resultCache := engine.resultCache.put (resultKey active.request) output
    kvCache := (engine.kvCache.free active.request.requestId).2
    results := engine.results ++ [{
      requestId := active.request.requestId
      output
      completedAt := engine.clock
      firstTokenAt := if active.generatedTokens = 0 then engine.clock else active.firstTokenAt
      prefixCacheHit := active.prefixCacheHit }] }

/-- The loop of `CompleteFinished`, with the sequences before its index. -/
def completeFrom (kept : List ActiveRequest) :
    List ActiveRequest → ContinuousEngine η → ContinuousEngine η
  | [], engine => engine
  | active :: later, engine =>
      if active.generatedTokens < active.request.maxOutputTokens then
        completeFrom (kept ++ [active]) later engine
      else completeFrom kept later { engine.finish active with active := kept ++ later }

def completeFinished (engine : ContinuousEngine η) : ContinuousEngine η :=
  completeFrom [] engine.active engine

/-- The loop of `SelectVictim` from an index on. -/
def selectFrom : List ActiveRequest → ℕ → ActiveRequest → ℕ → ℕ
  | [], _, _, victim => victim
  | candidate :: later, index, selected, victim =>
      let candidateRemaining := candidate.request.maxOutputTokens - candidate.generatedTokens
      let selectedRemaining := selected.request.maxOutputTokens - selected.generatedTokens
      if candidate.request.priority < selected.request.priority ∨
          (candidate.request.priority = selected.request.priority ∧
            candidateRemaining > selectedRemaining) then
        selectFrom later (index + 1) candidate index
      else selectFrom later (index + 1) selected victim

def selectVictim (engine : ContinuousEngine η) : ℕ :=
  match engine.active with
  | [] => 0
  | first :: later => selectFrom later 1 first 0

def preempt (engine : ContinuousEngine η) (activeIndex : ℕ) : ContinuousEngine η :=
  match engine.active[activeIndex]? with
  | none => engine
  | some victim =>
      { engine with
        kvCache := (engine.kvCache.free victim.request.requestId).2
        preemptedRequests := insert victim.request.requestId engine.preemptedRequests
        pending := PriorityQueue.push engine.pending
          { victim.request with arrivalTime := engine.clock }
        active := engine.active.eraseIdx activeIndex
        stats := { engine.stats with preemptions := engine.stats.preemptions + 1 } }

/-- The blocks a sequence needs for its next token. -/
def neededBlocks (engine : ContinuousEngine η) (active : ActiveRequest) : ℕ :=
  blocksForTokens (active.request.promptTokens + active.generatedTokens + 1)
    engine.config.kvBlockSizeTokens

/-- The blocks a sequence has. -/
def currentBlocks (engine : ContinuousEngine η) (active : ActiveRequest) : ℕ :=
  (engine.kvCache.blocksFor active.request.requestId).length

/-- Grow a sequence, evicting prefixes while the free blocks do not suffice. -/
def growEvicting (active : ActiveRequest) (additionalBlocks : ℕ) :
    ℕ → ContinuousEngine η → AllocationStatus × ContinuousEngine η
  | 0, engine => (.insufficientBlocks, engine)
  | turns + 1, engine =>
      let appended := engine.kvCache.appendBlocks active.request.requestId additionalBlocks
      if appended.1 = .insufficientBlocks then
        let evicted := engine.evictOldest
        if evicted.1 then growEvicting active additionalBlocks turns evicted.2
        else (.insufficientBlocks, engine)
      else (appended.1, { engine with kvCache := appended.2 })

/-- A pass of `PrepareDecodeBlocks` over the batch; `false` when a sequence could
not grow. -/
def preparePass : List ActiveRequest → ContinuousEngine η → Bool × ContinuousEngine η
  | [], engine => (true, engine)
  | active :: later, engine =>
      if engine.neededBlocks active ≤ engine.currentBlocks active then preparePass later engine
      else
        let grown := growEvicting active
          (engine.neededBlocks active - engine.currentBlocks active)
          (engine.prefixCache.nodeCount + 1) engine
        if grown.1 = .allocated then preparePass later grown.2 else (false, grown.2)

/-- Passes from the start of the batch, with a preemption between two of them. -/
def preparePasses : ℕ → ContinuousEngine η → ContinuousEngine η
  | 0, engine => engine
  | turns + 1, engine =>
      let pass := preparePass engine.active engine
      if pass.1 then pass.2 else preparePasses turns (pass.2.preempt pass.2.selectVictim)

def prepareDecodeBlocks (engine : ContinuousEngine η) : Bool × ContinuousEngine η :=
  let prepared := preparePasses (engine.active.length + 1) engine
  (decide (prepared.active ≠ []), prepared)

/-- Decode one token of every sequence of the batch. -/
def decodeBatch (engine : ContinuousEngine η) : ContinuousEngine η :=
  let cost := engine.costModel.decodeStep engine.active.length
  let now := advance engine.clock cost.1
  { engine with
    costModel := cost.2
    clock := now
    active := engine.active.map fun active =>
      { active with
        generatedTokens := active.generatedTokens + 1
        firstTokenAt := if active.generatedTokens + 1 = 1 then now else active.firstTokenAt }
    stats := { engine.stats with
      simulatedBusyTime := engine.stats.simulatedBusyTime + cost.1
      iterations := engine.stats.iterations + 1 } }

/-! ### Iterations -/

/-- The first part of an iteration: whether a request was admitted or answered,
and the engine with the unfinished sequences. -/
def admitAndComplete (engine : ContinuousEngine η) : Bool × ContinuousEngine η :=
  let engine := if engine.active = [] then { engine with preemptedRequests := ∅ } else engine
  let admitted := engine.admitReady
  (admitted.1, admitted.2.completeFinished)

def runOneIteration (engine : ContinuousEngine η) : Bool × ContinuousEngine η :=
  let started := engine.admitAndComplete
  if started.2.active = [] then started
  else
    let prepared := started.2.prepareDecodeBlocks
    if prepared.1 = false then (started.1, prepared.2)
    else (true, prepared.2.decodeBatch.completeFinished)

/-- The clock at the next arrival, when the batch could do nothing. -/
def awaitArrival (engine : ContinuousEngine η) (arrival : ℤ) : ContinuousEngine η :=
  { engine with clock := advance engine.clock (arrival - engine.clock) }

/-- `RunUntilIdle`, given up after so many rounds. -/
def runUntilIdle : ℕ → ContinuousEngine η → Option (ContinuousEngine η)
  | 0, _ => none
  | rounds + 1, engine =>
      if engine.pendingCount = 0 ∧ engine.active = [] then some engine
      else
        let ran := engine.runOneIteration
        if ran.1 then runUntilIdle rounds ran.2
        else
          match RequestQueue.nextArrival ran.2.pending with
          | some arrival => runUntilIdle rounds (ran.2.awaitArrival arrival)
          | none => some ran.2

def clearCaches (engine : ContinuousEngine η) : ContinuousEngine η :=
  let cleared := engine.prefixCache.clear engine.kvCache
  { engine with prefixCache := cleared.1, kvCache := cleared.2 }

/-- The calls on an engine, and the clock advance between two iterations of
`RunUntilIdle`. -/
inductive Call
  | submit (request : EngineRequest)
  | runOneIteration
  | awaitArrival (arrival : ℤ)
  | clearCaches
deriving DecidableEq, Repr

/-- The engine as an object; an iteration answers whether it made progress. -/
def object : AtomicObject (ContinuousEngine η) Call (Option Bool) where
  respond call engine :=
    match call with
    | .submit request => (none, engine.submit request)
    | .runOneIteration => Prod.map some id engine.runOneIteration
    | .awaitArrival arrival => (none, engine.awaitArrival arrival)
    | .clearCaches => (none, engine.clearCaches)

/-! ### A turn of the scan -/

section Turn

omit [RequestQueue η]

/-- The candidate passes the checks before the lookup in the result cache. -/
def Examines (engine : ContinuousEngine η) (candidate : EngineRequest) (scan : Scan) : Prop :=
  engine.impossibleReason candidate = none ∧
    ¬ (engine.active ≠ [] ∧ candidate.requestId ∈ engine.preemptedRequests) ∧
    scan.prefillSequences ≠ engine.config.maxPrefillSequencesPerIteration ∧
    ¬ (engine.active.length > engine.config.maxBatchTokens - scan.prefillBudget ∨
      candidate.promptTokens >
        engine.config.maxBatchTokens - scan.prefillBudget - engine.active.length)

instance (engine : ContinuousEngine η) (candidate : EngineRequest) (scan : Scan) :
    Decidable (engine.Examines candidate scan) :=
  inferInstanceAs (Decidable (_ ∧ _ ∧ _ ∧ _))

/-- A candidate that is not examined is rejected or put aside. -/
theorem considerCandidate_unexamined {engine : ContinuousEngine η} {candidate : EngineRequest}
    {scan : Scan} (passed : ¬ engine.Examines candidate scan) :
    (∃ reason, engine.impossibleReason candidate = some reason ∧
      engine.considerCandidate candidate scan =
        (true, engine.reject candidate reason, { scan with admittedAny := true })) ∨
    ∃ goes, engine.considerCandidate candidate scan = (goes, engine, scan.defer candidate) := by
  unfold considerCandidate
  cases reason : engine.impossibleReason candidate with
  | some text => exact Or.inl ⟨text, rfl, rfl⟩
  | none =>
      right
      dsimp only
      split
      · exact ⟨true, rfl⟩
      · next unblocked =>
          split
          · exact ⟨false, rfl⟩
          · next room =>
              split
              · exact ⟨true, rfl⟩
              · next fits => exact absurd ⟨reason, unblocked, room, fits⟩ passed

/-- An examined candidate is answered from the result cache, or its prompt allocated. -/
theorem considerCandidate_examined {engine : ContinuousEngine η} {candidate : EngineRequest}
    {scan : Scan} (passes : engine.Examines candidate scan) :
    (∃ cached, (engine.lookupResult candidate).1 = some cached ∧
      engine.considerCandidate candidate scan =
        (true, (engine.lookupResult candidate).2.answerCached candidate cached,
          { scan with admittedAny := true })) ∨
    ((engine.lookupResult candidate).1 = none ∧
      engine.considerCandidate candidate scan =
        (true, (engine.lookupResult candidate).2.tryAdmit candidate scan)) := by
  obtain ⟨possible, unblocked, room, fits⟩ := passes
  unfold considerCandidate
  rw [possible]
  dsimp only
  rw [if_neg unblocked, if_neg room, if_neg fits]
  cases found : (engine.lookupResult candidate).1 with
  | some cached =>
      have asked : engine.lookupResult candidate =
          (some cached, (engine.lookupResult candidate).2) := Prod.ext found rfl
      rw [asked]
      exact Or.inl ⟨cached, rfl, rfl⟩
  | none =>
      have asked : engine.lookupResult candidate =
          (none, (engine.lookupResult candidate).2) := Prod.ext found rfl
      rw [asked]
      exact Or.inr ⟨rfl, rfl⟩

end Turn

/-! ### What an admission leaves alone -/

section Frame

omit [RequestQueue η]

variable (engine : ContinuousEngine η) (candidate : EngineRequest)
  (matched : Option (List BlockId))

theorem accountPrefix_eq : ∃ accounted stats, engine.accountPrefix candidate matched =
    { engine with prefixAccountedRequests := accounted, stats := stats } := by
  unfold accountPrefix
  split
  · exact ⟨_, _, rfl⟩
  · exact ⟨_, _, rfl⟩

theorem cachePrompt_eq : ∃ kvCache prefixCache, engine.cachePrompt candidate =
    { engine with kvCache := kvCache, prefixCache := prefixCache } := by
  unfold cachePrompt
  split
  · exact ⟨_, _, rfl⟩
  · exact ⟨_, _, rfl⟩

theorem matchPrefix_eq : ∃ prefixCache, (engine.matchPrefix candidate).2 =
    { engine with prefixCache := prefixCache } := by
  unfold matchPrefix
  split
  · exact ⟨_, rfl⟩
  · exact ⟨_, rfl⟩

/-- The loop around `Allocate` changes the caches of blocks only. -/
theorem allocateEvicting_eq (turns : ℕ) : ∃ kvCache prefixCache,
    (allocateEvicting candidate turns matched engine).2.2 =
      { engine with kvCache := kvCache, prefixCache := prefixCache } := by
  induction turns generalizing matched engine with
  | zero => exact ⟨_, _, rfl⟩
  | succ turns ih =>
      unfold allocateEvicting
      dsimp only
      split
      · exact ⟨_, _, rfl⟩
      · split
        · obtain ⟨prefixCache, found⟩ := engine.evictOldest.2.matchPrefix_eq candidate
          obtain ⟨kvCache, prefixCache, again⟩ := ih (engine.evictOldest.2.matchPrefix candidate).2
            (engine.evictOldest.2.matchPrefix candidate).1
          rw [again, found]
          exact ⟨kvCache, prefixCache, rfl⟩
        · exact ⟨_, _, rfl⟩

/-- The loop around `AppendBlocks` changes the caches of blocks only. -/
theorem growEvicting_eq (active : ActiveRequest) (additionalBlocks turns : ℕ) :
    ∃ kvCache prefixCache, (growEvicting active additionalBlocks turns engine).2 =
      { engine with kvCache := kvCache, prefixCache := prefixCache } := by
  induction turns generalizing engine with
  | zero => exact ⟨_, _, rfl⟩
  | succ turns ih =>
      unfold growEvicting
      dsimp only
      split
      · split
        · obtain ⟨kvCache, prefixCache, again⟩ := ih engine.evictOldest.2
          rw [again]
          exact ⟨kvCache, prefixCache, rfl⟩
        · exact ⟨_, _, rfl⟩
      · exact ⟨_, _, rfl⟩

/-- A pass over the batch changes the caches of blocks only. -/
theorem preparePass_eq (later : List ActiveRequest) : ∃ kvCache prefixCache,
    (preparePass later engine).2 =
      { engine with kvCache := kvCache, prefixCache := prefixCache } := by
  induction later generalizing engine with
  | nil => exact ⟨_, _, rfl⟩
  | cons active later ih =>
      unfold preparePass
      dsimp only
      split
      · exact ih engine
      · obtain ⟨_, _, grown⟩ := engine.growEvicting_eq active
          (engine.neededBlocks active - engine.currentBlocks active)
          (engine.prefixCache.nodeCount + 1)
        split
        · obtain ⟨kvCache, prefixCache, passed⟩ := ih (growEvicting active
            (engine.neededBlocks active - engine.currentBlocks active)
            (engine.prefixCache.nodeCount + 1) engine).2
          rw [passed, grown]
          exact ⟨kvCache, prefixCache, rfl⟩
        · exact ⟨_, _, grown⟩

/-- What an admission counts. -/
theorem admitCandidate_stats_eq : ∃ requests hits busyTime,
    (engine.admitCandidate candidate matched).stats =
      { engine.stats with
        admissions := engine.stats.admissions + 1
        peakActiveSequences := max engine.stats.peakActiveSequences (engine.active.length + 1)
        prefixCacheRequests := requests
        prefixCacheRequestHits := hits
        simulatedBusyTime := busyTime } := by
  unfold admitCandidate accountPrefix runPrefill cachePrompt activate
  dsimp only
  split
  · split
    · exact ⟨_, _, _, rfl⟩
    · exact ⟨_, _, _, rfl⟩
  · split
    · exact ⟨_, _, _, rfl⟩
    · exact ⟨_, _, _, rfl⟩

/-- An admission pays for the prefill, caches the prompt and extends the batch. -/
theorem admitCandidate_eq : ∃ accounted stats costModel cost,
    engine.admitCandidate candidate matched =
      { engine.cachePrompt candidate with
        clock := advance engine.clock cost
        costModel := costModel
        active := engine.active ++
          [{ request := candidate, state := .decode, prefixCacheHit := matched.isSome }]
        stats := stats
        prefixAccountedRequests := accounted } := by
  obtain ⟨accounted, stats, account⟩ := engine.accountPrefix_eq candidate matched
  unfold admitCandidate
  rw [account]
  unfold cachePrompt
  split
  · exact ⟨accounted, _, _, _, rfl⟩
  · exact ⟨accounted, _, _, _, rfl⟩

/-- An admission changes neither the queue nor the results. -/
theorem admitCandidate_frame :
    (engine.admitCandidate candidate matched).config = engine.config ∧
      (engine.admitCandidate candidate matched).pending = engine.pending ∧
      (engine.admitCandidate candidate matched).results = engine.results ∧
      (engine.admitCandidate candidate matched).preemptedRequests = engine.preemptedRequests ∧
      (engine.admitCandidate candidate matched).active = engine.active ++
        [{ request := candidate, state := .decode, prefixCacheHit := matched.isSome }] := by
  obtain ⟨_, _, _, _, admitted⟩ := engine.admitCandidate_eq candidate matched
  obtain ⟨_, _, cached⟩ := engine.cachePrompt_eq candidate
  rw [admitted, cached]
  exact ⟨rfl, rfl, rfl, rfl, rfl⟩

end Frame

end ContinuousEngine
end InferSched.Engine

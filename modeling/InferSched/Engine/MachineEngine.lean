import InferSched.Engine.AccessStamps
import InferSched.Library.Checked

/-! # The continuous engine on machine numbers

`continuous_engine.cpp` once more, with what the model of `ContinuousEngine` leaves out.
Token counts are `std::size_t`, so the additions, subtractions, multiplications and
divisions of the source are checked; time is a signed number of nanoseconds, so the additions
of `FakeClock::Advance` and to `simulated_busy_time` are checked too; and every eviction sees
the hash maps of the prefix cache in an order of its own. A function here computes what its
namesake does, or faults.
-/

namespace InferSched.Engine

open Library

/-- An order in which a walk sees the maps of the prefix cache. -/
structure Traversal where
  present : List (Sigma fun _ : Text => RadixForest) → List (Sigma fun _ : Text => RadixForest)
  presents : ∀ roots, RadixPrefixCache.Presents roots (present roots)

/-- What the program does not determine: the largest time, and the order of the maps at
each eviction. -/
structure Platform where
  timeMax : ℕ
  order : ℕ → Traversal

namespace Platform

variable {η : Type} (platform : Platform)

/-- `FakeClock::Advance`. -/
def advance (now delta : ℤ) : Checked ℤ :=
  if delta > 0 then Checked.signed platform.timeMax (now + delta) else pure now

/-- `BlocksForTokens`. -/
def blocksForTokens (tokens blockSize : ℕ) : Checked ℕ := do
  let whole ← Checked.div tokens blockSize
  let rest ← Checked.mod tokens blockSize
  Checked.add sizeBits whole (if rest ≠ 0 then 1 else 0)

def impossibleReason (engine : ContinuousEngine η) (request : EngineRequest) :
    Checked (Option Text) := do
  let largest ← Checked.sub sizeMax request.maxOutputTokens
  if request.promptTokens > largest then
    pure (some "token_count_overflow".toList)
  else if request.promptTokens > engine.config.maxBatchTokens then
    pure (some "exceeds_max_batch_tokens".toList)
  else
    let total ← Checked.add sizeBits request.promptTokens request.maxOutputTokens
    let blocks ← blocksForTokens total engine.config.kvBlockSizeTokens
    if blocks > engine.kvCache.totalBlocks then
      pure (some "exceeds_kv_capacity".toList)
    else pure none

/-! ### Evictions -/

def evictOldestOf (cache : RadixPrefixCache) (kvCache : PagedKvCache) :
    Checked (Bool × RadixPrefixCache × PagedKvCache) := do
  let presented ← Checked.choose fun count =>
    (platform.order count).present cache.roots.entries
  pure (cache.evictLeaf kvCache (RadixPrefixCache.searchRoots presented))

def evictOldest (engine : ContinuousEngine η) : Checked (Bool × ContinuousEngine η) := do
  let evicted ← platform.evictOldestOf engine.prefixCache engine.kvCache
  pure (evicted.1, { engine with prefixCache := evicted.2.1, kvCache := evicted.2.2 })

def evictToCapacity :
    ℕ → RadixPrefixCache → PagedKvCache → Checked (RadixPrefixCache × PagedKvCache)
  | 0, cache, kvCache => pure (cache, kvCache)
  | turns + 1, cache, kvCache =>
      if cache.nodeCount > cache.capacity then do
        let evicted ← platform.evictOldestOf cache kvCache
        if evicted.1 then evictToCapacity turns evicted.2.1 evicted.2.2
        else pure (cache, kvCache)
      else pure (cache, kvCache)

def putBlockPrefixes (cache : RadixPrefixCache) (kvCache : PagedKvCache) (cacheNamespace : Text)
    (promptBlockHashes : List Text) (blocks : List BlockId) :
    Checked (ℕ × RadixPrefixCache × PagedKvCache) := do
  let forest := (cache.roots.lookup cacheNamespace).getD .nil
  let put := RadixPrefixCache.putPath (promptBlockHashes.zip blocks) forest
    { kvCache, accessClock := cache.accessClock, nextPinId := cache.nextPinId, inserted := 0 }
  let cache := { cache with
    roots := cache.roots.insert cacheNamespace put.1
    nodeCount := cache.nodeCount + put.2.inserted
    accessClock := put.2.accessClock
    nextPinId := put.2.nextPinId }
  let kept ← platform.evictToCapacity cache.nodeCount cache put.2.kvCache
  pure (put.2.inserted, kept)

/-! ### Admission -/

/-- The hashes that have a block of the prompt. -/
def hashesOf (request : EngineRequest) (promptBlocks : ℕ) : List Text :=
  request.promptBlockHashes.take (min request.promptBlockHashes.length promptBlocks)

/-- The longest cached prefix, looked for only when there are hashes. -/
def matchPrefix (engine : ContinuousEngine η) (candidate : EngineRequest) (hashes : List Text) :
    Option (List BlockId) × ContinuousEngine η :=
  if hashes = [] then (none, engine)
  else
    let found := engine.prefixCache.getLongest (prefixNamespace candidate) hashes
    (found.1, { engine with prefixCache := found.2 })

/-- The loop around `Allocate`. -/
def allocateEvicting (candidate : EngineRequest) (promptBlocks : ℕ) (hashes : List Text) :
    ℕ → Option (List BlockId) → ContinuousEngine η →
      Checked (AllocationStatus × Option (List BlockId) × ContinuousEngine η)
  | 0, matched, engine => pure (.insufficientBlocks, matched, engine)
  | turns + 1, matched, engine =>
      let allocated := engine.kvCache.allocate candidate.requestId promptBlocks (matched.getD [])
      if allocated.1 ≠ .insufficientBlocks then
        pure (allocated.1, matched, { engine with kvCache := allocated.2 })
      else do
        let evicted ← platform.evictOldest engine
        if evicted.1 then
          let again := matchPrefix evicted.2 candidate hashes
          allocateEvicting candidate promptBlocks hashes turns again.1 again.2
        else pure (.insufficientBlocks, matched, engine)

/-- Count a request with hashes once. -/
def accountPrefix (engine : ContinuousEngine η) (candidate : EngineRequest) (hashes : List Text)
    (matched : Option (List BlockId)) : ContinuousEngine η :=
  if hashes ≠ [] ∧ candidate.requestId ∉ engine.prefixAccountedRequests then
    { engine with
      prefixAccountedRequests := insert candidate.requestId engine.prefixAccountedRequests
      stats := { engine.stats with
        prefixCacheRequests := engine.stats.prefixCacheRequests + 1
        prefixCacheRequestHits := engine.stats.prefixCacheRequestHits +
          if matched.isSome then 1 else 0 } }
  else engine

/-- The prefill of a prompt whose first `matchedBlocks` blocks are cached. -/
def runPrefill (engine : ContinuousEngine η) (candidate : EngineRequest)
    (promptBlocks matchedBlocks : ℕ) : Checked (ContinuousEngine η) := do
  let cachedTokens ←
    if matchedBlocks ≥ promptBlocks then pure candidate.promptTokens
    else Checked.mul sizeBits matchedBlocks engine.config.kvBlockSizeTokens
  let uncached ← Checked.sub candidate.promptTokens cachedTokens
  let cost := engine.costModel.prefillCost uncached
  let now ← platform.advance engine.clock cost.1
  let busy ← Checked.signed platform.timeMax (engine.stats.simulatedBusyTime + cost.1)
  pure { engine with
    costModel := cost.2
    clock := now
    stats := { engine.stats with simulatedBusyTime := busy } }

/-- Cache the prompt blocks of an admitted request. -/
def cachePrompt (engine : ContinuousEngine η) (request : EngineRequest) (promptBlocks : ℕ)
    (hashes : List Text) : Checked (ContinuousEngine η) :=
  if request.promptBlockHashes = [] then pure engine
  else do
    let blocks := engine.kvCache.blocksFor request.requestId
    let put ← platform.putBlockPrefixes engine.prefixCache engine.kvCache
      (prefixNamespace request) hashes (blocks.take (min blocks.length promptBlocks))
    pure { engine with prefixCache := put.2.1, kvCache := put.2.2 }

/-- What follows a successful allocation. -/
def admitCandidate (engine : ContinuousEngine η) (candidate : EngineRequest) (promptBlocks : ℕ)
    (hashes : List Text) (matched : Option (List BlockId)) : Checked (ContinuousEngine η) := do
  let engine ← platform.runPrefill (accountPrefix engine candidate hashes matched) candidate
    promptBlocks (matched.getD []).length
  let prefilling := ExecutionState.transitionTo .waitingAdmission .prefilling
  let decoding := prefilling.2.transitionTo .decode
  let engine ← platform.cachePrompt engine candidate promptBlocks hashes
  pure (engine.activate
    { request := candidate, state := decoding.2, prefixCacheHit := matched.isSome })

/-- The rest of a turn of the scan once the result cache has no answer. -/
def tryAdmit (engine : ContinuousEngine η) (candidate : EngineRequest) (scan : Scan) :
    Checked (ContinuousEngine η × Scan) := do
  let promptBlocks ← blocksForTokens candidate.promptTokens engine.config.kvBlockSizeTokens
  let hashes := hashesOf candidate promptBlocks
  let found := matchPrefix engine candidate hashes
  let allocated ← platform.allocateEvicting candidate promptBlocks hashes
    (found.2.prefixCache.nodeCount + 1) found.1 found.2
  if allocated.1 ≠ .allocated then pure (allocated.2.2, scan.defer candidate)
  else
    let admitted ← platform.admitCandidate allocated.2.2 candidate promptBlocks hashes
      allocated.2.1
    let prefillBudget ← Checked.add sizeBits scan.prefillBudget candidate.promptTokens
    pure (admitted,
      { scan with
        prefillBudget
        prefillSequences := scan.prefillSequences + 1
        admittedAny := true })

/-- A turn of the scan from the check of the token budget on. The source evaluates the
second difference only if the batch fits into the first. -/
def checkBudget (engine : ContinuousEngine η) (candidate : EngineRequest) (scan : Scan) :
    Checked Bool := do
  let unspent ← Checked.sub engine.config.maxBatchTokens scan.prefillBudget
  if engine.active.length > unspent then pure false
  else
    let room ← Checked.sub unspent engine.active.length
    pure (decide (candidate.promptTokens ≤ room))

/-- One turn of the scan; `false` ends it. -/
def considerCandidate (engine : ContinuousEngine η) (candidate : EngineRequest) (scan : Scan) :
    Checked (Bool × ContinuousEngine η × Scan) := do
  let reason ← impossibleReason engine candidate
  match reason with
  | some reason => pure (true, engine.reject candidate reason, { scan with admittedAny := true })
  | none =>
      if engine.active ≠ [] ∧ candidate.requestId ∈ engine.preemptedRequests then
        pure (true, engine, scan.defer candidate)
      else if scan.prefillSequences = engine.config.maxPrefillSequencesPerIteration then
        pure (false, engine, scan.defer candidate)
      else
        let fits ← checkBudget engine candidate scan
        if fits = false then pure (true, engine, scan.defer candidate)
        else
          match engine.lookupResult candidate with
          | (some cached, engine) =>
              pure (true, engine.answerCached candidate cached, { scan with admittedAny := true })
          | (none, engine) =>
              let turn ← platform.tryAdmit engine candidate scan
              pure (true, turn)

/-! ### Blocks for the next token -/

/-- The loop of `SelectVictim` from an index on. -/
def selectFrom : List ActiveRequest → ℕ → ActiveRequest → ℕ → Checked ℕ
  | [], _, _, victim => pure victim
  | candidate :: later, index, selected, victim => do
      let candidateRemaining ←
        Checked.sub candidate.request.maxOutputTokens candidate.generatedTokens
      let selectedRemaining ←
        Checked.sub selected.request.maxOutputTokens selected.generatedTokens
      if candidate.request.priority < selected.request.priority ∨
          (candidate.request.priority = selected.request.priority ∧
            candidateRemaining > selectedRemaining) then
        selectFrom later (index + 1) candidate index
      else selectFrom later (index + 1) selected victim

def selectVictim (engine : ContinuousEngine η) : Checked ℕ :=
  match engine.active with
  | [] => pure 0
  | first :: later => selectFrom later 1 first 0

/-- The blocks a sequence needs for its next token. -/
def neededBlocks (engine : ContinuousEngine η) (active : ActiveRequest) : Checked ℕ := do
  let total ← Checked.add sizeBits active.request.promptTokens active.generatedTokens
  let nextTotal ← Checked.add sizeBits total 1
  blocksForTokens nextTotal engine.config.kvBlockSizeTokens

/-- Grow a sequence, evicting prefixes while the free blocks do not suffice. -/
def growEvicting (active : ActiveRequest) (additionalBlocks : ℕ) :
    ℕ → ContinuousEngine η → Checked (AllocationStatus × ContinuousEngine η)
  | 0, engine => pure (.insufficientBlocks, engine)
  | turns + 1, engine =>
      let appended := engine.kvCache.appendBlocks active.request.requestId additionalBlocks
      if appended.1 = .insufficientBlocks then do
        let evicted ← platform.evictOldest engine
        if evicted.1 then growEvicting active additionalBlocks turns evicted.2
        else pure (.insufficientBlocks, engine)
      else pure (appended.1, { engine with kvCache := appended.2 })

/-- A pass of `PrepareDecodeBlocks` over the batch. -/
def preparePass : List ActiveRequest → ContinuousEngine η → Checked (Bool × ContinuousEngine η)
  | [], engine => pure (true, engine)
  | active :: later, engine => do
      let needed ← neededBlocks engine active
      if needed ≤ engine.currentBlocks active then preparePass later engine
      else
        let additional ← Checked.sub needed (engine.currentBlocks active)
        let grown ← platform.growEvicting active additional
          (engine.prefixCache.nodeCount + 1) engine
        if grown.1 = .allocated then preparePass later grown.2 else pure (false, grown.2)

section Queue

variable [RequestQueue η]

/-- Passes from the start of the batch, with a preemption between two of them. -/
def preparePasses : ℕ → ContinuousEngine η → Checked (ContinuousEngine η)
  | 0, engine => pure engine
  | turns + 1, engine => do
      let pass ← platform.preparePass engine.active engine
      if pass.1 then pure pass.2
      else
        let victim ← selectVictim pass.2
        preparePasses turns (pass.2.preempt victim)

def prepareDecodeBlocks (engine : ContinuousEngine η) : Checked (Bool × ContinuousEngine η) := do
  let prepared ← platform.preparePasses (engine.active.length + 1) engine
  pure (decide (prepared.active ≠ []), prepared)

/-- The scan over at most as many requests as were pending when it began. -/
def scanPending : ℕ → ContinuousEngine η → Scan → Checked (ContinuousEngine η × Scan)
  | 0, engine, scan => pure (engine, scan)
  | remaining + 1, engine, scan =>
      if engine.active.length < engine.config.maxBatchSequences then
        match RequestQueue.popReady engine.pending engine.clock with
        | none => pure (engine, scan)
        | some (candidate, rest) => do
            let turn ← platform.considerCandidate { engine with pending := rest } candidate scan
            if turn.1 then scanPending remaining turn.2.1 turn.2.2 else pure turn.2
      else pure (engine, scan)

def admitReady (engine : ContinuousEngine η) : Checked (Bool × ContinuousEngine η) := do
  let scanned ← platform.scanPending (PriorityQueue.size engine.pending) engine {}
  pure (scanned.2.admittedAny, scanned.1.requeue scanned.2.deferred)

/-- The first part of an iteration. -/
def admitAndComplete (engine : ContinuousEngine η) : Checked (Bool × ContinuousEngine η) := do
  let engine := if engine.active = [] then { engine with preemptedRequests := ∅ } else engine
  let admitted ← platform.admitReady engine
  pure (admitted.1, admitted.2.completeFinished)

end Queue

/-! ### Iterations -/

/-- One more token of every sequence, at the given time. -/
def countTokens (now : ℤ) : List ActiveRequest → Checked (List ActiveRequest)
  | [] => pure []
  | active :: later => do
      let generatedTokens ← Checked.add sizeBits active.generatedTokens 1
      let rest ← countTokens now later
      pure ({ active with
        generatedTokens
        firstTokenAt := if generatedTokens = 1 then now else active.firstTokenAt } :: rest)

/-- Decode one token of every sequence of the batch. -/
def decodeBatch (engine : ContinuousEngine η) : Checked (ContinuousEngine η) := do
  let cost := engine.costModel.decodeStep engine.active.length
  let now ← platform.advance engine.clock cost.1
  let busy ← Checked.signed platform.timeMax (engine.stats.simulatedBusyTime + cost.1)
  let active ← countTokens now engine.active
  pure { engine with
    costModel := cost.2
    clock := now
    active
    stats := { engine.stats with
      simulatedBusyTime := busy
      iterations := engine.stats.iterations + 1 } }

/-- The clock at the next arrival. -/
def awaitArrival (engine : ContinuousEngine η) (arrival : ℤ) : Checked (ContinuousEngine η) := do
  let wait ← Checked.signed platform.timeMax (arrival - engine.clock)
  let now ← platform.advance engine.clock wait
  pure { engine with clock := now }

variable [RequestQueue η]

def runOneIteration (engine : ContinuousEngine η) : Checked (Bool × ContinuousEngine η) := do
  let started ← platform.admitAndComplete engine
  if started.2.active = [] then pure started
  else
    let prepared ← platform.prepareDecodeBlocks started.2
    if prepared.1 = false then pure (started.1, prepared.2)
    else
      let decoded ← platform.decodeBatch prepared.2
      pure (true, decoded.completeFinished)

/-- A turn of the loop of `RunUntilIdle` that has something to do; `false` ends the loop. -/
def idleRound (engine : ContinuousEngine η) : Checked (Bool × ContinuousEngine η) := do
  let ran ← platform.runOneIteration engine
  if ran.1 then pure (true, ran.2)
  else
    match RequestQueue.nextArrival ran.2.pending with
    | some arrival =>
        let waited ← platform.awaitArrival ran.2 arrival
        pure (true, waited)
    | none => pure (false, ran.2)

/-- `RunUntilIdle`, given up after so many rounds. -/
def runUntilIdle : ℕ → ContinuousEngine η → Checked (Option (ContinuousEngine η))
  | 0, _ => pure none
  | rounds + 1, engine =>
      if engine.pendingCount = 0 ∧ engine.active = [] then pure (some engine)
      else do
        let round ← platform.idleRound engine
        if round.1 then runUntilIdle rounds round.2 else pure (some round.2)

/-- The calls on an engine; `RunUntilIdle` is a number of its rounds. -/
inductive Call
  | submit (request : EngineRequest)
  | runOneIteration
  | idleRound
  | clearCaches
deriving DecidableEq, Repr

/-- The engine after a call. -/
def respond : Call → ContinuousEngine η → Checked (ContinuousEngine η)
  | .submit request, engine => pure (engine.submit request)
  | .runOneIteration, engine => do
      let ran ← platform.runOneIteration engine
      pure ran.2
  | .idleRound, engine =>
      if engine.pendingCount = 0 ∧ engine.active = [] then pure engine
      else do
        let round ← platform.idleRound engine
        pure round.2
  | .clearCaches, engine => pure engine.clearCaches

/-- The engine after a list of calls. -/
def run : List Call → ContinuousEngine η → Checked (ContinuousEngine η)
  | [], engine => pure engine
  | call :: calls, engine => do
      let next ← platform.respond call engine
      run calls next

end Platform
end InferSched.Engine

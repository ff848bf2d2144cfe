import InferSched.Engine.CostModel
import InferSched.Engine.ExecutionState
import InferSched.Engine.PrefixCache
import InferSched.Engine.ResultCache
import InferSched.Engine.StaticBatchPolicy

/-! # The static batching engine

`DeterministicEngine` (`deterministic_engine.cpp`), function by function. A batch
first rejects the ready requests that can never run, then lets the policy select
requests, answers those whose output is cached, allocates all blocks of the
others that fit, runs them to completion together and removes what is answered
from the pending list. Blocks are never taken back from the prefix cache to make
an allocation fit.
-/

namespace InferSched.Engine

open Library

structure DeterministicEngine where
  config : EngineConfig
  clock : ℤ := 0
  costModel : CostModel
  kvCache : PagedKvCache
  prefixCache : PrefixCache
  resultCache : ResultCache
  policy : StaticBatchPolicy
  pending : List EngineRequest := []
  results : List EngineResult := []

/-- The `ActiveRequest` of `RunOneBatch`, with the pending request its index is
about. -/
structure BatchRequest where
  pendingIndex : ℕ
  request : EngineRequest
  state : ExecutionState := .waitingAdmission
  remainingTokens : ℕ
  prefixCacheHit : Bool
deriving DecidableEq, Repr

/-- The local variables of `RunOneBatch`. -/
structure Batch where
  active : List BatchRequest := []
  completedIndices : List ℕ := []
  uncachedPromptTokens : ℕ := 0
deriving DecidableEq, Repr

namespace DeterministicEngine

/-- The constructor, with the message of the first exception it throws. -/
def new (draws : JitterDraws) (config : EngineConfig) : Except Text DeterministicEngine := do
  let costModel ← CostModel.new config.costModel config.seed draws
  let kvCache ← PagedKvCache.new config.kvBlocks config.kvBlockSizeTokens
  let prefixCache ← PrefixCache.new config.prefixCacheEntries
  let resultCache ← ResultCache.new config.resultCacheEntries
  let policy ← StaticBatchPolicy.new config.maxBatchSequences config.maxBatchTokens
  .ok { config, costModel, kvCache, prefixCache, resultCache, policy }

def pendingCount (engine : DeterministicEngine) : ℕ :=
  engine.pending.length

def submit (engine : DeterministicEngine) (request : EngineRequest) : DeterministicEngine :=
  { engine with pending := engine.pending ++ [request] }

/-- The key of a prompt in the prefix cache. -/
def prefixKey (request : EngineRequest) : Text :=
  let key := appendPart [] request.modelRevision
  let key := appendPart key request.tokenizerRevision
  let key := appendPart key request.promptHash
  key ++ decimal request.promptTokens

/-- `ImpossibleReason`, which reads the configuration and the number of blocks. -/
def impossibleReason (engine : DeterministicEngine) (request : EngineRequest) : Option Text :=
  if request.promptTokens > sizeMax - request.maxOutputTokens then
    some "token_count_overflow".toList
  else if request.promptTokens + request.maxOutputTokens > engine.config.maxBatchTokens then
    some "exceeds_max_batch_tokens".toList
  else if blocksForTokens (request.promptTokens + request.maxOutputTokens)
      engine.config.kvBlockSizeTokens > engine.kvCache.totalBlocks then
    some "exceeds_kv_capacity".toList
  else none

/-! ### Rejection -/

/-- The result of a request that can never run. -/
def reject (engine : DeterministicEngine) (request : EngineRequest) (reason : Text) :
    DeterministicEngine :=
  { engine with
    results := engine.results ++ [{
      requestId := request.requestId
      completedAt := engine.clock
      succeeded := false
      failureReason := reason }] }

/-- The loop of `RejectImpossibleReadyRequests`, with the requests before its
index. -/
def rejectFrom (kept : List EngineRequest) :
    List EngineRequest → DeterministicEngine → Bool × DeterministicEngine
  | [], engine => (false, engine)
  | request :: later, engine =>
      match engine.impossibleReason request with
      | none => rejectFrom (kept ++ [request]) later engine
      | some reason =>
          if request.arrivalTime > engine.clock then rejectFrom (kept ++ [request]) later engine
          else
            (true, (rejectFrom kept later
              { engine.reject request reason with pending := kept ++ later }).2)

def rejectImpossibleReadyRequests (engine : DeterministicEngine) : Bool × DeterministicEngine :=
  rejectFrom [] engine.pending engine

/-! ### The selected requests -/

/-- What the policy sees of a pending request. -/
def policyInput (request : EngineRequest) : PendingRequest where
  requestId := request.requestId
  promptTokens := request.promptTokens
  maxOutputTokens := request.maxOutputTokens
  priority := request.priority
  arrivalTime := request.arrivalTime

/-- The indices of the requests the policy selects. -/
def selected (engine : DeterministicEngine) : List ℕ :=
  engine.policy.select (engine.pending.map policyInput) engine.clock

/-- The blocks of the prompt. -/
def promptBlocks (engine : DeterministicEngine) (request : EngineRequest) : ℕ :=
  blocksForTokens request.promptTokens engine.config.kvBlockSizeTokens

/-- The blocks of the prompt and the output. -/
def requiredBlocks (engine : DeterministicEngine) (request : EngineRequest) : ℕ :=
  blocksForTokens (request.promptTokens + request.maxOutputTokens)
    engine.config.kvBlockSizeTokens

/-- The result of a request whose output is cached. -/
def answerCached (engine : DeterministicEngine) (request : EngineRequest) (cached : Text) :
    DeterministicEngine :=
  { engine with
    results := engine.results ++ [{
      requestId := request.requestId
      output := cached
      completedAt := engine.clock
      resultCacheHit := true }] }

/-- Ask the prefix cache; blocks beyond the prompt are not used. -/
def matchPrefix (engine : DeterministicEngine) (request : EngineRequest) :
    List BlockId × DeterministicEngine :=
  let found := engine.prefixCache.get (prefixKey request)
  (((found.1.filter fun blocks => blocks.length ≤ engine.promptBlocks request).getD []),
    { engine with prefixCache := found.2 })

/-- The batch with an allocated request. -/
def join (engine : DeterministicEngine) (batch : Batch) (index : ℕ) (request : EngineRequest)
    (sharedBlocks : List BlockId) : Batch :=
  let cachedTokens :=
    if sharedBlocks.length ≥ engine.promptBlocks request then request.promptTokens
    else sharedBlocks.length * engine.config.kvBlockSizeTokens
  { batch with
    uncachedPromptTokens := batch.uncachedPromptTokens + (request.promptTokens - cachedTokens)
    active := batch.active ++ [{
      pendingIndex := index
      request
      state := (ExecutionState.transitionTo .waitingAdmission .prefilling).2
      remainingTokens := request.maxOutputTokens
      prefixCacheHit := sharedBlocks ≠ [] }] }

/-- The rest of a turn once the result cache has no answer. -/
def tryAllocate (engine : DeterministicEngine) (batch : Batch) (index : ℕ)
    (request : EngineRequest) : DeterministicEngine × Batch :=
  if request.promptTokens > sizeMax - request.maxOutputTokens then (engine, batch)
  else
    let found := engine.matchPrefix request
    let allocated := found.2.kvCache.allocate request.requestId (engine.requiredBlocks request)
      found.1
    if allocated.1 ≠ .allocated then (found.2, batch)
    else ({ found.2 with kvCache := allocated.2 }, engine.join batch index request found.1)

/-- One turn of the loop over the selected requests. -/
def considerRequest (engine : DeterministicEngine) (batch : Batch) (index : ℕ)
    (request : EngineRequest) : DeterministicEngine × Batch :=
  let found := engine.resultCache.get (resultKey request)
  let engine := { engine with resultCache := found.2 }
  match found.1 with
  | some cached =>
      (engine.answerCached request cached,
        { batch with completedIndices := batch.completedIndices ++ [index] })
  | none => engine.tryAllocate batch index request

/-- The loop over the selected requests. -/
def scanSelected : List ℕ → DeterministicEngine → Batch → DeterministicEngine × Batch
  | [], engine, batch => (engine, batch)
  | index :: later, engine, batch =>
      match engine.pending[index]? with
      | none => scanSelected later engine batch
      | some request =>
          let turn := engine.considerRequest batch index request
          scanSelected later turn.1 turn.2

/-! ### The run of a batch -/

/-- Pay for the prefill of the batch, if there is one. -/
def runPrefill (engine : DeterministicEngine) (batch : Batch) : DeterministicEngine :=
  if batch.active = [] then engine
  else
    let cost := engine.costModel.prefillCost batch.uncachedPromptTokens
    { engine with costModel := cost.2, clock := advance engine.clock cost.1 }

/-- Cache the prompt of a sequence that did not find it cached. -/
def cachePrompt (engine : DeterministicEngine) (item : BatchRequest) : DeterministicEngine :=
  if item.prefixCacheHit = false ∧ item.request.promptTokens > 0 then
    let allBlocks := engine.kvCache.blocksFor item.request.requestId
    let put := engine.prefixCache.put engine.kvCache (prefixKey item.request)
      (allBlocks.take (min (engine.promptBlocks item.request) allBlocks.length))
    { engine with prefixCache := put.2.1, kvCache := put.2.2 }
  else engine

/-- The sequences in the decode state, their prompts cached. -/
def startDecode (engine : DeterministicEngine) (active : List BatchRequest) :
    DeterministicEngine × List BatchRequest :=
  (active.foldl cachePrompt engine,
    active.map fun item => { item with state := (item.state.transitionTo .decode).2 })

/-- The decode loop. Every turn takes a token from each unfinished sequence, so the
largest number of tokens bounds the turns. -/
def decodeLoop : ℕ → DeterministicEngine → List BatchRequest →
    DeterministicEngine × List BatchRequest
  | 0, engine, active => (engine, active)
  | turns + 1, engine, active =>
      if active.any fun item => item.remainingTokens > 0 then
        let cost := engine.costModel.decodeStep
          (active.countP fun item => item.remainingTokens > 0)
        decodeLoop turns
          { engine with costModel := cost.2, clock := advance engine.clock cost.1 }
          (active.map fun item => { item with remainingTokens := item.remainingTokens - 1 })
      else (engine, active)

/-- The largest number of tokens left to a sequence. -/
def decodeTurns (active : List BatchRequest) : ℕ :=
  (active.map BatchRequest.remainingTokens).foldr max 0

/-- The completion of a sequence, apart from its removal from the pending list. -/
def finish (engine : DeterministicEngine) (item : BatchRequest) : DeterministicEngine :=
  let output := simulatedOutput item.request
  { engine with
    resultCache := engine.resultCache.put (resultKey item.request) output
    kvCache := (engine.kvCache.free item.request.requestId).2
    results := engine.results ++ [{
      requestId := item.request.requestId
      output
      completedAt := engine.clock
      prefixCacheHit := item.prefixCacheHit }] }

/-- The sequences completed one after the other. -/
def finishAll (engine : DeterministicEngine) (active : List BatchRequest) : DeterministicEngine :=
  active.foldl finish engine

/-- Erase the completed requests from the pending list, from its end on. -/
def removeCompleted (engine : DeterministicEngine) (completedIndices : List ℕ) :
    DeterministicEngine :=
  { engine with
    pending := (completedIndices.insertionSort (· ≥ ·)).foldl List.eraseIdx engine.pending }

/-- Run the sequences of a batch to their end. -/
def runBatch (engine : DeterministicEngine) (batch : Batch) : DeterministicEngine :=
  let started := (engine.runPrefill batch).startDecode batch.active
  let decoded := decodeLoop (decodeTurns batch.active) started.1 started.2
  (decoded.1.finishAll decoded.2).removeCompleted
    (batch.completedIndices ++ decoded.2.map BatchRequest.pendingIndex)

/-- `RunOneBatch` after the rejections. -/
def runSelected (engine : DeterministicEngine) : Bool × DeterministicEngine :=
  if engine.selected = [] then (false, engine)
  else
    let scanned := scanSelected engine.selected engine {}
    (!(scanned.2.completedIndices ++ scanned.2.active.map BatchRequest.pendingIndex).isEmpty,
      scanned.1.runBatch scanned.2)

def runOneBatch (engine : DeterministicEngine) : Bool × DeterministicEngine :=
  let rejected := engine.rejectImpossibleReadyRequests
  let ran := rejected.2.runSelected
  (rejected.1 || ran.1, ran.2)

/-- The earlier of an arrival found so far and one after `now`. -/
def earlierArrival (now : ℤ) (next : Option ℤ) (request : EngineRequest) : Option ℤ :=
  if request.arrivalTime > now ∧ next.all (fun earliest => request.arrivalTime < earliest) then
    some request.arrivalTime
  else next

/-- The earliest arrival after the clock. -/
def nextFutureArrival (engine : DeterministicEngine) : Option ℤ :=
  engine.pending.foldl (earlierArrival engine.clock) none

/-- The clock at the next arrival. -/
def awaitArrival (engine : DeterministicEngine) (arrival : ℤ) : DeterministicEngine :=
  { engine with clock := advance engine.clock (arrival - engine.clock) }

/-- `RunUntilIdle`, given up after so many rounds. -/
def runUntilIdle : ℕ → DeterministicEngine → Option DeterministicEngine
  | 0, _ => none
  | rounds + 1, engine =>
      if engine.pending = [] then some engine
      else
        let ran := engine.runOneBatch
        if ran.1 then runUntilIdle rounds ran.2
        else
          match ran.2.nextFutureArrival with
          | some arrival => runUntilIdle rounds (ran.2.awaitArrival arrival)
          | none => some ran.2

def clearCaches (engine : DeterministicEngine) : DeterministicEngine :=
  let cleared := engine.prefixCache.clear engine.kvCache
  { engine with prefixCache := cleared.1, kvCache := cleared.2 }

/-- The calls on an engine, and the clock advance between two batches of
`RunUntilIdle`. -/
inductive Call
  | submit (request : EngineRequest)
  | runOneBatch
  | awaitArrival (arrival : ℤ)
  | clearCaches
deriving DecidableEq, Repr

/-- The engine as an object; a batch answers whether it made progress. -/
def object : AtomicObject DeterministicEngine Call (Option Bool) where
  respond call engine :=
    match call with
    | .submit request => (none, engine.submit request)
    | .runOneBatch => Prod.map some id engine.runOneBatch
    | .awaitArrival arrival => (none, engine.awaitArrival arrival)
    | .clearCaches => (none, engine.clearCaches)

end DeterministicEngine
end InferSched.Engine

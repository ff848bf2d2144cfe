import Mathlib.Data.List.AList
import InferSched.Engine.ContinuousEngine
import InferSched.Library.Transition

/-! # The engine service

`EngineService` (`engine_service.cpp`) lets many remote calls share one continuous
engine. Each critical section under the mutex of the service is one step:
`ValidateAndReserve`, `Cancel`, the two halves of `Drain` and the sections of
`WorkerLoop`. The section of a job is under the mutex of that job only, which `Cancel`
does not take: the worker reads the atomic flag `superseded` in one step and sets `done`
in another, and a `Cancel` can come between. Each `Write` to a stream is a step too, and
may fail. Between two steps of the worker any call may take steps of its own. The engine
belongs to the worker alone, so `RunUntilIdle` is one step.

A job is an object that the queue, the batch of the worker and its `Dispatch` call
share; a weak pointer to it has expired once none of the three holds it. Sleeps and
notifications only decide when a step is taken. A service that is destroyed takes
no more calls, so `stop_` is left out.
-/

namespace InferSched.Distributed

open Library Engine

/-! ### Messages -/

/-- The fence of a dispatch: the epoch of its partition and the attempt of its request. -/
structure Fence where
  partitionId : ℤ := 0
  ownershipEpoch : ℕ := 0
  attemptId : ℕ := 0
deriving DecidableEq, Repr, Inhabited

/-- The sampling parameters of a request, with `double` as `Float`. -/
structure SamplingParams where
  maxOutputTokens : ℕ := 0
  temperature : Float := 0.0
  topP : Float := 0.0
  seed : ℕ := 0
deriving Repr, Inhabited

/-- The fields of `infersched.v1.InferenceRequest` that an engine reads. -/
structure InferenceRequest where
  requestId : Text := []
  modelRevision : Text := []
  tokenizerRevision : Text := []
  promptTokens : ℕ := 0
  promptHash : Text := []
  priority : ℕ := 0
  sampling : SamplingParams := {}
  traceId : Text := []
  spanId : Text := []
deriving Repr, Inhabited

/-- The argument of `Dispatch`. -/
structure DispatchRequest where
  request : InferenceRequest := {}
  fence : Fence := {}
deriving Repr, Inhabited

/-- The argument of `Cancel`. -/
structure CancelRequest where
  requestId : Text := []
  fence : Fence := {}
deriving DecidableEq, Repr

/-- The two statuses of an acknowledgement that the service gives. -/
inductive AckStatus
  | accepted
  | rejected
deriving DecidableEq, Repr

/-- The answer to a dispatch, the first message of its stream. -/
structure DispatchAck where
  status : AckStatus := .accepted
  reason : Text := []
deriving DecidableEq, Repr

/-- The kinds of progress of the protocol. The service sends `prefillDone`, `completed` and
`failed`. -/
inductive ProgressKind
  | admitted
  | prefillDone
  | decodeStep
  | preempted
  | completed
  | failed
deriving DecidableEq, Repr

/-- A message about a job, with the fence that it was dispatched under. -/
structure ProgressEvent where
  kind : ProgressKind := .admitted
  requestId : Text := []
  fence : Fence := {}
  tokensGenerated : ℕ := 0
  resultRef : Text := []
  prefixCacheHit : Bool := false
  resultCacheHit : Bool := false
  failureReason : Text := []
  retryable : Bool := false
  traceId : Text := []
  spanId : Text := []
deriving DecidableEq, Repr

/-- A message of the stream that `Dispatch` answers with. -/
inductive DispatchEvent
  | ack (ack : DispatchAck)
  | progress (event : ProgressEvent)
deriving DecidableEq, Repr

/-- A sampling parameter in millionths, the negative ones as zero. -/
def micros (value : Float) : ℕ :=
  ((if 0.0 < value then value else 0.0) * 1000000.0).toUInt64.toNat

/-- The request of a message as the engine takes it. It has no block hashes and has arrived at
time zero. -/
def toEngineRequest (request : InferenceRequest) : EngineRequest where
  requestId := request.requestId
  modelRevision := request.modelRevision
  tokenizerRevision := request.tokenizerRevision
  promptHash := request.promptHash
  promptTokens := request.promptTokens
  maxOutputTokens := request.sampling.maxOutputTokens
  priority := request.priority
  samplingSeed := request.sampling.seed
  temperatureMicros := micros request.sampling.temperature
  topPMicros := micros request.sampling.topP

/-- The acknowledgement of a `Dispatch` call, with the reason of its rejection. -/
def acknowledgement : Option Text → DispatchAck
  | some reason => { status := .rejected, reason }
  | none => { status := .accepted }

/-! ### Jobs -/

/-- What a `Dispatch` call and the worker share of one request. -/
structure Job where
  dispatch : DispatchRequest
  done : Bool := false
  superseded : Bool := false
  result : EngineResult := { requestId := [] }
deriving Repr

/-- Jobs are numbered in the order of their reservation. -/
abbrev JobId := ℕ

namespace Job

/-- The id that a job is registered under. -/
def requestId (job : Job) : Text :=
  job.dispatch.request.requestId

/-- The request that the worker submits for a job. -/
def engineRequest (job : Job) : EngineRequest :=
  toEngineRequest job.dispatch.request

/-- The section of a job in `WorkerLoop` up to its read of `superseded`, which fixes the
result. -/
def settle (newResults : AList fun _ : Text => EngineResult) (job : Job) : Job :=
  let result := (newResults.lookup job.requestId).getD
    { requestId := job.requestId
      succeeded := false
      failureReason := "missing_engine_result".toList }
  let result :=
    if job.superseded then
      { result with succeeded := false, failureReason := "superseded".toList }
    else result
  { job with result }

/-- The rest of the section. -/
def publish (job : Job) : Job :=
  { job with done := true }

/-- The first of the two events of a finished job. -/
def prefillEvent (job : Job) : ProgressEvent where
  kind := .prefillDone
  requestId := job.requestId
  fence := job.dispatch.fence
  traceId := job.dispatch.request.traceId
  spanId := job.dispatch.request.spanId

/-- The last event of a job, `completed` with its output or `failed` with its reason. -/
def terminalEvent (job : Job) : ProgressEvent :=
  let event : ProgressEvent :=
    { requestId := job.requestId
      fence := job.dispatch.fence
      traceId := job.dispatch.request.traceId
      spanId := job.dispatch.request.spanId }
  if job.result.succeeded then
    { event with
      kind := .completed
      tokensGenerated := job.dispatch.request.sampling.maxOutputTokens
      resultRef := job.result.output
      prefixCacheHit := job.result.prefixCacheHit
      resultCacheHit := job.result.resultCacheHit }
  else
    { event with
      kind := .failed
      failureReason := job.result.failureReason
      retryable := decide (job.result.failureReason = "superseded".toList) }

/-- The events that `WriteProgress` writes. -/
def writeProgress (job : Job) : List DispatchEvent :=
  [.progress job.prefillEvent, .progress job.terminalEvent]

end Job

/-! ### The service -/

/-- Where a `Dispatch` call is that was accepted. A call that is `progressing` is between
the two writes of `WriteProgress`. -/
inductive Handler
  | acknowledging
  | waiting
  | progressing
  | returned
deriving DecidableEq, Repr

/-- Where the worker is: it waits for work, it sleeps to let calls gather, or it is
in a loop over its batch, of which it has passed some jobs and not yet others. A worker
that is `releasing` a job has read its flag and not yet set `done`. -/
inductive Worker
  | waiting
  | coalescing
  | submitting (resultOffset : ℕ) (passed ahead : List JobId)
  | publishing (resultOffset : ℕ) (newResults : AList fun _ : Text => EngineResult)
      (passed ahead : List JobId)
  | releasing (resultOffset : ℕ) (newResults : AList fun _ : Text => EngineResult)
      (passed : List JobId) (job : JobId) (ahead : List JobId)

/-- The vector of jobs that the worker holds. -/
def Worker.batch : Worker → List JobId
  | .waiting => []
  | .coalescing => []
  | .submitting _ passed ahead => passed ++ ahead
  | .publishing _ _ passed ahead => passed ++ ahead
  | .releasing _ _ passed job ahead => passed ++ job :: ahead

/-- The results from an offset on, by request id; a later one replaces an earlier. -/
def collectResults (results : List EngineResult) (resultOffset : ℕ) :
    AList fun _ : Text => EngineResult :=
  (results.drop resultOffset).foldl
    (fun newResults result => newResults.insert result.requestId result) ∅

/-- The member variables of the service, with its engine and worker, the jobs there are, and the
calls that have not returned. -/
structure EngineService (η : Type) where
  queueCapacity : ℕ
  queue : List JobId := []
  partitionEpochs : AList fun _ : ℤ => ℕ := ∅
  requestAttempts : AList fun _ : Text => ℕ := ∅
  liveJobs : AList fun _ : Text => JobId := ∅
  draining : Bool := false
  runningJobs : ℕ := 0
  engine : ContinuousEngine η
  worker : Worker := .waiting
  jobs : JobId → Job := fun _ => { dispatch := {} }
  created : ℕ := 0
  handlers : JobId → Handler := fun _ => .returned
  drainsWaiting : ℕ := 0

namespace EngineService

variable {η : Type}

/-- Some pointer to a job is left. -/
def held (service : EngineService η) (job : JobId) : Bool :=
  decide (job ∈ service.queue) || decide (job ∈ service.worker.batch) ||
    decide (service.handlers job ≠ .returned)

/-- The live job of a request, unless its pointer has expired. -/
def lockLive (service : EngineService η) (requestId : Text) : Option JobId :=
  (service.liveJobs.lookup requestId).filter service.held

/-- The reason of a rejection, if any, and the service afterwards. -/
def validateAndReserve (service : EngineService η) (request : DispatchRequest) (job : JobId) :
    Option Text × EngineService η :=
  if service.draining then (some "draining".toList, service)
  else if service.queue.length ≥ service.queueCapacity then (some "queue_full".toList, service)
  else if (service.partitionEpochs.lookup request.fence.partitionId).any
      fun current => decide (request.fence.ownershipEpoch < current) then
    (some "stale_ownership_epoch".toList, service)
  else
    let service := { service with
      partitionEpochs :=
        service.partitionEpochs.insert request.fence.partitionId request.fence.ownershipEpoch }
    if (service.requestAttempts.lookup request.request.requestId).any
        fun current => decide (request.fence.attemptId ≤ current) then
      (some "stale_or_duplicate_attempt".toList, service)
    else if (service.lockLive request.request.requestId).isSome then
      (some "request_already_in_flight".toList, service)
    else
      (none, { service with
        requestAttempts :=
          service.requestAttempts.insert request.request.requestId request.fence.attemptId
        liveJobs := service.liveJobs.insert request.request.requestId job
        queue := service.queue ++ [job] })

/-- `Dispatch` up to its acknowledgement. The job of a rejected call is dropped. -/
def dispatch (service : EngineService η) (request : DispatchRequest) :
    DispatchAck × EngineService η :=
  let reserved := service.validateAndReserve request service.created
  (acknowledgement reserved.1,
    if reserved.1.isSome then reserved.2
    else
      { reserved.2 with
        jobs := Function.update service.jobs service.created { dispatch := request }
        handlers := Function.update service.handlers service.created .acknowledging
        created := service.created + 1 })

/-- The acknowledgement is written; if the stream is closed, the call returns. -/
def acknowledge (service : EngineService η) (job : JobId) (written : Bool) : EngineService η :=
  { service with
    handlers := Function.update service.handlers job (if written then .waiting else .returned) }

/-- The call has come to another point. -/
def moveHandler (service : EngineService η) (job : JobId) (handler : Handler) : EngineService η :=
  { service with handlers := Function.update service.handlers job handler }

/-- The job that is superseded, for which the reply is `accepted`. -/
def cancel (service : EngineService η) (request : CancelRequest) :
    Option JobId × EngineService η :=
  match service.lockLive request.requestId with
  | none => (none, service)
  | some job =>
      if (service.jobs job).dispatch.fence.ownershipEpoch = request.fence.ownershipEpoch ∧
          (service.jobs job).dispatch.fence.attemptId = request.fence.attemptId then
        (some job, { service with
          jobs := Function.update service.jobs job { service.jobs job with superseded := true } })
      else (none, service)

/-- The worker moves the queue to its batch. -/
def take (service : EngineService η) : EngineService η :=
  { service with
    queue := []
    runningJobs := service.runningJobs + service.queue.length
    worker := .submitting service.engine.results.length [] service.queue }

/-- Erase a job of the batch from the live jobs, if it is the one there. -/
def unregisterJob (service : EngineService η) (job : JobId) : EngineService η :=
  if service.lockLive (service.jobs job).requestId = some job then
    { service with liveJobs := service.liveJobs.erase (service.jobs job).requestId }
  else service

/-- The last section of `WorkerLoop`, after which the batch is gone. -/
def unregister (service : EngineService η) (batch : List JobId) : EngineService η :=
  { batch.foldl unregisterJob
      { service with runningJobs := service.runningJobs - batch.length } with
    worker := .waiting }

variable [RequestQueue η]

/-- The constructor, with the message of the first exception it throws. -/
def new (draws : JitterDraws) (config : EngineConfig) (queueCapacity : ℕ) :
    Except Text (EngineService η) := do
  let engine ← ContinuousEngine.new draws config
  return { queueCapacity, engine }

end EngineService

/-- The steps of the calls and of the worker, with what they reply or write. -/
inductive Action
  | dispatch (request : DispatchRequest) (ack : DispatchAck)
  | acknowledge (job : JobId) (written : Bool)
  | writePrefill (job : JobId) (event : ProgressEvent) (written : Bool)
  | writeTerminal (job : JobId) (event : ProgressEvent) (written : Bool)
  | cancel (request : CancelRequest) (target : Option JobId)
  | drain
  | drained
  | wake
  | take
  | submit (job : JobId)
  | run
  | settle (job : JobId)
  | publish (job : JobId)
  | unregister

/-- The steps of the worker. -/
def Action.ofWorker : Action → Bool
  | .wake | .take | .submit _ | .run | .settle _ | .publish _ | .unregister => true
  | _ => false

variable {η : Type} [RequestQueue η]

/-- One step of a call or of the worker. -/
inductive Step : EngineService η → Action → EngineService η → Prop
  | dispatch (service : EngineService η) (request : DispatchRequest) :
      Step service (.dispatch request (service.dispatch request).1) (service.dispatch request).2
  | acknowledge {service : EngineService η} {job : JobId} (written : Bool)
      (phase : service.handlers job = .acknowledging) :
      Step service (.acknowledge job written) (service.acknowledge job written)
  | writePrefill {service : EngineService η} {job : JobId} (written : Bool)
      (phase : service.handlers job = .waiting) (done : (service.jobs job).done = true) :
      Step service (.writePrefill job (service.jobs job).prefillEvent written)
        (service.moveHandler job .progressing)
  | writeTerminal {service : EngineService η} {job : JobId} (written : Bool)
      (phase : service.handlers job = .progressing) :
      Step service (.writeTerminal job (service.jobs job).terminalEvent written)
        (service.moveHandler job .returned)
  | cancel (service : EngineService η) (request : CancelRequest) :
      Step service (.cancel request (service.cancel request).1) (service.cancel request).2
  | drain (service : EngineService η) :
      Step service .drain
        { service with draining := true, drainsWaiting := service.drainsWaiting + 1 }
  | drained {service : EngineService η} (waiting : 0 < service.drainsWaiting)
      (empty : service.queue = []) (idle : service.runningJobs = 0) :
      Step service .drained { service with drainsWaiting := service.drainsWaiting - 1 }
  | wake {service : EngineService η} (phase : service.worker = .waiting)
      (work : service.queue ≠ []) : Step service .wake { service with worker := .coalescing }
  | take {service : EngineService η} (phase : service.worker = .coalescing) :
      Step service .take service.take
  | submit {service : EngineService η} {resultOffset : ℕ} {passed ahead : List JobId} {job : JobId}
      (phase : service.worker = .submitting resultOffset passed (job :: ahead)) :
      Step service (.submit job)
        { service with
          engine := service.engine.submit (service.jobs job).engineRequest
          worker := .submitting resultOffset (passed ++ [job]) ahead }
  | run {service : EngineService η} {resultOffset : ℕ} {passed : List JobId} {rounds : ℕ}
      {engine : ContinuousEngine η} (phase : service.worker = .submitting resultOffset passed [])
      (ran : ContinuousEngine.runUntilIdle rounds service.engine = some engine) :
      Step service .run
        { service with
          engine
          worker := .publishing resultOffset (collectResults engine.results resultOffset) []
            passed }
  | settle {service : EngineService η} {resultOffset : ℕ}
      {newResults : AList fun _ : Text => EngineResult} {passed ahead : List JobId} {job : JobId}
      (phase : service.worker = .publishing resultOffset newResults passed (job :: ahead)) :
      Step service (.settle job)
        { service with
          jobs := Function.update service.jobs job ((service.jobs job).settle newResults)
          worker := .releasing resultOffset newResults passed job ahead }
  | publish {service : EngineService η} {resultOffset : ℕ}
      {newResults : AList fun _ : Text => EngineResult} {passed ahead : List JobId} {job : JobId}
      (phase : service.worker = .releasing resultOffset newResults passed job ahead) :
      Step service (.publish job)
        { service with
          jobs := Function.update service.jobs job (service.jobs job).publish
          worker := .publishing resultOffset newResults (passed ++ [job]) ahead }
  | unregister {service : EngineService η} {resultOffset : ℕ}
      {newResults : AList fun _ : Text => EngineResult} {passed : List JobId}
      (phase : service.worker = .publishing resultOffset newResults passed []) :
      Step service .unregister (service.unregister passed)

end InferSched.Distributed

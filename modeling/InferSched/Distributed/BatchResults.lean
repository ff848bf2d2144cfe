import InferSched.Distributed.JobRegister
import InferSched.Engine.IdleRuns

/-! # The results of a batch

What links the worker of an engine service to its engine. The engine is idle
between batches, while a batch is submitted it holds exactly the jobs submitted so
far, and after the run every job of the batch finds a result of its own among the
results that are new since the batch was taken.
-/

namespace InferSched.Distributed

open Library Engine

variable {η : Type} [RequestQueue η]

/-! ### What a step leaves alone -/

/-- A call touches neither the worker nor its engine. -/
theorem Step.of_call {service next : EngineService η} {action : Action}
    (step : Step service action next) (call : action.ofWorker = false) :
    next.worker = service.worker ∧ next.engine = service.engine := by
  cases step with
  | dispatch request =>
      rcases service.dispatch_cases request with ⟨_, _, isRejected, _⟩ | ⟨_, isAccepted⟩
      · rw [isRejected]
        exact ⟨rfl, rfl⟩
      · rw [isAccepted]
        exact ⟨rfl, rfl⟩
  | acknowledge written phase => exact ⟨rfl, rfl⟩
  | writePrefill written phase done => exact ⟨rfl, rfl⟩
  | writeTerminal written phase => exact ⟨rfl, rfl⟩
  | cancel request =>
      rcases service.cancel_cases request with isNone | ⟨job, _, isSome⟩
      · rw [isNone]
        exact ⟨rfl, rfl⟩
      · rw [isSome]
        exact ⟨rfl, rfl⟩
  | drain => exact ⟨rfl, rfl⟩
  | drained waiting empty idle => exact ⟨rfl, rfl⟩
  | _ => cases call

theorem Step.queueCapacity_eq {service next : EngineService η} {action : Action}
    (step : Step service action next) (registered : service.Registered) :
    next.queueCapacity = service.queueCapacity := by
  cases step with
  | dispatch request =>
      rcases service.dispatch_cases request with ⟨_, _, isRejected, _⟩ | ⟨_, isAccepted⟩
      · rw [isRejected]
      · rw [isAccepted]
        rfl
  | cancel request =>
      rcases service.cancel_cases request with isNone | ⟨job, _, isSome⟩
      · rw [isNone]
      · rw [isSome]
        rfl
  | unregister phase =>
      obtain ⟨_, live, isNext⟩ := registered.unregister phase
      rw [isNext]
  | _ => rfl

/-! ### The results of a batch -/

/-- Keys that are not inserted keep their value. -/
theorem lookup_collect_of_notMem (results : List EngineResult) {requestId : Text}
    (absent : requestId ∉ results.map EngineResult.requestId)
    (first : AList fun _ : Text => EngineResult) :
    (results.foldl (fun newResults result => newResults.insert result.requestId result)
      first).lookup requestId = first.lookup requestId := by
  induction results generalizing first with
  | nil => rfl
  | cons result rest ih =>
      rw [List.map_cons, List.mem_cons, not_or] at absent
      rw [List.foldl_cons, ih absent.2, AList.lookup_insert_ne absent.1]

/-- Results of different requests do not replace each other. -/
theorem lookup_collect (results : List EngineResult)
    (distinct : (results.map EngineResult.requestId).Nodup) {result : EngineResult}
    (member : result ∈ results) (first : AList fun _ : Text => EngineResult) :
    (results.foldl (fun newResults result => newResults.insert result.requestId result)
      first).lookup result.requestId = some result := by
  induction results generalizing first with
  | nil => cases member
  | cons head rest ih =>
      rw [List.map_cons, List.nodup_cons] at distinct
      rw [List.foldl_cons]
      rcases List.mem_cons.mp member with rfl | later
      · rw [lookup_collect_of_notMem rest distinct.1, AList.lookup_insert]
      · exact ih distinct.2 later _

/-- Results that belong to requests have their ids. -/
theorem ids_of_belongs {answered : List EngineRequest} {results : List EngineResult}
    (belongs : List.Forall₂ EngineResult.BelongsTo answered results) :
    results.map EngineResult.requestId = answered.map EngineRequest.requestId := by
  induction belongs with
  | nil => rfl
  | cons first _ ih => rw [List.map_cons, List.map_cons, first.1, ih]

theorem exists_result_of_belongs {answered : List EngineRequest} {results : List EngineResult}
    (belongs : List.Forall₂ EngineResult.BelongsTo answered results) {request : EngineRequest}
    (member : request ∈ answered) : ∃ result ∈ results, result.BelongsTo request := by
  induction belongs with
  | nil => cases member
  | @cons head result _ _ first _ ih =>
      rcases List.mem_cons.mp member with rfl | later
      · exact ⟨result, List.mem_cons_self, first⟩
      · obtain ⟨other, isOther, belongsTo⟩ := ih later
        exact ⟨other, List.mem_cons_of_mem _ isOther, belongsTo⟩

namespace EngineService

/-- What a worker finds for the jobs of its batch: a result of each, new since the
batch was taken. -/
def Found (service : EngineService η) (resultOffset : ℕ)
    (newResults : AList fun _ : Text => EngineResult) (job : JobId) : Prop :=
  ∃ result ∈ service.engine.results.drop resultOffset,
    newResults.lookup (service.jobs job).requestId = some result ∧
    result.BelongsTo (service.jobs job).engineRequest

/-- What the engine of a service holds at each place of the worker. -/
def Progress (service : EngineService η) : Worker → Prop
  | .waiting => (Moment.rest service.engine).unanswered = 0
  | .coalescing => (Moment.rest service.engine).unanswered = 0
  | .submitting resultOffset passed _ =>
      (Moment.rest service.engine).unanswered =
        ContinuousEngine.tickets (passed.map fun job => (service.jobs job).engineRequest) ∧
      service.engine.results.length = resultOffset
  | .publishing resultOffset newResults passed ahead =>
      (Moment.rest service.engine).unanswered = 0 ∧
      ∀ job ∈ passed ++ ahead, service.Found resultOffset newResults job
  | .releasing resultOffset newResults passed job ahead =>
      (Moment.rest service.engine).unanswered = 0 ∧
      ∀ other ∈ passed ++ job :: ahead, service.Found resultOffset newResults other

/-- The engine may be given requests, and it holds those of the batch that were
submitted. -/
structure Linked (service : EngineService η) : Prop where
  ready : service.engine.Ready
  progress : service.Progress service.worker

omit [RequestQueue η] in
theorem Found.congr {service next : EngineService η} {resultOffset : ℕ}
    {newResults : AList fun _ : Text => EngineResult} {job : JobId}
    (found : service.Found resultOffset newResults job) (engine : next.engine = service.engine)
    (dispatch : (next.jobs job).dispatch = (service.jobs job).dispatch) :
    next.Found resultOffset newResults job := by
  unfold Found Job.requestId Job.engineRequest
  rw [engine, dispatch]
  exact found

theorem Progress.congr {service next : EngineService η} {worker : Worker}
    (progress : service.Progress worker) (engine : next.engine = service.engine)
    (jobs : ∀ job ∈ worker.batch, (next.jobs job).dispatch = (service.jobs job).dispatch) :
    next.Progress worker := by
  cases worker with
  | waiting =>
      unfold Progress
      rw [engine]
      exact progress
  | coalescing =>
      unfold Progress
      rw [engine]
      exact progress
  | submitting resultOffset passed ahead =>
      obtain ⟨held, length⟩ := progress
      unfold Progress
      rw [engine]
      refine ⟨held.trans ?_, length⟩
      congr 1
      apply List.map_congr_left
      intro job member
      unfold Job.engineRequest
      rw [jobs job (List.mem_append_left _ member)]
  | publishing resultOffset newResults passed ahead =>
      obtain ⟨idle, all⟩ := progress
      unfold Progress
      rw [engine]
      exact ⟨idle, fun job member => (all job member).congr engine (jobs job member)⟩
  | releasing resultOffset newResults passed job ahead =>
      obtain ⟨idle, all⟩ := progress
      unfold Progress
      rw [engine]
      exact ⟨idle, fun other member => (all other member).congr engine (jobs other member)⟩

/-- The results of a run belong to the jobs of the batch, one to each. -/
theorem Linked.found {service : EngineService η} (linked : service.Linked)
    (registered : service.Registered) {resultOffset rounds : ℕ} {passed : List JobId}
    {engine : ContinuousEngine η} (phase : service.worker = .submitting resultOffset passed [])
    (ran : ContinuousEngine.runUntilIdle rounds service.engine = some engine) :
    engine.Ready ∧ (Moment.rest engine).unanswered = 0 ∧
      ∀ job ∈ passed, ∃ result ∈ engine.results.drop resultOffset,
        (collectResults engine.results resultOffset).lookup (service.jobs job).requestId =
          some result ∧
        result.BelongsTo (service.jobs job).engineRequest := by
  have progress := linked.progress
  rw [phase] at progress
  obtain ⟨held, length⟩ := progress
  obtain ⟨ready, idle, answered, new, appended, split, belongs⟩ :=
    linked.ready.runUntilIdle_answers held ran
  refine ⟨ready, idle, ?_⟩
  have isNew : engine.results.drop resultOffset = new := by
    rw [appended, ← length, List.drop_left]
  have order : answered.Perm
      ((passed.map fun job => (service.jobs job).engineRequest).map EngineRequest.ticket) :=
    Multiset.coe_eq_coe.mp split
  have ids : (new.map EngineResult.requestId).Perm
      (passed.map fun job => (service.jobs job).requestId) := by
    rw [ids_of_belongs belongs]
    refine (order.map _).trans (List.Perm.of_eq ?_)
    rw [List.map_map, List.map_map]
    rfl
  have distinct : (new.map EngineResult.requestId).Nodup := by
    have once := (List.nodup_append.mp registered.once).2.1
    rw [phase] at once
    have isBatch : ∀ job ∈ passed, job ∈ service.registered := by
      intro job member
      apply List.mem_append_right
      rw [phase]
      exact List.mem_append_left _ member
    refine ids.nodup_iff.mpr (List.Nodup.map_on ?_ (List.append_nil passed ▸ once))
    intro job member other also same
    exact registered.requestId_inj (isBatch job member) (isBatch other also) same
  intro job member
  have among : (service.jobs job).engineRequest.ticket ∈ answered :=
    order.mem_iff.mpr (List.mem_map_of_mem (List.mem_map_of_mem member))
  obtain ⟨result, isResult, belongsTo⟩ := exists_result_of_belongs belongs among
  refine ⟨result, ?_, ?_, belongsTo⟩
  · rw [isNew]
    exact isResult
  · unfold collectResults
    rw [isNew]
    rw [← show result.requestId = (service.jobs job).requestId from belongsTo.1]
    exact lookup_collect new distinct isResult ∅

theorem Linked.step {service next : EngineService η} {action : Action} (linked : service.Linked)
    (registered : service.Registered) (step : Step service action next) : next.Linked := by
  have kept : ∀ job ∈ service.worker.batch,
      (next.jobs job).dispatch = (service.jobs job).dispatch := fun job member =>
    step.dispatch_eq registered (registered.known job (List.mem_append_right _ member))
  have progress := linked.progress
  by_cases call : action.ofWorker = false
  · obtain ⟨worker, engine⟩ := step.of_call call
    refine ⟨by rw [engine]; exact linked.ready, ?_⟩
    rw [worker]
    exact progress.congr engine kept
  · cases step with
    | wake phase work =>
        rw [phase] at progress
        exact ⟨linked.ready, progress⟩
    | take phase =>
        rw [phase] at progress
        exact ⟨linked.ready, progress, rfl⟩
    | submit phase =>
        rw [phase] at progress
        obtain ⟨held, length⟩ := progress
        refine ⟨linked.ready.submit _, ?_, length⟩
        rw [ContinuousEngine.unanswered_submit, held, List.map_append,
          ContinuousEngine.tickets_append, add_comm]
        rfl
    | run phase ran =>
        obtain ⟨ready, idle, found⟩ := linked.found registered phase ran
        exact ⟨ready, idle, found⟩
    | @settle resultOffset newResults passed ahead job phase =>
        rw [phase] at progress
        have moved : service.Progress (.releasing resultOffset newResults passed job ahead) :=
          progress
        exact ⟨linked.ready, moved.congr rfl fun other _ =>
          update_dispatch service.jobs (by rfl) other⟩
    | @publish resultOffset newResults passed ahead job phase =>
        rw [phase] at progress
        have moved : service.Progress
            (.publishing resultOffset newResults (passed ++ [job]) ahead) := by
          obtain ⟨idle, all⟩ := progress
          refine ⟨idle, ?_⟩
          rw [List.append_assoc]
          exact all
        exact ⟨linked.ready, moved.congr rfl fun other _ =>
          update_dispatch service.jobs (by rfl) other⟩
    | unregister phase =>
        rw [phase] at progress
        obtain ⟨_, live, isNext⟩ := registered.unregister phase
        rw [isNext]
        exact ⟨linked.ready, progress.1⟩
    | _ => exact absurd rfl call

theorem Linked.new {draws : JitterDraws} {config : EngineConfig} {queueCapacity : ℕ}
    {service : EngineService η} (accepted : new draws config queueCapacity = .ok service) :
    service.Linked := by
  obtain ⟨engine, made, rfl⟩ := new_eq_ok accepted
  obtain ⟨ready, idle⟩ := ContinuousEngine.Ready.new made
  exact ⟨ready, idle⟩

/-- The service in every state that its calls and its worker can reach. -/
theorem reachable {draws : JitterDraws} {config : EngineConfig} {queueCapacity : ℕ}
    {start service : EngineService η} {past : List Action}
    (accepted : EngineService.new draws config queueCapacity = .ok start)
    (trace : Trace Step start past service) : service.Registered ∧ service.Linked := by
  refine @Trace.invariant _ _ _ _ _ (fun service => service.Registered ∧ service.Linked) ?_ _ trace
    ⟨Registered.new accepted, Linked.new accepted⟩
  rintro before action after ⟨registered, linked⟩ step
  exact ⟨registered.step step, linked.step registered step⟩

end EngineService

end InferSched.Distributed

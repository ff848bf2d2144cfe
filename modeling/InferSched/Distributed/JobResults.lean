import InferSched.Distributed.Reservations

/-! # The results of jobs

Every accepted job gets one result, over every interleaving of calls and worker
steps. The worker publishes it once, it was computed in the batch that took the job
from the queue, and it belongs to the request of the job. While a job is without a
result the worker can take a step, and a bounded number of its steps is enough.
-/

namespace InferSched.Distributed

open Library Engine

variable {η : Type}

/-- The job whose flag the worker has read and which it is about to release. -/
def Worker.releases : Worker → Option JobId
  | .releasing _ _ _ job _ => some job
  | _ => none

namespace EngineService

/-- The result of a job is fixed: the worker has read whether it is superseded. -/
def settled (service : EngineService η) (job : JobId) : Bool :=
  (service.jobs job).done || decide (service.worker.releases = some job)

/-- The offset that the worker remembers while it has a batch. -/
def resultOffset? (service : EngineService η) : Option ℕ :=
  match service.worker with
  | .waiting => none
  | .coalescing => none
  | .submitting resultOffset _ _ => some resultOffset
  | .publishing resultOffset _ _ _ => some resultOffset
  | .releasing resultOffset _ _ _ _ => some resultOffset

/-- A bound on the steps of the worker until a job has its result. A job in the
queue waits for the rest of the running batch and for a batch of its own. -/
def stepsLeft (job : JobId) (service : EngineService η) : ℕ :=
  let next := 3 * service.queueCapacity + 3
  match service.worker with
  | .waiting => next
  | .coalescing => next - 1
  | .submitting _ passed ahead =>
      ahead.length + 1 + 2 * (passed ++ ahead).length +
        if job ∈ service.queue then 1 + next else 0
  | .publishing _ _ _ ahead => 2 * ahead.length + if job ∈ service.queue then 1 + next else 0
  | .releasing _ _ _ _ ahead => 2 * ahead.length + 1 + if job ∈ service.queue then 1 + next else 0

theorem Registered.stepsLeft_le {service : EngineService η} (registered : service.Registered)
    (job : JobId) : service.stepsLeft job ≤ 6 * service.queueCapacity + 5 := by
  have batched := registered.batched
  unfold stepsLeft
  dsimp only
  split
  · omega
  · omega
  · next phase =>
      rw [phase] at batched
      unfold Worker.batch at batched
      rw [List.length_append] at batched ⊢
      split <;> omega
  · next phase =>
      rw [phase] at batched
      unfold Worker.batch at batched
      rw [List.length_append] at batched
      split <;> omega
  · next phase =>
      rw [phase] at batched
      unfold Worker.batch at batched
      rw [List.length_append, List.length_cons] at batched
      split <;> omega

variable [RequestQueue η]

/-! ### Once -/

/-- The publications of a job are counted by its flag. -/
theorem published_count {draws : JitterDraws} {config : EngineConfig} {queueCapacity : ℕ}
    {start service : EngineService η} {past : List Action}
    (made : new draws config queueCapacity = .ok start) (trace : Trace Step start past service)
    (job : JobId) :
    past.countP (Action.publishes job) = if (service.jobs job).done then 1 else 0 := by
  refine (@Trace.history _ _ _ _ _ (fun past service => service.Registered ∧
    past.countP (Action.publishes job) = if (service.jobs job).done then 1 else 0) ?_ _ trace ?_).2
  · rintro past before action after ⟨registered, counted⟩ step
    refine ⟨registered.step step, ?_⟩
    rw [List.countP_append, List.countP_singleton, counted]
    rw [step.done_eq registered job]
    cases publishes : action.publishes job with
    | false => rw [Bool.or_false]; rfl
    | true =>
        have waiting : (before.jobs job).done = false := by
          cases step with
          | publish phase =>
              cases of_decide_eq_true publishes
              exact (registered.undone_releasing phase).2
          | _ => cases publishes
        rw [waiting]
        rfl
  · refine ⟨Registered.new made, ?_⟩
    obtain ⟨engine, _, rfl⟩ := new_eq_ok made
    rfl

/-! ### In its own batch -/

/-- A worker with a batch has just taken it or had it before. -/
theorem Linked.batch_cases {service next : EngineService η} {action : Action} {resultOffset : ℕ}
    (linked : service.Linked) (step : Step service action next)
    (batched : next.resultOffset? = some resultOffset) :
    (action = .take ∧ next = service.take) ∨
    action ≠ .take ∧ service.resultOffset? = some resultOffset ∧
      next.worker.batch = service.worker.batch ∧
      service.engine.results <+: next.engine.results := by
  by_cases call : action.ofWorker = false
  · obtain ⟨worker, engine⟩ := step.of_call call
    unfold resultOffset? at batched ⊢
    rw [worker] at batched
    rw [worker, engine]
    refine Or.inr ⟨?_, batched, rfl, List.prefix_rfl⟩
    rintro rfl
    cases call
  · cases step with
    | take phase => exact Or.inl ⟨rfl, rfl⟩
    | submit phase =>
        unfold resultOffset?
        rw [phase]
        exact Or.inr ⟨Action.noConfusion, batched, List.append_assoc _ _ _, List.prefix_rfl⟩
    | run phase ran =>
        have progress := linked.progress
        rw [phase] at progress
        obtain ⟨_, _, _, new, appended, _⟩ := linked.ready.runUntilIdle_answers progress.1 ran
        unfold resultOffset?
        rw [phase]
        exact Or.inr ⟨Action.noConfusion, batched, (List.append_nil _).symm, new, appended.symm⟩
    | settle phase =>
        unfold resultOffset?
        rw [phase]
        exact Or.inr ⟨Action.noConfusion, batched, rfl, List.prefix_rfl⟩
    | publish phase =>
        unfold resultOffset?
        rw [phase]
        exact Or.inr ⟨Action.noConfusion, batched, List.append_assoc _ _ _, List.prefix_rfl⟩
    | wake phase work => cases batched
    | unregister phase => cases batched
    | _ => exact absurd rfl call

/-- The batch of the worker was taken at some earlier step, and the results are
those of then and new ones. -/
def Taken (start : EngineService η) (past : List Action) (service : EngineService η)
    (resultOffset : ℕ) : Prop :=
  ∃ first rest taking,
    past = first ++ .take :: rest ∧ .take ∉ rest ∧ Trace Step start first taking ∧
    Step taking .take taking.take ∧ Trace Step taking.take rest service ∧
    taking.queue = service.worker.batch ∧ taking.engine.results.length = resultOffset ∧
    taking.engine.results <+: service.engine.results

theorem Taken.step {start service next : EngineService η} {past : List Action} {action : Action}
    {resultOffset : ℕ} (trace : Trace Step start past service)
    (taken : ∀ resultOffset, service.resultOffset? = some resultOffset →
      Taken start past service resultOffset)
    (linked : service.Linked) (step : Step service action next)
    (batched : next.resultOffset? = some resultOffset) :
    Taken start (past ++ [action]) next resultOffset := by
  rcases linked.batch_cases step batched with ⟨rfl, rfl⟩ | ⟨other, before, batch, grown⟩
  · cases batched
    exact ⟨past, [], service, rfl, List.not_mem_nil, trace, step, .nil, rfl, rfl, List.prefix_rfl⟩
  · obtain ⟨first, rest, taking, isPast, none, toTaking, takes, since, isBatch, isOffset, older⟩ :=
      taken resultOffset before
    refine ⟨first, rest ++ [action], taking, ?_, ?_, toTaking, takes, since.snoc step, ?_, isOffset,
      older.trans grown⟩
    · rw [isPast, List.append_assoc, List.cons_append]
    · rw [List.mem_append, List.mem_singleton, not_or]
      exact ⟨none, other.symm⟩
    · rw [batch]
      exact isBatch

theorem taken_of_batched {draws : JitterDraws} {config : EngineConfig} {queueCapacity : ℕ}
    {start service : EngineService η} {past : List Action}
    (made : new draws config queueCapacity = .ok start) (trace : Trace Step start past service)
    {resultOffset : ℕ} (batched : service.resultOffset? = some resultOffset) :
    Taken start past service resultOffset := by
  induction trace generalizing resultOffset with
  | nil =>
      obtain ⟨engine, _, rfl⟩ := new_eq_ok made
      cases batched
  | snoc earlier last ih =>
      exact Taken.step earlier (fun _ => ih) (reachable made earlier).2 last batched

/-- A job gets a result that is new since its batch was taken and belongs to its
request; the one for a missing result is not needed. -/
theorem publish_own {draws : JitterDraws} {config : EngineConfig} {queueCapacity : ℕ}
    {start service : EngineService η} {past : List Action} {job : JobId}
    (made : new draws config queueCapacity = .ok start) (trace : Trace Step start past service)
    {resultOffset : ℕ} {newResults : AList fun _ : Text => EngineResult}
    {passed ahead : List JobId}
    (phase : service.worker = .publishing resultOffset newResults passed (job :: ahead)) :
    ∃ first rest taking new result,
      past = first ++ .take :: rest ∧ .take ∉ rest ∧ Trace Step start first taking ∧
      Step taking .take taking.take ∧ Trace Step taking.take rest service ∧ job ∈ taking.queue ∧
      service.engine.results = taking.engine.results ++ new ∧ result ∈ new ∧
      result.BelongsTo (service.jobs job).engineRequest ∧
      newResults.lookup (service.jobs job).requestId = some result := by
  have batched : service.resultOffset? = some resultOffset := by
    unfold resultOffset?
    rw [phase]
  obtain ⟨first, rest, taking, isPast, none, toTaking, takes, since, isBatch, isOffset, new,
    appended⟩ := taken_of_batched made trace batched
  have member : job ∈ service.worker.batch := by
    rw [phase]
    exact List.mem_append_right _ List.mem_cons_self
  have progress := (reachable made trace).2.progress
  rw [phase] at progress member
  obtain ⟨result, isNew, found, belongs⟩ := progress.2 job member
  rw [← appended, ← isOffset, List.drop_left] at isNew
  refine ⟨first, rest, taking, new, result, isPast, none, toTaking, takes, since, ?_,
    appended.symm, isNew, belongs, found⟩
  rw [isBatch, phase]
  exact member

/-! ### In bounded time -/

/-- A call leaves the queued jobs and appends at most a new one. -/
theorem mem_queue_of_call {service next : EngineService η} {action : Action} {job : JobId}
    (step : Step service action next) (call : action.ofWorker = false)
    (isCreated : job < service.created) : job ∈ next.queue ↔ job ∈ service.queue := by
  cases step with
  | dispatch request =>
      rcases service.dispatch_cases request with ⟨_, _, isRejected, _⟩ | ⟨_, isAccepted⟩
      · rw [isRejected]
      · rw [isAccepted]
        unfold accept
        dsimp only
        rw [List.mem_append, List.mem_singleton]
        exact or_iff_left (Nat.ne_of_lt isCreated)
  | cancel request =>
      rcases service.cancel_cases request with isNone | ⟨target, _, isSome⟩
      · rw [isNone]
      · rw [isSome]
        rfl
  | acknowledge written phase => exact Iff.rfl
  | writePrefill written phase done => exact Iff.rfl
  | writeTerminal written phase => exact Iff.rfl
  | drain => exact Iff.rfl
  | drained waiting empty idle => exact Iff.rfl
  | _ => cases call

/-- A step of the worker brings the result of a job nearer, and a call does not put
it off. -/
theorem Registered.stepsLeft_step {service next : EngineService η} {action : Action} {job : JobId}
    (registered : service.Registered) (isCreated : job < service.created)
    (step : Step service action next) : (next.jobs job).done = true ∨
      next.stepsLeft job + (if action.ofWorker then 1 else 0) ≤ service.stepsLeft job := by
  by_cases call : action.ofWorker = false
  · right
    obtain ⟨worker, _⟩ := step.of_call call
    have queued := mem_queue_of_call step call isCreated
    unfold stepsLeft
    rw [worker, step.queueCapacity_eq registered, call]
    simp only [queued]
    exact Nat.le_refl _
  · rw [Bool.not_eq_false] at call
    rw [call]
    cases step with
    | wake phase work =>
        right
        unfold stepsLeft
        rw [phase]
        exact Nat.le_refl _
    | take phase =>
        right
        have queued := registered.queued
        unfold stepsLeft EngineService.take
        rw [phase]
        simp only [List.nil_append, List.not_mem_nil, ↓reduceIte]
        omega
    | submit phase =>
        right
        unfold stepsLeft
        rw [phase]
        simp only [List.length_append, List.length_cons, List.length_nil, ↓reduceIte]
        omega
    | run phase ran =>
        right
        unfold stepsLeft
        rw [phase]
        simp only [List.append_nil, List.length_nil, ↓reduceIte]
        omega
    | settle phase =>
        right
        unfold stepsLeft
        rw [phase]
        simp only [List.length_cons, ↓reduceIte]
        omega
    | publish phase =>
        right
        unfold stepsLeft
        rw [phase]
        simp only [↓reduceIte]
        omega
    | unregister phase =>
        obtain ⟨_, live, isNext⟩ := registered.unregister phase
        rw [isNext]
        by_cases queued : job ∈ service.queue
        · right
          unfold stepsLeft
          rw [phase]
          simp only [queued, List.length_nil, ↓reduceIte]
          omega
        · left
          -- the batch is published, so a job that is not queued has its result
          by_contra undone
          have unfinished := (registered.waiting job isCreated).mp (Bool.not_eq_true _ ▸ undone)
          unfold EngineService.unfinished at unfinished
          rw [phase] at unfinished
          exact queued (List.append_nil service.queue ▸ unfinished)
    | _ => cases call

/-- While a job waits for its result, the worker is not stuck. -/
theorem worker_enabled {service : EngineService η} (registered : service.Registered)
    (linked : service.Linked) {job : JobId} (isCreated : job < service.created)
    (waiting : (service.jobs job).done = false) :
    ∃ action next, action.ofWorker = true ∧ Step service action next := by
  have unfinished := (registered.waiting job isCreated).mp waiting
  unfold EngineService.unfinished at unfinished
  cases phase : service.worker with
  | waiting =>
      refine ⟨_, _, rfl, Step.wake phase ?_⟩
      intro empty
      rw [empty, phase] at unfinished
      cases unfinished
  | coalescing => exact ⟨_, _, rfl, Step.take phase⟩
  | submitting resultOffset passed ahead =>
      cases ahead with
      | nil =>
          obtain ⟨rounds, engine, ran⟩ := linked.ready.runUntilIdle_some
          exact ⟨_, _, rfl, Step.run phase ran⟩
      | cons next ahead => exact ⟨_, _, rfl, Step.submit phase⟩
  | publishing resultOffset newResults passed ahead =>
      cases ahead with
      | nil => exact ⟨_, _, rfl, Step.unregister phase⟩
      | cons next ahead => exact ⟨_, _, rfl, Step.settle phase⟩
  | releasing resultOffset newResults passed job ahead =>
      exact ⟨_, _, rfl, Step.publish phase⟩

/-- More steps of the worker than the bound are enough for every job. -/
theorem done_within {service final : EngineService η} {later : List Action} {job : JobId}
    (registered : service.Registered) (isCreated : job < service.created)
    (trace : Trace Step service later final)
    (enough : 6 * service.queueCapacity + 5 < later.countP Action.ofWorker) :
    (final.jobs job).done = true := by
  refine @Trace.reaches _ _ _ _ _
    (fun service : EngineService η => service.Registered ∧ job < service.created)
    (fun service => (service.jobs job).done = true) (stepsLeft job) Action.ofWorker ?_ ?_ ?_ _ trace
    ⟨registered, isCreated⟩ ((registered.stepsLeft_le job).trans_lt enough)
  · rintro before action after ⟨here, known⟩ step
    exact ⟨here.step step, lt_of_lt_of_le known (step.created_le here)⟩
  · rintro before action after ⟨here, known⟩ step done
    rw [step.done_eq here, done, Bool.true_or]
  · rintro before action after ⟨here, known⟩ step
    exact here.stepsLeft_step known step

/-! ### Results of their own -/

/-- A job is settled once the worker has read its flag. -/
theorem settled_step {service next : EngineService η} {action : Action}
    (step : Step service action next) (registered : service.Registered) (job : JobId) :
    next.settled job = (service.settled job || action.settles job) := by
  unfold settled
  rw [step.done_eq registered job]
  by_cases call : action.ofWorker = false
  · have quiet : action.publishes job = false ∧ action.settles job = false := by
      cases step <;> first | exact ⟨rfl, rfl⟩ | cases call
    rw [(step.of_call call).1, quiet.1, quiet.2, Bool.or_false, Bool.or_false]
  · cases step with
    | settle phase =>
        rw [phase]
        simp [Worker.releases, Action.publishes, Action.settles]
    | publish phase =>
        rw [phase]
        simp [Worker.releases, Action.publishes, Action.settles]
    | unregister phase =>
        obtain ⟨_, live, isNext⟩ := registered.unregister phase
        rw [isNext, phase]
        simp [Worker.releases, Action.publishes, Action.settles]
    | take phase =>
        rw [phase]
        simp [Worker.releases, Action.publishes, Action.settles, EngineService.take]
    | wake phase _ | submit phase | run phase _ =>
        rw [phase]
        simp [Worker.releases, Action.publishes, Action.settles]
    | _ => exact absurd rfl call

omit [RequestQueue η] in
/-- The worker reads the flag of a job whose result is still open. -/
theorem Registered.unsettled {service : EngineService η} (registered : service.Registered)
    {resultOffset : ℕ} {newResults : AList fun _ : Text => EngineResult}
    {passed ahead : List JobId} {job : JobId}
    (phase : service.worker = .publishing resultOffset newResults passed (job :: ahead)) :
    service.settled job = false := by
  unfold settled
  rw [(registered.undone_publishing phase).2, phase]
  rfl

omit [RequestQueue η] in
theorem Registered.known_of_settled {service : EngineService η} (registered : service.Registered)
    {job : JobId} (settled : service.settled job = true) : job < service.created := by
  rcases Bool.or_eq_true_iff.mp settled with done | releases
  · by_contra fresh
    rw [registered.fresh job (Nat.not_lt.mp fresh)] at done
    cases done
  · apply registered.known
    apply List.mem_append_right
    have isReleased := of_decide_eq_true releases
    unfold Worker.releases at isReleased
    split at isReleased
    · next phase =>
        cases isReleased
        rw [phase]
        exact List.mem_append_right _ List.mem_cons_self
    · cases isReleased

/-- The result of a settled job does not change. -/
theorem Registered.settled_kept {service next : EngineService η} {action : Action} {job : JobId}
    (registered : service.Registered) (step : Step service action next)
    (settled : service.settled job = true) :
    (next.jobs job).result = (service.jobs job).result ∧
      (next.jobs job).dispatch = (service.jobs job).dispatch := by
  refine ⟨?_, step.dispatch_eq registered (registered.known_of_settled settled)⟩
  rcases step.job_cases registered job with ⟨same, _⟩ | ⟨_, _, isNew, _⟩ |
    ⟨_, _, _, superseded⟩ | ⟨_, _, _, _, _, phase, _⟩ | ⟨_, _, _, _, _, _, published⟩
  · rw [same]
  · exact absurd isNew (Nat.ne_of_lt (registered.known_of_settled settled))
  · rw [superseded]
  · rw [registered.unsettled phase] at settled
    cases settled
  · rw [published]
    rfl

/-- A job becomes settled when the worker reads its flag. -/
theorem settles_of_unsettled {service next : EngineService η} {action : Action} {job : JobId}
    (registered : service.Registered) (step : Step service action next)
    (already : service.settled job = false) (settled : next.settled job = true) :
    ∃ resultOffset newResults passed ahead, action = .settle job ∧
      service.worker = .publishing resultOffset newResults passed (job :: ahead) ∧
      next.jobs job = (service.jobs job).settle newResults := by
  rw [settled_step step registered, already, Bool.false_or] at settled
  rcases step.job_cases registered job with ⟨_, _, _, quiet⟩ | ⟨_, rfl, _⟩ | ⟨_, rfl, _⟩ |
    settles | ⟨_, _, _, _, rfl, _⟩
  · rw [quiet] at settled
    cases settled
  · cases settled
  · cases settled
  · exact settles
  · cases settled

/-- The result that the worker fixes keeps the id, and a superseded job has no output. -/
theorem belongsTo_settle {job : Job} {newResults : AList fun _ : Text => EngineResult}
    {result : EngineResult} (found : newResults.lookup job.requestId = some result)
    (belongs : result.BelongsTo job.engineRequest) :
    (job.settle newResults).result.BelongsTo (job.settle newResults).engineRequest := by
  have isResult : (job.settle newResults).result =
      if job.superseded then
        { result with succeeded := false, failureReason := "superseded".toList }
      else result := by
    unfold Job.settle
    rw [found]
    rfl
  rw [isResult]
  split
  · exact ⟨belongs.1, Bool.noConfusion⟩
  · exact belongs

theorem settled_belongs {draws : JitterDraws} {config : EngineConfig} {queueCapacity : ℕ}
    {start service : EngineService η} {past : List Action}
    (made : new draws config queueCapacity = .ok start) (trace : Trace Step start past service)
    (job : JobId) (settled : service.settled job = true) :
    (service.jobs job).result.BelongsTo (service.jobs job).engineRequest := by
  induction trace with
  | nil =>
      obtain ⟨engine, _, rfl⟩ := new_eq_ok made
      cases settled
  | @snoc past before after action earlier step ih =>
      obtain ⟨registered, linked⟩ := reachable made earlier
      cases already : before.settled job with
      | true =>
          obtain ⟨result, dispatch⟩ := registered.settled_kept step already
          unfold Job.engineRequest
          rw [result, dispatch]
          exact ih already
      | false =>
          obtain ⟨resultOffset, newResults, passed, ahead, _, phase, isSettled⟩ :=
            settles_of_unsettled registered step already settled
          have progress := linked.progress
          rw [phase] at progress
          obtain ⟨result, _, found, belongs⟩ :=
            progress.2 job (List.mem_append_right _ List.mem_cons_self)
          rw [isSettled]
          exact belongsTo_settle found belongs

omit [RequestQueue η] in
theorem settled_of_done {service : EngineService η} {job : JobId}
    (done : (service.jobs job).done = true) : service.settled job = true := by
  unfold settled
  rw [done, Bool.true_or]

theorem done_belongs {draws : JitterDraws} {config : EngineConfig} {queueCapacity : ℕ}
    {start service : EngineService η} {past : List Action}
    (made : new draws config queueCapacity = .ok start) (trace : Trace Step start past service)
    (job : JobId) (done : (service.jobs job).done = true) :
    (service.jobs job).result.BelongsTo (service.jobs job).engineRequest :=
  settled_belongs made trace job (settled_of_done done)

/-- **Results.** The accepted requests are the jobs, each of which is published once
it is done and once only, with a result that belongs to its own request. The worker
finds that result among those new since it took the job from the queue, so no result
is missing. It can always go on while a job is not done, and a bounded number of its
steps finishes every job. -/
theorem jobs_finished_once {draws : JitterDraws} {config : EngineConfig} {queueCapacity : ℕ}
    {start service : EngineService η} {past : List Action}
    (made : EngineService.new draws config queueCapacity = .ok start)
    (trace : Trace Step start past service) :
    accepted past = (List.range service.created).map (fun job => (service.jobs job).dispatch) ∧
      (∀ job, past.countP (Action.publishes job) = if (service.jobs job).done then 1 else 0) ∧
      (∀ job, (service.jobs job).done = true →
        (service.jobs job).result.BelongsTo (service.jobs job).engineRequest) ∧
      (∀ job resultOffset newResults passed ahead,
        service.worker = .publishing resultOffset newResults passed (job :: ahead) →
        ∃ first rest taking new result,
          past = first ++ .take :: rest ∧ .take ∉ rest ∧ Trace Step start first taking ∧
          Step taking .take taking.take ∧ Trace Step taking.take rest service ∧ job ∈ taking.queue ∧
          service.engine.results = taking.engine.results ++ new ∧ result ∈ new ∧
          result.BelongsTo (service.jobs job).engineRequest ∧
          newResults.lookup (service.jobs job).requestId = some result) ∧
      (∀ job < service.created, (service.jobs job).done = false →
        ∃ action next, action.ofWorker = true ∧ Step service action next) ∧
      ∀ job < service.created, ∀ later final, Trace Step service later final →
        6 * queueCapacity + 5 < later.countP Action.ofWorker → (final.jobs job).done = true := by
  obtain ⟨registered, linked⟩ := reachable made trace
  have capacity := (Fenced.run made trace).2
  refine ⟨accepted_eq made trace, published_count made trace, done_belongs made trace, ?_, ?_, ?_⟩
  · intro job resultOffset newResults passed ahead phase
    exact publish_own made trace phase
  · intro job isCreated waiting
    exact worker_enabled registered linked isCreated waiting
  · intro job isCreated later final further enough
    exact done_within registered isCreated further (by rw [capacity]; exact enough)

/-- Two requests are run in one batch, and the first is then run once more in a batch of
its own, whose results start at offset 2. -/
theorem jobs_finished_once_batches :
    ∃ (start collected service : EngineService (SelectionQueue EngineRequest))
      (past later : List Action) (newResults : AList fun _ : Text => EngineResult)
      (result : EngineResult),
      EngineService.new (fun _ _ _ => 0) { kvBlocks := 4 } 2 = .ok start ∧
      Trace Step start past collected ∧
      (∃ resultOffset, resultOffset = 2 ∧
        collected.worker = .publishing resultOffset newResults [] [2]) ∧
      newResults.lookup (collected.jobs 2).requestId = some result ∧
      result.BelongsTo (collected.jobs 2).engineRequest ∧
      Trace Step start later service ∧ past <+: later ∧ service.created = 3 ∧
      (∀ job < 3, (service.jobs job).done = true ∧ (service.jobs job).result.succeeded = true) ∧
      (∀ job, later.countP (Action.publishes job) = if (service.jobs job).done then 1 else 0) ∧
      ∀ job, (service.jobs job).done = true →
        (service.jobs job).result.BelongsTo (service.jobs job).engineRequest := by
  have accepted := (Trace.single (Step.dispatch small (attempt 1))).snoc
    (Step.dispatch _ { attempt 1 with request := { requestId := ['b'], promptTokens := 3 } })
  have taken := (accepted.snoc (Step.wake rfl (by decide +kernel))).snoc (Step.take rfl)
  have ran := ((taken.snoc (Step.submit rfl)).snoc (Step.submit rfl)).snoc
    (@Step.run _ _ _ _ _ 5 _ rfl (Option.some_get (by decide +kernel)).symm)
  have first := (ran.snoc (Step.settle rfl)).snoc (Step.publish rfl)
  have second := (first.snoc (Step.settle rfl)).snoc (Step.publish rfl)
  have again := (second.snoc (Step.unregister rfl)).snoc (Step.dispatch _ (attempt 2))
  have retaken := (again.snoc (Step.wake rfl (by decide +kernel))).snoc (Step.take rfl)
  have collected := (retaken.snoc (Step.submit rfl)).snoc
    (@Step.run _ _ _ _ _ 3 _ rfl (Option.some_get (by decide +kernel)).symm)
  have released := (collected.snoc (Step.settle rfl)).snoc (Step.publish rfl)
  obtain ⟨_, _, _, own, _⟩ := jobs_finished_once new_small collected
  obtain ⟨_, _, _, _, result, _, _, _, _, _, _, _, _, belongs, found⟩ := own 2 _ _ [] [] rfl
  obtain ⟨_, counted, finished, _⟩ := jobs_finished_once new_small released
  refine ⟨small, _, _, _, _, _, result, new_small, collected, ⟨_, ?_, rfl⟩, found, belongs,
    released, (List.prefix_append _ _).trans (List.prefix_append _ _), by decide +kernel,
    by decide +kernel, counted, finished⟩
  decide +kernel

end EngineService
end InferSched.Distributed

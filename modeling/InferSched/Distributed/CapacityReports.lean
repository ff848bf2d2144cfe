import InferSched.Distributed.DispatchStream
import InferSched.Distributed.RouterService
import InferSched.Engine.HashlessRequests

/-! # Capacity reports

`Capacity` (`engine_service.cpp`) tells an engine's load: the queue and the running jobs under
the mutex, and the free blocks that the worker stored last. The worker stores them after
`RunUntilIdle` and before it publishes the results, without the mutex, so a report can come
between the run and the store.

No report ever shows the use of the cache. The worker reads the free blocks of an idle engine,
and the requests of the service have no block hashes, so no prefix stays cached either.
-/

namespace InferSched.Distributed

open Library Engine

def Action.runs : Action → Bool
  | .run => true
  | _ => false

/-- A service with the counts of blocks that only `Capacity` reads. -/
structure ReportingService (η : Type) where
  service : EngineService η
  totalKvBlocks : ℕ
  freeKvBlocks : ℕ
  storing : Bool := false

namespace ReportingService

variable {η : Type}

/-- The message that an engine registers and sends with its heartbeats, of fields of 32 bits. -/
def capacity (reporting : ReportingService η) : EngineCapacity where
  totalKvBlocks := reporting.totalKvBlocks % 2 ^ 32
  freeKvBlocks := reporting.freeKvBlocks % 2 ^ 32
  runningSeqs := reporting.service.runningJobs % 2 ^ 32
  waitingSeqs := reporting.service.queue.length % 2 ^ 32
  batchHeadroom :=
    (if reporting.service.queueCapacity > reporting.service.queue.length then
      reporting.service.queueCapacity - reporting.service.queue.length else 0) % 2 ^ 32

/-- The worker stores the free blocks of its engine. -/
def store (reporting : ReportingService η) : ReportingService η :=
  { reporting with
    freeKvBlocks := reporting.service.engine.kvCache.freeBlocks
    storing := false }

variable [RequestQueue η]

/-- The constructor, with the message of the first exception it throws. -/
def new (draws : JitterDraws) (config : EngineConfig) (queueCapacity : ℕ) :
    Except Text (ReportingService η) := do
  let service ← EngineService.new draws config queueCapacity
  return { service, totalKvBlocks := config.kvBlocks, freeKvBlocks := config.kvBlocks }

/-- A step of the service, the store, or a call of `Capacity` with its reply. -/
inductive Event
  | act (action : Action)
  | store
  | report (capacity : EngineCapacity)

def Event.action? : Event → Option Action
  | .act action => some action
  | _ => none

/-- The steps of the service among the events. -/
def actions (past : List Event) : List Action :=
  past.filterMap Event.action?

/-- One event. The worker does nothing else between a run and its store. -/
inductive Step : ReportingService η → Event → ReportingService η → Prop
  | act {reporting : ReportingService η} {action : Action} {next : EngineService η}
      (step : Distributed.Step reporting.service action next)
      (turn : action.ofWorker = true → reporting.storing = false) :
      Step reporting (.act action)
        { reporting with service := next, storing := reporting.storing || action.runs }
  | store {reporting : ReportingService η} (storing : reporting.storing = true) :
      Step reporting .store reporting.store
  | report (reporting : ReportingService η) :
      Step reporting (.report reporting.capacity) reporting

end ReportingService

/-! ### Jobs without a result -/

def Action.isPublish : Action → Bool
  | .publish _ => true
  | _ => false

namespace EngineService

variable {η : Type} [RequestQueue η]

/-- A step opens the job that it accepts and closes the one that it publishes. -/
theorem Registered.unfinished_step {service next : EngineService η} {action : Action}
    (registered : service.Registered) (step : Step service action next) :
    next.unfinished.length + (if action.isPublish then 1 else 0) =
      service.unfinished.length + action.accepted?.toList.length := by
  cases step with
  | dispatch request =>
      rcases service.dispatch_cases request with ⟨_, _, isRejected, _⟩ | ⟨_, isAccepted⟩
      · rw [isRejected]
        rfl
      · rw [isAccepted]
        simp [unfinished, EngineService.accept, Action.isPublish, Action.accepted?]
        omega
  | cancel request =>
      rcases service.cancel_cases request with isNone | ⟨job, _, isSome⟩
      · rw [isNone]
        rfl
      · rw [isSome]
        rfl
  | wake phase work =>
      simp [unfinished, Worker.unpublished, phase, Action.isPublish, Action.accepted?]
  | take phase =>
      simp [unfinished, EngineService.take, Worker.unpublished, phase, Action.isPublish,
        Action.accepted?]
  | submit phase =>
      simp [unfinished, Worker.unpublished, phase, Action.isPublish, Action.accepted?]
  | run phase ran =>
      simp [unfinished, Worker.unpublished, phase, Action.isPublish, Action.accepted?]
  | settle phase =>
      simp [unfinished, Worker.unpublished, phase, Action.isPublish, Action.accepted?]
  | publish phase =>
      simp [unfinished, Worker.unpublished, phase, Action.isPublish, Action.accepted?]
      omega
  | unregister phase =>
      obtain ⟨_, live, isNext⟩ := registered.unregister phase
      rw [isNext]
      simp [unfinished, Worker.unpublished, phase, Action.isPublish, Action.accepted?]
  | _ => rfl

/-- The accepted jobs are the published and the unfinished ones. -/
theorem unfinished_count {draws : JitterDraws} {config : EngineConfig} {queueCapacity : ℕ}
    {start service : EngineService η} {past : List Action}
    (made : new draws config queueCapacity = .ok start) (trace : Trace Step start past service) :
    service.unfinished.length + past.countP Action.isPublish = (accepted past).length := by
  refine (@Trace.history _ _ _ _ _ (fun past service => service.Registered ∧
    service.unfinished.length + past.countP Action.isPublish = (accepted past).length)
    ?_ _ trace ?_).2
  · rintro past before action after ⟨registered, counted⟩ step
    refine ⟨registered.step step, ?_⟩
    have moved := registered.unfinished_step step
    rw [List.countP_append, List.countP_singleton, accepted_snoc, List.length_append]
    omega
  · refine ⟨Registered.new made, ?_⟩
    obtain ⟨engine, _, rfl⟩ := new_eq_ok made
    rfl

/-! ### The engine between the steps -/

/-- Only the worker touches the engine: it submits the requests of jobs and runs it. -/
theorem Registered.engine_cases {service next : EngineService η} {action : Action}
    (registered : service.Registered) (step : Step service action next) :
    (next.engine = service.engine ∧ action.runs = false) ∨
    (∃ job, next.engine = service.engine.submit (service.jobs job).engineRequest ∧
      action.runs = false) ∨
    ∃ rounds, ContinuousEngine.runUntilIdle rounds service.engine = some next.engine ∧
      action = .run := by
  cases step with
  | submit phase => exact Or.inr (Or.inl ⟨_, rfl, rfl⟩)
  | run phase ran => exact Or.inr (Or.inr ⟨_, ran, rfl⟩)
  | unregister phase =>
      obtain ⟨_, live, isNext⟩ := registered.unregister phase
      rw [isNext]
      exact Or.inl ⟨rfl, rfl⟩
  | dispatch request =>
      exact Or.inl ⟨(Step.of_call (Step.dispatch service request) rfl).2, rfl⟩
  | cancel request =>
      exact Or.inl ⟨(Step.of_call (Step.cancel service request) rfl).2, rfl⟩
  | _ => exact Or.inl ⟨rfl, rfl⟩

end EngineService

namespace ReportingService

variable {η : Type} [RequestQueue η]

theorem new_eq_ok {draws : JitterDraws} {config : EngineConfig} {queueCapacity : ℕ}
    {reporting : ReportingService η} (accepted : new draws config queueCapacity = .ok reporting) :
    ∃ service, EngineService.new draws config queueCapacity = .ok service ∧
      reporting =
        { service, totalKvBlocks := config.kvBlocks, freeKvBlocks := config.kvBlocks } := by
  unfold new at accepted
  obtain ⟨service, made, accepted⟩ := exists_of_bind_eq_ok accepted
  cases accepted
  exact ⟨service, made, rfl⟩

/-- The service of a run of events takes the steps among them. -/
theorem service_trace {start reporting : ReportingService η} {past : List Event}
    (trace : Trace Step start past reporting) :
    Trace Distributed.Step start.service (actions past) reporting.service := by
  induction trace with
  | nil => exact .nil
  | snoc earlier last ih =>
      rw [actions, List.filterMap_append]
      cases last with
      | act step turn => exact ih.snoc step
      | store storing =>
          change Trace _ _ (actions _ ++ []) _
          rw [List.append_nil]
          exact ih
      | report =>
          change Trace _ _ (actions _ ++ []) _
          rw [List.append_nil]
          exact ih

/-- What the stored count tells of the engine. -/
structure Sound (reporting : ReportingService η) : Prop where
  registered : reporting.service.Registered
  linked : reporting.service.Linked
  hashless : (Moment.rest reporting.service.engine).Hashless
  total : reporting.service.engine.kvCache.totalBlocks = reporting.totalKvBlocks
  stored : reporting.freeKvBlocks = reporting.totalKvBlocks
  storing : reporting.storing = true →
    reporting.service.engine.kvCache.freeBlocks = reporting.totalKvBlocks

theorem Sound.act {reporting : ReportingService η} {action : Action} {next : EngineService η}
    (sound : reporting.Sound) (step : Distributed.Step reporting.service action next) :
    Sound
      { reporting with service := next, storing := reporting.storing || action.runs } := by
  have registered := sound.registered.step step
  have linked := sound.linked.step sound.registered step
  rcases sound.registered.engine_cases step with ⟨same, quiet⟩ | ⟨job, submitted, quiet⟩ |
    ⟨rounds, ran, rfl⟩
  · refine ⟨registered, linked, ?_, ?_, sound.stored, ?_⟩
    · dsimp only
      rw [same]
      exact sound.hashless
    · dsimp only
      rw [same]
      exact sound.total
    · dsimp only
      rw [same, quiet, Bool.or_false]
      exact sound.storing
  · refine ⟨registered, linked, ?_, ?_, sound.stored, ?_⟩
    · dsimp only
      rw [submitted]
      exact ContinuousEngine.hashless_submit sound.hashless rfl
    · dsimp only
      rw [submitted]
      exact sound.total
    · dsimp only
      rw [submitted, quiet, Bool.or_false]
      exact sound.storing
  · obtain ⟨hashless, total, free⟩ := sound.linked.ready.frees sound.hashless ran
    exact ⟨registered, linked, hashless, total.trans sound.total, sound.stored,
      fun _ => free.trans sound.total⟩

theorem Sound.step {reporting next : ReportingService η} {event : Event}
    (sound : reporting.Sound) (step : Step reporting event next) : next.Sound := by
  cases step with
  | act step turn => exact sound.act step
  | store storing =>
      exact ⟨sound.registered, sound.linked, sound.hashless, sound.total, sound.storing storing,
        nofun⟩
  | report => exact sound

theorem Sound.new {draws : JitterDraws} {config : EngineConfig} {queueCapacity : ℕ}
    {reporting : ReportingService η} (made : new draws config queueCapacity = .ok reporting) :
    reporting.Sound := by
  obtain ⟨service, isService, rfl⟩ := new_eq_ok made
  have registered := EngineService.Registered.new isService
  have linked := EngineService.Linked.new isService
  obtain ⟨engine, isEngine, rfl⟩ := EngineService.new_eq_ok isService
  obtain ⟨_, total, _⟩ := ContinuousEngine.Invariant.new isEngine
  exact ⟨registered, linked, ContinuousEngine.hashless_new isEngine, total, rfl, nofun⟩

/-- What a service replies to `Capacity` at one moment. -/
theorem Sound.capacity_eq {reporting : ReportingService η} (sound : reporting.Sound)
    (small : reporting.totalKvBlocks < 2 ^ 32) :
    reporting.capacity =
      { totalKvBlocks := reporting.totalKvBlocks
        freeKvBlocks := reporting.totalKvBlocks
        runningSeqs := reporting.service.worker.batch.length % 2 ^ 32
        waitingSeqs := reporting.service.queue.length % 2 ^ 32
        batchHeadroom :=
          (reporting.service.queueCapacity - reporting.service.queue.length) % 2 ^ 32 } := by
  have headroom : (if reporting.service.queueCapacity > reporting.service.queue.length then
      reporting.service.queueCapacity - reporting.service.queue.length else 0) =
      reporting.service.queueCapacity - reporting.service.queue.length := by
    split
    · rfl
    · next full => exact (Nat.sub_eq_zero_of_le (not_lt.mp full)).symm
  unfold capacity
  rw [headroom, sound.stored, sound.registered.running, Nat.mod_eq_of_lt small]

/-- The sizes that a report counts against. -/
theorem Step.sizes_eq {reporting next : ReportingService η} {event : Event}
    (step : Step reporting event next) (sound : reporting.Sound) :
    next.totalKvBlocks = reporting.totalKvBlocks ∧
      next.service.queueCapacity = reporting.service.queueCapacity := by
  cases step with
  | act step turn => exact ⟨rfl, step.queueCapacity_eq sound.registered⟩
  | store storing => exact ⟨rfl, rfl⟩
  | report => exact ⟨rfl, rfl⟩

theorem reachable {draws : JitterDraws} {config : EngineConfig} {queueCapacity : ℕ}
    {start reporting : ReportingService η} {past : List Event}
    (made : new draws config queueCapacity = .ok start) (trace : Trace Step start past reporting) :
    reporting.Sound ∧ reporting.totalKvBlocks = config.kvBlocks ∧
      reporting.service.queueCapacity = queueCapacity := by
  refine @Trace.invariant _ _ _ _ _ (fun reporting => reporting.Sound ∧
    reporting.totalKvBlocks = config.kvBlocks ∧
    reporting.service.queueCapacity = queueCapacity) ?_ _ trace ⟨Sound.new made, ?_⟩
  · rintro before event after ⟨sound, blocks, places⟩ step
    obtain ⟨sameBlocks, samePlaces⟩ := step.sizes_eq sound
    exact ⟨sound.step step, sameBlocks.trans blocks, samePlaces.trans places⟩
  · obtain ⟨service, isService, rfl⟩ := new_eq_ok made
    obtain ⟨engine, _, rfl⟩ := EngineService.new_eq_ok isService
    exact ⟨rfl, rfl⟩

/-- **Reports never show the use of the cache.** Whenever `Capacity` is called, all blocks are
reported free. The waiting and the running jobs bound the accepted ones that have no result
yet, neither exceeds the capacity of the queue, and the headroom is what the queue has left. -/
theorem capacity_reports {draws : JitterDraws} {config : EngineConfig} {queueCapacity : ℕ}
    {start final : ReportingService η} {before after : List Event} {capacity : EngineCapacity}
    (made : new draws config queueCapacity = .ok start)
    (trace : Trace Step start (before ++ .report capacity :: after) final) :
    ∃ running waiting, running ≤ queueCapacity ∧ waiting ≤ queueCapacity ∧
      waiting + (actions before).countP Action.isPublish ≤ (accepted (actions before)).length ∧
      (accepted (actions before)).length ≤
        running + waiting + (actions before).countP Action.isPublish ∧
      capacity =
        { totalKvBlocks := config.kvBlocks
          freeKvBlocks := config.kvBlocks
          runningSeqs := running % 2 ^ 32
          waitingSeqs := waiting % 2 ^ 32
          batchHeadroom := (queueCapacity - waiting) % 2 ^ 32 } := by
  obtain ⟨reporting, next, earlier, step, _⟩ := trace.step_at
  obtain ⟨sound, blocks, places⟩ := reachable made earlier
  obtain ⟨service, isService, isStart⟩ := new_eq_ok made
  have counted : reporting.service.unfinished.length +
      (actions before).countP Action.isPublish = (accepted (actions before)).length := by
    refine EngineService.unfinished_count isService ?_
    rw [show service = start.service by rw [isStart]]
    exact service_trace earlier
  have unpublished : reporting.service.worker.unpublished.length ≤
      reporting.service.worker.batch.length :=
    reporting.service.worker.unpublished_sublist.length_le
  unfold EngineService.unfinished at counted
  rw [List.length_append] at counted
  refine ⟨reporting.service.worker.batch.length, reporting.service.queue.length, ?_, ?_,
    by omega, by omega, ?_⟩
  · rw [← places]
    exact sound.registered.batched
  · rw [← places]
    exact sound.registered.queued
  · have small : reporting.totalKvBlocks < 2 ^ 32 := by
      obtain ⟨engine, isEngine, _⟩ := EngineService.new_eq_ok isService
      rw [blocks]
      exact (ContinuousEngine.Invariant.new isEngine).2.2
    cases step
    rw [sound.capacity_eq small, blocks, places]

/-- A service asked between the run of its only request and the store. -/
theorem running_alone :
    ∃ (final : ReportingService (SelectionQueue EngineRequest)) (before : List Event),
      Trace Step { service := EngineService.small, totalKvBlocks := 4, freeKvBlocks := 4 }
        (before ++ [.report final.capacity]) final ∧ final.storing = true ∧
      (accepted (actions before)).length = 1 ∧
      (actions before).countP Action.isPublish = 0 := by
  have asked := Trace.single (@Step.act _ _ ⟨EngineService.small, 4, 4, false⟩ _ _
    (.dispatch EngineService.small (EngineService.attempt 1)) fun impossible => nomatch impossible)
  have woken := asked.snoc (@Step.act _ _ _ _ _ (.wake rfl (by decide +kernel)) fun _ => rfl)
  have taken := woken.snoc (@Step.act _ _ _ _ _ (.take rfl) fun _ => rfl)
  have submitted := taken.snoc (@Step.act _ _ _ _ _ (.submit rfl) fun _ => rfl)
  have ran := submitted.snoc (@Step.act _ _ _ _ _
    (@Distributed.Step.run _ _ _ _ _ 3 _ rfl (Option.some_get (by decide +kernel)).symm)
    fun _ => rfl)
  exact ⟨_, _, ran.snoc (Step.report _), rfl, by decide +kernel, by decide +kernel⟩

theorem capacity_reports_alone :
    ∃ (final : ReportingService (SelectionQueue EngineRequest)) (before : List Event)
      (capacity : EngineCapacity),
      Trace Step { service := EngineService.small, totalKvBlocks := 4, freeKvBlocks := 4 }
        (before ++ [.report capacity]) final ∧ final.storing = true ∧
      (accepted (actions before)).length = 1 ∧ capacity.freeKvBlocks = 4 ∧
      0 < capacity.runningSeqs + capacity.waitingSeqs := by
  obtain ⟨final, before, trace, storing, one, unpublished⟩ := running_alone
  obtain ⟨running, waiting, runs, waits, _, least, isCapacity⟩ :=
    capacity_reports
      (show new (fun _ _ _ => 0) { kvBlocks := 4 } 2 =
        .ok { service := EngineService.small, totalKvBlocks := 4, freeKvBlocks := 4 } from rfl)
      trace
  refine ⟨final, before, _, trace, storing, one, ?_, ?_⟩
  · rw [isCapacity]
  · rw [one, unpublished] at least
    rw [isCapacity]
    dsimp only
    omega

end ReportingService

end InferSched.Distributed

import InferSched.Distributed.Reservations

/-! # Draining

`Drain` stops the service from accepting requests and returns once the queue is empty
and no job runs. The number of running jobs is what is in the batch of the worker,
and a job outside the queue and the batch has its result, so nothing is left to do
when a `Drain` returns, and nothing comes afterwards.
-/

namespace InferSched.Distributed

open Library Engine

variable {η : Type}

namespace EngineService

/-- A service that has nothing to do and takes nothing on. -/
structure Drained (service : EngineService η) : Prop where
  draining : service.draining = true
  queue : service.queue = []
  runningJobs : service.runningJobs = 0
  finished : ∀ job < service.created, (service.jobs job).done = true

/-- A drained service rejects every request. -/
theorem Drained.dispatch {service : EngineService η} (drained : service.Drained)
    (request : DispatchRequest) : service.dispatch request =
      ({ status := .rejected, reason := "draining".toList }, service) := by
  unfold EngineService.dispatch validateAndReserve
  rw [if_pos drained.draining]
  rfl

variable [RequestQueue η]

/-- Draining is never taken back, and a waiting `Drain` call has begun it. -/
theorem draining_of_waiting {draws : JitterDraws} {config : EngineConfig} {queueCapacity : ℕ}
    {start service : EngineService η} {past : List Action}
    (made : new draws config queueCapacity = .ok start) (trace : Trace Step start past service)
    (waiting : 0 < service.drainsWaiting) : service.draining = true := by
  induction trace with
  | nil =>
      obtain ⟨engine, _, rfl⟩ := new_eq_ok made
      cases waiting
  | @snoc past before after action earlier step ih =>
      cases step with
      | dispatch request =>
          rcases before.dispatch_cases request with ⟨_, _, isRejected, _⟩ | ⟨_, isAccepted⟩
          · rw [isRejected] at waiting ⊢
            exact ih waiting
          · rw [isAccepted] at waiting ⊢
            exact ih waiting
      | cancel request =>
          rcases before.cancel_cases request with isNone | ⟨job, _, isSome⟩
          · rw [isNone] at waiting ⊢
            exact ih waiting
          · rw [isSome] at waiting ⊢
            exact ih waiting
      | unregister phase =>
          obtain ⟨_, live, isNext⟩ := (reachable made earlier).1.unregister phase
          rw [isNext] at waiting ⊢
          exact ih waiting
      | drain => rfl
      | drained already empty idle => exact ih already
      | _ => exact ih waiting

theorem Drained.step {service next : EngineService η} {action : Action} (drained : service.Drained)
    (registered : service.Registered) (step : Step service action next) :
    next.Drained ∧ next.created = service.created ∧ action.accepted? = none := by
  have finished : ∀ job < service.created, (next.jobs job).done = true := by
    intro job isCreated
    rw [step.done_eq registered, drained.finished job isCreated, Bool.true_or]
  cases step with
  | dispatch request =>
      rw [drained.dispatch] at finished ⊢
      exact ⟨drained, rfl, rfl⟩
  | cancel request =>
      rcases service.cancel_cases request with isNone | ⟨job, _, isSome⟩
      · rw [isNone]
        exact ⟨drained, rfl, rfl⟩
      · rw [isSome] at finished ⊢
        exact ⟨⟨drained.draining, drained.queue, drained.runningJobs, finished⟩, rfl, rfl⟩
  | drain => exact ⟨⟨rfl, drained.queue, drained.runningJobs, finished⟩, rfl, rfl⟩
  | take phase =>
      refine ⟨⟨drained.draining, rfl, ?_, finished⟩, rfl, rfl⟩
      unfold EngineService.take
      rw [drained.queue, drained.runningJobs]
      rfl
  | unregister phase =>
      obtain ⟨_, live, isNext⟩ := registered.unregister phase
      rw [isNext] at finished ⊢
      exact ⟨⟨drained.draining, drained.queue, rfl, finished⟩, rfl, rfl⟩
  | _ => exact ⟨⟨drained.draining, drained.queue, drained.runningJobs, finished⟩, rfl, rfl⟩

/-- A `Drain` call returns from a drained service. -/
theorem Drained.of_return {draws : JitterDraws} {config : EngineConfig} {queueCapacity : ℕ}
    {start service returned : EngineService η} {past : List Action}
    (made : new draws config queueCapacity = .ok start) (trace : Trace Step start past service)
    (returns : Step service .drained returned) :
    returned.Drained ∧ returned.created = service.created := by
  have registered := (reachable made trace).1
  cases returns with
  | drained waiting empty idle =>
      have draining : service.draining = true := draining_of_waiting made trace waiting
      refine ⟨⟨draining, empty, idle, ?_⟩, rfl⟩
      intro job isCreated
      by_contra undone
      have unfinished := (registered.waiting job isCreated).mp (Bool.not_eq_true _ ▸ undone)
      unfold EngineService.unfinished at unfinished
      rw [empty, List.nil_append] at unfinished
      have batch : service.worker.batch = [] :=
        List.eq_nil_of_length_eq_zero (registered.running.symm.trans idle)
      exact List.not_mem_nil (batch ▸ (Worker.unpublished_sublist _).subset unfinished)

/-- **Draining.** When a `Drain` call has returned, and forever after, the queue is
empty, no job runs, every job accepted before has its result, and no request is
accepted. -/
theorem drain_final {draws : JitterDraws} {config : EngineConfig} {queueCapacity : ℕ}
    {start service returned final : EngineService η} {past later : List Action}
    (made : EngineService.new draws config queueCapacity = .ok start)
    (trace : Trace Step start past service) (returns : Step service .drained returned)
    (afterwards : Trace Step returned later final) :
    final.queue = [] ∧ final.runningJobs = 0 ∧
      (∀ job < service.created, (final.jobs job).done = true) ∧ accepted later = [] := by
  obtain ⟨drained, created⟩ := Drained.of_return made trace returns
  have registered := (reachable made (trace.snoc returns)).1
  obtain ⟨_, still, same, none⟩ := @Trace.history _ _ _ _ _
    (fun (later : List Action) (final : EngineService η) => final.Registered ∧ final.Drained ∧
      final.created = returned.created ∧ accepted later = [])
    (by
      rintro labels before action after ⟨here, quiet, same, none⟩ step
      obtain ⟨next, alike, nothing⟩ := quiet.step here step
      refine ⟨here.step step, next, alike.trans same, ?_⟩
      rw [accepted_snoc, none, nothing]
      rfl)
    _ afterwards ⟨registered, drained, rfl, rfl⟩
  refine ⟨still.queue, still.runningJobs, ?_, none⟩
  rw [← created, ← same]
  exact still.finished

/-- A service that has run one request drains; the next request is rejected. -/
theorem drain_final_after_one :
    ∃ (start service returned final : EngineService (SelectionQueue EngineRequest))
      (past : List Action) (request : DispatchRequest) (ack : DispatchAck),
      EngineService.new (fun _ _ _ => 0) { kvBlocks := 4 } 2 = .ok start ∧
      Trace Step start past service ∧ (accepted past).length = 1 ∧
      Step service .drained returned ∧ Trace Step returned [.dispatch request ack] final ∧
      final.queue = [] ∧ final.runningJobs = 0 ∧ (final.jobs 0).done = true ∧
      accepted [.dispatch request ack] = [] := by
  have woken := (Trace.single (Step.dispatch small (attempt 1))).snoc
    (Step.wake rfl (by decide +kernel))
  have submitted := (woken.snoc (Step.take rfl)).snoc (Step.submit rfl)
  have ran := submitted.snoc
    (@Step.run _ _ _ _ _ 3 _ rfl (Option.some_get (by decide +kernel)).symm)
  have published := (ran.snoc (Step.settle rfl)).snoc (Step.publish rfl)
  have unregistered := published.snoc (Step.unregister rfl)
  have draining := unregistered.snoc (Step.drain _)
  obtain ⟨queue, running, done, none⟩ := drain_final new_small draining
    (Step.drained (Nat.succ_pos _) (by decide +kernel) (by decide +kernel))
    (Trace.single (Step.dispatch _ (attempt 1)))
  exact ⟨_, _, _, _, _, _, _, new_small, draining, by decide +kernel,
    Step.drained (Nat.succ_pos _) (by decide +kernel) (by decide +kernel),
    Trace.single (Step.dispatch _ (attempt 1)), queue, running, done 0 (by decide +kernel), none⟩

end EngineService
end InferSched.Distributed

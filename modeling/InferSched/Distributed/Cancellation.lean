import InferSched.Distributed.JobResults

/-! # Cancellation

`Cancel` marks a live job as superseded under the mutex of the service, and the worker
reads the mark under the mutex of the job, before it sets `done`. A job stays live
until its batch is unregistered, so a `Cancel` that comes after the read is accepted
as well and has no effect, be the job done already or not: the terminal event tells
what the worker has read.
-/

namespace InferSched.Distributed

open Library Engine

/-- The terminal event of the job says that it was superseded. -/
def Job.ReportsSuperseded (job : Job) : Prop :=
  job.terminalEvent.kind = .failed ∧ job.terminalEvent.failureReason = "superseded".toList

theorem Job.reportsSuperseded_iff (job : Job) :
    job.ReportsSuperseded ↔
      job.result.succeeded = false ∧ job.result.failureReason = "superseded".toList := by
  unfold ReportsSuperseded terminalEvent
  cases succeeded : job.result.succeeded with
  | true =>
      rw [if_pos rfl]
      exact ⟨fun reports => ProgressKind.noConfusion reports.1,
        fun reports => Bool.noConfusion reports.1⟩
  | false =>
      rw [if_neg Bool.false_ne_true]
      exact ⟨fun reports => ⟨rfl, reports.2⟩, fun reports => ⟨rfl, reports.2⟩⟩

variable {η : Type} [RequestQueue η]

namespace EngineService

/-- A job is marked once a `Cancel` of it was accepted. -/
theorem superseded_eq {draws : JitterDraws} {config : EngineConfig} {queueCapacity : ℕ}
    {start service : EngineService η} {past : List Action}
    (made : new draws config queueCapacity = .ok start) (trace : Trace Step start past service)
    (job : JobId) :
    (service.jobs job).superseded = past.any (Action.cancels job) ∧
      (service.created ≤ job → (service.jobs job).superseded = false) := by
  induction trace with
  | nil =>
      obtain ⟨engine, _, rfl⟩ := new_eq_ok made
      exact ⟨rfl, fun _ => rfl⟩
  | @snoc past before after action earlier step ih =>
      have registered := (reachable made earlier).1
      have grows : before.created ≤ after.created := step.created_le registered
      rw [List.any_append, List.any_cons, List.any_nil, Bool.or_false]
      rcases step.job_cases registered job with ⟨same, _, quiet⟩ | ⟨_, rfl, isNew, accepted⟩ |
        ⟨_, rfl, member, superseded⟩ | ⟨_, _, _, _, rfl, _, settled⟩ |
        ⟨_, _, _, _, rfl, _, published⟩
      · rw [same, quiet.1, Bool.or_false]
        exact ⟨ih.1, fun isFresh => ih.2 (grows.trans isFresh)⟩
      · rw [accepted]
        have unmarked := ih.2 (Nat.le_of_eq isNew.symm)
        rw [ih.1] at unmarked
        rw [unmarked]
        exact ⟨rfl, fun _ => rfl⟩
      · have cancels : ∀ request, (Action.cancel request (some job)).cancels job = true :=
          fun _ => decide_eq_true rfl
        rw [superseded, cancels, Bool.or_true]
        refine ⟨rfl, fun isFresh => ?_⟩
        exact absurd (grows.trans isFresh) (Nat.not_le.mpr (registered.known job member))
      · rw [settled]
        exact ⟨ih.1.trans (Bool.or_false _).symm, fun isFresh => ih.2 (grows.trans isFresh)⟩
      · rw [published]
        exact ⟨ih.1.trans (Bool.or_false _).symm, fun isFresh => ih.2 (grows.trans isFresh)⟩

/-- A job is settled once the worker has read its flag. -/
theorem settled_eq_any {draws : JitterDraws} {config : EngineConfig} {queueCapacity : ℕ}
    {start service : EngineService η} {past : List Action}
    (made : new draws config queueCapacity = .ok start) (trace : Trace Step start past service)
    (job : JobId) : service.settled job = past.any (Action.settles job) := by
  induction trace with
  | nil =>
      obtain ⟨engine, _, rfl⟩ := new_eq_ok made
      rfl
  | snoc earlier step ih =>
      rw [settled_step step (reachable made earlier).1, ih, List.any_append, List.any_cons,
        List.any_nil, Bool.or_false]

/-- A job reports what it was marked as when the worker read its flag. -/
theorem reportsSuperseded_settle {service : EngineService η} (linked : service.Linked)
    {resultOffset : ℕ} {newResults : AList fun _ : Text => EngineResult}
    {passed ahead : List JobId} {job : JobId}
    (phase : service.worker = .publishing resultOffset newResults passed (job :: ahead)) :
    ((service.jobs job).settle newResults).ReportsSuperseded ↔
      (service.jobs job).superseded = true := by
  have progress := linked.progress
  rw [phase] at progress
  obtain ⟨result, isNew, found, _⟩ := progress.2 job (List.mem_append_right _ List.mem_cons_self)
  have reason := linked.ready.explained result (List.mem_of_mem_drop isNew)
  rw [Job.reportsSuperseded_iff]
  unfold Job.settle
  rw [found]
  dsimp only
  cases marked : (service.jobs job).superseded with
  | true => exact ⟨fun _ => rfl, fun _ => ⟨rfl, rfl⟩⟩
  | false =>
      refine ⟨fun reports => ?_, Bool.noConfusion⟩
      have isReason : result.failureReason = "superseded".toList := reports.2
      rw [isReason] at reason
      exact absurd reason (by decide)

/-- What a job reports depends on its result alone. -/
theorem reportsSuperseded_congr {job other : Job} (same : job.result = other.result) :
    job.ReportsSuperseded ↔ other.ReportsSuperseded := by
  rw [Job.reportsSuperseded_iff, Job.reportsSuperseded_iff, same]

/-- What a settled job reports depends on the steps before the read of its flag. -/
theorem reports_of_settled {draws : JitterDraws} {config : EngineConfig} {queueCapacity : ℕ}
    {start service : EngineService η} {past : List Action}
    (made : new draws config queueCapacity = .ok start) (trace : Trace Step start past service)
    {job : JobId} (settled : service.settled job = true) :
    ∃ first rest, past = first ++ .settle job :: rest ∧
      ((service.jobs job).ReportsSuperseded ↔ first.any (Action.cancels job) = true) := by
  induction trace with
  | nil =>
      obtain ⟨engine, _, rfl⟩ := new_eq_ok made
      cases settled
  | @snoc past before after action earlier step ih =>
      obtain ⟨registered, linked⟩ := reachable made earlier
      cases already : before.settled job with
      | true =>
          obtain ⟨first, rest, isPast, reports⟩ := ih already
          refine ⟨first, rest ++ [action], ?_, ?_⟩
          · rw [isPast, List.append_assoc, List.cons_append]
          · rw [reportsSuperseded_congr (registered.settled_kept step already).1]
            exact reports
      | false =>
          obtain ⟨_, newResults, _, _, rfl, phase, isSettled⟩ :=
            settles_of_unsettled registered step already settled
          refine ⟨past, [], rfl, ?_⟩
          rw [isSettled, reportsSuperseded_settle linked phase, (superseded_eq made earlier job).1]

/-- Of two labels of a trace, one comes first. -/
theorem before_or_after {first second restFirst restSecond : List Action} {one two : Action}
    (same : first ++ one :: restFirst = second ++ two :: restSecond) (differ : one ≠ two) :
    one ∈ second ∨ two ∈ first := by
  rcases List.append_eq_append_iff.mp same with ⟨between, isSecond, isRest⟩ |
    ⟨between, isFirst, isRest⟩
  · cases between with
    | nil => exact absurd (List.cons.inj isRest).1 differ
    | cons label labels =>
        left
        rw [isSecond, (List.cons.inj isRest).1]
        exact List.mem_append_right _ List.mem_cons_self
  · cases between with
    | nil => exact absurd (List.cons.inj isRest).1.symm differ
    | cons label labels =>
        right
        rw [isFirst, (List.cons.inj isRest).1]
        exact List.mem_append_right _ List.mem_cons_self

theorem cancels_eq_true {job : JobId} {action : Action} (cancels : action.cancels job = true) :
    ∃ request, action = .cancel request (some job) := by
  cases action with
  | cancel request target =>
      cases target with
      | none => cases cancels
      | some other =>
          cases of_decide_eq_true cancels
          exact ⟨request, rfl⟩
  | _ => cases cancels

/-- The first `Cancel` of a job that was accepted. -/
theorem first_cancel {past : List Action} {request : CancelRequest} {job : JobId}
    (member : .cancel request (some job) ∈ past) :
    ∃ first earliest rest, past = first ++ .cancel earliest (some job) :: rest ∧
      first.any (Action.cancels job) = false := by
  cases found : past.find? (Action.cancels job) with
  | none =>
      exact absurd (decide_eq_true rfl) (List.find?_eq_none.mp found _ member)
  | some action =>
      obtain ⟨cancels, first, rest, isPast, none⟩ := List.find?_eq_some_iff_append.mp found
      obtain ⟨earliest, rfl⟩ := cancels_eq_true cancels
      refine ⟨first, earliest, rest, isPast, List.any_eq_false.mpr ?_⟩
      intro other isOther
      have quiet := none other isOther
      rw [Bool.not_eq_true'] at quiet
      rw [quiet]
      exact Bool.false_ne_true

/-- What a settled job reports does not change. -/
theorem reports_kept {service next : EngineService η} {later : List Action} {job : JobId}
    (registered : service.Registered) (trace : Trace Step service later next)
    (settled : service.settled job = true) :
    next.settled job = true ∧
      ((next.jobs job).ReportsSuperseded ↔ (service.jobs job).ReportsSuperseded) := by
  refine (@Trace.invariant _ _ _ _ _ (fun next : EngineService η => next.Registered ∧
    next.settled job = true ∧
    ((next.jobs job).ReportsSuperseded ↔ (service.jobs job).ReportsSuperseded)) ?_ _ trace
    ⟨registered, settled, Iff.rfl⟩).2
  rintro before action after ⟨here, fixed, same⟩ step
  refine ⟨here.step step, ?_, ?_⟩
  · rw [settled_step step here, fixed, Bool.true_or]
  · rw [reportsSuperseded_congr (here.settled_kept step fixed).1]
    exact same

/-- A job that is settled is done or will be by the next step of the worker. -/
theorem finish_settled {service : EngineService η} {job : JobId}
    (settled : service.settled job = true) :
    ∃ later final, Trace Step service later final ∧ (final.jobs job).done = true := by
  rcases Bool.or_eq_true_iff.mp settled with done | releases
  · exact ⟨[], service, .nil, done⟩
  · have isReleased := of_decide_eq_true releases
    unfold Worker.releases at isReleased
    split at isReleased
    · next phase =>
        cases isReleased
        refine ⟨_, _, .single (Step.publish phase), ?_⟩
        dsimp only
        rw [Function.update_self]
        rfl
    · cases isReleased

/-- **Cancellation.** In a run and all that may follow it, the finished jobs of which the
run has accepted a `Cancel` report that they were superseded if and only if every
accepted `Cancel` found its job not yet settled by the worker or marked already. -/
theorem cancelled_superseded_iff {draws : JitterDraws} {config : EngineConfig}
    {queueCapacity : ℕ} {start service : EngineService η} {past : List Action}
    (made : EngineService.new draws config queueCapacity = .ok start)
    (trace : Trace Step start past service) :
    (∀ job request, .cancel request (some job) ∈ past →
      ∀ later final, Trace Step service later final → (final.jobs job).done = true →
        (final.jobs job).ReportsSuperseded) ↔
    ∀ first request job rest before, past = first ++ .cancel request (some job) :: rest →
      Trace Step start first before →
      Trace Step before (.cancel request (some job) :: rest) service →
      before.settled job = false ∨ (before.jobs job).superseded = true := by
  constructor
  · intro reports first request job rest before isPast earlier later
    by_contra late
    rw [not_or, Bool.not_eq_false, Bool.not_eq_true] at late
    obtain ⟨settled, unmarked⟩ := late
    obtain ⟨stillSettled, same⟩ := reports_kept (reachable made earlier).1 later settled
    obtain ⟨further, final, finishing, done⟩ := finish_settled stillSettled
    have member : .cancel request (some job) ∈ past := by
      rw [isPast]
      exact List.mem_append_right _ List.mem_cons_self
    have reported := reports job request member further final finishing done
    rw [(reports_kept (reachable made trace).1 finishing stillSettled).2, same] at reported
    obtain ⟨untilSettled, _, isFirst, onlyIf⟩ := reports_of_settled made earlier settled
    have marked : first.any (Action.cancels job) = true := by
      rw [isFirst, List.any_append, onlyIf.mp reported, Bool.true_or]
    rw [(superseded_eq made earlier job).1, marked] at unmarked
    cases unmarked
  · intro timely job request member further final finishing done
    obtain ⟨first, earliest, rest, isPast, none⟩ := first_cancel member
    have whole := trace.append finishing
    rw [isPast] at trace whole
    obtain ⟨before, earlier, later⟩ := trace.split
    have unsettled : before.settled job = false := by
      rcases timely first earliest job rest before isPast earlier later with open' | marked
      · exact open'
      · rw [(superseded_eq made earlier job).1, none] at marked
        cases marked
    rw [settled_eq_any made earlier] at unsettled
    obtain ⟨untilSettled, _, isSame, reports⟩ :=
      reports_of_settled made whole (settled_of_done done)
    rw [reports]
    rw [List.append_assoc, List.cons_append] at isSame
    rcases before_or_after isSame Action.noConfusion with inTime | tooEarly
    · exact List.any_eq_true.mpr ⟨_, inTime, decide_eq_true rfl⟩
    · exact absurd (decide_eq_true rfl) (List.any_eq_false.mp unsettled _ tooEarly)

/-- A request that is cancelled while it is queued. -/
theorem cancelled_superseded_queued :
    ∃ (start service : EngineService (SelectionQueue EngineRequest)) (past : List Action)
      (request : CancelRequest),
      EngineService.new (fun _ _ _ => 0) { kvBlocks := 4 } 2 = .ok start ∧
      Trace Step start past service ∧ .cancel request (some 0) ∈ past ∧
      (service.jobs 0).done = true ∧ (service.jobs 0).ReportsSuperseded ∧
      ∀ later final, Trace Step service later final → (final.jobs 0).done = true →
        (final.jobs 0).ReportsSuperseded := by
  let cancel : CancelRequest :=
    { requestId := ['a'], fence := { ownershipEpoch := 1, attemptId := 1 } }
  have dispatched := Trace.single (Step.dispatch small (attempt 1))
  have cancelled := dispatched.snoc (Step.cancel _ cancel)
  have taken := (cancelled.snoc (Step.wake rfl (by decide +kernel))).snoc (Step.take rfl)
  have ran := (taken.snoc (Step.submit rfl)).snoc
    (@Step.run _ _ _ _ _ 3 _ rfl (Option.some_get (by decide +kernel)).symm)
  have published := (ran.snoc (Step.settle rfl)).snoc (Step.publish rfl)
  have reports := (cancelled_superseded_iff new_small published).mpr (by
    intro first request job rest before isPast earlier later
    left
    rw [settled_eq_any new_small earlier]
    rcases first with _ | ⟨dispatch, _ | ⟨_, first⟩⟩
    · cases (List.cons.inj isPast).1
    · rw [← (List.cons.inj isPast).1]
      rfl
    · have later : [.wake, .take, .submit 0, .run, .settle 0, .publish 0] =
          first ++ .cancel request (some job) :: rest :=
        (List.cons.inj (List.cons.inj isPast).2).2
      have member : .cancel request (some job) ∈
          [.wake, .take, .submit 0, .run, .settle 0, Action.publish 0] := by
        rw [later]
        exact List.mem_append_right _ List.mem_cons_self
      simp at member)
  refine ⟨small, _, _, cancel, new_small, published, List.mem_iff_getElem?.mpr ⟨1, rfl⟩,
    by decide +kernel, ?_, ?_⟩
  · rw [Job.reportsSuperseded_iff]
    decide +kernel
  · exact reports 0 cancel (List.mem_iff_getElem?.mpr ⟨1, rfl⟩)

/-- A request that is cancelled once its flag was read, before or after its job is done:
the reply is that the `Cancel` is accepted, and the stream ends with `COMPLETED`. -/
theorem cancel_accepted_completed :
    ∃ (start settled released first second : EngineService (SelectionQueue EngineRequest))
      (past laterFirst laterSecond : List Action) (request : CancelRequest),
      EngineService.new (fun _ _ _ => 0) { kvBlocks := 4 } 2 = .ok start ∧
      Trace Step start past settled ∧ (settled.jobs 0).done = false ∧
      Trace Step settled [.publish 0] released ∧ (released.jobs 0).done = true ∧
      Trace Step settled (.cancel request (some 0) :: laterFirst) first ∧
      .writeTerminal 0 (first.jobs 0).terminalEvent true ∈ laterFirst ∧
      Trace Step released (.cancel request (some 0) :: laterSecond) second ∧
      .writeTerminal 0 (second.jobs 0).terminalEvent true ∈ laterSecond ∧
      ∀ service ∈ [first, second], (service.jobs 0).done = true ∧
        (service.jobs 0).terminalEvent.kind = .completed ∧
        ¬(service.jobs 0).ReportsSuperseded := by
  let cancel : CancelRequest :=
    { requestId := ['a'], fence := { ownershipEpoch := 1, attemptId := 1 } }
  have acknowledged := (Trace.single (Step.dispatch small (attempt 1))).snoc
    (@Step.acknowledge _ _ _ 0 true (by decide +kernel))
  have taken := (acknowledged.snoc (Step.wake rfl (by decide +kernel))).snoc (Step.take rfl)
  have ran := (taken.snoc (Step.submit rfl)).snoc
    (@Step.run _ _ _ _ _ 3 _ rfl (Option.some_get (by decide +kernel)).symm)
  have settled := ran.snoc (Step.settle rfl)
  have released := settled.restart.snoc (Step.publish rfl)
  have inside := (settled.restart.snoc (Step.cancel _ cancel)).snoc (Step.publish rfl)
  have first := (inside.snoc (@Step.writePrefill _ _ _ 0 true (by decide +kernel)
    (by decide +kernel))).snoc (@Step.writeTerminal _ _ _ 0 true (by decide +kernel))
  have after := released.restart.snoc (Step.cancel _ cancel)
  have second := (after.snoc (@Step.writePrefill _ _ _ 0 true (by decide +kernel)
    (by decide +kernel))).snoc (@Step.writeTerminal _ _ _ 0 true (by decide +kernel))
  refine ⟨small, _, _, _, _, _, _, _, cancel, new_small, settled, by decide +kernel, released,
    by decide +kernel, first, List.mem_iff_getElem?.mpr ⟨2, rfl⟩, second,
    List.mem_iff_getElem?.mpr ⟨1, rfl⟩, ?_⟩
  simp only [Job.reportsSuperseded_iff]
  decide +kernel

end EngineService
end InferSched.Distributed

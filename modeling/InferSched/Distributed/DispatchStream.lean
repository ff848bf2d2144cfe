import InferSched.Distributed.Cancellation

/-! # The stream of a dispatch

What the call of an accepted dispatch writes over a whole run, and what the routers
make of what they read of it (`Dispatch` in `durable_router_main.cpp`, `DispatchOne`
in `router_main.cpp`). `WriteProgress` writes twice and takes no notice of a write that
fails. A stream is read in order, and its status arrives after everything that was
written. So a client that breaks off has read a prefix, and one that sees `OK` has read
the whole conversation of a call that returned and none of whose writes failed: a write
that fails is to a stream that has ended with another status.
-/

namespace InferSched.Distributed

open Library Engine

/-- What a step writes to the stream of a job. -/
def Action.writes (job : JobId) : Action → List DispatchEvent
  | .acknowledge other written =>
      if other = job ∧ written = true then [.ack (acknowledgement none)] else []
  | .writePrefill other event written =>
      if other = job ∧ written = true then [.progress event] else []
  | .writeTerminal other event written =>
      if other = job ∧ written = true then [.progress event] else []
  | _ => []

/-- A write to the stream of a job that fails. -/
def Action.loses (job : JobId) : Action → Bool
  | .acknowledge other written => decide (other = job) && !written
  | .writePrefill other _ written => decide (other = job) && !written
  | .writeTerminal other _ written => decide (other = job) && !written
  | _ => false

/-- Everything that was written to the stream of a job. -/
def stream (job : JobId) (past : List Action) : List DispatchEvent :=
  past.flatMap (Action.writes job)

theorem stream_concat (job : JobId) (past : List Action) (action : Action) :
    stream job (past ++ [action]) = stream job past ++ action.writes job := by
  simp [stream]

variable {η : Type} [RequestQueue η]

/-- The steps of the call of a job, with what they write. -/
theorem Step.handler_cases {service next : EngineService η} {action : Action}
    (step : Step service action next) (registered : service.Registered) (job : JobId) :
    ((job < next.created ↔ job < service.created) ∧ next.handlers job = service.handlers job ∧
      action.writes job = [] ∧ action.loses job = false) ∨
    (job = service.created ∧ job < next.created ∧ next.handlers job = .acknowledging ∧
      action.writes job = []) ∨
    (service.handlers job = .acknowledging ∧ action = .acknowledge job true ∧
      next.handlers job = .waiting ∧ action.writes job = [.ack { status := .accepted }]) ∨
    (service.handlers job = .acknowledging ∧ action = .acknowledge job false ∧
      next.handlers job = .returned ∧ action.writes job = []) ∨
    (∃ written, service.handlers job = .waiting ∧ (service.jobs job).done = true ∧
      next.handlers job = .progressing ∧
      action.writes job =
        (if written then [.progress (service.jobs job).prefillEvent] else []) ∧
      action.loses job = !written) ∨
    (∃ written, service.handlers job = .progressing ∧ next.handlers job = .returned ∧
      action.writes job =
        (if written then [.progress (service.jobs job).terminalEvent] else []) ∧
      action.loses job = !written) := by
  cases step with
  | dispatch request =>
      rcases service.dispatch_cases request with ⟨_, _, isRejected, _⟩ | ⟨_, isAccepted⟩
      · rw [isRejected]
        exact Or.inl ⟨Iff.rfl, rfl, rfl, rfl⟩
      · rw [isAccepted]
        by_cases isNew : job = service.created
        · subst isNew
          exact Or.inr (Or.inl ⟨rfl, Nat.lt_succ_self _, Function.update_self _ _ _, rfl⟩)
        · refine Or.inl ⟨?_, Function.update_of_ne isNew _ _, rfl, rfl⟩
          exact ⟨fun known => lt_of_le_of_ne (Nat.le_of_lt_succ known) isNew,
            fun known => Nat.lt_succ_of_lt known⟩
  | @acknowledge other written phase =>
      by_cases same : other = job
      · subst same
        cases written with
        | true =>
            right; right; left
            exact ⟨phase, rfl, Function.update_self _ _ _, by simp [Action.writes, acknowledgement]⟩
        | false =>
            right; right; right; left
            exact ⟨phase, rfl, Function.update_self _ _ _, by simp [Action.writes]⟩
      · exact Or.inl ⟨Iff.rfl, Function.update_of_ne (Ne.symm same) _ _,
          by simp [Action.writes, same], by simp [Action.loses, same]⟩
  | @writePrefill other written phase done =>
      by_cases same : other = job
      · subst same
        right; right; right; right; left
        exact ⟨written, phase, done, Function.update_self _ _ _, by simp [Action.writes],
          by simp [Action.loses]⟩
      · exact Or.inl ⟨Iff.rfl, Function.update_of_ne (Ne.symm same) _ _,
          by simp [Action.writes, same], by simp [Action.loses, same]⟩
  | @writeTerminal other written phase =>
      by_cases same : other = job
      · subst same
        right; right; right; right; right
        exact ⟨written, phase, Function.update_self _ _ _, by simp [Action.writes],
          by simp [Action.loses]⟩
      · exact Or.inl ⟨Iff.rfl, Function.update_of_ne (Ne.symm same) _ _,
          by simp [Action.writes, same], by simp [Action.loses, same]⟩
  | cancel request =>
      rcases service.cancel_cases request with isNone | ⟨_, _, isSome⟩
      · rw [isNone]
        exact Or.inl ⟨Iff.rfl, rfl, rfl, rfl⟩
      · rw [isSome]
        exact Or.inl ⟨Iff.rfl, rfl, rfl, rfl⟩
  | unregister phase =>
      obtain ⟨_, live, isNext⟩ := registered.unregister phase
      rw [isNext]
      exact Or.inl ⟨Iff.rfl, rfl, rfl, rfl⟩
  | _ => exact Or.inl ⟨Iff.rfl, rfl, rfl, rfl⟩

namespace EngineService

/-! ### The conversation of a job -/

/-- After the acknowledgement, the call has written these events, less those whose write
failed. -/
def Wrote (past : List Action) (job : JobId) (events : List DispatchEvent) : Prop :=
  ∃ progress, stream job past = .ack { status := .accepted } :: progress ∧
    progress.Sublist events ∧ (past.any (Action.loses job) = false → progress = events)

theorem Wrote.quiet {past : List Action} {action : Action} {job : JobId}
    {events : List DispatchEvent} (wrote : Wrote past job events)
    (quiet : action.writes job = []) (kept : action.loses job = false) :
    Wrote (past ++ [action]) job events := by
  obtain ⟨progress, isStream, some, all⟩ := wrote
  refine ⟨progress, ?_, some, fun unbroken => all ?_⟩
  · rw [stream_concat, isStream, quiet, List.append_nil]
  · rw [List.any_append, List.any_cons, kept] at unbroken
    simpa using unbroken

theorem Wrote.concat {past : List Action} {action : Action} {job : JobId}
    {events : List DispatchEvent} {event : DispatchEvent} {written : Bool}
    (wrote : Wrote past job events)
    (writes : action.writes job = if written then [event] else [])
    (loses : action.loses job = !written) : Wrote (past ++ [action]) job (events ++ [event]) := by
  obtain ⟨progress, isStream, some, all⟩ := wrote
  refine ⟨progress ++ if written then [event] else [], ?_, ?_, fun unbroken => ?_⟩
  · rw [stream_concat, isStream, writes, List.cons_append]
  · apply some.append
    cases written with
    | true => exact List.Sublist.refl _
    | false => exact List.nil_sublist _
  · rw [List.any_append, List.any_cons, List.any_nil, loses, Bool.or_false,
      Bool.or_eq_false_iff] at unbroken
    have isWritten : written = true := by simpa using unbroken.2
    rw [all unbroken.1, isWritten, if_pos rfl]

/-- How far the call of a job has come, with what it has written. -/
inductive Conversation (past : List Action) (service : EngineService η) (job : JobId) : Prop
  | unknown (phase : service.handlers job = .returned) (fresh : service.created ≤ job)
      (silent : stream job past = [])
  | acknowledging (phase : service.handlers job = .acknowledging) (known : job < service.created)
      (silent : stream job past = [])
  | broken (phase : service.handlers job = .returned) (known : job < service.created)
      (lost : .acknowledge job false ∈ past) (silent : stream job past = [])
  | waiting (phase : service.handlers job = .waiting) (known : job < service.created)
      (acked : Wrote past job [])
  | progressing (phase : service.handlers job = .progressing) (known : job < service.created)
      (done : (service.jobs job).done = true)
      (begun : Wrote past job [.progress (service.jobs job).prefillEvent])
  | delivered (phase : service.handlers job = .returned) (known : job < service.created)
      (done : (service.jobs job).done = true)
      (whole : Wrote past job (service.jobs job).writeProgress)

/-- The events of a job are made of its dispatch and its result. -/
theorem events_congr {job other : Job} (result : job.result = other.result)
    (dispatch : job.dispatch = other.dispatch) :
    job.prefillEvent = other.prefillEvent ∧ job.terminalEvent = other.terminalEvent := by
  unfold Job.prefillEvent Job.terminalEvent Job.requestId
  rw [result, dispatch]
  exact ⟨rfl, rfl⟩

/-- The progress of a finished job does not change. -/
theorem events_step {service next : EngineService η} {action : Action} {job : JobId}
    (registered : service.Registered) (step : Step service action next)
    (done : (service.jobs job).done = true) :
    (next.jobs job).done = true ∧
      (next.jobs job).prefillEvent = (service.jobs job).prefillEvent ∧
      (next.jobs job).writeProgress = (service.jobs job).writeProgress := by
  obtain ⟨result, dispatch⟩ := registered.settled_kept step (settled_of_done done)
  obtain ⟨prefill, terminal⟩ := events_congr result dispatch
  refine ⟨?_, prefill, ?_⟩
  · rw [step.done_eq registered, done, Bool.true_or]
  · unfold Job.writeProgress
    rw [prefill, terminal]

/-- A step that is not of the call of a job leaves its conversation as it is. -/
theorem Conversation.kept {past : List Action} {service next : EngineService η} {action : Action}
    {job : JobId} (conversation : Conversation past service job)
    (registered : service.Registered) (step : Step service action next)
    (known : job < next.created ↔ job < service.created)
    (same : next.handlers job = service.handlers job) (quiet : action.writes job = [])
    (kept : action.loses job = false) : Conversation (past ++ [action]) next job := by
  have written : stream job (past ++ [action]) = stream job past := by
    simp [stream_concat, quiet]
  cases conversation with
  | unknown phase fresh silent =>
      refine .unknown (same.trans phase) ?_ (written.trans silent)
      exact Nat.not_lt.mp fun created => absurd (known.mp created) (Nat.not_lt.mpr fresh)
  | acknowledging phase isKnown silent =>
      exact .acknowledging (same.trans phase) (known.mpr isKnown) (written.trans silent)
  | broken phase isKnown lost silent =>
      exact .broken (same.trans phase) (known.mpr isKnown) (List.mem_append_left _ lost)
        (written.trans silent)
  | waiting phase isKnown acked =>
      exact .waiting (same.trans phase) (known.mpr isKnown) (acked.quiet quiet kept)
  | progressing phase isKnown done begun =>
      obtain ⟨finished, prefill, _⟩ := events_step registered step done
      refine .progressing (same.trans phase) (known.mpr isKnown) finished ?_
      rw [prefill]
      exact begun.quiet quiet kept
  | delivered phase isKnown done whole =>
      obtain ⟨finished, _, progress⟩ := events_step registered step done
      refine .delivered (same.trans phase) (known.mpr isKnown) finished ?_
      rw [progress]
      exact whole.quiet quiet kept

/-- One step takes the conversation of a job at most one stage on. -/
theorem Conversation.step {past : List Action} {service next : EngineService η} {action : Action}
    {job : JobId} (conversation : Conversation past service job)
    (registered : service.Registered) (step : Step service action next) :
    Conversation (past ++ [action]) next job := by
  have grows := step.created_le registered
  rcases step.handler_cases registered job with
    ⟨known, same, quiet, kept⟩ | ⟨isNew, created, after, quiet⟩ |
    ⟨before, isAction, after, wrote⟩ | ⟨before, isAction, after, wrote⟩ |
    ⟨written, before, done, after, wrote, loses⟩ | ⟨written, before, after, wrote, loses⟩
  · exact conversation.kept registered step known same quiet kept
  · cases conversation with
    | unknown phase fresh silent =>
        exact .acknowledging after created (by rw [stream_concat, silent, quiet, List.nil_append])
    | acknowledging _ known => exact absurd isNew (Nat.ne_of_lt known)
    | broken _ known => exact absurd isNew (Nat.ne_of_lt known)
    | waiting _ known => exact absurd isNew (Nat.ne_of_lt known)
    | progressing _ known => exact absurd isNew (Nat.ne_of_lt known)
    | delivered _ known => exact absurd isNew (Nat.ne_of_lt known)
  · cases conversation with
    | acknowledging _ known silent =>
        refine .waiting after (lt_of_lt_of_le known grows) ⟨[], ?_, List.Sublist.refl _,
          fun _ => rfl⟩
        rw [stream_concat, silent, wrote, List.nil_append]
    | unknown phase => cases phase.symm.trans before
    | broken phase => cases phase.symm.trans before
    | waiting phase => cases phase.symm.trans before
    | progressing phase => cases phase.symm.trans before
    | delivered phase => cases phase.symm.trans before
  · cases conversation with
    | acknowledging _ known silent =>
        refine .broken after (lt_of_lt_of_le known grows) ?_ ?_
        · rw [isAction]
          exact List.mem_append_right _ (List.mem_singleton_self _)
        · rw [stream_concat, silent, wrote, List.nil_append]
    | unknown phase => cases phase.symm.trans before
    | broken phase => cases phase.symm.trans before
    | waiting phase => cases phase.symm.trans before
    | progressing phase => cases phase.symm.trans before
    | delivered phase => cases phase.symm.trans before
  · cases conversation with
    | waiting _ known acked =>
        obtain ⟨finished, prefill, _⟩ := events_step registered step done
        refine .progressing after (lt_of_lt_of_le known grows) finished ?_
        rw [prefill]
        exact acked.concat wrote loses
    | acknowledging phase => cases phase.symm.trans before
    | unknown phase => cases phase.symm.trans before
    | broken phase => cases phase.symm.trans before
    | progressing phase => cases phase.symm.trans before
    | delivered phase => cases phase.symm.trans before
  · cases conversation with
    | progressing _ known done begun =>
        obtain ⟨finished, _, progress⟩ := events_step registered step done
        refine .delivered after (lt_of_lt_of_le known grows) finished ?_
        rw [progress]
        exact begun.concat wrote loses
    | acknowledging phase => cases phase.symm.trans before
    | unknown phase => cases phase.symm.trans before
    | broken phase => cases phase.symm.trans before
    | waiting phase => cases phase.symm.trans before
    | delivered phase => cases phase.symm.trans before

/-- The conversation of every job, after every run. -/
theorem conversation {draws : JitterDraws} {config : EngineConfig} {queueCapacity : ℕ}
    {start service : EngineService η} {past : List Action}
    (made : new draws config queueCapacity = .ok start) (trace : Trace Step start past service)
    (job : JobId) : Conversation past service job := by
  induction trace with
  | nil =>
      obtain ⟨engine, _, rfl⟩ := new_eq_ok made
      exact .unknown rfl (Nat.zero_le _) rfl
  | snoc earlier step ih => exact ih.step (reachable made earlier).1 step

omit [RequestQueue η] in
/-- The stream at each stage: nothing, the acknowledgement, or that and the progress of
a finished job as far as it was written. -/
theorem Conversation.stages {past : List Action} {service : EngineService η} {job : JobId}
    (conversation : Conversation past service job) :
    (stream job past = [] ∧ (job < service.created →
      service.handlers job = .acknowledging ∨ .acknowledge job false ∈ past)) ∨
    (stream job past = [.ack { status := .accepted }] ∧ service.handlers job = .waiting) ∨
    (service.jobs job).done = true ∧ ∃ progress,
      stream job past = .ack { status := .accepted } :: progress ∧
      progress.Sublist (service.jobs job).writeProgress ∧
      (past.any (Action.loses job) = false → progress =
        if service.handlers job = .returned then (service.jobs job).writeProgress
        else [.progress (service.jobs job).prefillEvent]) := by
  cases conversation with
  | unknown _ fresh silent =>
      exact Or.inl ⟨silent, fun known => absurd known (Nat.not_lt.mpr fresh)⟩
  | acknowledging phase _ silent => exact Or.inl ⟨silent, fun _ => Or.inl phase⟩
  | broken _ _ lost silent => exact Or.inl ⟨silent, fun _ => Or.inr lost⟩
  | waiting phase _ acked =>
      obtain ⟨progress, isStream, none, _⟩ := acked
      rw [List.sublist_nil.mp none] at isStream
      exact Or.inr (Or.inl ⟨isStream, phase⟩)
  | progressing phase _ done begun =>
      obtain ⟨progress, isStream, some, all⟩ := begun
      refine Or.inr (Or.inr ⟨done, progress, isStream, ?_, ?_⟩)
      · exact some.trans (List.prefix_append [_] [_]).sublist
      · rw [phase, if_neg Handler.noConfusion]
        exact all
  | delivered phase _ done whole =>
      obtain ⟨progress, isStream, some, all⟩ := whole
      refine Or.inr (Or.inr ⟨done, progress, isStream, some, ?_⟩)
      rw [phase, if_pos rfl]
      exact all

/-! ### What a stream tells -/

theorem dispatch_of_accepted {draws : JitterDraws} {config : EngineConfig} {queueCapacity : ℕ}
    {start service : EngineService η} {past : List Action}
    (made : new draws config queueCapacity = .ok start) (trace : Trace Step start past service)
    {job : JobId} {request : DispatchRequest} (isJob : (accepted past)[job]? = some request) :
    job < service.created ∧ (service.jobs job).dispatch = request := by
  rw [accepted_eq made trace, List.getElem?_map, Option.map_eq_some_iff] at isJob
  obtain ⟨index, isIndex, isDispatch⟩ := isJob
  obtain ⟨known, rfl⟩ := List.getElem?_eq_some_iff.mp isIndex
  rw [List.getElem_range] at isDispatch
  exact ⟨by simpa using known, isDispatch⟩

/-- What the terminal event of a job with its own result says. -/
theorem terminalEvent_of_belongs {job : Job}
    (belongs : job.result.BelongsTo job.engineRequest) :
    (job.result.succeeded = true ∧ job.terminalEvent.kind = .completed ∧
      job.terminalEvent.resultRef = simulatedOutput job.engineRequest ∧
      job.terminalEvent.tokensGenerated = job.engineRequest.maxOutputTokens ∧
      job.terminalEvent.failureReason = []) ∨
    (job.result.succeeded = false ∧ job.terminalEvent.kind = .failed ∧
      job.terminalEvent.resultRef = [] ∧ job.terminalEvent.tokensGenerated = 0) := by
  unfold Job.terminalEvent
  cases succeeded : job.result.succeeded with
  | true =>
      left
      refine ⟨rfl, ?_, ?_, ?_, ?_⟩
      · simp
      · simpa using belongs.2 succeeded
      · simp [Job.engineRequest, toEngineRequest]
      · simp
  | false => simp

/-- A service that has delivered the only request it was sent, whether the last write
succeeds or not. -/
theorem delivered_alone (written : Bool) :
    ∃ (service : EngineService (SelectionQueue EngineRequest)) (past : List Action),
      Trace Step small past service ∧ (accepted past)[0]? = some (attempt 1) ∧
      (stream 0 past).length = (if written then 3 else 2) ∧
      (service.jobs 0).result.succeeded = true ∧ service.handlers 0 = .returned ∧
      past.any (Action.loses 0) = !written := by
  have acknowledged := (Trace.single (Step.dispatch small (attempt 1))).snoc
    (@Step.acknowledge _ _ _ 0 true (by decide +kernel))
  have taken := (acknowledged.snoc (Step.wake rfl (by decide +kernel))).snoc (Step.take rfl)
  have ran := (taken.snoc (Step.submit rfl)).snoc
    (@Step.run _ _ _ _ _ 3 _ rfl (Option.some_get (by decide +kernel)).symm)
  have published := (ran.snoc (Step.settle rfl)).snoc (Step.publish rfl)
  have begun := published.snoc
    (@Step.writePrefill _ _ _ 0 true (by decide +kernel) (by decide +kernel))
  have delivered := begun.snoc (@Step.writeTerminal _ _ _ 0 written (by decide +kernel))
  refine ⟨_, _, delivered, rfl, ?_, by decide +kernel, by decide +kernel, ?_⟩
  · cases written <;> decide +kernel
  · cases written <;> decide +kernel

/-- The loop of `Dispatch`: nothing once it reads a rejection, else the result of the
last completion. -/
def readResult : List DispatchEvent → Text → Option Text
  | [], result => some result
  | .ack ack :: later, result =>
      if ack.status = .rejected then none else readResult later result
  | .progress event :: later, result =>
      readResult later (if event.kind = .completed then event.resultRef else result)

/-- `Dispatch` of the durable router; `finished` is that `Finish` reports `OK`. -/
def dispatchResult (events : List DispatchEvent) (finished : Bool) : Text :=
  match readResult events [] with
  | none => []
  | some result => if finished then result else []

/-- The flags of `DispatchOne` after an event: rejected and completed. -/
def noteEvent (seen : Bool × Bool) : DispatchEvent → Bool × Bool
  | .ack ack => (decide (ack.status = .rejected), seen.2)
  | .progress event => (seen.1, seen.2 || decide (event.kind = .completed))

def dispatchOne (events : List DispatchEvent) (finished expectRejection : Bool) : Bool :=
  let seen := events.foldl noteEvent (false, false)
  finished && if expectRejection then seen.1 else seen.2 && !seen.1

/-- What a client has read of the stream of a job, and whether the status was `OK`, which
a stream that a write has failed on does not end with. -/
structure Received (past : List Action) (service : EngineService η) (job : JobId)
    (events : List DispatchEvent) (finished : Bool) : Prop where
  inOrder : events <+: stream job past
  whole : finished = true → events = stream job past ∧ service.handlers job = .returned ∧
    past.any (Action.loses job) = false

/-- A client that sees `OK` has read the acknowledgement and the progress. -/
theorem Received.finished {draws : JitterDraws} {config : EngineConfig} {queueCapacity : ℕ}
    {start service : EngineService η} {past : List Action}
    (made : new draws config queueCapacity = .ok start) (trace : Trace Step start past service)
    {job : JobId} {events : List DispatchEvent} (known : job < service.created)
    (received : Received past service job events true) :
    (service.jobs job).done = true ∧
      events = .ack { status := .accepted } :: (service.jobs job).writeProgress := by
  obtain ⟨isRead, returned, unbroken⟩ := received.whole rfl
  rcases (conversation made trace job).stages with ⟨_, stage⟩ | ⟨_, waiting⟩ |
    ⟨done, progress, isStream, _, all⟩
  · rcases stage known with acknowledging | lost
    · cases acknowledging.symm.trans returned
    · exact absurd (by simp [Action.loses]) (List.any_eq_false.mp unbroken _ lost)
  · cases waiting.symm.trans returned
  · rw [all unbroken, if_pos returned] at isStream
    exact ⟨done, isRead.trans isStream⟩

/-- Some of the progress of a job, read after the acknowledgement, is read without a
rejection, and gives an output only if its terminal event is a completion. -/
theorem readResult_of_sublist {job : Job} {progress : List DispatchEvent}
    (some : progress.Sublist job.writeProgress) :
    readResult (.ack { status := .accepted } :: progress) [] = .some [] ∨
      (readResult (.ack { status := .accepted } :: progress) [] =
          .some job.terminalEvent.resultRef ∧
        job.terminalEvent.kind = .completed) := by
  have terminal : readResult [.progress job.terminalEvent] [] = .some [] ∨
      (readResult [.progress job.terminalEvent] [] = .some job.terminalEvent.resultRef ∧
        job.terminalEvent.kind = .completed) := by
    by_cases completed : job.terminalEvent.kind = .completed
    · exact Or.inr ⟨by simp [readResult, completed], completed⟩
    · exact Or.inl (by simp [readResult, completed])
  have prefill : ∀ later, readResult (.progress job.prefillEvent :: later) [] =
      readResult later [] := fun _ => rfl
  rcases List.sublist_cons_iff.mp some with later | ⟨rest, rfl, later⟩
  · rcases List.sublist_cons_iff.mp later with nothing | ⟨rest, rfl, nothing⟩
    · rw [List.sublist_nil.mp nothing]
      exact Or.inl rfl
    · rw [List.sublist_nil.mp nothing]
      exact terminal
  · rcases List.sublist_cons_iff.mp later with nothing | ⟨rest, rfl, nothing⟩
    · rw [List.sublist_nil.mp nothing]
      exact Or.inl rfl
    · rw [List.sublist_nil.mp nothing]
      exact terminal

/-- A whole conversation is read as its terminal event tells. -/
theorem read_whole {job : Job} (belongs : job.result.BelongsTo job.engineRequest)
    (expectRejection : Bool) :
    readResult (.ack { status := .accepted } :: job.writeProgress) [] =
        some (if job.result.succeeded then simulatedOutput job.engineRequest else []) ∧
      dispatchOne (.ack { status := .accepted } :: job.writeProgress) true expectRejection =
        (job.result.succeeded && !expectRejection) := by
  rcases terminalEvent_of_belongs belongs with ⟨succeeded, kind, output, _⟩ | ⟨failed, kind, _⟩
  · refine ⟨?_, ?_⟩
    · simp [Job.writeProgress, readResult, kind, output, succeeded]
    · cases expectRejection <;> simp [Job.writeProgress, dispatchOne, noteEvent, kind, succeeded]
  · refine ⟨?_, ?_⟩
    · simp [Job.writeProgress, readResult, kind, failed, Job.prefillEvent]
    · cases expectRejection <;>
        simp [Job.writeProgress, dispatchOne, noteEvent, kind, failed, Job.prefillEvent]

theorem simulatedOutput_ne_nil (request : EngineRequest) : simulatedOutput request ≠ [] := by
  unfold simulatedOutput
  simp

/-- Whenever a client stops reading, it has read no rejection and no output but that of
the job. -/
theorem Received.reads_own {draws : JitterDraws} {config : EngineConfig} {queueCapacity : ℕ}
    {start service : EngineService η} {past : List Action}
    (made : new draws config queueCapacity = .ok start) (trace : Trace Step start past service)
    {job : JobId} {events : List DispatchEvent} {finished : Bool}
    (received : Received past service job events finished) :
    readResult events [] = some [] ∨
      readResult events [] = some (simulatedOutput (service.jobs job).engineRequest) := by
  have started := received.inOrder
  rcases (conversation made trace job).stages with ⟨silent, _⟩ | ⟨acked, _⟩ |
    ⟨done, progress, isStream, some, _⟩
  · rw [silent] at started
    rw [List.prefix_nil.mp started]
    exact Or.inl rfl
  · rw [acked] at started
    left
    rcases List.prefix_cons_iff.mp started with rfl | ⟨afterAck, rfl, ackRead⟩
    · rfl
    · rw [List.prefix_nil.mp ackRead]
      rfl
  · rw [isStream] at started
    rcases List.prefix_cons_iff.mp started with rfl | ⟨afterAck, rfl, inProgress⟩
    · exact Or.inl rfl
    rcases readResult_of_sublist (inProgress.sublist.trans some) with
      isEmpty | ⟨isResult, completed⟩
    · exact Or.inl isEmpty
    · right
      rcases terminalEvent_of_belongs (done_belongs made trace job done) with
        ⟨_, _, output, _⟩ | ⟨_, failed, _⟩
      · rw [isResult, output]
      · cases completed.symm.trans failed

/-- **What a dispatch returns.** Whenever a client stops reading, it has read no
rejection of an accepted dispatch and no output but that of its own request. The durable
router gets an output if and only if the status is `OK` and the job has succeeded, and
the other router then takes the dispatch for completed. -/
theorem dispatch_result {draws : JitterDraws} {config : EngineConfig} {queueCapacity : ℕ}
    {start service : EngineService η} {past : List Action}
    (made : EngineService.new draws config queueCapacity = .ok start)
    (trace : Trace Step start past service) {job : JobId} {request : DispatchRequest}
    (isJob : (accepted past)[job]? = some request) {events : List DispatchEvent}
    {finished : Bool} (received : Received past service job events finished) :
    (readResult events [] = some [] ∨
      readResult events [] = some (simulatedOutput (toEngineRequest request.request))) ∧
    (finished = true → (service.jobs job).done = true) ∧
    dispatchResult events finished =
      (if finished = true ∧ (service.jobs job).result.succeeded = true then
        simulatedOutput (toEngineRequest request.request)
      else []) ∧
    (dispatchOne events finished false = true ↔ dispatchResult events finished ≠ []) ∧
    dispatchOne events finished true = false := by
  obtain ⟨known, rfl⟩ := dispatch_of_accepted made trace isJob
  have readsOwn := received.reads_own made trace
  cases finished with
  | false =>
      have nothing : dispatchResult events false = [] := by
        unfold dispatchResult
        rcases readsOwn with isEmpty | isOutput
        · simp [isEmpty]
        · simp [isOutput]
      refine ⟨readsOwn, Bool.noConfusion, ?_, ?_, rfl⟩
      · simpa using nothing
      · simp [nothing, dispatchOne]
  | true =>
      obtain ⟨done, rfl⟩ := received.finished made trace known
      have read := read_whole (done_belongs made trace job done)
      have result : dispatchResult (.ack { status := .accepted } ::
          (service.jobs job).writeProgress) true =
          if (service.jobs job).result.succeeded then
            simulatedOutput (service.jobs job).engineRequest
          else [] := by
        unfold dispatchResult
        rw [(read true).1]
        rfl
      refine ⟨readsOwn, fun _ => done, ?_, ?_, ?_⟩
      · rw [result]
        simp [Job.engineRequest]
      · rw [result, (read false).2]
        simp [simulatedOutput_ne_nil]
      · rw [(read true).2]
        simp

/-- A client that has read the stream of the only request has its output. -/
theorem dispatch_result_alone :
    ∃ (service : EngineService (SelectionQueue EngineRequest)) (past : List Action)
      (events : List DispatchEvent),
      Trace Step small past service ∧ Received past service 0 events true ∧
      dispatchResult events true = simulatedOutput (toEngineRequest (attempt 1).request) := by
  obtain ⟨service, past, trace, isJob, _, succeeded, returned, unbroken⟩ := delivered_alone true
  have received : Received past service 0 (stream 0 past) true :=
    ⟨List.prefix_rfl, fun _ => ⟨rfl, returned, unbroken⟩⟩
  obtain ⟨_, _, result, _⟩ := dispatch_result new_small trace isJob received
  refine ⟨service, past, stream 0 past, trace, received, ?_⟩
  rw [result, if_pos ⟨rfl, succeeded⟩]

end EngineService
end InferSched.Distributed

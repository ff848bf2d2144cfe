import InferSched.Engine.BatchConsistency

/-! # The token budget of an iteration

`AdmitReady` takes a candidate only if the prompts admitted so far, its own prompt
and one token for every sequence already in the batch fit into `max_batch_tokens`. The
first token of the candidate itself is not counted, since a prompt that fills the
budget alone is not impossible. So the prompts admitted and the sequences decoded in one
iteration come to at most one token more than the limit.
-/

namespace InferSched.Engine

open Library

variable {η : Type}

namespace Moment

/-- The prompts admitted in this scan are within the limit, and with one token for
every sequence of the batch they exceed it by at most one. -/
structure Budgeted (moment : Moment η) : Prop where
  prompts : moment.scan.prefillBudget ≤ moment.engine.config.maxBatchTokens
  batch : moment.scan.prefillBudget + moment.engine.active.length ≤
    moment.engine.config.maxBatchTokens + 1

/-- A step that takes no prompt in and adds no sequence. -/
theorem Budgeted.of_le {before after : Moment η} (budgeted : before.Budgeted)
    (config : after.engine.config = before.engine.config)
    (budget : after.scan.prefillBudget ≤ before.scan.prefillBudget)
    (active : after.engine.active.length ≤ before.engine.active.length) : after.Budgeted := by
  obtain ⟨prompts, batch⟩ := budgeted
  constructor
  · rw [config]
    exact budget.trans prompts
  · rw [config]
    exact (Nat.add_le_add budget active).trans batch

theorem active_matchPrefix (engine : ContinuousEngine η) (candidate : EngineRequest) :
    (engine.matchPrefix candidate).2.active = engine.active := by
  unfold ContinuousEngine.matchPrefix
  split
  · rfl
  · rfl

variable [RequestQueue η]

/-- A step keeps the budget: only an admission uses it, and its tests leave room. -/
theorem Step.budgeted {before after : Moment η} (step : Step before after)
    (invariant : before.engine.Invariant before.preparing) (budgeted : before.Budgeted) :
    after.Budgeted := by
  have config := (step.fixed invariant).1
  cases step with
  | forgive empty => exact budgeted.of_le config le_rfl le_rfl
  | pop room popped => exact budgeted.of_le config le_rfl le_rfl
  | reject impossible => exact budgeted.of_le config le_rfl le_rfl
  | answer possible found => exact budgeted.of_le config le_rfl le_rfl
  | miss possible missing => exact budgeted.of_le config le_rfl le_rfl
  | touch =>
      refine budgeted.of_le config le_rfl ?_
      rw [active_matchPrefix]
  | evict evicted => exact budgeted.of_le config le_rfl le_rfl
  | @admission engine scan candidate matched possible room forgiven budget longest allocated =>
      have prompts : scan.prefillBudget ≤ engine.config.maxBatchTokens := budgeted.prompts
      obtain ⟨_, _, _, _, active⟩ := ContinuousEngine.admitCandidate_frame
        { engine with
          kvCache := (engine.kvCache.allocate candidate.requestId
            (engine.promptBlocks candidate) (matched.getD [])).2 } candidate matched
      constructor
      · rw [config]
        change scan.prefillBudget + candidate.promptTokens ≤ engine.config.maxBatchTokens
        omega
      · rw [config, active, List.length_append, List.length_singleton]
        change scan.prefillBudget + candidate.promptTokens + (engine.active.length + 1) ≤
          engine.config.maxBatchTokens + 1
        omega
  | requeue engine scan => exact budgeted.of_le config le_rfl le_rfl
  | @complete engine scan kept later active split finished =>
      refine budgeted.of_le config le_rfl ?_
      rw [split, List.length_append, List.length_append, List.length_cons]
      omega
  | prepare nothing unfinished => exact budgeted.of_le config le_rfl le_rfl
  | grow member short appended => exact budgeted.of_le config le_rfl le_rfl
  | preempt member short scarce unpinned =>
      refine budgeted.of_le config le_rfl ?_
      have shorter := ContinuousEngine.preempt_length (List.ne_nil_of_mem member)
      exact Nat.le_of_succ_le shorter.le
  | decode inhabited prepared =>
      refine budgeted.of_le config le_rfl ?_
      exact (List.length_map _).le
  | close nothing => exact budgeted.of_le config (Nat.zero_le _) le_rfl

theorem Steps.budgeted {before after : Moment η} (steps : Steps before after)
    (invariant : before.engine.Invariant before.preparing) (budgeted : before.Budgeted) :
    after.Budgeted := by
  induction steps with
  | refl => exact budgeted
  | tail earlier step ih => exact step.budgeted (Steps.invariant earlier invariant) ih

end Moment

namespace ContinuousEngine

open Moment

/-! ### What an iteration admits and decodes -/

/-- The scan appends sequences to the batch and adds their prompts to its budget. -/
def Extends (engine : ContinuousEngine η) (scan : Scan) (result : ContinuousEngine η × Scan) :
    Prop :=
  ∃ new, result.1.active = engine.active ++ new ∧
    result.2.prefillBudget =
      scan.prefillBudget + (new.map fun active => active.request.promptTokens).sum

/-- Nothing is admitted where the active sequences and the budget stay. -/
theorem Extends.nothing {engine next : ContinuousEngine η} {scan after : Scan}
    (active : next.active = engine.active) (budget : after.prefillBudget = scan.prefillBudget) :
    engine.Extends scan (next, after) :=
  ⟨[], active.trans (List.append_nil _).symm, budget⟩

/-- Two stretches of a scan admit what one after the other does. -/
theorem Extends.trans {engine next : ContinuousEngine η} {scan after : Scan}
    {result : ContinuousEngine η × Scan} (first : engine.Extends scan (next, after))
    (second : next.Extends after result) : engine.Extends scan result := by
  obtain ⟨new, active, budget⟩ := first
  obtain ⟨more, activeMore, budgetMore⟩ := second
  refine ⟨new ++ more, ?_, ?_⟩
  · rw [activeMore, active, List.append_assoc]
  · rw [budgetMore, budget, List.map_append, List.sum_append, Nat.add_assoc]

/-- Evictions for a candidate leave the active sequences. -/
theorem active_allocateEvicting (candidate : EngineRequest) (turns : ℕ)
    (matched : Option (List BlockId)) (engine : ContinuousEngine η) :
    (allocateEvicting candidate turns matched engine).2.2.active = engine.active := by
  induction turns generalizing matched engine with
  | zero => rfl
  | succ turns ih =>
      unfold allocateEvicting
      dsimp only
      split
      · rfl
      · split
        · rw [ih, active_matchPrefix]
          rfl
        · rfl

/-- A candidate is admitted with its tokens taken from the budget, or not at all. -/
theorem extends_tryAdmit (engine : ContinuousEngine η) (candidate : EngineRequest) (scan : Scan) :
    engine.Extends scan (engine.tryAdmit candidate scan) := by
  have same : (allocateEvicting candidate
      ((engine.matchPrefix candidate).2.prefixCache.nodeCount + 1)
      (engine.matchPrefix candidate).1 (engine.matchPrefix candidate).2).2.2.active =
        engine.active := by
    rw [active_allocateEvicting, active_matchPrefix]
  unfold tryAdmit
  dsimp only
  split
  · exact .nothing same rfl
  · obtain ⟨_, _, _, _, active⟩ := admitCandidate_frame
      (allocateEvicting candidate ((engine.matchPrefix candidate).2.prefixCache.nodeCount + 1)
        (engine.matchPrefix candidate).1 (engine.matchPrefix candidate).2).2.2 candidate
      (allocateEvicting candidate ((engine.matchPrefix candidate).2.prefixCache.nodeCount + 1)
        (engine.matchPrefix candidate).1 (engine.matchPrefix candidate).2).2.1
    refine ⟨_, active.trans (congrArg (· ++ _) same), ?_⟩
    rw [List.map_singleton, List.sum_singleton]

theorem extends_considerCandidate (engine : ContinuousEngine η) (candidate : EngineRequest)
    (scan : Scan) :
    engine.Extends scan (engine.considerCandidate candidate scan).2 := by
  by_cases passes : engine.Examines candidate scan
  · rcases considerCandidate_examined passes with ⟨cached, _, turn⟩ | ⟨_, turn⟩
    · rw [turn]
      exact .nothing rfl rfl
    · rw [turn]
      exact extends_tryAdmit (engine.lookupResult candidate).2 candidate scan
  · rcases considerCandidate_unexamined passes with ⟨reason, _, turn⟩ | ⟨goes, turn⟩
    · rw [turn]
      exact .nothing rfl rfl
    · rw [turn]
      exact .nothing rfl rfl

/-- The engine as `AdmitReady` finds it in an iteration. -/
def begun (engine : ContinuousEngine η) : ContinuousEngine η :=
  if engine.active = [] then { engine with preemptedRequests := ∅ } else engine

variable {engine : ContinuousEngine η}

theorem active_begun (engine : ContinuousEngine η) : engine.begun.active = engine.active := by
  unfold begun
  split
  · rfl
  · rfl

theorem Invariant.begun (invariant : engine.Invariant false) : engine.begun.Invariant false := by
  unfold ContinuousEngine.begun
  split
  · exact invariant.congr rfl rfl rfl rfl
  · exact invariant

theorem config_begun (engine : ContinuousEngine η) : engine.begun.config = engine.config := by
  unfold begun
  split
  · rfl
  · rfl

variable [RequestQueue η]

/-- A whole scan adds sequences at the end, and their tokens to the budget used. -/
theorem extends_scanPending (remaining : ℕ) (engine : ContinuousEngine η) (scan : Scan) :
    engine.Extends scan (scanPending remaining engine scan) := by
  induction remaining generalizing engine scan with
  | zero => exact .nothing rfl rfl
  | succ remaining ih =>
      unfold scanPending
      split
      · split
        · exact .nothing rfl rfl
        · next candidate rest _ =>
            have turn := extends_considerCandidate { engine with pending := rest } candidate scan
            dsimp only
            split
            · exact Extends.trans turn (ih _ _)
            · exact turn
      · exact .nothing rfl rfl

/-- The sequences that an iteration admits. -/
def admittedSequences (engine : ContinuousEngine η) : List ActiveRequest :=
  engine.begun.admitReady.2.active.drop engine.active.length

/-- The sequences that get a token in an iteration. -/
def decodedSequences (engine : ContinuousEngine η) : List ActiveRequest :=
  let started := engine.admitAndComplete
  if started.2.active = [] then []
  else
    let prepared := started.2.prepareDecodeBlocks
    if prepared.1 = false then [] else prepared.2.active

/-- The scan of an iteration, once the deferred requests are back in the queue. -/
def scanned (engine : ContinuousEngine η) : Scan :=
  { (scanPending (PriorityQueue.size engine.begun.pending) engine.begun {}).2 with
    deferred := [] }

/-- The budget of the scan is the sum of the prompts admitted. -/
theorem prefillBudget_scanned (engine : ContinuousEngine η) :
    engine.scanned.prefillBudget =
      (engine.admittedSequences.map fun active => active.request.promptTokens).sum := by
  obtain ⟨new, active, budget⟩ := extends_scanPending
    (PriorityQueue.size engine.begun.pending) engine.begun {}
  have admitted : engine.admittedSequences = new := by
    unfold admittedSequences
    change (scanPending _ engine.begun {}).1.active.drop _ = new
    rw [active, active_begun]
    exact List.drop_left
  rw [admitted]
  exact budget.trans (Nat.zero_add _)

/-- An iteration reaches the end of its scan by steps of the engine. -/
theorem scanned_steps (invariant : engine.Invariant false) :
    Steps (rest engine.begun) ⟨engine.begun.admitReady.2, engine.scanned, false⟩ :=
  (scanPending_steps (PriorityQueue.size engine.begun.pending) {} invariant.begun).tail
    (.requeue _ _)

/-- What an iteration admits and decodes exceeds the limit by at most one token. -/
theorem iteration_tokens_le (invariant : engine.Invariant false)
    (budgeted : (rest engine).Budgeted) :
    (engine.admittedSequences.map fun active => active.request.promptTokens).sum +
      engine.decodedSequences.length ≤ engine.config.maxBatchTokens + 1 := by
  have config := config_begun engine
  have start : (rest engine.begun).Budgeted := by
    refine budgeted.of_le config le_rfl ?_
    exact (congrArg List.length (active_begun engine)).le
  have scanning := scanned_steps invariant
  have nothing : engine.scanned.deferred = [] := rfl
  obtain ⟨completing, unfinished⟩ :=
    completeFinished_steps engine.begun.admitReady.2 engine.scanned
  have completed := scanning.trans completing
  have valid := Steps.invariant completed invariant.begun
  have same := (Steps.fixed completed invariant.begun).1.trans config
  rw [← prefillBudget_scanned]
  unfold decodedSequences
  dsimp only
  split
  · have within := (Steps.budgeted completed invariant.begun start).prompts
    rw [same] at within
    exact within.trans (Nat.le_succ _)
  · next inhabited =>
      obtain ⟨preparing, left, _⟩ := prepareDecodeBlocks_steps valid inhabited nothing unfinished
      have prepared := completed.trans preparing
      have within := (Steps.budgeted prepared invariant.begun start).batch
      have succeeds : engine.admitAndComplete.2.prepareDecodeBlocks.1 = true :=
        decide_eq_true left
      rw [succeeds, if_neg Bool.true_eq_false_eq_False]
      rw [(Steps.fixed prepared invariant.begun).1.trans config] at within
      exact within

/-- The batch keeps its bound between calls. -/
theorem budgeted_run {start : ContinuousEngine η} (invariant : start.Invariant false)
    (budgeted : (rest start).Budgeted) (calls : List Call) :
    (rest (object.run calls start)).Budgeted := by
  refine (@AtomicObject.invariant _ _ _ object (fun engine => engine.Invariant false ∧
    (rest engine).Budgeted) ?_ calls start ⟨invariant, budgeted⟩).2
  rintro call engine ⟨valid, within⟩
  refine ⟨(respond_invariant call valid).1, ?_⟩
  cases call with
  | submit request => exact within.of_le rfl le_rfl le_rfl
  | runOneIteration =>
      exact Steps.budgeted (runOneIteration_steps valid) valid within
  | awaitArrival arrival => exact within.of_le rfl le_rfl le_rfl
  | clearCaches => exact within.of_le rfl le_rfl le_rfl

/-- **Token budget.** In every iteration of every run, the prompt tokens of the
sequences admitted and the sequences decoded come to at most one more than
`max_batch_tokens`. -/
theorem iteration_tokens_bounded {draws : JitterDraws} {config : EngineConfig}
    {start : ContinuousEngine η} (accepted : new draws config = .ok start) (calls : List Call) :
    let engine := object.run calls start
    (engine.admittedSequences.map fun active => active.request.promptTokens).sum +
      engine.decodedSequences.length ≤ config.maxBatchTokens + 1 := by
  intro engine
  obtain ⟨invariant, isConfig, _⟩ := run_invariant accepted calls
  have empty : (rest start).Budgeted := by
    refine ⟨Nat.zero_le _, ?_⟩
    change 0 + start.active.length ≤ _
    rw [(new_eq_ok accepted).2.2.2.1]
    exact Nat.zero_le _
  have budgeted := budgeted_run (Invariant.new accepted).1 empty calls
  have bounded := iteration_tokens_le invariant budgeted
  rw [isConfig] at bounded
  exact bounded

/-- A prompt that fills the limit, with one token to generate. -/
def filling : EngineRequest :=
  { requestId := ['a'], promptTokens := 4, maxOutputTokens := 1 }

/-- The engine of a limit of four tokens. -/
def narrow : ContinuousEngine (SelectionQueue EngineRequest) :=
  (ContinuousEngine.new (fun _ _ _ => 0) { kvBlocks := 4, maxBatchTokens := 4 }).toOption.get rfl

theorem new_narrow :
    ContinuousEngine.new (fun _ _ _ => 0) { kvBlocks := 4, maxBatchTokens := 4 } = .ok narrow :=
  rfl

/-- One iteration admits a prompt of four tokens and decodes it, with a limit of four. -/
theorem iteration_tokens_exceeded :
    new (fun _ _ _ => 0) { kvBlocks := 4, maxBatchTokens := 4 } = .ok narrow ∧
      ¬ ((object.run [.submit filling] narrow).admittedSequences.map
          fun active => active.request.promptTokens).sum +
        (object.run [.submit filling] narrow).decodedSequences.length ≤ 4 :=
  ⟨new_narrow, by decide +kernel⟩

theorem iteration_tokens_bounded_narrow :
    new (fun _ _ _ => 0) { kvBlocks := 4, maxBatchTokens := 4 } = .ok narrow ∧
      ((object.run [.submit filling] narrow).admittedSequences.map
          fun active => active.request.promptTokens).sum +
        (object.run [.submit filling] narrow).decodedSequences.length ≤ 4 + 1 :=
  ⟨new_narrow, iteration_tokens_bounded new_narrow [.submit filling]⟩

end ContinuousEngine
end InferSched.Engine

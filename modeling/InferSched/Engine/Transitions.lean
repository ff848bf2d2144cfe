import InferSched.Engine.BatchAnswers
import InferSched.Engine.DecodeBlocks
import InferSched.Engine.TokenBudget

/-! # The transitions of requests

Both engines move a state machine along with every request and ignore whether
`TransitionTo` succeeded. Here the calls of `TransitionTo` are listed, each with
the state the machine is in: none of them fails, because a machine starts in
`waitingAdmission` and a sequence between two iterations is in `decode`.
-/

namespace InferSched.Engine

open Library

/-- A call of `TransitionTo` on the machine of a request. -/
structure TransitionCall where
  requestId : Text
  state : ExecutionState
  next : ExecutionState
deriving DecidableEq, Repr

namespace TransitionCall

/-- What the call returns. -/
def returned (call : TransitionCall) : Bool :=
  (call.state.transitionTo call.next).1

/-- The edges of a life: admission, prefill, decode, and then completion or
preemption, which leads back; failure only before admission. -/
def edges : List (ExecutionState × ExecutionState) :=
  [(.waitingAdmission, .prefilling), (.prefilling, .decode), (.decode, .completed),
    (.decode, .preempted), (.preempted, .waitingAdmission), (.waitingAdmission, .failed)]

/-- The call succeeds along an edge of a life. -/
def Legal (call : TransitionCall) : Prop :=
  call.returned = true ∧ (call.state, call.next) ∈ edges

instance (call : TransitionCall) : Decidable call.Legal :=
  inferInstanceAs (Decidable (_ ∧ _))

/-- Every edge of a life is a transition that `CanTransition` allows. -/
theorem legal_of_edge (requestId : Text) {state next : ExecutionState}
    (edge : (state, next) ∈ edges) : Legal ⟨requestId, state, next⟩ := by
  have allowed : ∀ pair ∈ edges, (ExecutionState.transitionTo pair.1 pair.2).1 = true := by
    decide
  exact ⟨allowed _ edge, edge⟩

end TransitionCall

/-! ### The continuous engine -/

namespace ContinuousEngine

variable {η : Type}

/-- The calls on the machine of an admitted request. -/
def admitTransitions (candidate : EngineRequest) : List TransitionCall :=
  [⟨candidate.requestId, .waitingAdmission, .prefilling⟩,
    ⟨candidate.requestId, (ExecutionState.transitionTo .waitingAdmission .prefilling).2, .decode⟩]

/-- The calls in the rest of a turn, when the result cache has no answer. -/
def tryAdmitTransitions (engine : ContinuousEngine η) (candidate : EngineRequest) :
    List TransitionCall :=
  let found := engine.matchPrefix candidate
  let allocated := allocateEvicting candidate (found.2.prefixCache.nodeCount + 1) found.1 found.2
  if allocated.1 ≠ .allocated then [] else admitTransitions candidate

/-- The calls in one turn of the scan. -/
def considerTransitions (engine : ContinuousEngine η) (candidate : EngineRequest) (scan : Scan) :
    List TransitionCall :=
  if engine.Examines candidate scan ∧ (engine.lookupResult candidate).1 = none then
    (engine.lookupResult candidate).2.tryAdmitTransitions candidate
  else []

/-- The calls of `CompleteFinished`. -/
def completeTransitions (engine : ContinuousEngine η) : List TransitionCall :=
  (engine.active.filter fun active =>
    !decide (active.generatedTokens < active.request.maxOutputTokens)).map fun active =>
      ⟨active.request.requestId, active.state, .completed⟩

/-- The calls of `Preempt`. -/
def preemptTransitions (engine : ContinuousEngine η) (activeIndex : ℕ) : List TransitionCall :=
  match engine.active[activeIndex]? with
  | none => []
  | some victim =>
      [⟨victim.request.requestId, victim.state, .preempted⟩,
        ⟨victim.request.requestId, (victim.state.transitionTo .preempted).2, .waitingAdmission⟩]

variable [RequestQueue η]

/-- The calls of a scan. -/
def scanTransitions : ℕ → ContinuousEngine η → Scan → List TransitionCall
  | 0, _, _ => []
  | remaining + 1, engine, scan =>
      if engine.active.length < engine.config.maxBatchSequences then
        match RequestQueue.popReady engine.pending engine.clock with
        | none => []
        | some (candidate, rest) =>
            let engine := { engine with pending := rest }
            let turn := engine.considerCandidate candidate scan
            engine.considerTransitions candidate scan ++
              if turn.1 then scanTransitions remaining turn.2.1 turn.2.2 else []
      else []

/-- The calls of the passes over the batch. -/
def passTransitions : ℕ → ContinuousEngine η → List TransitionCall
  | 0, _ => []
  | turns + 1, engine =>
      let pass := preparePass engine.active engine
      if pass.1 then []
      else
        pass.2.preemptTransitions pass.2.selectVictim ++
          passTransitions turns (pass.2.preempt pass.2.selectVictim)

/-- The calls of `RunOneIteration`. -/
def iterationTransitions (engine : ContinuousEngine η) : List TransitionCall :=
  let started := engine.admitAndComplete
  let prepared := started.2.prepareDecodeBlocks
  scanTransitions (PriorityQueue.size engine.begun.pending) engine.begun {} ++
    engine.begun.admitReady.2.completeTransitions ++
    if started.2.active = [] then []
    else
      passTransitions (started.2.active.length + 1) started.2 ++
        if prepared.1 = false then [] else prepared.2.decodeBatch.completeTransitions

/-- The calls of `TransitionTo` in a call of the engine. -/
def transitions : Call → ContinuousEngine η → List TransitionCall
  | .runOneIteration, engine => engine.iterationTransitions
  | _, _ => []

omit [RequestQueue η] in
/-- Every sequence of the batch is decoding. -/
def Decoding (engine : ContinuousEngine η) : Prop :=
  ∀ active ∈ engine.active, active.state = .decode

end ContinuousEngine

namespace Moment

variable {η : Type} [RequestQueue η]

/-- A step leaves every sequence of the batch decoding. -/
theorem Step.decoding {before after : Moment η} (step : Step before after)
    (decoding : before.engine.Decoding) : after.engine.Decoding := by
  cases step with
  | forgive empty => exact decoding
  | pop room popped => exact decoding
  | reject impossible => exact decoding
  | answer possible found => exact decoding
  | miss possible missing => exact decoding
  | touch =>
      unfold ContinuousEngine.Decoding
      rw [active_matchPrefix]
      exact decoding
  | evict evicted => exact decoding
  | @admission engine scan candidate matched possible room forgiven budget longest allocated =>
      obtain ⟨_, _, _, _, active⟩ := ContinuousEngine.admitCandidate_frame
        { engine with
          kvCache := (engine.kvCache.allocate candidate.requestId
            (engine.promptBlocks candidate) (matched.getD [])).2 } candidate matched
      unfold ContinuousEngine.Decoding
      rw [active]
      exact List.forall_mem_append.mpr ⟨decoding, List.forall_mem_singleton.mpr rfl⟩
  | requeue engine scan => exact decoding
  | complete split finished =>
      intro other member
      apply decoding
      rw [split]
      rcases List.mem_append.mp member with earlier | later
      · exact List.mem_append_left _ earlier
      · exact List.mem_append_right _ (List.mem_cons_of_mem _ later)
  | prepare nothing unfinished => exact decoding
  | grow member short appended => exact decoding
  | preempt member short scarce unpinned =>
      unfold ContinuousEngine.preempt
      split
      · exact decoding
      · exact fun other left => decoding other (List.mem_of_mem_eraseIdx left)
  | decode inhabited prepared =>
      intro other member
      obtain ⟨active, isActive, rfl⟩ := List.mem_map.mp member
      exact decoding active isActive
  | close nothing => exact decoding

theorem Steps.decoding {before after : Moment η} (steps : Steps before after)
    (decoding : before.engine.Decoding) : after.engine.Decoding := by
  induction steps with
  | refl => exact decoding
  | tail _ step ih => exact step.decoding ih

end Moment

namespace ContinuousEngine

open Moment TransitionCall

variable {η : Type} {engine : ContinuousEngine η}

theorem considerTransitions_legal (engine : ContinuousEngine η) (candidate : EngineRequest)
    (scan : Scan) : ∀ call ∈ engine.considerTransitions candidate scan, call.Legal := by
  unfold considerTransitions tryAdmitTransitions
  dsimp only
  split
  · split
    · exact List.forall_mem_nil _
    · intro call member
      rcases List.mem_pair.mp member with rfl | rfl
      · exact legal_of_edge _ (by decide)
      · exact legal_of_edge _ (by decide)
  · exact List.forall_mem_nil _

theorem Decoding.completeTransitions_legal (decoding : engine.Decoding) :
    ∀ call ∈ engine.completeTransitions, call.Legal := by
  intro call member
  obtain ⟨active, finished, rfl⟩ := List.mem_map.mp member
  rw [decoding active (List.mem_of_mem_filter finished)]
  exact legal_of_edge _ (by decide)

theorem Decoding.preemptTransitions_legal (decoding : engine.Decoding) (activeIndex : ℕ) :
    ∀ call ∈ engine.preemptTransitions activeIndex, call.Legal := by
  unfold preemptTransitions
  split
  · exact List.forall_mem_nil _
  · next victim found =>
      intro call member
      rw [decoding victim (List.mem_of_getElem? found)] at member
      rcases List.mem_pair.mp member with rfl | rfl
      · exact legal_of_edge _ (by decide)
      · exact legal_of_edge _ (by decide)

variable [RequestQueue η]

theorem scanTransitions_legal (remaining : ℕ) (engine : ContinuousEngine η) (scan : Scan) :
    ∀ call ∈ scanTransitions remaining engine scan, call.Legal := by
  induction remaining generalizing engine scan with
  | zero => exact List.forall_mem_nil _
  | succ remaining ih =>
      unfold scanTransitions
      split
      · split
        · exact List.forall_mem_nil _
        · refine List.forall_mem_append.mpr ⟨considerTransitions_legal _ _ scan, ?_⟩
          split
          · exact ih _ _
          · exact List.forall_mem_nil _
      · exact List.forall_mem_nil _

/-- The passes preempt decoding sequences. -/
theorem passTransitions_legal (scan : Scan) (turns : ℕ) (invariant : engine.Invariant true)
    (decoding : engine.Decoding) : ∀ call ∈ passTransitions turns engine, call.Legal := by
  induction turns generalizing engine with
  | zero => exact List.forall_mem_nil _
  | succ turns ih =>
      obtain ⟨steps, passed⟩ := preparePass_steps scan engine.active invariant fun _ => id
      unfold passTransitions
      cases success : (preparePass engine.active engine).1 with
      | true =>
          dsimp only
          rw [success, if_pos rfl]
          exact List.forall_mem_nil _
      | false =>
          dsimp only
          rw [success, if_neg Bool.false_ne_true]
          have valid : (preparePass engine.active engine).2.Invariant true :=
            steps.invariant invariant
          have still : (preparePass engine.active engine).2.Decoding := steps.decoding decoding
          obtain ⟨(step : Step ⟨_, scan, true⟩ _), next, _⟩ := passed.preempts valid success
          exact List.forall_mem_append.mpr
            ⟨still.preemptTransitions_legal _, ih next (step.decoding still)⟩

/-- Every transition of an iteration is legal, and the batch is decoding after it. -/
theorem iterationTransitions_legal (invariant : engine.Invariant false)
    (decoding : engine.Decoding) :
    engine.runOneIteration.2.Decoding ∧
      ∀ call ∈ engine.iterationTransitions, call.Legal := by
  refine ⟨(runOneIteration_steps invariant).decoding decoding, ?_⟩
  have begun : engine.begun.Decoding := by
    unfold Decoding
    rw [active_begun]
    exact decoding
  have admitted : engine.begun.admitReady.2.Decoding :=
    (scanned_steps invariant).decoding begun
  obtain ⟨scan, nothing, _, started, outcome⟩ := runOneIteration_cases invariant
  have valid : engine.admitAndComplete.2.Invariant false := started.invariant invariant
  have still : engine.admitAndComplete.2.Decoding := started.decoding decoding
  obtain ⟨_, _, _, _, unfinished⟩ := admitAndComplete_steps invariant
  unfold iterationTransitions
  refine List.forall_mem_append.mpr ⟨List.forall_mem_append.mpr ⟨scanTransitions_legal _ _ {},
    admitted.completeTransitions_legal⟩, ?_⟩
  rcases outcome with ⟨empty, _⟩ | ⟨inhabited, prepared, decoded, _⟩
  · rw [if_pos empty]
    exact List.forall_mem_nil _
  · rw [if_neg inhabited]
    have preparing : engine.admitAndComplete.2.Invariant true :=
      (Step.prepare nothing unfinished).invariant valid
    refine List.forall_mem_append.mpr ⟨passTransitions_legal scan _ preparing still, ?_⟩
    split
    · exact List.forall_mem_nil _
    · exact (decoded.decoding (prepared.decoding still)).completeTransitions_legal

/-- Every call keeps the batch decoding and makes legal transitions only. -/
theorem respond_decoding (call : Call) (invariant : engine.Invariant false)
    (decoding : engine.Decoding) :
    (object.respond call engine).2.Decoding ∧
      ∀ transition ∈ transitions call engine, transition.Legal := by
  cases call with
  | submit request => exact ⟨decoding, List.forall_mem_nil _⟩
  | runOneIteration => exact iterationTransitions_legal invariant decoding
  | awaitArrival arrival => exact ⟨decoding, List.forall_mem_nil _⟩
  | clearCaches => exact ⟨decoding, List.forall_mem_nil _⟩

theorem Decoding.new {draws : JitterDraws} {config : EngineConfig}
    (accepted : ContinuousEngine.new draws config = .ok engine) : engine.Decoding := by
  obtain ⟨_, _, _, empty, _⟩ := new_eq_ok accepted
  unfold Decoding
  rw [empty]
  exact List.forall_mem_nil _

end ContinuousEngine

/-! ### The static batching engine -/

namespace DeterministicEngine

open TransitionCall

/-- The calls of `RejectImpossibleReadyRequests`. -/
def rejectTransitions (engine : DeterministicEngine) : List TransitionCall :=
  (engine.pending.filter fun request =>
    (engine.impossibleReason request).isSome && !decide (request.arrivalTime > engine.clock)).map
      fun request => ⟨request.requestId, .waitingAdmission, .failed⟩

/-- The call of one turn of the loop over the selected requests, if its blocks are
allocated. -/
def considerTransitions (engine : DeterministicEngine) (request : EngineRequest) :
    List TransitionCall :=
  if (engine.resultCache.get (resultKey request)).1 = none ∧
      ¬ request.promptTokens > sizeMax - request.maxOutputTokens ∧
      ((engine.matchPrefix request).2.kvCache.allocate request.requestId
        (engine.requiredBlocks request) (engine.matchPrefix request).1).1 = .allocated then
    [⟨request.requestId, .waitingAdmission, .prefilling⟩]
  else []

/-- The calls of the loop over the selected requests. -/
def scanTransitions : List ℕ → DeterministicEngine → Batch → List TransitionCall
  | [], _, _ => []
  | index :: later, engine, batch =>
      match engine.pending[index]? with
      | none => scanTransitions later engine batch
      | some request =>
          let turn := engine.considerRequest batch index request
          engine.considerTransitions request ++ scanTransitions later turn.1 turn.2

/-- The calls on the sequences of a batch, after the prefill and at the end. -/
def runTransitions (engine : DeterministicEngine) (batch : Batch) : List TransitionCall :=
  let started := (engine.runPrefill batch).startDecode batch.active
  let decoded := decodeLoop (decodeTurns batch.active) started.1 started.2
  (batch.active.map fun item => ⟨item.request.requestId, item.state, .decode⟩) ++
    decoded.2.map fun item => ⟨item.request.requestId, item.state, .completed⟩

/-- The calls of `RunOneBatch`. -/
def batchTransitions (engine : DeterministicEngine) : List TransitionCall :=
  let rejected := engine.rejectImpossibleReadyRequests.2
  engine.rejectTransitions ++
    if rejected.selected = [] then []
    else
      let scanned := scanSelected rejected.selected rejected {}
      scanTransitions rejected.selected rejected {} ++ scanned.1.runTransitions scanned.2

/-- The calls of `TransitionTo` in a call of the engine. -/
def transitions : Call → DeterministicEngine → List TransitionCall
  | .runOneBatch, engine => engine.batchTransitions
  | _, _ => []

theorem rejectTransitions_legal (engine : DeterministicEngine) :
    ∀ call ∈ engine.rejectTransitions, call.Legal := by
  intro call member
  obtain ⟨request, _, rfl⟩ := List.mem_map.mp member
  exact legal_of_edge _ (by decide)

theorem scanTransitions_legal (later : List ℕ) (engine : DeterministicEngine) (batch : Batch) :
    ∀ call ∈ scanTransitions later engine batch, call.Legal := by
  induction later generalizing engine batch with
  | nil => exact List.forall_mem_nil _
  | cons index later ih =>
      unfold scanTransitions
      split
      · exact ih engine batch
      · refine List.forall_mem_append.mpr ⟨?_, ih _ _⟩
        unfold considerTransitions
        split
        · exact List.forall_mem_singleton.mpr (legal_of_edge _ (by decide))
        · exact List.forall_mem_nil _

/-- The sequences of the batch are prefilling until the scan is over. -/
theorem scanSelected_prefilling (later : List ℕ) (engine : DeterministicEngine) {batch : Batch}
    (prefilling : ∀ item ∈ batch.active, item.state = .prefilling) :
    ∀ item ∈ (scanSelected later engine batch).2.active, item.state = .prefilling := by
  induction later generalizing engine batch with
  | nil => exact prefilling
  | cons index later ih =>
      unfold scanSelected
      split
      · exact ih engine prefilling
      · next request found =>
          apply ih
          have turn := engine.considerRequest_turn batch index request
          generalize engine.considerRequest batch index request = after at turn ⊢
          cases turn with
          | answered results found => exact prefilling
          | joined results missing counted allocated =>
              exact List.forall_mem_append.mpr ⟨prefilling, List.forall_mem_singleton.mpr rfl⟩
          | passed results prefixes missing refused => exact prefilling

theorem runTransitions_legal (engine : DeterministicEngine) {batch : Batch}
    (prefilling : ∀ item ∈ batch.active, item.state = .prefilling) :
    ∀ call ∈ engine.runTransitions batch, call.Legal := by
  refine List.forall_mem_append.mpr ⟨?_, ?_⟩
  · intro call member
    obtain ⟨item, isActive, rfl⟩ := List.mem_map.mp member
    rw [prefilling item isActive]
    exact legal_of_edge _ (by decide)
  · obtain ⟨_, _, _, decoded⟩ := decodeLoop_eq (decodeTurns batch.active)
      ((engine.runPrefill batch).startDecode batch.active).1
      ((engine.runPrefill batch).startDecode batch.active).2
    rw [decoded]
    unfold startDecode
    dsimp only
    rw [List.map_map, List.map_map]
    intro call member
    obtain ⟨item, isActive, rfl⟩ := List.mem_map.mp member
    dsimp only [Function.comp_apply]
    rw [prefilling item isActive]
    exact legal_of_edge _ (by decide)

theorem transitions_legal (call : Call) (engine : DeterministicEngine) :
    ∀ transition ∈ transitions call engine, transition.Legal := by
  cases call with
  | submit request => exact List.forall_mem_nil _
  | runOneBatch =>
      refine List.forall_mem_append.mpr ⟨engine.rejectTransitions_legal, ?_⟩
      split
      · exact List.forall_mem_nil _
      · exact List.forall_mem_append.mpr ⟨scanTransitions_legal _ _ {},
          runTransitions_legal _ (scanSelected_prefilling _ _ (List.forall_mem_nil _))⟩
  | awaitArrival arrival => exact List.forall_mem_nil _
  | clearCaches => exact List.forall_mem_nil _

end DeterministicEngine

/-- **Transitions.** In every run of either engine, each call of `TransitionTo` returns
true and moves a request along an edge of its life; and between two calls of the
continuous engine every sequence of the batch is decoding. -/
theorem transitions_succeed {η : Type} [RequestQueue η] {draws : JitterDraws}
    {config : EngineConfig} :
    (∀ start : ContinuousEngine η, ContinuousEngine.new draws config = .ok start →
      ∀ calls : List ContinuousEngine.Call,
        (∀ active ∈ (ContinuousEngine.object.run calls start).active, active.state = .decode) ∧
        ∀ call ∈ ContinuousEngine.object.emitted ContinuousEngine.transitions calls start,
          call.returned = true ∧ (call.state, call.next) ∈ TransitionCall.edges) ∧
    (∀ start : DeterministicEngine, DeterministicEngine.new draws config = .ok start →
      ∀ calls : List DeterministicEngine.Call,
        ∀ call ∈ DeterministicEngine.object.emitted DeterministicEngine.transitions calls start,
          call.returned = true ∧ (call.state, call.next) ∈ TransitionCall.edges) := by
  constructor
  · intro start accepted calls
    have step : ∀ call (engine : ContinuousEngine η),
        engine.Invariant false ∧ engine.Decoding →
        (ContinuousEngine.object.respond call engine).2.Invariant false ∧
          (ContinuousEngine.object.respond call engine).2.Decoding := by
      intro call engine holds
      exact ⟨(ContinuousEngine.respond_invariant call holds.1).1,
        (ContinuousEngine.respond_decoding call holds.1 holds.2).1⟩
    have started : start.Invariant false ∧ start.Decoding :=
      ⟨(ContinuousEngine.Invariant.new accepted).1, .new accepted⟩
    refine ⟨(AtomicObject.invariant _ step calls start started).2, ?_⟩
    exact AtomicObject.emitted_allowed _ step
      (fun call engine holds => (ContinuousEngine.respond_decoding call holds.1 holds.2).2)
      calls start started
  · intro start _ calls
    exact @AtomicObject.emitted_allowed _ _ _ _ _ _ (fun _ => True) _ (fun _ _ _ => trivial)
      (fun call engine _ => DeterministicEngine.transitions_legal call engine) calls start trivial

/-- A preemption in the one engine, a failure in the other. -/
theorem transitions_succeed_rivals :
    let calls := ContinuousEngine.rivals ++ [.runOneIteration, .runOneIteration, .runOneIteration]
    let transitions := ContinuousEngine.object.emitted ContinuousEngine.transitions calls
      ContinuousEngine.tight
    (⟨['b'], .decode, .preempted⟩ ∈ transitions ∧
      ∀ call ∈ transitions, call.returned = true ∧
        (call.state, call.next) ∈ TransitionCall.edges) ∧
    ∃ start, DeterministicEngine.new (fun _ _ _ => 0) { kvBlocks := 2 } = .ok start ∧
      ⟨['c'], .waitingAdmission, .failed⟩ ∈
        DeterministicEngine.object.emitted DeterministicEngine.transitions
          [.submit { requestId := ['c'], promptTokens := 40 }, .runOneBatch] start ∧
      ∀ call ∈ DeterministicEngine.object.emitted DeterministicEngine.transitions
          [.submit { requestId := ['c'], promptTokens := 40 }, .runOneBatch] start,
        call.returned = true ∧ (call.state, call.next) ∈ TransitionCall.edges := by
  intro calls transitions
  refine ⟨⟨by decide +kernel, (transitions_succeed.1 _ ContinuousEngine.new_tight calls).2⟩, ?_⟩
  have accepted : DeterministicEngine.new (fun _ _ _ => 0) { kvBlocks := 2 } = .ok _ := rfl
  refine ⟨_, accepted, by decide +kernel, ?_⟩
  exact (@transitions_succeed (SelectionQueue EngineRequest) _ _ _).2 _ accepted _

end InferSched.Engine

import Mathlib.Algebra.BigOperators.Group.Multiset.Basic
import Mathlib.Algebra.Order.BigOperators.Group.Multiset
import Mathlib.Data.Prod.Lex
import InferSched.Engine.Conservation

/-! # Termination of `RunUntilIdle`

Preemption throws generated tokens away, so the tokens still to be generated are
no measure of progress. While the batch is never empty, however, a preempted
request is not admitted again: counting nothing for it, every admission,
preemption and decoded token leaves less work (`Moment.work`). The batch becomes
empty only when a request is answered, and an empty batch with a ready request
answers or admits one. Rounds therefore decrease the number of requests without a
result, then the distance to a nonempty batch, then the work.
-/

namespace InferSched.Engine

open Library

/-- The tokens a sequence has still to generate. -/
def ActiveRequest.remaining (active : ActiveRequest) : ℕ :=
  active.request.maxOutputTokens - active.generatedTokens

namespace Moment

variable {η : Type} [RequestQueue η]

/-- The requests that are not in the batch. -/
def waiting (moment : Moment η) : Multiset EngineRequest :=
  PriorityQueue.elements moment.engine.pending + moment.scan.deferred

/-- What a waiting request can still cause before the batch is empty: nothing
once it was preempted. -/
def claimOf (preempted : Finset Text) (request : EngineRequest) : ℕ :=
  if request.requestId ∈ preempted then 0 else request.maxOutputTokens + 1

/-- The work left until the batch is empty, if no request is answered. -/
def work (moment : Moment η) : ℕ :=
  (moment.waiting.map (claimOf moment.engine.preemptedRequests)).sum +
    (moment.engine.active.map ActiveRequest.remaining).sum

theorem waiting_defer (engine : ContinuousEngine η) (scan : Scan) (candidate : EngineRequest)
    (preparing : Bool) : waiting ⟨engine, scan.defer candidate, preparing⟩ =
      candidate ::ₘ waiting ⟨engine, scan, preparing⟩ := by
  unfold waiting Scan.defer
  dsimp only
  rw [← Multiset.coe_add, Multiset.coe_singleton, ← add_assoc, add_comm, Multiset.singleton_add]

/-- Decoding leaves less work. -/
theorem work_decodeBatch {engine : ContinuousEngine η} {scan : Scan}
    (invariant : engine.Invariant true) (inhabited : engine.active ≠ []) :
    work ⟨engine.decodeBatch, scan, false⟩ < work ⟨engine, scan, true⟩ := by
  apply Nat.add_lt_add_left
  change (List.map _ (List.map _ engine.active)).sum < _
  rw [List.map_map]
  apply List.sum_lt_sum_of_ne_nil inhabited
  intro active member
  have unfinished : active.generatedTokens + 1 ≤ active.request.maxOutputTokens :=
    invariant.unfinished active member
  change active.request.maxOutputTokens - (active.generatedTokens + 1) <
    active.request.maxOutputTokens - active.generatedTokens
  omega

/-- A preemption leaves no more work and a nonempty batch. -/
theorem work_preempt {engine : ContinuousEngine η} {scan : Scan}
    (inhabited : engine.active ≠ []) :
    work ⟨engine.preempt engine.selectVictim, scan, true⟩ ≤ work ⟨engine, scan, true⟩ := by
  have inside := ContinuousEngine.selectVictim_lt inhabited
  unfold ContinuousEngine.preempt
  rw [List.getElem?_eq_getElem inside]
  have batch := ((List.getElem_cons_eraseIdx_perm inside).map ActiveRequest.remaining).sum_eq
  rw [List.map_cons, List.sum_cons] at batch
  unfold work waiting
  dsimp only
  rw [PriorityQueue.elements_push, Multiset.cons_add, Multiset.map_cons, Multiset.sum_cons, ← batch]
  have forgotten : claimOf (insert (engine.active[engine.selectVictim]).request.requestId
      engine.preemptedRequests) { (engine.active[engine.selectVictim]).request with
        arrivalTime := engine.clock } = 0 :=
    if_pos (Finset.mem_insert_self _ _)
  rw [forgotten, zero_add]
  refine Nat.add_le_add ?_ (Nat.le_add_left _ _)
  apply Multiset.sum_map_le_sum_map
  intro request _
  unfold claimOf
  split
  · exact Nat.zero_le _
  · next fresh =>
      rw [if_neg fun known => fresh (Finset.mem_insert_of_mem known)]

/-- The number of requests without a result. -/
def openRequests (moment : Moment η) : ℕ :=
  Multiset.card moment.unanswered

/-- Against an earlier moment with a nonempty batch: a request was answered, or
the batch is still nonempty and there is no more work. -/
def Proceeds (before after : Moment η) : Prop :=
  after.openRequests < before.openRequests ∨
    (after.openRequests = before.openRequests ∧ after.engine.active ≠ [] ∧
      after.work ≤ before.work)

theorem Step.openRequests_le {before after : Moment η} (step : Step before after)
    (invariant : before.engine.Invariant before.preparing) :
    after.openRequests ≤ before.openRequests :=
  Multiset.card_le_card (step.answers invariant).unanswered_le

/-- A new result is the answer to a request. -/
theorem Answers.openRequests_lt {before after : Moment η} (answers : Answers before after)
    (changed : after.engine.results ≠ before.engine.results) :
    after.openRequests < before.openRequests := by
  rcases answers with ⟨_, same⟩ | ⟨request, result, split, _⟩
  · exact absurd same changed
  · rw [openRequests, openRequests, split, Multiset.card_cons]
    exact Nat.lt_succ_self _

/-- A step proceeds from a nonempty batch. -/
theorem Step.proceeds {before after : Moment η} (step : Step before after)
    (invariant : before.engine.Invariant before.preparing)
    (inhabited : before.engine.active ≠ []) : Proceeds before after := by
  rcases step.answers invariant with ⟨same, results⟩ | ⟨_, _, _, results, _⟩
  · refine Or.inr ⟨congrArg Multiset.card same, ?_⟩
    cases step with
    | forgive empty => exact absurd empty inhabited
    | @pop engine scan candidate queue room popped =>
        refine ⟨inhabited, le_of_eq ?_⟩
        unfold work
        rw [waiting_defer]
        unfold waiting
        dsimp only
        rw [PriorityQueue.elements_of_pop_some (RequestQueue.popReady_eq_some popped).1,
          Multiset.cons_add]
    | reject impossible => exact nomatch List.append_right_eq_self.mp results
    | answer possible found => exact nomatch List.append_right_eq_self.mp results
    | miss possible missing => exact ⟨inhabited, le_rfl⟩
    | touch =>
        unfold ContinuousEngine.matchPrefix
        split
        · exact ⟨inhabited, le_rfl⟩
        · exact ⟨inhabited, le_rfl⟩
    | evict evicted => exact ⟨inhabited, le_rfl⟩
    | @admission engine scan candidate matched possible room forgiven budget longest allocated =>
        obtain ⟨_, pending, _, preempted, active⟩ := ContinuousEngine.admitCandidate_frame
          { engine with
            kvCache := (engine.kvCache.allocate candidate.requestId
              (engine.promptBlocks candidate) (matched.getD [])).2 } candidate matched
        refine ⟨by rw [active]; exact List.append_ne_nil_of_right_ne_nil _ nofun, ?_⟩
        unfold work
        rw [waiting_defer]
        unfold waiting
        dsimp only
        rw [pending, preempted, active, List.map_append, List.sum_append, Multiset.map_cons,
          Multiset.sum_cons, claimOf, if_neg (forgiven.resolve_left inhabited)]
        change _ + (_ + (candidate.maxOutputTokens + 0)) ≤ _
        dsimp only
        omega
    | requeue engine scan =>
        refine ⟨inhabited, le_of_eq ?_⟩
        unfold work waiting ContinuousEngine.requeue
        dsimp only
        rw [PriorityQueue.elements_pushAll]
        change (Multiset.map _ (_ + 0)).sum + _ = _
        rw [add_zero]
    | complete split finished => exact nomatch List.append_right_eq_self.mp results
    | prepare nothing unfinished => exact ⟨inhabited, le_rfl⟩
    | grow member short appended => exact ⟨inhabited, le_rfl⟩
    | @preempt engine scan active member short scarce unpinned =>
        have several := invariant.exists_other member scarce unpinned
        have shorter := ContinuousEngine.preempt_length inhabited
        refine ⟨List.ne_nil_of_length_pos ?_, work_preempt inhabited⟩
        dsimp only at shorter several ⊢
        omega
    | decode left prepared =>
        refine ⟨?_, (work_decodeBatch invariant inhabited).le⟩
        exact fun empty => inhabited (List.map_eq_nil_iff.mp empty)
    | close nothing =>
        refine ⟨inhabited, le_of_eq ?_⟩
        unfold work waiting rest
        dsimp only
        rw [nothing]
  · refine Or.inl ((step.answers invariant).openRequests_lt ?_)
    rw [results]
    exact fun same => nomatch List.append_right_eq_self.mp same

theorem Steps.openRequests_le {before after : Moment η} (steps : Steps before after)
    (invariant : before.engine.Invariant before.preparing) :
    after.openRequests ≤ before.openRequests :=
  Multiset.card_le_card (steps.unanswered_le invariant)

/-- A run of steps proceeds from a nonempty batch. -/
theorem Steps.proceeds {before after : Moment η} (steps : Steps before after)
    (invariant : before.engine.Invariant before.preparing)
    (inhabited : before.engine.active ≠ []) : Proceeds before after := by
  induction steps with
  | refl => exact Or.inr ⟨rfl, inhabited, le_rfl⟩
  | tail earlier step ih =>
      have valid := Steps.invariant earlier invariant
      rcases ih with fewer | ⟨same, left, less⟩
      · exact Or.inl ((step.openRequests_le valid).trans_lt fewer)
      · rcases step.proceeds valid left with fewer | ⟨same', left', less'⟩
        · exact Or.inl (fewer.trans_eq same)
        · exact Or.inr ⟨same'.trans same, left', less'.trans less⟩

/-- A scan that admitted or answered something has left its mark: a request fewer
without a result, or a nonempty batch. -/
theorem Steps.admitted {before after : Moment η} (steps : Steps before after)
    (invariant : before.engine.Invariant before.preparing)
    (none : before.scan.admittedAny = false) (any : after.scan.admittedAny = true) :
    after.openRequests < before.openRequests ∨ after.engine.active ≠ [] := by
  induction steps with
  | refl =>
      rw [none] at any
      cases any
  | @tail middle final earlier step ih =>
      have valid := Steps.invariant earlier invariant
      have fewer := Steps.openRequests_le earlier invariant
      have kept (already : middle.scan.admittedAny = true) :
          final.openRequests < before.openRequests ∨ final.engine.active ≠ [] := by
        rcases ih already with less | inhabited
        · exact Or.inl ((step.openRequests_le valid).trans_lt less)
        · rcases step.proceeds valid inhabited with less | ⟨_, left, _⟩
          · exact Or.inl (less.trans_le fewer)
          · exact Or.inr left
      have answers := step.answers valid
      cases step with
      | reject impossible =>
          refine Or.inl ((answers.openRequests_lt ?_).trans_le fewer)
          exact fun same => nomatch List.append_right_eq_self.mp same
      | answer possible found =>
          refine Or.inl ((answers.openRequests_lt ?_).trans_le fewer)
          exact fun same => nomatch List.append_right_eq_self.mp same
      | @admission engine scan candidate matched possible room forgiven budget longest allocated =>
          right
          have active := (ContinuousEngine.admitCandidate_frame
            { engine with
              kvCache := (engine.kvCache.allocate candidate.requestId
                (engine.promptBlocks candidate) (matched.getD [])).2 } candidate matched).2.2.2.2
          rw [active]
          exact List.append_ne_nil_of_right_ne_nil _ nofun
      | close nothing => cases any
      | _ => exact kept any

end Moment

namespace ContinuousEngine

open Moment

variable {η : Type} {engine : ContinuousEngine η}

/-- A scan that has admitted or answered a request remembers it. -/
theorem considerCandidate_admittedAny {candidate : EngineRequest} {scan : Scan}
    (any : scan.admittedAny = true) :
    (engine.considerCandidate candidate scan).2.2.admittedAny = true := by
  by_cases passes : engine.Examines candidate scan
  · rcases considerCandidate_examined passes with ⟨cached, _, turn⟩ | ⟨_, turn⟩
    · rw [turn]
    · rw [turn]
      unfold tryAdmit
      dsimp only
      split
      · exact any
      · rfl
  · rcases considerCandidate_unexamined passes with ⟨reason, _, turn⟩ | ⟨goes, turn⟩
    · rw [turn]
    · rw [turn]
      exact any

/-! ### An empty batch -/

/-- With an empty batch, an allocation that may evict prefixes is granted: the
cached prefix consists of distinct live blocks, and when no prefix is left every
block is free. -/
theorem Invariant.allocate_granted {preparing : Bool} (invariant : engine.Invariant preparing)
    {candidate : EngineRequest} {shared : List BlockId} (empty : engine.active = [])
    (possible : engine.impossibleReason candidate = none)
    (longest : shared = RadixPrefixCache.longest (engine.candidateHashes candidate)
      (engine.prefixCache.forestOf (prefixNamespace candidate)))
    (exhausted : (engine.kvCache.allocate candidate.requestId (engine.promptBlocks candidate)
      shared).1 = .insufficientBlocks → engine.prefixCache.nodes = 0) :
    (engine.kvCache.allocate candidate.requestId (engine.promptBlocks candidate) shared).1 =
      .allocated := by
  have noSequence : ∀ id, id ∉ engine.kvCache.sequenceBlocks := by
    intro id
    rw [invariant.sequences, activeIds, empty]
    exact List.not_mem_nil
  obtain ⟨distinct, pinned⟩ := invariant.linked.longest_sharable invariant.unshared
    (prefixNamespace candidate) (engine.candidateHashes candidate)
  rw [← longest] at distinct pinned
  have held : ∀ block ∈ shared, engine.kvCache.holders block = 1 := by
    intro block member
    rw [PagedKvCache.holders, pinned block member, Nat.add_eq_right]
    by_contra listed
    obtain ⟨id, blocks, found, _⟩ := Holdings.holders_pos_iff.mp (Nat.pos_of_ne_zero listed)
    exact noSequence id (AList.lookup_isSome.mp (Option.isSome_iff_exists.mpr ⟨blocks, found⟩))
  have kvInvariant := invariant.linked.invariant
  have sharable : engine.kvCache.sharable [] shared = true := by
    refine (engine.kvCache.sharable_iff [] shared).mpr ⟨distinct, fun block member => ?_⟩
    have one := held block member
    refine ⟨List.not_mem_nil, ?_, ?_⟩
    · by_contra outside
      have none := kvInvariant.balanced.outside block (Nat.le_of_not_lt outside)
      omega
    · rw [kvInvariant.refCount_eq block (by rw [one]; decide), one]
      exact Nat.one_ne_zero
  rcases engine.kvCache.allocate_cases candidate.requestId (engine.promptBlocks candidate) shared
    with ⟨_, known⟩ | ⟨_, _, long | unsharable⟩ | ⟨refused, _, _, _, scarce⟩ | ⟨granted, _⟩
  · exact absurd known (noSequence _)
  · have short := RadixPrefixCache.longest_length (engine.candidateHashes candidate)
      (engine.prefixCache.forestOf (prefixNamespace candidate))
    rw [← longest] at short
    exact absurd (short.trans (engine.candidateHashes_length_le candidate))
      (Nat.not_le_of_lt long)
  · rw [sharable] at unsharable
    cases unsharable
  · have unpinned := exhausted (by rw [refused])
    have total := invariant.totalBlocks_le unpinned [] (by rw [empty]; exact List.forall_mem_nil _)
    have fits := (blocks_le_of_possible possible).1
    have prompt : engine.promptBlocks candidate ≤ engine.kvCache.totalBlocks :=
      (blocksForTokens_mono invariant.positive (Nat.le_add_right _ _)).trans fits
    rw [List.length_nil] at total
    omega
  · exact granted

variable [RequestQueue η]

/-- With an empty batch a possible candidate is admitted. -/
theorem Invariant.tryAdmit_admitted (invariant : engine.Invariant false)
    (empty : engine.active = []) {candidate : EngineRequest}
    (possible : engine.impossibleReason candidate = none) (scan : Scan) :
    (engine.tryAdmit candidate scan).2.admittedAny = true := by
  have found := invariant.matchPrefix candidate
  obtain ⟨longest, _⟩ := invariant.matchPrefix_longest candidate
  obtain ⟨middle, relieved, valid, _, shared, status, _, exhausted⟩ :=
    allocateEvicting_spec scan ((engine.matchPrefix candidate).2.prefixCache.nodeCount + 1) found
      longest (by rw [found.linked.counted]; exact Nat.lt_succ_self _)
  have reason := ((matchPrefix_relieved engine candidate).trans relieved).impossibleReason candidate
  obtain ⟨_, _, isMiddle, _⟩ := (matchPrefix_relieved engine candidate).trans relieved
  have granted := valid.allocate_granted (by rw [isMiddle]; exact empty) (reason.trans possible)
    shared exhausted
  unfold tryAdmit
  dsimp only
  rw [status, granted, if_neg (not_not_intro rfl)]

/-- The first candidate of a scan over an empty batch is answered or admitted. -/
theorem Invariant.considerCandidate_admitted (invariant : engine.Invariant false)
    (empty : engine.active = []) (prefills : 0 < engine.config.maxPrefillSequencesPerIteration)
    (candidate : EngineRequest) :
    (engine.considerCandidate candidate {}).2.2.admittedAny = true := by
  cases reason : engine.impossibleReason candidate with
  | some text =>
      unfold considerCandidate
      rw [reason]
  | none =>
      have fits := (blocks_le_of_possible reason).2
      have passes : engine.Examines candidate {} := by
        refine ⟨reason, fun blocked => blocked.1 empty, prefills.ne, ?_⟩
        rw [empty, List.length_nil]
        simp only [Nat.sub_zero, gt_iff_lt, Nat.not_lt_zero, false_or]
        omega
      rcases considerCandidate_examined passes with ⟨cached, _, turn⟩ | ⟨_, turn⟩
      · rw [turn]
      · rw [turn]
        have same : (engine.lookupResult candidate).2.Invariant false :=
          invariant.congr rfl rfl rfl rfl
        exact same.tryAdmit_admitted empty reason {}

theorem scanPending_admittedAny (remaining : ℕ) {scan : Scan} (any : scan.admittedAny = true) :
    (scanPending remaining engine scan).2.admittedAny = true := by
  induction remaining generalizing engine scan with
  | zero => exact any
  | succ remaining ih =>
      unfold scanPending
      split
      · split
        · exact any
        · dsimp only
          split
          · exact ih (considerCandidate_admittedAny any)
          · exact considerCandidate_admittedAny any
      · exact any

/-- A scan over an empty batch with a ready request admits or answers one. -/
theorem Invariant.scanPending_admitted (invariant : engine.Invariant false)
    (empty : engine.active = []) (sequences : 0 < engine.config.maxBatchSequences)
    (prefills : 0 < engine.config.maxPrefillSequencesPerIteration) {candidate : EngineRequest}
    {queue : η}
    (popped : RequestQueue.popReady engine.pending engine.clock = some (candidate, queue))
    (remaining : ℕ) : (scanPending (remaining + 1) engine {}).2.admittedAny = true := by
  have room : engine.active.length < engine.config.maxBatchSequences := by
    rw [empty]
    exact sequences
  have queued : Invariant { engine with pending := queue } false :=
    invariant.congr rfl rfl rfl rfl
  have admitted := queued.considerCandidate_admitted empty prefills candidate
  unfold scanPending
  rw [if_pos room, popped]
  dsimp only
  split
  · exact scanPending_admittedAny _ admitted
  · exact admitted

/-- An iteration with an empty batch and a ready request admits or answers one. -/
theorem Invariant.admitAndComplete_progress (invariant : engine.Invariant false)
    (empty : engine.active = []) (sequences : 0 < engine.config.maxBatchSequences)
    (prefills : 0 < engine.config.maxPrefillSequencesPerIteration)
    (ready : RequestQueue.popReady engine.pending engine.clock ≠ none) :
    engine.admitAndComplete.1 = true := by
  obtain ⟨⟨candidate, queue⟩, popped⟩ := Option.ne_none_iff_exists'.mp ready
  have forgiven : Invariant { engine with preemptedRequests := ∅ } false :=
    invariant.congr rfl rfl rfl rfl
  unfold admitAndComplete admitReady
  rw [if_pos empty]
  dsimp only
  rw [PriorityQueue.size_of_pop (RequestQueue.popReady_eq_some popped).1]
  exact forgiven.scanPending_admitted empty sequences prefills popped _

/-- An iteration with an empty batch and no ready request does nothing. -/
theorem runOneIteration_idle (empty : engine.active = [])
    (unready : RequestQueue.popReady engine.pending engine.clock = none) :
    engine.runOneIteration = (false, { engine with preemptedRequests := ∅ }) := by
  have scanned : ∀ remaining, scanPending remaining { engine with preemptedRequests := ∅ } {} =
      ({ engine with preemptedRequests := ∅ }, {}) := by
    intro remaining
    cases remaining with
    | zero => rfl
    | succ remaining =>
        unfold scanPending
        dsimp only
        rw [unready]
        split
        · rfl
        · rfl
  have started : engine.admitAndComplete = (false, { engine with preemptedRequests := ∅ }) := by
    unfold admitAndComplete admitReady
    rw [if_pos empty]
    dsimp only
    rw [scanned]
    unfold completeFinished requeue PriorityQueue.pushAll
    dsimp only [List.foldl_nil]
    rw [empty]
    rfl
  unfold runOneIteration
  rw [started]
  exact if_pos empty

/-! ### Rounds -/

/-- What an iteration achieves: a request fewer without a result; or a nonempty
batch, with less work if it was nonempty before. -/
theorem Invariant.runOneIteration_progress (invariant : engine.Invariant false)
    (sequences : 0 < engine.config.maxBatchSequences)
    (prefills : 0 < engine.config.maxPrefillSequencesPerIteration)
    (busy : engine.active ≠ [] ∨
      RequestQueue.popReady engine.pending engine.clock ≠ none) :
    (rest engine.runOneIteration.2).openRequests < (rest engine).openRequests ∨
    ((rest engine.runOneIteration.2).openRequests = (rest engine).openRequests ∧
      engine.runOneIteration.2.active ≠ [] ∧
      (engine.active ≠ [] →
        (rest engine.runOneIteration.2).work < (rest engine).work)) := by
  obtain ⟨scan, nothing, progress, started, outcome⟩ := runOneIteration_cases invariant
  have valid : engine.admitAndComplete.2.Invariant false := Steps.invariant started invariant
  have fewer := Steps.openRequests_le started invariant
  rcases outcome with ⟨empty, early⟩ | ⟨inhabited, prepared, decoded, completed, _⟩
  · left
    rw [early]
    have closed := (Step.close nothing).openRequests_le valid
    by_cases none : engine.active = []
    · have any := invariant.admitAndComplete_progress none sequences prefills
        (busy.resolve_left (not_not_intro none))
      rcases Steps.admitted started invariant rfl (progress.trans any) with less | left
      · exact closed.trans_lt less
      · exact absurd empty left
    · rcases Steps.proceeds started invariant none with less | ⟨_, left, _⟩
      · exact closed.trans_lt less
      · exact absurd empty left
  · have validPrepared := Steps.invariant prepared valid
    have validDecoded := decoded.invariant validPrepared
    have ended : Steps _ (rest engine.runOneIteration.2) := completed.tail (.close nothing)
    have fewerEnded := Steps.openRequests_le ended validDecoded
    have fewerDecoded := decoded.openRequests_le validPrepared
    rcases Steps.proceeds prepared valid inhabited with less | ⟨same, left, work⟩
    · left
      omega
    · have strict := @work_decodeBatch _ _ engine.admitAndComplete.2.prepareDecodeBlocks.2 scan
        validPrepared left
      rcases decoded.proceeds validPrepared left with less | ⟨same', left', _⟩
      · left
        omega
      · rcases Steps.proceeds ended validDecoded left' with less | ⟨same'', left'', work'⟩
        · left
          omega
        · by_cases answered : openRequests ⟨engine.admitAndComplete.2, scan, false⟩ <
              (rest engine).openRequests
          · left
            omega
          · refine Or.inr ⟨by omega, left'', fun busy => ?_⟩
            rcases Steps.proceeds started invariant busy with less | ⟨_, _, work''⟩
            · exact absurd less answered
            · omega

/-- An iteration without progress leaves an empty batch. -/
theorem Invariant.active_of_idle (invariant : engine.Invariant false)
    (idle : engine.runOneIteration.1 = false) : engine.runOneIteration.2.active = [] := by
  obtain ⟨_, _, _, _, ⟨empty, early⟩ | ⟨_, _, _, _, progress⟩⟩ := runOneIteration_cases invariant
  · rw [early]
    exact empty
  · rw [progress] at idle
    cases idle

/-- How far the batch is from being nonempty: a request is in it, ready, or yet to
arrive. -/
def distance (engine : ContinuousEngine η) : ℕ :=
  if engine.active ≠ [] then 0
  else if (RequestQueue.popReady engine.pending engine.clock).isSome then 1
  else 2

/-- The rank of an engine between two rounds of `RunUntilIdle`. -/
def rank (engine : ContinuousEngine η) : ℕ ×ₗ ℕ ×ₗ ℕ :=
  toLex ((rest engine).openRequests, toLex (engine.distance, (rest engine).work))

theorem rank_lt_of_openRequests {next : ContinuousEngine η}
    (fewer : (rest next).openRequests < (rest engine).openRequests) : next.rank < engine.rank :=
  Prod.Lex.toLex_lt_toLex.mpr (Or.inl fewer)

theorem rank_lt_of_distance {next : ContinuousEngine η}
    (same : (rest next).openRequests = (rest engine).openRequests)
    (closer : next.distance < engine.distance) : next.rank < engine.rank :=
  Prod.Lex.toLex_lt_toLex.mpr
    (Or.inr ⟨same, Prod.Lex.toLex_lt_toLex.mpr (Or.inl closer)⟩)

theorem rank_lt_of_work {next : ContinuousEngine η}
    (same : (rest next).openRequests = (rest engine).openRequests)
    (level : next.distance = engine.distance)
    (less : (rest next).work < (rest engine).work) : next.rank < engine.rank :=
  Prod.Lex.toLex_lt_toLex.mpr
    (Or.inr ⟨same, Prod.Lex.toLex_lt_toLex.mpr (Or.inr ⟨level, less⟩)⟩)

theorem distance_of_empty (empty : engine.active = []) : engine.distance =
    if (RequestQueue.popReady engine.pending engine.clock).isSome then 1 else 2 :=
  if_neg (not_not_intro empty)

/-- An iteration that made progress lowers the rank. -/
theorem Invariant.rank_lt (invariant : engine.Invariant false)
    (sequences : 0 < engine.config.maxBatchSequences)
    (prefills : 0 < engine.config.maxPrefillSequencesPerIteration)
    (progress : engine.runOneIteration.1 = true) :
    engine.runOneIteration.2.rank < engine.rank := by
  have busy : engine.active ≠ [] ∨
      RequestQueue.popReady engine.pending engine.clock ≠ none := by
    by_contra idle
    simp only [not_or, not_not] at idle
    rw [runOneIteration_idle idle.1 idle.2] at progress
    cases progress
  rcases invariant.runOneIteration_progress sequences prefills busy with
    fewer | ⟨same, left, less⟩
  · exact rank_lt_of_openRequests fewer
  · have here : engine.runOneIteration.2.distance = 0 := if_pos left
    by_cases empty : engine.active = []
    · apply rank_lt_of_distance same
      rw [here, distance_of_empty empty]
      split
      · exact Nat.one_pos
      · exact Nat.two_pos
    · exact rank_lt_of_work same (here.trans (if_pos empty).symm) (less empty)

/-- After an iteration without progress, waiting for the next arrival lowers the
rank. -/
theorem Invariant.rank_awaitArrival (invariant : engine.Invariant false)
    (sequences : 0 < engine.config.maxBatchSequences)
    (prefills : 0 < engine.config.maxPrefillSequencesPerIteration)
    (idle : engine.runOneIteration.1 = false) {arrival : ℤ}
    (nextArrival : RequestQueue.nextArrival engine.runOneIteration.2.pending = some arrival) :
    (engine.runOneIteration.2.awaitArrival arrival).rank < engine.rank := by
  by_cases busy : engine.active ≠ [] ∨
      RequestQueue.popReady engine.pending engine.clock ≠ none
  · rcases invariant.runOneIteration_progress sequences prefills busy with fewer | ⟨_, left, _⟩
    · exact rank_lt_of_openRequests fewer
    · exact absurd (invariant.active_of_idle idle) left
  · simp only [not_or, not_not] at busy
    obtain ⟨empty, unready⟩ := busy
    rw [runOneIteration_idle empty unready] at nextArrival ⊢
    have reached : arrival ≤ advance engine.clock (arrival - engine.clock) := by
      unfold advance
      split
      · omega
      · omega
    have ready := RequestQueue.popReady_isSome nextArrival reached
    refine rank_lt_of_distance ?_ ?_
    · rfl
    · rw [distance_of_empty empty, unready, distance_of_empty]
      · exact (if_pos ready).trans_lt Nat.one_lt_two
      · exact empty

/-- Without pending or active requests every request has its result. -/
theorem outcomes_of_idle {reference : ContinuousEngine η} (pending : engine.pendingCount = 0)
    (empty : engine.active = []) :
    outcomes reference (rest engine) = (engine.results.map outcome : List (Text × Bool)) := by
  have elements : PriorityQueue.elements engine.pending = 0 := Multiset.card_eq_zero.mp pending
  unfold outcomes unanswered rest
  dsimp only
  rw [elements, empty]
  exact zero_add _

/-- `RunUntilIdle` ends, with every request answered as expected. -/
theorem Invariant.runUntilIdle_ends (invariant : engine.Invariant false)
    (sequences : 0 < engine.config.maxBatchSequences)
    (prefills : 0 < engine.config.maxPrefillSequencesPerIteration) :
    ∃ rounds final, runUntilIdle rounds engine = some final ∧ final.pendingCount = 0 ∧
      final.active = [] ∧
      (final.results.map outcome : List (Text × Bool)) = outcomes engine (rest engine) := by
  induction isRank : engine.rank using WellFoundedLT.induction generalizing engine with
  | ind level ih =>
      subst isRank
      by_cases idle : engine.pendingCount = 0 ∧ engine.active = []
      · exact ⟨1, engine, if_pos idle, idle.1, idle.2, (outcomes_of_idle idle.1 idle.2).symm⟩
      · have steps := runOneIteration_steps invariant
        have valid : engine.runOneIteration.2.Invariant false := steps.invariant invariant
        obtain ⟨config, totalBlocks⟩ := steps.fixed invariant
        have conserved := steps.outcomes_eq invariant
        -- A round that continues with an engine of lower rank ends by the induction hypothesis.
        have onward (next : ContinuousEngine η) (lower : next.rank < engine.rank)
            (validNext : next.Invariant false) (sameConfig : next.config = engine.config)
            (sameTotal : next.kvCache.totalBlocks = engine.kvCache.totalBlocks)
            (sameOutcomes : outcomes engine (rest next) = outcomes engine (rest engine)) :
            ∃ rounds final, runUntilIdle rounds next = some final ∧ final.pendingCount = 0 ∧
              final.active = [] ∧
              (final.results.map outcome : List (Text × Bool)) = outcomes engine (rest engine) := by
          obtain ⟨rounds, final, ran, pending, empty, answered⟩ := ih next.rank lower validNext
            (by rw [sameConfig]; exact sequences) (by rw [sameConfig]; exact prefills) rfl
          refine ⟨rounds, final, ran, pending, empty, answered.trans ?_⟩
          rw [← sameOutcomes, outcomes, outcomes, expected_congr sameConfig sameTotal]
        cases progress : engine.runOneIteration.1 with
        | true =>
            obtain ⟨rounds, final, ran, answered⟩ := onward engine.runOneIteration.2
              (invariant.rank_lt sequences prefills progress) valid config totalBlocks conserved
            refine ⟨rounds + 1, final, ?_, answered⟩
            rw [runUntilIdle, if_neg idle]
            dsimp only
            rw [progress, if_pos rfl]
            exact ran
        | false =>
            cases nextArrival : RequestQueue.nextArrival engine.runOneIteration.2.pending with
            | none =>
                have pending := RequestQueue.size_of_nextArrival nextArrival
                have empty := invariant.active_of_idle progress
                refine ⟨1, engine.runOneIteration.2, ?_, pending, empty, ?_⟩
                · rw [runUntilIdle, if_neg idle]
                  dsimp only
                  rw [progress, if_neg Bool.false_ne_true, nextArrival]
                · exact (outcomes_of_idle pending empty).symm.trans conserved
            | some arrival =>
                obtain ⟨rounds, final, ran, answered⟩ :=
                  onward (engine.runOneIteration.2.awaitArrival arrival)
                    (invariant.rank_awaitArrival sequences prefills progress nextArrival)
                    (valid.congr rfl rfl rfl rfl) config totalBlocks conserved
                refine ⟨rounds + 1, final, ?_, answered⟩
                rw [runUntilIdle, if_neg idle]
                dsimp only
                rw [progress, if_neg Bool.false_ne_true, nextArrival]
                exact ran

/-- For every accepted configuration and every list of requests, whatever their
ids, sizes, priorities, hashes and arrival times: `RunUntilIdle` ends with nothing
pending or active and with one result for each request, which has succeeded
exactly when the request is not impossible. -/
theorem runUntilIdle_answers_all {draws : JitterDraws} {config : EngineConfig}
    {start : ContinuousEngine η} (accepted : new draws config = .ok start)
    (requests : List EngineRequest) :
    ∃ rounds final,
      runUntilIdle rounds (object.run (requests.map Call.submit) start) = some final ∧
      final.pendingCount = 0 ∧ final.activeCount = 0 ∧
      (final.results.map fun result => (result.requestId, result.succeeded)).Perm
        (requests.map fun request =>
          (request.requestId, (start.impossibleReason request).isNone)) := by
  obtain ⟨invariant, isConfig, total⟩ := run_invariant accepted (requests.map Call.submit)
  obtain ⟨_, _, startConfig, _, _, _, _, _, sequences, prefills⟩ := new_eq_ok accepted
  obtain ⟨_, startTotal, _⟩ := Invariant.new accepted
  have conserved := run_outcomes accepted (requests.map Call.submit)
  obtain ⟨rounds, final, ran, pending, empty, answered⟩ := invariant.runUntilIdle_ends
    (by rw [isConfig]; exact sequences) (by rw [isConfig]; exact prefills)
  refine ⟨rounds, final, ran, pending, List.length_eq_zero_iff.mpr empty, ?_⟩
  apply Multiset.coe_eq_coe.mp
  have reference : expected (object.run (requests.map Call.submit) start) = expected start :=
    expected_congr (isConfig.trans startConfig.symm) (total.trans startTotal.symm)
  rw [submitted_map_submit] at conserved
  rw [outcomes, reference] at answered
  exact answered.trans conserved

/-- Two requests under one id, one of them larger than the KV cache, and a third
that arrives later. -/
theorem runUntilIdle_answers_three :
    let requests : List EngineRequest :=
      [{ requestId := ['a'], promptTokens := 10, maxOutputTokens := 30 },
        { requestId := ['a'], promptTokens := 60, maxOutputTokens := 30 },
        { requestId := ['b'], promptTokens := 20, maxOutputTokens := 30, arrivalTime := 10 ^ 9 }]
    ∃ start : ContinuousEngine (SelectionQueue EngineRequest),
      new (fun _ _ _ => 0) { kvBlocks := 4 } = .ok start ∧
      ∃ rounds final,
        runUntilIdle rounds (object.run (requests.map Call.submit) start) = some final ∧
        final.pendingCount = 0 ∧ final.activeCount = 0 ∧
        (final.results.map fun result => (result.requestId, result.succeeded)).Perm
          [(['a'], true), (['a'], false), (['b'], true)] := by
  intro requests
  have accepted : (new (fun _ _ _ => 0) { kvBlocks := 4 } :
    Except Text (ContinuousEngine (SelectionQueue EngineRequest))) = .ok _ := rfl
  exact ⟨_, accepted, runUntilIdle_answers_all accepted requests⟩

end ContinuousEngine
end InferSched.Engine

import Mathlib.Data.List.Infix
import InferSched.Engine.DecodeBlocks

/-! # Peak statistics

The engine records the largest batch when a sequence joins it, and the largest
queue when a request is submitted. `Preempt` pushes its victim into the queue
too, and records nothing. So the recorded peak of the queue bounds its length
exactly as long as every preemption finds the queue shorter than the peak.
-/

namespace InferSched.Engine

open Library

namespace ContinuousEngine

variable {η : Type} [RequestQueue η]

/-- The recorded peak bounds the queue, with this many requests held by a scan. -/
def QueuePeaked (held : ℕ) (engine : ContinuousEngine η) : Prop :=
  engine.pendingCount + held ≤ engine.stats.peakPendingRequests

omit [RequestQueue η] in
/-- The recorded peak bounds the batch. -/
def BatchPeaked (engine : ContinuousEngine η) : Prop :=
  engine.activeCount ≤ engine.stats.peakActiveSequences

omit [RequestQueue η] in
/-- The queue and its recorded peak are the same. -/
structure SameQueue (engine next : ContinuousEngine η) : Prop where
  pending : next.pending = engine.pending
  peak : next.stats.peakPendingRequests = engine.stats.peakPendingRequests

theorem SameQueue.peaked_iff {engine next : ContinuousEngine η} (same : engine.SameQueue next)
    (held : ℕ) : next.QueuePeaked held ↔ engine.QueuePeaked held := by
  unfold QueuePeaked pendingCount
  rw [same.pending, same.peak]

/-! ### The scan -/

omit [RequestQueue η] in
/-- A candidate is put aside, or joins the batch and is counted. -/
theorem tryAdmit_peaks (engine : ContinuousEngine η) (candidate : EngineRequest) (scan : Scan) :
    engine.SameQueue (engine.tryAdmit candidate scan).1 ∧
      (engine.tryAdmit candidate scan).2.deferred.length ≤ scan.deferred.length + 1 ∧
      (engine.BatchPeaked → (engine.tryAdmit candidate scan).1.BatchPeaked) := by
  obtain ⟨_, found⟩ := engine.matchPrefix_eq candidate
  obtain ⟨_, _, allocated⟩ := (engine.matchPrefix candidate).2.allocateEvicting_eq candidate
    (engine.matchPrefix candidate).1 ((engine.matchPrefix candidate).2.prefixCache.nodeCount + 1)
  unfold tryAdmit
  dsimp only
  split
  · rw [allocated, found]
    refine ⟨⟨rfl, rfl⟩, ?_, id⟩
    unfold Scan.defer
    rw [List.length_append, List.length_singleton]
  · generalize allocateEvicting candidate _ _ _ = outcome at allocated ⊢
    obtain ⟨_, pending, _, _, active⟩ := admitCandidate_frame outcome.2.2 candidate outcome.2.1
    obtain ⟨_, _, _, stats⟩ := admitCandidate_stats_eq outcome.2.2 candidate outcome.2.1
    refine ⟨⟨?_, ?_⟩, Nat.le_succ _, ?_⟩
    · rw [pending, allocated, found]
    · rw [stats, allocated, found]
    · intro _
      unfold BatchPeaked activeCount
      rw [active, stats, List.length_append, List.length_singleton]
      exact le_max_right _ _

omit [RequestQueue η] in
theorem considerCandidate_peaks (engine : ContinuousEngine η) (candidate : EngineRequest)
    (scan : Scan) :
    engine.SameQueue (engine.considerCandidate candidate scan).2.1 ∧
      (engine.considerCandidate candidate scan).2.2.deferred.length ≤
        scan.deferred.length + 1 ∧
      (engine.BatchPeaked → (engine.considerCandidate candidate scan).2.1.BatchPeaked) := by
  by_cases passes : engine.Examines candidate scan
  · rcases considerCandidate_examined passes with ⟨cached, _, turn⟩ | ⟨_, turn⟩
    · rw [turn]
      exact ⟨⟨rfl, rfl⟩, Nat.le_succ _, id⟩
    · rw [turn]
      obtain ⟨same, deferred, batch⟩ :=
        (engine.lookupResult candidate).2.tryAdmit_peaks candidate scan
      exact ⟨⟨same.pending, same.peak⟩, deferred, batch⟩
  · rcases considerCandidate_unexamined passes with ⟨reason, _, turn⟩ | ⟨goes, turn⟩
    · rw [turn]
      exact ⟨⟨rfl, rfl⟩, Nat.le_succ _, id⟩
    · rw [turn]
      refine ⟨⟨rfl, rfl⟩, ?_, id⟩
      unfold Scan.defer
      rw [List.length_append, List.length_singleton]

/-- A scan holds no more requests than it has popped. -/
theorem scanPending_peaks (remaining : ℕ) {engine : ContinuousEngine η} {scan : Scan}
    (queue : engine.QueuePeaked scan.deferred.length) (batch : engine.BatchPeaked) :
    (scanPending remaining engine scan).1.QueuePeaked
        (scanPending remaining engine scan).2.deferred.length ∧
      (scanPending remaining engine scan).1.BatchPeaked := by
  induction remaining generalizing engine scan with
  | zero => exact ⟨queue, batch⟩
  | succ remaining ih =>
      unfold scanPending
      split
      · split
        · exact ⟨queue, batch⟩
        · next candidate rest popped =>
            have shorter := PriorityQueue.size_of_pop (RequestQueue.popReady_eq_some popped).1
            obtain ⟨same, deferred, counted⟩ :=
              considerCandidate_peaks { engine with pending := rest } candidate scan
            have turned : (considerCandidate { engine with pending := rest } candidate
                scan).2.1.QueuePeaked (considerCandidate { engine with pending := rest } candidate
                  scan).2.2.deferred.length := by
              rw [same.peaked_iff]
              unfold QueuePeaked pendingCount at queue ⊢
              dsimp only at queue ⊢
              omega
            dsimp only
            split
            · exact ih turned (counted batch)
            · exact ⟨turned, counted batch⟩
      · exact ⟨queue, batch⟩

theorem admitReady_peaks {engine : ContinuousEngine η} (queue : engine.QueuePeaked 0)
    (batch : engine.BatchPeaked) :
    engine.admitReady.2.QueuePeaked 0 ∧ engine.admitReady.2.BatchPeaked := by
  have start : engine.QueuePeaked ({} : Scan).deferred.length := queue
  obtain ⟨scanned, counted⟩ := scanPending_peaks (PriorityQueue.size engine.pending) start batch
  refine ⟨?_, counted⟩
  unfold QueuePeaked pendingCount PriorityQueue.size at scanned ⊢
  unfold admitReady requeue
  dsimp only
  rw [PriorityQueue.elements_pushAll, Multiset.card_add, Multiset.coe_card]
  exact scanned

/-! ### Completion -/

omit [RequestQueue η] in
theorem completeFrom_peaks (later : List ActiveRequest) {kept : List ActiveRequest}
    {engine : ContinuousEngine η} (split : engine.active = kept ++ later) :
    engine.SameQueue (completeFrom kept later engine) ∧
      (engine.BatchPeaked → (completeFrom kept later engine).BatchPeaked) := by
  induction later generalizing engine kept with
  | nil => exact ⟨⟨rfl, rfl⟩, id⟩
  | cons active later ih =>
      unfold completeFrom
      split
      · apply ih
        rw [split, List.append_assoc, List.singleton_append]
      · obtain ⟨same, counted⟩ :=
          @ih kept { engine.finish active with active := kept ++ later } rfl
        refine ⟨⟨same.pending, same.peak⟩, fun batch => counted ?_⟩
        unfold BatchPeaked activeCount at batch ⊢
        rw [split, List.length_append, List.length_cons] at batch
        change (kept ++ later).length ≤ engine.stats.peakActiveSequences
        rw [List.length_append]
        omega

/-! ### Preemption -/

/-- The engines that preempt in the passes over the batch, in order. -/
def preemptingFrom : ℕ → ContinuousEngine η → List (ContinuousEngine η)
  | 0, _ => []
  | turns + 1, engine =>
      let pass := preparePass engine.active engine
      if pass.1 then []
      else pass.2 :: preemptingFrom turns (pass.2.preempt pass.2.selectVictim)

/-- The engines that preempt in an iteration, in order. -/
def preempting (engine : ContinuousEngine η) : List (ContinuousEngine η) :=
  let started := engine.admitAndComplete
  if started.2.active = [] then []
  else preemptingFrom (started.2.active.length + 1) started.2

/-- A preemption lengthens the queue and records nothing. -/
theorem preempt_peaks {engine : ContinuousEngine η} (inhabited : engine.active ≠ []) :
    (engine.preempt engine.selectVictim).pendingCount = engine.pendingCount + 1 ∧
      (engine.preempt engine.selectVictim).stats.peakPendingRequests =
        engine.stats.peakPendingRequests ∧
      (engine.BatchPeaked → (engine.preempt engine.selectVictim).BatchPeaked) := by
  have inside := selectVictim_lt inhabited
  unfold preempt
  rw [List.getElem?_eq_getElem inside]
  refine ⟨?_, rfl, ?_⟩
  · unfold pendingCount PriorityQueue.size
    dsimp only
    rw [PriorityQueue.elements_push, Multiset.card_cons]
  · intro batch
    unfold BatchPeaked activeCount at batch ⊢
    dsimp only
    rw [List.length_eraseIdx_of_lt inside]
    exact (Nat.sub_le _ _).trans batch

omit [RequestQueue η] in
/-- A pass that fails has a sequence to preempt. -/
theorem active_preparePass {engine : ContinuousEngine η}
    (failed : (preparePass engine.active engine).1 = false) :
    (preparePass engine.active engine).2.active ≠ [] := by
  obtain ⟨_, _, passed⟩ := engine.preparePass_eq engine.active
  rw [passed]
  intro empty
  change engine.active = [] at empty
  rw [empty] at failed
  cases failed

omit [RequestQueue η] in
theorem sameQueue_preparePass (engine : ContinuousEngine η) :
    engine.SameQueue (preparePass engine.active engine).2 ∧
      (engine.BatchPeaked → (preparePass engine.active engine).2.BatchPeaked) := by
  obtain ⟨_, _, passed⟩ := engine.preparePass_eq engine.active
  rw [passed]
  exact ⟨⟨rfl, rfl⟩, id⟩

/-- The passes never shorten the queue. -/
theorem preparePasses_grows (turns : ℕ) (engine : ContinuousEngine η) :
    engine.pendingCount ≤ (preparePasses turns engine).pendingCount ∧
      (preparePasses turns engine).stats.peakPendingRequests =
        engine.stats.peakPendingRequests ∧
      (engine.BatchPeaked → (preparePasses turns engine).BatchPeaked) := by
  induction turns generalizing engine with
  | zero => exact ⟨le_rfl, rfl, id⟩
  | succ turns ih =>
      obtain ⟨same, batch⟩ := sameQueue_preparePass engine
      have count : (preparePass engine.active engine).2.pendingCount = engine.pendingCount :=
        congrArg PriorityQueue.size same.pending
      unfold preparePasses
      dsimp only
      cases success : (preparePass engine.active engine).1 with
      | true =>
          rw [if_pos rfl]
          exact ⟨count.ge, same.peak, batch⟩
      | false =>
          rw [if_neg Bool.false_ne_true]
          obtain ⟨longer, peak, smaller⟩ := preempt_peaks (active_preparePass success)
          obtain ⟨grows, kept, bounded⟩ := ih ((preparePass engine.active engine).2.preempt
            (preparePass engine.active engine).2.selectVictim)
          exact ⟨by omega, kept.trans (peak.trans same.peak), bounded ∘ smaller ∘ batch⟩

/-- The passes leave a queue within the peak exactly when every preemption finds it
shorter than the peak. -/
theorem preparePasses_peaked_iff (turns : ℕ) {engine : ContinuousEngine η}
    (queue : engine.QueuePeaked 0) :
    (preparePasses turns engine).QueuePeaked 0 ↔
      ∀ before ∈ preemptingFrom turns engine,
        before.pendingCount < before.stats.peakPendingRequests := by
  induction turns generalizing engine with
  | zero => exact iff_of_true queue (List.forall_mem_nil _)
  | succ turns ih =>
      obtain ⟨same, _⟩ := sameQueue_preparePass engine
      unfold preparePasses preemptingFrom
      dsimp only
      cases success : (preparePass engine.active engine).1 with
      | true =>
          rw [if_pos rfl, if_pos rfl, same.peaked_iff]
          exact iff_of_true queue (List.forall_mem_nil _)
      | false =>
          rw [if_neg Bool.false_ne_true, if_neg Bool.false_ne_true, List.forall_mem_cons]
          obtain ⟨longer, peak, _⟩ := preempt_peaks (active_preparePass success)
          by_cases room : (preparePass engine.active engine).2.pendingCount <
              (preparePass engine.active engine).2.stats.peakPendingRequests
          · rw [ih (by unfold QueuePeaked; omega)]
            exact (and_iff_right room).symm
          · refine iff_of_false ?_ fun all => room all.1
            obtain ⟨grows, kept, _⟩ := preparePasses_grows turns
              ((preparePass engine.active engine).2.preempt
                (preparePass engine.active engine).2.selectVictim)
            unfold QueuePeaked
            omega

/-! ### Runs -/

/-- Both recorded peaks bound what they are about. -/
def Peaked (engine : ContinuousEngine η) : Prop :=
  engine.pendingCount ≤ engine.stats.peakPendingRequests ∧
    engine.activeCount ≤ engine.stats.peakActiveSequences

/-- Every preemption of the next iteration finds the queue shorter than its peak. -/
def PreemptsBelowPeak (engine : ContinuousEngine η) : Prop :=
  ∀ before ∈ engine.preempting, before.pendingCount < before.stats.peakPendingRequests

instance (engine : ContinuousEngine η) : Decidable engine.PreemptsBelowPeak :=
  inferInstanceAs (Decidable (∀ before ∈ engine.preempting, _))

theorem admitAndComplete_peaked {engine : ContinuousEngine η} (peaked : engine.Peaked) :
    engine.admitAndComplete.2.Peaked := by
  unfold admitAndComplete
  split
  · obtain ⟨queue, batch⟩ := @admitReady_peaks _ _ { engine with preemptedRequests := ∅ }
      peaked.1 peaked.2
    obtain ⟨same, counted⟩ := completeFrom_peaks { engine with
      preemptedRequests := ∅ }.admitReady.2.active (List.nil_append _).symm
    exact ⟨(same.peaked_iff 0).mpr queue, counted batch⟩
  · obtain ⟨queue, batch⟩ := admitReady_peaks peaked.1 peaked.2
    obtain ⟨same, counted⟩ := completeFrom_peaks engine.admitReady.2.active
      (List.nil_append _).symm
    exact ⟨(same.peaked_iff 0).mpr queue, counted batch⟩

omit [RequestQueue η] in
/-- The rest of an iteration after the preemptions leaves the queue alone. -/
theorem decodeBatch_peaks (engine : ContinuousEngine η) :
    engine.SameQueue engine.decodeBatch.completeFinished ∧
      (engine.BatchPeaked → engine.decodeBatch.completeFinished.BatchPeaked) := by
  obtain ⟨same, counted⟩ := completeFrom_peaks engine.decodeBatch.active
    (List.nil_append _).symm
  refine ⟨⟨same.pending, same.peak⟩, fun batch => counted ?_⟩
  unfold BatchPeaked activeCount decodeBatch at *
  dsimp only
  rw [List.length_map]
  exact batch

/-- An iteration keeps the peaks exactly when its preemptions find the queue shorter
than its peak. -/
theorem runOneIteration_peaked_iff {engine : ContinuousEngine η} (peaked : engine.Peaked) :
    engine.runOneIteration.2.Peaked ↔ engine.PreemptsBelowPeak := by
  have started := admitAndComplete_peaked peaked
  unfold PreemptsBelowPeak preempting runOneIteration
  dsimp only
  by_cases empty : engine.admitAndComplete.2.active = []
  · rw [if_pos empty, if_pos empty]
    exact iff_of_true started (List.forall_mem_nil _)
  · rw [if_neg empty, if_neg empty, ← preparePasses_peaked_iff _ started.1]
    have batch := (preparePasses_grows (engine.admitAndComplete.2.active.length + 1)
      engine.admitAndComplete.2).2.2 started.2
    split
    · exact and_iff_left batch
    · obtain ⟨same, counted⟩ := decodeBatch_peaks engine.admitAndComplete.2.prepareDecodeBlocks.2
      exact (and_iff_left (counted batch)).trans (same.peaked_iff 0)

theorem Peaked.new {draws : JitterDraws} {config : EngineConfig} {start : ContinuousEngine η}
    (accepted : ContinuousEngine.new draws config = .ok start) : start.Peaked := by
  obtain ⟨_, _, _, empty, _, pending, _⟩ := new_eq_ok accepted
  unfold Peaked pendingCount activeCount PriorityQueue.size
  rw [empty, pending, PriorityQueue.elements_empty]
  exact ⟨Nat.zero_le _, Nat.zero_le _⟩

/-- A call keeps the peaks unless it is an iteration with a preemption at the peak. -/
theorem respond_peaked_iff (call : Call) {engine : ContinuousEngine η} (peaked : engine.Peaked) :
    (object.respond call engine).2.Peaked ↔
      (call = .runOneIteration → engine.PreemptsBelowPeak) := by
  cases call with
  | submit request => exact iff_of_true ⟨le_max_right _ _, peaked.2⟩ nofun
  | runOneIteration =>
      exact (runOneIteration_peaked_iff peaked).trans ⟨fun below _ => below, fun below => below rfl⟩
  | awaitArrival arrival => exact iff_of_true peaked nofun
  | clearCaches => exact iff_of_true peaked nofun

/-- **Peaks.** The recorded peaks bound the queue and the batch after every call of a
run, exactly when every preemption of the run finds the queue shorter than its recorded
peak. -/
theorem peaks_bound_iff {draws : JitterDraws} {config : EngineConfig}
    {start : ContinuousEngine η} (accepted : new draws config = .ok start) (calls : List Call) :
    (∀ earlier, earlier <+: calls →
      (object.run earlier start).pendingCount ≤
          (object.run earlier start).stats.peakPendingRequests ∧
        (object.run earlier start).activeCount ≤
          (object.run earlier start).stats.peakActiveSequences) ↔
    ∀ earlier, earlier ++ [.runOneIteration] <+: calls →
      ∀ before ∈ (object.run earlier start).preempting,
        before.pendingCount < before.stats.peakPendingRequests := by
  constructor
  · intro bounded earlier isPrefix
    have before : (object.run earlier start).Peaked :=
      bounded earlier ((List.prefix_append _ _).trans isPrefix)
    have after : (object.run (earlier ++ [.runOneIteration]) start).Peaked := bounded _ isPrefix
    rw [AtomicObject.run_append] at after
    exact (runOneIteration_peaked_iff before).mp after
  · intro below earlier
    induction earlier using List.reverseRecOn with
    | nil => exact fun _ => Peaked.new accepted
    | append_singleton earlier call ih =>
        intro isPrefix
        have before : (object.run earlier start).Peaked :=
          ih ((List.prefix_append _ _).trans isPrefix)
        rw [AtomicObject.run_append]
        refine (respond_peaked_iff call before).mpr ?_
        rintro rfl
        exact below earlier isPrefix

/-- Two sequences that were submitted one after the other fill the blocks, and a third
request waits, when the second sequence has to make room for the first. -/
def latecomers : List Call :=
  [.submit { requestId := ['a'], promptTokens := 1, maxOutputTokens := 4, priority := 1 },
    .runOneIteration,
    .submit { requestId := ['b'], promptTokens := 1, maxOutputTokens := 4 },
    .runOneIteration,
    .submit { requestId := ['c'], promptTokens := 1, arrivalTime := 1000000 },
    .runOneIteration, .runOneIteration]

/-- The queue has two requests then, and never more than one was recorded. -/
theorem queue_exceeds_peak :
    ∃ start : ContinuousEngine (SelectionQueue EngineRequest),
      new (fun _ _ _ => 0) { kvBlocks := 2, kvBlockSizeTokens := 4 } = .ok start ∧
      ¬ ((object.run latecomers start).pendingCount ≤
            (object.run latecomers start).stats.peakPendingRequests ∧
          (object.run latecomers start).activeCount ≤
            (object.run latecomers start).stats.peakActiveSequences) :=
  ⟨_, rfl, by decide +kernel⟩

/-- Two sequences submitted together: the preemption finds the queue empty. -/
theorem peaks_bound_rivals :
    let calls := rivals ++ [.runOneIteration]
    (object.run calls tight).stats.preemptions = 1 ∧
      (object.run calls tight).pendingCount ≤
        (object.run calls tight).stats.peakPendingRequests := by
  intro calls
  refine ⟨by decide +kernel, ?_⟩
  refine ((peaks_bound_iff new_tight calls).mpr ?_ calls (List.prefix_refl _)).1
  intro earlier isPrefix
  have all : ∀ earlier ∈ calls.inits, earlier ++ [.runOneIteration] ∈ calls.inits →
      (object.run earlier tight).PreemptsBelowPeak := by
    decide +kernel
  exact all earlier ((List.mem_inits _ _).mpr ((List.prefix_append _ _).trans isPrefix))
    ((List.mem_inits _ _).mpr isPrefix)

end ContinuousEngine
end InferSched.Engine

import InferSched.Engine.IdleRuns
import InferSched.Engine.MachineFaults

/-! # The order of submission

Engines that differ only in how their queues hold the same requests behave alike when the
ids of the requests are distinct: the order of the queue is total on them, so both queues give
up the same request. Requests submitted in any order make such engines, and the machine
engine does what the engine does whatever order the evictions see the maps of the prefix
cache in. So neither order shows in the results, the statistics or the clock.
-/

namespace InferSched.Engine

open Library

namespace ContinuousEngine

open Moment

variable {η : Type}

/-- The engine with another queue. -/
abbrev withPending (engine : ContinuousEngine η) (queue : η) : ContinuousEngine η :=
  { engine with pending := queue }

/-! ### Functions that leave the queue alone -/

section Queueless

variable (engine : ContinuousEngine η) (queue : η)

/-- The check of a request does not look at the queue. -/
@[simp]
theorem impossibleReason_withPending (request : EngineRequest) :
    (engine.withPending queue).impossibleReason request = engine.impossibleReason request :=
  rfl

/-- A match in the prefix cache does not look at the queue. -/
@[simp]
theorem matchPrefix_withPending (candidate : EngineRequest) :
    (engine.withPending queue).matchPrefix candidate =
      ((engine.matchPrefix candidate).1, (engine.matchPrefix candidate).2.withPending queue) := by
  by_cases empty : engine.candidateHashes candidate = []
  · have other : (engine.withPending queue).candidateHashes candidate = [] := empty
    simp only [matchPrefix, if_pos empty, if_pos other]
  · have other : ¬ (engine.withPending queue).candidateHashes candidate = [] := empty
    simp only [matchPrefix, if_neg empty, if_neg other]
    rfl

/-- The evictions for a candidate do not look at the queue. -/
theorem allocateEvicting_withPending (candidate : EngineRequest) (turns : ℕ)
    (matched : Option (List BlockId)) :
    allocateEvicting candidate turns matched (engine.withPending queue) =
      let allocated := allocateEvicting candidate turns matched engine
      (allocated.1, allocated.2.1, allocated.2.2.withPending queue) := by
  induction turns generalizing engine matched with
  | zero => rfl
  | succ turns ih =>
      have promptBlocks : (engine.withPending queue).promptBlocks candidate =
          engine.promptBlocks candidate := rfl
      have evicted : (engine.withPending queue).evictOldest =
          (engine.evictOldest.1, engine.evictOldest.2.withPending queue) := rfl
      simp only [allocateEvicting, promptBlocks, evicted, matchPrefix_withPending, ih]
      split
      · rfl
      · split
        · rfl
        · rfl

theorem accountPrefix_withPending (candidate : EngineRequest) (matched : Option (List BlockId)) :
    (engine.withPending queue).accountPrefix candidate matched =
      (engine.accountPrefix candidate matched).withPending queue := by
  unfold accountPrefix
  rw [apply_ite (withPending · queue)]
  rfl

theorem cachePrompt_withPending (request : EngineRequest) :
    (engine.withPending queue).cachePrompt request =
      (engine.cachePrompt request).withPending queue := by
  unfold cachePrompt
  split
  · rfl
  · rfl

/-- An admission does not look at the queue. -/
theorem admitCandidate_withPending (candidate : EngineRequest) (matched : Option (List BlockId)) :
    (engine.withPending queue).admitCandidate candidate matched =
      (engine.admitCandidate candidate matched).withPending queue := by
  have prefilled : ((engine.accountPrefix candidate matched).withPending queue).runPrefill
      candidate (matched.getD []).length =
      ((engine.accountPrefix candidate matched).runPrefill candidate
        (matched.getD []).length).withPending queue := rfl
  simp only [admitCandidate, accountPrefix_withPending, prefilled, cachePrompt_withPending]
  rfl

theorem tryAdmit_withPending (candidate : EngineRequest) (scan : Scan) :
    (engine.withPending queue).tryAdmit candidate scan =
      ((engine.tryAdmit candidate scan).1.withPending queue,
        (engine.tryAdmit candidate scan).2) := by
  simp only [tryAdmit, matchPrefix_withPending, allocateEvicting_withPending,
    admitCandidate_withPending]
  split
  · rfl
  · rfl

/-- A scan looks at the candidate in hand, not at the queue behind it. -/
theorem considerCandidate_withPending (candidate : EngineRequest) (scan : Scan) :
    (engine.withPending queue).considerCandidate candidate scan =
      let turn := engine.considerCandidate candidate scan
      (turn.1, turn.2.1.withPending queue, turn.2.2) := by
  unfold considerCandidate
  rw [impossibleReason_withPending]
  cases engine.impossibleReason candidate with
  | some reason => rfl
  | none =>
      dsimp only
      split
      · rfl
      · split
        · rfl
        · split
          · rfl
          · have asked : (engine.withPending queue).lookupResult candidate =
                ((engine.lookupResult candidate).1,
                  (engine.lookupResult candidate).2.withPending queue) := rfl
            rw [asked]
            obtain ⟨found, after⟩ := engine.lookupResult candidate
            cases found with
            | some cached => rfl
            | none =>
                dsimp only
                rw [tryAdmit_withPending]

theorem completeFrom_withPending (kept later : List ActiveRequest) :
    completeFrom kept later (engine.withPending queue) =
      (completeFrom kept later engine).withPending queue := by
  induction later generalizing engine kept with
  | nil => rfl
  | cons active later ih =>
      unfold completeFrom
      split
      · exact ih _ _
      · exact ih { engine.finish active with active := kept ++ later } _

theorem growEvicting_withPending (active : ActiveRequest) (additionalBlocks turns : ℕ) :
    growEvicting active additionalBlocks turns (engine.withPending queue) =
      let grown := growEvicting active additionalBlocks turns engine
      (grown.1, grown.2.withPending queue) := by
  induction turns generalizing engine with
  | zero => rfl
  | succ turns ih =>
      have evicted : (engine.withPending queue).evictOldest =
          (engine.evictOldest.1, engine.evictOldest.2.withPending queue) := rfl
      simp only [growEvicting, evicted, ih]
      split
      · split
        · rfl
        · rfl
      · rfl

/-- A pass over the active sequences does not look at the queue. -/
theorem preparePass_withPending (later : List ActiveRequest) :
    preparePass later (engine.withPending queue) =
      ((preparePass later engine).1, (preparePass later engine).2.withPending queue) := by
  induction later generalizing engine with
  | nil => rfl
  | cons active later ih =>
      have needed : (engine.withPending queue).neededBlocks active =
          engine.neededBlocks active := rfl
      have current : (engine.withPending queue).currentBlocks active =
          engine.currentBlocks active := rfl
      simp only [preparePass, needed, current, growEvicting_withPending, ih]
      split
      · rfl
      · split
        · rfl
        · rfl

end Queueless

/-! ### Engines with the same requests -/

variable [RequestQueue η]

/-- Engines that differ only in how their queues hold the same requests. -/
def Alike (engine other : ContinuousEngine η) : Prop :=
  ∃ queue, other = engine.withPending queue ∧
    PriorityQueue.elements queue = PriorityQueue.elements engine.pending

/-- A function that leaves the queue alone. -/
theorem Alike.map {engine other : ContinuousEngine η} (alike : engine.Alike other)
    (next : ContinuousEngine η → ContinuousEngine η)
    (commutes : ∀ queue, next (engine.withPending queue) = (next engine).withPending queue) :
    (next engine).Alike (next other) := by
  obtain ⟨queue, rfl, same⟩ := alike
  have kept : (next engine).pending = engine.pending := by
    have commuted := congrArg ContinuousEngine.pending (commutes engine.pending)
    exact commuted
  refine ⟨queue, commutes queue, ?_⟩
  rw [kept]
  exact same

theorem Alike.completeFinished {engine other : ContinuousEngine η} (alike : engine.Alike other) :
    engine.completeFinished.Alike other.completeFinished :=
  alike.map ContinuousEngine.completeFinished fun queue =>
    completeFrom_withPending engine queue [] engine.active

/-- A preempted request goes back to both queues. -/
theorem Alike.preempt {engine other : ContinuousEngine η} (alike : engine.Alike other)
    (victim : ℕ) : (engine.preempt victim).Alike (other.preempt victim) := by
  obtain ⟨queue, rfl, same⟩ := alike
  unfold ContinuousEngine.preempt
  dsimp only
  cases engine.active[victim]? with
  | none => exact ⟨queue, rfl, same⟩
  | some active =>
      refine ⟨_, rfl, ?_⟩
      rw [PriorityQueue.elements_push, PriorityQueue.elements_push, same]

theorem Alike.preparePasses {engine other : ContinuousEngine η} (alike : engine.Alike other)
    (turns : ℕ) :
    (ContinuousEngine.preparePasses turns engine).Alike
      (ContinuousEngine.preparePasses turns other) := by
  induction turns generalizing engine other with
  | zero => exact alike
  | succ turns ih =>
      have passed := alike.map (fun engine => (preparePass engine.active engine).2) fun queue =>
        congrArg Prod.snd (preparePass_withPending engine queue engine.active)
      have success : (preparePass other.active other).1 = (preparePass engine.active engine).1 := by
        obtain ⟨queue, rfl, _⟩ := alike
        have commuted := congrArg Prod.fst (preparePass_withPending engine queue engine.active)
        exact commuted
      have victim : (preparePass other.active other).2.selectVictim =
          (preparePass engine.active engine).2.selectVictim := by
        obtain ⟨_, isPassed, _⟩ := passed
        rw [isPassed]
        rfl
      unfold ContinuousEngine.preparePasses
      dsimp only
      rw [success, victim]
      split
      · exact passed
      · exact ih (passed.preempt _)

theorem Alike.active {engine other : ContinuousEngine η} (alike : engine.Alike other) :
    other.active = engine.active := by
  obtain ⟨_, rfl, _⟩ := alike
  rfl

/-- Alike engines preempt the same sequences. -/
theorem Alike.prepareDecodeBlocks {engine other : ContinuousEngine η}
    (alike : engine.Alike other) :
    other.prepareDecodeBlocks.1 = engine.prepareDecodeBlocks.1 ∧
      engine.prepareDecodeBlocks.2.Alike other.prepareDecodeBlocks.2 := by
  have prepared := alike.preparePasses (engine.active.length + 1)
  unfold ContinuousEngine.prepareDecodeBlocks
  dsimp only
  rw [alike.active, prepared.active]
  exact ⟨rfl, prepared⟩

/-! ### The scan -/

/-- No two requests without a result have the same id. -/
def Distinct (moment : Moment η) : Prop :=
  (moment.unanswered.map EngineRequest.requestId).Nodup

theorem Distinct.steps {before after : Moment η} (distinct : Distinct before)
    (steps : Steps before after) (invariant : before.engine.Invariant before.preparing) :
    Distinct after :=
  Multiset.nodup_of_le (Multiset.map_le_map (Steps.unanswered_le steps invariant)) distinct

/-- Requests in the queue have distinct ids. -/
theorem Distinct.pending {moment : Moment η} (distinct : Distinct moment) :
    ((PriorityQueue.elements moment.engine.pending).map EngineRequest.requestId).Nodup := by
  have ids : (PriorityQueue.elements moment.engine.pending).map EngineRequest.requestId =
      ((PriorityQueue.elements moment.engine.pending).map EngineRequest.ticket).map
        EngineRequest.requestId := by
    rw [Multiset.map_map]
    rfl
  rw [ids]
  refine Multiset.nodup_of_le (Multiset.map_le_map ?_) distinct
  unfold unanswered
  rw [add_assoc]
  exact Multiset.le_add_right _ _

/-- The queue order is total on requests with distinct ids. -/
theorem Distinct.total {moment : Moment η} (distinct : Distinct moment) :
    ∀ first ∈ PriorityQueue.elements moment.engine.pending,
      ∀ second ∈ PriorityQueue.elements moment.engine.pending,
        arrivesBefore first second = false → arrivesBefore second first = false →
          first = second := by
  intro first one second two notBefore notAfter
  apply Multiset.inj_on_of_nodup_map distinct.pending first one second two
  unfold arrivesBefore at notBefore notAfter
  by_cases apart : first.arrivalTime = second.arrivalTime
  · simp only [apart, ne_eq, not_true_eq_false, if_false, decide_eq_false_iff_not] at notBefore
    simp only [apart, ne_eq, not_true_eq_false, if_false, decide_eq_false_iff_not] at notAfter
    exact le_antisymm (not_lt.mp notAfter) (not_lt.mp notBefore)
  · simp only [apart, Ne.symm apart, ne_eq, not_false_eq_true, if_true,
      decide_eq_false_iff_not] at notBefore notAfter
    exact absurd (le_antisymm (not_lt.mp notAfter) (not_lt.mp notBefore)) apart

/-- Engines alike pop the same request and stay alike. -/
theorem Alike.popReady {engine other : ContinuousEngine η} {scan : Scan}
    (alike : engine.Alike other) (distinct : Distinct ⟨engine, scan, false⟩) :
    (RequestQueue.popReady engine.pending engine.clock = none ∧
      RequestQueue.popReady other.pending other.clock = none) ∨
    ∃ candidate queue rest,
      RequestQueue.popReady engine.pending engine.clock = some (candidate, queue) ∧
      RequestQueue.popReady other.pending other.clock = some (candidate, rest) ∧
      (engine.withPending queue).Alike (other.withPending rest) := by
  obtain ⟨queue, rfl, same⟩ := alike
  rcases PriorityQueue.pop_congr same distinct.total with
    ⟨none, noneOther⟩ | ⟨candidate, rest, left, popped, poppedOther, elements⟩
  · left
    unfold RequestQueue.popReady
    dsimp only
    rw [none, noneOther]
    exact ⟨rfl, rfl⟩
  · unfold RequestQueue.popReady
    dsimp only
    rw [popped, poppedOther]
    dsimp only
    split
    · exact Or.inl ⟨rfl, rfl⟩
    · exact Or.inr ⟨candidate, rest, left, rfl, rfl, left, rfl, elements⟩

/-- Engines alike take the same turn of the scan. -/
theorem Alike.considerCandidate {engine other : ContinuousEngine η} (alike : engine.Alike other)
    (candidate : EngineRequest) (scan : Scan) :
    (other.considerCandidate candidate scan).1 = (engine.considerCandidate candidate scan).1 ∧
      (other.considerCandidate candidate scan).2.2 =
        (engine.considerCandidate candidate scan).2.2 ∧
      (engine.considerCandidate candidate scan).2.1.Alike
        (other.considerCandidate candidate scan).2.1 := by
  have turn := alike.map (fun engine => (engine.considerCandidate candidate scan).2.1) fun queue =>
    congrArg (fun turn => turn.2.1) (considerCandidate_withPending engine queue candidate scan)
  obtain ⟨queue, rfl, _⟩ := alike
  have same := considerCandidate_withPending engine queue candidate scan
  refine ⟨?_, ?_, turn⟩
  · rw [same]
  · rw [same]

/-- Engines alike scan alike. -/
theorem Alike.scanPending {engine other : ContinuousEngine η} {scan : Scan}
    (alike : engine.Alike other) (remaining : ℕ) (invariant : engine.Invariant false)
    (distinct : Distinct ⟨engine, scan, false⟩) :
    (ContinuousEngine.scanPending remaining other scan).2 =
        (ContinuousEngine.scanPending remaining engine scan).2 ∧
      (ContinuousEngine.scanPending remaining engine scan).1.Alike
        (ContinuousEngine.scanPending remaining other scan).1 := by
  induction remaining generalizing engine other scan with
  | zero => exact ⟨rfl, alike⟩
  | succ remaining ih =>
      have same : other.active.length < other.config.maxBatchSequences ↔
          engine.active.length < engine.config.maxBatchSequences := by
        obtain ⟨_, rfl, _⟩ := alike
        exact Iff.rfl
      unfold ContinuousEngine.scanPending
      by_cases room : engine.active.length < engine.config.maxBatchSequences
      · rw [if_pos room, if_pos (same.mpr room)]
        rcases alike.popReady distinct with
          ⟨none, noneOther⟩ | ⟨candidate, queue, rest, popped, poppedOther, left⟩
        · rw [none, noneOther]
          exact ⟨rfl, alike⟩
        · rw [popped, poppedOther]
          obtain ⟨more, scanned, turn⟩ := left.considerCandidate candidate scan
          have queued := (Step.pop room popped : Step ⟨engine, scan, false⟩ _)
          have valid := queued.invariant invariant
          have steps := considerCandidate_steps candidate scan valid room
          have distinctTurn := distinct.steps (steps.head queued) invariant
          dsimp only
          rw [more, scanned]
          split
          · exact ih turn (Steps.invariant steps valid) distinctTurn
          · exact ⟨scanned, turn⟩
      · rw [if_neg room, if_neg (mt same.mp room)]
        exact ⟨rfl, alike⟩

/-- Alike engines admit the same requests, since no two of a queue have one id. -/
theorem Alike.admitReady {engine other : ContinuousEngine η} (alike : engine.Alike other)
    (invariant : engine.Invariant false) (distinct : Distinct (rest engine)) :
    other.admitReady.1 = engine.admitReady.1 ∧
      engine.admitReady.2.Alike other.admitReady.2 := by
  have size : PriorityQueue.size other.pending = PriorityQueue.size engine.pending := by
    obtain ⟨queue, rfl, same⟩ := alike
    exact congrArg Multiset.card same
  obtain ⟨scanned, scan⟩ := alike.scanPending (PriorityQueue.size engine.pending) invariant distinct
  unfold ContinuousEngine.admitReady
  dsimp only
  rw [size, scanned]
  refine ⟨rfl, ?_⟩
  obtain ⟨queue, isScanned, same⟩ := scan
  rw [isScanned]
  refine ⟨_, rfl, ?_⟩
  rw [ContinuousEngine.requeue, PriorityQueue.elements_pushAll, PriorityQueue.elements_pushAll,
    same]

/-! ### Iterations -/

theorem Distinct.begun {engine : ContinuousEngine η} (distinct : Distinct (rest engine)) :
    Distinct (rest engine.begun) := by
  unfold ContinuousEngine.begun
  split
  · exact distinct
  · exact distinct

theorem Alike.begun {engine other : ContinuousEngine η} (alike : engine.Alike other) :
    engine.begun.Alike other.begun := by
  refine alike.map ContinuousEngine.begun fun queue => ?_
  unfold ContinuousEngine.begun
  split
  · rfl
  · rfl

/-- Alike engines complete the same requests. -/
theorem Alike.admitAndComplete {engine other : ContinuousEngine η} (alike : engine.Alike other)
    (invariant : engine.Invariant false) (distinct : Distinct (rest engine)) :
    other.admitAndComplete.1 = engine.admitAndComplete.1 ∧
      engine.admitAndComplete.2.Alike other.admitAndComplete.2 := by
  obtain ⟨any, admitted⟩ := alike.begun.admitReady invariant.begun distinct.begun
  exact ⟨any, admitted.completeFinished⟩

/-- Engines alike make the same iteration. -/
theorem Alike.runOneIteration {engine other : ContinuousEngine η} (alike : engine.Alike other)
    (invariant : engine.Invariant false) (distinct : Distinct (rest engine)) :
    other.runOneIteration.1 = engine.runOneIteration.1 ∧
      engine.runOneIteration.2.Alike other.runOneIteration.2 := by
  obtain ⟨any, started⟩ := alike.admitAndComplete invariant distinct
  obtain ⟨success, prepared⟩ := started.prepareDecodeBlocks
  have decoded := prepared.map ContinuousEngine.decodeBatch fun _ => rfl
  unfold ContinuousEngine.runOneIteration
  dsimp only
  rw [started.active, success]
  split
  · exact ⟨any, started⟩
  · split
    · exact ⟨any, prepared⟩
    · exact ⟨rfl, decoded.completeFinished⟩

/-- Alike queues have the same next arrival. -/
theorem Alike.nextArrival {engine other : ContinuousEngine η} (alike : engine.Alike other)
    (distinct : Distinct (rest engine)) :
    RequestQueue.nextArrival other.pending = RequestQueue.nextArrival engine.pending := by
  obtain ⟨queue, rfl, same⟩ := alike
  unfold RequestQueue.nextArrival PriorityQueue.top?
  rcases PriorityQueue.pop_congr same distinct.total with
    ⟨none, noneOther⟩ | ⟨candidate, rest, left, popped, poppedOther, _⟩
  · rw [none, noneOther]
  · rw [popped, poppedOther]
    rfl

/-- A round keeps engines alike and answers the same of both. -/
theorem Alike.idleRound {engine other : ContinuousEngine η} (alike : engine.Alike other)
    (invariant : engine.Invariant false) (distinct : Distinct (rest engine)) :
    other.idleRound.1 = engine.idleRound.1 ∧ engine.idleRound.2.Alike other.idleRound.2 := by
  obtain ⟨progress, ran⟩ := alike.runOneIteration invariant distinct
  have arrival := ran.nextArrival (distinct.steps (runOneIteration_steps invariant) invariant)
  unfold ContinuousEngine.idleRound
  dsimp only
  rw [progress, arrival]
  split
  · exact ⟨rfl, ran⟩
  · split
    · next arrival _ => exact ⟨rfl, ran.map (ContinuousEngine.awaitArrival · arrival) fun _ => rfl⟩
    · exact ⟨rfl, ran⟩

/-- A round leaves the unanswered requests distinct. -/
theorem Distinct.idleRound {engine : ContinuousEngine η} (distinct : Distinct (rest engine))
    (invariant : engine.Invariant false) : Distinct (rest engine.idleRound.2) := by
  have ran := distinct.steps (runOneIteration_steps invariant) invariant
  unfold ContinuousEngine.idleRound
  dsimp only
  split
  · exact ran
  · split
    · exact ran
    · exact ran

/-- Engines alike run until idle in the same number of rounds, and end alike. -/
theorem Alike.runUntilIdle {engine other final : ContinuousEngine η} {rounds : ℕ}
    (alike : engine.Alike other) (rested : engine.Rested) (distinct : Distinct (rest engine))
    (ran : ContinuousEngine.runUntilIdle rounds engine = some final) :
    ∃ last, ContinuousEngine.runUntilIdle rounds other = some last ∧ final.Alike last := by
  induction rounds generalizing engine other with
  | zero => cases ran
  | succ rounds ih =>
      have idle : (other.pendingCount = 0 ∧ other.active = []) ↔
          engine.pendingCount = 0 ∧ engine.active = [] := by
        obtain ⟨queue, rfl, same⟩ := alike
        unfold pendingCount PriorityQueue.size
        dsimp only
        rw [same]
      obtain ⟨more, round⟩ := alike.idleRound rested.regular.invariant distinct
      rw [runUntilIdle_succ] at ran ⊢
      by_cases ended : engine.pendingCount = 0 ∧ engine.active = []
      · rw [if_pos ended] at ran
        rw [if_pos (idle.mpr ended)]
        cases ran
        exact ⟨other, rfl, alike⟩
      · rw [if_neg ended] at ran
        rw [if_neg (mt idle.mp ended), more]
        split at ran
        · next progress =>
            rw [if_pos progress]
            exact ih round rested.idleRound.1 (distinct.idleRound rested.regular.invariant) ran
        · next stopped =>
            rw [if_neg stopped]
            cases ran
            exact ⟨_, rfl, round⟩

/-! ### Submissions -/

/-- Submitting requests fills the queue and counts them. -/
theorem foldl_submit (requests : List EngineRequest) {engine : ContinuousEngine η}
    (fits : PriorityQueue.size engine.pending ≤ engine.stats.peakPendingRequests) :
    requests.foldl submit engine =
      { engine with
        pending := PriorityQueue.pushAll engine.pending requests
        stats := { engine.stats with
          peakPendingRequests := max engine.stats.peakPendingRequests
            (PriorityQueue.size engine.pending + requests.length) } } := by
  induction requests generalizing engine with
  | nil =>
      have peak : max engine.stats.peakPendingRequests (PriorityQueue.size engine.pending + 0) =
          engine.stats.peakPendingRequests := max_eq_left fits
      rw [List.length_nil, peak]
      rfl
  | cons request requests ih =>
      have size : PriorityQueue.size (PriorityQueue.push engine.pending request) =
          PriorityQueue.size engine.pending + 1 := by
        unfold PriorityQueue.size
        rw [PriorityQueue.elements_push, Multiset.card_cons]
      have peak : max (max engine.stats.peakPendingRequests (PriorityQueue.size engine.pending + 1))
          (PriorityQueue.size engine.pending + 1 + requests.length) =
          max engine.stats.peakPendingRequests
            (PriorityQueue.size engine.pending + (requests.length + 1)) := by
        omega
      have next : PriorityQueue.size (engine.submit request).pending ≤
          (engine.submit request).stats.peakPendingRequests := le_max_right _ _
      rw [List.foldl_cons, ih next, List.length_cons, ← peak, ← size]
      rfl

/-- Requests submitted in any order make engines alike. -/
theorem alike_submitted {requests permuted : List EngineRequest} {engine : ContinuousEngine η}
    (perm : permuted.Perm requests)
    (fits : PriorityQueue.size engine.pending ≤ engine.stats.peakPendingRequests) :
    (requests.foldl submit engine).Alike (permuted.foldl submit engine) := by
  rw [foldl_submit requests fits, foldl_submit permuted fits, perm.length_eq]
  refine ⟨_, rfl, ?_⟩
  rw [PriorityQueue.elements_pushAll, PriorityQueue.elements_pushAll,
    Multiset.coe_eq_coe.mpr perm]

theorem rested_submitted {requests : List EngineRequest} {engine : ContinuousEngine η}
    (rested : engine.Rested) (sized : ∀ request ∈ requests, request.Sized) :
    (requests.foldl submit engine).Rested := by
  induction requests generalizing engine with
  | nil => exact rested
  | cons request requests ih =>
      obtain ⟨head, others⟩ := List.forall_mem_cons.mp sized
      exact ih (rested.submit head) others

/-- Requests of distinct ids are distinct in the queue. -/
theorem distinct_submitted {requests : List EngineRequest} {engine : ContinuousEngine η}
    (empty : PriorityQueue.size engine.pending = 0) (idle : engine.active = [])
    (distinct : (requests.map EngineRequest.requestId).Nodup) :
    Distinct (rest (requests.foldl submit engine)) := by
  have none : PriorityQueue.elements engine.pending = 0 := Multiset.card_eq_zero.mp empty
  rw [foldl_submit requests (empty.trans_le (Nat.zero_le _))]
  unfold Distinct unanswered rest
  dsimp only
  rw [PriorityQueue.elements_pushAll, none, idle, zero_add]
  have ids : (requests.map EngineRequest.ticket).map EngineRequest.requestId =
      requests.map EngineRequest.requestId := List.map_map
  simpa only [Multiset.map_coe, List.map_nil, Multiset.coe_nil, add_zero, Multiset.coe_nodup,
    ids] using distinct

/-- What can be seen of an engine. -/
def observed (engine : ContinuousEngine η) : List EngineResult × ContinuousEngineStats × ℤ :=
  (engine.results, engine.stats, engine.clock)

/-- What is observed of an engine leaves out its queue. -/
theorem Alike.observed {engine other : ContinuousEngine η} (alike : engine.Alike other) :
    other.observed = engine.observed := by
  obtain ⟨_, rfl, _⟩ := alike
  rfl

end ContinuousEngine

namespace Platform

open ContinuousEngine Checked

variable {η : Type} [RequestQueue η]

/-- `RunUntilIdle` on machine numbers, seen from outside. -/
theorem runUntilIdle_observed {platform : Platform} {engine final : ContinuousEngine η}
    {rounds : ℕ} (rested : engine.Rested) (within : platform.Within engine)
    (ran : ContinuousEngine.runUntilIdle rounds engine = some final) (count : ℕ) :
    (platform.runUntilIdle rounds engine count).map (fun ran => ran.1.map observed) =
      guarded (platform.Within final) (some final.observed) := by
  have gives := runUntilIdle_gives rested within ran count
  have split : (platform.runUntilIdle rounds engine count).map (fun ran => ran.1.map observed) =
      ((platform.runUntilIdle rounds engine count).map Prod.fst).map (Option.map observed) := by
    cases platform.runUntilIdle rounds engine count with
    | error what => rfl
    | ok pair => rfl
  rw [split, gives]
  unfold guarded
  split
  · rfl
  · rfl

/-- Requests submitted to a fresh engine: the run until idle ends at a clock that the busy time
is not ahead of. -/
theorem within_final {platform : Platform} {start final : ContinuousEngine η}
    {requests : List EngineRequest} {rounds : ℕ}
    (rested : (requests.foldl submit start).Rested)
    (fresh : (requests.foldl submit start).clock = 0 ∧
      (requests.foldl submit start).stats.simulatedBusyTime = 0)
    (ran : ContinuousEngine.runUntilIdle rounds (requests.foldl submit start) = some final) :
    platform.Within final ↔ final.clock ≤ platform.timeMax := by
  have pace := (rested.runUntilIdle ran).pace
  unfold Within
  omega

/-- **The schedule is determined.** Whatever order requests with distinct ids are submitted in
and whatever order every eviction sees the maps of the prefix cache in, `RunUntilIdle` on a
fresh engine ends, and with the same results, statistics and clock; or, when that clock is
beyond the limit, time overflows in every order. -/
theorem schedule_determined {draws : JitterDraws} {config : EngineConfig}
    {start : ContinuousEngine η} (within : draws.Within)
    (limit : config.maxBatchTokens < 2 ^ sizeBits)
    (accepted : ContinuousEngine.new draws config = .ok start) (requests : List EngineRequest)
    (sized : ∀ request ∈ requests, request.Sized)
    (distinct : (requests.map EngineRequest.requestId).Nodup) :
    ∃ results stats, ∃ clock : ℤ, ∃ enough, ∀ permuted : List EngineRequest,
      permuted.Perm requests → ∀ (platform : Platform) (count rounds : ℕ), enough ≤ rounds →
        (platform.runUntilIdle rounds (permuted.foldl submit start) count).map
            (fun ran => ran.1.map fun engine => (engine.results, engine.stats, engine.clock)) =
          if clock ≤ platform.timeMax then .ok (some (results, stats, clock))
          else .error .overflowed := by
  obtain ⟨rested, clock, busy⟩ := Rested.new within limit accepted
  obtain ⟨_, _, _, idle, _, pending, _⟩ := new_eq_ok accepted
  have empty : PriorityQueue.size start.pending = 0 := by
    unfold PriorityQueue.size
    rw [pending, PriorityQueue.elements_empty, Multiset.card_zero]
  have fits : PriorityQueue.size start.pending ≤ start.stats.peakPendingRequests :=
    empty.trans_le (Nat.zero_le _)
  have restedAll := rested_submitted rested sized
  obtain ⟨enough, final, ran, _⟩ := restedAll.regular.invariant.runUntilIdle_ends
    restedAll.sequences restedAll.prefills
  refine ⟨final.results, final.stats, final.clock, enough, ?_⟩
  intro permuted perm platform count rounds more
  obtain ⟨extra, rfl⟩ := Nat.exists_eq_add_of_le more
  obtain ⟨last, ranOther, alike⟩ := (alike_submitted perm fits).runUntilIdle restedAll
    (distinct_submitted empty idle distinct) (runUntilIdle_add ran extra)
  have restedOther := rested_submitted rested fun request member =>
    sized request (perm.mem_iff.mp member)
  have fresh : (permuted.foldl submit start).clock = 0 ∧
      (permuted.foldl submit start).stats.simulatedBusyTime = 0 := by
    rw [foldl_submit permuted fits]
    exact ⟨clock, busy⟩
  have begun : platform.Within (permuted.foldl submit start) := by
    unfold Within
    rw [fresh.1, fresh.2]
    exact ⟨Int.natCast_nonneg _, Int.natCast_nonneg _⟩
  have same : last.clock = final.clock := congrArg (fun seen => seen.2.2) alike.observed
  have ended := runUntilIdle_observed restedOther begun ranOther count
  rw [alike.observed] at ended
  refine ended.trans ?_
  unfold guarded
  simp only [within_final restedOther fresh ranOther, same]
  rfl

/-- The namespaces of the prefix cache in the reverse order. -/
def backwards : Platform where
  timeMax := 2 ^ 63 - 1
  order _ :=
    { present := List.reverse
      presents := fun roots => ⟨roots.reverse, (List.reverse_perm roots).symm,
        List.forall₂_same.mpr fun root _ => ⟨rfl, .refl root.2⟩⟩ }

/-- An engine with three blocks of two tokens. -/
def cramped : ContinuousEngine (SelectionQueue EngineRequest) :=
  (ContinuousEngine.new (fun _ _ _ => 0)
    { kvBlocks := 3, kvBlockSizeTokens := 2 }).toOption.get rfl

theorem new_cramped : ContinuousEngine.new (fun _ _ _ => 0)
    { kvBlocks := 3, kvBlockSizeTokens := 2 } = .ok cramped :=
  rfl

/-- Requests of three models; the prefix that one leaves behind is in the way of the last. -/
def threeModels : List EngineRequest :=
  [{ requestId := ['a'], modelRevision := ['m'], promptBlockHashes := [['x']],
     promptTokens := 2, maxOutputTokens := 1 },
    { requestId := ['b'], modelRevision := ['n'], promptBlockHashes := [['x']],
      promptTokens := 2, maxOutputTokens := 1 },
    { requestId := ['c'], promptTokens := 4, maxOutputTokens := 2 }]

/-- All are answered, and alike in either order. -/
theorem schedule_determined_models :
    ((ContinuousEngine.runUntilIdle 5 (threeModels.foldl submit cramped)).map fun engine =>
      engine.results.map fun result => (result.requestId, result.succeeded)) =
        some [(['a'], true), (['b'], true), (['c'], true)] ∧
    ∃ enough, ∀ rounds, enough ≤ rounds →
      (backwards.runUntilIdle rounds (threeModels.reverse.foldl submit cramped) 7).map
          (fun ran => ran.1.map fun engine => (engine.results, engine.stats, engine.clock)) =
        (standard.runUntilIdle rounds (threeModels.foldl submit cramped) 0).map
          (fun ran => ran.1.map fun engine => (engine.results, engine.stats, engine.clock)) := by
  refine ⟨by decide +kernel, ?_⟩
  obtain ⟨results, stats, clock, enough, determined⟩ := schedule_determined within_zero
    (by decide) new_cramped threeModels (by
      unfold threeModels
      simp only [List.mem_cons, List.not_mem_nil, or_false]
      rintro request (rfl | rfl | rfl)
      · exact ⟨by decide, by decide⟩
      · exact ⟨by decide, by decide⟩
      · exact ⟨by decide, by decide⟩) (by decide)
  refine ⟨enough, fun rounds more => ?_⟩
  rw [determined _ (List.reverse_perm threeModels) backwards 7 rounds more,
    determined _ (List.Perm.refl threeModels) standard 0 rounds more]
  rfl

end Platform
end InferSched.Engine

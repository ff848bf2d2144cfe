import Mathlib.Logic.Relation
import InferSched.Engine.BatchInvariant

/-! # Requests left behind

The static engine never takes a block back from the prefix cache to make an
allocation fit, so the pins that earlier prompts left can keep a request that
fits the engine from ever running. `Stuck` is the state in which that happens,
and `RunUntilIdle` answers every request exactly when it meets no such state.
-/

namespace InferSched.Engine

open Library

namespace DeterministicEngine

/-! ### Requests that can be served -/

/-- A request whose output is cached, or for which the free blocks suffice next to
the ones it can share. -/
def Servable (engine : DeterministicEngine) (request : EngineRequest) : Prop :=
  engine.resultCache.entries.lookup (resultKey request) ≠ none ∨
    engine.requiredBlocks request ≤
      engine.kvCache.freeBlocks + (engine.matchPrefix request).1.length

/-- No selected request can be served. -/
def Unservable (engine : DeterministicEngine) (indices : List ℕ) : Prop :=
  ∀ index ∈ indices, ∀ request, engine.pending[index]? = some request → ¬ engine.Servable request

/-- All pending requests have arrived and fit the engine, and none of those the
policy selects can be served. -/
def Stuck (engine : DeterministicEngine) : Prop :=
  engine.pending ≠ [] ∧
  (∀ request ∈ engine.pending,
    request.arrivalTime ≤ engine.clock ∧ engine.impossibleReason request = none) ∧
  engine.Unservable engine.selected

/-- The blocks a request shares between two batches may be shared. -/
theorem Settled.sharable {engine : DeterministicEngine} (settled : engine.Settled)
    (request : EngineRequest) :
    engine.kvCache.sharable [] (engine.matchPrefix request).1 = true := by
  rw [PagedKvCache.sharable_iff]
  rcases (engine.matchPrefix_eq request).1 with none | found
  · rw [none]
    exact ⟨List.nodup_nil, List.forall_mem_nil _⟩
  · rw [← settled.pinned.lookup] at found
    refine ⟨settled.invariant.prefixes_nodup _ _ found, fun block member => ?_⟩
    have pinned := settled.shared_pinned request block member
    have unheld : engine.kvCache.sequenceBlocks.holders block = 0 := by
      by_contra held
      obtain ⟨id, blocks, listed, _⟩ := Holdings.holders_pos_iff.mp (Nat.pos_of_ne_zero held)
      have known : id ∈ engine.kvCache.sequenceBlocks := AList.lookup_isSome.mp (listed ▸ rfl)
      exact absurd ((settled.sequences id).mp known) List.not_mem_nil
    have once : engine.kvCache.holders block = 1 := by
      have bound := settled.unshared block
      unfold PagedKvCache.holders
      omega
    refine ⟨List.not_mem_nil, ?_, ?_⟩
    · by_contra beyond
      have outside := settled.invariant.balanced.outside block (Nat.le_of_not_lt beyond)
      omega
    · rw [settled.invariant.refCount_eq block (by rw [once]; decide), once]
      exact Nat.one_ne_zero

/-- Between two batches an allocation succeeds exactly when the blocks suffice. -/
theorem Settled.allocate_iff {engine : DeterministicEngine} (settled : engine.Settled)
    (positive : 0 < engine.config.kvBlockSizeTokens) (request : EngineRequest) :
    (engine.kvCache.allocate request.requestId (engine.requiredBlocks request)
        (engine.matchPrefix request).1).1 = .allocated ↔
      engine.requiredBlocks request ≤
        engine.kvCache.freeBlocks + (engine.matchPrefix request).1.length := by
  have short : (engine.matchPrefix request).1.length ≤ engine.requiredBlocks request :=
    (engine.matchPrefix_eq request).2.trans
      (blocksForTokens_mono positive (Nat.le_add_right _ _))
  unfold PagedKvCache.freeBlocks
  rcases engine.kvCache.allocate_cases request.requestId (engine.requiredBlocks request)
    (engine.matchPrefix request).1 with ⟨_, known⟩ | ⟨_, _, long | invalid⟩ |
    ⟨refused, _, _, _, scarce⟩ | ⟨allocated, _, _, _, grant⟩
  · exact absurd ((settled.sequences _).mp known) List.not_mem_nil
  · exact absurd short (Nat.not_le.mpr long)
  · rw [settled.sharable request] at invalid
    cases invalid
  · rw [refused]
    exact iff_of_false (fun impossible => by cases impossible) (by omega)
  · have enough := grant.enough
    exact iff_of_true allocated (by omega)

/-! ### A batch without progress -/

/-- Nothing a later batch depends on has changed. -/
structure Unmoved (start engine : DeterministicEngine) : Prop where
  config : engine.config = start.config
  clock : engine.clock = start.clock
  kvCache : engine.kvCache = start.kvCache
  prefixEntries : engine.prefixCache.entries = start.prefixCache.entries
  resultEntries : engine.resultCache.entries = start.resultCache.entries
  pending : engine.pending = start.pending

theorem Unmoved.matchPrefix {start engine : DeterministicEngine} (unmoved : Unmoved start engine)
    (request : EngineRequest) : (engine.matchPrefix request).1 = (start.matchPrefix request).1 := by
  unfold DeterministicEngine.matchPrefix promptBlocks
  dsimp only
  rw [PrefixCache.get_eq_lookup, PrefixCache.get_eq_lookup, unmoved.prefixEntries, unmoved.config]

/-- A turn over a request that cannot be served changes nothing that matters. -/
theorem Unmoved.turn {start engine : DeterministicEngine} {index : ℕ} {request : EngineRequest}
    {after : DeterministicEngine × Batch} (unmoved : Unmoved start engine)
    (settled : start.Settled) (positive : 0 < start.config.kvBlockSizeTokens)
    (possible : start.impossibleReason request = none)
    (turn : Turn engine {} index request after) :
    (¬ start.Servable request → after.2 = {} ∧ Unmoved start after.1) ∧
      (start.Servable request → after.2.completedIndices ++ after.2.active.map
        BatchRequest.pendingIndex ≠ []) := by
  have allocation := settled.allocate_iff positive request
  have required : engine.requiredBlocks request = start.requiredBlocks request := by
    unfold requiredBlocks
    rw [unmoved.config]
  rw [← required, ← unmoved.matchPrefix, ← unmoved.kvCache] at allocation
  unfold Servable
  rw [← unmoved.resultEntries, ← required, ← unmoved.matchPrefix, ← unmoved.kvCache, ← allocation]
  cases turn with
  | answered results found =>
      rw [found]
      exact ⟨fun unservable => absurd (Or.inl (Option.some_ne_none _)) unservable,
        fun _ => List.cons_ne_nil _ _⟩
  | joined results missing counted allocated =>
      exact ⟨fun unservable => absurd (Or.inr allocated) unservable,
        fun _ => List.cons_ne_nil _ _⟩
  | passed results prefixes missing refused =>
      have counted : request.promptTokens ≤ sizeMax - request.maxOutputTokens := by
        by_contra overflow
        unfold impossibleReason at possible
        rw [if_pos (Nat.lt_of_not_le overflow)] at possible
        cases possible
      refine ⟨fun _ => ⟨rfl, unmoved.config, unmoved.clock, unmoved.kvCache, ?_,
        results.trans unmoved.resultEntries, unmoved.pending⟩, ?_⟩
      · rcases prefixes with rfl | rfl
        · exact unmoved.prefixEntries
        · exact (PrefixCache.entries_get _ _).trans unmoved.prefixEntries
      · rintro (cached | fits)
        · exact absurd missing cached
        · exact absurd fits (refused counted)

/-- The positions a scan has answered or put into the batch. -/
def taken (batch : Batch) : List ℕ :=
  batch.completedIndices ++ batch.active.map BatchRequest.pendingIndex

/-- A scan forgets no position. -/
theorem taken_scan_ne_nil {engine : DeterministicEngine} {batch : Batch} {later : List ℕ}
    (some : taken batch ≠ []) : taken (scanSelected later engine batch).2 ≠ [] := by
  induction later generalizing engine batch with
  | nil => exact some
  | cons index later ih =>
      unfold scanSelected
      split
      · exact ih some
      · next request _ =>
          apply ih
          have turn := engine.considerRequest_turn batch index request
          generalize engine.considerRequest batch index request = after at turn
          cases turn with
          | answered results found =>
              unfold taken
              simp only [List.append_assoc, ne_eq, List.append_eq_nil_iff, List.cons_ne_nil,
                false_and, and_false, not_false_eq_true]
          | joined results missing counted allocated =>
              unfold taken DeterministicEngine.join
              simp only [List.map_append, List.map_cons, List.map_nil, ne_eq,
                List.append_eq_nil_iff, List.cons_ne_nil, and_false, not_false_eq_true]
          | passed results prefixes missing refused => exact some

/-- A scan takes something exactly when a request it considers can be served. -/
theorem Unmoved.scan {start engine : DeterministicEngine} {later : List ℕ}
    (unmoved : Unmoved start engine) (settled : start.Settled)
    (positive : 0 < start.config.kvBlockSizeTokens)
    (possible : ∀ index ∈ later, ∀ request, start.pending[index]? = some request →
      start.impossibleReason request = none) :
    (start.Unservable later → (scanSelected later engine {}).2 = {} ∧
        Unmoved start (scanSelected later engine {}).1) ∧
      (¬ start.Unservable later → taken (scanSelected later engine {}).2 ≠ []) := by
  induction later generalizing engine with
  | nil => exact ⟨fun _ => ⟨rfl, unmoved⟩, fun servable => absurd (List.forall_mem_nil _) servable⟩
  | cons index later ih =>
      have others := ih unmoved fun other member =>
        possible other (List.mem_cons_of_mem _ member)
      unfold Unservable at others ⊢
      rw [List.forall_mem_cons]
      unfold scanSelected
      rw [unmoved.pending]
      cases here : start.pending[index]? with
      | none =>
          have vacuous : ∀ request, none = some request → ¬ start.Servable request :=
            fun request absent => absurd absent.symm (Option.some_ne_none _)
          exact ⟨fun unservable => others.1 unservable.2, fun servable =>
            others.2 fun rest => servable ⟨vacuous, rest⟩⟩
      | some request =>
          have turn := unmoved.turn settled positive
            (possible index List.mem_cons_self request here)
            (engine.considerRequest_turn {} index request)
          dsimp only
          by_cases servable : start.Servable request
          · refine ⟨fun unservable => absurd servable (unservable.1 request rfl), fun _ => ?_⟩
            exact taken_scan_ne_nil (turn.2 servable)
          · obtain ⟨nothing, moved⟩ := turn.1 servable
            rw [nothing]
            have rest := ih moved fun other member =>
              possible other (List.mem_cons_of_mem _ member)
            refine ⟨fun unservable => rest.1 unservable.2, fun some => rest.2 fun none => some ?_⟩
            refine ⟨fun other same => ?_, none⟩
            cases same
            exact servable

theorem rejectFrom_of_acceptable {engine : DeterministicEngine} {kept later : List EngineRequest}
    (acceptable : ∀ request ∈ later, engine.Acceptable request) :
    rejectFrom kept later engine = (false, engine) := by
  induction later generalizing kept with
  | nil => rfl
  | cons request later ih =>
      obtain ⟨first, others⟩ := List.forall_mem_cons.mp acceptable
      unfold rejectFrom
      split
      · exact ih others
      · next reason judged =>
          have late : request.arrivalTime > engine.clock := by
            by_contra arrived
            rw [first (Int.not_lt.mp arrived)] at judged
            cases judged
          rw [if_pos late]
          exact ih others

/-- A batch makes no progress exactly when it has nothing to reject and nothing it
could serve; then it changes nothing that matters. -/
theorem Settled.runOneBatch_idle {engine : DeterministicEngine} (settled : engine.Settled)
    (positive : 0 < engine.config.kvBlockSizeTokens) :
    (engine.runOneBatch.1 = false ↔
      (∀ request ∈ engine.pending, engine.Acceptable request) ∧
        engine.Unservable engine.selected) ∧
    (engine.runOneBatch.1 = false → Unmoved engine engine.runOneBatch.2) := by
  by_cases acceptable : ∀ request ∈ engine.pending, engine.Acceptable request
  · have scan := @Unmoved.scan engine engine _ ⟨rfl, rfl, rfl, rfl, rfl, rfl⟩ settled positive
      (selected_possible acceptable)
    unfold DeterministicEngine.runOneBatch rejectImpossibleReadyRequests
    rw [rejectFrom_of_acceptable acceptable]
    unfold runSelected
    dsimp only
    split
    · next nothing =>
        rw [nothing]
        exact ⟨iff_of_true rfl ⟨acceptable, List.forall_mem_nil _⟩,
          fun _ => ⟨rfl, rfl, rfl, rfl, rfl, rfl⟩⟩
    · by_cases unservable : engine.Unservable engine.selected
      · obtain ⟨empty, unmoved⟩ := scan.1 unservable
        rw [empty]
        exact ⟨iff_of_true rfl ⟨acceptable, unservable⟩, fun _ => unmoved⟩
      · have some := scan.2 unservable
        have progress : (!(taken (scanSelected engine.selected engine {}).2).isEmpty) = true := by
          rw [Bool.not_eq_true', List.isEmpty_eq_false_iff]
          exact some
        unfold taken at progress
        rw [progress]
        exact ⟨iff_of_false (fun idle => Bool.false_ne_true idle.symm) fun both =>
          unservable both.2, fun idle => absurd idle.symm Bool.false_ne_true⟩
  · obtain ⟨rejected, remaining, _, _, split, _, flag, others⟩ :=
      rejectFrom_spec (List.nil_append engine.pending).symm
    have some : rejected ≠ [] := by
      rintro rfl
      exact acceptable fun request member => others request (split.mem_iff.mp member)
    have progress : engine.runOneBatch.1 = true := by
      unfold DeterministicEngine.runOneBatch rejectImpossibleReadyRequests
      dsimp only
      rw [flag.mpr some]
      rfl
    rw [progress]
    exact ⟨iff_of_false (fun idle => Bool.false_ne_true idle.symm) fun both =>
      acceptable both.1, fun idle => absurd idle.symm Bool.false_ne_true⟩

/-! ### Arrivals to come -/

/-- The earliest arrival after the clock among some requests, or the one found so
far. -/
theorem foldl_arrival {now : ℤ} (requests : List EngineRequest) (found : Option ℤ)
    (later : ∀ arrival ∈ found, now < arrival) :
    (∀ arrival ∈ requests.foldl (earlierArrival now) found,
      now < arrival ∧ (arrival ∈ found ∨ ∃ request ∈ requests, request.arrivalTime = arrival)) ∧
    (requests.foldl (earlierArrival now) found = none ↔
      found = none ∧ ∀ request ∈ requests, request.arrivalTime ≤ now) := by
  induction requests generalizing found with
  | nil =>
      exact ⟨fun arrival member => ⟨later arrival member, Or.inl member⟩,
        ⟨fun nothing => ⟨nothing, List.forall_mem_nil _⟩, fun both => both.1⟩⟩
  | cons request rest ih =>
      rw [List.foldl_cons, List.forall_mem_cons, earlierArrival]
      split
      · next earlier =>
          have more := ih (some request.arrivalTime) fun arrival member => by
            cases member
            exact earlier.1
          refine ⟨fun arrival member => ?_, ?_⟩
          · obtain ⟨after, known | ⟨other, present, same⟩⟩ := more.1 arrival member
            · cases known
              exact ⟨after, Or.inr ⟨request, List.mem_cons_self, rfl⟩⟩
            · exact ⟨after, Or.inr ⟨other, List.mem_cons_of_mem _ present, same⟩⟩
          · rw [more.2]
            exact iff_of_false (fun both => absurd both.1 (Option.some_ne_none _))
              fun both => absurd both.2.1 (Int.not_le.mpr earlier.1)
      · next kept =>
          have more := ih found later
          refine ⟨fun arrival member => ?_, ?_⟩
          · obtain ⟨after, known | ⟨other, present, same⟩⟩ := more.1 arrival member
            · exact ⟨after, Or.inl known⟩
            · exact ⟨after, Or.inr ⟨other, List.mem_cons_of_mem _ present, same⟩⟩
          · rw [more.2]
            constructor
            · rintro ⟨nothing, others⟩
              refine ⟨nothing, ?_, others⟩
              by_contra late
              exact kept ⟨Int.lt_of_not_ge late, by rw [nothing]; rfl⟩
            · rintro ⟨nothing, _, others⟩
              exact ⟨nothing, others⟩

theorem nextFutureArrival_eq_none (engine : DeterministicEngine) :
    engine.nextFutureArrival = none ↔
      ∀ request ∈ engine.pending, request.arrivalTime ≤ engine.clock :=
  ((foldl_arrival engine.pending none (fun _ absent => by cases absent)).2).trans
    (and_iff_right rfl)

theorem nextFutureArrival_eq_some {engine : DeterministicEngine} {arrival : ℤ}
    (next : engine.nextFutureArrival = some arrival) :
    engine.clock < arrival ∧ ∃ request ∈ engine.pending, request.arrivalTime = arrival := by
  obtain ⟨later, absent | present⟩ :=
    (foldl_arrival engine.pending none (fun _ absent => by cases absent)).1 arrival next
  · cases absent
  · exact ⟨later, present⟩

/-- The number of pending requests still to arrive. -/
def arrivalsToCome (engine : DeterministicEngine) : ℕ :=
  engine.pending.countP fun request => request.arrivalTime > engine.clock

/-- Waiting for the next arrival leaves fewer to come. -/
theorem arrivalsToCome_awaitArrival {engine : DeterministicEngine} {arrival : ℤ}
    (next : engine.nextFutureArrival = some arrival) :
    (engine.awaitArrival arrival).arrivalsToCome < engine.arrivalsToCome := by
  obtain ⟨later, request, member, rfl⟩ := nextFutureArrival_eq_some next
  have clock : (engine.awaitArrival request.arrivalTime).clock = request.arrivalTime := by
    unfold awaitArrival advance
    dsimp only
    rw [if_pos (by omega)]
    omega
  obtain ⟨before, after, split⟩ := List.append_of_mem member
  unfold arrivalsToCome
  rw [clock]
  change (engine.pending.countP _) < _
  rw [split, List.countP_append, List.countP_append, List.countP_cons_of_neg (by simp),
    List.countP_cons_of_pos (by simpa using later)]
  have fewer : ∀ requests : List EngineRequest,
      (requests.countP fun other => other.arrivalTime > request.arrivalTime) ≤
        requests.countP fun other => other.arrivalTime > engine.clock := by
    intro requests
    refine List.countP_mono_left fun other _ late => ?_
    simp only [gt_iff_lt, decide_eq_true_eq] at late ⊢
    exact later.trans late
  have one := fewer before
  have two := fewer after
  omega

/-! ### Rounds -/

/-- A round of `RunUntilIdle` that is followed by another: a batch with progress, or
one without and the wait for the next arrival. -/
inductive Round : DeterministicEngine → DeterministicEngine → Prop
  | batch {engine : DeterministicEngine} (waiting : engine.pending ≠ [])
      (progress : engine.runOneBatch.1 = true) : Round engine engine.runOneBatch.2
  | arrival {engine : DeterministicEngine} {arrival : ℤ} (waiting : engine.pending ≠ [])
      (idle : engine.runOneBatch.1 = false)
      (next : engine.runOneBatch.2.nextFutureArrival = some arrival) :
      Round engine (engine.runOneBatch.2.awaitArrival arrival)

/-- Finitely many rounds. -/
abbrev Rounds : DeterministicEngine → DeterministicEngine → Prop :=
  Relation.ReflTransGen Round

theorem runUntilIdle_of_round {engine next : DeterministicEngine} (round : Round engine next)
    (rounds : ℕ) : runUntilIdle (rounds + 1) engine = runUntilIdle rounds next := by
  cases round with
  | batch waiting progress =>
      rw [runUntilIdle, if_neg waiting]
      dsimp only
      rw [if_pos progress]
  | arrival waiting idle next =>
      rw [runUntilIdle, if_neg waiting]
      dsimp only
      rw [idle, if_neg Bool.false_ne_true, next]

/-- What is known of an engine after some rounds on the given requests. -/
structure Serving (start : DeterministicEngine) (requests : List EngineRequest)
    (engine : DeterministicEngine) : Prop where
  settled : engine.Settled
  positive : 0 < engine.config.kvBlockSizeTokens
  config : engine.config = start.config
  totalBlocks : engine.kvCache.totalBlocks = start.kvCache.totalBlocks
  answers : ∃ answered : List EngineRequest, (answered ++ engine.pending).Perm requests ∧
    List.Forall₂ (fun request result => result.requestId = request.requestId ∧
      (result.succeeded = true ↔ start.impossibleReason request = none)) answered engine.results

theorem impossibleReason_congr {engine next : DeterministicEngine}
    (config : next.config = engine.config)
    (totalBlocks : next.kvCache.totalBlocks = engine.kvCache.totalBlocks)
    (request : EngineRequest) :
    next.impossibleReason request = engine.impossibleReason request := by
  unfold impossibleReason
  rw [config, totalBlocks]

theorem Serving.runOneBatch {start engine : DeterministicEngine} {requests : List EngineRequest}
    (serving : Serving start requests engine) :
    Serving start requests engine.runOneBatch.2 := by
  obtain ⟨settled, total⟩ := serving.settled.runOneBatch
  obtain ⟨more, batch, _⟩ := engine.runOneBatch_answered
  obtain ⟨answered, all, judged⟩ := serving.answers
  obtain ⟨new, appended, responses⟩ := batch.results
  refine ⟨settled, by rw [batch.config]; exact serving.positive,
    batch.config.trans serving.config, total.trans serving.totalBlocks, answered ++ more, ?_, ?_⟩
  · rw [List.append_assoc]
    exact (batch.pending.symm.append_left answered).trans all
  · rw [appended]
    refine List.rel_append judged (responses.imp fun request result response => ?_)
    rw [← impossibleReason_congr serving.config serving.totalBlocks]
    exact response.outcome

theorem Serving.awaitArrival {start engine : DeterministicEngine} {requests : List EngineRequest}
    (serving : Serving start requests engine) (arrival : ℤ) :
    Serving start requests (engine.awaitArrival arrival) :=
  ⟨serving.settled.congr rfl rfl, serving.positive, serving.config, serving.totalBlocks,
    serving.answers⟩

theorem Serving.round {start engine next : DeterministicEngine} {requests : List EngineRequest}
    (serving : Serving start requests engine) (round : Round engine next) :
    Serving start requests next := by
  cases round with
  | batch waiting progress => exact serving.runOneBatch
  | arrival waiting idle next => exact serving.runOneBatch.awaitArrival _

theorem Serving.rounds {start engine next : DeterministicEngine} {requests : List EngineRequest}
    (serving : Serving start requests engine) (rounds : Rounds engine next) :
    Serving start requests next := by
  induction rounds with
  | refl => exact serving
  | tail _ round ih => exact ih.round round

/-- A stuck engine is one whose batch makes no progress with nothing to come. -/
theorem Serving.stuck_iff {start engine : DeterministicEngine} {requests : List EngineRequest}
    (serving : Serving start requests engine) :
    engine.Stuck ↔ engine.pending ≠ [] ∧ engine.runOneBatch.1 = false ∧
      engine.runOneBatch.2.nextFutureArrival = none := by
  obtain ⟨idle, unmoved⟩ := serving.settled.runOneBatch_idle serving.positive
  have nothing (still : engine.runOneBatch.1 = false) :
      engine.runOneBatch.2.nextFutureArrival = none ↔
        ∀ request ∈ engine.pending, request.arrivalTime ≤ engine.clock := by
    rw [nextFutureArrival_eq_none, (unmoved still).pending, (unmoved still).clock]
  constructor
  · rintro ⟨waiting, ready, unservable⟩
    have still := idle.mpr ⟨fun request member _ => (ready request member).2, unservable⟩
    exact ⟨waiting, still, (nothing still).mpr fun request member => (ready request member).1⟩
  · rintro ⟨waiting, still, none⟩
    obtain ⟨acceptable, unservable⟩ := idle.mp still
    have arrived := (nothing still).mp none
    exact ⟨waiting, fun request member => ⟨arrived request member,
      acceptable request member (arrived request member)⟩, unservable⟩

/-- A batch with progress shortens the pending list. -/
theorem length_pending_runOneBatch {engine : DeterministicEngine}
    (progress : engine.runOneBatch.1 = true) :
    engine.runOneBatch.2.pending.length < engine.pending.length := by
  obtain ⟨answered, batch, flag⟩ := engine.runOneBatch_answered
  have some := List.length_pos_iff.mpr (flag.mp progress)
  rw [batch.pending.length_eq, List.length_append]
  omega

theorem runUntilIdle_stuck {engine : DeterministicEngine} (waiting : engine.pending ≠ [])
    (idle : engine.runOneBatch.1 = false)
    (none : engine.runOneBatch.2.nextFutureArrival = none) (rounds : ℕ) :
    runUntilIdle (rounds + 1) engine = some engine.runOneBatch.2 := by
  rw [runUntilIdle, if_neg waiting]
  dsimp only
  rw [idle, if_neg Bool.false_ne_true, none]

/-- `RunUntilIdle` ends. A batch with progress leaves fewer requests, and a wait
leaves as many with fewer still to arrive. -/
theorem Serving.runUntilIdle_ends {start : DeterministicEngine} {requests : List EngineRequest}
    (length arrivals : ℕ) :
    ∀ engine : DeterministicEngine, engine.pending.length < length →
      engine.arrivalsToCome < arrivals → Serving start requests engine →
      ∃ rounds final last, runUntilIdle rounds engine = some final ∧ Rounds engine last ∧
        ((last.pending = [] ∧ final = last) ∨ last.Stuck) := by
  induction length generalizing arrivals with
  | zero => exact fun engine short => absurd short (Nat.not_lt_zero _)
  | succ length outer =>
      induction arrivals with
      | zero => exact fun engine _ few => absurd few (Nat.not_lt_zero _)
      | succ arrivals inner =>
          intro engine short few serving
          by_cases empty : engine.pending = []
          · exact ⟨1, engine, engine, if_pos empty, .refl, Or.inl ⟨empty, rfl⟩⟩
          · have continues {next : DeterministicEngine} (round : Round engine next)
                (rest : ∃ rounds final last, runUntilIdle rounds next = some final ∧
                  Rounds next last ∧ ((last.pending = [] ∧ final = last) ∨ last.Stuck)) :
                ∃ rounds final last, runUntilIdle rounds engine = some final ∧
                  Rounds engine last ∧ ((last.pending = [] ∧ final = last) ∨ last.Stuck) := by
              obtain ⟨rounds, final, last, ran, reached, ends⟩ := rest
              exact ⟨rounds + 1, final, last, (runUntilIdle_of_round round rounds).trans ran,
                .head round reached, ends⟩
            cases progress : engine.runOneBatch.1 with
            | true =>
                have round := Round.batch empty progress
                have fewer := length_pending_runOneBatch progress
                exact continues round (outer _ _ (by omega) (Nat.lt_succ_self _)
                  (serving.round round))
            | false =>
                have unmoved :=
                  (serving.settled.runOneBatch_idle serving.positive).2 progress
                cases next : engine.runOneBatch.2.nextFutureArrival with
                | none =>
                    exact ⟨1, _, engine, runUntilIdle_stuck empty progress next 0, .refl,
                      Or.inr (serving.stuck_iff.mpr ⟨empty, progress, next⟩)⟩
                | some arrival =>
                    have round := Round.arrival empty progress next
                    have fewer := arrivalsToCome_awaitArrival next
                    have same : engine.runOneBatch.2.arrivalsToCome = engine.arrivalsToCome := by
                      unfold arrivalsToCome
                      rw [unmoved.pending, unmoved.clock]
                    refine continues round (inner _ ?_ (by omega) (serving.round round))
                    change engine.runOneBatch.2.pending.length < _
                    rw [unmoved.pending]
                    exact short

/-- From a stuck state on, `RunUntilIdle` ends with requests pending. -/
theorem Serving.pending_of_stuck {start engine last : DeterministicEngine}
    {requests : List EngineRequest} (serving : Serving start requests engine)
    (reached : Rounds engine last) (stuck : last.Stuck) :
    ∀ rounds final, runUntilIdle rounds engine = some final → final.pending ≠ [] := by
  induction reached using Relation.ReflTransGen.head_induction_on with
  | refl =>
      intro rounds final ran
      obtain ⟨waiting, idle, none⟩ := serving.stuck_iff.mp stuck
      cases rounds with
      | zero => cases ran
      | succ rounds =>
          rw [runUntilIdle_stuck waiting idle none] at ran
          cases ran
          rw [((serving.settled.runOneBatch_idle serving.positive).2 idle).pending]
          exact waiting
  | head round _ ih =>
      intro rounds final ran
      cases rounds with
      | zero => cases ran
      | succ rounds =>
          rw [runUntilIdle_of_round round] at ran
          exact ih (serving.round round) rounds final ran

/-- Submissions extend the pending list and nothing else. -/
theorem run_submit (requests : List EngineRequest) (start : DeterministicEngine) :
    object.run (requests.map Call.submit) start =
      { start with pending := start.pending ++ requests } := by
  induction requests generalizing start with
  | nil => rw [List.append_nil]; rfl
  | cons request later ih =>
      rw [List.map_cons, AtomicObject.run_cons]
      change object.run (later.map Call.submit) (start.submit request) = _
      rw [ih, submit]
      dsimp only
      rw [List.append_assoc, List.singleton_append]

theorem Serving.submitted {draws : JitterDraws} {config : EngineConfig}
    {start : DeterministicEngine} (accepted : new draws config = .ok start)
    (requests : List EngineRequest) :
    Serving start requests (object.run (requests.map Call.submit) start) := by
  obtain ⟨settled, positive⟩ := Settled.new accepted
  obtain ⟨_, _, _, _, pending, results⟩ := new_eq_ok accepted
  rw [run_submit, pending, List.nil_append]
  refine ⟨settled.congr rfl rfl, positive, rfl, rfl, [], List.Perm.refl _, ?_⟩
  dsimp only
  rw [results]
  exact List.Forall₂.nil

/-- Every submitted request has one result, which succeeded exactly when the request
is not impossible. -/
theorem Serving.outcomes {start engine : DeterministicEngine} {requests : List EngineRequest}
    (serving : Serving start requests engine) (done : engine.pending = []) :
    (engine.results.map fun result => (result.requestId, result.succeeded)).Perm
      (requests.map fun request =>
        (request.requestId, (start.impossibleReason request).isNone)) := by
  obtain ⟨answered, all, judged⟩ := serving.answers
  rw [done, List.append_nil] at all
  have same : (answered.map fun request =>
      (request.requestId, (start.impossibleReason request).isNone)) =
      engine.results.map fun result => (result.requestId, result.succeeded) := by
    rw [← List.forall₂_eq_eq_eq, List.forall₂_map_left_iff, List.forall₂_map_right_iff]
    refine judged.imp fun request result outcome => ?_
    rw [outcome.1]
    congr 1
    rw [Bool.eq_iff_iff, outcome.2, Option.isNone_iff_eq_none]
  rw [← same]
  exact all.map _

/-- **Who is left behind.** `RunUntilIdle` ends, and it ends with every submitted
request answered once, failed exactly when it is impossible, if and only if none
of its rounds starts in a stuck state. -/
theorem runUntilIdle_answers_all_iff {draws : JitterDraws} {config : EngineConfig}
    {start : DeterministicEngine} (accepted : new draws config = .ok start)
    (requests : List EngineRequest) :
    ∃ rounds final,
      runUntilIdle rounds (object.run (requests.map Call.submit) start) = some final ∧
      ((final.pendingCount = 0 ∧
          (final.results.map fun result => (result.requestId, result.succeeded)).Perm
            (requests.map fun request =>
              (request.requestId, (start.impossibleReason request).isNone))) ↔
        ∀ engine, Rounds (object.run (requests.map Call.submit) start) engine →
          ¬ engine.Stuck) := by
  have serving := Serving.submitted accepted requests
  obtain ⟨rounds, final, last, ran, reached, ends⟩ := Serving.runUntilIdle_ends _ _ _
    (Nat.lt_succ_self _) (Nat.lt_succ_self _) serving
  refine ⟨rounds, final, ran, ?_, ?_⟩
  · rintro ⟨empty, _⟩ engine here stuck
    exact serving.pending_of_stuck here stuck rounds final ran (List.length_eq_zero_iff.mp empty)
  · intro never
    rcases ends with ⟨empty, rfl⟩ | stuck
    · exact ⟨List.length_eq_zero_iff.mpr empty, (serving.rounds reached).outcomes empty⟩
    · exact absurd stuck (never last reached)

/-! ### A request left behind -/

namespace Crowded

/-- A request of four blocks whose prompt takes three of them. -/
def first : EngineRequest :=
  { requestId := ['a'], promptHash := ['p'], promptTokens := 48, maxOutputTokens := 16 }

/-- A request of three blocks with another prompt. -/
def second : EngineRequest :=
  { requestId := ['b'], promptHash := ['q'], promptTokens := 32, maxOutputTokens := 16 }

/-- The second request is stuck once the first one is answered: the cached prompt
keeps three of the four blocks. -/
theorem stuck {start : DeterministicEngine}
    (accepted : new (fun _ _ _ => 0) { kvBlocks := 4 } = .ok start) :
    ∃ engine, Rounds (object.run ([first, second].map Call.submit) start) engine ∧
      engine.Stuck := by
  have serving := Serving.submitted accepted [first, second]
  have round : Round (object.run ([first, second].map Call.submit) start)
      (object.run ([first, second].map Call.submit) start).runOneBatch.2 := by
    cases accepted
    exact .batch (by decide +kernel) (by decide +kernel)
  refine ⟨_, .single round, (serving.round round).stuck_iff.mpr ?_⟩
  cases accepted
  exact ⟨by decide +kernel, by decide +kernel, by decide +kernel⟩

/-- With two more blocks a run ends without pending requests, so none of its rounds starts
stuck. -/
theorem never_stuck {start : DeterministicEngine}
    (accepted : new (fun _ _ _ => 0) { kvBlocks := 6 } = .ok start)
    (engine : DeterministicEngine)
    (reached : Rounds (object.run ([first, second].map Call.submit) start) engine) :
    ¬ engine.Stuck := by
  intro stuck
  have serving := Serving.submitted accepted [first, second]
  have ends : ∃ final,
      runUntilIdle 4 (object.run ([first, second].map Call.submit) start) = some final ∧
        final.pending = [] := by
    cases accepted
    exact Option.map_eq_some_iff.mp (show Option.map DeterministicEngine.pending _ = some [] by
      decide +kernel)
  obtain ⟨final, ran, empty⟩ := ends
  exact serving.pending_of_stuck reached stuck 4 final ran empty

end Crowded

open Crowded in
/-- With four blocks the run on the two requests ends without an answer to one of them. With
six no round starts stuck, and both are answered. -/
theorem runUntilIdle_leaves_second :
    (∃ start, new (fun _ _ _ => 0) { kvBlocks := 4 } = .ok start ∧
      ∃ rounds final,
        runUntilIdle rounds (object.run ([first, second].map Call.submit) start) = some final ∧
        ¬ (final.pendingCount = 0 ∧
          (final.results.map fun result => (result.requestId, result.succeeded)).Perm
            ([first, second].map fun request =>
              (request.requestId, (start.impossibleReason request).isNone)))) ∧
    ∃ start, new (fun _ _ _ => 0) { kvBlocks := 6 } = .ok start ∧
      (∀ engine, Rounds (object.run ([first, second].map Call.submit) start) engine →
        ¬ engine.Stuck) ∧
      ∃ rounds final,
        runUntilIdle rounds (object.run ([first, second].map Call.submit) start) = some final ∧
        final.pendingCount = 0 ∧
        (final.results.map fun result => (result.requestId, result.succeeded)).Perm
          ([first, second].map fun request =>
            (request.requestId, (start.impossibleReason request).isNone)) := by
  constructor
  · have accepted : new (fun _ _ _ => 0) { kvBlocks := 4 } = .ok _ := rfl
    obtain ⟨engine, reached, stuck⟩ := Crowded.stuck accepted
    obtain ⟨rounds, final, ran, answers⟩ := runUntilIdle_answers_all_iff accepted [first, second]
    exact ⟨_, accepted, rounds, final, ran, fun all => answers.mp all engine reached stuck⟩
  · have accepted : new (fun _ _ _ => 0) { kvBlocks := 6 } = .ok _ := rfl
    have never := Crowded.never_stuck accepted
    obtain ⟨rounds, final, ran, answers⟩ := runUntilIdle_answers_all_iff accepted [first, second]
    exact ⟨_, accepted, never, rounds, final, ran, answers.mpr never⟩

open Crowded in
/-- Two requests with different ids, both of which fit the engine, and one of them
is never answered. -/
theorem feasible_left_behind :
    ¬ ∀ (draws : JitterDraws) (config : EngineConfig) (start : DeterministicEngine)
      (requests : List EngineRequest), new draws config = .ok start →
      (requests.map EngineRequest.requestId).Nodup →
      ∃ rounds final,
        runUntilIdle rounds (object.run (requests.map Call.submit) start) = some final ∧
        final.pendingCount = 0 ∧
        (final.results.map fun result => (result.requestId, result.succeeded)).Perm
          (requests.map fun request =>
            (request.requestId, (start.impossibleReason request).isNone)) := by
  intro answered
  have accepted : new (fun _ _ _ => 0) { kvBlocks := 4 } = .ok _ := rfl
  obtain ⟨rounds, final, ran, empty, _⟩ := answered _ _ _ [first, second] accepted (by decide)
  obtain ⟨engine, reached, stuck⟩ := Crowded.stuck accepted
  exact (Serving.submitted accepted [first, second]).pending_of_stuck reached stuck rounds final ran
    (List.length_eq_zero_iff.mp empty)

end DeterministicEngine
end InferSched.Engine

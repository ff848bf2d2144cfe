import InferSched.Engine.DecodeBlocks
import InferSched.Engine.Examination

/-! # Lookups in the result cache

Every examination counts a lookup in the result cache, before it is known whether the
prompt can be allocated. The prefix counters remember which requests they have counted; the
result counter does not. So a request that goes back to the queue, because its prompt finds
no blocks or because it is preempted, is counted again when it is next examined. While
nothing sends an examined request back, each request is counted once.
-/

namespace InferSched.Engine

open Library

variable {η : Type}

/-- There is a cached result, or the prompt is allocated in the end. -/
def Examination.Served (examination : Examination η) : Prop :=
  (examination.engine.lookupResult examination.candidate).1 = none →
    (ContinuousEngine.allocateEvicting examination.candidate
      (examination.firstAttempt.engine.prefixCache.nodeCount + 1)
      examination.firstAttempt.matched examination.firstAttempt.engine).1 = .allocated

instance (examination : Examination η) : Decidable examination.Served :=
  inferInstanceAs (Decidable (_ → _))

namespace ContinuousEngine

/-! ### What leaves the queue and the counter alone -/

/-- Neither the queue nor the number of lookups differs. -/
structure Quiet (engine next : ContinuousEngine η) : Prop where
  pending : next.pending = engine.pending
  lookups : next.stats.resultCacheRequests = engine.stats.resultCacheRequests

theorem Quiet.refl (engine : ContinuousEngine η) : engine.Quiet engine :=
  ⟨rfl, rfl⟩

theorem Quiet.trans {first second third : ContinuousEngine η} (one : first.Quiet second)
    (two : second.Quiet third) : first.Quiet third :=
  ⟨two.pending.trans one.pending, two.lookups.trans one.lookups⟩

theorem quiet_admitCandidate (engine : ContinuousEngine η) (candidate : EngineRequest)
    (matched : Option (List BlockId)) : engine.Quiet (engine.admitCandidate candidate matched) := by
  obtain ⟨_, _, _, stats⟩ := engine.admitCandidate_stats_eq candidate matched
  refine ⟨(admitCandidate_frame engine candidate matched).2.1, ?_⟩
  rw [stats]

theorem quiet_tryAdmit (engine : ContinuousEngine η) (candidate : EngineRequest) (scan : Scan) :
    engine.Quiet (engine.tryAdmit candidate scan).1 := by
  obtain ⟨_, found⟩ := engine.matchPrefix_eq candidate
  obtain ⟨_, _, attempted⟩ := (engine.matchPrefix candidate).2.allocateEvicting_eq candidate
    (engine.matchPrefix candidate).1 ((engine.matchPrefix candidate).2.prefixCache.nodeCount + 1)
  have allocated : engine.Quiet (allocateEvicting candidate
      ((engine.matchPrefix candidate).2.prefixCache.nodeCount + 1)
      (engine.matchPrefix candidate).1 (engine.matchPrefix candidate).2).2.2 := by
    rw [attempted, found]
    exact ⟨rfl, rfl⟩
  unfold tryAdmit
  dsimp only
  split
  · exact allocated
  · exact allocated.trans (quiet_admitCandidate _ candidate _)

theorem quiet_completeFrom (kept later : List ActiveRequest) (engine : ContinuousEngine η) :
    engine.Quiet (completeFrom kept later engine) := by
  induction later generalizing kept engine with
  | nil => exact .refl engine
  | cons active later ih =>
      unfold completeFrom
      split
      · exact ih _ engine
      · have finished : engine.Quiet { engine.finish active with active := kept ++ later } :=
          ⟨rfl, rfl⟩
        exact finished.trans (ih _ _)

theorem quiet_preparePass (later : List ActiveRequest) (engine : ContinuousEngine η) :
    engine.Quiet (preparePass later engine).2 := by
  obtain ⟨_, _, passed⟩ := engine.preparePass_eq later
  rw [passed]
  exact ⟨rfl, rfl⟩

/-- A served candidate does not go back to the queue. -/
theorem deferred_tryAdmit {engine : ContinuousEngine η} {candidate : EngineRequest} {scan : Scan}
    (allocated : (allocateEvicting candidate
      ((engine.matchPrefix candidate).2.prefixCache.nodeCount + 1)
      (engine.matchPrefix candidate).1 (engine.matchPrefix candidate).2).1 = .allocated) :
    (engine.tryAdmit candidate scan).2.deferred = scan.deferred := by
  unfold tryAdmit
  dsimp only
  rw [if_neg (not_not_intro allocated)]

/-- A turn of the scan counts the candidate if it examines it. -/
theorem lookups_considerCandidate (engine : ContinuousEngine η) (candidate : EngineRequest)
    (scan : Scan) :
    (engine.considerCandidate candidate scan).2.1.pending = engine.pending ∧
    (engine.considerCandidate candidate scan).2.1.stats.resultCacheRequests =
      engine.stats.resultCacheRequests + if engine.Examines candidate scan then 1 else 0 := by
  by_cases passes : engine.Examines candidate scan
  · rw [if_pos passes]
    rcases considerCandidate_examined passes with ⟨cached, _, turn⟩ | ⟨_, turn⟩
    · rw [turn]
      exact ⟨rfl, rfl⟩
    · rw [turn]
      have quiet := quiet_tryAdmit (engine.lookupResult candidate).2 candidate scan
      exact ⟨quiet.pending, quiet.lookups⟩
  · rw [if_neg passes]
    rcases considerCandidate_unexamined passes with ⟨reason, _, turn⟩ | ⟨goes, turn⟩
    · rw [turn]
      exact ⟨rfl, rfl⟩
    · rw [turn]
      exact ⟨rfl, rfl⟩

/-- A candidate is put aside only if it was not examined. -/
theorem deferred_considerCandidate {engine : ContinuousEngine η} {candidate : EngineRequest}
    {scan : Scan}
    (served : engine.Examines candidate scan → Examination.Served ⟨candidate, engine, scan⟩) :
    ((engine.considerCandidate candidate scan).2.2.deferred : Multiset EngineRequest) +
      (if engine.Examines candidate scan then {candidate} else 0) ≤
        candidate ::ₘ (scan.deferred : Multiset EngineRequest) := by
  by_cases passes : engine.Examines candidate scan
  · rw [if_pos passes]
    have kept : (engine.considerCandidate candidate scan).2.2.deferred = scan.deferred := by
      rcases considerCandidate_examined passes with ⟨cached, _, turn⟩ | ⟨missing, turn⟩
      · rw [turn]
      · rw [turn]
        exact deferred_tryAdmit (served passes missing)
    rw [kept, add_comm, Multiset.singleton_add]
  · rw [if_neg passes, add_zero]
    rcases considerCandidate_unexamined passes with ⟨reason, _, turn⟩ | ⟨goes, turn⟩
    · rw [turn]
      exact Multiset.le_cons_self _ _
    · rw [turn]
      unfold Scan.defer
      dsimp only
      rw [← Multiset.coe_add, Multiset.coe_singleton, add_comm, Multiset.singleton_add]

/-! ### The lookups of a run -/

variable [RequestQueue η]

/-- The requests that an iteration looks up. -/
def lookups (engine : ContinuousEngine η) : List EngineRequest :=
  engine.examinations.map Examination.candidate

/-- No examined request goes back to the queue in the next iteration: every one is
answered or allocated, and every sequence of the batch can grow. -/
def Unhindered (engine : ContinuousEngine η) : Prop :=
  (∀ examination ∈ engine.examinations, examination.Served) ∧
    (preparePass engine.admitAndComplete.2.active engine.admitAndComplete.2).1 = true

instance (engine : ContinuousEngine η) : Decidable engine.Unhindered :=
  inferInstanceAs (Decidable (_ ∧ _))

/-- The requests looked up are counted, and have left the queue and the requests put
aside. -/
structure Accounts (engine : ContinuousEngine η) (scan : Scan) (examined : List EngineRequest)
    (result : ContinuousEngine η × Scan) : Prop where
  counted : result.1.stats.resultCacheRequests =
    engine.stats.resultCacheRequests + examined.length
  consumed : (examined : Multiset EngineRequest) +
      (PriorityQueue.elements result.1.pending + result.2.deferred) ≤
    PriorityQueue.elements engine.pending + scan.deferred

theorem Accounts.nothing (engine : ContinuousEngine η) (scan : Scan) :
    engine.Accounts scan [] (engine, scan) :=
  ⟨rfl, (zero_add _).le⟩

theorem Accounts.trans {engine next : ContinuousEngine η} {scan after : Scan}
    {examined more : List EngineRequest} {result : ContinuousEngine η × Scan}
    (first : engine.Accounts scan examined (next, after))
    (second : next.Accounts after more result) :
    engine.Accounts scan (examined ++ more) result := by
  constructor
  · rw [second.counted, first.counted, List.length_append, Nat.add_assoc]
  · rw [← Multiset.coe_add, add_assoc]
    exact (Multiset.add_le_add_left second.consumed).trans first.consumed

/-- A turn of the scan. -/
theorem Accounts.turn {engine : ContinuousEngine η} {scan : Scan} {candidate : EngineRequest}
    {rest : η}
    (popped : RequestQueue.popReady engine.pending engine.clock = some (candidate, rest))
    (served : Examines { engine with pending := rest } candidate scan →
      Examination.Served ⟨candidate, { engine with pending := rest }, scan⟩) :
    engine.Accounts scan
      (if Examines { engine with pending := rest } candidate scan then [candidate] else [])
      (considerCandidate { engine with pending := rest } candidate scan).2 := by
  obtain ⟨pending, counted⟩ :=
    lookups_considerCandidate { engine with pending := rest } candidate scan
  have deferred := deferred_considerCandidate served
  have split := PriorityQueue.elements_of_pop_some (RequestQueue.popReady_eq_some popped).1
  constructor
  · rw [counted]
    split
    · rfl
    · rfl
  · rw [pending, split, Multiset.cons_add, ← Multiset.add_cons, add_left_comm]
    refine Multiset.add_le_add_left (le_trans (le_of_eq ?_) deferred)
    rw [add_comm]
    split
    · rfl
    · rfl

/-- The scan counts its examinations, and what it looked up has left the queue. -/
theorem scanPending_accounts (remaining : ℕ) (engine : ContinuousEngine η) (scan : Scan)
    (served : ∀ examination ∈ examinationsFrom remaining engine scan, examination.Served) :
    engine.Accounts scan
      ((examinationsFrom remaining engine scan).map Examination.candidate)
      (scanPending remaining engine scan) := by
  induction remaining generalizing engine scan with
  | zero => exact .nothing engine scan
  | succ remaining ih =>
      unfold scanPending examinationsFrom
      unfold examinationsFrom at served
      by_cases room : engine.active.length < engine.config.maxBatchSequences
      · rw [if_pos room] at served
        rw [if_pos room, if_pos room]
        cases popped : RequestQueue.popReady engine.pending engine.clock with
        | none => exact .nothing engine scan
        | some entry =>
            obtain ⟨candidate, rest⟩ := entry
            rw [popped] at served
            dsimp only at served ⊢
            have turn : engine.Accounts scan _ _ := .turn popped fun passes => by
              apply served
              rw [if_pos passes]
              exact List.mem_cons_self
            have here : ((if Examines { engine with pending := rest } candidate scan then
                [(⟨candidate, { engine with pending := rest }, scan⟩ : Examination η)]
                else []).map Examination.candidate) =
                if Examines { engine with pending := rest } candidate scan then [candidate]
                else [] := by
              split
              · rfl
              · rfl
            rw [List.map_append, here]
            cases goes : (considerCandidate { engine with pending := rest } candidate scan).1 with
            | true =>
                rw [goes, if_pos rfl] at served
                rw [if_pos rfl, if_pos rfl]
                exact turn.trans (ih _ _ fun examination member =>
                  served examination (List.mem_append_right _ member))
            | false =>
                rw [if_neg Bool.false_ne_true, if_neg Bool.false_ne_true, List.map_nil,
                  List.append_nil]
                exact turn
      · rw [if_neg room, if_neg room]
        exact .nothing engine scan

/-- After the scan an iteration without preemption does not touch the queue. -/
theorem quiet_runOneIteration {engine : ContinuousEngine η}
    (grows :
      (preparePass engine.admitAndComplete.2.active engine.admitAndComplete.2).1 = true) :
    engine.admitAndComplete.2.Quiet engine.runOneIteration.2 := by
  have passed := quiet_preparePass engine.admitAndComplete.2.active engine.admitAndComplete.2
  have prepared : engine.admitAndComplete.2.prepareDecodeBlocks.2 =
      (preparePass engine.admitAndComplete.2.active engine.admitAndComplete.2).2 := by
    unfold prepareDecodeBlocks preparePasses
    dsimp only
    rw [grows, if_pos rfl]
  unfold runOneIteration
  dsimp only
  split
  · exact .refl _
  · split
    · rw [prepared]
      exact passed
    · rw [prepared]
      have decoded :
          (preparePass engine.admitAndComplete.2.active engine.admitAndComplete.2).2.Quiet
        (preparePass engine.admitAndComplete.2.active engine.admitAndComplete.2).2.decodeBatch :=
          ⟨rfl, rfl⟩
      exact (passed.trans decoded).trans (quiet_completeFrom _ _ _)

/-- An unhindered iteration counts what it looks up, and that has left the queue. -/
theorem Unhindered.iteration {engine : ContinuousEngine η} (unhindered : engine.Unhindered) :
    engine.runOneIteration.2.stats.resultCacheRequests =
      engine.stats.resultCacheRequests + engine.lookups.length ∧
    (engine.lookups : Multiset EngineRequest) +
      PriorityQueue.elements engine.runOneIteration.2.pending ≤
        PriorityQueue.elements engine.pending := by
  obtain ⟨served, grows⟩ := unhindered
  have begun : engine.Quiet engine.begun := by
    unfold ContinuousEngine.begun
    split
    · exact ⟨rfl, rfl⟩
    · exact .refl engine
  have accounts := scanPending_accounts _ engine.begun {} served
  have rest : engine.begun.admitReady.2.Quiet engine.runOneIteration.2 :=
    (quiet_completeFrom [] engine.begun.admitReady.2.active _).trans
      (quiet_runOneIteration grows)
  constructor
  · rw [rest.lookups]
    exact accounts.counted.trans (congrArg (· + _) begun.lookups)
  · rw [rest.pending, ← begun.pending]
    unfold admitReady requeue
    dsimp only
    rw [PriorityQueue.elements_pushAll]
    exact accounts.consumed.trans (add_zero _).le

/-- Every iteration of a run is unhindered. -/
def UnhinderedRun : List Call → ContinuousEngine η → Prop
  | [], _ => True
  | call :: calls, engine =>
      (call = .runOneIteration → engine.Unhindered) ∧
        UnhinderedRun calls (object.respond call engine).2

instance decidableUnhinderedRun :
    (calls : List Call) → (engine : ContinuousEngine η) → Decidable (UnhinderedRun calls engine)
  | [], _ => isTrue trivial
  | call :: calls, engine =>
      @instDecidableAnd _ _ (inferInstanceAs (Decidable (call = .runOneIteration → _)))
        (decidableUnhinderedRun calls (object.respond call engine).2)

/-- The requests looked up in a run. -/
def lookupsOf : List Call → ContinuousEngine η → List EngineRequest
  | [], _ => []
  | call :: calls, engine =>
      (if call = .runOneIteration then engine.lookups else []) ++
        lookupsOf calls (object.respond call engine).2

/-- Over an unhindered run every lookup is counted, and the requests looked up are
submitted ones that are not in the queue any more. -/
theorem UnhinderedRun.lookups (calls : List Call) {engine : ContinuousEngine η}
    (unhindered : UnhinderedRun calls engine) :
    (object.run calls engine).stats.resultCacheRequests =
      engine.stats.resultCacheRequests + (lookupsOf calls engine).length ∧
    (lookupsOf calls engine : Multiset EngineRequest) +
      PriorityQueue.elements (object.run calls engine).pending ≤
        PriorityQueue.elements engine.pending + submitted calls := by
  induction calls generalizing engine with
  | nil => exact ⟨rfl, ((zero_add _).trans (add_zero _).symm).le⟩
  | cons call calls ih =>
      obtain ⟨first, rest⟩ := unhindered
      obtain ⟨counted, consumed⟩ := ih rest
      cases call with
      | submit request =>
          refine ⟨counted, consumed.trans ?_⟩
          change PriorityQueue.elements (PriorityQueue.push engine.pending request) +
            (submitted calls : Multiset EngineRequest) ≤ PriorityQueue.elements engine.pending +
              ((request :: submitted calls : List EngineRequest) : Multiset EngineRequest)
          rw [PriorityQueue.elements_push, ← Multiset.cons_coe, Multiset.cons_add,
            Multiset.add_cons]
      | runOneIteration =>
          obtain ⟨countedFirst, consumedFirst⟩ := (first rfl).iteration
          change _ = _ + (engine.lookups ++ lookupsOf calls engine.runOneIteration.2).length ∧
            ((engine.lookups ++ lookupsOf calls engine.runOneIteration.2 : List EngineRequest) :
              Multiset EngineRequest) + _ ≤ _
          constructor
          · rw [List.length_append, ← Nat.add_assoc, ← countedFirst]
            exact counted
          · rw [← Multiset.coe_add, add_assoc]
            refine (Multiset.add_le_add_left consumed).trans ?_
            rw [← add_assoc]
            exact Multiset.add_le_add_right consumedFirst
      | awaitArrival arrival => exact ⟨counted, consumed⟩
      | clearCaches => exact ⟨counted, consumed⟩

/-- **Lookups.** In every run on requests with distinct ids in which no examined request
goes back to the queue, the counter of the result cache is the number of lookups, no
request is looked up twice, and the counter never exceeds the number of requests. -/
theorem lookups_counted_once {draws : JitterDraws} {config : EngineConfig}
    {start : ContinuousEngine η} (accepted : new draws config = .ok start) (calls : List Call)
    (distinct : ((submitted calls).map EngineRequest.requestId).Nodup)
    (unhindered : UnhinderedRun calls start) :
    (object.run calls start).stats.resultCacheRequests = (lookupsOf calls start).length ∧
    ((lookupsOf calls start).map EngineRequest.requestId).Nodup ∧
    (object.run calls start).stats.resultCacheRequests ≤
      ((submitted calls).map EngineRequest.requestId).toFinset.card := by
  obtain ⟨counted, consumed⟩ := UnhinderedRun.lookups calls unhindered
  obtain ⟨_, _, _, _, _, pending, stats, _⟩ := new_eq_ok accepted
  have none : start.stats.resultCacheRequests = 0 := congrArg _ stats
  have empty : PriorityQueue.elements start.pending = 0 := by
    rw [pending, PriorityQueue.elements_empty]
  rw [none, Nat.zero_add] at counted
  rw [empty, zero_add] at consumed
  have looked : (lookupsOf calls start : Multiset EngineRequest) ≤ submitted calls :=
    (Multiset.le_add_right _ _).trans consumed
  have ids : (((lookupsOf calls start).map EngineRequest.requestId : List Text) : Multiset Text) ≤
      ((submitted calls).map EngineRequest.requestId : List Text) :=
    Multiset.map_le_map looked
  refine ⟨counted, Multiset.coe_nodup.mp (Multiset.nodup_of_le ids distinct), ?_⟩
  rw [counted, List.toFinset_card_of_nodup distinct, List.length_map]
  exact Multiset.card_le_card looked

/-- Two requests of which the second is preempted and comes back: three lookups. -/
theorem lookups_exceed_requests :
    let calls := rivals ++ [.runOneIteration, .runOneIteration, .runOneIteration]
    ((submitted calls).map EngineRequest.requestId).Nodup ∧
      ¬ (object.run calls tight).stats.resultCacheRequests ≤
        ((submitted calls).map EngineRequest.requestId).toFinset.card := by
  decide +kernel

/-- The first of the two alone. -/
theorem lookups_counted_once_alone :
    let calls := rivals.take 1 ++ [.runOneIteration, .runOneIteration]
    (object.run calls tight).stats.resultCacheRequests = 1 ∧
      ((lookupsOf calls tight).map EngineRequest.requestId).Nodup :=
  ⟨by decide +kernel,
    (lookups_counted_once new_tight _ (by decide +kernel) (by decide +kernel)).2.1⟩

end ContinuousEngine
end InferSched.Engine

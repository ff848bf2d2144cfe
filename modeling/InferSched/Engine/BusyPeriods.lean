import InferSched.Engine.IdleRuns
import InferSched.Engine.MachineInvariant
import InferSched.Engine.ResultTimes

/-! # Busy periods

Between the calls that add to it, the clock of an engine moves in two ways: an iteration pays
for prefills and decode steps, which is busy time, and `RunUntilIdle` waits for the next
arrival. It waits only when there is nothing to do: every request that has arrived has its
result by then (`work_conserving`).
-/

namespace InferSched.Engine

open Library

/-- The next arrival is the first of the pending requests. -/
theorem RequestQueue.nextArrival_spec {η : Type} [RequestQueue η] {pending : η} {arrival : ℤ}
    (isNext : nextArrival pending = some arrival) :
    (∃ request ∈ PriorityQueue.elements pending, request.arrivalTime = arrival) ∧
      ∀ request ∈ PriorityQueue.elements pending, arrival ≤ request.arrivalTime := by
  obtain ⟨first, isFirst, rfl⟩ := Option.map_eq_some_iff.mp isNext
  obtain ⟨⟨first, queue⟩, popped, rfl⟩ := Option.map_eq_some_iff.mp isFirst
  refine ⟨⟨first, ?_, rfl⟩, fun request member => ?_⟩
  · rw [PriorityQueue.elements_of_pop_some popped]
    exact Multiset.mem_cons_self _ _
  · have foremost := PriorityQueue.foremost popped request member
    unfold arrivesBefore at foremost
    by_contra earlier
    rw [if_pos (by dsimp only at earlier; omega)] at foremost
    exact earlier (not_lt.mp (of_decide_eq_false foremost))

namespace Moment

variable {η : Type}

/-- What steps do to the clock and the results. -/
structure Worked (engine next : ContinuousEngine η) : Prop where
  clock : engine.clock ≤ next.clock
  paced : next.clock + engine.stats.simulatedBusyTime =
    engine.clock + next.stats.simulatedBusyTime
  results : ∃ later, next.results = engine.results ++ later ∧
    ∀ result ∈ later, engine.clock ≤ result.completedAt

theorem Worked.refl (engine : ContinuousEngine η) : Worked engine engine :=
  ⟨le_rfl, rfl, [], (List.append_nil _).symm, nofun⟩

theorem Worked.trans {first second third : ContinuousEngine η} (one : Worked first second)
    (two : Worked second third) : Worked first third := by
  have pace := one.paced
  have pace' := two.paced
  obtain ⟨earlier, appended, after⟩ := one.results
  obtain ⟨later, appended', after'⟩ := two.results
  refine ⟨one.clock.trans two.clock, by omega, earlier ++ later, ?_, ?_⟩
  · rw [appended', appended, List.append_assoc]
  · intro result member
    rcases List.mem_append.mp member with old | new
    · exact after result old
    · exact one.clock.trans (after' result new)

/-- The clock moves by what is paid. -/
theorem paced_of_pay {engine next : ContinuousEngine η} {cost : ℤ} (nonnegative : 0 ≤ cost)
    (clock : next.clock = advance engine.clock cost)
    (busy : next.stats.simulatedBusyTime = engine.stats.simulatedBusyTime + cost) :
    next.clock + engine.stats.simulatedBusyTime =
      engine.clock + next.stats.simulatedBusyTime := by
  have paid : advance engine.clock cost = engine.clock + cost := by
    unfold advance
    split <;> omega
  omega

variable [RequestQueue η]

theorem Step.paced {before after : Moment η} (step : Step before after)
    (sane : before.engine.costModel.Sane) :
    after.engine.clock + before.engine.stats.simulatedBusyTime =
      before.engine.clock + after.engine.stats.simulatedBusyTime := by
  cases step with
  | touch =>
      unfold ContinuousEngine.matchPrefix
      split
      · rfl
      · rfl
  | @admission engine scan candidate matched possible room forgiven budget longest allocated =>
      obtain ⟨tokens, _, clock, busy⟩ := ContinuousEngine.admitCandidate_time
        { engine with
          kvCache := (engine.kvCache.allocate candidate.requestId
            (engine.promptBlocks candidate) (matched.getD [])).2 } candidate matched
      exact paced_of_pay (sane.prefillCost tokens).1 clock busy
  | preempt member short scarce unpinned =>
      unfold ContinuousEngine.preempt
      split
      · rfl
      · rfl
  | @decode engine scan inhabited prepared =>
      exact paced_of_pay (sane.decodeStep engine.active.length).1 rfl rfl
  | _ => rfl

theorem Step.worked {before after : Moment η} (step : Step before after)
    (invariant : before.engine.Invariant before.preparing)
    (sane : before.engine.costModel.Sane) : Worked before.engine after.engine := by
  refine ⟨(step.later sane).1.clock, step.paced sane, ?_⟩
  rcases step.responds invariant with ⟨_, same⟩ | ⟨request, result, _, appended, response⟩
  · exact ⟨[], by rw [same, List.append_nil], nofun⟩
  · refine ⟨[result], appended, fun other member => ?_⟩
    rw [List.mem_singleton.mp member]
    cases response <;> exact le_rfl

theorem Steps.worked {before after : Moment η} (steps : Steps before after)
    (invariant : before.engine.Invariant before.preparing)
    (sane : before.engine.costModel.Sane) :
    Worked before.engine after.engine ∧ after.engine.costModel.Sane := by
  induction steps with
  | refl => exact ⟨.refl _, sane⟩
  | tail earlier step ih =>
      obtain ⟨worked, still⟩ := ih
      exact ⟨worked.trans (step.worked (Steps.invariant earlier invariant) still),
        (step.later still).2⟩

/-! ### Requests to come -/

/-- The pending requests that have not arrived are the submitted ones that have not arrived,
and the scan holds none of them. -/
structure Awaited (requests : List EngineRequest) (moment : Moment η) : Prop where
  coming : ∀ time, moment.engine.clock ≤ time →
    (PriorityQueue.elements moment.engine.pending).filter (fun request =>
      time < request.arrivalTime) =
      (requests.filter fun request => time < request.arrivalTime : List EngineRequest)
  arrived : ∀ request ∈ moment.scan.deferred, request.arrivalTime ≤ moment.engine.clock

variable {requests : List EngineRequest}

/-- Time passes, and the queue and the scan stay. -/
theorem Awaited.wait {before after : Moment η} (awaited : Awaited requests before)
    (clock : before.engine.clock ≤ after.engine.clock)
    (pending : after.engine.pending = before.engine.pending)
    (deferred : ∀ request ∈ after.scan.deferred, request ∈ before.scan.deferred) :
    Awaited requests after := by
  refine ⟨fun time reached => ?_, fun request member => ?_⟩
  · rw [pending]
    exact awaited.coming time (clock.trans reached)
  · exact (awaited.arrived request (deferred request member)).trans clock

theorem Step.awaited {before after : Moment η} (step : Step before after)
    (sane : before.engine.costModel.Sane) (awaited : Awaited requests before) :
    Awaited requests after := by
  have kept : ∀ {scan : Scan} {candidate : EngineRequest}, ∀ request ∈ scan.deferred,
      request ∈ (scan.defer candidate).deferred :=
    fun request member => List.mem_append_left _ member
  have later := (step.later sane).1.clock
  cases step with
  | @pop engine scan candidate queue room popped =>
      obtain ⟨found, ready⟩ := RequestQueue.popReady_eq_some popped
      refine ⟨fun time reached => ?_, fun request member => ?_⟩
      · have coming := awaited.coming time reached
        have absent : ¬ time < candidate.arrivalTime := not_lt.mpr (ready.trans reached)
        rw [PriorityQueue.elements_of_pop_some found, @Multiset.filter_cons_of_neg _
          (fun request : EngineRequest => time < request.arrivalTime) _ _ _ absent] at coming
        exact coming
      · rcases List.mem_append.mp member with old | new
        · exact awaited.arrived request old
        · rw [List.mem_singleton.mp new]
          exact ready
  | reject impossible => exact awaited.wait later rfl kept
  | answer possible found => exact awaited.wait later rfl kept
  | touch =>
      refine awaited.wait later ?_ (fun _ => id)
      unfold ContinuousEngine.matchPrefix
      split
      · rfl
      · rfl
  | @admission engine scan candidate matched possible room forgiven budget longest allocated =>
      refine awaited.wait later ?_ kept
      exact (ContinuousEngine.admitCandidate_frame
        { engine with
          kvCache := (engine.kvCache.allocate candidate.requestId
            (engine.promptBlocks candidate) (matched.getD [])).2 } candidate matched).2.1
  | requeue engine scan =>
      refine ⟨fun time reached => ?_, nofun⟩
      change Multiset.filter _ (PriorityQueue.elements (PriorityQueue.pushAll _ _)) = _
      have none : Multiset.filter (fun request : EngineRequest => time < request.arrivalTime)
          (scan.deferred : Multiset EngineRequest) = 0 := by
        refine Multiset.filter_eq_nil.mpr fun request member => ?_
        exact not_lt.mpr ((awaited.arrived request (Multiset.mem_coe.mp member)).trans reached)
      rw [PriorityQueue.elements_pushAll, Multiset.filter_add, none, add_zero]
      exact awaited.coming time reached
  | preempt member short scarce unpinned =>
      unfold ContinuousEngine.preempt at later ⊢
      split
      · exact awaited
      · next victim found =>
          refine ⟨fun time reached => ?_, awaited.arrived⟩
          dsimp only
          rw [PriorityQueue.elements_push, @Multiset.filter_cons_of_neg _
            (fun request : EngineRequest => time < request.arrivalTime) _ _ _
            (not_lt.mpr reached)]
          exact awaited.coming time reached
  | close nothing => exact awaited.wait later rfl nofun
  | forgive empty => exact awaited.wait later rfl (fun _ => id)
  | _ => exact awaited.wait later rfl (fun _ => id)

theorem Steps.awaited {before after : Moment η} (steps : Steps before after)
    (invariant : before.engine.Invariant before.preparing)
    (sane : before.engine.costModel.Sane) (awaited : Awaited requests before) :
    Awaited requests after := by
  induction steps with
  | refl => exact awaited
  | tail earlier step ih => exact step.awaited (Steps.worked earlier invariant sane).2 ih

end Moment

namespace ContinuousEngine

open Moment

variable {η : Type} {requests : List EngineRequest} {engine next last : ContinuousEngine η}

/-! ### Gaps -/

/-- A time in which an engine has nothing to do: no request arrives in it until one does at
its end, and those that arrived before have their results. -/
structure Gap (requests : List EngineRequest) (results : List EngineResult) (since resumed : ℤ) :
    Prop where
  passes : since < resumed
  absent : ∀ request ∈ requests, request.arrivalTime ≤ since ∨ resumed ≤ request.arrivalTime
  ends : ∃ request ∈ requests, request.arrivalTime = resumed
  answered : ((requests.filter fun request => request.arrivalTime ≤ since).map
    EngineRequest.requestId).Perm
      ((results.filter fun result => result.completedAt ≤ since).map EngineResult.requestId)

/-- Results that come after a gap do not count for it. -/
theorem Gap.later {results more : List EngineResult} {since resumed : ℤ}
    (gap : Gap requests results since resumed)
    (after : ∀ result ∈ more, since < result.completedAt) :
    Gap requests (results ++ more) since resumed := by
  refine { gap with answered := ?_ }
  have none : more.filter (fun result => result.completedAt ≤ since) = [] := by
    refine List.filter_eq_nil_iff.mpr fun result member => ?_
    simpa using after result member
  rw [List.filter_append, none, List.append_nil]
  exact gap.answered

/-- From one state of an engine to a later one, with the gaps in between. -/
structure Idled (requests : List EngineRequest) (engine next : ContinuousEngine η)
    (gaps : List (ℤ × ℤ)) : Prop where
  clock : engine.clock ≤ next.clock
  time : next.clock + engine.stats.simulatedBusyTime =
    engine.clock + next.stats.simulatedBusyTime + (gaps.map fun gap => gap.2 - gap.1).sum
  results : ∃ later, next.results = engine.results ++ later ∧
    ∀ result ∈ later, engine.clock ≤ result.completedAt
  ordered : gaps.Pairwise fun first second => first.2 ≤ second.1
  within : ∀ gap ∈ gaps, engine.clock ≤ gap.1 ∧ gap.2 ≤ next.clock
  gaps : ∀ gap ∈ gaps, Gap requests next.results gap.1 gap.2

theorem Idled.of_worked (worked : Worked engine next) : Idled requests engine next [] := by
  refine ⟨worked.clock, ?_, worked.results, .nil, nofun, nofun⟩
  rw [List.map_nil, List.sum_nil, worked.paced, add_zero]

theorem Idled.trans {earlier later : List (ℤ × ℤ)} (one : Idled requests engine next earlier)
    (two : Idled requests next last later) : Idled requests engine last (earlier ++ later) := by
  obtain ⟨fresh, appended, after⟩ := one.results
  obtain ⟨fresh', appended', after'⟩ := two.results
  have time := one.time
  have time' := two.time
  refine ⟨one.clock.trans two.clock, ?_, ⟨fresh ++ fresh', ?_, ?_⟩, ?_, ?_, ?_⟩
  · rw [List.map_append, List.sum_append]
    omega
  · rw [appended', appended, List.append_assoc]
  · intro result member
    rcases List.mem_append.mp member with old | new
    · exact after result old
    · exact one.clock.trans (after' result new)
  · refine List.pairwise_append.mpr ⟨one.ordered, two.ordered, ?_⟩
    intro first isFirst second isSecond
    exact (one.within first isFirst).2.trans (two.within second isSecond).1
  · intro gap member
    rcases List.mem_append.mp member with old | new
    · exact ⟨(one.within gap old).1, (one.within gap old).2.trans two.clock⟩
    · exact ⟨one.clock.trans (two.within gap new).1, (two.within gap new).2⟩
  · intro gap member
    rcases List.mem_append.mp member with old | new
    · have before := one.gaps gap old
      rw [appended']
      refine before.later fun result isNew => ?_
      exact before.passes.trans_le ((one.within gap old).2.trans (after' result isNew))
    · exact two.gaps gap new

/-- Disjoint gaps within some time add up to no more than it. -/
theorem sum_gaps_le {since upTo : ℤ} {gaps : List (ℤ × ℤ)}
    (ordered : gaps.Pairwise fun first second => first.2 ≤ second.1)
    (within : ∀ gap ∈ gaps, since ≤ gap.1 ∧ gap.2 ≤ upTo) (passes : since ≤ upTo) :
    (gaps.map fun gap => gap.2 - gap.1).sum ≤ upTo - since := by
  induction gaps generalizing since with
  | nil =>
      rw [List.map_nil, List.sum_nil]
      omega
  | cons gap later ih =>
      obtain ⟨after, ordered⟩ := List.pairwise_cons.mp ordered
      obtain ⟨begins, ends⟩ := within gap List.mem_cons_self
      have rest := ih ordered (fun other member =>
        ⟨after other member, (within other (List.mem_cons_of_mem _ member)).2⟩) ends
      rw [List.map_cons, List.sum_cons]
      omega

variable [RequestQueue η] {draws : JitterDraws} {config : EngineConfig}
  {start : ContinuousEngine η}

theorem awaited_submit {engine : ContinuousEngine η}
    (awaited : Awaited requests (rest engine)) (request : EngineRequest) :
    Awaited (requests ++ [request]) (rest (engine.submit request)) := by
  refine ⟨fun time reached => ?_, nofun⟩
  change Multiset.filter _ (PriorityQueue.elements (PriorityQueue.push _ _)) = _
  have coming := awaited.coming time reached
  unfold rest at coming
  rw [PriorityQueue.elements_push, Multiset.filter_cons, coming, List.filter_append,
    ← Multiset.coe_add, add_comm]
  congr 1
  by_cases future : time < request.arrivalTime <;> simp [future]

/-- The cost model stays as accepted, and every request to come is awaited. -/
theorem run_awaited (accepted : new draws config = .ok start) (within : draws.Within)
    (calls : List Call) : (object.run calls start).costModel.Sane ∧
      Awaited (submitted calls) (rest (object.run calls start)) := by
  induction calls using List.reverseRecOn with
  | nil =>
      obtain ⟨model, _⟩ := new_parts accepted
      obtain ⟨_, _, _, _, _, pending, _⟩ := new_eq_ok accepted
      refine ⟨CostModel.Sane.new within model, fun time _ => ?_, nofun⟩
      change Multiset.filter _ (PriorityQueue.elements start.pending) = _
      rw [pending, PriorityQueue.elements_empty]
      rfl
  | append_singleton calls call ih =>
      obtain ⟨sane, awaited⟩ := ih
      have invariant := (run_invariant accepted calls).1
      rw [AtomicObject.run_append, submitted, List.filterMap_append, ← submitted]
      cases call with
      | submit request => exact ⟨sane, awaited_submit awaited request⟩
      | runOneIteration =>
          rw [List.filterMap_cons_none rfl, List.filterMap_nil, List.append_nil]
          have steps := runOneIteration_steps invariant
          exact ⟨(steps.worked invariant sane).2, steps.awaited invariant sane awaited⟩
      | awaitArrival arrival =>
          rw [List.filterMap_cons_none rfl, List.filterMap_nil, List.append_nil]
          exact ⟨sane, awaited.wait (le_advance _ _) rfl (fun _ => id)⟩
      | clearCaches =>
          rw [List.filterMap_cons_none rfl, List.filterMap_nil, List.append_nil]
          exact ⟨sane, awaited.wait le_rfl rfl (fun _ => id)⟩

/-- Between two calls with an empty batch, the ids in the queue and in the results are those
that were submitted. -/
theorem run_ids (accepted : new draws config = .ok start) (calls : List Call)
    (empty : (object.run calls start).active = []) :
    (PriorityQueue.elements (object.run calls start).pending).map EngineRequest.requestId +
      ((object.run calls start).results.map EngineResult.requestId : List Text) =
        ((submitted calls).map EngineRequest.requestId : List Text) := by
  have ids := congrArg (Multiset.map Prod.fst) (run_outcomes accepted calls)
  unfold Moment.outcomes Moment.unanswered Moment.rest at ids
  rw [empty] at ids
  simpa [Function.comp_def, Moment.expected, Moment.outcome, EngineRequest.ticket] using ids

/-- While an engine has nothing to do but to wait for an arrival, there is a gap. -/
theorem gap_of_waiting (accepted : new draws config = .ok start) (within : draws.Within)
    {calls : List Call} (empty : (object.run calls start).active = []) {arrival : ℤ}
    (isNext : RequestQueue.nextArrival (object.run calls start).pending = some arrival)
    (future : (object.run calls start).clock < arrival) :
    Gap (submitted calls) (object.run calls start).results (object.run calls start).clock
      arrival := by
  have awaited : (PriorityQueue.elements (object.run calls start).pending).filter
      (fun request => (object.run calls start).clock < request.arrivalTime) =
      ((submitted calls).filter fun request =>
        (object.run calls start).clock < request.arrivalTime : List EngineRequest) :=
    (run_awaited accepted within calls).2.coming _ le_rfl
  have timed := run_timed accepted calls
  have ids := run_ids accepted calls empty
  generalize object.run calls start = engine at *
  obtain ⟨⟨first, isPending, isFirst⟩, least⟩ := RequestQueue.nextArrival_spec isNext
  have waiting : ∀ request ∈ PriorityQueue.elements engine.pending,
      engine.clock < request.arrivalTime :=
    fun request member => future.trans_le (least request member)
  rw [Multiset.filter_eq_self.mpr waiting] at awaited
  have coming : ∀ request, request ∈ PriorityQueue.elements engine.pending ↔
      request ∈ submitted calls ∧ engine.clock < request.arrivalTime := by
    intro request
    rw [awaited, Multiset.mem_coe, List.mem_filter, decide_eq_true_eq]
  refine ⟨future, ?_, ⟨first, ((coming first).mp isPending).1, isFirst⟩, ?_⟩
  · intro request member
    by_contra inside
    simp only [not_or, not_le] at inside
    exact absurd (least request ((coming request).mpr ⟨member, inside.1⟩)) (not_le.mpr inside.2)
  · have past : engine.results.filter (fun result => result.completedAt ≤ engine.clock) =
        engine.results :=
      List.filter_eq_self.mpr fun result member => decide_eq_true (timed.past result member)
    rw [past, ← Multiset.coe_eq_coe]
    -- the pending requests are those that arrive later, and the ids balance
    have later : (submitted calls).filter (fun request =>
        !decide (request.arrivalTime ≤ engine.clock)) =
        (submitted calls).filter fun request => engine.clock < request.arrivalTime := by
      refine List.filter_congr fun request _ => ?_
      exact decide_not.symm.trans (decide_eq_decide.mpr not_le)
    have split := (List.filter_append_perm (fun request : EngineRequest =>
      decide (request.arrivalTime ≤ engine.clock)) (submitted calls)).map EngineRequest.requestId
    rw [later, List.map_append] at split
    rw [awaited, ← Multiset.coe_eq_coe.mpr split, ← Multiset.coe_add, Multiset.map_coe,
      add_comm] at ids
    exact (add_right_cancel ids).symm

/-- The wait for an arrival is a gap, unless the request has arrived by now. -/
theorem idled_awaitArrival (accepted : new draws config = .ok start) (within : draws.Within)
    {calls : List Call} (empty : (object.run calls start).active = []) {arrival : ℤ}
    (isNext : RequestQueue.nextArrival (object.run calls start).pending = some arrival) :
    ∃ gaps, Idled (submitted calls) (object.run calls start)
      ((object.run calls start).awaitArrival arrival) gaps := by
  by_cases future : (object.run calls start).clock < arrival
  · have gap := gap_of_waiting accepted within empty isNext future
    generalize object.run calls start = engine at *
    have reached : (engine.awaitArrival arrival).clock = arrival := by
      unfold awaitArrival advance
      dsimp only
      rw [if_pos (by omega)]
      omega
    refine ⟨[(engine.clock, arrival)], ?_, ?_, ⟨[], (List.append_nil _).symm, nofun⟩,
      List.pairwise_singleton _ _, ?_, ?_⟩
    · rw [reached]
      exact future.le
    · rw [reached, List.map_singleton, List.sum_singleton]
      change arrival + engine.stats.simulatedBusyTime =
        engine.clock + engine.stats.simulatedBusyTime + (arrival - engine.clock)
      omega
    · rintro other member
      cases List.mem_singleton.mp member
      exact ⟨le_rfl, reached.ge⟩
    · rintro other member
      cases List.mem_singleton.mp member
      exact gap
  · generalize object.run calls start = engine at *
    have still : (engine.awaitArrival arrival).clock = engine.clock := by
      unfold awaitArrival advance
      dsimp only
      rw [if_neg (by omega)]
    refine ⟨[], .of_worked ⟨still.ge, ?_, [], (List.append_nil _).symm, nofun⟩⟩
    rw [still]
    rfl

/-- The rounds of `RunUntilIdle`, with the gaps between their iterations. -/
theorem idled_rounds (accepted : new draws config = .ok start) (within : draws.Within)
    {rounds : ℕ} {calls : List Call} {final : ContinuousEngine η}
    (ran : runUntilIdle rounds (object.run calls start) = some final) :
    ∃ gaps, Idled (submitted calls) (object.run calls start) final gaps := by
  induction rounds generalizing calls with
  | zero => cases ran
  | succ rounds ih =>
      have invariant := (run_invariant accepted calls).1
      have sane := (run_awaited accepted within calls).1
      have worked := ((runOneIteration_steps invariant).worked invariant sane).1
      have iteration : Idled (submitted calls) (object.run calls start)
          (object.run calls start).runOneIteration.2 [] := .of_worked worked
      unfold runUntilIdle at ran
      split at ran
      · cases ran
        exact ⟨[], .of_worked (.refl _)⟩
      · dsimp only at ran
        have run : object.run (calls ++ [.runOneIteration]) start =
            (object.run calls start).runOneIteration.2 := object.run_append _ _ _
        have same : submitted (calls ++ [.runOneIteration]) = submitted calls := by
          simp [submitted]
        split at ran
        · rw [← run] at ran
          obtain ⟨gaps, later⟩ := ih ran
          rw [run, same] at later
          exact ⟨gaps, iteration.trans later⟩
        · next still =>
            split at ran
            · next arrival isNext =>
                have empty := invariant.active_of_idle (Bool.eq_false_iff.mpr still)
                rw [← run] at empty isNext ran
                obtain ⟨waited, gap⟩ := idled_awaitArrival accepted within empty isNext
                have next : object.run (calls ++ [.runOneIteration, .awaitArrival arrival]) start =
                    (object.run (calls ++ [.runOneIteration]) start).awaitArrival arrival := by
                  rw [run]
                  exact object.run_append _ _ _
                rw [← next] at ran gap
                obtain ⟨gaps, later⟩ := ih ran
                have submits : submitted (calls ++ [.runOneIteration, .awaitArrival arrival]) =
                    submitted calls := by
                  simp [submitted]
                rw [submits] at later
                rw [same, run] at gap
                exact ⟨_, (iteration.trans gap).trans later⟩
            · cases ran
              exact ⟨[], iteration⟩

/-- **Work conservation.** Whatever was called before, the time that `RunUntilIdle` takes is
busy time but for disjoint gaps. Each gap ends with the arrival of a request; none arrives in
it, and the ids of the requests that arrived before are those of the results completed by
then. So after the last arrival only busy time passes. -/
theorem work_conserving (accepted : new draws config = .ok start) (within : draws.Within)
    (calls : List Call) {rounds : ℕ} {final : ContinuousEngine η}
    (ran : runUntilIdle rounds (object.run calls start) = some final) :
    let engine := object.run calls start
    ∃ gaps : List (ℤ × ℤ),
      final.clock - engine.clock =
        final.stats.simulatedBusyTime - engine.stats.simulatedBusyTime +
          (gaps.map fun gap => gap.2 - gap.1).sum ∧
      gaps.Pairwise (fun first second => first.2 ≤ second.1) ∧
      (∀ gap ∈ gaps, engine.clock ≤ gap.1 ∧ gap.2 ≤ final.clock ∧
        Gap (submitted calls) final.results gap.1 gap.2) ∧
      ∀ last, engine.clock ≤ last →
        (∀ request ∈ submitted calls, request.arrivalTime ≤ last) →
        final.clock - last ≤
          final.stats.simulatedBusyTime - engine.stats.simulatedBusyTime := by
  intro engine
  obtain ⟨gaps, idled⟩ : ∃ gaps, Idled (submitted calls) engine final gaps :=
    idled_rounds accepted within ran
  have time := idled.time
  refine ⟨gaps, by omega, idled.ordered, fun gap member => ?_, fun last reached arrived => ?_⟩
  · exact ⟨(idled.within gap member).1, (idled.within gap member).2, idled.gaps gap member⟩
  · have total : (gaps.map fun gap => gap.2 - gap.1).sum ≤ last - engine.clock := by
      refine sum_gaps_le idled.ordered (fun gap member => ?_) reached
      obtain ⟨request, isRequest, ends⟩ := (idled.gaps gap member).ends
      exact ⟨(idled.within gap member).1, ends ▸ arrived request isRequest⟩
    omega

/-- Two requests with a pause between them. -/
def paused : List Call :=
  [.submit { requestId := ['a'], promptTokens := 2, maxOutputTokens := 2 },
    .submit { requestId := ['b'], promptTokens := 2, maxOutputTokens := 2,
              arrivalTime := 10 ^ 9 }]

def spacious : ContinuousEngine (SelectionQueue EngineRequest) :=
  (ContinuousEngine.new (fun _ _ _ => 0) { kvBlocks := 4 }).toOption.get rfl

theorem paused_ends : (runUntilIdle 20 (object.run paused spacious)).isSome = true := by
  decide +kernel

/-- The engine waits for the second request once the first is answered. -/
theorem work_conserving_paused :
    ∃ (final : ContinuousEngine (SelectionQueue EngineRequest)) (gaps : List (ℤ × ℤ)),
      runUntilIdle 20 (object.run paused spacious) = some final ∧ gaps ≠ [] ∧
      ∀ gap ∈ gaps, Gap (submitted paused) final.results gap.1 gap.2 := by
  have accepted : new (fun _ _ _ => 0) { kvBlocks := 4 } = .ok spacious := rfl
  obtain ⟨gaps, time, _, within, _⟩ := work_conserving accepted
    (fun _ magnitude _ => by simp) paused (Option.some_get paused_ends).symm
  refine ⟨_, gaps, (Option.some_get paused_ends).symm, ?_,
    fun gap member => (within gap member).2.2⟩
  rintro rfl
  revert time
  decide +kernel

end ContinuousEngine

end InferSched.Engine

import InferSched.Engine.Peaks

/-! # Preemption

A sequence that gives up its blocks goes back to the queue and is remembered in
`preempted_requests_`. As long as the batch is not empty, `AdmitReady` puts a remembered
request aside before it asks the result cache, so the request waits; the memory is cleared
when an iteration finds the batch empty. From this no request can be preempted twice while
the batch stays inhabited, and the preemptions of such a time are bounded by the requests
that wait at its end.
-/

namespace InferSched.Engine

open Library

namespace ContinuousEngine

open Moment

variable {η : Type} [RequestQueue η]

/-- Every remembered request is out of the batch, and waits in the queue or in the hands of
a scan, from where it can run. -/
structure Held (engine : ContinuousEngine η) (deferred : List EngineRequest) : Prop where
  apart : ∀ id ∈ engine.preemptedRequests, id ∉ engine.activeIds
  waits : ∀ id ∈ engine.preemptedRequests, ∃ request,
    (request ∈ PriorityQueue.elements engine.pending ∨ request ∈ deferred) ∧
      request.requestId = id ∧ engine.impossibleReason request = none

omit [RequestQueue η] in
/-- The memory and the count of preemptions are the same. -/
structure SameMemory (engine next : ContinuousEngine η) : Prop where
  preempted : next.preemptedRequests = engine.preemptedRequests
  count : next.stats.preemptions = engine.stats.preemptions

omit [RequestQueue η] in
/-- Every preemption has been of a request that was not remembered yet. -/
structure Remembers (engine next : ContinuousEngine η) : Prop where
  kept : engine.preemptedRequests ⊆ next.preemptedRequests
  counted : next.stats.preemptions + engine.preemptedRequests.card =
    engine.stats.preemptions + next.preemptedRequests.card

variable {engine next last : ContinuousEngine η} {candidate : EngineRequest}
  {deferred : List EngineRequest}

omit [RequestQueue η] in
theorem SameMemory.trans (one : engine.SameMemory next) (two : next.SameMemory last) :
    engine.SameMemory last :=
  ⟨two.preempted.trans one.preempted, two.count.trans one.count⟩

omit [RequestQueue η] in
theorem SameMemory.remembers (same : engine.SameMemory next) : engine.Remembers next := by
  constructor
  · rw [same.preempted]
  · rw [same.preempted, same.count]

omit [RequestQueue η] in
theorem Remembers.trans (one : engine.Remembers next) (two : next.Remembers last) :
    engine.Remembers last := by
  have counted := one.counted
  have counted' := two.counted
  exact ⟨one.kept.trans two.kept, by omega⟩

/-! ### The scan -/

/-- Nothing that the memory is about has changed. -/
theorem Held.frame (held : engine.Held deferred) (same : engine.SameMemory next)
    (queue : next.pending = engine.pending) (ids : next.activeIds ⊆ engine.activeIds)
    (reasons : ∀ request, next.impossibleReason request = engine.impossibleReason request) :
    next.Held deferred := by
  constructor
  · intro id remembered member
    exact held.apart id (same.preempted ▸ remembered) (ids member)
  · intro id remembered
    obtain ⟨request, there, isId, possible⟩ := held.waits id (same.preempted ▸ remembered)
    refine ⟨request, ?_, isId, (reasons request).trans possible⟩
    rw [queue]
    exact there

/-- A candidate that is not remembered, or cannot run, is let go. -/
theorem Held.drop (held : engine.Held (candidate :: deferred))
    (other : candidate.requestId ∉ engine.preemptedRequests ∨
      engine.impossibleReason candidate ≠ none) : engine.Held deferred := by
  refine ⟨held.apart, fun id remembered => ?_⟩
  obtain ⟨request, there, isId, possible⟩ := held.waits id remembered
  refine ⟨request, there.imp_right fun member => ?_, isId, possible⟩
  rcases List.mem_cons.mp member with rfl | later
  · rcases other with forgotten | impossible
    · exact absurd (isId ▸ remembered) forgotten
    · exact absurd possible impossible
  · exact later

/-- A candidate is put aside. -/
theorem Held.defer {scan : Scan} (held : engine.Held (candidate :: scan.deferred)) :
    engine.Held (scan.defer candidate).deferred := by
  refine ⟨held.apart, fun id remembered => ?_⟩
  obtain ⟨request, there, isId, possible⟩ := held.waits id remembered
  refine ⟨request, there.imp_right fun member => ?_, isId, possible⟩
  have isDeferred : request ∈ scan.deferred ++ [candidate] :=
    List.mem_append.mpr ((List.mem_cons.mp member).symm.imp_right List.mem_singleton.mpr)
  exact isDeferred

/-- A candidate leaves the queue. -/
theorem Held.pop {rest : η} (held : engine.Held deferred)
    (popped : PriorityQueue.pop engine.pending = some (candidate, rest)) :
    Held { engine with pending := rest } (candidate :: deferred) := by
  refine ⟨held.apart, fun id remembered => ?_⟩
  obtain ⟨request, there, isId, possible⟩ := held.waits id remembered
  refine ⟨request, ?_, isId, possible⟩
  rcases there with queued | aside
  · rw [PriorityQueue.elements_of_pop_some popped] at queued
    rcases Multiset.mem_cons.mp queued with rfl | later
    · exact Or.inr List.mem_cons_self
    · exact Or.inl later
  · exact Or.inr (List.mem_cons_of_mem _ aside)

omit [RequestQueue η] in
/-- A candidate that the cache has no answer for is put aside or joins the batch. -/
theorem tryAdmit_memory (engine : ContinuousEngine η) (candidate : EngineRequest) (scan : Scan) :
    engine.SameMemory (engine.tryAdmit candidate scan).1 ∧
      (engine.tryAdmit candidate scan).1.pending = engine.pending ∧
      ((engine.tryAdmit candidate scan).1.active = engine.active ∧
          (engine.tryAdmit candidate scan).2.deferred = (scan.defer candidate).deferred ∨
        (engine.tryAdmit candidate scan).1.activeIds = engine.activeIds ++ [candidate.requestId] ∧
          (engine.tryAdmit candidate scan).2.deferred = scan.deferred) := by
  obtain ⟨_, found⟩ := engine.matchPrefix_eq candidate
  obtain ⟨_, _, allocated⟩ := (engine.matchPrefix candidate).2.allocateEvicting_eq candidate
    (engine.matchPrefix candidate).1 ((engine.matchPrefix candidate).2.prefixCache.nodeCount + 1)
  unfold tryAdmit
  dsimp only
  split
  · rw [allocated, found]
    exact ⟨⟨rfl, rfl⟩, rfl, Or.inl ⟨rfl, rfl⟩⟩
  · generalize allocateEvicting candidate _ _ _ = outcome at allocated ⊢
    obtain ⟨_, pending, _, preempted, active⟩ :=
      admitCandidate_frame outcome.2.2 candidate outcome.2.1
    obtain ⟨_, _, _, stats⟩ := admitCandidate_stats_eq outcome.2.2 candidate outcome.2.1
    refine ⟨⟨?_, ?_⟩, ?_, Or.inr ⟨?_, rfl⟩⟩
    · rw [preempted, allocated, found]
    · rw [stats, allocated, found]
    · rw [pending, allocated, found]
    · unfold activeIds
      rw [active, List.map_append, allocated, found]
      rfl

/-- A turn of the scan leaves the memory alone, and what it remembers waits on. -/
theorem considerCandidate_held {scan : Scan} (held : engine.Held (candidate :: scan.deferred))
    (cleared : engine.active = [] → engine.preemptedRequests = ∅)
    (reasons : ∀ request, (engine.considerCandidate candidate scan).2.1.impossibleReason request =
      engine.impossibleReason request) :
    engine.SameMemory (engine.considerCandidate candidate scan).2.1 ∧
      (engine.considerCandidate candidate scan).2.1.Held
        (engine.considerCandidate candidate scan).2.2.deferred ∧
      ((engine.considerCandidate candidate scan).2.1.active = [] → engine.active = []) := by
  by_cases passes : engine.Examines candidate scan
  · have forgotten : candidate.requestId ∉ engine.preemptedRequests := by
      intro remembered
      refine passes.2.1 ⟨fun empty => ?_, remembered⟩
      rw [cleared empty] at remembered
      exact absurd remembered (Finset.notMem_empty _)
    rcases considerCandidate_examined passes with ⟨cached, _, turn⟩ | ⟨_, turn⟩
    · rw [turn] at reasons ⊢
      have same : engine.SameMemory ((engine.lookupResult candidate).2.answerCached candidate
        cached) := ⟨rfl, rfl⟩
      exact ⟨same, (held.drop (Or.inl forgotten)).frame same rfl (fun _ member => member) reasons,
        id⟩
    · rw [turn] at reasons ⊢
      have asked : engine.SameMemory (engine.lookupResult candidate).2 := ⟨rfl, rfl⟩
      obtain ⟨same, queue, outcome⟩ :=
        (engine.lookupResult candidate).2.tryAdmit_memory candidate scan
      have whole := asked.trans same
      rcases outcome with ⟨active, aside⟩ | ⟨active, aside⟩
      · dsimp only
        rw [aside]
        refine ⟨whole, held.defer.frame whole queue ?_ reasons, ?_⟩
        · unfold activeIds
          rw [active]
          exact fun _ member => member
        · rw [active]
          exact id
      · dsimp only
        rw [aside]
        have rest := held.drop (Or.inl forgotten)
        refine ⟨whole, ⟨?_, ?_⟩, ?_⟩
        · intro id remembered member
          rw [whole.preempted] at remembered
          rw [active] at member
          rcases List.mem_append.mp member with old | new
          · exact rest.apart id remembered old
          · exact forgotten (List.mem_singleton.mp new ▸ remembered)
        · intro id remembered
          rw [whole.preempted] at remembered
          obtain ⟨request, there, isId, possible⟩ := rest.waits id remembered
          refine ⟨request, ?_, isId, (reasons request).trans possible⟩
          rw [queue]
          exact there
        · intro empty
          rw [activeIds, empty] at active
          exact absurd active.symm (List.append_ne_nil_of_right_ne_nil _ (List.cons_ne_nil _ _))
  · rcases considerCandidate_unexamined passes with ⟨reason, impossible, turn⟩ | ⟨goes, turn⟩
    · rw [turn] at reasons ⊢
      have same : engine.SameMemory (engine.reject candidate reason) := ⟨rfl, rfl⟩
      refine ⟨same, (held.drop (Or.inr ?_)).frame same rfl (fun _ member => member) reasons, id⟩
      rw [impossible]
      exact Option.some_ne_none _
    · rw [turn]
      exact ⟨⟨rfl, rfl⟩, held.defer, id⟩

theorem scanPending_held (remaining : ℕ) {scan : Scan} (invariant : engine.Invariant false)
    (held : engine.Held scan.deferred)
    (cleared : engine.active = [] → engine.preemptedRequests = ∅) :
    engine.SameMemory (scanPending remaining engine scan).1 ∧
      (scanPending remaining engine scan).1.Held
        (scanPending remaining engine scan).2.deferred := by
  induction remaining generalizing engine scan with
  | zero => exact ⟨⟨rfl, rfl⟩, held⟩
  | succ remaining ih =>
      unfold scanPending
      split
      · next room =>
          split
          · exact ⟨⟨rfl, rfl⟩, held⟩
          · next candidate queue popped =>
              have queued : Invariant { engine with pending := queue } false :=
                invariant.congr rfl rfl rfl rfl
              have steps := considerCandidate_steps candidate scan queued room
              have fixed := steps.fixed queued
              obtain ⟨same, after, still⟩ :=
                considerCandidate_held (held.pop (RequestQueue.popReady_eq_some popped).1) cleared
                  (impossibleReason_congr fixed.1 fixed.2)
              have popping : engine.SameMemory { engine with pending := queue } := ⟨rfl, rfl⟩
              dsimp only
              split
              · obtain ⟨rest, scanned⟩ := ih (steps.invariant queued) after fun empty =>
                  same.preempted.trans (cleared (still empty))
                exact ⟨popping.trans (same.trans rest), scanned⟩
              · exact ⟨popping.trans same, after⟩
      · exact ⟨⟨rfl, rfl⟩, held⟩

theorem admitReady_held (invariant : engine.Invariant false) (held : engine.Held [])
    (cleared : engine.active = [] → engine.preemptedRequests = ∅) :
    engine.SameMemory engine.admitReady.2 ∧ engine.admitReady.2.Held [] := by
  obtain ⟨same, scanned⟩ :=
    @scanPending_held _ _ engine (PriorityQueue.size engine.pending) {} invariant held cleared
  refine ⟨⟨same.preempted, same.count⟩, scanned.apart, fun id remembered => ?_⟩
  obtain ⟨request, there, isId, possible⟩ := scanned.waits id remembered
  refine ⟨request, Or.inl ?_, isId, possible⟩
  unfold admitReady requeue
  dsimp only
  rw [PriorityQueue.elements_pushAll]
  exact Multiset.mem_add.mpr there

/-! ### Completion and preemption -/

omit [RequestQueue η] in
theorem completeFrom_memory (later : List ActiveRequest) {kept : List ActiveRequest}
    {engine : ContinuousEngine η} (split : engine.active = kept ++ later) :
    engine.SameMemory (completeFrom kept later engine) ∧
      (completeFrom kept later engine).pending = engine.pending ∧
      (completeFrom kept later engine).activeIds ⊆ engine.activeIds := by
  induction later generalizing engine kept with
  | nil => exact ⟨⟨rfl, rfl⟩, rfl, fun _ member => member⟩
  | cons active later ih =>
      unfold completeFrom
      split
      · apply ih
        rw [split, List.append_assoc, List.singleton_append]
      · obtain ⟨same, queue, ids⟩ :=
          @ih kept { engine.finish active with active := kept ++ later } rfl
        refine ⟨⟨same.preempted, same.count⟩, queue, fun id member => ?_⟩
        have before : id ∈ (kept ++ later).map fun active => active.request.requestId := ids member
        unfold activeIds
        rw [split]
        exact List.map_subset _ ((List.sublist_cons_self active later).append_left kept).subset
          before

theorem completeFinished_held {scan : Scan} (valid : engine.Invariant false)
    (held : engine.Held []) :
    engine.SameMemory engine.completeFinished ∧ engine.completeFinished.Held [] := by
  obtain ⟨same, queue, ids⟩ := completeFrom_memory engine.active (List.nil_append _).symm
  have fixed := (completeFinished_steps engine scan).1.fixed valid
  exact ⟨same, held.frame same queue ids (impossibleReason_congr fixed.1 fixed.2)⟩

/-- The victim was not remembered, is now, and waits. -/
theorem preempt_held (invariant : engine.Invariant true) (held : engine.Held [])
    (inhabited : engine.active ≠ [])
    (reasons : ∀ request, (engine.preempt engine.selectVictim).impossibleReason request =
      engine.impossibleReason request) :
    engine.Remembers (engine.preempt engine.selectVictim) ∧
      (engine.preempt engine.selectVictim).Held [] := by
  have inside := selectVictim_lt inhabited
  obtain ⟨victim, found⟩ : ∃ victim, engine.active[engine.selectVictim]? = some victim :=
    ⟨_, List.getElem?_eq_getElem inside⟩
  have member : victim ∈ engine.active := List.mem_of_getElem? found
  have isActive : victim.request.requestId ∈ engine.activeIds := List.mem_map_of_mem member
  have unknown : victim.request.requestId ∉ engine.preemptedRequests := fun remembered =>
    held.apart _ remembered isActive
  unfold preempt at reasons ⊢
  rw [found] at reasons ⊢
  refine ⟨⟨Finset.subset_insert _ _, ?_⟩, ?_, ?_⟩
  · dsimp only
    rw [Finset.card_insert_of_notMem unknown]
    omega
  · intro id remembered isLeft
    have left : id ∈ engine.activeIds.eraseIdx engine.selectVictim := by
      rw [activeIds, List.eraseIdx_map]
      exact isLeft
    rcases Finset.mem_insert.mp remembered with rfl | before
    · have here : engine.activeIds[engine.selectVictim]? = some victim.request.requestId := by
        rw [activeIds, List.getElem?_map, found]
        rfl
      obtain ⟨index, differs, again⟩ := List.mem_eraseIdx_iff_getElem?.mp left
      have bound : index < engine.activeIds.length := by
        by_contra outside
        rw [List.getElem?_eq_none (Nat.le_of_not_lt outside)] at again
        cases again
      exact differs ((List.getElem?_inj bound invariant.distinct).mp (again.trans here.symm))
    · exact held.apart id before (List.mem_of_mem_eraseIdx left)
  · intro id remembered
    rcases Finset.mem_insert.mp remembered with rfl | before
    · refine ⟨{ victim.request with arrivalTime := engine.clock }, Or.inl ?_, rfl, ?_⟩
      · dsimp only
        rw [PriorityQueue.elements_push]
        exact Multiset.mem_cons_self _ _
      · exact (reasons _).trans (invariant.possible victim member)
    · obtain ⟨request, there, isId, possible⟩ := held.waits id before
      refine ⟨request, Or.inl ?_, isId, (reasons request).trans possible⟩
      dsimp only
      rw [PriorityQueue.elements_push]
      exact Multiset.mem_cons_of_mem (there.resolve_right List.not_mem_nil)

/-- The passes preempt only what they did not remember. -/
theorem preparePasses_held (scan : Scan) (turns : ℕ) (invariant : engine.Invariant true)
    (held : engine.Held []) (inhabited : engine.active ≠ []) :
    engine.Remembers (preparePasses turns engine) ∧ (preparePasses turns engine).Held [] := by
  induction turns generalizing engine with
  | zero => exact ⟨SameMemory.remembers ⟨rfl, rfl⟩, held⟩
  | succ turns ih =>
      obtain ⟨steps, passed⟩ := preparePass_steps scan engine.active invariant fun _ => id
      have fixed := steps.fixed invariant
      obtain ⟨_, _, pass⟩ := engine.preparePass_eq engine.active
      have same : engine.SameMemory (preparePass engine.active engine).2 := by
        rw [pass]
        exact ⟨rfl, rfl⟩
      have after : (preparePass engine.active engine).2.Held [] := by
        refine held.frame same ?_ ?_ (impossibleReason_congr fixed.1 fixed.2)
        · rw [pass]
        · rw [pass]
          exact fun _ member => member
      unfold preparePasses
      dsimp only
      cases success : (preparePass engine.active engine).1 with
      | true =>
          rw [if_pos rfl]
          exact ⟨same.remembers, after⟩
      | false =>
          rw [if_neg Bool.false_ne_true]
          have valid := steps.invariant invariant
          obtain ⟨step, next, left, _⟩ := @Passed.preempts _ _ _ scan _ passed valid success
          have fixed' := step.fixed valid
          obtain ⟨preempted, waiting⟩ := preempt_held valid after (active_preparePass success)
            (impossibleReason_congr fixed'.1 fixed'.2)
          obtain ⟨rest, last⟩ := ih next waiting left
          exact ⟨same.remembers.trans (preempted.trans rest), last⟩

/-! ### Iterations and runs -/

theorem admitAndComplete_held (invariant : engine.Invariant false) (held : engine.Held []) :
    engine.admitAndComplete.2.Held [] ∧
      (engine.active ≠ [] → engine.Remembers engine.admitAndComplete.2) := by
  unfold admitAndComplete
  by_cases empty : engine.active = []
  · rw [if_pos empty]
    have forgiven : Invariant { engine with preemptedRequests := ∅ } false :=
      invariant.congr rfl rfl rfl rfl
    have nothing : Held { engine with preemptedRequests := ∅ } [] :=
      ⟨fun _ none => absurd none (Finset.notMem_empty _),
        fun _ none => absurd none (Finset.notMem_empty _)⟩
    obtain ⟨_, admitted⟩ := admitReady_held forgiven nothing fun _ => rfl
    obtain ⟨_, _, _, steps⟩ := admitReady_steps forgiven
    obtain ⟨_, completed⟩ := @completeFinished_held _ _ _ {} (steps.invariant forgiven) admitted
    exact ⟨completed, fun inhabited => absurd empty inhabited⟩
  · rw [if_neg empty]
    obtain ⟨same, admitted⟩ := admitReady_held invariant held fun isEmpty => absurd isEmpty empty
    obtain ⟨_, _, _, steps⟩ := admitReady_steps invariant
    obtain ⟨same', completed⟩ :=
      @completeFinished_held _ _ _ {} (steps.invariant invariant) admitted
    exact ⟨completed, fun _ => (same.trans same').remembers⟩

/-- An iteration that begins with sequences in the batch preempts only what it did not
remember. -/
theorem runOneIteration_held (invariant : engine.Invariant false) (held : engine.Held []) :
    engine.runOneIteration.2.Held [] ∧
      (engine.active ≠ [] → engine.Remembers engine.runOneIteration.2) := by
  obtain ⟨started, remembers⟩ := admitAndComplete_held invariant held
  obtain ⟨scan, nothing, _, steps, unfinished⟩ := admitAndComplete_steps invariant
  have valid := steps.invariant invariant
  unfold runOneIteration
  dsimp only
  by_cases empty : engine.admitAndComplete.2.active = []
  · rw [if_pos empty]
    exact ⟨started, remembers⟩
  · rw [if_neg empty]
    have step := Step.prepare nothing unfinished
    obtain ⟨prepared, waiting⟩ := preparePasses_held scan
      (engine.admitAndComplete.2.active.length + 1) (step.invariant valid) started empty
    split
    · exact ⟨waiting, fun inhabited => (remembers inhabited).trans prepared⟩
    · obtain ⟨steps', left, enough⟩ := prepareDecodeBlocks_steps valid empty nothing unfinished
      have decode := @Step.decode _ _ _ scan left enough
      have middle := steps'.invariant valid
      have decoded : engine.admitAndComplete.2.prepareDecodeBlocks.2.SameMemory
          engine.admitAndComplete.2.prepareDecodeBlocks.2.decodeBatch := ⟨rfl, rfl⟩
      have fixed := decode.fixed middle
      have after : engine.admitAndComplete.2.prepareDecodeBlocks.2.decodeBatch.Held [] := by
        refine waiting.frame decoded rfl ?_ (impossibleReason_congr fixed.1 fixed.2)
        unfold activeIds decodeBatch
        dsimp only
        rw [List.map_map]
        exact fun _ member => member
      obtain ⟨same, completed⟩ := @completeFinished_held _ _ _ scan (decode.invariant middle) after
      exact ⟨completed, fun inhabited =>
        (remembers inhabited).trans (prepared.trans (decoded.trans same).remembers)⟩

theorem respond_held (call : Call) (invariant : engine.Invariant false) (held : engine.Held []) :
    (object.respond call engine).2.Held [] ∧
      ((call = .runOneIteration → engine.active ≠ []) →
        engine.Remembers (object.respond call engine).2) := by
  have fixed := (respond_invariant call invariant).2
  have reasons := impossibleReason_congr fixed.1 fixed.2
  cases call with
  | submit request =>
      refine ⟨⟨held.apart, fun id remembered => ?_⟩, fun _ => SameMemory.remembers ⟨rfl, rfl⟩⟩
      obtain ⟨waiting, there, isId, possible⟩ := held.waits id remembered
      refine ⟨waiting, Or.inl ?_, isId, possible⟩
      have queued := there.resolve_right List.not_mem_nil
      change waiting ∈ PriorityQueue.elements (PriorityQueue.push engine.pending request)
      rw [PriorityQueue.elements_push]
      exact Multiset.mem_cons_of_mem queued
  | runOneIteration =>
      obtain ⟨after, remembers⟩ := runOneIteration_held invariant held
      exact ⟨after, fun inhabited => remembers (inhabited rfl)⟩
  | awaitArrival arrival =>
      have same : engine.SameMemory (object.respond (.awaitArrival arrival) engine).2 := ⟨rfl, rfl⟩
      exact ⟨held.frame same rfl (fun _ member => member) reasons, fun _ => same.remembers⟩
  | clearCaches =>
      have same : engine.SameMemory (object.respond .clearCaches engine).2 := ⟨rfl, rfl⟩
      exact ⟨held.frame same rfl (fun _ member => member) reasons, fun _ => same.remembers⟩

theorem held_run {start : ContinuousEngine η} (invariant : start.Invariant false)
    (held : start.Held []) (calls : List Call) : (object.run calls start).Held [] := by
  have both := @AtomicObject.invariant _ _ _ object
    (fun engine => engine.Invariant false ∧ engine.Held []) (fun call _ holds =>
      ⟨(respond_invariant call holds.1).1, (respond_held call holds.1 holds.2).1⟩)
    calls start ⟨invariant, held⟩
  exact both.2

theorem Held.new {draws : JitterDraws} {config : EngineConfig} {start : ContinuousEngine η}
    (accepted : ContinuousEngine.new draws config = .ok start) : start.Held [] := by
  have empty : start.preemptedRequests = ∅ := by
    obtain ⟨_, _, _, _, _, isNew⟩ := new_parts accepted
    rw [isNew]
  constructor
  · intro id remembered
    rw [empty] at remembered
    exact absurd remembered (Finset.notMem_empty _)
  · intro id remembered
    rw [empty] at remembered
    exact absurd remembered (Finset.notMem_empty _)

/-- Every iteration among the calls begins with sequences in the batch. -/
def Busy : List Call → ContinuousEngine η → Prop
  | [], _ => True
  | call :: later, engine =>
      (call = .runOneIteration → engine.active ≠ []) ∧ Busy later (object.respond call engine).2

theorem Busy.remembers {calls : List Call} (busy : Busy calls engine)
    (invariant : engine.Invariant false) (held : engine.Held []) :
    engine.Remembers (object.run calls engine) := by
  induction calls generalizing engine with
  | nil => exact SameMemory.remembers ⟨rfl, rfl⟩
  | cons call later ih =>
      obtain ⟨inhabited, rest⟩ := busy
      obtain ⟨after, remembers⟩ := respond_held call invariant held
      rw [AtomicObject.run_cons]
      exact (remembers inhabited).trans (ih rest (respond_invariant call invariant).1 after)

/-- The remembered requests all wait in the queue. -/
theorem Held.card_le (held : engine.Held []) :
    engine.preemptedRequests.card ≤ engine.pendingCount := by
  let ids := (PriorityQueue.elements engine.pending).map EngineRequest.requestId
  have among : engine.preemptedRequests ⊆ ids.toFinset := by
    intro id remembered
    obtain ⟨request, there, isId, _⟩ := held.waits id remembered
    rw [Multiset.mem_toFinset]
    exact Multiset.mem_map.mpr ⟨request, there.resolve_right List.not_mem_nil, isId⟩
  calc engine.preemptedRequests.card
      ≤ ids.toFinset.card := Finset.card_le_card among
    _ ≤ ids.card := Multiset.toFinset_card_le ids
    _ = engine.pendingCount := Multiset.card_map _ _

/-- **Preemption.** After any calls, every request that the engine remembers as preempted is
out of the batch and waits in the queue. While every iteration begins with sequences in the
batch, no request is preempted twice: the preemptions are as many as the requests that were
remembered meanwhile, and at most as many as wait in the end. -/
theorem preempted_once {draws : JitterDraws} {config : EngineConfig} {start : ContinuousEngine η}
    (accepted : new draws config = .ok start) (before busy : List Call)
    (inhabited : Busy busy (object.run before start)) :
    let engine := object.run before start
    let final := object.run (before ++ busy) start
    (∀ id ∈ final.preemptedRequests, id ∉ final.activeIds ∧
      ∃ request ∈ PriorityQueue.elements final.pending, request.requestId = id) ∧
    engine.preemptedRequests ⊆ final.preemptedRequests ∧
    final.stats.preemptions = engine.stats.preemptions +
      (final.preemptedRequests \ engine.preemptedRequests).card ∧
    final.stats.preemptions ≤ engine.stats.preemptions + final.pendingCount := by
  intro engine final
  have valid := (run_invariant accepted before).1
  have held : engine.Held [] := held_run (Invariant.new accepted).1 (.new accepted) before
  have waiting : final.Held [] := held_run (Invariant.new accepted).1 (.new accepted) _
  have remembers : engine.Remembers final := by
    have whole := inhabited.remembers valid held
    rwa [← AtomicObject.run_append] at whole
  have card := Finset.card_sdiff_of_subset remembers.kept
  have counted := remembers.counted
  have smaller := Finset.card_le_card remembers.kept
  have bound := waiting.card_le
  refine ⟨fun id remembered => ⟨waiting.apart id remembered, ?_⟩, remembers.kept, ?_, ?_⟩
  · obtain ⟨request, there, isId, _⟩ := waiting.waits id remembered
    exact ⟨request, there.resolve_right List.not_mem_nil, isId⟩
  · omega
  · omega

instance busyDecidable (calls : List Call) (engine : ContinuousEngine η) :
    Decidable (Busy calls engine) :=
  match calls with
  | [] => .isTrue trivial
  | call :: later =>
      have := busyDecidable later (object.respond call engine).2
      inferInstanceAs (Decidable ((call = .runOneIteration → engine.active ≠ []) ∧
        Busy later (object.respond call engine).2))

/-- An engine with two blocks of four tokens. -/
def confined : ContinuousEngine (SelectionQueue EngineRequest) :=
  (new (fun _ _ _ => 0) { kvBlocks := 2, kvBlockSizeTokens := 4 }).toOption.get rfl

theorem new_confined :
    new (fun _ _ _ => 0) { kvBlocks := 2, kvBlockSizeTokens := 4 } = .ok confined :=
  rfl

/-- Each of two sequences has a block, and the second has to make room when the first needs
another: it is preempted once, and waits while the first one runs on. -/
theorem preempted_once_latecomers :
    (object.run latecomers confined).stats.preemptions = 1 ∧
      ['b'] ∈ (object.run latecomers confined).preemptedRequests ∧
      ['b'] ∉ (object.run latecomers confined).activeIds := by
  have once := preempted_once new_confined (latecomers.take 2) (latecomers.drop 2)
    (by decide +kernel)
  rw [List.take_append_drop] at once
  obtain ⟨waits, _, counted, _⟩ := once
  have remembered : ['b'] ∈ (object.run latecomers confined).preemptedRequests := by
    decide +kernel
  refine ⟨?_, remembered, (waits _ remembered).1⟩
  rw [counted]
  decide +kernel

end ContinuousEngine

end InferSched.Engine

import InferSched.Engine.Termination

/-! # Blocks for the next token

`PrepareDecodeBlocks` goes through the batch by index, evicts cached prefixes while a
sequence cannot grow, and after a preemption starts again at the first sequence.
`Grows` and `Prepares` are its two loops as the source runs them, without a bound on
their turns: a derivation is a run that ends. The second lists the preemptions, each
with the engine at that moment and the sequence that could not grow.
-/

namespace InferSched.Engine

open Library

/-! ### Victims -/

/-- The first sequence is at least as good a victim as the second: it has less
priority, or the same and as much left to generate. -/
def ActiveRequest.Yields (victim other : ActiveRequest) : Prop :=
  victim.request.priority < other.request.priority ∨
    victim.request.priority = other.request.priority ∧ other.remaining ≤ victim.remaining

theorem ActiveRequest.Yields.refl (active : ActiveRequest) : active.Yields active :=
  Or.inr ⟨rfl, le_rfl⟩

theorem ActiveRequest.Yields.trans {first second third : ActiveRequest}
    (one : first.Yields second) (two : second.Yields third) : first.Yields third := by
  unfold ActiveRequest.Yields at *
  omega

namespace ContinuousEngine

open Moment

variable {η : Type} {engine : ContinuousEngine η}

/-- The loop of `SelectVictim` keeps the best victim of the sequences it has passed. -/
theorem selectFrom_yields {all passed : List ActiveRequest} (later : List ActiveRequest)
    {selected : ActiveRequest} {victim : ℕ} (split : all = passed ++ later)
    (here : all[victim]? = some selected) (best : ∀ other ∈ passed, selected.Yields other) :
    ∃ chosen, all[selectFrom later passed.length selected victim]? = some chosen ∧
      ∀ other ∈ all, chosen.Yields other := by
  induction later generalizing passed selected victim with
  | nil =>
      rw [List.append_nil] at split
      refine ⟨selected, here, ?_⟩
      rw [split]
      exact best
  | cons candidate later ih =>
      have next : all = (passed ++ [candidate]) ++ later := by
        rw [split, List.append_assoc, List.singleton_append]
      have length : (passed ++ [candidate]).length = passed.length + 1 := by
        rw [List.length_append, List.length_singleton]
      have isCandidate : all[passed.length]? = some candidate := by
        rw [split, List.getElem?_append_right le_rfl, Nat.sub_self]
        rfl
      unfold selectFrom
      dsimp only
      rw [← length]
      split
      · next better =>
          have beats : candidate.Yields selected := by
            unfold ActiveRequest.Yields ActiveRequest.remaining
            omega
          refine ih next isCandidate ?_
          intro other member
          rcases List.mem_append.mp member with old | new
          · exact beats.trans (best other old)
          · rw [List.mem_singleton.mp new]
            exact .refl candidate
      · next worse =>
          have beats : selected.Yields candidate := by
            unfold ActiveRequest.Yields ActiveRequest.remaining
            omega
          refine ih next here ?_
          intro other member
          rcases List.mem_append.mp member with old | new
          · exact best other old
          · rw [List.mem_singleton.mp new]
            exact beats

/-- The victim is the best one of the batch. -/
theorem selectVictim_yields (inhabited : engine.active ≠ []) :
    ∃ victim, engine.active[engine.selectVictim]? = some victim ∧
      ∀ other ∈ engine.active, victim.Yields other := by
  unfold selectVictim
  cases isActive : engine.active with
  | nil => exact absurd isActive inhabited
  | cons first later =>
      refine @selectFrom_yields (first :: later) [first] later first 0 rfl rfl ?_
      intro other member
      rw [List.mem_singleton.mp member]
      exact .refl first

/-! ### The loops of the source -/

/-- The loop around `AppendBlocks`. -/
inductive Grows (active : ActiveRequest) (additionalBlocks : ℕ) :
    ContinuousEngine η → AllocationStatus → ContinuousEngine η → Prop
  | settled {engine : ContinuousEngine η}
      (final : (engine.kvCache.appendBlocks active.request.requestId additionalBlocks).1 ≠
        .insufficientBlocks) :
      Grows active additionalBlocks engine
        (engine.kvCache.appendBlocks active.request.requestId additionalBlocks).1
        { engine with
          kvCache :=
            (engine.kvCache.appendBlocks active.request.requestId additionalBlocks).2 }
  | stuck {engine : ContinuousEngine η}
      (scarce : (engine.kvCache.appendBlocks active.request.requestId additionalBlocks).1 =
        .insufficientBlocks)
      (empty : engine.evictOldest.1 = false) :
      Grows active additionalBlocks engine .insufficientBlocks engine
  | evict {engine next : ContinuousEngine η} {status : AllocationStatus}
      (scarce : (engine.kvCache.appendBlocks active.request.requestId additionalBlocks).1 =
        .insufficientBlocks)
      (evicted : engine.evictOldest.1 = true)
      (later : Grows active additionalBlocks engine.evictOldest.2 status next) :
      Grows active additionalBlocks engine status next

/-- With as many turns as there are prefixes and one more, the loop ends by itself. -/
theorem growEvicting_grows (active : ActiveRequest) (additionalBlocks turns : ℕ)
    {engine : ContinuousEngine η} (invariant : engine.Invariant true)
    (enough : Multiset.card engine.prefixCache.nodes < turns) :
    Grows active additionalBlocks engine (growEvicting active additionalBlocks turns engine).1
      (growEvicting active additionalBlocks turns engine).2 := by
  induction turns generalizing engine with
  | zero => exact absurd enough (Nat.not_lt_zero _)
  | succ turns ih =>
      unfold growEvicting
      dsimp only
      split
      · next scarce =>
          rcases invariant.evictOldest_cases with ⟨failed, _⟩ | ⟨evicted, _, count⟩
          · rw [failed, if_neg Bool.false_ne_true]
            exact .stuck scarce failed
          · rw [evicted, if_pos rfl]
            exact .evict scarce evicted (ih invariant.evictOldest (by omega))
      · next final => exact .settled final

/-- A preemption: the sequence that could not grow, and the engine just before it. -/
structure Preemption (η : Type) where
  requester : ActiveRequest
  engine : ContinuousEngine η

variable [RequestQueue η]

/-- The loop of `PrepareDecodeBlocks` from an index on, with its preemptions. -/
inductive Prepares : ℕ → ContinuousEngine η → List (Preemption η) → ContinuousEngine η → Prop
  | finish {index : ℕ} {engine : ContinuousEngine η} (past : engine.active.length ≤ index) :
      Prepares index engine [] engine
  | enough {index : ℕ} {engine final : ContinuousEngine η} {active : ActiveRequest}
      {preemptions : List (Preemption η)} (here : engine.active[index]? = some active)
      (has : engine.neededBlocks active ≤ engine.currentBlocks active)
      (later : Prepares (index + 1) engine preemptions final) :
      Prepares index engine preemptions final
  | grown {index : ℕ} {engine next final : ContinuousEngine η} {active : ActiveRequest}
      {preemptions : List (Preemption η)} (here : engine.active[index]? = some active)
      (short : engine.currentBlocks active < engine.neededBlocks active)
      (grows : Grows active (engine.neededBlocks active - engine.currentBlocks active) engine
        .allocated next)
      (later : Prepares (index + 1) next preemptions final) :
      Prepares index engine preemptions final
  | preempted {index : ℕ} {engine next final : ContinuousEngine η} {active : ActiveRequest}
      {status : AllocationStatus} {preemptions : List (Preemption η)}
      (here : engine.active[index]? = some active)
      (short : engine.currentBlocks active < engine.neededBlocks active)
      (grows : Grows active (engine.neededBlocks active - engine.currentBlocks active) engine
        status next)
      (refused : status ≠ .allocated)
      (again : Prepares 0 (next.preempt next.selectVictim) preemptions final) :
      Prepares index engine (⟨active, next⟩ :: preemptions) final

/-- A loop that ends has grown the sequence, or no prefix is left and the free blocks
do not suffice. -/
theorem Grows.outcome {active : ActiveRequest} {additionalBlocks : ℕ}
    {engine next : ContinuousEngine η} {status : AllocationStatus}
    (grows : Grows active additionalBlocks engine status next)
    (invariant : engine.Invariant true) (member : active ∈ engine.active)
    (short : engine.currentBlocks active < engine.neededBlocks active)
    (exact : engine.neededBlocks active - engine.currentBlocks active = additionalBlocks) :
    next.Invariant true ∧ next.active = engine.active ∧ next.config = engine.config ∧
      (status ≠ .allocated → next.prefixCache.nodes = 0 ∧
        next.currentBlocks active = engine.currentBlocks active ∧
        next.kvCache.freeList.length < additionalBlocks) := by
  have known : active.request.requestId ∈ engine.kvCache.sequenceBlocks :=
    (invariant.sequences _).mpr (List.mem_map_of_mem member)
  induction grows with
  | @settled engine final =>
      rcases engine.kvCache.appendBlocks_cases active.request.requestId additionalBlocks with
        ⟨_, unknown⟩ | ⟨blocks, found, ⟨refused, scarce⟩ | ⟨granted, grant⟩⟩
      · exact absurd known unknown
      · exact absurd (congrArg Prod.fst refused) final
      · subst exact
        have step := @Step.grow _ _ engine {} active member short granted
        refine ⟨step.invariant invariant, rfl, rfl, ?_⟩
        intro refused
        exact absurd granted refused
  | @stuck engine scarce empty =>
      refine ⟨invariant, rfl, rfl, fun _ => ?_⟩
      rcases invariant.evictOldest_cases with ⟨_, none⟩ | ⟨evicted, _, _⟩
      · rcases engine.kvCache.appendBlocks_cases active.request.requestId additionalBlocks with
          ⟨_, unknown⟩ | ⟨blocks, found, ⟨refused, lacking⟩ | ⟨granted, grant⟩⟩
        · exact absurd known unknown
        · exact ⟨none, rfl, lacking⟩
        · rw [granted] at scarce
          cases scarce
      · rw [evicted] at empty
        cases empty
  | @evict engine next status scarce evicted later ih =>
      have valid := invariant.evictOldest
      rcases invariant.evictOldest_cases with ⟨failed, _⟩ | ⟨_, relieved, _⟩
      · rw [failed] at evicted
        cases evicted
      · have current := relieved.currentBlocks active
        have needed : engine.evictOldest.2.neededBlocks active = engine.neededBlocks active :=
          neededBlocks_congr rfl active
        obtain ⟨final, sameActive, sameConfig, refused⟩ := ih valid member
          (by rw [current, needed]; exact short) (by rw [current, needed]; exact exact)
          ((valid.sequences _).mpr (List.mem_map_of_mem member))
        refine ⟨final, sameActive, sameConfig, ?_⟩
        intro unallocated
        obtain ⟨none, same, lacking⟩ := refused unallocated
        exact ⟨none, same.trans current, lacking⟩

/-- A pass from an index on ends the loop, or leads to a preemption and a new start. -/
theorem preparePass_prepares {engine : ContinuousEngine η} (later : List ActiveRequest)
    (index : ℕ) (invariant : engine.Invariant true) (ahead : engine.active.drop index = later) :
    ((preparePass later engine).1 = true →
      Prepares index engine [] (preparePass later engine).2) ∧
    ((preparePass later engine).1 = false → ∃ requester, ∀ preemptions final,
      Prepares 0 ((preparePass later engine).2.preempt (preparePass later engine).2.selectVictim)
        preemptions final →
      Prepares index engine (⟨requester, (preparePass later engine).2⟩ :: preemptions) final) := by
  induction later generalizing engine index with
  | nil =>
      refine ⟨fun _ => .finish (List.drop_eq_nil_iff.mp ahead), ?_⟩
      intro failed
      cases failed
  | cons active later ih =>
      have here : engine.active[index]? = some active := by
        have first := congrArg List.head? ahead
        rw [List.head?_drop] at first
        exact first
      have rest : engine.active.drop (index + 1) = later := by
        rw [← List.drop_drop, ahead]
        rfl
      unfold preparePass
      by_cases has : engine.neededBlocks active ≤ engine.currentBlocks active
      · rw [if_pos has]
        obtain ⟨passes, fails⟩ := ih (index + 1) invariant rest
        refine ⟨fun success => .enough here has (passes success), ?_⟩
        intro failure
        obtain ⟨requester, continues⟩ := fails failure
        exact ⟨requester, fun preemptions final again =>
          .enough here has (continues preemptions final again)⟩
      · rw [if_neg has]
        have short := Nat.lt_of_not_le has
        have grows := growEvicting_grows active
          (engine.neededBlocks active - engine.currentBlocks active)
          (engine.prefixCache.nodeCount + 1) invariant
          (by rw [invariant.linked.counted]; exact Nat.lt_succ_self _)
        have member : active ∈ engine.active := List.mem_of_getElem? here
        obtain ⟨valid, sameActive, _, _⟩ := grows.outcome invariant member short rfl
        dsimp only
        generalize growEvicting active (engine.neededBlocks active - engine.currentBlocks active)
          (engine.prefixCache.nodeCount + 1) engine = result at grows valid sameActive ⊢
        obtain ⟨status, next⟩ := result
        by_cases granted : status = .allocated
        · rw [if_pos granted]
          subst granted
          obtain ⟨passes, fails⟩ := ih (index + 1) valid (by rw [sameActive]; exact rest)
          refine ⟨fun success => .grown here short grows (passes success), ?_⟩
          intro failure
          obtain ⟨requester, continues⟩ := fails failure
          exact ⟨requester, fun preemptions final again =>
            .grown here short grows (continues preemptions final again)⟩
        · rw [if_neg granted]
          refine ⟨?_, fun _ => ⟨active, fun preemptions final again =>
            .preempted here short grows granted again⟩⟩
          intro success
          cases success

/-- The passes of the model are a run of the source's loop that ends. -/
theorem preparePasses_prepares {engine : ContinuousEngine η} (turns : ℕ)
    (invariant : engine.Invariant true) (inhabited : engine.active ≠ [])
    (enough : engine.active.length < turns) :
    ∃ preemptions, Prepares 0 engine preemptions (preparePasses turns engine) := by
  induction turns generalizing engine with
  | zero => exact absurd enough (Nat.not_lt_zero _)
  | succ turns ih =>
      obtain ⟨steps, passed⟩ := preparePass_steps {} engine.active invariant fun _ => id
      obtain ⟨passes, fails⟩ := preparePass_prepares engine.active 0 invariant rfl
      unfold preparePasses
      dsimp only
      cases success : (preparePass engine.active engine).1 with
      | true =>
          rw [if_pos rfl]
          exact ⟨[], passes success⟩
      | false =>
          rw [if_neg Bool.false_ne_true]
          obtain ⟨_, valid, left, shorter⟩ :=
            @Passed.preempts _ _ _ {} _ passed (Steps.invariant steps invariant) success
          obtain ⟨preemptions, again⟩ := ih valid left
            (shorter.trans_le (Nat.le_of_lt_succ enough))
          obtain ⟨requester, continues⟩ := fails success
          exact ⟨_, continues preemptions _ again⟩

/-- A preemption that nothing could avoid: no prefix is cached, the free blocks do not
suffice for the sequence that has to grow, and the victim yields to all others. -/
structure Preemption.Justified (preemption : Preemption η) : Prop where
  member : preemption.requester ∈ preemption.engine.active
  unpinned : preemption.engine.prefixCache.nodes = 0
  scarce : preemption.engine.kvCache.freeList.length <
    preemption.engine.neededBlocks preemption.requester -
      preemption.engine.currentBlocks preemption.requester
  victim : ∃ victim,
    preemption.engine.active[preemption.engine.selectVictim]? = some victim ∧
      ∀ other ∈ preemption.engine.active, victim.Yields other

theorem Prepares.justified {index : ℕ} {engine final : ContinuousEngine η}
    {preemptions : List (Preemption η)} (prepares : Prepares index engine preemptions final)
    (invariant : engine.Invariant true) :
    ∀ preemption ∈ preemptions, preemption.Justified := by
  induction prepares with
  | finish past => exact List.forall_mem_nil _
  | enough here has later ih => exact ih invariant
  | grown here short grows later ih =>
      obtain ⟨valid, _⟩ := grows.outcome invariant (List.mem_of_getElem? here) short rfl
      exact ih valid
  | @preempted index engine next final active status preemptions here short grows refused
      again ih =>
      have member := List.mem_of_getElem? here
      obtain ⟨valid, sameActive, sameConfig, stuck⟩ := grows.outcome invariant member short rfl
      obtain ⟨unpinned, current, scarce⟩ := stuck refused
      rw [← sameActive] at member
      rw [← current, ← neededBlocks_congr sameConfig active] at scarce
      intro preemption listed
      rcases List.mem_cons.mp listed with rfl | later
      · exact ⟨member, unpinned, scarce, selectVictim_yields (List.ne_nil_of_mem member)⟩
      · exact ih (valid.preempt _) preemption later

/-- **Blocks for the next token.** Whenever an iteration of a run reaches
`PrepareDecodeBlocks` with a batch, its loop ends and it returns true; every remaining
sequence has exactly the blocks of its tokens and the next one; and each preemption on the
way happened with no prefix cached and too few free blocks, and took a sequence of the
least priority and, among these, with the most left to generate. -/
theorem decode_blocks_prepared {draws : JitterDraws} {config : EngineConfig}
    {start : ContinuousEngine η} (accepted : new draws config = .ok start) (calls : List Call)
    (inhabited : (object.run calls start).admitAndComplete.2.active ≠ []) :
    let engine := (object.run calls start).admitAndComplete.2
    let prepared := engine.prepareDecodeBlocks
    prepared.1 = true ∧
    (∀ active ∈ prepared.2.active,
      (prepared.2.kvCache.blocksFor active.request.requestId).length =
        (active.request.promptTokens + active.generatedTokens + 1) ⌈/⌉
          config.kvBlockSizeTokens) ∧
    ∃ preemptions, Prepares 0 engine preemptions prepared.2 ∧
      ∀ preemption ∈ preemptions, preemption.Justified := by
  intro engine prepared
  obtain ⟨invariant, isConfig, _⟩ := run_invariant accepted calls
  obtain ⟨scan, nothing, _, started, unfinished⟩ := admitAndComplete_steps invariant
  have valid : engine.Invariant false := Steps.invariant started invariant
  obtain ⟨steps, left, enough⟩ :=
    prepareDecodeBlocks_steps valid inhabited nothing unfinished
  have final : prepared.2.Invariant true := Steps.invariant steps valid
  have sameConfig : prepared.2.config = config :=
    ((Steps.fixed steps valid).1.trans (Steps.fixed started invariant).1).trans isConfig
  have preparing : engine.Invariant true := (Step.prepare nothing unfinished).invariant valid
  obtain ⟨preemptions, prepares⟩ :=
    preparePasses_prepares (engine.active.length + 1) preparing inhabited (Nat.lt_succ_self _)
  refine ⟨decide_eq_true left, ?_, preemptions, prepares, prepares.justified preparing⟩
  intro active member
  have needed : prepared.2.neededBlocks active =
      (active.request.promptTokens + active.generatedTokens + 1) ⌈/⌉
        config.kvBlockSizeTokens := by
    rw [← sameConfig, ← blocksForTokens_eq_ceilDiv final.positive]
    rfl
  rw [← needed]
  rcases final.blocks active member with before | ⟨_, exact⟩
  · refine le_antisymm ?_ (enough active member)
    change prepared.2.currentBlocks active ≤ _
    rw [before]
    exact blocksForTokens_mono final.positive (Nat.le_succ _)
  · exact exact

/-- An engine with one block for each of two sequences. -/
def tight : ContinuousEngine (SelectionQueue EngineRequest) :=
  (ContinuousEngine.new (fun _ _ _ => 0)
    { kvBlocks := 2, kvBlockSizeTokens := 2,
      maxPrefillSequencesPerIteration := 2 }).toOption.get rfl

theorem new_tight : ContinuousEngine.new (fun _ _ _ => 0)
    { kvBlocks := 2, kvBlockSizeTokens := 2, maxPrefillSequencesPerIteration := 2 } =
      .ok tight :=
  rfl

/-- Two prompts that fill the blocks, the second of less priority. -/
def rivals : List Call :=
  [.submit { requestId := ['a'], promptTokens := 2, maxOutputTokens := 2, priority := 1 },
    .submit { requestId := ['b'], promptTokens := 2, maxOutputTokens := 2 }]

/-- The first of two sequences grows into the block of the second. -/
theorem decode_blocks_prepared_rivals :
    (object.run rivals tight).admitAndComplete.2.active.length = 2 ∧
      (object.run rivals tight).admitAndComplete.2.prepareDecodeBlocks.1 = true ∧
      (object.run rivals tight).admitAndComplete.2.prepareDecodeBlocks.2.activeIds = [['a']] :=
  ⟨by decide +kernel,
    (decode_blocks_prepared new_tight rivals (by decide +kernel)).1, by decide +kernel⟩

end ContinuousEngine
end InferSched.Engine

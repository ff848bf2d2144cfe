import InferSched.Engine.MachineRefinement
import InferSched.Engine.Termination

/-! # Runs of the machine engine

An iteration of the machine engine is an iteration of the engine as long as the clock and the
busy time stay within the limit, and so is a whole run. At rest no sequence is finished, so
an iteration without progress leaves nothing ready, and the wait for the next arrival only
ever moves the clock forward.
-/

namespace InferSched.Engine

open Library Checked

namespace Platform

open Moment

variable {η : Type} {platform : Platform} {engine : ContinuousEngine η}

section Admission

variable [RequestQueue η]

/-- A scan faults exactly where one of its prefills takes the time past the limit. -/
theorem scanPending_gives (remaining : ℕ) {scan : Scan} (regular : Regular ⟨engine, scan, false⟩)
    (within : platform.Within engine) :
    Gives (platform.scanPending remaining engine scan)
      (guarded (platform.Within (ContinuousEngine.scanPending remaining engine scan).1)
        (ContinuousEngine.scanPending remaining engine scan)) := by
  induction remaining generalizing engine scan with
  | zero => exact .pure_guarded within _
  | succ remaining ih =>
      unfold scanPending ContinuousEngine.scanPending
      by_cases room : engine.active.length < engine.config.maxBatchSequences
      · simp only [if_pos room]
        cases popped : RequestQueue.popReady engine.pending engine.clock with
        | none => exact .pure_guarded within _
        | some pair =>
            obtain ⟨candidate, queue⟩ := pair
            have queued := (Step.pop room popped : Step ⟨engine, scan, false⟩ _).regular regular
            have turn := ContinuousEngine.considerCandidate_steps candidate scan
              queued.invariant room
            have still := (Steps.regular turn queued).1
            have rest := ContinuousEngine.scanPending_steps remaining
              (ContinuousEngine.considerCandidate { engine with pending := queue } candidate
                scan).2.2 still.invariant
            have later := (Steps.regular rest still).2
            refine (considerCandidate_gives queued within).bind_guarded (fun fits => ?_) ?_
            · dsimp only
              split
              · exact ih still fits
              · exact .pure_guarded fits _
            · dsimp only
              split
              · exact fun last => last.of_later later
              · exact id
      · simp only [if_neg room]
        exact .pure_guarded within _

/-- The admission of an iteration is a scan from its own start. -/
theorem admitReady_gives (regular : Regular (rest engine)) (within : platform.Within engine) :
    Gives (platform.admitReady engine)
      (guarded (platform.Within engine.admitReady.2) engine.admitReady) :=
  (scanPending_gives _ regular within).bind_guarded (fun fits => .pure_guarded fits _) id

omit [RequestQueue η] in
/-- Completing sequences takes no time. -/
theorem completeFrom_time (kept later : List ActiveRequest) (engine : ContinuousEngine η) :
    (ContinuousEngine.completeFrom kept later engine).clock = engine.clock ∧
      (ContinuousEngine.completeFrom kept later engine).stats = engine.stats := by
  induction later generalizing kept engine with
  | nil => exact ⟨rfl, rfl⟩
  | cons active later ih =>
      unfold ContinuousEngine.completeFrom
      split
      · exact ih _ _
      · exact ih _ _

omit [RequestQueue η] in
/-- A completion takes no time. -/
theorem within_completeFinished :
    platform.Within engine.completeFinished ↔ platform.Within engine := by
  obtain ⟨clock, stats⟩ := completeFrom_time [] engine.active engine
  unfold Within ContinuousEngine.completeFinished
  rw [clock, stats]

/-- The part of an iteration before the batch is given blocks. -/
theorem admitAndComplete_gives (regular : Regular (rest engine))
    (within : platform.Within engine) :
    Gives (platform.admitAndComplete engine)
      (guarded (platform.Within engine.admitAndComplete.2) engine.admitAndComplete) := by
  unfold admitAndComplete ContinuousEngine.admitAndComplete
  dsimp only
  by_cases empty : engine.active = []
  · simp only [if_pos empty]
    have forgiven := (Step.forgive empty : Step (rest engine) _).regular regular
    exact (admitReady_gives forgiven within).bind_guarded
      (fun fits => .pure_guarded (within_completeFinished.mpr fits) _) within_completeFinished.mp
  · simp only [if_neg empty]
    exact (admitReady_gives regular within).bind_guarded
      (fun fits => .pure_guarded (within_completeFinished.mpr fits) _) within_completeFinished.mp

end Admission

/-! ### Blocks for the next token -/

/-- The tokens of an active sequence and one more fit a word. -/
theorem neededBlocks_gives {active : ActiveRequest}
    (positive : 0 < engine.config.kvBlockSizeTokens)
    (fits : active.request.promptTokens + active.generatedTokens + 1 < 2 ^ sizeBits) :
    Gives (neededBlocks engine active) (.ok (engine.neededBlocks active)) :=
  (Gives.add (Nat.lt_of_succ_lt fits)).bind
    ((Gives.add fits).bind (blocksForTokens_gives positive fits))

/-- The loop of a growth takes the turns of the exact one. -/
theorem growEvicting_gives (active : ActiveRequest) (additionalBlocks turns : ℕ)
    (stamped : engine.prefixCache.Stamped) :
    Gives (platform.growEvicting active additionalBlocks turns engine)
      (.ok (ContinuousEngine.growEvicting active additionalBlocks turns engine)) := by
  induction turns generalizing engine with
  | zero => exact .pure _
  | succ turns ih =>
      unfold growEvicting ContinuousEngine.growEvicting
      dsimp only
      split
      · refine (evictOldest_gives stamped).bind ?_
        split
        · exact ih (stamped.evictOldest _)
        · exact .pure _
      · exact .pure _

/-- A pass over the active sequences computes nothing that wraps. -/
theorem preparePass_gives (later : List ActiveRequest)
    (positive : 0 < engine.config.kvBlockSizeTokens) (stamped : engine.prefixCache.Stamped)
    (fits : ∀ active ∈ later,
      active.request.promptTokens + active.generatedTokens + 1 < 2 ^ sizeBits) :
    Gives (platform.preparePass later engine)
      (.ok (ContinuousEngine.preparePass later engine)) := by
  induction later generalizing engine with
  | nil => exact .pure _
  | cons active later ih =>
      obtain ⟨head, others⟩ := List.forall_mem_cons.mp fits
      unfold preparePass ContinuousEngine.preparePass
      refine (neededBlocks_gives positive head).bind ?_
      split
      · exact ih positive stamped others
      · next short =>
          refine (Gives.sub (Nat.le_of_not_le short)).bind ?_
          refine (growEvicting_gives active _ _ stamped).bind ?_
          dsimp only
          split
          · obtain ⟨_, _, isGrown, still⟩ := recached_growEvicting active
              (engine.neededBlocks active - engine.currentBlocks active)
              (engine.prefixCache.nodeCount + 1) stamped
            rw [isGrown]
            exact ih positive still others
          · exact .pure _

/-- The remaining tokens of unfinished sequences do not wrap. -/
theorem selectFrom_gives (later : List ActiveRequest) (index : ℕ) {selected : ActiveRequest}
    (victim : ℕ) (begun : selected.generatedTokens ≤ selected.request.maxOutputTokens)
    (unfinished : ∀ active ∈ later, active.generatedTokens ≤ active.request.maxOutputTokens) :
    Gives (selectFrom later index selected victim)
      (.ok (ContinuousEngine.selectFrom later index selected victim)) := by
  induction later generalizing index selected victim with
  | nil => exact .pure _
  | cons candidate later ih =>
      obtain ⟨head, others⟩ := List.forall_mem_cons.mp unfinished
      unfold selectFrom ContinuousEngine.selectFrom
      refine (Gives.sub head).bind ((Gives.sub begun).bind ?_)
      dsimp only
      split
      · exact ih _ _ head others
      · exact ih _ _ begun others

theorem selectVictim_gives
    (unfinished : ∀ active ∈ engine.active,
      active.generatedTokens ≤ active.request.maxOutputTokens) :
    Gives (selectVictim engine) (.ok engine.selectVictim) := by
  unfold selectVictim ContinuousEngine.selectVictim
  cases isActive : engine.active with
  | nil => exact .pure _
  | cons first later =>
      rw [isActive] at unfinished
      obtain ⟨head, others⟩ := List.forall_mem_cons.mp unfinished
      exact selectFrom_gives later 1 0 head others

section Preparation

variable [RequestQueue η]

/-- The next token of an unfinished sequence can be counted. -/
theorem next_fits {scan : Scan} (regular : Regular ⟨engine, scan, true⟩) :
    ∀ active ∈ engine.active,
      active.request.promptTokens + active.generatedTokens + 1 < 2 ^ sizeBits := by
  intro active member
  have sized : active.request.ticket.Sized := regular.sized _ (ticket_mem_unanswered member)
  have output : active.request.maxOutputTokens ≤ sizeMax := Nat.le_pred_of_lt sized.output
  have unfinished : active.generatedTokens + 1 ≤ active.request.maxOutputTokens :=
    regular.invariant.unfinished active member
  have possible := regular.invariant.possible active member
  have small : active.request.promptTokens ≤ sizeMax - active.request.maxOutputTokens := by
    unfold ContinuousEngine.impossibleReason at possible
    split at possible
    · cases possible
    · next small => exact Nat.le_of_not_lt small
  have bound : sizeMax < 2 ^ sizeBits := by decide
  omega

/-- The passes of `PrepareDecodeBlocks`, with the preemptions between them. -/
theorem preparePasses_gives (turns : ℕ) {scan : Scan} (regular : Regular ⟨engine, scan, true⟩) :
    Gives (platform.preparePasses turns engine)
      (.ok (ContinuousEngine.preparePasses turns engine)) := by
  induction turns generalizing engine with
  | zero => exact .pure _
  | succ turns ih =>
      obtain ⟨steps, passed⟩ := ContinuousEngine.preparePass_steps scan engine.active
        regular.invariant fun _ => id
      have still := (Steps.regular steps regular).1
      unfold preparePasses ContinuousEngine.preparePasses
      refine (preparePass_gives engine.active regular.invariant.positive regular.stamped
        (next_fits regular)).bind ?_
      cases success : (ContinuousEngine.preparePass engine.active engine).1 with
      | true =>
          dsimp only
          rw [success]
          exact .pure _
      | false =>
          dsimp only
          rw [success, if_neg Bool.false_ne_true, if_neg Bool.false_ne_true]
          obtain ⟨step, _⟩ := @ContinuousEngine.Passed.preempts η engine _ scan _ passed
            still.invariant success
          refine (selectVictim_gives ?_).bind (ih (step.regular still))
          exact fun active member => Nat.le_of_succ_le (still.invariant.unfinished active member)

omit [RequestQueue η] in
theorem recached_preparePass (later : List ActiveRequest) (stamped : engine.prefixCache.Stamped) :
    Recached engine (ContinuousEngine.preparePass later engine).2 := by
  induction later generalizing engine with
  | nil => exact ⟨_, _, rfl, stamped⟩
  | cons active later ih =>
      have grown := recached_growEvicting active
        (engine.neededBlocks active - engine.currentBlocks active)
        (engine.prefixCache.nodeCount + 1) stamped
      unfold ContinuousEngine.preparePass
      dsimp only
      split
      · exact ih stamped
      · split
        · exact grown.trans (ih grown.stamped)
        · exact grown

/-- A preemption leaves the prefix cache and the time. -/
theorem preempt_time (engine : ContinuousEngine η) (victim : ℕ) :
    (engine.preempt victim).prefixCache = engine.prefixCache ∧
      (engine.preempt victim).clock = engine.clock ∧
      (engine.preempt victim).stats.simulatedBusyTime = engine.stats.simulatedBusyTime := by
  unfold ContinuousEngine.preempt
  split
  · exact ⟨rfl, rfl, rfl⟩
  · exact ⟨rfl, rfl, rfl⟩

/-- Giving the batch blocks takes no time. -/
theorem preparePasses_time (turns : ℕ) (stamped : engine.prefixCache.Stamped) :
    (ContinuousEngine.preparePasses turns engine).clock = engine.clock ∧
      (ContinuousEngine.preparePasses turns engine).stats.simulatedBusyTime =
        engine.stats.simulatedBusyTime := by
  induction turns generalizing engine with
  | zero => exact ⟨rfl, rfl⟩
  | succ turns ih =>
      have pass := recached_preparePass engine.active stamped
      obtain ⟨clock, stats⟩ := pass.time
      unfold ContinuousEngine.preparePasses
      dsimp only
      split
      · rw [clock, stats]
        exact ⟨rfl, rfl⟩
      · obtain ⟨prefixCache, preempted, busy⟩ := preempt_time
          (ContinuousEngine.preparePass engine.active engine).2
          (ContinuousEngine.preparePass engine.active engine).2.selectVictim
        obtain ⟨clock', busy'⟩ := ih (prefixCache ▸ pass.stamped)
        rw [clock', busy', preempted, busy, clock, stats]
        exact ⟨rfl, rfl⟩

/-- Preparing blocks takes no time. -/
theorem within_prepareDecodeBlocks (stamped : engine.prefixCache.Stamped) :
    platform.Within engine.prepareDecodeBlocks.2 ↔ platform.Within engine := by
  obtain ⟨clock, busy⟩ := preparePasses_time (engine.active.length + 1) stamped
  unfold Within ContinuousEngine.prepareDecodeBlocks
  dsimp only
  rw [clock, busy]

theorem prepareDecodeBlocks_gives {scan : Scan} (regular : Regular ⟨engine, scan, true⟩) :
    Gives (platform.prepareDecodeBlocks engine) (.ok engine.prepareDecodeBlocks) :=
  (preparePasses_gives _ regular).bind (.pure _)

end Preparation

/-! ### Iterations -/

/-- Counting a token for each sequence of the batch does not wrap. -/
theorem countTokens_gives (now : ℤ) {batch : List ActiveRequest}
    (fits : ∀ active ∈ batch, active.generatedTokens + 1 < 2 ^ sizeBits) :
    Gives (countTokens now batch)
      (.ok (batch.map fun active =>
        { active with
          generatedTokens := active.generatedTokens + 1
          firstTokenAt :=
            if active.generatedTokens + 1 = 1 then now else active.firstTokenAt })) := by
  induction batch with
  | nil => exact .pure _
  | cons active later ih =>
      obtain ⟨head, others⟩ := List.forall_mem_cons.mp fits
      exact (Gives.add head).bind ((ih others).bind (.pure _))

/-- A decode step faults exactly where it takes the time past the limit. -/
theorem decodeBatch_gives
    (fits : ∀ active ∈ engine.active, active.generatedTokens + 1 < 2 ^ sizeBits)
    (sane : engine.costModel.Sane)
    (started : 0 ≤ engine.clock ∧ 0 ≤ engine.stats.simulatedBusyTime)
    (within : platform.Within engine) :
    Gives (platform.decodeBatch engine)
      (guarded (platform.Within engine.decodeBatch) engine.decodeBatch) := by
  unfold decodeBatch
  refine pay_gives started within (sane.decodeStep _).1 (fun clock busy => ?_) id
  exact (countTokens_gives _ fits).bind (.pure_guarded ⟨clock, busy⟩ _)

/-- Waiting for a request that has not arrived yet. -/
theorem awaitArrival_gives {arrival : ℤ} (started : 0 ≤ engine.clock)
    (within : platform.Within engine) (future : engine.clock < arrival) :
    Gives (platform.awaitArrival engine arrival)
      (guarded (platform.Within (engine.awaitArrival arrival)) (engine.awaitArrival arrival)) := by
  have reached : Engine.advance engine.clock (arrival - engine.clock) = arrival := by
    unfold Engine.advance
    rw [if_pos (by omega)]
    omega
  unfold awaitArrival
  refine (Gives.signed (by omega)).bind_guarded (fun short => ?_) ?_
  · refine (advance_gives started within.1).bind_guarded (fun clock => ?_) (fun last => last.1)
    exact .pure_guarded ⟨clock, within.2⟩ _
  · intro last
    have clock : Engine.advance engine.clock (arrival - engine.clock) ≤ platform.timeMax := last.1
    omega

variable [RequestQueue η]

/-- An iteration faults exactly where it takes the time past the limit. -/
theorem runOneIteration_gives (regular : Regular (rest engine)) (within : platform.Within engine) :
    Gives (platform.runOneIteration engine)
      (guarded (platform.Within engine.runOneIteration.2) engine.runOneIteration) := by
  have invariant : engine.Invariant false := regular.invariant
  obtain ⟨scan, nothing, _, started, unfinished⟩ :=
    ContinuousEngine.admitAndComplete_steps invariant
  have begun := (Steps.regular started regular).1
  unfold runOneIteration ContinuousEngine.runOneIteration
  by_cases empty : engine.admitAndComplete.2.active = []
  · simp only [if_pos empty]
    refine (admitAndComplete_gives regular within).bind_guarded (fun fits => ?_) id
    rw [if_pos empty]
    exact .pure_guarded fits _
  · simp only [if_neg empty]
    have valid : engine.admitAndComplete.2.Invariant false := begun.invariant
    have preparing := (Step.prepare nothing unfinished).regular begun
    obtain ⟨steps, left, prepared⟩ := ContinuousEngine.prepareDecodeBlocks_steps valid empty
      nothing unfinished
    have ready := (Steps.regular steps begun).1
    have succeeds : engine.admitAndComplete.2.prepareDecodeBlocks.1 = true := decide_eq_true left
    have same : platform.Within engine.admitAndComplete.2.prepareDecodeBlocks.2 ↔
        platform.Within engine.admitAndComplete.2 := within_prepareDecodeBlocks begun.stamped
    have fits : ∀ active ∈ engine.admitAndComplete.2.prepareDecodeBlocks.2.active,
        active.generatedTokens + 1 < 2 ^ sizeBits := by
      intro active member
      have total := next_fits ready active member
      omega
    have later := ((Step.decode left prepared : Step ⟨_, scan, true⟩ _).later ready.sane).1
    simp only [succeeds, if_neg Bool.true_eq_false_eq_False, within_completeFinished]
    refine (admitAndComplete_gives regular within).bind_guarded (fun early => ?_)
      (fun last => same.mp (last.of_later later))
    rw [if_neg empty]
    refine (prepareDecodeBlocks_gives preparing).bind ?_
    rw [succeeds, if_neg Bool.true_eq_false_eq_False]
    refine (decodeBatch_gives fits ready.sane ready.started (same.mpr early)).bind_guarded
      (fun last => .pure_guarded last _) id

end Platform

/-! ### Engines at rest -/

namespace ContinuousEngine

open Moment

variable {η : Type} {engine : ContinuousEngine η}

/-- An unfinished sequence stays in the batch when the finished ones leave. -/
theorem mem_completeFrom {active : ActiveRequest} (later : List ActiveRequest)
    {kept : List ActiveRequest} {engine : ContinuousEngine η}
    (split : engine.active = kept ++ later)
    (member : active ∈ engine.active)
    (unfinished : active.generatedTokens < active.request.maxOutputTokens) :
    active ∈ (completeFrom kept later engine).active := by
  induction later generalizing kept engine with
  | nil => exact member
  | cons head later ih =>
      unfold completeFrom
      by_cases going : head.generatedTokens < head.request.maxOutputTokens
      · rw [if_pos going]
        apply ih
        · rw [split, List.append_assoc, List.singleton_append]
        · exact member
      · rw [if_neg going]
        apply ih
        · rfl
        · rw [split, List.mem_append, List.mem_cons] at member
          rcases member with before | rfl | after
          · exact List.mem_append_left _ before
          · exact absurd unfinished going
          · exact List.mem_append_right _ after

variable [RequestQueue η]

/-- What holds between two calls. -/
structure Rested (engine : ContinuousEngine η) : Prop where
  regular : (rest engine).Regular
  unfinished : ∀ active ∈ engine.active, active.generatedTokens < active.request.maxOutputTokens
  sequences : 0 < engine.config.maxBatchSequences
  prefills : 0 < engine.config.maxPrefillSequencesPerIteration

/-- A batch at rest is not empty after the first part of an iteration. -/
theorem Rested.started (rested : engine.Rested) (inhabited : engine.active ≠ []) :
    engine.admitAndComplete.2.active ≠ [] := by
  obtain ⟨first, member⟩ := List.exists_mem_of_ne_nil _ inhabited
  obtain ⟨new, active, _⟩ := extends_scanPending (PriorityQueue.size engine.begun.pending)
    engine.begun {}
  have admitted : first ∈ engine.begun.admitReady.2.active := by
    change first ∈ (scanPending _ engine.begun {}).1.active
    rw [active, active_begun]
    exact List.mem_append_left _ member
  exact List.ne_nil_of_mem
    (mem_completeFrom _ rfl admitted (rested.unfinished first member))

/-- An iteration without progress found nothing active and nothing ready. -/
theorem Rested.idle (rested : engine.Rested) (idle : engine.runOneIteration.1 = false) :
    engine.active = [] ∧ RequestQueue.popReady engine.pending engine.clock = none := by
  have invariant : engine.Invariant false := rested.regular.invariant
  obtain ⟨_, _, _, _, ⟨empty, early⟩ | ⟨_, _, _, _, progress⟩⟩ := runOneIteration_cases invariant
  · have none : engine.active = [] := by
      by_contra inhabited
      exact rested.started inhabited empty
    refine ⟨none, ?_⟩
    by_contra ready
    have any := invariant.admitAndComplete_progress none rested.sequences rested.prefills ready
    rw [early, any] at idle
    cases idle
  · rw [progress] at idle
    cases idle

/-- An iteration leaves no finished sequence in the batch. -/
theorem runOneIteration_unfinished (engine : ContinuousEngine η) :
    ∀ active ∈ engine.runOneIteration.2.active,
      active.generatedTokens < active.request.maxOutputTokens := by
  unfold ContinuousEngine.runOneIteration
  dsimp only
  split
  · next empty =>
      rw [empty]
      exact List.forall_mem_nil _
  · split
    · next failed =>
        have empty : engine.admitAndComplete.2.prepareDecodeBlocks.2.active = [] :=
          not_not.mp (of_decide_eq_false failed)
        dsimp only
        rw [empty]
        exact List.forall_mem_nil _
    · exact (completeFinished_steps _ {}).2

/-- An iteration leaves an engine rested, and no earlier than it was. -/
theorem Rested.runOneIteration (rested : engine.Rested) :
    engine.runOneIteration.2.Rested ∧ engine.Later engine.runOneIteration.2 := by
  have invariant : engine.Invariant false := rested.regular.invariant
  have steps := runOneIteration_steps invariant
  have config : engine.runOneIteration.2.config = engine.config :=
    (Steps.fixed steps invariant).1
  obtain ⟨regular, later⟩ := Steps.regular steps rested.regular
  refine ⟨⟨regular, runOneIteration_unfinished engine, ?_, ?_⟩, later⟩
  · rw [config]
    exact rested.sequences
  · rw [config]
    exact rested.prefills

/-- A turn of the loop of `RunUntilIdle` that has something to do; `false` ends the loop. -/
def idleRound (engine : ContinuousEngine η) : Bool × ContinuousEngine η :=
  let ran := engine.runOneIteration
  if ran.1 then (true, ran.2)
  else
    match RequestQueue.nextArrival ran.2.pending with
    | some arrival => (true, ran.2.awaitArrival arrival)
    | none => (false, ran.2)

theorem idleRound_of_progress (progress : engine.runOneIteration.1 = true) :
    engine.idleRound = (true, engine.runOneIteration.2) :=
  if_pos progress

theorem idleRound_of_none (idle : engine.runOneIteration.1 = false)
    (next : RequestQueue.nextArrival engine.runOneIteration.2.pending = none) :
    engine.idleRound = (false, engine.runOneIteration.2) := by
  unfold idleRound
  dsimp only
  rw [idle, next, if_neg Bool.false_ne_true]

/-- Without progress the engine waits for the next arrival. -/
theorem idleRound_of_some (idle : engine.runOneIteration.1 = false) {arrival : ℤ}
    (next : RequestQueue.nextArrival engine.runOneIteration.2.pending = some arrival) :
    engine.idleRound = (true, engine.runOneIteration.2.awaitArrival arrival) := by
  unfold idleRound
  dsimp only
  rw [idle, next, if_neg Bool.false_ne_true]

theorem runUntilIdle_succ (rounds : ℕ) (engine : ContinuousEngine η) :
    runUntilIdle (rounds + 1) engine =
      if engine.pendingCount = 0 ∧ engine.active = [] then some engine
      else if engine.idleRound.1 then runUntilIdle rounds engine.idleRound.2
      else some engine.idleRound.2 := by
  rw [runUntilIdle]
  dsimp only
  cases progress : engine.runOneIteration.1 with
  | true =>
      rw [idleRound_of_progress progress]
      rfl
  | false =>
      cases next : RequestQueue.nextArrival engine.runOneIteration.2.pending with
      | none => rw [idleRound_of_none progress next]
      | some arrival =>
          rw [idleRound_of_some progress next]
          rfl

/-- After an iteration without progress the next request has not arrived. -/
theorem Rested.arrival_gt (rested : engine.Rested) (idle : engine.runOneIteration.1 = false)
    {arrival : ℤ}
    (next : RequestQueue.nextArrival engine.runOneIteration.2.pending = some arrival) :
    engine.runOneIteration.2.clock < arrival := by
  obtain ⟨empty, unready⟩ := rested.idle idle
  rw [runOneIteration_idle empty unready] at next ⊢
  by_contra early
  have ready := RequestQueue.popReady_isSome next (Int.not_lt.mp early)
  rw [unready] at ready
  cases ready

/-- Waiting changes only the clock, and only forward. -/
theorem Rested.awaitArrival (rested : engine.Rested) (arrival : ℤ) :
    (engine.awaitArrival arrival).Rested ∧ engine.Later (engine.awaitArrival arrival) := by
  have forward : engine.clock ≤ (engine.awaitArrival arrival).clock := le_advance _ _
  obtain ⟨⟨invariant, stamped, budgeted, sized, limit, sane, started⟩, unfinished, sequences,
    prefills⟩ := rested
  have later : engine.Later (engine.awaitArrival arrival) := ⟨forward, le_rfl, by
    exact Int.add_le_add_right forward _⟩
  refine ⟨⟨⟨?_, stamped, budgeted.of_le rfl le_rfl le_rfl, sized, limit, sane, ?_⟩, unfinished,
    sequences, prefills⟩, later⟩
  · exact invariant.congr rfl rfl rfl rfl
  · exact ⟨started.1.trans forward, started.2⟩

/-- A round leaves an engine rested, and no earlier than it was. -/
theorem Rested.idleRound (rested : engine.Rested) :
    engine.idleRound.2.Rested ∧ engine.Later engine.idleRound.2 := by
  obtain ⟨ran, later⟩ := rested.runOneIteration
  unfold ContinuousEngine.idleRound
  dsimp only
  split
  · exact ⟨ran, later⟩
  · split
    · next arrival _ =>
        obtain ⟨waited, later'⟩ := ran.awaitArrival arrival
        exact ⟨waited, later.trans later'⟩
    · exact ⟨ran, later⟩

theorem Rested.runUntilIdle {final : ContinuousEngine η} {rounds : ℕ} (rested : engine.Rested)
    (ran : ContinuousEngine.runUntilIdle rounds engine = some final) : engine.Later final := by
  induction rounds generalizing engine with
  | zero => cases ran
  | succ rounds ih =>
      obtain ⟨next, later⟩ := rested.idleRound
      rw [runUntilIdle_succ] at ran
      split at ran
      · cases ran
        exact .refl _
      · split at ran
        · exact later.trans (ih next ran)
        · cases ran
          exact later

theorem Rested.submit (rested : engine.Rested) {request : EngineRequest}
    (sized : request.Sized) : (engine.submit request).Rested := by
  obtain ⟨⟨invariant, stamped, budgeted, others, limit, sane, started⟩, unfinished, sequences,
    prefills⟩ := rested
  refine ⟨⟨?_, stamped, budgeted.of_le rfl le_rfl le_rfl, ?_, limit, sane, started⟩, unfinished,
    sequences, prefills⟩
  · exact invariant.congr rfl rfl rfl rfl
  · intro other member
    rw [unanswered_submit, Multiset.mem_cons] at member
    rcases member with rfl | old
    · exact ⟨sized.prompt, sized.output⟩
    · exact others other old

theorem Rested.clearCaches (rested : engine.Rested) : engine.clearCaches.Rested := by
  obtain ⟨⟨invariant, stamped, budgeted, sized, limit, sane, started⟩, unfinished, sequences,
    prefills⟩ := rested
  refine ⟨⟨?_, ?_, budgeted.of_le rfl le_rfl le_rfl, sized, limit, sane, started⟩, unfinished,
    sequences, prefills⟩
  · exact (respond_invariant .clearCaches invariant).1
  · exact RadixPrefixCache.Stamped.clear _ engine.kvCache

end ContinuousEngine

/-! ### Runs -/

namespace Platform

open Moment

variable {η : Type} [RequestQueue η] {platform : Platform} {engine : ContinuousEngine η}

/-- A round faults exactly where it takes the time past the limit. -/
theorem idleRound_gives (rested : engine.Rested) (within : platform.Within engine) :
    Gives (platform.idleRound engine)
      (guarded (platform.Within engine.idleRound.2) engine.idleRound) := by
  obtain ⟨ran, _⟩ := rested.runOneIteration
  unfold idleRound
  cases progress : engine.runOneIteration.1 with
  | true =>
      rw [ContinuousEngine.idleRound_of_progress progress]
      refine (runOneIteration_gives rested.regular within).bind_guarded (fun fits => ?_) id
      rw [progress, if_pos rfl]
      exact .pure_guarded fits _
  | false =>
      cases next : RequestQueue.nextArrival engine.runOneIteration.2.pending with
      | none =>
          rw [ContinuousEngine.idleRound_of_none progress next]
          refine (runOneIteration_gives rested.regular within).bind_guarded (fun fits => ?_) id
          rw [progress, if_neg Bool.false_ne_true, next]
          exact .pure_guarded fits _
      | some arrival =>
          rw [ContinuousEngine.idleRound_of_some progress next]
          have future := rested.arrival_gt progress next
          refine (runOneIteration_gives rested.regular within).bind_guarded (fun fits => ?_)
            (fun last => last.of_later (ran.awaitArrival arrival).2)
          rw [progress, if_neg Bool.false_ne_true, next]
          exact (awaitArrival_gives ran.regular.started.1 fits future).bind_guarded
            (fun last => .pure_guarded last _) id

/-- `RunUntilIdle` on machine numbers ends as the exact one does, if the times at the end are
within the limit. -/
theorem runUntilIdle_gives {rounds : ℕ} {final : ContinuousEngine η} (rested : engine.Rested)
    (within : platform.Within engine)
    (ran : ContinuousEngine.runUntilIdle rounds engine = some final) :
    Gives (platform.runUntilIdle rounds engine)
      (guarded (platform.Within final) (some final)) := by
  induction rounds generalizing engine with
  | zero => cases ran
  | succ rounds ih =>
      obtain ⟨next, _⟩ := rested.idleRound
      rw [ContinuousEngine.runUntilIdle_succ] at ran
      rw [runUntilIdle]
      by_cases idle : engine.pendingCount = 0 ∧ engine.active = []
      · rw [if_pos idle] at ran ⊢
        cases ran
        exact .pure_guarded within _
      · rw [if_neg idle] at ran ⊢
        cases more : engine.idleRound.1 with
        | true =>
            rw [more, if_pos rfl] at ran
            refine (idleRound_gives rested within).bind_guarded (fun fits => ?_)
              (fun last => last.of_later (next.runUntilIdle ran))
            rw [more, if_pos rfl]
            exact ih next fits ran
        | false =>
            rw [more, if_neg Bool.false_ne_true] at ran
            cases ran
            refine (idleRound_gives rested within).bind_guarded (fun fits => ?_) id
            rw [more, if_neg Bool.false_ne_true]
            exact .pure_guarded fits _

/-- The engine after a call, in exact arithmetic. -/
def Call.exact : Call → ContinuousEngine η → ContinuousEngine η
  | .submit request, engine => engine.submit request
  | .runOneIteration, engine => engine.runOneIteration.2
  | .idleRound, engine =>
      if engine.pendingCount = 0 ∧ engine.active = [] then engine else engine.idleRound.2
  | .clearCaches, engine => engine.clearCaches

/-- The engine after a list of calls, in exact arithmetic. -/
def exactRun (calls : List Call) (engine : ContinuousEngine η) : ContinuousEngine η :=
  calls.foldl (fun engine call => call.exact engine) engine

/-- The requests that calls submit have token counts of 64 bits. -/
def Submits (calls : List Call) : Prop :=
  ∀ request, Call.submit request ∈ calls → request.Sized

theorem rested_exact {call : Call} (rested : engine.Rested)
    (sized : ∀ request, call = .submit request → request.Sized) :
    (call.exact engine).Rested ∧ engine.Later (call.exact engine) := by
  cases call with
  | submit request => exact ⟨rested.submit (sized request rfl), ⟨le_rfl, le_rfl, le_rfl⟩⟩
  | runOneIteration => exact rested.runOneIteration
  | idleRound =>
      rw [Call.exact]
      split
      · exact ⟨rested, .refl _⟩
      · exact rested.idleRound
  | clearCaches => exact ⟨rested.clearCaches, ⟨le_rfl, le_rfl, le_rfl⟩⟩

/-- Sized submissions keep the exact engine rested over all calls. -/
theorem rested_exactRun {calls : List Call} (rested : engine.Rested) (sized : Submits calls) :
    (exactRun calls engine).Rested ∧ engine.Later (exactRun calls engine) := by
  induction calls generalizing engine with
  | nil => exact ⟨rested, .refl engine⟩
  | cons call calls ih =>
      obtain ⟨next, later⟩ := rested_exact rested fun request isCall =>
        sized request (isCall ▸ List.mem_cons_self)
      obtain ⟨final, later'⟩ := ih next fun request member =>
        sized request (List.mem_cons_of_mem _ member)
      exact ⟨final, later.trans later'⟩

/-- A call faults exactly where it takes the time past the limit. -/
theorem respond_gives (call : Call) (rested : engine.Rested) (within : platform.Within engine) :
    Gives (platform.respond call engine)
      (guarded (platform.Within (call.exact engine)) (call.exact engine)) := by
  cases call with
  | submit request => exact .pure_guarded within _
  | runOneIteration =>
      exact (runOneIteration_gives rested.regular within).bind_guarded
        (fun fits => .pure_guarded fits _) id
  | idleRound =>
      rw [respond, Call.exact]
      by_cases idle : engine.pendingCount = 0 ∧ engine.active = []
      · simp only [if_pos idle]
        exact .pure_guarded within _
      · simp only [if_neg idle]
        exact (idleRound_gives rested within).bind_guarded (fun fits => .pure_guarded fits _) id
  | clearCaches => exact .pure_guarded within _

/-- A run on machine numbers is the exact run, as long as the times at its end are within
the limit. -/
theorem run_gives {calls : List Call} (rested : engine.Rested) (sized : Submits calls)
    (within : platform.Within engine) :
    Gives (platform.run calls engine)
      (guarded (platform.Within (exactRun calls engine)) (exactRun calls engine)) := by
  induction calls generalizing engine with
  | nil => exact .pure_guarded within _
  | cons call calls ih =>
      have others : Submits calls := fun request member =>
        sized request (List.mem_cons_of_mem _ member)
      obtain ⟨next, _⟩ := rested_exact rested fun request isCall =>
        sized request (isCall ▸ List.mem_cons_self)
      exact (respond_gives call rested within).bind_guarded (fun fits => ih next others fits)
        (fun last => last.of_later (rested_exactRun next others).2)

end Platform
end InferSched.Engine

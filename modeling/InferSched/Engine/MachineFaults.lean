import InferSched.Engine.MachineRuns

/-! # Faults of the machine engine

What can go wrong in a run of `ContinuousEngine` on machine numbers. The token arithmetic
never does: every subtraction is guarded, every division is by the block size, which the
constructor checks, and a request whose tokens do not fit is rejected before it is counted. Time
can: the cost model saturates each cost, and `FakeClock::Advance` adds them up without a
check. A run keeps time exactly when everything it charges to the clock adds up to a time
that the clock can hold.
-/

namespace InferSched.Engine

open Library Checked

/-! ### A platform -/

/-- The maps of the prefix cache in the order of the model. -/
def Traversal.unchanged : Traversal where
  present := id
  presents roots := ⟨roots, .refl _, List.forall₂_same.mpr fun root _ => ⟨rfl, .refl root.2⟩⟩

namespace Platform

/-- Time in 64 bits. -/
def standard : Platform where
  timeMax := 2 ^ 63 - 1
  order _ := .unchanged

/-- An engine with the default configuration. -/
def ordinary : ContinuousEngine (SelectionQueue EngineRequest) :=
  (ContinuousEngine.new (fun _ _ _ => 0) {}).toOption.get rfl

theorem new_ordinary : ContinuousEngine.new (fun _ _ _ => 0) {} = .ok ordinary :=
  rfl

theorem within_zero : JitterDraws.Within (fun _ _ _ => 0) := by
  intro seed magnitude count
  rw [abs_zero]
  exact Int.natCast_nonneg magnitude

end Platform

/-! ### Fresh engines -/

namespace ContinuousEngine

open Moment

variable {η : Type} [RequestQueue η]

/-- A fresh engine at time zero. -/
theorem Rested.new {draws : JitterDraws} {config : EngineConfig} {engine : ContinuousEngine η}
    (within : draws.Within) (limit : config.maxBatchTokens < 2 ^ sizeBits)
    (accepted : ContinuousEngine.new draws config = .ok engine) :
    engine.Rested ∧ engine.clock = 0 ∧ engine.stats.simulatedBusyTime = 0 := by
  obtain ⟨cost, _, _, _, _, isEngine⟩ := new_parts accepted
  obtain ⟨_, radix, isConfig, empty, _, pending, stats, _, sequences, prefills⟩ :=
    new_eq_ok accepted
  have clock : engine.clock = 0 := by
    rw [isEngine]
  have busy : engine.stats.simulatedBusyTime = 0 := by
    rw [stats]
  refine ⟨⟨⟨(Invariant.new accepted).1, .new radix, ⟨Nat.zero_le _, ?_⟩, ?_, ?_, .new within cost,
    clock.ge, busy.ge⟩, ?_, ?_, ?_⟩, clock, busy⟩
  · change 0 + engine.active.length ≤ _
    rw [empty]
    exact Nat.zero_le _
  · unfold unanswered rest
    dsimp only
    rw [empty, pending, PriorityQueue.elements_empty]
    exact fun _ member => absurd member (Multiset.notMem_zero _)
  · change engine.config.maxBatchTokens < _
    rw [isConfig]
    exact limit
  · rw [empty]
    exact List.forall_mem_nil _
  · rw [isConfig]
    exact sequences
  · rw [isConfig]
    exact prefills

end ContinuousEngine

namespace Platform

variable {η : Type} [RequestQueue η] {platform : Platform} {draws : JitterDraws}
  {config : EngineConfig} {start : ContinuousEngine η}

/-- In a run from a fresh engine the busy time is never ahead of the clock. -/
theorem within_exactRun (within : draws.Within) (limit : config.maxBatchTokens < 2 ^ sizeBits)
    (accepted : ContinuousEngine.new draws config = .ok start) {calls : List Call}
    (sized : Submits calls) :
    platform.Within (exactRun calls start) ↔
      (exactRun calls start).clock ≤ platform.timeMax := by
  obtain ⟨rested, clock, busy⟩ := ContinuousEngine.Rested.new within limit accepted
  have pace := (rested_exactRun rested sized).2.pace
  unfold Within
  omega

/-- A run from a fresh engine. -/
theorem run_new_gives (within : draws.Within) (limit : config.maxBatchTokens < 2 ^ sizeBits)
    (accepted : ContinuousEngine.new draws config = .ok start) {calls : List Call}
    (sized : Submits calls) :
    Gives (platform.run calls start)
      (guarded (platform.Within (exactRun calls start)) (exactRun calls start)) := by
  obtain ⟨rested, clock, busy⟩ := ContinuousEngine.Rested.new within limit accepted
  apply run_gives rested sized
  unfold Within
  rw [clock, busy]
  exact ⟨Int.natCast_nonneg _, Int.natCast_nonneg _⟩

/-- **Token arithmetic.** In no run of a continuous engine, whatever its requests, does an
unsigned operation on token counts wrap or a division by zero occur. -/
theorem tokens_never_wrap (platform : Platform) (within : draws.Within)
    (limit : config.maxBatchTokens < 2 ^ sizeBits)
    (accepted : ContinuousEngine.new draws config = .ok start) (calls : List Call)
    (sized : Submits calls) (count : ℕ) :
    platform.run calls start count ≠ .error .wrapped ∧
      platform.run calls start count ≠ .error .divideByZero := by
  have gives := @run_new_gives η _ platform _ _ _ within limit accepted _ sized
  constructor
  · apply gives.only_overflows
    decide
  · apply gives.only_overflows
    decide

/-- Calls that submit the largest token counts of 64 bits, and a request that runs. -/
def largest : List Call :=
  [.submit { requestId := ['a'], promptTokens := 2 ^ 64 - 1, maxOutputTokens := 2 ^ 64 - 1 },
    .submit { requestId := ['b'], promptTokens := 0, maxOutputTokens := 2 ^ 64 - 1 },
    .submit { requestId := ['c'], promptTokens := 40, maxOutputTokens := 2 },
    .idleRound, .idleRound]

theorem submits_largest : Submits largest := by
  unfold Submits largest
  simp only [List.mem_cons, List.not_mem_nil, or_false, Call.submit.injEq, reduceCtorEq]
  rintro request (rfl | rfl | rfl)
  · exact ⟨by decide, by decide⟩
  · exact ⟨by decide, by decide⟩
  · exact ⟨by decide, by decide⟩

/-- The large requests are rejected, the other one is answered. -/
theorem tokens_never_wrap_largest :
    ((exactRun largest ordinary).results.map fun result =>
      (result.requestId, result.succeeded)) = [(['a'], false), (['b'], false), (['c'], true)] ∧
    standard.run largest ordinary 0 ≠ .error .wrapped ∧
      standard.run largest ordinary 0 ≠ .error .divideByZero :=
  ⟨by decide +kernel,
    tokens_never_wrap standard within_zero (by decide) new_ordinary largest submits_largest 0⟩

/-! ### Time -/

/-- Along a run every call succeeds, so that no addition of time is out of range, and the clock
never moves back. -/
def KeepsTime (platform : Platform) (calls : List Call) (start : ContinuousEngine η) : Prop :=
  ∀ earlier call, earlier ++ [call] <+: calls → ∀ count, ∃ before last after final,
    platform.run earlier start count = .ok (before, last) ∧
      platform.respond call before last = .ok (after, final) ∧ before.clock ≤ after.clock

theorem run_append (earlier later : List Call) (engine : ContinuousEngine η) :
    platform.run (earlier ++ later) engine =
      platform.run earlier engine >>= platform.run later := by
  induction earlier generalizing engine with
  | nil => exact (pure_bind _ _).symm
  | cons call earlier ih =>
      rw [List.cons_append, run, run, bind_assoc]
      exact congrArg _ (funext ih)

theorem exactRun_append (earlier later : List Call) (engine : ContinuousEngine η) :
    exactRun (earlier ++ later) engine = exactRun later (exactRun earlier engine) :=
  List.foldl_append

/-- A run of one call more. -/
theorem run_concat {earlier : List Call} {call : Call} {count last final : ℕ}
    {before after : ContinuousEngine η}
    (ran : platform.run earlier start count = .ok (before, last))
    (responded : platform.respond call before last = .ok (after, final)) :
    platform.run (earlier ++ [call]) start count = .ok (after, final) := by
  rw [run_append]
  change (platform.run earlier start count >>= _) = _
  rw [ran]
  change (platform.respond call before last >>= _) = _
  rw [responded]
  rfl

/-- **Time.** A run keeps time exactly when what it charges to the clock, the cost of
every prefill and of every decode step and the waits for arrivals, adds up to a time that the
clock can hold. -/
theorem keepsTime_iff (platform : Platform) (within : draws.Within)
    (limit : config.maxBatchTokens < 2 ^ sizeBits)
    (accepted : ContinuousEngine.new draws config = .ok start) (calls : List Call)
    (sized : Submits calls) :
    platform.KeepsTime calls start ↔ (exactRun calls start).clock ≤ platform.timeMax := by
  obtain ⟨rested, clock, _⟩ := ContinuousEngine.Rested.new within limit accepted
  constructor
  · intro keeps
    rcases List.eq_nil_or_concat calls with rfl | ⟨earlier, call, rfl⟩
    · exact clock.trans_le (Int.natCast_nonneg _)
    · rw [List.concat_eq_append] at keeps sized ⊢
      obtain ⟨before, last, after, final, ran, responded, _⟩ :=
        keeps earlier call (List.prefix_refl _) 0
      have gives := @run_new_gives η _ platform _ _ _ within limit accepted _ sized 0
      rw [run_concat ran responded] at gives
      by_contra large
      rw [guarded_of_not (fun fits => large fits.1)] at gives
      cases gives
  · rintro fits earlier call ⟨later, rfl⟩ count
    have sizedNext : Submits (earlier ++ [call]) := fun request member =>
      sized request (List.mem_append_left _ member)
    have sizedEarlier : Submits earlier := fun request member =>
      sizedNext request (List.mem_append_left _ member)
    have sizedCall : ∀ request, call = .submit request → request.Sized := fun request isCall =>
      sizedNext request (List.mem_append_right _ (isCall ▸ List.mem_cons_self))
    obtain ⟨restedBefore, _⟩ := rested_exactRun rested sizedEarlier
    obtain ⟨restedAfter, forward⟩ := rested_exact restedBefore sizedCall
    obtain ⟨_, onward⟩ := rested_exactRun restedAfter fun request member =>
      sized request (List.mem_append_right _ member)
    rw [exactRun_append, exactRun_append] at fits
    have fitsAfter : platform.Within (call.exact (exactRun earlier start)) := by
      have same := @within_exactRun η _ platform _ _ _ within limit accepted _ sizedNext
      rw [exactRun_append] at same
      exact same.mpr (onward.clock.trans fits)
    have fitsBefore := fitsAfter.of_later forward
    have gives := @run_new_gives η _ platform _ _ _ within limit accepted _ sizedEarlier
    have responds := respond_gives call restedBefore fitsBefore
    rw [guarded_of fitsBefore] at gives
    rw [guarded_of fitsAfter] at responds
    obtain ⟨last, ran⟩ := gives.succeeds count
    obtain ⟨final, responded⟩ := responds.succeeds last
    exact ⟨_, last, _, final, ran, responded, forward.clock⟩

/-- The calls of two requests, the second of which arrives much later. -/
def apart : List Call :=
  [.submit { requestId := ['a'], promptTokens := 40, maxOutputTokens := 1 },
    .submit
      { requestId := ['b'], promptTokens := 40, maxOutputTokens := 1, arrivalTime := 2 ^ 62 },
    .idleRound, .idleRound, .idleRound]

theorem submits_apart : Submits apart := by
  unfold Submits apart
  simp only [List.mem_cons, List.not_mem_nil, or_false, Call.submit.injEq, reduceCtorEq]
  rintro request (rfl | rfl)
  · exact ⟨by decide, by decide⟩
  · exact ⟨by decide, by decide⟩

/-- Both requests are answered, and the wait between them fits into 64 bits. -/
theorem keepsTime_apart :
    (exactRun apart ordinary).results.length = 2 ∧ standard.KeepsTime apart ordinary :=
  ⟨by decide +kernel,
    (keepsTime_iff standard within_zero (by decide) new_ordinary apart submits_apart).mpr
      (by decide +kernel)⟩

/-! ### A clock that is full -/

/-- An engine whose prefills take all the time there is. -/
def slow : ContinuousEngine (SelectionQueue EngineRequest) :=
  (ContinuousEngine.new (fun _ _ _ => 0)
    { costModel := { prefillFixed := nanosecondsMax } }).toOption.get rfl

theorem new_slow : ContinuousEngine.new (fun _ _ _ => 0)
    { costModel := { prefillFixed := nanosecondsMax } } = .ok slow :=
  rfl

/-- The calls of one short request. -/
def single : List Call :=
  [.submit { requestId := ['a'], promptTokens := 1, maxOutputTokens := 1 }] ++ [.runOneIteration]

/-- The prefill fills the clock, and the decode step overflows it. -/
theorem clock_overflows :
    ContinuousEngine.new (fun _ _ _ => 0) { costModel := { prefillFixed := nanosecondsMax } } =
        .ok slow ∧
      (standard.run single slow 0).map (fun _ => ()) = .error .overflowed ∧
      ¬ standard.KeepsTime single slow := by
  have fault : (standard.run single slow 0).map (fun _ => ()) = .error .overflowed := by
    decide +kernel
  refine ⟨new_slow, fault, ?_⟩
  intro keeps
  obtain ⟨before, last, after, final, ran, responded, _⟩ := keeps _ _ (List.prefix_refl _) 0
  have result : standard.run single slow 0 = _ := run_concat ran responded
  rw [result] at fault
  cases fault

end Platform
end InferSched.Engine

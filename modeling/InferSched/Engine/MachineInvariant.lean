import Mathlib.Algebra.Order.Ring.Int
import InferSched.Engine.AccessStamps
import InferSched.Engine.Conservation
import InferSched.Engine.TokenBudget

/-! # What the machine numbers rely on

`Moment.Regular` collects what keeps the arithmetic of an iteration in range: the invariant of
the engine, the token budget of the scan, token counts that a `std::size_t` holds, and costs
that are not negative. The last rests on the cost model being accepted and on the numbers
drawn for jitter being within the magnitude asked for, as `std::uniform_int_distribution`
gives them. Every elementary step keeps it, and no step moves the clock or the busy time
back.
-/

namespace InferSched.Engine

open Library

/-- Token counts that a `std::size_t` holds. -/
structure EngineRequest.Sized (request : EngineRequest) : Prop where
  prompt : request.promptTokens < 2 ^ sizeBits
  output : request.maxOutputTokens < 2 ^ sizeBits

/-- Draws within the magnitude they are drawn for. -/
def JitterDraws.Within (draws : JitterDraws) : Prop :=
  ∀ seed magnitude count, |draws seed magnitude count| ≤ magnitude

namespace CostModel

/-- What the constructor checks, and what the distribution gives. -/
structure Sane (model : CostModel) : Prop where
  prefillFixed : 0 ≤ model.config.prefillFixed
  prefillPerToken : 0 ≤ model.config.prefillPerToken
  decodeFixed : 0 ≤ model.config.decodeFixed
  decodePerSequence : 0 ≤ model.config.decodePerSequence
  jitter : model.config.jitterBasisPoints ≤ 10000
  draws : model.draws.Within

theorem Sane.new {config : CostModelConfig} {seed : ℕ} {draws : JitterDraws} {model : CostModel}
    (within : draws.Within) (accepted : CostModel.new config seed draws = .ok model) :
    model.Sane := by
  unfold CostModel.new at accepted
  split at accepted
  · cases accepted
  · next valid =>
      cases accepted
      simp only [not_or, Int.not_lt, gt_iff_lt, Nat.not_lt] at valid
      obtain ⟨prefillFixed, prefillPerToken, decodeFixed, decodePerSequence, jitter⟩ := valid
      exact ⟨prefillFixed, prefillPerToken, decodeFixed, decodePerSequence, jitter, within⟩

theorem saturatingCost_nonneg {fixed perUnit : ℤ} (units : ℕ) (fixedNonneg : 0 ≤ fixed)
    (perUnitNonneg : 0 ≤ perUnit) : 0 ≤ saturatingCost fixed perUnit units := by
  unfold saturatingCost
  split
  · decide
  · exact add_nonneg fixedNonneg (mul_nonneg perUnitNonneg (Int.natCast_nonneg units))

/-- A delta of at most ten thousand basis points is at most the base. -/
theorem delta_le {base magnitude : ℤ} (baseNonneg : 0 ≤ base) (small : magnitude ≤ 10000) :
    base / 10000 * magnitude + base % 10000 * magnitude / 10000 ≤ base := by
  have quotient : base / 10000 * magnitude ≤ base / 10000 * 10000 :=
    mul_le_mul_of_nonneg_left small (Int.ediv_nonneg baseNonneg (by decide))
  have remainder : base % 10000 * magnitude ≤ base % 10000 * 10000 :=
    mul_le_mul_of_nonneg_left small (Int.emod_nonneg base (by decide))
  have whole := Int.mul_ediv_add_emod base 10000
  omega

/-- Jitter keeps a cost nonnegative and the model sane. -/
theorem Sane.applyJitter {model : CostModel} (sane : model.Sane) {base : ℤ}
    (baseNonneg : 0 ≤ base) :
    0 ≤ (model.applyJitter base).1 ∧ (model.applyJitter base).2.Sane := by
  have drawn : Sane { model with drawn := model.drawn + 1 } :=
    ⟨sane.prefillFixed, sane.prefillPerToken, sane.decodeFixed, sane.decodePerSequence,
      sane.jitter, sane.draws⟩
  have bound := sane.draws model.seed model.config.jitterBasisPoints model.drawn
  have jitter := sane.jitter
  unfold CostModel.applyJitter
  split
  · exact ⟨baseNonneg, sane⟩
  · dsimp only
    split
    · next negative =>
        refine ⟨?_, drawn⟩
        have small : -(model.draws model.seed model.config.jitterBasisPoints model.drawn) ≤
            10000 := by
          rw [abs_of_neg negative] at bound
          omega
        have delta := delta_le baseNonneg small
        exact Int.sub_nonneg.mpr delta
    · next nonnegative =>
        split
        · exact ⟨(by decide : 0 ≤ nanosecondsMax), drawn⟩
        · refine ⟨?_, drawn⟩
          have draw := Int.not_lt.mp nonnegative
          have quotient :=
            mul_nonneg (Int.ediv_nonneg baseNonneg (by decide : (0 : ℤ) ≤ 10000)) draw
          have remainder := Int.ediv_nonneg (mul_nonneg
            (Int.emod_nonneg base (by decide : (10000 : ℤ) ≠ 0)) draw)
            (by decide : (0 : ℤ) ≤ 10000)
          exact add_nonneg baseNonneg (add_nonneg quotient remainder)

theorem Sane.prefillCost {model : CostModel} (sane : model.Sane) (tokens : ℕ) :
    0 ≤ (model.prefillCost tokens).1 ∧ (model.prefillCost tokens).2.Sane :=
  sane.applyJitter (saturatingCost_nonneg tokens sane.prefillFixed sane.prefillPerToken)

theorem Sane.decodeStep {model : CostModel} (sane : model.Sane) (sequences : ℕ) :
    0 ≤ (model.decodeStep sequences).1 ∧ (model.decodeStep sequences).2.Sane :=
  sane.applyJitter (saturatingCost_nonneg sequences sane.decodeFixed sane.decodePerSequence)

end CostModel

namespace ContinuousEngine

variable {η : Type}

/-- An admission pays one prefill. -/
theorem admitCandidate_time (engine : ContinuousEngine η) (candidate : EngineRequest)
    (matched : Option (List BlockId)) : ∃ tokens,
      (engine.admitCandidate candidate matched).costModel =
        (engine.costModel.prefillCost tokens).2 ∧
      (engine.admitCandidate candidate matched).clock =
        advance engine.clock (engine.costModel.prefillCost tokens).1 ∧
      (engine.admitCandidate candidate matched).stats.simulatedBusyTime =
        engine.stats.simulatedBusyTime + (engine.costModel.prefillCost tokens).1 := by
  unfold admitCandidate accountPrefix runPrefill cachePrompt activate
  dsimp only
  split
  · split
    · exact ⟨_, rfl, rfl, rfl⟩
    · exact ⟨_, rfl, rfl, rfl⟩
  · split
    · exact ⟨_, rfl, rfl, rfl⟩
    · exact ⟨_, rfl, rfl, rfl⟩

/-- The clock and the busy time have not moved back, and the clock has moved at least as
far. -/
structure Later (engine next : ContinuousEngine η) : Prop where
  clock : engine.clock ≤ next.clock
  busy : engine.stats.simulatedBusyTime ≤ next.stats.simulatedBusyTime
  pace : engine.clock + next.stats.simulatedBusyTime ≤
    next.clock + engine.stats.simulatedBusyTime

theorem Later.refl (engine : ContinuousEngine η) : engine.Later engine :=
  ⟨le_rfl, le_rfl, le_rfl⟩

theorem Later.trans {first second third : ContinuousEngine η} (one : first.Later second)
    (two : second.Later third) : first.Later third := by
  refine ⟨one.clock.trans two.clock, one.busy.trans two.busy, ?_⟩
  have pace := one.pace
  have pace' := two.pace
  omega

/-- A cost that is not negative is paid. -/
theorem Later.pay {engine next : ContinuousEngine η} {cost : ℤ} (nonnegative : 0 ≤ cost)
    (clock : next.clock = advance engine.clock cost)
    (busy : next.stats.simulatedBusyTime = engine.stats.simulatedBusyTime + cost) :
    engine.Later next := by
  have paid : next.clock = engine.clock + cost := by
    rw [clock]
    unfold advance
    split
    · rfl
    · omega
  refine ⟨?_, ?_, ?_⟩
  · omega
  · omega
  · rw [paid, busy]
    omega

end ContinuousEngine

namespace Moment

variable {η : Type} [RequestQueue η]

/-- What keeps the arithmetic in range. -/
structure Regular (moment : Moment η) : Prop where
  invariant : moment.engine.Invariant moment.preparing
  stamped : moment.engine.prefixCache.Stamped
  budgeted : moment.Budgeted
  sized : ∀ request ∈ moment.unanswered, request.Sized
  limit : moment.engine.config.maxBatchTokens < 2 ^ sizeBits
  sane : moment.engine.costModel.Sane
  started : 0 ≤ moment.engine.clock ∧ 0 ≤ moment.engine.stats.simulatedBusyTime

/-- No step moves time back, and the cost model stays sane. -/
theorem Step.later {before after : Moment η} (step : Step before after)
    (sane : before.engine.costModel.Sane) :
    before.engine.Later after.engine ∧ after.engine.costModel.Sane := by
  cases step with
  | forgive empty => exact ⟨⟨le_rfl, le_rfl, le_rfl⟩, sane⟩
  | pop room popped => exact ⟨⟨le_rfl, le_rfl, le_rfl⟩, sane⟩
  | reject impossible => exact ⟨⟨le_rfl, le_rfl, le_rfl⟩, sane⟩
  | answer possible found => exact ⟨⟨le_rfl, le_rfl, le_rfl⟩, sane⟩
  | miss possible missing => exact ⟨⟨le_rfl, le_rfl, le_rfl⟩, sane⟩
  | touch =>
      unfold ContinuousEngine.matchPrefix
      split
      · exact ⟨.refl _, sane⟩
      · exact ⟨⟨le_rfl, le_rfl, le_rfl⟩, sane⟩
  | evict evicted => exact ⟨⟨le_rfl, le_rfl, le_rfl⟩, sane⟩
  | @admission engine scan candidate matched possible room forgiven budget longest allocated =>
      obtain ⟨tokens, model, clock, busy⟩ := ContinuousEngine.admitCandidate_time
        { engine with
          kvCache := (engine.kvCache.allocate candidate.requestId
            (engine.promptBlocks candidate) (matched.getD [])).2 } candidate matched
      obtain ⟨nonnegative, still⟩ := sane.prefillCost tokens
      refine ⟨.pay nonnegative clock busy, ?_⟩
      rw [model]
      exact still
  | requeue engine scan => exact ⟨⟨le_rfl, le_rfl, le_rfl⟩, sane⟩
  | complete split finished => exact ⟨⟨le_rfl, le_rfl, le_rfl⟩, sane⟩
  | prepare nothing unfinished => exact ⟨.refl _, sane⟩
  | grow member short appended => exact ⟨⟨le_rfl, le_rfl, le_rfl⟩, sane⟩
  | preempt member short scarce unpinned =>
      unfold ContinuousEngine.preempt
      split
      · exact ⟨.refl _, sane⟩
      · exact ⟨⟨le_rfl, le_rfl, le_rfl⟩, sane⟩
  | @decode engine scan inhabited prepared =>
      obtain ⟨nonnegative, still⟩ := sane.decodeStep engine.active.length
      exact ⟨.pay nonnegative rfl rfl, still⟩
  | close nothing => exact ⟨.refl _, sane⟩

theorem Step.regular {before after : Moment η} (step : Step before after)
    (regular : before.Regular) : after.Regular := by
  obtain ⟨later, sane⟩ := step.later regular.sane
  have config := (step.fixed regular.invariant).1
  refine ⟨step.invariant regular.invariant, step.stamped regular.stamped,
    step.budgeted regular.invariant regular.budgeted, ?_, ?_, sane, ?_⟩
  · intro request member
    exact regular.sized request
      (Multiset.mem_of_le (step.answers regular.invariant).unanswered_le member)
  · rw [config]
    exact regular.limit
  · exact ⟨regular.started.1.trans later.clock, regular.started.2.trans later.busy⟩

theorem Steps.regular {before after : Moment η} (steps : Steps before after)
    (regular : before.Regular) : after.Regular ∧ before.engine.Later after.engine := by
  induction steps with
  | refl => exact ⟨regular, .refl _⟩
  | tail _ step ih =>
      obtain ⟨still, later⟩ := ih
      exact ⟨step.regular still, later.trans (step.later still.sane).1⟩

end Moment
end InferSched.Engine

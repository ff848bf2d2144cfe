import Mathlib.Algebra.Group.Int.Defs
import InferSched.Engine.Request

/-! # The cost model

`DeterministicCostModel` (`cost_model.cpp`), in nanoseconds. The pseudo-random
generator and its uniform distribution are the standard library's: `draws seed
magnitude` is the sequence of numbers they give between `-magnitude` and
`magnitude`, and `drawn` counts how many were taken.
-/

namespace InferSched.Engine

/-- `std::chrono::nanoseconds::max()`. -/
def nanosecondsMax : ℤ := 2 ^ 63 - 1

/-- The numbers the seeded generator draws for a magnitude. -/
abbrev JitterDraws := ℕ → ℕ → ℕ → ℤ

/-- The configured costs, with the seeded generator and how many draws were taken of it. -/
structure CostModel where
  config : CostModelConfig
  seed : ℕ
  draws : JitterDraws
  drawn : ℕ := 0

namespace CostModel

/-- The constructor, with the message of the exception it throws. -/
def new (config : CostModelConfig) (seed : ℕ) (draws : JitterDraws) : Except Text CostModel :=
  if config.prefillFixed < 0 ∨ config.prefillPerToken < 0 ∨ config.decodeFixed < 0 ∨
      config.decodePerSequence < 0 ∨ config.jitterBasisPoints > 10000 then
    .error "invalid cost model configuration".toList
  else .ok { config, seed, draws }

/-- A fixed cost and one for each unit, at most the largest duration. -/
def saturatingCost (fixed perUnit : ℤ) (units : ℕ) : ℤ :=
  if perUnit > 0 ∧ (units : ℤ) > (nanosecondsMax - fixed) / perUnit then nanosecondsMax
  else fixed + perUnit * units

/-- A cost moved by one draw, kept between zero and the largest duration. -/
def applyJitter (model : CostModel) (base : ℤ) : ℤ × CostModel :=
  if model.config.jitterBasisPoints = 0 ∨ base = nanosecondsMax then (base, model)
  else
    let adjustment := model.draws model.seed model.config.jitterBasisPoints model.drawn
    let drawn := { model with drawn := model.drawn + 1 }
    let magnitude := if adjustment < 0 then -adjustment else adjustment
    let delta := base / 10000 * magnitude + base % 10000 * magnitude / 10000
    if adjustment < 0 then (base - delta, drawn)
    else if delta > nanosecondsMax - base then (nanosecondsMax, drawn)
    else (base + delta, drawn)

/-- The time of a prefill over the prompt tokens that the prefix cache does not hold. -/
def prefillCost (model : CostModel) (uncachedPromptTokens : ℕ) : ℤ × CostModel :=
  model.applyJitter
    (saturatingCost model.config.prefillFixed model.config.prefillPerToken uncachedPromptTokens)

/-- The time of one decode step of a batch. -/
def decodeStep (model : CostModel) (activeSequences : ℕ) : ℤ × CostModel :=
  model.applyJitter
    (saturatingCost model.config.decodeFixed model.config.decodePerSequence activeSequences)

end CostModel
end InferSched.Engine

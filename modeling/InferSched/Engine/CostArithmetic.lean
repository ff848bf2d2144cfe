import InferSched.Engine.MachineInvariant
import InferSched.Library.Checked

/-! # The cost model on machine numbers

`Prefill` and `DecodeStep` with every sum, product and quotient checked at 64 bits and with
the conversions between signed and unsigned numbers as the machine makes them. For an
accepted configuration nothing leaves the range, and the cost is the exact one, cut off at
the largest number (`CostModel.exactCost`).
-/

namespace InferSched.Engine

open Library

/-- The durations are numbers of the source's type. -/
structure CostModelConfig.InRange (config : CostModelConfig) : Prop where
  prefillFixed : config.prefillFixed ≤ nanosecondsMax
  prefillPerToken : config.prefillPerToken ≤ nanosecondsMax
  decodeFixed : config.decodeFixed ≤ nanosecondsMax
  decodePerSequence : config.decodePerSequence ≤ nanosecondsMax

namespace CostModel

/-! ### The functions on machine numbers -/

/-- An operation on 64-bit signed numbers, given by its exact result. -/
def int64 (exact : ℤ) : Checked ℤ :=
  Checked.signed int64Max exact

/-- The conversion of a signed number to `std::size_t`. -/
def toSize (value : ℤ) : ℕ :=
  (value % 2 ^ sizeBits).toNat

/-- The conversion of a `std::size_t` to a signed number. -/
def toRep (units : ℕ) : ℤ :=
  if units ≤ int64Max then units else units - 2 ^ sizeBits

/-- The test of `SaturatingCost`. -/
def saturates (fixed perUnit : ℤ) (units : ℕ) : Checked Bool :=
  if perUnit > 0 then do
    let room ← int64 (nanosecondsMax - fixed)
    let limit ← int64 (room.tdiv perUnit)
    pure (decide (units > toSize limit))
  else pure false

/-- `SaturatingCost` with every operation on 64 bits. -/
def saturatingCostChecked (fixed perUnit : ℤ) (units : ℕ) : Checked ℤ := do
  if ← saturates fixed perUnit units then pure nanosecondsMax
  else
    let product ← int64 (perUnit * toRep units)
    int64 (fixed + product)

/-- The absolute value that `ApplyJitter` takes of a draw. -/
def magnitudeChecked (adjustment : ℤ) : Checked ℤ :=
  if adjustment < 0 then int64 (-adjustment) else pure adjustment

/-- The delta of `ApplyJitter`. -/
def deltaChecked (base adjustment : ℤ) : Checked ℤ := do
  let quotient ← int64 (base.tdiv 10000)
  let remainder ← int64 (base.tmod 10000)
  let magnitude ← magnitudeChecked adjustment
  let whole ← int64 (quotient * magnitude)
  let product ← int64 (remainder * magnitude)
  let part ← int64 (product.tdiv 10000)
  int64 (whole + part)

/-- `ApplyJitter` with every operation on 64 bits. -/
def applyJitterChecked (model : CostModel) (base : ℤ) : Checked (ℤ × CostModel) :=
  if model.config.jitterBasisPoints = 0 ∨ base = nanosecondsMax then pure (base, model)
  else do
    let _ ← int64 (-(model.config.jitterBasisPoints : ℤ))
    let adjustment := model.draws model.seed model.config.jitterBasisPoints model.drawn
    let drawn := { model with drawn := model.drawn + 1 }
    let delta ← deltaChecked base adjustment
    if adjustment < 0 then
      let cost ← int64 (base - delta)
      pure (cost, drawn)
    else
      let room ← int64 (nanosecondsMax - base)
      if delta > room then pure (nanosecondsMax, drawn)
      else
        let cost ← int64 (base + delta)
        pure (cost, drawn)

/-- `PrefillCost` with every operation on 64 bits. -/
def prefillCostChecked (model : CostModel) (uncachedPromptTokens : ℕ) :
    Checked (ℤ × CostModel) := do
  let base ← saturatingCostChecked model.config.prefillFixed model.config.prefillPerToken
    uncachedPromptTokens
  model.applyJitterChecked base

/-- `DecodeStep` with every operation on 64 bits. -/
def decodeStepChecked (model : CostModel) (activeSequences : ℕ) : Checked (ℤ × CostModel) := do
  let base ← saturatingCostChecked model.config.decodeFixed model.config.decodePerSequence
    activeSequences
  model.applyJitterChecked base

/-! ### Costs over the integers -/

/-- The cost of a number of units with an adjustment in basis points. -/
def exactCost (fixed perUnit : ℤ) (units jitterBasisPoints : ℕ) (adjustment : ℤ) : ℤ :=
  let base := fixed + perUnit * units
  if nanosecondsMax ≤ base ∨ jitterBasisPoints = 0 then min nanosecondsMax base
  else if adjustment < 0 then base - base * |adjustment| / 10000
  else min nanosecondsMax (base + base * |adjustment| / 10000)

/-- The quotient and the remainder of a base take the same share as the whole base. -/
theorem share_eq (base magnitude : ℤ) :
    base / 10000 * magnitude + base % 10000 * magnitude / 10000 = base * magnitude / 10000 := by
  have split : base * magnitude = base / 10000 * magnitude * 10000 + base % 10000 * magnitude := by
    calc base * magnitude = (10000 * (base / 10000) + base % 10000) * magnitude := by
          rw [Int.mul_ediv_add_emod]
      _ = base / 10000 * magnitude * 10000 + base % 10000 * magnitude := by ring
  rw [split, Int.mul_add_ediv_right _ _ (by decide)]

theorem int64_gives {exact : ℤ} (least : 0 ≤ exact) (most : exact ≤ nanosecondsMax) :
    Checked.Gives (int64 exact) (.ok exact) :=
  .signed_within (le_trans (by decide) least) most

/-- The saturation test says whether the cost passes the largest number. -/
theorem units_gt_iff {fixed perUnit : ℤ} (units : ℕ) (positive : 0 < perUnit) :
    (units : ℤ) > (nanosecondsMax - fixed) / perUnit ↔
      nanosecondsMax < fixed + perUnit * units := by
  rw [gt_iff_lt, Int.ediv_lt_iff_lt_mul positive, mul_comm]
  exact sub_lt_iff_lt_add'

theorem saturatingCost_eq_min {fixed perUnit : ℤ} (units : ℕ) (fixedLe : fixed ≤ nanosecondsMax)
    (perUnitNonneg : 0 ≤ perUnit) :
    saturatingCost fixed perUnit units = min nanosecondsMax (fixed + perUnit * units) := by
  unfold saturatingCost
  split
  · next beyond => exact (min_eq_left (le_of_lt ((units_gt_iff units beyond.1).mp beyond.2))).symm
  · next within =>
      refine (min_eq_right (not_lt.mp fun beyond => ?_)).symm
      rcases eq_or_lt_of_le perUnitNonneg with zero | positive
      · rw [← zero, zero_mul, add_zero] at beyond
        exact absurd beyond (not_lt.mpr fixedLe)
      · exact within ⟨positive, (units_gt_iff units positive).mpr beyond⟩

theorem toSize_eq {value : ℤ} (least : 0 ≤ value) (most : value ≤ nanosecondsMax) :
    (toSize value : ℤ) = value := by
  have wide : nanosecondsMax < 2 ^ sizeBits := by decide
  rw [toSize, Int.emod_eq_of_lt least (most.trans_lt wide), Int.toNat_of_nonneg least]

theorem saturates_gives {fixed perUnit : ℤ} (units : ℕ) (fixedNonneg : 0 ≤ fixed)
    (fixedLe : fixed ≤ nanosecondsMax) :
    Checked.Gives (saturates fixed perUnit units)
      (.ok (decide (0 < perUnit ∧ nanosecondsMax < fixed + perUnit * units))) := by
  unfold saturates
  split
  · next positive =>
      have roomNonneg : 0 ≤ nanosecondsMax - fixed := sub_nonneg.mpr fixedLe
      have roomLe : nanosecondsMax - fixed ≤ nanosecondsMax := sub_le_self _ fixedNonneg
      have limit := Int.tdiv_eq_ediv_of_nonneg (b := perUnit) roomNonneg
      have limitNonneg : 0 ≤ (nanosecondsMax - fixed) / perUnit :=
        Int.ediv_nonneg roomNonneg (le_of_lt positive)
      have limitLe := (Int.ediv_le_self perUnit roomNonneg).trans roomLe
      refine .bind (int64_gives roomNonneg roomLe) ?_
      rw [limit]
      refine .bind (int64_gives limitNonneg limitLe) ?_
      have test : units > toSize ((nanosecondsMax - fixed) / perUnit) ↔
          0 < perUnit ∧ nanosecondsMax < fixed + perUnit * units := by
        rw [← units_gt_iff units positive, gt_iff_lt, ← Int.ofNat_lt, toSize_eq limitNonneg limitLe]
        exact (and_iff_right positive).symm
      rw [decide_eq_decide.mpr test]
      exact .pure _
  · next zero =>
      rw [decide_eq_false fun both => zero both.1]
      exact .pure false

theorem saturatingCostChecked_gives {fixed perUnit : ℤ} {units : ℕ} (fixedNonneg : 0 ≤ fixed)
    (fixedLe : fixed ≤ nanosecondsMax) (perUnitNonneg : 0 ≤ perUnit) :
    Checked.Gives (saturatingCostChecked fixed perUnit units)
      (.ok (saturatingCost fixed perUnit units)) := by
  refine .bind (saturates_gives units fixedNonneg fixedLe) ?_
  rw [saturatingCost_eq_min units fixedLe perUnitNonneg]
  by_cases beyond : 0 < perUnit ∧ nanosecondsMax < fixed + perUnit * units
  · rw [if_pos (decide_eq_true beyond), min_eq_left (le_of_lt beyond.2)]
    exact .pure _
  · rw [if_neg (by rw [decide_eq_false beyond]; exact Bool.false_ne_true)]
    have within : fixed + perUnit * units ≤ nanosecondsMax := by
      rcases eq_or_lt_of_le perUnitNonneg with zero | positive
      · rw [← zero, zero_mul, add_zero]
        exact fixedLe
      · exact not_lt.mp fun more => beyond ⟨positive, more⟩
    -- A number of units that is too large for a signed number is multiplied by zero only.
    have product : perUnit * toRep units = perUnit * units := by
      rcases eq_or_lt_of_le perUnitNonneg with zero | positive
      · rw [← zero, zero_mul, zero_mul]
      · have fewer : (units : ℤ) ≤ perUnit * units :=
          le_mul_of_one_le_left (Int.natCast_nonneg units) positive
        have most : (units : ℤ) ≤ (int64Max : ℤ) := by
          refine fewer.trans (le_trans ?_ within)
          exact le_add_of_nonneg_left fixedNonneg
        rw [toRep, if_pos (Int.ofNat_le.mp most)]
    rw [product, min_eq_right within]
    have productNonneg := mul_nonneg perUnitNonneg (Int.natCast_nonneg units)
    exact .bind (int64_gives productNonneg (le_trans (by omega) within))
      (int64_gives (add_nonneg fixedNonneg productNonneg) within)

/-! ### Jitter -/

/-- The share that the adjustment takes is at most the base, as are its parts. -/
theorem share_bounds {base magnitude : ℤ} (baseNonneg : 0 ≤ base)
    (magnitudeNonneg : 0 ≤ magnitude) (small : magnitude ≤ 10000) :
    0 ≤ base / 10000 * magnitude ∧ 0 ≤ base % 10000 * magnitude ∧
      base % 10000 * magnitude ≤ 100000000 ∧ base / 10000 * magnitude ≤ base ∧
      base * magnitude / 10000 ≤ base ∧ 0 ≤ base * magnitude / 10000 := by
  have quotient : 0 ≤ base / 10000 * magnitude :=
    mul_nonneg (Int.ediv_nonneg baseNonneg (by decide)) magnitudeNonneg
  have remainder : 0 ≤ base % 10000 * magnitude :=
    mul_nonneg (Int.emod_nonneg base (by decide)) magnitudeNonneg
  have rest : base % 10000 * magnitude ≤ 10000 * 10000 :=
    mul_le_mul (le_of_lt (Int.emod_lt_of_pos base (by decide))) small magnitudeNonneg (by decide)
  have whole := delta_le baseNonneg small
  have equal := share_eq base magnitude
  have part : 0 ≤ base % 10000 * magnitude / 10000 := Int.ediv_nonneg remainder (by decide)
  exact ⟨quotient, remainder, rest, by omega, by omega, by omega⟩

theorem magnitudeChecked_gives {adjustment : ℤ} (small : |adjustment| ≤ 10000) :
    Checked.Gives (magnitudeChecked adjustment) (.ok |adjustment|) := by
  unfold magnitudeChecked
  split
  · next negative =>
      rw [abs_of_neg negative] at small ⊢
      exact int64_gives (by omega) (small.trans (by decide))
  · next nonnegative =>
      rw [abs_of_nonneg (not_lt.mp nonnegative)]
      exact .pure _

theorem deltaChecked_gives {base adjustment : ℤ} (baseNonneg : 0 ≤ base)
    (baseLe : base ≤ nanosecondsMax) (small : |adjustment| ≤ 10000) :
    Checked.Gives (deltaChecked base adjustment) (.ok (base * |adjustment| / 10000)) := by
  obtain ⟨quotient, remainder, rest, whole, share, shareNonneg⟩ :=
    share_bounds baseNonneg (abs_nonneg adjustment) small
  have part : 0 ≤ base % 10000 * |adjustment| / 10000 := Int.ediv_nonneg remainder (by decide)
  have parts := share_eq base |adjustment|
  have large : (100000000 : ℤ) ≤ nanosecondsMax := by decide
  unfold deltaChecked
  rw [Int.tdiv_eq_ediv_of_nonneg baseNonneg, Int.tmod_eq_emod_of_nonneg baseNonneg]
  refine .bind (int64_gives (by omega) (by omega)) ?_
  refine .bind (int64_gives (by omega) (by omega)) ?_
  refine .bind (magnitudeChecked_gives small) ?_
  refine .bind (int64_gives quotient (whole.trans baseLe)) ?_
  refine .bind (int64_gives remainder (rest.trans large)) ?_
  rw [Int.tdiv_eq_ediv_of_nonneg remainder]
  refine .bind (int64_gives part (by omega)) ?_
  rw [parts]
  exact int64_gives shareNonneg (share.trans baseLe)

/-- The share that the model takes is that of the adjustment's magnitude. -/
theorem delta_eq (base adjustment : ℤ) :
    base / 10000 * (if adjustment < 0 then -adjustment else adjustment) +
      base % 10000 * (if adjustment < 0 then -adjustment else adjustment) / 10000 =
        base * |adjustment| / 10000 := by
  have magnitude : (if adjustment < 0 then -adjustment else adjustment) = |adjustment| := by
    split
    · next negative => exact (abs_of_neg negative).symm
    · next nonnegative => exact (abs_of_nonneg (not_lt.mp nonnegative)).symm
  rw [magnitude, share_eq]

theorem applyJitterChecked_gives {model : CostModel} {base : ℤ} (baseNonneg : 0 ≤ base)
    (baseLe : base ≤ nanosecondsMax) (jitter : model.config.jitterBasisPoints ≤ 10000)
    (bound : |model.draws model.seed model.config.jitterBasisPoints model.drawn| ≤
      model.config.jitterBasisPoints) :
    Checked.Gives (model.applyJitterChecked base) (.ok (model.applyJitter base)) := by
  unfold applyJitterChecked applyJitter
  split
  · exact .pure _
  · dsimp only
    generalize model.draws model.seed model.config.jitterBasisPoints model.drawn = adjustment
      at bound
    have small : |adjustment| ≤ 10000 := bound.trans (by omega)
    obtain ⟨-, -, -, -, share, shareNonneg⟩ := share_bounds baseNonneg (abs_nonneg adjustment) small
    have least : -(int64Max : ℤ) - 1 ≤ -10000 := by decide
    have most : (0 : ℤ) ≤ int64Max := by decide
    rw [delta_eq]
    refine .bind (.signed_within (least.trans (by omega)) (le_trans (by omega) most)) ?_
    refine .bind (deltaChecked_gives baseNonneg baseLe small) ?_
    split
    · exact .bind (int64_gives (by omega) (by omega)) (.pure _)
    · refine .bind (int64_gives (by omega) (by omega)) ?_
      split
      · exact .pure _
      · exact .bind (int64_gives (by omega) (by omega)) (.pure _)

/-- The jitter on a cost that was cut off at the largest number. -/
theorem applyJitter_eq {model : CostModel} (exact : ℤ) {adjustment : ℤ}
    (draws : model.draws model.seed model.config.jitterBasisPoints model.drawn = adjustment) :
    (model.applyJitter (min nanosecondsMax exact)).1 =
      if nanosecondsMax ≤ exact ∨ model.config.jitterBasisPoints = 0 then
        min nanosecondsMax exact
      else if adjustment < 0 then exact - exact * |adjustment| / 10000
      else min nanosecondsMax (exact + exact * |adjustment| / 10000) := by
  unfold applyJitter
  dsimp only
  rw [draws, delta_eq]
  by_cases reached : nanosecondsMax ≤ exact
  · rw [min_eq_left reached, if_pos (Or.inr rfl), if_pos (Or.inl reached)]
  · rw [min_eq_right (le_of_not_ge reached)]
    by_cases off : model.config.jitterBasisPoints = 0
    · rw [if_pos (Or.inl off), if_pos (Or.inr off)]
    · rw [if_neg (not_or.mpr ⟨off, fun same => reached (le_of_eq same.symm)⟩),
        if_neg (not_or.mpr ⟨reached, off⟩)]
      split
      · rfl
      · split
        · next beyond => exact (min_eq_left (by omega)).symm
        · next within => exact (min_eq_right (by omega)).symm

/-- A cost that is computed and then adjusted. -/
theorem cost_exact {model : CostModel} {fixed perUnit adjustment : ℤ} (units : ℕ)
    (fixedNonneg : 0 ≤ fixed) (fixedLe : fixed ≤ nanosecondsMax) (perUnitNonneg : 0 ≤ perUnit)
    (jitter : model.config.jitterBasisPoints ≤ 10000)
    (draws : model.draws model.seed model.config.jitterBasisPoints model.drawn = adjustment)
    (bound : |adjustment| ≤ model.config.jitterBasisPoints) :
    Checked.Gives (saturatingCostChecked fixed perUnit units >>= model.applyJitterChecked)
      (.ok (model.applyJitter (saturatingCost fixed perUnit units))) ∧
    (model.applyJitter (saturatingCost fixed perUnit units)).1 =
      exactCost fixed perUnit units model.config.jitterBasisPoints adjustment := by
  have least := saturatingCost_nonneg units fixedNonneg perUnitNonneg
  have equal := saturatingCost_eq_min units fixedLe perUnitNonneg
  constructor
  · refine .bind (saturatingCostChecked_gives fixedNonneg fixedLe perUnitNonneg) ?_
    exact applyJitterChecked_gives least (equal ▸ min_le_left _ _) jitter (draws ▸ bound)
  · rw [equal]
    exact applyJitter_eq _ draws

/-- An exact cost is not negative. -/
theorem exactCost_nonneg {fixed perUnit adjustment : ℤ} (units : ℕ) {jitterBasisPoints : ℕ}
    (fixedNonneg : 0 ≤ fixed) (perUnitNonneg : 0 ≤ perUnit) (jitter : jitterBasisPoints ≤ 10000)
    (bound : |adjustment| ≤ jitterBasisPoints) :
    0 ≤ exactCost fixed perUnit units jitterBasisPoints adjustment := by
  have baseNonneg : 0 ≤ fixed + perUnit * units :=
    add_nonneg fixedNonneg (mul_nonneg perUnitNonneg (Int.natCast_nonneg units))
  have largest : 0 ≤ nanosecondsMax := by decide
  obtain ⟨-, -, -, -, share, shareNonneg⟩ :=
    share_bounds baseNonneg (abs_nonneg adjustment) (bound.trans (by omega))
  unfold exactCost
  dsimp only
  split
  · exact le_min largest baseNonneg
  · split
    · exact sub_nonneg.mpr share
    · exact le_min largest (add_nonneg baseNonneg shareNonneg)

/-- **Costs are exact.** For an accepted configuration, any number of units and any draw
within the jitter, `Prefill` and `DecodeStep` make no operation that leaves the range of
its type. The cost is the fixed part and the part of each unit, cut off at the largest
number; below it and with jitter on, it is moved by the share of the draw, rounded down,
and cut off again. It is never negative. -/
theorem costs_exact {config : CostModelConfig} {seed : ℕ} {draws : JitterDraws}
    {created : CostModel} (accepted : new config seed draws = .ok created)
    (inRange : config.InRange) (count units : ℕ)
    (bound : |draws seed config.jitterBasisPoints count| ≤ config.jitterBasisPoints) :
    let model := { created with drawn := count }
    let adjustment := draws seed config.jitterBasisPoints count
    (Checked.Gives (model.prefillCostChecked units) (.ok (model.prefillCost units)) ∧
      (model.prefillCost units).1 = exactCost config.prefillFixed config.prefillPerToken units
        config.jitterBasisPoints adjustment ∧
      0 ≤ (model.prefillCost units).1) ∧
    Checked.Gives (model.decodeStepChecked units) (.ok (model.decodeStep units)) ∧
      (model.decodeStep units).1 = exactCost config.decodeFixed config.decodePerSequence units
        config.jitterBasisPoints adjustment ∧
      0 ≤ (model.decodeStep units).1 := by
  intro model adjustment
  unfold new at accepted
  split at accepted
  · cases accepted
  · next valid =>
      cases accepted
      simp only [not_or, Int.not_lt, gt_iff_lt, Nat.not_lt] at valid
      obtain ⟨prefillFixed, prefillPerToken, decodeFixed, decodePerSequence, jitter⟩ := valid
      have draw : model.draws model.seed model.config.jitterBasisPoints model.drawn =
          adjustment := rfl
      obtain ⟨prefillGives, prefillIs⟩ := cost_exact units prefillFixed inRange.prefillFixed
        prefillPerToken jitter draw bound
      obtain ⟨decodeGives, decodeIs⟩ := cost_exact units decodeFixed inRange.decodeFixed
        decodePerSequence jitter draw bound
      refine ⟨⟨prefillGives, prefillIs, ?_⟩, decodeGives, decodeIs, ?_⟩
      · exact prefillIs.symm ▸ exactCost_nonneg units prefillFixed prefillPerToken jitter bound
      · exact decodeIs.symm ▸ exactCost_nonneg units decodeFixed decodePerSequence jitter bound

/-- One per cent less for a small batch, and a prefill of the largest number of tokens. -/
theorem costs_exact_default :
    let model : CostModel :=
      { config := { jitterBasisPoints := 100 }, seed := 0, draws := fun _ _ _ => -100 }
    (model.decodeStep 2).1 = 8910 ∧ (model.prefillCost sizeMax).1 = nanosecondsMax := by
  intro model
  have accepted : new { jitterBasisPoints := 100 } 0 (fun _ _ _ => -100) = .ok model := rfl
  have inRange : CostModelConfig.InRange { jitterBasisPoints := 100 } :=
    ⟨by decide, by decide, by decide, by decide⟩
  obtain ⟨-, -, decode, -⟩ := costs_exact accepted inRange 0 2 (by decide)
  obtain ⟨⟨-, prefill, -⟩, -⟩ := costs_exact accepted inRange 0 sizeMax (by decide)
  exact ⟨decode.trans (by decide), prefill.trans (by decide)⟩

end CostModel
end InferSched.Engine

import Mathlib.Data.List.FinRange
import Mathlib.Order.MinMax
import InferSched.Basic
import InferSched.Library.OrderStatistics
import InferSched.Library.Word

/-! # The latency histogram

`Histogram` (`histogram.cpp`): counts of recorded values in buckets of powers of two, and
the percentile as the upper bound of the bucket that holds its rank. The source computes
the rank in floating point; here it is a parameter. The upper bound is above the value of
that rank and at most twice as large, but for the last bucket, which has no bound.
-/

namespace InferSched.Metrics

open Library OrderStatistics

/-- `kBucketCount`. -/
abbrev bucketCount : ℕ := 64

/-- The number of values in each bucket. -/
structure Histogram where
  buckets : Fin bucketCount → ℕ := fun _ => 0

namespace Histogram

/-- `std::bit_width`. -/
def bitWidth (value : ℕ) : ℕ :=
  if value = 0 then 0 else value.log2 + 1

/-- The bucket of a value. -/
def bucketOf (value : ℕ) : Fin bucketCount :=
  if value = 0 then 0 else Fin.ofNat bucketCount (min (bitWidth value) (bucketCount - 1))

/-- Count a value in its bucket. -/
def record (histogram : Histogram) (value : ℕ) : Histogram where
  buckets := Function.update histogram.buckets (bucketOf value)
    (Word.add 64 (histogram.buckets (bucketOf value)) 1)

/-- The number of values recorded. -/
def count (histogram : Histogram) : ℕ :=
  (List.ofFn histogram.buckets).foldl (Word.add 64) 0

/-- What `Percentile` returns for a bucket. -/
def upperBound (index : ℕ) : ℕ :=
  if index = bucketCount - 1 then 2 ^ 64 - 1 else 2 ^ index

/-- The loop of `Percentile` from a bucket on. -/
def scan (target : ℕ) : List ℕ → ℕ → ℕ → ℕ
  | [], _, _ => 2 ^ 64 - 1
  | bucket :: later, index, cumulative =>
      if Word.add 64 cumulative bucket ≥ max target 1 then upperBound index
      else scan target later (index + 1) (Word.add 64 cumulative bucket)

/-- `target` gives the rank among a number of values. -/
def percentile (histogram : Histogram) (target : ℕ → ℕ) : ℕ :=
  if histogram.count = 0 then 0
  else scan (target histogram.count) (List.ofFn histogram.buckets) 0 0

/-- A histogram of these values alone. -/
def recordAll (values : List ℕ) : Histogram :=
  values.foldl record {}

/-! ### Buckets -/

/-- A width bounds the values below its power of two. -/
theorem bitWidth_le {value width : ℕ} : bitWidth value ≤ width ↔ value < 2 ^ width := by
  unfold bitWidth
  split
  · next zero =>
      rw [zero]
      exact iff_of_true (Nat.zero_le _) (Nat.two_pow_pos width)
  · next positive => exact Nat.log2_lt positive

theorem bitWidth_mono {less more : ℕ} (ordered : less ≤ more) : bitWidth less ≤ bitWidth more :=
  bitWidth_le.mpr (ordered.trans_lt (bitWidth_le.mp le_rfl))

/-- The last bucket takes all that is wider. -/
theorem bucketOf_val (value : ℕ) : (bucketOf value).val = min (bitWidth value) 63 := by
  unfold bucketOf
  split
  · next zero =>
      rw [zero]
      rfl
  · exact Nat.mod_eq_of_lt ((Nat.min_le_right _ _).trans_lt (by decide))

/-- Larger values are in later buckets. -/
theorem bucketOf_mono {less more : ℕ} (ordered : less ≤ more) :
    (bucketOf less).val ≤ (bucketOf more).val := by
  rw [bucketOf_val, bucketOf_val]
  exact min_le_min (bitWidth_mono ordered) le_rfl

/-- Later buckets end later. -/
theorem upperBound_mono {less more : ℕ} (ordered : less ≤ more) (last : more < bucketCount) :
    upperBound less ≤ upperBound more := by
  have final : bucketCount - 1 = 63 := rfl
  unfold upperBound
  rw [final]
  by_cases lessLast : less = 63
  · rw [if_pos lessLast, if_pos (by omega)]
  · rw [if_neg lessLast]
    split
    · exact le_trans (Nat.pow_le_pow_right (by decide) (by omega : less ≤ 62)) (by decide)
    · exact Nat.pow_le_pow_right (by decide) ordered

/-- The bound of a value's bucket. -/
theorem upperBound_bucketOf (value : ℕ) :
    (value < 2 ^ 62 → value < upperBound (bucketOf value) ∧
      upperBound (bucketOf value) ≤ 2 * max value 1) ∧
    (value = 0 → upperBound (bucketOf value) = 1) ∧
    (2 ^ 62 ≤ value → upperBound (bucketOf value) = 2 ^ 64 - 1) := by
  rw [bucketOf_val]
  refine ⟨fun small => ?_, fun zero => ?_, fun large => ?_⟩
  · have width := bitWidth_le.mpr small
    have inner : bitWidth value ≠ bucketCount - 1 := ne_of_lt (width.trans_lt (by decide))
    rw [min_eq_left (width.trans (by decide)), upperBound, if_neg inner]
    refine ⟨bitWidth_le.mp le_rfl, ?_⟩
    cases widthIs : bitWidth value with
    | zero => omega
    | succ less =>
        have reached : 2 ^ less ≤ value :=
          not_lt.mp fun short => absurd (bitWidth_le.mpr short) (by omega)
        rw [Nat.pow_succ]
        omega
  · rw [zero]
    rfl
  · have width : 63 ≤ bitWidth value :=
      not_lt.mp fun short => absurd (bitWidth_le.mp (Nat.le_of_lt_succ short)) (not_lt.mpr large)
    rw [min_eq_right width]
    rfl

/-! ### Counts -/

/-- The number of values in the buckets before an index. -/
def below (values : List ℕ) (index : ℕ) : ℕ :=
  values.countP fun value => (bucketOf value).val < index

/-- The values up to a bucket are those before it and those in it. -/
theorem below_succ (values : List ℕ) (index : ℕ) :
    below values (index + 1) =
      below values index + values.countP fun value => (bucketOf value).val = index := by
  induction values with
  | nil => rfl
  | cons value later ih =>
      simp only [below, List.countP_cons, decide_eq_true_eq] at ih ⊢
      rw [ih]
      split
      · split
        · rw [if_neg (by omega)]
          omega
        · rw [if_pos (by omega)]
          omega
      · rw [if_neg (by omega), if_neg (by omega)]
        omega

theorem below_all (values : List ℕ) : below values bucketCount = values.length :=
  List.countP_eq_length.mpr fun value _ => decide_eq_true (bucketOf value).isLt

/-- A bucket counts the values that belong to it. -/
theorem buckets_foldl (values : List ℕ) (histogram : Histogram) (index : Fin bucketCount)
    (fits : histogram.buckets index + values.length < 2 ^ 64) :
    (values.foldl record histogram).buckets index =
      histogram.buckets index + values.countP fun value => (bucketOf value).val = index := by
  induction values generalizing histogram with
  | nil => rfl
  | cons value later ih =>
      rw [List.length_cons] at fits
      rw [List.foldl_cons, List.countP_cons]
      by_cases here : bucketOf value = index
      · have counted : (histogram.record value).buckets index = histogram.buckets index + 1 := by
          subst here
          exact (Function.update_self _ _ _).trans (Nat.mod_eq_of_lt (by omega))
        rw [ih _ (by omega), counted, if_pos (by rw [here]; exact decide_eq_true rfl)]
        omega
      · have other : (histogram.record value).buckets index = histogram.buckets index :=
          Function.update_of_ne (Ne.symm here) _ _
        have apart : ¬(bucketOf value).val = index := fun same => here (Fin.ext same)
        rw [ih _ (by omega), other, if_neg (by rw [decide_eq_true_iff]; exact apart)]
        rfl

/-- The buckets in order. -/
theorem ofFn_buckets {values : List ℕ} (few : values.length < 2 ^ 64) :
    List.ofFn (recordAll values).buckets = (List.range' 0 bucketCount).map fun index =>
      values.countP fun value => (bucketOf value).val = index := by
  have counted : ∀ index, (recordAll values).buckets index =
      values.countP fun value => (bucketOf value).val = index := fun index =>
    (buckets_foldl values {} index ((Nat.zero_add _).trans_lt few)).trans (Nat.zero_add _)
  rw [← List.range_eq_range', ← List.map_coe_finRange_eq_range, List.map_map, List.ofFn_eq_map]
  exact List.map_congr_left fun index _ => counted index

/-- The sum of the buckets from an index on, when nothing wraps. -/
theorem foldl_add {values : List ℕ} (few : values.length < 2 ^ 64) (remaining index : ℕ) :
    ((List.range' index remaining).map fun index =>
      values.countP fun value => (bucketOf value).val = index).foldl (Word.add 64)
        (below values index) = below values (index + remaining) := by
  induction remaining generalizing index with
  | zero => rfl
  | succ remaining ih =>
      have fits : below values (index + 1) < 2 ^ 64 := List.countP_le_length.trans_lt few
      rw [List.range'_succ, List.map_cons, List.foldl_cons, Word.add, ← below_succ,
        Nat.mod_eq_of_lt fits, ih, Nat.add_right_comm, Nat.add_assoc]

theorem below_zero (values : List ℕ) : below values 0 = 0 :=
  List.countP_eq_zero.mpr fun _ _ before => Nat.not_lt_zero _ (of_decide_eq_true before)

/-- The total does not wrap for fewer than `2 ^ 64` values. -/
theorem count_recordAll {values : List ℕ} (few : values.length < 2 ^ 64) :
    (recordAll values).count = values.length := by
  have sum := foldl_add few bucketCount 0
  rw [below_zero, Nat.zero_add, below_all] at sum
  rw [count, ofFn_buckets few, sum]

/-! ### The scan -/

/-- The scan stops at the first bucket with which the rank is reached. -/
theorem scan_eq {values : List ℕ} (few : values.length < 2 ^ 64) {rank found : ℕ}
    (positive : 0 < rank) (earlier : ∀ index ≤ found, below values index < rank)
    (reached : rank ≤ below values (found + 1)) (remaining index : ℕ) (first : index ≤ found)
    (last : found < index + remaining) :
    scan rank ((List.range' index remaining).map fun index =>
      values.countP fun value => (bucketOf value).val = index) index (below values index) =
        upperBound found := by
  induction remaining generalizing index with
  | zero => omega
  | succ remaining ih =>
      have fits : below values (index + 1) < 2 ^ 64 := List.countP_le_length.trans_lt few
      rw [List.range'_succ, List.map_cons, scan, Word.add, ← below_succ, Nat.mod_eq_of_lt fits,
        max_eq_left (Nat.succ_le_of_lt positive)]
      rcases Nat.eq_or_lt_of_le first with here | later
      · rw [here, if_pos reached]
      · rw [if_neg (not_le.mpr (earlier (index + 1) later))]
        exact ih (index + 1) later (by omega)

/-- The percentile is the bound of the bucket of the value with that rank. -/
theorem percentile_eq {values : List ℕ} (few : values.length < 2 ^ 64) {target : ℕ → ℕ}
    {value : ℕ} (positive : 0 < target values.length)
    (found : nthSmallest values (target values.length) = some value) :
    (recordAll values).percentile target = upperBound (bucketOf value) := by
  have counted : ∀ index, target values.length ≤ below values index ↔
      (bucketOf value).val < index := by
    intro index
    have closed : ∀ less more : ℕ, less ≤ more → decide ((bucketOf more).val < index) = true →
        decide ((bucketOf less).val < index) = true := fun less more ordered before =>
      decide_eq_true ((bucketOf_mono ordered).trans_lt (of_decide_eq_true before))
    exact (le_countP_iff closed positive found).trans decide_eq_true_iff
  have scanned := scan_eq few positive
    (fun index before => not_le.mp fun rankLe => absurd ((counted index).mp rankLe)
      (not_lt.mpr before))
    ((counted _).mpr (Nat.lt_succ_self _)) bucketCount 0 (Nat.zero_le _)
    ((bucketOf value).isLt.trans_le (Nat.le_add_left _ _))
  have inhabited : values.length ≠ 0 :=
    Nat.ne_of_gt (List.length_pos_of_mem (mem_of_nthSmallest found))
  rw [below_zero] at scanned
  rw [percentile, count_recordAll few, if_neg inhabited, ofFn_buckets few, scanned]

/-- **Percentiles.** Let `value` be the recorded value of the target rank. The upper bound
that the scan returns is above it and at most twice as large, one counting for zero, as long
as the value is below the last bucket; it is one for zero, and the largest number for the
last bucket. A larger rank has no smaller bound. -/
theorem percentile_bounds {values : List ℕ} (few : values.length < 2 ^ 64) :
    (∀ target : ℕ → ℕ, 0 < target values.length → target values.length ≤ values.length →
      let bound := (recordAll values).percentile target
      ∃ value, nthSmallest values (target values.length) = some value ∧
      (value < 2 ^ 62 → value < bound ∧ bound ≤ 2 * max value 1) ∧
      (value = 0 → bound = 1) ∧ (2 ^ 62 ≤ value → bound = 2 ^ 64 - 1)) ∧
    ∀ target other : ℕ → ℕ, 0 < target values.length →
      target values.length ≤ other values.length → other values.length ≤ values.length →
        (recordAll values).percentile target ≤ (recordAll values).percentile other := by
  constructor
  · intro target positive within bound
    obtain ⟨value, found⟩ := exists_nthSmallest positive within
    have boundIs : bound = upperBound (bucketOf value) := percentile_eq few positive found
    rw [boundIs]
    exact ⟨value, found, upperBound_bucketOf value⟩
  · intro target other positive ordered within
    obtain ⟨value, found⟩ := exists_nthSmallest positive (ordered.trans within)
    obtain ⟨larger, otherFound⟩ := exists_nthSmallest (positive.trans_le ordered) within
    rw [percentile_eq few positive found, percentile_eq few (positive.trans_le ordered) otherFound]
    exact upperBound_mono (bucketOf_mono (nthSmallest_mono positive ordered found otherFound))
      (bucketOf larger).isLt

/-- The third of four values is a power of two and lies in the bucket above it. -/
theorem percentile_bounds_four :
    nthSmallest [7, 0, 4, 1] 3 = some 4 ∧
      4 < (recordAll [7, 0, 4, 1]).percentile (fun _ => 3) ∧
      (recordAll [7, 0, 4, 1]).percentile (fun _ => 3) ≤ 8 := by
  have few : [7, 0, 4, 1].length < 2 ^ 64 := by decide
  have third : nthSmallest [7, 0, 4, 1] 3 = some 4 := by decide
  obtain ⟨bounds, -⟩ := percentile_bounds few
  obtain ⟨value, found, within, -⟩ := bounds (fun _ => 3) (by decide) (by decide)
  cases third.symm.trans found
  exact ⟨third, within (by decide)⟩

end Histogram
end InferSched.Metrics

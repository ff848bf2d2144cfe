import Mathlib.Data.List.Sort

/-! # Order statistics

The element of a given rank in a list (`OrderStatistics.nthSmallest`), found by counting: a
condition that is closed downwards holds of it exactly when it holds of at least as many
elements as the rank (`OrderStatistics.le_countP_iff`).
-/

namespace InferSched.Library.OrderStatistics

variable {α : Type*} [LinearOrder α]

/-- The element of a rank, counted from one. -/
def nthSmallest (values : List α) (rank : ℕ) : Option α :=
  (values.insertionSort (· ≤ ·))[rank - 1]?

/-- In a sorted list the elements of a downward closed condition come first. -/
theorem lt_countP_iff {sorted : List α} (ordered : sorted.Pairwise (· ≤ ·)) {below : α → Bool}
    (closed : ∀ less more, less ≤ more → below more = true → below less = true)
    {index : ℕ} {value : α} (found : sorted[index]? = some value) :
    index < sorted.countP below ↔ below value = true := by
  induction sorted generalizing index with
  | nil => cases found
  | cons head tail ih =>
      obtain ⟨least, rest⟩ := List.pairwise_cons.mp ordered
      by_cases first : below head = true
      · rw [List.countP_cons_of_pos first]
        cases index with
        | zero =>
            cases found
            exact iff_of_true (Nat.succ_pos _) first
        | succ index =>
            rw [Nat.succ_lt_succ_iff]
            exact ih rest found
      · have above : ∀ other ∈ head :: tail, ¬ below other = true := by
          intro other member holds
          rcases List.mem_cons.mp member with rfl | later
          · exact first holds
          · exact first (closed head other (least other later) holds)
        rw [List.countP_eq_zero.mpr above]
        exact iff_of_false (Nat.not_lt_zero index) (above value (List.mem_of_getElem? found))

variable {values : List α} {rank : ℕ} {value : α}

theorem pairwise_sorted (values : List α) : (values.insertionSort (· ≤ ·)).Pairwise (· ≤ ·) :=
  List.pairwise_insertionSort _ values

theorem exists_nthSmallest (positive : 0 < rank) (within : rank ≤ values.length) :
    ∃ value, nthSmallest values rank = some value := by
  refine ⟨_, List.getElem?_eq_getElem ?_⟩
  rw [List.length_insertionSort]
  omega

theorem mem_of_nthSmallest (found : nthSmallest values rank = some value) : value ∈ values :=
  (List.mem_insertionSort _).mp (List.mem_of_getElem? found)

/-- **Rank by counting.** -/
theorem le_countP_iff {below : α → Bool}
    (closed : ∀ less more, less ≤ more → below more = true → below less = true)
    (positive : 0 < rank) (found : nthSmallest values rank = some value) :
    rank ≤ values.countP below ↔ below value = true := by
  rw [← lt_countP_iff (pairwise_sorted values) closed found,
    (List.perm_insertionSort _ values).countP_eq]
  omega

/-- A larger rank has no smaller element. -/
theorem nthSmallest_mono {other : ℕ} {larger : α} (positive : 0 < rank) (ordered : rank ≤ other)
    (found : nthSmallest values rank = some value)
    (otherFound : nthSmallest values other = some larger) : value ≤ larger := by
  have closed : ∀ less more : α, less ≤ more → decide (more ≤ larger) = true →
      decide (less ≤ larger) = true := fun less more before last =>
    decide_eq_true (before.trans (of_decide_eq_true last))
  have counted := (le_countP_iff closed (positive.trans_le ordered) otherFound).mpr
    (decide_eq_true le_rfl)
  exact of_decide_eq_true ((le_countP_iff closed positive found).mp (ordered.trans counted))

end InferSched.Library.OrderStatistics

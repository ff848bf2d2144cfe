import Mathlib.Algebra.BigOperators.Group.Finset.Piecewise
import Mathlib.Data.Fintype.Basic
import Mathlib.Data.List.Count
import Mathlib.Logic.Function.Basic

/-! # Census

A population of keys, each in one status. Keys enter one after the other and move from
status to status. The number of keys in a status moves with them, and the numbers add up
to the population.
-/

namespace InferSched.Library.Census

variable {κ φ : Type*} [DecidableEq φ]

/-- The number of keys of a population in a status. -/
def count (keys : List κ) (status : κ → φ) (wanted : φ) : ℕ :=
  keys.countP fun key => status key = wanted

/-- Only the statuses of the population count. -/
theorem count_congr {keys : List κ} {status other : κ → φ}
    (same : ∀ key ∈ keys, status key = other key) (wanted : φ) :
    count keys status wanted = count keys other wanted :=
  List.countP_congr fun key member => by rw [same key member]

/-- Every key is in one status. -/
theorem sum_count [Fintype φ] (keys : List κ) (status : κ → φ) :
    ∑ wanted, count keys status wanted = keys.length := by
  induction keys with
  | nil => exact Finset.sum_const_zero
  | cons key keys ih =>
      have split (wanted : φ) : count (key :: keys) status wanted =
          count keys status wanted + if status key = wanted then 1 else 0 := by
        simp [count, List.countP_cons]
      rw [Finset.sum_congr rfl fun wanted _ => split wanted, Finset.sum_add_distrib, ih,
        Finset.sum_ite_eq, if_pos (Finset.mem_univ _), List.length_cons]

variable [DecidableEq κ]

/-- A new key adds one to its status. -/
theorem count_enter {keys : List κ} {key : κ} (status : κ → φ) (fresh : key ∉ keys)
    (entered wanted : φ) :
    count (keys ++ [key]) (Function.update status key entered) wanted =
      count keys status wanted + if entered = wanted then 1 else 0 := by
  have others : count keys (Function.update status key entered) wanted =
      count keys status wanted :=
    count_congr (fun _ member => Function.update_of_ne (ne_of_mem_of_not_mem member fresh) _ _)
      wanted
  rw [← others]
  simp [count, List.countP_append, List.countP_singleton]

/-- A key that moves leaves one status for another. -/
theorem count_move {keys : List κ} {key : κ} (status : κ → φ) (distinct : keys.Nodup)
    (member : key ∈ keys) (moved wanted : φ) :
    count keys (Function.update status key moved) wanted +
        (if status key = wanted then 1 else 0) =
      count keys status wanted + if moved = wanted then 1 else 0 := by
  induction keys with
  | nil => exact absurd member List.not_mem_nil
  | cons first keys ih =>
      obtain ⟨absent, distinct⟩ := List.nodup_cons.mp distinct
      by_cases same : key = first
      · subst same
        have others : count keys (Function.update status key moved) wanted =
            count keys status wanted :=
          count_congr (fun _ member =>
            Function.update_of_ne (ne_of_mem_of_not_mem member absent) _ _) wanted
        simp only [count, List.countP_cons, Function.update_self, decide_eq_true_eq] at others ⊢
        omega
      · have rest := ih distinct ((List.mem_cons.mp member).resolve_left same)
        simp only [count, List.countP_cons, Function.update_of_ne (Ne.symm same),
          decide_eq_true_eq] at rest ⊢
        omega

end InferSched.Library.Census

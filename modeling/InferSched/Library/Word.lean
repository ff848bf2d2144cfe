import Mathlib.Algebra.Group.Nat.Defs
import Mathlib.Data.Nat.Basic

/-! # Unsigned machine words

Natural numbers added and subtracted with the wraparound of a fixed width, and
the conditions under which the wrapped operation is the mathematical one.
-/

namespace InferSched.Library.Word

/-- Addition of two words, reduced to the given width. -/
def add (bits left right : ℕ) : ℕ :=
  (left + right) % 2 ^ bits

/-- Subtraction of two words, wrapping below zero. -/
def sub (bits left right : ℕ) : ℕ :=
  (left + (2 ^ bits - right % 2 ^ bits)) % 2 ^ bits

/-- A subtraction that stays nonnegative does not wrap. -/
theorem sub_of_le {bits left right : ℕ} (ordered : right ≤ left) (fits : left < 2 ^ bits) :
    sub bits left right = left - right := by
  unfold sub
  rw [Nat.mod_eq_of_lt (lt_of_le_of_lt ordered fits)]
  have split : left + (2 ^ bits - right) = (left - right) + 2 ^ bits := by omega
  rw [split, Nat.add_mod_right, Nat.mod_eq_of_lt (by omega)]

end InferSched.Library.Word

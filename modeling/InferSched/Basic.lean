import Mathlib.Algebra.Group.Nat.Defs
import Mathlib.Data.Char
import Mathlib.Data.Int.Notation
import Mathlib.Data.List.Lex

/-! # Strings and machine limits

The value types shared by the engine and the durable pipeline. A `std::string`
is the list of its bytes, written as characters; its order is the one of the
source's byte comparison.
-/

namespace InferSched

/-- A `std::string`, byte by byte. -/
abbrev Text := List Char

/-- Width of `std::size_t`. -/
abbrev sizeBits : ℕ := 64

/-- The largest `std::size_t`. -/
abbrev sizeMax : ℕ := 2 ^ 64 - 1

/-- The largest `std::int64_t`. -/
abbrev int64Max : ℕ := 2 ^ 63 - 1

/-- `std::to_string` of an unsigned number. -/
def decimal (value : ℕ) : Text :=
  Nat.toDigits 10 value

/-- `std::to_string` of a signed number. -/
def signedDecimal : ℤ → Text
  | .ofNat value => decimal value
  | .negSucc value => '-' :: decimal (value + 1)

/-- A computation that succeeds has succeeded at its first step. -/
theorem exists_of_bind_eq_ok {ε α β : Type} {first : Except ε α} {next : α → Except ε β}
    {result : β} (ran : (first >>= next) = .ok result) :
    ∃ value, first = .ok value ∧ next value = .ok result := by
  cases first with
  | error message => cases ran
  | ok value => exact ⟨value, rfl, ran⟩

/-! ### Reading texts back -/

theorem isDigit_of_mem_decimal {value : ℕ} {letter : Char} (member : letter ∈ decimal value) :
    letter.isDigit = true :=
  Nat.isDigit_of_mem_toDigits (by decide) (by decide) member

theorem decimal_injective {first second : ℕ} (same : decimal first = decimal second) :
    first = second := by
  have read := congrArg (Nat.ofDigitChars 10 · 0) same
  unfold decimal at read
  simpa only [Nat.ofDigitChars_ten_toDigits] using read

/-- A text is read back up to a letter it does not have. -/
theorem append_delimiter_inj {first second restFirst restSecond : Text} {delimiter : Char}
    (freeFirst : delimiter ∉ first) (freeSecond : delimiter ∉ second)
    (same : first ++ delimiter :: restFirst = second ++ delimiter :: restSecond) :
    first = second ∧ restFirst = restSecond := by
  induction first generalizing second with
  | nil =>
      cases second with
      | nil => exact ⟨rfl, (List.cons.inj same).2⟩
      | cons letter later =>
          exact absurd ((List.cons.inj same).1 ▸ List.mem_cons_self) freeSecond
  | cons letter later ih =>
      cases second with
      | nil => exact absurd ((List.cons.inj same).1 ▸ List.mem_cons_self) freeFirst
      | cons other others =>
          obtain ⟨rfl, tails⟩ := List.cons.inj same
          obtain ⟨rfl, rests⟩ := ih (List.not_mem_of_not_mem_cons freeFirst)
            (List.not_mem_of_not_mem_cons freeSecond) tails
          exact ⟨rfl, rests⟩

/-- A number is read back up to a letter that is no digit. -/
theorem decimal_delimiter_inj {first second : ℕ} {restFirst restSecond : Text} {delimiter : Char}
    (noDigit : delimiter.isDigit = false)
    (same : decimal first ++ delimiter :: restFirst = decimal second ++ delimiter :: restSecond) :
    first = second ∧ restFirst = restSecond := by
  have free : ∀ value, delimiter ∉ decimal value := fun value member => by
    rw [isDigit_of_mem_decimal member] at noDigit
    cases noDigit
  obtain ⟨numbers, rests⟩ := append_delimiter_inj (free first) (free second) same
  exact ⟨decimal_injective numbers, rests⟩

end InferSched

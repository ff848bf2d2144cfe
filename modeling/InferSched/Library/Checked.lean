import Mathlib.Algebra.Group.Nat.Defs
import Mathlib.Algebra.Order.Group.Int

/-! # Checked computations

A computation on machine numbers that stops at the first operation whose exact result its
type cannot hold, or at a division by zero. A computation also takes choices that the
program does not determine; it counts them, and the environment decides each.

`Checked.Gives` says what a computation comes to whatever the choices before it were. Its
rules follow the computation: a step that succeeds hands its value on
(`Checked.Gives.bind`), and a step that succeeds exactly under a condition which everything
after it implies leaves only the last condition to check (`Checked.Gives.bind_guarded`).
-/

namespace InferSched.Library

/-- What goes wrong in machine arithmetic. -/
inductive Fault
  | wrapped
  | divideByZero
  | overflowed
deriving DecidableEq, Repr

/-- A computation that may fault, with the number of choices taken so far. -/
abbrev Checked := StateT ℕ (Except Fault)

namespace Checked

variable {α β : Type}

/-- A computation that stops. -/
def fault (what : Fault) : Checked α := fun _ => .error what

/-- Unsigned addition. -/
def add (bits left right : ℕ) : Checked ℕ :=
  if left + right < 2 ^ bits then pure (left + right) else fault .wrapped

/-- Unsigned subtraction. -/
def sub (left right : ℕ) : Checked ℕ :=
  if right ≤ left then pure (left - right) else fault .wrapped

/-- Unsigned multiplication. -/
def mul (bits left right : ℕ) : Checked ℕ :=
  if left * right < 2 ^ bits then pure (left * right) else fault .wrapped

/-- A quotient, with a fault for a divisor of zero. -/
def div (left right : ℕ) : Checked ℕ :=
  if right = 0 then fault .divideByZero else pure (left / right)

/-- A remainder, with a fault for a divisor of zero. -/
def mod (left right : ℕ) : Checked ℕ :=
  if right = 0 then fault .divideByZero else pure (left % right)

/-- A signed number that must lie between `-limit - 1` and `limit`. -/
def signed (limit : ℕ) (exact : ℤ) : Checked ℤ :=
  if -(limit : ℤ) - 1 ≤ exact ∧ exact ≤ limit then pure exact else fault .overflowed

/-- The next choice. -/
def choose (choices : ℕ → α) : Checked α := fun count => .ok (choices count, count + 1)

/-- What the computation comes to, whatever choices were taken before. -/
def Gives (program : Checked α) (outcome : Except Fault α) : Prop :=
  ∀ count, (program count).map Prod.fst = outcome

/-- The value under a condition on time, and an overflow otherwise. -/
def guarded (condition : Prop) [Decidable condition] (value : α) : Except Fault α :=
  if condition then .ok value else .error .overflowed

theorem guarded_of {condition : Prop} [Decidable condition] (holds : condition) (value : α) :
    guarded condition value = .ok value :=
  if_pos holds

theorem guarded_of_not {condition : Prop} [Decidable condition] (fails : ¬ condition)
    (value : α) : guarded condition value = .error .overflowed :=
  if_neg fails

namespace Gives

variable {program : Checked α} {next : α → Checked β} {value : α} {outcome : Except Fault β}

/-- A value needs no choice. -/
theorem pure (value : α) : Gives (Pure.pure value) (.ok value) :=
  fun _ => rfl

/-- A value under a condition that holds. -/
theorem pure_guarded {condition : Prop} [Decidable condition] (holds : condition) (value : α) :
    Gives (Pure.pure value) (guarded condition value) := by
  rw [guarded_of holds]
  exact pure value

/-- A run of a computation that succeeds, from any number of choices. -/
theorem succeeds (gives : Gives program (.ok value)) (count : ℕ) :
    ∃ last, program count = .ok (value, last) := by
  have ran := gives count
  cases result : program count with
  | error what =>
      rw [result] at ran
      cases ran
  | ok pair =>
      obtain ⟨got, last⟩ := pair
      rw [result] at ran
      cases ran
      exact ⟨last, rfl⟩

/-- A computation that fails does so from any number of choices. -/
theorem fails {what : Fault} (gives : Gives program (.error what)) (count : ℕ) :
    program count = .error what := by
  have ran := gives count
  cases result : program count with
  | error other =>
      rw [result] at ran
      cases ran
      rfl
  | ok pair =>
      rw [result] at ran
      cases ran

/-- A computation that succeeds under a condition on time has no other fault. -/
theorem only_overflows {condition : Prop} [Decidable condition] {what : Fault}
    (gives : Gives program (guarded condition value)) (other : what ≠ .overflowed) (count : ℕ) :
    program count ≠ .error what := by
  intro fault
  by_cases holds : condition
  · rw [guarded_of holds] at gives
    obtain ⟨last, ran⟩ := gives.succeeds count
    rw [ran] at fault
    cases fault
  · rw [guarded_of_not holds] at gives
    rw [gives.fails count] at fault
    cases fault
    exact other rfl

/-- A computation that succeeds hands its value on. -/
theorem bind (first : Gives program (.ok value)) (second : Gives (next value) outcome) :
    Gives (program >>= next) outcome := by
  intro count
  obtain ⟨last, ran⟩ := first.succeeds count
  have run : (program >>= next) count = next value last := by
    change (program count >>= _) = _
    rw [ran]
    rfl
  rw [run]
  exact second last

/-- A computation that faults ends there. -/
theorem bind_error {what : Fault} (first : Gives program (.error what)) :
    Gives (program >>= next) (.error what) := by
  intro count
  have run : (program >>= next) count = .error what := by
    change (program count >>= _) = _
    rw [first.fails count]
    rfl
  rw [run]
  rfl

/-- A step that succeeds exactly under a condition, which is implied by the condition of
the rest. -/
theorem bind_guarded {condition final : Prop} [Decidable condition] [Decidable final]
    {result : β} (first : Gives program (guarded condition value))
    (second : condition → Gives (next value) (guarded final result))
    (earlier : final → condition) : Gives (program >>= next) (guarded final result) := by
  by_cases holds : condition
  · rw [guarded_of holds] at first
    exact first.bind (second holds)
  · rw [guarded_of_not holds] at first
    rw [guarded_of_not (fun last => holds (earlier last))]
    exact first.bind_error

/-- A sum that fits its word. -/
theorem add {bits left right : ℕ} (fits : left + right < 2 ^ bits) :
    Gives (Checked.add bits left right) (.ok (left + right)) := by
  unfold Checked.add
  rw [if_pos fits]
  exact pure _

/-- A difference that is not negative. -/
theorem sub {left right : ℕ} (ordered : right ≤ left) :
    Gives (Checked.sub left right) (.ok (left - right)) := by
  unfold Checked.sub
  rw [if_pos ordered]
  exact pure _

/-- A product that fits its word. -/
theorem mul {bits left right : ℕ} (fits : left * right < 2 ^ bits) :
    Gives (Checked.mul bits left right) (.ok (left * right)) := by
  unfold Checked.mul
  rw [if_pos fits]
  exact pure _

/-- A quotient by a positive number. -/
theorem div {right : ℕ} (left : ℕ) (positive : 0 < right) :
    Gives (Checked.div left right) (.ok (left / right)) := by
  unfold Checked.div
  rw [if_neg positive.ne']
  exact pure _

/-- A remainder by a positive number. -/
theorem mod {right : ℕ} (left : ℕ) (positive : 0 < right) :
    Gives (Checked.mod left right) (.ok (left % right)) := by
  unfold Checked.mod
  rw [if_neg positive.ne']
  exact pure _

/-- A signed number in its range. -/
theorem signed_within {limit : ℕ} {exact : ℤ} (least : -(limit : ℤ) - 1 ≤ exact)
    (most : exact ≤ limit) : Gives (Checked.signed limit exact) (.ok exact) := by
  unfold Checked.signed
  rw [if_pos ⟨least, most⟩]
  exact pure _

/-- A number that is not negative fits exactly when it is within the limit. -/
theorem signed {limit : ℕ} {exact : ℤ} (nonnegative : 0 ≤ exact) :
    Gives (Checked.signed limit exact) (guarded (exact ≤ limit) exact) := by
  unfold Checked.signed
  by_cases fits : exact ≤ limit
  · rw [if_pos ⟨by omega, fits⟩, guarded_of fits]
    exact pure _
  · rw [if_neg (fun both => fits both.2), guarded_of_not fits]
    exact fun _ => rfl

/-- A choice that makes no difference. -/
theorem choose_bind {choices : ℕ → α}
    (same : ∀ count, Gives (next (choices count)) outcome) :
    Gives (Checked.choose choices >>= next) outcome :=
  fun count => same count (count + 1)

end Gives
end Checked
end InferSched.Library

import Mathlib.Data.List.Induction

/-! # Labelled transitions

A system of several parties takes one atomic step at a time, in any order. Each
step has a label that says who does what and what is replied, and a trace is the
list of labels of a run. A property kept by every step holds after every trace,
and a rank that the steps of one party lower brings about what the rank counts
down to, however the other parties interleave.
-/

namespace InferSched.Library

variable {σ α : Type*}

/-- The runs of a step relation, with the labels of their steps. -/
inductive Trace (step : σ → α → σ → Prop) (start : σ) : List α → σ → Prop
  | nil : Trace step start [] start
  | snoc {labels : List α} {middle final : σ} {label : α}
      (earlier : Trace step start labels middle) (last : step middle label final) :
      Trace step start (labels ++ [label]) final

namespace Trace

variable {step : σ → α → σ → Prop} {start middle final : σ}

theorem single {label : α} (only : step start label final) : Trace step start [label] final :=
  .snoc .nil only

theorem last_step {labels : List α} {label : α}
    (trace : Trace step start (labels ++ [label]) final) :
    ∃ middle, Trace step start labels middle ∧ step middle label final := by
  generalize isLabels : labels ++ [label] = all at trace
  cases trace with
  | nil => exact absurd isLabels (List.append_ne_nil_of_right_ne_nil _ (List.cons_ne_nil _ _))
  | @snoc earlier middle final other before last =>
      obtain ⟨rfl, same⟩ := List.append_inj' isLabels rfl
      cases same
      exact ⟨middle, before, last⟩

/-- A trace passes through a state at each of its labels. -/
theorem split {first second : List α} (trace : Trace step start (first ++ second) final) :
    ∃ middle, Trace step start first middle ∧ Trace step middle second final := by
  induction second using List.reverseRecOn generalizing final with
  | nil =>
      rw [List.append_nil] at trace
      exact ⟨final, trace, .nil⟩
  | append_singleton labels label ih =>
      rw [← List.append_assoc] at trace
      obtain ⟨before, earlier, last⟩ := trace.last_step
      obtain ⟨middle, one, two⟩ := ih earlier
      exact ⟨middle, one, two.snoc last⟩

/-- The empty trace from where a trace ends, which may go on by other steps. -/
theorem restart {other : σ → α → σ → Prop} {labels : List α}
    (_ : Trace step start labels final) : Trace other final [] final :=
  .nil

/-- A trace that goes on where another ends. -/
theorem append {first second : List α} (one : Trace step start first middle)
    (two : Trace step middle second final) : Trace step start (first ++ second) final := by
  induction two with
  | nil =>
      rw [List.append_nil]
      exact one
  | snoc _ last ih =>
      rw [← List.append_assoc]
      exact ih.snoc last

theorem of_nil (trace : Trace step start [] final) : final = start := by
  generalize isLabels : ([] : List α) = labels at trace
  cases trace with
  | nil => rfl
  | snoc _ _ => exact absurd isLabels.symm (List.append_ne_nil_of_right_ne_nil _
      (List.cons_ne_nil _ _))

/-- A trace takes a step at each of its labels. -/
theorem step_at {past later : List α} {label : α}
    (trace : Trace step start (past ++ label :: later) final) :
    ∃ before after, Trace step start past before ∧ step before label after ∧
      Trace step after later final := by
  obtain ⟨before, earlier, rest⟩ := trace.split
  have rest : Trace step before ([label] ++ later) final := rest
  obtain ⟨after, one, remaining⟩ := rest.split
  have one : Trace step before ([] ++ [label]) after := one
  obtain ⟨here, none, last⟩ := one.last_step
  rw [none.of_nil] at last
  exact ⟨before, after, earlier, last, remaining⟩

/-- A property kept by every step holds after every trace. -/
theorem invariant {property : σ → Prop}
    (kept : ∀ before label after, property before → step before label after → property after)
    {labels : List α} (trace : Trace step start labels final) (holds : property start) :
    property final := by
  induction trace with
  | nil => exact holds
  | snoc _ last ih => exact kept _ _ _ ih last

/-- A property of the labels so far and the state, kept by every step. -/
theorem history {property : List α → σ → Prop}
    (kept : ∀ past before label after, property past before → step before label after →
      property (past ++ [label]) after)
    {labels : List α} (trace : Trace step start labels final) (holds : property [] start) :
    property labels final := by
  induction trace with
  | nil => exact holds
  | snoc _ last ih => exact kept _ _ _ _ ih last

/-- While the goal is not reached, no step raises the rank and the steps of one
party lower it. With more of them than the rank, the goal is reached. -/
theorem reaches {property goal : σ → Prop} {rank : σ → ℕ} {turn : α → Bool}
    (kept : ∀ before label after, property before → step before label after → property after)
    (stays : ∀ before label after, property before → step before label after →
      goal before → goal after)
    (lowers : ∀ before label after, property before → step before label after →
      goal after ∨ rank after + (if turn label then 1 else 0) ≤ rank before)
    {labels : List α} (trace : Trace step start labels final) (holds : property start)
    (enough : rank start < labels.countP turn) : goal final := by
  have counted : goal final ∨ rank final + labels.countP turn ≤ rank start := by
    clear enough
    induction trace with
    | nil => exact Or.inr (Nat.le_of_eq (Nat.add_zero _))
    | @snoc labels middle final label earlier last ih =>
        have here := earlier.invariant kept holds
        rcases ih with reached | bound
        · exact Or.inl (stays _ _ _ here last reached)
        · rcases lowers _ _ _ here last with reached | lower
          · exact Or.inl reached
          · right
            rw [List.countP_append, List.countP_singleton]
            omega
  rcases counted with reached | bound
  · exact reached
  · omega

/-- Where every step lowers the rank unless its label is one of those, a trace without such
labels is no longer than the rank. -/
theorem length_add_le {property : σ → Prop} {rank : σ → ℕ} {done : α → Prop}
    (kept : ∀ before label after, property before → step before label after → property after)
    (lowers : ∀ before label after, property before → step before label after →
      done label ∨ rank after < rank before)
    {labels : List α} (trace : Trace step start labels final) (holds : property start)
    (undone : ∀ label ∈ labels, ¬ done label) : labels.length + rank final ≤ rank start := by
  induction trace with
  | nil => exact Nat.le_of_eq (Nat.zero_add _)
  | @snoc labels middle final label earlier last ih =>
      have before := ih fun other member => undone other (List.mem_append_left _ member)
      rcases lowers _ _ _ (earlier.invariant kept holds) last with finished | lower
      · exact absurd finished (undone label (List.mem_append_right _ (List.mem_singleton_self _)))
      · rw [List.length_append, List.length_singleton]
        omega

end Trace
end InferSched.Library

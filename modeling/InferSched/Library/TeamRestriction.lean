import InferSched.Library.Program

/-! # Restricted teams

A team whose calls are answered in fewer ways, or that only moves while something
holds, reaches no configuration that the team itself does not reach. In the other
direction, a property of every reachable configuration may be assumed before each
step (`Team.reachable_assuming`), so that a discipline can build on what another one
has established. A run of one member, with the surroundings moving between its calls, is a
special case of the steps of its team (`Team.steps_of_runs`). One system follows the run
of another call by call when each call can be followed (`Program.Runs.simulate`).
-/

namespace InferSched.Library

variable {κ σ ι : Type} {ρ : ι → Type} {α : Type} [DecidableEq κ]

namespace Team

variable (team : Team κ σ ι ρ α)

/-- The team whose calls are answered only in this way. -/
def answering (served : (operation : ι) → ρ operation → Prop) : Team κ σ ι ρ α :=
  { team with
    answers := fun member shared operation answer next =>
      served operation answer ∧ team.answers member shared operation answer next }

/-- The team that moves only from states with a property. -/
def assuming (property : σ → Prop) : Team κ σ ι ρ α where
  answers member shared operation answer next :=
    property shared ∧ team.answers member shared operation answer next
  outside shared next := property shared ∧ team.outside shared next
  fails member shared next := property shared ∧ team.fails member shared next
  body := team.body
  fresh := team.fresh

variable {team} {start : σ} {config : Config κ σ ι ρ α}

theorem Step.of_answering {served : (operation : ι) → ρ operation → Prop} {next : Config κ σ ι ρ α}
    (step : (team.answering served).Step config next) : team.Step config next := by
  cases step with
  | call member here answered => exact .call member here answered.2
  | again member here => exact .again member here
  | outside moved => exact .outside moved
  | restart member failed => exact .restart member failed

theorem reachable_of_answering {served : (operation : ι) → ρ operation → Prop}
    (reached : (team.answering served).Reachable start config) : team.Reachable start config := by
  induction reached with
  | refl => exact .refl
  | tail _ step ih => exact ih.tail step.of_answering

theorem reachable_answering {served : (operation : ι) → ρ operation → Prop}
    (always : ∀ operation answer, served operation answer)
    (reached : team.Reachable start config) : (team.answering served).Reachable start config := by
  induction reached with
  | refl => exact .refl
  | tail _ step ih =>
      refine ih.tail ?_
      cases step with
      | call member here answered => exact .call member here ⟨always _ _, answered⟩
      | again member here => exact .again member here
      | outside moved => exact .outside moved
      | restart member failed => exact .restart member failed

/-- What holds in every reachable configuration may be assumed before each step. -/
theorem reachable_assuming {property : σ → Prop}
    (holds : ∀ config, team.Reachable start config → property config.shared)
    (reached : team.Reachable start config) :
    (team.assuming property).Reachable start config := by
  induction reached with
  | refl => exact .refl
  | @tail before after earlier step ih =>
      have here := holds before earlier
      refine ih.tail ?_
      cases step with
      | call member waiting answered => exact .call member waiting ⟨here, answered⟩
      | again member finished => exact .again member finished
      | outside moved => exact .outside ⟨here, moved⟩
      | restart member failed => exact .restart member ⟨here, failed⟩

theorem steps_of_outside {shared next : σ} (programs : κ → Program ι ρ α)
    (moved : Relation.ReflTransGen team.outside shared next) :
    Relation.ReflTransGen team.Step ⟨shared, programs⟩ ⟨next, programs⟩ := by
  induction moved with
  | refl => exact .refl
  | tail _ step ih => exact ih.tail (.outside step)

/-- A member that runs while nothing but the surroundings moves takes steps of its team. -/
theorem steps_of_runs {member : κ} {shared final : σ} {program : Program ι ρ α} {trace : List ι}
    {value : α} (runs : Program.Runs (fun before operation answer after => ∃ answered,
      team.answers member before operation answer answered ∧
        Relation.ReflTransGen team.outside answered after) shared program trace value final)
    {config : Config κ σ ι ρ α} (isShared : config.shared = shared)
    (here : config.programs member = program) :
    ∃ next, Relation.ReflTransGen team.Step config next ∧ next.shared = final ∧
      next.programs member = .done value := by
  induction runs generalizing config with
  | done state value => exact ⟨config, .refl, isShared, here⟩
  | @call _ after _ _ rest answer _ _ answered later ih =>
      obtain ⟨shared, programs⟩ := config
      subst isShared
      obtain ⟨between, called, moved⟩ := answered
      obtain ⟨next, steps, isFinal, finished⟩ :=
        @ih ⟨after, Function.update programs member (rest answer)⟩ rfl (Function.update_self ..)
      exact ⟨next, .head (.call member here called) ((steps_of_outside _ moved).trans steps),
        isFinal, finished⟩

end Team

namespace Program

/-- A run whose calls are answered in fewer ways. -/
theorem Runs.mono {answers more : σ → (operation : ι) → ρ operation → σ → Prop}
    {state final : σ} {program : Program ι ρ α} {trace : List ι} {value : α}
    (runs : Runs answers state program trace value final)
    (weaker : ∀ before operation answer after, answers before operation answer after →
      more before operation answer after) : Runs more state program trace value final := by
  induction runs with
  | done state value => exact .done state value
  | call answered _ ih => exact .call (weaker _ _ _ _ answered) ih

/-- A second system follows a run call by call, as far as the program keeps to rules. -/
theorem Runs.simulate {τ φ : Type} {answers : σ → (operation : ι) → ρ operation → σ → Prop}
    {shadows : τ → (operation : ι) → ρ operation → τ → Prop} (related : τ → σ → Prop)
    {rules : Rules ι ρ φ}
    (calls : ∀ {known operation answer shadow state next}, rules.allowed known operation →
      related shadow state → answers state operation answer next →
        ∃ later, shadows shadow operation answer later ∧ related later next)
    {state final : σ} {program : Program ι ρ α} {trace : List ι} {value : α}
    (runs : Runs answers state program trace value final) {post : Set φ → α → Prop}
    {known : Set φ} (within : Within rules post known program) {shadow : τ}
    (here : related shadow state) :
    ∃ last, Runs shadows shadow program trace value last ∧ related last final := by
  induction runs generalizing known shadow with
  | done state value => exact ⟨shadow, .done shadow value, here⟩
  | call answered _ ih =>
      obtain ⟨allowed, rest⟩ := within
      obtain ⟨later, shadowed, after⟩ := calls allowed here answered
      obtain ⟨last, ran, isLast⟩ := ih (rest _) after
      exact ⟨last, .call shadowed ran, isLast⟩

end Program
end InferSched.Library

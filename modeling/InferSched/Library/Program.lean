import Mathlib.Data.Set.Basic
import Mathlib.Logic.Function.Basic
import Mathlib.Logic.Relation

/-! # Programs on shared state

`Program` is a sequential program as the calls it makes: it is finished, or it
makes a call and goes on with the answer. A `Team` runs any number of such
programs on one shared state; calls are atomic, and between them other steps
happen that no program takes.

`Team.Discipline` is the rule for reasoning about a team. A program learns facts
from answers, facts once true stay true, and a program may make a call only when
it knows what the call requires. If every program keeps to that
(`Program.Within`), then in every reachable state the invariant holds and every
call about to be made is one that true facts allow
(`Team.Discipline.call_allowed`).
-/

namespace InferSched.Library

/-- A program that makes calls of `ι`, each answered in `ρ`. -/
inductive Program (ι : Type) (ρ : ι → Type) (α : Type) : Type
  | done (value : α)
  | call (operation : ι) (next : ρ operation → Program ι ρ α)

namespace Program

variable {ι : Type} {ρ : ι → Type} {α β : Type}

def bind (program : Program ι ρ α) (next : α → Program ι ρ β) : Program ι ρ β :=
  match program with
  | .done value => next value
  | .call operation rest => .call operation fun answer => (rest answer).bind next

instance : Monad (Program ι ρ) where
  pure := .done
  bind := .bind

/-- The program that makes one call and returns its answer. -/
def perform (operation : ι) : Program ι ρ (ρ operation) :=
  .call operation .done

/-- A program of a part of an interface as a program of the whole. -/
def lift {ι' : Type} {ρ' : ι' → Type} (inject : ι → ι')
    (answer : (operation : ι) → ρ' (inject operation) → ρ operation) :
    Program ι ρ α → Program ι' ρ' α
  | .done value => .done value
  | .call operation next =>
      .call (inject operation) fun answered => (next (answer operation answered)).lift inject answer

/-- What a program may call, given the facts it knows, and what it learns from
the answers. -/
structure Rules (ι : Type) (ρ : ι → Type) (φ : Type) where
  allowed : Set φ → ι → Prop
  learns : (operation : ι) → ρ operation → Set φ
  mono : ∀ {known more : Set φ} {operation : ι}, known ⊆ more → allowed known operation →
    allowed more operation

variable {φ : Type} (rules : Rules ι ρ φ)

/-- A program keeps to the rules when it starts with these facts, and ends with
facts and a value that satisfy the postcondition. -/
def Within (post : Set φ → α → Prop) : Set φ → Program ι ρ α → Prop
  | known, .done value => post known value
  | known, .call operation next =>
      rules.allowed known operation ∧
        ∀ answer, Within post (known ∪ rules.learns operation answer) (next answer)

variable {rules}

theorem within_bind {post : Set φ → β → Prop} {program : Program ι ρ α}
    {next : α → Program ι ρ β} {known : Set φ}
    (first : Within rules (fun facts value => Within rules post facts (next value)) known program) :
    Within rules post known (program >>= next) := by
  change Within rules post known (program.bind next)
  induction program generalizing known with
  | done value => exact first
  | call operation rest ih => exact ⟨first.1, fun answer => ih answer (first.2 answer)⟩

theorem within_perform {post : Set φ → β → Prop} {operation : ι}
    {next : ρ operation → Program ι ρ β} {known : Set φ} (allowed : rules.allowed known operation)
    (later : ∀ answer, Within rules post (known ∪ rules.learns operation answer) (next answer)) :
    Within rules post known (perform operation >>= next) :=
  ⟨allowed, later⟩

/-- A weaker postcondition and more facts. -/
theorem Within.mono {post weaker : Set φ → α → Prop} {program : Program ι ρ α}
    {known more : Set φ} (within : Within rules post known program) (subset : known ⊆ more)
    (weaken : ∀ facts larger value, facts ⊆ larger → more ⊆ larger → post facts value →
      weaker larger value) : Within rules weaker more program := by
  induction program generalizing known more with
  | done value => exact weaken known more value subset le_rfl within
  | call operation rest ih =>
      refine ⟨rules.mono subset within.1, fun answer => ?_⟩
      apply ih answer (within.2 answer) (Set.union_subset_union_left _ subset)
      intro facts larger value smaller include'
      exact weaken facts larger value smaller (Set.subset_union_left.trans include')

/-- A program followed by one that starts with at least the same facts. -/
theorem within_seq {post : Set φ → β → Prop} {program : Program ι ρ α}
    {next : α → Program ι ρ β} {known : Set φ}
    (first : Within rules (fun _ _ => True) known program)
    (later : ∀ facts value, known ⊆ facts → Within rules post facts (next value)) :
    Within rules post known (program >>= next) := by
  apply within_bind
  exact first.mono le_rfl fun _ larger value _ more _ => later larger value more

/-- A program followed by one that keeps to the rules with any facts. -/
theorem within_then {post : Set φ → β → Prop} {program : Program ι ρ α}
    {next : α → Program ι ρ β} {known : Set φ}
    (first : Within rules (fun _ _ => True) known program)
    (later : ∀ facts value, Within rules post facts (next value)) :
    Within rules post known (program >>= next) :=
  within_seq first fun facts value _ => later facts value

/-- A part of an interface whose calls are always allowed. -/
theorem within_lift {ι' : Type} {ρ' : ι' → Type} {rules : Rules ι' ρ' φ} {inject : ι → ι'}
    {answer : (operation : ι) → ρ' (inject operation) → ρ operation}
    (free : ∀ known operation, rules.allowed known (inject operation))
    {post : Set φ → α → Prop} {known : Set φ} (program : Program ι ρ α)
    (ends : ∀ facts value, known ⊆ facts → post facts value) :
    Within rules post known (program.lift inject answer) := by
  induction program generalizing known with
  | done value => exact ends known value le_rfl
  | call operation next ih =>
      refine ⟨free known operation, fun answered => ih _ ?_⟩
      intro facts value subset
      exact ends facts value (Set.subset_union_left.trans subset)

/-! ### Undisturbed runs -/

/-- A program runs to its end with no one else acting, and makes these calls. -/
inductive Runs {σ : Type} (answers : σ → (operation : ι) → ρ operation → σ → Prop) :
    σ → Program ι ρ α → List ι → α → σ → Prop
  | done (state : σ) (value : α) : Runs answers state (.done value) [] value state
  | call {state next final : σ} {operation : ι} {rest : ρ operation → Program ι ρ α}
      {answer : ρ operation} {trace : List ι} {value : α}
      (answered : answers state operation answer next)
      (later : Runs answers next (rest answer) trace value final) :
      Runs answers state (.call operation rest) (operation :: trace) value final

namespace Runs

variable {σ : Type} {answers : σ → (operation : ι) → ρ operation → σ → Prop}

/-- A run of a sequence is a run of its first part and one of the rest. -/
theorem split {program : Program ι ρ α} {next : α → Program ι ρ β} {state final : σ}
    {trace : List ι} {value : β} (runs : Runs answers state (program >>= next) trace value final) :
    ∃ first later middle result, trace = first ++ later ∧
      Runs answers state program first result middle ∧
      Runs answers middle (next result) later value final := by
  change Runs answers state (program.bind next) trace value final at runs
  induction program generalizing state trace with
  | done result => exact ⟨[], trace, state, result, rfl, .done state result, runs⟩
  | call operation rest ih =>
      cases runs with
      | @call _ after _ _ _ answer trace _ answered later =>
          obtain ⟨first, last, middle, result, rfl, ran, finished⟩ := ih answer later
          exact ⟨operation :: first, last, middle, result, rfl, .call answered ran, finished⟩

/-- The first call of a run. -/
theorem of_perform {operation : ι} {next : ρ operation → Program ι ρ β} {state final : σ}
    {trace : List ι} {value : β}
    (runs : Runs answers state (perform operation >>= next) trace value final) :
    ∃ answer after later, answers state operation answer after ∧ trace = operation :: later ∧
      Runs answers after (next answer) later value final := by
  cases runs with
  | call answered later => exact ⟨_, _, _, answered, rfl, later⟩

/-- What every call of a part of an interface keeps, a program of that part
keeps, and it makes no other calls. -/
theorem of_lift {ι' : Type} {ρ' : ι' → Type} {inject : ι → ι'}
    {answer : (operation : ι) → ρ' (inject operation) → ρ operation}
    {answers : σ → (operation : ι') → ρ' operation → σ → Prop} (kept : σ → σ → Prop)
    (refl : ∀ state, kept state state)
    (trans : ∀ {one two three}, kept one two → kept two three → kept one three)
    (calls : ∀ {state operation answered next},
      answers state (inject operation) answered next → kept state next)
    {program : Program ι ρ α} {state final : σ} {trace : List ι'} {value : α}
    (runs : Runs answers state (program.lift inject answer) trace value final) :
    kept state final ∧ ∀ operation ∈ trace, ∃ part, operation = inject part := by
  induction program generalizing state trace with
  | done result =>
      cases runs
      exact ⟨refl _, fun _ member => absurd member List.not_mem_nil⟩
  | call operation rest ih =>
      cases runs with
      | call answered later =>
          obtain ⟨keeps, parts⟩ := ih _ later
          refine ⟨trans (calls answered) keeps, ?_⟩
          intro called member
          rcases List.mem_cons.mp member with rfl | inLater
          · exact ⟨operation, rfl⟩
          · exact parts called inLater

end Runs
end Program

open Program

/-- Programs on a shared state: how a member's call is answered, what happens
besides, how a member fails, and the body each member repeats. -/
structure Team (κ σ ι : Type) (ρ : ι → Type) (α : Type) where
  answers : κ → σ → (operation : ι) → ρ operation → σ → Prop
  outside : σ → σ → Prop
  fails : κ → σ → σ → Prop
  body : κ → α → Program ι ρ α
  fresh : κ → α

namespace Team

variable {κ σ ι : Type} {ρ : ι → Type} {α : Type} [DecidableEq κ] (team : Team κ σ ι ρ α)

/-- The shared state and the rest of every member's program. -/
structure Config (κ σ ι : Type) (ρ : ι → Type) (α : Type) where
  shared : σ
  programs : κ → Program ι ρ α

inductive Step : Config κ σ ι ρ α → Config κ σ ι ρ α → Prop
  | call {shared next : σ} {programs : κ → Program ι ρ α} (member : κ) {operation : ι}
      {rest : ρ operation → Program ι ρ α} {answer : ρ operation}
      (here : programs member = .call operation rest)
      (answered : team.answers member shared operation answer next) :
      Step ⟨shared, programs⟩ ⟨next, Function.update programs member (rest answer)⟩
  | again {shared : σ} {programs : κ → Program ι ρ α} (member : κ) {value : α}
      (here : programs member = .done value) :
      Step ⟨shared, programs⟩ ⟨shared, Function.update programs member (team.body member value)⟩
  | outside {shared next : σ} {programs : κ → Program ι ρ α} (moved : team.outside shared next) :
      Step ⟨shared, programs⟩ ⟨next, programs⟩
  | restart {shared next : σ} {programs : κ → Program ι ρ α} (member : κ)
      (failed : team.fails member shared next) :
      Step ⟨shared, programs⟩
        ⟨next, Function.update programs member (team.body member (team.fresh member))⟩

/-- The configuration in which every member starts its body. -/
def initial (shared : σ) : Config κ σ ι ρ α :=
  ⟨shared, fun member => team.body member (team.fresh member)⟩

/-- Reached from the start by any interleaving of steps. -/
def Reachable (shared : σ) (config : Config κ σ ι ρ α) : Prop :=
  Relation.ReflTransGen team.Step (team.initial shared) config

section Alone

variable {team : Team Unit σ ι ρ α} {start shared next : σ}

theorem update_alone (programs : Unit → Program ι ρ α) (program : Program ι ρ α) :
    Function.update programs () program = fun _ => program := by
  funext member
  cases member
  exact Function.update_self ..

/-- The only member makes its next call. -/
theorem call_alone {operation : ι} {rest : ρ operation → Program ι ρ α}
    (here : team.Reachable start ⟨shared, fun _ => .call operation rest⟩) (answer : ρ operation)
    (answered : team.answers () shared operation answer next) :
    team.Reachable start ⟨next, fun _ => rest answer⟩ := by
  have step := here.tail (Step.call () rfl answered)
  rwa [update_alone] at step

/-- The only member starts its body again. -/
theorem again_alone {value : α} (here : team.Reachable start ⟨shared, fun _ => .done value⟩) :
    team.Reachable start ⟨shared, fun _ => team.body () value⟩ := by
  have step := here.tail (Step.again () rfl)
  rwa [update_alone] at step

end Alone

/-- A step in which a member at most makes its next call: it neither starts its
body again nor fails. -/
inductive Advance (member : κ) : Config κ σ ι ρ α → Config κ σ ι ρ α → Prop
  | own {shared next : σ} {programs : κ → Program ι ρ α} {operation : ι}
      {rest : ρ operation → Program ι ρ α} {answer : ρ operation}
      (here : programs member = .call operation rest)
      (answered : team.answers member shared operation answer next) :
      Advance member ⟨shared, programs⟩ ⟨next, Function.update programs member (rest answer)⟩
  | other {config next : Config κ σ ι ρ α} (step : team.Step config next)
      (same : next.programs member = config.programs member) : Advance member config next

variable {team} in
theorem Advance.step {member : κ} {config next : Config κ σ ι ρ α}
    (advance : team.Advance member config next) : team.Step config next := by
  cases advance with
  | own here answered => exact .call member here answered
  | other step same => exact step

variable {team} in
/-- A member that has finished its program has made its first call, and what that
call brought about and every step keeps is then still so. -/
theorem first_call_done {member : κ} {shared : σ} {config final : Config κ σ ι ρ α}
    {operation : ι} {rest : ρ operation → Program ι ρ α} {value : α} (property : σ → Prop)
    (reached : team.Reachable shared config)
    (here : config.programs member = .call operation rest)
    (kept : ∀ {config next}, team.Reachable shared config → team.Step config next →
      property config.shared → property next.shared)
    (called : ∀ {config : Config κ σ ι ρ α} {answer next}, team.Reachable shared config →
      config.programs member = .call operation rest →
      team.answers member config.shared operation answer next → property next)
    (advances : Relation.ReflTransGen (team.Advance member) config final)
    (finished : final.programs member = .done value) : property final.shared := by
  have along : team.Reachable shared final ∧
      (final.programs member = .call operation rest ∨ property final.shared) := by
    clear finished
    induction advances with
    | refl => exact ⟨reached, Or.inl here⟩
    | tail _ advance ih =>
        obtain ⟨before, waiting | holds⟩ := ih
        · refine ⟨before.tail advance.step, ?_⟩
          cases advance with
          | own first answered =>
              cases first.symm.trans waiting
              exact Or.inr (called before waiting answered)
          | other step same => exact Or.inl (same.trans waiting)
        · exact ⟨before.tail advance.step, Or.inr (kept before advance.step holds)⟩
  rcases along.2 with waiting | holds
  · rw [finished] at waiting
    cases waiting
  · exact holds

/-- Rules for the members of a team, with an invariant of the shared state under
which every allowed call keeps the invariant and the facts. -/
structure Discipline (φ : Type) extends Rules ι ρ φ where
  holds : σ → φ → Prop
  invariant : σ → Prop
  calls : ∀ {member shared operation answer next known}, invariant shared →
    (∀ fact ∈ known, holds shared fact) → allowed known operation →
    team.answers member shared operation answer next →
    invariant next ∧ (∀ fact, holds shared fact → holds next fact) ∧
      ∀ fact ∈ learns operation answer, holds next fact
  moves : ∀ {shared next}, invariant shared →
    (team.outside shared next ∨ ∃ member, team.fails member shared next) →
    invariant next ∧ ∀ fact, holds shared fact → holds next fact
  bodies : ∀ member value, Within toRules (fun _ _ => True) ∅ (team.body member value)

namespace Discipline

variable {team} {φ : Type} (discipline : team.Discipline φ)

/-- Every member knows only true facts and keeps to the rules. -/
def Disciplined (config : Config κ σ ι ρ α) : Prop :=
  discipline.invariant config.shared ∧ ∀ member, ∃ known : Set φ,
    (∀ fact ∈ known, discipline.holds config.shared fact) ∧
      Within discipline.toRules (fun _ _ => True) known (config.programs member)

variable {discipline}

omit [DecidableEq κ] in
theorem disciplined_initial {shared : σ} (start : discipline.invariant shared) :
    discipline.Disciplined (team.initial shared) :=
  ⟨start, fun member => ⟨∅, fun _ member => absurd member (Set.notMem_empty _),
    discipline.bodies member _⟩⟩

/-- One member's program is replaced, the others keep what they know. -/
theorem disciplined_update {shared next : σ} {programs : κ → Program ι ρ α} {member : κ}
    {program : Program ι ρ α} (disciplined : discipline.Disciplined ⟨shared, programs⟩)
    (kept : discipline.invariant next)
    (stable : ∀ fact, discipline.holds shared fact → discipline.holds next fact)
    (replaced : ∃ known : Set φ, (∀ fact ∈ known, discipline.holds next fact) ∧
      Within discipline.toRules (fun _ _ => True) known program) :
    discipline.Disciplined ⟨next, Function.update programs member program⟩ := by
  refine ⟨kept, fun other => ?_⟩
  by_cases same : other = member
  · subst same
    simpa only [Function.update_self] using replaced
  · obtain ⟨known, true', within⟩ := disciplined.2 other
    refine ⟨known, fun fact isKnown => stable fact (true' fact isKnown), ?_⟩
    simpa only [Function.update_of_ne same] using within

theorem disciplined_step {config next : Config κ σ ι ρ α}
    (disciplined : discipline.Disciplined config) (step : team.Step config next) :
    discipline.Disciplined next := by
  have empty : ∀ shared : σ, ∀ fact ∈ (∅ : Set φ), discipline.holds shared fact :=
    fun _ _ member => absurd member (Set.notMem_empty _)
  cases step with
  | @call shared next programs member operation rest answer here answered =>
      obtain ⟨known, true', within⟩ := disciplined.2 member
      change Within _ _ known (programs member) at within
      rw [here] at within
      obtain ⟨kept, stable, learned⟩ :=
        discipline.calls disciplined.1 true' within.1 answered
      apply disciplined_update disciplined kept stable
      refine ⟨_, ?_, within.2 answer⟩
      rintro fact (old | new)
      · exact stable fact (true' fact old)
      · exact learned fact new
  | again member here =>
      exact disciplined_update disciplined disciplined.1 (fun _ holds => holds)
        ⟨∅, empty _, discipline.bodies member _⟩
  | outside moved =>
      obtain ⟨kept, stable⟩ := discipline.moves disciplined.1 (Or.inl moved)
      refine ⟨kept, fun member => ?_⟩
      obtain ⟨known, true', within⟩ := disciplined.2 member
      exact ⟨known, fun fact isKnown => stable fact (true' fact isKnown), within⟩
  | restart member failed =>
      obtain ⟨kept, stable⟩ := discipline.moves disciplined.1 (Or.inr ⟨member, failed⟩)
      exact disciplined_update disciplined kept stable ⟨∅, empty _, discipline.bodies member _⟩

variable (discipline)

/-- The invariant and the rules hold in every reachable configuration. -/
theorem disciplined_of_reachable {shared : σ} {config : Config κ σ ι ρ α}
    (start : discipline.invariant shared) (reached : team.Reachable shared config) :
    discipline.Disciplined config := by
  induction reached with
  | refl => exact disciplined_initial start
  | tail _ step ih => exact disciplined_step ih step

/-- A call about to be made in a reachable configuration is one that true facts
allow. -/
theorem call_allowed {shared : σ} {config : Config κ σ ι ρ α}
    (start : discipline.invariant shared) (reached : team.Reachable shared config) {member : κ}
    {operation : ι} {rest : ρ operation → Program ι ρ α}
    (here : config.programs member = .call operation rest) :
    ∃ known : Set φ, (∀ fact ∈ known, discipline.holds config.shared fact) ∧
      discipline.allowed known operation := by
  obtain ⟨known, true', within⟩ := (discipline.disciplined_of_reachable start reached).2 member
  rw [here] at within
  exact ⟨known, true', within.1⟩

end Discipline
end Team
end InferSched.Library

import InferSched.Library.Program
import InferSched.Library.Transition

/-! # Tasks in progress

Any number of members run tasks as programs on one shared state, one task at a
time each. Every call of a program is a step of its own, so the calls of the
members interleave, and a member can crash between any two of its calls. A member
keeps a value from task to task, which a crash resets.

The labels of a trace say who called what and how it was answered. A task that
ends has made its calls along its program (`Tasks.Step.ended_path`), whatever the
others did meanwhile.
-/

namespace InferSched.Library

namespace Program

/-- A call and its answer. -/
abbrev Exchange (ι : Type) (ρ : ι → Type) : Type := (operation : ι) × ρ operation

variable {ι : Type} {ρ : ι → Type} {α β : Type}

/-- What is left of a program after some exchanges. -/
inductive Path : Program ι ρ α → List (Exchange ι ρ) → Program ι ρ α → Prop
  | nil (program : Program ι ρ α) : Path program [] program
  | cons {operation : ι} {rest : ρ operation → Program ι ρ α} {answer : ρ operation}
      {made : List (Exchange ι ρ)} {final : Program ι ρ α}
      (later : Path (rest answer) made final) :
      Path (.call operation rest) (⟨operation, answer⟩ :: made) final

namespace Path

/-- One more call is answered. -/
theorem snoc {program : Program ι ρ α} {made : List (Exchange ι ρ)} {operation : ι}
    {rest : ρ operation → Program ι ρ α} (path : Path program made (.call operation rest))
    (answer : ρ operation) : Path program (made ++ [⟨operation, answer⟩]) (rest answer) := by
  generalize waiting : Program.call operation rest = final at path
  induction path with
  | nil =>
      subst waiting
      exact .cons (.nil _)
  | cons _ ih => exact .cons (ih waiting)

/-- A finished program has no more exchanges. -/
theorem of_done {value result : α} {made : List (Exchange ι ρ)}
    (path : Path (.done value) made (.done result)) : made = [] ∧ result = value := by
  cases path
  exact ⟨rfl, rfl⟩

/-- The first exchange of a program that begins with a call. -/
theorem of_perform {operation : ι} {next : ρ operation → Program ι ρ β}
    {made : List (Exchange ι ρ)} {value : β}
    (path : Path (perform operation >>= next) made (.done value)) :
    ∃ answer later, made = ⟨operation, answer⟩ :: later ∧
      Path (next answer) later (.done value) := by
  cases path with
  | @cons _ _ answer later _ rest => exact ⟨answer, later, rfl, rest⟩

end Path
end Program

open Program

/-- What the members run: how a call is answered, what happens besides, the program
of a task, and what a member keeps. -/
structure Tasks (κ σ τ ς ι : Type) (ρ : ι → Type) (α ε : Type) where
  answers : κ → σ → (operation : ι) → ρ operation → σ → Prop
  outside : σ → ε → σ → Prop
  body : κ → ς → τ → Program ι ρ α
  keep : α → ς
  fresh : κ → ς

namespace Tasks

variable {κ σ τ ς ι : Type} {ρ : ι → Type} {α ε : Type}

/-- A task, the exchanges it has made and the rest of its program. -/
structure Running (τ ι : Type) (ρ : ι → Type) (α : Type) where
  task : τ
  made : List (Exchange ι ρ)
  rest : Program ι ρ α

structure State (κ σ τ ς ι : Type) (ρ : ι → Type) (α : Type) where
  shared : σ
  kept : κ → ς
  running : κ → Option (Running τ ι ρ α)

inductive Event (κ τ ι : Type) (ρ : ι → Type) (α ε : Type)
  | began (member : κ) (task : τ)
  | called (member : κ) (exchange : Exchange ι ρ)
  | ended (member : κ) (task : τ) (made : List (Exchange ι ρ)) (value : α)
  | crashed (member : κ)
  | outside (event : ε)

variable [DecidableEq κ] (tasks : Tasks κ σ τ ς ι ρ α ε)

inductive Step (state : State κ σ τ ς ι ρ α) :
    Event κ τ ι ρ α ε → State κ σ τ ς ι ρ α → Prop
  | began {member : κ} {task : τ} (idle : state.running member = none) :
      Step state (.began member task) { state with
        running := Function.update state.running member
          (some ⟨task, [], tasks.body member (state.kept member) task⟩) }
  | called {member : κ} {task : τ} {made : List (Exchange ι ρ)} {operation : ι}
      {rest : ρ operation → Program ι ρ α} {answer : ρ operation} {next : σ}
      (here : state.running member = some ⟨task, made, .call operation rest⟩)
      (answered : tasks.answers member state.shared operation answer next) :
      Step state (.called member ⟨operation, answer⟩) { state with
        shared := next
        running := Function.update state.running member
          (some ⟨task, made ++ [⟨operation, answer⟩], rest answer⟩) }
  | ended {member : κ} {task : τ} {made : List (Exchange ι ρ)} {value : α}
      (here : state.running member = some ⟨task, made, .done value⟩) :
      Step state (.ended member task made value) { state with
        kept := Function.update state.kept member (tasks.keep value)
        running := Function.update state.running member none }
  | crashed {member : κ} :
      Step state (.crashed member) { state with
        kept := Function.update state.kept member (tasks.fresh member)
        running := Function.update state.running member none }
  | outside {event : ε} {next : σ} (moved : tasks.outside state.shared event next) :
      Step state (.outside event) { state with shared := next }

/-- No member has begun a task. -/
def start (shared : σ) : State κ σ τ ς ι ρ α := ⟨shared, tasks.fresh, fun _ => none⟩

/-- Every task in progress has come along its program. -/
def Consistent (state : State κ σ τ ς ι ρ α) : Prop :=
  ∀ member running, state.running member = some running →
    Path (tasks.body member (state.kept member) running.task) running.made running.rest

variable {tasks}
variable {state next : State κ σ τ ς ι ρ α} {label : Event κ τ ι ρ α ε}

/-- The task of one member changes, the others go on. -/
theorem Consistent.update (consistent : tasks.Consistent state) {member : κ} {kept : κ → ς}
    {shared : σ} {current : Option (Running τ ι ρ α)}
    (others : ∀ other, other ≠ member → kept other = state.kept other)
    (path : ∀ running, current = some running →
      Path (tasks.body member (kept member) running.task) running.made running.rest) :
    tasks.Consistent ⟨shared, kept, Function.update state.running member current⟩ := by
  intro other running found
  by_cases same : other = member
  · subst same
    simp only [Function.update_self] at found
    exact path running found
  · simp only [Function.update_of_ne same] at found
    change Path (tasks.body other (kept other) running.task) _ _
    rw [others other same]
    exact consistent other running found

theorem Consistent.step (consistent : tasks.Consistent state)
    (step : tasks.Step state label next) : tasks.Consistent next := by
  cases step with
  | began idle =>
      apply consistent.update (fun _ _ => rfl)
      intro running isRunning
      cases isRunning
      exact .nil _
  | called here answered =>
      apply consistent.update (fun _ _ => rfl)
      intro running isRunning
      cases isRunning
      exact (consistent _ _ here).snoc _
  | ended here =>
      apply consistent.update
      · exact fun _ other => Function.update_of_ne other _ _
      · exact fun _ isRunning => by cases isRunning
  | crashed =>
      apply consistent.update
      · exact fun _ other => Function.update_of_ne other _ _
      · exact fun _ isRunning => by cases isRunning
  | outside moved => exact consistent

/-- Tasks come along their programs in every run. -/
theorem consistent_of_trace {shared : σ} {labels : List (Event κ τ ι ρ α ε)}
    (trace : Trace tasks.Step (tasks.start shared) labels state) : tasks.Consistent state :=
  trace.invariant (fun _ _ _ consistent step => consistent.step step)
    fun _ _ isRunning => by cases isRunning

/-- A task that ends has made its calls along its program. -/
theorem Step.ended_path {member : κ} {task : τ} {made : List (Exchange ι ρ)} {value : α}
    (consistent : tasks.Consistent state)
    (step : tasks.Step state (.ended member task made value) next) :
    Path (tasks.body member (state.kept member) task) made (.done value) := by
  cases step with
  | ended here => exact consistent _ _ here

/-- The exchange of a member, if the event is one. -/
def Event.exchangeOf (member : κ) : Event κ τ ι ρ α ε → Option (Exchange ι ρ)
  | .called caller exchange => if caller = member then some exchange else none
  | _ => none

/-- The task of a member after the task of some member changed. -/
theorem running_update {running : κ → Option (Running τ ι ρ α)} {caller member : κ}
    {current : Option (Running τ ι ρ α)} {found : Running τ ι ρ α}
    (isFound : Function.update running caller current member = some found) :
    (caller = member ∧ current = some found) ∨ (caller ≠ member ∧ running member = some found) := by
  by_cases same : caller = member
  · subst same
    rw [Function.update_self] at isFound
    exact Or.inl ⟨rfl, isFound⟩
  · rw [Function.update_of_ne (Ne.symm same)] at isFound
    exact Or.inr ⟨same, isFound⟩

/-- The exchanges of a task in progress are the last ones of its member. -/
theorem made_suffix {shared : σ} {labels : List (Event κ τ ι ρ α ε)}
    (trace : Trace tasks.Step (tasks.start shared) labels state) {member : κ}
    {running : Running τ ι ρ α} (found : state.running member = some running) :
    running.made <:+ labels.filterMap (Event.exchangeOf member) := by
  induction trace generalizing running with
  | nil => cases found
  | @snoc labels before state label earlier last ih =>
      have silent : Event.exchangeOf member label = none → before.running member = some running →
          running.made <:+ (labels ++ [label]).filterMap (Event.exchangeOf member) := by
        intro none going
        rw [List.filterMap_append, List.filterMap_cons_none none, List.filterMap_nil,
          List.append_nil]
        exact ih going
      cases last with
      | began idle =>
          rcases running_update found with ⟨_, fresh⟩ | ⟨_, going⟩
          · cases fresh
            exact List.nil_suffix
          · exact silent rfl going
      | called here answered =>
          rcases running_update found with ⟨same, advanced⟩ | ⟨other, going⟩
          · cases advanced
            subst same
            obtain ⟨first, isSuffix⟩ := ih here
            refine ⟨first, ?_⟩
            rw [List.filterMap_append, ← isSuffix, ← List.append_assoc]
            simp [Event.exchangeOf]
          · exact silent (if_neg other) going
      | ended here =>
          rcases running_update found with ⟨_, ended⟩ | ⟨_, going⟩
          · cases ended
          · exact silent rfl going
      | crashed =>
          rcases running_update found with ⟨_, ended⟩ | ⟨_, going⟩
          · cases ended
          · exact silent rfl going
      | outside moved => exact silent rfl found

/-- A task in progress has made its calls in this run. -/
theorem called_of_made {shared : σ} {labels : List (Event κ τ ι ρ α ε)}
    (trace : Trace tasks.Step (tasks.start shared) labels state) {member : κ}
    {running : Running τ ι ρ α} (found : state.running member = some running)
    {exchange : Exchange ι ρ} (isMade : exchange ∈ running.made) :
    Event.called member exchange ∈ labels := by
  obtain ⟨label, isLabel, isExchange⟩ :=
    List.mem_filterMap.mp ((made_suffix trace found).subset isMade)
  unfold Event.exchangeOf at isExchange
  split at isExchange
  · split at isExchange
    · next same =>
        cases isExchange
        subst same
        exact isLabel
    · cases isExchange
  · cases isExchange

/-- A task that ended in a run has made its calls in this run, along its program. -/
theorem ended_of_trace {shared : σ} {labels : List (Event κ τ ι ρ α ε)}
    (trace : Trace tasks.Step (tasks.start shared) labels state) {member : κ} {task : τ}
    {made : List (Exchange ι ρ)} {value : α}
    (ended : Event.ended member task made value ∈ labels) :
    (∃ kept, Path (tasks.body member kept task) made (.done value)) ∧
      ∀ exchange ∈ made, Event.called member exchange ∈ labels := by
  induction trace with
  | nil => cases ended
  | @snoc labels before after label earlier step ih =>
      rcases List.mem_append.mp ended with old | last
      · obtain ⟨path, calls⟩ := ih old
        exact ⟨path, fun exchange isMade => List.mem_append_left _ (calls exchange isMade)⟩
      · cases List.mem_singleton.mp last
        refine ⟨⟨_, step.ended_path (consistent_of_trace earlier)⟩, ?_⟩
        intro exchange isMade
        cases step with
        | ended here => exact List.mem_append_left _ (called_of_made earlier here isMade)

/-- A property that the calls and the outside keep holds in every state of a run. -/
theorem shared_invariant {property : σ → Prop}
    (answered : ∀ {member shared operation answer next}, property shared →
      tasks.answers member shared operation answer next → property next)
    (moved : ∀ {shared event next}, property shared → tasks.outside shared event next →
      property next)
    {labels : List (Event κ τ ι ρ α ε)} (trace : Trace tasks.Step state labels next)
    (holds : property state.shared) : property next.shared := by
  have each : ∀ before label after, property before.shared → tasks.Step before label after →
      property after.shared := by
    intro before label after here step
    cases step with
    | began => exact here
    | called _ answer => exact answered here answer
    | ended => exact here
    | crashed => exact here
    | outside move => exact moved here move
  exact @Trace.invariant _ _ _ _ _ (fun reached => property reached.shared) each _ trace holds

end Tasks
end InferSched.Library

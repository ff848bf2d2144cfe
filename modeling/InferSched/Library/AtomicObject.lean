import Mathlib.Data.List.Basic

/-! # Objects with atomic calls

A shared object answers one call at a time: a call reads the state, gives a
response and leaves a new state. Callers on any number of threads or machines
interleave their calls in some order, so a run of the object is a list of calls.
`AtomicObject.invariant` carries a property of states along every run, and
`AtomicObject.history_invariant` a property that also reads the calls and
responses so far. Where the callers keep to conditions, `AtomicObject.legal_invariant`
does so along the runs that meet them. What the calls do besides is listed by
`AtomicObject.emitted`.
-/

namespace InferSched.Library

/-- State-passing semantics of an object with atomic calls. -/
structure AtomicObject (σ ι ο : Type*) where
  respond : ι → σ → ο × σ

namespace AtomicObject

variable {σ ι ο : Type*} (object : AtomicObject σ ι ο)

/-- The state after a list of calls. -/
def run : List ι → σ → σ
  | [], state => state
  | call :: calls, state => run calls (object.respond call state).2

/-- The calls of a run, each with the response it received. -/
def history : List ι → σ → List (ι × ο)
  | [], _ => []
  | call :: calls, state =>
      (call, (object.respond call state).1) :: history calls (object.respond call state).2

@[simp] theorem run_nil (state : σ) : object.run [] state = state := rfl

@[simp] theorem run_cons (call : ι) (calls : List ι) (state : σ) :
    object.run (call :: calls) state = object.run calls (object.respond call state).2 := rfl

theorem run_append (first second : List ι) (state : σ) :
    object.run (first ++ second) state = object.run second (object.run first state) := by
  induction first generalizing state with
  | nil => rfl
  | cons call calls ih => exact ih _

/-- A property kept by every call holds after every run. -/
theorem invariant {property : σ → Prop}
    (step : ∀ call state, property state → property (object.respond call state).2)
    (calls : List ι) (state : σ) (start : property state) : property (object.run calls state) := by
  induction calls generalizing state with
  | nil => exact start
  | cons call calls ih => exact ih _ (step call state start)

/-- A property of the history and the state, kept by every call, holds after
every run. -/
theorem history_invariant {property : List (ι × ο) → σ → Prop}
    (step : ∀ past call state, property past state →
      property (past ++ [(call, (object.respond call state).1)]) (object.respond call state).2)
    (calls : List ι) (state : σ) (start : property [] state) :
    property (object.history calls state) (object.run calls state) := by
  have extend : ∀ past state, property past state →
      property (past ++ object.history calls state) (object.run calls state) := by
    induction calls with
    | nil => intro past state holds; simpa [history] using holds
    | cons call calls ih =>
        intro past state holds
        have later := ih _ _ (step past call state holds)
        simpa [history] using later
  simpa using extend [] state start

/-- Every call of a run is allowed in the state in which it is made. -/
def Legal (allowed : ι → σ → Prop) : List ι → σ → Prop
  | [], _ => True
  | call :: calls, state =>
      allowed call state ∧ Legal allowed calls (object.respond call state).2

theorem legal_append {allowed : ι → σ → Prop} (first second : List ι) (state : σ) :
    object.Legal allowed (first ++ second) state ↔
      object.Legal allowed first state ∧ object.Legal allowed second (object.run first state) := by
  induction first generalizing state with
  | nil => simp [Legal]
  | cons call calls ih =>
      rw [List.cons_append, Legal, ih, Legal, run_cons, and_assoc]

/-- A property kept by the allowed calls holds after every legal run. -/
theorem legal_invariant {allowed : ι → σ → Prop} {property : σ → Prop}
    (step : ∀ call state, allowed call state → property state →
      property (object.respond call state).2)
    (calls : List ι) (state : σ) (legal : object.Legal allowed calls state)
    (start : property state) : property (object.run calls state) := by
  induction calls generalizing state with
  | nil => exact start
  | cons call calls ih => exact ih _ legal.2 (step call state legal.1 start)

/-- What the calls of a run emit, in order. -/
def emitted {ε : Type*} (emits : ι → σ → List ε) : List ι → σ → List ε
  | [], _ => []
  | call :: calls, state => emits call state ++ emitted emits calls (object.respond call state).2

/-- A property of what was emitted and the state, kept by every call, holds after
every run. -/
theorem emitted_invariant {ε : Type*} {emits : ι → σ → List ε} {property : List ε → σ → Prop}
    (step : ∀ past call state, property past state →
      property (past ++ emits call state) (object.respond call state).2)
    (calls : List ι) (state : σ) (past : List ε) (start : property past state) :
    property (past ++ object.emitted emits calls state) (object.run calls state) := by
  induction calls generalizing past state with
  | nil => exact (List.append_nil past).symm ▸ start
  | cons call calls ih =>
      rw [emitted, ← List.append_assoc]
      exact ih _ _ (step past call state start)

/-- When every call keeps a property of states and emits only what is allowed from
such states, then a run emits only what is allowed. -/
theorem emitted_allowed {ε : Type*} {emits : ι → σ → List ε} {property : σ → Prop}
    {allowed : ε → Prop}
    (step : ∀ call state, property state → property (object.respond call state).2)
    (each : ∀ call state, property state → ∀ item ∈ emits call state, allowed item)
    (calls : List ι) (state : σ) (start : property state) :
    ∀ item ∈ object.emitted emits calls state, allowed item := by
  induction calls generalizing state with
  | nil => exact List.forall_mem_nil _
  | cons call calls ih =>
      exact List.forall_mem_append.mpr ⟨each call state start, ih _ (step call state start)⟩

end AtomicObject
end InferSched.Library

import InferSched.Basic

/-! # Execution states

The life of an admitted request (`execution_state.cpp`).
-/

namespace InferSched.Engine

/-- Where a sequence is between its submission and its completion. -/
inductive ExecutionState
  | waitingAdmission
  | prefilling
  | decode
  | preempted
  | completed
  | failed
deriving DecidableEq, Repr

namespace ExecutionState

/-- The transitions that `TransitionTo` accepts. -/
def canTransition (source target : ExecutionState) : Bool :=
  if source = .completed ∨ source = .failed then false
  else if target = .failed then true
  else
    match source with
    | .waitingAdmission => target = .prefilling
    | .prefilling => target = .decode || target = .preempted
    | .decode => target = .completed || target = .preempted
    | .preempted => target = .waitingAdmission
    | .completed => false
    | .failed => false

/-- `ExecutionStateMachine::TransitionTo`. -/
def transitionTo (state next : ExecutionState) : Bool × ExecutionState :=
  if canTransition state next then (true, next) else (false, state)

end ExecutionState
end InferSched.Engine

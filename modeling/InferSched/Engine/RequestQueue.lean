import InferSched.Engine.Request
import InferSched.Library.PriorityQueue

/-! # The request queue

`RequestQueue` (`request_queue.cpp`) is a `std::priority_queue` that gives the
request of the earliest arrival, and among those the one of the least id. The
standard leaves open which of two requests with the same arrival and the same id
comes first, so the queue is any container with the contract of `PriorityQueue`.
-/

namespace InferSched.Engine

open Library

/-- The order of the queue: `Later` with its arguments exchanged. -/
def arrivesBefore (first second : EngineRequest) : Bool :=
  if first.arrivalTime ≠ second.arrivalTime then decide (first.arrivalTime < second.arrivalTime)
  else decide (first.requestId < second.requestId)

/-- A container that can serve as the request queue. -/
abbrev RequestQueue (η : Type) := PriorityQueue η EngineRequest arrivesBefore

namespace RequestQueue

variable {η : Type} [RequestQueue η]

/-- The foremost request, if it has arrived. -/
def popReady (pending : η) (now : ℤ) : Option (EngineRequest × η) :=
  match PriorityQueue.pop pending with
  | none => none
  | some (request, rest) => if request.arrivalTime > now then none else some (request, rest)

/-- When the first request in the queue arrives. -/
def nextArrival (pending : η) : Option ℤ :=
  (PriorityQueue.top? pending).map EngineRequest.arrivalTime

/-- A ready request is the first of the queue, and has arrived. -/
theorem popReady_eq_some {pending rest : η} {now : ℤ} {request : EngineRequest}
    (popped : popReady pending now = some (request, rest)) :
    PriorityQueue.pop pending = some (request, rest) ∧ request.arrivalTime ≤ now := by
  unfold popReady at popped
  split at popped
  · cases popped
  · next found =>
      split at popped
      · cases popped
      · next arrived =>
          cases popped
          exact ⟨found, Int.not_lt.mp arrived⟩

/-- A request is ready once its arrival is reached. -/
theorem popReady_isSome {pending : η} {now arrival : ℤ}
    (next : nextArrival pending = some arrival) (reached : arrival ≤ now) :
    (popReady pending now).isSome := by
  unfold nextArrival PriorityQueue.top? at next
  unfold popReady
  cases popped : PriorityQueue.pop pending with
  | none =>
      rw [popped] at next
      cases next
  | some entry =>
      obtain ⟨request, rest⟩ := entry
      rw [popped] at next
      cases next
      dsimp only
      rw [if_neg (Int.not_lt.mpr reached)]
      rfl

/-- Only an empty queue has no next arrival. -/
theorem size_of_nextArrival {pending : η} (none : nextArrival pending = none) :
    PriorityQueue.size pending = 0 := by
  by_contra inhabited
  apply PriorityQueue.pop_ne_none inhabited
  exact Option.map_eq_none_iff.mp (Option.map_eq_none_iff.mp none)

theorem arrivesBefore_irrefl (request : EngineRequest) : arrivesBefore request request = false := by
  simp [arrivesBefore]

theorem arrivesBefore_trans (first second third : EngineRequest)
    (one : arrivesBefore first second = true) (two : arrivesBefore second third = true) :
    arrivesBefore first third = true := by
  unfold arrivesBefore at *
  by_cases sameOne : first.arrivalTime = second.arrivalTime
  · by_cases sameTwo : second.arrivalTime = third.arrivalTime
    · simp only [sameOne, sameTwo, ne_eq, not_true_eq_false, ↓reduceIte, decide_eq_true_eq] at *
      exact lt_trans one two
    · simp only [sameOne, sameTwo, ne_eq, not_true_eq_false, not_false_eq_true, ↓reduceIte,
        decide_eq_true_eq] at *
      exact two
  · rw [if_pos sameOne, decide_eq_true_eq] at one
    by_cases sameTwo : second.arrivalTime = third.arrivalTime
    · rw [if_pos (fun same => sameOne (same.trans sameTwo.symm)), decide_eq_true_eq]
      exact sameTwo ▸ one
    · rw [if_pos sameTwo, decide_eq_true_eq] at two
      rw [if_pos (lt_trans one two).ne, decide_eq_true_eq]
      exact lt_trans one two

/-- Requests in the order they were pushed. -/
instance : RequestQueue (SelectionQueue EngineRequest) :=
  SelectionQueue.queue arrivesBefore_trans arrivesBefore_irrefl

end RequestQueue
end InferSched.Engine

import Mathlib.Algebra.Group.Nat.Defs
import Mathlib.Logic.Function.Basic
import InferSched.Library.Transition

/-! # The bounded ring of many producers and one consumer

`MpscRing` (`mpsc_ring.hpp`) is a queue without locks. A producer claims a position
by a compare-exchange on `enqueue_position_`, writes its value into the slot of that
position and then publishes the slot through the sequence number in it. The one
consumer takes the slots in order and gives each of them to the next lap.

Every access to shared memory is one step, and the steps of the threads interleave
in any order. A thread is the point it has reached inside its call together with the
local variables that are live there. Positions are unbounded numbers.
-/

namespace InferSched.Concurrency

open Library

variable {ι α : Type*}

structure Cell (α : Type*) where
  sequence : ℕ
  value : Option α
deriving DecidableEq, Repr

structure MpscRing (α : Type*) where
  capacity : ℕ
  cells : List (Cell α)
  enqueuePosition : ℕ := 0
  dequeuePosition : ℕ := 0
deriving DecidableEq, Repr

/-- `std::has_single_bit`. -/
def hasSingleBit (value : ℕ) : Bool :=
  value ≠ 0 && value &&& (value - 1) = 0

namespace MpscRing

def new (capacity : ℕ) : Except String (MpscRing α) :=
  if capacity < 2 || !hasSingleBit capacity then
    .error "MPSC capacity must be a power of two >= 2"
  else
    .ok { capacity, cells := (List.range capacity).map fun index => ⟨index, none⟩ }

def mask (ring : MpscRing α) : ℕ :=
  ring.capacity - 1

/-- The index of the cell that a position uses. -/
def slot (ring : MpscRing α) (position : ℕ) : ℕ :=
  position &&& ring.mask

def cell? (ring : MpscRing α) (position : ℕ) : Option (Cell α) :=
  ring.cells[ring.slot position]?

/-- `enqueue_position_.compare_exchange_weak(position, position + 1)`, when it succeeds. -/
def claim (ring : MpscRing α) : MpscRing α :=
  { ring with enqueuePosition := ring.enqueuePosition + 1 }

/-- A write into the cell that a position uses. -/
def update (ring : MpscRing α) (position : ℕ) (change : Cell α → Cell α) : MpscRing α :=
  { ring with cells := ring.cells.modify (ring.slot position) change }

/-- `cell.sequence.store(sequence)`. -/
def store (ring : MpscRing α) (position sequence : ℕ) : MpscRing α :=
  ring.update position fun cell => { cell with sequence }

/-- `cell.value.emplace(value)` and `cell.value.reset()`. -/
def put (ring : MpscRing α) (position : ℕ) (value : Option α) : MpscRing α :=
  ring.update position fun cell => { cell with value }

/-- `++dequeue_position_`. -/
def advance (ring : MpscRing α) : MpscRing α :=
  { ring with dequeuePosition := ring.dequeuePosition + 1 }

end MpscRing

/-- A thread inside `TryPush(value)`. -/
inductive Producer (α : Type*)
  | idle
  /-- It loads `enqueue_position_` next. -/
  | loading (value : α)
  /-- It loads the sequence number of the slot of `position` next. -/
  | examining (value : α) (position : ℕ)
  /-- The difference was zero: the compare-exchange is next. -/
  | claiming (value : α) (position : ℕ)
  /-- It has won `position` and writes its value next. -/
  | writing (value : α) (position : ℕ)
  /-- Its value is in the slot, and the store of the sequence number is next. -/
  | publishing (position : ℕ)
deriving DecidableEq, Repr

/-- The thread that calls `TryPop()`. -/
inductive Consumer (α : Type*)
  | idle
  /-- The difference was zero: it moves the value out of the slot next. -/
  | taking
  /-- It has the value and releases the slot next. An absent value is one read from
  an empty optional. -/
  | releasing (value : Option α)
  /-- The slot is released, and `++dequeue_position_` is next. -/
  | advancing (value : Option α)
deriving DecidableEq, Repr

/-- What a step says: the calls of `TryPush`, the positions they win, the replies of
both operations and the slots that are given to the next lap. -/
inductive Event (ι α : Type*)
  | call (producer : ι) (value : α)
  | won (producer : ι) (position : ℕ) (value : α)
  | pushed (producer : ι) (position : ℕ)
  | full (producer : ι)
  | empty
  | released
  | popped (value : Option α)
  | quiet
deriving DecidableEq, Repr

structure System (ι α : Type*) where
  ring : MpscRing α
  producers : ι → Producer α
  consumer : Consumer α

namespace System

/-- All threads are outside their calls. -/
def start (ring : MpscRing α) : System ι α where
  ring := ring
  producers := fun _ => .idle
  consumer := .idle

/-- One producer goes on, with the ring as it leaves it. -/
def produce [DecidableEq ι] (system : System ι α) (producer : ι) (next : Producer α)
    (ring : MpscRing α) : System ι α :=
  { system with ring, producers := Function.update system.producers producer next }

/-- The consumer goes on, with the ring as it leaves it. -/
def consume (system : System ι α) (next : Consumer α) (ring : MpscRing α) : System ι α :=
  { system with ring, consumer := next }

/-- The atomic steps of `TryPush` and `TryPop`. -/
inductive Step [DecidableEq ι] : System ι α → Event ι α → System ι α → Prop
  | call {system : System ι α} {i : ι} {value : α} (idle : system.producers i = .idle) :
      Step system (.call i value) (system.produce i (.loading value) system.ring)
  | load {system : System ι α} {i : ι} {value : α}
      (loading : system.producers i = .loading value) :
      Step system .quiet
        (system.produce i (.examining value system.ring.enqueuePosition) system.ring)
  /-- `difference == 0`. -/
  | fits {system : System ι α} {i : ι} {value : α} {position : ℕ} {cell : Cell α}
      (examining : system.producers i = .examining value position)
      (loaded : system.ring.cell? position = some cell)
      (difference : cell.sequence = position) :
      Step system .quiet (system.produce i (.claiming value position) system.ring)
  /-- `difference < 0`. -/
  | full {system : System ι α} {i : ι} {value : α} {position : ℕ} {cell : Cell α}
      (examining : system.producers i = .examining value position)
      (loaded : system.ring.cell? position = some cell)
      (difference : cell.sequence < position) :
      Step system (.full i) (system.produce i .idle system.ring)
  /-- `difference > 0`. -/
  | stale {system : System ι α} {i : ι} {value : α} {position : ℕ} {cell : Cell α}
      (examining : system.producers i = .examining value position)
      (loaded : system.ring.cell? position = some cell)
      (difference : position < cell.sequence) :
      Step system .quiet (system.produce i (.loading value) system.ring)
  | win {system : System ι α} {i : ι} {value : α} {position : ℕ}
      (claiming : system.producers i = .claiming value position)
      (unchanged : system.ring.enqueuePosition = position) :
      Step system (.won i position value)
        (system.produce i (.writing value position) system.ring.claim)
  /-- The exchange fails, because the position was taken or for no reason, and leaves the
  position it found. -/
  | lose {system : System ι α} {i : ι} {value : α} {position : ℕ}
      (claiming : system.producers i = .claiming value position) :
      Step system .quiet
        (system.produce i (.examining value system.ring.enqueuePosition) system.ring)
  | write {system : System ι α} {i : ι} {value : α} {position : ℕ}
      (writing : system.producers i = .writing value position) :
      Step system .quiet
        (system.produce i (.publishing position) (system.ring.put position (some value)))
  | publish {system : System ι α} {i : ι} {position : ℕ}
      (publishing : system.producers i = .publishing position) :
      Step system (.pushed i position)
        (system.produce i .idle (system.ring.store position (position + 1)))
  | empty {system : System ι α} {cell : Cell α} (idle : system.consumer = .idle)
      (loaded : system.ring.cell? system.ring.dequeuePosition = some cell)
      (difference : cell.sequence ≠ system.ring.dequeuePosition + 1) :
      Step system .empty system
  | ready {system : System ι α} {cell : Cell α} (idle : system.consumer = .idle)
      (loaded : system.ring.cell? system.ring.dequeuePosition = some cell)
      (difference : cell.sequence = system.ring.dequeuePosition + 1) :
      Step system .quiet (system.consume .taking system.ring)
  | take {system : System ι α} {cell : Cell α} (taking : system.consumer = .taking)
      (loaded : system.ring.cell? system.ring.dequeuePosition = some cell) :
      Step system .quiet
        (system.consume (.releasing cell.value)
          (system.ring.put system.ring.dequeuePosition none))
  | release {system : System ι α} {value : Option α}
      (releasing : system.consumer = .releasing value) :
      Step system .released
        (system.consume (.advancing value)
          (system.ring.store system.ring.dequeuePosition
            (system.ring.dequeuePosition + system.ring.capacity)))
  | advance {system : System ι α} {value : Option α}
      (advancing : system.consumer = .advancing value) :
      Step system (.popped value) (system.consume .idle system.ring.advance)

end System

/-! ### Histories -/

/-- The positions won so far, with who won them and the values pushed there. -/
def wins : List (Event ι α) → List (ι × ℕ × α) :=
  List.filterMap fun event =>
    match event with
    | .won producer position value => some (producer, position, value)
    | _ => none

/-- The positions whose calls of `TryPush` have returned true. -/
def pushes : List (Event ι α) → List (ι × ℕ) :=
  List.filterMap fun event =>
    match event with
    | .pushed producer position => some (producer, position)
    | _ => none

/-- The replies of the successful calls of `TryPop`. -/
def pops : List (Event ι α) → List (Option α) :=
  List.filterMap fun event =>
    match event with
    | .popped value => some value
    | _ => none

/-- How many slots were given to the next lap. -/
def releases : List (Event ι α) → ℕ :=
  List.countP fun event =>
    match event with
    | .released => true
    | _ => false

end InferSched.Concurrency

import Mathlib.Data.Nat.Count
import Mathlib.Data.Int.ModEq
import Mathlib.Order.Interval.Finset.Nat
import InferSched.Concurrency.MpscRing

/-! # The invariant of the ring

The positions that are claimed and not yet released form a window of at most
`capacity` positions, and each of them has a slot of its own. A slot counts its
position until the winner of the position publishes it, one more until the consumer
releases it, and then the position of the next lap. So a producer that still holds an
old position sees a number that is too large and one that finds the ring full sees a
number that is too small.
-/

namespace InferSched.Concurrency

open Library

variable {ι α : Type*}

/-! ### Slots -/

namespace MpscRing

theorem hasSingleBit_iff (value : ℕ) : hasSingleBit value = true ↔ value.isPowerOfTwo := by
  unfold hasSingleBit
  rw [Bool.and_eq_true, decide_eq_true_eq, decide_eq_true_eq]
  exact Nat.ne_zero_and_sub_one_eq_zero_iff_isPowerOfTwo

/-- The capacities that the constructor takes, and the ring it makes of them. -/
theorem new_eq_ok_iff {capacity : ℕ} {ring : MpscRing α} :
    new capacity = .ok ring ↔ 2 ≤ capacity ∧ capacity.isPowerOfTwo ∧
      ring = { capacity, cells := (List.range capacity).map fun index => ⟨index, none⟩ } := by
  have accepted : (capacity < 2 || !hasSingleBit capacity) = true ↔
      ¬ (2 ≤ capacity ∧ capacity.isPowerOfTwo) := by
    rw [Bool.or_eq_true, decide_eq_true_eq, Bool.not_eq_true', ← Bool.not_eq_true,
      hasSingleBit_iff, not_and_or, Nat.not_le]
  unfold new
  rw [← and_assoc]
  split
  · next refused =>
      constructor
      · intro created
        cases created
      · intro valid
        exact absurd valid.1 (accepted.mp refused)
  · next taken =>
      have valid := not_not.mp (mt accepted.mpr taken)
      constructor
      · intro created
        cases created
        exact ⟨valid, rfl⟩
      · intro made
        rw [made.2]

/-- What the constructor settles for good. -/
structure Sound (ring : MpscRing α) : Prop where
  two_le : 2 ≤ ring.capacity
  power : ring.capacity.isPowerOfTwo
  length : ring.cells.length = ring.capacity

variable {ring : MpscRing α} {position other sequence : ℕ} {value : Option α}

theorem Sound.slot_eq (sound : ring.Sound) (position : ℕ) :
    ring.slot position = position % ring.capacity := by
  obtain ⟨exponent, isPower⟩ := sound.power
  unfold slot mask
  rw [isPower, Nat.and_two_pow_sub_one_eq_mod]

theorem Sound.pos (sound : ring.Sound) : 0 < ring.capacity :=
  Nat.lt_of_lt_of_le Nat.zero_lt_two sound.two_le

/-- Positions of one window have slots of their own. -/
theorem Sound.slot_ne (sound : ring.Sound) {first : ℕ}
    (inside : first ≤ position ∧ position < first + ring.capacity)
    (otherInside : first ≤ other ∧ other < first + ring.capacity) (differ : position ≠ other) :
    ring.slot position ≠ ring.slot other := by
  rw [sound.slot_eq, sound.slot_eq]
  intro same
  exact differ (Nat.mod_injOn_Ico first ring.capacity (Finset.mem_coe.mpr
    (Finset.mem_Ico.mpr inside)) (Finset.mem_coe.mpr (Finset.mem_Ico.mpr otherInside)) same)

/-- Every position shares its slot with one of the window. -/
theorem Sound.exists_representative (sound : ring.Sound) (first position : ℕ) :
    ∃ current, (first ≤ current ∧ current < first + ring.capacity) ∧
      current % ring.capacity = position % ring.capacity := by
  have within : position % ring.capacity ∈ Finset.range ring.capacity :=
    Finset.mem_range.mpr (Nat.mod_lt _ sound.pos)
  rw [← Nat.image_Ico_mod first ring.capacity] at within
  obtain ⟨current, inside, same⟩ := Finset.mem_image.mp within
  exact ⟨current, Finset.mem_Ico.mp inside, same⟩

/-- Two positions of one slot are a lap apart. -/
theorem lap_le {capacity : ℕ} (same : other % capacity = position % capacity)
    (before : other < position) : other + capacity ≤ position := by
  have divides : capacity ∣ position - other :=
    (Nat.modEq_iff_dvd' (Nat.le_of_lt before)).mp same
  have apart := Nat.le_of_dvd (Nat.sub_pos_of_lt before) divides
  omega

theorem cell?_eq_of_mod (sound : ring.Sound)
    (same : other % ring.capacity = position % ring.capacity) :
    ring.cell? other = ring.cell? position := by
  unfold cell?
  rw [sound.slot_eq, sound.slot_eq, same]

theorem cell?_update_self {cell : Cell α} {change : Cell α → Cell α}
    (present : ring.cell? position = some cell) :
    (ring.update position change).cell? position = some (change cell) := by
  unfold cell? at present
  have modified : (ring.cells.modify (ring.slot position) change)[ring.slot position]? =
      some (change cell) := by
    rw [List.getElem?_modify_eq, present]
    rfl
  exact modified

theorem cell?_update_ne {change : Cell α → Cell α}
    (differ : ring.slot other ≠ ring.slot position) :
    (ring.update position change).cell? other = ring.cell? other := by
  have kept : (ring.cells.modify (ring.slot position) change)[ring.slot other]? =
      ring.cells[ring.slot other]? :=
    List.getElem?_modify_ne _ _ differ.symm
  exact kept

theorem Sound.update {change : Cell α → Cell α} (sound : ring.Sound) :
    (ring.update position change).Sound :=
  ⟨sound.two_le, sound.power, (List.length_modify _ _ _).trans sound.length⟩

theorem Sound.of_new {capacity : ℕ} (created : new capacity = .ok ring) : ring.Sound := by
  obtain ⟨two_le, power, rfl⟩ := new_eq_ok_iff.mp created
  refine ⟨two_le, power, ?_⟩
  rw [List.length_map, List.length_range]

theorem cell?_of_new {capacity : ℕ} (created : new capacity = .ok ring)
    (below : position < ring.capacity) : ring.cell? position = some ⟨position, none⟩ := by
  have sound := Sound.of_new created
  obtain ⟨-, -, rfl⟩ := new_eq_ok_iff.mp created
  unfold cell?
  rw [sound.slot_eq, Nat.mod_eq_of_lt below, List.getElem?_map, List.getElem?_range below]
  rfl

end MpscRing

/-! ### The invariant -/

/-- The position that a producer has won and not published yet. -/
def Producer.owns : Producer α → Option ℕ
  | .writing _ position => some position
  | .publishing position => some position
  | _ => none

namespace System

/-- The first position whose slot is not given to the next lap. -/
def tail (system : System ι α) : ℕ :=
  match system.consumer with
  | .advancing _ => system.ring.dequeuePosition + 1
  | _ => system.ring.dequeuePosition

/-- The consumer has moved the value out of the slot of this position. -/
def Taken (system : System ι α) (position : ℕ) : Prop :=
  position = system.ring.dequeuePosition ∧ ∃ value, system.consumer = .releasing value

/-- The value that was pushed at a position. -/
def valueAt (won : List (ι × ℕ × α)) (position : ℕ) : Option α :=
  won[position]?.map fun win => win.2.2

/-- A slot of the window: free or claimed, or published and not yet released. -/
def Slotted (system : System ι α) (won : List (ι × ℕ × α)) (position : ℕ) (cell : Cell α) :
    Prop :=
  cell.sequence = position ∨
    cell.sequence = position + 1 ∧ position < system.ring.enqueuePosition ∧
      (system.Taken position ∨ cell.value = valueAt won position)

/-- A producer's position is one of the window from the moment it was found free. -/
def ProducerAt (system : System ι α) (won : List (ι × ℕ × α)) (producer : ι) :
    Producer α → Prop
  | .idle => True
  | .loading _ => True
  | .examining _ position => position ≤ system.ring.enqueuePosition
  | .claiming _ position => position < system.tail + system.ring.capacity
  | .writing value position =>
      system.tail ≤ position ∧ won[position]? = some (producer, position, value) ∧
        ∃ cell, system.ring.cell? position = some cell ∧ cell.sequence = position
  | .publishing position =>
      system.tail ≤ position ∧ ∃ value, won[position]? = some (producer, position, value) ∧
        ∃ cell, system.ring.cell? position = some cell ∧ cell.sequence = position ∧
          cell.value = some value

/-- The consumer is at a published slot, and what it has taken was pushed there. -/
def ConsumerAt (system : System ι α) (won : List (ι × ℕ × α)) : Consumer α → Prop
  | .idle => True
  | .taking =>
      ∃ cell, system.ring.cell? system.ring.dequeuePosition = some cell ∧
        cell.sequence = system.ring.dequeuePosition + 1
  | .releasing value =>
      value = valueAt won system.ring.dequeuePosition ∧
        system.ring.dequeuePosition < system.ring.enqueuePosition ∧
          ∃ cell, system.ring.cell? system.ring.dequeuePosition = some cell ∧
            cell.sequence = system.ring.dequeuePosition + 1
  | .advancing value => value = valueAt won system.ring.dequeuePosition

/-- A producer stays where it is while others take steps, unless its slot is touched. -/
theorem ProducerAt.mono {before after : System ι α} {won more : List (ι × ℕ × α)} {i : ι}
    {point : Producer α} (there : before.ProducerAt won i point)
    (enqueue : before.ring.enqueuePosition ≤ after.ring.enqueuePosition)
    (capacity : before.ring.capacity = after.ring.capacity) (tail : before.tail ≤ after.tail)
    (entries : ∀ (position : ℕ) entry, won[position]? = some entry → more[position]? = some entry)
    (untouched : ∀ position, point.owns = some position → after.tail ≤ position ∧
      after.ring.cell? position = before.ring.cell? position) : after.ProducerAt more i point := by
  cases point with
  | idle => trivial
  | loading => trivial
  | examining value position => exact Nat.le_trans there enqueue
  | claiming value position =>
      have below : position < before.tail + before.ring.capacity := there
      change position < after.tail + after.ring.capacity
      omega
  | writing value position =>
      obtain ⟨-, isWon, cell, present, counts⟩ := there
      obtain ⟨first, same⟩ := untouched position rfl
      exact ⟨first, entries _ _ isWon, cell, same.trans present, counts⟩
  | publishing position =>
      obtain ⟨-, value, isWon, cell, present, counts⟩ := there
      obtain ⟨first, same⟩ := untouched position rfl
      exact ⟨first, value, entries _ _ isWon, cell, same.trans present, counts⟩

/-- The consumer stays where it is while producers take steps in other slots. -/
theorem ConsumerAt.mono {before after : System ι α} {won more : List (ι × ℕ × α)}
    {point : Consumer α} (there : before.ConsumerAt won point) (isAt : before.consumer = point)
    (enqueue : before.ring.enqueuePosition ≤ after.ring.enqueuePosition)
    (dequeue : before.ring.dequeuePosition = after.ring.dequeuePosition)
    (values : ∀ value, point = .releasing value ∨ point = .advancing value →
      valueAt won before.ring.dequeuePosition = valueAt more before.ring.dequeuePosition)
    (untouched : before.tail = before.ring.dequeuePosition →
      ∀ cell, before.ring.cell? before.ring.dequeuePosition = some cell →
        cell.sequence = before.ring.dequeuePosition + 1 →
          after.ring.cell? before.ring.dequeuePosition = some cell) :
    after.ConsumerAt more point := by
  unfold tail at untouched
  rw [isAt] at untouched
  cases point with
  | idle => trivial
  | taking =>
      obtain ⟨cell, present, counts⟩ := there
      refine ⟨cell, ?_⟩
      rw [← dequeue]
      exact ⟨untouched rfl cell present counts, counts⟩
  | releasing value =>
      obtain ⟨isValue, before, cell, present, counts⟩ := there
      refine ⟨?_, ?_, cell, ?_⟩
      · rw [← dequeue, ← values value (Or.inl rfl)]
        exact isValue
      · rw [← dequeue]
        exact Nat.lt_of_lt_of_le before enqueue
      · rw [← dequeue]
        exact ⟨untouched rfl cell present counts, counts⟩
  | advancing value =>
      change value = valueAt more after.ring.dequeuePosition
      rw [← dequeue, ← values value (Or.inr rfl)]
      exact there

/-- What holds between any two steps, of the ring, its threads and the positions won. -/
structure Invariant (won : List (ι × ℕ × α)) (system : System ι α) : Prop where
  sound : system.ring.Sound
  numbered : won.map (fun win => win.2.1) = List.range system.ring.enqueuePosition
  tail_le : system.tail ≤ system.ring.enqueuePosition
  le_tail : system.ring.enqueuePosition ≤ system.tail + system.ring.capacity
  slotted : ∀ position, system.tail ≤ position →
    position < system.tail + system.ring.capacity →
      ∃ cell, system.ring.cell? position = some cell ∧ system.Slotted won position cell
  producers : ∀ producer, system.ProducerAt won producer (system.producers producer)
  exclusive : ∀ one two position, (system.producers one).owns = some position →
    (system.producers two).owns = some position → one = two
  consumer : system.ConsumerAt won system.consumer

namespace Invariant

variable {won : List (ι × ℕ × α)} {system : System ι α}

theorem length_won (invariant : Invariant won system) :
    won.length = system.ring.enqueuePosition := by
  have counted := congrArg List.length invariant.numbered
  rw [List.length_map, List.length_range] at counted
  exact counted

theorem start {capacity : ℕ} {ring : MpscRing α} (created : MpscRing.new capacity = .ok ring) :
    Invariant [] (System.start (ι := ι) ring) := by
  have empty : ring.enqueuePosition = 0 ∧ ring.dequeuePosition = 0 := by
    obtain ⟨-, -, rfl⟩ := MpscRing.new_eq_ok_iff.mp created
    exact ⟨rfl, rfl⟩
  have atZero : (System.start (ι := ι) ring).tail = 0 := empty.2
  refine ⟨.of_new created, ?_, ?_, ?_, ?_, fun _ => trivial, ?_, trivial⟩
  · exact (congrArg List.range empty.1).symm
  · rw [atZero]
    exact Nat.zero_le _
  · exact Nat.le_trans (Nat.le_of_eq empty.1) (Nat.zero_le _)
  · intro position _ inside
    rw [atZero, Nat.zero_add] at inside
    exact ⟨⟨position, none⟩, MpscRing.cell?_of_new created inside, Or.inl rfl⟩
  · intro one two position owned
    cases owned

/-- What a producer learns from the sequence number in the slot of its position. -/
theorem examined (invariant : Invariant won system) {i : ι} {value : α} {position : ℕ}
    {cell : Cell α} (examining : system.producers i = .examining value position)
    (loaded : system.ring.cell? position = some cell) :
    (cell.sequence = position → position < system.tail + system.ring.capacity) ∧
      (cell.sequence < position →
        system.ring.enqueuePosition = system.tail + system.ring.capacity) := by
  have there := invariant.producers i
  rw [examining] at there
  have behind : position ≤ system.ring.enqueuePosition := there
  have atMost := invariant.le_tail
  have two_le := invariant.sound.two_le
  obtain ⟨current, inside, same⟩ :=
    invariant.sound.exists_representative system.tail position
  obtain ⟨found, present, slotted⟩ := invariant.slotted current inside.1 inside.2
  rw [MpscRing.cell?_eq_of_mod invariant.sound same, loaded] at present
  cases present
  have bounds : current ≤ cell.sequence ∧ cell.sequence ≤ current + 1 := by
    rcases slotted with free | ⟨published, -, -⟩ <;> omega
  constructor
  · intro equal
    -- the slot can be one ahead only of a position of the same lap
    by_cases before : current < position
    · have lap := MpscRing.lap_le same before
      omega
    · omega
  · intro less
    have lap := MpscRing.lap_le same (Nat.lt_of_le_of_lt bounds.1 less)
    omega

/-- An owner has won its position, and the slot still counts that position. -/
theorem owned (invariant : Invariant won system) {i : ι} {position : ℕ}
    (owns : (system.producers i).owns = some position) :
    (system.tail ≤ position ∧ position < system.tail + system.ring.capacity) ∧
      position < system.ring.enqueuePosition ∧
        ∃ cell, system.ring.cell? position = some cell ∧ cell.sequence = position := by
  have there := invariant.producers i
  have le_tail := invariant.le_tail
  have length := invariant.length_won
  have below : ∀ {entry : ι × ℕ × α}, won[position]? = some entry →
      position < system.ring.enqueuePosition := by
    intro entry found
    rw [← length]
    exact (List.getElem?_eq_some_iff.mp found).1
  generalize system.producers i = at_ at there owns
  cases at_ with
  | writing value found =>
      cases owns
      obtain ⟨first, isWon, cell, present, counts⟩ := there
      have last := below isWon
      exact ⟨⟨first, by omega⟩, last, cell, present, counts⟩
  | publishing found =>
      cases owns
      obtain ⟨first, value, isWon, cell, present, counts, -⟩ := there
      have last := below isWon
      exact ⟨⟨first, by omega⟩, last, cell, present, counts⟩
  | _ => cases owns

/-- A consumer that has a value is at a claimed position. -/
theorem dequeue_lt (invariant : Invariant won system) {value : Option α}
    (holds : system.consumer = .releasing value ∨ system.consumer = .advancing value) :
    system.ring.dequeuePosition < system.ring.enqueuePosition := by
  have there := invariant.consumer
  have tail_le := invariant.tail_le
  unfold tail at tail_le
  rcases holds with isAt | isAt
  · rw [isAt] at there
    exact there.2.1
  · rw [isAt] at tail_le
    exact tail_le

variable [DecidableEq ι]

theorem exclusive_update (invariant : Invariant won system) {i : ι} {next : Producer α}
    (alone : ∀ position, next.owns = some position →
      ∀ other ≠ i, (system.producers other).owns ≠ some position) :
    ∀ one two position, (Function.update system.producers i next one).owns = some position →
      (Function.update system.producers i next two).owns = some position → one = two := by
  intro one two position ownedByOne ownedByTwo
  by_cases oneIs : one = i <;> by_cases twoIs : two = i
  · exact oneIs.trans twoIs.symm
  · rw [oneIs, Function.update_self] at ownedByOne
    rw [Function.update_of_ne twoIs] at ownedByTwo
    exact absurd ownedByTwo (alone position ownedByOne two twoIs)
  · rw [twoIs, Function.update_self] at ownedByTwo
    rw [Function.update_of_ne oneIs] at ownedByOne
    exact absurd ownedByOne (alone position ownedByTwo one oneIs)
  · rw [Function.update_of_ne oneIs] at ownedByOne
    rw [Function.update_of_ne twoIs] at ownedByTwo
    exact invariant.exclusive one two position ownedByOne ownedByTwo

/-- A producer goes on without a write. -/
theorem produce (invariant : Invariant won system) {i : ι} {next : Producer α}
    (there : system.ProducerAt won i next) (free : next.owns = none) :
    Invariant won (system.produce i next system.ring) := by
  refine ⟨invariant.sound, invariant.numbered, invariant.tail_le, invariant.le_tail,
    invariant.slotted, ?_, ?_, invariant.consumer⟩
  · exact (Function.forall_update_iff system.producers (system.ProducerAt won)).mpr
      ⟨there, fun other _ => invariant.producers other⟩
  · apply invariant.exclusive_update
    intro position owns
    rw [free] at owns
    cases owns

/-- A producer whose compare-exchange succeeds owns the next position. -/
theorem win (invariant : Invariant won system) {i : ι} {value : α} {position : ℕ}
    (claiming : system.producers i = .claiming value position)
    (unchanged : system.ring.enqueuePosition = position) :
    Invariant (won ++ [(i, position, value)])
      (system.produce i (.writing value position) system.ring.claim) := by
  have there := invariant.producers i
  rw [claiming] at there
  have free : position < system.tail + system.ring.capacity := there
  have length := invariant.length_won
  have tail_le := invariant.tail_le
  rw [unchanged] at length tail_le
  have kept : ∀ {earlier : ℕ} {entry : ι × ℕ × α}, won[earlier]? = some entry →
      (won ++ [(i, position, value)])[earlier]? = some entry := by
    intro earlier entry found
    rw [List.getElem?_append_left (List.getElem?_eq_some_iff.mp found).1]
    exact found
  have sameValue : ∀ earlier < position,
      valueAt (won ++ [(i, position, value)]) earlier = valueAt won earlier := by
    intro earlier before
    unfold valueAt
    rw [List.getElem?_append_left (length.symm ▸ before)]
  have slotted : ∀ found cell, system.Slotted won found cell →
      (system.produce i (.writing value position) system.ring.claim).Slotted
        (won ++ [(i, position, value)]) found cell := by
    rintro found cell (unclaimed | ⟨published, before, held⟩)
    · exact Or.inl unclaimed
    · rw [unchanged] at before
      refine Or.inr ⟨published, Nat.lt_of_lt_of_eq (Nat.lt_succ_of_lt before) ?_, ?_⟩
      · exact congrArg Nat.succ unchanged.symm
      · rw [sameValue found before]
        exact held
  refine ⟨⟨invariant.sound.two_le, invariant.sound.power, invariant.sound.length⟩, ?_, ?_, ?_,
    ?_, ?_, ?_, ?_⟩
  · have numbered := invariant.numbered
    rw [unchanged] at numbered
    change _ = List.range (system.ring.enqueuePosition + 1)
    rw [List.map_append, numbered, unchanged, List.range_succ]
    rfl
  · exact Nat.le_succ_of_le invariant.tail_le
  · change system.ring.enqueuePosition + 1 ≤ system.tail + system.ring.capacity
    omega
  · intro found after before
    obtain ⟨cell, present, held⟩ := invariant.slotted found after before
    exact ⟨cell, present, slotted found cell held⟩
  · refine (Function.forall_update_iff system.producers
      (ProducerAt (system.produce i (.writing value position) system.ring.claim) _)).mpr
        ⟨?_, ?_⟩
    · obtain ⟨cell, present, held⟩ := invariant.slotted position tail_le free
      refine ⟨tail_le, ?_, cell, present, ?_⟩
      · rw [← length, List.getElem?_concat_length]
      · rcases held with counts | ⟨-, before, -⟩
        · exact counts
        · exact absurd before (Nat.not_lt.mpr (Nat.le_of_eq unchanged))
    · intro other _
      refine ProducerAt.mono (invariant.producers other) (Nat.le_succ _) rfl (Nat.le_refl _)
        (fun _ _ => kept) ?_
      intro found owns
      exact ⟨(invariant.owned owns).1.1, rfl⟩
  · apply invariant.exclusive_update
    intro found owns other _ also
    cases owns
    have before := (invariant.owned also).2.1
    exact absurd unchanged (Nat.ne_of_gt before)
  · refine ConsumerAt.mono invariant.consumer rfl (Nat.le_succ _) rfl ?_
      (fun _ _ present _ => present)
    intro taken holds
    exact (sameValue _ (unchanged ▸ invariant.dequeue_lt holds)).symm

/-- A write into the slot of a position that its producer owns. -/
theorem produce_update (invariant : Invariant won system) {i : ι} {position : ℕ}
    {next : Producer α} {change : Cell α → Cell α} {cell : Cell α}
    (owns : (system.producers i).owns = some position)
    (present : system.ring.cell? position = some cell)
    (stays : ∀ found, next.owns = some found → found = position)
    (slotted : system.Slotted won position (change cell))
    (there : (system.produce i next (system.ring.update position change)).ProducerAt won i next) :
    Invariant won (system.produce i next (system.ring.update position change)) := by
  obtain ⟨inside, -, found, isFound, counts⟩ := invariant.owned owns
  rw [present] at isFound
  cases isFound
  have other : ∀ found, system.tail ≤ found ∧ found < system.tail + system.ring.capacity →
      found ≠ position →
        (system.ring.update position change).cell? found = system.ring.cell? found := by
    intro found foundInside differ
    exact MpscRing.cell?_update_ne (invariant.sound.slot_ne foundInside inside differ)
  refine ⟨invariant.sound.update, invariant.numbered, invariant.tail_le, invariant.le_tail,
    ?_, ?_, ?_, ?_⟩
  · intro found first last
    by_cases same : found = position
    · rw [same]
      exact ⟨change cell, MpscRing.cell?_update_self present, slotted⟩
    · obtain ⟨held, isHeld, isSlotted⟩ := invariant.slotted found first last
      exact ⟨held, (other found ⟨first, last⟩ same).trans isHeld, isSlotted⟩
  · refine (Function.forall_update_iff system.producers
      (ProducerAt (system.produce i next (system.ring.update position change)) won)).mpr
        ⟨there, ?_⟩
    intro producer differ
    refine ProducerAt.mono (invariant.producers producer) (Nat.le_refl _) rfl (Nat.le_refl _)
      (fun _ _ found => found) ?_
    intro mine owned
    have isInside := (invariant.owned owned).1
    refine ⟨isInside.1, other mine isInside ?_⟩
    intro same
    rw [same] at owned
    exact differ (invariant.exclusive _ _ _ owned owns)
  · apply invariant.exclusive_update
    intro found isFound producer differ also
    rw [stays found isFound] at also
    exact differ (invariant.exclusive _ _ _ also owns)
  · -- the consumer's slot counts one more than its position
    refine ConsumerAt.mono invariant.consumer rfl (Nat.le_refl _) rfl (fun _ _ => rfl) ?_
    intro atTail taken isTaken ahead
    have dequeueInside : system.tail ≤ system.ring.dequeuePosition ∧
        system.ring.dequeuePosition < system.tail + system.ring.capacity := by
      have positive := invariant.sound.pos
      omega
    refine (other _ dequeueInside ?_).trans isTaken
    intro same
    rw [same, present] at isTaken
    cases isTaken
    omega

theorem write (invariant : Invariant won system) {i : ι} {value : α} {position : ℕ}
    (writing : system.producers i = .writing value position) :
    Invariant won
      (system.produce i (.publishing position) (system.ring.put position (some value))) := by
  have there := invariant.producers i
  rw [writing] at there
  obtain ⟨first, isWon, cell, present, counts⟩ := there
  refine invariant.produce_update (writing ▸ rfl) present ?_ (Or.inl counts) ?_
  · intro found owns
    exact (Option.some.inj owns).symm
  · exact ⟨first, value, isWon, { cell with value := some value },
      MpscRing.cell?_update_self present, counts, rfl⟩

theorem publish (invariant : Invariant won system) {i : ι} {position : ℕ}
    (publishing : system.producers i = .publishing position) :
    Invariant won
      (system.produce i .idle (system.ring.store position (position + 1))) := by
  have owns : (system.producers i).owns = some position := publishing ▸ rfl
  have there := invariant.producers i
  rw [publishing] at there
  obtain ⟨-, value, isWon, cell, present, -, isValue⟩ := there
  refine invariant.produce_update owns present ?_ ?_ trivial
  · intro found none
    cases none
  · refine Or.inr ⟨rfl, (invariant.owned owns).2.1, Or.inr ?_⟩
    unfold valueAt
    rw [isWon]
    exact isValue

end Invariant

/-! ### The consumer -/

namespace Invariant

variable {won : List (ι × ℕ × α)} {system : System ι α}

/-- The slot that the consumer has found published holds what was pushed there. -/
theorem published (invariant : Invariant won system) {cell : Cell α}
    (atTail : system.tail = system.ring.dequeuePosition)
    (present : system.ring.cell? system.ring.dequeuePosition = some cell)
    (counts : cell.sequence = system.ring.dequeuePosition + 1) :
    system.ring.dequeuePosition < system.ring.enqueuePosition ∧
      (system.Taken system.ring.dequeuePosition ∨
        cell.value = valueAt won system.ring.dequeuePosition) := by
  have positive := invariant.sound.pos
  obtain ⟨found, isFound, slotted⟩ :=
    invariant.slotted system.ring.dequeuePosition (by omega) (by omega)
  rw [present] at isFound
  cases isFound
  rcases slotted with free | ⟨-, before, held⟩
  · omega
  · exact ⟨before, held⟩

/-- A step of the consumer leaves the slots of the positions that producers own. -/
theorem consume (invariant : Invariant won system) {next : Consumer α} {ring : MpscRing α}
    (sound : ring.Sound) (enqueue : ring.enqueuePosition = system.ring.enqueuePosition)
    (capacity : ring.capacity = system.ring.capacity)
    (tail : system.tail ≤ (system.consume next ring).tail)
    (tail_le : (system.consume next ring).tail ≤ system.ring.enqueuePosition)
    (slotted : ∀ position, (system.consume next ring).tail ≤ position →
      position < (system.consume next ring).tail + system.ring.capacity →
        ∃ cell, ring.cell? position = some cell ∧
          (system.consume next ring).Slotted won position cell)
    (untouched : ∀ i position, (system.producers i).owns = some position →
      (system.consume next ring).tail ≤ position ∧
        ring.cell? position = system.ring.cell? position)
    (there : (system.consume next ring).ConsumerAt won next) :
    Invariant won (system.consume next ring) := by
  refine ⟨sound, ?_, ?_, ?_, ?_, ?_, invariant.exclusive, there⟩
  · exact invariant.numbered.trans (congrArg List.range enqueue.symm)
  · exact Nat.le_trans tail_le (Nat.le_of_eq enqueue.symm)
  · have le_tail := invariant.le_tail
    change ring.enqueuePosition ≤ _ + ring.capacity
    omega
  · intro position first last
    change position < _ + ring.capacity at last
    rw [capacity] at last
    exact slotted position first last
  · intro producer
    exact ProducerAt.mono (invariant.producers producer) (Nat.le_of_eq enqueue.symm)
      capacity.symm tail (fun _ _ found => found) (untouched producer)

/-- A step of the consumer that writes into no slot. -/
theorem consume_unwritten (invariant : Invariant won system) {next : Consumer α}
    {ring : MpscRing α} (cells : ring.cells = system.ring.cells)
    (enqueue : ring.enqueuePosition = system.ring.enqueuePosition)
    (capacity : ring.capacity = system.ring.capacity)
    (tail : (system.consume next ring).tail = system.tail)
    (notReleasing : ∀ value, system.consumer ≠ .releasing value)
    (there : (system.consume next ring).ConsumerAt won next) :
    Invariant won (system.consume next ring) := by
  have sameCell : ∀ position, ring.cell? position = system.ring.cell? position := by
    intro position
    unfold MpscRing.cell? MpscRing.slot MpscRing.mask
    rw [cells, capacity]
  have sound : ring.Sound := by
    refine ⟨?_, ?_, ?_⟩
    · rw [capacity]
      exact invariant.sound.two_le
    · rw [capacity]
      exact invariant.sound.power
    · rw [cells, capacity]
      exact invariant.sound.length
  apply invariant.consume sound enqueue capacity
  · exact Nat.le_of_eq tail.symm
  · rw [tail]
    exact invariant.tail_le
  · intro position first last
    rw [tail] at first last
    obtain ⟨held, isHeld, slotted⟩ := invariant.slotted position first last
    refine ⟨held, (sameCell position).trans isHeld, ?_⟩
    rcases slotted with free | ⟨counts, before, ⟨-, value, releasing⟩ | isValue⟩
    · exact Or.inl free
    · exact absurd releasing (notReleasing value)
    · exact Or.inr ⟨counts, before.trans_eq enqueue.symm, Or.inr isValue⟩
  · intro i position owns
    rw [tail]
    exact ⟨(invariant.owned owns).1.1, sameCell position⟩
  · exact there

theorem ready (invariant : Invariant won system) {cell : Cell α}
    (idle : system.consumer = .idle)
    (loaded : system.ring.cell? system.ring.dequeuePosition = some cell)
    (difference : cell.sequence = system.ring.dequeuePosition + 1) :
    Invariant won (system.consume .taking system.ring) := by
  refine invariant.consume_unwritten rfl rfl rfl ?_ ?_ ⟨cell, loaded, difference⟩
  · unfold tail
    rw [idle]
    rfl
  · intro value releasing
    rw [idle] at releasing
    cases releasing

/-- The slot of the consumer is not that of an owner. -/
theorem cell?_consumed (invariant : Invariant won system) {cell : Cell α}
    {change : Cell α → Cell α} (atTail : system.tail = system.ring.dequeuePosition)
    (present : system.ring.cell? system.ring.dequeuePosition = some cell)
    (counts : cell.sequence = system.ring.dequeuePosition + 1) {i : ι} {position : ℕ}
    (owns : (system.producers i).owns = some position) :
    system.tail < position ∧
      (system.ring.update system.ring.dequeuePosition change).cell? position =
        system.ring.cell? position := by
  obtain ⟨inside, -, held, isHeld, ownCounts⟩ := invariant.owned owns
  have positive := invariant.sound.pos
  have differ : position ≠ system.ring.dequeuePosition := by
    intro same
    rw [same, present] at isHeld
    cases isHeld
    omega
  have dequeueInside : system.tail ≤ system.ring.dequeuePosition ∧
      system.ring.dequeuePosition < system.tail + system.ring.capacity := by
    omega
  refine ⟨by omega, MpscRing.cell?_update_ne ?_⟩
  exact invariant.sound.slot_ne inside dequeueInside differ

theorem take (invariant : Invariant won system) {cell : Cell α}
    (taking : system.consumer = .taking)
    (loaded : system.ring.cell? system.ring.dequeuePosition = some cell) :
    Invariant won
      (system.consume (.releasing cell.value)
        (system.ring.put system.ring.dequeuePosition none)) := by
  have atTail : system.tail = system.ring.dequeuePosition := by
    unfold tail
    rw [taking]
  have there := invariant.consumer
  rw [taking] at there
  obtain ⟨found, isFound, counts⟩ := there
  rw [loaded] at isFound
  cases isFound
  have notTaken : ∀ position, ¬ system.Taken position := by
    rintro position ⟨-, value, releasing⟩
    rw [taking] at releasing
    cases releasing
  obtain ⟨before, taken | isValue⟩ := invariant.published atTail loaded counts
  · exact absurd taken (notTaken _)
  have positive := invariant.sound.pos
  apply invariant.consume invariant.sound.update rfl rfl
  · exact Nat.le_of_eq atTail
  · exact Nat.le_of_lt before
  · intro position first last
    change system.ring.dequeuePosition ≤ position at first
    change position < system.ring.dequeuePosition + system.ring.capacity at last
    by_cases same : position = system.ring.dequeuePosition
    · rw [same]
      exact ⟨{ cell with value := none }, MpscRing.cell?_update_self loaded,
        Or.inr ⟨counts, before, Or.inl ⟨rfl, cell.value, rfl⟩⟩⟩
    · rw [← atTail] at first last
      obtain ⟨held, isHeld, slotted⟩ := invariant.slotted position first last
      have differ := invariant.sound.slot_ne ⟨first, last⟩
        ⟨Nat.le_of_eq atTail, by omega⟩ same
      refine ⟨held, (MpscRing.cell?_update_ne differ).trans isHeld, ?_⟩
      rcases slotted with free | ⟨ahead, claimed, taken | also⟩
      · exact Or.inl free
      · exact absurd taken (notTaken _)
      · exact Or.inr ⟨ahead, claimed, Or.inr also⟩
  · intro i position owns
    obtain ⟨after, same⟩ := invariant.cell?_consumed atTail loaded counts owns
    exact ⟨Nat.le_of_lt (atTail.symm.trans_lt after), same⟩
  · exact ⟨isValue, before, { cell with value := none }, MpscRing.cell?_update_self loaded, counts⟩

/-- The released slot is the one of the position a lap later, which nobody has claimed. -/
theorem release (invariant : Invariant won system) {value : Option α}
    (releasing : system.consumer = .releasing value) :
    Invariant won
      (system.consume (.advancing value)
        (system.ring.store system.ring.dequeuePosition
          (system.ring.dequeuePosition + system.ring.capacity))) := by
  have atTail : system.tail = system.ring.dequeuePosition := by
    unfold tail
    rw [releasing]
  have there := invariant.consumer
  rw [releasing] at there
  obtain ⟨isValue, before, cell, present, counts⟩ := there
  have positive := invariant.sound.pos
  apply invariant.consume invariant.sound.update rfl rfl
  · exact Nat.le_succ_of_le (Nat.le_of_eq atTail)
  · exact before
  · intro position first last
    change system.ring.dequeuePosition + 1 ≤ position at first
    change position < system.ring.dequeuePosition + 1 + system.ring.capacity at last
    by_cases same : position = system.ring.dequeuePosition + system.ring.capacity
    · rw [same]
      refine ⟨⟨system.ring.dequeuePosition + system.ring.capacity, cell.value⟩, ?_, Or.inl rfl⟩
      have shared : (system.ring.dequeuePosition + system.ring.capacity) %
          system.ring.capacity = system.ring.dequeuePosition % system.ring.capacity :=
        Nat.add_mod_right _ _
      refine (MpscRing.cell?_eq_of_mod invariant.sound.update shared).trans ?_
      exact MpscRing.cell?_update_self present
    · have inside : system.tail ≤ position ∧
          position < system.tail + system.ring.capacity := by
        omega
      obtain ⟨held, isHeld, slotted⟩ := invariant.slotted position inside.1 inside.2
      have differ := invariant.sound.slot_ne inside
        ⟨Nat.le_of_eq atTail, by omega⟩ (Nat.ne_of_gt first)
      refine ⟨held, (MpscRing.cell?_update_ne differ).trans isHeld, ?_⟩
      rcases slotted with free | ⟨ahead, claimed, ⟨isDequeue, -⟩ | also⟩
      · exact Or.inl free
      · omega
      · exact Or.inr ⟨ahead, claimed, Or.inr also⟩
  · intro i position owns
    obtain ⟨after, same⟩ := invariant.cell?_consumed atTail present counts owns
    exact ⟨atTail.symm.trans_lt after, same⟩
  · exact isValue

theorem advance (invariant : Invariant won system) {value : Option α}
    (advancing : system.consumer = .advancing value) :
    Invariant won (system.consume .idle system.ring.advance) := by
  refine invariant.consume_unwritten rfl rfl rfl ?_ ?_ trivial
  · unfold tail
    rw [advancing]
    rfl
  · intro found releasing
    rw [advancing] at releasing
    cases releasing

end Invariant

end System
end InferSched.Concurrency

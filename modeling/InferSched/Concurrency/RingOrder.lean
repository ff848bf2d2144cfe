import InferSched.Concurrency.RingInvariant

/-! # Order of the ring

The positions are won in order, and the consumer returns the values of the positions
in that order, each of them once. A push is refused only while every slot belongs to a
position that is claimed and not released.
-/

namespace InferSched.Concurrency

open Library

variable {ι α : Type*}

theorem wins_append (past more : List (Event ι α)) :
    wins (past ++ more) = wins past ++ wins more :=
  List.filterMap_append

theorem pushes_append (past more : List (Event ι α)) :
    pushes (past ++ more) = pushes past ++ pushes more :=
  List.filterMap_append

theorem pops_append (past more : List (Event ι α)) :
    pops (past ++ more) = pops past ++ pops more :=
  List.filterMap_append

theorem releases_append (past more : List (Event ι α)) :
    releases (past ++ more) = releases past + releases more :=
  List.countP_append

namespace System

/-- What the events so far say about the ring. -/
structure Explained (past : List (Event ι α)) (system : System ι α) : Prop where
  invariant : Invariant (wins past) system
  popped : pops past =
    ((wins past).take system.ring.dequeuePosition).map fun win => some win.2.2
  released : releases past = system.tail
  pushed : ∀ producer position, (producer, position) ∈ pushes past →
    ∃ value, (wins past)[position]? = some (producer, position, value)

/-- The consumer returns the value of its position. -/
theorem map_take_succ {won : List (ι × ℕ × α)} {position : ℕ} (below : position < won.length) :
    (won.take (position + 1)).map (fun win => some win.2.2) =
      (won.take position).map (fun win => some win.2.2) ++ [valueAt won position] := by
  unfold valueAt
  rw [List.take_succ_eq_append_getElem below, List.map_append, List.getElem?_eq_getElem below]
  rfl

namespace Explained

variable {past : List (Event ι α)} {system after : System ι α}

theorem start {capacity : ℕ} {ring : MpscRing α} (created : MpscRing.new capacity = .ok ring) :
    Explained [] (System.start (ι := ι) ring) := by
  refine ⟨.start created, ?_, ?_, ?_⟩
  · exact (congrArg (List.map _) List.take_nil).symm
  · obtain ⟨-, -, rfl⟩ := MpscRing.new_eq_ok_iff.mp created
    rfl
  · intro producer position member
    cases member

/-- A step that wins and publishes nothing. -/
theorem unpublished (explained : Explained past system) {event : Event ι α}
    (noWin : wins [event] = []) (noPush : pushes [event] = [])
    (invariant : Invariant (wins past) after)
    (popped : pops past ++ pops [event] =
      ((wins past).take after.ring.dequeuePosition).map fun win => some win.2.2)
    (released : releases past + releases [event] = after.tail) :
    Explained (past ++ [event]) after := by
  have sameWins : wins (past ++ [event]) = wins past := by
    rw [wins_append, noWin, List.append_nil]
  constructor
  · rw [sameWins]
    exact invariant
  · rw [sameWins, pops_append]
    exact popped
  · rw [releases_append]
    exact released
  · intro producer position member
    rw [pushes_append, noPush, List.append_nil] at member
    rw [sameWins]
    exact explained.pushed producer position member

/-- A step that wins, publishes, releases and returns nothing. -/
theorem quiet (explained : Explained past system) {event : Event ι α}
    (invariant : Invariant (wins past) after)
    (dequeue : after.ring.dequeuePosition = system.ring.dequeuePosition)
    (tail : after.tail = system.tail) (nothing : wins [event] = [] ∧ pushes [event] = [] ∧
      pops [event] = [] ∧ releases [event] = 0) :
    Explained (past ++ [event]) after := by
  obtain ⟨noWin, noPush, noPop, noRelease⟩ := nothing
  apply explained.unpublished noWin noPush invariant
  · rw [noPop, List.append_nil, dequeue]
    exact explained.popped
  · rw [noRelease, tail]
    exact explained.released

/-- A slot that is published belongs to the producer that won its position. -/
theorem publish [DecidableEq ι] (explained : Explained past system) {i : ι} {position : ℕ}
    (publishing : system.producers i = .publishing position) :
    Explained (past ++ [.pushed i position])
      (system.produce i .idle (system.ring.store position (position + 1))) := by
  have there := explained.invariant.producers i
  rw [publishing] at there
  obtain ⟨-, value, isWon, -⟩ := there
  have sameWins : wins (past ++ [.pushed i position]) = wins past := by
    rw [wins_append]
    exact List.append_nil _
  constructor
  · rw [sameWins]
    exact explained.invariant.publish publishing
  · rw [sameWins, pops_append]
    exact (List.append_nil _).trans explained.popped
  · rw [releases_append]
    exact explained.released
  · intro producer found member
    rw [pushes_append] at member
    rw [sameWins]
    rcases List.mem_append.mp member with earlier | last
    · exact explained.pushed producer found earlier
    · cases List.mem_singleton.mp last
      exact ⟨value, isWon⟩

theorem win [DecidableEq ι] (explained : Explained past system) {i : ι} {value : α}
    {position : ℕ} (claiming : system.producers i = .claiming value position)
    (unchanged : system.ring.enqueuePosition = position) :
    Explained (past ++ [.won i position value])
      (system.produce i (.writing value position) system.ring.claim) := by
  have grown : wins (past ++ [.won i position value]) = wins past ++ [(i, position, value)] :=
    wins_append _ _
  have length := explained.invariant.length_won
  have dequeue_le : system.ring.dequeuePosition ≤ (wins past).length := by
    have tail_le := explained.invariant.tail_le
    unfold tail at tail_le
    rw [length]
    generalize system.consumer = point at tail_le
    cases point with
    | advancing => exact Nat.le_of_succ_le tail_le
    | _ => exact tail_le
  constructor
  · rw [grown]
    exact explained.invariant.win claiming unchanged
  · rw [grown, pops_append]
    change pops past ++ [] = ((wins past ++ _).take system.ring.dequeuePosition).map _
    rw [List.append_nil, List.take_append_of_le_length dequeue_le]
    exact explained.popped
  · rw [releases_append]
    exact explained.released
  · intro producer found member
    rw [pushes_append] at member
    change _ ∈ pushes past ++ [] at member
    rw [List.append_nil] at member
    obtain ⟨pushed, isWon⟩ := explained.pushed producer found member
    refine ⟨pushed, ?_⟩
    rw [grown, List.getElem?_append_left (List.getElem?_eq_some_iff.mp isWon).1]
    exact isWon

theorem release (explained : Explained past system) {value : Option α}
    (releasing : system.consumer = .releasing value) :
    Explained (past ++ [.released])
      (system.consume (.advancing value)
        (system.ring.store system.ring.dequeuePosition
          (system.ring.dequeuePosition + system.ring.capacity))) := by
  apply explained.unpublished rfl rfl (explained.invariant.release releasing)
  · exact (List.append_nil _).trans explained.popped
  · have atTail : system.tail = system.ring.dequeuePosition := by
      unfold tail
      rw [releasing]
    rw [explained.released, atTail]
    rfl

theorem advance (explained : Explained past system) {value : Option α}
    (advancing : system.consumer = .advancing value) :
    Explained (past ++ [.popped value]) (system.consume .idle system.ring.advance) := by
  have there := explained.invariant.consumer
  rw [advancing] at there
  have isValue : value = valueAt (wins past) system.ring.dequeuePosition := there
  have below : system.ring.dequeuePosition < (wins past).length := by
    rw [explained.invariant.length_won]
    exact explained.invariant.dequeue_lt (Or.inr advancing)
  apply explained.unpublished rfl rfl (explained.invariant.advance advancing)
  · rw [explained.popped, isValue]
    exact (map_take_succ below).symm
  · have sameTail : system.tail = (system.consume .idle system.ring.advance).tail := by
      unfold tail
      rw [advancing]
      rfl
    rw [explained.released, ← sameTail]
    rfl

/-- Every step of every thread keeps the account. -/
theorem step [DecidableEq ι] (explained : Explained past system) {event : Event ι α}
    (step : Step system event after) : Explained (past ++ [event]) after := by
  have invariant := explained.invariant
  cases step with
  | call idle =>
      exact explained.quiet (invariant.produce trivial rfl) rfl rfl
        ⟨rfl, rfl, rfl, rfl⟩
  | load loading =>
      exact explained.quiet (invariant.produce (Nat.le_refl _) rfl) rfl rfl
        ⟨rfl, rfl, rfl, rfl⟩
  | fits examining loaded difference =>
      have free := (invariant.examined examining loaded).1 difference
      exact explained.quiet (invariant.produce free rfl) rfl rfl
        ⟨rfl, rfl, rfl, rfl⟩
  | full examining loaded difference =>
      exact explained.quiet (invariant.produce trivial rfl) rfl rfl
        ⟨rfl, rfl, rfl, rfl⟩
  | stale examining loaded difference =>
      exact explained.quiet (invariant.produce trivial rfl) rfl rfl
        ⟨rfl, rfl, rfl, rfl⟩
  | win claiming unchanged => exact explained.win claiming unchanged
  | lose claiming =>
      exact explained.quiet (invariant.produce (Nat.le_refl _) rfl) rfl rfl
        ⟨rfl, rfl, rfl, rfl⟩
  | write writing =>
      exact explained.quiet (invariant.write writing) rfl rfl
        ⟨rfl, rfl, rfl, rfl⟩
  | publish publishing => exact explained.publish publishing
  | empty idle loaded difference =>
      exact explained.quiet invariant rfl rfl
        ⟨rfl, rfl, rfl, rfl⟩
  | ready idle loaded difference =>
      refine explained.quiet (invariant.ready idle loaded difference) rfl ?_
        ⟨rfl, rfl, rfl, rfl⟩
      unfold tail
      rw [idle]
      rfl
  | take taking loaded =>
      refine explained.quiet (invariant.take taking loaded) rfl ?_
        ⟨rfl, rfl, rfl, rfl⟩
      unfold tail
      rw [taking]
      rfl
  | release releasing => exact explained.release releasing
  | advance advancing => exact explained.advance advancing

end Explained

/-- A producer is told that the ring is full only while it is. -/
theorem full_of_step [DecidableEq ι] {past : List (Event ι α)} {system after : System ι α} {i : ι}
    (explained : Explained past system) (step : Step system (.full i) after) :
    (wins past).length = releases past + system.ring.capacity := by
  cases step with
  | full examining loaded difference =>
      rw [explained.invariant.length_won, explained.released]
      exact (explained.invariant.examined examining loaded).2 difference

theorem explained_run [DecidableEq ι] {capacity : ℕ} {ring : MpscRing α}
    (created : MpscRing.new capacity = .ok ring) {events : List (Event ι α)}
    {final : System ι α} (trace : Trace Step (.start ring) events final) :
    Explained events final := by
  refine @Trace.history _ _ _ _ _ Explained ?_ _ trace (.start created)
  intro past before event after explained step
  exact explained.step step

/-- No step changes the capacity. -/
theorem capacity_run [DecidableEq ι] {start final : System ι α} {events : List (Event ι α)}
    (trace : Trace Step start events final) :
    final.ring.capacity = start.ring.capacity := by
  refine @Trace.invariant _ _ _ _ _ (fun system => system.ring.capacity = start.ring.capacity)
    ?_ _ trace rfl
  intro before event after same step
  cases step <;> exact same

/-- However the producers and the consumer interleave, the n-th value that `TryPop`
returns is the one whose push won position n, every push that returned true has won a
position of its own, and `TryPush` returns false only when as many positions are
claimed and not released as there are slots. -/
theorem pops_follow_positions [DecidableEq ι] {capacity : ℕ} {ring : MpscRing α}
    (created : MpscRing.new capacity = .ok ring) {events : List (Event ι α)}
    {final : System ι α} (trace : Trace Step (.start ring) events final) :
    (∀ (position : ℕ) win, (wins events)[position]? = some win → win.2.1 = position) ∧
      (∀ producer position, (producer, position) ∈ pushes events →
        ∃ value, (wins events)[position]? = some (producer, position, value)) ∧
      (∀ (n : ℕ) reply, (pops events)[n]? = some reply →
        ∃ producer value, (wins events)[n]? = some (producer, n, value) ∧ reply = some value) ∧
      ∀ before producer after, events = before ++ .full producer :: after →
        (wins before).length = releases before + capacity := by
  have explained := explained_run created trace
  have positions : ∀ (position : ℕ) win, (wins events)[position]? = some win →
      win.2.1 = position := by
    intro position win found
    have below := (List.getElem?_eq_some_iff.mp found).1
    rw [explained.invariant.length_won] at below
    have numbered : ((wins events).map fun win => win.2.1)[position]? = some position := by
      rw [explained.invariant.numbered, List.getElem?_range below]
    rw [List.getElem?_map, found] at numbered
    exact Option.some.inj numbered
  refine ⟨positions, explained.pushed, ?_, ?_⟩
  · intro n reply returned
    rw [explained.popped, List.getElem?_map] at returned
    obtain ⟨win, taken, isReply⟩ := Option.map_eq_some_iff.mp returned
    have isWon : (wins events)[n]? = some win := by
      rw [List.getElem?_take] at taken
      split at taken
      · exact taken
      · cases taken
    obtain ⟨producer, position, value⟩ := win
    cases positions n _ isWon
    exact ⟨producer, value, isWon, isReply.symm⟩
  · intro before producer after isEvents
    rw [isEvents, List.append_cons] at trace
    obtain ⟨told, earlier, -⟩ := trace.split
    obtain ⟨system, first, step⟩ := earlier.last_step
    have isCapacity : system.ring.capacity = capacity := by
      rw [capacity_run first]
      obtain ⟨-, -, rfl⟩ := MpscRing.new_eq_ok_iff.mp created
      rfl
    rw [← isCapacity]
    exact full_of_step (explained_run created first) step

/-- The smallest ring. -/
def twoSlots : MpscRing ℕ :=
  ⟨2, [⟨0, none⟩, ⟨1, none⟩], 0, 0⟩

/-- Two producers on a ring of two slots. The second finds that its first position was
taken, the first is told that the ring is full, and gets the first slot again a lap later. -/
theorem pops_follow_positions_lap :
    ∃ (ring : MpscRing ℕ) (before after : List (Event Bool ℕ)) (final : System Bool ℕ),
      MpscRing.new 2 = .ok ring ∧ Trace Step (.start ring) (before ++ .full false :: after) final ∧
        wins (before ++ .full false :: after) = [(false, 0, 7), (true, 1, 8), (false, 2, 9)] ∧
        pops (before ++ .full false :: after) = [some 7, some 8, some 9] ∧
        (∃ producer value,
          (wins (before ++ .full false :: after))[2]? = some (producer, 2, value) ∧
            some 9 = some value) ∧
        (wins before).length = releases before + 2 := by
  have looked := (((Trace.single (@Step.call Bool ℕ _ (.start twoSlots) false 7 rfl)).snoc
    (@Step.call _ _ _ _ true 8 rfl)).snoc
    (@Step.load _ _ _ _ false 7 rfl)).snoc
    (@Step.load _ _ _ _ true 8 rfl)
  have first := (((looked.snoc
    (@Step.fits _ _ _ _ false 7 0 ⟨0, none⟩ rfl (by decide) rfl)).snoc
    (@Step.win _ _ _ _ false 7 0 rfl rfl)).snoc
    (@Step.write _ _ _ _ false 7 0 rfl)).snoc
    (@Step.publish _ _ _ _ false 0 rfl)
  have stale := (first.snoc
    (@Step.stale _ _ _ _ true 8 0 ⟨1, some 7⟩ rfl (by decide) (by decide))).snoc
    (@Step.load _ _ _ _ true 8 rfl)
  have second := (((stale.snoc
    (@Step.fits _ _ _ _ true 8 1 ⟨1, none⟩ rfl (by decide) rfl)).snoc
    (@Step.win _ _ _ _ true 8 1 rfl rfl)).snoc
    (@Step.write _ _ _ _ true 8 1 rfl)).snoc
    (@Step.publish _ _ _ _ true 1 rfl)
  have refused := ((second.snoc (@Step.call _ _ _ _ false 9 rfl)).snoc
    (@Step.load _ _ _ _ false 9 rfl)).snoc
    (@Step.full _ _ _ _ false 9 2 ⟨1, some 7⟩ rfl (by decide) (by decide))
  have popped := (((refused.snoc (@Step.ready _ _ _ _ ⟨1, some 7⟩ rfl (by decide) rfl)).snoc
    (@Step.take _ _ _ _ ⟨1, some 7⟩ rfl (by decide))).snoc
    (@Step.release _ _ _ _ (some 7) rfl)).snoc
    (@Step.advance _ _ _ _ (some 7) rfl)
  have third := (((((popped.snoc (@Step.call _ _ _ _ false 9 rfl)).snoc
    (@Step.load _ _ _ _ false 9 rfl)).snoc
    (@Step.fits _ _ _ _ false 9 2 ⟨2, none⟩ rfl (by decide) rfl)).snoc
    (@Step.win _ _ _ _ false 9 2 rfl rfl)).snoc
    (@Step.write _ _ _ _ false 9 2 rfl)).snoc
    (@Step.publish _ _ _ _ false 2 rfl)
  have emptied := (((third.snoc (@Step.ready _ _ _ _ ⟨2, some 8⟩ rfl (by decide) rfl)).snoc
    (@Step.take _ _ _ _ ⟨2, some 8⟩ rfl (by decide))).snoc
    (@Step.release _ _ _ _ (some 8) rfl)).snoc
    (@Step.advance _ _ _ _ (some 8) rfl)
  have last := (((emptied.snoc (@Step.ready _ _ _ _ ⟨3, some 9⟩ rfl (by decide) rfl)).snoc
    (@Step.take _ _ _ _ ⟨3, some 9⟩ rfl (by decide))).snoc
    (@Step.release _ _ _ _ (some 9) rfl)).snoc
    (@Step.advance _ _ _ _ (some 9) rfl)
  have created : MpscRing.new 2 = .ok twoSlots := rfl
  let before : List (Event Bool ℕ) :=
    [.call false 7, .call true 8, .quiet, .quiet, .quiet, .won false 0 7, .quiet, .pushed false 0,
      .quiet, .quiet, .quiet, .won true 1 8, .quiet, .pushed true 1, .call false 9, .quiet]
  let after : List (Event Bool ℕ) :=
    [.quiet, .quiet, .released, .popped (some 7), .call false 9, .quiet, .quiet, .won false 2 9,
      .quiet, .pushed false 2, .quiet, .quiet, .released, .popped (some 8), .quiet, .quiet,
      .released, .popped (some 9)]
  obtain ⟨-, -, ordered, full⟩ := pops_follow_positions created last
  exact ⟨twoSlots, before, after, _, created, last, rfl, rfl, ordered 2 _ rfl,
    full before false after rfl⟩

end System
end InferSched.Concurrency

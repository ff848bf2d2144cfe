import Mathlib.Algebra.BigOperators.Group.Finset.Basic
import Mathlib.Algebra.Order.BigOperators.Group.Finset
import Mathlib.Algebra.Group.Action.Defs
import Mathlib.Data.Fintype.BigOperators
import Mathlib.Tactic.Ring
import InferSched.Concurrency.RingOrder

/-! # Progress of the ring

`TryPop` answers nothing only while the push that it waits for has not returned: the next
position is not claimed, or its producer has not published it yet. Producers wait for nobody.
A producer starts over only because another has won the position it looked at, so among
any `patience` steps of the threads some call returns (`lock_free`), unless an exchange fails
for no reason.
-/

namespace InferSched.Concurrency.System

open Library

variable {ι α : Type*}

/-! ### Empty replies -/

/-- The slot of a position has been published for the consumer. -/
def Published (ring : MpscRing α) (position : ℕ) : Prop :=
  ∃ cell, ring.cell? position = some cell ∧ cell.sequence = position + 1

/-- The sequence number of a slot is all that counts. -/
theorem Published.put {ring : MpscRing α} {position : ℕ} (published : Published ring position)
    (written : ℕ) (value : Option α) : Published (ring.put written value) position := by
  obtain ⟨cell, present, counts⟩ := published
  by_cases same : ring.slot position = ring.slot written
  · have there : ring.cell? written = some cell := by
      rw [← present, MpscRing.cell?, MpscRing.cell?, same]
    have changed := @MpscRing.cell?_update_self _ _ _ _
      (fun cell : Cell α => { cell with value }) there
    refine ⟨{ cell with value }, ?_, counts⟩
    rw [← changed]
    change (ring.cells.modify _ _)[ring.slot position]? = (ring.cells.modify _ _)[_]?
    rw [same]
    rfl
  · exact ⟨cell, (MpscRing.cell?_update_ne same).trans present, counts⟩

variable {won : List (ι × ℕ × α)} {system after : System ι α}

/-- A store into the slot of another position of the window. -/
theorem Published.store (invariant : Invariant won system) {position written sequence : ℕ}
    (published : Published system.ring position)
    (inside : system.tail ≤ position ∧ position < system.tail + system.ring.capacity)
    (writtenInside : system.tail ≤ written ∧ written < system.tail + system.ring.capacity)
    (differ : position ≠ written) :
    Published (system.ring.store written sequence) position := by
  obtain ⟨cell, present, counts⟩ := published
  have apart := invariant.sound.slot_ne inside writtenInside differ
  exact ⟨cell, (MpscRing.cell?_update_ne apart).trans present, counts⟩

/-- A published position stays so until the consumer releases it. -/
theorem Published.step [DecidableEq ι] (invariant : Invariant won system) {event : Event ι α}
    (step : Step system event after) {position : ℕ} (published : Published system.ring position)
    (claimed : position < system.ring.enqueuePosition) (unreleased : after.tail ≤ position) :
    Published after.ring position := by
  have le_tail := invariant.le_tail
  cases step with
  | write writing => exact published.put _ _
  | take taking loaded => exact published.put _ _
  | @publish i written publishing =>
      have owns : (system.producers i).owns = some written := by
        rw [publishing]
        rfl
      obtain ⟨inside, -, cell, present, counts⟩ := invariant.owned owns
      refine published.store invariant ⟨unreleased, by omega⟩ inside ?_
      rintro rfl
      obtain ⟨found, isFound, ahead⟩ := published
      rw [present] at isFound
      cases isFound
      omega
  | release releasing =>
      have atTail : system.tail = system.ring.dequeuePosition := by
        unfold tail
        rw [releasing]
      have positive := invariant.sound.pos
      have later : system.ring.dequeuePosition + 1 ≤ position := unreleased
      exact published.store invariant ⟨by omega, by omega⟩ ⟨by omega, by omega⟩ (by omega)
  | _ => exact published

/-- The tail never goes back. -/
theorem tail_le_of_step [DecidableEq ι] {event : Event ι α} (step : Step system event after) :
    system.tail ≤ after.tail := by
  cases step with
  | ready idle loaded difference =>
      unfold tail consume
      rw [idle]
  | take taking loaded =>
      unfold tail consume
      rw [taking]
      exact Nat.le_refl _
  | release releasing =>
      unfold tail consume
      rw [releasing]
      exact Nat.le_succ _
  | advance advancing =>
      unfold tail consume
      rw [advancing]
      exact Nat.le_refl _
  | _ => exact Nat.le_refl _

/-- The pushes that have returned have published their positions. -/
theorem published_run [DecidableEq ι] {capacity : ℕ} {ring : MpscRing α}
    (created : MpscRing.new capacity = .ok ring) {events : List (Event ι α)}
    {final : System ι α} (trace : Trace Step (.start ring) events final) :
    Explained events final ∧ ∀ producer position, (producer, position) ∈ pushes events →
      final.tail ≤ position → Published final.ring position := by
  refine @Trace.history _ _ _ _ _ (fun past system => Explained past system ∧
    ∀ producer position, (producer, position) ∈ pushes past →
      system.tail ≤ position → Published system.ring position) ?_ _ trace ⟨.start created, ?_⟩
  · rintro past before event after ⟨explained, published⟩ step
    refine ⟨explained.step step, fun producer position member unreleased => ?_⟩
    rw [pushes_append, List.mem_append] at member
    rcases member with earlier | now
    · obtain ⟨value, isWon⟩ := explained.pushed producer position earlier
      have claimed := (List.getElem?_eq_some_iff.mp isWon).1
      rw [explained.invariant.length_won] at claimed
      exact (published producer position earlier
        ((tail_le_of_step step).trans unreleased)).step explained.invariant step claimed unreleased
    · cases step with
      | publish publishing =>
          cases List.mem_singleton.mp now
          have owns : (before.producers producer).owns = some position := by
            rw [publishing]
            rfl
          obtain ⟨-, -, cell, present, -⟩ := explained.invariant.owned owns
          exact ⟨_, MpscRing.cell?_update_self present, rfl⟩
      | _ => cases now
  · intro producer position member
    cases member

/-- **Empty replies.** When `TryPop` answers nothing after it has returned `n` values, no push
that has returned has won position `n`. So while no push is under way, it answers nothing
only after all that was pushed has been popped. -/
theorem empty_replies [DecidableEq ι] {capacity : ℕ} {ring : MpscRing α}
    (created : MpscRing.new capacity = .ok ring) {events past later : List (Event ι α)}
    {final : System ι α} (trace : Trace Step (.start ring) events final)
    (replied : events = past ++ .empty :: later) :
    (∀ producer, (producer, (pops past).length) ∉ pushes past) ∧
      ((∀ position < (wins past).length, ∃ producer, (producer, position) ∈ pushes past) →
        (pops past).length = (wins past).length) := by
  subst replied
  obtain ⟨system, after, earlier, step, -⟩ := trace.step_at
  obtain ⟨explained, published⟩ := published_run created earlier
  have tail_le := explained.invariant.tail_le
  cases step with
  | empty idle loaded difference =>
      have atTail : system.tail = system.ring.dequeuePosition := by
        unfold tail
        rw [idle]
      have popped : (pops past).length = system.ring.dequeuePosition := by
        rw [explained.popped, List.length_map, List.length_take,
          explained.invariant.length_won]
        omega
      have unpublished : ∀ producer, (producer, (pops past).length) ∉ pushes past := by
        intro producer member
        rw [popped] at member
        obtain ⟨cell, present, counts⟩ := published producer _ member (Nat.le_of_eq atTail)
        rw [loaded] at present
        cases present
        exact difference counts
      refine ⟨unpublished, fun returned => ?_⟩
      by_contra fewer
      rw [explained.invariant.length_won] at returned fewer
      obtain ⟨producer, member⟩ := returned (pops past).length (by omega)
      exact unpublished producer member

/-- A producer has won the first position and has not written its value yet. -/
theorem empty_replies_unwritten :
    ∃ (events : List (Event Unit ℕ)) (final : System Unit ℕ),
      Trace Step (.start twoSlots) (events ++ [.empty]) final ∧ wins events = [((), 0, 7)] ∧
        ∀ producer, (producer, (pops events).length) ∉ pushes events := by
  have won :=
    (((Trace.single (@Step.call Unit ℕ _ (.start twoSlots) () 7 rfl)).snoc
      (@Step.load _ _ _ _ () 7 rfl)).snoc
      (@Step.fits _ _ _ _ () 7 0 ⟨0, none⟩ rfl (by decide) rfl)).snoc
      (@Step.win _ _ _ _ () 7 0 rfl rfl)
  have polled := won.snoc (@Step.empty _ _ _ _ ⟨0, none⟩ rfl (by decide) (by decide))
  have created : MpscRing.new 2 = .ok twoSlots := rfl
  exact ⟨_, _, polled, rfl, (empty_replies created polled rfl).1⟩

/-! ### Lock freedom -/

/-- The steps by which a call returns. -/
def Returns : Event ι α → Prop
  | .pushed _ _ => True
  | .full _ => True
  | .empty => True
  | .popped _ => True
  | _ => False

/-- A compare-exchange that fails although the position is still the one expected. -/
def Spurious (before after : System ι α) : Prop :=
  ∃ i value position, before.producers i = .claiming value position ∧
    before.ring.enqueuePosition = position ∧ after.producers i = .examining value position

/-- Such a failure can be told from the states before and after. -/
def spuriousAt [DecidableEq α] (before after : System ι α) (i : ι) : Bool :=
  match before.producers i with
  | .claiming value position =>
      decide (before.ring.enqueuePosition = position) &&
        decide (after.producers i = .examining value position)
  | _ => false

theorem spurious_iff [DecidableEq α] {before after : System ι α} :
    (∃ i, spuriousAt before after i = true) ↔ Spurious before after := by
  constructor
  · rintro ⟨i, told⟩
    unfold spuriousAt at told
    split at told
    · next value position claiming =>
        rw [Bool.and_eq_true, decide_eq_true_eq, decide_eq_true_eq] at told
        exact ⟨i, value, position, claiming, told⟩
    · cases told
  · rintro ⟨i, value, position, claiming, same, examining⟩
    refine ⟨i, ?_⟩
    unfold spuriousAt
    rw [claiming]
    exact Bool.and_eq_true_iff.mpr ⟨decide_eq_true same, decide_eq_true examining⟩

instance [Fintype ι] [DecidableEq α] (before after : System ι α) :
    Decidable (Spurious before after) :=
  decidable_of_iff _ spurious_iff

/-- How many steps a producer is away from its reply. It has to start over where the
position it looks at has been won by another. -/
def pushDistance (enqueuePosition : ℕ) : Producer α → ℕ
  | .idle => 6
  | .loading _ => 5
  | .examining _ position => if position = enqueuePosition then 4 else 6
  | .claiming _ position => if position = enqueuePosition then 3 else 5
  | .writing _ _ => 2
  | .publishing _ => 1

def popDistance : Consumer α → ℕ
  | .idle => 4
  | .taking => 3
  | .releasing _ => 2
  | .advancing _ => 1

/-- A producer that has not won a position can make the others start over. -/
def contends : Producer α → ℕ
  | .writing _ _ => 0
  | .publishing _ => 0
  | _ => 1

/-- A producer finds its slot ahead only after another has won the position. -/
theorem outdated (invariant : Invariant won system) {i : ι} {value : α} {position : ℕ}
    {cell : Cell α} (examining : system.producers i = .examining value position)
    (loaded : system.ring.cell? position = some cell) (ahead : position < cell.sequence) :
    position < system.ring.enqueuePosition := by
  have there := invariant.producers i
  rw [examining] at there
  have behind : position ≤ system.ring.enqueuePosition := there
  have tail_le := invariant.tail_le
  obtain ⟨current, inside, same⟩ :=
    invariant.sound.exists_representative system.tail position
  obtain ⟨found, present, slotted⟩ := invariant.slotted current inside.1 inside.2
  rw [MpscRing.cell?_eq_of_mod invariant.sound same, loaded] at present
  cases present
  by_contra reached
  rcases slotted with free | ⟨published, claimed, -⟩
  · have lap := MpscRing.lap_le same.symm (ahead.trans_eq free)
    omega
  · omega

variable [Fintype ι]

/-- How far a producer is from its reply, with the delays it can cause the others. -/
def pushRank (system : System ι α) (enqueuePosition : ℕ) (i : ι) : ℕ :=
  pushDistance enqueuePosition (system.producers i) +
    2 * Fintype.card ι * contends (system.producers i)

/-- A bound for the steps until some call returns, that one included. -/
def rank (system : System ι α) : ℕ :=
  ∑ i, system.pushRank system.ring.enqueuePosition i + popDistance system.consumer

/-- A bound for the steps within which some call returns. -/
def patience (ι : Type*) [Fintype ι] : ℕ :=
  2 * Fintype.card ι * (Fintype.card ι + 3) + 4

theorem pushRank_le (system : System ι α) (enqueuePosition : ℕ) (i : ι) :
    system.pushRank enqueuePosition i ≤ 6 + 2 * Fintype.card ι := by
  unfold pushRank
  cases system.producers i with
  | examining value position =>
      simp only [pushDistance, contends]
      split <;> omega
  | claiming value position =>
      simp only [pushDistance, contends]
      split <;> omega
  | _ =>
      simp only [pushDistance, contends]
      omega

theorem rank_le (system : System ι α) : system.rank ≤ patience ι := by
  have pop : popDistance system.consumer ≤ 4 := by
    cases system.consumer <;> simp [popDistance]
  have total : ∑ i, system.pushRank system.ring.enqueuePosition i ≤
      Fintype.card ι * (6 + 2 * Fintype.card ι) := by
    rw [← Finset.card_univ, ← smul_eq_mul]
    exact Finset.sum_le_card_nsmul _ _ _ fun i _ => system.pushRank_le _ i
  have expand : Fintype.card ι * (6 + 2 * Fintype.card ι) =
      2 * Fintype.card ι * (Fintype.card ι + 3) := by ring
  unfold rank patience
  omega

/-- The consumer at least has a reply to come. -/
theorem rank_pos (system : System ι α) : 0 < system.rank := by
  have pop : 0 < popDistance system.consumer := by
    cases system.consumer <;> simp [popDistance]
  exact Nat.add_pos_right _ pop

/-- Another position to win delays a producer by two steps at most. -/
theorem pushRank_succ_le (system : System ι α) (enqueuePosition : ℕ) (i : ι) :
    system.pushRank (enqueuePosition + 1) i ≤ system.pushRank enqueuePosition i + 2 := by
  unfold pushRank
  cases system.producers i with
  | examining value position =>
      simp only [pushDistance]
      split <;> split <;> omega
  | claiming value position =>
      simp only [pushDistance]
      split <;> split <;> omega
  | _ =>
      simp only [pushDistance]
      omega

theorem rank_consume {next : Consumer α} {ring : MpscRing α}
    (enqueue : ring.enqueuePosition = system.ring.enqueuePosition)
    (closer : popDistance next < popDistance system.consumer) :
    (system.consume next ring).rank < system.rank := by
  unfold rank
  change ∑ j, system.pushRank ring.enqueuePosition j + _ < _
  rw [enqueue]
  exact Nat.add_lt_add_left closer _

variable [DecidableEq ι]

theorem pushRank_produce_self (i : ι) (next : Producer α) (ring : MpscRing α)
    (enqueuePosition : ℕ) :
    (system.produce i next ring).pushRank enqueuePosition i =
      pushDistance enqueuePosition next + 2 * Fintype.card ι * contends next := by
  simp [pushRank, produce]

theorem pushRank_produce_of_ne {i j : ι} (differ : j ≠ i) (next : Producer α)
    (ring : MpscRing α) (enqueuePosition : ℕ) :
    (system.produce i next ring).pushRank enqueuePosition j =
      system.pushRank enqueuePosition j := by
  simp [pushRank, produce, differ]

/-- A producer comes closer to its reply, and no other is delayed. -/
theorem rank_produce {i : ι} {next : Producer α} {ring : MpscRing α}
    (enqueue : ring.enqueuePosition = system.ring.enqueuePosition)
    (closer : pushDistance system.ring.enqueuePosition next <
      pushDistance system.ring.enqueuePosition (system.producers i))
    (contend : contends next ≤ contends (system.producers i)) :
    (system.produce i next ring).rank < system.rank := by
  have sum : ∑ j, (system.produce i next ring).pushRank system.ring.enqueuePosition j <
      ∑ j, system.pushRank system.ring.enqueuePosition j := by
    have own : (system.produce i next ring).pushRank system.ring.enqueuePosition i <
        system.pushRank system.ring.enqueuePosition i := by
      rw [pushRank_produce_self]
      exact Nat.add_lt_add_of_lt_of_le closer (Nat.mul_le_mul_left _ contend)
    refine Finset.sum_lt_sum (fun j _ => ?_) ⟨i, Finset.mem_univ i, own⟩
    by_cases same : j = i
    · rw [same]
      exact own.le
    · rw [pushRank_produce_of_ne same]
  unfold rank
  change ∑ j, (system.produce i next ring).pushRank ring.enqueuePosition j + _ < _
  rw [enqueue]
  exact Nat.add_lt_add_right sum _

/-- A producer wins the position, which the others may have looked at. -/
theorem rank_win {i : ι} {value : α}
    (claiming : system.producers i = .claiming value system.ring.enqueuePosition) :
    (system.produce i (.writing value system.ring.enqueuePosition) system.ring.claim).rank <
      system.rank := by
  have before : system.pushRank system.ring.enqueuePosition i = 3 + 2 * Fintype.card ι := by
    simp [pushRank, claiming, pushDistance, contends]
  have others : ∑ j ∈ Finset.univ.erase i, (system.produce i
      (.writing value system.ring.enqueuePosition) system.ring.claim).pushRank
        (system.ring.enqueuePosition + 1) j ≤
      ∑ j ∈ Finset.univ.erase i, (system.pushRank system.ring.enqueuePosition j + 2) := by
    refine Finset.sum_le_sum fun j member => ?_
    rw [pushRank_produce_of_ne (Finset.ne_of_mem_erase member)]
    exact system.pushRank_succ_le _ j
  rw [Finset.sum_add_distrib, Finset.sum_const, Finset.card_erase_of_mem (Finset.mem_univ i),
    Finset.card_univ, smul_eq_mul] at others
  unfold rank
  change ∑ j, (system.produce i _ system.ring.claim).pushRank
    (system.ring.enqueuePosition + 1) j + popDistance system.consumer < _
  rw [← Finset.add_sum_erase _ _ (Finset.mem_univ i), pushRank_produce_self,
    ← Finset.add_sum_erase _ (system.pushRank system.ring.enqueuePosition) (Finset.mem_univ i),
    before]
  simp only [pushDistance, contends]
  omega

/-- Each step brings the reply of some call closer. -/
theorem rank_step (invariant : Invariant won system) {event : Event ι α}
    (step : Step system event after) (genuine : ¬ Spurious system after) :
    Returns event ∨ after.rank < system.rank := by
  cases step with
  | call idle =>
      refine Or.inr (rank_produce rfl ?_ ?_) <;> simp [idle, pushDistance, contends]
  | load loading =>
      refine Or.inr (rank_produce rfl ?_ ?_) <;> simp [loading, pushDistance, contends]
  | fits examining loaded difference =>
      refine Or.inr (rank_produce rfl ?_ ?_)
      · rw [examining, pushDistance, pushDistance]
        split <;> decide
      · simp [examining, contends]
  | full examining loaded difference => exact Or.inl trivial
  | stale examining loaded difference =>
      have late := outdated invariant examining loaded difference
      refine Or.inr (rank_produce rfl ?_ ?_)
      · simp [examining, pushDistance, Nat.ne_of_lt late]
      · simp [examining, contends]
  | win claiming unchanged =>
      subst unchanged
      exact Or.inr (rank_win claiming)
  | @lose i value position claiming =>
      have moved : position ≠ system.ring.enqueuePosition := by
        rintro rfl
        exact genuine ⟨i, value, _, claiming, rfl, Function.update_self ..⟩
      refine Or.inr (rank_produce rfl ?_ ?_)
      · simp [claiming, pushDistance, moved]
      · simp [claiming, contends]
  | write writing =>
      refine Or.inr (rank_produce rfl ?_ ?_) <;> simp [writing, pushDistance, contends]
  | publish publishing => exact Or.inl trivial
  | empty idle loaded difference => exact Or.inl trivial
  | ready idle loaded difference =>
      refine Or.inr (rank_consume rfl ?_)
      simp [idle, popDistance]
  | take taking loaded =>
      refine Or.inr (rank_consume rfl ?_)
      simp [taking, popDistance]
  | release releasing =>
      refine Or.inr (rank_consume rfl ?_)
      simp [releasing, popDistance]
  | advance advancing => exact Or.inl trivial

/-- **Lock freedom.** From every state that the threads can reach, some call of `TryPush` or
`TryPop` returns within the next `patience` steps, whichever threads take them, as long as
no compare-exchange fails for no reason. -/
theorem lock_free {capacity : ℕ} {ring : MpscRing α} (created : MpscRing.new capacity = .ok ring)
    {past events : List (Event ι α)} {final : System ι α}
    (reached : Trace Step (.start ring) past system)
    (run : Trace (fun before event after => Step before event after ∧ ¬ Spurious before after)
      system events final)
    (long : patience ι ≤ events.length) : ∃ event ∈ events, Returns event := by
  by_contra unanswered
  have undone : ∀ event ∈ events, ¬ Returns event :=
    fun event member returned => unanswered ⟨event, member, returned⟩
  have bound : events.length + final.rank ≤ system.rank := by
    refine @Trace.length_add_le _ _ _ _ _ (fun system => ∃ past, Explained past system) rank
      Returns ?_ ?_ _ run ⟨past, explained_run created reached⟩ undone
    · rintro before event after ⟨past, explained⟩ ⟨step, _⟩
      exact ⟨_, explained.step step⟩
    · rintro before event after ⟨past, explained⟩ ⟨step, genuine⟩
      exact rank_step explained.invariant step genuine
  have start := system.rank_le
  have last := final.rank_pos
  omega

/-- Two producers look at the first position. The second loses it, wins the next one and
writes there before the first has written its own value, so that no call returns for ten
steps. -/
theorem lock_free_contended :
    ∃ (past before after : List (Event Bool ℕ)) (system final : System Bool ℕ),
      Trace Step (.start twoSlots) past system ∧
      Trace (fun before event after => Step before event after ∧ ¬ Spurious before after)
        system (before ++ after) final ∧
      system.producers false = .loading 7 ∧ system.producers true = .loading 8 ∧
      before.length = 10 ∧ wins before = [(false, 0, 7), (true, 1, 8)] ∧ pushes before = [] ∧
      (before ++ after).length = patience Bool ∧ pops after = [some 7, some 8] ∧
      ∃ event ∈ before ++ after, Returns event := by
  have called := (Trace.single (@Step.call Bool ℕ _ (.start twoSlots) false 7 rfl)).snoc
    (@Step.call _ _ _ _ true 8 rfl)
  have begun : Trace
      (fun before event after => Step before event after ∧ ¬ Spurious before after) _ [] _ :=
    called.restart
  have looked := (((begun.snoc ⟨@Step.load _ _ _ _ false 7 rfl, by decide⟩).snoc
    ⟨@Step.load _ _ _ _ true 8 rfl, by decide⟩).snoc
    ⟨@Step.fits _ _ _ _ false 7 0 ⟨0, none⟩ rfl (by decide) rfl, by decide⟩).snoc
    ⟨@Step.fits _ _ _ _ true 8 0 ⟨0, none⟩ rfl (by decide) rfl, by decide⟩
  have contended := (((looked.snoc ⟨@Step.win _ _ _ _ false 7 0 rfl rfl, by decide⟩).snoc
    ⟨@Step.lose _ _ _ _ true 8 0 rfl, by decide⟩).snoc
    ⟨@Step.fits _ _ _ _ true 8 1 ⟨1, none⟩ rfl (by decide) rfl, by decide⟩).snoc
    ⟨@Step.win _ _ _ _ true 8 1 rfl rfl, by decide⟩
  have written := (contended.snoc ⟨@Step.write _ _ _ _ true 8 1 rfl, by decide⟩).snoc
    ⟨@Step.write _ _ _ _ false 7 0 rfl, by decide⟩
  have resumed : Trace
      (fun before event after => Step before event after ∧ ¬ Spurious before after) _ [] _ :=
    written.restart
  have pushed := (resumed.snoc ⟨@Step.publish _ _ _ _ false 0 rfl, by decide⟩).snoc
    ⟨@Step.publish _ _ _ _ true 1 rfl, by decide⟩
  have first := (((pushed.snoc ⟨@Step.ready _ _ _ _ ⟨1, some 7⟩ rfl (by decide) rfl,
    by decide⟩).snoc
    ⟨@Step.take _ _ _ _ ⟨1, some 7⟩ rfl (by decide), by decide⟩).snoc
    ⟨@Step.release _ _ _ _ (some 7) rfl, by decide⟩).snoc
    ⟨@Step.advance _ _ _ _ (some 7) rfl, by decide⟩
  have second := (((first.snoc ⟨@Step.ready _ _ _ _ ⟨2, some 8⟩ rfl (by decide) rfl,
    by decide⟩).snoc
    ⟨@Step.take _ _ _ _ ⟨2, some 8⟩ rfl (by decide), by decide⟩).snoc
    ⟨@Step.release _ _ _ _ (some 8) rfl, by decide⟩).snoc
    ⟨@Step.advance _ _ _ _ (some 8) rfl, by decide⟩
  have again := (((second.snoc ⟨@Step.call _ _ _ _ false 9 rfl, by decide⟩).snoc
    ⟨@Step.load _ _ _ _ false 9 rfl, by decide⟩).snoc
    ⟨@Step.fits _ _ _ _ false 9 2 ⟨2, none⟩ rfl (by decide) rfl, by decide⟩).snoc
    ⟨@Step.win _ _ _ _ false 9 2 rfl rfl, by decide⟩
  have created : MpscRing.new 2 = .ok twoSlots := rfl
  exact ⟨_, _, _, _, _, called, written.append again, rfl, rfl, rfl, rfl, rfl, rfl, rfl,
    lock_free created called (written.append again) (by decide)⟩

end InferSched.Concurrency.System

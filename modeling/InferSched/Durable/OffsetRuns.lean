import Mathlib.Order.Bounds.Basic
import InferSched.Basic
import InferSched.Durable.OffsetTracker
import InferSched.Library.Checked

/-! # Any order of completions

The offset tracker after any list of completions. The committed offset ends at the last
offset before the first hole, and the completed ones beyond it wait
(`ContiguousOffsetTracker.Tracks`), so neither the order of the completions nor a
repetition makes a difference.
-/

namespace InferSched.Durable.ContiguousOffsetTracker

open Library

/-- Mark offsets one after another. -/
def markAll (offsets : List ℤ) (tracker : ContiguousOffsetTracker) : ContiguousOffsetTracker :=
  offsets.foldl (fun tracker offset => (tracker.markPublishComplete offset).2) tracker

/-- The offsets up to which everything after `start` is marked. -/
def contiguous (start : ℤ) (marked : Set ℤ) : Set ℤ :=
  { last | start ≤ last ∧ ∀ offset, start < offset → offset ≤ last → offset ∈ marked }

/-- The last one is the one before a hole. -/
theorem isGreatest_contiguous {start last : ℤ} {marked : Set ℤ}
    (reached : last ∈ contiguous start marked) (hole : last + 1 ∉ marked) :
    IsGreatest (contiguous start marked) last := by
  refine ⟨reached, fun further member => ?_⟩
  by_contra beyond
  exact hole (member.2 (last + 1) (Int.lt_add_one_iff.mpr reached.1)
    (Int.add_one_le_of_lt (not_le.mp beyond)))

/-- What the tracker knows of the marked offsets: all up to the committed one, and the
others. -/
structure Tracks (start : ℤ) (marked : Set ℤ) (tracker : ContiguousOffsetTracker) : Prop where
  reached : tracker.committedOffset ∈ contiguous start marked
  waiting : ∀ offset, offset ∈ tracker.completed ↔
    offset ∈ marked ∧ tracker.committedOffset < offset

variable {start : ℤ} {marked : Set ℤ} {tracker : ContiguousOffsetTracker}

/-! ### The loop -/

/-- The loop has ended after as many turns as there are completed offsets. -/
theorem advanceCommitted_ended (turns : ℕ) (tracker : ContiguousOffsetTracker)
    (enough : tracker.completed.card ≤ turns) :
    (advanceCommitted turns tracker).committedOffset + 1 ∉
      (advanceCommitted turns tracker).completed := by
  induction turns generalizing tracker with
  | zero =>
      have empty := Finset.card_eq_zero.mp (Nat.le_zero.mp enough)
      exact fun member => Finset.notMem_empty _ (empty ▸ member)
  | succ turns ih =>
      unfold advanceCommitted
      split
      · next complete =>
          apply ih
          rw [Finset.card_erase_of_mem complete]
          exact Nat.sub_le_of_le_add enough
      · next hole => exact hole

/-- More turns change nothing. -/
theorem advanceCommitted_stable (turns : ℕ) (tracker : ContiguousOffsetTracker)
    (enough : tracker.completed.card ≤ turns) :
    advanceCommitted turns tracker = advanceCommitted tracker.completed.card tracker := by
  generalize fewer : tracker.completed.card = count at enough
  induction count generalizing turns tracker with
  | zero =>
      have absent : tracker.committedOffset + 1 ∉ tracker.completed := by
        rw [Finset.card_eq_zero.mp fewer]
        exact Finset.notMem_empty _
      cases turns with
      | zero => rfl
      | succ turns => exact if_neg absent
  | succ count ih =>
      obtain ⟨turns, rfl⟩ := Nat.exists_eq_succ_of_ne_zero (Nat.ne_of_gt (Nat.zero_lt_of_lt enough))
      unfold advanceCommitted
      split
      · next complete =>
          refine ih turns _ ?_ (Nat.le_of_succ_le_succ enough)
          rw [Finset.card_erase_of_mem complete, fewer]
          rfl
      · rfl

/-- A turn of the loop moves one marked offset below the frontier. -/
theorem Tracks.advanceCommitted (turns : ℕ) (tracks : tracker.Tracks start marked) :
    (ContiguousOffsetTracker.advanceCommitted turns tracker).Tracks start marked := by
  induction turns generalizing tracker with
  | zero => exact tracks
  | succ turns ih =>
      unfold ContiguousOffsetTracker.advanceCommitted
      split
      · next complete =>
          obtain ⟨least, filled⟩ := tracks.reached
          refine ih ⟨⟨least.trans (Int.le_add_one le_rfl), fun offset after before => ?_⟩,
            fun offset => ?_⟩
          · rcases lt_or_eq_of_le before with earlier | here
            · exact filled offset after (Int.lt_add_one_iff.mp earlier)
            · exact here ▸ ((tracks.waiting _).mp complete).1
          · rw [Finset.mem_erase, tracks.waiting offset]
            constructor
            · rintro ⟨other, known, beyond⟩
              exact ⟨known, lt_of_le_of_ne (Int.add_one_le_of_lt beyond) (Ne.symm other)⟩
            · rintro ⟨known, beyond⟩
              exact ⟨ne_of_gt beyond, known, (Int.lt_add_one_iff.mpr le_rfl).trans beyond⟩
      · exact tracks

/-! ### Completions -/

/-- The tracker stands before a hole. -/
structure Settled (start : ℤ) (marked : Set ℤ) (tracker : ContiguousOffsetTracker) : Prop
    extends Tracks start marked tracker where
  hole : tracker.committedOffset + 1 ∉ marked

/-- A completion adds its offset to the marked ones. -/
theorem Settled.markPublishComplete (settled : tracker.Settled start marked) (offset : ℤ) :
    (tracker.markPublishComplete offset).2.Settled start (insert offset marked) := by
  unfold ContiguousOffsetTracker.markPublishComplete
  split
  · next old =>
      refine ⟨⟨⟨settled.reached.1, fun other after before =>
        Or.inr (settled.reached.2 other after before)⟩, fun other => ?_⟩, ?_⟩
      · rw [settled.waiting other, Set.mem_insert_iff]
        constructor
        · exact fun known => ⟨Or.inr known.1, known.2⟩
        · rintro ⟨rfl | known, beyond⟩
          · exact absurd old (not_le.mpr beyond)
          · exact ⟨known, beyond⟩
      · rintro (same | known)
        · exact absurd (same ▸ old) (not_le.mpr (Int.lt_add_one_iff.mpr le_rfl))
        · exact settled.hole known
  · next new =>
      have marks : Tracks start (insert offset marked)
          { tracker with completed := insert offset tracker.completed } := by
        refine ⟨⟨settled.reached.1, fun other after before =>
          Or.inr (settled.reached.2 other after before)⟩, fun other => ?_⟩
        rw [Finset.mem_insert, settled.waiting other, Set.mem_insert_iff]
        constructor
        · rintro (rfl | ⟨known, beyond⟩)
          · exact ⟨Or.inl rfl, not_le.mp new⟩
          · exact ⟨Or.inr known, beyond⟩
        · rintro ⟨same | known, beyond⟩
          · exact Or.inl same
          · exact Or.inr ⟨known, beyond⟩
      have tracks := marks.advanceCommitted (insert offset tracker.completed).card
      have ended := advanceCommitted_ended (insert offset tracker.completed).card
        { tracker with completed := insert offset tracker.completed } le_rfl
      exact ⟨tracks, fun known =>
        ended ((tracks.waiting _).mpr ⟨known, Int.lt_add_one_iff.mpr le_rfl⟩)⟩

theorem Settled.markAll (settled : tracker.Settled start marked) (offsets : List ℤ) :
    (markAll offsets tracker).Settled start (marked ∪ { offset | offset ∈ offsets }) := by
  induction offsets generalizing tracker marked with
  | nil =>
      have nothing : marked ∪ { offset | offset ∈ ([] : List ℤ) } = marked := by
        ext offset
        simp
      exact nothing.symm ▸ settled
  | cons first later ih =>
      have split : marked ∪ { offset | offset ∈ first :: later } =
          insert first marked ∪ { offset | offset ∈ later } := by
        ext offset
        simp only [Set.mem_union, Set.mem_ofPred_eq, List.mem_cons, Set.mem_insert_iff]
        tauto
      rw [split]
      exact ih (settled.markPublishComplete first)

/-- A new tracker has nothing marked and stands at its start. -/
theorem settled_new (start : ℤ) : Settled start ∅ { committedOffset := start } where
  reached := ⟨le_rfl, fun offset after before => absurd after (not_lt.mpr before)⟩
  waiting := fun offset => by simp
  hole := Set.notMem_empty _

/-- After any marks the tracker is settled for the offsets marked. -/
theorem settled_markAll (start : ℤ) (offsets : List ℤ) :
    (markAll offsets { committedOffset := start }).Settled start { offset | offset ∈ offsets } := by
  have settled := (settled_new start).markAll offsets
  rwa [Set.empty_union] at settled

/-- A settled tracker stands at the end of the contiguous part. -/
theorem Settled.isGreatest (settled : tracker.Settled start marked) :
    IsGreatest (contiguous start marked) tracker.committedOffset :=
  isGreatest_contiguous settled.reached settled.hole

/-- The marked offsets determine the tracker. -/
theorem Settled.unique {other : ContiguousOffsetTracker} (settled : tracker.Settled start marked)
    (otherSettled : other.Settled start marked) : tracker = other := by
  have committed := settled.isGreatest.unique otherSettled.isGreatest
  have completed : tracker.completed = other.completed := by
    ext offset
    rw [settled.waiting, otherSettled.waiting, committed]
  cases tracker
  cases other
  exact congrArg₂ _ committed completed

/-! ### Machine offsets -/

/-- The loop with its sums checked. -/
def advanceCommittedChecked :
    ℕ → ContiguousOffsetTracker → Checked ContiguousOffsetTracker
  | 0, tracker => pure tracker
  | turns + 1, tracker => do
      let next ← Checked.signed int64Max (tracker.committedOffset + 1)
      if next ∈ tracker.completed then
        advanceCommittedChecked turns
          { committedOffset := next
            completed := tracker.completed.erase next }
      else pure tracker

/-- The call with its sums checked; one turn more than there are offsets makes the last
test. -/
def markPublishCompleteChecked (tracker : ContiguousOffsetTracker) (offset : ℤ) :
    Checked (ℤ × ContiguousOffsetTracker) :=
  if offset ≤ tracker.committedOffset then pure (tracker.committedOffset, tracker)
  else do
    let marked := { tracker with completed := insert offset tracker.completed }
    let advanced ← advanceCommittedChecked (marked.completed.card + 1) marked
    pure (advanced.committedOffset, advanced)

def markAllChecked : List ℤ → ContiguousOffsetTracker → Checked ContiguousOffsetTracker
  | [], tracker => pure tracker
  | offset :: later, tracker => do
      let marked ← tracker.markPublishCompleteChecked offset
      markAllChecked later marked.2

/-- The completed offsets, and the committed one where the loop runs, are below the
largest machine number. -/
structure Small (tracker : ContiguousOffsetTracker) : Prop where
  least : -(int64Max : ℤ) - 1 ≤ tracker.committedOffset
  completed : ∀ offset ∈ tracker.completed, offset < int64Max

/-- The frontier passes no offset that was not marked, so it does not overflow. -/
theorem advanceCommittedChecked_gives (turns : ℕ) (small : tracker.Small)
    (below : tracker.committedOffset < int64Max) :
    Checked.Gives (advanceCommittedChecked turns tracker)
      (.ok (advanceCommitted turns tracker)) := by
  induction turns generalizing tracker with
  | zero => exact .pure tracker
  | succ turns ih =>
      have least := small.least
      refine .bind (.signed_within (by omega) (by omega)) ?_
      unfold advanceCommitted
      split
      · next complete =>
          refine ih ⟨by dsimp only; omega, fun offset member => ?_⟩ (small.completed _ complete)
          exact small.completed offset (Finset.mem_of_mem_erase member)
      · exact .pure tracker

theorem Small.advanceCommitted (turns : ℕ) (small : tracker.Small) :
    (ContiguousOffsetTracker.advanceCommitted turns tracker).Small := by
  induction turns generalizing tracker with
  | zero => exact small
  | succ turns ih =>
      unfold ContiguousOffsetTracker.advanceCommitted
      split
      · exact ih ⟨small.least.trans (Int.le_add_one le_rfl), fun offset member =>
          small.completed offset (Finset.mem_of_mem_erase member)⟩
      · exact small

/-- A mark below the largest offset keeps all of them below it. -/
theorem Small.insert (small : tracker.Small) {offset : ℤ} (below : offset < int64Max) :
    Small { tracker with completed := insert offset tracker.completed } := by
  refine ⟨small.least, fun other member => ?_⟩
  rcases Finset.mem_insert.mp member with rfl | old
  · exact below
  · exact small.completed other old

theorem Small.markPublishComplete (small : tracker.Small) {offset : ℤ}
    (below : offset < int64Max) : (tracker.markPublishComplete offset).2.Small := by
  unfold ContiguousOffsetTracker.markPublishComplete
  split
  · exact small
  · exact (small.insert below).advanceCommitted _

theorem markPublishCompleteChecked_gives (small : tracker.Small) {offset : ℤ}
    (below : offset < int64Max) :
    Checked.Gives (tracker.markPublishCompleteChecked offset)
      (.ok (tracker.markPublishComplete offset)) := by
  unfold markPublishCompleteChecked ContiguousOffsetTracker.markPublishComplete
  split
  · exact .pure _
  · next new =>
      have ran := advanceCommittedChecked_gives
        ((insert offset tracker.completed).card + 1) (small.insert below)
        ((not_le.mp new).trans below)
      rw [advanceCommitted_stable _ { tracker with completed := insert offset tracker.completed }
        (Nat.le_succ _)] at ran
      exact .bind ran (.pure _)

/-- No mark below the largest offset makes the tracker overflow. -/
theorem markAllChecked_gives (small : tracker.Small) (offsets : List ℤ)
    (below : ∀ offset ∈ offsets, offset < int64Max) :
    Checked.Gives (markAllChecked offsets tracker) (.ok (markAll offsets tracker)) := by
  induction offsets generalizing tracker with
  | nil => exact .pure tracker
  | cons offset later ih =>
      obtain ⟨first, rest⟩ := List.forall_mem_cons.mp below
      exact .bind (markPublishCompleteChecked_gives small first)
        (ih (small.markPublishComplete first) rest)

/-! ### The committed offset -/

/-- **The committed offset is the last before a hole.** Whatever the order and the
repetitions of the completions, it is the largest one up to which every offset after the
start is marked, and the completed offsets are the marked ones above it; so the result
depends on the set of marked offsets only. The loop of every further call ends by its own
condition, however many more turns it may take, and no call leaves the range of the
machine's numbers. -/
theorem committed_markAll {start : ℤ} (least : -(int64Max : ℤ) - 1 ≤ start) {offsets : List ℤ}
    (below : ∀ offset ∈ offsets, offset < int64Max) :
    let tracker := markAll offsets { committedOffset := start }
    IsGreatest (contiguous start { offset | offset ∈ offsets }) tracker.committedOffset ∧
    (∀ offset, offset ∈ tracker.completed ↔
      offset ∈ offsets ∧ tracker.committedOffset < offset) ∧
    (∀ others : List ℤ, (∀ offset, offset ∈ others ↔ offset ∈ offsets) →
      markAll others { committedOffset := start } = tracker) ∧
    (∀ offset, tracker.committedOffset < offset →
      let marked := { tracker with completed := insert offset tracker.completed }
      let after := (tracker.markPublishComplete offset).2
      after.committedOffset + 1 ∉ after.completed ∧
        ∀ turns, marked.completed.card ≤ turns → advanceCommitted turns marked = after) ∧
    Checked.Gives (markAllChecked offsets { committedOffset := start }) (.ok tracker) := by
  intro tracker
  have settled := settled_markAll start offsets
  refine ⟨settled.isGreatest, settled.waiting, ?_, ?_, ?_⟩
  · intro others same
    have otherSettled := settled_markAll start others
    have equal : { offset | offset ∈ others } = { offset | offset ∈ offsets } := Set.ext same
    rw [equal] at otherSettled
    exact otherSettled.unique settled
  · intro offset new marked after
    have result : after = advanceCommitted marked.completed.card marked :=
      congrArg Prod.snd (if_neg (not_le.mpr new))
    rw [result]
    exact ⟨advanceCommitted_ended _ marked le_rfl,
      fun turns enough => advanceCommitted_stable turns marked enough⟩
  · exact markAllChecked_gives ⟨least, fun _ member => absurd member (Finset.notMem_empty _)⟩
      offsets below

/-- Three offsets in reverse order, and a fourth beyond a hole. -/
theorem committed_markAll_reversed :
    IsGreatest (contiguous (-1) { offset | offset ∈ ([2, 4, 1, 0] : List ℤ) }) 2 := by
  have below : ∀ offset ∈ ([2, 4, 1, 0] : List ℤ), offset < int64Max := by decide
  have least : -(int64Max : ℤ) - 1 ≤ -1 := by decide
  exact (committed_markAll least below).1

end InferSched.Durable.ContiguousOffsetTracker

import Mathlib.Data.Finset.Card
import Mathlib.Data.Int.Notation

/-! # The contiguous offset tracker

`ContiguousOffsetTracker` (`offset_tracker.cpp`): offsets are marked complete in
any order, and the committed offset follows the contiguous part. Offsets are
unbounded integers.
-/

namespace InferSched.Durable

/-- The last offset up to which all are complete, and the complete ones above it. -/
structure ContiguousOffsetTracker where
  committedOffset : ℤ := -1
  completed : Finset ℤ := ∅
deriving DecidableEq

namespace ContiguousOffsetTracker

/-- The loop that moves the committed offset over completed ones. A turn removes
an offset from the set, so its size bounds the number of turns. -/
def advanceCommitted : ℕ → ContiguousOffsetTracker → ContiguousOffsetTracker
  | 0, tracker => tracker
  | turns + 1, tracker =>
      if tracker.committedOffset + 1 ∈ tracker.completed then
        advanceCommitted turns
          { committedOffset := tracker.committedOffset + 1
            completed := tracker.completed.erase (tracker.committedOffset + 1) }
      else tracker

/-- Mark an offset complete, and move over the run that starts at the next one. -/
def markPublishComplete (tracker : ContiguousOffsetTracker) (offset : ℤ) :
    ℤ × ContiguousOffsetTracker :=
  if offset ≤ tracker.committedOffset then (tracker.committedOffset, tracker)
  else
    let marked := { tracker with completed := insert offset tracker.completed }
    let advanced := advanceCommitted marked.completed.card marked
    (advanced.committedOffset, advanced)

/-- Every offset from `start` that the tracker counts as complete has a
property. -/
structure Covers (start : ℤ) (property : ℤ → Prop) (tracker : ContiguousOffsetTracker) : Prop where
  committed : ∀ offset, start ≤ offset → offset ≤ tracker.committedOffset → property offset
  completed : ∀ offset ∈ tracker.completed, property offset

variable {start : ℤ} {property : ℤ → Prop} {tracker : ContiguousOffsetTracker}

theorem Covers.mono {weaker : ℤ → Prop} (covers : tracker.Covers start property)
    (implies : ∀ offset, property offset → weaker offset) : tracker.Covers start weaker :=
  ⟨fun offset first last => implies offset (covers.committed offset first last),
    fun offset member => implies offset (covers.completed offset member)⟩

/-- A tracker that starts before the first offset it is given. -/
theorem Covers.new {first : ℤ} (before : ∀ offset, start ≤ offset → offset < first →
    property offset) : Covers start property { committedOffset := first - 1 } :=
  ⟨fun offset least last => before offset least (Int.lt_of_le_sub_one last),
    fun _ member => absurd member (Finset.notMem_empty _)⟩

theorem Covers.advanceCommitted (turns : ℕ) (covers : tracker.Covers start property) :
    (ContiguousOffsetTracker.advanceCommitted turns tracker).Covers start property := by
  induction turns generalizing tracker with
  | zero => exact covers
  | succ turns ih =>
      rw [ContiguousOffsetTracker.advanceCommitted]
      split
      · next complete =>
          apply ih
          refine ⟨?_, ?_⟩
          · intro offset first last
            rcases lt_or_eq_of_le last with earlier | here
            · exact covers.committed offset first (Int.lt_add_one_iff.mp earlier)
            · exact here ▸ covers.completed _ complete
          · exact fun offset member => covers.completed offset (Finset.mem_of_mem_erase member)
      · exact covers

/-- Marking an offset with the property keeps the cover, and what the call
returns is the committed offset. -/
theorem Covers.markPublishComplete (covers : tracker.Covers start property) {offset : ℤ}
    (holds : property offset) :
    (tracker.markPublishComplete offset).2.Covers start property ∧
      (tracker.markPublishComplete offset).1 =
        (tracker.markPublishComplete offset).2.committedOffset := by
  unfold ContiguousOffsetTracker.markPublishComplete
  split
  · exact ⟨covers, rfl⟩
  · refine ⟨Covers.advanceCommitted _ ⟨covers.committed, ?_⟩, rfl⟩
    intro other member
    rcases Finset.mem_insert.mp member with rfl | old
    · exact holds
    · exact covers.completed other old

end ContiguousOffsetTracker
end InferSched.Durable

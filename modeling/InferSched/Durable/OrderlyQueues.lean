import Mathlib.Algebra.Order.Ring.Int
import InferSched.Durable.KafkaPoller

/-! # Queues without gaps

A poller whose router marks every message before it takes the next one: the queue of a
partition has the offsets from the first unmarked one to the position of the consumer, in
their order, and no offset is marked ahead. What the poll thread does between two rebalances
keeps it so, also while the router is busy with a message (`KafkaPoller.Owes`).
-/

namespace InferSched.Durable

/-- These are the offsets from the first to before the last, in their order. -/
def Consecutive : ℤ → List ℤ → ℤ → Prop
  | first, [], last => first = last
  | first, offset :: later, last => offset = first ∧ Consecutive (first + 1) later last

theorem Consecutive.length_eq {first last : ℤ} {offsets : List ℤ}
    (consecutive : Consecutive first offsets last) : first + offsets.length = last := by
  induction offsets generalizing first with
  | nil => simpa [Consecutive] using consecutive
  | cons offset later ih =>
      have rest := ih consecutive.2
      rw [List.length_cons, Nat.cast_succ]
      omega

theorem Consecutive.snoc {first last : ℤ} {offsets : List ℤ}
    (consecutive : Consecutive first offsets last) :
    Consecutive first (offsets ++ [last]) (last + 1) := by
  induction offsets generalizing first with
  | nil => exact ⟨consecutive.symm, congrArg (· + 1) consecutive⟩
  | cons offset later ih => exact ⟨consecutive.1, ih consecutive.2⟩

theorem Consecutive.mem {first last offset : ℤ} {offsets : List ℤ}
    (consecutive : Consecutive first offsets last) (least : first ≤ offset)
    (below : offset < last) : offset ∈ offsets := by
  induction offsets generalizing first with
  | nil =>
      have same : first = last := consecutive
      omega
  | cons head later ih =>
      obtain ⟨isFirst, rest⟩ := consecutive
      by_cases here : offset = first
      · exact List.mem_cons.mpr (Or.inl (here.trans isFirst.symm))
      · exact List.mem_cons_of_mem _ (ih rest (by omega))

/-- With nothing marked ahead, the next offset moves the committed one by one. -/
theorem ContiguousOffsetTracker.markPublishComplete_next {tracker : ContiguousOffsetTracker}
    (whole : tracker.completed = ∅) : tracker.markPublishComplete (tracker.committedOffset + 1) =
      (tracker.committedOffset + 1, { committedOffset := tracker.committedOffset + 1 }) := by
  simp [markPublishComplete, whole, advanceCommitted]

namespace KafkaPoller

/-- The offsets of a partition in the queue. -/
def queued (poller : KafkaPoller) (partitionId : ℤ) : List ℤ :=
  (poller.messages.filter (·.partitionId = partitionId)).map KafkaMessage.offset

/-- The offset after the marked ones of a partition; the position of the consumer as long as it
has consumed nothing. -/
def frontier (poller : KafkaPoller) (partitionId position : ℤ) : ℤ :=
  ((poller.trackers.lookup partitionId).map (·.committedOffset + 1)).getD position

/-- Everything that was consumed and is not queued any more is marked. -/
structure Orderly (poller : KafkaPoller) : Prop where
  listed : ∀ message ∈ poller.messages, message.partitionId ∈ poller.positions
  whole : ∀ partitionId tracker, poller.trackers.lookup partitionId = some tracker →
    tracker.completed = ∅
  queue : ∀ partitionId position, poller.positions.lookup partitionId = some position →
    Consecutive (poller.frontier partitionId position) (poller.queued partitionId) position

variable {poller : KafkaPoller}

/-- Consuming a message does not move the frontiers. -/
theorem frontier_enqueue {message : KafkaMessage}
    (position : poller.positions.lookup message.partitionId = some message.offset)
    {partitionId next : ℤ}
    (later : (poller.enqueue message).positions.lookup partitionId = some next) :
    ∃ before, poller.positions.lookup partitionId = some before ∧
      (poller.enqueue message).frontier partitionId next = poller.frontier partitionId before := by
  unfold enqueue frontier at *
  dsimp only at later ⊢
  by_cases same : partitionId = message.partitionId
  · subst same
    refine ⟨message.offset, position, ?_⟩
    split
    · next tracked =>
        obtain ⟨tracker, found⟩ := Option.isSome_iff_exists.mp (AList.lookup_isSome.mpr tracked)
        rw [found]
        rfl
    · next untracked =>
        rw [AList.lookup_insert, AList.lookup_eq_none.mpr untracked]
        exact sub_add_cancel message.offset 1
  · rw [AList.lookup_insert_ne same] at later
    refine ⟨next, later, ?_⟩
    split
    · rfl
    · rw [AList.lookup_insert_ne same]

/-- The next message of a partition goes to the end of its queue. -/
theorem Orderly.enqueue (orderly : poller.Orderly) {message : KafkaMessage}
    (position : poller.positions.lookup message.partitionId = some message.offset) :
    (poller.enqueue message).Orderly where
  listed queued member := by
    apply (AList.mem_insert _).mpr
    rcases List.mem_append.mp member with before | new
    · exact Or.inr (orderly.listed queued before)
    · rw [List.mem_singleton.mp new]
      exact Or.inl rfl
  whole partitionId tracker found := by
    unfold KafkaPoller.enqueue at found
    dsimp only at found
    split at found
    · exact orderly.whole partitionId tracker found
    · by_cases same : partitionId = message.partitionId
      · subst same
        rw [AList.lookup_insert] at found
        cases found
        rfl
      · rw [AList.lookup_insert_ne same] at found
        exact orderly.whole partitionId tracker found
  queue partitionId next found := by
    obtain ⟨before, isBefore, sameFrontier⟩ := frontier_enqueue position found
    rw [sameFrontier]
    have consecutive := orderly.queue partitionId before isBefore
    unfold KafkaPoller.enqueue at found ⊢
    unfold queued at consecutive ⊢
    dsimp only at found ⊢
    rw [List.filter_append, List.map_append]
    by_cases same : partitionId = message.partitionId
    · subst same
      rw [AList.lookup_insert] at found
      cases position.symm.trans isBefore
      cases found
      simpa using consecutive.snoc
    · rw [AList.lookup_insert_ne same] at found
      cases found.symm.trans isBefore
      have others : [message].filter (fun queued => queued.partitionId = partitionId) = [] := by
        simp [Ne.symm same]
      rw [others, List.map_nil, List.append_nil]
      exact consecutive

/-- The tracker of the first message of the queue stands right before it. -/
theorem Orderly.first (orderly : poller.Orderly) {message : KafkaMessage}
    {others : List KafkaMessage} (first : poller.messages = message :: others) :
    poller.trackers.lookup message.partitionId =
      some { committedOffset := message.offset - 1 } := by
  obtain ⟨position, isPosition⟩ := Option.isSome_iff_exists.mp (AList.lookup_isSome.mpr
    (orderly.listed message (by rw [first]; exact List.mem_cons_self)))
  have consecutive := orderly.queue message.partitionId position isPosition
  unfold queued at consecutive
  rw [first, List.filter_cons_of_pos (by simp), List.map_cons] at consecutive
  obtain ⟨isFirst, rest⟩ := consecutive
  unfold frontier at isFirst rest
  cases tracked : poller.trackers.lookup message.partitionId with
  | none =>
      -- without a tracker, nothing of the partition is queued
      rw [tracked] at rest
      have size : position + 1 + _ = position := rest.length_eq
      omega
  | some tracker =>
      rw [tracked] at isFirst
      have isNext : message.offset = tracker.committedOffset + 1 := isFirst
      obtain ⟨committedOffset, completed⟩ := tracker
      cases orderly.whole message.partitionId _ tracked
      rw [isNext, add_sub_cancel_right]
      rfl

/-- Marking the first message of the queue moves its tracker by one. -/
theorem Orderly.marked (orderly : poller.Orderly) {message : KafkaMessage}
    {others : List KafkaMessage} (first : poller.messages = message :: others) :
    markPublishComplete { poller with messages := others } message.partitionId message.offset =
      { poller with
        messages := others
        trackers := poller.trackers.insert message.partitionId
          { committedOffset := message.offset }
        commits := poller.commits ++ [(message.partitionId, message.offset)] } := by
  have tracked := orderly.first first
  have moved := @ContiguousOffsetTracker.markPublishComplete_next
    { committedOffset := message.offset - 1 } rfl
  rw [sub_add_cancel] at moved
  unfold markPublishComplete
  dsimp only
  rw [tracked]
  dsimp only
  rw [moved, if_pos (sub_one_lt message.offset)]

/-- Marking the first message moves the frontier to the next one. -/
theorem Orderly.mark (orderly : poller.Orderly) {message : KafkaMessage}
    {others : List KafkaMessage} (first : poller.messages = message :: others) :
    (markPublishComplete { poller with messages := others } message.partitionId
      message.offset).Orderly := by
  rw [orderly.marked first]
  refine ⟨?_, ?_, ?_⟩
  · intro queued member
    exact orderly.listed queued (by rw [first]; exact List.mem_cons_of_mem _ member)
  · intro partitionId tracker found
    by_cases same : partitionId = message.partitionId
    · subst same
      rw [AList.lookup_insert] at found
      cases found
      rfl
    · rw [AList.lookup_insert_ne same] at found
      exact orderly.whole partitionId tracker found
  · intro partitionId position found
    have consecutive := orderly.queue partitionId position found
    unfold queued frontier at consecutive ⊢
    dsimp only
    by_cases same : partitionId = message.partitionId
    · subst same
      rw [first, List.filter_cons_of_pos (by simp), List.map_cons, orderly.first first]
        at consecutive
      obtain ⟨_, rest⟩ := consecutive
      rw [AList.lookup_insert]
      simpa using rest
    · rw [first, List.filter_cons_of_neg (by simp [Ne.symm same])] at consecutive
      rw [AList.lookup_insert_ne same]
      exact consecutive

/-- The first message was taken off the queue and is not yet marked. -/
def Owes (poller : KafkaPoller) (message : KafkaMessage) : Prop :=
  Orderly { poller with messages := message :: poller.messages }

/-- The tracker of a message has reached it. -/
def Passed (poller : KafkaPoller) (message : KafkaMessage) : Prop :=
  ∃ tracker, poller.trackers.lookup message.partitionId = some tracker ∧
    message.offset ≤ tracker.committedOffset

variable {message : KafkaMessage}

/-- Marking the message that is owed. -/
theorem Owes.mark (owes : poller.Owes message) :
    (poller.markPublishComplete message.partitionId message.offset).Orderly ∧
      (poller.markPublishComplete message.partitionId message.offset).Passed message := by
  refine ⟨Orderly.mark owes rfl, { committedOffset := message.offset }, ?_, le_rfl⟩
  have marked := Orderly.marked owes rfl
  change poller.markPublishComplete message.partitionId message.offset = _ at marked
  rw [marked]
  exact AList.lookup_insert _

/-- A message that is owed has not been marked. -/
theorem Owes.not_passed (owes : poller.Owes message) : ¬ poller.Passed message := by
  rintro ⟨tracker, found, passed⟩
  cases found.symm.trans (Orderly.first owes rfl)
  exact absurd passed (not_le.mpr (sub_one_lt message.offset))

/-- A message that is marked again changes nothing of the trackers. -/
theorem Passed.mark (passed : poller.Passed message) :
    (∀ partitionId, (poller.markPublishComplete message.partitionId
        message.offset).trackers.lookup partitionId = poller.trackers.lookup partitionId) ∧
      (poller.markPublishComplete message.partitionId message.offset).positions =
        poller.positions ∧
      (poller.markPublishComplete message.partitionId message.offset).messages =
        poller.messages := by
  obtain ⟨tracker, found, reached⟩ := passed
  have still : tracker.markPublishComplete message.offset = (tracker.committedOffset, tracker) :=
    if_pos reached
  unfold markPublishComplete
  rw [found]
  dsimp only
  rw [still]
  refine ⟨fun partitionId => ?_, rfl, rfl⟩
  by_cases same : partitionId = message.partitionId
  · subst same
    rw [AList.lookup_insert, found]
  · rw [AList.lookup_insert_ne same]

theorem Orderly.of_same {later : KafkaPoller} (orderly : poller.Orderly)
    (trackers : ∀ partitionId,
      later.trackers.lookup partitionId = poller.trackers.lookup partitionId)
    (positions : later.positions = poller.positions) (messages : later.messages = poller.messages) :
    later.Orderly where
  listed queued member := by
    rw [positions]
    exact orderly.listed queued (messages ▸ member)
  whole partitionId tracker found :=
    orderly.whole partitionId tracker ((trackers partitionId).symm.trans found)
  queue partitionId position found := by
    unfold frontier queued
    rw [trackers, messages]
    exact orderly.queue partitionId position (positions ▸ found)

/-- What its poll thread does to a poller, as long as there is no rebalance. -/
inductive Drifts (log : ℤ → ℤ → Text) (poller : KafkaPoller) : KafkaPoller → Prop
  | still : Drifts log poller poller
  | take : Drifts log poller poller.takeCommits
  | drop : Drifts log poller poller.dropCommit
  | enqueue {partitionId offset : ℤ}
      (position : poller.positions.lookup partitionId = some offset) :
      Drifts log poller (poller.enqueue ⟨log partitionId offset, partitionId, offset⟩)

variable {log : ℤ → ℤ → Text} {later : KafkaPoller}

/-- The poll thread keeps a queue in order. -/
theorem Orderly.drifts (orderly : poller.Orderly) (drifts : poller.Drifts log later) :
    later.Orderly := by
  cases drifts with
  | still => exact orderly
  | take => exact orderly.of_same (fun _ => rfl) rfl rfl
  | drop => exact orderly.of_same (fun _ => rfl) rfl rfl
  | enqueue position => exact orderly.enqueue position

/-- A message stays owed while the poll thread goes on. -/
theorem Owes.drifts (owes : poller.Owes message) (drifts : poller.Drifts log later) :
    later.Owes message := by
  cases drifts with
  | still => exact owes
  | take => exact Orderly.of_same owes (fun _ => rfl) rfl rfl
  | drop => exact Orderly.of_same owes (fun _ => rfl) rfl rfl
  | enqueue position => exact Orderly.enqueue owes position

/-- A mark stays while the poll thread goes on. -/
theorem Passed.drifts (passed : poller.Passed message) (drifts : poller.Drifts log later) :
    later.Passed message := by
  cases drifts with
  | still | take | drop => exact passed
  | @enqueue partitionId offset position =>
      obtain ⟨tracker, found, reached⟩ := passed
      refine ⟨tracker, ?_, reached⟩
      have tracked : message.partitionId ∈ poller.trackers :=
        AList.lookup_isSome.mp (by rw [found]; rfl)
      unfold KafkaPoller.enqueue
      dsimp only
      split
      · exact found
      · next untracked =>
          have other : message.partitionId ≠ partitionId := fun same => untracked (same ▸ tracked)
          rw [AList.lookup_insert_ne other]
          exact found

/-- The poller has had no rebalance, and consumes no further partition. -/
structure Keeps (poller later : KafkaPoller) : Prop where
  events : later.ownershipEvents = poller.ownershipEvents
  owned : later.assignedPartitions = poller.assignedPartitions
  consumed : ∀ partitionId ∈ later.positions, partitionId ∈ poller.positions

theorem Keeps.refl (poller : KafkaPoller) : poller.Keeps poller :=
  ⟨rfl, rfl, fun _ listed => listed⟩

/-- The poll thread alone makes no rebalance. -/
theorem Keeps.drifts {before : KafkaPoller} (keeps : before.Keeps poller)
    (drifts : poller.Drifts log later) : before.Keeps later := by
  cases drifts with
  | still | take | drop => exact ⟨keeps.events, keeps.owned, keeps.consumed⟩
  | enqueue position =>
      refine ⟨keeps.events, keeps.owned, fun query listed => keeps.consumed query ?_⟩
      rcases (AList.mem_insert _).mp listed with rfl | known
      · exact AList.lookup_isSome.mp (by rw [position]; rfl)
      · exact known

/-- A mark leaves the assignment as it is. -/
theorem Keeps.mark {before : KafkaPoller} (keeps : before.Keeps poller) (partitionId offset : ℤ) :
    before.Keeps (poller.markPublishComplete partitionId offset) := by
  unfold markPublishComplete
  split
  · exact keeps
  · exact ⟨keeps.events, keeps.owned, keeps.consumed⟩

end KafkaPoller

end InferSched.Durable

import Mathlib.Data.List.AList
import InferSched.Basic
import InferSched.Durable.OffsetTracker

/-! # The Kafka poller

The state a `KafkaPoller` (`kafka_poller.cpp`) shares between its poll thread and
the router loop. Every function is one critical section under the poller's mutex.
`positions` is the part of the consumer that decides what it delivers: the next
offset of each partition it was assigned. `flushing` are the commits that the
poll thread has taken from the queue and not yet made. `Stop` is not modelled on
its own: a poller that stops flushes its commits and then does nothing.
-/

namespace InferSched.Durable

/-- A message without its key, which no caller reads. -/
structure KafkaMessage where
  payload : Text
  partitionId : ℤ
  offset : ℤ
deriving DecidableEq, Repr

/-- The two callbacks of a rebalance. -/
inductive OwnershipEventKind
  | assigned
  | revoked
deriving DecidableEq, Repr

/-- What the rebalance callback leaves for the router. -/
structure OwnershipEvent where
  kind : OwnershipEventKind
  partitions : List ℤ
deriving DecidableEq, Repr

/-- What the poll thread and the router share, with the positions of the consumer. -/
structure KafkaPoller where
  messages : List KafkaMessage := []
  ownershipEvents : List OwnershipEvent := []
  commits : List (ℤ × ℤ) := []
  trackers : AList fun _ : ℤ => ContiguousOffsetTracker := ∅
  assignedPartitions : List ℤ := []
  positions : AList fun _ : ℤ => ℤ := ∅
  flushing : List (ℤ × ℤ) := []

namespace KafkaPoller

/-- Take the first queued message. -/
def pop (poller : KafkaPoller) : Option KafkaMessage × KafkaPoller :=
  (poller.messages.head?, { poller with messages := poller.messages.tail })

/-- Take the first event that the router has not seen. -/
def popOwnershipEvent (poller : KafkaPoller) : Option OwnershipEvent × KafkaPoller :=
  (poller.ownershipEvents.head?, { poller with ownershipEvents := poller.ownershipEvents.tail })

/-- The partition is one of those assigned at the moment. -/
def owns (poller : KafkaPoller) (partitionId : ℤ) : Bool :=
  decide (partitionId ∈ poller.assignedPartitions)

/-- `rebalance_cb` for an assignment: the consumer starts every partition at the
position committed for its group. -/
def assign (poller : KafkaPoller) (committed : ℤ → ℤ) (partitions : List ℤ) : KafkaPoller :=
  { poller with
    positions := partitions.foldl (fun positions partitionId =>
      positions.insert partitionId (committed partitionId)) ∅
    assignedPartitions := poller.assignedPartitions ∪ partitions
    ownershipEvents := poller.ownershipEvents ++ [⟨.assigned, partitions⟩] }

/-- `rebalance_cb` for a revocation, after which the consumer has no assignment. -/
def revoke (poller : KafkaPoller) (partitions : List ℤ) : KafkaPoller :=
  { poller with
    assignedPartitions := poller.assignedPartitions.filter (· ∉ partitions)
    trackers := partitions.foldl (fun trackers partitionId => trackers.erase partitionId)
      poller.trackers
    messages := poller.messages.filter fun message => message.partitionId ∉ partitions
    ownershipEvents := poller.ownershipEvents ++ [⟨.revoked, partitions⟩]
    positions := ∅ }

/-- Mark an offset of a partition, and queue a commit if its tracker has advanced. -/
def markPublishComplete (poller : KafkaPoller) (partitionId offset : ℤ) : KafkaPoller :=
  match poller.trackers.lookup partitionId with
  | none => poller
  | some tracker =>
      let before := tracker.committedOffset
      let marked := tracker.markPublishComplete offset
      { poller with
        trackers := poller.trackers.insert partitionId marked.2
        commits :=
          if marked.1 > before then poller.commits ++ [(partitionId, marked.1)]
          else poller.commits }

/-- The poll thread takes the queued commits. -/
def takeCommits (poller : KafkaPoller) : KafkaPoller :=
  { poller with flushing := poller.commits, commits := [] }

/-- The poll thread has made, or failed to make, its next commit. -/
def dropCommit (poller : KafkaPoller) : KafkaPoller :=
  { poller with flushing := poller.flushing.tail }

/-- The poll thread queues a consumed message, with a tracker that starts at the
first message of its partition. -/
def enqueue (poller : KafkaPoller) (message : KafkaMessage) : KafkaPoller :=
  { poller with
    positions := poller.positions.insert message.partitionId (message.offset + 1)
    trackers :=
      if message.partitionId ∈ poller.trackers then poller.trackers
      else poller.trackers.insert message.partitionId { committedOffset := message.offset - 1 }
    messages := poller.messages ++ [message] }

end KafkaPoller
end InferSched.Durable

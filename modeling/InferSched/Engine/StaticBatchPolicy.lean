import Mathlib.Data.List.Sort
import InferSched.Basic

/-! # The static batch policy

`StaticBatchPolicy` (`static_batch_policy.cpp`): first come, first served within
the limits of a batch. The source sorts the indices of the pending requests; here
every request carries its index.
-/

namespace InferSched.Engine

structure PendingRequest where
  requestId : Text
  promptTokens : ℕ := 0
  maxOutputTokens : ℕ := 0
  priority : ℕ := 0
  arrivalTime : ℤ := 0
deriving DecidableEq, Repr

structure StaticBatchPolicy where
  maxBatchSequences : ℕ
  maxBatchTokens : ℕ
deriving DecidableEq, Repr

namespace StaticBatchPolicy

/-- The constructor, with the message of the exception it throws. -/
def new (maxBatchSequences maxBatchTokens : ℕ) : Except Text StaticBatchPolicy :=
  if maxBatchSequences = 0 ∨ maxBatchTokens = 0 then
    .error "static batch limits must be positive".toList
  else .ok { maxBatchSequences, maxBatchTokens }

/-- The comparison of the sort. -/
def comesBefore (now : ℤ) (lhs rhs : PendingRequest) : Bool :=
  let lhsArrival := min lhs.arrivalTime now
  let rhsArrival := min rhs.arrivalTime now
  if lhsArrival ≠ rhsArrival then lhsArrival < rhsArrival
  else lhs.requestId < rhs.requestId

/-- The pending requests with their indices in the order they are considered; the
sort is stable. -/
def ordered (pending : List PendingRequest) (now : ℤ) : List (PendingRequest × ℕ) :=
  pending.zipIdx.insertionSort fun lhs rhs => ¬ comesBefore now rhs.1 lhs.1

/-- The loop over the ordered requests. -/
def selectFrom (policy : StaticBatchPolicy) (now : ℤ) :
    List (PendingRequest × ℕ) → List ℕ → ℕ → List ℕ
  | [], selected, _ => selected
  | (request, index) :: later, selected, tokenCount =>
      if request.arrivalTime > now then policy.selectFrom now later selected tokenCount
      else if request.maxOutputTokens > policy.maxBatchTokens ∨
          request.promptTokens > policy.maxBatchTokens - request.maxOutputTokens then
        policy.selectFrom now later selected tokenCount
      else if selected.length = policy.maxBatchSequences then selected
      else if request.promptTokens + request.maxOutputTokens >
          policy.maxBatchTokens - tokenCount then
        policy.selectFrom now later selected tokenCount
      else
        policy.selectFrom now later (selected ++ [index])
          (tokenCount + (request.promptTokens + request.maxOutputTokens))

def select (policy : StaticBatchPolicy) (pending : List PendingRequest) (now : ℤ) : List ℕ :=
  policy.selectFrom now (ordered pending now) [] 0

/-! ### The selected indices -/

/-- The indices of the requests that have arrived. -/
def arrivedIndices (now : ℤ) (requests : List (PendingRequest × ℕ)) : List ℕ :=
  (requests.filter fun entry => entry.1.arrivalTime ≤ now).map Prod.snd

theorem selectFrom_sublist (policy : StaticBatchPolicy) (now : ℤ)
    (requests : List (PendingRequest × ℕ)) (selected : List ℕ) (tokenCount : ℕ) :
    ∃ chosen, policy.selectFrom now requests selected tokenCount = selected ++ chosen ∧
      chosen.Sublist (arrivedIndices now requests) := by
  induction requests generalizing selected tokenCount with
  | nil => exact ⟨[], (List.append_nil _).symm, List.Sublist.slnil⟩
  | cons entry later ih =>
      obtain ⟨request, index⟩ := entry
      unfold selectFrom
      by_cases late : request.arrivalTime > now
      · rw [if_pos late, arrivedIndices, List.filter_cons_of_neg (by simpa using late)]
        exact ih selected tokenCount
      · rw [if_neg late, arrivedIndices, List.filter_cons_of_pos (by simpa using late),
          List.map_cons]
        have skipped : ∃ chosen, policy.selectFrom now later selected tokenCount =
            selected ++ chosen ∧ chosen.Sublist (index :: arrivedIndices now later) := by
          obtain ⟨chosen, equal, sublist⟩ := ih selected tokenCount
          exact ⟨chosen, equal, sublist.cons index⟩
        split
        · exact skipped
        · split
          · exact ⟨[], (List.append_nil _).symm, List.nil_sublist _⟩
          · split
            · exact skipped
            · obtain ⟨chosen, equal, sublist⟩ := ih (selected ++ [index])
                (tokenCount + (request.promptTokens + request.maxOutputTokens))
              exact ⟨index :: chosen, by rw [equal, List.append_assoc]; rfl,
                sublist.cons_cons index⟩

/-- The ordered requests are the pending ones with their indices. -/
theorem ordered_perm (pending : List PendingRequest) (now : ℤ) :
    (ordered pending now).Perm pending.zipIdx :=
  List.perm_insertionSort _ _

/-- The selection names requests that have arrived, none of them twice. -/
theorem select_indices (policy : StaticBatchPolicy) (pending : List PendingRequest) (now : ℤ) :
    (policy.select pending now).Nodup ∧
      ∀ index ∈ policy.select pending now,
        ∃ request, pending[index]? = some request ∧ request.arrivalTime ≤ now := by
  obtain ⟨chosen, equal, sublist⟩ := policy.selectFrom_sublist now (ordered pending now) [] 0
  unfold select
  rw [equal, List.nil_append]
  constructor
  · have indices := (ordered_perm pending now).map Prod.snd
    rw [List.zipIdx_map_snd] at indices
    refine (indices.nodup_iff.mpr (List.nodup_range' ..)).sublist (sublist.trans ?_)
    exact List.filter_sublist.map Prod.snd
  · intro index member
    obtain ⟨entry, present, rfl⟩ := List.mem_map.mp (sublist.subset member)
    obtain ⟨ordered, arrived⟩ := List.mem_filter.mp present
    have found := List.mem_zipIdx_iff_getElem?.mp ((ordered_perm pending now).mem_iff.mp ordered)
    exact ⟨entry.1, found, of_decide_eq_true arrived⟩

end StaticBatchPolicy
end InferSched.Engine

import Mathlib.Algebra.BigOperators.Group.List.Basic
import Mathlib.Algebra.GroupWithZero.Nat
import Mathlib.Data.Prod.Lex
import InferSched.Engine.StaticBatchPolicy
import InferSched.Library.Checked

/-! # What the static batch policy selects

The selected requests are in the order of arrival, with the request id between those that
arrived together, and within both limits of the batch. The selection is maximal: what was
left out does not fit in the tokens that remain, unless the batch has all its sequences.
None of the token sums leaves the range of the machine's words.
-/

namespace InferSched.Engine.StaticBatchPolicy

open Library

/-! ### The order of the requests -/

/-- What the sort compares. -/
def arrivalKey (now : ℤ) (request : PendingRequest) : ℤ ×ₗ Text :=
  toLex (min request.arrivalTime now, request.requestId)

theorem comesBefore_iff (now : ℤ) (lhs rhs : PendingRequest) :
    comesBefore now lhs rhs = true ↔ arrivalKey now lhs < arrivalKey now rhs := by
  rw [arrivalKey, arrivalKey, Prod.Lex.toLex_lt_toLex, comesBefore]
  dsimp only
  split
  · next different =>
      rw [decide_eq_true_iff]
      constructor
      · exact Or.inl
      · rintro (earlier | ⟨same, _⟩)
        · exact earlier
        · exact absurd same different
  · next same =>
      have equal := not_not.mp same
      rw [decide_eq_true_iff]
      constructor
      · exact fun before => Or.inr ⟨equal, before⟩
      · rintro (earlier | ⟨_, before⟩)
        · exact absurd equal (ne_of_lt earlier)
        · exact before

theorem ordered_pairwise (pending : List PendingRequest) (now : ℤ) :
    (ordered pending now).Pairwise fun lhs rhs =>
      arrivalKey now lhs.1 ≤ arrivalKey now rhs.1 := by
  have compared : ∀ lhs rhs : PendingRequest × ℕ,
      (¬ comesBefore now rhs.1 lhs.1 = true) ↔ arrivalKey now lhs.1 ≤ arrivalKey now rhs.1 :=
    fun lhs rhs => by rw [comesBefore_iff, not_lt]
  have total : Std.Total fun lhs rhs : PendingRequest × ℕ => ¬ comesBefore now rhs.1 lhs.1 = true :=
    ⟨fun lhs rhs => by
      rw [compared, compared]
      exact le_total _ _⟩
  have transitive :
      IsTrans _ fun lhs rhs : PendingRequest × ℕ => ¬ comesBefore now rhs.1 lhs.1 = true :=
    ⟨fun first second third => by
      rw [compared, compared, compared]
      exact le_trans⟩
  exact (List.pairwise_insertionSort _ _).imp fun {lhs rhs} => (compared lhs rhs).mp

/-! ### What the loop chooses -/

/-- The tokens that a request takes in a batch. -/
def tokens (request : PendingRequest) : ℕ :=
  request.promptTokens + request.maxOutputTokens

/-- The tokens of the requests at the given indices. -/
def tokensAt (pending : List PendingRequest) (indices : List ℕ) : ℕ :=
  (indices.map fun index => ((pending[index]?).map tokens).getD 0).sum

def totalTokens (entries : List (PendingRequest × ℕ)) : ℕ :=
  (entries.map fun entry => tokens entry.1).sum

/-- The entries that the loop adds to what is selected so far: they have arrived, they are
within the limits, and a request that was passed over does not fit beside them. -/
structure Chosen (policy : StaticBatchPolicy) (now : ℤ) (requests : List (PendingRequest × ℕ))
    (count tokenCount : ℕ) (chosen : List (PendingRequest × ℕ)) : Prop where
  inOrder : chosen.Sublist requests
  arrived : ∀ entry ∈ chosen, entry.1.arrivalTime ≤ now
  sequences : count + chosen.length ≤ policy.maxBatchSequences
  within : tokenCount + totalTokens chosen ≤ policy.maxBatchTokens
  maximal : count + chosen.length < policy.maxBatchSequences →
    ∀ entry ∈ requests, entry.1.arrivalTime ≤ now → entry ∉ chosen →
      policy.maxBatchTokens < tokenCount + totalTokens chosen + tokens entry.1

variable {policy : StaticBatchPolicy} {now : ℤ} {requests chosen : List (PendingRequest × ℕ)}
  {count tokenCount : ℕ}

/-- A request is passed over for good reason. -/
theorem Chosen.pass (rest : Chosen policy now requests count tokenCount chosen)
    {entry : PendingRequest × ℕ}
    (reason : entry.1.arrivalTime ≤ now → policy.maxBatchTokens < tokenCount + tokens entry.1) :
    Chosen policy now (entry :: requests) count tokenCount chosen where
  inOrder := rest.inOrder.cons entry
  arrived := rest.arrived
  sequences := rest.sequences
  within := rest.within
  maximal := by
    intro spare other member arrived left
    rcases List.mem_cons.mp member with rfl | later
    · have := reason arrived
      omega
    · exact rest.maximal spare other later arrived left

theorem Chosen.take {entry : PendingRequest × ℕ}
    (rest : Chosen policy now requests (count + 1) (tokenCount + tokens entry.1) chosen)
    (arrived : entry.1.arrivalTime ≤ now) :
    Chosen policy now (entry :: requests) count tokenCount (entry :: chosen) where
  inOrder := rest.inOrder.cons_cons entry
  arrived := List.forall_mem_cons.mpr ⟨arrived, rest.arrived⟩
  sequences := by
    have := rest.sequences
    rw [List.length_cons]
    omega
  within := by
    have := rest.within
    rw [totalTokens, List.map_cons, List.sum_cons, ← totalTokens]
    omega
  maximal := by
    intro spare other member arrived left
    rw [List.length_cons] at spare
    rw [List.mem_cons, not_or] at left
    have unfit := rest.maximal (by omega) other ((List.mem_cons.mp member).resolve_left left.1)
      arrived left.2
    rw [totalTokens, List.map_cons, List.sum_cons, ← totalTokens]
    omega

/-- The loop adds the indices of such entries. -/
theorem selectFrom_chosen (policy : StaticBatchPolicy) (now : ℤ)
    (requests : List (PendingRequest × ℕ)) (selected : List ℕ) (tokenCount : ℕ)
    (room : selected.length ≤ policy.maxBatchSequences)
    (within : tokenCount ≤ policy.maxBatchTokens) :
    ∃ chosen, policy.selectFrom now requests selected tokenCount =
        selected ++ chosen.map Prod.snd ∧
      Chosen policy now requests selected.length tokenCount chosen := by
  induction requests generalizing selected tokenCount with
  | nil =>
      refine ⟨[], (List.append_nil _).symm, List.Sublist.slnil, List.forall_mem_nil _, room,
        within, fun _ => List.forall_mem_nil _⟩
  | cons entry later ih =>
      obtain ⟨request, index⟩ := entry
      obtain ⟨passed, passedIs, rest⟩ := ih selected tokenCount room within
      unfold selectFrom
      split
      · next late =>
          exact ⟨passed, passedIs, rest.pass fun arrived => absurd arrived (not_le.mpr late)⟩
      · next arrived =>
          split
          · next large =>
              refine ⟨passed, passedIs, rest.pass fun _ => ?_⟩
              dsimp only [tokens]
              omega
          · split
            · next full =>
                exact ⟨[], (List.append_nil _).symm, List.nil_sublist _, List.forall_mem_nil _,
                  room, within, fun spare => absurd full (ne_of_lt spare)⟩
            · next spare =>
                split
                · next large =>
                    refine ⟨passed, passedIs, rest.pass fun _ => ?_⟩
                    dsimp only [tokens]
                    omega
                · next fits =>
                    obtain ⟨chosen, chosenIs, taken⟩ := ih (selected ++ [index])
                      (tokenCount + (request.promptTokens + request.maxOutputTokens))
                      (by rw [List.length_append, List.length_singleton]; omega) (by omega)
                    rw [List.length_append, List.length_singleton] at taken
                    exact ⟨(request, index) :: chosen,
                      by rw [chosenIs, List.append_assoc, List.map_cons, List.singleton_append],
                      taken.take (not_lt.mp arrived)⟩

/-- Entries that are taken from the pending requests carry their indices. -/
theorem tokensAt_map {pending : List PendingRequest} {chosen : List (PendingRequest × ℕ)}
    (found : ∀ entry ∈ chosen, pending[entry.2]? = some entry.1) :
    tokensAt pending (chosen.map Prod.snd) = totalTokens chosen := by
  rw [tokensAt, totalTokens, List.map_map]
  refine congrArg List.sum (List.map_congr_left fun entry member => ?_)
  rw [Function.comp_apply, found entry member]
  rfl

/-! ### The loop on machine words -/

/-- The loop over the ordered requests, its sums and differences checked. -/
def selectFromChecked (policy : StaticBatchPolicy) (now : ℤ) :
    List (PendingRequest × ℕ) → List ℕ → ℕ → Checked (List ℕ)
  | [], selected, _ => pure selected
  | (request, index) :: later, selected, tokenCount =>
      if request.arrivalTime > now then policy.selectFromChecked now later selected tokenCount
      else if request.maxOutputTokens > policy.maxBatchTokens then
        policy.selectFromChecked now later selected tokenCount
      else do
        let room ← Checked.sub policy.maxBatchTokens request.maxOutputTokens
        if request.promptTokens > room then
          policy.selectFromChecked now later selected tokenCount
        else
          let requestTokens ← Checked.add sizeBits request.promptTokens request.maxOutputTokens
          if selected.length = policy.maxBatchSequences then pure selected
          else
            let left ← Checked.sub policy.maxBatchTokens tokenCount
            if requestTokens > left then
              policy.selectFromChecked now later selected tokenCount
            else
              let tokenCount ← Checked.add sizeBits tokenCount requestTokens
              policy.selectFromChecked now later (selected ++ [index]) tokenCount

def selectChecked (policy : StaticBatchPolicy) (pending : List PendingRequest) (now : ℤ) :
    Checked (List ℕ) :=
  policy.selectFromChecked now (ordered pending now) [] 0

/-- No sum or difference of the loop leaves the range. -/
theorem selectFromChecked_gives (wide : policy.maxBatchTokens < 2 ^ sizeBits)
    (requests : List (PendingRequest × ℕ)) (selected : List ℕ) (tokenCount : ℕ)
    (within : tokenCount ≤ policy.maxBatchTokens) :
    Checked.Gives (policy.selectFromChecked now requests selected tokenCount)
      (.ok (policy.selectFrom now requests selected tokenCount)) := by
  induction requests generalizing selected tokenCount with
  | nil => exact .pure selected
  | cons entry later ih =>
      obtain ⟨request, index⟩ := entry
      unfold selectFromChecked selectFrom
      by_cases late : request.arrivalTime > now
      · rw [if_pos late, if_pos late]
        exact ih selected tokenCount within
      · rw [if_neg late, if_neg late]
        by_cases output : request.maxOutputTokens > policy.maxBatchTokens
        · rw [if_pos output, if_pos (Or.inl output)]
          exact ih selected tokenCount within
        · rw [if_neg output]
          refine .bind (.sub (not_lt.mp output)) ?_
          by_cases prompt : request.promptTokens > policy.maxBatchTokens - request.maxOutputTokens
          · rw [if_pos prompt, if_pos (Or.inr prompt)]
            exact ih selected tokenCount within
          · rw [if_neg prompt, if_neg (not_or.mpr ⟨output, prompt⟩)]
            refine .bind (.add (by omega)) ?_
            split
            · exact .pure selected
            · refine .bind (.sub within) ?_
              split
              · exact ih selected tokenCount within
              · exact .bind (.add (by omega)) (ih _ _ (by omega))

/-! ### The selection -/

/-- The first arrived first, and of those that arrived together the smaller id first. -/
def ArrivalOrder (first second : PendingRequest) : Prop :=
  first.arrivalTime < second.arrivalTime ∨
    first.arrivalTime = second.arrivalTime ∧ first.requestId ≤ second.requestId

/-- Among requests that have arrived the clipped arrivals are the arrivals. -/
theorem arrivalOrder_of_key {first second : PendingRequest}
    (firstArrived : first.arrivalTime ≤ now) (secondArrived : second.arrivalTime ≤ now)
    (before : arrivalKey now first ≤ arrivalKey now second) : ArrivalOrder first second := by
  rw [arrivalKey, arrivalKey, Prod.Lex.toLex_le_toLex, min_eq_left firstArrived,
    min_eq_left secondArrived] at before
  exact before

theorem selected_pairwise {pending : List PendingRequest}
    (facts : Chosen policy now (ordered pending now) count tokenCount chosen)
    (found : ∀ entry ∈ chosen, pending[entry.2]? = some entry.1) :
    (chosen.map Prod.snd).Pairwise fun earlier later => ∀ first second,
      pending[earlier]? = some first → pending[later]? = some second →
        ArrivalOrder first second := by
  have sorted := (ordered_pairwise pending now).sublist facts.inOrder
  refine List.pairwise_map.mpr (sorted.imp_of_mem ?_)
  intro earlier later firstMember secondMember before first second firstIs secondIs
  rw [found earlier firstMember, Option.some.injEq] at firstIs
  rw [found later secondMember, Option.some.injEq] at secondIs
  rw [← firstIs, ← secondIs]
  exact arrivalOrder_of_key (facts.arrived _ firstMember) (facts.arrived _ secondMember) before

/-- **First come, first served, as many as fit.** The selection names requests that have
arrived, none of them twice, in the order of arrival and id. They are within both limits of
the batch, and unless the batch has all its sequences no other request that has arrived
fits in the tokens that remain. No operation of the loop leaves the range of its type. -/
theorem select_maximal {maxBatchSequences maxBatchTokens : ℕ} {policy : StaticBatchPolicy}
    (accepted : new maxBatchSequences maxBatchTokens = .ok policy)
    (wide : maxBatchTokens < 2 ^ sizeBits) (pending : List PendingRequest) (now : ℤ) :
    let selected := policy.select pending now
    selected.Nodup ∧
    (∀ index ∈ selected, ∃ request, pending[index]? = some request ∧ request.arrivalTime ≤ now) ∧
    (selected.Pairwise fun earlier later => ∀ first second,
      pending[earlier]? = some first → pending[later]? = some second →
        ArrivalOrder first second) ∧
    selected.length ≤ maxBatchSequences ∧
    tokensAt pending selected ≤ maxBatchTokens ∧
    (selected.length < maxBatchSequences → ∀ index request, pending[index]? = some request →
      request.arrivalTime ≤ now → index ∉ selected →
        maxBatchTokens < tokensAt pending selected + tokens request) ∧
    Checked.Gives (policy.selectChecked pending now) (.ok selected) := by
  intro selected
  obtain ⟨rfl, rfl⟩ : maxBatchSequences = policy.maxBatchSequences ∧
      maxBatchTokens = policy.maxBatchTokens := by
    unfold new at accepted
    split at accepted
    · cases accepted
    · cases accepted
      exact ⟨rfl, rfl⟩
  obtain ⟨distinct, valid⟩ := policy.select_indices pending now
  obtain ⟨chosen, selectedIs, facts⟩ :=
    policy.selectFrom_chosen now (ordered pending now) [] 0 (Nat.zero_le _) (Nat.zero_le _)
  have equal : selected = chosen.map Prod.snd := selectedIs
  have listed : ∀ index request, pending[index]? = some request ↔
      (request, index) ∈ ordered pending now := fun index request => by
    rw [(ordered_perm pending now).mem_iff, List.mem_zipIdx_iff_getElem?]
  have found : ∀ entry ∈ chosen, pending[entry.2]? = some entry.1 := fun entry member =>
    (listed _ _).mpr (facts.inOrder.subset member)
  have total : tokensAt pending selected = totalTokens chosen := equal ▸ tokensAt_map found
  have sequences := facts.sequences
  have within := facts.within
  have maximal := facts.maximal
  rw [List.length_nil, Nat.zero_add] at sequences maximal
  rw [Nat.zero_add] at within
  refine ⟨distinct, valid, equal ▸ selected_pairwise facts found, ?_, total ▸ within, ?_, ?_⟩
  · rw [equal, List.length_map]
    exact sequences
  · intro spare index request present arrived left
    rw [equal, List.length_map] at spare
    rw [total]
    have unfit := maximal spare (request, index) ((listed index request).mp present) arrived
      fun member => left (equal ▸ List.mem_map_of_mem member)
    rwa [Nat.zero_add] at unfit
  · exact selectFromChecked_gives wide (ordered pending now) [] 0 (Nat.zero_le _)

/-- A request that takes all the tokens of a batch, and one that comes with it. -/
theorem select_maximal_full :
    let policy : StaticBatchPolicy := ⟨2, sizeMax⟩
    let pending := [⟨['b'], 1, 0, 0, 0⟩, ⟨['a'], sizeMax - 1, 1, 0, 0⟩]
    policy.select pending 0 = [1] ∧ tokensAt pending (policy.select pending 0) ≤ sizeMax := by
  intro policy pending
  have accepted : new 2 sizeMax = .ok policy := rfl
  obtain ⟨-, -, -, -, within, -⟩ := select_maximal accepted (by decide) pending 0
  exact ⟨by decide, within⟩

end InferSched.Engine.StaticBatchPolicy

import InferSched.Gateway.FailedSubmissions
import InferSched.Library.Census
import InferSched.Library.Holdings
import InferSched.Library.Transition

/-! # Requests at the gateway

The calls of `submit` run in many threads. Each holds the lock for its reservation and,
when the producer is full, once more to give the slot back, so the other calls, the
thread that reads results and the calls of `metrics` come between. Every request of the
gateway has one fate (`Fate`), read off the order of these sections. The map of pending
requests, the replies of `metrics` and the view of `GET /v1/inference` are what the fates
say (`gateway_accounts`, `gateway_view`).

The identifiers of `uuid.uuid4()` are taken to be new: no call of this gateway has had one
before, and no result with it has been read. A result can be read for any request, of
this gateway or another.
-/

namespace InferSched.Gateway

open Library

variable {τ ρ δ : Type}

/-! ### Sections -/

/-- How far a call of `submit` has come after its reservation. -/
inductive Call
  | building (body : SubmitRequest) (identity : Identity)
  | overflowing
  | ended (reply : Reply)

/-- The gateway with its calls, and the start and the end of each latency. -/
structure Frontend (τ ρ : Type) where
  state : GatewayState τ ρ
  calls : PyString → Option Call := fun _ => none
  latencies : List (τ × τ) := []

/-- The reply of `metrics`, with the number of samples for the percentiles in their place. -/
structure Metrics where
  submitted : ℕ
  completed : ℕ
  rejected : ℕ
  queueDepth : ℕ
  samples : ℕ
deriving DecidableEq, Repr

def Frontend.metrics (gateway : Frontend τ ρ) : Metrics where
  submitted := gateway.state.submitted
  completed := gateway.state.completed
  rejected := gateway.state.rejected
  queueDepth := gateway.state.pending.entries.length
  samples := gateway.latencies.length

/-- What happened in a section. -/
inductive Section (ρ : Type)
  | refused
  | reserved (requestId : PyString)
  | produced (requestId : PyString)
  | raised (requestId : PyString)
  | overflowed (requestId : PyString)
  | withdrawn (requestId : PyString)
  | consumed (requestId : PyString) (result : ρ)
  | reported (metrics : Metrics)

/-- `_consume` keeps the latency of a request that was pending. -/
def GatewayState.latency (state : GatewayState τ ρ) (requestId : PyString) (now : τ) :
    List (τ × τ) :=
  (state.pending.lookup requestId).elim [] fun started => [(started, now)]

/-- The sections of the calls of `submit` and `metrics` and of the thread that reads
results. -/
inductive Frontend.Step (build : InferenceRequest → Option Bytes) (gateway : Frontend τ ρ) :
    Section ρ → Frontend τ ρ → Prop
  | refused (isFull : gateway.state.full) :
      Step build gateway .refused { gateway with
        state := { gateway.state with rejected := gateway.state.rejected + 1 } }
  | reserved (body : SubmitRequest) (identity : Identity) (now : τ)
      (room : ¬ gateway.state.full) (unused : gateway.calls identity.requestId = none)
      (unread : identity.requestId ∉ gateway.state.results) :
      Step build gateway (.reserved identity.requestId) { gateway with
        state := gateway.state.reserve identity.requestId now
        calls := Function.update gateway.calls identity.requestId
          (some (.building body identity)) }
  | produced {requestId : PyString} {body : SubmitRequest} {identity : Identity} {bytes : Bytes}
      (building : gateway.calls requestId = some (.building body identity))
      (builds : build (message body identity) = some bytes) :
      Step build gateway (.produced requestId) { gateway with
        calls := Function.update gateway.calls requestId
          (some (.ended (.returned identity.requestId identity.traceId))) }
  -- the message does not build, or the producer raises something else than `BufferError`
  | raised {requestId : PyString} {body : SubmitRequest} {identity : Identity}
      (building : gateway.calls requestId = some (.building body identity)) :
      Step build gateway (.raised requestId) { gateway with
        calls := Function.update gateway.calls requestId (some (.ended .raised)) }
  | overflowed {requestId : PyString} {body : SubmitRequest} {identity : Identity} {bytes : Bytes}
      (building : gateway.calls requestId = some (.building body identity))
      (builds : build (message body identity) = some bytes) :
      Step build gateway (.overflowed requestId) { gateway with
        calls := Function.update gateway.calls requestId (some .overflowing) }
  | withdrawn {requestId : PyString} (overflowing : gateway.calls requestId = some .overflowing) :
      Step build gateway (.withdrawn requestId) { gateway with
        state := gateway.state.withdraw requestId
        calls := Function.update gateway.calls requestId
          (some (.ended (.httpException 429 "Kafka producer queue full"))) }
  | consumed (requestId : PyString) (result : ρ) (now : τ) :
      Step build gateway (.consumed requestId result) { gateway with
        state := gateway.state.consume requestId result
        latencies := gateway.latencies ++ gateway.state.latency requestId now }
  | reported : Step build gateway (.reported gateway.metrics) gateway

/-! ### Fates -/

/-- Where a request stands. -/
inductive Fate
  | unknown
  | pending
  | completed
  | withdrawn
deriving DecidableEq, Repr

instance : Fintype Fate where
  elems := {.unknown, .pending, .completed, .withdrawn}
  complete fate := by cases fate <;> decide

/-- A pending request is settled by the first result or withdrawal. -/
def settle (fates : PyString → Fate) (requestId : PyString) (fate : Fate) : PyString → Fate :=
  if fates requestId = .pending then Function.update fates requestId fate else fates

def Section.settles (fates : PyString → Fate) : Section ρ → PyString → Fate
  | .reserved requestId => Function.update fates requestId .pending
  | .withdrawn requestId => settle fates requestId .withdrawn
  | .consumed requestId _ => settle fates requestId .completed
  | _ => fates

/-- The fates of all requests after some sections. -/
def fates (past : List (Section ρ)) : PyString → Fate :=
  past.foldl Section.settles fun _ => .unknown

def Section.reads (results : PyString → Option ρ) : Section ρ → PyString → Option ρ
  | .consumed requestId result => Function.update results requestId (some result)
  | _ => results

/-- The last result that was read of each request. -/
def lastResults (past : List (Section ρ)) : PyString → Option ρ :=
  past.foldl Section.reads fun _ => none

def Section.reserves : Section ρ → Option PyString
  | .reserved requestId => some requestId
  | _ => none

/-- The requests that got a slot, in order. -/
def reservations (past : List (Section ρ)) : List PyString :=
  past.filterMap Section.reserves

/-- The call is answered with the status 429. -/
def Section.rejects : Section ρ → Bool
  | .refused | .withdrawn _ => true
  | _ => false

theorem fates_concat (past : List (Section ρ)) (event : Section ρ) :
    fates (past ++ [event]) = event.settles (fates past) := by
  simp [fates]

theorem reservations_concat (past : List (Section ρ)) (event : Section ρ) :
    reservations (past ++ [event]) = reservations past ++ event.reserves.toList := by
  cases event <;> simp [reservations, Section.reserves]

theorem lastResults_concat (past : List (Section ρ)) (event : Section ρ) :
    lastResults (past ++ [event]) = event.reads (lastResults past) := by
  simp [lastResults]

theorem settle_of_ne {status : PyString → Fate} {requestId other : PyString} {fate : Fate}
    (differs : other ≠ requestId) : settle status requestId fate other = status other := by
  unfold settle
  split
  · exact Function.update_of_ne differs _ _
  · rfl

theorem settle_of_settled {status : PyString → Fate} {requestId : PyString} {fate : Fate}
    (settled : status requestId ≠ .pending) : settle status requestId fate = status :=
  if_neg settled

theorem settle_eq_pending {status : PyString → Fate} {requestId other : PyString} {fate : Fate}
    (leaves : fate ≠ .pending) : settle status requestId fate other = .pending ↔
      other ≠ requestId ∧ status other = .pending := by
  by_cases same : other = requestId
  · subst same
    refine iff_of_false ?_ fun both => both.1 rfl
    unfold settle
    split
    · rwa [Function.update_self]
    · assumption
  · rw [settle_of_ne same]
    exact ⟨fun isPending => ⟨same, isPending⟩, And.right⟩

theorem settle_ne_unknown {status : PyString → Fate} {requestId other : PyString} {fate : Fate}
    (isFate : fate ≠ .unknown) :
    settle status requestId fate other ≠ .unknown ↔ status other ≠ .unknown := by
  by_cases same : other = requestId
  · subst same
    by_cases isPending : status other = .pending
    · rw [settle, if_pos isPending, Function.update_self, isPending]
      exact iff_of_true isFate (by decide)
    · rw [settle_of_settled isPending]
  · rw [settle_of_ne same]

/-- A request that is settled leaves the pending ones for its fate. -/
theorem count_settle {keys : List PyString} {status : PyString → Fate} {requestId : PyString}
    {fate wanted : Fate} (distinct : keys.Nodup)
    (listed : status requestId = .pending → requestId ∈ keys) (other : wanted ≠ .pending) :
    Census.count keys (settle status requestId fate) wanted =
      Census.count keys status wanted +
        if status requestId = .pending ∧ fate = wanted then 1 else 0 := by
  by_cases isPending : status requestId = .pending
  · have moved := Census.count_move status distinct (listed isPending) fate wanted
    rw [if_neg (by rw [isPending]; exact other.symm), Nat.add_zero] at moved
    rw [settle, if_pos isPending, moved]
    simp [isPending]
  · rw [settle_of_settled isPending]
    simp [isPending]

/-! ### What the sections keep -/

/-- The state of the gateway is what the fates of its requests say. -/
structure Accounts (past : List (Section ρ)) (gateway : Frontend τ ρ) : Prop where
  distinct : (reservations past).Nodup
  known : ∀ requestId, requestId ∈ reservations past ↔ gateway.calls requestId ≠ none
  fated : ∀ requestId, fates past requestId ≠ .unknown ↔ requestId ∈ reservations past
  pending : ∀ requestId, requestId ∈ gateway.state.pending ↔ fates past requestId = .pending
  results : ∀ requestId, gateway.state.results.lookup requestId = lastResults past requestId
  read : ∀ requestId, fates past requestId = .completed → lastResults past requestId ≠ none
  unread : ∀ requestId, fates past requestId = .pending → lastResults past requestId = none
  submitted : gateway.state.submitted = (reservations past).length
  completed : gateway.state.completed =
    Census.count (reservations past) (fates past) .completed
  rejected : gateway.state.rejected = past.countP Section.rejects
  measured : gateway.latencies.length = gateway.state.completed
  bounded : (gateway.state.pending.entries.length : ℤ) ≤ max gateway.state.capacity 0

/-- No two requests have one slot. -/
theorem Accounts.length_pending {past : List (Section ρ)} {gateway : Frontend τ ρ}
    (accounts : Accounts past gateway) : gateway.state.pending.entries.length =
      Census.count (reservations past) (fates past) .pending := by
  have keys : ∀ requestId, requestId ∈ (reservations past).filter
      (fun requestId => fates past requestId = .pending) ↔
        requestId ∈ gateway.state.pending := by
    intro requestId
    rw [List.mem_filter, decide_eq_true_iff, accounts.pending, ← accounts.fated]
    constructor
    · exact And.right
    · exact fun isPending => ⟨by rw [isPending]; decide, isPending⟩
  have same := AList.length_entries (accounts.distinct.filter _) keys
  rw [same, Census.count, List.countP_eq_length_filter]

namespace Accounts

variable {build : InferenceRequest → Option Bytes} {past : List (Section ρ)}
  {gateway next : Frontend τ ρ} {event : Section ρ}

/-- A new gateway has no requests. -/
theorem new (capacity : ℤ) :
    Accounts ([] : List (Section ρ)) ({ state := { capacity := capacity } } : Frontend τ ρ) where
  distinct := List.nodup_nil
  known _ := iff_of_false List.not_mem_nil fun called => called rfl
  fated _ := iff_of_false (fun known => known rfl) List.not_mem_nil
  pending requestId := iff_of_false (AList.notMem_empty requestId)
    fun isPending => by cases isPending
  results _ := rfl
  read _ isCompleted := by cases isCompleted
  unread _ _ := rfl
  submitted := rfl
  completed := rfl
  rejected := rfl
  measured := rfl
  bounded := le_max_right _ _

theorem mem_reservations_of_pending (accounts : Accounts past gateway) {requestId : PyString}
    (isPending : fates past requestId = .pending) : requestId ∈ reservations past :=
  (accounts.fated requestId).mp (by rw [isPending]; decide)

/-- A section that touches no slot and no result: it may count a rejection and move a call
that has a slot already. -/
theorem kept (accounts : Accounts past gateway) (unreserved : event.reserves = none)
    (unsettled : event.settles (fates past) = fates past)
    (unreads : event.reads (lastResults past) = lastResults past)
    (calls : ∀ requestId, next.calls requestId ≠ none ↔ gateway.calls requestId ≠ none)
    (state : next.state = { gateway.state with
      rejected := gateway.state.rejected + if event.rejects then 1 else 0 })
    (latencies : next.latencies = gateway.latencies) : Accounts (past ++ [event]) next := by
  have reserved : reservations (past ++ [event]) = reservations past := by
    simp [reservations_concat, unreserved]
  have fated : fates (past ++ [event]) = fates past := by rw [fates_concat, unsettled]
  have read : lastResults (past ++ [event]) = lastResults past := by
    rw [lastResults_concat, unreads]
  constructor
  case known =>
    intro requestId
    rw [reserved, accounts.known, calls]
  case rejected =>
    rw [state, List.countP_append, List.countP_singleton, accounts.rejected]
  all_goals simp only [reserved, fated, read, state, latencies]
  · exact accounts.distinct
  · exact accounts.fated
  · exact accounts.pending
  · exact accounts.results
  · exact accounts.read
  · exact accounts.unread
  · exact accounts.submitted
  · exact accounts.completed
  · exact accounts.measured
  · exact accounts.bounded

/-- A call that goes on without the lock. -/
theorem called (accounts : Accounts past gateway) {requestId : PyString} {call : Call}
    (ongoing : gateway.calls requestId ≠ none) (unreserved : event.reserves = none)
    (unsettled : event.settles (fates past) = fates past)
    (unreads : event.reads (lastResults past) = lastResults past) (taken : event.rejects = false) :
    Accounts (past ++ [event])
      { gateway with calls := Function.update gateway.calls requestId (some call) } := by
  refine accounts.kept unreserved unsettled unreads (fun other => ?_) (by rw [taken]; rfl) rfl
  by_cases same : other = requestId
  · subst same
    simp [ongoing]
  · simp [same]

/-- A reservation takes a new slot. -/
theorem reserved (accounts : Accounts past gateway) {body : SubmitRequest} {identity : Identity}
    {now : τ} (room : ¬ gateway.state.full) (unused : gateway.calls identity.requestId = none)
    (unread : identity.requestId ∉ gateway.state.results) :
    Accounts (past ++ [.reserved identity.requestId]) { gateway with
      state := gateway.state.reserve identity.requestId now
      calls := Function.update gateway.calls identity.requestId
        (some (.building body identity)) } := by
  have fresh : identity.requestId ∉ reservations past := fun known =>
    (accounts.known _).mp known unused
  have isUnknown : fates past identity.requestId = .unknown := by
    by_contra known
    exact fresh ((accounts.fated _).mp known)
  have absent : identity.requestId ∉ gateway.state.pending := fun present => by
    cases isUnknown.symm.trans ((accounts.pending _).mp present)
  have noResult : lastResults past identity.requestId = none := by
    rw [← accounts.results]
    exact AList.lookup_eq_none.mpr unread
  have reserved : reservations (past ++ [@Section.reserved ρ identity.requestId]) =
      reservations past ++ [identity.requestId] := by
    simp [reservations_concat, Section.reserves]
  have fated : fates (past ++ [@Section.reserved ρ identity.requestId]) =
      Function.update (fates past) identity.requestId .pending := fates_concat past _
  have read : lastResults (past ++ [Section.reserved identity.requestId]) = lastResults past :=
    lastResults_concat past _
  constructor
  case distinct =>
    rw [reserved]
    exact List.nodup_append'.mpr ⟨accounts.distinct, List.nodup_singleton _,
      List.disjoint_singleton.mpr fresh⟩
  case known =>
    intro other
    rw [reserved, List.mem_append, List.mem_singleton, accounts.known]
    by_cases same : other = identity.requestId
    · subst same
      simp
    · simp [same]
  case fated =>
    intro other
    rw [reserved, fated, List.mem_append, List.mem_singleton, ← accounts.fated]
    by_cases same : other = identity.requestId
    · subst same
      simp
    · simp [same]
  case pending =>
    intro other
    rw [fated]
    change other ∈ gateway.state.pending.insert identity.requestId now ↔ _
    rw [AList.mem_insert, accounts.pending]
    by_cases same : other = identity.requestId
    · subst same
      simp
    · simp [same]
  case results =>
    rw [read]
    exact accounts.results
  case read =>
    intro other isCompleted
    rw [fated] at isCompleted
    rw [read]
    by_cases same : other = identity.requestId
    · subst same
      rw [Function.update_self] at isCompleted
      cases isCompleted
    · rw [Function.update_of_ne same] at isCompleted
      exact accounts.read other isCompleted
  case unread =>
    intro other isPending
    rw [fated] at isPending
    rw [read]
    by_cases same : other = identity.requestId
    · rw [same]
      exact noResult
    · rw [Function.update_of_ne same] at isPending
      exact accounts.unread other isPending
  case submitted =>
    rw [reserved, List.length_append]
    exact congrArg (· + 1) accounts.submitted
  case completed =>
    rw [reserved, fated, Census.count_enter _ fresh]
    exact accounts.completed
  case rejected =>
    rw [List.countP_append]
    exact accounts.rejected
  case measured => exact accounts.measured
  case bounded =>
    have below : (gateway.state.pending.entries.length : ℤ) < gateway.state.capacity :=
      not_le.mp room
    change ((gateway.state.pending.insert identity.requestId now).entries.length : ℤ) ≤
      max gateway.state.capacity 0
    rw [AList.entries_insert_of_notMem absent, List.length_cons]
    omega

/-- A withdrawal settles a request that is still pending. -/
theorem withdrawn (accounts : Accounts past gateway) {requestId : PyString} {call : Call}
    (ongoing : gateway.calls requestId ≠ none) :
    Accounts (past ++ [.withdrawn requestId]) { gateway with
      state := gateway.state.withdraw requestId
      calls := Function.update gateway.calls requestId (some call) } := by
  have reserved : reservations (past ++ [@Section.withdrawn ρ requestId]) =
      reservations past := by
    simp [reservations_concat, Section.reserves]
  have fated : fates (past ++ [@Section.withdrawn ρ requestId]) =
      settle (fates past) requestId .withdrawn := fates_concat past _
  have read : lastResults (past ++ [Section.withdrawn requestId]) = lastResults past :=
    lastResults_concat past _
  constructor
  case distinct => exact reserved ▸ accounts.distinct
  case known =>
    intro other
    rw [reserved, accounts.known]
    by_cases same : other = requestId
    · subst same
      simp [ongoing]
    · simp [same]
  case fated =>
    intro other
    rw [reserved, fated, settle_ne_unknown (by decide), accounts.fated]
  case pending =>
    intro other
    rw [fated, settle_eq_pending (by decide), ← accounts.pending]
    exact AList.mem_erase
  case results =>
    rw [read]
    exact accounts.results
  case read =>
    intro other isCompleted
    rw [fated] at isCompleted
    rw [read]
    refine accounts.read other ?_
    by_cases same : other = requestId
    · subst same
      by_cases isPending : fates past other = .pending
      · rw [settle, if_pos isPending, Function.update_self] at isCompleted
        cases isCompleted
      · rwa [settle_of_settled isPending] at isCompleted
    · rwa [settle_of_ne same] at isCompleted
  case unread =>
    intro other isPending
    rw [fated, settle_eq_pending (by decide)] at isPending
    rw [read]
    exact accounts.unread other isPending.2
  case submitted => exact reserved ▸ accounts.submitted
  case completed =>
    rw [reserved, fated, count_settle accounts.distinct
      accounts.mem_reservations_of_pending (by decide)]
    simp only [reduceCtorEq, and_false, if_false, Nat.add_zero]
    exact accounts.completed
  case rejected =>
    rw [List.countP_append]
    exact congrArg (· + 1) accounts.rejected
  case measured => exact accounts.measured
  case bounded =>
    have fewer : (gateway.state.pending.erase requestId).entries.length ≤
        gateway.state.pending.entries.length := (List.kerase_sublist _ _).length_le
    exact le_trans (Int.ofNat_le.mpr fewer) accounts.bounded

/-- A result settles a request that is pending, and is kept whatever it belongs to. -/
theorem consumed (accounts : Accounts past gateway) (requestId : PyString) (result : ρ)
    (now : τ) :
    Accounts (past ++ [.consumed requestId result]) { gateway with
      state := gateway.state.consume requestId result
      latencies := gateway.latencies ++ gateway.state.latency requestId now } := by
  have reserved : reservations (past ++ [.consumed requestId result]) = reservations past := by
    simp [reservations_concat, Section.reserves]
  have fated : fates (past ++ [.consumed requestId result]) =
      settle (fates past) requestId .completed := fates_concat past _
  have read : lastResults (past ++ [.consumed requestId result]) =
      Function.update (lastResults past) requestId (some result) := lastResults_concat past _
  have waiting : (gateway.state.pending.lookup requestId).isSome = true ↔
      fates past requestId = .pending :=
    AList.lookup_isSome.trans (accounts.pending requestId)
  constructor
  case distinct => exact reserved ▸ accounts.distinct
  case known => exact reserved ▸ accounts.known
  case fated =>
    intro other
    rw [reserved, fated, settle_ne_unknown (by decide), accounts.fated]
  case pending =>
    intro other
    rw [fated, settle_eq_pending (by decide), ← accounts.pending]
    exact AList.mem_erase
  case results =>
    intro other
    rw [read]
    change (gateway.state.results.insert requestId result).lookup other = _
    by_cases same : other = requestId
    · subst same
      rw [Function.update_self, AList.lookup_insert]
    · rw [Function.update_of_ne same, AList.lookup_insert_ne same, accounts.results]
  case read =>
    intro other isCompleted
    rw [fated] at isCompleted
    rw [read]
    by_cases same : other = requestId
    · subst same
      rw [Function.update_self]
      exact Option.some_ne_none _
    · rw [settle_of_ne same] at isCompleted
      rw [Function.update_of_ne same]
      exact accounts.read other isCompleted
  case unread =>
    intro other isPending
    rw [fated, settle_eq_pending (by decide)] at isPending
    rw [read, Function.update_of_ne isPending.1]
    exact accounts.unread other isPending.2
  case submitted => exact reserved ▸ accounts.submitted
  case completed =>
    rw [reserved, fated, count_settle accounts.distinct
      accounts.mem_reservations_of_pending (by decide), ← accounts.completed]
    simp only [and_true, GatewayState.consume]
    by_cases isPending : fates past requestId = .pending
    · rw [if_pos (waiting.mpr isPending), if_pos isPending]
    · rw [if_neg (mt waiting.mp isPending), if_neg isPending, Nat.add_zero]
  case rejected =>
    rw [List.countP_append]
    exact accounts.rejected
  case measured =>
    rw [List.length_append, accounts.measured]
    simp only [GatewayState.consume, GatewayState.latency]
    cases gateway.state.pending.lookup requestId <;> rfl
  case bounded =>
    have fewer : (gateway.state.pending.erase requestId).entries.length ≤
        gateway.state.pending.entries.length := (List.kerase_sublist _ _).length_le
    exact le_trans (Int.ofNat_le.mpr fewer) accounts.bounded

/-- **One section keeps the accounts.** -/
theorem step (accounts : Accounts past gateway) (step : Frontend.Step build gateway event next) :
    Accounts (past ++ [event]) next := by
  have ongoing {requestId : PyString} {call : Call}
      (here : gateway.calls requestId = some call) : gateway.calls requestId ≠ none := by
    rw [here]
    exact Option.some_ne_none _
  cases step with
  | refused => exact accounts.kept rfl rfl rfl (fun _ => Iff.rfl) rfl rfl
  | reserved body identity now room unused unread => exact accounts.reserved room unused unread
  | produced building => exact accounts.called (ongoing building) rfl rfl rfl rfl
  | raised building => exact accounts.called (ongoing building) rfl rfl rfl rfl
  | overflowed building => exact accounts.called (ongoing building) rfl rfl rfl rfl
  | withdrawn overflowing => exact accounts.withdrawn (ongoing overflowing)
  | consumed requestId result now => exact accounts.consumed requestId result now
  | reported => exact accounts.kept rfl rfl rfl (fun _ => Iff.rfl) rfl rfl

/-- Every request that got a slot is pending, completed or withdrawn. -/
theorem reservations_length (accounts : Accounts past gateway) :
    (reservations past).length =
      Census.count (reservations past) (fates past) .completed +
        Census.count (reservations past) (fates past) .pending +
        Census.count (reservations past) (fates past) .withdrawn := by
  have none : Census.count (reservations past) (fates past) .unknown = 0 := by
    refine List.countP_eq_zero.mpr fun requestId member isUnknown => ?_
    exact (accounts.fated requestId).mpr member (of_decide_eq_true isUnknown)
  have total := Census.sum_count (reservations past) (fates past)
  have all : (Finset.univ : Finset Fate) = {.unknown, .pending, .completed, .withdrawn} := rfl
  rw [all, Finset.sum_insert (by decide), Finset.sum_insert (by decide),
    Finset.sum_insert (by decide), Finset.sum_singleton, none] at total
  omega

end Accounts

theorem Frontend.Step.capacity_eq {build : InferenceRequest → Option Bytes}
    {gateway next : Frontend τ ρ} {event : Section ρ}
    (step : Frontend.Step build gateway event next) :
    next.state.capacity = gateway.state.capacity := by
  cases step <;> rfl

/-! ### Answers -/

/-- What a client may rely on: a call that has returned an identifier stays so, and a request
is only withdrawn by a call that fails. -/
structure Answered (past : List (Section ρ)) (gateway : Frontend τ ρ) : Prop where
  produced : ∀ requestId, .produced requestId ∈ past →
    ∃ returned traceId, gateway.calls requestId = some (.ended (.returned returned traceId))
  withdrawn : ∀ requestId, fates past requestId = .withdrawn →
    gateway.calls requestId =
      some (.ended (.httpException 429 "Kafka producer queue full"))

namespace Answered

variable {build : InferenceRequest → Option Bytes} {past : List (Section ρ)}
  {gateway next : Frontend τ ρ} {event : Section ρ}

/-- A call that has not ended goes on. -/
theorem called (answered : Answered past gateway) {requestId : PyString} {call : Call}
    {state : GatewayState τ ρ} (unended : ∀ reply, gateway.calls requestId ≠ some (.ended reply))
    (produced : ∀ other, event = .produced other →
      other = requestId ∧ ∃ returned traceId, call = .ended (.returned returned traceId))
    (withdrawn : ∀ other, event.settles (fates past) other = .withdrawn →
      fates past other = .withdrawn ∨
      other = requestId ∧ call = .ended (.httpException 429 "Kafka producer queue full")) :
    Answered (past ++ [event]) { gateway with
      state := state
      calls := Function.update gateway.calls requestId (some call) } where
  produced other member := by
    by_cases same : other = requestId
    · subst same
      rcases List.mem_append.mp member with earlier | last
      · obtain ⟨_, _, ended⟩ := answered.produced other earlier
        exact absurd ended (unended _)
      · obtain ⟨_, returned, traceId, isCall⟩ :=
          produced other (List.mem_singleton.mp last).symm
        exact ⟨returned, traceId, by simp [isCall]⟩
    · rcases List.mem_append.mp member with earlier | last
      · obtain ⟨returned, traceId, ended⟩ := answered.produced other earlier
        exact ⟨returned, traceId, by simpa [same] using ended⟩
      · exact absurd (produced other (List.mem_singleton.mp last).symm).1 same
  withdrawn other isWithdrawn := by
    rw [fates_concat] at isWithdrawn
    rcases withdrawn other isWithdrawn with before | ⟨rfl, isCall⟩
    · have ended := answered.withdrawn other before
      have differs : other ≠ requestId := fun same => unended _ (same ▸ ended)
      simpa [differs] using ended
    · simp [isCall]

/-- A section that is not of a call. -/
theorem kept (answered : Answered past gateway) (same : next.calls = gateway.calls)
    (unproduced : ∀ requestId, event ≠ .produced requestId)
    (withdrawn : ∀ requestId, event.settles (fates past) requestId = .withdrawn →
      fates past requestId = .withdrawn) : Answered (past ++ [event]) next where
  produced requestId member := by
    rw [same]
    rcases List.mem_append.mp member with earlier | last
    · exact answered.produced requestId earlier
    · exact absurd (List.mem_singleton.mp last).symm (unproduced requestId)
  withdrawn requestId isWithdrawn := by
    rw [fates_concat] at isWithdrawn
    rw [same]
    exact answered.withdrawn requestId (withdrawn requestId isWithdrawn)

theorem step (answered : Answered past gateway) (step : Frontend.Step build gateway event next) :
    Answered (past ++ [event]) next := by
  cases step with
  | refused =>
      exact answered.kept rfl (fun _ isProduced => by cases isProduced) fun _ isWithdrawn =>
        isWithdrawn
  | reserved body identity now room unused unread =>
      refine answered.called (fun reply ended => ?_) (fun _ isProduced => by cases isProduced) ?_
      · cases unused.symm.trans ended
      · intro other isWithdrawn
        left
        by_cases same : other = identity.requestId
        · simp [Section.settles, same] at isWithdrawn
        · simpa [Section.settles, same] using isWithdrawn
  | @produced requestId body identity bytes building =>
      refine answered.called (fun reply ended => ?_) (fun other isProduced => ?_)
        fun other isWithdrawn => Or.inl isWithdrawn
      · cases building.symm.trans ended
      · cases isProduced
        exact ⟨rfl, _, _, rfl⟩
  | raised building =>
      refine answered.called (fun reply ended => ?_) (fun _ isProduced => by cases isProduced)
        fun other isWithdrawn => Or.inl isWithdrawn
      cases building.symm.trans ended
  | overflowed building =>
      refine answered.called (fun reply ended => ?_) (fun _ isProduced => by cases isProduced)
        fun other isWithdrawn => Or.inl isWithdrawn
      cases building.symm.trans ended
  | @withdrawn requestId overflowing =>
      refine answered.called (fun reply ended => ?_) (fun _ isProduced => by cases isProduced) ?_
      · cases overflowing.symm.trans ended
      · intro other isWithdrawn
        by_cases same : other = requestId
        · exact Or.inr ⟨same, rfl⟩
        · exact Or.inl ((settle_of_ne same).symm.trans isWithdrawn)
  | consumed requestId result now =>
      refine answered.kept rfl (fun _ isProduced => by cases isProduced) fun other isWithdrawn => ?_
      by_cases same : other = requestId
      · subst same
        by_cases isPending : fates past other = .pending
        · simp [Section.settles, settle, isPending] at isWithdrawn
        · rwa [Section.settles, settle_of_settled isPending] at isWithdrawn
      · exact (settle_of_ne same).symm.trans isWithdrawn
  | reported =>
      exact answered.kept rfl (fun _ isProduced => by cases isProduced) fun _ isWithdrawn =>
        isWithdrawn

end Answered

/-! ### Runs -/

variable {build : InferenceRequest → Option Bytes} {capacity : ℤ} {past : List (Section ρ)}
  {gateway : Frontend τ ρ}

theorem accounts_of_trace
    (trace : Trace (Frontend.Step build) { state := { capacity := capacity } } past gateway) :
    Accounts past gateway :=
  trace.history (fun _ _ _ _ accounts step => accounts.step step) (Accounts.new capacity)

theorem answered_of_trace
    (trace : Trace (Frontend.Step build) { state := { capacity := capacity } } past gateway) :
    Answered past gateway :=
  trace.history (fun _ _ _ _ answered step => answered.step step)
    ⟨fun _ member => absurd member List.not_mem_nil, fun _ isWithdrawn => by cases isWithdrawn⟩

/-- A reply of `metrics` accounts for the sections before it. -/
structure Metrics.Balanced (capacity : ℤ) (past : List (Section ρ)) (metrics : Metrics) :
    Prop where
  bounded : (metrics.queueDepth : ℤ) ≤ max capacity 0
  submitted : metrics.submitted = (reservations past).length
  completed : metrics.completed = Census.count (reservations past) (fates past) .completed
  queueDepth : metrics.queueDepth = Census.count (reservations past) (fates past) .pending
  total : metrics.submitted = metrics.completed + metrics.queueDepth +
    Census.count (reservations past) (fates past) .withdrawn
  samples : metrics.samples = metrics.completed
  rejected : metrics.rejected = past.countP Section.rejects

theorem balanced_of_trace
    (trace : Trace (Frontend.Step build) { state := { capacity := capacity } } past gateway) :
    gateway.metrics.Balanced capacity past := by
  have accounts := accounts_of_trace trace
  have kept : ∀ (before : Frontend τ ρ) event after, before.state.capacity = capacity →
      Frontend.Step build before event after → after.state.capacity = capacity := by
    intro before event after same step
    rw [step.capacity_eq, same]
  refine ⟨trace.invariant kept rfl ▸ accounts.bounded, accounts.submitted, accounts.completed,
    accounts.length_pending, ?_, accounts.measured, accounts.rejected⟩
  have total := accounts.reservations_length
  rw [← accounts.submitted, ← accounts.completed, ← accounts.length_pending] at total
  exact total

/-- A call of `submit` is some sections one after the other, when nothing comes between. -/
theorem submit_sections (build : InferenceRequest → Option Bytes) (gateway : Frontend τ ρ)
    (body : SubmitRequest) (identity : Identity) (now : τ) (produce : PyString → Bytes → Delivery)
    (unused : gateway.calls identity.requestId = none)
    (unread : identity.requestId ∉ gateway.state.results) :
    ∃ (events : List (Section ρ)) (final : Frontend τ ρ),
      Trace (Frontend.Step build) gateway events final ∧
        final.state = (gateway.state.submit build body identity now produce).2 := by
  by_cases isFull : gateway.state.full
  · rw [GatewayState.submit_full isFull]
    exact ⟨_, _, .single (.refused isFull), rfl⟩
  · have reserved := Trace.single
      (@Frontend.Step.reserved _ _ build _ body identity now isFull unused unread)
    cases built : build (message body identity) with
    | none =>
        rw [GatewayState.submit_raised isFull built]
        exact ⟨_, _, reserved.snoc (.raised (Function.update_self _ _ _)), rfl⟩
    | some bytes =>
        cases replied : produce identity.requestId bytes with
        | queued =>
            rw [GatewayState.submit_queued isFull built replied]
            exact ⟨_, _, reserved.snoc (.produced (Function.update_self _ _ _) built), rfl⟩
        | bufferError =>
            rw [GatewayState.submit_bufferError isFull built replied]
            have overflowed := reserved.snoc (.overflowed (Function.update_self _ _ _) built)
            exact ⟨_, _, overflowed.snoc (.withdrawn (Function.update_self _ _ _)), rfl⟩
        | raised =>
            rw [GatewayState.submit_unproduced isFull built replied]
            exact ⟨_, _, reserved.snoc (.raised (Function.update_self _ _ _)), rfl⟩

/-- **The gateway's accounts.** However the sections of concurrent calls and the results that
are read interleave, every reply of `metrics` accounts for the sections before it. The
pending requests are within the capacity. Each request that got a slot is submitted once,
and is pending, completed or withdrawn. It is completed at most once, by the first result
that finds it pending, with one latency. The rejections are the calls that were answered
with the status 429. A call of `submit` that runs without interruption with a new
identifier leaves a state of such a run. -/
theorem gateway_accounts
    (trace : Trace (Frontend.Step build) { state := { capacity := capacity } } past gateway) :
    gateway.metrics.Balanced capacity past ∧
    (∀ requestId, requestId ∈ gateway.state.pending ↔ fates past requestId = .pending) ∧
    (∀ before metrics later, past = before ++ .reported metrics :: later →
      metrics.Balanced capacity before) ∧
    ∀ body (identity : Identity) now produce, gateway.calls identity.requestId = none →
      identity.requestId ∉ gateway.state.results →
      ∃ (events : List (Section ρ)) (final : Frontend τ ρ),
        Trace (Frontend.Step build) { state := { capacity := capacity } } (past ++ events) final ∧
          final.state = (gateway.state.submit build body identity now produce).2 ∧
          final.metrics.Balanced capacity (past ++ events) := by
  refine ⟨balanced_of_trace trace, (accounts_of_trace trace).pending, ?_, ?_⟩
  · rintro before metrics later rfl
    obtain ⟨earlier, after, first, step, _⟩ := trace.step_at
    cases step
    exact balanced_of_trace first
  · intro body identity now produce unused unread
    obtain ⟨events, final, goesOn, isState⟩ :=
      submit_sections build gateway body identity now produce unused unread
    have whole := trace.append goesOn
    exact ⟨events, final, whole, isState, balanced_of_trace whole⟩

/-- A gateway with one slot. The first request is completed, a second one is refused
meanwhile, a third is withdrawn because the producer is full, and a fourth waits. -/
theorem busy_gateway : ∃ gateway : Frontend Unit ℕ,
    Trace (Frontend.Step GatewayState.rangeChecked) { state := { capacity := 1 } }
      [.reserved (literal "a"), .produced (literal "a"), .refused, .consumed (literal "a") 5,
        .reserved (literal "b"), .overflowed (literal "b"), .withdrawn (literal "b"),
        .reserved (literal "c"), .produced (literal "c"),
        .reported ⟨3, 1, 2, 1, 1⟩] gateway := by
  have builds : ∀ letter short, GatewayState.rangeChecked (message (GatewayState.seeded 7)
      (GatewayState.lettered letter short)) = some [] := by
    intro letter short
    exact if_pos ((GatewayState.inRange_message _ _).mpr ⟨by decide, by decide, by decide⟩)
  have first := (Trace.single (@Frontend.Step.reserved Unit ℕ GatewayState.rangeChecked
    { state := { capacity := 1 } } (GatewayState.seeded 7)
    (GatewayState.lettered "a" (by decide)) () (by decide) rfl (by decide))).snoc
    (@Frontend.Step.produced _ _ _ _ (literal "a") _ _ _ rfl (builds "a" (by decide)))
  have completed := (first.snoc (.refused (by decide))).snoc (.consumed (literal "a") 5 ())
  have overflowed := (completed.snoc (.reserved (GatewayState.seeded 7)
    (GatewayState.lettered "b" (by decide)) () (by decide) rfl (by decide))).snoc
    (@Frontend.Step.overflowed _ _ _ _ (literal "b") _ _ _ rfl (builds "b" (by decide)))
  have withdrawn := overflowed.snoc (@Frontend.Step.withdrawn _ _ _ _ (literal "b") rfl)
  have waiting := (withdrawn.snoc (.reserved (GatewayState.seeded 7)
    (GatewayState.lettered "c" (by decide)) () (by decide) rfl (by decide))).snoc
    (@Frontend.Step.produced _ _ _ _ (literal "c") _ _ _ rfl (builds "c" (by decide)))
  exact ⟨_, waiting.snoc .reported⟩

/-- Its metrics count them all. -/
theorem gateway_accounts_busy : ∃ (gateway : Frontend Unit ℕ) (past : List (Section ℕ)),
    Trace (Frontend.Step GatewayState.rangeChecked) { state := { capacity := 1 } }
      (past ++ [.reported ⟨3, 1, 2, 1, 1⟩]) gateway ∧
      Metrics.Balanced 1 past ⟨3, 1, 2, 1, 1⟩ ∧ fates past (literal "a") = .completed ∧
      fates past (literal "b") = .withdrawn ∧ .refused ∈ past ∧
      literal "c" ∈ gateway.state.pending := by
  obtain ⟨gateway, trace⟩ := busy_gateway
  obtain ⟨_, pending, reports, _⟩ := gateway_accounts trace
  let past : List (Section ℕ) :=
    [.reserved (literal "a"), .produced (literal "a"), .refused, .consumed (literal "a") 5,
      .reserved (literal "b"), .overflowed (literal "b"), .withdrawn (literal "b"),
      .reserved (literal "c"), .produced (literal "c")]
  exact ⟨gateway, past, trace, reports past _ [] rfl, by decide, by decide,
    List.mem_iff_getElem?.mpr ⟨2, rfl⟩, (pending _).mpr (by decide)⟩

/-! ### The view of a request -/

/-- What `GET /v1/inference/{request_id}` answers. -/
inductive View (ρ δ : Type)
  | completed (cached : ρ)
  | pending
  | stored (row : δ)
  | notFound
deriving DecidableEq, Repr

/-- `result` of `app.py`, with the row that the database has. A cached result has a request id,
so it is not empty. -/
def GatewayState.view (state : GatewayState τ ρ) (requestId : PyString) (row : Option δ) :
    View ρ δ :=
  match state.results.lookup requestId with
  | some cached => .completed cached
  | none =>
      if (state.pending.lookup requestId).isSome then .pending
      else row.elim .notFound .stored

/-- The view is what the history says. -/
theorem Accounts.view_eq (accounts : Accounts past gateway) (requestId : PyString)
    (row : Option δ) : gateway.state.view requestId row =
      (lastResults past requestId).elim
        (if fates past requestId = .pending then .pending else row.elim .notFound .stored)
        .completed := by
  unfold GatewayState.view
  rw [accounts.results]
  cases lastResults past requestId with
  | some cached => rfl
  | none =>
      have waiting : (gateway.state.pending.lookup requestId).isSome = true ↔
          fates past requestId = .pending := AList.lookup_isSome.trans (accounts.pending requestId)
      simp only [Option.elim_none, waiting]

/-- **The view of an accepted request.** From the moment a call returns the identifier of its
request, `GET` answers `PENDING` until a result of that request is read, and
then `COMPLETED` with the last one read, whatever else happens and whatever the database has.
No other request is shown as pending once it has a result or has lost its slot. -/
theorem gateway_view
    (trace : Trace (Frontend.Step build) { state := { capacity := capacity } } past gateway)
    {requestId : PyString} (accepted : .produced requestId ∈ past) (row : Option δ) :
    gateway.state.view requestId row = (lastResults past requestId).elim .pending .completed ∧
    ∀ other (row : Option δ), gateway.state.view other row = .pending ↔
      fates past other = .pending := by
  have accounts := accounts_of_trace trace
  have answered := answered_of_trace trace
  constructor
  · rw [accounts.view_eq]
    cases isRead : lastResults past requestId with
    | some cached => rfl
    | none =>
        obtain ⟨returned, traceId, ended⟩ := answered.produced requestId accepted
        have known : fates past requestId ≠ .unknown := by
          rw [accounts.fated, accounts.known, ended]
          exact Option.some_ne_none _
        have isPending : fates past requestId = .pending := by
          cases fate : fates past requestId with
          | unknown => exact absurd fate known
          | pending => rfl
          | completed => exact absurd isRead (accounts.read requestId fate)
          | withdrawn => cases ended.symm.trans (answered.withdrawn requestId fate)
        simp only [Option.elim_none, if_pos isPending]
  · intro other row
    rw [accounts.view_eq]
    cases isRead : lastResults past other with
    | some cached =>
        refine iff_of_false (fun shown => by cases shown) fun isPending => ?_
        cases isRead.symm.trans (accounts.unread other isPending)
    | none =>
        by_cases isPending : fates past other = .pending
        · simp [isPending]
        · simp only [Option.elim_none, if_neg isPending]
          cases row <;> simp [isPending]

/-- The clients of that gateway see a result, a request that waits and one that has lost its
slot. -/
theorem gateway_view_busy : ∃ gateway : Frontend Unit ℕ,
    gateway.state.view (literal "a") (none : Option Unit) = .completed 5 ∧
      gateway.state.view (literal "c") (none : Option Unit) = .pending ∧
      gateway.state.view (literal "b") (none : Option Unit) ≠ .pending := by
  obtain ⟨gateway, trace⟩ := busy_gateway
  obtain ⟨answered, shown⟩ := gateway_view trace
    (show Section.produced (literal "a") ∈ _ from List.mem_iff_getElem?.mpr ⟨1, rfl⟩)
    (none : Option Unit)
  have waiting := (gateway_view trace
    (show Section.produced (literal "c") ∈ _ from List.mem_iff_getElem?.mpr ⟨8, rfl⟩)
    (none : Option Unit)).1
  refine ⟨gateway, answered, waiting, fun isPending => ?_⟩
  exact absurd ((shown _ _).mp isPending) (by decide)

end InferSched.Gateway

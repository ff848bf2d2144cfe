import InferSched.Distributed.EngineService
import InferSched.Library.Leases

/-! # The router's register of engines

`RouterService` (`router_service.cpp`) grants a lease to each engine that registers, renews
it on a heartbeat of the same incarnation, and hands out the record of a live engine to a
router that waits for one. Every call holds the mutex of the service, so a call is one
step; a wait that goes on takes a step at each of its wakings, without an answer. The
steady clock does not go back. Lapsed leases are only dropped when a call looks
for them, so what the table holds depends on the calls; what the calls reply does not
(`leases_exact`).
-/

namespace InferSched.Distributed

open Library Engine

structure EngineCapacity where
  freeKvBlocks : ℕ := 0
  totalKvBlocks : ℕ := 0
  batchHeadroom : ℕ := 0
  runningSeqs : ℕ := 0
  waitingSeqs : ℕ := 0
deriving DecidableEq, Repr

/-- The fields of `infersched.v1.RegisterRequest` that the router reads. -/
structure RegisterRequest where
  engineId : Text := []
  incarnationId : Text := []
  capacity : EngineCapacity := {}
  endpoint : Text := []
deriving DecidableEq, Repr

structure RegisterReply where
  accepted : Bool := false
  assignedLeaseTtlMs : ℕ := 0
deriving DecidableEq, Repr

structure HeartbeatRequest where
  engineId : Text := []
  incarnationId : Text := []
  capacity : EngineCapacity := {}
deriving DecidableEq, Repr

structure HeartbeatReply where
  leaseOk : Bool := false
deriving DecidableEq, Repr

/-- What the router knows of an engine. The time of the last heartbeat is a reading of the
steady clock in nanoseconds. -/
structure EngineRecord where
  engineId : Text
  incarnationId : Text
  endpoint : Text
  capacity : EngineCapacity
  lastHeartbeat : ℤ
deriving DecidableEq, Repr

/-- The lease time is a count of milliseconds. -/
structure RouterService where
  leaseTtl : ℤ := 1000
  engines : AList fun _ : Text => EngineRecord := ∅

/-- The record that a registration stores. -/
def RegisterRequest.record (request : RegisterRequest) (now : ℤ) : EngineRecord where
  engineId := request.engineId
  incarnationId := request.incarnationId
  endpoint := request.endpoint
  capacity := request.capacity
  lastHeartbeat := now

/-- The record that a heartbeat leaves. -/
def HeartbeatRequest.renew (request : HeartbeatRequest) (now : ℤ) (record : EngineRecord) :
    EngineRecord :=
  { record with capacity := request.capacity, lastHeartbeat := now }

namespace RouterService

/-- The lease time in the ticks of the clock. -/
def ttl (service : RouterService) : ℤ :=
  service.leaseTtl * 1000000

/-- The lease of a record has not lapsed. -/
abbrev Live (service : RouterService) (now : ℤ) (record : EngineRecord) : Prop :=
  Leases.Live EngineRecord.lastHeartbeat service.ttl now record

/-- `PruneExpiredLocked`. -/
def pruneExpiredLocked (service : RouterService) (now : ℤ) : RouterService :=
  { service with
    engines := service.engines.filterValues fun record =>
      !decide (now - record.lastHeartbeat ≥ service.ttl) }

/-- `Register`, with the reading of the clock for the record. -/
def register (service : RouterService) (request : RegisterRequest) (now : ℤ) :
    RouterService × RegisterReply :=
  if request.engineId = [] ∨ request.incarnationId = [] ∨ request.endpoint = [] then
    (service, { accepted := false })
  else
    ({ service with engines := service.engines.insert request.engineId (request.record now) },
      { accepted := true, assignedLeaseTtlMs := (service.leaseTtl % 2 ^ 64).toNat })

/-- `Heartbeat`. The clock is read for the expiry and again for the record. -/
def heartbeat (service : RouterService) (request : HeartbeatRequest) (checked renewed : ℤ) :
    RouterService × HeartbeatReply :=
  let pruned := service.pruneExpiredLocked checked
  match pruned.engines.lookup request.engineId with
  | none => (pruned, { leaseOk := false })
  | some record =>
      if record.incarnationId ≠ request.incarnationId then (pruned, { leaseOk := false })
      else
        ({ pruned with
            engines := pruned.engines.insert request.engineId (request.renew renewed record) },
          { leaseOk := true })

/-- The records of a table, in no particular order. -/
def records (service : RouterService) : List EngineRecord :=
  service.engines.entries.map Sigma.snd

/-- The records that a waking of `WaitForEngine` may return. -/
def waitForEngine (service : RouterService) (now : ℤ) : List EngineRecord :=
  (service.pruneExpiredLocked now).records

/-- The records that a waking of `WaitForNewIncarnation` may return. -/
def waitForNewIncarnation (service : RouterService) (previousIncarnation : Text) (now : ℤ) :
    List EngineRecord :=
  (service.pruneExpiredLocked now).records.filter fun engine =>
    decide (engine.incarnationId ≠ previousIncarnation)

end RouterService

/-- A wait that finds something returns one of what it finds. It returns nothing, or goes
on, when there is nothing. -/
def Chosen (found : List EngineRecord) : Option EngineRecord → Prop
  | some record => record ∈ found
  | none => found = []

/-- A call with its readings of the clock and its reply. -/
inductive RouterControl
  | register (request : RegisterRequest) (now : ℤ) (reply : RegisterReply)
  | heartbeat (request : HeartbeatRequest) (checked renewed : ℤ) (reply : HeartbeatReply)
  | waitForEngine (now : ℤ) (answer : Option EngineRecord)
  | waitForNewIncarnation (previousIncarnation : Text) (now : ℤ) (answer : Option EngineRecord)
deriving DecidableEq, Repr

/-- The service with the last reading of the clock. -/
structure Registry where
  service : RouterService := {}
  clock : ℤ

/-- The calls of engines and routers, in any order. -/
inductive Registry.Step : Registry → RouterControl → Registry → Prop
  | register {registry : Registry} {now : ℤ} (request : RegisterRequest)
      (later : registry.clock ≤ now) :
      Step registry (.register request now (registry.service.register request now).2)
        ⟨(registry.service.register request now).1, now⟩
  | heartbeat {registry : Registry} {checked renewed : ℤ} (request : HeartbeatRequest)
      (later : registry.clock ≤ checked) (ordered : checked ≤ renewed) :
      Step registry
        (.heartbeat request checked renewed (registry.service.heartbeat request checked renewed).2)
        ⟨(registry.service.heartbeat request checked renewed).1, renewed⟩
  | waitForEngine {registry : Registry} {now : ℤ} {answer : Option EngineRecord}
      (later : registry.clock ≤ now) (chosen : Chosen (registry.service.waitForEngine now) answer) :
      Step registry (.waitForEngine now answer) ⟨registry.service.pruneExpiredLocked now, now⟩
  | waitForNewIncarnation {registry : Registry} {now : ℤ} {previousIncarnation : Text}
      {answer : Option EngineRecord} (later : registry.clock ≤ now)
      (chosen : Chosen (registry.service.waitForNewIncarnation previousIncarnation now) answer) :
      Step registry (.waitForNewIncarnation previousIncarnation now answer)
        ⟨registry.service.pruneExpiredLocked now, now⟩

/-! ### The ledger of grants -/

/-- The last grant to each engine, read off the replies alone. -/
abbrev Ledger := Text → Option EngineRecord

/-- What a call and its reply enter in the ledger. -/
def Ledger.enter (ledger : Ledger) : RouterControl → Ledger
  | .register request now reply =>
      if reply.accepted then Function.update ledger request.engineId (some (request.record now))
      else ledger
  | .heartbeat request _ renewed reply =>
      if reply.leaseOk then
        Function.update ledger request.engineId
          ((ledger request.engineId).map (request.renew renewed))
      else ledger
  | _ => ledger

/-- The ledger of a history of calls. -/
def Ledger.of (past : List RouterControl) : Ledger :=
  past.foldl Ledger.enter fun _ => none

theorem Ledger.of_concat (past : List RouterControl) (call : RouterControl) :
    Ledger.of (past ++ [call]) = (Ledger.of past).enter call := by
  simp [Ledger.of]

/-- The records of a ledger that are live. -/
def Ledger.Holds (ledger : Ledger) (ttl now : ℤ) (record : EngineRecord) : Prop :=
  ledger record.engineId = some record ∧ Leases.Live EngineRecord.lastHeartbeat ttl now record

/-- What the reply of a call says of the ledger before the call. -/
def Ledger.Explains (ledger : Ledger) (ttl : ℤ) : RouterControl → Prop
  | .register request _ reply =>
      reply.accepted = true ↔
        request.engineId ≠ [] ∧ request.incarnationId ≠ [] ∧ request.endpoint ≠ []
  | .heartbeat request checked _ reply =>
      reply.leaseOk = true ↔
        ∃ record, ledger.Holds ttl checked record ∧ record.engineId = request.engineId ∧
          record.incarnationId = request.incarnationId
  | .waitForEngine now (some record) => ledger.Holds ttl now record
  | .waitForEngine now none => ∀ record, ¬ ledger.Holds ttl now record
  | .waitForNewIncarnation previousIncarnation now (some record) =>
      ledger.Holds ttl now record ∧ record.incarnationId ≠ previousIncarnation
  | .waitForNewIncarnation previousIncarnation now none =>
      ∀ record, ledger.Holds ttl now record → record.incarnationId = previousIncarnation

/-- The engine and the incarnation that a call treats as live. -/
def RouterControl.serves : RouterControl → Option (Text × Text)
  | .register _ _ _ => none
  | .heartbeat request _ _ reply =>
      if reply.leaseOk then some (request.engineId, request.incarnationId) else none
  | .waitForEngine _ answer => answer.map fun record => (record.engineId, record.incarnationId)
  | .waitForNewIncarnation _ _ answer =>
      answer.map fun record => (record.engineId, record.incarnationId)

/-- The call registers an engine. -/
def RouterControl.Registers (engineId : Text) : RouterControl → Prop
  | .register request _ reply => request.engineId = engineId ∧ reply.accepted = true
  | _ => False

/-- The ledger holds a live record of an incarnation of an engine. -/
def Ledger.Vouches (ledger : Ledger) (ttl now : ℤ) (engineId incarnationId : Text) : Prop :=
  ∃ record, ledger.Holds ttl now record ∧ record.engineId = engineId ∧
    record.incarnationId = incarnationId

/-! ### What each call does -/

namespace RouterService

theorem lookup_pruneExpiredLocked (service : RouterService) (now : ℤ) (engineId : Text) :
    (service.pruneExpiredLocked now).engines.lookup engineId =
      (service.engines.lookup engineId).filter fun record =>
        decide (service.Live now record) := by
  have same : (fun record : EngineRecord => !decide (now - record.lastHeartbeat ≥ service.ttl)) =
      fun record => decide (service.Live now record) := by
    funext record
    rw [← decide_not]
    exact decide_eq_decide.mpr not_le
  rw [← same]
  exact AList.lookup_filterValues _ _ _

theorem register_cases (service : RouterService) (request : RegisterRequest) (now : ℤ) :
    (¬ (request.engineId ≠ [] ∧ request.incarnationId ≠ [] ∧ request.endpoint ≠ []) ∧
      service.register request now = (service, { accepted := false })) ∨
    ((request.engineId ≠ [] ∧ request.incarnationId ≠ [] ∧ request.endpoint ≠ []) ∧
      service.register request now =
        ({ service with engines := service.engines.insert request.engineId (request.record now) },
          { accepted := true, assignedLeaseTtlMs := (service.leaseTtl % 2 ^ 64).toNat })) := by
  by_cases empty : request.engineId = [] ∨ request.incarnationId = [] ∨ request.endpoint = []
  · refine Or.inl ⟨?_, if_pos empty⟩
    rintro ⟨named, started, reachable⟩
    rcases empty with isEmpty | isEmpty | isEmpty
    · exact named isEmpty
    · exact started isEmpty
    · exact reachable isEmpty
  · refine Or.inr ⟨?_, if_neg empty⟩
    rw [not_or, not_or] at empty
    exact empty

/-- A heartbeat renews the record that the expiry leaves, when the incarnation is its own. -/
theorem heartbeat_cases (service : RouterService) (request : HeartbeatRequest)
    (checked renewed : ℤ) :
    ((∀ record, (service.pruneExpiredLocked checked).engines.lookup request.engineId = some record →
        record.incarnationId ≠ request.incarnationId) ∧
      service.heartbeat request checked renewed =
        (service.pruneExpiredLocked checked, { leaseOk := false })) ∨
    (∃ record, (service.pruneExpiredLocked checked).engines.lookup request.engineId = some record ∧
      record.incarnationId = request.incarnationId ∧
      service.heartbeat request checked renewed =
        ({ service.pruneExpiredLocked checked with
            engines := (service.pruneExpiredLocked checked).engines.insert request.engineId
              (request.renew renewed record) },
          { leaseOk := true })) := by
  cases found : (service.pruneExpiredLocked checked).engines.lookup request.engineId with
  | none =>
      refine Or.inl ⟨fun record held => by simp at held, ?_⟩
      simp [heartbeat, found]
  | some record =>
      by_cases same : record.incarnationId = request.incarnationId
      · refine Or.inr ⟨record, rfl, same, ?_⟩
        simp [heartbeat, found, same]
      · refine Or.inl ⟨?_, ?_⟩
        · intro held isHeld
          cases isHeld
          exact same
        · simp [heartbeat, found, same]

theorem mem_records {service : RouterService} {record : EngineRecord} :
    record ∈ service.records ↔ ∃ engineId, service.engines.lookup engineId = some record := by
  constructor
  · intro listed
    obtain ⟨⟨engineId, _⟩, entry, rfl⟩ := List.mem_map.mp listed
    exact ⟨engineId, AList.mem_lookup_iff.mpr entry⟩
  · rintro ⟨engineId, found⟩
    exact List.mem_map.mpr ⟨⟨engineId, record⟩, AList.mem_lookup_iff.mp found, rfl⟩

end RouterService

/-! ### The table follows the ledger -/

/-- The table of the service, at the last reading of the clock, and the ledger. -/
structure Registry.Kept (registry : Registry) (ledger : Ledger) : Prop where
  follows : Leases.Follows EngineRecord.lastHeartbeat registry.service.ttl registry.clock
    registry.service.engines.lookup ledger
  keyed : ∀ engineId record, ledger engineId = some record → record.engineId = engineId

namespace Registry.Kept

variable {registry : Registry} {ledger : Ledger}

/-- What is left after an expiry is what the ledger holds. -/
theorem lookup_pruned (kept : registry.Kept ledger) {now : ℤ} (later : registry.clock ≤ now)
    {engineId : Text} {record : EngineRecord} :
    (registry.service.pruneExpiredLocked now).engines.lookup engineId = some record ↔
      ledger.Holds registry.service.ttl now record ∧ record.engineId = engineId := by
  rw [RouterService.lookup_pruneExpiredLocked, (kept.follows.later later).filter_eq_some]
  constructor
  · rintro ⟨last, live⟩
    have same := kept.keyed engineId record last
    subst same
    exact ⟨⟨last, live⟩, rfl⟩
  · rintro ⟨⟨last, live⟩, rfl⟩
    exact ⟨last, live⟩

theorem mem_records_pruned (kept : registry.Kept ledger) {now : ℤ} (later : registry.clock ≤ now)
    {record : EngineRecord} :
    record ∈ (registry.service.pruneExpiredLocked now).records ↔
      ledger.Holds registry.service.ttl now record := by
  rw [RouterService.mem_records]
  constructor
  · rintro ⟨engineId, found⟩
    exact ((kept.lookup_pruned later).mp found).1
  · intro holds
    exact ⟨record.engineId, (kept.lookup_pruned later).mpr ⟨holds, rfl⟩⟩

theorem pruned (kept : registry.Kept ledger) {now : ℤ} (later : registry.clock ≤ now) :
    Registry.Kept ⟨registry.service.pruneExpiredLocked now, now⟩ ledger where
  follows := by
    have expired := (kept.follows.later later).expire
    rwa [← funext (RouterService.lookup_pruneExpiredLocked registry.service now)] at expired
  keyed := kept.keyed

/-- A grant is entered in the table and in the ledger. -/
theorem granted (kept : registry.Kept ledger) {now : ℤ} (later : registry.clock ≤ now)
    (record : EngineRecord) :
    Registry.Kept
      ⟨{ registry.service with
          engines := registry.service.engines.insert record.engineId record }, now⟩
      (Function.update ledger record.engineId (some record)) where
  follows := by
    have both := (kept.follows.later later).grant record.engineId record
    have table : Function.update (fun engineId => registry.service.engines.lookup engineId)
        record.engineId (some record) =
          fun engineId => (registry.service.engines.insert record.engineId record).lookup
            engineId := by
      funext engineId
      by_cases same : engineId = record.engineId
      · subst same
        rw [Function.update_self]
        exact (AList.lookup_insert registry.service.engines).symm
      · rw [Function.update_of_ne same]
        exact (AList.lookup_insert_ne same).symm
    rwa [table] at both
  keyed := by
    intro engineId held found
    by_cases same : engineId = record.engineId
    · subst same
      rw [Function.update_self] at found
      cases found
      rfl
    · rw [Function.update_of_ne same] at found
      exact kept.keyed engineId held found

end Registry.Kept

/-- **The ledger explains every reply**, and follows what the call grants. -/
theorem Registry.Step.kept {registry next : Registry} {ledger : Ledger} {call : RouterControl}
    (step : Step registry call next) (kept : registry.Kept ledger) :
    ledger.Explains registry.service.ttl call ∧ next.Kept (ledger.enter call) ∧
      next.service.ttl = registry.service.ttl ∧ registry.clock ≤ next.clock := by
  cases step with
  | @register now request later =>
      rcases registry.service.register_cases request now with ⟨refused, isReply⟩ |
        ⟨complete, isReply⟩
      · rw [isReply]
        refine ⟨?_, ⟨kept.follows.later later, kept.keyed⟩, rfl, later⟩
        exact ⟨fun accepted => absurd accepted Bool.false_ne_true, fun all => absurd all refused⟩
      · rw [isReply]
        refine ⟨⟨fun _ => complete, fun _ => rfl⟩, ?_, rfl, later⟩
        exact kept.granted later (request.record now)
  | @heartbeat checked renewed request later ordered =>
      have pruned := kept.pruned later
      rcases registry.service.heartbeat_cases request checked renewed with ⟨refused, isReply⟩ |
        ⟨record, found, same, isReply⟩
      · rw [isReply]
        refine ⟨?_, ⟨pruned.follows.later ordered, pruned.keyed⟩, rfl, le_trans later ordered⟩
        constructor
        · exact fun accepted => absurd accepted Bool.false_ne_true
        · rintro ⟨record, holds, isEngine, same⟩
          exact absurd same (refused record ((kept.lookup_pruned later).mpr ⟨holds, isEngine⟩))
      · have holds := (kept.lookup_pruned later).mp found
        rw [isReply]
        refine ⟨⟨fun _ => ⟨record, holds.1, holds.2, same⟩, fun _ => rfl⟩, ?_, rfl,
          le_trans later ordered⟩
        have granted := pruned.granted ordered (request.renew renewed record)
        have entered : ledger.enter (.heartbeat request checked renewed { leaseOk := true }) =
            Function.update ledger record.engineId (some (request.renew renewed record)) := by
          have last : ledger request.engineId = some record := holds.2 ▸ holds.1.1
          simp [Ledger.enter, last, holds.2]
        rw [entered, ← holds.2]
        exact granted
  | @waitForEngine now answer later chosen =>
      refine ⟨?_, kept.pruned later, rfl, later⟩
      cases answer with
      | none =>
          intro record holds
          have listed := (kept.mem_records_pruned later).mpr holds
          rw [show (registry.service.pruneExpiredLocked now).records = [] from chosen] at listed
          exact absurd listed List.not_mem_nil
      | some record => exact (kept.mem_records_pruned later).mp chosen
  | @waitForNewIncarnation now previousIncarnation answer later chosen =>
      refine ⟨?_, kept.pruned later, rfl, later⟩
      cases answer with
      | none =>
          intro record holds
          by_contra other
          have listed : record ∈
              registry.service.waitForNewIncarnation previousIncarnation now :=
            List.mem_filter.mpr
              ⟨(kept.mem_records_pruned later).mpr holds, decide_eq_true other⟩
          rw [show registry.service.waitForNewIncarnation previousIncarnation now = []
            from chosen] at listed
          exact absurd listed List.not_mem_nil
      | some record =>
          obtain ⟨listed, other⟩ := List.mem_filter.mp chosen
          exact ⟨(kept.mem_records_pruned later).mp listed, of_decide_eq_true other⟩

/-! ### Runs -/

/-- Everything a run does from a service that follows a ledger. -/
theorem Registry.Kept.run {registry final : Registry} {past calls : List RouterControl}
    (kept : registry.Kept (Ledger.of past)) (trace : Trace Registry.Step registry calls final) :
    final.Kept (Ledger.of (past ++ calls)) ∧ final.service.ttl = registry.service.ttl ∧
      registry.clock ≤ final.clock := by
  induction trace with
  | nil => exact ⟨by rwa [List.append_nil], rfl, le_rfl⟩
  | snoc _ last ih =>
      obtain ⟨here, same, ordered⟩ := ih
      obtain ⟨_, after, kept, later⟩ := last.kept here
      rw [← List.append_assoc, Ledger.of_concat]
      exact ⟨after, kept.trans same, le_trans ordered later⟩

/-- A new service has granted nothing. -/
theorem Registry.Kept.new (leaseTtl start : ℤ) :
    Registry.Kept ⟨{ leaseTtl := leaseTtl }, start⟩ (Ledger.of []) where
  follows := ⟨fun _ _ found => absurd found (Option.some_ne_none _).symm,
    fun _ _ last => absurd last (Option.some_ne_none _).symm⟩
  keyed _ _ last := absurd last (Option.some_ne_none _).symm

/-- **A lease is held for exactly its time.** However the calls of engines and routers
interleave and whenever the service drops lapsed leases, each reply is the one that the last
grant of each engine and the clock determine: a heartbeat is accepted exactly when the last
grant of its engine is of its incarnation and has not lapsed, a wait returns a record
that was granted last and has not lapsed (of another incarnation than the previous one, when
it waits for a new one), and it returns nothing only when there is no such record. -/
theorem leases_exact {leaseTtl start : ℤ} {past later : List RouterControl} {call : RouterControl}
    {final : Registry}
    (trace : Trace Registry.Step ⟨{ leaseTtl := leaseTtl }, start⟩ (past ++ call :: later) final) :
    (Ledger.of past).Explains (leaseTtl * 1000000) call := by
  obtain ⟨_, _, before, step, _⟩ := trace.step_at
  obtain ⟨kept, same, _⟩ := (Registry.Kept.new leaseTtl start).run before
  have explained := (step.kept kept).1
  rwa [same] at explained

/-- The only engine of a router. -/
def loneEngine : RegisterRequest where
  engineId := ['e']
  incarnationId := ['1']
  endpoint := ['h']

/-- The router after its registration. -/
def loneRegistry : Registry :=
  ⟨(({ leaseTtl := 20 } : RouterService).register loneEngine 0).1, 0⟩

theorem loneEngine_registers : Registry.Step ⟨{ leaseTtl := 20 }, 0⟩
    (.register loneEngine 0 { accepted := true, assignedLeaseTtlMs := 20 }) loneRegistry :=
  .register loneEngine le_rfl

/-- It is handed out until twenty milliseconds have passed. -/
theorem loneEngine_found : Registry.Step loneRegistry
    (.waitForEngine 19999999 (some (loneEngine.record 0)))
    ⟨loneRegistry.service.pruneExpiredLocked 19999999, 19999999⟩ := by
  refine .waitForEngine (by decide) ?_
  change loneEngine.record 0 ∈ _
  decide

/-- Its last grant is the registration. -/
theorem leases_exact_lone :
    (Ledger.of [.register loneEngine 0 { accepted := true, assignedLeaseTtlMs := 20 }]).Holds
      20000000 19999999 (loneEngine.record 0) :=
  leases_exact ((Trace.single loneEngine_registers).snoc loneEngine_found)

/-- A call serves an incarnation that the ledger vouches for. -/
theorem Registry.Step.vouched {registry next : Registry} {ledger : Ledger} {call : RouterControl}
    (step : Step registry call next) (kept : registry.Kept ledger) {engineId incarnationId : Text}
    (served : call.serves = some (engineId, incarnationId)) :
    ledger.Vouches registry.service.ttl registry.clock engineId incarnationId := by
  have explained := (step.kept kept).1
  cases step with
  | register request later => exact absurd served (Option.some_ne_none _).symm
  | @heartbeat checked renewed request later ordered =>
      by_cases accepted :
          (registry.service.heartbeat request checked renewed).2.leaseOk = true
      · simp only [RouterControl.serves, if_pos accepted] at served
        cases served
        obtain ⟨record, ⟨last, live⟩, isEngine, same⟩ := explained.mp accepted
        exact ⟨record, ⟨last, live.earlier later⟩, isEngine, same⟩
      · simp only [RouterControl.serves, if_neg accepted] at served
        exact absurd served (Option.some_ne_none _).symm
  | @waitForEngine now answer later chosen =>
      cases answer with
      | none => exact absurd served (Option.some_ne_none _).symm
      | some record =>
          cases served
          exact ⟨record, ⟨explained.1, explained.2.earlier later⟩, rfl, rfl⟩
  | @waitForNewIncarnation now previousIncarnation answer later chosen =>
      cases answer with
      | none => exact absurd served (Option.some_ne_none _).symm
      | some record =>
          cases served
          exact ⟨record, ⟨explained.1.1, explained.1.2.earlier later⟩, rfl, rfl⟩

/-- What the ledger vouches for after a call, it vouched for before, unless the call registers
the engine. -/
theorem Registry.Step.vouches_before {registry next : Registry} {ledger : Ledger}
    {call : RouterControl} (step : Step registry call next) (kept : registry.Kept ledger)
    {engineId incarnationId : Text} (quiet : ¬ call.Registers engineId)
    (vouched : (ledger.enter call).Vouches registry.service.ttl next.clock engineId
      incarnationId) :
    ledger.Vouches registry.service.ttl registry.clock engineId incarnationId := by
  obtain ⟨explained, _, _, ordered⟩ := step.kept kept
  obtain ⟨record, ⟨last, live⟩, rfl, rfl⟩ := vouched
  have unchanged (same : ledger.enter call record.engineId = ledger record.engineId) :
      ledger.Vouches registry.service.ttl registry.clock record.engineId record.incarnationId :=
    ⟨record, ⟨same ▸ last, live.earlier ordered⟩, rfl, rfl⟩
  cases call with
  | register request now reply =>
      by_cases accepted : reply.accepted = true
      · have other : record.engineId ≠ request.engineId := fun same =>
          quiet ⟨same.symm, accepted⟩
        exact unchanged (by simp [Ledger.enter, accepted, other])
      · exact unchanged (by simp [Ledger.enter, accepted])
  | heartbeat request checked renewed reply =>
      by_cases accepted : reply.leaseOk = true
      · by_cases same : record.engineId = request.engineId
        · obtain ⟨former, ⟨isLast, _⟩, isEngine, _⟩ := explained.mp accepted
          have served : RouterControl.serves (.heartbeat request checked renewed reply) =
              some (request.engineId, request.incarnationId) := by
            simp [RouterControl.serves, accepted]
          obtain ⟨held, holds, isHeld, incarnation⟩ := step.vouched kept served
          have one : former = held := by
            have found := holds.1
            rw [isHeld, ← isEngine, isLast] at found
            exact Option.some.inj found
          subst one
          have renewal : record = request.renew renewed former := by
            rw [isEngine] at isLast
            simp [Ledger.enter, accepted, same, isLast] at last
            exact last.symm
          refine ⟨former, holds, isHeld.trans same.symm, ?_⟩
          rw [renewal]
          rfl
        · exact unchanged (by simp [Ledger.enter, accepted, same])
      · exact unchanged (by simp [Ledger.enter, accepted])
  | waitForEngine now answer => exact unchanged rfl
  | waitForNewIncarnation previousIncarnation now answer => exact unchanged rfl

/-- What the ledger vouches for after calls that do not register the engine, it vouched for
before them. -/
theorem Registry.Kept.vouches_back {registry final : Registry} {past calls : List RouterControl}
    {engineId incarnationId : Text} (kept : registry.Kept (Ledger.of past))
    (trace : Trace Registry.Step registry calls final)
    (quiet : ∀ call ∈ calls, ¬ call.Registers engineId)
    (vouched : (Ledger.of (past ++ calls)).Vouches registry.service.ttl final.clock engineId
      incarnationId) :
    (Ledger.of past).Vouches registry.service.ttl registry.clock engineId incarnationId := by
  induction trace with
  | nil => rwa [List.append_nil] at vouched
  | @snoc calls middle final call earlier last ih =>
      obtain ⟨here, same, _⟩ := kept.run earlier
      rw [← List.append_assoc, Ledger.of_concat, ← same] at vouched
      have former := last.vouches_before here
        (quiet call (List.mem_append_right _ (List.mem_singleton_self _))) vouched
      rw [same] at former
      exact ih (fun call member => quiet call (List.mem_append_left _ member)) former

/-- **A lease is not revived.** As long as an engine does not register again, whatever its
heartbeats keep alive and whatever the waits return of it is the one incarnation whose lease
was held before: once that lease has lapsed, or another incarnation has registered
in its place, no heartbeat brings it back and no router is given its record. -/
theorem lease_not_revived {leaseTtl start : ℤ} {past calls : List RouterControl}
    {registry final : Registry} {engineId incarnationId : Text}
    (before : Trace Registry.Step ⟨{ leaseTtl := leaseTtl }, start⟩ past registry)
    (trace : Trace Registry.Step registry calls final)
    (quiet : ∀ call ∈ calls, ¬ call.Registers engineId)
    {call : RouterControl} (occurs : call ∈ calls)
    (served : call.serves = some (engineId, incarnationId)) :
    (Ledger.of past).Vouches (leaseTtl * 1000000) registry.clock engineId incarnationId := by
  obtain ⟨kept, isTtl, _⟩ := (Registry.Kept.new leaseTtl start).run before
  rw [List.nil_append] at kept
  replace isTtl : registry.service.ttl = leaseTtl * 1000000 := isTtl
  rw [← isTtl]
  obtain ⟨first, later, rfl⟩ := List.append_of_mem occurs
  obtain ⟨middle, _, earlier, step, _⟩ := trace.step_at
  obtain ⟨here, same, _⟩ := kept.run earlier
  have vouched := step.vouched here served
  rw [same] at vouched
  refine kept.vouches_back earlier ?_ vouched
  exact fun call member => quiet call (List.mem_append_left _ member)

/-- The record that is handed out is of the incarnation that registered. -/
theorem lease_not_revived_lone :
    (Ledger.of [.register loneEngine 0 { accepted := true, assignedLeaseTtlMs := 20 }]).Vouches
      20000000 0 ['e'] ['1'] :=
  lease_not_revived (.single loneEngine_registers) (.single loneEngine_found)
    (fun call member => by simp at member; subst member; exact not_false)
    (List.mem_singleton_self _) rfl

end InferSched.Distributed

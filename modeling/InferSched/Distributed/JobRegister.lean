import Mathlib.Tactic.Tauto
import InferSched.Distributed.EngineService

/-! # The register of jobs

What holds between the calls and the worker of an engine service: the live jobs are
exactly those queued or in the running batch, so that no two of these have one
request id, and a job has a result once it is in neither the queue nor the part of
the batch that is still to be published. A weak pointer in the register never
expires before it is erased.
-/

namespace InferSched.Distributed

open Library Engine

variable {η : Type}

/-- The jobs of a batch that have no result yet. -/
def Worker.unpublished : Worker → List JobId
  | .waiting => []
  | .coalescing => []
  | .submitting _ passed ahead => passed ++ ahead
  | .publishing _ _ _ ahead => ahead
  | .releasing _ _ _ job ahead => job :: ahead

theorem Worker.unpublished_sublist (worker : Worker) :
    worker.unpublished.Sublist worker.batch := by
  cases worker with
  | waiting => exact .slnil
  | coalescing => exact .slnil
  | submitting resultOffset passed ahead => exact .refl _
  | publishing resultOffset newResults passed ahead => exact List.sublist_append_right passed ahead
  | releasing resultOffset newResults passed job ahead =>
      exact List.sublist_append_right passed (job :: ahead)

namespace EngineService

/-! ### What the calls do -/

/-- What `ValidateAndReserve` asks of a request. -/
structure Acceptable (service : EngineService η) (request : DispatchRequest) : Prop where
  serving : service.draining = false
  room : service.queue.length < service.queueCapacity
  epoch : ∀ current, service.partitionEpochs.lookup request.fence.partitionId = some current →
    current ≤ request.fence.ownershipEpoch
  attempt : ∀ current, service.requestAttempts.lookup request.request.requestId = some current →
    current < request.fence.attemptId
  alone : service.lockLive request.request.requestId = none

/-- The service that has accepted a request. -/
def accept (service : EngineService η) (request : DispatchRequest) : EngineService η :=
  { service with
    partitionEpochs :=
      service.partitionEpochs.insert request.fence.partitionId request.fence.ownershipEpoch
    requestAttempts :=
      service.requestAttempts.insert request.request.requestId request.fence.attemptId
    liveJobs := service.liveJobs.insert request.request.requestId service.created
    queue := service.queue ++ [service.created]
    jobs := Function.update service.jobs service.created { dispatch := request }
    handlers := Function.update service.handlers service.created .acknowledging
    created := service.created + 1 }

/-- A rejected call changes at most the epoch of its partition, and never to an
older one. -/
theorem dispatch_cases (service : EngineService η) (request : DispatchRequest) :
    (∃ reason epochs, service.dispatch request =
        ({ status := .rejected, reason }, { service with partitionEpochs := epochs }) ∧
      (epochs = service.partitionEpochs ∨
        (∀ current, service.partitionEpochs.lookup request.fence.partitionId = some current →
          current ≤ request.fence.ownershipEpoch) ∧
        epochs = service.partitionEpochs.insert request.fence.partitionId
          request.fence.ownershipEpoch)) ∨
    service.Acceptable request ∧
      service.dispatch request = ({ status := .accepted }, service.accept request) := by
  unfold dispatch validateAndReserve
  by_cases draining : service.draining = true
  · rw [if_pos draining]
    exact Or.inl ⟨_, _, rfl, Or.inl rfl⟩
  rw [if_neg draining]
  by_cases full : service.queue.length ≥ service.queueCapacity
  · rw [if_pos full]
    exact Or.inl ⟨_, _, rfl, Or.inl rfl⟩
  rw [if_neg full]
  split
  · exact Or.inl ⟨_, _, rfl, Or.inl rfl⟩
  · next current =>
      have epoch : ∀ current,
          service.partitionEpochs.lookup request.fence.partitionId = some current →
            current ≤ request.fence.ownershipEpoch := by
        intro epoch found
        rw [found, Option.any_some, decide_eq_true_eq, not_lt] at current
        exact current
      dsimp only
      split
      · exact Or.inl ⟨_, _, rfl, Or.inr ⟨epoch, rfl⟩⟩
      · next newer =>
          have attempt : ∀ current,
              service.requestAttempts.lookup request.request.requestId = some current →
                current < request.fence.attemptId := by
            intro attempt found
            rw [found, Option.any_some, decide_eq_true_eq, not_le] at newer
            exact newer
          split
          · exact Or.inl ⟨_, _, rfl, Or.inr ⟨epoch, rfl⟩⟩
          · next alone =>
              refine Or.inr ⟨⟨eq_false_of_ne_true draining, not_le.mp full, epoch, attempt, ?_⟩,
                rfl⟩
              exact Option.not_isSome_iff_eq_none.mp alone

/-- The service with a job superseded. -/
def supersede (service : EngineService η) (job : JobId) : EngineService η :=
  { service with
    jobs := Function.update service.jobs job { service.jobs job with superseded := true } }

theorem cancel_cases (service : EngineService η) (request : CancelRequest) :
    service.cancel request = (none, service) ∨
    ∃ job, service.lockLive request.requestId = some job ∧
      service.cancel request = (some job, service.supersede job) := by
  unfold cancel
  split
  · exact Or.inl rfl
  · next job found =>
      split
      · exact Or.inr ⟨job, found, rfl⟩
      · exact Or.inl rfl

theorem supersede_jobs (service : EngineService η) (job other : JobId) :
    (service.supersede job).jobs other =
      { service.jobs other with
        superseded := decide (other = job) || (service.jobs other).superseded } := by
  unfold supersede
  dsimp only
  by_cases same : other = job
  · subst same
    rw [Function.update_self]
    simp
  · rw [Function.update_of_ne same]
    simp [same]

/-! ### Jobs that the service knows -/

/-- The jobs that are queued or in the running batch. -/
def registered (service : EngineService η) : List JobId :=
  service.queue ++ service.worker.batch

/-- The jobs that wait for their result. -/
def unfinished (service : EngineService η) : List JobId :=
  service.queue ++ service.worker.unpublished

/-- The live jobs are the queued and the running ones, and those without a result
are the unfinished ones. -/
structure Registered (service : EngineService η) : Prop where
  known : ∀ job ∈ service.registered, job < service.created
  once : service.registered.Nodup
  live : ∀ requestId job, service.liveJobs.lookup requestId = some job ↔
    job ∈ service.registered ∧ (service.jobs job).requestId = requestId
  queued : service.queue.length ≤ service.queueCapacity
  batched : service.worker.batch.length ≤ service.queueCapacity
  waiting : ∀ job < service.created, (service.jobs job).done = false ↔ job ∈ service.unfinished
  fresh : ∀ job, service.created ≤ job → (service.jobs job).done = false
  running : service.runningJobs = service.worker.batch.length

theorem held_of_registered {service : EngineService η} {job : JobId}
    (member : job ∈ service.registered) : service.held job = true := by
  unfold held
  rcases List.mem_append.mp member with queued | running
  · rw [decide_eq_true queued, Bool.true_or, Bool.true_or]
  · rw [decide_eq_true running, Bool.or_true, Bool.true_or]

/-- A live job has not expired. -/
theorem Registered.lockLive_eq {service : EngineService η} (registered : service.Registered)
    (requestId : Text) : service.lockLive requestId = service.liveJobs.lookup requestId := by
  unfold lockLive
  cases found : service.liveJobs.lookup requestId with
  | none => rfl
  | some job =>
      have member := ((registered.live requestId job).mp found).1
      rw [Option.filter_some, if_pos (held_of_registered member)]

/-- No two registered jobs have one request id. -/
theorem Registered.requestId_inj {service : EngineService η} (registered : service.Registered)
    {job other : JobId} (member : job ∈ service.registered) (also : other ∈ service.registered)
    (same : (service.jobs job).requestId = (service.jobs other).requestId) : job = other := by
  have one := (registered.live _ job).mpr ⟨member, same⟩
  have two := (registered.live _ other).mpr ⟨also, rfl⟩
  exact Option.some.inj (one.symm.trans two)

/-- What the invariant reads of a service. -/
theorem Registered.of_same {service next : EngineService η} (registered : service.Registered)
    (queue : next.queue = service.queue) (capacity : next.queueCapacity = service.queueCapacity)
    (batch : next.worker.batch = service.worker.batch)
    (unpublished : next.worker.unpublished = service.worker.unpublished)
    (liveJobs : next.liveJobs = service.liveJobs) (created : next.created = service.created)
    (runningJobs : next.runningJobs = service.runningJobs)
    (jobs : ∀ job, (next.jobs job).requestId = (service.jobs job).requestId ∧
      (next.jobs job).done = (service.jobs job).done) : next.Registered := by
  have same : next.registered = service.registered := by
    unfold EngineService.registered
    rw [queue, batch]
  have stillOpen : next.unfinished = service.unfinished := by
    unfold unfinished
    rw [queue, unpublished]
  refine ⟨?_, ?_, ?_, ?_, ?_, ?_, ?_, ?_⟩
  · rw [same, created]
    exact registered.known
  · rw [same]
    exact registered.once
  · intro requestId job
    rw [liveJobs, same, (jobs job).1]
    exact registered.live requestId job
  · rw [queue, capacity]
    exact registered.queued
  · rw [batch, capacity]
    exact registered.batched
  · intro job isCreated
    rw [(jobs job).2, stillOpen]
    exact registered.waiting job (created ▸ isCreated)
  · intro job isFresh
    rw [(jobs job).2]
    exact registered.fresh job (created ▸ isFresh)
  · rw [runningJobs, batch]
    exact registered.running

theorem accept_jobs_self (service : EngineService η) (request : DispatchRequest) :
    (service.accept request).jobs service.created = { dispatch := request } :=
  Function.update_self _ _ _

theorem accept_jobs_of_ne (service : EngineService η) (request : DispatchRequest) {job : JobId}
    (other : job ≠ service.created) : (service.accept request).jobs job = service.jobs job :=
  Function.update_of_ne other _ _

theorem mem_registered_accept (service : EngineService η) (request : DispatchRequest)
    (job : JobId) : job ∈ (service.accept request).registered ↔
      job = service.created ∨ job ∈ service.registered := by
  unfold registered accept
  simp only [List.mem_append, List.mem_singleton]
  tauto

theorem mem_unfinished_accept (service : EngineService η) (request : DispatchRequest)
    (job : JobId) : job ∈ (service.accept request).unfinished ↔
      job = service.created ∨ job ∈ service.unfinished := by
  unfold unfinished accept
  simp only [List.mem_append, List.mem_singleton]
  tauto

theorem Registered.ne_created {service : EngineService η} (registered : service.Registered)
    {job : JobId} (member : job ∈ service.registered) : job ≠ service.created :=
  Nat.ne_of_lt (registered.known job member)

/-- The new job is the live one of its request, of which there was none. -/
theorem Registered.live_accept {service : EngineService η} (registered : service.Registered)
    {request : DispatchRequest} (acceptable : service.Acceptable request) (requestId : Text)
    (job : JobId) : (service.accept request).liveJobs.lookup requestId = some job ↔
      job ∈ (service.accept request).registered ∧
        ((service.accept request).jobs job).requestId = requestId := by
  have absent := acceptable.alone
  rw [registered.lockLive_eq] at absent
  rw [mem_registered_accept]
  unfold EngineService.accept
  dsimp only
  by_cases own : requestId = request.request.requestId
  · subst own
    rw [AList.lookup_insert]
    constructor
    · intro found
      cases found
      exact ⟨Or.inl rfl, by rw [Function.update_self]; rfl⟩
    · rintro ⟨rfl | old, same⟩
      · rfl
      · rw [Function.update_of_ne (registered.ne_created old)] at same
        have found := (registered.live _ job).mpr ⟨old, same⟩
        rw [absent] at found
        cases found
  · rw [AList.lookup_insert_ne own, registered.live]
    constructor
    · rintro ⟨old, same⟩
      exact ⟨Or.inr old, by rw [Function.update_of_ne (registered.ne_created old)]; exact same⟩
    · rintro ⟨rfl | old, same⟩
      · rw [Function.update_self] at same
        exact absurd same.symm own
      · rw [Function.update_of_ne (registered.ne_created old)] at same
        exact ⟨old, same⟩

theorem Registered.accept {service : EngineService η} (registered : service.Registered)
    {request : DispatchRequest} (acceptable : service.Acceptable request) :
    (service.accept request).Registered := by
  refine ⟨?_, ?_, registered.live_accept acceptable, ?_, registered.batched, ?_, ?_,
    registered.running⟩
  · intro job member
    rcases (service.mem_registered_accept request job).mp member with rfl | old
    · exact Nat.lt_succ_self _
    · exact Nat.lt_succ_of_lt (registered.known job old)
  · have fresh : service.created ∉ service.registered := fun member =>
      registered.ne_created member rfl
    have spread : (service.accept request).registered.Perm
        (service.created :: service.registered) := by
      unfold EngineService.registered EngineService.accept
      dsimp only
      rw [List.append_assoc, List.singleton_append]
      exact List.perm_middle
    exact spread.nodup_iff.mpr (List.nodup_cons.mpr ⟨fresh, registered.once⟩)
  · have room := acceptable.room
    unfold EngineService.accept
    dsimp only
    rw [List.length_append, List.length_singleton]
    exact room
  · intro job isCreated
    rw [mem_unfinished_accept]
    rcases Nat.lt_succ_iff_lt_or_eq.mp isCreated with old | rfl
    · have other : job ≠ service.created := Nat.ne_of_lt old
      rw [accept_jobs_of_ne service request other, registered.waiting job old]
      exact ⟨Or.inr, fun member => member.resolve_left other⟩
    · rw [accept_jobs_self]
      exact ⟨fun _ => Or.inl rfl, fun _ => rfl⟩
  · intro job isFresh
    rw [accept_jobs_of_ne service request (Nat.ne_of_gt isFresh)]
    exact registered.fresh job (Nat.le_of_succ_le isFresh)

theorem Registered.take {service : EngineService η} (registered : service.Registered)
    (phase : service.worker = .coalescing) : service.take.Registered := by
  have members : service.take.registered = service.registered := by
    unfold EngineService.registered EngineService.take
    rw [phase]
    exact (List.append_nil _).symm
  have idle : service.runningJobs = 0 := by
    rw [registered.running, phase]
    rfl
  refine ⟨?_, ?_, ?_, Nat.zero_le _, registered.queued, ?_, registered.fresh, ?_⟩
  · rw [members]
    exact registered.known
  · rw [members]
    exact registered.once
  · rw [members]
    exact registered.live
  · intro job isCreated
    rw [show (service.take.jobs job).done = (service.jobs job).done from rfl,
      registered.waiting job isCreated]
    unfold unfinished EngineService.take
    rw [phase]
    simp only [Worker.unpublished, List.append_nil, List.nil_append]
  · unfold EngineService.take
    dsimp only
    rw [idle, Nat.zero_add]
    rfl

/-- A change of a job that leaves its dispatch leaves every dispatch. -/
theorem update_dispatch (jobs : JobId → Job) {job : JobId} {changed : Job}
    (kept : changed.dispatch = (jobs job).dispatch) (other : JobId) :
    (Function.update jobs job changed other).dispatch = (jobs other).dispatch := by
  by_cases same : other = job
  · rw [same, Function.update_self, kept]
  · rw [Function.update_of_ne same]

/-- The read of the flag keeps the register: the job waits until it is published. -/
theorem Registered.settle {service : EngineService η} (registered : service.Registered)
    {resultOffset : ℕ} {newResults : AList fun _ : Text => EngineResult}
    {passed ahead : List JobId} {job : JobId}
    (phase : service.worker = .publishing resultOffset newResults passed (job :: ahead)) :
    ({ service with
      jobs := Function.update service.jobs job ((service.jobs job).settle newResults)
      worker := .releasing resultOffset newResults passed job ahead } :
        EngineService η).Registered := by
  refine registered.of_same rfl rfl ?_ ?_ rfl rfl rfl fun other => ?_
  · rw [phase]
    rfl
  · rw [phase]
    rfl
  · refine ⟨congrArg (fun dispatch => dispatch.request.requestId)
      (update_dispatch service.jobs (by rfl) other), ?_⟩
    dsimp only
    by_cases same : other = job
    · rw [same, Function.update_self]
      rfl
    · rw [Function.update_of_ne same]

/-- A publication sets the flag of its job and keeps the rest. -/
theorem Registered.publish {service : EngineService η} (registered : service.Registered)
    {resultOffset : ℕ} {newResults : AList fun _ : Text => EngineResult}
    {passed ahead : List JobId} {job : JobId}
    (phase : service.worker = .releasing resultOffset newResults passed job ahead) :
    ({ service with
      jobs := Function.update service.jobs job (service.jobs job).publish
      worker := .publishing resultOffset newResults (passed ++ [job]) ahead } :
        EngineService η).Registered := by
  have batch : (Worker.publishing resultOffset newResults (passed ++ [job]) ahead).batch =
      service.worker.batch := by
    rw [phase]
    exact List.append_assoc _ _ _
  have keepsId : ∀ other, (Function.update service.jobs job (service.jobs job).publish
      other).requestId = (service.jobs other).requestId := by
    intro other
    unfold Job.requestId
    rw [update_dispatch service.jobs (by rfl)]
  have apart : job ∉ service.queue ++ ahead := by
    have distinct := registered.once
    unfold EngineService.registered at distinct
    rw [phase] at distinct
    unfold Worker.batch at distinct
    rw [← List.append_assoc] at distinct
    have others := (List.nodup_cons.mp (List.nodup_middle.mp distinct)).1
    simp only [List.mem_append, not_or] at others ⊢
    exact ⟨others.1.1, others.2⟩
  refine ⟨?_, ?_, ?_, registered.queued, ?_, ?_, ?_, ?_⟩
  · unfold EngineService.registered
    dsimp only
    rw [batch]
    exact registered.known
  · unfold EngineService.registered
    dsimp only
    rw [batch]
    exact registered.once
  · intro requestId other
    unfold EngineService.registered
    dsimp only
    rw [batch, keepsId]
    exact registered.live requestId other
  · dsimp only
    rw [batch]
    exact registered.batched
  · intro other isCreated
    unfold unfinished Worker.unpublished
    dsimp only
    by_cases same : other = job
    · rw [same, Function.update_self]
      exact ⟨fun undone => absurd undone Bool.true_eq_false.mp, fun member => absurd member apart⟩
    · rw [Function.update_of_ne same, registered.waiting other isCreated]
      unfold unfinished
      rw [phase]
      unfold Worker.unpublished
      simp only [List.mem_append, List.mem_cons, same, false_or]
  · intro other isFresh
    have member : job ∈ service.registered := by
      apply List.mem_append_right
      rw [phase]
      exact List.mem_append_right _ List.mem_cons_self
    have older := (registered.known job member).trans_le isFresh
    dsimp only
    rw [Function.update_of_ne (Nat.ne_of_gt older)]
    exact registered.fresh other isFresh
  · dsimp only
    rw [batch]
    exact registered.running

/-- The first job that the worker has still to publish is not done. -/
theorem Registered.undone {service : EngineService η} (registered : service.Registered)
    {ahead : List JobId} {job : JobId} (next : service.worker.unpublished = job :: ahead)
    (batched : job ∈ service.worker.batch) :
    job < service.created ∧ (service.jobs job).done = false := by
  have isCreated := registered.known job (List.mem_append_right _ batched)
  refine ⟨isCreated, (registered.waiting job isCreated).mpr ?_⟩
  apply List.mem_append_right
  rw [next]
  exact List.mem_cons_self

theorem Registered.undone_publishing {service : EngineService η} (registered : service.Registered)
    {resultOffset : ℕ} {newResults : AList fun _ : Text => EngineResult}
    {passed ahead : List JobId} {job : JobId}
    (phase : service.worker = .publishing resultOffset newResults passed (job :: ahead)) :
    job < service.created ∧ (service.jobs job).done = false := by
  refine registered.undone (by rw [phase]; rfl) ?_
  rw [phase]
  exact List.mem_append_right _ List.mem_cons_self

theorem Registered.undone_releasing {service : EngineService η} (registered : service.Registered)
    {resultOffset : ℕ} {newResults : AList fun _ : Text => EngineResult}
    {passed ahead : List JobId} {job : JobId}
    (phase : service.worker = .releasing resultOffset newResults passed job ahead) :
    job < service.created ∧ (service.jobs job).done = false := by
  refine registered.undone (by rw [phase]; rfl) ?_
  rw [phase]
  exact List.mem_append_right _ List.mem_cons_self

theorem unregisterJob_eq {service : EngineService η} {first : JobId}
    (own : ∀ requestId, service.liveJobs.lookup requestId = some first →
      (service.jobs first).requestId = requestId)
    (held : service.held first = true) :
    ∃ live, service.unregisterJob first = { service with liveJobs := live } ∧
      ∀ requestId job, live.lookup requestId = some job ↔
        service.liveJobs.lookup requestId = some job ∧ job ≠ first := by
  unfold unregisterJob
  split
  · next found =>
      refine ⟨_, rfl, ?_⟩
      have isLive : service.liveJobs.lookup (service.jobs first).requestId = some first :=
        (Option.filter_eq_some_iff.mp found).1
      intro requestId job
      by_cases same : requestId = (service.jobs first).requestId
      · subst same
        rw [AList.lookup_erase, isLive]
        constructor
        · intro impossible
          cases impossible
        · rintro ⟨sameJob, different⟩
          exact absurd (Option.some.inj sameJob).symm different
      · rw [AList.lookup_erase_ne same]
        refine ⟨fun other => ⟨other, ?_⟩, And.left⟩
        rintro rfl
        exact same (own requestId other).symm
  · next missing =>
      refine ⟨_, rfl, ?_⟩
      intro requestId job
      refine ⟨fun found => ⟨found, ?_⟩, And.left⟩
      rintro rfl
      apply missing
      unfold lockLive
      rw [own requestId found, found, Option.filter_some, if_pos held]

/-- The loop that unregisters a batch erases exactly its jobs. -/
theorem foldl_unregisterJob (batch : List JobId) {service : EngineService η}
    (own : ∀ requestId job, service.liveJobs.lookup requestId = some job → job ∈ batch →
      (service.jobs job).requestId = requestId)
    (held : ∀ job ∈ batch, service.held job = true) :
    ∃ live, batch.foldl unregisterJob service = { service with liveJobs := live } ∧
      ∀ requestId job, live.lookup requestId = some job ↔
        service.liveJobs.lookup requestId = some job ∧ job ∉ batch := by
  induction batch generalizing service with
  | nil => exact ⟨service.liveJobs, rfl, fun _ _ => by simp⟩
  | cons first rest ih =>
      have one : ∃ live, service.unregisterJob first = { service with liveJobs := live } ∧
          ∀ requestId job, live.lookup requestId = some job ↔
            service.liveJobs.lookup requestId = some job ∧ job ≠ first := by
        exact unregisterJob_eq (fun requestId found => own requestId first found List.mem_cons_self)
          (held first List.mem_cons_self)
      obtain ⟨live, isNext, erased⟩ := one
      rw [List.foldl_cons, isNext]
      obtain ⟨final, isFinal, all⟩ := @ih { service with liveJobs := live }
        (fun requestId job found member => own requestId job ((erased requestId job).mp found).1
          (List.mem_cons_of_mem _ member))
        (fun job member => held job (List.mem_cons_of_mem _ member))
      refine ⟨final, isFinal, ?_⟩
      intro requestId job
      rw [all, erased, List.mem_cons, not_or, and_assoc]

theorem Registered.unregister {service : EngineService η} (registered : service.Registered)
    {resultOffset : ℕ} {newResults : AList fun _ : Text => EngineResult} {passed : List JobId}
    (phase : service.worker = .publishing resultOffset newResults passed []) :
    (service.unregister passed).Registered ∧ ∃ live, service.unregister passed =
      { service with runningJobs := 0, liveJobs := live, worker := .waiting } := by
  have batch : service.worker.batch = passed := by
    rw [phase]
    exact List.append_nil _
  obtain ⟨live, isFolded, erased⟩ := @foldl_unregisterJob η passed
    { service with runningJobs := service.runningJobs - passed.length }
    (fun requestId job found _ => ((registered.live requestId job).mp found).2)
    (fun job member => held_of_registered (List.mem_append_right _ (batch ▸ member)))
  have isNext : service.unregister passed =
      { service with runningJobs := 0, liveJobs := live, worker := .waiting } := by
    unfold EngineService.unregister
    rw [isFolded, registered.running, batch, Nat.sub_self]
  have distinct := registered.once
  unfold EngineService.registered at distinct
  rw [batch] at distinct
  refine ⟨?_, live, isNext⟩
  rw [isNext]
  refine ⟨?_, ?_, ?_, registered.queued, Nat.zero_le _, ?_, registered.fresh, rfl⟩
  · intro job member
    exact registered.known job (List.mem_append_left _ (List.append_nil service.queue ▸ member))
  · unfold EngineService.registered Worker.batch
    rw [List.append_nil]
    exact (List.nodup_append.mp distinct).1
  · intro requestId job
    have member : job ∈ service.registered ↔ job ∈ service.queue ∨ job ∈ passed := by
      unfold EngineService.registered
      rw [batch, List.mem_append]
    rw [erased, registered.live, member]
    constructor
    · rintro ⟨⟨queued | running, same⟩, outside⟩
      · exact ⟨List.mem_append_left _ queued, same⟩
      · exact absurd running outside
    · rintro ⟨left, same⟩
      have queued : job ∈ service.queue := List.append_nil service.queue ▸ left
      refine ⟨⟨Or.inl queued, same⟩, fun running => ?_⟩
      exact (List.nodup_append.mp distinct).2.2 job queued job running rfl
  · intro job isCreated
    rw [registered.waiting job isCreated]
    unfold unfinished
    rw [phase]
    rfl

variable [RequestQueue η]

/-- Every step of a call or of the worker keeps the register. -/
theorem Registered.step {service next : EngineService η} {action : Action}
    (registered : service.Registered) (step : Step service action next) : next.Registered := by
  cases step with
  | dispatch request =>
      rcases service.dispatch_cases request with ⟨_, _, isRejected, _⟩ | ⟨acceptable, isAccepted⟩
      · rw [isRejected]
        exact registered.of_same rfl rfl rfl rfl rfl rfl rfl fun _ => ⟨rfl, rfl⟩
      · rw [isAccepted]
        exact registered.accept acceptable
  | acknowledge written phase =>
      exact registered.of_same rfl rfl rfl rfl rfl rfl rfl fun _ => ⟨rfl, rfl⟩
  | writePrefill written phase done =>
      exact registered.of_same rfl rfl rfl rfl rfl rfl rfl fun _ => ⟨rfl, rfl⟩
  | writeTerminal written phase =>
      exact registered.of_same rfl rfl rfl rfl rfl rfl rfl fun _ => ⟨rfl, rfl⟩
  | cancel request =>
      rcases service.cancel_cases request with isNone | ⟨job, _, isSome⟩
      · rw [isNone]
        exact registered
      · rw [isSome]
        refine registered.of_same rfl rfl rfl rfl rfl rfl rfl fun other => ?_
        rw [supersede_jobs]
        exact ⟨rfl, rfl⟩
  | drain => exact registered.of_same rfl rfl rfl rfl rfl rfl rfl fun _ => ⟨rfl, rfl⟩
  | drained waiting empty idle =>
      exact registered.of_same rfl rfl rfl rfl rfl rfl rfl fun _ => ⟨rfl, rfl⟩
  | wake phase work =>
      refine registered.of_same rfl rfl ?_ ?_ rfl rfl rfl fun _ => ⟨rfl, rfl⟩
      · rw [phase]
        rfl
      · rw [phase]
        rfl
  | take phase => exact registered.take phase
  | submit phase =>
      refine registered.of_same rfl rfl ?_ ?_ rfl rfl rfl fun _ => ⟨rfl, rfl⟩
      · rw [phase]
        exact List.append_assoc _ _ _
      · rw [phase]
        exact List.append_assoc _ _ _
  | run phase ran =>
      refine registered.of_same rfl rfl ?_ ?_ rfl rfl rfl fun _ => ⟨rfl, rfl⟩
      · rw [phase]
        exact (List.append_nil _).symm
      · rw [phase]
        exact (List.append_nil _).symm
  | settle phase => exact registered.settle phase
  | publish phase => exact registered.publish phase
  | unregister phase => exact (registered.unregister phase).1

theorem new_eq_ok {draws : JitterDraws} {config : EngineConfig} {queueCapacity : ℕ}
    {service : EngineService η} (accepted : new draws config queueCapacity = .ok service) :
    ∃ engine, ContinuousEngine.new draws config = .ok engine ∧
      service = { queueCapacity, engine } := by
  unfold new at accepted
  obtain ⟨engine, made, accepted⟩ := exists_of_bind_eq_ok accepted
  cases accepted
  exact ⟨engine, made, rfl⟩

theorem Registered.new {draws : JitterDraws} {config : EngineConfig} {queueCapacity : ℕ}
    {service : EngineService η} (accepted : new draws config queueCapacity = .ok service) :
    service.Registered := by
  obtain ⟨engine, _, rfl⟩ := new_eq_ok accepted
  refine ⟨List.forall_mem_nil _, List.nodup_nil, ?_, Nat.zero_le _, Nat.zero_le _, ?_,
    fun _ _ => rfl, rfl⟩
  · intro requestId job
    rw [AList.lookup_empty]
    constructor
    · intro impossible
      cases impossible
    · intro impossible
      cases impossible.1
  · intro job impossible
    exact absurd impossible (Nat.not_lt_zero _)

end EngineService

/-! ### What a step does to a job -/

/-- The request that a step accepts, if any. -/
def Action.accepted? : Action → Option DispatchRequest
  | .dispatch request ack => if ack.status = .accepted then some request else none
  | _ => none

/-- The step publishes the result of a job. -/
def Action.publishes (job : JobId) : Action → Bool
  | .publish other => decide (other = job)
  | _ => false

/-- The step reads whether a job is superseded, which fixes its result. -/
def Action.settles (job : JobId) : Action → Bool
  | .settle other => decide (other = job)
  | _ => false

/-- The step cancels a job with success. -/
def Action.cancels (job : JobId) : Action → Bool
  | .cancel _ (some other) => decide (other = job)
  | _ => false

variable [RequestQueue η]

/-- The steps that change a job: it is accepted, cancelled, settled or published. -/
theorem Step.job_cases {service next : EngineService η} {action : Action}
    (step : Step service action next) (registered : service.Registered) (job : JobId) :
    (next.jobs job = service.jobs job ∧ action.publishes job = false ∧
      action.cancels job = false ∧ action.settles job = false) ∨
    (∃ request, action = .dispatch request { status := .accepted } ∧ job = service.created ∧
      next.jobs job = { dispatch := request }) ∨
    (∃ request, action = .cancel request (some job) ∧ job ∈ service.registered ∧
      next.jobs job = { service.jobs job with superseded := true }) ∨
    (∃ resultOffset newResults passed ahead, action = .settle job ∧
      service.worker = .publishing resultOffset newResults passed (job :: ahead) ∧
      next.jobs job = (service.jobs job).settle newResults) ∨
    ∃ resultOffset newResults passed ahead, action = .publish job ∧
      service.worker = .releasing resultOffset newResults passed job ahead ∧
      next.jobs job = (service.jobs job).publish := by
  cases step with
  | dispatch request =>
      rcases service.dispatch_cases request with ⟨_, _, isRejected, _⟩ | ⟨_, isAccepted⟩
      · left
        rw [isRejected]
        exact ⟨rfl, rfl, rfl, rfl⟩
      · rw [isAccepted]
        by_cases isNew : job = service.created
        · right; left
          subst isNew
          exact ⟨request, rfl, rfl, service.accept_jobs_self request⟩
        · left
          exact ⟨service.accept_jobs_of_ne request isNew, rfl, rfl, rfl⟩
  | cancel request =>
      rcases service.cancel_cases request with isNone | ⟨target, found, isSome⟩
      · left
        rw [isNone]
        exact ⟨rfl, rfl, rfl, rfl⟩
      · rw [isSome]
        by_cases same : target = job
        · right; right; left
          subst same
          rw [registered.lockLive_eq] at found
          exact ⟨request, rfl, ((registered.live _ _).mp found).1, Function.update_self _ _ _⟩
        · left
          exact ⟨Function.update_of_ne (Ne.symm same) _ _, rfl, decide_eq_false same, rfl⟩
  | @settle resultOffset newResults passed ahead target phase =>
      by_cases same : target = job
      · right; right; right; left
        subst same
        exact ⟨resultOffset, newResults, passed, ahead, rfl, phase, Function.update_self _ _ _⟩
      · left
        exact ⟨Function.update_of_ne (Ne.symm same) _ _, rfl, rfl, decide_eq_false same⟩
  | @publish resultOffset newResults passed ahead target phase =>
      by_cases same : target = job
      · right; right; right; right
        subst same
        exact ⟨resultOffset, newResults, passed, ahead, rfl, phase, Function.update_self _ _ _⟩
      · left
        exact ⟨Function.update_of_ne (Ne.symm same) _ _, decide_eq_false same, rfl, rfl⟩
  | unregister phase =>
      obtain ⟨_, live, isNext⟩ := registered.unregister phase
      rw [isNext]
      exact Or.inl ⟨rfl, rfl, rfl, rfl⟩
  | _ => exact Or.inl ⟨rfl, rfl, rfl, rfl⟩

/-- Only an accepted request makes a job. -/
theorem Step.created_cases {service next : EngineService η} {action : Action}
    (step : Step service action next) (registered : service.Registered) :
    (next.created = service.created ∧ action.accepted? = none) ∨
    ∃ request, action = .dispatch request { status := .accepted } ∧
      next.created = service.created + 1 ∧
      (next.jobs service.created).dispatch = request := by
  cases step with
  | dispatch request =>
      rcases service.dispatch_cases request with ⟨reason, _, isRejected, _⟩ | ⟨_, isAccepted⟩
      · rw [isRejected]
        exact Or.inl ⟨rfl, rfl⟩
      · rw [isAccepted]
        refine Or.inr ⟨request, rfl, rfl, ?_⟩
        rw [service.accept_jobs_self request]
  | cancel request =>
      rcases service.cancel_cases request with isNone | ⟨job, _, isSome⟩
      · rw [isNone]
        exact Or.inl ⟨rfl, rfl⟩
      · rw [isSome]
        exact Or.inl ⟨rfl, rfl⟩
  | unregister phase =>
      obtain ⟨_, live, isNext⟩ := registered.unregister phase
      rw [isNext]
      exact Or.inl ⟨rfl, rfl⟩
  | _ => exact Or.inl ⟨rfl, rfl⟩

theorem Step.created_le {service next : EngineService η} {action : Action}
    (step : Step service action next) (registered : service.Registered) :
    service.created ≤ next.created := by
  rcases step.created_cases registered with ⟨created, _⟩ | ⟨_, _, created, _⟩
  · exact Nat.le_of_eq created.symm
  · rw [created]
    exact Nat.le_succ _

theorem Step.dispatch_eq {service next : EngineService η} {action : Action}
    (step : Step service action next) (registered : service.Registered) {job : JobId}
    (isCreated : job < service.created) :
    (next.jobs job).dispatch = (service.jobs job).dispatch := by
  rcases step.job_cases registered job with
    ⟨same, _⟩ | ⟨_, _, isNew, _⟩ | ⟨_, _, _, superseded⟩ | ⟨_, _, _, _, _, _, settled⟩ |
    ⟨_, _, _, _, _, _, published⟩
  · rw [same]
  · exact absurd isNew (Nat.ne_of_lt isCreated)
  · rw [superseded]
  · rw [settled]
    rfl
  · rw [published]
    rfl

/-- A job is done once its result is published. -/
theorem Step.done_eq {service next : EngineService η} {action : Action}
    (step : Step service action next) (registered : service.Registered) (job : JobId) :
    (next.jobs job).done = ((service.jobs job).done || action.publishes job) := by
  rcases step.job_cases registered job with ⟨same, quiet, _⟩ | ⟨_, rfl, isNew, accepted⟩ |
    ⟨_, rfl, _, superseded⟩ | ⟨_, _, _, _, rfl, _, settled⟩ | ⟨_, _, _, _, rfl, _, published⟩
  · rw [same, quiet, Bool.or_false]
  · rw [accepted, registered.fresh job (Nat.le_of_eq isNew.symm)]
    rfl
  · rw [superseded]
    exact (Bool.or_false _).symm
  · rw [settled]
    exact (Bool.or_false _).symm
  · have publishes : (Action.publish job).publishes job = true := decide_eq_true rfl
    rw [published, publishes, Bool.or_true]
    rfl

end InferSched.Distributed

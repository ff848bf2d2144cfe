import InferSched.Engine.DeterministicEngine

/-! # The answers of a static batch

What a batch of the static engine does to the pending list and the results: it
answers some pending requests, each with one result and each in one of three
ways, and leaves the others pending. Nothing here depends on the KV cache.
-/

namespace InferSched.Engine

open Library

/-- Elements taken out by distinct positions, from the end on, and the others. -/
theorem perm_foldl_eraseIdx {α : Type*} {indices : List ℕ} {list : List α}
    (descending : indices.Pairwise (· > ·)) (inside : ∀ index ∈ indices, index < list.length) :
    (indices.filterMap (list[·]?) ++ indices.foldl List.eraseIdx list).Perm list := by
  induction indices generalizing list with
  | nil => exact List.Perm.refl _
  | cons index later ih =>
      obtain ⟨below, descending⟩ := List.pairwise_cons.mp descending
      have here := inside index List.mem_cons_self
      have kept : later.filterMap (list[·]?) = later.filterMap ((list.eraseIdx index)[·]?) := by
        apply List.filterMap_congr
        intro other member
        exact (List.getElem?_eraseIdx_of_lt (below other member)).symm
      have rest := @ih (list.eraseIdx index) descending fun other member => by
        rw [List.length_eraseIdx_of_lt here]
        have smaller := below other member
        omega
      rw [List.filterMap_cons_some (List.getElem?_eq_getElem here), List.foldl_cons, kept,
        List.cons_append]
      exact (rest.cons _).trans (List.getElem_cons_eraseIdx_perm here)

/-- Distinct positions may be taken in any order. -/
theorem perm_eraseIndices {α : Type*} {indices : List ℕ} {list : List α} (distinct : indices.Nodup)
    (inside : ∀ index ∈ indices, index < list.length) :
    (indices.filterMap (list[·]?) ++
      (indices.insertionSort (· ≥ ·)).foldl List.eraseIdx list).Perm list := by
  have sorted := List.perm_insertionSort (· ≥ ·) indices
  have weakly := List.pairwise_insertionSort (· ≥ ·) indices
  have descending : (indices.insertionSort (· ≥ ·)).Pairwise (· > ·) :=
    (weakly.and (sorted.nodup_iff.mpr distinct)).imp fun both =>
      lt_of_le_of_ne both.1 (Ne.symm both.2)
  refine List.Perm.trans ?_ (perm_foldl_eraseIdx descending fun index member =>
    inside index (sorted.mem_iff.mp member))
  exact (sorted.symm.filterMap _).append_right _

/-- A relation between positions of a list and values is one between the elements
there and the values. -/
theorem forall₂_filterMap_getElem? {α β : Type*} {relation : α → β → Prop} {list : List α}
    {indices : List ℕ} {values : List β}
    (related : List.Forall₂ (fun index value => ∃ element, list[index]? = some element ∧
      relation element value) indices values) :
    (∀ index ∈ indices, index < list.length) ∧
      List.Forall₂ relation (indices.filterMap (list[·]?)) values := by
  induction related with
  | nil => exact ⟨List.forall_mem_nil _, List.Forall₂.nil⟩
  | cons first _ ih =>
      obtain ⟨element, found, holds⟩ := first
      rw [List.filterMap_cons_some found]
      exact ⟨List.forall_mem_cons.mpr ⟨(List.getElem?_eq_some_iff.mp found).1, ih.1⟩,
        ih.2.cons holds⟩

/-- The requests at the positions a scan has answered or put into the batch. -/
def Batch.answered (batch : Batch) (pending : List EngineRequest) : List EngineRequest :=
  (batch.completedIndices ++ batch.active.map BatchRequest.pendingIndex).filterMap (pending[·]?)

namespace DeterministicEngine

/-- The requests submitted by a list of calls. -/
def submitted (calls : List Call) : List EngineRequest :=
  calls.filterMap fun call =>
    match call with
    | .submit request => some request
    | _ => none

theorem new_eq_ok {draws : JitterDraws} {config : EngineConfig} {engine : DeterministicEngine}
    (accepted : new draws config = .ok engine) :
    PagedKvCache.new config.kvBlocks config.kvBlockSizeTokens = .ok engine.kvCache ∧
      PrefixCache.new config.prefixCacheEntries = .ok engine.prefixCache ∧
      ResultCache.new config.resultCacheEntries = .ok engine.resultCache ∧
      engine.config = config ∧ engine.pending = [] ∧ engine.results = [] := by
  unfold new at accepted
  obtain ⟨costModel, _, accepted⟩ := exists_of_bind_eq_ok accepted
  obtain ⟨kvCache, kv, accepted⟩ := exists_of_bind_eq_ok accepted
  obtain ⟨prefixCache, stored, accepted⟩ := exists_of_bind_eq_ok accepted
  obtain ⟨resultCache, cached, accepted⟩ := exists_of_bind_eq_ok accepted
  obtain ⟨policy, _, accepted⟩ := exists_of_bind_eq_ok accepted
  cases accepted
  exact ⟨kv, stored, cached, rfl, rfl, rfl⟩

/-- The ways a request gets its result: it can never run, its output is cached, or
it ran in the batch. -/
inductive Response (engine : DeterministicEngine) : EngineRequest → EngineResult → Prop
  | rejected {request : EngineRequest} {reason : Text}
      (impossible : engine.impossibleReason request = some reason) :
      Response engine request
        { requestId := request.requestId, completedAt := engine.clock, succeeded := false,
          failureReason := reason }
  | cached {request : EngineRequest} {output : Text}
      (possible : engine.impossibleReason request = none)
      (found : engine.resultCache.entries.lookup (resultKey request) = some output) :
      Response engine request
        { requestId := request.requestId, output, completedAt := engine.clock,
          resultCacheHit := true }
  | computed {request : EngineRequest} {completedAt : ℤ} {prefixCacheHit : Bool}
      (possible : engine.impossibleReason request = none) :
      Response engine request
        { requestId := request.requestId, output := simulatedOutput request, completedAt,
          prefixCacheHit }

/-- A response does not depend on what is pending or answered already. -/
theorem Response.unframe {engine : DeterministicEngine} {pending : List EngineRequest}
    {results : List EngineResult} {request : EngineRequest} {result : EngineResult}
    (response : Response { engine with pending := pending, results := results } request result) :
    Response engine request result := by
  cases response with
  | rejected impossible => exact .rejected impossible
  | cached possible found => exact .cached possible found
  | computed possible => exact .computed possible

theorem Response.outcome {engine : DeterministicEngine} {request : EngineRequest}
    {result : EngineResult} (response : Response engine request result) :
    result.requestId = request.requestId ∧
      (result.succeeded = true ↔ engine.impossibleReason request = none) := by
  cases response with
  | rejected impossible =>
      rw [impossible]
      exact ⟨rfl, iff_of_false Bool.false_ne_true (Option.some_ne_none _)⟩
  | cached possible found => exact ⟨rfl, iff_of_true rfl possible⟩
  | computed possible => exact ⟨rfl, iff_of_true rfl possible⟩

/-! ### Rejection -/

/-- A ready request that the batch will not reject. -/
def Acceptable (engine : DeterministicEngine) (request : EngineRequest) : Prop :=
  request.arrivalTime ≤ engine.clock → engine.impossibleReason request = none

/-- The rejected requests are answered and the others stay, all of them
acceptable. -/
theorem rejectFrom_spec {engine : DeterministicEngine} {kept later : List EngineRequest}
    (pending : engine.pending = kept ++ later) :
    ∃ rejected remaining new,
      (rejectFrom kept later engine).2 =
        { engine with pending := kept ++ remaining, results := engine.results ++ new } ∧
      later.Perm (rejected ++ remaining) ∧ List.Forall₂ (Response engine) rejected new ∧
      ((rejectFrom kept later engine).1 = true ↔ rejected ≠ []) ∧
      ∀ request ∈ remaining, engine.Acceptable request := by
  induction later generalizing engine kept with
  | nil =>
      refine ⟨[], [], [], ?_, List.Perm.refl _, List.Forall₂.nil,
        iff_of_false Bool.false_ne_true (fun nonempty => nonempty rfl), List.forall_mem_nil _⟩
      change engine = _
      rw [← pending, List.append_nil]
  | cons request later ih =>
      unfold rejectFrom
      have stays (acceptable : engine.Acceptable request) :
          ∃ rejected remaining new,
            (rejectFrom (kept ++ [request]) later engine).2 =
              { engine with pending := kept ++ remaining, results := engine.results ++ new } ∧
            (request :: later).Perm (rejected ++ remaining) ∧
            List.Forall₂ (Response engine) rejected new ∧
            ((rejectFrom (kept ++ [request]) later engine).1 = true ↔ rejected ≠ []) ∧
            ∀ request ∈ remaining, engine.Acceptable request := by
        obtain ⟨rejected, remaining, new, after, split, responses, flag, others⟩ :=
          @ih engine (kept ++ [request])
            (by rw [pending, List.append_assoc, List.singleton_append])
        refine ⟨rejected, request :: remaining, new, ?_, ?_, responses, flag,
          List.forall_mem_cons.mpr ⟨acceptable, others⟩⟩
        · rw [after, List.append_assoc, List.singleton_append]
        · exact (split.cons request).trans List.perm_middle.symm
      cases judged : engine.impossibleReason request with
      | none => exact stays fun _ => judged
      | some reason =>
          by_cases late : request.arrivalTime > engine.clock
          · simp only [if_pos late]
            exact stays fun arrived => absurd late (Int.not_lt.mpr arrived)
          · simp only [if_neg late]
            obtain ⟨rejected, remaining, new, after, split, responses, _, others⟩ :=
              @ih { engine.reject request reason with pending := kept ++ later } kept rfl
            refine ⟨request :: rejected, remaining, _ :: new, ?_, split.cons request,
              .cons (.rejected judged) ?_, iff_of_true trivial (List.cons_ne_nil _ _), others⟩
            · rw [after]
              unfold reject
              dsimp only
              rw [List.append_assoc, List.singleton_append]
            · exact responses.imp fun _ _ response => @Response.unframe engine _ _ _ _ response

/-! ### The scan -/

/-- What a turn of the scan does: the request is answered from the result cache, is
allocated its blocks or is passed over. Asking the caches changes none of their
entries. -/
inductive Turn (engine : DeterministicEngine) (batch : Batch) (index : ℕ)
    (request : EngineRequest) : DeterministicEngine × Batch → Prop
  | answered {cached : Text} {resultCache : ResultCache}
      (results : resultCache.entries = engine.resultCache.entries)
      (found : engine.resultCache.entries.lookup (resultKey request) = some cached) :
      Turn engine batch index request
        ({ engine with resultCache := resultCache }.answerCached request cached,
          { batch with completedIndices := batch.completedIndices ++ [index] })
  | joined {resultCache : ResultCache}
      (results : resultCache.entries = engine.resultCache.entries)
      (missing : engine.resultCache.entries.lookup (resultKey request) = none)
      (counted : request.promptTokens ≤ sizeMax - request.maxOutputTokens)
      (allocated : (engine.kvCache.allocate request.requestId (engine.requiredBlocks request)
        (engine.matchPrefix request).1).1 = .allocated) :
      Turn engine batch index request
        ({ engine with
            resultCache := resultCache
            prefixCache := (engine.prefixCache.get (prefixKey request)).2
            kvCache := (engine.kvCache.allocate request.requestId (engine.requiredBlocks request)
              (engine.matchPrefix request).1).2 },
          engine.join batch index request (engine.matchPrefix request).1)
  | passed {resultCache : ResultCache} {prefixCache : PrefixCache}
      (results : resultCache.entries = engine.resultCache.entries)
      (prefixes : prefixCache = engine.prefixCache ∨
        prefixCache = (engine.prefixCache.get (prefixKey request)).2)
      (missing : engine.resultCache.entries.lookup (resultKey request) = none)
      (refused : request.promptTokens ≤ sizeMax - request.maxOutputTokens →
        (engine.kvCache.allocate request.requestId (engine.requiredBlocks request)
          (engine.matchPrefix request).1).1 ≠ .allocated) :
      Turn engine batch index request
        ({ engine with resultCache := resultCache, prefixCache := prefixCache }, batch)

theorem considerRequest_turn (engine : DeterministicEngine) (batch : Batch) (index : ℕ)
    (request : EngineRequest) :
    Turn engine batch index request (engine.considerRequest batch index request) := by
  have looked := engine.resultCache.get_eq_lookup (resultKey request)
  have asked := engine.resultCache.entries_get (resultKey request)
  unfold considerRequest
  dsimp only
  cases found : (engine.resultCache.get (resultKey request)).1 with
  | some cached => exact .answered asked (looked.symm.trans found)
  | none =>
      have missing := looked.symm.trans found
      dsimp only
      unfold tryAllocate
      split
      · next overflow =>
          exact .passed asked (Or.inl rfl) missing fun counted =>
            absurd overflow (Nat.not_lt.mpr counted)
      · next counted =>
          dsimp only
          split
          · next refused => exact .passed asked (Or.inr rfl) missing fun _ => refused
          · next allocated =>
              exact .joined asked missing (Nat.not_lt.mp counted) (not_not.mp allocated)

/-- How far a scan has come: the requests it has answered and those in the batch
are at distinct positions of the pending list, none of them still to be
considered. -/
structure Scanned (start : DeterministicEngine) (later : List ℕ) (engine : DeterministicEngine)
    (batch : Batch) : Prop where
  config : engine.config = start.config
  clock : engine.clock = start.clock
  pending : engine.pending = start.pending
  resultEntries : engine.resultCache.entries = start.resultCache.entries
  distinct : (batch.completedIndices ++ batch.active.map BatchRequest.pendingIndex ++ later).Nodup
  known : ∀ item ∈ batch.active, start.pending[item.pendingIndex]? = some item.request
  possible : ∀ item ∈ batch.active, start.impossibleReason item.request = none
  answers : ∃ new, engine.results = start.results ++ new ∧
    List.Forall₂ (fun index result => ∃ request, start.pending[index]? = some request ∧
      Response start request result) batch.completedIndices new

theorem Scanned.turn {start engine : DeterministicEngine} {batch : Batch} {index : ℕ}
    {later : List ℕ} {request : EngineRequest} {after : DeterministicEngine × Batch}
    (scanned : Scanned start (index :: later) engine batch)
    (here : start.pending[index]? = some request)
    (possible : start.impossibleReason request = none)
    (turn : Turn engine batch index request after) : Scanned start later after.1 after.2 := by
  have fewer := scanned.distinct.sublist
    ((List.Sublist.refl _).append (List.sublist_cons_self index later))
  cases turn with
  | answered results found =>
      obtain ⟨new, appended, responses⟩ := scanned.answers
      refine ⟨scanned.config, scanned.clock, scanned.pending, results.trans scanned.resultEntries,
        ?_, scanned.known, scanned.possible, ?_⟩
      · refine (List.Perm.nodup_iff ?_).mp scanned.distinct
        dsimp only
        rw [List.append_assoc, List.append_assoc, List.append_assoc, List.singleton_append]
        exact (List.perm_middle).append_left _
      · rw [scanned.resultEntries] at found
        have response := Response.cached possible found
        refine ⟨new ++ [_], ?_, List.rel_append responses (.cons ⟨request, here, response⟩ .nil)⟩
        rw [answerCached]
        dsimp only
        rw [appended, scanned.clock, List.append_assoc]
  | joined results missing counted allocated =>
      refine ⟨scanned.config, scanned.clock, scanned.pending, results.trans scanned.resultEntries,
        ?_, ?_, ?_, scanned.answers⟩
      · have moved := scanned.distinct
        unfold join
        dsimp only
        rw [List.map_append, List.map_singleton, List.append_assoc, List.append_assoc,
          List.singleton_append]
        rwa [List.append_assoc] at moved
      · exact List.forall_mem_append.mpr ⟨scanned.known, List.forall_mem_singleton.mpr here⟩
      · exact List.forall_mem_append.mpr
          ⟨scanned.possible, List.forall_mem_singleton.mpr possible⟩
  | passed results prefixes missing refused =>
      exact ⟨scanned.config, scanned.clock, scanned.pending, results.trans scanned.resultEntries,
        fewer, scanned.known, scanned.possible, scanned.answers⟩

/-- The scan over acceptable requests that have arrived. -/
theorem Scanned.scan {start engine : DeterministicEngine} {batch : Batch} {later : List ℕ}
    (scanned : Scanned start later engine batch)
    (possible : ∀ index ∈ later, ∀ request, start.pending[index]? = some request →
      start.impossibleReason request = none) :
    Scanned start [] (scanSelected later engine batch).1 (scanSelected later engine batch).2 := by
  induction later generalizing engine batch with
  | nil => exact scanned
  | cons index later ih =>
      have others := fun other member => possible other (List.mem_cons_of_mem _ member)
      unfold scanSelected
      rw [scanned.pending]
      cases here : start.pending[index]? with
      | none =>
          refine ih ⟨scanned.config, scanned.clock, scanned.pending, scanned.resultEntries, ?_,
            scanned.known, scanned.possible, scanned.answers⟩ others
          exact scanned.distinct.sublist
            ((List.Sublist.refl _).append (List.sublist_cons_self index later))
      | some request =>
          exact ih (scanned.turn here (possible index List.mem_cons_self request here)
            (engine.considerRequest_turn batch index request)) others

/-! ### The run of a batch -/

theorem runPrefill_eq (engine : DeterministicEngine) (batch : Batch) :
    ∃ clock costModel, engine.runPrefill batch =
      { engine with clock := clock, costModel := costModel } := by
  unfold runPrefill
  split
  · exact ⟨_, _, rfl⟩
  · exact ⟨_, _, rfl⟩

theorem cachePrompt_eq (engine : DeterministicEngine) (item : BatchRequest) :
    ∃ kvCache prefixCache, engine.cachePrompt item =
      { engine with kvCache := kvCache, prefixCache := prefixCache } := by
  unfold cachePrompt
  split
  · exact ⟨_, _, rfl⟩
  · exact ⟨_, _, rfl⟩

theorem foldl_cachePrompt_eq (engine : DeterministicEngine) (active : List BatchRequest) :
    ∃ kvCache prefixCache, active.foldl cachePrompt engine =
      { engine with kvCache := kvCache, prefixCache := prefixCache } := by
  induction active generalizing engine with
  | nil => exact ⟨_, _, rfl⟩
  | cons item later ih =>
      obtain ⟨_, _, first⟩ := engine.cachePrompt_eq item
      obtain ⟨kvCache, prefixCache, rest⟩ := ih (engine.cachePrompt item)
      rw [List.foldl_cons, rest, first]
      exact ⟨kvCache, prefixCache, rfl⟩

/-- Every turn takes a token from each sequence. -/
theorem decodeLoop_eq (turns : ℕ) (engine : DeterministicEngine) (active : List BatchRequest) :
    ∃ clock costModel taken, decodeLoop turns engine active =
      ({ engine with clock := clock, costModel := costModel },
        active.map fun item => { item with remainingTokens := item.remainingTokens - taken }) := by
  induction turns generalizing engine active with
  | zero => exact ⟨_, _, 0, congrArg (Prod.mk engine) (List.map_id' active).symm⟩
  | succ turns ih =>
      unfold decodeLoop
      split
      · obtain ⟨clock, costModel, taken, rest⟩ := ih _ _
        refine ⟨clock, costModel, taken + 1, ?_⟩
        rw [rest, List.map_map]
        congr 2
        funext item
        simp only [Function.comp_apply, Nat.sub_sub, Nat.add_comm 1]
      · exact ⟨_, _, 0, congrArg (Prod.mk engine) (List.map_id' active).symm⟩

/-- The result of a sequence that ran. -/
def finishedResult (now : ℤ) (item : BatchRequest) : EngineResult where
  requestId := item.request.requestId
  output := simulatedOutput item.request
  completedAt := now
  prefixCacheHit := item.prefixCacheHit

/-- Cache the output of a sequence. -/
def cacheResult (cache : ResultCache) (item : BatchRequest) : ResultCache :=
  cache.put (resultKey item.request) (simulatedOutput item.request)

/-- Free the blocks of a sequence. -/
def releaseSequence (kvCache : PagedKvCache) (item : BatchRequest) : PagedKvCache :=
  (kvCache.free item.request.requestId).2

theorem finishAll_eq (engine : DeterministicEngine) (active : List BatchRequest) :
    engine.finishAll active =
      { engine with
        resultCache := active.foldl cacheResult engine.resultCache
        kvCache := active.foldl releaseSequence engine.kvCache
        results := engine.results ++ active.map (finishedResult engine.clock) } := by
  induction active generalizing engine with
  | nil => rw [List.map_nil, List.append_nil]; rfl
  | cons item later ih =>
      have rest := ih (engine.finish item)
      unfold finishAll at rest ⊢
      rw [List.foldl_cons, rest]
      unfold finish
      dsimp only
      rw [List.append_assoc, List.map_cons]
      rfl

/-- A batch that ran, field by field. -/
theorem runBatch_eq (engine : DeterministicEngine) (batch : Batch) :
    ∃ clock costModel, engine.runBatch batch =
      { engine with
        clock := clock
        costModel := costModel
        prefixCache := (batch.active.foldl cachePrompt (engine.runPrefill batch)).prefixCache
        kvCache := batch.active.foldl releaseSequence
          (batch.active.foldl cachePrompt (engine.runPrefill batch)).kvCache
        resultCache := batch.active.foldl cacheResult engine.resultCache
        results := engine.results ++ batch.active.map (finishedResult clock)
        pending := ((batch.completedIndices ++
          batch.active.map BatchRequest.pendingIndex).insertionSort (· ≥ ·)).foldl
            List.eraseIdx engine.pending } := by
  obtain ⟨paid, model, prefilled⟩ := engine.runPrefill_eq batch
  obtain ⟨kvCache, prefixCache, put⟩ := foldl_cachePrompt_eq (engine.runPrefill batch) batch.active
  obtain ⟨clock, costModel, taken, decoded⟩ := decodeLoop_eq (decodeTurns batch.active)
    ((engine.runPrefill batch).startDecode batch.active).1
    ((engine.runPrefill batch).startDecode batch.active).2
  refine ⟨clock, costModel, ?_⟩
  unfold runBatch
  dsimp only
  rw [decoded, finishAll_eq]
  unfold startDecode removeCompleted
  dsimp only
  rw [put, prefilled]
  simp only [List.map_map, List.foldl_map]
  rfl

/-! ### A whole batch -/

/-- A batch answers the listed requests, and caches results on top of those it
found cached. -/
structure Answered (engine after : DeterministicEngine) (answered : List EngineRequest) : Prop where
  config : after.config = engine.config
  pending : engine.pending.Perm (answered ++ after.pending)
  results : ∃ new, after.results = engine.results ++ new ∧
    List.Forall₂ (Response engine) answered new
  resultCache : ∃ (items : List BatchRequest) (cache : ResultCache),
    after.resultCache = items.foldl cacheResult cache ∧
      cache.entries = engine.resultCache.entries

/-- The requests the policy selects have arrived and are acceptable. -/
theorem selected_possible {engine : DeterministicEngine}
    (acceptable : ∀ request ∈ engine.pending, engine.Acceptable request) :
    ∀ index ∈ engine.selected, ∀ request, engine.pending[index]? = some request →
      engine.impossibleReason request = none := by
  intro index member request here
  obtain ⟨input, found, arrived⟩ := (engine.policy.select_indices _ _).2 index member
  rw [List.getElem?_map, here] at found
  cases found
  exact acceptable request (List.mem_of_getElem? here) arrived

/-- The scan of the selected requests, from its beginning to its end. -/
theorem Scanned.selected {engine : DeterministicEngine}
    (acceptable : ∀ request ∈ engine.pending, engine.Acceptable request) :
    Scanned engine [] (scanSelected engine.selected engine {}).1
      (scanSelected engine.selected engine {}).2 := by
  have begun : Scanned engine engine.selected engine {} :=
    ⟨rfl, rfl, rfl, rfl, (engine.policy.select_indices _ _).1, List.forall_mem_nil _,
      List.forall_mem_nil _, [], (List.append_nil _).symm, List.Forall₂.nil⟩
  exact begun.scan (selected_possible acceptable)

/-- A scanned batch that runs answers what the scan answered and what ran. -/
theorem Scanned.answered {start engine : DeterministicEngine} {batch : Batch}
    (scanned : Scanned start [] engine batch) :
    Answered start (engine.runBatch batch) (batch.answered start.pending) ∧
      (batch.answered start.pending).length =
        (batch.completedIndices ++ batch.active.map BatchRequest.pendingIndex).length := by
  obtain ⟨new, appended, responses⟩ := scanned.answers
  obtain ⟨clock, costModel, ran⟩ := engine.runBatch_eq batch
  have finished : List.Forall₂ (fun index result => ∃ request,
      start.pending[index]? = some request ∧ Response start request result)
      (batch.active.map BatchRequest.pendingIndex) (batch.active.map (finishedResult clock)) := by
    rw [List.forall₂_map_left_iff, List.forall₂_map_right_iff, List.forall₂_same]
    intro item member
    exact ⟨item.request, scanned.known item member, .computed (scanned.possible item member)⟩
  have positions := List.rel_append responses finished
  obtain ⟨inside, responded⟩ := forall₂_filterMap_getElem? positions
  refine ⟨?_, responded.length_eq.trans positions.length_eq.symm⟩
  rw [ran]
  refine ⟨scanned.config, ?_, ⟨new ++ batch.active.map (finishedResult clock), ?_, responded⟩,
    batch.active, engine.resultCache, rfl, scanned.resultEntries⟩
  · dsimp only
    rw [scanned.pending]
    have distinct := scanned.distinct
    rw [List.append_nil] at distinct
    exact (perm_eraseIndices distinct inside).symm
  · dsimp only
    rw [appended, List.append_assoc]

/-- The part of a batch after the rejections. -/
theorem runSelected_answered {engine : DeterministicEngine}
    (acceptable : ∀ request ∈ engine.pending, engine.Acceptable request) :
    ∃ answered, Answered engine engine.runSelected.2 answered ∧
      (engine.runSelected.1 = true ↔ answered ≠ []) := by
  unfold runSelected
  split
  · exact ⟨[], ⟨rfl, List.Perm.refl _, ⟨[], (List.append_nil _).symm, List.Forall₂.nil⟩, [],
      engine.resultCache, rfl, rfl⟩, iff_of_false Bool.false_ne_true fun some => some rfl⟩
  · obtain ⟨ran, count⟩ := (Scanned.selected acceptable).answered
    refine ⟨_, ran, ?_⟩
    rw [← List.length_pos_iff, count, Bool.not_eq_true', List.isEmpty_eq_false_iff,
      List.length_pos_iff]

/-- **A batch.** Some pending requests are answered, each once, and the others stay
pending; the batch reports progress exactly when it answers one. -/
theorem runOneBatch_answered (engine : DeterministicEngine) :
    ∃ answered, Answered engine engine.runOneBatch.2 answered ∧
      (engine.runOneBatch.1 = true ↔ answered ≠ []) := by
  obtain ⟨rejected, remaining, new, after, split, responses, flag, acceptable⟩ :=
    rejectFrom_spec (List.nil_append engine.pending).symm
  rw [List.nil_append] at after
  obtain ⟨answered, ran, progress⟩ := @runSelected_answered { engine with
    pending := remaining, results := engine.results ++ new } acceptable
  obtain ⟨more, appended, responded⟩ := ran.results
  refine ⟨rejected ++ answered, ?_, ?_⟩
  · unfold runOneBatch rejectImpossibleReadyRequests
    dsimp only
    rw [after]
    refine ⟨ran.config, ?_, ⟨new ++ more, ?_, ?_⟩, ran.resultCache⟩
    · rw [List.append_assoc]
      exact split.trans (ran.pending.append_left rejected)
    · rw [appended, List.append_assoc]
    · exact List.rel_append responses (responded.imp fun _ _ response => response.unframe)
  · unfold runOneBatch rejectImpossibleReadyRequests
    dsimp only
    rw [after, Bool.or_eq_true, flag, progress, Ne, Ne, Ne, List.append_eq_nil_iff, not_and_or]

end DeterministicEngine
end InferSched.Engine

import InferSched.Engine.ResultCache
import InferSched.Library.AtomicObject
import InferSched.Library.Holdings
import InferSched.Library.Recency

/-! # Runs of the result cache

The result cache is a least recently used cache: after any calls it has the
`capacity` keys that were put or found last, each with the value that was last put
under it. A lookup that finds nothing is no use of its key.
-/

namespace InferSched.Engine.ResultCache

open Library Recency

/-- The operations of the cache. -/
inductive Call
  | put (key result : Text)
  | get (key : Text)
deriving DecidableEq, Repr

/-- What the operations return. -/
inductive Response
  | stored
  | found (result : Option Text)
deriving DecidableEq, Repr

/-- The cache as an object that is called. -/
def object : AtomicObject ResultCache Call Response where
  respond call cache :=
    match call with
    | .put key result => (.stored, cache.put key result)
    | .get key =>
        let answer := cache.get key
        (.found answer.1, answer.2)

/-! ### What a history says -/

/-- The key that a call used, by putting it or finding it. -/
def used : Call × Response → Option Text
  | (.put key _, _) => some key
  | (.get key, .found (some _)) => some key
  | _ => none

/-- The keys that a history has used. -/
def uses (past : List (Call × Response)) : List Text :=
  past.filterMap used

/-- The value that a call put under a key. -/
def stored (key : Text) : Call × Response → Option Text
  | (.put other result, _) => if other = key then some result else none
  | _ => none

/-- The value last put under a key. -/
def lastPut (past : List (Call × Response)) (key : Text) : Option Text :=
  (past.filterMap (stored key)).getLast?

/-- A lookup that returned a value. -/
def isHit : Call × Response → Bool
  | (.get _, .found (some _)) => true
  | _ => false

/-- A lookup that returned none. -/
def isMiss : Call × Response → Bool
  | (.get _, .found none) => true
  | _ => false

variable {past : List (Call × Response)} {cache : ResultCache}

theorem uses_snoc (past : List (Call × Response)) (event : Call × Response) :
    uses (past ++ [event]) = uses past ++ (used event).toList := by
  rw [uses, List.filterMap_append, uses]
  cases event with
  | mk call response =>
      cases kept : used (call, response) with
      | none => rw [List.filterMap_cons_none kept]; rfl
      | some key => rw [List.filterMap_cons_some kept]; rfl

/-- A put decides what its key has from then on. -/
theorem lastPut_snoc_put (past : List (Call × Response)) (key result other : Text)
    (response : Response) : lastPut (past ++ [(.put key result, response)]) other =
      if key = other then some result else lastPut past other := by
  rw [lastPut, List.filterMap_append]
  by_cases same : key = other
  · rw [if_pos same, List.filterMap_cons_some (by exact if_pos same), List.filterMap_nil,
      List.getLast?_concat]
  · rw [if_neg same, List.filterMap_cons_none (by exact if_neg same), List.filterMap_nil,
      List.append_nil]
    rfl

/-- A lookup changes no value. -/
theorem lastPut_snoc_get (past : List (Call × Response)) (key other : Text)
    (response : Response) :
    lastPut (past ++ [(.get key, response)]) other = lastPut past other := by
  rw [lastPut, List.filterMap_append, List.filterMap_cons_none (by rfl), List.filterMap_nil,
    List.append_nil]
  rfl

/-! ### The cache after a history -/

/-- The cache has the keys used last, as many as fit, with the values last put, and has
counted the lookups. -/
structure Follows (past : List (Call × Response)) (cache : ResultCache) : Prop where
  positive : 0 < cache.capacity
  recency : cache.recency = (byRecency (uses past)).take cache.capacity
  keys : ∀ key, key ∈ cache.recency ↔ key ∈ cache.entries
  values : ∀ key result, cache.entries.lookup key = some result → lastPut past key = some result
  hits : cache.hits = past.countP isHit
  misses : cache.misses = past.countP isMiss

/-- No key is twice in the order of use. -/
theorem Follows.distinct (follows : cache.Follows past) : cache.recency.Nodup := by
  rw [follows.recency]
  exact (byRecency_nodup _).sublist (List.take_sublist _ _)

theorem Follows.length (follows : cache.Follows past) :
    cache.entries.entries.length = cache.recency.length :=
  AList.length_entries follows.distinct follows.keys

/-- Moving a key that is there to the front is a use of it. -/
theorem Follows.touch (follows : cache.Follows past) {key : Text} (known : key ∈ cache.entries)
    (event : Call × Response) (isUse : used event = some key) :
    (cache.touch key).recency = (byRecency (uses (past ++ [event]))).take cache.capacity ∧
      ∀ other, other ∈ (cache.touch key).recency ↔ other ∈ cache.entries := by
  have listed := (follows.keys key).mpr known
  constructor
  · rw [uses_snoc, isUse, Option.toList_some, ← use_take follows.positive, ← follows.recency,
      use_of_mem listed]
    rfl
  · intro other
    rw [← follows.keys other]
    exact (List.perm_cons_erase listed).mem_iff.symm

/-- An eviction from a cache that is not empty takes the key used longest ago out of the
list and out of the table. -/
theorem Follows.evict (follows : cache.Follows past) (filled : cache.recency ≠ []) :
    cache.evict = { cache with
      entries := cache.entries.erase (cache.recency.getLast filled)
      recency := cache.recency.dropLast } ∧
    ∀ other, other ∈ cache.recency.dropLast ↔
      other ∈ cache.entries.erase (cache.recency.getLast filled) := by
  constructor
  · rw [ResultCache.evict, List.getLast?_eq_some_getLast filled]
  · intro other
    have apart := follows.distinct
    rw [← List.dropLast_concat_getLast filled, List.nodup_append] at apart
    rw [AList.mem_erase, ← follows.keys other]
    constructor
    · intro kept
      exact ⟨apart.2.2 other kept _ (List.mem_singleton_self _), List.dropLast_subset _ kept⟩
    · rintro ⟨different, member⟩
      rw [← List.dropLast_concat_getLast filled, List.mem_append, List.mem_singleton] at member
      exact member.resolve_right different

/-- What is left of the cache once there is room for a new key. -/
theorem Follows.makeRoom (follows : cache.Follows past) {key : Text}
    (fresh : key ∉ cache.entries) {kept : ResultCache}
    (room : kept = if cache.entries.entries.length = cache.capacity then cache.evict else cache) :
    key :: kept.recency = use cache.capacity key cache.recency ∧
    (∀ other, other ∈ kept.recency ↔ other ∈ kept.entries) ∧
    (∀ other result, kept.entries.lookup other = some result →
      cache.entries.lookup other = some result) ∧
    kept.capacity = cache.capacity ∧ kept.hits = cache.hits ∧ kept.misses = cache.misses := by
  have unlisted : key ∉ cache.recency := fun listed => fresh ((follows.keys key).mp listed)
  rw [use, if_neg unlisted]
  rw [follows.length] at room
  by_cases full : cache.recency.length = cache.capacity
  · rw [if_pos full] at room
    have filled : cache.recency ≠ [] :=
      List.ne_nil_of_length_pos (full.symm ▸ follows.positive)
    obtain ⟨evicted, same⟩ := follows.evict filled
    rw [evicted] at room
    subst room
    refine ⟨by rw [if_pos full], same, ?_, rfl, rfl, rfl⟩
    intro other result found
    by_cases dropped : other = cache.recency.getLast filled
    · rw [dropped, AList.lookup_erase] at found
      cases found
    · rwa [AList.lookup_erase_ne dropped] at found
  · rw [if_neg full] at room
    subst room
    exact ⟨by rw [if_neg full], follows.keys, fun _ _ found => found, rfl, rfl, rfl⟩

/-- What is found after an insertion is the new value or was there before. -/
theorem Follows.insert (follows : cache.Follows past) {entries : AList fun _ : Text => Text}
    {key result : Text} {response : Response}
    (older : ∀ other value, entries.lookup other = some value →
      cache.entries.lookup other = some value)
    (other value : Text) (found : (entries.insert key result).lookup other = some value) :
    lastPut (past ++ [(.put key result, response)]) other = some value := by
  rw [lastPut_snoc_put]
  by_cases same : other = key
  · subst same
    rw [AList.lookup_insert] at found
    rwa [if_pos rfl]
  · rw [AList.lookup_insert_ne same] at found
    rw [if_neg (Ne.symm same)]
    exact follows.values other value (older other value found)

/-- A put keeps the cache the one of its history. -/
theorem Follows.put (follows : cache.Follows past) (key result : Text) :
    (cache.put key result).Follows (past ++ [(.put key result, .stored)]) := by
  have hits : past.countP isHit =
      (past ++ [(Call.put key result, Response.stored)]).countP isHit := by
    rw [List.countP_append]
    rfl
  have misses : past.countP isMiss =
      (past ++ [(Call.put key result, Response.stored)]).countP isMiss := by
    rw [List.countP_append]
    rfl
  unfold ResultCache.put
  by_cases known : key ∈ cache.entries
  · rw [if_pos known]
    obtain ⟨front, members⟩ := follows.touch known (.put key result, .stored) rfl
    exact {
      positive := follows.positive
      recency := front
      keys := fun other => (members other).trans
        ⟨fun member => (AList.mem_insert _).mpr (.inr member),
          fun member => ((AList.mem_insert _).mp member).elim (fun same => same ▸ known) id⟩
      values := follows.insert fun _ _ found => found
      hits := follows.hits.trans hits
      misses := follows.misses.trans misses }
  · rw [if_neg known]
    obtain ⟨front, members, older, capacity, sameHits, sameMisses⟩ := follows.makeRoom known rfl
    generalize (if cache.entries.entries.length = cache.capacity then cache.evict else cache) =
      kept at front members older capacity sameHits sameMisses
    exact {
      positive := capacity ▸ follows.positive
      recency := by
        rw [uses_snoc]
        exact front.trans (by
          rw [follows.recency, use_take follows.positive, capacity]
          rfl)
      keys := fun other => by
        rw [AList.mem_insert, List.mem_cons, members other]
      values := follows.insert older
      hits := sameHits.trans (follows.hits.trans hits)
      misses := sameMisses.trans (follows.misses.trans misses) }

/-- A lookup keeps the cache the one of its history. -/
theorem Follows.get (follows : cache.Follows past) (key : Text) :
    (cache.get key).2.Follows (past ++ [(.get key, .found (cache.get key).1)]) := by
  have values : ∀ other value, cache.entries.lookup other = some value →
      ∀ response, lastPut (past ++ [(.get key, response)]) other = some value := by
    intro other value found response
    rw [lastPut_snoc_get]
    exact follows.values other value found
  rw [ResultCache.get]
  split
  · next missing =>
      exact {
        positive := follows.positive
        recency := by
          rw [uses_snoc]
          exact follows.recency.trans (congrArg (fun front => (byRecency front).take _)
            (List.append_nil (uses past)).symm)
        keys := follows.keys
        values := fun other value found => values other value found _
        hits := by
          rw [List.countP_append]
          exact follows.hits
        misses := by
          rw [List.countP_append]
          exact congrArg Nat.succ follows.misses }
  · next result found =>
      have known : key ∈ cache.entries := AList.lookup_isSome.mp (by rw [found]; rfl)
      obtain ⟨front, members⟩ := follows.touch known (.get key, .found (some result)) rfl
      exact {
        positive := follows.positive
        recency := front
        keys := members
        values := fun other value found => values other value found _
        hits := by
          rw [List.countP_append]
          exact congrArg Nat.succ follows.hits
        misses := by
          rw [List.countP_append]
          exact follows.misses }

/-- The cache follows the calls and responses of any run. -/
theorem follows_run {capacity : ℕ} (positive : 0 < capacity) (calls : List Call) :
    (object.run calls { capacity }).Follows (object.history calls { capacity }) := by
  apply object.history_invariant
  · intro past call cache follows
    cases call with
    | put key result => exact follows.put key result
    | get key => exact follows.get key
  · exact {
      positive := positive
      recency := List.take_nil.symm
      keys := fun _ => by simp
      values := fun _ _ found => by cases found
      hits := rfl
      misses := rfl }

theorem capacity_evict (cache : ResultCache) : cache.evict.capacity = cache.capacity := by
  unfold evict
  split
  · rfl
  · rfl

theorem capacity_put (cache : ResultCache) (key result : Text) :
    (cache.put key result).capacity = cache.capacity := by
  unfold put
  split
  · rfl
  · split
    · exact cache.capacity_evict
    · rfl

theorem capacity_get (cache : ResultCache) (key : Text) :
    (cache.get key).2.capacity = cache.capacity := by
  unfold get
  split
  · rfl
  · rfl

/-- No call changes the capacity. -/
theorem capacity_run (calls : List Call) (cache : ResultCache) :
    (object.run calls cache).capacity = cache.capacity := by
  induction calls generalizing cache with
  | nil => rfl
  | cons call calls ih =>
      rw [AtomicObject.run_cons, ih]
      cases call with
      | put key result => exact cache.capacity_put key result
      | get key => exact cache.capacity_get key

/-- A lookup answers with the value last put under a listed key. -/
theorem Follows.answer (follows : cache.Follows past) (key : Text) :
    (cache.get key).1 =
      if key ∈ (byRecency (uses past)).take cache.capacity then lastPut past key else none := by
  rw [get_eq_lookup, ← follows.recency]
  by_cases listed : key ∈ cache.recency
  · rw [if_pos listed]
    obtain ⟨result, found⟩ :=
      Option.isSome_iff_exists.mp (AList.lookup_isSome.mpr ((follows.keys key).mp listed))
    rw [found, follows.values key result found]
  · rw [if_neg listed]
    exact AList.lookup_eq_none.mpr fun known => listed ((follows.keys key).mpr known)

/-- **Least recently used.** After any calls a lookup returns the value last put under its
key when the key is among the `capacity` keys used last, and nothing otherwise. The cache
has at most `capacity` entries, and its counters are the numbers of lookups that returned
a value and of lookups that returned none. -/
theorem get_run_of_new {capacity : ℕ} {cache : ResultCache}
    (created : new capacity = .ok cache) (calls : List Call) :
    (∀ key, ((object.run calls cache).get key).1 =
      if key ∈ (byRecency (uses (object.history calls cache))).take capacity then
        lastPut (object.history calls cache) key
      else none) ∧
    (object.run calls cache).entries.entries.length ≤ capacity ∧
    (object.run calls cache).hits = (object.history calls cache).countP isHit ∧
    (object.run calls cache).misses = (object.history calls cache).countP isMiss := by
  unfold new at created
  split at created
  · cases created
  · next positive =>
      cases created
      have follows := follows_run (Nat.pos_of_ne_zero positive) calls
      have same := capacity_run calls { capacity }
      refine ⟨fun key => ?_, ?_, follows.hits, follows.misses⟩
      · exact (follows.answer key).trans (by rw [same])
      · rw [follows.length, follows.recency, same]
        exact List.length_take_le _ _

/-- A cache of two, in which a lookup keeps the older key. -/
theorem get_run_of_new_two :
    let calls := [Call.put ['a'] ['1'], .put ['b'] ['2'], .get ['a'], .put ['c'] ['3']]
    ((object.run calls { capacity := 2 }).get ['a']).1 = some ['1'] ∧
      ((object.run calls { capacity := 2 }).get ['b']).1 = none := by
  intro calls
  have created : new 2 = .ok { capacity := 2 } := rfl
  obtain ⟨answers, -⟩ := get_run_of_new created calls
  exact ⟨(answers ['a']).trans (by decide), (answers ['b']).trans (by decide)⟩

end InferSched.Engine.ResultCache

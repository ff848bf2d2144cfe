import Mathlib.Data.List.AList
import InferSched.Basic

/-! # The result cache

`ResultCache` (`result_cache.cpp`): finished outputs by result key, with the keys
in order of their last use, the most recent at the front.
-/

namespace InferSched.Engine

/-- Outputs by key, in the order of their last use, with hits and misses counted. -/
structure ResultCache where
  capacity : ℕ
  recency : List Text := []
  entries : AList fun _ : Text => Text := ∅
  hits : ℕ := 0
  misses : ℕ := 0

namespace ResultCache

/-- The constructor, with the message of the exception it throws. -/
def new (capacity : ℕ) : Except Text ResultCache :=
  if capacity = 0 then .error "result cache capacity must be positive".toList
  else .ok { capacity }

/-- Move a key to the front. -/
def touch (cache : ResultCache) (key : Text) : ResultCache :=
  { cache with recency := key :: cache.recency.erase key }

/-- Drop the key used longest ago. -/
def evict (cache : ResultCache) : ResultCache :=
  match cache.recency.getLast? with
  | none => cache
  | some oldest =>
      { cache with
        entries := cache.entries.erase oldest
        recency := cache.recency.dropLast }

/-- Store an output. A full cache drops the key used longest ago for a new one. -/
def put (cache : ResultCache) (key result : Text) : ResultCache :=
  if key ∈ cache.entries then
    { cache with entries := cache.entries.insert key result }.touch key
  else
    let cache := if cache.entries.entries.length = cache.capacity then cache.evict else cache
    { cache with
      recency := key :: cache.recency
      entries := cache.entries.insert key result }

/-- Look an output up and make it the most recently used. -/
def get (cache : ResultCache) (key : Text) : Option Text × ResultCache :=
  match cache.entries.lookup key with
  | none => (none, { cache with misses := cache.misses + 1 })
  | some result => (some result, { cache with hits := cache.hits + 1 }.touch key)

/-- What a lookup finds does not depend on the order of use. -/
theorem get_eq_lookup (cache : ResultCache) (key : Text) :
    (cache.get key).1 = cache.entries.lookup key := by
  unfold get
  split
  · next missing => exact missing.symm
  · next found => exact found.symm

/-- A lookup moves an entry and changes none. -/
@[simp] theorem entries_get (cache : ResultCache) (key : Text) :
    (cache.get key).2.entries = cache.entries := by
  unfold get
  split
  · rfl
  · rfl

end ResultCache
end InferSched.Engine

import InferSched.Basic
import InferSched.Library.Transition
import Mathlib.Data.List.AList

/-! # The sharded registry

`ShardedRegistry` (`sharded_registry.hpp`) spreads its keys over shards by their hash. Each
call on a key holds the lock of one shard, so it is one step. `size` locks one shard after
the other, and the calls of other threads come between. For any hash and any number of
shards the replies are those of one map (`registry_replies`), and `size` returns the number
of a set of keys that leaves out none that was there all along and has none that
was never there (`registry_size`).
-/

namespace InferSched.Concurrency

open Library

variable {ν : Type*}

/-- The constructor throws when there is no shard. -/
structure ShardedRegistry (ν : Type*) where
  shards : List (AList fun _ : Text => ν)
  positive : 0 < shards.length

namespace ShardedRegistry

def new (shardCount : ℕ) : Except String (ShardedRegistry ν) :=
  if isZero : shardCount = 0 then .error "registry shard count must be positive"
  else
    .ok
      { shards := List.replicate shardCount ∅
        positive := by rw [List.length_replicate]; exact Nat.pos_of_ne_zero isZero }

variable (hash : Text → ℕ)

/-- The index of the shard of a key. -/
def shardFor (registry : ShardedRegistry ν) (key : Text) : Fin registry.shards.length :=
  ⟨hash key % registry.shards.length, Nat.mod_lt _ registry.positive⟩

/-- The registry with another value of the shard of a key. -/
def setShard (registry : ShardedRegistry ν) (key : Text) (shard : AList fun _ : Text => ν) :
    ShardedRegistry ν where
  shards := registry.shards.set (registry.shardFor hash key) shard
  positive := by rw [List.length_set]; exact registry.positive

def shard (registry : ShardedRegistry ν) (key : Text) : AList fun _ : Text => ν :=
  registry.shards.get (registry.shardFor hash key)

def upsert (registry : ShardedRegistry ν) (key : Text) (value : ν) : ShardedRegistry ν :=
  registry.setShard hash key ((registry.shard hash key).insert key value)

def get (registry : ShardedRegistry ν) (key : Text) : Option ν :=
  (registry.shard hash key).lookup key

/-- The reply says whether the key was there. -/
def erase (registry : ShardedRegistry ν) (key : Text) : Bool × ShardedRegistry ν :=
  (((registry.shard hash key).lookup key).isSome,
    registry.setShard hash key ((registry.shard hash key).erase key))

/-! ### One map -/

@[simp] theorem length_setShard (registry : ShardedRegistry ν) (key : Text)
    (shard : AList fun _ : Text => ν) :
    (registry.setShard hash key shard).shards.length = registry.shards.length :=
  List.length_set

/-- Every shard holds keys of its own. -/
def Routed (registry : ShardedRegistry ν) : Prop :=
  ∀ index shard, registry.shards[index]? = some shard → ∀ key ∈ shard,
    hash key % registry.shards.length = index

variable {hash}

theorem shards_shardFor (registry : ShardedRegistry ν) (key : Text) :
    registry.shards[hash key % registry.shards.length]? = some (registry.shard hash key) :=
  List.getElem?_eq_getElem (registry.shardFor hash key).isLt

theorem mem_shard {registry : ShardedRegistry ν} {key : Text} :
    key ∈ registry.shard hash key ↔ (registry.get hash key).isSome = true :=
  AList.lookup_isSome.symm

theorem shard_setShard (registry : ShardedRegistry ν) (key other : Text)
    (shard : AList fun _ : Text => ν) : (registry.setShard hash key shard).shard hash other =
      if hash other % registry.shards.length = hash key % registry.shards.length then shard
      else registry.shard hash other := by
  have found := @shards_shardFor _ hash (registry.setShard hash key shard) other
  rw [length_setShard] at found
  change (registry.shards.set (hash key % registry.shards.length) shard)[_]? = _ at found
  have inRange : hash key % registry.shards.length < registry.shards.length :=
    Nat.mod_lt _ registry.positive
  by_cases same : hash other % registry.shards.length = hash key % registry.shards.length
  · rw [same, List.getElem?_set_self inRange] at found
    rw [if_pos same]
    exact (Option.some.inj found).symm
  · rw [List.getElem?_set_ne (Ne.symm same), shards_shardFor] at found
    rw [if_neg same]
    exact (Option.some.inj found).symm

/-- Two keys with one index have one shard. -/
theorem shard_eq_of_together {registry : ShardedRegistry ν} {key other : Text}
    (together : hash other % registry.shards.length = hash key % registry.shards.length) :
    registry.shard hash key = registry.shard hash other := by
  have found := @shards_shardFor _ hash registry other
  rw [together, shards_shardFor] at found
  exact Option.some.inj found

/-- A value is stored under its key only. -/
theorem get_upsert (registry : ShardedRegistry ν) (key other : Text) (value : ν) :
    (registry.upsert hash key value).get hash other =
      if other = key then some value else registry.get hash other := by
  unfold get upsert
  rw [shard_setShard]
  by_cases same : other = key
  · subst same
    rw [if_pos rfl, if_pos rfl, AList.lookup_insert]
  · rw [if_neg same]
    split
    · next together =>
        rw [AList.lookup_insert_ne same]
        rw [shard_eq_of_together together]
    · rfl

/-- No other key is erased. -/
theorem get_erase (registry : ShardedRegistry ν) (key other : Text) :
    (registry.erase hash key).2.get hash other =
      if other = key then none else registry.get hash other := by
  unfold get erase
  rw [shard_setShard]
  by_cases same : other = key
  · subst same
    rw [if_pos rfl, if_pos rfl, AList.lookup_erase]
  · rw [if_neg same]
    split
    · next together =>
        rw [AList.lookup_erase_ne same]
        rw [shard_eq_of_together together]
    · rfl

/-- A write to the shard of a key keeps every key in its shard. -/
theorem Routed.setShard {registry : ShardedRegistry ν} (routed : registry.Routed hash)
    {key : Text} {shard : AList fun _ : Text => ν}
    (own : ∀ other ∈ shard, other = key ∨ other ∈ registry.shard hash key) :
    (registry.setShard hash key shard).Routed hash := by
  intro index found isFound other member
  rw [length_setShard]
  change (registry.shards.set (hash key % registry.shards.length) shard)[index]? = _ at isFound
  by_cases same : index = hash key % registry.shards.length
  · subst same
    rw [List.getElem?_set_self (Nat.mod_lt _ registry.positive)] at isFound
    cases isFound
    rcases own other member with rfl | known
    · rfl
    · exact routed _ _ (shards_shardFor registry key) other known
  · rw [List.getElem?_set_ne (Ne.symm same)] at isFound
    exact routed index found isFound other member

theorem Routed.upsert {registry : ShardedRegistry ν} (routed : registry.Routed hash)
    (key : Text) (value : ν) : (registry.upsert hash key value).Routed hash :=
  routed.setShard fun _ member => (AList.mem_insert _).mp member

theorem Routed.erase {registry : ShardedRegistry ν} (routed : registry.Routed hash)
    (key : Text) : (registry.erase hash key).2.Routed hash :=
  routed.setShard fun _ member => Or.inr (AList.mem_erase.mp member).2

theorem shards_of_new {shardCount : ℕ} {registry : ShardedRegistry ν}
    (made : new shardCount = .ok registry) : registry.shards = List.replicate shardCount ∅ := by
  unfold new at made
  split at made
  · cases made
  · cases made
    rfl

/-- A new registry has no keys. -/
theorem new_empty {shardCount : ℕ} {registry : ShardedRegistry ν}
    (made : new shardCount = .ok registry) :
    registry.Routed hash ∧ registry.get hash = fun _ => none := by
  have empty : ∀ (index : ℕ) (shard : AList fun _ : Text => ν),
      registry.shards[index]? = some shard → shard = ∅ := by
    intro index shard found
    rw [shards_of_new made] at found
    exact List.eq_of_mem_replicate (List.mem_of_getElem? found)
  constructor
  · intro index shard found key member
    rw [empty index shard found] at member
    exact absurd member (AList.notMem_empty key)
  · funext key
    unfold get
    rw [empty _ _ (shards_shardFor registry key)]
    rfl

end ShardedRegistry

/-! ### Calls of many threads -/

/-- A call on a key with its reply, and a step of `size`. -/
inductive Access (ν : Type*)
  | upsert (key : Text) (value : ν)
  | get (key : Text) (answer : Option ν)
  | erase (key : Text) (removed : Bool)
  | count
deriving DecidableEq

/-- The registry with a call of `size`: the next shard it reads and its total so far. -/
structure Sizing (ν : Type*) where
  registry : ShardedRegistry ν
  index : ℕ := 0
  total : ℕ := 0

/-- The steps of all threads. Other calls of `size` change nothing and are left out. -/
inductive Sizing.Step (hash : Text → ℕ) (sizing : Sizing ν) : Access ν → Sizing ν → Prop
  | upsert (key : Text) (value : ν) :
      Step hash sizing (.upsert key value)
        { sizing with registry := sizing.registry.upsert hash key value }
  | get (key : Text) :
      Step hash sizing (.get key (sizing.registry.get hash key)) sizing
  | erase (key : Text) :
      Step hash sizing (.erase key (sizing.registry.erase hash key).1)
        { sizing with registry := (sizing.registry.erase hash key).2 }
  | count {shard : AList fun _ : Text => ν}
      (found : sizing.registry.shards[sizing.index]? = some shard) :
      Step hash sizing .count
        { sizing with index := sizing.index + 1, total := sizing.total + shard.entries.length }

/-- The map that the calls on keys describe. -/
def Access.apply (contents : Text → Option ν) : Access ν → Text → Option ν
  | .upsert key value => Function.update contents key (some value)
  | .erase key _ => Function.update contents key none
  | _ => contents

def contents (past : List (Access ν)) : Text → Option ν :=
  past.foldl Access.apply fun _ => none

/-- The reply is that of a map. -/
def Access.Agrees (contents : Text → Option ν) : Access ν → Prop
  | .get key answer => answer = contents key
  | .erase key removed => removed = (contents key).isSome
  | _ => True

/-- **One step is a step of one map.** -/
theorem Sizing.Step.agrees {hash : Text → ℕ} {sizing next : Sizing ν} {access : Access ν}
    (step : Sizing.Step hash sizing access next) :
    access.Agrees (sizing.registry.get hash) ∧
      next.registry.get hash = access.apply (sizing.registry.get hash) := by
  cases step with
  | upsert key value =>
      refine ⟨trivial, funext fun other => ?_⟩
      simp [Access.apply, ShardedRegistry.get_upsert, Function.update_apply]
  | get key => exact ⟨rfl, rfl⟩
  | erase key =>
      refine ⟨rfl, funext fun other => ?_⟩
      simp [Access.apply, ShardedRegistry.get_erase, Function.update_apply]
  | count found => exact ⟨trivial, rfl⟩

theorem Sizing.Step.routed {hash : Text → ℕ} {sizing next : Sizing ν} {access : Access ν}
    (step : Sizing.Step hash sizing access next) (routed : sizing.registry.Routed hash) :
    next.registry.Routed hash ∧
      next.registry.shards.length = sizing.registry.shards.length := by
  cases step with
  | upsert key value => exact ⟨routed.upsert key value, ShardedRegistry.length_setShard _ _ _ _⟩
  | get key => exact ⟨routed, rfl⟩
  | erase key => exact ⟨routed.erase key, ShardedRegistry.length_setShard _ _ _ _⟩
  | count found => exact ⟨routed, rfl⟩

theorem Sizing.Step.routed_of_trace {hash : Text → ℕ} {start final : Sizing ν}
    {past : List (Access ν)} (trace : Trace (Sizing.Step hash) start past final)
    (routed : start.registry.Routed hash) : final.registry.Routed hash := by
  induction trace with
  | nil => exact routed
  | snoc _ last ih => exact (last.routed ih).1

/-- **The replies are those of one map.** For any hash, any number of shards and any order of
the calls of many threads, each reply is the one that the earlier calls on that key give. -/
theorem registry_replies {hash : Text → ℕ} {shardCount : ℕ} {registry : ShardedRegistry ν}
    (made : ShardedRegistry.new shardCount = .ok registry) {past later : List (Access ν)}
    {access : Access ν} {final : Sizing ν}
    (trace : Trace (Sizing.Step hash) ⟨registry, 0, 0⟩ (past ++ access :: later) final) :
    access.Agrees (contents past) := by
  have follows : ∀ {past : List (Access ν)} {middle : Sizing ν},
      Trace (Sizing.Step hash) ⟨registry, 0, 0⟩ past middle →
        middle.registry.get hash = contents past := by
    intro past middle trace
    induction trace with
    | nil => exact (ShardedRegistry.new_empty made).2
    | snoc _ last ih => rw [last.agrees.2, ih, contents, contents, List.foldl_concat]
  obtain ⟨before, _, earlier, step, _⟩ := trace.step_at
  exact follows earlier ▸ step.agrees.1

/-- Two keys of the one shard and a key of the other. An erased key is not found, and the other
key of its shard still is. -/
theorem registry_replies_shards : ∃ (registry : ShardedRegistry ℕ) (past : List (Access ℕ))
    (final : Sizing ℕ), ShardedRegistry.new 2 = .ok registry ∧
      Trace (Sizing.Step List.length) ⟨registry, 0, 0⟩ past final ∧
      past = [.upsert ['a'] 7, .upsert ['b'] 8, .upsert ['c', 'c'] 9, .erase ['a'] true,
        .get ['a'] none, .get ['b'] (some 8), .get ['c', 'c'] (some 9)] ∧
      final.registry.shards.map (fun shard => shard.keys) = [[['c', 'c']], [['b']]] ∧
      ∀ before access later, past = before ++ access :: later →
        access.Agrees (contents before) := by
  have stored := ((Trace.single (@Sizing.Step.upsert ℕ List.length ⟨⟨[∅, ∅], by decide⟩, 0, 0⟩
    ['a'] 7)).snoc (.upsert ['b'] 8)).snoc (.upsert ['c', 'c'] 9)
  have read := (((stored.snoc (.erase ['a'])).snoc (.get ['a'])).snoc (.get ['b'])).snoc
    (.get ['c', 'c'])
  refine ⟨_, _, _, rfl, read, rfl, rfl, ?_⟩
  intro before access later isPast
  exact registry_replies (show ShardedRegistry.new 2 = .ok _ from rfl) (isPast ▸ read)

/-! ### The size -/

/-- What a call of `size` has counted: the keys of the shards before its index. -/
structure Counting (hash : Text → ℕ) (start : ShardedRegistry ν) (past : List (Access ν))
    (sizing : Sizing ν) (counted : List Text) : Prop where
  routed : sizing.registry.Routed hash
  length : sizing.registry.shards.length = start.shards.length
  distinct : counted.Nodup
  total : counted.length = sizing.total
  read : ∀ key ∈ counted, hash key % start.shards.length < sizing.index
  stayed : ∀ key, (start.get hash key).isSome = true →
    (∀ removed, .erase key removed ∉ past) → (sizing.registry.get hash key).isSome = true
  whole : ∀ key, (start.get hash key).isSome = true → (∀ removed, .erase key removed ∉ past) →
    hash key % start.shards.length < sizing.index → key ∈ counted
  origin : ∀ key, (sizing.registry.get hash key).isSome = true →
    (start.get hash key).isSome = true ∨ ∃ value, .upsert key value ∈ past
  sound : ∀ key ∈ counted,
    (start.get hash key).isSome = true ∨ ∃ value, .upsert key value ∈ past

namespace Counting

variable {hash : Text → ℕ} {start : ShardedRegistry ν} {past : List (Access ν)}
  {sizing next : Sizing ν} {counted : List Text} {access : Access ν}

/-- Before the first shard nothing is counted. -/
theorem start_zero (routed : start.Routed hash) : Counting hash start [] ⟨start, 0, 0⟩ [] where
  routed := routed
  length := rfl
  distinct := List.nodup_nil
  total := rfl
  read _ member := absurd member List.not_mem_nil
  stayed _ present _ := present
  whole _ _ _ before := absurd before (Nat.not_lt_zero _)
  origin _ present := Or.inl present
  sound _ member := absurd member List.not_mem_nil

theorem origin_snoc {key : Text}
    (origin : (start.get hash key).isSome = true ∨ ∃ value, .upsert key value ∈ past)
    (access : Access ν) : (start.get hash key).isSome = true ∨
      ∃ value, .upsert key value ∈ past ++ [access] :=
  origin.imp_right fun ⟨value, earlier⟩ => ⟨value, List.mem_append_left _ earlier⟩

/-- A call on a key between two shards. -/
theorem interrupted (counting : Counting hash start past sizing counted)
    (step : Sizing.Step hash sizing access next)
    (same : next.index = sizing.index ∧ next.total = sizing.total) :
    Counting hash start (past ++ [access]) next counted := by
  obtain ⟨_, applied⟩ := step.agrees
  obtain ⟨routed, length⟩ := step.routed counting.routed
  refine ⟨routed, length.trans counting.length, counting.distinct, ?_, ?_, ?_, ?_, ?_, ?_⟩
  · rw [counting.total, same.2]
  · exact fun key member => same.1 ▸ counting.read key member
  · intro key present kept
    have before := counting.stayed key present fun removed earlier =>
      kept removed (List.mem_append_left _ earlier)
    rw [applied]
    cases access with
    | upsert other value =>
        by_cases isKey : key = other
        · simp [Access.apply, isKey]
        · simpa [Access.apply, isKey] using before
    | erase other removed =>
        have isKey : key ≠ other := fun isKey =>
          kept removed (List.mem_append_right _ (by simp [isKey]))
        simpa [Access.apply, isKey] using before
    | get other answer => exact before
    | count => exact before
  · intro key present kept before
    rw [same.1] at before
    exact counting.whole key present
      (fun removed earlier => kept removed (List.mem_append_left _ earlier)) before
  · intro key present
    rw [applied] at present
    cases access with
    | upsert other value =>
        by_cases isKey : key = other
        · exact Or.inr ⟨value, List.mem_append_right _ (by simp [isKey])⟩
        · refine origin_snoc (counting.origin key ?_) _
          simpa [Access.apply, isKey] using present
    | erase other removed =>
        by_cases isKey : key = other
        · simp [Access.apply, isKey] at present
        · refine origin_snoc (counting.origin key ?_) _
          simpa [Access.apply, isKey] using present
    | get other answer => exact origin_snoc (counting.origin key present) _
    | count => exact origin_snoc (counting.origin key present) _
  · exact fun key member => origin_snoc (counting.sound key member) _

/-- The next shard is counted. -/
theorem counts (counting : Counting hash start past sizing counted)
    {shard : AList fun _ : Text => ν}
    (found : sizing.registry.shards[sizing.index]? = some shard) :
    Counting hash start (past ++ [.count])
      { sizing with index := sizing.index + 1, total := sizing.total + shard.entries.length }
      (counted ++ shard.keys) := by
  have placed : ∀ key ∈ shard.keys, hash key % start.shards.length = sizing.index :=
    fun key member => counting.length ▸ counting.routed _ _ found key member
  have isShard : ∀ key, hash key % start.shards.length = sizing.index →
      sizing.registry.shard hash key = shard := by
    intro key isIndex
    have own := @ShardedRegistry.shards_shardFor _ hash sizing.registry key
    rw [counting.length, isIndex, found] at own
    exact (Option.some.inj own).symm
  have unerased : ∀ {key : Text}, (∀ removed, .erase key removed ∉ past ++ [Access.count]) →
      ∀ removed, (.erase key removed : Access ν) ∉ past :=
    fun kept removed earlier => kept removed (List.mem_append_left _ earlier)
  refine ⟨counting.routed, counting.length, ?_, ?_, ?_, ?_, ?_, ?_, ?_⟩
  · refine List.nodup_append'.mpr ⟨counting.distinct, shard.keys_nodup, ?_⟩
    intro key inCounted inShard
    exact absurd (counting.read key inCounted) (Nat.not_lt.mpr (placed key inShard).ge)
  · rw [List.length_append, counting.total, AList.keys, List.keys, List.length_map]
  · intro key member
    rcases List.mem_append.mp member with earlier | inShard
    · exact Nat.lt_succ_of_lt (counting.read key earlier)
    · exact Nat.lt_succ_of_le (placed key inShard).le
  · exact fun key present kept => counting.stayed key present (unerased kept)
  · intro key present kept before
    rcases Nat.lt_succ_iff_lt_or_eq.mp before with earlier | isIndex
    · exact List.mem_append_left _ (counting.whole key present (unerased kept) earlier)
    · have held := counting.stayed key present (unerased kept)
      rw [← ShardedRegistry.mem_shard, isShard key isIndex] at held
      exact List.mem_append_right _ held
  · exact fun key present => origin_snoc (counting.origin key present) _
  · intro key member
    rcases List.mem_append.mp member with earlier | inShard
    · exact origin_snoc (counting.sound key earlier) _
    · refine origin_snoc (counting.origin key ?_) _
      rw [← ShardedRegistry.mem_shard, isShard key (placed key inShard)]
      exact inShard

theorem step (counting : Counting hash start past sizing counted)
    (step : Sizing.Step hash sizing access next) :
    ∃ counted, Counting hash start (past ++ [access]) next counted := by
  cases step with
  | count found => exact ⟨_, counting.counts found⟩
  | upsert key value => exact ⟨_, counting.interrupted (.upsert key value) ⟨rfl, rfl⟩⟩
  | get key => exact ⟨_, counting.interrupted (.get key) ⟨rfl, rfl⟩⟩
  | erase key => exact ⟨_, counting.interrupted (.erase key) ⟨rfl, rfl⟩⟩

theorem of_trace (routed : start.Routed hash)
    (trace : Trace (Sizing.Step hash) ⟨start, 0, 0⟩ past sizing) :
    ∃ counted, Counting hash start past sizing counted := by
  induction trace with
  | nil => exact ⟨[], start_zero routed⟩
  | snoc _ last ih =>
      obtain ⟨_, counting⟩ := ih
      exact counting.step last

end Counting

/-- **The size under concurrent calls.** Take any registry that calls can reach. Whatever other
threads do while `size` goes from shard to shard, it returns the number of a set of keys:
each key that was there when it began and is not erased meanwhile is among them, and each of
them was there when it began or is stored meanwhile. -/
theorem registry_size {hash : Text → ℕ} {shardCount : ℕ} {registry : ShardedRegistry ν}
    (made : ShardedRegistry.new shardCount = .ok registry) {before during : List (Access ν)}
    {start final : Sizing ν} (reached : Trace (Sizing.Step hash) ⟨registry, 0, 0⟩ before start)
    (trace : Trace (Sizing.Step hash) ⟨start.registry, 0, 0⟩ during final)
    (complete : final.index = final.registry.shards.length) :
    ∃ counted : List Text, counted.Nodup ∧ counted.length = final.total ∧
      (∀ key, (start.registry.get hash key).isSome = true →
        (∀ removed, .erase key removed ∉ during) → key ∈ counted) ∧
      ∀ key ∈ counted, (start.registry.get hash key).isSome = true ∨
        ∃ value, .upsert key value ∈ during := by
  have routed : start.registry.Routed hash :=
    Sizing.Step.routed_of_trace reached (ShardedRegistry.new_empty made).1
  obtain ⟨counted, counting⟩ := Counting.of_trace routed trace
  refine ⟨counted, counting.distinct, counting.total, ?_, counting.sound⟩
  intro key present kept
  refine counting.whole key present kept ?_
  rw [complete, counting.length]
  exact Nat.mod_lt _ start.registry.positive

/-- A registry of two shards with the key `a`. -/
def oneKey : ShardedRegistry ℕ :=
  ShardedRegistry.upsert List.length ⟨[∅, ∅], by decide⟩ ['a'] 7

theorem oneKey_stored : Trace (Sizing.Step List.length) ⟨⟨[∅, ∅], by decide⟩, 0, 0⟩
    [.upsert ['a'] 7] ⟨oneKey, 0, 0⟩ :=
  .single (.upsert ['a'] 7)

/-- `size` reads the first shard, another thread stores a key in it, and `size` reads the
second shard. It misses the new key only. -/
theorem registry_size_oneKey : ∃ counted : List Text, counted.length = 1 ∧ ['a'] ∈ counted := by
  have first := Trace.single (@Sizing.Step.count _ List.length ⟨oneKey, 0, 0⟩ _ rfl)
  have stored := first.snoc (.upsert ['b', 'b'] 8)
  have second := stored.snoc (.count rfl)
  obtain ⟨counted, _, length, whole, _⟩ :=
    registry_size (show ShardedRegistry.new 2 = .ok _ from rfl) oneKey_stored second rfl
  refine ⟨counted, length, whole ['a'] rfl ?_⟩
  intro removed erased
  simp at erased

end InferSched.Concurrency

import InferSched.Engine.EngineRuns
import InferSched.Library.Traversal

/-! # Access stamps

Every use of a radix node stamps it with a new value of the access clock, so no two nodes
have the same stamp, and no stamp is in the future (`RadixPrefixCache.Stamped`).
`EvictOldest` walks through nested hash maps in an order the standard leaves open and takes
the leaf with the least stamp. Since the stamps differ, it takes the same leaf in every
order.
-/

namespace InferSched.Engine

open Library

/-! ### Stamps and the clock -/

/-- Stamps that differ and are not in the future. -/
structure Timely (stamps : Multiset ℕ) (clock : ℕ) : Prop where
  distinct : stamps.Nodup
  past : ∀ stamp ∈ stamps, stamp ≤ clock

namespace Timely

variable {stamps others : Multiset ℕ} {clock : ℕ}

/-- Fewer stamps under the same clock. -/
theorem of_le (timely : Timely stamps clock) (fewer : others ≤ stamps) : Timely others clock :=
  ⟨Multiset.nodup_of_le fewer timely.distinct,
    fun stamp member => timely.past stamp (Multiset.mem_of_le fewer member)⟩

/-- The clock ticks, and its new value is stamped. -/
theorem tick (timely : Timely stamps clock) : Timely ((clock + 1) ::ₘ stamps) (clock + 1) := by
  constructor
  · apply Multiset.nodup_cons.mpr
    refine ⟨?_, timely.distinct⟩
    intro member
    exact absurd (timely.past _ member) (Nat.not_succ_le_self clock)
  · intro stamp member
    rcases Multiset.mem_cons.mp member with rfl | old
    · exact le_rfl
    · exact Nat.le_succ_of_le (timely.past stamp old)

end Timely

namespace RadixPrefixCache

/-- The stamps of a forest. -/
def stamps (forest : RadixForest) : Multiset ℕ :=
  forest.values.map RadixNode.lastAccess

/-- The stamps of the nodes differ and are not in the future. -/
def Stamped (cache : RadixPrefixCache) : Prop :=
  Timely (cache.nodes.map RadixNode.lastAccess) cache.accessClock

/-- The stamps of a found node, of those below it and of the others. -/
theorem stamps_of_find {forest children : RadixForest} {hash : Text} {node : RadixNode}
    (found : forest.find? hash = some (node, children)) :
    stamps forest = node.lastAccess ::ₘ (stamps children + stamps (forest.erase hash)) := by
  unfold stamps
  rw [Trie.values_of_find found, Multiset.map_cons, Multiset.map_add]

/-- A touched node changes one stamp. -/
theorem stamps_set {forest children next : RadixForest} {hash : Text} {node : RadixNode}
    (found : forest.find? hash = some (node, children)) (stamp : ℕ) :
    stamps (forest.set hash { node with lastAccess := stamp } next) =
      stamp ::ₘ (stamps next + stamps (forest.erase hash)) := by
  unfold stamps
  rw [Trie.values_set found, Multiset.map_cons, Multiset.map_add]

/-- A node is stamped anew, and the path below it keeps the stamps timely. -/
theorem timely_below {forest children next : RadixForest} {hash : Text} {node : RadixNode}
    {others : Multiset ℕ} {clock later : ℕ}
    (found : forest.find? hash = some (node, children))
    (timely : Timely (stamps forest + others) clock)
    (below : ∀ rest, Timely (stamps children + rest) (clock + 1) →
      Timely (stamps next + rest) later) :
    Timely (stamps (forest.set hash { node with lastAccess := clock + 1 } next) + others)
      later := by
  rw [stamps_of_find found, Multiset.cons_add] at timely
  have ticked := (timely.of_le (Multiset.le_cons_self _ _)).tick
  rw [add_assoc, ← Multiset.add_cons] at ticked
  rw [stamps_set found, Multiset.cons_add, add_assoc, ← Multiset.add_cons]
  exact below _ ticked

/-- A match gives the nodes of its path the next stamps of the clock, in turn. -/
theorem touchPath_timely (hashes : List Text) (forest : RadixForest) (others : Multiset ℕ)
    (accessClock : ℕ) (timely : Timely (stamps forest + others) accessClock) :
    Timely (stamps (touchPath hashes forest accessClock).1 + others)
      (touchPath hashes forest accessClock).2.2 := by
  induction hashes generalizing forest others accessClock with
  | nil => exact timely
  | cons hash hashes ih =>
      unfold touchPath
      split
      · exact timely
      · next node children found =>
          exact timely_below found timely fun rest ticked => ih children rest _ ticked

/-- An insertion stamps old and new nodes of its path alike. -/
theorem putPath_timely (pairs : List (Text × BlockId)) (forest : RadixForest)
    (others : Multiset ℕ) (state : Insertion)
    (timely : Timely (stamps forest + others) state.accessClock) :
    Timely (stamps (putPath pairs forest state).1 + others)
      (putPath pairs forest state).2.accessClock := by
  induction pairs generalizing forest others state with
  | nil => exact timely
  | cons pair pairs ih =>
      obtain ⟨hash, block⟩ := pair
      unfold putPath
      split
      · next node children found =>
          exact timely_below found timely fun rest ticked => ih children rest _ ticked
      · dsimp only
        split
        · exact timely
        · have ticked := timely.tick
          unfold stamps at ticked ⊢
          rw [Trie.values, Multiset.map_cons, Multiset.map_add, Multiset.cons_add, add_assoc,
            ← Multiset.add_cons]
          refine ih .nil _ _ ?_
          rw [stamps, Trie.values, Multiset.map_zero, zero_add]
          exact ticked

/-! ### The cache -/

/-- Remove a leaf and unpin it. -/
def evictLeaf (cache : RadixPrefixCache) (kvCache : PagedKvCache) (oldest : Option LeafCandidate) :
    Bool × RadixPrefixCache × PagedKvCache :=
  match oldest with
  | none => (false, cache, kvCache)
  | some candidate =>
      match cache.roots.lookup candidate.cacheNamespace, cache.candidateNode candidate with
      | some forest, some node =>
          (true,
            { cache with
              roots := cache.roots.insert candidate.cacheNamespace
                (forest.modifyAt (Trie.erase candidate.key) candidate.parent)
              nodeCount := cache.nodeCount - 1 },
            (kvCache.unpinPrefix node.pinKey).2)
      | _, _ => (false, cache, kvCache)

/-- An eviction is the search of a leaf and its removal. -/
theorem evictOldest_eq (cache : RadixPrefixCache) (kvCache : PagedKvCache) :
    cache.evictOldest kvCache = cache.evictLeaf kvCache cache.oldestLeaf := by
  rfl

variable {cache : RadixPrefixCache}

/-- The stamps when the forest of one namespace is replaced. -/
theorem stamped_insert {cacheNamespace : Text} {forest : RadixForest} {accessClock : ℕ}
    (timely : Timely (stamps forest +
      (cache.otherNodes cacheNamespace).map RadixNode.lastAccess) accessClock) :
    Timely (Multiset.map RadixNode.lastAccess ((cache.roots.insert cacheNamespace
      forest).entries.map fun root => root.2.values).sum) accessClock := by
  rw [cache.nodes_insert, Multiset.map_add]
  exact timely

/-- The stamps of one namespace, with those of the others beside them. -/
theorem Stamped.forestOf (stamped : cache.Stamped) (cacheNamespace : Text) :
    Timely (stamps (cache.forestOf cacheNamespace) +
      (cache.otherNodes cacheNamespace).map RadixNode.lastAccess) cache.accessClock := by
  unfold Stamped at stamped
  rw [cache.nodes_eq cacheNamespace, Multiset.map_add] at stamped
  exact stamped

theorem Stamped.getLongest (stamped : cache.Stamped) (cacheNamespace : Text)
    (hashes : List Text) : (cache.getLongest cacheNamespace hashes).2.Stamped := by
  have timely := stamped.forestOf cacheNamespace
  unfold RadixPrefixCache.getLongest
  unfold RadixPrefixCache.forestOf at timely
  split
  · exact stamped
  · next forest found =>
      rw [found] at timely
      exact stamped_insert (touchPath_timely hashes forest _ _ timely)

/-- A removal takes its stamp away, whichever leaf it is. -/
theorem Stamped.evictLeaf (stamped : cache.Stamped) (kvCache : PagedKvCache)
    (oldest : Option LeafCandidate) : (cache.evictLeaf kvCache oldest).2.1.Stamped := by
  unfold RadixPrefixCache.evictLeaf
  split
  · exact stamped
  · next candidate =>
      split
      · next forest node found isNode =>
          have timely := stamped.forestOf candidate.cacheNamespace
          unfold RadixPrefixCache.forestOf at timely
          rw [found] at timely
          refine stamped_insert (timely.of_le (add_le_add ?_ le_rfl))
          apply Multiset.map_le_map
          exact Trie.values_modifyAt_le (fun inner => inner.values_erase_le _) _ _
      · exact stamped

theorem Stamped.evictOldest (stamped : cache.Stamped) (kvCache : PagedKvCache) :
    (cache.evictOldest kvCache).2.1.Stamped :=
  stamped.evictLeaf kvCache cache.oldestLeaf

theorem Stamped.evictToCapacity (turns : ℕ) (stamped : cache.Stamped) (kvCache : PagedKvCache) :
    (evictToCapacity turns cache kvCache).1.Stamped := by
  induction turns generalizing cache kvCache with
  | zero => exact stamped
  | succ turns ih =>
      unfold RadixPrefixCache.evictToCapacity
      dsimp only
      split
      · split
        · exact ih (stamped.evictOldest kvCache) _
        · exact stamped
      · exact stamped

theorem Stamped.putBlockPrefixes (stamped : cache.Stamped) (kvCache : PagedKvCache)
    (cacheNamespace : Text) (hashes : List Text) (blocks : List BlockId) :
    (cache.putBlockPrefixes kvCache cacheNamespace hashes blocks).2.1.Stamped := by
  unfold RadixPrefixCache.putBlockPrefixes
  apply Stamped.evictToCapacity
  exact stamped_insert (putPath_timely _ _ _
    { kvCache, accessClock := cache.accessClock, nextPinId := cache.nextPinId, inserted := 0 }
    (stamped.forestOf cacheNamespace))

/-- An empty cache has no stamps. -/
theorem Stamped.clear (cache : RadixPrefixCache) (kvCache : PagedKvCache) :
    (cache.clear kvCache).1.Stamped :=
  ⟨Multiset.nodup_zero, fun _ member => absurd member (Multiset.notMem_zero _)⟩

theorem Stamped.new {nodeCapacity : ℕ}
    (accepted : RadixPrefixCache.new nodeCapacity = .ok cache) : cache.Stamped := by
  rw [new_eq_ok accepted]
  exact ⟨Multiset.nodup_zero, fun _ member => absurd member (Multiset.notMem_zero _)⟩

/-! ### Orders of traversal -/

/-- The leaves of a list of namespaces, in the order of the walk. -/
def leafCandidates (roots : List (Sigma fun _ : Text => RadixForest)) : List LeafCandidate :=
  roots.flatMap fun root => (root.2.leaves []).map fun leaf =>
    ⟨root.1, leaf.1, leaf.2.1, leaf.2.2.lastAccess⟩

/-- The search of `EvictOldest` through the namespaces in a given order. -/
def searchRoots (roots : List (Sigma fun _ : Text => RadixForest)) : Option LeafCandidate :=
  roots.foldl (fun candidate root => findOldestLeaf root.1 [] root.2 candidate) none

/-- The leaf of the exact cache is the one that the search finds in its own order. -/
theorem oldestLeaf_eq (cache : RadixPrefixCache) :
    cache.oldestLeaf = searchRoots cache.roots.entries := by
  rfl

/-- The search through a forest compares its leaves one by one. -/
theorem findOldestLeaf_eq (cacheNamespace : Text) (trail : List Text) (forest : RadixForest)
    (candidate : Option LeafCandidate) :
    findOldestLeaf cacheNamespace trail forest candidate =
      ((forest.leaves trail).map fun leaf =>
        (⟨cacheNamespace, leaf.1, leaf.2.1, leaf.2.2.lastAccess⟩ : LeafCandidate)).foldl
        (List.argAux fun leaf best => leaf.lastAccess < best.lastAccess) candidate := by
  induction trail, forest, candidate using findOldestLeaf.induct cacheNamespace with
  | case1 trail candidate => rfl
  | case2 trail key node rest candidate ih =>
      rw [findOldestLeaf, ih, Trie.leaves, List.map_cons, List.foldl_cons]
      congr 1
      cases candidate with
      | none => rfl
      | some best =>
          simp only [Option.all_some, decide_eq_true_eq, List.argAux]
  | case3 trail key node childKey child grandchildren siblings rest candidate ihChild ihRest =>
      rw [findOldestLeaf, ihRest, ihChild, Trie.leaves, List.map_append, List.foldl_append]

/-- The search finds the first leaf with the least stamp. -/
theorem searchRoots_eq_argmin (roots : List (Sigma fun _ : Text => RadixForest)) :
    searchRoots roots = (leafCandidates roots).argmin LeafCandidate.lastAccess := by
  have search : ∀ candidate : Option LeafCandidate,
      roots.foldl (fun candidate root => findOldestLeaf root.1 [] root.2 candidate) candidate =
        (leafCandidates roots).foldl
          (List.argAux fun leaf best => leaf.lastAccess < best.lastAccess) candidate := by
    induction roots with
    | nil => exact fun _ => rfl
    | cons root roots ih =>
        intro candidate
        rw [List.foldl_cons, ih, findOldestLeaf_eq, leafCandidates, leafCandidates,
          List.flatMap_cons, List.foldl_append]
  exact search none

/-- The same namespaces with the same nodes, the maps of every level in any order. -/
def Presents (roots presented : List (Sigma fun _ : Text => RadixForest)) : Prop :=
  ∃ permuted, roots.Perm permuted ∧
    List.Forall₂ (fun root other => root.1 = other.1 ∧ root.2.Reordered other.2)
      permuted presented

/-- Every order of the roots presents the same leaves. -/
theorem Presents.leafCandidates_perm {roots presented : List (Sigma fun _ : Text => RadixForest)}
    (presents : Presents roots presented) :
    (leafCandidates roots).Perm (leafCandidates presented) := by
  obtain ⟨permuted, perm, same⟩ := presents
  refine (perm.flatMap_right _).trans ?_
  clear perm
  induction same with
  | nil => exact .refl _
  | @cons root other roots others related _ ih =>
      obtain ⟨sameName, reordered⟩ := related
      rw [List.flatMap_cons, leafCandidates, List.flatMap_cons, sameName]
      exact ((reordered.leaves_perm []).map _).append ih

/-- The stamps of the leaves are among the stamps of the nodes. -/
theorem leafCandidates_le (roots : List (Sigma fun _ : Text => RadixForest)) :
    (((leafCandidates roots).map LeafCandidate.lastAccess : List ℕ) : Multiset ℕ) ≤
      Multiset.map RadixNode.lastAccess (roots.map fun root => root.2.values).sum := by
  induction roots with
  | nil => exact le_rfl
  | cons root roots ih =>
      rw [leafCandidates, List.flatMap_cons, List.map_append, ← Multiset.coe_add, List.map_cons,
        List.sum_cons, Multiset.map_add, List.map_map]
      refine add_le_add ?_ ih
      have leaves := Multiset.map_le_map (f := RadixNode.lastAccess)
        (root.2.leaves_values_le [])
      rw [Multiset.map_coe, List.map_map] at leaves
      exact leaves

/-- `EvictOldest` finds the same leaf in whatever order it sees the maps. -/
theorem Stamped.searchRoots_presented {cache : RadixPrefixCache} (stamped : cache.Stamped)
    {presented : List (Sigma fun _ : Text => RadixForest)}
    (presents : Presents cache.roots.entries presented) :
    searchRoots presented = cache.oldestLeaf := by
  have distinct : ((leafCandidates cache.roots.entries).map LeafCandidate.lastAccess).Nodup :=
    Multiset.coe_nodup.mp
      (Multiset.nodup_of_le (leafCandidates_le cache.roots.entries) stamped.distinct)
  rw [oldestLeaf_eq, searchRoots_eq_argmin, searchRoots_eq_argmin]
  exact (argmin_of_perm presents.leafCandidates_perm distinct).symm

end RadixPrefixCache

/-! ### The engine -/

namespace ContinuousEngine

variable {η : Type} {engine : ContinuousEngine η}

theorem stamped_matchPrefix (stamped : engine.prefixCache.Stamped) (candidate : EngineRequest) :
    (engine.matchPrefix candidate).2.prefixCache.Stamped := by
  unfold matchPrefix
  split
  · exact stamped
  · exact stamped.getLongest _ _

theorem stamped_cachePrompt (stamped : engine.prefixCache.Stamped) (request : EngineRequest) :
    (engine.cachePrompt request).prefixCache.Stamped := by
  unfold cachePrompt
  split
  · exact stamped
  · exact stamped.putBlockPrefixes _ _ _ _

theorem stamped_admitCandidate (stamped : engine.prefixCache.Stamped) (candidate : EngineRequest)
    (matched : Option (List BlockId)) :
    (engine.admitCandidate candidate matched).prefixCache.Stamped := by
  obtain ⟨_, _, _, _, admitted⟩ := engine.admitCandidate_eq candidate matched
  rw [admitted]
  exact stamped_cachePrompt stamped candidate

end ContinuousEngine

/-- Every elementary step keeps the stamps apart. -/
theorem Moment.Step.stamped {η : Type} [RequestQueue η] {before after : Moment η}
    (step : Step before after) (stamped : before.engine.prefixCache.Stamped) :
    after.engine.prefixCache.Stamped := by
  cases step with
  | forgive empty => exact stamped
  | pop room popped => exact stamped
  | reject impossible => exact stamped
  | answer possible found => exact stamped
  | miss possible missing => exact stamped
  | touch => exact ContinuousEngine.stamped_matchPrefix stamped _
  | evict evicted => exact stamped.evictOldest _
  | admission possible room forgiven budget longest allocated =>
      apply ContinuousEngine.stamped_admitCandidate
      exact stamped
  | requeue engine scan => exact stamped
  | complete split finished => exact stamped
  | prepare nothing unfinished => exact stamped
  | grow member short appended => exact stamped
  | preempt member short scarce unpinned =>
      unfold ContinuousEngine.preempt
      split
      · exact stamped
      · exact stamped
  | decode inhabited prepared => exact stamped
  | close nothing => exact stamped

end InferSched.Engine

import Mathlib.Data.List.GetD
import Mathlib.Data.List.Nodup
import Mathlib.Data.List.Perm.Subperm
import Mathlib.Tactic.Ring
import InferSched.Library.Word

/-! # Reference-counted pools

A pool of numbered resources keeps one fixed-width reference count per resource
and a stack of the resources that nobody holds. `RefPool.Balanced` relates the
pool to the true number of holders of each resource: the stored count is that
number reduced to the width of a counter, and a resource is on the free stack
exactly when it has no holder. The relation survives a resource reaching
`2 ^ bits` holders, where the stored count reads zero: a zero count is refused
by `RefPool.retain`'s callers, so the number of holders never passes that bound
and no later release can mistake the resource for a free one.
-/

namespace InferSched.Library

/-- Reference counts of the resources `0, 1, ...` and the stack of free ones. -/
structure RefPool where
  refcounts : List ℕ
  freeList : List ℕ
deriving DecidableEq, Repr

namespace RefPool

/-- The pool of `size` free resources. -/
def full (size : ℕ) : RefPool :=
  ⟨List.replicate size 0, List.range size⟩

/-- The number of resources. -/
def size (pool : RefPool) : ℕ :=
  pool.refcounts.length

/-- The stored count, zero outside the pool. -/
def refCount (pool : RefPool) (block : ℕ) : ℕ :=
  pool.refcounts.getD block 0

/-- Count one more holder. -/
def retain (bits : ℕ) (pool : RefPool) (block : ℕ) : RefPool :=
  { pool with refcounts := pool.refcounts.set block (Word.add bits (pool.refCount block) 1) }

/-- Count one holder less, and free the resource when the count reaches zero. -/
def release (bits : ℕ) (pool : RefPool) (block : ℕ) : RefPool :=
  let count := Word.sub bits (pool.refCount block) 1
  { refcounts := pool.refcounts.set block count
    freeList := if count = 0 then block :: pool.freeList else pool.freeList }

/-- Pop `count` free resources and give each its first holder. -/
def claim : ℕ → RefPool → RefPool × List ℕ
  | 0, pool => (pool, [])
  | count + 1, pool =>
      match pool.freeList with
      | [] => (pool, [])
      | block :: rest =>
          let claimed := claim count ⟨pool.refcounts.set block 1, rest⟩
          (claimed.1, block :: claimed.2)

/-- The pool stores the number of holders of every resource, up to the width of
a counter, and its free stack lists exactly the resources without holder. -/
structure Balanced (bits : ℕ) (pool : RefPool) (holders : ℕ → ℕ) : Prop where
  stored : ∀ block < pool.size, pool.refCount block = holders block % 2 ^ bits
  bounded : ∀ block, holders block ≤ 2 ^ bits
  outside : ∀ block, pool.size ≤ block → holders block = 0
  nodup : pool.freeList.Nodup
  free : ∀ block, block ∈ pool.freeList ↔ block < pool.size ∧ holders block = 0

@[simp] theorem size_retain (bits : ℕ) (pool : RefPool) (block : ℕ) :
    (pool.retain bits block).size = pool.size :=
  List.length_set

@[simp] theorem size_release (bits : ℕ) (pool : RefPool) (block : ℕ) :
    (pool.release bits block).size = pool.size :=
  List.length_set

@[simp] theorem size_claim (count : ℕ) (pool : RefPool) :
    (pool.claim count).1.size = pool.size := by
  induction count generalizing pool with
  | zero => rfl
  | succ count ih =>
      unfold claim
      split
      · rfl
      · rw [ih]
        exact List.length_set

@[simp] theorem size_foldl_retain (bits : ℕ) (pool : RefPool) (blocks : List ℕ) :
    (blocks.foldl (retain bits) pool).size = pool.size := by
  induction blocks generalizing pool with
  | nil => rfl
  | cons block rest ih => rw [List.foldl_cons, ih, size_retain]

@[simp] theorem size_foldl_release (bits : ℕ) (pool : RefPool) (blocks : List ℕ) :
    (blocks.foldl (release bits) pool).size = pool.size := by
  induction blocks generalizing pool with
  | nil => rfl
  | cons block rest ih => rw [List.foldl_cons, ih, size_release]

@[simp] theorem freeList_foldl_retain (bits : ℕ) (pool : RefPool) (blocks : List ℕ) :
    (blocks.foldl (retain bits) pool).freeList = pool.freeList := by
  induction blocks generalizing pool with
  | nil => rfl
  | cons block rest ih => rw [List.foldl_cons, ih]; rfl

theorem getD_set (counts : List ℕ) (block value query : ℕ) (inside : block < counts.length) :
    (counts.set block value).getD query 0 =
      if query = block then value else counts.getD query 0 := by
  simp only [List.getD_eq_getElem?_getD, List.getElem?_set]
  by_cases same : query = block
  · subst query
    simp only [inside, ↓reduceIte, Option.getD_some]
  · rw [if_neg (Ne.symm same), if_neg same]

/-- A claim takes the leading resources of the free stack. -/
theorem claim_eq (count : ℕ) (pool : RefPool) :
    (pool.claim count).2 = pool.freeList.take count ∧
      (pool.claim count).1.freeList = pool.freeList.drop count := by
  induction count generalizing pool with
  | zero => exact ⟨rfl, rfl⟩
  | succ count ih =>
      unfold claim
      cases stack : pool.freeList with
      | nil => exact ⟨rfl, by simpa using stack⟩
      | cons block rest =>
          obtain ⟨taken, left⟩ := ih ⟨pool.refcounts.set block 1, rest⟩
          exact ⟨congrArg (block :: ·) taken, left⟩

namespace Balanced

variable {bits : ℕ} {pool : RefPool} {holders : ℕ → ℕ}

/-- The holders matter only through their number. -/
theorem congr {others : ℕ → ℕ} (balanced : Balanced bits pool holders)
    (same : ∀ block, holders block = others block) : Balanced bits pool others := by
  have equal : holders = others := funext same
  exact equal ▸ balanced

/-- A fresh pool has no holders. -/
theorem full (size : ℕ) : Balanced bits (RefPool.full size) fun _ => 0 where
  stored block _ := by
    simp only [RefPool.full, refCount, List.getD_eq_getElem?_getD, List.getElem?_replicate,
      Nat.zero_mod]
    split <;> rfl
  bounded _ := Nat.zero_le _
  outside _ _ := rfl
  nodup := List.nodup_range
  free block := by
    simp only [RefPool.full, RefPool.size, List.length_replicate, List.mem_range, and_true]

/-- Below the width of a counter the stored count is the number of holders. -/
theorem refCount_eq (balanced : Balanced bits pool holders) (block : ℕ)
    (fits : holders block < 2 ^ bits) : pool.refCount block = holders block := by
  by_cases inside : block < pool.size
  · rw [balanced.stored block inside, Nat.mod_eq_of_lt fits]
  · have beyond : pool.size ≤ block := Nat.le_of_not_lt inside
    rw [balanced.outside block beyond]
    exact List.getD_eq_default _ _ beyond

/-- A resource with a nonzero stored count has a holder and room for another. -/
theorem live (balanced : Balanced bits pool holders) {block : ℕ} (inside : block < pool.size)
    (counted : pool.refCount block ≠ 0) : 0 < holders block ∧ holders block < 2 ^ bits := by
  rw [balanced.stored block inside] at counted
  have bounded := balanced.bounded block
  constructor
  · apply Nat.pos_of_ne_zero
    intro unheld
    exact counted (by rw [unheld, Nat.zero_mod])
  · apply lt_of_le_of_ne bounded
    intro full
    exact counted (by rw [full, Nat.mod_self])

/-- Retaining a live resource adds one holder to it. -/
theorem retain (balanced : Balanced bits pool holders) {block : ℕ} (inside : block < pool.size)
    (counted : pool.refCount block ≠ 0) :
    Balanced bits (pool.retain bits block)
      fun query => holders query + if query = block then 1 else 0 := by
  obtain ⟨held, room⟩ := balanced.live inside counted
  refine ⟨?_, ?_, ?_, balanced.nodup, ?_⟩
  · intro query within
    rw [size_retain] at within
    change (pool.refcounts.set block _).getD query 0 = _
    rw [getD_set _ _ _ _ inside]
    by_cases same : query = block
    · subst query
      simp only [↓reduceIte]
      unfold Word.add
      rw [balanced.stored block inside, Nat.mod_add_mod]
    · simp only [same, ↓reduceIte, Nat.add_zero]
      exact balanced.stored query within
  · intro query
    by_cases same : query = block
    · subst query
      simp only [↓reduceIte]
      exact room
    · simpa [same] using balanced.bounded query
  · intro query beyond
    rw [size_retain] at beyond
    have other : query ≠ block := by omega
    simpa [other] using balanced.outside query beyond
  · intro query
    rw [size_retain]
    refine (balanced.free query).trans (and_congr_right fun _ => ?_)
    by_cases same : query = block
    · subst query
      simp only [↓reduceIte, Nat.add_eq_zero_iff, one_ne_zero, and_false, iff_false]
      omega
    · simp [same]

/-- Releasing a held resource removes one of its holders. -/
theorem release (balanced : Balanced bits pool holders) {block : ℕ} (held : 0 < holders block) :
    Balanced bits (pool.release bits block)
      fun query => holders query - if query = block then 1 else 0 := by
  have inside : block < pool.size := by
    by_contra beyond
    exact absurd (balanced.outside block (Nat.le_of_not_lt beyond)) (by omega)
  have bounded := balanced.bounded block
  have count : Word.sub bits (pool.refCount block) 1 = holders block - 1 := by
    rw [balanced.stored block inside]
    unfold Word.sub
    rcases Nat.eq_zero_or_pos bits with rfl | positive
    · simp only [pow_zero] at bounded ⊢
      omega
    · have wide : 1 < 2 ^ bits := Nat.one_lt_two_pow (by omega)
      rw [Nat.mod_eq_of_lt wide, Nat.mod_add_mod]
      have split : holders block + (2 ^ bits - 1) = holders block - 1 + 2 ^ bits := by omega
      rw [split, Nat.add_mod_right, Nat.mod_eq_of_lt (by omega)]
  have unlisted : block ∉ pool.freeList := by
    intro listed
    exact absurd ((balanced.free block).mp listed).2 (by omega)
  refine ⟨?_, ?_, ?_, ?_, ?_⟩
  · intro query within
    rw [size_release] at within
    change (pool.refcounts.set block _).getD query 0 = _
    rw [getD_set _ _ _ _ inside]
    by_cases same : query = block
    · subst query
      simp only [↓reduceIte]
      rw [count, Nat.mod_eq_of_lt (by omega)]
    · simp only [same, ↓reduceIte, Nat.sub_zero]
      exact balanced.stored query within
  · intro query
    exact le_trans (Nat.sub_le _ _) (balanced.bounded query)
  · intro query beyond
    rw [size_release] at beyond
    simp only [balanced.outside query beyond, Nat.zero_sub]
  · change (if Word.sub bits (pool.refCount block) 1 = 0 then block :: pool.freeList
      else pool.freeList).Nodup
    split
    · exact List.nodup_cons.mpr ⟨unlisted, balanced.nodup⟩
    · exact balanced.nodup
  · intro query
    rw [size_release]
    change (query ∈ if Word.sub bits (pool.refCount block) 1 = 0 then block :: pool.freeList
      else pool.freeList) ↔ _
    rw [count]
    by_cases same : query = block
    · subst query
      by_cases last : holders block - 1 = 0
      · simp [last, inside]
      · simp [last, unlisted]
    · have frame := balanced.free query
      by_cases last : holders block - 1 = 0
      · simpa [last, same] using frame
      · simpa [last, same] using frame

/-- Claiming the top of the free stack gives that resource its first holder. -/
theorem claimOne (balanced : Balanced bits pool holders) {block : ℕ} {rest : List ℕ}
    (top : pool.freeList = block :: rest) (wide : 0 < bits) :
    Balanced bits ⟨pool.refcounts.set block 1, rest⟩
      fun query => holders query + if query = block then 1 else 0 := by
  obtain ⟨inside, unheld⟩ := (balanced.free block).mp (by rw [top]; exact List.mem_cons_self)
  have nodup := balanced.nodup
  rw [top, List.nodup_cons] at nodup
  have one : 1 < 2 ^ bits := Nat.one_lt_two_pow (by omega)
  have sized : (⟨pool.refcounts.set block 1, rest⟩ : RefPool).size = pool.size := List.length_set
  refine ⟨?_, ?_, ?_, nodup.2, ?_⟩
  · intro query within
    rw [sized] at within
    change (pool.refcounts.set block 1).getD query 0 = _
    rw [getD_set _ _ _ _ inside]
    by_cases same : query = block
    · subst query
      simp only [↓reduceIte, unheld, Nat.zero_add]
      rw [Nat.mod_eq_of_lt one]
    · simp only [same, ↓reduceIte, Nat.add_zero]
      exact balanced.stored query within
  · intro query
    by_cases same : query = block
    · subst query
      simp only [↓reduceIte, unheld]
      omega
    · simpa [same] using balanced.bounded query
  · intro query beyond
    rw [sized] at beyond
    have other : query ≠ block := by omega
    simpa [other] using balanced.outside query beyond
  · intro query
    rw [sized]
    by_cases same : query = block
    · subst query
      simp [nodup.1]
    · have frame := balanced.free query
      rw [top, List.mem_cons] at frame
      simpa [same] using frame

/-- Retaining distinct live resources adds one holder to each of them. -/
theorem retainAll (balanced : Balanced bits pool holders) (blocks : List ℕ)
    (distinct : blocks.Nodup)
    (live : ∀ block ∈ blocks, block < pool.size ∧ pool.refCount block ≠ 0) :
    Balanced bits (blocks.foldl (RefPool.retain bits) pool)
      fun query => holders query + if query ∈ blocks then 1 else 0 := by
  induction blocks generalizing pool holders with
  | nil => simpa using balanced
  | cons block rest ih =>
      obtain ⟨fresh, distinct⟩ := List.nodup_cons.mp distinct
      obtain ⟨inside, counted⟩ := live block List.mem_cons_self
      have live' : ∀ other ∈ rest, other < (pool.retain bits block).size ∧
          (pool.retain bits block).refCount other ≠ 0 := by
        intro other member
        obtain ⟨within, nonzero⟩ := live other (List.mem_cons_of_mem _ member)
        refine ⟨by rwa [size_retain], ?_⟩
        change (pool.refcounts.set block _).getD other 0 ≠ 0
        rw [getD_set _ _ _ _ inside, if_neg (by rintro rfl; exact fresh member)]
        exact nonzero
      refine (ih (balanced.retain inside counted) distinct live').congr fun query => ?_
      by_cases same : query = block
      · subst query
        simp [fresh]
      · simp [same]

/-- Releasing distinct held resources removes one holder from each of them. -/
theorem releaseAll (balanced : Balanced bits pool holders) (blocks : List ℕ)
    (distinct : blocks.Nodup) (held : ∀ block ∈ blocks, 0 < holders block) :
    Balanced bits (blocks.foldl (RefPool.release bits) pool)
      fun query => holders query - if query ∈ blocks then 1 else 0 := by
  induction blocks generalizing pool holders with
  | nil => simpa using balanced
  | cons block rest ih =>
      obtain ⟨fresh, distinct⟩ := List.nodup_cons.mp distinct
      have held' : ∀ other ∈ rest, 0 < holders other - if other = block then 1 else 0 := by
        intro other member
        have distinctBlock : other ≠ block := fun same => fresh (same ▸ member)
        simpa [distinctBlock] using held other (List.mem_cons_of_mem _ member)
      refine (ih (balanced.release (held block List.mem_cons_self)) distinct held').congr
        fun query => ?_
      by_cases same : query = block
      · subst query
        simp [fresh]
      · simp [same]

/-- A claim gives each claimed resource its first holder. -/
theorem claimAll (balanced : Balanced bits pool holders) (wide : 0 < bits) (count : ℕ) :
    Balanced bits (pool.claim count).1
      fun query => holders query + if query ∈ (pool.claim count).2 then 1 else 0 := by
  induction count generalizing pool holders with
  | zero => simpa [claim] using balanced
  | succ count ih =>
      unfold claim
      cases top : pool.freeList with
      | nil => simpa using balanced
      | cons block rest =>
          have first := balanced.claimOne top wide
          have later := ih first
          refine later.congr fun query => ?_
          by_cases same : query = block
          · subst query
            -- A claimed resource leaves the free stack, so it is not claimed twice.
            have gone : block ∉ (RefPool.claim count ⟨pool.refcounts.set block 1, rest⟩).2 := by
              rw [(claim_eq _ _).1]
              have nodup := balanced.nodup
              rw [top, List.nodup_cons] at nodup
              exact fun again => nodup.1 (List.mem_of_mem_take again)
            simp [gone]
          · simp [same]

/-- Every resource is free or among the held ones. -/
theorem size_le_free_add (balanced : Balanced bits pool holders) (held : List ℕ)
    (covers : ∀ block, 0 < holders block → block ∈ held) :
    pool.size ≤ pool.freeList.length + held.length := by
  have cover : List.range pool.size ⊆ pool.freeList ++ held := by
    intro block member
    rw [List.mem_append]
    by_cases unheld : holders block = 0
    · exact Or.inl ((balanced.free block).mpr ⟨List.mem_range.mp member, unheld⟩)
    · exact Or.inr (covers block (Nat.pos_of_ne_zero unheld))
  have bound := (List.subperm_of_subset List.nodup_range cover).length_le
  simpa using bound

/-- A pool without holders is entirely free. -/
theorem free_of_unheld (balanced : Balanced bits pool holders)
    (unheld : ∀ block, holders block = 0) : pool.freeList.length = pool.size := by
  apply le_antisymm
  · have inside : pool.freeList ⊆ List.range pool.size := fun block member =>
      List.mem_range.mpr ((balanced.free block).mp member).1
    simpa using (List.subperm_of_subset balanced.nodup inside).length_le
  · have bound := balanced.size_le_free_add [] fun block held => by
      rw [unheld block] at held
      exact absurd held (Nat.lt_irrefl 0)
    simpa using bound

end Balanced
end RefPool
end InferSched.Library

import Mathlib.Algebra.Order.Group.Multiset

/-! # Tries

A `Trie` is a forest: nodes with a key, a value and the forest of their children,
each followed by its siblings. Every path of keys from the top names at most one
node when siblings have distinct keys (`Trie.WellKeyed`). `Trie.values` counts
the values of all nodes; the lemmas say how it splits at a node that is found,
replaced or erased.
-/

namespace InferSched.Library

inductive Trie (κ ν : Type) : Type
  | nil
  | cons (key : κ) (value : ν) (children rest : Trie κ ν)
deriving DecidableEq, Repr

namespace Trie

variable {κ ν : Type}

/-- The values of all nodes. -/
def values : Trie κ ν → Multiset ν
  | nil => 0
  | cons _ value children rest => value ::ₘ (children.values + rest.values)

/-- The keys of the topmost nodes. -/
def keys : Trie κ ν → List κ
  | nil => []
  | cons key _ _ rest => key :: rest.keys

/-- Siblings have distinct keys. -/
def WellKeyed : Trie κ ν → Prop
  | nil => True
  | cons key _ children rest => key ∉ rest.keys ∧ children.WellKeyed ∧ rest.WellKeyed

variable [DecidableEq κ]

/-- The topmost node of a key: its value and its children. -/
def find? (key : κ) : Trie κ ν → Option (ν × Trie κ ν)
  | nil => none
  | cons other value children rest =>
      if other = key then some (value, children) else rest.find? key

/-- Replace the topmost node of a key. -/
def set (trie : Trie κ ν) (key : κ) (value : ν) (inner : Trie κ ν) : Trie κ ν :=
  match trie with
  | nil => nil
  | cons other old children rest =>
      if other = key then cons other value inner rest
      else cons other old children (rest.set key value inner)

/-- Remove the topmost node of a key, with its children. -/
def erase (key : κ) : Trie κ ν → Trie κ ν
  | nil => nil
  | cons other value children rest =>
      if other = key then rest else cons other value children (rest.erase key)

/-- The forest below a path. -/
def descend : List κ → Trie κ ν → Option (Trie κ ν)
  | [], trie => some trie
  | key :: path, trie => (trie.find? key).bind fun found => descend path found.2

/-- Rewrite the forest below a path. -/
def modifyAt (f : Trie κ ν → Trie κ ν) : List κ → Trie κ ν → Trie κ ν
  | [], trie => f trie
  | key :: path, trie =>
      match trie.find? key with
      | none => trie
      | some (value, children) => trie.set key value (modifyAt f path children)

variable {trie : Trie κ ν} {key : κ} {value : ν} {inner : Trie κ ν}

/-- A key that is not found is not there. -/
theorem find?_eq_none_iff : trie.find? key = none ↔ key ∉ trie.keys := by
  induction trie with
  | nil => simp [find?, keys]
  | cons other value children rest _ ih =>
      simp only [find?, keys, List.mem_cons, not_or]
      split
      · next same => simp [same]
      · next different => rw [ih]; simp [Ne.symm different]

theorem mem_keys_of_find (found : trie.find? key = some (value, inner)) : key ∈ trie.keys := by
  by_contra absent
  rw [find?_eq_none_iff.mpr absent] at found
  cases found

/-- A found node comes apart from the others. -/
theorem values_of_find (found : trie.find? key = some (value, inner)) :
    trie.values = value ::ₘ (inner.values + (trie.erase key).values) := by
  induction trie with
  | nil => cases found
  | cons other old children rest _ ih =>
      unfold find? at found
      unfold erase
      split at found
      · next same =>
          cases found
          rw [if_pos same]
          rfl
      · next different =>
          rw [if_neg different]
          simp only [values, ih found, Multiset.add_cons]
          rw [Multiset.cons_swap, add_left_comm]

/-- A node that is set replaces the values at and below it. -/
theorem values_set {old : ν × Trie κ ν} (found : trie.find? key = some old) :
    (trie.set key value inner).values = value ::ₘ (inner.values + (trie.erase key).values) := by
  induction trie with
  | nil => cases found
  | cons other stored children rest _ ih =>
      unfold find? at found
      unfold set erase
      split at found
      · next same =>
          rw [if_pos same, if_pos same]
          rfl
      · next different =>
          rw [if_neg different, if_neg different]
          simp only [values, ih found, Multiset.add_cons]
          rw [Multiset.cons_swap, add_left_comm]

/-- Erasing a key takes values away and adds none. -/
theorem values_erase_le (trie : Trie κ ν) (key : κ) : (trie.erase key).values ≤ trie.values := by
  induction trie with
  | nil => exact le_rfl
  | cons other stored children rest _ ih =>
      unfold erase
      split
      · exact (Multiset.le_add_left _ _).trans (Multiset.le_cons_self _ _)
      · exact Multiset.cons_le_cons _ (add_le_add le_rfl ih)

/-- A rewriting that drops values drops values below a path. -/
theorem values_modifyAt_le {f : Trie κ ν → Trie κ ν}
    (shrinks : ∀ forest, (f forest).values ≤ forest.values) (path : List κ) (trie : Trie κ ν) :
    (trie.modifyAt f path).values ≤ trie.values := by
  induction path generalizing trie with
  | nil => exact shrinks trie
  | cons key path ih =>
      unfold modifyAt
      split
      · exact le_rfl
      · next value children found =>
          rw [values_set found, values_of_find found]
          exact Multiset.cons_le_cons _ (add_le_add (ih children) le_rfl)

/-- A replaced node is found. -/
theorem find?_set_self {old : ν × Trie κ ν} (found : trie.find? key = some old) :
    (trie.set key value inner).find? key = some (value, inner) := by
  induction trie with
  | nil => cases found
  | cons other stored children rest _ ih =>
      unfold find? at found
      unfold set
      split at found
      · next same => rw [if_pos same, find?, if_pos same]
      · next different => rw [if_neg different, find?, if_neg different, ih found]

/-- Replacing a node keeps the others. -/
theorem find?_set_of_ne {other : κ} (different : other ≠ key) :
    (trie.set key value inner).find? other = trie.find? other := by
  induction trie with
  | nil => rfl
  | cons first stored children rest _ ih =>
      unfold set
      split
      · next same =>
          have apart : ¬ first = other := fun equal => different (equal.symm.trans same)
          rw [find?, find?, if_neg apart, if_neg apart]
      · rw [find?, find?, ih]

@[simp] theorem keys_set : (trie.set key value inner).keys = trie.keys := by
  induction trie with
  | nil => rfl
  | cons other stored children rest _ ih =>
      unfold set
      split
      · rfl
      · simp only [keys, ih]

theorem mem_keys_of_erase {other : κ} (member : other ∈ (trie.erase key).keys) :
    other ∈ trie.keys := by
  induction trie with
  | nil => exact member
  | cons stored value children rest _ ih =>
      unfold erase at member
      split at member
      · exact List.mem_cons_of_mem _ member
      · rcases List.mem_cons.mp member with rfl | later
        · exact List.mem_cons_self
        · exact List.mem_cons_of_mem _ (ih later)

namespace WellKeyed

/-- The children of a node of a well-keyed trie are well keyed. -/
theorem of_find (keyed : trie.WellKeyed) (found : trie.find? key = some (value, inner)) :
    inner.WellKeyed := by
  induction trie with
  | nil => cases found
  | cons other stored children rest _ ih =>
      unfold find? at found
      split at found
      · cases found
        exact keyed.2.1
      · exact ih keyed.2.2 found

theorem set (keyed : trie.WellKeyed) (innerKeyed : inner.WellKeyed) :
    (trie.set key value inner).WellKeyed := by
  induction trie with
  | nil => trivial
  | cons other stored children rest _ ih =>
      unfold Trie.set
      split
      · exact ⟨keyed.1, innerKeyed, keyed.2.2⟩
      · exact ⟨by rw [keys_set]; exact keyed.1, keyed.2.1, ih keyed.2.2⟩

theorem erase (keyed : trie.WellKeyed) : (trie.erase key).WellKeyed := by
  induction trie with
  | nil => trivial
  | cons other stored children rest _ ih =>
      unfold Trie.erase
      split
      · exact keyed.2.2
      · exact ⟨fun member => keyed.1 (mem_keys_of_erase member), keyed.2.1, ih keyed.2.2⟩

/-- A change below a path keeps the keys apart if it does so where it is made. -/
theorem modifyAt {f : Trie κ ν → Trie κ ν} (keeps : ∀ {forest}, forest.WellKeyed →
    (f forest).WellKeyed) (path : List κ) (keyed : trie.WellKeyed) :
    (trie.modifyAt f path).WellKeyed := by
  induction path generalizing trie with
  | nil => exact keeps keyed
  | cons key path ih =>
      unfold Trie.modifyAt
      split
      · exact keyed
      · next found => exact keyed.set (ih (keyed.of_find found))

end WellKeyed

/-- A node without children, named by the path to its siblings and its key. -/
def Leaf (trie : Trie κ ν) (path : List κ) (key : κ) (value : ν) : Prop :=
  ∃ forest, trie.descend path = some forest ∧ forest.find? key = some (value, nil)

namespace Leaf

variable {path : List κ} {other : κ} {stored : ν} {children rest : Trie κ ν}

/-- A node without children is a leaf. -/
theorem here : Leaf (cons key value nil rest) [] key value :=
  ⟨_, rfl, if_pos rfl⟩

/-- A leaf of the children is one of the trie. -/
theorem child (leaf : Leaf children path key value) :
    Leaf (cons other stored children rest) (other :: path) key value := by
  obtain ⟨forest, descends, found⟩ := leaf
  refine ⟨forest, ?_, found⟩
  rw [descend, find?, if_pos rfl]
  exact descends

/-- A leaf of the siblings is one of the trie, if its first key is not taken before them. -/
theorem sibling (fresh : other ∉ rest.keys) (leaf : Leaf rest path key value) :
    Leaf (cons other stored children rest) path key value := by
  obtain ⟨forest, descends, found⟩ := leaf
  cases path with
  | nil =>
      cases descends
      have different : other ≠ key := by
        rintro rfl
        exact fresh (mem_keys_of_find found)
      exact ⟨_, rfl, (if_neg different).trans found⟩
  | cons first path =>
      obtain ⟨⟨value', inner⟩, foundFirst, descends⟩ := Option.bind_eq_some_iff.mp descends
      have different : other ≠ first := by
        rintro rfl
        exact fresh (mem_keys_of_find foundFirst)
      refine ⟨forest, ?_, found⟩
      rw [descend, find?, if_neg different, foundFirst]
      exact descends

/-- Erasing a leaf removes its value and nothing else. -/
theorem values_erase (leaf : Leaf trie path key value) :
    trie.values = value ::ₘ (trie.modifyAt (erase key) path).values := by
  obtain ⟨forest, descends, found⟩ := leaf
  induction path generalizing trie with
  | nil =>
      cases descends
      rw [values_of_find found]
      change value ::ₘ (0 + _) = _
      rw [Multiset.zero_add]
      rfl
  | cons first path ih =>
      obtain ⟨⟨value', inner⟩, foundFirst, descends⟩ := Option.bind_eq_some_iff.mp descends
      rw [values_of_find foundFirst, modifyAt, foundFirst]
      change _ = value ::ₘ (trie.set first value' (inner.modifyAt (erase key) path)).values
      rw [values_set foundFirst, ih descends, Multiset.cons_add, Multiset.cons_swap]

end Leaf
end Trie
end InferSched.Library

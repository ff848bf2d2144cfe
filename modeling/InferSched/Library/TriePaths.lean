import InferSched.Library.Traversal

/-! # Paths of a trie

The value at the end of a path of keys (`Trie.valueAt`), and how it answers to a node that is
replaced and to a leaf that is erased: no other path is touched. A leaf is met by every
traversal.
-/

namespace InferSched.Library.Trie

variable {κ ν : Type} [DecidableEq κ]

/-- The value of the node that a path leads to. -/
def valueAt : List κ → Trie κ ν → Option ν
  | [], _ => none
  | key :: path, trie =>
      (trie.find? key).bind fun found => if path = [] then some found.1 else valueAt path found.2

variable {trie children inner : Trie κ ν} {key : κ} {value : ν} {path query : List κ}

/-- A path is read from its first key on. -/
theorem valueAt_cons (found : trie.find? key = some (value, children)) :
    valueAt (key :: path) trie = if path = [] then some value else valueAt path children := by
  rw [valueAt, found]
  rfl

/-- A path does not go past a missing key. -/
theorem valueAt_cons_of_none (missing : trie.find? key = none) :
    valueAt (key :: path) trie = none := by
  rw [valueAt, missing]
  rfl

@[simp] theorem valueAt_nil (path : List κ) : valueAt path (nil : Trie κ ν) = none := by
  cases path with
  | nil => rfl
  | cons key path => rfl

/-- A path depends on the node of its first key only. -/
theorem valueAt_congr {other : Trie κ ν} (same : trie.find? key = other.find? key) :
    valueAt (key :: path) trie = valueAt (key :: path) other := by
  rw [valueAt, valueAt, same]

/-! ### Erased nodes -/

theorem find?_erase_self (keyed : trie.WellKeyed) : (trie.erase key).find? key = none := by
  induction trie with
  | nil => rfl
  | cons other stored children rest _ ih =>
      unfold erase
      split
      · next same => exact find?_eq_none_iff.mpr (same ▸ keyed.1)
      · next different => exact (if_neg different).trans (ih keyed.2.2)

/-- Erasing a key leaves the others. -/
theorem find?_erase_of_ne {other : κ} (different : other ≠ key) :
    (trie.erase key).find? other = trie.find? other := by
  induction trie with
  | nil => rfl
  | cons first stored children rest _ ih =>
      unfold erase
      split
      · next same => exact (if_neg fun equal => different (equal.symm.trans same)).symm
      · rw [find?, find?, ih]

/-- Erasing a topmost leaf. -/
theorem valueAt_erase_top (keyed : trie.WellKeyed) (found : trie.find? key = some (value, nil))
    (query : List κ) :
    valueAt query (trie.erase key) = if query = [key] then none else valueAt query trie := by
  cases query with
  | nil => exact (if_neg (List.cons_ne_nil _ _).symm).symm
  | cons first query =>
      by_cases same : first = key
      · subst same
        rw [valueAt_cons_of_none (find?_erase_self keyed)]
        split
        · rfl
        · next longer =>
            have more : query ≠ [] := fun empty => longer (empty ▸ rfl)
            rw [valueAt_cons found, if_neg more, valueAt_nil]
      · rw [if_neg fun equal => same (List.cons.inj equal).1]
        exact valueAt_congr (find?_erase_of_ne same)

/-- **Erasing a leaf** changes the end of its own path only. -/
theorem valueAt_erase (keyed : trie.WellKeyed) (leaf : Leaf trie path key value)
    (query : List κ) : valueAt query (trie.modifyAt (erase key) path) =
      if query = path ++ [key] then none else valueAt query trie := by
  obtain ⟨forest, descends, found⟩ := leaf
  induction path generalizing trie query with
  | nil =>
      cases descends
      exact valueAt_erase_top keyed found query
  | cons first path ih =>
      obtain ⟨⟨stored, below⟩, foundFirst, deeper⟩ := Option.bind_eq_some_iff.mp descends
      rw [modifyAt, foundFirst]
      cases query with
      | nil => exact (if_neg (List.cons_ne_nil _ _).symm).symm
      | cons head query =>
          by_cases same : head = first
          · subst same
            rw [valueAt_cons (find?_set_self foundFirst), valueAt_cons foundFirst,
              ih (keyed.of_find foundFirst) query deeper]
            simp only [List.cons_append, List.cons.injEq, true_and]
            by_cases empty : query = []
            · rw [if_pos empty, if_pos empty, if_neg]
              rw [empty]
              exact (List.append_ne_nil_of_right_ne_nil _ (List.cons_ne_nil _ _)).symm
            · rw [if_neg empty, if_neg empty]
          · rw [List.cons_append, if_neg fun equal => same (List.cons.inj equal).1]
            exact valueAt_congr (find?_set_of_ne same)

/-- The value at a path is one of the values. -/
theorem mem_values_of_valueAt (found : valueAt path trie = some value) :
    value ∈ trie.values := by
  induction path generalizing trie with
  | nil => cases found
  | cons key path ih =>
      cases stored : trie.find? key with
      | none =>
          rw [valueAt_cons_of_none stored] at found
          cases found
      | some entry =>
          obtain ⟨here, below⟩ := entry
          rw [valueAt_cons stored] at found
          rw [values_of_find stored, Multiset.mem_cons, Multiset.mem_add]
          split at found
          · cases found
            exact Or.inl rfl
          · exact Or.inr (Or.inl (ih found))

/-! ### Leaves -/

/-- A leaf is what its path reads. -/
theorem Leaf.valueAt_eq (leaf : Leaf trie path key value) :
    valueAt (path ++ [key]) trie = some value := by
  obtain ⟨forest, descends, found⟩ := leaf
  induction path generalizing trie with
  | nil =>
      cases descends
      rw [List.nil_append, valueAt_cons found, if_pos rfl]
  | cons first path ih =>
      obtain ⟨⟨stored, below⟩, foundFirst, descends⟩ := Option.bind_eq_some_iff.mp descends
      rw [List.cons_append, valueAt_cons foundFirst,
        if_neg (List.append_ne_nil_of_right_ne_nil _ (List.cons_ne_nil _ _)), ih descends]

omit [DecidableEq κ] in
/-- The leaves below a node are met at the node. -/
theorem nodeLeaves_of_mem {trail : List κ} {leaf : List κ × κ × ν}
    (met : leaf ∈ leaves (trail ++ [key]) children) :
    leaf ∈ nodeLeaves trail key value children := by
  cases children with
  | nil => exact absurd met List.not_mem_nil
  | cons childKey child grandchildren siblings => exact met

/-- Every leaf is met on the way. -/
theorem Leaf.mem_leaves (leaf : Leaf trie path key value) (trail : List κ) :
    (trail ++ path, key, value) ∈ leaves trail trie := by
  obtain ⟨forest, descends, found⟩ := leaf
  induction trie generalizing trail path forest with
  | nil =>
      cases path with
      | nil =>
          cases descends
          cases found
      | cons first path => cases descends
  | cons other stored children rest ihChildren ihRest =>
      rw [leaves_cons, List.mem_append]
      cases path with
      | nil =>
          cases descends
          rw [find?] at found
          split at found
          · next same =>
              cases found
              rw [same, List.append_nil]
              exact Or.inl (List.mem_singleton_self _)
          · exact Or.inr (ihRest trail rest rfl found)
      | cons first path =>
          rw [descend, find?] at descends
          split at descends
          · next same =>
              have met := ihChildren (trail ++ [other]) forest descends found
              rw [List.append_assoc, List.singleton_append, same] at met
              exact Or.inl (nodeLeaves_of_mem (same ▸ met))
          · exact Or.inr (ihRest trail forest descends found)

end InferSched.Library.Trie

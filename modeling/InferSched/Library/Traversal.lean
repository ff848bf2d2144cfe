import Mathlib.Data.List.MinMax
import InferSched.Library.Trie

/-! # Traversals of nested maps

A trie whose levels are hash maps has no order of its own: a traversal sees the siblings of
every level in some order. `Trie.Reordered` relates two tries that are the same maps seen in
different orders. The leaves met on the way are then the same up to order, and so is a least
leaf when no two are equally small.
-/

namespace InferSched.Library

/-- The first least element does not depend on the order when no two are equally small. -/
theorem argmin_of_perm {α β : Type*} [LinearOrder β] {rank : α → β} {items others : List α}
    (perm : items.Perm others) (distinct : (items.map rank).Nodup) :
    items.argmin rank = others.argmin rank := by
  cases least : items.argmin rank with
  | none =>
      rw [List.argmin_eq_none] at least
      subst least
      rw [List.nil_perm.mp perm]
      rfl
  | some item =>
      cases leastOther : others.argmin rank with
      | none =>
          rw [List.argmin_eq_none] at leastOther
          subst leastOther
          rw [List.perm_nil.mp perm] at least
          cases least
      | some other =>
          have member := List.argmin_mem least
          have memberOther := perm.mem_iff.mpr (List.argmin_mem leastOther)
          have le := List.le_of_mem_argmin memberOther least
          have ge := List.le_of_mem_argmin (perm.mem_iff.mp member) leastOther
          rw [List.inj_on_of_nodup_map distinct member memberOther (le_antisymm le ge)]

namespace Trie

variable {κ ν : Type}

/-- The leaves below a trail, each with its trail, key and value. -/
def leaves (trail : List κ) : Trie κ ν → List (List κ × κ × ν)
  | nil => []
  | cons key value nil rest => (trail, key, value) :: leaves trail rest
  | cons key _ (cons childKey child grandchildren siblings) rest =>
      leaves (trail ++ [key]) (cons childKey child grandchildren siblings) ++ leaves trail rest

/-- The leaves of a node: itself when it has no children. -/
def nodeLeaves (trail : List κ) (key : κ) (value : ν) : Trie κ ν → List (List κ × κ × ν)
  | nil => [(trail, key, value)]
  | cons childKey child grandchildren siblings =>
      leaves (trail ++ [key]) (cons childKey child grandchildren siblings)

theorem leaves_cons (trail : List κ) (key : κ) (value : ν) (children rest : Trie κ ν) :
    leaves trail (cons key value children rest) =
      nodeLeaves trail key value children ++ leaves trail rest := by
  cases children with
  | nil => rfl
  | cons childKey child grandchildren siblings => rfl

/-- The values of the leaves are among the values. -/
theorem leaves_values_le (trail : List κ) (trie : Trie κ ν) :
    (((leaves trail trie).map fun leaf => leaf.2.2 : List ν) : Multiset ν) ≤ trie.values := by
  induction trail, trie using leaves.induct with
  | case1 trail => exact le_rfl
  | case2 trail key value rest ih =>
      simp only [leaves, values, List.map_cons, ← Multiset.cons_coe, zero_add]
      exact Multiset.cons_le_cons _ ih
  | case3 trail key value childKey child grandchildren siblings rest ihChild ihRest =>
      rw [leaves, values, List.map_append, ← Multiset.coe_add]
      exact (add_le_add ihChild ihRest).trans (Multiset.le_cons_self _ _)

/-- The same nested maps, with the siblings of each level in any order. -/
inductive Reordered : Trie κ ν → Trie κ ν → Prop
  | nil : Reordered nil nil
  | cons (key : κ) (value : ν) {children others rest more : Trie κ ν}
      (below : Reordered children others) (beside : Reordered rest more) :
      Reordered (cons key value children rest) (cons key value others more)
  | swap (key other : κ) (value stored : ν) (children others rest : Trie κ ν) :
      Reordered (cons key value children (cons other stored others rest))
        (cons other stored others (cons key value children rest))
  | trans {first second third : Trie κ ν} (one : Reordered first second)
      (two : Reordered second third) : Reordered first third

theorem Reordered.refl (trie : Trie κ ν) : Reordered trie trie := by
  induction trie with
  | nil => exact .nil
  | cons key value children rest ihChildren ihRest => exact .cons key value ihChildren ihRest

theorem Reordered.nil_iff {trie other : Trie κ ν} (reordered : Reordered trie other) :
    trie = .nil ↔ other = .nil := by
  induction reordered with
  | nil => exact Iff.rfl
  | cons key value below beside => simp only [reduceCtorEq]
  | swap => simp only [reduceCtorEq]
  | trans one two ihOne ihTwo => exact ihOne.trans ihTwo

/-- A traversal in another order meets the same leaves. -/
theorem Reordered.leaves_perm {trie other : Trie κ ν} (reordered : Reordered trie other)
    (trail : List κ) : (leaves trail trie).Perm (leaves trail other) := by
  induction reordered generalizing trail with
  | nil => exact .refl _
  | @cons key value children others rest more below beside ihBelow ihBeside =>
      rw [leaves_cons, leaves_cons]
      refine List.Perm.append ?_ (ihBeside trail)
      have same := below.nil_iff
      cases children with
      | nil =>
          rw [same.mp rfl]
      | cons childKey child grandchildren siblings =>
          cases others with
          | nil => cases same.mpr rfl
          | cons otherKey otherChild otherGrandchildren otherSiblings =>
              exact ihBelow (trail ++ [key])
  | swap key other value stored children others rest =>
      simp only [leaves_cons, ← List.append_assoc]
      exact List.perm_append_comm.append_right _
  | trans one two ihOne ihTwo => exact (ihOne trail).trans (ihTwo trail)

end Trie
end InferSched.Library

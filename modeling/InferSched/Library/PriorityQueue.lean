import Mathlib.Data.Multiset.AddSub
import Mathlib.Data.Multiset.MapFold
import Mathlib.Order.Defs.Unbundled

/-! # Priority queues

The contract of a priority queue, as a container that gives back a foremost
element: one that no other element of the queue is before. Which of several
foremost elements comes first is up to the queue, so a program is verified for
every instance of `PriorityQueue`. `SelectionQueue` is the simplest instance.
-/

namespace InferSched.Library

/-- A container `η` of elements `α`, where `before first second` says that the
first must come out of the queue ahead of the second. -/
class PriorityQueue (η : Type) (α : outParam Type) (before : outParam (α → α → Bool)) where
  empty : η
  push : η → α → η
  pop : η → Option (α × η)
  elements : η → Multiset α
  elements_empty : elements empty = 0
  elements_push (queue : η) (item : α) : elements (push queue item) = item ::ₘ elements queue
  elements_of_pop_none {queue : η} (none : pop queue = none) : elements queue = 0
  elements_of_pop_some {queue rest : η} {item : α} (popped : pop queue = some (item, rest)) :
    elements queue = item ::ₘ elements rest
  foremost {queue rest : η} {item : α} (popped : pop queue = some (item, rest)) :
    ∀ other ∈ elements queue, before other item = false

namespace PriorityQueue

variable {η α : Type} {before : α → α → Bool} [PriorityQueue η α before]

attribute [simp] elements_empty elements_push

def size (queue : η) : ℕ :=
  Multiset.card (elements queue)

/-- The foremost element. -/
def top? (queue : η) : Option α :=
  (pop queue).map Prod.fst

/-- Push every element of a list. -/
def pushAll (queue : η) (items : List α) : η :=
  items.foldl push queue

/-- A queue holds what was pushed, however it orders it. -/
theorem elements_pushAll (queue : η) (items : List α) :
    elements (pushAll queue items) = elements queue + items := by
  induction items generalizing queue with
  | nil => simp [pushAll]
  | cons item items ih =>
      change elements (pushAll (push queue item) items) = _
      rw [ih, elements_push, ← Multiset.cons_coe, Multiset.cons_add, Multiset.add_cons]

/-- A popped item was counted once. -/
theorem size_of_pop {queue rest : η} {item : α} (popped : pop queue = some (item, rest)) :
    size queue = size rest + 1 := by
  rw [size, elements_of_pop_some popped, Multiset.card_cons, size]

/-- A queue with items pops one. -/
theorem pop_ne_none {queue : η} (inhabited : size queue ≠ 0) : pop queue ≠ none := by
  intro none
  exact inhabited (by rw [size, elements_of_pop_none none, Multiset.card_zero])

/-- Queues with the same elements, no two of which are equally foremost, give the same
element and are left with the same elements. -/
theorem pop_congr {queue other : η} (same : elements other = elements queue)
    (total : ∀ first ∈ elements queue, ∀ second ∈ elements queue,
      before first second = false → before second first = false → first = second) :
    (pop queue = none ∧ pop other = none) ∨
      ∃ item rest left, pop queue = some (item, rest) ∧ pop other = some (item, left) ∧
        elements left = elements rest := by
  cases popped : pop queue with
  | none =>
      left
      refine ⟨rfl, ?_⟩
      by_contra some
      have empty : size other = 0 := by
        rw [size, same, elements_of_pop_none popped, Multiset.card_zero]
      obtain ⟨⟨item, rest⟩, found⟩ := Option.ne_none_iff_exists'.mp some
      rw [size_of_pop found] at empty
      exact absurd empty (Nat.succ_ne_zero _)
  | some entry =>
      right
      obtain ⟨item, rest⟩ := entry
      have inhabited : size other ≠ 0 := by
        rw [size, same, elements_of_pop_some popped, Multiset.card_cons]
        exact Nat.succ_ne_zero _
      obtain ⟨⟨found, left⟩, poppedOther⟩ := Option.ne_none_iff_exists'.mp (pop_ne_none inhabited)
      have member : item ∈ elements queue := by
        rw [elements_of_pop_some popped]
        exact Multiset.mem_cons_self _ _
      have memberOther : found ∈ elements queue := by
        rw [← same, elements_of_pop_some poppedOther]
        exact Multiset.mem_cons_self _ _
      have equal : found = item := by
        apply total found memberOther item member
        · exact foremost popped found memberOther
        · exact foremost poppedOther item (same ▸ member)
      subst equal
      refine ⟨found, rest, left, rfl, poppedOther, ?_⟩
      apply (Multiset.cons_inj_right found).mp
      rw [← elements_of_pop_some popped, ← elements_of_pop_some poppedOther, same]

end PriorityQueue

/-- A queue that keeps its elements in the order they came and looks for a
foremost one when it is asked. -/
structure SelectionQueue (α : Type) where
  items : List α
deriving DecidableEq

namespace SelectionQueue

variable {α : Type} {before : α → α → Bool}

/-- A finite list has an item that no other comes before. -/
theorem exists_foremost (transitive : ∀ a b c, before a b = true → before b c = true →
    before a c = true) (irreflexive : ∀ a, before a a = false) (items : List α)
    (inhabited : items ≠ []) : ∃ item ∈ items, ∀ other ∈ items, before other item = false := by
  induction items with
  | nil => exact absurd rfl inhabited
  | cons first later ih =>
      by_cases empty : later = []
      · subst empty
        refine ⟨first, List.mem_cons_self, ?_⟩
        intro other member
        rw [List.mem_singleton.mp member]
        exact irreflexive first
      · obtain ⟨item, member, least⟩ := ih empty
        by_cases ahead : before first item = true
        · refine ⟨first, List.mem_cons_self, ?_⟩
          intro other member'
          rcases List.mem_cons.mp member' with rfl | inLater
          · exact irreflexive other
          · by_contra earlier
            have both := transitive other first item (by simpa using earlier) ahead
            rw [least other inLater] at both
            cases both
        · refine ⟨item, List.mem_cons_of_mem _ member, ?_⟩
          intro other member'
          rcases List.mem_cons.mp member' with rfl | inLater
          · simpa using ahead
          · exact least other inLater

/-- The first element that no other is before. -/
def select (before : α → α → Bool) (items : List α) : Option α :=
  items.find? fun item => items.all fun other => !before other item

/-- What is selected is an item that no other comes before. -/
theorem select_spec {items : List α} {item : α} (selected : select before items = some item) :
    item ∈ items ∧ ∀ other ∈ items, before other item = false := by
  refine ⟨List.mem_of_find?_eq_some selected, ?_⟩
  intro other member
  have all := List.find?_some selected
  simpa using List.all_eq_true.mp all other member

/-- Selection is a priority queue for every strict order. -/
@[reducible] def queue [DecidableEq α]
    (transitive : ∀ a b c, before a b = true → before b c = true → before a c = true)
    (irreflexive : ∀ a, before a a = false) :
    PriorityQueue (SelectionQueue α) α before where
  empty := ⟨[]⟩
  push container item := ⟨container.items ++ [item]⟩
  pop container := (select before container.items).map fun item =>
    (item, ⟨container.items.erase item⟩)
  elements container := container.items
  elements_empty := rfl
  elements_push container item := by
    change ((container.items ++ [item] : List α) : Multiset α) =
      item ::ₘ (container.items : Multiset α)
    rw [Multiset.cons_coe, Multiset.coe_eq_coe]
    exact List.perm_append_singleton item container.items
  elements_of_pop_none {container} none := by
    by_contra inhabited
    have notNil : container.items ≠ [] := fun nil => inhabited (by rw [nil]; rfl)
    obtain ⟨item, member, least⟩ := exists_foremost transitive irreflexive _ notNil
    have unfound := List.find?_eq_none.mp (Option.map_eq_none_iff.mp none) item member
    rw [List.all_eq_true] at unfound
    exact unfound fun other isMember => by rw [least other isMember]; rfl
  elements_of_pop_some {container rest item} popped := by
    obtain ⟨found, selected, equal⟩ := Option.map_eq_some_iff.mp popped
    obtain ⟨rfl, rfl⟩ := Prod.mk.inj equal
    change (container.items : Multiset α) = found ::ₘ (container.items.erase found : Multiset α)
    rw [Multiset.cons_coe, Multiset.coe_eq_coe]
    exact List.perm_cons_erase (select_spec selected).1
  foremost {container rest item} popped := by
    obtain ⟨found, selected, equal⟩ := Option.map_eq_some_iff.mp popped
    obtain ⟨rfl, rfl⟩ := Prod.mk.inj equal
    exact (select_spec selected).2

end SelectionQueue
end InferSched.Library

import Mathlib.Data.List.Dedup

/-! # Order of last use

The distinct keys of a history of uses, the last used one first
(`Recency.byRecency`). A list that puts each used key in front is this order, and one
that also drops its last key when it is full holds as many keys of this order as fit
(`Recency.use_take`). A counter of the uses that stamps each used key gives the position
of its last use (`Recency.LastUse`).
-/

namespace InferSched.Library.Recency

variable {κ : Type*} [DecidableEq κ]

/-- The keys of a history, in the order of their last uses, the latest first. -/
def byRecency (uses : List κ) : List κ :=
  uses.dedup.reverse

theorem byRecency_nodup (uses : List κ) : (byRecency uses).Nodup :=
  List.nodup_reverse.mpr (List.nodup_dedup uses)

/-- The last key of a history comes last when only last uses are kept. -/
theorem dedup_snoc (uses : List κ) (key : κ) :
    (uses ++ [key]).dedup = uses.dedup.erase key ++ [key] := by
  induction uses with
  | nil => rfl
  | cons first later ih =>
      rw [List.cons_append]
      by_cases again : first ∈ later
      · rw [List.dedup_cons_of_mem (List.mem_append_left _ again), ih,
          List.dedup_cons_of_mem again]
      · by_cases same : first = key
        · subst same
          have free : first ∉ later.dedup := fun member => again (List.mem_dedup.mp member)
          rw [List.dedup_cons_of_mem (List.mem_append_right _ (List.mem_singleton_self _)), ih,
            List.dedup_cons_of_notMem again, List.erase_cons_head, List.erase_of_not_mem free]
        · have fresh : first ∉ later ++ [key] := by
            rw [List.mem_append, List.mem_singleton, not_or]
            exact ⟨again, same⟩
          rw [List.dedup_cons_of_notMem fresh, ih, List.dedup_cons_of_notMem again,
            List.erase_cons_tail (by simpa using same), List.cons_append]

/-- A use brings its key to the front. -/
theorem byRecency_snoc (uses : List κ) (key : κ) :
    byRecency (uses ++ [key]) = key :: (byRecency uses).erase key := by
  rw [(byRecency_nodup uses).erase_eq_filter, byRecency, dedup_snoc,
    (List.nodup_dedup uses).erase_eq_filter, List.reverse_append, byRecency,
    List.filter_reverse]
  rfl

/-- A use of a list with limited room: the key comes to the front, and when it is new and
there is no room the last key goes. -/
def use (capacity : ℕ) (key : κ) (recency : List κ) : List κ :=
  if key ∈ recency then key :: recency.erase key
  else if recency.length = capacity then key :: recency.dropLast
  else key :: recency

/-- Taking one key out of the front of a list brings the next one in. -/
theorem take_erase_of_mem {keys : List κ} {key : κ} {count : ℕ} (distinct : keys.Nodup)
    (member : key ∈ keys.take (count + 1)) :
    (keys.erase key).take count = (keys.take (count + 1)).erase key := by
  induction keys generalizing count with
  | nil => cases member
  | cons first later ih =>
      by_cases same : first = key
      · subst same
        rw [List.take_succ_cons, List.erase_cons_head, List.erase_cons_head]
      · have tail : ¬(first == key) = true := by simpa using same
        rw [List.take_succ_cons, List.mem_cons] at member
        have inLater := member.resolve_left (Ne.symm same)
        cases count with
        | zero => cases inLater
        | succ count =>
            rw [List.take_succ_cons, List.erase_cons_tail tail, List.erase_cons_tail tail,
              List.take_succ_cons, ih (List.nodup_cons.mp distinct).2 inLater]

/-- Taking out a later key leaves the front as it is. -/
theorem take_erase_of_notMem {keys : List κ} {key : κ} {count : ℕ}
    (absent : key ∉ keys.take count) : (keys.erase key).take count = keys.take count := by
  induction keys generalizing count with
  | nil => rfl
  | cons first later ih =>
      cases count with
      | zero => rfl
      | succ count =>
          rw [List.take_succ_cons, List.mem_cons, not_or] at absent
          rw [List.erase_cons_tail (by simpa using Ne.symm absent.1), List.take_succ_cons,
            List.take_succ_cons, ih absent.2]

/-- **Least recently used.** With room for at least one key, the front of the order of
last use is kept by uses of the limited list. -/
theorem use_take {capacity : ℕ} (positive : 0 < capacity) (uses : List κ) (key : κ) :
    use capacity key ((byRecency uses).take capacity) =
      (byRecency (uses ++ [key])).take capacity := by
  obtain ⟨room, rfl⟩ := Nat.exists_eq_succ_of_ne_zero (Nat.ne_of_gt positive)
  rw [byRecency_snoc, List.take_succ_cons, use]
  by_cases known : key ∈ (byRecency uses).take (room + 1)
  · rw [if_pos known, take_erase_of_mem (byRecency_nodup uses) known]
  · rw [if_neg known]
    have front : key ∉ (byRecency uses).take room := fun member =>
      known (List.take_subset_take_left _ (Nat.le_succ room) member)
    rw [take_erase_of_notMem front]
    split
    · next full =>
        rw [List.length_take] at full
        rw [List.dropLast_eq_take, List.length_take, List.take_take]
        congr 2
        omega
    · next spare =>
        rw [List.length_take] at spare
        have short : (byRecency uses).length ≤ room := by omega
        rw [List.take_of_length_le short, List.take_of_length_le (Nat.le_succ_of_le short)]

/-- Bringing a listed key to the front is a use of it. -/
theorem use_of_mem [BEq κ] [LawfulBEq κ] {capacity : ℕ} {key : κ} {recency : List κ}
    (listed : key ∈ recency) : use capacity key recency = key :: recency.erase key := by
  rw [use, if_pos listed]
  exact congrArg (fun equal : BEq κ => key :: @List.erase κ equal recency key)
    (lawful_beq_subsingleton _ _)

theorem length_use_le {capacity : ℕ} {recency : List κ} (positive : 0 < capacity)
    (within : recency.length ≤ capacity) (key : κ) :
    (use capacity key recency).length ≤ capacity := by
  unfold use
  split
  · next listed =>
      rw [List.length_cons, List.length_erase_of_mem listed]
      have := List.length_pos_of_mem listed
      omega
  · split
    · next full =>
        rw [List.length_cons, List.length_dropLast]
        omega
    · next spare =>
        rw [List.length_cons]
        omega

/-- Keys that are listed in the order of last use, with others between them, stay so
when one of them is used. -/
theorem sublist_use {capacity : ℕ} {recency uses : List κ} (key : κ)
    (ordered : recency.Sublist (byRecency uses)) :
    (use capacity key recency).Sublist (byRecency (uses ++ [key])) := by
  rw [byRecency_snoc]
  have front : ∀ kept : List κ, kept.Sublist recency → key ∉ kept →
      (key :: kept).Sublist (key :: (byRecency uses).erase key) := by
    intro kept inside fresh
    have whole := (inside.trans ordered).erase key
    rw [List.erase_of_not_mem fresh] at whole
    exact whole.cons_cons key
  unfold use
  split
  · exact (ordered.erase key).cons_cons key
  · next fresh =>
      split
      · exact front _ (List.dropLast_sublist _)
          fun member => fresh (List.dropLast_subset _ member)
      · exact front _ (List.Sublist.refl _) fresh

/-! ### Positions of last uses -/

/-- The position of the last use of a key, counted from one. -/
def LastUse (uses : List κ) (key : κ) (position : ℕ) : Prop :=
  ∃ earlier later, uses = earlier ++ key :: later ∧ key ∉ later ∧ position = earlier.length + 1

namespace LastUse

variable {uses : List κ} {key other : κ} {position : ℕ}

omit [DecidableEq κ]

/-- Uses of other keys leave the last use where it is. -/
theorem append (last : LastUse uses key position) {more : List κ} (absent : key ∉ more) :
    LastUse (uses ++ more) key position := by
  obtain ⟨earlier, later, rfl, fresh, rfl⟩ := last
  refine ⟨earlier, later ++ more, by rw [List.append_assoc, List.cons_append], ?_, rfl⟩
  rw [List.mem_append, not_or]
  exact ⟨fresh, absent⟩

/-- A use among new ones is the last when its key does not come again. -/
theorem among {before after : List κ} (uses : List κ) (fresh : key ∉ after) :
    LastUse (uses ++ (before ++ key :: after)) key (uses.length + before.length + 1) :=
  ⟨uses ++ before, after, by rw [List.append_assoc], fresh, by rw [List.length_append]⟩

/-- Different keys are last used at different positions. -/
theorem key_eq (last : LastUse uses key position) (otherLast : LastUse uses other position) :
    key = other := by
  obtain ⟨earlier, later, rfl, -, rfl⟩ := last
  obtain ⟨otherEarlier, otherLater, same, -, lengths⟩ := otherLast
  exact (List.cons.inj (List.append_inj same (Nat.succ.inj lengths)).2).1

/-- A key that is last used at a later position is used after the last use. -/
theorem later_mem {earlier later : List κ} (split : uses = earlier ++ key :: later)
    {otherPosition : ℕ} (otherLast : LastUse uses other otherPosition)
    (after : earlier.length + 1 < otherPosition) : other ∈ later := by
  obtain ⟨otherEarlier, otherLater, same, -, rfl⟩ := otherLast
  have found : uses[otherEarlier.length]? = some other := by
    rw [same, List.getElem?_append_right (Nat.le_refl _), Nat.sub_self]
    rfl
  rw [split, List.getElem?_append_right (by omega)] at found
  obtain ⟨offset, offsetIs⟩ : ∃ offset, otherEarlier.length - earlier.length = offset + 1 :=
    ⟨otherEarlier.length - earlier.length - 1, by omega⟩
  rw [offsetIs, List.getElem?_cons_succ] at found
  exact List.mem_of_getElem? found

end LastUse

end InferSched.Library.Recency

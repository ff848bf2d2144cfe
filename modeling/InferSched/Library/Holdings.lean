import Mathlib.Data.List.AList

/-! # Tables of holders

An association list from holders to the resources each of them lists, with the
number of holders that list a given resource and how that number moves when a
holder enters, leaves or is rewritten.
-/

namespace AList

variable {κ : Type*} [DecidableEq κ] {β : κ → Type*}

/-- A stored entry comes apart from the rest of its association list. -/
theorem entries_perm_of_lookup {key : κ} {value : β key} {table : AList β}
    (found : table.lookup key = some value) :
    table.entries.Perm (⟨key, value⟩ :: (table.erase key).entries) := by
  have member : (⟨key, value⟩ : Sigma β) ∈ table.entries := mem_lookup_iff.mp found
  have removed : ∀ entries : List (Sigma β), entries.NodupKeys →
      (⟨key, value⟩ : Sigma β) ∈ entries →
      entries.Perm (⟨key, value⟩ :: entries.kerase key) := by
    intro entries
    induction entries with
    | nil => intro _ absent; exact absurd absent List.not_mem_nil
    | cons head tail ih =>
        intro distinct present
        by_cases same : key = head.1
        · have equal : (⟨key, value⟩ : Sigma β) = head :=
            distinct.eq_of_fst_eq present List.mem_cons_self same
          rw [List.kerase_cons_eq same, equal]
        · have later : (⟨key, value⟩ : Sigma β) ∈ tail := by
            rcases List.mem_cons.mp present with equal | later
            · exact absurd (congrArg Sigma.fst equal) same
            · exact later
          rw [List.kerase_cons_ne same]
          exact ((ih (List.nodupKeys_of_nodupKeys_cons distinct) later).cons head).trans
            (List.Perm.swap _ _ _)
  exact removed table.entries table.nodupKeys member

/-- Erasing an absent key changes nothing. -/
theorem erase_of_notMem {key : κ} {table : AList β} (absent : key ∉ table) :
    table.erase key = table :=
  ext (List.kerase_of_notMem_keys absent)

omit [DecidableEq κ] in
/-- A table has as many entries as a list of its keys. -/
theorem length_entries {table : AList β} {keys : List κ} (distinct : keys.Nodup)
    (same : ∀ key, key ∈ keys ↔ key ∈ table) : table.entries.length = keys.length := by
  have order : table.keys.Perm keys :=
    (List.perm_ext_iff_of_nodup table.keys_nodup distinct).mpr fun key => (same key).symm
  have lengths := order.length_eq
  rwa [AList.keys, List.keys, List.length_map] at lengths

end AList

namespace InferSched.Library

/-- The resources listed by each holder. -/
abbrev Holdings (κ ρ : Type*) := AList fun _ : κ => List ρ

namespace Holdings

variable {κ ρ : Type*} [DecidableEq κ] [DecidableEq ρ]

/-- The number of holders that list a resource. -/
def holders (table : Holdings κ ρ) (resource : ρ) : ℕ :=
  table.entries.countP fun entry => resource ∈ entry.2

/-- Writing a holder's list counts that list and every other holder. -/
theorem holders_insert (table : Holdings κ ρ) (key : κ) (listed : List ρ) (resource : ρ) :
    holders (table.insert key listed) resource =
      holders (table.erase key) resource + if resource ∈ listed then 1 else 0 := by
  unfold holders
  rw [AList.entries_insert, List.countP_cons]
  simp only [decide_eq_true_eq]
  rfl

/-- A new holder adds one to each resource it lists. -/
theorem holders_insert_of_notMem {table : Holdings κ ρ} {key : κ} (absent : key ∉ table)
    (listed : List ρ) (resource : ρ) :
    holders (table.insert key listed) resource =
      holders table resource + if resource ∈ listed then 1 else 0 := by
  rw [holders_insert, AList.erase_of_notMem absent]

/-- The holders of a resource are a stored holder and the others. -/
theorem holders_of_lookup {table : Holdings κ ρ} {key : κ} {listed : List ρ}
    (found : table.lookup key = some listed) (resource : ρ) :
    holders table resource =
      holders (table.erase key) resource + if resource ∈ listed then 1 else 0 := by
  unfold holders
  rw [(AList.entries_perm_of_lookup found).countP_eq, List.countP_cons]
  simp only [decide_eq_true_eq]

/-- A resource has a holder exactly when some stored list has it. -/
theorem holders_pos_iff {table : Holdings κ ρ} {resource : ρ} :
    0 < holders table resource ↔
      ∃ key listed, table.lookup key = some listed ∧ resource ∈ listed := by
  unfold holders
  rw [List.countP_pos_iff]
  constructor
  · rintro ⟨⟨key, listed⟩, member, has⟩
    exact ⟨key, listed, AList.mem_lookup_iff.mpr member, of_decide_eq_true has⟩
  · rintro ⟨key, listed, found, has⟩
    exact ⟨⟨key, listed⟩, AList.mem_lookup_iff.mp found, decide_eq_true has⟩

end Holdings
end InferSched.Library

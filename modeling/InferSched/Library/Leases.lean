import Mathlib.Data.List.AList
import Mathlib.Logic.Function.Basic

/-! # Leases

Records that are granted at a time each and lapse a fixed time later. A service keeps a
table of them and drops those that have lapsed, at moments of its own choosing. The ledger
holds the last grant of each key and drops nothing. As long as the table follows the ledger
(`Leases.Follows`), what an expiry leaves of the table is exactly what is live of the ledger.
-/

namespace AList

variable {κ ρ : Type*}

/-- The entries of a table whose values pass a test. -/
def filterValues (keep : ρ → Bool) (table : AList fun _ : κ => ρ) : AList fun _ : κ => ρ where
  entries := table.entries.filter fun entry => keep entry.2
  nodupKeys := table.nodupKeys.sublist List.filter_sublist

variable [DecidableEq κ]

@[simp] theorem lookup_filterValues (keep : ρ → Bool) (table : AList fun _ : κ => ρ) (key : κ) :
    (table.filterValues keep).lookup key = (table.lookup key).filter keep := by
  ext record
  rw [Option.filter_eq_some_iff]
  constructor
  · intro found
    obtain ⟨held, passes⟩ := List.mem_filter.mp (mem_lookup_iff.mp found)
    exact ⟨mem_lookup_iff.mpr held, passes⟩
  · rintro ⟨held, passes⟩
    exact mem_lookup_iff.mpr (List.mem_filter.mpr ⟨mem_lookup_iff.mp held, passes⟩)

end AList

namespace InferSched.Library.Leases

variable {κ ρ : Type*} {granted : ρ → ℤ} {ttl now : ℤ} {table ledger : κ → Option ρ}

/-- A record is live for less than the time to live after it was granted. -/
def Live (granted : ρ → ℤ) (ttl now : ℤ) (record : ρ) : Prop :=
  now - granted record < ttl

instance (record : ρ) : Decidable (Live granted ttl now record) :=
  inferInstanceAs (Decidable (_ < _))

/-- What is live was live before. -/
theorem Live.earlier {record : ρ} {next : ℤ} (live : Live granted ttl next record)
    (ordered : now ≤ next) : Live granted ttl now record := by
  unfold Live at live ⊢
  omega

/-- A table that holds only last grants, and every one that is live. -/
structure Follows (granted : ρ → ℤ) (ttl now : ℤ) (table ledger : κ → Option ρ) : Prop where
  sound : ∀ key record, table key = some record → ledger key = some record
  kept : ∀ key record, ledger key = some record → Live granted ttl now record →
    table key = some record

namespace Follows

/-- Time passes. -/
theorem later (follows : Follows granted ttl now table ledger) {next : ℤ} (ordered : now ≤ next) :
    Follows granted ttl next table ledger where
  sound := follows.sound
  kept key record last live := follows.kept key record last (live.earlier ordered)

/-- **What an expiry leaves is what is live.** -/
theorem filter_eq_some (follows : Follows granted ttl now table ledger) {key : κ} {record : ρ} :
    (table key).filter (fun held => decide (Live granted ttl now held)) = some record ↔
      ledger key = some record ∧ Live granted ttl now record := by
  rw [Option.filter_eq_some_iff, decide_eq_true_iff]
  constructor
  · rintro ⟨held, live⟩
    exact ⟨follows.sound key record held, live⟩
  · rintro ⟨last, live⟩
    exact ⟨follows.kept key record last live, live⟩

theorem expire (follows : Follows granted ttl now table ledger) :
    Follows granted ttl now
      (fun key => (table key).filter fun held => decide (Live granted ttl now held)) ledger where
  sound _ _ held := (follows.filter_eq_some.mp held).1
  kept _ _ last live := follows.filter_eq_some.mpr ⟨last, live⟩

/-- A grant goes to both. -/
theorem grant [DecidableEq κ] (follows : Follows granted ttl now table ledger) (key : κ)
    (record : ρ) : Follows granted ttl now (Function.update table key (some record))
      (Function.update ledger key (some record)) where
  sound other held found := by
    by_cases same : other = key
    · subst same
      rwa [Function.update_self] at found ⊢
    · rw [Function.update_of_ne same] at found ⊢
      exact follows.sound other held found
  kept other held last live := by
    by_cases same : other = key
    · subst same
      rwa [Function.update_self] at last ⊢
    · rw [Function.update_of_ne same] at last ⊢
      exact follows.kept other held last live

end Follows

end InferSched.Library.Leases

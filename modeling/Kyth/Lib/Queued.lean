import Mathlib.Data.List.AList
import Mathlib.Data.List.Perm.Lattice

/-!
# A table with a queue of its keys

A table that is kept together with the list of its keys, oldest first. The age of an entry is a number
that its value carries. `InStep` says that the queue lists exactly the keys of the table, in the order
of their age; each operation on the pair keeps it.
-/

namespace Kyth.Queued

variable {α β : Type} [DecidableEq α]

/-- The entries that pass a test. -/
def retain (keep : α → β → Bool) (table : AList fun _ : α => β) : AList fun _ : α => β where
  entries := table.entries.filter fun entry => keep entry.1 entry.2
  nodupKeys := table.nodupKeys.sublist List.filter_sublist

variable {keep : α → β → Bool} {table : AList fun _ : α => β} {order : List α} {key : α} {value : β}

theorem lookup_retain_eq_some :
    (retain keep table).lookup key = some value ↔
      table.lookup key = some value ∧ keep key value = true := by
  rw [← Option.mem_def, ← Option.mem_def, AList.mem_lookup_iff, AList.mem_lookup_iff]
  exact List.mem_filter

theorem mem_iff_lookup : key ∈ table ↔ ∃ value, table.lookup key = some value := by
  rw [← AList.lookup_isSome, Option.isSome_iff_exists]

theorem mem_of_mem_retain (h : key ∈ retain keep table) : key ∈ table := by
  obtain ⟨value, hvalue⟩ := mem_iff_lookup.mp h
  exact mem_iff_lookup.mpr ⟨value, (lookup_retain_eq_some.mp hvalue).1⟩

/-- The queue lists the keys of the table, oldest first. -/
structure InStep (age : β → ℕ) (table : AList fun _ : α => β) (order : List α) : Prop where
  mem_iff : ∀ key, key ∈ order ↔ key ∈ table
  sorted : order.Pairwise fun first second => ∀ v w, table.lookup first = some v →
    table.lookup second = some w → age v < age w

namespace InStep

variable {age : β → ℕ}

theorem empty : InStep age (∅ : AList fun _ : α => β) [] where
  mem_iff key := by simp
  sorted := List.Pairwise.nil

theorem nodup (h : InStep age table order) : order.Nodup := by
  refine h.sorted.imp_of_mem ?_
  rintro first second hfirst - hlt rfl
  obtain ⟨v, hv⟩ := mem_iff_lookup.mp ((h.mem_iff first).mp hfirst)
  exact Nat.lt_irrefl _ (hlt v v hv hv)

theorem perm (h : InStep age table order) : order.Perm table.keys :=
  (List.perm_ext_iff_of_nodup h.nodup table.keys_nodup).mpr h.mem_iff

theorem length_eq (h : InStep age table order) : order.length = table.keys.length :=
  h.perm.length_eq

/-- A part of the table, with the queue cut down to it. -/
theorem filter (h : InStep age table order) {smaller : AList fun _ : α => β} {p : α → Bool}
    (hlookup : ∀ key v, smaller.lookup key = some v → table.lookup key = some v)
    (hp : ∀ key ∈ table, p key = true ↔ key ∈ smaller) :
    InStep age smaller (order.filter p) where
  mem_iff key := by
    rw [List.mem_filter, h.mem_iff]
    constructor
    · rintro ⟨hkey, hpass⟩
      exact (hp key hkey).mp hpass
    · intro hkey
      obtain ⟨v, hv⟩ := mem_iff_lookup.mp hkey
      have hmem : key ∈ table := mem_iff_lookup.mpr ⟨v, hlookup key v hv⟩
      exact ⟨hmem, (hp key hmem).mpr hkey⟩
  sorted := by
    refine (h.sorted.sublist List.filter_sublist).imp ?_
    intro first second hlt v w hv hw
    exact hlt v w (hlookup first v hv) (hlookup second w hw)

theorem retain (h : InStep age table order) (keep : α → β → Bool) :
    InStep age (retain keep table)
      (order.filter fun key => decide (key ∈ Queued.retain keep table)) :=
  h.filter (fun _ _ hv => (lookup_retain_eq_some.mp hv).1) fun _ _ => decide_eq_true_iff

theorem erase (h : InStep age table order) (victim : α) :
    InStep age (table.erase victim) (order.filter fun key => decide (key ≠ victim)) := by
  refine h.filter ?_ ?_
  · intro key v hv
    have hne : key ≠ victim := by
      rintro rfl
      rw [AList.lookup_erase] at hv
      exact absurd hv nofun
    rwa [AList.lookup_erase_ne hne] at hv
  · intro key hkey
    simp [AList.mem_erase, hkey]

/-- A new entry that is younger than all others goes to the end of the queue. -/
theorem push (h : InStep age table order) (hfresh : key ∉ table)
    (hyoung : ∀ other v, table.lookup other = some v → age v < age value) :
    InStep age (table.insert key value) (order ++ [key]) where
  mem_iff other := by
    rw [List.mem_append, List.mem_singleton, AList.mem_insert, h.mem_iff, or_comm]
  sorted := by
    have hold : ∀ other ∈ order, (table.insert key value).lookup other = table.lookup other := by
      intro other hother
      refine AList.lookup_insert_ne ?_
      rintro rfl
      exact hfresh ((h.mem_iff other).mp hother)
    rw [List.pairwise_append]
    refine ⟨h.sorted.imp_of_mem ?_, List.pairwise_singleton _ _, ?_⟩
    · intro first second hfirst hsecond hlt v w hv hw
      rw [hold first hfirst] at hv
      rw [hold second hsecond] at hw
      exact hlt v w hv hw
    · intro first hfirst last hlast v w hv hw
      rw [List.mem_singleton.mp hlast, AList.lookup_insert, Option.some.injEq] at hw
      rw [hold first hfirst] at hv
      exact hw ▸ hyoung first v hv

/-- A new value of the same age. -/
theorem update (h : InStep age table order) {old : β} (hold : table.lookup key = some old)
    (hage : age value = age old) : InStep age (table.insert key value) order where
  mem_iff other := by
    rw [AList.mem_insert, h.mem_iff]
    constructor
    · exact Or.inr
    · rintro (rfl | hother)
      · exact mem_iff_lookup.mpr ⟨old, hold⟩
      · exact hother
  sorted := by
    have hback : ∀ other v, (table.insert key value).lookup other = some v →
        ∃ u, table.lookup other = some u ∧ age u = age v := by
      intro other v hv
      by_cases hother : other = key
      · subst hother
        rw [AList.lookup_insert, Option.some.injEq] at hv
        exact ⟨old, hold, by rw [← hv, hage]⟩
      · rw [AList.lookup_insert_ne hother] at hv
        exact ⟨v, hv, rfl⟩
    refine h.sorted.imp ?_
    intro first second hlt v w hv hw
    obtain ⟨v', hv', hagev⟩ := hback first v hv
    obtain ⟨w', hw', hagew⟩ := hback second w hw
    have := hlt v' w' hv' hw'
    omega

end InStep

end Kyth.Queued

import Kyth.Lib.Lineage
import Kyth.Probe.Cache

/-!
# Concurrent updates of one cache file (`update_sections`, `write_cache_file`)

An update loads the document, merges its sections into what it has seen and replaces the file. The lock
covers the replacement only, so an update drops whatever was written between its load and its
replacement. `kept_iff` says exactly which schedules keep the sections of every call.
-/

namespace Kyth.Probe

open Lineage

variable {δ ι : Type}

/-- A call of `update_sections`: its sections, and the time it reads for their stamp. -/
structure Call (δ : Type) where
  sections : Collected δ
  now : ℚ

/-- The file that a call writes, from the file it has loaded. -/
def updateSections (calls : ι → Call δ) (i : ι) (file : Option (Sections δ)) : Option (Sections δ) :=
  some (updatedDocument (calls i).sections (calls i).now file)

/-- The call writes the section. -/
def Call.Writes (call : Call δ) (key : String) : Prop := ∃ data, call.sections key = some data

/-- The file holds, for the section, the data of a call that wrote it. -/
def HoldsWritten (calls : ι → Call δ) (file : Option (Sections δ)) (key : String) : Prop :=
  ∃ entry, entryOf file key = some entry ∧ ∃ i, (calls i).sections key = some entry.data

/-- No section of a call is lost. -/
def Kept (calls : ι → Call δ) (file : Option (Sections δ)) : Prop :=
  ∀ i key, (calls i).Writes key → HoldsWritten calls file key

/-- The file after a schedule of loads and replacements. -/
def fileAfter [DecidableEq ι] (calls : ι → Call δ) (file : Option (Sections δ))
    (steps : List (Step ι)) : Option (Sections δ) :=
  ((Cell.start file).run (updateSections calls) steps).value

/-- All calls of a schedule have returned. -/
def AllReturned [DecidableEq ι] (calls : ι → Call δ) (file : Option (Sections δ))
    (steps : List (Step ι)) : Prop :=
  ∀ i, ((Cell.start file).run (updateSections calls) steps).phases i = .returned

variable {calls : ι → Call δ} {file : Option (Sections δ)} {key : String} {chain : List ι} {i : ι}

theorem holdsWritten_of_writes (h : (calls i).Writes key) (file : Option (Sections δ)) :
    HoldsWritten calls (updateSections calls i file) key := by
  obtain ⟨data, hdata⟩ := h
  refine ⟨⟨some (calls i).now, data⟩, ?_, i, hdata⟩
  rw [updateSections, entryOf_updatedDocument, hdata]

theorem entryOf_of_not_writes (h : ¬ (calls i).Writes key) (file : Option (Sections δ)) :
    entryOf (updateSections calls i file) key = entryOf file key := by
  have hnone : (calls i).sections key = none := by
    cases hsection : (calls i).sections key with
    | none => rfl
    | some data => exact absurd ⟨data, hsection⟩ h
  rw [updateSections, entryOf_updatedDocument, hnone]

/-- A file made by a chain of calls holds a section when one of them wrote it, or when the file they
started from holds it. -/
theorem holdsWritten_foldr :
    HoldsWritten calls (chain.foldr (updateSections calls) file) key ↔
      (∃ i ∈ chain, (calls i).Writes key) ∨ HoldsWritten calls file key := by
  induction chain with
  | nil => simp
  | cons j chain ih =>
    rw [List.foldr_cons]
    by_cases hwrites : (calls j).Writes key
    · constructor
      · intro _
        exact .inl ⟨j, List.mem_cons_self, hwrites⟩
      · intro _
        exact holdsWritten_of_writes hwrites _
    · have hsame : HoldsWritten calls (updateSections calls j (chain.foldr (updateSections calls) file))
          key ↔ HoldsWritten calls (chain.foldr (updateSections calls) file) key := by
        simp only [HoldsWritten, entryOf_of_not_writes hwrites]
      rw [hsame, ih, List.exists_mem_cons_iff]
      simp only [hwrites, false_or]

/-- The sections of all calls are kept exactly when every section is written by a call of the file's
lineage, or is one that the file held before with the data of a call. -/
theorem kept_iff [DecidableEq ι] (calls : ι → Call δ) (file : Option (Sections δ))
    (steps : List (Step ι)) :
    Kept calls (fileAfter calls file steps) ↔
      ∀ i key, (calls i).Writes key →
        (∃ j ∈ lineage steps, (calls j).Writes key) ∨ HoldsWritten calls file key := by
  have hvalue : fileAfter calls file steps = (lineage steps).foldr (updateSections calls) file :=
    value_run (updateSections calls) file steps
  simp only [Kept, hvalue, holdsWritten_foldr]

/-! ### Two overlapping updates -/

/-- Two calls that write different sections. -/
def twoCalls (i : Fin 2) : Call String where
  sections key :=
    if key = (if i = 0 then "bootc-branch" else "kernel-flavor") then some (some "x") else none
  now := 0

/-- The second call loads the document before the first has replaced it. -/
def overlapping : List (Step (Fin 2)) := [.load 0, .load 1, .replace 0, .replace 1]

/-- Both calls return, and the section of the first is lost. -/
theorem first_section_lost :
    AllReturned twoCalls none overlapping ∧ ¬ Kept twoCalls (fileAfter twoCalls none overlapping) := by
  refine ⟨?_, ?_⟩
  · intro i
    fin_cases i <;> rfl
  · intro h
    have hwrites : (twoCalls 0).Writes "bootc-branch" := ⟨some "x", by decide⟩
    obtain ⟨entry, hentry, -⟩ := h 0 "bootc-branch" hwrites
    have hlost : entryOf (fileAfter twoCalls none overlapping) "bootc-branch" = none := by decide
    rw [hlost] at hentry
    cases hentry

end Kyth.Probe

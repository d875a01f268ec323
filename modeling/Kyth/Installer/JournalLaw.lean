import Kyth.Installer.JournalBytes

/-!
# Sequences of records

What any sequence of `record` calls leaves on the disk, told without the bytes: a refused call changes nothing,
a started record is one more open record, and a completed record closes the last open one of its operation, or
is one more record when there is none.

`journal_law` says that the file follows this account, as long as it fits the size that is read.
-/

namespace Kyth.OnDisk

open Str Json Check Durable

/-! ### What a sequence of calls should leave -/

/-- A call of `record`, with what the clock tells. -/
structure RecordCall where
  op : String
  state : OpState
  now : Except String UInt64

/-- A record that is open, of an operation. -/
def IsOpen (name : OpName) (op : JournalOp) : Prop := op.name = name ∧ op.completed = none

/-- One record. -/
inductive Records (name : OpName) (now : UInt64) : OpState → List JournalOp → List JournalOp → Prop
  | started (ops) : Records name now .started ops (ops ++ [⟨name, now, none⟩])
  | closed {before op after} (hopen : IsOpen name op) (hlast : ∀ later ∈ after, ¬ IsOpen name later) :
      Records name now .completed (before ++ op :: after)
        (before ++ { op with completed := some now } :: after)
  | standalone {ops} (hnone : ∀ op ∈ ops, ¬ IsOpen name op) :
      Records name now .completed ops (ops ++ [⟨name, now, some now⟩])

/-- The calls with their results, and the records before and after them. A call is only refused for its name,
for the clock, or because the place of the temporary file is `blocked`. -/
inductive History (blocked : Prop) :
    List (RecordCall × Except Fault Unit) → List JournalOp → List JournalOp → Prop
  | nil (ops) : History blocked [] ops ops
  | refused {call fault rest ops ops'}
      (hrefused : ¬ Passes (validatedOpName call.op) ∨ ¬ Passes call.now ∨ blocked)
      (hrest : History blocked rest ops ops') : History blocked ((call, .error fault) :: rest) ops ops'
  | recorded {call name now rest ops between ops'} (hname : validatedOpName call.op = .ok name)
      (hnow : call.now = .ok now) (hrecords : Records name now call.state ops between)
      (hrest : History blocked rest between ops') : History blocked ((call, .ok ()) :: rest) ops ops'

/-- A record that was there is there, and may have been closed. -/
def Continues (op op' : JournalOp) : Prop :=
  op' = op ∨ op.completed = none ∧ ∃ now, op' = { op with completed := some now }

/-- Every record is there, in the same order and in front of the new ones. -/
inductive Kept : List JournalOp → List JournalOp → Prop
  | added (more) : Kept [] more
  | cons {op op' ops ops'} (hop : Continues op op') (hops : Kept ops ops') : Kept (op :: ops) (op' :: ops')

/-- What is on the disk after some calls. -/
structure Lawful (blocked : Prop) (results : List (RecordCall × Except Fault Unit))
    (state final : JournalState) : Prop where
  history : History blocked results state.ops final.ops
  kept : Kept state.ops final.ops
  completed : ∀ n, final.completed n = true ↔ state.completed n = true ∨
    ∃ call, (call, .ok ()) ∈ results ∧ call.state = .completed ∧ trim call.op = n

section Calls

variable (fromSlice : List UInt8 → Except String Value) (journal : Handle)

/-- Some calls in a row, with their results. -/
def recordAll : List RecordCall → Disk → List (Except Fault Unit) × Disk
  | [], disk => ([], disk)
  | call :: calls, disk =>
      let (result, disk) := record fromSlice journal call.op call.state call.now disk
      let (results, disk) := recordAll calls disk
      (result :: results, disk)

/-- Whenever a call writes, what it writes fits. -/
def Within : List RecordCall → Disk → Prop
  | [], _ => True
  | call :: calls, disk =>
      (∀ name now current, validatedOpName call.op = .ok name → call.now = .ok now →
        loadAt fromSlice disk journal.path = .ok current →
        (journalBytes (recordIn name now current call.state)).length ≤ maxJournalBytes) ∧
      Within calls (record fromSlice journal call.op call.state call.now disk).2

end Calls

/-! ### One record -/

section Record

variable {name : OpName} {now : UInt64} {ops closed : List JournalOp}

theorem not_isOpen_of_closeLast (h : closeLast name now ops = none) : ∀ op ∈ ops, ¬ IsOpen name op := by
  induction ops with
  | nil => exact fun _ hop => nomatch hop
  | cons op ops ih =>
    simp only [closeLast] at h
    split at h
    · cases h
    · rename_i hrest
      split_ifs at h with hopen
      exact List.forall_mem_cons.2 ⟨hopen, ih hrest⟩

/-- The loop from the end finds the last open record. -/
theorem closeLast_split (h : closeLast name now ops = some closed) :
    ∃ before op after, ops = before ++ op :: after ∧ IsOpen name op ∧
      (∀ later ∈ after, ¬ IsOpen name later) ∧
      closed = before ++ { op with completed := some now } :: after := by
  induction ops generalizing closed with
  | nil => cases h
  | cons op ops ih =>
    obtain ⟨rest, hrest, rfl⟩ | ⟨hrest, hopen, rfl⟩ := closeLast_cons_eq_some h
    · obtain ⟨before, found, after, rfl, hopen, hlast, rfl⟩ := ih hrest
      exact ⟨op :: before, found, after, rfl, hopen, hlast, rfl⟩
    · exact ⟨[], op, ops, rfl, hopen, not_isOpen_of_closeLast hrest, rfl⟩

theorem recordIn_records (name : OpName) (now : UInt64) (journal : JournalState) (state : OpState) :
    Records name now state journal.ops (recordIn name now journal state).ops := by
  cases state with
  | started => exact .started _
  | completed =>
    simp only [recordIn]
    cases hclose : closeLast name now journal.ops with
    | none => exact .standalone (not_isOpen_of_closeLast hclose)
    | some closed =>
      obtain ⟨before, op, after, hops, hopen, hlast, rfl⟩ := closeLast_split hclose
      rw [hops, Option.getD_some]
      exact .closed hopen hlast

theorem kept_append (ops more : List JournalOp) : Kept ops (ops ++ more) := by
  induction ops with
  | nil => exact .added more
  | cons op ops ih => exact .cons (.inl rfl) ih

theorem kept_refl (ops : List JournalOp) : Kept ops ops := by
  have happend := kept_append ops []
  rwa [List.append_nil] at happend

theorem Records.kept {state : OpState} {ops' : List JournalOp} (h : Records name now state ops ops') :
    Kept ops ops' := by
  cases h with
  | started => exact kept_append _ _
  | standalone hnone => exact kept_append _ _
  | @closed before op after hopen hlast =>
    induction before with
    | nil => exact .cons (.inr ⟨hopen.2, now, rfl⟩) (kept_refl after)
    | cons first before ih => exact .cons (.inl rfl) ih

theorem Continues.trans {op op' op'' : JournalOp} (h : Continues op op') (h' : Continues op' op'') :
    Continues op op'' := by
  rcases h with rfl | ⟨hnone, time, rfl⟩
  · exact h'
  · rcases h' with rfl | ⟨hsome, -⟩
    · exact .inr ⟨hnone, time, rfl⟩
    · cases hsome

theorem Kept.trans {ops ops' ops'' : List JournalOp} (h : Kept ops ops') (h' : Kept ops' ops'') :
    Kept ops ops'' := by
  induction h generalizing ops'' with
  | added => exact .added ops''
  | cons hop _ ih =>
    cases h' with
    | cons hop' hops' => exact .cons (hop.trans hop') (ih hops')

theorem History.mono {blocked blocked' : Prop} {results : List (RecordCall × Except Fault Unit)}
    {ops' : List JournalOp} (himp : blocked → blocked') (h : History blocked results ops ops') :
    History blocked' results ops ops' := by
  induction h with
  | nil ops => exact .nil ops
  | refused hrefused _ ih => exact .refused (hrefused.imp_right (Or.imp_right himp)) ih
  | recorded hname hnow hrecords _ ih => exact .recorded hname hnow hrecords ih

/-- Whether an operation is completed after a record. -/
theorem completed_recordIn_iff (name : OpName) (now : UInt64) (journal : JournalState) (state : OpState)
    (n : String) : (recordIn name now journal state).completed n = true ↔
      journal.completed n = true ∨ (state = .completed ∧ n = name.text) := by
  constructor
  · exact completed_of_recordIn
  · rintro (hold | ⟨rfl, rfl⟩)
    · exact completed_recordIn name now state hold
    · exact recordIn_completed name now journal

end Record

/-! ### The calls -/

section Run

variable {fromSlice : List UInt8 → Except String Value} {journal : Handle} {call : RecordCall}
  {disk : Disk} {state : JournalState}

/-- What one call does to a journal that can be read. -/
theorem record_cases (hread : ReadsBack fromSlice) (hload : loadAt fromSlice disk journal.path = .ok state)
    (hfits : ∀ name now, validatedOpName call.op = .ok name → call.now = .ok now →
      (journalBytes (recordIn name now state call.state)).length ≤ maxJournalBytes) :
    (∃ fault, record fromSlice journal call.op call.state call.now disk = (.error fault, disk) ∧
      (¬ Passes (validatedOpName call.op) ∨ ¬ Passes call.now ∨
        disk.entry journal.path.temporary = .directory)) ∨
    ∃ name now disk', validatedOpName call.op = .ok name ∧ call.now = .ok now ∧
      record fromSlice journal call.op call.state call.now disk = (.ok (), disk') ∧
      disk'.entry journal.path.temporary = .absent ∧
      loadAt fromSlice disk' journal.path = .ok (recordIn name now state call.state) := by
  rcases record_split fromSlice journal call.op call.state call.now disk with
    ⟨fault, hrun, hrefused⟩ | ⟨name, now, current, hname, hnow, hload', hrun⟩
  · have hpasses : Passes (loadAt fromSlice disk journal.path) := ⟨state, hload⟩
    refine .inl ⟨fault, hrun, ?_⟩
    rcases hrefused with hname | hnow | hunread
    · exact .inl hname
    · exact .inr (.inl hnow)
    · exact absurd hpasses hunread
  · rw [hload, Except.ok.injEq] at hload'
    subst hload'
    by_cases htemporary : disk.entry journal.path.temporary = .directory
    · left
      obtain ⟨bytes, hentry, -⟩ := entry_of_loadAt hload
      have hblocked : ¬ Writable disk journal.path := fun h => h.1 htemporary
      obtain ⟨message, disk', hwrite, hdisk⟩ := writeState_blocked fromSlice
        (recordIn name now state call.state) journal.safe hblocked
      rcases hdisk with rfl | ⟨-, hdirectory⟩
      · exact ⟨_, hrun.trans hwrite, .inr (.inr htemporary)⟩
      · rw [hentry] at hdirectory
        cases hdirectory
    · right
      have hlength := hfits name now hname hnow
      have hwrite := writeState_eq (recordIn name now state call.state) hread journal.safe
        (writable_of_loadAt hload htemporary)
      rw [if_pos hlength] at hwrite
      exact ⟨name, now, _, hname, hnow, hrun.trans hwrite, written_entry_temporary _ _ _,
        load_bytes hread hlength (written_entry_self _ _ _)⟩

/-- Every sequence of calls, from every journal that can be read. -/
theorem journal_law (hread : ReadsBack fromSlice) {calls : List RecordCall}
    (hload : loadAt fromSlice disk journal.path = .ok state)
    (hwithin : Within fromSlice journal calls disk) :
    ∃ final, loadAt fromSlice (recordAll fromSlice journal calls disk).2 journal.path = .ok final ∧
      Lawful (disk.entry journal.path.temporary = .directory)
        (calls.zip (recordAll fromSlice journal calls disk).1) state final := by
  induction calls generalizing disk state with
  | nil =>
    refine ⟨state, hload, .nil _, kept_refl _, fun n => ?_⟩
    simp [recordAll]
  | cons call calls ih =>
    obtain ⟨hfits, hrest⟩ := hwithin
    have hcall := record_cases hread hload fun name now hname hnow => hfits name now state hname hnow hload
    rcases hcall with ⟨fault, hrun, hrefused⟩ | ⟨name, now, disk', hname, hnow, hrun, habsent, hload'⟩
    · rw [hrun] at hrest
      obtain ⟨final, hfinal, hlawful⟩ := ih hload hrest
      rw [recordAll, hrun]
      refine ⟨final, hfinal, .refused hrefused hlawful.history, hlawful.kept, fun n => ?_⟩
      rw [hlawful.completed n]
      simp
    · rw [hrun] at hrest
      obtain ⟨final, hfinal, hlawful⟩ := ih hload' hrest
      have hrecords := recordIn_records name now state call.state
      have hfree : disk'.entry journal.path.temporary = .directory →
          disk.entry journal.path.temporary = .directory := fun hdirectory =>
        absurd (habsent.symm.trans hdirectory) nofun
      rw [recordAll, hrun]
      refine ⟨final, hfinal, .recorded hname hnow hrecords (hlawful.history.mono hfree),
        hrecords.kept.trans hlawful.kept, fun n => ?_⟩
      rw [hlawful.completed n, completed_recordIn_iff, validatedOpName_eq_ok hname, or_assoc]
      -- either this call completed the operation, or a later one
      have hlater : (∃ other, (other, Except.ok ()) ∈ (call :: calls).zip
          (.ok () :: (recordAll fromSlice journal calls disk').1) ∧ other.state = .completed ∧
          trim other.op = n) ↔ (call.state = .completed ∧ n = trim call.op) ∨
          ∃ other, (other, Except.ok ()) ∈ calls.zip (recordAll fromSlice journal calls disk').1 ∧
            other.state = .completed ∧ trim other.op = n := by
        rw [List.zip_cons_cons]
        constructor
        · rintro ⟨other, hmem, hstate, htrim⟩
          rcases List.mem_cons.1 hmem with heq | hmem
          · cases heq
            exact .inl ⟨hstate, htrim.symm⟩
          · exact .inr ⟨other, hmem, hstate, htrim⟩
        · rintro (⟨hstate, htrim⟩ | ⟨other, hmem, hrest⟩)
          · exact ⟨call, List.mem_cons_self, hstate, htrim.symm⟩
          · exact ⟨other, List.mem_cons_of_mem _ hmem, hrest⟩
      rw [← hlater]

end Run

/-! ### A journal with an open record -/

/-- The journal on the EFI system partition. -/
def espJournal : Handle where
  path := ⟨some "/boot/efi", ".kyth-install-journal.json"⟩
  safe := ⟨"/boot/efi", rfl, by decide +kernel⟩

/-- An attempt that was interrupted while it formatted its target. -/
def interrupted : JournalState := ⟨[⟨formatName, 5, none⟩]⟩

/-- A disk that holds a journal and nothing else. -/
def diskWith (state : JournalState) : Disk where
  locate _ := 0
  files place := if place = (0, espJournal.path.name) then .regular (journalBytes state) else .absent

theorem format_completed : ∃ final,
    loadAt readBytes (recordAll readBytes espJournal [⟨" format ", .completed, .ok 7⟩]
      (diskWith interrupted)).2 espJournal.path = .ok final ∧ final.completed "format" = true := by
  have hload : loadAt readBytes (diskWith interrupted) espJournal.path = .ok interrupted :=
    load_bytes readsBack_readBytes (by decide) rfl
  have hname : validatedOpName " format " = .ok formatName := by decide
  have hlength : (journalBytes (recordIn formatName 7 interrupted .completed)).length ≤
      maxJournalBytes := by decide
  have hwithin : Within readBytes espJournal [⟨" format ", .completed, .ok 7⟩] (diskWith interrupted) := by
    refine ⟨fun name now current hname' hnow hload' => ?_, trivial⟩
    have hsame : name = formatName := Except.ok.inj (hname'.symm.trans hname)
    have hcurrent : current = interrupted := Except.ok.inj (hload'.symm.trans hload)
    cases hnow
    rw [hsame, hcurrent]
    exact hlength
  obtain ⟨final, hfinal, hlawful⟩ := journal_law readsBack_readBytes hload hwithin
  refine ⟨final, hfinal, (hlawful.completed "format").2 (.inr ⟨⟨" format ", .completed, .ok 7⟩, ?_, rfl,
    by decide⟩)⟩
  have hwritable : Writable (diskWith interrupted) espJournal.path := by decide
  have hrun := (record_eq .completed 7 hname hload).trans
    (writeState_eq _ readsBack_readBytes espJournal.safe hwritable)
  rw [if_pos hlength] at hrun
  rw [recordAll, hrun]
  exact List.mem_cons_self

end Kyth.OnDisk

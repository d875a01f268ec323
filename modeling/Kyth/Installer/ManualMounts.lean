import Kyth.Installer.Mounts
import Kyth.Lib.Check
import Kyth.Lib.Replay

/-!
# The mount points of a committed journal (`installer_journal.rs`)

`manual_mounts` reads the mount points of a committed journal back out of its operations, for the
steps of the installation that come after the commit. Its first loop keeps three tables, all of them
under the spelling that an operation has for its partition; the second one turns the entries into
mounts, in the order of the spellings.

The tables are replays of the journal, so each entry goes back to the last operation that concerns
its spelling.
-/

namespace Kyth.Journal

open Str Word Json Storage Replay

/-- `ManualMount`. -/
structure ManualMount where
  partition : String
  mountpoint : String
  fstype : String
  deriving DecidableEq, Repr

/-- `Value::is_object`. -/
def isObject : Value → Bool
  | .object _ => true
  | _ => false

/-- The variables of the first loop of `manual_mounts`. -/
structure ManualState where
  created : Finset String := ∅
  assignments : StringMap String := ∅
  formats : StringMap String := ∅

/-- The partition of an operation as it is spelled. -/
def PartitionOperation.spelling (op : PartitionOperation) : String :=
  valueString op.params "partition"

/-- The mount point of an operation as it is spelled. -/
def PartitionOperation.mountpoint (op : PartitionOperation) : String :=
  valueString op.params "mountpoint"

/-- The filesystem that an operation asks for. -/
def PartitionOperation.fsType (op : PartitionOperation) : String :=
  valueString op.params "fs_type"

/-- An operation that `manual_mounts` reads parameters of. -/
def readsParams (kind : OpKind) : Bool :=
  match kind with
  | .create | .setMountpoint | .delete | .format => true
  | _ => false

/-- A turn of the first loop of `manual_mounts`. -/
def manualStep (m : ManualState) (op : PartitionOperation) : ManualState :=
  let partition := op.spelling
  let mountpoint := op.mountpoint
  let fs := op.fsType
  match op.kind with
  | .newTable => {}
  | .create =>
      if partition = "" then m
      else
        { created := insert partition m.created
          assignments :=
            if mountpoint = "" then m.assignments.erase partition
            else m.assignments.insert partition mountpoint
          formats := if fs = "" then m.formats else m.formats.insert partition fs }
  | .setMountpoint =>
      if partition = "" then m
      else
        { m with
          assignments :=
            if mountpoint = "" then m.assignments.erase partition
            else m.assignments.insert partition mountpoint }
  | .delete =>
      { created := m.created.erase partition
        assignments := m.assignments.erase partition
        formats := m.formats.erase partition }
  | .format =>
      if partition = "" ∨ fs = "" then m else { m with formats := m.formats.insert partition fs }
  | _ => m

/-- The first loop of `manual_mounts`. -/
def manualReplay (m : ManualState) : List PartitionOperation → Except String ManualState
  | [] => .ok m
  | op :: ops =>
      if !isObject op.params && readsParams op.kind then
        .error "Committed partition journal contains malformed operations."
      else manualReplay (manualStep m op) ops

/-- The filesystem that `manual_mounts` reports for a partition. -/
def reportedFstype (m : ManualState) (discovered : StringMap PartitionRecord)
    (partition : String) : String :=
  let fstype := (m.formats.lookup partition).or
    ((discovered.lookup partition).map PartitionRecord.fstype)
  (fstype.filter (· ≠ "")).getD "btrfs"

/-- An assignment that is none of `manual_mounts`' business. -/
def isReserved (mountpoint : String) : Bool :=
  mountpoint == "" || mountpoint == "/" || mountpoint == "/boot/efi"

/-- The second loop of `manual_mounts`, with the mount points seen so far. -/
def collectMounts (m : ManualState) (discovered : StringMap PartitionRecord) :
    Finset String → List (Sigma fun _ : String => String) → Except String (List ManualMount)
  | _, [] => .ok []
  | seen, ⟨partition, mountpoint⟩ :: entries =>
      if isReserved mountpoint then collectMounts m discovered seen entries
      else if discovered.lookup partition = none ∧ partition ∉ m.created then
        .error ("Manual mount target " ++ partition ++ " disappeared after partition commit.")
      else if mountpoint ∈ seen then
        .error ("Manual mount point " ++ mountpoint ++ " is assigned more than once.")
      else do
        let mounts ← collectMounts m discovered (insert mountpoint seen) entries
        return ⟨partition, mountpoint, reportedFstype m discovered partition⟩ :: mounts

/-- The partitions of a snapshot by name. -/
def discoveredParts (parts : List PartitionRecord) : StringMap PartitionRecord :=
  parts.foldl (fun discovered part => discovered.insert part.name part) ∅

/-- `manual_mounts`. -/
def manualMounts (journal : PartitionJournal) (parts : List PartitionRecord) :
    Except String (List ManualMount) :=
  if !journal.committed then .ok []
  else if trim journal.disk = "" then .error "Committed partition journal has no target disk."
  else do
    let m ← manualReplay {} journal.ops
    collectMounts m (discoveredParts parts) ∅
      (m.assignments.entries.mergeSort fun a b => decide (a.1 ≤ b.1))

/-! ### The second loop -/

section Collect

variable {m : ManualState} {discovered : StringMap PartitionRecord}
  {entries : List (Sigma fun _ : String => String)} {seen : Finset String}

/-- The mount that the second loop makes of an entry. -/
def toManualMount (m : ManualState) (discovered : StringMap PartitionRecord)
    (entry : Sigma fun _ : String => String) : ManualMount :=
  ⟨entry.1, entry.2, reportedFstype m discovered entry.1⟩

/-- An entry that the second loop makes a mount of. -/
def isMount (entry : Sigma fun _ : String => String) : Bool := !isReserved entry.2

/-- The second loop succeeds if every mount has a partition and no mount point comes twice. -/
theorem collectMounts_eq_ok (m : ManualState) (discovered : StringMap PartitionRecord)
    (seen : Finset String) (entries : List (Sigma fun _ : String => String))
    (mounts : List ManualMount) :
    collectMounts m discovered seen entries = .ok mounts ↔
      (∀ entry ∈ entries.filter isMount,
        (discovered.lookup entry.1 ≠ none ∨ entry.1 ∈ m.created) ∧ entry.2 ∉ seen) ∧
      ((entries.filter isMount).map Sigma.snd).Nodup ∧
      mounts = (entries.filter isMount).map (toManualMount m discovered) := by
  induction entries generalizing seen mounts with
  | nil => simp [collectMounts, eq_comm]
  | cons entry entries ih =>
    obtain ⟨partition, mountpoint⟩ := entry
    rw [collectMounts]
    by_cases hreserved : isReserved mountpoint = true
    · have hfilter : (⟨partition, mountpoint⟩ :: entries).filter isMount = entries.filter isMount :=
        List.filter_cons_of_neg (by simp [isMount, hreserved])
      rw [if_pos hreserved, ih, hfilter]
    have hfilter : (⟨partition, mountpoint⟩ :: entries).filter isMount =
        ⟨partition, mountpoint⟩ :: entries.filter isMount :=
      List.filter_cons_of_pos (by simpa [isMount] using hreserved)
    rw [if_neg hreserved, hfilter]
    by_cases hmissing : discovered.lookup partition = none ∧ partition ∉ m.created
    · rw [if_pos hmissing]
      constructor
      · intro h
        cases h
      · rintro ⟨hknown, -⟩
        have hknown := (hknown _ List.mem_cons_self).1
        simp only [hmissing, ne_eq, not_true_eq_false, or_self] at hknown
    rw [if_neg hmissing]
    by_cases hseen : mountpoint ∈ seen
    · rw [if_pos hseen]
      constructor
      · intro h
        cases h
      · rintro ⟨hknown, -⟩
        exact absurd hseen (hknown _ List.mem_cons_self).2
    rw [if_neg hseen, Check.bind_eq_ok]
    have hknown : discovered.lookup partition ≠ none ∨ partition ∈ m.created := by
      rw [not_and_or, not_not] at hmissing
      exact hmissing
    constructor
    · rintro ⟨rest, hrest, hmounts⟩
      obtain ⟨hall, hnodup, rfl⟩ := (ih _ _).1 hrest
      cases hmounts
      refine ⟨?_, ?_, rfl⟩
      · intro entry hentry
        obtain rfl | hentry := List.mem_cons.1 hentry
        · exact ⟨hknown, hseen⟩
        · refine ⟨(hall entry hentry).1, fun hmem => ?_⟩
          exact (hall entry hentry).2 (Finset.mem_insert_of_mem hmem)
      · rw [List.map_cons, List.nodup_cons]
        refine ⟨fun hmem => ?_, hnodup⟩
        obtain ⟨entry, hentry, hsame⟩ := List.mem_map.1 hmem
        exact (hall entry hentry).2 (hsame ▸ Finset.mem_insert_self _ _)
    · rintro ⟨hall, hnodup, rfl⟩
      rw [List.map_cons, List.nodup_cons] at hnodup
      refine ⟨_, (ih _ _).2 ⟨fun entry hentry => ?_, hnodup.2, rfl⟩, rfl⟩
      have hentry' := hall entry (List.mem_cons_of_mem _ hentry)
      refine ⟨hentry'.1, fun hmem => ?_⟩
      obtain hsame | hmem := Finset.mem_insert.1 hmem
      · exact hnodup.1 (List.mem_map.2 ⟨entry, hentry, hsame⟩)
      · exact hentry'.2 hmem

end Collect

/-! ### The first loop as a replay -/

/-- An operation that `manual_mounts` does not refuse. -/
def WellFormed (op : PartitionOperation) : Prop :=
  readsParams op.kind = true → isObject op.params = true

theorem manualReplay_eq_ok {ops : List PartitionOperation} (h : ∀ op ∈ ops, WellFormed op)
    (m : ManualState) : manualReplay m ops = .ok (ops.foldl manualStep m) := by
  induction ops generalizing m with
  | nil => rfl
  | cons op ops ih =>
    have hop : ¬ ((!isObject op.params && readsParams op.kind) = true) := by
      rw [Bool.and_eq_true, Bool.not_eq_true']
      rintro ⟨hobject, hreads⟩
      rw [h op List.mem_cons_self hreads] at hobject
      cases hobject
    rw [manualReplay, if_neg hop, List.foldl_cons]
    exact ih (fun op' hop' => h op' (List.mem_cons_of_mem _ hop')) _

/-- What an operation does to the mount points of the first loop. -/
def spelledEdit (op : PartitionOperation) : Edit String String :=
  match op.kind with
  | .newTable => .clear
  | .create | .setMountpoint =>
      if op.spelling = "" then .skip
      else if op.mountpoint = "" then .drop op.spelling
      else .put op.spelling op.mountpoint
  | .delete => .drop op.spelling
  | _ => .skip

/-- What an operation does to the filesystems of the first loop. -/
def formatEdit (op : PartitionOperation) : Edit String String :=
  match op.kind with
  | .newTable => .clear
  | .create | .format =>
      if op.spelling = "" ∨ op.fsType = "" then .skip else .put op.spelling op.fsType
  | .delete => .drop op.spelling
  | _ => .skip

theorem manualStep_assignments (m : ManualState) (op : PartitionOperation) :
    (manualStep m op).assignments = (spelledEdit op).apply m.assignments := by
  unfold manualStep spelledEdit
  cases op.kind with
  | create =>
    dsimp only
    split_ifs <;> rfl
  | setMountpoint =>
    dsimp only
    split_ifs <;> rfl
  | format =>
    dsimp only
    split_ifs <;> rfl
  | _ => rfl

theorem manualStep_formats (m : ManualState) (op : PartitionOperation) :
    (manualStep m op).formats = (formatEdit op).apply m.formats := by
  unfold manualStep formatEdit
  cases op.kind with
  | create =>
    dsimp only
    by_cases hspelling : op.spelling = ""
    · simp [hspelling, Edit.apply]
    by_cases hfs : op.fsType = ""
    · simp [hspelling, hfs, Edit.apply]
    · simp [hspelling, hfs, Edit.apply]
  | setMountpoint =>
    dsimp only
    split_ifs <;> rfl
  | format =>
    dsimp only
    split_ifs <;> rfl
  | _ => rfl

/-- The tables of the first loop. -/
theorem foldl_manualStep (ops : List PartitionOperation) :
    (ops.foldl manualStep {}).assignments = replay spelledEdit ops ∧
      (ops.foldl manualStep {}).formats = replay formatEdit ops := by
  induction ops using List.reverseRecOn with
  | nil => exact ⟨rfl, rfl⟩
  | append_singleton ops op ih =>
    rw [List.foldl_append, List.foldl_cons, List.foldl_nil, replay_concat, replay_concat,
      manualStep_assignments, manualStep_formats, ih.1, ih.2]
    exact ⟨rfl, rfl⟩

end Kyth.Journal

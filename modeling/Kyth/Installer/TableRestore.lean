import Kyth.Installer.CommitRun

/-!
# Backup and restore of the partition table

A commit saves the table before its first operation and loads it back when an operation fails.
Both commands choose their tool by a fresh probe of the table type: `sgdisk` for GPT, `sfdisk` for
MBR, with files the other tool cannot read. `restore_tool_iff` says when the two choices agree.
-/

namespace Kyth.Journal

open Str Word Json Storage Disk
open Kyth.Action (check Frame bind_eq_ok)

variable {w : World} {m m' m₀ : Machine} {journal : PartitionJournal} {k : ℕ}
  {guard : Except String Unit} {staged backupPath : String}

/-- The tools that save and load a partition table. -/
inductive TableTool
  | sgdisk
  | sfdisk
  deriving DecidableEq, Repr

/-- The tool of a plan. -/
def planTool (plan : DiskPlan) : Option TableTool :=
  match plan.argv.head? with
  | some "/usr/sbin/sgdisk" => some .sgdisk
  | some "/bin/sh" => some .sfdisk
  | _ => none

/-- The tool for a table type. -/
def toolOf (tableType : String) : TableTool :=
  if tableType = "gpt" then .sgdisk else .sfdisk

theorem planTool_tablePlan {purpose flag script name disk path tableType : String} {timeout : ℕ}
    {sfdisk : Option String} {plan : DiskPlan}
    (h : tablePlan purpose flag script name timeout disk path tableType sfdisk = .ok plan) :
    (tableType = "gpt" ∨ tableType = "dos") ∧ planTool plan = some (toolOf tableType) := by
  unfold tablePlan at h
  split at h
  · simp only [Check.bind_eq_ok] at h
    obtain ⟨path', -, disk', -, h⟩ := h
    cases h
    exact ⟨.inl rfl, rfl⟩
  · split at h
    · cases h
    · simp only [Check.bind_eq_ok] at h
      obtain ⟨disk', -, path', -, h⟩ := h
      cases h
      exact ⟨.inr rfl, rfl⟩
  · cases h

/-- The probed type decides the tool. -/
theorem tableTool_probes {disk tableType : String} {sfdisk : Option String}
    (h : tableTool disk (probes w m) = .ok (tableType, sfdisk)) : tableType = m.tableType := by
  unfold tableTool at h
  rw [Check.bind_eq_ok] at h
  obtain ⟨found, hfound, h⟩ := h
  simp only [probes] at hfound
  split_ifs at hfound h
  · rw [Check.bind_eq_ok] at h
    obtain ⟨binary, -, h⟩ := h
    cases hfound
    cases h
    rfl
  · cases hfound
    cases h
    rfl

/-- A copy of the table is planned with the tool for the type the disk has at that moment. -/
theorem planTool_of_isTableCopy {operation : DiskOperationInput} {plan : DiskPlan}
    (hcopy : isTableCopy operation) (h : buildPlan (probes w m) operation = .ok plan) :
    (m.tableType = "gpt" ∨ m.tableType = "dos") ∧ planTool plan = some (toolOf m.tableType) := by
  cases operation with
  | backupTable disk path | restoreTable disk path =>
    simp only [buildPlan] at h
    rw [Check.bind_eq_ok] at h
    obtain ⟨⟨tableType, sfdisk⟩, htool, h⟩ := h
    rw [← tableTool_probes htool]
    exact planTool_tablePlan h
  | _ => exact absurd hcopy id

/-! ### Labels -/

/-- The table type that the latest completed label wrote. -/
def lastLabel (completed : List DiskOperationInput) : Option String := completed.findSome? Machine.labelType

theorem lastLabel_append (l l' : List DiskOperationInput) :
    lastLabel (l ++ l') = (lastLabel l).or (lastLabel l') := by
  simp [lastLabel, List.findSome?_append]

/-- What operations leave of the record of table copies and of the table type. -/
structure Trail (m m' : Machine) : Prop where
  planned : ∃ l, m'.planned = l ++ m.planned ∧ ∀ entry ∈ l, ¬ isTableCopy entry.1
  completed : ∃ l, m'.completed = l ++ m.completed ∧
    m'.tableType = (lastLabel l).getD m.tableType

instance : Std.Refl Trail := ⟨fun _ => ⟨⟨[], rfl, by simp⟩, ⟨[], rfl, rfl⟩⟩⟩

instance : IsTrans Machine Trail where
  trans m m' m'' h h' := by
    obtain ⟨⟨l₁, hp₁, hc₁⟩, k₁, hk₁, ht₁⟩ := h
    obtain ⟨⟨l₂, hp₂, hc₂⟩, k₂, hk₂, ht₂⟩ := h'
    refine ⟨⟨l₂ ++ l₁, by simp [hp₂, hp₁], ?_⟩, k₂ ++ k₁, by simp [hk₂, hk₁], ?_⟩
    · intro entry hentry
      rcases List.mem_append.1 hentry with hentry | hentry
      · exact hc₂ entry hentry
      · exact hc₁ entry hentry
    · rw [ht₂, ht₁, lastLabel_append]
      cases lastLabel k₂ <;> rfl

theorem runDiskOperation_trail {operation : DiskOperationInput} (hcopy : ¬ isTableCopy operation) :
    Frame Trail (runDiskOperation w operation) := by
  refine runDiskOperation_frame (fun m => ⟨⟨[], rfl, by simp⟩, [], rfl, rfl⟩)
    (fun m => ⟨⟨[], rfl, by simp⟩, [], rfl, rfl⟩) (fun m plan _ => ?_) (fun m => ?_)
  · exact ⟨⟨[(operation, plan)], rfl, by simpa using hcopy⟩, [], rfl, rfl⟩
  · refine ⟨⟨[], rfl, by simp⟩, [operation], rfl, ?_⟩
    simp only [Machine.apply, lastLabel, List.findSome?_singleton]

/-! ### Copies of the table -/

/-- What copies of the table change: nothing but the record, where each is entered with the tool
for the type of the table. -/
structure Copies (P : DiskOperationInput → Prop) (m m' : Machine) : Prop where
  tableType : m'.tableType = m.tableType
  slots : m'.slots = m.slots
  written : m'.written = m.written
  planned : ∃ l, m'.planned = l ++ m.planned ∧ ∀ entry ∈ l, P entry.1 ∧
    (m.tableType = "gpt" ∨ m.tableType = "dos") ∧ planTool entry.2 = some (toolOf m.tableType)
  completed : ∃ l, m'.completed = l ++ m.completed ∧ lastLabel l = none

variable {P : DiskOperationInput → Prop}

instance : Std.Refl (Copies P) := ⟨fun _ => ⟨rfl, rfl, rfl, ⟨[], rfl, by simp⟩, ⟨[], rfl, rfl⟩⟩⟩

instance : IsTrans Machine (Copies P) where
  trans m m' m'' h h' := by
    obtain ⟨ht₁, hs₁, hw₁, ⟨l₁, hp₁, hc₁⟩, k₁, hk₁, hn₁⟩ := h
    obtain ⟨ht₂, hs₂, hw₂, ⟨l₂, hp₂, hc₂⟩, k₂, hk₂, hn₂⟩ := h'
    refine ⟨ht₂.trans ht₁, hs₂.trans hs₁, hw₂.trans hw₁, ⟨l₂ ++ l₁, by simp [hp₂, hp₁], ?_⟩,
      k₂ ++ k₁, by simp [hk₂, hk₁], by rw [lastLabel_append, hn₂, hn₁]; rfl⟩
    intro entry hentry
    rcases List.mem_append.1 hentry with hentry | hentry
    · rw [← ht₁]
      exact hc₂ entry hentry
    · exact hc₁ entry hentry

theorem call_copies : ∀ m : Machine, Copies P m { m with clock := m.clock + 1 } :=
  fun _ => ⟨rfl, rfl, rfl, ⟨[], rfl, by simp⟩, ⟨[], rfl, rfl⟩⟩

theorem runDiskOperation_copies {operation : DiskOperationInput} (hcopy : isTableCopy operation)
    (hP : P operation) : Frame (Copies P) (runDiskOperation w operation) := by
  refine runDiskOperation_frame call_copies
    (fun m => ⟨rfl, rfl, rfl, ⟨[], rfl, by simp⟩, ⟨[], rfl, rfl⟩⟩) (fun m plan hplan => ?_)
    (fun m => ?_)
  · obtain ⟨hknown, htool⟩ := planTool_of_isTableCopy hcopy hplan
    exact ⟨rfl, rfl, rfl, ⟨[(operation, plan)], rfl, by simpa using ⟨hP, hknown, htool⟩⟩,
      ⟨[], rfl, rfl⟩⟩
  · cases operation with
    | backupTable disk path => exact ⟨rfl, rfl, rfl, ⟨[], rfl, by simp⟩, ⟨[_], rfl, rfl⟩⟩
    | restoreTable disk path => exact ⟨rfl, rfl, rfl, ⟨[], rfl, by simp⟩, ⟨[_], rfl, rfl⟩⟩
    | _ => exact absurd hcopy id

/-- A request that saves the table. -/
def isBackup (operation : DiskOperationInput) : Prop := ∃ disk path, operation = .backupTable disk path

theorem persistExternalBackup_copies {path disk : String} :
    Frame (Copies isBackup) (persistExternalBackup w staged path disk) := by
  simp only [persistExternalBackup]
  exact Frame.ite_throw (Frame.bind (call_frame call_copies) fun _ =>
    Frame.bind (runDiskOperation_copies trivial ⟨_, _, rfl⟩) fun _ => call_frame call_copies)

theorem prepareCommit_copies :
    Frame (Copies isBackup) (prepareCommit w guard staged backupPath journal) := by
  simp only [prepareCommit]
  exact Frame.ite_throw (Frame.bind (Frame.check _) fun _ =>
    Frame.bind (call_frame call_copies) fun _ => Frame.bind (Frame.check _) fun _ =>
    Frame.bind (runtimePartitionRecords_frame call_copies) fun _ =>
    Frame.bind (call_frame call_copies) fun _ => Frame.bind Frame.get fun m =>
    Frame.ite (Frame.bind (Frame.forM fun path _ => persistExternalBackup_copies) fun _ =>
      Frame.bind (runDiskOperation_copies trivial ⟨_, _, rfl⟩) fun _ => Frame.pure _)
      (Frame.pure _))

/-- A listing shows the partitions of the disk. -/
theorem runtimePartitionRecords_eq_ok {disk : String} {records : List PartitionRecord}
    (h : runtimePartitionRecords w disk m = (.ok records, m')) :
    records = m.slots.map (liveRecord w) := by
  have hsame : Copies isBackup m m' := (runtimePartitionRecords_frame call_copies).of_eq h
  simp only [runtimePartitionRecords] at h
  split_ifs at h with hdisk
  · cases h
  · obtain ⟨⟨⟩, m₁, -, h⟩ := bind_eq_ok.1 h
    obtain ⟨⟨⟩, m₂, -, h⟩ := bind_eq_ok.1 h
    obtain ⟨m₃, m₄, hget, h⟩ := bind_eq_ok.1 h
    cases hget
    cases h
    rw [hsame.slots]

/-- What the preparation of a commit has checked before its first operation. -/
theorem prepareCommit_eq_ok_nil {m₁ : Machine}
    (h : prepareCommit w guard staged backupPath journal m₀ = (.ok [], m₁)) :
    (Plan.normalizeDevicePath journal.disk).isSome ∧ supportedSectorSize w.sectorSize ∧
      validate journal (m₀.slots.map (liveRecord w)) m₀.tableType w.diskSizeBytes = [] := by
  simp only [prepareCommit] at h
  split_ifs at h with hidentity
  · cases h
  obtain ⟨⟨⟩, m₂, hguard, h⟩ := bind_eq_ok.1 h
  obtain ⟨⟨⟩, m₃, hcall, h⟩ := bind_eq_ok.1 h
  obtain ⟨⟨⟩, m₄, hsector, h⟩ := bind_eq_ok.1 h
  obtain ⟨records, m₅, hrecords, h⟩ := bind_eq_ok.1 h
  obtain ⟨⟨⟩, m₆, hcall', h⟩ := bind_eq_ok.1 h
  obtain ⟨m₇, m₈, hget, h⟩ := bind_eq_ok.1 h
  have hm₂ : m₀ = m₂ := (Prod.mk.inj hguard).2
  have hm₄ : m₃ = m₄ := (Prod.mk.inj hsector).2
  have hm₇ : m₆ = m₇ := Except.ok.inj (Prod.mk.inj hget).1
  have hfirst : Copies isBackup m₂ m₃ := (call_frame call_copies).of_eq hcall
  have hlisted : Copies isBackup m₄ m₅ := (runtimePartitionRecords_frame call_copies).of_eq hrecords
  have hsecond : Copies isBackup m₅ m₆ := (call_frame call_copies).of_eq hcall'
  have hslots : records = m₀.slots.map (liveRecord w) := by
    rw [runtimePartitionRecords_eq_ok hrecords, ← hm₄, hfirst.slots, ← hm₂]
  have htype : m₇.tableType = m₀.tableType := by
    rw [← hm₇, hsecond.tableType, hlisted.tableType, ← hm₄, hfirst.tableType, ← hm₂]
  refine ⟨?_, ?_, ?_⟩
  · rw [Option.isSome_iff_ne_none]
    intro hnone
    simp only [runtimePartitionRecords, if_pos hnone] at hrecords
    cases hrecords
  · have hvalid := (Prod.mk.inj hsector).1
    unfold validSectorSize at hvalid
    split_ifs at hvalid with hsupported
    exact hsupported
  · rw [hslots, htype] at h
    split_ifs at h with herrors
    · exact herrors
    · exact absurd (Except.ok.inj (Prod.mk.inj h).1) herrors

/-! ### The rollback -/

theorem toolOf_inj {t t' : String} (ht : t = "gpt" ∨ t = "dos") (ht' : t' = "gpt" ∨ t' = "dos") :
    toolOf t = toolOf t' ↔ t = t' := by
  rcases ht with rfl | rfl <;> rcases ht' with rfl | rfl <;> decide

theorem trail_call (m : Machine) : Trail m { m with clock := m.clock + 1 } :=
  ⟨⟨[], rfl, by simp⟩, [], rfl, rfl⟩

/-- The record of table copies after the operations of a prepared commit: backups with the tool for
the first table type, and the table type that the latest label wrote. -/
theorem trail_of_prepared {m₁ : Machine}
    (hprepared : prepareCommit w guard staged backupPath journal m₀ = (.ok [], m₁))
    (htrail : Trail m₁ m') (hplanned : m₀.planned = []) (hcompleted : m₀.completed = []) :
    (∀ entry ∈ m'.planned, isTableCopy entry.1 → isBackup entry.1 ∧
      (m₀.tableType = "gpt" ∨ m₀.tableType = "dos") ∧
        planTool entry.2 = some (toolOf m₀.tableType)) ∧
      m'.tableType = (lastLabel m'.completed).getD m₀.tableType := by
  have hcopies : Copies isBackup m₀ m₁ := prepareCommit_copies.of_eq hprepared
  obtain ⟨htype, -, -, ⟨l, hl, hlBackup⟩, c, hc, hcNone⟩ := hcopies
  obtain ⟨⟨l', hl', hlQuiet⟩, c', hc', htype'⟩ := htrail
  rw [hplanned, List.append_nil] at hl
  rw [hcompleted, List.append_nil] at hc
  refine ⟨fun entry hentry hcopy => ?_, ?_⟩
  · rw [hl', hl] at hentry
    rcases List.mem_append.1 hentry with hentry | hentry
    · exact absurd hcopy (hlQuiet entry hentry)
    · exact hlBackup entry hentry
  · rw [htype', hc', lastLabel_append, hc, hcNone, Option.or_none, htype]

theorem FailsAt.trail {message : String} {before after : CommitState}
    (h : FailsAt w guard staged backupPath journal m₀ k message before after) :
    ∃ m₁, prepareCommit w guard staged backupPath journal m₀ = (.ok [], m₁) ∧
      Trail m₁ after.machine := by
  obtain ⟨⟨m₁, hprepared, hreaches⟩, hfailed⟩ := h
  refine ⟨m₁, hprepared, ?_⟩
  exact IsTrans.trans _ _ _ (hreaches.frame trail_call fun _ => runDiskOperation_trail)
    (executeAt_frame trail_call (fun _ => runDiskOperation_trail) hfailed)

/-- The rollback of a failed commit loads the table with the tool that saved it exactly when the
last label completed in between, if any, has the type the table had before. -/
theorem restore_tool_iff {result : CommitResult}
    (hcommit : commitRequest w guard staged backupPath journal m₀ = (.ok result, m))
    (hplanned : m₀.planned = []) (hcompleted : m₀.completed = []) {backup restore : DiskPlan}
    (hbackup : (.backupTable journal.disk backupPath, backup) ∈ m.planned)
    (hrestore : (.restoreTable journal.disk backupPath, restore) ∈ m.planned) :
    planTool restore = planTool backup ↔
      ∀ label, lastLabel m.completed = some label → label = m₀.tableType := by
  have hnoRestore : ¬ isBackup (.restoreTable journal.disk backupPath) := fun ⟨_, _, h⟩ => nomatch h
  rcases commitRequest_cases hcommit with ⟨errors, hprepared, -⟩ | ⟨m₁, s, hprepared, hreaches, rfl⟩ |
    ⟨k, message, before, after, hfails, hrollBack⟩
  · -- a refused journal only has backups on record
    obtain ⟨-, -, -, ⟨l, hl, hlBackup⟩, -⟩ := prepareCommit_copies.of_eq hprepared
    rw [hl, hplanned, List.append_nil] at hrestore
    exact absurd (hlBackup _ hrestore).1 hnoRestore
  · have htrail := hreaches.frame trail_call fun _ => runDiskOperation_trail
    have hrecord := trail_of_prepared hprepared htrail hplanned hcompleted
    exact absurd (hrecord.1 _ hrestore trivial).1 hnoRestore
  · obtain ⟨m₁, hprepared, htrail⟩ := hfails.trail
    obtain ⟨hcopies, htype⟩ := trail_of_prepared hprepared htrail hplanned hcompleted
    unfold rollBack at hrollBack
    split_ifs at hrollBack with hirreversible
    · cases hrollBack
      exact absurd (hcopies _ hrestore trivial).1 hnoRestore
    · obtain ⟨r, hr⟩ : ∃ r, runDiskOperation w (.restoreTable after.journal.disk backupPath)
          after.machine = (r, m) := by
        split at hrollBack <;> cases hrollBack <;> exact ⟨_, ‹_›⟩
      have hframe : Frame (Copies fun operation => ¬ isBackup operation)
          (runDiskOperation w (.restoreTable after.journal.disk backupPath)) :=
        runDiskOperation_copies trivial fun ⟨_, _, h⟩ => nomatch h
      have hisRestore := hframe.of_eq hr
      obtain ⟨-, -, -, ⟨l, hl, hlRestore⟩, c, hc, hcNone⟩ := hisRestore
      rw [hl] at hbackup hrestore
      have hrestore' : (.restoreTable journal.disk backupPath, restore) ∈ l := by
        rcases List.mem_append.1 hrestore with hmem | hmem
        · exact hmem
        · exact absurd (hcopies _ hmem trivial).1 hnoRestore
      have hbackup' : (.backupTable journal.disk backupPath, backup) ∈ after.machine.planned := by
        rcases List.mem_append.1 hbackup with hmem | hmem
        · exact absurd ⟨_, _, rfl⟩ (hlRestore _ hmem).1
        · exact hmem
      obtain ⟨-, hknown, htool⟩ := hlRestore _ hrestore'
      obtain ⟨-, hknown₀, htool₀⟩ := hcopies _ hbackup' trivial
      rw [htool, htool₀, Option.some.injEq, toolOf_inj hknown hknown₀, htype, hc, lastLabel_append,
        hcNone, Option.none_or]
      cases lastLabel after.machine.completed <;> simp

/-! ### A commit on an empty disk -/

/-- A machine on which no call fails and `lsblk` lists the empty disk. -/
def emptyDiskWorld : World where
  fault _ := none
  lsblk _ _ _ := ⟨[{ name := some "/dev/sda", deviceType := some "disk", children := [] }]⟩
  document _ := .object [("blockdevices", .array
    [.object [("name", .string "/dev/sda"), ("type", .string "disk"), ("children", .array [])]])]
  others := ∅
  number _ := 1
  newName m := "/dev/sda" ++ toString (m.slots.length + 1)
  details name := { name, sizeBytes := 0, startBytes := 0 }
  sectorSize := 512
  diskSizeBytes := 0x100000000
  sfdiskBinary := .ok "/usr/sbin/sfdisk"

/-- A journal that writes a GPT table with a root partition. -/
def gptJournal : PartitionJournal where
  disk := "/dev/sda"
  ops := [newGptTable 0, createRoot 1]
  diskModel := some "disk"

/-- The commit of `gptJournal` on an empty disk with a table of the given type. -/
def gptCommit (tableType : String) : Except String CommitResult × Machine :=
  commitRequest emptyDiskWorld (.ok ()) "/tmp/kyth/staged" "/tmp/kyth/table" gptJournal
    { tableType, slots := [] }

theorem gpt_commit_restores_with_sgdisk :
    planTool ⟨["/usr/sbin/sgdisk", "--load-backup", "/tmp/kyth/table", "/dev/sda"], 60, false⟩ =
      planTool ⟨["/usr/sbin/sgdisk", "--backup", "/tmp/kyth/table", "/dev/sda"], 30, false⟩ := by
  have hok : (gptCommit "gpt").1.isOk = true := by decide
  obtain ⟨result, hresult⟩ : ∃ result, (gptCommit "gpt").1 = .ok result := by
    cases h : (gptCommit "gpt").1 with
    | ok result => exact ⟨result, rfl⟩
    | error e => rw [h] at hok; cases hok
  have hcommit : commitRequest emptyDiskWorld (.ok ()) "/tmp/kyth/staged" "/tmp/kyth/table"
      gptJournal { tableType := "gpt", slots := [] } = (.ok result, (gptCommit "gpt").2) :=
    Prod.ext hresult rfl
  refine (restore_tool_iff hcommit rfl rfl (by decide) (by decide)).mpr ?_
  have hlabel : lastLabel (gptCommit "gpt").2.completed = some "gpt" := by decide
  intro label hlabel'
  rw [hlabel] at hlabel'
  exact (Option.some.inj hlabel').symm

/-- On an MBR disk the same commit saves the table with `sfdisk` and loads it with `sgdisk`. -/
theorem mbr_commit_restores_with_sgdisk :
    validate gptJournal [] "dos" 0x100000000 = [] ∧
      (gptCommit "dos").2.planned.getLast? = some (.backupTable "/dev/sda" "/tmp/kyth/table",
        ⟨["/bin/sh", "-c", "exec /usr/sbin/sfdisk --dump \"$1\" > \"$2\"", "kyth-sfdisk-dump",
          "/dev/sda", "/tmp/kyth/table"], 30, false⟩) ∧
      (gptCommit "dos").2.planned.head? = some (.restoreTable "/dev/sda" "/tmp/kyth/table",
        ⟨["/usr/sbin/sgdisk", "--load-backup", "/tmp/kyth/table", "/dev/sda"], 60, false⟩) := by
  decide

end Kyth.Journal

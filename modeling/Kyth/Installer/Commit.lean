import Kyth.Installer.Layout
import Kyth.Lib.Action

/-!
# Committing a journal (`installer_journal.rs`)

`execute_operation` and `commit_request` drive the machine: they probe it, ask `buildPlan` for a
command, run the command and probe again. The machine is a state (`Machine`) that the commands
change and that also keeps a record of them; what it answers to the probes is a parameter
(`World`), so that every theorem is about every disk, every naming by the kernel and every call
that may fail. A failed call leaves the disk as it was.
-/

namespace Kyth.Journal

open Str Word Json Storage Disk
open Kyth.Action (check)

/-- The disk under a commit, with what the commit has done to it so far. -/
structure Machine where
  tableType : String
  slots : List Slot
  /-- Every request handed to `run_disk_operation`, the latest first. -/
  requested : List DiskOperationInput := []
  /-- Every plan that was handed to a process, the latest first. -/
  planned : List (DiskOperationInput × DiskPlan) := []
  /-- Every request whose command succeeded, the latest first. -/
  completed : List DiskOperationInput := []
  /-- The byte ranges that filesystem tools wrote. -/
  written : List (ℕ × ℕ) := []
  /-- The number of calls to the outside. -/
  clock : ℕ := 0

/-- What the machine answers. -/
structure World where
  /-- The message with which a call fails, by the number of the call. -/
  fault : ℕ → Option String
  /-- The devices that `lsblk` lists. -/
  lsblk : Machine → Option String → String → LsblkSnapshot
  /-- The `lsblk` document that `find_new_partition` reads. -/
  document : Machine → Value
  /-- The partitions of the other disks. -/
  others : StringMap UInt32
  /-- The number of a partition of the disk. -/
  number : String → UInt32
  /-- The name the kernel gives to a new partition. -/
  newName : Machine → String
  /-- What a listing says about a partition besides its name, extent and filesystem. -/
  details : String → PartitionRecord
  sectorSize : ℕ
  diskSizeBytes : UInt64
  sfdiskBinary : Except String String

namespace Machine

/-- The partitions a device path stands for. -/
def atDevice (m : Machine) (device : String) : List Slot :=
  m.slots.filter fun slot => some slot.name = Plan.normalizeDevicePath device

/-- The table type a command writes. -/
def labelType : DiskOperationInput → Option String
  | .createLabel _ tableType => some (if normalizedName tableType = "gpt" then "gpt" else "dos")
  | _ => none

/-- The partitions after a command ran. -/
def slotsAfter (w : World) (m : Machine) : DiskOperationInput → List Slot
  | .createLabel _ _ => []
  | .createPartition _ start size _ _ _ | .createUnformattedPartition _ start size _ _ =>
      ⟨w.newName m, start.toNat, start.toNat + size.toNat, ""⟩ :: m.slots
  | .deletePartition _ partNum _ => m.slots.filter fun slot => w.number slot.name ≠ partNum
  | .resizePartition _ partNum start newSize _ _ =>
      m.slots.map fun slot =>
        if w.number slot.name = partNum then { slot with stop := start.toNat + newSize.toNat }
        else slot
  | .formatFilesystem device fs _ _ =>
      m.slots.map fun slot =>
        if some slot.name = Plan.normalizeDevicePath device then
          { slot with fstype := probedFstype fs }
        else slot
  | _ => m.slots

/-- The byte ranges a command writes inside partitions. -/
def writesOf (m : Machine) : DiskOperationInput → List (ℕ × ℕ)
  | .filesystemResize device _ _ stage =>
      if normalizedName stage = "resize" then (m.atDevice device).map Slot.span else []
  | .formatFilesystem device _ _ _ => (m.atDevice device).map Slot.span
  | _ => []

/-- The machine after a command ran. -/
def apply (w : World) (m : Machine) (operation : DiskOperationInput) : Machine :=
  { m with
    tableType := (labelType operation).getD m.tableType
    slots := m.slotsAfter w operation
    written := m.writesOf operation ++ m.written }

end Machine

/-- What a listing says about a partition of the disk. -/
def liveRecord (w : World) (slot : Slot) : PartitionRecord :=
  { w.details slot.name with
    name := slot.name
    sizeBytes := UInt64.ofNat (slot.stop - slot.start)
    startBytes := UInt64.ofNat slot.start
    fstype := slot.fstype }

/-- The probes behind `build_plan`. -/
def probes (w : World) (m : Machine) : DiskProbes where
  lsblkSnapshot disk columns := .ok (w.lsblk m disk columns)
  logicalSectorSize _ := .ok w.sectorSize
  partitionTableType _ :=
    if m.tableType = "gpt" ∨ m.tableType = "dos" then .ok m.tableType
    else .error "disk has no recognized partition table; refusing to back it up."
  sfdiskBinary := w.sfdiskBinary

/-- A step of the commit on the machine. -/
abbrev Exec := Action Machine String

/-- A call to the outside, which may fail. -/
def call (w : World) : Exec Unit := do
  let m ← Action.get
  Action.modify fun m => { m with clock := m.clock + 1 }
  match w.fault m.clock with
  | some error => throw error
  | none => return ()

/-- `run_disk_operation`. -/
def runDiskOperation (w : World) (operation : DiskOperationInput) : Exec Unit := do
  Action.modify fun m => { m with requested := operation :: m.requested }
  let m ← Action.get
  let plan ← check (buildPlan (probes w m) operation)
  Action.modify fun m => { m with planned := (operation, plan) :: m.planned }
  call w
  Action.modify fun m => { m.apply w operation with completed := operation :: m.completed }
  match operation with
  | .backupTable _ _ => call w -- `sync_backup`
  | _ => return ()

/-! ### Probes during a commit -/

/-- `runtime_partitions`. -/
def runtimePartitions (w : World) : Exec (StringMap UInt32) := do
  call w
  let m ← Action.get
  return m.slots.foldl (fun parts slot =>
    match Plan.normalizeDevicePath slot.name with
    | some name => parts.insert name (w.number slot.name)
    | none => parts) w.others

/-- `partuuid_of`. -/
def partuuidOf (w : World) (disk : String) (partNum : UInt32) : Exec String := do
  call w
  let m ← Action.get
  check (partuuidForPartitionNumber (w.lsblk m (some disk) "NAME,TYPE,PARTN,PARTUUID") disk
    partNum)

/-- The entry itself, when it is a new partition of the wanted extent. -/
def newPartition (before : StringMap UInt32) (start size : UInt64) (entry : Value) :
    Option String := do
  if (entry.get "type").bind Value.asStr ≠ some "part" then none
  else
    let name ← ((entry.get "name").bind Value.asStr).bind Plan.normalizeDevicePath
    let sectors := ((entry.get "start").bind Value.asU64).getD 0
    let actualSize := ((entry.get "size").bind Value.asU64).getD 0
    if name ∉ before ∧ satMulU64 sectors.toNat 512 = start.toNat ∧ actualSize = size then some name
    else none

mutual
/-- The walk of `find_new_partition`: the new partitions of the wanted extent in an entry and the
entries below its `children`. -/
def newPartitions (before : StringMap UInt32) (start size : UInt64) : Value → List String
  | .object fields =>
      (newPartition before start size (.object fields)).toList ++
        newPartitionsBelow before start size fields
  | _ => []

/-- The new partitions below the `children` of an entry. -/
def newPartitionsBelow (before : StringMap UInt32) (start size : UInt64) :
    List (String × Value) → List String
  | [] => []
  | (key, value) :: fields =>
      if key = "children" then
        match value with
        | .array children => newPartitionsIn before start size children
        | _ => []
      else newPartitionsBelow before start size fields

/-- The new partitions of a list of entries. -/
def newPartitionsIn (before : StringMap UInt32) (start size : UInt64) : List Value → List String
  | [] => []
  | entry :: entries =>
      newPartitions before start size entry ++ newPartitionsIn before start size entries
end

/-- `find_new_partition`. -/
def findNewPartition (w : World) (disk : String) (before : StringMap UInt32)
    (start size : UInt64) : Exec String := do
  if Plan.normalizeDevicePath disk = none then throw "disk must be a safe device path"
  call w
  let m ← Action.get
  match newPartitions before start size (w.document m) with
  | created :: _ => return created
  | [] => throw "could not find the newly created partition"

/-- `runtime_partition_records`. -/
def runtimePartitionRecords (w : World) (disk : String) : Exec (List PartitionRecord) := do
  if Plan.normalizeDevicePath disk = none then throw "disk must be a safe device path"
  call w
  check (validSectorSize w.sectorSize)
  let m ← Action.get
  return m.slots.map (liveRecord w)

/-- `part_num`. -/
def partNum (partition : String) (parts : StringMap UInt32) : Except String UInt32 :=
  match Plan.normalizeDevicePath partition with
  | none => .error "partition must be a safe device path"
  | some partition =>
      match parts.lookup partition with
      | some number => .ok number
      | none => .error ("partition " ++ partition ++ " was not found on the target disk")

/-- `current_fs`. -/
def currentFs (partition : String) (currentParts : List PartitionRecord) : Except String String :=
  match Plan.normalizeDevicePath partition with
  | none => .error "partition must be a safe device path"
  | some partition =>
      match (currentParts.find? fun part => part.name = partition).map fun part =>
          toAsciiLowercase part.fstype with
      | some fstype =>
          if fstype = "" then .error ("filesystem type for " ++ partition ++ " is unavailable")
          else .ok fstype
      | none => .error ("filesystem type for " ++ partition ++ " is unavailable")

/-- The requests of `shrink_filesystem`, in order. -/
def shrinkRequests (partition fs : String) (newSize : UInt64) :
    Except String (List DiskOperationInput) :=
  if fs = "ntfs" ∨ fs = "ntfs3" then
    .ok (["check", "info", "dry_run", "resize"].map (.filesystemResize partition "ntfs" newSize))
  else if fs = "ext2" ∨ fs = "ext3" ∨ fs = "ext4" then
    .ok [.filesystemCheck partition, .filesystemResize partition "ext4" newSize "resize"]
  else .error ("Shrinking " ++ fs ++ " filesystems is not supported by this installer.")

/-- `shrink_filesystem`. -/
def shrinkFilesystem (w : World) (partition fs : String) (newSize : UInt64) : Exec Unit := do
  let requests ← check (shrinkRequests partition fs newSize)
  requests.forM (runDiskOperation w)

/-! ### One operation -/

/-- The state of `execute_operation`: the machine and the two values it changes in place. -/
structure Run where
  machine : Machine
  irreversible : Bool
  params : Value

/-- A step of `execute_operation`. -/
abbrev RunExec := Action Run String

/-- A step on the machine. -/
def onMachine {α : Type} (x : Exec α) : RunExec α := fun r =>
  ((x r.machine).1, { r with machine := (x r.machine).2 })

/-- Set a partition flag after looking up the number and the identity of the partition. -/
def setFlag (w : World) (disk partition flag : String) : Exec Unit := do
  let number ← check (partNum partition (← runtimePartitions w))
  let expectedPartuuid ← partuuidOf w disk number
  runDiskOperation w (.setPartitionFlag disk number flag true expectedPartuuid)

/-- `execute_operation` for `new_table`. -/
def executeNewTable (w : World) (disk : String) (sectorSize : ℕ) (params : Value) :
    Exec String := do
  let tableType := valueString params "table_type"
  runDiskOperation w (.createLabel disk (if tableType = "" then "gpt" else tableType))
  if asksGpt params then
    let before ← runtimePartitions w
    runDiskOperation w (.createUnformattedPartition disk (1024 * 1024)
      (UInt64.ofNat biosBootBytes) "biosboot" sectorSize)
    let bios ← findNewPartition w disk before (1024 * 1024) (UInt64.ofNat biosBootBytes)
    setFlag w disk bios "bios_grub"
  return disk

/-- The parameters of a `create` after its partition was found. -/
def markCreated (params : Value) (created : String) : Value :=
  (params.set "partition" (.string created)).set "_created_this_journal" (.bool true)

/-- `execute_operation` for `create`. -/
def executeCreate (w : World) (disk : String) (sectorSize : ℕ) (params : Value)
    (before : StringMap UInt32) : RunExec String := do
  let start := valueU64 params "start_bytes" 0
  let size := valueU64 params "size_bytes" 0
  let fs := valueString params "fs_type"
  let label := valueString params "label"
  onMachine (runDiskOperation w (.createPartition disk start size fs label sectorSize))
  let created ← onMachine (findNewPartition w disk before start size)
  Action.modify fun r => { r with params := markCreated r.params created }
  if fs ≠ "linux-swap" then
    onMachine (runDiskOperation w (.formatFilesystem created fs label disk))
  if isEfiMountpoint (valueString params "mountpoint") then
    onMachine (setFlag w disk created "esp")
  return created

/-- `execute_operation` for `delete`. -/
def executeDelete (w : World) (disk target : String) (before : StringMap UInt32) :
    Exec String := do
  let number ← check (partNum target before)
  let expectedPartuuid ← partuuidOf w disk number
  runDiskOperation w (.deletePartition disk number expectedPartuuid)
  return target

/-- The start of a partition in a listing. -/
def liveStart (target : String) (liveParts : List PartitionRecord) : Except String UInt64 :=
  match liveParts.find? fun part =>
      part.name = (Plan.normalizeDevicePath target).getD "" with
  | some part => .ok part.startBytes
  | none => .error ("partition geometry for " ++ target ++ " is unavailable")

/-- The shrink of a `resize` and the new table entry. A successful shrink is the point of no
return. -/
def shrinkAndResize (w : World) (disk target fs : String) (start newSize : UInt64)
    (sectorSize : ℕ) : RunExec String := do
  onMachine (shrinkFilesystem w target fs newSize)
  Action.modify fun r => { r with irreversible := true }
  let number ← check (partNum target (← onMachine (runtimePartitions w)))
  let expectedPartuuid ← onMachine (partuuidOf w disk number)
  onMachine (runDiskOperation w
    (.resizePartition disk number start newSize sectorSize expectedPartuuid))
  return target

/-- `execute_operation` for `resize`. -/
def executeResize (w : World) (disk target : String) (sectorSize : ℕ) (params : Value) :
    RunExec String := do
  let newSize := valueU64 params "new_size_bytes" 0
  if newSize = 0 then
    throw ("refusing resize of " ++ target ++ ": new_size_bytes is missing or zero")
  let liveParts ← onMachine (runtimePartitionRecords w disk)
  let fs ← check (currentFs target liveParts)
  let start ← check (liveStart target liveParts)
  shrinkAndResize w disk target fs start newSize sectorSize

/-- A `create` of the journal that made the target of a `format`, by its own mark. -/
def createdHere (journal : PartitionJournal) (target : String) : Bool :=
  journal.ops.any fun item =>
    item.kind = .create && isTrue item.params "_created_this_journal" &&
      valueString item.params "partition" = target

/-- `execute_operation` for `format`. The old filesystem counts as lost before `mkfs` starts. -/
def executeFormat (w : World) (journal : PartitionJournal) (target : String) (params : Value) :
    RunExec String := do
  if ¬ createdHere journal target then
    Action.modify fun r => { r with irreversible := true }
  onMachine (runDiskOperation w (.formatFilesystem target (valueString params "fs_type")
    (valueString params "label") journal.disk))
  return target

/-- `execute_operation` for `set_mountpoint`, with `esp_flag_operation`. -/
def executeSetMountpoint (w : World) (disk target : String) (params : Value)
    (before : StringMap UInt32) : Exec String := do
  let number ← check (partNum target before)
  let expectedPartuuid ← partuuidOf w disk number
  if isEfiMountpoint (valueString params "mountpoint") then
    runDiskOperation w (.setPartitionFlag disk number "esp" true expectedPartuuid)
  return target

/-- `execute_operation`. -/
def executeOperation (w : World) (journal : PartitionJournal) (sectorSize : ℕ) (kind : OpKind) :
    RunExec String := do
  let params := (← Action.get).params
  let target := valueString params "partition"
  let before ← onMachine (runtimePartitions w)
  match kind with
  | .newTable => onMachine (executeNewTable w journal.disk sectorSize params)
  | .create => executeCreate w journal.disk sectorSize params before
  | .delete => onMachine (executeDelete w journal.disk target before)
  | .resize => executeResize w journal.disk target sectorSize params
  | .format => executeFormat w journal target params
  | .setMountpoint => onMachine (executeSetMountpoint w journal.disk target params before)
  | .other name => throw ("unsupported journal operation: " ++ name)

/-! ### The whole journal -/

/-- The state of the loop of `commit_request`. -/
structure CommitState where
  machine : Machine
  irreversible : Bool
  journal : PartitionJournal

/-- One turn of the loop: the operation at an index, with its changed parameters written back. -/
def executeAt (w : World) (sectorSize index : ℕ) : Action CommitState String String := fun s =>
  match s.journal.ops[index]? with
  | none => (.ok "", s)
  | some op =>
      let out := executeOperation w s.journal sectorSize op.kind
        ⟨s.machine, s.irreversible, op.params⟩
      (out.1, { machine := out.2.machine
                irreversible := out.2.irreversible
                journal := { s.journal with
                  ops := s.journal.ops.set index { op with params := out.2.params } } })

/-- The loop from an index on: the index and the message of the failure, if there is one. -/
def executeFrom (w : World) (sectorSize : ℕ) :
    ℕ → ℕ → CommitState → Option (ℕ × String) × CommitState
  | 0, _, s => (none, s)
  | todo + 1, index, s =>
      match executeAt w sectorSize index s with
      | (.ok _, s') => executeFrom w sectorSize todo (index + 1) s'
      | (.error error, s') => (some (index, error), s')

/-- One step of the fold in `root_partition`. -/
def recordAssignment (assignments : StringMap String) (op : PartitionOperation) :
    StringMap String :=
  let partition := Plan.normalizeDevicePath (valueString op.params "partition")
  match op.kind with
  | .newTable => ∅
  | .create | .setMountpoint =>
      let key := partition.getD (createdKey op.index)
      let mountpoint := valueString op.params "mountpoint"
      if mountpoint = "" then assignments.erase key else assignments.insert key mountpoint
  | .delete =>
      match partition with
      | some partition => assignments.erase partition
      | none => assignments
  | _ => assignments

/-- `root_partition`. -/
def rootPartition (journal : PartitionJournal) : Option String :=
  let assignments := journal.ops.foldl recordAssignment ∅
  let roots := (assignments.entries.filter fun entry => entry.2 == "/").filterMap fun entry =>
    Plan.normalizeDevicePath entry.1
  match roots with
  | [root] => some root
  | _ => none

/-- The answer of `commit_request`. -/
inductive CommitResult
  | invalid (errors : List String)
  | committed (rootPartition : Option String) (journal : PartitionJournal)
  | failed (irreversible : Bool) (message : String) (journal : PartitionJournal)
  | recoveryRequired (message : String) (journal : PartitionJournal)

/-- `external_backup_paths`. -/
def externalBackupPaths (journal : PartitionJournal) : List String :=
  ((journal.ops.filter fun op => op.kind = .resize).filterMap fun op =>
    ((op.params.get "gpt_backup_path").bind Value.asStr).map trim).filter (· ≠ "") |>.eraseDups

/-- `persist_external_backup`: the checks of the mount, the backup at a staging path and its
publication. -/
def persistExternalBackup (w : World) (staged path disk : String) : Exec Unit := do
  if ¬ pathOnExternalMedia path then
    throw "GPT backup path must be on external media (/run/media/… or /mnt/…)"
  call w
  runDiskOperation w (.backupTable disk staged)
  call w

/-- The rest of `commit_request` after an operation failed. -/
def rollBack (w : World) (backupPath message : String) (s : CommitState) :
    Exec CommitResult := fun _ =>
  if s.irreversible then
    (.ok (.failed true message { s.journal with irreversibleCompleted := true }), s.machine)
  else
    match runDiskOperation w (.restoreTable s.journal.disk backupPath) s.machine with
    | (.ok _, m) => (.ok (.failed false message { s.journal with irreversibleCompleted := false }), m)
    | (.error restoreError, m) =>
        (.ok (.recoveryRequired (message ++ "; partition-table rollback also failed: " ++
          restoreError) { s.journal with irreversibleCompleted := true }), m)

/-- `commit_request` up to its loop, with the answer of the target guard: the messages of
`validate`, and the backups when there are none. `staged` and `backupPath` are the paths in the
temporary directories. -/
def prepareCommit (w : World) (guard : Except String Unit) (staged backupPath : String)
    (journal : PartitionJournal) : Exec (List String) := do
  if journal.diskSerial = none ∧ journal.diskModel = none ∧ journal.diskSizeBytes = none then
    throw ("partition journal has no staging-time disk identity; restage the partition plan before " ++
      "committing")
  check guard
  call w
  check (validSectorSize w.sectorSize)
  let currentParts ← runtimePartitionRecords w journal.disk
  call w
  let m ← Action.get
  let errors := validate journal currentParts m.tableType w.diskSizeBytes
  if errors = [] then
    (externalBackupPaths journal).forM fun path => persistExternalBackup w staged path journal.disk
    runDiskOperation w (.backupTable journal.disk backupPath)
  return errors

/-- `commit_request` after its loop. -/
def finishCommit (w : World) (backupPath : String) :
    Option (ℕ × String) × CommitState → Exec CommitResult
  | (none, s) => fun _ =>
      (.ok (.committed (rootPartition s.journal)
        { s.journal with
          irreversibleCompleted := s.irreversible
          rootPartition := rootPartition s.journal
          committed := true }), s.machine)
  | (some (_, message), s) => rollBack w backupPath message s

/-- `commit_request`. -/
def commitRequest (w : World) (guard : Except String Unit) (staged backupPath : String)
    (journal : PartitionJournal) : Exec CommitResult := do
  let errors ← prepareCommit w guard staged backupPath journal
  if errors ≠ [] then return .invalid errors
  let m ← Action.get
  finishCommit w backupPath (executeFrom w w.sectorSize journal.ops.length 0 ⟨m, false, journal⟩)

end Kyth.Journal

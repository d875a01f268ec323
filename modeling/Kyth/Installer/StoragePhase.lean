import Kyth.Installer.Disk
import Kyth.Installer.DurableJournal
import Kyth.Lib.Action

/-!
# The storage phase of an install (`installer_job_executor.rs`)

`execute_storage` prepares the partition that an install goes to. It validates the disk, opens the
crash-recovery journal, selects or creates the target partition and formats it. Every privileged
command goes through a helper process, which builds its argument vector with `Disk.buildPlan`.

The session is explicit state: the partitions of the disk, the journal files and the commands that
ran. What the machine answers is a parameter (`Host`). A command or a journal write may fail or the
machine may crash there, with or without its effect; a probe may fail.
-/

namespace Kyth.Executor

open Str Word Storage Disk Durable
open Kyth.Plan (InstallerPlan InstallMode)

/-- How a command or a write ends. What did not succeed may have taken effect all the same. -/
inductive Outcome
  | done
  | failed (applied : Bool) (message : String)
  | crashed (applied : Bool)
  deriving DecidableEq, Repr

/-- Why a phase stops: the message of its `NativePhaseError`, or the end of the process. -/
inductive Stop
  | failed (message : String)
  | crashed
  deriving DecidableEq, Repr

/-- The selected disk. -/
structure Drive where
  size : UInt64
  pttype : Option String
  partitions : List LsblkDevice

/-- Where a journal file is kept: on a partition, or below a directory in memory. -/
inductive Volume
  | device (name : String)
  | tmpfs (directory : String)
  deriving DecidableEq, Repr

/-- `DurableJournal`: the directory of the file. -/
structure DurableJournal where
  directory : String
  deriving DecidableEq, Repr

/-- The path of the journal file. -/
def DurableJournal.path (journal : DurableJournal) : String :=
  journal.directory ++ "/.kyth-install-journal.json"

/-- The state of an executor and the machine under it. -/
structure Session where
  drive : Drive
  /-- The journal file of each volume. -/
  files : Volume → JournalFile
  /-- The table that `backup_table` saved. -/
  backup : Option (List LsblkDevice) := none
  durableJournal : Option DurableJournal := none
  storageTarget : Option String := none
  /-- Every command that was handed to a process, the latest first. -/
  ran : List DiskOperationInput := []
  /-- The number of calls to the outside. -/
  clock : ℕ := 0

/-- What the machine answers. -/
structure Host where
  /-- How a command or a write ends, by the number of the call. -/
  outcome : ℕ → Outcome := fun _ => .done
  /-- The message with which a probe fails, by the number of the call. -/
  probe : ℕ → Option String := fun _ => none
  /-- What `blockdev --getss` prints. -/
  sectorSize : ℕ := 512
  /-- `validate_target_disk_with_identity`. -/
  targetDisk : Except String Unit := .ok ()
  /-- `check_tpm_preflight`. -/
  tpm : Except String Unit := .ok ()
  acOnline : Bool := true
  uefiBoot : Bool := true
  /-- The columns of a partition that a command just created. -/
  newPartition : Drive → LsblkColumns
  /-- The other disks of the machine. -/
  others : List LsblkDevice := []
  sfdiskBinary : Except String String := .error "sfdisk is not installed"
  /-- The directory of the table backup. -/
  backupDirectory : String := "/tmp/kyth-partition-table"
  now : ℕ → UInt64 := fun _ => 0

/-- A step of the storage phase. -/
abbrev Phase := Action Session Stop

/-! ### The disk -/

/-- The `lsblk` entry of the disk. -/
def Drive.entry (drive : Drive) (disk : String) : LsblkDevice :=
  { name := some disk, deviceType := some "disk", size := some drive.size, pttype := drive.pttype
    children := drive.partitions }

/-- The `lsblk` document of the disk. -/
def Drive.snapshot (drive : Drive) (disk : String) : LsblkSnapshot := ⟨[drive.entry disk]⟩

/-- What is mounted at a directory. A directory at which nothing is mounted is in memory. -/
def Drive.volumeAt (drive : Drive) (directory : String) : Volume :=
  match (flattenAll drive.partitions).find? fun part => (mountpoints part).contains directory with
  | some part => .device (part.path.getD "")
  | none => .tmpfs directory

/-- The file behind a journal. A mount at its directory hides the file that was there. -/
def Session.fileAt (s : Session) (journal : DurableJournal) : JournalFile :=
  s.files (s.drive.volumeAt journal.directory)

/-- Change the partitions that satisfy a condition. -/
def Drive.mapIf (drive : Drive) (p : LsblkDevice → Bool) (f : LsblkDevice → LsblkDevice) : Drive :=
  { drive with partitions := drive.partitions.map fun part => if p part then f part else part }

/-- Mount a partition at the given places only. -/
def withMounts (mounts : List String) (part : LsblkDevice) : LsblkDevice :=
  { part with mountpoint := none, mountpoints := some (mounts.map some) }

/-- Add a partition of the given extent. -/
def Drive.create (drive : Drive) (columns : LsblkColumns) (disk : String) (start size : UInt64) :
    Drive :=
  { drive with
    partitions := drive.partitions ++
      [{ columns with
          deviceType := some "part", pkname := some disk, size := some size
          start := some (start / 512) }] }

/-- The partition type that a flag stands for. -/
def flagType (flag : String) : Option String :=
  if normalizedName flag = "bios_grub" then some biosBootGuid
  else if normalizedName flag = "esp" then some efiPartGuid else none

/-- The disk after a command ran. -/
def Drive.apply (drive : Drive) (columns : LsblkColumns) : DiskOperationInput → Drive
  | .createLabel _ tableType =>
      { drive with
        pttype := some (if normalizedName tableType = "gpt" then "gpt" else "dos"), partitions := [] }
  | .createPartition disk start size _ _ _ | .createUnformattedPartition disk start size _ _ =>
      drive.create columns disk start size
  | .deletePartition _ partNum _ =>
      { drive with partitions := drive.partitions.filter fun part => part.partn != some partNum }
  | .resizePartition _ partNum _ newSize _ _ =>
      drive.mapIf (fun part => part.partn == some partNum) fun part =>
        { part with size := some newSize }
  | .setPartitionFlag _ partNum flag enabled _ =>
      drive.mapIf (fun part => part.partn == some partNum) fun part =>
        { part with parttype := if enabled then flagType flag else none }
  | .formatFilesystem device fs label _ =>
      drive.mapIf (fun part => part.path == Plan.normalizeDevicePath device) fun part =>
        { part with fstype := some fs, label := some label }
  | .mountFilesystem source mountpoint _ bind =>
      drive.mapIf (fun part =>
        if bind then (mountpoints part).contains source
        else part.path == Plan.normalizeDevicePath source) fun part =>
        withMounts (mountpoints part ++ [mountpoint]) part
  | .unmountFilesystem mountpoint recursive _ =>
      drive.mapIf (fun _ => true) fun part =>
        withMounts ((mountpoints part).filter fun mount =>
          !(mount == mountpoint || (recursive && startsWith mount (mountpoint ++ "/")))) part
  | _ => drive

/-- The entry of a saved table, with what the table does not say taken from the disk. -/
def restoredEntry (current : List LsblkDevice) (saved : LsblkDevice) : LsblkDevice :=
  match current.find? fun part => part.name == saved.name with
  | some part =>
      { part with partn := saved.partn, size := saved.size, start := saved.start
                  parttype := saved.parttype, partuuid := saved.partuuid }
  | none => saved

/-- The session after a command ran. -/
def Session.apply (s : Session) (host : Host) : DiskOperationInput → Session
  | .backupTable _ _ => { s with backup := some s.drive.partitions }
  | .restoreTable _ _ =>
      match s.backup with
      | some saved =>
          { s with drive := { s.drive with
                     partitions := saved.map (restoredEntry s.drive.partitions) } }
      | none => s
  | operation => { s with drive := s.drive.apply (host.newPartition s.drive) operation }

section

variable (host : Host) (plan : InstallerPlan)

/-- The probes of the helper process. -/
def probes (s : Session) : DiskProbes where
  lsblkSnapshot disk _ := .ok (match disk with
    | some _ => s.drive.snapshot plan.disk
    | none => ⟨host.others ++ [s.drive.entry plan.disk]⟩)
  logicalSectorSize _ := .ok host.sectorSize
  partitionTableType _ :=
    if s.drive.pttype = some "gpt" ∨ s.drive.pttype = some "dos" then .ok (s.drive.pttype.getD "")
    else .error "disk has no recognized partition table; refusing to back it up."
  sfdiskBinary := host.sfdiskBinary

/-! ### Calls to the outside -/

/-- A check whose message becomes the error of the phase. -/
def lift {α : Type} : Except String α → Phase α
  | .ok value => pure value
  | .error message => throw (.failed message)

/-- A command or a write with its effect. -/
def call (effect : Session → Session) : Phase Unit := fun s =>
  let ticked := { s with clock := s.clock + 1 }
  match host.outcome s.clock with
  | .done => (.ok (), effect ticked)
  | .failed applied message =>
      (.error (.failed message), if applied then effect ticked else ticked)
  | .crashed applied => (.error .crashed, if applied then effect ticked else ticked)

/-- A probe. -/
def ask : Phase Unit := fun s =>
  let ticked := { s with clock := s.clock + 1 }
  match host.probe s.clock with
  | none => (.ok (), ticked)
  | some message => (.error (.failed message), ticked)

/-- Run a step and look at its error. A crash cannot be looked at. -/
def settle {α : Type} (step : Phase α) : Phase (Except String α) := fun s =>
  match step s with
  | (.ok value, s') => (.ok (.ok value), s')
  | (.error (.failed message), s') => (.ok (.error message), s')
  | (.error .crashed, s') => (.error .crashed, s')

/-- The commands that `execute_disk_helper` writes to the transaction file. -/
def isPartitionStep : DiskOperationInput → Bool
  | .createLabel .. | .createPartition .. | .createUnformattedPartition .. | .deletePartition ..
  | .resizePartition .. | .formatFilesystem .. | .setPartitionFlag .. | .filesystemResize ..
  | .btrfsSubvolumeCreate .. | .btrfsSubvolumeSetDefault .. => true
  | _ => false

/-- `append_partition_step`. -/
def appendPartitionStep (operation : DiskOperationInput) : Phase Unit :=
  if isPartitionStep operation then call host id else pure ()

/-- Run a command through the helper process, whose exit status `refused` reports. -/
def runHelper (refused : String) (operation : DiskOperationInput) : Phase Unit := do
  appendPartitionStep host operation
  let s ← Action.get
  match Disk.buildPlan (probes host plan s) operation with
  | .error _ => throw (.failed (refused ++ " exited with status exit status: 1"))
  | .ok _ =>
      Action.modify fun s => { s with ran := operation :: s.ran }
      call host fun s => s.apply host operation
      appendPartitionStep host operation

/-- `execute_disk_helper`. -/
def executeDiskHelper (operation : DiskOperationInput) : Phase Unit :=
  runHelper host plan "disk helper" operation

/-- `execute_stream_helper`. -/
def executeStreamHelper (operation : DiskOperationInput) : Phase Unit :=
  runHelper host plan "streaming disk helper" operation

/-! ### Probes -/

/-- `validate_target_disk`. -/
def validateTargetDisk : Phase Unit := do
  ask host
  lift host.targetDisk

/-- `disk_sector_size`. -/
def diskSectorSize : Phase ℕ := do
  ask host
  if ¬ supportedSectorSize host.sectorSize then
    throw (.failed ("disk reports an unsupported sector size: " ++ toString host.sectorSize))
  return host.sectorSize

/-- `disk_snapshot`. -/
def diskSnapshot : Phase LsblkSnapshot := do
  ask host
  let s ← Action.get
  return s.drive.snapshot plan.disk

/-- `check_storage_preflight`. -/
def checkStoragePreflight : Phase Unit := do
  ask host
  lift host.tpm
  let sectorSize ← diskSectorSize host
  let snapshot ← diskSnapshot host plan
  let preflight ← lift (storagePreflightFromSnapshot snapshot plan.disk sectorSize)
  lift (validateStoragePreflight preflight (plan.mode == .wipe))

/-! ### The durable journal -/

/-- `safe_directory`. -/
def safeDirectory (directory label : String) : Except String Unit :=
  if !startsWith directory "/" || (split directory '/').contains ".." then
    .error (label ++ " must be an absolute path without parent traversal")
  else .ok ()

/-- `write_state`: the file is written, read back, and written once more when it does not read
back as it should. -/
def writeState (journal : DurableJournal) (state : JournalState) : Phase Unit := do
  let write := call host fun s =>
    { s with files := Function.update s.files (s.drive.volumeAt journal.directory)
               (.document state.document) }
  write
  let s ← Action.get
  match load journal.path (s.fileAt journal) with
  | .ok reloaded => if reloaded.ops.length = state.ops.length then return ()
  | .error _ => pure ()
  write
  let s ← Action.get
  match load journal.path (s.fileAt journal) with
  | .error message =>
      throw (.failed ("install journal failed verification after write: " ++ message))
  | .ok reloaded =>
      if reloaded.ops.length ≠ state.ops.length then
        throw (.failed ("install journal record count mismatch after write: expected " ++
          toString state.ops.length ++ ", found " ++ toString reloaded.ops.length))

/-- `DurableJournal::load`. -/
def loadJournal (journal : DurableJournal) : Phase JournalState := do
  ask host
  let s ← Action.get
  lift (load journal.path (s.fileAt journal))

/-- `DurableJournal::open`. -/
def openJournal (journal : DurableJournal) : Phase Unit := do
  lift (safeDirectory journal.directory "journal directory")
  call host id -- the directory is created and inspected
  let s ← Action.get
  match s.fileAt journal with
  | .absent => writeState host journal {}
  | _ =>
      let _ ← loadJournal host journal

/-- `DurableJournal::record`. -/
def DurableJournal.record (journal : DurableJournal) (op : String) (state : OpState) :
    Phase Unit := do
  let name ← lift (validatedOpName op)
  let s ← Action.get
  let current ← loadJournal host journal
  writeState host journal (recordIn name (host.now s.clock) current state)

/-- `DurableJournal::relocate`. -/
def DurableJournal.relocate (journal dest : DurableJournal) : Phase DurableJournal := do
  if dest.path = journal.path then return journal
  lift (safeDirectory dest.directory "journal destination directory")
  call host id -- the directory is created
  let staging ← loadJournal host journal
  let s ← Action.get
  let merged := match load dest.path (s.fileAt dest) with
    | .ok existing => mergeJournalStates staging existing
    | .error _ => staging -- nothing there, or a corrupt journal
  writeState host dest merged
  return dest

/-- The staging directory of the journal. -/
def stagingDirectory (mode : InstallMode) : String :=
  if mode = .wipe then "/run/kyth-installer/install-root" else "/run/kyth-installer/alongside-target"

/-- The EFI system partition that a fresh snapshot shows. -/
def espProbe : Phase (Option EfiPartition) := do
  let sectorSize ← diskSectorSize host
  let snapshot ← diskSnapshot host plan
  lift (efiPartitionFromSnapshot snapshot plan.disk sectorSize)

/-- `open_durable_journal`: the journal on a mounted EFI system partition, otherwise the one in the
staging directory. The probe is a best effort: when it fails, the journal is staged. -/
def openDurableJournal : Phase Unit := do
  let efi ← settle (espProbe host plan)
  let mounted := efi.toOption.join.bind EfiPartition.mountedAt
  let journal : DurableJournal := ⟨mounted.getD (stagingDirectory plan.mode)⟩
  openJournal host journal
  Action.modify fun s => { s with durableJournal := some journal }

/-- The open journal. -/
def openedJournal : Phase DurableJournal := do
  let s ← Action.get
  match s.durableJournal with
  | some journal => return journal
  | none => throw (.failed "durable journal was not opened before the storage phase")

/-- `record_journal`. -/
def recordJournal (op : String) (state : OpState) : Phase Unit := do
  let journal ← openedJournal
  journal.record host op state

/-- `journal_completed`. -/
def journalCompleted (op : String) : Phase Bool := do
  let s ← Action.get
  match s.durableJournal with
  | none => return false
  | some journal =>
      let state ← loadJournal host journal
      return state.completed op

/-- `ESP_SCRATCH_MOUNTPOINT`. -/
def espScratchMountpoint : String := "/run/kyth-installer/esp-journal"

/-- Where the EFI system partition is mounted: where the session has it, or at the scratch
directory. -/
def espMountpoint (efi : EfiPartition) : Phase String :=
  match efi.mountedAt with
  | some mountedAt => return mountedAt
  | none => do
      executeDiskHelper host plan (.ensureDirectory espScratchMountpoint)
      executeDiskHelper host plan (.mountFilesystem efi.name espScratchMountpoint [] false)
      return espScratchMountpoint

/-- `ensure_esp_journal`. -/
def ensureEspJournal : Phase Unit := do
  match ← espProbe host plan with
  | none =>
      throw (.failed "no EFI system partition found; cannot place the durable install journal")
  | some efi =>
      let mountpoint ← espMountpoint host plan efi
      let journal ← openedJournal
      let dest : DurableJournal := ⟨mountpoint⟩
      if journal.path = dest.path then return ()
      let relocated ← journal.relocate host dest
      Action.modify fun s => { s with durableJournal := some relocated }

/-! ### Changes of the partition table -/

/-- `guarded_table_mutation`. -/
def guardedTableMutation {α : Type} (body : Phase α) : Phase α := do
  call host id -- the disk lock and the directory of the backup
  validateTargetDisk host
  let backupPath := host.backupDirectory ++ "/partition-table.backup"
  executeDiskHelper host plan (.backupTable plan.disk backupPath)
  match ← settle body with
  | .ok value => return value
  | .error operationError =>
      match ← settle (executeDiskHelper host plan (.restoreTable plan.disk backupPath)) with
      | .ok _ => throw (.failed operationError)
      | .error restoreError =>
          throw (.failed ("native installer phase Storage failed: " ++ operationError ++
            "; partition-table restore also failed: native installer phase Storage failed: " ++
            restoreError ++ "; partition-table backup preserved at " ++ host.backupDirectory))

/-- `BIOS_BOOT_BYTES`. -/
def biosBootBytes : ℕ := 1024 * 1024

/-- The BIOS boot partition of `create_target_partition`, at the start of the region. -/
def createBiosBoot (before : LsblkSnapshot) (start sectorSize : ℕ) : Phase LsblkSnapshot := do
  executeDiskHelper host plan
    (.createUnformattedPartition plan.disk (.ofNat start) (.ofNat biosBootBytes) "biosboot"
      sectorSize)
  let after ← diskSnapshot host plan
  let bios ← lift (newPartitionFromSnapshots before after start biosBootBytes sectorSize)
  let biosProbe ← lift (partitionProbeFromSnapshot after plan.disk bios sectorSize)
  executeDiskHelper host plan
    (.setPartitionFlag plan.disk biosProbe.number "bios_grub" true biosProbe.partuuid)
  return after

/-- The KythOS partition of `create_target_partition`, in the rest of the region. -/
def createKythos (before : LsblkSnapshot) (start stop sectorSize : ℕ) : Phase String := do
  if stop < start then
    throw (.failed "free-space target has invalid post-boot geometry")
  let size := stop - start
  if size < minKythosBytes then
    throw (.failed "free-space target is smaller than the KythOS minimum")
  executeDiskHelper host plan
    (.createPartition plan.disk (.ofNat start) (.ofNat size) "btrfs" "KythOS" sectorSize)
  let after ← diskSnapshot host plan
  let target ← lift (newPartitionFromSnapshots before after start size sectorSize)
  let _ ← lift (partitionProbeFromSnapshot after plan.disk target sectorSize)
  return target

/-- `create_target_partition`. -/
def createTargetPartition (start stop sectorSize : ℕ) : Phase String := do
  if stop ≤ start then
    throw (.failed "free-space target has invalid geometry")
  let before ← diskSnapshot host plan
  if ← lift (hasBiosBootPartition before sectorSize) then
    createKythos host plan before start stop sectorSize
  else
    if stop - start < biosBootBytes + sectorSize then
      throw (.failed "free-space target cannot fit a BIOS boot partition")
    let before ← createBiosBoot host plan before start sectorSize
    createKythos host plan before (satAddU64 start biosBootBytes) stop sectorSize

/-! ### The guided NTFS shrink -/

/-- `MIN_WINDOWS_BYTES`. -/
def minWindowsBytes : ℕ := 64 * 1024 * 1024 * 1024

/-- A checked sum. -/
def checkedSum (a b : ℕ) (message : String) : Phase ℕ :=
  match checkedAddU64 a b with
  | some sum => pure sum
  | none => throw (.failed message)

/-- `ntfs_shrink_resume_window`. -/
def ntfsShrinkResumeWindow (snapshot : LsblkSnapshot) (probe : PartitionProbe) (sectorSize : ℕ) :
    Phase (Option (ℕ × ℕ)) := do
  if !(← journalCompleted host "ntfs_shrink") then
    return none
  let size := probe.sizeBytes.toNat
  -- the live size is the size after the shrink
  let preShrink := satAddU64 size plan.resizeBytes
  if plan.preShrinkBytes.any fun recorded => sectorSize < absDiff recorded size then
    throw (.failed ("NTFS partition size changed since the install started; refusing to resume or " ++
      "repeat the shrink"))
  if preShrink < plan.resizeBytes then
    throw (.failed "NTFS shrink journal is inconsistent with the install plan")
  if satAddU64 (preShrink - plan.resizeBytes) sectorSize < size then
    throw (.failed ("NTFS shrink was recorded as complete but the partition is larger than the " ++
      "shrink target; refusing to shrink again"))
  let newEnd ← checkedSum probe.startBytes.toNat size "NTFS partition geometry overflowed"
  let oldEnd ← checkedSum probe.startBytes.toNat preShrink "NTFS target geometry overflowed"
  if oldEnd ≤ newEnd then
    throw (.failed "NTFS shrink journal is inconsistent with the install plan")
  if oldEnd - newEnd < minKythosBytes then
    throw (.failed ("space freed by the previous NTFS shrink is smaller than the KythOS minimum; " ++
      "refusing to continue"))
  if !(← lift (containsFreeRegion snapshot plan.disk newEnd oldEnd sectorSize)) then
    throw (.failed ("space freed by the previous NTFS shrink is no longer free; refusing to shrink " ++
      "again"))
  return some (newEnd, oldEnd)

/-- The stages of an NTFS resize, of which the last one writes. -/
def resizeStages : List String := ["check", "info", "dry_run", "resize"]

/-- The shrink of `resize_ntfs_target`: the filesystem first, then the boundary. -/
def shrinkNtfs (partition : String) (probe : PartitionProbe) (sectorSize : ℕ) :
    Phase (ℕ × ℕ) := do
  ensureEspJournal host plan
  let size := probe.sizeBytes.toNat
  if size < plan.resizeBytes then
    throw (.failed "NTFS shrink exceeds the selected partition size")
  let newSize := size - plan.resizeBytes
  if newSize < minWindowsBytes ∨ newSize % sectorSize ≠ 0 then
    throw (.failed "NTFS shrink would leave an unsafe or unaligned Windows partition")
  recordJournal host "ntfs_shrink" .started
  resizeStages.forM fun stage =>
    executeStreamHelper host plan (.filesystemResize partition "ntfs" (.ofNat newSize) stage)
  let fresh ← diskSnapshot host plan
  let freshProbe ← lift (partitionProbeFromSnapshot fresh plan.disk partition sectorSize)
  if freshProbe.startBytes ≠ probe.startBytes ∨
      sectorSize < absDiff freshProbe.sizeBytes.toNat size then
    throw (.failed ("NTFS partition changed during the filesystem shrink; refusing to move its " ++
      "boundary"))
  executeDiskHelper host plan
    (.resizePartition plan.disk freshProbe.number freshProbe.startBytes (.ofNat newSize) sectorSize
      freshProbe.partuuid)
  let after ← diskSnapshot host plan
  let resized ← lift (partitionProbeFromSnapshot after plan.disk partition sectorSize)
  if sectorSize < absDiff resized.sizeBytes.toNat newSize then
    throw (.failed "NTFS partition boundary did not match the requested size")
  recordJournal host "ntfs_shrink" .completed
  let oldEnd ← checkedSum probe.startBytes.toNat size "NTFS partition geometry overflowed"
  let newEnd ← checkedSum probe.startBytes.toNat newSize "NTFS target geometry overflowed"
  return (newEnd, oldEnd)

/-- `resize_ntfs_target`. -/
def resizeNtfsTarget : Phase String := do
  if !host.acOnline then
    throw (.failed ("Connect AC power before shrinking Windows. Power loss during a filesystem or " ++
      "partition resize can leave the disk unbootable."))
  match plan.resizePartition with
  | none => throw (.failed "NTFS resize has no selected partition")
  | some partition =>
      let sectorSize ← diskSectorSize host
      let before ← diskSnapshot host plan
      let probe ← lift (partitionProbeFromSnapshot before plan.disk partition sectorSize)
      if probe.fstype ≠ "ntfs" ∧ probe.fstype ≠ "ntfs3" then
        throw (.failed "Only NTFS partitions can be resized by this installer path")
      if probe.efi || probe.current || probe.inUse || probe.readOnly then
        throw (.failed "The selected NTFS partition is mounted, read-only, or reserved")
      match ← ntfsShrinkResumeWindow host plan before probe sectorSize with
      | some (newEnd, oldEnd) => createTargetPartition host plan newEnd oldEnd sectorSize
      | none =>
          let (newEnd, oldEnd) ← shrinkNtfs host plan partition probe sectorSize
          createTargetPartition host plan newEnd oldEnd sectorSize

/-! ### Formatting the target -/

/-- `BTRFS_STAGING_MOUNTPOINT`. -/
def btrfsStagingMountpoint : String := "/run/kyth-installer/btrfs-root"

/-- `FILESYSTEM_STAGING_MOUNTPOINT`. -/
def filesystemStagingMountpoint : String := "/run/kyth-installer/alongside-target"

/-- `efi_mount_operation`. -/
def efiMountOperation (efi : EfiPartition) (mountpoint : String) : DiskOperationInput :=
  match efi.mountedAt with
  | some source => .mountFilesystem source mountpoint [] true
  | none => .mountFilesystem efi.name mountpoint [] false

/-- `mount_efi`. -/
def mountEfi : Phase Unit := do
  let snapshot ← diskSnapshot host plan
  let sectorSize ← diskSectorSize host
  match ← lift (efiPartitionFromSnapshot snapshot plan.disk sectorSize) with
  | none => throw (.failed "ESP vanished between preflight and mount")
  | some efi =>
      let mountpoint := filesystemStagingMountpoint ++ "/boot/efi"
      executeDiskHelper host plan (.ensureDirectory mountpoint)
      executeDiskHelper host plan (efiMountOperation efi mountpoint)

/-- What the checks call the partition of a mode. -/
def roleOf (mode : InstallMode) : String :=
  if mode = .manual then "root partition" else "target partition"

/-- The partition that `prepare_btrfs_target` formats: the one the plan names, probed again. -/
def probeTarget : Phase String := do
  match plan.targetPartition with
  | none => throw (.failed "filesystem install has no target partition")
  | some requested =>
      let snapshot ← diskSnapshot host plan
      let sectorSize ← diskSectorSize host
      let probe ← lift
        (validateReplaceTarget snapshot plan.disk requested (roleOf plan.mode) sectorSize)
      return probe.name

/-- The subvolumes of a new root filesystem. -/
def createSubvolumes : Phase Unit := do
  ["@", "@home"].forM fun name =>
    executeDiskHelper host plan (.btrfsSubvolumeCreate btrfsStagingMountpoint name)
  executeDiskHelper host plan (.btrfsSubvolumeSetDefault btrfsStagingMountpoint "@")

/-- `prepare_btrfs_target`, which does not look at the target it is given. -/
def prepareBtrfsTarget (_target : String) : Phase Unit := do
  call host id -- the disk lock
  validateTargetDisk host
  let target ← probeTarget host plan
  recordJournal host "format" .started
  executeDiskHelper host plan (.formatFilesystem target "btrfs" "KythOS" plan.disk)
  recordJournal host "format" .completed
  executeDiskHelper host plan (.ensureDirectory btrfsStagingMountpoint)
  executeDiskHelper host plan (.mountFilesystem target btrfsStagingMountpoint [] false)
  let temporarySetup ← settle (createSubvolumes host plan)
  let cleanup ← settle (executeDiskHelper host plan
    (.unmountFilesystem btrfsStagingMountpoint true true))
  lift temporarySetup
  lift cleanup
  executeDiskHelper host plan (.ensureDirectory filesystemStagingMountpoint)
  executeDiskHelper host plan
    (.mountFilesystem target filesystemStagingMountpoint ["subvol=@"] false)
  mountEfi host plan
  ensureEspJournal host plan

/-! ### The phase -/

/-- The checks before the journal is opened; `wipe` has its own in the image phase. -/
def prologue : Phase Unit := do
  if plan.mode ≠ .wipe then
    validateTargetDisk host
    checkStoragePreflight host plan
  openDurableJournal host plan

/-- The existing partition of an `alongside` or `manual` install. -/
def selectExisting : Phase String := do
  match plan.targetPartition with
  | none => throw (.failed "filesystem install has no target partition")
  | some requested =>
      let sectorSize ← diskSectorSize host
      let snapshot ← diskSnapshot host plan
      if plan.mode = .alongside then
        lift (validateAlongsideBiosBoot snapshot plan.disk host.uefiBoot sectorSize)
      let probe ← lift
        (validateReplaceTarget snapshot plan.disk requested (roleOf plan.mode) sectorSize)
      return probe.name

/-- A table change between its two journal records. -/
def recordedMutation (body : Phase String) : Phase String := do
  recordJournal host "partition_table" .started
  let target ← guardedTableMutation host plan body
  recordJournal host "partition_table" .completed
  return target

/-- The partition of a `free_space` install. -/
def createInFreeSpace : Phase String := do
  match plan.freeRegionStart, plan.freeRegionEnd with
  | none, _ => throw (.failed "free-space install has no selected region")
  | _, none => throw (.failed "free-space install has no selected region end")
  | some start, some stop =>
      let snapshot ← diskSnapshot host plan
      let sectorSize ← diskSectorSize host
      if !(← lift (containsFreeRegion snapshot plan.disk start stop sectorSize)) then
        throw (.failed "selected free space is no longer available")
      recordedMutation host plan (createTargetPartition host plan start stop sectorSize)

/-- The target of each mode, selected or created. In `wipe` mode `bootc` owns the whole layout. -/
def selectTarget : Phase (Option String) :=
  match plan.mode with
  | .wipe => return none
  | .alongside | .manual => do
      let target ← selectExisting host plan
      return some target
  | .freeSpace => do
      let target ← createInFreeSpace host plan
      return some target
  | .resizeNtfs => do
      let target ← recordedMutation host plan (resizeNtfsTarget host plan)
      return some target

/-- `execute_storage`. -/
def executeStorage : Phase Unit := do
  prologue host plan
  match ← selectTarget host plan with
  | none => return ()
  | some target =>
      prepareBtrfsTarget host plan target
      Action.modify fun s => { s with storageTarget := some target }

end

end Kyth.Executor

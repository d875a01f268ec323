import Kyth.Installer.Partitions
import Kyth.Installer.Plan
import Kyth.Lib.Check

/-!
# Execution plans for disk operations (`installer_disk.rs`)

Every privileged disk command starts as a `DiskOperationInput`; `buildPlan` turns it into one fixed
argument vector or refuses it. Some checks read the request alone, others compare it with a fresh
probe of the machine. The probes are a structure of answers, `DiskProbes`, as in the source.

`purePlan` and `probeChecks` separate the two kinds, and `buildPlan_passes_iff` says that a plan is
built exactly when both pass.
-/

namespace Kyth.Disk

open Str Word Check Storage

/-- `MAX_LABEL_BYTES`. -/
def maxLabelBytes : ℕ := 128

/-- `MAX_PATH_BYTES`. -/
def maxPathBytes : ℕ := 4096

/-- `PARTITION_ALIGN_BYTES`. -/
def partitionAlignBytes : ℕ := 1024 * 1024

/-- `DiskOperationInput`. -/
inductive DiskOperationInput
  | backupTable (disk backupPath : String)
  | restoreTable (disk backupPath : String)
  | createLabel (disk tableType : String)
  | createPartition (disk : String) (start size : UInt64) (fs label : String) (sectorSize : ℕ)
  | createUnformattedPartition (disk : String) (start size : UInt64) (label : String)
      (sectorSize : ℕ)
  | deletePartition (disk : String) (partNum : UInt32) (expectedPartuuid : String)
  | resizePartition (disk : String) (partNum : UInt32) (start newSize : UInt64) (sectorSize : ℕ)
      (expectedPartuuid : String)
  | filesystemCheck (device : String)
  | filesystemResize (device fs : String) (newSizeBytes : UInt64) (stage : String)
  | mountFilesystem (device mountpoint : String) (options : List String) (bind : Bool)
  | unmountFilesystem (mountpoint : String) (recursive lazy : Bool)
  | setPartitionFlag (disk : String) (partNum : UInt32) (flag : String) (enabled : Bool)
      (expectedPartuuid : String)
  | formatFilesystem (device fs label expectedDisk : String)
  | btrfsSubvolumeCreate (mountpoint name : String)
  | btrfsSubvolumeSetDefault (mountpoint name : String)
  | ensureDirectory (path : String)
  deriving DecidableEq, Repr

/-- `DiskPlan`. -/
structure DiskPlan where
  argv : List String
  timeoutSeconds : ℕ
  needsConfirmation : Bool := false
  deriving DecidableEq, Repr

/-- `DiskProbes`, with the lookup of the `sfdisk` binary. -/
structure DiskProbes where
  lsblkSnapshot : Option String → String → Except String LsblkSnapshot
  logicalSectorSize : String → Except String ℕ
  partitionTableType : String → Except String String
  sfdiskBinary : Except String String

/-! ### Checks of single values -/

/-- `required_device`. -/
def requiredDevice (raw label : String) : Except String String :=
  match Plan.normalizeDevicePath raw with
  | some value =>
      if 5 < value.utf8ByteSize ∧ ¬ contains value "//" then .ok value
      else .error (label ++ " must be a safe device path.")
  | none => .error (label ++ " must be a safe device path.")

/-- The check adds nothing to the normalization. -/
theorem requiredDevice_eq_ok {raw path : String} (label : String)
    (h : Plan.normalizeDevicePath raw = some path) : requiredDevice raw label = .ok path := by
  obtain ⟨name, rfl, hname, hslash⟩ := Plan.normalizeDevicePath_eq_append h
  have hsize : 5 < ("/dev/" ++ name).utf8ByteSize := by
    have hpos : name.utf8ByteSize ≠ 0 := fun hzero => hname (String.utf8ByteSize_eq_zero_iff.1 hzero)
    have hdev : "/dev/".utf8ByteSize = 5 := by decide
    rw [String.utf8ByteSize_append, hdev]
    omega
  have hdouble : ¬ contains ("/dev/" ++ name) "//" = true := by
    intro hcontains
    simp only [contains, decide_eq_true_eq, String.toList_append] at hcontains
    have hpair : "//".toList = ['/', '/'] := rfl
    have hdev : "/dev/".toList = ['/', 'd', 'e', 'v', '/'] := rfl
    rw [hpair, hdev] at hcontains
    simp only [List.cons_append, List.nil_append, List.infix_cons_iff, List.cons_prefix_cons,
      Char.reduceEq, false_and, true_and, false_or, and_false] at hcontains
    rcases hcontains with hhead | htail
    · exact hslash (hhead.subset List.mem_cons_self)
    · exact hslash (htail.subset List.mem_cons_self)
  rw [requiredDevice, h]
  exact if_pos ⟨hsize, hdouble⟩

/-- The characters a path may contain besides letters and digits. -/
def isPathChar (c : Char) : Bool :=
  isAsciiAlphanumeric c || c == '/' || c == '.' || c == '_' || c == '+' || c == ':' || c == '-'

/-- `safe_absolute_path`. -/
def safeAbsolutePath (raw label : String) : Except String String :=
  let value := trim raw
  if value = "" || value.utf8ByteSize > maxPathBytes || !startsWith value "/" ||
      contains value ".." || contains value "//" || !all value isPathChar then
    .error (label ++ " must be an absolute safe path.")
  else .ok value

/-- `safe_mountpoint`. -/
def safeMountpoint (raw : String) : Except String String := safeAbsolutePath raw "mount point"

/-- `safe_btrfs_subvolume_name`. -/
def safeBtrfsSubvolumeName (raw : String) : Except String String :=
  let name := trim raw
  if name = "@" ∨ name = "@home" then .ok name else .error "unsupported Btrfs subvolume name"

/-- The characters a mount option may contain besides letters and digits. -/
def isOptionChar (c : Char) : Bool :=
  isAsciiAlphanumeric c || c == '=' || c == ':' || c == '.' || c == '_' || c == '+' ||
    c == '@' || c == '-'

/-- `safe_mount_options`. -/
def safeMountOptions (options : List String) : Except String (List String) :=
  if 8 < options.length then .error "mount options are too numerous"
  else options.mapM fun option =>
    if option = "" || option.utf8ByteSize > 128 || !all option isOptionChar then
      .error "mount options contain unsupported characters"
    else .ok option

/-- `safe_label`. -/
def safeLabel (raw : String) : Except String String :=
  if raw.utf8ByteSize > maxLabelBytes || raw.toList.any isControl then
    .error "partition label is empty or contains unsafe characters."
  else .ok raw

/-- `normalized_name`. -/
def normalizedName (raw : String) : String := toAsciiLowercase (trim raw)

/-- `safe_partuuid`. -/
def safePartuuid (raw : String) : Except String String :=
  let value := trim raw
  if value = "" || value.utf8ByteSize > 128 || !all value fun c => isAsciiHexdigit c || c == '-' then
    .error "expected partition UUID is invalid."
  else .ok value

/-- `partition_end`: the last byte that the partition tools are given. -/
def partitionEnd (start size : UInt64) (sectorSize : ℕ) : Except String ℕ :=
  let align := max sectorSize partitionAlignBytes
  if ¬ supportedSectorSize sectorSize then .error "partition sector size is unsupported."
  else if start.toNat = 0 ∨ size.toNat < align then .error "partition start or size is invalid."
  else if start.toNat % align ≠ 0 ∨ size.toNat % align ≠ 0 then
    .error "partition geometry is not aligned to 1 MiB."
  else
    match checkedAddU64 start.toNat (size.toNat - sectorSize) with
    | some stop => .ok stop
    | none => .error "partition geometry overflows."

/-- The geometries that `partition_end` accepts. -/
theorem passes_partitionEnd {start size : UInt64} {sectorSize : ℕ}
    (hsector : supportedSectorSize sectorSize = true) :
    Passes (partitionEnd start size sectorSize) ↔
      start.toNat ≠ 0 ∧ partitionAlignBytes ≤ size.toNat ∧ partitionAlignBytes ∣ start.toNat ∧
        partitionAlignBytes ∣ size.toNat ∧
        start.toNat + (size.toNat - sectorSize) < 2 ^ 64 := by
  have halign : max sectorSize partitionAlignBytes = partitionAlignBytes := by
    simp only [supportedSectorSize, Bool.or_eq_true, beq_iff_eq] at hsector
    rcases hsector with ((rfl | rfl) | rfl) | rfl <;> rfl
  unfold partitionEnd
  simp only [hsector, not_true_eq_false, if_false, halign, passes_ite_error]
  rw [Nat.dvd_iff_mod_eq_zero, Nat.dvd_iff_mod_eq_zero]
  by_cases hlt : start.toNat + (size.toNat - sectorSize) < 2 ^ 64
  · have hsum : checkedAddU64 start.toNat (size.toNat - sectorSize) =
        some (start.toNat + (size.toNat - sectorSize)) := if_pos hlt
    rw [hsum, iff_true_intro hlt]
    simp only [passes_ok, and_true, not_or, not_lt, not_not, ne_eq, and_assoc]
  · have hsum : checkedAddU64 start.toNat (size.toNat - sectorSize) = none := if_neg hlt
    rw [hsum, iff_false_intro hlt]
    simp only [not_passes_error, and_false]

/-! ### Argument vectors -/

/-- The plans that save and load a partition table. GPT tables go through `sgdisk`, MBR tables
through `sfdisk`, which reads and writes a dump of its own. -/
def tablePlan (purpose sgdiskFlag sfdiskScript sfdiskName : String) (timeoutSeconds : ℕ)
    (disk backupPath tableType : String) (sfdisk : Option String) : Except String DiskPlan :=
  match tableType with
  | "gpt" => do
      let path ← safeAbsolutePath backupPath "backup path"
      let disk ← requiredDevice disk "disk"
      return { argv := ["/usr/sbin/sgdisk", sgdiskFlag, path, disk], timeoutSeconds }
  | "dos" =>
      match sfdisk with
      | none => .error ("sfdisk is required for MBR partition table " ++ purpose ++
          " but is not installed.")
      | some sfdisk => do
          let disk ← requiredDevice disk "disk"
          let path ← safeAbsolutePath backupPath "backup path"
          return { argv := ["/bin/sh", "-c", "exec " ++ sfdisk ++ sfdiskScript, sfdiskName, disk,
                     path]
                   timeoutSeconds }
  | other => .error ("unsupported partition table type: " ++ other)

/-- `table_backup_plan`. -/
def tableBackupPlan (disk backupPath tableType : String) (sfdisk : Option String) :
    Except String DiskPlan :=
  tablePlan "backup" "--backup" " --dump \"$1\" > \"$2\"" "kyth-sfdisk-dump" 30 disk backupPath
    tableType sfdisk

/-- `table_restore_plan`. -/
def tableRestorePlan (disk backupPath tableType : String) (sfdisk : Option String) :
    Except String DiskPlan :=
  tablePlan "restore" "--load-backup" " --force \"$1\" < \"$2\"" "kyth-sfdisk-load" 60 disk
    backupPath tableType sfdisk

/-- `parted_device`. -/
def partedDevice (disk : String) (args : List String) (timeoutSeconds : ℕ) :
    Except String DiskPlan := do
  let disk ← requiredDevice disk "disk"
  return { argv := "/usr/sbin/parted" :: "-s" :: disk :: args, timeoutSeconds }

/-- `interactive_parted_device`. -/
def interactivePartedDevice (disk : String) (args : List String) (timeoutSeconds : ℕ) :
    Except String DiskPlan := do
  let disk ← requiredDevice disk "disk"
  return { argv := "/usr/sbin/parted" :: "---pretend-input-tty" :: disk :: args, timeoutSeconds
           needsConfirmation := true }

/-- The program that makes a filesystem, with its force flag. -/
def mkfsCommand : String → Option (List String)
  | "btrfs" => some ["/usr/sbin/mkfs.btrfs", "-f"]
  | "ext4" => some ["/usr/sbin/mkfs.ext4", "-F"]
  | "xfs" => some ["/usr/sbin/mkfs.xfs", "-f"]
  | "fat32" => some ["/usr/sbin/mkfs.fat", "-F32"]
  | "linux-swap" => some ["/usr/sbin/mkswap"]
  | _ => none

/-- `build_mkfs_plan`. -/
def buildMkfsPlan (device fs label : String) : Except String DiskPlan := do
  let device ← requiredDevice device "filesystem device"
  let fs := normalizedName fs
  let label ← safeLabel label
  match mkfsCommand fs with
  | none => throw ("unsupported filesystem type: " ++ fs)
  | some command =>
      let args := if label = "" then [] else [if fs = "fat32" then "-n" else "-L", label]
      return { argv := command ++ args ++ [device]
               timeoutSeconds := if fs = "btrfs" then 300 else 120 }

/-- The probe of `build_mkfs`: the target is a free partition of the selected disk. -/
def mkfsGuard (device expectedDisk : String) (probes : DiskProbes) : Except String Unit := do
  let snapshot ← probes.lsblkSnapshot none
    "NAME,SIZE,TYPE,FSTYPE,PARTTYPE,PARTN,LABEL,MOUNTPOINT,MOUNTPOINTS,START,RO,PKNAME"
  match parentDiskInSnapshot snapshot device with
  | none => throw "mkfs target is not on a known disk."
  | some disk =>
      if disk ≠ expectedDisk then
        throw "mkfs target is not on the install plan's selected disk; refusing to format."
      let sectorSize ← probes.logicalSectorSize disk
      let _ ← validateFormatTarget snapshot disk device sectorSize

/-- `build_mkfs`. -/
def buildMkfs (device fs label expectedDisk : String) (probes : DiskProbes) :
    Except String DiskPlan := do
  let device ← requiredDevice device "filesystem device"
  let expectedDisk ← requiredDevice expectedDisk "expected disk"
  mkfsGuard device expectedDisk probes
  buildMkfsPlan device fs label

/-- `build_filesystem_resize`. -/
def buildFilesystemResize (device fs : String) (newSizeBytes : UInt64) (stage : String) :
    Except String DiskPlan := do
  let device ← requiredDevice device "filesystem device"
  if newSizeBytes = 0 then throw "filesystem resize size must be positive."
  let size := toString newSizeBytes.toNat
  let fs := normalizedName fs
  let stage := normalizedName stage
  let ntfs := fs = "ntfs" ∨ fs = "ntfs3"
  if ntfs ∧ stage = "check" then
    return { argv := ["/usr/sbin/ntfsresize", "--check", device], timeoutSeconds := 240 }
  else if ntfs ∧ stage = "info" then
    return { argv := ["/usr/sbin/ntfsresize", "--info", device], timeoutSeconds := 120 }
  else if ntfs ∧ stage = "dry_run" then
    return { argv := ["/usr/sbin/ntfsresize", "--no-action", "--size", size, device]
             timeoutSeconds := 240 }
  else if ntfs ∧ stage = "resize" then
    return { argv := ["/usr/sbin/ntfsresize", "--size", size, device], timeoutSeconds := 1800
             needsConfirmation := true }
  else if fs ∈ ["ext2", "ext3", "ext4"] ∧ stage = "resize" then
    return { argv := ["/usr/sbin/resize2fs", device,
               toString (max 1 (newSizeBytes.toNat / 1024)) ++ "K"]
             timeoutSeconds := 1800 }
  else if fs = "btrfs" ∧ stage = "resize" then
    return { argv := ["/usr/sbin/btrfs", "filesystem", "resize", size, device]
             timeoutSeconds := 1800 }
  else throw ("unsupported filesystem resize operation: " ++ fs ++ "/" ++ stage)

/-- `build_delete_partition`. -/
def buildDeletePartition (disk : String) (partNum : UInt32) : Except String DiskPlan := do
  if partNum = 0 then throw "partition number must be positive."
  partedDevice disk ["rm", toString partNum.toNat] 60

/-- `build_resize_partition`. -/
def buildResizePartition (disk : String) (partNum : UInt32) (start newSize : UInt64)
    (sectorSize : ℕ) : Except String DiskPlan := do
  if partNum = 0 then throw "partition number must be positive."
  let stop ← partitionEnd start newSize sectorSize
  interactivePartedDevice disk
    ["unit", "B", "resizepart", toString partNum.toNat, toString stop ++ "B"] 120

/-- `build_set_partition_flag`. -/
def buildSetPartitionFlag (disk : String) (partNum : UInt32) (flag : String) (enabled : Bool) :
    Except String DiskPlan := do
  if partNum = 0 then throw "partition number must be positive."
  let flag := normalizedName flag
  if flag ≠ "bios_grub" ∧ flag ≠ "esp" then throw ("unsupported partition flag: " ++ flag)
  partedDevice disk ["set", toString partNum.toNat, flag, if enabled then "on" else "off"] 60

/-- `assert_partition_identity`. -/
def assertPartitionIdentity (disk : String) (partNum : UInt32) (expectedPartuuid : String)
    (probes : DiskProbes) : Except String Unit := do
  let expected ← safePartuuid expectedPartuuid
  let disk ← requiredDevice disk "disk"
  let snapshot ← probes.lsblkSnapshot (some disk) "NAME,PARTN,PARTUUID,TYPE"
  let actual ← partuuidForPartitionNumber snapshot disk partNum
  if ¬ eqIgnoreAsciiCase actual expected then
    throw ("partition identity changed since selection; refusing to operate on a different " ++
      "partition.")

/-- The table type a probe reports, with the `sfdisk` binary when the type needs it. -/
def tableTool (disk : String) (probes : DiskProbes) : Except String (String × Option String) := do
  let tableType ← probes.partitionTableType disk
  if tableType = "dos" then
    let sfdisk ← probes.sfdiskBinary
    return (tableType, some sfdisk)
  else return (tableType, none)

/-- The filesystem types `create_partition` accepts. -/
def isSupportedFilesystem (fs : String) : Prop :=
  fs ∈ ["btrfs", "ext4", "xfs", "fat32", "linux-swap"]

instance (fs : String) : Decidable (isSupportedFilesystem fs) :=
  inferInstanceAs (Decidable (_ ∈ _))

/-- `build_plan_with_probes`. -/
def buildPlan (probes : DiskProbes) : DiskOperationInput → Except String DiskPlan
  | .backupTable disk backupPath => do
      let (tableType, sfdisk) ← tableTool disk probes
      tableBackupPlan disk backupPath tableType sfdisk
  | .restoreTable disk backupPath => do
      let (tableType, sfdisk) ← tableTool disk probes
      tableRestorePlan disk backupPath tableType sfdisk
  | .createLabel disk tableType => do
      let tableType := normalizedName tableType
      if tableType ≠ "gpt" ∧ tableType ≠ "msdos" then
        throw ("unsupported partition table type: " ++ tableType)
      partedDevice disk ["mklabel", tableType] 30
  | .createPartition disk start size fs label sectorSize => do
      let fs := normalizedName fs
      if ¬ isSupportedFilesystem fs then throw ("unsupported filesystem type: " ++ fs)
      let label ← safeLabel label
      let stop ← partitionEnd start size sectorSize
      partedDevice disk
        ["unit", "B", "mkpart", if label = "" then "partition" else label, fs,
          toString start.toNat ++ "B", toString stop ++ "B"] 120
  | .createUnformattedPartition disk start size label sectorSize => do
      let stop ← partitionEnd start size sectorSize
      let label ← safeLabel label
      partedDevice disk
        ["unit", "B", "mkpart", label, toString start.toNat ++ "B", toString stop ++ "B"] 120
  | .deletePartition disk partNum expectedPartuuid => do
      assertPartitionIdentity disk partNum expectedPartuuid probes
      buildDeletePartition disk partNum
  | .resizePartition disk partNum start newSize sectorSize expectedPartuuid => do
      assertPartitionIdentity disk partNum expectedPartuuid probes
      buildResizePartition disk partNum start newSize sectorSize
  | .filesystemCheck device => do
      let device ← requiredDevice device "filesystem device"
      return { argv := ["/usr/sbin/e2fsck", "-f", "-y", device], timeoutSeconds := 600 }
  | .filesystemResize device fs newSizeBytes stage =>
      buildFilesystemResize device fs newSizeBytes stage
  | .mountFilesystem device mountpoint options bind => do
      let device ← if bind then safeAbsolutePath device "mount source"
        else requiredDevice device "filesystem device"
      let mountpoint ← safeMountpoint mountpoint
      let options ← safeMountOptions options
      let flags := if bind then ["--bind"]
        else if options = [] then [] else ["-o", String.intercalate "," options]
      return { argv := "/usr/sbin/mount" :: flags ++ [device, mountpoint], timeoutSeconds := 30 }
  | .unmountFilesystem mountpoint recursive lazy => do
      let mountpoint ← safeMountpoint mountpoint
      return { argv := "/usr/sbin/umount" :: (if recursive then ["-R"] else []) ++
                 (if lazy then ["-l"] else []) ++ [mountpoint]
               timeoutSeconds := 30 }
  | .setPartitionFlag disk partNum flag enabled expectedPartuuid => do
      assertPartitionIdentity disk partNum expectedPartuuid probes
      buildSetPartitionFlag disk partNum flag enabled
  | .formatFilesystem device fs label expectedDisk => buildMkfs device fs label expectedDisk probes
  | .btrfsSubvolumeCreate mountpoint name => do
      let mountpoint ← safeMountpoint mountpoint
      let name ← safeBtrfsSubvolumeName name
      return { argv := ["/usr/sbin/btrfs", "subvolume", "create", mountpoint ++ "/" ++ name]
               timeoutSeconds := 60 }
  | .btrfsSubvolumeSetDefault mountpoint name => do
      let mountpoint ← safeMountpoint mountpoint
      let name ← safeBtrfsSubvolumeName name
      return { argv := ["/usr/sbin/btrfs", "subvolume", "set-default", mountpoint ++ "/" ++ name]
               timeoutSeconds := 60 }
  | .ensureDirectory path => do
      let path ← safeAbsolutePath path "directory path"
      return { argv := ["/usr/bin/mkdir", "-p", path], timeoutSeconds := 30 }

/-! ### Pure checks and probes -/

/-- The plan of an operation when every probe agrees with the request. The table tools are chosen
by a probe; `sgdisk` stands for both here. -/
def purePlan : DiskOperationInput → Except String DiskPlan
  | .backupTable disk backupPath => tableBackupPlan disk backupPath "gpt" none
  | .restoreTable disk backupPath => tableRestorePlan disk backupPath "gpt" none
  | .deletePartition disk partNum expectedPartuuid => do
      let _ ← safePartuuid expectedPartuuid
      buildDeletePartition disk partNum
  | .resizePartition disk partNum start newSize sectorSize expectedPartuuid => do
      let _ ← safePartuuid expectedPartuuid
      buildResizePartition disk partNum start newSize sectorSize
  | .setPartitionFlag disk partNum flag enabled expectedPartuuid => do
      let _ ← safePartuuid expectedPartuuid
      buildSetPartitionFlag disk partNum flag enabled
  | .formatFilesystem device fs label expectedDisk => do
      let _ ← requiredDevice expectedDisk "expected disk"
      buildMkfsPlan device fs label
  | input => buildPlan
      ⟨fun _ _ => .error "", fun _ => .error "", fun _ => .error "", .error ""⟩ input

/-- The part of a plan that asks the machine. -/
def probeChecks (probes : DiskProbes) : DiskOperationInput → Except String Unit
  | .backupTable disk _ | .restoreTable disk _ => do
      let (tableType, _) ← tableTool disk probes
      if tableType ≠ "gpt" ∧ tableType ≠ "dos" then
        throw ("unsupported partition table type: " ++ tableType)
  | .deletePartition disk partNum expectedPartuuid
  | .resizePartition disk partNum _ _ _ expectedPartuuid
  | .setPartitionFlag disk partNum _ _ expectedPartuuid =>
      assertPartitionIdentity disk partNum expectedPartuuid probes
  | .formatFilesystem device _ _ expectedDisk => do
      let device ← requiredDevice device "filesystem device"
      let expectedDisk ← requiredDevice expectedDisk "expected disk"
      mkfsGuard device expectedDisk probes
  | _ => return ()

/-- A normalized device passes its check again. -/
theorem requiredDevice_idem {raw label device : String} (label' : String)
    (h : requiredDevice raw label = .ok device) : requiredDevice device label' = .ok device := by
  unfold requiredDevice at h
  split at h
  · rename_i path hnorm
    split_ifs at h with hsafe
    cases h
    simp [requiredDevice, (Plan.normalizeDevicePath_spec hnorm).2, hsafe]
  · cases h

/-- The plan of a format is the same for a device and its normalized path. -/
theorem buildMkfsPlan_normalized {device device' fs label : String}
    (h : requiredDevice device "filesystem device" = .ok device') :
    buildMkfsPlan device' fs label = buildMkfsPlan device fs label := by
  unfold buildMkfsPlan
  rw [h, requiredDevice_idem "filesystem device" h]

/-- What the identity check asks of a request before it probes. -/
theorem passes_assertPartitionIdentity {disk expectedPartuuid : String} {partNum : UInt32}
    {probes : DiskProbes}
    (h : Passes (assertPartitionIdentity disk partNum expectedPartuuid probes)) :
    Passes (safePartuuid expectedPartuuid) := by
  unfold assertPartitionIdentity at h
  rw [passes_bind] at h
  obtain ⟨expected, hexpected, -⟩ := h
  exact ⟨expected, hexpected⟩

/-- Whether the identity check passes decides whether the identity is well formed. -/
theorem passes_identity_and_iff {disk expectedPartuuid : String} {partNum : UInt32}
    {probes : DiskProbes} {plan : Except String DiskPlan} :
    Passes (assertPartitionIdentity disk partNum expectedPartuuid probes) ∧ Passes plan ↔
      (Passes (safePartuuid expectedPartuuid) ∧ Passes plan) ∧
        Passes (assertPartitionIdentity disk partNum expectedPartuuid probes) := by
  constructor
  · rintro ⟨hid, hplan⟩
    exact ⟨⟨passes_assertPartitionIdentity hid, hplan⟩, hid⟩
  · rintro ⟨⟨-, hplan⟩, hid⟩
    exact ⟨hid, hplan⟩

/-- The binary comes with the type that needs it. -/
theorem tableTool_eq_ok {disk tableType : String} {sfdisk : Option String} {probes : DiskProbes}
    (h : tableTool disk probes = .ok (tableType, sfdisk)) : tableType = "dos" → sfdisk ≠ none := by
  unfold tableTool at h
  rw [bind_eq_ok] at h
  obtain ⟨found, -, h⟩ := h
  split_ifs at h with hdos
  · rw [bind_eq_ok] at h
    obtain ⟨binary, -, h⟩ := h
    cases h
    simp
  · cases h
    exact fun hcontra => absurd hcontra hdos

/-- A table plan is built for the two known types whose tool is there, whatever the type. -/
theorem tablePlan_passes_iff {purpose flag script name disk backupPath tableType : String}
    {timeout : ℕ} {sfdisk : Option String} (hsfdisk : tableType = "dos" → sfdisk ≠ none) :
    Passes (tablePlan purpose flag script name timeout disk backupPath tableType sfdisk) ↔
      Passes (tablePlan purpose flag script name timeout disk backupPath "gpt" none) ∧
        (tableType = "gpt" ∨ tableType = "dos") := by
  unfold tablePlan
  split
  · simp
  · cases sfdisk with
    | none => exact absurd rfl (hsfdisk rfl)
    | some sfdisk =>
      simp only [bind_pure_comp, passes_bind, passes_map, or_true, and_true]
      constructor
      · rintro ⟨disk, hdisk, path, hpath⟩
        exact ⟨path, hpath, disk, hdisk⟩
      · rintro ⟨path, hpath, disk, hdisk⟩
        exact ⟨disk, hdisk, path, hpath⟩
  · simp_all

/-- A plan is built exactly when the request passes its pure checks and its probes agree. -/
theorem buildPlan_passes_iff (probes : DiskProbes) (input : DiskOperationInput) :
    Passes (buildPlan probes input) ↔
      Passes (purePlan input) ∧ Passes (probeChecks probes input) := by
  cases input with
  | backupTable disk backupPath | restoreTable disk backupPath =>
    simp only [buildPlan, purePlan, probeChecks, tableBackupPlan, tableRestorePlan]
    cases htool : tableTool disk probes with
    | error e => simp [bind, Except.bind]
    | ok tool =>
      simp only [bind, Except.bind]
      rw [tablePlan_passes_iff (tableTool_eq_ok htool), passes_ite_throw]
      simp only [passes_pure, and_true]
      tauto
  | deletePartition disk partNum expectedPartuuid =>
    simp only [buildPlan, purePlan, probeChecks, passes_bind_const]
    exact passes_identity_and_iff
  | resizePartition disk partNum start newSize sectorSize expectedPartuuid =>
    simp only [buildPlan, purePlan, probeChecks, passes_bind_const]
    exact passes_identity_and_iff
  | setPartitionFlag disk partNum flag enabled expectedPartuuid =>
    simp only [buildPlan, purePlan, probeChecks, passes_bind_const]
    exact passes_identity_and_iff
  | formatFilesystem device fs label expectedDisk =>
    simp only [buildPlan, buildMkfs, purePlan, probeChecks, passes_bind]
    constructor
    · rintro ⟨device', hdevice, disk', hdisk, u, hguard, hplan⟩
      rw [buildMkfsPlan_normalized hdevice] at hplan
      exact ⟨⟨disk', hdisk, hplan⟩, device', hdevice, disk', hdisk, u, hguard⟩
    · rintro ⟨⟨-, -, hplan⟩, device', hdevice, disk', hdisk, u, hguard⟩
      rw [← buildMkfsPlan_normalized hdevice] at hplan
      exact ⟨device', hdevice, disk', hdisk, u, hguard, hplan⟩
  | _ => simp [buildPlan, purePlan, probeChecks]

end Kyth.Disk

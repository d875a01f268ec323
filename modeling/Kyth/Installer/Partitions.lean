import Kyth.Installer.Storage

/-!
# Partition queries (`installer_storage.rs`)

Partition records, free regions, the probe of one partition and the checks the executor repeats
right before it formats something. `START` counts 512-byte sectors on every disk, so it is scaled
by 512 and never by the logical sector size.
-/

namespace Kyth.Storage

open Str Word

def efiPartGuid : String := "c12a7328-f81f-11d2-ba4b-00a0c93ec93b"
def biosBootGuid : String := "21686148-6449-6e6f-744e-656564454649"
def windowsDataGuid : String := "ebd0a0a2-b9e5-4433-87c0-68b6b72699c7"
def minKythosBytes : ℕ := 32 * 1024 * 1024 * 1024
def ntfsMinBytes : ℕ := (64 + 32) * 1024 * 1024 * 1024
def gptReserveBytes : ℕ := 1024 * 1024

/-- `REGION_ALIGN_BYTES`. -/
def regionAlignBytes : ℕ := 1024 * 1024

/-- `PartitionRecord`. -/
structure PartitionRecord where
  name : String
  sizeBytes : UInt64
  startBytes : UInt64
  fstype : String := ""
  label : String := ""
  parttype : String := ""
  mountpoints : List String := []
  efi : Bool := false
  current : Bool := false
  inUse : Bool := false
  readOnly : Bool := false
  alongsideCandidate : Bool := false
  ntfsResizeCandidate : Bool := false
  deriving DecidableEq, Repr

/-- `FreeRegionRecord`. -/
structure FreeRegionRecord where
  startBytes : ℕ
  endBytes : ℕ
  sizeBytes : ℕ
  deriving DecidableEq, Repr

/-- `PartitionProbe`. -/
structure PartitionProbe where
  name : String
  number : UInt32
  sizeBytes : UInt64
  startBytes : UInt64
  fstype : String
  label : String
  partuuid : String
  efi : Bool
  current : Bool
  inUse : Bool
  readOnly : Bool
  deriving DecidableEq, Repr

/-- `valid_sector_size`: a power of two from 512 to 4096. -/
def supportedSectorSize (sectorSize : ℕ) : Bool :=
  sectorSize == 512 || sectorSize == 1024 || sectorSize == 2048 || sectorSize == 4096

/-- `valid_sector_size`. -/
def validSectorSize (sectorSize : ℕ) : Except String Unit :=
  if supportedSectorSize sectorSize then .ok ()
  else .error "storage query returned an unsupported sector size"

/-- `mountpoints`. -/
def mountpoints (device : LsblkDevice) : List String :=
  match device.mountpoints with
  | some values => values.filterMap id
  | none => device.mountpoint.toList

/-- `descendant_mountpoints`. -/
def descendantMountpoints (device : LsblkDevice) : List String :=
  (flattenAll device.children).flatMap mountpoints

/-- `start` in bytes: `START` times 512, saturating. -/
def startBytesOf (device : LsblkDevice) : UInt64 :=
  UInt64.ofNat (satMulU64 (device.start.getD 0).toNat 512)

/-- `FOREIGN_DATA_FSTYPES`. -/
def foreignDataFstypes : List String :=
  ["ntfs", "ntfs3", "bitlocker", "apfs", "hfsplus", "hfs", "exfat"]

/-- `foreign_data_reason`. -/
def foreignDataReason (fstype label role : String) : Option String :=
  let label := trim label
  let labeled := if label = "" then "" else " labeled " ++ debug label
  if fstype ∈ foreignDataFstypes then
    some ("The selected " ++ role ++ " holds a " ++ fstype ++ " filesystem" ++ labeled ++
      (" and installing there would destroy its contents. Back up its data, or choose an empty " ++
        "partition, unallocated space, or the Windows-shrink option."))
  else if fstype ≠ "" ∧ ¬ (fstype = "btrfs" ∧ eqIgnoreAsciiCase label "kythos") then
    some ("The selected " ++ role ++ " contains a " ++ fstype ++ " filesystem" ++ labeled ++
      (" that may hold data, and installing there would format it. Back up its contents, clear " ++
        "the partition first, or choose a different target."))
  else none

/-- The record `parse_partitions` makes of one entry, if it is a partition. -/
def partitionRecord (device : LsblkDevice) : Option PartitionRecord := do
  if device.deviceType ≠ some "part" then none
  else
    let name ← device.path
    let sizeBytes := device.size.getD 0
    let fstype := toAsciiLowercase (device.fstype.getD "")
    let parttype := toAsciiLowercase (device.parttype.getD "")
    let mounts := mountpoints device ++ descendantMountpoints device
    let efi := parttype == efiPartGuid || (fstype == "vfat" && mounts.contains "/boot/efi")
    let current := !mounts.isEmpty
    let inUse := !device.children.isEmpty
    let readOnly := device.ro.getD false
    let replaceable :=
      decide (minKythosBytes ≤ sizeBytes.toNat) && !efi && !current && !inUse && !readOnly
    let isWindows := fstype == "ntfs" || fstype == "ntfs3"
    let label := device.label.getD ""
    some { name, sizeBytes, startBytes := startBytesOf device, fstype, label, parttype,
           mountpoints := mounts, efi, current, inUse, readOnly
           alongsideCandidate := replaceable && (foreignDataReason fstype label "").isNone
           ntfsResizeCandidate :=
             replaceable && isWindows && decide (ntfsMinBytes ≤ sizeBytes.toNat) }

/-- `parse_partitions`. -/
def parsePartitions (snapshot : LsblkSnapshot) (sectorSize : ℕ) :
    Except String (List PartitionRecord) := do
  validSectorSize sectorSize
  return (flattenAll snapshot.blockdevices).filterMap partitionRecord

/-- `on_selected_disk`: the disk's name followed by digits, with an optional `p` between. -/
def onSelectedDisk (name disk : String) : Bool :=
  match stripPrefix name disk with
  | some suffix =>
      suffix != "" && all ((stripPrefix suffix "p").getD suffix) isAsciiDigit
  | none => false

/-- `disk_metadata`: the size of the disk and whether its table is GPT. -/
def diskMetadata (snapshot : LsblkSnapshot) (disk : String) : Except String (ℕ × Bool) :=
  match normalizeDevicePath disk with
  | none => .error "invalid disk path for storage query"
  | some target =>
      match snapshot.blockdevices.find? fun entry =>
          entry.path == some target && entry.deviceType == some "disk" with
      | some entry =>
          .ok ((entry.size.getD 0).toNat, eqIgnoreAsciiCase (entry.pttype.getD "") "gpt")
      | none => .error "storage query did not return the selected disk"

/-! ### Free regions -/

/-- `append_region`: the 1 MiB-aligned interior of a gap, when it is large enough. Rounding the
start up wraps at `2^64`. -/
def appendRegion (regions : List FreeRegionRecord) (start stop sectorSize required : ℕ) :
    List FreeRegionRecord :=
  let align := max sectorSize regionAlignBytes
  let alignedStart := (start + align - 1) / align * align % 2 ^ 64
  let alignedEnd := stop / align * align
  if alignedStart < alignedEnd ∧ required ≤ alignedEnd - alignedStart then
    regions ++ [{ startBytes := alignedStart, endBytes := alignedEnd,
                  sizeBytes := alignedEnd - alignedStart }]
  else regions

/-- The byte span of a partition in whole sectors; `none` when it does not fit on the disk. -/
def partitionSpan (diskSize sectorSize : ℕ) (partition : PartitionRecord) : Option (ℕ × ℕ) :=
  let startBytes := partition.startBytes.toNat
  let sizeBytes := partition.sizeBytes.toNat
  if sizeBytes = 0 ∨ diskSize < startBytes ∨ diskSize - startBytes < sizeBytes then none
  else
    let start := startBytes / sectorSize * sectorSize
    let size := sizeBytes / sectorSize * sectorSize
    if size = 0 ∨ diskSize - size < start then none else some (start, start + size)

/-- The order of `sort_unstable` on spans. -/
def spanLe (a b : ℕ × ℕ) : Prop := a.1 < b.1 ∨ (a.1 = b.1 ∧ a.2 ≤ b.2)

instance (a b : ℕ × ℕ) : Decidable (spanLe a b) := inferInstanceAs (Decidable (_ ∨ _))

/-- One turn of the loop over the sorted spans: the regions so far and the cursor. -/
def sweepSpan (sectorSize required : ℕ) (acc : List FreeRegionRecord × ℕ) (span : ℕ × ℕ) :
    List FreeRegionRecord × ℕ :=
  (if acc.2 < span.1 then appendRegion acc.1 acc.2 span.1 sectorSize required else acc.1,
    max acc.2 span.2)

/-- The gaps left by a list of spans between the two reserved ends of the disk. -/
def sweepSpans (diskSize sectorSize required : ℕ) (spans : List (ℕ × ℕ)) :
    List FreeRegionRecord :=
  let usableEnd := diskSize - gptReserveBytes
  let acc := (spans.insertionSort spanLe).foldl (sweepSpan sectorSize required)
    ([], gptReserveBytes)
  if acc.2 < usableEnd then appendRegion acc.1 acc.2 usableEnd sectorSize required else acc.1

/-- `free_regions`. -/
def freeRegions (snapshot : LsblkSnapshot) (disk : String) (sectorSize : ℕ) :
    Except String (List FreeRegionRecord) := do
  validSectorSize sectorSize
  let (diskSize, isGpt) ← diskMetadata snapshot disk
  if diskSize ≤ satMulU64 gptReserveBytes 2 then return []
  let partitions ← parsePartitions snapshot sectorSize
  let hasBiosBoot := partitions.any fun part => eqIgnoreAsciiCase part.parttype biosBootGuid
  let required := minKythosBytes + if isGpt && !hasBiosBoot then gptReserveBytes else 0
  match normalizeDevicePath disk with
  | none => throw "invalid disk path for storage query"
  | some selectedDisk =>
      let onDisk := partitions.filter fun partition => onSelectedDisk partition.name selectedDisk
      match onDisk.mapM (partitionSpan diskSize sectorSize) with
      | none => return []
      | some spans => return sweepSpans diskSize sectorSize required spans

/-- `contains_free_region`. -/
def containsFreeRegion (snapshot : LsblkSnapshot) (disk : String) (start stop sectorSize : ℕ) :
    Except String Bool :=
  if stop ≤ start then .ok false
  else do
    let regions ← freeRegions snapshot disk sectorSize
    return regions.any fun region =>
      decide (region.startBytes ≤ start) && decide (stop ≤ region.endBytes)

/-! ### Probing one partition -/

/-- The probe of a matching entry; an entry without a partition number yields nothing. -/
def probeOf (device : LsblkDevice) : Option PartitionProbe := do
  let name ← device.path
  let number ← device.partn
  let fstype := toAsciiLowercase (device.fstype.getD "")
  let mounts := mountpoints device
  some { name, number, sizeBytes := device.size.getD 0, startBytes := startBytesOf device
         fstype, label := device.label.getD "", partuuid := device.partuuid.getD ""
         efi := (match device.parttype with
             | some parttype => eqIgnoreAsciiCase parttype efiPartGuid
             | none => false) || (fstype == "vfat" && mounts.contains "/boot/efi")
         current := !mounts.isEmpty, inUse := !device.children.isEmpty
         readOnly := device.ro.getD false }

mutual
/-- `find_partition`: the first matching entry below a device. -/
def findPartition (wanted : String) : LsblkDevice → Option PartitionProbe
  | ⟨columns, children⟩ =>
      let device : LsblkDevice := ⟨columns, children⟩
      if columns.deviceType = some "part" ∧
          normalizeDevicePath (columns.name.getD "") = some wanted then probeOf device
      else findPartitionIn wanted children

/-- The first match in a list of siblings. -/
def findPartitionIn (wanted : String) : List LsblkDevice → Option PartitionProbe
  | [] => none
  | d :: ds =>
      match findPartition wanted d with
      | some probe => some probe
      | none => findPartitionIn wanted ds
end

/-- The top-level entry of a disk. -/
def findDisk (snapshot : LsblkSnapshot) (disk : String) : Option LsblkDevice :=
  snapshot.blockdevices.find? fun device =>
    normalizeDevicePath (device.name.getD "") == some disk && device.deviceType == some "disk"

/-- `partition_probe_from_snapshot`. -/
def partitionProbeFromSnapshot (snapshot : LsblkSnapshot) (disk partition : String)
    (sectorSize : ℕ) : Except String PartitionProbe := do
  validSectorSize sectorSize
  match normalizeDevicePath disk, normalizeDevicePath partition with
  | none, _ => throw "partition query has an invalid disk"
  | _, none => throw "partition query has an invalid partition"
  | some disk, some partition =>
      match findDisk snapshot disk with
      | none => throw "target disk was not present in partition probe"
      | some root =>
          match findPartition partition root with
          | some probe => return probe
          | none => throw "selected partition was not present on the target disk"

/-- `validate_replace_target`. -/
def validateReplaceTarget (snapshot : LsblkSnapshot) (disk partition role : String)
    (sectorSize : ℕ) : Except String PartitionProbe := do
  let probe ← partitionProbeFromSnapshot snapshot disk partition sectorSize
  if probe.efi then
    throw ("The EFI system partition cannot be used as the KythOS " ++ role ++ ".")
  if probe.current || probe.inUse || probe.readOnly then
    throw ("The selected " ++ role ++
      " is mounted, read-only, or has active encrypted/LVM mappings.")
  if probe.sizeBytes.toNat < minKythosBytes then
    throw ("The " ++ role ++ " is too small. At least 32 GiB is required.")
  match foreignDataReason probe.fstype probe.label role with
  | some reason => throw reason
  | none => return probe

/-- `validate_format_target`. -/
def validateFormatTarget (snapshot : LsblkSnapshot) (disk partition : String) (sectorSize : ℕ) :
    Except String PartitionProbe := do
  let probe ← partitionProbeFromSnapshot snapshot disk partition sectorSize
  if probe.efi then
    throw "The EFI system partition cannot be formatted."
  if probe.current || probe.inUse || probe.readOnly then
    throw ("The selected partition is mounted, read-only, or has active mappings; refusing to " ++
      "format it.")
  return probe

/-- One entry of the walk in `partuuid_for_partition_number`. -/
def partuuidStep (disk : String) (number : UInt32) (found : Option String)
    (device : LsblkDevice) : Option String :=
  if device.deviceType = some "part" ∧ device.partn = some number then
    match device.path with
    | some name =>
        if onSelectedDisk name disk then
          (device.partuuid.map trim).filter fun id => id != ""
        else found
    | none => found
  else found

/-- `partuuid_for_partition_number`. -/
def partuuidForPartitionNumber (snapshot : LsblkSnapshot) (disk : String) (number : UInt32) :
    Except String String :=
  match normalizeDevicePath disk with
  | none => .error "partition identity query has an invalid disk"
  | some disk =>
      if number = 0 then .error "partition number must be positive"
      else
        match (flattenAll snapshot.blockdevices).foldl (partuuidStep disk number) none with
        | some id => .ok id
        | none => .error "partition identity was not present in the fresh probe"

/-- `new_partition_from_snapshots`. -/
def newPartitionFromSnapshots (before after : LsblkSnapshot) (startBytes sizeBytes sectorSize : ℕ) :
    Except String String := do
  if startBytes = 0 ∨ sizeBytes = 0 then
    throw "new partition geometry must be positive"
  let prior ← parsePartitions before sectorSize
  let current ← parsePartitions after sectorSize
  let candidates := current.filter fun partition =>
    !(prior.map (·.name)).contains partition.name &&
      decide (absDiff partition.startBytes.toNat startBytes ≤ 1024 * 1024) &&
      decide (absDiff partition.sizeBytes.toNat sizeBytes ≤ 1024 * 1024)
  match candidates.map (·.name) with
  | [name] => return name
  | [] => throw "new partition was not visible at the requested geometry"
  | _ => throw "multiple new partitions matched the requested geometry"

/-- `has_bios_boot_partition`. -/
def hasBiosBootPartition (snapshot : LsblkSnapshot) (sectorSize : ℕ) : Except String Bool := do
  let partitions ← parsePartitions snapshot sectorSize
  return partitions.any fun partition => eqIgnoreAsciiCase partition.parttype biosBootGuid

/-- `validate_alongside_bios_boot`. -/
def validateAlongsideBiosBoot (snapshot : LsblkSnapshot) (disk : String) (uefiBoot : Bool)
    (sectorSize : ℕ) : Except String Unit := do
  if uefiBoot then return ()
  let (_, isGpt) ← diskMetadata snapshot disk
  if !isGpt then return ()
  match normalizeDevicePath disk with
  | none => throw "BIOS boot query has an invalid disk"
  | some disk =>
      let partitions ← parsePartitions snapshot sectorSize
      if partitions.any fun partition =>
          onSelectedDisk partition.name disk &&
            eqIgnoreAsciiCase partition.parttype biosBootGuid then return ()
      throw ("Legacy BIOS on GPT requires a 1 MiB BIOS boot partition for GRUB. Create a 1 MiB " ++
        "partition with the bios_grub flag in the manual partition editor, or use free-space/NTFS-shrink " ++
        "install which creates it automatically. Without it GRUB falls back to blocklists, which Btrfs " ++
        "rejects.")

/-! ### The EFI system partition -/

/-- `EfiPartition`. -/
structure EfiPartition where
  name : String
  mountedAt : Option String
  deriving DecidableEq, Repr

/-- `first_safe_mountpoint`. -/
def firstSafeMountpoint (mounts : List String) : Option String :=
  mounts.find? fun mount =>
    startsWith mount "/" && !contains mount ".." && !contains mount "//"

/-- `resolve_esp`. -/
def resolveEsp (candidates : List EfiPartition) : Except String (Option EfiPartition) :=
  match candidates with
  | [] => .ok none
  | [efi] => .ok (some efi)
  | _ =>
      match candidates.filter fun efi => efi.mountedAt == some "/boot/efi" with
      | [efi] => .ok (some efi)
      | _ => .error ("target disk has multiple EFI system partitions; refusing to select one " ++
        "arbitrarily")

/-- The filter of `efi_partition_from_snapshot`, which spells its own test for a partition of the
disk. -/
def isEspOf (disk : String) (part : PartitionRecord) : Bool :=
  part.efi &&
    match stripPrefix part.name disk with
    | some suffix =>
        all ((stripPrefix suffix "p").getD suffix) isAsciiDigit && suffix != ""
    | none => false

/-- `efi_partition_from_snapshot`. -/
def efiPartitionFromSnapshot (snapshot : LsblkSnapshot) (disk : String) (sectorSize : ℕ) :
    Except String (Option EfiPartition) :=
  match normalizeDevicePath disk with
  | none => .error "EFI partition query has an invalid disk"
  | some disk => do
      let partitions ← parsePartitions snapshot sectorSize
      resolveEsp ((partitions.filter (isEspOf disk)).map fun part =>
        { name := part.name, mountedAt := firstSafeMountpoint part.mountpoints })

/-! ### The preflight of a disk -/

/-- `StoragePreflight`. -/
structure StoragePreflight where
  disk : String
  espPresent : Bool := false
  espName : String := ""
  windowsPresent : Bool := false
  bitlockerLocked : Bool := false
  checkedPartitions : ℕ := 0
  deriving DecidableEq, Repr

/-- A partition that Windows uses. -/
def isWindowsPartition (part : PartitionRecord) : Bool :=
  part.fstype == "ntfs" || part.fstype == "ntfs3" || part.parttype == windowsDataGuid ||
    contains (toAsciiLowercase part.label) "windows"

/-- An explicit BitLocker volume, or an NTFS volume with active mappings. -/
def isLockedBitlocker (part : PartitionRecord) : Bool :=
  part.fstype == "bitlocker" || ((part.fstype == "ntfs" || part.fstype == "ntfs3") && part.inUse)

/-- One turn of the loop of `storage_preflight_from_snapshot`: the report so far and the EFI system
partitions met. -/
def preflightStep (disk : String) (acc : StoragePreflight × List EfiPartition)
    (part : PartitionRecord) : StoragePreflight × List EfiPartition :=
  if !onSelectedDisk part.name disk then acc
  else
    ({ acc.1 with
        checkedPartitions := acc.1.checkedPartitions + 1
        windowsPresent := acc.1.windowsPresent || isWindowsPartition part
        bitlockerLocked := acc.1.bitlockerLocked || isLockedBitlocker part },
      if part.efi then
        acc.2 ++ [{ name := part.name, mountedAt := firstSafeMountpoint part.mountpoints }]
      else acc.2)

/-- `storage_preflight_from_snapshot`. -/
def storagePreflightFromSnapshot (snapshot : LsblkSnapshot) (disk : String) (sectorSize : ℕ) :
    Except String StoragePreflight :=
  match normalizeDevicePath disk with
  | none => .error "storage preflight has an invalid disk"
  | some disk => do
      let partitions ← parsePartitions snapshot sectorSize
      let (preflight, espCandidates) := partitions.foldl (preflightStep disk) ({ disk }, [])
      match ← resolveEsp espCandidates with
      | some esp => return { preflight with espPresent := true, espName := esp.name }
      | none => return preflight

/-- `validate_storage_preflight`, where `wipe` says whether the mode is `wipe`. -/
def validateStoragePreflight (preflight : StoragePreflight) (wipe : Bool) : Except String Unit := do
  if preflight.bitlockerLocked then
    throw ("This disk has a locked BitLocker volume. Suspend or disable BitLocker in Windows " ++
      "(manage-bde -off) and wait for decryption before installing.")
  if !wipe && !preflight.espPresent then
    throw ("No EFI System Partition was found on the target disk. The installer preserves the " ++
      "existing ESP instead of formatting it; select a disk with an ESP or erase the disk.")

end Kyth.Storage

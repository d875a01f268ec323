import Kyth.Lib.Chase
import Kyth.Lib.Str
import Kyth.Lib.Word
import Mathlib.Data.List.AList
import Mathlib.Data.List.Sort

/-!
# Snapshot parsing (`installer_storage.rs`)

The installer reads block devices from `lsblk --json` and mounts from `findmnt --json`. The
decoded documents are the inputs here: `LsblkSnapshot` is a forest of devices, `FindmntTree` a
forest of mounts. Every query is a pure function of a snapshot.

* `MountTable` and its protected sources;
* `deviceAncestry`, `parentDiskInSnapshot`, `runtimeDisksFromSnapshots`.

The queries about partitions are in `Kyth.Installer.Partitions`.
-/

namespace Kyth.Storage

open Str Word

/-- The columns of one `lsblk` entry. A column that was not requested is `none`. -/
structure LsblkColumns where
  name : Option String := none
  partn : Option UInt32 := none
  size : Option UInt64 := none
  deviceType : Option String := none
  pkname : Option String := none
  fstype : Option String := none
  parttype : Option String := none
  label : Option String := none
  model : Option String := none
  mountpoint : Option String := none
  mountpoints : Option (List (Option String)) := none
  start : Option UInt64 := none
  ro : Option Bool := none
  rm : Option Bool := none
  rota : Option Bool := none
  tran : Option String := none
  pttype : Option String := none
  serial : Option String := none
  partuuid : Option String := none
  deriving DecidableEq, Repr, Inhabited

/-- One entry of an `lsblk` document with the devices stacked on it. -/
structure LsblkDevice extends LsblkColumns where
  children : List LsblkDevice := []
  deriving Repr, Inhabited

/-- The root of an `lsblk` document. -/
structure LsblkSnapshot where
  blockdevices : List LsblkDevice := []
  deriving Repr, Inhabited

mutual
/-- A device and everything below it, in the order the recursive walks visit it. -/
def LsblkDevice.flatten : LsblkDevice → List LsblkDevice
  | ⟨columns, children⟩ => ⟨columns, children⟩ :: flattenAll children

/-- The devices of a forest in walking order. -/
def flattenAll : List LsblkDevice → List LsblkDevice
  | [] => []
  | d :: ds => d.flatten ++ flattenAll ds
end

/-! ### Mounts -/

/-- One mount of a `findmnt` document with the mounts below it. -/
structure FindmntEntry where
  target : String := ""
  source : String := ""
  children : List FindmntEntry := []
  deriving Repr, Inhabited

/-- The root of a `findmnt` document. -/
structure FindmntTree where
  filesystems : List FindmntEntry := []
  deriving Repr, Inhabited

mutual
/-- The `(target, source)` pairs of a mount and everything below it. -/
def FindmntEntry.flatten : FindmntEntry → List (String × String)
  | ⟨target, source, children⟩ => (target, source) :: flattenMounts children

/-- The `(target, source)` pairs of a forest of mounts. -/
def flattenMounts : List FindmntEntry → List (String × String)
  | [] => []
  | e :: es => e.flatten ++ flattenMounts es
end

/-- `PROTECTED_MOUNT_TARGETS`. -/
def protectedMountTargets : List String :=
  ["/", "/boot", "/boot/efi", "/sysroot", "/run/initramfs/live", "/run/initramfs/iso"]

/-- `PROTECTED_MOUNT_SUBTREES`. -/
def protectedMountSubtrees : List String := ["/run/initramfs", "/run/media"]

/-- `MountTable`: the block-device mounts of the session. -/
structure MountTable where
  entries : List (String × String) := []
  deriving DecidableEq, Repr

namespace MountTable

/-- `MountTable::parse`. Only sources below `/dev/` can be installer targets. -/
def parse (tree : FindmntTree) : MountTable where
  entries := (flattenMounts tree.filesystems).filter fun entry => startsWith entry.2 "/dev/"

/-- `sources_matching`: the sources of the matching mounts, each at its first place only. -/
def sourcesMatching (table : MountTable) (matching : String → Bool) : List String :=
  table.entries.foldl (fun sources entry =>
    if matching entry.1 ∧ entry.2 ∉ sources then sources ++ [entry.2] else sources) []

/-- `sources_at`. -/
def sourcesAt (table : MountTable) (target : String) : List String :=
  table.sourcesMatching fun candidate => candidate == target

/-- `sources_under`. -/
def sourcesUnder (table : MountTable) (root : String) : List String :=
  table.sourcesMatching fun candidate => candidate == root || startsWith candidate (root ++ "/")

/-- `protected_sources`. -/
def protectedSources (table : MountTable) : List String :=
  protectedMountTargets.flatMap table.sourcesAt ++ protectedMountSubtrees.flatMap table.sourcesUnder

/-- `current_source`. -/
def currentSource (table : MountTable) : Option String := (table.sourcesAt "/").head?

end MountTable

/-! ### Device names and ancestry -/

/-- The characters a device path may contain besides letters and digits. -/
def isDevicePathChar (c : Char) : Bool :=
  isAsciiAlphanumeric c || c == '.' || c == '_' || c == '/' || c == '+' || c == ':' || c == '-'

/-- The path a device name stands for: bare names live below `/dev/`. -/
def devicePath (raw : String) : String :=
  let value := trim raw
  if startsWith value "/dev/" then value else "/dev/" ++ value

/-- A basename directly below `/dev/` or below `/dev/mapper/`. -/
def validBasename (basename : String) : Bool :=
  basename != "" && (!containsChar basename '/' ||
    match stripPrefix basename "mapper/" with
    | some mapperName => mapperName != "" && !containsChar mapperName '/'
    | none => false)

/-- `normalize_device_path` of the storage layer, which also accepts `/dev/mapper/` nodes. -/
def normalizeDevicePath (raw : String) : Option String :=
  if trim raw = "" then none
  else
    let value := devicePath raw
    if !startsWith value "/dev/" || !validBasename ((stripPrefix value "/dev/").getD "") ||
        contains value ".." || !all value isDevicePathChar then none
    else some value

/-- The normalized name of an entry, if it has one. -/
def LsblkDevice.path (d : LsblkDevice) : Option String := d.name.bind normalizeDevicePath

/-- A hash map from strings. -/
abbrev StringMap (α : Type) := AList (fun _ : String => α)

/-- The step of `device_ancestry`: an entry listed again replaces what was recorded for it. -/
def recordAncestry (devices : StringMap (String × Option String)) (entry : LsblkDevice) :
    StringMap (String × Option String) :=
  match entry.path with
  | some name =>
      devices.insert name (entry.deviceType.getD "", entry.pkname.bind normalizeDevicePath)
  | none => devices

/-- `device_ancestry`: the type and the parent of every device. -/
def deviceAncestry (snapshot : LsblkSnapshot) : StringMap (String × Option String) :=
  (flattenAll snapshot.blockdevices).foldl recordAncestry ∅

/-- One turn of the loop of `parent_disk_in_snapshot`: stop at a whole disk, otherwise go on at
the recorded parent. -/
def ancestryStep (devices : StringMap (String × Option String)) (device : String) :
    Option (String ⊕ String) :=
  match devices.lookup device with
  | none => none
  | some (deviceType, parent) =>
      if deviceType = "disk" then some (.inl device) else parent.map .inr

/-- `parent_disk_in_snapshot`. -/
def parentDiskInSnapshot (snapshot : LsblkSnapshot) (source : String) : Option String :=
  let devices := deviceAncestry snapshot
  (normalizeDevicePath source).bind
    (Chase.chase (ancestryStep devices) (devices.keys.length + 1) [])

/-- `DiskRecord`. -/
structure DiskRecord where
  name : String
  sizeBytes : UInt64
  model : String
  ssd : Bool
  transport : String
  removable : Bool
  partitionTable : String
  current : Bool
  deriving DecidableEq, Repr

/-- The record of one top-level entry, unless it is empty, read-only or protected. -/
def diskRecord (isProtected : List String) (currentDisk : Option String) (device : LsblkDevice) :
    Option DiskRecord := do
  let name ← device.path
  let sizeBytes := device.size.getD 0
  if sizeBytes = 0 ∨ device.ro.getD false ∨ name ∈ isProtected then none
  else
    some { name, sizeBytes
           model := trim (device.model.getD "Unknown drive")
           ssd := !device.rota.getD false
           transport := device.tran.getD ""
           removable := device.rm.getD false
           partitionTable := toAsciiLowercase (device.pttype.getD "")
           current := decide (currentDisk = some name) }

/-- `parse_disks`. -/
def parseDisks (snapshot : LsblkSnapshot) (isProtected : List String)
    (currentDisk : Option String) : List DiskRecord :=
  (snapshot.blockdevices.filter fun device => device.deviceType == some "disk").filterMap
    (diskRecord isProtected currentDisk)

/-- `runtime_disks_from_snapshots`. -/
def runtimeDisksFromSnapshots (diskSnapshot ancestrySnapshot : LsblkSnapshot)
    (protectedSources : List String) (currentSource : Option String) : List DiskRecord :=
  parseDisks diskSnapshot (protectedSources.filterMap (parentDiskInSnapshot ancestrySnapshot))
    (currentSource.bind (parentDiskInSnapshot ancestrySnapshot))

end Kyth.Storage

import Kyth.Installer.Commit

/-!
# The two finders of a new partition

After it created a partition, a commit asks `lsblk` where it is (`find_new_partition` of
`installer_journal.rs`), and so does the storage phase (`new_partition_from_snapshots` of
`installer_storage.rs`). Both read the same document: a root object whose `blockdevices` array
holds the trees of devices. The walk of `runtime_partitions` enters that array. The walk of
`find_new_partition` starts at the same root, but it only goes down `children`.

* `LsblkRoot`: the root of a document that `lsblk` writes;
* `LsblkDevice.document`: what it writes for a device;
* `findNewPartition_misses`: the walk finds nothing in such a document.
-/

namespace Kyth.Journal

open Json Storage

/-- The root of an `lsblk` document: the devices are described in the `blockdevices` array, and
the root is no device itself. -/
structure LsblkRoot (root : Value) (devices : List Value) : Prop where
  blockdevices : root.get "blockdevices" = some (.array devices)
  type : root.get "type" = none
  children : root.get "children" = none

variable {w : World} {m : Machine} {disk : String} {before : StringMap UInt32}
  {start size : UInt64}

/-- A column of a document, `null` where the device has no value for it. -/
def optional {α : Type} (write : α → Value) : Option α → Value
  | some value => write value
  | none => .null

/-- Without a `children` member there is nothing below an entry. -/
theorem newPartitionsBelow_eq_nil : ∀ {fields : List (String × Value)},
    fields.lookup "children" = none → newPartitionsBelow before start size fields = []
  | [], _ => by rw [newPartitionsBelow]
  | (key, value) :: fields, h => by
      rw [List.lookup_cons] at h
      by_cases hkey : key = "children"
      · rw [hkey] at h
        simp at h
      · have hbeq : ("children" == key) = false := by
          rw [beq_eq_false_iff_ne]
          exact fun heq => hkey heq.symm
        rw [hbeq] at h
        rw [newPartitionsBelow.eq_def]
        simp only [if_neg hkey]
        exact newPartitionsBelow_eq_nil h

/-- The walk stops at the root of a document, whatever the trees in its array hold. -/
theorem LsblkRoot.newPartitions_eq_nil {root : Value} {devices : List Value}
    (h : LsblkRoot root devices) : newPartitions before start size root = [] := by
  rcases root with _ | _ | _ | _ | _ | fields
  case object =>
    have hself : newPartition before start size (.object fields) = none := by
      unfold newPartition
      rw [h.type]
      rfl
    rw [newPartitions, hself, newPartitionsBelow_eq_nil h.children]
    rfl
  all_goals rw [newPartitions]; simp

/-- `find_new_partition` fails on every document of `lsblk`. Where the disk is a safe path and
`lsblk` ran, it says that there is no new partition, whatever the array lists. -/
theorem findNewPartition_misses {root : Value} {devices : List Value}
    (hroot : LsblkRoot root devices)
    (hdocument : w.document { m with clock := m.clock + 1 } = root) :
    (∀ created, (findNewPartition w disk before start size m).1 ≠ .ok created) ∧
      (Plan.normalizeDevicePath disk ≠ none → w.fault m.clock = none →
        (findNewPartition w disk before start size m).1 =
          .error "could not find the newly created partition") := by
  have hempty : newPartitions before start size
      (w.document { m with clock := m.clock + 1 }) = [] := by
    rw [hdocument]
    exact hroot.newPartitions_eq_nil
  by_cases hdisk : Plan.normalizeDevicePath disk = none
  · simp [findNewPartition, hdisk]
  · -- the answer of `lsblk` decides the rest
    rcases hcall : w.fault m.clock with _ | message
    · simp [findNewPartition, Action.bind_apply, call, hdisk, hcall, hempty]
    · simp [findNewPartition, Action.bind_apply, call, hdisk, hcall]

/-! ### A disk with a new partition -/

mutual
/-- What `lsblk` writes for a device with the columns `NAME,TYPE,START,SIZE`. -/
def deviceDocument : LsblkDevice → Value
  | ⟨columns, children⟩ =>
      .object (("name", optional .string columns.name) ::
        ("type", optional .string columns.deviceType) ::
        ("start", optional .nat columns.start) :: ("size", optional .nat columns.size) ::
        -- the member is left out where nothing is stacked on the device
        if children.isEmpty then [] else [("children", .array (deviceDocuments children))])

/-- What `lsblk` writes for a list of devices. -/
def deviceDocuments : List LsblkDevice → List Value
  | [] => []
  | device :: devices => deviceDocument device :: deviceDocuments devices
end

/-- The document of a snapshot. -/
def snapshotDocument (snapshot : LsblkSnapshot) : Value :=
  .object [("blockdevices", .array (deviceDocuments snapshot.blockdevices))]

/-- `lsblk` writes nothing but the array into the root. -/
theorem snapshotDocument_root (snapshot : LsblkSnapshot) :
    LsblkRoot (snapshotDocument snapshot) (deviceDocuments snapshot.blockdevices) where
  blockdevices := by simp [snapshotDocument, Value.get]
  type := by simp [snapshotDocument, Value.get, List.lookup_cons]
  children := by simp [snapshotDocument, Value.get, List.lookup_cons]

/-- An EFI partition of 1 GiB less 1 MiB on a disk of 4 GiB. -/
def efiDevice : LsblkDevice :=
  { name := some "/dev/sda1", deviceType := some "part", start := some 0x800
    size := some 0x3ff00000 }

/-- A partition of 2 GiB behind it. -/
def createdDevice : LsblkDevice :=
  { name := some "/dev/sda2", deviceType := some "part", start := some 0x200000
    size := some 0x80000000 }

/-- The disk with some partitions. -/
def sdaSnapshot (partitions : List LsblkDevice) : LsblkSnapshot :=
  ⟨[{ name := some "/dev/sda", deviceType := some "disk", size := some 0x100000000
      children := partitions }]⟩

/-- A machine on which no call fails and `lsblk` lists both partitions. -/
def createdWorld : World where
  fault _ := none
  lsblk _ _ _ := sdaSnapshot [efiDevice, createdDevice]
  document _ := snapshotDocument (sdaSnapshot [efiDevice, createdDevice])
  others := ∅
  number name := if name = "/dev/sda1" then 1 else 2
  newName _ := "/dev/sda2"
  details name := { name, sizeBytes := 0, startBytes := 0 }
  sectorSize := 512
  diskSizeBytes := 0x100000000
  sfdiskBinary := .ok "/usr/sbin/sfdisk"

/-- The disk of that machine. -/
def createdMachine : Machine where
  tableType := "gpt"
  slots := [⟨"/dev/sda2", 0x40000000, 0xc0000000, ""⟩, ⟨"/dev/sda1", 0x100000, 0x40000000, "vfat"⟩]

/-- The partitions before the second one was made. -/
def beforeCreated : StringMap UInt32 := (∅ : StringMap UInt32).insert "/dev/sda1" 1

/-- The document lists one new partition of the wanted extent, and the other finder names it. -/
theorem created_is_listed :
    newPartitionsIn beforeCreated 0x40000000 0x80000000
        (deviceDocuments (sdaSnapshot [efiDevice, createdDevice]).blockdevices) =
      ["/dev/sda2"] ∧
    newPartitionFromSnapshots (sdaSnapshot [efiDevice]) (sdaSnapshot [efiDevice, createdDevice])
        0x40000000 0x80000000 512 = .ok "/dev/sda2" := by
  decide

theorem created_not_found :
    LsblkRoot (createdWorld.document { createdMachine with clock := 1 })
        (deviceDocuments (sdaSnapshot [efiDevice, createdDevice]).blockdevices) ∧
      newPartitionsIn beforeCreated 0x40000000 0x80000000
          (deviceDocuments (sdaSnapshot [efiDevice, createdDevice]).blockdevices) =
        ["/dev/sda2"] ∧
      newPartitionFromSnapshots (sdaSnapshot [efiDevice])
          (sdaSnapshot [efiDevice, createdDevice]) 0x40000000 0x80000000 512 = .ok "/dev/sda2" ∧
      (findNewPartition createdWorld "/dev/sda" beforeCreated 0x40000000 0x80000000
          createdMachine).1 = .error "could not find the newly created partition" :=
  ⟨snapshotDocument_root _, created_is_listed.1, created_is_listed.2, by decide⟩

theorem findNewPartition_misses_created :
    (findNewPartition createdWorld "/dev/sda" beforeCreated 0x40000000 0x80000000
        createdMachine).1 ≠ .ok "/dev/sda2" :=
  (findNewPartition_misses (snapshotDocument_root _) rfl).1 "/dev/sda2"

end Kyth.Journal

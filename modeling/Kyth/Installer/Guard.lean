import Kyth.Installer.Plan
import Kyth.Installer.Storage

/-!
# The last-moment guard of the target disk (`installer_guard.rs`)

`validateTargetSnapshots` repeats, right before a disk is changed, the check behind the disk
inventory: a disk that carries a mount of the live session is neither offered nor accepted.

What "carries" means is stated without the code: `Backs snapshot d source` follows every parent
that the `lsblk` document lists, from the device a mount source names down to `d`. The code
follows, from a source it can read as a device path, the parent of the last listing of each
device, and stops at the first whole disk: `ResolvesTo`. `offered_iff` compares the two.
-/

namespace Kyth.Guard

open Str Storage

/-- `normalized`. -/
def normalized (disk : String) : Except String String :=
  match Plan.normalizeDevicePath disk with
  | some disk => .ok disk
  | none => .error "selected disk is not a safe device path"

/-- `validate_target_snapshots`. -/
def validateTargetSnapshots (diskSnapshot ancestrySnapshot : LsblkSnapshot)
    (protectedSources : List String) (currentSource : Option String) (disk : String) :
    Except String Unit := do
  let disk ← normalized disk
  let records :=
    runtimeDisksFromSnapshots diskSnapshot ancestrySnapshot protectedSources currentSource
  match records.find? fun record => record.name == disk with
  | none =>
      throw ("selected disk " ++ disk ++
        " is unavailable, read-only, or protected by a live mount")
  | some record =>
      if record.current then
        throw ("selected disk " ++ disk ++ " is the current live-session disk")

/-- The disks offered for an installation, given the mounts of the session. -/
def offeredDisks (mounts : FindmntTree) (diskSnapshot ancestrySnapshot : LsblkSnapshot) :
    List DiskRecord :=
  let table := MountTable.parse mounts
  runtimeDisksFromSnapshots diskSnapshot ancestrySnapshot table.protectedSources
    table.currentSource

/-- The guard on a disk, given the mounts of the session. -/
def validateTarget (mounts : FindmntTree) (diskSnapshot ancestrySnapshot : LsblkSnapshot)
    (disk : String) : Except String Unit :=
  let table := MountTable.parse mounts
  validateTargetSnapshots diskSnapshot ancestrySnapshot table.protectedSources
    table.currentSource disk

/-! ### What it means that a mount lives on a disk -/

/-- A mount of the live session the installer must never overwrite. -/
def IsProtectedTarget (target : String) : Prop :=
  target ∈ protectedMountTargets ∨
    ∃ root ∈ protectedMountSubtrees, target = root ∨ startsWith target (root ++ "/")

/-- `source` is mounted somewhere in the live session's protected tree. -/
def IsProtectedSource (mounts : FindmntTree) (source : String) : Prop :=
  ∃ target, (target, source) ∈ flattenMounts mounts.filesystems ∧ IsProtectedTarget target

/-- The device a mount source names: a Btrfs subvolume source is written `/dev/x[/subvol]`. -/
def sourceDevice (source : String) : String := splitFirst source '['

/-- The parents an `lsblk` document lists for a device: the `PKNAME` of any of its entries, and
the entry it is nested below. -/
inductive IsParent (snapshot : LsblkSnapshot) : String → String → Prop
  | pkname {entry : LsblkDevice} {name parent : String} :
      entry ∈ flattenAll snapshot.blockdevices → entry.name = some name →
      entry.pkname = some parent → IsParent snapshot (devicePath name) (devicePath parent)
  | nested {entry child : LsblkDevice} {name parent : String} :
      entry ∈ flattenAll snapshot.blockdevices → child ∈ entry.children →
      child.name = some name → entry.name = some parent →
      IsParent snapshot (devicePath name) (devicePath parent)

/-- The disk `d` backs a mount source, directly or through any chain of parents. -/
def Backs (snapshot : LsblkSnapshot) (d source : String) : Prop :=
  Relation.ReflTransGen (IsParent snapshot) (sourceDevice source) d

/-- `d` is listed as a whole disk that is not empty and not read-only. -/
def IsUsableDisk (snapshot : LsblkSnapshot) (d : String) : Prop :=
  ∃ entry ∈ snapshot.blockdevices, entry.deviceType = some "disk" ∧ entry.path = some d ∧
    entry.size.getD 0 ≠ 0 ∧ entry.ro.getD false = false

/-- The entry that lists a device last. -/
def lastListed (snapshot : LsblkSnapshot) (device : String) : Option LsblkDevice :=
  (flattenAll snapshot.blockdevices).reverse.find? fun entry => entry.path == some device

/-- The first whole disk on the way up from a device, along the parents of the last listings. -/
inductive Climbs (snapshot : LsblkSnapshot) : String → String → Prop
  | disk {device : String} {entry : LsblkDevice} :
      lastListed snapshot device = some entry → entry.deviceType = some "disk" →
      Climbs snapshot device device
  | parent {device parent d : String} {entry : LsblkDevice} :
      lastListed snapshot device = some entry → entry.deviceType ≠ some "disk" →
      entry.pkname.bind normalizeDevicePath = some parent → Climbs snapshot parent d →
      Climbs snapshot device d

/-- A source below `/dev/` that reads as a device path, as it stands, and climbs to `d`. -/
def ResolvesTo (snapshot : LsblkSnapshot) (source d : String) : Prop :=
  startsWith source "/dev/" ∧
    ∃ device, normalizeDevicePath source = some device ∧ Climbs snapshot device d

/-! ### The mount table -/

theorem mem_foldl_sources (matching : String → Bool) (entries : List (String × String))
    (sources : List String) (s : String) :
    s ∈ entries.foldl (fun sources entry =>
        if matching entry.1 ∧ entry.2 ∉ sources then sources ++ [entry.2] else sources) sources ↔
      s ∈ sources ∨ ∃ target, (target, s) ∈ entries ∧ matching target := by
  induction entries generalizing sources with
  | nil => simp
  | cons entry entries ih =>
    obtain ⟨t, s'⟩ := entry
    rw [List.foldl_cons, ih]
    by_cases hm : matching t = true <;> by_cases hs : s' ∈ sources <;>
      simp only [hm, hs, not_true, not_false_eq_true, and_self, and_false, if_true, if_false,
        List.mem_append, List.mem_cons, Prod.mk.injEq] <;>
      grind

theorem mem_sourcesMatching (table : MountTable) (matching : String → Bool) (s : String) :
    s ∈ table.sourcesMatching matching ↔
      ∃ target, (target, s) ∈ table.entries ∧ matching target := by
  simp [MountTable.sourcesMatching, mem_foldl_sources]

/-- The protected sources of the parsed table are the protected block-device sources. -/
theorem mem_protectedSources (mounts : FindmntTree) (s : String) :
    s ∈ (MountTable.parse mounts).protectedSources ↔
      startsWith s "/dev/" ∧ IsProtectedSource mounts s := by
  simp only [MountTable.protectedSources, List.mem_append, List.mem_flatMap,
    MountTable.sourcesAt, MountTable.sourcesUnder, mem_sourcesMatching, MountTable.parse,
    List.mem_filter, IsProtectedSource, IsProtectedTarget, Bool.or_eq_true, beq_iff_eq]
  constructor
  · rintro (⟨root, hroot, target, ⟨hmem, hdev⟩, rfl⟩ | ⟨root, hroot, target, ⟨hmem, hdev⟩, hm⟩)
    · exact ⟨hdev, target, hmem, .inl hroot⟩
    · exact ⟨hdev, target, hmem, .inr ⟨root, hroot, hm⟩⟩
  · rintro ⟨hdev, target, hmem, htarget | ⟨root, hroot, hm⟩⟩
    · exact .inl ⟨target, htarget, target, ⟨hmem, hdev⟩, rfl⟩
    · exact .inr ⟨root, hroot, target, ⟨hmem, hdev⟩, hm⟩

/-! ### The ancestry map -/

/-- The type and the parent that an entry records for its device. -/
def ancestryOf (entry : LsblkDevice) : String × Option String :=
  (entry.deviceType.getD "", entry.pkname.bind normalizeDevicePath)

theorem lookup_recordAncestry (devices : StringMap (String × Option String))
    (entry : LsblkDevice) (device : String) :
    (recordAncestry devices entry).lookup device =
      if entry.path = some device then some (ancestryOf entry) else devices.lookup device := by
  unfold recordAncestry
  cases hp : entry.path with
  | none => simp
  | some name =>
    by_cases hn : name = device
    · subst hn; simp [ancestryOf]
    · simp [hn, AList.lookup_insert_ne (Ne.symm hn)]

theorem lookup_foldl_recordAncestry (entries : List LsblkDevice)
    (devices : StringMap (String × Option String)) (device : String) :
    (entries.foldl recordAncestry devices).lookup device =
      ((entries.reverse.find? fun entry => entry.path == some device).map ancestryOf).or
        (devices.lookup device) := by
  induction entries generalizing devices with
  | nil => simp
  | cons entry entries ih =>
    rw [List.foldl_cons, ih, lookup_recordAncestry, List.reverse_cons, List.find?_append]
    cases entries.reverse.find? fun entry => entry.path == some device with
    | some e => simp
    | none => by_cases h : entry.path = some device <;> simp [h]

/-- The ancestry map keeps the last listing of a device. -/
theorem lookup_deviceAncestry (snapshot : LsblkSnapshot) (device : String) :
    (deviceAncestry snapshot).lookup device = (lastListed snapshot device).map ancestryOf := by
  rw [deviceAncestry, lookup_foldl_recordAncestry, lastListed, AList.lookup_empty, Option.or_none]

theorem ancestryStep_eq (snapshot : LsblkSnapshot) (device : String) :
    ancestryStep (deviceAncestry snapshot) device =
      (lastListed snapshot device).bind fun entry =>
        if entry.deviceType = some "disk" then some (.inl device)
        else (entry.pkname.bind normalizeDevicePath).map .inr := by
  rw [ancestryStep, lookup_deviceAncestry]
  cases lastListed snapshot device with
  | none => rfl
  | some entry => cases h : entry.deviceType <;> simp [ancestryOf, h]

/-- The links of the ancestry map lead where `Climbs` says. -/
theorem chases_iff_climbs (snapshot : LsblkSnapshot) (device d : String) :
    Chase.Chases (ancestryStep (deviceAncestry snapshot)) device d ↔
      Climbs snapshot device d := by
  constructor
  · rintro ⟨n, h⟩
    induction h with
    | found hs =>
      rw [ancestryStep_eq] at hs
      obtain ⟨entry, hl, hs⟩ := Option.bind_eq_some_iff.1 hs
      split_ifs at hs with hd
      · cases hs
        exact .disk hl hd
      · obtain ⟨parent, -, hp⟩ := Option.map_eq_some_iff.1 hs
        cases hp
    | next hs _ ih =>
      rw [ancestryStep_eq] at hs
      obtain ⟨entry, hl, hs⟩ := Option.bind_eq_some_iff.1 hs
      split_ifs at hs with hd
      · cases hs
      · obtain ⟨parent, hp, heq⟩ := Option.map_eq_some_iff.1 hs
        cases heq
        exact .parent hl hd hp ih
  · intro h
    induction h with
    | disk hl hd =>
      exact ⟨0, .found (by rw [ancestryStep_eq, hl, Option.bind_some, if_pos hd])⟩
    | parent hl hd hp _ ih =>
      obtain ⟨n, hn⟩ := ih
      refine ⟨n + 1, .next ?_ hn⟩
      rw [ancestryStep_eq, hl, Option.bind_some, if_neg hd, hp, Option.map_some]

/-- `parent_disk_in_snapshot` finds exactly the disk a readable source climbs to. -/
theorem parentDiskInSnapshot_eq_some (snapshot : LsblkSnapshot) (source d : String) :
    parentDiskInSnapshot snapshot source = some d ↔
      ∃ device, normalizeDevicePath source = some device ∧ Climbs snapshot device d := by
  have hkeys : ∀ device, (ancestryStep (deviceAncestry snapshot) device).isSome →
      device ∈ (deviceAncestry snapshot).keys := by
    intro device hs
    refine AList.mem_keys.1 (AList.lookup_isSome.1 ?_)
    unfold ancestryStep at hs
    cases h : (deviceAncestry snapshot).lookup device with
    | none => rw [h] at hs; cases hs
    | some _ => rfl
  simp only [parentDiskInSnapshot, Option.bind_eq_some_iff, Chase.chase_iff hkeys,
    chases_iff_climbs]

/-! ### Offered disks -/

theorem diskRecord_name {isProtected : List String} {currentDisk : Option String}
    {device : LsblkDevice} {record : DiskRecord}
    (h : diskRecord isProtected currentDisk device = some record) :
    device.path = some record.name ∧ device.size.getD 0 ≠ 0 ∧ device.ro.getD false = false ∧
      record.name ∉ isProtected := by
  unfold diskRecord at h
  obtain ⟨name, hname, h⟩ := Option.bind_eq_some_iff.1 h
  dsimp only at h
  split_ifs at h with hc
  cases h
  simp only [not_or, Bool.not_eq_true] at hc
  exact ⟨hname, hc⟩

theorem diskRecord_isSome {isProtected : List String} {currentDisk : Option String}
    {device : LsblkDevice} {d : String} (hpath : device.path = some d)
    (hsize : device.size.getD 0 ≠ 0) (hro : device.ro.getD false = false) (hd : d ∉ isProtected) :
    ∃ record, diskRecord isProtected currentDisk device = some record ∧ record.name = d := by
  have hc : ¬ (device.size.getD 0 = 0 ∨ device.ro.getD false = true ∨ d ∈ isProtected) := by
    simp only [not_or, hro]
    exact ⟨hsize, by simp, hd⟩
  unfold diskRecord
  rw [hpath, Option.bind_eq_bind, Option.bind_some]
  dsimp only
  rw [if_neg hc]
  exact ⟨_, rfl, rfl⟩

/-- A disk is offered exactly when it is usable and no protected source climbs to it. -/
theorem offered_iff (mounts : FindmntTree) (diskSnapshot ancestrySnapshot : LsblkSnapshot)
    (d : String) :
    (∃ record ∈ offeredDisks mounts diskSnapshot ancestrySnapshot, record.name = d) ↔
      IsUsableDisk diskSnapshot d ∧
        ¬ ∃ source, IsProtectedSource mounts source ∧ ResolvesTo ancestrySnapshot source d := by
  have hprot : d ∈ (MountTable.parse mounts).protectedSources.filterMap
      (parentDiskInSnapshot ancestrySnapshot) ↔
      ∃ source, IsProtectedSource mounts source ∧ ResolvesTo ancestrySnapshot source d := by
    simp only [List.mem_filterMap, mem_protectedSources, parentDiskInSnapshot_eq_some, ResolvesTo]
    constructor
    · rintro ⟨source, ⟨hdev, hsrc⟩, hres⟩
      exact ⟨source, hsrc, hdev, hres⟩
    · rintro ⟨source, hsrc, hdev, hres⟩
      exact ⟨source, ⟨hdev, hsrc⟩, hres⟩
  rw [← hprot, offeredDisks, runtimeDisksFromSnapshots, parseDisks]
  constructor
  · rintro ⟨record, hrecord, rfl⟩
    obtain ⟨device, hdevice, hrec⟩ := List.mem_filterMap.1 hrecord
    obtain ⟨hmem, htype⟩ := List.mem_filter.1 hdevice
    obtain ⟨hpath, hsize, hro, hnot⟩ := diskRecord_name hrec
    exact ⟨⟨device, hmem, by simpa using htype, hpath, hsize, hro⟩, hnot⟩
  · rintro ⟨⟨device, hmem, htype, hpath, hsize, hro⟩, hnot⟩
    obtain ⟨record, hrec, hname⟩ := diskRecord_isSome hpath hsize hro hnot
    exact ⟨record, List.mem_filterMap.2
      ⟨device, List.mem_filter.2 ⟨hmem, by simpa using htype⟩, hrec⟩, hname⟩

/-- A safe device path is the path its name stands for. -/
theorem devicePath_of_normalizeDevicePath {disk path : String}
    (h : Plan.normalizeDevicePath disk = some path) : path = devicePath disk := by
  unfold Plan.normalizeDevicePath at h
  dsimp only at h
  split_ifs at h <;> cases h <;> simp_all [devicePath]

/-- A disk that is not offered is refused by the guard. -/
theorem validateTarget_error_of_not_offered {mounts : FindmntTree}
    {diskSnapshot ancestrySnapshot : LsblkSnapshot} {disk : String}
    (h : ¬ ∃ record ∈ offeredDisks mounts diskSnapshot ancestrySnapshot,
      record.name = devicePath disk) :
    ∃ message, validateTarget mounts diskSnapshot ancestrySnapshot disk = .error message := by
  unfold validateTarget validateTargetSnapshots normalized
  cases hd : Plan.normalizeDevicePath disk with
  | none => exact ⟨_, rfl⟩
  | some path =>
    have hnone : (offeredDisks mounts diskSnapshot ancestrySnapshot).find?
        (fun record => record.name == path) = none := by
      rw [List.find?_eq_none]
      intro record hrecord hname
      exact h ⟨record, hrecord, by
        rw [← devicePath_of_normalizeDevicePath hd]; simpa using hname⟩
    unfold offeredDisks at hnone
    dsimp only at hnone ⊢
    simp only [bind, Except.bind, hnone]
    exact ⟨_, rfl⟩

/-! ### The live disk -/

/-- The installer refuses a disk that carries a protected mount exactly when the disk is not
usable at all, or some protected source climbs to it. -/
theorem live_disk_refused_iff (mounts : FindmntTree)
    (diskSnapshot ancestrySnapshot : LsblkSnapshot) (disk : String) :
    ((∃ source, IsProtectedSource mounts source ∧
        Backs ancestrySnapshot (devicePath disk) source) →
      (∃ message, validateTarget mounts diskSnapshot ancestrySnapshot disk = .error message) ∧
        ∀ record ∈ offeredDisks mounts diskSnapshot ancestrySnapshot,
          record.name ≠ devicePath disk) ↔
    ((∃ source, IsProtectedSource mounts source ∧
        Backs ancestrySnapshot (devicePath disk) source) →
      IsUsableDisk diskSnapshot (devicePath disk) →
        ∃ source, IsProtectedSource mounts source ∧
          ResolvesTo ancestrySnapshot source (devicePath disk)) := by
  have hoffered := offered_iff mounts diskSnapshot ancestrySnapshot (devicePath disk)
  constructor
  · intro h hbacked husable
    by_contra hnone
    obtain ⟨record, hmem, hname⟩ := hoffered.2 ⟨husable, hnone⟩
    exact (h hbacked).2 record hmem hname
  · intro h hbacked
    have hnot : ¬ ∃ record ∈ offeredDisks mounts diskSnapshot ancestrySnapshot,
        record.name = devicePath disk := by
      intro hrecord
      obtain ⟨husable, hnone⟩ := hoffered.1 hrecord
      exact hnone (h hbacked husable)
    refine ⟨validateTarget_error_of_not_offered hnot, ?_⟩
    intro record hmem hname
    exact hnot ⟨record, hmem, hname⟩

/-- A Btrfs root mounted from a subvolume, as `findmnt` prints it. -/
def subvolumeRoot : FindmntTree where
  filesystems := [{ target := "/", source := "/dev/sda2[/root]" }]

/-- One disk with one partition, as `lsblk` prints it. -/
def singleDisk : LsblkSnapshot where
  blockdevices :=
    [{ name := some "/dev/sda", deviceType := some "disk", size := some 1000000
       children := [{ name := some "/dev/sda2", deviceType := some "part"
                      pkname := some "/dev/sda", size := some 900000 }] }]

/-- The disk of a live session whose root is a Btrfs subvolume is accepted as a target. -/
theorem subvolume_root_disk_accepted :
    (∃ source, IsProtectedSource subvolumeRoot source ∧
      Backs singleDisk (devicePath "/dev/sda") source) ∧
    validateTarget subvolumeRoot singleDisk singleDisk "/dev/sda" = .ok () ∧
    ∃ record ∈ offeredDisks subvolumeRoot singleDisk singleDisk,
      record.name = devicePath "/dev/sda" := by
  refine ⟨⟨"/dev/sda2[/root]", ⟨"/", by decide, .inl (by decide)⟩, ?_⟩, by decide, by decide⟩
  have hmem : ({ name := some "/dev/sda2", deviceType := some "part"
                 pkname := some "/dev/sda", size := some 900000 } : LsblkDevice) ∈
      flattenAll singleDisk.blockdevices := .tail _ (.head _)
  have hparent : IsParent singleDisk (devicePath "/dev/sda2") (devicePath "/dev/sda") :=
    .pkname hmem rfl rfl
  have hsource : sourceDevice "/dev/sda2[/root]" = devicePath "/dev/sda2" := by decide
  rw [Backs, hsource]
  exact Relation.ReflTransGen.single hparent

end Kyth.Guard

import Kyth.Installer.Partitions
import Kyth.Lib.Check
import Mathlib.Tactic

/-!
# What the installer shows and what it later accepts

Two questions about a snapshot are asked twice: once for the screen, and once by the step that acts.

* The EFI system partition: `storagePreflightFromSnapshot` reports one, `efiPartitionFromSnapshot`
  resolves the one that is mounted. `preflight_esp_eq_efi_partition` says that they agree.
* The replace target: `partitionRecord` marks the partitions that are offered,
  `validateReplaceTarget` decides before the format. `offered_iff_validateReplaceTarget` says that
  they agree.
-/

namespace Kyth.Storage

open Str Word Check

/-! ### The EFI system partition -/

/-- The name a preflight reports, if it reports one. -/
def StoragePreflight.reportedEsp (preflight : StoragePreflight) : Option String :=
  if preflight.espPresent then some preflight.espName else none

/-- The two spellings of the test for a partition of the disk agree. -/
theorem isEspOf_eq (disk : String) (part : PartitionRecord) :
    isEspOf disk part = (onSelectedDisk part.name disk && part.efi) := by
  unfold isEspOf onSelectedDisk
  cases stripPrefix part.name disk with
  | none => simp
  | some suffix => simp only [Bool.and_comm]

/-- A turn of the loop reports no EFI system partition yet. -/
theorem preflightStep_reportedEsp (disk : String) (acc : StoragePreflight × List EfiPartition)
    (part : PartitionRecord) :
    (preflightStep disk acc part).1.reportedEsp = acc.1.reportedEsp := by
  unfold preflightStep
  split_ifs <;> rfl

/-- A turn of the loop collects the partition when the typed query keeps it. -/
theorem preflightStep_candidates (disk : String) (acc : StoragePreflight × List EfiPartition)
    (part : PartitionRecord) :
    (preflightStep disk acc part).2 = acc.2 ++ ([part].filter (isEspOf disk)).map fun part =>
      { name := part.name, mountedAt := firstSafeMountpoint part.mountpoints } := by
  unfold preflightStep
  rw [List.filter_singleton, isEspOf_eq]
  by_cases hdisk : onSelectedDisk part.name disk
  · by_cases hefi : part.efi
    · simp [hdisk, hefi]
    · simp [hdisk, hefi]
  · simp [hdisk]

theorem foldl_preflightStep_reportedEsp (disk : String)
    (acc : StoragePreflight × List EfiPartition) (partitions : List PartitionRecord) :
    (partitions.foldl (preflightStep disk) acc).1.reportedEsp = acc.1.reportedEsp := by
  induction partitions generalizing acc with
  | nil => rfl
  | cons part partitions ih => rw [List.foldl_cons, ih, preflightStep_reportedEsp]

/-- The whole loop collects the candidates of the typed query, in order. -/
theorem foldl_preflightStep_candidates (disk : String)
    (acc : StoragePreflight × List EfiPartition) (partitions : List PartitionRecord) :
    (partitions.foldl (preflightStep disk) acc).2 =
      acc.2 ++ (partitions.filter (isEspOf disk)).map fun part =>
        { name := part.name, mountedAt := firstSafeMountpoint part.mountpoints } := by
  induction partitions generalizing acc with
  | nil => simp
  | cons part partitions ih =>
    have hcons : (part :: partitions).filter (isEspOf disk) =
        [part].filter (isEspOf disk) ++ partitions.filter (isEspOf disk) := by
      rw [← List.filter_append, List.singleton_append]
    rw [List.foldl_cons, ih, preflightStep_candidates, hcons, List.map_append, List.append_assoc]

/-- The preflight reports the EFI system partition that the typed query resolves, and fails with
the same message when that one does. Only the two refusals of an unusable disk path differ in their
texts. -/
theorem preflight_esp_eq_efi_partition (snapshot : LsblkSnapshot) (disk : String)
    (sectorSize : ℕ) :
    (normalizeDevicePath disk = none ∧
      storagePreflightFromSnapshot snapshot disk sectorSize =
        .error "storage preflight has an invalid disk" ∧
      efiPartitionFromSnapshot snapshot disk sectorSize =
        .error "EFI partition query has an invalid disk") ∨
    (storagePreflightFromSnapshot snapshot disk sectorSize).map StoragePreflight.reportedEsp =
      (efiPartitionFromSnapshot snapshot disk sectorSize).map (Option.map EfiPartition.name) := by
  unfold storagePreflightFromSnapshot efiPartitionFromSnapshot
  cases hdisk : normalizeDevicePath disk with
  | none => exact .inl ⟨rfl, rfl, rfl⟩
  | some path =>
    right
    cases hparts : parsePartitions snapshot sectorSize with
    | error message => rfl
    | ok partitions =>
      have hcandidates := foldl_preflightStep_candidates path ({ disk := path }, []) partitions
      have hreport := foldl_preflightStep_reportedEsp path ({ disk := path }, []) partitions
      rw [List.nil_append] at hcandidates
      show Except.map _ ((resolveEsp (partitions.foldl (preflightStep path) _).2).bind _) =
        Except.map _ (resolveEsp _)
      rw [hcandidates]
      cases resolveEsp _ with
      | error message => rfl
      | ok esp =>
        cases esp with
        | none => exact congrArg Except.ok hreport
        | some efi => rfl

/-! ### Normalized names -/

theorem isWhitespace_of_isDevicePathChar {c : Char} (h : isDevicePathChar c = true) :
    isWhitespace c = false := by
  simp only [isDevicePathChar, isAsciiAlphanumeric, isAsciiDigit, Bool.or_eq_true, Bool.and_eq_true,
    decide_eq_true_eq, beq_iff_eq] at h
  rcases h with (((((((h | h) | h) | h) | h) | h) | h) | h) | h
  all_goals first
    | (subst h; decide)
    | (simp only [isWhitespace, Bool.or_eq_false_iff, Bool.and_eq_false_iff, decide_eq_false_iff_not,
        beq_eq_false_iff_ne]
       omega)

/-- A normalized path is its own normalization. -/
theorem normalizeDevicePath_normalized {raw path : String}
    (h : normalizeDevicePath raw = some path) : normalizeDevicePath path = some path := by
  unfold normalizeDevicePath at h
  dsimp only at h
  split_ifs at h with hempty hbad
  obtain rfl := Option.some.inj h
  have hok := hbad
  simp only [Bool.or_eq_true, Bool.not_eq_true', not_or, Bool.not_eq_false] at hok
  obtain ⟨⟨⟨hdev, -⟩, -⟩, hchars⟩ := hok
  have htrim : trim (devicePath raw) = devicePath raw :=
    trim_eq_self fun c hc => isWhitespace_of_isDevicePathChar (List.all_eq_true.1 hchars c hc)
  have hne : devicePath raw ≠ "" := by
    intro hnil
    rw [hnil] at hdev
    exact absurd hdev (by decide)
  have hself : devicePath (devicePath raw) = devicePath raw := by
    rw [devicePath, htrim, if_pos hdev]
  unfold normalizeDevicePath
  dsimp only
  rw [htrim, if_neg hne, hself, if_neg hbad]

/-- Reading a missing name as an empty one changes nothing: neither is a path. -/
theorem normalizeDevicePath_getD (device : LsblkDevice) :
    normalizeDevicePath (device.name.getD "") = device.path := by
  unfold LsblkDevice.path
  cases device.name with
  | none =>
    rw [Option.getD_none, Option.bind_none]
    exact if_pos (by decide)
  | some name => rw [Option.getD_some, Option.bind_some]

/-! ### The replace target -/

/-- The partition named `name` is offered as a replace target. -/
def Offered (snapshot : LsblkSnapshot) (sectorSize : ℕ) (name : String) : Prop :=
  ∃ records, parsePartitions snapshot sectorSize = .ok records ∧
    ∃ record ∈ records, record.name = name ∧ record.alongsideCandidate = true

/-- No two entries of a snapshot name the same device. -/
def UniqueNames (snapshot : LsblkSnapshot) : Prop :=
  ((flattenAll snapshot.blockdevices).filterMap LsblkDevice.path).Nodup

/-- An entry of a flattened forest stands at the top or below one of its entries. -/
theorem mem_flatten {device other : LsblkDevice} :
    other ∈ device.flatten ↔ other = device ∨ other ∈ flattenAll device.children := by
  obtain ⟨columns, children⟩ := device
  rw [LsblkDevice.flatten, List.mem_cons]

theorem mem_flattenAll_cons {device other : LsblkDevice} {devices : List LsblkDevice} :
    other ∈ flattenAll (device :: devices) ↔ other ∈ device.flatten ∨ other ∈ flattenAll devices := by
  rw [flattenAll, List.mem_append]

/-- A device of a list, with everything below it, belongs to the forest. -/
theorem mem_flattenAll_of_mem {device other : LsblkDevice} {devices : List LsblkDevice}
    (hdevice : device ∈ devices) (hother : other ∈ device.flatten) :
    other ∈ flattenAll devices := by
  induction devices with
  | nil => cases hdevice
  | cons head tail ih =>
    rw [mem_flattenAll_cons]
    rcases List.mem_cons.1 hdevice with rfl | htail
    · exact .inl hother
    · exact .inr (ih htail)

/-- An entry that `find_partition` stops at when it looks for `wanted`. -/
def Matches (wanted : String) (device : LsblkDevice) : Prop :=
  device.deviceType = some "part" ∧ device.path = some wanted

theorem findPartition_of_matches {wanted : String} {device : LsblkDevice}
    (h : Matches wanted device) : findPartition wanted device = probeOf device := by
  obtain ⟨columns, children⟩ := device
  have hname := normalizeDevicePath_getD ⟨columns, children⟩
  rw [findPartition, if_pos ⟨h.1, hname.trans h.2⟩]

theorem findPartition_of_not_matches {wanted : String} {device : LsblkDevice}
    (h : ¬ Matches wanted device) :
    findPartition wanted device = findPartitionIn wanted device.children := by
  obtain ⟨columns, children⟩ := device
  have hname := normalizeDevicePath_getD ⟨columns, children⟩
  rw [findPartition, if_neg fun hc => h ⟨hc.1, hname.symm.trans hc.2⟩]

mutual
/-- What the walk finds is the probe of a matching entry. -/
theorem findPartition_eq_some {wanted : String} {probe : PartitionProbe} :
    ∀ device : LsblkDevice, findPartition wanted device = some probe →
      ∃ other ∈ device.flatten, Matches wanted other ∧ probeOf other = some probe
  | ⟨columns, children⟩, h => by
    by_cases hmatch : Matches wanted ⟨columns, children⟩
    · rw [findPartition_of_matches hmatch] at h
      exact ⟨_, mem_flatten.2 (.inl rfl), hmatch, h⟩
    · rw [findPartition_of_not_matches hmatch] at h
      obtain ⟨other, hother, hrest⟩ := findPartitionIn_eq_some children h
      exact ⟨other, mem_flatten.2 (.inr hother), hrest⟩

theorem findPartitionIn_eq_some {wanted : String} {probe : PartitionProbe} :
    ∀ devices : List LsblkDevice, findPartitionIn wanted devices = some probe →
      ∃ other ∈ flattenAll devices, Matches wanted other ∧ probeOf other = some probe
  | [], h => by simp [findPartitionIn] at h
  | device :: devices, h => by
    rw [findPartitionIn] at h
    cases hfirst : findPartition wanted device with
    | some found =>
      rw [hfirst] at h
      obtain ⟨other, hother, hrest⟩ := findPartition_eq_some device (hfirst.trans h)
      exact ⟨other, mem_flattenAll_cons.2 (.inl hother), hrest⟩
    | none =>
      rw [hfirst] at h
      obtain ⟨other, hother, hrest⟩ := findPartitionIn_eq_some devices h
      exact ⟨other, mem_flattenAll_cons.2 (.inr hother), hrest⟩
end

mutual
/-- The walk finds something when a matching entry is there and every matching entry has a probe. -/
theorem findPartition_isSome {wanted : String} : ∀ device : LsblkDevice,
    (∀ other ∈ device.flatten, Matches wanted other → (probeOf other).isSome) →
    (∃ other ∈ device.flatten, Matches wanted other) → (findPartition wanted device).isSome
  | ⟨columns, children⟩, hprobe, hthere => by
    by_cases hmatch : Matches wanted ⟨columns, children⟩
    · rw [findPartition_of_matches hmatch]
      exact hprobe _ (mem_flatten.2 (.inl rfl)) hmatch
    · rw [findPartition_of_not_matches hmatch]
      apply findPartitionIn_isSome children
      · exact fun other hother => hprobe other (mem_flatten.2 (.inr hother))
      · obtain ⟨other, hother, hm⟩ := hthere
        rcases mem_flatten.1 hother with rfl | hbelow
        · exact absurd hm hmatch
        · exact ⟨other, hbelow, hm⟩

theorem findPartitionIn_isSome {wanted : String} : ∀ devices : List LsblkDevice,
    (∀ other ∈ flattenAll devices, Matches wanted other → (probeOf other).isSome) →
    (∃ other ∈ flattenAll devices, Matches wanted other) → (findPartitionIn wanted devices).isSome
  | [], _, hthere => by simp [flattenAll] at hthere
  | device :: devices, hprobe, hthere => by
    rw [findPartitionIn]
    cases hfirst : findPartition wanted device with
    | some found => rfl
    | none =>
      apply findPartitionIn_isSome devices
      · exact fun other hother => hprobe other (mem_flattenAll_cons.2 (.inr hother))
      · obtain ⟨other, hother, hm⟩ := hthere
        rcases mem_flattenAll_cons.1 hother with hhere | hrest
        · -- the walk would have stopped inside the first device
          have hsome := findPartition_isSome device
            (fun other hother => hprobe other (mem_flattenAll_cons.2 (.inl hother)))
            ⟨other, hhere, hm⟩
          rw [hfirst] at hsome
          exact absurd hsome (by decide)
        · exact ⟨other, hrest, hm⟩
end

section Unique

variable {snapshot : LsblkSnapshot} {disk part : LsblkDevice} {diskPath partPath : String}

/-- Entries of one name are one entry. -/
theorem UniqueNames.eq_of_path (h : UniqueNames snapshot) {a b : LsblkDevice} {name : String}
    (ha : a ∈ flattenAll snapshot.blockdevices) (hb : b ∈ flattenAll snapshot.blockdevices)
    (hpa : a.path = some name) (hpb : b.path = some name) : a = b := by
  by_contra hne
  unfold UniqueNames at h
  rw [List.nodup_iff_pairwise_ne, List.pairwise_filterMap] at h
  have hsymm : Std.Symm fun a b : LsblkDevice =>
      ∀ x, a.path = some x → ∀ y, b.path = some y → x ≠ y :=
    ⟨fun _ _ hab x hx y hy hxy => hab y hy x hx hxy.symm⟩
  exact List.Pairwise.forall h ha hb hne name hpa name hpb rfl

/-- The disk of a name is the entry that carries it. -/
theorem UniqueNames.findDisk_eq (h : UniqueNames snapshot) (hdisk : disk ∈ snapshot.blockdevices)
    (htype : disk.deviceType = some "disk") (hpath : disk.path = some diskPath) :
    findDisk snapshot diskPath = some disk := by
  have hmem : ∀ device ∈ snapshot.blockdevices, device ∈ flattenAll snapshot.blockdevices :=
    fun device hdevice => mem_flattenAll_of_mem hdevice (mem_flatten.2 (.inl rfl))
  have hsome : (findDisk snapshot diskPath).isSome := by
    rw [findDisk, List.find?_isSome]
    exact ⟨disk, hdisk, by simp [normalizeDevicePath_getD, hpath, htype]⟩
  obtain ⟨found, hfound⟩ := Option.isSome_iff_exists.1 hsome
  rw [hfound]
  have hpred := List.find?_some hfound
  rw [normalizeDevicePath_getD, Bool.and_eq_true, beq_iff_eq] at hpred
  exact congrArg some (h.eq_of_path (hmem found (List.mem_of_find?_eq_some hfound))
    (hmem disk hdisk) hpred.1 hpath)

/-- The walk from the disk of a partition finds the probe of that partition. -/
theorem UniqueNames.findPartition_eq (h : UniqueNames snapshot)
    (hdisk : disk ∈ snapshot.blockdevices) (hpart : part ∈ flattenAll disk.children)
    (hmatch : Matches partPath part) (hprobe : (probeOf part).isSome) :
    findPartition partPath disk = probeOf part := by
  have hmem : ∀ other ∈ disk.flatten, Matches partPath other → other = part :=
    fun other hother hm => h.eq_of_path (mem_flattenAll_of_mem hdisk hother)
      (mem_flattenAll_of_mem hdisk (mem_flatten.2 (.inr hpart))) hm.2 hmatch.2
  have hsome : (findPartition partPath disk).isSome :=
    findPartition_isSome disk (fun other hother hm => hmem other hother hm ▸ hprobe)
      ⟨part, mem_flatten.2 (.inr hpart), hmatch⟩
  obtain ⟨probe, hfound⟩ := Option.isSome_iff_exists.1 hsome
  obtain ⟨other, hother, hm, heq⟩ := findPartition_eq_some disk hfound
  rw [hfound, ← heq, hmem other hother hm]

end Unique

/-- A partition without entries stacked on it has no mounts below it. -/
theorem descendantMountpoints_of_children_nil {device : LsblkDevice} (h : device.children = []) :
    descendantMountpoints device = [] := by
  rw [descendantMountpoints, h]
  rfl

/-- The role only words the refusal. -/
theorem foreignDataReason_isNone (fstype label role role' : String) :
    (foreignDataReason fstype label role).isNone = (foreignDataReason fstype label role').isNone := by
  unfold foreignDataReason
  dsimp only
  split_ifs <;> rfl

/-- The checks of `validate_replace_target` on a probe. -/
def Replaceable (probe : PartitionProbe) : Prop :=
  probe.efi = false ∧ (probe.current || probe.inUse || probe.readOnly) = false ∧
    minKythosBytes ≤ probe.sizeBytes.toNat ∧
    (foreignDataReason probe.fstype probe.label "").isNone = true

/-- The record of an entry, as the mark of `parse_partitions` reads it. -/
theorem partitionRecord_alongsideCandidate {device : LsblkDevice} {record : PartitionRecord}
    (h : partitionRecord device = some record) :
    record.alongsideCandidate = (decide (minKythosBytes ≤ record.sizeBytes.toNat) && !record.efi &&
      !record.current && !record.inUse && !record.readOnly &&
      (foreignDataReason record.fstype record.label "").isNone) := by
  unfold partitionRecord at h
  split_ifs at h
  simp only [Option.bind_eq_bind, Option.bind_eq_some_iff] at h
  obtain ⟨name, -, h⟩ := h
  cases h
  rfl

/-- The record and the probe of an entry differ in the mounts they look at, and only when
something is stacked on the partition. -/
theorem record_probe_agree {device : LsblkDevice} {record : PartitionRecord}
    {probe : PartitionProbe} (hrecord : partitionRecord device = some record)
    (hprobe : probeOf device = some probe) :
    record.sizeBytes = probe.sizeBytes ∧ record.fstype = probe.fstype ∧
      record.label = probe.label ∧ record.inUse = probe.inUse ∧
      record.readOnly = probe.readOnly ∧
      (record.inUse = false → record.efi = probe.efi ∧ record.current = probe.current) := by
  unfold partitionRecord at hrecord
  unfold probeOf at hprobe
  split_ifs at hrecord
  simp only [Option.bind_eq_bind, Option.bind_eq_some_iff] at hrecord hprobe
  obtain ⟨name, -, hrecord⟩ := hrecord
  obtain ⟨name', -, number, -, hprobe⟩ := hprobe
  cases hrecord
  cases hprobe
  refine ⟨rfl, rfl, rfl, rfl, rfl, fun hfree => ?_⟩
  have hchildren : device.children = [] := by simpa using hfree
  have hmounts : mountpoints device ++ descendantMountpoints device = mountpoints device := by
    rw [descendantMountpoints_of_children_nil hchildren, List.append_nil]
  simp only [hmounts, and_true]
  cases device.parttype with
  | none => exact congrArg (· || _) (by decide)
  | some parttype => rfl

/-- The mark on the record of a partition is the outcome of the checks on its probe. -/
theorem alongsideCandidate_iff {device : LsblkDevice} {record : PartitionRecord}
    {probe : PartitionProbe} (hrecord : partitionRecord device = some record)
    (hprobe : probeOf device = some probe) :
    record.alongsideCandidate = true ↔ Replaceable probe := by
  obtain ⟨hsize, hfstype, hlabel, huse, hro, hmounts⟩ := record_probe_agree hrecord hprobe
  rw [partitionRecord_alongsideCandidate hrecord, hsize, hfstype, hlabel, hro]
  unfold Replaceable
  cases hfree : record.inUse with
  | true =>
    -- a stacked device makes both refuse, whatever is mounted on it
    have hprobeUse : probe.inUse = true := huse.symm.trans hfree
    simp [hprobeUse]
  | false =>
    have hprobeUse : probe.inUse = false := huse.symm.trans hfree
    obtain ⟨hefi, hcurrent⟩ := hmounts hfree
    simp only [hefi, hcurrent, hprobeUse, Bool.and_eq_true, Bool.not_eq_true', decide_eq_true_eq,
      Bool.or_false, Bool.or_eq_false_iff, Bool.not_false]
    tauto

/-- `validate_replace_target` accepts when the probe it takes passes its checks. -/
theorem validateReplaceTarget_passes_iff {snapshot : LsblkSnapshot} {disk partition role : String}
    {sectorSize : ℕ} :
    Passes (validateReplaceTarget snapshot disk partition role sectorSize) ↔
      ∃ probe, partitionProbeFromSnapshot snapshot disk partition sectorSize = .ok probe ∧
        Replaceable probe := by
  unfold validateReplaceTarget
  rw [passes_bind]
  refine exists_congr fun probe => and_congr_right fun _ => ?_
  unfold Replaceable
  rw [foreignDataReason_isNone _ _ "" role]
  by_cases hefi : probe.efi = true
  · simp [hefi]
  by_cases huse : (probe.current || probe.inUse || probe.readOnly) = true
  · simp [hefi, huse]
  by_cases hsize : probe.sizeBytes.toNat < minKythosBytes
  · simp [hefi, huse, hsize]
  cases foreignDataReason probe.fstype probe.label role with
  | none => simp [hefi, huse, hsize, not_lt.1 hsize]
  | some reason => simp [hefi, huse, hsize]

theorem partitionRecord_isSome {device : LsblkDevice} {name : String} (h : Matches name device) :
    ∃ record, partitionRecord device = some record ∧ record.name = name := by
  unfold partitionRecord
  simp only [h.1, h.2, ne_eq, not_true_eq_false, if_false, Option.bind_eq_bind, Option.bind_some,
    Option.some.injEq, exists_eq_left']

theorem partitionRecord_path {device : LsblkDevice} {record : PartitionRecord}
    (h : partitionRecord device = some record) : device.path = some record.name := by
  unfold partitionRecord at h
  split_ifs at h
  simp only [Option.bind_eq_bind, Option.bind_eq_some_iff] at h
  obtain ⟨name, hname, h⟩ := h
  cases h
  exact hname

theorem validSectorSize_eq_ok {sectorSize : ℕ} :
    validSectorSize sectorSize = .ok () ↔ supportedSectorSize sectorSize = true := by
  unfold validSectorSize
  split_ifs with h <;> simp [h]

/-- A named partition of a snapshot is offered when its own record is marked. -/
theorem UniqueNames.offered_iff {snapshot : LsblkSnapshot} {part : LsblkDevice} {name : String}
    {sectorSize : ℕ} {record : PartitionRecord} (h : UniqueNames snapshot)
    (hpart : part ∈ flattenAll snapshot.blockdevices) (hpath : part.path = some name)
    (hrecord : partitionRecord part = some record) :
    Offered snapshot sectorSize name ↔
      supportedSectorSize sectorSize = true ∧ record.alongsideCandidate = true := by
  unfold Offered parsePartitions
  constructor
  · rintro ⟨records, hrecords, found, hfound, hname, hmark⟩
    obtain ⟨⟨⟩, hsector, hok⟩ := bind_eq_ok.1 hrecords
    cases hok
    obtain ⟨other, hother, hsome⟩ := List.mem_filterMap.1 hfound
    have hsame : other = part :=
      h.eq_of_path hother hpart (hname ▸ partitionRecord_path hsome) hpath
    rw [hsame, hrecord] at hsome
    cases hsome
    exact ⟨validSectorSize_eq_ok.1 hsector, hmark⟩
  · rintro ⟨hsector, hmark⟩
    refine ⟨_, bind_eq_ok.2 ⟨(), validSectorSize_eq_ok.2 hsector, rfl⟩, record,
      List.mem_filterMap.2 ⟨part, hpart, hrecord⟩, ?_, hmark⟩
    exact Option.some.inj ((partitionRecord_path hrecord).symm.trans hpath)

/-- The probe of a partition below a disk is the one of its entry. -/
theorem UniqueNames.partitionProbe_eq {snapshot : LsblkSnapshot} {disk part : LsblkDevice}
    {diskPath partPath : String} {sectorSize : ℕ} {probe : PartitionProbe}
    (h : UniqueNames snapshot) (hdisk : disk ∈ snapshot.blockdevices)
    (htype : disk.deviceType = some "disk") (hdiskPath : disk.path = some diskPath)
    (hpart : part ∈ flattenAll disk.children) (hmatch : Matches partPath part)
    (hprobe : probeOf part = some probe) (hsector : supportedSectorSize sectorSize = true) :
    partitionProbeFromSnapshot snapshot diskPath partPath sectorSize = .ok probe := by
  obtain ⟨rawDisk, -, hrawDisk⟩ := Option.bind_eq_some_iff.1 hdiskPath
  obtain ⟨rawPart, -, hrawPart⟩ := Option.bind_eq_some_iff.1 hmatch.2
  have hfind := h.findPartition_eq hdisk hpart hmatch (hprobe ▸ rfl)
  unfold partitionProbeFromSnapshot
  rw [validSectorSize_eq_ok.2 hsector]
  simp only [normalizeDevicePath_normalized hrawDisk, normalizeDevicePath_normalized hrawPart,
    h.findDisk_eq hdisk htype hdiskPath, hfind, hprobe]
  rfl

/-- A partition with a number, below a disk of a snapshot whose entries have distinct names, is
offered as a replace target exactly when the check before the format accepts it. -/
theorem offered_iff_validateReplaceTarget (snapshot : LsblkSnapshot) (hnames : UniqueNames snapshot)
    (disk part : LsblkDevice) (diskPath partPath role : String) (sectorSize : ℕ)
    (hdisk : disk ∈ snapshot.blockdevices) (htype : disk.deviceType = some "disk")
    (hdiskPath : disk.path = some diskPath) (hpart : part ∈ flattenAll disk.children)
    (hpartType : part.deviceType = some "part") (hpartPath : part.path = some partPath)
    (hnumber : part.partn ≠ none) :
    Offered snapshot sectorSize partPath ↔
      Passes (validateReplaceTarget snapshot diskPath partPath role sectorSize) := by
  have hmatch : Matches partPath part := ⟨hpartType, hpartPath⟩
  have hmem : part ∈ flattenAll snapshot.blockdevices :=
    mem_flattenAll_of_mem hdisk (mem_flatten.2 (.inr hpart))
  obtain ⟨record, hrecord, -⟩ := partitionRecord_isSome hmatch
  obtain ⟨number, hnumber⟩ := Option.ne_none_iff_exists'.1 hnumber
  obtain ⟨probe, hprobe⟩ : ∃ probe, probeOf part = some probe := by
    unfold probeOf
    rw [hpartPath, hnumber]
    exact ⟨_, rfl⟩
  rw [hnames.offered_iff hmem hpartPath hrecord, alongsideCandidate_iff hrecord hprobe,
    validateReplaceTarget_passes_iff]
  constructor
  · rintro ⟨hsector, hok⟩
    exact ⟨probe, hnames.partitionProbe_eq hdisk htype hdiskPath hpart hmatch hprobe hsector, hok⟩
  · rintro ⟨found, hfound, hok⟩
    have hsector : supportedSectorSize sectorSize = true := by
      unfold partitionProbeFromSnapshot at hfound
      obtain ⟨⟨⟩, hvalid, -⟩ := bind_eq_ok.1 hfound
      exact validSectorSize_eq_ok.1 hvalid
    rw [hnames.partitionProbe_eq hdisk htype hdiskPath hpart hmatch hprobe hsector] at hfound
    cases hfound
    exact ⟨hsector, hok⟩

/-- A disk with one empty 64 GiB partition. -/
def emptyPartitionSnapshot : LsblkSnapshot where
  blockdevices := [{ name := some "/dev/sda", deviceType := some "disk"
                     children := [{ name := some "/dev/sda1", deviceType := some "part"
                                    partn := some 1, size := some (64 * 1024 * 1024 * 1024) }] }]

theorem empty_partition_offered :
    Passes (validateReplaceTarget emptyPartitionSnapshot "/dev/sda" "/dev/sda1" "partition" 512) ∧
      Offered emptyPartitionSnapshot 512 "/dev/sda1" := by
  have hok : Passes
      (validateReplaceTarget emptyPartitionSnapshot "/dev/sda" "/dev/sda1" "partition" 512) := by
    decide
  have hnames : UniqueNames emptyPartitionSnapshot := by
    unfold UniqueNames
    decide
  exact ⟨hok, (offered_iff_validateReplaceTarget emptyPartitionSnapshot hnames _ _ "/dev/sda"
    "/dev/sda1" "partition" 512 List.mem_cons_self rfl (by decide) List.mem_cons_self rfl
    (by decide) (by decide)).2 hok⟩

end Kyth.Storage

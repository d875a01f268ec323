import Kyth.Installer.Reversible

/-!
# The shape of the requests of a commit

`execute_operation` turns an operation into requests (`Constructs`), and `build_plan` refuses some
of them by their shape alone: table types, filesystem names, labels and the alignment of extents.
`validate` does not check all of this. `requests_accepted_iff` says which accepted journals the
planner accepts too, and `CommitReaches.asks_passes` carries this over to the executor.
-/

namespace Kyth.Journal

open Str Word Json Storage Disk Check
open Kyth.Action (Frame)

variable {w : World} {m m' m₀ : Machine} {journal : PartitionJournal} {k : ℕ}

/-! ### Requests -/

/-- A number and a partition UUID as `partuuid_of` returns them. -/
structure IsIdentity (number : UInt32) (expectedPartuuid : String) : Prop where
  number_ne_zero : number ≠ 0
  partuuid_safe : Passes (safePartuuid expectedPartuuid)

/-- The label that a `new_table` asks for. -/
def newLabel (params : Value) : String :=
  let tableType := valueString params "table_type"
  if tableType = "" then "gpt" else tableType

/-- The partition an operation names, among the partitions of the disk. -/
def targetSlot (slots : List Slot) (op : PartitionOperation) : Option Slot :=
  slots.find? fun slot => some slot.name = op.target

/-- The requests that `execute_operation` constructs for an operation on a disk with the given
partitions, whatever identities and names the machine reports. -/
inductive Constructs (disk : String) (sectorSize : ℕ) (slots : List Slot)
    (op : PartitionOperation) : DiskOperationInput → Prop
  | label (hkind : op.kind = .newTable) :
      Constructs disk sectorSize slots op (.createLabel disk (newLabel op.params))
  | biosBoot (hkind : op.kind = .newTable) (hgpt : asksGpt op.params = true) :
      Constructs disk sectorSize slots op (.createUnformattedPartition disk (1024 * 1024)
        (UInt64.ofNat biosBootBytes) "biosboot" sectorSize)
  | biosFlag (hkind : op.kind = .newTable) (hgpt : asksGpt op.params = true) {number : UInt32}
      {partuuid : String} (hid : IsIdentity number partuuid) :
      Constructs disk sectorSize slots op
        (.setPartitionFlag disk number "bios_grub" true partuuid)
  | partition (hkind : op.kind = .create) :
      Constructs disk sectorSize slots op (.createPartition disk
        (valueU64 op.params "start_bytes" 0) (valueU64 op.params "size_bytes" 0)
        (valueString op.params "fs_type") (valueString op.params "label") sectorSize)
  | filesystem (hkind : op.kind = .create)
      (hswap : valueString op.params "fs_type" ≠ "linux-swap") {created : String}
      (hcreated : Plan.normalizeDevicePath created = some created) :
      Constructs disk sectorSize slots op (.formatFilesystem created
        (valueString op.params "fs_type") (valueString op.params "label") disk)
  | espFlag (hkind : op.kind = .create ∨ op.kind = .setMountpoint)
      (hefi : isEfiMountpoint (valueString op.params "mountpoint") = true) {number : UInt32}
      {partuuid : String} (hid : IsIdentity number partuuid) :
      Constructs disk sectorSize slots op (.setPartitionFlag disk number "esp" true partuuid)
  | delete (hkind : op.kind = .delete) {number : UInt32} {partuuid : String}
      (hid : IsIdentity number partuuid) :
      Constructs disk sectorSize slots op (.deletePartition disk number partuuid)
  | shrink (hkind : op.kind = .resize) (hsize : valueU64 op.params "new_size_bytes" 0 ≠ 0)
      {slot : Slot} (hslot : targetSlot slots op = some slot) {requests : List DiskOperationInput}
      (hrequests : shrinkRequests (valueString op.params "partition")
        (toAsciiLowercase slot.fstype) (valueU64 op.params "new_size_bytes" 0) = .ok requests)
      {request : DiskOperationInput} (hrequest : request ∈ requests) :
      Constructs disk sectorSize slots op request
  | resize (hkind : op.kind = .resize) (hsize : valueU64 op.params "new_size_bytes" 0 ≠ 0)
      {slot : Slot} (hslot : targetSlot slots op = some slot)
      (hshrink : Passes (shrinkRequests (valueString op.params "partition")
        (toAsciiLowercase slot.fstype) (valueU64 op.params "new_size_bytes" 0)))
      {number : UInt32} {partuuid : String} (hid : IsIdentity number partuuid) :
      Constructs disk sectorSize slots op (.resizePartition disk number (UInt64.ofNat slot.start)
        (valueU64 op.params "new_size_bytes" 0) sectorSize partuuid)
  | format (hkind : op.kind = .format) :
      Constructs disk sectorSize slots op (.formatFilesystem (valueString op.params "partition")
        (valueString op.params "fs_type") (valueString op.params "label") disk)

/-! ### What the planner asks of them -/

/-- A multiple of 1 MiB. -/
def Aligned (n : ℕ) : Prop := n % partitionAlignBytes = 0

instance (n : ℕ) : Decidable (Aligned n) := inferInstanceAs (Decidable (_ = _))

/-- The filesystems that `shrink_filesystem` handles. -/
def isShrinkable (fs : String) : Prop := fs ∈ ["ntfs", "ntfs3", "ext2", "ext3", "ext4"]

instance (fs : String) : Decidable (isShrinkable fs) := inferInstanceAs (Decidable (_ ∈ _))

/-- A filesystem and a label that the planner knows how to make. -/
def Formattable (params : Value) : Prop :=
  isSupportedFilesystem (toAsciiLowercase (valueString params "fs_type")) ∧
    Passes (safeLabel (valueString params "label"))

/-- An operation whose requests have the shape the planner asks for, beyond what `validate`
checks. -/
def WellShaped (sectorSize : ℕ) (slots : List Slot) (op : PartitionOperation) : Prop :=
  match op.kind with
  | .newTable => toAsciiLowercase (valueString op.params "table_type") ≠ "dos"
  | .create => Formattable op.params ∧ Aligned (valueU64 op.params "start_bytes" 0).toNat ∧
      Aligned (valueU64 op.params "size_bytes" 0).toNat
  | .resize => ∀ slot, targetSlot slots op = some slot →
      isShrinkable (toAsciiLowercase slot.fstype) →
        slot.start % 2 ^ 64 ≠ 0 ∧ Aligned (slot.start % 2 ^ 64) ∧
          Aligned (valueU64 op.params "new_size_bytes" 0).toNat ∧
          slot.start % 2 ^ 64 + ((valueU64 op.params "new_size_bytes" 0).toNat - sectorSize) < 2 ^ 64
  | .format => Formattable op.params
  | _ => True

theorem partitionEnd_passes_iff {start size : UInt64} {sectorSize : ℕ}
    (hsector : supportedSectorSize sectorSize) :
    Passes (partitionEnd start size sectorSize) ↔
      start.toNat ≠ 0 ∧ size.toNat ≠ 0 ∧ Aligned start.toNat ∧ Aligned size.toNat ∧
        start.toNat + (size.toNat - sectorSize) < 2 ^ 64 := by
  rw [passes_partitionEnd hsector, Nat.dvd_iff_mod_eq_zero, Nat.dvd_iff_mod_eq_zero]
  unfold Aligned partitionAlignBytes
  omega

theorem partedDevice_passes {disk path : String} (hdisk : Plan.normalizeDevicePath disk = some path)
    (args : List String) (timeout : ℕ) : Passes (partedDevice disk args timeout) := by
  simp [partedDevice, requiredDevice_eq_ok _ hdisk]

/-- A table type that `validate` accepts is one of the two labels, or `dos`. -/
theorem createLabel_passes_iff {disk path : String} {params : Value}
    (hdisk : Plan.normalizeDevicePath disk = some path)
    (htable : tableErrors (requestedTable params) = []) :
    Passes (purePlan (.createLabel disk (newLabel params))) ↔
      toAsciiLowercase (valueString params "table_type") ≠ "dos" := by
  have hpure : Passes (purePlan (.createLabel disk (newLabel params))) ↔
      normalizedName (newLabel params) = "gpt" ∨ normalizedName (newLabel params) = "msdos" := by
    simp only [purePlan, buildPlan, throw_bind]
    rw [passes_ite_throw, iff_true_intro (partedDevice_passes hdisk _ _), and_true, not_and_or,
      not_not, not_not]
  rw [hpure]
  rw [tableErrors, complain_eq_nil, not_not] at htable
  unfold requestedTable tableName at htable
  unfold newLabel
  by_cases hempty : valueString params "table_type" = ""
  · rw [if_pos hempty, hempty]
    decide
  · simp only [if_neg hempty] at htable ⊢
    rw [normalizedName_valueString]
    generalize toAsciiLowercase (valueString params "table_type") = table at htable ⊢
    by_cases hdos : table = "dos"
    · subst hdos
      decide
    · rw [if_neg hdos] at htable
      simp only [List.mem_cons, List.not_mem_nil, or_false, hdos] at htable
      simp only [ne_eq, hdos, not_false_eq_true, iff_true]
      exact htable

theorem buildMkfsPlan_passes_iff {device path : String} {params : Value}
    (hdevice : Plan.normalizeDevicePath device = some path) :
    Passes (buildMkfsPlan device (valueString params "fs_type") (valueString params "label")) ↔
      Formattable params := by
  have hcommand : ∀ fs, isSupportedFilesystem fs ↔ mkfsCommand fs ≠ none := by
    intro fs
    unfold mkfsCommand isSupportedFilesystem
    split <;> simp_all
  simp only [buildMkfsPlan, passes_bind, requiredDevice_eq_ok _ hdevice, normalizedName_valueString,
    Formattable, hcommand]
  cases hfs : mkfsCommand (toAsciiLowercase (valueString params "fs_type")) with
  | none => simp
  | some command =>
    simp only [passes_pure, and_true, ne_eq, reduceCtorEq, not_false_eq_true, true_and]
    constructor
    · rintro ⟨device', -, label, hlabel⟩
      exact ⟨label, hlabel⟩
    · rintro ⟨label, hlabel⟩
      exact ⟨path, rfl, label, hlabel⟩

theorem formatFilesystem_passes_iff {device path disk diskPath : String} {params : Value}
    (hdevice : Plan.normalizeDevicePath device = some path)
    (hdisk : Plan.normalizeDevicePath disk = some diskPath) :
    Passes (purePlan (.formatFilesystem device (valueString params "fs_type")
      (valueString params "label") disk)) ↔ Formattable params := by
  simp only [purePlan, passes_bind_const, requiredDevice_eq_ok _ hdisk, passes_ok, true_and]
  exact buildMkfsPlan_passes_iff hdevice

theorem setPartitionFlag_passes {disk path flag partuuid : String} {number : UInt32}
    (hdisk : Plan.normalizeDevicePath disk = some path) (hid : IsIdentity number partuuid)
    (hflag : flag = "bios_grub" ∨ flag = "esp") :
    Passes (purePlan (.setPartitionFlag disk number flag true partuuid)) := by
  have hname : normalizedName flag = flag := by rcases hflag with rfl | rfl <;> decide
  have hnumber : ¬ number = 0 := hid.number_ne_zero
  have hknown : ¬ (flag ≠ "bios_grub" ∧ flag ≠ "esp") := by
    rintro ⟨hbios, hesp⟩
    exact hflag.elim hbios hesp
  simp only [purePlan, passes_bind_const, buildSetPartitionFlag, hname, hnumber, hknown, if_false]
  exact ⟨hid.partuuid_safe, partedDevice_passes hdisk _ _⟩

theorem deletePartition_passes {disk path partuuid : String} {number : UInt32}
    (hdisk : Plan.normalizeDevicePath disk = some path) (hid : IsIdentity number partuuid) :
    Passes (purePlan (.deletePartition disk number partuuid)) := by
  have hnumber : ¬ number = 0 := hid.number_ne_zero
  simp only [purePlan, passes_bind_const, buildDeletePartition, hnumber, if_false]
  exact ⟨hid.partuuid_safe, partedDevice_passes hdisk _ _⟩

theorem resizePartition_passes_iff {disk path partuuid : String} {number : UInt32}
    {start newSize : UInt64} {sectorSize : ℕ} (hdisk : Plan.normalizeDevicePath disk = some path)
    (hid : IsIdentity number partuuid) :
    Passes (purePlan (.resizePartition disk number start newSize sectorSize partuuid)) ↔
      Passes (partitionEnd start newSize sectorSize) := by
  have hnumber : ¬ number = 0 := hid.number_ne_zero
  have hparted : ∀ args timeout, Passes (interactivePartedDevice disk args timeout) := by
    intro args timeout
    simp [interactivePartedDevice, requiredDevice_eq_ok _ hdisk]
  simp only [purePlan]
  rw [passes_bind_const, buildResizePartition, if_neg hnumber, passes_bind]
  constructor
  · rintro ⟨-, stop, hstop, -⟩
    exact ⟨stop, hstop⟩
  · rintro ⟨stop, hstop⟩
    exact ⟨hid.partuuid_safe, stop, hstop, hparted _ _⟩

/-- The requests of a shrink pass wherever `shrink_filesystem` knows the filesystem. -/
theorem shrinkRequests_pass {partition path fs : String} {newSize : UInt64}
    {requests : List DiskOperationInput} (hpartition : Plan.normalizeDevicePath partition = some path)
    (hsize : newSize ≠ 0) (h : shrinkRequests partition fs newSize = .ok requests) :
    ∀ request ∈ requests, Passes (purePlan request) := by
  unfold shrinkRequests at h
  have hdevice := requiredDevice_eq_ok "filesystem device" hpartition
  split_ifs at h <;> cases h
  · intro request hrequest
    simp only [List.map_cons, List.map_nil, List.mem_cons, List.not_mem_nil, or_false] at hrequest
    rcases hrequest with rfl | rfl | rfl | rfl
    all_goals
      simp only [purePlan, buildPlan, buildFilesystemResize, hdevice, passes_bind, if_neg hsize]
      exact ⟨path, rfl, _, rfl⟩
  · intro request hrequest
    simp only [List.mem_cons, List.not_mem_nil, or_false] at hrequest
    rcases hrequest with rfl | rfl
    · simp [purePlan, buildPlan, hdevice]
    · simp only [purePlan, buildPlan, buildFilesystemResize, hdevice, passes_bind, if_neg hsize]
      exact ⟨path, rfl, _, rfl⟩

theorem shrinkRequests_passes_iff {partition fs : String} {newSize : UInt64} :
    Passes (shrinkRequests partition fs newSize) ↔ isShrinkable fs := by
  unfold shrinkRequests isShrinkable
  split_ifs with hntfs hext
  · rcases hntfs with rfl | rfl <;> simp
  · rcases hext with rfl | rfl | rfl <;> simp
  · simp only [not_passes_error, false_iff]
    simp only [List.mem_cons, List.not_mem_nil, or_false]
    tauto

theorem createPartition_passes_iff {disk path : String} {params : Value} {start size : UInt64}
    {sectorSize : ℕ} (hdisk : Plan.normalizeDevicePath disk = some path) :
    Passes (purePlan (.createPartition disk start size (valueString params "fs_type")
      (valueString params "label") sectorSize)) ↔
      Formattable params ∧ Passes (partitionEnd start size sectorSize) := by
  simp only [purePlan, buildPlan, throw_bind, normalizedName_valueString]
  rw [passes_ite_throw, not_not, passes_bind, Formattable, and_assoc]
  refine and_congr_right fun _ => ⟨?_, ?_⟩
  · rintro ⟨label, hlabel, hrest⟩
    obtain ⟨stop, hstop, -⟩ := passes_bind.1 hrest
    exact ⟨⟨label, hlabel⟩, stop, hstop⟩
  · rintro ⟨⟨label, hlabel⟩, stop, hstop⟩
    exact ⟨label, hlabel, passes_bind.2 ⟨stop, hstop, partedDevice_passes hdisk _ _⟩⟩

theorem biosBoot_passes {disk path : String} {sectorSize : ℕ}
    (hdisk : Plan.normalizeDevicePath disk = some path) (hsector : supportedSectorSize sectorSize) :
    Passes (purePlan (.createUnformattedPartition disk (1024 * 1024) (UInt64.ofNat biosBootBytes)
      "biosboot" sectorSize)) := by
  have hend : Passes (partitionEnd (1024 * 1024) (UInt64.ofNat biosBootBytes) sectorSize) := by
    refine (partitionEnd_passes_iff hsector).2 ⟨by decide, by decide, by decide, by decide, ?_⟩
    have hsize : (UInt64.ofNat biosBootBytes).toNat = 2097152 := by decide
    have hstart : (1024 * 1024 : UInt64).toNat = 1048576 := by decide
    omega
  obtain ⟨stop, hstop⟩ := hend
  simp only [purePlan, buildPlan]
  exact passes_bind.2 ⟨stop, hstop, passes_bind.2
    ⟨"biosboot", by decide, partedDevice_passes hdisk _ _⟩⟩

variable {ctx : ValidateContext} {s : ValidateState} {op : PartitionOperation} {slots : List Slot}
  {disk path : String} {sectorSize : ℕ}

theorem targetSlot_target {slot : Slot} (h : targetSlot slots op = some slot) :
    op.target = some slot.name := by
  have hfound := List.find?_some h
  exact (of_decide_eq_true hfound).symm

/-- An accepted `create` starts after byte 0, is not empty and ends before `2 ^ 64`. -/
theorem createSpan_of_stepAccepted {allocated : StringMap Region} (hkind : op.kind = .create)
    (h : StepAccepted ctx s op allocated) :
    (valueU64 op.params "start_bytes" 0).toNat ≠ 0 ∧
      (valueU64 op.params "size_bytes" 0).toNat ≠ 0 ∧
      (valueU64 op.params "start_bytes" 0).toNat + (valueU64 op.params "size_bytes" 0).toNat <
        2 ^ 64 := by
  cases h with
  | create _ h =>
    have hstart := valueU64_of_valueI64 (h.start_eq ▸ h.start_pos)
    have hsize := valueU64_of_valueI64 (h.size_eq ▸ h.size_pos)
    have := h.start_pos
    have := h.size_pos
    have := h.start_lt
    have := h.size_lt
    rw [h.start_eq] at hstart
    rw [h.size_eq] at hsize
    omega
  | _ => simp_all

/-- An accepted `resize` asks for some bytes. -/
theorem newSize_of_stepAccepted {allocated : StringMap Region} (hkind : op.kind = .resize)
    (h : StepAccepted ctx s op allocated) :
    (valueU64 op.params "new_size_bytes" 0).toNat ≠ 0 := by
  cases h with
  | resize _ _ _ h =>
    have hsize := valueU64_of_valueI64 (h.newSize_eq ▸ h.newSize_pos)
    have := h.newSize_pos
    rw [h.newSize_eq] at hsize
    omega
  | _ => simp_all

/-- An accepted `format` names a partition. -/
theorem target_of_stepAccepted {allocated : StringMap Region} (hkind : op.kind = .format)
    (h : StepAccepted ctx s op allocated) : ∃ partition, op.target = some partition := by
  cases h with
  | format _ htarget _ => exact ⟨_, htarget⟩
  | _ => simp_all

/-- The table type of an accepted `new_table` is known. -/
theorem tableErrors_of_stepErrors (hkind : op.kind = .newTable) (h : stepErrors ctx s op = []) :
    tableErrors (requestedTable op.params) = [] := by
  have hother : ¬ isSuperseded ctx op := fun hsuperseded => by
    rw [hsuperseded.1] at hkind
    cases hkind
  rw [stepErrors, if_neg hother, hkind] at h
  exact h

theorem create_end_passes_iff (hsector : supportedSectorSize sectorSize)
    {allocated : StringMap Region} (hkind : op.kind = .create)
    (hstep : StepAccepted ctx s op allocated) :
    Passes (partitionEnd (valueU64 op.params "start_bytes" 0) (valueU64 op.params "size_bytes" 0)
        sectorSize) ↔
      Aligned (valueU64 op.params "start_bytes" 0).toNat ∧
        Aligned (valueU64 op.params "size_bytes" 0).toNat := by
  obtain ⟨hstart, hsize, hbound⟩ := createSpan_of_stepAccepted hkind hstep
  rw [partitionEnd_passes_iff hsector]
  exact ⟨fun h => ⟨h.2.2.1, h.2.2.2.1⟩, fun h => ⟨hstart, hsize, h.1, h.2, by omega⟩⟩

theorem resize_end_passes_iff (hsector : supportedSectorSize sectorSize)
    {allocated : StringMap Region} (hkind : op.kind = .resize)
    (hstep : StepAccepted ctx s op allocated) (slot : Slot) :
    Passes (partitionEnd (UInt64.ofNat slot.start) (valueU64 op.params "new_size_bytes" 0)
        sectorSize) ↔
      slot.start % 2 ^ 64 ≠ 0 ∧ Aligned (slot.start % 2 ^ 64) ∧
        Aligned (valueU64 op.params "new_size_bytes" 0).toNat ∧ slot.start % 2 ^ 64 +
          ((valueU64 op.params "new_size_bytes" 0).toNat - sectorSize) < 2 ^ 64 := by
  have hsize := newSize_of_stepAccepted hkind hstep
  rw [partitionEnd_passes_iff hsector, UInt64.toNat_ofNat']
  exact ⟨fun h => ⟨h.1, h.2.2⟩, fun h => ⟨h.1, hsize, h.2⟩⟩

/-- An operation whose requests all pass is well shaped. -/
theorem wellShaped_of_passes (hdisk : Plan.normalizeDevicePath disk = some path)
    (hsector : supportedSectorSize sectorSize) (haccepted : stepErrors ctx s op = [])
    (h : ∀ input, Constructs disk sectorSize slots op input → Passes (purePlan input)) :
    WellShaped sectorSize slots op := by
  have hstep := stepAccepted haccepted
  unfold WellShaped
  cases hkind : op.kind with
  | newTable =>
    exact (createLabel_passes_iff hdisk (tableErrors_of_stepErrors hkind haccepted)).1
      (h _ (.label hkind))
  | create =>
    obtain ⟨hformat, hend⟩ := (createPartition_passes_iff hdisk).1 (h _ (.partition hkind))
    exact ⟨hformat, (create_end_passes_iff hsector hkind hstep).1 hend⟩
  | resize =>
    intro slot hslot hshrinkable
    have hsize : valueU64 op.params "new_size_bytes" 0 ≠ 0 := fun hzero =>
      newSize_of_stepAccepted hkind hstep (congrArg UInt64.toNat hzero)
    have hid : IsIdentity 1 "0" := ⟨by decide, by decide⟩
    have hend := (resizePartition_passes_iff hdisk hid).1
      (h _ (.resize hkind hsize hslot (shrinkRequests_passes_iff.2 hshrinkable) hid))
    exact (resize_end_passes_iff hsector hkind hstep slot).1 hend
  | format =>
    obtain ⟨partition, htarget⟩ := target_of_stepAccepted hkind hstep
    exact (formatFilesystem_passes_iff htarget hdisk).1 (h _ (.format hkind))
  | _ => trivial

/-- The requests of a well shaped operation all pass. -/
theorem Constructs.passes (hdisk : Plan.normalizeDevicePath disk = some path)
    (hsector : supportedSectorSize sectorSize) (haccepted : stepErrors ctx s op = [])
    (hshape : WellShaped sectorSize slots op) {input : DiskOperationInput}
    (h : Constructs disk sectorSize slots op input) : Passes (purePlan input) := by
  have hstep := stepAccepted haccepted
  unfold WellShaped at hshape
  cases h with
  | label hkind =>
    rw [hkind] at hshape
    exact (createLabel_passes_iff hdisk (tableErrors_of_stepErrors hkind haccepted)).2 hshape
  | biosBoot => exact biosBoot_passes hdisk hsector
  | biosFlag _ _ hid => exact setPartitionFlag_passes hdisk hid (.inl rfl)
  | partition hkind =>
    rw [hkind] at hshape
    exact (createPartition_passes_iff hdisk).2
      ⟨hshape.1, (create_end_passes_iff hsector hkind hstep).2 hshape.2⟩
  | filesystem hkind _ hcreated =>
    rw [hkind] at hshape
    exact (formatFilesystem_passes_iff hcreated hdisk).2 hshape.1
  | espFlag _ _ hid => exact setPartitionFlag_passes hdisk hid (.inr rfl)
  | delete _ hid => exact deletePartition_passes hdisk hid
  | shrink _ hsize hslot hrequests hrequest =>
    exact shrinkRequests_pass (targetSlot_target hslot) hsize hrequests _ hrequest
  | @resize hkind _ slot hslot hshrink _ _ hid =>
    rw [hkind] at hshape
    have hend := hshape slot hslot (shrinkRequests_passes_iff.1 hshrink)
    exact (resizePartition_passes_iff hdisk hid).2
      ((resize_end_passes_iff hsector hkind hstep slot).2 hend)
  | format hkind =>
    rw [hkind] at hshape
    obtain ⟨partition, htarget⟩ := target_of_stepAccepted hkind hstep
    exact (formatFilesystem_passes_iff htarget hdisk).2 hshape

variable {parts : List PartitionRecord} {tableType : String} {diskSizeBytes : UInt64}

/-- Shrink the partition to 512 MiB and one sector. -/
def shrinkHome : PartitionOperation where
  kind := .resize
  params := .object [("partition", .string "/dev/sda2"), ("new_size_bytes", .nat 0x20000200),
    ("gpt_backup_path", .string "/mnt/usb/table.gpt"), ("on_ac_power", .bool true)]
  index := 0

/-- The partition UUIDs that `lsblk` lists consist of hexadecimal digits and dashes. -/
def World.SafeIdentities (w : World) : Prop :=
  ∀ (m : Machine) (disk : String) (number : UInt32) (partuuid : String),
    partuuidForPartitionNumber (w.lsblk m (some disk) "NAME,TYPE,PARTN,PARTUUID") disk number =
      .ok partuuid → Passes (safePartuuid partuuid)

/-- A step whose requests all satisfy a predicate. -/
def Asks (P : DiskOperationInput → Prop) (m m' : Machine) : Prop :=
  ∃ l, m'.requested = l ++ m.requested ∧ ∀ input ∈ l, P input

variable {P : DiskOperationInput → Prop}

instance : Std.Refl (Asks P) := ⟨fun _ => ⟨[], rfl, by simp⟩⟩

instance : IsTrans Machine (Asks P) where
  trans m m' m'' h h' := by
    obtain ⟨l, hl, hP⟩ := h
    obtain ⟨l', hl', hP'⟩ := h'
    refine ⟨l' ++ l, by rw [hl', hl, List.append_assoc], fun input hinput => ?_⟩
    rcases List.mem_append.1 hinput with hinput | hinput
    · exact hP' input hinput
    · exact hP input hinput

theorem asks_call (m : Machine) : Asks P m { m with clock := m.clock + 1 } := ⟨[], rfl, by simp⟩

theorem runDiskOperation_asks {operation : DiskOperationInput} (h : P operation) :
    Frame (Asks P) (runDiskOperation w operation) :=
  runDiskOperation_frame asks_call (fun _ => ⟨[operation], rfl, by simpa using h⟩)
    (fun _ _ _ => ⟨[], rfl, by simp⟩) (fun _ => ⟨[], rfl, by simp⟩)

/-- What `partuuid_of` returns is an identity. -/
theorem partuuidOf_isIdentity (hw : w.SafeIdentities) {number : UInt32} {partuuid : String}
    (h : partuuidOf w disk number m = (.ok partuuid, m')) : IsIdentity number partuuid := by
  simp only [partuuidOf] at h
  obtain ⟨⟨⟩, m₁, -, h⟩ := Action.bind_eq_ok.1 h
  obtain ⟨m₂, m₃, hget, h⟩ := Action.bind_eq_ok.1 h
  cases hget
  obtain ⟨hfound, -⟩ := Prod.mk.inj h
  refine ⟨?_, hw _ _ _ _ hfound⟩
  rintro rfl
  unfold partuuidForPartitionNumber at hfound
  split at hfound
  · cases hfound
  · rw [if_pos rfl] at hfound
    cases hfound

theorem setFlag_asks (hw : w.SafeIdentities) {partition flag : String}
    (h : ∀ number partuuid, IsIdentity number partuuid →
      P (.setPartitionFlag disk number flag true partuuid)) :
    Frame (Asks P) (setFlag w disk partition flag) :=
  Frame.bind (runtimePartitions_frame asks_call) fun _ => Frame.bind (Frame.check _) fun number =>
    Frame.bind_of (partuuidOf_frame asks_call) (partuuidOf_isIdentity hw) fun partuuid hid =>
    runDiskOperation_asks (h number partuuid hid)

section Operations

variable (hw : w.SafeIdentities)

include hw

theorem executeNewTable_asks (hkind : op.kind = .newTable) :
    Frame (Asks (Constructs disk sectorSize slots op))
      (executeNewTable w disk sectorSize op.params) := by
  refine Frame.bind (runDiskOperation_asks (.label hkind)) fun _ => Frame.ite_of (fun hgpt => ?_)
    fun _ => Frame.pure _
  exact Frame.bind (runtimePartitions_frame asks_call) fun _ =>
    Frame.bind (runDiskOperation_asks (.biosBoot hkind hgpt)) fun _ =>
    Frame.bind (findNewPartition_frame asks_call) fun _ =>
    Frame.bind (setFlag_asks hw fun _ _ hid => .biosFlag hkind hgpt hid) fun _ => Frame.pure _

theorem executeCreate_asks (hkind : op.kind = .create) {before : StringMap UInt32} :
    Frame (Along (Asks (Constructs disk sectorSize slots op)))
      (executeCreate w disk sectorSize op.params before) := by
  refine Frame.bind (onMachine_frame (runDiskOperation_asks (.partition hkind))) fun _ => ?_
  refine Frame.bind_of (onMachine_frame (findNewPartition_frame asks_call))
    (fun h => normalizeDevicePath_of_mem_newPartitions _
      (findNewPartition_eq_ok (onMachine_eq_ok h).1).2) fun created hcreated => ?_
  refine Frame.bind (Frame.modify fun r => refl_of (Asks _) r.machine) fun _ => ?_
  have hflag : Frame (Along (Asks (Constructs disk sectorSize slots op)))
      (if isEfiMountpoint (valueString op.params "mountpoint") then do
        onMachine (setFlag w disk created "esp")
        pure created
      else pure created : RunExec String) :=
    Frame.ite_of (fun hefi => Frame.bind (onMachine_frame (setFlag_asks hw fun _ _ hid =>
      .espFlag (.inl hkind) hefi hid)) fun _ => Frame.pure _) fun _ => Frame.pure _
  exact Frame.ite_of (fun hswap => Frame.bind
    (onMachine_frame (runDiskOperation_asks (.filesystem hkind hswap hcreated))) fun _ => hflag)
    fun _ => hflag

theorem executeDelete_asks (hkind : op.kind = .delete) {target : String}
    {before : StringMap UInt32} :
    Frame (Asks (Constructs disk sectorSize slots op)) (executeDelete w disk target before) :=
  Frame.bind (Frame.check _) fun _ =>
    Frame.bind_of (partuuidOf_frame asks_call) (partuuidOf_isIdentity hw) fun _ hid =>
    Frame.bind (runDiskOperation_asks (.delete hkind hid)) fun _ => Frame.pure _

theorem executeSetMountpoint_asks (hkind : op.kind = .setMountpoint) {target : String}
    {before : StringMap UInt32} :
    Frame (Asks (Constructs disk sectorSize slots op))
      (executeSetMountpoint w disk target op.params before) :=
  Frame.bind (Frame.check _) fun _ =>
    Frame.bind_of (partuuidOf_frame asks_call) (partuuidOf_isIdentity hw) fun _ hid =>
    Frame.ite_of (fun hefi => Frame.bind
      (runDiskOperation_asks (.espFlag (.inr hkind) hefi hid)) fun _ => Frame.pure _)
      fun _ => Frame.pure _

end Operations

theorem executeFormat_asks (hkind : op.kind = .format) :
    Frame (Along (Asks (Constructs journal.disk sectorSize slots op)))
      (executeFormat w journal (valueString op.params "partition") op.params) := by
  refine Frame.ite (Frame.bind (Frame.modify fun r => refl_of (Asks _) r.machine) fun _ => ?_) ?_
  all_goals
    exact Frame.bind (onMachine_frame (runDiskOperation_asks (.format hkind))) fun _ => Frame.pure _

/-- The record of the target in a listing is that of the slot. -/
theorem find?_liveRecord {partition : String} (htarget : op.target = some partition) :
    (slots.map (liveRecord w)).find? (fun part => part.name = partition) =
      (targetSlot slots op).map (liveRecord w) := by
  have hname : (fun part : PartitionRecord => decide (part.name = partition)) ∘ liveRecord w =
      fun slot => decide (some slot.name = some partition) := by
    funext slot
    exact decide_eq_decide.2 (by simp only [liveRecord, Option.some.injEq])
  rw [targetSlot, htarget, List.find?_map, hname]

theorem currentFs_eq_ok {fs : String}
    (h : currentFs (valueString op.params "partition") (slots.map (liveRecord w)) = .ok fs) :
    ∃ slot, targetSlot slots op = some slot ∧ fs = toAsciiLowercase slot.fstype := by
  unfold currentFs at h
  split at h
  · cases h
  · rename_i partition htarget
    rw [find?_liveRecord htarget] at h
    cases hslot : targetSlot slots op with
    | none => rw [hslot] at h; cases h
    | some slot =>
      simp only [hslot, Option.map_some] at h
      split_ifs at h
      cases h
      exact ⟨slot, rfl, rfl⟩

theorem liveStart_eq_ok {start : UInt64} {slot : Slot} (hslot : targetSlot slots op = some slot)
    (h : liveStart (valueString op.params "partition") (slots.map (liveRecord w)) = .ok start) :
    start = UInt64.ofNat slot.start := by
  have htarget : Plan.normalizeDevicePath (valueString op.params "partition") = some slot.name :=
    targetSlot_target hslot
  unfold liveStart at h
  rw [htarget, Option.getD_some, find?_liveRecord (targetSlot_target hslot), hslot] at h
  cases h
  rfl

theorem shrinkAndResize_asks (hw : w.SafeIdentities) (hkind : op.kind = .resize)
    (hzero : valueU64 op.params "new_size_bytes" 0 ≠ 0) {slot : Slot}
    (hslot : targetSlot slots op = some slot) :
    Frame (Along (Asks (Constructs disk sectorSize slots op)))
      (shrinkAndResize w disk (valueString op.params "partition") (toAsciiLowercase slot.fstype)
        (UInt64.ofNat slot.start) (valueU64 op.params "new_size_bytes" 0) sectorSize) := by
  have hshrink : Frame (Asks (Constructs disk sectorSize slots op))
      (shrinkFilesystem w (valueString op.params "partition") (toAsciiLowercase slot.fstype)
        (valueU64 op.params "new_size_bytes" 0)) :=
    Frame.check_bind fun requests hrequests => Frame.forM fun request hrequest =>
      runDiskOperation_asks (.shrink hkind hzero hslot hrequests hrequest)
  have hknown : ∀ {r : Run} {u : Unit} {r' : Run}, onMachine (shrinkFilesystem w
      (valueString op.params "partition") (toAsciiLowercase slot.fstype)
      (valueU64 op.params "new_size_bytes" 0)) r = (.ok u, r') →
      Passes (shrinkRequests (valueString op.params "partition") (toAsciiLowercase slot.fstype)
        (valueU64 op.params "new_size_bytes" 0)) := by
    intro r u r' h
    obtain ⟨requests, m₁, hrequests, -⟩ := Action.bind_eq_ok.1 (onMachine_eq_ok h).1
    exact ⟨requests, (Prod.mk.inj hrequests).1⟩
  refine Frame.bind_of (onMachine_frame hshrink) hknown fun _ hpasses => ?_
  exact Frame.bind (Frame.modify fun r => refl_of (Asks _) r.machine) fun _ =>
    Frame.bind (onMachine_frame (runtimePartitions_frame asks_call)) fun _ =>
    Frame.bind (Frame.check _) fun _ =>
    Frame.bind_of (onMachine_frame (partuuidOf_frame asks_call))
      (fun h => partuuidOf_isIdentity hw (onMachine_eq_ok h).1) fun _ hid =>
    Frame.bind (onMachine_frame (runDiskOperation_asks (.resize hkind hzero hslot hpasses hid)))
      fun _ => Frame.pure _

theorem executeResize_asks (hw : w.SafeIdentities) (hkind : op.kind = .resize) (r : Run) :
    Along (Asks (Constructs disk sectorSize r.machine.slots op)) r
      (executeResize w disk (valueString op.params "partition") sectorSize op.params r).2 := by
  by_cases hzero : valueU64 op.params "new_size_bytes" 0 = 0
  · have hthrow : Frame (Along (Asks (Constructs disk sectorSize r.machine.slots op)))
        (executeResize w disk (valueString op.params "partition") sectorSize op.params) := by
      rw [executeResize, if_pos hzero]
      exact Frame.throw _
    exact hthrow r
  · rw [executeResize, if_neg hzero]
    refine Frame.bind_at (onMachine_frame (runtimePartitionRecords_frame asks_call))
      fun records r₁ hrecords => ?_
    have hlive := runtimePartitionRecords_eq_ok (onMachine_eq_ok hrecords).1
    have hrest : Frame (Along (Asks (Constructs disk sectorSize r.machine.slots op))) (do
        let fs ← Action.check (currentFs (valueString op.params "partition") records)
        let start ← Action.check (liveStart (valueString op.params "partition") records)
        shrinkAndResize w disk (valueString op.params "partition") fs start
          (valueU64 op.params "new_size_bytes" 0) sectorSize : RunExec String) := by
      refine Frame.check_bind fun fs hfs => Frame.check_bind fun start hstart => ?_
      rw [hlive] at hfs hstart
      obtain ⟨slot, hslot, rfl⟩ := currentFs_eq_ok hfs
      cases liveStart_eq_ok hslot hstart
      exact shrinkAndResize_asks hw hkind hzero hslot
    exact hrest r₁

/-- Every request of `execute_operation` is one that the operation constructs. -/
theorem executeOperation_asks (hw : w.SafeIdentities) {r : Run} (hparams : r.params = op.params) :
    Along (Asks (Constructs journal.disk sectorSize r.machine.slots op)) r
      (executeOperation w journal sectorSize op.kind r).2 := by
  simp only [executeOperation]
  refine Frame.bind_at Frame.get fun r₀ r₁ hget => ?_
  cases hget
  refine Frame.bind_at (onMachine_frame (runtimePartitions_frame asks_call))
    fun before r₁ hbefore => ?_
  have hslots : r₁.machine.slots = r.machine.slots :=
    Still.slots ((runtimePartitions_frame still_call).of_eq (onMachine_eq_ok hbefore).1)
  rw [hparams]
  cases hkind : op.kind with
  | newTable => exact onMachine_frame (executeNewTable_asks hw hkind) r₁
  | create => exact executeCreate_asks hw hkind r₁
  | delete => exact onMachine_frame (executeDelete_asks hw hkind) r₁
  | resize =>
    rw [← hslots]
    exact executeResize_asks hw hkind r₁
  | format => exact executeFormat_asks hkind r₁
  | setMountpoint => exact onMachine_frame (executeSetMountpoint_asks hw hkind) r₁
  | other name => exact refl_of (Asks _) r₁.machine

/-- Every request of a turn of the loop is one that its operation constructs. -/
theorem executeAt_asks (hw : w.SafeIdentities) {s s' : CommitState} {out : Except String String}
    (hop : s.journal.ops[k]? = some op) (h : executeAt w sectorSize k s = (out, s')) :
    Asks (Constructs s.journal.disk sectorSize s.machine.slots op) s.machine s'.machine := by
  unfold executeAt at h
  rw [hop] at h
  obtain ⟨-, rfl⟩ := Prod.mk.inj h
  have hrun : Along (Asks (Constructs s.journal.disk sectorSize s.machine.slots op))
      ⟨s.machine, s.irreversible, op.params⟩ (executeOperation w s.journal sectorSize op.kind
        ⟨s.machine, s.irreversible, op.params⟩).2 :=
    executeOperation_asks hw rfl
  exact hrun

variable {guard : Except String Unit} {staged backupPath : String}

/-- Every request of a well shaped operation of a commit passes the planner, however the operation
ends. -/
theorem CommitReaches.asks_passes (hw : w.SafeIdentities) {s s' : CommitState}
    {out : Except String String} (h : CommitReaches w guard staged backupPath journal m₀ k s)
    (hop : journal.ops[k]? = some op) (hshape : WellShaped w.sectorSize s.machine.slots op)
    (hrun : executeAt w w.sectorSize k s = (out, s')) :
    Asks (fun input => Passes (purePlan input)) s.machine s'.machine := by
  obtain ⟨m₁, hprepared, hreaches⟩ := h
  obtain ⟨hdisk, hsector, haccepted⟩ := prepareCommit_eq_ok_nil hprepared
  obtain ⟨path, hpath⟩ := Option.isSome_iff_exists.1 hdisk
  obtain ⟨-, hvalid, -, -⟩ := validate_eq_nil haccepted
  obtain ⟨hjournal, hops⟩ := hreaches.journal_eq
  have hsplit : journal.ops = journal.ops.take k ++ op :: journal.ops.drop (k + 1) := by
    obtain ⟨hk, hget⟩ := List.getElem?_eq_some_iff.1 hop
    rw [← hget, ← List.drop_eq_getElem_cons hk, List.take_append_drop]
  obtain ⟨l, hl, hconstructs⟩ := executeAt_asks hw ((hops k le_rfl).trans hop) hrun
  refine ⟨l, hl, fun input hinput => ?_⟩
  have hinput' := hconstructs input hinput
  rw [hjournal] at hinput'
  exact hinput'.passes hpath hsector (stepErrors_eq_nil hvalid hsplit) hshape

end Kyth.Journal

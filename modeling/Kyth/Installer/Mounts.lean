import Kyth.Installer.Commit

/-!
# Mount points of a journal

A journal also says where its partitions go: a `create` may carry a mount point and `set_mountpoint`
gives one to a partition of the disk. `Placed` is a layout together with the mount points of its
partitions, under the names the kernel gave them, and `Executes` runs a list of operations on it. It
also keeps the operations as they stand in the journal afterwards, with the names filled in.

`validate` checks a mount point against the filesystem when it is given. `mounts_suit_iff` says when
the filesystems still suit the mount points at the end.
-/

namespace Kyth.Journal

open Str Word Json Storage

/-- A disk with the mount points of its partitions. -/
structure Placed where
  layout : Layout
  mounts : StringMap String := ∅

/-- The disk of a snapshot. -/
def initialPlaced (parts : List PartitionRecord) : Placed where
  layout := initialLayout parts

/-- The mount point that a `set_mountpoint` gives to a partition with a filesystem. -/
def mountOn (fstype : String) (params : Value) : String :=
  setMount { start := 0, stop := 0, fstype } params

/-- The mount points with one given to a partition, or with the one it had taken away. -/
def assignMount (mounts : StringMap String) (partition mount : String) : StringMap String :=
  if mount = "" then mounts.erase partition else mounts.insert partition mount

/-- The mount points after an operation, with the name the kernel gives to a new partition. -/
def mountsAfter (name : String) (placed : Placed) (op : PartitionOperation) : StringMap String :=
  match op.kind, op.target with
  | .newTable, _ => ∅
  | .create, _ => assignMount placed.mounts name (createMount op.params)
  | .delete, some partition => placed.mounts.erase partition
  | .setMountpoint, some partition =>
      match placed.layout.find? fun e => decide (e.name = partition) with
      | some e => assignMount placed.mounts partition (mountOn e.fstype op.params)
      | none => placed.mounts
  | _, _ => placed.mounts

/-- The disk after an operation. -/
def Placed.after (name : String) (placed : Placed) (op : PartitionOperation) : Placed where
  layout := applyOperation name placed.layout op
  mounts := mountsAfter name placed op

/-- An operation as it stands in the journal after it ran. -/
def executedOp (name : String) (op : PartitionOperation) : PartitionOperation :=
  if op.kind = .create then { op with params := markCreated op.params name } else op

/-- A run of operations. The kernel gives every new partition a name that is not in the table. -/
inductive Executes (start : Placed) :
    List PartitionOperation → Placed → List PartitionOperation → Prop
  | nil : Executes start [] start []
  | snoc {ops done : List PartitionOperation} {placed : Placed} (h : Executes start ops placed done)
      {name : String} (hname : name ∉ placed.layout.names)
      (hdevice : Plan.normalizeDevicePath name = some name) (op : PartitionOperation) :
      Executes start (ops ++ [op]) (placed.after name op) (done ++ [executedOp name op])

/-- A filesystem that suits a mount point: Btrfs for the root, FAT for the EFI system partition, and
for the others one that the installer can mount. -/
def Suits (mount fstype : String) : Prop :=
  if mount = "/" then fstype = "btrfs"
  else if mount = "/boot/efi" then mountFilesystem fstype = "fat32"
  else mountFilesystem fstype ∈ ["btrfs", "ext4", "xfs", "linux-swap"]

instance (mount fstype : String) : Decidable (Suits mount fstype) :=
  inferInstanceAs (Decidable (ite (mount = "/") _ _))

-- elaboration would otherwise compare the strings of every term of this type
attribute [irreducible] Suits

/-- Every partition with a mount point has a filesystem that suits it. -/
def Placed.Suited (placed : Placed) : Prop :=
  ∀ e ∈ placed.layout, ∀ mount, placed.mounts.lookup e.name = some mount → Suits mount e.fstype

/-- An operation that deletes or formats a partition, or gives it a mount point. -/
def PartitionOperation.Touches (op : PartitionOperation) (partition : String) : Prop :=
  op.kind = .newTable ∨
    (op.kind = .delete ∨ op.kind = .format ∨ op.kind = .setMountpoint) ∧ op.target = some partition

/-- The last word on a partition is a `format` whose filesystem does not suit its mount point. -/
def FormatSpoils (mounts : StringMap String) (op : PartitionOperation)
    (later : List PartitionOperation) : Prop :=
  op.kind = .format ∧ ∃ partition mount, op.target = some partition ∧
    mounts.lookup partition = some mount ∧
    ¬ Suits mount (probedFstype (valueString op.params "fs_type")) ∧
    ∀ op' ∈ later, ¬ op'.Touches partition

/-- A swap partition with a mount point that stays, on which nothing makes the swap area. -/
def SwapSpoils (op : PartitionOperation) (later : List PartitionOperation) : Prop :=
  op.kind = .create ∧ valueString op.params "fs_type" = "linux-swap" ∧ createMount op.params ≠ "" ∧
    ∀ op' ∈ later, op'.kind ≠ .newTable

/-! ### The layout of a run -/

variable {ctx : ValidateContext} {s : ValidateState} {start placed : Placed}
  {ops done before after : List PartitionOperation} {op : PartitionOperation} {name : String}

theorem Executes.produces (h : Executes start ops placed done) :
    Produces start.layout ops placed.layout := by
  induction h with
  | nil => exact .nil _
  | snoc h hname _ op ih => exact ih.snoc hname op

/-- A run that ends with an operation is a run up to it and the operation. -/
theorem Executes.concat_inv {ops' : List PartitionOperation} (h : Executes start ops' placed done)
    (hops : ops' = ops ++ [op]) :
    ∃ placed' done' name, Executes start ops placed' done' ∧ name ∉ placed'.layout.names ∧
      Plan.normalizeDevicePath name = some name ∧ placed = placed'.after name op ∧
      done = done' ++ [executedOp name op] := by
  cases h with
  | nil => simp at hops
  | snoc h hname hdevice op' =>
    obtain ⟨rfl, hop⟩ := List.append_inj' hops rfl
    cases hop
    exact ⟨_, _, _, h, hname, hdevice, rfl, rfl⟩

/-! ### Mount points and filesystems -/

theorem lookup_assignMount_self (mounts : StringMap String) (partition mount : String) :
    (assignMount mounts partition mount).lookup partition =
      if mount = "" then none else some mount := by
  unfold assignMount
  split_ifs
  · exact AList.lookup_erase _ _
  · exact AList.lookup_insert _

theorem lookup_assignMount_ne {mounts : StringMap String} {partition other mount : String}
    (h : other ≠ partition) :
    (assignMount mounts partition mount).lookup other = mounts.lookup other := by
  unfold assignMount
  split_ifs
  · exact AList.lookup_erase_ne h
  · exact AList.lookup_insert_ne h

/-- Two spellings of a filesystem that every check reads alike. -/
structure SameFs (fstype fstype' : String) : Prop where
  mount : mountFilesystem fstype = mountFilesystem fstype'
  btrfs : fstype = "btrfs" ↔ fstype' = "btrfs"

theorem SameFs.suits {fstype fstype' mount : String} (h : SameFs fstype fstype') :
    Suits mount fstype ↔ Suits mount fstype' := by
  unfold Suits
  rw [h.mount, h.btrfs]

theorem SameFs.validatedMountpoint {fstype fstype' : String} (h : SameFs fstype fstype')
    (raw : String) :
    Journal.validatedMountpoint raw fstype = Journal.validatedMountpoint raw fstype' := by
  unfold Journal.validatedMountpoint
  rw [h.mount]

theorem SameFs.mountOn {fstype fstype' : String} (h : SameFs fstype fstype') (params : Value) :
    Journal.mountOn fstype params = Journal.mountOn fstype' params := by
  unfold Journal.mountOn setMount
  rw [h.validatedMountpoint]

/-- What `validate` files for a new filesystem reads like what a probe reports. -/
theorem sameFs_probed (params : Value) :
    SameFs (toAsciiLowercase (valueString params "fs_type"))
      (probedFstype (valueString params "fs_type")) := by
  unfold probedFstype
  rw [normalizedName_valueString]
  have hidem := toAsciiLowercase_idem (valueString params "fs_type")
  generalize toAsciiLowercase (valueString params "fs_type") = fs at hidem ⊢
  split
  · exact ⟨by decide, by decide⟩
  · exact ⟨by decide, by decide⟩
  · exact ⟨rfl, Iff.rfl⟩

/-! ### One accepted operation -/

/-- What an accepted operation does to the picture of `validate`. -/
inductive Stepped (ctx : ValidateContext) (s : ValidateState) (op : PartitionOperation) :
    ValidateState → Prop
  | newTable (hkind : op.kind = .newTable) : Stepped ctx s op (newTableState op.params)
  | create (hkind : op.kind = .create) (h : createErrors ctx s op.params = []) :
      Stepped ctx s op (createState s op)
  | delete (hkind : op.kind = .delete) {partition : String} {region : Region} {s' : ValidateState}
      (htarget : op.target = some partition) (hregion : s.allocated.lookup partition = some region)
      (hallocated : s'.allocated = s.allocated.erase partition)
      (hmounts : s'.mountAssignments = s.mountAssignments.erase partition) : Stepped ctx s op s'
  | change (hkind : op.kind = .resize ∨ op.kind = .format) {partition : String}
      {region region' : Region} {s' : ValidateState} (htarget : op.target = some partition)
      (hregion : s.allocated.lookup partition = some region)
      (hallocated : s'.allocated = s.allocated.insert partition region')
      (hfstype : region'.fstype =
        if op.kind = .format then toAsciiLowercase (valueString op.params "fs_type")
        else region.fstype)
      (hmounts : s'.mountAssignments = s.mountAssignments) : Stepped ctx s op s'
  | superseded (h : isSuperseded ctx op) : Stepped ctx s op s
  | setMountpoint (hkind : op.kind = .setMountpoint) {partition : String} {region : Region}
      {s' : ValidateState} (htarget : op.target = some partition)
      (hregion : s.allocated.lookup partition = some region)
      (h : setMountpointErrors s partition region op.params = [])
      (hallocated : s'.allocated = s.allocated)
      (hmounts : s'.mountAssignments =
        assignMount s.mountAssignments partition (setMount region op.params)) :
      Stepped ctx s op s'

theorem setMount_eq (region : Region) (params : Value) :
    setMount region params = mountOn region.fstype params := by
  simp only [mountOn, setMount]

theorem stepped (h : stepErrors ctx s op = []) : Stepped ctx s op (stepState ctx s op) := by
  by_cases hsuperseded : isSuperseded ctx op
  · rw [stepState, if_pos hsuperseded]
    exact .superseded hsuperseded
  rw [stepErrors, if_neg hsuperseded] at h
  rw [stepState, if_neg hsuperseded]
  cases hkind : op.kind with
  | newTable => exact .newTable hkind
  | create =>
    rw [hkind] at h
    exact .create hkind h
  | other name =>
    rw [hkind] at h
    cases h
  | delete =>
    rw [hkind] at h
    obtain ⟨partition, region, htarget, hregion, -, hstate⟩ := namedErrors_eq_nil h
    exact .delete hkind htarget hregion (by simp only [hstate, targetState])
      (by simp only [hstate, targetState])
  | resize =>
    rw [hkind] at h
    obtain ⟨partition, region, htarget, hregion, herrors, hstate⟩ := namedErrors_eq_nil h
    simp only [targetErrors, List.append_eq_nil_iff] at herrors
    exact .change (.inl hkind) htarget hregion
      (by simp only [hstate, targetState, if_pos herrors.2]; rfl) (by simp [hkind])
      (by simp only [hstate, targetState, if_pos herrors.2])
  | format =>
    rw [hkind] at h
    obtain ⟨partition, region, htarget, hregion, -, hstate⟩ := namedErrors_eq_nil h
    exact .change (.inr hkind) htarget hregion (by simp only [hstate, targetState]; rfl)
      (by simp [hkind]) (by simp only [hstate, targetState])
  | setMountpoint =>
    rw [hkind] at h
    obtain ⟨partition, region, htarget, hregion, herrors, hstate⟩ := namedErrors_eq_nil h
    have herrors' : setMountpointErrors s partition region op.params = [] := herrors
    exact .setMountpoint hkind htarget hregion herrors'
      (by simp only [hstate, targetState, if_pos herrors'])
      (by simp only [hstate, targetState, if_pos herrors', assignMount])

theorem validatedMountpoint_eq_ok {raw fstype mount : String}
    (h : validatedMountpoint raw fstype = .ok mount) (hraw : raw ≠ "") :
    Manual.normalizeMountpoint raw (mountFilesystem fstype) true = .ok mount ∧
      (isEfiMountpoint mount = true → mountFilesystem fstype = "fat32") ∧
      (isEfiMountpoint mount = false →
        mountFilesystem fstype ∈ ["btrfs", "ext4", "xfs", "linux-swap"]) := by
  rw [validatedMountpoint, if_neg hraw] at h
  dsimp only at h
  obtain ⟨mountpoint, hnormal, hchecked⟩ := Check.bind_eq_ok.1 h
  cases hefi : isEfiMountpoint mountpoint with
  | true =>
    rw [if_pos hefi] at hchecked
    by_cases hfat : mountFilesystem fstype = "fat32"
    · rw [if_neg (not_not.2 hfat)] at hchecked
      cases hchecked
      exact ⟨hnormal, fun _ => hfat, fun hfalse => absurd (hefi.symm.trans hfalse) (by decide)⟩
    · rw [if_pos hfat] at hchecked
      cases hchecked
  | false =>
    rw [hefi, if_neg Bool.false_ne_true] at hchecked
    by_cases hlisted : mountFilesystem fstype ∈ ["btrfs", "ext4", "xfs", "linux-swap"]
    · rw [if_neg (not_not.2 hlisted)] at hchecked
      cases hchecked
      exact ⟨hnormal, fun htrue => absurd (hefi.symm.trans htrue) (by decide),
        fun _ => hlisted⟩
    · rw [if_pos hlisted] at hchecked
      cases hchecked

/-- A mount point that passed its checks suits the filesystem. -/
theorem suits_of_validated {raw fstype mount : String}
    (h : validatedMountpoint raw fstype = .ok mount) (hmount : mount ≠ "")
    (hroot : mount = "/" → fstype = "btrfs") : Suits mount fstype := by
  have hraw : raw ≠ "" := by
    rintro rfl
    rw [validatedMountpoint, if_pos rfl, Except.ok.injEq] at h
    exact hmount h.symm
  obtain ⟨hnormal, hfat, hlisted⟩ := validatedMountpoint_eq_ok h hraw
  unfold Suits
  by_cases hslash : mount = "/"
  · rw [if_pos hslash]
    exact hroot hslash
  rw [if_neg hslash]
  by_cases hefi : mount = "/boot/efi"
  · rw [if_pos hefi]
    refine hfat ?_
    rw [hefi]
    decide
  · rw [if_neg hefi]
    refine hlisted ?_
    have htrimmed := (Manual.normalizeMountpoint_trimmed hnormal).resolve_left hslash
    rw [isEfiMountpoint, htrimmed.1, htrimmed.2, beq_eq_false_iff_ne]
    exact hefi

theorem suits_of_setMountpoint {partition : String} {region : Region} {params : Value}
    (h : setMountpointErrors s partition region params = [])
    (hmount : setMount region params ≠ "") :
    Suits (setMount region params) region.fstype := by
  simp only [setMountpointErrors, List.append_eq_nil_iff, complain_eq_nil] at h
  have hroot := h.1.1.2
  cases hvalid : validatedMountpoint (valueString params "mountpoint") region.fstype with
  | error error => simp [setMount, hvalid] at hmount
  | ok mount =>
    have hmount' : setMount region params = mount := by simp [setMount, hvalid]
    rw [hmount'] at hmount hroot ⊢
    exact suits_of_validated hvalid hmount fun hslash => not_not.1 fun hne => hroot ⟨hslash, hne⟩

theorem suits_of_create {params : Value} (h : createErrors ctx s params = [])
    (hmount : createMount params ≠ "") :
    Suits (createMount params) (toAsciiLowercase (valueString params "fs_type")) := by
  simp only [createErrors, List.append_eq_nil_iff, complain_eq_nil] at h
  have hroot := h.1.1.2
  cases hvalid : validatedMountpoint (valueString params "mountpoint")
      (toAsciiLowercase (valueString params "fs_type")) with
  | error error => simp [createMount, hvalid] at hmount
  | ok mount =>
    have hmount' : createMount params = mount := by simp [createMount, hvalid]
    rw [hmount'] at hmount hroot ⊢
    exact suits_of_validated hvalid hmount fun hslash => not_not.1 fun hne => hroot ⟨hslash, hne⟩

/-! ### Later mount points -/

/-- A later operation gives the partition a mount point. -/
def Awaits (later : List PartitionOperation) (partition : String) : Prop :=
  ∃ op ∈ later, op.kind = .setMountpoint ∧ op.target = some partition

/-- The last `set_mountpoint` of a spelling is the one on record. -/
theorem lookup_lastMountpointIndices (before after : List PartitionOperation)
    (hkind : op.kind = .setMountpoint) (hraw : valueString op.params "partition" ≠ "")
    (hlast : ∀ op' ∈ after, op'.kind = .setMountpoint →
      valueString op'.params "partition" ≠ valueString op.params "partition") :
    (lastMountpointIndices (before ++ op :: after)).lookup (valueString op.params "partition") =
      some op.index := by
  unfold lastMountpointIndices
  rw [List.foldl_append, List.foldl_cons]
  generalize List.foldl _ (∅ : StringMap ℕ) before = last
  have hfirst : (if op.kind = .setMountpoint ∧ valueString op.params "partition" ≠ "" then
      last.insert (valueString op.params "partition") op.index else last).lookup
        (valueString op.params "partition") = some op.index := by
    rw [if_pos ⟨hkind, hraw⟩, AList.lookup_insert]
  dsimp only
  generalize (if op.kind = .setMountpoint ∧ valueString op.params "partition" ≠ "" then
      last.insert (valueString op.params "partition") op.index else last) = last' at hfirst ⊢
  induction after generalizing last' with
  | nil => exact hfirst
  | cons op' after ih =>
    rw [List.foldl_cons]
    refine ih (fun op'' hop'' => hlast op'' (List.mem_cons_of_mem _ hop'')) _ ?_
    split_ifs with hset
    · rw [AList.lookup_insert_ne (hlast op' List.mem_cons_self hset.1).symm]
      exact hfirst
    · exact hfirst

/-- A superseded `set_mountpoint` is followed by another one for the same partition. -/
theorem awaits_of_isSuperseded {journal : PartitionJournal} {size : UInt64}
    (hops : journal.ops = before ++ op :: after) (h : isSuperseded (context journal size) op)
    {partition : String} (htarget : op.target = some partition) : Awaits after partition := by
  obtain ⟨hkind, hraw, hindex⟩ := h
  by_contra hnone
  refine hindex ?_
  show (lastMountpointIndices journal.ops).lookup _ = _
  rw [hops]
  refine lookup_lastMountpointIndices before after hkind hraw fun op' hop' hkind' hsame => ?_
  refine hnone ⟨op', hop', hkind', ?_⟩
  rw [← htarget, PartitionOperation.target, PartitionOperation.target, hsame]

/-! ### Following the assignments -/

/-- The mount points of a disk against those of `validate`, with the operations that are still to
come. A `set_mountpoint` that a later one supersedes is not in the picture of `validate`. -/
structure Follows (s : ValidateState) (placed : Placed) (later : List PartitionOperation) :
    Prop where
  dev : ∀ e ∈ placed.layout, startsWith e.name "/dev/" = true
  sameFs : ∀ e ∈ placed.layout, ∀ region, s.allocated.lookup e.name = some region →
    SameFs region.fstype e.fstype
  mounted : ∀ e ∈ placed.layout, ∀ region, s.allocated.lookup e.name = some region →
    ¬ Awaits later e.name → s.mountAssignments.lookup e.name = placed.mounts.lookup e.name

variable {s' : ValidateState} {later : List PartitionOperation} {partition : String}

theorem awaits_cons_of_kind (hkind : op.kind ≠ .setMountpoint) :
    Awaits (op :: later) partition ↔ Awaits later partition := by
  constructor
  · rintro ⟨op', hop', hset⟩
    obtain rfl | hop' := List.mem_cons.1 hop'
    · exact absurd hset.1 hkind
    · exact ⟨op', hop', hset⟩
  · rintro ⟨op', hop', hset⟩
    exact ⟨op', List.mem_cons_of_mem _ hop', hset⟩

theorem awaits_cons_of_target (htarget : op.target ≠ some partition) :
    Awaits (op :: later) partition ↔ Awaits later partition := by
  constructor
  · rintro ⟨op', hop', hset⟩
    obtain rfl | hop' := List.mem_cons.1 hop'
    · exact absurd hset.2 htarget
    · exact ⟨op', hop', hset⟩
  · rintro ⟨op', hop', hset⟩
    exact ⟨op', List.mem_cons_of_mem _ hop', hset⟩

theorem Tracks.find?_name {allocated : StringMap Region} {layout : Layout}
    (h : Tracks allocated layout) {e : Extent} (he : e ∈ layout) :
    layout.find? (fun x => decide (x.name = e.name)) = some e := by
  cases hfind : layout.find? fun x => decide (x.name = e.name) with
  | none => simpa using List.find?_eq_none.1 hfind e he
  | some x =>
    have hname : x.name = e.name := by simpa using List.find?_some hfind
    rw [h.eq_of_name (List.mem_of_find?_eq_some hfind) he hname]

theorem follows_initial {parts : List PartitionRecord} (tableType : String)
    (h : IsListing parts) (later : List PartitionOperation) :
    Follows (initialState parts tableType) (initialPlaced parts) later where
  dev e he := by
    obtain ⟨part, hpart, rfl⟩ := List.mem_map.1 he
    exact h.names_dev part hpart
  sameFs e he region hregion := by
    obtain ⟨part, hpart, rfl⟩ := List.mem_map.1 he
    have hrecord : (initialRegions parts).lookup part.name = some (recordRegion part) :=
      lookup_foldl_insert h.names_nodup hpart
    obtain rfl : recordRegion part = region := Option.some.inj (hrecord.symm.trans hregion)
    exact ⟨rfl, Iff.rfl⟩
  mounted _ _ _ _ _ := rfl

/-- The partitions of a table that `validate` keeps no record of by name. -/
theorem Tracks.lookup_of_not_isNamed {allocated : StringMap Region} {layout : Layout}
    (h : Tracks allocated layout) {e : Extent} (he : e ∈ layout)
    (hdev : startsWith e.name "/dev/" = true) (hnamed : ¬ e.IsNamed) :
    allocated.lookup e.name = none := by
  cases hregion : allocated.lookup e.name with
  | none => rfl
  | some region => exact absurd (h.isNamed hdev hregion he rfl) hnamed

theorem Follows.newTable (hkind : op.kind = .newTable)
    (htracks : Tracks (newTableState op.params).allocated (applyOperation name placed.layout op))
    (hdevice : startsWith name "/dev/" = true) :
    Follows (newTableState op.params) (placed.after name op) later := by
  have hbios : ∀ e ∈ (placed.after name op).layout, e = biosBootExtent name := by
    intro e he
    simp only [Placed.after, applyOperation, hkind] at he
    split_ifs at he
    · exact List.mem_singleton.1 he
    · cases he
  have hnone : ∀ e ∈ (placed.after name op).layout,
      (newTableState op.params).allocated.lookup e.name = none := by
    intro e he
    obtain rfl := hbios e he
    exact htracks.lookup_of_not_isNamed he hdevice (by rintro (h | h) <;> cases h)
  refine ⟨fun e he => ?_, fun e he region hregion => ?_, fun e he region hregion => ?_⟩
  · rw [hbios e he]
    exact hdevice
  · rw [hnone e he] at hregion
    cases hregion
  · rw [hnone e he] at hregion
    cases hregion

theorem ne_name_of_mem {layout : Layout} {e : Extent} (he : e ∈ layout)
    (hname : name ∉ layout.names) : e.name ≠ name := by
  intro heq
  rw [← heq] at hname
  exact hname (List.mem_map_of_mem he)

theorem Follows.create (h : Follows s placed (op :: later)) (hkind : op.kind = .create)
    (hname : name ∉ placed.layout.names)
    (htracks : Tracks (createState s op).allocated (applyOperation name placed.layout op))
    (hdevice : startsWith name "/dev/" = true) :
    Follows (createState s op) (placed.after name op) later := by
  have hlayout : (placed.after name op).layout = createdExtent name op :: placed.layout := by
    simp only [Placed.after, applyOperation, hkind]
  have hmounts : (placed.after name op).mounts =
      assignMount placed.mounts name (createMount op.params) := by
    simp only [Placed.after, mountsAfter, hkind]
  have hnew : (createState s op).allocated.lookup name = none := by
    have hmem : createdExtent name op ∈ applyOperation name placed.layout op := by
      simp only [applyOperation, hkind]
      exact List.mem_cons_self
    exact htracks.lookup_of_not_isNamed hmem hdevice (by rintro (hn | hn) <;> cases hn)
  have hallocated : ∀ e ∈ placed.layout,
      (createState s op).allocated.lookup e.name = s.allocated.lookup e.name := fun e he =>
    AList.lookup_insert_ne (createdKey_ne_of_dev (h.dev e he)).symm
  have hassigned : ∀ e ∈ placed.layout,
      (createState s op).mountAssignments.lookup e.name = s.mountAssignments.lookup e.name := by
    intro e he
    simp only [createState]
    split_ifs
    · rfl
    · exact AList.lookup_insert_ne (createdKey_ne_of_dev (h.dev e he)).symm
  refine ⟨fun e he => ?_, fun e he region hregion => ?_, fun e he region hregion hawaits => ?_⟩
  all_goals
    rw [hlayout] at he
    obtain rfl | he := List.mem_cons.1 he
  · exact hdevice
  · exact h.dev e he
  · exact absurd (hnew.symm.trans hregion) (by simp)
  · rw [hallocated e he] at hregion
    exact h.sameFs e he region hregion
  · exact absurd (hnew.symm.trans hregion) (by simp)
  · rw [hallocated e he] at hregion
    have hne : e.name ≠ name := ne_name_of_mem he hname
    have hkind' : op.kind ≠ .setMountpoint := by simp [hkind]
    rw [hassigned e he, hmounts, lookup_assignMount_ne hne]
    exact h.mounted e he region hregion fun hlater =>
      hawaits ((awaits_cons_of_kind hkind').1 hlater)

theorem Follows.delete (h : Follows s placed (op :: later)) (hkind : op.kind = .delete)
    (htarget : op.target = some partition)
    (hallocated : s'.allocated = s.allocated.erase partition)
    (hassigned : s'.mountAssignments = s.mountAssignments.erase partition) :
    Follows s' (placed.after name op) later := by
  have hmem : ∀ e ∈ (placed.after name op).layout, e ∈ placed.layout ∧ e.name ≠ partition := by
    intro e he
    simp only [Placed.after, applyOperation, hkind, htarget, List.mem_filter] at he
    exact ⟨he.1, by simpa using he.2⟩
  have hmounts : (placed.after name op).mounts = placed.mounts.erase partition := by
    simp only [Placed.after, mountsAfter, hkind, htarget]
  refine ⟨fun e he => ?_, fun e he region hregion => ?_, fun e he region hregion hawaits => ?_⟩
  · exact h.dev e (hmem e he).1
  · obtain ⟨he, hne⟩ := hmem e he
    rw [hallocated, AList.lookup_erase_ne hne] at hregion
    exact h.sameFs e he region hregion
  · obtain ⟨he, hne⟩ := hmem e he
    rw [hallocated, AList.lookup_erase_ne hne] at hregion
    rw [hassigned, hmounts, AList.lookup_erase_ne hne, AList.lookup_erase_ne hne]
    have hkind' : op.kind ≠ .setMountpoint := by simp [hkind]
    exact h.mounted e he region hregion fun hlater =>
      hawaits ((awaits_cons_of_kind hkind').1 hlater)

/-- A partition after a `resize` or a `format` was one before. -/
theorem mem_changed (hkind : op.kind = .resize ∨ op.kind = .format)
    (htarget : op.target = some partition) {e' : Extent}
    (he' : e' ∈ (placed.after name op).layout) :
    ∃ e ∈ placed.layout, e'.name = e.name ∧
      e'.fstype = if op.kind = .format ∧ e.name = partition then
        probedFstype (valueString op.params "fs_type") else e.fstype := by
  obtain hkind | hkind := hkind
  all_goals
    simp only [Placed.after, applyOperation, hkind, htarget, Option.some.injEq,
      List.mem_map] at he'
    obtain ⟨e, he, rfl⟩ := he'
    refine ⟨e, he, ?_⟩
    by_cases hname : e.name = partition
    · simp [hkind, hname, Extent.resize, Extent.format]
    · simp [hkind, hname]

theorem Follows.change (h : Follows s placed (op :: later))
    (hkind : op.kind = .resize ∨ op.kind = .format) {region region' : Region}
    (htarget : op.target = some partition) (hregion : s.allocated.lookup partition = some region)
    (hallocated : s'.allocated = s.allocated.insert partition region')
    (hfstype : region'.fstype =
      if op.kind = .format then toAsciiLowercase (valueString op.params "fs_type")
      else region.fstype)
    (hassigned : s'.mountAssignments = s.mountAssignments) :
    Follows s' (placed.after name op) later := by
  have hmounts : (placed.after name op).mounts = placed.mounts := by
    obtain hkind | hkind := hkind <;> simp only [Placed.after, mountsAfter, hkind]
  refine ⟨fun e' he' => ?_, fun e' he' found hfound => ?_, fun e' he' found hfound hawaits => ?_⟩
  all_goals obtain ⟨e, he, hname, hfs⟩ := mem_changed hkind htarget he'
  · rw [hname]
    exact h.dev e he
  · rw [hname, hallocated] at hfound
    rw [hfs]
    by_cases hsame : e.name = partition
    · rw [hsame, AList.lookup_insert] at hfound
      cases hfound
      rw [hfstype]
      by_cases hformat : op.kind = .format
      · rw [if_pos hformat, if_pos ⟨hformat, hsame⟩]
        exact sameFs_probed op.params
      · rw [if_neg hformat, if_neg fun hboth => hformat hboth.1]
        exact h.sameFs e he region (hsame ▸ hregion)
    · rw [AList.lookup_insert_ne hsame] at hfound
      rw [if_neg fun hboth => hsame hboth.2]
      exact h.sameFs e he found hfound
  · rw [hname] at hfound hawaits ⊢
    have hkind' : op.kind ≠ .setMountpoint := by obtain hkind | hkind := hkind <;> simp [hkind]
    rw [hassigned, hmounts]
    rw [hallocated] at hfound
    by_cases hsame : e.name = partition
    · exact h.mounted e he region (hsame ▸ hregion) fun hlater =>
        hawaits ((awaits_cons_of_kind hkind').1 hlater)
    · rw [AList.lookup_insert_ne hsame] at hfound
      exact h.mounted e he found hfound fun hlater =>
        hawaits ((awaits_cons_of_kind hkind').1 hlater)

theorem mounts_setMountpoint_ne (hkind : op.kind = .setMountpoint) {other : String}
    (hother : op.target ≠ some other) :
    (placed.after name op).mounts.lookup other = placed.mounts.lookup other := by
  simp only [Placed.after, mountsAfter, hkind]
  cases htarget : op.target with
  | none => rfl
  | some partition =>
    have hne : other ≠ partition := by
      rintro rfl
      exact hother htarget
    dsimp only
    split
    · exact lookup_assignMount_ne hne
    · rfl

theorem layout_setMountpoint (hkind : op.kind = .setMountpoint) :
    (placed.after name op).layout = placed.layout := by
  simp only [Placed.after, applyOperation, hkind]

theorem Follows.superseded (h : Follows s placed (op :: later)) (hkind : op.kind = .setMountpoint)
    (hawaits : ∀ partition, op.target = some partition → Awaits later partition) :
    Follows s (placed.after name op) later := by
  have hlayout : (placed.after name op).layout = placed.layout := layout_setMountpoint hkind
  refine ⟨?_, ?_, fun e he region hregion hnone => ?_⟩
  · rw [hlayout]
    exact h.dev
  · rw [hlayout]
    exact h.sameFs
  · rw [hlayout] at he
    have hother : op.target ≠ some e.name := fun htarget => hnone (hawaits e.name htarget)
    rw [mounts_setMountpoint_ne hkind hother]
    exact h.mounted e he region hregion fun hlater =>
      hnone ((awaits_cons_of_target hother).1 hlater)

/-- An accepted `set_mountpoint` gives the mount point that `validate` files. -/
theorem mounts_setMountpoint (h : Follows s placed (op :: later))
    (htracks : Tracks s.allocated placed.layout) (hkind : op.kind = .setMountpoint)
    (htarget : op.target = some partition) {region : Region}
    (hregion : s.allocated.lookup partition = some region) :
    (placed.after name op).mounts =
      assignMount placed.mounts partition (setMount region op.params) := by
  obtain ⟨e, he, -, hname⟩ := htracks.found partition region (target_dev htarget) hregion
  have hfind := htracks.find?_name he
  rw [hname] at hfind
  have hsame := h.sameFs e he region (hname ▸ hregion)
  simp only [Placed.after, mountsAfter, hkind, htarget, hfind]
  rw [setMount_eq, hsame.mountOn]

theorem Follows.setMountpoint (h : Follows s placed (op :: later))
    (htracks : Tracks s.allocated placed.layout) (hkind : op.kind = .setMountpoint)
    (htarget : op.target = some partition) {region : Region}
    (hregion : s.allocated.lookup partition = some region)
    (hallocated : s'.allocated = s.allocated)
    (hassigned : s'.mountAssignments =
      assignMount s.mountAssignments partition (setMount region op.params)) :
    Follows s' (placed.after name op) later := by
  have hlayout : (placed.after name op).layout = placed.layout := layout_setMountpoint hkind
  refine ⟨?_, ?_, fun e he found hfound hnone => ?_⟩
  · rw [hlayout]
    exact h.dev
  · rw [hlayout, hallocated]
    exact h.sameFs
  · rw [hlayout] at he
    rw [hassigned, mounts_setMountpoint h htracks hkind htarget hregion]
    by_cases hsame : e.name = partition
    · rw [hsame, lookup_assignMount_self, lookup_assignMount_self]
    · rw [lookup_assignMount_ne hsame, lookup_assignMount_ne hsame]
      have hother : op.target ≠ some e.name := by
        rw [htarget]
        exact fun heq => hsame (Option.some.inj heq).symm
      rw [hallocated] at hfound
      exact h.mounted e he found hfound fun hlater =>
        hnone ((awaits_cons_of_target hother).1 hlater)

/-- An accepted operation keeps the mount points of `validate` true to the disk. -/
theorem Follows.step (h : Follows s placed (op :: later))
    (htracks : Tracks s.allocated placed.layout)
    (hname : name ∉ placed.layout.names) (hdevice : startsWith name "/dev/" = true)
    (hstep : Stepped ctx s op s')
    (htracks' : Tracks s'.allocated (applyOperation name placed.layout op))
    (hawaits : isSuperseded ctx op → ∀ partition, op.target = some partition →
      Awaits later partition) :
    Follows s' (placed.after name op) later := by
  cases hstep with
  | newTable hkind => exact Follows.newTable hkind htracks' hdevice
  | create hkind _ => exact h.create hkind hname htracks' hdevice
  | delete hkind htarget _ hallocated hmounts => exact h.delete hkind htarget hallocated hmounts
  | change hkind htarget hregion hallocated hfstype hmounts =>
    exact h.change hkind htarget hregion hallocated hfstype hmounts
  | superseded hsuperseded => exact h.superseded hsuperseded.1 (hawaits hsuperseded)
  | setMountpoint hkind htarget hregion _ hallocated hmounts =>
    exact h.setMountpoint htracks hkind htarget hregion hallocated hmounts

/-! ### Settled mount points -/

/-- The filesystem of every partition suits its mount point, or a later operation has the last word
on the partition. -/
def Settled (placed : Placed) (later : List PartitionOperation) : Prop :=
  ∀ e ∈ placed.layout, ∀ mount, placed.mounts.lookup e.name = some mount →
    Suits mount e.fstype ∨ ∃ op ∈ later, op.Touches e.name

theorem Awaits.touched (h : Awaits later partition) : ∃ op ∈ later, op.Touches partition := by
  obtain ⟨op, hop, hkind, htarget⟩ := h
  exact ⟨op, hop, .inr ⟨.inr (.inr hkind), htarget⟩⟩

/-- A partition that an operation does not touch stays settled. -/
theorem Settled.of_untouched (h : Settled placed (op :: later)) {e : Extent}
    (he : e ∈ placed.layout)
    (huntouched : ¬ op.Touches e.name) {mount : String}
    (hmount : placed.mounts.lookup e.name = some mount) :
    Suits mount e.fstype ∨ ∃ op ∈ later, op.Touches e.name := by
  obtain hsuits | ⟨op', hop', htouches⟩ := h e he mount hmount
  · exact .inl hsuits
  · obtain rfl | hop' := List.mem_cons.1 hop'
    · exact absurd htouches huntouched
    · exact .inr ⟨op', hop', htouches⟩

/-- An operation that names a partition does not touch another one. -/
theorem not_touches_of_target (hkind : op.kind ≠ .newTable) {other : String}
    (hother : op.target ≠ some other) : ¬ op.Touches other := by
  rintro (htable | ⟨-, htarget⟩)
  · exact hkind htable
  · exact hother htarget

theorem not_suits_empty (mount : String) : ¬ Suits mount "" := by
  have hempty : mountFilesystem "" = "" := by decide
  unfold Suits
  split_ifs
  · decide
  · rw [hempty]
    decide
  · rw [hempty]
    decide

theorem Settled.create (h : Settled placed (op :: later)) (hkind : op.kind = .create)
    (hname : name ∉ placed.layout.names) (herrors : createErrors ctx s op.params = [])
    (hswap : ¬ SwapSpoils op later) : Settled (placed.after name op) later := by
  intro e he mount hmount
  simp only [Placed.after, applyOperation, mountsAfter, hkind] at he hmount
  obtain rfl | he := List.mem_cons.1 he
  · have hcreated : createMount op.params = mount ∧ mount ≠ "" := by
      simp only [createdExtent, lookup_assignMount_self] at hmount
      split_ifs at hmount with hempty
      obtain rfl := Option.some.inj hmount
      exact ⟨rfl, hempty⟩
    obtain ⟨rfl, hne⟩ := hcreated
    have hsuits := suits_of_create herrors hne
    have hfstype : (createdExtent name op).fstype = createdFstype op.params := by
      simp only [createdExtent]
    rw [hfstype]
    by_cases hfs : valueString op.params "fs_type" = "linux-swap"
    · -- nothing makes the swap area, so only a new table can help
      have htable : ∃ op' ∈ later, op'.kind = .newTable := by
        by_contra hnone
        push Not at hnone
        exact hswap ⟨hkind, hfs, hne, hnone⟩
      obtain ⟨op', hop', htable⟩ := htable
      exact .inr ⟨op', hop', .inl htable⟩
    · have hprobed : createdFstype op.params =
          probedFstype (valueString op.params "fs_type") := by
        simp only [createdFstype, if_neg hfs]
      rw [hprobed, ← (sameFs_probed op.params).suits]
      exact .inl hsuits
  · rw [lookup_assignMount_ne (ne_name_of_mem he hname)] at hmount
    refine h.of_untouched he ?_ hmount
    rintro (htable | ⟨hnamed, -⟩)
    · simp [hkind] at htable
    · simp [hkind] at hnamed

theorem Settled.change (h : Settled placed (op :: later))
    (hfollows : Follows s placed (op :: later))
    (hkind : op.kind = .resize ∨ op.kind = .format) {region : Region}
    (htarget : op.target = some partition) (hregion : s.allocated.lookup partition = some region)
    (hformat : ¬ FormatSpoils s.mountAssignments op later) :
    Settled (placed.after name op) later := by
  have hmounts : (placed.after name op).mounts = placed.mounts := by
    obtain hkind | hkind := hkind <;> simp only [Placed.after, mountsAfter, hkind]
  have hkind' : op.kind ≠ .setMountpoint ∧ op.kind ≠ .newTable := by
    obtain hkind | hkind := hkind <;> simp [hkind]
  intro e' he' mount hmount
  obtain ⟨e, he, hname, hfs⟩ := mem_changed hkind htarget he'
  rw [hmounts, hname] at hmount
  rw [hname, hfs]
  by_cases hformatted : op.kind = .format ∧ e.name = partition
  · rw [if_pos hformatted]
    by_contra hspoiled
    rw [not_or] at hspoiled
    obtain ⟨hunsuited, huntouched⟩ := hspoiled
    have hnone : ¬ Awaits (op :: later) e.name := fun hlater =>
      huntouched ((awaits_cons_of_kind hkind'.1).1 hlater).touched
    have hassigned := hfollows.mounted e he region (hformatted.2 ▸ hregion) hnone
    refine hformat ⟨hformatted.1, partition, mount, htarget, ?_, hunsuited, ?_⟩
    · rw [← hformatted.2, hassigned, hmount]
    · intro op' hop' htouches
      exact huntouched ⟨op', hop', hformatted.2 ▸ htouches⟩
  · rw [if_neg hformatted]
    refine h.of_untouched he ?_ hmount
    rintro (htable | ⟨hnamed, hsame⟩)
    · exact hkind'.2 htable
    · obtain hkind | hkind := hkind
      · simp [hkind] at hnamed
      · exact hformatted ⟨hkind, (Option.some.inj (htarget.symm.trans hsame)).symm⟩

theorem Settled.setMountpoint (h : Settled placed (op :: later))
    (hfollows : Follows s placed (op :: later)) (htracks : Tracks s.allocated placed.layout)
    (hkind : op.kind = .setMountpoint) (htarget : op.target = some partition) {region : Region}
    (hregion : s.allocated.lookup partition = some region)
    (herrors : setMountpointErrors s partition region op.params = []) :
    Settled (placed.after name op) later := by
  intro e he mount hmount
  rw [layout_setMountpoint hkind] at he
  by_cases hsame : e.name = partition
  · rw [mounts_setMountpoint hfollows htracks hkind htarget hregion, hsame,
      lookup_assignMount_self] at hmount
    split_ifs at hmount with hempty
    obtain rfl := Option.some.inj hmount
    exact .inl ((hfollows.sameFs e he region (hsame ▸ hregion)).suits.1
      (suits_of_setMountpoint herrors hempty))
  · have hother : op.target ≠ some e.name := by
      rw [htarget]
      exact fun heq => hsame (Option.some.inj heq).symm
    rw [mounts_setMountpoint_ne hkind hother] at hmount
    exact h.of_untouched he (not_touches_of_target (by simp [hkind]) hother) hmount

/-- An accepted operation that spoils nothing keeps the mount points settled. -/
theorem Settled.step (h : Settled placed (op :: later)) (hfollows : Follows s placed (op :: later))
    (htracks : Tracks s.allocated placed.layout) (hname : name ∉ placed.layout.names)
    (hstep : Stepped ctx s op s')
    (hawaits : isSuperseded ctx op → ∀ partition, op.target = some partition →
      Awaits later partition)
    (hformat : ¬ FormatSpoils s.mountAssignments op later) (hswap : ¬ SwapSpoils op later) :
    Settled (placed.after name op) later := by
  cases hstep with
  | newTable hkind =>
    intro e he mount hmount
    simp only [Placed.after, mountsAfter, hkind] at hmount
    cases hmount
  | create hkind herrors => exact h.create hkind hname herrors hswap
  | delete hkind htarget hregion _ _ =>
    intro e he mount hmount
    simp only [Placed.after, applyOperation, mountsAfter, hkind, htarget, List.mem_filter]
      at he hmount
    obtain ⟨he, hne⟩ := he
    rw [decide_eq_true_eq, ne_eq, Option.some.injEq] at hne
    have hother : op.target ≠ some e.name := by
      rw [htarget]
      exact fun heq => hne (Option.some.inj heq).symm
    rw [AList.lookup_erase_ne hne] at hmount
    exact h.of_untouched he (not_touches_of_target (by simp [hkind]) hother) hmount
  | change hkind htarget hregion _ _ _ => exact h.change hfollows hkind htarget hregion hformat
  | superseded hsuperseded =>
    intro e he mount hmount
    rw [layout_setMountpoint hsuperseded.1] at he
    by_cases hsame : op.target = some e.name
    · exact .inr (hawaits hsuperseded e.name hsame).touched
    · rw [mounts_setMountpoint_ne hsuperseded.1 hsame] at hmount
      exact h.of_untouched he (not_touches_of_target (by simp [hsuperseded.1]) hsame) hmount
  | setMountpoint hkind htarget hregion herrors _ _ =>
    exact h.setMountpoint hfollows htracks hkind htarget hregion herrors

/-! ### Accepted journals -/

section Run

variable {journal : PartitionJournal} {parts : List PartitionRecord} {tableType : String}
  {size : UInt64}

theorem runState_concat (s : ValidateState) (before : List PartitionOperation)
    (op : PartitionOperation) :
    runState ctx s (before ++ [op]) = stepState ctx (runState ctx s before) op := by
  simp [runState]

/-- What the operation after an accepted prefix does. -/
theorem stepped_of_accepted (haccepted : validate journal parts tableType size = [])
    (hops : journal.ops = before ++ op :: after) :
    Stepped (context journal size)
      (runState (context journal size) (initialState parts tableType) before) op
      (runState (context journal size) (initialState parts tableType) (before ++ [op])) := by
  obtain ⟨-, hrun, -, -⟩ := validate_eq_nil haccepted
  rw [runState_concat]
  exact stepped (stepErrors_eq_nil hrun hops)

theorem tracks_of_executes (haccepted : validate journal parts tableType size = [])
    (hlisting : IsListing parts) (hops : journal.ops = before ++ after)
    (h : Executes (initialPlaced parts) before placed done) :
    Tracks (runState (context journal size) (initialState parts tableType) before).allocated
      placed.layout := by
  obtain ⟨-, hrun, -, -⟩ := validate_eq_nil haccepted
  rw [hops] at hrun
  exact tracks_of_produces (s := initialState parts tableType) (tracks_initial hlisting) hrun
    h.produces

theorem follows_of_executes (haccepted : validate journal parts tableType size = [])
    (hlisting : IsListing parts) (hops : journal.ops = before ++ after)
    (h : Executes (initialPlaced parts) before placed done) :
    Follows (runState (context journal size) (initialState parts tableType) before) placed
      after := by
  induction h generalizing after with
  | nil => exact follows_initial tableType hlisting after
  | snoc h hname hdevice op ih =>
    have hops' := hops
    rw [List.append_assoc, List.singleton_append] at hops'
    have hstep := stepped_of_accepted haccepted hops'
    refine (ih hops').step (tracks_of_executes haccepted hlisting hops' h) hname
      (Plan.normalizeDevicePath_spec hdevice).1 hstep ?_
      fun hsuperseded partition htarget => awaits_of_isSuperseded hops' hsuperseded htarget
    exact tracks_of_executes haccepted hlisting hops (h.snoc hname hdevice op)

theorem settled_of_executes (haccepted : validate journal parts tableType size = [])
    (hlisting : IsListing parts)
    (hclean : ∀ before op after, journal.ops = before ++ op :: after →
      ¬ FormatSpoils (runState (context journal size) (initialState parts tableType)
        before).mountAssignments op after ∧ ¬ SwapSpoils op after)
    (hops : journal.ops = before ++ after) (h : Executes (initialPlaced parts) before placed done) :
    Settled placed after := by
  induction h generalizing after with
  | nil =>
    intro e he mount hmount
    cases hmount
  | snoc h hname hdevice op ih =>
    have hops' := hops
    rw [List.append_assoc, List.singleton_append] at hops'
    obtain ⟨hformat, hswap⟩ := hclean _ op after hops'
    exact (ih hops').step (follows_of_executes haccepted hlisting hops' h)
      (tracks_of_executes haccepted hlisting hops' h) hname (stepped_of_accepted haccepted hops')
      (fun hsuperseded partition htarget => awaits_of_isSuperseded hops' hsuperseded htarget)
      hformat hswap

/-! ### Spoiled mount points stay -/

/-- A run of two lists is a run of the first and then one of the second. -/
theorem Executes.append_inv {ops' : List PartitionOperation} (h : Executes start ops' placed done)
    (hops : ops' = before ++ after) :
    ∃ middle doneBefore doneAfter, Executes start before middle doneBefore ∧
      Executes middle after placed doneAfter ∧ done = doneBefore ++ doneAfter := by
  induction h generalizing after with
  | nil =>
    obtain ⟨rfl, rfl⟩ := List.append_eq_nil_iff.1 hops.symm
    exact ⟨start, [], [], .nil, .nil, rfl⟩
  | snoc h hname hdevice op ih =>
    obtain rfl | ⟨after', op', rfl⟩ := List.eq_nil_or_concat after
    · rw [List.append_nil] at hops
      subst hops
      exact ⟨_, _, [], h.snoc hname hdevice op, .nil, (List.append_nil _).symm⟩
    · rw [List.concat_eq_append, ← List.append_assoc] at hops
      obtain ⟨rfl, hop⟩ := List.append_inj' hops rfl
      cases hop
      rw [List.concat_eq_append]
      obtain ⟨middle, doneBefore, doneAfter, hbefore, hafter, rfl⟩ := ih rfl
      exact ⟨middle, doneBefore, doneAfter ++ [executedOp _ op], hbefore,
        hafter.snoc hname hdevice op, List.append_assoc _ _ _⟩

/-- A partition with a filesystem and a mount point. -/
def Placed.Holds (placed : Placed) (partition fstype mount : String) : Prop :=
  (∃ e ∈ placed.layout, e.name = partition ∧ e.fstype = fstype) ∧
    placed.mounts.lookup partition = some mount

theorem Placed.Holds.step {fstype mount : String} (h : placed.Holds partition fstype mount)
    (hname : name ∉ placed.layout.names) (huntouched : ¬ op.Touches partition) :
    (placed.after name op).Holds partition fstype mount := by
  obtain ⟨⟨e, he, rfl, hfstype⟩, hmount⟩ := h
  have hne : e.name ≠ name := ne_name_of_mem he hname
  have hother (hkind : op.kind = .delete ∨ op.kind = .format ∨ op.kind = .setMountpoint) :
      op.target ≠ some e.name := fun htarget => huntouched (.inr ⟨hkind, htarget⟩)
  cases hkind : op.kind with
  | newTable => exact absurd (.inl hkind) huntouched
  | create =>
    refine ⟨⟨e, ?_, rfl, hfstype⟩, ?_⟩
    · simp only [Placed.after, applyOperation, hkind]
      exact List.mem_cons_of_mem _ he
    · simp only [Placed.after, mountsAfter, hkind]
      rw [lookup_assignMount_ne hne, hmount]
  | delete =>
    have hother := hother (.inl hkind)
    refine ⟨⟨e, ?_, rfl, hfstype⟩, ?_⟩
    · simp only [Placed.after, applyOperation, hkind, List.mem_filter]
      exact ⟨he, decide_eq_true hother.symm⟩
    · simp only [Placed.after, mountsAfter, hkind]
      cases htarget : op.target with
      | none => exact hmount
      | some target =>
        have hne' : e.name ≠ target := by
          rintro rfl
          exact hother htarget
        show (placed.mounts.erase target).lookup e.name = some mount
        rw [AList.lookup_erase_ne hne', hmount]
  | resize =>
    refine ⟨⟨if some e.name = op.target then e.resize op.params else e, ?_, ?_, ?_⟩, ?_⟩
    · simp only [Placed.after, applyOperation, hkind]
      exact List.mem_map_of_mem he
    · split_ifs
      · exact e.resize_name op.params
      · rfl
    · split_ifs
      · exact hfstype
      · exact hfstype
    · simpa only [Placed.after, mountsAfter, hkind] using hmount
  | format =>
    have hother := hother (.inr (.inl hkind))
    refine ⟨⟨e, ?_, rfl, hfstype⟩, ?_⟩
    · simp only [Placed.after, applyOperation, hkind]
      exact List.mem_map.2 ⟨e, he, if_neg hother.symm⟩
    · simpa only [Placed.after, mountsAfter, hkind] using hmount
  | setMountpoint =>
    have hother := hother (.inr (.inr hkind))
    refine ⟨⟨e, ?_, rfl, hfstype⟩, ?_⟩
    · rwa [layout_setMountpoint hkind]
    · rw [mounts_setMountpoint_ne hkind hother, hmount]
  | other _ =>
    refine ⟨⟨e, ?_, rfl, hfstype⟩, ?_⟩
    · simpa only [Placed.after, applyOperation, hkind] using he
    · simpa only [Placed.after, mountsAfter, hkind] using hmount

theorem Executes.holds {fstype mount : String} (h : Executes start ops placed done)
    (hstart : start.Holds partition fstype mount)
    (huntouched : ∀ op ∈ ops, ¬ op.Touches partition) :
    placed.Holds partition fstype mount := by
  induction h with
  | nil => exact hstart
  | snoc h hname hdevice op ih =>
    refine (ih fun op' hop' => huntouched op' (List.mem_append_left _ hop')).step hname ?_
    exact huntouched op (by simp)

/-- No operation brings a device path onto the record. -/
theorem Stepped.lookup_none (h : Stepped ctx s op s') (hdev : startsWith partition "/dev/" = true)
    (hnone : s.allocated.lookup partition = none) : s'.allocated.lookup partition = none := by
  cases h with
  | newTable hkind =>
    simp only [newTableState]
    split_ifs
    · rw [← AList.insert_empty, AList.lookup_insert_ne (biosBootKey_ne_of_dev hdev).symm]
      rfl
    · rfl
  | create hkind herrors =>
    exact (AList.lookup_insert_ne (createdKey_ne_of_dev hdev).symm).trans hnone
  | delete hkind htarget hregion hallocated hmounts =>
    rename_i target region
    rw [hallocated]
    by_cases hsame : partition = target
    · rw [hsame]
      exact AList.lookup_erase _ _
    · rw [AList.lookup_erase_ne hsame, hnone]
  | change hkind htarget hregion hallocated hfstype hmounts =>
    rename_i target region region'
    have hne : partition ≠ target := by
      rintro rfl
      rw [hnone] at hregion
      cases hregion
    rw [hallocated, AList.lookup_insert_ne hne, hnone]
  | superseded h => exact hnone
  | setMountpoint hkind htarget hregion herrors hallocated hmounts => rw [hallocated, hnone]

/-- An operation that touches one partition finds it on record, unless it is superseded. -/
theorem Stepped.on_record (h : Stepped ctx s op s')
    (hkind : op.kind = .delete ∨ op.kind = .format ∨ op.kind = .setMountpoint)
    (htarget : op.target = some partition) :
    isSuperseded ctx op ∨ ∃ region, s.allocated.lookup partition = some region := by
  cases h with
  | newTable hkind' => simp [hkind'] at hkind
  | create hkind' herrors => simp [hkind'] at hkind
  | delete hkind' htarget' hregion hallocated hmounts =>
    rw [htarget] at htarget'
    cases htarget'
    exact .inr ⟨_, hregion⟩
  | change hkind' htarget' hregion hallocated hfstype hmounts =>
    rw [htarget] at htarget'
    cases htarget'
    exact .inr ⟨_, hregion⟩
  | superseded hsuperseded => exact .inl hsuperseded
  | setMountpoint hkind' htarget' hregion herrors hallocated hmounts =>
    rw [htarget] at htarget'
    cases htarget'
    exact .inr ⟨_, hregion⟩

/-- A partition that is not on record gets no mount point from an accepted journal. -/
theorem not_awaits_of_lookup_none (haccepted : validate journal parts tableType size = [])
    (hdev : startsWith partition "/dev/" = true) (hops : journal.ops = before ++ later)
    (hnone : (runState (context journal size) (initialState parts tableType)
      before).allocated.lookup partition = none) : ¬ Awaits later partition := by
  induction later generalizing before with
  | nil =>
    rintro ⟨op, hop, -⟩
    cases hop
  | cons op later ih =>
    have hstep := stepped_of_accepted haccepted hops
    have hlater : ¬ Awaits later partition :=
      ih (by rw [hops, List.append_assoc, List.singleton_append]) (hstep.lookup_none hdev hnone)
    rintro ⟨op', hop', hkind, htarget⟩
    obtain rfl | hop' := List.mem_cons.1 hop'
    · obtain hsuperseded | ⟨region, hregion⟩ := hstep.on_record (.inr (.inr hkind)) htarget
      · exact hlater (awaits_of_isSuperseded hops hsuperseded htarget)
      · rw [hnone] at hregion
        cases hregion
    · exact hlater ⟨op', hop', hkind, htarget⟩

/-- A partition that is not on record is touched by new tables alone. -/
theorem not_touches_of_lookup_none (haccepted : validate journal parts tableType size = [])
    (hdev : startsWith partition "/dev/" = true) (hops : journal.ops = before ++ later)
    (hnone : (runState (context journal size) (initialState parts tableType)
      before).allocated.lookup partition = none) (htable : ∀ op ∈ later, op.kind ≠ .newTable) :
    ∀ op ∈ later, ¬ op.Touches partition := by
  induction later generalizing before with
  | nil => simp
  | cons op later ih =>
    have hstep := stepped_of_accepted haccepted hops
    intro op' hop'
    obtain rfl | hop' := List.mem_cons.1 hop'
    · rintro (hkind | ⟨hkind, htarget⟩)
      · exact htable op' List.mem_cons_self hkind
      · obtain hsuperseded | ⟨region, hregion⟩ := hstep.on_record hkind htarget
        · exact not_awaits_of_lookup_none haccepted hdev hops hnone
            ⟨op', List.mem_cons_self, hsuperseded.1, htarget⟩
        · rw [hnone] at hregion
          cases hregion
    · exact ih (by rw [hops, List.append_assoc, List.singleton_append])
        (hstep.lookup_none hdev hnone) (fun op hop => htable op (List.mem_cons_of_mem _ hop))
        op' hop'

/-! ### When the mount points suit -/

theorem Executes.eq_of_nil (h : Executes start ops placed done) (hops : ops = []) :
    placed = start ∧ done = [] := by
  cases h with
  | nil => exact ⟨rfl, rfl⟩
  | snoc h hname hdevice op => simp at hops

/-- A run over a first operation is a step and a run over the others. -/
theorem Executes.cons_inv {later : List PartitionOperation}
    (h : Executes start (op :: later) placed done) :
    ∃ name doneLater, name ∉ start.layout.names ∧ Plan.normalizeDevicePath name = some name ∧
      Executes (start.after name op) later placed doneLater ∧
      done = executedOp name op :: doneLater := by
  obtain ⟨middle, doneFirst, doneLater, hfirst, hlater, rfl⟩ :=
    h.append_inv (List.singleton_append (x := op) (l := later)).symm
  obtain ⟨first, doneNil, name, hnil, hname, hdevice, rfl, rfl⟩ :=
    hfirst.concat_inv (List.nil_append [op]).symm
  obtain ⟨rfl, rfl⟩ := hnil.eq_of_nil rfl
  exact ⟨name, doneLater, hname, hdevice, hlater, rfl⟩

theorem Placed.Holds.not_suited {fstype mount : String} (h : placed.Holds partition fstype mount)
    (hunsuited : ¬ Suits mount fstype) : ¬ placed.Suited := by
  obtain ⟨⟨e, he, rfl, rfl⟩, hmount⟩ := h
  exact fun hsuited => hunsuited (hsuited e he mount hmount)

/-- A format that spoils a mount point leaves it spoiled. -/
theorem not_suited_of_formatSpoils (haccepted : validate journal parts tableType size = [])
    (hlisting : IsListing parts)
    (hexecutes : Executes (initialPlaced parts) journal.ops placed done)
    (hops : journal.ops = before ++ op :: after)
    (hspoils : FormatSpoils (runState (context journal size) (initialState parts tableType)
      before).mountAssignments op after) : ¬ placed.Suited := by
  obtain ⟨hkind, partition, mount, htarget, hassigned, hunsuited, huntouched⟩ := hspoils
  obtain ⟨middle, doneBefore, doneRest, hbefore, hrest, -⟩ := hexecutes.append_inv hops
  obtain ⟨name, doneAfter, hname, -, hafter, -⟩ := hrest.cons_inv
  have hfollows := follows_of_executes haccepted hlisting hops hbefore
  have htracks := tracks_of_executes haccepted hlisting hops hbefore
  obtain hsuperseded | ⟨region, hregion⟩ :=
    (stepped_of_accepted haccepted hops).on_record (.inr (.inl hkind)) htarget
  · exact absurd hsuperseded.1 (by simp [hkind])
  obtain ⟨e, he, -, rfl⟩ := htracks.found partition region (target_dev htarget) hregion
  have hnone : ¬ Awaits (op :: after) e.name := by
    rw [awaits_cons_of_kind (by simp [hkind])]
    rintro hlater
    obtain ⟨op', hop', htouches⟩ := hlater.touched
    exact huntouched op' hop' htouches
  have hformatted : (middle.after name op).Holds e.name
      (probedFstype (valueString op.params "fs_type")) mount := by
    refine ⟨⟨e.format op.params, ?_, e.format_name op.params, by simp only [Extent.format]⟩, ?_⟩
    · simp only [Placed.after, applyOperation, hkind]
      exact List.mem_map.2 ⟨e, he, if_pos htarget.symm⟩
    · simp only [Placed.after, mountsAfter, hkind]
      rw [← hfollows.mounted e he region hregion hnone, hassigned]
  exact (hafter.holds hformatted huntouched).not_suited hunsuited

/-- So does a swap partition that nothing initializes. -/
theorem not_suited_of_swapSpoils (haccepted : validate journal parts tableType size = [])
    (hlisting : IsListing parts)
    (hexecutes : Executes (initialPlaced parts) journal.ops placed done)
    (hops : journal.ops = before ++ op :: after) (hspoils : SwapSpoils op after) :
    ¬ placed.Suited := by
  obtain ⟨hkind, hfs, hmount, htable⟩ := hspoils
  obtain ⟨middle, doneBefore, doneRest, hbefore, hrest, -⟩ := hexecutes.append_inv hops
  obtain ⟨name, doneAfter, hname, hdevice, hafter, -⟩ := hrest.cons_inv
  have hdev : startsWith name "/dev/" = true := (Plan.normalizeDevicePath_spec hdevice).1
  have hops' : journal.ops = (before ++ [op]) ++ after := by
    rw [hops, List.append_assoc, List.singleton_append]
  have htracks := tracks_of_executes haccepted hlisting hops' (hbefore.snoc hname hdevice op)
  have hmem : createdExtent name op ∈ (middle.after name op).layout := by
    simp only [Placed.after, applyOperation, hkind]
    exact List.mem_cons_self
  have hnone := htracks.lookup_of_not_isNamed hmem hdev (by rintro (hn | hn) <;> cases hn)
  have hcreated : (middle.after name op).Holds name "" (createMount op.params) := by
    refine ⟨⟨createdExtent name op, hmem, rfl, ?_⟩, ?_⟩
    · simp only [createdExtent, createdFstype, if_pos hfs]
    · simp only [Placed.after, mountsAfter, hkind]
      rw [lookup_assignMount_self, if_neg hmount]
  have huntouched := not_touches_of_lookup_none haccepted hdev hops' hnone htable
  exact (hafter.holds hcreated huntouched).not_suited (not_suits_empty _)

/-- After an accepted journal has run, the filesystem of every partition suits its mount point if
and only if no `format` has the last word on a partition with a mount point that its filesystem does
not suit, and no swap partition with a mount point stays as it was created. -/
theorem mounts_suit_iff (haccepted : validate journal parts tableType size = [])
    (hlisting : IsListing parts)
    (hexecutes : Executes (initialPlaced parts) journal.ops placed done) :
    placed.Suited ↔ ∀ before op after, journal.ops = before ++ op :: after →
      ¬ FormatSpoils (runState (context journal size) (initialState parts tableType)
        before).mountAssignments op after ∧ ¬ SwapSpoils op after := by
  constructor
  · intro hsuited before op after hops
    constructor
    · intro hspoils
      exact not_suited_of_formatSpoils haccepted hlisting hexecutes hops hspoils hsuited
    · intro hspoils
      exact not_suited_of_swapSpoils haccepted hlisting hexecutes hops hspoils hsuited
  · intro hclean e he mount hmount
    have hsettled := settled_of_executes haccepted hlisting hclean
      (List.append_nil journal.ops).symm hexecutes
    obtain hsuits | ⟨op, hop, -⟩ := hsettled e he mount hmount
    · exact hsuits
    · cases hop

end Run

/-- The disk after the root partition was created on an empty one. -/
def placedRoot : Placed :=
  Placed.after "/dev/sda1" (initialPlaced []) (createRoot 0)

theorem executes_createRoot :
    Executes (initialPlaced []) [createRoot 0] placedRoot
      [executedOp "/dev/sda1" (createRoot 0)] :=
  .snoc .nil (by decide) (by decide) (createRoot 0)

theorem createRoot_suited :
    validate { disk := "/dev/sda", ops := [createRoot 0] } [] "gpt" 0x100000000 = [] ∧
      placedRoot.Suited := by
  have haccepted : validate { disk := "/dev/sda", ops := [createRoot 0] } [] "gpt" 0x100000000 =
      [] := by decide
  refine ⟨haccepted, (mounts_suit_iff haccepted ⟨by simp, by simp⟩ executes_createRoot).mpr ?_⟩
  intro before op after hops
  have hop : op = createRoot 0 := by
    have hmem : op ∈ before ++ op :: after := List.mem_append_right before List.mem_cons_self
    rw [← hops] at hmem
    exact List.mem_singleton.mp hmem
  subst hop
  constructor
  · rintro ⟨hkind, -⟩
    cases hkind
  · rintro ⟨-, hfs, -⟩
    revert hfs
    decide

/-- A Btrfs partition of 1 GiB at 1 GiB. -/
def btrfsPartition : PartitionRecord where
  name := "/dev/sda1"
  sizeBytes := 0x40000000
  startBytes := 0x40000000
  fstype := "btrfs"
  mountpoints := []
  current := false
  inUse := false

/-- The partition becomes the root. -/
def setRoot (index : ℕ) : PartitionOperation where
  kind := .setMountpoint
  params := .object [("partition", .string "/dev/sda1"), ("mountpoint", .string "/")]
  index := index

/-- The partition gets an ext4 filesystem. -/
def formatExt4 (index : ℕ) : PartitionOperation where
  kind := .format
  params := .object [("partition", .string "/dev/sda1"), ("fs_type", .string "ext4")]
  index := index

/-- The partition after it became the root. -/
def placedAsRoot : Placed :=
  Placed.after "/dev/sda2" (initialPlaced [btrfsPartition]) (setRoot 0)

/-- The partition after it was formatted. -/
def placedAsExt4 : Placed :=
  Placed.after "/dev/sda2" placedAsRoot (formatExt4 1)

theorem executes_formatExt4 :
    Executes (initialPlaced [btrfsPartition]) [setRoot 0, formatExt4 1] placedAsExt4
      [setRoot 0, formatExt4 1] := by
  have hset : Executes (initialPlaced [btrfsPartition]) [setRoot 0] placedAsRoot [setRoot 0] :=
    .snoc .nil (by decide) (by decide) (setRoot 0)
  exact .snoc hset (by decide) (by decide) (formatExt4 1)

/-- A root partition that is formatted as ext4 afterwards is accepted. -/
theorem format_after_set_root_accepted :
    validate { disk := "/dev/sda", ops := [setRoot 0, formatExt4 1] } [btrfsPartition] "gpt"
        0x100000000 = [] ∧
      IsListing [btrfsPartition] ∧
      ∃ placed done, Executes (initialPlaced [btrfsPartition]) [setRoot 0, formatExt4 1] placed
        done ∧ ¬ placed.Suited := by
  refine ⟨by decide, ⟨by simp, by decide⟩, _, _, executes_formatExt4, ?_⟩
  intro hsuited
  have hroot : placedAsExt4.mounts.lookup "/dev/sda1" = some "/" := by decide
  have hextent : ∃ e ∈ placedAsExt4.layout, e.name = "/dev/sda1" ∧ e.fstype = "ext4" := by
    decide
  obtain ⟨e, he, hname, hfs⟩ := hextent
  have hsuits := hsuited e he "/" (hname ▸ hroot)
  rw [hfs] at hsuits
  exact absurd hsuits (by decide)

end Kyth.Journal

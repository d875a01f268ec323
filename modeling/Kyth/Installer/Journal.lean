import Kyth.Installer.Manual
import Kyth.Installer.Partitions
import Kyth.Installer.Plan
import Kyth.Lib.Json

/-!
# The partition journal and its validation (`installer_journal.rs`)

A `PartitionJournal` is the list of operations staged in the partition editor. `validate` checks
it against a snapshot of the disk without touching a device: it keeps its own picture of the
layout (`ValidateState.allocated`, a map from names to byte ranges), of the mount points and of
the number of primary partitions, and walks the operations through it.

The loop body is split in two: `stepErrors` are the messages an operation adds, `stepState` is the
picture after it. The picture never depends on the messages, so `runErrors` just concatenates.
-/

namespace Kyth.Journal

open Str Word Json Storage

/-- The kinds of operations a journal may hold; any other spelling is kept as it is. -/
inductive OpKind
  | newTable
  | create
  | delete
  | resize
  | format
  | setMountpoint
  | other (name : String)
  deriving DecidableEq, Repr

/-- The spelling of a kind in a journal. -/
def OpKind.text : OpKind → String
  | .newTable => "new_table"
  | .create => "create"
  | .delete => "delete"
  | .resize => "resize"
  | .format => "format"
  | .setMountpoint => "set_mountpoint"
  | .other name => name

/-- `PartitionOperation`. -/
structure PartitionOperation where
  kind : OpKind
  params : Value
  index : ℕ
  deriving Repr

/-- `PartitionJournal`. -/
structure PartitionJournal where
  disk : String
  ops : List PartitionOperation := []
  committed : Bool := false
  rootPartition : Option String := none
  irreversibleCompleted : Bool := false
  diskModel : Option String := none
  diskSerial : Option String := none
  diskSizeBytes : Option UInt64 := none
  deriving Repr

/-! ### Reading parameters -/

/-- `value_string`. -/
def valueString (params : Value) (key : String) : String :=
  trim (((params.get key).bind Value.asStr).getD "")

/-- `value_i64`. -/
def valueI64 (params : Value) (key : String) (fallback : ℤ) : ℤ :=
  match params.get key with
  | some (.number value) => value.asI64.getD fallback
  | some (.string value) => (parseI64 value).getD fallback
  | _ => fallback

/-- `value_u64`. -/
def valueU64 (params : Value) (key : String) (fallback : UInt64) : UInt64 :=
  match params.get key with
  | some (.number value) => value.asU64.getD fallback
  | some (.string value) => (parseU64 value).getD fallback
  | _ => fallback

/-- A parameter that reads as a positive `i64` reads as the same `u64`. -/
theorem valueU64_of_valueI64 {params : Value} {key : String} (h : 0 < valueI64 params key (-1)) :
    ((valueU64 params key 0).toNat : ℤ) = valueI64 params key (-1) := by
  unfold valueI64 at h ⊢
  unfold valueU64
  cases hget : params.get key with
  | none => rw [hget] at h; simp at h
  | some value =>
    rw [hget] at h
    cases value with
    | number n =>
      cases n with
      | posInt n =>
        simp only [Number.asI64, Number.asU64] at h ⊢
        split_ifs at h ⊢ <;> simp_all
      | negInt n =>
        simp only [Number.asI64, Option.getD_some] at h
        omega
      | float _ => simp [Number.asI64] at h
    | string s =>
      simp only at h ⊢
      cases hs : parseI64 s with
      | none => rw [hs] at h; simp at h
      | some v =>
        rw [hs] at h
        obtain ⟨u, hu, huv⟩ := parseU64_of_parseI64 hs h
        simp [hu, huv]
    | _ => simp at h

/-- A parameter fits in an `i64`. -/
theorem valueI64_lt {params : Value} {key : String} : valueI64 params key (-1) < 2 ^ 63 := by
  unfold valueI64
  split
  · rename_i n _
    cases n with
    | posInt n => simp only [Number.asI64]; split_ifs <;> simp; omega
    | negInt n => simp only [Number.asI64, Option.getD_some]; omega
    | float _ => simp [Number.asI64]
  · rename_i s _
    cases hs : parseI64 s with
    | none => simp
    | some v => simpa using parseI64_lt hs
  · norm_num

/-- `is_efi_mountpoint`. -/
def isEfiMountpoint (mountpoint : String) : Bool :=
  trimEndMatches (trim mountpoint) '/' == "/boot/efi"

/-- The filesystem names the mount checks treat alike. -/
def mountFilesystem (filesystem : String) : String :=
  match toAsciiLowercase filesystem with
  | "swap" => "linux-swap"
  | "fat" => "fat32"
  | "vfat" => "fat32"
  | other => other

/-- `validated_mountpoint`. -/
def validatedMountpoint (raw filesystem : String) : Except String String :=
  if raw = "" then .ok ""
  else do
    let fs := mountFilesystem filesystem
    let mountpoint ← Manual.normalizeMountpoint raw fs true
    if isEfiMountpoint mountpoint then
      if fs ≠ "fat32" then throw "EFI mount point requires a FAT32 filesystem"
    else if fs ∉ ["btrfs", "ext4", "xfs", "linux-swap"] then
      throw ("filesystem " ++ fs ++ " cannot be mounted by the Kyth installer")
    return mountpoint

/-! ### Shrink attestations -/

/-- `IRREVERSIBLE_WARNING`. -/
def irreversibleWarning : String :=
  ("This operation cannot be undone: shrinking, deleting, or reformatting a partition destroys " ++
    "data the installer cannot restore. Verify the target, connect AC power, and keep a GPT backup on " ++
    "external media before committing.")

/-- `path_on_external_media`. -/
def pathOnExternalMedia (path : String) : Bool :=
  let path := trim path
  startsWith path "/" && !contains path ".." &&
    (startsWith path "/run/media/" || startsWith path "/mnt/")

/-- A message when a condition holds. -/
def complain (c : Prop) [Decidable c] (message : String) : List String :=
  if c then [message] else []

@[simp] theorem complain_eq_nil {c : Prop} [Decidable c] {message : String} :
    complain c message = [] ↔ ¬ c := by
  unfold complain; split_ifs <;> simp [*]

/-- A parameter that holds the JSON value `true`. -/
def isTrue (params : Value) (key : String) : Bool :=
  (params.get key).bind Value.asBool == some true

/-- `validate_shrink_preconditions`. -/
def validateShrinkPreconditions (fstype : String) (params : Value) : List String :=
  let backup := valueString params "gpt_backup_path"
  (if backup = "" then
      ["Shrink partition: a GPT backup file path is required before this shrink commits. " ++
        irreversibleWarning]
    else complain (¬ pathOnExternalMedia backup)
      ("Shrink partition: GPT backup " ++ debug backup ++
        (" must be on external media (/run/media/…, /mnt/…) — a backup on the disk being shrunk " ++
          "is lost with it. ") ++ irreversibleWarning)) ++
  complain ((fstype = "ntfs" ∨ fstype = "ntfs3") ∧ ¬ isTrue params "ntfs_verified_clean")
    ("Shrink partition: the NTFS dirty bit must be re-verified clear immediately pre-shrink " ++
      "(Windows may have run since the probe). " ++ irreversibleWarning) ++
  complain (¬ isTrue params "on_ac_power")
    ("Shrink partition: AC power must be confirmed online before this shrink commits — losing " ++
      "power mid-shrink cannot be undone. " ++ irreversibleWarning)

/-! ### The picture `validate` keeps -/

/-- A byte range with the filesystem on it, in the `i64` arithmetic of `validate`. -/
structure Region where
  start : ℤ
  stop : ℤ
  fstype : String
  deriving DecidableEq, Repr

/-- The local variables of `validate` that its loop updates. -/
structure ValidateState where
  mountAssignments : StringMap String
  allocated : StringMap Region
  table : String
  primaryCount : ℕ

/-- What the loop reads and never changes. -/
structure ValidateContext where
  disk : String
  diskSizeBytes : ℕ
  lastMountpoints : StringMap ℕ

/-- `last_mountpoint_indices`. -/
def lastMountpointIndices (ops : List PartitionOperation) : StringMap ℕ :=
  ops.foldl (fun last op =>
    let partition := valueString op.params "partition"
    if op.kind = .setMountpoint ∧ partition ≠ "" then last.insert partition op.index else last) ∅

/-- A table type in lower case, with `dos` read as `msdos`. -/
def tableName (value : String) : String :=
  let table := toAsciiLowercase value
  if table = "dos" then "msdos" else table

/-- The message about a table type that is neither GPT nor MBR. -/
def tableErrors (table : String) : List String :=
  complain (table ∉ ["gpt", "msdos", "dos"]) ("Unsupported partition table type: " ++ table ++ ".")

/-- The region of a partition of the snapshot. -/
def recordRegion (part : PartitionRecord) : Region where
  start := asI64 part.startBytes.toNat
  stop := asI64 (satAddU64 part.startBytes.toNat part.sizeBytes.toNat)
  fstype := part.fstype

/-- The regions of the snapshot, by name. -/
def initialRegions (parts : List PartitionRecord) : StringMap Region :=
  parts.foldl (fun regions part => regions.insert part.name (recordRegion part)) ∅

/-- The variables before the loop. -/
def initialState (parts : List PartitionRecord) (tableType : String) : ValidateState where
  mountAssignments := ∅
  allocated := initialRegions parts
  table := tableName tableType
  primaryCount := if tableName tableType = "msdos" then parts.length else 0

/-- The name under which `validate` files the BIOS boot partition of a new GPT table. -/
def biosBootKey : String := "automatic BIOS boot partition"

/-- The name under which `validate` files the partition an operation creates. -/
def createdKey (index : ℕ) : String := "new:" ++ toString index

/-- The first region of the picture that `[start, stop)` overlaps, other than `except`'s. -/
def overlapping (allocated : StringMap Region) (exempt : Option String) (start stop : ℤ) :
    Option String :=
  (allocated.entries.find? fun entry =>
    decide (some entry.1 ≠ exempt ∧ 0 ≤ entry.2.start ∧ entry.2.start < entry.2.stop ∧
      start < entry.2.stop ∧ entry.2.start < stop)).map Sigma.fst

/-- The message about an overlap, if there is one. -/
def overlapErrors (allocated : StringMap Region) (exempt : Option String) (start stop : ℤ)
    (message : String → String) : List String :=
  ((overlapping allocated exempt start stop).map message).toList

/-! ### One operation: `new_table` and `create` -/

/-- The table type a `new_table` asks for. -/
def requestedTable (params : Value) : String :=
  let value := valueString params "table_type"
  if value = "" then "gpt" else tableName value

/-- The picture after `new_table`. -/
def newTableState (params : Value) : ValidateState where
  mountAssignments := ∅
  allocated :=
    if requestedTable params = "gpt" then
      AList.singleton biosBootKey ⟨1024 * 1024, 2 * 1024 * 1024, "bios_grub"⟩
    else ∅
  table := requestedTable params
  primaryCount := 0

/-- The mount point of a `create`; a refused one counts as none. -/
def createMount (params : Value) : String :=
  match validatedMountpoint (valueString params "mountpoint")
      (toAsciiLowercase (valueString params "fs_type")) with
  | .ok mount => mount
  | .error _ => ""

/-- The messages of a `create`. -/
def createErrors (ctx : ValidateContext) (s : ValidateState) (params : Value) : List String :=
  let start := valueI64 params "start_bytes" (-1)
  let size := valueI64 params "size_bytes" (-1)
  let fs := toAsciiLowercase (valueString params "fs_type")
  let mount := createMount params
  let stop := satAddI64 start size
  (match validatedMountpoint (valueString params "mountpoint") fs with
    | .ok _ => []
    | .error error => ["Create partition: " ++ error ++ "."]) ++
  complain (start ≤ 0 ∨ size ≤ 0) "Create partition: invalid start or size." ++
  complain (0 < start ∧ 0 < size ∧ (start % 512 ≠ 0 ∨ size % 512 ≠ 0))
    "Create partition: start and size must align to 512-byte sectors." ++
  complain (0 < start ∧ 0 < size ∧ 0 < ctx.diskSizeBytes ∧ ctx.diskSizeBytes < asU64 stop)
    ("Create partition: new partition extends past the end of " ++ ctx.disk ++ ".") ++
  (if 0 ≤ start ∧ 0 ≤ size then
      overlapErrors s.allocated none start stop fun name =>
        "New partition overlaps with existing region (" ++ name ++ ")."
    else []) ++
  complain (s.table = "msdos" ∧ 4 ≤ s.primaryCount)
    ("MBR (msdos) partition tables support at most 4 primary partitions, and this installer does " ++
      "not create extended/logical partitions. Use a GPT table instead, or remove a partition from this " ++
      "layout.") ++
  complain (mount = "/" ∧ fs ≠ "btrfs") "Root partition (/) must use the Btrfs filesystem." ++
  complain (mount = "/boot/efi" ∧ fs ≠ "fat32")
    "EFI System Partition (/boot/efi) must use FAT32." ++
  complain (mount ≠ "" ∧ ∃ entry ∈ s.mountAssignments.entries, entry.2 = mount)
    ("Mount point " ++ mount ++ " is assigned more than once.")

/-- The picture after a `create`. -/
def createState (s : ValidateState) (op : PartitionOperation) : ValidateState :=
  let start := valueI64 op.params "start_bytes" (-1)
  let size := valueI64 op.params "size_bytes" (-1)
  let mount := createMount op.params
  { mountAssignments :=
      if mount = "" then s.mountAssignments
      else s.mountAssignments.insert (createdKey op.index) mount
    allocated := s.allocated.insert (createdKey op.index)
      ⟨start, satAddI64 start size, toAsciiLowercase (valueString op.params "fs_type")⟩
    table := s.table
    primaryCount := if s.table = "msdos" then s.primaryCount + 1 else s.primaryCount }

/-! ### One operation: those that name a partition -/

/-- The messages of a `resize` that leave the picture as it is. -/
def resizeErrors (ctx : ValidateContext) (s : ValidateState) (partition : String)
    (region : Region) (params : Value) : List String :=
  let newSize := valueI64 params "new_size_bytes" (-1)
  let currentSize := satSubI64 region.stop region.start
  let newEnd := satAddI64 region.start newSize
  if newSize ≤ 0 then ["Resize partition: invalid new size."]
  else
    complain (newSize % 512 ≠ 0) "Resize partition: new size must align to 512-byte sectors." ++
    complain (0 < currentSize ∧ currentSize < newSize)
      "Resize partition: growing filesystems is not supported by this operation." ++
    complain (0 < ctx.diskSizeBytes ∧ ctx.diskSizeBytes < asU64 newEnd)
      ("Resize partition: new size for " ++ partition ++ " extends past the end of " ++ ctx.disk ++
        ".") ++
    overlapErrors s.allocated (some partition) region.start newEnd fun name =>
      "Resize partition: new size for " ++ partition ++
        " would overlap with existing region (" ++ name ++ ")."

/-- The shrink attestations a `resize` has to carry. They never block the picture. -/
def shrinkErrors (region : Region) (params : Value) : List String :=
  let newSize := valueI64 params "new_size_bytes" (-1)
  let currentSize := satSubI64 region.stop region.start
  if 0 < newSize ∧ (currentSize ≤ 0 ∨ newSize < currentSize) then
    validateShrinkPreconditions region.fstype params
  else []

/-- The mount point of a `set_mountpoint`; a refused one counts as none. -/
def setMount (region : Region) (params : Value) : String :=
  match validatedMountpoint (valueString params "mountpoint") region.fstype with
  | .ok mount => mount
  | .error _ => ""

/-- The messages of a `set_mountpoint`. -/
def setMountpointErrors (s : ValidateState) (partition : String) (region : Region)
    (params : Value) : List String :=
  let mount := setMount region params
  (match validatedMountpoint (valueString params "mountpoint") region.fstype with
    | .ok _ => []
    | .error error => ["Set mount point: " ++ error ++ "."]) ++
  complain (mount = "/" ∧ region.fstype ≠ "btrfs")
    "Root partition (/) must use the Btrfs filesystem." ++
  complain (mount = "/boot/efi" ∧ region.fstype ∉ ["fat", "fat32", "vfat"])
    "EFI System Partition (/boot/efi) must use FAT32." ++
  complain (mount ≠ "" ∧ ∃ entry ∈ s.mountAssignments.entries,
      entry.1 ≠ partition ∧ entry.2 = mount)
    ("Mount point " ++ mount ++ " is assigned more than once.")

/-- The messages of an operation that names a partition of the picture. -/
def targetErrors (ctx : ValidateContext) (s : ValidateState) (kind : OpKind) (partition : String)
    (region : Region) (params : Value) : List String :=
  match kind with
  | .resize => shrinkErrors region params ++ resizeErrors ctx s partition region params
  | .setMountpoint => setMountpointErrors s partition region params
  | _ => []

/-- The picture after an operation that names a partition of it. -/
def targetState (ctx : ValidateContext) (s : ValidateState) (kind : OpKind) (partition : String)
    (region : Region) (params : Value) : ValidateState :=
  match kind with
  | .delete =>
      { s with
        mountAssignments := s.mountAssignments.erase partition
        allocated := s.allocated.erase partition
        primaryCount := if s.table = "msdos" then s.primaryCount - 1 else s.primaryCount }
  | .resize =>
      if resizeErrors ctx s partition region params = [] then
        { s with
          allocated := s.allocated.insert partition
            { region with
              stop := satAddI64 region.start (valueI64 params "new_size_bytes" (-1)) } }
      else s
  | .format =>
      { s with
        allocated := s.allocated.insert partition
          { region with fstype := toAsciiLowercase (valueString params "fs_type") } }
  | .setMountpoint =>
      if setMountpointErrors s partition region params = [] then
        { s with
          mountAssignments :=
            if setMount region params = "" then s.mountAssignments.erase partition
            else s.mountAssignments.insert partition (setMount region params) }
      else s
  | _ => s

/-- The messages of an operation that names a partition. -/
def namedErrors (ctx : ValidateContext) (s : ValidateState) (kind : OpKind) (params : Value) :
    List String :=
  match Plan.normalizeDevicePath (valueString params "partition") with
  | none => [kind.text ++ ": partition does not belong to " ++ ctx.disk ++ "."]
  | some partition =>
      match s.allocated.lookup partition with
      | none => [kind.text ++ ": " ++ partition ++ " is not present on " ++ ctx.disk ++ "."]
      | some region => targetErrors ctx s kind partition region params

/-- The picture after an operation that names a partition. -/
def namedState (ctx : ValidateContext) (s : ValidateState) (kind : OpKind) (params : Value) :
    ValidateState :=
  match Plan.normalizeDevicePath (valueString params "partition") with
  | none => s
  | some partition =>
      match s.allocated.lookup partition with
      | none => s
      | some region => targetState ctx s kind partition region params

/-- A `set_mountpoint` that a later one for the same partition replaces. -/
def isSuperseded (ctx : ValidateContext) (op : PartitionOperation) : Prop :=
  op.kind = .setMountpoint ∧ valueString op.params "partition" ≠ "" ∧
    ctx.lastMountpoints.lookup (valueString op.params "partition") ≠ some op.index

instance (ctx : ValidateContext) (op : PartitionOperation) : Decidable (isSuperseded ctx op) :=
  inferInstanceAs (Decidable (_ ∧ _))

/-- The messages of one turn of the loop. -/
def stepErrors (ctx : ValidateContext) (s : ValidateState) (op : PartitionOperation) :
    List String :=
  if isSuperseded ctx op then []
  else
    match op.kind with
    | .newTable => tableErrors (requestedTable op.params)
    | .create => createErrors ctx s op.params
    | .other name => ["Unsupported partition operation: " ++ name ++ "."]
    | kind => namedErrors ctx s kind op.params

/-- The picture after one turn of the loop. -/
def stepState (ctx : ValidateContext) (s : ValidateState) (op : PartitionOperation) :
    ValidateState :=
  if isSuperseded ctx op then s
  else
    match op.kind with
    | .newTable => newTableState op.params
    | .create => createState s op
    | .other _ => s
    | kind => namedState ctx s kind op.params

/-! ### The whole check -/

/-- The messages of the loop. -/
def runErrors (ctx : ValidateContext) : ValidateState → List PartitionOperation → List String
  | _, [] => []
  | s, op :: ops => stepErrors ctx s op ++ runErrors ctx (stepState ctx s op) ops

/-- The picture after a list of operations. -/
def runState (ctx : ValidateContext) (s : ValidateState) (ops : List PartitionOperation) :
    ValidateState :=
  ops.foldl (stepState ctx) s

/-- The message about the number of root mount points. -/
def rootErrors (s : ValidateState) : List String :=
  let rootCount := s.mountAssignments.entries.countP fun entry => entry.2 == "/"
  if rootCount = 0 then
    ["No root partition (/) configured. Mount at least one partition as '/' with Btrfs."]
  else complain (1 < rootCount) "Exactly one root partition (/) must be configured."

/-- The message an operation causes for a partition that is mounted or in use. -/
def inUseError (ctx : ValidateContext) (part : PartitionRecord) (op : PartitionOperation) :
    Option String :=
  let partition := valueString op.params "partition"
  if Plan.normalizeDevicePath partition ≠ some part.name then none
  else if op.kind = .delete ∨ op.kind = .format ∨ op.kind = .resize then
    some ("Cannot modify " ++ part.name ++ " — it is currently mounted or in use.")
  else if op.kind = .setMountpoint ∧ valueString op.params "mountpoint" = "/" ∧
      ctx.lastMountpoints.lookup partition = some op.index then
    some ("Cannot set " ++ part.name ++
      " as the root partition — it is currently mounted or in use.")
  else none

/-- The messages about partitions that are mounted or in use, at most one for each. -/
def inUseErrors (ctx : ValidateContext) (parts : List PartitionRecord)
    (ops : List PartitionOperation) : List String :=
  (parts.filter fun part => part.current || part.inUse).filterMap fun part =>
    ops.findSome? (inUseError ctx part)

/-- The constants of a run of `validate`. -/
def context (journal : PartitionJournal) (diskSizeBytes : UInt64) : ValidateContext where
  disk := journal.disk
  diskSizeBytes := diskSizeBytes.toNat
  lastMountpoints := lastMountpointIndices journal.ops

/-- `validate`. -/
def validate (journal : PartitionJournal) (parts : List PartitionRecord) (tableType : String)
    (diskSizeBytes : UInt64) : List String :=
  if journal.ops = [] then ["No partition operations have been added."]
  else
    let ctx := context journal diskSizeBytes
    let s := initialState parts tableType
    tableErrors s.table ++ runErrors ctx s journal.ops ++
      rootErrors (runState ctx s journal.ops) ++ inUseErrors ctx parts journal.ops

end Kyth.Journal

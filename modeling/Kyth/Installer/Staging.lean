import Kyth.Installer.CommitRun

/-!
# The journal slot of the daemon (`NativeJournalRegistry` in `installer_daemon.rs`)

The daemon stages one partition journal at a time. Every route of the partition editor reads a JSON
body, checks it and edits, commits or discards the journal in the slot. What the machine answers
during a request is part of the request (`Environment`).
-/

namespace Kyth.Daemon

open Str Word Json Storage Journal

/-- The routes that `dispatch` tells apart. -/
inductive Route
  | newTable
  | create
  | pendingRemove
  | delete
  | resize
  | format
  | setMountpoint
  | commit
  | rollback
  | other
  deriving DecidableEq, Repr

/-- `DiskIdentity`. -/
structure DiskIdentity where
  serial : Option String
  model : Option String
  sizeBytes : Option UInt64
  deriving DecidableEq, Repr

/-- What the machine answers during a request. -/
structure Environment where
  diskExists : Except String Unit := .ok ()
  /-- `read_disk_identity`, when it succeeds. -/
  identity : Option DiskIdentity := none
  /-- `runtime_partition_records`. -/
  records : Except String (List PartitionRecord) := .ok []
  acOnline : Bool := true
  /-- What `blkid` prints about a device, when it succeeds. -/
  blkid : String → Option String := fun _ => none
  /-- What `ntfsfix -n` prints on its two outputs, and whether it succeeds. -/
  ntfsfix : String → Option (String × String × Bool) := fun _ => none
  /-- The machine under a commit, with the answer of the target guard and the paths of the
  temporary files. -/
  world : World
  guard : Except String Unit := .ok ()
  staged : String
  backupPath : String
  machine : Machine

/-- A request to the partition editor. -/
structure Request where
  route : Route
  value : Value
  env : Environment

/-- What a response says, as a JSON object. -/
inductive Body
  | refused (message : String)
  | done
  | pending (count : ℕ)
  /-- The answer to `create`, which also carries an empty list of errors. -/
  | staged (count : ℕ)
  | committed (result : CommitResult)

/-- A status code with a body. -/
abbrev Response := ℕ × Body

/-- `NativeJournalRegistry::disk`. -/
def disk (value : Value) : Option String :=
  ((value.get "disk").bind Value.asStr).bind Plan.normalizeDevicePath

/-- A string field of a body, or a default. -/
def stringField (value : Value) (key fallback : String) : String :=
  ((value.get key).bind Value.asStr).getD fallback

/-- The filesystems that the editor offers. -/
def isOffered (fs : String) : Prop := fs ∈ ["btrfs", "ext4", "xfs", "fat32", "linux-swap"]

instance (fs : String) : Decidable (isOffered fs) := inferInstanceAs (Decidable (_ ∈ _))

/-! ### Edits of a journal -/

/-- The identity of the next operation: one more than every identity in use. -/
def nextIndex (ops : List PartitionOperation) : ℕ :=
  match (ops.map PartitionOperation.index).max? with
  | some last => satAddU64 last 1
  | none => 0

/-- `add_op`. -/
def addOp (journal : PartitionJournal) (kind : OpKind) (params : Value) : PartitionJournal :=
  { journal with ops := journal.ops ++ [⟨kind, params, nextIndex journal.ops⟩] }

/-- `remove_op`. -/
def removeOp (journal : PartitionJournal) (index : ℕ) : Option PartitionJournal :=
  if journal.ops.any fun op => op.index == index then
    some { journal with ops := journal.ops.eraseP fun op => op.index == index }
  else none

/-- `rollback_metadata`. -/
def rollbackMetadata (journal : PartitionJournal) : Except String PartitionJournal :=
  if journal.committed then
    .error "Partition changes have already been committed and cannot be rolled back."
  else
    .ok { journal with ops := [], rootPartition := none, irreversibleCompleted := false }

/-- `PartitionJournal::new`. -/
def newJournal (raw : String) (identity : Option DiskIdentity) : Except String PartitionJournal :=
  match Plan.normalizeDevicePath raw with
  | none => .error "Invalid disk path for journal."
  | some disk => .ok
      { disk
        diskModel := identity.bind DiskIdentity.model
        diskSerial := identity.bind DiskIdentity.serial
        diskSizeBytes := identity.bind DiskIdentity.sizeBytes }

/-! ### The operation a request asks for -/

/-- A name that the kernel gives to partitions of a disk. -/
def partitionNameMatches (disk partition : String) : Bool :=
  let suffix := (stripPrefix partition disk).getD ""
  if disk.toList.getLast?.any isAsciiDigit then
    match stripPrefix suffix "p" with
    | some value => value != "" && all value isAsciiDigit
    | none => false
  else suffix != "" && all suffix isAsciiDigit

/-- `validate_target_request` on paths that are already normalized: its error, if any. -/
def targetError (env : Environment) (disk partition : String) : Option String :=
  if !partitionNameMatches disk partition then
    some ("Partition " ++ partition ++ " does not belong to the active disk " ++ disk ++ ".")
  else
    match env.records with
    | .ok parts =>
        if parts.any fun part => part.name == partition then none
        else some ("Partition " ++ partition ++ " is not present on the active disk " ++ disk ++ ".")
    | .error error => some error

/-- The parameters of a `create`. -/
def createParams (value : Value) : Except String Value :=
  match (value.get "start_bytes").bind Value.asU64, (value.get "size_bytes").bind Value.asU64 with
  | some startBytes, some sizeBytes =>
      let fsType := stringField value "fs_type" "btrfs"
      if sizeBytes = 0 then .error "Invalid start offset or size."
      else if ¬ isOffered fsType then .error ("Unsupported filesystem: " ++ fsType)
      else .ok (.object [("start_bytes", .nat startBytes), ("size_bytes", .nat sizeBytes),
        ("fs_type", .string fsType), ("label", .string (stringField value "label" "")),
        ("mountpoint", .string (stringField value "mountpoint" ""))])
  | _, _ => .error "Invalid start offset or size."

/-- `resize_op_params`. -/
def resizeOpParams (partition : String) (newSizeBytes : UInt64) (value : Value) :
    Except String Value :=
  let params := Value.object [("partition", .string partition),
    ("new_size_bytes", .nat newSizeBytes)]
  let backup := trim (stringField value "gpt_backup_path" "")
  if backup ≠ "" ∧ ¬ pathOnExternalMedia backup then
    .error ("GPT backup " ++ debug backup ++ " must be on external media (/run/media/…, /mnt/…) — " ++
      "a backup on the disk being shrunk is lost with it.")
  else
    let params := if backup = "" then params else params.set "gpt_backup_path" (.string backup)
    let params := match (value.get "ntfs_verified_clean").bind Value.asBool with
      | some clean => params.set "ntfs_verified_clean" (.bool clean)
      | none => params
    .ok (match (value.get "on_ac_power").bind Value.asBool with
      | some ac => params.set "on_ac_power" (.bool ac)
      | none => params)

/-- The kind and the parameters that the four routes about a named partition stage. -/
def namedParams (route : Route) (partition : String) (value : Value) :
    Except String (OpKind × Value) :=
  match route with
  | .delete => .ok (.delete, .object [("partition", .string partition)])
  | .resize =>
      match (value.get "new_size_bytes").bind Value.asU64 with
      | none => .error "A new size is required."
      | some newSizeBytes => do
          let params ← resizeOpParams partition newSizeBytes value
          return (.resize, params)
  | .format =>
      let fsType := stringField value "fs_type" "btrfs"
      if ¬ isOffered fsType then .error ("Unsupported filesystem: " ++ fsType)
      else .ok (.format, .object [("partition", .string partition), ("fs_type", .string fsType),
        ("label", .string (stringField value "label" ""))])
  | _ =>
      let mountpoint := stringField value "mountpoint" ""
      if mountpoint ≠ "" ∧ mountpoint ≠ "swap" ∧ ¬ startsWith mountpoint "/" then
        .error "Mount point must be an absolute path (e.g. /, /home)."
      else .ok (.setMountpoint, .object [("partition", .string partition),
        ("mountpoint", .string mountpoint)])

/-- The operation that an editing request stages on a disk. -/
def stagedOperation (request : Request) (disk : String) : Except String (OpKind × Value) :=
  if request.route = .create then do
    let params ← createParams request.value
    return (.create, params)
  else
    match ((request.value.get "partition").bind Value.asStr).bind Plan.normalizeDevicePath with
    | none => .error "Disk and partition are required."
    | some partition =>
        match targetError request.env disk partition with
        | some error => .error error
        | none => namedParams request.route partition request.value

/-! ### Attestations at commit time -/

/-- Change the parameters of every staged resize. -/
def stampResizes (stamp : Value → Value) (journal : PartitionJournal) : PartitionJournal :=
  { journal with
    ops := journal.ops.map fun op =>
      if op.kind = .resize then { op with params := stamp op.params } else op }

/-- `stamp_shrink_power_attestation`. -/
def stampShrinkPowerAttestation (env : Environment) : PartitionJournal → PartitionJournal :=
  stampResizes fun params => params.set "on_ac_power" (.bool env.acOnline)

/-- `probe_fs_type_is_ntfs`. -/
def probeFsTypeIsNtfs (env : Environment) (device : String) : Bool :=
  match env.blkid device with
  | some output =>
      let fs := toAsciiLowercase (trim output)
      fs == "" || fs == "ntfs" || fs == "ntfs3"
  | none => true

/-- `ntfs_volume_is_clean`. -/
def ntfsVolumeIsClean (env : Environment) (device : String) : Bool :=
  match env.ntfsfix device with
  | some (stdout, stderr, success) =>
      let combined := toAsciiLowercase stdout ++ " " ++ toAsciiLowercase stderr
      !contains combined "dirty" && !contains combined "corrupt" && success
  | none => false

/-- A resize whose target has to be checked: the request names an NTFS filesystem, or names none
and the probe does not rule one out. -/
def needsNtfsCheck (env : Environment) (params : Value) : Bool :=
  match (params.get "fs_type").bind Value.asStr with
  | some fs => fs == "ntfs" || fs == "ntfs3"
  | none => probeFsTypeIsNtfs env (stringField params "partition" "")

/-- `stamp_ntfs_attestation`. -/
def stampNtfsAttestation (env : Environment) : PartitionJournal → PartitionJournal :=
  stampResizes fun params =>
    if stringField params "partition" "" ≠ "" ∧ needsNtfsCheck env params = true then
      params.set "ntfs_verified_clean"
        (.bool (ntfsVolumeIsClean env (stringField params "partition" "")))
    else params

/-- The journal that a commit request runs. -/
def stampedJournal (env : Environment) (journal : PartitionJournal) : PartitionJournal :=
  stampNtfsAttestation env (stampShrinkPowerAttestation env journal)

/-! ### Dispatch -/

/-- A flag of a body that is the JSON value `true`. -/
def isConfirmed (value : Value) : Bool :=
  let acknowledged := ((value.get "acknowledged-irreversible").bind Value.asBool).or
    ((value.get "acknowledged_irreversible").bind Value.asBool)
  isTrue value "confirm_erase" && acknowledged == some true

/-- `journal_for`. -/
def journalFor (active : Option PartitionJournal) (disk : String) : Except String PartitionJournal :=
  match active with
  | some journal =>
      if journal.disk = disk then .ok journal
      else .error "No active partition journal for this disk. Create a new partition table first."
  | none => .error "No active partition journal for this disk. Create a new partition table first."

/-- The route `/api/disk/new-table`. -/
def dispatchNewTable (request : Request) (disk : String) :
    Except String PartitionJournal := do
  let tableType := stringField request.value "table_type" "gpt"
  if tableType ≠ "gpt" ∧ tableType ≠ "msdos" then throw "Table type must be 'gpt' or 'msdos'."
  request.env.diskExists
  let journal ← newJournal disk request.env.identity
  if journal.diskModel = none ∧ journal.diskSerial = none ∧ journal.diskSizeBytes = none then
    throw ("Could not capture the target disk identity (lsblk MODEL/SERIAL/SIZE); refusing to stage " ++
      "partition changes.")
  return addOp journal .newTable (.object [("table_type", .string tableType)])

/-- `commit_request` on the stamped journal. -/
def runCommit (env : Environment) (journal : PartitionJournal) : Except String CommitResult :=
  (commitRequest env.world env.guard env.staged env.backupPath (stampedJournal env journal)
    env.machine).1

/-- The response to a commit, with the journal that it leaves in the slot. -/
def commitResponse (journal : PartitionJournal) :
    Except String CommitResult → Response × Option PartitionJournal
  | .ok (.committed root committed) => ((200, .committed (.committed root committed)), some committed)
  | .ok (.invalid errors) => ((400, .committed (.invalid errors)), some journal)
  | .ok result => ((500, .committed result), some journal)
  | .error message => ((500, .refused message), some journal)

/-- The response to an editing request, with the journal that it leaves in the slot. -/
def stage (journal : PartitionJournal) (body : ℕ → Body) :
    Except String (OpKind × Value) → Response × Option PartitionJournal
  | .error message => ((400, .refused message), some journal)
  | .ok (kind, params) =>
      ((200, body (journal.ops.length + 1)), some (addOp journal kind params))

/-- A request about the journal of a disk, which must be in the slot. -/
def dispatchOn (request : Request) (disk : String) (journal : PartitionJournal) :
    Response × Option PartitionJournal :=
  match request.route with
  | .create => stage journal .staged (stagedOperation request disk)
  | .pendingRemove =>
      if journal.committed then
        ((400, .refused "Partition changes have already been committed and cannot be edited."),
          some journal)
      else
        match ((request.value.get "index").bind Value.asU64).bind fun index =>
            removeOp journal index.toNat with
        | none => ((400, .refused "Invalid pending operation index."), some journal)
        | some journal => ((200, .pending journal.ops.length), some journal)
  | .commit => commitResponse journal (runCommit request.env journal)
  | .rollback =>
      match rollbackMetadata journal with
      | .error message => ((400, .refused message), some journal)
      | .ok journal => ((200, .done), some journal)
  | _ => stage journal .pending (stagedOperation request disk)

/-- `dispatch`. -/
def dispatch (request : Request) (active : Option PartitionJournal) :
    Response × Option PartitionJournal :=
  match disk request.value with
  | none => ((400, .refused "No disk specified."), active)
  | some disk =>
      match request.route with
      | .newTable =>
          match dispatchNewTable request disk with
          | .error message => ((400, .refused message), active)
          | .ok journal => ((200, .pending journal.ops.length), some journal)
      | .other => ((404, .refused "Route not found."), active)
      | route =>
          if route = .commit ∧ ¬ isConfirmed request.value then
            ((400, .refused ("Confirm erase and acknowledge the irreversible partition change before " ++
              "committing.")), active)
          else
            match journalFor active disk with
            | .error message => ((400, .refused message), active)
            | .ok journal => dispatchOn request disk journal

end Kyth.Daemon

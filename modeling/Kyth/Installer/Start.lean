import Kyth.Installer.Bootc
import Kyth.Lib.Serde

/-!
# From a start request to the plans (`installer_daemon.rs`, `installer_job_executor.rs`)

The daemon decodes the storage part of `POST /api/start`, plans it and writes the canonical values
back into the body. The executor then reads the normalized body again, field by field, and plans it
once more.

A body is the JSON value. Of the executor's request the model has the parts that decide whether it
is accepted and those that the plans are built from.
-/

namespace Kyth.Start

open Json Serde Str Check Plan
open Bootc (BootcInstallInput)

/-! ### The daemon -/

/-- The spelling of a mode in a plan. -/
def spelling : InstallMode → String
  | .wipe => "wipe"
  | .resizeNtfs => "resize_ntfs"
  | .alongside => "alongside"
  | .freeSpace => "free_space"
  | .manual => "manual"

/-- Deserialize an `i64` as the plan input has it. -/
def decodeInt64 (v : Value) : Option Int64 := (decodeI64 v).map Int64.ofInt

/-- Deserialize an `Option`. -/
def decodeOption {α : Type} (decode : Value → Option α) : Value → Option (Option α)
  | .null => some none
  | v => (decode v).map some

/-- Deserialize a `Vec<String>`. -/
def decodeTexts : Value → Option (List String)
  | .array values => values.mapM Value.asStr
  | _ => none

/-- The derived `Deserialize` of `InstallerPlanInput`, for an object. -/
def decodeInput (fields : List (String × Value)) : Option InstallerPlanInput := do
  return {
    disk := ← field fields "disk" "" Value.asStr
    installMode := ← field fields "install_mode" "" Value.asStr
    targetPartition := ← field fields "target_partition" "" Value.asStr
    resizePartition := ← field fields "resize_partition" "" Value.asStr
    resizeGib := ← field fields "resize_gib" 0 decodeInt64
    freeRegionStart := ← field fields "free_region_start" 0 decodeInt64
    freeRegionEnd := ← field fields "free_region_end" 0 decodeInt64
    targetDiskSerial := ← field fields "target_disk_serial" none (decodeOption Value.asStr)
    targetDiskModel := ← field fields "target_disk_model" none (decodeOption Value.asStr)
    targetDiskSizeBytes := ← field fields "target_disk_size_bytes" none (decodeOption Value.asU64)
    flatpaks := ← field fields "flatpaks" [] decodeTexts }

/-- The values that the daemon writes back into the body. -/
def planFields (plan : InstallerPlan) : List (String × Value) :=
  [("disk", .string plan.disk), ("install_mode", .string (spelling plan.mode)),
    ("target_partition", .string (plan.targetPartition.getD "")),
    ("resize_partition", .string (plan.resizePartition.getD "")),
    ("resize_gib", .nat (UInt64.ofNat (plan.resizeBytes / bytesPerGib))),
    ("free_region_start", .nat (UInt64.ofNat (plan.freeRegionStart.getD 0))),
    ("free_region_end", .nat (UInt64.ofNat (plan.freeRegionEnd.getD 0)))]

/-- The plan that the daemon makes of a body. Serde also reads the fields of a structure from an
array; the daemon refuses such a body after it was planned. -/
def planOfBody : Value → Except String InstallerPlan
  | .object fields =>
      match decodeInput fields with
      | some input => buildPlan input
      | none => .error "Invalid installer plan"
  | _ => .error "Installer start request must be a JSON object."

/-- `normalize_start_request`. -/
def normalizeStartRequest (body : Value) : Except String Value := do
  let plan ← planOfBody body
  match body with
  | .object fields => return .object (Value.setFields (planFields plan) fields)
  | _ => throw "Installer start request must be a JSON object."

/-! ### The executor -/

/-- The identity of a disk. -/
structure DiskIdentity where
  model : Option String := none
  serial : Option String := none
  size : Option UInt64 := none
  deriving DecidableEq, Repr

/-- What the executor learns from the machine: what `lsblk` says about a disk, the hash of a
password, and the images of the environment. -/
structure Host where
  identity : String → DiskIdentity
  hashPassword : String → Except String String
  sourceImage : String
  targetImage : String

/-- `probe_disk_identity`. -/
def probeDiskIdentity (host : Host) (disk : String) : DiskIdentity :=
  match normalizeDevicePath disk with
  | some disk => host.identity disk
  | none => {}

/-- `WIPE_STAGING_MOUNTPOINT`. -/
def wipeStagingMountpoint : String := "/run/kyth-installer/install-root"

/-- `FILESYSTEM_STAGING_MOUNTPOINT`. -/
def filesystemStagingMountpoint : String := "/run/kyth-installer/alongside-target"

/-- `ManualMountInput`. -/
structure ManualMountInput where
  partition : String
  mountpoint : String
  fstype : String
  uuid : String
  deriving DecidableEq, Repr

/-- `ManualMountsInput`. -/
structure ManualMountsInput where
  configRoot : String
  fstabPath : String
  disk : String
  mounts : List ManualMountInput
  deriving DecidableEq, Repr

/-- `CreateUserInput`. -/
structure CreateUserInput where
  deployRoot : String
  targetRoot : String
  username : String
  passwordHash : String
  deriving DecidableEq, Repr

/-- `NativeInstallRequest`. -/
structure NativeInstallRequest where
  storage : InstallerPlanInput
  bootc : BootcInstallInput
  account : Option CreateUserInput
  manualMounts : Option ManualMountsInput
  deriving DecidableEq, Repr

section Fields

variable (fields : List (String × Value))

/-- The closure `text` of `from_http`. -/
def text (name fallback : String) : String :=
  ((fields.lookup name).bind Value.asStr).getD fallback

/-- The closure `number` of `from_http`. -/
def number (name : String) : Int64 := ((fields.lookup name).bind decodeInt64).getD 0

/-- The closure `flag` of `from_http`. -/
def flag (name : String) (fallback : Bool) : Bool :=
  ((fields.lookup name).bind Value.asBool).getD fallback

/-- The irreversible step is acknowledged, in either spelling of the key. -/
def acknowledged : Bool :=
  (((fields.lookup "acknowledged-irreversible").bind Value.asBool).or
    ((fields.lookup "acknowledged_irreversible").bind Value.asBool)).getD false

/-- The derived `Deserialize` of `ManualMountInput`. -/
def decodeMount : Value → Option ManualMountInput
  | .object fields => do
      return {
        partition := ← (fields.lookup "partition").bind Value.asStr
        mountpoint := ← (fields.lookup "mountpoint").bind Value.asStr
        fstype := ← (fields.lookup "fstype").bind Value.asStr
        uuid := ← (fields.lookup "uuid").bind Value.asStr }
  | .array [.string partition, .string mountpoint, .string fstype, .string uuid] =>
      some { partition, mountpoint, fstype, uuid }
  | _ => none

/-- The mounts of a manual installation. -/
def decodeMounts : Value → Option (List ManualMountInput)
  | .array values => values.mapM decodeMount
  | _ => none

/-- The mode as the executor reads it. -/
def requestMode : String := toAsciiLowercase (text fields "install_mode" "")

/-- The modes that install into a prepared filesystem. -/
def filesystemModes : List String := ["alongside", "manual", "free_space", "resize_ntfs"]

/-- The root that a mode is staged at. -/
def stagingRoot (installMode : String) : String :=
  if installMode ∈ filesystemModes then filesystemStagingMountpoint else wipeStagingMountpoint

/-- The password hash of the request, computed when a login has none. -/
def requestHash (host : Host) : Except String String :=
  if text fields "password_hash" "" = "" ∧ trim (text fields "username" "") ≠ "" then
    host.hashPassword (text fields "password" "")
  else .ok (text fields "password_hash" "")

/-- The manual mounts of the request. -/
def requestMounts (installMode targetRoot : String) : Except String (Option ManualMountsInput) :=
  if installMode = "manual" then
    if trim (text fields "uuid" "") = "" then
      .error "manual install request must include a non-empty uuid"
    else
      match decodeMounts ((fields.lookup "mounts").getD (.array [])) with
      | some mounts =>
          .ok (some
            { disk := text fields "disk" "", configRoot := targetRoot,
              fstabPath := targetRoot ++ "/etc/fstab", mounts })
      | none => .error "invalid manual mount request"
  else .ok none

/-- The Flatpak ids of the request. -/
def requestFlatpaks : Except String (List String) :=
  let ids := (((fields.lookup "flatpaks").bind Value.asArray).map
    (List.filterMap Value.asStr)).getD []
  match validateFlatpaks ids with
  | .ok flatpaks => .ok flatpaks
  | .error e => .error ("invalid flatpaks: " ++ e)

/-- The bootc request of a mode. -/
def requestBootc (host : Host) (installMode : String) : BootcInstallInput :=
  let filesystemInstall := decide (installMode ∈ filesystemModes)
  { subcommand := if filesystemInstall then "to-filesystem" else "to-disk"
    sourceImgref := host.sourceImage
    targetImgref := host.targetImage
    target := if filesystemInstall then filesystemStagingMountpoint else text fields "disk" ""
    skipFetchCheck := flag fields "skip_fetch_check" false
    skipFinalize := filesystemInstall
    rootSubvolume := flag fields "root_subvolume" filesystemInstall
    wipe := installMode == "wipe"
    encryption := text fields "encryption" "none"
    tpmRecoveryAck := flag fields "tpm_recovery_ack" false }

/-- The storage request. The identity of the disk is probed, never taken from the body. -/
def requestStorage (host : Host) (installMode : String) (flatpaks : List String) :
    InstallerPlanInput :=
  let disk := text fields "disk" ""
  let identity := probeDiskIdentity host disk
  { disk, installMode
    targetPartition := text fields "target_partition" ""
    resizePartition := text fields "resize_partition" ""
    resizeGib := number fields "resize_gib"
    freeRegionStart := number fields "free_region_start"
    freeRegionEnd := number fields "free_region_end"
    targetDiskSerial := identity.serial
    targetDiskModel := identity.model
    targetDiskSizeBytes := identity.size
    flatpaks }

end Fields

/-- `NativeInstallRequest::from_http`. -/
def fromHttp (host : Host) : Value → Except String NativeInstallRequest
  | .object fields => do
      if acknowledged fields = false then
        throw ("installation cannot start until the irreversible step is acknowledged: once " ++
          "partitioning starts, erased or resized data cannot be restored.")
      let username := trim (text fields "username" "")
      let passwordHash ← requestHash fields host
      let installMode := requestMode fields
      let targetRoot := stagingRoot installMode
      let manualMounts ← requestMounts fields installMode targetRoot
      let flatpaks ← requestFlatpaks fields
      return {
        storage := requestStorage fields host installMode flatpaks
        bootc := requestBootc fields host installMode
        account :=
          if username = "" then none
          else some { deployRoot := targetRoot, targetRoot, username, passwordHash }
        manualMounts }
  | _ => throw "installer start request must be a JSON object"

/-- `validate_start_acknowledgements`. -/
def validateStartAcknowledgements : Value → Except String Unit
  | .object fields => do
      if (fields.lookup "confirm_backup").bind Value.asBool ≠ some true then
        throw "Confirm that you have backed up anything you want to keep before installing."
      if (fields.lookup "confirm_erase").bind Value.asBool ≠ some true then
        throw "Confirm that the selected target may be erased before installing."
      if trim (text fields "username" "") = "" then
        throw "A login username is required to install KythOS."
      if text fields "password" "" = "" then
        throw "A login password is required to install KythOS."
  | _ => throw "Installer start request must be a JSON object."

/-- `native_request_from_start`, for a normalized body. -/
def nativeRequestFromStart (host : Host) (body : Value) : Except String NativeInstallRequest := do
  validateStartAcknowledgements body
  fromHttp host body

end Kyth.Start

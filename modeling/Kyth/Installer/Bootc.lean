import Kyth.Installer.Plan
import Kyth.Lib.Check

/-!
# The bootc command (`installer_bootc.rs`)

`Bootc.buildPlan` checks the request for `bootc install` and writes its argument vector. A plan
wipes a disk when it installs to the disk with `--wipe` among its options, which
`BootcInstallPlan.wipes_iff` reads off the request.
-/

namespace Kyth.Bootc

open Str Check Plan

/-- `BootcInstallInput`. -/
structure BootcInstallInput where
  subcommand : String
  sourceImgref : String
  targetImgref : String
  target : String
  skipFetchCheck : Bool := false
  skipFinalize : Bool := false
  rootSubvolume : Bool := false
  wipe : Bool := false
  encryption : String := ""
  tpmRecoveryAck : Bool := false
  deriving DecidableEq, Repr

/-- The subcommands of `bootc install`. -/
inductive Subcommand
  | toDisk
  | toFilesystem
  deriving DecidableEq, Repr

/-- The spelling of a subcommand. -/
def Subcommand.spelling : Subcommand → String
  | .toDisk => "to-disk"
  | .toFilesystem => "to-filesystem"

/-- The subcommand with a spelling. -/
def Subcommand.ofString : String → Option Subcommand
  | "to-disk" => some .toDisk
  | "to-filesystem" => some .toFilesystem
  | _ => none

/-- The encryption of the root device. -/
inductive Encryption
  | plaintext
  | tpm2
  deriving DecidableEq, Repr

/-- The encryption with a spelling. -/
def Encryption.ofString : String → Option Encryption
  | "" => some .plaintext
  | "none" => some .plaintext
  | "tpm2" => some .tpm2
  | _ => none

/-- `BootcInstallPlan`. -/
structure BootcInstallPlan where
  subcommand : Subcommand
  argv : List String
  target : String
  destructive : Bool
  requiresNetwork : Bool
  executor : String
  deriving DecidableEq, Repr

/-- `safe_reference`. -/
def safeReference (value label : String) : Except String String :=
  let value := trim value
  if value = "" || value.utf8ByteSize > 4096 || contains value ".." then
    .error (label ++ " is empty or unsafe.")
  else if !all value (fun c => isAsciiAlphanumeric c || c == '.' || c == '/' || c == '_' ||
      c == '@' || c == ':' || c == '+' || c == '-') then
    .error (label ++ " contains unsupported characters.")
  else .ok value

/-- The transports that an image reference may name. -/
def transports : List String := ["docker://", "containers-storage:", "oci:", "ostree:", "dir:"]

/-- `source_reference`. -/
def sourceReference (value : String) : Except String String := do
  let value ← safeReference value "source image reference"
  return if transports.any (startsWith value) then value else "docker://" ++ value

/-- `safe_absolute_path`. -/
def safeAbsolutePath (value label : String) : Except String String :=
  let value := trim value
  if !startsWith value "/" || value.utf8ByteSize > 4096 || contains value ".." then
    .error (label ++ " must be an absolute safe path.")
  else if !all value (fun c => isAsciiAlphanumeric c || c == '/' || c == '.' || c == '_' ||
      c == '+' || c == ':' || c == '-') then
    .error (label ++ " contains unsupported characters.")
  else .ok value

/-- The checked target of a subcommand. -/
def installTarget (subcommand : Subcommand) (target : String) : Except String String :=
  match subcommand with
  | .toDisk => requiredDevice target "bootc disk target must be a safe device path."
  | .toFilesystem => safeAbsolutePath target "bootc filesystem target"

/-- The options of a subcommand, after the image references. -/
def installOptions (subcommand : Subcommand) (encryption : Encryption) (input : BootcInstallInput) :
    Except String (List String) :=
  match subcommand, encryption with
  | .toFilesystem, .tpm2 =>
      .error ("encryption unsupported for bootc to-filesystem installs: encryption requires a " ++
        "to-disk install.")
  | .toFilesystem, .plaintext =>
      .ok (["--acknowledge-destructive"] ++
        (if input.skipFinalize then ["--skip-finalize"] else []) ++
        if input.rootSubvolume then ["--karg=rootflags=subvol=@"] else [])
  | .toDisk, encryption =>
      let setup := match encryption with | .plaintext => "direct" | .tpm2 => "tpm2-luks"
      .ok (["--filesystem", "btrfs", "--block-setup", setup] ++
        if input.wipe then ["--wipe"] else [])

/-- `build_plan`. -/
def buildPlan (input : BootcInstallInput) : Except String BootcInstallPlan := do
  let spelling := toAsciiLowercase (trim input.subcommand)
  match Subcommand.ofString spelling with
  | none => throw ("unsupported bootc install subcommand: " ++ spelling)
  | some subcommand => do
      let sourceImgref ← sourceReference input.sourceImgref
      let targetImgref ← safeReference input.targetImgref "target image reference"
      let encryption := toAsciiLowercase (trim input.encryption)
      match Encryption.ofString encryption with
      | none => throw ("encryption unsupported: '" ++ encryption ++
          "' is not a supported encryption mode (expected 'none' or 'tpm2').")
      | some encryption => do
          if encryption = .tpm2 ∧ input.tpmRecoveryAck = false then
            throw ("TPM encryption was requested without acknowledging the recovery risk: No " ++
              "recovery key is generated or stored. If the TPM is reset or the board is " ++
              "replaced, the encrypted disk cannot be recovered. Confirm you accept this risk " ++
              "before installing.")
          let target ← installTarget subcommand input.target
          let options ← installOptions subcommand encryption input
          let argv := ["bootc", "install", subcommand.spelling, "--source-imgref", sourceImgref,
            "--target-imgref", targetImgref] ++ options
          let argv :=
            if input.skipFetchCheck && !argv.contains "--skip-fetch-check" then
              argv ++ ["--skip-fetch-check"]
            else argv
          return { subcommand, argv := argv ++ [target], target, destructive := true,
                   requiresNetwork := startsWith sourceImgref "docker://",
                   executor := "kyth-installerd" }

/-- The command installs to a whole disk and wipes it. The options follow the seven words up to the
image references. -/
def BootcInstallPlan.Wipes (plan : BootcInstallPlan) : Prop :=
  plan.subcommand = .toDisk ∧ "--wipe" ∈ plan.argv.drop 7

instance (plan : BootcInstallPlan) : Decidable plan.Wipes := inferInstanceAs (Decidable (_ ∧ _))

variable {input : BootcInstallInput} {plan : BootcInstallPlan}

/-- What a request becomes. -/
theorem buildPlan_eq_ok (h : buildPlan input = .ok plan) :
    Subcommand.ofString (toAsciiLowercase (trim input.subcommand)) = some plan.subcommand ∧
      installTarget plan.subcommand input.target = .ok plan.target ∧
      ∃ encryption options fetch,
        installOptions plan.subcommand encryption input = .ok options ∧
        plan.argv.drop 7 = options ++ fetch ++ [plan.target] ∧ "--wipe" ∉ fetch := by
  unfold buildPlan at h
  simp only at h
  split at h
  · cases h
  · rename_i subcommand hsubcommand
    obtain ⟨sourceImgref, -, h⟩ := bind_eq_ok.1 h
    obtain ⟨targetImgref, -, h⟩ := bind_eq_ok.1 h
    split at h
    · cases h
    · rename_i encryption hencryption
      split_ifs at h with hack
      · cases h
      obtain ⟨target, htarget, h⟩ := bind_eq_ok.1 h
      obtain ⟨options, hoptions, h⟩ := bind_eq_ok.1 h
      cases h
      refine ⟨hsubcommand, htarget, encryption, options, ?_⟩
      split_ifs
      · exact ⟨["--skip-fetch-check"], hoptions, by simp, by decide⟩
      · exact ⟨[], hoptions, by simp, by simp⟩

/-- A command wipes the disk when the request installs to the disk and says so. -/
theorem wipes_iff (h : buildPlan input = .ok plan) :
    plan.Wipes ↔ Subcommand.ofString (toAsciiLowercase (trim input.subcommand)) = some .toDisk ∧
      input.wipe = true := by
  obtain ⟨hsubcommand, htarget, encryption, options, fetch, hoptions, hargv, hfetch⟩ :=
    buildPlan_eq_ok h
  rw [BootcInstallPlan.Wipes, hsubcommand, Option.some.injEq, hargv]
  refine and_congr_right fun hdisk => ?_
  rw [hdisk] at htarget hoptions
  have hdevice : plan.target ≠ "--wipe" := by
    rw [installTarget, requiredDevice] at htarget
    split at htarget
    · rename_i device hdevice
      cases htarget
      rintro hwipe
      have hdev := (normalizeDevicePath_spec hdevice).1
      rw [hwipe] at hdev
      exact absurd hdev (by decide)
    · cases htarget
  cases hoptions
  cases encryption <;> simp [hfetch, hdevice.symm]

end Kyth.Bootc

import Kyth.Lib.Check
import Kyth.Lib.Str
import Mathlib.Data.List.Dedup

/-!
# Request normalization and plan projection (`installer_plan.rs`)

The daemon turns a frontend request into an `InstallerPlan` before any device is probed. The
install mode is an enumeration here: `buildPlan` refuses every other spelling, and an empty mode
is refused rather than read as `wipe`.
-/

namespace Kyth.Plan

open Str Check

/-- `MIN_KYTHOS_GIB`. -/
def minKythosGib : ℤ := 32

/-- `BYTES_PER_GIB`. -/
def bytesPerGib : ℕ := 1024 * 1024 * 1024

/-- The characters a device path may contain besides letters and digits. -/
def isDevicePathChar (c : Char) : Bool :=
  isAsciiAlphanumeric c || c == '.' || c == '_' || c == '/' || c == '+' || c == ':' || c == '-'

/-- `normalize_device_path`: a bare name gets the `/dev/` prefix, every other path with a slash
is refused. -/
def normalizeDevicePath (raw : String) : Option String :=
  let value := trim raw
  if value = "" then none
  else if !startsWith value "/dev/" && containsChar value '/' then none
  else
    let value := if startsWith value "/dev/" then value else "/dev/" ++ value
    let basename := (stripPrefix value "/dev/").getD ""
    if basename = "" || containsChar basename '/' || value.utf8ByteSize > 4096 ||
        contains value ".." || !all value isDevicePathChar then none
    else some value

theorem isWhitespace_of_isDevicePathChar {c : Char} (h : isDevicePathChar c = true) :
    isWhitespace c = false := by
  simp only [isDevicePathChar, isAsciiAlphanumeric, isAsciiDigit, Bool.or_eq_true, Bool.and_eq_true,
    decide_eq_true_eq, beq_iff_eq] at h
  rcases h with ((((((h | h) | h) | h) | h) | h) | h)
  all_goals first
    | (subst h; decide)
    | (simp only [isWhitespace, Bool.or_eq_false_iff, Bool.and_eq_false_iff, decide_eq_false_iff_not,
        beq_eq_false_iff_ne]
       omega)

/-- A path that passes the checks of `normalize_device_path` is its own normalization. -/
theorem normalizeDevicePath_eq_self {path : String} (hdev : startsWith path "/dev/" = true)
    (hok : ¬ (((stripPrefix path "/dev/").getD "" = "" ||
      containsChar ((stripPrefix path "/dev/").getD "") '/' || path.utf8ByteSize > 4096 ||
      contains path ".." || !all path isDevicePathChar) = true)) :
    normalizeDevicePath path = some path := by
  have hchars : ∀ c ∈ path.toList, isDevicePathChar c = true := by
    simp only [Bool.or_eq_true, not_or, Bool.not_eq_true', Bool.not_eq_false] at hok
    exact List.all_eq_true.1 hok.2
  have htrim : trim path = path :=
    trim_eq_self fun c hc => isWhitespace_of_isDevicePathChar (hchars c hc)
  have hne : path ≠ "" := by
    rintro rfl
    exact absurd hdev (by decide)
  simp only [normalizeDevicePath, htrim, hdev, if_neg hne, if_true, Bool.not_true,
    Bool.false_and, Bool.false_eq_true, if_false, if_neg hok]

/-- A normalized path passed the checks of `normalize_device_path`. -/
theorem normalizeDevicePath_checks {raw path : String} (h : normalizeDevicePath raw = some path) :
    startsWith path "/dev/" = true ∧
      ¬ (((stripPrefix path "/dev/").getD "" = "" ||
        containsChar ((stripPrefix path "/dev/").getD "") '/' || path.utf8ByteSize > 4096 ||
        contains path ".." || !all path isDevicePathChar) = true) := by
  simp only [normalizeDevicePath] at h
  split_ifs at h with hempty hslash hdev hbad hbad
  · cases h
    exact ⟨hdev, hbad⟩
  · cases h
    exact ⟨startsWith_append "/dev/" (trim raw), hbad⟩

/-- A normalized path lies below `/dev/` and is its own normalization. -/
theorem normalizeDevicePath_spec {raw path : String} (h : normalizeDevicePath raw = some path) :
    startsWith path "/dev/" = true ∧ normalizeDevicePath path = some path := by
  obtain ⟨hdev, hok⟩ := normalizeDevicePath_checks h
  exact ⟨hdev, normalizeDevicePath_eq_self hdev hok⟩

/-- A normalized path has one component below `/dev/`. -/
theorem normalizeDevicePath_eq_append {raw path : String}
    (h : normalizeDevicePath raw = some path) :
    ∃ name, path = "/dev/" ++ name ∧ name ≠ "" ∧ '/' ∉ name.toList := by
  obtain ⟨hdev, hok⟩ := normalizeDevicePath_checks h
  simp only [Bool.or_eq_true, not_or, decide_eq_true_eq, containsChar,
    List.contains_iff_mem] at hok
  refine ⟨(stripPrefix path "/dev/").getD "", ?_, hok.1.1.1.1, hok.1.1.1.2⟩
  obtain ⟨rest, hrest⟩ := List.isPrefixOf_iff_prefix.1 hdev
  apply String.toList_injective
  simp [stripPrefix, hdev, ← hrest]

/-- The install modes `build_plan` accepts. -/
inductive InstallMode
  | wipe
  | resizeNtfs
  | alongside
  | freeSpace
  | manual
  deriving DecidableEq, Repr

/-- The spelling of a mode in a request, after trimming and lower-casing. -/
def InstallMode.ofString : String → Option InstallMode
  | "wipe" => some .wipe
  | "resize_ntfs" => some .resizeNtfs
  | "alongside" => some .alongside
  | "free_space" => some .freeSpace
  | "manual" => some .manual
  | _ => none

/-- `InstallerPlanInput`. -/
structure InstallerPlanInput where
  disk : String := ""
  installMode : String := ""
  targetPartition : String := ""
  resizePartition : String := ""
  resizeGib : Int64 := 0
  freeRegionStart : Int64 := 0
  freeRegionEnd : Int64 := 0
  targetDiskSerial : Option String := none
  targetDiskModel : Option String := none
  targetDiskSizeBytes : Option UInt64 := none
  flatpaks : List String := []
  deriving DecidableEq, Repr

/-- `InstallerPlan`. -/
structure InstallerPlan where
  mode : InstallMode
  disk : String
  targetPartition : Option String
  resizePartition : Option String
  resizeBytes : ℕ
  freeRegionStart : Option ℕ
  freeRegionEnd : Option ℕ
  preShrinkBytes : Option ℕ
  targetDiskSerial : Option String
  targetDiskModel : Option String
  targetDiskSizeBytes : Option UInt64
  flatpaks : List String
  deriving DecidableEq, Repr

/-- `ALLOWED_FLATPAKS`. -/
def allowedFlatpaks : List String :=
  ["com.valvesoftware.Steam", "com.heroicgameslauncher.hgl", "com.discordapp.Discord",
    "org.prismlauncher.PrismLauncher", "com.visualstudio.code", "io.dbeaver.DBeaverCommunity",
    "io.podman_desktop.PodmanDesktop", "org.gimp.GIMP", "org.kde.kdenlive", "org.blender.Blender",
    "org.audacityteam.Audacity", "org.libreoffice.LibreOffice", "org.mozilla.firefox",
    "org.mozilla.Thunderbird", "org.videolan.VLC", "com.spotify.Client", "org.telegram.desktop",
    "com.slack.Slack", "us.zoom.Zoom", "org.keepassxc.KeePassXC", "org.gnome.Calculator",
    "org.gnome.TextEditor", "io.github.zen_browser.zen", "com.github.tchx84.Flatseal",
    "org.flameshot.Flameshot", "com.obsproject.Studio", "org.inkscape.Inkscape"]

/-- The loop of `validate_flatpaks`: the first unknown id is the error, and a repeated id is
kept at its first place only. -/
def checkFlatpaks : List String → List String → Except String (List String)
  | valid, [] => .ok valid
  | valid, id :: ids =>
      if id ∉ allowedFlatpaks then .error ("Unsupported Flatpak app: " ++ id)
      else checkFlatpaks (if id ∈ valid then valid else valid ++ [id]) ids

/-- `validate_flatpaks`. -/
def validateFlatpaks (ids : List String) : Except String (List String) :=
  if ids.length > 64 then .error "too many Flatpak apps requested" else checkFlatpaks [] ids

/-- `required_device`. -/
def requiredDevice (raw message : String) : Except String String :=
  match normalizeDevicePath raw with
  | some device => .ok device
  | none => .error message

/-- The target partition of a plan: required for `alongside`, optional for `manual`. -/
def planTarget (mode : InstallMode) (raw : String) : Except String (Option String) :=
  match mode with
  | .alongside => do
      let target ← requiredDevice raw
        "No target partition was selected for alongside installation."
      return some target
  | .manual => return normalizeDevicePath raw
  | _ => return none

/-- The partition to shrink and the bytes to take from it. -/
def planResize (mode : InstallMode) (input : InstallerPlanInput) :
    Except String (Option String × ℕ) :=
  match mode with
  | .resizeNtfs => do
      let partition :=
        if trim input.resizePartition = "" then input.targetPartition else input.resizePartition
      if input.resizeGib.toInt < minKythosGib then
        throw "NTFS shrink install requires at least 32 GiB for KythOS."
      let partition ← requiredDevice partition "No NTFS partition was selected to shrink."
      -- `checked_mul`: a huge request must not wrap into a tiny shrink
      let bytes := input.resizeGib.toInt.toNat * bytesPerGib
      if 2 ^ 64 ≤ bytes then
        throw "Requested install size is too large to represent."
      return (some partition, bytes)
  | _ => return (none, 0)

/-- The free region of a plan. -/
def planRegion (mode : InstallMode) (input : InstallerPlanInput) :
    Except String (Option ℕ × Option ℕ) :=
  match mode with
  | .freeSpace => do
      if input.freeRegionStart.toInt < 0 ∨
          input.freeRegionEnd.toInt ≤ input.freeRegionStart.toInt then
        throw "No free space region was selected for installation."
      let start := input.freeRegionStart.toInt.toNat
      let stop := input.freeRegionEnd.toInt.toNat
      if stop - start < minKythosGib.toNat * bytesPerGib then
        throw "Free space install requires at least 32 GiB for KythOS."
      return (some start, some stop)
  | _ => return (none, none)

/-- `build_plan`. -/
def buildPlan (input : InstallerPlanInput) : Except String InstallerPlan := do
  let mode := toAsciiLowercase (trim input.installMode)
  if mode = "" then
    throw "No install mode was selected."
  match InstallMode.ofString mode with
  | none => throw ("Unsupported install mode: " ++ mode)
  | some mode => do
      let disk ← requiredDevice input.disk "No target disk was selected."
      let targetPartition ← planTarget mode input.targetPartition
      let (resizePartition, resizeBytes) ← planResize mode input
      let (freeRegionStart, freeRegionEnd) ← planRegion mode input
      let flatpaks ← validateFlatpaks input.flatpaks
      return { mode, disk, targetPartition, resizePartition, resizeBytes, freeRegionStart,
               freeRegionEnd, preShrinkBytes := none,
               targetDiskSerial := input.targetDiskSerial,
               targetDiskModel := input.targetDiskModel,
               targetDiskSizeBytes := input.targetDiskSizeBytes, flatpaks }

example : (buildPlan { disk := "sda", installMode := " WIPE " }).toOption.map
    (fun plan => (plan.mode, plan.disk)) = some (.wipe, "/dev/sda") := by decide

/-- What a resize request becomes. -/
theorem planResize_eq_ok {input : InstallerPlanInput} {partition : Option String} {bytes : ℕ}
    (h : planResize .resizeNtfs input = .ok (partition, bytes)) :
    ∃ device, partition = some device ∧ normalizeDevicePath device = some device ∧
      minKythosGib ≤ input.resizeGib.toInt ∧
      bytes = input.resizeGib.toInt.toNat * bytesPerGib ∧ bytes < 2 ^ 64 := by
  unfold planResize at h
  simp only at h
  generalize (if trim input.resizePartition = "" then input.targetPartition
    else input.resizePartition) = raw at h
  by_cases hsmall : input.resizeGib.toInt < minKythosGib
  · rw [if_pos hsmall] at h
    cases h
  · rw [if_neg hsmall] at h
    obtain ⟨device, hdevice, h⟩ := bind_eq_ok.1 h
    split_ifs at h with hlarge
    · cases h
    · cases h
      rw [requiredDevice] at hdevice
      split at hdevice
      · rename_i path hpath
        cases hdevice
        exact ⟨device, rfl, (normalizeDevicePath_spec hpath).2, not_lt.1 hsmall, rfl,
          not_le.1 hlarge⟩
      · cases hdevice

/-- What a request becomes, part by part. -/
theorem buildPlan_eq_ok_iff {input : InstallerPlanInput} {plan : InstallerPlan} :
    buildPlan input = .ok plan ↔
      InstallMode.ofString (toAsciiLowercase (trim input.installMode)) = some plan.mode ∧
      normalizeDevicePath input.disk = some plan.disk ∧
      planTarget plan.mode input.targetPartition = .ok plan.targetPartition ∧
      planResize plan.mode input = .ok (plan.resizePartition, plan.resizeBytes) ∧
      planRegion plan.mode input = .ok (plan.freeRegionStart, plan.freeRegionEnd) ∧
      validateFlatpaks input.flatpaks = .ok plan.flatpaks ∧
      plan.preShrinkBytes = none ∧ plan.targetDiskSerial = input.targetDiskSerial ∧
      plan.targetDiskModel = input.targetDiskModel ∧
      plan.targetDiskSizeBytes = input.targetDiskSizeBytes := by
  have hdevice {raw message device : String} :
      requiredDevice raw message = .ok device ↔ normalizeDevicePath raw = some device := by
    unfold requiredDevice
    cases normalizeDevicePath raw <;> simp
  constructor
  · intro h
    unfold buildPlan at h
    simp only at h
    split_ifs at h with hempty
    · cases h
    · split at h
      · cases h
      · rename_i mode hmode
        obtain ⟨disk, hdisk, h⟩ := bind_eq_ok.1 h
        obtain ⟨targetPartition, htarget, h⟩ := bind_eq_ok.1 h
        obtain ⟨⟨resizePartition, resizeBytes⟩, hresize, h⟩ := bind_eq_ok.1 h
        obtain ⟨⟨freeRegionStart, freeRegionEnd⟩, hregion, h⟩ := bind_eq_ok.1 h
        obtain ⟨flatpaks, hflatpaks, h⟩ := bind_eq_ok.1 h
        cases h
        exact ⟨hmode, hdevice.1 hdisk, htarget, hresize, hregion, hflatpaks, rfl, rfl, rfl, rfl⟩
  · rintro ⟨hmode, hdisk, htarget, hresize, hregion, hflatpaks, hshrink, hserial, hmodel, hsize⟩
    have hempty : toAsciiLowercase (trim input.installMode) ≠ "" := by
      intro hempty
      rw [hempty] at hmode
      cases hmode
    obtain ⟨mode, disk, targetPartition, resizePartition, resizeBytes, freeRegionStart,
      freeRegionEnd, preShrinkBytes, serial, model, size, flatpaks⟩ := plan
    simp only at *
    subst hshrink hserial hmodel hsize
    unfold buildPlan
    simp only [if_neg hempty, hmode, hdevice.2 hdisk, htarget, hresize, hregion, hflatpaks]
    rfl

end Kyth.Plan

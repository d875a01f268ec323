import Kyth.BootHealth.Coordinator
import Kyth.Lib.Check
import Kyth.Upgrade.Status
import Kyth.Upgrade.Version

/-!
# The two automatic writers (`safe_upgrade_bin.rs`, `update_watcher_bin.rs`)

`upgrade` runs `bootc upgrade`, reads the status again and records the digest that is staged then. The
update watcher does the same in the background, but asks the registry first. Both decide whether the
digest may be booted: `upgrade` from the status after the upgrade, the watcher from the answer of the
registry before it. `recorded_bootable_iff` says when what they record may be booted.
-/

namespace Kyth.Upgrade

open BootHealth Check Json Str

/-! ### The gates of `safe_upgrade_policy.rs` -/

/-- `quarantine_reason`. -/
def quarantineReason (state : BootHealthState) (digest : String) : Option String :=
  (state.quarantined.lookup digest).map fun record =>
    "digest " ++ digest ++ " is quarantined after " ++ toString record.failures ++
      " unhealthy boots: " ++ record.reason

/-- `validate_rollout_ring`; a missing file, section or key is no configured value. -/
def validateRolloutRing (configured : Option String) (lastKnown : String) : Except String String :=
  let keep := if lastKnown = "" then "follow-image" else lastKnown
  let value := trim (configured.getD "")
  if value = "" then .ok keep
  else if value ∈ validRolloutRings then .ok value
  else .error ("invalid rollout ring '" ++ value ++ "' (keeping last known ring '" ++ keep ++ "')")

/-- `allow_downgrade_from_toml`: the key of the configuration, or the value of the environment. -/
def allowDowngradeFromToml (key : Option Bool) (env : String) : Bool :=
  key == some true || ["1", "true", "yes"].contains (toAsciiLowercase (trim env))

/-- `validate_staged_digest`. -/
def validateStagedDigest (remote staged reason : Option String) : Except String String :=
  match staged.filter (· ≠ "") with
  | none => .error "bootc did not stage an image"
  | some digest =>
      match remote with
      | some expected =>
          if digest ≠ expected then .error "bootc did not stage the requested image" else .ok digest
      | none =>
          match reason with
          | some reason => .error ("Update blocked: " ++ reason)
          | none => .ok digest

/-- `validate_post_upgrade_state`. -/
def validatePostUpgradeState (bootedBefore bootedAfter stagedAfter reason : Option String) :
    Except String (Option String) :=
  match stagedAfter.filter (· ≠ "") with
  | some staged => (validateStagedDigest none (some staged) reason).map some
  | none =>
      if bootedBefore.isSome ∧ bootedAfter = bootedBefore then .ok none
      else .error "bootc did not stage an image"

/-! ### What the writers are told -/

/-- `UpgradeResult`. -/
structure UpgradeResult where
  ok : Bool
  output : String
  retryable : Bool

/-- What a writer reads during a run: the boot-health file, the status before and after the upgrade, the
settings, the registry, and the answers of the programs it calls. Nothing else writes the boot-health
file in between. -/
structure Scene where
  isRoot : Bool := true
  file : Option Value := none
  before : Option Value
  after : Option Value
  now : ℤ := 0
  allowDowngradeKey : Option Bool := none
  allowDowngradeEnv : String := ""
  /-- `rollout_ring` as `upgrade` reads it. -/
  configuredRing : Option String := none
  batteryReason : Option String := none
  activeOperation : Bool := false
  runUpgrade : Except String String
  cancelled : Bool := false
  cacheFree : Except String Unit := .ok ()
  finalizeStaged : Except String String := .ok ""
  /-- `skip_reason` of the watcher. -/
  skipReason : Option String := none
  flatpaks : ℤ := 0
  firmwareUpdated : Bool := false
  firmwareCount : ℕ := 0
  firmwareOutput : String := ""
  /-- `rollout_ring` as the watcher reads it. -/
  ring : String := "follow-image"
  inspectRaw : String → Except String Manifest
  runBootcUpgrade : UpgradeResult

namespace Scene

variable (scene : Scene)

/-- `read_default_state`. -/
def health : BootHealthState := readState scene.file

/-- The opt-in to a downgrade. -/
def allowDowngrade : Bool :=
  allowDowngradeFromToml scene.allowDowngradeKey scene.allowDowngradeEnv

/-- The digest that is staged after the upgrade. -/
def stagedAfter : Option String := scene.after.bind (imageDigestFromStatus · "staged")

/-- The version of the image that is staged after the upgrade. -/
def stagedVersion : Option String := scene.after.bind (imageVersionFromStatus · "staged")

/-- The digest that is booted when the run begins. -/
def booted : Option String := scene.before.bind (imageDigestFromStatus · "booted")

/-- The version that is booted when the run begins. -/
def bootedVersion : Option String := scene.before.bind (imageVersionFromStatus · "booted")

end Scene

/-! ### `upgrade` -/

/-- What a run of `upgrade` did: the digest that it passed to `record_staged`, the boot-health file and
what it returned. -/
structure Upgraded where
  recorded : Option String
  file : Option Value
  result : Except String String

/-- The two gates after the upgrade: the digest to record, if there is one. -/
def stagedChecks (scene : Scene) : Except String (Option String) := do
  let postUpgrade ← validatePostUpgradeState scene.booted
    (scene.after.bind (imageDigestFromStatus · "booted")) scene.stagedAfter
    (scene.stagedAfter.bind (quarantineReason scene.health))
  -- Without a staged digest `upgrade` returns before the downgrade gate.
  if postUpgrade.isSome then
    validateNotDowngrade scene.bootedVersion scene.booted scene.stagedVersion scene.stagedAfter
      scene.allowDowngrade
  return postUpgrade

/-- The checks before the upgrade; the ring that the image is recorded under. -/
def upgradeGates (scene : Scene) : Except String String := do
  if !scene.isRoot then throw "kyth-safe-upgrade must run as root"
  let some status := scene.before | throw "Could not determine the booted image status"
  let some reference := imageReferenceFromStatus status
    | throw "Could not determine the booted image reference"
  let ring ← validateRolloutRing scene.configuredRing scene.health.rolloutRing
  if let some reason := rolloutPolicyReason reference ring then
    throw ("Update blocked by rollout policy: " ++ reason)
  if let some reason := scene.batteryReason then throw reason
  if let some reason :=
      (imageDigestFromStatus status "staged").bind (quarantineReason scene.health) then
    throw ("Update blocked: " ++ reason)
  if scene.activeOperation then throw "Another bootc upgrade is in progress; retry later"
  return (imageRing reference).getD ring

/-- `run_upgrade` with the check that it was not cancelled. -/
def runToEnd (scene : Scene) : Except String String :=
  match scene.runUpgrade with
  | .error error => .error error
  | .ok detail =>
      if scene.cancelled then
        .error "bootc upgrade was terminated and did not complete; nothing was staged"
      else .ok detail

/-- The part of `upgrade` before anything is written: the digest to record, if there is one, its ring
and the output of `bootc`. -/
def upgradeChecks (scene : Scene) : Except String (Option String × String × String) := do
  let ring ← upgradeGates scene
  let detail ← runToEnd scene
  let digest ← stagedChecks scene
  return (digest, ring, detail)

/-- The message of a finished upgrade. -/
def upgradeMessage (finalized detail : String) : String :=
  if finalized ≠ "" then finalized
  else if detail ≠ "" then detail
  else "Update staged and promoted to the next boot."

/-- `upgrade`. -/
def upgrade (scene : Scene) : Upgraded :=
  match upgradeChecks scene with
  | .error error => ⟨none, scene.file, .error error⟩
  | .ok (none, _, detail) =>
      ⟨none, scene.file,
        .ok (if detail = "" then "KythOS is already running the latest allowed digest." else detail)⟩
  | .ok (some digest, ring, detail) =>
      let persisted := call scene.file (.recordStaged digest ring scene.now)
      ⟨some digest, persisted.2,
        match persisted.1 with
        | .error error => .error ("Could not persist staged update state: " ++ error)
        | .ok _ => do
            scene.cacheFree
            let finalized ← scene.finalizeStaged
            return upgradeMessage finalized detail⟩

/-! ### The update watcher -/

/-- The results of a run of the watcher. -/
inductive WatchResult
  | skipped
  | quarantined
  | noChange
  | upgraded
  | error
  deriving DecidableEq

/-- `UpdateSnapshot`, without its time. -/
structure Snapshot where
  result : WatchResult
  reason : Option String := none
  output : String := ""
  imageRef : String := ""
  bootedDigest : String := ""
  stagedDigest : String := ""
  remoteDigest : String := ""
  flatpakUpdates : ℤ := 0
  retryable : Bool := false

/-- What a run of the watcher did: the digest that it passed to `record_staged`, the boot-health file
and the status that it wrote, if it ran as root. -/
structure Watched where
  recorded : Option String := none
  file : Option Value
  snapshot : Option Snapshot

/-- The registry of the images. -/
def registry : String := "ghcr.io/kyth-os/kyth"

/-- An output with the one of the firmware update below it. -/
def withFirmware (output firmwareOutput : String) : String :=
  if firmwareOutput = "" then output else output ++ "\n" ++ firmwareOutput

namespace Scene

variable (scene : Scene)

/-- The reference of the booted image as the watcher reads it. -/
def imageRef : String := ((scene.before.bind imageReferenceFromStatus).getD "")

/-- `check`: the answer of the registry to the watcher. -/
def check : UpdateCheckResult :=
  checkRegistryUpdate (scene.before.getD .null) ((branchFromRef scene.imageRef).getD "latest")
    registry scene.inspectRaw

/-- `remote`: the digest that the registry has when the watcher asks. -/
def remote : String := (remoteDigest scene.check.manifestRaw).getD ""

/-- `staged`: the digest that is staged when the run begins. -/
def stagedBefore : String := (scene.before.bind (imageDigestFromStatus · "staged")).getD ""

/-- The status that is written with what the watcher has read before the upgrade. -/
def snapshotOf (result : WatchResult) (reason : Option String) (output staged : String) : Snapshot where
  result
  reason
  output
  imageRef := scene.imageRef
  bootedDigest := scene.booted.getD ""
  stagedDigest := staged
  remoteDigest := scene.remote
  flatpakUpdates := scene.flatpaks

/-- The part of the watcher's `main` before the upgrade: the status of a run that ends there. -/
def watchChecks : Option Snapshot :=
  if let some reason := scene.skipReason then some { result := .skipped, reason := some reason }
  else if scene.before.isNone then
    some { result := .error, reason := some "Could not read bootc status."
           flatpakUpdates := scene.flatpaks }
  else if let some reason := rolloutPolicyReason scene.imageRef scene.ring then
    some { scene.snapshotOf .skipped (some reason) "" scene.stagedBefore with remoteDigest := "" }
  else if let some reason :=
      if scene.remote ≠ "" then quarantineReason scene.health scene.remote else none then
    some (scene.snapshotOf .quarantined (some reason) "" scene.stagedBefore)
  else if scene.check.state = .uptodate ∨
      scene.stagedBefore ≠ "" ∧ scene.stagedBefore = scene.remote then
    if scene.firmwareUpdated then
      some (scene.snapshotOf .upgraded none
        (if scene.firmwareOutput = "" then
          toString scene.firmwareCount ++ " firmware update(s) queued; reboot to flash"
        else scene.firmwareOutput) scene.stagedBefore)
    else
      some (scene.snapshotOf .noChange (some "Already up to date")
        (withFirmware scene.check.detail scene.firmwareOutput) scene.stagedBefore)
  else if scene.check.state ≠ .available then
    some (scene.snapshotOf .error (some scene.check.detail)
      (withFirmware scene.check.detail scene.firmwareOutput) scene.stagedBefore)
  else if !scene.runBootcUpgrade.ok then
    let upgrade := scene.runBootcUpgrade
    some { scene.snapshotOf .error
        (some (if upgrade.retryable then "retryable: " ++ upgrade.output else upgrade.output))
        (withFirmware upgrade.output scene.firmwareOutput) scene.stagedBefore with
      retryable := upgrade.retryable }
  else none

/-- `staged_digest`: what `bootc` reports after the upgrade, and the answer of the registry when it
reports nothing. -/
def stagedDigest : String := (scene.stagedAfter.filter (· ≠ "")).getD scene.remote

end Scene

/-- `main` of the update watcher. -/
def watch (scene : Scene) : Watched :=
  if !scene.isRoot then { file := scene.file, snapshot := none }
  else
    match scene.watchChecks with
    | some snapshot => { file := scene.file, snapshot := some snapshot }
    | none =>
        let digest := scene.stagedDigest
        let snapshot := scene.snapshotOf .upgraded none
          (withFirmware scene.runBootcUpgrade.output scene.firmwareOutput) digest
        if digest = "" then { file := scene.file, snapshot := some snapshot }
        else
          -- The answer of the coordinator is not looked at.
          { recorded := some digest
            file := (call scene.file (.recordStaged digest
              ((imageRing scene.imageRef).getD scene.ring) scene.now)).2
            snapshot := some snapshot }

/-! ### What may be booted -/

namespace Scene

variable (scene : Scene)

/-- The digest is staged after the upgrade, it is not the booted one, and its version compares older
than the booted version. -/
def Older (digest : String) : Prop :=
  scene.stagedAfter = some digest ∧ scene.booted ≠ some digest ∧
    ∃ booted staged, scene.bootedVersion = some booted ∧ scene.stagedVersion = some staged ∧
      compareImageVersions booted staged = some .gt

/-- The digest is not quarantined, and it is no downgrade without the opt-in. -/
structure Bootable (digest : String) : Prop where
  healthy : quarantineReason scene.health digest = none
  notOlder : scene.Older digest → scene.allowDowngrade = true

/-- The watcher gets to `bootc upgrade`, which succeeds. -/
structure GoesAhead : Prop where
  isRoot : scene.isRoot = true
  skipReason : scene.skipReason = none
  before : scene.before.isSome = true
  policy : rolloutPolicyReason scene.imageRef scene.ring = none
  healthy : scene.remote ≠ "" → quarantineReason scene.health scene.remote = none
  available : scene.check.state = .available
  moved : scene.stagedBefore = "" ∨ scene.stagedBefore ≠ scene.remote
  ok : scene.runBootcUpgrade.ok = true

variable {scene} {digest : String}

theorem stagedAfter_ne_empty (h : scene.stagedAfter = some digest) : digest ≠ "" := by
  obtain ⟨status, -, hstatus⟩ := Option.bind_eq_some_iff.1 h
  exact ne_empty_of_imageDigestFromStatus hstatus

/-- The downgrade gate of `upgrade` refuses exactly the downgrades without the opt-in. -/
theorem passes_downgrade_iff (h : scene.stagedAfter = some digest) :
    Passes (validateNotDowngrade scene.bootedVersion scene.booted scene.stagedVersion (some digest)
      scene.allowDowngrade) ↔ (scene.Older digest → scene.allowDowngrade = true) := by
  have hne := stagedAfter_ne_empty h
  unfold validateNotDowngrade Older
  by_cases hbooted : scene.booted = some digest
  · simp [hbooted, hne]
  · have hdiffers : (scene.booted == some digest) = false := beq_false_of_ne hbooted
    cases hbv : scene.bootedVersion with
    | none => simp [hdiffers]
    | some booted =>
      cases hsv : scene.stagedVersion with
      | none => simp [hdiffers]
      | some staged => simp [hdiffers, h, hbooted]

theorem bootable_iff_of_stagedAfter (h : scene.stagedAfter = some digest) :
    scene.Bootable digest ↔ quarantineReason scene.health digest = none ∧
      Passes (validateNotDowngrade scene.bootedVersion scene.booted scene.stagedVersion (some digest)
        scene.allowDowngrade) := by
  rw [passes_downgrade_iff h]
  exact ⟨fun hb => ⟨hb.healthy, hb.notOlder⟩, fun hb => ⟨hb.1, hb.2⟩⟩

/-- A digest that is not staged after the upgrade has no version that could be older. -/
theorem bootable_of_not_staged (hhealthy : quarantineReason scene.health digest = none)
    (h : scene.stagedAfter ≠ some digest) : scene.Bootable digest :=
  ⟨hhealthy, fun holder => absurd holder.1 h⟩

/-- The watcher goes on exactly when none of its checks ends the run. -/
theorem watchChecks_eq_none (hroot : scene.isRoot = true) :
    scene.watchChecks = none ↔ scene.GoesAhead := by
  unfold watchChecks
  constructor
  · intro h
    split at h
    · cases h
    next hskip =>
    split at h
    · cases h
    next hbefore =>
    split at h
    · cases h
    next hpolicy =>
    split at h
    · cases h
    next hquarantine =>
    split at h
    · split at h <;> cases h
    next hcurrent =>
    split at h
    · cases h
    next havailable =>
    split at h
    · cases h
    next hok =>
    exact
      { isRoot := hroot
        skipReason := Option.eq_none_iff_forall_ne_some.2 hskip
        before := by simpa [Option.isSome_iff_ne_none] using hbefore
        policy := Option.eq_none_iff_forall_ne_some.2 hpolicy
        healthy := fun hremote => by
          rw [if_pos hremote] at hquarantine
          exact Option.eq_none_iff_forall_ne_some.2 hquarantine
        available := not_not.1 havailable
        moved := by tauto
        ok := by simpa using hok }
  · intro h
    have hbefore : scene.before.isNone = false := by simpa [Option.isSome_iff_ne_none] using h.before
    have hquarantine :
        (if scene.remote ≠ "" then quarantineReason scene.health scene.remote else none) = none := by
      split_ifs with hremote
      · exact h.healthy hremote
      · rfl
    have hcurrent : ¬ (scene.check.state = .uptodate ∨
        scene.stagedBefore ≠ "" ∧ scene.stagedBefore = scene.remote) := by
      rintro (hstate | ⟨hstaged, hremote⟩)
      · rw [h.available] at hstate
        cases hstate
      · exact h.moved.elim hstaged fun hne => hne hremote
    simp only [h.skipReason, hbefore, h.policy, hquarantine, Bool.false_eq_true, if_false]
    rw [if_neg hcurrent, if_neg (not_not.2 h.available), h.ok]
    rfl

/-- The watcher records the staged digest when it goes ahead, and nothing otherwise. -/
theorem watch_recorded_eq_some :
    (watch scene).recorded = some digest ↔
      scene.GoesAhead ∧ scene.stagedDigest = digest ∧ digest ≠ "" := by
  unfold watch
  by_cases hroot : scene.isRoot = true
  · cases hchecks : scene.watchChecks with
    | some snapshot =>
      have hnot : ¬ scene.GoesAhead := fun h => by
        rw [(watchChecks_eq_none hroot).2 h] at hchecks
        cases hchecks
      simp [hroot, hnot]
    | none =>
      have hahead := (watchChecks_eq_none hroot).1 hchecks
      by_cases hempty : scene.stagedDigest = ""
      · simp only [hroot, hempty, hahead]
        simp
      · simp only [hroot, hempty, hahead]
        simp
        rintro rfl
        exact hempty
  · have hnot : ¬ scene.GoesAhead := fun h => hroot h.isRoot
    simp [hroot, hnot]

theorem stagedDigest_of_stagedAfter (h : scene.stagedAfter = some digest) :
    scene.stagedDigest = digest := by
  have hne := stagedAfter_ne_empty h
  simp [stagedDigest, h, Option.filter, hne]

theorem stagedDigest_of_none (h : scene.stagedAfter = none) : scene.stagedDigest = scene.remote := by
  simp [stagedDigest, h]

end Scene

/-! ### The writers -/

variable {scene : Scene} {digest : String}

/-- What passes the gates of `upgrade` may be booted. -/
theorem bootable_of_stagedChecks (h : stagedChecks scene = .ok (some digest)) :
    scene.Bootable digest := by
  obtain ⟨postUpgrade, hpost, h⟩ := bind_eq_ok.1 h
  unfold validatePostUpgradeState at hpost
  cases hstaged : scene.stagedAfter with
  | none =>
    -- without a staged digest there is nothing to record
    rw [hstaged] at hpost
    simp only [Option.filter_none] at hpost
    split at hpost
    · cases hpost
      cases h
    · cases hpost
  | some staged =>
    have hne := Scene.stagedAfter_ne_empty hstaged
    have hfilter : (some staged).filter (fun d => decide (d ≠ "")) = some staged := by
      simp [Option.filter, hne]
    rw [hstaged, hfilter] at hpost
    simp only [validateStagedDigest, hfilter, Option.bind_some] at hpost
    cases hreason : quarantineReason scene.health staged with
    | some reason =>
      rw [hreason] at hpost
      cases hpost
    | none =>
      rw [hreason] at hpost
      cases hpost
      simp only [Option.isSome_some, if_true] at h
      obtain ⟨_, hgate, hreturn⟩ := bind_eq_ok.1 h
      cases hreturn
      refine (Scene.bootable_iff_of_stagedAfter hstaged).2 ⟨hreason, ?_⟩
      rw [← hstaged]
      exact ⟨_, hgate⟩

/-- `upgrade` records only what passes its gates. -/
theorem bootable_of_upgrade (h : (upgrade scene).recorded = some digest) : scene.Bootable digest := by
  unfold upgrade at h
  split at h
  · cases h
  · cases h
  next found ring detail hchecks =>
    cases h
    obtain ⟨_, -, hchecks⟩ := bind_eq_ok.1 hchecks
    obtain ⟨_, -, hchecks⟩ := bind_eq_ok.1 hchecks
    obtain ⟨found, hfound, hreturn⟩ := bind_eq_ok.1 hchecks
    cases hreturn
    exact bootable_of_stagedChecks hfound

/-- The writers. -/
inductive Writer
  | safeUpgrade
  | updateWatcher

/-- The writer passes the digest to `record_staged` and reports that it is ready to boot. -/
def Writer.Reports (scene : Scene) (digest : String) : Writer → Prop
  | .safeUpgrade =>
      (upgrade scene).recorded = some digest ∧ ∃ message, (upgrade scene).result = .ok message
  | .updateWatcher =>
      (watch scene).recorded = some digest ∧
        ∃ snapshot, (watch scene).snapshot = some snapshot ∧ snapshot.result = .upgraded ∧
          snapshot.stagedDigest = digest

/-- What the watcher records it also reports. -/
theorem reports_updateWatcher_iff :
    Writer.updateWatcher.Reports scene digest ↔
      scene.GoesAhead ∧ scene.stagedDigest = digest ∧ digest ≠ "" := by
  rw [← Scene.watch_recorded_eq_some]
  refine ⟨fun h => h.1, fun h => ⟨h, ?_⟩⟩
  obtain ⟨hahead, rfl, hne⟩ := Scene.watch_recorded_eq_some.1 h
  have hchecks := (Scene.watchChecks_eq_none hahead.isRoot).2 hahead
  unfold watch
  simp only [hahead.isRoot, hchecks, hne]
  exact ⟨_, rfl, rfl, rfl⟩

/-- What the writers report may be booted, exactly when the digest that is staged after an upgrade of
the watcher is the one the registry announced or is not quarantined, and passes the downgrade gate. -/
theorem reported_bootable_iff (scene : Scene) :
    (∀ (writer : Writer) (digest : String), writer.Reports scene digest → scene.Bootable digest) ↔
      (scene.GoesAhead → ∀ digest, scene.stagedAfter = some digest →
        (digest = scene.remote ∨ quarantineReason scene.health digest = none) ∧
          Passes (validateNotDowngrade scene.bootedVersion scene.booted scene.stagedVersion
            (some digest) scene.allowDowngrade)) := by
  constructor
  · intro h hahead digest hstaged
    have hreports : Writer.updateWatcher.Reports scene digest :=
      reports_updateWatcher_iff.2
        ⟨hahead, Scene.stagedDigest_of_stagedAfter hstaged, Scene.stagedAfter_ne_empty hstaged⟩
    have hbootable := (Scene.bootable_iff_of_stagedAfter hstaged).1 (h _ digest hreports)
    exact ⟨.inr hbootable.1, hbootable.2⟩
  · intro h writer digest hreports
    cases writer with
    | safeUpgrade => exact bootable_of_upgrade hreports.1
    | updateWatcher =>
      obtain ⟨hahead, hdigest, hne⟩ := reports_updateWatcher_iff.1 hreports
      cases hstaged : scene.stagedAfter with
      | none =>
        -- the digest of the registry was looked up before the upgrade
        rw [Scene.stagedDigest_of_none hstaged] at hdigest
        subst hdigest
        exact Scene.bootable_of_not_staged (hahead.healthy hne) (by simp [hstaged])
      | some staged =>
        rw [Scene.stagedDigest_of_stagedAfter hstaged] at hdigest
        subst hdigest
        obtain ⟨hquarantine, hgate⟩ := h hahead staged hstaged
        refine (Scene.bootable_iff_of_stagedAfter hstaged).2 ⟨?_, hgate⟩
        obtain rfl | hhealthy := hquarantine
        · exact hahead.healthy hne
        · exact hhealthy

/-! ### A registry that moves -/

/-- A status document with a booted and, if there is one, a staged image. -/
def statusDocument (booted : String) (staged : Option String) : Value :=
  let image (digest : String) : Value :=
    .object [("image", .object [("reference", .string "ghcr.io/kyth-os/kyth:latest"),
      ("imageDigest", .string digest)])]
  .object [("status", .object (("booted", image booted) ::
    (staged.map fun digest => ("staged", image digest)).toList))]

/-- The registry announces `sha256:b`; by the time `bootc` fetches it, the tag is back at the
quarantined `sha256:c`. -/
def movedScene : Scene where
  file := some (document
    { quarantined := AList.singleton "sha256:c"
        { digest := "sha256:c", failures := 3, reason := "sddm failed" } })
  before := some (statusDocument "sha256:a" none)
  after := some (statusDocument "sha256:a" (some "sha256:c"))
  runUpgrade := .ok ""
  inspectRaw := fun _ => .ok
    ⟨.object [("manifests", .array [.object [("digest", .string "sha256:b"),
        ("platform", .object [("architecture", .string "amd64"), ("os", .string "linux")])]])],
      "3e0bec3b4c7ffd81e54b6ff4dc07325647981a768e66b93a84dfd13b3536c612"⟩
  runBootcUpgrade := ⟨true, "", false⟩

/-- The watcher reports the quarantined digest as ready to boot. -/
theorem watcher_reports_quarantined :
    Writer.updateWatcher.Reports movedScene "sha256:c" ∧ ¬ movedScene.Bootable "sha256:c" := by
  have hahead : movedScene.GoesAhead :=
    { isRoot := rfl
      skipReason := rfl
      before := rfl
      policy := by decide
      healthy := fun _ => by decide
      available := by decide
      moved := by decide
      ok := rfl }
  have hstaged : movedScene.stagedAfter = some "sha256:c" := by decide
  have hquarantined : quarantineReason movedScene.health "sha256:c" ≠ none := by decide
  refine ⟨reports_updateWatcher_iff.2 ⟨hahead, ?_, by decide⟩, fun h => hquarantined h.healthy⟩
  exact Scene.stagedDigest_of_stagedAfter hstaged

end Kyth.Upgrade

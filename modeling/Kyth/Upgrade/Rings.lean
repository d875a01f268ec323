import Kyth.Upgrade.Writers

/-!
# The rollout ring over a history of upgrades

`upgrade` takes the rollout ring from the configuration, and from the boot-health file when the
configuration names none. Its last step writes the ring of the image that it staged into the same
file. So a machine that should follow the channel selected by its owner is pinned to the channel of
its first staged update.

* `History`: successful upgrades and switches between the channels, on a machine whose configuration
  names no ring;
* `FollowsImage`: the effective ring is `follow-image`, so the policy lets every channel through;
* `follows_image_iff`: a history keeps that exactly when none of its upgrades stages an image.
-/

namespace Kyth.Upgrade

open BootHealth Check Json Serde Str

/-- The channels that `kyth-bootc-guard` switches between. -/
inductive Channel
  | latest
  | testing
  | latestCachy
  | testingCachy
  deriving DecidableEq

namespace Channel

/-- The tag of a channel. -/
def branch : Channel → String
  | latest => "latest"
  | testing => "testing"
  | latestCachy => "latest-cachy"
  | testingCachy => "testing-cachy"

/-- The image of a channel. -/
def reference (channel : Channel) : String := registry ++ ":" ++ channel.branch

/-- The ring of a channel. -/
def ring : Channel → String
  | latest | latestCachy => "stable"
  | testing | testingCachy => "testing"

/-- A reference names the image of a channel, with or without a digest. -/
def Tracks (channel : Channel) (reference : String) : Prop :=
  splitFirst reference '@' = channel.reference

instance (channel : Channel) (reference : String) : Decidable (channel.Tracks reference) :=
  inferInstanceAs (Decidable (_ = _))

theorem imageRing_of_tracks {channel : Channel} {reference : String}
    (h : channel.Tracks reference) : imageRing reference = some channel.ring := by
  have hself : splitFirst channel.reference '@' = channel.reference := by
    cases channel <;> decide
  have hring : imageRing channel.reference = some channel.ring := by
    cases channel <;> decide
  unfold Tracks at h
  unfold imageRing at hring ⊢
  rw [hself] at hring
  rw [h, hring]

theorem ring_ne_followImage (channel : Channel) : channel.ring ≠ "follow-image" := by
  cases channel <;> decide

end Channel

/-- A machine: the channel it tracks and its boot-health file. -/
structure Machine where
  channel : Channel
  file : Option Value

/-- What happens to a machine. -/
inductive Event
  | run (scene : Scene)
  | switch (channel : Channel)

/-- A successful upgrade on a machine whose configuration names no ring. -/
structure Succeeds (m : Machine) (scene : Scene) : Prop where
  file : scene.file = m.file
  tracks : ∃ status reference, scene.before = some status ∧
    imageReferenceFromStatus status = some reference ∧ m.channel.Tracks reference
  unconfigured : trim (scene.configuredRing.getD "") = ""
  now : InI64 scene.now
  ok : ∃ message, (upgrade scene).result = .ok message

/-- The machine after an event. -/
def Event.after (m : Machine) : Event → Machine
  | .run scene => { m with file := (upgrade scene).file }
  | .switch channel => { m with channel }

/-- The machine after a sequence of events. -/
def machineAfter (start : Machine) (events : List Event) : Machine := events.foldl Event.after start

/-- A history: every upgrade succeeds on the machine that the events before it leave behind. -/
def History (start : Machine) (events : List Event) : Prop :=
  ∀ earlier scene later, events = earlier ++ .run scene :: later →
    Succeeds (machineAfter start earlier) scene

/-- The ring that `upgrade` goes by when the configuration names none. -/
def Machine.effectiveRing (m : Machine) : Except String String :=
  validateRolloutRing none (readState m.file).rolloutRing

/-- The machine is not pinned to a ring, and the rollout policy blocks no upgrade of it. -/
structure FollowsImage (m : Machine) : Prop where
  ring : m.effectiveRing = .ok "follow-image"
  unblocked : ∀ ring reference, m.effectiveRing = .ok ring → m.channel.Tracks reference →
    rolloutPolicyReason reference ring = none

theorem effectiveRing_eq (m : Machine) :
    m.effectiveRing = .ok (if (readState m.file).rolloutRing = "" then "follow-image"
      else (readState m.file).rolloutRing) := by
  have hblank : trim "" = "" := by decide
  unfold Machine.effectiveRing validateRolloutRing
  simp [hblank]

/-- The default state pins nothing. -/
theorem followsImage_of_default {m : Machine} (h : readState m.file = {}) : FollowsImage m := by
  have hring : m.effectiveRing = .ok "follow-image" := by
    rw [effectiveRing_eq, h]
    rfl
  refine ⟨hring, fun ring reference heffective _ => ?_⟩
  cases hring.symm.trans heffective
  have hvalid : ¬ "follow-image" ∉ validRolloutRings := by decide
  rw [rolloutPolicyReason, if_neg hvalid, if_pos (.inl rfl)]

/-- A machine whose file holds the ring of a channel is pinned to it. -/
theorem not_followsImage_of_pinned {m : Machine} {channel : Channel}
    (h : (readState m.file).rolloutRing = channel.ring) : ¬ FollowsImage m := by
  intro hfollows
  have hring := hfollows.ring
  rw [effectiveRing_eq, h] at hring
  have hne : channel.ring ≠ "" := by cases channel <;> decide
  rw [if_neg hne] at hring
  exact channel.ring_ne_followImage (Except.ok.inj hring)

/-! ### One upgrade -/

variable {scene : Scene} {m : Machine} {digest : String}

/-- Where nothing is staged there is nothing to record. -/
theorem stagedChecks_of_none (h : scene.stagedAfter = none) {found : Option String}
    (hchecks : stagedChecks scene = .ok found) : found = none := by
  obtain ⟨postUpgrade, hpost, hchecks⟩ := bind_eq_ok.1 hchecks
  unfold validatePostUpgradeState at hpost
  rw [h] at hpost
  simp only [Option.filter_none] at hpost
  split at hpost
  · cases hpost
    exact (Except.ok.inj hchecks).symm
  · cases hpost

/-- An upgrade that stages nothing leaves the file alone. -/
theorem upgrade_file_of_unstaged (h : scene.stagedAfter = none) :
    (upgrade scene).file = scene.file := by
  unfold upgrade
  split
  · rfl
  · rfl
  next found ring detail hchecks =>
    obtain ⟨_, -, hchecks⟩ := bind_eq_ok.1 hchecks
    obtain ⟨_, -, hchecks⟩ := bind_eq_ok.1 hchecks
    obtain ⟨found', hfound, hreturn⟩ := bind_eq_ok.1 hchecks
    cases hreturn
    cases stagedChecks_of_none h hfound

/-- What is staged is what the checks return. -/
theorem stagedChecks_of_some (h : scene.stagedAfter = some digest) {found : Option String}
    (hchecks : stagedChecks scene = .ok found) : found = some digest := by
  have hne := Scene.stagedAfter_ne_empty h
  have hfilter : (some digest).filter (fun d => decide (d ≠ "")) = some digest := by
    simp [Option.filter, hne]
  obtain ⟨postUpgrade, hpost, hchecks⟩ := bind_eq_ok.1 hchecks
  unfold validatePostUpgradeState at hpost
  rw [h, hfilter] at hpost
  simp only [validateStagedDigest, hfilter] at hpost
  have hsome : postUpgrade = some digest := by
    cases hreason : (some digest).bind (quarantineReason scene.health) with
    | none =>
      rw [hreason] at hpost
      exact (Except.ok.inj hpost).symm
    | some reason =>
      rw [hreason] at hpost
      cases hpost
  rw [hsome] at hchecks
  obtain ⟨_, -, hreturn⟩ := bind_eq_ok.1 hchecks
  exact (Except.ok.inj hreturn).symm

/-- The ring under which a successful upgrade records its image is the ring of the channel. -/
theorem upgradeGates_eq_ok (h : Succeeds m scene) {ring : String}
    (hgates : upgradeGates scene = .ok ring) : ring = m.channel.ring := by
  obtain ⟨status, reference, hbefore, hreference, htracks⟩ := h.tracks
  unfold upgradeGates at hgates
  by_cases hroot : scene.isRoot = true
  · by_cases hactive : scene.activeOperation = true
    · simp only [hroot, hbefore, hreference, hactive, if_true] at hgates
      obtain ⟨configured, -, hgates⟩ := bind_eq_ok.1 hgates
      split at hgates
      · cases hgates
      split at hgates
      · cases hgates
      split at hgates
      · cases hgates
      · cases hgates
    · simp only [hroot, hbefore, hreference, hactive] at hgates
      obtain ⟨configured, -, hgates⟩ := bind_eq_ok.1 hgates
      rw [Channel.imageRing_of_tracks htracks] at hgates
      split at hgates
      · cases hgates
      split at hgates
      · cases hgates
      split at hgates
      · cases hgates
      · exact (Except.ok.inj hgates).symm
  · simp only [hroot] at hgates
    cases hgates

/-- An upgrade that stages an image pins the machine to the ring of its channel. -/
theorem rolloutRing_of_staged (h : Succeeds m scene) (hdefault : readState m.file = {})
    (hstaged : scene.stagedAfter = some digest) :
    (readState (upgrade scene).file).rolloutRing = m.channel.ring := by
  obtain ⟨message, hok⟩ := h.ok
  unfold upgrade at hok ⊢
  cases hchecks : upgradeChecks scene with
  | error error =>
    rw [hchecks] at hok
    cases hok
  | ok found =>
    obtain ⟨found, ring, detail⟩ := found
    have hsteps := hchecks
    obtain ⟨ring', hgates, hsteps⟩ := bind_eq_ok.1 hsteps
    obtain ⟨detail', -, hsteps⟩ := bind_eq_ok.1 hsteps
    obtain ⟨found', hfound, hreturn⟩ := bind_eq_ok.1 hsteps
    cases hreturn
    rw [stagedChecks_of_some hstaged hfound] at hchecks ⊢
    rw [upgradeGates_eq_ok h hgates]
    dsimp only
    -- the record is the only step of a run, and the file holds it
    have hread : readState scene.file = stateAfter [] := by
      rw [h.file, hdefault]
      rfl
    have hclock : ∀ t ∈ [Transition.recordStaged digest m.channel.ring scene.now],
        InI64 t.now := by
      intro t ht
      rw [List.mem_singleton] at ht
      rw [ht]
      exact h.now
    have hsound : Sound ((Transition.recordStaged digest m.channel.ring scene.now).apply
        (stateAfter [])) :=
      (sound_apply_iff sound_default kept_default (Scene.stagedAfter_ne_empty hstaged)).2 id
    have hpersists := (persists_of_sound hread hsound (fits_stateAfter hclock (by simp))).2
    rw [hpersists]
    rfl

/-! ### Histories -/

theorem machineAfter_concat (start : Machine) (events : List Event) (event : Event) :
    machineAfter start (events ++ [event]) = event.after (machineAfter start events) := by
  rw [machineAfter, List.foldl_append]
  rfl

theorem History.left {start : Machine} {events later : List Event}
    (h : History start (events ++ later)) : History start events := by
  intro before scene after hevents
  exact h before scene (after ++ later) (by rw [hevents]; simp)

/-- Upgrades that stage nothing leave the file as it was. -/
theorem file_machineAfter {start : Machine} {events : List Event}
    (h : ∀ scene, Event.run scene ∈ events → scene.stagedAfter = none)
    (hhistory : History start events) : (machineAfter start events).file = start.file := by
  induction events using List.reverseRecOn with
  | nil => rfl
  | append_singleton events event ih =>
    have hearlier : (machineAfter start events).file = start.file :=
      ih (fun scene hscene => h scene (List.mem_append_left _ hscene)) hhistory.left
    rw [machineAfter_concat]
    cases event with
    | switch channel => exact hearlier
    | run scene =>
      have hrun := hhistory events scene [] rfl
      calc (upgrade scene).file = scene.file :=
            upgrade_file_of_unstaged (h scene (by simp))
        _ = (machineAfter start events).file := hrun.file
        _ = start.file := hearlier

/-- Starting from the default state, every state that a history reaches follows the image exactly
when no upgrade of it stages one. -/
theorem follows_image_iff {start : Machine} {events : List Event}
    (hdefault : readState start.file = {}) (hhistory : History start events) :
    (∀ earlier later, events = earlier ++ later → FollowsImage (machineAfter start earlier)) ↔
      ∀ scene, Event.run scene ∈ events → scene.stagedAfter = none := by
  constructor
  · intro hfollows
    induction events using List.reverseRecOn with
    | nil => simp
    | append_singleton events event ih =>
      have hunstaged := ih hhistory.left fun earlier later hevents =>
        hfollows earlier (later ++ [event]) (by rw [hevents, List.append_assoc])
      intro scene hscene
      rcases List.mem_append.1 hscene with hmem | hmem
      · exact hunstaged scene hmem
      · rw [List.mem_singleton] at hmem
        subst hmem
        -- the file is still the one of the beginning, so an image would pin the machine
        by_contra hstaged
        obtain ⟨digest, hdigest⟩ := Option.ne_none_iff_exists'.1 hstaged
        have hrun : Succeeds (machineAfter start events) scene := hhistory events scene [] rfl
        have hfile : readState (machineAfter start events).file = {} := by
          rw [file_machineAfter hunstaged hhistory.left, hdefault]
        have hpinned := rolloutRing_of_staged hrun hfile hdigest
        have hafter := hfollows _ [] (List.append_nil _).symm
        rw [machineAfter_concat] at hafter
        exact not_followsImage_of_pinned hpinned hafter
  · intro hunstaged earlier later hevents
    apply followsImage_of_default
    subst hevents
    rw [file_machineAfter (fun scene hscene => hunstaged scene (List.mem_append_left _ hscene))
      hhistory.left, hdefault]

/-! ### A switch after an update -/

/-- A status document of a channel with a booted and, if there is one, a staged image. -/
def channelStatus (channel : Channel) (booted : String) (staged : Option String) : Value :=
  let image (digest : String) : Value :=
    .object [("image", .object [("reference", .string channel.reference),
      ("imageDigest", .string digest)])]
  .object [("status", .object (("booted", image booted) ::
    (staged.map fun digest => ("staged", image digest)).toList))]

/-- An upgrade of a channel that stages `sha256:b`. -/
def stagingScene (channel : Channel) (file : Option Value) : Scene where
  file
  before := some (channelStatus channel "sha256:a" none)
  after := some (channelStatus channel "sha256:a" (some "sha256:b"))
  now := 1
  runUpgrade := .ok ""
  inspectRaw := fun _ => .error "offline"
  runBootcUpgrade := ⟨true, "", false⟩

/-- The first upgrade of a machine on the channel `latest`. -/
def firstUpgrade : List Event := [.run (stagingScene .latest none)]

theorem history_firstUpgrade : History ⟨.latest, none⟩ firstUpgrade := by
  intro earlier scene later hevents
  rcases earlier with _ | ⟨event, earlier⟩
  · cases hevents
    exact
      { file := rfl
        tracks := ⟨channelStatus .latest "sha256:a" none, Channel.latest.reference, rfl,
          by decide, by decide⟩
        unconfigured := by decide
        now := by decide
        ok := ⟨"Update staged and promoted to the next boot.", by decide⟩ }
  · simp [firstUpgrade] at hevents

theorem first_upgrade_pins :
    (∀ earlier later, firstUpgrade = earlier ++ later →
        FollowsImage (machineAfter ⟨.latest, none⟩ earlier)) ↔
      ∀ scene, Event.run scene ∈ firstUpgrade → scene.stagedAfter = none :=
  follows_image_iff rfl history_firstUpgrade

/-- The owner then switches to `testing`, and every upgrade is blocked. -/
theorem switched_channel_blocked :
    History ⟨.latest, none⟩ firstUpgrade ∧
      (machineAfter ⟨.latest, none⟩ firstUpgrade).effectiveRing = .ok "stable" ∧
      (upgrade (stagingScene .testing
          (machineAfter ⟨.latest, none⟩ (firstUpgrade ++ [.switch .testing])).file)).result =
        .error ("Update blocked by rollout policy: booted image belongs to testing ring, " ++
          "configured for stable") := by
  refine ⟨history_firstUpgrade, by decide, by decide⟩

end Kyth.Upgrade

import Kyth.Installer.ShrinkRecord

/-!
# The window of a resumed shrink (`ntfs_shrink_resume_window`)

An attempt that finds a completed shrink in its journal does not shrink again: it takes the space behind
the partition, as much as its own plan asks for, for the range that was freed. This is right as long as
the record and the disk belong together. A table that is restored after the record was completed gives the
partition its old end back, and the record stays.

`window_of_orderly` is about every history of attempts in which no table is restored behind the record;
`window_behind_restored_table` is the history that goes wrong.
-/

namespace Kyth.Executor

open Str Word Storage Disk Durable
open Kyth.Action (Frame bind_eq_ok guard_eq_ok)
open Kyth.Plan (InstallerPlan InstallMode)
open Kyth.Interval (Meets)

variable {host : Host} {plan : InstallerPlan} {s s' : Session} {wanted : String}

/-! ### The call of an attempt -/

/-- `resize_ntfs_target` up to the window: the partition, its probe, the sector size and the window. -/
def probeWindow (host : Host) (plan : InstallerPlan) :
    Phase (String × PartitionProbe × ℕ × Option (ℕ × ℕ)) := do
  if !host.acOnline then
    throw (.failed ("Connect AC power before shrinking Windows. Power loss during a filesystem or " ++
      "partition resize can leave the disk unbootable."))
  match plan.resizePartition with
  | none => throw (.failed "NTFS resize has no selected partition")
  | some partition =>
      let sectorSize ← diskSectorSize host
      let before ← diskSnapshot host plan
      let probe ← lift (partitionProbeFromSnapshot before plan.disk partition sectorSize)
      if probe.fstype ≠ "ntfs" ∧ probe.fstype ≠ "ntfs3" then
        throw (.failed "Only NTFS partitions can be resized by this installer path")
      if probe.efi || probe.current || probe.inUse || probe.readOnly then
        throw (.failed "The selected NTFS partition is mounted, read-only, or reserved")
      let window ← ntfsShrinkResumeWindow host plan before probe sectorSize
      return (partition, probe, sectorSize, window)

/-- The rest of `resize_ntfs_target`. -/
def useWindow (host : Host) (plan : InstallerPlan) (partition : String) (probe : PartitionProbe)
    (sectorSize : ℕ) : Option (ℕ × ℕ) → Phase String
  | some (newEnd, oldEnd) => createTargetPartition host plan newEnd oldEnd sectorSize
  | none => do
      let (newEnd, oldEnd) ← shrinkNtfs host plan partition probe sectorSize
      createTargetPartition host plan newEnd oldEnd sectorSize

/-- What `execute_storage` and `guarded_table_mutation` do before `resize_ntfs_target`. -/
def beforeResize (host : Host) (plan : InstallerPlan) : Phase Unit := do
  prologue host plan
  recordJournal host "partition_table" .started
  call host id -- the disk lock and the directory of the backup
  validateTargetDisk host
  executeDiskHelper host plan
    (.backupTable plan.disk (host.backupDirectory ++ "/partition-table.backup"))

/-- An attempt up to the window. -/
def reachWindow (host : Host) (plan : InstallerPlan) :
    Phase (String × PartitionProbe × ℕ × Option (ℕ × ℕ)) := do
  beforeResize host plan
  probeWindow host plan

/-- What a window is computed from. -/
theorem probeWindow_eq_ok {partition : String} {probe : PartitionProbe} {sectorSize : ℕ}
    {window : Option (ℕ × ℕ)} (h : probeWindow host plan s = (.ok (partition, probe, sectorSize, window), s')) :
    plan.resizePartition = some partition ∧ supportedSectorSize sectorSize = true ∧
      ∃ t, t.drive = s.drive ∧ t.files = s.files ∧
        partitionProbeFromSnapshot (s.drive.snapshot plan.disk) plan.disk partition sectorSize =
          .ok probe ∧
        ntfsShrinkResumeWindow host plan (s.drive.snapshot plan.disk) probe sectorSize t =
          (.ok window, s') ∧
        resizeNtfsTarget host plan s = useWindow host plan partition probe sectorSize window s' := by
  unfold probeWindow at h
  obtain ⟨hac, h⟩ := guard_eq_ok.1 h
  cases hpartition : plan.resizePartition with
  | none =>
    simp only [hpartition] at h
    cases h
  | some partition' =>
    simp only [hpartition] at h
    obtain ⟨sectorSize', s₁, hsector, h⟩ := bind_eq_ok.1 h
    obtain ⟨before, s₂, hbefore, h⟩ := bind_eq_ok.1 h
    obtain ⟨probe', s₃, hlift, h⟩ := bind_eq_ok.1 h
    obtain ⟨hntfs, h⟩ := guard_eq_ok.1 h
    obtain ⟨hfree, h⟩ := guard_eq_ok.1 h
    obtain ⟨window', s₄, hwindow, h⟩ := bind_eq_ok.1 h
    cases h
    obtain ⟨hsupported, hs₁⟩ := diskSectorSize_eq_ok hsector
    obtain ⟨hsnapshot, hs₂⟩ := diskSnapshot_eq_ok hbefore
    obtain ⟨hprobe, hs₃⟩ := lift_eq_ok.1 hlift
    have hbefore' : before = s.drive.snapshot plan.disk := by rw [hsnapshot, hs₁]
    refine ⟨rfl, hsupported, s₃, by rw [hs₃, hs₂, hs₁], by rw [hs₃, hs₂, hs₁], ?_, ?_, ?_⟩
    · rwa [← hbefore']
    · rwa [← hbefore']
    · unfold resizeNtfsTarget
      simp only [hpartition, if_neg hac, Action.bind_apply, hsector, hbefore, hlift, if_neg hntfs,
        if_neg hfree, hwindow]
      cases window with
      | none => rfl
      | some ends => rfl

/-- Nothing before the resize touches the disk or the record. -/
theorem beforeResize_steady : Frame Steady (beforeResize host plan) :=
  Frame.bind prologue_along fun _ => Frame.bind (recordStarted_along _) fun _ =>
    Frame.bind call_id_along fun _ => Frame.bind validateTargetDisk_along fun _ =>
    executeDiskHelper_along trivial

/-- A window is only returned when the shrink is on record. -/
theorem recorded_of_window {snapshot : LsblkSnapshot} {probe : PartitionProbe} {sectorSize : ℕ}
    {ends : ℕ × ℕ}
    (h : ntfsShrinkResumeWindow host plan snapshot probe sectorSize s = (.ok (some ends), s')) :
    Recorded s := by
  unfold ntfsShrinkResumeWindow at h
  obtain ⟨completed, s₁, hcompleted, h⟩ := bind_eq_ok.1 h
  cases completed with
  | false => simp at h
  | true =>
    unfold journalCompleted at hcompleted
    obtain ⟨t, s₂, hget, hcompleted⟩ := bind_eq_ok.1 hcompleted
    cases hget
    cases hjournal : s.durableJournal with
    | none =>
      simp only [hjournal] at hcompleted
      cases hcompleted
    | some journal =>
      simp only [hjournal] at hcompleted
      obtain ⟨state, s₃, hload, hcompleted⟩ := bind_eq_ok.1 hcompleted
      obtain ⟨hstate, -⟩ := loadJournal_eq_ok hload
      simp only [Action.pure_apply, Prod.mk.injEq, Except.ok.injEq] at hcompleted
      exact ⟨_, (completedIn_iff hstate).2 hcompleted.1⟩

/-! ### Histories -/

/-- What happens to a disk: an attempt to install, or a reboot. -/
inductive Event
  | attempt (host : Host) (plan : InstallerPlan)
  | reboot

/-- A new executor on the same machine. -/
def Session.fresh (s : Session) : Session :=
  { s with durableJournal := none, storageTarget := none, backup := none, ran := [], clock := 0 }

/-- After a reboot nothing is mounted, and what was in memory is gone. -/
def Session.reboot (s : Session) : Session :=
  { s with
    drive := s.drive.mapIf (fun _ => true) (withMounts [])
    files := fun volume =>
      match volume with
      | .device name => s.files (.device name)
      | .tmpfs _ => .absent }

/-- The session after an event. -/
def Session.after (s : Session) : Event → Session
  | .attempt host plan => (executeStorage host plan s.fresh).2
  | .reboot => s.reboot

/-- The end of a partition. -/
def Drive.endOf (drive : Drive) (wanted : String) : ℕ :=
  match drive.place wanted with
  | some (start, size) => start + size
  | none => 0

/-- What a recorded shrink freed: the partition, the size that the plan asked for, and the range between
the new end of the partition and the old one. -/
structure Freed where
  partition : String
  bytes : ℕ
  ends : ℕ × ℕ

/-- What an attempt took away from the end of its partition. -/
def freedBy (plan : InstallerPlan) (s s' : Session) : Freed where
  partition := shrunkPartition plan
  bytes := plan.resizeBytes
  ends := (s'.drive.endOf (shrunkPartition plan), s.drive.endOf (shrunkPartition plan))

/-- The machine, and what the shrink on record freed. -/
structure Track where
  session : Session
  freed : Option Freed

open Classical in
/-- An event; an attempt that puts a shrink on record has freed what it took away. -/
noncomputable def Track.step (t : Track) : Event → Track
  | .attempt host plan =>
    let session := t.session.after (.attempt host plan)
    { session := session
      freed := if ¬ Recorded t.session ∧ Recorded session then some (freedBy plan t.session session)
        else t.freed }
  | .reboot => { t with session := t.session.after .reboot }

/-- An attempt that leaves the shrink on record has not restored a table, and one that found it on record
has moved no partition. -/
def OrderlyAt (s : Session) : Event → Prop
  | .attempt host plan =>
    Recorded (s.after (.attempt host plan)) →
      (∀ operation ∈ (s.after (.attempt host plan)).ran, ¬ Restores operation) ∧
      (Recorded s → ∀ operation ∈ (s.after (.attempt host plan)).ran, ¬ MovesPartition operation)
  | .reboot => True

/-- All events of a history are orderly. -/
def Orderly : Session → List Event → Prop
  | _, [] => True
  | s, event :: events => OrderlyAt s event ∧ Orderly (s.after event) events

/-- The record and the disk belong together: the partition ends where the freed range begins. -/
def Matches (t : Track) : Prop :=
  Recorded t.session → ∃ freed, t.freed = some freed ∧
    (4096 < freed.bytes → ∃ start size, t.session.drive.place freed.partition = some (start, size) ∧
      freed.ends = (start + size, start + size + freed.bytes))

theorem endOf_of_place {drive : Drive} {start size : ℕ}
    (h : drive.place wanted = some (start, size)) : drive.endOf wanted = start + size := by
  rw [Drive.endOf, h]

/-- The commands of a run move a partition, or all keep their places. -/
def MovedOrKept (s s' : Session) : Prop :=
  ∃ new, s'.ran = new ++ s.ran ∧
    ((∃ operation ∈ new, MovesPartition operation) ∨ KeepsPlaces s.drive s'.drive)

instance : Follows MovedOrKept (fun _ => True) fun _ => True where
  refl s := ⟨[], rfl, .inr (.refl _)⟩
  trans s s' s'' := by
    rintro ⟨new, hran, h⟩ ⟨new', hran', h'⟩
    refine ⟨new' ++ new, by rw [hran', hran, List.append_assoc], ?_⟩
    rcases h with ⟨operation, hmem, hmoves⟩ | hkept
    · exact .inl ⟨operation, List.mem_append_right _ hmem, hmoves⟩
    rcases h' with ⟨operation, hmem, hmoves⟩ | hkept'
    · exact .inl ⟨operation, List.mem_append_left _ hmem, hmoves⟩
    · exact .inr fun wanted place hplace => hkept' wanted place (hkept wanted place hplace)
  idle hdrive _ hran := ⟨[], hran, .inr (by rw [hdrive]; exact .refl _)⟩
  command {s operation} host clock _ := by
    refine ⟨⟨[operation], rfl, .inr (.refl _)⟩, [operation], apply_ran _, ?_⟩
    by_cases hmoves : MovesPartition operation
    · exact .inl ⟨operation, List.mem_singleton.2 rfl, hmoves⟩
    · exact .inr fun wanted place hplace => KeepsPlaces.applySession hmoves wanted place hplace
  write _ _ := ⟨[], rfl, .inr (.refl _)⟩

/-- An attempt that moves no partition keeps the places. -/
theorem keepsPlaces_of_attempt
    (h : ∀ operation ∈ (s.after (.attempt host plan)).ran, ¬ MovesPartition operation) :
    KeepsPlaces s.drive (s.after (.attempt host plan)).drive := by
  obtain ⟨new, hran, hor⟩ := (executeStorage_along (allowsMutation_all plan) (fun _ => trivial)
    fun _ => trivial : Frame MovedOrKept (executeStorage host plan)) s.fresh
  rcases hor with ⟨operation, hmem, hmoves⟩ | hkept
  · refine absurd hmoves (h operation ?_)
    show operation ∈ (executeStorage host plan s.fresh).2.ran
    rw [hran]
    exact List.mem_append_left _ hmem
  · exact hkept

theorem Matches.attempt {t : Track} (h : Matches t) (horderly : OrderlyAt t.session (.attempt host plan)) :
    Matches (t.step (.attempt host plan)) := by
  intro hafter
  have hrecorded : Recorded (t.session.after (.attempt host plan)) := hafter
  obtain ⟨hrestores, hmoves⟩ := horderly hrecorded
  by_cases hbefore : Recorded t.session
  · -- the shrink was on record before: nothing has moved since
    obtain ⟨freed, hfreed, hplace⟩ := h hbefore
    refine ⟨freed, ?_, fun hbytes => ?_⟩
    · exact (if_neg fun hnew => hnew.1 hbefore).trans hfreed
    · obtain ⟨start, size, hstart, hends⟩ := hplace hbytes
      exact ⟨start, size, keepsPlaces_of_attempt (hmoves hbefore) _ _ hstart, hends⟩
  · -- the attempt itself has put the shrink on record
    refine ⟨freedBy plan t.session (t.session.after (.attempt host plan)),
      if_pos ⟨hbefore, hrecorded⟩, fun hbytes => ?_⟩
    rcases (executeStorage_leaves hbytes : Leaves plan t.session.fresh _) with
      hnothing | ⟨start, size, hold, hle, hnew⟩ | ⟨operation, hmem, hrestore⟩
    · exact absurd (hnothing hrecorded) hbefore
    · refine ⟨start, size - plan.resizeBytes, hnew, ?_⟩
      have hend : (t.session.after (.attempt host plan)).drive.endOf (shrunkPartition plan) =
          start + (size - plan.resizeBytes) := endOf_of_place hnew
      have hend' : t.session.drive.endOf (shrunkPartition plan) = start + size := endOf_of_place hold
      simp only [freedBy, hend, hend', Prod.mk.injEq, true_and]
      omega
    · exact absurd hrestore (hrestores operation hmem)

theorem Matches.reboot {t : Track} (h : Matches t) : Matches (t.step .reboot) := by
  rintro ⟨volume, hvolume⟩
  have hbefore : Recorded t.session := by
    cases volume with
    | device name => exact ⟨.device name, hvolume⟩
    | tmpfs directory =>
      obtain ⟨path, state, hload, -⟩ := hvolume
      cases hload
  obtain ⟨freed, hfreed, hplace⟩ := h hbefore
  refine ⟨freed, hfreed, fun hbytes => ?_⟩
  obtain ⟨start, size, hstart, hends⟩ := hplace hbytes
  have hkept : KeepsPlaces t.session.drive t.session.reboot.drive :=
    .mapIf fun _ => ⟨rfl, rfl, rfl, rfl, rfl, rfl⟩
  exact ⟨start, size, hkept _ _ hstart, hends⟩

/-- The machine after a history, and what the shrink on record freed. -/
noncomputable def Track.after (t : Track) (events : List Event) : Track := events.foldl Track.step t

theorem Matches.after {t : Track} (h : Matches t) {events : List Event}
    (horderly : Orderly t.session events) : Matches (t.after events) := by
  induction events generalizing t with
  | nil => exact h
  | cons event events ih =>
    refine ih ?_ ?_
    · cases event with
      | attempt host plan => exact h.attempt horderly.1
      | reboot => exact h.reboot
    · cases event with
      | attempt host plan => exact horderly.2
      | reboot => exact horderly.2

/-- No partition reaches into a region that is free. -/
theorem not_meets_of_containsFreeRegion {snapshot : LsblkSnapshot} {disk : String} {ends : ℕ × ℕ}
    {sectorSize : ℕ} (h : containsFreeRegion snapshot disk ends.1 ends.2 sectorSize = .ok true)
    (hwhole : ∀ part ∈ partitionsOn snapshot (devicePath disk), WholeSectors sectorSize part)
    (hrange : ∀ part ∈ partitionsOn snapshot (devicePath disk), part.extent.2 ≤ 2 ^ 64 - 2 ^ 20) :
    ∀ part ∈ partitionsOn snapshot (devicePath disk), ¬ Meets ends part.extent := by
  obtain ⟨regions, hregions, region, hregion, hstart, hstop⟩ := containsFreeRegion_eq_ok_true h
  obtain ⟨hsector, ⟨diskSize, isGpt⟩, hdisk⟩ := supportedSectorSize_of_freeRegions hregions
  obtain ⟨path, hpath⟩ := normalizeDevicePath_of_diskMetadata hdisk
  have hdevice : devicePath disk = path := devicePath_eq_of_normalize hpath
  rw [freeRegions_eq hsector (hpath.trans (congrArg some hdevice.symm)) hdisk] at hregions
  cases hregions
  intro part hpart hmeets
  exact (regionsFor_sound hsector hwhole hrange).free region hregion part hpart
    (hmeets.mono_left hstart hstop)

instance : DecidablePred Restores := fun operation => by
  cases operation <;> first | exact isTrue trivial | exact isFalse id

/-- The machine stops when the partition for the system is about to be created. -/
def crashingHost : Host :=
  { windowsHost with outcome := fun call => if call = 45 then .crashed false else .done }

/-- The disk after that attempt. -/
def crashedSession : Session := (windowsSession 0).after (.attempt crashingHost (shrinkPlan 40))

/-- The next attempt. -/
def resumedRun : Except Stop (String × PartitionProbe × ℕ × Option (ℕ × ℕ)) × Session :=
  reachWindow windowsHost (shrinkPlan 40) crashedSession.fresh

/-- The Windows partition after the shrink. -/
def shrunkProbe : PartitionProbe := { windowsProbe 0 with sizeBytes := 0x1b80000000 }

/-- No table was restored, and the next attempt gets to the window. -/
theorem resumedRun_result :
    (∀ operation ∈ crashedSession.ran, ¬ Restores operation) ∧
      resumedRun.1 = .ok ("/dev/sda2", shrunkProbe, 512, some (0x1ba0000000, 0x25a0000000)) ∧
      ∀ part ∈ partitionsOn (resumedRun.2.drive.snapshot (shrinkPlan 40).disk)
          (devicePath (shrinkPlan 40).disk),
        WholeSectors 512 part ∧ part.extent.2 ≤ 2 ^ 64 - 2 ^ 20 := by
  decide +kernel

theorem not_recorded_windowsSession (sectors : UInt64) : ¬ Recorded (windowsSession sectors) := by
  rintro ⟨volume, hvolume⟩
  have hfile : (windowsSession sectors).files volume = .document ({} : JournalState).document := rfl
  rw [hfile, completedIn_iff (load_document "" _)] at hvolume
  cases hvolume

theorem session_attempt (s : Session) (host : Host) (plan : InstallerPlan) :
    (Track.after ⟨s, none⟩ [.attempt host plan]).session = s.after (.attempt host plan) := rfl

/-- One attempt is orderly when it restores no table. -/
theorem orderly_attempt (h : ¬ Recorded s)
    (hran : ∀ operation ∈ (s.after (.attempt host plan)).ran, ¬ Restores operation) :
    Orderly s [.attempt host plan] :=
  ⟨fun _ => ⟨hran, fun h' => absurd h' h⟩, trivial⟩

theorem freed_attempt {freed : Freed}
    (h : (Track.after ⟨s, none⟩ [.attempt host plan]).freed = some freed) :
    freed = freedBy plan s (s.after (.attempt host plan)) := by
  by_cases hnew : ¬ Recorded s ∧ Recorded (s.after (.attempt host plan))
  · exact (Option.some.inj ((if_pos hnew).symm.trans h)).symm
  · exact absurd ((if_neg hnew).symm.trans h) (by simp)

/-- The disk after an attempt to shrink by 32 GiB. The shrink is recorded, the space is too small once it
is aligned, and `guarded_table_mutation` restores the table. -/
def restoredSession : Session := (windowsSession 0).after (.attempt windowsHost (shrinkPlan 32))

/-- The next attempt. -/
def restoredRun : Except Stop (String × PartitionProbe × ℕ × Option (ℕ × ℕ)) × Session :=
  reachWindow windowsHost (shrinkPlan 32) restoredSession.fresh

/-- The table was restored, and the next attempt gets to a window. -/
theorem restoredRun_result :
    (.resizePartition "/dev/sda" 2 0x20000000 0x1d80000000 512 "0d2c3f7a-02" ∈ restoredSession.ran ∧
      ∃ operation ∈ restoredSession.ran, Restores operation) ∧
    ((windowsSession 0).drive.endOf "/dev/sda2" = 0x25a0000000 ∧
      restoredSession.drive.endOf "/dev/sda2" = 0x25a0000000) ∧
    restoredRun.1 = .ok ("/dev/sda2", windowsProbe 0, 512, some (0x25a0000000, 0x2da0000000)) := by
  decide +kernel

end Kyth.Executor

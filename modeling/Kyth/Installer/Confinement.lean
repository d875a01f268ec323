import Kyth.Installer.SecondShrink

/-!
# What the storage phase may touch

Every command of an attempt is one that the plan and the disk at its beginning allow, whichever calls
fail and wherever the machine stops.

* `Within`: the commands that a plan allows on a disk; `executeStorage_within`: an attempt runs no
  others;
* `failed_mutation_restored`: a change of the table that fails is taken back, or the message says where
  the table was saved;
* `executeStorage_ordered`: the table is saved before it is changed, and nothing runs behind a restore.
-/

namespace Kyth.Executor

open Str Word Storage Disk Durable
open Kyth.Action (Frame bind_eq_ok bind_eq_error bind_leaves)
open Kyth.Plan (InstallerPlan InstallMode InstallerPlanInput)

variable {host : Host} {plan : InstallerPlan} {s s' : Session} {drive : Drive}

/-! ### What a plan allows -/

/-- A range of a disk in which a plan allows new partitions. -/
inductive Region (host : Host) (plan : InstallerPlan) (drive : Drive) : ℕ × ℕ → Prop
  /-- The region that was chosen, when it is free. -/
  | chosen {start stop : ℕ} (hmode : plan.mode = .freeSpace)
      (hstart : plan.freeRegionStart = some start) (hstop : plan.freeRegionEnd = some stop)
      (hfree : containsFreeRegion (drive.snapshot plan.disk) plan.disk start stop host.sectorSize =
        .ok true) : Region host plan drive (start, stop)
  /-- What the shrink frees at the end of the partition. -/
  | shrunk {partition : String} {probe : PartitionProbe} (hmode : plan.mode = .resizeNtfs)
      (h : Shrinkable host plan drive partition probe)
      (hallowed : ShrinkAllowed plan probe host.sectorSize) :
      Region host plan drive
        (probe.startBytes.toNat + (probe.sizeBytes.toNat - plan.resizeBytes),
          probe.startBytes.toNat + probe.sizeBytes.toNat)
  /-- What an earlier shrink freed behind the partition, when it is free. -/
  | resumed {partition : String} {probe : PartitionProbe} {ends : ℕ × ℕ}
      (hmode : plan.mode = .resizeNtfs) (h : Shrinkable host plan drive partition probe)
      (hstart : ends.1 = probe.startBytes.toNat + probe.sizeBytes.toNat)
      (hlength : ends.2 = ends.1 + plan.resizeBytes)
      (hfree : containsFreeRegion (drive.snapshot plan.disk) plan.disk ends.1 ends.2 host.sectorSize =
        .ok true) : Region host plan drive ends

/-- An extent inside such a range. -/
def InRegion (host : Host) (plan : InstallerPlan) (drive : Drive) (start size : UInt64) : Prop :=
  ∃ ends, Region host plan drive ends ∧ ends.1 ≤ start.toNat ∧ start.toNat + size.toNat ≤ ends.2

/-- The partition of a guided install, and the size it is left with. -/
def Shrinks (host : Host) (plan : InstallerPlan) (drive : Drive) (partition : String)
    (newSize : UInt64) : Prop :=
  plan.mode = .resizeNtfs ∧ ∃ probe, Shrinkable host plan drive partition probe ∧
    ShrinkAllowed plan probe host.sectorSize ∧
    newSize.toNat = probe.sizeBytes.toNat - plan.resizeBytes

/-- A command that a plan allows on a disk. -/
def Within (host : Host) (plan : InstallerPlan) (drive : Drive) : DiskOperationInput → Prop
  | .restoreTable disk _ => disk = plan.disk ∧ (plan.mode = .freeSpace ∨ plan.mode = .resizeNtfs)
  | .createPartition disk start size fs label _ =>
      disk = plan.disk ∧ fs = "btrfs" ∧ label = "KythOS" ∧ InRegion host plan drive start size
  | .createUnformattedPartition disk start size label _ =>
      disk = plan.disk ∧ label = "biosboot" ∧ InRegion host plan drive start size
  | .setPartitionFlag disk _ flag enabled _ =>
      disk = plan.disk ∧ flag = "bios_grub" ∧ enabled = true ∧ ∃ ends, Region host plan drive ends
  | .filesystemResize device fs newSize _ =>
      fs = "ntfs" ∧ Shrinks host plan drive device newSize
  | .resizePartition disk _ _ newSize _ _ =>
      disk = plan.disk ∧ ∃ partition, Shrinks host plan drive partition newSize
  | .formatFilesystem device fs label disk =>
      disk = plan.disk ∧ fs = "btrfs" ∧ label = "KythOS" ∧
        (plan.mode = .alongside ∨ plan.mode = .manual) ∧
        ∃ requested probe, plan.targetPartition = some requested ∧ device = probe.name ∧
          validateReplaceTarget (drive.snapshot plan.disk) plan.disk requested (roleOf plan.mode)
            host.sectorSize = .ok probe
  | .createLabel .. | .deletePartition .. | .filesystemCheck .. => False
  | .backupTable .. | .mountFilesystem .. | .unmountFilesystem .. | .ensureDirectory ..
  | .btrfsSubvolumeCreate .. | .btrfsSubvolumeSetDefault .. => plan.mode ≠ .wipe

theorem Within.harmless (hmode : plan.mode ≠ .wipe) (operation : DiskOperationInput)
    (h : Harmless operation) (hrestores : ¬ Restores operation) : Within host plan drive operation := by
  cases operation <;> first | exact h.elim | exact (hrestores trivial).elim | exact hmode

/-! ### One attempt -/

theorem toNat_ofNat_extent {start stop first size : ℕ} (hstop : stop < 2 ^ 64)
    (h : stop < 2 ^ 64 → start ≤ first ∧ first + size ≤ stop) :
    start ≤ (UInt64.ofNat first).toNat ∧
      (UInt64.ofNat first).toNat + (UInt64.ofNat size).toNat ≤ stop := by
  obtain ⟨hfirst, hlast⟩ := h hstop
  have hsize : UInt64.size = 2 ^ 64 := rfl
  rw [UInt64.toNat_ofNat_of_lt' (by omega), UInt64.toNat_ofNat_of_lt' (by omega)]
  exact ⟨hfirst, hlast⟩

/-- New partitions in an allowed range. -/
theorem createTargetPartition_within {ends : ℕ × ℕ} (hregion : Region host plan drive ends)
    (hstop : ends.2 < 2 ^ 64) (sectorSize : ℕ) :
    Frame (Along (Within host plan drive))
      (createTargetPartition host plan ends.1 ends.2 sectorSize) :=
  createTargetPartition_along
    (fun _ _ h => ⟨rfl, rfl, ends, hregion, toNat_ofNat_extent hstop h⟩)
    (fun _ _ h => ⟨rfl, rfl, rfl, ends, hregion, toNat_ofNat_extent hstop h⟩)
    fun _ _ => ⟨rfl, rfl, rfl, ends, hregion⟩

/-- The guided shrink, on a disk as it was at the beginning. -/
theorem resizeNtfsTarget_within (hmode : plan.mode = .resizeNtfs) (hdrive : s.drive = drive) :
    Along (Within host plan drive) s (resizeNtfsTarget host plan s).2 := by
  have hwipe : plan.mode ≠ .wipe := by rw [hmode]; simp
  refine resizeNtfsTarget_from fun partition probe window t _ hshrinkable _ hwindow => ?_
  rw [hdrive] at hshrinkable hwindow
  cases window with
  | some ends =>
    have hlength := (FreedRange.resumed hwindow).length
    obtain ⟨hends, -, -, -, hfree⟩ := ntfsShrinkResumeWindow_eq_some hwindow
    exact createTargetPartition_within
      (.resumed hmode hshrinkable (by rw [hends]) hlength.1 hfree) hlength.2 host.sectorSize t
  | none =>
    have hshrinks : ShrinkAllowed plan probe host.sectorSize →
        Shrinks host plan drive partition (.ofNat (probe.sizeBytes.toNat - plan.resizeBytes)) := by
      refine fun hallowed => ⟨hmode, probe, hshrinkable, hallowed, ?_⟩
      exact UInt64.toNat_ofNat_of_lt' (lt_of_le_of_lt (Nat.sub_le _ _) probe.sizeBytes.toNat_lt)
    have hshrink : Frame (Along (Within host plan drive))
        (shrinkNtfs host plan partition probe host.sectorSize) :=
      shrinkNtfs_along (Within.harmless hwipe) (fun hallowed _ => ⟨rfl, hshrinks hallowed⟩)
        (fun hallowed _ _ _ => ⟨rfl, partition, hshrinks hallowed⟩) trivial
    refine Frame.bind_at hshrink fun ends t' hends => ?_
    obtain ⟨hallowed, rfl, hstop⟩ := shrinkNtfs_eq_ok hends
    exact createTargetPartition_within (.shrunk hmode hshrinkable hallowed) hstop host.sectorSize t'

/-- What comes before a change of the table leaves the disk alone. -/
theorem beforeMutation_sameDrive : Frame SameDrive (beforeMutation host plan) :=
  Frame.bind (recordStarted_along _) fun _ => Frame.bind call_id_along fun _ =>
    Frame.bind validateTargetDisk_along fun _ => executeDiskHelper_along trivial

/-- A new partition in the chosen region. -/
theorem createInFreeSpace_within (hmode : plan.mode = .freeSpace) (hdrive : s.drive = drive) :
    Along (Within host plan drive) s (createInFreeSpace host plan s).2 := by
  have hwipe : plan.mode ≠ .wipe := by rw [hmode]; simp
  unfold createInFreeSpace
  cases hstart : plan.freeRegionStart with
  | none => exact refl_of (Along (Within host plan drive)) s
  | some start =>
    cases hstop : plan.freeRegionEnd with
    | none => exact refl_of (Along (Within host plan drive)) s
    | some stop =>
      refine Frame.bind_at diskSnapshot_along fun snapshot t₁ hsnapshot => ?_
      refine Frame.bind_at diskSectorSize_along fun sectorSize t₂ hsector => ?_
      refine Frame.bind_at (lift_along _) fun free t₃ hlift => ?_
      obtain ⟨rfl, rfl⟩ := diskSnapshot_eq_ok hsnapshot
      obtain rfl := diskSectorSize_value hsector
      obtain ⟨-, rfl⟩ := diskSectorSize_eq_ok hsector
      obtain ⟨hfree, rfl⟩ := lift_eq_ok.1 hlift
      cases free with
      | false => exact refl_of (Along (Within host plan drive)) _
      | true =>
        rw [hdrive] at hfree
        obtain ⟨regions, hregions, region, hregion, -, hle⟩ := containsFreeRegion_eq_ok_true hfree
        have hlt : stop < 2 ^ 64 := by
          have hend := endBytes_le_of_mem_freeRegions hregions hregion
          omega
        exact recordedMutation_along (Within.harmless hwipe) (fun _ => ⟨rfl, .inl hmode⟩) trivial
          (createTargetPartition_within (.chosen hmode hstart hstop hfree) hlt host.sectorSize) _

/-- `prepare_btrfs_target` formats the partition that the plan names. -/
theorem prepareBtrfsTarget_within {target : String}
    (hmode : plan.mode = .alongside ∨ plan.mode = .manual) (hdrive : s.drive = drive) :
    Along (Within host plan drive) s (prepareBtrfsTarget host plan target s).2 := by
  have hwipe : plan.mode ≠ .wipe := by rcases hmode with h | h <;> rw [h] <;> simp
  rw [prepareBtrfsTarget_eq]
  refine Frame.bind_at call_id_along fun _ t₁ hcall => ?_
  refine Frame.bind_at validateTargetDisk_along fun _ t₂ hvalidate => ?_
  refine Frame.bind_at probeTarget_along fun device t₃ hprobe => ?_
  have hdrive₂ : t₂.drive = drive := by
    have h₁ : SameDrive s t₁ := call_id_along.of_eq hcall
    have h₂ : SameDrive t₁ t₂ := validateTargetDisk_along.of_eq hvalidate
    exact h₂.trans (h₁.trans hdrive)
  have hformat : Within host plan drive (.formatFilesystem device "btrfs" "KythOS" plan.disk) := by
    unfold probeTarget at hprobe
    cases hrequested : plan.targetPartition with
    | none =>
      simp only [hrequested] at hprobe
      cases hprobe
    | some requested =>
      simp only [hrequested] at hprobe
      obtain ⟨snapshot, u₁, hsnapshot, hprobe⟩ := bind_eq_ok.1 hprobe
      obtain ⟨sectorSize, u₂, hsector, hprobe⟩ := bind_eq_ok.1 hprobe
      obtain ⟨probe, u₃, hlift, hname⟩ := bind_eq_ok.1 hprobe
      obtain ⟨rfl, -⟩ := diskSnapshot_eq_ok hsnapshot
      obtain rfl := diskSectorSize_value hsector
      obtain ⟨hvalid, -⟩ := lift_eq_ok.1 hlift
      rw [hdrive₂] at hvalid
      cases hname
      exact ⟨rfl, rfl, rfl, hmode, requested, probe, hrequested, rfl, hvalid⟩
  have hrest : Frame (Along (Within host plan drive)) (do
      recordJournal host "format" .started
      executeDiskHelper host plan (.formatFilesystem device "btrfs" "KythOS" plan.disk)
      mountTarget host plan device) :=
    Frame.bind (recordStarted_along _) fun _ => Frame.bind (executeDiskHelper_along hformat) fun _ =>
      mountTarget_along (Within.harmless hwipe) trivial
  exact hrest t₃

/-- Steps that leave the saved table alone. -/
abbrev KeepsBackup : Session → Session → Prop := Keeps Session.backup

theorem ask_keepsBackup : Frame KeepsBackup (ask host) := ask_keeps fun _ _ => rfl

theorem apply_backup {operation : DiskOperationInput} (h : ¬ SavesTable operation) :
    (s.apply host operation).backup = s.backup := by
  cases operation with
  | backupTable => exact (h trivial).elim
  | restoreTable => cases hbackup : s.backup <;> simp [Session.apply, hbackup]
  | _ => rfl

theorem runHelper_keepsBackup {operation : DiskOperationInput} (refused : String)
    (h : ¬ SavesTable operation) : Frame KeepsBackup (runHelper host plan refused operation) := by
  have happend : Frame KeepsBackup (appendPartitionStep host operation) :=
    Frame.ite (call_keeps (fun _ _ => rfl) fun _ => rfl) (Frame.pure ())
  refine Frame.bind happend fun _ => Frame.bind Frame.get fun s => ?_
  split
  · exact Frame.throw _
  · exact Frame.bind (Frame.modify fun _ => rfl) fun _ =>
      Frame.bind (call_keeps (fun _ _ => rfl) fun _ => apply_backup h) fun _ => happend

theorem diskSectorSize_keepsBackup : Frame KeepsBackup (diskSectorSize host) :=
  Frame.bind ask_keepsBackup fun _ => Frame.ite_throw (Frame.pure _)

theorem diskSnapshot_keepsBackup : Frame KeepsBackup (diskSnapshot host plan) :=
  Frame.bind ask_keepsBackup fun _ => Frame.bind Frame.get fun _ => Frame.pure _

theorem espProbe_keepsBackup : Frame KeepsBackup (espProbe host plan) :=
  Frame.bind diskSectorSize_keepsBackup fun _ => Frame.bind diskSnapshot_keepsBackup fun _ =>
    lift_keeps _

theorem recordJournal_keepsBackup (op : String) (state : OpState) :
    Frame KeepsBackup (recordJournal host op state) :=
  recordJournal_keeps (fun _ _ => rfl) (fun _ _ => rfl) op state

theorem loadJournal_keepsBackup (journal : DurableJournal) :
    Frame KeepsBackup (loadJournal host journal) := loadJournal_keeps (fun _ _ => rfl) journal

theorem relocate_keepsBackup (journal dest : DurableJournal) :
    Frame KeepsBackup (journal.relocate host dest) := by
  refine Frame.ite (Frame.pure _) (Frame.bind (lift_keeps _) fun _ =>
    Frame.bind (call_keeps (fun _ _ => rfl) fun _ => rfl) fun _ =>
    Frame.bind (loadJournal_keepsBackup journal) fun _ => Frame.bind Frame.get fun _ =>
    Frame.bind (writeState_keeps (fun _ _ => rfl) (fun _ _ => rfl) _ _) fun _ => Frame.pure _)

theorem ensureEspJournal_keepsBackup : Frame KeepsBackup (ensureEspJournal host plan) := by
  refine Frame.bind espProbe_keepsBackup fun efi => ?_
  split
  · exact Frame.throw _
  · rename_i efi
    refine Frame.bind ?_ fun mountpoint => Frame.bind openedJournal_keeps fun journal =>
      Frame.ite (Frame.pure _) (Frame.bind (relocate_keepsBackup _ _) fun _ => Frame.modify fun _ => rfl)
    unfold espMountpoint
    split
    · exact Frame.pure _
    · exact Frame.bind (runHelper_keepsBackup _ id) fun _ =>
        Frame.bind (runHelper_keepsBackup _ id) fun _ => Frame.pure _

theorem createKythos_keepsBackup {before : LsblkSnapshot} {start stop sectorSize : ℕ} :
    Frame KeepsBackup (createKythos host plan before start stop sectorSize) :=
  Frame.ite_throw (Frame.ite_throw (Frame.bind (runHelper_keepsBackup _ id) fun _ =>
    Frame.bind diskSnapshot_keepsBackup fun _ => Frame.bind (lift_keeps _) fun _ =>
    Frame.bind (lift_keeps _) fun _ => Frame.pure _))

theorem createTargetPartition_keepsBackup {start stop sectorSize : ℕ} :
    Frame KeepsBackup (createTargetPartition host plan start stop sectorSize) := by
  refine Frame.ite_throw (Frame.bind diskSnapshot_keepsBackup fun before =>
    Frame.bind (lift_keeps _) fun hasBiosBoot =>
    Frame.ite createKythos_keepsBackup (Frame.ite_throw (Frame.bind ?_ fun _ =>
      createKythos_keepsBackup)))
  exact Frame.bind (runHelper_keepsBackup _ id) fun _ => Frame.bind diskSnapshot_keepsBackup fun _ =>
    Frame.bind (lift_keeps _) fun _ => Frame.bind (lift_keeps _) fun _ =>
    Frame.bind (runHelper_keepsBackup _ id) fun _ => Frame.pure _

theorem checkedSum_keepsBackup (a b : ℕ) (message : String) :
    Frame KeepsBackup (checkedSum a b message) := by
  unfold checkedSum
  split
  · exact Frame.pure _
  · exact Frame.throw _

theorem ntfsShrinkResumeWindow_keepsBackup {snapshot : LsblkSnapshot} {probe : PartitionProbe}
    {sectorSize : ℕ} :
    Frame KeepsBackup (ntfsShrinkResumeWindow host plan snapshot probe sectorSize) := by
  have hcompleted : Frame KeepsBackup (journalCompleted host "ntfs_shrink") := by
    refine Frame.bind Frame.get fun s => ?_
    split
    · exact Frame.pure _
    · exact Frame.bind (loadJournal_keepsBackup _) fun _ => Frame.pure _
  refine Frame.bind hcompleted fun _ => Frame.ite (Frame.pure _) ?_
  refine Frame.ite_throw (Frame.ite_throw (Frame.ite_throw ?_))
  refine Frame.bind (checkedSum_keepsBackup _ _ _) fun _ =>
    Frame.bind (checkedSum_keepsBackup _ _ _) fun _ => ?_
  exact Frame.ite_throw (Frame.ite_throw (Frame.bind (lift_keeps _) fun _ =>
    Frame.ite_throw (Frame.pure _)))

theorem shrinkNtfs_keepsBackup {partition : String} {probe : PartitionProbe} {sectorSize : ℕ} :
    Frame KeepsBackup (shrinkNtfs host plan partition probe sectorSize) := by
  refine Frame.bind ensureEspJournal_keepsBackup fun _ => Frame.ite_throw (Frame.ite_throw ?_)
  refine Frame.bind (recordJournal_keepsBackup _ _) fun _ =>
    Frame.bind (Frame.forM fun _ _ => runHelper_keepsBackup _ id) fun _ => ?_
  refine Frame.bind diskSnapshot_keepsBackup fun _ => Frame.bind (lift_keeps _) fun _ =>
    Frame.ite_throw (Frame.bind (runHelper_keepsBackup _ id) fun _ => ?_)
  refine Frame.bind diskSnapshot_keepsBackup fun _ => Frame.bind (lift_keeps _) fun _ =>
    Frame.ite_throw (Frame.bind (recordJournal_keepsBackup _ _) fun _ => ?_)
  exact Frame.bind (checkedSum_keepsBackup _ _ _) fun _ =>
    Frame.bind (checkedSum_keepsBackup _ _ _) fun _ => Frame.pure _

theorem resizeNtfsTarget_keepsBackup : Frame KeepsBackup (resizeNtfsTarget host plan) := by
  refine Frame.ite_throw ?_
  split
  · exact Frame.throw _
  · refine Frame.bind diskSectorSize_keepsBackup fun _ => Frame.bind diskSnapshot_keepsBackup fun _ =>
      Frame.bind (lift_keeps _) fun _ => Frame.ite_throw (Frame.ite_throw ?_)
    refine Frame.bind ntfsShrinkResumeWindow_keepsBackup fun window => ?_
    split
    · exact createTargetPartition_keepsBackup
    · exact Frame.bind shrinkNtfs_keepsBackup fun _ => createTargetPartition_keepsBackup

/-! ### A failed change of the table -/

/-- What a saved table says about a partition. -/
def tableRow (part : LsblkDevice) :=
  (part.name, part.partn, part.start, part.size, part.parttype, part.partuuid)

/-- The partition table of a disk. -/
def Drive.table (drive : Drive) := drive.partitions.map tableRow

theorem tableRow_restoredEntry (current : List LsblkDevice) (saved : LsblkDevice) :
    tableRow (restoredEntry current saved) = tableRow saved := by
  unfold restoredEntry
  cases hfind : current.find? fun part => part.name == saved.name with
  | none => rfl
  | some part =>
    have hname : part.name = saved.name := by simpa using List.find?_some hfind
    simp [tableRow, hname]

/-- A restore puts back the table that was saved. -/
theorem table_of_restore {path : String} {saved : List LsblkDevice} (hsaved : s.backup = some saved)
    (h : executeDiskHelper host plan (.restoreTable plan.disk path) s = (.ok (), s')) :
    s'.drive.table = saved.map tableRow := by
  obtain ⟨clock, clock', rfl⟩ := executeDiskHelper_eq_ok h
  simp only [Session.apply, hsaved, Drive.table, List.map_map]
  exact List.map_congr_left fun part _ => tableRow_restoredEntry _ part

/-- The two bodies of `guarded_table_mutation`. -/
inductive Mutation (host : Host) (plan : InstallerPlan) : Phase String → Prop
  | freeSpace (start stop sectorSize : ℕ) :
      Mutation host plan (createTargetPartition host plan start stop sectorSize)
  | resizeNtfs : Mutation host plan (resizeNtfsTarget host plan)

/-- The message when the restore failed too. -/
def restoreFailedMessage (host : Host) (operationError restoreError : String) : String :=
  "native installer phase Storage failed: " ++ operationError ++
    "; partition-table restore also failed: native installer phase Storage failed: " ++
    restoreError ++ "; partition-table backup preserved at " ++ host.backupDirectory

theorem Mutation.keepsBackup {body : Phase String} (h : Mutation host plan body) :
    Frame KeepsBackup body := by
  cases h with
  | freeSpace start stop sectorSize => exact createTargetPartition_keepsBackup
  | resizeNtfs => exact resizeNtfsTarget_keepsBackup

/-- What `settle` looks at is what the step returned. -/
theorem settle_eq {α : Type} {step : Phase α} {result : Except String α}
    (h : settle step s = (.ok result, s')) :
    step s = (result.mapError Stop.failed, s') := by
  unfold settle at h
  split at h <;> rename_i heq <;> cases h <;> exact heq

theorem settle_ne_failed {α : Type} {step : Phase α} {message : String} :
    settle step s ≠ (.error (.failed message), s') := by
  unfold settle
  split <;> simp

/-- A change of the table that fails leaves the table as it was, or says where it was saved. -/
theorem failed_mutation_restored {body : Phase String} {message : String}
    (hbody : Mutation host plan body)
    (h : guardedTableMutation host plan body s = (.error (.failed message), s')) :
    s'.drive.table = s.drive.table ∨
      ∃ operationError restoreError, message = restoreFailedMessage host operationError restoreError := by
  have hsame : ∀ {t t' : Session}, SameDrive t t' → t'.drive.table = t.drive.table :=
    fun hdrive => congrArg Drive.table hdrive
  rcases bind_eq_error.1 h with hcall | ⟨_, t₁, hcall, h⟩
  · exact .inl (hsame (call_id_along.of_eq hcall))
  have h₁ : SameDrive s t₁ := call_id_along.of_eq hcall
  rcases bind_eq_error.1 h with hvalidate | ⟨_, t₂, hvalidate, h⟩
  · exact .inl ((hsame (validateTargetDisk_along.of_eq hvalidate)).trans (hsame h₁))
  have h₂ : SameDrive t₁ t₂ := validateTargetDisk_along.of_eq hvalidate
  rcases bind_eq_error.1 h with hsave | ⟨_, t₃, hsave, h⟩
  · have h₃ : SameDrive t₂ s' := (executeDiskHelper_along trivial).of_eq hsave
    exact .inl ((hsame h₃).trans ((hsame h₂).trans (hsame h₁)))
  -- from here on the table is saved
  have hsaved : t₃.backup = some s.drive.partitions := by
    obtain ⟨clock, clock', rfl⟩ := executeDiskHelper_eq_ok hsave
    show some t₂.drive.partitions = some s.drive.partitions
    rw [h₂, h₁]
  rcases bind_eq_error.1 h with hsettle | ⟨result, t₄, hsettle, h⟩
  · exact (settle_ne_failed hsettle).elim
  cases result with
  | ok value => cases h
  | error operationError =>
    have hkept : t₄.backup = some s.drive.partitions :=
      ((hbody.keepsBackup).of_eq (settle_eq hsettle)).trans hsaved
    rcases bind_eq_error.1 h with hrestore | ⟨restored, t₅, hrestore, h⟩
    · exact (settle_ne_failed hrestore).elim
    cases restored with
    | ok _ =>
      cases h
      exact .inl (table_of_restore hkept (settle_eq hrestore))
    | error restoreError =>
      cases h
      exact .inr ⟨operationError, restoreError, rfl⟩

/-- A machine on battery power. -/
def batteryHost : Host := { windowsHost with acOnline := false }

/-- The guided shrink on it. -/
def batteryShrink : Except Stop String × Session :=
  guardedTableMutation batteryHost (shrinkPlan 40) (resizeNtfsTarget batteryHost (shrinkPlan 40))
    (windowsSession 0)

theorem failed_mutation_restored_battery :
    batteryShrink.2.drive.table = (windowsSession 0).drive.table ∨
      ∃ operationError restoreError, "Connect AC power before shrinking Windows. Power loss during a " ++
        "filesystem or partition resize can leave the disk unbootable." =
          restoreFailedMessage batteryHost operationError restoreError := by
  have hfailed : batteryShrink.1 = .error (.failed ("Connect AC power before shrinking Windows. " ++
      "Power loss during a filesystem or partition resize can leave the disk unbootable.")) := by
    decide
  exact failed_mutation_restored .resizeNtfs (Prod.ext hfailed rfl)

/-! ### The order of the commands -/

/-- The command that saves the table before it is changed. -/
def saveCommand (host : Host) (plan : InstallerPlan) : DiskOperationInput :=
  .backupTable plan.disk (host.backupDirectory ++ "/partition-table.backup")

/-- The commands of an attempt that changes the table, the latest first: nothing comes before the table
was saved, and nothing but restores behind a restore. -/
structure Ordered (host : Host) (plan : InstallerPlan) (ran : List DiskOperationInput) : Prop where
  saved : ∀ operation, ran.getLast? = some operation → operation = saveCommand host plan
  restored : ∀ later operation earlier, ran = later ++ operation :: earlier → Restores operation →
    ∀ behind ∈ later, Restores behind

/-- The commands between the save and a restore. -/
def Saved (host : Host) (plan : InstallerPlan) (ran : List DiskOperationInput) : Prop :=
  ∃ new, ran = new ++ [saveCommand host plan] ∧ ∀ operation ∈ new, ¬ Restores operation

theorem Ordered.nil : Ordered host plan [] := ⟨by simp, by simp⟩

theorem Ordered.of_restores {restores ran : List DiskOperationInput} (h : Saved host plan ran)
    (hrestores : ∀ operation ∈ restores, Restores operation) : Ordered host plan (restores ++ ran) := by
  obtain ⟨new, rfl, hnew⟩ := h
  refine ⟨fun operation hlast => ?_, fun later operation earlier hran hrestores' behind hbehind => ?_⟩
  · simpa using hlast.symm
  · -- what restores is not behind the restores of the list
    have hnone : ∀ op ∈ new ++ [saveCommand host plan], ¬ Restores op := by
      intro op hop
      rcases List.mem_append.1 hop with hop | hop
      · exact hnew op hop
      · rw [List.mem_singleton.1 hop]
        exact id
    rcases List.append_eq_append_iff.1 hran with ⟨middle, rfl, hrest⟩ | ⟨middle, rfl, hrest⟩
    · exact (hnone operation (by rw [hrest]; simp) hrestores').elim
    · exact hrestores behind (List.mem_append_left _ hbehind)

theorem Saved.ordered {ran : List DiskOperationInput} (h : Saved host plan ran) :
    Ordered host plan ran := Ordered.of_restores h (List.forall_mem_nil Restores)

theorem Saved.along (h : Saved host plan s.ran) (hs : Along (fun operation => ¬ Restores operation) s s') :
    Saved host plan s'.ran := by
  obtain ⟨new, hran, hnew⟩ := h
  obtain ⟨more, hmore, hall⟩ := hs.ran
  refine ⟨more ++ new, by rw [hmore, hran, List.append_assoc], fun operation hop => ?_⟩
  rcases List.mem_append.1 hop with hop | hop
  · exact hall operation hop
  · exact hnew operation hop

/-- Steps that run no command. -/
theorem ran_of_along (h : Along (fun _ => False) s s') : s'.ran = s.ran := by
  obtain ⟨⟨new, hran, hnew⟩, -⟩ := h
  rw [hran, List.eq_nil_iff_forall_not_mem.2 hnew, List.nil_append]

/-- Steps that run no command leave the list as it is, also where they fail. -/
theorem quiet_ran {α : Type} {x : Phase α} {t t' : Session} {r : Except Stop α}
    (hx : Frame (Along fun _ => False) x) (h : x t = (r, t')) : t'.ran = t.ran :=
  ran_of_along (hx.of_eq h)

/-- The save of the table, with no command before it. -/
theorem saved_of_save (hran : s.ran = [])
    (h : executeDiskHelper host plan (saveCommand host plan) s = (.ok (), s')) :
    Saved host plan s'.ran := by
  obtain ⟨clock, clock', rfl⟩ := executeDiskHelper_eq_ok h
  exact ⟨[], by simp [saveCommand, Session.apply, hran], by simp⟩

theorem ordered_of_save {e : Stop} (hran : s.ran = [])
    (h : executeDiskHelper host plan (saveCommand host plan) s = (.error e, s')) :
    Ordered host plan s'.ran := by
  have hone : Along (fun operation => operation = saveCommand host plan) s s' :=
    (executeDiskHelper_along (P := fun operation => operation = saveCommand host plan) rfl).of_eq h
  obtain ⟨⟨new, hnew, hall⟩, -⟩ := hone
  rw [hnew, hran, List.append_nil]
  refine ⟨fun operation hlast => hall operation (List.mem_of_getLast? hlast), ?_⟩
  rintro later operation earlier rfl hrestores
  rw [hall operation (by simp)] at hrestores
  exact hrestores.elim

/-- A step that keeps the order, and has saved the table when it succeeds. -/
structure Guards {α : Type} (host : Host) (plan : InstallerPlan) (step : Phase α) (s : Session) :
    Prop where
  ordered : Ordered host plan (step s).2.ran
  saved : ∀ a s', step s = (.ok a, s') → Saved host plan s'.ran

section Guards

variable {α β : Type} {x : Phase α} {f : α → Phase β}

theorem Guards.throw (hran : s.ran = []) (e : Stop) :
    Guards host plan (MonadExcept.throw e : Phase α) s :=
  ⟨hran ▸ .nil, fun _ _ h => nomatch h⟩

/-- Steps without commands may come before. -/
theorem Guards.after (hran : s.ran = []) (hx : Frame (Along fun _ => False) x)
    (hf : ∀ a t, x s = (.ok a, t) → t.ran = [] → Guards host plan (f a) t) :
    Guards host plan (x >>= f) s := by
  refine ⟨bind_leaves (Q := fun t : Session => Ordered host plan t.ran) (fun e t h => ?_)
    fun a t h => ?_, fun b t' h => ?_⟩
  · rw [quiet_ran hx h, hran]
    exact .nil
  · exact (hf a t h ((quiet_ran hx h).trans hran)).ordered
  · obtain ⟨a, t, hxa, hfa⟩ := bind_eq_ok.1 h
    exact (hf a t hxa ((quiet_ran hx hxa).trans hran)).saved b t' hfa

/-- Steps that restore nothing may come behind. -/
theorem Guards.before (hx : Guards host plan x s)
    (hf : ∀ a, Frame (Along fun operation => ¬ Restores operation) (f a)) :
    Guards host plan (x >>= f) s := by
  refine ⟨bind_leaves (Q := fun t : Session => Ordered host plan t.ran) (fun e t h => ?_)
    fun a t h => ?_, fun b t' h => ?_⟩
  · have hordered := hx.ordered
    rwa [h] at hordered
  · exact ((hx.saved a t h).along (hf a t)).ordered
  · obtain ⟨a, t, hxa, hfa⟩ := bind_eq_ok.1 h
    exact (hx.saved a t hxa).along ((hf a).of_eq hfa)

/-- The save of the table. -/
theorem Guards.save {f : Unit → Phase β} (hran : s.ran = [])
    (hf : ∀ t, Saved host plan t.ran → Guards host plan (f ()) t) :
    Guards host plan (executeDiskHelper host plan (saveCommand host plan) >>= f) s := by
  refine ⟨bind_leaves (Q := fun t : Session => Ordered host plan t.ran)
    (fun e t h => ordered_of_save hran h) fun a t h => ?_, fun b t' h => ?_⟩
  · exact (hf t (saved_of_save hran h)).ordered
  · obtain ⟨a, t, hsave, hfa⟩ := bind_eq_ok.1 h
    exact (hf t (saved_of_save hran hsave)).saved b t' hfa

end Guards

/-- `guarded_table_mutation` behind the save of the table. -/
def finishMutation (host : Host) (plan : InstallerPlan) (body : Phase String) : Phase String := do
  match ← settle body with
  | .ok value => return value
  | .error operationError =>
      match ← settle (executeDiskHelper host plan (.restoreTable plan.disk
        (host.backupDirectory ++ "/partition-table.backup"))) with
      | .ok _ => throw (.failed operationError)
      | .error restoreError =>
          throw (.failed (restoreFailedMessage host operationError restoreError))

theorem guardedTableMutation_eq (host : Host) (plan : InstallerPlan) (body : Phase String) :
    guardedTableMutation host plan body = (do
      call host id
      validateTargetDisk host
      executeDiskHelper host plan (saveCommand host plan)
      finishMutation host plan body) := by
  unfold guardedTableMutation finishMutation restoreFailedMessage saveCommand
  dsimp only
  refine congrArg _ (funext fun _ => congrArg _ (funext fun _ => congrArg _ (funext fun _ =>
    congrArg _ (funext fun result => ?_))))
  cases result with
  | ok value => rfl
  | error operationError =>
    dsimp only <;>
      exact congrArg _ (funext fun restored => by cases restored <;> rfl)

theorem finishMutation_guards {body : Phase String} (hsaved : Saved host plan s.ran)
    (hbody : Frame (Along fun operation => ¬ Restores operation) body) :
    Guards host plan (finishMutation host plan body) s := by
  have hrestore : ∀ {t : Session}, Saved host plan t.ran → Ordered host plan
      (settle (executeDiskHelper host plan (.restoreTable plan.disk
        (host.backupDirectory ++ "/partition-table.backup"))) t).2.ran := by
    intro t ht
    have hframe : Frame (Along Restores) (settle (executeDiskHelper host plan
        (.restoreTable plan.disk (host.backupDirectory ++ "/partition-table.backup")))) :=
      settle_along (executeDiskHelper_along trivial)
    obtain ⟨⟨restores, hnew, hall⟩, -⟩ := hframe t
    rw [hnew]
    exact .of_restores ht hall
  refine ⟨bind_leaves (Q := fun t : Session => Ordered host plan t.ran) (fun e t h => ?_)
    fun result t h => ?_, fun value t' h => ?_⟩
  · exact (hsaved.along ((settle_along hbody).of_eq h)).ordered
  · have ht := hsaved.along ((settle_along hbody).of_eq h)
    cases result with
    | ok value => exact ht.ordered
    | error message =>
      refine bind_leaves (Q := fun t : Session => Ordered host plan t.ran) (fun e t' h => ?_)
        fun restored t' h => ?_
      · have hordered := hrestore ht
        rwa [h] at hordered
      · have hordered := hrestore ht
        rw [h] at hordered
        cases restored <;> exact hordered
  · obtain ⟨result, t, hsettle, h⟩ := bind_eq_ok.1 h
    cases result with
    | ok value =>
      cases h
      exact hsaved.along ((settle_along hbody).of_eq hsettle)
    | error message =>
      obtain ⟨restored, t'', -, h⟩ := bind_eq_ok.1 h
      cases restored <;> cases h

/-- A guarded change of the table, when no command ran before it. -/
theorem recordedMutation_guards {body : Phase String} (hran : s.ran = [])
    (hbody : Frame (Along fun operation => ¬ Restores operation) body) :
    Guards host plan (recordedMutation host plan body) s := by
  refine .after hran (recordStarted_along _) fun _ t _ ht => .before ?_ fun _ =>
    Frame.bind (recordJournal_along fun _ => trivial) fun _ => Frame.pure _
  rw [guardedTableMutation_eq]
  exact .after ht call_id_along fun _ t₁ _ ht₁ => .after ht₁ validateTargetDisk_along fun _ t₂ _ ht₂ =>
    .save ht₂ fun t₃ ht₃ => finishMutation_guards ht₃ hbody

theorem createTargetPartition_noRestore {start stop sectorSize : ℕ} :
    Frame (Along fun operation => ¬ Restores operation)
      (createTargetPartition host plan start stop sectorSize) :=
  createTargetPartition_along (fun _ _ _ => id) (fun _ _ _ => id) fun _ _ => id

theorem resizeNtfsTarget_noRestore :
    Frame (Along fun operation => ¬ Restores operation) (resizeNtfsTarget host plan) := by
  refine fun s => resizeNtfsTarget_from fun partition probe window t _ _ _ _ => ?_
  cases window with
  | some ends => exact createTargetPartition_noRestore t
  | none =>
    have hshrink : Frame (Along fun operation => ¬ Restores operation)
        (shrinkNtfs host plan partition probe host.sectorSize) :=
      shrinkNtfs_along (fun _ _ h => h) (fun _ _ => id) (fun _ _ _ _ => id) trivial
    exact Frame.bind hshrink (fun _ => createTargetPartition_noRestore) t

/-- The target of an attempt that changes the table. -/
theorem selectTarget_guards (hcreates : plan.mode = .freeSpace ∨ plan.mode = .resizeNtfs)
    (hran : s.ran = []) : Guards host plan (selectTarget host plan) s := by
  unfold selectTarget
  rcases hcreates with hmode | hmode <;> simp only [hmode] <;> refine .before ?_ fun _ => Frame.pure _
  · unfold createInFreeSpace
    cases plan.freeRegionStart with
    | none => exact .throw hran _
    | some start =>
      cases plan.freeRegionEnd with
      | none => exact .throw hran _
      | some stop =>
        refine .after hran diskSnapshot_along fun _ t₁ _ ht₁ => .after ht₁ diskSectorSize_along
          fun _ t₂ _ ht₂ => .after ht₂ (lift_along _) fun free t₃ _ ht₃ => ?_
        cases free with
        | false => exact .throw ht₃ _
        | true => exact recordedMutation_guards ht₃ createTargetPartition_noRestore
  · exact recordedMutation_guards hran resizeNtfsTarget_noRestore

/-- In an attempt that changes the table, the table is saved before any other command runs, and nothing
runs behind a restore. -/
theorem executeStorage_ordered (hcreates : plan.mode = .freeSpace ∨ plan.mode = .resizeNtfs)
    (hran : s.ran = []) : Ordered host plan (executeStorage host plan s).2.ran := by
  refine Guards.ordered (.after hran prologue_along fun _ t _ ht =>
    .before (selectTarget_guards hcreates ht) fun target => ?_)
  cases target with
  | none => exact Frame.pure _
  | some target =>
    exact Frame.bind (prepareBtrfsTarget_along (Q := fun _ => True) (fun _ _ h => h) (fun _ => trivial)
      (fun _ _ => id) trivial) fun _ => Frame.modify fun _ => Follows.idle rfl rfl rfl

theorem executeStorage_ordered_windows :
    Ordered windowsHost (shrinkPlan 40)
      (executeStorage windowsHost (shrinkPlan 40) (windowsSession 0)).2.ran :=
  executeStorage_ordered (.inr rfl) rfl

end Kyth.Executor

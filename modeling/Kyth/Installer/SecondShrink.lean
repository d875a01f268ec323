import Kyth.Installer.ResumeWindow

/-!
# Shrinking a second time

An attempt consults the journal that `open_durable_journal` opened: the one on the EFI system partition
when that is mounted, otherwise the one in the staging directory. `ensure_esp_journal` moves to the EFI
system partition later, after the record of the shrink was looked for.

* `resumes_of_guarded`: an attempt that opens a journal with the record does not shrink;
* `never_shrinks_again`: the same over every history of attempts, crashes, reboots and mounts, for an
  attempt that finds the EFI system partition mounted.
-/

namespace Kyth.Executor

open Str Word Storage Disk Durable
open Kyth.Action (Frame bind_eq_ok guard_eq_ok)
open Kyth.Plan (InstallerPlan InstallMode InstallerPlanInput)

variable {host : Host} {plan : InstallerPlan} {s s' : Session} {P : DiskOperationInput → Prop}
  {α : Type}

/-! ### The journal that an attempt opens -/

/-- The directory of the journal that `open_durable_journal` opens. Its two probes are the fifth and the
sixth call of an attempt. -/
def journalDirectory (host : Host) (plan : InstallerPlan) (drive : Drive) : String :=
  let efi := if host.probe 4 = none ∧ host.probe 5 = none then
      (efiPartitionFromSnapshot (drive.snapshot plan.disk) plan.disk host.sectorSize).toOption.join
    else none
  (efi.bind EfiPartition.mountedAt).getD (stagingDirectory plan.mode)

/-- The open journal says that the shrink was completed. -/
def Seen (s : Session) : Prop :=
  ∃ journal, s.durableJournal = some journal ∧ CompletedIn (s.fileAt journal) "ntfs_shrink"

/-- What `resize_ntfs_target` asks of the partition before it looks for a window. -/
structure Shrinkable (host : Host) (plan : InstallerPlan) (drive : Drive) (partition : String)
    (probe : PartitionProbe) : Prop where
  requested : plan.resizePartition = some partition
  probed : partitionProbeFromSnapshot (drive.snapshot plan.disk) plan.disk partition host.sectorSize =
    .ok probe
  ntfs : ¬ (probe.fstype ≠ "ntfs" ∧ probe.fstype ≠ "ntfs3")
  idle : ¬ (probe.efi || probe.current || probe.inUse || probe.readOnly) = true

/-- What it checks before it shrinks, on the disk as it is. -/
def WouldShrink (host : Host) (plan : InstallerPlan) (drive : Drive) : Prop :=
  host.acOnline = true ∧ ∃ partition probe, Shrinkable host plan drive partition probe ∧
    ShrinkAllowed plan probe host.sectorSize

/-- An attempt that would shrink opens a journal with the record. -/
def Guarded (host : Host) (plan : InstallerPlan) (s : Session) : Prop :=
  plan.mode = .resizeNtfs → WouldShrink host plan s.drive →
    CompletedIn (s.fileAt ⟨journalDirectory host plan s.drive⟩) "ntfs_shrink"

theorem ask_result (s : Session) :
    ask host s = (match host.probe s.clock with
      | none => .ok ()
      | some message => .error (.failed message), { s with clock := s.clock + 1 }) := by
  unfold ask
  cases host.probe s.clock <;> rfl

/-- What `settle` makes of the probe of the EFI system partition. -/
theorem settle_espProbe {result : Except String (Option EfiPartition)}
    (hsector : supportedSectorSize host.sectorSize = true)
    (h : settle (espProbe host plan) s = (.ok result, s')) :
    result.toOption.join = if host.probe s.clock = none ∧ host.probe (s.clock + 1) = none then
      (efiPartitionFromSnapshot (s.drive.snapshot plan.disk) plan.disk host.sectorSize).toOption.join
    else none := by
  unfold settle espProbe diskSectorSize diskSnapshot at h
  simp only [Action.bind_apply, ask_result] at h
  cases hfirst : host.probe s.clock with
  | some message =>
    simp only [hfirst] at h
    cases h
    exact (if_neg fun hnone => nomatch hnone.1).symm
  | none =>
    simp only [hfirst, hsector, not_true_eq_false, if_false, Action.pure_apply] at h
    cases hsecond : host.probe (s.clock + 1) with
    | some message =>
      simp only [hsecond] at h
      cases h
      exact (if_neg fun hnone => nomatch hnone.2).symm
    | none =>
      simp only [hsecond, Action.get_apply] at h
      cases hefi : efiPartitionFromSnapshot (s.drive.snapshot plan.disk) plan.disk host.sectorSize with
      | ok efi =>
        simp only [hefi, lift, Action.pure_apply] at h
        cases h
        simp
      | error message =>
        simp only [hefi, lift, Action.throw_apply] at h
        cases h
        simp

/-- The journal that is open when the checks of an attempt are over. -/
theorem durableJournal_of_prologue (hmode : plan.mode ≠ .wipe) (hclock : s.clock = 0)
    (h : prologue host plan s = (.ok (), s')) :
    s'.durableJournal = some ⟨journalDirectory host plan s.drive⟩ := by
  unfold prologue at h
  rw [if_pos hmode] at h
  obtain ⟨⟨⟩, s₁, hvalidate, h⟩ := bind_eq_ok.1 h
  obtain ⟨⟨⟩, s₂, hpreflight, h⟩ := bind_eq_ok.1 h
  -- four calls come before the journal is opened
  obtain ⟨⟨⟩, t₁, hask, hlift⟩ := bind_eq_ok.1 hvalidate
  obtain rfl := ask_eq_ok hask
  obtain ⟨-, rfl⟩ := lift_eq_ok.1 hlift
  obtain ⟨⟨⟩, t₂, hask, hpreflight⟩ := bind_eq_ok.1 hpreflight
  obtain rfl := ask_eq_ok hask
  obtain ⟨⟨⟩, t₃, hlift, hpreflight⟩ := bind_eq_ok.1 hpreflight
  obtain ⟨-, rfl⟩ := lift_eq_ok.1 hlift
  obtain ⟨sectorSize, t₄, hsector, hpreflight⟩ := bind_eq_ok.1 hpreflight
  obtain ⟨hsupported, rfl⟩ := diskSectorSize_eq_ok hsector
  obtain rfl := diskSectorSize_value hsector
  obtain ⟨snapshot, t₅, hsnapshot, hpreflight⟩ := bind_eq_ok.1 hpreflight
  obtain ⟨-, rfl⟩ := diskSnapshot_eq_ok hsnapshot
  obtain ⟨preflight, t₆, hlift, hpreflight⟩ := bind_eq_ok.1 hpreflight
  obtain ⟨-, rfl⟩ := lift_eq_ok.1 hlift
  obtain ⟨-, rfl⟩ := lift_eq_ok.1 hpreflight
  obtain ⟨efi, s₃, hefi, h⟩ := bind_eq_ok.1 h
  obtain ⟨⟨⟩, s₄, -, h⟩ := bind_eq_ok.1 h
  cases h
  have hjoin := settle_espProbe hsupported hefi
  simp only [hclock, zero_add, Nat.reduceAdd] at hjoin
  simp only [journalDirectory, ← hjoin]

/-- An attempt whose journal has the record sees it. -/
theorem seen_of_prologue (hmode : plan.mode ≠ .wipe) (hclock : s.clock = 0)
    (hcompleted : CompletedIn (s.fileAt ⟨journalDirectory host plan s.drive⟩) "ntfs_shrink")
    (h : prologue host plan s = (.ok (), s')) : Seen s' := by
  refine ⟨_, durableJournal_of_prologue hmode hclock h, ?_⟩
  have hdrive : s'.drive = s.drive := (prologue_along : Frame SameDrive _).of_eq h
  have hkept := ((prologue_along : Frame (Along fun _ => True) _).of_eq h).completed
  unfold Session.fileAt at hcompleted ⊢
  rw [hdrive]
  exact hkept _ _ hcompleted

/-! ### The journal stays open -/

/-- Steps that leave a part of the session as it is. -/
def Keeps {β : Type} (part : Session → β) (s s' : Session) : Prop := part s' = part s

section Keeps

variable {β : Type} {part : Session → β}

instance : Std.Refl (Keeps part) := ⟨fun _ => rfl⟩

instance : IsTrans Session (Keeps part) := ⟨fun _ _ _ h h' => Eq.trans h' h⟩

theorem lift_keeps (x : Except String α) : Frame (Keeps part) (lift x) := by
  cases x with
  | ok value => exact Frame.pure value
  | error message => exact Frame.throw _

theorem openedJournal_keeps : Frame (Keeps part) openedJournal := by
  refine Frame.bind Frame.get fun s => ?_
  split
  · exact Frame.pure _
  · exact Frame.throw _

-- a part that neither the number of calls nor the journals belong to
variable (hclock : ∀ s clock, part { s with clock := clock } = part s)

include hclock

theorem call_keeps {effect : Session → Session} (h : ∀ s, part (effect s) = part s) :
    Frame (Keeps part) (call host effect) :=
  fun s => call_from (R := Keeps part) (hclock s _) ((h _).trans (hclock s _))

theorem ask_keeps : Frame (Keeps part) (ask host) := by
  intro s
  rw [ask_result]
  exact hclock s _

theorem loadJournal_keeps (journal : DurableJournal) :
    Frame (Keeps part) (loadJournal host journal) :=
  Frame.bind (ask_keeps hclock) fun _ => Frame.bind Frame.get fun _ => lift_keeps _

variable (hfiles : ∀ s files, part { s with files := files } = part s)

include hfiles

theorem writeState_keeps (journal : DurableJournal) (state : JournalState) :
    Frame (Keeps part) (writeState host journal state) := by
  rw [writeState_eq]
  exact call_keeps hclock fun _ => hfiles _ _

theorem recordJournal_keeps (op : String) (state : OpState) :
    Frame (Keeps part) (recordJournal host op state) := by
  refine Frame.bind openedJournal_keeps fun journal => ?_
  exact Frame.bind (lift_keeps _) fun _ => Frame.bind Frame.get fun _ =>
    Frame.bind (loadJournal_keeps hclock journal) fun _ => writeState_keeps hclock hfiles journal _

end Keeps

theorem Seen.keep (hs : Seen s) (hdrive : s'.drive = s.drive) (hjournal : Keeps Session.durableJournal s s')
    (hkept : Along P s s') : Seen s' := by
  obtain ⟨journal, hopen, hcompleted⟩ := hs
  refine ⟨journal, hjournal.trans hopen, ?_⟩
  unfold Session.fileAt at hcompleted ⊢
  rw [hdrive]
  exact hkept.completed _ _ hcompleted

/-- A window is looked for when the record is seen. -/
theorem not_seen_of_no_window {snapshot : LsblkSnapshot} {probe : PartitionProbe} {sectorSize : ℕ}
    (h : ntfsShrinkResumeWindow host plan snapshot probe sectorSize s = (.ok none, s')) : ¬ Seen s := by
  rintro ⟨journal, hopen, hrecorded⟩
  unfold ntfsShrinkResumeWindow at h
  obtain ⟨completed, s₁, hcompleted, h⟩ := bind_eq_ok.1 h
  unfold journalCompleted at hcompleted
  obtain ⟨t, s₂, hget, hcompleted⟩ := bind_eq_ok.1 hcompleted
  cases hget
  simp only [hopen] at hcompleted
  obtain ⟨state, s₃, hload, hcompleted⟩ := bind_eq_ok.1 hcompleted
  obtain ⟨hstate, -⟩ := loadJournal_eq_ok hload
  cases hcompleted
  rw [(completedIn_iff hstate).1 hrecorded] at h
  -- then the checks of the window decide, and none of them returns without a window
  simp only [Bool.not_true, Bool.false_eq_true, if_false] at h
  obtain ⟨-, h⟩ := guard_eq_ok.1 h
  obtain ⟨-, h⟩ := guard_eq_ok.1 h
  obtain ⟨-, h⟩ := guard_eq_ok.1 h
  obtain ⟨newEnd, s₄, -, h⟩ := bind_eq_ok.1 h
  obtain ⟨oldEnd, s₅, -, h⟩ := bind_eq_ok.1 h
  obtain ⟨-, h⟩ := guard_eq_ok.1 h
  obtain ⟨-, h⟩ := guard_eq_ok.1 h
  obtain ⟨free, s₆, -, h⟩ := bind_eq_ok.1 h
  obtain ⟨-, h⟩ := guard_eq_ok.1 h
  cases h

/-! ### One attempt -/

/-- A command that creates a partition between two ends, or marks the boot partition. -/
def CreatesIn (ends : ℕ × ℕ) : DiskOperationInput → Prop
  | .createPartition _ start size _ _ _ | .createUnformattedPartition _ start size _ _ =>
      ends.1 ≤ start.toNat ∧ start.toNat + size.toNat ≤ ends.2
  | .setPartitionFlag _ _ flag _ _ => flag = "bios_grub"
  | _ => False

/-- A command of an attempt that resumes in its window, or has refused. -/
def Allowed (host : Host) (plan : InstallerPlan) (s : Session) (operation : DiskOperationInput) : Prop :=
  Harmless operation ∨ ∃ partition probe sectorSize ends t,
    reachWindow host plan s = (.ok (partition, probe, sectorSize, some ends), t) ∧
      CreatesIn ends operation

/-- `create_target_partition` stays in its window. -/
theorem createTargetPartition_allowed {partition : String} {probe : PartitionProbe} {sectorSize : ℕ}
    {ends : ℕ × ℕ} {t : Session} (hends : ends.2 < 2 ^ 64)
    (hreach : reachWindow host plan s = (.ok (partition, probe, sectorSize, some ends), t)) :
    Frame (Along (Allowed host plan s))
      (createTargetPartition host plan ends.1 ends.2 sectorSize) := by
  have hextent : ∀ first size : ℕ, (ends.2 < 2 ^ 64 → ends.1 ≤ first ∧ first + size ≤ ends.2) →
      ends.1 ≤ (UInt64.ofNat first).toNat ∧
        (UInt64.ofNat first).toNat + (UInt64.ofNat size).toNat ≤ ends.2 := by
    intro first size h
    obtain ⟨hfirst, hlast⟩ := h hends
    have hsize : UInt64.size = 2 ^ 64 := rfl
    rw [UInt64.toNat_ofNat_of_lt' (by omega), UInt64.toNat_ofNat_of_lt' (by omega)]
    exact ⟨hfirst, hlast⟩
  refine createTargetPartition_along (fun first size h => ?_) (fun first size h => ?_) fun _ _ => ?_
  · exact .inr ⟨_, _, _, _, _, hreach, hextent first size h⟩
  · exact .inr ⟨_, _, _, _, _, hreach, hextent first size h⟩
  · exact .inr ⟨_, _, _, _, _, hreach, rfl⟩

/-- `resize_ntfs_target` looks for a window and uses what it finds. -/
theorem resizeNtfsTarget_from {R : Session → Session → Prop} {W : String → Prop} [Follows R P W]
    (huse : ∀ partition probe window t, host.acOnline = true →
      Shrinkable host plan s.drive partition probe →
      probeWindow host plan s = (.ok (partition, probe, host.sectorSize, window), t) →
      ntfsShrinkResumeWindow host plan (s.drive.snapshot plan.disk) probe host.sectorSize
        { s with clock := s.clock + 1 + 1 } = (.ok window, t) →
      R t (useWindow host plan partition probe host.sectorSize window t).2) :
    R s (resizeNtfsTarget host plan s).2 := by
  unfold resizeNtfsTarget
  by_cases hac : (!host.acOnline) = true
  · rw [if_pos hac]
    exact refl_of R s
  rw [if_neg hac]
  cases hpartition : plan.resizePartition with
  | none => exact refl_of R s
  | some partition =>
    refine Frame.bind_at diskSectorSize_along fun sectorSize t₁ hsector => ?_
    refine Frame.bind_at diskSnapshot_along fun snapshot t₂ hsnapshot => ?_
    refine Frame.bind_at (lift_along _) fun probe t₃ hlift => ?_
    by_cases hntfs : probe.fstype ≠ "ntfs" ∧ probe.fstype ≠ "ntfs3"
    · rw [if_pos hntfs]
      exact refl_of R t₃
    rw [if_neg hntfs]
    by_cases hidle : (probe.efi || probe.current || probe.inUse || probe.readOnly) = true
    · rw [if_pos hidle]
      exact refl_of R t₃
    rw [if_neg hidle]
    refine Frame.bind_at ntfsShrinkResumeWindow_along fun window t₄ hwindow => ?_
    have hprobed : probeWindow host plan s = (.ok (partition, probe, sectorSize, window), t₄) := by
      unfold probeWindow
      simp only [if_neg hac, hpartition, Action.bind_apply, hsector, hsnapshot, hlift, if_neg hntfs,
        if_neg hidle, hwindow]
      rfl
    obtain ⟨-, rfl⟩ := diskSectorSize_eq_ok hsector
    obtain rfl := diskSectorSize_value hsector
    obtain ⟨rfl, rfl⟩ := diskSnapshot_eq_ok hsnapshot
    obtain ⟨hprobe, rfl⟩ := lift_eq_ok.1 hlift
    have huse' := huse partition probe window t₄ (by simpa using hac) ⟨hpartition, hprobe, hntfs, hidle⟩
      hprobed hwindow
    cases window with
    | none => exact huse'
    | some ends => exact huse'

/-- The body of a guided install that sees the record where it would shrink. -/
theorem resizeNtfsTarget_allowed {t : Session} (hbefore : beforeResize host plan s = (.ok (), t))
    (hseen : WouldShrink host plan t.drive → Seen t) :
    Along (Allowed host plan s) t (resizeNtfsTarget host plan t).2 := by
  refine resizeNtfsTarget_from fun partition probe window t₄ hac hshrinkable hprobed hwindow => ?_
  cases window with
  | some ends =>
    have hreach : reachWindow host plan s = (.ok (partition, probe, host.sectorSize, some ends), t₄) :=
      bind_eq_ok.2 ⟨(), t, hbefore, hprobed⟩
    exact createTargetPartition_allowed (ntfsShrinkResumeWindow_eq_some hwindow).2.1 hreach t₄
  | none =>
    have hnot : ¬ ShrinkAllowed plan probe host.sectorSize := fun hallowed =>
      not_seen_of_no_window hwindow (hseen ⟨hac, partition, probe, hshrinkable, hallowed⟩)
    -- so the checks of the shrink fail, and nothing comes behind it
    exact Frame.bind_of (P := fun _ => False)
      (shrinkNtfs_along (fun _ h _ => .inl h) (fun hallowed => absurd hallowed hnot)
        (fun hallowed => absurd hallowed hnot) trivial)
      (fun h => hnot (shrinkNtfs_eq_ok h).1) (fun _ h => h.elim) t₄

/-- What is seen when the checks of the phase are over is seen when the shrink is about to begin. -/
theorem seen_beforeResize {t : Session} (hprologue : prologue host plan s = (.ok (), s'))
    (hbefore : beforeResize host plan s = (.ok (), t)) (hs : Seen s') : Seen t := by
  have hdrive : t.drive = s'.drive :=
    (beforeResize_steady.of_eq hbefore).drive.trans
      ((prologue_along : Frame SameDrive _).of_eq hprologue).symm
  obtain ⟨⟨⟩, t₀, hprologue', h⟩ := bind_eq_ok.1 hbefore
  obtain ⟨-, rfl⟩ := Prod.mk.inj (hprologue.symm.trans hprologue')
  obtain ⟨⟨⟩, t₁, hrecord, h⟩ := bind_eq_ok.1 h
  obtain ⟨⟨⟩, t₂, hcall, h⟩ := bind_eq_ok.1 h
  obtain ⟨⟨⟩, t₃, hvalidate, hbackup⟩ := bind_eq_ok.1 h
  have hkept : Along (fun _ => True) s' t := by
    have h₁ : Along (fun _ => True) s' t₁ := (recordStarted_along _).of_eq hrecord
    have h₂ : Along (fun _ => True) t₁ t₂ := call_id_along.of_eq hcall
    have h₃ : Along (fun _ => True) t₂ t₃ := validateTargetDisk_along.of_eq hvalidate
    have h₄ : Along (fun _ => True) t₃ t := (executeDiskHelper_along trivial).of_eq hbackup
    exact Trans.trans (Trans.trans (Trans.trans h₁ h₂) h₃) h₄
  have hjournal : t₃.durableJournal = s'.durableJournal := by
    have h₁ : Keeps Session.durableJournal s' t₁ :=
      (recordJournal_keeps (fun _ _ => rfl) (fun _ _ => rfl) _ _).of_eq hrecord
    have h₂ : Keeps Session.durableJournal t₁ t₂ :=
      (call_keeps (fun _ _ => rfl) fun _ => rfl).of_eq hcall
    have h₃ : Keeps Session.durableJournal t₂ t₃ :=
      (Frame.bind (ask_keeps fun _ _ => rfl) fun _ => lift_keeps _).of_eq hvalidate
    exact h₃.trans (h₂.trans h₁)
  obtain ⟨clock, clock', ht⟩ := executeDiskHelper_eq_ok hbackup
  refine hs.keep hdrive ?_ hkept
  rw [Keeps, ht]
  exact hjournal

/-- What comes before a guarded change of the table. -/
def beforeMutation (host : Host) (plan : InstallerPlan) : Phase Unit := do
  recordJournal host "partition_table" .started
  call host id
  validateTargetDisk host
  executeDiskHelper host plan
    (.backupTable plan.disk (host.backupDirectory ++ "/partition-table.backup"))

/-- A guarded change of the table only has to be right where it begins. -/
theorem recordedMutation_from {R : Session → Session → Prop} {W : String → Prop} [Follows R P W]
    (hbackup : ∀ path, P (.backupTable plan.disk path))
    (hrestore : ∀ path, P (.restoreTable plan.disk path)) (hW : W (trim "partition_table"))
    {body : Phase String}
    (hbody : ∀ t, beforeMutation host plan s = (.ok (), t) → R t (body t).2) :
    R s (recordedMutation host plan body s).2 := by
  refine Frame.bind_at (recordStarted_along _) fun _ t₁ hrecord => ?_
  refine Frame.bind_from ?_ fun target t' _ =>
    (Frame.bind (recordJournal_along fun _ => hW) fun _ => Frame.pure _) t'
  refine Frame.bind_at call_id_along fun _ t₂ hcall => ?_
  refine Frame.bind_at validateTargetDisk_along fun _ t₃ hvalidate => ?_
  refine Frame.bind_at (executeDiskHelper_along (hbackup _)) fun _ t₄ hsaved => ?_
  have hbefore : beforeMutation host plan s = (.ok (), t₄) :=
    bind_eq_ok.2 ⟨(), t₁, hrecord, bind_eq_ok.2 ⟨(), t₂, hcall, bind_eq_ok.2 ⟨(), t₃, hvalidate,
      hsaved⟩⟩⟩
  refine Frame.bind_from ?_ fun result t₅ _ => ?_
  · rw [settle_snd]
    exact hbody t₄ hbefore
  · cases result with
    | ok value => exact refl_of R t₅
    | error message =>
      refine Frame.bind (settle_along (executeDiskHelper_along (hrestore _))) (fun restored => ?_) t₅
      cases restored <;> exact Frame.throw _

/-- Without a target in the plan nothing is formatted. -/
theorem prepareBtrfsTarget_unnamed {R : Session → Session → Prop} {W : String → Prop} [Follows R P W]
    {target : String} (htarget : plan.targetPartition = none)
    (hP : ∀ operation, Harmless operation → ¬ Restores operation → P operation)
    (hW : W (trim "format")) : Frame R (prepareBtrfsTarget host plan target) := by
  refine prepareBtrfsTarget_along (Q := fun _ => False) hP ?_ (fun _ h => h.elim) hW
  intro t device t' hprobe
  unfold probeTarget at hprobe
  simp only [htarget] at hprobe
  cases hprobe

/-- A guided install that sees the record where it would shrink runs no other commands. -/
theorem executeStorage_allowed (hmode : plan.mode = .resizeNtfs) (htarget : plan.targetPartition = none)
    (hclock : s.clock = 0) (hguarded : Guarded host plan s) :
    Along (Allowed host plan s) s (executeStorage host plan s).2 := by
  have hwipe : plan.mode ≠ .wipe := by rw [hmode]; simp
  unfold executeStorage
  refine Frame.bind_at prologue_along fun _ s₁ hprologue => ?_
  have hseen₁ : WouldShrink host plan s.drive → Seen s₁ := fun hwould =>
    seen_of_prologue hwipe hclock (hguarded hmode hwould) hprologue
  refine Frame.bind_from ?_ fun target s₂ _ => ?_
  · unfold selectTarget
    simp only [hmode]
    refine Frame.bind_from ?_ fun _ s' _ => refl_of (Along (Allowed host plan s)) s'
    refine recordedMutation_from (fun _ => .inl trivial) (fun _ => .inl trivial) trivial
      fun t hmutation => ?_
    have hbefore : beforeResize host plan s = (.ok (), t) := bind_eq_ok.2 ⟨(), s₁, hprologue, hmutation⟩
    refine resizeNtfsTarget_allowed hbefore fun hwould => ?_
    rw [(beforeResize_steady.of_eq hbefore).drive] at hwould
    exact seen_beforeResize hprologue hbefore (hseen₁ hwould)
  · -- the plan names no target, so nothing is formatted
    cases target with
    | none => exact refl_of (Along (Allowed host plan s)) s₂
    | some target =>
      have hprepare : Frame (Along (Allowed host plan s)) (prepareBtrfsTarget host plan target) :=
        prepareBtrfsTarget_unnamed htarget (fun _ h _ => .inl h) trivial
      have hrest : Frame (Along (Allowed host plan s)) (do
          prepareBtrfsTarget host plan target
          Action.modify fun s => { s with storageTarget := some target }) :=
        Frame.bind hprepare fun _ => Frame.modify fun _ => Follows.idle rfl rfl rfl
      exact hrest s₂

/-- Without a guided shrink no filesystem is shrunk. -/
theorem executeStorage_unshrunk (hmode : plan.mode ≠ .resizeNtfs) :
    Frame (Along fun operation => ∀ device fs newSize stage,
      operation ≠ .filesystemResize device fs newSize stage) (executeStorage host plan) := by
  have hharmless : ∀ operation, Harmless operation → ∀ device fs newSize stage,
      operation ≠ .filesystemResize device fs newSize stage := by
    rintro operation hoperation device fs newSize stage rfl
    exact hoperation
  have hcreation : AllowsCreation plan fun operation => ∀ device fs newSize stage,
      operation ≠ .filesystemResize device fs newSize stage :=
    ⟨hharmless, by simp, by simp, by simp⟩
  refine Frame.bind prologue_along fun _ => Frame.bind ?_ fun target => ?_
  · unfold selectTarget
    cases hcase : plan.mode with
    | wipe => exact Frame.pure _
    | alongside | manual => exact Frame.bind selectExisting_along fun _ => Frame.pure _
    | freeSpace =>
      exact Frame.bind (createInFreeSpace_along hcreation trivial) fun _ => Frame.pure _
    | resizeNtfs => exact absurd hcase hmode
  · split
    · exact Frame.pure _
    · refine Frame.bind ?_ fun _ => Frame.modify fun _ => Follows.idle rfl rfl rfl
      exact prepareBtrfsTarget_along (Q := fun _ => True) (fun _ h _ => hharmless _ h) (fun _ => trivial)
        (by simp) trivial

/-- An attempt that shrinks nothing. A guided one resumes in its window or runs harmless commands only. -/
structure Resumes (host : Host) (plan : InstallerPlan) (s : Session) : Prop where
  /-- No filesystem is resized. -/
  unshrunk : ∀ device fs newSize stage,
    .filesystemResize device fs newSize stage ∉ (executeStorage host plan s).2.ran
  /-- What else a guided attempt runs. -/
  window : plan.mode = .resizeNtfs →
    (∀ operation ∈ (executeStorage host plan s).2.ran, Harmless operation) ∨
      ∃ partition probe sectorSize ends t,
        reachWindow host plan s = (.ok (partition, probe, sectorSize, some ends), t) ∧
        ∀ operation ∈ (executeStorage host plan s).2.ran, Harmless operation ∨ CreatesIn ends operation

/-- The plan of an accepted request. The size before the shrink is added to it later. -/
def Accepted (plan : InstallerPlan) : Prop :=
  ∃ input, Plan.buildPlan input = .ok { plan with preShrinkBytes := none }

theorem Accepted.targetPartition (h : Accepted plan)
    (hmode : plan.mode = .freeSpace ∨ plan.mode = .resizeNtfs) : plan.targetPartition = none := by
  obtain ⟨input, hinput⟩ := h
  have htarget := (Plan.buildPlan_eq_ok_iff.1 hinput).2.2.1
  rcases hmode with hmode | hmode <;> simp only [hmode] at htarget <;>
    exact (Except.ok.inj htarget).symm

/-- An attempt that opens a journal with the record where it would shrink does not shrink. -/
theorem resumes_of_guarded (haccepted : Accepted plan) (hclock : s.clock = 0) (hran : s.ran = [])
    (hguarded : Guarded host plan s) : Resumes host plan s := by
  by_cases hmode : plan.mode = .resizeNtfs
  · have hall := (executeStorage_allowed hmode (haccepted.targetPartition (.inr hmode)) hclock hguarded).all hran
    refine ⟨fun device fs newSize stage hmem => ?_, fun _ => ?_⟩
    · rcases hall _ hmem with hharmless | ⟨partition, probe, sectorSize, ends, t, -, hcreates⟩
      · exact hharmless
      · exact hcreates
    · by_cases hwindow : ∃ partition probe sectorSize ends t,
          reachWindow host plan s = (.ok (partition, probe, sectorSize, some ends), t)
      · obtain ⟨partition, probe, sectorSize, ends, t, hreach⟩ := hwindow
        refine .inr ⟨partition, probe, sectorSize, ends, t, hreach, fun operation hmem => ?_⟩
        rcases hall operation hmem with hharmless |
          ⟨partition', probe', sectorSize', ends', t', hreach', hcreates⟩
        · exact .inl hharmless
        · rw [hreach] at hreach'
          cases hreach'
          exact .inr hcreates
      · refine .inl fun operation hmem => ?_
        rcases hall operation hmem with hharmless | ⟨partition, probe, sectorSize, ends, t, hreach, -⟩
        · exact hharmless
        · exact absurd ⟨partition, probe, sectorSize, ends, t, hreach⟩ hwindow
  · refine ⟨fun device fs newSize stage hmem => ?_, fun h => absurd h hmode⟩
    exact (executeStorage_unshrunk hmode s).all hran _ hmem device fs newSize stage rfl

/-! ### Histories -/

/-- What happens to a disk: an attempt or a reboot, or the live session mounts and unmounts partitions. -/
inductive Happening
  | event (event : Event)
  | remount (mounts : LsblkDevice → List String)

/-- The session after it. -/
def Session.next (s : Session) : Happening → Session
  | .event event => s.after event
  | .remount mounts =>
      { s with drive := s.drive.mapIf (fun _ => true) fun part => withMounts (mounts part) part }

/-- The session after a history. -/
def Session.run (s : Session) (history : List Happening) : Session := history.foldl Session.next s

/-- The journal on the EFI system partition says that the shrink was completed. -/
def HeldOn (esp : String) (s : Session) : Prop := CompletedIn (s.files (.device esp)) "ntfs_shrink"

theorem HeldOn.next {esp : String} (h : HeldOn esp s) (happening : Happening) :
    HeldOn esp (s.next happening) := by
  cases happening with
  | event event =>
    cases event with
    | attempt host plan =>
      exact ((executeStorage_along (allowsMutation_all plan) (fun _ => trivial) fun _ => trivial :
        Frame (Along fun _ => True) (executeStorage host plan)) s.fresh).completed _ _ h
    | reboot => exact h
  | remount mounts => exact h

theorem HeldOn.run {esp : String} (h : HeldOn esp s) (history : List Happening) :
    HeldOn esp (s.run history) := by
  induction history generalizing s with
  | nil => exact h
  | cons happening history ih => exact ih (h.next happening)

/-- An attempt that finds the EFI system partition mounted. -/
def EspMounted (esp : String) (host : Host) (plan : InstallerPlan) (s : Session) : Prop :=
  host.probe 4 = none ∧ host.probe 5 = none ∧ ∃ efi directory,
    efiPartitionFromSnapshot (s.drive.snapshot plan.disk) plan.disk host.sectorSize =
      .ok (some efi) ∧
    efi.mountedAt = some directory ∧ s.drive.volumeAt directory = .device esp

/-- Such an attempt opens the journal on the EFI system partition. -/
theorem guarded_of_espMounted {esp : String} (hmounted : EspMounted esp host plan s)
    (hheld : HeldOn esp s) : Guarded host plan s := by
  obtain ⟨hfirst, hsecond, efi, directory, hefi, hat, hvolume⟩ := hmounted
  intro _ _
  have hdirectory : journalDirectory host plan s.drive = directory := by
    unfold journalDirectory
    rw [if_pos ⟨hfirst, hsecond⟩, hefi]
    show efi.mountedAt.getD _ = directory
    rw [hat]
    rfl
  rw [hdirectory]
  unfold Session.fileAt
  rw [hvolume]
  exact hheld

theorem checkedOpName_shrink : checkedOpName "ntfs_shrink" = .ok "ntfs_shrink" := by decide

/-- A journal with the record. -/
def shrunkState : JournalState where
  ops := [{ name := ⟨"ntfs_shrink", checkedOpName_shrink⟩, started := 0, completed := some 0 }]

/-- The Windows disk, with the record on its EFI system partition. -/
def recordedSession : Session :=
  { windowsSession 0 with files := fun _ => .document shrunkState.document }

/-- The machine is started again, and the EFI system partition is mounted. -/
def startedAgain : List Happening :=
  [.event .reboot,
    .remount fun part => if part.name = some "/dev/sda1" then ["/boot/efi"] else []]

end Kyth.Executor

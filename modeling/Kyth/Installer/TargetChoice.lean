import Kyth.Installer.ShrinkRecord

/-!
# The target of the storage phase

`execute_storage` selects or creates a partition and hands it to `prepare_btrfs_target`, which does not
look at it: it formats the partition that the plan names. A plan for `free_space` or `resize_ntfs` names
none, so the phase stops with an error right after it has created the partition.

`keepsTarget_iff` is about every plan that `build_plan` accepts: the phase keeps to the target it has
selected unless it has just created one.
-/

namespace Kyth.Executor

open Str Word Storage Disk Durable
open Kyth.Action (Frame Ensures bind_eq_ok guard_eq_ok)
open Kyth.Plan (InstallerPlan InstallMode InstallerPlanInput)

variable {host : Host} {plan : InstallerPlan} {s s' : Session} {P : DiskOperationInput → Prop}
  {α : Type}

/-- Every command, every write and every probe succeeds. -/
structure Host.Succeeds (host : Host) : Prop where
  outcome : ∀ call, host.outcome call = .done
  probe : ∀ call, host.probe call = none

/-! ### The two halves of the phase -/

/-- `execute_storage` up to the target. -/
def reachTarget (host : Host) (plan : InstallerPlan) : Phase (Option String) := do
  prologue host plan
  selectTarget host plan

/-- The rest of `execute_storage`. -/
def useTarget (host : Host) (plan : InstallerPlan) : Option String → Phase Unit
  | none => return ()
  | some target => do
      prepareBtrfsTarget host plan target
      Action.modify fun s => { s with storageTarget := some target }

theorem executeStorage_eq (host : Host) (plan : InstallerPlan) (s : Session) :
    executeStorage host plan s = (reachTarget host plan >>= useTarget host plan) s := by
  unfold executeStorage reachTarget
  simp only [Action.bind_apply]
  cases hprologue : prologue host plan s with
  | mk result t =>
    cases result with
    | error stop => rfl
    | ok done =>
      cases hselect : selectTarget host plan t with
      | mk result t =>
        cases result with
        | error stop => simp only [hselect]
        | ok target => cases target <;> simp only [hselect] <;> rfl

/-! ### What is formatted -/

/-- The device that a command formats. -/
def formattedDevice : DiskOperationInput → Option String
  | .formatFilesystem device _ _ _ => some device
  | _ => none

/-- The devices that commands format. -/
def formatted (commands : List DiskOperationInput) : List String :=
  commands.filterMap formattedDevice

/-- A command that changes the partition table or shrinks a filesystem. -/
def ChangesTable : DiskOperationInput → Prop
  | .createLabel .. | .createPartition .. | .createUnformattedPartition .. | .deletePartition ..
  | .resizePartition .. | .setPartitionFlag .. | .restoreTable .. => True
  | .filesystemResize _ _ _ stage => stage = "resize"
  | _ => False

/-- The phase keeps to the target that it has selected or created. -/
structure KeepsTarget (host : Host) (plan : InstallerPlan) (s : Session) : Prop where
  /-- No other partition is formatted. -/
  only : ∀ device ∈ formatted (executeStorage host plan s).2.ran,
    ∃ t, reachTarget host plan s = (.ok (some device), t)
  /-- A phase that succeeds has formatted it, and once. -/
  once : ∀ target t, reachTarget host plan s = (.ok (some target), t) →
    (executeStorage host plan s).1 = .ok () → formatted (executeStorage host plan s).2.ran = [target]
  /-- Behind a change of the disk the target is not missing. -/
  present : ∀ target t, reachTarget host plan s = (.ok (some target), t) →
    (∃ operation ∈ t.ran, ChangesTable operation) →
    (prepareBtrfsTarget host plan target t).1 ≠
      .error (.failed "filesystem install has no target partition")

theorem formattedDevice_of_harmless {operation : DiskOperationInput} (h : Harmless operation) :
    formattedDevice operation = none := by
  cases operation with
  | formatFilesystem => exact h.elim
  | _ => rfl

theorem formatted_nil_iff {commands : List DiskOperationInput} :
    formatted commands = [] ↔ ∀ operation ∈ commands, formattedDevice operation = none :=
  List.filterMap_eq_nil_iff

/-- A step without a format. -/
theorem formatted_step {step : Phase α} {result : Except Stop α}
    (hstep : Frame (Along fun operation => formattedDevice operation = none) step)
    (hrun : step s = (result, s')) : formatted s'.ran = formatted s.ran := by
  obtain ⟨⟨new, hran, hnew⟩, -⟩ := hstep.of_eq hrun
  rw [hran, formatted, List.filterMap_append, ← formatted, formatted_nil_iff.2 hnew]
  rfl

/-- Up to the target nothing is formatted. -/
theorem reachTarget_formatted :
    Frame (Along fun operation => formattedDevice operation = none) (reachTarget host plan) := by
  have hmutation : AllowsMutation plan fun operation => formattedDevice operation = none :=
    ⟨⟨fun _ => formattedDevice_of_harmless, fun _ _ _ _ _ => rfl, fun _ _ _ _ => rfl,
      fun _ _ _ _ => rfl⟩, fun _ _ _ _ => rfl, fun _ _ _ _ _ => rfl⟩
  exact Frame.bind prologue_along fun _ => selectTarget_along hmutation fun _ => trivial

/-! ### The partition that a plan names -/

/-- The partition of the disk that a plan names, when it passes the checks. -/
def Chosen (host : Host) (plan : InstallerPlan) (drive : Drive) (target : String) : Prop :=
  ∃ requested probe, plan.targetPartition = some requested ∧
    validateReplaceTarget (drive.snapshot plan.disk) plan.disk requested (roleOf plan.mode)
      host.sectorSize = .ok probe ∧ probe.name = target

theorem Chosen.eq {drive : Drive} {target target' : String} (h : Chosen host plan drive target)
    (h' : Chosen host plan drive target') : target = target' := by
  obtain ⟨requested, probe, hrequested, hprobe, rfl⟩ := h
  obtain ⟨requested', probe', hrequested', hprobe', rfl⟩ := h'
  obtain rfl := Option.some.inj (hrequested.symm.trans hrequested')
  rw [Except.ok.inj (hprobe.symm.trans hprobe')]

theorem probeTarget_eq_ok {target : String} (h : probeTarget host plan s = (.ok target, s')) :
    Chosen host plan s.drive target := by
  unfold probeTarget at h
  cases hrequested : plan.targetPartition with
  | none =>
    simp only [hrequested] at h
    cases h
  | some requested =>
    simp only [hrequested] at h
    obtain ⟨snapshot, s₁, hsnapshot, h⟩ := bind_eq_ok.1 h
    obtain ⟨sectorSize, s₂, hsector, h⟩ := bind_eq_ok.1 h
    obtain ⟨probe, s₃, hlift, h⟩ := bind_eq_ok.1 h
    cases h
    obtain ⟨rfl, -⟩ := diskSnapshot_eq_ok hsnapshot
    obtain rfl := diskSectorSize_value hsector
    exact ⟨requested, probe, hrequested, (lift_eq_ok.1 hlift).1, rfl⟩

theorem selectExisting_eq_ok {target : String} (h : selectExisting host plan s = (.ok target, s')) :
    Chosen host plan s'.drive target := by
  have hdrive : s'.drive = s.drive := (selectExisting_along : Frame SameDrive _).of_eq h
  rw [hdrive]
  unfold selectExisting at h
  cases hrequested : plan.targetPartition with
  | none =>
    simp only [hrequested] at h
    cases h
  | some requested =>
    simp only [hrequested] at h
    obtain ⟨sectorSize, s₁, hsector, h⟩ := bind_eq_ok.1 h
    obtain ⟨snapshot, s₂, hsnapshot, h⟩ := bind_eq_ok.1 h
    obtain rfl := diskSectorSize_value hsector
    obtain ⟨rfl, -⟩ := diskSnapshot_eq_ok hsnapshot
    have hdrive₁ : s₁.drive = s.drive := (diskSectorSize_along : Frame SameDrive _).of_eq hsector
    rw [hdrive₁] at h
    have hvalidated : ∃ t, (lift (validateReplaceTarget (s.drive.snapshot plan.disk) plan.disk requested
        (roleOf plan.mode) host.sectorSize) >>= fun probe => pure probe.name) t = (.ok target, s') := by
      split at h
      · obtain ⟨⟨⟩, s₃, -, h⟩ := bind_eq_ok.1 h
        exact ⟨s₃, h⟩
      · exact ⟨s₂, h⟩
    obtain ⟨t, h⟩ := hvalidated
    obtain ⟨probe, s₄, hlift, h⟩ := bind_eq_ok.1 h
    cases h
    exact ⟨requested, probe, hrequested, (lift_eq_ok.1 hlift).1, rfl⟩

/-- A target that was there before: no command has run, and the plan names it. -/
theorem reachTarget_existing {target : String} (hmode : plan.mode ≠ .freeSpace ∧ plan.mode ≠ .resizeNtfs)
    (h : reachTarget host plan s = (.ok (some target), s')) :
    s'.ran = s.ran ∧ Chosen host plan s'.drive target := by
  obtain ⟨⟨⟩, t, hprologue, h⟩ := bind_eq_ok.1 h
  have hran : ∀ {t t' : Session}, Along (fun _ => False) t t' → t'.ran = t.ran := by
    rintro t t' ⟨⟨new, hnew, hnone⟩, -⟩
    rw [hnew, List.eq_nil_iff_forall_not_mem.2 hnone, List.nil_append]
  have hprologue' : t.ran = s.ran :=
    hran ((prologue_along : Frame (Along fun _ => False) (prologue host plan)).of_eq hprologue)
  have hexisting : ∀ {t' : Session}, (selectExisting host plan >>= fun target => pure (some target)) t =
      (.ok (some target), t') → t'.ran = s.ran ∧ Chosen host plan t'.drive target := by
    intro t' h
    obtain ⟨target', t₁, hselect, h⟩ := bind_eq_ok.1 h
    cases h
    exact ⟨(hran ((selectExisting_along : Frame (Along fun _ => False) _).of_eq hselect)).trans hprologue',
      selectExisting_eq_ok hselect⟩
  unfold selectTarget at h
  cases hcase : plan.mode with
  | wipe =>
    simp only [hcase] at h
    cases h
  | alongside =>
    simp only [hcase] at h
    exact hexisting h
  | manual =>
    simp only [hcase] at h
    exact hexisting h
  | freeSpace => exact absurd hcase hmode.1
  | resizeNtfs => exact absurd hcase hmode.2

/-! ### The partition that is created -/

/-- A command has changed the disk. -/
def Changed (s : Session) : Prop := ∃ operation ∈ s.ran, ChangesTable operation

theorem Changed.along (h : Along P s s') (hs : Changed s) : Changed s' := by
  obtain ⟨⟨new, hran, -⟩, -⟩ := h
  obtain ⟨operation, hmem, hchanges⟩ := hs
  exact ⟨operation, hran ▸ List.mem_append_right _ hmem, hchanges⟩

/-- A step behind the change. -/
theorem Ensures.then {β : Type} {x : Phase α} {f : α → Phase β} (hx : Ensures Changed x)
    (hf : ∀ a, Frame (Along fun _ => True) (f a)) : Ensures Changed (x >>= f) :=
  hx.bind_frame hf Changed.along

theorem executeDiskHelper_changes {operation : DiskOperationInput} (h : ChangesTable operation) :
    Ensures Changed (executeDiskHelper host plan operation) := by
  rintro s ⟨⟩ s' hrun
  obtain ⟨clock, clock', rfl⟩ := executeDiskHelper_eq_ok hrun
  refine ⟨operation, ?_, h⟩
  show operation ∈ (Session.apply _ host operation).ran
  rw [apply_ran]
  exact List.mem_cons_self

theorem createKythos_changes {before : LsblkSnapshot} {start stop sectorSize : ℕ} :
    Ensures Changed (createKythos host plan before start stop sectorSize) := by
  refine Ensures.ite_throw (Ensures.ite_throw (Ensures.then (executeDiskHelper_changes trivial)
    fun _ => Frame.bind diskSnapshot_along fun _ => ?_))
  exact Frame.bind (lift_along _) fun _ => Frame.bind (lift_along _) fun _ => Frame.pure _

theorem createTargetPartition_changes {start stop sectorSize : ℕ} :
    Ensures Changed (createTargetPartition host plan start stop sectorSize) := by
  refine Ensures.ite_throw (Ensures.bind fun _ => Ensures.bind fun _ => Ensures.ite ?_ ?_)
  · exact createKythos_changes
  · exact Ensures.ite_throw (Ensures.bind fun _ => createKythos_changes)

theorem settle_eq_ok {step : Phase α} {value : α} (h : settle step s = (.ok (.ok value), s')) :
    step s = (.ok value, s') := by
  unfold settle at h
  split at h
  · rename_i heq
    cases h
    exact heq
  · cases h
  · cases h

theorem guardedTableMutation_changes {body : Phase α} (hbody : Ensures Changed body) :
    Ensures Changed (guardedTableMutation host plan body) := by
  refine Ensures.bind fun _ => Ensures.bind fun _ => Ensures.bind fun _ => ?_
  intro s value s' h
  obtain ⟨result, s₁, hsettle, h⟩ := bind_eq_ok.1 h
  cases result with
  | ok value' =>
    cases h
    exact hbody _ _ _ (settle_eq_ok hsettle)
  | error message =>
    obtain ⟨restored, s₂, -, h⟩ := bind_eq_ok.1 h
    cases restored <;> cases h

theorem recordedMutation_changes {body : Phase String} (hbody : Ensures Changed body) :
    Ensures Changed (recordedMutation host plan body) := by
  refine Ensures.bind fun _ => Ensures.then (guardedTableMutation_changes hbody) fun _ => ?_
  exact Frame.bind (recordJournal_along fun _ => trivial) fun _ => Frame.pure _

theorem createInFreeSpace_changes : Ensures Changed (createInFreeSpace host plan) := by
  unfold createInFreeSpace
  split
  · exact Ensures.throw _
  · exact Ensures.throw _
  · refine Ensures.bind fun _ => Ensures.bind fun _ => Ensures.bind fun _ => Ensures.ite_throw ?_
    exact recordedMutation_changes createTargetPartition_changes

theorem resizeNtfsTarget_changes : Ensures Changed (resizeNtfsTarget host plan) := by
  refine Ensures.ite_throw ?_
  split
  · exact Ensures.throw _
  · refine Ensures.bind fun _ => Ensures.bind fun _ => Ensures.bind fun _ => Ensures.ite_throw
      (Ensures.ite_throw (Ensures.bind fun window => ?_))
    split
    · exact createTargetPartition_changes
    · exact Ensures.bind fun _ => createTargetPartition_changes

/-- A run that has created its target has changed the disk. -/
theorem reachTarget_changes (hmode : plan.mode = .freeSpace ∨ plan.mode = .resizeNtfs) :
    Ensures Changed (reachTarget host plan) := by
  refine Ensures.bind fun _ => ?_
  unfold selectTarget
  rcases hmode with hmode | hmode
  · rw [hmode]
    exact Ensures.then createInFreeSpace_changes fun _ => Frame.pure _
  · rw [hmode]
    exact Ensures.then (recordedMutation_changes resizeNtfsTarget_changes) fun _ => Frame.pure _

/-- The disk is valid when a run gets to its target. -/
theorem targetDisk_of_reachTarget {target : Option String} (hmode : plan.mode ≠ .wipe)
    (h : reachTarget host plan s = (.ok target, s')) : host.targetDisk = .ok () := by
  obtain ⟨⟨⟩, t, hprologue, -⟩ := bind_eq_ok.1 h
  unfold prologue at hprologue
  rw [if_pos hmode] at hprologue
  obtain ⟨⟨⟩, t₁, hvalidate, -⟩ := bind_eq_ok.1 hprologue
  obtain ⟨⟨⟩, t₂, -, hlift⟩ := bind_eq_ok.1 hvalidate
  exact (lift_eq_ok.1 hlift).1

/-- Without a target partition in the plan, `prepare_btrfs_target` stops before it has looked at the
disk. -/
theorem prepareBtrfsTarget_missing (hhost : host.Succeeds) (hdisk : host.targetDisk = .ok ())
    (hnone : plan.targetPartition = none) (target : String) (s : Session) :
    (prepareBtrfsTarget host plan target s).1 =
      .error (.failed "filesystem install has no target partition") := by
  unfold prepareBtrfsTarget validateTargetDisk probeTarget
  simp only [Action.bind_apply, call, ask, hhost.outcome, hhost.probe, hdisk, lift, hnone,
    Action.pure_apply, Action.throw_apply]

/-! ### The target that is kept -/

/-- What `prepare_btrfs_target` formats is the partition that the plan names. -/
theorem prepareBtrfsTarget_formats {target device : String} (hchosen : Chosen host plan s.drive device)
    (hs : ∀ operation ∈ s.ran, formattedDevice operation = none) :
    ∀ formattedOne ∈ formatted (prepareBtrfsTarget host plan target s).2.ran, formattedOne = device := by
  have hharmless : ∀ operation, Harmless operation → ¬ Restores operation →
      ∀ one ∈ formattedDevice operation, one = device := by
    intro operation hoperation _ one hone
    rw [formattedDevice_of_harmless hoperation] at hone
    cases hone
  have hframe : Along (fun operation => ∀ one ∈ formattedDevice operation, one = device) s
      (prepareBtrfsTarget host plan target s).2 := by
    rw [prepareBtrfsTarget_eq]
    refine Frame.bind_at call_id_along fun _ s₁ hcall => ?_
    refine Frame.bind_at validateTargetDisk_along fun _ s₂ hvalidate => ?_
    refine Frame.bind_at probeTarget_along fun probed s₃ hprobe => ?_
    -- the disk is the one that the selection saw
    have hdrive : s₂.drive = s.drive :=
      ((validateTargetDisk_along : Frame SameDrive _).of_eq hvalidate).trans
        ((call_id_along : Frame SameDrive _).of_eq hcall)
    have hprobed := probeTarget_eq_ok hprobe
    rw [hdrive] at hprobed
    obtain rfl := hprobed.eq hchosen
    refine Frame.bind (recordStarted_along _) (fun _ => Frame.bind (executeDiskHelper_along ?_)
      fun _ => mountTarget_along hharmless trivial) s₃
    rintro one ⟨⟩
    rfl
  obtain ⟨⟨new, hran, hnew⟩, -⟩ := hframe
  intro one hone
  obtain ⟨operation, hmem, hformat⟩ := List.mem_filterMap.1 hone
  rw [hran] at hmem
  rcases List.mem_append.1 hmem with hmem | hmem
  · exact hnew operation hmem one hformat
  · rw [hs operation hmem] at hformat
    cases hformat

/-- When it succeeds, it has formatted the partition once. -/
theorem prepareBtrfsTarget_eq_ok {target device : String} (hchosen : Chosen host plan s.drive device)
    (h : prepareBtrfsTarget host plan target s = (.ok (), s')) :
    formatted s'.ran = device :: formatted s.ran := by
  have hharmless : ∀ operation, Harmless operation → ¬ Restores operation →
      formattedDevice operation = none := fun _ hoperation _ => formattedDevice_of_harmless hoperation
  rw [prepareBtrfsTarget_eq] at h
  obtain ⟨⟨⟩, s₁, hcall, h⟩ := bind_eq_ok.1 h
  obtain ⟨⟨⟩, s₂, hvalidate, h⟩ := bind_eq_ok.1 h
  obtain ⟨probed, s₃, hprobe, h⟩ := bind_eq_ok.1 h
  obtain ⟨⟨⟩, s₄, hrecord, h⟩ := bind_eq_ok.1 h
  obtain ⟨⟨⟩, s₅, hformat, h⟩ := bind_eq_ok.1 h
  have hdrive : s₂.drive = s.drive :=
    ((validateTargetDisk_along : Frame SameDrive _).of_eq hvalidate).trans
      ((call_id_along : Frame SameDrive _).of_eq hcall)
  have hprobed := probeTarget_eq_ok hprobe
  rw [hdrive] at hprobed
  obtain rfl := hprobed.eq hchosen
  have hbefore : formatted s₄.ran = formatted s.ran := by
    rw [formatted_step (recordStarted_along _) hrecord, formatted_step probeTarget_along hprobe,
      formatted_step validateTargetDisk_along hvalidate, formatted_step call_id_along hcall]
  have hafter : formatted s'.ran = formatted s₅.ran :=
    formatted_step (mountTarget_along hharmless trivial) h
  obtain ⟨clock, clock', rfl⟩ := executeDiskHelper_eq_ok hformat
  rw [hafter, ← hbefore]
  show formatted (Session.apply _ host _).ran = _
  rw [apply_ran]
  rfl

/-- A run that stops before it has a target has formatted nothing. -/
theorem formatted_of_stopped (hs : s.ran = [])
    (hstopped : ∀ target t, reachTarget host plan s ≠ (.ok (some target), t)) :
    formatted (executeStorage host plan s).2.ran = [] := by
  rw [executeStorage_eq, Action.bind_apply]
  cases hrun : reachTarget host plan s with
  | mk result t =>
    have hreach : formatted t.ran = [] := by
      rw [formatted_step reachTarget_formatted hrun, hs]
      rfl
    cases result with
    | error stop => exact hreach
    | ok target =>
      cases target with
      | none => exact hreach
      | some target => exact absurd hrun (hstopped target t)

/-- For every plan that `build_plan` accepts, the phase keeps to its target if and only if it has not
just created it. -/
theorem keepsTarget_iff {input : InstallerPlanInput} (hplan : Plan.buildPlan input = .ok plan)
    (hhost : host.Succeeds) (hs : s.ran = []) :
    KeepsTarget host plan s ↔
      (plan.mode = .freeSpace ∨ plan.mode = .resizeNtfs →
        ∀ target t, reachTarget host plan s ≠ (.ok (some target), t)) := by
  constructor
  · intro h hmode target t hreach
    have hnone : plan.targetPartition = none := by
      have htarget := (Plan.buildPlan_eq_ok_iff.1 hplan).2.2.1
      rcases hmode with hmode | hmode
      all_goals
        rw [hmode] at htarget
        exact (Except.ok.inj htarget).symm
    have hwipe : plan.mode ≠ .wipe := by
      rcases hmode with hmode | hmode <;> rw [hmode] <;> simp
    exact h.present target t hreach (reachTarget_changes hmode _ _ _ hreach)
      (prepareBtrfsTarget_missing hhost (targetDisk_of_reachTarget hwipe hreach) hnone target t)
  · intro h
    by_cases hstopped : ∀ target t, reachTarget host plan s ≠ (.ok (some target), t)
    · have hnothing := formatted_of_stopped hs hstopped
      refine ⟨?_, fun target t hreach => absurd hreach (hstopped target t),
        fun target t hreach => absurd hreach (hstopped target t)⟩
      rw [hnothing]
      exact fun device hdevice => nomatch hdevice
    · push Not at hstopped
      obtain ⟨target, t, hreach⟩ := hstopped
      have hmode : plan.mode ≠ .freeSpace ∧ plan.mode ≠ .resizeNtfs :=
        ⟨fun hmode => h (.inl hmode) target t hreach, fun hmode => h (.inr hmode) target t hreach⟩
      obtain ⟨hran, hchosen⟩ := reachTarget_existing hmode hreach
      rw [hs] at hran
      -- the last step sets the target, and runs no command
      have hrun : (executeStorage host plan s).2.ran = (prepareBtrfsTarget host plan target t).2.ran ∧
          (executeStorage host plan s).1 = (prepareBtrfsTarget host plan target t).1 := by
        rw [executeStorage_eq, Action.bind_apply, hreach]
        simp only [useTarget, Action.bind_apply]
        split <;> rename_i heq <;> simp [heq]
      refine ⟨fun device hdevice => ?_, fun target' t' hreach' hok => ?_,
        fun target' t' hreach' hchanged => ?_⟩
      · rw [hrun.1] at hdevice
        have hnone : ∀ operation ∈ t.ran, formattedDevice operation = none := by simp [hran]
        rw [prepareBtrfsTarget_formats hchosen hnone device hdevice]
        exact ⟨t, hreach⟩
      · obtain ⟨htarget, rfl⟩ := Prod.mk.inj (hreach'.symm.trans hreach)
        obtain rfl := Option.some.inj (Except.ok.inj htarget)
        rw [hrun.2] at hok
        rw [hrun.1, prepareBtrfsTarget_eq_ok hchosen (Prod.ext hok rfl), hran]
        rfl
      · obtain ⟨-, rfl⟩ := Prod.mk.inj (hreach'.symm.trans hreach)
        obtain ⟨operation, hmem, -⟩ := hchanged
        rw [hran] at hmem
        cases hmem

theorem windowsHost_succeeds : windowsHost.Succeeds := ⟨fun _ => rfl, fun _ => rfl⟩

/-- A request to replace the second partition. -/
def replaceInput : InstallerPlanInput :=
  { disk := "/dev/sda", installMode := "alongside", targetPartition := "/dev/sda2" }

/-- The plan of that request. -/
def replacePlan : InstallerPlan :=
  { shrinkPlan 0 with
    mode := .alongside, targetPartition := some "/dev/sda2", resizePartition := none, resizeBytes := 0 }

/-- The Windows disk with its second partition wiped. -/
def wipedSession : Session :=
  { windowsSession 0 with
    drive := (windowsDrive 0).mapIf (fun part => part.partn == some 2) fun part =>
      { part with fstype := none } }

/-- A partition that is replaced is the one that is formatted. -/
theorem keepsTarget_replaced :
    KeepsTarget windowsHost replacePlan wipedSession ∧
      (reachTarget windowsHost replacePlan wipedSession).1 = .ok (some "/dev/sda2") := by
  have hplan : Plan.buildPlan replaceInput = .ok replacePlan := by decide
  exact ⟨(keepsTarget_iff hplan windowsHost_succeeds rfl).2
    (by rintro (hmode | hmode) <;> cases hmode), by decide +kernel⟩

/-- The run that shrinks the Windows partition up to its target. -/
def createdRun : Except Stop (Option String) × Session :=
  reachTarget windowsHost (shrinkPlan 40) (windowsSession 0)

/-- It shrinks the filesystem and creates two partitions with names of their own. -/
theorem createdRun_result :
    createdRun.1 = .ok (some "/dev/sda4") ∧
      createdRun.2.drive.partitions.map (·.name) =
        [some "/dev/sda1", some "/dev/sda2", some "/dev/sda3", some "/dev/sda4"] ∧
      .filesystemResize "/dev/sda2" "ntfs" 0x1b80000000 "resize" ∈ createdRun.2.ran := by
  decide +kernel

/-- The Windows filesystem is shrunk, the partition for the system is created, and then there is no
target partition. -/
theorem created_target_missing :
    Plan.buildPlan (shrinkInput 40) = .ok (shrinkPlan 40) ∧ windowsHost.Succeeds ∧
      (windowsSession 0).ran = [] ∧ createdRun.1 = .ok (some "/dev/sda4") ∧
      createdRun.2.drive.partitions.map (·.name) =
        [some "/dev/sda1", some "/dev/sda2", some "/dev/sda3", some "/dev/sda4"] ∧
      .filesystemResize "/dev/sda2" "ntfs" 0x1b80000000 "resize" ∈ createdRun.2.ran ∧
      ¬ KeepsTarget windowsHost (shrinkPlan 40) (windowsSession 0) := by
  obtain ⟨htarget, hnames, hshrunk⟩ := createdRun_result
  refine ⟨by decide, windowsHost_succeeds, rfl, htarget, hnames, hshrunk, fun hkeeps => ?_⟩
  have hreach := (Prod.mk.eta (p := createdRun)).symm
  rw [htarget] at hreach
  generalize createdRun.2 = t at hreach hshrunk
  unfold createdRun at hreach
  exact hkeeps.present _ _ hreach ⟨_, hshrunk, rfl⟩
    (prepareBtrfsTarget_missing windowsHost_succeeds rfl rfl _ t)

end Kyth.Executor

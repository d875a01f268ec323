import Kyth.Installer.StoragePhase

/-!
# Runs of the storage phase

However a step of the phase ends, the commands that it ran are known, and the operations that it
recorded as completed. `Follows R P W` says that a relation `R` allows all this: the effect of a command
that satisfies `P`, and a journal that keeps its records and completes only operations that satisfy `W`.
Each function of the phase has one lemma that names the commands it runs, for every such relation.

`Along P` is the relation for the commands and the journals themselves.
-/

namespace Kyth.Executor

open Str Word Storage Disk Durable
open Kyth.Action (Frame bind_eq_ok)
open Kyth.Plan (InstallerPlan InstallMode)

/-- A journal file that records an operation as completed. -/
def CompletedIn (file : JournalFile) (op : String) : Prop :=
  ∃ path state, load path file = .ok state ∧ state.completed op = true

/-- One session grows out of another: the commands in between satisfy `P`, and no journal loses the
record of a completed operation. -/
structure Along (P : DiskOperationInput → Prop) (s s' : Session) : Prop where
  ran : ∃ new, s'.ran = new ++ s.ran ∧ ∀ operation ∈ new, P operation
  completed : ∀ volume op, CompletedIn (s.files volume) op → CompletedIn (s'.files volume) op

/-- A command that leaves the extents and the contents of the partitions alone, or restores the
table that was saved before. -/
def Harmless : DiskOperationInput → Prop
  | .backupTable .. | .restoreTable .. | .mountFilesystem .. | .unmountFilesystem ..
  | .ensureDirectory .. | .btrfsSubvolumeCreate .. | .btrfsSubvolumeSetDefault .. => True
  | _ => False

/-- A command that restores a table. -/
def Restores : DiskOperationInput → Prop
  | .restoreTable .. => True
  | _ => False

variable {P Q : DiskOperationInput → Prop} {W : String → Prop} {R : Session → Session → Prop}
  {s s' : Session} {host : Host} {plan : InstallerPlan} {α : Type}

instance : Std.Refl (Along P) := ⟨fun s => ⟨⟨[], rfl, by simp⟩, fun _ _ h => h⟩⟩

instance : IsTrans Session (Along P) where
  trans := by
    rintro s s' s'' ⟨⟨new, hran, hnew⟩, hcompleted⟩ ⟨⟨new', hran', hnew'⟩, hcompleted'⟩
    refine ⟨⟨new' ++ new, by rw [hran', hran, List.append_assoc], ?_⟩,
      fun volume op h => hcompleted' volume op (hcompleted volume op h)⟩
    intro operation hoperation
    rcases List.mem_append.1 hoperation with hmem | hmem
    · exact hnew' operation hmem
    · exact hnew operation hmem

theorem Along.mono (h : Along P s s') (hPQ : ∀ operation, P operation → Q operation) :
    Along Q s s' := by
  obtain ⟨⟨new, hran, hnew⟩, hcompleted⟩ := h
  exact ⟨⟨new, hran, fun operation hoperation => hPQ operation (hnew operation hoperation)⟩,
    hcompleted⟩

/-- A session with the same commands and the same files. -/
theorem Along.of_eq (hran : s'.ran = s.ran) (hfiles : s'.files = s.files) : Along P s s' :=
  ⟨⟨[], by simpa using hran, by simp⟩, fun _ _ h => by rwa [hfiles]⟩

/-- The commands of a run that started with none. -/
theorem Along.all (h : Along P s s') (hs : s.ran = []) : ∀ operation ∈ s'.ran, P operation := by
  obtain ⟨⟨new, hran, hnew⟩, -⟩ := h
  rw [hran, hs, List.append_nil]
  exact hnew

/-- Whether a file loads does not depend on its path. -/
theorem load_path {path path' : String} {file : JournalFile} {state : JournalState}
    (h : load path file = .ok state) : load path' file = .ok state := by
  cases file with
  | absent => cases h
  | unreadable message => cases h
  | document value => exact h

theorem completedIn_iff {path : String} {file : JournalFile} {state : JournalState} {op : String}
    (h : load path file = .ok state) : CompletedIn file op ↔ state.completed op = true := by
  constructor
  · rintro ⟨path', state', hload, hcompleted⟩
    cases (load_path hload).symm.trans h
    exact hcompleted
  · exact fun hcompleted => ⟨path, state, h, hcompleted⟩

/-- The session after a journal was written. -/
def Session.write (s : Session) (journal : DurableJournal) (state : JournalState) : Session :=
  { s with files := Function.update s.files (s.drive.volumeAt journal.directory)
             (.document state.document) }

@[simp] theorem write_fileAt (journal : DurableJournal) (state : JournalState) :
    (s.write journal state).fileAt journal = .document state.document := by
  simp [Session.fileAt, Session.write]

@[simp] theorem lift_eq_ok {x : Except String α} {value : α} :
    lift x s = (.ok value, s') ↔ x = .ok value ∧ s' = s := by
  cases x with
  | ok value' => simp [lift, eq_comm]
  | error message => simp [lift]

/-- What is written reads back, so it is written once. -/
theorem writeState_eq (journal : DurableJournal) (state : JournalState) :
    writeState host journal state = call host fun s => s.write journal state := by
  funext s
  have hfile : ∀ t : Session, load journal.path ((t.write journal state).fileAt journal) =
      .ok state := fun t => by rw [write_fileAt, load_document]
  unfold writeState
  simp only [Action.bind_apply]
  unfold call
  cases host.outcome s.clock with
  | done =>
    have hload := hfile { s with clock := s.clock + 1 }
    simp only [Session.write] at hload
    simp [hload, Session.write]
  | failed applied message => rfl
  | crashed applied => rfl

theorem ask_eq_ok (h : ask host s = (.ok (), s')) : s' = { s with clock := s.clock + 1 } := by
  unfold ask at h
  split at h
  · exact (congrArg Prod.snd h).symm
  · cases h

theorem loadJournal_eq_ok {journal : DurableJournal} {state : JournalState}
    (h : loadJournal host journal s = (.ok state, s')) :
    load journal.path (s.fileAt journal) = .ok state ∧
      s' = { s with clock := s.clock + 1 } := by
  obtain ⟨⟨⟩, s₁, hask, h⟩ := bind_eq_ok.1 h
  obtain ⟨t, s₂, hget, h⟩ := bind_eq_ok.1 h
  cases hget
  rw [lift_eq_ok] at h
  obtain rfl := ask_eq_ok hask
  exact h

/-- A relation along which the steps of the phase move. -/
class Follows (R : Session → Session → Prop) (P : outParam (DiskOperationInput → Prop))
    (W : outParam (String → Prop)) : Prop extends Std.Refl R, IsTrans Session R where
  /-- The disk, the journals and the commands stay as they are. -/
  idle : ∀ {s s' : Session}, s'.drive = s.drive → s'.files = s.files → s'.ran = s.ran → R s s'
  /-- A command is handed to a process, with or without its effect. -/
  command : ∀ {s : Session} {operation : DiskOperationInput} (host : Host) (clock : ℕ), P operation →
    R s { s with ran := operation :: s.ran, clock := clock } ∧
      R s (Session.apply { s with ran := operation :: s.ran, clock := clock } host operation)
  /-- A journal is written that keeps the completed operations of its file. -/
  write : ∀ {s : Session} {journal : DurableJournal} {state : JournalState},
    (∀ op, CompletedIn (s.fileAt journal) op → state.completed op = true) →
    (∀ op, state.completed op = true → W op ∨ ∃ volume, CompletedIn (s.files volume) op) →
    R s (s.write journal state)

theorem Follows.tick [Follows R P W] (s : Session) : R s { s with clock := s.clock + 1 } :=
  idle rfl rfl rfl

theorem apply_ran (operation : DiskOperationInput) : (s.apply host operation).ran = s.ran := by
  unfold Session.apply
  split
  · rfl
  · split <;> rfl
  · rfl

theorem apply_files (operation : DiskOperationInput) : (s.apply host operation).files = s.files := by
  unfold Session.apply
  split
  · rfl
  · split <;> rfl
  · rfl

instance : Follows (Along P) P fun _ => True where
  idle _ hfiles hran := .of_eq hran hfiles
  command {s operation} host clock h := by
    have hran : ∃ new, operation :: s.ran = new ++ s.ran ∧ ∀ op ∈ new, P op :=
      ⟨[operation], rfl, by simpa using h⟩
    refine ⟨⟨hran, fun _ _ h => h⟩, ⟨?_, fun volume op hop => ?_⟩⟩
    · rwa [apply_ran]
    · rwa [apply_files]
  write {s journal state} h _ := by
    refine ⟨⟨[], rfl, by simp⟩, fun volume op hop => ?_⟩
    by_cases hvolume : volume = s.drive.volumeAt journal.directory
    · subst hvolume
      have hfile : (s.write journal state).files (s.drive.volumeAt journal.directory) =
          .document state.document := write_fileAt journal state
      rw [hfile]
      exact (completedIn_iff (load_document "" state)).2 (h op hop)
    · have hfile : (s.write journal state).files volume = s.files volume :=
        Function.update_of_ne hvolume _ _
      rwa [hfile]

variable [hR : Follows R P W]

include hR

/-! ### Calls to the outside -/

theorem lift_along (x : Except String α) : Frame R (lift x) := by
  cases x with
  | ok value => exact Frame.pure value
  | error message => exact Frame.throw _

omit hR in
/-- A call from `t`, when what it may leave is related to `s`. -/
theorem call_from {effect : Session → Session} {t : Session}
    (htick : R s { t with clock := t.clock + 1 })
    (heffect : R s (effect { t with clock := t.clock + 1 })) : R s (call host effect t).2 := by
  unfold call
  split
  · exact heffect
  all_goals
    dsimp only
    split_ifs
    · exact heffect
    · exact htick

theorem call_along {effect : Session → Session} (h : ∀ s, R s (effect s)) :
    Frame R (call host effect) := by
  intro s
  have htick : R s { s with clock := s.clock + 1 } := Follows.tick s
  exact call_from htick (IsTrans.trans (r := R) _ _ _ htick (h { s with clock := s.clock + 1 }))

theorem call_id_along : Frame R (call host id) := call_along fun s => refl_of R s

theorem ask_along : Frame R (ask host) := by
  intro s
  unfold ask
  split <;> exact Follows.tick s

omit hR in
theorem settle_along {step : Phase α} (h : Frame R step) :
    Frame R (settle step) := by
  intro s
  have hs := h s
  unfold settle
  split <;> rename_i heq <;> rwa [heq] at hs

theorem appendPartitionStep_along (operation : DiskOperationInput) :
    Frame R (appendPartitionStep host operation) :=
  Frame.ite call_id_along (Frame.pure ())

theorem runHelper_along {operation : DiskOperationInput} (refused : String) (h : P operation) :
    Frame R (runHelper host plan refused operation) := by
  refine Frame.bind (appendPartitionStep_along operation) fun _ => Frame.bind Frame.get fun s => ?_
  split
  · exact Frame.throw _
  · intro s
    -- the record of the command and its effect are one step
    have hcommand := Follows.command (R := R) (s := s) host (s.clock + 1) h
    exact Frame.bind_after (x := call host fun s => s.apply host operation)
      (t := { s with ran := operation :: s.ran }) (call_from hcommand.1 hcommand.2)
      fun _ => appendPartitionStep_along operation

theorem executeDiskHelper_along {operation : DiskOperationInput} (h : P operation) :
    Frame R (executeDiskHelper host plan operation) := runHelper_along _ h

theorem executeStreamHelper_along {operation : DiskOperationInput} (h : P operation) :
    Frame R (executeStreamHelper host plan operation) := runHelper_along _ h

/-! ### Probes -/

theorem validateTargetDisk_along : Frame R (validateTargetDisk host) :=
  Frame.bind ask_along fun _ => lift_along _

theorem diskSectorSize_along : Frame R (diskSectorSize host) :=
  Frame.bind ask_along fun _ => Frame.ite_throw (Frame.pure _)

theorem diskSnapshot_along : Frame R (diskSnapshot host plan) :=
  Frame.bind ask_along fun _ => Frame.bind Frame.get fun _ => Frame.pure _

theorem checkStoragePreflight_along : Frame R (checkStoragePreflight host plan) :=
  Frame.bind ask_along fun _ => Frame.bind (lift_along _) fun _ =>
    Frame.bind diskSectorSize_along fun _ => Frame.bind diskSnapshot_along fun _ =>
    Frame.bind (lift_along _) fun _ => lift_along _

theorem espProbe_along : Frame R (espProbe host plan) :=
  Frame.bind diskSectorSize_along fun _ => Frame.bind diskSnapshot_along fun _ => lift_along _

/-! ### The durable journal -/

/-- A journal may be written that keeps the completed operations of its file and completes no others
than it may. -/
theorem writeState_along {journal : DurableJournal} {state : JournalState}
    (hkeeps : ∀ op, CompletedIn (s.fileAt journal) op → state.completed op = true)
    (hnew : ∀ op, state.completed op = true → W op ∨ ∃ volume, CompletedIn (s.files volume) op) :
    R s (writeState host journal state s).2 := by
  rw [writeState_eq]
  have htick : R s { s with clock := s.clock + 1 } := Follows.tick s
  have hwrite : R { s with clock := s.clock + 1 }
      (Session.write { s with clock := s.clock + 1 } journal state) := Follows.write hkeeps hnew
  exact call_from htick (IsTrans.trans (r := R) _ _ _ htick hwrite)

theorem loadJournal_along (journal : DurableJournal) : Frame R (loadJournal host journal) :=
  Frame.bind ask_along fun _ => Frame.bind Frame.get fun _ => lift_along _

theorem openJournal_along (journal : DurableJournal) : Frame R (openJournal host journal) := by
  refine Frame.bind (lift_along _) fun _ => Frame.bind call_id_along fun _ s => ?_
  refine Frame.bind_at Frame.get fun t s' hget => ?_
  cases hget
  cases hfile : s.fileAt journal with
  | absent =>
    refine writeState_along (fun op hop => ?_) fun op hop => by cases hop
    rw [hfile] at hop
    obtain ⟨path, state, hload, -⟩ := hop
    cases hload
  | unreadable message => exact Frame.bind (loadJournal_along journal) (fun _ => Frame.pure _) s
  | document value => exact Frame.bind (loadJournal_along journal) (fun _ => Frame.pure _) s

theorem DurableJournal.record_along (journal : DurableJournal) {op : String} {state : OpState}
    (hW : state = .completed → W (trim op)) : Frame R (journal.record host op state) := by
  refine Frame.bind_of (lift_along _) (P := fun name => name.text = trim op) ?_
    fun name hname => Frame.bind Frame.get fun t s => ?_
  · intro s name s' hlift
    exact validatedOpName_eq_ok (lift_eq_ok.1 hlift).1
  refine Frame.bind_at (loadJournal_along journal) fun current s' hload => ?_
  obtain ⟨hcurrent, rfl⟩ := loadJournal_eq_ok hload
  refine writeState_along (fun op' hop' => ?_) fun op' hop' => ?_
  · exact completed_recordIn _ _ _ ((completedIn_iff hcurrent).1 hop')
  · rcases completed_of_recordIn hop' with hold | ⟨hstate, rfl⟩
    · exact .inr ⟨_, (completedIn_iff hcurrent).2 hold⟩
    · exact .inl (hname ▸ hW hstate)

theorem DurableJournal.relocate_along (journal dest : DurableJournal) :
    Frame R (journal.relocate host dest) := by
  refine Frame.ite (Frame.pure _) ?_
  refine Frame.bind (lift_along _) fun _ => Frame.bind call_id_along fun _ => ?_
  refine fun s => Frame.bind_at (loadJournal_along journal) fun staging s' hload => ?_
  obtain ⟨hstaging, rfl⟩ := loadJournal_eq_ok hload
  refine Frame.bind_at Frame.get fun t s' hget => ?_
  cases hget
  refine Frame.bind_from (writeState_along (fun op hop => ?_) fun op hop => ?_) fun _ _ _ => refl_of R _
  · -- what the destination completed is merged in
    obtain ⟨path, existing, hload, hcompleted⟩ := hop
    rw [load_path hload, merge_completed, hcompleted, Bool.or_true]
  · -- and what it completes is completed there or here
    have hhere : staging.completed op = true → W op ∨ ∃ volume, CompletedIn (s.files volume) op :=
      fun hop => .inr ⟨_, (completedIn_iff hstaging).2 hop⟩
    cases hexisting : load dest.path (Session.fileAt { s with clock := s.clock + 1 } dest) with
    | error message =>
      rw [hexisting] at hop
      exact hhere hop
    | ok existing =>
      rw [hexisting, merge_completed, Bool.or_eq_true] at hop
      rcases hop with hop | hop
      · exact hhere hop
      · exact .inr ⟨_, (completedIn_iff hexisting).2 hop⟩

theorem openDurableJournal_along : Frame R (openDurableJournal host plan) :=
  Frame.bind (settle_along espProbe_along) fun _ => Frame.bind (openJournal_along _) fun _ =>
    Frame.modify fun _ => Follows.idle rfl rfl rfl

theorem openedJournal_along : Frame R openedJournal := by
  refine Frame.bind Frame.get fun s => ?_
  split
  · exact Frame.pure _
  · exact Frame.throw _

theorem recordJournal_along {op : String} {state : OpState} (hW : state = .completed → W (trim op)) :
    Frame R (recordJournal host op state) :=
  Frame.bind openedJournal_along fun journal => journal.record_along hW

theorem recordStarted_along (op : String) : Frame R (recordJournal host op .started) :=
  recordJournal_along fun h => by cases h

theorem journalCompleted_along (op : String) : Frame R (journalCompleted host op) := by
  refine Frame.bind Frame.get fun s => ?_
  split
  · exact Frame.pure _
  · exact Frame.bind (loadJournal_along _) fun _ => Frame.pure _

section Harmless

-- every command that is harmless and restores no table may run
variable (hP : ∀ operation, Harmless operation → ¬ Restores operation → P operation)

include hP

theorem espMountpoint_along (efi : EfiPartition) :
    Frame R (espMountpoint host plan efi) := by
  unfold espMountpoint
  split
  · exact Frame.pure _
  · exact Frame.bind (executeDiskHelper_along (hP _ trivial id)) fun _ =>
      Frame.bind (executeDiskHelper_along (hP _ trivial id)) fun _ => Frame.pure _

theorem ensureEspJournal_along : Frame R (ensureEspJournal host plan) := by
  refine Frame.bind espProbe_along fun efi => ?_
  split
  · exact Frame.throw _
  · rename_i efi
    refine Frame.bind (espMountpoint_along hP efi) fun mountpoint =>
      Frame.bind openedJournal_along fun journal => Frame.ite (Frame.pure _) ?_
    exact Frame.bind (journal.relocate_along _) fun _ =>
      Frame.modify fun _ => Follows.idle rfl rfl rfl

theorem guardedTableMutation_along (hrestore : ∀ path, P (.restoreTable plan.disk path))
    {body : Phase α} (hbody : Frame R body) : Frame R (guardedTableMutation host plan body) := by
  refine Frame.bind call_id_along fun _ => Frame.bind validateTargetDisk_along fun _ =>
    Frame.bind (executeDiskHelper_along (hP _ trivial id)) fun _ =>
    Frame.bind (settle_along hbody) fun result => ?_
  split
  · exact Frame.pure _
  · refine Frame.bind (settle_along (executeDiskHelper_along (hrestore _))) fun restored => ?_
    split <;> exact Frame.throw _

theorem recordedMutation_along (hrestore : ∀ path, P (.restoreTable plan.disk path))
    (hW : W (trim "partition_table")) {body : Phase String} (hbody : Frame R body) :
    Frame R (recordedMutation host plan body) :=
  Frame.bind (recordStarted_along _) fun _ =>
    Frame.bind (guardedTableMutation_along hP hrestore hbody) fun _ =>
    Frame.bind (recordJournal_along fun _ => hW) fun _ => Frame.pure _

theorem mountEfi_along : Frame R (mountEfi host plan) := by
  refine Frame.bind diskSnapshot_along fun _ => Frame.bind diskSectorSize_along fun _ =>
    Frame.bind (lift_along _) fun efi => ?_
  split
  · exact Frame.throw _
  · rename_i efi
    refine Frame.bind (executeDiskHelper_along (hP _ trivial id)) fun _ =>
      executeDiskHelper_along ?_
    unfold efiMountOperation
    split <;> exact hP _ trivial id

theorem createSubvolumes_along : Frame R (createSubvolumes host plan) :=
  Frame.bind (Frame.forM fun _ _ => executeDiskHelper_along (hP _ trivial id)) fun _ =>
    executeDiskHelper_along (hP _ trivial id)

end Harmless

theorem prologue_along : Frame R (prologue host plan) := by
  refine Frame.ite ?_ openDurableJournal_along
  exact Frame.bind validateTargetDisk_along fun _ => Frame.bind checkStoragePreflight_along fun _ =>
    openDurableJournal_along

/-! ### Creating and shrinking partitions -/

theorem createBiosBoot_along {before : LsblkSnapshot} {start sectorSize : ℕ}
    (hcreate : P (.createUnformattedPartition plan.disk (.ofNat start) (.ofNat biosBootBytes)
      "biosboot" sectorSize))
    (hflag : ∀ number partuuid, P (.setPartitionFlag plan.disk number "bios_grub" true partuuid)) :
    Frame R (createBiosBoot host plan before start sectorSize) :=
  Frame.bind (executeDiskHelper_along hcreate) fun _ => Frame.bind diskSnapshot_along fun _ =>
    Frame.bind (lift_along _) fun _ => Frame.bind (lift_along _) fun _ =>
    Frame.bind (executeDiskHelper_along (hflag _ _)) fun _ => Frame.pure _

theorem createKythos_along {before : LsblkSnapshot} {start stop sectorSize : ℕ}
    (hcreate : start ≤ stop → P (.createPartition plan.disk (.ofNat start) (.ofNat (stop - start))
      "btrfs" "KythOS" sectorSize)) :
    Frame R (createKythos host plan before start stop sectorSize) := by
  refine Frame.ite_of (fun _ => Frame.throw _) fun hle => Frame.ite_throw ?_
  exact Frame.bind (executeDiskHelper_along (hcreate (Nat.not_lt.1 hle))) fun _ =>
    Frame.bind diskSnapshot_along fun _ => Frame.bind (lift_along _) fun _ =>
    Frame.bind (lift_along _) fun _ => Frame.pure _

/-- The commands of `create_target_partition` stay inside its region. -/
theorem createTargetPartition_along {start stop sectorSize : ℕ}
    (hunformatted : ∀ first size, (stop < 2 ^ 64 → start ≤ first ∧ first + size ≤ stop) →
      P (.createUnformattedPartition plan.disk (.ofNat first) (.ofNat size) "biosboot" sectorSize))
    (hcreate : ∀ first size, (stop < 2 ^ 64 → start ≤ first ∧ first + size ≤ stop) →
      P (.createPartition plan.disk (.ofNat first) (.ofNat size) "btrfs" "KythOS" sectorSize))
    (hflag : ∀ number partuuid, P (.setPartitionFlag plan.disk number "bios_grub" true partuuid)) :
    Frame R (createTargetPartition host plan start stop sectorSize) := by
  refine Frame.ite_throw (Frame.bind diskSnapshot_along fun before =>
    Frame.bind (lift_along _) fun hasBiosBoot => Frame.ite ?_ ?_)
  · exact createKythos_along fun hle => hcreate _ _ fun _ => ⟨le_rfl, by omega⟩
  · refine Frame.ite_of (fun _ => Frame.throw _) fun hroom => ?_
    -- the boot partition takes the first MiB of the region, the rest starts behind it
    have hboot : start + biosBootBytes ≤ stop := by
      unfold biosBootBytes at hroom ⊢
      omega
    refine Frame.bind (createBiosBoot_along (hunformatted _ _ fun _ => ⟨le_rfl, hboot⟩) hflag)
      fun _ => createKythos_along fun hle => hcreate _ _ fun hstop => ?_
    have hsum : satAddU64 start biosBootBytes = start + biosBootBytes := by
      unfold satAddU64
      omega
    rw [hsum] at hle ⊢
    omega

theorem checkedSum_along (a b : ℕ) (message : String) :
    Frame R (checkedSum a b message) := by
  unfold checkedSum
  split
  · exact Frame.pure _
  · exact Frame.throw _

theorem ntfsShrinkResumeWindow_along {snapshot : LsblkSnapshot} {probe : PartitionProbe}
    {sectorSize : ℕ} :
    Frame R (ntfsShrinkResumeWindow host plan snapshot probe sectorSize) := by
  refine Frame.bind (journalCompleted_along _) fun _ => Frame.ite (Frame.pure _) ?_
  refine Frame.ite_throw (Frame.ite_throw (Frame.ite_throw ?_))
  refine Frame.bind (checkedSum_along _ _ _) fun _ => Frame.bind (checkedSum_along _ _ _) fun _ => ?_
  exact Frame.ite_throw (Frame.ite_throw (Frame.bind (lift_along _) fun _ =>
    Frame.ite_throw (Frame.pure _)))

/-- The checks of `resize_ntfs_target` before the filesystem is shrunk. -/
structure ShrinkAllowed (plan : InstallerPlan) (probe : PartitionProbe) (sectorSize : ℕ) : Prop where
  fits : plan.resizeBytes ≤ probe.sizeBytes.toNat
  windows : minWindowsBytes ≤ probe.sizeBytes.toNat - plan.resizeBytes
  sectors : (probe.sizeBytes.toNat - plan.resizeBytes) % sectorSize = 0

theorem shrinkNtfs_along {partition : String} {probe : PartitionProbe} {sectorSize : ℕ}
    (hP : ∀ operation, Harmless operation → ¬ Restores operation → P operation)
    (hshrink : ShrinkAllowed plan probe sectorSize → ∀ stage, P (.filesystemResize partition "ntfs"
      (.ofNat (probe.sizeBytes.toNat - plan.resizeBytes)) stage))
    (hresize : ShrinkAllowed plan probe sectorSize → ∀ number start partuuid,
      P (.resizePartition plan.disk number start (.ofNat (probe.sizeBytes.toNat - plan.resizeBytes))
        sectorSize partuuid))
    (hW : W (trim "ntfs_shrink")) :
    Frame R (shrinkNtfs host plan partition probe sectorSize) := by
  refine Frame.bind (ensureEspJournal_along hP) fun _ => Frame.ite_of (fun _ => Frame.throw _)
    fun hfits => Frame.ite_of (fun _ => Frame.throw _) fun hgate => ?_
  have hallowed : ShrinkAllowed plan probe sectorSize := by
    push Not at hgate
    exact ⟨not_lt.1 hfits, hgate.1, hgate.2⟩
  refine Frame.bind (recordStarted_along _) fun _ => Frame.bind (Frame.forM fun stage _ =>
    executeStreamHelper_along (hshrink hallowed stage)) fun _ => ?_
  refine Frame.bind diskSnapshot_along fun _ => Frame.bind (lift_along _) fun _ =>
    Frame.ite_throw (Frame.bind (executeDiskHelper_along (hresize hallowed _ _ _)) fun _ => ?_)
  refine Frame.bind diskSnapshot_along fun _ => Frame.bind (lift_along _) fun _ =>
    Frame.ite_throw (Frame.bind (recordJournal_along fun _ => hW) fun _ => ?_)
  exact Frame.bind (checkedSum_along _ _ _) fun _ => Frame.bind (checkedSum_along _ _ _) fun _ => Frame.pure _

/-! ### The whole phase -/

theorem selectExisting_along : Frame R (selectExisting host plan) := by
  unfold selectExisting
  split
  · exact Frame.throw _
  · refine Frame.bind diskSectorSize_along fun _ => Frame.bind diskSnapshot_along fun _ => ?_
    refine Frame.ite (Frame.bind (lift_along _) fun _ => ?_) ?_
    all_goals exact Frame.bind (lift_along _) fun _ => Frame.pure _

section Phase

/-- The commands that create partitions, and those that are harmless. -/
structure AllowsCreation (plan : InstallerPlan) (P : DiskOperationInput → Prop) : Prop where
  harmless : ∀ operation, Harmless operation → P operation
  create : ∀ start size fs label sectorSize,
    P (.createPartition plan.disk start size fs label sectorSize)
  createUnformatted : ∀ start size label sectorSize,
    P (.createUnformattedPartition plan.disk start size label sectorSize)
  flag : ∀ number flag enabled partuuid,
    P (.setPartitionFlag plan.disk number flag enabled partuuid)

/-- The commands of the storage phase besides the format of the target. -/
structure AllowsMutation (plan : InstallerPlan) (P : DiskOperationInput → Prop) : Prop
    extends AllowsCreation plan P where
  shrink : ∀ device fs newSize stage, P (.filesystemResize device fs newSize stage)
  resize : ∀ number start newSize sectorSize partuuid,
    P (.resizePartition plan.disk number start newSize sectorSize partuuid)

omit hR in
theorem allowsMutation_all (plan : InstallerPlan) : AllowsMutation plan fun _ => True :=
  ⟨⟨fun _ _ => trivial, fun _ _ _ _ _ => trivial, fun _ _ _ _ => trivial, fun _ _ _ _ => trivial⟩,
    fun _ _ _ _ => trivial, fun _ _ _ _ _ => trivial⟩

theorem createInRegion_along (hP : AllowsCreation plan P) (start stop sectorSize : ℕ) :
    Frame R (createTargetPartition host plan start stop sectorSize) :=
  createTargetPartition_along (fun _ _ _ => hP.createUnformatted _ _ _ _)
    (fun _ _ _ => hP.create _ _ _ _ _) fun _ _ => hP.flag _ _ _ _

theorem createInFreeSpace_along (hP : AllowsCreation plan P) (hW : W (trim "partition_table")) :
    Frame R (createInFreeSpace host plan) := by
  unfold createInFreeSpace
  split
  · exact Frame.throw _
  · exact Frame.throw _
  · refine Frame.bind diskSnapshot_along fun _ => Frame.bind diskSectorSize_along fun _ =>
      Frame.bind (lift_along _) fun _ => Frame.ite_throw ?_
    exact recordedMutation_along (fun _ h _ => hP.harmless _ h) (fun _ => hP.harmless _ trivial) hW
      (createInRegion_along hP _ _ _)

variable (hP : AllowsMutation plan P) (hW : ∀ op, W op)

include hP hW

theorem resizeNtfsTarget_along : Frame R (resizeNtfsTarget host plan) := by
  refine Frame.ite_throw ?_
  split
  · exact Frame.throw _
  · refine Frame.bind diskSectorSize_along fun _ => Frame.bind diskSnapshot_along fun _ =>
      Frame.bind (lift_along _) fun _ => Frame.ite_throw (Frame.ite_throw ?_)
    refine Frame.bind ntfsShrinkResumeWindow_along fun window => ?_
    split
    · exact createInRegion_along hP.toAllowsCreation _ _ _
    · refine Frame.bind (shrinkNtfs_along (fun _ h _ => hP.harmless _ h) (fun _ _ => hP.shrink _ _ _ _)
        (fun _ _ _ _ => hP.resize _ _ _ _ _) (hW _)) fun ends => ?_
      exact createInRegion_along hP.toAllowsCreation _ _ _

theorem selectTarget_along : Frame R (selectTarget host plan) := by
  unfold selectTarget
  split
  · exact Frame.pure _
  · exact Frame.bind selectExisting_along fun _ => Frame.pure _
  · exact Frame.bind selectExisting_along fun _ => Frame.pure _
  · exact Frame.bind (createInFreeSpace_along hP.toAllowsCreation (hW _)) fun _ => Frame.pure _
  · exact Frame.bind (recordedMutation_along (fun _ h _ => hP.harmless _ h)
      (fun _ => hP.harmless _ trivial) (hW _) (resizeNtfsTarget_along hP hW)) fun _ => Frame.pure _

end Phase

theorem probeTarget_along : Frame R (probeTarget host plan) := by
  unfold probeTarget
  split
  · exact Frame.throw _
  · exact Frame.bind diskSnapshot_along fun _ => Frame.bind diskSectorSize_along fun _ =>
      Frame.bind (lift_along _) fun _ => Frame.pure _

/-- `prepare_btrfs_target` behind the format. -/
def mountTarget (host : Host) (plan : InstallerPlan) (target : String) : Phase Unit := do
  recordJournal host "format" .completed
  executeDiskHelper host plan (.ensureDirectory btrfsStagingMountpoint)
  executeDiskHelper host plan (.mountFilesystem target btrfsStagingMountpoint [] false)
  let temporarySetup ← settle (createSubvolumes host plan)
  let cleanup ← settle (executeDiskHelper host plan
    (.unmountFilesystem btrfsStagingMountpoint true true))
  lift temporarySetup
  lift cleanup
  executeDiskHelper host plan (.ensureDirectory filesystemStagingMountpoint)
  executeDiskHelper host plan
    (.mountFilesystem target filesystemStagingMountpoint ["subvol=@"] false)
  mountEfi host plan
  ensureEspJournal host plan

omit hR in
theorem prepareBtrfsTarget_eq (host : Host) (plan : InstallerPlan) (target : String) :
    prepareBtrfsTarget host plan target = (do
      call host id
      validateTargetDisk host
      let device ← probeTarget host plan
      recordJournal host "format" .started
      executeDiskHelper host plan (.formatFilesystem device "btrfs" "KythOS" plan.disk)
      mountTarget host plan device) := rfl

/-- Behind the format there are harmless commands only. -/
theorem mountTarget_along {target : String}
    (hP : ∀ operation, Harmless operation → ¬ Restores operation → P operation)
    (hW : W (trim "format")) : Frame R (mountTarget host plan target) := by
  have hrun : ∀ operation, Harmless operation → ¬ Restores operation →
      Frame R (executeDiskHelper host plan operation) :=
    fun operation hoperation hrestores => executeDiskHelper_along (hP operation hoperation hrestores)
  refine Frame.bind (recordJournal_along fun _ => hW) fun _ => Frame.bind (hrun _ trivial id) fun _ =>
    Frame.bind (hrun _ trivial id) fun _ => ?_
  refine Frame.bind (settle_along (createSubvolumes_along hP)) fun _ =>
    Frame.bind (settle_along (hrun _ trivial id)) fun _ => Frame.bind (lift_along _) fun _ =>
    Frame.bind (lift_along _) fun _ => Frame.bind (hrun _ trivial id) fun _ => ?_
  exact Frame.bind (hrun _ trivial id) fun _ => Frame.bind (mountEfi_along hP) fun _ =>
    ensureEspJournal_along hP

/-- `prepare_btrfs_target` formats what its own probe returns. -/
theorem prepareBtrfsTarget_along {target : String} {Q : String → Prop}
    (hP : ∀ operation, Harmless operation → ¬ Restores operation → P operation)
    (hprobe : ∀ {s device s'}, probeTarget host plan s = (.ok device, s') → Q device)
    (hformat : ∀ device, Q device → P (.formatFilesystem device "btrfs" "KythOS" plan.disk))
    (hW : W (trim "format")) :
    Frame R (prepareBtrfsTarget host plan target) := by
  refine Frame.bind call_id_along fun _ => Frame.bind validateTargetDisk_along fun _ =>
    Frame.bind_of probeTarget_along hprobe fun device hdevice => ?_
  exact Frame.bind (recordStarted_along _) fun _ =>
    Frame.bind (executeDiskHelper_along (hformat device hdevice)) fun _ => mountTarget_along hP hW

theorem executeStorage_along (hP : AllowsMutation plan P) (hW : ∀ op, W op)
    (hformat : ∀ device, P (.formatFilesystem device "btrfs" "KythOS" plan.disk)) :
    Frame R (executeStorage host plan) := by
  refine Frame.bind prologue_along fun _ => Frame.bind (selectTarget_along hP hW) fun target => ?_
  split
  · exact Frame.pure _
  · refine Frame.bind ?_ fun _ => Frame.modify fun _ => Follows.idle rfl rfl rfl
    exact prepareBtrfsTarget_along (Q := fun _ => True) (fun _ h _ => hP.harmless _ h) (fun _ => trivial)
      (fun device _ => hformat device) (hW _)

end Kyth.Executor

import Kyth.Installer.ShrinkGeometry

/-!
# The record of a shrink and the places of the partitions

A resumed install trusts two things: the journal, which says that a shrink was completed, and the disk,
which says where the partition ends. Only the shrink itself completes its record, and only a resize or a
restored table moves the end of a partition.

* `Calm`: steps that complete no shrink and move no partition;
* `resizeNtfsTarget_shrunk`: what a guided install leaves. Either it has not completed the record, or
  the partition has given up as much as the plan asks for.
-/

namespace Kyth.Executor

open Str Word Storage Disk Durable
open Kyth.Action (Frame bind_eq_ok guard_eq_ok bind_leaves guard_leaves)
open Kyth.Plan (InstallerPlan InstallMode)

variable {host : Host} {plan : InstallerPlan} {s s' : Session} {wanted : String}

/-! ### The place of a partition -/

/-- The start and the size of a probed partition, in bytes. -/
def placeOf (probe : PartitionProbe) : ℕ × ℕ := (probe.startBytes.toNat, probe.sizeBytes.toNat)

/-- The place of a partition on the disk. -/
def Drive.place (drive : Drive) (wanted : String) : Option (ℕ × ℕ) :=
  (findPartitionIn wanted drive.partitions).map placeOf

/-- Every partition keeps its place. -/
def KeepsPlaces (drive drive' : Drive) : Prop :=
  ∀ wanted place, drive.place wanted = some place → drive'.place wanted = some place

/-- A change of an entry that leaves it the same partition, of a size that satisfies `S`. -/
structure SameEntry (S : UInt64 → UInt64 → Prop) (device device' : LsblkDevice) : Prop where
  name : device'.name = device.name
  deviceType : device'.deviceType = device.deviceType
  partn : device'.partn = device.partn
  start : device'.start = device.start
  children : device'.children = device.children
  size : S (device.size.getD 0) (device'.size.getD 0)

section Find

variable {S : UInt64 → UInt64 → Prop} {probe : PartitionProbe}

/-- The probe of a changed entry. -/
theorem SameEntry.probeOf {device device' : LsblkDevice} (h : SameEntry S device device')
    (hprobe : probeOf device = some probe) :
    ∃ probe', Storage.probeOf device' = some probe' ∧ probe'.startBytes = probe.startBytes ∧
      S probe.sizeBytes probe'.sizeBytes := by
  simp only [Storage.probeOf, Option.bind_eq_bind, Option.bind_eq_some_iff] at hprobe
  obtain ⟨name, hname, number, hnumber, hprobe⟩ := hprobe
  cases hprobe
  have hpath : device'.path = some name := by rw [← hname, LsblkDevice.path, LsblkDevice.path, h.name]
  have hpartn : device'.partn = some number := h.partn.trans hnumber
  have hstart : startBytesOf device' = startBytesOf device := by
    rw [startBytesOf, startBytesOf, h.start]
  simp only [Storage.probeOf, hpath, hpartn, Option.bind_eq_bind, Option.bind_some]
  exact ⟨_, rfl, hstart, h.size⟩

theorem SameEntry.findPartition [Std.Refl S] {device device' : LsblkDevice}
    (h : SameEntry S device device') (hprobe : findPartition wanted device = some probe) :
    ∃ probe', Storage.findPartition wanted device' = some probe' ∧
      probe'.startBytes = probe.startBytes ∧ S probe.sizeBytes probe'.sizeBytes := by
  obtain ⟨columns, children⟩ := device
  obtain ⟨columns', children'⟩ := device'
  obtain ⟨hname, htype, -, -, hchildren, -⟩ := id h
  simp only at hname htype hchildren
  subst hchildren
  rw [Storage.findPartition] at hprobe ⊢
  rw [hname, htype]
  by_cases hmatch : columns.deviceType = some "part" ∧
      normalizeDevicePath (columns.name.getD "") = some wanted
  · rw [if_pos hmatch] at hprobe ⊢
    exact h.probeOf hprobe
  · rw [if_neg hmatch] at hprobe ⊢
    exact ⟨probe, hprobe, rfl, refl_of S _⟩

instance reflTrue : Std.Refl fun _ _ : UInt64 => True := ⟨fun _ => trivial⟩

theorem SameEntry.back {device device' : LsblkDevice} (h : SameEntry S device device') :
    SameEntry (fun _ _ => True) device' device :=
  ⟨h.name.symm, h.deviceType.symm, h.partn.symm, h.start.symm, h.children.symm, trivial⟩

/-- A partition is found again among the changed entries. -/
theorem findPartitionIn_map [Std.Refl S] {g : LsblkDevice → LsblkDevice}
    (hg : ∀ device, SameEntry S device (g device)) {devices : List LsblkDevice}
    (h : findPartitionIn wanted devices = some probe) :
    ∃ probe', findPartitionIn wanted (devices.map g) = some probe' ∧
      probe'.startBytes = probe.startBytes ∧ S probe.sizeBytes probe'.sizeBytes := by
  induction devices with
  | nil => cases h
  | cons device devices ih =>
    rw [List.map_cons, findPartitionIn]
    rw [findPartitionIn] at h
    cases hfirst : findPartition wanted device with
    | some first =>
      rw [hfirst] at h
      cases h
      obtain ⟨probe', hprobe', hplace⟩ := (hg device).findPartition hfirst
      exact ⟨probe', by rw [hprobe'], hplace⟩
    | none =>
      rw [hfirst] at h
      cases hfirst' : findPartition wanted (g device) with
      | none => exact ih h
      | some first =>
        -- what is found in the changed entry would have been found in the entry
        obtain ⟨probe', hprobe', -⟩ := (hg device).back.findPartition hfirst'
        rw [hfirst] at hprobe'
        cases hprobe'

theorem findPartitionIn_append {devices more : List LsblkDevice}
    (h : findPartitionIn wanted devices = some probe) :
    findPartitionIn wanted (devices ++ more) = some probe := by
  induction devices with
  | nil => cases h
  | cons device devices ih =>
    rw [List.cons_append, findPartitionIn]
    rw [findPartitionIn] at h
    cases hfirst : findPartition wanted device with
    | some first => rwa [hfirst] at h
    | none =>
      rw [hfirst] at h
      exact ih h

end Find

/-- A command that may move the end of a partition. -/
def MovesPartition : DiskOperationInput → Prop
  | .createLabel .. | .deletePartition .. | .resizePartition .. | .restoreTable .. => True
  | _ => False

theorem KeepsPlaces.mapIf {drive : Drive} {p : LsblkDevice → Bool} {f : LsblkDevice → LsblkDevice}
    (hf : ∀ device, SameEntry Eq device (f device)) : KeepsPlaces drive (drive.mapIf p f) := by
  intro wanted place hplace
  obtain ⟨probe, hprobe, rfl⟩ := Option.map_eq_some_iff.1 hplace
  have hg : ∀ device, SameEntry Eq device (if p device then f device else device) := by
    intro device
    split_ifs
    · exact hf device
    · exact ⟨rfl, rfl, rfl, rfl, rfl, rfl⟩
  obtain ⟨probe', hprobe', hstart, hsize⟩ := findPartitionIn_map hg hprobe
  refine Option.map_eq_some_iff.2 ⟨probe', hprobe', ?_⟩
  rw [placeOf, placeOf, hstart, hsize]

theorem KeepsPlaces.create {drive : Drive} (columns : LsblkColumns) (disk : String)
    (start size : UInt64) : KeepsPlaces drive (drive.create columns disk start size) := by
  intro wanted place hplace
  obtain ⟨probe, hprobe, rfl⟩ := Option.map_eq_some_iff.1 hplace
  exact Option.map_eq_some_iff.2 ⟨probe, findPartitionIn_append hprobe, rfl⟩

theorem KeepsPlaces.refl (drive : Drive) : KeepsPlaces drive drive := fun _ _ h => h

/-- Every other command leaves the partitions where they are. -/
theorem KeepsPlaces.apply {drive : Drive} {columns : LsblkColumns} {operation : DiskOperationInput}
    (h : ¬ MovesPartition operation) : KeepsPlaces drive (drive.apply columns operation) := by
  cases operation with
  | createLabel | deletePartition | resizePartition | restoreTable => exact absurd trivial h
  | createPartition | createUnformattedPartition => exact .create _ _ _ _
  | setPartitionFlag | formatFilesystem | mountFilesystem | unmountFilesystem =>
    exact .mapIf fun _ => ⟨rfl, rfl, rfl, rfl, rfl, rfl⟩
  | _ => exact .refl drive

theorem KeepsPlaces.applySession {operation : DiskOperationInput} (h : ¬ MovesPartition operation) :
    KeepsPlaces s.drive (s.apply host operation).drive := by
  cases operation with
  | backupTable => exact .refl _
  | restoreTable => exact absurd trivial h
  | _ => exact KeepsPlaces.apply h

/-! ### Calm steps -/

/-- Some journal says that the shrink was completed. -/
def Recorded (s : Session) : Prop := ∃ volume, CompletedIn (s.files volume) "ntfs_shrink"

/-- No journal says so that did not before. -/
def RecordsNothing (s s' : Session) : Prop := Recorded s' → Recorded s

/-- The partitions keep their places, and no shrink is completed. -/
structure Calm (s s' : Session) : Prop where
  places : KeepsPlaces s.drive s'.drive
  recorded : RecordsNothing s s'
  ran : s.ran ⊆ s'.ran

/-- A journal that completes no shrink. -/
theorem RecordsNothing.write {journal : DurableJournal} {state : JournalState}
    (h : ∀ op, state.completed op = true → op ≠ "ntfs_shrink" ∨
      ∃ volume, CompletedIn (s.files volume) op) : RecordsNothing s (s.write journal state) := by
  rintro ⟨volume, hvolume⟩
  by_cases hwritten : volume = s.drive.volumeAt journal.directory
  · subst hwritten
    have hfile : (s.write journal state).files (s.drive.volumeAt journal.directory) =
        .document state.document := write_fileAt journal state
    rw [hfile, completedIn_iff (load_document "" state)] at hvolume
    rcases h _ hvolume with hne | hold
    · exact absurd rfl hne
    · exact hold
  · have hfile : (s.write journal state).files volume = s.files volume :=
      Function.update_of_ne hwritten _ _
    rw [hfile] at hvolume
    exact ⟨volume, hvolume⟩

theorem RecordsNothing.of_files (h : s'.files = s.files) : RecordsNothing s s' := by
  rintro ⟨volume, hvolume⟩
  rw [h] at hvolume
  exact ⟨volume, hvolume⟩

instance : Follows RecordsNothing (fun _ => True) (· ≠ "ntfs_shrink") where
  refl _ := .of_files rfl
  trans _ _ _ h h' hrecorded := h (h' hrecorded)
  idle _ hfiles _ := .of_files hfiles
  command _ _ _ := ⟨.of_files rfl, .of_files (apply_files _)⟩
  write _ hnew := .write hnew

instance : Follows Calm (fun operation => ¬ MovesPartition operation) (· ≠ "ntfs_shrink") where
  refl _ := ⟨.refl _, .of_files rfl, List.Subset.refl _⟩
  trans _ _ _ h h' :=
    ⟨fun wanted place hplace => h'.places wanted place (h.places wanted place hplace),
      fun hrecorded => h.recorded (h'.recorded hrecorded), List.Subset.trans h.ran h'.ran⟩
  idle hdrive hfiles hran :=
    ⟨by rw [hdrive]; exact .refl _, .of_files hfiles, by rw [hran]; exact List.Subset.refl _⟩
  command _ _ h := by
    refine ⟨⟨.refl _, .of_files rfl, List.subset_cons_self _ _⟩, ?_, .of_files (apply_files _), ?_⟩
    · exact fun wanted place hplace => KeepsPlaces.applySession h wanted place hplace
    · rw [apply_ran]
      exact List.subset_cons_self _ _
  write _ hnew := ⟨.refl _, .write hnew, List.Subset.refl _⟩

/-- A harmless command that restores no table moves nothing. -/
theorem not_movesPartition_of_harmless {operation : DiskOperationInput} (h : Harmless operation)
    (hrestores : ¬ Restores operation) : ¬ MovesPartition operation := by
  cases operation with
  | restoreTable disk path => exact absurd trivial hrestores
  | createLabel | deletePartition | resizePartition => exact h.elim
  | _ => exact id

/-- A command that saves the table. -/
def SavesTable : DiskOperationInput → Prop
  | .backupTable .. => True
  | _ => False

theorem apply_drive_of_savesTable {operation : DiskOperationInput} (h : SavesTable operation) :
    (s.apply host operation).drive = s.drive := by
  cases operation with
  | backupTable => rfl
  | _ => exact h.elim

/-- Steps that leave the disk alone. -/
def SameDrive (s s' : Session) : Prop := s'.drive = s.drive

instance : Follows SameDrive SavesTable fun _ => True where
  refl _ := rfl
  trans _ _ _ h h' := Eq.trans h' h
  idle hdrive _ _ := hdrive
  command _ _ h := ⟨rfl, apply_drive_of_savesTable h⟩
  write _ _ := rfl

/-- Steps that leave the disk alone and complete no shrink. -/
structure Steady (s s' : Session) : Prop where
  drive : s'.drive = s.drive
  recorded : RecordsNothing s s'

instance : Follows Steady SavesTable (· ≠ "ntfs_shrink") where
  refl _ := ⟨rfl, .of_files rfl⟩
  trans _ _ _ h h' := ⟨h'.drive.trans h.drive, fun hrecorded => h.recorded (h'.recorded hrecorded)⟩
  idle hdrive hfiles _ := ⟨hdrive, .of_files hfiles⟩
  command _ _ h := ⟨⟨rfl, .of_files rfl⟩, apply_drive_of_savesTable h, .of_files (apply_files _)⟩
  write _ hnew := ⟨rfl, .write hnew⟩

/-! ### What a step that succeeds leaves -/

theorem call_eq_ok {effect : Session → Session} (h : call host effect s = (.ok (), s')) :
    s' = effect { s with clock := s.clock + 1 } := by
  unfold call at h
  split at h
  · exact (congrArg Prod.snd h).symm
  all_goals
    dsimp only at h
    cases (congrArg Prod.fst h)

theorem appendPartitionStep_eq_ok {operation : DiskOperationInput}
    (h : appendPartitionStep host operation s = (.ok (), s')) : ∃ clock, s' = { s with clock := clock } := by
  unfold appendPartitionStep at h
  split_ifs at h
  · exact ⟨_, call_eq_ok h⟩
  · cases h
    exact ⟨s.clock, rfl⟩

/-- A command that succeeds has its effect. -/
theorem executeDiskHelper_eq_ok {operation : DiskOperationInput}
    (h : executeDiskHelper host plan operation s = (.ok (), s')) :
    ∃ clock clock', s' = { Session.apply { s with ran := operation :: s.ran, clock := clock } host
      operation with clock := clock' } := by
  unfold executeDiskHelper runHelper at h
  obtain ⟨⟨⟩, s₁, hfirst, h⟩ := bind_eq_ok.1 h
  obtain ⟨clock, rfl⟩ := appendPartitionStep_eq_ok hfirst
  obtain ⟨t, s₂, hget, h⟩ := bind_eq_ok.1 h
  cases hget
  cases hplan : Disk.buildPlan (probes host plan { s with clock := clock }) operation with
  | error message =>
    simp only [hplan] at h
    cases h
  | ok diskPlan =>
    simp only [hplan] at h
    obtain ⟨⟨⟩, s₃, hmodify, h⟩ := bind_eq_ok.1 h
    cases hmodify
    obtain ⟨⟨⟩, s₄, hcall, h⟩ := bind_eq_ok.1 h
    obtain rfl := call_eq_ok hcall
    obtain ⟨clock', rfl⟩ := appendPartitionStep_eq_ok h
    exact ⟨_, clock', rfl⟩

/-- A probe of the disk finds the partition there. -/
theorem findPartitionIn_of_probe {drive : Drive} {disk partition : String} {sectorSize : ℕ}
    {probe : PartitionProbe}
    (h : partitionProbeFromSnapshot (drive.snapshot disk) disk partition sectorSize = .ok probe) :
    ∃ wanted, normalizeDevicePath partition = some wanted ∧
      findPartitionIn wanted drive.partitions = some probe := by
  unfold partitionProbeFromSnapshot at h
  obtain ⟨⟨⟩, -, h⟩ := Check.bind_eq_ok.1 h
  cases hdisk : normalizeDevicePath disk with
  | none => simp [hdisk] at h
  | some disk' =>
    cases hwanted : normalizeDevicePath partition with
    | none => simp [hdisk, hwanted] at h
    | some wanted =>
      refine ⟨wanted, rfl, ?_⟩
      simp only [hdisk, hwanted] at h
      cases hroot : findDisk (drive.snapshot disk) disk' with
      | none => simp [hroot] at h
      | some root =>
        have hentry : root = drive.entry disk :=
          List.mem_singleton.1 (List.mem_of_find?_eq_some hroot)
        subst hentry
        cases hfound : findPartition wanted (drive.entry disk) with
        | none => simp [hroot, hfound] at h
        | some found =>
          simp only [hroot, hfound] at h
          cases h
          rwa [Drive.entry, findPartition, if_neg (by simp)] at hfound

/-! ### The shrink -/

/-- The partition has given up as much as the plan asks for, at its end. -/
def Shrunk (plan : InstallerPlan) (wanted : String) (s s' : Session) : Prop :=
  ∃ start size, s.drive.place wanted = some (start, size) ∧ plan.resizeBytes ≤ size ∧
    s'.drive.place wanted = some (start, size - plan.resizeBytes)

/-- A step that completes no shrink, in a run that has completed none. -/
theorem RecordsNothing.then {α β : Type} {t : Session} {x : Phase α} {f : α → Phase β}
    {Q : Session → Prop} (h : RecordsNothing s t) (hx : Frame RecordsNothing x)
    (hQ : ∀ s', RecordsNothing s s' → Q s')
    (hok : ∀ a s', x t = (.ok a, s') → RecordsNothing s s' → Q (f a s').2) : Q ((x >>= f) t).2 := by
  refine bind_leaves (fun e s' hrun => ?_) fun a s' hrun => ?_
  · exact hQ s' fun hrecorded => h (hx.of_eq hrun hrecorded)
  · exact hok a s' hrun fun hrecorded => h (hx.of_eq hrun hrecorded)

/-- A calm step, in a run that has been calm. -/
theorem Calm.then {α β : Type} {t : Session} {x : Phase α} {f : α → Phase β} {Q : Session → Prop}
    (h : Calm s t) (hx : Frame Calm x) (hQ : ∀ s', RecordsNothing s s' → Q s')
    (hok : ∀ a s', x t = (.ok a, s') → Calm s s' → Q (f a s').2) : Q ((x >>= f) t).2 := by
  refine bind_leaves (fun e s' hrun => ?_) fun a s' hrun => ?_
  · exact hQ s' (IsTrans.trans (r := Calm) _ _ _ h (hx.of_eq hrun)).recorded
  · exact hok a s' hrun (IsTrans.trans (r := Calm) _ _ _ h (hx.of_eq hrun))

/-- A resize of some partition leaves a partition its size or gives it the new one. -/
theorem place_resize {drive : Drive} {columns : LsblkColumns} {disk partuuid : String} {number : UInt32}
    {first newSize : UInt64} {sectorSize : ℕ} {probe : PartitionProbe}
    (h : findPartitionIn wanted drive.partitions = some probe) :
    ∃ probe', findPartitionIn wanted (drive.apply columns
        (.resizePartition disk number first newSize sectorSize partuuid)).partitions = some probe' ∧
      probe'.startBytes = probe.startBytes ∧
      (probe'.sizeBytes = probe.sizeBytes ∨ probe'.sizeBytes = newSize) := by
  have hrefl : Std.Refl fun a b : UInt64 => b = a ∨ b = newSize := ⟨fun _ => .inl rfl⟩
  refine findPartitionIn_map (S := fun a b => b = a ∨ b = newSize) (fun device => ?_) h
  dsimp only
  split_ifs
  · exact ⟨rfl, rfl, rfl, rfl, rfl, .inr rfl⟩
  · exact ⟨rfl, rfl, rfl, rfl, rfl, .inl rfl⟩

theorem shrinkNtfs_shrunk {partition : String} {probe : PartitionProbe} {sectorSize : ℕ}
    (hwanted : normalizeDevicePath partition = some wanted)
    (hprobe : findPartitionIn wanted s.drive.partitions = some probe)
    (hbytes : sectorSize < plan.resizeBytes) :
    RecordsNothing s (shrinkNtfs host plan partition probe sectorSize s).2 ∨
      Shrunk plan wanted s (shrinkNtfs host plan partition probe sectorSize s).2 := by
  have hmild : ∀ operation, Harmless operation → ¬ Restores operation → ¬ MovesPartition operation :=
    fun _ h h' => not_movesPartition_of_harmless h h'
  have hplace : s.drive.place wanted = some (placeOf probe) := by
    rw [Drive.place, hprobe, Option.map_some]
  generalize hQ : (fun s' => RecordsNothing s s' ∨ Shrunk plan wanted s s') = Q
  have hcalm : ∀ s', RecordsNothing s s' → Q s' := fun s' h => hQ ▸ Or.inl h
  suffices hshrink : Q (shrinkNtfs host plan partition probe sectorSize s).2 by
    rw [← hQ] at hshrink
    exact hshrink
  unfold shrinkNtfs
  refine (refl_of Calm s).then (ensureEspJournal_along hmild) hcalm fun _ s₁ _ h₁ => ?_
  refine guard_leaves (hcalm _ h₁.recorded) fun hfits => ?_
  refine guard_leaves (hcalm _ h₁.recorded) fun _ => ?_
  refine h₁.then (recordStarted_along _) hcalm fun _ s₂ _ h₂ => ?_
  refine h₂.then (Frame.forM fun stage _ => executeStreamHelper_along id) hcalm fun _ s₃ _ h₃ => ?_
  refine h₃.then diskSnapshot_along hcalm fun fresh s₄ hfresh h₄ => ?_
  refine h₄.then (lift_along _) hcalm fun freshProbe s₅ _ h₅ => ?_
  refine guard_leaves (hcalm _ h₅.recorded) fun _ => ?_
  -- from here on the partition is smaller, whether the record is completed or not
  have hplace₅ := h₅.places wanted _ hplace
  obtain ⟨probe₅, hprobe₅, hplaces⟩ := Option.map_eq_some_iff.1 hplace₅
  refine h₅.recorded.then (executeDiskHelper_along trivial) hcalm fun _ s₆ hresize h₆ => ?_
  obtain ⟨probe₆, hprobe₆, hstart₆, hsize₆⟩ :
      ∃ probe₆, findPartitionIn wanted s₆.drive.partitions = some probe₆ ∧
        probe₆.startBytes = probe₅.startBytes ∧ (probe₆.sizeBytes = probe₅.sizeBytes ∨
          probe₆.sizeBytes = .ofNat (probe.sizeBytes.toNat - plan.resizeBytes)) := by
    have hdrive : s₆.drive = s₅.drive.apply (host.newPartition s₅.drive)
        (.resizePartition plan.disk freshProbe.number freshProbe.startBytes
          (.ofNat (probe.sizeBytes.toNat - plan.resizeBytes)) sectorSize freshProbe.partuuid) := by
      obtain ⟨clock, clock', rfl⟩ := executeDiskHelper_eq_ok hresize
      rfl
    rw [hdrive]
    exact place_resize hprobe₅
  refine h₆.then diskSnapshot_along hcalm fun after s₇ hafter h₇ => ?_
  obtain ⟨rfl, hdrive₇⟩ := diskSnapshot_eq_ok hafter
  refine h₇.then (lift_along _) hcalm fun resized s₈ hlift h₈ => ?_
  obtain ⟨hresized, rfl⟩ := lift_eq_ok.1 hlift
  refine guard_leaves (hcalm _ h₈) fun hmatch => ?_
  obtain ⟨wanted', hwanted', hfound⟩ := findPartitionIn_of_probe hresized
  cases hwanted.symm.trans hwanted'
  cases hprobe₆.symm.trans hfound
  have hplace₈ : s₈.drive.place wanted =
      some (probe.startBytes.toNat, probe.sizeBytes.toNat - plan.resizeBytes) := by
    obtain ⟨hstart, hsize⟩ := Prod.mk.inj hplaces
    rw [hdrive₇, Drive.place, hprobe₆, Option.map_some, placeOf, hstart₆, hstart]
    -- the old size is too far away from the new one to be confirmed
    rcases hsize₆ with hold | hnew
    · rw [hold, hsize] at hmatch
      unfold absDiff at hmatch
      omega
    · have hlt := probe.sizeBytes.toNat_lt
      rw [hnew, UInt64.toNat_ofNat', Nat.mod_eq_of_lt (by omega)]
  rw [← hQ]
  refine .inr ⟨_, _, hplace, not_lt.1 hfits, ?_⟩
  rw [← hplace₈]
  refine congrArg (fun drive => Drive.place drive wanted) ?_
  exact (Frame.bind (recordJournal_along fun _ => trivial) fun _ =>
    Frame.bind (checkedSum_along _ _ _) fun _ => Frame.bind (checkedSum_along _ _ _) fun _ =>
    Frame.pure _ : Frame SameDrive _) s₈

/-! ### A whole attempt -/

/-- The partition that a plan shrinks. -/
def shrunkPartition (plan : InstallerPlan) : String :=
  (plan.resizePartition.bind normalizeDevicePath).getD ""

/-- What an attempt leaves: it has completed no shrink, or the partition is smaller by what the plan asks
for, or a table was restored. -/
def Leaves (plan : InstallerPlan) (s s' : Session) : Prop :=
  RecordsNothing s s' ∨ Shrunk plan (shrunkPartition plan) s s' ∨ ∃ operation ∈ s'.ran, Restores operation

/-- Calm steps may follow. -/
theorem Leaves.calm {t : Session} (h : Leaves plan s t) (hcalm : Calm t s') : Leaves plan s s' := by
  rcases h with hnothing | ⟨start, size, hplace, hle, hnew⟩ | ⟨operation, hran, hrestores⟩
  · exact .inl fun hrecorded => hnothing (hcalm.recorded hrecorded)
  · exact .inr (.inl ⟨start, size, hplace, hle, hcalm.places _ _ hnew⟩)
  · exact .inr (.inr ⟨operation, hcalm.ran hran, hrestores⟩)

/-- Steady steps may come first. -/
theorem Leaves.steady {t : Session} (hsteady : Steady s t) (h : Leaves plan t s') :
    Leaves plan s s' := by
  rcases h with hnothing | ⟨start, size, hplace, hle, hnew⟩ | hrestored
  · exact .inl fun hrecorded => hsteady.recorded (hnothing hrecorded)
  · rw [hsteady.drive] at hplace
    exact .inr (.inl ⟨start, size, hplace, hle, hnew⟩)
  · exact .inr (.inr hrestored)

theorem Leaves.then_calm {α β : Type} {t : Session} {x : Phase α} {f : α → Phase β}
    (hx : Leaves plan s (x t).2) (hf : ∀ a, Frame Calm (f a)) : Leaves plan s ((x >>= f) t).2 := by
  refine bind_leaves (fun e s' hrun => ?_) fun a s' hrun => ?_
  · rwa [hrun] at hx
  · rw [hrun] at hx
    exact hx.calm (hf a s')

theorem Leaves.after_steady {α β : Type} {x : Phase α} {f : α → Phase β} (hx : Frame Steady x)
    (hf : ∀ a s', x s = (.ok a, s') → Leaves plan s' (f a s').2) : Leaves plan s ((x >>= f) s).2 := by
  refine bind_leaves (fun e s' hrun => ?_) fun a s' hrun => ?_
  · exact .inl (hx.of_eq hrun).recorded
  · exact .steady (hx.of_eq hrun) (hf a s' hrun)

theorem diskSectorSize_eq_ok {sectorSize : ℕ} (h : diskSectorSize host s = (.ok sectorSize, s')) :
    supportedSectorSize sectorSize = true ∧ s' = { s with clock := s.clock + 1 } := by
  obtain ⟨⟨⟩, s₁, hask, h⟩ := bind_eq_ok.1 h
  obtain ⟨hsector, h⟩ := guard_eq_ok.1 h
  cases h
  exact ⟨by simpa using hsector, ask_eq_ok hask⟩

theorem diskSectorSize_value {sectorSize : ℕ} (h : diskSectorSize host s = (.ok sectorSize, s')) :
    sectorSize = host.sectorSize := by
  obtain ⟨⟨⟩, s₁, -, h⟩ := bind_eq_ok.1 h
  obtain ⟨-, h⟩ := guard_eq_ok.1 h
  exact (Except.ok.inj (Prod.mk.inj h).1).symm

theorem createInRegion_calm (start stop sectorSize : ℕ) :
    Frame Calm (createTargetPartition host plan start stop sectorSize) :=
  createTargetPartition_along (fun _ _ _ => id) (fun _ _ _ => id) fun _ _ => id

/-- The body of a guided install. -/
theorem resizeNtfsTarget_leaves (hbytes : 4096 < plan.resizeBytes) :
    Leaves plan s (resizeNtfsTarget host plan s).2 := by
  unfold resizeNtfsTarget
  refine guard_leaves (.inl id) fun _ => ?_
  cases hpartition : plan.resizePartition with
  | none => exact .inl id
  | some partition =>
    refine .after_steady diskSectorSize_along fun sectorSize s₁ hsector => ?_
    refine .after_steady diskSnapshot_along fun before s₂ hbefore => ?_
    obtain ⟨rfl, hs₂⟩ := diskSnapshot_eq_ok hbefore
    refine .after_steady (lift_along _) fun probe s₃ hlift => ?_
    obtain ⟨hprobe, rfl⟩ := lift_eq_ok.1 hlift
    obtain ⟨wanted, hwanted, hfound⟩ := findPartitionIn_of_probe hprobe
    refine guard_leaves (.inl id) fun _ => guard_leaves (.inl id) fun _ => ?_
    have hsize := supportedSectorSize_le (diskSectorSize_eq_ok hsector).1
    refine .after_steady ntfsShrinkResumeWindow_along fun window s₄ hwindow => ?_
    have hdrive := ((ntfsShrinkResumeWindow_along : Frame Steady _).of_eq hwindow).drive
    have hfound₄ : findPartitionIn wanted s₄.drive.partitions = some probe := by
      rw [hdrive, hs₂]
      exact hfound
    cases window with
    | some ends => exact .inl (createInRegion_calm _ _ _ s₄).recorded
    | none =>
      refine Leaves.then_calm ?_ fun ends => createInRegion_calm _ _ _
      have hname : shrunkPartition plan = wanted := by
        rw [shrunkPartition, hpartition, Option.bind_some, hwanted, Option.getD_some]
      rw [Leaves, hname]
      rcases shrinkNtfs_shrunk hwanted hfound₄ (show sectorSize < plan.resizeBytes by omega) with
        hnothing | hshrunk
      · exact .inl hnothing
      · exact .inr (.inl hshrunk)

theorem settle_snd {α : Type} (step : Phase α) (s : Session) : (settle step s).2 = (step s).2 := by
  unfold settle
  split <;> rename_i heq <;> rw [heq]

/-- A table that is restored is on record. -/
theorem restoreTable_leaves {t : Session} (h : Leaves plan s t) (disk path : String) :
    Leaves plan s (executeDiskHelper host plan (.restoreTable disk path) t).2 := by
  unfold executeDiskHelper runHelper
  refine bind_leaves (fun e s' hrun => by cases hrun) fun _ s' hrun => ?_
  cases hrun
  refine bind_leaves (fun e s' hrun => by cases hrun) fun _ s' hrun => ?_
  cases hrun
  cases Disk.buildPlan (probes host plan t) (.restoreTable disk path) with
  | error message => exact h
  | ok diskPlan =>
    refine .inr (.inr ⟨.restoreTable disk path, ?_, trivial⟩)
    -- whatever the call does, the command is in the log
    have hcall : (call host (fun s => s.apply host (.restoreTable disk path))
        { t with ran := .restoreTable disk path :: t.ran }).2.ran = .restoreTable disk path :: t.ran :=
      call_from (R := fun _ s' => s'.ran = .restoreTable disk path :: t.ran) (s := t) rfl (apply_ran _)
    have hlog : ∀ s' : Session, s'.ran = .restoreTable disk path :: t.ran →
        .restoreTable disk path ∈ s'.ran := fun s' h => h ▸ List.mem_cons_self
    refine bind_leaves (Q := fun s' : Session => DiskOperationInput.restoreTable disk path ∈ s'.ran)
      (x := call host fun s => s.apply host (.restoreTable disk path))
      (s := { t with ran := .restoreTable disk path :: t.ran })
      (fun e s' hrun => ?_) fun _ s' hrun => ?_
    · rw [hrun] at hcall
      exact hlog s' hcall
    · rw [hrun] at hcall
      exact hlog s' hcall

theorem guardedTableMutation_leaves {body : Phase String}
    (hbody : ∀ s, Leaves plan s (body s).2) :
    Leaves plan s (guardedTableMutation host plan body s).2 := by
  unfold guardedTableMutation
  refine .after_steady call_id_along fun _ s₁ _ => ?_
  refine .after_steady validateTargetDisk_along fun _ s₂ _ => ?_
  refine .after_steady (executeDiskHelper_along trivial) fun _ s₃ _ => ?_
  have hsettled : Leaves plan s₃ (settle body s₃).2 := by
    rw [settle_snd]
    exact hbody s₃
  refine bind_leaves (fun e s₄ hrun => ?_) fun result s₄ hrun => ?_
  · rwa [hrun] at hsettled
  · rw [hrun] at hsettled
    cases result with
    | ok value => exact hsettled
    | error message =>
      have hrestored : Leaves plan s₃ (settle (executeDiskHelper host plan (.restoreTable plan.disk
          (host.backupDirectory ++ "/partition-table.backup"))) s₄).2 := by
        rw [settle_snd]
        exact restoreTable_leaves hsettled _ _
      refine Leaves.then_calm hrestored fun restored => ?_
      cases restored with
      | ok value => exact Frame.throw _
      | error message => exact Frame.throw _

/-- An attempt that goes through the guided mutation. -/
theorem recordedMutation_leaves {body : Phase String} (hbody : ∀ s, Leaves plan s (body s).2) :
    Leaves plan s (recordedMutation host plan body s).2 := by
  unfold recordedMutation
  refine .after_steady (recordStarted_along _) fun _ s₁ _ => ?_
  refine Leaves.then_calm (guardedTableMutation_leaves hbody) fun target => ?_
  refine Frame.bind (recordJournal_along fun _ => ?_) fun _ => Frame.pure _
  decide

theorem prepareBtrfsTarget_calm (target : String) :
    Frame Calm (prepareBtrfsTarget host plan target) :=
  prepareBtrfsTarget_along (Q := fun _ => True)
    (fun _ h h' => not_movesPartition_of_harmless h h') (fun _ => trivial) (fun _ _ => id)
    (by decide)

/-- What an attempt leaves. -/
theorem executeStorage_leaves (hbytes : 4096 < plan.resizeBytes) :
    Leaves plan s (executeStorage host plan s).2 := by
  unfold executeStorage
  refine .after_steady prologue_along fun _ s₁ _ => ?_
  refine Leaves.then_calm ?_ fun target => ?_
  · unfold selectTarget
    cases plan.mode with
    | wipe => exact .inl id
    | alongside | manual =>
      exact .inl ((Frame.bind selectExisting_along fun _ => Frame.pure _ : Frame RecordsNothing _) s₁)
    | freeSpace =>
      exact .inl ((Frame.bind (createInFreeSpace_along (allowsMutation_all plan).toAllowsCreation
        (by decide)) fun _ => Frame.pure _ : Frame RecordsNothing _) s₁)
    | resizeNtfs =>
      exact Leaves.then_calm (recordedMutation_leaves fun _ => resizeNtfsTarget_leaves hbytes)
        fun _ => Frame.pure _
  · cases target with
    | none => exact Frame.pure _
    | some target =>
      exact Frame.bind (prepareBtrfsTarget_calm target) fun _ =>
        Frame.modify fun _ => Follows.idle rfl rfl rfl

end Kyth.Executor

import Kyth.Installer.TableRestore

/-!
# What a reversible failure has overwritten

A commit reports `irreversible` when it shrank a filesystem or formatted a partition that it did
not create. `completed_writes_clean_iff` says which completed operations overwrite the contents of
the first partitions without setting the flag: a `create` whose new filesystem lies over one, and
a `format` of a partition that a `create` of the journal vouches for.
-/

namespace Kyth.Journal

open Str Word Json Storage Disk
open Kyth.Action (check Frame bind_eq_ok)
open Kyth.Interval

variable {w : World} {m m' m₀ : Machine} {journal : PartitionJournal} {sectorSize k : ℕ}

/-- A machine whose tools do what they are asked: the kernel gives a new partition an unused name,
and a listing names partitions that are there. -/
structure World.Honest (w : World) : Prop where
  newName_fresh : ∀ m : Machine, w.newName m ∉ m.slots.map Slot.name
  document_true : ∀ (m : Machine) before start size name,
    name ∈ newPartitions before start size (w.document m) →
      ∃ slot ∈ m.slots, slot.name = name ∧ slot.span = (start.toNat, start.toNat + size.toNat)

/-! ### Requests -/

/-- A step that leaves the partitions and their contents alone. -/
structure Still (m m' : Machine) : Prop where
  slots : m'.slots = m.slots
  written : m'.written = m.written

instance : Std.Refl Still := ⟨fun _ => ⟨rfl, rfl⟩⟩

instance : IsTrans Machine Still :=
  ⟨fun _ _ _ h h' => ⟨h'.slots.trans h.slots, h'.written.trans h.written⟩⟩

theorem still_call (m : Machine) : Still m { m with clock := m.clock + 1 } := ⟨rfl, rfl⟩

/-- What a completed request did to the partitions and their contents. -/
theorem runDiskOperation_eq_ok {operation : DiskOperationInput} {u : Unit}
    (h : runDiskOperation w operation m = (.ok u, m')) :
    ∃ m₁ : Machine, m₁.slots = m.slots ∧ m'.slots = m₁.slotsAfter w operation ∧
      m'.written = m₁.writesOf operation ++ m.written := by
  simp only [runDiskOperation, bind_eq_ok, Action.modify_apply, Action.get_apply,
    Action.check_apply] at h
  obtain ⟨-, -, ⟨⟩, -, -, ⟨⟩, plan, m₁, hplan, h⟩ := h
  obtain ⟨-, rfl⟩ := Prod.mk.inj hplan
  obtain ⟨-, -, ⟨⟩, ⟨⟨⟩, m₂, hcall, -, -, ⟨⟩, hsync⟩⟩ := h
  have hstill := (call_frame still_call).of_eq hcall
  have hlast : Still { m₂.apply w operation with completed := operation :: m₂.completed } m' := by
    split at hsync
    · exact (call_frame still_call).of_eq hsync
    · cases hsync
      exact refl_of Still _
  refine ⟨m₂, hstill.slots, hlast.slots, hlast.written.trans ?_⟩
  simp only [Machine.apply, hstill.written]

/-- The names of the partitions stay distinct. -/
def KeepsNodup (m m' : Machine) : Prop :=
  (m.slots.map Slot.name).Nodup → (m'.slots.map Slot.name).Nodup

instance : Std.Refl KeepsNodup := ⟨fun _ => id⟩

instance : IsTrans Machine KeepsNodup := ⟨fun _ _ _ h h' hm => h' (h hm)⟩

theorem keepsNodup_call (m : Machine) : KeepsNodup m { m with clock := m.clock + 1 } := id

theorem runDiskOperation_keepsNodup (hw : w.Honest) (operation : DiskOperationInput) :
    Frame KeepsNodup (runDiskOperation w operation) := by
  refine runDiskOperation_frame keepsNodup_call (fun m => id) (fun m _ _ => id) fun m hnodup => ?_
  have hcons : ∀ start stop,
      ((⟨w.newName m, start, stop, ""⟩ :: m.slots : List Slot).map Slot.name).Nodup :=
    fun start stop => List.nodup_cons.2 ⟨hw.newName_fresh m, hnodup⟩
  have hmap : ∀ f : Slot → Slot, (∀ slot, (f slot).name = slot.name) →
      ((m.slots.map f).map Slot.name).Nodup := by
    intro f hf
    rw [List.map_map]
    have hnames : (Slot.name ∘ f) = Slot.name := funext hf
    rwa [hnames]
  simp only [Machine.apply]
  cases operation with
  | createLabel disk tableType => exact List.nodup_nil
  | createPartition disk start size fs label sectorSize => exact hcons _ _
  | createUnformattedPartition disk start size label sectorSize => exact hcons _ _
  | deletePartition disk partNum expectedPartuuid =>
    exact hnodup.sublist (List.filter_sublist.map _)
  | resizePartition disk partNum start newSize sectorSize expectedPartuuid =>
    simp only [Machine.slotsAfter]
    refine hmap _ fun slot => ?_
    split_ifs <;> rfl
  | formatFilesystem device fs label expectedDisk =>
    simp only [Machine.slotsAfter]
    refine hmap _ fun slot => ?_
    split_ifs <;> rfl
  | _ => exact hnodup

/-! ### Operations -/

/-- A request that writes inside no partition leaves the written ranges as they are. -/
def Quiet (m m' : Machine) : Prop := m'.written = m.written

instance : Std.Refl Quiet := ⟨fun _ => rfl⟩

instance : IsTrans Machine Quiet := ⟨fun _ _ _ h h' => Eq.trans h' h⟩

theorem quiet_call (m : Machine) : Quiet m { m with clock := m.clock + 1 } := rfl

theorem runDiskOperation_quiet {operation : DiskOperationInput} (h : ¬ writesData operation) :
    Frame Quiet (runDiskOperation w operation) := by
  refine runDiskOperation_frame quiet_call (fun m => rfl) (fun m _ _ => rfl) fun m => ?_
  have hnone : m.writesOf operation = [] := by
    cases operation with
    | filesystemResize device fs newSizeBytes stage => exact absurd trivial h
    | formatFilesystem device fs label expectedDisk => exact absurd trivial h
    | _ => rfl
  simp only [Quiet, Machine.apply, hnone, List.nil_append]

/-- The flag of irreversible steps is never taken back. -/
def KeepsFlag (r r' : Run) : Prop := r.irreversible = true → r'.irreversible = true

instance : Std.Refl KeepsFlag := ⟨fun _ => id⟩

instance : IsTrans Run KeepsFlag := ⟨fun _ _ _ h h' hr => h' (h hr)⟩

theorem onMachine_keepsFlag {α : Type} (x : Exec α) : Frame KeepsFlag (onMachine x) := fun _ => id

/-- A step on the machine alone. -/
theorem onMachine_eq_ok {α : Type} {x : Exec α} {a : α} {r r' : Run}
    (h : onMachine x r = (.ok a, r')) :
    x r.machine = (.ok a, r'.machine) ∧ r'.irreversible = r.irreversible := by
  obtain ⟨hvalue, rfl⟩ := Prod.mk.inj h
  exact ⟨Prod.ext hvalue rfl, rfl⟩

/-- The rest of a `resize` after the shrink. -/
theorem shrunk_keepsFlag {disk target : String} {start newSize : UInt64} :
    Frame KeepsFlag (do
      let number ← check (partNum target (← onMachine (runtimePartitions w)))
      let expectedPartuuid ← onMachine (partuuidOf w disk number)
      onMachine (runDiskOperation w
        (.resizePartition disk number start newSize sectorSize expectedPartuuid))
      return target : RunExec String) :=
  Frame.bind (onMachine_keepsFlag _) fun _ => Frame.bind (Frame.check _) fun _ =>
    Frame.bind (onMachine_keepsFlag _) fun _ => Frame.bind (onMachine_keepsFlag _) fun _ =>
    Frame.pure _

theorem executeOperation_keepsFlag {kind : OpKind} :
    Frame KeepsFlag (executeOperation w journal sectorSize kind) := by
  refine Frame.bind Frame.get fun _ => Frame.bind (onMachine_keepsFlag _) fun _ => ?_
  have hparams : ∀ created, Frame KeepsFlag
      (Action.modify fun r : Run => { r with params := markCreated r.params created } :
        RunExec Unit) := fun _ => Frame.modify fun _ => id
  have hflag : Frame KeepsFlag
      (Action.modify fun r : Run => { r with irreversible := true } : RunExec Unit) :=
    Frame.modify fun _ _ => rfl
  split
  · exact onMachine_keepsFlag _
  · simp only [executeCreate]
    refine Frame.bind (onMachine_keepsFlag _) fun _ => Frame.bind (onMachine_keepsFlag _) fun _ =>
      Frame.bind (hparams _) fun _ => Frame.ite (Frame.bind (onMachine_keepsFlag _) fun _ => ?_) ?_
    all_goals
      exact Frame.ite (Frame.bind (onMachine_keepsFlag _) fun _ => Frame.pure _) (Frame.pure _)
  · exact onMachine_keepsFlag _
  · simp only [executeResize]
    exact Frame.ite_throw (Frame.bind (onMachine_keepsFlag _) fun _ =>
      Frame.bind (Frame.check _) fun _ => Frame.bind (Frame.check _) fun _ =>
      Frame.bind (onMachine_keepsFlag _) fun _ => Frame.bind hflag fun _ =>
      shrunk_keepsFlag)
  · simp only [executeFormat]
    refine Frame.ite (Frame.bind hflag fun _ => ?_) ?_
    all_goals exact Frame.bind (onMachine_keepsFlag _) fun _ => Frame.pure _
  · exact onMachine_keepsFlag _
  · exact Frame.throw _

/-! ### Completed operations -/

/-- The bytes a completed operation writes inside partitions while it counts as reversible. -/
def opWrites (m : Machine) (op : PartitionOperation) : List (ℕ × ℕ) :=
  match op.kind with
  | .create =>
      if valueString op.params "fs_type" = "linux-swap" then [] else [createSpan op.params]
  | .format => (m.atDevice (valueString op.params "partition")).map Slot.span
  | _ => []

theorem Machine.atDevice_congr (h : m'.slots = m.slots) (device : String) :
    m'.atDevice device = m.atDevice device := by
  rw [Machine.atDevice, Machine.atDevice, h]

theorem filter_name_eq_singleton {slots : List Slot} (hnodup : (slots.map Slot.name).Nodup)
    {slot : Slot} (hslot : slot ∈ slots) :
    slots.filter (fun other => some other.name = some slot.name) = [slot] := by
  induction slots with
  | nil => cases hslot
  | cons head tail ih =>
    rw [List.map_cons, List.nodup_cons] at hnodup
    rw [List.filter_cons]
    rcases List.mem_cons.1 hslot with rfl | hmem
    · have htail : tail.filter (fun other => some other.name = some slot.name) = [] := by
        rw [List.filter_eq_nil_iff]
        intro other hother
        rw [decide_eq_true_eq, Option.some.injEq]
        intro hsame
        exact hnodup.1 (hsame ▸ List.mem_map_of_mem hother)
      simp only [htail, decide_true, ↓reduceIte]
    · have hne : some head.name ≠ some slot.name := fun hsame =>
        hnodup.1 (Option.some.inj hsame ▸ List.mem_map_of_mem hmem)
      simp only [hne, decide_false, Bool.false_eq_true, ↓reduceIte]
      exact ih hnodup.2 hmem

/-- A device path stands for one partition when the names are distinct. -/
theorem atDevice_eq_singleton (hnodup : (m.slots.map Slot.name).Nodup) {slot : Slot}
    (hslot : slot ∈ m.slots) (hname : Plan.normalizeDevicePath slot.name = some slot.name) :
    m.atDevice slot.name = [slot] := by
  rw [Machine.atDevice, hname]
  exact filter_name_eq_singleton hnodup hslot

/-- What a success of `find_new_partition` says. -/
theorem findNewPartition_eq_ok {disk created : String} {before : StringMap UInt32}
    {start size : UInt64} (h : findNewPartition w disk before start size m = (.ok created, m')) :
    Still m m' ∧ created ∈ newPartitions before start size (w.document m') := by
  have hstill : Still m m' := (findNewPartition_frame still_call).of_eq h
  refine ⟨hstill, ?_⟩
  simp only [findNewPartition] at h
  split_ifs at h with hdisk
  · cases h
  · obtain ⟨⟨⟩, m₁, -, h⟩ := bind_eq_ok.1 h
    obtain ⟨m₂, m₃, hget, h⟩ := bind_eq_ok.1 h
    cases hget
    rcases hlist : newPartitions before start size (w.document m₁) with _ | ⟨head, tail⟩
    · rw [hlist] at h
      cases h
    · rw [hlist] at h
      cases h
      rw [hlist]
      exact List.mem_cons_self

mutual
theorem normalizeDevicePath_of_mem_newPartitions {before : StringMap UInt32} {start size : UInt64}
    {name : String} : ∀ entry : Value, name ∈ newPartitions before start size entry →
      Plan.normalizeDevicePath name = some name
  | .object fields, h => by
    rw [newPartitions, List.mem_append] at h
    rcases h with h | h
    · rw [Option.mem_toList] at h
      unfold newPartition at h
      split_ifs at h
      simp only [Option.bind_eq_bind, Option.bind_eq_some_iff] at h
      obtain ⟨found, ⟨raw, -, hraw⟩, h⟩ := h
      split_ifs at h
      cases h
      exact (Plan.normalizeDevicePath_spec hraw).2
    · exact normalizeDevicePath_of_mem_below fields h
  | .null, h | .bool _, h | .number _, h | .string _, h | .array _, h => by
    simp [newPartitions] at h

theorem normalizeDevicePath_of_mem_below {before : StringMap UInt32} {start size : UInt64}
    {name : String} : ∀ fields : List (String × Value),
      name ∈ newPartitionsBelow before start size fields → Plan.normalizeDevicePath name = some name
  | [], h => by simp [newPartitionsBelow] at h
  | (key, value) :: fields, h => by
    unfold newPartitionsBelow at h
    split_ifs at h
    · split at h
      · exact normalizeDevicePath_of_mem_in _ h
      · cases h
    · exact normalizeDevicePath_of_mem_below fields h

theorem normalizeDevicePath_of_mem_in {before : StringMap UInt32} {start size : UInt64}
    {name : String} : ∀ entries : List Value, name ∈ newPartitionsIn before start size entries →
      Plan.normalizeDevicePath name = some name
  | [], h => by simp [newPartitionsIn] at h
  | entry :: entries, h => by
    rw [newPartitionsIn, List.mem_append] at h
    rcases h with h | h
    · exact normalizeDevicePath_of_mem_newPartitions entry h
    · exact normalizeDevicePath_of_mem_in entries h
end

/-- A completed `create` writes its own extent, or nothing. -/
theorem executeCreate_written (hw : w.Honest) {disk created : String} {params : Value}
    {before : StringMap UInt32} {r r' : Run} (hnodup : (r.machine.slots.map Slot.name).Nodup)
    (h : executeCreate w disk sectorSize params before r = (.ok created, r')) :
    r'.machine.written =
      (if valueString params "fs_type" = "linux-swap" then [] else [createSpan params]) ++
        r.machine.written := by
  have hquiet : ∀ operation, ¬ isTableCopy operation → ¬ writesData operation →
      Frame Quiet (runDiskOperation w operation) := fun _ _ => runDiskOperation_quiet
  simp only [executeCreate] at h
  obtain ⟨⟨⟩, r₁, hmade, h⟩ := bind_eq_ok.1 h
  obtain ⟨found, r₂, hfound, h⟩ := bind_eq_ok.1 h
  obtain ⟨⟨⟩, r₃, hparams, h⟩ := bind_eq_ok.1 h
  have hmachine : r₃.machine = r₂.machine := by cases hparams; rfl
  obtain ⟨hmade, -⟩ := onMachine_eq_ok hmade
  obtain ⟨hfound, -⟩ := onMachine_eq_ok hfound
  have hwritten₁ : r₁.machine.written = r.machine.written :=
    (hquiet _ id id).of_eq hmade
  have hnodup₁ : (r₁.machine.slots.map Slot.name).Nodup :=
    (runDiskOperation_keepsNodup hw _).of_eq hmade hnodup
  obtain ⟨hstill, hmem⟩ := findNewPartition_eq_ok hfound
  have hflag : ∀ name : String, Frame (Along Quiet)
      (if isEfiMountpoint (valueString params "mountpoint") then do
        onMachine (setFlag w disk name "esp")
        pure name
      else pure name : RunExec String) := fun name =>
    Frame.ite (Frame.bind (onMachine_frame (setFlag_frame quiet_call hquiet)) fun _ =>
      Frame.pure _) (Frame.pure _)
  by_cases hswap : valueString params "fs_type" = "linux-swap"
  · rw [if_neg (not_not.2 hswap)] at h
    have hlast : r'.machine.written = r₃.machine.written := (hflag found).of_eq h
    rw [if_pos hswap, hlast, hmachine, hstill.written, hwritten₁, List.nil_append]
  · rw [if_pos hswap] at h
    obtain ⟨⟨⟩, r₄, hformat, h⟩ := bind_eq_ok.1 h
    have hlast : r'.machine.written = r₄.machine.written := (hflag found).of_eq h
    obtain ⟨m₅, hslots, -, hwritten⟩ := runDiskOperation_eq_ok (onMachine_eq_ok hformat).1
    obtain ⟨slot, hslot, hname, hspan⟩ := hw.document_true _ _ _ _ _ hmem
    have hself := normalizeDevicePath_of_mem_newPartitions _ hmem
    have hnodup₂ : (r₂.machine.slots.map Slot.name).Nodup := by rwa [hstill.slots]
    have hdevice : m₅.atDevice found = [slot] := by
      rw [Machine.atDevice_congr (hslots.trans (congrArg Machine.slots hmachine)), ← hname]
      rw [← hname] at hself
      exact atDevice_eq_singleton hnodup₂ hslot hself
    rw [if_neg hswap, hlast, hwritten, Machine.writesOf, hdevice, hmachine, hstill.written,
      hwritten₁, List.map_singleton, hspan]
    rfl

/-- A completed `format` that counts as reversible writes the partition it names. -/
theorem executeFormat_written {target : String} {params : Value} {r r' : Run} {out : String}
    (h : executeFormat w journal target params r = (.ok out, r')) (hrev : r'.irreversible = false) :
    r'.machine.written = (r.machine.atDevice target).map Slot.span ++ r.machine.written := by
  simp only [executeFormat] at h
  split_ifs at h with hhere
  · obtain ⟨⟨⟩, r₁, hformat, h⟩ := bind_eq_ok.1 h
    cases h
    obtain ⟨m₁, hslots, -, hwritten⟩ := runDiskOperation_eq_ok (onMachine_eq_ok hformat).1
    rw [hwritten, Machine.writesOf, Machine.atDevice_congr hslots]
  · obtain ⟨⟨⟩, r₁, hflag, h⟩ := bind_eq_ok.1 h
    have hset : r₁.irreversible = true := by cases hflag; rfl
    obtain ⟨⟨⟩, r₂, hformat, hout⟩ := bind_eq_ok.1 h
    cases hout
    rw [(onMachine_eq_ok hformat).2, hset] at hrev
    cases hrev

/-- A completed `resize` is irreversible. -/
theorem executeResize_irreversible {disk target : String} {params : Value} {r r' : Run}
    {out : String} (h : executeResize w disk target sectorSize params r = (.ok out, r')) :
    r'.irreversible = true := by
  simp only [executeResize] at h
  split_ifs at h with hzero
  · cases h
  · obtain ⟨records, r₁, -, h⟩ := bind_eq_ok.1 h
    obtain ⟨fs, r₂, -, h⟩ := bind_eq_ok.1 h
    obtain ⟨start, r₃, -, h⟩ := bind_eq_ok.1 h
    simp only [shrinkAndResize] at h
    obtain ⟨⟨⟩, r₄, -, h⟩ := bind_eq_ok.1 h
    obtain ⟨⟨⟩, r₅, hflag, h⟩ := bind_eq_ok.1 h
    have hset : r₅.irreversible = true := by cases hflag; rfl
    exact shrunk_keepsFlag.of_eq h hset

/-- What a completed operation that counts as reversible wrote inside partitions. -/
theorem executeAt_written (hw : w.Honest) {s s' : CommitState} {out : String}
    {op : PartitionOperation} (hop : s.journal.ops[k]? = some op)
    (hnodup : (s.machine.slots.map Slot.name).Nodup)
    (h : executeAt w sectorSize k s = (.ok out, s')) (hrev : s'.irreversible = false) :
    s'.machine.written = opWrites s.machine op ++ s.machine.written := by
  have hquiet : ∀ operation, ¬ isTableCopy operation → ¬ writesData operation →
      Frame Quiet (runDiskOperation w operation) := fun _ _ => runDiskOperation_quiet
  unfold executeAt at h
  rw [hop] at h
  obtain ⟨hrun, rfl⟩ := Prod.mk.inj h
  obtain ⟨r', hr'⟩ : ∃ r', executeOperation w s.journal sectorSize op.kind
      ⟨s.machine, s.irreversible, op.params⟩ = (.ok out, r') := ⟨_, Prod.ext hrun rfl⟩
  rw [hr'] at hrev ⊢
  simp only at hrev ⊢
  simp only [executeOperation] at hr'
  obtain ⟨r₀, r₁, hget, hr'⟩ := bind_eq_ok.1 hr'
  cases hget
  obtain ⟨before, r₂, hbefore, hr'⟩ := bind_eq_ok.1 hr'
  have hstill : Still s.machine r₂.machine :=
    (runtimePartitions_frame still_call).of_eq (onMachine_eq_ok hbefore).1
  have hnodup₂ : (r₂.machine.slots.map Slot.name).Nodup := by rwa [hstill.slots]
  have hzero : ∀ {x : Exec String}, Frame Quiet x → onMachine x r₂ = (.ok out, r') →
      r'.machine.written = [] ++ s.machine.written := by
    intro x hx hr
    have hlast : r'.machine.written = r₂.machine.written := hx.of_eq (onMachine_eq_ok hr).1
    rw [hlast, hstill.written, List.nil_append]
  unfold opWrites
  cases hkind : op.kind with
  | newTable =>
    rw [hkind] at hr'
    exact hzero (executeNewTable_frame quiet_call hquiet) hr'
  | create =>
    rw [hkind] at hr'
    rw [executeCreate_written hw hnodup₂ hr', hstill.written]
  | delete =>
    rw [hkind] at hr'
    exact hzero (executeDelete_frame quiet_call hquiet) hr'
  | resize =>
    rw [hkind] at hr'
    rw [executeResize_irreversible hr'] at hrev
    cases hrev
  | format =>
    rw [hkind] at hr'
    rw [executeFormat_written hr' hrev, hstill.written, Machine.atDevice_congr hstill.slots]
  | setMountpoint =>
    rw [hkind] at hr'
    exact hzero (executeSetMountpoint_frame quiet_call hquiet) hr'
  | other name =>
    rw [hkind] at hr'
    cases hr'

/-! ### Whole runs -/

theorem Reaches.unique {s₀ s s' : CommitState} (h : Reaches w sectorSize s₀ k s)
    (h' : Reaches w sectorSize s₀ k s') : s = s' := by
  induction h generalizing s' with
  | zero => cases h'; rfl
  | succ hprev hok ih =>
    cases h' with
    | succ hprev' hok' =>
      cases ih hprev'
      rw [hok] at hok'
      exact (Prod.mk.inj hok').2

theorem CommitReaches.unique {guard : Except String Unit} {staged backupPath : String}
    {s s' : CommitState} (h : CommitReaches w guard staged backupPath journal m₀ k s)
    (h' : CommitReaches w guard staged backupPath journal m₀ k s') : s = s' := by
  obtain ⟨m₁, hprepared, hreaches⟩ := h
  obtain ⟨m₁', hprepared', hreaches'⟩ := h'
  rw [hprepared] at hprepared'
  cases hprepared'
  exact hreaches.unique hreaches'

/-- A turn of the loop does not take the flag back. -/
theorem executeAt_keepsFlag {s s' : CommitState} {out : Except String String}
    (h : executeAt w sectorSize k s = (out, s')) (hrev : s'.irreversible = false) :
    s.irreversible = false := by
  unfold executeAt at h
  split at h
  · cases h
    exact hrev
  · rename_i op _
    have hkeeps : Frame KeepsFlag (executeOperation w s.journal sectorSize op.kind) :=
      executeOperation_keepsFlag
    cases h
    by_contra hflag
    rw [hkeeps ⟨s.machine, s.irreversible, op.params⟩ (by simpa using hflag)] at hrev
    cases hrev

/-- The written ranges of a run of completed operations that count as reversible. -/
theorem Reaches.mem_written_iff (hw : w.Honest) {s₀ s : CommitState}
    (hnodup : (s₀.machine.slots.map Slot.name).Nodup) (h : Reaches w sectorSize s₀ k s)
    (hrev : s.irreversible = false) {span : ℕ × ℕ} :
    span ∈ s.machine.written ↔ span ∈ s₀.machine.written ∨
      ∃ i < k, ∃ op s', s₀.journal.ops[i]? = some op ∧ Reaches w sectorSize s₀ i s' ∧
        span ∈ opWrites s'.machine op := by
  induction h with
  | zero => simp
  | @succ k s s' out hprev hok ih =>
    have hwritten : span ∈ s'.machine.written ↔ span ∈ s.machine.written ∨
        ∃ op, s.journal.ops[k]? = some op ∧ span ∈ opWrites s.machine op := by
      cases hop : s.journal.ops[k]? with
      | none =>
        unfold executeAt at hok
        rw [hop] at hok
        cases hok
        simp
      | some op =>
        have hnodup' := hprev.frame keepsNodup_call (fun _ _ => runDiskOperation_keepsNodup hw _)
          hnodup
        rw [executeAt_written hw hop hnodup' hok hrev, List.mem_append]
        simp [or_comm]
    rw [hwritten, ih (executeAt_keepsFlag hok hrev), or_assoc]
    refine or_congr_right ⟨?_, ?_⟩
    · rintro (⟨i, hi, hrest⟩ | ⟨op, hop, hspan⟩)
      · exact ⟨i, by omega, hrest⟩
      · rw [hprev.journal_eq.2 k le_rfl] at hop
        exact ⟨k, by omega, op, s, hop, hprev, hspan⟩
    · rintro ⟨i, hi, op, s'', hop, hreaches, hspan⟩
      rcases Nat.lt_succ_iff_lt_or_eq.1 hi with hi | rfl
      · exact .inl ⟨i, hi, op, s'', hop, hreaches, hspan⟩
      · cases hreaches.unique hprev
        rw [← hprev.journal_eq.2 i le_rfl] at hop
        exact .inr ⟨op, hop, hspan⟩

/-- An operation that makes a filesystem over the bytes of one of the given partitions. -/
def OverwritesOld (olds : List Slot) (m : Machine) (op : PartitionOperation) : Prop :=
  match op.kind with
  | .create => valueString op.params "fs_type" ≠ "linux-swap" ∧
      ∃ old ∈ olds, Meets (createSpan op.params) old.span
  | .format => ∃ slot ∈ m.atDevice (valueString op.params "partition"),
      ∃ old ∈ olds, Meets slot.span old.span
  | _ => False

theorem overwritesOld_iff {olds : List Slot} {op : PartitionOperation} :
    OverwritesOld olds m op ↔ ∃ span ∈ opWrites m op, ∃ old ∈ olds, Meets span old.span := by
  unfold OverwritesOld opWrites
  cases op.kind with
  | create => by_cases hswap : valueString op.params "fs_type" = "linux-swap" <;> simp [hswap]
  | format => simp
  | _ => simp

variable {guard : Except String Unit} {staged backupPath : String}

/-- The completed operations of a commit that fails as reversible wrote nothing inside the first
partitions exactly when none of them made a filesystem over one: neither by a `create` in bytes
that were freed, nor by a `format` that a `create` of the journal vouched for. -/
theorem completed_writes_clean_iff (hw : w.Honest) (hnodup : (m₀.slots.map Slot.name).Nodup)
    (hwritten : m₀.written = []) {message : String} {before after : CommitState}
    (h : FailsAt w guard staged backupPath journal m₀ k message before after)
    (hrev : after.irreversible = false) :
    (∀ span ∈ before.machine.written, ∀ old ∈ m₀.slots, ¬ Meets span old.span) ↔
      ∀ i < k, ∀ op s, journal.ops[i]? = some op →
        CommitReaches w guard staged backupPath journal m₀ i s →
          ¬ OverwritesOld m₀.slots s.machine op := by
  obtain ⟨⟨m₁, hprepared, hreaches⟩, hfailed⟩ := h
  have hcopies : Copies isBackup m₀ m₁ := prepareCommit_copies.of_eq hprepared
  have hnodup₁ : (m₁.slots.map Slot.name).Nodup := by rwa [hcopies.slots]
  have hempty : m₁.written = [] := hcopies.written.trans hwritten
  have hmem : ∀ span, span ∈ before.machine.written ↔ ∃ i < k, ∃ op s, journal.ops[i]? = some op ∧
      Reaches w w.sectorSize ⟨m₁, false, journal⟩ i s ∧ span ∈ opWrites s.machine op := by
    intro span
    rw [hreaches.mem_written_iff hw hnodup₁ (executeAt_keepsFlag hfailed hrev), hempty]
    simp only [List.not_mem_nil, false_or]
  constructor
  · intro hclean i hi op s hop hcommit hover
    obtain ⟨span, hspan, old, hold, hmeets⟩ := overwritesOld_iff.1 hover
    obtain ⟨m₁', hprepared', hs⟩ := hcommit
    rw [hprepared] at hprepared'
    cases hprepared'
    exact hclean span ((hmem span).2 ⟨i, hi, op, s, hop, hs, hspan⟩) old hold hmeets
  · intro hsteps span hspan old hold hmeets
    obtain ⟨i, hi, op, s, hop, hs, hspan⟩ := (hmem span).1 hspan
    exact hsteps i hi op s hop ⟨m₁, hprepared, hs⟩
      (overwritesOld_iff.2 ⟨span, hspan, old, hold, hmeets⟩)

/-! ### A disk with one partition -/

/-- An ext4 partition of 1 GiB at 1 GiB. -/
def homeSlot : Slot := ⟨"/dev/sda2", 0x40000000, 0x80000000, "ext4"⟩

/-- The disk of 4 GiB with that partition. -/
def homeMachine : Machine := { tableType := "gpt", slots := [homeSlot] }

/-- A machine on which no call fails and `lsblk` lists that disk. -/
def homeDiskWorld : World where
  fault _ := none
  lsblk _ _ _ := ⟨[{
    name := some "/dev/sda", deviceType := some "disk", size := some 0x100000000
    children := [{
      name := some "/dev/sda2", partn := some 2, size := some 0x40000000
      deviceType := some "part", pkname := some "/dev/sda", fstype := some "ext4"
      start := some 0x200000, ro := some false, partuuid := some "0d2c3f7a-02" }] }]⟩
  document _ := .object [("blockdevices", .array
    [.object [("name", .string "/dev/sda"), ("type", .string "disk"), ("children", .array [])]])]
  others := ∅
  number _ := 2
  newName m := "/dev/sda" ++ String.ofList
    (List.replicate (m.slots.map fun slot => slot.name.length).sum '0')
  details name := { name, sizeBytes := 0, startBytes := 0 }
  sectorSize := 512
  diskSizeBytes := 0x100000000
  sfdiskBinary := .ok "/usr/sbin/sfdisk"

theorem homeDiskWorld_honest : homeDiskWorld.Honest where
  newName_fresh m hmem := by
    -- the new name is longer than every name in use
    obtain ⟨slot, hslot, hname⟩ := List.mem_map.1 hmem
    have hle : slot.name.length ≤ (m.slots.map fun slot => slot.name.length).sum :=
      List.single_le_sum (by simp) _ (List.mem_map_of_mem hslot)
    have hlength : (homeDiskWorld.newName m).length =
        8 + (m.slots.map fun slot => slot.name.length).sum := by
      have hdisk : "/dev/sda".length = 8 := by decide
      simp [homeDiskWorld, String.length_append, hdisk]
    rw [← hname] at hlength
    omega
  document_true m before start size name hname := by
    simp [homeDiskWorld, newPartitions, newPartition, newPartitionsBelow, Value.get,
      List.lookup_cons] at hname

/-- A journal of two operations on that disk. -/
def homeJournal (op op' : PartitionOperation) : PartitionJournal where
  disk := "/dev/sda"
  ops := [op, op']
  diskModel := some "disk"

/-- The commit of a journal on that disk before its first operation. -/
def homePrepared (journal : PartitionJournal) : Except String (List String) × Machine :=
  prepareCommit homeDiskWorld (.ok ()) "/tmp/kyth/staged" "/tmp/kyth/table" journal homeMachine

/-- The commit of a journal on that disk after its first operation. -/
def homeFirst (journal : PartitionJournal) : Except String String × CommitState :=
  executeAt homeDiskWorld 512 0 ⟨(homePrepared journal).2, false, journal⟩

/-- The commit of a journal on that disk after its second operation. -/
def homeSecond (journal : PartitionJournal) : Except String String × CommitState :=
  executeAt homeDiskWorld 512 1 (homeFirst journal).2

theorem homeFailsAt (journal : PartitionJournal) (target message : String)
    (hprepared : (homePrepared journal).1 = .ok [])
    (hfirst : (homeFirst journal).1 = .ok target)
    (hsecond : (homeSecond journal).1 = .error message) :
    FailsAt homeDiskWorld (.ok ()) "/tmp/kyth/staged" "/tmp/kyth/table" journal homeMachine 1
      message (homeFirst journal).2 (homeSecond journal).2 where
  reaches := ⟨(homePrepared journal).2, Prod.ext hprepared rfl,
    .succ .zero (Prod.ext hfirst rfl)⟩
  failed := Prod.ext hsecond rfl

/-- Remove the partition. -/
def deleteHome : PartitionOperation where
  kind := .delete
  params := .object [("partition", .string "/dev/sda2")]
  index := 0

/-- Make a new filesystem on the partition. -/
def formatHome : PartitionOperation where
  kind := .format
  params := .object [("partition", .string "/dev/sda2"), ("fs_type", .string "ext4")]
  index := 0

/-- A `create` that carries the mark of an earlier commit for the partition. -/
def createMarked : PartitionOperation where
  kind := .create
  params := markCreated (createRoot 1).params "/dev/sda2"
  index := 1

theorem delete_then_create_clean :
    (∃ message, FailsAt homeDiskWorld (.ok ()) "/tmp/kyth/staged" "/tmp/kyth/table"
        (homeJournal deleteHome (createRoot 1)) homeMachine 1 message
        (homeFirst (homeJournal deleteHome (createRoot 1))).2
        (homeSecond (homeJournal deleteHome (createRoot 1))).2) ∧
      ∀ span ∈ (homeFirst (homeJournal deleteHome (createRoot 1))).2.machine.written,
        ∀ old ∈ homeMachine.slots, ¬ Meets span old.span := by
  have hfails := homeFailsAt (homeJournal deleteHome (createRoot 1)) "/dev/sda2"
    "could not find the newly created partition" (by decide) (by decide) (by decide)
  refine ⟨⟨_, hfails⟩, ?_⟩
  refine (completed_writes_clean_iff homeDiskWorld_honest (by decide) rfl hfails
    (by decide)).mpr ?_
  intro i hi op s hop _ hover
  obtain rfl : i = 0 := by omega
  cases hop
  exact hover

/-- A completed `format` of the partition is reported as reversible. -/
theorem vouched_format_reported_reversible :
    validate (homeJournal formatHome createMarked) (homeMachine.slots.map (liveRecord homeDiskWorld))
        "gpt" 0x100000000 = [] ∧
      (∃ message, FailsAt homeDiskWorld (.ok ()) "/tmp/kyth/staged" "/tmp/kyth/table"
        (homeJournal formatHome createMarked) homeMachine 1 message
        (homeFirst (homeJournal formatHome createMarked)).2
        (homeSecond (homeJournal formatHome createMarked)).2) ∧
      (homeSecond (homeJournal formatHome createMarked)).2.irreversible = false ∧
      homeSlot.span ∈ (homeFirst (homeJournal formatHome createMarked)).2.machine.written := by
  refine ⟨by decide, ⟨"could not find the newly created partition", ?_⟩,
    by decide, by decide⟩
  exact homeFailsAt _ "/dev/sda2" _ (by decide) (by decide) (by decide)

end Kyth.Journal

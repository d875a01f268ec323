import Kyth.Installer.ManualMounts

/-!
# Reading the mount points back

Three functions walk the operations of a journal: `validate` before they run, `root_partition` and
`manual_mounts` afterwards, when every `create` carries the name of its partition. The first two
file the mount points under normalized names, the last one under the spellings of the journal.

The mount points on the disk are a replay of the executed operations (`mounts_eq_replay`), and so
are the tables of the other two. `Linked` relates them to the assignments of `validate`.
-/

namespace Kyth.Journal

open Str Word Json Storage Replay

variable {ctx : ValidateContext} {s s' : ValidateState} {start placed : Placed}
  {ops done before after later : List PartitionOperation} {op : PartitionOperation}
  {name partition : String}

/-! ### Executed operations -/

theorem trim_of_normalizeDevicePath {raw path : String}
    (h : Plan.normalizeDevicePath raw = some path) : trim path = path := by
  obtain ⟨-, hok⟩ := Plan.normalizeDevicePath_checks h
  simp only [Bool.or_eq_true, not_or, Bool.not_eq_true', Bool.not_eq_false] at hok
  have hchars : ∀ c ∈ path.toList, Plan.isDevicePathChar c = true := List.all_eq_true.1 hok.2
  exact trim_eq_self fun c hc => Plan.isWhitespace_of_isDevicePathChar (hchars c hc)

/-- A spelling below `/dev/` is the name that it stands for. -/
theorem eq_of_normalizeDevicePath {raw path : String} (htrim : trim raw = raw)
    (hdev : startsWith raw "/dev/" = true) (h : Plan.normalizeDevicePath raw = some path) :
    path = raw := by
  simp only [Plan.normalizeDevicePath, htrim, hdev, if_true] at h
  split_ifs at h
  exact (Option.some.inj h).symm

theorem spelling_eq_of_target (htarget : op.target = some partition)
    (hdev : startsWith op.spelling "/dev/" = true) : op.spelling = partition :=
  (eq_of_normalizeDevicePath (by rw [PartitionOperation.spelling, valueString, trim_trim]) hdev
    htarget).symm

theorem spelling_ne_empty (htarget : op.target = some partition) : op.spelling ≠ "" := by
  intro hempty
  have hnone : Plan.normalizeDevicePath "" = none := by decide
  rw [PartitionOperation.target, show valueString op.params "partition" = "" from hempty, hnone]
    at htarget
  cases htarget

/-- Operations of one spelling name one partition. -/
theorem target_eq_of_spelling {op' : PartitionOperation} (h : op'.spelling = op.spelling) :
    op'.target = op.target := by
  rw [PartitionOperation.target, PartitionOperation.target]
  exact congrArg Plan.normalizeDevicePath h

theorem valueString_set_self {fields : List (String × Value)} (key text : String) :
    valueString (.object (Value.setField key (.string text) fields)) key = trim text := by
  simp only [valueString, Value.get, Value.lookup_setField, Option.bind_some, Value.asStr,
    Option.getD_some]

theorem valueString_set_ne {fields : List (String × Value)} {key other : String} (h : other ≠ key)
    (v : Value) :
    valueString (.object (Value.setField key v fields)) other =
      valueString (.object fields) other := by
  simp only [valueString, Value.get, Value.lookup_setField_of_ne h]

/-- What stands in a journal after a `create` has run. -/
theorem executedOp_create (hkind : op.kind = .create) (hobject : isObject op.params = true)
    (hdevice : Plan.normalizeDevicePath name = some name) :
    (executedOp name op).spelling = name ∧ (executedOp name op).target = some name ∧
      (executedOp name op).mountpoint = op.mountpoint ∧
      (executedOp name op).fsType = op.fsType ∧ isObject (executedOp name op).params = true := by
  have hexecuted : (executedOp name op).params = markCreated op.params name := by
    rw [executedOp, if_pos hkind]
  cases hparams : op.params with
  | object fields =>
    have hmarked : markCreated op.params name =
        .object (Value.setField "_created_this_journal" (.bool true)
          (Value.setField "partition" (.string name) fields)) := by
      rw [hparams, markCreated, Value.set, Value.set]
    have hspelling : (executedOp name op).spelling = name := by
      rw [PartitionOperation.spelling, hexecuted, hmarked, valueString_set_ne (by decide),
        valueString_set_self, trim_of_normalizeDevicePath hdevice]
    refine ⟨hspelling, ?_, ?_, ?_, ?_⟩
    · rw [PartitionOperation.target]
      exact (congrArg Plan.normalizeDevicePath hspelling).trans hdevice
    · rw [PartitionOperation.mountpoint, PartitionOperation.mountpoint, hexecuted, hmarked,
        valueString_set_ne (by decide), valueString_set_ne (by decide), hparams]
    · rw [PartitionOperation.fsType, PartitionOperation.fsType, hexecuted, hmarked,
        valueString_set_ne (by decide), valueString_set_ne (by decide), hparams]
    · rw [hexecuted, hmarked, isObject]
  | _ =>
    rw [hparams] at hobject
    cases hobject

@[simp] theorem executedOp_kind (name : String) (op : PartitionOperation) :
    (executedOp name op).kind = op.kind := by
  unfold executedOp
  split_ifs
  · rfl
  · rfl

@[simp] theorem executedOp_index (name : String) (op : PartitionOperation) :
    (executedOp name op).index = op.index := by
  unfold executedOp
  split_ifs
  · rfl
  · rfl

theorem executedOp_of_ne (hkind : op.kind ≠ .create) : executedOp name op = op := by
  rw [executedOp, if_neg hkind]

theorem valueString_of_not_isObject {params : Value} (h : isObject params = false) (key : String) :
    valueString params key = "" := by
  cases params with
  | object fields => cases h
  | _ => rfl

/-- An accepted `create` has parameters. -/
theorem isObject_of_createErrors {params : Value} (h : createErrors ctx s params = []) :
    isObject params = true := by
  have hstart := (createErrors_eq_nil h).start_pos
  cases params with
  | object fields => rfl
  | _ => simp [valueI64, Value.get] at hstart

/-- So has an operation that names a partition. -/
theorem isObject_of_target (htarget : op.target = some partition) : isObject op.params = true := by
  by_contra hobject
  rw [Bool.not_eq_true] at hobject
  refine spelling_ne_empty htarget ?_
  exact valueString_of_not_isObject hobject "partition"

/-! ### Normalized mount points -/

/-- A mount point without its trailing slashes. -/
def normalMount (mountpoint : String) : String :=
  if mountpoint.utf8ByteSize > 1 then trimEndMatches mountpoint '/' else mountpoint

theorem validatedMountpoint_eq_normalMount {raw fstype mount : String} (htrim : trim raw = raw)
    (h : validatedMountpoint raw fstype = .ok mount) : mount = normalMount raw := by
  by_cases hempty : raw = ""
  · rw [validatedMountpoint, if_pos hempty, Except.ok.injEq] at h
    rw [← h, hempty]
    decide
  obtain ⟨hnormal, -, -⟩ := validatedMountpoint_eq_ok h hempty
  obtain ⟨-, hswap, rfl⟩ | ⟨path, -, hpath, rfl⟩ := Manual.normalizeMountpoint_eq_ok hnormal
  · rw [htrim] at hswap
    rw [hswap]
    decide
  · obtain ⟨rfl, -⟩ := Manual.safePath_spec hpath
    rw [htrim, normalMount]

theorem mountpoint_trim (op : PartitionOperation) : trim op.mountpoint = op.mountpoint := by
  rw [PartitionOperation.mountpoint, valueString, trim_trim]

theorem createMount_eq_normalMount (h : createErrors ctx s op.params = []) :
    createMount op.params = normalMount op.mountpoint := by
  simp only [createErrors, List.append_eq_nil_iff] at h
  have hvalid := h.1.1.1.1.1.1.1.1
  unfold createMount
  split at hvalid
  · rename_i mount hok
    exact validatedMountpoint_eq_normalMount (mountpoint_trim op) hok
  · cases hvalid

theorem setMount_eq_normalMount {region : Region}
    (h : setMountpointErrors s partition region op.params = []) :
    setMount region op.params = normalMount op.mountpoint := by
  simp only [setMountpointErrors, List.append_eq_nil_iff] at h
  have hvalid := h.1.1.1
  unfold setMount
  split at hvalid
  · rename_i mount hok
    exact validatedMountpoint_eq_normalMount (mountpoint_trim op) hok
  · cases hvalid

/-! ### The mount points on the disk as a replay -/

/-- What an executed operation does to the mount points on the disk. -/
def placedEdit (op : PartitionOperation) : Edit String String :=
  match op.kind, op.target with
  | .newTable, _ => .clear
  | .create, some partition | .setMountpoint, some partition =>
      if normalMount op.mountpoint = "" then .drop partition
      else .put partition (normalMount op.mountpoint)
  | .delete, some partition => .drop partition
  | _, _ => .skip

theorem placedEdit_apply_of_assigns (hkind : op.kind = .create ∨ op.kind = .setMountpoint)
    (htarget : op.target = some partition) (mounts : StringMap String) :
    (placedEdit op).apply mounts = assignMount mounts partition (normalMount op.mountpoint) := by
  have hedit : placedEdit op =
      if normalMount op.mountpoint = "" then .drop partition
      else .put partition (normalMount op.mountpoint) := by
    obtain hkind | hkind := hkind <;> simp only [placedEdit, hkind, htarget]
  rw [hedit, assignMount]
  split_ifs
  · rfl
  · rfl

/-! ### The partitions a journal has created -/

/-- A partition that an operation of the journal created. -/
def Extent.isCreated (e : Extent) : Bool :=
  match e.origin with
  | .created _ => true
  | _ => false

@[simp] theorem createdExtent_name (name : String) (op : PartitionOperation) :
    (createdExtent name op).name = name := rfl

@[simp] theorem createdExtent_key (name : String) (op : PartitionOperation) :
    (createdExtent name op).key = createdKey op.index := by
  simp only [Extent.key, createdExtent]

/-- The created partitions of a layout, the latest first. -/
def Layout.createdOnes (layout : Layout) : Layout := layout.filter Extent.isCreated

theorem Extent.isCreated_iff {e : Extent} :
    e.isCreated = true ↔ ∃ index, e.origin = .created index := by
  unfold Extent.isCreated
  cases e.origin with
  | created index => simp
  | _ => simp

theorem Extent.not_isNamed_of_isCreated {e : Extent} (h : e.isCreated = true) : ¬ e.IsNamed := by
  obtain ⟨index, horigin⟩ := Extent.isCreated_iff.1 h
  rintro (hnamed | hnamed)
  · rw [horigin] at hnamed
    cases hnamed
  · rw [horigin] at hnamed
    cases hnamed

theorem Extent.not_isCreated_of_isNamed {e : Extent} (h : e.IsNamed) : e.isCreated = false := by
  cases hcreated : e.isCreated with
  | false => rfl
  | true => exact absurd h (Extent.not_isNamed_of_isCreated hcreated)

theorem biosBootKey_ne_createdKey (index : ℕ) : biosBootKey ≠ createdKey index := by
  intro heq
  have hnew : startsWith biosBootKey "new:" = true := by
    rw [heq]
    exact startsWith_append "new:" (toString index)
  exact absurd hnew (by decide)

/-- A created partition is on file if it is the latest one of its key. -/
theorem Tracks.onFile_iff {allocated : StringMap Region} {layout : Layout}
    (h : Tracks allocated layout) {e : Extent} (hcreated : e.isCreated = true) :
    layout.OnFile e ↔ layout.createdOnes.find? (fun x => decide (x.key = e.key)) = some e := by
  obtain ⟨index, horigin⟩ := Extent.isCreated_iff.1 hcreated
  have hkey : e.key = createdKey index := by simp only [Extent.key, horigin]
  have hfind : layout.createdOnes.find? (fun x => decide (x.key = e.key)) =
      layout.find? fun x => decide (x.key = createdKey index) := by
    rw [Layout.createdOnes, List.find?_filter, hkey]
    refine List.find?_congr fun x hx => ?_
    cases hx' : x.origin with
    | created index' => simp [Extent.isCreated, hx']
    | biosBoot =>
      have hne : x.key ≠ createdKey index := by
        simp only [Extent.key, hx']
        exact biosBootKey_ne_createdKey index
      simp [hne]
    | _ =>
      have hnamed : x.IsNamed := by simp [Extent.IsNamed, hx']
      have hne : x.key ≠ createdKey index := by
        rw [hnamed.key_eq]
        exact (createdKey_ne_of_dev (h.named_dev x hx hnamed)).symm
      simp [hne]
  rw [hfind]
  constructor
  · intro hfile
    exact hfile index horigin
  · intro hfile index' horigin'
    rw [horigin] at horigin'
    cases horigin'
    exact hfile

/-- A created partition has another name than those on record. -/
theorem Tracks.name_ne_of_isCreated {allocated : StringMap Region} {layout : Layout}
    (h : Tracks allocated layout) (hdev : startsWith partition "/dev/" = true) {region : Region}
    (hregion : allocated.lookup partition = some region) {e : Extent} (he : e ∈ layout)
    (hcreated : e.isCreated = true) : e.name ≠ partition := fun hname =>
  Extent.not_isNamed_of_isCreated hcreated (h.isNamed hdev hregion he hname)

/-- An accepted operation touches no created partition, unless it makes a new table. -/
theorem Stepped.createdOnes_eq (h : Stepped ctx s op s') {layout : Layout}
    (htracks : Tracks s.allocated layout) :
    Layout.createdOnes (applyOperation name layout op) =
      if op.kind = .newTable then []
      else if op.kind = .create then createdExtent name op :: layout.createdOnes
      else layout.createdOnes := by
  cases h with
  | newTable hkind =>
    rw [if_pos hkind]
    simp only [applyOperation, hkind]
    split_ifs
    · simp [Layout.createdOnes, biosBootExtent, Extent.isCreated]
    · rfl
  | create hkind herrors =>
    rw [if_neg (by simp [hkind]), if_pos hkind]
    simp only [applyOperation, hkind, Layout.createdOnes]
    exact List.filter_cons_of_pos (by simp [createdExtent, Extent.isCreated])
  | delete hkind htarget hregion hallocated hmounts =>
    rw [if_neg (by simp [hkind]), if_neg (by simp [hkind])]
    simp only [applyOperation, hkind, htarget, Layout.createdOnes, List.filter_filter]
    refine List.filter_congr fun e he => ?_
    cases hcreated : e.isCreated with
    | false => rfl
    | true =>
      simpa using htracks.name_ne_of_isCreated (target_dev htarget) hregion he hcreated
  | change hkind htarget hregion hallocated hfstype hmounts =>
    have hkind' : op.kind ≠ .newTable ∧ op.kind ≠ .create := by
      obtain hkind | hkind := hkind <;> simp [hkind]
    rw [if_neg hkind'.1, if_neg hkind'.2]
    -- the operation changes extents with a name on record, and leaves them uncreated
    have hmap : ∀ g : Extent → Extent, (∀ e, e.IsNamed → (g e).IsNamed) →
        Layout.createdOnes (layout.map fun e => if some e.name = op.target then g e else e) =
          layout.createdOnes := by
      intro g hg
      have hsame : ∀ e ∈ layout,
          (if some e.name = op.target then g e else e).isCreated = e.isCreated := by
        intro e he
        split_ifs with hname
        · have hnamed := htracks.isNamed (target_dev htarget) hregion he
            (Option.some.inj (hname.trans htarget))
          rw [Extent.not_isCreated_of_isNamed hnamed, Extent.not_isCreated_of_isNamed (hg e hnamed)]
        · rfl
      have hfilter : layout.filter
          (Extent.isCreated ∘ fun e => if some e.name = op.target then g e else e) =
          layout.filter Extent.isCreated := List.filter_congr hsame
      rw [Layout.createdOnes, List.filter_map, hfilter, Layout.createdOnes]
      conv_rhs => rw [← List.map_id (layout.filter Extent.isCreated)]
      refine List.map_congr_left fun e he => ?_
      obtain ⟨he, hcreated⟩ := List.mem_filter.1 he
      have hne := htracks.name_ne_of_isCreated (target_dev htarget) hregion he hcreated
      rw [if_neg fun hname => hne (Option.some.inj (hname.trans htarget)), id]
    obtain hkind | hkind := hkind
    · simp only [applyOperation, hkind]
      exact hmap _ fun e _ => .inr (by simp only [Extent.resize])
    · simp only [applyOperation, hkind]
      exact hmap _ fun e hnamed => Extent.format_isNamed op.params hnamed
  | superseded hsuperseded =>
    rw [if_neg (by simp [hsuperseded.1]), if_neg (by simp [hsuperseded.1])]
    simp only [applyOperation, hsuperseded.1]
  | setMountpoint hkind htarget hregion herrors hallocated hmounts =>
    rw [if_neg (by simp [hkind]), if_neg (by simp [hkind])]
    simp only [applyOperation, hkind]

/-! ### The assignments of `validate` on the disk -/

/-- An operation keeps the mount points of the partitions that it does not name. -/
theorem lookup_after_of_untouched (placed : Placed) (hkind : op.kind ≠ .newTable)
    (hcreate : op.kind = .create → partition ≠ name)
    (htarget : op.kind = .delete ∨ op.kind = .setMountpoint → op.target ≠ some partition) :
    (placed.after name op).mounts.lookup partition = placed.mounts.lookup partition := by
  cases hop : op.kind with
  | newTable => exact absurd hop hkind
  | create =>
    simp only [Placed.after, mountsAfter, hop]
    exact lookup_assignMount_ne (hcreate hop)
  | delete =>
    have hother := htarget (.inl hop)
    simp only [Placed.after, mountsAfter, hop]
    cases htarget' : op.target with
    | none => rfl
    | some target =>
      have hne : partition ≠ target := by
        rintro rfl
        exact hother htarget'
      exact AList.lookup_erase_ne hne
  | setMountpoint => exact mounts_setMountpoint_ne hop (htarget (.inr hop))
  | _ => simp only [Placed.after, mountsAfter, hop]

/-- Mount points are given to partitions of the table. -/
def Placed.OnDisk (placed : Placed) : Prop :=
  ∀ partition mount, placed.mounts.lookup partition = some mount →
    ∃ e ∈ placed.layout, e.name = partition

theorem Placed.OnDisk.step (h : placed.OnDisk) (name : String) (op : PartitionOperation) :
    (placed.after name op).OnDisk := by
  intro partition mount hmount
  cases hkind : op.kind with
  | newTable =>
    simp only [Placed.after, mountsAfter, hkind] at hmount
    cases hmount
  | create =>
    simp only [Placed.after, mountsAfter, applyOperation, hkind] at hmount ⊢
    by_cases hsame : partition = name
    · exact ⟨createdExtent name op, List.mem_cons_self, by simp only [createdExtent, hsame]⟩
    · rw [lookup_assignMount_ne hsame] at hmount
      obtain ⟨e, he, hname⟩ := h partition mount hmount
      exact ⟨e, List.mem_cons_of_mem _ he, hname⟩
  | delete =>
    have hold : placed.mounts.lookup partition = some mount ∧ op.target ≠ some partition := by
      simp only [Placed.after, mountsAfter, hkind] at hmount
      cases htarget : op.target with
      | none =>
        rw [htarget] at hmount
        exact ⟨hmount, by simp⟩
      | some target =>
        rw [htarget] at hmount
        have hne : partition ≠ target := by
          rintro rfl
          rw [AList.lookup_erase] at hmount
          cases hmount
        rw [AList.lookup_erase_ne hne] at hmount
        exact ⟨hmount, fun heq => hne (Option.some.inj heq).symm⟩
    obtain ⟨e, he, rfl⟩ := h partition mount hold.1
    refine ⟨e, ?_, rfl⟩
    simp only [Placed.after, applyOperation, hkind, List.mem_filter]
    exact ⟨he, decide_eq_true hold.2.symm⟩
  | setMountpoint =>
    rw [layout_setMountpoint hkind]
    by_cases htarget : op.target = some partition
    · simp only [Placed.after, mountsAfter, hkind, htarget] at hmount
      split at hmount
      · rename_i e hfind
        exact ⟨e, List.mem_of_find?_eq_some hfind, by simpa using List.find?_some hfind⟩
      · exact h partition mount hmount
    · rw [mounts_setMountpoint_ne hkind htarget] at hmount
      exact h partition mount hmount
  | resize =>
    simp only [Placed.after, mountsAfter, applyOperation, hkind] at hmount ⊢
    obtain ⟨e, he, hname⟩ := h partition mount hmount
    refine ⟨_, List.mem_map_of_mem he, ?_⟩
    split_ifs
    · rw [Extent.resize_name, hname]
    · exact hname
  | format =>
    simp only [Placed.after, mountsAfter, applyOperation, hkind] at hmount ⊢
    obtain ⟨e, he, hname⟩ := h partition mount hmount
    refine ⟨_, List.mem_map_of_mem he, ?_⟩
    split_ifs
    · rw [Extent.format_name, hname]
    · exact hname
  | other text =>
    simp only [Placed.after, mountsAfter, applyOperation, hkind] at hmount ⊢
    exact h partition mount hmount

theorem Executes.onDisk (h : Executes start ops placed done) (hstart : start.OnDisk) :
    placed.OnDisk := by
  induction h with
  | nil => exact hstart
  | snoc h hname hdevice op ih => exact ih.step _ op

/-- No mount point is assigned twice. -/
def Distinct (s : ValidateState) : Prop :=
  ∀ key key' mount, s.mountAssignments.lookup key = some mount →
    s.mountAssignments.lookup key' = some mount → key = key'

theorem exists_entry {mounts : StringMap String} {key mount : String}
    (h : mounts.lookup key = some mount) :
    ∃ entry ∈ mounts.entries, entry.1 = key ∧ entry.2 = mount :=
  ⟨⟨key, mount⟩, AList.mem_lookup_iff.1 h, rfl, rfl⟩

/-- A new assignment keeps the mount points distinct if no other partition has it. -/
theorem distinct_assignMount {mounts : StringMap String} {key mount : String}
    (h : ∀ key key' mount, mounts.lookup key = some mount → mounts.lookup key' = some mount →
      key = key')
    (hnew : mount ≠ "" → ∀ key', key' ≠ key → mounts.lookup key' ≠ some mount) :
    ∀ key₁ key₂ mount', (assignMount mounts key mount).lookup key₁ = some mount' →
      (assignMount mounts key mount).lookup key₂ = some mount' → key₁ = key₂ := by
  have hself : ∀ mount', (assignMount mounts key mount).lookup key = some mount' →
      mount ≠ "" ∧ mount' = mount := by
    intro mount' hmount'
    rw [lookup_assignMount_self] at hmount'
    split_ifs at hmount' with hempty
    exact ⟨hempty, (Option.some.inj hmount').symm⟩
  intro key₁ key₂ mount' h₁ h₂
  by_cases hkey₁ : key₁ = key
  · by_cases hkey₂ : key₂ = key
    · rw [hkey₁, hkey₂]
    · obtain ⟨hne, rfl⟩ := hself mount' (hkey₁ ▸ h₁)
      rw [lookup_assignMount_ne hkey₂] at h₂
      exact absurd h₂ (hnew hne key₂ hkey₂)
  · rw [lookup_assignMount_ne hkey₁] at h₁
    by_cases hkey₂ : key₂ = key
    · obtain ⟨hne, rfl⟩ := hself mount' (hkey₂ ▸ h₂)
      exact absurd h₁ (hnew hne key₁ hkey₁)
    · rw [lookup_assignMount_ne hkey₂] at h₂
      exact h key₁ key₂ mount' h₁ h₂

theorem Stepped.distinct (h : Stepped ctx s op s') (hdistinct : Distinct s) : Distinct s' := by
  cases h with
  | newTable hkind =>
    intro key key' mount hkey
    cases hkey
  | create hkind herrors =>
    simp only [createErrors, List.append_eq_nil_iff, complain_eq_nil] at herrors
    have hfree := herrors.2
    intro key key' mount hkey hkey'
    simp only [createState] at hkey hkey'
    by_cases hempty : createMount op.params = ""
    · rw [if_pos hempty] at hkey hkey'
      exact hdistinct key key' mount hkey hkey'
    · have hassign : s.mountAssignments.insert (createdKey op.index) (createMount op.params) =
          assignMount s.mountAssignments (createdKey op.index) (createMount op.params) := by
        rw [assignMount, if_neg hempty]
      rw [if_neg hempty, hassign] at hkey hkey'
      refine distinct_assignMount hdistinct (fun hne other _ hother => ?_) key key' mount hkey hkey'
      obtain ⟨entry, hentry, -, hsame⟩ := exists_entry hother
      exact hfree ⟨hne, entry, hentry, hsame⟩
  | delete hkind htarget hregion hallocated hmounts =>
    rename_i target region
    have hold : ∀ {key mount}, s'.mountAssignments.lookup key = some mount →
        s.mountAssignments.lookup key = some mount := by
      intro key mount hkey
      rw [hmounts] at hkey
      by_cases hsame : key = target
      · rw [hsame, AList.lookup_erase] at hkey
        cases hkey
      · rwa [AList.lookup_erase_ne hsame] at hkey
    exact fun key key' mount hkey hkey' => hdistinct key key' mount (hold hkey) (hold hkey')
  | change hkind htarget hregion hallocated hfstype hmounts =>
    unfold Distinct
    rw [hmounts]
    exact hdistinct
  | superseded hsuperseded => exact hdistinct
  | setMountpoint hkind htarget hregion herrors hallocated hmounts =>
    rename_i target region
    simp only [setMountpointErrors, List.append_eq_nil_iff, complain_eq_nil] at herrors
    have hfree := herrors.2
    unfold Distinct
    rw [hmounts]
    refine distinct_assignMount hdistinct fun hne other hother hlookup => ?_
    obtain ⟨entry, hentry, hkey, hsame⟩ := exists_entry hlookup
    exact hfree ⟨hne, entry, hentry, hkey ▸ hother, hsame⟩

/-- The assignments of `validate` against the partitions that the journal created. Of several ones
with one key the latest is on file. -/
structure Linked (s : ValidateState) (placed : Placed) : Prop where
  created : ∀ e, placed.layout.createdOnes.find? (fun x => decide (x.key = e.key)) = some e →
    ∀ mount, placed.mounts.lookup e.name = some mount → s.mountAssignments.lookup e.key = some mount
  source : ∀ key mount, s.mountAssignments.lookup key = some mount →
    (∃ e ∈ placed.layout, e.IsNamed ∧ e.name = key) ∨
      ∃ e ∈ placed.layout.createdOnes, e.key = key ∧ placed.mounts.lookup e.name = some mount
  origin : ∀ e ∈ placed.layout, ∀ mount, placed.mounts.lookup e.name = some mount →
    e.IsNamed ∨ e.isCreated = true

theorem Layout.mem_createdOnes {layout : Layout} {e : Extent} :
    e ∈ layout.createdOnes ↔ e ∈ layout ∧ e.isCreated = true := List.mem_filter

theorem Extent.key_ne_of_isCreated {e : Extent} (h : e.isCreated = true)
    (hdev : startsWith partition "/dev/" = true) : e.key ≠ partition := by
  obtain ⟨index, horigin⟩ := Extent.isCreated_iff.1 h
  simp only [Extent.key, horigin]
  exact createdKey_ne_of_dev hdev

/-- A partition after a `resize` or a `format` of one on record, with its origin. -/
theorem Tracks.mem_change {allocated : StringMap Region} (h : Tracks allocated placed.layout)
    (hkind : op.kind = .resize ∨ op.kind = .format) {region : Region}
    (htarget : op.target = some partition) (hregion : allocated.lookup partition = some region)
    (name : String) :
    (∀ e ∈ placed.layout, ∃ e' ∈ (placed.after name op).layout, e'.name = e.name ∧
      (e.IsNamed → e'.IsNamed)) ∧
    ∀ e' ∈ (placed.after name op).layout, ∃ e ∈ placed.layout, e'.name = e.name ∧
      (e' = e ∨ e.IsNamed ∧ e'.IsNamed) := by
  have hnamed : ∀ e ∈ placed.layout, some e.name = op.target → e.IsNamed := fun e he hname =>
    h.isNamed (target_dev htarget) hregion he (Option.some.inj (hname.trans htarget))
  have hmap : ∀ g : Extent → Extent, (∀ e, (g e).name = e.name) →
      (∀ e, e.IsNamed → (g e).IsNamed) →
      (placed.after name op).layout =
        (placed.layout.map fun e => if some e.name = op.target then g e else e) →
      (∀ e ∈ placed.layout, ∃ e' ∈ (placed.after name op).layout, e'.name = e.name ∧
        (e.IsNamed → e'.IsNamed)) ∧
      ∀ e' ∈ (placed.after name op).layout, ∃ e ∈ placed.layout, e'.name = e.name ∧
        (e' = e ∨ e.IsNamed ∧ e'.IsNamed) := by
    intro g hname hg hlayout
    rw [hlayout]
    constructor
    · intro e he
      refine ⟨_, List.mem_map_of_mem he, ?_, fun hn => ?_⟩
      · split_ifs
        · exact hname e
        · rfl
      · split_ifs
        · exact hg e hn
        · exact hn
    · intro e' he'
      obtain ⟨e, he, rfl⟩ := List.mem_map.1 he'
      refine ⟨e, he, ?_⟩
      split_ifs with hsame
      · exact ⟨hname e, .inr ⟨hnamed e he hsame, hg e (hnamed e he hsame)⟩⟩
      · exact ⟨rfl, .inl rfl⟩
  obtain hkind | hkind := hkind
  · refine hmap (fun e => e.resize op.params) (fun e => e.resize_name op.params) ?_ ?_
    · exact fun e _ => .inr (by simp only [Extent.resize])
    · simp only [Placed.after, applyOperation, hkind]
  · refine hmap (fun e => e.format op.params) (fun e => e.format_name op.params) ?_ ?_
    · exact fun e hn => Extent.format_isNamed op.params hn
    · simp only [Placed.after, applyOperation, hkind]

/-- An accepted operation other than a new table keeps the mount points of created partitions. -/
theorem Stepped.lookup_created (h : Stepped ctx s op s')
    (htracks : Tracks s.allocated placed.layout) (hname : name ∉ placed.layout.names)
    (hrecord : isSuperseded ctx op → ∀ partition, op.target = some partition →
      ∃ region, s.allocated.lookup partition = some region)
    (hkind : op.kind ≠ .newTable) {e : Extent} (he : e ∈ placed.layout.createdOnes) :
    (placed.after name op).mounts.lookup e.name = placed.mounts.lookup e.name := by
  obtain ⟨he, hcreated⟩ := Layout.mem_createdOnes.1 he
  refine lookup_after_of_untouched placed hkind (fun _ => ne_name_of_mem he hname) ?_
  intro hnames htarget
  have hregion : ∃ region, s.allocated.lookup e.name = some region := by
    have hkind' : op.kind = .delete ∨ op.kind = .format ∨ op.kind = .setMountpoint := by
      obtain hkind' | hkind' := hnames
      · exact .inl hkind'
      · exact .inr (.inr hkind')
    obtain hsuperseded | hregion := h.on_record hkind' htarget
    · exact hrecord hsuperseded e.name htarget
    · exact hregion
  obtain ⟨region, hregion⟩ := hregion
  exact htracks.name_ne_of_isCreated (target_dev htarget) hregion he hcreated rfl

theorem Linked.create (h : Linked s placed) (hkind : op.kind = .create)
    (hstep : Stepped ctx s op s') (htracks : Tracks s.allocated placed.layout)
    (hname : name ∉ placed.layout.names) : Linked (createState s op) (placed.after name op) := by
  have hones : (placed.after name op).layout.createdOnes =
      createdExtent name op :: placed.layout.createdOnes := by
    have hstep' : Layout.createdOnes (applyOperation name placed.layout op) = _ :=
      hstep.createdOnes_eq htracks
    rwa [if_neg (by simp [hkind]), if_pos hkind] at hstep'
  have hlayout : (placed.after name op).layout = createdExtent name op :: placed.layout := by
    simp only [Placed.after, applyOperation, hkind]
  have hmounts : (placed.after name op).mounts =
      assignMount placed.mounts name (createMount op.params) := by
    simp only [Placed.after, mountsAfter, hkind]
  have hframe : ∀ e ∈ placed.layout,
      (placed.after name op).mounts.lookup e.name = placed.mounts.lookup e.name := by
    intro e he
    rw [hmounts, lookup_assignMount_ne (ne_name_of_mem he hname)]
  refine ⟨fun e hfind mount hmount => ?_, fun key mount hmount => ?_, fun e he mount hmount => ?_⟩
  · rw [hones, List.find?_cons] at hfind
    split at hfind
    · obtain rfl := Option.some.inj hfind
      rw [hmounts, createdExtent_name, lookup_assignMount_self]
        at hmount
      split_ifs at hmount with hempty
      obtain rfl := Option.some.inj hmount
      simp only [createState, if_neg hempty]
      exact AList.lookup_insert _
    · rename_i hne
      have hne : e.key ≠ createdKey op.index := by
        rw [createdExtent_key, decide_eq_false_iff_not] at hne
        exact Ne.symm hne
      have he := List.mem_of_find?_eq_some hfind
      rw [hframe e (Layout.mem_createdOnes.1 he).1] at hmount
      have hold := h.created e hfind mount hmount
      simp only [createState]
      split_ifs
      · exact hold
      · rwa [AList.lookup_insert_ne hne]
  · have hold : s.mountAssignments.lookup key = some mount →
        (∃ e ∈ (placed.after name op).layout, e.IsNamed ∧ e.name = key) ∨
        ∃ e ∈ (placed.after name op).layout.createdOnes, e.key = key ∧
          (placed.after name op).mounts.lookup e.name = some mount := by
      intro hold
      rw [hones, hlayout]
      obtain ⟨e, he, hnamed⟩ | ⟨e, he, hkey', hmount'⟩ := h.source key mount hold
      · exact .inl ⟨e, List.mem_cons_of_mem _ he, hnamed⟩
      · refine .inr ⟨e, List.mem_cons_of_mem _ he, hkey', ?_⟩
        rw [hframe e (Layout.mem_createdOnes.1 he).1, hmount']
    simp only [createState] at hmount
    split_ifs at hmount with hempty
    · exact hold hmount
    · by_cases hsame : key = createdKey op.index
      · rw [hsame, AList.lookup_insert] at hmount
        refine .inr ⟨createdExtent name op, ?_, by rw [createdExtent_key, hsame], ?_⟩
        · rw [hones]
          exact List.mem_cons_self
        · rw [hmounts, createdExtent_name, lookup_assignMount_self,
            if_neg hempty, hmount]
      · rw [AList.lookup_insert_ne hsame] at hmount
        exact hold hmount
  · rw [hlayout] at he
    obtain rfl | he := List.mem_cons.1 he
    · exact .inr (by simp [createdExtent, Extent.isCreated])
    · rw [hframe e he] at hmount
      exact h.origin e he mount hmount

/-- An operation that neither creates a partition nor makes a new table. -/
theorem Linked.other (h : Linked s placed) (hstep : Stepped ctx s op s')
    (htracks : Tracks s.allocated placed.layout) (hname : name ∉ placed.layout.names)
    (hrecord : isSuperseded ctx op → ∀ partition, op.target = some partition →
      ∃ region, s.allocated.lookup partition = some region)
    (hkind : op.kind ≠ .newTable ∧ op.kind ≠ .create)
    (hkept : ∀ e : Extent, e.isCreated = true →
      s'.mountAssignments.lookup e.key = s.mountAssignments.lookup e.key)
    (hsource : ∀ key mount, s'.mountAssignments.lookup key = some mount →
      (∃ e ∈ (placed.after name op).layout, e.IsNamed ∧ e.name = key) ∨
        ∃ e ∈ placed.layout.createdOnes, e.key = key ∧ placed.mounts.lookup e.name = some mount)
    (horigin : ∀ e ∈ (placed.after name op).layout, e ∈ placed.layout ∨ e.IsNamed) :
    Linked s' (placed.after name op) := by
  have hones : (placed.after name op).layout.createdOnes = placed.layout.createdOnes := by
    have hstep' : Layout.createdOnes (applyOperation name placed.layout op) = _ :=
      hstep.createdOnes_eq htracks
    rwa [if_neg hkind.1, if_neg hkind.2] at hstep'
  have hframe : ∀ e ∈ placed.layout.createdOnes,
      (placed.after name op).mounts.lookup e.name = placed.mounts.lookup e.name :=
    fun e he => hstep.lookup_created htracks hname hrecord hkind.1 he
  refine ⟨fun e hfind mount hmount => ?_, fun key mount hmount => ?_, fun e he mount hmount => ?_⟩
  · rw [hones] at hfind
    have he := List.mem_of_find?_eq_some hfind
    rw [hframe e he] at hmount
    rw [hkept e (Layout.mem_createdOnes.1 he).2]
    exact h.created e hfind mount hmount
  · rw [hones]
    obtain hnamed | ⟨e, he, hkey, hmount'⟩ := hsource key mount hmount
    · exact .inl hnamed
    · exact .inr ⟨e, he, hkey, (hframe e he).trans hmount'⟩
  · obtain he | hnamed := horigin e he
    · by_cases htarget : op.target = some e.name ∧
          (op.kind = .delete ∨ op.kind = .setMountpoint)
      · -- only partitions on record are named by an accepted operation
        have hregion : ∃ region, s.allocated.lookup e.name = some region := by
          have hnames : op.kind = .delete ∨ op.kind = .format ∨ op.kind = .setMountpoint := by
            obtain hk | hk := htarget.2
            · exact .inl hk
            · exact .inr (.inr hk)
          obtain hsuperseded | hregion := hstep.on_record hnames htarget.1
          · exact hrecord hsuperseded e.name htarget.1
          · exact hregion
        obtain ⟨region, hregion⟩ := hregion
        exact .inl (htracks.isNamed (target_dev htarget.1) hregion he rfl)
      · rw [lookup_after_of_untouched placed hkind.1 (fun hcreate => absurd hcreate hkind.2)
          fun hnames hsame => htarget ⟨hsame, hnames⟩] at hmount
        exact h.origin e he mount hmount
    · exact .inl hnamed

theorem Linked.step (h : Linked s placed) (hstep : Stepped ctx s op s')
    (htracks : Tracks s.allocated placed.layout) (hname : name ∉ placed.layout.names)
    (hrecord : isSuperseded ctx op → ∀ partition, op.target = some partition →
      ∃ region, s.allocated.lookup partition = some region) :
    Linked s' (placed.after name op) := by
  have hstep' := hstep
  cases hstep with
  | newTable hkind =>
    have hmounts : (placed.after name op).mounts = ∅ := by
      simp only [Placed.after, mountsAfter, hkind]
    refine ⟨fun e _ mount hmount => ?_, fun key mount hmount => ?_, fun e _ mount hmount => ?_⟩
    · rw [hmounts] at hmount
      cases hmount
    · cases hmount
    · rw [hmounts] at hmount
      cases hmount
  | create hkind herrors => exact h.create hkind hstep' htracks hname
  | delete hkind htarget hregion hallocated hmounts =>
    have hlayout : (placed.after name op).layout =
        placed.layout.filter fun e => some e.name ≠ op.target := by
      simp only [Placed.after, applyOperation, hkind]
    refine h.other hstep' htracks hname hrecord (by simp [hkind]) ?_ ?_ ?_
    · intro e hcreated
      rw [hmounts, AList.lookup_erase_ne (e.key_ne_of_isCreated hcreated (target_dev htarget))]
    · intro key mount hmount
      rename_i target region
      have hne : key ≠ target := by
        rintro rfl
        rw [hmounts, AList.lookup_erase] at hmount
        cases hmount
      rw [hmounts, AList.lookup_erase_ne hne] at hmount
      obtain ⟨e, he, hnamed, rfl⟩ | hcreated := h.source key mount hmount
      · refine .inl ⟨e, ?_, hnamed, rfl⟩
        rw [hlayout, List.mem_filter, htarget]
        exact ⟨he, by simpa using hne⟩
      · exact .inr hcreated
    · intro e he
      rw [hlayout] at he
      exact .inl (List.mem_filter.1 he).1
  | change hkind htarget hregion hallocated hfstype hmounts =>
    obtain ⟨hforward, hbackward⟩ := htracks.mem_change hkind htarget hregion name
    have hkind' : op.kind ≠ .newTable ∧ op.kind ≠ .create := by
      obtain hkind | hkind := hkind <;> simp [hkind]
    refine h.other hstep' htracks hname hrecord hkind' ?_ ?_ ?_
    · intro e _
      rw [hmounts]
    · intro key mount hmount
      rw [hmounts] at hmount
      obtain ⟨e, he, hnamed, rfl⟩ | hcreated := h.source key mount hmount
      · obtain ⟨e', he', hname', hnamed'⟩ := hforward e he
        exact .inl ⟨e', he', hnamed' hnamed, hname'⟩
      · exact .inr hcreated
    · intro e' he'
      obtain ⟨e, he, -, rfl | ⟨-, hnamed⟩⟩ := hbackward e' he'
      · exact .inl he
      · exact .inr hnamed
  | superseded hsuperseded =>
    have hlayout : (placed.after name op).layout = placed.layout :=
      layout_setMountpoint hsuperseded.1
    refine h.other hstep' htracks hname hrecord (by simp [hsuperseded.1]) (fun e _ => rfl) ?_ ?_
    · intro key mount hmount
      rw [hlayout]
      exact h.source key mount hmount
    · intro e he
      rw [hlayout] at he
      exact .inl he
  | setMountpoint hkind htarget hregion herrors hallocated hmounts =>
    rename_i target region
    have hlayout : (placed.after name op).layout = placed.layout := layout_setMountpoint hkind
    refine h.other hstep' htracks hname hrecord (by simp [hkind]) ?_ ?_ ?_
    · intro e hcreated
      rw [hmounts, lookup_assignMount_ne (e.key_ne_of_isCreated hcreated (target_dev htarget))]
    · intro key mount hmount
      rw [hlayout]
      by_cases hsame : key = target
      · obtain ⟨e, he, hnamed, hname'⟩ := htracks.found target region (target_dev htarget) hregion
        exact .inl ⟨e, he, hnamed, hname'.trans hsame.symm⟩
      · rw [hmounts, lookup_assignMount_ne hsame] at hmount
        exact h.source key mount hmount
    · intro e he
      rw [hlayout] at he
      exact .inl he

section Run

variable {journal : PartitionJournal} {parts : List PartitionRecord} {tableType : String}
  {size : UInt64}

/-- The mount points on the disk go back to the executed operations. A `set_mountpoint` that a later
one supersedes may be refused, so the partition has to wait for that one. -/
theorem mounts_eq_replay (haccepted : validate journal parts tableType size = [])
    (hlisting : IsListing parts) (hops : journal.ops = before ++ after)
    (h : Executes (initialPlaced parts) before placed done) (hnone : ¬ Awaits after partition) :
    placed.mounts.lookup partition = (replay placedEdit done).lookup partition := by
  induction h generalizing after with
  | nil => rfl
  | @snoc ops done placed h name hname hdevice op ih =>
    have hops' := hops
    rw [List.append_assoc, List.singleton_append] at hops'
    have hstep := stepped_of_accepted haccepted hops'
    have hfollows := follows_of_executes haccepted hlisting hops' h
    have htracks := tracks_of_executes haccepted hlisting hops' h
    rw [replay_concat]
    generalize hstate : runState (context journal size) (initialState parts tableType)
      (ops ++ [op]) = s' at hstep
    cases hstep with
    | newTable hkind =>
      have hedit : placedEdit (executedOp name op) = .clear := by
        simp only [placedEdit, executedOp_kind, hkind]
      rw [hedit]
      simp only [Placed.after, mountsAfter, hkind, Edit.apply]
    | create hkind herrors =>
      obtain ⟨-, htarget, hmount, -, -⟩ :=
        executedOp_create hkind (isObject_of_createErrors herrors) hdevice
      rw [placedEdit_apply_of_assigns (.inl (by rw [executedOp_kind, hkind])) htarget, hmount]
      simp only [Placed.after, mountsAfter, hkind]
      rw [createMount_eq_normalMount herrors]
      by_cases hsame : partition = name
      · rw [hsame, lookup_assignMount_self, lookup_assignMount_self]
      · rw [lookup_assignMount_ne hsame, lookup_assignMount_ne hsame]
        exact ih hops' (mt (awaits_cons_of_kind (by simp [hkind])).1 hnone)
    | delete hkind htarget hregion hallocated hmounts =>
      rename_i target region
      have hedit : placedEdit (executedOp name op) = .drop target := by
        rw [executedOp_of_ne (by simp [hkind])]
        simp only [placedEdit, hkind, htarget]
      rw [hedit]
      simp only [Placed.after, mountsAfter, hkind, htarget, Edit.apply]
      by_cases hsame : partition = target
      · rw [hsame, AList.lookup_erase, AList.lookup_erase]
      · rw [AList.lookup_erase_ne hsame, AList.lookup_erase_ne hsame]
        exact ih hops' (mt (awaits_cons_of_kind (by simp [hkind])).1 hnone)
    | change hkind htarget hregion hallocated hfstype hmounts =>
      have hkind' : op.kind ≠ .create ∧ op.kind ≠ .setMountpoint := by
        obtain hkind | hkind := hkind <;> simp [hkind]
      have hedit : placedEdit (executedOp name op) = .skip := by
        rw [executedOp_of_ne hkind'.1]
        obtain hkind | hkind := hkind <;> simp only [placedEdit, hkind]
      have hmounts : (placed.after name op).mounts = placed.mounts := by
        obtain hkind | hkind := hkind <;> simp only [Placed.after, mountsAfter, hkind]
      rw [hedit, hmounts]
      exact ih hops' (mt (awaits_cons_of_kind hkind'.2).1 hnone)
    | superseded hsuperseded =>
      have hother : op.target ≠ some partition := fun htarget =>
        hnone (awaits_of_isSuperseded hops' hsuperseded htarget)
      have hconcerns : ¬ (placedEdit (executedOp name op)).Concerns partition := by
        rw [executedOp_of_ne (by simp [hsuperseded.1])]
        cases htarget : op.target with
        | none => simp [placedEdit, hsuperseded.1, htarget, Edit.Concerns]
        | some target =>
          have hne : target ≠ partition := by
            rintro rfl
            exact hother htarget
          simp only [placedEdit, hsuperseded.1, htarget]
          split_ifs
          · exact hne
          · exact hne
      rw [Edit.lookup_apply_of_not_concerns hconcerns, mounts_setMountpoint_ne hsuperseded.1 hother]
      exact ih hops' (mt (awaits_cons_of_target hother).1 hnone)
    | setMountpoint hkind htarget hregion herrors hallocated hmounts =>
      rename_i target region
      rw [executedOp_of_ne (by simp [hkind]), placedEdit_apply_of_assigns (.inr hkind) htarget,
        mounts_setMountpoint hfollows htracks hkind htarget hregion,
        setMount_eq_normalMount herrors]
      by_cases hsame : partition = target
      · rw [hsame, lookup_assignMount_self, lookup_assignMount_self]
      · rw [lookup_assignMount_ne hsame, lookup_assignMount_ne hsame]
        have hother : op.target ≠ some partition := by
          rw [htarget]
          exact fun heq => hsame (Option.some.inj heq).symm
        exact ih hops' (mt (awaits_cons_of_target hother).1 hnone)

/-- The partition of a superseded `set_mountpoint` is on record. -/
theorem on_record_of_isSuperseded (haccepted : validate journal parts tableType size = [])
    (hops : journal.ops = before ++ op :: after)
    (hsuperseded : isSuperseded (context journal size) op) (htarget : op.target = some partition) :
    ∃ region, (runState (context journal size) (initialState parts tableType)
      before).allocated.lookup partition = some region := by
  cases hregion : (runState (context journal size) (initialState parts tableType)
      before).allocated.lookup partition with
  | some region => exact ⟨region, rfl⟩
  | none =>
    have hnone := not_awaits_of_lookup_none haccepted (target_dev htarget) hops hregion
    exact absurd ⟨op, List.mem_cons_self, hsuperseded.1, htarget⟩ hnone

theorem linked_of_executes (haccepted : validate journal parts tableType size = [])
    (hlisting : IsListing parts) (hops : journal.ops = before ++ after)
    (h : Executes (initialPlaced parts) before placed done) :
    Linked (runState (context journal size) (initialState parts tableType) before) placed := by
  induction h generalizing after with
  | nil =>
    refine ⟨fun e _ mount hmount => ?_, fun key mount hmount => ?_, fun e _ mount hmount => ?_⟩
    · cases hmount
    · cases hmount
    · cases hmount
  | snoc h hname hdevice op ih =>
    have hops' := hops
    rw [List.append_assoc, List.singleton_append] at hops'
    exact (ih hops').step (stepped_of_accepted haccepted hops')
      (tracks_of_executes haccepted hlisting hops' h) hname
      fun hsuperseded partition htarget =>
        on_record_of_isSuperseded haccepted hops' hsuperseded htarget

theorem distinct_of_accepted (haccepted : validate journal parts tableType size = [])
    (hops : journal.ops = before ++ after) :
    Distinct (runState (context journal size) (initialState parts tableType) before) := by
  induction before using List.reverseRecOn generalizing after with
  | nil =>
    intro key key' mount hkey
    cases hkey
  | append_singleton before op ih =>
    rw [List.append_assoc, List.singleton_append] at hops
    exact (stepped_of_accepted haccepted hops).distinct (ih hops)

/-- An accepted `set_mountpoint` names a partition, also when a later one supersedes it. -/
theorem exists_target_of_setMountpoint (haccepted : validate journal parts tableType size = [])
    (hops : journal.ops = before ++ op :: after) (hkind : op.kind = .setMountpoint) :
    ∃ partition, op.target = some partition := by
  -- the last one of a spelling is checked, and the others have the same spelling
  induction hlength : after.length using Nat.strong_induction_on generalizing before op after with
  | _ length ih =>
    generalize hstate : runState (context journal size) (initialState parts tableType)
      (before ++ [op]) = s'
    have hstep := stepped_of_accepted haccepted hops
    rw [hstate] at hstep
    cases hstep with
    | newTable hkind' => simp [hkind] at hkind'
    | create hkind' herrors => simp [hkind] at hkind'
    | delete hkind' htarget hregion hallocated hmounts => exact ⟨_, htarget⟩
    | change hkind' htarget hregion hallocated hfstype hmounts => exact ⟨_, htarget⟩
    | setMountpoint hkind' htarget hregion herrors hallocated hmounts => exact ⟨_, htarget⟩
    | superseded hsuperseded =>
      obtain ⟨-, hraw, hindex⟩ := hsuperseded
      have hlater : ∃ op' ∈ after, op'.kind = .setMountpoint ∧ op'.spelling = op.spelling := by
        by_contra hnone
        push Not at hnone
        refine hindex ?_
        show (lastMountpointIndices journal.ops).lookup _ = _
        rw [hops]
        exact lookup_lastMountpointIndices before after hkind hraw hnone
      obtain ⟨op', hop', hkind', hspelling⟩ := hlater
      obtain ⟨between, rest, rfl⟩ := List.append_of_mem hop'
      have hops' : journal.ops = (before ++ op :: between) ++ op' :: rest := by
        rw [hops, List.append_assoc, List.cons_append]
      have hshorter : rest.length < length := by
        rw [← hlength, List.length_append, List.length_cons]
        omega
      obtain ⟨partition, htarget⟩ := ih rest.length hshorter hops' hkind' rfl
      exact ⟨partition, (target_eq_of_spelling hspelling).symm.trans htarget⟩

end Run

end Kyth.Journal

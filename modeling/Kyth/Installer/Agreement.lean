import Kyth.Installer.Readback

/-!
# When the mount points are read back

`root_partition` and `manual_mounts` run on the journal after its operations have run. They should
return the assignments that `validate` ended with, on the partitions that are now on the disk.

`root_partition` normalizes as `validate` does, and goes wrong only where two operations carry one
index. `manual_mounts` compares spellings. `Readable` is the condition under which they agree.
-/

namespace Kyth.Journal

open Str Word Json Storage Replay

variable {ctx : ValidateContext} {s s' : ValidateState} {start placed : Placed}
  {ops done before after later : List PartitionOperation} {op : PartitionOperation}
  {name partition : String} {journal : PartitionJournal} {parts : List PartitionRecord}
  {tableType : String} {size : UInt64}

/-! ### The executed operations of an accepted journal -/

theorem Stepped.createErrors_eq_nil (h : Stepped ctx s op s') (hcreate : op.kind = .create) :
    createErrors ctx s op.params = [] := by
  cases h with
  | create hkind herrors => exact herrors
  | newTable hkind => simp [hcreate] at hkind
  | delete hkind => simp [hcreate] at hkind
  | change hkind => simp [hcreate] at hkind
  | superseded hsuperseded => exact absurd hsuperseded.1 (by simp [hcreate])
  | setMountpoint hkind => simp [hcreate] at hkind

/-- What the executed operations of an accepted journal look like. -/
structure Sound (op : PartitionOperation) : Prop where
  wellFormed : WellFormed op
  target : readsParams op.kind = true → ∃ partition, op.target = some partition
  created : op.kind = .create → op.target = some op.spelling

theorem sound_of_executes (haccepted : validate journal parts tableType size = [])
    (hops : journal.ops = before ++ after) (h : Executes (initialPlaced parts) before placed done) :
    ∀ op ∈ done, Sound op := by
  induction h generalizing after with
  | nil => simp
  | @snoc ops done placed h name hname hdevice op ih =>
    have hops' := hops
    rw [List.append_assoc, List.singleton_append] at hops'
    intro op' hop'
    obtain hop' | hop' := List.mem_append.1 hop'
    · exact ih hops' op' hop'
    obtain rfl := List.mem_singleton.1 hop'
    by_cases hcreate : op.kind = .create
    · have herrors := (stepped_of_accepted haccepted hops').createErrors_eq_nil hcreate
      obtain ⟨hspelling, htarget, -, -, hobject⟩ :=
        executedOp_create hcreate (isObject_of_createErrors herrors) hdevice
      exact ⟨fun _ => hobject, fun _ => ⟨name, htarget⟩, fun _ => by rw [htarget, hspelling]⟩
    · rw [executedOp_of_ne hcreate]
      have htarget : readsParams op.kind = true → ∃ partition, op.target = some partition := by
        intro hreads
        generalize hstate : runState (context journal size) (initialState parts tableType)
          (ops ++ [op]) = s'
        have hstep := stepped_of_accepted haccepted hops'
        rw [hstate] at hstep
        cases hstep with
        | newTable hkind => simp [readsParams, hkind] at hreads
        | create hkind => exact absurd hkind hcreate
        | delete hkind htarget => exact ⟨_, htarget⟩
        | change hkind htarget => exact ⟨_, htarget⟩
        | superseded hsuperseded =>
          exact exists_target_of_setMountpoint haccepted hops' hsuperseded.1
        | setMountpoint hkind htarget => exact ⟨_, htarget⟩
      refine ⟨fun hreads => ?_, htarget, fun hkind => absurd hkind hcreate⟩
      obtain ⟨partition, htarget⟩ := htarget hreads
      exact isObject_of_target htarget

/-! ### The root partition -/

/-- What an operation does to the table of `root_partition`. -/
def rootEdit (op : PartitionOperation) : Edit String String :=
  match op.kind with
  | .newTable => .clear
  | .create | .setMountpoint =>
      if op.mountpoint = "" then .drop (op.target.getD (createdKey op.index))
      else .put (op.target.getD (createdKey op.index)) op.mountpoint
  | .delete =>
      match op.target with
      | some partition => .drop partition
      | none => .skip
  | _ => .skip

theorem recordAssignment_eq (assignments : StringMap String) (op : PartitionOperation) :
    recordAssignment assignments op = (rootEdit op).apply assignments := by
  have htarget : Plan.normalizeDevicePath (valueString op.params "partition") = op.target := rfl
  have hmountpoint : valueString op.params "mountpoint" = op.mountpoint := rfl
  simp only [recordAssignment, rootEdit, htarget, hmountpoint]
  cases op.kind with
  | create => by_cases hempty : op.mountpoint = "" <;> simp [hempty, Edit.apply]
  | setMountpoint => by_cases hempty : op.mountpoint = "" <;> simp [hempty, Edit.apply]
  | delete => cases op.target <;> rfl
  | _ => rfl

theorem foldl_recordAssignment (ops : List PartitionOperation) :
    ops.foldl recordAssignment ∅ = replay rootEdit ops := by
  rw [replay, show recordAssignment = fun table op => (rootEdit op).apply table from
    funext fun assignments => funext fun op => recordAssignment_eq assignments op]

theorem normalMount_of_reserved {mountpoint : String} (h : isReserved mountpoint = true) :
    normalMount mountpoint = mountpoint := by
  simp only [isReserved, Bool.or_eq_true, beq_iff_eq] at h
  obtain (rfl | rfl) | rfl := h
  · decide
  · decide
  · decide

theorem normalMount_normalMount (mountpoint : String) :
    normalMount (normalMount mountpoint) = normalMount mountpoint := by
  unfold normalMount
  by_cases hlong : mountpoint.utf8ByteSize > 1
  · rw [if_pos hlong]
    split_ifs
    · exact trimEndMatches_idem mountpoint '/'
    · rfl
  · rw [if_neg hlong, if_neg hlong]

theorem normalMount_eq_slash {mountpoint : String} :
    normalMount mountpoint = "/" ↔ mountpoint = "/" := by
  constructor
  · intro h
    unfold normalMount at h
    split_ifs at h with hlong
    · have hidem := trimEndMatches_idem mountpoint '/'
      rw [h] at hidem
      exact absurd hidem (by decide)
    · exact h
  · rintro rfl
    exact normalMount_of_reserved (by decide)

/-- `root_partition` and the disk agree on the operations that concern a device name. -/
theorem rootEdit_concerns_iff (hdev : startsWith partition "/dev/" = true)
    (op : PartitionOperation) :
    (rootEdit op).Concerns partition ↔ (placedEdit op).Concerns partition := by
  have hkey : createdKey op.index ≠ partition := createdKey_ne_of_dev hdev
  cases hkind : op.kind with
  | newTable => simp only [rootEdit, placedEdit, hkind, Edit.Concerns]
  | create =>
    simp only [rootEdit, placedEdit, hkind]
    cases op.target with
    | none => split_ifs <;> simp [Edit.Concerns, hkey]
    | some target => split_ifs <;> simp [Edit.Concerns]
  | setMountpoint =>
    simp only [rootEdit, placedEdit, hkind]
    cases op.target with
    | none => split_ifs <;> simp [Edit.Concerns, hkey]
    | some target => split_ifs <;> simp [Edit.Concerns]
  | delete =>
    simp only [rootEdit, placedEdit, hkind]
    cases op.target with
    | none => exact Iff.rfl
    | some target => exact Iff.rfl
  | resize => simp only [rootEdit, placedEdit, hkind]
  | format => simp only [rootEdit, placedEdit, hkind]
  | other text => simp only [rootEdit, placedEdit, hkind]

theorem rootEdit_eq_put_iff (hdev : startsWith partition "/dev/" = true)
    (op : PartitionOperation) :
    rootEdit op = .put partition "/" ↔ placedEdit op = .put partition "/" := by
  have hkey : createdKey op.index ≠ partition := createdKey_ne_of_dev hdev
  have hassigns : ∀ target : Option String,
      (if op.mountpoint = "" then (.drop (target.getD (createdKey op.index)) : Edit String String)
        else .put (target.getD (createdKey op.index)) op.mountpoint) = .put partition "/" ↔
      target = some partition ∧ op.mountpoint = "/" := by
    intro target
    by_cases hempty : op.mountpoint = ""
    · simp [hempty]
    · cases target with
      | none => simp [hempty, hkey]
      | some target => simp [hempty]
  have hplaced : ∀ target : String,
      (if normalMount op.mountpoint = "" then (.drop target : Edit String String)
        else .put target (normalMount op.mountpoint)) = .put partition "/" ↔
      target = partition ∧ op.mountpoint = "/" := by
    intro target
    by_cases hempty : normalMount op.mountpoint = ""
    · have hne : op.mountpoint ≠ "/" := by
        rw [← normalMount_eq_slash.ne, hempty]
        decide
      simp [hempty, hne]
    · simp [hempty, normalMount_eq_slash]
  cases hkind : op.kind with
  | create =>
    simp only [rootEdit, hkind, hassigns]
    cases htarget : op.target with
    | none => simp [placedEdit, hkind, htarget]
    | some target => simp only [placedEdit, hkind, htarget, hplaced, Option.some.injEq]
  | setMountpoint =>
    simp only [rootEdit, hkind, hassigns]
    cases htarget : op.target with
    | none => simp [placedEdit, hkind, htarget]
    | some target => simp only [placedEdit, hkind, htarget, hplaced, Option.some.injEq]
  | delete =>
    simp only [rootEdit, placedEdit, hkind]
    cases op.target with
    | none => simp
    | some target => simp
  | _ => simp [rootEdit, placedEdit, hkind]

theorem lookup_rootEdit_iff (hdev : startsWith partition "/dev/" = true)
    (ops : List PartitionOperation) :
    (replay rootEdit ops).lookup partition = some "/" ↔
      (replay placedEdit ops).lookup partition = some "/" := by
  rw [lookup_replay_eq_some, lookup_replay_eq_some]
  simp only [rootEdit_eq_put_iff hdev, rootEdit_concerns_iff hdev]

/-- The entries of `root_partition` are filed under device names. -/
theorem normalizeDevicePath_of_lookup_rootEdit (hsound : ∀ op ∈ ops, Sound op) {mount : String}
    (h : (replay rootEdit ops).lookup partition = some mount) :
    Plan.normalizeDevicePath partition = some partition := by
  obtain ⟨before, op, after, rfl, hput, -⟩ := lookup_replay_eq_some.1 h
  have hop := hsound op (by simp)
  have hassigns : op.kind = .create ∨ op.kind = .setMountpoint := by
    cases hkind : op.kind with
    | create => exact .inl rfl
    | setMountpoint => exact .inr rfl
    | delete =>
      simp only [rootEdit, hkind] at hput
      split at hput <;> cases hput
    | _ =>
      simp only [rootEdit, hkind] at hput
      cases hput
  have hreads : readsParams op.kind = true := by
    obtain hkind | hkind := hassigns <;> simp [readsParams, hkind]
  obtain ⟨target, htarget⟩ := hop.target hreads
  have hkey : op.target.getD (createdKey op.index) = partition := by
    obtain hkind | hkind := hassigns
    all_goals
      simp only [rootEdit, hkind] at hput
      split_ifs at hput
      exact (Edit.put.inj hput).1
  rw [htarget, Option.getD_some] at hkey
  rw [← hkey]
  exact (Plan.normalizeDevicePath_spec htarget).2

theorem rootPartition_eq_some_iff (hsound : ∀ op ∈ journal.ops, Sound op) {root : String} :
    rootPartition journal = some root ↔
      ∀ partition,
        (replay rootEdit journal.ops).lookup partition = some "/" ↔ partition = root := by
  unfold rootPartition
  rw [foldl_recordAssignment]
  generalize htable : replay rootEdit journal.ops = table
  have hnormal : ∀ partition, table.lookup partition = some "/" →
      Plan.normalizeDevicePath partition = some partition := by
    intro partition h
    rw [← htable] at h
    exact normalizeDevicePath_of_lookup_rootEdit hsound h
  have hmem : ∀ entry ∈ table.entries.filter (fun entry => entry.2 == "/"),
      table.lookup entry.1 = some "/" := by
    intro entry hentry
    obtain ⟨hentry, hslash⟩ := List.mem_filter.1 hentry
    rw [← beq_iff_eq.1 hslash]
    exact AList.mem_lookup_iff.2 hentry
  have hroots : ((table.entries.filter fun entry => entry.2 == "/").filterMap fun entry =>
      Plan.normalizeDevicePath entry.1) =
      (table.entries.filter fun entry => entry.2 == "/").map Sigma.fst := by
    rw [← List.filterMap_eq_map]
    exact List.filterMap_congr fun entry hentry => hnormal entry.1 (hmem entry hentry)
  have hnodup : ((table.entries.filter fun entry => entry.2 == "/").map Sigma.fst).Nodup :=
    table.keys_nodup.sublist (List.filter_sublist.map _)
  have hiff : ∀ partition,
      partition ∈ (table.entries.filter fun entry => entry.2 == "/").map Sigma.fst ↔
        table.lookup partition = some "/" := by
    intro partition
    constructor
    · intro h
      obtain ⟨entry, hentry, rfl⟩ := List.mem_map.1 h
      exact hmem entry hentry
    · intro h
      refine List.mem_map.2 ⟨⟨partition, "/"⟩, List.mem_filter.2 ⟨?_, by simp⟩, rfl⟩
      exact AList.mem_lookup_iff.1 h
  dsimp only
  rw [hroots]
  generalize (table.entries.filter fun entry => entry.2 == "/").map Sigma.fst = roots at hnodup hiff
  simp only [← hiff]
  constructor
  · intro h
    split at h
    · rename_i found
      obtain rfl := Option.some.inj h
      simp
    · cases h
  · intro h
    have hperm : roots.Perm [root] :=
      (List.perm_ext_iff_of_nodup hnodup (List.nodup_singleton root)).2 (by simpa using h)
    rw [List.perm_singleton.1 hperm]

/-! ### The filesystems of the partitions -/

/-- The filesystem that the last `create` or `format` in a spelling asks for. -/
def lastNamed (spelling : String) (ops : List PartitionOperation) : Option String :=
  ops.foldl (fun last op =>
    if (op.kind = .create ∨ op.kind = .format) ∧ op.spelling = spelling then some op.fsType
    else last) none

/-- The filesystem that an operation makes: a `create` makes no swap area. -/
def PartitionOperation.madeFstype (op : PartitionOperation) : String :=
  if op.kind = .create ∧ op.fsType = "linux-swap" then "" else probedFstype op.fsType

/-- The filesystem that the last `create` or `format` of a partition makes. -/
def lastMade (partition : String) (ops : List PartitionOperation) : Option String :=
  ops.foldl (fun last op =>
    if (op.kind = .create ∨ op.kind = .format) ∧ op.target = some partition then some op.madeFstype
    else last) none

theorem lastNamed_concat (spelling : String) (ops : List PartitionOperation)
    (op : PartitionOperation) :
    lastNamed spelling (ops ++ [op]) =
      if (op.kind = .create ∨ op.kind = .format) ∧ op.spelling = spelling then some op.fsType
      else lastNamed spelling ops := by
  simp only [lastNamed, List.foldl_append, List.foldl_cons, List.foldl_nil]

theorem lastMade_concat (partition : String) (ops : List PartitionOperation)
    (op : PartitionOperation) :
    lastMade partition (ops ++ [op]) =
      if (op.kind = .create ∨ op.kind = .format) ∧ op.target = some partition then
        some op.madeFstype
      else lastMade partition ops := by
  simp only [lastMade, List.foldl_append, List.foldl_cons, List.foldl_nil]

/-- A filesystem that was asked for under the name of a partition was made on it. -/
theorem exists_lastMade (hnormal : Plan.normalizeDevicePath partition = some partition)
    {fs : String} (h : lastNamed partition ops = some fs) :
    ∃ made, lastMade partition ops = some made := by
  induction ops using List.reverseRecOn generalizing fs with
  | nil => cases h
  | append_singleton ops op ih =>
    rw [lastNamed_concat] at h
    rw [lastMade_concat]
    by_cases hmakes : (op.kind = .create ∨ op.kind = .format) ∧ op.target = some partition
    · exact ⟨op.madeFstype, if_pos hmakes⟩
    · have hspelling : ¬ ((op.kind = .create ∨ op.kind = .format) ∧ op.spelling = partition) := by
        rintro ⟨hkind, hspelling⟩
        refine hmakes ⟨hkind, ?_⟩
        rw [PartitionOperation.target]
        exact (congrArg Plan.normalizeDevicePath hspelling).trans hnormal
      rw [if_neg hspelling] at h
      rw [if_neg hmakes]
      exact ih h

/-- Every filesystem that a journal asks for can be made. -/
def Supported (ops : List PartitionOperation) : Prop :=
  ∀ op ∈ ops, op.kind = .create ∨ op.kind = .format →
    Disk.isSupportedFilesystem (Disk.normalizedName op.fsType)

theorem ne_empty_of_isSupported {fs : String}
    (h : Disk.isSupportedFilesystem (Disk.normalizedName fs)) : fs ≠ "" ∧ probedFstype fs ≠ "" := by
  constructor
  · rintro rfl
    exact absurd h (by decide)
  · unfold probedFstype
    simp only [Disk.isSupportedFilesystem, List.mem_cons, List.not_mem_nil, or_false] at h
    obtain h | h | h | h | h := h <;> rw [h] <;> decide

/-- The partitions of a disk against the filesystems that the executed operations ask for and
make. -/
structure Formatted (placed : Placed) (done : List PartitionOperation) : Prop where
  named : ∀ e ∈ placed.layout, e.origin ≠ .biosBoot →
    (replay formatEdit done).lookup e.name = lastNamed e.name done
  made : ∀ e ∈ placed.layout, e.origin ≠ .biosBoot →
    ∀ made, lastMade e.name done = some made → e.fstype = made
  nonempty : ∀ e ∈ placed.layout, ∀ mount, placed.mounts.lookup e.name = some mount →
    e.fstype ≠ "" ∨ lastNamed e.name done ≠ none

/-- An operation that only reads the filesystem table under a spelling. -/
theorem lookup_formatEdit {n : String} (hdev : startsWith n "/dev/" = true)
    (hkind : op.kind ≠ .newTable ∧ op.kind ≠ .create)
    (hdelete : op.kind = .delete → ∃ partition, op.target = some partition ∧ n ≠ partition)
    (hfs : op.kind = .format → op.fsType ≠ "") (table : StringMap String) :
    ((formatEdit op).apply table).lookup n =
      if (op.kind = .create ∨ op.kind = .format) ∧ op.spelling = n then some op.fsType
      else table.lookup n := by
  cases hop : op.kind with
  | newTable => exact absurd hop hkind.1
  | create => exact absurd hop hkind.2
  | delete =>
    obtain ⟨partition, htarget, hne⟩ := hdelete hop
    have hspelling : n ≠ op.spelling := by
      rintro rfl
      exact hne (spelling_eq_of_target htarget hdev)
    simp only [formatEdit, hop, Edit.apply, reduceCtorEq, or_self, false_and, if_false]
    exact AList.lookup_erase_ne hspelling
  | format =>
    have hfs := hfs hop
    simp only [formatEdit, hop, reduceCtorEq, false_or, true_and]
    by_cases hspelling : op.spelling = n
    · have hne : op.spelling ≠ "" := by
        rw [hspelling]
        rintro rfl
        exact absurd hdev (by decide)
      rw [if_neg (not_or.2 ⟨hne, hfs⟩), if_pos hspelling, Edit.apply, hspelling,
        AList.lookup_insert]
    · rw [if_neg hspelling]
      split_ifs
      · rfl
      · exact AList.lookup_insert_ne (Ne.symm hspelling)
  | _ => simp [formatEdit, hop, Edit.apply]

/-- A partition after an operation that makes none. -/
theorem Stepped.mem_other (h : Stepped ctx s op s') (htracks : Tracks s.allocated placed.layout)
    (hkind : op.kind ≠ .newTable ∧ op.kind ≠ .create) {e' : Extent}
    (he' : e' ∈ (placed.after name op).layout) :
    ∃ e ∈ placed.layout, e'.name = e.name ∧ (e'.origin ≠ .biosBoot → e.origin ≠ .biosBoot) ∧
      (e'.fstype = if op.kind = .format ∧ op.target = some e.name then probedFstype op.fsType
        else e.fstype) ∧
      (op.kind = .delete → ∃ partition, op.target = some partition ∧ e.name ≠ partition) := by
  cases h with
  | newTable hkind' => exact absurd hkind' hkind.1
  | create hkind' herrors => exact absurd hkind' hkind.2
  | delete hkind' htarget hregion hallocated hmounts =>
    simp only [Placed.after, applyOperation, hkind', htarget, List.mem_filter, ne_eq,
      Option.some.injEq, decide_eq_true_eq] at he'
    exact ⟨e', he'.1, rfl, id, by simp [hkind'], fun _ => ⟨_, htarget, he'.2⟩⟩
  | change hkind' htarget hregion hallocated hfstype hmounts =>
    obtain ⟨e, he, hname, hfs⟩ := mem_changed hkind' htarget he'
    obtain ⟨e₀, he₀, hname₀, horigin⟩ :=
      (htracks.mem_change hkind' htarget hregion name).2 e' he'
    obtain rfl := htracks.eq_of_name he he₀ (hname.symm.trans hname₀)
    refine ⟨e, he, hname, ?_, ?_, ?_⟩
    · obtain rfl | ⟨hnamed | hnamed, -⟩ := horigin
      · exact id
      · exact fun _ => by simp [hnamed]
      · exact fun _ => by simp [hnamed]
    · rw [hfs, htarget]
      simp only [Option.some.injEq, eq_comm]
      rfl
    · intro hdelete
      obtain hkind' | hkind' := hkind' <;> simp [hkind'] at hdelete
  | superseded hsuperseded =>
    rw [layout_setMountpoint hsuperseded.1] at he'
    exact ⟨e', he', rfl, id, by simp [hsuperseded.1], fun hdelete => by
      simp [hsuperseded.1] at hdelete⟩
  | setMountpoint hkind' htarget hregion herrors hallocated hmounts =>
    rw [layout_setMountpoint hkind'] at he'
    exact ⟨e', he', rfl, id, by simp [hkind'], fun hdelete => by simp [hkind'] at hdelete⟩

theorem ne_empty_of_mountOn {fstype : String} {params : Value} (h : mountOn fstype params ≠ "") :
    fstype ≠ "" := by
  rintro rfl
  have hempty : mountFilesystem "" = "" := by decide
  unfold mountOn setMount at h
  split at h
  · rename_i mount hvalid
    by_cases hraw : valueString params "mountpoint" = ""
    · rw [validatedMountpoint, if_pos hraw, Except.ok.injEq] at hvalid
      exact h hvalid.symm
    · obtain ⟨-, hfat, hlisted⟩ := validatedMountpoint_eq_ok hvalid hraw
      rw [hempty] at hfat hlisted
      cases hefi : isEfiMountpoint mount with
      | true => exact absurd (hfat hefi) (by decide)
      | false => exact absurd (hlisted hefi) (by decide)
  · exact h rfl

theorem Formatted.create (h : Formatted placed done) (hkind : op.kind = .create)
    (hobject : isObject op.params = true) (hname : name ∉ placed.layout.names)
    (hdevice : Plan.normalizeDevicePath name = some name)
    (hfs : Disk.isSupportedFilesystem (Disk.normalizedName op.fsType)) :
    Formatted (placed.after name op) (done ++ [executedOp name op]) := by
  obtain ⟨hspelling, htarget, -, hfsType, -⟩ := executedOp_create hkind hobject hdevice
  have hkind' : (executedOp name op).kind = .create := by rw [executedOp_kind, hkind]
  have hne : name ≠ "" := by
    rw [← hspelling]
    exact spelling_ne_empty htarget
  have hedit : formatEdit (executedOp name op) = .put name op.fsType := by
    simp only [formatEdit, hkind', hspelling, hfsType]
    rw [if_neg (not_or.2 ⟨hne, (ne_empty_of_isSupported hfs).1⟩)]
  have hlayout : (placed.after name op).layout = createdExtent name op :: placed.layout := by
    simp only [Placed.after, applyOperation, hkind]
  have hnamed : lastNamed name (done ++ [executedOp name op]) = some op.fsType := by
    rw [lastNamed_concat, if_pos ⟨.inl hkind', hspelling⟩, hfsType]
  have hother : ∀ e ∈ placed.layout,
      lastNamed e.name (done ++ [executedOp name op]) = lastNamed e.name done ∧
        lastMade e.name (done ++ [executedOp name op]) = lastMade e.name done := by
    intro e he
    have hne' := ne_name_of_mem he hname
    rw [lastNamed_concat, lastMade_concat, hspelling, htarget]
    exact ⟨if_neg fun hboth => hne' hboth.2.symm,
      if_neg fun hboth => hne' (Option.some.inj hboth.2).symm⟩
  refine ⟨fun e he horigin => ?_, fun e he horigin made hmade => ?_, fun e he mount hmount => ?_⟩
  · rw [replay_concat, hedit, Edit.apply]
    rw [hlayout] at he
    obtain rfl | he := List.mem_cons.1 he
    · rw [createdExtent_name, AList.lookup_insert, hnamed]
    · rw [AList.lookup_insert_ne (ne_name_of_mem he hname), (hother e he).1]
      exact h.named e he horigin
  · rw [hlayout] at he
    obtain rfl | he := List.mem_cons.1 he
    · rw [createdExtent_name, lastMade_concat,
        if_pos ⟨.inl hkind', htarget⟩, Option.some.injEq, PartitionOperation.madeFstype,
        hfsType] at hmade
      rw [← hmade]
      simp only [createdExtent, createdFstype, hkind', true_and]
      rfl
    · rw [(hother e he).2] at hmade
      exact h.made e he horigin made hmade
  · rw [hlayout] at he
    obtain rfl | he := List.mem_cons.1 he
    · refine .inr ?_
      rw [createdExtent_name, hnamed]
      exact Option.some_ne_none _
    · have hframe : (placed.after name op).mounts.lookup e.name = placed.mounts.lookup e.name := by
        simp only [Placed.after, mountsAfter, hkind]
        exact lookup_assignMount_ne (ne_name_of_mem he hname)
      rw [hframe] at hmount
      rw [(hother e he).1]
      exact h.nonempty e he mount hmount

theorem lastNamed_ne_none (spelling : String) (op : PartitionOperation)
    (h : lastNamed spelling ops ≠ none) : lastNamed spelling (ops ++ [op]) ≠ none := by
  rw [lastNamed_concat]
  split_ifs
  · exact Option.some_ne_none _
  · exact h

theorem Formatted.other (h : Formatted placed done) (hstep : Stepped ctx s op s')
    (htracks : Tracks s.allocated placed.layout) (hfollows : Follows s placed later)
    (hkind : op.kind ≠ .newTable ∧ op.kind ≠ .create)
    (hfs : op.kind = .format → Disk.isSupportedFilesystem (Disk.normalizedName op.fsType)) :
    Formatted (placed.after name op) (done ++ [op]) := by
  refine ⟨fun e' he' horigin' => ?_, fun e' he' horigin' made hmade => ?_,
    fun e' he' mount hmount => ?_⟩
  · obtain ⟨e, he, hname, horigin, -, hdelete⟩ := hstep.mem_other htracks hkind he'
    rw [hname, replay_concat, lookup_formatEdit (hfollows.dev e he) hkind hdelete
      (fun hformat => (ne_empty_of_isSupported (hfs hformat)).1), lastNamed_concat,
      h.named e he (horigin horigin')]
  · obtain ⟨e, he, hname, horigin, hfstype, -⟩ := hstep.mem_other htracks hkind he'
    rw [hname, lastMade_concat] at hmade
    rw [hfstype]
    by_cases hformat : op.kind = .format ∧ op.target = some e.name
    · rw [if_pos ⟨.inr hformat.1, hformat.2⟩, Option.some.injEq, PartitionOperation.madeFstype,
        if_neg fun hboth => hkind.2 hboth.1] at hmade
      rw [if_pos hformat, hmade]
    · have hnot : ¬ ((op.kind = .create ∨ op.kind = .format) ∧ op.target = some e.name) := by
        rintro ⟨hcreate | hformat', htarget⟩
        · exact hkind.2 hcreate
        · exact hformat ⟨hformat', htarget⟩
      rw [if_neg hnot] at hmade
      rw [if_neg hformat]
      exact h.made e he (horigin horigin') made hmade
  · obtain ⟨e, he, hname, -, hfstype, hdelete⟩ := hstep.mem_other htracks hkind he'
    rw [hname] at hmount ⊢
    rw [hfstype]
    by_cases hformat : op.kind = .format ∧ op.target = some e.name
    · rw [if_pos hformat]
      exact .inl (ne_empty_of_isSupported (hfs hformat.1)).2
    rw [if_neg hformat]
    by_cases hset : op.kind = .setMountpoint ∧ op.target = some e.name
    · -- the mount point was checked against the filesystem of the partition
      simp only [Placed.after, mountsAfter, hset.1, hset.2, htracks.find?_name he,
        lookup_assignMount_self] at hmount
      split_ifs at hmount with hempty
      exact .inl (ne_empty_of_mountOn hempty)
    · rw [lookup_after_of_untouched placed hkind.1 (fun hcreate => absurd hcreate hkind.2) ?_]
        at hmount
      · obtain hne | hne := h.nonempty e he mount hmount
        · exact .inl hne
        · exact .inr (lastNamed_ne_none e.name op hne)
      · rintro (hdeleted | hset') htarget
        · obtain ⟨partition, htarget', hne⟩ := hdelete hdeleted
          rw [htarget] at htarget'
          exact hne (Option.some.inj htarget')
        · exact hset ⟨hset', htarget⟩

theorem formatted_of_executes (haccepted : validate journal parts tableType size = [])
    (hlisting : IsListing parts) (hsupported : Supported journal.ops)
    (hops : journal.ops = before ++ after) (h : Executes (initialPlaced parts) before placed done) :
    Formatted placed done := by
  induction h generalizing after with
  | nil =>
    refine ⟨fun e he horigin => rfl, fun e he horigin made hmade => ?_, fun e he mount hmount => ?_⟩
    · cases hmade
    · cases hmount
  | @snoc ops done placed h name hname hdevice op ih =>
    have hops' := hops
    rw [List.append_assoc, List.singleton_append] at hops'
    have hfs := hsupported op (by simp [hops'])
    have hstep := stepped_of_accepted haccepted hops'
    generalize hstate : runState (context journal size) (initialState parts tableType)
      (ops ++ [op]) = s' at hstep
    by_cases hcreate : op.kind = .create
    · exact (ih hops').create hcreate
        (isObject_of_createErrors (hstep.createErrors_eq_nil hcreate)) hname hdevice
        (hfs (.inl hcreate))
    rw [executedOp_of_ne hcreate]
    by_cases htable : op.kind = .newTable
    · have hbios : ∀ e ∈ (placed.after name op).layout, e.origin = .biosBoot := by
        intro e he
        simp only [Placed.after, applyOperation, htable] at he
        split_ifs at he
        · rw [List.mem_singleton.1 he, biosBootExtent]
        · cases he
      refine ⟨fun e he horigin => absurd (hbios e he) horigin,
        fun e he horigin => absurd (hbios e he) horigin, fun e he mount hmount => ?_⟩
      simp only [Placed.after, mountsAfter, htable] at hmount
      cases hmount
    · exact (ih hops').other hstep (tracks_of_executes haccepted hlisting hops' h)
        (follows_of_executes haccepted hlisting hops' h) ⟨htable, hcreate⟩
        fun hformat => hfs (.inr hformat)

/-! ### The final assignments -/

/-- The picture `validate` has of the disk at the end. -/
def finalState (journal : PartitionJournal) (parts : List PartitionRecord) (tableType : String)
    (size : UInt64) : ValidateState :=
  runState (context journal size) (initialState parts tableType) journal.ops

/-- A partition of the disk to which the assignments of `validate` give a mount point. -/
def Assigned (s : ValidateState) (layout : Layout) (e : Extent) (mount : String) : Prop :=
  e ∈ layout ∧ layout.OnFile e ∧ s.mountAssignments.lookup e.key = some mount

theorem onFile_of_isNamed {layout : Layout} {e : Extent} (h : e.IsNamed) : layout.OnFile e := by
  intro index horigin
  obtain h | h := h
  · rw [h] at horigin
    cases horigin
  · rw [h] at horigin
    cases horigin

theorem not_awaits_nil (partition : String) : ¬ Awaits [] partition := by
  rintro ⟨op, hop, -⟩
  cases hop

section Final

variable (haccepted : validate journal parts tableType size = []) (hlisting : IsListing parts)
  (hexecutes : Executes (initialPlaced parts) journal.ops placed done)

include haccepted hlisting hexecutes

theorem tracks_final : Tracks (finalState journal parts tableType size).allocated placed.layout :=
  tracks_of_executes haccepted hlisting (List.append_nil journal.ops).symm hexecutes

theorem follows_final : Follows (finalState journal parts tableType size) placed [] :=
  follows_of_executes haccepted hlisting (List.append_nil journal.ops).symm hexecutes

theorem linked_final : Linked (finalState journal parts tableType size) placed :=
  linked_of_executes haccepted hlisting (List.append_nil journal.ops).symm hexecutes

theorem lookup_named_final {e : Extent} (he : e ∈ placed.layout) (hnamed : e.IsNamed) :
    (finalState journal parts tableType size).mountAssignments.lookup e.name =
      placed.mounts.lookup e.name := by
  obtain ⟨region, hregion, -⟩ :=
    (tracks_final haccepted hlisting hexecutes).filed e he (onFile_of_isNamed hnamed)
  rw [hnamed.key_eq] at hregion
  exact (follows_final haccepted hlisting hexecutes).mounted e he region hregion
    (not_awaits_nil e.name)

/-- A mounted partition on file has the mount point that `validate` gives it. -/
theorem assigned_of_mounted {e : Extent} (he : e ∈ placed.layout) (hfile : placed.layout.OnFile e)
    {mount : String} (hmount : placed.mounts.lookup e.name = some mount) :
    Assigned (finalState journal parts tableType size) placed.layout e mount := by
  refine ⟨he, hfile, ?_⟩
  obtain hnamed | hcreated := (linked_final haccepted hlisting hexecutes).origin e he mount hmount
  · rw [hnamed.key_eq, lookup_named_final haccepted hlisting hexecutes he hnamed, hmount]
  · have hfind := ((tracks_final haccepted hlisting hexecutes).onFile_iff hcreated).1 hfile
    exact (linked_final haccepted hlisting hexecutes).created e hfind mount hmount

/-- An assignment of `validate` is on the disk, under some partition of its key. -/
theorem mounted_of_lookup {key mount : String}
    (h : (finalState journal parts tableType size).mountAssignments.lookup key = some mount) :
    ∃ e ∈ placed.layout, e.key = key ∧ placed.mounts.lookup e.name = some mount := by
  obtain ⟨e, he, hnamed, rfl⟩ | ⟨e, he, hkey, hmount⟩ :=
    (linked_final haccepted hlisting hexecutes).source key mount h
  · refine ⟨e, he, hnamed.key_eq, ?_⟩
    rw [← lookup_named_final haccepted hlisting hexecutes he hnamed, h]
  · exact ⟨e, (Layout.mem_createdOnes.1 he).1, hkey, hmount⟩

/-- Of the partitions that may be mounted, one is on file for each key. -/
theorem eq_of_key {e e' : Extent} (he : e ∈ placed.layout) (hfile : placed.layout.OnFile e)
    (he' : e' ∈ placed.layout) (hfile' : placed.layout.OnFile e') {mount : String}
    (hmount : placed.mounts.lookup e'.name = some mount) (hkey : e.key = e'.key) : e = e' := by
  have htracks := tracks_final haccepted hlisting hexecutes
  obtain hnamed | hcreated := (linked_final haccepted hlisting hexecutes).origin e' he' mount hmount
  · have hdev : startsWith e.key "/dev/" = true := by
      rw [hkey, hnamed.key_eq]
      exact htracks.named_dev e' he' hnamed
    refine htracks.eq_of_name he he' ?_
    rw [← (Extent.isNamed_of_key_dev hdev).key_eq, hkey, hnamed.key_eq]
  · obtain ⟨index, horigin⟩ := Extent.isCreated_iff.1 hcreated
    have hkey' : e'.key = createdKey index := by simp only [Extent.key, horigin]
    have horigin' : ∃ index', e.origin = .created index' := by
      cases horigin' : e.origin with
      | created index' => exact ⟨index', rfl⟩
      | biosBoot =>
        simp only [Extent.key, horigin', horigin] at hkey
        exact absurd hkey (biosBootKey_ne_createdKey index)
      | _ =>
        have hnamed : e.IsNamed := by simp [Extent.IsNamed, horigin']
        rw [hkey', hnamed.key_eq] at hkey
        exact absurd hkey.symm (createdKey_ne_of_dev (htracks.named_dev e he hnamed))
    have hfind := (htracks.onFile_iff (Extent.isCreated_iff.2 horigin')).1 hfile
    have hfind' := (htracks.onFile_iff hcreated).1 hfile'
    rw [hkey, hfind'] at hfind
    exact (Option.some.inj hfind).symm

end Final

/-! ### The entries of `manual_mounts` -/

theorem spelledEdit_eq_put_iff {mount : String} :
    spelledEdit op = .put partition mount ↔
      (op.kind = .create ∨ op.kind = .setMountpoint) ∧ op.spelling = partition ∧ partition ≠ "" ∧
        op.mountpoint = mount ∧ mount ≠ "" := by
  have hassigns : (if op.spelling = "" then (.skip : Edit String String)
      else if op.mountpoint = "" then .drop op.spelling else .put op.spelling op.mountpoint) =
        .put partition mount ↔
      op.spelling = partition ∧ partition ≠ "" ∧ op.mountpoint = mount ∧ mount ≠ "" := by
    by_cases hspelling : op.spelling = ""
    · simp only [hspelling, if_true, reduceCtorEq, false_iff]
      rintro ⟨rfl, hne, -⟩
      exact hne rfl
    by_cases hempty : op.mountpoint = ""
    · simp only [hspelling, hempty, if_true, if_false, reduceCtorEq, false_iff]
      rintro ⟨-, -, rfl, hne⟩
      exact hne rfl
    · simp only [hspelling, hempty, if_false, Edit.put.injEq]
      constructor
      · rintro ⟨rfl, rfl⟩
        exact ⟨rfl, hspelling, rfl, hempty⟩
      · rintro ⟨rfl, -, rfl, -⟩
        exact ⟨rfl, rfl⟩
  cases hkind : op.kind with
  | create => simp only [spelledEdit, hkind, hassigns, true_or, true_and]
  | setMountpoint => simp only [spelledEdit, hkind, hassigns, or_true, true_and]
  | _ => simp [spelledEdit, hkind]

theorem spelledEdit_concerns_iff (hne : partition ≠ "") :
    (spelledEdit op).Concerns partition ↔
      op.kind = .newTable ∨
        (op.kind = .create ∨ op.kind = .setMountpoint ∨ op.kind = .delete) ∧
          op.spelling = partition := by
  have hassigns : (if op.spelling = "" then (.skip : Edit String String)
      else if op.mountpoint = "" then .drop op.spelling
      else .put op.spelling op.mountpoint).Concerns partition ↔ op.spelling = partition := by
    split_ifs with hspelling
    · simp [Edit.Concerns, hspelling, Ne.symm hne]
    · simp [Edit.Concerns]
    · simp [Edit.Concerns]
  cases hkind : op.kind with
  | create => simp [spelledEdit, hkind, hassigns]
  | setMountpoint => simp [spelledEdit, hkind, hassigns]
  | _ => simp [spelledEdit, hkind, Edit.Concerns]

theorem placedEdit_eq_put_iff {mount : String} :
    placedEdit op = .put partition mount ↔
      (op.kind = .create ∨ op.kind = .setMountpoint) ∧ op.target = some partition ∧
        normalMount op.mountpoint = mount ∧ mount ≠ "" := by
  have hassigns : ∀ target : String,
      (if normalMount op.mountpoint = "" then (.drop target : Edit String String)
        else .put target (normalMount op.mountpoint)) = .put partition mount ↔
      target = partition ∧ normalMount op.mountpoint = mount ∧ mount ≠ "" := by
    intro target
    by_cases hempty : normalMount op.mountpoint = ""
    · simp only [hempty, if_true, reduceCtorEq, false_iff]
      rintro ⟨-, rfl, hne⟩
      exact hne rfl
    · simp only [hempty, if_false, Edit.put.injEq]
      constructor
      · rintro ⟨rfl, rfl⟩
        exact ⟨rfl, rfl, hempty⟩
      · rintro ⟨rfl, rfl, -⟩
        exact ⟨rfl, rfl⟩
  cases hkind : op.kind with
  | create =>
    cases htarget : op.target with
    | none => simp [placedEdit, hkind, htarget]
    | some target =>
      simp only [placedEdit, hkind, htarget, hassigns, true_or, true_and, Option.some.injEq]
  | setMountpoint =>
    cases htarget : op.target with
    | none => simp [placedEdit, hkind, htarget]
    | some target =>
      simp only [placedEdit, hkind, htarget, hassigns, or_true, true_and, Option.some.injEq]
  | delete =>
    cases htarget : op.target with
    | none => simp [placedEdit, hkind, htarget]
    | some target => simp [placedEdit, hkind, htarget]
  | _ => simp [placedEdit, hkind]

theorem placedEdit_concerns_iff :
    (placedEdit op).Concerns partition ↔
      op.kind = .newTable ∨
        (op.kind = .create ∨ op.kind = .setMountpoint ∨ op.kind = .delete) ∧
          op.target = some partition := by
  cases hkind : op.kind with
  | newTable => simp [placedEdit, hkind, Edit.Concerns]
  | create =>
    cases htarget : op.target with
    | none => simp [placedEdit, hkind, htarget, Edit.Concerns]
    | some target =>
      simp only [placedEdit, hkind, htarget]
      split_ifs <;> simp [Edit.Concerns]
  | setMountpoint =>
    cases htarget : op.target with
    | none => simp [placedEdit, hkind, htarget, Edit.Concerns]
    | some target =>
      simp only [placedEdit, hkind, htarget]
      split_ifs <;> simp [Edit.Concerns]
  | delete =>
    cases htarget : op.target with
    | none => simp [placedEdit, hkind, htarget, Edit.Concerns]
    | some target => simp [placedEdit, hkind, htarget, Edit.Concerns]
  | _ => simp [placedEdit, hkind, Edit.Concerns]

/-- No later operation rewrites the entry that an operation makes under its spelling. -/
def Stands (op : PartitionOperation) (later : List PartitionOperation) : Prop :=
  ∀ op' ∈ later, op'.kind ≠ .newTable ∧
    (op'.kind = .create ∨ op'.kind = .setMountpoint ∨ op'.kind = .delete →
      op'.spelling ≠ op.spelling)

/-- An assignment that reads the same whether it is normalized or not: the mount point has no
trailing slash, the partition is spelled as its device name, the later operations on it spell it so
too, and the last filesystem that was asked for in this spelling is the one on it. -/
structure Plain (done : List PartitionOperation) (op : PartitionOperation)
    (later : List PartitionOperation) : Prop where
  mountpoint : normalMount op.mountpoint = op.mountpoint
  partition : op.target = some op.spelling
  alone : ∀ op' ∈ later, op'.kind = .setMountpoint ∨ op'.kind = .delete →
    op'.target ≠ some op.spelling
  filesystem : ∀ fs made, lastNamed op.spelling done = some fs →
    lastMade op.spelling done = some made → mountFilesystem fs = mountFilesystem made

/-- A journal whose mount points can be read back: every assignment that stands is plain, and no
partition that was created with a mount point shares its index with a later one. -/
structure Readable (ops done : List PartitionOperation) : Prop where
  plain : ∀ before op after, done = before ++ op :: after →
    op.kind = .create ∨ op.kind = .setMountpoint → isReserved op.mountpoint = false →
    Stands op after → Plain done op after
  indices : ∀ before op after, ops = before ++ op :: after → op.kind = .create →
    normalMount op.mountpoint ≠ "" → normalMount op.mountpoint ≠ "/boot/efi" →
    (∀ op' ∈ after, op'.kind ≠ .newTable) →
    ∀ op' ∈ after, op'.kind = .create → createdKey op'.index ≠ createdKey op.index

theorem stands_iff (hne : op.spelling ≠ "") :
    Stands op later ↔ ∀ op' ∈ later, ¬ (spelledEdit op').Concerns op.spelling := by
  unfold Stands
  refine forall₂_congr fun op' _ => ?_
  rw [spelledEdit_concerns_iff hne, not_or, not_and]

/-- The entry that an operation makes is in the table if it stands. -/
theorem lookup_spelled_of_stands (hdone : done = before ++ op :: after)
    (hkind : op.kind = .create ∨ op.kind = .setMountpoint) (hspelling : op.spelling ≠ "")
    (hmount : op.mountpoint ≠ "") (hstands : Stands op after) :
    (replay spelledEdit done).lookup op.spelling = some op.mountpoint :=
  lookup_replay_eq_some.2 ⟨before, op, after, hdone,
    spelledEdit_eq_put_iff.2 ⟨hkind, rfl, hspelling, rfl, hmount⟩, (stands_iff hspelling).1 hstands⟩

/-- The last word on a partition also stands under its spelling. -/
theorem stands_of_not_concerns (htarget : op.target = some partition)
    (hlast : ∀ op' ∈ later, ¬ (placedEdit op').Concerns partition) : Stands op later := by
  intro op' hop'
  have hconcerns := hlast op' hop'
  rw [placedEdit_concerns_iff, not_or, not_and] at hconcerns
  refine ⟨hconcerns.1, fun hkind hspelling => hconcerns.2 hkind ?_⟩
  rw [target_eq_of_spelling hspelling, htarget]

theorem not_isReserved_of_normalMount {mountpoint mount : String}
    (hnormal : normalMount mountpoint = mount) (hmount : isReserved mount = false) :
    isReserved mountpoint = false := by
  cases hreserved : isReserved mountpoint with
  | false => rfl
  | true =>
    rw [normalMount_of_reserved hreserved] at hnormal
    rw [← hnormal, hreserved] at hmount
    cases hmount

theorem ne_empty_of_not_isReserved {mount : String} (h : isReserved mount = false) :
    mount ≠ "" := by
  rintro rfl
  exact absurd h (by decide)

/-- In a readable journal the entries of `manual_mounts` are the mount points on the disk. -/
theorem lookup_spelled_iff (hsound : ∀ op ∈ done, Sound op)
    (hplain : ∀ before op after, done = before ++ op :: after →
      op.kind = .create ∨ op.kind = .setMountpoint → isReserved op.mountpoint = false →
      Stands op after → Plain done op after) {mount : String} (hmount : isReserved mount = false) :
    (replay spelledEdit done).lookup partition = some mount ↔
      (replay placedEdit done).lookup partition = some mount := by
  constructor
  · intro h
    obtain ⟨before, op, after, hdone, hput, hlast⟩ := lookup_replay_eq_some.1 h
    obtain ⟨hkind, rfl, hne, rfl, hempty⟩ := spelledEdit_eq_put_iff.1 hput
    have hstands := (stands_iff hne).2 hlast
    have hop := hplain before op after hdone hkind hmount hstands
    refine lookup_replay_eq_some.2 ⟨before, op, after, hdone, ?_, fun op' hop' hconcerns => ?_⟩
    · exact placedEdit_eq_put_iff.2 ⟨hkind, hop.partition, hop.mountpoint, hempty⟩
    · obtain htable | ⟨hcreate | hnames, htarget⟩ := placedEdit_concerns_iff.1 hconcerns
      · exact (hstands op' hop').1 htable
      · -- a created partition is spelled by its name
        have hmem : op' ∈ done := by simp [hdone, hop']
        have hspelling := (hsound op' hmem).created hcreate
        rw [htarget] at hspelling
        exact (hstands op' hop').2 (.inl hcreate) (Option.some.inj hspelling).symm
      · exact hop.alone op' hop' hnames htarget
  · intro h
    obtain ⟨before, op, after, hdone, hput, hlast⟩ := lookup_replay_eq_some.1 h
    obtain ⟨hkind, htarget, hnormal, hempty⟩ := placedEdit_eq_put_iff.1 hput
    have hstands := stands_of_not_concerns htarget hlast
    have hreserved := not_isReserved_of_normalMount hnormal hmount
    have hop := hplain before op after hdone hkind hreserved hstands
    have hspelling : op.spelling = partition := by
      have heq := hop.partition
      rw [htarget] at heq
      exact (Option.some.inj heq).symm
    have hmountpoint : op.mountpoint = mount := hop.mountpoint.symm.trans hnormal
    rw [← hspelling, ← hmountpoint]
    exact lookup_spelled_of_stands hdone hkind (spelling_ne_empty htarget)
      (ne_empty_of_not_isReserved hreserved) hstands

/-! ### Created partitions on file -/

/-- A created partition with a mount point is the latest one of its key, and no later operation
takes its place. -/
theorem onFile_of_indices (haccepted : validate journal parts tableType size = [])
    (hlisting : IsListing parts)
    (hindices : ∀ before op after, journal.ops = before ++ op :: after → op.kind = .create →
      normalMount op.mountpoint ≠ "" → normalMount op.mountpoint ≠ "/boot/efi" →
      (∀ op' ∈ after, op'.kind ≠ .newTable) →
      ∀ op' ∈ after, op'.kind = .create → createdKey op'.index ≠ createdKey op.index)
    (hops : journal.ops = before ++ after) (h : Executes (initialPlaced parts) before placed done)
    (htables : ∀ op ∈ after, op.kind ≠ .newTable) {e : Extent}
    (he : e ∈ placed.layout.createdOnes) {mount : String}
    (hmount : placed.mounts.lookup e.name = some mount) (hefi : mount ≠ "/boot/efi") :
    placed.layout.createdOnes.find? (fun x => decide (x.key = e.key)) = some e ∧
      ∀ op ∈ after, op.kind = .create → createdKey op.index ≠ e.key := by
  induction h generalizing after with
  | nil => cases hmount
  | @snoc ops done placed h name hname hdevice op ih =>
    have hops' := hops
    rw [List.append_assoc, List.singleton_append] at hops'
    have hstep := stepped_of_accepted haccepted hops'
    have htracks := tracks_of_executes haccepted hlisting hops' h
    have hones : Layout.createdOnes (applyOperation name placed.layout op) = _ :=
      hstep.createdOnes_eq htracks
    have hlayout : (placed.after name op).layout = applyOperation name placed.layout op := rfl
    rw [hlayout] at he ⊢
    by_cases htable : op.kind = .newTable
    · rw [hones, if_pos htable] at he
      cases he
    have htables' : ∀ op' ∈ op :: after, op'.kind ≠ .newTable := by
      intro op' hop'
      obtain rfl | hop' := List.mem_cons.1 hop'
      · exact htable
      · exact htables op' hop'
    have hframe : ∀ e ∈ placed.layout.createdOnes,
        (placed.after name op).mounts.lookup e.name = placed.mounts.lookup e.name := fun e he =>
      hstep.lookup_created htracks hname (fun hsuperseded partition htarget =>
        on_record_of_isSuperseded haccepted hops' hsuperseded htarget) htable he
    by_cases hcreate : op.kind = .create
    · rw [hones, if_neg htable, if_pos hcreate] at he ⊢
      obtain rfl | he := List.mem_cons.1 he
      · refine ⟨List.find?_cons_of_pos (by simp), ?_⟩
        have hnormal : normalMount op.mountpoint = mount ∧ mount ≠ "" := by
          simp only [Placed.after, mountsAfter, hcreate] at hmount
          rw [createdExtent_name, lookup_assignMount_self] at hmount
          split_ifs at hmount with hempty
          rw [Option.some.injEq,
            createMount_eq_normalMount (hstep.createErrors_eq_nil hcreate)] at hmount
          rw [createMount_eq_normalMount (hstep.createErrors_eq_nil hcreate)] at hempty
          exact ⟨hmount, hmount ▸ hempty⟩
        rw [createdExtent_key]
        exact hindices ops op after hops' hcreate (hnormal.1 ▸ hnormal.2) (hnormal.1 ▸ hefi) htables
      · rw [hframe e he] at hmount
        obtain ⟨hfind, hlater⟩ := ih hops' htables' he hmount
        refine ⟨?_, fun op' hop' => hlater op' (List.mem_cons_of_mem _ hop')⟩
        rw [List.find?_cons_of_neg]
        · exact hfind
        · rw [createdExtent_key]
          simpa using hlater op List.mem_cons_self hcreate
    · rw [hones, if_neg htable, if_neg hcreate] at he ⊢
      rw [hframe e he] at hmount
      obtain ⟨hfind, hlater⟩ := ih hops' htables' he hmount
      exact ⟨hfind, fun op' hop' => hlater op' (List.mem_cons_of_mem _ hop')⟩

/-! ### What is read back -/

/-- A snapshot of a disk: its partitions with their filesystems. -/
structure Shows (parts : List PartitionRecord) (layout : Layout) : Prop
    extends IsListing parts where
  shown : ∀ e ∈ layout, ∃ part ∈ parts, part.name = e.name ∧ part.fstype = e.fstype
  present : ∀ part ∈ parts, ∃ e ∈ layout, e.name = part.name

/-- The root partition and the manual mounts are the final assignments of `validate`, each mount
with the filesystem that is on its partition. -/
structure ReadsBack (s : ValidateState) (layout : Layout) (root : Option String)
    (result : Except String (List ManualMount)) : Prop where
  root : ∃ e, Assigned s layout e "/" ∧ root = some e.name
  mounts : ∃ mounts, result = .ok mounts ∧ (mounts.map ManualMount.partition).Nodup ∧
    (∀ e mount, Assigned s layout e mount → mount ≠ "/" → mount ≠ "/boot/efi" →
      ∃ m ∈ mounts, m.partition = e.name ∧ m.mountpoint = mount) ∧
    ∀ m ∈ mounts, m.mountpoint ≠ "/" ∧ m.mountpoint ≠ "/boot/efi" ∧
      ∃ e, Assigned s layout e m.mountpoint ∧ e.name = m.partition ∧
        mountFilesystem m.fstype = mountFilesystem e.fstype

/-- The journal as it stands after its operations have run. -/
def executedJournal (journal : PartitionJournal) (done : List PartitionOperation) :
    PartitionJournal :=
  { journal with ops := done, committed := true }

theorem lookup_discoveredParts {parts : List PartitionRecord} (h : IsListing parts)
    {part : PartitionRecord} (hpart : part ∈ parts) :
    (discoveredParts parts).lookup part.name = some part :=
  lookup_foldl_insert (f := id) h.names_nodup hpart

end Kyth.Journal

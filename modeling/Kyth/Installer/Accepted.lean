import Kyth.Installer.Journal

/-!
# Accepted journals and partitions in use

What `validate` guarantees when it returns no message: every operation passed its turn of the loop
in the picture the operations before it left behind. The protection of mounted partitions follows
for the operations that name their target; `new_table` names none.
-/

namespace Kyth.Journal

open Str Word Json Storage

variable {journal : PartitionJournal} {parts : List PartitionRecord} {tableType : String}
  {size : UInt64} {ctx : ValidateContext} {s : ValidateState}

/-! ### The loop -/

/-- The messages of a longer journal start with those of a shorter one. -/
theorem runErrors_append (s : ValidateState) (ops ops' : List PartitionOperation) :
    runErrors ctx s (ops ++ ops') =
      runErrors ctx s ops ++ runErrors ctx (runState ctx s ops) ops' := by
  induction ops generalizing s with
  | nil => rfl
  | cons op ops ih =>
    rw [List.cons_append, runErrors, ih, runErrors, List.append_assoc]
    rfl

/-- In an accepted run every operation passes in the picture before it. -/
theorem stepErrors_eq_nil {ops before after : List PartitionOperation} {op : PartitionOperation}
    (h : runErrors ctx s ops = []) (hops : ops = before ++ op :: after) :
    stepErrors ctx (runState ctx s before) op = [] := by
  rw [hops, runErrors_append, runErrors, List.append_eq_nil_iff, List.append_eq_nil_iff] at h
  exact h.2.1

/-- The four groups of messages are all empty when `validate` accepts. -/
theorem validate_eq_nil (h : validate journal parts tableType size = []) :
    tableErrors (initialState parts tableType).table = [] ∧
      runErrors (context journal size) (initialState parts tableType) journal.ops = [] ∧
      rootErrors (runState (context journal size) (initialState parts tableType)
        journal.ops) = [] ∧
      inUseErrors (context journal size) parts journal.ops = [] := by
  unfold validate at h
  split_ifs at h with hops
  simp only [List.append_eq_nil_iff] at h
  exact ⟨h.1.1.1, h.1.1.2, h.1.2, h.2⟩

/-! ### What an accepted operation does to the picture -/

/-- The partition an operation names. -/
def PartitionOperation.target (op : PartitionOperation) : Option String :=
  Plan.normalizeDevicePath (valueString op.params "partition")

/-- A range that passed the overlap check misses every region on file. -/
theorem not_overlaps_of_overlapErrors {allocated : StringMap Region} {exempt : Option String}
    {start stop : ℤ} {message : String → String} {key : String} {region : Region}
    (h : overlapErrors allocated exempt start stop message = [])
    (hkey : allocated.lookup key = some region) (hexempt : some key ≠ exempt) :
    ¬ (0 ≤ region.start ∧ region.start < region.stop ∧ start < region.stop ∧
      region.start < stop) := by
  simp only [overlapErrors, overlapping, Option.toList_eq_nil_iff, Option.map_eq_none_iff,
    List.find?_eq_none, decide_eq_true_eq] at h
  have hmem : (⟨key, region⟩ : Sigma fun _ : String => Region) ∈ allocated.entries :=
    AList.mem_lookup_iff.1 hkey
  intro hoverlaps
  exact h ⟨key, region⟩ hmem ⟨hexempt, hoverlaps⟩

/-- What an accepted `create` asked for. -/
structure CreateAccepted (ctx : ValidateContext) (s : ValidateState) (params : Value)
    (start size : ℤ) : Prop where
  start_eq : valueI64 params "start_bytes" (-1) = start
  size_eq : valueI64 params "size_bytes" (-1) = size
  start_pos : 0 < start
  size_pos : 0 < size
  start_lt : start < 2 ^ 63
  size_lt : size < 2 ^ 63
  start_aligned : start % 512 = 0
  size_aligned : size % 512 = 0
  inside : 0 < ctx.diskSizeBytes → asU64 (satAddI64 start size) ≤ ctx.diskSizeBytes
  free : ∀ key region, s.allocated.lookup key = some region →
    ¬ (0 ≤ region.start ∧ region.start < region.stop ∧ start < region.stop ∧
      region.start < satAddI64 start size)

theorem createErrors_eq_nil {params : Value} (h : createErrors ctx s params = []) :
    CreateAccepted ctx s params (valueI64 params "start_bytes" (-1))
      (valueI64 params "size_bytes" (-1)) := by
  simp only [createErrors, List.append_eq_nil_iff, complain_eq_nil] at h
  obtain ⟨⟨⟨⟨⟨⟨⟨⟨-, hpos⟩, haligned⟩, hinside⟩, hoverlap⟩, -⟩, -⟩, -⟩, -⟩ := h
  push Not at hpos haligned hinside
  obtain ⟨hstart, hsize⟩ := hpos
  obtain ⟨hstartAligned, hsizeAligned⟩ := haligned hstart hsize
  rw [if_pos ⟨hstart.le, hsize.le⟩] at hoverlap
  exact
    { start_eq := rfl
      size_eq := rfl
      start_pos := hstart
      size_pos := hsize
      start_lt := valueI64_lt
      size_lt := valueI64_lt
      start_aligned := hstartAligned
      size_aligned := hsizeAligned
      inside := hinside hstart hsize
      free := fun key region hkey =>
        not_overlaps_of_overlapErrors hoverlap hkey (Option.some_ne_none key) }

/-- What an accepted `resize` asked for. -/
structure ResizeAccepted (ctx : ValidateContext) (s : ValidateState) (partition : String)
    (region : Region) (params : Value) (newSize : ℤ) : Prop where
  newSize_eq : valueI64 params "new_size_bytes" (-1) = newSize
  newSize_pos : 0 < newSize
  newSize_lt : newSize < 2 ^ 63
  inside : 0 < ctx.diskSizeBytes → asU64 (satAddI64 region.start newSize) ≤ ctx.diskSizeBytes
  free : ∀ key other, key ≠ partition → s.allocated.lookup key = some other →
    ¬ (0 ≤ other.start ∧ other.start < other.stop ∧ region.start < other.stop ∧
      other.start < satAddI64 region.start newSize)

theorem resizeErrors_eq_nil {partition : String} {region : Region} {params : Value}
    (h : resizeErrors ctx s partition region params = []) :
    ResizeAccepted ctx s partition region params (valueI64 params "new_size_bytes" (-1)) := by
  simp only [resizeErrors] at h
  split_ifs at h with hpos
  simp only [List.append_eq_nil_iff, complain_eq_nil] at h
  obtain ⟨⟨⟨-, -⟩, hinside⟩, hoverlap⟩ := h
  push Not at hpos hinside
  exact
    { newSize_eq := rfl
      newSize_pos := hpos
      newSize_lt := valueI64_lt
      inside := hinside
      free := fun key other hne hkey =>
        not_overlaps_of_overlapErrors hoverlap hkey fun heq => hne (Option.some.inj heq) }

/-- What an accepted operation is, and what it does to the regions on file. -/
inductive StepAccepted (ctx : ValidateContext) (s : ValidateState) (op : PartitionOperation) :
    StringMap Region → Prop
  | newTable (hkind : op.kind = .newTable) : StepAccepted ctx s op (newTableState op.params).allocated
  | create (hkind : op.kind = .create) {start size : ℤ}
      (h : CreateAccepted ctx s op.params start size) :
      StepAccepted ctx s op (createState s op).allocated
  | delete (hkind : op.kind = .delete) {partition : String} {region : Region}
      (htarget : op.target = some partition) (hregion : s.allocated.lookup partition = some region) :
      StepAccepted ctx s op (s.allocated.erase partition)
  | resize (hkind : op.kind = .resize) {partition : String} {region : Region} {newSize : ℤ}
      (htarget : op.target = some partition) (hregion : s.allocated.lookup partition = some region)
      (h : ResizeAccepted ctx s partition region op.params newSize) :
      StepAccepted ctx s op
        (s.allocated.insert partition { region with stop := satAddI64 region.start newSize })
  | format (hkind : op.kind = .format) {partition : String} {region : Region}
      (htarget : op.target = some partition) (hregion : s.allocated.lookup partition = some region) :
      StepAccepted ctx s op (s.allocated.insert partition
        { region with fstype := toAsciiLowercase (valueString op.params "fs_type") })
  | setMountpoint (hkind : op.kind = .setMountpoint) : StepAccepted ctx s op s.allocated

/-- An accepted operation names a partition on file. -/
theorem namedErrors_eq_nil {kind : OpKind} {params : Value}
    (h : namedErrors ctx s kind params = []) :
    ∃ partition region,
      Plan.normalizeDevicePath (valueString params "partition") = some partition ∧
      s.allocated.lookup partition = some region ∧
      targetErrors ctx s kind partition region params = [] ∧
      namedState ctx s kind params = targetState ctx s kind partition region params := by
  unfold namedErrors at h
  unfold namedState
  split at h
  · cases h
  · rename_i partition htarget
    split at h
    · cases h
    · rename_i region hregion
      exact ⟨partition, region, htarget, hregion, h, rfl⟩

theorem stepAccepted {op : PartitionOperation} (h : stepErrors ctx s op = []) :
    StepAccepted ctx s op (stepState ctx s op).allocated := by
  by_cases hsuperseded : isSuperseded ctx op
  · rw [stepState, if_pos hsuperseded]
    exact .setMountpoint hsuperseded.1
  rw [stepErrors, if_neg hsuperseded] at h
  rw [stepState, if_neg hsuperseded]
  cases hkind : op.kind with
  | newTable => exact .newTable hkind
  | create =>
    rw [hkind] at h
    exact .create hkind (createErrors_eq_nil h)
  | other name => rw [hkind] at h; cases h
  | delete =>
    rw [hkind] at h
    obtain ⟨partition, region, htarget, hregion, -, hstate⟩ := namedErrors_eq_nil h
    simp only [hstate, targetState]
    exact .delete hkind htarget hregion
  | resize =>
    rw [hkind] at h
    obtain ⟨partition, region, htarget, hregion, herrors, hstate⟩ := namedErrors_eq_nil h
    simp only [targetErrors, List.append_eq_nil_iff] at herrors
    simp only [hstate, targetState, if_pos herrors.2]
    exact .resize hkind htarget hregion (resizeErrors_eq_nil herrors.2)
  | format =>
    rw [hkind] at h
    obtain ⟨partition, region, htarget, hregion, -, hstate⟩ := namedErrors_eq_nil h
    simp only [hstate, targetState]
    exact .format hkind htarget hregion
  | setMountpoint =>
    rw [hkind] at h
    obtain ⟨partition, region, htarget, hregion, -, hstate⟩ := namedErrors_eq_nil h
    simp only [hstate, targetState]
    split_ifs <;> exact .setMountpoint hkind

/-! ### Partitions in use -/

/-- An operation that deletes, resizes, formats or overwrites a partition. A new table discards
every partition of the disk. -/
def PartitionOperation.Destroys (op : PartitionOperation) (part : PartitionRecord) : Prop :=
  op.kind = .newTable ∨
    ((op.kind = .delete ∨ op.kind = .resize ∨ op.kind = .format) ∧ op.target = some part.name)

/-- A partition the snapshot marks as mounted or in use. -/
def IsBusy (part : PartitionRecord) : Prop :=
  part.current = true ∨ part.inUse = true

/-- No operation of an accepted journal names a busy partition as what it deletes, resizes or
formats. -/
theorem not_named_of_isBusy (h : validate journal parts tableType size = [])
    {op : PartitionOperation} (hop : op ∈ journal.ops) {part : PartitionRecord}
    (hpart : part ∈ parts) (hbusy : IsBusy part)
    (hkind : op.kind = .delete ∨ op.kind = .resize ∨ op.kind = .format) :
    op.target ≠ some part.name := by
  intro htarget
  obtain ⟨-, -, -, hinUse⟩ := validate_eq_nil h
  rw [inUseErrors, List.filterMap_eq_nil_iff] at hinUse
  have hmem : part ∈ parts.filter fun part => part.current || part.inUse := by
    rw [List.mem_filter, Bool.or_eq_true]
    exact ⟨hpart, hbusy⟩
  have hnone := hinUse part hmem
  rw [List.findSome?_eq_none_iff] at hnone
  have herror := hnone op hop
  have hkind' : op.kind = .delete ∨ op.kind = .format ∨ op.kind = .resize :=
    hkind.imp_right Or.symm
  simp only [inUseError, PartitionOperation.target] at herror htarget
  simp [htarget, hkind'] at herror

/-- An accepted journal leaves the partitions in use alone exactly when it writes no new table or
the snapshot marks nothing as in use: `new_table` is the one destructive operation that `validate`
never holds against a mounted partition. -/
theorem busy_untouched_iff (h : validate journal parts tableType size = []) :
    (∀ op ∈ journal.ops, ∀ part ∈ parts, IsBusy part → ¬ op.Destroys part) ↔
      (∀ op ∈ journal.ops, op.kind ≠ .newTable) ∨ (∀ part ∈ parts, ¬ IsBusy part) := by
  constructor
  · intro huntouched
    by_contra hcond
    push Not at hcond
    obtain ⟨⟨op, hop, hkind⟩, part, hpart, hbusy⟩ := hcond
    exact huntouched op hop part hpart hbusy (.inl hkind)
  · rintro (hnoTable | hnoBusy) op hop part hpart hbusy hdestroys
    · rcases hdestroys with htable | ⟨hkind, htarget⟩
      · exact hnoTable op hop htable
      · exact not_named_of_isBusy h hop hpart hbusy hkind htarget
    · exact hnoBusy part hpart hbusy

/-- A mounted partition of 1 GiB at 1 GiB. -/
def mountedPartition : PartitionRecord where
  name := "/dev/sda1"
  sizeBytes := 0x40000000
  startBytes := 0x40000000
  fstype := "btrfs"
  mountpoints := ["/home"]
  current := true
  inUse := true

/-- A Btrfs root partition of 64 MiB at 4 MiB. -/
def createRoot (index : ℕ) : PartitionOperation where
  kind := .create
  params := .object [("start_bytes", .nat 0x400000), ("size_bytes", .nat 0x4000000),
    ("fs_type", .string "btrfs"), ("mountpoint", .string "/")]
  index := index

theorem create_beside_mounted_accepted :
    validate { disk := "/dev/sda", ops := [createRoot 0] } [mountedPartition] "gpt" 0x100000000 =
        [] ∧
      ∀ op ∈ [createRoot 0], ∀ part ∈ [mountedPartition], IsBusy part → ¬ op.Destroys part := by
  have haccepted : validate { disk := "/dev/sda", ops := [createRoot 0] } [mountedPartition]
      "gpt" 0x100000000 = [] := by decide
  refine ⟨haccepted, (busy_untouched_iff haccepted).mpr (.inl fun op hop => ?_)⟩
  rw [List.mem_singleton.mp hop]
  decide

/-- A request for an empty GPT table. -/
def newGptTable (index : ℕ) : PartitionOperation where
  kind := .newTable
  params := .object [("table_type", .string "gpt")]
  index := index

/-- A new table under a mounted partition is accepted. -/
theorem new_table_under_mounted_accepted :
    validate { disk := "/dev/sda", ops := [newGptTable 0, createRoot 1] } [mountedPartition]
        "gpt" 0x100000000 = [] ∧
      IsBusy mountedPartition ∧ (newGptTable 0).Destroys mountedPartition :=
  ⟨by decide, .inl rfl, .inl rfl⟩

end Kyth.Journal

import Kyth.Installer.Agreement

/-!
# The mount points of a journal, there and back

What `root_partition` and `manual_mounts` return for an executed journal, against the assignments
that `validate` ended with. `readsBack_iff` holds for every accepted journal and every run of it.
-/

namespace Kyth.Journal

open Str Word Json Storage Replay

variable {placed : Placed} {done before after : List PartitionOperation} {op : PartitionOperation}
  {partition : String} {journal : PartitionJournal} {parts parts' : List PartitionRecord}
  {tableType : String} {size : UInt64}

/-! ### `manual_mounts` on an executed journal -/

/-- The entries that the second loop of `manual_mounts` goes through. -/
def sortedEntries (table : StringMap String) : List (Sigma fun _ : String => String) :=
  table.entries.mergeSort fun a b => decide (a.1 ≤ b.1)

theorem mem_sortedEntries {table : StringMap String} {entry : Sigma fun _ : String => String} :
    entry ∈ sortedEntries table ↔ table.lookup entry.1 = some entry.2 := by
  rw [sortedEntries, List.mem_mergeSort]
  exact AList.mem_lookup_iff.symm

theorem nodup_sortedEntries (table : StringMap String) :
    ((sortedEntries table).map Sigma.fst).Nodup := by
  have hperm : (sortedEntries table).Perm table.entries := List.mergeSort_perm _ _
  exact (hperm.map Sigma.fst).nodup_iff.2 table.keys_nodup

theorem mem_mounts {table : StringMap String} {entry : Sigma fun _ : String => String} :
    entry ∈ (sortedEntries table).filter isMount ↔
      table.lookup entry.1 = some entry.2 ∧ isReserved entry.2 = false := by
  rw [List.mem_filter, mem_sortedEntries, isMount, Bool.not_eq_true']

/-- What `manual_mounts` does with an executed journal. -/
theorem manualMounts_executed (hsound : ∀ op ∈ done, Sound op) (hdisk : trim journal.disk ≠ "") :
    manualMounts (executedJournal journal done) parts =
      collectMounts (done.foldl manualStep {}) (discoveredParts parts) ∅
        (sortedEntries (replay spelledEdit done)) := by
  have hreplay := manualReplay_eq_ok (fun op hop => (hsound op hop).wellFormed) {}
  have hdisk' : ¬ trim (executedJournal journal done).disk = "" := hdisk
  rw [manualMounts, if_neg (by simp [executedJournal]), if_neg hdisk',
    show (executedJournal journal done).ops = done from rfl, hreplay, ← (foldl_manualStep done).1]
  rfl

/-- The mount that `manual_mounts` makes of an entry. -/
def reportedMount (parts : List PartitionRecord) (done : List PartitionOperation)
    (partition mount : String) : ManualMount :=
  toManualMount (done.foldl manualStep {}) (discoveredParts parts) ⟨partition, mount⟩

/-- `manual_mounts` succeeds if the partition of every mount is there and no mount point comes
twice. -/
theorem exists_manualMounts (hsound : ∀ op ∈ done, Sound op) (hdisk : trim journal.disk ≠ "")
    (hknown : ∀ partition mount, (replay spelledEdit done).lookup partition = some mount →
      isReserved mount = false → (discoveredParts parts).lookup partition ≠ none)
    (hdistinct : ∀ partition partition' mount,
      (replay spelledEdit done).lookup partition = some mount →
      (replay spelledEdit done).lookup partition' = some mount → isReserved mount = false →
      partition = partition') :
    ∃ mounts, manualMounts (executedJournal journal done) parts = .ok mounts := by
  rw [manualMounts_executed hsound hdisk]
  refine ⟨_, (collectMounts_eq_ok _ _ _ _ _).2 ⟨fun entry hentry => ?_, ?_, rfl⟩⟩
  · obtain ⟨hlookup, hmount⟩ := mem_mounts.1 hentry
    exact ⟨.inl (hknown entry.1 entry.2 hlookup hmount), Finset.notMem_empty _⟩
  · refine List.Nodup.map_on (fun entry hentry entry' hentry' hsame => ?_) ?_
    · obtain ⟨hlookup, hmount⟩ := mem_mounts.1 hentry
      obtain ⟨hlookup', -⟩ := mem_mounts.1 hentry'
      rw [← hsame] at hlookup'
      exact Sigma.ext (hdistinct entry.1 entry'.1 entry.2 hlookup hlookup' hmount)
        (heq_of_eq hsame)
    · exact ((nodup_sortedEntries _).of_map _).filter _

/-- What `manual_mounts` returns when it succeeds. -/
theorem mem_manualMounts (hsound : ∀ op ∈ done, Sound op) (hdisk : trim journal.disk ≠ "")
    {mounts : List ManualMount}
    (h : manualMounts (executedJournal journal done) parts = .ok mounts) :
    (mounts.map ManualMount.partition).Nodup ∧
      ∀ m, m ∈ mounts ↔ ∃ partition mount,
        (replay spelledEdit done).lookup partition = some mount ∧ isReserved mount = false ∧
          m = reportedMount parts done partition mount := by
  rw [manualMounts_executed hsound hdisk, collectMounts_eq_ok] at h
  obtain ⟨-, -, rfl⟩ := h
  constructor
  · rw [List.map_map]
    exact (nodup_sortedEntries _).sublist (List.filter_sublist.map _)
  · intro m
    constructor
    · intro hm
      obtain ⟨entry, hentry, rfl⟩ := List.mem_map.1 hm
      obtain ⟨hlookup, hmount⟩ := mem_mounts.1 hentry
      exact ⟨entry.1, entry.2, hlookup, hmount, rfl⟩
    · rintro ⟨partition, mount, hlookup, hmount, rfl⟩
      exact List.mem_map.2 ⟨⟨partition, mount⟩, mem_mounts.2 ⟨hlookup, hmount⟩, rfl⟩

theorem ne_empty_of_formatEdit {fs : String} (h : formatEdit op = .put partition fs) : fs ≠ "" := by
  have hmakes : (if op.spelling = "" ∨ op.fsType = "" then (.skip : Edit String String)
      else .put op.spelling op.fsType) = .put partition fs → fs ≠ "" := by
    intro hput
    split_ifs at hput with hskip
    rw [Edit.put.injEq] at hput
    rw [← hput.2]
    exact fun hempty => hskip (.inr hempty)
  cases hkind : op.kind with
  | create =>
    simp only [formatEdit, hkind] at h
    exact hmakes h
  | format =>
    simp only [formatEdit, hkind] at h
    exact hmakes h
  | _ =>
    simp only [formatEdit, hkind, reduceCtorEq] at h

/-- The filesystem that `manual_mounts` reports for a partition of the disk. -/
theorem reportedMount_fstype (hshows : Shows parts placed.layout)
    (hformatted : Formatted placed done) {e : Extent} (he : e ∈ placed.layout)
    (horigin : e.origin ≠ .biosBoot) (mount : String) :
    (∃ fs, lastNamed e.name done = some fs ∧ (reportedMount parts done e.name mount).fstype = fs) ∨
      lastNamed e.name done = none ∧
        (e.fstype ≠ "" → (reportedMount parts done e.name mount).fstype = e.fstype) := by
  have hfstype : (reportedMount parts done e.name mount).fstype =
      ((((lastNamed e.name done).or
        (((discoveredParts parts).lookup e.name).map PartitionRecord.fstype)).filter
          (· ≠ "")).getD "btrfs") := by
    rw [← hformatted.named e he horigin, ← (foldl_manualStep done).2]
    rfl
  rw [hfstype]
  cases hnamed : lastNamed e.name done with
  | some fs =>
    refine .inl ⟨fs, rfl, ?_⟩
    have hlookup := hformatted.named e he horigin
    rw [hnamed] at hlookup
    obtain ⟨before, op, after, -, hput, -⟩ := lookup_replay_eq_some.1 hlookup
    have hne := ne_empty_of_formatEdit hput
    simp [Option.filter, hne]
  | none =>
    refine .inr ⟨rfl, fun hne => ?_⟩
    obtain ⟨part, hpart, hname, hpartFs⟩ := hshows.shown e he
    rw [← hname, lookup_discoveredParts hshows.toIsListing hpart]
    simp [Option.filter, hpartFs, hne]

/-! ### Readable journals -/

/-- An accepted journal assigns the root mount point. -/
theorem exists_root (haccepted : validate journal parts tableType size = []) :
    ∃ key, (finalState journal parts tableType size).mountAssignments.lookup key = some "/" := by
  obtain ⟨-, -, hroot, -⟩ := validate_eq_nil haccepted
  have hroot : rootErrors (finalState journal parts tableType size) = [] := hroot
  by_contra hnone
  push Not at hnone
  have hcount : (finalState journal parts tableType size).mountAssignments.entries.countP
      (fun entry => entry.2 == "/") = 0 := by
    rw [List.countP_eq_zero]
    intro entry hentry hslash
    refine hnone entry.1 ?_
    rw [← beq_iff_eq.1 hslash]
    exact AList.mem_lookup_iff.2 hentry
  unfold rootErrors at hroot
  dsimp only at hroot
  rw [if_pos hcount] at hroot
  exact absurd hroot (List.cons_ne_nil _ _)

theorem sound_final (haccepted : validate journal parts tableType size = [])
    (hexecutes : Executes (initialPlaced parts) journal.ops placed done) :
    ∀ op ∈ done, Sound op :=
  sound_of_executes haccepted (List.append_nil journal.ops).symm hexecutes

theorem onDisk_final (hexecutes : Executes (initialPlaced parts) journal.ops placed done) :
    placed.OnDisk := by
  refine hexecutes.onDisk fun partition mount hmount => ?_
  cases hmount

/-- An operation that names a created partition came before it was created. -/
theorem created_after_named {ops later : List PartitionOperation}
    (haccepted : validate journal parts tableType size = []) (hlisting : IsListing parts)
    (hops : journal.ops = ops ++ later) (h : Executes (initialPlaced parts) ops placed done)
    {e : Extent} (he : e ∈ placed.layout.createdOnes) (hdone : done = before ++ op :: after)
    (hkind : op.kind = .setMountpoint ∨ op.kind = .delete) (htarget : op.target = some e.name) :
    ∃ c ∈ after, c.kind = .create ∧ c.spelling = e.name := by
  induction h generalizing later after with
  | nil => simp at hdone
  | @snoc ops done placed h name hname hdevice last ih =>
    have hops' := hops
    rw [List.append_assoc, List.singleton_append] at hops'
    have hstep := stepped_of_accepted haccepted hops'
    have htracks := tracks_of_executes haccepted hlisting hops' h
    have hones : Layout.createdOnes (applyOperation name placed.layout last) = _ :=
      hstep.createdOnes_eq htracks
    have hlayout : (placed.after name last).layout = applyOperation name placed.layout last := rfl
    rw [hlayout, hones] at he
    split_ifs at he with htable hcreate
    · cases he
    · obtain rfl | ⟨after', last', rfl⟩ := List.eq_nil_or_concat after
      · -- the last operation creates a partition, so it is not the one that names it
        obtain ⟨-, hlast⟩ := List.append_inj' hdone rfl
        obtain rfl := (List.cons.inj hlast).1
        rw [executedOp_kind, hcreate] at hkind
        simp at hkind
      · rw [List.concat_eq_append, ← List.cons_append, ← List.append_assoc] at hdone
        obtain ⟨hdone', hlast⟩ := List.append_inj' hdone rfl
        obtain rfl := (List.cons.inj hlast).1
        rw [List.concat_eq_append]
        obtain rfl | he := List.mem_cons.1 he
        · have hobject := isObject_of_createErrors (hstep.createErrors_eq_nil hcreate)
          obtain ⟨hspelling, -⟩ := executedOp_create hcreate hobject hdevice
          exact ⟨executedOp name last, by simp, by rw [executedOp_kind, hcreate], hspelling⟩
        · obtain ⟨c, hc, hcreated⟩ := ih hops' he hdone'
          exact ⟨c, List.mem_append_left _ hc, hcreated⟩
    · obtain rfl | ⟨after', last', rfl⟩ := List.eq_nil_or_concat after
      · obtain ⟨-, hlast⟩ := List.append_inj' hdone rfl
        obtain rfl := (List.cons.inj hlast).1
        rw [executedOp_of_ne hcreate] at hkind htarget
        have hregion : ∃ region, (runState (context journal size) (initialState parts tableType)
            ops).allocated.lookup e.name = some region := by
          have hnames : last.kind = .delete ∨ last.kind = .format ∨ last.kind = .setMountpoint := by
            obtain hkind | hkind := hkind
            · exact .inr (.inr hkind)
            · exact .inl hkind
          obtain hsuperseded | hregion := hstep.on_record hnames htarget
          · exact on_record_of_isSuperseded haccepted hops' hsuperseded htarget
          · exact hregion
        obtain ⟨region, hregion⟩ := hregion
        obtain ⟨he, hcreated⟩ := Layout.mem_createdOnes.1 he
        exact absurd rfl
          (htracks.name_ne_of_isCreated (target_dev htarget) hregion he hcreated)
      · rw [List.concat_eq_append, ← List.cons_append, ← List.append_assoc] at hdone
        obtain ⟨hdone, hlast⟩ := List.append_inj' hdone rfl
        rw [List.concat_eq_append]
        obtain ⟨c, hc, hcreated⟩ := ih hops' he hdone
        exact ⟨c, List.mem_append_left _ hc, hcreated⟩

/-- Of two places in a list, the one with fewer elements after it comes later. -/
theorem split_of_mem_of_notMem {α : Type} {before after before' after' : List α} {x x' y : α}
    (h : before ++ x :: after = before' ++ x' :: after') (hy : y ∈ after) (hy' : y ∉ after') :
    ∃ between, after = between ++ x' :: after' := by
  obtain ⟨between, -, h⟩ | ⟨between, -, h⟩ := List.append_eq_append_iff.1 h
  · cases between with
    | nil =>
      obtain ⟨-, rfl⟩ := List.cons.inj h
      exact absurd hy hy'
    | cons z between => exact ⟨between, (List.cons.inj h).2⟩
  · cases between with
    | nil =>
      obtain ⟨-, rfl⟩ := List.cons.inj h
      exact absurd hy hy'
    | cons z between =>
      rw [(List.cons.inj h).2] at hy'
      exact absurd (List.mem_append_right _ (List.mem_cons_of_mem _ hy)) hy'

/-- A run over one list and then over another. -/
theorem Executes.append {start middle : Placed} {ops later doneLater : List PartitionOperation}
    (h : Executes start ops middle done) (hlater : Executes middle later placed doneLater) :
    Executes start (ops ++ later) placed (done ++ doneLater) := by
  induction hlater with
  | nil => simpa using h
  | snoc hlater hname hdevice op ih =>
    rw [← List.append_assoc, ← List.append_assoc]
    exact ih.snoc hname hdevice op

/-- The partitions that the rest of a run creates come before those that are there. -/
theorem createdOnes_of_executes {middle : Placed}
    {ops later rest doneLater : List PartitionOperation}
    (haccepted : validate journal parts tableType size = []) (hlisting : IsListing parts)
    (hops : journal.ops = ops ++ later ++ rest)
    (h : Executes (initialPlaced parts) ops middle done)
    (hlater : Executes middle later placed doneLater)
    (htables : ∀ op ∈ later, op.kind ≠ .newTable) :
    ∃ created, placed.layout.createdOnes = created ++ middle.layout.createdOnes ∧
      ∀ op ∈ later, op.kind = .create → ∃ e ∈ created, e.key = createdKey op.index := by
  induction hlater generalizing rest with
  | nil => exact ⟨[], rfl, by simp⟩
  | @snoc later doneLater placed hlater name hname hdevice last ih =>
    have hops' : journal.ops = ops ++ later ++ last :: rest := by
      rw [hops]
      simp
    obtain ⟨created, hones, hcreated⟩ :=
      ih hops' fun op hop => htables op (List.mem_append_left _ hop)
    have hstep := stepped_of_accepted haccepted hops'
    have htracks := tracks_of_executes haccepted hlisting hops' (h.append hlater)
    have hones' : Layout.createdOnes (applyOperation name placed.layout last) = _ :=
      hstep.createdOnes_eq htracks
    have hlayout : (placed.after name last).layout = applyOperation name placed.layout last := rfl
    rw [hlayout, hones', if_neg (htables last (by simp)), hones]
    by_cases hcreate : last.kind = .create
    · rw [if_pos hcreate]
      refine ⟨createdExtent name last :: created, rfl, fun op hop hkind => ?_⟩
      obtain hop | hop := List.mem_append.1 hop
      · obtain ⟨e, he, hkey⟩ := hcreated op hop hkind
        exact ⟨e, List.mem_cons_of_mem _ he, hkey⟩
      · obtain rfl := List.mem_singleton.1 hop
        exact ⟨createdExtent name op, List.mem_cons_self, createdExtent_key name op⟩
    · rw [if_neg hcreate]
      refine ⟨created, rfl, fun op hop hkind => ?_⟩
      obtain hop | hop := List.mem_append.1 hop
      · exact hcreated op hop hkind
      · obtain rfl := List.mem_singleton.1 hop
        exact absurd hkind hcreate

section Final

variable (haccepted : validate journal parts tableType size = []) (hlisting : IsListing parts)
  (hexecutes : Executes (initialPlaced parts) journal.ops placed done)

include haccepted hlisting hexecutes

theorem mounts_final (partition : String) :
    placed.mounts.lookup partition = (replay placedEdit done).lookup partition :=
  mounts_eq_replay haccepted hlisting (List.append_nil journal.ops).symm hexecutes
    (not_awaits_nil partition)

theorem origin_ne_of_mounted {e : Extent} (he : e ∈ placed.layout) {mount : String}
    (hmount : placed.mounts.lookup e.name = some mount) : e.origin ≠ .biosBoot := by
  intro horigin
  obtain (hnamed | hnamed) | hcreated :=
    (linked_final haccepted hlisting hexecutes).origin e he mount hmount
  · simp [horigin] at hnamed
  · simp [horigin] at hnamed
  · simp [Extent.isCreated, horigin] at hcreated

/-- What `root_partition` answers, in terms of the disk. -/
theorem rootPartition_final {root : String} :
    rootPartition (executedJournal journal done) = some root ↔
      ∀ partition, placed.mounts.lookup partition = some "/" ↔ partition = root := by
  have hsound := sound_final haccepted hexecutes
  have htable : ∀ partition, (replay rootEdit done).lookup partition = some "/" ↔
      placed.mounts.lookup partition = some "/" := by
    intro partition
    by_cases hdev : startsWith partition "/dev/" = true
    · rw [lookup_rootEdit_iff hdev, mounts_final haccepted hlisting hexecutes]
    · -- neither table has entries outside of `/dev/`
      refine iff_of_false (fun hlookup => hdev ?_) fun hlookup => hdev ?_
      · exact (Plan.normalizeDevicePath_spec
          (normalizeDevicePath_of_lookup_rootEdit hsound hlookup)).1
      · obtain ⟨e, he, rfl⟩ := onDisk_final hexecutes partition "/" hlookup
        exact (follows_final haccepted hlisting hexecutes).dev e he
  simp only [← htable]
  exact rootPartition_eq_some_iff hsound

section Readable

variable (hreadable : Readable journal.ops done)

include hreadable

/-- In a readable journal every mounted partition is on file. -/
theorem onFile_of_mounted {e : Extent} (he : e ∈ placed.layout) {mount : String}
    (hmount : placed.mounts.lookup e.name = some mount) (hefi : mount ≠ "/boot/efi") :
    placed.layout.OnFile e := by
  obtain hnamed | hcreated := (linked_final haccepted hlisting hexecutes).origin e he mount hmount
  · exact onFile_of_isNamed hnamed
  · refine ((tracks_final haccepted hlisting hexecutes).onFile_iff hcreated).2 ?_
    exact (onFile_of_indices haccepted hlisting hreadable.indices
      (List.append_nil journal.ops).symm hexecutes (by simp)
      (Layout.mem_createdOnes.2 ⟨he, hcreated⟩) hmount hefi).1

/-- So the assignments are the mount points on the disk. -/
theorem mounted_of_assigned {e : Extent} {mount : String}
    (h : Assigned (finalState journal parts tableType size) placed.layout e mount)
    (hefi : mount ≠ "/boot/efi") : placed.mounts.lookup e.name = some mount := by
  obtain ⟨he, hfile, hlookup⟩ := h
  obtain ⟨e', he', hkey, hmount⟩ := mounted_of_lookup haccepted hlisting hexecutes hlookup
  have hfile' := onFile_of_mounted haccepted hlisting hexecutes hreadable he' hmount hefi
  rw [eq_of_key haccepted hlisting hexecutes he hfile he' hfile' hmount hkey.symm, hmount]

theorem eq_of_mounted {e e' : Extent} (he : e ∈ placed.layout) (he' : e' ∈ placed.layout)
    {mount : String} (hmount : placed.mounts.lookup e.name = some mount)
    (hmount' : placed.mounts.lookup e'.name = some mount) (hefi : mount ≠ "/boot/efi") :
    e = e' := by
  have hfile := onFile_of_mounted haccepted hlisting hexecutes hreadable he hmount hefi
  have hfile' := onFile_of_mounted haccepted hlisting hexecutes hreadable he' hmount' hefi
  have hassigned := assigned_of_mounted haccepted hlisting hexecutes he hfile hmount
  have hassigned' := assigned_of_mounted haccepted hlisting hexecutes he' hfile' hmount'
  have hkey := distinct_of_accepted haccepted (List.append_nil journal.ops).symm e.key e'.key mount
    hassigned.2.2 hassigned'.2.2
  exact eq_of_key haccepted hlisting hexecutes he hfile he' hfile' hmount' hkey

theorem root_of_readable :
    ∃ e, Assigned (finalState journal parts tableType size) placed.layout e "/" ∧
      rootPartition (executedJournal journal done) = some e.name := by
  obtain ⟨key, hkey⟩ := exists_root haccepted
  obtain ⟨e, he, -, hmount⟩ := mounted_of_lookup haccepted hlisting hexecutes hkey
  have hfile := onFile_of_mounted haccepted hlisting hexecutes hreadable he hmount (by decide)
  refine ⟨e, assigned_of_mounted haccepted hlisting hexecutes he hfile hmount, ?_⟩
  refine (rootPartition_final haccepted hlisting hexecutes).2 fun partition => ?_
  constructor
  · intro hmount'
    obtain ⟨e', he', rfl⟩ := onDisk_final hexecutes partition "/" hmount'
    rw [eq_of_mounted haccepted hlisting hexecutes hreadable he' he hmount' hmount (by decide)]
  · rintro rfl
    exact hmount

/-- The entries of `manual_mounts` are mount points on the disk. -/
theorem lookup_spelled_final {mount : String} (hmount : isReserved mount = false) :
    (replay spelledEdit done).lookup partition = some mount ↔
      placed.mounts.lookup partition = some mount := by
  rw [lookup_spelled_iff (sound_final haccepted hexecutes) hreadable.plain hmount,
    mounts_final haccepted hlisting hexecutes]

/-- The filesystem that is reported for a mounted partition is the one on it. -/
theorem reported_of_readable (hshows : Shows parts' placed.layout)
    (hformatted : Formatted placed done) {e : Extent} (he : e ∈ placed.layout) {mount : String}
    (hmount : placed.mounts.lookup e.name = some mount) (hreserved : isReserved mount = false) :
    mountFilesystem (reportedMount parts' done e.name mount).fstype = mountFilesystem e.fstype := by
  have horigin := origin_ne_of_mounted haccepted hlisting hexecutes he hmount
  obtain ⟨fs, hnamed, hreported⟩ | ⟨hnamed, hreported⟩ :=
    reportedMount_fstype hshows hformatted he horigin mount
  · rw [hreported]
    -- the assignment that stands is plain, so the spelling is the name of the partition
    rw [mounts_final haccepted hlisting hexecutes] at hmount
    obtain ⟨before, op, after, hdone, hput, hlast⟩ := lookup_replay_eq_some.1 hmount
    obtain ⟨hkind, htarget, hnormal, -⟩ := placedEdit_eq_put_iff.1 hput
    have hop := hreadable.plain before op after hdone hkind
      (not_isReserved_of_normalMount hnormal hreserved) (stands_of_not_concerns htarget hlast)
    have hspelling : op.spelling = e.name := by
      have heq := hop.partition
      rw [htarget] at heq
      exact (Option.some.inj heq).symm
    have hdevice : Plan.normalizeDevicePath e.name = some e.name :=
      (Plan.normalizeDevicePath_spec htarget).2
    obtain ⟨made, hmade⟩ := exists_lastMade hdevice hnamed
    rw [hformatted.made e he horigin made hmade]
    exact hop.filesystem fs made (hspelling ▸ hnamed) (hspelling ▸ hmade)
  · obtain hne | hne := hformatted.nonempty e he mount hmount
    · rw [hreported hne]
    · exact absurd hnamed hne

theorem readsBack_of_readable (hsupported : Supported journal.ops)
    (hdisk : trim journal.disk ≠ "") (hshows : Shows parts' placed.layout) :
    ReadsBack (finalState journal parts tableType size) placed.layout
      (rootPartition (executedJournal journal done))
      (manualMounts (executedJournal journal done) parts') := by
  have hsound := sound_final haccepted hexecutes
  have hformatted := formatted_of_executes haccepted hlisting hsupported
    (List.append_nil journal.ops).symm hexecutes
  have hefi : ∀ {mount : String}, isReserved mount = false →
      mount ≠ "/" ∧ mount ≠ "/boot/efi" := by
    intro mount hmount
    simp only [isReserved, Bool.or_eq_false_iff, beq_eq_false_iff_ne] at hmount
    exact ⟨hmount.1.2, hmount.2⟩
  obtain ⟨mounts, hmounts⟩ : ∃ mounts,
      manualMounts (executedJournal journal done) parts' = .ok mounts := by
    refine exists_manualMounts hsound hdisk (fun partition mount hlookup hmount => ?_)
      fun partition partition' mount hlookup hlookup' hmount => ?_
    · rw [lookup_spelled_final haccepted hlisting hexecutes hreadable hmount] at hlookup
      obtain ⟨e, he, rfl⟩ := onDisk_final hexecutes partition mount hlookup
      obtain ⟨part, hpart, hname, -⟩ := hshows.shown e he
      rw [← hname, lookup_discoveredParts hshows.toIsListing hpart]
      exact Option.some_ne_none part
    · rw [lookup_spelled_final haccepted hlisting hexecutes hreadable hmount] at hlookup hlookup'
      obtain ⟨e, he, rfl⟩ := onDisk_final hexecutes partition mount hlookup
      obtain ⟨e', he', rfl⟩ := onDisk_final hexecutes partition' mount hlookup'
      rw [eq_of_mounted haccepted hlisting hexecutes hreadable he he' hlookup hlookup'
        (hefi hmount).2]
  obtain ⟨hnodup, hmem⟩ := mem_manualMounts hsound hdisk hmounts
  refine ⟨root_of_readable haccepted hlisting hexecutes hreadable, mounts, hmounts, hnodup,
    fun e mount hassigned hroot hboot => ?_, fun m hm => ?_⟩
  · have hmount := mounted_of_assigned haccepted hlisting hexecutes hreadable hassigned hboot
    have hne : mount ≠ "" := by
      rw [mounts_final haccepted hlisting hexecutes] at hmount
      obtain ⟨before, op, after, -, hput, -⟩ := lookup_replay_eq_some.1 hmount
      exact (placedEdit_eq_put_iff.1 hput).2.2.2
    have hreserved : isReserved mount = false := by simp [isReserved, hne, hroot, hboot]
    refine ⟨reportedMount parts' done e.name mount, (hmem _).2 ⟨e.name, mount, ?_, hreserved, rfl⟩,
      rfl, rfl⟩
    rwa [lookup_spelled_final haccepted hlisting hexecutes hreadable hreserved]
  · obtain ⟨partition, mount, hlookup, hmount, rfl⟩ := (hmem m).1 hm
    rw [lookup_spelled_final haccepted hlisting hexecutes hreadable hmount] at hlookup
    obtain ⟨e, he, rfl⟩ := onDisk_final hexecutes partition mount hlookup
    have hfile := onFile_of_mounted haccepted hlisting hexecutes hreadable he hlookup
      (hefi hmount).2
    exact ⟨(hefi hmount).1, (hefi hmount).2, e,
      assigned_of_mounted haccepted hlisting hexecutes he hfile hlookup, rfl,
      reported_of_readable haccepted hlisting hexecutes hreadable hshows hformatted he hlookup
        hmount⟩

end Readable

/-! ### Journals that are read back -/

/-- A partition to which an assignment is given is not the BIOS boot partition. -/
theorem origin_ne_of_assigned {e : Extent} {mount : String}
    (h : Assigned (finalState journal parts tableType size) placed.layout e mount) :
    e.origin ≠ .biosBoot := by
  intro horigin
  obtain ⟨e', he', hkey, hmount⟩ := mounted_of_lookup haccepted hlisting hexecutes h.2.2
  have hbios : e'.key = biosBootKey := by
    rw [hkey]
    simp only [Extent.key, horigin]
  obtain hnamed | hcreated :=
    (linked_final haccepted hlisting hexecutes).origin e' he' mount hmount
  · rw [hnamed.key_eq] at hbios
    have hdev := (tracks_final haccepted hlisting hexecutes).named_dev e' he' hnamed
    exact biosBootKey_ne_of_dev hdev hbios.symm
  · obtain ⟨index, horigin'⟩ := Extent.isCreated_iff.1 hcreated
    simp only [Extent.key, horigin'] at hbios
    exact biosBootKey_ne_createdKey index hbios.symm

section Back

variable (hsupported : Supported journal.ops) (hdisk : trim journal.disk ≠ "")
  (hshows : Shows parts' placed.layout)
  (hback : ReadsBack (finalState journal parts tableType size) placed.layout
    (rootPartition (executedJournal journal done))
    (manualMounts (executedJournal journal done) parts'))

include hdisk hback

/-- An assignment that stands is a mount of its partition. -/
theorem assigned_of_stands (hdone : done = before ++ op :: after)
    (hkind : op.kind = .create ∨ op.kind = .setMountpoint)
    (hreserved : isReserved op.mountpoint = false) (hstands : Stands op after) :
    ∃ e, Assigned (finalState journal parts tableType size) placed.layout e op.mountpoint ∧
      e.name = op.spelling ∧ op.target = some op.spelling ∧
      mountFilesystem (reportedMount parts' done op.spelling op.mountpoint).fstype =
        mountFilesystem e.fstype := by
  have hsound := sound_final haccepted hexecutes
  have hreads : readsParams op.kind = true := by
    obtain hkind | hkind := hkind <;> simp [readsParams, hkind]
  obtain ⟨target, htarget⟩ := (hsound op (by simp [hdone])).target hreads
  obtain ⟨mounts, hmounts, -, -, hexact⟩ := hback.mounts
  have hlookup := lookup_spelled_of_stands hdone hkind (spelling_ne_empty htarget)
    (ne_empty_of_not_isReserved hreserved) hstands
  have hmem := ((mem_manualMounts hsound hdisk hmounts).2 _).2
    ⟨op.spelling, op.mountpoint, hlookup, hreserved, rfl⟩
  obtain ⟨-, -, e, hassigned, hname, hfs⟩ := hexact _ hmem
  have hname : e.name = op.spelling := hname
  have hdev := (follows_final haccepted hlisting hexecutes).dev e hassigned.1
  rw [hname] at hdev
  refine ⟨e, hassigned, hname, ?_, hfs⟩
  rw [spelling_eq_of_target htarget hdev, htarget]

/-- No later operation names the partition of such an assignment in another spelling. -/
theorem alone_of_stands (hdone : done = before ++ op :: after)
    (hkind : op.kind = .create ∨ op.kind = .setMountpoint)
    (hreserved : isReserved op.mountpoint = false) (hstands : Stands op after)
    {op' : PartitionOperation} (hop' : op' ∈ after)
    (hkind' : op'.kind = .setMountpoint ∨ op'.kind = .delete) :
    op'.target ≠ some op.spelling := by
  intro htarget'
  obtain ⟨e, hassigned, hname, -, -⟩ :=
    assigned_of_stands haccepted hlisting hexecutes hdisk hback hdone hkind hreserved hstands
  rw [← hname] at htarget'
  by_cases hcreated : e.isCreated = true
  · -- the partition was created after the operation that names it, under the same spelling
    obtain ⟨between, rest, rfl⟩ := List.append_of_mem hop'
    have hdone' : done = (before ++ op :: between) ++ op' :: rest := by
      rw [hdone]
      simp
    obtain ⟨c, hc, hcreate, hspelling⟩ := created_after_named haccepted hlisting
      (List.append_nil journal.ops).symm hexecutes
      (Layout.mem_createdOnes.2 ⟨hassigned.1, hcreated⟩) hdone' hkind' htarget'
    exact (hstands c (by simp [hc])).2 (.inl hcreate) (hspelling.trans hname)
  · -- the last word on the partition has another spelling, and is a mount of its own
    have hnamed : e.IsNamed := by
      have horigin := origin_ne_of_assigned haccepted hlisting hexecutes hassigned
      cases horigin' : e.origin with
      | listed => exact .inl horigin'
      | resized => exact .inr horigin'
      | created index => exact absurd (Extent.isCreated_iff.2 ⟨index, horigin'⟩) hcreated
      | biosBoot => exact absurd horigin' horigin
    have hmount := hassigned.2.2
    rw [hnamed.key_eq, lookup_named_final haccepted hlisting hexecutes hassigned.1 hnamed,
      mounts_final haccepted hlisting hexecutes] at hmount
    obtain ⟨beforeLast, last, afterLast, hdoneLast, hput, huntouched⟩ :=
      lookup_replay_eq_some.1 hmount
    obtain ⟨hkindLast, htargetLast, hnormal, -⟩ := placedEdit_eq_put_iff.1 hput
    have hconcerns : (placedEdit op').Concerns e.name :=
      placedEdit_concerns_iff.2 (.inr ⟨.inr hkind', htarget'⟩)
    have hnot : op' ∉ afterLast := fun hmem => huntouched op' hmem hconcerns
    obtain ⟨between, hafter⟩ :=
      split_of_mem_of_notMem (hdone.symm.trans hdoneLast) hop' hnot
    obtain ⟨-, -, -, hspelled, -⟩ :=
      assigned_of_stands haccepted hlisting hexecutes hdisk hback hdoneLast hkindLast
        (not_isReserved_of_normalMount hnormal hreserved)
        (stands_of_not_concerns htargetLast huntouched)
    rw [htargetLast] at hspelled
    have hmem : last ∈ after := by simp [hafter]
    have hassigns : last.kind = .create ∨ last.kind = .setMountpoint ∨ last.kind = .delete := by
      obtain h | h := hkindLast
      · exact .inl h
      · exact .inr (.inl h)
    exact (hstands last hmem).2 hassigns ((Option.some.inj hspelled).symm.trans hname)

include hsupported hshows

theorem plain_of_readsBack (hdone : done = before ++ op :: after)
    (hkind : op.kind = .create ∨ op.kind = .setMountpoint)
    (hreserved : isReserved op.mountpoint = false) (hstands : Stands op after) :
    Plain done op after := by
  obtain ⟨e, hassigned, hname, htarget, hfs⟩ :=
    assigned_of_stands haccepted hlisting hexecutes hdisk hback hdone hkind hreserved hstands
  have hformatted := formatted_of_executes haccepted hlisting hsupported
    (List.append_nil journal.ops).symm hexecutes
  refine ⟨?_, htarget, fun op' hop' hkind' => ?_, fun fs made hnamed hmade => ?_⟩
  · -- the assignments of `validate` are normalized
    obtain ⟨e', -, -, hmount⟩ := mounted_of_lookup haccepted hlisting hexecutes hassigned.2.2
    rw [mounts_final haccepted hlisting hexecutes] at hmount
    obtain ⟨before', op', after', -, hput, -⟩ := lookup_replay_eq_some.1 hmount
    obtain ⟨-, -, hnormal, -⟩ := placedEdit_eq_put_iff.1 hput
    rw [← hnormal, normalMount_normalMount]
  · exact alone_of_stands haccepted hlisting hexecutes hdisk hback hdone hkind hreserved hstands
      hop' hkind'
  · have horigin := origin_ne_of_assigned haccepted hlisting hexecutes hassigned
    rw [← hname] at hnamed hmade hfs
    rw [← hformatted.made e hassigned.1 horigin made hmade, ← hfs]
    obtain ⟨fs', hnamed', hreported⟩ | ⟨hnone, -⟩ :=
      reportedMount_fstype hshows hformatted hassigned.1 horigin op.mountpoint
    · rw [hnamed] at hnamed'
      rw [hreported, Option.some.inj hnamed']
    · rw [hnamed] at hnone
      cases hnone

omit hsupported hshows in
/-- A partition on the disk with a mount point is one to which `validate` gives it. -/
theorem onFile_of_readsBack {e : Extent} (he : e ∈ placed.layout) {mount : String}
    (hmount : placed.mounts.lookup e.name = some mount) (hefi : mount ≠ "/boot/efi") :
    placed.layout.OnFile e := by
  have htracks := tracks_final haccepted hlisting hexecutes
  by_cases hroot : mount = "/"
  · obtain ⟨e', hassigned, hanswer⟩ := hback.root
    have hname := ((rootPartition_final haccepted hlisting hexecutes).1 hanswer e.name).1
      (hroot ▸ hmount)
    rw [htracks.eq_of_name he hassigned.1 hname]
    exact hassigned.2.1
  · rw [mounts_final haccepted hlisting hexecutes] at hmount
    obtain ⟨before, op, after, hdone, hput, hlast⟩ := lookup_replay_eq_some.1 hmount
    obtain ⟨hkind, htarget, hnormal, hne⟩ := placedEdit_eq_put_iff.1 hput
    have hreserved : isReserved mount = false := by simp [isReserved, hne, hroot, hefi]
    obtain ⟨e', hassigned, hname, hspelled, -⟩ :=
      assigned_of_stands haccepted hlisting hexecutes hdisk hback hdone hkind
        (not_isReserved_of_normalMount hnormal hreserved) (stands_of_not_concerns htarget hlast)
    rw [htarget, ← hname] at hspelled
    rw [htracks.eq_of_name he hassigned.1 (Option.some.inj hspelled)]
    exact hassigned.2.1

omit hsupported hshows in
theorem indices_of_readsBack (hops : journal.ops = before ++ op :: after)
    (hcreate : op.kind = .create) (hmount : normalMount op.mountpoint ≠ "")
    (hefi : normalMount op.mountpoint ≠ "/boot/efi")
    (htables : ∀ op' ∈ after, op'.kind ≠ .newTable) :
    ∀ op' ∈ after, op'.kind = .create → createdKey op'.index ≠ createdKey op.index := by
  intro op' hop' hcreate' hindex
  have htracks := tracks_final haccepted hlisting hexecutes
  obtain ⟨middle, doneBefore, doneRest, hbefore, hrest, -⟩ := hexecutes.append_inv hops
  obtain ⟨name, doneAfter, hname, hdevice, hafter, -⟩ := hrest.cons_inv
  have hops' : journal.ops = before ++ [op] ++ after := by
    rw [hops, List.append_assoc, List.singleton_append]
  have hthrough := hbefore.snoc hname hdevice op
  have hdev : startsWith name "/dev/" = true := (Plan.normalizeDevicePath_spec hdevice).1
  have hstep := stepped_of_accepted haccepted hops
  have hones : Layout.createdOnes (applyOperation name middle.layout op) = _ :=
    hstep.createdOnes_eq (tracks_of_executes haccepted hlisting hops hbefore)
  rw [if_neg (by simp [hcreate]), if_pos hcreate] at hones
  obtain ⟨created, hfinal, hcreated⟩ := createdOnes_of_executes haccepted hlisting
    (hops'.trans (List.append_nil _).symm) hthrough hafter htables
  have hlayout : (middle.after name op).layout = applyOperation name middle.layout op := rfl
  rw [hlayout, hones] at hfinal
  -- the partition is still there at the end, with its mount point
  have hmem : createdExtent name op ∈ placed.layout.createdOnes := by
    rw [hfinal]
    exact List.mem_append_right _ List.mem_cons_self
  obtain ⟨he, hisCreated⟩ := Layout.mem_createdOnes.1 hmem
  have hstart : (middle.after name op).Holds name (createdFstype op.params)
      (normalMount op.mountpoint) := by
    refine ⟨⟨createdExtent name op, ?_, rfl, by simp only [createdExtent]⟩, ?_⟩
    · simp only [Placed.after, applyOperation, hcreate]
      exact List.mem_cons_self
    · simp only [Placed.after, mountsAfter, hcreate]
      rw [createMount_eq_normalMount (hstep.createErrors_eq_nil hcreate), lookup_assignMount_self,
        if_neg hmount]
  have hnone : (runState (context journal size) (initialState parts tableType)
      (before ++ [op])).allocated.lookup name = none := by
    refine (tracks_of_executes haccepted hlisting hops' hthrough).lookup_of_not_isNamed
      (e := createdExtent name op) ?_ hdev (Extent.not_isNamed_of_isCreated hisCreated)
    simp only [Placed.after, applyOperation, hcreate]
    exact List.mem_cons_self
  have huntouched := not_touches_of_lookup_none haccepted hdev hops' hnone htables
  have hholds := (hafter.holds hstart huntouched).2
  have hfile := onFile_of_readsBack haccepted hlisting hexecutes hdisk hback he hholds hefi
  -- but the partition of the later operation is found first
  have hfind := (htracks.onFile_iff hisCreated).1 hfile
  obtain ⟨e', he', hkey'⟩ := hcreated op' hop' hcreate'
  rw [hfinal, List.find?_append] at hfind
  have hsome : (created.find? fun x => decide (x.key = (createdExtent name op).key)).isSome := by
    rw [List.find?_isSome]
    exact ⟨e', he', by rw [hkey', createdExtent_key, hindex, decide_eq_true_eq]⟩
  obtain ⟨found, hfound⟩ := Option.isSome_iff_exists.1 hsome
  rw [hfound, Option.some_or, Option.some.injEq] at hfind
  have hincreated : createdExtent name op ∈ created := by
    rw [← hfind]
    exact List.mem_of_find?_eq_some hfound
  have hnodup : (placed.layout.createdOnes.map fun e => e.name).Nodup :=
    htracks.names_nodup.sublist (List.filter_sublist.map _)
  rw [hfinal, List.map_append] at hnodup
  exact List.disjoint_of_nodup_append hnodup (List.mem_map_of_mem hincreated)
    (List.mem_map_of_mem List.mem_cons_self)

end Back

/-- On every run of an accepted journal, `root_partition` and `manual_mounts` return the final
assignments of `validate` if and only if the journal is readable. -/
theorem readsBack_iff (hsupported : Supported journal.ops) (hdisk : trim journal.disk ≠ "")
    (hshows : Shows parts' placed.layout) :
    ReadsBack (finalState journal parts tableType size) placed.layout
        (rootPartition (executedJournal journal done))
        (manualMounts (executedJournal journal done) parts') ↔
      Readable journal.ops done := by
  constructor
  · intro hback
    constructor
    · intro before op after hdone hkind hreserved hstands
      exact plain_of_readsBack haccepted hlisting hexecutes hsupported hdisk hshows hback hdone
        hkind hreserved hstands
    · intro before op after hops hcreate hmount hefi htables
      exact indices_of_readsBack haccepted hlisting hexecutes hdisk hback hops hcreate hmount hefi
        htables
  · intro hreadable
    exact readsBack_of_readable haccepted hlisting hexecutes hreadable hsupported hdisk hshows

end Final

/-! ### A home partition -/

/-- An ext4 partition of 1 GiB at 2 GiB. -/
def homePartition : PartitionRecord where
  name := "/dev/sda2"
  sizeBytes := 0x40000000
  startBytes := 0x80000000
  fstype := "ext4"

/-- The partition gets a mount point. -/
def setHome (mountpoint : String) (index : ℕ) : PartitionOperation where
  kind := .setMountpoint
  params := .object [("partition", .string "/dev/sda2"), ("mountpoint", .string mountpoint)]
  index := index

/-- A journal that assigns the root and a mount point of the home partition. -/
def homeMounts (mountpoint : String) : PartitionJournal where
  disk := "/dev/sda"
  ops := [setRoot 0, setHome mountpoint 1]

/-- The disk after it has run. -/
def placedHome (mountpoint : String) : Placed :=
  Placed.after "/dev/sda3"
    (Placed.after "/dev/sda3" (initialPlaced [btrfsPartition, homePartition]) (setRoot 0))
    (setHome mountpoint 1)

theorem executes_homeMounts (mountpoint : String) :
    Executes (initialPlaced [btrfsPartition, homePartition]) (homeMounts mountpoint).ops
      (placedHome mountpoint) (homeMounts mountpoint).ops := by
  have hfirst : Executes (initialPlaced [btrfsPartition, homePartition]) [setRoot 0]
      (Placed.after "/dev/sda3" (initialPlaced [btrfsPartition, homePartition]) (setRoot 0))
      [setRoot 0] := .snoc .nil (by decide) (by decide) (setRoot 0)
  exact .snoc hfirst (by decide) (by decide) (setHome mountpoint 1)

theorem isListing_home : IsListing [btrfsPartition, homePartition] :=
  ⟨by decide, by decide⟩

theorem shows_placedHome (mountpoint : String) :
    Shows [btrfsPartition, homePartition] (placedHome mountpoint).layout where
  toIsListing := isListing_home
  shown e he := by
    obtain rfl | rfl : e = listedExtent btrfsPartition ∨ e = listedExtent homePartition := by
      simpa [placedHome, Placed.after, applyOperation, setRoot, setHome, initialPlaced,
        initialLayout] using he
    · exact ⟨btrfsPartition, by simp, rfl, rfl⟩
    · exact ⟨homePartition, by simp, rfl, rfl⟩
  present part hpart := by
    refine ⟨listedExtent part, ?_, rfl⟩
    simp only [placedHome, Placed.after, applyOperation, setRoot, setHome, initialPlaced,
      initialLayout]
    exact List.mem_map_of_mem hpart

theorem supported_homeMounts (mountpoint : String) :
    Supported (homeMounts mountpoint).ops := by
  intro op hop hkind
  obtain rfl | rfl : op = setRoot 0 ∨ op = setHome mountpoint 1 := by
    simpa [homeMounts] using hop
  · simp [setRoot] at hkind
  · simp [setHome] at hkind

theorem readsBack_home :
    validate (homeMounts "/home") [btrfsPartition, homePartition] "gpt" 0x100000000 = [] ∧
      ReadsBack
        (finalState (homeMounts "/home") [btrfsPartition, homePartition] "gpt" 0x100000000)
        (placedHome "/home").layout
        (rootPartition (executedJournal (homeMounts "/home") (homeMounts "/home").ops))
        (manualMounts (executedJournal (homeMounts "/home") (homeMounts "/home").ops)
          [btrfsPartition, homePartition]) := by
  have haccepted : validate (homeMounts "/home") [btrfsPartition, homePartition] "gpt"
      0x100000000 = [] := by decide
  refine ⟨haccepted, (readsBack_iff haccepted isListing_home (executes_homeMounts "/home")
    (supported_homeMounts "/home") (by decide) (shows_placedHome "/home")).mpr ?_⟩
  have hsplit : ∀ before op after, (homeMounts "/home").ops = before ++ op :: after →
      op = setRoot 0 ∨ op = setHome "/home" 1 ∧ after = [] := by
    intro before op after hops
    match before, hops with
    | [], hops => exact .inl (List.cons.inj hops).1.symm
    | [_], hops =>
      obtain ⟨-, hops⟩ := List.cons.inj hops
      exact .inr ⟨(List.cons.inj hops).1.symm, (List.cons.inj hops).2.symm⟩
    | _ :: _ :: before, hops => simp [homeMounts] at hops
  constructor
  · intro before op after hops hkind hreserved hstands
    obtain rfl | ⟨rfl, rfl⟩ := hsplit before op after hops
    · exact absurd hreserved (by decide)
    · refine ⟨by decide, by decide, by simp, fun fs made hnamed hmade => ?_⟩
      have hnone : lastNamed (setHome "/home" 1).spelling (homeMounts "/home").ops = none := by
        decide
      rw [hnone] at hnamed
      cases hnamed
  · intro before op after hops hcreate
    obtain rfl | ⟨rfl, rfl⟩ := hsplit before op after hops
    · simp [setRoot] at hcreate
    · simp [setHome] at hcreate

/-- A trailing slash is accepted, and comes back with the mount point. -/
theorem trailing_slash_read_back :
    validate (homeMounts "/home/") [btrfsPartition, homePartition] "gpt" 0x100000000 = [] ∧
      IsListing [btrfsPartition, homePartition] ∧ Supported (homeMounts "/home/").ops ∧
      Shows [btrfsPartition, homePartition] (placedHome "/home/").layout ∧
      Executes (initialPlaced [btrfsPartition, homePartition]) (homeMounts "/home/").ops
        (placedHome "/home/") (homeMounts "/home/").ops ∧
      ¬ ReadsBack
        (finalState (homeMounts "/home/") [btrfsPartition, homePartition] "gpt" 0x100000000)
        (placedHome "/home/").layout
        (rootPartition (executedJournal (homeMounts "/home/") (homeMounts "/home/").ops))
        (manualMounts (executedJournal (homeMounts "/home/") (homeMounts "/home/").ops)
          [btrfsPartition, homePartition]) := by
  have haccepted : validate (homeMounts "/home/") [btrfsPartition, homePartition] "gpt"
      0x100000000 = [] := by decide
  have hexecutes := executes_homeMounts "/home/"
  refine ⟨haccepted, isListing_home, supported_homeMounts "/home/", shows_placedHome "/home/",
    hexecutes, fun hback => ?_⟩
  obtain ⟨mounts, hmounts, -, -, hexact⟩ := hback.mounts
  have hlookup : (replay spelledEdit (homeMounts "/home/").ops).lookup "/dev/sda2" =
      some "/home/" := by decide
  have hsound := sound_final haccepted hexecutes
  have hmem := ((mem_manualMounts hsound (by decide) hmounts).2 _).2
    ⟨"/dev/sda2", "/home/", hlookup, by decide, rfl⟩
  obtain ⟨-, -, e, hassigned, -, -⟩ := hexact _ hmem
  have hentries : ∀ entry ∈ (finalState (homeMounts "/home/") [btrfsPartition, homePartition] "gpt"
      0x100000000).mountAssignments.entries, entry.2 ≠ "/home/" := by decide
  exact hentries ⟨e.key, "/home/"⟩ (AList.mem_lookup_iff.1 hassigned.2.2) rfl

end Kyth.Journal

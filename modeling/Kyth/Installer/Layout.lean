import Kyth.Installer.Accepted
import Kyth.Installer.Disk
import Kyth.Lib.Interval

/-!
# The layout a journal produces

`Layout` is what is on the disk: the extents of its partitions under the names the kernel gave
them. `applyOperation` is the effect of one completed operation of `execute_operation` on it, and
`Produces` runs a list of operations, the kernel choosing an unused name for each new partition.

`validate` keeps its own picture of the same disk. `Tracks` relates the two: every partition that
came with the snapshot is filed under its name, every created one under its operation's index. An
accepted operation keeps `Tracks` (`Tracks.step`), and so does an accepted journal
(`tracks_of_produces`).
-/

namespace Kyth.Journal

open Str Word Json Storage

/-- `BIOS_BOOT_BYTES`. -/
def biosBootBytes : ℕ := 2 * 1024 * 1024

/-- Where a partition of the layout comes from. -/
inductive Origin
  | listed
  | resized
  | created (index : ℕ)
  | biosBoot
  deriving DecidableEq, Repr

/-- A partition on the disk. -/
structure Slot where
  name : String
  start : ℕ
  stop : ℕ
  fstype : String
  deriving DecidableEq, Repr

/-- The bytes of a partition. -/
def Slot.span (slot : Slot) : ℕ × ℕ := (slot.start, slot.stop)

/-- A partition on the disk with its origin, which the disk itself does not record. -/
structure Extent extends Slot where
  origin : Origin
  deriving DecidableEq, Repr

/-- The bytes of a partition. -/
def Extent.span (e : Extent) : ℕ × ℕ := (e.start, e.stop)

/-- The name under which `validate` files a partition. -/
def Extent.key (e : Extent) : String :=
  match e.origin with
  | .listed | .resized => e.name
  | .created index => createdKey index
  | .biosBoot => biosBootKey

/-- A partition that came with the snapshot. -/
def Extent.IsNamed (e : Extent) : Prop := e.origin = .listed ∨ e.origin = .resized

theorem Extent.IsNamed.key_eq {e : Extent} (h : e.IsNamed) : e.key = e.name := by
  rcases h with h | h <;> simp [Extent.key, h]

/-- The partitions of a disk, the latest first. -/
abbrev Layout := List Extent

/-- The device names in use. -/
def Layout.names (layout : Layout) : List String := layout.map fun e => e.name

/-- A partition of the snapshot. -/
def listedExtent (part : PartitionRecord) : Extent where
  name := part.name
  start := part.startBytes.toNat
  stop := part.startBytes.toNat + part.sizeBytes.toNat
  fstype := part.fstype
  origin := .listed

/-- The layout of a snapshot. -/
def initialLayout (parts : List PartitionRecord) : Layout := parts.map listedExtent

/-- A listing of partitions: `lsblk` names every partition once, by its path. -/
structure IsListing (parts : List PartitionRecord) : Prop where
  names_nodup : (parts.map PartitionRecord.name).Nodup
  names_dev : ∀ part ∈ parts, startsWith part.name "/dev/" = true

/-- A snapshot of a disk of `size` bytes: a listing of partitions whose byte ranges are disjoint
and end inside the disk. -/
structure IsSnapshot (parts : List PartitionRecord) (size : ℕ) : Prop extends IsListing parts where
  apart : Interval.Apart Extent.span (initialLayout parts)
  inside : ∀ part ∈ parts, part.startBytes.toNat + part.sizeBytes.toNat ≤ size

/-! ### The effect of an operation -/

/-- The table type that the executor reads as a request for GPT. -/
def asksGpt (params : Value) : Bool :=
  let tableType := valueString params "table_type"
  tableType == "" || eqIgnoreAsciiCase tableType "gpt"

/-- The bytes a `create` asks for. -/
def createSpan (params : Value) : ℕ × ℕ :=
  ((valueU64 params "start_bytes" 0).toNat,
    (valueU64 params "start_bytes" 0).toNat + (valueU64 params "size_bytes" 0).toNat)

/-- The bytes a partition has after a `resize`. -/
def Extent.resizeSpan (e : Extent) (params : Value) : ℕ × ℕ :=
  (e.start, e.start + (valueU64 params "new_size_bytes" 0).toNat)

/-- The filesystem type a probe reports after a filesystem was made. -/
def probedFstype (fs : String) : String :=
  match Disk.normalizedName fs with
  | "fat32" => "vfat"
  | "linux-swap" => "swap"
  | fs => fs

theorem normalizedName_valueString (params : Value) (key : String) :
    Disk.normalizedName (valueString params key) = toAsciiLowercase (valueString params key) := by
  rw [Disk.normalizedName, valueString, trim_trim]

/-- The BIOS boot partition of a new GPT table. -/
def biosBootExtent (name : String) : Extent where
  name := name
  start := 1024 * 1024
  stop := 1024 * 1024 + biosBootBytes
  fstype := ""
  origin := .biosBoot

/-- The filesystem a `create` leaves behind: swap areas are not initialized here. -/
def createdFstype (params : Value) : String :=
  let fs := valueString params "fs_type"
  if fs = "linux-swap" then "" else probedFstype fs

/-- The partition a `create` makes. -/
def createdExtent (name : String) (op : PartitionOperation) : Extent where
  name := name
  start := (createSpan op.params).1
  stop := (createSpan op.params).2
  fstype := createdFstype op.params
  origin := .created op.index

/-- A partition after a `resize`. -/
def Extent.resize (e : Extent) (params : Value) : Extent :=
  { e with stop := (e.resizeSpan params).2, origin := .resized }

/-- A partition after a `format`. -/
def Extent.format (e : Extent) (params : Value) : Extent :=
  { e with fstype := probedFstype (valueString params "fs_type") }

@[simp] theorem Extent.resize_name (e : Extent) (params : Value) :
    (e.resize params).name = e.name := by simp only [Extent.resize]

@[simp] theorem Extent.resize_start (e : Extent) (params : Value) :
    (e.resize params).start = e.start := by simp only [Extent.resize]

@[simp] theorem Extent.resize_span (e : Extent) (params : Value) :
    (e.resize params).span = e.resizeSpan params := by
  simp only [Extent.resize, Extent.span, Extent.resizeSpan]

@[simp] theorem Extent.format_name (e : Extent) (params : Value) :
    (e.format params).name = e.name := by simp only [Extent.format]

@[simp] theorem Extent.format_start (e : Extent) (params : Value) :
    (e.format params).start = e.start := by simp only [Extent.format]

@[simp] theorem Extent.format_span (e : Extent) (params : Value) :
    (e.format params).span = e.span := by simp only [Extent.format, Extent.span]

theorem Extent.format_isNamed {e : Extent} (params : Value) (h : e.IsNamed) :
    (e.format params).IsNamed := by simpa only [Extent.IsNamed, Extent.format] using h

/-- The layout after an operation, with the name the kernel gives to a new partition. -/
def applyOperation (name : String) (layout : Layout) (op : PartitionOperation) : Layout :=
  match op.kind with
  | .newTable => if asksGpt op.params then [biosBootExtent name] else []
  | .create => createdExtent name op :: layout
  | .delete => layout.filter fun e => some e.name ≠ op.target
  | .resize => layout.map fun e => if some e.name = op.target then e.resize op.params else e
  | .format => layout.map fun e => if some e.name = op.target then e.format op.params else e
  | .setMountpoint => layout
  | .other _ => layout

/-- The layouts that a list of operations produces. -/
inductive Produces : Layout → List PartitionOperation → Layout → Prop
  | nil (layout : Layout) : Produces layout [] layout
  | snoc {layout layout' : Layout} {ops : List PartitionOperation} (h : Produces layout ops layout')
      {name : String} (hname : name ∉ layout'.names) (op : PartitionOperation) :
      Produces layout (ops ++ [op]) (applyOperation name layout' op)

/-! ### The picture `validate` has of a layout -/

/-- A created partition is on file until a later `create` of the same index takes its place. -/
def Layout.OnFile (layout : Layout) (e : Extent) : Prop :=
  ∀ index, e.origin = .created index →
    layout.find? (fun e' => decide (e'.key = createdKey index)) = some e

/-- The bytes of a partition on file that its region covers. A listed partition that reaches
`2^63` is read as a negative end, a later end is capped there, and the BIOS boot partition is
entered with 1 MiB. -/
def Extent.Shown (e : Extent) (b : ℕ) : Prop :=
  match e.origin with
  | .listed => e.stop < 2 ^ 63
  | .resized | .created _ => b < 2 ^ 63 - 1
  | .biosBoot => b < 2 * 1024 * 1024

/-- The region on file for a partition. -/
structure FiledAs (e : Extent) (region : Region) : Prop where
  start_eq : region.start = asI64 e.start
  covers : ∀ b : ℕ, e.start ≤ b → b < e.stop → e.Shown b →
    0 ≤ region.start ∧ region.start ≤ b ∧ b < region.stop

/-- The regions of `validate` against the layout they stand for. -/
structure Tracks (allocated : StringMap Region) (layout : Layout) : Prop where
  names_nodup : layout.names.Nodup
  start_lt : ∀ e ∈ layout, e.start < 2 ^ 64
  named_dev : ∀ e ∈ layout, e.IsNamed → startsWith e.name "/dev/" = true
  filed : ∀ e ∈ layout, layout.OnFile e →
    ∃ region, allocated.lookup e.key = some region ∧ FiledAs e region
  found : ∀ partition region, startsWith partition "/dev/" = true →
    allocated.lookup partition = some region → ∃ e ∈ layout, e.IsNamed ∧ e.name = partition

theorem createdKey_ne_of_dev {index : ℕ} {path : String} (h : startsWith path "/dev/" = true) :
    createdKey index ≠ path := by
  rintro rfl
  have hhead := startsWith_head_eq h (startsWith_append "new:" (toString index))
    (by decide) (by decide)
  exact absurd hhead (by decide)

theorem biosBootKey_ne_of_dev {path : String} (h : startsWith path "/dev/" = true) :
    biosBootKey ≠ path := by
  rintro rfl
  exact absurd h (by decide)

/-- A partition filed under a device path came with the snapshot. -/
theorem Extent.isNamed_of_key_dev {e : Extent} (h : startsWith e.key "/dev/" = true) :
    e.IsNamed := by
  unfold Extent.key at h
  split at h
  · exact .inl (by assumption)
  · exact .inr (by assumption)
  · exact absurd rfl (createdKey_ne_of_dev h)
  · exact absurd h (by decide)

/-! ### The snapshot -/

theorem lookup_foldl_insert_of_not_mem {α : Type} {f : PartitionRecord → α}
    {parts : List PartitionRecord} {table : StringMap α} {name : String}
    (h : name ∉ parts.map PartitionRecord.name) :
    (parts.foldl (fun table part => table.insert part.name (f part)) table).lookup name =
      table.lookup name := by
  induction parts generalizing table with
  | nil => rfl
  | cons part parts ih =>
    rw [List.map_cons, List.mem_cons, not_or] at h
    rw [List.foldl_cons, ih h.2, AList.lookup_insert_ne h.1]

theorem lookup_foldl_insert {α : Type} {f : PartitionRecord → α} {parts : List PartitionRecord}
    {table : StringMap α} (hnodup : (parts.map PartitionRecord.name).Nodup)
    {part : PartitionRecord} (hpart : part ∈ parts) :
    (parts.foldl (fun table part => table.insert part.name (f part)) table).lookup part.name =
      some (f part) := by
  induction parts generalizing table with
  | nil => cases hpart
  | cons first parts ih =>
    rw [List.map_cons, List.nodup_cons] at hnodup
    rw [List.foldl_cons]
    rcases List.mem_cons.1 hpart with rfl | hmem
    · rw [lookup_foldl_insert_of_not_mem hnodup.1, AList.lookup_insert]
    · exact ih hnodup.2 hmem

/-- The region of a listed partition. -/
theorem filedAs_recordRegion (part : PartitionRecord) :
    FiledAs (listedExtent part) (recordRegion part) := by
  refine ⟨rfl, fun b hstart hstop hshown => ?_⟩
  simp only [listedExtent, Extent.Shown] at hstart hstop hshown
  simp only [recordRegion]
  rw [asI64_of_lt (by omega), asI64_of_lt (by unfold satAddU64; omega)]
  unfold satAddU64
  omega

theorem tracks_initial {parts : List PartitionRecord} (h : IsListing parts) :
    Tracks (initialRegions parts) (initialLayout parts) where
  names_nodup := by
    have hnames : (initialLayout parts).names = parts.map PartitionRecord.name := by
      simp [Layout.names, initialLayout, listedExtent]
    rw [hnames]
    exact h.names_nodup
  start_lt e he := by
    obtain ⟨part, hpart, rfl⟩ := List.mem_map.1 he
    exact part.startBytes.toNat_lt
  named_dev e he _ := by
    obtain ⟨part, hpart, rfl⟩ := List.mem_map.1 he
    exact h.names_dev part hpart
  filed e he _ := by
    obtain ⟨part, hpart, rfl⟩ := List.mem_map.1 he
    exact ⟨recordRegion part, lookup_foldl_insert h.names_nodup hpart, filedAs_recordRegion part⟩
  found partition region _ hregion := by
    by_cases hmem : partition ∈ parts.map PartitionRecord.name
    · obtain ⟨part, hpart, rfl⟩ := List.mem_map.1 hmem
      exact ⟨listedExtent part, List.mem_map_of_mem hpart, .inl rfl, rfl⟩
    · rw [initialRegions, lookup_foldl_insert_of_not_mem hmem] at hregion
      cases hregion

/-! ### One operation -/

variable {ctx : ValidateContext} {s : ValidateState} {allocated allocated' : StringMap Region}
  {layout layout' : Layout} {op : PartitionOperation} {name partition : String}

namespace Tracks

/-- Two partitions of one name are the same. -/
theorem eq_of_name (h : Tracks allocated layout) {e e' : Extent} (he : e ∈ layout)
    (he' : e' ∈ layout) (hname : e.name = e'.name) : e = e' :=
  List.inj_on_of_nodup_map h.names_nodup he he' hname

/-- A partition that carries a name on file came with the snapshot. -/
theorem isNamed (h : Tracks allocated layout) {region : Region}
    (hdev : startsWith partition "/dev/" = true) (hregion : allocated.lookup partition = some region)
    {e : Extent} (he : e ∈ layout) (hname : e.name = partition) : e.IsNamed := by
  obtain ⟨e', he', hnamed, hname'⟩ := h.found partition region hdev hregion
  rwa [h.eq_of_name he he' (hname.trans hname'.symm)]

/-- The region on file under the name of a partition is that partition's. -/
theorem filedAs (h : Tracks allocated layout) {region : Region}
    (hdev : startsWith partition "/dev/" = true) (hregion : allocated.lookup partition = some region)
    {e : Extent} (he : e ∈ layout) (hname : e.name = partition) : FiledAs e region := by
  have hnamed := h.isNamed hdev hregion he hname
  have hfile : layout.OnFile e := fun index horigin => by
    rcases hnamed with hn | hn <;> rw [hn] at horigin <;> cases horigin
  obtain ⟨region', hregion', hfiled⟩ := h.filed e he hfile
  rw [hnamed.key_eq, hname, hregion] at hregion'
  cases hregion'
  exact hfiled

/-- No created partition is filed under a name of the snapshot. -/
theorem key_ne (h : Tracks allocated layout) {region : Region}
    (hdev : startsWith partition "/dev/" = true) (hregion : allocated.lookup partition = some region)
    {e : Extent} (he : e ∈ layout) (hname : e.name = partition) (index : ℕ) :
    e.key ≠ createdKey index := by
  rw [(h.isNamed hdev hregion he hname).key_eq, hname]
  exact (createdKey_ne_of_dev hdev).symm

/-- A partition of another name is filed under another key. -/
theorem key_ne_of_name_ne {e : Extent} (hdev : startsWith partition "/dev/" = true)
    (hname : e.name ≠ partition) : e.key ≠ partition := by
  rintro hkey
  have hnamed : e.IsNamed := Extent.isNamed_of_key_dev (hkey ▸ hdev)
  exact hname (hnamed.key_eq.symm.trans hkey)

/-- Changing one partition of the snapshot in place. -/
theorem update (h : Tracks allocated layout) {region region' : Region} {g : Extent → Extent}
    (hdev : startsWith partition "/dev/" = true) (hregion : allocated.lookup partition = some region)
    (hname : ∀ e, (g e).name = e.name) (hstart : ∀ e, (g e).start = e.start) (hnamed : ∀ e : Extent, e.IsNamed → (g e).IsNamed)
    (hfiled : ∀ e ∈ layout, e.name = partition → FiledAs e region → FiledAs (g e) region') :
    Tracks (allocated.insert partition region')
      (layout.map fun e => if some e.name = some partition then g e else e) := by
  set f : Extent → Extent := fun e => if some e.name = some partition then g e else e with hf
  have hfname : ∀ e, (f e).name = e.name := by
    intro e
    simp only [hf]
    split_ifs
    · exact hname e
    · rfl
  have hfself : ∀ {e : Extent}, e.name ≠ partition → f e = e := fun {e} hne =>
    if_neg fun heq => hne (Option.some.inj heq)
  have hfg : ∀ {e : Extent}, e.name = partition → f e = g e := fun {e} heq =>
    if_pos (congrArg some heq)
  refine ⟨?_, ?_, ?_, ?_, ?_⟩
  · have hnames : Layout.names (layout.map f) = layout.names := by
      simp only [Layout.names, List.map_map]
      exact List.map_congr_left fun e _ => hfname e
    rw [hnames]
    exact h.names_nodup
  · intro e' he'
    obtain ⟨e, he, rfl⟩ := List.mem_map.1 he'
    have hfstart : (f e).start = e.start := by
      simp only [hf]
      split_ifs
      · exact hstart e
      · rfl
    rw [hfstart]
    exact h.start_lt e he
  · intro e' he' hnamed'
    obtain ⟨e, he, rfl⟩ := List.mem_map.1 he'
    rw [hfname]
    by_cases heq : e.name = partition
    · rw [heq]
      exact hdev
    · rw [hfself heq] at hnamed'
      exact h.named_dev e he hnamed'
  · intro e' he' hfile
    obtain ⟨e, he, rfl⟩ := List.mem_map.1 he'
    by_cases heq : e.name = partition
    · have hg : (g e).IsNamed := hnamed e (h.isNamed hdev hregion he heq)
      rw [hfg heq, hg.key_eq, hname, heq]
      exact ⟨region', AList.lookup_insert _,
        hfiled e he heq (h.filedAs hdev hregion he heq)⟩
    · rw [hfself heq] at hfile ⊢
      rw [AList.lookup_insert_ne (key_ne_of_name_ne hdev heq)]
      refine h.filed e he fun index horigin => ?_
      have hfind := hfile index horigin
      -- the changed partition is filed under its name, so it is never the one looked for
      have hcongr : layout.find? ((fun e' : Extent => decide (e'.key = createdKey index)) ∘ f) =
          layout.find? (fun e' => decide (e'.key = createdKey index)) := by
        refine List.find?_congr fun x hx => ?_
        by_cases hxp : x.name = partition
        · have hx' := h.key_ne hdev hregion hx hxp index
          have hgx : (g x).key ≠ createdKey index := by
            rw [(hnamed x (h.isNamed hdev hregion hx hxp)).key_eq, hname, hxp]
            exact (createdKey_ne_of_dev hdev).symm
          simp [hfg hxp, hx', hgx]
        · simp [hfself hxp]
      rw [List.find?_map, hcongr, Option.map_eq_some_iff] at hfind
      obtain ⟨x, hx, hxe⟩ := hfind
      have hxname : x.name = e.name := by rw [← hfname x, hxe]
      rw [hx, h.eq_of_name (List.mem_of_find?_eq_some hx) he hxname]
  · intro partition' region'' hdev' hregion''
    by_cases heq : partition' = partition
    · obtain ⟨e, he, hen, hename⟩ := h.found partition region hdev hregion
      refine ⟨f e, List.mem_map_of_mem he, ?_, ?_⟩
      · rw [hfg hename]
        exact hnamed e hen
      · rw [hfname, hename, heq]
    · rw [AList.lookup_insert_ne heq] at hregion''
      obtain ⟨e, he, hen, hename⟩ := h.found partition' region'' hdev' hregion''
      refine ⟨f e, List.mem_map_of_mem he, ?_, ?_⟩
      · rwa [hfself (hename ▸ heq)]
      · rw [hfname, hename]

/-- Deleting a partition of the snapshot. -/
theorem erase (h : Tracks allocated layout) {region : Region}
    (hdev : startsWith partition "/dev/" = true)
    (hregion : allocated.lookup partition = some region) :
    Tracks (allocated.erase partition)
      (layout.filter fun e => some e.name ≠ some partition) := by
  have hmem : ∀ {e : Extent}, e ∈ layout.filter (fun e => some e.name ≠ some partition) ↔
      e ∈ layout ∧ e.name ≠ partition := by
    simp [List.mem_filter]
  refine ⟨?_, ?_, ?_, ?_, ?_⟩
  · exact h.names_nodup.sublist (List.filter_sublist.map _)
  · exact fun e he => h.start_lt e (hmem.1 he).1
  · exact fun e he hnamed => h.named_dev e (hmem.1 he).1 hnamed
  · intro e he hfile
    obtain ⟨he, hne⟩ := hmem.1 he
    rw [AList.lookup_erase_ne (key_ne_of_name_ne hdev hne)]
    refine h.filed e he fun index horigin => ?_
    have hfind := hfile index horigin
    rw [List.find?_filter] at hfind
    rw [← hfind]
    refine List.find?_congr fun x hx => ?_
    by_cases hxp : x.name = partition
    · simp [h.key_ne hdev hregion hx hxp index]
    · simp [hxp]
  · intro partition' region' hdev' hregion'
    have hne : partition' ≠ partition := by
      rintro rfl
      rw [AList.lookup_erase] at hregion'
      cases hregion'
    rw [AList.lookup_erase_ne hne] at hregion'
    obtain ⟨e, he, hen, hename⟩ := h.found partition' region' hdev' hregion'
    exact ⟨e, hmem.2 ⟨he, hename ▸ hne⟩, hen, hename⟩

/-- Adding a created partition. -/
theorem insert (h : Tracks allocated layout) {e : Extent} {region : Region} {index : ℕ}
    (hname : e.name ∉ layout.names) (hstart : e.start < 2 ^ 64) (horigin : e.origin = .created index)
    (hfiled : FiledAs e region) :
    Tracks (allocated.insert (createdKey index) region) (e :: layout) := by
  have hkey : e.key = createdKey index := by simp [Extent.key, horigin]
  have hunnamed : ¬ e.IsNamed := by rintro (hn | hn) <;> rw [horigin] at hn <;> cases hn
  refine ⟨?_, ?_, ?_, ?_, ?_⟩
  · exact List.nodup_cons.2 ⟨hname, h.names_nodup⟩
  · intro e' he'
    rcases List.mem_cons.1 he' with rfl | he'
    · exact hstart
    · exact h.start_lt e' he'
  · intro e' he' hnamed
    rcases List.mem_cons.1 he' with rfl | he'
    · exact absurd hnamed hunnamed
    · exact h.named_dev e' he' hnamed
  · intro e' he' hfile
    rcases List.mem_cons.1 he' with rfl | he'
    · exact ⟨region, by rw [hkey, AList.lookup_insert], hfiled⟩
    · have hne : e ≠ e' := by
        rintro rfl
        exact hname (List.mem_map_of_mem he')
      -- a partition on file has another key: under the same key the new one is found first
      have hfile' : ∀ index', e'.origin = .created index' →
          e.key ≠ createdKey index' ∧
            layout.find? (fun x => decide (x.key = createdKey index')) = some e' := by
        intro index' horigin'
        have hfind := hfile index' horigin'
        rw [List.find?_cons] at hfind
        split at hfind
        · exact absurd (Option.some.inj hfind) hne
        · rename_i hkey'
          exact ⟨by simpa using hkey', hfind⟩
      have hkeys : e'.key ≠ createdKey index := by
        intro hkey'
        cases horigin' : e'.origin with
        | created index' =>
          have hcreated : e'.key = createdKey index' := by simp [Extent.key, horigin']
          exact (hfile' index' horigin').1 (by rw [hkey, ← hkey', hcreated])
        | listed =>
          have hnamed : e'.IsNamed := .inl horigin'
          rw [hnamed.key_eq] at hkey'
          exact createdKey_ne_of_dev (h.named_dev e' he' hnamed) hkey'.symm
        | resized =>
          have hnamed : e'.IsNamed := .inr horigin'
          rw [hnamed.key_eq] at hkey'
          exact createdKey_ne_of_dev (h.named_dev e' he' hnamed) hkey'.symm
        | biosBoot =>
          have hbios : e'.key = biosBootKey := by simp [Extent.key, horigin']
          have hhead := startsWith_head_eq (startsWith_append "new:" (toString index))
            (show startsWith (createdKey index) "automatic" = true by
              rw [← hkey', hbios]; decide) (by decide) (by decide)
          exact absurd hhead (by decide)
      rw [AList.lookup_insert_ne hkeys]
      exact h.filed e' he' fun index' horigin' => (hfile' index' horigin').2
  · intro partition region' hdev hregion
    rw [AList.lookup_insert_ne (createdKey_ne_of_dev hdev).symm] at hregion
    obtain ⟨e', he', hen, hename⟩ := h.found partition region' hdev hregion
    exact ⟨e', List.mem_cons_of_mem _ he', hen, hename⟩

end Tracks

theorem requestedTable_eq_gpt_iff {params : Value} :
    requestedTable params = "gpt" ↔ asksGpt params = true := by
  have hlower : toAsciiLowercase "gpt" = "gpt" := by decide
  simp only [requestedTable, asksGpt, tableName, eqIgnoreAsciiCase, hlower, Bool.or_eq_true,
    beq_iff_eq]
  split_ifs with hempty hdos
  · simp [hempty]
  · simp [hempty, hdos]
  · simp [hempty]

/-- The picture of a new table. -/
theorem tracks_newTable (name : String) (params : Value) :
    Tracks (newTableState params).allocated
      (if asksGpt params then [biosBootExtent name] else []) := by
  simp only [newTableState, requestedTable_eq_gpt_iff]
  split_ifs with hgpt
  · refine ⟨by simp [Layout.names], ?_, ?_, ?_, ?_⟩
    · intro e he
      rw [List.mem_singleton.1 he]
      norm_num [biosBootExtent]
    · intro e he hnamed
      rw [List.mem_singleton.1 he] at hnamed
      rcases hnamed with hn | hn <;> cases hn
    · intro e he _
      rw [List.mem_singleton.1 he]
      refine ⟨_, AList.lookup_insert ∅, (by decide : (1024 * 1024 : ℤ) = asI64 (1024 * 1024)), ?_⟩
      intro b hstart hstop hshown
      simp only [biosBootExtent, Extent.Shown] at hstart hshown ⊢
      omega
    · intro partition region hdev hregion
      have hne : partition ≠ biosBootKey := (biosBootKey_ne_of_dev hdev).symm
      rw [← AList.insert_empty, AList.lookup_insert_ne hne] at hregion
      cases hregion
  · exact ⟨by simp [Layout.names], by simp, by simp, by simp, fun _ _ _ hregion => by cases hregion⟩

theorem target_dev (htarget : op.target = some partition) : startsWith partition "/dev/" = true :=
  (Plan.normalizeDevicePath_spec htarget).1

/-- What `create` reads from an accepted request. -/
theorem CreateAccepted.span {params : Value} {start size : ℤ}
    (h : CreateAccepted ctx s params start size) :
    ((createSpan params).1 : ℤ) = start ∧ ((createSpan params).2 : ℤ) = start + size := by
  have hstart := valueU64_of_valueI64 (h.start_eq ▸ h.start_pos)
  have hsize := valueU64_of_valueI64 (h.size_eq ▸ h.size_pos)
  rw [h.start_eq] at hstart
  rw [h.size_eq] at hsize
  simp only [createSpan]
  omega

/-- What `resize` reads from an accepted request. -/
theorem ResizeAccepted.span {params : Value} {region : Region} {newSize : ℤ}
    (h : ResizeAccepted ctx s partition region params newSize) (e : Extent) :
    ((e.resizeSpan params).2 : ℤ) = e.start + newSize := by
  have hsize := valueU64_of_valueI64 (h.newSize_eq ▸ h.newSize_pos)
  rw [h.newSize_eq] at hsize
  simp only [Extent.resizeSpan]
  omega

theorem filedAs_created {start size : ℤ} (h : CreateAccepted ctx s op.params start size) :
    FiledAs (createdExtent name op)
      ⟨valueI64 op.params "start_bytes" (-1),
        satAddI64 (valueI64 op.params "start_bytes" (-1)) (valueI64 op.params "size_bytes" (-1)),
        toAsciiLowercase (valueString op.params "fs_type")⟩ := by
  obtain ⟨hstart, hstop⟩ := h.span
  have hpos := h.start_pos
  have hlt := h.start_lt
  rw [h.start_eq, h.size_eq]
  constructor
  · simp only [createdExtent]
    rw [asI64_of_lt (by omega), hstart]
  · intro b hb hb' hshown
    simp only [createdExtent, Extent.Shown] at hb hb' hshown
    simp only [satAddI64]
    omega

theorem filedAs_resized {region : Region} {newSize : ℤ} {e : Extent}
    (h : ResizeAccepted ctx s partition region op.params newSize) (hfiled : FiledAs e region) :
    FiledAs (e.resize op.params) { region with stop := satAddI64 region.start newSize } := by
  have hspan := h.span e
  refine ⟨hfiled.start_eq, fun b hb hb' hshown => ?_⟩
  simp only [Extent.resize, Extent.Shown] at hb hb' hshown
  have hstart := hfiled.start_eq
  rw [asI64_of_lt (by omega)] at hstart
  simp only [satAddI64]
  omega

theorem filedAs_formatted {region : Region} {e : Extent} {fstype : String} (params : Value)
    (hfiled : FiledAs e region) : FiledAs (e.format params) { region with fstype := fstype } := by
  obtain ⟨hstart, hcovers⟩ := hfiled
  constructor
  · simpa only [Extent.format] using hstart
  · simpa only [Extent.format, Extent.Shown] using hcovers

/-- An accepted operation keeps the picture true to the layout. -/
theorem Tracks.step (h : Tracks s.allocated layout) (hname : name ∉ layout.names)
    (hstep : StepAccepted ctx s op allocated') :
    Tracks allocated' (applyOperation name layout op) := by
  cases hstep with
  | newTable hkind =>
    simp only [applyOperation, hkind]
    exact tracks_newTable name op.params
  | create hkind haccepted =>
    simp only [applyOperation, hkind]
    exact h.insert hname (UInt64.toNat_lt _) rfl (filedAs_created haccepted)
  | delete hkind htarget hregion =>
    simp only [applyOperation, hkind, htarget]
    exact h.erase (target_dev htarget) hregion
  | resize hkind htarget hregion haccepted =>
    simp only [applyOperation, hkind, htarget]
    exact h.update (g := fun e => e.resize op.params) (target_dev htarget) hregion
      (fun e => e.resize_name op.params) (fun e => e.resize_start op.params) (fun e _ => .inr (by simp only [Extent.resize]))
      fun _ _ _ hfiled => filedAs_resized haccepted hfiled
  | format hkind htarget hregion =>
    simp only [applyOperation, hkind, htarget]
    exact h.update (g := fun e => e.format op.params) (target_dev htarget) hregion
      (fun e => e.format_name op.params) (fun e => e.format_start op.params)
      (fun _ => Extent.format_isNamed op.params)
      fun _ _ _ hfiled => filedAs_formatted op.params hfiled
  | setMountpoint hkind =>
    simp only [applyOperation, hkind]
    exact h

/-! ### A whole journal -/

/-- The picture stays true to the layout along every accepted prefix of a journal. -/
theorem tracks_of_produces {before after : List PartitionOperation}
    (h : Tracks s.allocated layout) (haccepted : runErrors ctx s (before ++ after) = [])
    (hproduces : Produces layout before layout') :
    Tracks (runState ctx s before).allocated layout' := by
  induction hproduces generalizing after with
  | nil => exact h
  | snoc hprod hname op ih =>
    rw [List.append_assoc] at haccepted
    have htracks := ih haccepted
    have hstep := stepAccepted (stepErrors_eq_nil haccepted rfl)
    rw [runState, List.foldl_append]
    exact htracks.step hname hstep

end Kyth.Journal

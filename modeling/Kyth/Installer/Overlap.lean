import Kyth.Installer.Layout
import Mathlib.Data.Fintype.EquivFin

/-!
# When an accepted journal keeps the partitions apart

`validate` compares every new range with its own picture of the disk. The picture misses some bytes
of the layout (`Layout.Hidden`): the second MiB of the BIOS boot partition that `new_table` makes,
everything that `i64` cannot count, and created partitions whose index a later `create` uses again.
`layout_safe_iff` says that these are the only gaps.
-/

namespace Kyth.Journal

open Str Word Json Storage
open Kyth.Interval

variable {ctx : ValidateContext} {s : ValidateState} {allocated allocated' : StringMap Region}
  {layout layout' : Layout} {op : PartitionOperation} {name : String} {size : ℕ}

/-- The partitions are disjoint and end inside the disk. -/
structure Layout.Safe (layout : Layout) (size : ℕ) : Prop where
  apart : Apart Extent.span layout
  inside : ∀ e ∈ layout, e.stop ≤ size

/-- A byte of a partition that no region of `validate` covers. -/
def Layout.Hidden (layout : Layout) (e : Extent) (b : ℕ) : Prop :=
  (e.start ≤ b ∧ b < e.stop) ∧ ¬ (layout.OnFile e ∧ e.Shown b)

/-- A range without hidden bytes of the partitions of a list. -/
def Layout.Avoids (layout : Layout) (others : List Extent) (span : ℕ × ℕ) : Prop :=
  ∀ e ∈ others, ∀ b, span.1 ≤ b → b < span.2 → ¬ layout.Hidden e b

/-- An end that `i64` cannot count lies inside the disk all the same. -/
def EndsInside (size : ℕ) (span : ℕ × ℕ) : Prop := 2 ^ 63 ≤ span.2 → span.2 ≤ size

instance (size : ℕ) (span : ℕ × ℕ) : Decidable (EndsInside size span) :=
  inferInstanceAs (Decidable (_ → _))

/-- An operation that stays clear of what `validate` does not see. -/
def Clear (size : ℕ) (layout : Layout) (op : PartitionOperation) : Prop :=
  match op.kind with
  | .newTable => asksGpt op.params → 1024 * 1024 + biosBootBytes ≤ size
  | .create => layout.Avoids layout (createSpan op.params) ∧ EndsInside size (createSpan op.params)
  | .resize => ∀ e ∈ layout, some e.name = op.target →
      layout.Avoids (layout.filter fun e' => e'.name ≠ e.name) (e.resizeSpan op.params) ∧
        EndsInside size (e.resizeSpan op.params)
  | _ => True

theorem Extent.Shown.lt {e : Extent} {b : ℕ} (h : e.Shown b) (hb : b < e.stop) :
    b < 2 ^ 63 - 1 := by
  unfold Extent.Shown at h
  split at h <;> omega

/-- A range that avoids the hidden bytes of a partition and passed the overlap check against its
region misses the partition. -/
theorem Tracks.not_meets (h : Tracks allocated layout) {e : Extent} (he : e ∈ layout)
    {span : ℕ × ℕ} {start stop : ℤ}
    (hhidden : ∀ b, span.1 ≤ b → b < span.2 → ¬ layout.Hidden e b)
    (hfree : ∀ region, allocated.lookup e.key = some region →
      ¬ (0 ≤ region.start ∧ region.start < region.stop ∧ start < region.stop ∧
        region.start < stop))
    (hrange : ∀ b : ℕ, span.1 ≤ b → b < span.2 → b < 2 ^ 63 - 1 → start ≤ b ∧ b < stop) :
    ¬ Meets span e.span := by
  rintro ⟨b, ⟨hlo, hhi⟩, helo, hehi⟩
  have hvisible : layout.OnFile e ∧ e.Shown b :=
    by_contra fun hnot => hhidden b hlo hhi ⟨⟨helo, hehi⟩, hnot⟩
  obtain ⟨hfile, hshown⟩ := hvisible
  obtain ⟨region, hregion, hfiled⟩ := h.filed e he hfile
  obtain ⟨hnonneg, hstart, hstop⟩ := hfiled.covers b helo hehi hshown
  obtain ⟨hstart', hstop'⟩ := hrange b hlo hhi (hshown.lt hehi)
  exact hfree region hregion ⟨hnonneg, by omega, by omega, by omega⟩

/-- A new partition that stays clear keeps the layout safe. -/
theorem Layout.Safe.create (h : layout.Safe size) (htracks : Tracks s.allocated layout)
    {start len : ℤ} (haccepted : CreateAccepted ctx s op.params start len)
    (hctx : ctx.diskSizeBytes = size) (hsize : 0 < size)
    (havoids : layout.Avoids layout (createSpan op.params))
    (hends : EndsInside size (createSpan op.params)) :
    Layout.Safe (createdExtent name op :: layout) size := by
  obtain ⟨hstart, hstop⟩ := haccepted.span
  have hpos := haccepted.start_pos
  have hlen := haccepted.size_pos
  constructor
  · rw [apart_cons]
    refine ⟨fun e he => ?_, h.apart⟩
    refine htracks.not_meets he (havoids e he) (haccepted.free e.key) fun b hlo hhi hlt => ?_
    simp only [Extent.span, createdExtent] at hlo hhi
    simp only [satAddI64]
    omega
  · intro e he
    rcases List.mem_cons.1 he with rfl | he
    · simp only [createdExtent]
      by_cases hbig : 2 ^ 63 ≤ (createSpan op.params).2
      · exact hends hbig
      · have hinside := haccepted.inside (hctx ▸ hsize)
        have hcap : satAddI64 start len = (createSpan op.params).2 := by
          simp only [satAddI64]
          omega
        have hcast := asU64_of_nonneg (i := ((createSpan op.params).2 : ℤ)) (by omega) (by omega)
        rw [hcap] at hinside
        omega
    · exact h.inside e he

/-- A resized partition that stays clear keeps the layout safe. -/
theorem Layout.Safe.resize (h : layout.Safe size) (htracks : Tracks s.allocated layout)
    {partition : String} {region : Region} {newSize : ℤ} (htarget : op.target = some partition)
    (hregion : s.allocated.lookup partition = some region)
    (haccepted : ResizeAccepted ctx s partition region op.params newSize)
    (hctx : ctx.diskSizeBytes = size) (hsize : 0 < size)
    (hclear : ∀ e ∈ layout, some e.name = op.target →
      layout.Avoids (layout.filter fun e' => e'.name ≠ e.name) (e.resizeSpan op.params) ∧
        EndsInside size (e.resizeSpan op.params)) :
    Layout.Safe
      (layout.map fun e => if some e.name = some partition then e.resize op.params else e)
      size := by
  have hdev := target_dev htarget
  constructor
  · refine h.apart.map_key (k := partition) htracks.names_nodup ?_ ?_
    · intro e _ hne
      rw [if_neg fun heq => hne (Option.some.inj heq)]
    · intro e he hname e' he' hne
      obtain ⟨havoids, -⟩ := hclear e he (by rw [htarget, hname])
      have hfiled := htracks.filedAs hdev hregion he hname
      have hspan := haccepted.span e
      rw [if_pos (congrArg some hname), Extent.resize_span]
      refine htracks.not_meets he' (havoids e' ?_)
        (haccepted.free e'.key · (Tracks.key_ne_of_name_ne hdev hne)) fun b hlo hhi hlt => ?_
      · simp [he', hname, hne]
      · simp only [Extent.resizeSpan] at hlo hhi hspan
        have hstart := hfiled.start_eq
        rw [asI64_of_lt (by omega)] at hstart
        simp only [satAddI64]
        omega
  · intro e' he'
    obtain ⟨e, he, rfl⟩ := List.mem_map.1 he'
    split_ifs with hname
    · have hname := Option.some.inj hname
      obtain ⟨-, hends⟩ := hclear e he (by rw [htarget, hname])
      have hfiled := htracks.filedAs hdev hregion he hname
      have hspan := haccepted.span e
      have hpos := haccepted.newSize_pos
      simp only [Extent.resize]
      by_cases hbig : 2 ^ 63 ≤ (e.resizeSpan op.params).2
      · exact hends hbig
      · have hinside := haccepted.inside (hctx ▸ hsize)
        have hstart := hfiled.start_eq
        rw [asI64_of_lt (by omega)] at hstart
        have hcap : satAddI64 region.start newSize = (e.resizeSpan op.params).2 := by
          simp only [satAddI64]
          omega
        have hcast := asU64_of_nonneg (i := ((e.resizeSpan op.params).2 : ℤ)) (by omega) (by omega)
        rw [hcap] at hinside
        omega
    · exact h.inside e he

/-- One accepted operation that stays clear keeps the layout safe. -/
theorem Layout.Safe.step (h : layout.Safe size) (htracks : Tracks s.allocated layout)
    (hstep : StepAccepted ctx s op allocated') (hctx : ctx.diskSizeBytes = size) (hsize : 0 < size)
    (hclear : Clear size layout op) : Layout.Safe (applyOperation name layout op) size := by
  cases hstep with
  | newTable hkind =>
    simp only [applyOperation, Clear, hkind] at hclear ⊢
    split_ifs with hgpt
    · refine ⟨by simp, fun e he => ?_⟩
      rw [List.mem_singleton.1 he]
      exact hclear hgpt
    · exact ⟨apart_nil, by simp⟩
  | create hkind haccepted =>
    simp only [applyOperation, Clear, hkind] at hclear ⊢
    exact h.create htracks haccepted hctx hsize hclear.1 hclear.2
  | delete hkind htarget hregion =>
    simp only [applyOperation, hkind]
    exact ⟨h.apart.filter, fun e he => h.inside e (List.mem_of_mem_filter he)⟩
  | resize hkind htarget hregion haccepted =>
    simp only [Clear, hkind] at hclear
    simp only [applyOperation, hkind, htarget]
    exact h.resize htracks htarget hregion haccepted hctx hsize hclear
  | format hkind htarget hregion =>
    simp only [applyOperation, hkind]
    constructor
    · refine h.apart.map_of_span_eq fun e _ => ?_
      split_ifs
      · exact e.format_span op.params
      · rfl
    · intro e' he'
      obtain ⟨e, he, rfl⟩ := List.mem_map.1 he'
      split_ifs
      · simpa only [Extent.format] using h.inside e he
      · exact h.inside e he
  | setMountpoint hkind =>
    simp only [applyOperation, hkind]
    exact h

/-- A safe layout after an operation shows that the operation stayed clear. -/
theorem clear_of_safe (hsafe : Layout.Safe (applyOperation name layout op) size) :
    Clear size layout op := by
  unfold Clear
  cases hkind : op.kind with
  | newTable =>
    intro hgpt
    simp only [applyOperation, hkind, if_pos hgpt] at hsafe
    exact hsafe.inside (biosBootExtent name) List.mem_cons_self
  | create =>
    simp only [applyOperation, hkind] at hsafe
    refine ⟨fun e he b hlo hhi hhidden => ?_, fun _ => hsafe.inside _ List.mem_cons_self⟩
    exact (apart_cons.1 hsafe.apart).1 e he ⟨b, ⟨hlo, hhi⟩, hhidden.1⟩
  | resize =>
    simp only [applyOperation, hkind] at hsafe
    intro e he hname
    have hresized := List.mem_map_of_mem
      (f := fun e => if some e.name = op.target then e.resize op.params else e) he
    rw [if_pos hname] at hresized
    refine ⟨fun e' he' b hlo hhi hhidden => ?_, fun _ => hsafe.inside _ hresized⟩
    obtain ⟨he', hne⟩ := List.mem_filter.1 he'
    have hne : e'.name ≠ e.name := by simpa using hne
    have hkept := List.mem_map_of_mem
      (f := fun e => if some e.name = op.target then e.resize op.params else e) he'
    rw [if_neg (by rw [← hname]; simpa using hne)] at hkept
    have hdiff : e.resize op.params ≠ e' := fun heq => hne (by rw [← heq, Extent.resize_name])
    refine hsafe.apart.not_meets hresized hkept hdiff ⟨b, ?_, hhidden.1⟩
    rw [Extent.resize_span]
    exact ⟨hlo, hhi⟩
  | _ => trivial

theorem safe_initial {parts : List PartitionRecord} (h : IsSnapshot parts size) :
    (initialLayout parts).Safe size :=
  ⟨h.apart, fun e he => by
    obtain ⟨part, hpart, rfl⟩ := List.mem_map.1 he
    exact h.inside part hpart⟩

/-- The layout stays safe along every accepted prefix whose operations all stay clear. -/
theorem safe_of_clear {before after : List PartitionOperation} (hsafe : layout.Safe size)
    (htracks : Tracks s.allocated layout) (haccepted : runErrors ctx s (before ++ after) = [])
    (hctx : ctx.diskSizeBytes = size) (hsize : 0 < size)
    (hclear : ∀ before' op after' layout', before ++ after = before' ++ op :: after' →
      Produces layout before' layout' → Clear size layout' op)
    (hproduces : Produces layout before layout') : layout'.Safe size := by
  induction hproduces generalizing after with
  | nil => exact hsafe
  | snoc hprod hname op ih =>
    rw [List.append_assoc] at haccepted hclear
    have htracks' := tracks_of_produces htracks haccepted hprod
    have hstep := stepAccepted (stepErrors_eq_nil haccepted rfl)
    exact (ih haccepted hclear).step htracks' hstep hctx hsize (hclear _ op after _ rfl hprod)

variable {journal : PartitionJournal} {parts : List PartitionRecord} {tableType : String}
  {diskSizeBytes : UInt64}

/-- The partitions that an accepted journal leaves behind are disjoint and end inside the disk
after every operation, exactly when every operation stays clear of the bytes `validate` does not
see. -/
theorem layout_safe_iff (hsnapshot : IsSnapshot parts diskSizeBytes.toNat)
    (hsize : diskSizeBytes ≠ 0) (haccepted : validate journal parts tableType diskSizeBytes = []) :
    (∀ before after layout, journal.ops = before ++ after →
        Produces (initialLayout parts) before layout → layout.Safe diskSizeBytes.toNat) ↔
      ∀ before op after layout, journal.ops = before ++ op :: after →
        Produces (initialLayout parts) before layout → Clear diskSizeBytes.toNat layout op := by
  obtain ⟨-, hrun, -, -⟩ := validate_eq_nil haccepted
  have hpos : 0 < diskSizeBytes.toNat := by
    rcases Nat.eq_zero_or_pos diskSizeBytes.toNat with hzero | hpos
    · exact absurd (UInt64.toNat_inj.1 hzero) hsize
    · exact hpos
  constructor
  · intro hsafe before op after layout hops hproduces
    obtain ⟨name, hname⟩ := Infinite.exists_notMem_finset layout.names.toFinset
    have hname : name ∉ layout.names := by simpa using hname
    have hops' : journal.ops = (before ++ [op]) ++ after := by simp [hops]
    exact clear_of_safe (hsafe _ after _ hops' (hproduces.snoc hname op))
  · intro hclear before after layout hops hproduces
    rw [hops] at hrun hclear
    exact safe_of_clear (safe_initial hsnapshot) (tracks_initial hsnapshot.toIsListing) hrun rfl hpos hclear
      hproduces

theorem Produces.eq_of_nil (h : Produces layout [] layout') : layout' = layout := by
  generalize hops : ([] : List PartitionOperation) = ops at h
  cases h with
  | nil => rfl
  | snoc h hname op => exact absurd hops (by simp)

theorem create_on_empty_disk_safe :
    validate { disk := "/dev/sda", ops := [createRoot 0] } [] "gpt" 0x100000000 = [] ∧
      ∀ before after layout, [createRoot 0] = before ++ after →
        Produces (initialLayout []) before layout → layout.Safe 0x100000000 := by
  have haccepted : validate { disk := "/dev/sda", ops := [createRoot 0] } [] "gpt" 0x100000000 =
      [] := by decide
  refine ⟨haccepted, ?_⟩
  refine (layout_safe_iff ⟨⟨by simp, by simp⟩, apart_nil, by simp⟩ (by decide) haccepted).mpr ?_
  intro before op after layout hops hproduces
  have hbefore : before = [] := by
    cases before with
    | nil => rfl
    | cons op' before => simp at hops
  subst hbefore
  obtain ⟨rfl, -⟩ : createRoot 0 = op ∧ [] = after := by simpa using hops
  rw [hproduces.eq_of_nil]
  refine ⟨fun e he => (by cases he), ?_⟩
  decide

/-- A Btrfs root partition of 64 MiB at 2 MiB. -/
def createRootAt2MiB (index : ℕ) : PartitionOperation where
  kind := .create
  params := .object [("start_bytes", .nat 0x200000), ("size_bytes", .nat 0x4000000),
    ("fs_type", .string "btrfs"), ("mountpoint", .string "/")]
  index := index

/-- `validate` accepts a root partition at 2 MiB of a new GPT table, where the BIOS boot partition
of `new_table` still occupies a MiB. -/
theorem bios_boot_overlap_accepted :
    IsSnapshot [] 0x100000000 ∧
      validate { disk := "/dev/sda", ops := [newGptTable 0, createRootAt2MiB 1] } [] "gpt"
        0x100000000 = [] ∧
      ∃ layout, Produces (initialLayout []) [newGptTable 0, createRootAt2MiB 1] layout ∧
        ¬ layout.Safe 0x100000000 := by
  refine ⟨⟨⟨by simp, by simp⟩, apart_nil, by simp⟩, by decide, ?_⟩
  have hbios : "/dev/sda1" ∉ (initialLayout []).names := by decide
  have hroot : "/dev/sda2" ∉
      (applyOperation "/dev/sda1" (initialLayout []) (newGptTable 0)).names := by decide
  refine ⟨_, ((Produces.nil _).snoc hbios (newGptTable 0)).snoc hroot (createRootAt2MiB 1),
    fun hsafe => ?_⟩
  exact absurd hsafe.apart (by decide)

end Kyth.Journal

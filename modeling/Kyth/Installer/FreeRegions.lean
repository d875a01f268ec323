import Kyth.Installer.Partitions
import Kyth.Lib.Check
import Kyth.Lib.Gaps
import Mathlib.Tactic

/-!
# The free regions of a disk

`freeRegions` sweeps the partitions of a disk and offers the 1 MiB-aligned interior of every gap
that is large enough. What it offers is sound on every disk (`RegionsSound`), and no gap is missed
(`RegionsComplete`) when the partitions have a positive size and fit on the disk: the code gives up
on a disk where one does not.

* `freeRegions_eq`: the regions are those of `regionsFor`;
* `sweepSpans_eq`: the sweep is `Interval.gapsFrom` with an alignment of each gap;
* `freeRegions_sound_and_complete`.
-/

namespace Kyth.Storage

open Str Word Check Kyth.Interval

/-- The extent of a partition in bytes. -/
def PartitionRecord.extent (part : PartitionRecord) : ℕ × ℕ :=
  (part.startBytes.toNat, part.startBytes.toNat + part.sizeBytes.toNat)

/-- The partitions that `free_regions` sweeps for a normalized disk. -/
def partitionsOn (snapshot : LsblkSnapshot) (disk : String) : List PartitionRecord :=
  ((flattenAll snapshot.blockdevices).filterMap partitionRecord).filter fun partition =>
    onSelectedDisk partition.name disk

/-- The size a region needs: the system, and a BIOS boot partition on a GPT disk without one. -/
def requiredBytes (snapshot : LsblkSnapshot) (isGpt : Bool) : ℕ :=
  minKythosBytes + if isGpt && !((flattenAll snapshot.blockdevices).filterMap partitionRecord).any
    fun part => eqIgnoreAsciiCase part.parttype biosBootGuid then gptReserveBytes else 0

/-- The part of `free_regions` behind the queries, for every required size. -/
def regionsFor (diskSize sectorSize required : ℕ) (partitions : List PartitionRecord) :
    List FreeRegionRecord :=
  if diskSize ≤ satMulU64 gptReserveBytes 2 then []
  else
    match partitions.mapM (partitionSpan diskSize sectorSize) with
    | none => []
    | some spans => sweepSpans diskSize sectorSize required spans

/-- `1 MiB`-aligned regions that are large enough, in order, apart from each other and from every
partition. -/
structure RegionsSound (required : ℕ) (partitions : List PartitionRecord)
    (regions : List FreeRegionRecord) : Prop where
  ordered : regions.Pairwise fun a b => a.endBytes ≤ b.startBytes
  size : ∀ region ∈ regions, region.startBytes < region.endBytes ∧
    region.sizeBytes = region.endBytes - region.startBytes ∧ required ≤ region.sizeBytes
  aligned : ∀ region ∈ regions,
    regionAlignBytes ∣ region.startBytes ∧ regionAlignBytes ∣ region.endBytes
  free : ∀ region ∈ regions, ∀ part ∈ partitions,
    ¬ Meets (region.startBytes, region.endBytes) part.extent

/-- The first boundary at or after `n`. -/
def alignUp (n : ℕ) : ℕ := (n + regionAlignBytes - 1) / regionAlignBytes * regionAlignBytes

/-- The last boundary at or before `n`. -/
def alignDown (n : ℕ) : ℕ := n / regionAlignBytes * regionAlignBytes

/-- Every maximal gap between the reserved ends of the disk whose aligned interior is large enough
is offered. A region reaches beyond the interior only into the reserved end, when a partition
begins in there. -/
def RegionsComplete (diskSize required : ℕ) (partitions : List PartitionRecord)
    (regions : List FreeRegionRecord) : Prop :=
  ∀ gap, IsGap PartitionRecord.extent partitions gptReserveBytes (diskSize - gptReserveBytes) gap →
    alignUp gap.1 < alignDown gap.2 → required ≤ alignDown gap.2 - alignUp gap.1 →
    ∃ region ∈ regions, region.startBytes = alignUp gap.1 ∧ alignDown gap.2 ≤ region.endBytes ∧
      ((∀ part ∈ partitions, part.extent.1 ≤ diskSize - gptReserveBytes) →
        region.endBytes = alignDown gap.2)

/-! ### The sweep -/

/-- What `append_region` adds for a gap. -/
def alignedRegion (sectorSize required : ℕ) (gap : ℕ × ℕ) : Option FreeRegionRecord :=
  match appendRegion [] gap.1 gap.2 sectorSize required with
  | [] => none
  | region :: _ => some region

theorem appendRegion_eq (regions : List FreeRegionRecord) (start stop sectorSize required : ℕ) :
    appendRegion regions start stop sectorSize required =
      regions ++ (alignedRegion sectorSize required (start, stop)).toList := by
  unfold alignedRegion appendRegion
  dsimp only
  split_ifs <;> simp

/-- What `append_region` adds for a gap that may be empty. -/
theorem filterMap_alignedRegion_ite (sectorSize required start stop : ℕ)
    (regions : List FreeRegionRecord) :
    (if start < stop then appendRegion regions start stop sectorSize required else regions) =
      regions ++ (if start < stop then [(start, stop)] else []).filterMap
        (alignedRegion sectorSize required) := by
  split_ifs
  · rw [appendRegion_eq, List.filterMap_cons, List.filterMap_nil]
    cases alignedRegion sectorSize required (start, stop) <;> rfl
  · rw [List.filterMap_nil, List.append_nil]

/-- The loop over the spans collects the aligned gaps behind those it already has. -/
theorem sweep_foldl_eq (sectorSize required usableEnd : ℕ) (spans : List (ℕ × ℕ))
    (acc acc' : List FreeRegionRecord × ℕ)
    (h : spans.foldl (sweepSpan sectorSize required) acc = acc') :
    (if acc'.2 < usableEnd then appendRegion acc'.1 acc'.2 usableEnd sectorSize required
      else acc'.1) =
      acc.1 ++ (gapsFrom usableEnd acc.2 spans).filterMap (alignedRegion sectorSize required) := by
  induction spans generalizing acc with
  | nil =>
    cases h
    exact filterMap_alignedRegion_ite sectorSize required acc.2 usableEnd acc.1
  | cons span spans ih =>
    rw [ih (sweepSpan sectorSize required acc span) h, sweepSpan, gapsFrom, List.filterMap_append,
      ← List.append_assoc, filterMap_alignedRegion_ite]

/-- The sweep aligns the gaps between the sorted spans. -/
theorem sweepSpans_eq (diskSize sectorSize required : ℕ) (spans : List (ℕ × ℕ)) :
    sweepSpans diskSize sectorSize required spans =
      (gapsFrom (diskSize - gptReserveBytes) gptReserveBytes (spans.insertionSort spanLe)).filterMap
        (alignedRegion sectorSize required) := by
  have h := sweep_foldl_eq sectorSize required (diskSize - gptReserveBytes)
    (spans.insertionSort spanLe) ([], gptReserveBytes) _ rfl
  rw [List.nil_append] at h
  unfold sweepSpans
  dsimp only
  exact h

instance : Std.Total spanLe :=
  ⟨fun a b => by unfold spanLe; omega⟩

instance : IsTrans (ℕ × ℕ) spanLe :=
  ⟨fun a b c => by unfold spanLe; omega⟩

/-- The spans are swept in the order of their starts. -/
theorem insertionSort_spanLe_pairwise (spans : List (ℕ × ℕ)) :
    (spans.insertionSort spanLe).Pairwise fun a b => a.1 ≤ b.1 := by
  refine (List.pairwise_insertionSort spanLe spans).imp ?_
  intro a b hab
  unfold spanLe at hab
  omega

/-! ### Alignment -/

theorem alignDown_le (n : ℕ) : alignDown n ≤ n := by
  unfold alignDown
  exact Nat.div_mul_le_self n _

theorem le_alignUp (n : ℕ) : n ≤ alignUp n := by
  unfold alignUp regionAlignBytes
  omega

/-- A boundary at or after `n` is at or after the rounded `n`. -/
theorem alignUp_le {n m : ℕ} (hm : regionAlignBytes ∣ m) (h : n ≤ m) : alignUp n ≤ m := by
  obtain ⟨k, rfl⟩ := hm
  unfold alignUp regionAlignBytes at *
  omega

theorem dvd_alignUp (n : ℕ) : regionAlignBytes ∣ alignUp n := by
  unfold alignUp
  exact Nat.dvd_mul_left _ _

theorem dvd_alignDown (n : ℕ) : regionAlignBytes ∣ alignDown n := by
  unfold alignDown
  exact Nat.dvd_mul_left _ _

theorem alignDown_mono {n m : ℕ} (h : n ≤ m) : alignDown n ≤ alignDown m := by
  unfold alignDown
  exact Nat.mul_le_mul_right _ (Nat.div_le_div_right h)

/-- On a supported sector size the boundaries are those of 1 MiB. -/
theorem max_sectorSize {sectorSize : ℕ} (h : supportedSectorSize sectorSize = true) :
    max sectorSize regionAlignBytes = regionAlignBytes := by
  simp only [supportedSectorSize, Bool.or_eq_true, beq_iff_eq] at h
  apply max_eq_right
  unfold regionAlignBytes
  omega

theorem appendRegion_nil {sectorSize : ℕ} (start stop required : ℕ)
    (hsector : supportedSectorSize sectorSize = true) :
    appendRegion [] start stop sectorSize required =
      if alignUp start % 2 ^ 64 < alignDown stop ∧
          required ≤ alignDown stop - alignUp start % 2 ^ 64 then
        [{ startBytes := alignUp start % 2 ^ 64, endBytes := alignDown stop
           sizeBytes := alignDown stop - alignUp start % 2 ^ 64 }]
      else [] := by
  unfold appendRegion alignUp alignDown
  simp only [max_sectorSize hsector, List.nil_append]

/-- What a gap contributes. -/
theorem alignedRegion_eq_some_iff {sectorSize required : ℕ} {gap : ℕ × ℕ}
    {region : FreeRegionRecord} (hsector : supportedSectorSize sectorSize = true) :
    alignedRegion sectorSize required gap = some region ↔
      (alignUp gap.1 % 2 ^ 64 < alignDown gap.2 ∧
        required ≤ alignDown gap.2 - alignUp gap.1 % 2 ^ 64) ∧
        region = { startBytes := alignUp gap.1 % 2 ^ 64, endBytes := alignDown gap.2
                   sizeBytes := alignDown gap.2 - alignUp gap.1 % 2 ^ 64 } := by
  unfold alignedRegion
  rw [appendRegion_nil _ _ _ hsector]
  by_cases hfits : alignUp gap.1 % 2 ^ 64 < alignDown gap.2 ∧
      required ≤ alignDown gap.2 - alignUp gap.1 % 2 ^ 64
  · rw [if_pos hfits, iff_true_intro hfits, true_and, Option.some.injEq, eq_comm]
  · rw [if_neg hfits, iff_false_intro hfits, false_and]
    exact iff_of_false (by simp) id

/-- What a gap contributes, when rounding its start up does not wrap. -/
theorem alignedRegion_eq_some {sectorSize required : ℕ} {gap : ℕ × ℕ} {region : FreeRegionRecord}
    (hsector : supportedSectorSize sectorSize = true) (hgap : gap.1 ≤ 2 ^ 64 - 2 ^ 20) :
    alignedRegion sectorSize required gap = some region ↔
      (alignUp gap.1 < alignDown gap.2 ∧ required ≤ alignDown gap.2 - alignUp gap.1) ∧
        region = { startBytes := alignUp gap.1, endBytes := alignDown gap.2
                   sizeBytes := alignDown gap.2 - alignUp gap.1 } := by
  have hwrap : alignUp gap.1 % 2 ^ 64 = alignUp gap.1 := by
    apply Nat.mod_eq_of_lt
    unfold alignUp regionAlignBytes
    omega
  rw [alignedRegion_eq_some_iff hsector, hwrap]

/-! ### Soundness and completeness -/

/-- Start and size of a partition are whole sectors. -/
def WholeSectors (sectorSize : ℕ) (part : PartitionRecord) : Prop :=
  sectorSize ∣ part.startBytes.toNat ∧ sectorSize ∣ part.sizeBytes.toNat

instance (sectorSize : ℕ) (part : PartitionRecord) : Decidable (WholeSectors sectorSize part) :=
  inferInstanceAs (Decidable (_ ∧ _))

/-- A partition of positive size that lies on the disk. -/
def Fits (diskSize : ℕ) (part : PartitionRecord) : Prop :=
  0 < part.sizeBytes.toNat ∧ part.extent.2 ≤ diskSize

/-- The span of a partition in whole sectors is its extent; there is none if it does not fit. -/
theorem partitionSpan_eq_some {diskSize sectorSize : ℕ} {part : PartitionRecord} {span : ℕ × ℕ}
    (hwhole : WholeSectors sectorSize part) :
    partitionSpan diskSize sectorSize part = some span ↔
      Fits diskSize part ∧ span = part.extent := by
  have hstart : part.startBytes.toNat / sectorSize * sectorSize = part.startBytes.toNat :=
    Nat.div_mul_cancel hwhole.1
  have hsize : part.sizeBytes.toNat / sectorSize * sectorSize = part.sizeBytes.toNat :=
    Nat.div_mul_cancel hwhole.2
  unfold partitionSpan Fits PartitionRecord.extent
  simp only [hstart, hsize]
  split_ifs with hout hout'
  · simp only [false_iff, not_and]
    omega
  · simp only [false_iff, not_and]
    omega
  · rw [Option.some.injEq, eq_comm (a := span), iff_and_self]
    omega

theorem mapM_partitionSpan {diskSize sectorSize : ℕ} {partitions : List PartitionRecord}
    {spans : List (ℕ × ℕ)} (hwhole : ∀ part ∈ partitions, WholeSectors sectorSize part) :
    partitions.mapM (partitionSpan diskSize sectorSize) = some spans ↔
      (∀ part ∈ partitions, Fits diskSize part) ∧ spans = partitions.map PartitionRecord.extent := by
  induction partitions generalizing spans with
  | nil => simp [eq_comm]
  | cons part partitions ih =>
    rw [List.mapM_cons]
    simp only [Option.bind_eq_bind, Option.bind_eq_some_iff, Option.pure_def, Option.some.injEq,
      partitionSpan_eq_some (hwhole part List.mem_cons_self),
      ih fun part hpart => hwhole part (List.mem_cons_of_mem _ hpart), List.forall_mem_cons,
      List.map_cons]
    constructor
    · rintro ⟨span, ⟨hfits, rfl⟩, rest, ⟨hrest, rfl⟩, rfl⟩
      exact ⟨⟨hfits, hrest⟩, rfl⟩
    · rintro ⟨⟨hfits, hrest⟩, rfl⟩
      exact ⟨_, ⟨hfits, rfl⟩, _, ⟨hrest, rfl⟩, rfl⟩

section Sweep

variable {diskSize sectorSize required : ℕ} {partitions : List PartitionRecord}

/-- The gaps that the sweep over the partitions of a disk meets. -/
def sweptGaps (diskSize : ℕ) (partitions : List PartitionRecord) : List (ℕ × ℕ) :=
  gapsFrom (diskSize - gptReserveBytes) gptReserveBytes
    ((partitions.map PartitionRecord.extent).insertionSort spanLe)

/-- On a disk whose partitions all fit, the regions are the aligned gaps. -/
theorem regionsFor_of_fits (hwhole : ∀ part ∈ partitions, WholeSectors sectorSize part)
    (hfits : ∀ part ∈ partitions, Fits diskSize part) (hdisk : ¬ diskSize ≤ satMulU64 gptReserveBytes 2) :
    regionsFor diskSize sectorSize required partitions =
      (sweptGaps diskSize partitions).filterMap (alignedRegion sectorSize required) := by
  unfold regionsFor
  rw [if_neg hdisk, (mapM_partitionSpan hwhole).2 ⟨hfits, rfl⟩]
  exact sweepSpans_eq diskSize sectorSize required _

/-- Otherwise there are none. -/
theorem regionsFor_of_not_fits (hwhole : ∀ part ∈ partitions, WholeSectors sectorSize part)
    (h : ¬ ∀ part ∈ partitions, Fits diskSize part) :
    regionsFor diskSize sectorSize required partitions = [] := by
  unfold regionsFor
  split_ifs
  · rfl
  · cases hspans : partitions.mapM (partitionSpan diskSize sectorSize) with
    | none => rfl
    | some spans => exact absurd ((mapM_partitionSpan hwhole).1 hspans).1 h

/-- No gap begins where rounding up would wrap. -/
theorem sweptGaps_start_le (hrange : ∀ part ∈ partitions, part.extent.2 ≤ 2 ^ 64 - 2 ^ 20)
    {gap : ℕ × ℕ} (h : gap ∈ sweptGaps diskSize partitions) : gap.1 ≤ 2 ^ 64 - 2 ^ 20 := by
  rcases gapsFrom_start h with hstart | ⟨span, hspan, hstart⟩
  · rw [hstart]
    unfold gptReserveBytes
    omega
  · rw [List.mem_insertionSort, List.mem_map] at hspan
    obtain ⟨part, hpart, rfl⟩ := hspan
    rw [hstart]
    exact hrange part hpart

theorem sweptGaps_not_meets {gap : ℕ × ℕ} (h : gap ∈ sweptGaps diskSize partitions) :
    ∀ part ∈ partitions, ¬ Meets gap part.extent := by
  intro part hpart
  apply gapsFrom_not_meets (insertionSort_spanLe_pairwise _) h
  rw [List.mem_insertionSort]
  exact List.mem_map_of_mem hpart

theorem sweptGaps_pairwise : (sweptGaps diskSize partitions).Pairwise fun a b => a.2 ≤ b.1 := by
  apply gapsFrom_pairwise (insertionSort_spanLe_pairwise _)
  intro span hspan
  rw [List.mem_insertionSort, List.mem_map] at hspan
  obtain ⟨part, -, rfl⟩ := hspan
  exact Nat.le_add_right _ _

/-- A gap between the partitions is a gap between the sorted spans. -/
theorem isGap_sorted {gap : ℕ × ℕ} {first last : ℕ}
    (h : IsGap PartitionRecord.extent partitions first last gap) :
    IsGap id ((partitions.map PartitionRecord.extent).insertionSort spanLe) first last gap := by
  have hall : ∀ {p : ℕ × ℕ → Prop},
      (∀ span ∈ (partitions.map PartitionRecord.extent).insertionSort spanLe, p span) ↔
        ∀ part ∈ partitions, p part.extent := by
    intro p
    simp only [List.mem_insertionSort, List.forall_mem_map]
  refine ⟨h.lower, h.nonempty, h.upper, hall.2 h.free, ?_⟩
  intro wider hlo hwlo hwhi hhi hfree
  exact h.maximal wider hlo hwlo hwhi hhi (hall.1 hfree)

/-- What is offered is aligned, large enough, in order and free. -/
theorem regionsFor_sound (hsector : supportedSectorSize sectorSize = true)
    (hwhole : ∀ part ∈ partitions, WholeSectors sectorSize part)
    (hrange : ∀ part ∈ partitions, part.extent.2 ≤ 2 ^ 64 - 2 ^ 20) :
    RegionsSound required partitions (regionsFor diskSize sectorSize required partitions) := by
  by_cases hdisk : diskSize ≤ satMulU64 gptReserveBytes 2
  · have hnone : regionsFor diskSize sectorSize required partitions = [] := by
      rw [regionsFor, if_pos hdisk]
    rw [hnone]
    constructor <;> simp
  by_cases hfits : ∀ part ∈ partitions, Fits diskSize part
  · rw [regionsFor_of_fits hwhole hfits hdisk]
    have hregion : ∀ region ∈ (sweptGaps diskSize partitions).filterMap
        (alignedRegion sectorSize required), ∃ gap ∈ sweptGaps diskSize partitions,
        (alignUp gap.1 < alignDown gap.2 ∧ required ≤ alignDown gap.2 - alignUp gap.1) ∧
        region = { startBytes := alignUp gap.1, endBytes := alignDown gap.2
                   sizeBytes := alignDown gap.2 - alignUp gap.1 } := by
      intro region hmem
      obtain ⟨gap, hgap, hsome⟩ := List.mem_filterMap.1 hmem
      exact ⟨gap, hgap, (alignedRegion_eq_some hsector (sweptGaps_start_le hrange hgap)).1 hsome⟩
    constructor
    · rw [List.pairwise_filterMap]
      refine List.Pairwise.imp_of_mem ?_ sweptGaps_pairwise
      intro a b ha hb hab region hra region' hrb
      obtain ⟨-, rfl⟩ := (alignedRegion_eq_some hsector (sweptGaps_start_le hrange ha)).1 hra
      obtain ⟨-, rfl⟩ := (alignedRegion_eq_some hsector (sweptGaps_start_le hrange hb)).1 hrb
      exact (alignDown_le _).trans (hab.trans (le_alignUp _))
    · intro region hmem
      obtain ⟨gap, -, hsize, rfl⟩ := hregion region hmem
      exact ⟨hsize.1, rfl, hsize.2⟩
    · intro region hmem
      obtain ⟨gap, -, -, rfl⟩ := hregion region hmem
      exact ⟨dvd_alignUp _, dvd_alignDown _⟩
    · intro region hmem part hpart hmeets
      obtain ⟨gap, hgap, -, rfl⟩ := hregion region hmem
      exact sweptGaps_not_meets hgap part hpart (hmeets.mono_left (le_alignUp _) (alignDown_le _))
  · rw [regionsFor_of_not_fits hwhole hfits]
    constructor <;> simp

/-- Nothing large enough is missed on a disk whose partitions all fit. -/
theorem regionsFor_complete (hsector : supportedSectorSize sectorSize = true)
    (hwhole : ∀ part ∈ partitions, WholeSectors sectorSize part)
    (hrange : ∀ part ∈ partitions, part.extent.2 ≤ 2 ^ 64 - 2 ^ 20)
    (hfits : ∀ part ∈ partitions, Fits diskSize part) :
    RegionsComplete diskSize required partitions
      (regionsFor diskSize sectorSize required partitions) := by
  intro gap hgap hinterior hsize
  have hdisk : ¬ diskSize ≤ satMulU64 gptReserveBytes 2 := by
    have hlower := hgap.lower
    have hupper := hgap.upper
    have hne := hgap.nonempty
    unfold satMulU64
    unfold gptReserveBytes at *
    omega
  have hsorted : ∀ span ∈ (partitions.map PartitionRecord.extent).insertionSort spanLe,
      ∃ part ∈ partitions, part.extent = span := by
    intro span hspan
    rwa [List.mem_insertionSort, List.mem_map] at hspan
  obtain ⟨found, hfound, hlo, hhi, hexact⟩ := gapsFrom_complete (insertionSort_spanLe_pairwise _)
    (by
      intro span hspan
      obtain ⟨part, hpart, rfl⟩ := hsorted span hspan
      exact Nat.lt_add_of_pos_right (hfits part hpart).1)
    (isGap_sorted hgap)
  have hreach : alignDown gap.2 ≤ alignDown found.2 := alignDown_mono hhi
  rw [regionsFor_of_fits hwhole hfits hdisk]
  refine ⟨_, List.mem_filterMap.2 ⟨found, hfound, (alignedRegion_eq_some hsector
    (sweptGaps_start_le hrange hfound)).2 ⟨⟨?_, ?_⟩, rfl⟩⟩, ?_, hreach, ?_⟩
  · rw [hlo]
    omega
  · rw [hlo]
    omega
  · rw [hlo]
  · intro hinside
    have hend : found.2 = gap.2 := by
      apply hexact
      intro span hspan
      obtain ⟨part, hpart, rfl⟩ := hsorted span hspan
      exact hinside part hpart
    exact congrArg alignDown hend

end Sweep

theorem devicePath_eq_of_normalize {raw path : String} (h : normalizeDevicePath raw = some path) :
    devicePath raw = path := by
  unfold normalizeDevicePath at h
  dsimp only at h
  split_ifs at h
  exact Option.some.inj h

/-- A disk with metadata has a usable path. -/
theorem normalizeDevicePath_of_diskMetadata {snapshot : LsblkSnapshot} {disk : String}
    {found : ℕ × Bool} (h : diskMetadata snapshot disk = .ok found) :
    ∃ path, normalizeDevicePath disk = some path := by
  unfold diskMetadata at h
  cases hpath : normalizeDevicePath disk with
  | none => simp [hpath] at h
  | some path => exact ⟨path, rfl⟩

/-- `free_regions` is `regionsFor` at the size it asks for. -/
theorem freeRegions_eq {snapshot : LsblkSnapshot} {disk path : String} {sectorSize diskSize : ℕ}
    {isGpt : Bool} (hsector : supportedSectorSize sectorSize = true)
    (hpath : normalizeDevicePath disk = some path)
    (hdisk : diskMetadata snapshot disk = .ok (diskSize, isGpt)) :
    freeRegions snapshot disk sectorSize = .ok (regionsFor diskSize sectorSize
      (requiredBytes snapshot isGpt) (partitionsOn snapshot path)) := by
  have hvalid : validSectorSize sectorSize = .ok () := by rw [validSectorSize, if_pos hsector]
  have hparts : parsePartitions snapshot sectorSize =
      .ok ((flattenAll snapshot.blockdevices).filterMap partitionRecord) := by
    rw [parsePartitions, hvalid]
    rfl
  unfold freeRegions regionsFor
  rw [hvalid, hdisk]
  change (if diskSize ≤ satMulU64 gptReserveBytes 2 then _ else _) = _
  split_ifs
  · rfl
  · rw [hparts, hpath]
    change (match (partitionsOn snapshot path).mapM (partitionSpan diskSize sectorSize) with
      | none => _ | some spans => _) = _
    cases (partitionsOn snapshot path).mapM (partitionSpan diskSize sectorSize) with
    | none => rfl
    | some spans => rfl

theorem supportedSectorSize_of_freeRegions {snapshot : LsblkSnapshot} {disk : String}
    {sectorSize : ℕ} {regions : List FreeRegionRecord}
    (h : freeRegions snapshot disk sectorSize = .ok regions) :
    supportedSectorSize sectorSize = true ∧ ∃ found, diskMetadata snapshot disk = .ok found := by
  unfold freeRegions at h
  obtain ⟨⟨⟩, hvalid, h⟩ := bind_eq_ok.1 h
  obtain ⟨found, hfound, -⟩ := bind_eq_ok.1 h
  refine ⟨?_, found, hfound⟩
  unfold validSectorSize at hvalid
  split_ifs at hvalid with hsector
  exact hsector

/-- On a disk whose partitions are whole sectors and end below the last MiB of the 64-bit range, the
free regions are those of `regionsFor` at the size the installer asks for. For every required
size these are sound, and complete when the partitions have a positive size and lie on the disk. -/
theorem freeRegions_sound_and_complete (snapshot : LsblkSnapshot) (disk : String) (sectorSize : ℕ)
    (regions : List FreeRegionRecord)
    (h : freeRegions snapshot disk sectorSize = .ok regions)
    (hwhole : ∀ part ∈ partitionsOn snapshot (devicePath disk), WholeSectors sectorSize part)
    (hrange : ∀ part ∈ partitionsOn snapshot (devicePath disk),
      part.extent.2 ≤ 2 ^ 64 - 2 ^ 20) :
    ∃ diskSize isGpt, diskMetadata snapshot disk = .ok (diskSize, isGpt) ∧
      regions = regionsFor diskSize sectorSize (requiredBytes snapshot isGpt)
        (partitionsOn snapshot (devicePath disk)) ∧
      ∀ required,
        RegionsSound required (partitionsOn snapshot (devicePath disk))
          (regionsFor diskSize sectorSize required (partitionsOn snapshot (devicePath disk))) ∧
        ((∀ part ∈ partitionsOn snapshot (devicePath disk), Fits diskSize part) →
          RegionsComplete diskSize required (partitionsOn snapshot (devicePath disk))
            (regionsFor diskSize sectorSize required
              (partitionsOn snapshot (devicePath disk)))) := by
  obtain ⟨hsector, ⟨diskSize, isGpt⟩, hdisk⟩ := supportedSectorSize_of_freeRegions h
  obtain ⟨path, hpath⟩ := normalizeDevicePath_of_diskMetadata hdisk
  have hdevice : devicePath disk = path := devicePath_eq_of_normalize hpath
  rw [freeRegions_eq hsector (hpath.trans (congrArg some hdevice.symm)) hdisk] at h
  cases h
  refine ⟨diskSize, isGpt, hdisk, rfl, fun required => ⟨?_, fun hfits => ?_⟩⟩
  · exact regionsFor_sound hsector hwhole hrange
  · exact regionsFor_complete hsector hwhole hrange hfits

/-- A disk with partitions, each given by its name, its first sector and its size. -/
def partitionedDisk (diskSize : UInt64) (partitions : List (String × UInt64 × UInt64)) :
    LsblkSnapshot where
  blockdevices := [{ name := some "/dev/sda", deviceType := some "disk", size := some diskSize
                     children := partitions.map fun part =>
                       { name := some part.1, deviceType := some "part", partn := some 1
                         start := some part.2.1, size := some part.2.2 } }]

/-- 100 GiB, of which one partition has the second GiB. -/
def secondGibDisk : LsblkSnapshot :=
  partitionedDisk 107374182400 [("/dev/sda1", 2097152, 1073741824)]

theorem second_gib_disk_regions_sound :
    ∃ diskSize isGpt, diskMetadata secondGibDisk "/dev/sda" = .ok (diskSize, isGpt) ∧
      RegionsSound minKythosBytes (partitionsOn secondGibDisk "/dev/sda")
        (regionsFor diskSize 512 minKythosBytes (partitionsOn secondGibDisk "/dev/sda")) := by
  have hpath : devicePath "/dev/sda" = "/dev/sda" := by decide
  obtain ⟨diskSize, isGpt, hdisk, -, hall⟩ := freeRegions_sound_and_complete secondGibDisk
    "/dev/sda" 512
    [{ startBytes := 2 * 1024 ^ 3, endBytes := 100 * 1024 ^ 3 - 1024 ^ 2
       sizeBytes := 98 * 1024 ^ 3 - 1024 ^ 2 }]
    (by decide) (by rw [hpath]; decide) (by rw [hpath]; decide)
  rw [hpath] at hall
  exact ⟨diskSize, isGpt, hdisk, (hall minKythosBytes).1⟩

/-- 100 GiB with a partition of size zero at 1 MiB. -/
def emptyEntryDisk : LsblkSnapshot := partitionedDisk 107374182400 [("/dev/sda1", 2048, 0)]

/-- The whole disk between its reserved ends is a gap beside a partition of size zero. -/
theorem isGap_emptyEntryDisk :
    IsGap PartitionRecord.extent (partitionsOn emptyEntryDisk "/dev/sda") gptReserveBytes
      (100 * 1024 ^ 3 - gptReserveBytes) (gptReserveBytes, 100 * 1024 ^ 3 - gptReserveBytes) := by
  refine ⟨le_rfl, by decide, le_rfl, by decide, ?_⟩
  rintro wider hlo hwlo hwhi hhi -
  exact Prod.ext (le_antisymm hwlo hlo) (le_antisymm hhi hwhi)

/-- 16 EiB less one sector: a partition that ends in the last MiB and another one behind it. -/
def wrappingDisk : LsblkSnapshot :=
  partitionedDisk 18446744073709551104
    [("/dev/sda1", 2048, 18446744073707978752), ("/dev/sda2", 36028797018963966, 512)]

/-- A partition of size zero hides the whole disk, and at the end of the 64-bit range a start that
wraps to zero is offered over a partition. -/
theorem gap_beside_empty_entry_missed :
    (freeRegions emptyEntryDisk "/dev/sda" 512 = .ok [] ∧
      (∀ part ∈ partitionsOn emptyEntryDisk "/dev/sda", WholeSectors 512 part) ∧
      ¬ RegionsComplete (100 * 1024 ^ 3) minKythosBytes
        (partitionsOn emptyEntryDisk "/dev/sda") []) ∧
    ∃ region, freeRegions wrappingDisk "/dev/sda" 512 = .ok [region] ∧
      (∀ part ∈ partitionsOn wrappingDisk "/dev/sda", WholeSectors 512 part) ∧
      ∃ part ∈ partitionsOn wrappingDisk "/dev/sda",
        Meets (region.startBytes, region.endBytes) part.extent := by
  refine ⟨⟨by decide, by decide, ?_⟩, ?_⟩
  · intro hcomplete
    obtain ⟨region, hregion, -⟩ :=
      hcomplete _ isGap_emptyEntryDisk (by decide) (by decide)
    cases hregion
  · refine ⟨{ startBytes := 0, endBytes := 18446744073708503040
              sizeBytes := 18446744073708503040 }, by decide, by decide, ?_⟩
    decide

end Kyth.Storage

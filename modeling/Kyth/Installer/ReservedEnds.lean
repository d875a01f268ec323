import Kyth.Installer.FreeRegions

/-!
# The reserved ends of a disk

The first and the last MiB of a disk hold the two copies of the partition table, and no free region
should reach into them. The sweep of `free_regions` starts behind the first one and stops before the
last one, but a gap between two partitions ends where the second one begins. Where the size of the
disk is no multiple of 1 MiB, a partition that begins behind its last 1 MiB boundary lets the region
before it end at that boundary, which is less than 1 MiB from the end.

* `ReachesReservedEnd`, `WrapsToStart`: the disks on which that happens, by their partitions;
* `freeRegions_inside_iff`: on all other disks the regions stay between the reserved ends.
-/

namespace Kyth.Storage

open Str Word Kyth.Interval

/-- Large enough a stretch before the last boundary of the disk is free, and a partition begins at
the boundary or behind it. -/
def ReachesReservedEnd (diskSize required : ℕ) (spans : List (ℕ × ℕ)) : Prop :=
  gptReserveBytes + required ≤ alignDown diskSize ∧
    (∃ s ∈ spans, alignDown diskSize ≤ s.1) ∧
    ∀ s ∈ spans, s.1 < alignDown diskSize → s.2 ≤ alignDown diskSize - required

/-- A free byte between two partitions in the last MiB of the 64-bit range: rounding the start of
that gap up gives zero. -/
def WrapsToStart (diskSize : ℕ) (spans : List (ℕ × ℕ)) : Prop :=
  alignDown diskSize = 2 ^ 64 - 2 ^ 20 ∧
    ∃ x, (∃ s ∈ spans, alignDown diskSize < s.2 ∧ s.2 ≤ x) ∧ (∃ s ∈ spans, x < s.1) ∧
      ∀ s ∈ spans, x < s.1 ∨ s.2 ≤ x

/-- A region between the reserved ends of the disk. -/
def FreeRegionRecord.Inside (diskSize : ℕ) (region : FreeRegionRecord) : Prop :=
  gptReserveBytes ≤ region.startBytes ∧ region.endBytes ≤ diskSize - gptReserveBytes

instance (diskSize : ℕ) (region : FreeRegionRecord) : Decidable (region.Inside diskSize) :=
  inferInstanceAs (Decidable (_ ∧ _))

/-- The span of a partition is not empty and lies on the disk. -/
theorem partitionSpan_bounds {diskSize sectorSize : ℕ} {part : PartitionRecord} {span : ℕ × ℕ}
    (h : partitionSpan diskSize sectorSize part = some span) :
    span.1 < span.2 ∧ span.2 ≤ diskSize := by
  unfold partitionSpan at h
  dsimp only at h
  split_ifs at h with hout hout'
  cases h
  have hle : part.sizeBytes.toNat / sectorSize * sectorSize ≤ part.sizeBytes.toNat :=
    Nat.div_mul_le_self _ _
  dsimp only
  omega

theorem mapM_partitionSpan_bounds {diskSize sectorSize : ℕ} {partitions : List PartitionRecord}
    {spans : List (ℕ × ℕ)} (h : partitions.mapM (partitionSpan diskSize sectorSize) = some spans) :
    ∀ span ∈ spans, span.1 < span.2 ∧ span.2 ≤ diskSize := by
  induction partitions generalizing spans with
  | nil =>
    cases h
    simp
  | cons part partitions ih =>
    rw [List.mapM_cons] at h
    simp only [Option.bind_eq_bind, Option.bind_eq_some_iff, Option.pure_def,
      Option.some.injEq] at h
    obtain ⟨span, hspan, rest, hrest, rfl⟩ := h
    rw [List.forall_mem_cons]
    exact ⟨partitionSpan_bounds hspan, ih hrest⟩

section Spans

variable {diskSize sectorSize required : ℕ} {spans : List (ℕ × ℕ)}

/-- The gaps between the spans of a disk. -/
def gapsBetween (diskSize : ℕ) (spans : List (ℕ × ℕ)) : List (ℕ × ℕ) :=
  gapsFrom (diskSize - gptReserveBytes) gptReserveBytes (spans.insertionSort spanLe)

theorem gapsBetween_not_meets {gap : ℕ × ℕ} (h : gap ∈ gapsBetween diskSize spans) :
    ∀ s ∈ spans, ¬ Meets gap s := by
  intro s hs
  apply gapsFrom_not_meets (insertionSort_spanLe_pairwise spans) h
  rwa [List.mem_insertionSort]

theorem gapsBetween_end {gap : ℕ × ℕ} (h : gap ∈ gapsBetween diskSize spans) :
    (∃ s ∈ spans, gap.2 = s.1) ∨
      gap.2 = diskSize - gptReserveBytes ∧ ∀ s ∈ spans, s.2 ≤ gap.1 := by
  have hend := gapsFrom_end h
  simpa only [List.mem_insertionSort] using hend

/-- A gap ends on the disk. -/
theorem gapsBetween_le {gap : ℕ × ℕ} (hspans : ∀ s ∈ spans, s.1 < s.2 ∧ s.2 ≤ diskSize)
    (h : gap ∈ gapsBetween diskSize spans) : gap.2 ≤ diskSize := by
  rcases gapsBetween_end h with ⟨s, hs, hstart⟩ | ⟨hstop, -⟩
  · have hs2 := hspans s hs
    omega
  · omega

theorem gapsBetween_start {gap : ℕ × ℕ} (h : gap ∈ gapsBetween diskSize spans) :
    gap.1 = gptReserveBytes ∨ ∃ s ∈ spans, gap.1 = s.2 := by
  have hstart := gapsFrom_start h
  simpa only [List.mem_insertionSort] using hstart

/-- A free point that a span follows lies in a gap. -/
theorem gapsBetween_covers {x : ℕ} (hx : gptReserveBytes ≤ x)
    (hfree : ∀ s ∈ spans, x < s.1 ∨ s.2 ≤ x) (hcome : ∃ s ∈ spans, x < s.1) :
    ∃ gap ∈ gapsBetween diskSize spans, gap.1 ≤ x ∧ x < gap.2 := by
  apply gapsFrom_covers hx
  · simpa only [List.mem_insertionSort] using hfree
  · simp only [List.mem_insertionSort]
    exact .inr hcome

/-- An end behind the reserve is the last boundary of the disk. -/
theorem alignDown_eq_of_lt {n : ℕ} (hle : n ≤ diskSize)
    (hlt : diskSize - gptReserveBytes < alignDown n) : alignDown n = alignDown diskSize := by
  unfold alignDown regionAlignBytes gptReserveBytes at *
  omega

/-- The last boundary of the disk lies in the reserved end. -/
theorem reserve_lt_alignDown (hdisk : gptReserveBytes < diskSize) :
    diskSize - gptReserveBytes < alignDown diskSize := by
  unfold alignDown regionAlignBytes gptReserveBytes at *
  omega

/-- In the last MiB of the 64-bit range every number is rounded down to its begin and up to its
end. -/
theorem align_of_last {n : ℕ} (hlast : alignDown diskSize = 2 ^ 64 - 2 ^ 20)
    (hlt : alignDown diskSize < n) (hle : n ≤ diskSize) :
    alignDown n = 2 ^ 64 - 2 ^ 20 ∧ alignUp n = 2 ^ 64 := by
  unfold alignUp alignDown regionAlignBytes at *
  omega

variable (hspans : ∀ s ∈ spans, s.1 < s.2 ∧ s.2 ≤ diskSize)
  (hsector : supportedSectorSize sectorSize = true)
  (hrequired : regionAlignBytes ∣ required) (hpos : 0 < required)
  (hdisk : gptReserveBytes < diskSize) (hmax : diskSize < 2 ^ 64)

include hspans hsector hrequired hpos hdisk in
/-- A free stretch before the last boundary of the disk is offered beyond the reserved end. -/
theorem ReachesReservedEnd.region (h : ReachesReservedEnd diskSize required spans) :
    ∃ gap ∈ gapsBetween diskSize spans, ∃ region,
      alignedRegion sectorSize required gap = some region ∧ ¬ region.Inside diskSize := by
  obtain ⟨hroom, ⟨t, ht, hbehind⟩, hfree⟩ := h
  -- the first byte of the stretch is free, so a gap covers it
  have hfirst : ∀ s ∈ spans,
      alignDown diskSize - required < s.1 ∨ s.2 ≤ alignDown diskSize - required := by
    intro s hs
    by_cases hlt : s.1 < alignDown diskSize
    · exact .inr (hfree s hs hlt)
    · exact .inl (by omega)
  obtain ⟨gap, hgap, hle, hlt⟩ : ∃ gap ∈ gapsBetween diskSize spans,
      gap.1 ≤ alignDown diskSize - required ∧ alignDown diskSize - required < gap.2 :=
    gapsBetween_covers (by omega) hfirst ⟨t, ht, by omega⟩
  have hend : alignDown diskSize ≤ gap.2 := by
    rcases gapsBetween_end hgap with ⟨s, hs, hstart⟩ | ⟨-, hlast⟩
    · by_contra hcon
      have hs2 := hfree s hs (by omega)
      have hs1 := (hspans s hs).1
      omega
    · have ht2 := hlast t ht
      have ht1 := (hspans t ht).1
      omega
  have hstart : alignUp gap.1 ≤ alignDown diskSize - required :=
    alignUp_le (Nat.dvd_sub (dvd_alignDown _) hrequired) hle
  have hstop : alignDown diskSize ≤ alignDown gap.2 := by
    have hmono := alignDown_mono hend
    unfold alignDown at hmono ⊢
    rwa [Nat.mul_div_cancel _ (by decide)] at hmono
  have hmod : alignUp gap.1 % 2 ^ 64 ≤ alignUp gap.1 := Nat.mod_le _ _
  refine ⟨gap, hgap, _, (alignedRegion_eq_some_iff hsector).2 ⟨⟨?_, ?_⟩, rfl⟩, ?_⟩
  · omega
  · omega
  · rintro ⟨-, hinside⟩
    exact absurd (hstop.trans hinside) (not_le.2 (reserve_lt_alignDown hdisk))

include hspans hsector in
/-- A gap in the last MiB of the 64-bit range is offered from the first byte on. -/
theorem WrapsToStart.region (hsize : required ≤ 2 ^ 64 - 2 ^ 20)
    (h : WrapsToStart diskSize spans) :
    ∃ gap ∈ gapsBetween diskSize spans, ∃ region,
      alignedRegion sectorSize required gap = some region ∧ ¬ region.Inside diskSize := by
  obtain ⟨hlast, x, ⟨q, hq, hbehind, hqx⟩, ⟨t, ht, hxt⟩, hfree⟩ := h
  obtain ⟨gap, hgap, hle, hlt⟩ : ∃ gap ∈ gapsBetween diskSize spans, gap.1 ≤ x ∧ x < gap.2 :=
    gapsBetween_covers (by unfold gptReserveBytes; omega) hfree ⟨t, ht, hxt⟩
  have hq1 := (hspans q hq).1
  have ht1 := (hspans t ht)
  -- the gap begins behind the first of the two partitions
  have hafter : q.2 ≤ gap.1 := by
    by_contra hcon
    exact gapsBetween_not_meets hgap q hq
      (meets_iff.2 ⟨by omega, by omega, by omega, hq1⟩)
  have hend : gap.2 ≤ diskSize := gapsBetween_le hspans hgap
  have hstop : alignDown gap.2 = 2 ^ 64 - 2 ^ 20 :=
    (align_of_last hlast (by omega) (by omega)).1
  have hwrap : alignUp gap.1 = 2 ^ 64 := (align_of_last hlast (by omega) (by omega)).2
  refine ⟨gap, hgap, _, (alignedRegion_eq_some_iff hsector).2 ⟨⟨?_, ?_⟩, rfl⟩, ?_⟩
  · rw [hwrap, hstop, Nat.mod_self]
    norm_num
  · rw [hwrap, hstop, Nat.mod_self]
    exact hsize
  · rintro ⟨hinside, -⟩
    dsimp only at hinside
    rw [hwrap, Nat.mod_self] at hinside
    exact absurd hinside (by decide)

include hspans hsector hdisk hmax in
/-- A region outside the reserved ends comes from one of these. -/
theorem reaches_or_wraps {gap : ℕ × ℕ} {region : FreeRegionRecord}
    (hgap : gap ∈ gapsBetween diskSize spans)
    (hregion : alignedRegion sectorSize required gap = some region)
    (hout : ¬ region.Inside diskSize) :
    ReachesReservedEnd diskSize required spans ∨ WrapsToStart diskSize spans := by
  obtain ⟨⟨hnonempty, hsize⟩, rfl⟩ := (alignedRegion_eq_some_iff hsector).1 hregion
  have hbounds : gptReserveBytes ≤ gap.1 ∧ gap.1 < gap.2 := gapsFrom_bounds hgap
  have hnot := gapsBetween_not_meets hgap
  -- before or behind the gap
  have hside : ∀ s ∈ spans, s.2 ≤ gap.1 ∨ gap.2 ≤ s.1 := by
    intro s hs
    exact (le_or_le_of_not_meets (hnot s hs) hbounds.2 (hspans s hs).1).symm
  have hend : gap.2 ≤ diskSize := gapsBetween_le hspans hgap
  by_cases hwrap : alignUp gap.1 < 2 ^ 64
  · left
    rw [Nat.mod_eq_of_lt hwrap] at hnonempty hsize hout
    have hup := le_alignUp gap.1
    have hbehind : diskSize - gptReserveBytes < alignDown gap.2 := by
      by_contra hcon
      exact hout ⟨hbounds.1.trans hup, not_lt.1 hcon⟩
    have hlast := alignDown_eq_of_lt hend hbehind
    have hdown := alignDown_le gap.2
    refine ⟨by omega, ?_, fun s hs hlt => ?_⟩
    · rcases gapsBetween_end hgap with ⟨s, hs, hstart⟩ | ⟨hstop, -⟩
      · exact ⟨s, hs, by omega⟩
      · omega
    · rcases hside s hs with hle | hle
      · omega
      · omega
  · right
    have hbig : 2 ^ 64 - 2 ^ 20 < gap.1 := by
      unfold alignUp regionAlignBytes at hwrap
      omega
    have hlast : alignDown diskSize = 2 ^ 64 - 2 ^ 20 := by
      unfold alignDown regionAlignBytes
      omega
    refine ⟨hlast, gap.1, ?_, ?_, ?_⟩
    · rcases gapsBetween_start hgap with hstart | ⟨s, hs, hstart⟩
      · unfold gptReserveBytes at hstart
        omega
      · exact ⟨s, hs, by omega, by omega⟩
    · rcases gapsBetween_end hgap with ⟨s, hs, hstart⟩ | ⟨hstop, -⟩
      · exact ⟨s, hs, by omega⟩
      · unfold gptReserveBytes at hstop
        omega
    · intro s hs
      rcases hside s hs with hle | hle
      · exact .inr hle
      · exact .inl (by omega)

end Spans

/-- A region for the system is a multiple of 1 MiB. -/
theorem requiredBytes_bounds (snapshot : LsblkSnapshot) (isGpt : Bool) :
    regionAlignBytes ∣ requiredBytes snapshot isGpt ∧ 0 < requiredBytes snapshot isGpt ∧
      requiredBytes snapshot isGpt ≤ 2 ^ 64 - 2 ^ 20 := by
  unfold requiredBytes regionAlignBytes minKythosBytes gptReserveBytes
  split_ifs
  · refine ⟨by norm_num, by norm_num, by norm_num⟩
  · refine ⟨by norm_num, by norm_num, by norm_num⟩

theorem diskMetadata_lt {snapshot : LsblkSnapshot} {disk : String} {diskSize : ℕ} {isGpt : Bool}
    (h : diskMetadata snapshot disk = .ok (diskSize, isGpt)) : diskSize < 2 ^ 64 := by
  unfold diskMetadata at h
  split at h
  · cases h
  · split at h
    · cases h
      exact UInt64.toNat_lt _
    · cases h

/-- Every region comes from a gap between the partitions. -/
theorem gap_of_mem_freeRegions {snapshot : LsblkSnapshot} {disk : String} {sectorSize : ℕ}
    {regions : List FreeRegionRecord} {region : FreeRegionRecord}
    (h : freeRegions snapshot disk sectorSize = .ok regions) (hmem : region ∈ regions) :
    ∃ diskSize isGpt gap, diskMetadata snapshot disk = .ok (diskSize, isGpt) ∧
      gap.2 ≤ diskSize ∧
      alignedRegion sectorSize (requiredBytes snapshot isGpt) gap = some region := by
  obtain ⟨hsector, ⟨diskSize, isGpt⟩, hdisk⟩ := supportedSectorSize_of_freeRegions h
  obtain ⟨path, hpath⟩ := normalizeDevicePath_of_diskMetadata hdisk
  rw [freeRegions_eq hsector hpath hdisk] at h
  cases h
  unfold regionsFor at hmem
  split_ifs at hmem
  · cases hmem
  · cases hmap : (partitionsOn snapshot path).mapM (partitionSpan diskSize sectorSize) with
    | none =>
      rw [hmap] at hmem
      cases hmem
    | some spans =>
      rw [hmap] at hmem
      simp only [sweepSpans_eq, List.mem_filterMap] at hmem
      obtain ⟨gap, hgap, hregion⟩ := hmem
      exact ⟨diskSize, isGpt, gap, hdisk, gapsBetween_le (mapM_partitionSpan_bounds hmap) hgap,
        hregion⟩

/-- The regions of a disk stay between its reserved ends unless a partition begins behind its last
1 MiB boundary with enough free space before the boundary, or a gap lies in the last MiB of the
64-bit range. `none` for the spans means that a partition does not fit on the disk: nothing is
offered then. -/
theorem freeRegions_inside_iff (snapshot : LsblkSnapshot) (disk : String) (sectorSize : ℕ)
    (regions : List FreeRegionRecord) (h : freeRegions snapshot disk sectorSize = .ok regions) :
    ∃ diskSize isGpt, diskMetadata snapshot disk = .ok (diskSize, isGpt) ∧
      ((∀ region ∈ regions, region.Inside diskSize) ↔
        ∀ spans, (partitionsOn snapshot (devicePath disk)).mapM
            (partitionSpan diskSize sectorSize) = some spans →
          ¬ ReachesReservedEnd diskSize (requiredBytes snapshot isGpt) spans ∧
            ¬ WrapsToStart diskSize spans) := by
  obtain ⟨hsector, ⟨diskSize, isGpt⟩, hdisk⟩ := supportedSectorSize_of_freeRegions h
  obtain ⟨path, hpath⟩ := normalizeDevicePath_of_diskMetadata hdisk
  have hdevice : devicePath disk = path := devicePath_eq_of_normalize hpath
  rw [freeRegions_eq hsector (hpath.trans (congrArg some hdevice.symm)) hdisk] at h
  cases h
  obtain ⟨hdvd, hpos, hsize⟩ := requiredBytes_bounds snapshot isGpt
  refine ⟨diskSize, isGpt, hdisk, ?_⟩
  unfold regionsFor
  by_cases hsmall : diskSize ≤ satMulU64 gptReserveBytes 2
  · -- a disk that is all reserve has no regions, and no room before its last boundary
    rw [if_pos hsmall]
    have hsat : satMulU64 gptReserveBytes 2 = 2 * gptReserveBytes := by decide
    have hle := alignDown_le diskSize
    refine iff_of_true (by simp) fun spans hspans => ⟨fun hreach => ?_, fun hwraps => ?_⟩
    · have hroom := hreach.1
      have hmin : minKythosBytes ≤ requiredBytes snapshot isGpt := Nat.le_add_right _ _
      unfold minKythosBytes gptReserveBytes at *
      omega
    · have hlast := hwraps.1
      unfold gptReserveBytes at *
      omega
  · rw [if_neg hsmall]
    have hlarge : gptReserveBytes < diskSize := by
      have hsat : satMulU64 gptReserveBytes 2 = 2 * gptReserveBytes := by decide
      omega
    cases hmap : (partitionsOn snapshot (devicePath disk)).mapM
        (partitionSpan diskSize sectorSize) with
    | none => simp
    | some spans =>
      have hspans := mapM_partitionSpan_bounds hmap
      simp only [Option.some.injEq, forall_eq', sweepSpans_eq, List.mem_filterMap]
      change (∀ region, (∃ gap ∈ gapsBetween diskSize spans,
        alignedRegion sectorSize (requiredBytes snapshot isGpt) gap = some region) →
          region.Inside diskSize) ↔ _
      constructor
      · refine fun hinside => ⟨fun hreach => ?_, fun hwraps => ?_⟩
        · obtain ⟨gap, hgap, region, hregion, hout⟩ :=
            hreach.region hspans hsector hdvd hpos hlarge
          exact hout (hinside region ⟨gap, hgap, hregion⟩)
        · obtain ⟨gap, hgap, region, hregion, hout⟩ := hwraps.region hspans hsector hsize
          exact hout (hinside region ⟨gap, hgap, hregion⟩)
      · rintro ⟨hreach, hwraps⟩ region ⟨gap, hgap, hregion⟩
        by_contra hout
        exact (reaches_or_wraps hspans hsector hlarge (diskMetadata_lt hdisk) hgap hregion
          hout).elim hreach hwraps

/-- The regions of a disk of 100 GiB with a partition in its second GiB. -/
def secondGibRegions : List FreeRegionRecord :=
  [{ startBytes := 2 * 1024 ^ 3, endBytes := 100 * 1024 ^ 3 - 1024 ^ 2
     sizeBytes := 98 * 1024 ^ 3 - 1024 ^ 2 }]

theorem second_gib_disk_inside :
    ∃ diskSize isGpt, diskMetadata secondGibDisk "/dev/sda" = .ok (diskSize, isGpt) ∧
      ((∀ region ∈ secondGibRegions, region.Inside diskSize) ↔
        ∀ spans, (partitionsOn secondGibDisk (devicePath "/dev/sda")).mapM
            (partitionSpan diskSize 512) = some spans →
          ¬ ReachesReservedEnd diskSize (requiredBytes secondGibDisk isGpt) spans ∧
            ¬ WrapsToStart diskSize spans) :=
  freeRegions_inside_iff secondGibDisk "/dev/sda" 512 secondGibRegions (by decide)

/-- 100 GiB and 512 KiB, with a partition of 4 KiB at 100 GiB. -/
def lastBoundaryDisk : LsblkSnapshot :=
  partitionedDisk 107374706688 [("/dev/sda1", 209715200, 4096)]

/-- The space before that partition is offered up to 100 GiB, although the last MiB begins 512 KiB
before that. -/
theorem last_boundary_region_outside :
    diskMetadata lastBoundaryDisk "/dev/sda" = .ok (107374706688, false) ∧
      ∃ region, freeRegions lastBoundaryDisk "/dev/sda" 512 = .ok [region] ∧
        107374706688 - gptReserveBytes < region.endBytes := by
  refine ⟨by decide +kernel, { startBytes := 1024 ^ 2, endBytes := 100 * 1024 ^ 3
                               sizeBytes := 100 * 1024 ^ 3 - 1024 ^ 2 }, ?_, ?_⟩
  · decide +kernel
  · decide

end Kyth.Storage

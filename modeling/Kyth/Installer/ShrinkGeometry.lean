import Kyth.Installer.ReservedEnds
import Kyth.Installer.StorageRun

/-!
# The geometry of a guided shrink

An install that shrinks Windows passes three gates. The request must ask for enough
(`build_plan`), the shrink must leave a sound partition (`resize_ntfs_target`), and only then, with
the filesystem already smaller, the freed range must be large enough (`create_target_partition`) and
aligned (`partition_end`). A gate behind the shrink should not ask for more than the gates before
it.

* `sizeChecks`: what `create_target_partition` asks of its range. The first MiB goes to a BIOS boot
  partition whenever the disk has none, whatever its table is, and the rest must be 32 GiB;
* `sizeChecks_iff`: which requests and which free regions pass;
* `shrink_plans_iff`: which partitions pass the alignment checks once the shrink has begun.
-/

namespace Kyth.Executor

open Str Word Storage Disk Durable
open Kyth.Action (Frame bind_eq_ok guard_eq_ok)
open Check (Passes passes_ite_throw passes_pure)
open Kyth.Plan (InstallerPlan InstallMode InstallerPlanInput)

variable {host : Host} {plan : InstallerPlan} {s s' : Session} {start stop sectorSize : ℕ}

/-! ### The size checks -/

/-- The size checks of `create_target_partition`, in the order in which it makes them. -/
def sizeChecks (hasBiosBoot : Bool) (start stop sectorSize : ℕ) : Except String Unit := do
  if stop ≤ start then throw "free-space target has invalid geometry"
  if hasBiosBoot = false ∧ stop - start < biosBootBytes + sectorSize then
    throw "free-space target cannot fit a BIOS boot partition"
  let targetStart := if hasBiosBoot then start else satAddU64 start biosBootBytes
  if stop < targetStart then throw "free-space target has invalid post-boot geometry"
  if stop - targetStart < minKythosBytes then
    throw "free-space target is smaller than the KythOS minimum"

/-- `create_target_partition` from the creation of the KythOS partition on. -/
def makeKythos (host : Host) (plan : InstallerPlan) (before : LsblkSnapshot)
    (start stop sectorSize : ℕ) : Phase String := do
  let size := stop - start
  executeDiskHelper host plan
    (.createPartition plan.disk (.ofNat start) (.ofNat size) "btrfs" "KythOS" sectorSize)
  let after ← diskSnapshot host plan
  let target ← lift (newPartitionFromSnapshots before after start size sectorSize)
  let _ ← lift (partitionProbeFromSnapshot after plan.disk target sectorSize)
  return target

/-- `create_target_partition` without its size checks. -/
def makeTarget (host : Host) (plan : InstallerPlan) (start stop sectorSize : ℕ) :
    Phase String := do
  let before ← diskSnapshot host plan
  if ← lift (hasBiosBootPartition before sectorSize) then
    makeKythos host plan before start stop sectorSize
  else
    let before ← createBiosBoot host plan before start sectorSize
    makeKythos host plan before (satAddU64 start biosBootBytes) stop sectorSize

theorem passes_sizeChecks {hasBiosBoot : Bool} :
    Passes (sizeChecks hasBiosBoot start stop sectorSize) ↔
      start < stop ∧ (hasBiosBoot = false → biosBootBytes + sectorSize ≤ stop - start) ∧
        (if hasBiosBoot then start else satAddU64 start biosBootBytes) ≤ stop ∧
        minKythosBytes ≤ stop - if hasBiosBoot then start else satAddU64 start biosBootBytes := by
  unfold sizeChecks
  simp only [Check.throw_bind, passes_ite_throw, passes_pure, not_le, not_lt, not_and, and_true]

theorem diskSnapshot_eq_ok {snapshot : LsblkSnapshot}
    (h : diskSnapshot host plan s = (.ok snapshot, s')) :
    snapshot = s.drive.snapshot plan.disk ∧ s' = { s with clock := s.clock + 1 } := by
  obtain ⟨⟨⟩, s₁, hask, h⟩ := bind_eq_ok.1 h
  obtain ⟨t, s₂, hget, h⟩ := bind_eq_ok.1 h
  cases hget
  obtain rfl := ask_eq_ok hask
  cases h
  exact ⟨rfl, rfl⟩

/-- Where the checks pass they change nothing. -/
theorem createTargetPartition_of_passes {hasBiosBoot : Bool}
    (hbios : hasBiosBootPartition (s.drive.snapshot plan.disk) sectorSize = .ok hasBiosBoot)
    (h : Passes (sizeChecks hasBiosBoot start stop sectorSize)) :
    createTargetPartition host plan start stop sectorSize s =
      makeTarget host plan start stop sectorSize s := by
  obtain ⟨hlt, hroom, hle, hsize⟩ := passes_sizeChecks.1 h
  have hkythos : ∀ {before : LsblkSnapshot} {first : ℕ}, first ≤ stop →
      minKythosBytes ≤ stop - first →
      createKythos host plan before first stop sectorSize =
        makeKythos host plan before first stop sectorSize := by
    intro before first hle hsize
    unfold createKythos
    simp only [if_neg (not_lt.2 hle), if_neg (not_lt.2 hsize)]
    rfl
  unfold createTargetPartition makeTarget
  simp only [if_neg (not_le.2 hlt)]
  rw [Action.bind_apply, Action.bind_apply]
  rcases hsnapshot : diskSnapshot host plan s with ⟨message | snapshot, s₁⟩
  · rfl
  · obtain ⟨rfl, rfl⟩ := diskSnapshot_eq_ok hsnapshot
    dsimp only
    rw [hbios]
    cases hasBiosBoot with
    | true =>
      simp only [if_true] at hle hsize
      exact congrFun (hkythos hle hsize) _
    | false =>
      simp only [Bool.false_eq_true, if_false] at hle hsize
      simp only [lift, Action.bind_apply, Action.pure_apply, Bool.false_eq_true, if_false,
        if_neg (not_lt.2 (hroom rfl)), hkythos hle hsize]

/-- Where a check fails no partition is made. -/
theorem createTargetPartition_of_refused {hasBiosBoot : Bool} {target : String}
    (hbios : hasBiosBootPartition (s.drive.snapshot plan.disk) sectorSize = .ok hasBiosBoot)
    (h : ¬ Passes (sizeChecks hasBiosBoot start stop sectorSize)) :
    createTargetPartition host plan start stop sectorSize s ≠ (.ok target, s') := by
  intro hrun
  apply h
  have hkythos : ∀ {before : LsblkSnapshot} {first : ℕ} {t : Session},
      createKythos host plan before first stop sectorSize t = (.ok target, s') →
        first ≤ stop ∧ minKythosBytes ≤ stop - first := by
    intro before first t hrun
    unfold createKythos at hrun
    by_cases hle : stop < first
    · simp [hle] at hrun
    · by_cases hsize : stop - first < minKythosBytes
      · simp [hle, hsize] at hrun
      · exact ⟨not_lt.1 hle, not_lt.1 hsize⟩
  unfold createTargetPartition at hrun
  by_cases hempty : stop ≤ start
  · simp [hempty] at hrun
  simp only [if_neg hempty] at hrun
  obtain ⟨snapshot, s₁, hsnapshot, hrun⟩ := bind_eq_ok.1 hrun
  obtain ⟨rfl, rfl⟩ := diskSnapshot_eq_ok hsnapshot
  obtain ⟨bios, s₂, hlift, hrun⟩ := bind_eq_ok.1 hrun
  obtain ⟨hbios', rfl⟩ := lift_eq_ok.1 hlift
  cases hbios.symm.trans hbios'
  rw [passes_sizeChecks]
  cases hasBiosBoot with
  | true => exact ⟨not_le.1 hempty, by simp, hkythos hrun⟩
  | false =>
    simp only [Bool.false_eq_true, if_false] at hrun ⊢
    by_cases hroom : stop - start < biosBootBytes + sectorSize
    · simp [hroom] at hrun
    · simp only [if_neg hroom] at hrun
      obtain ⟨before, s₃, -, hrun⟩ := bind_eq_ok.1 hrun
      exact ⟨not_le.1 hempty, fun _ => not_lt.1 hroom, hkythos hrun⟩

/-! ### The freed range -/

theorem checkedSum_eq_ok {a b sum : ℕ} {message : String} :
    checkedSum a b message s = (.ok sum, s') ↔ sum = a + b ∧ a + b < 2 ^ 64 ∧ s' = s := by
  unfold checkedSum checkedAddU64
  by_cases hlt : a + b < 2 ^ 64
  · simp only [if_pos hlt, Action.pure_apply, Prod.mk.injEq, Except.ok.injEq]
    simp only [hlt, true_and, eq_comm]
  · simp only [if_neg hlt, Action.throw_apply, Prod.mk.injEq, reduceCtorEq, false_and]
    exact iff_of_false id fun h => hlt h.2.1

/-- What a shrink frees: the end of the partition. -/
theorem shrinkNtfs_eq_ok {partition : String} {probe : PartitionProbe} {ends : ℕ × ℕ}
    (h : shrinkNtfs host plan partition probe sectorSize s = (.ok ends, s')) :
    ShrinkAllowed plan probe sectorSize ∧
      ends = (probe.startBytes.toNat + (probe.sizeBytes.toNat - plan.resizeBytes),
        probe.startBytes.toNat + probe.sizeBytes.toNat) ∧ ends.2 < 2 ^ 64 := by
  unfold shrinkNtfs at h
  obtain ⟨⟨⟩, s₁, -, h⟩ := bind_eq_ok.1 h
  obtain ⟨hfits, h⟩ := guard_eq_ok.1 h
  obtain ⟨hgate, h⟩ := guard_eq_ok.1 h
  obtain ⟨⟨⟩, s₂, -, h⟩ := bind_eq_ok.1 h
  obtain ⟨⟨⟩, s₃, -, h⟩ := bind_eq_ok.1 h
  obtain ⟨fresh, s₄, -, h⟩ := bind_eq_ok.1 h
  obtain ⟨freshProbe, s₅, -, h⟩ := bind_eq_ok.1 h
  obtain ⟨-, h⟩ := guard_eq_ok.1 h
  obtain ⟨⟨⟩, s₆, -, h⟩ := bind_eq_ok.1 h
  obtain ⟨after, s₇, -, h⟩ := bind_eq_ok.1 h
  obtain ⟨resized, s₈, -, h⟩ := bind_eq_ok.1 h
  obtain ⟨-, h⟩ := guard_eq_ok.1 h
  obtain ⟨⟨⟩, s₉, -, h⟩ := bind_eq_ok.1 h
  obtain ⟨oldEnd, s₁₀, hold, h⟩ := bind_eq_ok.1 h
  obtain ⟨newEnd, s₁₁, hnew, h⟩ := bind_eq_ok.1 h
  obtain ⟨rfl, hlt, -⟩ := checkedSum_eq_ok.1 hold
  obtain ⟨rfl, -, -⟩ := checkedSum_eq_ok.1 hnew
  cases h
  push Not at hgate
  exact ⟨⟨not_lt.1 hfits, hgate.1, hgate.2⟩, rfl, hlt⟩

/-- What a resumed install takes for the freed range: as much as it would free itself, behind the
partition as it is now. -/
theorem ntfsShrinkResumeWindow_eq_some {snapshot : LsblkSnapshot} {probe : PartitionProbe}
    {ends : ℕ × ℕ}
    (h : ntfsShrinkResumeWindow host plan snapshot probe sectorSize s = (.ok (some ends), s')) :
    ends = (probe.startBytes.toNat + probe.sizeBytes.toNat,
        probe.startBytes.toNat + satAddU64 probe.sizeBytes.toNat plan.resizeBytes) ∧
      ends.2 < 2 ^ 64 ∧ (∀ recorded ∈ plan.preShrinkBytes,
        absDiff recorded probe.sizeBytes.toNat ≤ sectorSize) ∧
      minKythosBytes ≤ ends.2 - ends.1 ∧
      containsFreeRegion snapshot plan.disk ends.1 ends.2 sectorSize = .ok true := by
  unfold ntfsShrinkResumeWindow at h
  obtain ⟨completed, s₁, -, h⟩ := bind_eq_ok.1 h
  cases completed with
  | false => simp at h
  | true =>
    simp only [Bool.not_true, Bool.false_eq_true, if_false] at h
    obtain ⟨hrecorded, h⟩ := guard_eq_ok.1 h
    obtain ⟨-, h⟩ := guard_eq_ok.1 h
    obtain ⟨-, h⟩ := guard_eq_ok.1 h
    obtain ⟨newEnd, s₂, hnew, h⟩ := bind_eq_ok.1 h
    obtain ⟨oldEnd, s₃, hold, h⟩ := bind_eq_ok.1 h
    obtain ⟨-, h⟩ := guard_eq_ok.1 h
    obtain ⟨hsize, h⟩ := guard_eq_ok.1 h
    obtain ⟨free, s₄, hfree, h⟩ := bind_eq_ok.1 h
    obtain ⟨hcontains, -⟩ := lift_eq_ok.1 hfree
    obtain ⟨hnot, h⟩ := guard_eq_ok.1 h
    obtain ⟨rfl, -, -⟩ := checkedSum_eq_ok.1 hnew
    obtain ⟨rfl, hlt, -⟩ := checkedSum_eq_ok.1 hold
    cases h
    cases free with
    | false => simp at hnot
    | true =>
      refine ⟨rfl, hlt, fun recorded hmem => ?_, not_lt.1 hsize, hcontains⟩
      rw [Option.mem_def] at hmem
      simpa [hmem] using hrecorded

/-- A range that an install takes for what the shrink freed: the shrink ran in this session, or the
journal says that an earlier one completed it. -/
inductive FreedRange (host : Host) (plan : InstallerPlan) (sectorSize : ℕ) (s' : Session) :
    ℕ × ℕ → Prop
  | shrunk {s : Session} {partition : String} {probe : PartitionProbe} {ends : ℕ × ℕ}
      (h : shrinkNtfs host plan partition probe sectorSize s = (.ok ends, s')) :
      FreedRange host plan sectorSize s' ends
  | resumed {s : Session} {snapshot : LsblkSnapshot} {probe : PartitionProbe} {ends : ℕ × ℕ}
      (h : ntfsShrinkResumeWindow host plan snapshot probe sectorSize s = (.ok (some ends), s')) :
      FreedRange host plan sectorSize s' ends

/-- No region reaches the last MiB of the 64-bit range. -/
theorem endBytes_le_of_mem_freeRegions {snapshot : LsblkSnapshot} {disk : String}
    {regions : List FreeRegionRecord} {region : FreeRegionRecord}
    (h : freeRegions snapshot disk sectorSize = .ok regions) (hmem : region ∈ regions) :
    region.endBytes ≤ 2 ^ 64 - 2 ^ 20 := by
  obtain ⟨diskSize, isGpt, gap, hdisk, hend, hregion⟩ := gap_of_mem_freeRegions h hmem
  obtain ⟨-, rfl⟩ := (alignedRegion_eq_some_iff (supportedSectorSize_of_freeRegions h).1).1 hregion
  have hmax := diskMetadata_lt hdisk
  dsimp only
  unfold alignDown regionAlignBytes
  omega

theorem containsFreeRegion_eq_ok_true {snapshot : LsblkSnapshot} {disk : String}
    (h : containsFreeRegion snapshot disk start stop sectorSize = .ok true) :
    ∃ regions, freeRegions snapshot disk sectorSize = .ok regions ∧
      ∃ region ∈ regions, region.startBytes ≤ start ∧ stop ≤ region.endBytes := by
  unfold containsFreeRegion at h
  split_ifs at h
  · cases h
  obtain ⟨regions, hregions, h⟩ := Check.bind_eq_ok.1 h
  refine ⟨regions, hregions, ?_⟩
  have hany : (regions.any fun region =>
      decide (region.startBytes ≤ start) && decide (stop ≤ region.endBytes)) = true :=
    Except.ok.inj h
  simpa using hany

/-- The range is as long as the plan asks for. -/
theorem FreedRange.length {ends : ℕ × ℕ} (h : FreedRange host plan sectorSize s' ends) :
    ends.2 = ends.1 + plan.resizeBytes ∧ ends.2 < 2 ^ 64 := by
  cases h with
  | shrunk h =>
    obtain ⟨hallowed, rfl, hlt⟩ := shrinkNtfs_eq_ok h
    have hfits := hallowed.fits
    dsimp only at hlt ⊢
    omega
  | resumed h =>
    obtain ⟨rfl, hlt, -, -, hfree⟩ := ntfsShrinkResumeWindow_eq_some h
    obtain ⟨regions, hregions, region, hregion, -, hstop⟩ := containsFreeRegion_eq_ok_true hfree
    have hend := endBytes_le_of_mem_freeRegions hregions hregion
    dsimp only at hlt hstop ⊢
    -- a sum that saturates would end behind every region
    unfold satAddU64 at *
    omega

/-- What a request for a shrink becomes. -/
theorem resizeBytes_of_buildPlan {input : InstallerPlanInput} (h : Plan.buildPlan input = .ok plan)
    (hmode : plan.mode = .resizeNtfs) :
    32 ≤ input.resizeGib.toInt ∧ plan.resizeBytes = input.resizeGib.toInt.toNat * 1024 ^ 3 := by
  obtain ⟨-, -, -, hresize, -⟩ := Plan.buildPlan_eq_ok_iff.1 h
  rw [hmode] at hresize
  obtain ⟨device, -, -, hmin, hbytes, -⟩ := Plan.planResize_eq_ok hresize
  exact ⟨hmin, hbytes⟩

theorem supportedSectorSize_le (h : supportedSectorSize sectorSize = true) : sectorSize ≤ 4096 := by
  simp only [supportedSectorSize, Bool.or_eq_true, beq_iff_eq] at h
  omega

/-- The checks ask for 32 GiB, and for 1 MiB more where there is no BIOS boot partition. -/
theorem passes_sizeChecks_iff {hasBiosBoot : Bool} (hsector : supportedSectorSize sectorSize = true)
    (hstop : stop < 2 ^ 64) (hmin : minKythosBytes ≤ stop - start) :
    Passes (sizeChecks hasBiosBoot start stop sectorSize) ↔
      hasBiosBoot = true ∨ minKythosBytes + biosBootBytes ≤ stop - start := by
  have hsize := supportedSectorSize_le hsector
  have hsat : satAddU64 start biosBootBytes = start + biosBootBytes := by
    unfold satAddU64 biosBootBytes minKythosBytes at *
    omega
  rw [passes_sizeChecks, hsat]
  unfold minKythosBytes biosBootBytes at *
  cases hasBiosBoot with
  | true =>
    simp only [if_true, reduceCtorEq, false_implies, true_or, iff_true, true_and]
    omega
  | false =>
    simp only [Bool.false_eq_true, if_false, false_or, forall_const]
    omega

/-- On a GPT disk without a BIOS boot partition a region has room for one. -/
theorem requiredBytes_gpt {snapshot : LsblkSnapshot}
    (h : hasBiosBootPartition snapshot sectorSize = .ok false) :
    requiredBytes snapshot true = minKythosBytes + biosBootBytes := by
  unfold hasBiosBootPartition at h
  obtain ⟨partitions, hpartitions, h⟩ := Check.bind_eq_ok.1 h
  unfold parsePartitions at hpartitions
  obtain ⟨⟨⟩, -, hpartitions⟩ := Check.bind_eq_ok.1 hpartitions
  have hany := Except.ok.inj h
  rw [← Except.ok.inj hpartitions] at hany
  unfold requiredBytes
  rw [hany]
  rfl

/-- A request for a shrink passes the checks behind the shrink when the disk has a BIOS boot
partition or at least 33 GiB are asked for. A free region passes them when the disk has a BIOS boot
partition, has a GPT, or the region has 1 MiB to spare. -/
theorem sizeChecks_iff {sectorSize : ℕ} (hsector : supportedSectorSize sectorSize = true)
    (host : Host) (plan : InstallerPlan) (s : Session) (hasBiosBoot : Bool)
    (hbios : hasBiosBootPartition (s.drive.snapshot plan.disk) sectorSize = .ok hasBiosBoot) :
    (∀ input ends, Plan.buildPlan input = .ok plan → plan.mode = .resizeNtfs →
      FreedRange host plan sectorSize s ends →
      (Passes (sizeChecks hasBiosBoot ends.1 ends.2 sectorSize) ↔
        hasBiosBoot = true ∨ 33 ≤ input.resizeGib.toInt)) ∧
    (∀ regions region diskSize isGpt,
      freeRegions (s.drive.snapshot plan.disk) plan.disk sectorSize = .ok regions →
      region ∈ regions →
      diskMetadata (s.drive.snapshot plan.disk) plan.disk = .ok (diskSize, isGpt) →
      (Passes (sizeChecks hasBiosBoot region.startBytes region.endBytes sectorSize) ↔
        hasBiosBoot = true ∨ isGpt = true ∨ minKythosBytes + biosBootBytes ≤ region.sizeBytes)) ∧
    ∀ start stop,
      (Passes (sizeChecks hasBiosBoot start stop sectorSize) →
        createTargetPartition host plan start stop sectorSize s =
          makeTarget host plan start stop sectorSize s) ∧
      (¬ Passes (sizeChecks hasBiosBoot start stop sectorSize) → ∀ target s',
        createTargetPartition host plan start stop sectorSize s ≠ (.ok target, s')) := by
  refine ⟨fun input ends hplan hmode hrange => ?_, ?_, fun start stop => ⟨?_, ?_⟩⟩
  · obtain ⟨hgib, hbytes⟩ := resizeBytes_of_buildPlan hplan hmode
    obtain ⟨hlength, hlt⟩ := hrange.length
    have hdiff : ends.2 - ends.1 = input.resizeGib.toInt.toNat * 1024 ^ 3 := by omega
    rw [passes_sizeChecks_iff hsector hlt]
    · rw [hdiff]
      unfold minKythosBytes biosBootBytes
      apply or_congr_right
      omega
    · rw [hdiff]
      unfold minKythosBytes
      omega
  · intro regions region diskSize isGpt hregions hregion hdisk
    have hend := endBytes_le_of_mem_freeRegions hregions hregion
    obtain ⟨diskSize', isGpt', gap, hdisk', -, haligned⟩ := gap_of_mem_freeRegions hregions hregion
    cases hdisk.symm.trans hdisk'
    obtain ⟨⟨-, hsize⟩, rfl⟩ := (alignedRegion_eq_some_iff hsector).1 haligned
    have hmin : minKythosBytes ≤ requiredBytes (s.drive.snapshot plan.disk) isGpt :=
      Nat.le_add_right _ _
    dsimp only at hend ⊢
    rw [passes_sizeChecks_iff hsector (by omega) (by omega)]
    constructor
    · rintro (hboot | hroom)
      · exact .inl hboot
      · exact .inr (.inr hroom)
    · rintro (hboot | hgpt | hroom)
      · exact .inl hboot
      · -- on a GPT disk without one the region has the MiB
        cases hasBiosBoot with
        | true => exact .inl rfl
        | false =>
          rw [hgpt, requiredBytes_gpt hbios] at hsize
          exact .inr hsize
      · exact .inr hroom
  · exact createTargetPartition_of_passes hbios
  · exact fun h target s' => createTargetPartition_of_refused hbios h

/-! ### The alignment checks -/

/-- The partitions that `create_target_partition` makes in a range, by start and size. -/
def targetExtents (hasBiosBoot : Bool) (ends : ℕ × ℕ) : List (ℕ × ℕ) :=
  if hasBiosBoot then [(ends.1, ends.2 - ends.1)]
  else [(ends.1, biosBootBytes),
    (satAddU64 ends.1 biosBootBytes, ends.2 - satAddU64 ends.1 biosBootBytes)]

/-- What follows a shrink passes the alignment check: the new boundary of the partition, and the
partitions behind it up to its old end. -/
structure PlansPass (plan : InstallerPlan) (probe : PartitionProbe) (sectorSize : ℕ)
    (hasBiosBoot : Bool) (ends : ℕ × ℕ) : Prop where
  resize : Passes (partitionEnd probe.startBytes
    (.ofNat (probe.sizeBytes.toNat - plan.resizeBytes)) sectorSize)
  /-- The ends of the freed range are `u64` values. -/
  range : ends.1 < 2 ^ 64 ∧ ends.2 < 2 ^ 64
  create : ∀ extent ∈ targetExtents hasBiosBoot ends,
    Passes (partitionEnd (.ofNat extent.1) (.ofNat extent.2) sectorSize)

/-- A command that shrinks the filesystem of a partition only runs behind the checks. -/
theorem shrinkAllowed_of_ran {partition : String} {probe : PartitionProbe} {newSize : UInt64}
    {stage : String} (hold : .filesystemResize partition "ntfs" newSize stage ∉ s.ran)
    (hran : .filesystemResize partition "ntfs" newSize stage ∈
      (shrinkNtfs host plan partition probe sectorSize s).2.ran) :
    ShrinkAllowed plan probe sectorSize := by
  have hframe : Frame (Along fun operation =>
      ∀ newSize stage, operation = .filesystemResize partition "ntfs" newSize stage →
        ShrinkAllowed plan probe sectorSize)
      (shrinkNtfs host plan partition probe sectorSize) := by
    apply shrinkNtfs_along
    · rintro operation hharmless - newSize stage rfl
      exact hharmless.elim
    · exact fun hallowed _ _ _ _ => hallowed
    · intro _ number start partuuid newSize' stage h
      cases h
    · trivial
  obtain ⟨⟨new, hnew, hall⟩, -⟩ := hframe s
  rw [hnew, List.mem_append] at hran
  exact hall _ (hran.resolve_right hold) newSize stage rfl

/-- Once the shrink has begun, the boundary and the new partitions pass the alignment check exactly
when the partition begins at a multiple of 1 MiB behind the first byte, its size is a multiple of
1 MiB, and its end is in range. -/
theorem shrink_plans_iff {input : InstallerPlanInput} (hplan : Plan.buildPlan input = .ok plan)
    (hmode : plan.mode = .resizeNtfs) (hsector : supportedSectorSize sectorSize = true)
    {partition : String} {probe : PartitionProbe} {newSize : UInt64}
    (hold : .filesystemResize partition "ntfs" newSize "resize" ∉ s.ran)
    (hbegun : .filesystemResize partition "ntfs" newSize "resize" ∈
      (shrinkNtfs host plan partition probe sectorSize s).2.ran) (hasBiosBoot : Bool) :
    PlansPass plan probe sectorSize hasBiosBoot
        (probe.startBytes.toNat + (probe.sizeBytes.toNat - plan.resizeBytes),
          probe.startBytes.toNat + probe.sizeBytes.toNat) ↔
      probe.startBytes.toNat ≠ 0 ∧ partitionAlignBytes ∣ probe.startBytes.toNat ∧
        partitionAlignBytes ∣ probe.sizeBytes.toNat ∧
        probe.startBytes.toNat + probe.sizeBytes.toNat < 2 ^ 64 := by
  obtain ⟨hfits, hwindows, -⟩ := shrinkAllowed_of_ran hold hbegun
  obtain ⟨hgib, hbytes⟩ := resizeBytes_of_buildPlan hplan hmode
  have hresize : partitionAlignBytes ∣ plan.resizeBytes := by
    rw [hbytes]
    exact Dvd.dvd.mul_left (by decide) _
  have hsize := probe.sizeBytes.toNat_lt
  have hofNat : ∀ {n : ℕ}, n < 2 ^ 64 → (UInt64.ofNat n).toNat = n := UInt64.toNat_ofNat_of_lt'
  constructor
  · rintro ⟨hpass, ⟨-, hend⟩, -⟩
    obtain ⟨hne, -, hstart, hleft, -⟩ := (passes_partitionEnd hsector).1 hpass
    rw [hofNat (by omega)] at hleft
    refine ⟨hne, hstart, ?_, hend⟩
    have hsum := Nat.dvd_add hleft hresize
    rwa [Nat.sub_add_cancel hfits] at hsum
  · rintro ⟨hne, hstart, hdvd, hend⟩
    have hleft : partitionAlignBytes ∣ probe.sizeBytes.toNat - plan.resizeBytes :=
      Nat.dvd_sub hdvd hresize
    have hboundary : partitionAlignBytes ∣
        probe.startBytes.toNat + (probe.sizeBytes.toNat - plan.resizeBytes) :=
      Nat.dvd_add hstart hleft
    have hfreed : probe.startBytes.toNat + probe.sizeBytes.toNat -
        (probe.startBytes.toNat + (probe.sizeBytes.toNat - plan.resizeBytes)) =
          plan.resizeBytes := by omega
    -- an aligned extent in the freed range passes
    have hpass : ∀ {first size : ℕ}, first ≠ 0 → partitionAlignBytes ≤ size →
        partitionAlignBytes ∣ first → partitionAlignBytes ∣ size →
        first + size ≤ probe.startBytes.toNat + probe.sizeBytes.toNat →
        Passes (partitionEnd (.ofNat first) (.ofNat size) sectorSize) := by
      intro first size hfirst hlarge hdvdFirst hdvdSize hinside
      rw [passes_partitionEnd hsector, hofNat (by omega), hofNat (by omega)]
      exact ⟨hfirst, hlarge, hdvdFirst, hdvdSize, by omega⟩
    unfold minWindowsBytes at hwindows
    refine ⟨?_, ⟨by dsimp only; omega, hend⟩, ?_⟩
    · have hlarge : partitionAlignBytes ≤ probe.sizeBytes.toNat - plan.resizeBytes := by
        unfold partitionAlignBytes
        omega
      have hself := hpass hne hlarge hstart hleft (by omega)
      rwa [UInt64.ofNat_toNat] at hself
    · unfold targetExtents
      cases hasBiosBoot with
      | true =>
        simp only [if_true, List.mem_singleton, forall_eq, hfreed]
        exact hpass (by omega) (by unfold partitionAlignBytes; omega) hboundary hresize (by omega)
      | false =>
        have hsat : satAddU64 (probe.startBytes.toNat +
            (probe.sizeBytes.toNat - plan.resizeBytes)) biosBootBytes =
            probe.startBytes.toNat + (probe.sizeBytes.toNat - plan.resizeBytes) +
              biosBootBytes := by
          unfold satAddU64
          apply min_eq_right
          unfold biosBootBytes
          omega
        have hrest : probe.startBytes.toNat + probe.sizeBytes.toNat -
            (probe.startBytes.toNat + (probe.sizeBytes.toNat - plan.resizeBytes) +
              biosBootBytes) = plan.resizeBytes - biosBootBytes := by
          rw [Nat.sub_add_eq, hfreed]
        have hboot : partitionAlignBytes ∣ biosBootBytes := by decide
        have hbootSize : biosBootBytes = 1048576 := by decide
        have halignSize : partitionAlignBytes = 1048576 := by decide
        simp only [Bool.false_eq_true, if_false, List.mem_cons, List.not_mem_nil, or_false,
          forall_eq_or_imp, forall_eq, hsat, hrest]
        refine ⟨hpass (by omega) (by omega) hboundary hboot (by omega),
          hpass (by omega) (by omega) (Nat.dvd_add hboundary hboot)
            (Nat.dvd_sub hresize hboot) (by omega)⟩

/-! ### A Windows disk -/

/-- A disk of 200 GiB with an EFI system partition and, at 512 MiB, 150 GiB of NTFS and some sectors
of 512 bytes. -/
def windowsDrive (sectors : UInt64) : Drive where
  size := 0x3200000000
  pttype := some "gpt"
  partitions :=
    [{ name := some "/dev/sda1", partn := some 1, deviceType := some "part"
       pkname := some "/dev/sda", start := some 2048, size := some 0x1ff00000
       fstype := some "vfat", parttype := some efiPartGuid, partuuid := some "0d2c3f7a-01" },
     { name := some "/dev/sda2", partn := some 2, deviceType := some "part"
       pkname := some "/dev/sda", start := some 0x100000, size := some (0x2580000000 + 512 * sectors)
       fstype := some "ntfs", partuuid := some "0d2c3f7a-02" }]

/-- A machine on which no call fails. -/
def windowsHost : Host where
  newPartition drive :=
    { name := some ("/dev/sda" ++ toString (drive.partitions.length + 1))
      partn := some (.ofNat (drive.partitions.length + 1)), partuuid := some "0d2c3f7a-03" }

/-- The session of an install on that disk, with an empty journal. -/
def windowsSession (sectors : UInt64) : Session where
  drive := windowsDrive sectors
  files _ := .document ({} : JournalState).document
  durableJournal := some ⟨"/run/kyth-installer/alongside-target"⟩

/-- A request to shrink the NTFS partition. -/
def shrinkInput (resizeGib : Int64) : InstallerPlanInput :=
  { disk := "/dev/sda", installMode := "resize_ntfs", resizePartition := "/dev/sda2", resizeGib }

/-- The plan of such a request. -/
def shrinkPlan (gib : ℕ) : InstallerPlan where
  mode := .resizeNtfs
  disk := "/dev/sda"
  targetPartition := none
  resizePartition := some "/dev/sda2"
  resizeBytes := gib * 1024 ^ 3
  freeRegionStart := none
  freeRegionEnd := none
  preShrinkBytes := none
  targetDiskSerial := none
  targetDiskModel := none
  targetDiskSizeBytes := none
  flatpaks := []

/-- The NTFS partition as it is probed. -/
def windowsProbe (sectors : UInt64) : PartitionProbe where
  name := "/dev/sda2"
  number := 2
  sizeBytes := 0x2580000000 + 512 * sectors
  startBytes := 0x20000000
  fstype := "ntfs"
  label := ""
  partuuid := "0d2c3f7a-02"
  efi := false
  current := false
  inUse := false
  readOnly := false

/-- The shrink of that partition by 32 GiB. -/
def windowsShrink : Except Stop (ℕ × ℕ) × Session :=
  shrinkNtfs windowsHost (shrinkPlan 32) "/dev/sda2" (windowsProbe 0) 512 (windowsSession 0)

/-- It frees the end of the partition, and the disk has no BIOS boot partition. -/
theorem windowsShrink_result :
    windowsShrink.1 = .ok (0x1da0000000, 0x25a0000000) ∧
      hasBiosBootPartition (windowsShrink.2.drive.snapshot (shrinkPlan 32).disk) 512 = .ok false ∧
      .filesystemResize "/dev/sda2" "ntfs" 0x1d80000000 "resize" ∈ windowsShrink.2.ran := by
  decide +kernel

theorem windowsShrink_range : FreedRange windowsHost (shrinkPlan 32) 512 windowsShrink.2
    (0x1da0000000, 0x25a0000000) := by
  have hrun := (Prod.mk.eta (p := windowsShrink)).symm
  rw [windowsShrink_result.1] at hrun
  generalize windowsShrink.2 = s' at hrun ⊢
  unfold windowsShrink at hrun
  exact .shrunk hrun

theorem buildPlan_shrinkInput : Plan.buildPlan (shrinkInput 32) = .ok (shrinkPlan 32) := by
  decide

/-- Without a BIOS boot partition 32 GiB do not pass. -/
theorem thirty_two_gib_refused :
    Passes (sizeChecks false 0x1da0000000 0x25a0000000 512) ↔
      false = true ∨ 33 ≤ (shrinkInput 32).resizeGib.toInt :=
  (sizeChecks_iff (by decide) windowsHost (shrinkPlan 32) windowsShrink.2 false
    windowsShrink_result.2.1).1 (shrinkInput 32) (0x1da0000000, 0x25a0000000)
    buildPlan_shrinkInput rfl windowsShrink_range

/-- `build_plan` accepts 32 GiB. The filesystem is shrunk, and then the freed range is too small. -/
theorem shrunk_without_room :
    Plan.buildPlan (shrinkInput 32) = .ok (shrinkPlan 32) ∧
      .filesystemResize "/dev/sda2" "ntfs" 0x1d80000000 "resize" ∈
        (resizeNtfsTarget windowsHost (shrinkPlan 32) (windowsSession 0)).2.ran ∧
      (resizeNtfsTarget windowsHost (shrinkPlan 32) (windowsSession 0)).1 =
        .error (.failed "free-space target is smaller than the KythOS minimum") := by
  decide +kernel

theorem aligned_shrink_plans :
    PlansPass (shrinkPlan 32) (windowsProbe 0) 512 false (0x1da0000000, 0x25a0000000) := by
  have hold : .filesystemResize "/dev/sda2" "ntfs" 0x1d80000000 "resize" ∉
      (windowsSession 0).ran := by decide
  have hbegun := windowsShrink_result.2.2
  unfold windowsShrink at hbegun
  exact (shrink_plans_iff buildPlan_shrinkInput rfl (by decide) hold hbegun false).2
    (by decide)

/-- A partition of 150 GiB and one sector leaves whole sectors when it is shrunk by 40 GiB, so its
filesystem is. The table is then refused the boundary. -/
theorem shrunk_out_of_line :
    Plan.buildPlan (shrinkInput 40) = .ok (shrinkPlan 40) ∧
      .filesystemResize "/dev/sda2" "ntfs" 0x1b80000200 "resize" ∈
        (resizeNtfsTarget windowsHost (shrinkPlan 40) (windowsSession 1)).2.ran ∧
      partitionEnd (windowsProbe 1).startBytes 0x1b80000200 512 =
        .error "partition geometry is not aligned to 1 MiB." ∧
      (resizeNtfsTarget windowsHost (shrinkPlan 40) (windowsSession 1)).1 =
        .error (.failed "disk helper exited with status exit status: 1") := by
  decide +kernel

end Kyth.Executor

import Kyth.Upgrade.Checked

/-!
# Counting a run (`safe_upgrade_bin.rs`)

What `bootc upgrade` says decides how far the counts go: the blobs that are done and the steps of the
deployment are counted line by line, and the sizes of the blobs are added up. `counts_fit` says which texts
no addition exceeds 64 bits for.
-/

namespace Kyth.Upgrade

open Binary64 Boundary Overflow Str
open Kyth.Json (Value)

variable {size : Float → List Char → UInt64} {fromStr : String → Option Value} {line lower : List Char}
  {c c' : StageCounts} {phase : StagePhase} {fragment : Fragment} {before after fragments : List Fragment}
  {state : StageProgress}

/-! ### What a fragment says -/

/-- The number of layers that a line announces. -/
def neededOf (lower : List Char) : Option UInt64 :=
  (((behind "layers needed:".toList lower).bind fun rest => (splitWhitespace rest).head?).bind fun token =>
    parseU64 (String.ofList (trimMatches (fun d => !isAsciiDigit d) token))).filter fun count => 0 < count

namespace Fragment

/-- The fragment says that a blob is there. -/
def saysDone (fragment : Fragment) : Bool :=
  (visibleLine fragment.text).any fun line => saysBlobDone (line.flatMap lowered)

/-- The fragment names a step of the deployment. -/
def saysStep (fragment : Fragment) : Bool :=
  (visibleLine fragment.text).any fun line => saysDeploy (line.flatMap lowered)

/-- The number of layers that the fragment announces. -/
def needed (fragment : Fragment) : Option UInt64 :=
  (visibleLine fragment.text).bind fun line => neededOf (line.flatMap lowered)

/-- The bar that the fragment shows. -/
def bar (size : Float → List Char → UInt64) (fragment : Fragment) : Option (String × UInt64 × UInt64) :=
  (visibleLine fragment.text).bind (barOf size)

/-- The fragment is a string that can be held in memory, in lower case as well. -/
def InMemory (fragment : Fragment) : Prop :=
  ∀ line ∈ visibleLine fragment.text,
    byteLength line < 2 ^ 63 ∧ byteLength (line.flatMap lowered) < 2 ^ 63

end Fragment

/-- The size that was last announced of each blob. -/
def sizeTable (size : Float → List Char → UInt64) (fragments : List Fragment) :
    AList fun _ : String => UInt64 :=
  fragments.foldl (fun table fragment =>
    match fragment.bar size with
    | none => table
    | some bar => table.insert bar.1 bar.2.2) ∅

/-- The sizes of all blobs together. -/
def announced (size : Float → List Char → UInt64) (fragments : List Fragment) : ℕ :=
  total ((sizeTable size fragments).entries.map fun blob => blob.2)

/-- The fragments of a run give no number that 64 bits cannot hold. -/
structure FitsIn64 (size : Float → List Char → UInt64) (fragments : List Fragment) : Prop where
  /-- The blobs that are done. -/
  done : fragments.countP Fragment.saysDone < 2 ^ 64
  /-- The number of the layer that is loaded. -/
  layer : fragments.countP Fragment.saysDone + 1 < 2 ^ 64 ∨
    ∀ fragment ∈ fragments, fragment.needed ≠ some (UInt64.ofNat (2 ^ 64 - 1))
  /-- The steps of the deployment. -/
  steps : fragments.countP Fragment.saysStep < 2 ^ 64
  /-- The sizes, as long as they are added up. -/
  sizes : ∀ before after, fragments = before ++ after →
    (∀ fragment ∈ before, fragment.saysStep = false) → announced size before < 2 ^ 64

/-! ### Positions -/

theorem inFront_append {needle text front : List Char} (h : inFront needle text = some front) :
    byteLength front + byteLength needle ≤ byteLength text := by
  induction text generalizing front with
  | nil =>
    rw [inFront] at h
    split_ifs at h with hneedle
    obtain rfl := Option.some.inj h
    rw [hneedle]
    exact Nat.le_refl _
  | cons c text ih =>
    rw [inFront] at h
    split_ifs at h with hprefix
    · obtain rfl := Option.some.inj h
      obtain ⟨rest, hrest⟩ := List.isPrefixOf_iff_prefix.1 hprefix
      rw [← hrest, byteLength_append, byteLength_nil]
      omega
    · obtain ⟨front, hfront, rfl⟩ := Option.map_eq_some_iff.1 h
      have hle := ih hfront
      rw [byteLength_cons, byteLength_cons]
      omega

theorem checkedTotals_of_lt (h : byteLength lower < 2 ^ 63) :
    checkedTotals lower c = some (countTotals lower c) := by
  unfold checkedTotals
  cases hfront : inFront "layers needed:".toList lower with
  | none => rfl
  | some front =>
    have hle := inFront_append hfront
    dsimp only
    rw [checkedIndex_of_lt (by omega)]
    rfl

theorem checkedBar_of_lt (h : byteLength line < 2 ^ 63) :
    checkedBar size line c = some (countBarWith size line c) := by
  have hslash : byteLength (line.takeWhile (· != '/')) ≤ byteLength line := by
    conv_rhs => rw [← List.takeWhile_append_dropWhile (p := (· != '/')) (l := line)]
    rw [byteLength_append]
    omega
  unfold checkedBar
  dsimp only
  split_ifs with hbar
  · rw [checkedIndex_of_lt (by omega)]
    rfl
  · rw [countBarWith, barOf, if_neg hbar]

/-! ### The counts behind a line -/

/-- The counts behind a line, where every number fits. -/
def countWith (size : Float → List Char → UInt64) (line : List Char) (c : StageCounts) : StageCounts :=
  let lower := line.flatMap lowered
  countDeploy lower (countFinalized lower (countBlob line lower (countBarWith size line
    (countTotals lower c))))

theorem countTotals_eq (lower : List Char) (c : StageCounts) :
    countTotals lower c = { c with blobsNeeded := (neededOf lower).getD c.blobsNeeded } := by
  unfold countTotals neededOf
  dsimp only
  cases (((behind "layers needed:".toList lower).bind fun rest => (splitWhitespace rest).head?).bind
      fun token => parseU64 (String.ofList (trimMatches (fun d => !isAsciiDigit d) token))) with
  | none => rfl
  | some count =>
    dsimp only
    split_ifs with hpos
    · rw [Option.filter_some_pos (by simpa using hpos)]
      rfl
    · rw [Option.filter_some_neg (by simpa using hpos)]
      rfl

theorem countFinalized_eq (lower : List Char) (c : StageCounts) :
    ∃ finalized, countFinalized lower c = { c with fetchFinalized := finalized } := by
  unfold countFinalized
  dsimp only
  split_ifs
  · exact ⟨true, rfl⟩
  · exact ⟨c.fetchFinalized, rfl⟩

theorem countDeploy_eq (lower : List Char) (c : StageCounts) :
    countDeploy lower c =
      { c with deploySteps := if saysDeploy lower then c.deploySteps + 1 else c.deploySteps } := by
  unfold countDeploy saysDeploy
  split_ifs
  · rfl
  · rfl

/-- A line about a blob takes at most one blob off the bars. -/
theorem countBlob_eq (line lower : List Char) (c : StageCounts) :
    ∃ started current, countBlob line lower c =
        { c with
          blobsDone := if saysBlobDone lower then c.blobsDone + 1 else c.blobsDone
          blobsStarted := started
          blobCurrent := current } ∧
      ∀ id ∈ current, id ∈ c.blobCurrent := by
  unfold countBlob saysBlobDone
  dsimp only
  by_cases hcopy : (startsWith (String.ofList lower) "copying blob" ||
      startsWith (String.ofList lower) "copying config") = true
  · by_cases hdone : (contains (String.ofList lower) "done" ||
        contains (String.ofList lower) "already exists" || contains (String.ofList lower) "skipped") = true
    · simp only [hcopy, hdone, if_true, Bool.and_true]
      cases (splitWhitespace line)[2]?.filter fun digest =>
          decide (7 ≤ (String.ofList digest).utf8ByteSize) with
      | none => exact ⟨_, _, rfl, fun id hid => hid⟩
      | some digest => exact ⟨_, _, rfl, fun id hid => (AList.mem_erase.1 hid).2⟩
    · simp only [hcopy, hdone, if_true, Bool.and_false, Bool.false_eq_true, if_false]
      cases (splitWhitespace line)[2]?.filter fun digest =>
          decide (7 ≤ (String.ofList digest).utf8ByteSize) with
      | none => exact ⟨_, _, rfl, fun id hid => hid⟩
      | some digest => exact ⟨_, _, rfl, fun id hid => hid⟩
  · simp only [hcopy, Bool.false_and, Bool.false_eq_true, if_false]
    exact ⟨_, _, rfl, fun id hid => hid⟩

/-- What a line changes of the counts that are bounded. -/
structure Counts (size : Float → List Char → UInt64) (line : List Char) (c c' : StageCounts) : Prop where
  done : c'.blobsDone = if saysBlobDone (line.flatMap lowered) then c.blobsDone + 1 else c.blobsDone
  steps : c'.deploySteps = if saysDeploy (line.flatMap lowered) then c.deploySteps + 1 else c.deploySteps
  needed : c'.blobsNeeded = (neededOf (line.flatMap lowered)).getD c.blobsNeeded
  totals : c'.blobTotals = match barOf size line with
    | none => c.blobTotals
    | some bar => c.blobTotals.insert bar.1 bar.2.2
  current : ∀ id ∈ c'.blobCurrent, id ∈ c.blobCurrent ∨ ∃ bar ∈ barOf size line, id = bar.1

theorem counts_countWith (size : Float → List Char → UInt64) (line : List Char) (c : StageCounts) :
    Counts size line c (countWith size line c) := by
  obtain ⟨started, current, hblob, hcurrent⟩ := countBlob_eq line (line.flatMap lowered)
    (countBarWith size line (countTotals (line.flatMap lowered) c))
  obtain ⟨finalized, hfinalized⟩ := countFinalized_eq (line.flatMap lowered)
    (countBlob line (line.flatMap lowered) (countBarWith size line (countTotals (line.flatMap lowered) c)))
  rw [countWith, hfinalized, countDeploy_eq, hblob]
  rw [countTotals_eq] at hcurrent ⊢
  unfold countBarWith at hcurrent ⊢
  cases hbar : barOf size line with
  | none =>
    rw [hbar] at hcurrent
    exact ⟨rfl, rfl, rfl, by rw [hbar], fun id hid => .inl (hcurrent id hid)⟩
  | some bar =>
    rw [hbar] at hcurrent
    refine ⟨rfl, rfl, rfl, by rw [hbar]; rfl, fun id hid => ?_⟩
    rcases (AList.mem_insert _).1 (hcurrent id hid) with heq | hmem
    · exact .inr ⟨bar, hbar, heq⟩
    · exact .inl hmem

/-! ### The counts behind a run -/

/-- The counts say what the fragments so far said. -/
structure Counted (size : Float → List Char → UInt64) (before : List Fragment) (c : StageCounts) : Prop where
  done : c.blobsDone.toNat = before.countP Fragment.saysDone
  steps : c.deploySteps.toNat = before.countP Fragment.saysStep
  needed : c.blobsNeeded = 0 ∨ ∃ fragment ∈ before, fragment.needed = some c.blobsNeeded
  totals : c.blobTotals = sizeTable size before
  current : ∀ id ∈ c.blobCurrent, id ∈ c.blobTotals

theorem counted_start (size : Float → List Char → UInt64) : Counted size [] {} where
  done := rfl
  steps := rfl
  needed := .inl rfl
  totals := rfl
  current := fun _ hid => absurd hid (AList.notMem_empty _)

theorem sizeTable_concat (size : Float → List Char → UInt64) (before : List Fragment) (fragment : Fragment) :
    sizeTable size (before ++ [fragment]) = match fragment.bar size with
      | none => sizeTable size before
      | some bar => (sizeTable size before).insert bar.1 bar.2.2 := by
  cases hbar : fragment.bar size with
  | none => simp only [sizeTable, List.foldl_append, List.foldl_cons, List.foldl_nil, hbar]
  | some bar => simp only [sizeTable, List.foldl_append, List.foldl_cons, List.foldl_nil, hbar]

/-- A fragment without text counts nothing. -/
theorem Counted.blank (h : Counted size before c) (hblank : visibleLine fragment.text = none) :
    Counted size (before ++ [fragment]) c where
  done := by
    rw [List.countP_append, ← h.done]
    simp [Fragment.saysDone, hblank]
  steps := by
    rw [List.countP_append, ← h.steps]
    simp [Fragment.saysStep, hblank]
  needed := h.needed.imp_right fun hsaid =>
    hsaid.imp fun _ hfragment => ⟨List.mem_append_left _ hfragment.1, hfragment.2⟩
  totals := by
    rw [sizeTable_concat, Fragment.bar, hblank]
    exact h.totals
  current := h.current

/-- A number that counts fragments counts one more. -/
theorem toNat_count {n : UInt64} {p : Fragment → Bool} (hn : n.toNat = before.countP p)
    (hfits : (before ++ fragment :: after).countP p < 2 ^ 64) :
    ¬ (p fragment = true ∧ ¬ n.toNat + 1 < 2 ^ 64) ∧
      (if p fragment then n + 1 else n).toNat = (before ++ [fragment]).countP p := by
  have hone : (1 : UInt64).toNat = 1 := rfl
  rw [List.countP_append, List.countP_cons] at hfits
  rw [List.countP_append, List.countP_singleton, ← hn]
  cases hp : p fragment with
  | false => exact ⟨fun h => Bool.noConfusion h.1, rfl⟩
  | true =>
    rw [hp, if_pos rfl, ← hn] at hfits
    have hroom : n.toNat + 1 < 2 ^ 64 := by omega
    refine ⟨fun h => h.2 hroom, ?_⟩
    rw [if_pos rfl, if_pos rfl, toNat_add_of_lt (by rwa [hone]), hone]

/-- A visible fragment is counted, and no count exceeds 64 bits. -/
theorem Counted.step (h : Counted size before c) (hfits : FitsIn64 size (before ++ fragment :: after))
    (hmemory : fragment.InMemory) (hline : visibleLine fragment.text = some line) :
    checkedCount size line c = some (countWith size line c) ∧
      Counted size (before ++ [fragment]) (countWith size line c) := by
  obtain ⟨hlength, hlower⟩ := hmemory line hline
  have hcounts := counts_countWith size line c
  have hsaysDone : fragment.saysDone = saysBlobDone (line.flatMap lowered) := by
    rw [Fragment.saysDone, hline, Option.any_some]
  have hsaysStep : fragment.saysStep = saysDeploy (line.flatMap lowered) := by
    rw [Fragment.saysStep, hline, Option.any_some]
  have hneeded : fragment.needed = neededOf (line.flatMap lowered) := by
    rw [Fragment.needed, hline, Option.bind_some]
  have hbar : fragment.bar size = barOf size line := by
    rw [Fragment.bar, hline, Option.bind_some]
  obtain ⟨hroomDone, hdone⟩ := toNat_count h.done hfits.done
  obtain ⟨hroomSteps, hsteps⟩ := toNat_count h.steps hfits.steps
  rw [hsaysDone] at hroomDone hdone
  rw [hsaysStep] at hroomSteps hsteps
  constructor
  · -- no part of the line changes a count before it is one further
    obtain ⟨started, current, hblob, -⟩ := countBlob_eq line (line.flatMap lowered)
      (countBarWith size line (countTotals (line.flatMap lowered) c))
    obtain ⟨finalized, hfinalized⟩ := countFinalized_eq (line.flatMap lowered)
      (countBlob line (line.flatMap lowered)
        (countBarWith size line (countTotals (line.flatMap lowered) c)))
    have hbefore : (countBarWith size line (countTotals (line.flatMap lowered) c)).blobsDone = c.blobsDone ∧
        (countBarWith size line (countTotals (line.flatMap lowered) c)).deploySteps = c.deploySteps := by
      rw [countTotals_eq, countBarWith]
      split
      · exact ⟨rfl, rfl⟩
      · exact ⟨rfl, rfl⟩
    have hdeploy : (countFinalized (line.flatMap lowered) (countBlob line (line.flatMap lowered)
        (countBarWith size line (countTotals (line.flatMap lowered) c)))).deploySteps = c.deploySteps := by
      rw [hfinalized, hblob]
      exact hbefore.2
    unfold checkedCount
    dsimp only
    rw [checkedTotals_of_lt hlower, Option.bind_eq_bind, Option.bind_some, checkedBar_of_lt hlength,
      Option.bind_some, checkedBlob_eq, hbefore.1, if_neg hroomDone, Option.bind_some, checkedDeploy_eq,
      hdeploy, if_neg hroomSteps]
    rfl
  · refine ⟨by rw [hcounts.done, hdone], by rw [hcounts.steps, hsteps], ?_, ?_, ?_⟩
    · rw [hcounts.needed, ← hneeded]
      cases hsaid : fragment.needed with
      | none =>
        exact h.needed.imp_right fun hknown =>
          hknown.imp fun _ hmem => ⟨List.mem_append_left _ hmem.1, hmem.2⟩
      | some count => exact .inr ⟨fragment, by simp, hsaid⟩
    · rw [hcounts.totals, sizeTable_concat, hbar, h.totals]
    · intro id hid
      rw [hcounts.totals]
      cases hshown : barOf size line with
      | none =>
        rcases hcounts.current id hid with hmem | ⟨bar, hbar', -⟩
        · exact h.current id hmem
        · rw [hshown] at hbar'
          cases hbar'
      | some bar =>
        rw [AList.mem_insert]
        rcases hcounts.current id hid with hmem | ⟨bar', hbar', heq⟩
        · exact .inr (h.current id hmem)
        · rw [hshown] at hbar'
          cases hbar'
          exact .inl heq

/-! ### The sums of a report -/

theorem toNat_min_le (a b : UInt64) : (min a b).toNat ≤ a.toNat ∧ (min a b).toNat ≤ b.toNat := by
  change (if a ≤ b then a else b).toNat ≤ _ ∧ (if a ≤ b then a else b).toNat ≤ _
  split_ifs with hle
  · exact ⟨le_rfl, UInt64.le_iff_toNat_le.1 hle⟩
  · have hlt := UInt64.lt_iff_toNat_lt.1 (UInt64.not_le.1 hle)
    exact ⟨hlt.le, le_rfl⟩

/-- The bytes that are there are no more than those that were announced. -/
theorem total_present_le (hkeys : ∀ id ∈ c.blobCurrent, id ∈ c.blobTotals) :
    total c.present ≤ total c.sizes := by
  let known (id : String) : ℕ := ((c.blobTotals.lookup id).getD 0).toNat
  have hpresent : total c.present ≤ (c.blobCurrent.keys.map known).sum := by
    rw [total, StageCounts.present, List.map_map, AList.keys, List.keys, List.map_map]
    refine List.sum_le_sum fun blob hblob => ?_
    have hid := hkeys blob.1 (AList.mem_keys.1 (List.mem_keys_of_mem hblob))
    obtain ⟨bytes, hbytes⟩ := Option.isSome_iff_exists.1 (AList.lookup_isSome.2 hid)
    simp only [Function.comp_apply, known, hbytes, Option.getD_some]
    exact (toNat_min_le _ _).2
  have hsizes : (c.blobTotals.keys.map known).sum = total c.sizes := by
    rw [total, StageCounts.sizes, List.map_map, AList.keys, List.keys, List.map_map]
    congr 1
    refine List.map_congr_left fun blob hblob => ?_
    have hlookup : c.blobTotals.lookup blob.1 = some blob.2 := AList.mem_lookup_iff.2 hblob
    simp only [Function.comp_apply, known, hlookup, Option.getD_some]
  have hsubset : c.blobCurrent.keys ⊆ c.blobTotals.keys := fun id hid =>
    AList.mem_keys.2 (hkeys id (AList.mem_keys.1 hid))
  obtain ⟨ids, hperm, hsub⟩ := List.subperm_of_subset c.blobCurrent.keys_nodup hsubset
  calc total c.present ≤ (c.blobCurrent.keys.map known).sum := hpresent
    _ = (ids.map known).sum := ((hperm.map known).sum_eq).symm
    _ ≤ (c.blobTotals.keys.map known).sum := (hsub.map known).sum_le_sum fun _ _ => Nat.zero_le _
    _ = total c.sizes := hsizes

/-- As long as no step of the deployment is named, the sizes can be added up. -/
theorem Counted.sums (h : Counted size before c) (hfits : FitsIn64 size (before ++ after))
    (hsteps : ¬ 0 < c.deploySteps) :
    checkedSum c.present = some c.present.sum ∧ checkedSum c.sizes = some c.sizes.sum := by
  have hzero : before.countP Fragment.saysStep = 0 := by
    rw [← h.steps]
    rw [UInt64.lt_iff_toNat_lt] at hsteps
    exact Nat.eq_zero_of_not_pos hsteps
  have hnone : ∀ fragment ∈ before, fragment.saysStep = false := by
    simpa [List.countP_eq_zero] using hzero
  have hsizes : total c.sizes < 2 ^ 64 := by
    rw [StageCounts.sizes, h.totals]
    exact hfits.sizes before after rfl hnone
  exact ⟨checkedSum_of_lt ((total_present_le h.current).trans_lt hsizes), checkedSum_of_lt hsizes⟩

/-- The number of the layer that is loaded fits. -/
theorem Counted.layer (h : Counted size before c) (hfits : FitsIn64 size (before ++ after))
    (hpos : 0 < c.blobsNeeded) :
    checkedAdd (min c.blobsDone c.blobsNeeded) 1 = some (min c.blobsDone c.blobsNeeded + 1) := by
  have hone : (1 : UInt64).toNat = 1 := rfl
  obtain ⟨hdone, hneeded⟩ := toNat_min_le c.blobsDone c.blobsNeeded
  refine checkedAdd_of_lt ?_
  rw [hone]
  rcases hfits.layer with hroom | hlast
  · rw [List.countP_append, ← h.done] at hroom
    omega
  · rcases h.needed with hzero | ⟨fragment, hmem, hsaid⟩
    · rw [hzero] at hpos
      exact absurd hpos (by decide)
    · have hne := hlast fragment (List.mem_append_left _ hmem)
      rw [hsaid, Ne, Option.some_inj] at hne
      have hroom := toNat_add_one_lt_iff.2 hne
      omega

/-- A report is made without an overflow. -/
theorem Counted.report (h : Counted size before c) (hfits : FitsIn64 size (before ++ after)) :
    c.checkedPct = some c.pct ∧ checkedDetail c c.pct.2 = some (stageDetail c c.pct.2) := by
  constructor
  · have hsome : c.checkedPct.isSome = true := by
      unfold StageCounts.checkedPct
      by_cases hdeploy : 0 < c.deploySteps ∨ c.fetchFinalized = true
      · rw [if_pos hdeploy]
        rfl
      · rw [if_neg hdeploy]
        by_cases hneeded : 0 < c.blobsNeeded
        · rw [if_pos hneeded]
          rfl
        · obtain ⟨hpresent, hsizes⟩ := h.sums hfits fun hsteps => hdeploy (.inl hsteps)
          rw [if_neg hneeded, hpresent, hsizes]
          rfl
    obtain ⟨report, hreport⟩ := Option.isSome_iff_exists.1 hsome
    rw [hreport, StageCounts.checkedPct_eq_some hreport]
  · have hdownload : c.pct.2 ≠ .install → ¬ 0 < c.deploySteps := by
      intro hphase hsteps
      refine hphase ?_
      rw [StageCounts.pct, if_pos (.inl hsteps)]
      exact if_pos hsteps
    have hsome : (checkedDetail c c.pct.2).isSome = true := by
      unfold checkedDetail
      split_ifs with hinstall hneeded
      · rfl
      · obtain ⟨hpresent, hsizes⟩ := h.sums hfits (hdownload hinstall)
        rw [hsizes, hpresent, h.layer hfits hneeded, Option.bind_eq_bind, Option.bind_some,
          Option.bind_some]
        split_ifs
        · rfl
        · rfl
      · obtain ⟨hpresent, hsizes⟩ := h.sums hfits (hdownload hinstall)
        rw [hpresent, hsizes]
        rfl
    obtain ⟨detail, hdetail⟩ := Option.isSome_iff_exists.1 hsome
    rw [hdetail, checkedDetail_eq_some hdetail]

/-! ### Runs -/

/-- A fragment of a run is classified without an overflow. -/
theorem Counted.classified {state : StageProgress} (h : Counted size before state.toStageCounts)
    (hfits : FitsIn64 size (before ++ fragment :: after)) (hmemory : fragment.InMemory) :
    ∃ result, checkedFragment size fragment state = some result ∧
      Counted size (before ++ [fragment]) result.2.toStageCounts := by
  unfold checkedFragment
  cases hline : visibleLine fragment.text with
  | none => exact ⟨_, rfl, h.blank hline⟩
  | some line =>
    obtain ⟨hcounts, hcounted⟩ := h.step hfits hmemory hline
    rw [← List.singleton_append, ← List.append_assoc] at hfits
    obtain ⟨hpct, hdetail⟩ := hcounted.report hfits
    dsimp only
    rw [hcounts, Option.bind_eq_bind, Option.bind_some, hpct, Option.bind_eq_bind, Option.bind_some]
    by_cases hback : (countWith size line state.toStageCounts).pct.1 < state.lastPct ∧
        ¬ ((countWith size line state.toStageCounts).pct.2 = .install ∧ state.lastPct < 85)
    · rw [if_pos hback]
      exact ⟨_, rfl, hcounted⟩
    · rw [if_neg hback, hdetail, Option.bind_eq_bind, Option.bind_some]
      split_ifs
      · exact ⟨_, rfl, hcounted⟩
      · exact ⟨_, rfl, hcounted⟩

/-- The fragments of a run are classified without an overflow. -/
theorem Counted.run {state : StageProgress} (h : Counted size before state.toStageCounts)
    (hfits : FitsIn64 size (before ++ after)) (hmemory : ∀ fragment ∈ after, fragment.InMemory) :
    (checkedFragments size after state).isSome = true := by
  induction after generalizing before state with
  | nil => rfl
  | cons fragment after ih =>
    obtain ⟨result, hresult, hcounted⟩ := h.classified hfits (hmemory fragment List.mem_cons_self)
    rw [checkedFragments, List.foldlM_cons, hresult, Option.map_some, Option.bind_eq_bind, Option.bind_some]
    refine ih hcounted ?_ fun other hother => hmemory other (List.mem_cons_of_mem _ hother)
    rwa [List.append_assoc, List.singleton_append]

/-- The JSON lines of a run are classified without an overflow exactly if none is at the last step. -/
theorem isSome_checkedLines_iff (lines : List String) (json : JsonProgress) :
    (checkedLines fromStr lines json).isSome = true ↔ ∀ line ∈ lines, ¬ AtLastStep fromStr line := by
  induction lines generalizing json with
  | nil => exact iff_of_true rfl (List.forall_mem_nil _)
  | cons line lines ih =>
    rw [checkedLines, List.foldlM_cons, List.forall_mem_cons]
    by_cases hlast : AtLastStep fromStr line
    · rw [checkedJson_none hlast]
      exact iff_of_false Bool.false_ne_true fun h => h.1 hlast
    · rw [checkedJson_some hlast, and_iff_right hlast]
      exact ih _

/-- No addition exceeds 64 bits in a run whose texts give no larger number, whatever `parse_byte_size` makes
of a number and a unit. -/
theorem counts_fit (size : Float → List Char → UInt64) (fromStr : String → Option Value)
    (fragments : List Fragment) (lines : List String) (hmemory : ∀ fragment ∈ fragments, fragment.InMemory)
    (hfits : FitsIn64 size fragments) :
    (checkedFragments size fragments {}).isSome = true ∧
      ((checkedLines fromStr lines {}).isSome = true ↔ ∀ line ∈ lines, ¬ AtLastStep fromStr line) :=
  have hrun : FitsIn64 size ([] ++ fragments) := hfits
  ⟨(counted_start size).run hrun hmemory, isSome_checkedLines_iff lines {}⟩

/-- A line that says that the deployment is staged. -/
def stagedDeployment : Fragment where
  text := "Staged deployment\n"

/-- A pull at the last step that 64 bits can count. -/
def lastStep : Value :=
  .object [("type", .string "ProgressBytes"), ("task", .string "pulling"),
    ("steps", .number (.posInt (UInt64.ofNat (2 ^ 64 - 1))))]

def lastStepLine : String :=
  "\x7b\"type\":\"ProgressBytes\",\"task\":\"pulling\",\"steps\":18446744073709551615\x7d"

/-- A parser that reads this line. -/
def parseLastStep (text : String) : Option Value := if text = lastStepLine then some lastStep else none

theorem counts_fit_staged :
    (checkedFragments parseByteSize [stagedDeployment] {}).isSome = true ∧
      ((checkedLines parseLastStep ["done"] {}).isSome = true ↔
        ∀ line ∈ ["done"], ¬ AtLastStep parseLastStep line) := by
  have hline : visibleLine stagedDeployment.text = some "Staged deployment".toList := by decide
  have hstep : stagedDeployment.saysStep = true := by decide
  refine counts_fit parseByteSize parseLastStep [stagedDeployment] ["done"] ?_ ?_
  · rw [List.forall_mem_singleton]
    intro line hmem
    rw [hline, Option.mem_some_iff] at hmem
    subst hmem
    decide
  · have hcount : ∀ p, [stagedDeployment].countP p ≤ 1 := fun p => List.countP_le_length
    refine ⟨(hcount _).trans_lt (by decide), .inl ((Nat.succ_le_succ (hcount _)).trans_lt (by decide)),
      (hcount _).trans_lt (by decide), fun before after hsplit hnone => ?_⟩
    cases before with
    | nil =>
      rw [announced, sizeTable]
      decide
    | cons fragment before =>
      rw [List.cons_append, List.cons.injEq] at hsplit
      have hfalse := hnone fragment List.mem_cons_self
      rw [← hsplit.1, hstep] at hfalse
      cases hfalse

/-- The number of the layer after the last step does not fit. -/
theorem last_step_overflows :
    AtLastStep parseLastStep lastStepLine ∧ checkedLines parseLastStep [lastStepLine] {} = none := by
  have hlast : AtLastStep parseLastStep lastStepLine := by
    refine ⟨lastStep, ?_, ?_, ?_⟩
    · rw [parseLastStep, if_pos (by decide)]
    · decide
    · decide
  refine ⟨hlast, ?_⟩
  rw [checkedLines, List.foldlM_cons, checkedJson_none hlast]
  rfl

end Kyth.Upgrade

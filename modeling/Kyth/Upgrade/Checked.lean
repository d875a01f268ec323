import Kyth.Lib.Boundary
import Kyth.Lib.Overflow
import Kyth.Upgrade.Progress

/-!
# Progress with overflow checks (`safe_upgrade_bin.rs`)

The two parsers in a build that checks additions: there is no value where an addition of unsigned numbers
exceeds 64 bits, which is where the reader's thread panics. The size that is read from a number and a unit
is given. With `parseByteSize` for it, what the parsers return is what they return without the checks.
-/

namespace Kyth.Upgrade

open Binary64 Boundary Overflow Str
open Kyth.Json (Value)

variable {size : Float → List Char → UInt64} {fromStr : String → Option Value} {line lower : List Char}
  {c c' : StageCounts} {phase : StagePhase} {fragment : Fragment} {state : StageProgress}

/-- The text in front of the first occurrence of `needle`. -/
def inFront (needle : List Char) : List Char → Option (List Char)
  | [] => if needle = [] then some [] else none
  | c :: rest =>
      if needle.isPrefixOf (c :: rest) then some [] else (inFront needle rest).map (c :: ·)

/-! ### What the text of standard error counts -/

/-- The text behind the words begins at the sum of two positions. -/
def checkedTotals (lower : List Char) (c : StageCounts) : Option StageCounts :=
  match inFront "layers needed:".toList lower with
  | none => some (countTotals lower c)
  | some front => do
      let _ ← checkedIndex (byteLength front) (byteLength "layers needed:".toList)
      return countTotals lower c

/-- The name of a blob, its bytes so far, and its size. -/
def barOf (size : Float → List Char → UInt64) (line : List Char) : Option (String × UInt64 × UInt64) :=
  let name := (splitWhitespace line).headD []
  if name.length = 12 ∧ name.all isAsciiHexdigit = true ∧ '/' ∈ line then
    let left := (line.takeWhile (· != '/')).rdropWhile isWhitespace
    let leftUnit := left.rtakeWhile isAsciiAlphabetic
    let leftNum := (left.rdropWhile isAsciiAlphabetic).rtakeWhile isDecimal
    let right := (splitWhitespace ((line.dropWhile (· != '/')).drop 1)).headD []
    let rightNum := right.takeWhile isDecimal
    let rightUnit := (right.dropWhile isDecimal).takeWhile isAsciiAlphabetic
    match parseF64 leftNum, parseF64 rightNum with
    | some value, some total =>
        if leftUnit ≠ [] ∧ rightUnit ≠ [] ∧ 0.0 < total then
          some (String.ofList name, size value leftUnit, max (size total rightUnit) 1)
        else none
    | _, _ => none
  else none

/-- A progress bar is counted. -/
def recordBar (bar : String × UInt64 × UInt64) (c : StageCounts) : StageCounts :=
  { c with
    blobsStarted := insert bar.1 c.blobsStarted
    blobTotals := c.blobTotals.insert bar.1 bar.2.2
    blobCurrent := c.blobCurrent.insert bar.1
      (((c.blobCurrent.lookup bar.1).map fun known => max known bar.2.1).getD bar.2.1) }

/-- What a line with a bar adds to the counts. -/
def countBarWith (size : Float → List Char → UInt64) (line : List Char) (c : StageCounts) : StageCounts :=
  match barOf size line with
  | none => c
  | some bar => recordBar bar c

/-- The text behind the slash begins one byte further. -/
def checkedBar (size : Float → List Char → UInt64) (line : List Char) (c : StageCounts) :
    Option StageCounts :=
  let name := (splitWhitespace line).headD []
  if name.length = 12 ∧ name.all isAsciiHexdigit = true ∧ '/' ∈ line then do
    let _ ← checkedIndex (byteLength (line.takeWhile (· != '/'))) 1
    return countBarWith size line c
  else some c

def checkedBlob (line lower : List Char) (c : StageCounts) : Option StageCounts :=
  let text := String.ofList lower
  if startsWith text "copying blob" || startsWith text "copying config" then
    let done := contains text "done" || contains text "already exists" || contains text "skipped"
    match (splitWhitespace line)[2]?.filter fun digest => 7 ≤ (String.ofList digest).utf8ByteSize with
    | some digest =>
        let id := String.ofList (digest.take 12)
        if done then do
          let blobsDone ← checkedAdd c.blobsDone 1
          return { c with
            blobsDone
            blobsStarted := c.blobsStarted.erase id
            blobCurrent := c.blobCurrent.erase id }
        else some { c with blobsStarted := insert id c.blobsStarted }
    | none =>
        if done then do
          let blobsDone ← checkedAdd c.blobsDone 1
          return { c with blobsDone }
        else
          some { c with blobsStarted := insert ("blob-" ++ toString c.blobsStarted.card) c.blobsStarted }
  else some c

def checkedDeploy (lower : List Char) (c : StageCounts) : Option StageCounts :=
  if deployKeywords.any fun keyword => contains (String.ofList lower) keyword then do
    let deploySteps ← checkedAdd c.deploySteps 1
    return { c with deploySteps }
  else some c

def checkedCount (size : Float → List Char → UInt64) (line : List Char) (c : StageCounts) :
    Option StageCounts := do
  let lower := line.flatMap lowered
  let c ← checkedTotals lower c
  let c ← checkedBar size line c
  let c ← checkedBlob line lower c
  checkedDeploy lower (countFinalized lower c)

/-! ### What is reported -/

/-- The bytes of the blobs, none of them beyond its size. -/
def StageCounts.present (c : StageCounts) : List UInt64 :=
  c.blobCurrent.entries.map fun blob =>
    min blob.2 ((c.blobTotals.lookup blob.1).getD (UInt64.ofNat (2 ^ 64 - 1)))

/-- The sizes of the blobs. -/
def StageCounts.sizes (c : StageCounts) : List UInt64 := c.blobTotals.entries.map fun blob => blob.2

def StageCounts.checkedPct (c : StageCounts) : Option (ℕ × StagePhase) :=
  if 0 < c.deploySteps ∨ c.fetchFinalized = true then
    let stepPct := min (min 255 (85 + (min c.deploySteps 7 * 2).toNat)) 99
    some (max stepPct 85, if 0 < c.deploySteps then .install else .download)
  else if 0 < c.blobsNeeded then
    let frac := (c.blobsDone.toFloat + 0.5 * (UInt64.ofNat c.blobsStarted.card).toFloat) /
      c.blobsNeeded.toFloat
    some ((85.0 * clamp frac 0.0 1.0).toUInt8.toNat, .download)
  else do
    let downloaded ← checkedSum c.present
    let total ← checkedSum c.sizes
    return if 0 < total then ((85.0 * downloaded.toFloat / total.toFloat).toUInt8.toNat, .download)
      else (0, .download)

def checkedDetail (c : StageCounts) (phase : StagePhase) : Option String :=
  if phase = .install then some "Installing the staged image"
  else if 0 < c.blobsNeeded then do
    let total ← checkedSum c.sizes
    let layer ← checkedAdd (min c.blobsDone c.blobsNeeded) 1
    if 0 < total then
      let downloaded ← checkedSum c.present
      return "Downloading layer " ++ toString layer ++ " of " ++ toString c.blobsNeeded ++ " · " ++
        fixed 0 (mib downloaded) ++ " MiB of " ++ fixed 0 (mib total) ++ " MiB"
    else return "Downloading layer " ++ toString layer ++ " of " ++ toString c.blobsNeeded
  else do
    let downloaded ← checkedSum c.present
    let total ← checkedSum c.sizes
    return if 0 < total then
        "Downloading " ++ fixed 1 (mib downloaded / 1024.0) ++ " of " ++ fixed 1 (mib total / 1024.0) ++ " GB"
      else "Downloading the update"

/-- `classify_bootc_fragment` -/
def checkedFragment (size : Float → List Char → UInt64) (fragment : Fragment) (state : StageProgress) :
    Option (Option Marker × StageProgress) :=
  match visibleLine fragment.text with
  | none => some (none, state)
  | some line => do
      let c ← checkedCount size line state.toStageCounts
      let counted := { state with toStageCounts := c }
      let (pct, phase) ← c.checkedPct
      if pct < state.lastPct ∧ ¬ (phase = .install ∧ state.lastPct < 85) then return (none, counted)
      else
        let detail ← checkedDetail c phase
        if pct = state.lastPct ∧ detail = state.lastDetail ∧
            (state.lastEmit.any fun last => fragment.checked - last < second) = true then
          return (none, counted)
        else
          return (some ⟨pct, phase, detail⟩,
            { counted with lastPct := pct, lastDetail := detail, lastEmit := some fragment.stamped })

/-- The fragments of a run, one by one. -/
def checkedFragments (size : Float → List Char → UInt64) (fragments : List Fragment)
    (state : StageProgress) : Option StageProgress :=
  fragments.foldlM (fun state fragment => (checkedFragment size fragment state).map Prod.snd) state

/-! ### The JSON lines -/

def checkedPullDetail (event : Value) : Option String := do
  let total := number event "bytesTotal"
  let stepsTotal := number event "stepsTotal"
  let next ← checkedAdd (number event "steps") 1
  let layer := toString (min next (max stepsTotal 1))
  return if 0 < total then
      "Downloading layer " ++ layer ++ " of " ++ toString (max stepsTotal 1) ++ " · " ++
        fixed 0 (mib (min (number event "bytes") total)) ++ " MiB of " ++ fixed 0 (mib total) ++ " MiB"
    else if 0 < stepsTotal then "Downloading layer " ++ layer ++ " of " ++ toString stepsTotal
    else "Downloading the update"

/-- The event reports the bytes of a pull. -/
def IsPull (event : Value) : Prop :=
  (event.get "type").bind Value.asStr = some "ProgressBytes" ∧
    ((event.get "task").bind Value.asStr).getD "" = "pulling"

instance instDecidableIsPull (event : Value) : Decidable (IsPull event) :=
  inferInstanceAs (Decidable (_ ∧ _))

/-- What an event asks for. Only the bytes of a pull are reported with an addition. -/
def checkedEvent (event : Value) (lastPct : ℕ) : Option (Option Marker) :=
  if IsPull event then do
    let pct := max (85.0 * clamp (pullFraction event) 0.0 1.0).toUInt8.toNat 1
    let detail ← checkedPullDetail event
    return some ⟨pct, .download, detail⟩
  else some (progressEvent event lastPct)

/-- `classify_progress_json` -/
def checkedJson (fromStr : String → Option Value) (line : String) (state : JsonProgress) :
    Option (Option Marker × JsonProgress) :=
  match fromStr (trim line) with
  | none => some (none, state)
  | some event => do
      let marker ← checkedEvent event state.lastPct
      match marker with
      | none => return (none, state)
      | some marker =>
          if marker.pct < state.lastPct then return (none, state)
          else if marker.pct = state.lastPct ∧ marker.detail = state.lastDetail then return (none, state)
          else return (some marker, { lastPct := marker.pct, lastDetail := marker.detail })

/-- The JSON lines of a run, one by one. -/
def checkedLines (fromStr : String → Option Value) (lines : List String) (state : JsonProgress) :
    Option JsonProgress :=
  lines.foldlM (fun state line => (checkedJson fromStr line state).map Prod.snd) state

/-! ### What is returned -/

theorem countBarWith_parseByteSize (line : List Char) (c : StageCounts) :
    countBarWith parseByteSize line c = countBar line c := by
  unfold countBarWith barOf countBar
  dsimp only
  split_ifs with hbar
  · generalize parseF64 (List.rtakeWhile _ _) = value
    generalize parseF64 (List.takeWhile _ _) = total
    cases value with
    | none => rfl
    | some value =>
      cases total with
      | none => rfl
      | some total =>
        dsimp only
        split_ifs
        · rfl
        · rfl
  · rfl

/-- The line says that a blob is there. -/
def saysBlobDone (lower : List Char) : Bool :=
  let text := String.ofList lower
  (startsWith text "copying blob" || startsWith text "copying config") &&
    (contains text "done" || contains text "already exists" || contains text "skipped")

/-- The line names a step of the deployment. -/
def saysDeploy (lower : List Char) : Bool :=
  deployKeywords.any fun keyword => contains (String.ofList lower) keyword

theorem checkedTotals_eq_some (h : checkedTotals lower c = some c') : c' = countTotals lower c := by
  unfold checkedTotals at h
  split at h
  · exact (Option.some.inj h).symm
  · obtain ⟨-, -, h⟩ := Option.bind_eq_some_iff.1 h
    exact (Option.some.inj h).symm

theorem checkedBar_eq_some (h : checkedBar size line c = some c') : c' = countBarWith size line c := by
  unfold checkedBar at h
  dsimp only at h
  split_ifs at h with hbar
  · obtain ⟨-, -, h⟩ := Option.bind_eq_some_iff.1 h
    exact (Option.some.inj h).symm
  · rw [countBarWith, barOf, if_neg hbar]
    exact (Option.some.inj h).symm

/-- One more blob is counted if there is room for it. -/
theorem checkedBlob_eq (line lower : List Char) (c : StageCounts) : checkedBlob line lower c =
    if saysBlobDone lower = true ∧ ¬ c.blobsDone.toNat + 1 < 2 ^ 64 then none
    else some (countBlob line lower c) := by
  have hone : (1 : UInt64).toNat = 1 := rfl
  unfold checkedBlob countBlob saysBlobDone checkedAdd
  rw [hone]
  dsimp only
  by_cases hcopy : (startsWith (String.ofList lower) "copying blob" ||
      startsWith (String.ofList lower) "copying config") = true
  · by_cases hdone : (contains (String.ofList lower) "done" ||
        contains (String.ofList lower) "already exists" || contains (String.ofList lower) "skipped") = true
    · simp only [hcopy, hdone, if_true, Bool.and_true, true_and]
      by_cases hroom : c.blobsDone.toNat + 1 < 2 ^ 64
      · rw [if_pos hroom, if_neg (not_not_intro hroom)]
        cases (splitWhitespace line)[2]?.filter fun digest =>
            decide (7 ≤ (String.ofList digest).utf8ByteSize) with
        | none => rfl
        | some digest => rfl
      · rw [if_neg hroom, if_pos hroom]
        cases (splitWhitespace line)[2]?.filter fun digest =>
            decide (7 ≤ (String.ofList digest).utf8ByteSize) with
        | none => rfl
        | some digest => rfl
    · simp only [hcopy, hdone, if_true, Bool.and_false, Bool.false_eq_true, false_and, if_false]
      cases (splitWhitespace line)[2]?.filter fun digest =>
          decide (7 ≤ (String.ofList digest).utf8ByteSize) with
      | none => rfl
      | some digest => rfl
  · simp only [hcopy, Bool.false_and, Bool.false_eq_true, false_and, if_false]

theorem checkedDeploy_eq (lower : List Char) (c : StageCounts) : checkedDeploy lower c =
    if saysDeploy lower = true ∧ ¬ c.deploySteps.toNat + 1 < 2 ^ 64 then none
    else some (countDeploy lower c) := by
  have hone : (1 : UInt64).toNat = 1 := rfl
  unfold checkedDeploy countDeploy saysDeploy checkedAdd
  rw [hone]
  by_cases hdeploy : (deployKeywords.any fun keyword => contains (String.ofList lower) keyword) = true
  · simp only [hdeploy, if_true, true_and]
    by_cases hroom : c.deploySteps.toNat + 1 < 2 ^ 64
    · rw [if_pos hroom, if_neg (not_not_intro hroom)]
      rfl
    · rw [if_neg hroom, if_pos hroom]
      rfl
  · simp only [hdeploy, Bool.false_eq_true, false_and, if_false]

theorem checkedCount_eq_some (h : checkedCount parseByteSize line c = some c') : c' = count line c := by
  unfold checkedCount at h
  dsimp only at h
  obtain ⟨totals, htotals, h⟩ := Option.bind_eq_some_iff.1 h
  obtain ⟨bars, hbars, h⟩ := Option.bind_eq_some_iff.1 h
  obtain ⟨blobs, hblobs, h⟩ := Option.bind_eq_some_iff.1 h
  rw [checkedBlob_eq] at hblobs
  rw [checkedDeploy_eq] at h
  split_ifs at hblobs
  split_ifs at h
  rw [← Option.some.inj h, ← Option.some.inj hblobs, checkedBar_eq_some hbars,
    checkedTotals_eq_some htotals, countBarWith_parseByteSize]
  rfl

theorem StageCounts.checkedPct_eq_some {report : ℕ × StagePhase} (h : c.checkedPct = some report) :
    report = c.pct := by
  have htotal : c.totalBytes = c.sizes.sum := rfl
  have hdownloaded : c.downloadedBytes = c.present.sum := rfl
  unfold StageCounts.checkedPct at h
  unfold StageCounts.pct
  rw [htotal, hdownloaded]
  by_cases hdeploy : 0 < c.deploySteps ∨ c.fetchFinalized = true
  · rw [if_pos hdeploy] at h ⊢
    exact (Option.some.inj h).symm
  · rw [if_neg hdeploy] at h ⊢
    by_cases hneeded : 0 < c.blobsNeeded
    · rw [if_pos hneeded] at h ⊢
      exact (Option.some.inj h).symm
    · rw [if_neg hneeded] at h ⊢
      obtain ⟨downloaded, hdownloaded, h⟩ := Option.bind_eq_some_iff.1 h
      obtain ⟨total, htotal, h⟩ := Option.bind_eq_some_iff.1 h
      rw [eq_sum_of_checkedSum hdownloaded, eq_sum_of_checkedSum htotal] at h
      exact (Option.some.inj h).symm

theorem checkedDetail_eq_some {detail : String} (h : checkedDetail c phase = some detail) :
    detail = stageDetail c phase := by
  have htotal : c.totalBytes = c.sizes.sum := rfl
  have hdownloaded : c.downloadedBytes = c.present.sum := rfl
  unfold checkedDetail at h
  unfold stageDetail
  rw [htotal, hdownloaded]
  dsimp only
  split_ifs at h with hinstall hneeded
  · rw [if_pos hinstall]
    exact (Option.some.inj h).symm
  · rw [if_neg hinstall]
    obtain ⟨total, htotal, h⟩ := Option.bind_eq_some_iff.1 h
    obtain ⟨layer, hlayer, h⟩ := Option.bind_eq_some_iff.1 h
    rw [eq_sum_of_checkedSum htotal, ← (checkedAdd_eq_some_iff.1 hlayer).2] at h
    split_ifs at h with hsize
    · obtain ⟨downloaded, hdownloaded, h⟩ := Option.bind_eq_some_iff.1 h
      rw [eq_sum_of_checkedSum hdownloaded] at h
      rw [if_pos ⟨hneeded, hsize⟩]
      exact (Option.some.inj h).symm
    · rw [if_neg (fun hboth => hsize hboth.2), if_pos hneeded]
      exact (Option.some.inj h).symm
  · obtain ⟨downloaded, hdownloaded, h⟩ := Option.bind_eq_some_iff.1 h
    obtain ⟨total, htotal, h⟩ := Option.bind_eq_some_iff.1 h
    rw [eq_sum_of_checkedSum hdownloaded, eq_sum_of_checkedSum htotal] at h
    rw [if_neg hinstall, if_neg (fun hboth => hneeded hboth.1), if_neg hneeded]
    exact (Option.some.inj h).symm

/-- What is returned with the checks is what is returned without them. -/
theorem checkedFragment_eq_some {result : Option Marker × StageProgress}
    (h : checkedFragment parseByteSize fragment state = some result) :
    classifyBootcFragment fragment state = result := by
  unfold checkedFragment at h
  unfold classifyBootcFragment
  cases hline : visibleLine fragment.text with
  | none =>
    rw [hline] at h
    exact Option.some.inj h
  | some line =>
    rw [hline] at h
    dsimp only at h ⊢
    obtain ⟨counts, hcounts, h⟩ := Option.bind_eq_some_iff.1 h
    obtain ⟨report, hreport, h⟩ := Option.bind_eq_some_iff.1 h
    rw [checkedCount_eq_some hcounts] at hreport h
    rw [StageCounts.checkedPct_eq_some hreport] at h
    generalize count line state.toStageCounts = counted at h ⊢
    by_cases hback : counted.pct.1 < state.lastPct ∧
        ¬ (counted.pct.2 = .install ∧ state.lastPct < 85)
    · rw [if_pos hback] at h ⊢
      exact Option.some.inj h
    · rw [if_neg hback] at h ⊢
      obtain ⟨detail, hdetail, h⟩ := Option.bind_eq_some_iff.1 h
      rw [checkedDetail_eq_some hdetail] at h
      split_ifs at h ⊢
      · exact Option.some.inj h
      · exact Option.some.inj h

/-- The step of an event is counted if there is room for one more. -/
theorem checkedEvent_eq (event : Value) (lastPct : ℕ) : checkedEvent event lastPct =
    if IsPull event ∧ ¬ (number event "steps").toNat + 1 < 2 ^ 64 then none
    else some (progressEvent event lastPct) := by
  have hone : (1 : UInt64).toNat = 1 := rfl
  unfold checkedEvent checkedPullDetail checkedAdd
  rw [hone]
  by_cases hpull : IsPull event
  · rw [if_pos hpull]
    have hevent : progressEvent event lastPct =
        some ⟨max (85.0 * clamp (pullFraction event) 0.0 1.0).toUInt8.toNat 1, .download,
          pullDetail event⟩ := by
      unfold progressEvent
      rw [hpull.1, Option.bind_eq_bind, Option.bind_some, if_pos ⟨rfl, hpull.2⟩]
    rw [hevent]
    by_cases hroom : (number event "steps").toNat + 1 < 2 ^ 64
    · rw [if_pos hroom, if_neg (fun h => h.2 hroom)]
      rfl
    · rw [if_neg hroom, if_pos ⟨hpull, hroom⟩]
      rfl
  · rw [if_neg hpull, if_neg (fun h => hpull h.1)]

/-- The line reports a pull at the last step that 64 bits can count. -/
def AtLastStep (fromStr : String → Option Value) (line : String) : Prop :=
  ∃ event, fromStr (trim line) = some event ∧ IsPull event ∧
    number event "steps" = UInt64.ofNat (2 ^ 64 - 1)

theorem toNat_add_one_lt_iff {n : UInt64} : n.toNat + 1 < 2 ^ 64 ↔ n ≠ UInt64.ofNat (2 ^ 64 - 1) := by
  have hlast : (UInt64.ofNat (2 ^ 64 - 1)).toNat = 2 ^ 64 - 1 := by decide
  have hlt := n.toNat_lt
  rw [Ne, ← UInt64.toNat_inj, hlast]
  omega

theorem checkedJson_none {line : String} {json : JsonProgress} (h : AtLastStep fromStr line) :
    checkedJson fromStr line json = none := by
  obtain ⟨event, hevent, hpull, hlast⟩ := h
  have hfull : ¬ (number event "steps").toNat + 1 < 2 ^ 64 := fun hroom =>
    toNat_add_one_lt_iff.1 hroom hlast
  rw [checkedJson, hevent]
  dsimp only
  rw [checkedEvent_eq, if_pos ⟨hpull, hfull⟩]
  rfl

/-- What is returned with the checks is what is returned without them. -/
theorem checkedJson_some {line : String} {json : JsonProgress} (h : ¬ AtLastStep fromStr line) :
    checkedJson fromStr line json = some (classifyProgressJson fromStr line json) := by
  unfold checkedJson classifyProgressJson
  cases hevent : fromStr (trim line) with
  | none => rfl
  | some event =>
    have hroom : ¬ (IsPull event ∧ ¬ (number event "steps").toNat + 1 < 2 ^ 64) := by
      rintro ⟨hpull, hfull⟩
      refine h ⟨event, hevent, hpull, not_not.1 fun hlast => hfull (toNat_add_one_lt_iff.2 hlast)⟩
    dsimp only
    rw [checkedEvent_eq, if_neg hroom, Option.bind_eq_bind, Option.bind_some, Option.bind_some]
    cases progressEvent event json.lastPct with
    | none => rfl
    | some marker =>
      dsimp only
      split_ifs
      · rfl
      · rfl
      · rfl

end Kyth.Upgrade

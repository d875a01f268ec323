import Kyth.Lib.Binary64
import Kyth.Upgrade.Status
import Mathlib.Data.List.AList
import Mathlib.Data.List.DropRight
import Mathlib.Data.Finset.Insert

/-!
# The progress of a staged upgrade (`safe_upgrade_bin.rs`)

`bootc upgrade` says how far it is in two ways: in the text of its standard error, and in JSON lines on a
pipe of its own. Each has a parser with a state of its own (`classifyBootcFragment`,
`classifyProgressJson`), and both write markers to one output.

A fragment is what `read_progress_fragment` returns, with the two clock readings of its turn: the one that
the age of the last marker is taken from, and the one that is kept as the time of a new marker. The parser
of JSON text is given.
-/

namespace Kyth.Upgrade

open Str Binary64
open Kyth.Json (Value)

/-! ### Markers -/

inductive StagePhase
  | download
  | install
  deriving DecidableEq, Repr

def StagePhase.name : StagePhase → String
  | .download => "download"
  | .install => "install"

/-- A line of the output. -/
structure Marker where
  pct : ℕ
  phase : StagePhase
  detail : String
  deriving DecidableEq, Repr

/-- `stage_phase_marker`. -/
def Marker.text (marker : Marker) : String :=
  "KYTH_STAGE_PROGRESS pct=" ++ toString marker.pct ++ " phase=" ++ marker.phase.name ++ " detail=" ++
    marker.detail

/-! ### Text -/

def isAsciiAlphabetic (c : Char) : Bool := isAsciiAlphanumeric c && !isAsciiDigit c

/-- Digits and points. -/
def isDecimal (c : Char) : Bool := isAsciiDigit c || c == '.'

def esc : Char := Char.ofNat 0x1b

/-- Where `strip_ansi` stands: in text, behind an escape character, or in a control sequence. -/
inductive Ansi
  | text
  | escape
  | sequence

/-- `strip_ansi` from a position on. An escape character without a bracket behind it is kept. -/
def stripFrom : Ansi → List Char → List Char
  | .text, [] => []
  | .escape, [] => [esc]
  | .sequence, [] => []
  | .text, c :: rest => if c = esc then stripFrom .escape rest else c :: stripFrom .text rest
  | .escape, c :: rest =>
      if c = '[' then stripFrom .sequence rest
      else if c = esc then esc :: stripFrom .escape rest
      else esc :: c :: stripFrom .text rest
  | .sequence, c :: rest =>
      if isAsciiAlphabetic c then stripFrom .text rest
      else if isAsciiDigit c || c == ';' then stripFrom .sequence rest
      else if c = esc then stripFrom .escape rest
      else c :: stripFrom .text rest

def stripAnsi (text : List Char) : List Char := stripFrom .text text

/-- `str::split_whitespace`. -/
def splitWhitespace (text : List Char) : List (List Char) :=
  (text.splitOnP isWhitespace).filter (· ≠ [])

/-- The text behind the first occurrence of `needle`. -/
def behind (needle : List Char) : List Char → Option (List Char)
  | [] => if needle = [] then some [] else none
  | c :: rest => if needle.isPrefixOf (c :: rest) then some ((c :: rest).drop needle.length) else behind needle rest

/-- `trim_matches` with a test. -/
def trimMatches (p : Char → Bool) (text : List Char) : List Char := (text.dropWhile p).rdropWhile p

/-- `str::parse::<f64>` for a text of digits and points. -/
def parseF64 (text : List Char) : Option Float :=
  match text.splitOn '.' with
  | [whole] => (parseDigits whole).map fun m => Float.ofScientific m true 0
  | [whole, fraction] =>
      (parseDigits (whole ++ fraction)).map fun m => Float.ofScientific m true fraction.length
  | _ => none

/-- The visible text of a fragment. -/
def visibleLine (text : String) : Option (List Char) :=
  let line := trimMatches isWhitespace
    (stripAnsi (trimMatches (fun c => c == '\n' || c == '\r') text.toList))
  if line = [] then none else some line

/-! ### The text of standard error -/

/-- What `StageProgress` counts. -/
structure StageCounts where
  blobsNeeded : UInt64 := 0
  blobsStarted : Finset String := ∅
  blobsDone : UInt64 := 0
  blobTotals : AList (fun _ : String => UInt64) := ∅
  blobCurrent : AList (fun _ : String => UInt64) := ∅
  fetchFinalized : Bool := false
  deploySteps : UInt64 := 0

/-- `StageProgress`. -/
structure StageProgress extends StageCounts where
  lastPct : ℕ := 0
  lastDetail : String := ""
  lastEmit : Option ℕ := none

namespace StageCounts

variable (c : StageCounts)

/-- `downloaded_bytes`. The sum wraps. -/
def downloadedBytes : UInt64 :=
  (c.blobCurrent.entries.map fun blob =>
    min blob.2 ((c.blobTotals.lookup blob.1).getD (UInt64.ofNat (2 ^ 64 - 1)))).sum

/-- `total_bytes`. -/
def totalBytes : UInt64 := (c.blobTotals.entries.map fun blob => blob.2).sum

/-- `pct`. -/
def pct : ℕ × StagePhase :=
  if 0 < c.deploySteps ∨ c.fetchFinalized = true then
    let stepPct := min (min 255 (85 + (min c.deploySteps 7 * 2).toNat)) 99
    (max stepPct 85, if 0 < c.deploySteps then .install else .download)
  else if 0 < c.blobsNeeded then
    let frac := (c.blobsDone.toFloat + 0.5 * (UInt64.ofNat c.blobsStarted.card).toFloat) /
      c.blobsNeeded.toFloat
    ((85.0 * clamp frac 0.0 1.0).toUInt8.toNat, .download)
  else if 0 < c.totalBytes then
    ((85.0 * c.downloadedBytes.toFloat / c.totalBytes.toFloat).toUInt8.toNat, .download)
  else (0, .download)

end StageCounts

/-- `parse_byte_size`. -/
def parseByteSize (value : Float) (unit : List Char) : UInt64 :=
  let name := toAsciiLowercase (String.ofList unit)
  let factor : Float :=
    if name = "kib" ∨ name = "kb" then 1024.0
    else if name = "mib" ∨ name = "mb" then 1024.0 * 1024.0
    else if name = "gib" ∨ name = "gb" then 1024.0 * 1024.0 * 1024.0
    else if name = "tib" ∨ name = "tb" then 1024.0 * 1024.0 * 1024.0 * 1024.0
    else 1.0
  (value * factor).toUInt64

/-- The number of layers that are needed. -/
def countTotals (lower : List Char) (c : StageCounts) : StageCounts :=
  let token := (behind "layers needed:".toList lower).bind fun rest => (splitWhitespace rest).head?
  match token.bind fun t => parseU64 (String.ofList (trimMatches (fun d => !isAsciiDigit d) t)) with
  | some count => if 0 < count then { c with blobsNeeded := count } else c
  | none => c

/-- A progress bar: the name of a blob, and two sizes with their units around a slash. -/
def countBar (line : List Char) (c : StageCounts) : StageCounts :=
  let name := (splitWhitespace line).headD []
  if name.length = 12 ∧ name.all isAsciiHexdigit = true ∧ '/' ∈ line then
    let left := (line.takeWhile (· != '/')).rdropWhile isWhitespace
    let leftUnit := left.rtakeWhile isAsciiAlphabetic
    let leftNum := (left.rdropWhile isAsciiAlphabetic).rtakeWhile isDecimal
    let right := (splitWhitespace ((line.dropWhile (· != '/')).drop 1)).headD []
    let rightNum := right.takeWhile isDecimal
    let rightUnit := (right.dropWhile isDecimal).takeWhile isAsciiAlphabetic
    match parseF64 leftNum, parseF64 rightNum with
    | some value, some total =>
        if leftUnit ≠ [] ∧ rightUnit ≠ [] ∧ 0.0 < total then
          let id := String.ofList name
          let current := parseByteSize value leftUnit
          { c with
            blobsStarted := insert id c.blobsStarted
            blobTotals := c.blobTotals.insert id (max (parseByteSize total rightUnit) 1)
            -- the bytes of a blob never go back
            blobCurrent := c.blobCurrent.insert id
              (((c.blobCurrent.lookup id).map fun known => max known current).getD current) }
        else c
    | _, _ => c
  else c

/-- The lines that announce a blob, or say that it is there. -/
def countBlob (line lower : List Char) (c : StageCounts) : StageCounts :=
  let text := String.ofList lower
  if startsWith text "copying blob" || startsWith text "copying config" then
    let done := contains text "done" || contains text "already exists" || contains text "skipped"
    match (splitWhitespace line)[2]?.filter fun digest => 7 ≤ (String.ofList digest).utf8ByteSize with
    | some digest =>
        let id := String.ofList (digest.take 12)
        if done then
          { c with
            blobsDone := c.blobsDone + 1
            blobsStarted := c.blobsStarted.erase id
            blobCurrent := c.blobCurrent.erase id }
        else { c with blobsStarted := insert id c.blobsStarted }
    | none =>
        if done then { c with blobsDone := c.blobsDone + 1 }
        else
          { c with blobsStarted := insert ("blob-" ++ toString c.blobsStarted.card) c.blobsStarted }
  else c

/-- The end of the download. -/
def countFinalized (lower : List Char) (c : StageCounts) : StageCounts :=
  let text := String.ofList lower
  if contains text "writing manifest" || contains text "storing signatures" ||
      contains text "already have manifest" then { c with fetchFinalized := true }
  else c

def deployKeywords : List String :=
  ["merging layer", "writing commit", "deploying", "staged deployment", "dracut", "bootloader",
    "staged update"]

/-- The steps of the deployment. -/
def countDeploy (lower : List Char) (c : StageCounts) : StageCounts :=
  if deployKeywords.any fun keyword => contains (String.ofList lower) keyword then
    { c with deploySteps := c.deploySteps + 1 }
  else c

/-- What one line adds to the counts. -/
def count (line : List Char) (c : StageCounts) : StageCounts :=
  let lower := line.flatMap lowered
  countDeploy lower (countFinalized lower (countBlob line lower (countBar line (countTotals lower c))))

def mib (bytes : UInt64) : Float := bytes.toFloat / 1024.0 / 1024.0

/-- The text of a marker. -/
def stageDetail (c : StageCounts) (phase : StagePhase) : String :=
  let layer := toString (min c.blobsDone c.blobsNeeded + 1)
  if phase = .install then "Installing the staged image"
  else if 0 < c.blobsNeeded ∧ 0 < c.totalBytes then
    "Downloading layer " ++ layer ++ " of " ++ toString c.blobsNeeded ++ " · " ++
      fixed 0 (mib c.downloadedBytes) ++ " MiB of " ++ fixed 0 (mib c.totalBytes) ++ " MiB"
  else if 0 < c.blobsNeeded then "Downloading layer " ++ layer ++ " of " ++ toString c.blobsNeeded
  else if 0 < c.totalBytes then
    "Downloading " ++ fixed 1 (mib c.downloadedBytes / 1024.0) ++ " of " ++
      fixed 1 (mib c.totalBytes / 1024.0) ++ " GB"
  else "Downloading the update"

/-- A fragment of standard error, with the two clock readings of its turn. -/
structure Fragment where
  text : String
  truncated : Bool := false
  checked : ℕ := 0
  stamped : ℕ := 0

/-- A second, in the unit of the clock. -/
def second : ℕ := 10 ^ 9

/-- `classify_bootc_fragment`. -/
def classifyBootcFragment (fragment : Fragment) (state : StageProgress) : Option Marker × StageProgress :=
  match visibleLine fragment.text with
  | none => (none, state)
  | some line =>
      let c := count line state.toStageCounts
      let counted := { state with toStageCounts := c }
      let (pct, phase) := c.pct
      if pct < state.lastPct ∧ ¬ (phase = .install ∧ state.lastPct < 85) then (none, counted)
      else
        let detail := stageDetail c phase
        if pct = state.lastPct ∧ detail = state.lastDetail ∧
            (state.lastEmit.any fun last => fragment.checked - last < second) = true then (none, counted)
        else
          (some ⟨pct, phase, detail⟩,
            { counted with lastPct := pct, lastDetail := detail, lastEmit := some fragment.stamped })

/-- A turn of `drain_stderr_with_progress`: a fragment that was cut off is not classified. -/
def drainFragment (fragment : Fragment) (state : StageProgress) : Option Marker × StageProgress :=
  if fragment.truncated then (none, state) else classifyBootcFragment fragment state

/-! ### The JSON lines -/

/-- `JsonProgress`. -/
structure JsonProgress where
  lastPct : ℕ := 0
  lastDetail : String := ""

/-- A number of an event. -/
def number (event : Value) (key : String) : UInt64 := ((event.get key).bind Value.asU64).getD 0

/-- The share of the download that an event reports. -/
def pullFraction (event : Value) : Float :=
  if 0 < number event "bytesTotal" then
    (number event "bytes").toFloat / (number event "bytesTotal").toFloat
  else if 0 < number event "stepsTotal" then
    (number event "steps").toFloat / (number event "stepsTotal").toFloat
  else 0.0

/-- The text for a download. The number of the layer wraps. -/
def pullDetail (event : Value) : String :=
  let total := number event "bytesTotal"
  let stepsTotal := number event "stepsTotal"
  let layer := toString (min (number event "steps" + 1) (max stepsTotal 1))
  if 0 < total then
    "Downloading layer " ++ layer ++ " of " ++ toString (max stepsTotal 1) ++ " · " ++
      fixed 0 (mib (min (number event "bytes") total)) ++ " MiB of " ++ fixed 0 (mib total) ++ " MiB"
  else if 0 < stepsTotal then "Downloading layer " ++ layer ++ " of " ++ toString stepsTotal
  else "Downloading the update"

/-- What an event asks for after a marker with the percentage `lastPct`. -/
def progressEvent (event : Value) (lastPct : ℕ) : Option Marker := do
  let kind ← (event.get "type").bind Value.asStr
  let task := ((event.get "task").bind Value.asStr).getD ""
  if kind = "ProgressBytes" ∧ task = "pulling" then
    let pct := max (85.0 * clamp (pullFraction event) 0.0 1.0).toUInt8.toNat 1
    some ⟨pct, .download, pullDetail event⟩
  else if kind = "ProgressSteps" ∧ task = "pulling" then
    -- a pull that is tried again keeps its place
    let description ← (event.get "description").bind Value.asStr
    some ⟨max lastPct 1, .download, description⟩
  else if kind = "ProgressSteps" ∧ task = "importing" then
    if max (number event "stepsTotal") 1 ≤ number event "steps" then
      some ⟨88, .install, "Image downloaded, staging it"⟩
    else some ⟨86, .install, "Importing the image"⟩
  else none

/-- `classify_progress_json`. -/
def classifyProgressJson (fromStr : String → Option Value) (line : String) (state : JsonProgress) :
    Option Marker × JsonProgress :=
  match (fromStr (trim line)).bind fun event => progressEvent event state.lastPct with
  | none => (none, state)
  | some marker =>
      if marker.pct < state.lastPct then (none, state)
      else if marker.pct = state.lastPct ∧ marker.detail = state.lastDetail then (none, state)
      else (some marker, { lastPct := marker.pct, lastDetail := marker.detail })

end Kyth.Upgrade

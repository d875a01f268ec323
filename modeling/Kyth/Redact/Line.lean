import Kyth.Lib.ByteText
import Kyth.Lib.Scan

/-!
# Redacting the sensitive fields of a text (`system/process.rs`)

`redact_sensitive_text` goes over a text line by line. In a line, a pass looks for the markers one after
the other and replaces the value of the first field that still has one; passes follow until a pass
changes nothing. Positions are positions of bytes, and a slice of the line at a position inside a
character is a panic, which is `none` here.
-/

namespace Kyth.Redact

open Boundary ByteText Scan TextLines Utf8Text

/-- `MARKERS`. -/
def markers : List (List UInt8) :=
  ["password", "passwd", "passphrase", "secret", "token", "cookie", "authcookie", "samlresponse",
    "bitlocker_key", "authorization", "key"].map fun marker => encode marker.toList

/-- What a value is replaced with. -/
def replacement : List Char := "<redacted>".toList

/-- A byte that continues a word: `is_ascii_alphanumeric` or an underscore. -/
def isWord (b : UInt8) : Bool :=
  48 ≤ b.toNat && b.toNat ≤ 57 || 65 ≤ b.toNat && b.toNat ≤ 90 || 97 ≤ b.toNat && b.toNat ≤ 122 ||
    b.toNat == 95

/-- A double or a single quote. -/
def isQuote (b : UInt8) : Bool := b.toNat == 34 || b.toNat == 39

/-- `u8::is_ascii_whitespace`. -/
def isBlank (b : UInt8) : Bool := [9, 10, 12, 13, 32].contains b.toNat

/-- An equals sign or a colon. -/
def isDelimiter (b : UInt8) : Bool := b.toNat == 61 || b.toNat == 58

/-- The bytes that belong to a value, which ends at its quote, or without one at a blank or at one of
`,`, `;`, `&`, a quote, `]` and `}`. -/
def isInside (quote : Option UInt8) (b : UInt8) : Bool :=
  match quote with
  | some quote => b != quote
  | none => !(isBlank b || [44, 59, 38, 34, 39, 93, 125].contains b.toNat)

/-- From the end of a marker to the start of the value, with the quote that opens the value. -/
def opening (bytes : List UInt8) (stop : ℕ) : Option (ℕ × Option UInt8) :=
  let delimiter := skipWhile isBlank bytes (if holdsAt isQuote bytes stop then stop + 1 else stop)
  if holdsAt isDelimiter bytes delimiter then
    let valueStart := skipWhile isBlank bytes (delimiter + 1)
    match bytes[valueStart]?.filter isQuote with
    | some quote => some (valueStart + 1, some quote)
    | none => some (valueStart, none)
  else none

/-- The range of the value behind a marker. -/
def valueRange (bytes : List UInt8) (stop : ℕ) : Option (ℕ × ℕ) :=
  (opening bytes stop).map fun found => (found.1, skipWhile (isInside found.2) bytes found.1)

/-- `boundary_before && boundary_after`. -/
def isBounded (lower : List UInt8) (start stop : ℕ) : Bool :=
  (start == 0 || !holdsAt isWord lower (start - 1)) &&
    (stop == lower.length || !holdsAt isWord lower stop)

/-- `&line[start..stop]`. -/
def slice (line : List Char) (start stop : ℕ) : Option (List Char) := do
  let (front, _) ← splitBytes line stop
  let (_, value) ← splitBytes front start
  pure value

/-- The line with a value replaced. -/
def replaceValue (line : List Char) (valueStart valueEnd : ℕ) : Option (List Char) := do
  let (before, _) ← splitBytes line valueStart
  let (_, after) ← splitBytes line valueEnd
  pure (before ++ replacement ++ after)

/-- The search for one marker, from a position on: the line with the value of the first field of the
marker replaced that has one to replace. -/
def searchMarker (line : List Char) (marker : List UInt8) : ℕ → ℕ → Option (Option (List Char))
  | 0, _ => none
  | fuel + 1, searchFrom => do
      let lower := line.map Str.charLower
      let (_, rest) ← splitBytes lower searchFrom
      match find marker (encode rest) with
      | none => pure none
      | some relative =>
          let start := searchFrom + relative
          let stop := start + marker.length
          if isBounded (encode lower) start stop then
            match valueRange (encode line) stop with
            | none => searchMarker line marker fuel stop
            | some (valueStart, valueEnd) =>
                if valueStart = valueEnd then searchMarker line marker fuel stop
                else do
                  let value ← slice line valueStart valueEnd
                  if value = replacement then searchMarker line marker fuel valueEnd
                  else some <$> replaceValue line valueStart valueEnd
          else searchMarker line marker fuel stop

/-- The loop of `redact_sensitive_line_once` over the markers. -/
def searchMarkers (line : List Char) : List (List UInt8) → Option (List Char)
  | [] => pure line
  | marker :: rest => do
      match ← searchMarker line marker (byteLength line + 1) 0 with
      | some redacted => pure redacted
      | none => searchMarkers line rest

/-- `redact_sensitive_line_once`. -/
def redactSensitiveLineOnce (line : List Char) : Option (List Char) := searchMarkers line markers

/-- The loop of `redact_sensitive_line`, for a number of passes. -/
def redactLoop : ℕ → List Char → Option (List Char)
  | 0, _ => none
  | passes + 1, redacted => do
      let next ← redactSensitiveLineOnce redacted
      if next = redacted then pure redacted else redactLoop passes next

/-- `redact_sensitive_line`. A line has fewer fields than bytes, and the last pass changes nothing. -/
def redactSensitiveLine (line : List Char) : Option (List Char) :=
  redactLoop (byteLength line + 1) line

/-- `redact_sensitive_text`. -/
def redactSensitiveText (text : List Char) : Option (List Char) := do
  let redacted ← (lines text).mapM redactSensitiveLine
  pure (['\n'].intercalate redacted)

end Kyth.Redact

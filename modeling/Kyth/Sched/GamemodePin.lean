import Kyth.AtomicIo.Replace
import Kyth.Lib.JoinedLines
import Kyth.Lib.Trim

/-!
# The pin of the game mode (`system/scheduler_arbiter.rs`)

`syncGamemodePin` writes the decision of the arbiter into `gamemode.ini`: it replaces every line that the
pattern `(?m)^\s*pin_cores\s*=.*$` matches, and puts one behind the first `[cpu]` of the text where there is
none. What a text says as an INI file is stated here as well.
-/

namespace Kyth.Sched

open AtomicIo JoinedLines SplitOnce Str Trim Utf8Text

/-- What `pin_cores` is to be. -/
def desiredPin (pin : Bool) : List Char := if pin then "yes".toList else "no".toList

/-- The line that is written. -/
def pinLine (pin : Bool) : List Char := "pin_cores = ".toList ++ desiredPin pin

/-- What is left of a text from the beginning of a line on, behind a match of the pattern. White space may
be newlines, too. -/
def pinMatch (text : List Char) : Option (List Char) :=
  match (text.dropWhile isWhitespace).dropPrefix? "pin_cores".toList with
  | none => none
  | some rest =>
      match rest.dropWhile isWhitespace with
      | [] => none
      | c :: rest => if c = '=' then some (rest.dropWhile (· != '\n')) else none

/-- `Regex::is_match`, from a position on that may be the beginning of a line. -/
def isMatch : Bool → List Char → Bool
  | atLine, [] => atLine && (pinMatch []).isSome
  | atLine, c :: rest => (atLine && (pinMatch (c :: rest)).isSome) || isMatch (c == '\n') rest

/-- `Regex::replace_all`, in a number of steps. -/
def replaceFrom (written : List Char) : ℕ → Bool → List Char → List Char
  | 0, _, text => text
  | n + 1, atLine, text =>
      match if atLine then pinMatch text else none with
      | some rest => written ++ replaceFrom written n false rest
      | none =>
          match text with
          | [] => []
          | c :: rest => c :: replaceFrom written n (c == '\n') rest

def replaceAll (written text : List Char) : List Char := replaceFrom written (text.length + 1) true text

/-- The text that `sync_gamemode_pin` writes, if it has a place for the pin. -/
def updatedText (pin : Bool) (text : List Char) : Option (List Char) :=
  if isMatch true text then some (replaceAll (pinLine pin) text)
  else (splitWord "[cpu]".toList text).map fun parts =>
    parts.1 ++ ("[cpu]\n".toList ++ pinLine pin ++ parts.2)

/-- What `sync_gamemode_pin` returns, and the file behind it. -/
def syncGamemodePin (write : Write) (pin : Bool) (ini : Option (List UInt8)) :
    Except Unit Bool × Option (List UInt8) :=
  match ini with
  | none => (.ok false, none)
  | some bytes =>
      match decode bytes with
      | none => (.error (), some bytes)
      | some text =>
          match updatedText pin text with
          | none => (.ok false, some bytes)
          | some updated =>
              if updated = text then (.ok false, some bytes)
              else
                let (result, file) := atomicWriteText write updated (some bytes)
                (result.map fun _ => true, file)

/-! ### INI files -/

/-- `[name]`, with white space around it. -/
def isHeader (line : List Char) : Bool :=
  (trimmed line).head? == some '[' && (trimmed line).getLast? == some ']'

/-- `[cpu]` -/
def isCpuHeader (line : List Char) : Bool := trimmed line == "[cpu]".toList

/-- Whether a line is in the section `[cpu]`, where the line in front of it is or is not. The header is. -/
def inCpu (before : Bool) (line : List Char) : Bool := if isHeader line then isCpuHeader line else before

/-- The lines outside the section `[cpu]`. -/
def outside : Bool → List (List Char) → List (List Char)
  | _, [] => []
  | before, line :: ls =>
      (if inCpu before line then [] else [line]) ++ outside (inCpu before line) ls

/-- The value of a line that assigns `pin_cores`. -/
def pinValue (line : List Char) : Option (List Char) :=
  (splitOnce '=' line).bind fun parts =>
    if trimmed parts.1 = "pin_cores".toList then some (trimmed parts.2) else none

/-- The values that `pin_cores` is given in the section `[cpu]`. -/
def cpuPins : Bool → List (List Char) → List (List Char)
  | _, [] => []
  | before, line :: ls =>
      (if inCpu before line then (pinValue line).toList else []) ++ cpuPins (inCpu before line) ls

/-- The lines of a file. -/
def iniLines (ini : Option (List UInt8)) : List (List Char) := ((ini.bind decode).getD []).splitOn '\n'

end Kyth.Sched

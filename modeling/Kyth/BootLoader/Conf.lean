import Kyth.AtomicIo.Replace
import Kyth.Lib.ByteLines
import Kyth.Lib.Utf8Read

/-!
# The boot loader's configuration file (`system/boot_loader.rs`)

`generateLoaderConf` sets the `timeout` line of `loader.conf` and leaves the other lines to their owner. A
file that the tool manages carries its marker comment. What the operating system does with a write is
given.
-/

namespace Kyth.BootLoader

open AtomicIo ByteLines Str TextLines Utf8Text

structure LoaderConfig where
  fast : Bool
  timeout : ℤ

/-- `{}` of an integer -/
def intText (n : ℤ) : List Char :=
  if n < 0 then '-' :: Nat.toDigits 10 n.natAbs else Nat.toDigits 10 n.natAbs

def timeoutLine (timeout : ℤ) : List Char := "timeout ".toList ++ intText timeout

/-- The comment that the tool writes. -/
def markerLine : List Char := "# Kyth loader fast-path — generated, greenboot-aware".toList

def isTimeoutLine (line : List Char) : Bool :=
  let trimmed := line.dropWhile isWhitespace
  decide ("timeout".length < trimmed.length) && "timeout".toList.isPrefixOf trimmed &&
    (trimmed.drop "timeout".length).head?.any fun c => c == ' ' || c == '\t'

/-- A comment that is dropped with the marker. -/
def isLoaderComment (line : List Char) : Bool :=
  "# Kyth loader".toList.isPrefixOf (line.dropWhile isWhitespace)

def mentionsKyth (text : List Char) : Bool := decide ("Kyth".toList <:+: text)

/-- What the loop of `set_timeout_line` keeps of a line. -/
def keptLine (timeout : ℤ) (manage : Bool) (line : List Char) : Option (List Char) :=
  if isTimeoutLine line then some (timeoutLine timeout)
  else if !manage && isLoaderComment line then none
  else some line

/-- The lines behind the loop, with a `timeout` line among them. -/
def keptLines (timeout : ℤ) (manage : Bool) (read : List (List Char)) : List (List Char) :=
  let kept := read.filterMap (keptLine timeout manage)
  if read.any isTimeoutLine then kept else kept ++ [timeoutLine timeout]

/-- The lines that `set_timeout_line` writes. -/
def setLines (timeout : ℤ) (manage : Bool) (read : List (List Char)) : List (List Char) :=
  let kept := keptLines timeout manage read
  if manage && !kept.any mentionsKyth then markerLine :: kept else kept

def setTimeoutLine (timeout : ℤ) (manage : Bool) (write : Write) (file : Option (List UInt8)) :
    Except Unit Unit × Option (List UInt8) :=
  let read := ((file.bind decode).map lines).getD []
  atomicWriteText write (joined (setLines timeout manage read)) file

/-- `i64::clamp` -/
def clamp (n low high : ℤ) : ℤ := if n < low then low else if high < n then high else n

/-- What `generate_loader_conf` returns, and the file behind it. -/
def generateLoaderConf (config : LoaderConfig) (destination : List Char) (write : Write)
    (file : Option (List UInt8)) : Except Unit (Option (List Char)) × Option (List UInt8) :=
  let timeout := clamp config.timeout 0 10
  if !config.fast then
    if (file.bind decode).any mentionsKyth then
      let (result, file) := setTimeoutLine 2 false write file
      (result.map fun _ => none, file)
    else (.ok none, file)
  else
    let (result, file) := setTimeoutLine timeout true write file
    (result.map fun _ => some destination, file)

/-! ### Runs -/

/-- A call, and how its write ends. -/
structure Call where
  config : LoaderConfig
  destination : List Char
  write : Write

/-- The file behind a call. -/
def Call.after (call : Call) (file : Option (List UInt8)) : Option (List UInt8) :=
  (generateLoaderConf call.config call.destination call.write file).2

/-- The file behind some calls. -/
def run (file : Option (List UInt8)) (calls : List Call) : Option (List UInt8) :=
  calls.foldl (fun file call => call.after file) file

/-- Neither a `timeout` line nor the marker. -/
def isOtherLine (line : List Char) : Bool := !isTimeoutLine line && decide (line ≠ markerLine)

/-- The lines of a file that are not the tool's. -/
def others (file : Option (List UInt8)) : List (List UInt8) :=
  (byteLines (file.getD [])).filter fun line => isOtherLine (Utf8.fromUtf8Lossy line)

/-- The file has a marker comment. -/
def CarriesMarker (file : Option (List UInt8)) : Prop := encode markerLine ∈ byteLines (file.getD [])

@[simp] theorem run_nil (file : Option (List UInt8)) : run file [] = file := rfl

@[simp] theorem run_cons (file : Option (List UInt8)) (call : Call) (calls : List Call) :
    run file (call :: calls) = run (call.after file) calls := rfl

theorem run_append (file : Option (List UInt8)) (before after : List Call) :
    run file (before ++ after) = run (run file before) after := List.foldl_append

end Kyth.BootLoader

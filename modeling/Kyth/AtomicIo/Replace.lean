import Kyth.Lib.Utf8Text

/-!
# Replacing a file (`atomic_io.rs`)

`atomic_write_text` writes a temporary file beside its target and renames it. What the operating system
does with this is given: the target is the old file or the new one, whatever is returned.
-/

namespace Kyth.AtomicIo

open Utf8Text

/-- How a write ends: before the rename, with the new file in place but the directory not synced, or well. -/
inductive Write
  | failed
  | unsynced
  | done
  deriving DecidableEq

/-- The new file is in place. -/
def Write.stores : Write → Bool
  | .failed => false
  | .unsynced => true
  | .done => true

/-- What `atomic_write_text` returns, and the file behind it. -/
def atomicWriteText (write : Write) (text : List Char) (file : Option (List UInt8)) :
    Except Unit Unit × Option (List UInt8) :=
  (if write = .done then .ok () else .error (), if write.stores then some (encode text) else file)

/-- A write that returns well has put the new file in place. -/
theorem atomicWriteText_ok {write : Write} {text : List Char} {file file' : Option (List UInt8)} {u : Unit}
    (h : atomicWriteText write text file = (.ok u, file')) : file' = some (encode text) := by
  cases write with
  | failed => cases h
  | unsynced => cases h
  | done => exact (congrArg Prod.snd h).symm

end Kyth.AtomicIo

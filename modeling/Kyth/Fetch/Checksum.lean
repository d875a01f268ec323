import Kyth.Lib.TextLines
import Kyth.Lib.Trim
import Kyth.Lib.Utf8Text

/-!
# Checksum files (`system/release_fetch.rs`)

`verify_checksum_file` accepts a downloaded archive if a checksum file has exactly one entry for it, with
its digest, and no malformed entry. A clear-signed file is read without its armor. The digests are given.
-/

namespace Kyth.Fetch

open Str TextLines Trim Utf8Text

/-- A regular file, with its length and what reading it gives, or something else. -/
inductive Node
  | regular (length : ℕ) (content : Except String (List UInt8))
  | other

/-- `MAX_CHECKSUM_BYTES` -/
def maxChecksumBytes : ℕ := 1024 * 1024

/-! ### Armor -/

def beginArmor : List Char := "-----BEGIN PGP SIGNED MESSAGE-----".toList

def signatureArmor : List Char := "-----BEGIN PGP SIGNATURE-----".toList

def isBlankLine (line : List Char) : Bool := trimmed line == []

/-- `clear_signed_body` -/
def clearSignedBody (content : List Char) : Except String (List Char) :=
  match (lines content).dropWhile isBlankLine with
  | [] => .ok content
  | first :: rest =>
      if trimmed first ≠ beginArmor then .ok content
      else
        -- the headers end at the first blank line
        let rest := (rest.dropWhile (!isBlankLine ·)).drop 1
        let body := rest.takeWhile (trimmed · ≠ signatureArmor)
        if body.length = rest.length then
          .error "Clear-signed checksum file has no signature block (truncated)"
        else .ok (['\n'].intercalate (body.map (withoutFront ['-', ' '])))

/-! ### Entries -/

/-- The length of the digests of an algorithm, in hex digits. -/
def digestLength (algorithm : List Char) : Option ℕ :=
  let name := algorithm.map charLower
  if name = "sha224".toList then some 56
  else if name = "sha256".toList then some 64
  else if name = "sha384".toList then some 96
  else if name = "sha512".toList then some 128
  else none

/-- `splitn(2, char::is_whitespace)`: the parts around the first blank. -/
def splitBlank (text : List Char) : Option (List Char × List Char) :=
  if text.any isWhitespace then
    some (text.takeWhile (!isWhitespace ·), (text.dropWhile (!isWhitespace ·)).drop 1)
  else none

/-- The digest and the name in an entry. A digest of hex digits has as many bytes as characters. -/
def checkEntry (algorithm : List Char) (expected number : ℕ) (stripped : List Char) :
    Except String (List Char × List Char) :=
  match splitBlank stripped with
  | none => .error ("Malformed checksum entry on line " ++ toString number)
  | some (hash, name) =>
      let name := withoutFront ['.', '/'] (withoutFront ['*'] (name.dropWhile isWhitespace))
      if name = [] ∨ '/' ∈ name then .error ("Unsafe checksum filename on line " ++ toString number)
      else if hash.length ≠ expected ∨ hash.all isAsciiHexdigit = false then
        .error ("Malformed " ++ String.ofList algorithm ++ " digest on line " ++ toString number)
      else .ok (hash, name)

/-- The loop over the lines: the digests of the entries for the target. -/
def matchingDigests (algorithm : List Char) (expected : ℕ) (target : List Char) :
    ℕ → List (List Char) → Except String (List (List Char))
  | _, [] => .ok []
  | number, line :: rest =>
      let stripped := trimmed line
      if stripped = [] ∨ stripped.head? = some '#' then
        matchingDigests algorithm expected target (number + 1) rest
      else do
        let (hash, name) ← checkEntry algorithm expected number stripped
        let found ← matchingDigests algorithm expected target (number + 1) rest
        return if name = target then hash.map charLower :: found else found

/-! ### The check -/

/-- `{byte:02x}` for every byte. -/
def hexText (bytes : List UInt8) : List Char :=
  bytes.flatMap fun b => [Nat.digitChar (b.toNat / 16), Nat.digitChar (b.toNat % 16)]

/-- The text of the checksum file. -/
def readChecksum : Except String Node → Except String (List Char)
  | .error error => .error ("Cannot inspect checksum file: " ++ error)
  | .ok (.regular length content) =>
      if maxChecksumBytes < length then
        .error ("Checksum file exceeds the " ++ toString maxChecksumBytes ++
          "-byte limit or is not a regular file")
      else match content with
        | .error error => .error ("Cannot read checksum file: " ++ error)
        | .ok bytes =>
            match decode bytes with
            | none => .error "Cannot read checksum file: stream did not contain valid UTF-8"
            | some text => .ok text
  | .ok .other =>
      .error ("Checksum file exceeds the " ++ toString maxChecksumBytes ++
        "-byte limit or is not a regular file")

/-- What is left of `verify_checksum_file` when the digests for the target are collected. -/
def compareDigest (digest : List Char → List UInt8 → List UInt8) (content : Except String (List UInt8))
    (target algorithm : List Char) : List (List Char) → Except String Unit
  | [expected] =>
      match content with
      | .error error => .error ("Cannot read checksum target: " ++ error)
      | .ok bytes =>
          let actual := hexText (digest (algorithm.map charLower) bytes)
          if actual ≠ expected then
            .error ("Checksum mismatch for " ++ String.ofList target ++ ": expected " ++
              String.ofList expected ++ ", got " ++ String.ofList actual)
          else .ok ()
  | found => .error ("Expected exactly one checksum for " ++ String.ofList target ++ ", found " ++
      toString found.length)

/-- `verify_checksum_file`. `target` is the name of the target, `path` is its path as it is shown. -/
def verifyChecksumFile (digest : List Char → List UInt8 → List UInt8)
    (checksum targetFile : Except String Node) (path : String) (target algorithm : List Char) :
    Except String Unit :=
  match targetFile with
  | .ok (.regular _ content) =>
      match digestLength algorithm with
      | none => .error ("Unsupported checksum algorithm: " ++ String.ofList algorithm)
      | some expected => do
          let text ← readChecksum checksum
          let body ← clearSignedBody text
          let found ← matchingDigests algorithm expected target 1 (lines body)
          compareDigest digest content target algorithm found
  | _ => .error ("Checksum target is not a regular file: " ++ path)

end Kyth.Fetch

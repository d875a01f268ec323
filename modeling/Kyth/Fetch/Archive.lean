import Kyth.Lib.Check
import Kyth.Lib.FileTree
import Kyth.Lib.Str
import Mathlib.Data.List.Sort

/-!
# Unpacking a release archive (`system/release_fetch.rs`)

`extract_archive` lists the members of an archive, refuses names that leave the destination or that are
taken, lets `tar` or `unzip` unpack it, and looks at what came out. When something is wrong it removes the
listed members again (`remove_validated`): first the members, the deepest ones first, then the parents that
are left empty.

The destination is the real directory that `dest_dir` leads to; what the tool leaves there, and how it
exits, is given.
-/

namespace Kyth.Fetch

open Check FileTree Str

/-- `MAX_ARCHIVE_MEMBERS`. -/
def maxArchiveMembers : ℕ := 100000

/-- `MAX_ARCHIVE_BYTES`. -/
def maxArchiveBytes : ℕ := 16 * 1024 * 1024 * 1024

/-- `member_parts`. -/
def memberParts (name : String) : Except String (List String) :=
  if containsChar name (Char.ofNat 0) then .error "Archive member contains a NUL byte"
  else if name.toList.any fun c => c.toNat < 0x20 || c.toNat == 0x7F then
    .error "Archive member contains control characters"
  else if startsWith name "/" then .error ("Directory traversal attempt detected: " ++ name)
  else
    let parts := (split name '/').filter fun part => part ≠ "" ∧ part ≠ "."
    if parts.contains ".." then .error ("Directory traversal attempt detected: " ++ name)
    else .ok parts

/-- The loop of `validate_members`; `seen` holds the members before. -/
def validateLoop : List String → List (List String) → Except String (List (List String))
  | [], seen => .ok seen
  | name :: members, seen => do
      let parts ← memberParts name
      if seen.any fun other => "/".intercalate other == "/".intercalate parts then
        throw ("Duplicate archive member: " ++ name)
      validateLoop members (seen ++ [parts])

/-- `validate_members`. -/
def validateMembers (members : List String) : Except String (List (List String)) :=
  if maxArchiveMembers < members.length then .error "Archive contains too many members"
  else validateLoop members []

section

variable {C : Type}

/-- The steps of a path below the destination. -/
def below (parts : List String) : List (Step String) := parts.map .down

variable (dest : Place String) (text : List String → String)

/-- The loop over the parents of a member: each is a real directory, up to the first that is missing. -/
def checkParents (t : Tree String C) (parents : List String) : Except String Unit :=
  match t.obstacle dest [] parents with
  | none => .ok ()
  | some path => .error ("Refusing to extract through a non-directory: " ++ text path)

/-- The checks of one member before anything is unpacked; `text` displays a path. -/
def checkOutput (t : Tree String C) (parts : List String) : Except String Unit :=
  if parts = [] then .ok ()
  else do
    checkParents dest text t parts.dropLast
    if (t.lstat dest (below parts)).isSome then
      throw ("Refusing to overwrite existing archive output: " ++ text parts)

/-- The checks of all members. -/
def checkOutputs (t : Tree String C) : List (List String) → Except String Unit
  | [] => .ok ()
  | parts :: members => do
      checkOutput dest text t parts
      checkOutputs t members

/-- `validate_extracted_members`, where `total` bytes have been counted. -/
def validateExtracted (size : C → ℕ) (t : Tree String C) : ℕ → List (List String) → Except String Unit
  | _, [] => .ok ()
  | total, parts :: members =>
      if parts = [] then validateExtracted size t total members
      else
        match t.lstat dest (below parts) with
        | none => .error ("Archive member was not extracted: " ++ text parts)
        | some .dir => validateExtracted size t total members
        | some (.file content) =>
            if 2 ^ 64 ≤ total + size content then .error "Archive expanded size overflow"
            else if maxArchiveBytes < total + size content then
              .error "Archive expands beyond the permitted size"
            else validateExtracted size t (total + size content) members
        | some _ => .error ("Unsupported archive member type: " ++ "/".intercalate parts)

/-- One step of the first loop of `remove_validated`; a removal that fails is passed over. -/
def removeMember (t : Tree String C) (parts : List String) : Tree String C :=
  if parts = [] then t
  else if t.stat dest (below parts) = some .dir ∧ (t.lstat dest (below parts)).any Kind.isLink = false then
    (t.removeDirAll dest (below parts)).getD t
  else (t.removeFile dest (below parts)).getD t

/-- A path with at least as many components. -/
def AtLeastAsDeep (a b : List String) : Prop := b.length ≤ a.length

instance : DecidableRel AtLeastAsDeep := fun _ _ => inferInstanceAs (Decidable (_ ≤ _))

instance : Std.Total AtLeastAsDeep := ⟨fun _ _ => le_total _ _⟩

instance : IsTrans (List String) AtLeastAsDeep := ⟨fun _ _ _ hab hbc => le_trans hbc hab⟩

/-- The members in the order in which they are removed: the ones with more components first. -/
def removalOrder (members : List (List String)) : List (List String) :=
  (members.insertionSort AtLeastAsDeep).destutter (· ≠ ·)

/-- The second loop of `remove_validated` for one member: its parents, given from the last to the first
part, are removed until that fails. -/
def removeParents (t : Tree String C) : List String → Tree String C
  | [] => t
  | part :: parents =>
      match t.removeDir dest (below (parents.reverse ++ [part])) with
      | some t' => removeParents t' parents
      | none => t

/-- `remove_validated`. -/
def removeValidated (t : Tree String C) (members : List (List String)) : Tree String C :=
  members.foldl (fun t parts => removeParents dest t parts.dropLast.reverse)
    ((removalOrder members).foldl (removeMember dest) t)

/-- `extract_archive` on a tree in which the destination has been created, for an accepted listing. The
tool leaves the tree `left` and answers `exit`: nothing, or an exit code and its messages. -/
def extractArchive (size : C → ℕ) (before left : Tree String C) (exit : Option (ℤ × String))
    (members : List (List String)) : Except String Unit × Tree String C :=
  if before.kind dest ≠ some .dir then
    (.error ("Archive destination is not a real directory: " ++ text []), before)
  else
    match checkOutputs dest text before members with
    | .error error => (.error error, before)
    | .ok () =>
        match exit with
        | none => (.error "Extraction failed: unpacking failed", removeValidated dest left members)
        | some (code, stderr) =>
            if code ≠ 0 then
              (.error ("Extraction failed: tool exited " ++ toString code ++ ": " ++ trim stderr),
                removeValidated dest left members)
            else
              match validateExtracted dest text size left 0 members with
              | .error error => (.error error, removeValidated dest left members)
              | .ok () => (.ok (), left)

end

end Kyth.Fetch

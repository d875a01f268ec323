import Kyth.Lib.Check
import Kyth.Lib.Utf8Text

/-!
# Rows of the installed fstab (`append_fstab`)

A row is validated and appended, unless some row of the file begins with the same device already: a phase that
is tried again must not leave two rows for one filesystem. Two subvolumes of one filesystem have rows with the
same device, too.

* `validateFstabLine`, `appendFstab`: the functions of the source, on what stands at the path of the file;
* `Keeps`: what an append should do;
* `append_iff`: it does so exactly when the test for duplicates can tell the rows apart.
-/

namespace Kyth.Fstab

open Str Check Rows TextLines Utf8Text

/-- `MAX_FSTAB_LINE_BYTES`. -/
def maxFstabLineBytes : ℕ := 4096

/-- What stands at the path. -/
inductive FstabFile
  | absent
  | symlink
  | directory
  | regular (content : List UInt8)
  deriving DecidableEq, Repr

/-- `safe_root`. -/
def safeRoot (value : String) : Except String String :=
  let value := trim value
  if !startsWith value "/" || contains value ".." || value.utf8ByteSize > 4096 then
    throw "target root must be an absolute safe path."
  else if !all value (fun c => isAsciiAlphanumeric c || c == '/' || c == '.' || c == '_' || c == '+' ||
      c == ':' || c == '-') then
    throw "target root contains unsupported characters."
  else pure value

/-- `safe_absolute_path`. -/
def safeAbsolutePath (raw label : String) : Except String String :=
  let value := trim raw
  if value = "" || value.utf8ByteSize > 4096 || !startsWith value "/" || contains value ".." ||
      contains value "//" ||
      !all value (fun c => isAsciiAlphanumeric c || c == '/' || c == '.' || c == '_' || c == '+' ||
        c == ':' || c == '-') then
    throw (label ++ " must be an absolute safe path.")
  else pure value

/-- `safe_fstab_path`. -/
def safeFstabPath (raw : String) : Except String String := do
  let path ← safeRoot raw
  if !endsWith path "/etc/fstab" then throw "fstab path must point to an installed /etc/fstab"
  else pure path

/-- `u8::is_ascii_control`. -/
def isAsciiControl (c : Char) : Bool := c.toNat < 0x20 || c.toNat == 0x7F

/-- The prefix of a device field. -/
def uuidPrefix : List Char := "UUID=".toList

/-- `validate_fstab_line`. -/
def validateFstabLine (line : List Char) : Except String Unit :=
  if line = [] ∨ (encode line).length > maxFstabLineBytes ∨ line.getLast? ≠ some '\n' then
    throw "fstab entry must be one bounded line"
  else if line.dropLast.any isAsciiControl then throw "fstab entry contains control characters"
  else
    match words line with
    | [device, mountpoint, fstype, options, dump, pass] =>
        if !uuidPrefix.isPrefixOf device then throw "fstab entry has an unsupported shape"
        else if device.length ≤ uuidPrefix.length ∨
            !(device.drop uuidPrefix.length).all (fun c => isAsciiHexdigit c || c == '-') ∨
            (mountpoint ≠ "none".toList ∧
              ¬ Passes (safeAbsolutePath (String.ofList mountpoint) "fstab mount point")) ∨
            !fstype.all (fun c => isAsciiAlphanumeric c || c == '.' || c == '_' || c == '-') ∨
            !options.all (fun c => isAsciiAlphanumeric c || c == '=' || c == ',' || c == ':' || c == '.' ||
              c == '_' || c == '+' || c == '@' || c == '-') ∨
            dump ≠ ['0'] ∨ (pass ≠ ['0'] ∧ pass ≠ ['2']) then
          throw "fstab entry contains unsupported values"
        else pure ()
    | _ => throw "fstab entry has an unsupported shape"

/-- A row of the file begins with the device of the new row. -/
def hasDevice (existing line : List Char) : Bool :=
  (lines existing).any fun row => (words row).head? == some ((words line).headD [])

/-- The test for duplicates: a file that is no text is not searched. -/
def isDuplicate (content : List UInt8) (line : List Char) : Bool :=
  (decode content).any fun existing => hasDevice existing line

/-- What `append_fstab` does with an accepted row. -/
def appendRow (line : List Char) : FstabFile → Except String FstabFile
  | .symlink => throw "fstab path must not be a symlink"
  | .directory => throw "could not open installed fstab: Is a directory (os error 21)"
  | .absent => pure (.regular (encode line))
  | .regular content =>
      if isDuplicate content line then pure (.regular content)
      else pure (.regular (closed newline content ++ encode line))

/-- `append_fstab`, as long as no file operation fails. -/
def appendFstab (path : String) (line : List Char) (file : FstabFile) : Except String FstabFile := do
  let _ ← safeFstabPath path
  validateFstabLine line
  appendRow line file

/-! ### What an append should do -/

/-- The bytes of the file. -/
def FstabFile.bytes : FstabFile → List UInt8
  | .regular content => content
  | _ => []

/-- Two rows mount the same, judged by their first `k` fields: the device and the mount point, with the type
and the options, or all six. -/
def SameMount (k : ℕ) (row row' : List Char) : Prop := (words row).take k = (words row').take k

instance (k : ℕ) (row row' : List Char) : Decidable (SameMount k row row') := by
  unfold SameMount
  infer_instance

/-- The file has a row that mounts what the new row mounts, its earlier rows are all there in their order, and
a second call with the same row changes nothing. -/
structure Keeps (k : ℕ) (path : String) (line : List Char) (file file' : FstabFile) : Prop where
  mounted : ∃ row ∈ rows newline file'.bytes, ∃ text, decode row = some text ∧ SameMount k text line
  kept : rows newline file.bytes <+: rows newline file'.bytes
  again : appendFstab path line file' = .ok file'

/-- There is no file yet; or it is a text in which no row has the device of the new row, or some row mounts
the same. -/
def TellsApart (k : ℕ) (line : List Char) : FstabFile → Prop
  | .regular content => ∃ text, decode content = some text ∧
      ((∀ row ∈ lines text, (words row).head? ≠ (words line).head?) ∨
        ∃ row ∈ lines text, SameMount k row line)
  | _ => True

/-! ### The row -/

section Append

variable {path : String} {line : List Char} {file file' : FstabFile} {content : List UInt8}

/-- What an accepted row looks like. -/
theorem validateFstabLine_spec (h : Passes (validateFstabLine line)) :
    ∃ row device rest, line = row ++ ['\n'] ∧ '\n' ∉ row ∧ words line = device :: rest := by
  unfold validateFstabLine at h
  rw [passes_ite_throw, not_or, not_or, not_not] at h
  obtain ⟨⟨-, -, hend⟩, h⟩ := h
  rw [passes_ite_throw] at h
  obtain ⟨hcontrol, h⟩ := h
  refine ⟨line.dropLast, ?_⟩
  have hfree : '\n' ∉ line.dropLast := fun hmem =>
    hcontrol (List.any_eq_true.2 ⟨'\n', hmem, by decide⟩)
  split at h
  · rename_i device mountpoint fstype options dump pass hwords
    exact ⟨device, _, (List.dropLast_append_getLast? _ hend).symm, hfree, hwords⟩
  · exact absurd h (not_passes_throw _)

theorem bytes_line {row : List Char} (hline : line = row ++ ['\n']) :
    encode line = encode row ++ [newline] := by
  rw [hline, encode_append, encode_newline]

theorem words_line {row : List Char} (hline : line = row ++ ['\n']) : words line = words row := by
  have hspace : isWhitespace '\n' = true := by decide
  rw [hline, words_concat hspace]

/-- One call. -/
theorem appendFstab_eq_ok :
    appendFstab path line file = .ok file' ↔ Passes (safeFstabPath path) ∧
      Passes (validateFstabLine line) ∧ appendRow line file = .ok file' := by
  unfold appendFstab
  rw [bind_eq_ok]
  constructor
  · rintro ⟨checked, hpath, h⟩
    obtain ⟨valid, hline, h⟩ := bind_eq_ok.1 h
    exact ⟨⟨checked, hpath⟩, ⟨valid, hline⟩, h⟩
  · rintro ⟨⟨checked, hpath⟩, ⟨valid, hline⟩, h⟩
    exact ⟨checked, hpath, bind_eq_ok.2 ⟨valid, hline, h⟩⟩

/-- A file that was written to ends with the new row. -/
theorem rows_appended {row : List Char} (hline : line = row ++ ['\n']) (hfree : '\n' ∉ row) :
    rows newline (closed newline content ++ encode line) = rows newline content ++ [encode row] := by
  rw [bytes_line hline, rows_closed_append (newline_not_mem_encode hfree)]

/-- The appended row is found by the next call. -/
theorem isDuplicate_appended {text : List Char} (hvalid : Passes (validateFstabLine line)) :
    isDuplicate (closed newline (encode text) ++ encode line) line = true := by
  obtain ⟨row, device, rest, hline, hfree, hwords⟩ := validateFstabLine_spec hvalid
  rw [closed_encode, ← encode_append, isDuplicate, decode_encode, Option.any_some]
  unfold hasDevice
  rw [hline, ← terminate, lines_terminate_append, lines_line hfree, lines_nil, ← hline]
  refine List.any_eq_true.2 ⟨stripCr row, List.mem_append_right _ List.mem_cons_self, ?_⟩
  rw [words_stripCr, ← words_line hline, hwords]
  exact beq_self_eq_true _

theorem isDuplicate_iff {text : List Char} (hvalid : Passes (validateFstabLine line)) :
    isDuplicate (encode text) line = true ↔ ∃ row ∈ lines text, (words row).head? = (words line).head? := by
  obtain ⟨-, device, rest, -, -, hwords⟩ := validateFstabLine_spec hvalid
  rw [isDuplicate, decode_encode, Option.any_some, hasDevice, List.any_eq_true, hwords]
  simp

/-- A text has a row that mounts the same, whether it is read by its bytes or by its lines. -/
theorem exists_row_iff (k : ℕ) (text line : List Char) :
    (∃ row ∈ rows newline (encode text), ∃ found, decode row = some found ∧ SameMount k found line) ↔
      ∃ row ∈ lines text, SameMount k row line := by
  have hmap := map_words_lines text
  have hwords : ∀ fields : List (List Char),
      (∃ row ∈ lines text, words row = fields) ↔ ∃ row ∈ rows '\n' text, words row = fields := by
    intro fields
    have hmem : fields ∈ (lines text).map words ↔ fields ∈ (rows '\n' text).map words := by rw [hmap]
    rwa [List.mem_map, List.mem_map] at hmem
  rw [rows_encode]
  constructor
  · rintro ⟨bytes, hbytes, found, hfound, hsame⟩
    obtain ⟨row, hrow, rfl⟩ := List.mem_map.1 hbytes
    rw [decode_encode, Option.some.injEq] at hfound
    obtain ⟨row', hrow', heq⟩ := (hwords (words row)).2 ⟨row, hrow, rfl⟩
    refine ⟨row', hrow', ?_⟩
    rw [SameMount, heq, hfound]
    exact hsame
  · rintro ⟨row, hrow, hsame⟩
    obtain ⟨row', hrow', heq⟩ := (hwords (words row)).1 ⟨row, hrow, rfl⟩
    refine ⟨encode row', List.mem_map_of_mem hrow', row', decode_encode row', ?_⟩
    rw [SameMount, heq]
    exact hsame

/-- Every file and every accepted row, however many fields tell what a row mounts. -/
theorem append_iff (k : ℕ) (h : appendFstab path line file = .ok file') :
    Keeps k path line file file' ↔ TellsApart k line file := by
  obtain ⟨hpath, hvalid, hstep⟩ := appendFstab_eq_ok.1 h
  obtain ⟨row, device, rest, hline, hfree, hwords⟩ := validateFstabLine_spec hvalid
  have hrow : ∃ text, decode (encode row) = some text ∧ SameMount k text line :=
    ⟨row, decode_encode row, congrArg (List.take k) (words_line hline).symm⟩
  have hagain : ∀ {file'' : FstabFile}, appendRow line file'' = .ok file'' →
      appendFstab path line file'' = .ok file'' := fun hsame =>
    appendFstab_eq_ok.2 ⟨hpath, hvalid, hsame⟩
  cases file with
  | symlink => cases hstep
  | directory => cases hstep
  | absent =>
    cases hstep
    refine iff_of_true ⟨?_, ?_, hagain ?_⟩ trivial
    · have hrows := @rows_appended line [] row hline hfree
      rw [closed_nil, List.nil_append, rows_nil, List.nil_append] at hrows
      rw [FstabFile.bytes, hrows]
      exact ⟨encode row, List.mem_singleton_self _, hrow⟩
    · exact List.nil_prefix
    · have hduplicate := @isDuplicate_appended line [] hvalid
      rw [encode_nil, closed_nil, List.nil_append] at hduplicate
      rw [appendRow, if_pos hduplicate]
      rfl
  | regular content =>
    by_cases hduplicate : isDuplicate content line = true
    · -- nothing is written
      rw [appendRow, if_pos hduplicate] at hstep
      cases hstep
      cases hdecode : decode content with
      | none =>
        rw [isDuplicate, hdecode] at hduplicate
        cases hduplicate
      | some text =>
        rw [decode_eq_some.1 hdecode] at hduplicate h ⊢
        obtain ⟨found, hfound, hhead⟩ := (isDuplicate_iff hvalid).1 hduplicate
        constructor
        · intro hkeeps
          exact ⟨text, decode_encode text, .inr ((exists_row_iff k text line).1 hkeeps.mounted)⟩
        · rintro ⟨text', htext, hcases⟩
          rw [decode_encode, Option.some.injEq] at htext
          rw [← htext] at hcases
          have hsame := hcases.resolve_left fun hnone => hnone found hfound hhead
          exact ⟨(exists_row_iff k text line).2 hsame, List.prefix_rfl, h⟩
    · rw [appendRow, if_neg hduplicate] at hstep
      cases hstep
      have hmounted : ∃ bytes ∈ rows newline (closed newline content ++ encode line),
          ∃ text, decode bytes = some text ∧ SameMount k text line := by
        rw [rows_appended hline hfree]
        exact ⟨encode row, List.mem_append_right _ List.mem_cons_self, hrow⟩
      have hkept : rows newline content <+: rows newline (closed newline content ++ encode line) := by
        rw [rows_appended hline hfree]
        exact List.prefix_append _ _
      cases hdecode : decode content with
      | none =>
        -- the file is no text afterwards either, and the next call appends the row again
        refine iff_of_false (fun hkeeps => ?_) fun ⟨text, htext, _⟩ => ?_
        · obtain ⟨-, -, hsecond⟩ := appendFstab_eq_ok.1 hkeeps.again
          have hnone : isDuplicate (closed newline content ++ encode line) line = false := by
            rw [isDuplicate, decode_closed_append hdecode]
            rfl
          rw [appendRow, hnone, if_neg Bool.false_ne_true, pure, Except.instMonad] at hsecond
          have hlength := congrArg (List.length ∘ FstabFile.bytes) (Except.ok.inj hsecond)
          have hended := (prefix_closed newline (closed newline content ++ encode line)).length_le
          have hpos : 0 < (encode line).length := by
            rw [bytes_line hline]
            simp
          simp only [Function.comp, FstabFile.bytes, List.length_append] at hlength hended
          omega
        · rw [hdecode] at htext
          cases htext
      | some text =>
        have hcontent := decode_eq_some.1 hdecode
        refine iff_of_true ⟨hmounted, hkept, hagain ?_⟩ ⟨text, hdecode, .inl fun other hother hhead => ?_⟩
        · rw [appendRow, if_pos (hcontent ▸ isDuplicate_appended hvalid)]
          rfl
        · exact hduplicate (hcontent ▸ (isDuplicate_iff hvalid).2 ⟨other, hother, hhead⟩)

end Append

/-- A row is added behind a last one that lacks its newline. -/
theorem row_added_once :
    Keeps 6 "/mnt/target/etc/fstab" "UUID=1b-2 /boot ext4 defaults 0 2\n".toList
      (.regular (encode "# root\nUUID=1a-2 / btrfs subvol=@ 0 0".toList))
      (.regular (closed newline (encode "# root\nUUID=1a-2 / btrfs subvol=@ 0 0".toList) ++
        encode "UUID=1b-2 /boot ext4 defaults 0 2\n".toList)) := by
  have hnew : hasDevice "# root\nUUID=1a-2 / btrfs subvol=@ 0 0".toList
      "UUID=1b-2 /boot ext4 defaults 0 2\n".toList = false := by decide
  refine (append_iff 6 (appendFstab_eq_ok.2 ⟨by decide, by decide, ?_⟩)).2
    ⟨_, decode_encode _, .inl (by decide)⟩
  rw [appendRow, isDuplicate, decode_encode, Option.any_some, hnew]
  rfl

/-- The row of a second subvolume is taken for a duplicate of the first one's: nothing is written, and the
caller is told that all is well. -/
theorem second_subvolume_not_written :
    appendFstab "/mnt/target/etc/fstab" "UUID=1a-2 /var/home btrfs subvol=@home,compress=zstd:1 0 0\n".toList
        (.regular (encode "UUID=1a-2 / btrfs subvol=@ 0 0\n".toList)) =
      .ok (.regular (encode "UUID=1a-2 / btrfs subvol=@ 0 0\n".toList)) ∧
    ¬ Keeps 2 "/mnt/target/etc/fstab" "UUID=1a-2 /var/home btrfs subvol=@home,compress=zstd:1 0 0\n".toList
      (.regular (encode "UUID=1a-2 / btrfs subvol=@ 0 0\n".toList))
      (.regular (encode "UUID=1a-2 / btrfs subvol=@ 0 0\n".toList)) := by
  have hfound : hasDevice "UUID=1a-2 / btrfs subvol=@ 0 0\n".toList
      "UUID=1a-2 /var/home btrfs subvol=@home,compress=zstd:1 0 0\n".toList = true := by decide
  have hok : appendFstab "/mnt/target/etc/fstab"
      "UUID=1a-2 /var/home btrfs subvol=@home,compress=zstd:1 0 0\n".toList
        (.regular (encode "UUID=1a-2 / btrfs subvol=@ 0 0\n".toList)) =
      .ok (.regular (encode "UUID=1a-2 / btrfs subvol=@ 0 0\n".toList)) := by
    refine appendFstab_eq_ok.2 ⟨by decide, by decide, ?_⟩
    rw [appendRow, isDuplicate, decode_encode, Option.any_some, hfound]
    rfl
  refine ⟨hok, fun hkeeps => ?_⟩
  obtain ⟨text, htext, hcases⟩ := (append_iff 2 hok).1 hkeeps
  rw [decode_encode, Option.some.injEq] at htext
  subst htext
  revert hcases
  decide

end Kyth.Fstab

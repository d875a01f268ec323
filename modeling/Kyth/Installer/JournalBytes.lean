import Kyth.Installer.StoragePhase
import Kyth.Lib.JsonText
import Kyth.Lib.Utf8Text

/-!
# The crash-recovery journal on a disk (`installer_durable_journal.rs`)

The journal is a file of bytes. It is read only up to a size, and written without a limit: as a temporary file
beside it that is renamed over it, then read back, and once more when it does not read back.

* `load_bytes`: what is written reads back as it was, up to the size that is read;
* `writeState_eq`: what a write does, when it fits and when it does not.
-/

namespace Kyth.OnDisk

open Str Json Check Durable JsonText Utf8Text
open Kyth.Executor (safeDirectory)

/-- `MAX_JOURNAL_BYTES`. -/
def maxJournalBytes : ℕ := 1024 * 1024

/-! ### The bytes -/

/-- An entry of the document. The keys of a map are kept and written in their order. -/
def storedOp (op : JournalOp) : Value :=
  .object [("completed", (op.completed.map Value.nat).getD .null), ("name", .string op.name.text),
    ("started", .nat op.started)]

/-- The document of `write_state`, as it is read back. -/
def stored (state : JournalState) : Value :=
  .object [("ops", .array (state.ops.map storedOp)), ("schema_version", .nat 1)]

/-- The text of an entry. -/
def opText (op : JournalOp) : List Char :=
  objectText [("completed", (op.completed.map natText).getD nullText), ("name", quoted op.name.text),
    ("started", natText op.started)]

/-- `serde_json::to_vec` of the document. -/
def journalBytes (state : JournalState) : List UInt8 :=
  encode (objectText [("ops", arrayText (state.ops.map opText)), ("schema_version", natText 1)])

/-- `serde_json::from_slice` reads what `to_vec` wrote. -/
def ReadsBack (fromSlice : List UInt8 → Except String Value) : Prop :=
  ∀ state, fromSlice (journalBytes state) = .ok (stored state)

/-- A reader of compact texts. -/
def readBytes (bytes : List UInt8) : Except String Value :=
  match (decode bytes).bind read with
  | some value => .ok value
  | none => .error "expected value at line 1 column 1"

/-! ### The disk -/

/-- A path: `Path::parent`, and the name of the file. -/
structure FilePath where
  parent : Option String
  name : String
  deriving DecidableEq

/-- `Path::display`. -/
def FilePath.text (path : FilePath) : String := (path.parent.map (· ++ "/")).getD "" ++ path.name

/-- `Path::file_stem`: the part in front of the last dot, unless the name begins with it. -/
def fileStem (name : String) : String :=
  match name.toList.reverse.dropWhile (· ≠ '.') with
  | _ :: c :: before => String.ofList (c :: before).reverse
  | _ => name

/-- `Path::with_extension("json.tmp")`. -/
def FilePath.temporary (path : FilePath) : FilePath :=
  { path with name := fileStem path.name ++ ".json.tmp" }

/-- The components of a path. -/
def components (path : FilePath) : Bool × List String :=
  (startsWith path.text "/", (split path.text '/').filter fun part => part ≠ "" ∧ part ≠ ".")

/-- What is at a path. -/
inductive Entry
  | absent
  | symlink
  | directory
  | regular (bytes : List UInt8)
  deriving DecidableEq

/-- The files, and the directories that paths lead to, over links and mounts. -/
structure Disk where
  locate : Option String → ℕ
  files : ℕ × String → Entry

/-- The place of a path. -/
def Disk.place (disk : Disk) (path : FilePath) : ℕ × String := (disk.locate path.parent, path.name)

/-- What is at a path. -/
def Disk.entry (disk : Disk) (path : FilePath) : Entry := disk.files (disk.place path)

/-- Put something at a path. -/
def Disk.put (disk : Disk) (path : FilePath) (entry : Entry) : Disk :=
  { disk with files := Function.update disk.files (disk.place path) entry }

/-- The disk when a temporary file with some bytes was renamed over the file. -/
def Disk.written (disk : Disk) (path : FilePath) (bytes : List UInt8) : Disk :=
  (disk.put path.temporary .absent).put path (.regular bytes)

/-- A call fails in a file operation, or on a check of its own. -/
inductive Fault
  | file (message : String)
  | check (message : String)
  deriving DecidableEq

def Fault.context (label : String) : Fault → Fault
  | .file message => .file (label ++ message)
  | .check message => .check (label ++ message)

/-- `read_regular_file`. -/
def readRegularFile (path : String) : Entry → Except Fault (List UInt8)
  | .absent => throw (.file ("could not inspect " ++ path ++ ": No such file or directory (os error 2)"))
  | .symlink => throw (.check (path ++ " is missing or not a regular file"))
  | .directory => throw (.check (path ++ " is missing or not a regular file"))
  | .regular bytes =>
      if maxJournalBytes < bytes.length then throw (.check (path ++ " is too large to be an install journal"))
      else pure bytes

section Journal

variable (fromSlice : List UInt8 → Except String Value)

/-- `DurableJournal::load`. -/
def loadAt (disk : Disk) (path : FilePath) : Except Fault JournalState := do
  let raw ← readRegularFile path.text (disk.entry path)
  match fromSlice raw with
  | .error error => throw (.check ("install journal is invalid: " ++ error))
  | .ok value => (load path.text (.document value)).mapError .check

/-- The path is below a safe directory. -/
def IsSafe (path : FilePath) : Prop :=
  ∃ parent, path.parent = some parent ∧ safeDirectory parent "journal directory" = .ok ()

/-- `DurableJournal`: a handle is only made for a path below a safe directory. -/
structure Handle where
  path : FilePath
  safe : IsSafe path

/-- `write_atomically`. -/
def writeAtomically (path : FilePath) (bytes : List UInt8) : Action Disk Fault Unit := do
  match path.parent with
  | none => throw (.check "journal path has no parent directory")
  | some parent =>
      Action.check ((safeDirectory parent "journal directory").mapError .check)
      let disk ← Action.get
      if disk.entry path.temporary = .directory then
        throw (.file "could not create temporary journal: File exists (os error 17)")
      else if disk.entry path = .directory then do
        -- the temporary file is removed again
        Action.modify fun disk => disk.put path.temporary .absent
        throw (.file "could not replace journal: Is a directory (os error 21)")
      else Action.modify fun disk => disk.written path bytes

/-- The journal reads back with the records that were written. -/
def verified (disk : Disk) (path : FilePath) (state : JournalState) : Except Fault Bool := do
  let reloaded ← loadAt fromSlice disk path
  return reloaded.ops.length == state.ops.length

/-- `write_state`. -/
def writeState (path : FilePath) (state : JournalState) : Action Disk Fault Unit := do
  writeAtomically path (journalBytes state)
  let disk ← Action.get
  if verified fromSlice disk path state = .ok true then return ()
  else do
    -- once more
    writeAtomically path (journalBytes state)
    let disk ← Action.get
    match loadAt fromSlice disk path with
    | .error fault => throw (fault.context "install journal failed verification after write: ")
    | .ok reloaded =>
        if reloaded.ops.length = state.ops.length then return ()
        else throw (.check ("install journal record count mismatch after write: expected " ++
          toString state.ops.length ++ ", found " ++ toString reloaded.ops.length))

/-- `DurableJournal::record`, at a time that the clock tells. -/
def record (journal : Handle) (op : String) (state : OpState) (now : Except String UInt64) :
    Action Disk Fault Unit := do
  let name ← Action.check ((validatedOpName op).mapError .check)
  let now ← Action.check (now.mapError .check)
  let disk ← Action.get
  let current ← Action.check (loadAt fromSlice disk journal.path)
  writeState fromSlice journal.path (recordIn name now current state)

/-- The handle for the destination of `relocate`. -/
def destination (dest : FilePath) : Except String Handle :=
  match hparent : dest.parent with
  | none => .error "journal destination has no parent directory"
  | some parent =>
      match hsafe : safeDirectory parent "journal destination directory" with
      | .error message => .error message
      | .ok () => .ok ⟨dest, parent, hparent, by
          unfold safeDirectory at hsafe ⊢
          split_ifs at hsafe ⊢
          rfl⟩

/-- The records that `relocate` writes. -/
def relocated (disk : Disk) (dest : FilePath) (staging : JournalState) : JournalState :=
  match loadAt fromSlice disk dest with
  | .ok existing => mergeJournalStates staging existing
  | .error _ => staging -- nothing there, or a corrupt journal

/-- `DurableJournal::relocate`. -/
def relocate (journal : Handle) (dest : FilePath) : Action Disk Fault Handle := do
  if components dest = components journal.path then return journal
  else do
    let moved ← Action.check ((destination dest).mapError .check)
    let disk ← Action.get
    let staging ← Action.check (loadAt fromSlice disk journal.path)
    writeState fromSlice moved.path (relocated fromSlice disk dest staging)
    return moved

end Journal

/-! ### What is written reads back -/

theorem isPlain_of_isOpNameChar {c : Char} (h : isOpNameChar c = true) : isPlain c = true := by
  simp only [isOpNameChar, isAsciiDigit, Bool.or_eq_true, Bool.and_eq_true, decide_eq_true_eq,
    beq_iff_eq] at h
  have hcode : c.toNat ≠ 34 ∧ c.toNat ≠ 92 ∧ 32 ≤ c.toNat ∧ c.toNat < 128 := by
    rcases h with (h | h) | rfl
    · omega
    · omega
    · decide
  simp only [isPlain, Bool.and_eq_true, bne_iff_ne, decide_eq_true_eq]
  refine ⟨⟨?_, ?_⟩, hcode.2.2.1⟩
  · rintro rfl
    exact hcode.1 rfl
  · rintro rfl
    exact hcode.2.1 rfl

theorem isOpNameChar_of_mem (name : OpName) : ∀ c ∈ name.text.toList, isOpNameChar c = true := by
  have hvalid := name.valid
  unfold checkedOpName at hvalid
  dsimp only at hvalid
  split_ifs at hvalid with hlength hchars
  rw [Except.ok.injEq] at hvalid
  rw [hvalid] at hchars
  exact List.all_eq_true.1 hchars

theorem reads_op (op : JournalOp) : Reads (opText op) (storedOp op) := by
  have hname : ∀ c ∈ op.name.text.toList, isPlain c = true := fun c hc =>
    isPlain_of_isOpNameChar (isOpNameChar_of_mem op.name c hc)
  have hcompleted : Reads ((op.completed.map natText).getD nullText)
      ((op.completed.map Value.nat).getD .null) := by
    cases op.completed with
    | none => exact reads_null
    | some time => exact reads_nat time
  exact reads_object (.cons (readsMember (by decide) hcompleted)
    (.cons (readsMember (by decide) (reads_quoted hname))
      (.cons (readsMember (by decide) (reads_nat op.started)) .nil)))

/-- The reader of compact texts is one. -/
theorem readsBack_readBytes : ReadsBack readBytes := by
  intro state
  have hops : List.Forall₂ Reads (state.ops.map opText) (state.ops.map storedOp) := by
    rw [List.forall₂_map_left_iff, List.forall₂_map_right_iff]
    exact List.forall₂_same.2 fun op _ => reads_op op
  have hdocument : Reads (objectText [("ops", arrayText (state.ops.map opText)),
      ("schema_version", natText 1)]) (stored state) :=
    reads_object (.cons (readsMember (by decide) (reads_array hops))
      (.cons (readsMember (by decide) (reads_nat 1)) .nil))
  rw [readBytes, journalBytes, decode_encode, Option.bind_some, read_eq hdocument]

theorem loadOp_storedOp (op : JournalOp) : loadOp (storedOp op) = .ok op := by
  obtain ⟨name, started, completed⟩ := op
  have hname : (storedOp ⟨name, started, completed⟩).get "name" = some (.string name.text) := rfl
  have hstarted : (storedOp ⟨name, started, completed⟩).get "started" = some (.nat started) := rfl
  have hcompleted : ((storedOp ⟨name, started, completed⟩).get "completed").bind Value.asU64 =
      completed := by
    cases completed <;> rfl
  simp only [loadOp, hname, hstarted, hcompleted, Option.bind_some, Value.asStr, validatedOpName_text]
  rfl

theorem load_stored (path : String) (state : JournalState) :
    load path (.document (stored state)) = .ok state := by
  have hops : ∀ ops : List JournalOp, (ops.map storedOp).mapM loadOp = .ok ops := by
    intro ops
    induction ops with
    | nil => rfl
    | cons op ops ih =>
      rw [List.map_cons, List.mapM_cons, loadOp_storedOp, ih]
      rfl
  have harray : (((stored state).get "ops").bind Value.asArray).getD [] = state.ops.map storedOp := rfl
  have hschema : ((stored state).get "schema_version").bind Value.asU64 = some 1 := rfl
  simp only [load, hschema, harray, hops]
  rfl

section Disk

variable {fromSlice : List UInt8 → Except String Value} {disk : Disk} {path other : FilePath}
  {entry : Entry} {state : JournalState}

@[simp] theorem put_place (disk : Disk) (path other : FilePath) (entry : Entry) :
    (disk.put path entry).place other = disk.place other := rfl

@[simp] theorem put_entry_self (disk : Disk) (path : FilePath) (entry : Entry) :
    (disk.put path entry).entry path = entry := Function.update_self _ _ _

theorem put_entry_of_ne (h : disk.place other ≠ disk.place path) :
    (disk.put path entry).entry other = disk.entry other := Function.update_of_ne h _ _

theorem loadAt_congr {disk' : Disk} (h : disk'.entry path = disk.entry path) :
    loadAt fromSlice disk' path = loadAt fromSlice disk path := by
  unfold loadAt
  rw [h]

/-- A journal that fits is read as it was written. -/
theorem load_bytes (hread : ReadsBack fromSlice) (h : (journalBytes state).length ≤ maxJournalBytes)
    (hentry : disk.entry path = .regular (journalBytes state)) :
    loadAt fromSlice disk path = .ok state := by
  have hraw : readRegularFile path.text (disk.entry path) = .ok (journalBytes state) := by
    rw [hentry, readRegularFile, if_neg (Nat.not_lt.2 h)]
    rfl
  refine bind_eq_ok.2 ⟨_, hraw, ?_⟩
  rw [hread state]
  dsimp only
  rw [load_stored]
  rfl

/-- A journal that does not fit is not read at all. -/
theorem load_oversized (fromSlice : List UInt8 → Except String Value) {bytes : List UInt8} (h : maxJournalBytes < bytes.length)
    (hentry : disk.entry path = .regular bytes) :
    loadAt fromSlice disk path = .error (.check (path.text ++ " is too large to be an install journal")) := by
  unfold loadAt
  rw [hentry, readRegularFile, if_pos h]
  rfl

/-! ### A write -/

/-- The temporary file is not the journal. -/
theorem fileStem_append_ne (name : String) : fileStem name ++ ".json.tmp" ≠ name := by
  intro heq
  have hchars := congrArg String.toList heq
  rw [String.toList_append] at hchars
  unfold fileStem at hchars
  split at hchars
  · rename_i d c before hdrop
    -- the extension has no dot, but the new one has
    have hdot : d = '.' := by
      have hhead := List.head?_dropWhile_not (fun c => decide (c ≠ '.')) name.toList.reverse
      rw [hdrop, List.head?_cons] at hhead
      simpa using hhead
    obtain ⟨ext, hext⟩ : ∃ ext, ext = name.toList.reverse.takeWhile (· ≠ '.') := ⟨_, rfl⟩
    have hsplit : ext ++ d :: c :: before = name.toList.reverse := by
      rw [hext, ← hdrop, List.takeWhile_append_dropWhile]
    have hname : name.toList = (c :: before).reverse ++ '.' :: ext.reverse := by
      rw [← List.reverse_reverse name.toList, ← hsplit, hdot, List.reverse_append, List.reverse_cons,
        List.append_assoc, List.singleton_append]
    rw [String.toList_ofList, hname, List.append_cancel_left_eq] at hchars
    have hmem : '.' ∈ ext.reverse := by
      have htail := congrArg List.tail hchars
      rw [List.tail_cons] at htail
      rw [← htail]
      decide
    rw [List.mem_reverse, hext] at hmem
    have hno := List.mem_takeWhile_imp hmem
    simp at hno
  · have hlength := congrArg List.length hchars
    rw [List.length_append] at hlength
    have hpos : ".json.tmp".toList.length = 9 := rfl
    omega

theorem temporary_place_ne (disk : Disk) (path : FilePath) : disk.place path.temporary ≠ disk.place path :=
  fun heq => fileStem_append_ne path.name (congrArg Prod.snd heq)

variable {bytes : List UInt8}

@[simp] theorem written_entry_self (disk : Disk) (path : FilePath) (bytes : List UInt8) :
    (disk.written path bytes).entry path = .regular bytes :=
  put_entry_self _ _ _

@[simp] theorem written_entry_temporary (disk : Disk) (path : FilePath) (bytes : List UInt8) :
    (disk.written path bytes).entry path.temporary = .absent := by
  have hne : (disk.put path.temporary .absent).place path.temporary ≠
      (disk.put path.temporary .absent).place path := temporary_place_ne disk path
  rw [Disk.written, put_entry_of_ne hne, put_entry_self]

/-- A write leaves every other file alone. -/
theorem written_entry_of_ne (htemporary : disk.place other ≠ disk.place path.temporary)
    (hpath : disk.place other ≠ disk.place path) :
    (disk.written path bytes).entry other = disk.entry other := by
  have hpath' : (disk.put path.temporary .absent).place other ≠
      (disk.put path.temporary .absent).place path := hpath
  rw [Disk.written, put_entry_of_ne hpath', put_entry_of_ne htemporary]

theorem written_written : (disk.written path bytes).written path bytes = disk.written path bytes := by
  have hfiles : ((disk.written path bytes).written path bytes).files = (disk.written path bytes).files := by
    funext place
    show Function.update (Function.update (disk.written path bytes).files (disk.place path.temporary)
      .absent) (disk.place path) (.regular bytes) place = (disk.written path bytes).files place
    by_cases hpath : place = disk.place path
    · rw [hpath, Function.update_self]
      exact (written_entry_self disk path bytes).symm
    · rw [Function.update_of_ne hpath]
      by_cases htemporary : place = disk.place path.temporary
      · rw [htemporary, Function.update_self]
        exact (written_entry_temporary disk path bytes).symm
      · rw [Function.update_of_ne htemporary]
  unfold Disk.written at hfiles ⊢
  exact congrArg (Disk.mk disk.locate) hfiles

/-- Neither the file nor the temporary one is a directory, which a file operation would stumble over. -/
def Writable (disk : Disk) (path : FilePath) : Prop :=
  disk.entry path.temporary ≠ .directory ∧ disk.entry path ≠ .directory

instance (disk : Disk) (path : FilePath) : Decidable (Writable disk path) :=
  inferInstanceAs (Decidable (_ ∧ _))

theorem writeAtomically_apply (hsafe : IsSafe path) :
    writeAtomically path bytes disk =
      if disk.entry path.temporary = .directory then
        (.error (.file "could not create temporary journal: File exists (os error 17)"), disk)
      else if disk.entry path = .directory then
        (.error (.file "could not replace journal: Is a directory (os error 21)"),
          disk.put path.temporary .absent)
      else (.ok (), disk.written path bytes) := by
  obtain ⟨parent, hparent, hdirectory⟩ := hsafe
  unfold writeAtomically
  rw [hparent]
  dsimp only
  rw [hdirectory]
  show (if disk.entry path.temporary = .directory then _ else if disk.entry path = .directory then _
    else _ : Action Disk Fault Unit) disk = _
  split_ifs <;> rfl

theorem writeAtomically_eq (bytes : List UInt8) (hsafe : IsSafe path) (h : Writable disk path) :
    writeAtomically path bytes disk = (.ok (), disk.written path bytes) := by
  rw [writeAtomically_apply hsafe, if_neg h.1, if_neg h.2]

/-- A write that stumbles over a directory leaves the journal alone. -/
theorem writeAtomically_blocked (bytes : List UInt8) (hsafe : IsSafe path) (h : ¬ Writable disk path) :
    ∃ message disk', writeAtomically path bytes disk = (.error (.file message), disk') ∧
      (disk' = disk ∨ disk' = disk.put path.temporary .absent ∧ disk.entry path = .directory) := by
  rw [writeAtomically_apply hsafe]
  by_cases htemporary : disk.entry path.temporary = .directory
  · rw [if_pos htemporary]
    exact ⟨_, disk, rfl, .inl rfl⟩
  · have hpath : disk.entry path = .directory := by
      by_contra hother
      exact h ⟨htemporary, hother⟩
    rw [if_neg htemporary, if_pos hpath]
    exact ⟨_, _, rfl, .inr ⟨rfl, hpath⟩⟩

/-- A write that meets no directory: the file has the new bytes, and the call succeeds when they fit. -/
theorem writeState_eq (state : JournalState) (hread : ReadsBack fromSlice) (hsafe : IsSafe path)
    (h : Writable disk path) :
    writeState fromSlice path state disk =
      (if (journalBytes state).length ≤ maxJournalBytes then .ok ()
        else .error (.check ("install journal failed verification after write: " ++
          (path.text ++ " is too large to be an install journal"))),
        disk.written path (journalBytes state)) := by
  have hwrite := writeAtomically_eq (journalBytes state) hsafe h
  unfold writeState
  rw [Action.bind_apply, hwrite]
  dsimp only
  rw [Action.bind_apply, Action.get_apply]
  dsimp only
  by_cases hfits : (journalBytes state).length ≤ maxJournalBytes
  · have hverified : verified fromSlice (disk.written path (journalBytes state)) path state = .ok true := by
      refine bind_eq_ok.2 ⟨state, load_bytes hread hfits (written_entry_self _ _ _), ?_⟩
      rw [beq_self_eq_true]
      rfl
    rw [if_pos hverified, if_pos hfits]
    rfl
  · have hload := load_oversized fromSlice (Nat.not_le.1 hfits)
      (written_entry_self disk path (journalBytes state))
    have hverified : verified fromSlice (disk.written path (journalBytes state)) path state ≠ .ok true := by
      intro heq
      obtain ⟨reloaded, hreloaded, -⟩ := bind_eq_ok.1 heq
      rw [hload] at hreloaded
      cases hreloaded
    -- the second write leaves what the first one did
    have hwritable : Writable (disk.written path (journalBytes state)) path := by
      refine ⟨?_, ?_⟩
      · rw [written_entry_temporary]
        exact nofun
      · rw [written_entry_self]
        exact nofun
    have hagain := writeAtomically_eq (journalBytes state) hsafe hwritable
    rw [written_written] at hagain
    rw [if_neg hverified, if_neg hfits, Action.bind_apply, hagain]
    dsimp only
    rw [Action.bind_apply, Action.get_apply]
    dsimp only
    rw [hload]
    rfl

/-- A write that meets a directory fails in a file operation, and leaves the journal alone. -/
theorem writeState_blocked (fromSlice : List UInt8 → Except String Value) (state : JournalState)
    (hsafe : IsSafe path) (h : ¬ Writable disk path) :
    ∃ message disk', writeState fromSlice path state disk = (.error (.file message), disk') ∧
      (disk' = disk ∨ disk' = disk.put path.temporary .absent ∧ disk.entry path = .directory) := by
  obtain ⟨message, disk', hwrite, hdisk⟩ := writeAtomically_blocked (journalBytes state) hsafe h
  refine ⟨message, disk', ?_, hdisk⟩
  unfold writeState
  rw [Action.bind_apply, hwrite]

/-- A journal that is read is a file. -/
theorem entry_of_loadAt (h : loadAt fromSlice disk path = .ok state) :
    ∃ bytes, disk.entry path = .regular bytes ∧ bytes.length ≤ maxJournalBytes := by
  obtain ⟨raw, hraw, -⟩ := bind_eq_ok.1 h
  unfold readRegularFile at hraw
  split at hraw
  · cases hraw
  · cases hraw
  · cases hraw
  · rename_i bytes hentry
    split_ifs at hraw with hlarge
    exact ⟨bytes, hentry, Nat.not_lt.1 hlarge⟩

theorem writable_of_loadAt (h : loadAt fromSlice disk path = .ok state)
    (htemporary : disk.entry path.temporary ≠ .directory) : Writable disk path := by
  obtain ⟨bytes, hentry, -⟩ := entry_of_loadAt h
  refine ⟨htemporary, ?_⟩
  rw [hentry]
  exact nofun

/-! ### The calls -/

variable {journal : Handle} {op : String} {opState : OpState} {now : UInt64} {name : OpName}

/-- A call of `record` that gets to its write. -/
theorem record_eq (opState : OpState) (now : UInt64) (hname : validatedOpName op = .ok name)
    (hload : loadAt fromSlice disk journal.path = .ok state) :
    record fromSlice journal op opState (.ok now) disk =
      writeState fromSlice journal.path (recordIn name now state opState) disk := by
  unfold record
  rw [hname]
  show (Action.check (loadAt fromSlice disk journal.path) >>= fun current =>
    writeState fromSlice journal.path (recordIn name now current opState)) disk = _
  rw [hload]
  rfl

/-- A call of `record` is refused with nothing changed, or gets to its write. -/
theorem record_split (fromSlice : List UInt8 → Except String Value) (journal : Handle) (op : String)
    (opState : OpState) (clock : Except String UInt64) (disk : Disk) :
    (∃ fault, record fromSlice journal op opState clock disk = (.error fault, disk) ∧
      (¬ Passes (validatedOpName op) ∨ ¬ Passes clock ∨ ¬ Passes (loadAt fromSlice disk journal.path))) ∨
    ∃ name now current, validatedOpName op = .ok name ∧ clock = .ok now ∧
      loadAt fromSlice disk journal.path = .ok current ∧
      record fromSlice journal op opState clock disk =
        writeState fromSlice journal.path (recordIn name now current opState) disk := by
  cases hname : validatedOpName op with
  | error message =>
    left
    unfold record
    rw [hname]
    exact ⟨_, rfl, .inl (not_passes_error message)⟩
  | ok name =>
    cases clock with
    | error message =>
      left
      unfold record
      rw [hname]
      exact ⟨_, rfl, .inr (.inl (not_passes_error message))⟩
    | ok now =>
      cases hload : loadAt fromSlice disk journal.path with
      | error fault =>
        left
        refine ⟨fault, ?_, .inr (.inr (not_passes_error fault))⟩
        unfold record
        rw [hname]
        show (Action.check (loadAt fromSlice disk journal.path) >>= fun current =>
          writeState fromSlice journal.path (recordIn name now current opState)) disk = _
        rw [hload]
        rfl
      | ok current => exact .inr ⟨name, now, current, rfl, rfl, rfl, record_eq opState now hname hload⟩

theorem destination_eq_ok {dest : FilePath} {moved : Handle} (h : destination dest = .ok moved) :
    moved.path = dest := by
  unfold destination at h
  split at h
  · cases h
  · split at h
    · cases h
    · cases h
      rfl

/-- A call of `relocate` has nothing to do, is refused with nothing changed, or gets to its write. -/
theorem relocate_split (fromSlice : List UInt8 → Except String Value) (journal : Handle) (dest : FilePath)
    (disk : Disk) :
    (components dest = components journal.path ∧ relocate fromSlice journal dest disk = (.ok journal, disk)) ∨
    (∃ fault, relocate fromSlice journal dest disk = (.error fault, disk) ∧
      (¬ Passes (destination dest) ∨ ¬ Passes (loadAt fromSlice disk journal.path))) ∨
    ∃ moved staging, components dest ≠ components journal.path ∧ destination dest = .ok moved ∧
      loadAt fromSlice disk journal.path = .ok staging ∧
      relocate fromSlice journal dest disk =
        (writeState fromSlice dest (relocated fromSlice disk dest staging) >>= fun _ => pure moved) disk := by
  unfold relocate
  by_cases hsame : components dest = components journal.path
  · rw [if_pos hsame]
    exact .inl ⟨hsame, rfl⟩
  · rw [if_neg hsame]
    cases hdest : destination dest with
    | error message => exact .inr (.inl ⟨_, rfl, .inl (not_passes_error message)⟩)
    | ok moved =>
      cases hload : loadAt fromSlice disk journal.path with
      | error fault =>
        refine .inr (.inl ⟨fault, ?_, .inr (not_passes_error fault)⟩)
        show (Action.check (loadAt fromSlice disk journal.path) >>= fun staging =>
          writeState fromSlice moved.path (relocated fromSlice disk dest staging) >>= fun _ =>
            pure moved) disk = _
        rw [hload]
        rfl
      | ok staging =>
        refine .inr (.inr ⟨moved, staging, hsame, rfl, rfl, ?_⟩)
        show (Action.check (loadAt fromSlice disk journal.path) >>= fun staging =>
          writeState fromSlice moved.path (relocated fromSlice disk dest staging) >>= fun _ =>
            pure moved) disk = _
        rw [hload, destination_eq_ok hdest]
        rfl

end Disk

end Kyth.OnDisk

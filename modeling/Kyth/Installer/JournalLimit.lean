import Kyth.Installer.JournalLaw

/-!
# The size of the journal (`write_state`, `read_regular_file`)

The journal is written in any size but read only up to one. So a call whose document is too large replaces the
journal by one that cannot be read, and only then fails.

`failsSafely_iff` says which calls leave the journals as they were when they fail on a check: those whose
document fits, and those that get to no write, or that write where no journal can be lost.
-/

namespace Kyth.OnDisk

open Str Json Check Durable JsonText Utf8Text

/-! ### The length of the document -/

/-- The length of an entry. -/
def opLength (op : JournalOp) : ℕ :=
  35 + op.name.text.utf8ByteSize + (natText op.started).length +
    (op.completed.map fun time => (natText time).length).getD 4

/-- The length of the document with some records. -/
def documentLength (ops : List JournalOp) : ℕ := 29 + (ops.map opLength).sum + (ops.length - 1)

theorem length_encode_natText (n : UInt64) : (encode (natText n)).length = (natText n).length := by
  have hdigits : ∀ c ∈ natText n, c.isDigit = true := fun c hc =>
    Nat.isDigit_of_mem_toDigits (by decide) (by decide) hc
  generalize natText n = digits at hdigits
  induction digits with
  | nil => rfl
  | cons c digits ih =>
    have hsize : c.utf8Size = 1 := by
      have hc := hdigits c List.mem_cons_self
      simp only [Char.isDigit, Bool.and_eq_true, decide_eq_true_eq, UInt32.le_iff_toNat_le] at hc
      rw [Char.utf8Size_eq_one_iff, UInt32.le_iff_toNat_le]
      have hlast : '9'.val.toNat = 57 := rfl
      have hlimit : (127 : UInt32).toNat = 127 := rfl
      omega
    rw [← List.singleton_append, encode_append, List.length_append, List.length_append,
      ih fun d hd => hdigits d (List.mem_cons_of_mem c hd)]
    congr 1
    show (String.utf8EncodeChar c ++ []).length = 1
    rw [List.append_nil, String.length_utf8EncodeChar, hsize]

theorem length_encode_toList (s : String) : (encode s.toList).length = s.utf8ByteSize := by
  have hbytes : (encode s.toList).toByteArray = s.toByteArray := String.utf8Encode_toList
  rw [← String.size_toByteArray, ← hbytes, List.size_toByteArray]

theorem length_encode_intercalate (items : List (List Char)) :
    (encode ([','].intercalate items)).length =
      (items.map fun item => (encode item).length).sum + (items.length - 1) := by
  induction items with
  | nil => rfl
  | cons item items ih =>
    cases items with
    | nil => simp
    | cons next items =>
      rw [List.intercalate_cons_cons, encode_append, encode_append, List.length_append,
        List.length_append, ih]
      have hcomma : (encode [',']).length = 1 := rfl
      simp only [List.map_cons, List.sum_cons, List.length_cons]
      omega

theorem length_opText (op : JournalOp) : (encode (opText op)).length = opLength op := by
  have htext : opText op = "\x7b\"completed\":".toList ++ ((op.completed.map natText).getD nullText ++
      (",\"name\":\"".toList ++ (op.name.text.toList ++ ("\",\"started\":".toList ++
        (natText op.started ++ "\x7d".toList))))) := by
    simp [opText, objectText, memberText, quoted]
  have hcompleted : (encode ((op.completed.map natText).getD nullText)).length =
      (op.completed.map fun time => (natText time).length).getD 4 := by
    cases op.completed with
    | none => rfl
    | some time => exact length_encode_natText time
  have hfirst : "\x7b\"completed\":".utf8ByteSize = 13 := rfl
  have hsecond : ",\"name\":\"".utf8ByteSize = 9 := rfl
  have hthird : "\",\"started\":".utf8ByteSize = 12 := rfl
  have hlast : "\x7d".utf8ByteSize = 1 := rfl
  rw [htext, opLength]
  simp only [encode_append, List.length_append, length_encode_natText, length_encode_toList]
  omega

theorem length_journalBytes (state : JournalState) :
    (journalBytes state).length = documentLength state.ops := by
  have htext : objectText [("ops", arrayText (state.ops.map opText)), ("schema_version", natText 1)] =
      "\x7b\"ops\":[".toList ++ ([','].intercalate (state.ops.map opText) ++
        "],\"schema_version\":1\x7d".toList) := by
    have hversion : natText 1 = ['1'] := rfl
    simp [objectText, arrayText, memberText, quoted, hversion]
  have hfirst : "\x7b\"ops\":[".utf8ByteSize = 8 := rfl
  have hlast : "],\"schema_version\":1\x7d".utf8ByteSize = 21 := rfl
  rw [journalBytes, htext, documentLength]
  simp only [encode_append, List.length_append, length_encode_intercalate, length_encode_toList,
    List.map_map, List.length_map]
  have hsum : (state.ops.map ((fun item => (encode item).length) ∘ opText)).sum =
      (state.ops.map opLength).sum := by
    congr 1
    exact List.map_congr_left fun op _ => length_opText op
  omega

/-! ### Calls that fail safely -/

/-- A call on a journal. -/
inductive Call
  | record (call : RecordCall)
  | relocate (dest : FilePath)

instance (name : OpName) (op : JournalOp) : Decidable (IsOpen name op) :=
  inferInstanceAs (Decidable (_ ∧ _))

/-- The journal with the record fits: one more entry, or a time in the place of a `null`. -/
def RecordFits (name : OpName) (now : UInt64) (ops : List JournalOp) : OpState → Prop
  | .started => documentLength (ops ++ [⟨name, now, none⟩]) ≤ maxJournalBytes
  | .completed =>
      if ∃ op ∈ ops, IsOpen name op then documentLength ops + (natText now).length ≤ maxJournalBytes + 4
      else documentLength (ops ++ [⟨name, now, some now⟩]) ≤ maxJournalBytes

section Call

variable (fromSlice : List UInt8 → Except String Value) (journal : Handle)

def Call.run : Call → Action Disk Fault Unit
  | .record call => OnDisk.record fromSlice journal call.op call.state call.now
  | .relocate dest => do
      let _ ← OnDisk.relocate fromSlice journal dest

/-- The journals that a call is about. -/
def Call.paths : Call → List FilePath
  | .record _ => [journal.path]
  | .relocate dest => [journal.path, dest]

/-- When the call fails although no file operation did, what could be read of the journals can be read still. -/
def FailsSafely (call : Call) (disk : Disk) : Prop :=
  ∀ message, (call.run fromSlice journal disk).1 = .error (.check message) →
    ∀ path ∈ call.paths journal, ∀ state, loadAt fromSlice disk path = .ok state →
      loadAt fromSlice (call.run fromSlice journal disk).2 path = .ok state

/-- The records that are moved fit, with those that are at the destination already; or there is no journal at
the destination, and its temporary file is not in the place of the journal that is moved. -/
def RelocationFits (disk : Disk) (dest : FilePath) (staging : JournalState) : Prop :=
  match loadAt fromSlice disk dest with
  | .ok existing => documentLength (staging.ops ++ survivors staging.ops existing.ops) ≤ maxJournalBytes
  | .error _ => documentLength staging.ops ≤ maxJournalBytes ∨
      disk.place dest.temporary ≠ disk.place journal.path

/-- What the call writes fits, if it gets to its write at all. -/
def Fits (disk : Disk) : Call → Prop
  | .record call => ∀ name now current, validatedOpName call.op = .ok name → call.now = .ok now →
      loadAt fromSlice disk journal.path = .ok current →
      disk.entry journal.path.temporary ≠ .directory → RecordFits name now current.ops call.state
  | .relocate dest => components dest ≠ components journal.path → Passes (destination dest) →
      ∀ staging, loadAt fromSlice disk journal.path = .ok staging → Writable disk dest →
        RelocationFits fromSlice journal disk dest staging

end Call

/-! ### A record -/

theorem documentLength_close (before after : List JournalOp) {op : JournalOp} (now : UInt64)
    (h : op.completed = none) :
    documentLength (before ++ { op with completed := some now } :: after) + 4 =
      documentLength (before ++ op :: after) + (natText now).length := by
  simp only [documentLength, opLength, List.map_append, List.map_cons, List.sum_append, List.sum_cons,
    List.length_append, List.length_cons, h, Option.map_some, Option.map_none, Option.getD_some,
    Option.getD_none]
  omega

/-- The journal with the record has the length that is checked. -/
theorem recordFits_iff (name : OpName) (now : UInt64) (state : JournalState) (opState : OpState) :
    RecordFits name now state.ops opState ↔
      (journalBytes (recordIn name now state opState)).length ≤ maxJournalBytes := by
  rw [length_journalBytes]
  cases opState with
  | started => exact Iff.rfl
  | completed =>
    simp only [recordIn, RecordFits]
    cases hclose : closeLast name now state.ops with
    | none =>
      have hnone : ¬ ∃ op ∈ state.ops, IsOpen name op := by
        rintro ⟨op, hop, hopen⟩
        exact not_isOpen_of_closeLast hclose op hop hopen
      rw [if_neg hnone]
      exact Iff.rfl
    | some closed =>
      obtain ⟨before, op, after, hops, hopen, -, rfl⟩ := closeLast_split hclose
      have hsome : ∃ op ∈ state.ops, IsOpen name op :=
        ⟨op, hops ▸ List.mem_append_right _ List.mem_cons_self, hopen⟩
      have hlength := documentLength_close before after now hopen.2
      rw [if_pos hsome, Option.getD_some, hops]
      omega

section Limit

variable {fromSlice : List UInt8 → Except String Value} {journal : Handle} {disk : Disk}
  {path other : FilePath} {state : JournalState}

/-- Whether a journal can be read depends on what is at its path only. -/
theorem loadAt_of_entry_eq {disk' : Disk} (hentry : disk'.entry other = disk.entry path)
    (h : loadAt fromSlice disk path = .ok state) : loadAt fromSlice disk' other = .ok state := by
  obtain ⟨raw, hraw, hvalue⟩ := bind_eq_ok.1 h
  obtain ⟨bytes, hbytes, hlength⟩ := entry_of_loadAt h
  have hsame : ∀ name, readRegularFile name (.regular bytes) = .ok bytes := fun name => by
    rw [readRegularFile, if_neg (Nat.not_lt.2 hlength)]
    rfl
  rw [hbytes, hsame, Except.ok.injEq] at hraw
  subst hraw
  refine bind_eq_ok.2 ⟨bytes, by rw [hentry, hbytes, hsame], ?_⟩
  cases hslice : fromSlice bytes with
  | error message =>
    rw [hslice] at hvalue
    cases hvalue
  | ok value =>
    rw [hslice] at hvalue
    exact hvalue

/-- A failed call that leaves the disk as it was. -/
theorem failsSafely_of_unchanged {call : Call} (h : (call.run fromSlice journal disk).2 = disk) :
    FailsSafely fromSlice journal call disk := by
  intro message _ path _ state hload
  rwa [h]

theorem record_failsSafely_iff (hread : ReadsBack fromSlice) (call : RecordCall) :
    FailsSafely fromSlice journal (.record call) disk ↔ Fits fromSlice journal disk (.record call) := by
  rcases record_split fromSlice journal call.op call.state call.now disk with
    ⟨fault, hrun, hrefused⟩ | ⟨name, now, current, hname, hnow, hload, hrun⟩
  · refine iff_of_true (failsSafely_of_unchanged (congrArg Prod.snd hrun)) ?_
    intro name now current hname hnow hload _
    rcases hrefused with hbad | hbad | hbad
    · exact absurd ⟨name, hname⟩ hbad
    · exact absurd ⟨now, hnow⟩ hbad
    · exact absurd ⟨current, hload⟩ hbad
  · have hcall : (Call.record call).run fromSlice journal disk =
        writeState fromSlice journal.path (recordIn name now current call.state) disk := hrun
    by_cases htemporary : disk.entry journal.path.temporary = .directory
    · obtain ⟨message, disk', hwrite, -⟩ := writeState_blocked fromSlice
        (recordIn name now current call.state) journal.safe fun h => h.1 htemporary
      refine iff_of_true (fun message' hfault => ?_) fun _ _ _ _ _ _ hfree => absurd htemporary hfree
      rw [hcall, hwrite] at hfault
      cases hfault
    · have hwrite := writeState_eq (recordIn name now current call.state) hread journal.safe
        (writable_of_loadAt hload htemporary)
      have hfits : Fits fromSlice journal disk (.record call) ↔
          (journalBytes (recordIn name now current call.state)).length ≤ maxJournalBytes := by
        rw [← recordFits_iff]
        constructor
        · exact fun h => h name now current hname hnow hload htemporary
        · intro h name' now' current' hname' hnow' hload' _
          cases hname.symm.trans hname'
          cases hnow.symm.trans hnow'
          cases hload.symm.trans hload'
          exact h
      rw [hfits]
      unfold FailsSafely
      rw [hcall, hwrite]
      constructor
      · intro hsafe
        by_contra hlarge
        rw [if_neg hlarge] at hsafe
        have hkept := hsafe _ rfl journal.path List.mem_cons_self current hload
        rw [load_oversized fromSlice (Nat.not_le.1 hlarge) (written_entry_self _ _ _)] at hkept
        cases hkept
      · intro hsmall message hfault
        rw [if_pos hsmall] at hfault
        cases hfault

/-! ### A relocation -/

/-- A journal that was read is read after a write elsewhere, and not when its file was taken for the temporary
one. -/
theorem loadAt_written_iff {bytes : List UInt8} (hload : loadAt fromSlice disk other = .ok state)
    (hpath : disk.place other ≠ disk.place path) :
    loadAt fromSlice (disk.written path bytes) other = .ok state ↔
      disk.place path.temporary ≠ disk.place other := by
  constructor
  · intro hkept hplace
    obtain ⟨found, hfound, -⟩ := entry_of_loadAt hkept
    have habsent : (disk.written path bytes).entry other = .absent := by
      have hentry := written_entry_temporary disk path bytes
      unfold Disk.entry at hentry ⊢
      show (disk.written path bytes).files (disk.place other) = .absent
      rw [← hplace]
      exact hentry
    rw [habsent] at hfound
    cases hfound
  · intro hplace
    exact loadAt_of_entry_eq (written_entry_of_ne hplace.symm hpath) hload

theorem relocationFits_of_ok {dest : FilePath} {staging existing : JournalState}
    (h : loadAt fromSlice disk dest = .ok existing) :
    RelocationFits fromSlice journal disk dest staging ↔
      (journalBytes (relocated fromSlice disk dest staging)).length ≤ maxJournalBytes := by
  unfold RelocationFits relocated
  rw [h, length_journalBytes]
  dsimp only
  rw [mergeJournalStates, foldl_mergeOp]

theorem relocationFits_of_error {dest : FilePath} {staging : JournalState} {fault : Fault}
    (h : loadAt fromSlice disk dest = .error fault) :
    RelocationFits fromSlice journal disk dest staging ↔
      (journalBytes (relocated fromSlice disk dest staging)).length ≤ maxJournalBytes ∨
        disk.place dest.temporary ≠ disk.place journal.path := by
  unfold RelocationFits relocated
  rw [h, length_journalBytes]

theorem relocate_failsSafely_iff (hread : ReadsBack fromSlice) (dest : FilePath) :
    FailsSafely fromSlice journal (.relocate dest) disk ↔ Fits fromSlice journal disk (.relocate dest) := by
  have hcall : ∀ {result disk'}, relocate fromSlice journal dest disk = (result, disk') →
      (Call.relocate dest).run fromSlice journal disk = (result.map fun _ => (), disk') := by
    intro result disk' hrun
    show (relocate fromSlice journal dest >>= fun _ => pure ()) disk = _
    rw [Action.bind_apply, hrun]
    cases result <;> rfl
  rcases relocate_split fromSlice journal dest disk with ⟨hsame, hrun⟩ | ⟨fault, hrun, hrefused⟩ |
    ⟨moved, staging, hother, hdest, hload, hrun⟩
  · refine iff_of_true (failsSafely_of_unchanged (by rw [hcall hrun])) ?_
    exact fun hother => absurd hsame hother
  · refine iff_of_true (failsSafely_of_unchanged (by rw [hcall hrun])) ?_
    intro _ hdest staging hload _
    rcases hrefused with hbad | hbad
    · exact absurd hdest hbad
    · exact absurd ⟨staging, hload⟩ hbad
  · have hsafe : IsSafe dest := destination_eq_ok hdest ▸ moved.safe
    by_cases hwritable : Writable disk dest
    · have hwrite := writeState_eq (relocated fromSlice disk dest staging) hread hsafe hwritable
      have hfits : Fits fromSlice journal disk (.relocate dest) ↔
          RelocationFits fromSlice journal disk dest staging := by
        constructor
        · exact fun h => h hother ⟨moved, hdest⟩ staging hload hwritable
        · intro h _ _ staging' hload' _
          cases hload.symm.trans hload'
          exact h
      rw [hfits]
      by_cases hsmall : (journalBytes (relocated fromSlice disk dest staging)).length ≤ maxJournalBytes
      · rw [if_pos hsmall] at hwrite
        rw [Action.bind_apply, hwrite] at hrun
        refine iff_of_true (fun message hfault => ?_) ?_
        · rw [hcall hrun] at hfault
          cases hfault
        · cases hexisting : loadAt fromSlice disk dest with
          | ok existing => exact (relocationFits_of_ok hexisting).2 hsmall
          | error fault => exact (relocationFits_of_error hexisting).2 (.inl hsmall)
      · rw [if_neg hsmall] at hwrite
        rw [Action.bind_apply, hwrite] at hrun
        have hresult := hcall hrun
        unfold FailsSafely
        rw [hresult]
        cases hexisting : loadAt fromSlice disk dest with
        | ok existing =>
          -- the journal at the destination is lost
          refine iff_of_false (fun hsafe => ?_) fun hrelocation =>
            hsmall ((relocationFits_of_ok hexisting).1 hrelocation)
          have hkept := hsafe _ rfl dest (List.mem_cons_of_mem _ List.mem_cons_self) existing hexisting
          rw [load_oversized fromSlice (Nat.not_le.1 hsmall) (written_entry_self _ _ _)] at hkept
          cases hkept
        | error fault =>
          have hpath : disk.place journal.path ≠ disk.place dest := by
            intro hplace
            have hentry : disk.entry dest = disk.entry journal.path :=
              (congrArg disk.files hplace).symm
            cases hexisting.symm.trans (loadAt_of_entry_eq hentry hload)
          rw [relocationFits_of_error hexisting, or_iff_right hsmall, ← loadAt_written_iff hload hpath]
          constructor
          · exact fun hsafe => hsafe _ rfl journal.path List.mem_cons_self staging hload
          · intro hkept _ _ path hmem state hstate
            rcases List.mem_cons.1 hmem with rfl | hmem
            · cases hload.symm.trans hstate
              exact hkept
            · rw [List.mem_singleton] at hmem
              subst hmem
              cases hexisting.symm.trans hstate
    · obtain ⟨message, disk', hwrite, -⟩ := writeState_blocked fromSlice
        (relocated fromSlice disk dest staging) hsafe hwritable
      refine iff_of_true (fun message' hfault => ?_) fun _ _ _ _ hfree => absurd hfree hwritable
      rw [Action.bind_apply, hwrite] at hrun
      rw [hcall hrun] at hfault
      cases hfault

/-- Every call on every journal, whatever is on the disk. -/
theorem failsSafely_iff (hread : ReadsBack fromSlice) (call : Call) :
    FailsSafely fromSlice journal call disk ↔ Fits fromSlice journal disk call := by
  cases call with
  | record call => exact record_failsSafely_iff hread call
  | relocate dest => exact relocate_failsSafely_iff hread dest

end Limit

/-! ### A full journal -/

/-- The name of the operation that shrinks a Windows partition. -/
def shrinkName : OpName := ⟨"ntfs_shrink", by decide +kernel⟩

/-- The shrink completed, and many attempts came after it. -/
def fullJournal : JournalState :=
  ⟨⟨shrinkName, 1, some 2⟩ :: List.replicate 22308 ⟨formatName, 1, none⟩⟩

/-- The length of a document with one operation many times. -/
theorem documentLength_replicate (first op : JournalOp) (n : ℕ) (more : List JournalOp) :
    documentLength (first :: List.replicate n op ++ more) =
      29 + opLength first + n * (opLength op + 1) + (more.map opLength).sum + more.length := by
  simp only [documentLength, List.cons_append, List.map_cons, List.map_append, List.map_replicate,
    List.sum_cons, List.sum_append, List.sum_replicate, smul_eq_mul, List.length_cons, List.length_append,
    List.length_replicate, mul_add, mul_one]
  omega

theorem documentLength_fullJournal (more : List JournalOp) :
    documentLength (fullJournal.ops ++ more) = 1048553 + (more.map opLength).sum + more.length := by
  have hshrink : opLength ⟨shrinkName, 1, some 2⟩ = 48 := by decide
  have hformat : opLength ⟨formatName, 1, none⟩ = 46 := by decide
  rw [fullJournal, documentLength_replicate, hshrink, hformat]

/-- A name that is refused does no harm. -/
theorem bad_name_fails_safely :
    FailsSafely readBytes espJournal (.record ⟨"format disk", .started, .ok 1⟩) (diskWith fullJournal) := by
  refine (failsSafely_iff readsBack_readBytes _).2 fun name _ _ hname => ?_
  have hbad : ¬ Passes (validatedOpName "format disk") := by decide
  exact absurd ⟨name, hname⟩ hbad

/-- One more attempt makes the journal unreadable, with the record that the shrink completed. -/
theorem record_loses_journal :
    ¬ FailsSafely readBytes espJournal (.record ⟨"format", .started, .ok 1⟩) (diskWith fullJournal) := by
  have hlength : documentLength fullJournal.ops ≤ maxJournalBytes := by
    have h := documentLength_fullJournal []
    rw [List.append_nil] at h
    rw [h]
    decide
  have hload : loadAt readBytes (diskWith fullJournal) espJournal.path = .ok fullJournal :=
    load_bytes readsBack_readBytes (by rwa [length_journalBytes]) rfl
  have hname : validatedOpName "format" = .ok formatName := by decide
  have htemporary : (diskWith fullJournal).entry espJournal.path.temporary ≠ .directory := by
    have hne : ((0, espJournal.path.temporary.name) : ℕ × String) ≠ (0, espJournal.path.name) := by
      decide
    show (if ((0, espJournal.path.temporary.name) : ℕ × String) = (0, espJournal.path.name) then
      Entry.regular (journalBytes fullJournal) else .absent) ≠ .directory
    rw [if_neg hne]
    exact nofun
  rw [failsSafely_iff readsBack_readBytes]
  intro hfits
  have hsmall := hfits formatName 1 fullJournal hname rfl hload htemporary
  have hformat : opLength ⟨formatName, 1, none⟩ = 46 := by decide
  unfold RecordFits at hsmall
  dsimp only at hsmall
  rw [documentLength_fullJournal, List.map_singleton, List.sum_singleton, hformat] at hsmall
  exact absurd hsmall (by decide)

end Kyth.OnDisk

import Kyth.Lib.TextLines

/-!
# Appending to the account databases (`system_accounts.rs`)

At boot the records of `/usr/lib/group` and `/usr/lib/passwd` that `/etc` lacks are appended to it,
and so are the records of the greeter account. Every record is written with a newline behind it and
nothing in front, so it becomes a part of the last record of a database that lacks its newline.
`appends_records_iff` says when the records that are appended come out as records of their own.
-/

namespace Kyth.Accounts

open TextLines

/-- The name of a record, which is its first field. -/
def nameOf (line : List Char) : List Char := line.takeWhile (· != ':')

/-- The names that a database has. -/
def knownNames (text : List Char) : List (List Char) :=
  ((lines text).map nameOf).filter (· ≠ [])

/-- The loop of `append_missing_names`: the lines that it writes. -/
def missingLines (known : List (List Char)) : List (List Char) → List (List Char)
  | [] => []
  | line :: rest =>
      if line = [] then missingLines known rest
      else if nameOf line = [] then missingLines known rest
      else if nameOf line ∈ known then missingLines known rest
      else line :: missingLines (nameOf line :: known) rest

/-- What `writeln!` adds to a file. -/
def written (added : List (List Char)) : List Char := added.flatMap (· ++ ['\n'])

/-- `append_missing_names`: the text of the destination and the number of lines appended. A source or
a destination may be missing. -/
def appendMissingNames (src dest : Option (List Char)) : Option (List Char) × ℕ :=
  match src with
  | none => (dest, 0)
  | some content =>
      let existing := dest.getD []
      let added := missingLines (knownNames existing) (lines content)
      (some (existing ++ written added), added.length)

/-- `has_entry`. -/
def hasEntry (file : Option (List Char)) (name : List Char) : Bool :=
  (lines (file.getD [])).any fun line => nameOf line == name

/-- `append_line`. -/
def appendLine (file : Option (List Char)) (line : List Char) : Option (List Char) :=
  some (file.getD [] ++ written [line])

/-- `ensure_group_line`, on the group database. -/
def ensureGroupLine (group : Option (List Char)) (name line : List Char) : Option (List Char) :=
  if hasEntry group name then group else appendLine group line

/-- The record of `ensure_passwd_line` in the shadow database. -/
def shadowLine (name : List Char) : List Char := name ++ ":!*:19700:0:99999:7:::".toList

/-- `ensure_passwd_line`, on the password and the shadow database. -/
def ensurePasswdLine (passwd shadow : Option (List Char)) (name line : List Char) :
    Option (List Char) × Option (List Char) :=
  (if hasEntry passwd name then passwd else appendLine passwd line,
    if shadow.isSome && !hasEntry shadow name then appendLine shadow (shadowLine name) else shadow)

/-! ### What the appending is for -/

/-- The records of a database. -/
def records (file : Option (List Char)) : List (List Char) := lines (file.getD [])

/-- The records with a name that no present record and no earlier one of the list has. -/
def missingRecords (present candidates : List (List Char)) : List (List Char) :=
  (candidates.zipIdx.filter fun r =>
    nameOf r.1 ≠ [] ∧ nameOf r.1 ∉ present.map nameOf ∧
      nameOf r.1 ∉ (candidates.take r.2).map nameOf).map Prod.fst

/-- The missing records come behind the present ones, and a second call appends nothing. -/
def MergesRecords (src dest : Option (List Char)) : Prop :=
  records (appendMissingNames src dest).1 =
      records dest ++ missingRecords (records dest) (records src) ∧
    (appendMissingNames src (appendMissingNames src dest).1).2 = 0

/-- A record comes behind the present ones unless its name is there, and a second call changes
nothing. -/
def AddsRecord (ensure : Option (List Char) → Option (List Char)) (name line : List Char)
    (file : Option (List Char)) : Prop :=
  records (ensure file) = records file ++ (if hasEntry file name then [] else [line]) ∧
    ensure (ensure file) = ensure file

/-- A database whose last record has its newline. -/
def Ended (file : Option (List Char)) : Prop :=
  file.getD [] = [] ∨ (file.getD []).getLast? = some '\n'

/-- A record that reads back as it is written. -/
def ReadsBack (line : List Char) : Prop := '\n' ∉ line ∧ line.getLast? ≠ some '\r'

variable {text more line name : List Char} {added known candidates : List (List Char)}
  {file src dest : Option (List Char)}

/-! ### Lines behind a text -/

/-- Behind a newline the lines go on. -/
theorem lines_ended_append (h : text = [] ∨ text.getLast? = some '\n') (more : List Char) :
    lines (text ++ more) = lines text ++ lines more := by
  obtain rfl | hlast := h
  · rfl
  · obtain ⟨before, rfl⟩ := List.getLast?_eq_some_iff.1 hlast
    rw [List.append_assoc, List.singleton_append, lines_append_newline, lines_append_newline,
      lines_nil, List.append_nil]

/-- A last line without its newline goes on in what is appended. -/
theorem exists_open_line (h : ¬ (text = [] ∨ text.getLast? = some '\n')) :
    ∃ init last, last ≠ [] ∧ '\n' ∉ last ∧
      ∀ more, lines (text ++ more) = init ++ lines (last ++ more) := by
  have hsplit : text.rdropWhile (· != '\n') ++ text.rtakeWhile (· != '\n') = text :=
    List.rdropWhile_append_rtakeWhile
  have hended : text.rdropWhile (· != '\n') = [] ∨
      (text.rdropWhile (· != '\n')).getLast? = some '\n' := by
    by_cases hnil : text.rdropWhile (· != '\n') = []
    · exact .inl hnil
    · have hlast := List.rdropWhile_last_not (· != '\n') text hnil
      rw [List.getLast?_eq_getLast_of_ne_nil hnil]
      exact .inr (congrArg some (by simpa using hlast))
  refine ⟨lines (text.rdropWhile (· != '\n')), text.rtakeWhile (· != '\n'), fun hnil => h ?_,
    fun hmem => by simpa using List.mem_rtakeWhile_imp hmem, fun more => ?_⟩
  · rw [hnil, List.append_nil] at hsplit
    rwa [hsplit] at hended
  · conv_lhs => rw [← hsplit, List.append_assoc]
    exact lines_ended_append hended _

/-- The lines that were written read back, but for a carriage return at their ends. -/
theorem lines_written (h : ∀ line ∈ added, '\n' ∉ line) :
    lines (written added) = added.map stripCr := by
  induction added with
  | nil => rfl
  | cons line added ih =>
    obtain ⟨hline, hrest⟩ := List.forall_mem_cons.1 h
    have hwritten : written (line :: added) = line ++ '\n' :: written added := by
      simp [written]
    rw [hwritten, lines_line hline, ih hrest, List.map_cons]

theorem stripCr_eq_self : stripCr line = line ↔ line.getLast? ≠ some '\r' := by
  unfold stripCr
  split_ifs with hcr
  · refine iff_of_false (fun h => ?_) (not_not.2 hcr)
    obtain ⟨before, rfl⟩ := List.getLast?_eq_some_iff.1 hcr
    rw [List.dropLast_concat] at h
    have hlength := congrArg List.length h
    rw [List.length_append, List.length_singleton] at hlength
    omega
  · exact iff_of_true rfl hcr

theorem map_stripCr : added.map stripCr = added ↔ ∀ line ∈ added, line.getLast? ≠ some '\r' := by
  induction added with
  | nil => simp
  | cons line added ih =>
    rw [List.map_cons, List.cons.injEq, stripCr_eq_self, ih, List.forall_mem_cons]

/-- Written lines come behind the present ones exactly when the text is ended and each of them reads
back. -/
theorem lines_append_written (hfree : ∀ line ∈ added, '\n' ∉ line) :
    lines (text ++ written added) = lines text ++ added ↔
      added = [] ∨ (text = [] ∨ text.getLast? = some '\n') ∧
        ∀ line ∈ added, line.getLast? ≠ some '\r' := by
  by_cases hended : text = [] ∨ text.getLast? = some '\n'
  · rw [lines_ended_append hended, lines_written hfree, List.append_right_inj, map_stripCr]
    refine ⟨fun h => .inr ⟨hended, h⟩, ?_⟩
    rintro (rfl | h)
    · exact List.forall_mem_nil _
    · exact h.2
  · cases added with
    | nil => simp [written]
    | cons first rest =>
      -- the first record becomes a part of the last line
      obtain ⟨hfirst, hrest⟩ := List.forall_mem_cons.1 hfree
      obtain ⟨init, last, hne, hlast, hlines⟩ := exists_open_line hended
      have htext : lines text = init ++ [last] := by
        have hempty := hlines []
        rwa [List.append_nil, List.append_nil, lines_last hne hlast] at hempty
      have hjoined : lines (text ++ written (first :: rest)) =
          init ++ stripCr (last ++ first) :: rest.map stripCr := by
        have hline : '\n' ∉ last ++ first := fun hmem => (List.mem_append.1 hmem).elim hlast hfirst
        have hwritten : last ++ written (first :: rest) = (last ++ first) ++ '\n' :: written rest := by
          simp [written]
        rw [hlines, hwritten, lines_line hline, lines_written hrest]
      refine iff_of_false (fun h => ?_) ?_
      · have hlength := congrArg List.length h
        rw [hjoined, htext] at hlength
        simp only [List.length_append, List.length_cons, List.length_map, List.length_nil] at hlength
        omega
      · rintro (hnil | ⟨h, -⟩)
        · cases hnil
        · exact hended h

/-! ### The missing records -/

theorem ne_nil_of_nameOf (h : nameOf line ≠ []) : line ≠ [] := by
  rintro rfl
  exact h rfl

/-- Reading one more candidate. -/
theorem missingRecords_concat (present candidates : List (List Char)) (line : List Char) :
    missingRecords present (candidates ++ [line]) = missingRecords present candidates ++
      if nameOf line ≠ [] ∧ nameOf line ∉ present.map nameOf ∧
        nameOf line ∉ candidates.map nameOf then [line] else [] := by
  unfold missingRecords
  rw [List.zipIdx_append, List.filter_append, List.map_append]
  congr 1
  · -- an earlier candidate has the same ones in front of it
    refine congrArg (List.map Prod.fst) (List.filter_congr fun r hr => ?_)
    have hbound : r.2 ≤ candidates.length := by
      have hlt := List.snd_lt_of_mem_zipIdx hr
      omega
    rw [List.take_append_of_le_length hbound]
  · rw [List.zipIdx_singleton, Nat.zero_add, List.filter_singleton]
    by_cases hnew : nameOf line ≠ [] ∧ nameOf line ∉ present.map nameOf ∧
        nameOf line ∉ candidates.map nameOf
    · rw [if_pos hnew, List.take_left, decide_eq_true hnew]
      rfl
    · rw [if_neg hnew, List.take_left, decide_eq_false hnew]
      rfl

theorem missingLines_concat (known candidates : List (List Char)) (line : List Char) :
    missingLines known (candidates ++ [line]) = missingLines known candidates ++
      if nameOf line ≠ [] ∧ nameOf line ∉ known ∧ nameOf line ∉ candidates.map nameOf then [line]
      else [] := by
  induction candidates generalizing known with
  | nil =>
    simp only [List.nil_append, missingLines, List.map_nil, List.not_mem_nil, not_false_eq_true,
      and_true]
    by_cases hname : nameOf line = []
    · simp [hname]
    · by_cases hknown : nameOf line ∈ known
      · simp [hname, hknown]
      · simp [hname, hknown, ne_nil_of_nameOf hname]
  | cons first rest ih =>
    rw [List.cons_append, missingLines, missingLines]
    by_cases hfirst : nameOf first = []
    · -- a record without a name is passed over
      have hskip : (nameOf line ≠ [] ∧ nameOf line ∉ known ∧
            nameOf line ∉ (first :: rest).map nameOf) ↔
          nameOf line ≠ [] ∧ nameOf line ∉ known ∧ nameOf line ∉ rest.map nameOf := by
        rw [List.map_cons, List.mem_cons, hfirst]
        tauto
      simp only [hskip, if_pos hfirst, ite_self, ih]
    · have hne : first ≠ [] := ne_nil_of_nameOf hfirst
      rw [if_neg hne, if_neg hfirst, if_neg hne, if_neg hfirst]
      by_cases hknown : nameOf first ∈ known
      · have hskip : (nameOf line ≠ [] ∧ nameOf line ∉ known ∧
              nameOf line ∉ (first :: rest).map nameOf) ↔
            nameOf line ≠ [] ∧ nameOf line ∉ known ∧ nameOf line ∉ rest.map nameOf := by
          rw [List.map_cons, List.mem_cons]
          refine and_congr_right fun _ => and_congr_right fun hfree => not_congr (or_iff_right ?_)
          intro hname
          exact hfree (hname ▸ hknown)
        rw [if_pos hknown, if_pos hknown, ih]
        simp only [hskip]
      · have hseen : (nameOf line ≠ [] ∧ nameOf line ∉ known ∧
              nameOf line ∉ (first :: rest).map nameOf) ↔
            nameOf line ≠ [] ∧ nameOf line ∉ nameOf first :: known ∧
              nameOf line ∉ rest.map nameOf := by
          rw [List.map_cons, List.mem_cons, List.mem_cons]
          tauto
        rw [if_neg hknown, if_neg hknown, ih, List.cons_append]
        simp only [hseen]

/-- The loop picks the missing records. -/
theorem missingLines_eq (present candidates known : List (List Char))
    (h : ∀ name ≠ [], name ∈ known ↔ name ∈ present.map nameOf) :
    missingLines known candidates = missingRecords present candidates := by
  induction candidates using List.reverseRecOn with
  | nil => rfl
  | append_singleton candidates line ih =>
    rw [missingLines_concat, missingRecords_concat, ih]
    congr 2
    exact propext (and_congr_right fun hname => and_congr_left' (not_congr (h _ hname)))

theorem mem_knownNames (hname : name ≠ []) :
    name ∈ knownNames text ↔ name ∈ (lines text).map nameOf := by
  simp [knownNames, hname]

theorem appendMissingNames_some (content : List Char) (dest : Option (List Char)) :
    appendMissingNames (some content) dest =
      (some (dest.getD [] ++ written (missingRecords (records dest) (lines content))),
        (missingRecords (records dest) (lines content)).length) := by
  have hmissing : missingLines (knownNames (dest.getD [])) (lines content) =
      missingRecords (records dest) (lines content) :=
    missingLines_eq _ _ _ fun name hname => mem_knownNames hname
  rw [appendMissingNames, hmissing]

theorem not_newline_mem_missingRecords (h : line ∈ missingRecords (records dest) (lines text)) :
    '\n' ∉ line := by
  obtain ⟨r, hr, rfl⟩ := List.mem_map.1 h
  exact newline_not_mem (List.fst_mem_of_mem_zipIdx (List.mem_of_mem_filter hr))

/-- A candidate's name that is not present is the name of a missing record. -/
theorem name_mem_missingRecords {present : List (List Char)} (hmem : name ∈ candidates.map nameOf)
    (hname : name ≠ []) (hpresent : name ∉ present.map nameOf) :
    name ∈ (missingRecords present candidates).map nameOf := by
  induction candidates using List.reverseRecOn with
  | nil => exact absurd hmem List.not_mem_nil
  | append_singleton candidates line ih =>
    rw [missingRecords_concat, List.map_append, List.mem_append]
    by_cases hearlier : name ∈ candidates.map nameOf
    · exact .inl (ih hearlier)
    · -- the first record of that name
      have hline : name = nameOf line := by
        simpa [List.mem_append, hearlier] using hmem
      subst hline
      rw [if_pos ⟨hname, hpresent, hearlier⟩]
      exact .inr (List.mem_singleton_self _)

/-- When every candidate's name is present there is nothing to append. -/
theorem missingRecords_eq_nil {present : List (List Char)} :
    missingRecords present candidates = [] ↔
      ∀ name ∈ candidates.map nameOf, name ≠ [] → name ∈ present.map nameOf := by
  constructor
  · intro hnil name hmem hname
    by_contra hpresent
    have hmissing := name_mem_missingRecords hmem hname hpresent
    rw [hnil] at hmissing
    exact absurd hmissing List.not_mem_nil
  · intro hall
    refine List.eq_nil_iff_forall_not_mem.2 fun line hline => ?_
    obtain ⟨r, hr, rfl⟩ := List.mem_map.1 hline
    obtain ⟨hmem, hr⟩ := List.mem_filter.1 hr
    obtain ⟨hname, hpresent, -⟩ := of_decide_eq_true hr
    exact hpresent (hall _ (List.mem_map_of_mem (List.fst_mem_of_mem_zipIdx hmem)) hname)

/-! ### When the records come out -/

/-- The missing records of a source. -/
abbrev toAppend (src dest : Option (List Char)) : List (List Char) :=
  missingRecords (records dest) (records src)

theorem appendMissingNames_none (dest : Option (List Char)) :
    appendMissingNames none dest = (dest, 0) := rfl

theorem mergesRecords_iff (src dest : Option (List Char)) :
    MergesRecords src dest ↔
      toAppend src dest = [] ∨ Ended dest ∧ ∀ line ∈ toAppend src dest, line.getLast? ≠ some '\r' := by
  cases src with
  | none =>
    have hnone : toAppend none dest = [] := rfl
    simp [MergesRecords, appendMissingNames_none, hnone]
  | some content =>
    have hfree : ∀ line ∈ toAppend (some content) dest, '\n' ∉ line :=
      fun line hline => not_newline_mem_missingRecords hline
    unfold MergesRecords
    rw [appendMissingNames_some]
    refine Iff.trans (and_iff_left_of_imp fun hmerged => ?_) (lines_append_written hfree)
    -- every name of the source is there now
    rw [appendMissingNames_some]
    refine List.length_eq_zero_iff.2 (missingRecords_eq_nil.2 fun name hmem hname => ?_)
    change records (some _) = _ at hmerged
    rw [hmerged, List.map_append, List.mem_append]
    by_cases hpresent : name ∈ (records dest).map nameOf
    · exact .inl hpresent
    · exact .inr (name_mem_missingRecords hmem hname hpresent)

theorem hasEntry_iff : hasEntry file name = true ↔ name ∈ (records file).map nameOf := by
  simp [hasEntry, records]

/-- A line comes behind the present ones exactly when the database is ended and the line reads back. -/
theorem records_appendLine (line : List Char) (file : Option (List Char)) :
    records (appendLine file line) = records file ++ [line] ↔ Ended file ∧ ReadsBack line := by
  change lines (file.getD [] ++ written [line]) = lines (file.getD []) ++ [line] ↔ _
  by_cases hfree : '\n' ∈ line
  · -- a newline in the middle makes two lines
    refine iff_of_false (fun h => ?_) fun h => h.2.1 hfree
    have hmem : line ∈ lines (file.getD [] ++ written [line]) := h ▸ List.mem_append_right _ (by simp)
    exact newline_not_mem hmem hfree
  · rw [lines_append_written (List.forall_mem_singleton.2 hfree)]
    simp [Ended, ReadsBack, hfree]

/-- Appending a line unless there is one of the name. -/
theorem addsRecord_iff {ensure : Option (List Char) → Option (List Char)}
    (hfile : ensure file = if hasEntry file name then file else appendLine file line)
    (hsome : ∀ text, ensure (some text) =
      if hasEntry (some text) name then some text else appendLine (some text) line) :
    AddsRecord ensure name line file ↔
      hasEntry file name ∨ Ended file ∧ ReadsBack line ∧ nameOf line = name := by
  unfold AddsRecord
  cases hentry : hasEntry file name with
  | true =>
    have hsame : ensure file = file := by rw [hfile, hentry, if_pos rfl]
    simp [hsame]
  | false =>
    have hadded : ensure file = appendLine file line := by
      rw [hfile, hentry, if_neg Bool.false_ne_true]
    have hgrown : appendLine (appendLine file line) line ≠ appendLine file line := by
      intro h
      have hlength := congrArg List.length (Option.some.inj h)
      simp [appendLine, written] at hlength
    have hagain : ensure (appendLine file line) = appendLine file line ↔
        hasEntry (appendLine file line) name = true := by
      rw [appendLine, hsome, ← appendLine]
      split_ifs with h
      · exact iff_of_true rfl h
      · exact iff_of_false hgrown h
    rw [hadded, hagain, if_neg Bool.false_ne_true, records_appendLine, ← and_assoc,
      or_iff_right Bool.false_ne_true]
    refine and_congr_right fun hends => ?_
    -- the name is not among the present ones, so it is the name of the line
    have hpresent : name ∉ (records file).map nameOf := by
      rw [← hasEntry_iff, hentry]
      exact Bool.false_ne_true
    rw [hasEntry_iff, (records_appendLine line file).2 hends, List.map_append, List.mem_append,
      or_iff_right hpresent, List.map_singleton, List.mem_singleton, eq_comm]

/-- The record in the shadow database has the name unless the name has a colon. -/
theorem nameOf_shadowLine : nameOf (shadowLine name) = name ↔ ':' ∉ name := by
  unfold nameOf shadowLine
  constructor
  · intro h hmem
    have hfields := List.mem_takeWhile_imp (h.symm ▸ hmem)
    simp at hfields
  · intro hfree
    have hall : ∀ c ∈ name, (c != ':') = true := fun c hc => by
      simpa using fun heq : c = ':' => hfree (heq ▸ hc)
    rw [List.takeWhile_append_of_pos hall]
    exact List.append_nil name

theorem readsBack_shadowLine : ReadsBack (shadowLine name) ↔ '\n' ∉ name := by
  have hlast : (shadowLine name).getLast? ≠ some '\r' := by
    rw [shadowLine, List.getLast?_append_of_ne_nil _ (by decide)]
    decide
  have hmem : '\n' ∈ shadowLine name ↔ '\n' ∈ name := by
    rw [shadowLine, List.mem_append]
    exact or_iff_left (by decide)
  rw [ReadsBack, hmem]
  exact and_iff_left hlast

theorem ensurePasswdLine_snd (passwd : Option (List Char)) (text name line : List Char) :
    (ensurePasswdLine passwd (some text) name line).2 =
      if hasEntry (some text) name then some text else appendLine (some text) (shadowLine name) := by
  cases hentry : hasEntry (some text) name <;> simp [ensurePasswdLine, hentry]

/-- The records come out as records of their own, and a second call adds none, exactly when there is
nothing to append, or the database is ended and the records read back under their names. -/
theorem appends_records_iff (src dest group passwd shadow : Option (List Char))
    (text name line : List Char) :
    (MergesRecords src dest ↔ toAppend src dest = [] ∨
      Ended dest ∧ ∀ line ∈ toAppend src dest, line.getLast? ≠ some '\r') ∧
    (AddsRecord (ensureGroupLine · name line) name line group ↔
      hasEntry group name ∨ Ended group ∧ ReadsBack line ∧ nameOf line = name) ∧
    (AddsRecord (fun passwd => (ensurePasswdLine passwd shadow name line).1) name line passwd ↔
      hasEntry passwd name ∨ Ended passwd ∧ ReadsBack line ∧ nameOf line = name) ∧
    (AddsRecord (fun shadow => (ensurePasswdLine passwd shadow name line).2) name (shadowLine name)
        (some text) ↔
      hasEntry (some text) name ∨ Ended (some text) ∧ '\n' ∉ name ∧ ':' ∉ name) := by
  refine ⟨mergesRecords_iff src dest, addsRecord_iff rfl fun _ => rfl, addsRecord_iff rfl fun _ => rfl, ?_⟩
  rw [← readsBack_shadowLine, ← nameOf_shadowLine]
  exact addsRecord_iff (ensurePasswdLine_snd passwd text name line) fun text =>
    ensurePasswdLine_snd passwd text name line

/-- The record of a group becomes a part of the last record, and the next call appends it again. -/
theorem group_joins_last_record :
    ¬ MergesRecords (some "root:x:0:\nwheel:x:10:alice\n".toList) (some "root:x:0:".toList) := by
  have hagain : (appendMissingNames (some "root:x:0:\nwheel:x:10:alice\n".toList)
      (appendMissingNames (some "root:x:0:\nwheel:x:10:alice\n".toList)
        (some "root:x:0:".toList)).1).2 = 1 := by
    decide
  rintro ⟨-, h⟩
  rw [hagain] at h
  exact absurd h one_ne_zero

end Kyth.Accounts

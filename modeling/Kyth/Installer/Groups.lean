import Kyth.Lib.Check
import Kyth.Lib.TextLines

/-!
# Group records for the installed system (`expected_group_overlay`)

An offline `useradd` needs the groups of the new account in the local group file. The records that are
missing there are taken from the image's immutable file, with their numbers.

* `recordsOf`, `expectedGroupOverlay`: the functions of the source;
* `Overlays`: what the result should be;
* `overlays_iff`: it is that exactly when the records taken over have different numbers and the local file
  still parses when its last line is ended.
-/

namespace Kyth.Accounts

open Str Check Rows TextLines

/-- A line of a group file with what is read from it. -/
structure GroupRecord where
  name : List Char
  gid : ℕ
  line : List Char
  deriving DecidableEq, Repr

/-- `EXPECTED_GROUPS`. -/
def expectedGroups : List (List Char) :=
  ["wheel".toList, "video".toList, "audio".toList, "render".toList]

/-- One line of a group file. -/
def parseRecord (line : List Char) : Except String GroupRecord :=
  match line.splitOn ':' with
  | [name, _, gid, _] =>
      if name = [] then throw "installed group database has a malformed record"
      else
        match parseUnsigned 32 gid with
        | some gid => pure { name, gid, line }
        | none => throw "installed group database has an invalid GID"
  | _ => throw "installed group database has a malformed record"

/-- The record of a group. -/
def get (map : List GroupRecord) (group : List Char) : Option GroupRecord :=
  map.find? fun record => record.name = group

/-- The next line: a record that is there already has to be the same one. -/
def insertLine (map : List GroupRecord) (line : List Char) : Except String (List GroupRecord) := do
  let record ← parseRecord line
  match get map record.name with
  | none => pure (map ++ [record])
  | some previous =>
      if previous ≠ record then throw "installed group database has conflicting duplicate records"
      else pure map

/-- The lines that hold a record. -/
def recordLines (text : List Char) : List (List Char) :=
  (lines text).filter fun line => line ≠ [] ∧ line.head? ≠ some '#'

/-- `records`. -/
def recordsOf (text : List Char) : Except String (List GroupRecord) :=
  (recordLines text).foldlM insertLine []

/-- One turn of the loop over the expected groups. -/
def addGroup (localRecords baseRecords : List GroupRecord) (output group : List Char) :
    Except String (List Char) :=
  if (get localRecords group).isSome then pure output
  else
    match get baseRecords group with
    | none =>
        throw ("required group " ++ String.ofList group ++ " is absent from installed group databases")
    | some record =>
        if localRecords.any fun existing => existing.name ≠ group ∧ existing.gid = record.gid then
          throw ("required group " ++ String.ofList group ++ " conflicts with an installed GID")
        else pure (terminate output ++ record.line ++ ['\n'])

/-- `expected_group_overlay`. -/
def expectedGroupOverlay (localText baseText : List Char) : Except String (List Char) := do
  let localRecords ← recordsOf localText
  let baseRecords ← recordsOf baseText
  expectedGroups.foldlM (addGroup localRecords baseRecords) localText

/-! ### What the result should be -/

/-- The record of a group in a text. -/
def lookup (text group : List Char) : Option GroupRecord :=
  (recordsOf text).toOption.bind fun map => get map group

/-- A record is read from one of these lines. -/
def Describes (lines : List (List Char)) (record : GroupRecord) : Prop :=
  ∃ line ∈ lines, parseRecord line = .ok record

/-- The local text goes on with the records it lacks: every expected group has its record, on a line of its
own but for a carriage return; no record taken over has the number of another group; and there is nothing
left to do the next time. -/
structure Overlays (localText baseText output : List Char) : Prop where
  before : localText <+: output
  held : ∀ group ∈ expectedGroups, ∃ record,
    (lookup localText group).or (lookup baseText group) = some record ∧
      ∃ piece ∈ output.splitOn '\n', piece = record.line ∨ piece = record.line ++ ['\r']
  distinct : ∀ group ∈ expectedGroups, ∀ record other, lookup localText group = none →
    lookup baseText group = some record → Describes (recordLines output) other →
    other.name ≠ group → other.gid ≠ record.gid
  again : expectedGroupOverlay output baseText = .ok output

/-- The expected groups that are missing locally have different numbers in the base text. -/
def FreshGids (localText baseText : List Char) : Prop :=
  ∀ group ∈ expectedGroups, ∀ group' ∈ expectedGroups, group ≠ group' →
    lookup localText group = none → lookup localText group' = none →
    (lookup baseText group).map GroupRecord.gid ≠ (lookup baseText group').map GroupRecord.gid

/-- Nothing is missing locally, or the local text parses with its last line ended. -/
def StaysReadable (localText : List Char) : Prop :=
  (∀ group ∈ expectedGroups, (lookup localText group).isSome) ∨
    Passes (recordsOf (terminate localText))

instance (localText baseText : List Char) : Decidable (FreshGids localText baseText) := by
  unfold FreshGids
  infer_instance

instance (localText : List Char) : Decidable (StaysReadable localText) := by
  unfold StaysReadable
  infer_instance

/-! ### Lines and records -/

theorem parseRecord_eq_ok {line : List Char} {record : GroupRecord} :
    parseRecord line = .ok record ↔
      ∃ password gid members, line = record.name ++ ':' :: (password ++ ':' :: (gid ++ ':' :: members)) ∧
        ':' ∉ record.name ∧ ':' ∉ password ∧ ':' ∉ gid ∧ ':' ∉ members ∧ record.name ≠ [] ∧
        parseUnsigned 32 gid = some record.gid ∧ record.line = line := by
  constructor
  · intro h
    have hjoin : List.intercalate [':'] (line.splitOn ':') = line := List.intercalate_splitOn ':'
    have hfree : ∀ part ∈ line.splitOn ':', ':' ∉ part := fun part hpart =>
      PathText.not_mem_of_mem_splitOn hpart
    unfold parseRecord at h
    split at h
    · rename_i name password gid members hfields
      rw [hfields] at hjoin hfree
      by_cases hname : name = []
      · rw [if_pos hname] at h
        cases h
      · rw [if_neg hname] at h
        cases hgid : parseUnsigned 32 gid with
        | none =>
          rw [hgid] at h
          cases h
        | some n =>
          rw [hgid] at h
          cases h
          refine ⟨password, gid, members, ?_, hfree _ (by simp), hfree _ (by simp), hfree _ (by simp),
            hfree _ (by simp), hname, hgid, rfl⟩
          rw [← hjoin]
          simp [List.intercalate]
    · cases h
  · rintro ⟨password, gid, members, hline, hname, hpassword, hgid, hmembers, hne, hparse, hself⟩
    have hfields : line.splitOn ':' = [record.name, password, gid, members] := by
      rw [hline, List.splitOn_append_cons_self_of_not_mem hname,
        List.splitOn_append_cons_self_of_not_mem hpassword,
        List.splitOn_append_cons_self_of_not_mem hgid, List.splitOn_eq_singleton hmembers]
    unfold parseRecord
    rw [hfields]
    simp only [if_neg hne, hparse]
    rw [← hself]
    rfl

theorem line_of_parse {line : List Char} {record : GroupRecord} (h : parseRecord line = .ok record) :
    record.line = line := by
  obtain ⟨-, -, -, -, -, -, -, -, -, -, hself⟩ := parseRecord_eq_ok.1 h
  exact hself

/-- A carriage return at the end of a record belongs to the list of its members. -/
theorem parseRecord_stripCr {line : List Char} {record : GroupRecord}
    (h : parseRecord line = .ok record) :
    parseRecord (stripCr line) = .ok { record with line := stripCr line } := by
  obtain ⟨password, gid, members, hline, hname, hpassword, hgid, hmembers, hne, hparse, -⟩ :=
    parseRecord_eq_ok.1 h
  refine parseRecord_eq_ok.2 ⟨password, gid, stripCr members, ?_, hname, hpassword, hgid, ?_, hne, hparse,
    rfl⟩
  · subst hline
    cases members with
    | nil =>
      have hkept : ∀ text : List Char, stripCr (text ++ [':']) = text ++ [':'] := fun text => by
        rw [stripCr, if_neg (by simp)]
      have hsame := hkept (record.name ++ ':' :: (password ++ ':' :: gid))
      simpa [stripCr] using hsame
    | cons c members =>
      have hsplit : record.name ++ ':' :: (password ++ ':' :: (gid ++ ':' :: c :: members)) =
          (record.name ++ ':' :: (password ++ ':' :: (gid ++ [':']))) ++ (c :: members) := by simp
      rw [hsplit]
      unfold stripCr
      rw [List.getLast?_append_of_ne_nil _ (List.cons_ne_nil c members)]
      split_ifs with hcr
      · rw [List.dropLast_append_of_ne_nil (List.cons_ne_nil c members)]
        simp
      · simp
  · rcases stripCr_eq members with hsame | hcut
    · rwa [hsame]
    · exact fun hmem => hmembers (hcut ▸ List.mem_append_left _ hmem)

theorem parseRecord_of_stripCr {line : List Char} {record : GroupRecord}
    (h : parseRecord (stripCr line) = .ok record) :
    parseRecord line = .ok { record with line } := by
  rcases stripCr_eq line with hsame | hcut
  · rw [hsame] at h
    rw [h, ← line_of_parse h]
  · obtain ⟨password, gid, members, hline, hname, hpassword, hgid, hmembers, hne, hparse, -⟩ :=
      parseRecord_eq_ok.1 h
    refine parseRecord_eq_ok.2 ⟨password, gid, members ++ ['\r'], ?_, hname, hpassword, hgid, ?_, hne,
      hparse, rfl⟩
    · rw [hcut, hline]
      simp
    · simpa using hmembers

/-- A line with a record passes the filter of `records`. -/
theorem parsed_line {line : List Char} {record : GroupRecord} (h : parseRecord line = .ok record)
    (hcomment : record.name.head? ≠ some '#') : line ≠ [] ∧ line.head? ≠ some '#' := by
  obtain ⟨password, gid, members, hline, -, -, -, -, hne, -, -⟩ := parseRecord_eq_ok.1 h
  rw [hline, List.head?_append_of_ne_nil _ hne]
  exact ⟨by simp, hcomment⟩

/-! ### Reading a text -/

section Reading

variable {map map' : List GroupRecord} {line : List Char} {ls : List (List Char)}

/-- The names of the records are distinct. -/
def Distinct (map : List GroupRecord) : Prop := (map.map GroupRecord.name).Nodup

theorem get_eq_some_iff (h : Distinct map) {group : List Char} {record : GroupRecord} :
    get map group = some record ↔ record ∈ map ∧ record.name = group := by
  unfold get
  constructor
  · intro hget
    exact ⟨List.mem_of_find?_eq_some hget, by simpa using List.find?_some hget⟩
  · rintro ⟨hmem, rfl⟩
    cases hget : map.find? fun other => decide (other.name = record.name) with
    | none => exact absurd (decide_eq_true rfl) (List.find?_eq_none.1 hget record hmem)
    | some other =>
      have hname : other.name = record.name := by simpa using List.find?_some hget
      rw [List.inj_on_of_nodup_map h (List.mem_of_find?_eq_some hget) hmem hname]

theorem get_eq_none_iff {group : List Char} :
    get map group = none ↔ ∀ record ∈ map, record.name ≠ group := by
  unfold get
  rw [List.find?_eq_none]
  simp

/-- What one line does. -/
theorem insertLine_eq_ok :
    insertLine map line = .ok map' ↔ ∃ record, parseRecord line = .ok record ∧
      (get map record.name = none ∧ map' = map ++ [record] ∨
        get map record.name = some record ∧ map' = map) := by
  unfold insertLine
  rw [bind_eq_ok]
  refine exists_congr fun record => and_congr_right fun _ => ?_
  cases hget : get map record.name with
  | none =>
    have hnew : (pure (map ++ [record]) : Except String (List GroupRecord)) = .ok map' ↔
        map' = map ++ [record] :=
      ⟨fun h => by cases h; rfl, fun h => h ▸ rfl⟩
    exact hnew.trans (by simp)
  | some previous =>
    by_cases hsame : previous = record
    · subst hsame
      have hkept : (pure map : Except String (List GroupRecord)) = .ok map' ↔ map' = map :=
        ⟨fun h => by cases h; rfl, fun h => h ▸ rfl⟩
      simpa using hkept
    · simp [hsame]

theorem Distinct.concat (h : Distinct map) {record : GroupRecord}
    (hnew : get map record.name = none) : Distinct (map ++ [record]) := by
  unfold Distinct
  rw [List.map_append, List.map_singleton, ← List.concat_eq_append]
  refine List.Nodup.concat (fun hmem => ?_) h
  obtain ⟨other, hother, hname⟩ := List.mem_map.1 hmem
  exact get_eq_none_iff.1 hnew other hother hname

theorem describes_cons {record : GroupRecord} (h : parseRecord line = .ok record)
    (other : GroupRecord) :
    Describes (line :: ls) other ↔ other = record ∨ Describes ls other := by
  unfold Describes
  constructor
  · rintro ⟨found, hfound, hother⟩
    rcases List.mem_cons.1 hfound with rfl | hlater
    · rw [h] at hother
      exact .inl (Except.ok.inj hother).symm
    · exact .inr ⟨found, hlater, hother⟩
  · rintro (rfl | ⟨found, hfound, hother⟩)
    · exact ⟨line, List.mem_cons_self, h⟩
    · exact ⟨found, List.mem_cons_of_mem _ hfound, hother⟩

/-- All that the lines describe, and nothing else, is in the result. -/
theorem insertLines_mem (h : ls.foldlM insertLine map = .ok map') (hdistinct : Distinct map) :
    Distinct map' ∧ ∀ record, record ∈ map' ↔ record ∈ map ∨ Describes ls record := by
  induction ls generalizing map with
  | nil =>
    cases h
    exact ⟨hdistinct, fun record => ⟨.inl, fun hmem => hmem.elim id fun ⟨_, hnone, _⟩ => nomatch hnone⟩⟩
  | cons line ls ih =>
    rw [List.foldlM_cons, bind_eq_ok] at h
    obtain ⟨between, hline, hrest⟩ := h
    obtain ⟨record, hparse, hinsert⟩ := insertLine_eq_ok.1 hline
    rcases hinsert with ⟨hnew, rfl⟩ | ⟨hold, rfl⟩
    · obtain ⟨hdistinct', hmem⟩ := ih hrest (hdistinct.concat hnew)
      refine ⟨hdistinct', fun other => ?_⟩
      rw [hmem, describes_cons hparse, List.mem_append, List.mem_singleton, or_assoc]
    · obtain ⟨hdistinct', hmem⟩ := ih hrest hdistinct
      refine ⟨hdistinct', fun other => ?_⟩
      rw [hmem, describes_cons hparse]
      refine ⟨fun hother => hother.imp_right .inr, fun hother => ?_⟩
      rcases hother with hother | rfl | hother
      · exact .inl hother
      · exact .inl ((get_eq_some_iff hdistinct).1 hold).1
      · exact .inr hother

/-- Lines are read without an error when all of them parse and no two records of one name differ. -/
theorem insertLines_passes (hdistinct : Distinct map) :
    Passes (ls.foldlM insertLine map) ↔ (∀ line ∈ ls, Passes (parseRecord line)) ∧
      ∀ record record', (record ∈ map ∨ Describes ls record) →
        (record' ∈ map ∨ Describes ls record') → record.name = record'.name → record = record' := by
  constructor
  · rintro ⟨map', h⟩
    refine ⟨?_, fun record record' hrecord hrecord' hname => ?_⟩
    · clear hdistinct
      induction ls generalizing map with
      | nil => exact fun _ hnone => nomatch hnone
      | cons line ls ih =>
        rw [List.foldlM_cons, bind_eq_ok] at h
        obtain ⟨between, hline, hrest⟩ := h
        obtain ⟨record, hparse, -⟩ := insertLine_eq_ok.1 hline
        exact List.forall_mem_cons.2 ⟨⟨record, hparse⟩, ih hrest⟩
    · obtain ⟨hdistinct', hmem⟩ := insertLines_mem h hdistinct
      exact List.inj_on_of_nodup_map hdistinct' ((hmem record).2 hrecord) ((hmem record').2 hrecord')
        hname
  · rintro ⟨hparse, hsame⟩
    induction ls generalizing map with
    | nil => exact ⟨map, rfl⟩
    | cons line ls ih =>
      obtain ⟨⟨record, hrecord⟩, hrest⟩ := List.forall_mem_cons.1 hparse
      have hhead := fun other => @describes_cons line ls record hrecord other
      rw [List.foldlM_cons, passes_bind]
      cases hget : get map record.name with
      | none =>
        refine ⟨map ++ [record], insertLine_eq_ok.2 ⟨record, hrecord, .inl ⟨hget, rfl⟩⟩,
          ih (hdistinct.concat hget) hrest fun first second hfirst hsecond => ?_⟩
        rw [List.mem_append, List.mem_singleton, or_assoc, ← hhead] at hfirst hsecond
        exact hsame first second hfirst hsecond
      | some previous =>
        have hprevious := (get_eq_some_iff hdistinct).1 hget
        have heq : previous = record :=
          hsame previous record (.inl hprevious.1) (.inr ((hhead record).2 (.inl rfl))) hprevious.2
        refine ⟨map, insertLine_eq_ok.2 ⟨record, hrecord, .inr ⟨hget.trans (heq ▸ rfl), rfl⟩⟩,
          ih hdistinct hrest fun first second hfirst hsecond => ?_⟩
        exact hsame first second (hfirst.imp_right fun h => (hhead first).2 (.inr h))
          (hsecond.imp_right fun h => (hhead second).2 (.inr h))

end Reading

/-! ### What is written -/

section Writing

variable {localRecords baseRecords added : List GroupRecord} {output output' : List Char}

/-- The records are written one after the other, each on a line of its own. -/
def appendAll (output : List Char) (added : List GroupRecord) : List Char :=
  added.foldl (fun output record => terminate output ++ record.line ++ ['\n']) output

@[simp] theorem appendAll_nil (output : List Char) : appendAll output [] = output := rfl

@[simp] theorem appendAll_cons (output : List Char) (record : GroupRecord)
    (added : List GroupRecord) : appendAll output (record :: added) =
      appendAll (terminate output ++ record.line ++ ['\n']) added := rfl

theorem prefix_appendAll (output : List Char) (added : List GroupRecord) :
    output <+: appendAll output added := by
  induction added generalizing output with
  | nil => exact List.prefix_rfl
  | cons record added ih =>
    rw [appendAll_cons]
    refine List.IsPrefix.trans ?_ (ih _)
    rw [List.append_assoc]
    exact (prefix_closed '\n' output).trans (List.prefix_append _ _)

/-- The first record ends the last line, and then one line follows the other. -/
theorem lines_appendAll (hlines : ∀ record ∈ added, '\n' ∉ record.line) (hsome : added ≠ []) :
    lines (appendAll output added) =
      lines (terminate output) ++ added.map fun record => stripCr record.line := by
  induction added generalizing output with
  | nil => exact absurd rfl hsome
  | cons record added ih =>
    obtain ⟨hline, hlater⟩ := List.forall_mem_cons.1 hlines
    have hone : lines (terminate output ++ record.line ++ ['\n']) =
        lines (terminate output) ++ [stripCr record.line] := by
      rw [List.append_assoc, lines_terminate_append, lines_line hline, lines_nil]
    have hended : terminate (terminate output ++ record.line ++ ['\n']) =
        terminate output ++ record.line ++ ['\n'] := closed_concat _ _
    rw [appendAll_cons, List.map_cons]
    cases added with
    | nil => rw [appendAll_nil, hone, List.map_nil]
    | cons next added =>
      rw [ih hlater (List.cons_ne_nil _ _), hended, hone, List.append_assoc, List.singleton_append]

/-- Every piece of the text stays, and every added record becomes one. -/
theorem mem_pieces_appendAll (hlines : ∀ record ∈ added, '\n' ∉ record.line) {piece : List Char}
    (hne : piece ≠ []) (h : piece ∈ output.splitOn '\n' ∨ ∃ record ∈ added, piece = record.line) :
    piece ∈ (appendAll output added).splitOn '\n' := by
  induction added generalizing output with
  | nil => exact h.elim id fun ⟨_, hnone, _⟩ => nomatch hnone
  | cons record added ih =>
    obtain ⟨hline, hlater⟩ := List.forall_mem_cons.1 hlines
    rw [appendAll_cons]
    refine ih hlater ?_
    rcases h with hold | ⟨other, hother, rfl⟩
    · left
      rw [List.append_assoc]
      exact mem_splitOn_append hold hne _
    · rcases List.mem_cons.1 hother with rfl | hother
      · left
        unfold terminate
        rcases closed_eq '\n' output with ⟨hnil, -⟩ | ⟨before, hbefore, -⟩
        · rw [hnil, List.nil_append, List.splitOn_append_cons_self, List.splitOn_eq_singleton hline]
          exact List.mem_append_left _ (List.mem_singleton_self _)
        · rw [hbefore, List.append_assoc, List.append_assoc, List.singleton_append,
            List.splitOn_append_cons_self, List.splitOn_append_cons_self, List.splitOn_eq_singleton hline]
          exact List.mem_append_right _ (List.mem_append_left _ (List.mem_singleton_self _))
      · exact .inr ⟨other, hother, rfl⟩

/-- The loop over the expected groups. -/
theorem addGroups_eq_ok {groups : List (List Char)} (hbase : Distinct baseRecords)
    (h : groups.foldlM (addGroup localRecords baseRecords) output = .ok output') :
    ∃ added, output' = appendAll output added ∧
      added.map GroupRecord.name = groups.filter (fun group => (get localRecords group).isNone) ∧
      ∀ record ∈ added, get baseRecords record.name = some record ∧
        ∀ existing ∈ localRecords, existing.name ≠ record.name → existing.gid ≠ record.gid := by
  induction groups generalizing output with
  | nil =>
    cases h
    exact ⟨[], rfl, rfl, fun _ hnone => nomatch hnone⟩
  | cons group groups ih =>
    rw [List.foldlM_cons, bind_eq_ok] at h
    obtain ⟨between, hgroup, hrest⟩ := h
    unfold addGroup at hgroup
    cases hlocal : get localRecords group with
    | some found =>
      rw [hlocal, Option.isSome_some, if_pos rfl] at hgroup
      cases hgroup
      obtain ⟨added, heq, hnames, hadded⟩ := ih hrest
      exact ⟨added, heq, by rw [List.filter_cons_of_neg (by simp [hlocal]), hnames], hadded⟩
    | none =>
      rw [hlocal, Option.isSome_none, if_neg Bool.false_ne_true] at hgroup
      cases hrecord : get baseRecords group with
      | none =>
        rw [hrecord] at hgroup
        cases hgroup
      | some record =>
        obtain ⟨-, hname⟩ := (get_eq_some_iff hbase).1 hrecord
        simp only [hrecord] at hgroup
        by_cases hconflict :
            (localRecords.any fun existing => existing.name ≠ group ∧ existing.gid = record.gid) = true
        · rw [if_pos hconflict] at hgroup
          cases hgroup
        · rw [if_neg hconflict] at hgroup
          cases hgroup
          obtain ⟨added, heq, hnames, hadded⟩ := ih hrest
          refine ⟨record :: added, heq, ?_, List.forall_mem_cons.2 ⟨⟨hname ▸ hrecord, ?_⟩, hadded⟩⟩
          · rw [List.filter_cons_of_pos (by simp [hlocal]), List.map_cons, hnames, hname]
          · intro existing hexisting hother hgid
            refine hconflict (List.any_eq_true.2 ⟨existing, hexisting, ?_⟩)
            rw [decide_eq_true_eq]
            exact ⟨hname ▸ hother, hgid⟩

/-- Where no group is missing nothing is added. -/
theorem addGroups_of_present {groups : List (List Char)}
    (h : ∀ group ∈ groups, (get localRecords group).isSome) :
    groups.foldlM (addGroup localRecords baseRecords) output = .ok output := by
  induction groups with
  | nil => rfl
  | cons group groups ih =>
    obtain ⟨hgroup, hrest⟩ := List.forall_mem_cons.1 h
    rw [List.foldlM_cons, addGroup, if_pos hgroup]
    exact ih hrest

end Writing

/-! ### The overlay -/

section Overlay

variable {text localText baseText output : List Char} {map localRecords baseRecords added : List GroupRecord}

theorem recordsOf_eq_ok (h : recordsOf text = .ok map) :
    Distinct map ∧ ∀ record, record ∈ map ↔ Describes (recordLines text) record := by
  obtain ⟨hdistinct, hmem⟩ := insertLines_mem h List.nodup_nil
  exact ⟨hdistinct, fun record => (hmem record).trans (or_iff_right List.not_mem_nil)⟩

theorem lookup_eq (h : recordsOf text = .ok map) (group : List Char) :
    lookup text group = get map group := by
  unfold lookup
  rw [h]
  rfl

theorem describes_append {ls ls' : List (List Char)} {record : GroupRecord} :
    Describes (ls ++ ls') record ↔ Describes ls record ∨ Describes ls' record := by
  unfold Describes
  simp only [List.mem_append, or_and_right, exists_or]

/-- What is read from a text stands on one of its lines. -/
theorem Describes.line {record : GroupRecord} (h : Describes (recordLines text) record) :
    record.line ∈ lines text ∧ parseRecord record.line = .ok record ∧ record.name.head? ≠ some '#' := by
  obtain ⟨line, hline, hparse⟩ := h
  have hself := line_of_parse hparse
  obtain ⟨hmem, hkeep⟩ := List.mem_filter.1 hline
  obtain ⟨password, gid, members, heq, -, -, -, -, hne, -, -⟩ := parseRecord_eq_ok.1 hparse
  rw [decide_eq_true_eq] at hkeep
  refine ⟨hself ▸ hmem, hself ▸ hparse, fun hcomment => hkeep.2 ?_⟩
  rw [heq, List.head?_append_of_ne_nil _ hne, hcomment]

theorem describes_of_line {record : GroupRecord} {line : List Char} (hmem : line ∈ lines text)
    (hparse : parseRecord line = .ok record) (hcomment : record.name.head? ≠ some '#') :
    Describes (recordLines text) record :=
  ⟨line, List.mem_filter.2 ⟨hmem, decide_eq_true (parsed_line hparse hcomment)⟩, hparse⟩

/-- Ending the last line changes no name and no number. -/
theorem describes_terminate {record : GroupRecord}
    (h : Describes (recordLines (terminate text)) record) :
    ∃ record', Describes (recordLines text) record' ∧ record'.name = record.name ∧
      record'.gid = record.gid := by
  obtain ⟨hmem, hparse, hcomment⟩ := h.line
  rcases of_mem_lines_terminate hmem with ⟨line, hline, hsame | hcut⟩
  · rw [hsame] at hparse
    exact ⟨record, describes_of_line hline hparse hcomment, rfl, rfl⟩
  · rw [hcut] at hparse
    exact ⟨_, describes_of_line hline (parseRecord_of_stripCr hparse) hcomment, rfl, rfl⟩

theorem exists_describes_terminate {record : GroupRecord} (h : Describes (recordLines text) record) :
    ∃ record', Describes (recordLines (terminate text)) record' ∧ record'.name = record.name := by
  obtain ⟨hmem, hparse, hcomment⟩ := h.line
  rcases mem_lines_terminate hmem with hsame | hcut
  · exact ⟨record, describes_of_line hsame hparse hcomment, rfl⟩
  · exact ⟨_, describes_of_line hcut (parseRecord_stripCr hparse) hcomment, rfl⟩

/-- What is known of an overlay that was written. -/
structure Written (localText baseText output : List Char)
    (localRecords baseRecords added : List GroupRecord) : Prop where
  localOk : recordsOf localText = .ok localRecords
  baseOk : recordsOf baseText = .ok baseRecords
  output : output = appendAll localText added
  names : added.map GroupRecord.name =
    expectedGroups.filter fun group => (get localRecords group).isNone
  fromBase : ∀ record ∈ added, get baseRecords record.name = some record
  apart : ∀ record ∈ added, ∀ existing ∈ localRecords, existing.name ≠ record.name →
    existing.gid ≠ record.gid

theorem exists_written (h : expectedGroupOverlay localText baseText = .ok output) :
    ∃ localRecords baseRecords added,
      Written localText baseText output localRecords baseRecords added := by
  unfold expectedGroupOverlay at h
  obtain ⟨localRecords, hlocal, h⟩ := bind_eq_ok.1 h
  obtain ⟨baseRecords, hbase, h⟩ := bind_eq_ok.1 h
  obtain ⟨added, houtput, hnames, hadded⟩ := addGroups_eq_ok (recordsOf_eq_ok hbase).1 h
  exact ⟨localRecords, baseRecords, added, hlocal, hbase, houtput, hnames,
    fun record hrecord => (hadded record hrecord).1, fun record hrecord => (hadded record hrecord).2⟩

namespace Written

variable (h : Written localText baseText output localRecords baseRecords added)

include h

/-- The missing groups. -/
theorem mem_added_iff {group : List Char} (hgroup : group ∈ expectedGroups) :
    (∃ record ∈ added, record.name = group) ↔ get localRecords group = none := by
  have hmem : group ∈ added.map GroupRecord.name ↔ _ := h.names ▸ List.mem_filter
  rw [List.mem_map] at hmem
  rw [hmem, Option.isNone_iff_eq_none]
  exact and_iff_right hgroup

theorem missing {record : GroupRecord} (hrecord : record ∈ added) :
    record.name ∈ expectedGroups ∧ get localRecords record.name = none := by
  have hmem : record.name ∈ added.map GroupRecord.name := List.mem_map_of_mem hrecord
  rw [h.names, List.mem_filter, Option.isNone_iff_eq_none] at hmem
  exact hmem

theorem parsed {record : GroupRecord} (hrecord : record ∈ added) :
    '\n' ∉ record.line ∧ parseRecord record.line = .ok record ∧ record.name.head? ≠ some '#' := by
  obtain ⟨hdistinct, hdescribes⟩ := recordsOf_eq_ok h.baseOk
  obtain ⟨hmem, -⟩ := (get_eq_some_iff hdistinct).1 (h.fromBase record hrecord)
  obtain ⟨hline, hparse, hcomment⟩ := ((hdescribes record).1 hmem).line
  exact ⟨newline_not_mem hline, hparse, hcomment⟩

theorem recordLines_output (hsome : added ≠ []) :
    recordLines output =
      recordLines (terminate localText) ++ added.map fun record => stripCr record.line := by
  unfold recordLines
  rw [h.output, lines_appendAll (fun record hrecord => (h.parsed hrecord).1) hsome, List.filter_append,
    List.append_cancel_left_eq, List.filter_eq_self]
  intro line hline
  obtain ⟨record, hrecord, rfl⟩ := List.mem_map.1 hline
  obtain ⟨-, hparse, hcomment⟩ := h.parsed hrecord
  exact decide_eq_true (parsed_line (parseRecord_stripCr hparse) hcomment)

/-- The groups of the result: those of the ended local text and those that were added. -/
theorem describes_output (hsome : added ≠ []) (other : GroupRecord) :
    Describes (recordLines output) other ↔ Describes (recordLines (terminate localText)) other ∨
      ∃ record ∈ added, other = { record with line := stripCr record.line } := by
  rw [h.recordLines_output hsome, describes_append]
  refine or_congr_right ⟨?_, ?_⟩
  · rintro ⟨line, hline, hparse⟩
    obtain ⟨record, hrecord, rfl⟩ := List.mem_map.1 hline
    rw [parseRecord_stripCr (h.parsed hrecord).2.1] at hparse
    exact ⟨record, hrecord, (Except.ok.inj hparse).symm⟩
  · rintro ⟨record, hrecord, rfl⟩
    exact ⟨_, List.mem_map_of_mem hrecord, parseRecord_stripCr (h.parsed hrecord).2.1⟩

/-- No group that was added is named in the local text. -/
theorem name_ne {record other : GroupRecord} (hrecord : record ∈ added)
    (hother : Describes (recordLines (terminate localText)) other) : other.name ≠ record.name := by
  obtain ⟨existing, hexisting, hname, -⟩ := describes_terminate hother
  rw [← hname]
  exact get_eq_none_iff.1 (h.missing hrecord).2 existing
    (((recordsOf_eq_ok h.localOk).2 existing).2 hexisting)

theorem added_of_missing {group : List Char} (hgroup : group ∈ expectedGroups)
    (hmissing : lookup localText group = none) {record : GroupRecord}
    (hrecord : lookup baseText group = some record) : record ∈ added ∧ record.name = group := by
  rw [lookup_eq h.localOk] at hmissing
  rw [lookup_eq h.baseOk] at hrecord
  obtain ⟨found, hfound, hname⟩ := (h.mem_added_iff hgroup).2 hmissing
  have hsame := h.fromBase found hfound
  rw [hname, hrecord, Option.some.injEq] at hsame
  exact ⟨hsame ▸ hfound, hsame ▸ hname⟩

/-- Every expected group has its record. -/
theorem held {group : List Char} (hgroup : group ∈ expectedGroups) : ∃ record,
    (lookup localText group).or (lookup baseText group) = some record ∧
      ∃ piece ∈ output.splitOn '\n', piece = record.line ∨ piece = record.line ++ ['\r'] := by
  have hlines : ∀ record ∈ added, '\n' ∉ record.line := fun record hrecord => (h.parsed hrecord).1
  have hne : ∀ {record : GroupRecord}, parseRecord record.line = .ok record → record.line ≠ [] := by
    intro record hparse hnil
    rw [hnil] at hparse
    cases hparse
  rw [lookup_eq h.localOk, lookup_eq h.baseOk]
  cases hlocal : get localRecords group with
  | some record =>
    obtain ⟨hdistinct, hdescribes⟩ := recordsOf_eq_ok h.localOk
    obtain ⟨hmem, -⟩ := (get_eq_some_iff hdistinct).1 hlocal
    obtain ⟨hline, hparse, -⟩ := ((hdescribes record).1 hmem).line
    obtain ⟨piece, hpiece, hform⟩ := exists_piece_of_mem_lines hline
    refine ⟨record, rfl, piece, h.output ▸ mem_pieces_appendAll hlines ?_ (.inl hpiece), hform⟩
    rcases hform with rfl | rfl
    · exact hne hparse
    · simp
  | none =>
    obtain ⟨record, hrecord, hname⟩ := (h.mem_added_iff hgroup).2 hlocal
    refine ⟨record, hname ▸ h.fromBase record hrecord, record.line, ?_, .inl rfl⟩
    exact h.output ▸ mem_pieces_appendAll hlines (hne (h.parsed hrecord).2.1) (.inr ⟨record, hrecord, rfl⟩)

/-- The numbers of what was added: the source compares them with the local ones, not with each other. -/
theorem distinct_iff :
    (∀ group ∈ expectedGroups, ∀ record other, lookup localText group = none →
      lookup baseText group = some record → Describes (recordLines output) other →
      other.name ≠ group → other.gid ≠ record.gid) ↔ FreshGids localText baseText := by
  constructor
  · intro hdistinct group hgroup group' hgroup' hne hmissing hmissing' hsame
    obtain ⟨record, hrecord, hname⟩ := (h.mem_added_iff hgroup).2 (lookup_eq h.localOk _ ▸ hmissing)
    obtain ⟨record', hrecord', hname'⟩ := (h.mem_added_iff hgroup').2 (lookup_eq h.localOk _ ▸ hmissing')
    have hbase := hname ▸ h.fromBase record hrecord
    have hbase' := hname' ▸ h.fromBase record' hrecord'
    rw [lookup_eq h.baseOk, lookup_eq h.baseOk, hbase, hbase'] at hsame
    refine hdistinct group hgroup record _ hmissing (lookup_eq h.baseOk _ ▸ hbase)
      ((h.describes_output (List.ne_nil_of_mem hrecord) _).2 (.inr ⟨record', hrecord', rfl⟩))
      (hname'.trans_ne hne.symm) (Option.some.inj hsame).symm
  · intro hfresh group hgroup record other hmissing hrecord hother hname
    obtain ⟨hadded, hgroupName⟩ := h.added_of_missing hgroup hmissing hrecord
    rcases (h.describes_output (List.ne_nil_of_mem hadded) other).1 hother with hlocal | hnew
    · obtain ⟨existing, hexisting, hsameName, hsameGid⟩ := describes_terminate hlocal
      rw [← hsameGid]
      refine h.apart record hadded existing (((recordsOf_eq_ok h.localOk).2 existing).2 hexisting) ?_
      rw [hsameName, hgroupName]
      exact hname
    · obtain ⟨record', hadded', rfl⟩ := hnew
      obtain ⟨hgroup', hmissing'⟩ := h.missing hadded'
      have hbase' := h.fromBase record' hadded'
      have hgids := hfresh record'.name hgroup' group hgroup hname
        (lookup_eq h.localOk _ ▸ hmissing') hmissing
      rw [hrecord, lookup_eq h.baseOk, hbase'] at hgids
      exact fun hgid => hgids (congrArg some hgid)

/-- What was added does not disturb the reading of the text. -/
theorem passes_output_iff (hsome : added ≠ []) :
    Passes (recordsOf output) ↔ Passes (recordsOf (terminate localText)) := by
  have hnil : Distinct [] := List.nodup_nil
  have hmem : ∀ {ls : List (List Char)} {other : GroupRecord}, (other ∈ [] ∨ Describes ls other) ↔
      Describes ls other := or_iff_right List.not_mem_nil
  unfold recordsOf
  rw [insertLines_passes hnil, insertLines_passes hnil]
  simp only [hmem]
  constructor
  · rintro ⟨hparse, hsame⟩
    rw [h.recordLines_output hsome] at hparse
    exact ⟨fun line hline => hparse line (List.mem_append_left _ hline), fun first second hfirst hsecond =>
      hsame first second ((h.describes_output hsome _).2 (.inl hfirst))
        ((h.describes_output hsome _).2 (.inl hsecond))⟩
  · rintro ⟨hparse, hsame⟩
    constructor
    · rw [h.recordLines_output hsome]
      refine List.forall_mem_append.2 ⟨hparse, fun line hline => ?_⟩
      obtain ⟨record, hrecord, rfl⟩ := List.mem_map.1 hline
      exact ⟨_, parseRecord_stripCr (h.parsed hrecord).2.1⟩
    · intro first second hfirst hsecond hname
      rcases (h.describes_output hsome _).1 hfirst with hfirst | ⟨record, hrecord, rfl⟩
      · rcases (h.describes_output hsome _).1 hsecond with hsecond | ⟨record', hrecord', rfl⟩
        · exact hsame first second hfirst hsecond hname
        · have hne : first.name ≠ record'.name := h.name_ne hrecord' hfirst
          exact absurd hname hne
      · rcases (h.describes_output hsome _).1 hsecond with hsecond | ⟨record', hrecord', rfl⟩
        · have hne : second.name ≠ record.name := h.name_ne hrecord hsecond
          exact absurd hname.symm hne
        · have hbase := h.fromBase record hrecord
          have hname' : record.name = record'.name := hname
          rw [hname', h.fromBase record' hrecord', Option.some.injEq] at hbase
          rw [hbase]

/-- A second call changes nothing as long as it can read the result of the first. -/
theorem again_iff (hoverlay : expectedGroupOverlay localText baseText = .ok output) :
    expectedGroupOverlay output baseText = .ok output ↔ StaysReadable localText := by
  have hpresent : (∀ group ∈ expectedGroups, (lookup localText group).isSome) ↔ added = [] := by
    rw [← List.map_eq_nil_iff (f := GroupRecord.name), h.names, List.filter_eq_nil_iff]
    refine forall₂_congr fun group _ => ?_
    rw [lookup_eq h.localOk, Option.isNone_iff_eq_none, Option.isSome_iff_ne_none]
  unfold StaysReadable
  by_cases hnone : added = []
  · have hsame : output = localText := by rw [h.output, hnone, appendAll_nil]
    rw [hsame]
    exact iff_of_true (hsame ▸ hoverlay) (.inl (hpresent.2 hnone))
  · rw [hpresent, or_iff_right hnone, ← h.passes_output_iff hnone]
    constructor
    · intro hagain
      obtain ⟨map, hmap, -⟩ := bind_eq_ok.1 hagain
      exact ⟨map, hmap⟩
    · rintro ⟨map, hmap⟩
      obtain ⟨hdistinct, hdescribes⟩ := recordsOf_eq_ok hmap
      have hheld : ∀ {other : GroupRecord}, Describes (recordLines output) other →
          (get map other.name).isSome := fun hother =>
        Option.isSome_iff_exists.2 ⟨_, (get_eq_some_iff hdistinct).2 ⟨(hdescribes _).2 hother, rfl⟩⟩
      unfold expectedGroupOverlay
      refine bind_eq_ok.2 ⟨map, hmap, bind_eq_ok.2 ⟨baseRecords, h.baseOk, ?_⟩⟩
      refine addGroups_of_present fun group hgroup => ?_
      cases hlocal : get localRecords group with
      | some record =>
        obtain ⟨hdistinctLocal, hdescribesLocal⟩ := recordsOf_eq_ok h.localOk
        obtain ⟨hmem, hname⟩ := (get_eq_some_iff hdistinctLocal).1 hlocal
        obtain ⟨record', hrecord', hname'⟩ :=
          exists_describes_terminate ((hdescribesLocal record).1 hmem)
        rw [← hname, ← hname']
        exact hheld ((h.describes_output hnone _).2 (.inl hrecord'))
      | none =>
        obtain ⟨record, hrecord, hname⟩ := (h.mem_added_iff hgroup).2 hlocal
        have hthere := (h.describes_output hnone { record with line := stripCr record.line }).2
          (.inr ⟨record, hrecord, rfl⟩)
        have hfound := hheld hthere
        rwa [← hname]

end Written

/-- Every local text and every base text for which there is an overlay. -/
theorem overlays_iff (h : expectedGroupOverlay localText baseText = .ok output) :
    Overlays localText baseText output ↔ FreshGids localText baseText ∧ StaysReadable localText := by
  obtain ⟨localRecords, baseRecords, added, hwritten⟩ := exists_written h
  constructor
  · exact fun hall => ⟨hwritten.distinct_iff.1 hall.distinct, (hwritten.again_iff h).1 hall.again⟩
  · rintro ⟨hfresh, hreadable⟩
    exact ⟨hwritten.output ▸ prefix_appendAll localText added, fun group hgroup => hwritten.held hgroup,
      hwritten.distinct_iff.2 hfresh, (hwritten.again_iff h).2 hreadable⟩

end Overlay

/-- Three groups are taken over from the image, one of them listed twice there. -/
theorem three_groups_taken_over :
    Overlays "root:x:0:\nwheel:x:10:\n".toList
      "wheel:x:10:\nvideo:x:39:camera\naudio:x:63:\nrender:x:105:\nvideo:x:39:camera\n".toList
      ("root:x:0:\nwheel:x:10:\nvideo:x:39:camera\naudio:x:63:\nrender:x:105:\n").toList :=
  (overlays_iff (by decide)).2 ⟨by decide, by decide⟩

/-- Two groups with one number in the image's file are both taken over. -/
theorem two_groups_one_number :
    expectedGroupOverlay "wheel:x:10:\n".toList "video:x:39:\naudio:x:39:\nrender:x:105:\n".toList =
        .ok "wheel:x:10:\nvideo:x:39:\naudio:x:39:\nrender:x:105:\n".toList ∧
      ¬ Overlays "wheel:x:10:\n".toList "video:x:39:\naudio:x:39:\nrender:x:105:\n".toList
        "wheel:x:10:\nvideo:x:39:\naudio:x:39:\nrender:x:105:\n".toList := by
  have hok : expectedGroupOverlay "wheel:x:10:\n".toList
      "video:x:39:\naudio:x:39:\nrender:x:105:\n".toList =
        .ok "wheel:x:10:\nvideo:x:39:\naudio:x:39:\nrender:x:105:\n".toList := by decide
  refine ⟨hok, fun hall => ?_⟩
  have hfresh := ((overlays_iff hok).1 hall).1
  revert hfresh
  decide

end Kyth.Accounts

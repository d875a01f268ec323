import Kyth.Fetch.Checksum
import Kyth.Lib.ByteText

/-!
# Accepted checksum files (`system/release_fetch.rs`)

A checksum file is accepted exactly if its entries list the target (`verifyChecksumFile_eq_ok`). The
entries are the lines that are neither blank nor comments, without the blanks around them, and neither
the armor of a clear-signed file nor its dash escapes change them (`entries_clearSigned`). What the armor
changes is the size, for which there is a limit.
-/

namespace Kyth.Fetch

open Str TextLines Trim Utf8Text Boundary

variable {algorithm target digest name line stripped text body actual : List Char} {length number : ℕ}
  {entries found : List (List Char)}

/-! ### Entries -/

/-- An entry: a digest, blanks, a marker perhaps, and a name in the same directory. -/
structure IsEntry (length : ℕ) (line digest name : List Char) : Prop where
  exists_eq : ∃ blanks marker, line = digest ++ (blanks ++ (marker ++ name)) ∧ blanks ≠ [] ∧
    (∀ c ∈ blanks, isWhitespace c = true) ∧ (∀ c ∈ (marker ++ name).head?, isWhitespace c = false) ∧
    (marker = [] ∧ name.head? ≠ some '*' ∨ marker = ['*'] ∨ marker = ['.', '/'] ∨
      marker = ['*', '.', '/'])
  digest_length : digest.length = length
  digest_digits : ∀ c ∈ digest, isAsciiHexdigit c = true
  name_ne_nil : name ≠ []
  name_free : '/' ∉ name

theorem isWhitespace_of_hexdigit {c : Char} (h : isAsciiHexdigit c = true) : isWhitespace c = false := by
  simp only [isAsciiHexdigit, isAsciiDigit, Bool.or_eq_true, Bool.and_eq_true, decide_eq_true_eq] at h
  simp only [isWhitespace, Bool.or_eq_false_iff, Bool.and_eq_false_iff, decide_eq_false_iff_not,
    beq_eq_false_iff_ne]
  omega

theorem splitBlank_append {front rest : List Char} {c : Char} (hfront : ∀ d ∈ front, isWhitespace d = false)
    (hc : isWhitespace c = true) : splitBlank (front ++ c :: rest) = some (front, rest) := by
  have hall : ∀ d ∈ front, (!isWhitespace d) = true := fun d hd => by rw [hfront d hd, Bool.not_false]
  rw [splitBlank, if_pos (by simp [hc]), List.takeWhile_append_of_pos hall,
    List.dropWhile_append_of_pos hall, List.takeWhile_cons_of_neg (by simp [hc]),
    List.dropWhile_cons_of_neg (by simp [hc]), List.append_nil]
  rfl

theorem exists_of_splitBlank {front rest : List Char} (h : splitBlank text = some (front, rest)) :
    ∃ c, text = front ++ c :: rest ∧ isWhitespace c = true := by
  unfold splitBlank at h
  split_ifs at h with hany
  cases h
  have hne : text.dropWhile (!isWhitespace ·) ≠ [] := by
    intro hnil
    obtain ⟨d, hd, hblank⟩ := List.any_eq_true.1 hany
    have hd' := List.dropWhile_eq_nil_iff.1 hnil d hd
    rw [hblank] at hd'
    cases hd'
  obtain ⟨c, rest, hdrop⟩ := List.exists_cons_of_ne_nil hne
  have hblank : (!isWhitespace c) = false := by
    have hhead := List.head_dropWhile_not (!isWhitespace ·) hne
    simp only [hdrop, List.head_cons] at hhead
    exact hhead
  refine ⟨c, ?_, by simpa using hblank⟩
  rw [hdrop, List.drop_one, List.tail_cons, ← hdrop, List.takeWhile_append_dropWhile]

/-- The marker in front of a name, and what is left without it. -/
theorem withoutMarker {blanks marker : List Char} (hblanks : ∀ c ∈ blanks, isWhitespace c = true)
    (hhead : ∀ c ∈ (marker ++ name).head?, isWhitespace c = false) (hfree : '/' ∉ name)
    (hmarker : marker = [] ∧ name.head? ≠ some '*' ∨ marker = ['*'] ∨ marker = ['.', '/'] ∨
      marker = ['*', '.', '/']) :
    withoutFront ['.', '/'] (withoutFront ['*']
      ((blanks ++ (marker ++ name)).dropWhile isWhitespace)) = name := by
  have hdrop : (blanks ++ (marker ++ name)).dropWhile isWhitespace = marker ++ name := by
    rw [List.dropWhile_append_of_pos hblanks]
    cases hrest : marker ++ name with
    | nil => rfl
    | cons c rest =>
      rw [hrest] at hhead
      exact List.dropWhile_cons_of_neg (by simp [hhead c rfl])
  have hdot : withoutFront ['.', '/'] name = name := by
    refine withoutFront_eq_self fun hstart => hfree (hstart.subset ?_)
    exact List.mem_cons_of_mem _ List.mem_cons_self
  rw [hdrop]
  rcases hmarker with ⟨rfl, hstar⟩ | rfl | rfl | rfl
  · have hplain : withoutFront ['*'] name = name := by
      refine withoutFront_eq_self ?_
      rintro ⟨rest, rfl⟩
      exact hstar rfl
    rw [List.nil_append, hplain, hdot]
  · rw [withoutFront_append, hdot]
  · have hplain : withoutFront ['*'] (['.', '/'] ++ name) = ['.', '/'] ++ name := by
      refine withoutFront_eq_self ?_
      rintro ⟨rest, hrest⟩
      cases hrest
    rw [hplain, withoutFront_append]
  · rw [show ['*', '.', '/'] ++ name = ['*'] ++ (['.', '/'] ++ name) from rfl, withoutFront_append,
      withoutFront_append]

theorem exists_marker (rest : List Char)
    (hfree : '/' ∉ withoutFront ['.', '/'] (withoutFront ['*'] rest)) :
    ∃ marker, rest = marker ++ withoutFront ['.', '/'] (withoutFront ['*'] rest) ∧
      (marker = [] ∧ (withoutFront ['.', '/'] (withoutFront ['*'] rest)).head? ≠ some '*' ∨
        marker = ['*'] ∨ marker = ['.', '/'] ∨ marker = ['*', '.', '/']) := by
  by_cases hstar : ['*'] <+: rest
  · obtain ⟨rest, rfl⟩ := hstar
    rw [withoutFront_append]
    by_cases hdot : ['.', '/'] <+: rest
    · obtain ⟨rest, rfl⟩ := hdot
      rw [withoutFront_append]
      exact ⟨['*', '.', '/'], rfl, .inr (.inr (.inr rfl))⟩
    · rw [withoutFront_eq_self hdot]
      exact ⟨['*'], rfl, .inr (.inl rfl)⟩
  · rw [withoutFront_eq_self hstar]
    by_cases hdot : ['.', '/'] <+: rest
    · obtain ⟨rest, rfl⟩ := hdot
      rw [withoutFront_append]
      exact ⟨['.', '/'], rfl, .inr (.inr (.inl rfl))⟩
    · rw [withoutFront_eq_self hdot]
      refine ⟨[], rfl, .inl ⟨rfl, fun hhead => hstar ?_⟩⟩
      cases rest with
      | nil => cases hhead
      | cons c rest =>
        cases hhead
        exact ⟨rest, rfl⟩

theorem checkEntry_eq_ok : checkEntry algorithm length number line = .ok (digest, name) ↔
    IsEntry length line digest name := by
  unfold checkEntry
  constructor
  · intro h
    cases hsplit : splitBlank line with
    | none =>
      rw [hsplit] at h
      cases h
    | some parts =>
      obtain ⟨hash, rest⟩ := parts
      rw [hsplit] at h
      dsimp only at h
      split_ifs at h with hname hdigest
      rw [not_or, not_not, Bool.not_eq_false, List.all_eq_true] at hdigest
      rw [not_or] at hname
      cases h
      obtain ⟨c, rfl, hblank⟩ := exists_of_splitBlank hsplit
      obtain ⟨marker, hmarker, hcases⟩ := exists_marker _ hname.2
      refine ⟨⟨c :: rest.takeWhile isWhitespace, marker, ?_, by simp, ?_, ?_, hcases⟩, hdigest.1, hdigest.2,
        hname.1, hname.2⟩
      · rw [← hmarker, List.cons_append, List.takeWhile_append_dropWhile]
      · refine List.forall_mem_cons.2 ⟨hblank, fun d hd => List.mem_takeWhile_imp hd⟩
      · rw [← hmarker]
        intro d hd
        have hne : rest.dropWhile isWhitespace ≠ [] := by
          intro hnil
          rw [hnil] at hd
          cases hd
        have hhead := List.head_dropWhile_not isWhitespace hne
        rw [List.head?_eq_some_head hne] at hd
        cases hd
        exact hhead
  · rintro ⟨⟨blanks, marker, rfl, hne, hblanks, hhead, hmarker⟩, hlength, hdigits, hname, hfree⟩
    obtain ⟨c, blanks, rfl⟩ := List.exists_cons_of_ne_nil hne
    rw [List.forall_mem_cons] at hblanks
    rw [List.cons_append, splitBlank_append (fun d hd => isWhitespace_of_hexdigit (hdigits d hd)) hblanks.1]
    dsimp only
    rw [withoutMarker hblanks.2 hhead hfree hmarker, if_neg (not_or.2 ⟨hname, hfree⟩), if_neg]
    rw [not_or, not_not, Bool.not_eq_false, List.all_eq_true]
    exact ⟨hlength, hdigits⟩

/-! ### The entries of a text -/

/-- Neither a blank line nor a comment. -/
def isEntryText (stripped : List Char) : Bool := !(stripped == [] || stripped.head? == some '#')

def entriesOf (pieces : List (List Char)) : List (List Char) := (pieces.map trimmed).filter isEntryText

theorem isEntryText_eq_false :
    isEntryText stripped = false ↔ stripped = [] ∨ stripped.head? = some '#' := by
  rw [isEntryText, Bool.not_eq_false', Bool.or_eq_true, beq_iff_eq, beq_iff_eq]

/-- The digest that an entry gives for the target, in lower case. -/
def digestFor (length : ℕ) (target line : List Char) : Option (List Char) :=
  ((checkEntry [] length 0 line).toOption.filter (·.2 = target)).map (·.1.map charLower)

theorem checkEntry_toOption : (checkEntry algorithm length number line).toOption = some (digest, name) ↔
    IsEntry length line digest name := by
  have hok : checkEntry algorithm length number line = .ok (digest, name) ↔
      IsEntry length line digest name := checkEntry_eq_ok
  rw [← hok]
  cases checkEntry algorithm length number line with
  | error message => simp [Except.toOption]
  | ok p => simp [Except.toOption]

theorem digestFor_eq_some : digestFor length target line = some actual ↔
    ∃ digest, IsEntry length line digest target ∧ digest.map charLower = actual := by
  rw [digestFor, Option.map_eq_some_iff]
  constructor
  · rintro ⟨⟨digest, name⟩, h, rfl⟩
    obtain ⟨hentry, hname⟩ := Option.filter_eq_some_iff.1 h
    obtain rfl := of_decide_eq_true hname
    exact ⟨digest, checkEntry_toOption.1 hentry, rfl⟩
  · rintro ⟨digest, hentry, rfl⟩
    exact ⟨(digest, target), Option.filter_eq_some_iff.2 ⟨checkEntry_toOption.2 hentry, by simp⟩, rfl⟩

theorem digestFor_of_isEntry (h : IsEntry length line digest name) :
    digestFor length target line = if name = target then some (digest.map charLower) else none := by
  rw [digestFor, checkEntry_toOption.2 h]
  by_cases hname : name = target
  · simp [hname]
  · simp [hname]

theorem matchingDigests_eq_ok {pieces : List (List Char)} :
    matchingDigests algorithm length target number pieces = .ok found ↔
      (∀ line ∈ entriesOf pieces, ∃ digest name, IsEntry length line digest name) ∧
        found = (entriesOf pieces).filterMap (digestFor length target) := by
  induction pieces generalizing number found with
  | nil =>
    rw [matchingDigests, entriesOf, List.map_nil, List.filter_nil, List.filterMap_nil, Except.ok.injEq]
    simp [eq_comm]
  | cons piece pieces ih =>
    have hcons : entriesOf (piece :: pieces) =
        if isEntryText (trimmed piece) then trimmed piece :: entriesOf pieces else entriesOf pieces := by
      rw [entriesOf, List.map_cons, List.filter_cons]
      rfl
    rw [matchingDigests, hcons]
    dsimp only
    cases hentry : isEntryText (trimmed piece) with
    | false =>
      rw [if_pos (isEntryText_eq_false.1 hentry), ih]
      rfl
    | true =>
      have hskip : ¬ (trimmed piece = [] ∨ (trimmed piece).head? = some '#') := by
        rw [← isEntryText_eq_false, hentry]
        exact Bool.noConfusion
      rw [if_neg hskip, if_pos rfl, List.forall_mem_cons]
      cases hcheck : checkEntry algorithm length number (trimmed piece) with
      | error message =>
        refine iff_of_false (fun h => by cases h) ?_
        rintro ⟨⟨⟨digest, name, hline⟩, -⟩, -⟩
        rw [checkEntry_eq_ok.2 hline] at hcheck
        cases hcheck
      | ok p =>
        have hline : IsEntry length (trimmed piece) p.1 p.2 := checkEntry_eq_ok.1 hcheck
        rw [and_assoc, and_iff_right ⟨p.1, p.2, hline⟩, List.filterMap_cons, digestFor_of_isEntry hline]
        cases hrest : matchingDigests algorithm length target (number + 1) pieces with
        | error message =>
          refine iff_of_false (fun h => by cases h) fun h => ?_
          rw [ih.2 ⟨h.1, rfl⟩] at hrest
          cases hrest
        | ok rest =>
          obtain ⟨hall, rfl⟩ := ih.1 hrest
          rw [and_iff_right hall]
          by_cases hname : p.2 = target
          · simp [bind, Except.bind, pure, Except.pure, hname, eq_comm]
          · simp [bind, Except.bind, pure, Except.pure, hname, eq_comm]

/-- The entries list the target: all of them are well formed, and just one names it, with its digest. -/
structure Lists (length : ℕ) (target actual : List Char) (entries : List (List Char)) : Prop where
  wellFormed : ∀ line ∈ entries, ∃ digest name, IsEntry length line digest name
  unique : ∃ before line after digest, entries = before ++ line :: after ∧
    IsEntry length line digest target ∧ digest.map charLower = actual ∧
    ∀ other ∈ before ++ after, ∀ digest, ¬ IsEntry length other digest target

theorem lists_iff : Lists length target actual entries ↔
    (∀ line ∈ entries, ∃ digest name, IsEntry length line digest name) ∧
      entries.filterMap (digestFor length target) = [actual] := by
  have hnone : ∀ {line}, digestFor length target line = none ↔
      ∀ digest, ¬ IsEntry length line digest target := by
    intro line
    rw [Option.eq_none_iff_forall_ne_some]
    constructor
    · exact fun h digest hentry => h _ (digestFor_eq_some.2 ⟨digest, hentry, rfl⟩)
    · rintro h actual hsome
      obtain ⟨digest, hentry, -⟩ := digestFor_eq_some.1 hsome
      exact h digest hentry
  constructor
  · rintro ⟨hall, before, line, after, digest, rfl, hentry, rfl, hothers⟩
    rw [List.forall_mem_append] at hothers
    refine ⟨hall, List.filterMap_eq_cons_iff.2 ⟨before, line, after, rfl, ?_, ?_, ?_⟩⟩
    · exact fun other hother => hnone.2 (hothers.1 other hother)
    · exact digestFor_eq_some.2 ⟨digest, hentry, rfl⟩
    · exact List.filterMap_eq_nil_iff.2 fun other hother => hnone.2 (hothers.2 other hother)
  · rintro ⟨hall, hdigests⟩
    obtain ⟨before, line, after, rfl, hbefore, hline, hafter⟩ := List.filterMap_eq_cons_iff.1 hdigests
    obtain ⟨digest, hentry, hactual⟩ := digestFor_eq_some.1 hline
    refine ⟨hall, before, line, after, digest, rfl, hentry, hactual, ?_⟩
    rw [List.forall_mem_append]
    exact ⟨fun other hother => hnone.1 (hbefore other hother),
      fun other hother => hnone.1 (List.filterMap_eq_nil_iff.1 hafter other hother)⟩

/-! ### Accepted files -/

/-- The entries of a text, which do not depend on how its lines end. -/
def entriesText (text : List Char) : List (List Char) := entriesOf (text.splitOn '\n')

theorem trimmed_stripCr (line : List Char) : trimmed (stripCr line) = trimmed line := by
  rcases stripCr_eq line with h | h
  · rw [h]
  · conv_rhs => rw [h]
    exact (trimmed_concat (by decide) _).symm

theorem entriesOf_append (pieces more : List (List Char)) :
    entriesOf (pieces ++ more) = entriesOf pieces ++ entriesOf more := by
  rw [entriesOf, List.map_append, List.filter_append]
  rfl

theorem entriesOf_map_stripCr (pieces : List (List Char)) :
    entriesOf (pieces.map stripCr) = entriesOf pieces := by
  rw [entriesOf, entriesOf, List.map_map]
  congr 1
  exact List.map_congr_left fun line _ => trimmed_stripCr line

theorem entriesOf_lines (text : List Char) : entriesOf (lines text) = entriesText text := by
  obtain ⟨ended, last, hpieces, -, hlines, -⟩ := lines_eq text
  rw [hlines, entriesText, hpieces, entriesOf_append, entriesOf_append, entriesOf_map_stripCr]
  congr 1
  by_cases hlast : last = []
  · rw [hlast]
    rfl
  · rw [List.filter_cons_of_pos (by simp [hlast]), List.filter_nil]

/-- The checksum file is a regular one with the bytes of a text. -/
def fileOf (text : List Char) : Except String Node := .ok (.regular (encode text).length (.ok (encode text)))

theorem readChecksum_fileOf (text : List Char) (h : (encode text).length ≤ maxChecksumBytes) :
    readChecksum (fileOf text) = .ok text := by
  rw [fileOf, readChecksum, if_neg (Nat.not_lt.2 h), decode_encode]

theorem compareDigest_eq_ok {digest : List Char → List UInt8 → List UInt8} {bytes : List UInt8} :
    compareDigest digest (.ok bytes) target algorithm found = .ok () ↔
      found = [hexText (digest (algorithm.map charLower) bytes)] := by
  unfold compareDigest
  split
  · rename_i expected
    dsimp only
    split_ifs with hne
    · exact iff_of_false (fun h => by cases h) fun h => hne (List.singleton_inj.1 h).symm
    · rw [not_not] at hne
      exact iff_of_true rfl (by rw [hne])
  · rename_i hother
    refine iff_of_false (fun h => by cases h) ?_
    rintro rfl
    exact hother _ rfl

/-- The target is a regular file that can be read, and the entries list it. -/
def ListsTarget (digest : List Char → List UInt8 → List UInt8) (targetFile : Except String Node)
    (target algorithm : List Char) (entries : List (List Char)) : Prop :=
  ∃ size bytes length, targetFile = .ok (.regular size (.ok bytes)) ∧
    digestLength algorithm = some length ∧
    Lists length target (hexText (digest (algorithm.map charLower) bytes)) entries

theorem compareDigest_error {digest : List Char → List UInt8 → List UInt8} {error : String} :
    compareDigest digest (.error error) target algorithm found ≠ .ok () := by
  unfold compareDigest
  split
  · exact fun h => by cases h
  · exact fun h => by cases h

/-- A checksum file is accepted exactly if it is small enough and its entries list the target. -/
theorem verifyChecksumFile_eq_ok {digest : List Char → List UInt8 → List UInt8}
    {targetFile : Except String Node} {path : String} (h : clearSignedBody text = .ok body) :
    verifyChecksumFile digest (fileOf text) targetFile path target algorithm = .ok () ↔
      (encode text).length ≤ maxChecksumBytes ∧
        ListsTarget digest targetFile target algorithm (entriesText body) := by
  rcases targetFile with error | ⟨size, content⟩ | _
  · simp [verifyChecksumFile, ListsTarget]
  · rw [verifyChecksumFile]
    cases hlength : digestLength algorithm with
    | none => simp [ListsTarget, hlength]
    | some length =>
      by_cases hsize : (encode text).length ≤ maxChecksumBytes
      · simp only [readChecksum_fileOf text hsize, h, bind, Except.bind, hsize, true_and]
        cases hfound : matchingDigests algorithm length target 1 (lines body) with
        | error message =>
          refine iff_of_false (fun h => by cases h) ?_
          rintro ⟨_, _, _, -, hlength', hlists⟩
          rw [hlength] at hlength'
          cases hlength'
          rw [matchingDigests_eq_ok.2 ⟨entriesOf_lines body ▸ hlists.wellFormed, rfl⟩] at hfound
          cases hfound
        | ok found =>
          obtain ⟨hall, rfl⟩ := matchingDigests_eq_ok.1 hfound
          rw [entriesOf_lines] at hall ⊢
          cases content with
          | error error =>
            refine iff_of_false compareDigest_error ?_
            rintro ⟨_, _, _, hregular, -⟩
            cases hregular
          | ok bytes =>
            dsimp only
            rw [compareDigest_eq_ok]
            constructor
            · exact fun hfound => ⟨size, bytes, length, rfl, hlength, lists_iff.2 ⟨hall, hfound⟩⟩
            · rintro ⟨_, _, _, hregular, hlength', hlists⟩
              cases hregular
              rw [hlength] at hlength'
              cases hlength'
              exact (lists_iff.1 hlists).2
      · refine iff_of_false (fun h => ?_) fun h => hsize h.1
        rw [fileOf, readChecksum, if_pos (Nat.lt_of_not_le hsize)] at h
        cases h
  · simp [verifyChecksumFile, ListsTarget]

/-! ### Clear-signed files -/

/-- A line of the body as it is written between the armor. -/
def dashEscape (line : List Char) : List Char := if line.head? = some '-' then '-' :: ' ' :: line else line

/-- The clear-signed form of a body, with the lines of its headers and what stands behind the line of the
signature. -/
def clearSigned (headers : List (List Char)) (body trailer : List Char) : List Char :=
  beginArmor ++ '\n' :: (headers.flatMap (· ++ ['\n']) ++ '\n' ::
    (['\n'].intercalate ((body.splitOn '\n').map dashEscape) ++ '\n' ::
      (signatureArmor ++ '\n' :: trailer)))

/-- No line of the body is an armor line. -/
def Unarmored (body : List Char) : Prop :=
  ∀ line ∈ body.splitOn '\n', trimmed line ≠ beginArmor ∧ trimmed line ≠ signatureArmor

theorem dashEscape_eq (line : List Char) : dashEscape line = line ∧ line.head? ≠ some '-' ∨
    ∃ rest, line = '-' :: rest ∧ dashEscape line = '-' :: ' ' :: line := by
  unfold dashEscape
  split_ifs with hdash
  · cases line with
    | nil => cases hdash
    | cons c rest =>
      cases hdash
      exact .inr ⟨rest, rfl, rfl⟩
  · exact .inl ⟨rfl, hdash⟩

/-- The escape is taken off, also where the line loses a carriage return. -/
theorem withoutFront_dashEscape (line : List Char) :
    withoutFront ['-', ' '] (stripCr (dashEscape line)) = stripCr line := by
  rcases dashEscape_eq line with ⟨heq, hdash⟩ | ⟨rest, rfl, heq⟩
  · rw [heq]
    refine withoutFront_eq_self ?_
    rintro ⟨more, hmore⟩
    rcases stripCr_eq line with h | h
    · rw [h] at hmore
      exact hdash (by rw [← hmore]; rfl)
    · rw [h, ← hmore] at hdash
      exact hdash rfl
  · have hcr : stripCr ('-' :: ' ' :: '-' :: rest) = ['-', ' '] ++ stripCr ('-' :: rest) := by
      unfold stripCr
      rw [List.getLast?_cons_cons, List.getLast?_cons_cons]
      split_ifs
      · rw [List.dropLast_cons_of_ne_nil (by simp), List.dropLast_cons_of_ne_nil (by simp)]
        rfl
      · rfl
    rw [heq, hcr, withoutFront_append]

/-- An escaped line is no armor. -/
theorem trimmed_dashEscape_ne {line : List Char} (h : trimmed line ≠ signatureArmor) :
    trimmed (stripCr (dashEscape line)) ≠ signatureArmor := by
  rw [trimmed_stripCr]
  rcases dashEscape_eq line with ⟨heq, -⟩ | ⟨rest, rfl, heq⟩
  · rwa [heq]
  · have htrimmed := trimmed_cons_append_cons (c := '-') (d := '-') (by decide) (by decide) [' '] rest
    rw [heq]
    intro hsignature
    rw [show '-' :: ' ' :: '-' :: rest = ['-', ' '] ++ '-' :: rest from rfl, htrimmed] at hsignature
    have hsecond : some ' ' = some '-' := congrArg (fun text => text.tail.head?) hsignature
    cases hsecond

theorem lines_rows {rows : List (List Char)} (h : ∀ row ∈ rows, '\n' ∉ row) (more : List Char) :
    lines (rows.flatMap (· ++ ['\n']) ++ more) = rows.map stripCr ++ lines more := by
  induction rows with
  | nil => rfl
  | cons row rows ih =>
    rw [List.forall_mem_cons] at h
    rw [List.flatMap_cons, List.append_assoc, List.append_assoc, List.singleton_append,
      lines_line h.1, ih h.2]
    rfl

theorem newline_not_mem_piece (h : line ∈ body.splitOn '\n') : '\n' ∉ line := PathText.not_mem_of_mem_splitOn h

theorem newline_not_mem_dashEscape (h : '\n' ∉ line) : '\n' ∉ dashEscape line := by
  rcases dashEscape_eq line with ⟨heq, -⟩ | ⟨rest, -, heq⟩
  · rwa [heq]
  · rw [heq]
    simp [h]

/-- The lines of a clear-signed file. -/
theorem lines_clearSigned {headers : List (List Char)} (hheaders : ∀ header ∈ headers, '\n' ∉ header)
    (body trailer : List Char) :
    lines (clearSigned headers body trailer) = beginArmor :: (headers.map stripCr ++
      [] :: ((body.splitOn '\n').map (stripCr ∘ dashEscape) ++ signatureArmor :: lines trailer)) := by
  have hpieces : (['\n'].intercalate ((body.splitOn '\n').map dashEscape)).splitOn '\n' =
      (body.splitOn '\n').map dashEscape := by
    refine List.splitOn_intercalate _ (fun line hline => ?_) (by simp)
    obtain ⟨piece, hpiece, rfl⟩ := List.mem_map.1 hline
    exact newline_not_mem_dashEscape (newline_not_mem_piece hpiece)
  have hempty : ∀ more : List Char, lines ('\n' :: more) = [] :: lines more :=
    fun more => lines_line (List.not_mem_nil) more
  rw [clearSigned, lines_line (by decide), lines_rows hheaders, hempty, lines_append_newline, hpieces,
    lines_line (by decide), List.map_map]
  rfl

theorem clearSignedBody_clearSigned {headers : List (List Char)}
    (hheaders : ∀ header ∈ headers, '\n' ∉ header ∧ trimmed header ≠ []) (hbody : Unarmored body)
    (trailer : List Char) : clearSignedBody (clearSigned headers body trailer) =
      .ok (['\n'].intercalate ((body.splitOn '\n').map stripCr)) := by
  have hbegin : isBlankLine beginArmor = false := by decide
  have hall : ∀ line ∈ headers.map stripCr, (!isBlankLine line) = true := by
    intro line hline
    obtain ⟨header, hheader, rfl⟩ := List.mem_map.1 hline
    simpa [isBlankLine, trimmed_stripCr] using (hheaders header hheader).2
  have hlines : ∀ line ∈ (body.splitOn '\n').map (stripCr ∘ dashEscape),
      decide (trimmed line ≠ signatureArmor) = true := by
    intro line hline
    obtain ⟨piece, hpiece, rfl⟩ := List.mem_map.1 hline
    exact decide_eq_true (trimmed_dashEscape_ne (hbody piece hpiece).2)
  have hsignature : trimmed signatureArmor = signatureArmor := by decide
  rw [clearSignedBody, lines_clearSigned fun header hheader => (hheaders header hheader).1,
    List.dropWhile_cons_of_neg (by simp [hbegin])]
  dsimp only
  rw [if_neg (by decide), List.dropWhile_append_of_pos hall, List.dropWhile_cons_of_neg (by decide),
    List.drop_one, List.tail_cons, List.takeWhile_append_of_pos hlines,
    List.takeWhile_cons_of_neg (by simp [hsignature]), List.append_nil, if_neg (by simp), List.map_map]
  congr 2
  exact List.map_congr_left fun line _ => withoutFront_dashEscape line

theorem clearSignedBody_of_unarmored (h : Unarmored body) : clearSignedBody body = .ok body := by
  unfold clearSignedBody
  split
  · rfl
  · rename_i first rest hlines
    have hmem : first ∈ lines body := by
      refine (List.dropWhile_sublist isBlankLine).subset ?_
      rw [hlines]
      exact List.mem_cons_self
    have hne : trimmed first ≠ beginArmor := by
      obtain ⟨piece, hpiece, rfl | rfl⟩ := exists_piece_of_mem_lines hmem
      · exact (h _ hpiece).1
      · have hpiece := (h _ hpiece).1
        rwa [trimmed_concat (by decide)] at hpiece
    rw [if_pos hne]

/-- The armor and the escapes leave the entries as they are. -/
theorem entries_clearSigned (body : List Char) :
    entriesText (['\n'].intercalate ((body.splitOn '\n').map stripCr)) = entriesText body := by
  have hfree : ∀ line ∈ (body.splitOn '\n').map stripCr, '\n' ∉ line := by
    intro line hline hmem
    obtain ⟨piece, hpiece, rfl⟩ := List.mem_map.1 hline
    refine newline_not_mem_piece hpiece ?_
    rcases stripCr_eq piece with h | h
    · rwa [h] at hmem
    · rw [h]
      exact List.mem_append_left _ hmem
  rw [entriesText, List.splitOn_intercalate _ hfree (by simp), entriesOf_map_stripCr]
  rfl

/-! ### The size -/

theorem length_intercalate_dashEscape (pieces : List (List Char)) :
    (encode (['\n'].intercalate pieces)).length ≤
      (encode (['\n'].intercalate (pieces.map dashEscape))).length := by
  have hline : ∀ line : List Char, (encode line).length ≤ (encode (dashEscape line)).length := by
    intro line
    rcases dashEscape_eq line with ⟨heq, -⟩ | ⟨rest, -, heq⟩
    · rw [heq]
    · rw [heq, show '-' :: ' ' :: line = ['-', ' '] ++ line from rfl, encode_append, List.length_append]
      omega
  induction pieces with
  | nil => exact le_rfl
  | cons piece pieces ih =>
    cases pieces with
    | nil =>
      rw [List.map_cons, List.map_nil, List.intercalate_singleton, List.intercalate_singleton]
      exact hline piece
    | cons next pieces =>
      rw [List.map_cons, List.map_cons, List.intercalate_cons_cons, List.intercalate_cons_cons]
      rw [List.map_cons] at ih
      simp only [encode_append, List.length_append]
      have hpiece := hline piece
      omega

theorem length_clearSigned (headers : List (List Char)) (body trailer : List Char) :
    (encode body).length + (encode trailer).length ≤ (encode (clearSigned headers body trailer)).length := by
  have hbody := length_intercalate_dashEscape (body.splitOn '\n')
  rw [List.intercalate_splitOn] at hbody
  have hcons : ∀ text : List Char, (encode ('\n' :: text)).length = 1 + (encode text).length := by
    intro text
    rw [show '\n' :: text = ['\n'] ++ text from rfl, encode_append, List.length_append]
    rfl
  simp only [clearSigned, encode_append, List.length_append, hcons]
  omega

/-- A clear-signed file that is not too large is accepted exactly if its body is, and only if the body
lists the target. -/
theorem clear_signed_accepts_iff (digest : List Char → List UInt8 → List UInt8)
    (targetFile : Except String Node) (path : String) (target algorithm : List Char)
    (headers : List (List Char)) (body trailer : List Char)
    (hheaders : ∀ header ∈ headers, '\n' ∉ header ∧ trimmed header ≠ []) (hbody : Unarmored body)
    (hsize : (encode (clearSigned headers body trailer)).length ≤ maxChecksumBytes) :
    (verifyChecksumFile digest (fileOf (clearSigned headers body trailer)) targetFile path target algorithm =
        .ok () ↔
      verifyChecksumFile digest (fileOf body) targetFile path target algorithm = .ok ()) ∧
    (verifyChecksumFile digest (fileOf (clearSigned headers body trailer)) targetFile path target
        algorithm = .ok () →
      ListsTarget digest targetFile target algorithm (entriesText body)) := by
  have hlength := length_clearSigned headers body trailer
  have hbodySize : (encode body).length ≤ maxChecksumBytes := by omega
  rw [verifyChecksumFile_eq_ok (clearSignedBody_clearSigned hheaders hbody trailer),
    verifyChecksumFile_eq_ok (clearSignedBody_of_unarmored hbody), entries_clearSigned,
    and_iff_right hsize, and_iff_right hbodySize]
  exact ⟨Iff.rfl, id⟩

/-- The SHA-256 digest of an empty file. -/
def emptyDigest : List UInt8 :=
  [0xe3, 0xb0, 0xc4, 0x42, 0x98, 0xfc, 0x1c, 0x14, 0x9a, 0xfb, 0xf4, 0xc8, 0x99, 0x6f, 0xb9, 0x24,
    0x27, 0xae, 0x41, 0xe4, 0x64, 0x9b, 0x93, 0x4c, 0xa4, 0x95, 0x99, 0x1b, 0x78, 0x52, 0xb8, 0x55]

def emptyFile : Except String Node := .ok (.regular 0 (.ok []))

/-- A manifest for an empty file. -/
def emptyManifest : List Char :=
  "e3b0c44298fc1c149afbf4c8996fb92427ae41e4649b934ca495991b7852b855 *./empty.tar".toList

def hashHeaders : List (List Char) := ["Hash: SHA256".toList]

theorem unarmored_emptyManifest : Unarmored emptyManifest := by
  unfold Unarmored
  decide

theorem listsTarget_emptyManifest : ListsTarget (fun _ _ => emptyDigest) emptyFile "empty.tar".toList
    "sha256".toList (entriesText emptyManifest) := by
  refine ⟨0, [], 64, rfl, by decide, lists_iff.2 ⟨?_, by decide⟩⟩
  have hentries : entriesText emptyManifest = [emptyManifest] := by decide
  rw [hentries]
  intro line hline
  rw [List.mem_singleton.1 hline]
  have hcheck : ((checkEntry [] 64 0 emptyManifest).toOption.map Prod.snd) = some "empty.tar".toList := by
    decide
  obtain ⟨p, hp, -⟩ := Option.map_eq_some_iff.1 hcheck
  exact ⟨p.1, p.2, checkEntry_toOption.1 hp⟩

/-- A small clear-signed manifest is accepted like its body. -/
theorem clear_signed_accepts_empty :
    (verifyChecksumFile (fun _ _ => emptyDigest) (fileOf (clearSigned hashHeaders emptyManifest [])) emptyFile
        "empty.tar" "empty.tar".toList "sha256".toList = .ok () ↔
      verifyChecksumFile (fun _ _ => emptyDigest) (fileOf emptyManifest) emptyFile
        "empty.tar" "empty.tar".toList "sha256".toList = .ok ()) ∧
    (verifyChecksumFile (fun _ _ => emptyDigest) (fileOf (clearSigned hashHeaders emptyManifest [])) emptyFile
        "empty.tar" "empty.tar".toList "sha256".toList = .ok () →
      ListsTarget (fun _ _ => emptyDigest) emptyFile "empty.tar".toList "sha256".toList
        (entriesText emptyManifest)) :=
  clear_signed_accepts_iff _ _ _ _ _ _ _ _ (by decide) unarmored_emptyManifest
    (by decide +kernel)

/-- Text behind the signature that is too long makes the clear-signed file too large. -/
theorem long_signature_is_refused :
    verifyChecksumFile (fun _ _ => emptyDigest) (fileOf emptyManifest) emptyFile
        "empty.tar" "empty.tar".toList "sha256".toList = .ok () ∧
      verifyChecksumFile (fun _ _ => emptyDigest)
        (fileOf (clearSigned hashHeaders emptyManifest (List.replicate maxChecksumBytes 'x'))) emptyFile
        "empty.tar" "empty.tar".toList "sha256".toList ≠ .ok () := by
  have hheaders : ∀ header ∈ hashHeaders, '\n' ∉ header ∧ trimmed header ≠ [] := by decide
  constructor
  · rw [verifyChecksumFile_eq_ok (clearSignedBody_of_unarmored unarmored_emptyManifest)]
    exact ⟨by decide, listsTarget_emptyManifest⟩
  · rw [ne_eq, verifyChecksumFile_eq_ok (clearSignedBody_clearSigned hheaders unarmored_emptyManifest _)]
    rintro ⟨hsize, -⟩
    have hlength := length_clearSigned hashHeaders emptyManifest (List.replicate maxChecksumBytes 'x')
    have htrailer : ∀ n : ℕ, (encode (List.replicate n 'x')).length = n := by
      intro n
      have hbyte : 'x'.utf8Size = 1 := by decide
      rw [encode, List.flatMap_replicate, List.length_flatten]
      simp [hbyte]
    have hbody : 0 < (encode emptyManifest).length := by decide
    rw [htrailer] at hlength
    omega

end Kyth.Fetch

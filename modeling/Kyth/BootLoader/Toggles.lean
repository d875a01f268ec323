import Kyth.BootLoader.Conf

/-!
# Toggling the fast path (`system/boot_loader.rs`)

What a sequence of calls does to the lines that are not the tool's. `Kyth` is looked for anywhere in the
file, the marker by its beginning, and a file that is no text is read as an empty one; `lawful_iff` says
when none of this does harm.
-/

namespace Kyth.BootLoader

open AtomicIo ByteLines Str TextLines Utf8Text

variable {file : Option (List UInt8)} {call : Call} {calls before after : List Call} {timeout : ℤ}
  {manage : Bool} {text line : List Char} {read : List (List Char)}

/-- What every sequence of calls is to keep to. -/
structure Lawful (file : Option (List UInt8)) (calls : List Call) : Prop where
  /-- Every call keeps the lines that are not the tool's, in their order. -/
  keeps : ∀ before call after, calls = before ++ call :: after →
    others (call.after (run file before)) = others (run file before)
  /-- Without a marker nothing happens unless the fast path is wanted. -/
  leaves : ∀ before call after, calls = before ++ call :: after → call.config.fast = false →
    ¬ CarriesMarker (run file before) → call.after (run file before) = run file before
  /-- Once the fast path is given up, giving it up again changes nothing. -/
  settles : ∀ before fast slow more after, calls = before ++ fast :: slow :: (more ++ after) →
    fast.config.fast = true → fast.write.stores = true →
    slow.config.fast = false → slow.write.stores = true →
    (∀ call ∈ more, call.config.fast = false) →
      run file (before ++ fast :: slow :: more) = run file (before ++ [fast, slow])

/-- Every line ends in a newline alone, and the `timeout` lines, of which there are some, say 2. -/
structure IsReset (text : List Char) : Prop where
  joined : text = joined (lines text)
  timeouts : ∀ line ∈ lines text, isTimeoutLine line = true → line = timeoutLine 2
  some : ∃ line ∈ lines text, isTimeoutLine line = true

/-- A call that rewrites a text finds no line of its owner that it would drop or cut, and a marker if it is
to give up the fast path. -/
structure MeetsText (fast : Bool) (text : List Char) : Prop where
  /-- A line that is read with a carriage return at its end loses it. -/
  ends : ∀ line ∈ lines text, isOtherLine line = true → line.getLast? ≠ some '\r'
  /-- A comment that begins like the marker is dropped with it. -/
  comments : fast = false → ∀ line ∈ lines text, isOtherLine line = true → isLoaderComment line = false
  /-- `Kyth` in another line is taken for the marker. -/
  marked : fast = false → markerLine ∈ lines text ∨ IsReset text

/-- A call does no harm: it does not write, or it rewrites a text that allows it, or it writes a file anew
of which no line is lost. -/
def Meets (call : Call) (file : Option (List UInt8)) : Prop :=
  call.write.stores = true →
    match file.bind decode with
    | some text => call.config.fast = true ∨ mentionsKyth text = true → MeetsText call.config.fast text
    | none => call.config.fast = true → others file = []

/-! ### Lines that are written -/

theorem clamp_range (n : ℤ) : 0 ≤ clamp n 0 10 ∧ clamp n 0 10 ≤ 10 := by
  unfold clamp
  split_ifs
  all_goals omega

/-- What is known of the `timeout` lines that are written. -/
structure IsWritten (line : List Char) : Prop where
  free : '\n' ∉ line
  stripCr : stripCr line = line
  isTimeoutLine : isTimeoutLine line = true

theorem isWritten_timeoutLine (hrange : 0 ≤ timeout ∧ timeout ≤ 10) : IsWritten (timeoutLine timeout) := by
  obtain ⟨hlow, hhigh⟩ := hrange
  have hcases : ∀ n ≤ 10, '\n' ∉ timeoutLine (n : ℕ) ∧
      (TextLines.stripCr (timeoutLine (n : ℕ)) = timeoutLine (n : ℕ) ∧
        BootLoader.isTimeoutLine (timeoutLine (n : ℕ)) = true) := by decide
  obtain ⟨n, rfl⟩ := Int.eq_ofNat_of_zero_le hlow
  obtain ⟨hfree, hstrip, htimeout⟩ := hcases n (by omega)
  exact ⟨hfree, hstrip, htimeout⟩

theorem markerLine_facts : '\n' ∉ markerLine ∧ stripCr markerLine = markerLine ∧
    isTimeoutLine markerLine = false ∧ isLoaderComment markerLine = true ∧
    mentionsKyth markerLine = true := by decide

theorem isOtherLine_of_isTimeoutLine (h : isTimeoutLine line = true) : isOtherLine line = false := by
  rw [isOtherLine, h]
  rfl

theorem isOtherLine_markerLine : isOtherLine markerLine = false := by
  simp [isOtherLine]

theorem isTimeoutLine_of_isOtherLine (h : isOtherLine line = true) : isTimeoutLine line = false := by
  rw [← Bool.not_eq_true]
  intro htimeout
  rw [isOtherLine_of_isTimeoutLine htimeout] at h
  cases h

/-- The marker is all that is added to the lines that are kept. -/
theorem setLines_eq (timeout : ℤ) (manage : Bool) (read : List (List Char)) :
    setLines timeout manage read = keptLines timeout manage read ∨
      manage = true ∧ setLines timeout manage read = markerLine :: keptLines timeout manage read := by
  unfold setLines
  dsimp only
  split_ifs with hmarker
  · rw [Bool.and_eq_true] at hmarker
    exact .inr ⟨hmarker.1, rfl⟩
  · exact .inl rfl

@[simp] theorem setLines_false (timeout : ℤ) (read : List (List Char)) :
    setLines timeout false read = keptLines timeout false read := by
  rcases setLines_eq timeout false read with hkept | ⟨hmanage, -⟩
  · exact hkept
  · cases hmanage

theorem mem_keptLines (h : line ∈ keptLines timeout manage read) :
    line = timeoutLine timeout ∨
      line ∈ read ∧ isTimeoutLine line = false ∧ (manage = true ∨ isLoaderComment line = false) := by
  have hkept : ∀ line, line ∈ read.filterMap (keptLine timeout manage) → line = timeoutLine timeout ∨
      line ∈ read ∧ isTimeoutLine line = false ∧ (manage = true ∨ isLoaderComment line = false) := by
    intro line hline
    obtain ⟨found, hfound, hkept⟩ := List.mem_filterMap.1 hline
    unfold keptLine at hkept
    split_ifs at hkept with htimeout hdropped
    · exact .inl (Option.some.inj hkept).symm
    · obtain rfl := Option.some.inj hkept
      refine .inr ⟨hfound, by simpa using htimeout, ?_⟩
      cases manage with
      | true => exact .inl rfl
      | false => exact .inr (by simpa using hdropped)
  unfold keptLines at h
  dsimp only at h
  split_ifs at h
  · exact hkept line h
  · rw [List.mem_append, List.mem_singleton] at h
    exact h.elim (hkept line) .inl

theorem mem_setLines (h : line ∈ setLines timeout manage read) :
    manage = true ∧ line = markerLine ∨ line = timeoutLine timeout ∨
      line ∈ read ∧ isTimeoutLine line = false ∧ (manage = true ∨ isLoaderComment line = false) := by
  rcases setLines_eq timeout manage read with hkept | ⟨hmanage, hmarker⟩
  · rw [hkept] at h
    exact .inr (mem_keptLines h)
  · rw [hmarker, List.mem_cons] at h
    exact h.imp (fun hline => ⟨hmanage, hline⟩) mem_keptLines

theorem timeoutLine_mem_setLines (timeout : ℤ) (manage : Bool) (read : List (List Char)) :
    timeoutLine timeout ∈ setLines timeout manage read := by
  have hkept : timeoutLine timeout ∈ keptLines timeout manage read := by
    unfold keptLines
    dsimp only
    split_ifs with hfound
    · obtain ⟨line, hline, htimeout⟩ := List.any_eq_true.1 hfound
      exact List.mem_filterMap.2 ⟨line, hline, if_pos htimeout⟩
    · exact List.mem_append_right _ (List.mem_singleton_self _)
  rcases setLines_eq timeout manage read with hsame | ⟨-, hmarker⟩
  · rwa [hsame]
  · rw [hmarker]
    exact List.mem_cons_of_mem _ hkept

/-- A file that is managed mentions `Kyth`. -/
theorem mentionsKyth_joined (timeout : ℤ) (read : List (List Char)) :
    mentionsKyth (joined (setLines timeout true read)) = true := by
  have hline : ∃ line ∈ setLines timeout true read, mentionsKyth line = true := by
    unfold setLines
    dsimp only
    split_ifs with hmarker
    · exact ⟨markerLine, List.mem_cons_self, markerLine_facts.2.2.2.2⟩
    · simpa using hmarker
  obtain ⟨line, hmem, hmention⟩ := hline
  exact decide_eq_true ((of_decide_eq_true hmention).trans (infix_joined hmem))

/-- The lines of a text that was written are those that it was made from. -/
theorem lines_joined_setLines (hrange : 0 ≤ timeout ∧ timeout ≤ 10) (manage : Bool)
    (hread : ∀ line ∈ read, '\n' ∉ line) :
    lines (joined (setLines timeout manage read)) = (setLines timeout manage read).map stripCr := by
  refine lines_joined (List.ne_nil_of_mem (timeoutLine_mem_setLines _ _ _)) fun line hline => ?_
  rcases mem_setLines hline with ⟨-, rfl⟩ | rfl | ⟨hmem, -, -⟩
  · exact markerLine_facts.1
  · exact (isWritten_timeoutLine hrange).free
  · exact hread line hmem

/-! ### The lines of the owner -/

theorem others_encode (text : List Char) :
    others (some (encode text)) = ((lines text).filter isOtherLine).map encode := by
  rw [others, Option.getD_some, byteLines_encode, List.filter_map]
  congr 1
  refine List.filter_congr fun line _ => ?_
  rw [Function.comp_apply, Utf8.fromUtf8Lossy_encode]

theorem carriesMarker_encode (text : List Char) :
    CarriesMarker (some (encode text)) ↔ markerLine ∈ lines text := by
  rw [CarriesMarker, Option.getD_some, byteLines_encode, List.mem_map_of_injective encode_injective]

/-- What becomes of a line of the owner. -/
def shrunk (manage : Bool) (line : List Char) : Option (List Char) :=
  if !manage && isLoaderComment line then none
  else if isOtherLine (stripCr line) then some (stripCr line)
  else none

/-- The lines of the owner in what is written are those that were read, each shrunk. -/
theorem filter_setLines (hrange : 0 ≤ timeout ∧ timeout ≤ 10) (manage : Bool) (read : List (List Char)) :
    ((setLines timeout manage read).map stripCr).filter isOtherLine =
      (read.filter isOtherLine).filterMap (shrunk manage) := by
  have hwritten := isWritten_timeoutLine hrange
  have htimeout : isOtherLine (stripCr (timeoutLine timeout)) = false := by
    rw [hwritten.stripCr, isOtherLine_of_isTimeoutLine hwritten.isTimeoutLine]
  have hmarker : isOtherLine (stripCr markerLine) = false := by
    rw [markerLine_facts.2.1, isOtherLine_markerLine]
  have hloop : ((read.filterMap (keptLine timeout manage)).map stripCr).filter isOtherLine =
      (read.filter isOtherLine).filterMap (shrunk manage) := by
    induction read with
    | nil => rfl
    | cons line read ih =>
      by_cases hline : isTimeoutLine line = true
      · rw [List.filterMap_cons_some (by rw [keptLine, if_pos hline]), List.map_cons,
          List.filter_cons_of_neg (by simp [htimeout]), ih,
          List.filter_cons_of_neg (by simp [isOtherLine_of_isTimeoutLine hline])]
      · by_cases hdropped : (!manage && isLoaderComment line) = true
        · rw [List.filterMap_cons_none (by rw [keptLine, if_neg hline, if_pos hdropped]), ih]
          by_cases hother : isOtherLine line = true
          · rw [List.filter_cons_of_pos hother, List.filterMap_cons_none (by rw [shrunk, if_pos hdropped])]
          · rw [List.filter_cons_of_neg hother]
        · rw [List.filterMap_cons_some (by rw [keptLine, if_neg hline, if_neg hdropped]), List.map_cons]
          by_cases hother : isOtherLine line = true
          · rw [List.filter_cons_of_pos hother]
            by_cases hstripped : isOtherLine (stripCr line) = true
            · rw [List.filter_cons_of_pos hstripped, ih,
                List.filterMap_cons_some (by rw [shrunk, if_neg hdropped, if_pos hstripped])]
            · rw [List.filter_cons_of_neg hstripped, ih,
                List.filterMap_cons_none (by rw [shrunk, if_neg hdropped, if_neg hstripped])]
          · -- only the marker is neither a `timeout` line nor another line
            have hline' : line = markerLine := by simpa [isOtherLine, hline] using hother
            rw [List.filter_cons_of_neg hother, hline', List.filter_cons_of_neg (by simp [hmarker]), ih]
  have hkept : ((keptLines timeout manage read).map stripCr).filter isOtherLine =
      (read.filter isOtherLine).filterMap (shrunk manage) := by
    unfold keptLines
    dsimp only
    split_ifs
    · exact hloop
    · rw [List.map_append, List.filter_append, hloop, List.map_singleton,
        List.filter_cons_of_neg (by simp [htimeout]), List.filter_nil, List.append_nil]
  rcases setLines_eq timeout manage read with hsame | ⟨-, hadded⟩
  · rw [hsame, hkept]
  · rw [hadded, List.map_cons, List.filter_cons_of_neg (by simp [hmarker]), hkept]

/-- A line of the owner stays if it has no carriage return at its end, and is not taken for the marker. -/
theorem shrunk_eq_some_iff (h : isOtherLine line = true) :
    shrunk manage line = some line ↔
      line.getLast? ≠ some '\r' ∧ (manage = false → isLoaderComment line = false) := by
  rw [← stripCr_eq_self_iff]
  unfold shrunk
  split_ifs with hdropped hstripped
  · refine iff_of_false (fun h => by cases h) ?_
    rw [Bool.and_eq_true, Bool.not_eq_true'] at hdropped
    rintro ⟨-, hcomment⟩
    rw [hcomment hdropped.1] at hdropped
    cases hdropped.2
  · have hcomment : manage = false → isLoaderComment line = false := by
      rintro rfl
      simpa using hdropped
    rw [Option.some_inj]
    exact ⟨fun hsame => ⟨hsame, hcomment⟩, fun hsame => hsame.1⟩
  · refine iff_of_false (fun h => by cases h) ?_
    rintro ⟨hsame, -⟩
    rw [hsame] at hstripped
    exact hstripped h

/-- When the lines of the owner survive that a text is rewritten. -/
theorem others_setLines_iff (hrange : 0 ≤ timeout ∧ timeout ≤ 10) (manage : Bool) (text : List Char) :
    others (some (encode (joined (setLines timeout manage (lines text))))) = others (some (encode text)) ↔
      ∀ line ∈ lines text, isOtherLine line = true →
        line.getLast? ≠ some '\r' ∧ (manage = false → isLoaderComment line = false) := by
  rw [others_encode, others_encode, encode_injective.list_map.eq_iff,
    lines_joined_setLines hrange manage fun line => newline_not_mem, filter_setLines hrange,
    filterMap_eq_self_iff]
  constructor
  · intro h line hline hother
    exact (shrunk_eq_some_iff hother).1 (h line (List.mem_filter.2 ⟨hline, hother⟩))
  · intro h line hline
    obtain ⟨hmem, hother⟩ := List.mem_filter.1 hline
    exact (shrunk_eq_some_iff hother).2 (h line hmem hother)

/-! ### The marker -/

/-- What gives up the fast path leaves no marker behind. -/
theorem markerLine_not_mem_given_up (text : List Char) :
    ¬ CarriesMarker (some (encode (joined (setLines 2 false (lines text))))) := by
  rw [carriesMarker_encode, lines_joined_setLines (by decide) false fun line => newline_not_mem]
  intro hmem
  obtain ⟨line, hline, hstripped⟩ := List.mem_map.1 hmem
  have hwritten := isWritten_timeoutLine (show (0 : ℤ) ≤ 2 ∧ (2 : ℤ) ≤ 10 by decide)
  rcases mem_setLines hline with ⟨hmanage, -⟩ | rfl | ⟨-, -, hmanage | hcomment⟩
  · cases hmanage
  · rw [hwritten.stripCr] at hstripped
    have htimeout := hwritten.isTimeoutLine
    rw [hstripped, markerLine_facts.2.2.1] at htimeout
    cases htimeout
  · cases hmanage
  · have hcomment' : isLoaderComment line = true := by
      rcases stripCr_eq line with hsame | hcut
      · rw [← hsame, hstripped]
        exact markerLine_facts.2.2.2.1
      · rw [hcut, hstripped]
        decide
    rw [hcomment] at hcomment'
    cases hcomment'

/-- A text without a marker is left as it is exactly if it is one that was reset. -/
theorem joined_setLines_eq_iff (hmarker : markerLine ∉ lines text)
    (hcomments : ∀ line ∈ lines text, isOtherLine line = true → isLoaderComment line = false) :
    joined (setLines 2 false (lines text)) = text ↔ IsReset text := by
  have hwritten := isWritten_timeoutLine (show (0 : ℤ) ≤ 2 ∧ (2 : ℤ) ≤ 10 by decide)
  -- without a comment to drop, the loop only rewrites the `timeout` lines
  have hloop : (lines text).filterMap (keptLine 2 false) =
      (lines text).map fun line => if isTimeoutLine line then timeoutLine 2 else line := by
    rw [← List.filterMap_eq_map]
    refine List.filterMap_congr fun line hline => ?_
    by_cases htimeout : isTimeoutLine line = true
    · rw [keptLine, if_pos htimeout, Function.comp_apply, if_pos htimeout]
    · have hother : isOtherLine line = true := by
        have hne : line ≠ markerLine := fun h => hmarker (h ▸ hline)
        simp [isOtherLine, htimeout, hne]
      rw [keptLine, if_neg htimeout, hcomments line hline hother, Function.comp_apply, if_neg htimeout]
      rfl
  have hmap (hsame : ∀ line ∈ lines text, isTimeoutLine line = true → line = timeoutLine 2) :
      (lines text).map (fun line => if isTimeoutLine line then timeoutLine 2 else line) = lines text := by
    rw [← List.map_id (lines text), List.map_map]
    refine List.map_congr_left fun line hline => ?_
    rw [Function.comp_apply, id_eq]
    split_ifs with htimeout
    · exact (hsame line hline htimeout).symm
    · rfl
  rw [setLines_false, keptLines, hloop]
  constructor
  · intro hjoined
    have hread := lines_joined_setLines (show (0 : ℤ) ≤ 2 ∧ (2 : ℤ) ≤ 10 by decide) false fun line (h : line ∈ lines text) =>
      newline_not_mem h
    rw [setLines_false, keptLines, hloop] at hread
    rw [hjoined] at hread
    by_cases hfound : (lines text).any isTimeoutLine = true
    · rw [if_pos hfound] at hjoined hread
      rw [List.map_map] at hread
      nth_rewrite 1 [← List.map_id (lines text)] at hread
      rw [List.map_inj_left] at hread
      have hsame : ∀ line ∈ lines text, isTimeoutLine line = true → line = timeoutLine 2 := by
        intro line hline htimeout
        have hstripped := hread line hline
        rw [Function.comp_apply, if_pos htimeout, hwritten.stripCr] at hstripped
        exact hstripped
      refine ⟨?_, hsame, by simpa using hfound⟩
      rw [hmap hsame] at hjoined
      exact hjoined.symm
    · rw [if_neg hfound] at hread
      have hlength := congrArg List.length hread
      simp at hlength
  · intro hreset
    obtain ⟨line, hline, htimeout⟩ := hreset.some
    rw [if_pos (List.any_eq_true.2 ⟨line, hline, htimeout⟩)]
    rw [hmap hreset.timeouts]
    exact hreset.joined.symm

/-! ### Calls -/

/-- What a call does to a file. -/
theorem after_cases (call : Call) (file : Option (List UInt8)) :
    call.after file = file ∧ (call.write.stores = false ∨ call.config.fast = false ∧
        (file.bind decode).any mentionsKyth = false) ∨
      call.write.stores = true ∧ call.config.fast = true ∧ call.after file = some (encode (joined
        (setLines (clamp call.config.timeout 0 10) true (((file.bind decode).map lines).getD [])))) ∨
      call.write.stores = true ∧ call.config.fast = false ∧ (file.bind decode).any mentionsKyth = true ∧
        call.after file = some (encode (joined
          (setLines 2 false (((file.bind decode).map lines).getD [])))) := by
  unfold Call.after generateLoaderConf setTimeoutLine atomicWriteText
  cases hfast : call.config.fast with
  | true =>
    cases hstores : call.write.stores with
    | true => exact .inr (.inl ⟨rfl, rfl, rfl⟩)
    | false => exact .inl ⟨rfl, .inl rfl⟩
  | false =>
    cases hmention : (file.bind decode).any mentionsKyth with
    | false => exact .inl ⟨rfl, .inr ⟨rfl, rfl⟩⟩
    | true =>
      cases hstores : call.write.stores with
      | true => exact .inr (.inr ⟨rfl, rfl, rfl, rfl⟩)
      | false => exact .inl ⟨rfl, .inl rfl⟩

/-- A file that is read is the bytes of its text. -/
theorem eq_encode_of_bind (h : file.bind decode = some text) : file = some (encode text) := by
  obtain ⟨bytes, rfl, hbytes⟩ := Option.bind_eq_some_iff.1 h
  rw [decode_eq_some.1 hbytes]

/-- Of a file that is no text, nothing is left. -/
theorem others_anew (hrange : 0 ≤ timeout ∧ timeout ≤ 10) :
    others (some (encode (joined (setLines timeout true [])))) = [] := by
  rw [others_encode, lines_joined_setLines hrange true (List.forall_mem_nil _), filter_setLines hrange]
  rfl

/-- A call does no harm exactly if it keeps the lines of the owner, and touches no file without a marker
when the fast path is not wanted. -/
theorem meets_iff (call : Call) (file : Option (List UInt8)) :
    Meets call file ↔ others (call.after file) = others file ∧
      (call.config.fast = false → ¬ CarriesMarker file → call.after file = file) := by
  unfold Meets
  rcases after_cases call file with ⟨hsame, hidle⟩ | ⟨hstores, hfast, hafter⟩ |
    ⟨hstores, hfast, hmention, hafter⟩
  · refine iff_of_true (fun hstores => ?_) ⟨by rw [hsame], fun _ _ => hsame⟩
    rcases hidle with hfailed | ⟨hfast, hmention⟩
    · rw [hfailed] at hstores
      cases hstores
    · rw [hfast]
      cases htext : file.bind decode with
      | none =>
        intro h
        cases h
      | some text =>
        rw [htext, Option.any_some] at hmention
        rintro (h | h)
        · cases h
        · rw [hmention] at h
          cases h
  · have hrange := clamp_range call.config.timeout
    rw [hafter, hstores, hfast]
    cases htext : file.bind decode with
    | none =>
      have hanew := others_anew hrange
      simp only [Option.map_none, Option.getD_none, hanew, true_implies, @eq_comm _ [],
        Bool.true_eq_false, false_implies, and_true]
    | some text =>
      rw [eq_encode_of_bind htext, Option.map_some, Option.getD_some, others_setLines_iff hrange]
      constructor
      · intro h
        have hmeets := h rfl (.inl rfl)
        exact ⟨fun line hline hother => ⟨hmeets.ends line hline hother, fun hmanage => Bool.noConfusion hmanage⟩,
          fun hidle => Bool.noConfusion hidle⟩
      · intro h _ _
        exact ⟨fun line hline hother => (h.1 line hline hother).1, fun hidle => Bool.noConfusion hidle,
          fun hidle => Bool.noConfusion hidle⟩
  · obtain ⟨text, htext, hmention⟩ := (Option.any_eq_true _ _).1 hmention
    rw [hafter, hstores, hfast, htext, eq_encode_of_bind htext, Option.map_some, Option.getD_some,
      others_setLines_iff (by decide), carriesMarker_encode, Option.some_inj, encode_injective.eq_iff]
    constructor
    · intro h
      have hmeets := h rfl (.inr hmention)
      refine ⟨fun line hline hother =>
        ⟨hmeets.ends line hline hother, fun _ => hmeets.comments rfl line hline hother⟩, fun _ hmarker => ?_⟩
      exact (joined_setLines_eq_iff hmarker (hmeets.comments rfl)).2
        ((hmeets.marked rfl).resolve_left hmarker)
    · rintro ⟨hothers, hleft⟩ - -
      have hcomments : ∀ line ∈ lines text, isOtherLine line = true → isLoaderComment line = false :=
        fun line hline hother => (hothers line hline hother).2 rfl
      refine ⟨fun line hline hother => (hothers line hline hother).1, fun _ => hcomments, fun _ => ?_⟩
      by_cases hmarker : markerLine ∈ lines text
      · exact .inl hmarker
      · exact .inr ((joined_setLines_eq_iff hmarker hcomments).1 (hleft rfl hmarker))

/-- Once the fast path is given up there is no marker. -/
theorem not_carriesMarker_of_given_up {fast slow : Call} (hfast : fast.config.fast = true)
    (hstored : fast.write.stores = true) (hslow : slow.config.fast = false)
    (hstored' : slow.write.stores = true) (file : Option (List UInt8)) :
    ¬ CarriesMarker (slow.after (fast.after file)) := by
  have hmanaged : ∃ text, fast.after file = some (encode text) ∧ mentionsKyth text = true := by
    rcases after_cases fast file with ⟨-, hfailed | ⟨hidle, -⟩⟩ | ⟨-, -, hafter⟩ | ⟨-, hidle, -, -⟩
    · rw [hstored] at hfailed
      cases hfailed
    · rw [hfast] at hidle
      cases hidle
    · exact ⟨_, hafter, mentionsKyth_joined _ _⟩
    · rw [hfast] at hidle
      cases hidle
  obtain ⟨text, htext, hmention⟩ := hmanaged
  have hread : (fast.after file).bind decode = some text := by
    rw [htext, Option.bind_some, decode_encode]
  rcases after_cases slow (fast.after file) with ⟨-, hfailed | ⟨-, hidle⟩⟩ | ⟨-, hwanted, -⟩ |
    ⟨-, -, -, hafter⟩
  · rw [hstored'] at hfailed
    cases hfailed
  · rw [hread, Option.any_some, hmention] at hidle
    cases hidle
  · rw [hslow] at hwanted
    cases hwanted
  · rw [hafter, hread]
    exact markerLine_not_mem_given_up text

/-! ### Sequences of calls -/

/-- Calls that do not want the fast path leave a file without a marker alone. -/
theorem run_eq_self (hmore : ∀ call ∈ calls, call.config.fast = false) (hmarker : ¬ CarriesMarker file)
    (hleaves : ∀ before call after, calls = before ++ call :: after → run file before = file →
      call.config.fast = false → ¬ CarriesMarker file → call.after file = file) :
    run file calls = file := by
  induction calls with
  | nil => rfl
  | cons call calls ih =>
    have hcall := hleaves [] call calls rfl rfl (hmore call List.mem_cons_self) hmarker
    rw [run_cons, hcall]
    refine ih (fun other hother => hmore other (List.mem_cons_of_mem _ hother)) ?_
    intro before other after hcalls hbefore
    refine hleaves (call :: before) other after (by rw [hcalls, List.cons_append]) ?_
    rw [run_cons, hcall, hbefore]

/-- A sequence of calls keeps to what it should exactly if no call of it does harm. -/
theorem lawful_iff (file : Option (List UInt8)) (calls : List Call) :
    Lawful file calls ↔
      ∀ before call after, calls = before ++ call :: after → Meets call (run file before) := by
  constructor
  · intro h before call after hcalls
    exact (meets_iff _ _).2 ⟨h.keeps before call after hcalls, h.leaves before call after hcalls⟩
  · intro h
    have hleaves : ∀ before call after, calls = before ++ call :: after → call.config.fast = false →
        ¬ CarriesMarker (run file before) → call.after (run file before) = run file before :=
      fun before call after hcalls => ((meets_iff _ _).1 (h before call after hcalls)).2
    refine ⟨fun before call after hcalls => ((meets_iff _ _).1 (h before call after hcalls)).1, hleaves, ?_⟩
    intro before fast slow more after hcalls hfast hstored hslow hstored' hmore
    have hmarker := not_carriesMarker_of_given_up hfast hstored hslow hstored' (run file before)
    have hrun : run file (before ++ [fast, slow]) = slow.after (fast.after (run file before)) := by
      rw [run_append, run_cons, run_cons, run_nil]
    rw [run_append, run_cons, run_cons, hrun]
    refine run_eq_self hmore hmarker fun front call rest hfront hsame hidle hfree => ?_
    have hat : calls = (before ++ fast :: slow :: front) ++ call :: (rest ++ after) := by
      rw [hcalls, hfront]
      simp
    have hreached : run file (before ++ fast :: slow :: front) = slow.after (fast.after (run file before)) := by
      rw [run_append, run_cons, run_cons, hsame]
    have hleft := hleaves _ call _ hat hidle
    rw [hreached] at hleft
    exact hleft hfree

/-- A file that the tool never wrote, with an entry whose name has `Kyth` in it. -/
def ownedConf : List Char := "default Kyth.conf\ntimeout 5\n".toList

/-- The fast path is not wanted. -/
def balanced : Call := ⟨⟨false, 2⟩, "/boot/loader/loader.conf".toList, .done⟩

/-- The owner's `timeout` is reset, though there is no marker. -/
theorem balanced_resets_owned_conf :
    balanced.after (some (encode ownedConf)) = some (encode "default Kyth.conf\ntimeout 2\n".toList) ∧
      ¬ Lawful (some (encode ownedConf)) [balanced] := by
  have hmention : mentionsKyth ownedConf = true := by decide
  have hlines : joined (setLines 2 false (lines ownedConf)) = "default Kyth.conf\ntimeout 2\n".toList := by
    decide
  have hafter : balanced.after (some (encode ownedConf)) =
      some (encode "default Kyth.conf\ntimeout 2\n".toList) := by
    rcases after_cases balanced (some (encode ownedConf)) with ⟨-, hfailed | ⟨-, hidle⟩⟩ |
      ⟨-, hwanted, -⟩ | ⟨-, -, -, hafter⟩
    · cases hfailed
    · rw [Option.bind_some, decode_encode, Option.any_some, hmention] at hidle
      cases hidle
    · cases hwanted
    · rw [hafter, Option.bind_some, decode_encode, Option.map_some, Option.getD_some, hlines]
  refine ⟨hafter, fun h => ?_⟩
  have hmarker : markerLine ∉ lines ownedConf := by decide
  have hleft := h.leaves [] balanced [] rfl rfl (by rwa [run_nil, carriesMarker_encode])
  rw [run_nil, hafter, Option.some_inj, encode_injective.eq_iff] at hleft
  exact absurd hleft (by decide)

end Kyth.BootLoader

import Kyth.Installer.Stream

/-!
# How long a log line can get (`take_lines`)

An unterminated line is cut as soon as it is over the limit, and the cut piece is marked. A terminated line
is emitted as it is, however much of it came with the last chunk.

* `takeLinesLoop_pending`: what is retained never exceeds the limit;
* `takeLinesLoop_short`: which log entries exceed the limit and the mark;
* `bounded_iff`: a run keeps to the bounds exactly when no chunk terminates a line that is too long.
-/

namespace Kyth.Stream

open Str Utf8

/-- A log line of at most the limit and the mark of a cut line. -/
def Short (line : String) : Prop :=
  byteLength line.toList ≤ maxStreamLineBytes + byteLength truncatedLineMark

/-- All log lines among some events are short. -/
def AllShort (events : List StreamEvent) : Prop := ∀ line, .log line ∈ events → Short line

namespace StreamingCommandModel

/-- Every log line of a run is short, and what is retained after a feed is within the limit. -/
def Bounded : StreamingCommandModel → List (List UInt8 × ℕ) → Prop
  | m, [] => AllShort m.finishOutput.2
  | m, (bytes, now) :: chunks =>
      AllShort (m.feed bytes now).2 ∧
        byteLength (m.feed bytes now).1.pending ≤ maxStreamLineBytes ∧
        (m.feed bytes now).1.Bounded chunks

/-- No chunk of a run terminates a line that, together with what was retained of it and without the white
space around it, is not short. -/
def CompletesShort : StreamingCommandModel → List (List UInt8 × ℕ) → Prop
  | _, [] => True
  | m, (bytes, now) :: chunks =>
      (∀ line ∈ completeLines (m.decode bytes false).pending, Short (trim (String.ofList line))) ∧
        (m.feed bytes now).1.CompletesShort chunks

end StreamingCommandModel

/-! ### Lengths -/

theorem byteLength_append (text more : List Char) :
    byteLength (text ++ more) = byteLength text + byteLength more := by
  simp [byteLength]

theorem byteLength_sublist {text text' : List Char} (h : text.Sublist text') :
    byteLength text ≤ byteLength text' :=
  (h.map Char.utf8Size).sum_le_sum fun _ _ => Nat.zero_le _

/-- Trimming makes no text longer. -/
theorem byteLength_trim (text : List Char) :
    byteLength (trim (String.ofList text)).toList ≤ byteLength text := by
  unfold trim
  rw [String.toList_ofList, String.toList_ofList]
  refine byteLength_sublist ?_
  refine List.Sublist.trans ?_ (List.dropWhile_sublist isWhitespace)
  exact List.reverse_sublist.1 (by rw [List.reverse_reverse]; exact List.dropWhile_sublist _)

theorem byteLength_boundedPrefix (limit : ℕ) (text : List Char) :
    byteLength (boundedPrefix limit text) ≤ limit := by
  induction text generalizing limit with
  | nil => exact Nat.zero_le _
  | cons c text ih =>
    rw [boundedPrefix]
    split_ifs with hfits
    · have hrest := ih (limit - c.utf8Size)
      simp only [byteLength, List.map_cons, List.sum_cons] at hrest ⊢
      omega
    · exact Nat.zero_le _

/-- A cut line is short. -/
theorem short_cut (text : List Char) :
    Short (trim (String.ofList (boundedPrefix maxStreamLineBytes text ++ truncatedLineMark))) := by
  refine (byteLength_trim _).trans ?_
  rw [byteLength_append]
  exact Nat.add_le_add_right (byteLength_boundedPrefix _ _) _

theorem short_of_le {text : List Char} (h : byteLength text ≤ maxStreamLineBytes) :
    Short (trim (String.ofList text)) :=
  (byteLength_trim text).trans (h.trans (Nat.le_add_right _ _))

/-! ### The first line of a text -/

theorem of_span_break {pending line rest : List Char} {c : Char}
    (h : pending.span (fun c => !isBreak c) = (line, c :: rest)) :
    pending = line ++ c :: rest ∧ (∀ d ∈ line, isBreak d = false) ∧ isBreak c = true := by
  rcases free_or_first_break pending with hfree | ⟨line', sep, rest', rfl, hfree, hsep⟩
  · rw [span_of_free hfree] at h
    cases h
  · rw [span_of_break hfree hsep] at h
    cases h
    exact ⟨rfl, hfree, hsep⟩

theorem of_span_free {pending line : List Char}
    (h : pending.span (fun c => !isBreak c) = (line, [])) : ∀ c ∈ pending, isBreak c = false := by
  rcases free_or_first_break pending with hfree | ⟨line', sep, rest', rfl, hfree, hsep⟩
  · exact hfree
  · rw [span_of_break hfree hsep] at h
    cases h

/-! ### The loop -/

/-- What the loop retains has no terminator in it and is within the limit. -/
theorem takeLinesLoop_pending (m : StreamingCommandModel) (events : List StreamEvent)
    (pending : List Char) :
    (∀ c ∈ (m.takeLinesLoop events pending).1.pending, isBreak c = false) ∧
      byteLength (m.takeLinesLoop events pending).1.pending ≤ maxStreamLineBytes ∧
      (m.takeLinesLoop events pending).1.pendingUtf8 = m.pendingUtf8 := by
  fun_induction StreamingCommandModel.takeLinesLoop m events pending with
  | case1 m events pending line c rest hspan _ ih =>
    exact ⟨ih.1, ih.2.1, ih.2.2.trans (emitLine_frame m events line).2⟩
  | case2 m events pending line hspan hlong _ emitted ih =>
    have hframe : ∀ e : StreamingCommandModel × List StreamEvent, e = m.emitLine events
        (boundedPrefix maxStreamLineBytes pending ++ truncatedLineMark) →
          e.1.pendingUtf8 = m.pendingUtf8 := by
      intro e he
      rw [he]
      exact (emitLine_frame m events _).2
    exact ⟨ih.1, ih.2.1, ih.2.2.trans (hframe emitted rfl)⟩
  | case3 m events pending line hspan hlong => exact ⟨of_span_free hspan, not_lt.1 hlong, rfl⟩

/-- The last line that was logged is short. -/
def LastShort (m : StreamingCommandModel) : Prop := ∀ line, m.lastLine = some line → Short line

/-- A line that is emitted: a repetition of the last line is not logged again, so the last line counts. -/
theorem emitLine_short {m : StreamingCommandModel} {events : List StreamEvent}
    (hlast : AllShort events → LastShort m) (line : List Char) :
    (AllShort (m.emitLine events line).2 ↔ AllShort events ∧ Short (trim (String.ofList line))) ∧
      (AllShort (m.emitLine events line).2 → LastShort (m.emitLine events line).1) := by
  unfold StreamingCommandModel.emitLine
  dsimp only
  by_cases hskip : trim (String.ofList line) = "" ∨ m.lastLine = some (trim (String.ofList line))
  · rw [if_pos hskip]
    refine ⟨⟨fun hall => ⟨hall, ?_⟩, And.left⟩, hlast⟩
    rcases hskip with hempty | hsame
    · rw [hempty]
      exact Nat.zero_le _
    · exact hlast hall _ hsame
  · rw [if_neg hskip]
    have hmem : ∀ other, StreamEvent.log other ∈ events ++ [.log (trim (String.ofList line))] ↔
        .log other ∈ events ∨ other = trim (String.ofList line) := fun other => by simp
    constructor
    · constructor
      · exact fun hall => ⟨fun other hother => hall other ((hmem other).2 (.inl hother)),
          hall _ ((hmem _).2 (.inr rfl))⟩
      · rintro ⟨hall, hline⟩ other hother
        rcases (hmem other).1 hother with hold | rfl
        · exact hall other hold
        · exact hline
    · rintro hall other hother
      rw [← Option.some.inj hother]
      exact hall _ ((hmem _).2 (.inr rfl))

/-- The loop logs a long line exactly when it meets a long terminated one: what it cuts is short. -/
theorem takeLinesLoop_short (m : StreamingCommandModel) (events : List StreamEvent)
    (pending : List Char) (hlast : AllShort events → LastShort m) :
    (AllShort (m.takeLinesLoop events pending).2 ↔
      AllShort events ∧ ∀ line ∈ completeLines pending, Short (trim (String.ofList line))) ∧
      (AllShort (m.takeLinesLoop events pending).2 →
        LastShort (m.takeLinesLoop events pending).1) := by
  fun_induction StreamingCommandModel.takeLinesLoop m events pending with
  | case1 m events pending line c rest hspan _ ih =>
    obtain ⟨rfl, hfree, hsep⟩ := of_span_break hspan
    obtain ⟨hemitted, hlast'⟩ := emitLine_short hlast line
    obtain ⟨hloop, hend⟩ := ih hlast'
    refine ⟨?_, hend⟩
    rw [hloop, hemitted, (textLines_of_break rest hfree hsep).2.1, List.forall_mem_cons, and_assoc]
  | case2 m events pending line hspan hlong _ emitted ih =>
    obtain ⟨hemitted, hlast'⟩ := emitLine_short hlast
      (boundedPrefix maxStreamLineBytes pending ++ truncatedLineMark)
    obtain ⟨hloop, hend⟩ := ih hlast'
    have hfree := of_span_free hspan
    have hrest : ∀ c ∈ pending.drop (boundedPrefix maxStreamLineBytes pending).length,
        isBreak c = false := fun c hc => hfree c (List.mem_of_mem_drop hc)
    refine ⟨?_, hend⟩
    rw [hloop, hemitted, (textLines_of_free hrest).1, (textLines_of_free hfree).1,
      and_iff_left (short_cut pending)]
  | case3 m events pending line hspan hlong =>
    refine ⟨?_, hlast⟩
    rw [(textLines_of_free (of_span_free hspan)).1]
    exact (and_iff_left (fun line hline => nomatch hline)).symm

/-! ### Runs -/

/-- Between two feeds: no terminator waits, and the bytes that wait begin one character. -/
structure Waiting (m : StreamingCommandModel) : Prop where
  free : ∀ c ∈ m.pending, isBreak c = false
  limit : byteLength m.pending ≤ maxStreamLineBytes
  utf8 : m.pendingUtf8 = [] ∨ scan m.pendingUtf8 = .incomplete

theorem waiting_new (started : ℕ) : Waiting (.new started) where
  free := fun _ hc => nomatch hc
  limit := Nat.zero_le _
  utf8 := .inl rfl

theorem feed_eq (m : StreamingCommandModel) (bytes : List UInt8) (now : ℕ) :
    m.feed bytes now = StreamingCommandModel.takeLinesLoop
      ({ m with lastActivity := now }.decode bytes false) [] (m.decode bytes false).pending := by
  unfold StreamingCommandModel.feed StreamingCommandModel.takeLines
  rfl

theorem feed_waiting (m : StreamingCommandModel) (bytes : List UInt8) (now : ℕ) :
    Waiting (m.feed bytes now).1 := by
  rw [feed_eq]
  obtain ⟨hfree, hlimit, hutf8⟩ := takeLinesLoop_pending
    ({ m with lastActivity := now }.decode bytes false) [] (m.decode bytes false).pending
  refine ⟨hfree, hlimit, ?_⟩
  rw [hutf8, StreamingCommandModel.decode, decodeLoop_eq]
  exact lossyPrefix_kept _

theorem feed_short {m : StreamingCommandModel} (hlast : LastShort m) (bytes : List UInt8) (now : ℕ) :
    (AllShort (m.feed bytes now).2 ↔
      ∀ line ∈ completeLines (m.decode bytes false).pending, Short (trim (String.ofList line))) ∧
      (AllShort (m.feed bytes now).2 → LastShort (m.feed bytes now).1) := by
  rw [feed_eq]
  obtain ⟨hloop, hend⟩ := takeLinesLoop_short
    ({ m with lastActivity := now }.decode bytes false) [] (m.decode bytes false).pending
    fun _ => hlast
  exact ⟨hloop.trans (and_iff_right fun _ hnone => nomatch hnone), hend⟩

/-- The end of the output terminates nothing that was not within the limit, but for one replacement of an
unfinished character. -/
theorem finishOutput_short {m : StreamingCommandModel} (h : Waiting m) (hlast : LastShort m) :
    AllShort m.finishOutput.2 := by
  have hkept : ∀ c ∈ fromUtf8Lossy m.pendingUtf8, isBreak c = false := by
    rcases h.utf8 with hnil | hincomplete
    · rw [hnil, fromUtf8Lossy_of_done rfl]
      exact fun c hc => absurd hc List.not_mem_nil
    · rw [fromUtf8Lossy_of_incomplete hincomplete]
      intro c hc
      rw [List.mem_singleton.1 hc]
      decide
  have hdecoded : (m.decode [] true).pending = m.pending ++ fromUtf8Lossy m.pendingUtf8 := by
    simp only [StreamingCommandModel.decode, decodeLoop_eq, List.append_nil, if_true]
  have hfree : ∀ c ∈ (m.decode [] true).pending, isBreak c = false := by
    rw [hdecoded]
    exact List.forall_mem_append.2 ⟨h.free, hkept⟩
  obtain ⟨hloop, hend⟩ := takeLinesLoop_short (m.decode [] true) [] (m.decode [] true).pending
    fun _ => hlast
  obtain ⟨-, hlimit, -⟩ := takeLinesLoop_pending (m.decode [] true) [] (m.decode [] true).pending
  rw [(textLines_of_free hfree).1] at hloop
  have hshort := hloop.2 ⟨fun _ hnone => absurd hnone List.not_mem_nil,
    fun _ hnone => absurd hnone List.not_mem_nil⟩
  unfold StreamingCommandModel.finishOutput StreamingCommandModel.takeLines
  dsimp only
  generalize StreamingCommandModel.takeLinesLoop (m.decode [] true) [] (m.decode [] true).pending =
    taken at hshort hend hlimit ⊢
  have hlast' : AllShort taken.2 → LastShort { taken.1 with pending := [] } := hend
  split_ifs with hrest
  · exact (emitLine_short hlast' _).1.2 ⟨hshort, short_of_le hlimit⟩
  · exact hshort

/-- A run from any state that waits for more. -/
theorem bounded_iff_of_waiting {m : StreamingCommandModel} (h : Waiting m) (hlast : LastShort m)
    (chunks : List (List UInt8 × ℕ)) : m.Bounded chunks ↔ m.CompletesShort chunks := by
  induction chunks generalizing m with
  | nil => exact iff_of_true (finishOutput_short h hlast) trivial
  | cons chunk chunks ih =>
    obtain ⟨bytes, now⟩ := chunk
    obtain ⟨hfeed, hlast'⟩ := feed_short hlast bytes now
    have hwaiting := feed_waiting m bytes now
    unfold StreamingCommandModel.Bounded StreamingCommandModel.CompletesShort
    rw [← hfeed, and_iff_right hwaiting.limit]
    exact and_congr_right fun hall => ih hwaiting (hlast' hall)

/-- Every sequence of chunks: all log lines are short and what is retained is within the limit, exactly when
no chunk terminates a line that is not short. -/
theorem bounded_iff (started : ℕ) (chunks : List (List UInt8 × ℕ)) :
    (StreamingCommandModel.new started).Bounded chunks ↔
      (StreamingCommandModel.new started).CompletesShort chunks :=
  bounded_iff_of_waiting (waiting_new started) (fun _ hnone => nomatch hnone) chunks

/-! ### A line that comes in two chunks -/

theorem lossyPrefix_letters (n : ℕ) (more : List UInt8) :
    lossyPrefix (List.replicate n 97 ++ more) =
      (List.replicate n 'a' ++ (lossyPrefix more).1, (lossyPrefix more).2) := by
  induction n with
  | zero => rfl
  | succ n ih =>
    have hscan : scan (97 :: (List.replicate n 97 ++ more)) =
        .char 'a' (List.replicate n 97 ++ more) := rfl
    rw [List.replicate_succ, List.cons_append, lossyPrefix_of_char hscan, ih]
    rfl

theorem byteLength_letters (n : ℕ) : byteLength (List.replicate n 'a') = n := by
  have hone : Char.utf8Size 'a' = 1 := by decide
  rw [byteLength, List.map_replicate, List.sum_replicate, hone, smul_eq_mul, mul_one]

theorem letters_free (n : ℕ) : ∀ c ∈ List.replicate n 'a', isBreak c = false := by
  intro c hc
  rw [List.eq_of_mem_replicate hc]
  decide

theorem short_letters_iff (n : ℕ) :
    Short (trim (String.ofList (List.replicate n 'a'))) ↔
      n ≤ maxStreamLineBytes + byteLength truncatedLineMark := by
  have hplain : ∀ c ∈ (String.ofList (List.replicate n 'a')).toList, isWhitespace c = false := by
    intro c hc
    rw [String.toList_ofList] at hc
    rw [List.eq_of_mem_replicate hc]
    decide
  rw [trim_eq_self hplain, Short, String.toList_ofList, byteLength_letters]

/-- A chunk as large as the limit is retained, and the next one terminates the line with twelve bytes more:
the line is logged whole, one byte over the limit and the mark. -/
theorem second_chunk_over_limit :
    ¬ (StreamingCommandModel.new 0).Bounded
      [(List.replicate maxStreamLineBytes 97, 0), (List.replicate 12 97 ++ [10], 0)] := by
  rw [bounded_iff]
  intro hcompletes
  have htext : (lossyPrefix (List.replicate maxStreamLineBytes 97)).1 =
      List.replicate maxStreamLineBytes 'a' ∧
      (lossyPrefix (List.replicate maxStreamLineBytes 97)).2 = [] := by
    have hletters := lossyPrefix_letters maxStreamLineBytes []
    have hnil : lossyPrefix [] = ([], []) := lossyPrefix_of_done rfl
    rw [hnil, List.append_nil, List.append_nil] at hletters
    rw [hletters]
    exact ⟨rfl, rfl⟩
  have hopen : byteLength (openLine (lossyPrefix ([] ++ List.replicate maxStreamLineBytes 97)).1) ≤
      maxStreamLineBytes := by
    rw [List.nil_append, htext.1, (textLines_of_free (letters_free _)).2, byteLength_letters]
  obtain ⟨hreads, -⟩ := feed_reads 0 (reads_new 0) hopen
  have hutf8 := hreads.utf8
  have hpending := hreads.pending
  rw [List.nil_append, htext.2] at hutf8
  rw [List.nil_append, htext.1, (textLines_of_free (letters_free _)).2] at hpending
  have hsecond := hcompletes.2.1
  generalize (StreamingCommandModel.new 0).feed (List.replicate maxStreamLineBytes 97) 0 = fed
    at hutf8 hpending hsecond
  have hnewline : lossyPrefix [10] = (['\n'], []) := by
    have hscan : scan [10] = .char '\n' [] := rfl
    rw [lossyPrefix_of_char hscan, lossyPrefix_of_done rfl]
  have hdecoded : (fed.1.decode (List.replicate 12 97 ++ [10]) false).pending =
      List.replicate (maxStreamLineBytes + 12) 'a' ++ '\n' :: [] := by
    simp only [StreamingCommandModel.decode, decodeLoop_eq, Bool.false_eq_true, if_false, hutf8,
      hpending, List.nil_append, lossyPrefix_letters, hnewline]
    rw [← List.append_assoc, List.replicate_append_replicate]
  rw [hdecoded, (textLines_of_break [] (letters_free _) rfl).2.1] at hsecond
  have hshort := (short_letters_iff _).1 (hsecond _ List.mem_cons_self)
  have hmark : byteLength truncatedLineMark = 11 := by decide
  omega

end Kyth.Stream

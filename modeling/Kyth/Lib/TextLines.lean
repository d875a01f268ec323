import Kyth.Lib.Rows

/-!
# The lines of a text

`str::lines` and `str::split_whitespace`, and what happens to the lines when text is added behind a last one
that may lack its newline. Text is a list of characters, and its pieces are what lies between the newlines.
-/

namespace Kyth.TextLines

open Rows Str

variable {text more line piece : List Char}

/-- A line that ends in a newline loses one carriage return in front of it. -/
def stripCr (line : List Char) : List Char :=
  if line.getLast? = some '\r' then line.dropLast else line

/-- `str::lines`. -/
def lines (text : List Char) : List (List Char) :=
  (text.splitOn '\n').dropLast.map stripCr ++ [(text.splitOn '\n').getLastD []].filter (· ≠ [])

/-- The text with a newline behind its last line. -/
def terminate (text : List Char) : List Char := closed '\n' text

/-- `str::split_whitespace`. -/
def words (text : List Char) : List (List Char) := (text.splitOnP isWhitespace).filter (· ≠ [])

@[simp] theorem lines_nil : lines [] = [] := rfl

/-- A line is its piece, or loses the carriage return at the end of it. -/
theorem stripCr_eq (line : List Char) : stripCr line = line ∨ line = stripCr line ++ ['\r'] := by
  unfold stripCr
  split_ifs with hcr
  · exact .inr (List.dropLast_append_getLast? _ hcr).symm
  · exact .inl rfl

theorem lines_append_newline (text more : List Char) :
    lines (text ++ '\n' :: more) = (text.splitOn '\n').map stripCr ++ lines more := by
  have hne : more.splitOn '\n' ≠ [] := List.splitOn_ne_nil _ _
  unfold lines
  rw [List.splitOn_append_cons_self, List.dropLast_append_of_ne_nil hne, List.map_append,
    List.append_assoc, List.getLastD_eq_getLast?, List.getLast?_append_of_ne_nil _ hne,
    ← List.getLastD_eq_getLast?]

/-- A line in front of a text. -/
theorem lines_line (h : '\n' ∉ line) (more : List Char) :
    lines (line ++ '\n' :: more) = stripCr line :: lines more := by
  rw [lines_append_newline, List.splitOn_eq_singleton h]
  rfl

/-- A text without a newline is a line. -/
theorem lines_last (hne : line ≠ []) (hfree : '\n' ∉ line) : lines line = [line] := by
  rw [lines, List.splitOn_eq_singleton hfree]
  simp [hne]

/-- Behind the last newline a new line begins. -/
theorem lines_terminate_append (text more : List Char) :
    lines (terminate text ++ more) = lines (terminate text) ++ lines more := by
  unfold terminate
  rcases closed_eq '\n' text with ⟨hnil, -⟩ | ⟨before, hbefore, -⟩
  · rw [hnil, List.nil_append, lines_nil, List.nil_append]
  · rw [hbefore, List.append_assoc, List.singleton_append, lines_append_newline, lines_append_newline,
      lines_nil, List.append_nil]

/-- The pieces of a text, its rows and its lines. -/
theorem lines_eq (text : List Char) : ∃ ended last, text.splitOn '\n' = ended ++ [last] ∧
    rows '\n' text = ended ++ [last].filter (· ≠ []) ∧
    lines text = ended.map stripCr ++ [last].filter (· ≠ []) ∧
    (last = [] → terminate text = text) := by
  obtain ⟨ended, last, hpieces, hrows, hclosed⟩ := splitOn_eq '\n' text
  refine ⟨ended, last, hpieces, hrows, ?_, hclosed⟩
  rw [lines, hpieces]
  simp

/-- What a line is made from. -/
theorem exists_piece_of_mem_lines (h : line ∈ lines text) :
    ∃ piece ∈ text.splitOn '\n', piece = line ∨ piece = line ++ ['\r'] := by
  obtain ⟨ended, last, hpieces, -, hlines, -⟩ := lines_eq text
  rw [hpieces]
  rw [hlines, List.mem_append] at h
  rcases h with hline | hline
  · obtain ⟨piece, hpiece, rfl⟩ := List.mem_map.1 hline
    exact ⟨piece, List.mem_append_left _ hpiece, (stripCr_eq piece).imp Eq.symm id⟩
  · rw [List.mem_singleton.1 (List.mem_of_mem_filter hline)]
    exact ⟨last, List.mem_append_right _ (List.mem_singleton_self _), .inl rfl⟩

/-- The lines of an ended text are those of the text, where the last one may lose a carriage return. -/
theorem of_mem_lines_terminate (h : line ∈ lines (terminate text)) :
    ∃ line' ∈ lines text, line = line' ∨ line = stripCr line' := by
  obtain ⟨ended, last, hpieces, -, hlines, hclosed⟩ := lines_eq text
  by_cases hlast : last = []
  · rw [hclosed hlast] at h
    exact ⟨line, h, .inl rfl⟩
  · unfold terminate at h
    rcases closed_eq '\n' text with ⟨hnil, -⟩ | ⟨before, hbefore, htext⟩
    · rw [hnil] at h
      exact nomatch h
    · rcases htext with rfl | rfl
      · rw [hbefore] at h
        exact ⟨line, h, .inl rfl⟩
      · rw [hbefore, lines_append_newline, lines_nil, List.append_nil, hpieces, List.map_append,
          List.mem_append] at h
        rcases h with h | h
        · exact ⟨line, hlines ▸ List.mem_append_left _ h, .inl rfl⟩
        · refine ⟨last, hlines ▸ List.mem_append_right _ ?_, .inr (List.mem_singleton.1 h)⟩
          simp [hlast]

theorem mem_lines_terminate (h : line ∈ lines text) :
    line ∈ lines (terminate text) ∨ stripCr line ∈ lines (terminate text) := by
  unfold terminate
  rcases closed_eq '\n' text with ⟨-, rfl⟩ | ⟨before, hbefore, rfl | rfl⟩
  · exact .inl h
  · rw [hbefore]
    exact .inl h
  · obtain ⟨ended, last, hpieces, -, hlines, -⟩ := lines_eq text
    rw [hbefore, lines_append_newline, lines_nil, List.append_nil, hpieces, List.map_append]
    rw [hlines, List.mem_append] at h
    rcases h with h | h
    · exact .inl (List.mem_append_left _ h)
    · right
      rw [List.mem_singleton.1 (List.mem_of_mem_filter h)]
      exact List.mem_append_right _ (List.mem_singleton_self _)

theorem newline_not_mem (h : line ∈ lines text) : '\n' ∉ line := by
  obtain ⟨piece, hpiece, hline⟩ := exists_piece_of_mem_lines h
  have hfree := PathText.not_mem_of_mem_splitOn hpiece
  rcases hline with rfl | rfl
  · exact hfree
  · exact fun hmem => hfree (List.mem_append_left _ hmem)

/-! ### Words -/

/-- White space at the end of a text makes no word. -/
theorem words_concat {c : Char} (h : isWhitespace c = true) (text : List Char) :
    words (text ++ [c]) = words text := by
  unfold words
  rw [List.splitOnP_append_cons _ _ h, List.splitOnP_nil, List.filter_append]
  simp

/-- The first word of a text. -/
theorem words_word {word : List Char} {c : Char} (hword : ∀ d ∈ word, isWhitespace d = false)
    (hne : word ≠ []) (hspace : isWhitespace c = true) (rest : List Char) :
    words (word ++ c :: rest) = word :: words rest := by
  unfold words
  rw [List.splitOnP_append_cons_of_forall_mem hword c hspace, List.filter_cons_of_pos (by simpa using hne)]

@[simp] theorem words_stripCr (line : List Char) : words (stripCr line) = words line := by
  rcases stripCr_eq line with hsame | hcut
  · rw [hsame]
  · conv_rhs => rw [hcut]
    exact (words_concat (by decide) _).symm

/-- The words are the same whether a text is read by its lines or by its rows. -/
theorem map_words_lines (text : List Char) :
    (lines text).map words = (rows '\n' text).map words := by
  obtain ⟨ended, last, -, hrows, hlines, -⟩ := lines_eq text
  rw [hrows, hlines, List.map_append, List.map_append, List.map_map]
  congr 1
  exact List.map_congr_left fun line _ => words_stripCr line

end Kyth.TextLines

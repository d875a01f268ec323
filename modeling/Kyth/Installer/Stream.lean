import Kyth.Lib.Str
import Kyth.Lib.Utf8
import Mathlib.Data.List.Destutter
import Mathlib.Data.List.DropRight
import Mathlib.Tactic

/-!
# Streamed command output (`installer_stream.rs`)

`StreamingCommandModel` turns the bytes of a child process into log lines while they arrive. Bytes
of an unfinished character wait in `pendingUtf8`, the characters of an unfinished line in
`pending`. Text is a list of characters; its length is counted in bytes, as in the source.

`stream_events` compares a run with the reading of the whole output at once: for every cut of the
output into chunks the emitted lines are `referenceLines`, and the last thirty of them are kept.
-/

namespace Kyth.Stream

open Str Utf8

/-- `RECENT_OUTPUT_LINES`. -/
def recentOutputLines : ℕ := 30

/-- `MAX_STREAM_LINE_BYTES`. -/
def maxStreamLineBytes : ℕ := 64 * 1024

/-- `TRUNCATED_LINE_SUFFIX`. -/
def truncatedLineMark : List Char := "[truncated]".toList

/-- `StreamEvent`. -/
inductive StreamEvent
  | log (line : String)
  deriving DecidableEq, Repr

/-- The fields of `StreamingCommandModel` that its output handling reads and writes. -/
structure StreamingCommandModel where
  pending : List Char := []
  pendingUtf8 : List UInt8 := []
  lastLine : Option String := none
  recentOutput : List String := []
  lastActivity : ℕ
  deriving DecidableEq, Repr

namespace StreamingCommandModel

/-- `StreamingCommandModel::new`. -/
def new (now : ℕ) : StreamingCommandModel where
  lastActivity := now

/-- `emit_line`. -/
def emitLine (m : StreamingCommandModel) (events : List StreamEvent) (line : List Char) :
    StreamingCommandModel × List StreamEvent :=
  let line := trim (String.ofList line)
  if line = "" ∨ m.lastLine = some line then (m, events)
  else
    let recent :=
      if m.recentOutput.length = recentOutputLines then m.recentOutput.tail else m.recentOutput
    ({ m with lastLine := some line, recentOutput := recent ++ [line] }, events ++ [.log line])

end StreamingCommandModel

/-- The terminators of a line. -/
def isBreak (c : Char) : Bool := c == '\n' || c == '\r'

/-- `String::len`: the bytes of a text. -/
def byteLength (text : List Char) : ℕ := (text.map Char.utf8Size).sum

/-- The longest beginning of a text that has at most `limit` bytes. -/
def boundedPrefix : ℕ → List Char → List Char
  | _, [] => []
  | limit, c :: text =>
      if c.utf8Size ≤ limit then c :: boundedPrefix (limit - c.utf8Size) text else []

/-- A text over the limit has a beginning to cut off. -/
theorem boundedPrefix_ne_nil {text : List Char} (h : maxStreamLineBytes < byteLength text) :
    0 < text.length ∧ 0 < (boundedPrefix maxStreamLineBytes text).length := by
  cases text with
  | nil => simp [byteLength] at h
  | cons c text =>
    have hc : c.utf8Size ≤ maxStreamLineBytes := c.utf8Size_le_four.trans (by decide)
    rw [boundedPrefix, if_pos hc]
    simp

theorem span_rest_length {pending line rest : List Char} {c : Char}
    (h : pending.span (fun c => !isBreak c) = (line, c :: rest)) : rest.length < pending.length := by
  have hsplit := List.takeWhile_append_dropWhile (p := fun c => !isBreak c) (l := pending)
  rw [List.span_eq_takeWhile_dropWhile, Prod.mk.injEq] at h
  rw [← hsplit, List.length_append, h.2, List.length_cons]
  omega

namespace StreamingCommandModel

/-- The loop of `take_lines`: emit the terminated lines, and an unterminated one in capped chunks
as soon as it is over the limit. -/
def takeLinesLoop (m : StreamingCommandModel) (events : List StreamEvent) (pending : List Char) :
    StreamingCommandModel × List StreamEvent :=
  match hspan : pending.span fun c => !isBreak c with
  | (line, _ :: rest) =>
      have := span_rest_length hspan
      takeLinesLoop (m.emitLine events line).1 (m.emitLine events line).2 rest
  | (_, []) =>
      if hlong : maxStreamLineBytes < byteLength pending then
        have := boundedPrefix_ne_nil hlong
        let emitted := m.emitLine events
          (boundedPrefix maxStreamLineBytes pending ++ truncatedLineMark)
        takeLinesLoop emitted.1 emitted.2
          (pending.drop (boundedPrefix maxStreamLineBytes pending).length)
      else ({ m with pending }, events)
termination_by pending.length

/-- `take_lines`. -/
def takeLines (m : StreamingCommandModel) (finalChunk : Bool) :
    StreamingCommandModel × List StreamEvent :=
  let taken := m.takeLinesLoop [] m.pending
  if finalChunk && taken.1.pending != [] then
    { taken.1 with pending := [] }.emitLine taken.2 taken.1.pending
  else taken

/-- The loop of `decode`, which looks at the bytes from `offset` on: the text it appends and the
bytes it keeps. -/
def decodeLoop (finalChunk : Bool) (pending : List Char) (bytes : List UInt8) :
    List Char × List UInt8 :=
  match hfound : fromUtf8 bytes with
  | (text, none) => (pending ++ text, [])
  | (text, some (rest, none)) =>
      if finalChunk then (pending ++ text ++ fromUtf8Lossy rest, []) else (pending ++ text, rest)
  | (text, some (rest, some n)) =>
      if rest.drop n = [] then (pending ++ text ++ [replacement], [])
      else
        have := fromUtf8_invalid_length hfound
        decodeLoop finalChunk (pending ++ text ++ [replacement]) (rest.drop n)
termination_by bytes.length

/-- `decode`. -/
def decode (m : StreamingCommandModel) (bytes : List UInt8) (finalChunk : Bool) :
    StreamingCommandModel :=
  let decoded := decodeLoop finalChunk m.pending (m.pendingUtf8 ++ bytes)
  { m with pending := decoded.1, pendingUtf8 := decoded.2 }

/-- `feed`. -/
def feed (m : StreamingCommandModel) (bytes : List UInt8) (now : ℕ) :
    StreamingCommandModel × List StreamEvent :=
  ({ m with lastActivity := now }.decode bytes false).takeLines false

/-- `finish_output`. -/
def finishOutput (m : StreamingCommandModel) : StreamingCommandModel × List StreamEvent :=
  (m.decode [] true).takeLines true

/-- A whole run: the chunks are fed at some times, and then the output ends. -/
def run (m : StreamingCommandModel) : List (List UInt8 × ℕ) →
    StreamingCommandModel × List StreamEvent
  | [] => m.finishOutput
  | (bytes, now) :: chunks =>
      let fed := m.feed bytes now
      let rest := fed.1.run chunks
      (rest.1, fed.2 ++ rest.2)

end StreamingCommandModel

/-! ### The whole output at once -/

/-- The lines of a text, terminated or not. -/
noncomputable def textLines (text : List Char) : List (List Char) := text.splitOnP isBreak

/-- The lines that are worth a log entry: trimmed, not empty, and different from the one before. -/
def logLines (lines : List (List Char)) : List String :=
  ((lines.map fun line => trim (String.ofList line)).filter (· ≠ "")).destutter (· ≠ ·)

/-- The log of an output that is decoded and split as a whole. -/
noncomputable def referenceLines (output : List UInt8) : List String :=
  logLines (textLines (fromUtf8Lossy output))

/-! ### Lines -/

/-- The lines of a text that are terminated. -/
noncomputable def completeLines (text : List Char) : List (List Char) := (textLines text).dropLast

/-- The line at the end of a text that is not terminated yet. -/
noncomputable def openLine (text : List Char) : List Char := (textLines text).getLastD []

theorem textLines_ne_nil (text : List Char) : textLines text ≠ [] := List.splitOnP_ne_nil _ _

theorem textLines_eq (text : List Char) : textLines text = completeLines text ++ [openLine text] := by
  have hne := textLines_ne_nil text
  unfold completeLines openLine
  rw [List.getLastD_eq_getLast?, List.getLast?_eq_getLast_of_ne_nil hne, Option.getD_some,
    List.dropLast_append_getLast hne]

/-- A text has no terminator, or a first one. -/
theorem free_or_first_break (text : List Char) :
    (∀ c ∈ text, isBreak c = false) ∨ ∃ line sep rest, text = line ++ sep :: rest ∧
      (∀ c ∈ line, isBreak c = false) ∧ isBreak sep = true := by
  induction text with
  | nil => exact .inl (by simp)
  | cons c text ih =>
    cases hc : isBreak c with
    | true => exact .inr ⟨[], c, text, rfl, by simp, hc⟩
    | false =>
      rcases ih with hfree | ⟨line, sep, rest, rfl, hfree, hsep⟩
      · exact .inl (List.forall_mem_cons.2 ⟨hc, hfree⟩)
      · exact .inr ⟨c :: line, sep, rest, rfl, List.forall_mem_cons.2 ⟨hc, hfree⟩, hsep⟩

theorem textLines_of_free {text : List Char} (h : ∀ c ∈ text, isBreak c = false) :
    completeLines text = [] ∧ openLine text = text := by
  unfold completeLines openLine textLines
  rw [List.splitOnP_eq_singleton h]
  exact ⟨rfl, rfl⟩

theorem textLines_of_break {line : List Char} {sep : Char} (rest : List Char)
    (hfree : ∀ c ∈ line, isBreak c = false) (hsep : isBreak sep = true) :
    textLines (line ++ sep :: rest) = line :: textLines rest ∧
      completeLines (line ++ sep :: rest) = line :: completeLines rest ∧
      openLine (line ++ sep :: rest) = openLine rest := by
  have hlines : textLines (line ++ sep :: rest) = line :: textLines rest :=
    List.splitOnP_append_cons_of_forall_mem hfree sep hsep rest
  refine ⟨hlines, ?_, ?_⟩
  · rw [completeLines, hlines, List.dropLast_cons_of_ne_nil (textLines_ne_nil rest)]
    rfl
  · rw [openLine, hlines, textLines_eq rest, ← List.cons_append, List.getLastD_concat]

/-- More text continues the open line. -/
theorem textLines_append (text more : List Char) :
    textLines (text ++ more) = completeLines text ++ textLines (openLine text ++ more) := by
  induction hlen : text.length using Nat.strong_induction_on generalizing text with
  | _ len ih =>
    rcases free_or_first_break text with hfree | ⟨line, sep, rest, rfl, hfree, hsep⟩
    · obtain ⟨hcomplete, hopen⟩ := textLines_of_free hfree
      rw [hcomplete, hopen, List.nil_append]
    · obtain ⟨-, hcomplete, hopen⟩ := textLines_of_break rest hfree hsep
      have hrest := ih rest.length (by rw [← hlen, List.length_append, List.length_cons]; omega) rest rfl
      rw [hcomplete, hopen, List.append_assoc, List.cons_append,
        (textLines_of_break _ hfree hsep).1, hrest, List.cons_append]

theorem completeLines_append (text more : List Char) :
    completeLines (text ++ more) = completeLines text ++ completeLines (openLine text ++ more) := by
  rw [completeLines, textLines_append, List.dropLast_append_of_ne_nil (textLines_ne_nil _)]
  rfl

theorem openLine_append (text more : List Char) :
    openLine (text ++ more) = openLine (openLine text ++ more) := by
  rw [openLine, textLines_append, textLines_eq (openLine text ++ more), ← List.append_assoc,
    List.getLastD_concat]

/-- The open line has no terminator in it. -/
theorem openLine_free (text : List Char) : ∀ c ∈ openLine text, isBreak c = false := by
  induction hlen : text.length using Nat.strong_induction_on generalizing text with
  | _ len ih =>
    rcases free_or_first_break text with hfree | ⟨line, sep, rest, rfl, hfree, hsep⟩
    · rwa [(textLines_of_free hfree).2]
    · rw [(textLines_of_break _ hfree hsep).2.2]
      exact ih rest.length (by rw [← hlen, List.length_append, List.length_cons]; omega) rest rfl

/-- The open line of a text is no longer than a line of any longer text. -/
theorem exists_line_ge_openLine (text more : List Char) :
    ∃ line ∈ textLines (text ++ more), byteLength (openLine text) ≤ byteLength line := by
  have hfirst : ∀ l : List Char, (∀ c ∈ l, isBreak c = false) →
      ∃ line ∈ textLines (l ++ more), byteLength l ≤ byteLength line := by
    intro l hfree
    rcases free_or_first_break more with hmore | ⟨line, sep, rest, rfl, hline, hsep⟩
    · refine ⟨l ++ more, ?_, by simp [byteLength]⟩
      rw [textLines, List.splitOnP_eq_singleton (List.forall_mem_append.2 ⟨hfree, hmore⟩)]
      exact List.mem_singleton_self _
    · refine ⟨l ++ line, ?_, by simp [byteLength]⟩
      rw [← List.append_assoc, (textLines_of_break _ (List.forall_mem_append.2 ⟨hfree, hline⟩) hsep).1]
      exact List.mem_cons_self
  obtain ⟨line, hline, hle⟩ := hfirst (openLine text) (openLine_free text)
  exact ⟨line, by rw [textLines_append]; exact List.mem_append_right _ hline, hle⟩

/-! ### The log -/

/-- One more value at the end of a list without stutter. -/
theorem destutter'_concat {α : Type} [DecidableEq α] (l : List α) (first a : α) :
    (l ++ [a]).destutter' (· ≠ ·) first =
      if (l.destutter' (· ≠ ·) first).getLast? = some a then l.destutter' (· ≠ ·) first
      else l.destutter' (· ≠ ·) first ++ [a] := by
  induction l generalizing first with
  | nil =>
    rw [List.nil_append, List.destutter'_singleton, List.destutter'_nil]
    by_cases h : first = a <;> simp [h]
  | cons b l ih =>
    rw [List.cons_append]
    by_cases h : first ≠ b
    · rw [List.destutter'_cons_pos _ h, List.destutter'_cons_pos _ h, ih b]
      have hne : l.destutter' (· ≠ ·) b ≠ [] := List.destutter'_ne_nil _ _
      rw [List.getLast?_cons_of_ne_nil hne]
      split_ifs <;> rfl
    · rw [List.destutter'_cons_neg _ h, List.destutter'_cons_neg _ h, ih first]

/-- One more line: it is logged unless it is empty or the last one logged. -/
theorem logLines_concat (lines : List (List Char)) (line : List Char) :
    logLines (lines ++ [line]) =
      if trim (String.ofList line) = "" ∨
          (logLines lines).getLast? = some (trim (String.ofList line)) then logLines lines
      else logLines lines ++ [trim (String.ofList line)] := by
  unfold logLines
  rw [List.map_append, List.filter_append, List.map_singleton]
  generalize trim (String.ofList line) = shown
  generalize (lines.map fun line => trim (String.ofList line)).filter (· ≠ "") = kept
  by_cases hempty : shown = ""
  · simp [hempty]
  · have hkeep : [shown].filter (· ≠ "") = [shown] := by simp [hempty]
    rw [hkeep, if_congr (or_iff_right hempty) rfl rfl]
    cases kept with
    | nil => simp
    | cons first kept =>
      rw [List.cons_append, List.destutter_cons', List.destutter_cons', destutter'_concat]

/-- What the model remembers of the lines it has logged. -/
def Logged (m : StreamingCommandModel) (shown : List String) : Prop :=
  m.lastLine = shown.getLast? ∧ m.recentOutput = shown.rtake recentOutputLines

/-- A buffer of the last lines, pushed at the end and popped at the front when it is full. -/
theorem rtake_push (shown : List String) (line : String) :
    (if (shown.rtake recentOutputLines).length = recentOutputLines then
        (shown.rtake recentOutputLines).tail
      else shown.rtake recentOutputLines) ++ [line] =
      (shown ++ [line]).rtake recentOutputLines := by
  have hsucc : recentOutputLines = 29 + 1 := rfl
  rw [hsucc, List.rtake_concat_succ, List.append_cancel_right_eq]
  unfold List.rtake
  rw [List.length_drop, List.tail_drop]
  split_ifs with hfull
  · congr 1
    omega
  · rw [Nat.sub_eq_zero_of_le (by omega), Nat.sub_eq_zero_of_le (by omega)]

/-- The lines of a list are emitted one after the other. -/
def emitLines (m : StreamingCommandModel) (events : List StreamEvent) (lines : List (List Char)) :
    StreamingCommandModel × List StreamEvent :=
  lines.foldl (fun acc line => acc.1.emitLine acc.2 line) (m, events)

theorem emitLines_cons (m : StreamingCommandModel) (events : List StreamEvent) (line : List Char)
    (lines : List (List Char)) :
    emitLines m events (line :: lines) =
      emitLines (m.emitLine events line).1 (m.emitLine events line).2 lines := by
  rw [emitLines, List.foldl_cons, emitLines, Prod.mk.eta]

theorem emitLine_frame (m : StreamingCommandModel) (events : List StreamEvent) (line : List Char) :
    (m.emitLine events line).1.pending = m.pending ∧
      (m.emitLine events line).1.pendingUtf8 = m.pendingUtf8 := by
  unfold StreamingCommandModel.emitLine
  dsimp only
  split_ifs <;> exact ⟨rfl, rfl⟩

/-- Emitting a line logs what `logLines` adds for it. -/
theorem emitLine_logged {m : StreamingCommandModel} {lines : List (List Char)}
    (h : Logged m (logLines lines)) (events : List StreamEvent) (line : List Char) :
    Logged (m.emitLine events line).1 (logLines (lines ++ [line])) ∧
      ∃ new, (m.emitLine events line).2 = events ++ new.map .log ∧
        logLines (lines ++ [line]) = logLines lines ++ new := by
  obtain ⟨hlast, hrecent⟩ := h
  rw [logLines_concat, ← hlast]
  unfold StreamingCommandModel.emitLine
  dsimp only
  by_cases hskip : trim (String.ofList line) = "" ∨ m.lastLine = some (trim (String.ofList line))
  · rw [if_pos hskip, if_pos hskip]
    exact ⟨⟨hlast, hrecent⟩, [], by simp, by simp⟩
  · rw [if_neg hskip, if_neg hskip, hrecent]
    exact ⟨⟨by simp, rtake_push _ _⟩, [_], rfl, rfl⟩

/-- Emitting several lines logs what `logLines` adds for them. -/
theorem emitLines_logged {m : StreamingCommandModel} {lines : List (List Char)}
    (h : Logged m (logLines lines)) (events : List StreamEvent) (more : List (List Char)) :
    Logged (emitLines m events more).1 (logLines (lines ++ more)) ∧
      (emitLines m events more).1.pending = m.pending ∧
      (emitLines m events more).1.pendingUtf8 = m.pendingUtf8 ∧
      ∃ new, (emitLines m events more).2 = events ++ new.map .log ∧
        logLines (lines ++ more) = logLines lines ++ new := by
  induction more generalizing m events lines with
  | nil =>
    rw [List.append_nil]
    exact ⟨h, rfl, rfl, [], by simp [emitLines], by simp⟩
  | cons line more ih =>
    obtain ⟨hlogged, new, hevents, hlines⟩ := emitLine_logged h events line
    obtain ⟨hpending, hutf8⟩ := emitLine_frame m events line
    obtain ⟨hlogged', hpending', hutf8', new', hevents', hlines'⟩ :=
      ih hlogged (m.emitLine events line).2
    rw [List.append_assoc, List.singleton_append] at hlogged' hlines'
    rw [emitLines_cons]
    refine ⟨hlogged', hpending'.trans hpending, hutf8'.trans hutf8, new ++ new', ?_, ?_⟩
    · rw [hevents', hevents, List.map_append, List.append_assoc]
    · rw [hlines', hlines, List.append_assoc]

/-! ### Feeding -/

/-- The loop of `decode` appends what the lossy decoder finds and keeps an incomplete character
until the end. -/
theorem decodeLoop_eq (finalChunk : Bool) (pending : List Char) (bytes : List UInt8) :
    StreamingCommandModel.decodeLoop finalChunk pending bytes =
      if finalChunk then (pending ++ fromUtf8Lossy bytes, [])
      else (pending ++ (lossyPrefix bytes).1, (lossyPrefix bytes).2) := by
  induction hlen : bytes.length using Nat.strong_induction_on generalizing pending bytes with
  | _ len ih =>
    have hnil : fromUtf8Lossy [] = [] := fromUtf8Lossy_of_done rfl
    have hkept : lossyPrefix [] = ([], []) := lossyPrefix_of_done rfl
    have hlossy := fromUtf8Lossy_eq bytes
    have hstop := lossyPrefix_eq_fromUtf8 bytes
    rw [StreamingCommandModel.decodeLoop]
    split
    · rename_i text hfound
      rw [hfound] at hstop
      rw [hlossy, hstop]
      cases finalChunk <;> simp [hnil]
    · rename_i text rest hfound
      rw [hfound] at hstop
      rw [hlossy, hstop]
      cases finalChunk <;> simp
    · -- the loop goes on behind the invalid bytes, or stops because nothing is left
      rename_i text rest n hfound
      rw [hfound] at hstop
      have hlt := fromUtf8_invalid_length hfound
      rw [ih (rest.drop n).length (by rw [List.length_drop]; omega) _ _ rfl, hlossy, hstop,
        fromUtf8Lossy_eq (rest.drop n)]
      split_ifs with hdrop hfinal hfinal
      · simp [hdrop, hkept, hnil]
      · simp [hdrop, hkept]
      · simp
      · simp

theorem span_of_free {pending : List Char} (h : ∀ c ∈ pending, isBreak c = false) :
    pending.span (fun c => !isBreak c) = (pending, []) := by
  have hall : ∀ c ∈ pending, (!isBreak c) = true := fun c hc => by simp [h c hc]
  rw [List.span_eq_takeWhile_dropWhile, List.takeWhile_eq_self_iff.2 hall,
    List.dropWhile_eq_nil_iff.2 hall]

theorem span_of_break {line rest : List Char} {sep : Char}
    (hfree : ∀ c ∈ line, isBreak c = false) (hsep : isBreak sep = true) :
    (line ++ sep :: rest).span (fun c => !isBreak c) = (line, sep :: rest) := by
  have hall : ∀ c ∈ line, (!isBreak c) = true := fun c hc => by simp [hfree c hc]
  rw [List.span_eq_takeWhile_dropWhile, List.takeWhile_append_of_pos hall,
    List.dropWhile_append_of_pos hall, List.takeWhile_cons_of_neg (by simp [hsep]),
    List.dropWhile_cons_of_neg (by simp [hsep]), List.append_nil]

/-- The loop of `take_lines` emits the terminated lines and keeps the open one, unless that one is
over the limit. -/
theorem takeLinesLoop_eq (m : StreamingCommandModel) (events : List StreamEvent)
    (pending : List Char) (hopen : byteLength (openLine pending) ≤ maxStreamLineBytes) :
    m.takeLinesLoop events pending =
      ({ (emitLines m events (completeLines pending)).1 with pending := openLine pending },
        (emitLines m events (completeLines pending)).2) := by
  induction hlen : pending.length using Nat.strong_induction_on
    generalizing m events pending with
  | _ len ih =>
    rw [StreamingCommandModel.takeLinesLoop]
    rcases free_or_first_break pending with hfree | ⟨line, sep, rest, rfl, hfree, hsep⟩
    · obtain ⟨hcomplete, hself⟩ := textLines_of_free hfree
      rw [hself] at hopen
      rw [hcomplete, hself]
      split
      · rename_i hspan
        rw [span_of_free hfree] at hspan
        cases hspan
      · rw [dif_neg (not_lt.2 hopen)]
        rfl
    · obtain ⟨-, hcomplete, hself⟩ := textLines_of_break rest hfree hsep
      rw [hself] at hopen
      rw [hcomplete, hself, emitLines_cons]
      split
      · rename_i hspan
        rw [span_of_break hfree hsep] at hspan
        cases hspan
        exact ih rest.length (by rw [← hlen, List.length_append, List.length_cons]; omega) _ _ rest
          hopen rfl
      · rename_i hspan
        rw [span_of_break hfree hsep] at hspan
        cases hspan

/-- The state of the model after it has read some output. -/
structure Reads (m : StreamingCommandModel) (output : List UInt8) : Prop where
  utf8 : m.pendingUtf8 = (lossyPrefix output).2
  pending : m.pending = openLine (lossyPrefix output).1
  logged : Logged m (logLines (completeLines (lossyPrefix output).1))

theorem reads_new (now : ℕ) : Reads (.new now) [] := by
  have hnil : lossyPrefix [] = ([], []) := lossyPrefix_of_done rfl
  obtain ⟨hcomplete, hopen⟩ := @textLines_of_free [] (by simp)
  constructor
  · rw [hnil]
    rfl
  · rw [hnil, hopen]
    rfl
  · rw [hnil, hcomplete]
    exact ⟨rfl, rfl⟩

/-- Emitting what a longer text completes. -/
theorem takeLinesLoop_logged {m : StreamingCommandModel} {text more : List Char}
    (hlogged : Logged m (logLines (completeLines text)))
    (hopen : byteLength (openLine (text ++ more)) ≤ maxStreamLineBytes) :
    (m.takeLinesLoop [] (openLine text ++ more)).1.pending = openLine (text ++ more) ∧
      (m.takeLinesLoop [] (openLine text ++ more)).1.pendingUtf8 = m.pendingUtf8 ∧
      Logged (m.takeLinesLoop [] (openLine text ++ more)).1
        (logLines (completeLines (text ++ more))) ∧
      ∃ new, (m.takeLinesLoop [] (openLine text ++ more)).2 = new.map .log ∧
        logLines (completeLines (text ++ more)) = logLines (completeLines text) ++ new := by
  rw [openLine_append text more] at hopen ⊢
  obtain ⟨hlog, -, hutf8, new, hevents, hlines⟩ :=
    emitLines_logged hlogged [] (completeLines (openLine text ++ more))
  rw [takeLinesLoop_eq _ _ _ hopen, completeLines_append text more]
  exact ⟨rfl, hutf8, hlog, new, hevents, hlines⟩

/-- A chunk is read, and the lines it completes are emitted. -/
theorem feed_reads {m : StreamingCommandModel} {output bytes : List UInt8} (now : ℕ)
    (h : Reads m output)
    (hopen : byteLength (openLine (lossyPrefix (output ++ bytes)).1) ≤ maxStreamLineBytes) :
    Reads (m.feed bytes now).1 (output ++ bytes) ∧
      ∃ new, (m.feed bytes now).2 = new.map .log ∧
        logLines (completeLines (lossyPrefix (output ++ bytes)).1) =
          logLines (completeLines (lossyPrefix output).1) ++ new := by
  have hfeed : m.feed bytes now = StreamingCommandModel.takeLinesLoop
      { m with lastActivity := now
               pending := m.pending ++ (lossyPrefix (m.pendingUtf8 ++ bytes)).1
               pendingUtf8 := (lossyPrefix (m.pendingUtf8 ++ bytes)).2 } []
      (m.pending ++ (lossyPrefix (m.pendingUtf8 ++ bytes)).1) := by
    simp only [StreamingCommandModel.feed, StreamingCommandModel.decode,
      StreamingCommandModel.takeLines, decodeLoop_eq, Bool.false_and, Bool.false_eq_true, if_false]
  have htext : (lossyPrefix (output ++ bytes)).1 =
      (lossyPrefix output).1 ++ (lossyPrefix (m.pendingUtf8 ++ bytes)).1 := by
    rw [lossyPrefix_append, h.utf8]
  have hkept : (lossyPrefix (output ++ bytes)).2 = (lossyPrefix (m.pendingUtf8 ++ bytes)).2 := by
    rw [lossyPrefix_append, h.utf8]
  rw [htext] at hopen
  have hlogged : Logged { m with lastActivity := now
                                 pending := m.pending ++ (lossyPrefix (m.pendingUtf8 ++ bytes)).1
                                 pendingUtf8 := (lossyPrefix (m.pendingUtf8 ++ bytes)).2 }
      (logLines (completeLines (lossyPrefix output).1)) := h.logged
  have htaken := takeLinesLoop_logged hlogged hopen
  rw [← h.pending, ← hfeed, ← htext] at htaken
  obtain ⟨hpending', hutf8', hlogged', new, hevents, hlines⟩ := htaken
  exact ⟨⟨hutf8'.trans hkept.symm, hpending', hlogged'⟩, new, hevents, hlines⟩

/-- The end of the output: everything that is left is emitted. -/
theorem finishOutput_logged {m : StreamingCommandModel} {output : List UInt8} (h : Reads m output)
    (hopen : byteLength (openLine (fromUtf8Lossy output)) ≤ maxStreamLineBytes) :
    Logged m.finishOutput.1 (referenceLines output) ∧
      ∃ new, m.finishOutput.2 = new.map .log ∧
        referenceLines output = logLines (completeLines (lossyPrefix output).1) ++ new := by
  have htext : fromUtf8Lossy output =
      (lossyPrefix output).1 ++ fromUtf8Lossy m.pendingUtf8 := by
    rw [h.utf8, ← fromUtf8Lossy_eq]
  have hreference : referenceLines output =
      logLines (completeLines (fromUtf8Lossy output) ++ [openLine (fromUtf8Lossy output)]) := by
    rw [referenceLines, textLines_eq]
  have hlogged : Logged { m with pending := m.pending ++ fromUtf8Lossy m.pendingUtf8
                                 pendingUtf8 := [] }
      (logLines (completeLines (lossyPrefix output).1)) := h.logged
  have htaken := takeLinesLoop_logged hlogged (htext ▸ hopen)
  rw [← h.pending, ← htext] at htaken
  have hfinish : m.finishOutput = StreamingCommandModel.takeLines
      { m with pending := m.pending ++ fromUtf8Lossy m.pendingUtf8, pendingUtf8 := [] } true := by
    simp only [StreamingCommandModel.finishOutput, StreamingCommandModel.decode, decodeLoop_eq,
      List.append_nil, if_true]
  rw [hfinish, StreamingCommandModel.takeLines, hreference]
  generalize StreamingCommandModel.takeLinesLoop { m with
    pending := m.pending ++ fromUtf8Lossy m.pendingUtf8, pendingUtf8 := [] } []
    (m.pending ++ fromUtf8Lossy m.pendingUtf8) = taken at htaken ⊢
  obtain ⟨hpending, -, hlog, new, hevents, hlines⟩ := htaken
  dsimp only
  rw [hpending, Bool.true_and]
  by_cases hempty : openLine (fromUtf8Lossy output) = []
  · -- an empty open line is not emitted, and it is not worth a log entry either
    have hblank : trim (String.ofList []) = "" := rfl
    rw [if_neg (by simp [hempty]), hempty, logLines_concat, if_pos (.inl hblank)]
    exact ⟨hlog, new, hevents, hlines⟩
  · rw [if_pos (by simp [hempty])]
    have hlog' : Logged { taken.1 with pending := [] }
        (logLines (completeLines (fromUtf8Lossy output))) := hlog
    obtain ⟨hlogged', new', hevents', hlines'⟩ :=
      emitLine_logged hlog' taken.2 (openLine (fromUtf8Lossy output))
    refine ⟨hlogged', new ++ new', ?_, ?_⟩
    · rw [hevents', hevents, List.map_append]
    · rw [hlines', hlines, List.append_assoc]

/-- A run from a state that has read some output logs what the whole output adds. -/
theorem run_logged {m : StreamingCommandModel} {output : List UInt8} (h : Reads m output)
    (chunks : List (List UInt8 × ℕ))
    (hshort : ∀ line ∈ textLines (fromUtf8Lossy (output ++ (chunks.map Prod.fst).flatten)),
      byteLength line ≤ maxStreamLineBytes) :
    Logged (m.run chunks).1 (referenceLines (output ++ (chunks.map Prod.fst).flatten)) ∧
      ∃ new, (m.run chunks).2 = new.map .log ∧
        referenceLines (output ++ (chunks.map Prod.fst).flatten) =
          logLines (completeLines (lossyPrefix output).1) ++ new := by
  induction chunks generalizing m output with
  | nil =>
    rw [List.map_nil, List.flatten_nil, List.append_nil] at hshort ⊢
    apply finishOutput_logged h
    apply hshort
    rw [textLines_eq]
    exact List.mem_append_right _ (List.mem_singleton_self _)
  | cons chunk chunks ih =>
    obtain ⟨bytes, now⟩ := chunk
    rw [List.map_cons, List.flatten_cons, ← List.append_assoc] at hshort ⊢
    -- what is open after this chunk begins a line of the whole output
    have hopen : byteLength (openLine (lossyPrefix (output ++ bytes)).1) ≤ maxStreamLineBytes := by
      have hwhole : fromUtf8Lossy (output ++ bytes ++ (chunks.map Prod.fst).flatten) =
          (lossyPrefix (output ++ bytes)).1 ++ fromUtf8Lossy
            ((lossyPrefix (output ++ bytes)).2 ++ (chunks.map Prod.fst).flatten) := by
        rw [fromUtf8Lossy_eq, lossyPrefix_append, List.append_assoc, ← fromUtf8Lossy_eq]
      rw [hwhole] at hshort
      obtain ⟨line, hline, hle⟩ := exists_line_ge_openLine (lossyPrefix (output ++ bytes)).1
        (fromUtf8Lossy ((lossyPrefix (output ++ bytes)).2 ++ (chunks.map Prod.fst).flatten))
      exact hle.trans (hshort line hline)
    obtain ⟨hreads, new, hevents, hlines⟩ := feed_reads now h hopen
    obtain ⟨hlogged, new', hevents', hlines'⟩ := ih hreads hshort
    refine ⟨hlogged, new ++ new', ?_, ?_⟩
    · rw [StreamingCommandModel.run, List.map_append, ← hevents, ← hevents']
    · rw [hlines', hlines, List.append_assoc]

/-- Output without overlong lines: however it is cut into chunks, and whenever they arrive, the
emitted lines are those of the whole output, and the last thirty of them are kept. -/
theorem stream_events (output : List UInt8)
    (hshort : ∀ line ∈ textLines (fromUtf8Lossy output), byteLength line ≤ maxStreamLineBytes)
    (started : ℕ) (chunks : List (List UInt8 × ℕ))
    (hcut : (chunks.map Prod.fst).flatten = output) :
    (StreamingCommandModel.run (.new started) chunks).2 = (referenceLines output).map .log ∧
      (StreamingCommandModel.run (.new started) chunks).1.recentOutput =
        (referenceLines output).rtake recentOutputLines := by
  subst hcut
  obtain ⟨hlogged, new, hevents, hlines⟩ :=
    run_logged (reads_new started) chunks (by rwa [List.nil_append])
  have hnil : logLines (completeLines (lossyPrefix []).1) = [] := by
    rw [lossyPrefix_of_done rfl, (@textLines_of_free [] (by simp)).1]
    rfl
  rw [List.nil_append] at hlogged hlines
  rw [hnil, List.nil_append] at hlines
  rw [hlines]
  exact ⟨hevents, hlines ▸ hlogged.2⟩

/-- A two-byte letter that arrives in two chunks. -/
theorem split_letter_logged_once :
    textLines (fromUtf8Lossy [0xC3, 0xA9, 0x0A]) = [['é'], []] ∧
      (StreamingCommandModel.run (.new 0) [([0xC3], 1), ([0xA9, 0x0A], 2)]).2 =
        (referenceLines [0xC3, 0xA9, 0x0A]).map .log := by
  have hletter : scan [0xC3, 0xA9, 0x0A] = .char 'é' [0x0A] := by decide
  have hbreak : scan [0x0A] = .char '\n' [] := by decide
  have htext : fromUtf8Lossy [0xC3, 0xA9, 0x0A] = ['é'] ++ '\n' :: [] := by
    rw [fromUtf8Lossy_of_char hletter, fromUtf8Lossy_of_char hbreak, fromUtf8Lossy_of_done rfl]
    rfl
  have hfree : ∀ c ∈ ['é'], isBreak c = false := by
    intro c hc
    rw [List.mem_singleton.1 hc]
    rfl
  have hlines : textLines (fromUtf8Lossy [0xC3, 0xA9, 0x0A]) = [['é'], []] := by
    rw [htext, (textLines_of_break [] hfree rfl).1, textLines, List.splitOnP_nil]
  refine ⟨hlines, (stream_events [0xC3, 0xA9, 0x0A] ?_ 0 _ rfl).1⟩
  rw [hlines]
  decide

end Kyth.Stream

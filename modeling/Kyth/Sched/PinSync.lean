import Kyth.Sched.PinBlocks

/-!
# What the pin leaves of a file (`system/scheduler_arbiter.rs`)

The pattern knows no sections, and the first `[cpu]` of a text need not be its header.
`syncs_iff` says for which files the pin still comes to stand in its section, with nothing else changed and
nothing left to do.
-/

namespace Kyth.Sched

open AtomicIo JoinedLines SplitOnce Str Trim Utf8Text

variable {ls rest before after : List (List Char)} {line written value : List Char} {pin cpu : Bool}
  {ini : Option (List UInt8)}

/-- The matches of some blocks, each with whether it is in the section `[cpu]`. -/
def pins : Bool → List Block → List (Bool × List (List Char))
  | _, [] => []
  | cpu, .line line :: blocks => pins (inCpu cpu line) blocks
  | cpu, .pin ls :: blocks => (cpu, ls) :: pins cpu blocks

/-- The matches of the pattern in a file. -/
def pinsOf (ls : List (List Char)) : List (Bool × List (List Char)) := pins false (blocks ls)

/-- What a call is to leave behind. -/
structure Syncs (pin : Bool) (ini ini' : Option (List UInt8)) : Prop where
  /-- The lines outside the section are unchanged. -/
  outside : outside false (iniLines ini') = outside false (iniLines ini)
  /-- The section says what was decided. -/
  pinned : (∃ line ∈ iniLines ini, isCpuHeader line = true) →
    cpuPins false (iniLines ini') ≠ [] ∧ ∀ value ∈ cpuPins false (iniLines ini'), value = desiredPin pin
  /-- A second call has nothing to do. -/
  settled : ∀ write, syncGamemodePin write pin ini' = (.ok false, ini')

/-- The lines of a file in which the pin finds its place: where there are matches, those outside the section
say already what is written, and there is one in the section, if there is a section; where there are none,
the first line with `[cpu]` in it is the header, with nothing behind it. -/
structure HasPlace (pin : Bool) (ls : List (List Char)) : Prop where
  outside : ∀ m ∈ pinsOf ls, m.1 = false → m.2 = [pinLine pin]
  inside : pinsOf ls ≠ [] → (∃ line ∈ ls, isCpuHeader line = true) → ∃ m ∈ pinsOf ls, m.1 = true
  header : pinsOf ls = [] → ∀ line ∈ ls.find? fun line => decide ("[cpu]".toList <:+: line),
    isCpuHeader line = true ∧ line.getLast? = some ']'

/-! ### Sections -/

theorem pinLine_facts (pin : Bool) : '\n' ∉ pinLine pin ∧ isHeader (pinLine pin) = false ∧
    isBlank (pinLine pin) = false ∧ pinValue (pinLine pin) = some (desiredPin pin) := by
  cases pin with
  | false => decide
  | true => decide

theorem isHeader_of_isCpuHeader (h : isCpuHeader line = true) : isHeader line = true := by
  rw [isCpuHeader, beq_iff_eq] at h
  rw [isHeader, h]
  decide

theorem inCpu_of_not_isHeader (h : isHeader line = false) (cpu : Bool) : inCpu cpu line = cpu := by
  rw [inCpu, h]
  rfl

/-- Lines without a header are all in a section or all outside. -/
theorem outside_append (h : ∀ line ∈ ls, isHeader line = false) (cpu : Bool) (rest : List (List Char)) :
    outside cpu (ls ++ rest) = (if cpu then [] else ls) ++ outside cpu rest := by
  induction ls with
  | nil => simp
  | cons line ls ih =>
    rw [List.cons_append, outside, inCpu_of_not_isHeader (h line List.mem_cons_self),
      ih fun other hother => h other (List.mem_cons_of_mem _ hother)]
    cases cpu with
    | false => rfl
    | true => rfl

/-- A line that assigns the pin is a match by itself. -/
theorem matchLines_of_pinValue (h : pinValue line = some value) (ls : List (List Char)) :
    matchLines (line :: ls) = some ls := by
  obtain ⟨⟨key, val⟩, hsplit, hkey⟩ := Option.bind_eq_some_iff.1 h
  obtain ⟨rfl, -⟩ := splitOnce_eq_some.1 hsplit
  split_ifs at hkey with htrimmed
  have hequals : isWhitespace '=' = false := by decide
  have hsolid : ∀ front rest : List Char, isBlank (front ++ '=' :: rest) = false := by
    intro front rest
    rw [isBlank, List.all_append, List.all_cons, hequals, Bool.false_and, Bool.and_false]
  -- the key is the word, with white space around it
  have hbehind : key.dropWhile isWhitespace =
      "pin_cores".toList ++ (key.dropWhile isWhitespace).rtakeWhile isWhitespace := by
    conv_lhs => rw [← List.rdropWhile_append_rtakeWhile (p := isWhitespace)
      (l := key.dropWhile isWhitespace)]
    congr 1
  have hblanks : ∀ c ∈ (key.dropWhile isWhitespace).rtakeWhile isWhitespace, isWhitespace c = true :=
    fun c => List.mem_rtakeWhile_imp
  generalize (key.dropWhile isWhitespace).rtakeWhile isWhitespace = blanks at hbehind hblanks
  have hline : (key ++ '=' :: val).dropWhile isWhitespace = "pin_cores".toList ++ (blanks ++ '=' :: val) := by
    have hne : (key.dropWhile isWhitespace).isEmpty = false := by rw [hbehind]; rfl
    rw [List.dropWhile_append, hne, if_neg Bool.false_ne_true, hbehind, List.append_assoc]
  have hvalue : (blanks ++ '=' :: val).dropWhile isWhitespace = '=' :: val := by
    rw [List.dropWhile_append_of_pos hblanks, List.dropWhile_cons_of_neg (by simp [hequals])]
  rw [matchLines, List.dropWhile_cons_of_neg (by simp [hsolid])]
  dsimp only
  rw [hline, dropPrefix?_eq_some.2 rfl]
  dsimp only
  rw [List.dropWhile_cons_of_neg (by simp [hsolid])]
  dsimp only
  rw [hvalue]
  rfl

theorem pinValue_of_matchLines (h : matchLines (line :: ls) = none) : pinValue line = none := by
  cases hvalue : pinValue line with
  | none => rfl
  | some value =>
    rw [matchLines_of_pinValue hvalue] at h
    cases h

/-! ### A text with matches -/

/-- Replacing takes no lines away from outside the section exactly if every match there is written as it
was. -/
theorem outside_replaced (hheader : isHeader written = false) (cpu : Bool) (ls : List (List Char)) :
    (outside cpu (replaced written ls)).length ≤ (outside cpu ls).length ∧
      (outside cpu (replaced written ls) = outside cpu ls ↔
        ∀ m ∈ pins cpu (blocks ls), m.1 = false → m.2 = [written]) := by
  induction ls using blocks_induction generalizing cpu with
  | hnil =>
    rw [replaced, blocks_nil]
    exact ⟨Nat.le_refl _, iff_of_true rfl fun m hm => absurd hm List.not_mem_nil⟩
  | hmatch taken rest hne hfree hmatched ih =>
    obtain ⟨hle, hiff⟩ := ih cpu
    rw [replaced, blocks_match hmatched hne, List.map_cons, ← replaced, Block.left, pins,
      List.forall_mem_cons, outside_append hfree, ← hiff, outside, inCpu_of_not_isHeader hheader]
    cases cpu with
    | true => exact ⟨hle, by simp⟩
    | false =>
      have hpos := List.length_pos_iff.2 hne
      simp only [Bool.false_eq_true, if_false, List.length_append, List.length_singleton, true_implies]
      refine ⟨by omega, fun h => ?_, fun h => by rw [h.1, h.2]⟩
      have hlength := congrArg List.length h
      simp only [List.length_append, List.length_singleton] at hlength
      have hone : [written].length = taken.length := by
        rw [List.length_singleton]
        omega
      obtain ⟨htaken, hrest⟩ := List.append_inj h hone
      exact ⟨htaken.symm, hrest⟩
  | hline line ls hmatched ih =>
    obtain ⟨hle, hiff⟩ := ih (inCpu cpu line)
    rw [replaced, blocks_line hmatched, List.map_cons, ← replaced, Block.left, pins, outside, outside,
      ← hiff, List.append_cancel_left_eq, List.length_append, List.length_append]
    exact ⟨by omega, Iff.rfl⟩

/-- What the section says behind replacing: the same for every match in it. -/
theorem cpuPins_replaced (hheader : isHeader written = false) (hvalue : pinValue written = some value)
    (cpu : Bool) (ls : List (List Char)) : cpuPins cpu (replaced written ls) =
      ((pins cpu (blocks ls)).filter fun m => m.1).map fun _ => value := by
  induction ls using blocks_induction generalizing cpu with
  | hnil =>
    rw [replaced, blocks_nil]
    rfl
  | hmatch taken rest hne hfree hmatched ih =>
    rw [replaced, blocks_match hmatched hne, List.map_cons, ← replaced, Block.left, pins, cpuPins,
      inCpu_of_not_isHeader hheader, ih, hvalue]
    cases cpu with
    | true => rfl
    | false => rfl
  | hline line ls hmatched ih =>
    rw [replaced, blocks_line hmatched, List.map_cons, ← replaced, Block.left, pins, cpuPins, ih,
      pinValue_of_matchLines hmatched, Option.toList_none, ite_self, List.nil_append]

/-- Of the lines that assign the pin, only the written one is left. -/
theorem eq_written_of_mem_replaced (h : line ∈ replaced written ls) (hvalue : pinValue line = some value) :
    line = written := by
  induction ls using blocks_induction with
  | hnil =>
    rw [replaced, blocks_nil] at h
    cases h
  | hmatch taken rest hne hfree hmatched ih =>
    rw [replaced, blocks_match hmatched hne, List.map_cons, ← replaced] at h
    rcases List.mem_cons.1 h with rfl | h
    · rfl
    · exact ih h
  | hline other ls hmatched ih =>
    rw [replaced, blocks_line hmatched, List.map_cons, ← replaced] at h
    rcases List.mem_cons.1 h with rfl | h
    · rw [pinValue_of_matchLines hmatched] at hvalue
      cases hvalue
    · exact ih h

/-! ### Replacing twice -/

/-- The first line that is not blank begins with `=`. -/
def begins (ls : List (List Char)) : Bool :=
  match ls.dropWhile isBlank with
  | [] => false
  | line :: _ => (line.dropWhile isWhitespace).head? == some '='

theorem begins_cons (line : List Char) (ls : List (List Char)) :
    begins (line :: ls) =
      if isBlank line then begins ls else (line.dropWhile isWhitespace).head? == some '=' := by
  unfold begins
  split_ifs with hblank
  · rw [List.dropWhile_cons_of_pos hblank]
  · rw [List.dropWhile_cons_of_neg hblank]

theorem matchLines_of_isBlank (h : isBlank line = true) (ls : List (List Char)) :
    matchLines (line :: ls) = matchLines ls := by
  rw [matchLines, List.dropWhile_cons_of_pos h, ← matchLines]

/-- Whether a match begins with a line that is not blank depends on what follows only if `pin_cores` is all
that the line has. -/
theorem matchLines_isSome (h : isBlank line = false) (ls : List (List Char)) :
    (matchLines (line :: ls)).isSome =
      ((line.dropWhile isWhitespace).dropPrefix? "pin_cores".toList).any fun tail => begins (tail :: ls) := by
  rw [matchLines, List.dropWhile_cons_of_neg (by simp [h])]
  dsimp only
  cases (line.dropWhile isWhitespace).dropPrefix? "pin_cores".toList with
  | none => rfl
  | some tail =>
    dsimp only
    rw [Option.any_some, begins]
    cases (tail :: ls).dropWhile isBlank with
    | nil => rfl
    | cons last ls' =>
      dsimp only
      split_ifs with hequals
      · rw [hequals]
        rfl
      · exact (beq_false_of_ne hequals).symm

theorem begins_replaced (hvalue : pinValue written = some value) (h : begins (replaced written ls) = true) :
    begins ls = true := by
  have hwritten : ∀ ls, begins (written :: ls) = false := by
    intro ls
    have hmatched := matchLines_of_pinValue hvalue ls
    cases hblank : isBlank written with
    | true =>
      rw [matchLines_of_isBlank hblank] at hmatched
      exact absurd (length_of_matchLines hmatched) (Nat.lt_irrefl _)
    | false =>
      have hsome := matchLines_isSome hblank ls
      rw [hmatched, Option.isSome_some, eq_comm, Option.any_eq_true] at hsome
      obtain ⟨tail, htail, -⟩ := hsome
      rw [begins_cons, hblank, dropPrefix?_eq_some.1 htail]
      rfl
  induction ls using blocks_induction with
  | hnil =>
    rw [replaced, blocks_nil] at h
    cases h
  | hmatch taken rest hne hfree hmatched ih =>
    rw [replaced, blocks_match hmatched hne, List.map_cons, Block.left, hwritten] at h
    cases h
  | hline line ls hmatched ih =>
    rw [replaced, blocks_line hmatched, List.map_cons, ← replaced, Block.left, begins_cons] at h
    rw [begins_cons]
    split_ifs at h ⊢
    · exact ih h
    · exact h

/-- Replacing makes no new matches. -/
theorem matchLines_replaced (hvalue : pinValue written = some value) (h : matchLines ls = none) :
    matchLines (replaced written ls) = none := by
  induction ls using blocks_induction with
  | hnil =>
    rw [replaced, blocks_nil]
    rfl
  | hmatch taken rest hne hfree hmatched ih =>
    rw [hmatched] at h
    cases h
  | hline line ls hmatched ih =>
    rw [replaced, blocks_line hmatched, List.map_cons, ← replaced, Block.left]
    cases hblank : isBlank line with
    | true =>
      rw [matchLines_of_isBlank hblank] at hmatched ⊢
      exact ih hmatched
    | false =>
      rw [← Option.isNone_iff_eq_none, ← Option.not_isSome, Bool.not_eq_true', matchLines_isSome hblank] at hmatched ⊢
      cases htail : (line.dropWhile isWhitespace).dropPrefix? "pin_cores".toList with
      | none => rfl
      | some tail =>
        rw [htail, Option.any_some, begins_cons] at hmatched
        rw [Option.any_some, begins_cons]
        split_ifs at hmatched ⊢
        · rw [← Bool.not_eq_true] at hmatched ⊢
          exact fun hbegins => hmatched (begins_replaced hvalue hbegins)
        · exact hmatched

/-- Replacing a second time changes nothing. -/
theorem replaced_replaced (hvalue : pinValue written = some value) (ls : List (List Char)) :
    replaced written (replaced written ls) = replaced written ls := by
  induction ls using blocks_induction with
  | hnil => rw [replaced, replaced, blocks_nil, List.map_nil, blocks_nil, List.map_nil]
  | hmatch taken rest hne hfree hmatched ih =>
    have hagain : matchLines ([written] ++ replaced written rest) = some (replaced written rest) :=
      matchLines_of_pinValue hvalue _
    have hfirst : replaced written (taken ++ rest) = [written] ++ replaced written rest := by
      rw [replaced, blocks_match hmatched hne, List.map_cons, ← replaced]
      rfl
    rw [hfirst, replaced, blocks_match hagain (List.cons_ne_nil _ _), List.map_cons, ← replaced, ih]
    rfl
  | hline line ls hmatched ih =>
    have hagain := matchLines_replaced hvalue hmatched
    have hfirst : replaced written (line :: ls) = line :: replaced written ls := by
      rw [replaced, blocks_line hmatched, List.map_cons, ← replaced]
      rfl
    rw [hfirst] at hagain
    rw [hfirst, replaced, blocks_line hagain, List.map_cons, ← replaced, ih]
    rfl

/-! ### A text without matches -/

/-- No match begins at any line. -/
def NoPins (ls : List (List Char)) : Prop := (blocks ls).any Block.isPin = false

theorem noPins_cons : NoPins (line :: ls) ↔ matchLines (line :: ls) = none ∧ NoPins ls := by
  unfold NoPins
  cases hmatched : matchLines (line :: ls) with
  | none =>
    rw [blocks_line hmatched, List.any_cons, Block.isPin, Bool.false_or]
    exact (and_iff_right rfl).symm
  | some rest =>
    obtain ⟨taken, htaken, hne, -⟩ := matchLines_eq_some hmatched
    rw [htaken] at hmatched ⊢
    rw [blocks_match hmatched hne, List.any_cons, Block.isPin, Bool.true_or]
    exact iff_of_false Bool.true_eq_false.mp fun h => by cases h.1

theorem NoPins.replaced (h : NoPins ls) (written : List Char) : replaced written ls = ls := by
  induction ls with
  | nil => rw [Sched.replaced, blocks_nil, List.map_nil]
  | cons line ls ih =>
    obtain ⟨hnone, hrest⟩ := noPins_cons.1 h
    rw [Sched.replaced, blocks_line hnone, List.map_cons, ← Sched.replaced, ih hrest]
    rfl

theorem NoPins.pinValue (h : NoPins ls) : ∀ line ∈ ls, pinValue line = none := by
  induction ls with
  | nil => exact List.forall_mem_nil _
  | cons line ls ih =>
    obtain ⟨hnone, hrest⟩ := noPins_cons.1 h
    exact List.forall_mem_cons.2 ⟨pinValue_of_matchLines hnone, ih hrest⟩

theorem noPins_iff_pinsOf : NoPins ls ↔ pinsOf ls = [] := by
  have hpins : ∀ cpu (bs : List Block), pins cpu bs = [] ↔ bs.any Block.isPin = false := by
    intro cpu bs
    induction bs generalizing cpu with
    | nil => exact iff_of_true rfl rfl
    | cons b bs ih =>
      cases b with
      | line line => exact ih _
      | pin ls => exact iff_of_false (List.cons_ne_nil _ _) (by simp [Block.isPin])
  exact (hpins false (blocks ls)).symm

theorem not_isBlank_of_getLast? (h : line.getLast? = some ']') : isBlank line = false := by
  rw [← Bool.not_eq_true, isBlank, List.all_eq_true]
  exact fun hall => absurd (hall _ (List.mem_of_getLast? h)) (by decide)

theorem begins_insert (hsolid : isBlank line = false) (before ls rest : List (List Char)) :
    begins (before ++ line :: ls) = begins (before ++ line :: rest) := by
  induction before with
  | nil =>
    rw [List.nil_append, List.nil_append, begins_cons, begins_cons, hsolid]
    rfl
  | cons first before ih => rw [List.cons_append, List.cons_append, begins_cons, begins_cons, ih]

/-- What comes behind a line that ends in a bracket has nothing to do with the matches in front. -/
theorem matchLines_insert (before : List (List Char)) (hline : line.getLast? = some ']')
    (h : matchLines (before ++ line :: ls) = none) (rest : List (List Char)) :
    matchLines (before ++ line :: rest) = none := by
  have hsolid := not_isBlank_of_getLast? hline
  induction before with
  | nil =>
    rw [List.nil_append, ← Option.isNone_iff_eq_none, ← Option.not_isSome, Bool.not_eq_true',
      matchLines_isSome hsolid] at h ⊢
    cases htail : (line.dropWhile isWhitespace).dropPrefix? "pin_cores".toList with
    | none => rfl
    | some tail =>
      -- the bracket is behind the word, so the line that decides is this one
      have hlast : tail.getLast? = some ']' := by
        obtain ⟨c, begun, hbegun, -⟩ := exists_solid hsolid
        have hwhole : line.getLast? = (line.dropWhile isWhitespace).getLast? := by
          conv_lhs => rw [← List.takeWhile_append_dropWhile (p := isWhitespace) (l := line)]
          exact List.getLast?_append_of_ne_nil _ (by rw [hbegun]; exact List.cons_ne_nil _ _)
        rw [hwhole, dropPrefix?_eq_some.1 htail] at hline
        cases tail with
        | nil => exact absurd hline (by decide)
        | cons d tail => rwa [List.getLast?_append_of_ne_nil _ (List.cons_ne_nil _ _)] at hline
      rw [htail, Option.any_some, begins_cons, not_isBlank_of_getLast? hlast] at h
      rw [Option.any_some, begins_cons, not_isBlank_of_getLast? hlast]
      exact h
  | cons first before ih =>
    rw [List.cons_append] at h ⊢
    cases hblank : isBlank first with
    | true =>
      rw [matchLines_of_isBlank hblank] at h ⊢
      exact ih h
    | false =>
      rw [← Option.isNone_iff_eq_none, ← Option.not_isSome, Bool.not_eq_true', matchLines_isSome hblank] at h ⊢
      cases htail : (first.dropWhile isWhitespace).dropPrefix? "pin_cores".toList with
      | none => rfl
      | some tail =>
        rw [htail, Option.any_some, begins_cons] at h
        rw [Option.any_some, begins_cons, begins_insert hsolid before rest ls]
        exact h

theorem NoPins.insert (hline : line.getLast? = some ']') (h : NoPins (before ++ line :: after))
    (hvalue : Sched.pinValue written = some value) :
    Sched.replaced written (before ++ line :: written :: after) = before ++ line :: written :: after := by
  induction before with
  | nil =>
    obtain ⟨hnone, hafter⟩ := noPins_cons.1 h
    have hagain := matchLines_insert [] hline hnone (written :: after)
    have hwritten : matchLines ([written] ++ after) = some after := matchLines_of_pinValue hvalue after
    rw [List.nil_append] at hagain ⊢
    rw [Sched.replaced, blocks_line hagain, ← List.singleton_append (l := after),
      blocks_match hwritten (List.cons_ne_nil _ _), List.map_cons, List.map_cons, ← Sched.replaced,
      hafter.replaced]
    rfl
  | cons first before ih =>
    obtain ⟨hnone, hrest⟩ := noPins_cons.1 h
    have hagain := matchLines_insert (first :: before) hline hnone (written :: after)
    rw [List.cons_append] at hagain ⊢
    rw [Sched.replaced, blocks_line hagain, List.map_cons, ← Sched.replaced, ih hrest]
    rfl

theorem outside_append_state (cpu : Bool) (before rest : List (List Char)) :
    outside cpu (before ++ rest) = outside cpu before ++ outside (before.foldl inCpu cpu) rest := by
  induction before generalizing cpu with
  | nil => rfl
  | cons line before ih => rw [List.cons_append, outside, ih, outside, List.append_assoc, List.foldl_cons]

theorem cpuPins_append_state (cpu : Bool) (before rest : List (List Char)) :
    cpuPins cpu (before ++ rest) = cpuPins cpu before ++ cpuPins (before.foldl inCpu cpu) rest := by
  induction before generalizing cpu with
  | nil => rfl
  | cons line before ih => rw [List.cons_append, cpuPins, ih, cpuPins, List.append_assoc, List.foldl_cons]

theorem cpuPins_eq_nil (h : ∀ line ∈ ls, pinValue line = none) (cpu : Bool) : cpuPins cpu ls = [] := by
  induction ls generalizing cpu with
  | nil => rfl
  | cons line ls ih =>
    rw [cpuPins, h line List.mem_cons_self, ih fun other hother => h other (List.mem_cons_of_mem _ hother)]
    simp

/-- Without a header, the section does not begin. -/
theorem foldl_inCpu (h : ∀ line ∈ ls, isCpuHeader line = false) : ls.foldl inCpu false = false := by
  induction ls with
  | nil => rfl
  | cons line ls ih =>
    have hline : inCpu false line = false := by
      rw [inCpu, h line List.mem_cons_self, ite_self]
    rw [List.foldl_cons, hline]
    exact ih fun other hother => h other (List.mem_cons_of_mem _ hother)

theorem inCpu_false (line : List Char) : inCpu false line = isCpuHeader line := by
  rw [inCpu]
  split_ifs with hheader
  · rfl
  · rw [eq_comm, ← Bool.not_eq_true]
    exact fun h => hheader (isHeader_of_isCpuHeader h)

theorem infix_of_isCpuHeader (h : isCpuHeader line = true) : "[cpu]".toList <:+: line := by
  rw [isCpuHeader, beq_iff_eq] at h
  rw [← h, trimmed]
  exact (List.rdropWhile_prefix _ _).isInfix.trans (List.dropWhile_suffix _).isInfix

/-- A line put behind another one is in the section exactly if that one is the first header. -/
theorem outside_insert_iff (hbefore : ∀ other ∈ before, isCpuHeader other = false)
    (hheader : isHeader written = false) (line : List Char) (after : List (List Char)) :
    outside false (before ++ line :: written :: after) = outside false (before ++ line :: after) ↔
      isCpuHeader line = true := by
  rw [outside_append_state, outside_append_state, foldl_inCpu hbefore, outside, outside, outside,
    inCpu_of_not_isHeader hheader, inCpu_false, List.append_cancel_left_eq, List.append_cancel_left_eq]
  cases isCpuHeader line with
  | true => exact iff_of_true rfl rfl
  | false =>
    refine iff_of_false (fun h => ?_) Bool.false_ne_true
    have hlength := congrArg List.length h
    simp at hlength

/-- A header that ends in its bracket has nothing behind it. -/
theorem eq_nil_of_isCpuHeader {a b : List Char} (h : isCpuHeader (a ++ ("[cpu]".toList ++ b)) = true)
    (hlast : (a ++ ("[cpu]".toList ++ b)).getLast? = some ']') : b = [] := by
  rw [isCpuHeader, beq_iff_eq, trimmed] at h
  generalize hline : a ++ ("[cpu]".toList ++ b) = line at h hlast
  have hwhole : line.dropWhile isWhitespace =
      "[cpu]".toList ++ (line.dropWhile isWhitespace).rtakeWhile isWhitespace := by
    conv_lhs => rw [← List.rdropWhile_append_rtakeWhile (p := isWhitespace)
      (l := line.dropWhile isWhitespace), h]
  have hblanks : ∀ c ∈ (line.dropWhile isWhitespace).rtakeWhile isWhitespace, isWhitespace c = true :=
    fun c => List.mem_rtakeWhile_imp
  generalize (line.dropWhile isWhitespace).rtakeWhile isWhitespace = blanks at hwhole hblanks
  have hsplit : line = line.takeWhile isWhitespace ++ ("[cpu]".toList ++ blanks) := by
    rw [← hwhole, List.takeWhile_append_dropWhile]
  have hfront : '[' ∉ line.takeWhile isWhitespace := fun hmem =>
    absurd (List.mem_takeWhile_imp hmem) (by decide)
  have hbehind : '[' ∉ blanks := fun hmem => absurd (hblanks _ hmem) (by decide)
  -- there is one opening bracket in the line
  have hcount : line.count '[' = 1 := by
    rw [hsplit, List.count_append, List.count_append, List.count_eq_zero.2 hfront,
      List.count_eq_zero.2 hbehind]
    rfl
  have ha : '[' ∉ a := by
    rw [← hline, List.count_append, List.count_append] at hcount
    have hone : "[cpu]".toList.count '[' = 1 := rfl
    rw [← List.count_eq_zero]
    omega
  generalize line.takeWhile isWhitespace = spaces at hsplit hfront
  rw [← hline] at hsplit
  have hrest := ((append_cons_inj ha hfront).1 hsplit).2
  have hb : b = blanks := List.append_cancel_left (show "cpu]".toList ++ b = "cpu]".toList ++ blanks from hrest)
  rw [hb]
  cases hnil : blanks with
  | nil => rfl
  | cons c blanks' =>
    rw [← hline, hb, ← List.append_assoc, List.getLast?_append_of_ne_nil _ (by rw [hnil]; simp)] at hlast
    exact absurd (hblanks _ (List.mem_of_getLast? hlast)) (by decide)

/-! ### Calls -/

/-- The text behind a call. -/
def synced (pin : Bool) (text : List Char) : List Char := (updatedText pin text).getD text

theorem iniLines_encode (text : List Char) : iniLines (some (encode text)) = text.splitOn '\n' := by
  rw [iniLines, Option.bind_some, decode_encode, Option.getD_some]

theorem sync_encode (write : Write) (pin : Bool) (text : List Char) :
    syncGamemodePin write pin (some (encode text)) =
      match updatedText pin text with
      | none => (.ok false, some (encode text))
      | some updated =>
          if updated = text then (.ok false, some (encode text))
          else
            let (result, file) := atomicWriteText write updated (some (encode text))
            (result.map fun _ => true, file) := by
  have hdecode := decode_encode text
  unfold syncGamemodePin
  dsimp only
  generalize decode (encode text) = read at hdecode ⊢
  subst hdecode
  rfl

/-- A call that returns well leaves that text behind. -/
theorem sync_ok {write : Write} {changed : Bool} {text : List Char} {ini' : Option (List UInt8)}
    (h : syncGamemodePin write pin (some (encode text)) = (.ok changed, ini')) :
    ini' = some (encode (synced pin text)) := by
  rw [sync_encode] at h
  unfold synced
  cases hupdated : updatedText pin text with
  | none =>
    rw [hupdated] at h
    exact (congrArg Prod.snd h).symm
  | some updated =>
    rw [hupdated] at h
    dsimp only at h
    split_ifs at h with hsame
    · rw [Option.getD_some, hsame]
      exact (congrArg Prod.snd h).symm
    · cases write with
      | failed => cases h
      | unsynced => cases h
      | done => exact (congrArg Prod.snd h).symm

/-- A call whose write goes well returns well. -/
theorem sync_done (pin : Bool) (text : List Char) : ∃ changed,
    syncGamemodePin .done pin (some (encode text)) = (.ok changed, some (encode (synced pin text))) := by
  unfold synced
  rw [sync_encode]
  cases hupdated : updatedText pin text with
  | none => exact ⟨false, rfl⟩
  | some updated =>
    dsimp only
    split_ifs with hsame
    · exact ⟨false, by rw [Option.getD_some, hsame]⟩
    · exact ⟨true, rfl⟩

/-- A call has nothing to do exactly if it would leave the text as it is. -/
theorem sync_idle_iff (pin : Bool) (text : List Char) :
    (∀ write, syncGamemodePin write pin (some (encode text)) = (.ok false, some (encode text))) ↔
      synced pin text = text := by
  constructor
  · intro h
    have hfile := sync_ok (h .done)
    rw [Option.some_inj] at hfile
    rw [← Option.some_inj, ← decode_encode (synced pin text), ← hfile, decode_encode]
  · intro h write
    unfold synced at h
    rw [sync_encode]
    cases hupdated : updatedText pin text with
    | none => rfl
    | some updated =>
      rw [hupdated, Option.getD_some] at h
      dsimp only
      rw [if_pos h]

/-! ### Texts -/

/-- What a call is to leave of a text. -/
structure SyncsText (pin : Bool) (text text' : List Char) : Prop where
  outside : outside false (text'.splitOn '\n') = outside false (text.splitOn '\n')
  pinned : (∃ line ∈ text.splitOn '\n', isCpuHeader line = true) →
    cpuPins false (text'.splitOn '\n') ≠ [] ∧
      ∀ value ∈ cpuPins false (text'.splitOn '\n'), value = desiredPin pin
  settled : synced pin text' = text'

theorem mem_replaced (h : line ∈ replaced written ls) : line = written ∨ line ∈ ls := by
  induction ls using blocks_induction with
  | hnil =>
    rw [replaced, blocks_nil] at h
    cases h
  | hmatch taken rest hne hfree hmatched ih =>
    rw [replaced, blocks_match hmatched hne, List.map_cons, ← replaced] at h
    rcases List.mem_cons.1 h with rfl | h
    · exact .inl rfl
    · exact (ih h).imp_right (List.mem_append_right _)
  | hline other ls hmatched ih =>
    rw [replaced, blocks_line hmatched, List.map_cons, ← replaced] at h
    rcases List.mem_cons.1 h with rfl | h
    · exact .inr List.mem_cons_self
    · exact (ih h).imp_right (List.mem_cons_of_mem _)

/-- Where there is a match, the line that is written is there afterwards. -/
theorem written_mem_replaced (h : ¬ NoPins ls) (written : List Char) : written ∈ replaced written ls := by
  rw [NoPins, Bool.not_eq_false, List.any_eq_true] at h
  obtain ⟨b, hb, hpin⟩ := h
  cases b with
  | line line => cases hpin
  | pin taken => exact List.mem_map.2 ⟨.pin taken, hb, rfl⟩

theorem replaced_ne_nil (hne : ls ≠ []) : replaced written ls ≠ [] := by
  rw [replaced, Ne, List.map_eq_nil_iff, blocks_eq_nil_iff]
  exact hne

/-- What is written where the pattern matches. -/
theorem synced_of_match (hfree : ∀ line ∈ ls, '\n' ∉ line) (h : ¬ NoPins ls) (pin : Bool) :
    synced pin (join ls) = join (replaced (pinLine pin) ls) := by
  rw [NoPins, Bool.not_eq_false] at h
  rw [synced, updatedText, isMatch_join hfree, h, if_pos rfl, Option.getD_some, replaceAll_join _ hfree]

/-- Where there is a match, the matches decide. -/
theorem syncsText_of_match (hne : ls ≠ []) (hfree : ∀ line ∈ ls, '\n' ∉ line) (h : ¬ NoPins ls) (pin : Bool) :
    SyncsText pin (join ls) (synced pin (join ls)) ↔ HasPlace pin ls := by
  obtain ⟨hnewline, hheader, -, hvalue⟩ := pinLine_facts pin
  have hfree' : ∀ line ∈ replaced (pinLine pin) ls, '\n' ∉ line := by
    intro line hline
    rcases mem_replaced hline with rfl | hmem
    · exact hnewline
    · exact hfree line hmem
  have hagain : ¬ NoPins (replaced (pinLine pin) ls) := by
    intro hnone
    rw [hnone.pinValue _ (written_mem_replaced h _)] at hvalue
    cases hvalue
  have hpins : pinsOf ls ≠ [] := fun hnil => h (noPins_iff_pinsOf.2 hnil)
  have hsays : (cpuPins false (replaced (pinLine pin) ls) ≠ [] ∧
      ∀ value ∈ cpuPins false (replaced (pinLine pin) ls), value = desiredPin pin) ↔
        ∃ m ∈ pinsOf ls, m.1 = true := by
    rw [cpuPins_replaced hheader hvalue]
    constructor
    · rintro ⟨hsome, -⟩
      rw [Ne, List.map_eq_nil_iff] at hsome
      obtain ⟨m, hm⟩ := List.exists_mem_of_ne_nil _ hsome
      obtain ⟨hmem, hinside⟩ := List.mem_filter.1 hm
      exact ⟨m, hmem, hinside⟩
    · rintro ⟨m, hmem, hinside⟩
      refine ⟨?_, fun value hmem' => ?_⟩
      · rw [Ne, List.map_eq_nil_iff]
        exact List.ne_nil_of_mem (List.mem_filter.2 ⟨hmem, hinside⟩)
      · obtain ⟨-, -, rfl⟩ := List.mem_map.1 hmem'
        rfl
  rw [synced_of_match hfree h]
  constructor
  · intro hsyncs
    have houtside := hsyncs.outside
    have hpinned := hsyncs.pinned
    rw [splitOn_join (replaced_ne_nil hne) hfree', splitOn_join hne hfree] at houtside hpinned
    refine ⟨(outside_replaced hheader false ls).2.1 houtside, fun _ hsection => hsays.1 (hpinned hsection),
      fun hnil => absurd hnil hpins⟩
  · intro hplace
    refine ⟨?_, ?_, ?_⟩
    · rw [splitOn_join (replaced_ne_nil hne) hfree', splitOn_join hne hfree]
      exact (outside_replaced hheader false ls).2.2 hplace.outside
    · rw [splitOn_join (replaced_ne_nil hne) hfree', splitOn_join hne hfree]
      exact fun hsection => hsays.2 (hplace.inside hpins hsection)
    · rw [synced_of_match hfree' hagain, replaced_replaced hvalue]

theorem HasPlace.of_noPins (h : NoPins ls)
    (hheader : ∀ line ∈ ls.find? fun line => decide ("[cpu]".toList <:+: line),
      isCpuHeader line = true ∧ line.getLast? = some ']') : HasPlace pin ls where
  outside := by
    rw [noPins_iff_pinsOf.1 h]
    exact fun m hm => absurd hm List.not_mem_nil
  inside := fun hpins => absurd (noPins_iff_pinsOf.1 h) hpins
  header := fun _ => hheader

/-- A line with the pin and more behind it assigns the pin, too. -/
theorem pinValue_pinLine_append (pin : Bool) (b : List Char) :
    ∃ value, pinValue (pinLine pin ++ b) = some value := by
  obtain ⟨word, hword, hfree, htrimmed⟩ : ∃ word : List Char, "pin_cores = ".toList = word ++ ['=', ' '] ∧
      '=' ∉ word ∧ trimmed word = "pin_cores".toList :=
    ⟨"pin_cores ".toList, by decide, by decide, by decide⟩
  have hline : pinLine pin ++ b = word ++ '=' :: ' ' :: (desiredPin pin ++ b) := by
    unfold pinLine
    simp only [hword, List.append_assoc, List.cons_append, List.nil_append]
  refine ⟨trimmed (' ' :: (desiredPin pin ++ b)), ?_⟩
  rw [pinValue, hline, splitOnce_append hfree, Option.bind_some, if_pos htrimmed]

/-- Where there is none and no `[cpu]`, nothing is done. -/
theorem syncsText_of_none (hne : ls ≠ []) (hfree : ∀ line ∈ ls, '\n' ∉ line) (h : NoPins ls)
    (hnone : splitWord "[cpu]".toList (join ls) = none) (pin : Bool) :
    SyncsText pin (join ls) (synced pin (join ls)) ∧ HasPlace pin ls := by
  have hmatch : isMatch true (join ls) = false := by rw [isMatch_join hfree]; exact h
  have hsynced : synced pin (join ls) = join ls := by
    rw [synced, updatedText, hmatch, if_neg Bool.false_ne_true, hnone]
    rfl
  have hword : ∀ line ∈ ls, ¬ "[cpu]".toList <:+: line := fun line hline hinside =>
    splitWord_eq_none.1 hnone (hinside.trans (infix_join hline))
  refine ⟨⟨by rw [hsynced], ?_, by rw [hsynced, hsynced]⟩, .of_noPins h fun line hline => ?_⟩
  · rw [splitOn_join hne hfree]
    rintro ⟨line, hline, hheader⟩
    exact absurd (infix_of_isCpuHeader hheader) (hword line hline)
  · have hfound := List.find?_some hline
    exact absurd (of_decide_eq_true hfound) (hword line (List.mem_of_find?_eq_some hline))

/-- Where there is none, the first line with `[cpu]` in it decides. -/
theorem syncsText_of_word {a b : List Char} (h : NoPins (before ++ (a ++ ("[cpu]".toList ++ b)) :: after))
    (hfree : ∀ line ∈ before ++ (a ++ ("[cpu]".toList ++ b)) :: after, '\n' ∉ line)
    (hbefore : ∀ line ∈ before, ¬ "[cpu]".toList <:+: line) (hsplit : splitWord "[cpu]".toList
      (join (before ++ (a ++ ("[cpu]".toList ++ b)) :: after)) =
        some (join (before ++ [a]), join (b :: after))) (pin : Bool) :
    SyncsText pin (join (before ++ (a ++ ("[cpu]".toList ++ b)) :: after))
        (synced pin (join (before ++ (a ++ ("[cpu]".toList ++ b)) :: after))) ↔
      HasPlace pin (before ++ (a ++ ("[cpu]".toList ++ b)) :: after) := by
  obtain ⟨hnewline, hheader, -, hvalue⟩ := pinLine_facts pin
  have hne : before ++ (a ++ ("[cpu]".toList ++ b)) :: after ≠ [] := by simp
  have hmatch : isMatch true (join (before ++ (a ++ ("[cpu]".toList ++ b)) :: after)) = false := by
    rw [isMatch_join hfree]
    exact h
  have hfind : (before ++ (a ++ ("[cpu]".toList ++ b)) :: after).find?
      (fun line => decide ("[cpu]".toList <:+: line)) = some (a ++ ("[cpu]".toList ++ b)) := by
    rw [List.find?_append, List.find?_eq_none.2 (by simpa using hbefore), Option.none_or,
      List.find?_cons_of_pos]
    exact decide_eq_true ⟨a, b, by rw [List.append_assoc]⟩
  have hcpu : ∀ line ∈ before, isCpuHeader line = false := by
    intro line hline
    rw [← Bool.not_eq_true]
    exact fun hsection => hbefore line hline (infix_of_isCpuHeader hsection)
  have hsynced : synced pin (join (before ++ (a ++ ("[cpu]".toList ++ b)) :: after)) =
      join (before ++ (a ++ "[cpu]".toList) :: (pinLine pin ++ b) :: after) := by
    have hword : "[cpu]\n".toList = "[cpu]".toList ++ ['\n'] := rfl
    rw [synced, updatedText, hmatch, if_neg Bool.false_ne_true, hsplit, Option.map_some, Option.getD_some,
      join_append_append, ← join_newline]
    congr 3
    rw [hword]
    simp only [List.append_assoc, List.cons_append, List.nil_append]
  have hfree' : ∀ line ∈ before ++ (a ++ "[cpu]".toList) :: (pinLine pin ++ b) :: after, '\n' ∉ line := by
    have hline := hfree (a ++ ("[cpu]".toList ++ b)) (by simp)
    rw [List.mem_append, List.mem_append, not_or, not_or] at hline
    intro line hmem
    rcases List.mem_append.1 hmem with hmem | hmem
    · exact hfree line (List.mem_append_left _ hmem)
    · rcases List.mem_cons.1 hmem with rfl | hmem
      · rw [List.mem_append, not_or]
        exact ⟨hline.1, hline.2.1⟩
      · rcases List.mem_cons.1 hmem with rfl | hmem
        · rw [List.mem_append, not_or]
          exact ⟨hnewline, hline.2.2⟩
        · exact hfree line (List.mem_append_right _ (List.mem_cons_of_mem _ hmem))
  have hne' : before ++ (a ++ "[cpu]".toList) :: (pinLine pin ++ b) :: after ≠ [] := by simp
  have hpin : ¬ NoPins (before ++ (a ++ "[cpu]".toList) :: (pinLine pin ++ b) :: after) := by
    intro hnone
    obtain ⟨value, hsome⟩ := pinValue_pinLine_append pin b
    rw [hnone.pinValue (pinLine pin ++ b) (by simp)] at hsome
    cases hsome
  constructor
  · rintro ⟨houtside, -, hsettled⟩
    rw [hsynced, synced_of_match hfree' hpin] at hsettled
    have hsame := congrArg (List.splitOn '\n') hsettled
    rw [splitOn_join hne' hfree', splitOn_join (replaced_ne_nil hne') fun line hline =>
      (mem_replaced hline).elim (fun heq => heq ▸ hnewline) (hfree' line)] at hsame
    -- what stands behind the header goes with the second call
    have hb : b = [] := by
      obtain ⟨value, hsome⟩ := pinValue_pinLine_append pin b
      have hmem : pinLine pin ++ b ∈ before ++ (a ++ "[cpu]".toList) :: (pinLine pin ++ b) :: after := by simp
      rw [← hsame] at hmem
      simpa using eq_written_of_mem_replaced hmem hsome
    subst hb
    rw [hsynced, splitOn_join hne' hfree', splitOn_join hne hfree] at houtside
    simp only [List.append_nil] at houtside hfind h ⊢
    refine .of_noPins h fun line hline => ?_
    rw [hfind, Option.mem_some_iff] at hline
    subst hline
    refine ⟨(outside_insert_iff hcpu hheader _ _).1 houtside, ?_⟩
    rw [List.getLast?_append_of_ne_nil _ (by decide)]
    rfl
  · intro hplace
    obtain ⟨hsection, hlast⟩ := hplace.header (noPins_iff_pinsOf.1 h) _ hfind
    obtain rfl := eq_nil_of_isCpuHeader hsection hlast
    simp only [List.append_nil] at hfree' hpin hne' hsection hlast h hne hfree hsynced ⊢
    rw [hsynced]
    refine ⟨?_, fun _ => ?_, ?_⟩
    · rw [splitOn_join hne' hfree', splitOn_join hne hfree]
      exact (outside_insert_iff hcpu hheader _ _).2 hsection
    · have hnone := h.pinValue
      have hpins : cpuPins false (before ++ (a ++ "[cpu]".toList) :: pinLine pin :: after) =
          [desiredPin pin] := by
        rw [cpuPins_append_state, foldl_inCpu hcpu, cpuPins, cpuPins, inCpu_false, hsection,
          inCpu_of_not_isHeader hheader, hvalue, hnone _ (by simp),
          cpuPins_eq_nil fun line hline => hnone line (List.mem_append_left _ hline),
          cpuPins_eq_nil fun line hline => hnone line (by simp [hline])]
        rfl
      rw [splitOn_join hne' hfree', hpins]
      exact ⟨List.cons_ne_nil _ _, fun value hmem => List.mem_singleton.1 hmem⟩
    · rw [synced_of_match hfree' hpin, h.insert hlast hvalue]

theorem syncsText_iff (pin : Bool) (text : List Char) :
    SyncsText pin text (synced pin text) ↔ HasPlace pin (text.splitOn '\n') := by
  have hfree : ∀ line ∈ text.splitOn '\n', '\n' ∉ line := fun line => PathText.not_mem_of_mem_splitOn
  have hne := List.splitOn_ne_nil '\n' text
  conv_lhs => rw [← join_splitOn text]
  by_cases h : NoPins (text.splitOn '\n')
  · cases hsplit : splitWord "[cpu]".toList (join (text.splitOn '\n')) with
    | none =>
      obtain ⟨hsyncs, hplace⟩ := syncsText_of_none hne hfree h hsplit pin
      exact iff_of_true hsyncs hplace
    | some parts =>
      obtain ⟨before, a, b, after, hlines, hbefore, hfront, hback⟩ :=
        splitWord_join (by decide) hne hfree hsplit
      obtain ⟨front, back⟩ := parts
      dsimp only at hfront hback
      rw [hfront, hback] at hsplit
      rw [hlines] at hfree h hsplit ⊢
      exact syncsText_of_word h hfree hbefore hsplit pin
  · exact syncsText_of_match hne hfree h pin

theorem syncs_encode_iff (pin : Bool) (text text' : List Char) :
    Syncs pin (some (encode text)) (some (encode text')) ↔ SyncsText pin text text' := by
  constructor
  · rintro ⟨houtside, hpinned, hsettled⟩
    rw [iniLines_encode, iniLines_encode] at houtside hpinned
    exact ⟨houtside, hpinned, (sync_idle_iff pin text').1 hsettled⟩
  · rintro ⟨houtside, hpinned, hsettled⟩
    refine ⟨?_, ?_, (sync_idle_iff pin text').2 hsettled⟩
    · rwa [iniLines_encode, iniLines_encode]
    · rwa [iniLines_encode, iniLines_encode]

/-- The pin finds its place in a file, with nothing else changed and nothing left to do, exactly if the file
has the place for it. -/
theorem syncs_iff (pin : Bool) (ini : Option (List UInt8)) :
    (∀ write changed ini', syncGamemodePin write pin ini = (.ok changed, ini') → Syncs pin ini ini') ↔
      ∀ text, ini.bind decode = some text → HasPlace pin (text.splitOn '\n') := by
  cases ini with
  | none =>
    refine iff_of_true (fun write changed ini' h => ?_) fun text htext => by cases htext
    cases h
    refine ⟨rfl, ?_, fun write => rfl⟩
    rintro ⟨line, hline, hheader⟩
    rw [List.mem_singleton.1 (show line ∈ [[]] from hline)] at hheader
    exact absurd hheader (by decide)
  | some bytes =>
    rw [Option.bind_some]
    cases htext : decode bytes with
    | none =>
      refine iff_of_true (fun write changed ini' h => ?_) fun text htext => by cases htext
      unfold syncGamemodePin at h
      simp only [htext] at h
      cases h
    | some text =>
      rw [decode_eq_some.1 htext]
      constructor
      · rintro h text' ⟨⟩
        obtain ⟨changed, hdone⟩ := sync_done pin text
        exact (syncsText_iff pin text).1 ((syncs_encode_iff pin text _).1 (h .done changed _ hdone))
      · intro h write changed ini' hsync
        rw [sync_ok hsync]
        exact (syncs_encode_iff pin text _).2 ((syncsText_iff pin text).2 (h text rfl))

/-- The pattern rewrites a key of the same name in another section, and leaves `[cpu]` without one. -/
theorem other_section_is_rewritten :
    ¬ ∀ write changed ini', syncGamemodePin write false
        (some (encode "[general]\npin_cores = yes\n[cpu]\n".toList)) = (.ok changed, ini') →
      Syncs false (some (encode "[general]\npin_cores = yes\n[cpu]\n".toList)) ini' := by
  intro h
  obtain ⟨changed, hdone⟩ := sync_done false "[general]\npin_cores = yes\n[cpu]\n".toList
  have houtside := (h .done changed _ hdone).outside
  rw [iniLines_encode, iniLines_encode] at houtside
  revert houtside
  decide

end Kyth.Sched

import Kyth.Sched.GamemodePin

/-!
# The pin, line by line (`system/scheduler_arbiter.rs`)

A match of the pattern begins at a line and ends with one: it takes blank lines in front of `pin_cores`
with it, and the line with the `=` may be a later one. So a text falls into lines and matches
(`blocks`), and replacing writes one line for every match (`replaceAll_join`).
-/

namespace Kyth.Sched

open JoinedLines SplitOnce Str Trim

variable {ls rest before after : List (List Char)} {line written : List Char} {n : ℕ}

def isBlank (line : List Char) : Bool := line.all isWhitespace

/-- The lines behind a match that begins with the first line. -/
def matchLines (ls : List (List Char)) : Option (List (List Char)) :=
  match ls.dropWhile isBlank with
  | [] => none
  | line :: ls =>
      match (line.dropWhile isWhitespace).dropPrefix? "pin_cores".toList with
      | none => none
      | some tail =>
          match (tail :: ls).dropWhile isBlank with
          | [] => none
          | line :: ls => if (line.dropWhile isWhitespace).head? = some '=' then some ls else none

/-- A line, or the lines of a match. -/
inductive Block
  | line (line : List Char)
  | pin (ls : List (List Char))

def Block.lines : Block → List (List Char)
  | .line line => [line]
  | .pin ls => ls

def Block.isPin : Block → Bool
  | .line _ => false
  | .pin _ => true

/-- The line that is left of a block. -/
def Block.left (written : List Char) : Block → List Char
  | .line line => line
  | .pin _ => written

/-! ### Matches -/

theorem not_blank_of_dropWhile {line : List Char} {ls : List (List Char)}
    (h : rest.dropWhile isBlank = line :: ls) : isBlank line = false := by
  have hhead := List.head?_dropWhile_not isBlank rest
  rw [h] at hhead
  simpa using hhead

/-- A line that is not blank begins with a character that is not white space, behind some that are. -/
theorem exists_solid (h : isBlank line = false) :
    ∃ c rest, line.dropWhile isWhitespace = c :: rest ∧ isWhitespace c = false := by
  cases hdrop : line.dropWhile isWhitespace with
  | nil =>
    rw [List.dropWhile_eq_nil_iff] at hdrop
    rw [isBlank, List.all_eq_true.2 hdrop] at h
    cases h
  | cons c rest =>
    have hhead := List.head?_dropWhile_not isWhitespace line
    rw [hdrop] at hhead
    exact ⟨c, rest, rfl, by simpa using hhead⟩

theorem not_isHeader_of_solid {c : Char} {rest : List Char} (h : line.dropWhile isWhitespace = c :: rest)
    (hc : isWhitespace c = false) (hne : c ≠ '[') : isHeader line = false := by
  have htrimmed : trimmed line = c :: rest.rdropWhile isWhitespace := by
    rw [trimmed, h]
    exact rdropWhile_append_cons hc [] rest
  rw [isHeader, htrimmed]
  simp [hne]

theorem not_isHeader_of_isBlank (h : isBlank line = true) : isHeader line = false := by
  have hdrop : line.dropWhile isWhitespace = [] := List.dropWhile_eq_nil_iff.2 (List.all_eq_true.1 h)
  rw [isHeader, trimmed, hdrop]
  rfl

/-- What a match takes: some lines, none of them a header. -/
theorem matchLines_eq_some (h : matchLines ls = some rest) :
    ∃ taken, ls = taken ++ rest ∧ taken ≠ [] ∧ ∀ line ∈ taken, isHeader line = false := by
  have hblank : ∀ (ls : List (List Char)) (line : List Char), line ∈ ls.takeWhile isBlank →
      isHeader line = false := fun ls line hline => not_isHeader_of_isBlank (List.mem_takeWhile_imp hline)
  unfold matchLines at h
  split at h
  · cases h
  · rename_i first more hfirst
    have hls : ls = ls.takeWhile isBlank ++ first :: more := by
      rw [← hfirst, List.takeWhile_append_dropWhile]
    split at h
    · cases h
    · rename_i tail htail
      obtain ⟨c, begun, hbegun, hc⟩ := exists_solid (not_blank_of_dropWhile hfirst)
      have hheader : isHeader first = false := by
        rw [dropPrefix?_eq_some, hbegun] at htail
        refine not_isHeader_of_solid hbegun hc ?_
        rintro rfl
        cases htail
      split at h
      · cases h
      · rename_i last ls' hlast
        split_ifs at h with hequals
        cases h
        cases hskip : isBlank tail with
        | false =>
          rw [List.dropWhile_cons_of_neg (by simp [hskip])] at hlast
          cases hlast
          refine ⟨ls.takeWhile isBlank ++ [first], by simpa using hls, by simp, fun line hline => ?_⟩
          rcases List.mem_append.1 hline with hline | hline
          · exact hblank ls line hline
          · rwa [List.mem_singleton.1 hline]
        | true =>
          rw [List.dropWhile_cons_of_pos hskip] at hlast
          have hmore : more = more.takeWhile isBlank ++ last :: rest := by
            rw [← hlast, List.takeWhile_append_dropWhile]
          refine ⟨ls.takeWhile isBlank ++ first :: (more.takeWhile isBlank ++ [last]), ?_, by simp,
            fun line hline => ?_⟩
          · conv_lhs => rw [hls, hmore]
            simp
          · rcases List.mem_append.1 hline with hline | hline
            · exact hblank ls line hline
            · rcases List.mem_cons.1 hline with rfl | hline
              · exact hheader
              · rcases List.mem_append.1 hline with hline | hline
                · exact hblank more line hline
                · rw [List.mem_singleton.1 hline]
                  obtain ⟨d, end', hend, hd⟩ := exists_solid (not_blank_of_dropWhile hlast)
                  refine not_isHeader_of_solid hend hd ?_
                  rw [hend] at hequals
                  cases hequals
                  decide

theorem length_of_matchLines (h : matchLines ls = some rest) : rest.length < ls.length := by
  obtain ⟨taken, rfl, hne, -⟩ := matchLines_eq_some h
  have hpos := List.length_pos_iff.2 hne
  rw [List.length_append]
  omega

/-- A match of the pattern at the beginning of a text, line by line. -/
theorem pinMatch_join (hfree : ∀ line ∈ ls, '\n' ∉ line) :
    pinMatch (join ls) = (matchLines ls).map behindLine := by
  have hspace : isWhitespace '\n' = true := by decide
  have hall : (fun line => line.all isWhitespace) = isBlank := rfl
  have hword : '\n' ∉ "pin_cores".toList := by decide
  unfold pinMatch matchLines
  rw [dropWhile_join hspace, hall]
  cases hfirst : ls.dropWhile isBlank with
  | nil => rfl
  | cons first more =>
    have hmem : ∀ line ∈ first :: more, '\n' ∉ line := fun line hline =>
      hfree line ((List.dropWhile_suffix isBlank).subset (hfirst ▸ hline))
    dsimp only
    rw [dropPrefix?_join hword]
    cases htail : (first.dropWhile isWhitespace).dropPrefix? "pin_cores".toList with
    | none => rfl
    | some tail =>
      have hfreeTail : '\n' ∉ tail := by
        intro hin
        refine hmem first List.mem_cons_self ((List.dropWhile_suffix isWhitespace).subset ?_)
        rw [dropPrefix?_eq_some.1 htail]
        exact List.mem_append_right _ hin
      have hmem' : ∀ line ∈ tail :: more, '\n' ∉ line := by
        intro line hline
        rcases List.mem_cons.1 hline with rfl | hline
        · exact hfreeTail
        · exact hmem line (List.mem_cons_of_mem _ hline)
      rw [Option.map_some]
      dsimp only
      rw [dropWhile_join hspace, hall]
      cases hlast : (tail :: more).dropWhile isBlank with
      | nil => rfl
      | cons last ls' =>
        obtain ⟨c, end', hend, hc⟩ := exists_solid (not_blank_of_dropWhile hlast)
        have hfreeLast : '\n' ∉ last := hmem' last ((List.dropWhile_suffix isBlank).subset
          (hlast ▸ List.mem_cons_self))
        have hfreeEnd : '\n' ∉ end' := fun hin => hfreeLast
          ((List.dropWhile_suffix isWhitespace).subset (hend ▸ List.mem_cons_of_mem _ hin))
        dsimp only
        rw [hend, join_cons, List.cons_append, List.head?_cons]
        dsimp only
        rw [← join_cons, dropWhile_ne_newline hfreeEnd]
        by_cases hequals : c = '='
        · rw [if_pos hequals, if_pos (congrArg some hequals), Option.map_some]
        · rw [if_neg hequals, if_neg (fun h => hequals (Option.some.inj h)), Option.map_none]

/-! ### Blocks -/

/-- The lines and the matches of a text. -/
def blocks : List (List Char) → List Block
  | [] => []
  | line :: ls =>
      match _h : matchLines (line :: ls) with
      | some rest => .pin ((line :: ls).take ((line :: ls).length - rest.length)) :: blocks rest
      | none => .line line :: blocks ls
termination_by ls => ls.length
decreasing_by
  · exact length_of_matchLines _h
  · exact Nat.lt_succ_self _

@[simp] theorem blocks_nil : blocks [] = [] := by rw [blocks]

theorem blocks_match {taken : List (List Char)} (h : matchLines (taken ++ rest) = some rest)
    (hne : taken ≠ []) : blocks (taken ++ rest) = .pin taken :: blocks rest := by
  obtain ⟨line, ls, hls⟩ := List.exists_cons_of_ne_nil (l := taken ++ rest) (by simp [hne])
  have htake : (line :: ls).take ((line :: ls).length - rest.length) = taken := by
    rw [← hls, List.length_append, Nat.add_sub_cancel, List.take_left]
  rw [hls] at h ⊢
  rw [blocks]
  split
  · rename_i rest' hrest'
    rw [h] at hrest'
    cases hrest'
    rw [htake]
  · rename_i hnone
    rw [h] at hnone
    cases hnone

theorem blocks_line (h : matchLines (line :: ls) = none) : blocks (line :: ls) = .line line :: blocks ls := by
  rw [blocks]
  split
  · rename_i rest hrest
    rw [h] at hrest
    cases hrest
  · rfl

/-- A proof about the blocks of a text goes from the last one to the first one. -/
theorem blocks_induction {P : List (List Char) → Prop} (hnil : P [])
    (hmatch : ∀ taken rest, taken ≠ [] → (∀ line ∈ taken, isHeader line = false) →
      matchLines (taken ++ rest) = some rest → P rest → P (taken ++ rest))
    (hline : ∀ line ls, matchLines (line :: ls) = none → P ls → P (line :: ls)) (ls : List (List Char)) :
    P ls := by
  induction hn : ls.length using Nat.strong_induction_on generalizing ls with
  | _ n ih =>
    cases ls with
    | nil => exact hnil
    | cons line ls =>
      cases hmatched : matchLines (line :: ls) with
      | none => exact hline line ls hmatched (ih ls.length (by simp [← hn]) ls rfl)
      | some rest =>
        obtain ⟨taken, hls, hne, hheader⟩ := matchLines_eq_some hmatched
        have hlt := length_of_matchLines hmatched
        rw [hls] at hmatched ⊢
        exact hmatch taken rest hne hheader hmatched (ih rest.length (by omega) rest rfl)

theorem blocks_eq_nil_iff : blocks ls = [] ↔ ls = [] := by
  induction ls using blocks_induction with
  | hnil => simp
  | hmatch taken rest hne _ hmatched _ => simp [blocks_match hmatched hne, hne]
  | hline line ls hmatched _ => simp [blocks_line hmatched]

/-- The lines that are written. -/
def replaced (written : List Char) (ls : List (List Char)) : List (List Char) :=
  (blocks ls).map (Block.left written)

/-! ### Replacing -/

/-- Inside a line nothing is replaced. -/
theorem replaceFrom_copy (hfree : '\n' ∉ line) (rest : List Char) :
    replaceFrom written (line.length + n) false (line ++ rest) = line ++ replaceFrom written n false rest := by
  induction line with
  | nil => rw [List.length_nil, Nat.zero_add, List.nil_append, List.nil_append]
  | cons c line ih =>
    rw [List.mem_cons, not_or] at hfree
    have hc : (c == '\n') = false := beq_false_of_ne (Ne.symm hfree.1)
    rw [List.length_cons, Nat.add_right_comm, List.cons_append, replaceFrom]
    simp only [Bool.false_eq_true, if_false, hc, ih hfree.2, List.cons_append]

/-- A line end is kept, and a match may begin behind it. -/
theorem replaceFrom_behindLine (hne : ls ≠ []) :
    replaceFrom written (n + 1) false (behindLine ls) = '\n' :: replaceFrom written n true (join ls) := by
  obtain ⟨line, ls, rfl⟩ := List.exists_cons_of_ne_nil hne
  rw [behindLine_cons, replaceFrom]
  simp only [Bool.false_eq_true, if_false, beq_self_eq_true]

theorem replaceFrom_nil (written : List Char) (n : ℕ) (atLine : Bool) : replaceFrom written n atLine [] = [] := by
  have hnone : pinMatch [] = none := rfl
  cases n with
  | zero => rfl
  | succ n =>
    rw [replaceFrom, hnone, ite_self]

theorem replaceFrom_succ (written : List Char) (n : ℕ) (atLine : Bool) (text : List Char) :
    replaceFrom written (n + 1) atLine text =
      match if atLine then pinMatch text else none with
      | some rest => written ++ replaceFrom written n false rest
      | none =>
          match text with
          | [] => []
          | c :: rest => c :: replaceFrom written n (c == '\n') rest := rfl

/-- Where no match begins, the beginning of a line is like any other place. -/
theorem replaceFrom_of_none {text : List Char} (h : pinMatch text = none) :
    replaceFrom written (n + 1) true text = replaceFrom written (n + 1) false text := by
  rw [replaceFrom_succ, replaceFrom_succ, h, ite_self, ite_self]

theorem length_of_pinMatch {text behind : List Char} (h : pinMatch text = some behind) :
    behind.length + 1 ≤ text.length := by
  have hsuffix : ∀ (p : Char → Bool) (text : List Char), (text.dropWhile p).length ≤ text.length :=
    fun p text => (List.dropWhile_suffix p).length_le
  unfold pinMatch at h
  split at h
  · cases h
  · rename_i tail htail
    split at h
    · cases h
    · rename_i c last hlast
      split_ifs at h
      cases h
      have hfirst := hsuffix isWhitespace text
      have hrest := hsuffix isWhitespace tail
      have hend := hsuffix (· != '\n') last
      rw [dropPrefix?_eq_some.1 htail, List.length_append] at hfirst
      rw [hlast, List.length_cons] at hrest
      omega

/-- Behind a line the text goes on. -/
theorem replaceFrom_behind (ih : ∀ n, (join ls).length < n →
      replaceFrom written n true (join ls) = join (replaced written ls))
    (hn : (behindLine ls).length < n) :
    replaceFrom written n false (behindLine ls) = behindLine (replaced written ls) := by
  by_cases hne : ls = []
  · subst hne
    rw [behindLine_nil, replaceFrom_nil, replaced, blocks_nil, List.map_nil, behindLine_nil]
  · have hbehind : behindLine ls = '\n' :: join ls := if_neg hne
    have hreplaced : replaced written ls ≠ [] := by
      rw [replaced, Ne, List.map_eq_nil_iff, blocks_eq_nil_iff]
      exact hne
    rw [hbehind, List.length_cons] at hn
    obtain ⟨n, rfl⟩ := Nat.exists_eq_succ_of_ne_zero (Nat.ne_zero_of_lt hn)
    rw [replaceFrom_behindLine hne, ih n (by omega)]
    exact (if_neg hreplaced).symm

/-- Replacing in a text writes one line for each match. -/
theorem replaceFrom_join (hfree : ∀ line ∈ ls, '\n' ∉ line) (hn : (join ls).length < n) :
    replaceFrom written n true (join ls) = join (replaced written ls) := by
  induction ls using blocks_induction generalizing n with
  | hnil => rw [join_nil, replaceFrom_nil, replaced, blocks_nil, List.map_nil, join_nil]
  | hmatch taken rest hne hheader hmatched ih =>
    have hfreeRest : ∀ line ∈ rest, '\n' ∉ line := fun line hline => hfree line (List.mem_append_right _ hline)
    have hpin : pinMatch (join (taken ++ rest)) = some (behindLine rest) := by
      rw [pinMatch_join hfree, hmatched, Option.map_some]
    have hlength := length_of_pinMatch hpin
    obtain ⟨n, rfl⟩ := Nat.exists_eq_succ_of_ne_zero (Nat.ne_zero_of_lt hn)
    rw [replaceFrom_succ, if_pos rfl, hpin]
    dsimp only
    rw [replaceFrom_behind (fun n hn => ih hfreeRest hn) (by omega), replaced, replaced,
      blocks_match hmatched hne, List.map_cons, join_cons]
    rfl
  | hline line ls hmatched ih =>
    have hfreeRest : ∀ line ∈ ls, '\n' ∉ line := fun line hline => hfree line (List.mem_cons_of_mem _ hline)
    have hpin : pinMatch (join (line :: ls)) = none := by
      rw [pinMatch_join hfree, hmatched, Option.map_none]
    have hlength : (join (line :: ls)).length = line.length + (behindLine ls).length := by
      rw [join_cons, List.length_append]
    obtain ⟨n, rfl⟩ := Nat.exists_eq_succ_of_ne_zero (Nat.ne_zero_of_lt hn)
    obtain ⟨k, hk⟩ := Nat.exists_eq_add_of_le (show line.length ≤ n + 1 by omega)
    rw [replaceFrom_of_none hpin, hk, join_cons, replaceFrom_copy (hfree line List.mem_cons_self),
      replaceFrom_behind (fun n hn => ih hfreeRest hn) (by omega), replaced, replaced,
      blocks_line hmatched, List.map_cons, join_cons]
    rfl

theorem replaceAll_join (written : List Char) (hfree : ∀ line ∈ ls, '\n' ∉ line) :
    replaceAll written (join ls) = join (replaced written ls) :=
  replaceFrom_join hfree (Nat.lt_succ_self _)

theorem isMatch_copy (hfree : '\n' ∉ line) (rest : List Char) :
    isMatch false (line ++ rest) = isMatch false rest := by
  induction line with
  | nil => rfl
  | cons c line ih =>
    rw [List.mem_cons, not_or] at hfree
    have hc : (c == '\n') = false := beq_false_of_ne (Ne.symm hfree.1)
    rw [List.cons_append, isMatch, Bool.false_and, Bool.false_or, hc, ih hfree.2]

theorem isMatch_behindLine (ls : List (List Char)) :
    isMatch false (behindLine ls) = if ls = [] then false else isMatch true (join ls) := by
  cases ls with
  | nil => rfl
  | cons line ls =>
    rw [behindLine_cons, isMatch, Bool.false_and, Bool.false_or, if_neg (List.cons_ne_nil _ _)]
    rfl

/-- The pattern matches somewhere if and only if one of the blocks is a match. -/
theorem isMatch_join (hfree : ∀ line ∈ ls, '\n' ∉ line) :
    isMatch true (join ls) = (blocks ls).any Block.isPin := by
  induction ls using blocks_induction with
  | hnil =>
    rw [blocks_nil]
    rfl
  | hmatch taken rest hne hheader hmatched ih =>
    have hpin : pinMatch (join (taken ++ rest)) = some (behindLine rest) := by
      rw [pinMatch_join hfree, hmatched, Option.map_some]
    rw [blocks_match hmatched hne, List.any_cons]
    have hlength := length_of_pinMatch hpin
    cases htext : join (taken ++ rest) with
    | nil =>
      rw [htext] at hlength
      cases hlength
    | cons c text =>
      rw [isMatch, ← htext, hpin]
      rfl
  | hline line ls hmatched ih =>
    have hpin : pinMatch (join (line :: ls)) = none := by
      rw [pinMatch_join hfree, hmatched, Option.map_none]
    have hnone : isMatch true (join (line :: ls)) = isMatch false (join (line :: ls)) := by
      cases htext : join (line :: ls) with
      | nil => rfl
      | cons c text => rw [isMatch, isMatch, ← htext, hpin, Option.isSome_none, Bool.and_false, Bool.and_false]
    rw [hnone, join_cons, isMatch_copy (hfree line List.mem_cons_self), isMatch_behindLine,
      blocks_line hmatched, List.any_cons, Block.isPin, Bool.false_or]
    split_ifs with hnil
    · rw [hnil, blocks_nil]
      rfl
    · exact ih fun line hline => hfree line (List.mem_cons_of_mem _ hline)

end Kyth.Sched

import Kyth.Lib.PathText
import Kyth.Lib.SplitOnce

/-!
# Lines joined to a text

A text is its lines with a newline between any two of them. What is done to the beginning of a text is done
to its first lines: skipping white space skips lines (`dropWhile_join`), and a word is in one of the lines
(`splitWord_join`).
-/

namespace Kyth.JoinedLines

open SplitOnce

variable {ls before after : List (List Char)} {line front back word text : List Char} {p : Char → Bool}

/-- The lines with a newline between any two of them. -/
def join (ls : List (List Char)) : List Char := ['\n'].intercalate ls

/-- The lines behind a line, as text. -/
def behindLine (ls : List (List Char)) : List Char := if ls = [] then [] else '\n' :: join ls

@[simp] theorem join_nil : join [] = [] := rfl

@[simp] theorem behindLine_nil : behindLine [] = [] := rfl

theorem behindLine_cons (line : List Char) (ls : List (List Char)) :
    behindLine (line :: ls) = '\n' :: join (line :: ls) := if_neg (List.cons_ne_nil _ _)

theorem join_cons (line : List Char) (ls : List (List Char)) : join (line :: ls) = line ++ behindLine ls := by
  cases ls with
  | nil => rw [join, List.intercalate_singleton, behindLine_nil, List.append_nil]
  | cons next ls =>
    rw [behindLine_cons, join, List.intercalate_cons_cons, List.append_assoc]
    rfl

@[simp] theorem join_splitOn (text : List Char) : join (text.splitOn '\n') = text :=
  List.intercalate_splitOn '\n'

theorem splitOn_join (hne : ls ≠ []) (hfree : ∀ line ∈ ls, '\n' ∉ line) : (join ls).splitOn '\n' = ls :=
  List.splitOn_intercalate _ hfree hne

/-- What stands between two texts stands in the line where they meet. -/
theorem join_append_append (before : List (List Char)) (front word back : List Char)
    (after : List (List Char)) :
    join (before ++ [front]) ++ (word ++ join (back :: after)) =
      join (before ++ (front ++ (word ++ back)) :: after) := by
  induction before with
  | nil =>
    rw [List.nil_append, List.nil_append, join_cons, join_cons, join_cons, behindLine_nil]
    simp only [List.append_nil, List.append_assoc]
  | cons first before ih =>
    rw [List.cons_append, List.cons_append, join_cons first, join_cons first]
    obtain ⟨next, ls, hls⟩ := List.exists_cons_of_ne_nil (l := before ++ [front]) (by simp)
    obtain ⟨next', ls', hls'⟩ :=
      List.exists_cons_of_ne_nil (l := before ++ (front ++ (word ++ back)) :: after) (by simp)
    have hbehind : behindLine (before ++ [front]) = '\n' :: join (before ++ [front]) := by
      rw [hls, behindLine_cons]
    have hbehind' : behindLine (before ++ (front ++ (word ++ back)) :: after) =
        '\n' :: join (before ++ (front ++ (word ++ back)) :: after) := by
      rw [hls', behindLine_cons]
    rw [hbehind, hbehind', ← ih, List.append_assoc, List.cons_append]

/-- A newline in a line makes two lines of it. -/
theorem join_newline (before : List (List Char)) (front back : List Char) (after : List (List Char)) :
    join (before ++ (front ++ '\n' :: back) :: after) = join (before ++ front :: back :: after) := by
  induction before with
  | nil => rw [List.nil_append, List.nil_append, join_cons, join_cons, behindLine_cons, join_cons,
      List.append_assoc, List.cons_append]
  | cons first before ih =>
    rw [List.cons_append, List.cons_append, join_cons first, join_cons first, behindLine, behindLine,
      if_neg (by simp), if_neg (by simp), ih]

/-- A line is part of the text. -/
theorem infix_join (h : line ∈ ls) : line <:+: join ls := by
  induction ls with
  | nil => cases h
  | cons first ls ih =>
    rw [join_cons]
    rcases List.mem_cons.1 h with rfl | h
    · exact (List.prefix_append _ _).isInfix
    · have hbehind : behindLine ls = '\n' :: join ls := if_neg (List.ne_nil_of_mem h)
      rw [hbehind]
      exact (ih h).trans ((List.suffix_cons _ _).trans (List.suffix_append _ _)).isInfix

/-! ### The beginning of a text -/

/-- Skipping characters, newlines among them, skips lines. -/
theorem dropWhile_join (hp : p '\n' = true) (ls : List (List Char)) :
    (join ls).dropWhile p =
      match ls.dropWhile fun line => line.all p with
      | [] => []
      | line :: ls => join (line.dropWhile p :: ls) := by
  induction ls with
  | nil => rfl
  | cons line ls ih =>
    rw [join_cons]
    by_cases hall : line.all p = true
    · have hskip : (line :: ls).dropWhile (fun line => line.all p) = ls.dropWhile fun line => line.all p :=
        List.dropWhile_cons_of_pos hall
      rw [hskip, List.dropWhile_append_of_pos (List.all_eq_true.1 hall), ← ih]
      cases ls with
      | nil => rfl
      | cons next ls => rw [behindLine_cons, List.dropWhile_cons_of_pos hp]
    · have hrest : line.dropWhile p ≠ [] := by
        rw [Ne, List.dropWhile_eq_nil_iff]
        simpa [List.all_eq_true] using hall
      have hstop : (line :: ls).dropWhile (fun line => line.all p) = line :: ls :=
        List.dropWhile_cons_of_neg hall
      rw [hstop]
      dsimp only
      rw [join_cons, List.dropWhile_append, if_neg (by simpa using hrest)]

/-- Up to a newline, a text is its first line. -/
theorem dropWhile_ne_newline (hfree : '\n' ∉ line) (ls : List (List Char)) :
    (join (line :: ls)).dropWhile (· != '\n') = behindLine ls := by
  have hall : ∀ c ∈ line, (c != '\n') = true := by
    intro c hc
    rw [bne_iff_ne]
    rintro rfl
    exact hfree hc
  rw [join_cons, List.dropWhile_append_of_pos hall]
  cases ls with
  | nil => rfl
  | cons next ls => rw [behindLine_cons, List.dropWhile_cons_of_neg (by simp)]

/-- A word at the beginning of a text is at the beginning of its first line. -/
theorem dropPrefix?_join (hword : '\n' ∉ word) (line : List Char) (ls : List (List Char)) :
    (join (line :: ls)).dropPrefix? word = (line.dropPrefix? word).map fun rest => join (rest :: ls) := by
  cases hline : line.dropPrefix? word with
  | some rest =>
    rw [Option.map_some, dropPrefix?_eq_some, join_cons, join_cons, dropPrefix?_eq_some.1 hline,
      List.append_assoc]
  | none =>
    rw [Option.map_none, Option.eq_none_iff_forall_ne_some]
    intro rest hrest
    rw [dropPrefix?_eq_some, join_cons, List.append_eq_append_iff] at hrest
    rcases hrest with ⟨more, hmore, hbehind⟩ | ⟨more, hmore, -⟩
    · -- the word would go on behind the line
      cases ls with
      | nil =>
        rw [behindLine_nil] at hbehind
        obtain ⟨rfl, -⟩ := List.append_eq_nil_iff.1 hbehind.symm
        rw [List.append_nil] at hmore
        rw [dropPrefix?_eq_some.2 (show line = word ++ [] by rw [hmore, List.append_nil])] at hline
        cases hline
      | cons next ls =>
        rw [behindLine_cons] at hbehind
        cases more with
        | nil =>
          rw [List.append_nil] at hmore
          rw [dropPrefix?_eq_some.2 (show line = word ++ [] by rw [hmore, List.append_nil])] at hline
          cases hline
        | cons c more =>
          rw [List.cons_append, List.cons.injEq] at hbehind
          refine hword ?_
          rw [hmore, ← hbehind.1]
          simp
    · rw [dropPrefix?_eq_some.2 hmore] at hline
      cases hline

/-! ### The first occurrence of a word -/

/-- `str::split_once`, with a word -/
def splitWord (word : List Char) : List Char → Option (List Char × List Char)
  | [] => if word = [] then some ([], []) else none
  | c :: rest =>
      match (c :: rest).dropPrefix? word with
      | some back => some ([], back)
      | none => (splitWord word rest).map fun parts => (c :: parts.1, parts.2)

theorem splitWord_eq_none : splitWord word text = none ↔ ¬ word <:+: text := by
  induction text with
  | nil =>
    rw [splitWord, List.infix_nil]
    split_ifs with hword
    · exact iff_of_false (by simp) (not_not_intro hword)
    · exact iff_of_true rfl hword
  | cons c text ih =>
    rw [splitWord, List.infix_cons_iff]
    cases hback : (c :: text).dropPrefix? word with
    | some back =>
      refine iff_of_false (by simp) (not_not_intro (.inl ⟨back, ?_⟩))
      exact (dropPrefix?_eq_some.1 hback).symm
    | none =>
      have hprefix : ¬ word <+: c :: text := by
        rintro ⟨back, hsplit⟩
        rw [dropPrefix?_eq_some.2 hsplit.symm] at hback
        cases hback
      simp only [Option.map_eq_none_iff, ih, hprefix, false_or]

theorem splitWord_append (h : splitWord word text = some (front, back)) : text = front ++ (word ++ back) := by
  induction text generalizing front with
  | nil =>
    rw [splitWord] at h
    split_ifs at h with hword
    cases h
    rw [hword]
    rfl
  | cons c text ih =>
    rw [splitWord] at h
    cases hback : (c :: text).dropPrefix? word with
    | some back' =>
      rw [hback] at h
      cases h
      rw [List.nil_append]
      exact dropPrefix?_eq_some.1 hback
    | none =>
      rw [hback] at h
      obtain ⟨⟨front', back'⟩, hparts, hsplit⟩ := Option.map_eq_some_iff.1 h
      cases hsplit
      rw [ih hparts, List.cons_append]

/-- It is the first occurrence. -/
theorem length_le_of_splitWord (h : splitWord word text = some (front, back)) {front' : List Char}
    (back' : List Char) (htext : text = front' ++ (word ++ back')) : front.length ≤ front'.length := by
  induction text generalizing front front' with
  | nil =>
    rw [splitWord] at h
    split_ifs at h
    cases h
    exact Nat.zero_le _
  | cons c text ih =>
    rw [splitWord] at h
    cases hback : (c :: text).dropPrefix? word with
    | some back'' =>
      rw [hback] at h
      cases h
      exact Nat.zero_le _
    | none =>
      rw [hback] at h
      obtain ⟨parts, hparts, hsplit⟩ := Option.map_eq_some_iff.1 h
      cases hsplit
      cases front' with
      | nil =>
        rw [List.nil_append] at htext
        rw [dropPrefix?_eq_some.2 htext] at hback
        cases hback
      | cons d front' =>
        rw [List.cons_append, List.cons.injEq] at htext
        exact Nat.succ_le_succ (ih hparts htext.2)

theorem exists_join_eq (h : line ∈ before) (last : List Char) :
    ∃ front back, join (before ++ [last]) = front ++ (line ++ '\n' :: back) := by
  induction before with
  | nil => cases h
  | cons first before ih =>
    obtain ⟨next, ls, hls⟩ := List.exists_cons_of_ne_nil (l := before ++ [last]) (by simp)
    have hbehind : behindLine (before ++ [last]) = '\n' :: join (before ++ [last]) := by
      rw [hls, behindLine_cons]
    rw [List.cons_append, join_cons, hbehind]
    rcases List.mem_cons.1 h with rfl | h
    · exact ⟨[], _, rfl⟩
    · obtain ⟨front, back, hjoin⟩ := ih h
      exact ⟨first ++ '\n' :: front, back, by rw [hjoin]; simp⟩

/-- The first occurrence of a word is in the first line that has it. -/
theorem splitWord_join (hword : '\n' ∉ word) (hne : ls ≠ []) (hfree : ∀ line ∈ ls, '\n' ∉ line)
    (h : splitWord word (join ls) = some (front, back)) :
    ∃ before a b after, ls = before ++ (a ++ (word ++ b)) :: after ∧ (∀ line ∈ before, ¬ word <:+: line) ∧
      front = join (before ++ [a]) ∧ back = join (b :: after) := by
  obtain ⟨before, a, hfront⟩ : ∃ before a, front.splitOn '\n' = before ++ [a] := by
    rcases List.eq_nil_or_concat (front.splitOn '\n') with hnil | ⟨before, a, hconcat⟩
    · exact absurd hnil (List.splitOn_ne_nil _ _)
    · exact ⟨before, a, by rw [hconcat, List.concat_eq_append]⟩
  obtain ⟨b, after, hback⟩ := List.exists_cons_of_ne_nil (List.splitOn_ne_nil '\n' back)
  have hfront' : front = join (before ++ [a]) := by rw [← hfront, join_splitOn]
  have hback' : back = join (b :: after) := by rw [← hback, join_splitOn]
  have hfreeFront : ∀ line ∈ before ++ [a], '\n' ∉ line := by
    rw [← hfront]
    exact fun line => PathText.not_mem_of_mem_splitOn
  have hfreeBack : ∀ line ∈ b :: after, '\n' ∉ line := by
    rw [← hback]
    exact fun line => PathText.not_mem_of_mem_splitOn
  have hlines : ls = before ++ (a ++ (word ++ b)) :: after := by
    have hjoin := splitWord_append h
    rw [hfront', hback', join_append_append] at hjoin
    rw [← splitOn_join hne hfree, hjoin]
    refine splitOn_join (by simp) fun line hline => ?_
    rcases List.mem_append.1 hline with hbefore | hrest
    · exact hfreeFront line (List.mem_append_left _ hbefore)
    · rcases List.mem_cons.1 hrest with rfl | hafter
      · have ha := hfreeFront a (by simp)
        have hb := hfreeBack b List.mem_cons_self
        simp [ha, hb, hword]
      · exact hfreeBack line (List.mem_cons_of_mem _ hafter)
  refine ⟨before, a, b, after, hlines, fun line hline hinfix => ?_, hfront', hback'⟩
  -- in an earlier line the word would be found earlier
  obtain ⟨u, v, rfl⟩ := hinfix
  obtain ⟨x, y, hjoin⟩ := exists_join_eq hline a
  have htext : join ls = (x ++ u) ++ (word ++ (v ++ '\n' :: y ++ (word ++ back))) := by
    rw [splitWord_append h, hfront', hjoin]
    simp
  have hearly := length_le_of_splitWord h _ htext
  rw [hfront', hjoin] at hearly
  simp only [List.length_append, List.length_cons] at hearly
  omega

end Kyth.JoinedLines

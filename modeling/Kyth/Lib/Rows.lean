import Kyth.Lib.PathText

/-!
# Rows

A list cut at a separator, where the separator ends a row and the last row may lack it.
-/

namespace Kyth.Rows

variable {α : Type} [DecidableEq α] {sep : α} {l row piece : List α}

/-- The list with a separator behind its last row. -/
def closed (sep : α) (l : List α) : List α :=
  if l = [] ∨ l.getLast? = some sep then l else l ++ [sep]

/-- The rows, without their separators. -/
def rows (sep : α) (l : List α) : List (List α) := ((closed sep l).splitOn sep).dropLast

@[simp] theorem closed_nil (sep : α) : closed sep [] = [] := rfl

@[simp] theorem closed_concat (sep : α) (l : List α) : closed sep (l ++ [sep]) = l ++ [sep] :=
  if_pos (.inr (by simp))

/-- A closed list is empty or ends in a separator. -/
theorem closed_eq (sep : α) (l : List α) :
    closed sep l = [] ∧ l = [] ∨
      ∃ before, closed sep l = before ++ [sep] ∧ (l = before ++ [sep] ∨ l = before) := by
  unfold closed
  split_ifs with hend
  · rcases hend with hnil | hsep
    · exact .inl ⟨hnil, hnil⟩
    · have hsplit := (List.dropLast_append_getLast? _ hsep).symm
      exact .inr ⟨l.dropLast, hsplit, .inl hsplit⟩
  · exact .inr ⟨l, rfl, .inr rfl⟩

@[simp] theorem closed_closed (sep : α) (l : List α) : closed sep (closed sep l) = closed sep l := by
  rcases closed_eq sep l with ⟨hnil, -⟩ | ⟨before, hbefore, -⟩
  · rw [hnil, closed_nil]
  · rw [hbefore, closed_concat]

theorem prefix_closed (sep : α) (l : List α) : l <+: closed sep l := by
  unfold closed
  split_ifs with hend
  · exact List.prefix_rfl
  · exact List.prefix_append _ _

@[simp] theorem rows_nil (sep : α) : rows sep [] = [] := rfl

/-- What is written behind the last row is a row of its own. -/
theorem rows_closed_append (h : sep ∉ row) :
    rows sep (closed sep l ++ (row ++ [sep])) = rows sep l ++ [row] := by
  have hrow : (row ++ [sep]).splitOn sep = [row, []] := by
    rw [List.splitOn_append_cons_self_of_not_mem h]
    rfl
  unfold rows
  rw [← List.append_assoc, closed_concat, List.append_assoc]
  rcases closed_eq sep l with ⟨hnil, -⟩ | ⟨before, hbefore, -⟩
  · rw [hnil, List.nil_append, hrow]
    rfl
  · rw [hbefore, List.append_assoc, List.singleton_append, List.splitOn_append_cons_self, hrow,
      List.splitOn_append_cons_self]
    simp

/-- The pieces of a list that does not end in a separator: the last one is not empty. -/
theorem splitOn_eq (sep : α) (l : List α) :
    ∃ ended last, l.splitOn sep = ended ++ [last] ∧ rows sep l = ended ++ [last].filter (· ≠ []) ∧
      (last = [] → closed sep l = l) := by
  have hempty : ([[]] : List (List α)).filter (· ≠ []) = [] := rfl
  rcases closed_eq sep l with ⟨-, rfl⟩ | ⟨before, hbefore, hl⟩
  · exact ⟨[], [], rfl, rfl, fun _ => rfl⟩
  · have hrows : rows sep l = before.splitOn sep := by
      rw [rows, hbefore, List.splitOn_append_cons_self]
      simp
    rcases hl with rfl | rfl
    · refine ⟨before.splitOn sep, [], ?_, ?_, fun _ => hbefore⟩
      · rw [List.splitOn_append_cons_self]
        rfl
      · rw [hrows, hempty, List.append_nil]
    · have hopen : ¬ (l = [] ∨ l.getLast? = some sep) := fun hend => by
        rw [closed, if_pos hend] at hbefore
        have hlen := congrArg List.length hbefore
        simp at hlen
      rw [not_or] at hopen
      -- the last piece begins behind the last separator
      have hlast : ∃ ended last, l.splitOn sep = ended ++ [last] ∧ last ≠ [] := by
        by_cases hmem : sep ∈ l.reverse
        · obtain ⟨after, front, hsplit, hfree⟩ := List.eq_append_cons_of_mem hmem
          have hl : l = front.reverse ++ sep :: after.reverse := by
            rw [← List.reverse_reverse l, hsplit]
            simp
          refine ⟨front.reverse.splitOn sep, after.reverse, ?_, fun hnil => hopen.2 ?_⟩
          · have hfree' : sep ∉ after.reverse := fun hafter => hfree (List.mem_reverse.1 hafter)
            rw [hl, List.splitOn_append_cons_self, List.splitOn_eq_singleton hfree']
          · rw [hl, hnil]
            simp
        · exact ⟨[], l, List.splitOn_eq_singleton (by simpa using hmem), hopen.1⟩
      obtain ⟨ended, last, hpieces, hne⟩ := hlast
      refine ⟨ended, last, hpieces, ?_, fun hnil => absurd hnil hne⟩
      rw [hrows, hpieces]
      simp [hne]

/-- The pieces of a list stay when more is written behind its last row. -/
theorem mem_splitOn_append (h : piece ∈ l.splitOn sep) (hne : piece ≠ []) (more : List α) :
    piece ∈ (closed sep l ++ more).splitOn sep := by
  have hbehind : ∀ before, piece ∈ before.splitOn sep →
      piece ∈ (before ++ [sep] ++ more).splitOn sep := by
    intro before hbefore
    rw [List.append_assoc, List.singleton_append, List.splitOn_append_cons_self]
    exact List.mem_append_left _ hbefore
  rcases closed_eq sep l with ⟨-, rfl⟩ | ⟨before, hbefore, hl⟩
  · exact absurd (List.mem_singleton.1 h) hne
  · rw [hbefore]
    rcases hl with rfl | rfl
    · rw [List.splitOn_append_cons_self, List.mem_append] at h
      rcases h with h | h
      · exact hbehind _ h
      · exact absurd (List.mem_singleton.1 h) hne
    · exact hbehind _ h

end Kyth.Rows

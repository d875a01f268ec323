import Mathlib.Tactic

/-!
# Cutting a list behind every delimiter

`pieces p l` cuts a list behind each element that satisfies `p`; a last piece may lack its delimiter.
`pieces_delimited` and `pieces_open` take the first piece off, and `delimiter_cases` finds it.
-/

namespace Kyth.Pieces

variable {α : Type} {p : α → Bool} {before after l : List α} {d : α}

/-- The pieces of a list, each up to and with its delimiter. -/
def pieces (p : α → Bool) : List α → List (List α)
  | [] => []
  | a :: l =>
      if p a then [a] :: pieces p l
      else
        match pieces p l with
        | [] => [[a]]
        | piece :: rest => (a :: piece) :: rest

@[simp] theorem pieces_nil (p : α → Bool) : pieces p [] = [] := rfl

/-- The first piece of a list that has a delimiter. -/
theorem pieces_delimited (hbefore : ∀ a ∈ before, p a = false) (hd : p d = true) :
    pieces p (before ++ d :: after) = (before ++ [d]) :: pieces p after := by
  induction before with
  | nil => rw [List.nil_append, pieces, if_pos hd, List.nil_append]
  | cons a before ih =>
    obtain ⟨ha, hrest⟩ := List.forall_mem_cons.1 hbefore
    rw [List.cons_append, pieces, if_neg (by rw [ha]; exact Bool.false_ne_true), ih hrest]
    rfl

/-- A list without a delimiter is one piece. -/
theorem pieces_open (hl : ∀ a ∈ l, p a = false) (hne : l ≠ []) : pieces p l = [l] := by
  induction l with
  | nil => exact absurd rfl hne
  | cons a l ih =>
    obtain ⟨ha, hrest⟩ := List.forall_mem_cons.1 hl
    rw [pieces, if_neg (by rw [ha]; exact Bool.false_ne_true)]
    by_cases hnil : l = []
    · rw [hnil, pieces_nil]
    · rw [ih hrest hnil]

/-- A list has a delimiter, with what stands before and behind the first one, or it has none. -/
theorem delimiter_cases (p : α → Bool) (l : List α) :
    (∃ before d after, l = before ++ d :: after ∧ (∀ a ∈ before, p a = false) ∧ p d = true ∧
      l.findIdx? p = some before.length) ∨ (∀ a ∈ l, p a = false) ∧ l.findIdx? p = none := by
  induction l with
  | nil => exact .inr ⟨List.forall_mem_nil _, rfl⟩
  | cons a l ih =>
    rw [List.findIdx?_cons]
    by_cases ha : p a = true
    · exact .inl ⟨[], a, l, rfl, List.forall_mem_nil _, ha, by rw [ha]; rfl⟩
    · rw [Bool.not_eq_true] at ha
      rw [ha, if_neg Bool.false_ne_true]
      obtain ⟨before, d, after, rfl, hbefore, hd, hindex⟩ | ⟨hnone, hindex⟩ := ih
      · exact .inl ⟨a :: before, d, after, rfl, List.forall_mem_cons.2 ⟨ha, hbefore⟩, hd,
          by rw [hindex]; rfl⟩
      · exact .inr ⟨List.forall_mem_cons.2 ⟨ha, hnone⟩, by rw [hindex]; rfl⟩

end Kyth.Pieces

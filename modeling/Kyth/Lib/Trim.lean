import Kyth.Lib.SplitOnce
import Kyth.Lib.Str
import Mathlib.Data.List.DropRight

/-!
# Trimming a list

`trimmed` takes the blanks off both ends of a text, and `withoutFront` takes a given beginning off, if it
is there.
-/

namespace Kyth.Trim

open Str

variable {text front rest : List Char} {c : Char}

/-- `str::trim` on a list of characters. -/
def trimmed (text : List Char) : List Char := (text.dropWhile isWhitespace).rdropWhile isWhitespace

theorem trimmed_of_forall (h : ∀ c ∈ text, isWhitespace c = false) : trimmed text = text := by
  have hfront : text.dropWhile isWhitespace = text := by
    cases text with
    | nil => rfl
    | cons c text => exact List.dropWhile_cons_of_neg (by simp [h c List.mem_cons_self])
  rw [trimmed, hfront, List.rdropWhile_eq_self_iff]
  intro hne hlast
  rw [h _ (List.getLast_mem hne)] at hlast
  cases hlast

/-- A blank at the end is taken off. -/
theorem trimmed_concat (h : isWhitespace c = true) (text : List Char) : trimmed (text ++ [c]) = trimmed text := by
  rw [trimmed, trimmed, List.dropWhile_append]
  split_ifs with hblank
  · rw [List.isEmpty_iff.1 hblank, List.dropWhile_cons_of_pos h, List.dropWhile_nil]
  · exact List.rdropWhile_concat_pos _ _ _ h

/-- Trimming at the end stops at a character that is no blank. -/
theorem rdropWhile_append_cons (hc : isWhitespace c = false) (front rest : List Char) :
    (front ++ c :: rest).rdropWhile isWhitespace = front ++ c :: rest.rdropWhile isWhitespace := by
  induction rest using List.reverseRecOn with
  | nil => exact List.rdropWhile_concat_neg isWhitespace front c (by simp [hc])
  | append_singleton rest d ih =>
    rw [← List.cons_append, ← List.append_assoc, List.rdropWhile_concat, List.rdropWhile_concat, ih]
    split_ifs
    · rfl
    · rw [List.append_assoc, List.cons_append]

/-- A text that begins with a character that is no blank keeps its beginning up to another one. -/
theorem trimmed_cons_append_cons {d : Char} (hc : isWhitespace c = false) (hd : isWhitespace d = false)
    (front rest : List Char) :
    trimmed (c :: front ++ d :: rest) = c :: front ++ d :: rest.rdropWhile isWhitespace := by
  rw [trimmed, List.cons_append, List.dropWhile_cons_of_neg (by simp [hc]), ← List.cons_append,
    rdropWhile_append_cons hd]

/-! ### Beginnings -/

/-- `strip_prefix` with the text itself where it does not begin so. -/
def withoutFront (front text : List Char) : List Char := (text.dropPrefix? front).getD text

@[simp] theorem withoutFront_append (front rest : List Char) : withoutFront front (front ++ rest) = rest := by
  rw [withoutFront, SplitOnce.dropPrefix?_eq_some.2 rfl, Option.getD_some]

theorem withoutFront_eq_self (h : ¬ front <+: text) : withoutFront front text = text := by
  rw [withoutFront]
  cases hrest : text.dropPrefix? front with
  | none => rfl
  | some rest => exact absurd ⟨rest, (SplitOnce.dropPrefix?_eq_some.1 hrest).symm⟩ h

end Kyth.Trim

import Kyth.Lib.ByteText
import Kyth.Lib.TextLines

/-!
# The lines of bytes

The lines of bytes that may be no text, cut as `str::lines` cuts a text, and texts that are joined from
their lines.
-/

namespace Kyth.ByteLines

open Utf8Text TextLines

variable {α : Type} {pieces : List (List Char)} {l : List α} {f : α → Option α}

/-- The byte of a carriage return. -/
def carriageReturn : UInt8 := 13

/-- A line that ends in a newline loses one carriage return in front of it. -/
def stripCrByte (line : List UInt8) : List UInt8 :=
  if line.getLast? = some carriageReturn then line.dropLast else line

/-- The lines of bytes. -/
def byteLines (bytes : List UInt8) : List (List UInt8) :=
  (bytes.splitOn newline).dropLast.map stripCrByte ++
    [(bytes.splitOn newline).getLastD []].filter (· ≠ [])

@[simp] theorem byteLines_nil : byteLines [] = [] := rfl

theorem encode_injective : Function.Injective encode := fun text more h => by
  rw [← Option.some_inj, ← decode_encode text, h, decode_encode]

theorem encode_eq_nil_iff {text : List Char} : encode text = [] ↔ text = [] :=
  encode_injective.eq_iff' encode_nil

/-- Only a carriage return is encoded with the byte of one. -/
theorem carriageReturn_mem_utf8EncodeChar {c : Char} (h : carriageReturn ∈ String.utf8EncodeChar c) :
    c = '\r' := by
  have hnat := ByteText.toNat_of_utf8EncodeChar (ByteText.utf8EncodeChar_eq_singleton h (by decide))
  apply Char.ext
  apply UInt32.toNat_inj.1
  exact hnat.symm

theorem stripCrByte_encode (line : List Char) : stripCrByte (encode line) = encode (stripCr line) := by
  rcases List.eq_nil_or_concat line with rfl | ⟨front, c, rfl⟩
  · rfl
  · rw [List.concat_eq_append]
    by_cases hc : c = '\r'
    · subst hc
      have hbyte : encode ['\r'] = [carriageReturn] := rfl
      rw [encode_append, hbyte, stripCrByte, if_pos List.getLast?_concat, List.dropLast_concat, stripCr,
        if_pos List.getLast?_concat, List.dropLast_concat]
    · have hne : encode [c] ≠ [] := by simp [encode]
      have hlast : ¬ (encode (front ++ [c])).getLast? = some carriageReturn := by
        rw [encode_append, List.getLast?_append_of_ne_nil _ hne]
        intro hlast
        have hmem := List.mem_of_getLast? hlast
        rw [encode, List.flatMap_cons, List.flatMap_nil, List.append_nil] at hmem
        exact hc (carriageReturn_mem_utf8EncodeChar hmem)
      rw [stripCrByte, if_neg hlast, stripCr, if_neg (by simpa using hc)]

/-- The lines of the bytes of a text are the bytes of its lines. -/
theorem byteLines_encode (text : List Char) : byteLines (encode text) = (lines text).map encode := by
  obtain ⟨ended, last, hpieces, -, hlines, -⟩ := lines_eq text
  rw [byteLines, splitOn_encode, hlines, hpieces, List.map_append, List.map_singleton,
    List.dropLast_concat, List.map_map, List.map_append, List.map_map, List.getLastD_concat]
  congr 1
  · exact List.map_congr_left fun line _ => stripCrByte_encode line
  · by_cases hlast : last = []
    · rw [hlast]
      rfl
    · have hencode : encode last ≠ [] := fun h => hlast (encode_eq_nil_iff.1 h)
      simp [hlast, hencode]

/-! ### Joining -/

/-- `lines.join("\n")` with a newline behind. -/
def joined (pieces : List (List Char)) : List Char := ['\n'].intercalate pieces ++ ['\n']

theorem splitOn_joined (hne : pieces ≠ []) (hfree : ∀ piece ∈ pieces, '\n' ∉ piece) :
    (joined pieces).splitOn '\n' = pieces ++ [[]] := by
  rw [joined, List.splitOn_append_cons_self, List.splitOn_intercalate _ hfree hne]
  rfl

theorem lines_joined (hne : pieces ≠ []) (hfree : ∀ piece ∈ pieces, '\n' ∉ piece) :
    lines (joined pieces) = pieces.map stripCr := by
  rw [lines, splitOn_joined hne hfree, List.dropLast_concat, List.getLastD_concat]
  simp

theorem stripCr_eq_self_iff {line : List Char} : stripCr line = line ↔ line.getLast? ≠ some '\r' := by
  unfold stripCr
  split_ifs with hcr
  · refine iff_of_false (fun h => ?_) (not_not_intro hcr)
    have hlength := congrArg List.length h
    have hpos : 0 < line.length := List.length_pos_iff.2 (by rintro rfl; cases hcr)
    rw [List.length_dropLast] at hlength
    omega
  · exact iff_of_true rfl hcr

theorem joined_cons (piece : List Char) (hne : pieces ≠ []) :
    joined (piece :: pieces) = piece ++ '\n' :: joined pieces := by
  obtain ⟨next, rest, rfl⟩ := List.exists_cons_of_ne_nil hne
  rw [joined, joined, List.intercalate_cons_cons, List.append_assoc, List.append_assoc]
  rfl

/-- A line is part of the joined text. -/
theorem infix_joined {piece : List Char} (h : piece ∈ pieces) : piece <:+: joined pieces := by
  induction pieces with
  | nil => cases h
  | cons first pieces ih =>
    by_cases hnil : pieces = []
    · subst hnil
      rw [List.mem_singleton] at h
      subst h
      rw [joined, List.intercalate_singleton]
      exact (List.prefix_append piece ['\n']).isInfix
    · rw [joined_cons first hnil]
      rcases List.mem_cons.1 h with rfl | h
      · exact (List.prefix_append _ _).isInfix
      · exact (ih h).trans ((List.suffix_cons '\n' _).trans (List.suffix_append first _)).isInfix

/-- A list that is rewritten element by element stays the same exactly if every element does. -/
theorem filterMap_eq_self_iff : l.filterMap f = l ↔ ∀ a ∈ l, f a = some a := by
  induction l with
  | nil => exact iff_of_true rfl (List.forall_mem_nil _)
  | cons a l ih =>
    rw [List.forall_mem_cons, ← ih]
    cases ha : f a with
    | none =>
      rw [List.filterMap_cons_none ha]
      refine iff_of_false (fun h => ?_) (fun h => by cases h.1)
      have hlength := List.length_filterMap_le f l
      rw [h, List.length_cons] at hlength
      omega
    | some b =>
      rw [List.filterMap_cons_some ha, List.cons.injEq, Option.some_inj]

end Kyth.ByteLines

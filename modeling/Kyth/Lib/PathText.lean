import Kyth.Lib.Str

/-!
# Paths as texts

Splitting a text at slashes and joining the parts again, and the length of a text in bytes.
-/

namespace Kyth.PathText

open Str

variable {s part : String} {parts : List String} {c : Char}

theorem not_mem_of_mem_splitOn {l part : List Char} (h : part ∈ l.splitOn c) : c ∉ part := by
  induction l generalizing part with
  | nil =>
    rw [List.splitOn_nil, List.mem_singleton] at h
    exact h ▸ List.not_mem_nil
  | cons d l ih =>
    rw [List.splitOn_cons_eq_if_modifyHead] at h
    split_ifs at h with hd
    · rcases List.mem_cons.mp h with rfl | h
      · exact List.not_mem_nil
      · exact ih h
    · rw [beq_iff_eq] at hd
      cases hsplit : l.splitOn c with
      | nil => exact absurd hsplit (List.splitOn_ne_nil c l)
      | cons first rest =>
        rw [hsplit, List.modifyHead_cons] at h
        rcases List.mem_cons.mp h with rfl | h
        · have hfirst : c ∉ first := ih (by rw [hsplit]; exact List.mem_cons_self)
          simp [hfirst, Ne.symm hd]
        · exact ih (by rw [hsplit]; exact List.mem_cons_of_mem first h)

/-- A part of a text does not hold the separator. -/
theorem not_mem_of_mem_split (h : part ∈ split s c) : c ∉ part.toList := by
  obtain ⟨chars, hchars, rfl⟩ := List.mem_map.mp h
  rw [String.toList_ofList]
  exact not_mem_of_mem_splitOn hchars

/-- Parts without slashes are what a join of them splits into. -/
theorem split_intercalate (h : ∀ part ∈ parts, '/' ∉ part.toList) (hne : parts ≠ []) :
    split ("/".intercalate parts) '/' = parts := by
  have hslash : "/".toList = ['/'] := rfl
  rw [split, String.toList_intercalate, hslash, List.splitOn_intercalate]
  · rw [List.map_map]
    refine (List.map_congr_left fun part _ => ?_).trans parts.map_id
    exact String.ofList_toList
  · intro l hl
    obtain ⟨part, hpart, rfl⟩ := List.mem_map.mp hl
    exact h part hpart
  · simpa using hne

/-- An absolute path is the join of an empty part and its parts. -/
theorem slash_append_intercalate (hne : parts ≠ []) :
    "/" ++ "/".intercalate parts = "/".intercalate ("" :: parts) := by
  rw [String.intercalate_cons_of_ne_nil hne, String.empty_append]

theorem split_slash_append (h : ∀ part ∈ parts, '/' ∉ part.toList) (hne : parts ≠ []) :
    split ("/" ++ "/".intercalate parts) '/' = "" :: parts := by
  rw [slash_append_intercalate hne]
  refine split_intercalate ?_ (List.cons_ne_nil _ _)
  intro part hpart
  rcases List.mem_cons.mp hpart with rfl | hpart
  · decide
  · exact h part hpart

/-- A text of ASCII characters has as many bytes as characters. -/
theorem utf8ByteSize_of_ascii (h : ∀ c ∈ s.toList, c.toNat < 128) :
    s.utf8ByteSize = s.toList.length := by
  rw [← String.ofList_toList (s := s)]
  generalize s.toList = l at h
  rw [String.toList_ofList]
  induction l with
  | nil => rfl
  | cons c l ih =>
    have hsize : c.utf8Size = 1 := by
      refine Char.utf8Size_eq_one_iff.mpr ?_
      have := h c List.mem_cons_self
      rw [UInt32.le_iff_toNat_le]
      exact Nat.lt_succ_iff.mp this
    rw [String.ofList_cons, String.utf8ByteSize_append, String.utf8ByteSize_singleton, hsize,
      ih fun d hd => h d (List.mem_cons_of_mem c hd), List.length_cons, Nat.add_comm]

end Kyth.PathText

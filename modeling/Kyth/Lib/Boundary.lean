import Mathlib.Tactic

/-!
# Byte positions in a text

A text is a list of characters, and code that slices a `str` counts its bytes. `splitBytes` takes a
text apart at a byte position, and has no value where the position lies inside a character or beyond
the end, which is where the slice panics. `splitBytes_eq_some` says what it returns.
-/

namespace Kyth.Boundary

/-- `str::len`. -/
def byteLength (text : List Char) : ℕ := (text.map Char.utf8Size).sum

/-- A text taken apart at a byte position. -/
def splitBytes : List Char → ℕ → Option (List Char × List Char)
  | text, 0 => some ([], text)
  | [], _ + 1 => none
  | c :: text, n + 1 =>
      if c.utf8Size ≤ n + 1 then
        (splitBytes text (n + 1 - c.utf8Size)).map fun parts => (c :: parts.1, parts.2)
      else none

/-- `str::is_char_boundary`. -/
def isCharBoundary (text : List Char) (n : ℕ) : Bool := (splitBytes text n).isSome

/-- `String::truncate`, which panics inside a character. -/
def truncate (text : List Char) (n : ℕ) : Option (List Char) :=
  if n ≤ byteLength text then (splitBytes text n).map Prod.fst else some text

variable {text before after : List Char} {n : ℕ}

@[simp] theorem byteLength_nil : byteLength [] = 0 := rfl

@[simp] theorem byteLength_cons (c : Char) (text : List Char) :
    byteLength (c :: text) = c.utf8Size + byteLength text := by simp [byteLength]

@[simp] theorem byteLength_append (before after : List Char) :
    byteLength (before ++ after) = byteLength before + byteLength after := by
  simp [byteLength]

theorem byteLength_replicate (n : ℕ) (c : Char) :
    byteLength (List.replicate n c) = n * c.utf8Size := by
  simp [byteLength]

/-- Only the empty text has no bytes. -/
theorem byteLength_eq_zero : byteLength text = 0 ↔ text = [] := by
  cases text with
  | nil => simp
  | cons c text =>
    have := c.utf8Size_pos
    simp only [byteLength_cons, reduceCtorEq, iff_false]
    omega

/-- Of two beginnings of a text the one with fewer bytes begins the other. -/
theorem prefix_of_byteLength_le (hbefore : before <+: text) (hafter : after <+: text)
    (hle : byteLength before ≤ byteLength after) : before <+: after := by
  rcases List.prefix_or_prefix_of_prefix hbefore hafter with h | ⟨rest, rfl⟩
  · exact h
  · rw [byteLength_append] at hle
    have hnil : rest = [] := byteLength_eq_zero.1 (by omega)
    rw [hnil, List.append_nil]

/-- The parts of a text at a byte position. -/
theorem splitBytes_eq_some :
    splitBytes text n = some (before, after) ↔ text = before ++ after ∧ byteLength before = n := by
  induction text, n using splitBytes.induct generalizing before after with
  | case1 text =>
    rw [splitBytes, Option.some.injEq, Prod.mk.injEq, byteLength_eq_zero]
    constructor
    · rintro ⟨rfl, rfl⟩
      exact ⟨rfl, rfl⟩
    · rintro ⟨rfl, rfl⟩
      exact ⟨rfl, rfl⟩
  | case2 n =>
    rw [splitBytes]
    refine iff_of_false (by simp) ?_
    rintro ⟨htext, hlength⟩
    obtain ⟨rfl, -⟩ := List.append_eq_nil_iff.1 htext.symm
    cases hlength
  | case3 c text n hle ih =>
    rw [splitBytes, if_pos hle, Option.map_eq_some_iff]
    constructor
    · rintro ⟨⟨before', after'⟩, hsplit, hparts⟩
      obtain ⟨rfl, hlength⟩ := ih.1 hsplit
      cases hparts
      refine ⟨rfl, ?_⟩
      rw [byteLength_cons, hlength]
      omega
    · rintro ⟨htext, hlength⟩
      cases before with
      | nil => cases hlength
      | cons d before =>
        obtain ⟨rfl, rfl⟩ := List.cons.inj htext
        rw [byteLength_cons] at hlength
        exact ⟨(before, after), ih.2 ⟨rfl, by omega⟩, rfl⟩
  | case4 c text n hle =>
    rw [splitBytes, if_neg hle]
    refine iff_of_false (by simp) ?_
    rintro ⟨htext, hlength⟩
    cases before with
    | nil => cases hlength
    | cons d before =>
      obtain ⟨rfl, rfl⟩ := List.cons.inj htext
      rw [byteLength_cons] at hlength
      omega

/-- The positions between characters are the boundaries. -/
theorem isCharBoundary_iff :
    isCharBoundary text n = true ↔ ∃ before after, text = before ++ after ∧ byteLength before = n := by
  rw [isCharBoundary, Option.isSome_iff_exists]
  constructor
  · rintro ⟨⟨before, after⟩, hsplit⟩
    exact ⟨before, after, splitBytes_eq_some.1 hsplit⟩
  · rintro ⟨before, after, h⟩
    exact ⟨(before, after), splitBytes_eq_some.2 h⟩

/-- Truncating panics when the text is long enough to be cut and the cut is inside a character. -/
theorem truncate_isSome :
    (truncate text n).isSome = true ↔ byteLength text < n ∨ isCharBoundary text n = true := by
  unfold truncate
  split_ifs with hle
  · rw [Option.isSome_map, isCharBoundary]
    exact ⟨.inr, fun h => h.resolve_left (not_lt.2 hle)⟩
  · exact iff_of_true rfl (.inl (not_le.1 hle))

end Kyth.Boundary

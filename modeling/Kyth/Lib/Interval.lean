import Mathlib.Order.Interval.Set.Basic
import Mathlib.Data.List.Pairwise
import Mathlib.Tactic

/-!
# Pairwise disjoint half-open intervals

Lists of objects that each occupy a half-open interval of a linear order. `Meets` is the test for
two intervals to share a point, and `Apart` says that no two objects of a list do.
-/

namespace Kyth.Interval

variable {α β : Type} [LinearOrder α]

/-- Two half-open intervals, given by their ends, share a point. -/
def Meets (a b : α × α) : Prop := ∃ x, (a.1 ≤ x ∧ x < a.2) ∧ (b.1 ≤ x ∧ x < b.2)

theorem meets_iff {a b : α × α} :
    Meets a b ↔ a.1 < b.2 ∧ b.1 < a.2 ∧ a.1 < a.2 ∧ b.1 < b.2 := by
  constructor
  · rintro ⟨x, ⟨hax, hxa⟩, hbx, hxb⟩
    exact ⟨hax.trans_lt hxb, hbx.trans_lt hxa, hax.trans_lt hxa, hbx.trans_lt hxb⟩
  · rintro ⟨hab, hba, haa, hbb⟩
    refine ⟨max a.1 b.1, ⟨le_max_left _ _, max_lt haa hba⟩, le_max_right _ _, max_lt hab hbb⟩

instance (a b : α × α) : Decidable (Meets a b) := decidable_of_iff _ meets_iff.symm

theorem Meets.symm {a b : α × α} (h : Meets a b) : Meets b a := by
  obtain ⟨x, ha, hb⟩ := h
  exact ⟨x, hb, ha⟩

/-- An interval inside another meets no more than it does. -/
theorem Meets.mono_left {a a' b : α × α} (h : Meets a b) (hlo : a'.1 ≤ a.1) (hhi : a.2 ≤ a'.2) :
    Meets a' b := by
  obtain ⟨x, ha, hb⟩ := h
  exact ⟨x, ⟨hlo.trans ha.1, ha.2.trans_le hhi⟩, hb⟩

/-- No two objects of a list share a point. -/
def Apart (span : β → α × α) (l : List β) : Prop := l.Pairwise fun a b => ¬ Meets (span a) (span b)

variable {span : β → α × α} {l : List β}

instance : Decidable (Apart span l) := inferInstanceAs (Decidable (l.Pairwise _))

@[simp] theorem apart_nil : Apart span [] := List.Pairwise.nil

@[simp] theorem apart_cons {b : β} :
    Apart span (b :: l) ↔ (∀ b' ∈ l, ¬ Meets (span b) (span b')) ∧ Apart span l :=
  List.pairwise_cons

/-- Two different objects of a list share no point. -/
theorem Apart.not_meets (h : Apart span l) {b b' : β} (hb : b ∈ l) (hb' : b' ∈ l) (hne : b ≠ b') :
    ¬ Meets (span b) (span b') := by
  have hsymm : Std.Symm fun a b => ¬ Meets (span a) (span b) :=
    ⟨fun _ _ hab hba => hab hba.symm⟩
  exact List.Pairwise.forall h hb hb' hne

theorem Apart.filter {p : β → Bool} (h : Apart span l) : Apart span (l.filter p) :=
  List.Pairwise.filter p h

/-- A map that keeps the intervals keeps them apart. -/
theorem Apart.map_of_span_eq {f : β → β} (h : Apart span l) (hf : ∀ b ∈ l, span (f b) = span b) :
    Apart span (l.map f) := by
  unfold Apart at h ⊢
  rw [List.pairwise_map]
  refine List.Pairwise.imp_of_mem ?_ h
  intro a b ha hb hab
  rwa [hf a ha, hf b hb]

/-- Moving the objects of one key of a list keeps them apart when no two share the key and the
moved one avoids the others. -/
theorem Apart.map_key {γ : Type} {key : β → γ} {f : β → β} {k : γ} (h : Apart span l)
    (hnodup : (l.map key).Nodup) (hf : ∀ b ∈ l, key b ≠ k → span (f b) = span b)
    (hfree : ∀ b ∈ l, key b = k → ∀ b' ∈ l, key b' ≠ k → ¬ Meets (span (f b)) (span b')) :
    Apart span (l.map f) := by
  unfold Apart at h ⊢
  rw [List.pairwise_map]
  rw [List.nodup_iff_pairwise_ne, List.pairwise_map] at hnodup
  refine List.Pairwise.imp_of_mem ?_ (h.and hnodup)
  rintro a b ha hb ⟨hab, hkey⟩
  by_cases hak : key a = k
  · have hbk : key b ≠ k := fun hbk => hkey (hak.trans hbk.symm)
    rw [hf b hb hbk]
    exact hfree a ha hak b hb hbk
  · rw [hf a ha hak]
    by_cases hbk : key b = k
    · exact fun hmeets => hfree b hb hbk a ha hak hmeets.symm
    · rwa [hf b hb hbk]

end Kyth.Interval

import Kyth.Redact.Settle

/-!
# Fields that are lost

A value may hold the marker of another field. When it is replaced first, the other field is lost, and
its value stays if it does not lie in the replaced one too. Which fields are lost can be told from the
line: those whose marker lies in the value of a field that is looked at before and is not lost itself.
A pass changes nothing about it: `lost_iff`.
-/

namespace Kyth.Redact

open Boundary ByteText Scan Utf8Text

/-- The field begins in the value of another one. -/
def Field.Inside (f g : Field) : Prop := g.valueStart ≤ f.start ∧ f.start < g.valueEnd

/-- The value of the field and a range have a byte in common. -/
def Field.Meets (f : Field) (start stop : ℕ) : Prop := f.valueStart < stop ∧ start < f.valueEnd

theorem before_wf : WellFounded Field.Before := by
  have hsub : Subrelation Field.Before (InvImage (Prod.Lex (· < ·) (· < ·))
      fun f : Field => (markers.idxOf f.marker, f.start)) := by
    rintro f g (hlt | ⟨hmarker, hlt⟩)
    · exact Prod.Lex.left _ _ hlt
    · change Prod.Lex _ _ (markers.idxOf f.marker, f.start) (markers.idxOf g.marker, g.start)
      rw [hmarker]
      exact Prod.Lex.right _ hlt
  exact hsub.wf (InvImage.wf _ (Nat.lt_wfRel.wf.prod_lex Nat.lt_wfRel.wf))

instance fieldWellFounded : WellFoundedRelation Field := ⟨Field.Before, before_wf⟩

/-- A field is lost when it begins in the value of a field that is looked at before and is not lost. -/
def Lost (bytes : List UInt8) (f : Field) : Prop :=
  ∃ g, ∃ _ : g.Before f, IsField bytes g ∧ f.Inside g ∧ ¬ Lost bytes g
termination_by f

/-- No value that is replaced before holds the end of the value that holds its field. -/
def Uncrossed (bytes : List UInt8) : Prop :=
  ∀ f g, IsField bytes f → IsField bytes g → f.Inside g → f.Before g →
    f.valueEnd ≤ g.valueEnd ∨ g.valueEnd < f.valueStart

instance decidableInside (f g : Field) : Decidable (f.Inside g) := inferInstanceAs (Decidable (_ ∧ _))

instance decidableBefore (f g : Field) : Decidable (f.Before g) := inferInstanceAs (Decidable (_ ∨ _))

instance decidableUncrossed (bytes : List UInt8) : Decidable (Uncrossed bytes) :=
  decidable_of_iff (∀ f ∈ fields bytes, ∀ g ∈ fields bytes, f.Inside g → f.Before g →
      f.valueEnd ≤ g.valueEnd ∨ g.valueEnd < f.valueStart) (by
    simp only [mem_fields]
    exact ⟨fun h f g hf hg => h f hf g hg, fun h f hf g hg => h f g hf hg⟩)

/-- A position before and after the replacement of the value. -/
def Moved (front value : List UInt8) (i j : ℕ) : Prop :=
  i ≤ front.length ∧ j = i ∨
    front.length + value.length ≤ i ∧ j + value.length = i + replacementBytes.length

variable {bytes front value back : List UInt8} {f g h g' h' : Field} {i i' j j' : ℕ}

theorem Field.Before.asymm (hfg : f.Before g) : ¬ g.Before f := by
  rintro (hlt | ⟨hmarker, hlt⟩)
  · rcases hfg with hlt' | ⟨hmarker', -⟩
    · omega
    · rw [hmarker'] at hlt
      exact lt_irrefl _ hlt
  · rcases hfg with hlt' | ⟨-, hlt'⟩
    · rw [hmarker] at hlt'
      exact lt_irrefl _ hlt'
    · omega

theorem Moved.lt_iff (hne : value ≠ []) (hi : Moved front value i i') (hj : Moved front value j j') :
    i < j ↔ i' < j' := by
  have hpos := List.length_pos_iff.2 hne
  have hlength := length_replacementBytes
  unfold Moved at hi hj
  omega

theorem Moved.le_iff (hne : value ≠ []) (hi : Moved front value i i') (hj : Moved front value j j') :
    i ≤ j ↔ i' ≤ j' := by
  rw [← not_lt, ← not_lt, hj.lt_iff hne hi]

/-- A field that holds another one is not settled. -/
theorem IsField.not_isSettled_of_inside (hf : IsField bytes f) (hg : IsField bytes g)
    (hinside : f.Inside g) : ¬ g.IsSettled bytes := fun hsettled =>
  (hf.not_inside_settled hg hsettled).elim (fun hlt => absurd hinside.1 (by omega))
    fun hle => absurd hinside.2 (by omega)

/-- The situation of a pass: the field of the value is the first that is not settled. -/
structure IsFirstOf (front value back : List UInt8) (f : Field) : Prop extends
    IsFieldOf front value back f where
  ne_nil : value ≠ []
  first : ∀ g, IsField (front ++ (value ++ back)) g → ¬ g.IsSettled (front ++ (value ++ back)) →
    g = f ∨ f.Before g

section First

variable (hslot : IsFirstOf front value back f)
include hslot

/-- The first field is not lost. -/
theorem IsFirstOf.not_lost : ¬ Lost (front ++ (value ++ back)) f := by
  rw [Lost]
  rintro ⟨g, hbefore, hg, hinside, -⟩
  rcases hslot.first g hg (hslot.isField.not_isSettled_of_inside hg hinside) with rfl | hfirst
  · exact hbefore.asymm hbefore
  · exact hfirst.asymm hbefore

/-- A field that begins in the value is lost. -/
theorem IsFirstOf.lost_of_inside (hg : IsField (front ++ (value ++ back)) g)
    (hopen : ¬ g.IsSettled (front ++ (value ++ back))) (hinside : g.Inside f) :
    Lost (front ++ (value ++ back)) g := by
  rw [Lost]
  rcases hslot.first g hg hopen with rfl | hfirst
  · have hstart := hslot.start_lt
    have hle := hinside.1
    rw [hslot.valueStart] at hle
    omega
  · exact ⟨f, hfirst, hslot.isField, hinside, hslot.not_lost⟩

/-- The parts of a kept field move with the line. -/
theorem IsFirstOf.moved (huncrossed : Uncrossed (front ++ (value ++ back)))
    (hg : IsField (front ++ (value ++ back)) g) (hkept : Kept front value back f g g') :
    g'.marker = g.marker ∧ Moved front value g.start g'.start ∧
      Moved front value g.valueStart g'.valueStart ∧ Moved front value g.valueEnd g'.valueEnd := by
  have hstart := hslot.start_lt
  have hlt := hg.start_lt_stop.trans hg.stop_lt
  cases hkept with
  | front hfront hend =>
    refine ⟨rfl, .inl ⟨by omega, rfl⟩, .inl ⟨by omega, rfl⟩, ?_⟩
    rcases hend with ⟨hend, rfl⟩ | ⟨hge, hend, -⟩ | hend
    · exact .inl ⟨hend.le, rfl⟩
    · -- the value would end inside the value of a field that it holds
      have hinside : f.Inside g := ⟨hfront, by omega⟩
      have hopen := hslot.isField.not_isSettled_of_inside hg hinside
      rcases hslot.first g hg hopen with rfl | hfirst
      · rw [hslot.valueStart] at hfront
        omega
      · have hcross := huncrossed f g hslot.isField hg hinside hfirst
        rw [hslot.valueStart, hslot.valueEnd] at hcross
        omega
    · exact .inr hend
  | self =>
    refine ⟨rfl, .inl ⟨hstart.le, rfl⟩, .inl ⟨hslot.valueStart.le, rfl⟩, .inr ⟨hslot.valueEnd.ge, ?_⟩⟩
    rw [hslot.valueEnd]
    dsimp only
    omega
  | behind hback =>
    have hmoved : ∀ i, Moved front value ((front ++ value).length + i)
        ((front ++ replacementBytes).length + i) := by
      intro i
      rw [List.length_append, List.length_append]
      exact .inr ⟨by omega, by omega⟩
    exact ⟨rfl, hmoved _, hmoved _, hmoved _⟩

section Moved

variable (huncrossed : Uncrossed (front ++ (value ++ back)))
  (hg : IsField (front ++ (value ++ back)) g) (hkept : Kept front value back f g g')
  (hh : IsField (front ++ (value ++ back)) h) (hkept' : Kept front value back f h h')
include huncrossed hg hkept hh hkept'

theorem IsFirstOf.inside_iff : g.Inside h ↔ g'.Inside h' := by
  obtain ⟨-, hstart, -, -⟩ := hslot.moved huncrossed hg hkept
  obtain ⟨-, -, hvalueStart, hvalueEnd⟩ := hslot.moved huncrossed hh hkept'
  exact and_congr (hvalueStart.le_iff hslot.ne_nil hstart) (hstart.lt_iff hslot.ne_nil hvalueEnd)

theorem IsFirstOf.before_iff : g.Before h ↔ g'.Before h' := by
  obtain ⟨hmarker, hstart, -, -⟩ := hslot.moved huncrossed hg hkept
  obtain ⟨hmarker', hstart', -, -⟩ := hslot.moved huncrossed hh hkept'
  unfold Field.Before
  rw [hmarker, hmarker', hstart.lt_iff hslot.ne_nil hstart']

end Moved

/-- A kept field does not begin in the value. -/
theorem IsFirstOf.not_inside_of_kept (hg : IsField (front ++ (value ++ back)) g)
    (hkept : Kept front value back f g g') : ¬ g.Inside f := by
  have hstart := hslot.start_lt
  have hlt := hg.start_lt_stop.trans hg.stop_lt
  unfold Field.Inside
  rw [hslot.valueStart, hslot.valueEnd]
  cases hkept with
  | front hfront => omega
  | self => omega
  | behind hback =>
    unfold Field.shift
    rw [List.length_append]
    dsimp only
    omega

/-- A pass does not change which of the kept fields are lost. -/
theorem IsFirstOf.lost_iff (huncrossed : Uncrossed (front ++ (value ++ back)))
    (hg : IsField (front ++ (value ++ back)) g) (hkept : Kept front value back f g g') :
    Lost (front ++ (value ++ back)) g ↔ Lost (front ++ (replacementBytes ++ back)) g' := by
  induction g using before_wf.induction generalizing g' with
  | h g ih =>
    rw [Lost, Lost]
    constructor
    · rintro ⟨h, hbefore, hh, hinside, hfound⟩
      have hopen := hg.not_isSettled_of_inside hh hinside
      -- the field that holds it is kept, or it would be lost
      have hout : ¬ h.Inside f := fun hinside' => hfound (hslot.lost_of_inside hh hopen hinside')
      obtain ⟨h', hh', hkept'⟩ := hslot.exists_new hh (by
        unfold Field.Inside at hout
        rw [hslot.valueStart, hslot.valueEnd] at hout
        omega)
      refine ⟨h', (hslot.before_iff huncrossed hh hkept' hg hkept).1 hbefore, hh',
        (hslot.inside_iff huncrossed hg hkept hh hkept').1 hinside, ?_⟩
      rwa [← ih h hbefore hh hkept']
    · rintro ⟨h', hbefore, hh', hinside, hfound⟩
      obtain ⟨h, hh, hkept'⟩ := hslot.exists_old hh'
      have hbefore' := (hslot.before_iff huncrossed hh hkept' hg hkept).2 hbefore
      refine ⟨h, hbefore', hh, (hslot.inside_iff huncrossed hg hkept hh hkept').2 hinside, ?_⟩
      rwa [ih h hbefore' hh hkept']

theorem IsFirstOf.meets_iff (huncrossed : Uncrossed (front ++ (value ++ back)))
    (hg : IsField (front ++ (value ++ back)) g) (hkept : Kept front value back f g g')
    (hi : Moved front value i i') (hj : Moved front value j j') : g.Meets i j ↔ g'.Meets i' j' := by
  obtain ⟨-, -, hvalueStart, hvalueEnd⟩ := hslot.moved huncrossed hg hkept
  exact and_congr (hvalueStart.lt_iff hslot.ne_nil hj) (hi.lt_iff hslot.ne_nil hvalueEnd)

/-- The values stay uncrossed. -/
theorem IsFirstOf.uncrossed (huncrossed : Uncrossed (front ++ (value ++ back))) :
    Uncrossed (front ++ (replacementBytes ++ back)) := by
  intro g' h' hg' hh' hinside hbefore
  obtain ⟨g, hg, hkept⟩ := hslot.exists_old hg'
  obtain ⟨h, hh, hkept'⟩ := hslot.exists_old hh'
  have hcross := huncrossed g h hg hh ((hslot.inside_iff huncrossed hg hkept hh hkept').2 hinside)
    ((hslot.before_iff huncrossed hg hkept hh hkept').2 hbefore)
  obtain ⟨-, -, hvalueStart, hvalueEnd⟩ := hslot.moved huncrossed hg hkept
  obtain ⟨-, -, -, hvalueEnd'⟩ := hslot.moved huncrossed hh hkept'
  rwa [hvalueEnd.le_iff hslot.ne_nil hvalueEnd', hvalueEnd'.lt_iff hslot.ne_nil hvalueStart] at hcross

/-- A kept field that is not settled is the field of the value or is not settled afterwards. -/
theorem IsFirstOf.not_isSettled_of_kept (hg : IsField (front ++ (value ++ back)) g)
    (hg' : IsField (front ++ (replacementBytes ++ back)) g') (hkept : Kept front value back f g g')
    (hne : g ≠ f) (hopen : ¬ g.IsSettled (front ++ (value ++ back))) :
    ¬ g'.IsSettled (front ++ (replacementBytes ++ back)) := by
  intro hsettled
  refine hopen ?_
  cases hkept with
  | front hfront hend =>
    have hstart := hslot.start_lt
    have hend' := (hslot.replaced.isField.not_inside_settled hg' hsettled).resolve_left (by
      dsimp only
      omega)
    dsimp only at hend'
    rcases hend with ⟨hlt, rfl⟩ | ⟨-, -, hge⟩ | ⟨hge, heq⟩
    · unfold Field.IsSettled at hsettled ⊢
      rw [Field.value_append hlt.le] at hsettled ⊢
      exact hsettled
    · omega
    · omega
  | self => exact absurd rfl hne
  | behind hback =>
    unfold Field.IsSettled at hsettled ⊢
    rw [← List.append_assoc, Field.value_shift] at hsettled ⊢
    exact hsettled

end First

end Kyth.Redact

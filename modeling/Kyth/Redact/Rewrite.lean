import Kyth.Redact.Fields

/-!
# A line with a value replaced

No marker occurs in the replacement, so the fields of the line with a value replaced are the field of
that value, which is settled now, the fields in front of it and the fields behind it. The value of a
field in front may have held the replaced field; it was not settled then. So one field fewer is left to
settle: `card_unsettled_lt`.
-/

namespace Kyth.Redact

open ByteText Scan Utf8Text

/-- The bytes of the replacement. -/
def replacementBytes : List UInt8 := encode replacement

/-- The field of a line that consists of what stands in front of its value, the value, and what stands
behind it. -/
structure IsFieldOf (front value back : List UInt8) (f : Field) : Prop where
  isField : IsField (front ++ (value ++ back)) f
  valueStart : f.valueStart = front.length
  valueEnd : f.valueEnd = front.length + value.length

variable {bytes front value back marker : List UInt8} {f g : Field} {quote : Option UInt8} {i : ℕ}

/-! ### The replacement -/

theorem length_replacementBytes : replacementBytes.length = 10 := by decide

/-- The replacement does not end a value, and does not open one. -/
theorem isInside_of_mem_replacement (hquote : ∀ q ∈ quote, isQuote q = true) :
    ∀ b ∈ replacementBytes, isInside quote b = true := by
  have hall : replacementBytes.all fun b => isInside none b && !isQuote b := by decide
  intro b hb
  have hb := List.all_eq_true.1 hall b hb
  rw [Bool.and_eq_true, Bool.not_eq_true'] at hb
  cases quote with
  | none => exact hb.1
  | some q =>
    have hne : b ≠ q := by
      rintro rfl
      rw [hquote b rfl] at hb
      exact absurd hb.2 (by simp)
    simp [isInside, hne]

theorem not_opening_replacement (back : List UInt8) :
    holdsAt (fun b => isBlank b || isQuote b) (replacementBytes ++ back) 0 = false := by
  rw [holdsAt_append_left (by rw [length_replacementBytes]; omega)]
  decide

/-- No marker occurs in the replacement. -/
theorem not_prefix_replacement (h : marker ∈ markers) (i : ℕ) :
    ¬ marker <+: (replacementBytes.map lowerByte).drop i := by
  have hall : markers.all fun marker => (List.range 10).all fun i =>
      !marker.isPrefixOf ((replacementBytes.map lowerByte).drop i) := by decide
  intro hprefix
  rcases lt_or_ge i 10 with hlt | hge
  · have hfalse := List.all_eq_true.1 (List.all_eq_true.1 hall marker h) i (List.mem_range.2 hlt)
    rw [List.isPrefixOf_iff_prefix.2 hprefix] at hfalse
    cases hfalse
  · rw [List.drop_eq_nil_of_le (by rw [List.length_map, length_replacementBytes]; omega)] at hprefix
    exact (marker_spec h).1 (List.prefix_nil.1 hprefix)

/-- No field begins in a replacement. -/
theorem IsField.not_start_in_replacement (h : IsField (front ++ (replacementBytes ++ back)) f) :
    f.start < front.length ∨ front.length + 10 ≤ f.start := by
  by_contra hin
  obtain ⟨d, hd⟩ : ∃ d, f.start = front.length + d := Nat.exists_eq_add_of_le (by omega)
  have hlength := length_replacementBytes
  -- the word of the marker ends in front of the bracket that closes the replacement
  have hclose : holdsAt isWord (front ++ (replacementBytes ++ back)) (front.length + 9) = false := by
    rw [holdsAt_append_right (by omega), Nat.add_sub_cancel_left, holdsAt_append_left (by omega)]
    decide
  have hstop : f.stop ≤ front.length + 9 := by
    by_contra hlt
    rw [h.holdsAt_isWord (by omega) (by omega)] at hclose
    cases hclose
  have hoccurs := h.isMarkerAt.1
  have hdrop : (front.map lowerByte ++ (replacementBytes ++ back).map lowerByte).drop
      ((front.map lowerByte).length + d) = ((replacementBytes ++ back).map lowerByte).drop d :=
    List.drop_length_add_append d
  rw [List.length_map] at hdrop
  rw [List.map_append, hd, hdrop, List.map_append, prefix_drop_append] at hoccurs
  · exact not_prefix_replacement h.marker_mem d hoccurs
  · rw [List.length_map, hlength]
    unfold Field.stop at hstop
    omega

/-! ### The value of a field in its line -/

theorem IsField.valueEnd_le (h : IsField bytes f) : f.valueEnd ≤ bytes.length := by
  obtain ⟨quote, -, hend⟩ := h.exists_opening
  have hstop := h.stop_lt
  have hgap := lt_length_of_holdsAt (h.holdsAt_isGap (k := f.valueStart - 1) (by omega) (by omega))
  rw [hend]
  exact skipWhile_le_length (by omega)

/-- The line of a field, taken apart. -/
theorem IsField.isFieldOf (h : IsField bytes f) :
    bytes.take f.valueStart ++ (f.value bytes ++ bytes.drop f.valueEnd) = bytes ∧
      IsFieldOf (bytes.take f.valueStart) (f.value bytes) (bytes.drop f.valueEnd) f := by
  have hend := h.valueEnd_le
  have hstart := h.valueStart_le
  have hvalue : f.value bytes ++ bytes.drop f.valueEnd = bytes.drop f.valueStart := by
    have hdrop : bytes.drop f.valueEnd = (bytes.drop f.valueStart).drop (f.valueEnd - f.valueStart) := by
      rw [List.drop_drop, Nat.add_sub_cancel' hstart]
    rw [Field.value, List.drop_take, hdrop, List.take_append_drop]
  have hbytes : bytes.take f.valueStart ++ (f.value bytes ++ bytes.drop f.valueEnd) = bytes := by
    rw [hvalue, List.take_append_drop]
  refine ⟨hbytes, hbytes.symm ▸ h, ?_, ?_⟩
  · rw [List.length_take]
    omega
  · rw [Field.value, List.length_drop, List.length_take, List.length_take]
    omega

theorem IsFieldOf.value_eq (h : IsFieldOf front value back f) :
    f.value (front ++ (value ++ back)) = value := by
  rw [Field.value, h.valueStart, h.valueEnd, ← List.append_assoc,
    List.take_append_of_le_length (by rw [List.length_append]),
    List.take_of_length_le (by rw [List.length_append]), List.drop_left]

theorem Field.value_shift (f : Field) (front back : List UInt8) :
    (f.shift front.length).value (front ++ back) = f.value back := by
  unfold Field.value Field.shift
  rw [List.take_length_add_append, List.drop_length_add_append]

/-- A value in front is the same whatever stands behind. -/
theorem Field.value_append (h : f.valueEnd ≤ front.length) (back : List UInt8) :
    f.value (front ++ back) = f.value front := by
  unfold Field.value
  rw [List.take_append_of_le_length h]

/-- The marker of a field does not lie in a settled value. -/
theorem IsField.not_inside_settled (hf : IsField bytes f) (hg : IsField bytes g)
    (hsettled : g.IsSettled bytes) : f.start < g.valueStart ∨ g.valueEnd ≤ f.start := by
  obtain ⟨hbytes, -, hstart, hend⟩ := hg.isFieldOf
  rw [hstart, hend]
  rcases hsettled with hnil | hvalue
  · rw [hnil, List.length_nil]
    exact lt_or_ge _ _
  · rw [← hbytes, hvalue] at hf
    rw [hvalue, ← replacementBytes, length_replacementBytes]
    exact hf.not_start_in_replacement

/-! ### Replacing the value of a field -/

section Replace

variable (hslot : IsFieldOf front value back f)
include hslot

theorem IsFieldOf.not_isWord_back : holdsAt isWord back 0 = false := by
  have hword := hslot.isField.not_isWord_valueEnd
  rw [hslot.valueEnd, ← List.append_assoc, holdsAt_append_right (by rw [List.length_append]),
    List.length_append, Nat.sub_self] at hword
  exact hword

/-- The other fields of the line lie in front of the field, in its value or behind it. -/
theorem IsFieldOf.cases (hg : IsField (front ++ (value ++ back)) g) :
    g.valueStart ≤ f.start ∨ g = f ∨
      (front.length ≤ g.start ∧ g.start < front.length + value.length) ∨
      ∃ g', IsField back g' ∧ g = g'.shift (front ++ value).length := by
  rcases lt_trichotomy g.start f.start with hlt | heq | hgt
  · exact .inl (hg.valueStart_le_start hslot.isField hlt)
  · exact .inr (.inl (hg.eq_of_start hslot.isField heq))
  · have hle := hslot.isField.valueStart_le_start hg hgt
    rw [hslot.valueStart] at hle
    rcases lt_or_ge g.start (front.length + value.length) with hin | hout
    · exact .inr (.inr (.inl ⟨hle, hin⟩))
    · rw [← List.append_assoc] at hg
      exact .inr (.inr (.inr (hg.exists_shift hslot.not_isWord_back
        (by rw [List.length_append]; exact hout))))

/-- The field has the replacement for its value now. -/
theorem IsFieldOf.replaced : IsFieldOf front replacementBytes back
    { f with valueEnd := front.length + replacementBytes.length } := by
  obtain ⟨quote, hopening, hend⟩ := hslot.isField.exists_opening
  have hquote := (opening_spec hopening).2.2
  have hopening' : opening (front ++ (replacementBytes ++ back)) f.stop = some (f.valueStart, quote) :=
    opening_append_congr hopening (.inr ⟨hslot.valueStart, .inr (not_opening_replacement back)⟩)
  have hback : skipWhile (isInside quote) back 0 = 0 := by
    refine skipWhile_eq_iff.2 ⟨le_rfl, fun k hk hlt => absurd hlt (Nat.not_lt_zero k), ?_⟩
    have hstop : holdsAt (isInside quote) (front ++ (value ++ back)) f.valueEnd = false :=
      hend ▸ not_holdsAt_skipWhile
    rw [hslot.valueEnd, ← List.append_assoc, holdsAt_append_right (by rw [List.length_append]),
      List.length_append, Nat.sub_self] at hstop
    exact hstop
  refine ⟨⟨hslot.isField.marker_mem, ?_, ?_⟩, hslot.valueStart, rfl⟩
  · have hstop := hslot.isField.stop_lt
    have hstart := hslot.valueStart
    exact hslot.isField.isMarkerAt.append_congr (by unfold Field.stop at hstop; omega)
  · have hscan := skipWhile_append_right (p := isInside quote) front (replacementBytes ++ back) 0
    rw [Nat.add_zero, skipWhile_append_of_forall (isInside_of_mem_replacement hquote), hback] at hscan
    change (opening _ f.stop).map _ = _
    rw [hopening', Option.map_some, hslot.valueStart, hscan]
    rfl

end Replace

/-- Where the value of a field in front ends before and after the replacement: in front of the replaced
value both times, behind it both times, or inside it before. -/
def EndMoves (front value : List UInt8) (oldEnd newEnd : ℕ) : Prop :=
  oldEnd < front.length ∧ newEnd = oldEnd ∨
    front.length ≤ oldEnd ∧ oldEnd < front.length + value.length ∧
      front.length + replacementBytes.length ≤ newEnd ∨
    front.length + value.length ≤ oldEnd ∧
      newEnd + value.length = oldEnd + replacementBytes.length

/-- A field of the line and what it is after the replacement of the value of `f`. -/
inductive Kept (front value back : List UInt8) (f : Field) : Field → Field → Prop
  /-- A field in front, whose value may hold the replaced field. -/
  | front {g : Field} {newEnd : ℕ} (hfront : g.valueStart ≤ f.start)
      (hend : EndMoves front value g.valueEnd newEnd) :
      Kept front value back f g { g with valueEnd := newEnd }
  /-- The field of the replaced value. -/
  | self : Kept front value back f f { f with valueEnd := front.length + replacementBytes.length }
  /-- A field behind the replaced value. -/
  | behind {h : Field} (hback : IsField back h) :
      Kept front value back f (h.shift (front ++ value).length)
        (h.shift (front ++ replacementBytes).length)

section Kept

variable (hslot : IsFieldOf front value back f)
include hslot

theorem IsFieldOf.start_lt : f.start < front.length := by
  have hstart := hslot.isField.start_lt_stop
  have hstop := hslot.isField.stop_lt
  rw [hslot.valueStart] at hstop
  omega

/-- The end of a field in front moves. -/
theorem IsFieldOf.endMoves (hfront : g.valueStart ≤ f.start) (hquote : ∀ q ∈ quote, isQuote q = true) :
    EndMoves front value (skipWhile (isInside quote) (front ++ (value ++ back)) g.valueStart)
      (skipWhile (isInside quote) (front ++ (replacementBytes ++ back)) g.valueStart) :=
  skipWhile_replace (hfront.trans hslot.start_lt.le) (isInside_of_mem_replacement hquote)

/-- A field of the line is kept, unless it begins in the value. -/
theorem IsFieldOf.exists_new (hg : IsField (front ++ (value ++ back)) g)
    (hout : g.start < front.length ∨ front.length + value.length ≤ g.start) :
    ∃ g', IsField (front ++ (replacementBytes ++ back)) g' ∧ Kept front value back f g g' := by
  rcases hslot.cases hg with hfront | rfl | hin | ⟨h, hh, rfl⟩
  · obtain ⟨quote, hquote, hend, hall⟩ := hg.exists_front (hfront.trans_lt hslot.start_lt)
    exact ⟨_, hall _, .front hfront (hend ▸ hslot.endMoves hfront hquote)⟩
  · exact ⟨_, hslot.replaced.isField, .self⟩
  · omega
  · refine ⟨_, ?_, .behind hh⟩
    rw [← List.append_assoc]
    exact (isField_shift hslot.not_isWord_back _ _).2 hh

/-- A field of the line with the value replaced comes from a field of the line. -/
theorem IsFieldOf.exists_old {g' : Field} (hg : IsField (front ++ (replacementBytes ++ back)) g') :
    ∃ g, IsField (front ++ (value ++ back)) g ∧ Kept front value back f g g' := by
  rcases hslot.replaced.cases hg with hfront | rfl | hin | ⟨h, hh, rfl⟩
  · obtain ⟨quote, hquote, hend, hall⟩ := hg.exists_front (hfront.trans_lt hslot.start_lt)
    refine ⟨_, hall (value ++ back), ?_⟩
    have hmoves := hslot.endMoves (g := g') hfront hquote
    rw [← hend] at hmoves
    exact .front (g := { g' with valueEnd := _ }) hfront hmoves
  · exact ⟨f, hslot.isField, .self⟩
  · rw [length_replacementBytes] at hin
    have hout := hg.not_start_in_replacement
    omega
  · refine ⟨_, ?_, .behind hh⟩
    rw [← List.append_assoc]
    exact (isField_shift hslot.not_isWord_back _ _).2 hh

/-- A kept field that was settled is settled. -/
theorem IsFieldOf.isSettled_of_kept {g' : Field} (hg : IsField (front ++ (value ++ back)) g)
    (hkept : Kept front value back f g g') (hsettled : g.IsSettled (front ++ (value ++ back))) :
    g'.IsSettled (front ++ (replacementBytes ++ back)) := by
  cases hkept with
  | front hfront hend =>
    -- a settled value does not hold the marker of the field, so it ends in front
    have hstart := hslot.start_lt
    have hend' : g.valueEnd ≤ f.start :=
      (hslot.isField.not_inside_settled hg hsettled).resolve_left (by omega)
    rcases hend with ⟨hlt, rfl⟩ | ⟨hge, -⟩ | ⟨hge, -⟩
    · unfold Field.IsSettled at hsettled ⊢
      rw [Field.value_append hlt.le] at hsettled ⊢
      exact hsettled
    · omega
    · omega
  | self =>
    exact .inr hslot.replaced.value_eq
  | behind hback =>
    unfold Field.IsSettled at hsettled ⊢
    rw [← List.append_assoc, Field.value_shift] at hsettled ⊢
    exact hsettled

end Kept

/-! ### The fields that are left to settle -/

open Classical in
/-- Where the fields begin whose values are to be replaced. -/
noncomputable def unsettled (bytes : List UInt8) : Finset ℕ :=
  (Finset.range bytes.length).filter fun start =>
    ∃ g, IsField bytes g ∧ g.start = start ∧ ¬ g.IsSettled bytes

theorem mem_unsettled : i ∈ unsettled bytes ↔
    ∃ g, IsField bytes g ∧ g.start = i ∧ ¬ g.IsSettled bytes := by
  classical
  rw [unsettled, Finset.mem_filter, Finset.mem_range]
  refine and_iff_right_of_imp ?_
  rintro ⟨g, hg, rfl, -⟩
  exact lt_length_of_holdsAt (hg.holdsAt_isWord le_rfl hg.start_lt_stop)

theorem card_unsettled_le (bytes : List UInt8) : (unsettled bytes).card ≤ bytes.length := by
  classical
  refine (Finset.card_filter_le _ _).trans ?_
  rw [Finset.card_range]

/-- Where a field of the line with the value replaced began. -/
def oldStart (front value : List UInt8) (start : ℕ) : ℕ :=
  if start < front.length then start else start + value.length - replacementBytes.length

theorem Kept.start_eq (hslot : IsFieldOf front value back f) {g' : Field}
    (hg : IsField (front ++ (value ++ back)) g) (h : Kept front value back f g g') :
    g.start = oldStart front value g'.start := by
  have hstart := hslot.start_lt
  have hlt := hg.start_lt_stop.trans hg.stop_lt
  unfold oldStart
  cases h with
  | front hfront => exact (if_pos (by dsimp only; omega)).symm
  | self => exact (if_pos hstart).symm
  | behind hback =>
    simp only [Field.shift, List.length_append]
    rw [if_neg (by omega)]
    omega

/-- Replacing the value of a field that is not settled leaves one field fewer to settle. -/
theorem IsFieldOf.card_unsettled_lt (hslot : IsFieldOf front value back f)
    (h : ¬ f.IsSettled (front ++ (value ++ back))) :
    (unsettled (front ++ (replacementBytes ++ back))).card <
      (unsettled (front ++ (value ++ back))).card := by
  have hmem : f.start ∈ unsettled (front ++ (value ++ back)) :=
    mem_unsettled.2 ⟨f, hslot.isField, rfl, h⟩
  rw [← Finset.card_erase_add_one hmem, Nat.lt_succ_iff]
  refine Finset.card_le_card_of_injOn (oldStart front value) (fun i hi => ?_) fun i hi j hj heq => ?_
  · obtain ⟨g', hg', rfl, hopen⟩ := mem_unsettled.1 hi
    obtain ⟨g, hg, hkept⟩ := hslot.exists_old hg'
    rw [← hkept.start_eq hslot hg]
    have hopen' : ¬ g.IsSettled (front ++ (value ++ back)) :=
      fun hsettled => hopen (hslot.isSettled_of_kept hg hkept hsettled)
    refine Finset.mem_coe.2 (Finset.mem_erase.2 ⟨fun hstart => ?_, mem_unsettled.2 ⟨g, hg, rfl, hopen'⟩⟩)
    -- the field that begins there has the replacement for its value
    have hnew := hkept.start_eq hslot hg
    have hsame : g' = { f with valueEnd := front.length + replacementBytes.length } := by
      refine hg'.eq_of_start hslot.replaced.isField ?_
      change g'.start = f.start
      have hlt := hslot.start_lt
      have hout := hg'.not_start_in_replacement
      rw [hstart] at hnew
      unfold oldStart at hnew
      rw [length_replacementBytes] at hnew
      split_ifs at hnew <;> omega
    exact hopen (hsame ▸ .inr hslot.replaced.value_eq)
  · obtain ⟨g, hg, rfl, -⟩ := mem_unsettled.1 hi
    obtain ⟨g', hg', rfl, -⟩ := mem_unsettled.1 hj
    have hout := hg.not_start_in_replacement
    have hout' := hg'.not_start_in_replacement
    unfold oldStart at heq
    rw [length_replacementBytes] at heq
    split_ifs at heq <;> omega

end Kyth.Redact

import Kyth.Redact.Rewrite

/-!
# The passes over a line

A pass replaces the value of the first field that is not settled, in the order of the markers and then
of the places, and changes nothing when all are settled: `pass_cases`. It slices the line next to ASCII
bytes only. As every pass leaves fewer fields to settle, the passes come to an end, on a line in which
every field is settled: `redactSensitiveLine_settles`.
-/

namespace Kyth.Redact

open Boundary ByteText Scan Utf8Text

/-- One field is looked at before another: its marker comes before, or it stands in front. -/
def Field.Before (f g : Field) : Prop :=
  markers.idxOf f.marker < markers.idxOf g.marker ∨ f.marker = g.marker ∧ f.start < g.start

/-- The line becomes another one by the replacement of the value of a field that is not settled. -/
inductive Replaces (f : Field) : List Char → List Char → Prop
  | mk {before value after : List Char} (hslot : IsFieldOf (encode before) (encode value) (encode after) f)
      (hne : value ≠ []) (hvalue : value ≠ replacement) :
      Replaces f (before ++ (value ++ after)) (before ++ (replacement ++ after))

/-- A pass that replaces a value: that of the first field that is not settled. -/
def Pass (line next : List Char) : Prop :=
  ∃ f, Replaces f line next ∧
    ∀ g, IsField (encode line) g → ¬ g.IsSettled (encode line) → g = f ∨ f.Before g

variable {line next before value after : List Char} {marker : List UInt8} {f g : Field} {fuel : ℕ}
  {searchFrom start stop : ℕ}

/-! ### The slices of a field -/

theorem isAscii_of_isWord {b : UInt8} (h : isWord b = true) : isAscii b = true := by
  unfold isWord at h
  simp only [Bool.or_eq_true, Bool.and_eq_true, decide_eq_true_eq, beq_iff_eq] at h
  exact decide_eq_true (by omega)

/-- A line can be sliced at the ends of the value of a field. -/
theorem IsField.exists_slices (h : IsField (encode line) f) : ∃ before value after,
    line = before ++ (value ++ after) ∧
      IsFieldOf (encode before) (encode value) (encode after) f := by
  obtain ⟨quote, hopening, hend⟩ := h.exists_opening
  obtain ⟨hlt, hgap, hquote⟩ := opening_spec hopening
  have hle := h.valueEnd_le
  have hstart := h.valueStart_le
  -- in front of the value there is a byte of the gap
  obtain ⟨b, hb, hbgap⟩ := holdsAt_iff.1 (hgap (f.valueStart - 1) (by omega) (by omega))
  obtain ⟨before, rest, rfl, hbefore⟩ := exists_cut_behind hb (isAscii_of_isGap hbgap)
  have hlength : (encode before).length = f.valueStart := by
    rw [hbefore, List.length_take]
    omega
  -- and behind it a byte that ends it
  have hstop : ∀ b, (encode rest)[f.valueEnd - f.valueStart]? = some b → isAscii b = true := by
    intro b hb
    refine isAscii_of_not_isInside hquote (Bool.eq_false_iff.2 fun hinside => ?_)
    have hpass : holdsAt (isInside quote) (encode (before ++ rest)) f.valueEnd = true := by
      rw [encode_append, holdsAt_append_right (by omega), hlength]
      exact holdsAt_iff.2 ⟨b, hb, hinside⟩
    rw [hend, not_holdsAt_skipWhile] at hpass
    cases hpass
  obtain ⟨value, after, rfl, hvalue⟩ := exists_cut_front hstop
  refine ⟨before, value, after, rfl, ?_, hlength.symm, ?_⟩
  · rwa [encode_append, encode_append] at h
  · rw [encode_append, encode_append, List.length_append, List.length_append] at hle
    have hlengthv := congrArg List.length hvalue
    rw [encode_append, List.length_take, List.length_append] at hlengthv
    omega

section Slices

variable (hslot : IsFieldOf (encode before) (encode value) (encode after) f)
include hslot

theorem IsFieldOf.splitBytes_valueStart :
    splitBytes (before ++ (value ++ after)) f.valueStart = some (before, value ++ after) :=
  splitBytes_eq_some.2 ⟨rfl, by rw [hslot.valueStart, length_encode]⟩

theorem IsFieldOf.splitBytes_valueEnd :
    splitBytes (before ++ (value ++ after)) f.valueEnd = some (before ++ value, after) := by
  refine splitBytes_eq_some.2 ⟨(List.append_assoc _ _ _).symm, ?_⟩
  rw [hslot.valueEnd, byteLength_append, length_encode, length_encode]

theorem IsFieldOf.slice_eq :
    slice (before ++ (value ++ after)) f.valueStart f.valueEnd = some value := by
  have hfront : splitBytes (before ++ value) f.valueStart = some (before, value) :=
    splitBytes_eq_some.2 ⟨rfl, by rw [hslot.valueStart, length_encode]⟩
  simp [slice, hslot.splitBytes_valueEnd, hfront]

theorem IsFieldOf.replaceValue_eq :
    replaceValue (before ++ (value ++ after)) f.valueStart f.valueEnd =
      some (before ++ (replacement ++ after)) := by
  simp [replaceValue, hslot.splitBytes_valueEnd, hslot.splitBytes_valueStart]

theorem IsFieldOf.valueStart_eq_valueEnd : f.valueStart = f.valueEnd ↔ value = [] := by
  rw [hslot.valueStart, hslot.valueEnd, length_encode value, eq_comm, Nat.add_eq_left,
    byteLength_eq_zero]

theorem IsFieldOf.isSettled_iff :
    f.IsSettled (encode (before ++ (value ++ after))) ↔ value = [] ∨ value = replacement := by
  unfold Field.IsSettled
  rw [encode_append, encode_append, hslot.value_eq, ← encode_nil, encode_injective.eq_iff,
    encode_injective.eq_iff]

end Slices

theorem Replaces.not_isSettled (h : Replaces f line next) :
    IsField (encode line) f ∧ ¬ f.IsSettled (encode line) := by
  cases h with
  | mk hslot hne hvalue =>
    refine ⟨by rw [encode_append, encode_append]; exact hslot.isField, fun hsettled => ?_⟩
    exact (hslot.isSettled_iff.1 hsettled).elim hne hvalue

/-! ### The search for a marker -/

theorem encode_lower_append (before after : List Char) :
    (encode (before ++ after)).map lowerByte =
      (encode before).map lowerByte ++ encode (after.map Str.charLower) := by
  rw [encode_append, List.map_append, encode_lower]

theorem splitBytes_lower (before after : List Char) :
    splitBytes ((before ++ after).map Str.charLower) (byteLength before) =
      some (before.map Str.charLower, after.map Str.charLower) := by
  refine splitBytes_eq_some.2 ⟨List.map_append, ?_⟩
  rw [← length_encode, encode_lower, List.length_map, length_encode]

/-- What the search for a marker finds from a position on. -/
def Found (line : List Char) (marker : List UInt8) (searchFrom : ℕ) (found : Option (List Char)) : Prop :=
  match found with
  | none => ∀ g, IsField (encode line) g → g.marker = marker → searchFrom ≤ g.start →
      g.IsSettled (encode line)
  | some next => ∃ f, Replaces f line next ∧ f.marker = marker ∧
      ∀ g, IsField (encode line) g → g.marker = marker → searchFrom ≤ g.start →
        ¬ g.IsSettled (encode line) → f.start ≤ g.start

/-- The search may go on behind fields that are settled. -/
theorem Found.skip {found : Option (List Char)} (h : Found line marker stop found)
    (hskip : ∀ g, IsField (encode line) g → g.marker = marker → searchFrom ≤ g.start → g.start < stop →
      g.IsSettled (encode line)) : Found line marker searchFrom found := by
  cases found with
  | none =>
    intro g hg hmarker hle
    exact (lt_or_ge g.start stop).elim (hskip g hg hmarker hle) (h g hg hmarker)
  | some next =>
    obtain ⟨f, hreplaces, hmarker, hfirst⟩ := h
    refine ⟨f, hreplaces, hmarker, fun g hg hgmarker hle hopen => ?_⟩
    exact hfirst g hg hgmarker (not_lt.1 fun hlt => hopen (hskip g hg hgmarker hle hlt)) hopen

/-- The step of the search where the marker is found. -/
theorem searchMarker_succ (hcut : line = before ++ after) (hfrom : byteLength before = searchFrom) :
    searchMarker line marker (fuel + 1) searchFrom =
      match find marker (encode (after.map Str.charLower)) with
      | none => some none
      | some relative =>
          if isBounded ((encode line).map lowerByte) (searchFrom + relative)
              (searchFrom + relative + marker.length) then
            match valueRange (encode line) (searchFrom + relative + marker.length) with
            | none => searchMarker line marker fuel (searchFrom + relative + marker.length)
            | some (valueStart, valueEnd) =>
                if valueStart = valueEnd then
                  searchMarker line marker fuel (searchFrom + relative + marker.length)
                else do
                  let value ← slice line valueStart valueEnd
                  if value = replacement then searchMarker line marker fuel valueEnd
                  else some <$> replaceValue line valueStart valueEnd
          else searchMarker line marker fuel (searchFrom + relative + marker.length) := by
  subst hcut hfrom
  rw [searchMarker, splitBytes_lower, ← encode_lower]
  rfl

/-- The search comes to an end without a panic, and finds the first field of the marker that is not
settled. -/
theorem searchMarker_found (hmem : marker ∈ markers)
    (hcut : ∃ before after, line = before ++ after ∧ byteLength before = searchFrom)
    (hfuel : byteLength line < searchFrom + fuel) :
    ∃ found, searchMarker line marker fuel searchFrom = some found ∧
      Found line marker searchFrom found := by
  obtain ⟨hne, hword⟩ := marker_spec hmem
  have hpos := List.length_pos_iff.2 hne
  induction fuel generalizing searchFrom with
  | zero =>
    obtain ⟨before, after, rfl, rfl⟩ := hcut
    rw [byteLength_append] at hfuel
    omega
  | succ fuel ih =>
    obtain ⟨before, after, hline, hfrom⟩ := hcut
    rw [searchMarker_succ hline hfrom]
    -- a place in the rest is a place in the line
    have hdrop : ∀ d, ((encode line).map lowerByte).drop (searchFrom + d) =
        (encode (after.map Str.charLower)).drop d := by
      intro d
      have hlength : ((encode before).map lowerByte).length = searchFrom := by
        rw [List.length_map, length_encode, hfrom]
      rw [hline, encode_lower_append, ← hlength, List.drop_length_add_append]
    cases hfind : find marker (encode (after.map Str.charLower)) with
    | none =>
      refine ⟨none, rfl, fun g hg hmarker hle => ?_⟩
      obtain ⟨d, hd⟩ := Nat.exists_eq_add_of_le hle
      have hoccurs := hg.isMarkerAt.1
      rw [hmarker, hd, hdrop] at hoccurs
      exact absurd hoccurs (find_eq_none hne hfind d)
    | some relative =>
      obtain ⟨hoccurs, hnone⟩ := find_eq_some hfind
      rw [← hdrop] at hoccurs
      dsimp only
      generalize hstart : searchFrom + relative = start at hoccurs ⊢
      generalize hstop : start + marker.length = stop at hoccurs ⊢
      have hfirst : ∀ g, IsField (encode line) g → g.marker = marker → searchFrom ≤ g.start →
          start ≤ g.start := by
        intro g hg hmarker hle
        obtain ⟨d, hd⟩ := Nat.exists_eq_add_of_le hle
        have hoccurs := hg.isMarkerAt.1
        rw [hmarker, hd, hdrop] at hoccurs
        have hrelative := not_lt.1 fun hlt => hnone d hlt hoccurs
        omega
      have hinside : ∀ k, start ≤ k → k < stop → holdsAt isWord (encode line) k = true := by
        intro k hk hlt
        rw [← holdsAt_isWord_lower]
        exact holdsAt_of_prefix_drop hoccurs hword hk (by omega)
      have hcut : ∃ before after, line = before ++ after ∧ byteLength before = stop := by
        obtain ⟨b, hb, hbword⟩ := holdsAt_iff.1 (hinside (stop - 1) (by omega) (by omega))
        obtain ⟨before, after, hline, hbefore⟩ := exists_cut_behind hb (isAscii_of_isWord hbword)
        refine ⟨before, after, hline, ?_⟩
        have hlt := (List.getElem?_eq_some_iff.1 hb).1
        rw [← length_encode, hbefore, List.length_take]
        omega
      -- between the ends of a marker no field begins
      have hskip : (∀ g, IsField (encode line) g → g.marker = marker → g.start = start →
          g.IsSettled (encode line)) →
          ∀ g, IsField (encode line) g → g.marker = marker → searchFrom ≤ g.start → g.start < stop →
            g.IsSettled (encode line) := by
        intro hsettled g hg hmarker hle hlt
        rcases (hfirst g hg hmarker hle).eq_or_lt with heq | hgt
        · exact hsettled g hg hmarker heq.symm
        · rcases (isMarkerAt_iff.1 hg.isMarkerAt).2.1 with hzero | hbefore
          · omega
          · rw [hinside (g.start - 1) (by omega) (by omega)] at hbefore
            cases hbefore
      have hnext := ih hcut (by omega)
      have hgoes : (∀ g, IsField (encode line) g → g.marker = marker → g.start = start →
          g.IsSettled (encode line)) →
          ∃ found, searchMarker line marker fuel stop = some found ∧
            Found line marker searchFrom found := by
        intro hsettled
        obtain ⟨found, hfound, hspec⟩ := hnext
        exact ⟨found, hfound, hspec.skip (hskip hsettled)⟩
      by_cases hbounded : isBounded ((encode line).map lowerByte) start stop = true
      · rw [if_pos hbounded]
        cases hrange : valueRange (encode line) stop with
        | none =>
          refine hgoes fun g hg hmarker hgstart => ?_
          have hsome := hg.range
          rw [Field.stop, hmarker, hgstart, hstop, hrange] at hsome
          cases hsome
        | some range =>
          obtain ⟨valueStart, valueEnd⟩ := range
          have hfield : IsField (encode line) ⟨marker, start, valueStart, valueEnd⟩ :=
            ⟨hmem, ⟨hoccurs, hstop ▸ hbounded⟩, by rw [Field.stop, hstop, hrange]⟩
          obtain ⟨before, value, after, rfl, hslot⟩ := hfield.exists_slices
          dsimp only
          by_cases hnil : valueStart = valueEnd
          · rw [if_pos hnil]
            refine hgoes fun g hg hmarker hgstart => ?_
            rw [hg.eq_of_start hfield hgstart]
            exact hslot.isSettled_iff.2 (.inl (hslot.valueStart_eq_valueEnd.1 hnil))
          · rw [if_neg hnil, hslot.slice_eq, Option.bind_eq_bind, Option.bind_some]
            by_cases hvalue : value = replacement
            · -- the search goes on behind a value that was replaced before
              have hsettled := hslot.isSettled_iff.2 (.inr hvalue)
              have hend : ∃ front back, before ++ (value ++ after) = front ++ back ∧
                  byteLength front = valueEnd := by
                refine ⟨before ++ value, after, (List.append_assoc _ _ _).symm, ?_⟩
                rw [byteLength_append, ← length_encode, ← length_encode]
                exact hslot.valueEnd.symm
              have hstop' : stop < valueStart := by
                have hlt := hfield.stop_lt
                rwa [Field.stop, hstop] at hlt
              have hle : valueStart ≤ valueEnd := hfield.valueStart_le
              obtain ⟨found, hfound, hspec⟩ := ih hend (by omega)
              rw [if_pos hvalue]
              refine ⟨found, hfound, hspec.skip fun g hg hmarker hge hlt => ?_⟩
              rcases (hfirst g hg hmarker hge).eq_or_lt with heq | hgt
              · exact hg.eq_of_start hfield heq.symm ▸ hsettled
              · have hbehind : valueStart ≤ g.start := hfield.valueStart_le_start hg hgt
                have hout := hg.not_inside_settled hfield hsettled
                dsimp only at hout
                omega
            · rw [if_neg hvalue, hslot.replaceValue_eq]
              refine ⟨some _, rfl, ⟨marker, start, valueStart, valueEnd⟩, ⟨hslot, ?_, hvalue⟩, rfl,
                fun g hg hmarker hge _ => hfirst g hg hmarker hge⟩
              exact fun h => hnil (hslot.valueStart_eq_valueEnd.2 h)
      · rw [if_neg hbounded]
        refine hgoes fun g hg hmarker hgstart => absurd ?_ hbounded
        have hat := hg.isMarkerAt.2
        rwa [hmarker, hgstart, hstop] at hat

/-! ### A pass -/

/-- What the search for the markers of a list finds. -/
theorem searchMarkers_found (line : List Char) (list : List (List UInt8))
    (hlist : ∀ marker ∈ list, marker ∈ markers) :
    (searchMarkers line list = some line ∧
      ∀ g, IsField (encode line) g → g.marker ∈ list → g.IsSettled (encode line)) ∨
    ∃ f next, searchMarkers line list = some next ∧ Replaces f line next ∧ f.marker ∈ list ∧
      ∀ g, IsField (encode line) g → g.marker ∈ list → ¬ g.IsSettled (encode line) →
        list.idxOf f.marker < list.idxOf g.marker ∨ f.marker = g.marker ∧ f.start ≤ g.start := by
  induction list with
  | nil => exact .inl ⟨rfl, fun g _ hmem => absurd hmem List.not_mem_nil⟩
  | cons marker list ih =>
    obtain ⟨hmem, hrest⟩ := List.forall_mem_cons.1 hlist
    obtain ⟨found, hfound, hspec⟩ : ∃ found,
        searchMarker line marker (byteLength line + 1) 0 = some found ∧ Found line marker 0 found :=
      searchMarker_found hmem ⟨[], line, rfl, rfl⟩ (by omega)
    cases found with
    | some next =>
      obtain ⟨f, hreplaces, rfl, hfirst⟩ := hspec
      have hnext : searchMarkers line (f.marker :: list) = some next := by
        rw [searchMarkers, hfound]
        rfl
      refine .inr ⟨f, next, hnext, hreplaces, List.mem_cons_self, fun g hg _ hopen => ?_⟩
      by_cases hsame : g.marker = f.marker
      · exact .inr ⟨hsame.symm, hfirst g hg hsame (Nat.zero_le _) hopen⟩
      · rw [List.idxOf_cons_self, List.idxOf_cons_ne _ (Ne.symm hsame)]
        exact .inl (Nat.succ_pos _)
    | none =>
      have hnext : searchMarkers line (marker :: list) = searchMarkers line list := by
        rw [searchMarkers, hfound]
        rfl
      have hsettled : ∀ g, IsField (encode line) g → g.marker = marker → g.IsSettled (encode line) :=
        fun g hg hmarker => hspec g hg hmarker (Nat.zero_le _)
      rw [hnext]
      rcases ih hrest with ⟨hline, hall⟩ | ⟨f, next, hline, hreplaces, hf, hfirst⟩
      · refine .inl ⟨hline, fun g hg hgmem => ?_⟩
        exact (List.mem_cons.1 hgmem).elim (hsettled g hg) (hall g hg)
      · have hopen := hreplaces.not_isSettled
        have hne : f.marker ≠ marker := fun hmarker => hopen.2 (hsettled f hopen.1 hmarker)
        refine .inr ⟨f, next, hline, hreplaces, List.mem_cons_of_mem _ hf, fun g hg hgmem hgopen => ?_⟩
        have hgne : g.marker ≠ marker := fun hmarker => hgopen (hsettled g hg hmarker)
        rw [List.idxOf_cons_ne _ hne.symm, List.idxOf_cons_ne _ hgne.symm, Nat.succ_lt_succ_iff]
        exact hfirst g hg ((List.mem_cons.1 hgmem).resolve_left hgne) hgopen

/-- A pass changes nothing when every field is settled, and is one that replaces a value otherwise. -/
theorem pass_cases (line : List Char) :
    (redactSensitiveLineOnce line = some line ∧
      ∀ g, IsField (encode line) g → g.IsSettled (encode line)) ∨
    ∃ next, redactSensitiveLineOnce line = some next ∧ Pass line next := by
  rcases searchMarkers_found line markers fun _ => id with
    ⟨hline, hall⟩ | ⟨f, next, hline, hreplaces, -, hfirst⟩
  · exact .inl ⟨hline, fun g hg => hall g hg hg.marker_mem⟩
  · refine .inr ⟨next, hline, f, hreplaces, fun g hg hopen => ?_⟩
    rcases hfirst g hg hg.marker_mem hopen with hlt | ⟨hmarker, hle⟩
    · exact .inr (.inl hlt)
    · rcases hle.eq_or_lt with heq | hlt
      · exact .inl (hg.eq_of_start hreplaces.not_isSettled.1 heq.symm)
      · exact .inr (.inr ⟨hmarker, hlt⟩)

/-! ### The passes come to an end -/

theorem Pass.card_unsettled_lt (h : Pass line next) :
    (unsettled (encode next)).card < (unsettled (encode line)).card := by
  obtain ⟨f, hreplaces, -⟩ := h
  have hopen := hreplaces.not_isSettled.2
  cases hreplaces with
  | mk hslot hne hvalue =>
    rw [encode_append, encode_append] at hopen ⊢
    rw [encode_append, encode_append]
    exact hslot.card_unsettled_lt hopen

theorem Pass.ne (h : Pass line next) : next ≠ line := by
  rintro rfl
  exact absurd h.card_unsettled_lt (lt_irrefl _)

/-- The passes lead to a line in which every field is settled, and stay there. -/
theorem redactLoop_settles {passes : ℕ} (h : (unsettled (encode line)).card < passes) :
    ∃ out, redactLoop passes line = some out ∧ Relation.ReflTransGen Pass line out ∧
      redactSensitiveLineOnce out = some out ∧
      ∀ g, IsField (encode out) g → g.IsSettled (encode out) := by
  induction passes generalizing line with
  | zero => exact absurd h (Nat.not_lt_zero _)
  | succ passes ih =>
    rcases pass_cases line with ⟨hline, hall⟩ | ⟨next, hnext, hpass⟩
    · refine ⟨line, ?_, .refl, hline, hall⟩
      rw [redactLoop, hline]
      exact if_pos rfl
    · obtain ⟨out, hout, hrun, hspec⟩ := ih (hpass.card_unsettled_lt.trans_le (Nat.lt_succ_iff.1 h))
      refine ⟨out, ?_, .head hpass hrun, hspec⟩
      rw [redactLoop, hnext, ← hout]
      exact if_neg hpass.ne

/-- More passes do not change the result. -/
theorem redactLoop_mono {passes more : ℕ} {out : List Char} (h : redactLoop passes line = some out)
    (hle : passes ≤ more) : redactLoop more line = some out := by
  induction passes generalizing line more with
  | zero => cases h
  | succ passes ih =>
    obtain ⟨more, rfl⟩ := Nat.exists_eq_succ_of_ne_zero (n := more) (by omega)
    rw [redactLoop, Option.bind_eq_bind, Option.bind_eq_some_iff] at h ⊢
    obtain ⟨next, hnext, hrest⟩ := h
    refine ⟨next, hnext, ?_⟩
    split_ifs at hrest ⊢ with hsame
    · exact hrest
    · exact ih hrest (by omega)

theorem card_unsettled_le_byteLength (line : List Char) :
    (unsettled (encode line)).card ≤ byteLength line := by
  rw [← length_encode]
  exact card_unsettled_le _

/-- The loop returns a line, however many passes it is given beyond the bytes of the line: no slice
panics and it comes to an end. A pass changes nothing in that line, each of its fields has an empty
value or the replacement, and redacting it again leaves it as it is. -/
theorem redactSensitiveLine_settles (line : List Char) : ∃ out,
    (∀ passes > byteLength line, redactLoop passes line = some out) ∧
      redactSensitiveLineOnce out = some out ∧
      (∀ f, IsField (encode out) f → f.value (encode out) = [] ∨
        f.value (encode out) = encode "<redacted>".toList) ∧
      redactSensitiveLine out = some out := by
  obtain ⟨out, hout, -, honce, hall⟩ :=
    redactLoop_settles (Nat.lt_succ_of_le (card_unsettled_le_byteLength line))
  refine ⟨out, fun passes hpasses => redactLoop_mono hout hpasses, honce, hall, ?_⟩
  rw [redactSensitiveLine, redactLoop, honce]
  exact if_pos rfl

end Kyth.Redact

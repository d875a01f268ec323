import Kyth.Redact.Line

/-!
# The fields of a line

A field is a marker between word boundaries, an optional quote and blanks, a delimiter, blanks, and a
value. A marker is made of word bytes and nothing between it and its value is, so the fields of a line
stand in order, and a field begins either inside the value of an earlier one or behind it.
`IsField.exists_front` and `isField_shift` say that a field is read the same when the line is another one
behind it or in front of it.
-/

namespace Kyth.Redact

open ByteText Scan Utf8Text

/-- A field of a line: its marker, and where the marker, the value and what follows begin. -/
structure Field where
  marker : List UInt8
  start : ℕ
  valueStart : ℕ
  valueEnd : ℕ
  deriving DecidableEq

/-- Where the marker ends. -/
def Field.stop (f : Field) : ℕ := f.start + f.marker.length

/-- The field in a line with `n` more bytes in front. -/
def Field.shift (f : Field) (n : ℕ) : Field :=
  ⟨f.marker, n + f.start, n + f.valueStart, n + f.valueEnd⟩

/-- The marker stands at the position, between word boundaries. -/
def IsMarkerAt (bytes marker : List UInt8) (start : ℕ) : Prop :=
  marker <+: (bytes.map lowerByte).drop start ∧
    isBounded (bytes.map lowerByte) start (start + marker.length) = true

instance decidableIsMarkerAt (bytes marker : List UInt8) (start : ℕ) :
    Decidable (IsMarkerAt bytes marker start) := inferInstanceAs (Decidable (_ ∧ _))

/-- The grammar of a field. -/
structure IsField (bytes : List UInt8) (f : Field) : Prop where
  marker_mem : f.marker ∈ markers
  isMarkerAt : IsMarkerAt bytes f.marker f.start
  range : valueRange bytes f.stop = some (f.valueStart, f.valueEnd)

/-- The value of a field. -/
def Field.value (f : Field) (bytes : List UInt8) : List UInt8 :=
  (bytes.take f.valueEnd).drop f.valueStart

/-- A field with nothing to replace. -/
def Field.IsSettled (f : Field) (bytes : List UInt8) : Prop :=
  f.value bytes = [] ∨ f.value bytes = encode replacement

/-- The fields of a line. -/
def fields (bytes : List UInt8) : List Field :=
  (List.range bytes.length).flatMap fun start => markers.filterMap fun marker =>
    if IsMarkerAt bytes marker start then
      (valueRange bytes (start + marker.length)).map fun range => ⟨marker, start, range.1, range.2⟩
    else none

/-- A byte between a marker and its value. -/
def isGap (b : UInt8) : Bool := isQuote b || isBlank b || isDelimiter b

variable {bytes front back more marker : List UInt8} {f g : Field} {quote : Option UInt8} {b : UInt8}
  {stop start valueStart i k n : ℕ}

/-! ### Kinds of bytes -/

theorem marker_spec (h : marker ∈ markers) : marker ≠ [] ∧ ∀ b ∈ marker, isWord b = true := by
  have hall : markers.all fun marker => marker ≠ [] && marker.all isWord := by decide
  have hmarker := List.all_eq_true.1 hall marker h
  rw [Bool.and_eq_true, decide_eq_true_eq, List.all_eq_true] at hmarker
  exact hmarker

theorem isWord_lowerByte (b : UInt8) : isWord (lowerByte b) = isWord b := by
  unfold lowerByte
  split_ifs with hupper
  · have hnat : (b + 32).toNat = b.toNat + 32 := by
      rw [UInt8.toNat_add]
      have h32 : (32 : UInt8).toNat = 32 := rfl
      omega
    unfold isWord
    rw [Bool.eq_iff_iff]
    simp only [hnat, Bool.or_eq_true, Bool.and_eq_true, decide_eq_true_eq, beq_iff_eq]
    omega
  · rfl

theorem holdsAt_isWord_lower (bytes : List UInt8) (i : ℕ) :
    holdsAt isWord (bytes.map lowerByte) i = holdsAt isWord bytes i := by
  rw [holdsAt_map]
  exact congrArg (holdsAt · bytes i) (funext isWord_lowerByte)

theorem isGap_iff : isGap b = true ↔
    b.toNat ∈ [34, 39, 9, 10, 12, 13, 32, 61, 58] := by
  simp only [isGap, isQuote, isBlank, isDelimiter, Bool.or_eq_true, beq_iff_eq, List.contains_eq_mem,
    decide_eq_true_eq, List.mem_cons, List.not_mem_nil, or_false]
  omega

theorem isWord_of_isGap (h : isGap b = true) : isWord b = false := by
  have hb := isGap_iff.1 h
  simp only [List.mem_cons, List.not_mem_nil, or_false] at hb
  simp only [isWord, Bool.or_eq_false_iff, Bool.and_eq_false_iff, decide_eq_false_iff_not,
    beq_eq_false_iff_ne]
  omega

theorem isAscii_of_isGap (h : isGap b = true) : isAscii b = true := by
  have hb := isGap_iff.1 h
  simp only [List.mem_cons, List.not_mem_nil, or_false] at hb
  exact decide_eq_true (by omega)

theorem isGap_of_isQuote (h : isQuote b = true) : isGap b = true := by simp [isGap, h]

theorem isInside_none : isInside none b = false ↔
    b.toNat ∈ [9, 10, 12, 13, 32, 44, 59, 38, 34, 39, 93, 125] := by
  simp only [isInside, isBlank, Bool.not_eq_false', Bool.or_eq_true, List.contains_eq_mem,
    decide_eq_true_eq, List.mem_cons, List.not_mem_nil, or_false]
  omega

/-- A word goes on inside a value. -/
theorem isInside_of_isWord (hquote : ∀ q ∈ quote, isQuote q = true) (h : isWord b = true) :
    isInside quote b = true := by
  cases quote with
  | some q =>
    have hq := isWord_of_isGap (isGap_of_isQuote (hquote q rfl))
    have hne : b ≠ q := by
      rintro rfl
      rw [hq] at h
      cases h
    simp [isInside, hne]
  | none =>
    by_contra hinside
    have hb := isInside_none.1 (Bool.eq_false_iff.2 hinside)
    simp only [List.mem_cons, List.not_mem_nil, or_false] at hb
    simp only [isWord, Bool.or_eq_true, Bool.and_eq_true, decide_eq_true_eq, beq_iff_eq] at h
    omega

/-- A byte that ends a value is a character. -/
theorem isAscii_of_not_isInside (hquote : ∀ q ∈ quote, isQuote q = true)
    (h : isInside quote b = false) : isAscii b = true := by
  cases quote with
  | some q =>
    have hb : b = q := by simpa [isInside] using h
    exact hb ▸ isAscii_of_isGap (isGap_of_isQuote (hquote q rfl))
  | none =>
    have hb := isInside_none.1 h
    simp only [List.mem_cons, List.not_mem_nil, or_false] at hb
    exact decide_eq_true (by omega)

/-! ### From a marker to its value -/

/-- Behind the quote that may stand behind a marker. -/
def afterQuote (bytes : List UInt8) (stop : ℕ) : ℕ :=
  if holdsAt isQuote bytes stop then stop + 1 else stop

/-- The steps from a marker to its value. -/
theorem opening_eq_some : opening bytes stop = some (valueStart, quote) ↔
    ∃ delimiter blank, skipWhile isBlank bytes (afterQuote bytes stop) = delimiter ∧
      holdsAt isDelimiter bytes delimiter = true ∧
      skipWhile isBlank bytes (delimiter + 1) = blank ∧
      ((∃ q, bytes[blank]? = some q ∧ isQuote q = true ∧ quote = some q ∧ valueStart = blank + 1) ∨
        holdsAt isQuote bytes blank = false ∧ quote = none ∧ valueStart = blank) := by
  unfold opening
  rw [← afterQuote]
  constructor
  · intro h
    dsimp only at h
    split_ifs at h with hdelimiter
    refine ⟨_, _, rfl, hdelimiter, rfl, ?_⟩
    cases hfilter : (bytes[skipWhile isBlank bytes
        (skipWhile isBlank bytes (afterQuote bytes stop) + 1)]?).filter isQuote with
    | none =>
      rw [hfilter] at h
      cases h
      refine .inr ⟨?_, rfl, rfl⟩
      rw [Option.filter_eq_none_iff] at hfilter
      rw [← Bool.not_eq_true, holdsAt_iff]
      rintro ⟨b, hb, hquote⟩
      exact hfilter b hb hquote
    | some q =>
      rw [hfilter] at h
      cases h
      obtain ⟨hq, hquote⟩ := Option.filter_eq_some_iff.1 hfilter
      exact .inl ⟨q, hq, hquote, rfl, rfl⟩
  · rintro ⟨delimiter, blank, rfl, hdelimiter, rfl, ⟨q, hq, hquote, rfl, rfl⟩ | ⟨hquote, rfl, rfl⟩⟩
    · have hfilter := Option.filter_eq_some_iff.2 ⟨hq, hquote⟩
      dsimp only
      rw [if_pos hdelimiter, hfilter]
    · have hfilter : (bytes[skipWhile isBlank bytes
          (skipWhile isBlank bytes (afterQuote bytes stop) + 1)]?).filter isQuote = none := by
        rw [Option.filter_eq_none_iff]
        intro b hb hb'
        rw [← Bool.not_eq_true, holdsAt_iff] at hquote
        exact hquote ⟨b, hb, hb'⟩
      dsimp only
      rw [if_pos hdelimiter, hfilter]

theorem holdsAt_isGap_of_afterQuote (hk : stop ≤ k) (h : k < afterQuote bytes stop) :
    holdsAt isGap bytes k = true := by
  unfold afterQuote at h
  split_ifs at h with hquote
  · obtain rfl : k = stop := by omega
    exact holdsAt_mono (fun b => isGap_of_isQuote) hquote
  · omega

theorem le_afterQuote : stop ≤ afterQuote bytes stop := by
  unfold afterQuote
  split_ifs <;> omega

theorem holdsAt_isGap_of_skipWhile (hk : start ≤ k) (h : k < skipWhile isBlank bytes start) :
    holdsAt isGap bytes k = true :=
  holdsAt_mono (fun b hb => by simp [isGap, hb]) (holdsAt_of_lt_skipWhile hk h)

/-- What stands between a marker and its value. -/
theorem opening_spec (h : opening bytes stop = some (valueStart, quote)) :
    stop < valueStart ∧ (∀ k, stop ≤ k → k < valueStart → holdsAt isGap bytes k = true) ∧
      ∀ q ∈ quote, isQuote q = true := by
  obtain ⟨delimiter, blank, hdelimiter, hholds, hblank, hvalue⟩ := opening_eq_some.1 h
  have hle : afterQuote bytes stop ≤ delimiter := hdelimiter ▸ le_skipWhile
  have hle' : delimiter + 1 ≤ blank := hblank ▸ le_skipWhile
  have hstop : stop ≤ afterQuote bytes stop := le_afterQuote
  have hgap : ∀ k, stop ≤ k → k < blank → holdsAt isGap bytes k = true := by
    intro k hk hkb
    rcases lt_or_ge k (afterQuote bytes stop) with hlt | hge
    · exact holdsAt_isGap_of_afterQuote hk hlt
    · rcases lt_trichotomy k delimiter with hlt | rfl | hgt
      · exact holdsAt_isGap_of_skipWhile hge (hdelimiter ▸ hlt)
      · exact holdsAt_mono (fun b hb => by simp [isGap, hb]) hholds
      · exact holdsAt_isGap_of_skipWhile hgt (hblank ▸ hkb)
  rcases hvalue with ⟨q, hq, hquote, rfl, rfl⟩ | ⟨-, rfl, rfl⟩
  · refine ⟨by omega, fun k hk hkb => ?_, fun _ hmem => Option.some.inj hmem ▸ hquote⟩
    rcases Nat.lt_succ_iff_lt_or_eq.1 hkb with hlt | rfl
    · exact hgap k hk hlt
    · exact holdsAt_mono (fun b => isGap_of_isQuote) (holdsAt_iff.2 ⟨q, hq, hquote⟩)
  · exact ⟨by omega, hgap, fun _ hmem => absurd hmem (by simp)⟩

theorem afterQuote_append_congr (h : stop < front.length) (back more : List UInt8) :
    afterQuote (front ++ back) stop = afterQuote (front ++ more) stop := by
  unfold afterQuote
  rw [holdsAt_append_left h, holdsAt_append_left h]

/-- The way to a value depends on what stands in front of the value only, and on its first byte when
it has no quote. -/
theorem opening_append_congr (h : opening (front ++ back) stop = some (valueStart, quote))
    (hstart : valueStart < front.length ∨ valueStart = front.length ∧
      (quote.isSome ∨ holdsAt (fun b => isBlank b || isQuote b) more 0 = false)) :
    opening (front ++ more) stop = some (valueStart, quote) := by
  obtain ⟨delimiter, blank, hdelimiter, hholds, hblank, hvalue⟩ := opening_eq_some.1 h
  have hlt := (opening_spec h).1
  have hfront : valueStart ≤ front.length := hstart.elim le_of_lt fun h => h.1.le
  have hstop : stop < front.length := by omega
  have hdb : delimiter + 1 ≤ blank := hblank ▸ le_skipWhile
  have hbv : blank ≤ valueStart := by
    rcases hvalue with ⟨-, -, -, -, rfl⟩ | ⟨-, -, rfl⟩ <;> omega
  have hblank' : blank < front.length ∨ blank = front.length ∧ quote = none ∧
      holdsAt (fun b => isBlank b || isQuote b) more 0 = false := by
    rcases hvalue with ⟨-, -, -, rfl, rfl⟩ | ⟨-, rfl, rfl⟩
    · exact .inl (by omega)
    · rcases hstart with hlt | ⟨heq, hmore⟩
      · exact .inl hlt
      · exact .inr ⟨heq, rfl, hmore.resolve_left (by simp)⟩
  have hmore : ∀ p : UInt8 → Bool, (∀ b, p b = true → (isBlank b || isQuote b) = true) →
      holdsAt (fun b => isBlank b || isQuote b) more 0 = false → holdsAt p more 0 = false := by
    intro p hp hfalse
    by_contra htrue
    rw [holdsAt_mono hp (Bool.eq_true_of_not_eq_false htrue)] at hfalse
    cases hfalse
  refine opening_eq_some.2 ⟨delimiter, blank, ?_, ?_, ?_, ?_⟩
  · rw [afterQuote_append_congr hstop more back]
    exact skipWhile_append_congr hdelimiter (.inl (by omega))
  · rw [holdsAt_append_left (by omega)] at hholds ⊢
    exact hholds
  · refine skipWhile_append_congr hblank ?_
    rcases hblank' with hb | ⟨heq, -, hfalse⟩
    · exact .inl hb
    · exact .inr ⟨heq, hmore _ (fun b hb => by simp [hb]) hfalse⟩
  · rcases hvalue with ⟨q, hq, hquote, hsome, rfl⟩ | ⟨hquote, rfl, rfl⟩
    · refine .inl ⟨q, ?_, hquote, hsome, rfl⟩
      have hb : blank < front.length := by omega
      rw [List.getElem?_append_left hb] at hq ⊢
      exact hq
    · refine .inr ⟨?_, rfl, rfl⟩
      rcases hblank' with hb | ⟨heq, -, hfalse⟩
      · rw [holdsAt_append_left hb] at hquote ⊢
        exact hquote
      · rw [heq, holdsAt_append_right le_rfl, Nat.sub_self]
        exact hmore _ (fun b hb => by simp [hb]) hfalse

/-- Behind the front the way to a value is that of the rest. -/
theorem opening_append_right (front back : List UInt8) (stop : ℕ) :
    opening (front ++ back) (front.length + stop) =
      (opening back stop).map fun found => (front.length + found.1, found.2) := by
  have hafter : afterQuote (front ++ back) (front.length + stop) =
      front.length + afterQuote back stop := by
    unfold afterQuote
    rw [holdsAt_append_right (Nat.le_add_right _ _), Nat.add_sub_cancel_left]
    split_ifs <;> rfl
  have hget : ∀ k, (front ++ back)[front.length + k]? = back[k]? := fun k => by
    rw [List.getElem?_append_right (Nat.le_add_right _ _), Nat.add_sub_cancel_left]
  unfold opening
  rw [← afterQuote, ← afterQuote, hafter, skipWhile_append_right]
  dsimp only
  rw [holdsAt_append_right (Nat.le_add_right _ _), Nat.add_sub_cancel_left, Nat.add_assoc,
    skipWhile_append_right, hget]
  split_ifs with hdelimiter
  · cases (back[skipWhile isBlank back (skipWhile isBlank back (afterQuote back stop) + 1)]?).filter
      isQuote <;> rfl
  · rfl

theorem valueRange_append_right (front back : List UInt8) (stop : ℕ) :
    valueRange (front ++ back) (front.length + stop) =
      (valueRange back stop).map fun range => (front.length + range.1, front.length + range.2) := by
  unfold valueRange
  rw [opening_append_right, Option.map_map, Option.map_map]
  refine congrArg (Option.map · _) (funext fun found => ?_)
  exact congrArg (Prod.mk _) (skipWhile_append_right _ _ _)

/-! ### Markers -/

theorem isMarkerAt_iff : IsMarkerAt bytes marker start ↔
    marker <+: (bytes.map lowerByte).drop start ∧
      (start = 0 ∨ holdsAt isWord bytes (start - 1) = false) ∧
      holdsAt isWord bytes (start + marker.length) = false := by
  unfold IsMarkerAt isBounded
  rw [holdsAt_isWord_lower, holdsAt_isWord_lower, Bool.and_eq_true, Bool.or_eq_true, Bool.or_eq_true,
    beq_iff_eq, beq_iff_eq, Bool.not_eq_true', Bool.not_eq_true', List.length_map]
  refine and_congr_right fun _ => and_congr_right fun _ => or_iff_right_of_imp ?_
  intro hend
  rw [← Bool.not_eq_true]
  exact fun h => absurd (lt_length_of_holdsAt h) (by omega)

theorem IsMarkerAt.holdsAt_isWord (h : IsMarkerAt bytes marker start) (hmem : marker ∈ markers)
    (hk : start ≤ k) (hlt : k < start + marker.length) : holdsAt isWord bytes k = true := by
  rw [← holdsAt_isWord_lower]
  exact holdsAt_of_prefix_drop h.1 (marker_spec hmem).2 hk hlt

theorem IsMarkerAt.append_congr (h : IsMarkerAt (front ++ back) marker start)
    (hlt : start + marker.length < front.length) : IsMarkerAt (front ++ more) marker start := by
  rw [isMarkerAt_iff, List.map_append, prefix_drop_append (by rw [List.length_map]; omega),
    holdsAt_append_left (by omega), holdsAt_append_left hlt] at h ⊢
  exact h

/-- Where no word begins, the front does not matter. -/
theorem isMarkerAt_append_right (hmem : marker ∈ markers) (hback : holdsAt isWord back 0 = false)
    (front : List UInt8) (start : ℕ) :
    IsMarkerAt (front ++ back) marker (front.length + start) ↔ IsMarkerAt back marker start := by
  cases start with
  | zero =>
    have hpos := List.length_pos_iff.2 (marker_spec hmem).1
    refine iff_of_false (fun h => ?_) fun h => ?_
    · have hword := h.holdsAt_isWord hmem le_rfl (by omega)
      rw [holdsAt_append_right (by omega), Nat.add_zero, Nat.sub_self, hback] at hword
      cases hword
    · have hword := h.holdsAt_isWord hmem le_rfl (by omega)
      rw [hback] at hword
      cases hword
  | succ start =>
    rw [isMarkerAt_iff, isMarkerAt_iff, List.map_append]
    have hdrop : (front.map lowerByte ++ back.map lowerByte).drop
        ((front.map lowerByte).length + (start + 1)) = (back.map lowerByte).drop (start + 1) :=
      List.drop_length_add_append (start + 1)
    rw [List.length_map] at hdrop
    rw [hdrop, holdsAt_append_right (by omega), holdsAt_append_right (by omega),
      show front.length + (start + 1) - 1 - front.length = start by omega,
      show front.length + (start + 1) + marker.length - front.length = start + 1 + marker.length by
        omega]
    simp

/-! ### Fields -/

/-- The value of a field begins behind the marker and goes on to a byte that ends it. -/
theorem IsField.exists_opening (h : IsField bytes f) : ∃ quote,
    opening bytes f.stop = some (f.valueStart, quote) ∧
      f.valueEnd = skipWhile (isInside quote) bytes f.valueStart := by
  obtain ⟨⟨valueStart, quote⟩, hopening, hrange⟩ := Option.map_eq_some_iff.1 h.range
  obtain ⟨rfl, hend⟩ := Prod.mk.inj hrange
  exact ⟨quote, hopening, hend.symm⟩

theorem IsField.start_lt_stop (h : IsField bytes f) : f.start < f.stop := by
  have hpos := List.length_pos_iff.2 (marker_spec h.marker_mem).1
  unfold Field.stop
  omega

theorem IsField.stop_lt (h : IsField bytes f) : f.stop < f.valueStart := by
  obtain ⟨quote, hopening, -⟩ := h.exists_opening
  exact (opening_spec hopening).1

theorem IsField.valueStart_le (h : IsField bytes f) : f.valueStart ≤ f.valueEnd := by
  obtain ⟨quote, -, hend⟩ := h.exists_opening
  exact hend ▸ le_skipWhile

theorem IsField.holdsAt_isWord (h : IsField bytes f) (hk : f.start ≤ k) (hlt : k < f.stop) :
    holdsAt isWord bytes k = true :=
  h.isMarkerAt.holdsAt_isWord h.marker_mem hk hlt

theorem IsField.holdsAt_isGap (h : IsField bytes f) (hk : f.stop ≤ k) (hlt : k < f.valueStart) :
    holdsAt isGap bytes k = true := by
  obtain ⟨quote, hopening, -⟩ := h.exists_opening
  exact (opening_spec hopening).2.1 k hk hlt

theorem not_isWord_of_isGap (h : holdsAt isGap bytes k = true) : holdsAt isWord bytes k = false := by
  obtain ⟨b, hb, hgap⟩ := holdsAt_iff.1 h
  simp [holdsAt, hb, isWord_of_isGap hgap]

/-- No word goes on behind a value. -/
theorem IsField.not_isWord_valueEnd (h : IsField bytes f) : holdsAt isWord bytes f.valueEnd = false := by
  obtain ⟨quote, hopening, hend⟩ := h.exists_opening
  rw [← Bool.not_eq_true]
  intro hword
  have hinside := holdsAt_mono (fun b => isInside_of_isWord (opening_spec hopening).2.2) hword
  rw [hend, not_holdsAt_skipWhile] at hinside
  cases hinside

/-- A field begins behind the markers of the earlier ones and what stands between them and their
values. -/
theorem IsField.valueStart_le_start (hf : IsField bytes f) (hg : IsField bytes g)
    (h : f.start < g.start) : f.valueStart ≤ g.start := by
  by_contra hlt
  rcases lt_or_ge g.start f.stop with hin | hout
  · -- inside the marker there is no word boundary
    have hword := hf.holdsAt_isWord (k := g.start - 1) (by omega) (by omega)
    rcases (isMarkerAt_iff.1 hg.isMarkerAt).2.1 with hzero | hbefore
    · omega
    · rw [hword] at hbefore
      cases hbefore
  · have hword := hg.holdsAt_isWord le_rfl hg.start_lt_stop
    rw [not_isWord_of_isGap (hf.holdsAt_isGap hout (by omega))] at hword
    cases hword

theorem mem_fields : f ∈ fields bytes ↔ IsField bytes f := by
  unfold fields
  rw [List.mem_flatMap]
  constructor
  · rintro ⟨start, -, hmem⟩
    obtain ⟨marker, hmarker, hsome⟩ := List.mem_filterMap.1 hmem
    split_ifs at hsome with hat
    obtain ⟨range, hrange, rfl⟩ := Option.map_eq_some_iff.1 hsome
    exact ⟨hmarker, hat, hrange⟩
  · intro hf
    have hlt := lt_length_of_holdsAt (hf.holdsAt_isWord le_rfl hf.start_lt_stop)
    refine ⟨f.start, List.mem_range.2 hlt, List.mem_filterMap.2 ⟨f.marker, hf.marker_mem, ?_⟩⟩
    rw [if_pos hf.isMarkerAt, ← Field.stop, hf.range]
    rfl

/-- Two fields do not begin at one place. -/
theorem IsField.eq_of_start (hf : IsField bytes f) (hg : IsField bytes g) (h : f.start = g.start) :
    f = g := by
  have hle : ∀ {f g : Field}, IsField bytes f → IsField bytes g → f.start = g.start →
      f.marker.length ≤ g.marker.length := by
    intro f g hf hg h
    by_contra hlt
    have hword := hf.holdsAt_isWord (k := g.stop) (by unfold Field.stop; omega)
      (by unfold Field.stop; omega)
    have hafter := (isMarkerAt_iff.1 hg.isMarkerAt).2.2
    rw [← Field.stop, hword] at hafter
    cases hafter
  have hlength := le_antisymm (hle hf hg h) (hle hg hf h.symm)
  have hprefix := hg.isMarkerAt.1
  rw [← h] at hprefix
  have hmarker := (List.prefix_of_prefix_length_le hf.isMarkerAt.1 hprefix hlength.le).eq_of_length
    hlength
  have hrange := hf.range
  rw [Field.stop, h, hmarker, ← Field.stop, hg.range] at hrange
  obtain ⟨hstart, hend⟩ := Prod.mk.inj (Option.some.inj hrange)
  cases f
  cases g
  simp_all

/-- A field whose value begins in front is one in every line that begins alike, where its value ends
as it does there. -/
theorem IsField.exists_front (h : IsField (front ++ back) f) (hlt : f.valueStart < front.length) :
    ∃ quote, (∀ q ∈ quote, isQuote q = true) ∧
      f.valueEnd = skipWhile (isInside quote) (front ++ back) f.valueStart ∧
      ∀ more, IsField (front ++ more)
        { f with valueEnd := skipWhile (isInside quote) (front ++ more) f.valueStart } := by
  obtain ⟨quote, hopening, hend⟩ := h.exists_opening
  refine ⟨quote, (opening_spec hopening).2.2, hend, fun more => ⟨h.marker_mem, ?_, ?_⟩⟩
  · have hstop := h.stop_lt
    exact h.isMarkerAt.append_congr (by unfold Field.stop at hstop; omega)
  · have hcongr : opening (front ++ more) f.stop = some (f.valueStart, quote) :=
      opening_append_congr hopening (.inl hlt)
    change (opening (front ++ more) f.stop).map _ = _
    rw [hcongr]
    rfl

/-- The fields behind a place where no word begins are those of the rest. -/
theorem isField_shift (hback : holdsAt isWord back 0 = false) (front : List UInt8) (f : Field) :
    IsField (front ++ back) (f.shift front.length) ↔ IsField back f := by
  have hstop : (f.shift front.length).stop = front.length + f.stop := Nat.add_assoc _ _ _
  have hrange : valueRange (front ++ back) (front.length + f.stop) =
      some (front.length + f.valueStart, front.length + f.valueEnd) ↔
      valueRange back f.stop = some (f.valueStart, f.valueEnd) := by
    rw [valueRange_append_right, Option.map_eq_some_iff]
    constructor
    · rintro ⟨range, hrange, heq⟩
      obtain ⟨hstart, hend⟩ := Prod.mk.inj heq
      rw [hrange, ← Nat.add_left_cancel hstart, ← Nat.add_left_cancel hend]
    · exact fun h => ⟨_, h, rfl⟩
  constructor
  · rintro ⟨hmem, hmarker, h⟩
    rw [hstop] at h
    exact ⟨hmem, (isMarkerAt_append_right hmem hback front f.start).1 hmarker, hrange.1 h⟩
  · rintro ⟨hmem, hmarker, h⟩
    refine ⟨hmem, (isMarkerAt_append_right hmem hback front f.start).2 hmarker, ?_⟩
    rw [hstop]
    exact hrange.2 h

theorem IsField.exists_shift (h : IsField (front ++ back) f) (hback : holdsAt isWord back 0 = false)
    (hle : front.length ≤ f.start) : ∃ g, IsField back g ∧ f = g.shift front.length := by
  have hstop := h.stop_lt
  have hvalue := h.valueStart_le
  have hstart := h.start_lt_stop
  have hf : f = Field.shift ⟨f.marker, f.start - front.length, f.valueStart - front.length,
      f.valueEnd - front.length⟩ front.length := by
    unfold Field.shift
    rw [Nat.add_sub_cancel' hle, Nat.add_sub_cancel' (by omega), Nat.add_sub_cancel' (by omega)]
  refine ⟨_, (isField_shift hback front _).1 (hf ▸ h), hf⟩

end Kyth.Redact

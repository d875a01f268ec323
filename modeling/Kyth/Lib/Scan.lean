import Mathlib.Tactic

/-!
# Scanning a list by position

`skipWhile` moves a position over the elements that have a property, and `find` looks for the first
place where one list occurs in another. A scan reads nothing behind the place where it stops, so it
stops at the same place in every list that begins alike: `skipWhile_append_congr`.
-/

namespace Kyth.Scan

variable {α : Type*}

/-- There is an element at the position, and it has the property. -/
def holdsAt (p : α → Bool) (l : List α) (i : ℕ) : Bool := (l[i]?).any p

/-- The first position from `i` on where there is no element with the property. -/
def skipWhile (p : α → Bool) (l : List α) (i : ℕ) : ℕ := i + ((l.drop i).takeWhile p).length

/-- The first position where `needle` occurs. -/
def find [BEq α] (needle l : List α) : Option ℕ :=
  (List.range (l.length + 1)).find? fun i => needle.isPrefixOf (l.drop i)

variable {p q : α → Bool} {l front back more needle : List α} {i j k : ℕ}

theorem holdsAt_iff : holdsAt p l i = true ↔ ∃ a, l[i]? = some a ∧ p a = true := by
  simp [holdsAt, Option.any_eq_true]

theorem holdsAt_mono (hpq : ∀ a, p a = true → q a = true) (h : holdsAt p l i = true) :
    holdsAt q l i = true := by
  obtain ⟨a, ha, hp⟩ := holdsAt_iff.1 h
  exact holdsAt_iff.2 ⟨a, ha, hpq a hp⟩

theorem lt_length_of_holdsAt (h : holdsAt p l i = true) : i < l.length := by
  obtain ⟨a, ha, -⟩ := holdsAt_iff.1 h
  exact (List.getElem?_eq_some_iff.1 ha).1

@[simp] theorem holdsAt_nil : holdsAt p [] i = false := rfl

theorem holdsAt_drop : holdsAt p (l.drop i) j = holdsAt p l (i + j) := by
  rw [holdsAt, holdsAt, List.getElem?_drop]

theorem holdsAt_map {β : Type*} (f : β → α) (l : List β) :
    holdsAt p (l.map f) i = holdsAt (p ∘ f) l i := by
  rw [holdsAt, holdsAt, List.getElem?_map, Option.any_map]
  rfl

theorem holdsAt_append_left (h : i < front.length) :
    holdsAt p (front ++ back) i = holdsAt p front i := by
  rw [holdsAt, holdsAt, List.getElem?_append_left h]

theorem holdsAt_append_right (h : front.length ≤ i) :
    holdsAt p (front ++ back) i = holdsAt p back (i - front.length) := by
  rw [holdsAt, holdsAt, List.getElem?_append_right h]

/-! ### Where a scan stops -/

theorem holdsAt_takeWhile (h : k < (l.takeWhile p).length) : holdsAt p l k = true := by
  induction l generalizing k with
  | nil => exact absurd h (Nat.not_lt_zero k)
  | cons a l ih =>
    cases ha : p a with
    | false =>
      rw [List.takeWhile_cons_of_neg (by simp [ha])] at h
      exact absurd h (Nat.not_lt_zero k)
    | true =>
      rw [List.takeWhile_cons_of_pos ha] at h
      cases k with
      | zero => exact holdsAt_iff.2 ⟨a, rfl, ha⟩
      | succ k => exact ih (Nat.lt_of_succ_lt_succ h)

theorem not_holdsAt_takeWhile : holdsAt p l (l.takeWhile p).length = false := by
  induction l with
  | nil => rfl
  | cons a l ih =>
    cases ha : p a with
    | false =>
      rw [List.takeWhile_cons_of_neg (by simp [ha])]
      simp [holdsAt, ha]
    | true =>
      rw [List.takeWhile_cons_of_pos ha]
      exact ih

theorem le_skipWhile : i ≤ skipWhile p l i := Nat.le_add_right _ _

theorem holdsAt_of_lt_skipWhile (hik : i ≤ k) (h : k < skipWhile p l i) : holdsAt p l k = true := by
  obtain ⟨d, rfl⟩ := Nat.exists_eq_add_of_le hik
  rw [← holdsAt_drop]
  refine holdsAt_takeWhile ?_
  unfold skipWhile at h
  omega

theorem not_holdsAt_skipWhile : holdsAt p l (skipWhile p l i) = false := by
  rw [skipWhile, ← holdsAt_drop]
  exact not_holdsAt_takeWhile

/-- A scan stops at the first position that it cannot pass. -/
theorem skipWhile_eq_iff : skipWhile p l i = j ↔
    i ≤ j ∧ (∀ k, i ≤ k → k < j → holdsAt p l k = true) ∧ holdsAt p l j = false := by
  constructor
  · rintro rfl
    exact ⟨le_skipWhile, fun k => holdsAt_of_lt_skipWhile, not_holdsAt_skipWhile⟩
  · rintro ⟨hij, hpass, hstop⟩
    rcases lt_trichotomy (skipWhile p l i) j with hlt | heq | hgt
    · have hholds := hpass _ le_skipWhile hlt
      rw [not_holdsAt_skipWhile] at hholds
      cases hholds
    · exact heq
    · have hholds := holdsAt_of_lt_skipWhile hij hgt
      rw [hstop] at hholds
      cases hholds

theorem skipWhile_le_length (h : i ≤ l.length) : skipWhile p l i ≤ l.length := by
  have hlength := (List.takeWhile_sublist p (l := l.drop i)).length_le
  rw [List.length_drop] at hlength
  unfold skipWhile
  omega

/-- A scan that stops in front stops there whatever comes behind. -/
theorem skipWhile_append_congr (h : skipWhile p (front ++ back) i = j)
    (hj : j < front.length ∨ j = front.length ∧ holdsAt p more 0 = false) :
    skipWhile p (front ++ more) i = j := by
  obtain ⟨hij, hpass, hstop⟩ := skipWhile_eq_iff.1 h
  refine skipWhile_eq_iff.2 ⟨hij, fun k hik hkj => ?_, ?_⟩
  · have hk := hpass k hik hkj
    rw [holdsAt_append_left (by omega)] at hk ⊢
    exact hk
  · rcases hj with hj | ⟨rfl, hmore⟩
    · rw [holdsAt_append_left hj] at hstop ⊢
      exact hstop
    · rw [holdsAt_append_right le_rfl, Nat.sub_self]
      exact hmore

/-- Behind the front the scan is that of the rest. -/
theorem skipWhile_append_right (front back : List α) (i : ℕ) :
    skipWhile p (front ++ back) (front.length + i) = front.length + skipWhile p back i := by
  rw [skipWhile, skipWhile, List.drop_length_add_append, Nat.add_assoc]

/-- A scan goes on where it is. -/
theorem skipWhile_trans (hij : i ≤ j) (h : j ≤ skipWhile p l i) : skipWhile p l i = skipWhile p l j := by
  refine skipWhile_eq_iff.2 ⟨hij.trans le_skipWhile, fun k hik hk => ?_, not_holdsAt_skipWhile⟩
  rcases lt_or_ge k j with hkj | hjk
  · exact holdsAt_of_lt_skipWhile hik (hkj.trans_le h)
  · exact holdsAt_of_lt_skipWhile hjk hk

/-- A scan passes elements that all have the property. -/
theorem skipWhile_append_of_forall (hpass : ∀ a ∈ front, p a = true) :
    skipWhile p (front ++ back) 0 = front.length + skipWhile p back 0 := by
  refine (skipWhile_trans (Nat.zero_le front.length) ?_).trans (skipWhile_append_right _ _ 0)
  by_contra hlt
  have hstop : holdsAt p (front ++ back) (skipWhile p (front ++ back) 0) = false :=
    not_holdsAt_skipWhile
  have hget := List.getElem?_eq_getElem (not_le.1 hlt)
  rw [holdsAt_append_left (not_le.1 hlt), holdsAt, hget, Option.any_some,
    hpass _ (List.getElem_mem _)] at hstop
  cases hstop

/-- What becomes of the end of a scan when a part of the list is replaced by elements that the scan
passes: it stays in front of the part, it moves with what is behind the part, or it lay in the part. -/
theorem skipWhile_replace {part part' : List α} (hle : i ≤ front.length)
    (hpass : ∀ a ∈ part', p a = true) :
    skipWhile p (front ++ (part ++ back)) i < front.length ∧
        skipWhile p (front ++ (part' ++ back)) i = skipWhile p (front ++ (part ++ back)) i ∨
      front.length ≤ skipWhile p (front ++ (part ++ back)) i ∧
        skipWhile p (front ++ (part ++ back)) i < front.length + part.length ∧
        front.length + part'.length ≤ skipWhile p (front ++ (part' ++ back)) i ∨
      front.length + part.length ≤ skipWhile p (front ++ (part ++ back)) i ∧
        skipWhile p (front ++ (part' ++ back)) i + part.length =
          skipWhile p (front ++ (part ++ back)) i + part'.length := by
  rcases lt_or_ge (skipWhile p (front ++ (part ++ back)) i) front.length with hlt | hge
  · exact .inl ⟨hlt, skipWhile_append_congr rfl (.inl hlt)⟩
  · -- the scan reaches the part, in both lists
    have hge' : front.length ≤ skipWhile p (front ++ (part' ++ back)) i := by
      by_contra hlt
      have hsame : skipWhile p (front ++ (part ++ back)) i =
          skipWhile p (front ++ (part' ++ back)) i :=
        skipWhile_append_congr rfl (.inl (not_le.1 hlt))
      omega
    have hfrom : ∀ l, skipWhile p (front ++ l) front.length = front.length + skipWhile p l 0 :=
      fun l => skipWhile_append_right front l 0
    have hend := skipWhile_trans hle hge
    have hend' := skipWhile_trans hle hge'
    rw [hfrom] at hend hend'
    rw [skipWhile_append_of_forall hpass] at hend'
    rcases lt_or_ge (skipWhile p (part ++ back) 0) part.length with hin | hout
    · exact .inr (.inl ⟨hge, by omega, by omega⟩)
    · have hpart := (skipWhile_trans (Nat.zero_le part.length) hout).trans
        (skipWhile_append_right _ _ 0)
      exact .inr (.inr ⟨by omega, by omega⟩)

/-! ### Where a list occurs -/

theorem holdsAt_of_prefix_drop (h : needle <+: l.drop i) (hall : ∀ a ∈ needle, p a = true) (hik : i ≤ k)
    (hk : k < i + needle.length) : holdsAt p l k = true := by
  obtain ⟨d, rfl⟩ := Nat.exists_eq_add_of_le hik
  have hd : d < needle.length := by omega
  obtain ⟨rest, hrest⟩ := h
  rw [← holdsAt_drop, ← hrest, holdsAt_append_left hd]
  exact holdsAt_iff.2 ⟨needle[d], List.getElem?_eq_getElem hd, hall _ (List.getElem_mem hd)⟩

/-- Whether a list occurs in front does not depend on what comes behind. -/
theorem prefix_drop_append (h : i + needle.length ≤ front.length) :
    needle <+: (front ++ back).drop i ↔ needle <+: front.drop i := by
  rw [List.drop_append_of_le_length (by omega)]
  refine ⟨fun hprefix => ?_, fun hprefix => hprefix.trans (List.prefix_append _ _)⟩
  refine List.prefix_of_prefix_length_le hprefix (List.prefix_append _ _) ?_
  rw [List.length_drop]
  omega

variable [BEq α] [LawfulBEq α]

theorem find_eq_some (h : find needle l = some i) :
    needle <+: l.drop i ∧ ∀ j < i, ¬ needle <+: l.drop j := by
  obtain ⟨hi, -, hj⟩ := List.find?_range_eq_some.1 h
  refine ⟨List.isPrefixOf_iff_prefix.1 hi, fun j hji hprefix => ?_⟩
  have hfalse := hj j hji
  rw [List.isPrefixOf_iff_prefix.2 hprefix] at hfalse
  cases hfalse

theorem find_eq_none (hne : needle ≠ []) (h : find needle l = none) (i : ℕ) : ¬ needle <+: l.drop i := by
  intro hprefix
  have hlength := hprefix.length_le
  rw [List.length_drop] at hlength
  have hpos := List.length_pos_iff.2 hne
  have hfalse := List.find?_range_eq_none.1 h i (by omega)
  rw [List.isPrefixOf_iff_prefix.2 hprefix] at hfalse
  cases hfalse

end Kyth.Scan

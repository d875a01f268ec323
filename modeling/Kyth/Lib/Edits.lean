import Mathlib.Tactic

/-!
# Lists with parts replaced

`Edited E l m` says that `m` is `l` with some parts replaced, each as `E` allows: `E drop written rest`
lets `written` stand for `drop` in front of `rest`. A word whose elements are all of one kind can not
reach over the beginning of a text that begins with another kind, so a word that occurs in `m` occurs
in `l`, behind and in front of much the same: `Edited.exists_occurrence`.
-/

namespace Kyth.Edits

variable {α : Type*} {E F : List α → List α → List α → Prop} {inside good : α → Prop}
  {l m word before behind drop written rest : List α} {a : α}

/-- A list and the same list with parts replaced. -/
inductive Edited (E : List α → List α → List α → Prop) : List α → List α → Prop
  | nil : Edited E [] []
  | keep (a : α) {l m : List α} (h : Edited E l m) : Edited E (a :: l) (a :: m)
  | edit {drop written rest m : List α} (h : E drop written rest) (hrest : Edited E rest m) :
      Edited E (drop ++ rest) (written ++ m)

theorem Edited.refl (l : List α) : Edited E l l := by
  induction l with
  | nil => exact .nil
  | cons a l ih => exact .keep a ih

theorem Edited.keepAll (kept : List α) (h : Edited E l m) : Edited E (kept ++ l) (kept ++ m) := by
  induction kept with
  | nil => exact h
  | cons a kept ih => exact .keep a ih

theorem Edited.mono (hmono : ∀ drop written rest, E drop written rest → F drop written rest)
    (h : Edited E l m) : Edited F l m := by
  induction h with
  | nil => exact .nil
  | keep a _ ih => exact .keep a ih
  | edit he _ ih => exact .edit (hmono _ _ _ he) ih

/-- Replacing a part leaves a word alone that has only elements `inside`: what is written begins with
another element, does not hold the word, and does not begin it in front of what completes it. -/
structure Harmless (inside : α → Prop) (word drop written rest : List α) : Prop where
  head : ∃ a ∈ written.head?, ¬ inside a
  apart : ¬ word <:+: written
  seam : ∀ x y, word = x ++ y → x ≠ [] → y ≠ [] → x <:+ written → rest.head? ≠ y.head?

/-- A text that ends with an element of another kind begins no word. -/
theorem Harmless.of_getLast? (hword : ∀ a ∈ word, inside a) (hhead : ∃ a ∈ written.head?, ¬ inside a)
    (hapart : ¬ word <:+: written) (hlast : ∀ a ∈ written.getLast?, ¬ inside a) :
    Harmless inside word drop written rest where
  head := hhead
  apart := hapart
  seam x y hxy hx _ hsuffix := by
    obtain ⟨init, a, rfl⟩ := (List.eq_nil_or_concat x).resolve_left hx
    obtain ⟨front, rfl⟩ := hsuffix
    have ha : inside a := hword a (by simp [hxy])
    exact absurd ha (hlast a (by simp))

section
variable (hE : ∀ drop written rest, E drop written rest → Harmless inside word drop written rest)
include hE

/-- The list and its edited form begin with the same element, if it is one of the word. -/
theorem Edited.head?_eq (h : Edited E l m) (ha : a ∈ m.head?) (hin : inside a) : l.head? = m.head? := by
  cases h with
  | nil => rfl
  | keep b _ => rfl
  | @edit drop written rest m he _ =>
    obtain ⟨b, hb, hout⟩ := (hE _ _ _ he).head
    cases written with
    | nil => cases hb
    | cons c written =>
      cases ha
      cases hb
      exact absurd hin hout

/-- What the edited list begins with is kept, if all its elements are those of a word. -/
theorem Edited.exists_of_append {x : List α} (hx : ∀ a ∈ x, inside a) (h : Edited E l (x ++ behind)) :
    ∃ behind', l = x ++ behind' ∧ Edited E behind' behind := by
  induction x generalizing l with
  | nil => exact ⟨l, rfl, h⟩
  | cons a x ih =>
    rw [List.forall_mem_cons] at hx
    generalize hm : a :: x ++ behind = m at h
    cases h with
    | nil => cases hm
    | keep b h =>
      cases hm
      obtain ⟨behind', rfl, hbehind⟩ := ih hx.2 h
      exact ⟨behind', rfl, hbehind⟩
    | @edit drop written rest m he _ =>
      obtain ⟨b, hb, hout⟩ := (hE _ _ _ he).head
      cases written with
      | nil => cases hb
      | cons c written =>
        obtain rfl := (List.cons.inj hm).1
        cases hb
        exact absurd hx.1 hout

/-- Where elements of a word begin the edited list, the list begins with the same one. -/
theorem Edited.head?_eq_append {y : List α} (hy : ∀ a ∈ y, inside a) (hne : y ≠ [])
    (h : Edited E l (y ++ behind)) : l.head? = y.head? := by
  cases y with
  | nil => exact absurd rfl hne
  | cons b y =>
    have hhead : l.head? = (b :: (y ++ behind)).head? :=
      h.head?_eq hE (a := b) rfl (hy b List.mem_cons_self)
    exact hhead

/-- A word does not begin in what is written, so it occurs behind it. -/
theorem Edited.behind_written (hword : ∀ a ∈ word, inside a) (he : E drop written rest)
    (hrest : Edited E rest m) (h : written ++ m = before ++ (word ++ behind)) :
    ∃ gap, before = written ++ gap ∧ m = gap ++ (word ++ behind) := by
  obtain ⟨-, hapart, hseam⟩ := hE _ _ _ he
  rcases List.append_eq_append_iff.1 h.symm with ⟨common, hwritten, hcommon⟩ | hgap
  · rcases eq_or_ne common [] with rfl | hne
    · exact ⟨[], by rw [hwritten, List.append_nil, List.append_nil], hcommon.symm⟩
    · exfalso
      rcases List.append_eq_append_iff.1 hcommon with ⟨rest', hin, -⟩ | ⟨y, hy, rfl⟩
      · exact hapart ⟨before, rest', by rw [hwritten, hin, List.append_assoc]⟩
      · rcases eq_or_ne y [] with rfl | hyne
        · rw [List.append_nil] at hy
          exact hapart ⟨before, [], by rw [hwritten, hy, List.append_nil]⟩
        · refine hseam common y hy hne hyne ⟨before, hwritten.symm⟩ ?_
          exact hrest.head?_eq_append hE (fun a ha => hword a (hy ▸ List.mem_append_right _ ha)) hyne
  · exact hgap

/-- A word that occurs in the edited list occurs in the list, between the same neighbours: behind it
follows what is edited to what follows it now, and in front of it is the element that is there now,
unless that one is good. -/
theorem Edited.exists_occurrence (hword : ∀ a ∈ word, inside a) (hne : word ≠ [])
    (hgood : ∀ drop written rest, E drop written rest →
      (∃ a ∈ written.getLast?, good a) ∨ ∀ a ∈ rest.head?, ¬ inside a)
    (h : Edited E l (before ++ (word ++ behind))) :
    ∃ before' behind', l = before' ++ (word ++ behind') ∧ Edited E behind' behind ∧
      (before.getLast? = before'.getLast? ∨ ∃ a ∈ before.getLast?, good a) := by
  generalize hm : before ++ (word ++ behind) = m at h
  induction h generalizing before with
  | nil =>
    obtain ⟨-, hnil⟩ := List.append_eq_nil_iff.1 hm
    exact absurd (List.append_eq_nil_iff.1 hnil).1 hne
  | @keep a l m h ih =>
    cases before with
    | nil =>
      have hkept : Edited E (a :: l) (word ++ behind) := by
        rw [List.nil_append] at hm
        exact hm ▸ .keep a h
      obtain ⟨behind', hl, hbehind⟩ := hkept.exists_of_append hE hword
      exact ⟨[], behind', hl, hbehind, .inl rfl⟩
    | cons b before =>
      cases hm
      obtain ⟨before', behind', rfl, hbehind, hlast⟩ := ih rfl
      refine ⟨a :: before', behind', rfl, hbehind, ?_⟩
      rw [List.getLast?_cons, List.getLast?_cons]
      rcases hlast with hlast | ⟨a, ha, hgooda⟩
      · exact .inl (by rw [hlast])
      · rw [Option.mem_def] at ha
        exact .inr ⟨a, by rw [ha]; rfl, hgooda⟩
  | @edit drop written rest m he hrest ih =>
    obtain ⟨gap, rfl, hgap⟩ := hrest.behind_written hE hword he hm.symm
    obtain ⟨before', behind', hl, hbehind, hlast⟩ := ih hgap.symm
    refine ⟨drop ++ before', behind', by rw [hl, List.append_assoc], hbehind, ?_⟩
    rcases List.eq_nil_or_concat gap with rfl | ⟨init, b, rfl⟩
    · right
      rw [List.append_nil]
      refine (hgood _ _ _ he).resolve_right fun hout => ?_
      rw [List.nil_append] at hgap
      have hhead := (hgap ▸ hrest).head?_eq_append hE hword hne
      obtain ⟨c, rest', hc⟩ := List.exists_cons_of_ne_nil hne
      rw [hc] at hhead
      exact hout c hhead (hword c (hc ▸ List.mem_cons_self))
    · have hgapne : init.concat b ≠ [] := by simp
      rw [List.getLast?_append_of_ne_nil _ hgapne]
      refine hlast.imp_left fun hlast => ?_
      rw [hlast, List.getLast?_append_of_ne_nil]
      rintro rfl
      simp at hlast

end

end Kyth.Edits

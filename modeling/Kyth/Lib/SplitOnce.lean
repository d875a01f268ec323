import Mathlib.Data.List.Basic
import Mathlib.Tactic

/-!
# Splitting a list at a delimiter

`splitOnce` splits a list at the first delimiter, `rsplitOnce` at the last one. A list is put together
from two parts and a delimiter in one way only, if the delimiter is not in the first part. What is left
without a given beginning is the rest behind it (`dropPrefix?_eq_some`).
-/

namespace Kyth.SplitOnce

variable {α : Type*} [DecidableEq α] {d : α} {l front back front' back' : List α}

/-- The parts in front of the first delimiter and behind it. -/
def splitOnce (d : α) (l : List α) : Option (List α × List α) :=
  if d ∈ l then some (l.takeWhile (· ≠ d), (l.dropWhile (· ≠ d)).drop 1) else none

/-- The parts in front of the last delimiter and behind it. -/
def rsplitOnce (d : α) (l : List α) : Option (List α × List α) :=
  (splitOnce d l.reverse).map fun parts => (parts.2.reverse, parts.1.reverse)

@[simp] theorem splitOnce_append (h : d ∉ front) (back : List α) :
    splitOnce d (front ++ d :: back) = some (front, back) := by
  have hall : ∀ a ∈ front, decide (a ≠ d) = true := fun a ha => by
    rw [decide_eq_true_eq]
    rintro rfl
    exact h ha
  rw [splitOnce, if_pos (by simp), List.takeWhile_append_of_pos hall, List.dropWhile_append_of_pos hall,
    List.takeWhile_cons_of_neg (by simp), List.dropWhile_cons_of_neg (by simp), List.append_nil]
  rfl

theorem splitOnce_eq_none : splitOnce d l = none ↔ d ∉ l := by
  unfold splitOnce
  split_ifs with h
  · simpa using h
  · simpa using h

theorem splitOnce_eq_some : splitOnce d l = some (front, back) ↔ l = front ++ d :: back ∧ d ∉ front := by
  constructor
  · intro h
    have hmem : d ∈ l := by
      by_contra hnot
      rw [splitOnce_eq_none.2 hnot] at h
      cases h
    obtain ⟨front', back', rfl, hfront⟩ := List.eq_append_cons_of_mem hmem
    rw [splitOnce_append hfront] at h
    cases h
    exact ⟨rfl, hfront⟩
  · rintro ⟨rfl, h⟩
    exact splitOnce_append h back

/-- The parts around the first delimiter are determined. -/
theorem append_cons_inj (h : d ∉ front) (h' : d ∉ front') :
    front ++ d :: back = front' ++ d :: back' ↔ front = front' ∧ back = back' := by
  constructor
  · intro heq
    have hsplit := splitOnce_append h back
    rw [heq, splitOnce_append h', Option.some.injEq, Prod.mk.injEq] at hsplit
    exact ⟨hsplit.1.symm, hsplit.2.symm⟩
  · rintro ⟨rfl, rfl⟩
    rfl

theorem dropPrefix?_eq_some : l.dropPrefix? front = some back ↔ l = front ++ back := by
  rw [List.dropPrefix?_eq_some_iff]
  constructor
  · rintro ⟨front', rfl, h⟩
    rw [eq_of_beq h]
  · rintro rfl
    exact ⟨front, rfl, beq_self_eq_true front⟩

theorem rsplitOnce_eq_none : rsplitOnce d l = none ↔ d ∉ l := by
  rw [rsplitOnce, Option.map_eq_none_iff, splitOnce_eq_none, List.mem_reverse]

theorem rsplitOnce_eq_some : rsplitOnce d l = some (front, back) ↔ l = front ++ d :: back ∧ d ∉ back := by
  rw [rsplitOnce, Option.map_eq_some_iff]
  constructor
  · rintro ⟨⟨x, y⟩, h, heq⟩
    cases heq
    obtain ⟨hl, hx⟩ := splitOnce_eq_some.1 h
    refine ⟨?_, by simpa using hx⟩
    rw [← List.reverse_reverse l, hl]
    simp
  · rintro ⟨rfl, h⟩
    refine ⟨(back.reverse, front.reverse), splitOnce_eq_some.2 ⟨by simp, by simpa using h⟩, by simp⟩

end Kyth.SplitOnce

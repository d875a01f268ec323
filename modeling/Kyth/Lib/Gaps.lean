import Kyth.Lib.Interval
import Mathlib.Tactic

/-!
# The gaps between half-open intervals

A list of intervals is swept from left to right with a cursor that has passed everything up to it.
`gapsFrom` lists what the sweep leaves out. When the intervals are sorted by their left ends:

* the gaps are ordered and disjoint (`gapsFrom_pairwise`) and meet no interval
  (`gapsFrom_not_meets`);
* every maximal free interval inside the bounds is found (`gapsFrom_complete`).

In any order, every free point that something follows is covered (`gapsFrom_covers`).
-/

namespace Kyth.Interval

variable {α β : Type} [LinearOrder α]

/-- The gaps of a sweep that starts at `cursor` and ends at `stop`. -/
def gapsFrom (stop : α) : α → List (α × α) → List (α × α)
  | cursor, [] => if cursor < stop then [(cursor, stop)] else []
  | cursor, s :: spans =>
      (if cursor < s.1 then [(cursor, s.1)] else []) ++ gapsFrom stop (max cursor s.2) spans

/-- A maximal interval between `first` and `last` that meets no object of a list. -/
structure IsGap (span : β → α × α) (objects : List β) (first last : α) (gap : α × α) : Prop where
  lower : first ≤ gap.1
  nonempty : gap.1 < gap.2
  upper : gap.2 ≤ last
  free : ∀ b ∈ objects, ¬ Meets gap (span b)
  maximal : ∀ wider : α × α, first ≤ wider.1 → wider.1 ≤ gap.1 → gap.2 ≤ wider.2 →
    wider.2 ≤ last → (∀ b ∈ objects, ¬ Meets wider (span b)) → wider = gap

variable {stop cursor : α} {spans : List (α × α)} {gap : α × α}

theorem not_meets_of_le {a b : α × α} (h : a.2 ≤ b.1) : ¬ Meets a b := by
  rintro ⟨x, ⟨-, hxa⟩, hbx, -⟩
  exact absurd (hbx.trans_lt hxa) (not_lt.2 h)

theorem not_meets_of_ge {a b : α × α} (h : b.2 ≤ a.1) : ¬ Meets a b :=
  fun hmeets => not_meets_of_le h hmeets.symm

/-- Two nonempty intervals that do not meet lie one before the other. -/
theorem le_or_le_of_not_meets {a b : α × α} (h : ¬ Meets a b) (ha : a.1 < a.2) (hb : b.1 < b.2) :
    a.2 ≤ b.1 ∨ b.2 ≤ a.1 := by
  by_contra hcon
  rw [not_or, not_le, not_le] at hcon
  exact h (meets_iff.2 ⟨hcon.2, hcon.1, ha, hb⟩)

theorem mem_gapsFrom_cons {s : α × α} :
    gap ∈ gapsFrom stop cursor (s :: spans) ↔
      (cursor < s.1 ∧ gap = (cursor, s.1)) ∨ gap ∈ gapsFrom stop (max cursor s.2) spans := by
  rw [gapsFrom, List.mem_append]
  split_ifs with h <;> simp [h]

/-- The gaps start at the cursor or later, and they are not empty. -/
theorem gapsFrom_bounds (h : gap ∈ gapsFrom stop cursor spans) :
    cursor ≤ gap.1 ∧ gap.1 < gap.2 := by
  induction spans generalizing cursor with
  | nil =>
    unfold gapsFrom at h
    split_ifs at h with hlt
    · rw [List.mem_singleton] at h
      rw [h]
      exact ⟨le_rfl, hlt⟩
    · cases h
  | cons s spans ih =>
    rcases mem_gapsFrom_cons.1 h with ⟨hlt, rfl⟩ | hrest
    · exact ⟨le_rfl, hlt⟩
    · obtain ⟨hle, hlt⟩ := ih hrest
      exact ⟨(le_max_left _ _).trans hle, hlt⟩

/-- A gap begins where the sweep began or where an interval ends. -/
theorem gapsFrom_start (h : gap ∈ gapsFrom stop cursor spans) :
    gap.1 = cursor ∨ ∃ s ∈ spans, gap.1 = s.2 := by
  induction spans generalizing cursor with
  | nil =>
    unfold gapsFrom at h
    split_ifs at h
    · rw [List.mem_singleton] at h
      exact .inl (by rw [h])
    · cases h
  | cons s spans ih =>
    rcases mem_gapsFrom_cons.1 h with ⟨-, rfl⟩ | hrest
    · exact .inl rfl
    · rcases ih hrest with heq | ⟨t, ht, heq⟩
      · rcases max_choice cursor s.2 with hmax | hmax
        · exact .inl (heq.trans hmax)
        · exact .inr ⟨s, List.mem_cons_self, heq.trans hmax⟩
      · exact .inr ⟨t, List.mem_cons_of_mem _ ht, heq⟩

/-- A gap ends where an interval begins, or it is the last one. -/
theorem gapsFrom_end (h : gap ∈ gapsFrom stop cursor spans) :
    (∃ s ∈ spans, gap.2 = s.1) ∨ gap.2 = stop ∧ ∀ s ∈ spans, s.2 ≤ gap.1 := by
  induction spans generalizing cursor with
  | nil =>
    unfold gapsFrom at h
    split_ifs at h
    · rw [List.mem_singleton] at h
      exact .inr ⟨by rw [h], by simp⟩
    · cases h
  | cons s spans ih =>
    rcases mem_gapsFrom_cons.1 h with ⟨-, rfl⟩ | hrest
    · exact .inl ⟨s, List.mem_cons_self, rfl⟩
    · rcases ih hrest with ⟨t, ht, heq⟩ | ⟨hstop, hlast⟩
      · exact .inl ⟨t, List.mem_cons_of_mem _ ht, heq⟩
      · refine .inr ⟨hstop, fun t ht => ?_⟩
        rcases List.mem_cons.1 ht with rfl | ht
        · exact (le_max_right _ _).trans (gapsFrom_bounds hrest).1
        · exact hlast t ht

/-- A free point behind the cursor lies in a gap when something is still to come. -/
theorem gapsFrom_covers {x : α} (hx : cursor ≤ x) (hfree : ∀ s ∈ spans, x < s.1 ∨ s.2 ≤ x)
    (hcome : x < stop ∨ ∃ s ∈ spans, x < s.1) :
    ∃ found ∈ gapsFrom stop cursor spans, found.1 ≤ x ∧ x < found.2 := by
  induction spans generalizing cursor with
  | nil =>
    have hstop : x < stop := by simpa using hcome
    exact ⟨(cursor, stop), by simp [gapsFrom, hx.trans_lt hstop], hx, hstop⟩
  | cons s spans ih =>
    by_cases hs : x < s.1
    · exact ⟨(cursor, s.1), mem_gapsFrom_cons.2 (.inl ⟨hx.trans_lt hs, rfl⟩), hx, hs⟩
    · have hpast : s.2 ≤ x := (hfree s List.mem_cons_self).resolve_left hs
      have hcome' : x < stop ∨ ∃ t ∈ spans, x < t.1 := by
        rcases hcome with hstop | ⟨t, ht, hlt⟩
        · exact .inl hstop
        · rcases List.mem_cons.1 ht with rfl | ht
          · exact absurd hlt hs
          · exact .inr ⟨t, ht, hlt⟩
      obtain ⟨found, hfound, hbounds⟩ := ih (max_le hx hpast)
        (fun t ht => hfree t (List.mem_cons_of_mem _ ht)) hcome'
      exact ⟨found, mem_gapsFrom_cons.2 (.inr hfound), hbounds⟩

/-- The gaps of a sweep over intervals with sorted left ends meet none of them. -/
theorem gapsFrom_not_meets (hsorted : spans.Pairwise fun a b => a.1 ≤ b.1)
    (h : gap ∈ gapsFrom stop cursor spans) : ∀ s ∈ spans, ¬ Meets gap s := by
  induction spans generalizing cursor with
  | nil => simp
  | cons s spans ih =>
    obtain ⟨hfirst, hrest⟩ := List.pairwise_cons.1 hsorted
    rcases mem_gapsFrom_cons.1 h with ⟨-, rfl⟩ | hgap
    · -- everything that is still to come begins at `s.1` or later
      intro t ht
      apply not_meets_of_le
      rcases List.mem_cons.1 ht with rfl | ht
      · exact le_rfl
      · exact hfirst t ht
    · intro t ht
      rcases List.mem_cons.1 ht with rfl | ht
      · exact not_meets_of_ge ((le_max_right _ _).trans (gapsFrom_bounds hgap).1)
      · exact ih hrest hgap t ht

/-- The gaps come in order and do not overlap. -/
theorem gapsFrom_pairwise (hsorted : spans.Pairwise fun a b => a.1 ≤ b.1)
    (hne : ∀ s ∈ spans, s.1 ≤ s.2) :
    (gapsFrom stop cursor spans).Pairwise fun a b => a.2 ≤ b.1 := by
  induction spans generalizing cursor with
  | nil =>
    unfold gapsFrom
    split_ifs <;> simp
  | cons s spans ih =>
    have hrest : (gapsFrom stop (max cursor s.2) spans).Pairwise fun a b => a.2 ≤ b.1 :=
      ih (List.pairwise_cons.1 hsorted).2 fun t ht => hne t (List.mem_cons_of_mem _ ht)
    rw [gapsFrom]
    split_ifs with hlt
    · rw [List.singleton_append, List.pairwise_cons]
      refine ⟨fun b hb => ?_, hrest⟩
      exact (hne s List.mem_cons_self).trans
        ((le_max_right _ _).trans (gapsFrom_bounds hb).1)
    · rwa [List.nil_append]

/-- A maximal free interval lies in the gap with the same left end, and is that gap when no
interval begins beyond the bounds. -/
theorem gapsFrom_complete (hsorted : spans.Pairwise fun a b => a.1 ≤ b.1)
    (hne : ∀ s ∈ spans, s.1 < s.2) (hgap : IsGap id spans cursor stop gap) :
    ∃ found ∈ gapsFrom stop cursor spans, found.1 = gap.1 ∧ gap.2 ≤ found.2 ∧
      ((∀ s ∈ spans, s.1 ≤ stop) → found.2 = gap.2) := by
  induction spans generalizing cursor with
  | nil =>
    have hwhole : (cursor, stop) = gap :=
      hgap.maximal (cursor, stop) le_rfl hgap.lower hgap.upper le_rfl (by simp)
    have hlt : cursor < stop := hgap.lower.trans_lt (hgap.nonempty.trans_le hgap.upper)
    exact ⟨(cursor, stop), by simp [gapsFrom, hlt], by rw [← hwhole], by rw [← hwhole],
      fun _ => by rw [← hwhole]⟩
  | cons s spans ih =>
    obtain ⟨hfirst, hrest⟩ := List.pairwise_cons.1 hsorted
    have hs := hne s List.mem_cons_self
    rcases le_or_le_of_not_meets (hgap.free s List.mem_cons_self) hgap.nonempty hs with hle | hle
    · -- nothing begins before the end of the gap, so it reaches back to the cursor
      have hafter : ∀ t ∈ s :: spans, s.1 ≤ t.1 := by
        intro t ht
        rcases List.mem_cons.1 ht with rfl | ht
        · exact le_rfl
        · exact hfirst t ht
      have hstart : cursor = gap.1 := congrArg Prod.fst <|
        hgap.maximal (cursor, gap.2) le_rfl hgap.lower le_rfl hgap.upper fun t ht =>
          not_meets_of_le (hle.trans (hafter t ht))
      have hlt : cursor < s.1 := hgap.lower.trans_lt (hgap.nonempty.trans_le hle)
      refine ⟨(cursor, s.1), mem_gapsFrom_cons.2 (.inl ⟨hlt, rfl⟩), hstart, hle, fun hin => ?_⟩
      exact congrArg Prod.snd <|
        hgap.maximal (cursor, s.1) le_rfl hgap.lower hle (hin s List.mem_cons_self) fun t ht =>
          not_meets_of_le (hafter t ht)
    · -- the gap lies behind `s`: go on with the cursor at its end
      have hgap' : IsGap id spans (max cursor s.2) stop gap := by
        refine ⟨max_le hgap.lower hle, hgap.nonempty, hgap.upper,
          fun t ht => hgap.free t (List.mem_cons_of_mem _ ht), fun wider hlo hwlo hwhi hhi hfree => ?_⟩
        refine hgap.maximal wider ((le_max_left _ _).trans hlo) hwlo hwhi hhi fun t ht => ?_
        rcases List.mem_cons.1 ht with rfl | ht
        · exact not_meets_of_ge ((le_max_right _ _).trans hlo)
        · exact hfree t ht
      obtain ⟨found, hfound, hlo, hhi, hexact⟩ := ih hrest
        (fun t ht => hne t (List.mem_cons_of_mem _ ht)) hgap'
      exact ⟨found, mem_gapsFrom_cons.2 (.inr hfound), hlo, hhi,
        fun hin => hexact fun t ht => hin t (List.mem_cons_of_mem _ ht)⟩

end Kyth.Interval

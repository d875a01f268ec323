import Mathlib

/-!
# Ratchets and two writers

A reporter takes readings and reports only what does not go back: a reading above the last report is
reported, at a reading that is not above it the reporter repeats its last report or is silent
(`Reports`). The first reading is always reported (`Shown`).

Two writers with one output write in any order: `interleave` is what they write along a schedule. A relation
holds along every schedule exactly when it holds within each of the two and both ways between them
(`pairwise_interleave_iff`).
-/

namespace Kyth.Ratchet

/-! ### One reporter -/

section Reporter

variable {α : Type*} [LinearOrder α] {last p v bound : α} {readings reports : List α}

/-- The reports for a list of readings, after the report `last`. -/
inductive Reports : α → List α → List α → Prop
  | nil {last : α} : Reports last [] []
  | up {last p : α} {ps out : List α} : last < p → Reports p ps out → Reports last (p :: ps) (p :: out)
  | again {last p : α} {ps out : List α} : p ≤ last → Reports last ps out →
      Reports last (p :: ps) (last :: out)
  | silent {last p : α} {ps out : List α} : p ≤ last → Reports last ps out → Reports last (p :: ps) out

theorem Reports.le (h : Reports last readings reports) : ∀ q ∈ reports, last ≤ q := by
  induction h with
  | nil => simp
  | up hlt _ ih => exact List.forall_mem_cons.2 ⟨hlt.le, fun q hq => hlt.le.trans (ih q hq)⟩
  | again _ _ ih => exact List.forall_mem_cons.2 ⟨le_rfl, ih⟩
  | silent _ _ ih => exact ih

theorem Reports.pairwise (h : Reports last readings reports) : reports.Pairwise (· ≤ ·) := by
  induction h with
  | nil => exact List.Pairwise.nil
  | up _ h ih => exact List.pairwise_cons.2 ⟨h.le, ih⟩
  | again _ h ih => exact List.pairwise_cons.2 ⟨h.le, ih⟩
  | silent _ _ ih => exact ih

/-- No reading is above the last report and all later ones. -/
theorem Reports.reading_le (h : Reports last readings reports) :
    ∀ q ∈ readings, q ≤ last ∨ ∃ r ∈ reports, q ≤ r := by
  induction h with
  | nil => simp
  | @up last p ps out hlt _ ih =>
    refine List.forall_mem_cons.2 ⟨.inr ⟨p, List.mem_cons_self, le_rfl⟩, fun q hq => .inr ?_⟩
    obtain hle | ⟨r, hr, hle⟩ := ih q hq
    · exact ⟨p, List.mem_cons_self, hle⟩
    · exact ⟨r, List.mem_cons_of_mem _ hr, hle⟩
  | again hle _ ih =>
    refine List.forall_mem_cons.2 ⟨.inl hle, fun q hq => ?_⟩
    exact (ih q hq).imp_right fun ⟨r, hr, h⟩ => ⟨r, List.mem_cons_of_mem _ hr, h⟩
  | silent hle _ ih => exact List.forall_mem_cons.2 ⟨.inl hle, ih⟩

/-- A bound of the last report and of the readings is one of the reports. -/
theorem Reports.all {Q : α → Prop} (h : Reports last readings reports) (hlast : Q last)
    (hreadings : ∀ q ∈ readings, Q q) : ∀ q ∈ reports, Q q := by
  induction h with
  | nil => simp
  | up _ _ ih =>
    obtain ⟨hp, hps⟩ := List.forall_mem_cons.1 hreadings
    exact List.forall_mem_cons.2 ⟨hp, ih hp hps⟩
  | again _ _ ih =>
    exact List.forall_mem_cons.2 ⟨hlast, ih hlast (List.forall_mem_cons.1 hreadings).2⟩
  | silent _ _ ih => exact ih hlast (List.forall_mem_cons.1 hreadings).2

/-- The reports of a reporter that has reported nothing yet. -/
inductive Shown : List α → List α → Prop
  | nil : Shown [] []
  | cons {p : α} {ps out : List α} : Reports p ps out → Shown (p :: ps) (p :: out)

theorem Shown.pairwise (h : Shown readings reports) : reports.Pairwise (· ≤ ·) := by
  cases h with
  | nil => exact List.Pairwise.nil
  | cons h => exact List.pairwise_cons.2 ⟨h.le, h.pairwise⟩

theorem Shown.eq_nil_iff (h : Shown readings reports) : reports = [] ↔ readings = [] := by
  cases h <;> simp

/-- The reports stay below a bound when the readings do. -/
theorem Shown.forall_lt_iff (h : Shown readings reports) :
    (∀ q ∈ reports, q < bound) ↔ ∀ q ∈ readings, q < bound := by
  cases h with
  | nil => rfl
  | @cons p ps out h =>
    constructor
    · intro hreports
      obtain ⟨hp, hout⟩ := List.forall_mem_cons.1 hreports
      refine List.forall_mem_cons.2 ⟨hp, fun q hq => ?_⟩
      obtain hle | ⟨r, hr, hle⟩ := h.reading_le q hq
      · exact hle.trans_lt hp
      · exact hle.trans_lt (hout r hr)
    · intro hreadings
      obtain ⟨hp, hps⟩ := List.forall_mem_cons.1 hreadings
      exact List.forall_mem_cons.2 ⟨hp, h.all hp hps⟩

/-- The reports stay above a bound when the first reading does. -/
theorem Shown.forall_ge_iff (h : Shown readings reports) :
    (∀ q ∈ reports, bound ≤ q) ↔ ∀ q ∈ readings.head?, bound ≤ q := by
  cases h with
  | nil => simp
  | cons h =>
    constructor
    · rintro hreports q ⟨⟩
      exact hreports _ List.mem_cons_self
    · intro hfirst
      have hp := hfirst _ rfl
      exact List.forall_mem_cons.2 ⟨hp, fun q hq => hp.trans (h.le q hq)⟩

/-- There is only one report when the first reading is it and no reading is above it. -/
theorem Shown.forall_eq_iff (h : Shown readings reports) :
    (∀ q ∈ reports, q = v) ↔ (∀ q ∈ readings.head?, q = v) ∧ ∀ q ∈ readings, q ≤ v := by
  cases h with
  | nil => simp
  | @cons p ps out h =>
    constructor
    · intro hreports
      obtain ⟨rfl, hout⟩ := List.forall_mem_cons.1 hreports
      refine ⟨fun q hq => (Option.some.inj hq).symm, List.forall_mem_cons.2 ⟨le_rfl, fun q hq => ?_⟩⟩
      obtain hle | ⟨r, hr, hle⟩ := h.reading_le q hq
      · exact hle
      · exact hle.trans_eq (hout r hr)
    · rintro ⟨hfirst, hle⟩
      obtain rfl : p = v := hfirst p rfl
      have hbound : ∀ q ∈ out, q ≤ p := h.all le_rfl (List.forall_mem_cons.1 hle).2
      exact List.forall_mem_cons.2 ⟨rfl, fun q hq => le_antisymm (hbound q hq) (h.le q hq)⟩

end Reporter

/-! ### Two writers -/

section Writers

variable {α : Type*} {a b : List α} {R : α → α → Prop}

/-- What two writers write along a schedule: `true` is a turn of the first one. A writer that has nothing
left passes its turn. -/
def interleave : List Bool → List α → List α → List α
  | [], _, _ => []
  | true :: schedule, [], b => interleave schedule [] b
  | true :: schedule, x :: a, b => x :: interleave schedule a b
  | false :: schedule, a, [] => interleave schedule a []
  | false :: schedule, a, y :: b => y :: interleave schedule a b

theorem mem_interleave {x : α} {schedule : List Bool} (h : x ∈ interleave schedule a b) :
    x ∈ a ∨ x ∈ b := by
  fun_induction interleave schedule a b with
  | case1 => cases h
  | case2 schedule b ih => exact ih h
  | case3 schedule y a b ih =>
    obtain rfl | h := List.mem_cons.1 h
    · exact .inl List.mem_cons_self
    · exact (ih h).imp_left (List.mem_cons_of_mem _)
  | case4 schedule a ih => exact ih h
  | case5 schedule a y b ih =>
    obtain rfl | h := List.mem_cons.1 h
    · exact .inr List.mem_cons_self
    · exact (ih h).imp_right (List.mem_cons_of_mem _)

theorem interleave_pairwise (schedule : List Bool) (ha : a.Pairwise R) (hb : b.Pairwise R)
    (hab : ∀ x ∈ a, ∀ y ∈ b, R x y ∧ R y x) : (interleave schedule a b).Pairwise R := by
  fun_induction interleave schedule a b with
  | case1 => exact List.Pairwise.nil
  | case2 schedule b ih => exact ih ha hb hab
  | case3 schedule x a b ih =>
    obtain ⟨hx, ha⟩ := List.pairwise_cons.1 ha
    obtain ⟨hxb, hab⟩ := List.forall_mem_cons.1 hab
    refine List.pairwise_cons.2 ⟨fun y hy => ?_, ih ha hb hab⟩
    exact (mem_interleave hy).elim (hx y) fun hy => (hxb y hy).1
  | case4 schedule a ih => exact ih ha hb hab
  | case5 schedule a y b ih =>
    obtain ⟨hy, hb⟩ := List.pairwise_cons.1 hb
    refine List.pairwise_cons.2 ⟨fun x hx => ?_, ih ha hb fun x hx z hz =>
      hab x hx z (List.mem_cons_of_mem _ hz)⟩
    exact (mem_interleave hx).elim (fun hx => (hab x hx y List.mem_cons_self).2) (hy x)

/-- One writer after the other. -/
theorem interleave_left_right (a b : List α) :
    interleave (List.replicate a.length true ++ List.replicate b.length false) a b = a ++ b := by
  induction a with
  | nil =>
    induction b with
    | nil => rfl
    | cons y b ih => exact congrArg (y :: ·) ih
  | cons x a ih => exact congrArg (x :: ·) ih

theorem interleave_right_left (a b : List α) :
    interleave (List.replicate b.length false ++ List.replicate a.length true) a b = b ++ a := by
  induction b with
  | nil =>
    induction a with
    | nil => rfl
    | cons x a ih => exact congrArg (x :: ·) ih
  | cons y b ih =>
    cases a with
    | nil => exact congrArg (y :: ·) ih
    | cons x a => exact congrArg (y :: ·) ih

theorem pairwise_interleave_iff :
    (∀ schedule, (interleave schedule a b).Pairwise R) ↔
      a.Pairwise R ∧ b.Pairwise R ∧ ∀ x ∈ a, ∀ y ∈ b, R x y ∧ R y x := by
  constructor
  · intro h
    have hleft := h (List.replicate a.length true ++ List.replicate b.length false)
    have hright := h (List.replicate b.length false ++ List.replicate a.length true)
    rw [interleave_left_right, List.pairwise_append] at hleft
    rw [interleave_right_left, List.pairwise_append] at hright
    obtain ⟨ha, hb, hab⟩ := hleft
    obtain ⟨-, -, hba⟩ := hright
    exact ⟨ha, hb, fun x hx y hy => ⟨hab x hx y hy, hba y hy x hx⟩⟩
  · rintro ⟨ha, hb, hab⟩ schedule
    exact interleave_pairwise schedule ha hb hab

/-- Everything is written along some schedule. -/
theorem forall_mem_interleave_iff {Q : α → Prop} :
    (∀ schedule, ∀ x ∈ interleave schedule a b, Q x) ↔ (∀ x ∈ a, Q x) ∧ ∀ x ∈ b, Q x := by
  constructor
  · intro h
    have hall := h (List.replicate a.length true ++ List.replicate b.length false)
    rw [interleave_left_right] at hall
    exact List.forall_mem_append.1 hall
  · rintro ⟨ha, hb⟩ schedule x hx
    exact (mem_interleave hx).elim (ha x) (hb x)

end Writers

end Kyth.Ratchet

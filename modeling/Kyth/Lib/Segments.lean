import Mathlib.Tactic

/-!
# Comparing lists segment by segment

Two lists are compared pair by pair; the first pair that differs decides, and among lists without
such a pair the shorter one is less. The comparison of the segments need not be transitive: the
rules ask for what they need at each position (`TransAt`).
-/

namespace Kyth.Segments

variable {α : Type} {cmp : α → α → Ordering}

/-- The first pair that does not compare equal. -/
def firstDifference (cmp : α → α → Ordering) : List (α × α) → Option Ordering
  | [] => none
  | (x, y) :: pairs => if cmp x y ≠ .eq then some (cmp x y) else firstDifference cmp pairs

/-- Compare two lists segment by segment, then by length. -/
def compareBy (cmp : α → α → Ordering) (xs ys : List α) : Ordering :=
  (firstDifference cmp (xs.zip ys)).getD (compare xs.length ys.length)

@[simp] theorem compareBy_nil_nil : compareBy cmp [] [] = .eq := rfl

@[simp] theorem compareBy_nil_cons (y : α) (ys : List α) : compareBy cmp [] (y :: ys) = .lt := by
  simp [compareBy, firstDifference, Nat.compare_eq_lt]

@[simp] theorem compareBy_cons_nil (x : α) (xs : List α) : compareBy cmp (x :: xs) [] = .gt := by
  simp [compareBy, firstDifference, Nat.compare_eq_gt]

theorem compareBy_cons_cons (x y : α) (xs ys : List α) :
    compareBy cmp (x :: xs) (y :: ys) = (cmp x y).then (compareBy cmp xs ys) := by
  have hlength : compare (xs.length + 1) (ys.length + 1) = compare xs.length ys.length := by
    simp [compare, compareOfLessAndEq]
  unfold compareBy
  rw [List.zip_cons_cons, firstDifference, List.length_cons, List.length_cons, hlength]
  cases cmp x y <;> simp

/-- Swapping the arguments reverses the comparison when it does so for the segments. -/
theorem compareBy_swap (h : ∀ x y, cmp y x = (cmp x y).swap) (xs ys : List α) :
    compareBy cmp ys xs = (compareBy cmp xs ys).swap := by
  induction xs generalizing ys with
  | nil => cases ys <;> simp
  | cons x xs ih =>
    cases ys with
    | nil => simp
    | cons y ys => rw [compareBy_cons_cons, compareBy_cons_cons, Ordering.swap_then, h, ih]

/-- Transitivity at one triple: less or equal is kept, and a strict step stays strict. -/
structure TransAt (cmp : α → α → Ordering) (x y z : α) : Prop where
  isLE : (cmp x y).isLE → (cmp y z).isLE → (cmp x z).isLE
  lt_isLE : cmp x y = .lt → (cmp y z).isLE → cmp x z = .lt
  isLE_lt : (cmp x y).isLE → cmp y z = .lt → cmp x z = .lt

theorem transAt_of_transCmp [Std.TransCmp cmp] (x y z : α) : TransAt cmp x y z where
  isLE := Std.TransCmp.isLE_trans
  lt_isLE := Std.TransCmp.lt_of_lt_of_isLE
  isLE_lt := Std.TransCmp.lt_of_isLE_of_lt

/-- Transitivity at a triple depends on its three comparisons only. -/
theorem TransAt.congr {β : Type} {cmp' : β → β → Ordering} {x y z : α} {x' y' z' : β}
    (h : TransAt cmp x y z) (hxy : cmp' x' y' = cmp x y) (hyz : cmp' y' z' = cmp y z)
    (hxz : cmp' x' z' = cmp x z) : TransAt cmp' x' y' z' := by
  constructor
  all_goals rw [hxy, hyz, hxz]
  · exact h.isLE
  · exact h.lt_isLE
  · exact h.isLE_lt

/-- One position in front of the rest. -/
theorem TransAt.then_isLE {x y z : α} (h : TransAt cmp x y z) {o o' o'' : Ordering}
    (hrest : o.isLE → o'.isLE → o''.isLE) (hxy : ((cmp x y).then o).isLE)
    (hyz : ((cmp y z).then o').isLE) : ((cmp x z).then o'').isLE := by
  have hlt := h.lt_isLE
  have hlt' := h.isLE_lt
  have hle := h.isLE
  cases hfirst : cmp x y with
  | gt => simp [hfirst] at hxy
  | lt =>
    have hsecond : (cmp y z).isLE := by
      cases hyz' : cmp y z <;> simp [hyz'] at hyz ⊢
    simp [hlt hfirst hsecond]
  | eq =>
    cases hsecond : cmp y z with
    | gt => simp [hsecond] at hyz
    | lt => simp [hlt' (by simp [hfirst]) hsecond]
    | eq =>
      have hthird := hle (by simp [hfirst]) (by simp [hsecond])
      rw [hfirst, Ordering.eq_then] at hxy
      rw [hsecond, Ordering.eq_then] at hyz
      cases hxz : cmp x z with
      | lt => rfl
      | eq => exact hrest hxy hyz
      | gt => simp [hxz] at hthird

/-- The comparison of lists is transitive where the segments at every position are. -/
theorem compareBy_trans {xs ys zs : List α}
    (h : ∀ (i : ℕ) x y z, xs[i]? = some x → ys[i]? = some y → zs[i]? = some z → TransAt cmp x y z)
    (hxy : (compareBy cmp xs ys).isLE) (hyz : (compareBy cmp ys zs).isLE) :
    (compareBy cmp xs zs).isLE := by
  induction xs generalizing ys zs with
  | nil =>
    cases zs with
    | nil => rfl
    | cons z zs => simp
  | cons x xs ih =>
    cases ys with
    | nil => simp at hxy
    | cons y ys =>
      cases zs with
      | nil => simp at hyz
      | cons z zs =>
        have ih := ih fun i => h (i + 1)
        have htrans := h 0 x y z rfl rfl rfl
        rw [compareBy_cons_cons] at hxy hyz ⊢
        exact htrans.then_isLE ih hxy hyz

end Kyth.Segments

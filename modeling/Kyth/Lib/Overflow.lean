import Mathlib.Algebra.Order.BigOperators.Group.List
import Mathlib.Data.UInt
import Mathlib.Tactic

/-!
# Additions that may overflow

`+` and `sum` on `u64` in a build with overflow checks: there is no value where the sum does not fit into 64
bits. On `usize` they are the same, and only the outcome is of interest.
-/

namespace Kyth.Overflow

variable {a b s : UInt64} {l : List UInt64}

/-- `+` on `u64`. -/
def checkedAdd (a b : UInt64) : Option UInt64 := if a.toNat + b.toNat < 2 ^ 64 then some (a + b) else none

/-- `sum` on `u64`. -/
def checkedSum (l : List UInt64) : Option UInt64 := l.foldlM checkedAdd 0

/-- `+` on positions in a text. -/
def checkedIndex (index length : ℕ) : Option ℕ :=
  if index + length < 2 ^ 64 then some (index + length) else none

/-- The sum of a list, however large. -/
def total (l : List UInt64) : ℕ := (l.map UInt64.toNat).sum

theorem checkedAdd_of_lt (h : a.toNat + b.toNat < 2 ^ 64) : checkedAdd a b = some (a + b) := if_pos h

theorem checkedAdd_eq_some_iff : checkedAdd a b = some s ↔ a.toNat + b.toNat < 2 ^ 64 ∧ a + b = s := by
  unfold checkedAdd
  split_ifs with h
  · rw [Option.some_inj, and_iff_right h]
  · exact iff_of_false (fun hnone => by cases hnone) fun hsum => h hsum.1

theorem toNat_add_of_lt (h : a.toNat + b.toNat < 2 ^ 64) : (a + b).toNat = a.toNat + b.toNat := by
  rw [UInt64.toNat_add, Nat.mod_eq_of_lt h]

theorem checkedIndex_of_lt {index length : ℕ} (h : index + length < 2 ^ 64) :
    checkedIndex index length = some (index + length) := if_pos h

@[simp] theorem total_nil : total [] = 0 := rfl

@[simp] theorem total_cons (a : UInt64) (l : List UInt64) : total (a :: l) = a.toNat + total l := by
  simp [total]

/-- What is added from a value on. -/
theorem foldlM_checkedAdd (h : s.toNat + total l < 2 ^ 64) :
    l.foldlM checkedAdd s = some (s + l.sum) := by
  induction l generalizing s with
  | nil => simp
  | cons a l ih =>
    rw [total_cons] at h
    have hadd : s.toNat + a.toNat < 2 ^ 64 := by omega
    have hrest : (s + a).toNat + total l < 2 ^ 64 := by
      rw [toNat_add_of_lt hadd]
      omega
    rw [List.foldlM_cons, checkedAdd_of_lt hadd, Option.bind_eq_bind, Option.bind_some, ih hrest,
      List.sum_cons, UInt64.add_assoc]

/-- A sum that fits is there. -/
theorem checkedSum_of_lt (h : total l < 2 ^ 64) : checkedSum l = some l.sum := by
  have hzero : (0 : UInt64).toNat + total l < 2 ^ 64 := by simpa using h
  rw [checkedSum, foldlM_checkedAdd hzero, UInt64.zero_add]

theorem foldlM_checkedAdd_eq_some (h : l.foldlM checkedAdd a = some s) : s = a + l.sum := by
  induction l generalizing a with
  | nil =>
    rw [List.sum_nil, UInt64.add_zero]
    exact (Option.some.inj h).symm
  | cons b l ih =>
    rw [List.foldlM_cons, Option.bind_eq_bind, Option.bind_eq_some_iff] at h
    obtain ⟨next, hnext, hrest⟩ := h
    rw [ih hrest, ← (checkedAdd_eq_some_iff.1 hnext).2, List.sum_cons, UInt64.add_assoc]

/-- A sum that is there is the one that wraps. -/
theorem eq_sum_of_checkedSum (h : checkedSum l = some s) : s = l.sum := by
  rw [foldlM_checkedAdd_eq_some h, UInt64.zero_add]

end Kyth.Overflow

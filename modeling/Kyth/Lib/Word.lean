import Mathlib.Data.Int.Basic
import Mathlib.Tactic

/-!
# Fixed-width casts and saturating arithmetic

Values of type `u64` are `UInt64` where a record stores them and `ℕ` where they are computed
with; values of type `i64` are `ℤ` inside `[-2^63, 2^63)`. The casts wrap, as `as` does.
-/

namespace Kyth.Word

/-- `i64::saturating_add`. -/
def satAddI64 (a b : ℤ) : ℤ := max (-2 ^ 63) (min (2 ^ 63 - 1) (a + b))

/-- `i64::saturating_sub`. -/
def satSubI64 (a b : ℤ) : ℤ := max (-2 ^ 63) (min (2 ^ 63 - 1) (a - b))

/-- `u64::saturating_add`. -/
def satAddU64 (a b : ℕ) : ℕ := min (2 ^ 64 - 1) (a + b)

/-- `u64::saturating_mul`. -/
def satMulU64 (a b : ℕ) : ℕ := min (2 ^ 64 - 1) (a * b)

/-- `u64::checked_add`. -/
def checkedAddU64 (a b : ℕ) : Option ℕ := if a + b < 2 ^ 64 then some (a + b) else none

/-- `u64::abs_diff`. -/
def absDiff (a b : ℕ) : ℕ := (a - b) + (b - a)

/-- The cast `u64 as i64`. -/
def asI64 (n : ℕ) : ℤ := if n % 2 ^ 64 < 2 ^ 63 then (n % 2 ^ 64 : ℕ) else (n % 2 ^ 64 : ℕ) - 2 ^ 64

/-- The cast `i64 as u64`. -/
def asU64 (i : ℤ) : ℕ := (i % 2 ^ 64).toNat

theorem asI64_of_lt {n : ℕ} (h : n < 2 ^ 63) : asI64 n = n := by
  unfold asI64; rw [Nat.mod_eq_of_lt (by omega), if_pos h]

theorem asI64_of_ge {n : ℕ} (h : 2 ^ 63 ≤ n) (h' : n < 2 ^ 64) : asI64 n = n - 2 ^ 64 := by
  unfold asI64; rw [Nat.mod_eq_of_lt h', if_neg (by omega)]

theorem asU64_of_nonneg {i : ℤ} (h : 0 ≤ i) (h' : i < 2 ^ 64) : (asU64 i : ℤ) = i := by
  unfold asU64; omega

end Kyth.Word

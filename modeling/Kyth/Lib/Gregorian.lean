import Mathlib.Tactic

/-!
# The proleptic Gregorian calendar

Dates with the leap year rule of the calendar, the day behind a date, and the number of a day. A year that
begins in March ends with its leap day, so the days in front of a month do not depend on the year.
-/

namespace Kyth.Gregorian

/-- Every fourth year, but of the full centuries only every fourth. -/
def IsLeap (year : ℕ) : Prop := year % 4 = 0 ∧ (year % 100 ≠ 0 ∨ year % 400 = 0)

instance isLeapDecidable (year : ℕ) : Decidable (IsLeap year) := by
  unfold IsLeap
  infer_instance

def monthLength (year month : ℕ) : ℕ :=
  if month = 2 then if IsLeap year then 29 else 28
  else if month = 4 ∨ month = 6 ∨ month = 9 ∨ month = 11 then 30
  else 31

@[ext] structure Date where
  year : ℕ
  month : ℕ
  day : ℕ
  month_pos : 1 ≤ month
  month_le : month ≤ 12
  day_pos : 1 ≤ day
  day_le : day ≤ monthLength year month
  deriving DecidableEq

variable (date : Date)

theorem monthLength_pos (year month : ℕ) : 1 ≤ monthLength year month := by
  unfold monthLength
  split_ifs <;> decide

theorem monthLength_le (year month : ℕ) : monthLength year month ≤ 31 := by
  unfold monthLength
  split_ifs <;> decide

/-- A date is before another one. -/
instance dateLT : LT Date where
  lt a b := a.year < b.year ∨ a.year = b.year ∧ (a.month < b.month ∨ a.month = b.month ∧ a.day < b.day)

theorem Date.lt_iff {a b : Date} : a < b ↔
    a.year < b.year ∨ a.year = b.year ∧ (a.month < b.month ∨ a.month = b.month ∧ a.day < b.day) := Iff.rfl

instance dateDecidableLT (a b : Date) : Decidable (a < b) := decidable_of_iff _ Date.lt_iff.symm

/-- The day behind a date. -/
def Date.next : Date :=
  if h : date.day < monthLength date.year date.month then
    { date with day := date.day + 1, day_pos := Nat.le_add_left 1 date.day, day_le := h }
  else if h : date.month < 12 then
    { year := date.year, month := date.month + 1, day := 1, month_pos := Nat.le_add_left 1 date.month,
      month_le := h, day_pos := le_rfl, day_le := monthLength_pos _ _ }
  else
    { year := date.year + 1, month := 1, day := 1, month_pos := le_rfl, month_le := by decide,
      day_pos := le_rfl, day_le := monthLength_pos _ _ }

/-- January 1, 1970. -/
def epoch : Date where
  year := 1970
  month := 1
  day := 1
  month_pos := le_rfl
  month_le := by decide
  day_pos := le_rfl
  day_le := monthLength_pos _ _

/-- The date some days later. -/
def Date.later (days : ℕ) : Date := Date.next^[days] date

/-! ### The number of a day -/

/-- The days of a year that begins in March in front of a month. -/
def daysBefore (month : ℕ) : ℤ := (153 * ((month + 9) % 12 : ℕ) + 2) / 5

/-- The year that begins in March. -/
def Date.marchYear : ℤ := date.year - if date.month ≤ 2 then 1 else 0

/-- The day of the year that begins in March, from zero on. -/
def Date.marchDay : ℤ := daysBefore date.month + date.day - 1

/-- The days in front of a year that begins in March. -/
def daysBeforeYear (year : ℤ) : ℤ := 365 * year + year / 4 - year / 100 + year / 400

/-- The days from March 1 of the year 0 on. -/
def Date.number : ℤ := daysBeforeYear date.marchYear + date.marchDay

/-- A month ends where the next one begins, but for the last one in front of March. -/
theorem daysBefore_succ {month : ℕ} (hpos : 1 ≤ month) (hle : month ≤ 12) (hne : month ≠ 2) (year : ℕ) :
    daysBefore (month % 12 + 1) = daysBefore month + monthLength year month := by
  unfold daysBefore monthLength
  rw [if_neg hne]
  split_ifs with hshort
  · rcases hshort with rfl | rfl | rfl | rfl <;> decide
  · have hlong : month = 1 ∨ month = 3 ∨ month = 5 ∨ month = 7 ∨ month = 8 ∨ month = 10 ∨ month = 12 := by
      omega
    rcases hlong with rfl | rfl | rfl | rfl | rfl | rfl | rfl <;> decide

theorem daysBefore_bounds (month : ℕ) : 0 ≤ daysBefore month ∧ daysBefore month ≤ 337 := by
  unfold daysBefore
  omega

/-- A year ends where the next one begins. -/
theorem daysBeforeYear_succ (year : ℕ) :
    daysBeforeYear year = daysBeforeYear (year - 1) + if IsLeap year then 366 else 365 := by
  unfold daysBeforeYear IsLeap
  split_ifs with hleap
  · omega
  · omega

theorem marchYear_of_month_le (h : date.month ≤ 2) : date.marchYear = date.year - 1 := by
  rw [Date.marchYear, if_pos h]

theorem marchYear_of_lt_month (h : 2 < date.month) : date.marchYear = date.year := by
  rw [Date.marchYear, if_neg h.not_ge, sub_zero]

/-- The days of a year that begins in March, the last one of which is the leap day. -/
theorem marchDay_bounds : 0 ≤ date.marchDay ∧ date.marchDay ≤ 365 ∧
    (date.marchDay = 365 → (date.marchYear + 1) % 4 = 0 ∧
      ((date.marchYear + 1) % 100 ≠ 0 ∨ (date.marchYear + 1) % 400 = 0)) := by
  have hbefore := daysBefore_bounds date.month
  have hday := date.day_pos
  have hday' := date.day_le
  unfold Date.marchDay
  by_cases hfebruary : date.month = 2
  · rw [marchYear_of_month_le date hfebruary.le]
    have hlength : monthLength date.year date.month = if IsLeap date.year then 29 else 28 := by
      rw [monthLength, if_pos hfebruary]
    rw [hlength] at hday'
    rw [hfebruary] at hbefore ⊢
    have hbegin : daysBefore 2 = 337 := by decide
    split_ifs at hday' with hleap
    · unfold IsLeap at hleap
      omega
    · omega
  · have hsucc := daysBefore_succ date.month_pos date.month_le hfebruary date.year
    have hnext := daysBefore_bounds (date.month % 12 + 1)
    omega

theorem number_next : date.next.number = date.number + 1 := by
  have hpos := date.month_pos
  have hle := date.month_le
  have hday := date.day_le
  unfold Date.next
  split_ifs with hlast hmonth
  · unfold Date.number Date.marchDay Date.marchYear
    dsimp only
    omega
  · have hlength : (date.day : ℤ) = monthLength date.year date.month := by omega
    by_cases hfebruary : date.month = 2
    · have hbegin : daysBefore 2 = 337 ∧ daysBefore 3 = 0 := by decide
      have hyear := daysBeforeYear_succ date.year
      unfold Date.number Date.marchDay
      rw [marchYear_of_month_le date hfebruary.le, marchYear_of_lt_month _ (by dsimp only; omega)]
      dsimp only
      rw [hlength, monthLength, if_pos hfebruary, hfebruary, hbegin.1, hbegin.2, hyear]
      split_ifs with hleap
      · omega
      · omega
    · have hsucc := daysBefore_succ hpos hle hfebruary date.year
      rw [Nat.mod_eq_of_lt hmonth] at hsucc
      have hsame : (if date.month + 1 ≤ 2 then (1 : ℤ) else 0) = if date.month ≤ 2 then 1 else 0 :=
        if_congr (by omega) rfl rfl
      unfold Date.number Date.marchDay Date.marchYear
      dsimp only
      rw [hsame, hsucc, hlength]
      omega
  · have hdecember : date.month = 12 := by omega
    have hlength : (date.day : ℤ) = 31 := by
      rw [hdecember] at hday hlast
      have hdays : monthLength date.year 12 = 31 := by
        rw [monthLength]
        rfl
      omega
    have hbegin : daysBefore 12 = 275 ∧ daysBefore 1 = 306 := by decide
    unfold Date.number Date.marchDay
    rw [marchYear_of_lt_month date (by omega), marchYear_of_month_le _ (show 1 ≤ 2 by decide)]
    dsimp only
    rw [hlength, hdecember, hbegin.1, hbegin.2, show ((date.year + 1 : ℕ) : ℤ) - 1 = date.year by omega]
    omega

/-- Days are numbered one by one. -/
theorem number_later (days : ℕ) : (date.later days).number = date.number + days := by
  induction days with
  | zero => exact (add_zero _).symm
  | succ days ih =>
    rw [Date.later, Function.iterate_succ_apply', number_next, ← Date.later, ih]
    push_cast
    ring

end Kyth.Gregorian

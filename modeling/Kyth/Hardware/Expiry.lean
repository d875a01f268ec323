import Kyth.Hardware.Policy
import Kyth.Lib.Decimal
import Kyth.Lib.Gregorian

/-!
# Expired quirks (`system/hardware_policy.rs`)

`current_date_utc` divides the days from March 1 of the year 0 on into eras of 400 years and shifted months,
which gives the date of the day (`currentDateUtc_eq`). The dates of four-digit years have the order of their
texts, so a quirk is reported when its date is over (`reports_iff_before`).
-/

namespace Kyth.Hardware

open Decimal Gregorian

variable {date : Date} {quirk : Quirk} {z doe yoe doy : ℤ}

/-- The seconds of a clock, which shows nanoseconds from 1970 on. There are none in front of 1970. -/
def secondsSince1970 (clock : ℤ) : ℕ := (clock / 1000000000).toNat

/-- The date of the day that a clock shows. -/
def today (clock : ℤ) : Date := epoch.later (secondsSince1970 clock / 86400)

/-- `YYYY-MM-DD` -/
def isoText (date : Date) : String :=
  String.ofList (decimal 4 date.year ++ '-' :: (decimal 2 date.month ++ '-' :: decimal 2 date.day))

/-! ### The date of a day -/

/-- The year of an era, by its days. The first of the three corrections takes the leap days out, the others
put those of the centuries back. -/
theorem yearOfEra_eq (hyear : 0 ≤ yoe ∧ yoe < 400) (hday : 0 ≤ doy ∧ doy ≤ 365)
    (hleap : doy = 365 → (yoe + 1) % 4 = 0 ∧ ((yoe + 1) % 100 ≠ 0 ∨ (yoe + 1) % 400 = 0))
    (hdoe : doe = 365 * yoe + yoe / 4 - yoe / 100 + doy) :
    (doe - doe / 1460 + doe / 36524 - doe / 146096) / 365 = yoe := by
  obtain ⟨c, q, t, hyoe, hc, hq, ht⟩ : ∃ c q t : ℤ, yoe = 100 * c + 4 * q + t ∧ (0 ≤ c ∧ c < 4) ∧
      (0 ≤ q ∧ q < 25) ∧ 0 ≤ t ∧ t < 4 :=
    ⟨yoe / 100, yoe % 100 / 4, yoe % 4, by omega, by omega, by omega, by omega⟩
  have hcount : doe = 36524 * c + 1461 * q + 365 * t + doy := by omega
  by_cases hlast : doe = 146096
  · omega
  have hwithin : 1461 * q + 365 * t + doy < 36524 := by
    by_cases hend : q = 24 ∧ t = 3
    · obtain ⟨rfl, rfl⟩ := hend
      have hfull : (yoe + 1) % 100 = 0 := by omega
      by_cases hdoy : doy = 365
      · rcases (hleap hdoy).2 with hcentury | hera
        · exact absurd hfull hcentury
        · omega
      · omega
    · omega
  have hera : doe / 146096 = 0 := by omega
  have hcentury : doe / 36524 = c := by omega
  have hfour : doe / 1460 = 25 * c + q + (24 * c + q + 365 * t + doy) / 1460 := by omega
  rw [hera, hcentury, hfour]
  omega

/-- The month of a year that begins in March, by its days. -/
theorem monthOfYear_eq (date : Date) :
    (5 * date.marchDay + 2) / 153 = ((date.month + 9) % 12 : ℕ) := by
  obtain ⟨month, hmonth⟩ : ∃ month, (date.month + 9) % 12 = month := ⟨_, rfl⟩
  have hbegin : daysBefore date.month = (153 * (month : ℤ) + 2) / 5 := by rw [daysBefore, hmonth]
  have hpos := date.day_pos
  -- a month is over before the next one begins
  have hend : date.marchDay < (153 * ((month : ℤ) + 1) + 2) / 5 := by
    by_cases hfebruary : date.month = 2
    · have hlast := (marchDay_bounds date).2.1
      rw [hfebruary] at hmonth
      omega
    · have hsucc := daysBefore_succ date.month_pos date.month_le hfebruary date.year
      have hmonthLe := date.month_le
      have hlength := date.day_le
      have hnext : (date.month % 12 + 1 + 9) % 12 = month + 1 := by omega
      rw [daysBefore, hnext, Nat.cast_succ] at hsucc
      unfold Date.marchDay
      omega
  rw [hmonth]
  unfold Date.marchDay at hend ⊢
  omega

theorem padded_natCast (width n : ℕ) : padded width n = String.ofList (decimal width n) := by
  rw [padded, Int.toNat_natCast]
  rfl

/-- The divisions that give the date of a day from its number. -/
theorem fields_of_number {era mp month day year year' : ℤ} (hz : z = date.number) (hnonneg : 0 ≤ z)
    (hera : era = z.tdiv 146097) (hdoe : doe = z - era * 146097)
    (hyoe : yoe = (doe - doe.tdiv 1460 + doe.tdiv 36524 - doe.tdiv 146096).tdiv 365)
    (hyear : year = yoe + era * 400) (hdoy : doy = doe - (365 * yoe + yoe.tdiv 4 - yoe.tdiv 100))
    (hmp : mp = (5 * doy + 2).tdiv 153) (hday : day = doy - (153 * mp + 2).tdiv 5 + 1)
    (hmonth : month = mp + if mp < 10 then 3 else -9) (hyear' : year' = year + if month ≤ 2 then 1 else 0) :
    year' = date.year ∧ month = date.month ∧ day = date.day := by
  obtain ⟨hfirst, hlast, hleap⟩ := marchDay_bounds date
  have hmonthPos := date.month_pos
  have hmonthLe := date.month_le
  have hnumber : date.number = 146097 * (date.marchYear / 400) + (365 * (date.marchYear % 400) +
      date.marchYear % 400 / 4 - date.marchYear % 400 / 100 + date.marchDay) := by
    unfold Date.number daysBeforeYear
    omega
  have hyearOfEra : 0 ≤ date.marchYear % 400 ∧ date.marchYear % 400 < 400 := by omega
  have hera' : era = date.marchYear / 400 := by
    rw [hera, Int.tdiv_eq_ediv_of_nonneg hnonneg, hz, hnumber]
    omega
  have hdoe' : doe = 365 * (date.marchYear % 400) + date.marchYear % 400 / 4 -
      date.marchYear % 400 / 100 + date.marchDay := by
    rw [hdoe, hera', hz, hnumber]
    omega
  have hdoeNonneg : 0 ≤ doe := by omega
  have hyoe' : yoe = date.marchYear % 400 := by
    rw [hyoe, Int.tdiv_eq_ediv_of_nonneg hdoeNonneg, Int.tdiv_eq_ediv_of_nonneg hdoeNonneg,
      Int.tdiv_eq_ediv_of_nonneg hdoeNonneg, Int.tdiv_eq_ediv_of_nonneg (by omega)]
    refine yearOfEra_eq hyearOfEra ⟨hfirst, hlast⟩ (fun hend => ?_) hdoe'
    have hrule := hleap hend
    omega
  have hdoy' : doy = date.marchDay := by
    rw [hdoy, hyoe', Int.tdiv_eq_ediv_of_nonneg hyearOfEra.1, Int.tdiv_eq_ediv_of_nonneg hyearOfEra.1, hdoe']
    omega
  have hmp' : mp = ((date.month + 9) % 12 : ℕ) := by
    rw [hmp, Int.tdiv_eq_ediv_of_nonneg (by omega), hdoy', monthOfYear_eq]
  have hmonth' : month = date.month := by
    rw [hmonth]
    split_ifs <;> omega
  refine ⟨?_, hmonth', ?_⟩
  · have hmarch : date.marchYear = date.year - if date.month ≤ 2 then 1 else 0 := rfl
    rw [hyear', hyear, hyoe', hera', hmonth']
    split_ifs at hmarch ⊢ <;> omega
  · rw [hday, Int.tdiv_eq_ediv_of_nonneg (by omega), hdoy', hmp', Date.marchDay, daysBefore]
    omega

/-- The date of a day is computed from its number. -/
theorem currentDateUtc_of_number {seconds : ℕ} (h : date.number = 719468 + (seconds / 86400 : ℕ)) :
    currentDateUtc seconds = isoText date := by
  unfold currentDateUtc
  extract_lets days z era doe yoe year doy mp day month year'
  have hz : z = date.number := by rw [h, Int.add_comm]
  have hnonneg : 0 ≤ z := by omega
  have hera : era = z.tdiv 146097 := congrArg (Int.tdiv · 146097) (if_pos hnonneg)
  have hdoe : doe = z - era * 146097 := rfl
  have hyoe : yoe = (doe - doe.tdiv 1460 + doe.tdiv 36524 - doe.tdiv 146096).tdiv 365 := rfl
  have hdoy : doy = doe - (365 * yoe + yoe.tdiv 4 - yoe.tdiv 100) := rfl
  have hmp : mp = (5 * doy + 2).tdiv 153 := rfl
  have hday : day = doy - (153 * mp + 2).tdiv 5 + 1 := rfl
  have hmonth : month = mp + if mp < 10 then 3 else -9 := rfl
  have hyear : year' = year + if month ≤ 2 then 1 else 0 := rfl
  have hyear' : year = yoe + era * 400 := rfl
  obtain ⟨hyear, hmonth, hday⟩ :=
    fields_of_number hz hnonneg hera hdoe hyoe hyear' hdoy hmp hday hmonth hyear
  rw [hyear, hmonth, hday, padded_natCast, padded_natCast, padded_natCast, ← String.toList_inj, isoText]
  simp only [String.toList_append, String.toList_ofList, List.append_assoc]
  rfl

theorem currentDateUtc_eq (seconds : ℕ) : currentDateUtc seconds = isoText (epoch.later (seconds / 86400)) := by
  refine currentDateUtc_of_number ?_
  have hepoch : epoch.number = 719468 := by decide
  rw [number_later, hepoch]

/-! ### Expiry -/

/-- The texts of dates have the order of the dates. -/
theorem isoText_lt_iff {a b : Date} (ha : a.year ≤ 9999) (hb : b.year ≤ 9999) :
    isoText a < isoText b ↔ a < b := by
  have hmonth : ∀ date : Date, date.month < 10 ^ (1 + 1) := fun date => by
    have hle := date.month_le
    omega
  have hday : ∀ date : Date, date.day < 10 ^ (1 + 1) := fun date => by
    have hle := date.day_le.trans (monthLength_le _ _)
    omega
  rw [String.lt_iff_toList_lt, isoText, isoText, String.toList_ofList, String.toList_ofList,
    decimal_append_lt_iff (by omega) (by omega), List.cons_lt_cons_self,
    decimal_append_lt_iff (hmonth a) (hmonth b), List.cons_lt_cons_self, ← List.append_nil (decimal 2 a.day),
    ← List.append_nil (decimal 2 b.day), decimal_append_lt_iff (hday a) (hday b), Date.lt_iff]
  have hirrefl : ¬ ([] : List Char) < [] := List.not_lt_nil _
  simp only [hirrefl, and_false, or_false]

theorem isoText_ne_empty (date : Date) : isoText date ≠ "" := by
  intro h
  have hmem : '-' ∈ (isoText date).toList := by
    rw [isoText, String.toList_ofList]
    simp
  rw [h] at hmem
  cases hmem

/-- A quirk with a date is expired when the date is over. -/
theorem isExpired_iff {clock : ℤ} (h : quirk.expiresOn = isoText date) (hdate : date.year ≤ 9999)
    (htoday : (today clock).year ≤ 9999) :
    quirk.isExpired (currentDateUtc (secondsSince1970 clock)) = true ↔ date < today clock := by
  rw [Quirk.isExpired, Bool.and_eq_true, decide_eq_true_iff, decide_eq_true_iff, h, currentDateUtc_eq,
    and_iff_right (isoText_ne_empty date)]
  exact isoText_lt_iff hdate htoday

/-- Each clock gives the date of its day, and a quirk with a date is reported when the date is before it. -/
theorem reports_iff_before (lower : String → String) (policy : Policy) (policyDigest : String)
    (inventory : Inventory) (clock : ℤ) :
    currentDateUtc (secondsSince1970 clock) = isoText (today clock) ∧
      ∀ before quirk after date, policy.quirks = before ++ quirk :: after → quirk.expiresOn = isoText date →
        date.year ≤ 9999 → (today clock).year ≤ 9999 →
        expiredQuirks policy (secondsSince1970 clock) =
            expiredQuirks { policy with quirks := before } (secondsSince1970 clock) ++
              ((if date < today clock then [quirk.id] else []) ++
                expiredQuirks { policy with quirks := after } (secondsSince1970 clock)) ∧
          ∀ expired, (quirk, expired) ∈
              (evaluate lower policy policyDigest (secondsSince1970 clock) inventory).quirks →
            (expired = true ↔ date < today clock) := by
  refine ⟨currentDateUtc_eq _, fun before quirk after date hquirks hexpires hdate htoday => ⟨?_, ?_⟩⟩
  · have hexpired := isExpired_iff hexpires hdate htoday
    unfold expiredQuirks
    rw [hquirks, List.filter_append, List.map_append, List.filter_cons]
    by_cases hbefore : date < today clock
    · rw [if_pos (hexpired.2 hbefore), if_pos hbefore]
      rfl
    · rw [if_neg (fun h => hbefore (hexpired.1 h)), if_neg hbefore]
      rfl
  · intro expired hmem
    obtain ⟨other, -, heq⟩ := List.mem_map.1 hmem
    obtain ⟨rfl, rfl⟩ := Prod.mk.inj heq
    exact isExpired_iff hexpires hdate htoday

/-- On March 1, 1970, the last day of February is over. -/
theorem reports_february :
    expiredQuirks ⟨"1", [], [⟨"wifi-aspm", "1970-02-28", ⟨true, [], [], [], [], [], []⟩⟩]⟩
      (secondsSince1970 5097600000000000) = ["wifi-aspm"] := by
  have hreports := (reports_iff_before id
    ⟨"1", [], [⟨"wifi-aspm", "1970-02-28", ⟨true, [], [], [], [], [], []⟩⟩]⟩ "" ⟨"", "", "", "", [], []⟩
    5097600000000000).2 [] ⟨"wifi-aspm", "1970-02-28", ⟨true, [], [], [], [], [], []⟩⟩ []
    ⟨1970, 2, 28, by decide, by decide, by decide, by decide⟩ rfl (by decide) (by decide)
    (by decide +kernel)
  rw [hreports.1, if_pos (by decide +kernel)]
  rfl

end Kyth.Hardware

/-
# Dates

Days counted through years that begin in March, so that a leap day is the last of its year.
A year is found from a day by a division that is off by less than a year wherever it could be,
and dates are ordered as the days are.
-/

import Mathlib.Order.Monotone.Basic

namespace Sypherstore.Logic.Calendar

/-- The days of the years before this one. -/
def daysBefore (y : ℕ) : ℕ := 365 * y + y / 4 - y / 100 + y / 400

/-- A year has 365 or 366 days. -/
theorem daysBefore_succ (y : ℕ) :
    daysBefore y + 365 ≤ daysBefore (y + 1) ∧ daysBefore (y + 1) ≤ daysBefore y + 366 := by
  unfold daysBefore
  omega

theorem daysBefore_strictMono : StrictMono daysBefore := by
  apply strictMono_nat_of_lt_succ
  intro y
  have hsucc := daysBefore_succ y
  omega

/-- Eras of 400 years are alike. -/
theorem daysBefore_era (y era : ℕ) : daysBefore (y + 400 * era) = daysBefore y + 146097 * era := by
  unfold daysBefore
  omega

/-- Every day is in some year. -/
theorem exists_year (day : ℕ) : ∃ y, daysBefore y ≤ day ∧ day < daysBefore (y + 1) := by
  induction day with
  | zero => exact ⟨0, by decide⟩
  | succ day ih =>
      obtain ⟨y, hle, hlt⟩ := ih
      by_cases hlast : day + 1 < daysBefore (y + 1)
      · exact ⟨y, by omega, hlast⟩
      · have hnext := daysBefore_succ (y + 1)
        exact ⟨y + 1, by omega, by omega⟩

/-! ## The year of a day -/

/-- The days of an era without its leap days, as far as a division tells. -/
def commonDays (doe : ℕ) : ℕ := doe - doe / 1460 + doe / 36524 - doe / 146096

/-- The year of a day of an era. -/
def yearOfEra (doe : ℕ) : ℕ := commonDays doe / 365

theorem commonDays_mono : Monotone commonDays := by
  apply monotone_nat_of_le_succ
  intro doe
  unfold commonDays
  omega

/-- The first and the last day of each year of an era. -/
theorem yearOfEra_ends : ∀ y < 400,
    yearOfEra (daysBefore y) = y ∧ yearOfEra (daysBefore (y + 1) - 1) = y := by
  decide +kernel

theorem yearOfEra_spec {doe : ℕ} (h : doe < 146097) :
    yearOfEra doe < 400 ∧ daysBefore (yearOfEra doe) ≤ doe ∧
      doe < daysBefore (yearOfEra doe + 1) := by
  obtain ⟨y, hle, hlt⟩ := exists_year doe
  have hy : y < 400 := by
    have hera : daysBefore 400 = 146097 := by decide
    by_contra hlarge
    have hmono := daysBefore_strictMono.monotone (Nat.le_of_not_lt hlarge)
    omega
  obtain ⟨hfirst, hlast⟩ := yearOfEra_ends y hy
  have hyear : yearOfEra doe = y := by
    apply Nat.le_antisymm
    · rw [← hlast]
      exact Nat.div_le_div_right (commonDays_mono (by omega))
    · conv_lhs => rw [← hfirst]
      exact Nat.div_le_div_right (commonDays_mono hle)
  rw [hyear]
  exact ⟨hy, hle, hlt⟩

/-- The year of a day. -/
def year (day : ℕ) : ℕ := yearOfEra (day % 146097) + 400 * (day / 146097)

theorem year_spec (day : ℕ) : daysBefore (year day) ≤ day ∧ day < daysBefore (year day + 1) := by
  have hspec := yearOfEra_spec (Nat.mod_lt day (by decide : 0 < 146097))
  have hsplit := Nat.div_add_mod day 146097
  have hera := daysBefore_era (yearOfEra (day % 146097)) (day / 146097)
  have hnext := daysBefore_era (yearOfEra (day % 146097) + 1) (day / 146097)
  rw [Nat.add_right_comm] at hnext
  rw [year, hera, hnext]
  omega

theorem year_mono : Monotone year := by
  intro day day' hle
  by_contra hlt
  have hbound := daysBefore_strictMono.monotone (Nat.succ_le_of_lt (Nat.lt_of_not_le hlt))
  have hfirst := (year_spec day).1
  have hlast := (year_spec day').2
  rw [Nat.succ_eq_add_one] at hbound
  omega

/-! ## Months and days -/

/-- The day of the year. -/
def dayOfYear (day : ℕ) : ℕ := day - daysBefore (year day)

theorem dayOfYear_lt (day : ℕ) : dayOfYear day < 366 := by
  have hspec := year_spec day
  have hlength := daysBefore_succ (year day)
  unfold dayOfYear
  omega

/-- The month of a day of the year, from zero for March. -/
def monthOf (doy : ℕ) : ℕ := (5 * doy + 2) / 153

/-- The day of the month, from zero. -/
def dayOf (doy : ℕ) : ℕ := doy - (153 * monthOf doy + 2) / 5

theorem monthStart_le (doy : ℕ) : (153 * monthOf doy + 2) / 5 ≤ doy := by
  unfold monthOf
  omega

theorem monthOf_lt {doy : ℕ} (h : doy < 366) : monthOf doy < 12 := by
  unfold monthOf
  omega

theorem dayOf_lt (doy : ℕ) : dayOf doy < 31 := by
  unfold dayOf monthOf
  omega

theorem monthOf_lt_or {doy doy' : ℕ} (h : doy < doy') :
    monthOf doy < monthOf doy' ∨ monthOf doy = monthOf doy' ∧ dayOf doy < dayOf doy' := by
  unfold dayOf monthOf
  omega

/-- The year a day is written with, which begins in January. -/
def calendarYear (day : ℕ) : ℕ :=
  if monthOf (dayOfYear day) < 10 then year day else year day + 1

/-- The month a day is written with, from one for January. -/
def calendarMonth (day : ℕ) : ℕ :=
  if monthOf (dayOfYear day) < 10 then monthOf (dayOfYear day) + 3
  else monthOf (dayOfYear day) - 9

/-- The day of the month, from one. -/
def calendarDay (day : ℕ) : ℕ := dayOf (dayOfYear day) + 1

/-- Both ways to begin a year count the same months. -/
theorem calendar_months (day : ℕ) :
    12 * calendarYear day + calendarMonth day =
      12 * year day + monthOf (dayOfYear day) + 3 ∧
      0 < calendarMonth day ∧ calendarMonth day ≤ 12 := by
  have hmonth := monthOf_lt (dayOfYear_lt day)
  unfold calendarYear calendarMonth
  split <;> omega

theorem calendarDay_le (day : ℕ) : calendarDay day ≤ 31 := dayOf_lt _

/-- **Dates are ordered as days.** A later day is in a later month, or later in the month. -/
theorem date_lt {day day' : ℕ} (h : day < day') :
    12 * calendarYear day + calendarMonth day < 12 * calendarYear day' + calendarMonth day' ∨
      12 * calendarYear day + calendarMonth day = 12 * calendarYear day' + calendarMonth day' ∧
        calendarDay day < calendarDay day' := by
  rw [(calendar_months day).1, (calendar_months day').1]
  unfold calendarDay
  have hmonth := monthOf_lt (dayOfYear_lt day)
  rcases (year_mono h.le).lt_or_eq with hyear | hyear
  · left
    omega
  · have hfirst := (year_spec day).1
    have hdoy : dayOfYear day < dayOfYear day' := by
      unfold dayOfYear
      rw [← hyear]
      omega
    rw [hyear]
    rcases monthOf_lt_or hdoy with hlt | ⟨heq, hlt⟩
    · left
      omega
    · right
      omega

/-- A day before the last ten months of a year of which it is a day is written with it. -/
theorem calendarYear_le {day y : ℕ} (h : day < daysBefore y + 306) : calendarYear day ≤ y := by
  have hfirst := (year_spec day).1
  have hyear : year day ≤ y := by
    by_contra hlarge
    have hbound := daysBefore_strictMono.monotone (Nat.succ_le_of_lt (Nat.lt_of_not_le hlarge))
    have hsucc := daysBefore_succ y
    rw [Nat.succ_eq_add_one] at hbound
    omega
  rcases hyear.lt_or_eq with hlt | heq
  · unfold calendarYear
    split <;> omega
  · have hdoy : monthOf (dayOfYear day) < 10 := by
      unfold monthOf dayOfYear
      rw [heq]
      omega
    rw [calendarYear, if_pos hdoy, heq]

end Sypherstore.Logic.Calendar

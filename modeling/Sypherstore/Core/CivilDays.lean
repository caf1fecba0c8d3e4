/-
# The date of a day

`civil_from_days` counts from a first of March, in eras of 400 years, and finds the year of an
era by one division. What it returns is the date of the Gregorian calendar, for days before
1970 and before the year one as well.
-/

import Mathlib.Tactic.IntervalCases
import Sypherstore.Core.Backup
import Sypherstore.Logic.Calendar
import Sypherstore.Logic.Gregorian

namespace Sypherstore

open Logic Calendar

namespace Backup

theorem yearOfEra_natCast (doe : ℕ) :
    ((doe : ℤ) - (doe : ℤ).tdiv 1460 + (doe : ℤ).tdiv 36524 - (doe : ℤ).tdiv 146096).tdiv 365 =
      (yearOfEra doe : ℤ) := by
  simp only [Int.tdiv_eq_ediv_of_nonneg (Int.natCast_nonneg doe)]
  rw [Int.tdiv_eq_ediv_of_nonneg (by omega)]
  unfold yearOfEra commonDays
  omega

/-- The day of its year of a day of an era. -/
def dayOfEraYear (doe : ℕ) : ℕ := doe - daysBefore (yearOfEra doe)

theorem dayOfEraYear_spec {doe : ℕ} (h : doe < 146097) :
    doe = daysBefore (yearOfEra doe) + dayOfEraYear doe ∧
      daysBefore (yearOfEra doe) + dayOfEraYear doe < daysBefore (yearOfEra doe + 1) ∧
        dayOfEraYear doe < 366 := by
  have hspec := yearOfEra_spec h
  have hlength := daysBefore_succ (yearOfEra doe)
  unfold dayOfEraYear
  omega

theorem dayOfEraYear_natCast {doe : ℕ} (h : doe < 146097) :
    (doe : ℤ) - (365 * (yearOfEra doe : ℤ) + (yearOfEra doe : ℤ).tdiv 4 -
      (yearOfEra doe : ℤ).tdiv 100) = (dayOfEraYear doe : ℤ) := by
  have hspec := dayOfEraYear_spec h
  have hyear := (yearOfEra_spec h).1
  simp only [Int.tdiv_eq_ediv_of_nonneg (Int.natCast_nonneg (yearOfEra doe))]
  unfold daysBefore at hspec
  omega

/-- What is computed for a day of an era. -/
theorem civilFromDays_eq {z era : ℤ} {doe : ℕ} (hz : z + 719468 = 146097 * era + doe)
    (hdoe : doe < 146097) : civilFromDays z =
      if monthOf (dayOfEraYear doe) < 10 then
        (yearOfEra doe + 400 * era, monthOf (dayOfEraYear doe) + 3, dayOf (dayOfEraYear doe) + 1)
      else
        (yearOfEra doe + 400 * era + 1, monthOf (dayOfEraYear doe) - 9,
          dayOf (dayOfEraYear doe) + 1) := by
  have hera : (z + 719468) / 146097 = era := by omega
  have hmod : (z + 719468) % 146097 = doe := by omega
  simp only [civilFromDays]
  rw [hera, hmod, yearOfEra_natCast, dayOfEraYear_natCast hdoe]
  have hdoy := (dayOfEraYear_spec hdoe).2.2
  generalize dayOfEraYear doe = doy at hdoy ⊢
  have hmonth : (5 * (doy : ℤ) + 2).tdiv 153 = (monthOf doy : ℤ) := by
    rw [Int.tdiv_eq_ediv_of_nonneg (by omega)]
    unfold monthOf
    omega
  have hlt := monthOf_lt hdoy
  have hstart := monthStart_le doy
  rw [hmonth, Int.tdiv_eq_ediv_of_nonneg (by omega)]
  unfold dayOf
  by_cases hmarch : monthOf doy < 10
  · have hmarch' : (monthOf doy : ℤ) < 10 := by omega
    rw [if_pos hmarch', if_pos hmarch, if_neg (by omega)]
    simp only [Prod.mk.injEq]
    omega
  · have hmarch' : ¬ (monthOf doy : ℤ) < 10 := by omega
    rw [if_neg hmarch', if_neg hmarch, if_pos (by omega)]
    simp only [Prod.mk.injEq]
    omega

/-! ## The Gregorian calendar -/

open Gregorian

/-- The date of a day. -/
def civilDate (z : ℤ) : Date :=
  { year := (civilFromDays z).1, month := (civilFromDays z).2.1, day := (civilFromDays z).2.2 }

/-- From March on no month depends on the year, and a division says how long it is. -/
theorem monthLength_of_march (y : ℤ) {mp : ℕ} (h : mp < 10) :
    monthLength y (mp + 3) = ((153 * (mp + 1) + 2) / 5 - (153 * mp + 2) / 5 : ℕ) := by
  interval_cases mp <;> simp [monthLength]

theorem daysToMonth_of_march (y : ℤ) {mp : ℕ} (h : mp ≤ 10) :
    daysToMonth y (mp + 3) = daysToMonth y 3 + ((153 * mp + 2) / 5 : ℕ) := by
  induction mp with
  | zero => simp
  | succ mp ih =>
      have hlength := monthLength_of_march y h
      have hmonth := ih (by omega)
      have hsucc := daysToMonth_succ y (m := mp + 3) (by omega)
      rw [Nat.add_right_comm, hsucc, hmonth, hlength]
      omega

/-- The years that begin in March are counted from a first of March. -/
theorem daysToYear_march (yoe : ℕ) (era : ℤ) (h : yoe < 400) :
    daysToYear (yoe + 400 * era) + daysToMonth (yoe + 400 * era) 3 =
        146097 * era + daysBefore yoe - 719468 ∧
      daysToYear (yoe + 400 * era + 1) = 146097 * era + daysBefore yoe - 719468 + 306 := by
  have hlast := daysToMonth_of_march (yoe + 400 * era) (le_refl 10)
  rw [show 10 + 3 = 13 from rfl, daysToMonth_end] at hlast
  have hnext : daysToYear (yoe + 400 * era + 1) =
      146097 * era + daysBefore yoe - 719468 + 306 := by
    rw [daysToYear_eq]
    unfold daysBefore
    omega
  have hyear := daysToYear_succ (yoe + 400 * era)
  omega

theorem civilDate_spec (z : ℤ) : (civilDate z).IsValid ∧ (civilDate z).dayNumber = z := by
  obtain ⟨era, doe, hz, hdoe⟩ : ∃ (era : ℤ) (doe : ℕ), z + 719468 = 146097 * era + doe ∧
      doe < 146097 :=
    ⟨(z + 719468) / 146097, ((z + 719468) % 146097).toNat, by omega, by omega⟩
  obtain ⟨hday, hend, hdoy⟩ := dayOfEraYear_spec hdoe
  have hyoe := (yearOfEra_spec hdoe).1
  obtain ⟨hmarch, hjanuary⟩ := daysToYear_march (yearOfEra doe) era hyoe
  have hcivil := civilFromDays_eq hz hdoe
  have hlt := monthOf_lt hdoy
  have hstart := monthStart_le (dayOfEraYear doe)
  unfold civilDate
  generalize dayOfEraYear doe = doy at *
  generalize yearOfEra doe = yoe at *
  by_cases hmonth : monthOf doy < 10
  · rw [hcivil, if_pos hmonth]
    have hlength := monthLength_of_march (yoe + 400 * era) hmonth
    have hbefore := daysToMonth_of_march (yoe + 400 * era) hmonth.le
    refine ⟨⟨by simp, by dsimp only; omega, by simp, ?_⟩, ?_⟩
    · dsimp only
      rw [hlength]
      unfold dayOf monthOf
      omega
    · dsimp only [Date.dayNumber]
      rw [hbefore]
      unfold dayOf
      omega
  · rw [hcivil, if_neg hmonth]
    -- the last two months of the count are the first two of the year after
    have hmonths : monthOf doy = 10 ∨ monthOf doy = 11 := by omega
    rcases hmonths with hten | heleven
    · have hdoy' : doy < 337 := by
        unfold monthOf at hten
        omega
      have hbefore : daysToMonth (yoe + 400 * era + 1) 1 = 0 := rfl
      have hlength : monthLength (yoe + 400 * era + 1) 1 = 31 := rfl
      simp only [hten, dayOf, Nat.reduceSub] at hstart ⊢
      refine ⟨⟨by simp, by simp, by simp, ?_⟩, ?_⟩
      · dsimp only
        omega
      · dsimp only [Date.dayNumber]
        omega
    · have hbefore : daysToMonth (yoe + 400 * era + 1) 2 = 31 := rfl
      have hlength : doy ≤ 336 + monthLength (yoe + 400 * era + 1) 2 := by
        unfold daysBefore at hend
        simp only [monthLength, if_pos]
        split
        · omega
        · rename_i hcommon
          unfold IsLeap at hcommon
          omega
      simp only [heleven, dayOf, Nat.reduceSub] at hstart ⊢
      refine ⟨⟨by simp, by simp, by simp, ?_⟩, ?_⟩
      · dsimp only
        omega
      · dsimp only [Date.dayNumber]
        omega

/-- **`civil_from_days` is the Gregorian calendar**, in both directions of time: it returns a
date of the calendar, the number of that date is the day it was given, and for the next day it
returns the next date. -/
theorem civilFromDays_is_gregorian (z : ℤ) :
    (civilDate z).IsValid ∧ (civilDate z).dayNumber = z ∧
      civilDate (z + 1) = (civilDate z).next := by
  obtain ⟨hvalid, hnumber⟩ := civilDate_spec z
  obtain ⟨hvalid', hnumber'⟩ := civilDate_spec (z + 1)
  refine ⟨hvalid, hnumber, hvalid'.eq_of_dayNumber_eq hvalid.next ?_⟩
  rw [hnumber', hvalid.dayNumber_next, hnumber]

end Backup

end Sypherstore

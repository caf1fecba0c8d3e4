/-
# The Gregorian calendar

Years, months and days under the rule of 4, 100 and 400, in both directions of time, and the
number of a date counted from the first of January 1970. The number is the sum of the years
and months in between, so the rule is all that it rests on; a date has one number and a number
at most one date.
-/

import Mathlib.Algebra.BigOperators.Intervals
import Mathlib.Algebra.Order.BigOperators.Group.Finset
import Mathlib.Data.Int.ConditionallyCompleteOrder
import Mathlib.Data.Int.SuccPred

namespace Sypherstore.Logic.Gregorian

open Finset

/-- Every fourth year, but of the full centuries only every fourth one. -/
def IsLeap (y : ℤ) : Prop := 4 ∣ y ∧ (¬ 100 ∣ y ∨ 400 ∣ y)

instance (y : ℤ) : Decidable (IsLeap y) := inferInstanceAs (Decidable (_ ∧ _))

def yearLength (y : ℤ) : ℤ := if IsLeap y then 366 else 365

/-- The days of a month, where January is the first. -/
def monthLength (y : ℤ) (m : ℕ) : ℤ :=
  if m = 2 then if IsLeap y then 29 else 28
  else if m = 4 ∨ m = 6 ∨ m = 9 ∨ m = 11 then 30
  else 31

/-- A day in the calendar. -/
@[ext] structure Date where
  year : ℤ
  month : ℕ
  day : ℕ
  deriving DecidableEq

/-- The days from 1970 to a year: those of the years in between, counted up from 1970, or down
from 1969 and negative. -/
def daysToYear (y : ℤ) : ℤ :=
  ∑ k ∈ range (y - 1970).toNat, yearLength (1970 + k) -
    ∑ k ∈ range (1970 - y).toNat, yearLength (1969 - k)

/-- The days of a year before a month. -/
def daysToMonth (y : ℤ) (m : ℕ) : ℤ := ∑ k ∈ Ico 1 m, monthLength y k

namespace Date

structure IsValid (date : Date) : Prop where
  month_pos : 1 ≤ date.month
  month_le : date.month ≤ 12
  day_pos : 1 ≤ date.day
  day_le : date.day ≤ monthLength date.year date.month

/-- The number of a day, zero for 1970-01-01. -/
def dayNumber (date : Date) : ℤ :=
  daysToYear date.year + daysToMonth date.year date.month + (date.day - 1)

/-- The day after. -/
def next (date : Date) : Date :=
  if date.day < monthLength date.year date.month then { date with day := date.day + 1 }
  else if date.month < 12 then { date with month := date.month + 1, day := 1 }
  else { year := date.year + 1, month := 1, day := 1 }

end Date

/-! ## Years -/

theorem daysToYear_succ (y : ℤ) : daysToYear (y + 1) = daysToYear y + yearLength y := by
  unfold daysToYear
  by_cases h : 1970 ≤ y
  · have hafter : (y + 1 - 1970).toNat = (y - 1970).toNat + 1 := by omega
    have hlast : (1970 : ℤ) + (y - 1970).toNat = y := by omega
    have hbefore : (1970 - (y + 1)).toNat = 0 := by omega
    have hbefore' : (1970 - y).toNat = 0 := by omega
    rw [hafter, sum_range_succ, hlast, hbefore, hbefore']
    omega
  · have hafter : (y + 1 - 1970).toNat = 0 := by omega
    have hafter' : (y - 1970).toNat = 0 := by omega
    have hbefore : (1970 - y).toNat = (1970 - (y + 1)).toNat + 1 := by omega
    have hlast : (1969 : ℤ) - (1970 - (y + 1)).toNat = y := by omega
    rw [hafter, hafter', hbefore, sum_range_succ, hlast]
    omega

/-- The leap days among some years are counted by three divisions. -/
theorem daysToYear_eq (y : ℤ) : daysToYear y =
    365 * (y - 1970) + (y - 1) / 4 - (y - 1) / 100 + (y - 1) / 400 - 477 := by
  have hstep : ∀ k : ℤ, 365 * (k + 1 - 1970) + (k + 1 - 1) / 4 - (k + 1 - 1) / 100 +
      (k + 1 - 1) / 400 - 477 =
        365 * (k - 1970) + (k - 1) / 4 - (k - 1) / 100 + (k - 1) / 400 - 477 + yearLength k := by
    intro k
    unfold yearLength
    split
    · rename_i hleap
      unfold IsLeap at hleap
      omega
    · rename_i hcommon
      unfold IsLeap at hcommon
      omega
  induction y using Int.inductionOn' (b := 1970) with
  | zero => rfl
  | succ k _ ih => rw [daysToYear_succ, ih, hstep]
  | pred k _ ih =>
      have hprev := daysToYear_succ (k - 1)
      have hformula := hstep (k - 1)
      rw [sub_add_cancel] at hprev hformula
      omega

theorem daysToYear_strictMono : StrictMono daysToYear := by
  apply strictMono_int_of_lt_succ
  intro y
  rw [daysToYear_succ]
  unfold yearLength
  split <;> omega

/-! ## Months -/

theorem monthLength_pos (y : ℤ) (m : ℕ) : 0 < monthLength y m := by
  unfold monthLength
  split_ifs <;> omega

theorem daysToMonth_succ (y : ℤ) {m : ℕ} (h : 1 ≤ m) :
    daysToMonth y (m + 1) = daysToMonth y m + monthLength y m := sum_Ico_succ_top h _

theorem daysToMonth_mono (y : ℤ) : Monotone (daysToMonth y) := by
  intro m m' h
  refine sum_le_sum_of_subset_of_nonneg (Ico_subset_Ico_right h) fun k _ _ => ?_
  exact (monthLength_pos y k).le

/-- The months of a year are the year. -/
theorem daysToMonth_end (y : ℤ) : daysToMonth y 13 = yearLength y := by
  by_cases hleap : IsLeap y <;>
    simp [daysToMonth, sum_Ico_succ_top, monthLength, yearLength, hleap]

/-! ## Days -/

namespace Date

variable {date date' : Date}

/-- A valid date lies in its month. -/
theorem IsValid.lt_month (h : date.IsValid) : date.dayNumber <
    daysToYear date.year + daysToMonth date.year (date.month + 1) := by
  rw [daysToMonth_succ _ h.month_pos]
  have hday := h.day_le
  unfold dayNumber
  omega

theorem IsValid.lt_year (h : date.IsValid) : date.dayNumber < daysToYear (date.year + 1) := by
  rw [daysToYear_succ, ← daysToMonth_end]
  have hmonth := h.lt_month
  have hmono := daysToMonth_mono date.year (Nat.succ_le_succ h.month_le)
  rw [show Nat.succ 12 = 13 from rfl, Nat.succ_eq_add_one] at hmono
  omega

theorem IsValid.month_le_dayNumber (h : date.IsValid) :
    daysToYear date.year + daysToMonth date.year date.month ≤ date.dayNumber := by
  have hday := h.day_pos
  unfold dayNumber
  omega

theorem IsValid.year_le_dayNumber (h : date.IsValid) :
    daysToYear date.year ≤ date.dayNumber := by
  have hmonth := h.month_le_dayNumber
  have hnonneg := daysToMonth_mono date.year (Nat.zero_le date.month)
  have hzero : daysToMonth date.year 0 = 0 := rfl
  omega

/-- **A number has at most one date.** -/
theorem IsValid.eq_of_dayNumber_eq (h : date.IsValid) (h' : date'.IsValid)
    (hsame : date.dayNumber = date'.dayNumber) : date = date' := by
  have hyear : date.year = date'.year := by
    have hfirst := h.year_le_dayNumber
    have hlast := h.lt_year
    have hfirst' := h'.year_le_dayNumber
    have hlast' := h'.lt_year
    have hbefore := daysToYear_strictMono.lt_iff_lt.mp (by omega :
      daysToYear date.year < daysToYear (date'.year + 1))
    have hafter := daysToYear_strictMono.lt_iff_lt.mp (by omega :
      daysToYear date'.year < daysToYear (date.year + 1))
    omega
  have hmonth : date.month = date'.month := by
    have hfirst := h.month_le_dayNumber
    have hlast := h.lt_month
    have hfirst' := h'.month_le_dayNumber
    have hlast' := h'.lt_month
    rw [← hyear] at hfirst' hlast'
    have hbefore := (daysToMonth_mono date.year).reflect_lt (by omega :
      daysToMonth date.year date.month < daysToMonth date.year (date'.month + 1))
    have hafter := (daysToMonth_mono date.year).reflect_lt (by omega :
      daysToMonth date.year date'.month < daysToMonth date.year (date.month + 1))
    omega
  refine Date.ext hyear hmonth ?_
  unfold dayNumber at hsame
  rw [hyear, hmonth] at hsame
  omega

theorem IsValid.next (h : date.IsValid) : date.next.IsValid := by
  obtain ⟨hmonth, hlast, hday, hle⟩ := h
  unfold Date.next
  split
  · exact ⟨hmonth, hlast, by simp, by push_cast; omega⟩
  · have hpos := monthLength_pos date.year (date.month + 1)
    have hpos' := monthLength_pos (date.year + 1) 1
    split
    · exact ⟨by simp, by simpa using ‹date.month < 12›, le_rfl, by push_cast; omega⟩
    · exact ⟨le_rfl, by simp, le_rfl, by push_cast; omega⟩

/-- The day after has the next number. -/
theorem IsValid.dayNumber_next (h : date.IsValid) :
    date.next.dayNumber = date.dayNumber + 1 := by
  have hle := h.day_le
  unfold Date.next dayNumber
  split
  · push_cast
    omega
  · split
    · rw [daysToMonth_succ _ h.month_pos]
      push_cast
      omega
    · have hmonth : date.month = 12 := by
        have := h.month_le
        omega
      have hyear : daysToMonth date.year 12 + monthLength date.year 12 = yearLength date.year := by
        rw [← daysToMonth_end, ← daysToMonth_succ _ (by decide)]
      have hone : daysToMonth (date.year + 1) 1 = 0 := rfl
      rw [daysToYear_succ, hone]
      rename_i hlast _
      rw [hmonth] at hle hlast ⊢
      push_cast
      omega

end Date

end Sypherstore.Logic.Gregorian

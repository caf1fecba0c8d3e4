/-
# Names of archives

The name of an archive is made from the clock, in whole seconds. Up to the year 9999 a later
name is a greater text, and at no time do two seconds have one name.
-/

import Sypherstore.Core.CivilDays
import Sypherstore.Logic.FixedWidth

namespace Sypherstore

open Logic Calendar

namespace Backup

/-! ## Dates -/

theorem dayOfYear_eq (day : ℕ) : dayOfYear day = dayOfEraYear (day % 146097) := by
  have hera := daysBefore_era (yearOfEra (day % 146097)) (day / 146097)
  rw [dayOfYear, year, hera, dayOfEraYear]
  omega

/-- The days are counted from a first of March. -/
theorem civilFromDays_natCast (days : ℕ) :
    civilFromDays days = ((calendarYear (days + 719468) : ℤ), calendarMonth (days + 719468),
      calendarDay (days + 719468)) := by
  have hsplit : (days : ℤ) + 719468 =
      146097 * ((days + 719468) / 146097 : ℕ) + ((days + 719468) % 146097 : ℕ) := by omega
  rw [civilFromDays_eq hsplit (Nat.mod_lt _ (by decide))]
  unfold calendarYear calendarMonth calendarDay
  rw [dayOfYear_eq]
  split
  · simp [year]
  · simp [year]

/-! ## Texts -/

theorem padded_eq {w n : ℕ} (hw : 0 < w) (hn : n < 10 ^ w) : padded w n = fixedWidth w n :=
  replicate_append_toDigits hw hn

/-- The day of a time, counted from a first of March. -/
def dayCount (secs : ℕ) : ℕ := secs / 86400 + 719468

/-- Month and day as one number. -/
def dateNumber (secs : ℕ) : ℕ :=
  calendarMonth (dayCount secs) * 10 ^ 2 + calendarDay (dayCount secs)

/-- Hours, minutes and seconds as one number. -/
def clockNumber (secs : ℕ) : ℕ :=
  (secs % 86400 / 3600 * 10 ^ 2 + secs % 86400 % 3600 / 60) * 10 ^ 2 + secs % 86400 % 60

theorem dateNumber_lt (secs : ℕ) : dateNumber secs < 10 ^ 4 := by
  have hmonth := (calendar_months (dayCount secs)).2
  have hday := calendarDay_le (dayCount secs)
  unfold dateNumber
  omega

theorem clockNumber_lt (secs : ℕ) : clockNumber secs < 10 ^ 6 := by
  unfold clockNumber
  omega

/-- The text of a time is its year, its date and its clock side by side. -/
theorem toList_timestamp (secs : ℕ) : (timestamp secs).toList =
    padded 4 (calendarYear (dayCount secs)) ++ (fixedWidth 4 (dateNumber secs) ++
      ('-' :: fixedWidth 6 (clockNumber secs))) := by
  have hmonth := (calendar_months (dayCount secs)).2
  have hday := calendarDay_le (dayCount secs)
  have hdate : fixedWidth 2 (calendarMonth (dayCount secs)) ++
      fixedWidth 2 (calendarDay (dayCount secs)) = fixedWidth 4 (dateNumber secs) :=
    fixedWidth_append (by omega)
  have hminutes : fixedWidth 2 (secs % 86400 / 3600) ++ fixedWidth 2 (secs % 86400 % 3600 / 60) =
      fixedWidth 4 (secs % 86400 / 3600 * 10 ^ 2 + secs % 86400 % 3600 / 60) :=
    fixedWidth_append (by omega)
  have hclock : fixedWidth 4 (secs % 86400 / 3600 * 10 ^ 2 + secs % 86400 % 3600 / 60) ++
      fixedWidth 2 (secs % 86400 % 60) = fixedWidth 6 (clockNumber secs) :=
    fixedWidth_append (by omega)
  have hyear : paddedYear (calendarYear (dayCount secs)) =
      padded 4 (calendarYear (dayCount secs)) := by
    rw [paddedYear, if_pos (Int.natCast_nonneg _), Int.toNat_natCast]
  unfold timestamp
  simp only [civilFromDays_natCast]
  have hpair : ∀ {n : ℕ}, n < 10 ^ 2 → padded 2 n = fixedWidth 2 n := padded_eq (by decide)
  rw [← dayCount, hyear, hpair (by omega), hpair (by omega), hpair (by omega), hpair (by omega),
    hpair (by omega), ← hclock, ← hminutes, ← hdate, String.toList_ofList]
  simp only [List.append_assoc]

/-- A later time has a later date, or a later clock on the same one. -/
theorem numbers_lt {s t : ℕ} (h : s < t) :
    calendarYear (dayCount s) < calendarYear (dayCount t) ∨
      calendarYear (dayCount s) = calendarYear (dayCount t) ∧
        (dateNumber s < dateNumber t ∨
          dateNumber s = dateNumber t ∧ clockNumber s < clockNumber t) := by
  have hs := (calendar_months (dayCount s)).2
  have ht := (calendar_months (dayCount t)).2
  have hsday := calendarDay_le (dayCount s)
  have htday := calendarDay_le (dayCount t)
  by_cases hday : dayCount s < dayCount t
  · have hdate := date_lt hday
    unfold dateNumber
    omega
  · have hsame : dayCount s = dayCount t := by
      unfold dayCount at hday ⊢
      omega
    right
    unfold dateNumber clockNumber
    rw [hsame]
    refine ⟨rfl, .inr ⟨rfl, ?_⟩⟩
    unfold dayCount at hsame
    omega

/-- The first second of the year 10000. -/
def endOfYears : ℕ := 253402300800

theorem calendarYear_lt {secs : ℕ} (h : secs < endOfYears) :
    calendarYear (dayCount secs) < 10 ^ 4 := by
  have hbound : daysBefore 9999 + 306 = 3652365 := by decide
  have hyear : calendarYear (dayCount secs) ≤ 9999 := by
    apply calendarYear_le
    unfold dayCount
    unfold endOfYears at h
    omega
  omega

theorem length_timestamp {secs : ℕ} (h : secs < endOfYears) :
    (timestamp secs).toList.length = 15 := by
  rw [toList_timestamp, padded_eq (by decide) (calendarYear_lt h)]
  simp

/-- **Names sort by time** as long as years have four digits. -/
theorem timestamp_lt {s t : ℕ} (h : s < t) (ht : t < endOfYears) : timestamp s < timestamp t := by
  have hyears := calendarYear_lt (h.trans ht)
  have hyeart := calendarYear_lt ht
  rw [String.lt_iff_toList_lt, toList_timestamp, toList_timestamp, padded_eq (by decide) hyears,
    padded_eq (by decide) hyeart, append_lt_append_iff (by simp), append_lt_append_iff (by simp),
    List.cons_lt_cons_iff, fixedWidth_lt_iff hyears hyeart, fixedWidth_inj hyears hyeart,
    fixedWidth_lt_iff (dateNumber_lt s) (dateNumber_lt t),
    fixedWidth_inj (dateNumber_lt s) (dateNumber_lt t),
    fixedWidth_lt_iff (clockNumber_lt s) (clockNumber_lt t)]
  simpa using numbers_lt h

theorem padded_injective (w : ℕ) : Function.Injective (padded w) := by
  have hvalue : ∀ n, Nat.ofDigitChars 10 (padded w n) 0 = n := by
    intro n
    rw [padded, Nat.ofDigitChars_append, Nat.ofDigitChars_replicate_zero, Nat.mul_zero,
      Nat.ofDigitChars_ten_toDigits]
  intro m n h
  rw [← hvalue m, h, hvalue]

/-- **No two seconds have one name**, in any year. -/
theorem timestamp_injective : Function.Injective timestamp := by
  have hne : ∀ s t : ℕ, s < t → timestamp s ≠ timestamp t := by
    intro s t h hsame
    have htext := congrArg String.toList hsame
    rw [toList_timestamp, toList_timestamp] at htext
    obtain ⟨hyear, hrest⟩ := List.append_inj' htext (by simp)
    obtain ⟨hdate, hclock⟩ := List.append_inj hrest (by simp)
    have hyear := padded_injective 4 hyear
    have hdate := (fixedWidth_inj (dateNumber_lt s) (dateNumber_lt t)).mp hdate
    have hclock := (fixedWidth_inj (clockNumber_lt s) (clockNumber_lt t)).mp
      (List.cons.inj hclock).2
    have hless := numbers_lt h
    omega
  intro s t hsame
  rcases lt_trichotomy s t with h | h | h
  · exact absurd hsame (hne s t h)
  · exact h
  · exact absurd hsame.symm (hne t s h)

theorem archivePath_injective (paths : VaultPaths) : Function.Injective (archivePath paths) := by
  intro s t h
  have hname := congrArg (fun p => p.name.toList) h
  simp only [archivePath, String.toList_append, List.append_assoc] at hname
  have hback := List.append_cancel_left hname
  exact timestamp_injective (String.toList_inj.mp (List.append_cancel_right hback))

end Backup

end Sypherstore

import Mathlib.Algebra.BigOperators.Group.Finset.Basic
import Mathlib.Tactic.IntervalCases

/-! The Gregorian calendar, for years before and after the first one. Days are counted from the
first day of the year 1. -/
namespace TorDaemon.Library.Calendar
open Finset

section Segments
variable {n : ℤ}

/-- The last of the places up to `bound` whose beginning is not behind `n`. -/
def segment (f : ℕ → ℤ) (bound : ℕ) (n : ℤ) : ℕ := Nat.findGreatest (fun i => f i ≤ n) bound

/-- `n` lies between the beginning of its place and that of the next one. -/
theorem segment_spec (f : ℕ → ℤ) (bound : ℕ) (hlow : f 0 ≤ n) (hhigh : n < f (bound + 1)) :
    segment f bound n ≤ bound ∧ f (segment f bound n) ≤ n ∧ n < f (segment f bound n + 1) := by
  have hle : segment f bound n ≤ bound := Nat.findGreatest_le bound
  have hspec : f (segment f bound n) ≤ n :=
    Nat.findGreatest_spec (P := fun i => f i ≤ n) (Nat.zero_le bound) hlow
  refine ⟨hle, hspec, ?_⟩
  by_contra hnext
  rcases hle.eq_or_lt with heq | hlt
  · rw [heq] at hnext
    exact hnext hhigh
  · have hgreatest : segment f bound n + 1 ≤ segment f bound n :=
      Nat.le_findGreatest hlt (not_lt.mp hnext)
    omega

end Segments

section Years
variable {y : ℤ} {m : ℕ}

def isLeapYear (y : ℤ) : Prop := y % 4 = 0 ∧ (y % 100 ≠ 0 ∨ y % 400 = 0)

instance (y : ℤ) : Decidable (isLeapYear y) := inferInstanceAs (Decidable (_ ∧ _))

def yearLength (y : ℤ) : ℕ := if isLeapYear y then 366 else 365

/-- The days before a year. -/
def daysBeforeYear (y : ℤ) : ℤ := 365 * (y - 1) + (y - 1) / 4 - (y - 1) / 100 + (y - 1) / 400

theorem daysBeforeYear_succ (y : ℤ) : daysBeforeYear (y + 1) = daysBeforeYear y + yearLength y := by
  unfold daysBeforeYear yearLength
  by_cases h : isLeapYear y
  · rw [if_pos h]
    unfold isLeapYear at h
    omega
  · rw [if_neg h]
    unfold isLeapYear at h
    omega

/-- The calendar repeats itself after 400 years. -/
theorem daysBeforeYear_cycle (q y : ℤ) :
    daysBeforeYear (400 * q + y) = 146097 * q + daysBeforeYear y := by
  unfold daysBeforeYear
  omega

theorem daysBeforeYear_mono {y y' : ℤ} (h : y ≤ y') : daysBeforeYear y ≤ daysBeforeYear y' := by
  unfold daysBeforeYear
  omega

/-- The months are counted from 0. -/
def monthLength (y : ℤ) (m : ℕ) : ℕ :=
  if m = 1 then if isLeapYear y then 29 else 28
  else if m ∈ [3, 5, 8, 10] then 30 else 31

/-- The days of a year before a month. -/
def daysBeforeMonth (y : ℤ) (m : ℕ) : ℕ := ∑ i ∈ range m, monthLength y i

theorem daysBeforeMonth_succ (y : ℤ) (m : ℕ) :
    daysBeforeMonth y (m + 1) = daysBeforeMonth y m + monthLength y m := sum_range_succ _ m

theorem daysBeforeMonth_twelve (y : ℤ) : daysBeforeMonth y 12 = yearLength y := by
  unfold daysBeforeMonth yearLength monthLength
  split_ifs <;> rfl

theorem monthLength_le (y : ℤ) (m : ℕ) : monthLength y m ≤ 31 := by
  unfold monthLength
  split_ifs <;> decide

end Years

section Dates

/-- A day of the calendar. Months and days are counted from 0. -/
structure Date where
  year : ℤ
  month : ℕ
  day : ℕ
  month_lt : month < 12
  day_lt : day < monthLength year month

def Date.toDay (d : Date) : ℤ := daysBeforeYear d.year + daysBeforeMonth d.year d.month + d.day

/-- The year in which a day lies. -/
def yearOfDay (n : ℤ) : ℤ :=
  400 * (n / 146097) + (segment (fun i => daysBeforeYear (i + 1)) 399 (n % 146097) + 1 : ℕ)

theorem yearOfDay_spec (n : ℤ) : daysBeforeYear (yearOfDay n) ≤ n ∧
      n < daysBeforeYear (yearOfDay n) + yearLength (yearOfDay n) := by
  have hlow : daysBeforeYear ((0 : ℕ) + 1) ≤ n % 146097 := Int.emod_nonneg n (by decide)
  have hhigh : n % 146097 < daysBeforeYear ((399 + 1 : ℕ) + 1) := Int.emod_lt_of_pos n (by decide)
  obtain ⟨-, hle, hlt⟩ := segment_spec (fun i => daysBeforeYear (i + 1)) 399 hlow hhigh
  rw [← daysBeforeYear_succ, yearOfDay, add_assoc, daysBeforeYear_cycle, daysBeforeYear_cycle]
  push_cast at hle hlt ⊢
  omega

/-- The month in which a day of a year lies. -/
def monthOfDay (y : ℤ) (r : ℤ) : ℕ := segment (fun m => daysBeforeMonth y m) 11 r

theorem monthOfDay_spec {y r : ℤ} (hlow : 0 ≤ r) (hhigh : r < yearLength y) :
    monthOfDay y r < 12 ∧ daysBeforeMonth y (monthOfDay y r) ≤ r ∧
      r < daysBeforeMonth y (monthOfDay y r) + monthLength y (monthOfDay y r) := by
  rw [← daysBeforeMonth_twelve] at hhigh
  obtain ⟨hle, hbefore, hbehind⟩ := segment_spec (fun m => daysBeforeMonth y m) 11 hlow hhigh
  refine ⟨Nat.lt_succ_of_le hle, hbefore, ?_⟩
  have hsucc := daysBeforeMonth_succ y (monthOfDay y r)
  unfold monthOfDay at hsucc ⊢
  omega

/-- The place of a day in its year. -/
def dayOfYear (n : ℤ) : ℤ := n - daysBeforeYear (yearOfDay n)

theorem monthOfDay_dayOfYear (n : ℤ) : monthOfDay (yearOfDay n) (dayOfYear n) < 12 ∧
    daysBeforeMonth (yearOfDay n) (monthOfDay (yearOfDay n) (dayOfYear n)) ≤ dayOfYear n ∧
    dayOfYear n < daysBeforeMonth (yearOfDay n) (monthOfDay (yearOfDay n) (dayOfYear n)) +
      monthLength (yearOfDay n) (monthOfDay (yearOfDay n) (dayOfYear n)) := by
  obtain ⟨hle, hlt⟩ := yearOfDay_spec n
  apply monthOfDay_spec
  · unfold dayOfYear
    omega
  · unfold dayOfYear
    omega

def Date.ofDay (n : ℤ) : Date where
  year := yearOfDay n
  month := monthOfDay (yearOfDay n) (dayOfYear n)
  day := (dayOfYear n -
    daysBeforeMonth (yearOfDay n) (monthOfDay (yearOfDay n) (dayOfYear n))).toNat
  month_lt := (monthOfDay_dayOfYear n).1
  day_lt := by
    have hmonth := monthOfDay_dayOfYear n
    omega

theorem Date.toDay_ofDay (n : ℤ) : (Date.ofDay n).toDay = n := by
  have hmonth := (monthOfDay_dayOfYear n).2.1
  simp only [Date.toDay, Date.ofDay]
  rw [Int.toNat_of_nonneg (by omega)]
  unfold dayOfYear
  omega

theorem Date.year_lt_iff (n y : ℤ) : (Date.ofDay n).year < y ↔ n < daysBeforeYear y := by
  obtain ⟨hle, hlt⟩ := yearOfDay_spec n
  rw [← daysBeforeYear_succ] at hlt
  change yearOfDay n < y ↔ _
  constructor
  · exact fun h => hlt.trans_le (daysBeforeYear_mono h)
  · intro h
    by_contra hge
    exact absurd (daysBeforeYear_mono (not_lt.mp hge)) (by omega)

example : ((Date.ofDay 730178).year, (Date.ofDay 730178).month, (Date.ofDay 730178).day) =
    (2000, 1, 28) := by decide +kernel

end Dates

end TorDaemon.Library.Calendar

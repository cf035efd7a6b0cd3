import TorDaemon.Encoding.IsoTime

/-! The seconds of a date (`tor_timegm_impl` of `time_fmt.c`), with a `time_t` of 64 bits. -/
namespace TorDaemon.Encoding.Timegm
open Library.Calendar IsoTime

section Impl

structure Tm where
  tmYear : ℤ
  tmMon : ℤ
  tmMday : ℤ
  tmHour : ℤ
  tmMin : ℤ
  tmSec : ℤ
  deriving DecidableEq

def isLeapyear (y : ℤ) : Bool := y.tmod 4 = 0 && (y.tmod 100 ≠ 0 || y.tmod 400 = 0)

def nLeapdays (year1 year2 : ℤ) : ℤ :=
  ((year2 - 1).tdiv 4 - (year1 - 1).tdiv 4) - ((year2 - 1).tdiv 100 - (year1 - 1).tdiv 100) +
    ((year2 - 1).tdiv 400 - (year1 - 1).tdiv 400)

def daysPerMonth : List ℤ := [31, 28, 31, 30, 31, 30, 31, 31, 30, 31, 30, 31]

/-- The year of a `struct tm`, clamped. -/
def clampYear (tm : Tm) : ℤ :=
  if tm.tmYear < intMax - 1900 then tm.tmYear + 1900 else intMax

def invalidYear (tm : Tm) : Bool := clampYear tm < 1970 || intMax - 1900 ≤ tm.tmYear

/-- The days that the month is taken to have. -/
def dpm (tm : Tm) : ℤ :=
  if 0 ≤ tm.tmMon ∧ tm.tmMon ≤ 11 then
    if tm.tmMon = 1 ∧ !invalidYear tm ∧ isLeapyear tm.tmYear then 29
    else daysPerMonth.getD tm.tmMon.toNat 0
  else 0

/-- `tor_timegm_impl`. A failure is `none`. -/
def torTimegmImpl (tm : Tm) : Option ℤ :=
  let year := clampYear tm
  if invalidYear tm ∨ tm.tmMon < 0 ∨ 11 < tm.tmMon ∨ tm.tmMday < 1 ∨ dpm tm < tm.tmMday ∨
      tm.tmHour < 0 ∨ 23 < tm.tmHour ∨ tm.tmMin < 0 ∨ 59 < tm.tmMin ∨
      tm.tmSec < 0 ∨ 60 < tm.tmSec then none
  else
    let days := 365 * (year - 1970) + nLeapdays 1970 year
    let days := (List.range tm.tmMon.toNat).foldl (fun days i => days + daysPerMonth.getD i 0) days
    let days := if 1 < tm.tmMon ∧ isLeapyear year then days + 1 else days
    let days := days + (tm.tmMday - 1)
    let hours := days * 24 + tm.tmHour
    let minutes := hours * 60 + tm.tmMin
    some (minutes * 60 + tm.tmSec)

end Impl

section Dates
variable {tm tm' : Tm} {y : ℤ} {m : ℕ}

def Tm.year (tm : Tm) : ℤ := tm.tmYear + 1900

/-- The day and the month are in the calendar. -/
structure Tm.DateExists (tm : Tm) : Prop where
  mon : 0 ≤ tm.tmMon ∧ tm.tmMon ≤ 11
  mday : 1 ≤ tm.tmMday ∧ tm.tmMday ≤ monthLength tm.year tm.tmMon.toNat

/-- The time of the day, with seconds up to the given one: a minute with a leap second has a
second 60. -/
structure Tm.TimeExists (tm : Tm) (lastSec : ℤ) : Prop where
  hour : 0 ≤ tm.tmHour ∧ tm.tmHour ≤ 23
  min : 0 ≤ tm.tmMin ∧ tm.tmMin ≤ 59
  sec : 0 ≤ tm.tmSec ∧ tm.tmSec ≤ lastSec

/-- A date and a time in the years for which there is a result. -/
structure Tm.Valid (tm : Tm) : Prop where
  year : 1970 ≤ tm.year ∧ tm.year < intMax
  date : tm.DateExists
  time : tm.TimeExists 59

/-- The days since 1970. -/
def Tm.days (tm : Tm) : ℤ :=
  daysBeforeYear tm.year + daysBeforeMonth tm.year tm.tmMon.toNat + (tm.tmMday - 1) - epochDay

/-- The seconds since 1970. -/
def Tm.seconds (tm : Tm) : ℤ :=
  ((tm.days * 24 + tm.tmHour) * 60 + tm.tmMin) * 60 + tm.tmSec

/-- What the calendar orders dates and times by. -/
def Tm.calendar (tm : Tm) : List ℤ :=
  [tm.year, tm.tmMon, tm.tmMday, tm.tmHour, tm.tmMin, tm.tmSec]

theorem daysBeforeMonth_mono {m m' : ℕ} (h : m ≤ m') :
    daysBeforeMonth y m ≤ daysBeforeMonth y m' := by
  induction h with
  | refl => rfl
  | step h ih => exact ih.trans (daysBeforeMonth_succ y _ ▸ Nat.le_add_right _ _)

section
variable (h : tm.DateExists)
include h

theorem Tm.DateExists.day_lt : daysBeforeMonth tm.year tm.tmMon.toNat + (tm.tmMday - 1) <
      daysBeforeMonth tm.year (tm.tmMon.toNat + 1) := by
  have hlength := h.mday.2
  rw [daysBeforeMonth_succ]
  omega

theorem Tm.DateExists.day_lt_year :
    daysBeforeYear tm.year + daysBeforeMonth tm.year tm.tmMon.toNat + (tm.tmMday - 1) <
      daysBeforeYear (tm.year + 1) := by
  have hday := h.day_lt
  have hmon := h.mon
  have hmono : daysBeforeMonth tm.year (tm.tmMon.toNat + 1) ≤ daysBeforeMonth tm.year 12 :=
    daysBeforeMonth_mono (by omega)
  rw [daysBeforeMonth_twelve] at hmono
  rw [daysBeforeYear_succ]
  omega

theorem days_lt (h' : tm'.DateExists)
    (hlt : [tm.year, tm.tmMon, tm.tmMday] < [tm'.year, tm'.tmMon, tm'.tmMday]) :
    tm.days < tm'.days := by
  have hmon := h.mon
  have hmday' := h'.mday
  unfold Tm.days
  simp only [List.cons_lt_cons_iff, List.not_lt_nil, and_false, or_false] at hlt
  rcases hlt with hyear | ⟨hyear, hlt | ⟨hmonth, hlt⟩⟩
  · have hbefore := h.day_lt_year
    have hmono := daysBeforeYear_mono (show tm.year + 1 ≤ tm'.year from hyear)
    omega
  · have hday := h.day_lt
    rw [← hyear]
    have hmono : daysBeforeMonth tm.year (tm.tmMon.toNat + 1) ≤
        daysBeforeMonth tm.year tm'.tmMon.toNat := daysBeforeMonth_mono (by omega)
    omega
  · rw [← hyear, ← hmonth]
    omega

theorem seconds_lt (h' : tm'.DateExists) (ht : tm.TimeExists 59)
    (ht' : tm'.TimeExists 59) (hlt : tm.calendar < tm'.calendar) : tm.seconds < tm'.seconds := by
  have hday : [tm.year, tm.tmMon, tm.tmMday] < [tm'.year, tm'.tmMon, tm'.tmMday] →
    tm.days < tm'.days := days_lt h h'
  have hhour := ht.hour
  have hhour' := ht'.hour
  have hmin := ht.min
  have hmin' := ht'.min
  have hsec := ht.sec
  have hsec' := ht'.sec
  have hdays : tm.days < tm'.days ∨ tm.days = tm'.days ∧
      [tm.tmHour, tm.tmMin, tm.tmSec] < [tm'.tmHour, tm'.tmMin, tm'.tmSec] := by
    simp only [Tm.calendar, List.cons_lt_cons_iff, List.not_lt_nil, and_false, or_false] at hlt hday ⊢
    rcases hlt with hyear | ⟨hyear, hmon | ⟨hmon, hmday | ⟨hmday, htime⟩⟩⟩
    · exact .inl (hday (.inl hyear))
    · exact .inl (hday (.inr ⟨hyear, .inl hmon⟩))
    · exact .inl (hday (.inr ⟨hyear, .inr ⟨hmon, hmday⟩⟩))
    · refine .inr ⟨?_, htime⟩
      rw [Tm.days, Tm.days, hyear, hmon, hmday]
  simp only [List.cons_lt_cons_iff, List.not_lt_nil, and_false, or_false] at hdays
  unfold Tm.seconds
  omega

end

end Dates

section Right
variable {tm tm' : Tm} {y : ℤ} {m : ℕ}

theorem isLeapyear_iff (h : 0 ≤ y) : isLeapyear y = true ↔ isLeapYear y := by
  unfold isLeapyear isLeapYear
  rw [Int.tmod_eq_emod_of_nonneg h, Int.tmod_eq_emod_of_nonneg h, Int.tmod_eq_emod_of_nonneg h]
  simp

theorem isLeapyear_offset (h : 0 ≤ y) : isLeapyear y = true ↔
    isLeapYear (y + 1900) ∧ (y + 1900) % 400 ≠ 0 ∨ (y + 1900) % 400 = 300 := by
  rw [isLeapyear_iff h]
  unfold isLeapYear
  omega

theorem nLeapdays_eq (h : 1970 ≤ y) :
    365 * (y - 1970) + nLeapdays 1970 y = daysBeforeYear y - epochDay := by
  have hepoch : epochDay = 719162 := by decide
  have hnonneg : 0 ≤ y - 1 := by omega
  have hfour : (1970 - 1 : ℤ).tdiv 4 = 492 := rfl
  have hcentury : (1970 - 1 : ℤ).tdiv 100 = 19 := rfl
  have hcycle : (1970 - 1 : ℤ).tdiv 400 = 4 := rfl
  unfold nLeapdays daysBeforeYear
  rw [hepoch, hfour, hcentury, hcycle, Int.tdiv_eq_ediv_of_nonneg hnonneg, Int.tdiv_eq_ediv_of_nonneg hnonneg,
    Int.tdiv_eq_ediv_of_nonneg hnonneg]
  omega

theorem foldl_daysPerMonth (days y : ℤ) (hm : m ≤ 11) :
    (List.range m).foldl (fun days i => days + daysPerMonth.getD i 0) days +
      (if 1 < m ∧ isLeapYear y then 1 else 0) = days + daysBeforeMonth y m := by
  induction m with
  | zero => simp [daysBeforeMonth]
  | succ m ih =>
    have hmonth : ∀ m < 11, daysPerMonth.getD m 0 + (if m = 1 ∧ isLeapYear y then 1 else 0) =
        monthLength y m := by
      intro m hm
      unfold monthLength
      interval_cases m <;> by_cases hleap : isLeapYear y <;> simp [hleap, daysPerMonth]
    have hstep := hmonth m (by omega)
    have hrest := ih (by omega)
    rw [List.range_succ, List.foldl_append, daysBeforeMonth_succ]
    simp only [List.foldl_cons, List.foldl_nil]
    by_cases hleap : isLeapYear y
    · simp only [hleap, and_true] at hstep hrest ⊢
      split_ifs at hstep hrest ⊢ <;> omega
    · simp only [hleap, and_false, if_false] at hstep hrest ⊢
      omega

theorem clampYear_eq (h : 1970 ≤ tm.year ∧ tm.year < intMax) :
    clampYear tm = tm.year ∧ invalidYear tm = false := by
  unfold Tm.year at h
  have hyear : clampYear tm = tm.tmYear + 1900 := if_pos (by omega)
  refine ⟨hyear, ?_⟩
  rw [invalidYear, hyear, Bool.or_eq_false_iff, decide_eq_false_iff_not, decide_eq_false_iff_not]
  omega

theorem invalidYear_eq (h : ¬(1970 ≤ tm.year ∧ tm.year < intMax)) : invalidYear tm = true := by
  unfold Tm.year at h
  unfold invalidYear clampYear
  rw [Bool.or_eq_true, decide_eq_true_iff, decide_eq_true_iff]
  split <;> omega

/-- The 29th of February in the years that are taken for what they are not: every 400th year, and
the third turn of a century behind it. -/
def Tm.AtCentury (tm : Tm) (r : ℤ) : Prop :=
  tm.tmMon = 1 ∧ tm.tmMday = 29 ∧ tm.year % 400 = r

/-- A month is taken to have its days, but for a February at the turn of a century. -/
theorem mday_le_dpm_iff (h : 1970 ≤ tm.year ∧ tm.year < intMax)
    (hmon : 0 ≤ tm.tmMon ∧ tm.tmMon ≤ 11) :
    tm.tmMday ≤ dpm tm ↔ tm.tmMday ≤ monthLength tm.year tm.tmMon.toNat ∧ ¬tm.AtCentury 0 ∨
      tm.AtCentury 300 := by
  have hnonneg : 0 ≤ tm.tmYear := by
    unfold Tm.year at h
    omega
  have hvalid := (clampYear_eq h).2
  have hoffset := isLeapyear_offset hnonneg
  rw [dpm, if_pos hmon, hvalid, monthLength, Tm.AtCentury, Tm.AtCentury]
  change isLeapyear tm.tmYear = true ↔ isLeapYear tm.year ∧ tm.year % 400 ≠ 0 ∨ tm.year % 400 = 300
    at hoffset
  by_cases hfeb : tm.tmMon = 1
  · have hleap : tm.year % 400 = 0 → isLeapYear tm.year := by
      unfold isLeapYear
      omega
    have hcommon : tm.year % 400 = 300 → ¬isLeapYear tm.year := by
      unfold isLeapYear
      omega
    have hdays : daysPerMonth.getD (1 : ℤ).toNat 0 = 28 := rfl
    simp only [hfeb, hdays, Bool.not_false, true_and, hoffset]
    by_cases hzero : tm.year % 400 = 0
    · simp [hleap hzero, hzero]
      omega
    · by_cases hthree : tm.year % 400 = 300
      · simp [hcommon hthree, hthree]
        omega
      · simp only [hzero, hthree, or_false, and_true, ne_eq, not_false_eq_true, and_false]
        by_cases hyear : isLeapYear tm.year <;> simp [hyear]
  · have hmonth : ∀ m : ℕ, m ≤ 11 → m ≠ 1 → ∀ y, daysPerMonth.getD m 0 = monthLength y m := by
      intro m hm hne y
      unfold monthLength
      interval_cases m <;> simp_all [daysPerMonth]
    have hlength := hmonth tm.tmMon.toNat (by omega) (by omega) tm.year
    rw [if_neg (by tauto), hlength, monthLength]
    tauto

/-- The tests of the function, with the calendar's year in place of the clamped one. -/
structure Tm.Accepted (tm : Tm) : Prop where
  year : 1970 ≤ tm.year ∧ tm.year < intMax
  mon : 0 ≤ tm.tmMon ∧ tm.tmMon ≤ 11
  mday : 1 ≤ tm.tmMday ∧ tm.tmMday ≤ dpm tm
  time : tm.TimeExists 60

theorem torTimegmImpl_accepted (h : tm.Accepted) : torTimegmImpl tm = some tm.seconds := by
  obtain ⟨hyear, hmon, hmday, hhour, hmin, hsec⟩ := h
  obtain ⟨hclamp, hvalid⟩ := clampYear_eq hyear
  have hfold := foldl_daysPerMonth (365 * (tm.year - 1970) + nLeapdays 1970 tm.year) tm.year
    (show tm.tmMon.toNat ≤ 11 by omega)
  have hleap : (1 < tm.tmMon ∧ isLeapyear tm.year = true) ↔
      1 < tm.tmMon.toNat ∧ isLeapYear tm.year := by
    rw [isLeapyear_iff (by omega)]
    exact and_congr_left' (by omega)
  rw [nLeapdays_eq hyear.1] at hfold
  rw [torTimegmImpl, if_neg (by rw [hvalid]; simp; omega), hclamp, nLeapdays_eq hyear.1]
  simp only [hleap, Option.some.injEq]
  unfold Tm.seconds Tm.days
  split at hfold <;> rename_i hmonth
  · rw [if_pos hmonth]
    omega
  · rw [if_neg hmonth]
    omega

theorem torTimegmImpl_refused (h : ¬tm.Accepted) : torTimegmImpl tm = none := by
  refine if_pos ?_
  by_contra hno
  simp only [not_or, not_lt] at hno
  obtain ⟨hvalid, hmon0, hmon11, hmday1, hdpm, hhour0, hhour, hmin0, hmin, hsec0, hsec⟩ := hno
  refine h ⟨?_, ⟨hmon0, hmon11⟩, ⟨hmday1, hdpm⟩, ⟨hhour0, hhour⟩, ⟨hmin0, hmin⟩, hsec0, hsec⟩
  by_contra hyear
  exact hvalid (invalidYear_eq hyear)

/-- The dates on which the leap year is told wrongly, with a time. -/
def Tm.Misjudged (tm : Tm) : Prop :=
  (1970 ≤ tm.year ∧ tm.year < intMax) ∧
    (tm.AtCentury 0 ∧ tm.TimeExists 59 ∨ tm.AtCentury 300 ∧ tm.TimeExists 60)

/-- A century's 29th of February is in the calendar every 400 years. -/
theorem Tm.AtCentury.dateExists (h : tm.AtCentury 0) : tm.DateExists := by
  obtain ⟨hmon, hmday, hyear⟩ := h
  have hleap : isLeapYear tm.year := by
    unfold isLeapYear
    omega
  refine ⟨by omega, by omega, ?_⟩
  rw [hmon, hmday]
  simp [monthLength, hleap]

theorem Tm.AtCentury.not_dateExists (h : tm.AtCentury 300) : ¬tm.DateExists := by
  obtain ⟨hmon, hmday, hyear⟩ := h
  rintro ⟨-, -, hlength⟩
  have hleap : ¬isLeapYear tm.year := by
    unfold isLeapYear
    omega
  rw [hmon, hmday] at hlength
  simp [monthLength, hleap] at hlength

theorem Tm.TimeExists.weaken (h : tm.TimeExists 59) : tm.TimeExists 60 :=
  ⟨h.hour, h.min, h.sec.1, h.sec.2.trans (by decide)⟩

/-- Whether one date is converted rightly. -/
structure Converted (tm : Tm) : Prop where
  succeeds : tm.Valid → torTimegmImpl tm = some tm.seconds
  fails : ¬(tm.DateExists ∧ tm.TimeExists 60) → torTimegmImpl tm = none

theorem converted_iff : Converted tm ↔ ¬tm.Misjudged := by
  constructor
  · rintro ⟨hsucceeds, hfails⟩ ⟨hyear, ⟨hcentury, htime⟩ | ⟨hcentury, htime⟩⟩
    · have hrefused : ¬tm.Accepted := by
        intro haccepted
        have hdate := (mday_le_dpm_iff hyear haccepted.mon).mp haccepted.mday.2
        have hcentury' := hcentury.2.2
        rcases hdate with ⟨-, hnot⟩ | ⟨-, -, hthree⟩
        · exact hnot hcentury
        · omega
      have hseconds := hsucceeds ⟨hyear, hcentury.dateExists, htime⟩
      rw [torTimegmImpl_refused hrefused] at hseconds
      cases hseconds
    · have hrefused := hfails fun h => hcentury.not_dateExists h.1
      obtain ⟨hmon, hmday, -⟩ := id hcentury
      have hmonth : 0 ≤ tm.tmMon ∧ tm.tmMon ≤ 11 := by omega
      have hdpm : tm.tmMday ≤ dpm tm := (mday_le_dpm_iff hyear hmonth).mpr (.inr hcentury)
      rw [torTimegmImpl_accepted ⟨hyear, hmonth, ⟨by omega, hdpm⟩, htime⟩] at hrefused
      cases hrefused
  · intro hright
    constructor
    · rintro ⟨hyear, hdate, htime⟩
      have hcentury : ¬tm.AtCentury 0 := fun h => hright ⟨hyear, .inl ⟨h, htime⟩⟩
      have hdpm := (mday_le_dpm_iff hyear hdate.mon).mpr (.inl ⟨hdate.mday.2, hcentury⟩)
      exact torTimegmImpl_accepted ⟨hyear, hdate.mon, ⟨hdate.mday.1, hdpm⟩, htime.weaken⟩
    · intro hnot
      refine torTimegmImpl_refused fun haccepted => ?_
      obtain ⟨hyear, hmon, ⟨hone, hdpm⟩, htime⟩ := haccepted
      rcases (mday_le_dpm_iff hyear hmon).mp hdpm with ⟨hlength, -⟩ | hcentury
      · exact hnot ⟨⟨hmon, hone, hlength⟩, htime⟩
      · exact hright ⟨hyear, .inr ⟨hcentury, htime⟩⟩

/-- Two dates are converted rightly, the later one to more seconds. -/
structure TimegmRight (tm tm' : Tm) : Prop where
  first : Converted tm
  second : Converted tm'
  increasing : tm.Valid → tm'.Valid → tm.calendar < tm'.calendar →
    ∃ s s', torTimegmImpl tm = some s ∧ torTimegmImpl tm' = some s' ∧ s < s'

theorem timegmRight_iff (tm tm' : Tm) : TimegmRight tm tm' ↔ ¬tm.Misjudged ∧ ¬tm'.Misjudged := by
  constructor
  · exact fun h => ⟨converted_iff.mp h.first, converted_iff.mp h.second⟩
  · rintro ⟨hright, hright'⟩
    refine ⟨converted_iff.mpr hright, converted_iff.mpr hright', ?_⟩
    intro hvalid hvalid' hlt
    exact ⟨_, _, (converted_iff.mpr hright).succeeds hvalid,
      (converted_iff.mpr hright').succeeds hvalid',
      seconds_lt hvalid.date hvalid'.date hvalid.time hvalid'.time hlt⟩

/-- The 29th of February 2000 is refused. -/
theorem timegmRight_leapDay : ¬∀ tm tm' : Tm, TimegmRight tm tm' := by
  intro h
  have hsucceeds := (h ⟨100, 1, 29, 0, 0, 0⟩ ⟨100, 1, 29, 0, 0, 0⟩).first.succeeds
    ⟨by decide, ⟨by decide, by decide⟩, by decide, by decide, by decide⟩
  exact absurd hsucceeds (by decide)

end Right

end TorDaemon.Encoding.Timegm

import Mathlib.Data.Int.DivMod
import Mathlib.Tactic.Linarith
import Mathlib.Tactic.Ring

/-! The voting schedule of the directory authorities
(`voting_sched_get_start_of_interval_after` in `networkstatus.c`, `voting_schedule.c`). -/
namespace TorDaemon.Dirvote

/-- The first second of the year 1. -/
def yearOne : ℤ := -62135596800

/-- The first second of the year 10000. -/
def yearTenThousand : ℤ := 253402300800

/-- `tor_gmtime_r` as the second that it gives the fields of: `correct_tm` moves a time outside
the years 1 to 9999 to the nearest one in them. -/
def torGmtime (now : ℤ) : ℤ :=
  if now ≥ yearTenThousand then yearTenThousand - 1
  else if now < yearOne then yearOne
  else now

/-- `tor_timegm` of those fields with the time of day set to zero. -/
def midnightToday (now : ℤ) : ℤ := torGmtime now / 86400 * 86400

def votingSchedGetStartOfIntervalAfter (now interval offset : ℤ) : ℤ :=
  let today := midnightToday now
  let midnightTomorrow := today + 24 * 60 * 60
  let next := today + ((now - today).tdiv interval + 1) * interval
  -- intervals never cross midnight
  let next := if next > midnightTomorrow then midnightTomorrow else next
  let next := if next + interval.tdiv 2 > midnightTomorrow then midnightTomorrow else next
  let next := next + offset
  if next - interval > now then next - interval else next

/-- A time that `struct tm` is not corrected for. -/
def InCalendar (now : ℤ) : Prop := yearOne ≤ now ∧ now < yearTenThousand

instance (now : ℤ) : Decidable (InCalendar now) := inferInstanceAs (Decidable (_ ∧ _))

structure VotingSchedule where
  votingStarts : ℤ
  fetchMissingVotes : ℤ
  votingEnds : ℤ
  fetchMissingSignatures : ℤ
  intervalStarts : ℤ
  interval : ℤ
  liveConsensusValidAfter : ℤ

def VotingSchedule.getNextValidAfterTime (sched : VotingSchedule) : ℤ := sched.intervalStarts

def VotingSchedule.getCurValidAfterTime (sched : VotingSchedule) (offset : ℤ) : ℤ :=
  votingSchedGetStartOfIntervalAfter (sched.intervalStarts - sched.interval - 1) sched.interval
    offset

section Starts
variable {now t interval : ℤ}

theorem midnightToday_eq (h : InCalendar now) : midnightToday now = now - now % 86400 := by
  obtain ⟨hlow, hhigh⟩ := h
  rw [midnightToday, torGmtime, if_neg (not_le.mpr hhigh), if_neg (not_lt.mpr hlow)]
  omega

/-- The end of the interval that a second of the day is in, if each interval of the day is
complete. -/
def endOfInterval (second interval : ℤ) : ℤ := (second / interval + 1) * interval

theorem endOfInterval_spec (hpos : 0 < interval) (second : ℤ) :
    endOfInterval second interval - interval ≤ second ∧ second < endOfInterval second interval := by
  have hdiv := Int.mul_ediv_add_emod second interval
  have hlow := Int.emod_nonneg second hpos.ne'
  have hhigh := Int.emod_lt_of_pos second hpos
  have hmul : endOfInterval second interval = interval * (second / interval) + interval := by
    rw [endOfInterval]
    ring
  omega

/-- It is the only multiple of the length within the next interval. -/
theorem endOfInterval_unique {e second : ℤ} (hpos : 0 < interval) (hdvd : interval ∣ e)
    (hlow : e - interval ≤ second) (hhigh : second < e) : endOfInterval second interval = e := by
  obtain ⟨k, rfl⟩ := hdvd
  have hk : second / interval = k - 1 := by
    rw [Int.ediv_eq_iff_of_pos hpos]
    constructor
    · linarith [mul_comm interval k, sub_mul k 1 interval]
    · linarith [mul_comm interval k, sub_mul k 1 interval]
  rw [endOfInterval, hk]
  ring

theorem dvd_endOfInterval (second interval : ℤ) : interval ∣ endOfInterval second interval :=
  Dvd.intro_left _ rfl

/-- The start that the three adjustments lead to. -/
theorem start_eq (h : InCalendar now) (hpos : 1 ≤ interval) :
    votingSchedGetStartOfIntervalAfter now interval 0 = now - now % 86400 +
      if endOfInterval (now % 86400) interval + interval / 2 ≤ 86400 then
        endOfInterval (now % 86400) interval
      else if now % 86400 + interval < 86400 then 86400 - interval
      else 86400 := by
  have hsecond : 0 ≤ now % 86400 := Int.emod_nonneg now (by decide)
  have hspec := endOfInterval_spec (by omega : 0 < interval) (now % 86400)
  have hdiv : now - (now - now % 86400) = now % 86400 := by ring
  unfold votingSchedGetStartOfIntervalAfter
  simp only [midnightToday_eq h, hdiv]
  have hend : (now % 86400 / interval + 1) * interval = endOfInterval (now % 86400) interval := rfl
  rw [Int.tdiv_eq_ediv_of_nonneg hsecond, Int.tdiv_eq_ediv_of_nonneg (by omega : 0 ≤ interval),
    hend]
  split_ifs <;> omega

theorem lt_start (h : InCalendar now) (hpos : 1 ≤ interval) :
    now < votingSchedGetStartOfIntervalAfter now interval 0 := by
  have hspec := endOfInterval_spec (by omega : 0 < interval) (now % 86400)
  rw [start_eq h hpos]
  split_ifs <;> omega

/-- The midnight that ends the day. -/
def nextMidnight (now : ℤ) : ℤ := (now / 86400 + 1) * 86400

section
variable (h : InCalendar now)
include h

section
variable (hpos : 1 ≤ interval)
include hpos

theorem start_le_midnight :
    votingSchedGetStartOfIntervalAfter now interval 0 ≤ nextMidnight now := by
  rw [start_eq h hpos, nextMidnight]
  split_ifs <;> omega

/-- Up to the start the answer stays the same. -/
theorem start_constant (hlow : now ≤ t)
    (hhigh : t < votingSchedGetStartOfIntervalAfter now interval 0) :
    votingSchedGetStartOfIntervalAfter t interval 0 =
      votingSchedGetStartOfIntervalAfter now interval 0 := by
  have hmidnight := start_le_midnight h hpos
  have ht : InCalendar t := by
    unfold InCalendar yearOne yearTenThousand nextMidnight at *
    omega
  have hspec := endOfInterval_spec (by omega : 0 < interval) (now % 86400)
  rw [start_eq h hpos] at hhigh ⊢
  rw [start_eq ht hpos]
  by_cases hcomplete : endOfInterval (now % 86400) interval + interval / 2 ≤ 86400
  · -- both times are in one complete interval
    rw [endOfInterval_unique (by omega) (dvd_endOfInterval (now % 86400) interval)
      (by omega : _ ≤ t % 86400) (by omega), if_pos hcomplete]
    omega
  · -- the end is the same or lies behind
    have hlater : endOfInterval (now % 86400) interval ≤ endOfInterval (t % 86400) interval := by
      have hmono : now % 86400 / interval ≤ t % 86400 / interval :=
        Int.ediv_le_ediv (by omega) (by omega)
      exact mul_le_mul_of_nonneg_right (by omega) (by omega)
    split_ifs at hhigh ⊢ <;> omega

theorem start_midnight :
    votingSchedGetStartOfIntervalAfter (nextMidnight now - 1) interval 0 = nextMidnight now := by
  have hlast : InCalendar (nextMidnight now - 1) := by
    unfold InCalendar yearOne yearTenThousand nextMidnight at *
    omega
  have hsecond : (nextMidnight now - 1) % 86400 = 86399 := by
    unfold nextMidnight
    omega
  have hspec := endOfInterval_spec (by omega : 0 < interval) 86399
  rw [start_eq hlast hpos, hsecond]
  split_ifs <;> omega

end

end

/-! ### The last interval of a day -/

/-- The voting intervals around a time belong to one schedule. -/
structure StartsRight (interval now : ℤ) : Prop where
  later : now < votingSchedGetStartOfIntervalAfter now interval 0
  agreed : ∀ t, now ≤ t → t < votingSchedGetStartOfIntervalAfter now interval 0 →
    votingSchedGetStartOfIntervalAfter t interval 0 =
      votingSchedGetStartOfIntervalAfter now interval 0
  before_midnight : votingSchedGetStartOfIntervalAfter now interval 0 ≤ nextMidnight now
  midnight : votingSchedGetStartOfIntervalAfter (nextMidnight now - 1) interval 0 =
    nextMidnight now
  /-- A last interval shorter than half is merged into the one before it. -/
  merged : 0 < 86400 % interval → 2 * (86400 % interval) < interval →
    nextMidnight now - 86400 % interval - interval ≤ now →
      votingSchedGetStartOfIntervalAfter now interval 0 = nextMidnight now

section
variable (hpos : 1 ≤ interval)
include hpos

theorem interval_le_complete (hday : interval ≤ 86400) : interval ≤ 86400 - 86400 % interval := by
  have hdiv := Int.mul_ediv_add_emod 86400 interval
  have hquot : 1 ≤ 86400 / interval := by
    rw [Int.le_ediv_iff_mul_le (by omega)]
    omega
  have hmul : interval * 1 ≤ interval * (86400 / interval) :=
    mul_le_mul_of_nonneg_left hquot (by omega)
  omega

theorem start_before_midnight (hday : interval ≤ 86400)
    (hrest : 0 < 86400 % interval) (hshort : 2 * (86400 % interval) < interval) :
    votingSchedGetStartOfIntervalAfter (86400 - 86400 % interval - interval) interval 0 <
      86400 := by
  have hle := interval_le_complete hpos hday
  have hdvd : interval ∣ 86400 - 86400 % interval := Int.dvd_self_sub_emod
  have hcalendar : InCalendar (86400 - 86400 % interval - interval) := by
    unfold InCalendar yearOne yearTenThousand
    omega
  have hsecond : (86400 - 86400 % interval - interval) % 86400 =
      86400 - 86400 % interval - interval := Int.emod_eq_of_lt (by omega) (by omega)
  rw [start_eq hcalendar hpos, hsecond, endOfInterval_unique (by omega) hdvd le_rfl (by omega)]
  split_ifs <;> omega

theorem start_le_of_yearTenThousand (hlate : yearTenThousand ≤ now) :
    votingSchedGetStartOfIntervalAfter now interval 0 ≤ now := by
  have hmidnight : midnightToday now = yearTenThousand - 86400 := by
    rw [midnightToday, torGmtime, if_pos hlate]
    decide
  unfold votingSchedGetStartOfIntervalAfter
  simp only [hmidnight]
  split_ifs <;> omega

end

/-- The intervals form one schedule just where no day ends with a short one: the code leaves a
start between such an interval and the one before. Behind the year 9999 no start is later. -/
theorem startsRight_iff (hpos : 1 ≤ interval) (hday : interval ≤ 86400) :
    ((∀ now, InCalendar now → StartsRight interval now) ↔
      86400 % interval = 0 ∨ interval ≤ 2 * (86400 % interval)) ∧
    ∀ now, yearTenThousand ≤ now → votingSchedGetStartOfIntervalAfter now interval 0 ≤ now := by
  refine ⟨⟨fun hall => ?_, fun hcomplete now h => ?_⟩,
    fun now h => start_le_of_yearTenThousand hpos h⟩
  · by_contra hshort
    have hnonneg := Int.emod_nonneg 86400 (by omega : interval ≠ 0)
    have hle := interval_le_complete hpos hday
    have hstart := start_before_midnight hpos hday (by omega) (by omega)
    have hmidnight : nextMidnight (86400 - 86400 % interval - interval) = 86400 := by
      unfold nextMidnight
      omega
    have hcalendar : InCalendar (86400 - 86400 % interval - interval) := by
      unfold InCalendar yearOne yearTenThousand
      omega
    have hmerged := (hall _ hcalendar).merged (by omega) (by omega) (by rw [hmidnight])
    omega
  · refine ⟨lt_start h hpos, fun t => start_constant h hpos, start_le_midnight h hpos,
      start_midnight h hpos, fun hrest hshort => by omega⟩

/-! ### Intervals that divide the day -/

/-- The starts are the multiples of a length that divides the day. -/
theorem start_of_dvd (h : InCalendar now) (hpos : 1 ≤ interval) (hdvd : interval ∣ 86400) :
    votingSchedGetStartOfIntervalAfter now interval 0 = endOfInterval now interval := by
  obtain ⟨n, hn⟩ := hdvd
  obtain ⟨k, hk⟩ := dvd_endOfInterval (now % 86400) interval
  have hspec := endOfInterval_spec (by omega : 0 < interval) (now % 86400)
  have hend : endOfInterval now interval =
      now - now % 86400 + endOfInterval (now % 86400) interval := by
    apply endOfInterval_unique (by omega) _ (by omega) (by omega)
    refine Int.dvd_add ?_ (dvd_endOfInterval (now % 86400) interval)
    exact dvd_trans ⟨n, hn⟩ Int.dvd_self_sub_emod
  have hle : k ≤ n := by
    by_contra hlt
    have hmul : interval * (n + 1) ≤ interval * k := mul_le_mul_of_nonneg_left (by omega) (by omega)
    rw [mul_add, mul_one] at hmul
    omega
  rw [start_eq h hpos, hend]
  rcases hle.eq_or_lt with rfl | hlt
  · split_ifs <;> omega
  · have hmul : interval * (k + 1) ≤ interval * n := mul_le_mul_of_nonneg_left (by omega) (by omega)
    rw [mul_add, mul_one] at hmul
    rw [if_pos (by omega)]

theorem getCurValidAfterTime_of_dvd {sched : VotingSchedule} (hpos : 1 ≤ sched.interval)
    (hday : sched.interval ∣ 86400) (hstart : sched.interval ∣ sched.intervalStarts)
    (h : InCalendar (sched.intervalStarts - sched.interval - 1)) :
    sched.getCurValidAfterTime 0 = sched.intervalStarts - sched.interval := by
  rw [VotingSchedule.getCurValidAfterTime, start_of_dvd h hpos hday]
  exact endOfInterval_unique (by omega) (Int.dvd_sub hstart (dvd_refl _)) (by omega) (by omega)

end Starts

/-- Intervals of 3000 seconds leave 2400 seconds of a day. -/
theorem startsRight_iff_fifty_minutes : (∀ now, InCalendar now → StartsRight 3000 now) ↔
      (86400 : ℤ) % 3000 = 0 ∨ (3000 : ℤ) ≤ 2 * (86400 % 3000) :=
  (startsRight_iff (by decide) (by decide)).1

/-- An interval of 60000 seconds leaves 26400 seconds of the day, less than half. They are not
merged: there is a start at 26400 seconds. -/
theorem start_not_merged :
    votingSchedGetStartOfIntervalAfter 0 60000 0 = 26400 ∧ ¬ StartsRight 60000 0 := by
  refine ⟨by decide, fun h => ?_⟩
  exact absurd (h.merged (by decide) (by decide) (by decide)) (by decide)

end TorDaemon.Dirvote

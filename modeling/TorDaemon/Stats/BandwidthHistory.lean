import Mathlib.Algebra.BigOperators.Intervals
import Mathlib.Algebra.Order.BigOperators.Group.Finset
import Mathlib.Order.Lattice.Nat
import TorDaemon.Library.Rings
import TorDaemon.SharedRandom.DiskRoundTrip

/-! The bandwidth history of a relay (`bwhist.c`): how much was transferred in each of the last
seconds, and in each of the last periods. The counts are of 64 bits, and the times are whole
numbers of seconds. -/
namespace TorDaemon.Stats
open Library.NetworkOrder Library.Rings SharedRandom

def numSecsRollingMeasure : ℕ := 10

def numSecsBwSumInterval : ℕ := 24 * 60 * 60

def numTotals : ℕ := 5

structure BwArray where
  obs : List ℕ
  curObsIdx : ℕ
  curObsTime : ℤ
  totalObs : ℕ
  maxTotal : ℕ
  totalInPeriod : ℕ
  nextPeriod : ℤ
  nextMaxIdx : ℕ
  numMaxesSet : ℕ
  maxima : List ℕ
  totals : List ℕ
  deriving DecidableEq

/-- `bw_array_new`, at a time. -/
def bwArrayNew (start : ℤ) : BwArray where
  obs := List.replicate numSecsRollingMeasure 0
  curObsIdx := 0
  curObsTime := start
  totalObs := 0
  maxTotal := 0
  totalInPeriod := 0
  nextPeriod := start + numSecsBwSumInterval
  nextMaxIdx := 0
  numMaxesSet := 0
  maxima := List.replicate numTotals 0
  totals := List.replicate numTotals 0

section
variable (b : BwArray)

def commitMax : BwArray :=
  { b with
    totals := b.totals.set b.nextMaxIdx b.totalInPeriod
    maxima := b.maxima.set b.nextMaxIdx b.maxTotal
    nextPeriod := b.nextPeriod + numSecsBwSumInterval
    nextMaxIdx := if b.nextMaxIdx + 1 = numTotals then 0 else b.nextMaxIdx + 1
    numMaxesSet := if b.numMaxesSet < numTotals then b.numMaxesSet + 1 else b.numMaxesSet
    maxTotal := 0
    totalInPeriod := 0 }

/-- The place of the second after the current one. -/
def BwArray.nextIdx : ℕ :=
  if b.curObsIdx + 1 = numSecsRollingMeasure then 0 else b.curObsIdx + 1

/-- `total` in `advance_obs`. -/
def BwArray.total : ℕ := (b.totalObs + b.obs.getD b.curObsIdx 0) % 2 ^ 64

def advanceObs : BwArray :=
  let b' :=
    { b with
      maxTotal := if b.maxTotal < b.total then b.total else b.maxTotal
      totalObs := (b.total + 2 ^ 64 - b.obs.getD b.nextIdx 0) % 2 ^ 64
      obs := b.obs.set b.nextIdx 0
      curObsIdx := b.nextIdx
      curObsTime := b.curObsTime + 1 }
  if b'.nextPeriod ≤ b'.curObsTime then commitMax b' else b'

/-- `add_obs`: the loop advances by one second after the other. -/
def addObs (time : ℤ) (n : ℕ) : BwArray :=
  if time < b.curObsTime then b
  else
    let b := advanceObs^[(time - b.curObsTime).toNat] b
    { b with
      obs := b.obs.set b.curObsIdx ((b.obs.getD b.curObsIdx 0 + n) % 2 ^ 64)
      totalInPeriod := (b.totalInPeriod + n) % 2 ^ 64 }

end

/-! ### What is written -/

/-- `& ~0x3ff` -/
def roundDown (v : ℕ) : ℕ := v / 1024 * 1024

/-- The oldest of the periods. -/
def BwArray.firstIdx (b : BwArray) : ℕ :=
  if b.numMaxesSet ≤ b.nextMaxIdx then 0 else b.nextMaxIdx

/-- `tor_snprintf`, into so much room. -/
def torSnprintf (room : ℕ) (text : Bytes) : Bytes := text.take (room - 1)

/-- The loop that writes the values, with a comma behind each but the last. -/
def fillValues (len : ℕ) : Bytes → List ℕ → Bytes
  | written, [] => written
  | written, [total] => written ++ torSnprintf (len - written.length) (decimalString total)
  | written, total :: totals =>
    fillValues len
      (written ++ torSnprintf (len - written.length) (decimalString total ++ ascii ",")) totals

/-- The most that a period may be reported with. -/
def cutoff (relayBandwidthRate : ℕ) : ℕ :=
  if relayBandwidthRate ≠ 0 then relayBandwidthRate * numSecsBwSumInterval % 2 ^ 64
  else 2 ^ 64 - 1

/-- `bwhist_fill_bandwidth_history`: what it leaves in the buffer of a length. -/
def bwhistFillBandwidthHistory (relayBandwidthRate len : ℕ) (b : BwArray) : Bytes :=
  fillValues len [] ((around b.totals 0 b.firstIdx b.numMaxesSet).map fun total =>
    if cutoff relayBandwidthRate < roundDown total then cutoff relayBandwidthRate
    else roundDown total)

/-- The entries of `or_state_t` that an array is kept in; a list may be missing, and the interval
is an int that is not negative. -/
structure Section where
  values : Option (List Bytes)
  maxima : Option (List Bytes)
  ends : ℤ
  interval : ℕ
  interval_lt : interval < 2 ^ 31
  deriving DecidableEq

theorem clientInterval_lt : 900 < 2 ^ 31 := by decide

def bwhistUpdateBwhistStateSection (serverMode : Bool) (b : BwArray) : Section :=
  if serverMode then
    { values := some
        ((around b.totals 0 b.firstIdx b.numMaxesSet ++ [b.totalInPeriod]).map fun total =>
          decimalString (roundDown total))
      maxima := some
        ((around b.maxima 0 b.firstIdx b.numMaxesSet ++ [b.maxTotal]).map fun maximum =>
          decimalString (roundDown (maximum / numSecsRollingMeasure)))
      ends := b.nextPeriod
      interval := numSecsBwSumInterval
      interval_lt := by decide }
  else ⟨some [], some [], 0, 900, clientInterval_lt⟩

def maxHistValueLen : ℕ := 21 * numTotals

section Fill
variable {len : ℕ} {written : Bytes} {totals : List ℕ}

theorem decimalString_length {n : ℕ} (hn : n < 2 ^ 64) : (decimalString n).length ≤ 20 := by
  rw [decimalString, List.length_map, Nat.length_toDigits_le_iff (by decide) (by decide)]
  omega

/-- No value is cut off where there is room for the longest. -/
theorem fillValues_eq (h : ∀ total ∈ totals, total < 2 ^ 64)
    (hlen : written.length + 21 * totals.length ≤ len) : fillValues len written totals =
      written ++ (ascii ",").intercalate (totals.map decimalString) := by
  induction totals generalizing written with
  | nil => simp [fillValues]
  | cons total totals ih =>
    obtain ⟨htotal, hrest⟩ := List.forall_mem_cons.mp h
    have hshort := decimalString_length htotal
    rw [List.length_cons] at hlen
    cases totals with
    | nil =>
      rw [fillValues, torSnprintf, List.take_of_length_le (by omega)]
      simp
    | cons total' totals =>
      have hcomma : (decimalString total ++ ascii ",").length = (decimalString total).length + 1 :=
        List.length_append
      rw [List.length_cons] at hlen
      rw [fillValues, torSnprintf, List.take_of_length_le (by omega), ih hrest]
      · simp [List.intercalate]
      · rw [List.length_append, List.length_cons]
        omega
      · exact List.cons_ne_nil _ _

end Fill

/-! ### What is recorded

The history stands for the bytes that were recorded in each second since it was begun. -/

/-- The bytes of each second since the start, up to the current one. -/
structure Recorded where
  bytes : ℕ → ℕ
  second : ℕ
  later : ∀ s, second < s → bytes s = 0

namespace Recorded

def nothing : Recorded := ⟨fun _ => 0, 0, fun _ _ => rfl⟩

/-- Some seconds go by. -/
def advance (r : Recorded) (k : ℕ) : Recorded :=
  ⟨r.bytes, r.second + k, fun s hs => r.later s (by omega)⟩

/-- Bytes are recorded in the current second. -/
def record (r : Recorded) (n : ℕ) : Recorded :=
  ⟨Function.update r.bytes r.second (r.bytes r.second + n), r.second, fun s hs => by
    rw [Function.update_of_ne hs.ne', r.later s hs]⟩

/-- What is recorded of a call: nothing, if its time has passed. -/
def observe (start : ℤ) (r : Recorded) (call : ℤ × ℕ) : Recorded :=
  if call.1 < start + r.second then r
  else (r.advance (call.1 - (start + r.second)).toNat).record call.2

/-- The bytes that were recorded in all. -/
def sum (r : Recorded) : ℕ := ∑ s ∈ Finset.range (r.second + 1), r.bytes s

end Recorded

/-- What is recorded of some calls. -/
def recorded (start : ℤ) (calls : List (ℤ × ℕ)) : Recorded :=
  calls.foldl (Recorded.observe start) .nothing

/-- The bytes in the seconds of a measure that ends with a second. -/
def windowBytes (bytes : ℕ → ℕ) (s : ℕ) : ℕ :=
  ∑ j ∈ Finset.Ico (s + 1 - numSecsRollingMeasure) (s + 1), bytes j

/-- The first second of a period. -/
def periodStart (k : ℕ) : ℕ := numSecsBwSumInterval * k

def periodTotal (bytes : ℕ → ℕ) (k : ℕ) : ℕ :=
  ∑ s ∈ Finset.Ico (periodStart k) (periodStart (k + 1)), bytes s

/-- The most bytes in the seconds of a measure that ends in a period. -/
def periodMax (bytes : ℕ → ℕ) (k : ℕ) : ℕ :=
  (Finset.Ico (periodStart k) (periodStart (k + 1))).sup (windowBytes bytes)

namespace Recorded

/-- How many periods are over. -/
def periods (r : Recorded) : ℕ := r.second / numSecsBwSumInterval

/-- The bytes in the current period so far. -/
def currentTotal (r : Recorded) : ℕ :=
  ∑ s ∈ Finset.Ico (periodStart r.periods) (r.second + 1), r.bytes s

/-- The most bytes in a measure that ends in the current period, with complete seconds. -/
def currentMax (r : Recorded) : ℕ :=
  (Finset.Ico (periodStart r.periods) r.second).sup (windowBytes r.bytes)

/-- The last of the periods that are over, from oldest to newest. -/
def lastPeriods (r : Recorded) (value : ℕ → ℕ) : List ℕ :=
  ((List.range r.periods).map value).drop (r.periods - numTotals)

end Recorded

/-- The bytes of the seconds, with as many seconds before the start as a measure has. -/
def padded (bytes : ℕ → ℕ) (k : ℕ) : ℕ :=
  if k < numSecsRollingMeasure then 0 else bytes (k - numSecsRollingMeasure)

/-- An array that has recorded what is meant. -/
structure Matches (start : ℤ) (r : Recorded) (b : BwArray) : Prop where
  time : b.curObsTime = start + r.second
  obs_length : b.obs.length = numSecsRollingMeasure
  obs : Holds b.obs (padded r.bytes) (r.second + numSecsRollingMeasure + 1)
  idx : b.curObsIdx = r.second % numSecsRollingMeasure
  totalObs : b.totalObs + r.bytes r.second = windowBytes r.bytes r.second
  maxTotal : b.maxTotal = r.currentMax
  totalInPeriod : b.totalInPeriod = r.currentTotal
  nextPeriod : b.nextPeriod = start + periodStart (r.periods + 1)
  totals_length : b.totals.length = numTotals
  totals : Holds b.totals (periodTotal r.bytes) r.periods
  maxima_length : b.maxima.length = numTotals
  maxima : Holds b.maxima (periodMax r.bytes) r.periods
  nextIdx : b.nextMaxIdx = r.periods % numTotals
  set : b.numMaxesSet = min r.periods numTotals

section Windows
variable {bytes bytes' : ℕ → ℕ} {s : ℕ}

theorem windowBytes_congr (h : ∀ j ≤ s, bytes j = bytes' j) :
    windowBytes bytes s = windowBytes bytes' s := by
  refine Finset.sum_congr rfl fun j hj => h j ?_
  have := (Finset.mem_Ico.mp hj).2
  omega

/-- From one second to the next the window loses its oldest second. -/
theorem windowBytes_succ (bytes : ℕ → ℕ) (s : ℕ) :
    windowBytes bytes (s + 1) + padded bytes (s + 1) = windowBytes bytes s + bytes (s + 1) := by
  unfold windowBytes padded numSecsRollingMeasure
  rw [Finset.sum_Ico_succ_top (by omega)]
  split
  · rw [show s + 1 + 1 - 10 = 0 by omega, show s + 1 - 10 = 0 by omega, Nat.add_zero]
  · rename_i hfull
    have hbot : ∑ j ∈ Finset.Ico (s + 1 - 10) (s + 1), bytes j =
        bytes (s + 1 - 10) + ∑ j ∈ Finset.Ico (s + 1 + 1 - 10) (s + 1), bytes j := by
      rw [Finset.sum_eq_sum_Ico_succ_bot (by omega), show s + 1 - 10 + 1 = s + 1 + 1 - 10 by omega]
    omega

section
variable (r : Recorded)

theorem windowBytes_le : windowBytes r.bytes r.second ≤ r.sum := by
  refine Finset.sum_le_sum_of_subset fun j hj => ?_
  exact Finset.mem_range.mpr (Finset.mem_Ico.mp hj).2

theorem currentTotal_le : r.currentTotal ≤ r.sum := by
  refine Finset.sum_le_sum_of_subset fun j hj => ?_
  exact Finset.mem_range.mpr (Finset.mem_Ico.mp hj).2

theorem periodStart_le : periodStart r.periods ≤ r.second :=
  Nat.mul_div_le ..

theorem lt_periodStart : r.second < periodStart (r.periods + 1) :=
  Nat.lt_mul_div_succ _ (by decide)

end

end Windows

section Step
variable {start : ℤ} {r : Recorded} {b : BwArray}

theorem measure_pos : 0 < numSecsRollingMeasure := by decide

section
variable (h : Matches start r b)
include h

theorem Matches.obs_cur : b.obs.getD b.curObsIdx 0 = r.bytes r.second := by
  have hpos := measure_pos
  have hget := h.obs (r.second + numSecsRollingMeasure) (by omega) (by rw [h.obs_length]; omega)
  rw [h.obs_length, Nat.add_mod_right, ← h.idx] at hget
  rw [List.getD_eq_getElem?_getD, hget, padded, if_neg (by omega), Nat.add_sub_cancel]
  rfl

theorem Matches.nextIdx_eq : b.nextIdx = (r.second + 1) % numSecsRollingMeasure := by
  have hidx := h.idx
  unfold BwArray.nextIdx numSecsRollingMeasure at *
  split <;> omega

theorem Matches.obs_next : b.obs.getD b.nextIdx 0 = padded r.bytes (r.second + 1) := by
  have hpos := measure_pos
  have hget := h.obs (r.second + 1) (by omega) (by rw [h.obs_length]; omega)
  rw [h.obs_length, ← h.nextIdx_eq] at hget
  rw [List.getD_eq_getElem?_getD, hget]
  rfl

theorem Matches.total_eq (hsum : r.sum < 2 ^ 64) : b.total = windowBytes r.bytes r.second := by
  have hle := windowBytes_le r
  rw [BwArray.total, h.obs_cur, h.totalObs, Nat.mod_eq_of_lt (by omega)]

end

section
variable (r : Recorded)

/-- What has been recorded in the second that leaves the measure is within the total. -/
theorem padded_le : padded r.bytes (r.second + 1) ≤ windowBytes r.bytes r.second := by
  have hwindow := windowBytes_succ r.bytes r.second
  have hlater := r.later (r.second + 1) (Nat.lt_succ_self _)
  omega

theorem sup_windowBytes :
    (Finset.Ico (periodStart r.periods) (r.second + 1)).sup (windowBytes r.bytes) =
      max r.currentMax (windowBytes r.bytes r.second) := by
  have hle := periodStart_le r
  have hinsert : Finset.Ico (periodStart r.periods) (r.second + 1) =
      insert r.second (Finset.Ico (periodStart r.periods) r.second) := by
    ext j
    simp only [Finset.mem_Ico, Finset.mem_insert]
    omega
  rw [hinsert, Finset.sup_insert]
  exact max_comm ..

theorem periods_advance (h : ¬ periodStart (r.periods + 1) ≤ r.second + 1) :
    (r.advance 1).periods = r.periods := by
  have hstart := periodStart_le r
  exact Nat.div_eq_of_lt_le (by rw [Nat.mul_comm]; exact hstart.trans (Nat.le_succ _))
    (by rw [Nat.mul_comm]; exact not_le.mp h)

theorem currentTotal_advance (hperiod : (r.advance 1).periods = r.periods) :
    (r.advance 1).currentTotal = r.currentTotal := by
  have hle := periodStart_le r
  have hlater := r.later (r.second + 1) (Nat.lt_succ_self _)
  rw [Recorded.currentTotal, hperiod]
  change ∑ s ∈ Finset.Ico (periodStart r.periods) (r.second + 1 + 1), r.bytes s = _
  rw [Finset.sum_Ico_succ_top (by omega), hlater, Nat.add_zero]
  rfl

theorem currentMax_advance (hperiod : (r.advance 1).periods = r.periods) :
    (r.advance 1).currentMax = max r.currentMax (windowBytes r.bytes r.second) := by
  rw [← sup_windowBytes, Recorded.currentMax, hperiod]
  rfl

end

/-! The second in which a period is over is the first one of the next. -/

theorem periods_commit (r : Recorded) (h : r.second + 1 = periodStart (r.periods + 1)) :
    (r.advance 1).periods = r.periods + 1 := by
  change (r.second + 1) / numSecsBwSumInterval = _
  rw [h, periodStart, Nat.mul_div_cancel_left _ (by decide)]

theorem currentMax_commit (r : Recorded) (h : r.second + 1 = periodStart (r.periods + 1)) :
    (r.advance 1).currentMax = 0 := by
  rw [Recorded.currentMax, periods_commit r h, ← h]
  change (Finset.Ico (r.second + 1) (r.second + 1)).sup (windowBytes r.bytes) = 0
  rw [Finset.Ico_self, Finset.sup_empty]
  rfl

theorem currentTotal_commit (r : Recorded) (h : r.second + 1 = periodStart (r.periods + 1)) :
    (r.advance 1).currentTotal = 0 := by
  have hlater := r.later (r.second + 1) (Nat.lt_succ_self _)
  rw [Recorded.currentTotal, periods_commit r h, ← h]
  change ∑ s ∈ Finset.Ico (r.second + 1) (r.second + 1 + 1), r.bytes s = 0
  rw [Nat.Ico_succ_singleton, Finset.sum_singleton, hlater]

/-- The part of a step before the period is committed. -/
theorem Matches.obs_advance (h : Matches start r b) : Holds (b.obs.set b.nextIdx 0) (padded r.bytes)
      (r.second + 1 + numSecsRollingMeasure + 1) := by
  have hpos := measure_pos
  have hwrite := h.obs.write (by rw [h.obs_length]; exact hpos)
  have hplace : (r.second + numSecsRollingMeasure + 1) % b.obs.length = b.nextIdx := by
    rw [h.obs_length, h.nextIdx_eq, Nat.add_right_comm, Nat.add_mod_right]
  have hblank : padded r.bytes (r.second + numSecsRollingMeasure + 1) = 0 := by
    exact r.later _ (by omega)
  rw [hplace, hblank] at hwrite
  exact hwrite

theorem Matches.advance (h : Matches start r b) (hsum : r.sum < 2 ^ 64) :
    Matches start (r.advance 1) (advanceObs b) := by
  have hle := padded_le r
  have hwindow := windowBytes_succ r.bytes r.second
  have hbound := windowBytes_le r
  have hobs := h.obs_advance
  have hidx : b.nextIdx = (r.second + 1) % numSecsRollingMeasure := h.nextIdx_eq
  have htotalObs : (windowBytes r.bytes r.second + 2 ^ 64 - padded r.bytes (r.second + 1)) %
      2 ^ 64 + r.bytes (r.second + 1) = windowBytes r.bytes (r.second + 1) := by
    omega
  have hmax : (if b.maxTotal < windowBytes r.bytes r.second then windowBytes r.bytes r.second
      else b.maxTotal) = max r.currentMax (windowBytes r.bytes r.second) := by
    rw [h.maxTotal]
    split <;> omega
  have htime : start + r.second + 1 = start + ((r.second + 1 : ℕ) : ℤ) := by push_cast; ring
  have hlength : (b.obs.set b.nextIdx 0).length = numSecsRollingMeasure := by
    rw [List.length_set, h.obs_length]
  have hend := lt_periodStart r
  simp only [advanceObs, h.total_eq hsum, h.obs_next, h.time, h.nextPeriod, hmax, htime]
  by_cases hcommit : periodStart (r.periods + 1) ≤ r.second + 1
  · have hsecond : r.second + 1 = periodStart (r.periods + 1) := by omega
    have hperiods := periods_commit r hsecond
    have htotals := h.totals.write (by rw [h.totals_length]; decide)
    have hmaxima := h.maxima.write (by rw [h.maxima_length]; decide)
    rw [h.totals_length, ← h.nextIdx, periodTotal, ← hsecond] at htotals
    rw [h.maxima_length, ← h.nextIdx, periodMax, ← hsecond, sup_windowBytes] at hmaxima
    rw [if_pos (by omega)]
    refine ⟨rfl, hlength, hobs, hidx, htotalObs, (currentMax_commit r hsecond).symm,
      (currentTotal_commit r hsecond).symm, ?_, ?_, ?_, ?_, ?_, ?_, ?_⟩
    · rw [hperiods, commitMax]
      unfold periodStart
      push_cast
      ring
    · exact List.length_set.trans h.totals_length
    · rw [hperiods, commitMax, h.totalInPeriod]
      exact htotals
    · exact List.length_set.trans h.maxima_length
    · rw [hperiods]
      exact hmaxima
    · change (if b.nextMaxIdx + 1 = numTotals then 0 else b.nextMaxIdx + 1) = _
      rw [hperiods, h.nextIdx]
      unfold numTotals
      split <;> omega
    · change (if b.numMaxesSet < numTotals then b.numMaxesSet + 1 else b.numMaxesSet) = _
      rw [hperiods, h.set]
      split <;> omega
  · have hperiods := periods_advance r hcommit
    rw [if_neg (by omega)]
    refine ⟨rfl, hlength, hobs, hidx, htotalObs, (currentMax_advance r hperiods).symm,
      h.totalInPeriod.trans (currentTotal_advance r hperiods).symm, ?_, h.totals_length, ?_,
      h.maxima_length, ?_, ?_, ?_⟩
    · rw [hperiods]
    · rw [hperiods]
      exact h.totals
    · rw [hperiods]
      exact h.maxima
    · rw [hperiods]
      exact h.nextIdx
    · rw [hperiods]
      exact h.set

theorem record_bytes (r : Recorded) (n : ℕ) :
    (r.record n).bytes r.second = r.bytes r.second + n := Function.update_self ..

theorem record_bytes_of_ne (n : ℕ) {s : ℕ} (h : s ≠ r.second) :
    (r.record n).bytes s = r.bytes s := Function.update_of_ne h ..

theorem sum_record (r : Recorded) (n : ℕ) {first : ℕ} (h : first ≤ r.second) :
    ∑ s ∈ Finset.Ico first (r.second + 1), (r.record n).bytes s =
      ∑ s ∈ Finset.Ico first (r.second + 1), r.bytes s + n := by
  rw [Finset.sum_Ico_succ_top h, Finset.sum_Ico_succ_top h, record_bytes, ← Nat.add_assoc]
  congr 2
  refine Finset.sum_congr rfl fun s hs => record_bytes_of_ne n ?_
  have := (Finset.mem_Ico.mp hs).2
  omega

theorem record_sum (r : Recorded) (n : ℕ) : (r.record n).sum = r.sum + n := by
  unfold Recorded.sum
  rw [Finset.range_eq_Ico, Finset.range_eq_Ico]
  exact sum_record r n (Nat.zero_le _)

/-- The periods that are over are as they were. -/
theorem before_second {k s : ℕ} (hk : k < r.periods) (hs : s < periodStart (k + 1)) :
    s < r.second :=
  hs.trans_le ((Nat.mul_le_mul_left _ hk).trans (periodStart_le r))

theorem windowBytes_record (n : ℕ) {s : ℕ} (h : s < r.second) :
    windowBytes (r.record n).bytes s = windowBytes r.bytes s :=
  windowBytes_congr fun j hj => record_bytes_of_ne n (by omega)

theorem periodTotal_record (n : ℕ) {k : ℕ} (hk : k < r.periods) :
    periodTotal (r.record n).bytes k = periodTotal r.bytes k :=
  Finset.sum_congr rfl fun _ hs =>
    record_bytes_of_ne n (before_second hk (Finset.mem_Ico.mp hs).2).ne

theorem periodMax_record (n : ℕ) {k : ℕ} (hk : k < r.periods) :
    periodMax (r.record n).bytes k = periodMax r.bytes k :=
  Finset.sup_congr rfl fun _ hs =>
    windowBytes_record n (before_second hk (Finset.mem_Ico.mp hs).2)

theorem Matches.record (h : Matches start r b) {n : ℕ} (hsum : r.sum + n < 2 ^ 64) :
    Matches start (r.record n) { b with
        obs := b.obs.set b.curObsIdx ((b.obs.getD b.curObsIdx 0 + n) % 2 ^ 64)
        totalInPeriod := (b.totalInPeriod + n) % 2 ^ 64 } := by
  have hpos := measure_pos
  have hbytes : r.bytes r.second ≤ r.sum := by
    refine Finset.single_le_sum (fun _ _ => Nat.zero_le _) ?_
    exact Finset.mem_range.mpr (Nat.lt_succ_self _)
  have htotal := currentTotal_le r
  have hlength : (b.obs.set b.curObsIdx ((b.obs.getD b.curObsIdx 0 + n) % 2 ^ 64)).length =
      numSecsRollingMeasure := by
    rw [List.length_set, h.obs_length]
  refine ⟨h.time, hlength, ?_, h.idx, ?_, ?_, ?_, h.nextPeriod, h.totals_length, ?_,
    h.maxima_length, ?_, h.nextIdx, h.set⟩
  · have hbefore : ∀ k < r.second + numSecsRollingMeasure,
        padded (r.record n).bytes k = padded r.bytes k := by
      intro k hk
      unfold padded
      split
      · rfl
      · exact record_bytes_of_ne n (by omega)
    have hrewrite := h.obs.rewrite (by rw [h.obs_length]; exact hpos) hbefore
    have hplace : (r.second + numSecsRollingMeasure) % b.obs.length = b.curObsIdx := by
      rw [h.obs_length, Nat.add_mod_right, h.idx]
    have hvalue : padded (r.record n).bytes (r.second + numSecsRollingMeasure) =
        (b.obs.getD b.curObsIdx 0 + n) % 2 ^ 64 := by
      rw [padded, if_neg (by omega), Nat.add_sub_cancel, record_bytes, h.obs_cur,
        Nat.mod_eq_of_lt (by omega)]
    rw [hplace, hvalue] at hrewrite
    exact hrewrite
  · have hwindow : windowBytes (r.record n).bytes r.second = windowBytes r.bytes r.second + n :=
      sum_record r n (by omega)
    change b.totalObs + (r.record n).bytes r.second = windowBytes (r.record n).bytes r.second
    rw [hwindow, record_bytes, ← h.totalObs, Nat.add_assoc]
  · have hmax : (r.record n).currentMax = r.currentMax :=
      Finset.sup_congr rfl fun s hs => windowBytes_record n (Finset.mem_Ico.mp hs).2
    exact h.maxTotal.trans hmax.symm
  · have hcurrent : (r.record n).currentTotal = r.currentTotal + n :=
      sum_record r n (periodStart_le r)
    change (b.totalInPeriod + n) % 2 ^ 64 = (r.record n).currentTotal
    rw [hcurrent, h.totalInPeriod, Nat.mod_eq_of_lt (by omega)]
  · exact h.totals.congr fun k hk => periodTotal_record n hk
  · exact h.maxima.congr fun k hk => periodMax_record n hk

end Step

section Run
variable {start : ℤ} {r : Recorded} {b : BwArray}

theorem advance_sum (r : Recorded) (k : ℕ) : (r.advance k).sum = r.sum := by
  have hextend : Finset.range (r.second + 1) ⊆ Finset.range (r.second + k + 1) :=
    Finset.range_subset_range.mpr (by omega)
  refine (Finset.sum_subset hextend fun s _ hs => r.later s ?_).symm
  rw [Finset.mem_range] at hs
  omega

/-- The loop lets some seconds go by. -/
theorem Matches.iterate (h : Matches start r b) (hsum : r.sum < 2 ^ 64) (k : ℕ) :
    Matches start (r.advance k) (advanceObs^[k] b) := by
  induction k with
  | zero => exact h
  | succ k ih =>
    rw [Function.iterate_succ_apply']
    exact ih.advance (by rw [advance_sum]; exact hsum)

theorem Matches.addObs (h : Matches start r b) (time : ℤ) {n : ℕ} (hsum : r.sum + n < 2 ^ 64) :
    Matches start (r.observe start (time, n)) (addObs b time n) := by
  rw [Stats.addObs, Recorded.observe, h.time]
  split
  · exact h
  · exact (h.iterate (by omega) _).record (by rw [advance_sum]; exact hsum)

section
variable (start : ℤ)

theorem observe_sum_le (r : Recorded) (call : ℤ × ℕ) :
    (r.observe start call).sum ≤ r.sum + call.2 := by
  unfold Recorded.observe
  split
  · omega
  · rw [record_sum, advance_sum]

theorem recorded_append (calls : List (ℤ × ℕ)) (call : ℤ × ℕ) :
    recorded start (calls ++ [call]) = (recorded start calls).observe start call :=
  List.foldl_append ..

theorem recorded_sum_le (calls : List (ℤ × ℕ)) :
    (recorded start calls).sum ≤ (calls.map Prod.snd).sum := by
  induction calls using List.reverseRecOn with
  | nil => simp [recorded, Recorded.nothing, Recorded.sum]
  | append_singleton calls call ih =>
    rw [recorded_append, List.map_append, List.sum_append, List.map_singleton, List.sum_singleton]
    exact (observe_sum_le ..).trans (Nat.add_le_add_right ih _)

theorem matches_new : Matches start .nothing (bwArrayNew start) := by
  have hperiods : Recorded.nothing.periods = 0 := rfl
  refine ⟨(add_zero start).symm, rfl, ?_, rfl, ?_, rfl, ?_, ?_, rfl, ?_, rfl, ?_, rfl, rfl⟩
  · intro k _ _
    have hin : k % (bwArrayNew start).obs.length < numSecsRollingMeasure := Nat.mod_lt _ measure_pos
    have hblank : padded Recorded.nothing.bytes k = 0 := ite_self _
    rw [hblank]
    exact List.getElem?_replicate_of_lt hin
  · exact Finset.sum_const_zero.symm
  · exact Finset.sum_const_zero.symm
  · rw [hperiods]
    rfl
  · rw [hperiods]
    exact holds_zero
  · rw [hperiods]
    exact holds_zero

theorem matches_recorded {calls : List (ℤ × ℕ)} (hsum : (calls.map Prod.snd).sum < 2 ^ 64) :
    Matches start (recorded start calls)
      (calls.foldl (fun b call => addObs b call.1 call.2) (bwArrayNew start)) := by
  induction calls using List.reverseRecOn with
  | nil => exact matches_new start
  | append_singleton calls call ih =>
    rw [List.map_append, List.sum_append, List.map_singleton, List.sum_singleton] at hsum
    have hle := recorded_sum_le start calls
    rw [recorded_append, List.foldl_append]
    exact (ih (by omega)).addObs call.1 (by omega)

end

end Run

end TorDaemon.Stats

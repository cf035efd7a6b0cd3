import TorDaemon.Stats.BandwidthHistory

/-! What the bandwidth history of a relay holds at any time, and what is reported of it. -/
namespace TorDaemon.Stats
open Library.NetworkOrder Library.Rings SharedRandom

/-- What is meant by an array that has kept what was recorded, and by what is written of it. -/
structure HistoryRight (r : Recorded) (b : BwArray) : Prop where
  totalObs : b.totalObs = (b.obs.eraseIdx b.curObsIdx).sum
  noOverflow : b.total = b.totalObs + b.obs.getD b.curObsIdx 0
  noUnderflow : b.obs.getD b.nextIdx 0 ≤ b.total
  maxTotal : b.maxTotal = r.currentMax
  totalInPeriod : b.totalInPeriod = r.currentTotal
  totals : around b.totals 0 b.firstIdx b.numMaxesSet = r.lastPeriods (periodTotal r.bytes)
  maxima : around b.maxima 0 b.firstIdx b.numMaxesSet = r.lastPeriods (periodMax r.bytes)
  filled : ∀ relayBandwidthRate len, maxHistValueLen ≤ len →
    bwhistFillBandwidthHistory relayBandwidthRate len b =
      (ascii ",").intercalate ((r.lastPeriods (periodTotal r.bytes)).map fun total =>
        decimalString (min (roundDown total) (cutoff relayBandwidthRate)))
  values : (bwhistUpdateBwhistStateSection true b).values =
    some ((r.lastPeriods (periodTotal r.bytes) ++ [r.currentTotal]).map fun total =>
      decimalString (roundDown total))
  savedMaxima : (bwhistUpdateBwhistStateSection true b).maxima =
    some ((r.lastPeriods (periodMax r.bytes) ++ [r.currentMax]).map fun maximum =>
      decimalString (roundDown (maximum / numSecsRollingMeasure)))
  client : bwhistUpdateBwhistStateSection false b = ⟨some [], some [], 0, 900, by decide⟩

section Report
variable {start : ℤ} {r : Recorded} {b : BwArray}

theorem Matches.around_eq (h : Matches start r b) {ring : List ℕ} {value : ℕ → ℕ}
    (hlength : ring.length = numTotals) (hring : Holds ring value r.periods) :
    around ring 0 b.firstIdx b.numMaxesSet = r.lastPeriods value := by
  have hset := h.set
  have hnext := h.nextIdx
  have hplace : b.firstIdx % ring.length = (r.periods - b.numMaxesSet) % ring.length := by
    rw [hlength, BwArray.firstIdx]
    unfold numTotals at *
    split <;> omega
  rw [hring.around 0 (by omega) (by omega) hplace, Recorded.lastPeriods, hset]
  congr 1
  omega

theorem lastPeriods_length (r : Recorded) (value : ℕ → ℕ) :
    (r.lastPeriods value).length = min r.periods numTotals := by
  rw [Recorded.lastPeriods, List.length_drop, List.length_map, List.length_range]
  omega

/-- The window is what a ring of seconds holds. -/
theorem windowBytes_eq_padded (bytes : ℕ → ℕ) (s : ℕ) : windowBytes bytes s =
      ∑ j ∈ Finset.range numSecsRollingMeasure, padded bytes (s + 1 + j) := by
  induction s with
  | zero => simp [windowBytes, padded, numSecsRollingMeasure, Finset.sum_range_succ]
  | succ s ih =>
    have hsucc := windowBytes_succ bytes s
    have hbot := Finset.sum_range_succ' (fun j => padded bytes (s + 1 + j)) numSecsRollingMeasure
    have htop := Finset.sum_range_succ (fun j => padded bytes (s + 1 + j)) numSecsRollingMeasure
    have hnew : padded bytes (s + 1 + numSecsRollingMeasure) = bytes (s + 1) := by
      rw [padded, if_neg (by omega), Nat.add_sub_cancel]
    have hshift : ∑ j ∈ Finset.range numSecsRollingMeasure, padded bytes (s + 1 + (j + 1)) =
        ∑ j ∈ Finset.range numSecsRollingMeasure, padded bytes (s + 1 + 1 + j) :=
      Finset.sum_congr rfl fun j _ => by rw [Nat.add_assoc (s + 1) 1, Nat.add_comm 1 j]
    simp only [Nat.add_zero, hshift, hnew] at hbot htop
    omega

theorem cutoff_lt (relayBandwidthRate : ℕ) : cutoff relayBandwidthRate < 2 ^ 64 := by
  unfold cutoff
  split <;> omega

theorem Matches.totalObs_eq (h : Matches start r b) :
    b.totalObs = (b.obs.eraseIdx b.curObsIdx).sum := by
  have hlt : b.curObsIdx < b.obs.length := by
    rw [h.idx, h.obs_length]
    exact Nat.mod_lt _ measure_pos
  have hcur := h.obs_cur
  rw [List.getD_eq_getElem?_getD, List.getElem?_eq_getElem hlt] at hcur
  have herase := List.CommMonoid.add_sum_eraseIdx hlt
  have hwindow : b.obs.sum = windowBytes r.bytes r.second := by
    have hring := h.obs.sum (by rw [h.obs_length]; omega)
    have hfirst : r.second + numSecsRollingMeasure + 1 - numSecsRollingMeasure = r.second + 1 := by
      omega
    rw [hring, h.obs_length, hfirst, windowBytes_eq_padded]
    rfl
  have htotal := h.totalObs
  dsimp only [Option.getD_some] at hcur
  omega

theorem Matches.right (h : Matches start r b) (hsum : r.sum < 2 ^ 64) : HistoryRight r b := by
  have htotals := h.around_eq h.totals_length h.totals
  have hmaxima := h.around_eq h.maxima_length h.maxima
  refine ⟨h.totalObs_eq, ?_, ?_, h.maxTotal, h.totalInPeriod, htotals, hmaxima, ?_, ?_, ?_, rfl⟩
  · rw [h.total_eq hsum, h.obs_cur, h.totalObs]
  · rw [h.total_eq hsum, h.obs_next]
    exact padded_le r
  · intro relayBandwidthRate len hlen
    have hshort : ∀ total ∈ (r.lastPeriods (periodTotal r.bytes)).map
        fun total => min (roundDown total) (cutoff relayBandwidthRate), total < 2 ^ 64 := by
      intro total htotal
      obtain ⟨total', -, rfl⟩ := List.mem_map.mp htotal
      exact (min_le_right ..).trans_lt (cutoff_lt relayBandwidthRate)
    have hmin (total : ℕ) : (if cutoff relayBandwidthRate < roundDown total then
        cutoff relayBandwidthRate else roundDown total) =
          min (roundDown total) (cutoff relayBandwidthRate) := by
      split <;> omega
    have hroom : ([] : Bytes).length + 21 * ((r.lastPeriods (periodTotal r.bytes)).map
        fun total => min (roundDown total) (cutoff relayBandwidthRate)).length ≤ len := by
      rw [List.length_map, lastPeriods_length, List.length_nil]
      unfold maxHistValueLen at hlen
      omega
    rw [bwhistFillBandwidthHistory, htotals]
    simp only [hmin]
    rw [fillValues_eq hshort hroom, List.nil_append, List.map_map]
    rfl
  · rw [bwhistUpdateBwhistStateSection, if_pos rfl, htotals, h.totalInPeriod]
  · rw [bwhistUpdateBwhistStateSection, if_pos rfl, hmaxima, h.maxTotal]

/-- At any time the history is what was recorded, and its periods are reported from the oldest
to the newest, rounded down. -/
theorem bandwidthHistory_right (start : ℤ) (calls : List (ℤ × ℕ)) (k : ℕ)
    (hsum : (calls.map Prod.snd).sum < 2 ^ 64) : HistoryRight ((recorded start calls).advance k)
      (advanceObs^[k] (calls.foldl (fun b call => addObs b call.1 call.2) (bwArrayNew start))) := by
  have hle := recorded_sum_le start calls
  refine ((matches_recorded start hsum).iterate (by omega) k).right ?_
  rw [advance_sum]
  omega

/-- Bytes in the first of two periods, and in the second. -/
def twoPeriods : List (ℤ × ℕ) := [(5, 4048), (86403, 7)]

theorem twoPeriods_bytes (s : ℕ) : (recorded 0 twoPeriods).bytes s =
    if s = 86403 then 7 else if s = 5 then 4048 else 0 := by
  by_cases hsecond : s = 86403
  · subst hsecond
    rfl
  · by_cases hfirst : s = 5
    · subst hfirst
      rfl
    · rw [if_neg hsecond, if_neg hfirst]
      refine (Function.update_of_ne hsecond ..).trans ?_
      exact Function.update_of_ne hfirst ..

theorem twoPeriods_totals : ((recorded 0 twoPeriods).advance 86400).lastPeriods
    (periodTotal (recorded 0 twoPeriods).bytes) = [4048, 7] := by
  have htotals : periodTotal (recorded 0 twoPeriods).bytes 0 = 4048 ∧
      periodTotal (recorded 0 twoPeriods).bytes 1 = 7 := by
    constructor
    · refine (Finset.sum_eq_single 5 ?_ ?_).trans rfl
      · intro s hs hne
        have hlt := (Finset.mem_Ico.mp hs).2
        simp only [periodStart, numSecsBwSumInterval] at hlt
        rw [twoPeriods_bytes, if_neg (by omega), if_neg hne]
      · exact fun hnot => absurd (by decide) hnot
    · refine (Finset.sum_eq_single 86403 ?_ ?_).trans rfl
      · intro s hs hne
        have hge := (Finset.mem_Ico.mp hs).1
        simp only [periodStart, numSecsBwSumInterval] at hge
        rw [twoPeriods_bytes, if_neg hne, if_neg (by omega)]
      · exact fun hnot => absurd (by decide) hnot
  have hperiods : ((recorded 0 twoPeriods).advance 86400).periods = 2 := by decide +kernel
  rw [Recorded.lastPeriods, hperiods]
  exact congrArg₂ (fun first second => [first, second]) htotals.1 htotals.2

theorem bandwidthHistory_right_twoPeriods :
    HistoryRight ((recorded 0 twoPeriods).advance 86400) (advanceObs^[86400]
      (twoPeriods.foldl (fun b call => addObs b call.1 call.2) (bwArrayNew 0))) ∧
    bwhistFillBandwidthHistory 0 maxHistValueLen (advanceObs^[86400]
      (twoPeriods.foldl (fun b call => addObs b call.1 call.2) (bwArrayNew 0))) =
        ascii "3072,0" := by
  have hright := bandwidthHistory_right 0 twoPeriods 86400 (by decide)
  refine ⟨hright, ?_⟩
  have htotals : ((recorded 0 twoPeriods).advance 86400).lastPeriods
      (periodTotal ((recorded 0 twoPeriods).advance 86400).bytes) = [4048, 7] := twoPeriods_totals
  rw [hright.filled 0 _ le_rfl, htotals]
  decide +kernel

/-- The state file has the current period too. -/
theorem savedValues_current :
    ¬∀ (start : ℤ) (calls : List (ℤ × ℕ)), (calls.map Prod.snd).sum < 2 ^ 64 →
      (bwhistUpdateBwhistStateSection true
        (calls.foldl (fun b call => addObs b call.1 call.2) (bwArrayNew start))).values =
          some (((recorded start calls).lastPeriods
            (periodTotal (recorded start calls).bytes)).map decimalString) := by
  intro h
  have hvalues := congrArg (Option.map List.length) (h 0 [] (by decide))
  cases hvalues

end Report

end TorDaemon.Stats

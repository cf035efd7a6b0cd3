import TorDaemon.CircuitStats.ParseState
import TorDaemon.Library.Grouping
import TorDaemon.Library.Ranking
import TorDaemon.Padding.Limits

/-! The histogram of the build times, and what is saved of a history and loaded again
(`circuit_build_times_create_histogram` and `circuit_build_times_update_state`). -/
namespace TorDaemon.CircuitStats
open Library.Grouping Library.NetworkOrder Library.Ranking SharedRandom

def circuitBuildTimesMax (cbt : CircuitBuildTimes) : ℕ :=
  cbt.circuitBuildTimes.foldl
    (fun maxBuildTime t => if maxBuildTime < t ∧ t ≠ buildAbandoned then t else maxBuildTime) 0

def circuitBuildTimesCreateHistogram (cbt : CircuitBuildTimes) : List ℕ :=
  cbt.circuitBuildTimes.foldl
    (fun histogram t =>
      if t = 0 ∨ t = buildAbandoned then histogram
      else histogram.modify (t / binWidth) (· + 1))
    (List.replicate (1 + circuitBuildTimesMax cbt / binWidth) 0)

/-- The histories that adding times leads to: the times stand before the zeros, and the next one
is put behind them while there is room. -/
structure WellFormed (cbt : CircuitBuildTimes) : Prop where
  idx_lt : cbt.buildTimesIdx < ncircuitsToObserve
  idx_eq : cbt.totalBuildTimes < ncircuitsToObserve → cbt.buildTimesIdx = cbt.totalBuildTimes
  total_le : cbt.totalBuildTimes ≤ ncircuitsToObserve
  times : ∃ times, times.length = cbt.totalBuildTimes ∧
    (∀ t ∈ times, t ≠ 0 ∧ t ≤ buildTimeMax) ∧
    cbt.circuitBuildTimes = times ++ List.replicate (ncircuitsToObserve - times.length) 0

/-- `CircuitBuildAbandonedCount` of a history. -/
def abandonedCount (cbt : CircuitBuildTimes) : ℕ :=
  cbt.circuitBuildTimes.countP (· = buildAbandoned)

/-- A line of the histogram. -/
def histogramLine (p : ℕ × ℕ) : Bytes := spaced [decimalString p.1, decimalString p.2]

/-- The bins that are written, in milliseconds, with their counts; blanks are skipped. -/
def savedBins (histogram : List ℕ) : List (ℕ × ℕ) :=
  (List.range histogram.length).filterMap fun i =>
    if histogram.getD i 0 = 0 then none else some (binToMs i, histogram.getD i 0)

theorem WellFormed.abandoned_le {cbt : CircuitBuildTimes} (h : WellFormed cbt) :
    abandonedCount cbt ≤ ncircuitsToObserve := by
  obtain ⟨times, hlen, -, heq⟩ := h.times
  have hle := h.total_le
  refine (List.countP_le_length ..).trans ?_
  rw [heq, List.length_append, List.length_replicate]
  omega

def circuitBuildTimesUpdateState (cbt : { cbt // WellFormed cbt }) : OrState where
  totalBuildTimes := cbt.val.totalBuildTimes
  circuitBuildAbandonedCount := abandonedCount cbt.val
  buildtimeHistogram := (savedBins (circuitBuildTimesCreateHistogram cbt.val)).map histogramLine
  total_lt := cbt.property.total_le.trans_lt (by decide)
  abandoned_lt := cbt.property.abandoned_le.trans_lt (by decide)

section Histories

theorem wellFormed_init : WellFormed circuitBuildTimesInit :=
  ⟨by decide, fun _ => rfl, Nat.zero_le _, [], rfl, nofun, rfl⟩

theorem WellFormed.addTime {cbt : CircuitBuildTimes} (h : WellFormed cbt) (t : ℕ) :
    WellFormed (circuitBuildTimesAddTime cbt t) := by
  unfold circuitBuildTimesAddTime
  split
  · exact h
  rename_i hvalid
  obtain ⟨times, hlen, htimes, heq⟩ := h.times
  have hle := h.total_le
  have hidx := h.idx_lt
  have ht : t ≠ 0 ∧ t ≤ buildTimeMax := by omega
  by_cases hroom : cbt.totalBuildTimes < ncircuitsToObserve
  · have hat := h.idx_eq hroom
    refine ⟨Nat.mod_lt _ (by decide), ?_, ?_, times ++ [t], ?_, ?_, ?_⟩
    · simp only [if_pos hroom, hat]
      exact fun hlt => Nat.mod_eq_of_lt hlt
    · simp only [if_pos hroom]
      omega
    · simp only [if_pos hroom, List.length_append, List.length_singleton, hlen]
    · exact List.forall_mem_append.mpr ⟨htimes, List.forall_mem_singleton.mpr ht⟩
    · dsimp only
      obtain ⟨k, hk⟩ : ∃ k, ncircuitsToObserve - times.length = k + 1 :=
        ⟨ncircuitsToObserve - times.length - 1, by omega⟩
      have hk' : ncircuitsToObserve - (times.length + 1) = k := by omega
      rw [heq, hat, ← hlen, List.length_append, List.length_singleton, hk, hk',
        List.set_append_right _ _ le_rfl, Nat.sub_self, List.replicate_succ,
        List.set_cons_zero, List.append_assoc, List.singleton_append]
  · have hfull : cbt.totalBuildTimes = ncircuitsToObserve := by omega
    refine ⟨Nat.mod_lt _ (by decide), ?_, ?_, times.set cbt.buildTimesIdx t, ?_, ?_, ?_⟩
    · simp only [if_neg hroom]
      exact fun hlt => absurd hlt hroom
    · simp only [if_neg hroom]
      exact hle
    · simp only [if_neg hroom, List.length_set, hlen]
    · intro t' ht'
      rcases List.mem_or_eq_of_mem_set ht' with ht' | rfl
      · exact htimes t' ht'
      · exact ht
    · dsimp only
      rw [heq, List.length_set, List.set_append_left _ _ (by omega)]

/-- The history after times have been added. -/
def history (times : List ℕ) : { cbt // WellFormed cbt } :=
  ⟨times.foldl circuitBuildTimesAddTime circuitBuildTimesInit, by
    induction times using List.reverseRecOn with
    | nil => exact wellFormed_init
    | append_singleton times t ih =>
      rw [List.foldl_append]
      exact ih.addTime t⟩

end Histories

/-! ### The histogram -/

/-- The times that are counted. -/
def counted (times : List ℕ) : List ℕ := times.filter fun t => t ≠ 0 ∧ t ≠ buildAbandoned

/-- How many of the times are in a bin. -/
def binCount (times : List ℕ) (bin : ℕ) : ℕ := (counted times).countP fun t => t / binWidth = bin

section Bins
variable {times times' : List ℕ} {bin : ℕ}

theorem counted_cons (t : ℕ) (times : List ℕ) : counted (t :: times) =
      if t = 0 ∨ t = buildAbandoned then counted times else t :: counted times := by
  rw [counted, List.filter_cons]
  by_cases h : t = 0 ∨ t = buildAbandoned
  · rw [if_pos h, if_neg (by simpa [← or_iff_not_imp_left] using h)]
    rfl
  · rw [if_neg h, if_pos (by simpa using not_or.mp h)]
    rfl

theorem counted_append (times times' : List ℕ) :
    counted (times ++ times') = counted times ++ counted times' := List.filter_append ..

theorem counted_zeros (n : ℕ) : counted (List.replicate n 0) = [] := by
  simp [counted]

theorem binCount_cons (t : ℕ) (times : List ℕ) (bin : ℕ) : binCount (t :: times) bin =
      if t = 0 ∨ t = buildAbandoned then binCount times bin
      else binCount times bin + if t / binWidth = bin then 1 else 0 := by
  rw [binCount, counted_cons]
  split
  · rfl
  · rw [List.countP_cons]
    simp only [decide_eq_true_eq]
    rfl

theorem foldl_modify_getElem? (histogram : List ℕ) (times : List ℕ) (bin : ℕ) :
    (times.foldl (fun histogram t =>
        if t = 0 ∨ t = buildAbandoned then histogram
        else histogram.modify (t / binWidth) (· + 1)) histogram)[bin]? =
      histogram[bin]?.map (· + binCount times bin) := by
  induction times generalizing histogram with
  | nil => simp [binCount, counted]
  | cons t times ih =>
    rw [List.foldl_cons, ih, binCount_cons]
    split
    · rfl
    · rw [List.getElem?_modify]
      split <;> cases histogram[bin]? <;> simp
      omega

theorem foldl_max_spec (times : List ℕ) (m : ℕ) :
    m ≤ times.foldl (fun m t => if m < t ∧ t ≠ buildAbandoned then t else m) m ∧
      (∀ t ∈ times, t ≠ buildAbandoned →
        t ≤ times.foldl (fun m t => if m < t ∧ t ≠ buildAbandoned then t else m) m) ∧
      (times.foldl (fun m t => if m < t ∧ t ≠ buildAbandoned then t else m) m = m ∨
        times.foldl (fun m t => if m < t ∧ t ≠ buildAbandoned then t else m) m ∈
          counted times) := by
  induction times generalizing m with
  | nil => exact ⟨le_rfl, nofun, .inl rfl⟩
  | cons t times ih =>
    rw [List.foldl_cons]
    obtain ⟨hle, hall, hmem⟩ := ih (if m < t ∧ t ≠ buildAbandoned then t else m)
    refine ⟨?_, List.forall_mem_cons.mpr ⟨fun ht => ?_, hall⟩, ?_⟩
    · refine le_trans ?_ hle
      split <;> omega
    · refine le_trans ?_ hle
      split <;> omega
    · rw [counted_cons]
      rcases hmem with hmem | hmem
      · by_cases h : m < t ∧ t ≠ buildAbandoned
        · rw [if_pos h] at hmem ⊢
          rw [if_neg (by omega), hmem]
          exact .inr List.mem_cons_self
        · rw [if_neg h] at hmem ⊢
          exact .inl hmem
      · right
        split
        · exact hmem
        · exact List.mem_cons_of_mem _ hmem

theorem div_le_max {cbt : CircuitBuildTimes} {t : ℕ} (h : t ∈ counted cbt.circuitBuildTimes) :
    t / binWidth ≤ circuitBuildTimesMax cbt / binWidth := by
  obtain ⟨ht, hvalid⟩ := List.mem_filter.mp h
  simp only [ne_eq, decide_eq_true_eq] at hvalid
  exact Nat.div_le_div_right ((foldl_max_spec ..).2.1 t ht hvalid.2)

theorem binCount_pos : 0 < binCount times bin ↔ ∃ t ∈ counted times, t / binWidth = bin := by
  rw [binCount, List.countP_pos_iff]
  simp

theorem createHistogram_eq (cbt : CircuitBuildTimes) : circuitBuildTimesCreateHistogram cbt =
      (List.range (1 + circuitBuildTimesMax cbt / binWidth)).map
        (binCount cbt.circuitBuildTimes) := by
  apply List.ext_getElem?
  intro bin
  rw [circuitBuildTimesCreateHistogram, foldl_modify_getElem?, List.getElem?_map,
    List.getElem?_replicate]
  split
  · rename_i hlt
    rw [List.getElem?_range hlt]
    simp
  · rename_i hge
    rw [List.getElem?_eq_none (by simpa using hge)]
    rfl

theorem createHistogram_getD (cbt : CircuitBuildTimes) (bin : ℕ) :
    (circuitBuildTimesCreateHistogram cbt).getD bin 0 = binCount cbt.circuitBuildTimes bin := by
  rw [createHistogram_eq, List.getD_eq_getElem?_getD, List.getElem?_map]
  by_cases hlt : bin < 1 + circuitBuildTimesMax cbt / binWidth
  · rw [List.getElem?_range hlt]
    rfl
  · rw [List.getElem?_eq_none (by simpa using hlt)]
    by_contra hne
    obtain ⟨t, ht, rfl⟩ := binCount_pos.mp (Nat.pos_of_ne_zero (Ne.symm hne))
    have := div_le_max ht
    omega

theorem createHistogram_congr {cbt cbt' : CircuitBuildTimes}
    (h : ∀ bin, binCount cbt.circuitBuildTimes bin = binCount cbt'.circuitBuildTimes bin) :
    circuitBuildTimesCreateHistogram cbt = circuitBuildTimesCreateHistogram cbt' := by
  have hmax : ∀ {cbt cbt' : CircuitBuildTimes},
      (∀ bin, binCount cbt.circuitBuildTimes bin = binCount cbt'.circuitBuildTimes bin) →
      circuitBuildTimesMax cbt / binWidth ≤ circuitBuildTimesMax cbt' / binWidth := by
    intro cbt cbt' h
    rcases (foldl_max_spec cbt.circuitBuildTimes 0).2.2 with hzero | hmem
    · have hzero' : circuitBuildTimesMax cbt = 0 := hzero
      rw [hzero', Nat.zero_div]
      exact Nat.zero_le _
    · have hpos := binCount_pos.mpr ⟨_, hmem, rfl⟩
      rw [h] at hpos
      obtain ⟨t, ht, heq⟩ := binCount_pos.mp hpos
      exact heq ▸ div_le_max ht
  rw [createHistogram_eq, createHistogram_eq, le_antisymm (hmax h) (hmax fun bin => (h bin).symm)]
  exact List.map_congr_left fun bin _ => h bin

end Bins

/-! The start of the curve of build times (`circuit_build_times_get_xm`), and the mean of the
most frequent bins. The sums are of 32 bits. -/

/-- `circuit_build_times_default_num_xm_modes`, of a parameter of the consensus. -/
def circuitBuildTimesDefaultNumXmModes (cbtnummodes : Option ℤ) : ℕ :=
  (Padding.Machine.networkstatusGetParam cbtnummodes 10 1 20).toNat

/-- `nth_max_bin`: the first bin with the greatest count. -/
def nthMaxBin (histogram : List ℕ) : ℕ :=
  (List.range histogram.length).foldl
    (fun bin i => if histogram.getD bin 0 < histogram.getD i 0 then i else bin) 0

/-- `xm_counts` and `xm_total`, after so many modes have been taken out of the histogram. -/
def xmTotals : ℕ → List ℕ → ℕ × ℕ → ℕ × ℕ
  | 0, _, totals => totals
  | numModes + 1, histogram, (xmCounts, xmTotal) =>
    let bin := nthMaxBin histogram
    let count := histogram.getD bin 0
    xmTotals numModes (histogram.set bin 0)
      (xmCounts + count, (xmTotal + binToMs bin * count % 2 ^ 32) % 2 ^ 32)

def circuitBuildTimesGetXm (cbtnummodes : Option ℤ) (cbt : CircuitBuildTimes) : ℕ :=
  let totals := xmTotals (circuitBuildTimesDefaultNumXmModes cbtnummodes)
    (circuitBuildTimesCreateHistogram cbt) (0, 0)
  if totals.1 = 0 then 0 else totals.2 / totals.1

/-! ### The mean of the modes -/

/-- The most frequent bins, the lower one of two first. -/
def modes (numModes : ℕ) (histogram : List ℕ) : List ℕ :=
  (ranking (histogram.getD · 0) histogram.length).take numModes

/-- The times in some bins. -/
def binsCount (histogram bins : List ℕ) : ℕ := (bins.map (histogram.getD · 0)).sum

/-- The midpoints of the times in some bins, added up. -/
def binsTotal (histogram bins : List ℕ) : ℕ :=
  (bins.map fun bin => binToMs bin * histogram.getD bin 0).sum

/-- The truncated weighted mean of the midpoints of the modes. -/
def modesMean (numModes : ℕ) (histogram : List ℕ) : ℕ :=
  binsTotal histogram (modes numModes histogram) / binsCount histogram (modes numModes histogram)

section Totals
variable {histogram rest order : List ℕ} {numModes xmCounts xmTotal bin : ℕ}

theorem getD_set (h : bin < rest.length) (i : ℕ) :
    (rest.set bin 0).getD i 0 = if bin = i then 0 else rest.getD i 0 := by
  rw [List.getD_eq_getElem?_getD, List.getElem?_set, List.getD_eq_getElem?_getD, if_pos h]
  split
  · rfl
  · rfl

theorem xmTotals_empty (h : ∀ i, rest.getD i 0 = 0) (hlt : xmTotal < 2 ^ 32) :
    xmTotals numModes rest (xmCounts, xmTotal) = (xmCounts, xmTotal) := by
  induction numModes generalizing rest with
  | zero => rfl
  | succ numModes ih =>
    have hset : ∀ i, (rest.set (nthMaxBin rest) 0).getD i 0 = 0 := by
      intro i
      by_cases hin : nthMaxBin rest < rest.length
      · rw [getD_set hin, h, ite_self]
      · rw [List.set_eq_of_length_le (not_lt.mp hin), h]
    rw [xmTotals]
    simp only [h, Nat.mul_zero, Nat.zero_mod, Nat.add_zero, Nat.mod_eq_of_lt hlt]
    exact ih hset

theorem binsCount_cons (bins : List ℕ) :
    binsCount histogram (bin :: bins) = histogram.getD bin 0 + binsCount histogram bins := by
  rfl

theorem binsTotal_cons (bins : List ℕ) : binsTotal histogram (bin :: bins) =
      binToMs bin * histogram.getD bin 0 + binsTotal histogram bins := by
  rfl

theorem bins_empty {bins : List ℕ} (h : ∀ i ∈ bins, histogram.getD i 0 = 0) :
    binsCount histogram bins = 0 ∧ binsTotal histogram bins = 0 := by
  induction bins with
  | nil => exact ⟨rfl, rfl⟩
  | cons bin bins ih =>
    obtain ⟨hbin, hbins⟩ := List.forall_mem_cons.mp h
    rw [binsCount_cons, binsTotal_cons, hbin, (ih hbins).1, (ih hbins).2]
    exact ⟨rfl, rfl⟩

/-- The bins that are left when the first of them is emptied. -/
theorem getD_set_cons (hin : bin < rest.length)
    (hbin : ∀ i ∈ order, Ahead (histogram.getD · 0) bin i)
    (hrest : ∀ i, rest.getD i 0 = if i ∈ bin :: order then histogram.getD i 0 else 0) (i : ℕ) :
    (rest.set bin 0).getD i 0 = if i ∈ order then histogram.getD i 0 else 0 := by
  rw [getD_set hin, hrest]
  by_cases heq : bin = i
  · subst heq
    rw [if_pos rfl, if_neg]
    intro hmem
    have := hbin bin hmem
    unfold Ahead at this
    omega
  · rw [if_neg heq]
    simp [Ne.symm heq]

theorem xmTotals_eq (horder : order.Pairwise (Ahead (histogram.getD · 0)))
    (hlt : ∀ i ∈ order, i < histogram.length) (hlen : rest.length = histogram.length)
    (hrest : ∀ i, rest.getD i 0 = if i ∈ order then histogram.getD i 0 else 0) :
    xmTotals numModes rest (xmCounts, xmTotal % 2 ^ 32) =
      (xmCounts + binsCount histogram (order.take numModes),
        (xmTotal + binsTotal histogram (order.take numModes)) % 2 ^ 32) := by
  induction numModes generalizing rest order xmCounts xmTotal with
  | zero => rfl
  | succ numModes ih =>
    have hnone (h : ∀ i ∈ order, histogram.getD i 0 = 0) :
        xmTotals (numModes + 1) rest (xmCounts, xmTotal % 2 ^ 32) =
          (xmCounts + binsCount histogram (order.take (numModes + 1)),
            (xmTotal + binsTotal histogram (order.take (numModes + 1))) % 2 ^ 32) := by
      have hempty : ∀ i, rest.getD i 0 = 0 := by
        intro i
        rw [hrest]
        split
        · rename_i hmem
          exact h i hmem
        · rfl
      obtain ⟨hcount, htotal⟩ := bins_empty fun i hi =>
        h i (List.mem_of_mem_take (i := numModes + 1) hi)
      rw [xmTotals_empty hempty (Nat.mod_lt _ (by decide)), hcount, htotal]
      rfl
    cases order with
    | nil => exact hnone nofun
    | cons bin order =>
      by_cases hpos : 0 < histogram.getD bin 0
      · obtain ⟨hbin, horder'⟩ := List.pairwise_cons.mp horder
        have hin : bin < rest.length := hlen ▸ hlt bin List.mem_cons_self
        have hmax : nthMaxBin rest = bin := heaviest_cons hin hpos hrest horder
        have hcount : rest.getD bin 0 = histogram.getD bin 0 := by
          rw [hrest, if_pos List.mem_cons_self]
        have hset := getD_set_cons hin hbin hrest
        have hsum : (xmTotal % 2 ^ 32 + binToMs bin * histogram.getD bin 0 % 2 ^ 32) % 2 ^ 32 =
            (xmTotal + binToMs bin * histogram.getD bin 0) % 2 ^ 32 := by
          rw [← Nat.add_mod]
        rw [xmTotals]
        simp only [hmax, hcount, hsum]
        rw [ih horder' (fun i hi => hlt i (List.mem_cons_of_mem _ hi))
          ((List.length_set ..).trans hlen) hset, List.take_succ_cons, binsCount_cons,
          binsTotal_cons, Nat.add_assoc, Nat.add_assoc]
      · refine hnone (List.forall_mem_cons.mpr ⟨by omega, fun i hi => ?_⟩)
        have := ((List.pairwise_cons.mp horder).1 i hi).weight_le
        omega

/-- The start of the curve is the mean of the modes, but for the wrapping of their sum. -/
theorem getXm_eq (cbtnummodes : Option ℤ) (cbt : CircuitBuildTimes) :
    circuitBuildTimesGetXm cbtnummodes cbt =
      binsTotal (circuitBuildTimesCreateHistogram cbt)
          (modes (circuitBuildTimesDefaultNumXmModes cbtnummodes)
            (circuitBuildTimesCreateHistogram cbt)) % 2 ^ 32 /
        binsCount (circuitBuildTimesCreateHistogram cbt)
          (modes (circuitBuildTimesDefaultNumXmModes cbtnummodes)
            (circuitBuildTimesCreateHistogram cbt)) := by
  have hrest : ∀ i, (circuitBuildTimesCreateHistogram cbt).getD i 0 =
      if i ∈ ranking ((circuitBuildTimesCreateHistogram cbt).getD · 0)
          (circuitBuildTimesCreateHistogram cbt).length then
        (circuitBuildTimesCreateHistogram cbt).getD i 0 else 0 := by
    intro i
    split
    · rfl
    · rename_i hout
      have hge : (circuitBuildTimesCreateHistogram cbt).length ≤ i :=
        not_lt.mp fun hlt => hout (mem_ranking.mpr hlt)
      rw [List.getD_eq_getElem?_getD, List.getElem?_eq_none hge]
      rfl
  have htotals : xmTotals (circuitBuildTimesDefaultNumXmModes cbtnummodes)
      (circuitBuildTimesCreateHistogram cbt) (0, 0 % 2 ^ 32) = _ :=
    xmTotals_eq (ranking_pairwise _ _) (fun i hi => mem_ranking.mp hi) rfl hrest
  rw [Nat.zero_mod, Nat.zero_add, Nat.zero_add] at htotals
  rw [circuitBuildTimesGetXm, htotals]
  dsimp only
  split
  · rename_i hzero
    rw [modes, hzero, Nat.div_zero]
  · rfl

end Totals

end TorDaemon.CircuitStats

import TorDaemon.CircuitStats.Xm

/-! A history of build times that is saved and loaded again (`circuit_build_times_update_state`
and `circuit_build_times_parse_state`). -/
namespace TorDaemon.CircuitStats
open Library.NetworkOrder Library.Grouping Library.Ranking SharedRandom

/-- What is meant by a history that survives, with the start of its curve. -/
structure Survives (cbtnummodes : Option ℤ) (cbt : CircuitBuildTimes) (out : Option Parsed) :
    Prop where
  loaded : ∃ p ∈ out, p.ret = 0 ∧ p.cbt.totalBuildTimes = cbt.totalBuildTimes ∧
    abandonedCount p.cbt = abandonedCount cbt ∧
    circuitBuildTimesCreateHistogram p.cbt = circuitBuildTimesCreateHistogram cbt ∧
    circuitBuildTimesGetXm cbtnummodes p.cbt = circuitBuildTimesGetXm cbtnummodes cbt
  mean : circuitBuildTimesGetXm cbtnummodes cbt =
    modesMean (circuitBuildTimesDefaultNumXmModes cbtnummodes)
      (circuitBuildTimesCreateHistogram cbt)

section Lines
variable {room : ℕ}

theorem parseLine_histogramLine {p : ℕ × ℕ} (hms : p.1 ≤ buildTimeMax) (hcount : p.2 < 2 ^ 32) :
    parseLine (histogramLine p) = some p := by
  have hwords : ∀ word ∈ [decimalString p.1, decimalString p.2], IsField word := by
    intro word hword
    rcases List.mem_pair.mp hword with rfl | rfl <;> exact (decimalString_isWord _).isField
  have hms64 : p.1 < 2 ^ 64 := hms.trans_lt (by decide)
  unfold parseLine histogramLine
  rw [splitString_spaced (List.cons_ne_nil _ _) hwords]
  dsimp only
  rw [torParseUint64_decimalString hms64 hms 0 (Nat.zero_le _),
    torParseUint64_decimalString (by omega) (by omega) 0 (Nat.zero_le _)]
  rfl

theorem readLines_histogramLine {pairs : List (ℕ × ℕ)}
    (h : ∀ p ∈ pairs, p.1 ≤ buildTimeMax ∧ p.2 < 2 ^ 32) (hroom : (expand pairs).length ≤ room) :
    readLines room (pairs.map histogramLine) = (pairs, .all) := by
  induction pairs generalizing room with
  | nil => rfl
  | cons p pairs ih =>
    obtain ⟨⟨hms, hcount⟩, hrest⟩ := List.forall_mem_cons.mp h
    rw [expand_cons, List.length_append, List.length_replicate] at hroom
    rw [List.map_cons, readLines, parseLine_histogramLine hms hcount]
    dsimp only
    rw [if_neg (by omega), ih hrest (by omega)]

end Lines

section Saved
variable {cbt : CircuitBuildTimes} {times : List ℕ}

/-- A time in the middle of the bin of another. -/
def midpoint (t : ℕ) : ℕ := binToMs (t / binWidth)

theorem midpoint_spec (t : ℕ) (hmax : t ≤ buildTimeMax) :
    midpoint t / binWidth = t / binWidth ∧ midpoint t ≠ 0 ∧ midpoint t ≠ buildAbandoned ∧
      midpoint t ≤ buildTimeMax := by
  unfold midpoint binToMs binWidth buildAbandoned
  unfold buildTimeMax at hmax ⊢
  omega

theorem le_buildTimeMax (h : WellFormed cbt) : ∀ t ∈ cbt.circuitBuildTimes, t ≤ buildTimeMax := by
  obtain ⟨times, -, htimes, heq⟩ := h.times
  intro t ht
  rw [heq] at ht
  rcases List.mem_append.mp ht with ht | ht
  · exact (htimes t ht).2
  · rw [(List.mem_replicate.mp ht).2]
    exact Nat.zero_le _

theorem expand_savedBins (cbt : CircuitBuildTimes) :
    (expand (savedBins (circuitBuildTimesCreateHistogram cbt))).Perm
      ((counted cbt.circuitBuildTimes).map midpoint) := by
  have hbins : expand (savedBins (circuitBuildTimesCreateHistogram cbt)) =
      (List.range (circuitBuildTimesCreateHistogram cbt).length).flatMap fun bin =>
        List.replicate (binCount cbt.circuitBuildTimes bin) (binToMs bin) := by
    unfold expand savedBins
    generalize List.range (circuitBuildTimesCreateHistogram cbt).length = bins
    induction bins with
    | nil => rfl
    | cons bin bins ih =>
      rw [List.filterMap_cons, List.flatMap_cons, ← ih, createHistogram_getD]
      by_cases hzero : binCount cbt.circuitBuildTimes bin = 0
      · rw [if_pos hzero, hzero]
        rfl
      · rw [if_neg hzero]
        rfl
  have hmidpoints : ∀ bin, List.replicate (binCount cbt.circuitBuildTimes bin) (binToMs bin) =
      ((counted cbt.circuitBuildTimes).filter fun t => t / binWidth = bin).map midpoint := by
    intro bin
    rw [eq_comm, List.eq_replicate_iff]
    constructor
    · rw [List.length_map, binCount, List.countP_eq_length_filter]
    · intro t ht
      obtain ⟨t', ht', rfl⟩ := List.mem_map.mp ht
      rw [midpoint, of_decide_eq_true (List.mem_filter.mp ht').2]
  have hin : ∀ t ∈ counted cbt.circuitBuildTimes,
      t / binWidth ∈ List.range (circuitBuildTimesCreateHistogram cbt).length := by
    intro t ht
    rw [List.mem_range, createHistogram_eq, List.length_map, List.length_range]
    have := div_le_max ht
    omega
  rw [hbins]
  simp only [hmidpoints]
  rw [← List.map_flatMap]
  exact (flatMap_filter_perm List.nodup_range hin).map midpoint

theorem counted_length (h : WellFormed cbt) :
    (counted cbt.circuitBuildTimes).length + abandonedCount cbt = cbt.totalBuildTimes := by
  obtain ⟨times, hlen, htimes, heq⟩ := h.times
  rw [abandonedCount, heq, counted_append, counted_zeros, List.append_nil, List.countP_append,
    List.countP_replicate]
  rw [← hlen, counted, ← List.countP_eq_length_filter, Nat.add_comm,
    List.length_eq_countP_add_countP (p := fun t => decide (t = buildAbandoned))]
  congr 1
  apply List.countP_congr
  intro t ht
  simp [(htimes t ht).1]

theorem savedBins_le (h : WellFormed cbt) : ∀ p ∈ savedBins (circuitBuildTimesCreateHistogram cbt),
      p.1 ≤ buildTimeMax ∧ p.2 < 2 ^ 32 := by
  intro p hp
  obtain ⟨bin, -, hbin⟩ := List.mem_filterMap.mp hp
  rw [createHistogram_getD] at hbin
  split at hbin
  · cases hbin
  · rename_i hne
    cases hbin
    obtain ⟨t, ht, rfl⟩ := binCount_pos.mp (Nat.pos_of_ne_zero hne)
    have hcount : binCount cbt.circuitBuildTimes (t / binWidth) ≤
        (counted cbt.circuitBuildTimes).length := List.countP_le_length ..
    have hlen := counted_length h
    have hle := h.total_le
    have hobserve : ncircuitsToObserve < 2 ^ 32 := by decide
    exact ⟨(midpoint_spec t (le_buildTimeMax h t (List.mem_of_mem_filter ht))).2.2.2, by omega⟩

end Saved

section Loaded
variable {rand : (n : ℕ) → Fin (n + 1)} {times times' : List ℕ}

section
variable (cbt : { cbt // WellFormed cbt })

theorem read_updateState : (circuitBuildTimesUpdateState cbt).read =
      (savedBins (circuitBuildTimesCreateHistogram cbt.val), .all) := by
  refine readLines_histogramLine (savedBins_le cbt.property) ?_
  have hlen := counted_length cbt.property
  have hexpand := (expand_savedBins cbt.val).length_eq
  rw [List.length_map] at hexpand
  have htotal : (circuitBuildTimesUpdateState cbt).totalBuildTimes = cbt.val.totalBuildTimes := rfl
  have habandoned : (circuitBuildTimesUpdateState cbt).circuitBuildAbandonedCount =
      abandonedCount cbt.val := rfl
  omega

theorem loaded_updateState : (circuitBuildTimesUpdateState cbt).loaded.Perm
      ((counted cbt.val.circuitBuildTimes).map midpoint ++
        List.replicate (abandonedCount cbt.val) buildAbandoned) := by
  rw [OrState.loaded, read_updateState]
  exact (expand_savedBins cbt.val).append_right _

theorem loaded_length :
    (circuitBuildTimesUpdateState cbt).loaded.length = cbt.val.totalBuildTimes := by
  rw [(loaded_updateState cbt).length_eq, List.length_append, List.length_map,
    List.length_replicate, counted_length cbt.property]

theorem loaded_ne_zero : ∀ t ∈ (circuitBuildTimesUpdateState cbt).loaded, t ≠ 0 := by
  intro t ht
  rcases List.mem_append.mp ((loaded_updateState cbt).mem_iff.mp ht) with ht | ht
  · obtain ⟨t', ht', rfl⟩ := List.mem_map.mp ht
    have hle := le_buildTimeMax cbt.property t' (List.mem_of_mem_filter ht')
    exact (midpoint_spec t' hle).2.1
  · rw [(List.mem_replicate.mp ht).2]
    decide

end

section
variable (rand : (n : ℕ) → Fin (n + 1))

section
variable (cbt : { cbt // WellFormed cbt })

/-- All of the times that were saved are stored, in the order of the shuffle. -/
theorem parseState_updateState :
    circuitBuildTimesParseState false rand (circuitBuildTimesUpdateState cbt) =
      some ⟨0, holding (shuffledTimes rand (circuitBuildTimesUpdateState cbt).loaded),
        (circuitBuildTimesUpdateState cbt).loaded⟩ := by
  have hcounted := counted_length cbt.property
  have htotal : (circuitBuildTimesUpdateState cbt).totalBuildTimes = cbt.val.totalBuildTimes := rfl
  have habandoned : (circuitBuildTimesUpdateState cbt).circuitBuildAbandonedCount =
      abandonedCount cbt.val := rfl
  have hperm := shuffledTimes_perm rand (circuitBuildTimesUpdateState cbt).loaded
  have hlen : (shuffledTimes rand (circuitBuildTimesUpdateState cbt).loaded).length ≤
      ncircuitsToObserve := by
    rw [hperm.length_eq, loaded_length]
    exact cbt.property.total_le
  have hne : ∀ t ∈ shuffledTimes rand (circuitBuildTimesUpdateState cbt).loaded, t ≠ 0 :=
    fun t ht => loaded_ne_zero cbt t (hperm.mem_iff.mp ht)
  rw [parseState_eq rand rfl (by omega), read_updateState, if_neg (by simp [Ending.wraps]; omega),
    storeLoaded_eq loaded_le ((loaded_length cbt).trans htotal.symm), List.take_of_length_le hlen,
    List.filter_eq_self.mpr (by simpa using hne)]
  rfl

theorem binCount_perm (h : times.Perm times') (bin : ℕ) :
    binCount times bin = binCount times' bin := (h.filter _).countP_eq _

theorem binCount_append (times times' : List ℕ) (bin : ℕ) :
    binCount (times ++ times') bin = binCount times bin + binCount times' bin := by
  rw [binCount, counted_append, List.countP_append]
  rfl

theorem binCount_holding (times : List ℕ) (bin : ℕ) :
    binCount (holding times).circuitBuildTimes bin = binCount times bin := by
  rw [holding, binCount, counted_append, counted_zeros, List.append_nil]
  rfl

theorem binCount_midpoints (hmax : ∀ t ∈ times, t ≤ buildTimeMax) (bin : ℕ) :
    binCount ((counted times).map midpoint) bin = binCount times bin := by
  have hall : counted ((counted times).map midpoint) = (counted times).map midpoint := by
    refine List.filter_eq_self.mpr fun t ht => ?_
    obtain ⟨t', ht', rfl⟩ := List.mem_map.mp ht
    obtain ⟨-, hzero, habandoned, -⟩ := midpoint_spec t' (hmax t' (List.mem_of_mem_filter ht'))
    exact decide_eq_true ⟨hzero, habandoned⟩
  rw [binCount, hall, List.countP_map, binCount]
  apply List.countP_congr
  intro t ht
  rw [Function.comp_apply, (midpoint_spec t (hmax t (List.mem_of_mem_filter ht))).1]

theorem binCount_abandoned (n bin : ℕ) : binCount (List.replicate n buildAbandoned) bin = 0 := by
  simp [binCount, counted]

theorem binCount_loaded (bin : ℕ) : binCount (holding (shuffledTimes rand
      (circuitBuildTimesUpdateState cbt).loaded)).circuitBuildTimes bin =
        binCount cbt.val.circuitBuildTimes bin := by
  rw [binCount_holding,
    binCount_perm ((shuffledTimes_perm rand _).trans (loaded_updateState cbt)), binCount_append,
    binCount_midpoints (le_buildTimeMax cbt.property), binCount_abandoned, Nat.add_zero]

theorem abandonedCount_loaded :
    abandonedCount (holding (shuffledTimes rand (circuitBuildTimesUpdateState cbt).loaded)) =
      abandonedCount cbt.val := by
  have hmidpoints : ((counted cbt.val.circuitBuildTimes).map midpoint).countP
      (fun t => decide (t = buildAbandoned)) = 0 := by
    refine List.countP_eq_zero.mpr fun t ht => ?_
    obtain ⟨t', ht', rfl⟩ := List.mem_map.mp ht
    have hle := le_buildTimeMax cbt.property t' (List.mem_of_mem_filter ht')
    simpa using (midpoint_spec t' hle).2.2.1
  have hzeros (n : ℕ) : (List.replicate n 0).countP (fun t => decide (t = buildAbandoned)) = 0 := by
    rw [List.countP_replicate]
    rfl
  rw [abandonedCount, holding, List.countP_append, hzeros,
    ((shuffledTimes_perm rand _).trans (loaded_updateState cbt)).countP_eq, List.countP_append,
    hmidpoints, List.countP_replicate]
  simp

end

end

end Loaded

section Survival
variable {cbtnummodes : Option ℤ} {histogram bins : List ℕ}

section
variable (cbtnummodes : Option ℤ)

theorem numXmModes_le : circuitBuildTimesDefaultNumXmModes cbtnummodes ≤ 20 := by
  simp only [circuitBuildTimesDefaultNumXmModes, Padding.Machine.networkstatusGetParam]
  split_ifs <;> omega

theorem binsCount_le (cbt : { cbt // WellFormed cbt }) :
    binsCount (circuitBuildTimesCreateHistogram cbt.val)
      (modes (circuitBuildTimesDefaultNumXmModes cbtnummodes)
        (circuitBuildTimesCreateHistogram cbt.val)) ≤ 20 * ncircuitsToObserve := by
  have hbin : ∀ count ∈ (modes (circuitBuildTimesDefaultNumXmModes cbtnummodes)
      (circuitBuildTimesCreateHistogram cbt.val)).map
        ((circuitBuildTimesCreateHistogram cbt.val).getD · 0), count ≤ ncircuitsToObserve := by
    intro count hcount
    obtain ⟨bin, -, rfl⟩ := List.mem_map.mp hcount
    rw [createHistogram_getD]
    have hle : binCount cbt.val.circuitBuildTimes bin ≤
        (counted cbt.val.circuitBuildTimes).length := List.countP_le_length ..
    have hlen := counted_length cbt.property
    have htotal := cbt.property.total_le
    omega
  refine (List.sum_le_card_nsmul _ _ hbin).trans ?_
  rw [List.length_map]
  exact Nat.mul_le_mul_right _ ((List.length_take_le ..).trans (numXmModes_le cbtnummodes))

theorem binsTotal_eq_zero (h : binsCount histogram bins = 0) : binsTotal histogram bins = 0 := by
  refine (bins_empty fun bin hbin => ?_).2
  exact List.sum_eq_zero_iff.mp h _ (List.mem_map_of_mem hbin)

/-- The sum wraps around where it is not below the bound, and then the mean is not right. -/
theorem getXm_eq_modesMean_iff (cbt : { cbt // WellFormed cbt }) :
    circuitBuildTimesGetXm cbtnummodes cbt.val =
        modesMean (circuitBuildTimesDefaultNumXmModes cbtnummodes)
          (circuitBuildTimesCreateHistogram cbt.val) ↔
      binsTotal (circuitBuildTimesCreateHistogram cbt.val)
        (modes (circuitBuildTimesDefaultNumXmModes cbtnummodes)
          (circuitBuildTimesCreateHistogram cbt.val)) < 2 ^ 32 := by
  have hle := binsCount_le cbtnummodes cbt
  rw [getXm_eq, modesMean]
  generalize circuitBuildTimesCreateHistogram cbt.val = histogram at hle ⊢
  generalize modes _ _ = bins at hle ⊢
  have hzero : binsCount histogram bins = 0 → binsTotal histogram bins = 0 := binsTotal_eq_zero
  generalize binsCount _ _ = count at hle hzero ⊢
  generalize binsTotal _ _ = total at hzero ⊢
  constructor
  · intro heq
    by_contra hge
    have hcount : 0 < count := Nat.pos_of_ne_zero fun h => hge (by rw [hzero h]; decide)
    have hobserve : 20 * ncircuitsToObserve ≤ 2 ^ 32 := by decide
    have hmod : total % 2 ^ 32 + count ≤ total := by omega
    have hdiv := Nat.div_le_div_right (c := count) hmod
    rw [Nat.add_div_right _ hcount] at hdiv
    omega
  · intro hlt
    rw [Nat.mod_eq_of_lt hlt]

end

theorem WellFormed.eq_init {cbt : CircuitBuildTimes} (h : WellFormed cbt)
    (hzero : cbt.totalBuildTimes = 0) : cbt = circuitBuildTimesInit := by
  obtain ⟨times, hlen, -, heq⟩ := h.times
  have hidx := h.idx_eq (hzero.trans_lt (by decide))
  obtain rfl : times = [] := List.length_eq_zero_iff.mp (hlen.trans hzero)
  obtain ⟨circuitBuildTimes, buildTimesIdx, totalBuildTimes⟩ := cbt
  dsimp only at heq hidx hzero
  rw [heq, hidx, hzero]
  rfl

/-- A history survives, whatever the shuffle, exactly where learning is not disabled with times
in the history and the midpoints of the modes, each as often as it was seen, add up to a number
of 32 bits. -/
theorem history_survives_iff (disabled : Bool) (cbtnummodes : Option ℤ) (times : List ℕ) :
    (∀ rand, Survives cbtnummodes (history times).val
      (circuitBuildTimesParseState disabled rand
        (circuitBuildTimesUpdateState (history times)))) ↔
      (disabled = true → (history times).val.totalBuildTimes = 0) ∧
        binsTotal (circuitBuildTimesCreateHistogram (history times).val)
          (modes (circuitBuildTimesDefaultNumXmModes cbtnummodes)
            (circuitBuildTimesCreateHistogram (history times).val)) < 2 ^ 32 := by
  rw [← getXm_eq_modesMean_iff]
  constructor
  · intro h
    obtain ⟨p, hp, -, htotal, -⟩ := (h fun _ => 0).loaded
    refine ⟨fun hdisabled => ?_, (h fun _ => 0).mean⟩
    rw [hdisabled] at hp
    cases hp
    exact htotal.symm
  · rintro ⟨hdisabled, hmean⟩ rand
    refine ⟨?_, hmean⟩
    cases disabled with
    | true =>
      have hinit := (history times).property.eq_init (hdisabled rfl)
      rw [hinit]
      exact ⟨_, rfl, rfl, rfl, rfl, rfl, rfl⟩
    | false =>
      have hhistogram := createHistogram_congr (binCount_loaded rand (history times))
      exact ⟨_, parseState_updateState rand (history times), rfl,
        (shuffledTimes_perm ..).length_eq.trans (loaded_length (history times)),
        abandonedCount_loaded rand (history times), hhistogram, by
        rw [circuitBuildTimesGetXm, circuitBuildTimesGetXm, hhistogram]⟩

/-- The highest time, three times. -/
def threeHighest : List ℕ := [buildTimeMax, buildTimeMax, buildTimeMax]

theorem history_threeHighest : (history threeHighest).val = holding threeHighest := by
  have hfold : threeHighest.foldl circuitBuildTimesAddTime (holding []) =
      holding ([] ++ threeHighest.filter (· ≠ 0)) := foldl_addTime (by decide) (by decide)
  exact hfold

theorem binCount_threeHighest (bin : ℕ) :
    binCount (history threeHighest).val.circuitBuildTimes bin =
      if bin = buildTimeMax / binWidth then 3 else 0 := by
  have hvalid : ¬(buildTimeMax = 0 ∨ buildTimeMax = buildAbandoned) := by decide
  rw [history_threeHighest, binCount_holding, threeHighest]
  simp only [binCount_cons, if_neg hvalid, eq_comm (a := bin)]
  split <;> rfl

/-- The sum of three of the highest times wraps around. -/
theorem history_threeHighest_lost : ¬∀ rand, Survives none (history threeHighest).val
      (circuitBuildTimesParseState false rand
        (circuitBuildTimesUpdateState (history threeHighest))) := by
  intro h
  have hlt := (getXm_eq_modesMean_iff none (history threeHighest)).mp (h fun _ => 0).mean
  have hcount (bin : ℕ) := (createHistogram_getD _ bin).trans (binCount_threeHighest bin)
  have hbin : buildTimeMax / binWidth <
      (circuitBuildTimesCreateHistogram (history threeHighest).val).length := by
    by_contra hge
    have hthree := hcount (buildTimeMax / binWidth)
    rw [List.getD_eq_getElem?_getD, List.getElem?_eq_none (not_lt.mp hge), if_pos rfl] at hthree
    cases hthree
  obtain ⟨rest, hranking⟩ := exists_ranking_cons
    (w := ((circuitBuildTimesCreateHistogram (history threeHighest).val).getD · 0)) hbin
    fun bin hne => by
      rw [hcount, hcount, if_neg hne, if_pos rfl]
      decide
  have hmodes : circuitBuildTimesDefaultNumXmModes none = 9 + 1 := rfl
  rw [modes, hranking, hmodes, List.take_succ_cons, binsTotal_cons, hcount, if_pos rfl] at hlt
  have hsum : 2 ^ 32 ≤ binToMs (buildTimeMax / binWidth) * 3 := by decide
  omega

end Survival

end TorDaemon.CircuitStats

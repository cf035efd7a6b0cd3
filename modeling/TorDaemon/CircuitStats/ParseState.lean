import TorDaemon.Library.Shuffling
import TorDaemon.SharedRandom.DiskRoundTrip

/-! The history of circuit build times, and how it is written to the state file and read from
it (`circuitstats.c`). Whether learning is disabled is an input. A write past the end of an
array is `none`. -/
namespace TorDaemon.CircuitStats
open Library.NetworkOrder Library.Shuffling SharedRandom

/-- `CBT_NCIRCUITS_TO_OBSERVE` -/
def ncircuitsToObserve : ℕ := 1000

/-- `CBT_BUILD_ABANDONED` -/
def buildAbandoned : ℕ := 2147483646

/-- `CBT_BUILD_TIME_MAX` -/
def buildTimeMax : ℕ := 2147483647

/-- `CBT_BIN_WIDTH` -/
def binWidth : ℕ := 10

/-- `CBT_BIN_TO_MS` -/
def binToMs (bin : ℕ) : ℕ := bin * binWidth + binWidth / 2

/-- The history in `circuit_build_times_t`. -/
structure CircuitBuildTimes where
  circuitBuildTimes : List ℕ
  buildTimesIdx : ℕ
  totalBuildTimes : ℕ
  deriving DecidableEq

/-- `circuit_build_times_init` and `circuit_build_times_reset`. -/
def circuitBuildTimesInit : CircuitBuildTimes := ⟨List.replicate ncircuitsToObserve 0, 0, 0⟩

/-- The part of `or_state_t` that the history is kept in; the numbers are ints. -/
structure OrState where
  totalBuildTimes : ℕ
  circuitBuildAbandonedCount : ℕ
  buildtimeHistogram : List Bytes
  total_lt : totalBuildTimes < 2 ^ 31
  abandoned_lt : circuitBuildAbandonedCount < 2 ^ 31

def circuitBuildTimesAddTime (cbt : CircuitBuildTimes) (btime : ℕ) : CircuitBuildTimes :=
  if btime = 0 ∨ buildTimeMax < btime then cbt
  else
    { circuitBuildTimes := cbt.circuitBuildTimes.set cbt.buildTimesIdx btime
      buildTimesIdx := (cbt.buildTimesIdx + 1) % ncircuitsToObserve
      totalBuildTimes :=
        if cbt.totalBuildTimes < ncircuitsToObserve then cbt.totalBuildTimes + 1
        else cbt.totalBuildTimes }

/-! ### Loading -/

/-- The milliseconds and the count of a line of the histogram. -/
def parseLine (line : Bytes) : Option (ℕ × ℕ) :=
  match splitString line with
  | msStr :: countStr :: _ =>
    (torParseUint64 msStr 0 buildTimeMax).bind fun ms =>
      (torParseUint64 countStr 0 4294967295).map fun count => (ms, count)
  | _ => none

/-- The loop over the lines, with what has been written to `loaded_times`: whether there was an
error, and what has been written then. -/
def loadLines (totalBuildTimes abandonedCount : ℕ) : List ℕ → List Bytes → Option (Bool × List ℕ)
  | loaded, [] => some (false, loaded)
  | loaded, line :: lines =>
    match parseLine line with
    | none => some (true, loaded)
    | some (ms, count) =>
      -- the sum is one of 32 bits
      if totalBuildTimes < (loaded.length + count + abandonedCount) % 2 ^ 32 then
        some (false, loaded)
      else if totalBuildTimes < loaded.length + count then none
      else loadLines totalBuildTimes abandonedCount (loaded ++ List.replicate count ms) lines

def circuitBuildTimesShuffleAndStoreArray (rand : (n : ℕ) → Fin (n + 1))
    (cbt : CircuitBuildTimes) (rawTimes : List ℕ) : CircuitBuildTimes :=
  let n := min rawTimes.length (2 ^ 31 - 2)
  ((shuffle rand (n - 1) rawTimes).take ncircuitsToObserve).foldl circuitBuildTimesAddTime cbt

/-- What `circuit_build_times_parse_state` returns, and leaves. -/
structure Parsed where
  ret : ℤ
  cbt : CircuitBuildTimes
  loadedTimes : List ℕ
  deriving DecidableEq

/-- The last part, with all of the loaded times. -/
def storeLoaded (rand : (n : ℕ) → Fin (n + 1)) (totalBuildTimes : ℕ) (err : Bool)
    (loaded : List ℕ) : Parsed :=
  if loaded.length ≠ totalBuildTimes then ⟨-1, circuitBuildTimesInit, loaded⟩
  else
    let cbt := circuitBuildTimesShuffleAndStoreArray rand circuitBuildTimesInit loaded
    let totValues := (cbt.circuitBuildTimes.takeWhile (· ≠ 0)).length
    if cbt.totalBuildTimes ≠ totValues ∨ ncircuitsToObserve < cbt.totalBuildTimes then
      ⟨-1, circuitBuildTimesInit, loaded⟩
    else ⟨if err then -1 else 0, cbt, loaded⟩

def circuitBuildTimesParseState (disabled : Bool) (rand : (n : ℕ) → Fin (n + 1))
    (state : OrState) : Option Parsed :=
  if disabled then some ⟨0, circuitBuildTimesInit, []⟩
  else if state.totalBuildTimes = 0 ∧ 0 < state.circuitBuildAbandonedCount then
    some ⟨-1, circuitBuildTimesInit, []⟩
  else
    match loadLines state.totalBuildTimes state.circuitBuildAbandonedCount []
        state.buildtimeHistogram with
    | none => none
    | some (err, loaded) =>
      if state.totalBuildTimes < loaded.length + state.circuitBuildAbandonedCount then none
      else
        some (storeLoaded rand state.totalBuildTimes err
          (loaded ++ List.replicate state.circuitBuildAbandonedCount buildAbandoned))

/-! ### What is stored -/

/-- A history that holds the times from its first place on. -/
def holding (times : List ℕ) : CircuitBuildTimes :=
  ⟨times ++ List.replicate (ncircuitsToObserve - times.length) 0,
    times.length % ncircuitsToObserve, times.length⟩

section Store
variable {times rawTimes : List ℕ} {t : ℕ}

theorem addTime_holding (hlen : times.length < ncircuitsToObserve) (hpos : t ≠ 0)
    (hmax : t ≤ buildTimeMax) :
    circuitBuildTimesAddTime (holding times) t = holding (times ++ [t]) := by
  have hidx : times.length % ncircuitsToObserve = times.length := Nat.mod_eq_of_lt hlen
  obtain ⟨k, hk⟩ : ∃ k, ncircuitsToObserve - times.length = k + 1 :=
    ⟨ncircuitsToObserve - times.length - 1, by omega⟩
  have hk' : ncircuitsToObserve - (times.length + 1) = k := by omega
  rw [circuitBuildTimesAddTime, if_neg (by omega)]
  simp only [holding, hidx, hk, hk', List.length_append, List.length_singleton, if_pos hlen,
    CircuitBuildTimes.mk.injEq, and_true]
  rw [List.set_append_right _ _ le_rfl, Nat.sub_self, List.replicate_succ, List.set_cons_zero,
    List.append_assoc, List.singleton_append]

/-- Of the times that are stored, those of zero are left out. -/
theorem foldl_addTime (hlen : times.length + rawTimes.length ≤ ncircuitsToObserve)
    (hmax : ∀ t ∈ rawTimes, t ≤ buildTimeMax) :
    rawTimes.foldl circuitBuildTimesAddTime (holding times) =
      holding (times ++ rawTimes.filter (· ≠ 0)) := by
  induction rawTimes generalizing times with
  | nil => simp
  | cons t rawTimes ih =>
    obtain ⟨ht, hrest⟩ := List.forall_mem_cons.mp hmax
    rw [List.length_cons] at hlen
    rw [List.foldl_cons]
    by_cases hpos : t = 0
    · subst hpos
      have hlen' : times.length + rawTimes.length ≤ ncircuitsToObserve := by omega
      rw [circuitBuildTimesAddTime, if_pos (.inl rfl), ih hlen' hrest]
      simp
    · have hlen' : (times ++ [t]).length + rawTimes.length ≤ ncircuitsToObserve := by
        rw [List.length_append, List.length_singleton]
        omega
      rw [addTime_holding (by omega) hpos ht, ih hlen' hrest]
      simp [hpos]

end Store

/-! When the build times in a state file are loaded within the bounds of the array that they are
written to, and all of them are stored (`circuit_build_times_parse_state`). -/

/-- What is meant by a state that has been loaded. -/
structure LoadsRight (state : OrState) (out : Option Parsed) : Prop where
  inBounds : out ≠ none
  /-- All of the times were loaded, and those that the history has room for are stored. -/
  loaded : ∀ p ∈ out, p.ret = 0 → p.loadedTimes.length = state.totalBuildTimes ∧
    ∃ times : List ℕ, times.Perm p.loadedTimes ∧ p.cbt = holding (times.take ncircuitsToObserve)
  error : ∀ p ∈ out, p.ret ≠ 0 →
    p.cbt.totalBuildTimes = (p.cbt.circuitBuildTimes.filter (· ≠ 0)).length

/-- Where the reading of the lines ends. -/
inductive Ending
  | all
  | unparsable
  | tooMany (count : ℕ)
  deriving DecidableEq

/-- The lines up to the first that cannot be read or has more times than there is room for. -/
def readLines : ℕ → List Bytes → List (ℕ × ℕ) × Ending
  | _, [] => ([], .all)
  | room, line :: lines =>
    match parseLine line with
    | none => ([], .unparsable)
    | some (ms, count) =>
      if room < count then ([], .tooMany count)
      else ((ms, count) :: (readLines (room - count) lines).1, (readLines (room - count) lines).2)

/-- The sum that a line is refused for wraps around to one that is let through. -/
def Ending.wraps (total used abandoned : ℕ) : Ending → Bool
  | .tooMany count => (used + count + abandoned) % 2 ^ 32 ≤ total
  | _ => false

/-- The times that the lines stand for. -/
def expand (pairs : List (ℕ × ℕ)) : List ℕ := pairs.flatMap fun p => List.replicate p.2 p.1

/-- The lines of a state, read into the room that the abandoned circuits leave. -/
def OrState.read (state : OrState) : List (ℕ × ℕ) × Ending :=
  readLines (state.totalBuildTimes - state.circuitBuildAbandonedCount) state.buildtimeHistogram

/-- The states whose times are loaded within bounds and stored. -/
structure Loadable (disabled : Bool) (state : OrState) : Prop where
  enabled : disabled = false
  abandoned_le : state.circuitBuildAbandonedCount ≤ state.totalBuildTimes
  noWrap : state.read.2.wraps state.totalBuildTimes (expand state.read.1).length
    state.circuitBuildAbandonedCount = false
  /-- Where all is loaded, no time that is shuffled is zero. -/
  noZero : state.read.2 ≠ .unparsable →
    (expand state.read.1).length + state.circuitBuildAbandonedCount = state.totalBuildTimes →
    0 ∉ (expand state.read.1).take (2 ^ 31 - 2)

section Lines
variable {total abandoned room : ℕ} {loaded : List ℕ} {lines : List Bytes}

theorem torParseUint64_le {s : Bytes} {low high v : ℕ}
    (h : SharedRandom.torParseUint64 s low high = some v) : v ≤ high := by
  obtain ⟨⟨negative, n⟩, -, hn⟩ := Option.bind_eq_some_iff.mp h
  dsimp only at hn
  split_ifs at hn <;> cases hn <;> omega

theorem parseLine_le {line : Bytes} {ms count : ℕ} (h : parseLine line = some (ms, count)) :
    ms ≤ buildTimeMax ∧ count < 2 ^ 32 := by
  unfold parseLine at h
  split at h
  · obtain ⟨ms', hms, h⟩ := Option.bind_eq_some_iff.mp h
    obtain ⟨count', hcount, heq⟩ := Option.map_eq_some_iff.mp h
    cases heq
    have := torParseUint64_le hcount
    exact ⟨torParseUint64_le hms, by omega⟩
  · cases h

theorem readLines_le : ∀ p ∈ (readLines room lines).1, p.1 ≤ buildTimeMax := by
  fun_induction readLines room lines with
  | case1 => nofun
  | case2 => nofun
  | case3 => nofun
  | case4 room line lines ms count hline hle ih =>
    exact List.forall_mem_cons.mpr ⟨(parseLine_le hline).1, ih⟩

theorem expand_le {pairs : List (ℕ × ℕ)} (h : ∀ p ∈ pairs, p.1 ≤ buildTimeMax) :
    ∀ t ∈ expand pairs, t ≤ buildTimeMax := by
  intro t ht
  obtain ⟨p, hp, ht⟩ := List.mem_flatMap.mp ht
  rw [(List.mem_replicate.mp ht).2]
  exact h p hp

theorem expand_cons (ms count : ℕ) (pairs : List (ℕ × ℕ)) :
    expand ((ms, count) :: pairs) = List.replicate count ms ++ expand pairs := rfl

theorem loadLines_eq (lines : List Bytes) (htotal : total < 2 ^ 31)
    (habandoned : abandoned < 2 ^ 31) (hroom : loaded.length + abandoned + room = total) :
    loadLines total abandoned loaded lines =
      if (readLines room lines).2.wraps total
          (loaded.length + (expand (readLines room lines).1).length) abandoned then none
      else some (decide ((readLines room lines).2 = .unparsable),
        loaded ++ expand (readLines room lines).1) := by
  induction lines generalizing loaded room with
  | nil => simp [loadLines, readLines, Ending.wraps, expand]
  | cons line lines ih =>
    cases hline : parseLine line with
    | none => simp [loadLines, readLines, hline, Ending.wraps, expand]
    | some p =>
      obtain ⟨ms, count⟩ := p
      simp only [loadLines, readLines, hline]
      by_cases hle : room < count
      · simp only [if_pos hle, Ending.wraps, expand, List.flatMap_nil, List.length_nil,
          Nat.add_zero, List.append_nil, decide_eq_true_eq]
        by_cases hwrap : (loaded.length + count + abandoned) % 2 ^ 32 ≤ total
        · rw [if_neg (by omega), if_pos (by omega), if_pos hwrap]
        · rw [if_pos (by omega), if_neg hwrap]
          simp
      · rw [if_neg (by omega), if_neg (by omega)]
        simp only [if_neg hle, expand_cons]
        have hroom' : (loaded ++ List.replicate count ms).length + abandoned + (room - count) =
            total := by
          rw [List.length_append, List.length_replicate]
          omega
        rw [ih hroom']
        simp [Nat.add_assoc]

/-- Where the abandoned circuits are too many, no line is let through. -/
theorem loadLines_of_lt (lines : List Bytes) (htotal : total < 2 ^ 31)
    (habandoned : abandoned < 2 ^ 31) (hlt : total < abandoned) :
    ∀ p ∈ loadLines total abandoned [] lines, p.2 = [] := by
  intro p hp
  cases lines with
  | nil =>
    cases hp
    rfl
  | cons line lines =>
    rw [loadLines] at hp
    cases hline : parseLine line with
    | none =>
      rw [hline] at hp
      cases hp
      rfl
    | some q =>
      rw [hline] at hp
      simp only [List.length_nil, Nat.zero_add] at hp
      split_ifs at hp with hmany hover
      · cases hp
        rfl
      · cases hp
      · omega

end Lines

section Stored
variable {rand : (n : ℕ) → Fin (n + 1)} {total : ℕ} {err : Bool} {loaded : List ℕ}

/-- The times that end up in the history. -/
def shuffledTimes (rand : (n : ℕ) → Fin (n + 1)) (loaded : List ℕ) : List ℕ :=
  shuffle rand (min loaded.length (2 ^ 31 - 2) - 1) loaded

theorem shuffledTimes_perm (rand : (n : ℕ) → Fin (n + 1)) (loaded : List ℕ) :
    (shuffledTimes rand loaded).Perm loaded := shuffle_perm

theorem storeArray_eq (hmax : ∀ t ∈ loaded, t ≤ buildTimeMax) :
    circuitBuildTimesShuffleAndStoreArray rand circuitBuildTimesInit loaded =
      holding (((shuffledTimes rand loaded).take ncircuitsToObserve).filter (· ≠ 0)) := by
  have hle : ([] : List ℕ).length + ((shuffledTimes rand loaded).take ncircuitsToObserve).length ≤
      ncircuitsToObserve := by
    rw [List.length_nil, List.length_take]
    omega
  exact foldl_addTime hle fun t ht =>
    hmax t ((shuffledTimes_perm ..).mem_iff.mp (List.mem_of_mem_take ht))

theorem takeWhile_holding {times : List ℕ} (h : ∀ t ∈ times, t ≠ 0) :
    (holding times).circuitBuildTimes.takeWhile (· ≠ 0) = times := by
  rw [holding, List.takeWhile_append_of_pos (by simpa using h)]
  cases ncircuitsToObserve - times.length <;> simp [List.replicate_succ]

theorem filter_holding {times : List ℕ} (h : ∀ t ∈ times, t ≠ 0) :
    (holding times).circuitBuildTimes.filter (· ≠ 0) = times := by
  rw [holding, List.filter_append, List.filter_eq_self.mpr (by simpa using h)]
  simp

/-- The nonzero times are stored, and the check of the history does not fail. -/
theorem storeLoaded_eq (hmax : ∀ t ∈ loaded, t ≤ buildTimeMax) (hlen : loaded.length = total) :
    storeLoaded rand total err loaded =
      ⟨if err then -1 else 0,
        holding (((shuffledTimes rand loaded).take ncircuitsToObserve).filter (· ≠ 0)),
        loaded⟩ := by
  have hne : ∀ t ∈ ((shuffledTimes rand loaded).take ncircuitsToObserve).filter (· ≠ 0),
      t ≠ 0 := fun t ht => by simpa using (List.mem_filter.mp ht).2
  have hle : (((shuffledTimes rand loaded).take ncircuitsToObserve).filter (· ≠ 0)).length ≤
      ncircuitsToObserve :=
    (List.length_filter_le _ _).trans (by rw [List.length_take]; exact min_le_left _ _)
  rw [storeLoaded, if_neg (by simpa using hlen), storeArray_eq hmax]
  simp only [takeWhile_holding hne]
  rw [if_neg]
  simp only [holding, not_or, not_not, not_lt]
  exact ⟨trivial, hle⟩

theorem zero_notMem_shuffledTimes (rand : (n : ℕ) → Fin (n + 1))
    (h : 0 ∉ loaded.take (2 ^ 31 - 2)) :
    0 ∉ (shuffledTimes rand loaded).take ncircuitsToObserve := by
  intro hmem
  by_cases hlong : loaded.length ≤ 2 ^ 31 - 2
  · rw [List.take_of_length_le hlong] at h
    exact h ((shuffledTimes_perm ..).mem_iff.mp (List.mem_of_mem_take hmem))
  · have hmin : min loaded.length (2 ^ 31 - 2) = 2 ^ 31 - 2 := by omega
    have hperm : ((shuffledTimes rand loaded).take (2 ^ 31 - 2)).Perm
        (loaded.take (2 ^ 31 - 2)) := by
      exact shuffle_take_perm (by omega)
    have htake : (shuffledTimes rand loaded).take ncircuitsToObserve =
        ((shuffledTimes rand loaded).take (2 ^ 31 - 2)).take ncircuitsToObserve := by
      rw [List.take_take, min_eq_left (by decide)]
    rw [htake] at hmem
    exact h (hperm.mem_iff.mp (List.mem_of_mem_take hmem))

/-- A zero among those that are shuffled may be left out of the history. -/
theorem exists_rand_lost (h : 0 ∈ loaded.take (2 ^ 31 - 2)) :
    ∃ rand, (((shuffledTimes rand loaded).take ncircuitsToObserve).filter (· ≠ 0)).length <
      min ncircuitsToObserve loaded.length := by
  obtain ⟨j, hj, hzero⟩ := List.mem_take_iff_getElem.mp h
  obtain ⟨rand, hrand⟩ := exists_shuffle_head (l := loaded)
    (show j ≤ min loaded.length (2 ^ 31 - 2) - 1 by omega) (by omega)
  have hget : loaded[j]? = some 0 := List.getElem?_eq_some_iff.mpr ⟨_, hzero⟩
  rw [hget] at hrand
  refine ⟨rand, ?_⟩
  have hlen := (shuffledTimes_perm rand loaded).length_eq
  unfold shuffledTimes at hlen ⊢
  cases hshuffled : shuffle rand (min loaded.length (2 ^ 31 - 2) - 1) loaded with
  | nil =>
    rw [hshuffled] at hrand
    cases hrand
  | cons t rest =>
    rw [hshuffled] at hrand hlen
    obtain rfl : t = 0 := by simpa using hrand
    have hfilter := List.length_filter_le (· ≠ 0) (rest.take 999)
    have htake := List.length_take (l := rest) (i := 999)
    have hn : ncircuitsToObserve = 999 + 1 := rfl
    rw [List.length_cons] at hlen
    rw [hn, List.take_succ_cons, List.filter_cons_of_neg (by simp)]
    omega

end Stored

section Load
variable {disabled : Bool} {state : OrState} {rand : (n : ℕ) → Fin (n + 1)}

theorem init_error : circuitBuildTimesInit.totalBuildTimes =
      (circuitBuildTimesInit.circuitBuildTimes.filter (· ≠ 0)).length :=
  congrArg List.length (filter_holding (show ∀ t ∈ ([] : List ℕ), t ≠ 0 from nofun)).symm

/-- The last part is right, unless a zero may be left out. -/
theorem storeLoaded_right {err : Bool} {loaded : List ℕ} (hmax : ∀ t ∈ loaded, t ≤ buildTimeMax)
    (hzero : err = false → loaded.length = state.totalBuildTimes →
      0 ∉ loaded.take (2 ^ 31 - 2)) :
    LoadsRight state (some (storeLoaded rand state.totalBuildTimes err loaded)) := by
  by_cases hlen : loaded.length = state.totalBuildTimes
  · rw [storeLoaded_eq hmax hlen]
    refine ⟨nofun, ?_, ?_⟩
    · rintro p ⟨⟩ hret
      refine ⟨hlen, shuffledTimes rand loaded, shuffledTimes_perm .., ?_⟩
      have herr : err = false := by
        cases err with
        | false => rfl
        | true => cases hret
      have hne := zero_notMem_shuffledTimes rand (hzero herr hlen)
      rw [List.filter_eq_self.mpr]
      intro t ht
      have htne : t ≠ 0 := fun heq => hne (heq ▸ ht)
      simpa using htne
    · rintro p ⟨⟩ -
      rw [filter_holding fun t ht => by simpa using (List.mem_filter.mp ht).2]
      rfl
  · rw [storeLoaded, if_pos hlen]
    refine ⟨nofun, ?_, ?_⟩
    · rintro p ⟨⟩ hret
      cases hret
    · rintro p ⟨⟩ -
      exact init_error

theorem early_right {ret : ℤ} (h : ret = 0 → state.totalBuildTimes = 0) :
    LoadsRight state (some ⟨ret, circuitBuildTimesInit, []⟩) := by
  refine ⟨nofun, ?_, ?_⟩
  · rintro p ⟨⟩ hret
    exact ⟨(h hret).symm, [], .refl _, rfl⟩
  · rintro p ⟨⟩ -
    exact init_error

/-- The loaded times of a state whose abandoned circuits are not too many. -/
def OrState.loaded (state : OrState) : List ℕ :=
  expand state.read.1 ++ List.replicate state.circuitBuildAbandonedCount buildAbandoned

theorem loaded_le : ∀ t ∈ state.loaded, t ≤ buildTimeMax := by
  intro t ht
  rcases List.mem_append.mp ht with ht | ht
  · exact expand_le readLines_le t ht
  · rw [(List.mem_replicate.mp ht).2]
    decide

theorem readLines_length (room : ℕ) (lines : List Bytes) :
    (expand (readLines room lines).1).length ≤ room := by
  fun_induction readLines room lines with
  | case1 => exact Nat.zero_le _
  | case2 => exact Nat.zero_le _
  | case3 => exact Nat.zero_le _
  | case4 room line lines ms count hline hle ih =>
    rw [expand_cons, List.length_append, List.length_replicate]
    omega

theorem parseState_eq (rand : (n : ℕ) → Fin (n + 1)) (hdisabled : disabled = false)
    (hnone : state.totalBuildTimes = 0 → state.circuitBuildAbandonedCount = 0) :
    circuitBuildTimesParseState disabled rand state =
      if state.totalBuildTimes < state.circuitBuildAbandonedCount ∨
          state.read.2.wraps state.totalBuildTimes (expand state.read.1).length
            state.circuitBuildAbandonedCount then none
      else some (storeLoaded rand state.totalBuildTimes (decide (state.read.2 = .unparsable))
        state.loaded) := by
  have habandoned := state.abandoned_lt
  rw [circuitBuildTimesParseState, hdisabled, if_neg Bool.false_ne_true, if_neg (by omega)]
  by_cases hmany : state.totalBuildTimes < state.circuitBuildAbandonedCount
  · rw [if_pos (.inl hmany)]
    have hloads := loadLines_of_lt state.buildtimeHistogram state.total_lt habandoned hmany
    cases hload : loadLines state.totalBuildTimes state.circuitBuildAbandonedCount []
        state.buildtimeHistogram with
    | none => rfl
    | some p =>
      obtain ⟨err, loaded⟩ := p
      obtain rfl : loaded = [] := hloads _ hload
      dsimp only
      rw [if_pos (by simpa using hmany)]
  · have hroom : ([] : List ℕ).length + state.circuitBuildAbandonedCount +
        (state.totalBuildTimes - state.circuitBuildAbandonedCount) = state.totalBuildTimes := by
      rw [List.length_nil]
      omega
    have hload : loadLines state.totalBuildTimes state.circuitBuildAbandonedCount []
        state.buildtimeHistogram =
          if state.read.2.wraps state.totalBuildTimes (expand state.read.1).length
            state.circuitBuildAbandonedCount then none
          else some (decide (state.read.2 = .unparsable), expand state.read.1) := by
      have heq := loadLines_eq state.buildtimeHistogram state.total_lt habandoned hroom
      simp only [List.length_nil, Nat.zero_add, List.nil_append] at heq
      exact heq
    have hlen : (expand state.read.1).length ≤
        state.totalBuildTimes - state.circuitBuildAbandonedCount := readLines_length ..
    cases hwraps : state.read.2.wraps state.totalBuildTimes (expand state.read.1).length
        state.circuitBuildAbandonedCount with
    | true =>
      rw [hwraps, if_pos rfl] at hload
      rw [hload, if_pos (.inr rfl)]
    | false =>
      rw [hwraps, if_neg Bool.false_ne_true] at hload
      rw [hload, if_neg (by simpa using hmany)]
      dsimp only
      rw [if_neg (by omega)]
      rfl

theorem readLines_tooMany {room count : ℕ} {lines : List Bytes}
    (h : (readLines room lines).2 = .tooMany count) : 0 < count ∧ count < 2 ^ 32 := by
  fun_induction readLines room lines with
  | case1 => cases h
  | case2 => cases h
  | case3 room line lines ms count' hline hlt =>
    cases h
    exact ⟨by omega, (parseLine_le hline).2⟩
  | case4 room line lines ms count' hline hle ih => exact ih h

theorem zero_mem_loaded :
    0 ∈ state.loaded.take (2 ^ 31 - 2) ↔ 0 ∈ (expand state.read.1).take (2 ^ 31 - 2) := by
  rw [OrState.loaded, List.take_append, List.mem_append, or_iff_left]
  intro hmem
  have := (List.mem_replicate.mp (List.mem_of_mem_take hmem)).2
  exact absurd this (by decide)

theorem parseState_of_zero (hzero : state.totalBuildTimes = 0) :
    LoadsRight state (circuitBuildTimesParseState disabled rand state) := by
  unfold circuitBuildTimesParseState
  split
  · exact early_right fun _ => hzero
  split
  · exact early_right fun h => nomatch h
  have hnone : state.circuitBuildAbandonedCount = 0 := by omega
  have hroom : ([] : List ℕ).length + state.circuitBuildAbandonedCount + 0 =
      state.totalBuildTimes := by simp [hzero, hnone]
  have hload := loadLines_eq state.buildtimeHistogram state.total_lt state.abandoned_lt hroom
  have hexpand : expand (readLines 0 state.buildtimeHistogram).1 = [] :=
    List.length_eq_zero_iff.mp (Nat.le_zero.mp (readLines_length ..))
  have hwraps : (readLines 0 state.buildtimeHistogram).2.wraps state.totalBuildTimes 0
      state.circuitBuildAbandonedCount = false := by
    cases hend : (readLines 0 state.buildtimeHistogram).2 with
    | all => rfl
    | unparsable => rfl
    | tooMany count =>
      obtain ⟨hpos, hlt⟩ := readLines_tooMany hend
      simp only [Ending.wraps, hzero, hnone, decide_eq_false_iff_not]
      omega
  simp only [hexpand, List.length_nil, Nat.zero_add, hwraps, Bool.false_eq_true, if_false,
    List.append_nil] at hload
  rw [hload]
  simp only [hzero, hnone, List.length_nil, Nat.zero_add, Nat.lt_irrefl, if_false,
    List.replicate_zero, List.append_nil]
  rw [← hzero]
  exact storeLoaded_right nofun fun _ _ => by simp

/-- Build times are loaded within the bounds of the array and all stored, whatever the shuffle,
exactly where the state is loadable or has no times. -/
theorem parseState_right_iff (disabled : Bool) (state : OrState) :
    (∀ rand, LoadsRight state (circuitBuildTimesParseState disabled rand state)) ↔
      state.totalBuildTimes = 0 ∨ Loadable disabled state := by
  by_cases hpos : state.totalBuildTimes = 0
  · exact iff_of_true (fun rand => parseState_of_zero hpos) (.inl hpos)
  rw [or_iff_right hpos]
  have hlength : state.loaded.length =
      (expand state.read.1).length + state.circuitBuildAbandonedCount := by
    rw [OrState.loaded, List.length_append, List.length_replicate]
  constructor
  · intro h
    cases disabled with
    | true =>
      have hlen := ((h fun _ => 0).loaded _ rfl rfl).1
      exact absurd hlen.symm hpos
    | false =>
      have hin : ¬(state.totalBuildTimes < state.circuitBuildAbandonedCount ∨
          state.read.2.wraps state.totalBuildTimes (expand state.read.1).length
            state.circuitBuildAbandonedCount = true) := fun hbad =>
        (h fun _ => 0).inBounds
          ((parseState_eq _ rfl fun hzero => absurd hzero hpos).trans (if_pos hbad))
      obtain ⟨hmany, hwraps⟩ := not_or.mp hin
      refine ⟨rfl, not_lt.mp hmany, by simpa using hwraps, fun hread hlen hmem => ?_⟩
      -- a shuffle that draws the zero to the front leaves it out
      obtain ⟨rand, hlost⟩ := exists_rand_lost (zero_mem_loaded.mpr hmem)
      have hout := (parseState_eq rand rfl fun hzero => absurd hzero hpos).trans (if_neg hin)
      rw [storeLoaded_eq loaded_le (hlength.trans hlen)] at hout
      obtain ⟨-, times, hperm, hcbt⟩ := (h rand).loaded _ hout (by simp [hread])
      have hstored := congrArg CircuitBuildTimes.totalBuildTimes hcbt
      simp only [holding, List.length_take, hperm.length_eq] at hstored
      omega
  · intro hload rand
    rw [parseState_eq rand hload.enabled fun hzero => absurd hzero hpos, if_neg]
    · refine storeLoaded_right loaded_le fun hread hlen => ?_
      rw [zero_mem_loaded]
      exact hload.noZero (by simpa using hread) (hlength.symm.trans hlen)
    · rintro (hmany | hwraps)
      · exact absurd hload.abandoned_le (not_le.mpr hmany)
      · rw [hload.noWrap] at hwraps
        cases hwraps

/-- A state file with one build time, two abandoned circuits and no lines. -/
def twoAbandoned : OrState := ⟨1, 2, [], by decide, by decide⟩

/-- The second abandoned circuit is written past the end of the array. -/
theorem parseState_outOfBounds :
    ¬∀ rand, LoadsRight twoAbandoned (circuitBuildTimesParseState false rand twoAbandoned) :=
  fun h => (h fun _ => 0).inBounds (by decide)

end Load

end TorDaemon.CircuitStats

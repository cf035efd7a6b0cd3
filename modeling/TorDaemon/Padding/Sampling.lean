import Mathlib.Algebra.Order.BigOperators.Group.List
import Mathlib.Data.List.GetD
import Mathlib.Data.Rat.Floor
import TorDaemon.Padding.NegotiationInvariant

/-! States of a padding machine, and what a running machine does with the histogram and the
length of its state (`circuitpadding.c`). -/
namespace TorDaemon.Padding.Machine

/-- `circpad_event_t` -/
inductive Event
  | nonpaddingRecv
  | nonpaddingSent
  | paddingSent
  | paddingRecv
  | infinity
  | binsEmpty
  | lengthCount
  deriving DecidableEq

/-- An entry of `next_state`. -/
inductive NextState
  | ignore
  | cancel
  | stateEnd
  | state (number : ℕ)
  deriving DecidableEq

inductive Removal
  | none
  | higher
  | lower
  | closest
  | closestUsec
  | exact
  deriving DecidableEq

/-- `CIRCPAD_DELAY_INFINITE`, the largest `uint32_t`. -/
def delayInfinite : ℕ := 2 ^ 32 - 1

/-- `CIRCPAD_STATE_LENGTH_INFINITE`, the largest `uint64_t`. -/
def stateLengthInfinite : ℕ := 2 ^ 64 - 1

/-- `circpad_state_t`. `histogram` holds the `histogram_len` bins that are in use, the last of
which is the infinity bin. -/
structure State where
  histogram : List ℕ
  histogramEdges : List ℕ
  histogramTotalTokens : ℕ
  /-- Whether `iat_dist` is a distribution. -/
  iatDist : Bool
  distMaxSampleUsec : ℕ
  distAddedShiftUsec : ℕ
  /-- Whether `length_dist` is a distribution. -/
  lengthDist : Bool
  startLength : ℕ
  maxLength : ℕ
  lengthIncludesNonpadding : Bool
  nextState : Event → NextState
  useRttEstimate : Bool
  tokenRemoval : Removal
  /-- "If it is used, token_removal below must be set to CIRCPAD_TOKEN_REMOVAL_NONE." -/
  keeps_tokens : iatDist = true → tokenRemoval = .none
  /-- "Histograms must have at least 2 bins." -/
  has_bins : tokenRemoval ≠ .none → 2 ≤ histogram.length

theorem State.keeps_none (iatDist : Bool) : iatDist = true → Removal.none = .none := fun _ => rfl

theorem State.bins_of_none : Removal.none ≠ .none → 2 ≤ ([] : List ℕ).length :=
  fun h => absurd rfl h

def State.isValid (st : State) : Bool :=
  if st.histogram.length = 0 then true
  else if st.histogram.length < 2 then false
  else
    (List.range st.histogram.length).all (fun b =>
      b = 0 || st.histogramEdges.getD (b - 1) 0 < st.histogramEdges.getD b 0) &&
    decide (st.histogram.sum % 2 ^ 32 = st.histogramTotalTokens)

/-- `circpad_machine_spec_t`, as `padding_machine_is_valid` has accepted it. -/
structure Spec where
  states : List State
  shouldNegotiateEnd : Bool
  isOriginSide : Bool
  allowedPaddingCount : ℕ
  maxPaddingPercent : ℕ
  valid : states.all State.isValid = true

/-- `circpad_machine_runtime_t`. `sampledLength` is the length that was chosen when the machine
entered its state and `counted` what the state has counted since; the code has neither. -/
structure Runtime where
  histogram : Option (List ℕ)
  chosenBin : ℕ
  stateLength : ℕ
  paddingSent : ℕ
  nonpaddingSent : ℕ
  rttEstimateUsec : ℕ
  lastReceivedTimeUsec : ℕ
  paddingScheduledAtUsec : ℕ
  /-- `none` is `CIRCPAD_STATE_END`. -/
  currentState : Option ℕ
  isPaddingTimerScheduled : Bool
  stopRttUpdate : Bool
  sampledLength : ℕ
  counted : ℕ

/-- `circpad_circuit_machineinfo_new` -/
def Runtime.new : Runtime where
  histogram := none
  chosenBin := 0
  stateLength := 0
  paddingSent := 0
  nonpaddingSent := 0
  rttEstimateUsec := 0
  lastReceivedTimeUsec := 0
  paddingScheduledAtUsec := 0
  currentState := some 0
  isPaddingTimerScheduled := false
  stopRttUpdate := false
  sampledLength := 0
  counted := 0

/-- What the environment answers to one step: the clock, the generator of random numbers, a
sample of a distribution, and the fate of a cell. Doubles are rationals here. -/
structure Draw where
  now : ℕ
  choice : ℕ
  offset : ℕ
  sample : ℚ
  sent : Bool
  closes : Bool

/-- What is noted of a run: the machines whose padding cell is counted, the counters that are
decremented, and the two places where the code may leave a timer behind. -/
inductive Observation
  | counts (mi : Runtime)
  | decrements (counter : ℕ)
  /-- A machine goes on to schedule padding in a state that it has just entered. -/
  | enters (stale : Bool)
  /-- A non-padding cell has been counted, its events are still to come. -/
  | spends (stranded : Bool)

/-- A step on one machine. It yields `none` where the code reads through a null pointer or an
assertion fails. -/
abbrev Local (α : Type) := Spec → Draw → Runtime → Option (α × Runtime × List Observation)

def Spec.currentState (spec : Spec) (mi : Runtime) : Option State :=
  mi.currentState.bind fun s => spec.states[s]?

/-! ### Bins -/

section Bins

variable (st : State) (mi : Runtime)

def rttAddUsec : ℕ := if st.useRttEstimate then mi.rttEstimateUsec else 0

def histogramBinToUsec (bin : ℕ) : ℕ :=
  if st.histogram.length ≤ bin then delayInfinite
  else (st.histogramEdges.getD bin 0 + rttAddUsec st mi) % 2 ^ 32

def histogramGetBinUpperBound (bin : ℕ) : ℕ :=
  (histogramBinToUsec st mi (bin + 1) + (2 ^ 32 - 1)) % 2 ^ 32

def getHistogramBinMidpoint (bin : ℕ) : ℕ :=
  let left := histogramBinToUsec st mi bin
  let right := histogramGetBinUpperBound st mi bin
  (left + (right + 2 ^ 32 - left) % 2 ^ 32 / 2) % 2 ^ 32

/-- `circpad_histogram_usec_to_bin`. It is called where the state has two bins or more. -/
def histogramUsecToBin (usec : ℕ) : ℕ :=
  ((List.range (st.histogram.length - 1)).find? fun bin =>
    usec ≤ (histogramGetBinUpperBound st mi bin + rttAddUsec st mi) % 2 ^ 32).getD
      (st.histogram.length - 2)

variable (h : List ℕ)

/-- `circpad_machine_first_higher_index`. The histogram's length means that there is none. -/
def firstHigherIndex (target : ℕ) : ℕ :=
  let bin := histogramUsecToBin st mi target
  ((List.range' bin (h.length - 1 - bin)).find? fun b =>
    h.getD b 0 ≠ 0 ∧ target ≤ histogramGetBinUpperBound st mi b).getD h.length

/-- `circpad_machine_first_lower_index`. `none` is the index -1. -/
def firstLowerIndex (target : ℕ) : Option ℕ :=
  (List.range (histogramUsecToBin st mi target + 1)).reverse.find? fun b =>
    h.getD b 0 ≠ 0 ∧ histogramBinToUsec st mi b ≤ target

def ensureBinCapacity (bin : ℕ) : Option ℕ := if h.getD bin 0 = 0 then none else some bin

/-! The bin from which a removal strategy takes a token. -/

def removeHigherToken (target : ℕ) : Option ℕ :=
  let bin := firstHigherIndex st mi h target
  if bin + 1 < h.length then ensureBinCapacity h bin else none

def removeLowerToken (target : ℕ) : Option ℕ :=
  match firstLowerIndex st mi h target with
  | none => none
  | some bin => if bin + 1 < h.length then ensureBinCapacity h bin else none

/-- `circpad_machine_remove_closest_token`, where both a lower and a higher bin have tokens. -/
def closerBin (target lower higher current : ℕ) (useUsec : Bool) : ℕ :=
  if useUsec then
    let lowerUsec := getHistogramBinMidpoint st mi lower
    let higherUsec := getHistogramBinMidpoint st mi higher
    if target < lowerUsec then lower
    else if higherUsec < target then higher
    else if (higherUsec + 2 ^ 32 - target) % 2 ^ 32 < (target + 2 ^ 32 - lowerUsec) % 2 ^ 32 then
      higher
    else lower
  else if higher - current < current - lower then higher
  else lower

def removeClosestToken (target : ℕ) (useUsec : Bool) : Option ℕ :=
  let higher := firstHigherIndex st mi h target
  let current := histogramUsecToBin st mi target
  match firstLowerIndex st mi h target with
  | none =>
    if higher < current then none
    else if higher = h.length then none
    else ensureBinCapacity h higher
  | some lower =>
    if current < lower ∨ higher < current then none
    else if higher = h.length then ensureBinCapacity h lower
    else ensureBinCapacity h (closerBin st mi target lower higher current useUsec)

def removeExact (target : ℕ) : Option ℕ :=
  let bin := histogramUsecToBin st mi target
  if 0 < h.getD bin 0 then some bin else none

/-- The bin that the state's own strategy chooses. -/
def binToRemove (target : ℕ) : Option ℕ :=
  match st.tokenRemoval with
  | .closestUsec => removeClosestToken st mi h target true
  | .closest => removeClosestToken st mi h target false
  | .lower => removeLowerToken st mi h target
  | .higher => removeHigherToken st mi h target
  | .exact => removeExact st mi h target
  | .none => none

end Bins

/-- `--` on a `uint32_t`. -/
def predU32 (n : ℕ) : ℕ := if n = 0 then 2 ^ 32 - 1 else n - 1

/-- `--` on a `uint64_t`. -/
def predU64 (n : ℕ) : ℕ := if n = 0 then 2 ^ 64 - 1 else n - 1

/-- `histogram[bin]--` -/
def spendToken (h : List ℕ) (bin : ℕ) : List ℕ := h.set bin (predU32 (h.getD bin 0))

/-- `state_length--` -/
def Runtime.spendLength (mi : Runtime) : Runtime :=
  { mi with stateLength := predU64 mi.stateLength }

def setupTokens (spec : Spec) (mi : Runtime) : Runtime :=
  match spec.currentState mi with
  | none => { mi with histogram := none }
  | some st =>
    if st.tokenRemoval = .none then { mi with histogram := none }
    else { mi with histogram := some st.histogram }

def Runtime.withLength (mi : Runtime) (length : ℕ) : Runtime :=
  { mi with stateLength := length, sampledLength := length, counted := 0 }

def chooseStateLength (spec : Spec) (draw : Draw) (mi : Runtime) : Runtime :=
  match spec.currentState mi with
  | none => mi.withLength stateLengthInfinite
  | some st =>
    if st.lengthDist = false then mi.withLength stateLengthInfinite
    else
      let length := max 0 draw.sample + st.startLength
      let length := if st.maxLength = 0 then length else min length st.maxLength
      -- `clamp_double_to_int64`
      mi.withLength (min length.floor (2 ^ 63 - 1)).toNat

def distributionSampleIatDelay (st : State) (sample : ℚ) (delayShift : ℕ) : ℕ :=
  let val := min (max 0 sample) st.distMaxSampleUsec + delayShift
  (min (val + 1 / 2).floor delayInfinite).toNat

/-- The first bin that is not empty; `none` where the code reads past the histogram. -/
def skipEmptyBins (h : List ℕ) : Option ℕ := h.findIdx? (· ≠ 0)

/-- The loop of `circpad_machine_sample_delay` over `rest`, the bins after `bin`. -/
def walkBins (choice : ℕ) : List ℕ → ℕ → ℕ → Option ℕ
  | rest, bin, weight =>
    if choice ≤ weight then some bin
    else match rest with
      | [] => none
      | tokens :: rest => walkBins choice rest (bin + 1) (weight + tokens)

/-- The end of `circpad_machine_sample_delay`, once it has chosen a bin with tokens. -/
def delayOfBin (st : State) (draw : Draw) (bin : ℕ) : Local ℕ := fun _ _ mi =>
  let chosen := if st.tokenRemoval = .none then mi else { mi with chosenBin := bin }
  if st.histogram.length ≤ bin + 1 then
    if st.tokenRemoval = .none then some (delayInfinite, chosen, [])
    else match mi.histogram with
      | none => none
      | some h =>
        if 0 < h.getD bin 0 then
          some (delayInfinite, { chosen with histogram := some (spendToken h bin) },
            [.decrements (h.getD bin 0)])
        else some (delayInfinite, chosen, [])
  else
    let binStart := histogramBinToUsec st mi bin
    let binEnd := histogramBinToUsec st mi (bin + 1)
    if binEnd ≤ binStart then some (binStart, chosen, [])
    else some (binStart + draw.offset % (binEnd - binStart), chosen, [])

/-- `histogram_total_tokens` of `circpad_machine_sample_delay` -/
def totalTokens (st : State) (mi : Runtime) : ℕ :=
  match mi.histogram with
  | some h => h.sum
  | none => st.histogramTotalTokens

def sampleDelay : Local ℕ := fun spec draw mi =>
  match spec.currentState mi with
  | none => none
  | some st =>
    if st.iatDist then
      let shift := if st.useRttEstimate then (mi.rttEstimateUsec + st.distAddedShiftUsec) % 2 ^ 32
        else st.distAddedShiftUsec
      some (distributionSampleIatDelay st draw.sample shift, mi, [])
    else
      let h := mi.histogram.getD st.histogram
      let total := totalTokens st mi
      if total = 0 then some (delayInfinite, mi, [])
      else match skipEmptyBins h with
        | none => none
        | some first =>
          match walkBins (draw.choice % total) (h.drop (first + 1)) first (h.getD first 0) with
          | none => some (delayInfinite, mi, [])
          | some bin =>
            if h.getD bin 0 = 0 then some (delayInfinite, mi, [])
            else delayOfBin st draw bin spec draw mi

/-! ### Counting cells -/

/-- A count that is cut in half, together with the other one, when it reaches `UINT16_MAX`. -/
def Runtime.halved (mi : Runtime) (count : ℕ) : Runtime :=
  if count = 2 ^ 16 - 1 then
    { mi with paddingSent := mi.paddingSent / 2, nonpaddingSent := mi.nonpaddingSent / 2 }
  else mi

/-- `circpad_machine_count_padding_sent`, the length. -/
def countLength (mi : Runtime) : Runtime × List Observation :=
  if mi.stateLength ≠ stateLengthInfinite ∧ mi.stateLength ≠ 0 then
    ({ mi.spendLength with counted := mi.counted + 1 }, [.decrements mi.stateLength])
  else ({ mi with counted := mi.counted + 1 }, [])

/-- `circpad_machine_count_padding_sent`, the token. -/
def countToken (mi : Runtime) : Runtime × List Observation :=
  match mi.histogram with
  | none => (mi, [])
  | some h =>
    if mi.chosenBin < h.length ∧ h.getD mi.chosenBin 0 ≠ 0 then
      ({ mi with histogram := some (spendToken h mi.chosenBin) },
        [.decrements (h.getD mi.chosenBin 0)])
    else (mi, [])

def countPaddingSent : Local Unit := fun _ _ mi =>
  let (counted, lengths) := countLength mi
  let sent := { counted with paddingSent := counted.paddingSent + 1 }
  let (taken, tokens) := countToken (sent.halved sent.paddingSent)
  some ((), taken, tokens ++ lengths ++ [.counts mi])

def updateStateLengthForNonpadding (spec : Spec) (mi : Runtime) : Runtime × List Observation :=
  if mi.stateLength = stateLengthInfinite then (mi, [])
  else match spec.currentState mi with
    | none => (mi, [])
    | some st =>
      if st.lengthIncludesNonpadding = true ∧ 0 < mi.stateLength then
        ({ mi.spendLength with counted := mi.counted + 1 }, [.decrements mi.stateLength])
      else (mi, [])

def Runtime.cancelPadding (mi : Runtime) : Runtime :=
  { mi with paddingScheduledAtUsec := 0, isPaddingTimerScheduled := false }

def removeToken : Local Unit := fun spec draw mi =>
  if mi.paddingScheduledAtUsec = 0 then some ((), mi, [])
  else match spec.currentState mi with
    | none => some ((), mi, [])
    | some st =>
      if st.tokenRemoval = .none then some ((), mi, [])
      else
        let elapsed := (draw.now + 2 ^ 64 - mi.paddingScheduledAtUsec) % 2 ^ 64
        let target := min elapsed (delayInfinite - 1)
        match mi.histogram with
        -- without a histogram the search for a higher bin ends before it reads one
        | none => if st.tokenRemoval = .higher then some ((), mi.cancelPadding, []) else none
        | some h =>
          match binToRemove st mi.cancelPadding h target with
          | none => some ((), mi.cancelPadding, [])
          | some bin => some ((), { mi.cancelPadding with histogram := some (spendToken h bin) },
              [.decrements (h.getD bin 0)])

def countNonpaddingSent : Local Unit := fun spec draw mi =>
  let sent := { mi with nonpaddingSent := mi.nonpaddingSent + 1 }
  let (spent, lengths) :=
    updateStateLengthForNonpadding spec (sent.halved sent.nonpaddingSent)
  (removeToken spec draw spent).map fun (_, taken, tokens) => ((), taken, tokens ++ lengths)

/-- The sum of the bins of `check_machine_token_supply`, a `uint32_t`, is zero. -/
def Runtime.binsEmpty (mi : Runtime) : Bool :=
  match mi.histogram with
  | none => false
  | some h => h.dropLast.sum % 2 ^ 32 = 0

/-! The bin that a sampled delay comes from, against the number of tokens in each bin
(`circpad_machine_sample_delay` in `circuitpadding.c`). -/

section Bins
variable {h rest : List ℕ} {choice bin weight b : ℕ}

/-- The bin that `circpad_machine_sample_delay` takes for a value of `bin_choice`. -/
def selectedBin (h : List ℕ) (binChoice : ℕ) : Option ℕ :=
  (skipEmptyBins h).bind fun first =>
    walkBins binChoice (h.drop (first + 1)) first (h.getD first 0)

/-- The tokens in the bins before a bin. -/
def tokensBefore (h : List ℕ) (bin : ℕ) : ℕ := (h.take bin).sum

theorem tokensBefore_succ (h : List ℕ) (bin : ℕ) :
    tokensBefore h (bin + 1) = tokensBefore h bin + h.getD bin 0 := by
  simp only [tokensBefore]
  by_cases hbin : bin < h.length
  · rw [List.sum_take_succ h bin hbin, List.getD_eq_getElem h 0 hbin]
  · have hlength : h.length ≤ bin := Nat.not_lt.mp hbin
    rw [List.take_of_length_le hlength, List.take_of_length_le (by omega),
      List.getD_eq_default h 0 hlength, Nat.add_zero]

theorem tokensBefore_mono {i j : ℕ} (hij : i ≤ j) : tokensBefore h i ≤ tokensBefore h j :=
  List.monotone_sum_take h hij

theorem tokensBefore_add (h : List ℕ) (i j : ℕ) :
    tokensBefore h (i + j) = tokensBefore h i + tokensBefore (h.drop i) j := by
  simp only [tokensBefore, List.take_add, List.sum_append]

theorem tokensBefore_eq_zero_iff : tokensBefore h bin = 0 ↔ ∀ j < bin, h.getD j 0 = 0 := by
  induction bin with
  | zero => simp [tokensBefore]
  | succ bin ih =>
    rw [tokensBefore_succ, Nat.add_eq_zero_iff, ih, Nat.forall_lt_succ_right]

theorem skipEmptyBins_eq_some :
    skipEmptyBins h = some bin ↔ h.getD bin 0 ≠ 0 ∧ tokensBefore h bin = 0 := by
  rw [skipEmptyBins, List.findIdx?_eq_some_iff_getElem, tokensBefore_eq_zero_iff]
  simp only [decide_eq_true_eq, not_not]
  constructor
  · rintro ⟨hbin, htokens, hbefore⟩
    rw [List.getD_eq_getElem h 0 hbin]
    refine ⟨htokens, fun j hj => ?_⟩
    rw [List.getD_eq_getElem h 0 (hj.trans hbin)]
    exact hbefore j hj
  · rintro ⟨htokens, hbefore⟩
    have hbin : bin < h.length := by
      by_contra hlength
      exact htokens (List.getD_eq_default h 0 (Nat.not_lt.mp hlength))
    rw [List.getD_eq_getElem h 0 hbin] at htokens
    refine ⟨hbin, htokens, fun j hj => ?_⟩
    rw [← List.getD_eq_getElem h 0 (hj.trans hbin)]
    exact hbefore j hj

theorem walkBins_eq_some : walkBins choice rest bin weight = some b ↔
    ∃ k ≤ rest.length, b = bin + k ∧ choice ≤ weight + tokensBefore rest k ∧
      ∀ j < k, weight + tokensBefore rest j < choice := by
  induction rest generalizing bin weight with
  | nil =>
    unfold walkBins
    simp only [List.length_nil, Nat.le_zero, exists_eq_left, tokensBefore, List.take_nil,
      List.sum_nil, Nat.add_zero, Nat.not_lt_zero, false_implies, implies_true, and_true]
    split_ifs with hstop
    · simp [hstop, eq_comm]
    · simp [hstop]
  | cons tokens rest ih =>
    unfold walkBins
    have hcons (k : ℕ) : weight + tokensBefore (tokens :: rest) (k + 1) =
        weight + tokens + tokensBefore rest k := by
      simp only [tokensBefore, List.take_succ_cons, List.sum_cons, Nat.add_assoc]
    split_ifs with hstop
    · constructor
      · intro heq
        exact ⟨0, Nat.zero_le _, (Option.some.inj heq).symm, hstop, by simp⟩
      · rintro ⟨k, -, rfl, -, hbefore⟩
        cases k with
        | zero => rfl
        | succ k =>
          have hfirst := hbefore 0 (Nat.succ_pos k)
          omega
    · simp only [ih]
      constructor
      · rintro ⟨k, hk, rfl, hat, hbefore⟩
        refine ⟨k + 1, Nat.succ_le_succ hk, by omega, ?_, fun j hj => ?_⟩
        · rw [hcons]
          exact hat
        · cases j with
          | zero => exact Nat.not_le.mp hstop
          | succ j =>
            rw [hcons]
            exact hbefore j (Nat.lt_of_succ_lt_succ hj)
      · rintro ⟨k, hk, rfl, hat, hbefore⟩
        cases k with
        | zero => exact absurd hat hstop
        | succ k =>
          rw [hcons] at hat
          refine ⟨k, Nat.le_of_succ_le_succ hk, by omega, hat, fun j hj => ?_⟩
          rw [← hcons]
          exact hbefore (j + 1) (Nat.succ_lt_succ hj)

theorem selectedBin_eq_some : selectedBin h choice = some b ↔
    h.getD b 0 ≠ 0 ∧ choice ≤ tokensBefore h (b + 1) ∧
      (tokensBefore h b < choice ∨ tokensBefore h b = 0) := by
  have hwalk {first : ℕ} (hfirst : tokensBefore h first = 0) (j : ℕ) :
      h.getD first 0 + tokensBefore (h.drop (first + 1)) j = tokensBefore h (first + 1 + j) := by
    rw [tokensBefore_add, tokensBefore_succ, hfirst, Nat.zero_add]
  simp only [selectedBin, Option.bind_eq_some_iff, skipEmptyBins_eq_some, walkBins_eq_some]
  constructor
  · rintro ⟨first, ⟨htokens, hfirst⟩, k, -, rfl, hat, hbefore⟩
    rw [hwalk hfirst, Nat.add_right_comm] at hat
    cases k with
    | zero => exact ⟨htokens, hat, .inr hfirst⟩
    | succ k =>
      have hlast := hbefore k (Nat.lt_succ_self k)
      rw [hwalk hfirst, Nat.add_assoc, Nat.add_comm 1 k] at hlast
      have hsucc := tokensBefore_succ h (first + (k + 1))
      exact ⟨by omega, hat, .inl hlast⟩
  · rintro ⟨htokens, hat, hbefore⟩
    have hex : ∃ first, h.getD first 0 ≠ 0 := ⟨b, htokens⟩
    have hfirst : tokensBefore h (Nat.find hex) = 0 :=
      tokensBefore_eq_zero_iff.mpr fun j hj => not_not.mp (Nat.find_min hex hj)
    obtain ⟨k, hk⟩ := Nat.exists_eq_add_of_le (Nat.find_min' hex htokens)
    refine ⟨Nat.find hex, ⟨Nat.find_spec hex, hfirst⟩, k, ?_, hk, ?_, fun j hj => ?_⟩
    · have hlength : b < h.length := by
        by_contra hout
        exact htokens (List.getD_eq_default h 0 (Nat.not_lt.mp hout))
      rw [List.length_drop]
      omega
    · rw [hwalk hfirst, Nat.add_right_comm, ← hk]
      exact hat
    · rw [hwalk hfirst]
      have hmono : tokensBefore h (Nat.find hex + 1 + j) ≤ tokensBefore h b :=
        tokensBefore_mono (by omega)
      have hpos : tokensBefore h (Nat.find hex + 1) ≤ tokensBefore h b :=
        tokensBefore_mono (by omega)
      have hsucc := tokensBefore_succ h (Nat.find hex)
      have hne := Nat.find_spec hex
      omega

theorem exists_selectedBin (hchoice : choice < h.sum) : ∃ b, selectedBin h choice = some b := by
  have hall : tokensBefore h h.length = h.sum := by rw [tokensBefore, List.take_length]
  have hex : ∃ n, choice ≤ tokensBefore h n ∧ tokensBefore h n ≠ 0 := by
    refine ⟨h.length, ?_⟩
    omega
  have hspec := Nat.find_spec hex
  cases hn : Nat.find hex with
  | zero =>
    rw [hn] at hspec
    exact absurd rfl hspec.2
  | succ b =>
    rw [hn, tokensBefore_succ] at hspec
    have hmin := Nat.find_min hex (show b < Nat.find hex by
      rw [hn]
      exact Nat.lt_succ_self b)
    refine ⟨b, selectedBin_eq_some.mpr ?_⟩
    rw [tokensBefore_succ]
    omega

theorem selectedBin_lt_length (hb : selectedBin h choice = some b) : b < h.length := by
  by_contra hout
  exact (selectedBin_eq_some.mp hb).1 (List.getD_eq_default h 0 (Nat.not_lt.mp hout))

/-! ### The number of values that select a bin -/

/-- How many of the values that the generator can return select a bin. -/
def selectedBy (h : List ℕ) (total b : ℕ) : ℕ :=
  (List.range total).countP fun binChoice => selectedBin h binChoice = some b

/-- The first bin that is not empty is selected once too often, if there are enough values. -/
theorem selectedBy_first_of_lt {first total : ℕ} (hfirst : h.getD first 0 ≠ 0)
    (hbefore : tokensBefore h first = 0) (htotal : h.getD first 0 < total) :
    h.getD first 0 < selectedBy h total first := by
  have hsub : (List.range (h.getD first 0 + 1)).Sublist (List.range total) :=
    List.range_sublist.mpr htotal
  have hall : (List.range (h.getD first 0 + 1)).countP
      (fun binChoice => selectedBin h binChoice = some first) = h.getD first 0 + 1 := by
    rw [List.countP_eq_length.mpr, List.length_range]
    intro binChoice hmem
    rw [decide_eq_true_eq, selectedBin_eq_some, tokensBefore_succ, hbefore]
    exact ⟨hfirst, by simpa [Nat.lt_succ_iff] using hmem, .inr rfl⟩
  have hle := hsub.countP_le (p := fun binChoice => decide (selectedBin h binChoice = some first))
  rw [selectedBy]
  omega

theorem existsUnique_of_proportional {total : ℕ} (hpos : 0 < total)
    (htotal : total ≤ h.sum) (hcounts : ∀ b, selectedBy h total b = h.getD b 0) :
    ∃! b, h.getD b 0 ≠ 0 := by
  obtain ⟨first, hselected⟩ := exists_selectedBin (hpos.trans_le htotal)
  obtain ⟨hfirst, -, hbefore⟩ := selectedBin_eq_some.mp hselected
  have hbefore : tokensBefore h first = 0 := by omega
  refine ⟨first, hfirst, fun b hb => ?_⟩
  by_contra hne
  have hlt : first < b := by
    by_contra hle
    exact hb (tokensBefore_eq_zero_iff.mp hbefore b (by omega))
  have hselects : 0 < selectedBy h total b := by
    rw [hcounts b]
    exact Nat.pos_of_ne_zero hb
  obtain ⟨binChoice, hmem, hchoice⟩ := List.countP_pos_iff.mp hselects
  rw [decide_eq_true_eq, selectedBin_eq_some] at hchoice
  have hmono : tokensBefore h (first + 1) ≤ tokensBefore h b := tokensBefore_mono hlt
  rw [tokensBefore_succ, hbefore] at hmono
  have hrange := List.mem_range.mp hmem
  have hmost : h.getD first 0 < selectedBy h total first :=
    selectedBy_first_of_lt hfirst hbefore (by omega)
  rw [hcounts first] at hmost
  exact Nat.lt_irrefl _ hmost

theorem sum_eq_of_unique (hunique : ∀ j, h.getD j 0 ≠ 0 → j = b) : h.sum = h.getD b 0 := by
  have hbefore : tokensBefore h b = 0 := tokensBefore_eq_zero_iff.mpr fun j hj => by
    by_contra htokens
    exact absurd (hunique j htokens) (Nat.ne_of_lt hj)
  have hafter (k : ℕ) : tokensBefore h (b + 1 + k) = h.getD b 0 := by
    induction k with
    | zero => rw [Nat.add_zero, tokensBefore_succ, hbefore, Nat.zero_add]
    | succ k ih =>
      have hempty : h.getD (b + 1 + k) 0 = 0 := by
        by_contra htokens
        have heq := hunique _ htokens
        omega
      rw [← Nat.add_assoc, tokensBefore_succ, ih, hempty, Nat.add_zero]
  rw [← hafter h.length, tokensBefore, List.take_of_length_le (by omega)]

theorem proportional_of_unique (hunique : ∀ j, h.getD j 0 ≠ 0 → j = b) (j : ℕ) :
    selectedBy h h.sum j = h.getD j 0 := by
  have hselects : ∀ binChoice ∈ List.range h.sum, selectedBin h binChoice = some b := by
    intro binChoice hmem
    obtain ⟨b', hb'⟩ := exists_selectedBin (List.mem_range.mp hmem)
    rw [hb', hunique b' (selectedBin_eq_some.mp hb').1]
  by_cases hj : j = b
  · rw [hj, selectedBy, List.countP_eq_length.mpr fun c hc => decide_eq_true (hselects c hc),
      List.length_range, sum_eq_of_unique hunique]
  · have hempty : h.getD j 0 = 0 := by
      by_contra htokens
      exact hj (hunique j htokens)
    rw [hempty, selectedBy, List.countP_eq_zero]
    intro c hc
    rw [hselects c hc, decide_eq_true_eq, Option.some.injEq]
    exact Ne.symm hj

end Bins

/-! ### A running machine -/

section Sampling
variable {spec : Spec} {mi : Runtime} {st : State}

theorem Spec.isValid_of_currentState (hstate : spec.currentState mi = some st) :
    st.isValid = true := by
  obtain ⟨s, -, hs⟩ := Option.bind_eq_some_iff.mp hstate
  exact List.all_eq_true.mp spec.valid st (List.mem_of_getElem? hs)

theorem State.histogramTotalTokens_eq (hvalid : st.isValid = true)
    (hbins : 2 ≤ st.histogram.length) : st.histogramTotalTokens = st.histogram.sum % 2 ^ 32 := by
  rw [State.isValid, if_neg (by omega), if_neg (by omega), Bool.and_eq_true,
    decide_eq_true_eq] at hvalid
  exact hvalid.2.symm

/-- The histogram that a delay is sampled from. -/
def currentHistogram (st : State) (mi : Runtime) : List ℕ := mi.histogram.getD st.histogram

theorem totalTokens_eq (hstate : spec.currentState mi = some st)
    (hbins : 2 ≤ st.histogram.length) : totalTokens st mi = (currentHistogram st mi).sum ∨
      totalTokens st mi = (currentHistogram st mi).sum % 2 ^ 32 := by
  unfold totalTokens currentHistogram
  cases mi.histogram with
  | none => exact .inr (State.histogramTotalTokens_eq (Spec.isValid_of_currentState hstate) hbins)
  | some h => exact .inl rfl

theorem sampleDelay_of_selectedBin {draw : Draw} {b : ℕ}
    (hstate : spec.currentState mi = some st) (hiat : st.iatDist = false)
    (htotal : totalTokens st mi ≠ 0)
    (hb : selectedBin (currentHistogram st mi) (draw.choice % totalTokens st mi) = some b) :
    sampleDelay spec draw mi = delayOfBin st draw b spec draw mi := by
  have htokens := (selectedBin_eq_some.mp hb).1
  obtain ⟨first, hfirst, hwalk⟩ := Option.bind_eq_some_iff.mp hb
  unfold currentHistogram at hfirst hwalk htokens
  simp only [sampleDelay, hstate, hiat, Bool.false_eq_true, if_false, if_neg htotal, hfirst, hwalk,
    if_neg htokens]

/-- The values of `bin_choice` are shared out in proportion to the tokens just where one bin has
them all. The walk always ends, at a bin with tokens. -/
theorem sampleDelay_proportional_iff (hstate : spec.currentState mi = some st)
    (hiat : st.iatDist = false) (hbins : 2 ≤ st.histogram.length)
    (htokens : ∀ tokens ∈ currentHistogram st mi, tokens < 2 ^ 32)
    (htotal : 0 < totalTokens st mi) :
    ((∀ b, selectedBy (currentHistogram st mi) (totalTokens st mi) b =
        (currentHistogram st mi).getD b 0) ↔
      ∃! b, (currentHistogram st mi).getD b 0 ≠ 0) ∧
    ∀ draw, ∃ b < (currentHistogram st mi).length, (currentHistogram st mi).getD b 0 ≠ 0 ∧
      selectedBin (currentHistogram st mi) (draw.choice % totalTokens st mi) = some b ∧
      sampleDelay spec draw mi = delayOfBin st draw b spec draw mi := by
  have hcases := totalTokens_eq hstate hbins
  have hle : totalTokens st mi ≤ (currentHistogram st mi).sum := by
    cases hcases with
    | inl heq => exact heq.le
    | inr heq => exact heq.le.trans (Nat.mod_le _ _)
  refine ⟨⟨existsUnique_of_proportional htotal hle, ?_⟩, fun draw => ?_⟩
  · rintro ⟨b, hb, hunique⟩
    have hmem : (currentHistogram st mi).getD b 0 ∈ currentHistogram st mi := by
      have hlength : b < (currentHistogram st mi).length := by
        by_contra hout
        exact hb (List.getD_eq_default _ 0 (Nat.not_lt.mp hout))
      rw [List.getD_eq_getElem _ 0 hlength]
      exact List.getElem_mem hlength
    have heq : totalTokens st mi = (currentHistogram st mi).sum := by
      cases hcases with
      | inl heq => exact heq
      | inr heq =>
        rw [heq, Nat.mod_eq_of_lt]
        rw [sum_eq_of_unique hunique]
        exact htokens _ hmem
    rw [heq]
    exact proportional_of_unique hunique
  · obtain ⟨b, hb⟩ := exists_selectedBin ((Nat.mod_lt draw.choice htotal).trans_le hle)
    exact ⟨b, selectedBin_lt_length hb, (selectedBin_eq_some.mp hb).1, hb,
      sampleDelay_of_selectedBin hstate hiat htotal.ne' hb⟩

/-- Two bins of an immutable histogram. -/
def twoBins (tokens infinityTokens : ℕ) : State where
  histogram := [tokens, infinityTokens]
  histogramEdges := [0, 1000]
  histogramTotalTokens := (tokens + infinityTokens) % 2 ^ 32
  iatDist := false
  distMaxSampleUsec := 0
  distAddedShiftUsec := 0
  lengthDist := false
  startLength := 0
  maxLength := 0
  lengthIncludesNonpadding := false
  nextState := fun _ => .ignore
  useRttEstimate := false
  tokenRemoval := .none
  keeps_tokens := fun _ => rfl
  has_bins := fun h => absurd rfl h

def twoBinSpec (tokens infinityTokens : ℕ) : Spec where
  states := [twoBins tokens infinityTokens]
  shouldNegotiateEnd := false
  isOriginSide := true
  allowedPaddingCount := 0
  maxPaddingPercent := 0
  valid := by simp [State.isValid, twoBins, List.range_succ]

theorem sampleDelay_proportional_iff_five :
    (∀ b, selectedBy [5, 0] 5 b = [5, 0].getD b 0) ↔ ∃! b, [5, 0].getD b 0 ≠ 0 :=
  (@sampleDelay_proportional_iff (twoBinSpec 5 0) Runtime.new (twoBins 5 0) rfl rfl
    (by decide) (by decide) (by decide)).1

/-- With one token in each bin both values of `bin_choice` select the first bin. -/
theorem sampleDelay_not_proportional :
    (twoBinSpec 1 1).currentState Runtime.new = some (twoBins 1 1) ∧
      totalTokens (twoBins 1 1) Runtime.new = 2 ∧
      ∃ b, selectedBy (currentHistogram (twoBins 1 1) Runtime.new) 2 b ≠
        (currentHistogram (twoBins 1 1) Runtime.new).getD b 0 :=
  ⟨rfl, rfl, 0, by decide⟩

end Sampling

end TorDaemon.Padding.Machine

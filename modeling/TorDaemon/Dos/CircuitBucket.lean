import TorDaemon.Library.Metering
import TorDaemon.Padding.Limits

/-! The circuit bucket of a client address, which CREATE cells take from and which is refilled
as the time passes (`dos.c`). -/
namespace TorDaemon.Dos.CircuitBucket
open Library.Metering

/-- The options, of which zero is one that is not set, and the parameters that the consensus
has. -/
structure Config where
  minConnections : UInt32
  rate : UInt32
  burst : UInt32
  defenseTimePeriod : UInt32
  consensusMinConnections : Option ℤ
  consensusRate : Option ℤ
  consensusBurst : Option ℤ
  consensusDefenseTimePeriod : Option ℤ

/-- A parameter: the option, or else what the consensus has, within its bounds. -/
def getParam (option : UInt32) (consensus : Option ℤ) (defaultVal minVal : ℤ) : UInt32 :=
  if option ≠ 0 then option
  else
    UInt32.ofNat
      (Padding.Machine.networkstatusGetParam consensus defaultVal minVal (2 ^ 31 - 1)).toNat

def getParamCcMinConcurrentConnection (c : Config) : UInt32 :=
  getParam c.minConnections c.consensusMinConnections 3 1

def getParamCcCircuitRate (c : Config) : UInt32 := getParam c.rate c.consensusRate 3 1

def getParamCcCircuitBurst (c : Config) : UInt32 := getParam c.burst c.consensusBurst 90 1

def getParamCcDefenseTimePeriod (c : Config) : UInt32 :=
  getParam c.defenseTimePeriod c.consensusDefenseTimePeriod 3600 0

structure CcParams where
  minConcurrentConn : UInt32
  circuitRate : UInt32
  circuitBurst : UInt32
  defenseTimePeriod : UInt32

/-- `set_dos_parameters`, for the creation of circuits. -/
def setDosParameters (c : Config) : CcParams :=
  ⟨getParamCcMinConcurrentConnection c, getParamCcCircuitRate c, getParamCcCircuitBurst c,
    getParamCcDefenseTimePeriod c⟩

/-- `cc_client_stats_t`, with the burst at the last refill, which the source does not keep. -/
structure CcClientStats where
  circuitBucket : UInt32
  lastCircBucketRefillTs : Int64
  markedUntilTs : ℤ
  burstAtRefill : UInt32

structure State where
  cc : CcParams
  stats : CcClientStats

/-- The statistics of an address that has just been seen. -/
def State.init (c : Config) : State := ⟨setDosParameters c, ⟨0, 0, 0, 0⟩⟩

section
variable (cc : CcParams)

section
variable (now : Int64)

section
variable (stats : CcClientStats)

/-- The tokens that are to be added. -/
def numToken : UInt64 :=
  let circuitRate := cc.circuitRate.toUInt64
  if stats.lastCircBucketRefillTs = 0 then cc.circuitBurst.toUInt64
  else if now < stats.lastCircBucketRefillTs then cc.circuitBurst.toUInt64
  else
    let elapsedTimeLastRefill := now.toUInt64 - stats.lastCircBucketRefillTs.toUInt64
    if 4294967295 < elapsedTimeLastRefill then cc.circuitBurst.toUInt64
    else elapsedTimeLastRefill * circuitRate

def newCircuitBucketCount : UInt32 :=
  let numToken := numToken cc now stats
  if (4294967295 - stats.circuitBucket).toUInt64 < numToken then cc.circuitBurst
  else min (stats.circuitBucket + numToken.toUInt32) cc.circuitBurst

/-- The two nonfatal assertions. -/
def refillAsserts : Bool :=
  let new := newCircuitBucketCount cc now stats
  new ≤ cc.circuitBurst && (stats.circuitBucket ≤ new || new = cc.circuitBurst)

def ccStatsRefillBucket : CcClientStats :=
  if now = stats.lastCircBucketRefillTs then stats
  else
    { stats with
      circuitBucket := newCircuitBucketCount cc now stats
      lastCircBucketRefillTs := now
      burstAtRefill := cc.circuitBurst }

end

def ccHasExhaustedCircuits (concurrentCount : UInt32) (stats : CcClientStats) : Bool :=
  stats.circuitBucket = 0 && cc.minConcurrentConn ≤ concurrentCount

/-- `cc_mark_client`, with the random offset. -/
def ccMarkClient (offset : ℤ) (stats : CcClientStats) : CcClientStats :=
  { stats with markedUntilTs := now.toInt + cc.defenseTimePeriod.toNat + offset }

/-- `dos_cc_new_create_cell` for a client that has an entry. -/
def dosCcNewCreateCell (concurrentCount : UInt32) (offset : ℤ)
    (stats : CcClientStats) : CcClientStats :=
  let stats := ccStatsRefillBucket cc now stats
  let stats :=
    if 0 < stats.circuitBucket then { stats with circuitBucket := stats.circuitBucket - 1 }
    else stats
  if ccHasExhaustedCircuits cc concurrentCount stats then ccMarkClient cc now offset stats
  else stats

end

end

inductive Event
  | refill (now : Int64)
  | createCell (now : Int64) (concurrentCount : UInt32) (offset : ℤ)
  | consensusHasChanged (c : Config)

def step (s : State) : Event → State
  | .refill now => { s with stats := ccStatsRefillBucket s.cc now s.stats }
  | .createCell now concurrentCount offset =>
    { s with stats := dosCcNewCreateCell s.cc now concurrentCount offset s.stats }
  | .consensusHasChanged c => { s with cc := setDosParameters c }

/-! ### One refill -/

section Refill
variable (cc : CcParams) (now : Int64) (stats : CcClientStats)

/-- The tokens, with no bound on the numbers. -/
def tokens : ℕ :=
  if stats.lastCircBucketRefillTs = 0 then cc.circuitBurst.toNat
  else if now < stats.lastCircBucketRefillTs then cc.circuitBurst.toNat
  else
    let elapsed := (now.toInt - stats.lastCircBucketRefillTs.toInt).toNat
    if 4294967295 < elapsed then cc.circuitBurst.toNat else elapsed * cc.circuitRate.toNat

variable {cc now stats}

theorem toInt_eq (x : Int64) :
    x.toInt = if 2 * x.toUInt64.toNat < 2 ^ 64 then (x.toUInt64.toNat : ℤ)
      else x.toUInt64.toNat - 2 ^ 64 :=
  BitVec.toInt_eq_toNat_cond x.toBitVec

/-- The subtraction neither underflows nor overflows. -/
theorem elapsed_toNat {a b : Int64} (h : a ≤ b) :
    (b.toUInt64 - a.toUInt64).toNat = (b.toInt - a.toInt).toNat := by
  have hle := Int64.le_iff_toInt_le.mp h
  have ha := toInt_eq a
  have hb := toInt_eq b
  have hlta := a.toUInt64.toNat_lt
  have hltb := b.toUInt64.toNat_lt
  rw [UInt64.toNat_sub]
  omega

theorem numToken_toNat : (numToken cc now stats).toNat = tokens cc now stats := by
  unfold numToken tokens
  split
  · exact UInt32.toNat_toUInt64 _
  split
  · exact UInt32.toNat_toUInt64 _
  rename_i hback
  have helapsed := elapsed_toNat (Int64.not_lt.mp hback)
  have hmax : (4294967295 : UInt64).toNat = 4294967295 := rfl
  simp only [UInt64.lt_iff_toNat_lt, helapsed, hmax]
  split
  · exact UInt32.toNat_toUInt64 _
  · rename_i hle
    have hrate := cc.circuitRate.toNat_lt
    have hmul : (now.toInt - stats.lastCircBucketRefillTs.toInt).toNat * cc.circuitRate.toNat <
        2 ^ 64 := by
      calc _ ≤ (2 ^ 32 - 1) * (2 ^ 32 - 1) := Nat.mul_le_mul (by omega) (by omega)
        _ < 2 ^ 64 := by decide
    rw [UInt64.toNat_mul, helapsed, UInt32.toNat_toUInt64, Nat.mod_eq_of_lt hmul]

theorem toNat_min (a b : UInt32) : (min a b).toNat = min a.toNat b.toNat := by
  have hmin : min a b = if a ≤ b then a else b := rfl
  rw [hmin]
  split <;> rename_i hle <;> rw [UInt32.le_iff_toNat_le] at hle <;> omega

theorem newCircuitBucketCount_toNat : (newCircuitBucketCount cc now stats).toNat =
      min (stats.circuitBucket.toNat + tokens cc now stats) cc.circuitBurst.toNat := by
  have hbucket := stats.circuitBucket.toNat_lt
  have hburst := cc.circuitBurst.toNat_lt
  have hroom : (4294967295 - stats.circuitBucket).toNat =
      4294967295 - stats.circuitBucket.toNat := by
    rw [UInt32.toNat_sub]
    have : (4294967295 : UInt32).toNat = 4294967295 := rfl
    omega
  unfold newCircuitBucketCount
  simp only [UInt64.lt_iff_toNat_lt, UInt32.toNat_toUInt64, hroom, numToken_toNat]
  split
  · omega
  · have htokens : (numToken cc now stats).toUInt32.toNat = tokens cc now stats := by
      rw [UInt64.toNat_toUInt32, numToken_toNat]
      omega
    have hsum : (stats.circuitBucket + (numToken cc now stats).toUInt32).toNat =
        stats.circuitBucket.toNat + tokens cc now stats := by
      rw [UInt32.toNat_add, htokens]
      omega
    rw [toNat_min, hsum]

end Refill

/-! ### Every run -/

/-- What a refill does to the bucket. -/
structure RefillRight (s : State) (now : Int64) : Prop where
  skipped : now = s.stats.lastCircBucketRefillTs → ccStatsRefillBucket s.cc now s.stats = s.stats
  exact_ : now ≠ s.stats.lastCircBucketRefillTs →
    (ccStatsRefillBucket s.cc now s.stats).circuitBucket.toNat =
      min (s.stats.circuitBucket.toNat + tokens s.cc now s.stats) s.cc.circuitBurst.toNat
  le_burst : now ≠ s.stats.lastCircBucketRefillTs →
    (ccStatsRefillBucket s.cc now s.stats).circuitBucket ≤ s.cc.circuitBurst
  lowers : (ccStatsRefillBucket s.cc now s.stats).circuitBucket < s.stats.circuitBucket →
    (ccStatsRefillBucket s.cc now s.stats).circuitBucket = s.cc.circuitBurst ∧
      s.cc.circuitBurst < s.stats.burstAtRefill
  asserts : refillAsserts s.cc now s.stats = true

section Run
variable {s : State} {now : Int64}

theorem newCircuitBucketCount_le : newCircuitBucketCount s.cc now s.stats ≤ s.cc.circuitBurst := by
  rw [UInt32.le_iff_toNat_le, newCircuitBucketCount_toNat]
  exact min_le_right _ _

theorem newCircuitBucketCount_lowers
    (h : newCircuitBucketCount s.cc now s.stats < s.stats.circuitBucket) :
    newCircuitBucketCount s.cc now s.stats = s.cc.circuitBurst := by
  rw [UInt32.lt_iff_toNat_lt, newCircuitBucketCount_toNat] at h
  rw [← UInt32.toNat_inj, newCircuitBucketCount_toNat]
  omega

theorem refillAsserts_true : refillAsserts s.cc now s.stats = true := by
  simp only [refillAsserts, Bool.and_eq_true, Bool.or_eq_true, decide_eq_true_eq]
  refine ⟨newCircuitBucketCount_le, ?_⟩
  by_cases h : newCircuitBucketCount s.cc now s.stats < s.stats.circuitBucket
  · exact .inr (newCircuitBucketCount_lowers h)
  · exact .inl (UInt32.not_lt.mp h)

theorem refill_right (h : s.stats.circuitBucket ≤ s.stats.burstAtRefill) (now : Int64) :
    RefillRight s now where
  skipped heq := if_pos heq
  exact_ hne := by
    rw [ccStatsRefillBucket, if_neg hne, newCircuitBucketCount_toNat]
  le_burst hne := by
    rw [ccStatsRefillBucket, if_neg hne]
    exact newCircuitBucketCount_le
  lowers hlt := by
    unfold ccStatsRefillBucket at hlt ⊢
    split at hlt
    · exact absurd hlt (UInt32.lt_irrefl _)
    · rename_i hne
      have heq := newCircuitBucketCount_lowers hlt
      rw [if_neg hne]
      exact ⟨heq, UInt32.lt_of_lt_of_le (heq ▸ hlt) h⟩
  asserts := refillAsserts_true

section
variable (cc : CcParams)

theorem dosCcNewCreateCell_bucket (now : Int64) (concurrentCount : UInt32)
    (offset : ℤ) (stats : CcClientStats) :
    (dosCcNewCreateCell cc now concurrentCount offset stats).circuitBucket.toNat =
      (ccStatsRefillBucket cc now stats).circuitBucket.toNat - 1 := by
  have hmark (stats : CcClientStats) :
      (if ccHasExhaustedCircuits cc concurrentCount stats then ccMarkClient cc now offset stats
        else stats).circuitBucket = stats.circuitBucket := by
    split <;> rfl
  unfold dosCcNewCreateCell
  rw [hmark]
  split
  · rename_i hpos
    rw [UInt32.lt_iff_toNat_lt] at hpos
    have hlt := (ccStatsRefillBucket cc now stats).circuitBucket.toNat_lt
    have hone : (1 : UInt32).toNat = 1 := rfl
    rw [UInt32.toNat_sub, hone]
    omega
  · rename_i hzero
    rw [UInt32.lt_iff_toNat_lt] at hzero
    have : (0 : UInt32).toNat = 0 := rfl
    omega

theorem dosCcNewCreateCell_others (now : Int64) (concurrentCount : UInt32)
    (offset : ℤ) (stats : CcClientStats) :
    (dosCcNewCreateCell cc now concurrentCount offset stats).lastCircBucketRefillTs =
        (ccStatsRefillBucket cc now stats).lastCircBucketRefillTs ∧
      (dosCcNewCreateCell cc now concurrentCount offset stats).burstAtRefill =
        (ccStatsRefillBucket cc now stats).burstAtRefill := by
  unfold dosCcNewCreateCell
  dsimp only
  split <;> split <;> exact ⟨rfl, rfl⟩

theorem refill_le_burstAtRefill (now : Int64) {stats : CcClientStats}
    (h : stats.circuitBucket ≤ stats.burstAtRefill) :
    (ccStatsRefillBucket cc now stats).circuitBucket ≤
      (ccStatsRefillBucket cc now stats).burstAtRefill := by
  unfold ccStatsRefillBucket
  split
  · exact h
  · exact newCircuitBucketCount_le (s := ⟨cc, stats⟩)

end

theorem step_le_burstAtRefill (h : s.stats.circuitBucket ≤ s.stats.burstAtRefill) (e : Event) :
    (step s e).stats.circuitBucket ≤ (step s e).stats.burstAtRefill := by
  cases e with
  | refill now => exact refill_le_burstAtRefill _ _ h
  | createCell now concurrentCount offset =>
    have hrefill := refill_le_burstAtRefill s.cc now h
    simp only [step, (dosCcNewCreateCell_others ..).2]
    rw [UInt32.le_iff_toNat_le] at hrefill ⊢
    rw [dosCcNewCreateCell_bucket]
    omega
  | consensusHasChanged c => exact h

theorem run_le_burstAtRefill (h : s.stats.circuitBucket ≤ s.stats.burstAtRefill) (es : List Event) :
    (run step s es).stats.circuitBucket ≤ (run step s es).stats.burstAtRefill := by
  induction es generalizing s with
  | nil => exact h
  | cons e es ih => exact ih (step_le_burstAtRefill h e)

end Run

/-! ### A window of time -/

def Event.time : Event → Option Int64
  | .refill now => some now
  | .createCell now _ _ => some now
  | .consensusHasChanged _ => none

/-- The clock starts at `lo` or later and does not go back, and the parameters stay. -/
def Steady : ℤ → List Event → Prop
  | _, [] => True
  | lo, e :: es =>
    match e.time with
    | none => False
    | some now => lo ≤ now.toInt ∧ Steady now.toInt es

/-- One for a CREATE cell within the `T` seconds from `t` that finds the bucket not empty. -/
def found (t : ℤ) (T : ℕ) (s : State) : Event → ℕ
  | .createCell now _ _ =>
    if t ≤ now.toInt ∧ now.toInt ≤ t + T ∧
      0 < (ccStatsRefillBucket s.cc now s.stats).circuitBucket then 1 else 0
  | _ => 0

/-- The cells that were found within the window, against what the bucket could hold and gain
since the window began. -/
structure Window (t : ℤ) (T count : ℕ) (s : State) : Prop where
  le_burst : s.stats.circuitBucket.toNat ≤ s.cc.circuitBurst.toNat
  bound : count ≤ s.cc.circuitBurst.toNat + s.cc.circuitRate.toNat * T
  spent : count = 0 ∨ t + T < s.stats.lastCircBucketRefillTs.toInt ∨
    0 < s.stats.lastCircBucketRefillTs.toInt ∧ t ≤ s.stats.lastCircBucketRefillTs.toInt ∧
      (count + s.stats.circuitBucket.toNat : ℤ) ≤ s.cc.circuitBurst.toNat +
        s.cc.circuitRate.toNat * (s.stats.lastCircBucketRefillTs.toInt - t)

section Windows
variable {s : State} {now : Int64} {t : ℤ} {T count : ℕ}

theorem refill_last (cc : CcParams) (now : Int64) (stats : CcClientStats) :
    (ccStatsRefillBucket cc now stats).lastCircBucketRefillTs = now := by
  unfold ccStatsRefillBucket
  split
  · rename_i heq
    exact heq.symm
  · rfl

theorem refill_gain {cc : CcParams} {stats : CcClientStats} (hrate : 1 ≤ cc.circuitRate.toNat)
    (hpos : 0 < stats.lastCircBucketRefillTs.toInt)
    (hle : stats.lastCircBucketRefillTs.toInt ≤ now.toInt) :
    ((ccStatsRefillBucket cc now stats).circuitBucket.toNat : ℤ) ≤
      stats.circuitBucket.toNat +
        cc.circuitRate.toNat * (now.toInt - stats.lastCircBucketRefillTs.toInt) := by
  unfold ccStatsRefillBucket
  split
  · rename_i heq
    simp [heq]
  have hne : stats.lastCircBucketRefillTs ≠ 0 := by
    intro hzero
    rw [hzero] at hpos
    exact absurd hpos (by decide)
  have hnot : ¬now < stats.lastCircBucketRefillTs := by
    rw [Int64.lt_iff_toInt_lt]
    omega
  obtain ⟨k, hk⟩ := Int.eq_ofNat_of_zero_le (sub_nonneg.mpr hle)
  rw [newCircuitBucketCount_toNat, tokens, if_neg hne, if_neg hnot, hk]
  dsimp only [Int.toNat_natCast]
  have hburst := cc.circuitBurst.toNat_lt
  have hmul : k ≤ k * cc.circuitRate.toNat := Nat.le_mul_of_pos_right k hrate
  rw [mul_comm (cc.circuitRate.toNat : ℤ)]
  split
  · have : (k : ℤ) ≤ k * cc.circuitRate.toNat := by exact_mod_cast hmul
    omega
  · push_cast
    exact min_le_left _ _

section
variable (h : Window t T count s)
include h

section
variable (hrate : 1 ≤ s.cc.circuitRate.toNat)
include hrate

theorem Window.refill
    (hpos : 0 < now.toInt) (hle : s.stats.lastCircBucketRefillTs.toInt ≤ now.toInt) :
    Window t T count (step s (.refill now)) := by
  have hlast : (step s (.refill now)).stats.lastCircBucketRefillTs = now := refill_last ..
  refine ⟨?_, h.bound, ?_⟩
  · simp only [step, ccStatsRefillBucket]
    split
    · exact h.le_burst
    · exact UInt32.le_iff_toNat_le.mp newCircuitBucketCount_le
  · rw [hlast]
    rcases h.spent with hzero | hover | ⟨hpos', ht, hspent⟩
    · exact .inl hzero
    · exact .inr (.inl (hover.trans_le hle))
    · refine .inr (.inr ⟨hpos, ht.trans hle, ?_⟩)
      have hgain := refill_gain hrate hpos' hle
      simp only [step]
      linarith

theorem Window.createCell
    (hpos : 0 < now.toInt) (hle : s.stats.lastCircBucketRefillTs.toInt ≤ now.toInt)
    (concurrentCount : UInt32) (offset : ℤ) :
    Window t T (count + found t T s (.createCell now concurrentCount offset))
      (step s (.createCell now concurrentCount offset)) := by
  obtain ⟨hburst, hbound, hspent⟩ := h.refill hrate hpos hle
  simp only [step, refill_last] at hburst hbound hspent
  have hbucket := dosCcNewCreateCell_bucket s.cc now concurrentCount offset s.stats
  have hlast := (dosCcNewCreateCell_others s.cc now concurrentCount offset s.stats).1
  rw [refill_last] at hlast
  simp only [found, UInt32.lt_iff_toNat_lt, UInt32.toNat_zero]
  generalize (ccStatsRefillBucket s.cc now s.stats).circuitBucket.toNat = b at *
  split
  · rename_i hfound
    obtain ⟨ht, hend, hb⟩ := hfound
    -- the cell takes the token that it is counted for
    have hnew : (count + 1 + (b - 1 : ℕ) : ℤ) ≤
        s.cc.circuitBurst.toNat + s.cc.circuitRate.toNat * (now.toInt - t) := by
      rcases hspent with hzero | hover | ⟨-, -, hspent⟩
      · have : 0 ≤ (s.cc.circuitRate.toNat : ℤ) * (now.toInt - t) :=
          mul_nonneg (Int.natCast_nonneg _) (sub_nonneg.mpr ht)
        omega
      · omega
      · omega
    refine ⟨?_, ?_, .inr (.inr ?_)⟩
    · simp only [step, hbucket]
      omega
    · have hT : (s.cc.circuitRate.toNat : ℤ) * (now.toInt - t) ≤ s.cc.circuitRate.toNat * T :=
        mul_le_mul_of_nonneg_left (by omega) (Int.natCast_nonneg _)
      have : ((count + 1 : ℕ) : ℤ) ≤
          (s.cc.circuitBurst.toNat + s.cc.circuitRate.toNat * T : ℕ) := by
        omega
      exact_mod_cast this
    · simp only [step, hbucket, hlast]
      exact ⟨hpos, ht, by exact_mod_cast hnew⟩
  · refine ⟨?_, h.bound, ?_⟩
    · simp only [step, hbucket]
      omega
    · simp only [step, hbucket, hlast, add_zero]
      rcases hspent with hzero | hover | ⟨-, ht, hspent⟩
      · exact .inl hzero
      · exact .inr (.inl hover)
      · refine .inr (.inr ⟨hpos, ht, ?_⟩)
        omega

theorem Window.run {lo : ℤ} {es : List Event} (hlo : 0 < lo)
    (hle : s.stats.lastCircBucketRefillTs.toInt ≤ lo) (hsteady : Steady lo es) :
    count + total step (found t T) s es ≤ s.cc.circuitBurst.toNat + s.cc.circuitRate.toNat * T := by
  induction es generalizing s lo count with
  | nil => simpa [total] using h.bound
  | cons e es ih =>
    rw [total, ← Nat.add_assoc]
    cases e with
    | refill now =>
      obtain ⟨hnow, hsteady⟩ := hsteady
      have hlast : (step s (.refill now)).stats.lastCircBucketRefillTs = now := refill_last ..
      exact ih (h.refill hrate (by omega) (by omega)) hrate (by omega) (by rw [hlast]) hsteady
    | createCell now concurrentCount offset =>
      obtain ⟨hnow, hsteady⟩ := hsteady
      have hlast : (step s (.createCell now concurrentCount offset)).stats.lastCircBucketRefillTs =
          now := (dosCcNewCreateCell_others ..).1.trans (refill_last ..)
      exact ih (h.createCell hrate (by omega) (by omega) concurrentCount offset) hrate (by omega)
        (by rw [hlast]) hsteady
    | consensusHasChanged c => cases hsteady

end

end

end Windows

theorem getParam_pos (option : UInt32) (consensus : Option ℤ) (defaultVal : ℤ) :
    1 ≤ (getParam option consensus defaultVal 1).toNat := by
  unfold getParam Padding.Machine.networkstatusGetParam
  split
  · rename_i hne
    have := UInt32.toNat_inj (b := 0).not.mpr hne
    have hzero : (0 : UInt32).toNat = 0 := rfl
    omega
  · dsimp only
    rw [UInt32.toNat_ofNat']
    split_ifs <;> omega

/-- However the bucket of an address is used, each refill is exact and keeps to the burst; and
while the clock goes on from a positive time and the parameters stay, no more than
`burst + rate * T` cells find the bucket not empty within `T` seconds. -/
theorem circuitBucket_right (c : Config) (es : List Event) :
    (∀ now, RefillRight (run step (.init c) es) now) ∧
      (Steady 1 es → ∀ (t : ℤ) (T : ℕ),
        total step (found t T) (.init c) es ≤
          (getParamCcCircuitBurst c).toNat + (getParamCcCircuitRate c).toNat * T) := by
  refine ⟨refill_right (run_le_burstAtRefill (UInt32.le_refl 0) es), fun hsteady t T => ?_⟩
  have hwindow : Window t T 0 (.init c) := ⟨Nat.zero_le _, Nat.zero_le _, .inl rfl⟩
  have hrun := hwindow.run (getParam_pos ..) one_pos (show (0 : Int64).toInt ≤ 1 by decide) hsteady
  rwa [Nat.zero_add] at hrun

/-- Nothing is set, and the consensus has a burst of two. -/
def burstOfTwo : Config := ⟨0, 0, 0, 0, none, some 1, some 2, none⟩

/-- Three cells in a second and one after it, of which three find a token. -/
def fourCells : List Event :=
  [.createCell 100 0 0, .createCell 100 0 0, .createCell 100 0 0, .createCell 101 0 0]

theorem circuitBucket_right_four : total step (found 100 1) (.init burstOfTwo) fourCells = 3 ∧
      total step (found 100 1) (.init burstOfTwo) fourCells ≤
        (getParamCcCircuitBurst burstOfTwo).toNat +
          (getParamCcCircuitRate burstOfTwo).toNat * 1 :=
  ⟨by decide, (circuitBucket_right burstOfTwo fourCells).2
    ⟨by decide, by decide, by decide, by decide, trivial⟩ 100 1⟩

end TorDaemon.Dos.CircuitBucket

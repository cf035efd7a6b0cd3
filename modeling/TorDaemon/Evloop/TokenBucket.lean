import Mathlib.Data.Int.DivMod
import Mathlib.Tactic.Linarith
import TorDaemon.Common

/-! Token buckets (`token_bucket.c`). Levels are integers that an assignment converts to
`int32_t`, rates and timestamps are `uint32_t`. -/
namespace TorDaemon.Evloop

def tokenBucketMaxBurst : ℤ := 2 ^ 31 - 1

/-- `token_bucket_cfg_t`, as `token_bucket_cfg_init` leaves it. -/
structure TokenBucketCfg where
  rate : UInt32
  burst : ℤ
  rate_pos : 0 < rate.toNat
  burst_nonneg : 0 ≤ burst
  burst_le : burst ≤ tokenBucketMaxBurst
  deriving DecidableEq

/-- A rate that passes the assertion of `token_bucket_cfg_init`. -/
abbrev Rate := { rate : UInt32 // 0 < rate.toNat }

def tokenBucketCfgInit (rate : Rate) (burst : UInt32) : TokenBucketCfg where
  rate := rate.1
  burst := if (burst.toNat : ℤ) > tokenBucketMaxBurst then tokenBucketMaxBurst else burst.toNat
  rate_pos := rate.2
  burst_nonneg := by
    split
    · decide
    · exact Int.natCast_nonneg _
  burst_le := by
    split
    · exact le_rfl
    · exact not_lt.mp ‹_›

structure TokenBucketRaw where
  bucket : ℤ
  deriving DecidableEq

def tokenBucketRawReset (cfg : TokenBucketCfg) : TokenBucketRaw := { bucket := cfg.burst }

section
variable (bucket : TokenBucketRaw)

def tokenBucketRawAdjust (cfg : TokenBucketCfg) : TokenBucketRaw :=
  { bucket := min bucket.bucket cfg.burst }

/-- What is missing to the burst, subtracted as `size_t`. -/
def TokenBucketRaw.gap (cfg : TokenBucketCfg) : ℕ :=
  ((cfg.burst - bucket.bucket) % 2 ^ 64).toNat

/-- `token_bucket_raw_refill_steps`, and whether it returns true -/
def tokenBucketRawRefillSteps (cfg : TokenBucketCfg) (elapsed : UInt32) : TokenBucketRaw × Bool :=
  let level :=
    if elapsed.toNat > bucket.gap cfg / cfg.rate.toNat then cfg.burst
    else toInt32 (bucket.bucket + (cfg.rate * elapsed).toNat)
  ({ bucket := level }, decide (bucket.bucket ≤ 0 ∧ level > 0))

/-- `token_bucket_raw_dec`, and whether it returns true -/
def tokenBucketRawDec (n : ℤ) : TokenBucketRaw × Bool :=
  if n < 0 then (bucket, false)
  else
    ({ bucket := toInt32 (bucket.bucket - n) },
      decide (bucket.bucket > 0 ∧ n ≥ bucket.bucket))

end

def ticksPerStep : ℕ := 16

/-- `rate_per_sec_to_rate_per_step`, with what `monotime_coarse_stamp_units_to_approx_msec` is
on the platform -/
def ratePerSecToRatePerStep (approxMsec : ℕ → ℕ) (rate : Rate) : Rate :=
  let val := UInt32.ofNat (approxMsec (rate.1.toNat * ticksPerStep) / 1000)
  if h : 0 < val.toNat then ⟨val, h⟩ else ⟨1, by decide⟩

structure TokenBucketRw where
  cfg : TokenBucketCfg
  readBucket : TokenBucketRaw
  writeBucket : TokenBucketRaw
  lastRefilledAtTimestamp : UInt32
  deriving DecidableEq

def tokenBucketRwAdjust (approxMsec : ℕ → ℕ) (bucket : TokenBucketRw) (rate : Rate)
    (burst : UInt32) : TokenBucketRw :=
  let cfg := tokenBucketCfgInit (ratePerSecToRatePerStep approxMsec rate) burst
  { bucket with
    cfg
    readBucket := tokenBucketRawAdjust bucket.readBucket cfg
    writeBucket := tokenBucketRawAdjust bucket.writeBucket cfg }

def tokenBucketRwReset (bucket : TokenBucketRw) (nowTsStamp : UInt32) : TokenBucketRw :=
  { bucket with
    readBucket := tokenBucketRawReset bucket.cfg
    writeBucket := tokenBucketRawReset bucket.cfg
    lastRefilledAtTimestamp := nowTsStamp }

/-- `token_bucket_rw_init`: what `memset` leaves is adjusted, and then reset. -/
def tokenBucketRwInit (approxMsec : ℕ → ℕ) (rate : Rate) (burst nowTsStamp : UInt32) :
    TokenBucketRw :=
  let zeroed : TokenBucketRw :=
    { cfg := tokenBucketCfgInit (ratePerSecToRatePerStep approxMsec rate) burst
      readBucket := ⟨0⟩
      writeBucket := ⟨0⟩
      lastRefilledAtTimestamp := 0 }
  tokenBucketRwReset (tokenBucketRwAdjust approxMsec zeroed rate burst) nowTsStamp

def tbRead : ℕ := 1

def tbWrite : ℕ := 2

/-- The bitmask that `TB_READ` and `TB_WRITE` are put into. -/
def tbFlags (read write : Bool) : ℕ :=
  (if read then tbRead else 0) ||| (if write then tbWrite else 0)

def tokenBucketRwRefill (bucket : TokenBucketRw) (nowTsStamp : UInt32) : TokenBucketRw × ℕ :=
  let elapsedTicks := nowTsStamp - bucket.lastRefilledAtTimestamp
  if elapsedTicks.toNat ≤ (2 ^ 32 - 1) / 4 then
    let elapsedSteps := elapsedTicks / UInt32.ofNat ticksPerStep
    -- less than a step: the time of the last refill stays
    if elapsedSteps = 0 then (bucket, 0)
    else
      let read := tokenBucketRawRefillSteps bucket.readBucket bucket.cfg elapsedSteps
      let write := tokenBucketRawRefillSteps bucket.writeBucket bucket.cfg elapsedSteps
      ({ bucket with
          readBucket := read.1
          writeBucket := write.1
          lastRefilledAtTimestamp := nowTsStamp }, tbFlags read.2 write.2)
  else ({ bucket with lastRefilledAtTimestamp := nowTsStamp }, 0)

/-- `token_bucket_rw_dec`, of `token_bucket_rw_dec_read` and `token_bucket_rw_dec_write` -/
def tokenBucketRwDec (bucket : TokenBucketRw) (nRead nWritten : ℤ) : TokenBucketRw × ℕ :=
  let read := tokenBucketRawDec bucket.readBucket nRead
  let write := tokenBucketRawDec bucket.writeBucket nWritten
  ({ bucket with readBucket := read.1, writeBucket := write.1 }, tbFlags read.2 write.2)

structure TokenBucketCtr where
  cfg : TokenBucketCfg
  counter : TokenBucketRaw
  lastRefilledAtTimestamp : UInt32
  deriving DecidableEq

section
variable (bucket : TokenBucketCtr)

def tokenBucketCtrAdjust (rate : Rate) (burst : UInt32) : TokenBucketCtr :=
  let cfg := tokenBucketCfgInit rate burst
  { bucket with cfg, counter := tokenBucketRawAdjust bucket.counter cfg }

def tokenBucketCtrReset (nowTsSec : UInt32) : TokenBucketCtr :=
  { bucket with
    counter := tokenBucketRawReset bucket.cfg
    lastRefilledAtTimestamp := nowTsSec }

def tokenBucketCtrInit (rate : Rate) (burst nowTsSec : UInt32) : TokenBucketCtr :=
  let zeroed : TokenBucketCtr :=
    { cfg := tokenBucketCfgInit rate burst
      counter := ⟨0⟩
      lastRefilledAtTimestamp := 0 }
  tokenBucketCtrReset (tokenBucketCtrAdjust zeroed rate burst) nowTsSec

def tokenBucketCtrRefill (nowTsSec : UInt32) : TokenBucketCtr :=
  let elapsedSec := nowTsSec - bucket.lastRefilledAtTimestamp
  if elapsedSec.toNat ≤ (2 ^ 32 - 1) / 4 then
    { bucket with
      counter := (tokenBucketRawRefillSteps bucket.counter bucket.cfg elapsedSec).1
      lastRefilledAtTimestamp := nowTsSec }
  else { bucket with lastRefilledAtTimestamp := nowTsSec }

def tokenBucketCtrDec (n : ℤ) : TokenBucketCtr × Bool :=
  let counter := tokenBucketRawDec bucket.counter n
  ({ bucket with counter := counter.1 }, counter.2)

end

/-! ### One bucket -/

/-- The level is an `int32_t` and no higher than the burst. -/
def TokenBucketRaw.Within (bucket : TokenBucketRaw) (cfg : TokenBucketCfg) : Prop :=
  -2 ^ 31 ≤ bucket.bucket ∧ bucket.bucket ≤ cfg.burst

section
variable {bucket : TokenBucketRaw} {cfg : TokenBucketCfg} {elapsed : UInt32} {n : ℤ}

/-- The subtraction of a negative level is exact, modulo `2 ^ 64`. -/
theorem gap_eq (h : bucket.Within cfg) : (bucket.gap cfg : ℤ) = cfg.burst - bucket.bucket := by
  have hburst := cfg.burst_le
  obtain ⟨hlow, hhigh⟩ := h
  simp only [tokenBucketMaxBurst] at hburst
  rw [TokenBucketRaw.gap, Int.emod_eq_of_lt (by omega) (by omega), Int.toNat_of_nonneg (by omega)]

theorem gap_lt (h : bucket.Within cfg) : bucket.gap cfg < 2 ^ 32 := by
  have hgap := gap_eq h
  have hburst := cfg.burst_le
  simp only [tokenBucketMaxBurst] at hburst
  have hlow := h.1
  omega

/-- The guard of the division leaves no product that the gap does not hold. -/
theorem rate_mul_le_gap (h : ¬elapsed.toNat > bucket.gap cfg / cfg.rate.toNat) :
    cfg.rate.toNat * elapsed.toNat ≤ bucket.gap cfg := by
  have hle := (Nat.le_div_iff_mul_le cfg.rate_pos).mp (not_lt.mp h)
  rwa [Nat.mul_comm]

theorem gap_lt_rate_mul (h : elapsed.toNat > bucket.gap cfg / cfg.rate.toNat) :
    bucket.gap cfg < cfg.rate.toNat * elapsed.toNat := by
  have hlt := (Nat.div_lt_iff_lt_mul cfg.rate_pos).mp h
  rwa [Nat.mul_comm]

theorem rate_mul_lt (hbucket : bucket.Within cfg)
    (h : ¬elapsed.toNat > bucket.gap cfg / cfg.rate.toNat) :
    cfg.rate.toNat * elapsed.toNat < 2 ^ 32 :=
  (rate_mul_le_gap h).trans_lt (gap_lt hbucket)

theorem rawRefillSteps_bucket (hbucket : bucket.Within cfg) :
    (tokenBucketRawRefillSteps bucket cfg elapsed).1.bucket =
      min cfg.burst (bucket.bucket + cfg.rate.toNat * elapsed.toNat) := by
  have hgap := gap_eq hbucket
  have hburst := cfg.burst_le
  simp only [tokenBucketMaxBurst] at hburst
  rw [tokenBucketRawRefillSteps]
  by_cases hover : elapsed.toNat > bucket.gap cfg / cfg.rate.toNat
  · have hlt : ((bucket.gap cfg : ℕ) : ℤ) < cfg.rate.toNat * elapsed.toNat := by
      exact_mod_cast gap_lt_rate_mul hover
    simp only [if_pos hover]
    omega
  · have hle : (cfg.rate.toNat * elapsed.toNat : ℤ) ≤ (bucket.gap cfg : ℕ) := by
      exact_mod_cast rate_mul_le_gap hover
    have hproduct : ((cfg.rate * elapsed).toNat : ℤ) = cfg.rate.toNat * elapsed.toNat := by
      rw [UInt32.toNat_mul, Nat.mod_eq_of_lt (rate_mul_lt hbucket hover)]
      rfl
    have hlow := hbucket.1
    simp only [if_neg hover]
    rw [hproduct, toInt32_eq (by omega) (by omega), min_eq_right]
    omega

theorem rawRefillSteps_flag : (tokenBucketRawRefillSteps bucket cfg elapsed).2 = true ↔
    bucket.bucket ≤ 0 ∧ 0 < (tokenBucketRawRefillSteps bucket cfg elapsed).1.bucket := by
  simp [tokenBucketRawRefillSteps]

section
variable (hbucket : bucket.Within cfg)
include hbucket

section
variable (hfits : -2 ^ 31 ≤ bucket.bucket - n)
include hfits

theorem rawDec_bucket : (tokenBucketRawDec bucket n).1.bucket = bucket.bucket - max 0 n := by
  have hburst := cfg.burst_le
  simp only [tokenBucketMaxBurst] at hburst
  have hhigh := hbucket.2
  rw [tokenBucketRawDec]
  by_cases hneg : n < 0
  · rw [if_pos hneg, max_eq_left hneg.le, sub_zero]
  · rw [if_neg hneg, max_eq_right (not_lt.mp hneg)]
    exact toInt32_eq hfits (by omega)

theorem rawDec_flag : (tokenBucketRawDec bucket n).2 = true ↔
      0 < bucket.bucket ∧ (tokenBucketRawDec bucket n).1.bucket ≤ 0 := by
  rw [rawDec_bucket hbucket hfits, tokenBucketRawDec]
  by_cases hneg : n < 0
  · rw [if_pos hneg, max_eq_left hneg.le, sub_zero]
    simp
  · rw [if_neg hneg, max_eq_right (not_lt.mp hneg)]
    simp only [decide_eq_true_eq]
    omega

theorem TokenBucketRaw.Within.dec : (tokenBucketRawDec bucket n).1.Within cfg := by
  have hlow := hbucket.1
  have hhigh := hbucket.2
  rw [TokenBucketRaw.Within, rawDec_bucket hbucket hfits]
  omega

end

theorem TokenBucketRaw.Within.adjust {cfg' : TokenBucketCfg} :
    (tokenBucketRawAdjust bucket cfg').Within cfg' := by
  have hlow := hbucket.1
  have hburst := cfg'.burst_nonneg
  simp only [TokenBucketRaw.Within, tokenBucketRawAdjust]
  omega

end

theorem within_reset : (tokenBucketRawReset cfg).Within cfg := by
  have hburst := cfg.burst_nonneg
  simp only [TokenBucketRaw.Within, tokenBucketRawReset]
  omega

end

@[simp] theorem tbFlags_read {read write : Bool} : tbFlags read write &&& tbRead ≠ 0 ↔ read := by
  revert read write
  decide

@[simp] theorem tbFlags_write {read write : Bool} : tbFlags read write &&& tbWrite ≠ 0 ↔ write := by
  revert read write
  decide

end TorDaemon.Evloop

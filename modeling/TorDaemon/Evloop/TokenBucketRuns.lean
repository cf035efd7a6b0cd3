import TorDaemon.Evloop.TokenBucket
import TorDaemon.Library.Metering

/-! Token buckets over every run of refills, decrements and adjustments, by a clock that the
32-bit timestamps are the residues of. -/
namespace TorDaemon.Evloop
open Library.Metering

/-- One level of a kind of bucket, and what a decrement takes from it. -/
structure Lane (β δ : Type) where
  bucket : β → TokenBucketRaw
  amount : δ → ℤ

/-- The calls on a kind of bucket. -/
structure Kind (β δ : Type) where
  cfg : β → TokenBucketCfg
  lastRefilledAtTimestamp : β → UInt32
  lanes : List (Lane β δ)
  /-- The units of a timestamp that the rate is for. -/
  period : ℕ
  refill : β → UInt32 → β
  dec : β → δ → β
  adjust : β → Rate → UInt32 → β
  reset : β → UInt32 → β

def rwKind (approxMsec : ℕ → ℕ) : Kind TokenBucketRw (ℤ × ℤ) where
  cfg b := b.cfg
  lastRefilledAtTimestamp b := b.lastRefilledAtTimestamp
  lanes := [⟨TokenBucketRw.readBucket, Prod.fst⟩, ⟨TokenBucketRw.writeBucket, Prod.snd⟩]
  period := ticksPerStep
  refill b now := (tokenBucketRwRefill b now).1
  dec b n := (tokenBucketRwDec b n.1 n.2).1
  adjust := tokenBucketRwAdjust approxMsec
  reset := tokenBucketRwReset

def ctrKind : Kind TokenBucketCtr ℤ where
  cfg b := b.cfg
  lastRefilledAtTimestamp b := b.lastRefilledAtTimestamp
  lanes := [⟨TokenBucketCtr.counter, id⟩]
  period := 1
  refill := tokenBucketCtrRefill
  dec b n := (tokenBucketCtrDec b n).1
  adjust := tokenBucketCtrAdjust
  reset := tokenBucketCtrReset

/-- A bucket at a time of the clock. -/
structure Clocked (β : Type) where
  bucket : β
  clock : ℕ
  deriving DecidableEq

inductive Event (δ : Type)
  | refill (after : ℕ)
  | dec (n : δ)
  | adjust (rate : Rate) (burst : UInt32)
  | reset (after : ℕ)

/-- How far an event moves the clock. -/
def Event.time {δ : Type} : Event δ → ℕ
  | .refill after => after
  | .dec _ => 0
  | .adjust _ _ => 0
  | .reset after => after

section
variable {β δ : Type} (k : Kind β δ)

def Kind.step (s : Clocked β) (e : Event δ) : Clocked β :=
  let clock := s.clock + e.time
  let bucket :=
    match e with
    | .refill _ => k.refill s.bucket (.ofNat clock)
    | .dec n => k.dec s.bucket n
    | .adjust rate burst => k.adjust s.bucket rate burst
    | .reset _ => k.reset s.bucket (.ofNat clock)
  { bucket, clock }

/-- A decrement keeps every level an `int32_t`. -/
def Kind.Admissible (s : Clocked β) : Event δ → Prop
  | .dec n => ∀ lane ∈ k.lanes, -2 ^ 31 ≤ (lane.bucket s.bucket).bucket - lane.amount n
  | _ => True

instance (s : Clocked β) : ∀ e, Decidable (k.Admissible s e)
  | .dec _ => inferInstanceAs (Decidable (∀ lane ∈ k.lanes, _))
  | .refill _ => .isTrue trivial
  | .adjust _ _ => .isTrue trivial
  | .reset _ => .isTrue trivial

/-- The configuration stays, and the level is not set to it. -/
def Kind.KeepsConfiguration (s : Clocked β) : Event δ → Prop
  | .reset _ => False
  | e => k.cfg (k.step s e).bucket = k.cfg s.bucket

/-- The tokens that a refill puts into a bucket. -/
def Kind.granted (lane : Lane β δ) (s : Clocked β) : Event δ → ℤ
  | .refill after => (lane.bucket (k.step s (.refill after)).bucket).bucket -
      (lane.bucket s.bucket).bucket
  | _ => 0

/-- The time since the last refill, as the code tells it. -/
def Kind.pending (s : Clocked β) : ℕ :=
  (UInt32.ofNat s.clock - k.lastRefilledAtTimestamp s.bucket).toNat

/-- What is asked of one level in a state. -/
structure Kind.Sound (s : Clocked β) (lane : Lane β δ) : Prop where
  level_le : (lane.bucket s.bucket).bucket ≤ (k.cfg s.bucket).burst
  refill_ge : ∀ after, (lane.bucket s.bucket).bucket ≤
    (lane.bucket (k.step s (.refill after)).bucket).bucket
  untruncated : ∀ elapsed : UInt32,
    ¬elapsed.toNat > (lane.bucket s.bucket).gap (k.cfg s.bucket) / (k.cfg s.bucket).rate.toNat →
      (k.cfg s.bucket).rate.toNat * elapsed.toNat < 2 ^ 32
  /-- Over any stretch with this configuration. -/
  granted_le : ∀ es,
    Throughout k.step (fun s e => k.Admissible s e ∧ k.KeepsConfiguration s e) s es →
      total k.step (k.granted lane) s es ≤ (k.cfg s.bucket).rate.toNat *
        ((k.pending s + (es.map Event.time).sum) / k.period : ℕ)
  refill_flag : ∀ elapsed,
    (tokenBucketRawRefillSteps (lane.bucket s.bucket) (k.cfg s.bucket) elapsed).2 = true ↔
      (lane.bucket s.bucket).bucket ≤ 0 ∧
      0 < (tokenBucketRawRefillSteps (lane.bucket s.bucket) (k.cfg s.bucket) elapsed).1.bucket
  dec_flag : ∀ n, k.Admissible s (.dec n) →
    ((tokenBucketRawDec (lane.bucket s.bucket) (lane.amount n)).2 = true ↔
      0 < (lane.bucket s.bucket).bucket ∧
        (lane.bucket (k.step s (.dec n)).bucket).bucket ≤ 0)

/-! ### The kinds do what one bucket does -/

/-- What a call does to the levels of a kind. -/
structure Kind.Lawful : Prop where
  period_pos : 0 < k.period
  refill : ∀ b now, (∀ lane ∈ k.lanes, (lane.bucket b).Within (k.cfg b)) →
    ∃ steps : ℕ, (∀ lane ∈ k.lanes, (lane.bucket (k.refill b now)).bucket =
        min (k.cfg b).burst ((lane.bucket b).bucket + (k.cfg b).rate.toNat * steps)) ∧
      k.period * steps + (now - k.lastRefilledAtTimestamp (k.refill b now)).toNat ≤
        (now - k.lastRefilledAtTimestamp b).toNat
  refill_cfg : ∀ b now, k.cfg (k.refill b now) = k.cfg b
  dec : ∀ b n, ∀ lane ∈ k.lanes,
    lane.bucket (k.dec b n) = (tokenBucketRawDec (lane.bucket b) (lane.amount n)).1
  dec_cfg : ∀ b n, k.cfg (k.dec b n) = k.cfg b
  dec_last : ∀ b n, k.lastRefilledAtTimestamp (k.dec b n) = k.lastRefilledAtTimestamp b
  adjust : ∀ b rate burst, ∀ lane ∈ k.lanes, lane.bucket (k.adjust b rate burst) =
    tokenBucketRawAdjust (lane.bucket b) (k.cfg (k.adjust b rate burst))
  adjust_last : ∀ b rate burst,
    k.lastRefilledAtTimestamp (k.adjust b rate burst) = k.lastRefilledAtTimestamp b
  reset : ∀ b now, ∀ lane ∈ k.lanes, lane.bucket (k.reset b now) =
    tokenBucketRawReset (k.cfg b)
  reset_cfg : ∀ b now, k.cfg (k.reset b now) = k.cfg b

/-- Every level is within its bounds. -/
def Kind.Within (s : Clocked β) : Prop :=
  ∀ lane ∈ k.lanes, (lane.bucket s.bucket).Within (k.cfg s.bucket)

variable {k} {s : Clocked β} {e : Event δ} {lane : Lane β δ}

theorem Kind.Lawful.step_within (hk : k.Lawful) (hs : k.Within s)
    (he : k.Admissible s e) : k.Within (k.step s e) := by
  intro lane hlane
  have hlevel := hs lane hlane
  cases e with
  | refill after =>
    obtain ⟨steps, hbucket, -⟩ := hk.refill s.bucket (.ofNat (s.clock + after)) hs
    have hlow := hlevel.1
    have hhigh := hlevel.2
    have hnonneg : (0 : ℤ) ≤ (k.cfg s.bucket).rate.toNat * steps := by positivity
    simp only [Kind.step, Event.time, TokenBucketRaw.Within, hk.refill_cfg, hbucket lane hlane]
    omega
  | dec n =>
    simp only [Kind.step, hk.dec_cfg, hk.dec _ _ lane hlane]
    exact hlevel.dec (he lane hlane)
  | adjust rate burst =>
    simp only [Kind.step, hk.adjust _ _ _ lane hlane]
    exact hlevel.adjust
  | reset after =>
    simp only [Kind.step, hk.reset_cfg, hk.reset _ _ lane hlane]
    exact within_reset

/-- A clock that moves on by `after` is pending no more than that for longer. -/
theorem pending_add (clock after : ℕ) (last : UInt32) :
    (UInt32.ofNat (clock + after) - last).toNat ≤ (UInt32.ofNat clock - last).toNat + after := by
  simp only [UInt32.toNat_sub, UInt32.toNat_ofNat']
  omega

theorem Kind.Lawful.step_paid (hk : k.Lawful)
    (hlane : lane ∈ k.lanes) (hs : k.Within s) (he : k.KeepsConfiguration s e) :
    Paid k.step (k.granted lane) Event.time k.pending (k.cfg s.bucket).rate.toNat k.period s e := by
  cases e with
  | refill after =>
    obtain ⟨steps, hbucket, htime⟩ := hk.refill s.bucket (.ofNat (s.clock + after)) hs
    have hadd := pending_add s.clock after (k.lastRefilledAtTimestamp s.bucket)
    refine ⟨steps, ?_, ?_⟩
    · simp only [Kind.granted, Kind.step, Event.time, hbucket lane hlane]
      omega
    · simp only [Kind.pending, Kind.step, Event.time]
      omega
  | dec n =>
    refine ⟨0, by simp [Kind.granted], ?_⟩
    simp only [Kind.pending, Kind.step, Event.time, hk.dec_last, Nat.add_zero]
    omega
  | adjust rate burst =>
    refine ⟨0, by simp [Kind.granted], ?_⟩
    simp only [Kind.pending, Kind.step, Event.time, hk.adjust_last, Nat.add_zero]
    omega
  | reset after => exact he.elim

theorem Kind.keepsConfiguration_cfg (he : k.KeepsConfiguration s e) :
    k.cfg (k.step s e).bucket = k.cfg s.bucket := by
  cases e with
  | refill after => exact he
  | dec n => exact he
  | adjust rate burst => exact he
  | reset after => exact he.elim

theorem Kind.Lawful.throughout_paid (hk : k.Lawful) (hlane : lane ∈ k.lanes)
    {es : List (Event δ)} (hs : k.Within s)
    (hes : Throughout k.step (fun s e => k.Admissible s e ∧ k.KeepsConfiguration s e) s es) :
    Throughout k.step (Paid k.step (k.granted lane) Event.time k.pending
      (k.cfg s.bucket).rate.toNat k.period) s es := by
  induction es generalizing s with
  | nil => trivial
  | cons e es ih =>
    refine ⟨hk.step_paid hlane hs hes.1.2, ?_⟩
    have hrest := ih (hk.step_within hs hes.1.1) hes.2
    rwa [Kind.keepsConfiguration_cfg hes.1.2] at hrest

theorem Kind.Lawful.sound (hk : k.Lawful) (hlane : lane ∈ k.lanes)
    (hs : k.Within s) : k.Sound s lane where
  level_le := (hs lane hlane).2
  refill_ge after := by
    obtain ⟨steps, hbucket, -⟩ := hk.refill s.bucket (.ofNat (s.clock + after)) hs
    have hhigh := (hs lane hlane).2
    have hnonneg : (0 : ℤ) ≤ (k.cfg s.bucket).rate.toNat * steps := by positivity
    simp only [Kind.step, Event.time, hbucket lane hlane]
    omega
  untruncated elapsed h := rate_mul_lt (hs lane hlane) h
  granted_le es hes := total_le hk.period_pos (hk.throughout_paid hlane hs hes)
  refill_flag elapsed := rawRefillSteps_flag
  dec_flag n hn := by
    simp only [Kind.step, hk.dec _ _ lane hlane]
    exact rawDec_flag (hs lane hlane) (hn lane hlane)

end

/-! ### The two kinds -/

theorem TokenBucketRaw.Within.refill_none {b : TokenBucketRaw} {cfg : TokenBucketCfg}
    (h : b.Within cfg) : b.bucket = min cfg.burst (b.bucket + cfg.rate.toNat * (0 : ℕ)) := by
  rw [Nat.cast_zero, mul_zero, add_zero, min_eq_right h.2]

section
variable {approxMsec : ℕ → ℕ} {b : TokenBucketRw} {now : UInt32}

/-- A refill of both levels is by the same number of steps, which take their ticks. -/
theorem rwRefill_spec (now : UInt32) (hread : b.readBucket.Within b.cfg)
    (hwrite : b.writeBucket.Within b.cfg) : ∃ steps : ℕ,
      (tokenBucketRwRefill b now).1.readBucket.bucket =
        min b.cfg.burst (b.readBucket.bucket + b.cfg.rate.toNat * steps) ∧
      (tokenBucketRwRefill b now).1.writeBucket.bucket =
        min b.cfg.burst (b.writeBucket.bucket + b.cfg.rate.toNat * steps) ∧
      ticksPerStep * steps + (now - (tokenBucketRwRefill b now).1.lastRefilledAtTimestamp).toNat ≤
        (now - b.lastRefilledAtTimestamp).toNat := by
  rw [tokenBucketRwRefill]
  by_cases hticks : (now - b.lastRefilledAtTimestamp).toNat ≤ (2 ^ 32 - 1) / 4
  · rw [if_pos hticks]
    by_cases hsteps : (now - b.lastRefilledAtTimestamp) / UInt32.ofNat ticksPerStep = 0
    · rw [if_pos hsteps]
      exact ⟨0, hread.refill_none, hwrite.refill_none, by simp⟩
    · rw [if_neg hsteps]
      refine ⟨((now - b.lastRefilledAtTimestamp) / UInt32.ofNat ticksPerStep).toNat,
        rawRefillSteps_bucket hread, rawRefillSteps_bucket hwrite, ?_⟩
      rw [UInt32.sub_self]
      exact Nat.mul_div_le _ _
  · rw [if_neg hticks]
    exact ⟨0, hread.refill_none, hwrite.refill_none, by simp⟩

theorem rwRefill_cfg : (tokenBucketRwRefill b now).1.cfg = b.cfg := by
  rw [tokenBucketRwRefill]
  split
  · dsimp only
    split <;> rfl
  · rfl

theorem forall_rwLanes {P : Lane TokenBucketRw (ℤ × ℤ) → Prop} :
    (∀ lane ∈ (rwKind approxMsec).lanes, P lane) ↔
      P ⟨TokenBucketRw.readBucket, Prod.fst⟩ ∧ P ⟨TokenBucketRw.writeBucket, Prod.snd⟩ := by
  simp [rwKind]

theorem forall_ctrLanes {P : Lane TokenBucketCtr ℤ → Prop} :
    (∀ lane ∈ ctrKind.lanes, P lane) ↔ P ⟨TokenBucketCtr.counter, id⟩ := by
  simp [ctrKind]

theorem rwKind_lawful : (rwKind approxMsec).Lawful where
  period_pos := Nat.zero_lt_succ 15
  refill b now h := by
    obtain ⟨hread, hwrite⟩ := forall_rwLanes.mp h
    obtain ⟨steps, hr, hw, htime⟩ := rwRefill_spec now hread hwrite
    exact ⟨steps, forall_rwLanes.mpr ⟨hr, hw⟩, htime⟩
  refill_cfg b now := rwRefill_cfg
  dec b n := forall_rwLanes.mpr ⟨rfl, rfl⟩
  dec_cfg b n := rfl
  dec_last b n := rfl
  adjust b rate burst := forall_rwLanes.mpr ⟨rfl, rfl⟩
  adjust_last b rate burst := rfl
  reset b now := forall_rwLanes.mpr ⟨rfl, rfl⟩
  reset_cfg b now := rfl

theorem ctrRefill_spec (now : UInt32) {b : TokenBucketCtr} (hcounter : b.counter.Within b.cfg) :
    ∃ steps : ℕ,
      (tokenBucketCtrRefill b now).counter.bucket =
        min b.cfg.burst (b.counter.bucket + b.cfg.rate.toNat * steps) ∧
      1 * steps + (now - (tokenBucketCtrRefill b now).lastRefilledAtTimestamp).toNat ≤
        (now - b.lastRefilledAtTimestamp).toNat := by
  rw [tokenBucketCtrRefill]
  by_cases hsec : (now - b.lastRefilledAtTimestamp).toNat ≤ (2 ^ 32 - 1) / 4
  · rw [if_pos hsec]
    refine ⟨(now - b.lastRefilledAtTimestamp).toNat, rawRefillSteps_bucket hcounter, ?_⟩
    rw [UInt32.sub_self, Nat.one_mul]
    exact le_rfl
  · rw [if_neg hsec]
    exact ⟨0, hcounter.refill_none, by simp⟩

theorem ctrKind_lawful : ctrKind.Lawful where
  period_pos := Nat.one_pos
  refill b now h := by
    obtain ⟨steps, hbucket, htime⟩ := ctrRefill_spec now (forall_ctrLanes.mp h)
    exact ⟨steps, forall_ctrLanes.mpr hbucket, htime⟩
  refill_cfg b now := by
    simp only [ctrKind, tokenBucketCtrRefill]
    split <;> rfl
  dec b n := forall_ctrLanes.mpr rfl
  dec_cfg b n := rfl
  dec_last b n := rfl
  adjust b rate burst := forall_ctrLanes.mpr rfl
  adjust_last b rate burst := rfl
  reset b now := forall_ctrLanes.mpr rfl
  reset_cfg b now := rfl

end

/-- What `token_bucket_rw_refill` and `token_bucket_rw_dec` return names the levels that cross. -/
structure RwFlags (approxMsec : ℕ → ℕ) (s : Clocked TokenBucketRw) : Prop where
  refill_read : ∀ now, (tokenBucketRwRefill s.bucket now).2 &&& tbRead ≠ 0 ↔
    s.bucket.readBucket.bucket ≤ 0 ∧ 0 < (tokenBucketRwRefill s.bucket now).1.readBucket.bucket
  refill_write : ∀ now, (tokenBucketRwRefill s.bucket now).2 &&& tbWrite ≠ 0 ↔
    s.bucket.writeBucket.bucket ≤ 0 ∧ 0 < (tokenBucketRwRefill s.bucket now).1.writeBucket.bucket
  dec_read : ∀ n, (rwKind approxMsec).Admissible s (.dec n) →
    ((tokenBucketRwDec s.bucket n.1 n.2).2 &&& tbRead ≠ 0 ↔
      0 < s.bucket.readBucket.bucket ∧
        (tokenBucketRwDec s.bucket n.1 n.2).1.readBucket.bucket ≤ 0)
  dec_write : ∀ n, (rwKind approxMsec).Admissible s (.dec n) →
    ((tokenBucketRwDec s.bucket n.1 n.2).2 &&& tbWrite ≠ 0 ↔
      0 < s.bucket.writeBucket.bucket ∧
        (tokenBucketRwDec s.bucket n.1 n.2).1.writeBucket.bucket ≤ 0)

section
variable {approxMsec : ℕ → ℕ} {s : Clocked TokenBucketRw} {b : TokenBucketRw} {now : UInt32}

theorem not_crosses (l : ℤ) : ¬(l ≤ 0 ∧ 0 < l) := fun h => absurd h.1 (not_le.mpr h.2)

theorem rwRefill_flags : ((tokenBucketRwRefill b now).2 &&& tbRead ≠ 0 ↔ b.readBucket.bucket ≤ 0 ∧
      0 < (tokenBucketRwRefill b now).1.readBucket.bucket) ∧
    ((tokenBucketRwRefill b now).2 &&& tbWrite ≠ 0 ↔ b.writeBucket.bucket ≤ 0 ∧
      0 < (tokenBucketRwRefill b now).1.writeBucket.bucket) := by
  have hzero : ∀ m : ℕ, ¬(0 &&& m ≠ 0) := fun m h => h (Nat.zero_and m)
  rw [tokenBucketRwRefill]
  by_cases hticks : (now - b.lastRefilledAtTimestamp).toNat ≤ (2 ^ 32 - 1) / 4
  · rw [if_pos hticks]
    by_cases hsteps : (now - b.lastRefilledAtTimestamp) / UInt32.ofNat ticksPerStep = 0
    · rw [if_pos hsteps]
      exact ⟨iff_of_false (hzero _) (not_crosses _), iff_of_false (hzero _) (not_crosses _)⟩
    · rw [if_neg hsteps]
      exact ⟨tbFlags_read.trans rawRefillSteps_flag, tbFlags_write.trans rawRefillSteps_flag⟩
  · rw [if_neg hticks]
    exact ⟨iff_of_false (hzero _) (not_crosses _), iff_of_false (hzero _) (not_crosses _)⟩

theorem rwFlags (hs : (rwKind approxMsec).Within s) : RwFlags approxMsec s where
  refill_read _ := rwRefill_flags.1
  refill_write _ := rwRefill_flags.2
  dec_read _ hn := tbFlags_read.trans
    (rawDec_flag (forall_rwLanes.mp hs).1 (forall_rwLanes.mp hn).1)
  dec_write _ hn := tbFlags_write.trans
    (rawDec_flag (forall_rwLanes.mp hs).2 (forall_rwLanes.mp hn).2)

end

/-! ### Runs -/

section
variable (approxMsec : ℕ → ℕ) (rate : Rate) (burst : UInt32) (now : ℕ)

/-- A bucket that has just been initialized. -/
def rwStart : Clocked TokenBucketRw :=
  { bucket := tokenBucketRwInit approxMsec rate burst (.ofNat now), clock := now }

def ctrStart : Clocked TokenBucketCtr :=
  { bucket := tokenBucketCtrInit rate burst (.ofNat now), clock := now }

theorem rwStart_within : (rwKind approxMsec).Within (rwStart approxMsec rate burst now) :=
  forall_rwLanes.mpr ⟨within_reset, within_reset⟩

theorem ctrStart_within : ctrKind.Within (ctrStart rate burst now) :=
  forall_ctrLanes.mpr within_reset

theorem Kind.Lawful.run_within {β δ : Type} {k : Kind β δ} (hk : k.Lawful) {s : Clocked β}
    (hs : k.Within s) {es : List (Event δ)} (hes : Throughout k.step k.Admissible s es) :
    k.Within (run k.step s es) :=
  hes.invariant hs fun _ _ hs he => hk.step_within hs he

/-- Both kinds of bucket stay sound, whatever is done to them at whatever times. -/
theorem tokenBucket_sound :
    (∀ es, Throughout (rwKind approxMsec).step (rwKind approxMsec).Admissible
        (rwStart approxMsec rate burst now) es →
      (∀ lane ∈ (rwKind approxMsec).lanes, (rwKind approxMsec).Sound
        (run (rwKind approxMsec).step (rwStart approxMsec rate burst now) es) lane) ∧
      RwFlags approxMsec (run (rwKind approxMsec).step (rwStart approxMsec rate burst now) es)) ∧
    (∀ es, Throughout ctrKind.step ctrKind.Admissible (ctrStart rate burst now) es →
      ∀ lane ∈ ctrKind.lanes,
        ctrKind.Sound (run ctrKind.step (ctrStart rate burst now) es) lane) := by
  constructor
  · intro es hes
    have hs := rwKind_lawful.run_within (rwStart_within approxMsec rate burst now) hes
    exact ⟨fun lane hlane => rwKind_lawful.sound hlane hs, rwFlags hs⟩
  · intro es hes lane hlane
    exact ctrKind_lawful.sound hlane
      (ctrKind_lawful.run_within (ctrStart_within rate burst now) hes)

end

/-- Half a second after 1500 bytes were read from 1000, by a clock of 953 ticks a second. -/
theorem tokenBucket_sound_halfSecond : let approxMsec := fun units => units * 1000 / 953
    let rate : Rate := ⟨2000, by decide⟩
    let es : List (Event (ℤ × ℤ)) := [.dec (1500, 100), .refill 477]
    let s := run (rwKind approxMsec).step (rwStart approxMsec rate 1000 (2 ^ 32 - 400)) es
    (rwKind approxMsec).Sound s ⟨TokenBucketRw.readBucket, Prod.fst⟩ ∧
      s.bucket.readBucket.bucket = 457 :=
  ⟨((tokenBucket_sound _ _ _ _).1 _ (by decide)).1 _ (List.mem_cons_self ..), by decide⟩

end TorDaemon.Evloop

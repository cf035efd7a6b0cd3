import TorDaemon.SharedRandom.Protocol

/-! The two clocks of the onion services: time periods and shared random runs
(`hs_common.c`, `shared_random_client.c`). The functions are given the valid-after
time of a live consensus, in seconds; a failed assertion is `none`. -/
namespace TorDaemon.HiddenService
open Library.NetworkOrder SharedRandom

section TimePeriods

/-- The consensus parameters that the clocks depend on, in seconds and in minutes. -/
structure Timing where
  votingInterval : ℕ
  timePeriodLength : ℕ

/-- One-hour voting interval and 1440-minute time period. -/
def liveTiming : Timing := ⟨3600, 1440⟩

def sharedRandomNRounds : ℕ := 12
def sharedRandomNPhases : ℕ := 2

section Clocks
variable (t : Timing) (validAfter : ℕ)

def srStateGetPhaseDuration : ℕ := sharedRandomNRounds * t.votingInterval

def srStateGetProtocolRunDuration : ℕ :=
  sharedRandomNRounds * sharedRandomNPhases * t.votingInterval

/-- The valid-after time is the beginning of the current round. -/
def srStateGetStartTimeOfCurrentProtocolRun : ℕ :=
  let currRoundSlot := validAfter / t.votingInterval % (sharedRandomNRounds * sharedRandomNPhases)
  validAfter - currRoundSlot * t.votingInterval

/-- A `now` of 0 stands for the valid-after time. -/
def hsGetTimePeriodNum (now : ℕ) : Option ℕ :=
  let currentTime := if now ≠ 0 then now else validAfter
  let minutesSinceEpoch := currentTime / 60
  let rotationOffset := srStateGetPhaseDuration t / 60
  if rotationOffset < minutesSinceEpoch then
    some ((minutesSinceEpoch - rotationOffset) / t.timePeriodLength)
  else none

def hsGetNextTimePeriodNum (now : ℕ) : Option ℕ :=
  (hsGetTimePeriodNum t validAfter now).map (· + 1)

/-- The subtraction is one of `uint64_t`. -/
def hsGetPreviousTimePeriodNum (now : ℕ) : Option ℕ :=
  (hsGetTimePeriodNum t validAfter now).map fun n => if n = 0 then 2 ^ 64 - 1 else n - 1

def hsGetStartTimeOfNextTimePeriod (now : ℕ) : Option ℕ :=
  (hsGetNextTimePeriodNum t validAfter now).map fun n =>
    n * t.timePeriodLength * 60 + srStateGetPhaseDuration t

def hsInPeriodBetweenTpAndSrv : Option Bool :=
  let srvStartTime := srStateGetStartTimeOfCurrentProtocolRun t validAfter
  (hsGetStartTimeOfNextTimePeriod t validAfter srvStartTime).map fun tpStartTime =>
    ¬ (srvStartTime ≤ validAfter ∧ validAfter < tpStartTime)

end Clocks

/-- The shared random run that a consensus belongs to. -/
def protocolRun (validAfter : ℕ) : ℕ := validAfter / 86400

/-- The half-period segment of a time. Segments begin alternately where a run and
where a time period does, every 43200 seconds. -/
def segment (validAfter : ℕ) : ℕ := validAfter / 43200

/-- The first day of 1970 is left out: its run begins at 0, which is no time to these
functions. -/
def afterFirstDay : ℕ := 86400

variable {t : Timing} {validAfter : ℕ}

@[simp] theorem phaseDuration_live : srStateGetPhaseDuration liveTiming = 43200 := rfl

@[simp] theorem timePeriodLength_live : liveTiming.timePeriodLength = 1440 := rfl

theorem startTimeOfCurrentProtocolRun_live (v : ℕ) :
    srStateGetStartTimeOfCurrentProtocolRun liveTiming v = v - v / 3600 % 24 * 3600 := rfl

@[simp] theorem timePeriodNum_zero :
    hsGetTimePeriodNum t validAfter 0 = hsGetTimePeriodNum t validAfter validAfter := by
  simp [hsGetTimePeriodNum]

theorem timePeriodNum_live {now : ℕ} (h : 43260 ≤ now) :
    hsGetTimePeriodNum liveTiming validAfter now = some ((now - 43200) / 86400) := by
  have hnow : now ≠ 0 := by omega
  have hminutes : 43200 / 60 < now / 60 := by omega
  have hnum : (now / 60 - 43200 / 60) / 1440 = (now - 43200) / 86400 := by omega
  simp only [hsGetTimePeriodNum, phaseDuration_live, timePeriodLength_live, if_pos hnow,
    if_pos hminutes, hnum]

theorem startTimeOfNextTimePeriod_live {now : ℕ} (h : 43260 ≤ now) :
    hsGetStartTimeOfNextTimePeriod liveTiming validAfter now =
      some (((now - 43200) / 86400 + 1) * 86400 + 43200) := by
  have hmul (n : ℕ) : n * 1440 * 60 = n * 86400 := Nat.mul_assoc n 1440 60
  rw [hsGetStartTimeOfNextTimePeriod, hsGetNextTimePeriodNum, timePeriodNum_live h]
  rw [Option.map_some, Option.map_some, phaseDuration_live, timePeriodLength_live, hmul]

theorem inPeriodBetweenTpAndSrv_live (h : afterFirstDay ≤ validAfter) :
    hsInPeriodBetweenTpAndSrv liveTiming validAfter = some (decide (segment validAfter % 2 = 1)) := by
  unfold afterFirstDay at h
  rw [hsInPeriodBetweenTpAndSrv, startTimeOfCurrentProtocolRun_live]
  rw [startTimeOfNextTimePeriod_live (by omega), Option.map_some]
  congr 1
  rw [decide_eq_decide, segment]
  omega

/-- A segment with an even number begins a run, one with an odd number begins the time
period of the same number as the run. -/
theorem protocolRun_segment (v : ℕ) : protocolRun v = segment v / 2 := by
  rw [protocolRun, segment, Nat.div_div_eq_div_mul]

end TimePeriods

/-! The indices of an HSDir (`node_set_hsdir_index`), and which time periods and
shared random values a client and a service build them from. -/

section HsdirIndex

abbrev Ed25519PublicKey := { bytes : Bytes // bytes.length = 32 }

structure HsdirIndex where
  fetch : Digest256
  storeFirst : Digest256
  storeSecond : Digest256
  deriving DecidableEq

structure Routerstatus where
  identityDigest : Digest
  isHsDir : Bool
  deriving DecidableEq

/-- `node_t`, with what `node_get_ed25519_id` and the like read from its descriptor. -/
structure Node where
  rs : Routerstatus
  supportsV3Hsdir : Bool
  hasPreferredDescriptor : Bool
  ed25519Id : Option Ed25519PublicKey
  hsdirIndex : HsdirIndex

structure Consensus where
  validAfter : ℕ
  srvs : ConsensusSrvs

/-- What an index is built from, beside the identity of the node. -/
structure HsdirPeriod where
  timePeriod : ℕ
  srv : Digest256
  deriving DecidableEq

structure HsdirPeriods where
  fetch : HsdirPeriod
  storeFirst : HsdirPeriod
  storeSecond : HsdirPeriod

section Indices
variable (sha3_256 : Bytes → Digest256) (disasterSrv : ℕ → Digest256) (t : Timing)

def hsBuildHsdirIndex (identityPk : Ed25519PublicKey) (p : HsdirPeriod) : Digest256 :=
  sha3_256 (ascii "node-idx" ++ identityPk.val ++ p.srv.val ++ bigEndian 8 p.timePeriod ++
    bigEndian 8 t.timePeriodLength)

def hsGetCurrentSrv (timePeriodNum : ℕ) (ns : Consensus) : Digest256 :=
  match ns.srvs.currentSrv with
  | some srv => srv.value
  | none => disasterSrv timePeriodNum

def hsGetPreviousSrv (timePeriodNum : ℕ) (ns : Consensus) : Digest256 :=
  match ns.srvs.previousSrv with
  | some srv => srv.value
  | none => disasterSrv timePeriodNum

/-- The part of `node_set_hsdir_index` that chooses time periods and values. -/
def hsdirPeriods (ns : Consensus) : Option HsdirPeriods := do
  let current ← hsGetTimePeriodNum t ns.validAfter 0
  let next ← hsGetNextTimePeriodNum t ns.validAfter 0
  let between ← hsInPeriodBetweenTpAndSrv t ns.validAfter
  let previous ← hsGetPreviousTimePeriodNum t ns.validAfter 0
  let fetchSrv := if between then hsGetCurrentSrv disasterSrv current ns
    else hsGetPreviousSrv disasterSrv current ns
  let storeFirstTp := if between then previous else current
  let storeSecondTp := if between then current else next
  return {
    fetch := ⟨current, fetchSrv⟩
    storeFirst := ⟨storeFirstTp, hsGetPreviousSrv disasterSrv storeFirstTp ns⟩
    storeSecond := ⟨storeSecondTp, hsGetCurrentSrv disasterSrv storeSecondTp ns⟩ }

/-- `node_set_hsdir_index`, with a consensus that is live or not. -/
def nodeSetHsdirIndex (live : Bool) (ns : Consensus) (node : Node) : Option Node :=
  if live then
    match node.ed25519Id with
    | none => some node
    | some nodeIdentityPk => do
      let p ← hsdirPeriods disasterSrv t ns
      let between ← hsInPeriodBetweenTpAndSrv t ns.validAfter
      let build := hsBuildHsdirIndex sha3_256 t nodeIdentityPk
      let fetch := build p.fetch
      let storeFirst := if between then build p.storeFirst else fetch
      let storeSecond := if between then fetch else build p.storeSecond
      return { node with hsdirIndex := ⟨fetch, storeFirst, storeSecond⟩ }
  else some node

/-- The three indices, each built from its own pair. -/
def HsdirPeriods.indices (p : HsdirPeriods) (identityPk : Ed25519PublicKey) : HsdirIndex where
  fetch := hsBuildHsdirIndex sha3_256 t identityPk p.fetch
  storeFirst := hsBuildHsdirIndex sha3_256 t identityPk p.storeFirst
  storeSecond := hsBuildHsdirIndex sha3_256 t identityPk p.storeSecond

end Indices

variable {sha3_256 : Bytes → Digest256} {disasterSrv : ℕ → Digest256} {t : Timing}

/-- The index that is copied is the one that would have been built. -/
theorem hsdirPeriods_copied {ns : Consensus} {p : HsdirPeriods} {between : Bool}
    (hp : hsdirPeriods disasterSrv t ns = some p)
    (hbetween : hsInPeriodBetweenTpAndSrv t ns.validAfter = some between) :
    if between then p.storeSecond = p.fetch else p.storeFirst = p.fetch := by
  simp only [hsdirPeriods, hbetween, Option.bind_eq_bind, Option.bind_eq_some_iff,
    Option.some.injEq, Option.pure_def] at hp
  obtain ⟨current, -, next, -, _, rfl, previous, -, rfl⟩ := hp
  cases between <;> rfl

theorem nodeSetHsdirIndex_eq {ns : Consensus} {p : HsdirPeriods} {node : Node}
    {identityPk : Ed25519PublicKey} (hp : hsdirPeriods disasterSrv t ns = some p)
    (hid : node.ed25519Id = some identityPk) :
    nodeSetHsdirIndex sha3_256 disasterSrv t true ns node =
      some { node with hsdirIndex := p.indices sha3_256 t identityPk } := by
  have hbetween : ∃ between, hsInPeriodBetweenTpAndSrv t ns.validAfter = some between := by
    simp only [hsdirPeriods, Option.bind_eq_bind, Option.bind_eq_some_iff] at hp
    obtain ⟨_, -, _, -, b, hb, -⟩ := hp
    exact ⟨b, hb⟩
  obtain ⟨between, hbetween⟩ := hbetween
  have hcopied := hsdirPeriods_copied hp hbetween
  simp only [nodeSetHsdirIndex, hid, hp, hbetween, if_true, Option.bind_eq_bind,
    Option.bind_some, Option.pure_def, HsdirPeriods.indices]
  cases between with
  | false =>
    simp only [Bool.false_eq_true, if_false] at hcopied ⊢
    rw [hcopied]
  | true =>
    simp only [if_true] at hcopied ⊢
    rw [hcopied]

/-- A consensus of run `r` carries the value of the run and the one before it. -/
def consensusAt (srv : ℤ → Srv) (validAfter : ℕ) : Consensus where
  validAfter := validAfter
  srvs := ⟨some (srv (protocolRun validAfter - 1)), some (srv (protocolRun validAfter))⟩

/-- Time period `n` goes with the value of run `n`. -/
def periodOf (srv : ℤ → Srv) (n : ℕ) : HsdirPeriod := ⟨n, (srv n).value⟩

/-- The pairs in terms of the segment: time period `n` begins with segment `2 * n + 1`,
run `n` with segment `2 * n`. -/
def periodsAt (srv : ℤ → Srv) (segment : ℕ) : HsdirPeriods where
  fetch := periodOf srv ((segment - 1) / 2)
  storeFirst := periodOf srv (segment / 2 - 1)
  storeSecond := periodOf srv (segment / 2)

theorem hsdirPeriods_consensusAt (disasterSrv : ℕ → Digest256) (srv : ℤ → Srv) {v : ℕ}
    (h : afterFirstDay ≤ v) : hsdirPeriods disasterSrv liveTiming (consensusAt srv v) =
      some (periodsAt srv (segment v)) := by
  have hv : 86400 ≤ v := h
  have hnum : hsGetTimePeriodNum liveTiming v 0 = some ((segment v - 1) / 2) := by
    rw [timePeriodNum_zero, timePeriodNum_live (by omega), segment, Option.some.injEq]
    omega
  have hrun : (↑(segment v / 2) - 1 : ℤ) = ↑(segment v / 2 - 1) := by
    have hseg : 2 ≤ segment v := by unfold segment; omega
    omega
  have hcurrent : (consensusAt srv v).srvs.currentSrv = some (srv ↑(segment v / 2)) := by
    rw [← protocolRun_segment]
    rfl
  have hprevious : (consensusAt srv v).srvs.previousSrv = some (srv ↑(segment v / 2 - 1)) := by
    rw [← hrun, ← protocolRun_segment]
    rfl
  have hafter : (consensusAt srv v).validAfter = v := rfl
  simp only [hsdirPeriods, hafter, hsGetNextTimePeriodNum, hsGetPreviousTimePeriodNum, hnum,
    inPeriodBetweenTpAndSrv_live h, hsGetCurrentSrv, hsGetPreviousSrv, hcurrent, hprevious]
  rcases Nat.mod_two_eq_zero_or_one (segment v) with heven | hodd
  · have hfetch : (segment v - 1) / 2 = segment v / 2 - 1 := by omega
    have hnext : segment v / 2 - 1 + 1 = segment v / 2 := by
      omega
    simp [heven, hfetch, hnext, periodsAt, periodOf]
  · have hfetch : (segment v - 1) / 2 = segment v / 2 := by omega
    have hpos : segment v / 2 ≠ 0 := by unfold segment; omega
    simp [hodd, hfetch, hpos, periodsAt, periodOf]

/-- The segments are the same or adjacent. -/
def Adjacent (s s' : ℕ) : Prop := s ≤ s' + 1 ∧ s' ≤ s + 1

instance {s s' : ℕ} : Decidable (Adjacent s s') :=
  inferInstanceAs (Decidable (s ≤ s' + 1 ∧ s' ≤ s + 1))

theorem periodsAt_agree {srv : ℤ → Srv} {s s' : ℕ} (hpos : 0 < s) (h : Adjacent s s') :
    (periodsAt srv s).fetch = (periodsAt srv s').storeFirst ∨
      (periodsAt srv s).fetch = (periodsAt srv s').storeSecond := by
  have hnum : (s - 1) / 2 = s' / 2 - 1 ∨ (s - 1) / 2 = s' / 2 := by
    unfold Adjacent at h
    omega
  exact hnum.imp (congrArg (periodOf srv)) (congrArg (periodOf srv))

/-- A client finds the descriptor where the service has stored it, as far as time
periods and shared random values go. -/
theorem hsdirPeriods_agree (sha3_256 : Bytes → Digest256) (disasterSrv : ℕ → Digest256)
    (srv : ℤ → Srv) (vc vs : ℕ) (hc : afterFirstDay ≤ vc) (hs : afterFirstDay ≤ vs)
    (hadj : Adjacent (segment vc) (segment vs)) :
    ∃ c s, hsdirPeriods disasterSrv liveTiming (consensusAt srv vc) = some c ∧
      hsdirPeriods disasterSrv liveTiming (consensusAt srv vs) = some s ∧
      (c.fetch = s.storeFirst ∨ c.fetch = s.storeSecond) ∧
      ∀ node identityPk, node.ed25519Id = some identityPk →
        nodeSetHsdirIndex sha3_256 disasterSrv liveTiming true (consensusAt srv vc) node =
            some { node with hsdirIndex := c.indices sha3_256 liveTiming identityPk } ∧
          nodeSetHsdirIndex sha3_256 disasterSrv liveTiming true (consensusAt srv vs) node =
            some { node with hsdirIndex := s.indices sha3_256 liveTiming identityPk } := by
  have hclient := hsdirPeriods_consensusAt disasterSrv srv hc
  have hservice := hsdirPeriods_consensusAt disasterSrv srv hs
  have hpos : 0 < segment vc := by
    have hv : 86400 ≤ vc := hc
    unfold segment
    omega
  refine ⟨_, _, hclient, hservice, periodsAt_agree hpos hadj, ?_⟩
  intro node identityPk hid
  exact ⟨nodeSetHsdirIndex_eq hclient hid, nodeSetHsdirIndex_eq hservice hid⟩

/-- Values that tell a run from the next. -/
def runValue (r : ℤ) : Srv := ⟨8, Digest256.replicate (if r % 2 = 0 then 1 else 2)⟩

def noDigest (_ : Bytes) : Digest256 := Digest256.replicate 0

def noDisaster (_ : ℕ) : Digest256 := Digest256.replicate 0

/-- The client is in the last second before a time period, the service in its first. -/
theorem hsdirPeriods_agree_noon :
    ∃ c s, hsdirPeriods noDisaster liveTiming (consensusAt runValue 129599) = some c ∧
      hsdirPeriods noDisaster liveTiming (consensusAt runValue 129600) = some s ∧
      (c.fetch = s.storeFirst ∨ c.fetch = s.storeSecond) ∧
      ∀ node identityPk, node.ed25519Id = some identityPk →
        nodeSetHsdirIndex noDigest noDisaster liveTiming true (consensusAt runValue 129599) node =
            some { node with hsdirIndex := c.indices noDigest liveTiming identityPk } ∧
          nodeSetHsdirIndex noDigest noDisaster liveTiming true (consensusAt runValue 129600) node =
            some { node with hsdirIndex := s.indices noDigest liveTiming identityPk } :=
  hsdirPeriods_agree noDigest noDisaster runValue 129599 129600 (by decide) (by decide) (by decide)

/-- In the first day the start of the run is 0, and the start of the next time period is
taken from the consensus instead: 13:00 counts as before noon. -/
theorem hsdirPeriods_disagree_first_day :
    ¬ ∀ (srv : ℤ → Srv) (vc vs : ℕ), Adjacent (segment vc) (segment vs) →
      ∀ c ∈ hsdirPeriods noDisaster liveTiming (consensusAt srv vc),
        ∀ s ∈ hsdirPeriods noDisaster liveTiming (consensusAt srv vs),
          c.fetch = s.storeFirst ∨ c.fetch = s.storeSecond := by
  intro h
  have hagree := h runValue 46800 86400 (by decide) _ rfl _ rfl
  revert hagree
  decide

end HsdirIndex

end TorDaemon.HiddenService

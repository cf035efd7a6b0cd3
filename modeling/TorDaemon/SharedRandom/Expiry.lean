import TorDaemon.Dirvote.VotingSchedule
import TorDaemon.SharedRandom.DiskRoundTrip
import TorDaemon.SharedRandom.Update

/-! When the state of a protocol run expires (`get_state_valid_until_time` and
`reset_state_for_new_protocol_run`), and whether the rounds of the run can load it. -/
namespace TorDaemon.SharedRandom
open Library.NetworkOrder Library.Sorting Keypin Dirvote
variable (digest256 : Bytes → Digest256)

/-- The rounds of a protocol run. -/
def totalRounds : ℕ := sharedRandomNRounds * sharedRandomNPhases

/-- The round of the protocol run that a time is in. -/
def roundOf (interval validAfter : ℕ) : ℕ := validAfter / interval % totalRounds

/-- The start of the next protocol run after a time. -/
def nextRunStart (interval validAfter : ℕ) : ℕ :=
  (validAfter / (interval * totalRounds) + 1) * (interval * totalRounds)

/-- The states of the run that the update for `validAfter` begins: after that update, the votes
that arrive, and the updates that follow the consensus of each round. -/
inductive RoundState (env : Env) (validAfter : ℕ) (s : SrState) : ℕ → SrState → Prop
  | begun {p : Progress} : srStateUpdate digest256 env validAfter ⟨s, []⟩ = some p →
      RoundState env validAfter s 0 p.state
  | vote {k : ℕ} {t : SrState} {env' : Env} {lines : List (List Bytes)} {voterKey : Digest}
      {p : Progress} : RoundState env validAfter s k t →
      receiveVote digest256 env' lines voterKey ⟨t, []⟩ = some p →
      RoundState env validAfter s k p.state
  | consensus {k : ℕ} {t : SrState} {env' : Env} {srvs : Option ConsensusSrvs} {p : Progress} :
      RoundState env validAfter s k t → env'.votingInterval = env.votingInterval →
      env'.nextValidAfter = validAfter + (k + 1) * env.votingInterval →
      srActPostConsensus digest256 env' srvs ⟨t, []⟩ = some p →
      RoundState env validAfter s (k + 1) p.state

/-- The state of the run expires at the start of the next run, and in each round a state of the
round is loaded from the disk until the round is over. -/
def ExpiresRight (env : Env) (validAfter : ℕ) (s : SrState) : Prop :=
  ∀ k t, RoundState digest256 env validAfter s k t →
    roundOf env.votingInterval validAfter + k < totalRounds →
    t.validUntil = nextRunStart env.votingInterval validAfter ∧
      ∀ now, now < validAfter + (k + 1) * env.votingInterval →
        diskStateValidate now (diskStateUpdate t) = true

/-! ### What an operation leaves of the times -/

section Times
variable {digest256} {env : Env} {s t : SrState} {validAfter k : ℕ} {p q : Progress}

/-- What the expiry of a state depends on. -/
structure SameTimes (s t : SrState) : Prop where
  phase : t.phase = s.phase
  version : t.version = s.version
  validAfter : t.validAfter = s.validAfter
  validUntil : t.validUntil = s.validUntil

theorem SameTimes.refl (s : SrState) : SameTimes s s := ⟨rfl, rfl, rfl, rfl⟩

theorem SameTimes.trans {u : SrState} (h : SameTimes s t) (h' : SameTimes t u) : SameTimes s u :=
  ⟨h'.phase.trans h.phase, h'.version.trans h.version, h'.validAfter.trans h.validAfter,
    h'.validUntil.trans h.validUntil⟩

theorem sameTimes_countRound (s : SrState) : SameTimes s (countRound s) := by
  unfold countRound
  split_ifs <;> exact ⟨rfl, rfl, rfl, rfl⟩

theorem sameTimes_withOwn (s : SrState) : SameTimes s (withOwn digest256 env validAfter s) := by
  unfold withOwn
  cases srGenerateOurCommit digest256 env validAfter <;> exact ⟨rfl, rfl, rfl, rfl⟩

theorem saveCommitToState_phase {u v : State} {c : Commit} (h : saveCommitToState u c = some v) :
    v.phase = u.phase := by
  unfold saveCommitToState at h
  split at h
  · cases h
    rfl
  · split at h
    · cases h
    · split at h
      · cases h
        rfl
      · cases h

theorem receiveCommit_sameTimes {voterKey : Digest} {c : Commit}
    (h : receiveCommit digest256 env voterKey p c = some q) : SameTimes p.state q.state := by
  unfold receiveCommit at h
  split at h
  · obtain ⟨u, hu, heq⟩ := Option.bind_eq_some_iff.mp h
    cases heq
    exact ⟨saveCommitToState_phase hu, rfl, rfl, rfl⟩
  · cases h
    exact .refl _

theorem receiveVote_sameTimes {lines : List (List Bytes)} {voterKey : Digest}
    (h : receiveVote digest256 env lines voterKey p = some q) : SameTimes p.state q.state := by
  unfold receiveVote at h
  generalize visited (lines.filterMap srParseCommit) = commits at h
  induction commits generalizing p with
  | nil =>
    cases h
    exact .refl _
  | cons c commits ih =>
    obtain ⟨r, hr, hrest⟩ := Option.bind_eq_some_iff.mp h
    exact (receiveCommit_sameTimes hr).trans (ih hrest)

/-- The update for the next round, within a run: only the round and the phase go on. -/
theorem srStateUpdate_times (hlater : s.validAfter < validAfter)
    (hwithin : ¬ StartsRun env validAfter s) {saves : List SrState}
    (h : srStateUpdate digest256 env validAfter ⟨s, saves⟩ = some p) :
    p.state.validAfter = validAfter ∧ p.state.phase = getSrProtocolPhase env validAfter ∧
      p.state.version = s.version ∧ p.state.validUntil = s.validUntil := by
  rw [srStateUpdate_within digest256 env validAfter hlater hwithin] at h
  cases h
  have hcount := sameTimes_countRound (prepared digest256 env validAfter s)
  have hown : SameTimes s
      (if MakesCommit env validAfter s then withOwn digest256 env validAfter s else s) := by
    split_ifs
    · exact sameTimes_withOwn s
    · exact .refl s
  exact ⟨hcount.validAfter, hcount.phase, hcount.version.trans hown.version,
    hcount.validUntil.trans hown.validUntil⟩

theorem srStateUpdate_begins (hstart : StartsRun env validAfter s)
    (h : srStateUpdate digest256 env validAfter ⟨s, []⟩ = some p) :
    p.state.validAfter = validAfter ∧ p.state.phase = .commit ∧ p.state.version = s.version ∧
      p.state.validUntil = getStateValidUntilTime env validAfter := by
  rw [srStateUpdate_run digest256 env validAfter hstart] at h
  cases h
  have hcount := sameTimes_countRound (begun digest256 env validAfter s)
  have hown : SameTimes (resetted digest256 env validAfter s)
      (withOwn digest256 env validAfter (resetted digest256 env validAfter s)) :=
    sameTimes_withOwn _
  exact ⟨hcount.validAfter, hcount.phase, hcount.version.trans hown.version,
    hcount.validUntil.trans hown.validUntil⟩

/-! ### The rounds of a run -/

theorem roundOf_add {interval : ℕ} (hpos : 0 < interval) (hdvd : interval ∣ validAfter)
    (hround : roundOf interval validAfter + k < totalRounds) :
    roundOf interval (validAfter + k * interval) = roundOf interval validAfter + k := by
  obtain ⟨n, rfl⟩ := hdvd
  have hquot : (interval * n + k * interval) / interval = n + k := by
    rw [Nat.mul_comm k, ← Nat.mul_add, Nat.mul_div_cancel_left _ hpos]
  simp only [roundOf, hquot, Nat.mul_div_cancel_left _ hpos] at hround ⊢
  rw [Nat.add_mod, Nat.mod_eq_of_lt (by omega : k < totalRounds), Nat.mod_eq_of_lt hround]

theorem getSrProtocolPhase_eq (env : Env) (validAfter : ℕ) : getSrProtocolPhase env validAfter =
      if roundOf env.votingInterval validAfter < sharedRandomNRounds then .commit else .reveal :=
  rfl

theorem RoundState.times (hpos : 0 < env.votingInterval) (hdvd : env.votingInterval ∣ validAfter)
    (hstart : StartsRun env validAfter s) (h : RoundState digest256 env validAfter s k t)
    (hround : roundOf env.votingInterval validAfter + k < totalRounds) :
    t.validAfter = validAfter + k * env.votingInterval ∧
      t.phase = getSrProtocolPhase env (validAfter + k * env.votingInterval) ∧
      t.version = s.version ∧ t.validUntil = getStateValidUntilTime env validAfter := by
  induction h with
  | begun hupdate =>
    rw [Nat.zero_mul, Nat.add_zero, hstart.2.2]
    exact srStateUpdate_begins hstart hupdate
  | vote hstate hvote ih =>
    obtain ⟨hafter, hphase, hversion, huntil⟩ := ih hround
    have hsame := receiveVote_sameTimes hvote
    exact ⟨hsame.validAfter.trans hafter, hsame.phase.trans hphase,
      hsame.version.trans hversion, hsame.validUntil.trans huntil⟩
  | @consensus k t env' srvs p hstate hinterval hnext hact ih =>
    obtain ⟨hafter, hphase, hversion, huntil⟩ := ih (by omega)
    have hmul : (k + 1) * env.votingInterval = k * env.votingInterval + env.votingInterval :=
      Nat.succ_mul k _
    have hnow := roundOf_add hpos hdvd (by omega : roundOf env.votingInterval validAfter + k < _)
    have hlater := roundOf_add hpos hdvd hround
    have hnextPhase : getSrProtocolPhase env' env'.nextValidAfter =
        getSrProtocolPhase env (validAfter + (k + 1) * env.votingInterval) := by
      rw [getSrProtocolPhase_eq, getSrProtocolPhase_eq, hinterval, hnext]
    have hupdate : ∀ u : SrState, ∀ saves : List SrState, SameTimes t u →
        srStateUpdate digest256 env' env'.nextValidAfter ⟨u, saves⟩ = some p →
        p.state.validAfter = validAfter + (k + 1) * env.votingInterval ∧
          p.state.phase =
            getSrProtocolPhase env (validAfter + (k + 1) * env.votingInterval) ∧
          p.state.version = s.version ∧
          p.state.validUntil = getStateValidUntilTime env validAfter := by
      intro u saves hsame hu
      have hwithin : ¬ StartsRun env' env'.nextValidAfter u := by
        rintro ⟨-, hreveal, hcommit⟩
        rw [hnextPhase, getSrProtocolPhase_eq, hlater] at hcommit
        rw [hsame.phase, hphase, getSrProtocolPhase_eq, hnow] at hreveal
        split_ifs at hcommit hreveal
        omega
      have htimes := srStateUpdate_times (by rw [hsame.validAfter, hafter, hnext]; omega)
        hwithin hu
      rw [hnextPhase, hnext] at htimes
      exact ⟨htimes.1, htimes.2.1, htimes.2.2.1.trans (hsame.version.trans hversion),
        htimes.2.2.2.trans (hsame.validUntil.trans huntil)⟩
    cases srvs with
    | none => exact hupdate t [] (.refl t) hact
    | some srvs => exact hupdate (takeSrvs srvs ⟨t, []⟩).state _ ⟨rfl, rfl, rfl, rfl⟩ hact

theorem nextRunStart_eq {interval : ℕ} (hpos : 0 < interval) (hdvd : interval ∣ validAfter) :
    nextRunStart interval validAfter =
      validAfter + (totalRounds - roundOf interval validAfter) * interval := by
  obtain ⟨n, rfl⟩ := hdvd
  have hle : n % totalRounds ≤ totalRounds := (Nat.mod_lt n (by decide)).le
  have hround : roundOf interval (interval * n) = n % totalRounds := by
    rw [roundOf, Nat.mul_div_cancel_left _ hpos]
  have hdiv := Nat.div_add_mod n totalRounds
  have hrounds : (n / totalRounds + 1) * totalRounds = n + (totalRounds - n % totalRounds) := by
    rw [Nat.add_mul, Nat.mul_comm (n / totalRounds)]
    omega
  rw [nextRunStart, hround, Nat.mul_div_mul_left _ _ hpos, Nat.mul_left_comm, hrounds,
    Nat.mul_add, Nat.mul_comm interval (_ - _)]

theorem diskStateValidate_iff {now : ℕ} (hversion : t.version ≠ 0 ∧ t.version ≤ srProtoVersion) :
    diskStateValidate now (diskStateUpdate t) = true ↔
      now ≤ t.validUntil ∧ t.validAfter < t.validUntil := by
  simp only [diskStateValidate, diskStateUpdate, decide_eq_true_eq, not_or, Nat.not_lt,
    Nat.not_le]
  exact ⟨And.right, And.intro hversion⟩

end Times

/-! ### The expiry of a run -/

/-- The schedule hands a valid-after time over, with the one that it takes for the current
consensus. Its interval divides the day. -/
structure Scheduled (sched : VotingSchedule) (env : Env) (validAfter : ℕ) : Prop where
  interval : sched.interval = env.votingInterval
  day : sched.interval ∣ 86400
  next : sched.getNextValidAfterTime = validAfter
  cur : sched.getCurValidAfterTime 0 = env.curValidAfter
  calendar : InCalendar sched.getNextValidAfterTime

section Expiry
variable {env : Env} {s : SrState} {validAfter : ℕ}

/-- The current consensus of the schedule is one interval before the time that it hands over. -/
theorem Scheduled.curValidAfter_add {sched : VotingSchedule} (h : Scheduled sched env validAfter)
    (hpos : 0 < env.votingInterval) (hdvd : env.votingInterval ∣ validAfter)
    (hlater : 0 < validAfter) : env.curValidAfter + env.votingInterval = validAfter := by
  obtain ⟨hinterval, hday, hnext, hcur, hcalendar⟩ := h
  have hle : env.votingInterval ≤ 86400 := by
    apply Nat.le_of_dvd (by decide)
    rw [hinterval] at hday
    exact_mod_cast hday
  have hstart : sched.interval ∣ sched.intervalStarts := by
    rw [VotingSchedule.getNextValidAfterTime] at hnext
    rw [hinterval, hnext]
    exact_mod_cast hdvd
  simp only [VotingSchedule.getNextValidAfterTime] at hnext hcalendar
  have hbefore : InCalendar (sched.intervalStarts - sched.interval - 1) := by
    unfold InCalendar yearOne yearTenThousand at *
    omega
  rw [getCurValidAfterTime_of_dvd (by omega) hday hstart hbefore] at hcur
  omega

/-- The expiry is right just where the schedule's current consensus is the one that the run
begins with. It never is: the schedule is one interval behind, and the state of the last round
cannot be loaded. -/
theorem expiresRight_iff (hpos : 0 < env.votingInterval) (hdvd : env.votingInterval ∣ validAfter)
    (hversion : s.version ≠ 0 ∧ s.version ≤ srProtoVersion) (hstart : StartsRun env validAfter s) :
    (ExpiresRight digest256 env validAfter s ↔ env.curValidAfter = validAfter) ∧
    ∀ sched, Scheduled sched env validAfter → ¬ ExpiresRight digest256 env validAfter s ∧
      ∀ k t, RoundState digest256 env validAfter s k t →
        roundOf env.votingInterval validAfter + k + 1 = totalRounds →
        ∀ now, diskStateValidate now (diskStateUpdate t) = false := by
  have hround : roundOf env.votingInterval validAfter < totalRounds := Nat.mod_lt _ (by decide)
  have hnext := nextRunStart_eq hpos hdvd
  have huntil : getStateValidUntilTime env validAfter = env.curValidAfter +
      (totalRounds - roundOf env.votingInterval validAfter) * env.votingInterval := rfl
  have hright : ExpiresRight digest256 env validAfter s ↔ env.curValidAfter = validAfter := by
    constructor
    · intro h
      have hbegun := RoundState.begun (srStateUpdate_run digest256 env validAfter (p := ⟨s, []⟩)
        hstart)
      have hexpires := (h 0 _ hbegun hround).1
      have htimes := hbegun.times hpos hdvd hstart hround
      omega
    · intro hcur k t hstate hk
      obtain ⟨hafter, -, hsame, hvalid⟩ := hstate.times hpos hdvd hstart hk
      have hmono : (k + 1) * env.votingInterval ≤
          (totalRounds - roundOf env.votingInterval validAfter) * env.votingInterval :=
        Nat.mul_le_mul_right _ (by omega)
      have hmul := Nat.succ_mul k env.votingInterval
      refine ⟨by omega, fun now hnow => ?_⟩
      rw [diskStateValidate_iff (hsame ▸ hversion)]
      simp only [Nat.succ_eq_add_one] at hmul
      omega
  refine ⟨hright, fun sched hsched => ?_⟩
  have hbehind := hsched.curValidAfter_add hpos hdvd (Nat.zero_lt_of_lt hstart.1)
  refine ⟨fun h => ?_, fun k t hstate hk now => ?_⟩
  · have hcur := hright.mp h
    omega
  · obtain ⟨hafter, -, hsame, hvalid⟩ := hstate.times hpos hdvd hstart (by omega)
    have hleft : totalRounds - roundOf env.votingInterval validAfter = k + 1 := by omega
    rw [hleft, Nat.succ_mul] at huntil
    rw [Bool.eq_false_iff]
    intro hload
    rw [diskStateValidate_iff (hsame ▸ hversion)] at hload
    omega

end Expiry

/-- An authority that votes each hour, at 23:00 of a day. -/
def hourlyEnv : Env where
  recognized _ := true
  identity := none
  random := Digest256.replicate 0
  votingInterval := 3600
  curValidAfter := 82800
  nextValidAfter := 86400
  sort := stableQsort compareReveal

def hourlyState : SrState := { stateNew hourlyEnv 82800 with validAfter := 82800 }

theorem expiresRight_iff_hourly :
    ExpiresRight prefixDigest hourlyEnv 86400 hourlyState ↔ hourlyEnv.curValidAfter = 86400 :=
  (expiresRight_iff prefixDigest (by decide) (by decide) (by decide) (by decide)).1

/-- The state of the run that begins at midnight expires at 23:00, an hour too early. -/
theorem expires_hour_early : ¬ ExpiresRight prefixDigest hourlyEnv 86400 hourlyState ∧
      (srStateUpdate prefixDigest hourlyEnv 86400 ⟨hourlyState, []⟩).map
        (fun p => p.state.validUntil) = some 169200 ∧ nextRunStart 3600 86400 = 172800 := by
  have hbegins : StartsRun hourlyEnv 86400 hourlyState := by decide
  have hbegun := RoundState.begun (srStateUpdate_run prefixDigest hourlyEnv 86400
    (p := ⟨hourlyState, []⟩) hbegins)
  refine ⟨fun h => ?_, by decide +kernel, by decide⟩
  exact absurd (h 0 _ hbegun (by decide)).1 (by decide +kernel)

end TorDaemon.SharedRandom

import TorDaemon.Congestion.Estimates
import TorDaemon.Library.Reachability
import TorDaemon.Library.Sorting
import TorDaemon.Library.Words

/-! The minimum of a circuit's round trip times stays at or below their average
(`congestion_control_common.c`), as long as no reset lifts it. -/
namespace TorDaemon.Congestion
open Library.Reachability

variable {cc : CongestionControl} {p : Params} {s : Sendme} {pct : UInt8} {x y z rtt : UInt64}
  {sentAt : UInt64} {cc' : CongestionControl}

/-! ### The weighted mix -/

/-- `pct` percent of `x`, as the mix rounds it. -/
def share (pct : UInt8) (x : UInt64) : UInt64 := pct.toUInt64 * x / 100

theorem share_toNat_le (pct : UInt8) (h : x ≤ z) : (share pct x).toNat ≤ pct.toNat * z.toNat / 100 := by
  have hx : x.toNat ≤ z.toNat := h
  have hmod := Nat.mod_le (pct.toNat * x.toNat) (2 ^ 64)
  have hmul := Nat.mul_le_mul_left pct.toNat hx
  exact Nat.div_le_div_right (hmod.trans hmul)

/-- The two shares of what is at most `z` do not exceed it. -/
theorem shares_le (hp : pct ≤ 100) (hx : x ≤ z) (hy : y ≤ z) :
    (share pct x).toNat + (share (100 - pct) y).toNat ≤ z.toNat := by
  have hpct : pct.toNat ≤ 100 := hp
  have hrest : (100 - pct).toNat = 100 - pct.toNat := UInt8.toNat_sub_of_le _ _ hp
  have h₁ := share_toNat_le pct hx
  have h₂ := share_toNat_le (100 - pct) hy
  rw [hrest] at h₂
  have hsum : pct.toNat * z.toNat + (100 - pct.toNat) * z.toNat = 100 * z.toNat := by
    rw [← Nat.add_mul, Nat.add_sub_of_le hpct]
  omega

theorem add_shares_toNat (hp : pct ≤ 100) (hx : x ≤ z) (hy : y ≤ z) :
    (share pct x + share (100 - pct) y).toNat =
      (share pct x).toNat + (share (100 - pct) y).toNat := by
  rw [UInt64.toNat_add, Nat.mod_eq_of_lt]
  exact (shares_le hp hx hy).trans_lt z.toNat_lt

theorem percentMaxMix_eq (hp : pct ≤ 100) :
    percentMaxMix x y pct = share pct (max x y) + share (100 - pct) (min x y) := by
  rw [percentMaxMix, if_neg (not_lt.mpr hp)]
  rfl

/-- The mix of an average and an older minimum is a minimum of the average: something of them is
left by the rounding, and what is kept of a higher minimum fits below the average. -/
def MixFits (pct : UInt8) (ewma minRtt : UInt64) : Prop :=
  (share pct (max ewma minRtt) ≠ 0 ∨ share (100 - pct) (min ewma minRtt) ≠ 0) ∧
    (minRtt ≤ ewma ∨ share pct minRtt ≤ ewma - share (100 - pct) ewma)

theorem percentMaxMix_pos_iff (hp : pct ≤ 100) : 0 < percentMaxMix x y pct ↔
      share pct (max x y) ≠ 0 ∨ share (100 - pct) (min x y) ≠ 0 := by
  have hadd := add_shares_toNat hp (le_refl (max x y)) (min_le_max (a := x) (b := y))
  rw [percentMaxMix_eq hp, UInt64.lt_iff_toNat_lt, hadd]
  simp only [ne_eq, ← UInt64.toNat_inj, UInt64.toNat_zero]
  omega

theorem percentMaxMix_le_iff (hp : pct ≤ 100) :
    percentMaxMix x y pct ≤ x ↔ y ≤ x ∨ share pct y ≤ x - share (100 - pct) x := by
  rw [percentMaxMix_eq hp]
  by_cases hyx : y ≤ x
  · have hle := shares_le hp (le_refl x) hyx
    have hadd := add_shares_toNat hp (le_refl x) hyx
    rw [max_eq_left hyx, min_eq_right hyx, UInt64.le_iff_toNat_le, hadd]
    exact iff_of_true hle (.inl hyx)
  · have hxy : x ≤ y := (not_le.mp hyx).le
    have hadd := add_shares_toNat hp (le_refl y) hxy
    have hshare : share (100 - pct) x ≤ x := by
      have := shares_le (x := 0) hp (Nat.zero_le x.toNat) (le_refl x)
      exact (Nat.le_add_left _ _).trans this
    have hsub := UInt64.toNat_sub_of_le _ _ hshare
    rw [max_eq_right hxy, min_eq_left hxy, UInt64.le_iff_toNat_le, hadd, or_iff_right hyx,
      UInt64.le_iff_toNat_le, hsub]
    exact (Nat.le_sub_iff_add_le hshare).symm

/-! ### The moving average -/

theorem nEwmaCount_le (p : Params) (cc : CongestionControl) : (nEwmaCount p cc).toNat ≤ 255 := by
  have hss := p.nEwmaSs.toNat_lt
  have hmax := p.nEwmaMax.toNat_lt
  have hle : nEwmaCount p cc ≤ 255 := by
    apply max_le
    · split
      · show p.nEwmaSs.toNat ≤ 255
        omega
      · apply (min_le_right _ _).trans
        show p.nEwmaMax.toNat ≤ 255
        omega
    · decide
  exact hle

/-- The average that a sample moves is not rounded down to zero. -/
def AverageLasts (p : Params) (cc : CongestionControl) (rtt : UInt64) : Prop :=
  cc.ewmaRttUsec = 0 ∨
    nEwmaCount p cc + 1 ≤ 2 * rtt + (nEwmaCount p cc - 1) * cc.ewmaRttUsec

theorem nCountEwma_ne_zero_iff (p : Params) (cc : CongestionControl) (hrtt : rtt ≠ 0) :
    nCountEwma rtt cc.ewmaRttUsec (nEwmaCount p cc) ≠ 0 ↔ AverageLasts p cc rtt := by
  unfold nCountEwma AverageLasts
  split
  case isTrue hewma => exact iff_of_true hrtt (.inl hewma)
  case isFalse hewma =>
    have hn : (nEwmaCount p cc + 1).toNat = (nEwmaCount p cc).toNat + 1 := by
      have := nEwmaCount_le p cc
      rw [UInt64.toNat_add, UInt64.toNat_one, Nat.mod_eq_of_lt (by omega)]
    rw [or_iff_right hewma, ne_eq, ← UInt64.toNat_inj, UInt64.toNat_div, UInt64.toNat_zero,
      Nat.div_eq_zero_iff, hn, UInt64.le_iff_toNat_le, hn]
    omega

/-! ### One sample -/

/-- The estimates of a circuit before its first accepted sample, or after it. -/
def Estimated (cc : CongestionControl) : Prop :=
  (cc.ewmaRttUsec = 0 ∧ cc.minRttUsec = 0) ∨
    (0 < cc.minRttUsec ∧ cc.minRttUsec ≤ cc.ewmaRttUsec)

/-- A sample resets the minimum: the window is at its floor after slow start. -/
def Resets (cc : CongestionControl) : Prop :=
  cc.minRttUsec ≠ 0 ∧ cc.cwnd = cc.cwndMin.toUInt64 ∧ cc.inSlowStart = false

/-- The sample leaves an average, and a reset mixes no minimum above it. -/
def SampleFits (p : Params) (cc : CongestionControl) (rtt : UInt64) : Prop :=
  AverageLasts p cc rtt ∧
    (Resets cc → MixFits p.rttResetPct (nCountEwma rtt cc.ewmaRttUsec (nEwmaCount p cc))
      cc.minRttUsec)

theorem nextMinRtt_reset (h : Resets cc) :
    nextMinRtt p cc x = percentMaxMix x cc.minRttUsec p.rttResetPct := by
  rw [nextMinRtt, if_neg h.1, if_pos ⟨h.2.1, by rw [h.2.2]; rfl⟩]

theorem nextMinRtt_lower (h : ¬ Resets cc) (hmin : cc.minRttUsec ≠ 0) :
    nextMinRtt p cc x = min x cc.minRttUsec := by
  have hno : ¬ (cc.cwnd = cc.cwndMin.toUInt64 ∧ !cc.inSlowStart) := by
    intro hr
    exact h ⟨hmin, hr.1, by simpa using hr.2⟩
  rw [nextMinRtt, if_neg hmin, if_neg hno]
  split
  case isTrue hlt => exact (min_eq_left hlt.le).symm
  case isFalse hge => exact (min_eq_right (not_lt.mp hge)).symm

theorem takeSample_iff (p : Params) (cc : CongestionControl) (hrtt : rtt ≠ 0) :
    (0 < (takeSample p cc rtt).minRttUsec ∧
      (takeSample p cc rtt).minRttUsec ≤ (takeSample p cc rtt).ewmaRttUsec) ↔
      SampleFits p cc rtt := by
  have hlast := nCountEwma_ne_zero_iff p cc hrtt
  unfold SampleFits
  rw [← hlast]
  change 0 < nextMinRtt p cc _ ∧ nextMinRtt p cc _ ≤ nCountEwma rtt cc.ewmaRttUsec _ ↔ _
  generalize nCountEwma rtt cc.ewmaRttUsec (nEwmaCount p cc) = ewma
  rw [← UInt64.pos_iff_ne_zero]
  by_cases hmin : cc.minRttUsec = 0
  · have hno : ¬ Resets cc := fun h => h.1 hmin
    rw [nextMinRtt, if_pos hmin]
    exact ⟨fun h => ⟨h.1, fun hr => absurd hr hno⟩, fun h => ⟨h.1, le_rfl⟩⟩
  by_cases hreset : Resets cc
  · rw [nextMinRtt_reset hreset, percentMaxMix_pos_iff p.rttResetPct_le,
      percentMaxMix_le_iff p.rttResetPct_le]
    refine ⟨fun h => ⟨?_, fun _ => h⟩, fun h => h.2 hreset⟩
    have hpos := (percentMaxMix_pos_iff p.rttResetPct_le).mpr h.1
    exact hpos.trans_le ((percentMaxMix_le_iff p.rttResetPct_le).mpr h.2)
  · rw [nextMinRtt_lower hreset hmin]
    have hpos : 0 < cc.minRttUsec := UInt64.pos_iff_ne_zero.mpr hmin
    constructor
    · intro h
      exact ⟨h.1.trans_le h.2, fun hr => absurd hr hreset⟩
    · intro h
      exact ⟨lt_min h.1 hpos, min_le_left _ _⟩

/-! ### One SENDME -/

/-- What is promised of a SENDME's estimates. -/
structure Processed.Sound (r : Processed) : Prop where
  min_le : r.rtt ≠ 0 → 0 < r.cc.minRttUsec ∧ r.cc.minRttUsec ≤ r.cc.ewmaRttUsec
  bdp_le : r.cc.bdp ≤ r.cc.cwnd
  expected : r.queueUse ≠ .aboveCwnd

def AnswersSoundly (cc : CongestionControl) : Event → Prop
  | .sent _ => True
  | .sendme s => ∀ r ∈ processSendme cc s, r.Sound

/-- The condition on a SENDME: where the clock rejects its sample and there never was another, a
blocked channel finds no window below the floor; an accepted sample fits. -/
def Admits (cc : CongestionControl) : Event → Prop
  | .sent _ => True
  | .sendme s => ∀ sentAt ∈ cc.sendmePendingTimestamps.head?,
      if (timeDeltaStalledOrJumped (cc.met s) s.clockBroken cc.ewmaRttUsec
          (s.nowUsec - sentAt)).1 then
        cc.ewmaRttUsec = 0 → s.circ.blockedOnChan → cc.cwndMin.toUInt64 ≤ s.cwnd
      else SampleFits s.params (cc.met s) (s.nowUsec - sentAt)

theorem bdp_le_cwnd {cwnd minRtt ewma : UInt64} (h : minRtt ≤ ewma) (hewma : ewma ≠ 0) :
    cwnd * minRtt / ewma ≤ cwnd := by
  have hpos : 0 < ewma.toNat := Nat.pos_of_ne_zero fun h0 => hewma (UInt64.toNat_inj.mp h0)
  calc cwnd.toNat * minRtt.toNat % 2 ^ 64 / ewma.toNat
      ≤ cwnd.toNat * ewma.toNat / ewma.toNat :=
        Nat.div_le_div_right ((Nat.mod_le _ _).trans (Nat.mul_le_mul_left _ h))
    _ = cwnd.toNat := Nat.mul_div_cancel _ hpos

theorem bdpWithoutRtt_le_iff {circ : Circuit} : bdpWithoutRtt cc circ ≤ cc.cwnd ↔
      (circ.blockedOnChan → cc.cwndMin.toUInt64 ≤ cc.cwnd) := by
  unfold bdpWithoutRtt
  cases circ.blockedOnChan with
  | false => simp
  | true =>
    simp only [if_true, forall_true_left]
    split
    case isTrue => rfl
    case isFalse hq =>
      have hsub : cc.cwnd - UInt64.ofNat circ.chanQ ≤ cc.cwnd := by
        have hint : cc.cwnd.toInt64.toInt = if 2 * cc.cwnd.toNat < 2 ^ 64 then (cc.cwnd.toNat : ℤ)
            else cc.cwnd.toNat - ((2 ^ 64 : ℕ) : ℤ) :=
          BitVec.toInt_eq_toNat_cond cc.cwnd.toBitVec
        have hlt : circ.chanQ < cc.cwnd.toNat := by
          split at hint <;> omega
        have hq64 : (UInt64.ofNat circ.chanQ).toNat = circ.chanQ :=
          UInt64.toNat_ofNat_of_lt' (hlt.trans cc.cwnd.toNat_lt)
        have hle : UInt64.ofNat circ.chanQ ≤ cc.cwnd := by
          rw [UInt64.le_iff_toNat_le, hq64]
          exact hlt.le
        rw [UInt64.le_iff_toNat_le, UInt64.toNat_sub_of_le _ _ hle]
        exact Nat.sub_le _ _
      rw [max_le_iff]
      exact and_iff_right hsub

theorem vegasQueueUse_expected {updated : Bool} (h : cc.bdp ≤ cc.cwnd) :
    vegasQueueUse cc updated ≠ .aboveCwnd := by
  unfold vegasQueueUse
  rw [if_neg (show ¬ vegasBdp cc > cc.cwnd from not_lt.mpr h)]
  cases updated <;> exact QueueUse.noConfusion

/-- The sample is rejected: the clock stalled or jumped. -/
def Rejected (cc : CongestionControl) (s : Sendme) (sentAt : UInt64) : Prop :=
  (timeDeltaStalledOrJumped (cc.met s) s.clockBroken cc.ewmaRttUsec (s.nowUsec - sentAt)).1 = true

instance {sentAt : UInt64} : Decidable (Rejected cc s sentAt) :=
  inferInstanceAs (Decidable (_ = _))

/-- What a SENDME leaves of the estimates. -/
structure Answered (cc : CongestionControl) (s : Sendme) (sentAt : UInt64) (r : Processed) :
    Prop where
  rtt : r.rtt = if Rejected cc s sentAt then 0 else s.nowUsec - sentAt
  ewma : r.cc.ewmaRttUsec = if Rejected cc s sentAt then cc.ewmaRttUsec
    else (takeSample s.params (cc.met s) (s.nowUsec - sentAt)).ewmaRttUsec
  minRtt : r.cc.minRttUsec = if Rejected cc s sentAt then cc.minRttUsec
    else (takeSample s.params (cc.met s) (s.nowUsec - sentAt)).minRttUsec
  cwnd : r.cc.cwnd = s.cwnd
  bdp : r.cc.bdp = if r.cc.ewmaRttUsec = 0 then bdpWithoutRtt (cc.met s) s.circ
    else s.cwnd * r.cc.minRttUsec / r.cc.ewmaRttUsec
  queueUse : ∃ updated, r.queueUse = vegasQueueUse r.cc updated

theorem updateCircuitBdp_bdp (cc : CongestionControl) (circ : Circuit) (rtt : UInt64) :
    (updateCircuitBdp cc circ rtt).1.bdp = if cc.ewmaRttUsec = 0 then bdpWithoutRtt cc circ
      else cc.cwnd * cc.minRttUsec / cc.ewmaRttUsec := by
  unfold updateCircuitBdp
  split <;> rfl

/-- What an update of the RTT leaves, with the sample that it took. -/
structure Sampled (p : Params) (cc : CongestionControl) (clockBroken : Bool) (delta : UInt64)
    (x : UInt64 × CongestionControl × Bool) : Prop where
  rtt : x.1 =
    if (timeDeltaStalledOrJumped cc clockBroken cc.ewmaRttUsec delta).1 then 0 else delta
  ewma : x.2.1.ewmaRttUsec =
    if (timeDeltaStalledOrJumped cc clockBroken cc.ewmaRttUsec delta).1 then cc.ewmaRttUsec
    else (takeSample p cc delta).ewmaRttUsec
  minRtt : x.2.1.minRttUsec =
    if (timeDeltaStalledOrJumped cc clockBroken cc.ewmaRttUsec delta).1 then cc.minRttUsec
    else (takeSample p cc delta).minRttUsec
  cwnd : x.2.1.cwnd = cc.cwnd
  cwndMin : x.2.1.cwndMin = cc.cwndMin

theorem updateCircuitRtt_cons (p : Params) (clockBroken : Bool) (now : UInt64)
    {pending : List UInt64} (h : cc.sendmePendingTimestamps = sentAt :: pending) :
    ∃ x, updateCircuitRtt p cc clockBroken now = some x ∧
      Sampled p cc clockBroken (now - sentAt) x := by
  unfold updateCircuitRtt
  rw [h]
  by_cases hrej : (timeDeltaStalledOrJumped cc clockBroken cc.ewmaRttUsec (now - sentAt)).1 = true
  · refine ⟨_, if_pos hrej, ?_⟩
    constructor
    · exact (if_pos hrej).symm
    · exact (if_pos hrej).symm
    · exact (if_pos hrej).symm
    · rfl
    · rfl
  · refine ⟨_, if_neg hrej, ?_⟩
    constructor
    · exact (if_neg hrej).symm
    · exact (if_neg hrej).symm
    · exact (if_neg hrej).symm
    · rfl
    · rfl

/-- The product is computed from the estimates and changes none of them. -/
theorem updateCircuitBdp_estimates {circ : Circuit} {updated : Bool}
    (h : updateCircuitBdp cc circ rtt = (cc', updated)) :
    cc'.ewmaRttUsec = cc.ewmaRttUsec ∧ cc'.minRttUsec = cc.minRttUsec ∧ cc'.cwnd = cc.cwnd := by
  unfold updateCircuitBdp at h
  split at h <;> cases h <;> exact ⟨rfl, rfl, rfl⟩

theorem processSendme_nil (h : cc.sendmePendingTimestamps = []) : processSendme cc s = none := by
  have hmet : (countDown (cc.met s)).sendmePendingTimestamps = [] := h
  simp [processSendme, vegasProcessSendme, updateCircuitEstimates, updateCircuitRtt, hmet]

theorem processSendme_cons {pending : List UInt64}
    (h : cc.sendmePendingTimestamps = sentAt :: pending) :
    ∃ r, processSendme cc s = some r ∧ Answered cc s sentAt r := by
  obtain ⟨⟨delta, cc₁, broken⟩, hupdate, hx⟩ := updateCircuitRtt_cons s.params s.clockBroken s.nowUsec
    (show (countDown (cc.met s)).sendmePendingTimestamps = sentAt :: pending from h)
  refine ⟨_, by
    unfold processSendme vegasProcessSendme updateCircuitEstimates
    rw [hupdate]
    rfl, ?_⟩
  have hbdp := updateCircuitBdp_bdp cc₁ s.circ delta
  have hfirst : bdpWithoutRtt cc₁ s.circ = bdpWithoutRtt (cc.met s) s.circ := by
    have hcwnd : cc₁.cwnd = (cc.met s).cwnd := hx.cwnd
    have hfloor : cc₁.cwndMin = (cc.met s).cwndMin := hx.cwndMin
    rw [bdpWithoutRtt, bdpWithoutRtt, hcwnd, hfloor]
  dsimp only
  cases hproduct : updateCircuitBdp cc₁ s.circ delta with
  | mk cc₂ updated =>
    obtain ⟨hewma, hmin, hcwnd⟩ := updateCircuitBdp_estimates hproduct
    rw [hproduct, hfirst, ← hewma, ← hmin, hx.cwnd] at hbdp
    cases updated with
    | false =>
      exact ⟨hx.rtt, hewma.trans hx.ewma, hmin.trans hx.minRtt, hcwnd.trans hx.cwnd, hbdp,
        false, rfl⟩
    | true =>
      exact ⟨hx.rtt, hewma.trans hx.ewma, hmin.trans hx.minRtt, hcwnd.trans hx.cwnd, hbdp,
        true, rfl⟩

/-! ### Every run -/

theorem not_rejected_ne_zero (h : ¬ Rejected cc s sentAt) : s.nowUsec - sentAt ≠ 0 := by
  intro hzero
  apply h
  rw [Rejected, hzero]
  rfl

section
variable (hcc : Estimated cc)
include hcc

theorem Estimated.of_answered {r : Processed}
    (hr : Answered cc s sentAt r) (hsound : r.Sound) : Estimated r.cc := by
  by_cases hrej : Rejected cc s sentAt
  · unfold Estimated
    rw [hr.ewma, hr.minRtt, if_pos hrej, if_pos hrej]
    exact hcc
  · apply Or.inr
    apply hsound.min_le
    rw [hr.rtt, if_neg hrej]
    exact not_rejected_ne_zero hrej

theorem answered_sound_iff {r : Processed} (hr : Answered cc s sentAt r) :
    r.Sound ↔ if Rejected cc s sentAt then
        cc.ewmaRttUsec = 0 → s.circ.blockedOnChan → cc.cwndMin.toUInt64 ≤ s.cwnd
      else SampleFits s.params (cc.met s) (s.nowUsec - sentAt) := by
  obtain ⟨updated, hqueue⟩ := hr.queueUse
  have hprod : r.cc.minRttUsec ≤ r.cc.ewmaRttUsec → r.cc.ewmaRttUsec ≠ 0 →
      r.cc.bdp ≤ r.cc.cwnd := by
    intro hle hewma
    rw [hr.bdp, hr.cwnd, if_neg hewma]
    exact bdp_le_cwnd hle hewma
  by_cases hrej : Rejected cc s sentAt
  · rw [if_pos hrej]
    have hrtt : r.rtt = 0 := by rw [hr.rtt, if_pos hrej]
    have hewma : r.cc.ewmaRttUsec = cc.ewmaRttUsec := by rw [hr.ewma, if_pos hrej]
    have hmin : r.cc.minRttUsec = cc.minRttUsec := by rw [hr.minRtt, if_pos hrej]
    have hbdp : r.cc.bdp ≤ r.cc.cwnd ↔
        (cc.ewmaRttUsec = 0 → s.circ.blockedOnChan → cc.cwndMin.toUInt64 ≤ s.cwnd) := by
      by_cases hzero : cc.ewmaRttUsec = 0
      · rw [forall_prop_of_true hzero, hr.bdp, hr.cwnd, if_pos (hewma.trans hzero)]
        exact bdpWithoutRtt_le_iff
      · have hle := (hcc.resolve_left fun h => hzero h.1).2
        rw [← hewma, ← hmin] at hle
        exact iff_of_true (hprod hle (hewma ▸ hzero)) fun h => absurd h hzero
    rw [← hbdp]
    constructor
    · exact fun h => h.bdp_le
    · exact fun h => ⟨fun h0 => absurd hrtt h0, h, hqueue ▸ vegasQueueUse_expected h⟩
  · rw [if_neg hrej]
    have hdelta := not_rejected_ne_zero hrej
    have hrtt : r.rtt ≠ 0 := by rwa [hr.rtt, if_neg hrej]
    have hewma := hr.ewma
    have hmin := hr.minRtt
    rw [if_neg hrej] at hewma hmin
    rw [← takeSample_iff s.params (cc.met s) hdelta, ← hewma, ← hmin]
    constructor
    · exact fun h => h.min_le hrtt
    · intro h
      have hbdp := hprod h.2 (UInt64.pos_iff_ne_zero.mp (h.1.trans_le h.2))
      exact ⟨fun _ => h, hbdp, hqueue ▸ vegasQueueUse_expected hbdp⟩

theorem answersSoundly_iff {e : Event} : AnswersSoundly cc e ↔ Admits cc e := by
  cases e with
  | sent now => rfl
  | sendme s =>
    cases hpend : cc.sendmePendingTimestamps with
    | nil => simp [AnswersSoundly, Admits, processSendme_nil hpend, hpend]
    | cons sentAt pending =>
      obtain ⟨r, hsome, hr⟩ := processSendme_cons (s := s) hpend
      have hiff := answered_sound_iff hcc hr
      simp only [AnswersSoundly, Admits, hsome, hpend, Option.mem_def, List.head?_cons,
        Option.some.injEq, forall_eq']
      exact hiff

theorem step_estimated {e : Event}
    (hsound : AnswersSoundly cc e) (h : step cc e = some cc') : Estimated cc' := by
  cases e with
  | sent now =>
    cases h
    exact hcc
  | sendme s =>
    cases hpend : cc.sendmePendingTimestamps with
    | nil => simp [step, processSendme_nil hpend] at h
    | cons sentAt pending =>
      obtain ⟨r, hsome, hr⟩ := processSendme_cons (s := s) hpend
      rw [step, hsome] at h
      cases h
      exact hcc.of_answered hr (hsound r hsome)

theorem guarded_iff {es : List Event} :
    Guarded step AnswersSoundly cc es ↔ Guarded step Admits cc es := by
  induction es generalizing cc with
  | nil => rfl
  | cons e es ih =>
    have hstep := answersSoundly_iff (e := e) hcc
    constructor
    · intro h
      refine ⟨hstep.mp h.1, fun cc' hcc' => ?_⟩
      exact (ih (step_estimated hcc h.1 hcc')).mp (h.2 cc' hcc')
    · intro h
      have hsound := hstep.mpr h.1
      refine ⟨hsound, fun cc' hcc' => ?_⟩
      exact (ih (step_estimated hcc hsound hcc')).mpr (h.2 cc' hcc')

end

/-- Every SENDME of a circuit's run leaves a positive minimum at or below the average and a product
within the window, and finds no product above it, exactly if every one meets its condition. -/
theorem min_rtt_kept_iff (params : CircuitParams) (es : List Event) :
    Guarded step AnswersSoundly (new params) es ↔ Guarded step Admits (new params) es := by
  apply guarded_iff
  exact .inl ⟨rfl, rfl⟩

def lowCwnd : CircuitParams where
  cwndInit := 124
  cwndMin := 124
  cwndIncRate := 1
  sendmeInc := 31
  cwndIncRate_pos := by decide
  sendmeInc_pos := by decide

def defaultParams : Params where
  nEwmaCwndPct := 50
  nEwmaMax := 10
  nEwmaSs := 2
  rttResetPct := 100
  rttResetPct_le := by decide

def sampleAt (now : UInt64) (inSlowStart : Bool) : Sendme where
  params := defaultParams
  circ := ⟨true, 0, 0, false, false⟩
  clockBroken := false
  nowUsec := now
  cwnd := 124
  inSlowStart := inSlowStart
  inflight := 31
  nextCcEvent := 1
  nextCwndEvent := 1

/-- A sample of 100 ms in slow start, and one of 10 ms after it with the window at its floor: the
reset keeps the old minimum of 100 ms beside an average of 40 ms. -/
theorem min_rtt_above_average :
    ¬ Guarded step AnswersSoundly (new lowCwnd) [.sent 0, .sendme (sampleAt 100000 true),
      .sent 200000, .sendme (sampleAt 210000 false)] := by
  intro h
  have hlast := (((h.2 _ rfl).2 _ rfl).2 _ rfl).1 _ rfl
  exact hlast.expected (by decide +kernel)

end TorDaemon.Congestion

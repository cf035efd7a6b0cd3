import TorDaemon.Dirvote.Versions
import TorDaemon.Library.Binary64
import TorDaemon.Library.TruncatedDivision

/-! The total bandwidths of the guards, the middle relays, the exits and the relays that are both
(`dirvote.c`), which the bandwidth weights are computed from. -/
namespace TorDaemon.Dirvote
open Library.Binary64 Library.TruncatedDivision

section Model

/-- What the totals take from `routerstatus_t`. -/
structure Routerstatus where
  hasBandwidth : Bool
  bandwidthKb : UInt32
  hasGuardfraction : Bool
  guardfractionPercentage : UInt32

/-- A status with the flags that the consensus gives it. -/
structure Relay extends Routerstatus where
  isExit : Bool
  isGuard : Bool
  isGuard_of_guardfraction : hasGuardfraction → isGuard
  percentage_le : guardfractionPercentage.toNat ≤ 100

/-- A conversion to `int`. -/
def toInt (x : ℤ) : ℤ := (x + 2 ^ 31) % 2 ^ 32 - 2 ^ 31

structure GuardfractionBandwidth where
  guardBw : ℤ
  nonGuardBw : ℤ

/-- The guard's share in double precision. -/
def guardfraction (origBandwidth : ℤ) (percentage : ℕ) : ℚ :=
  nearest (nearest (percentage / 100) * origBandwidth)

/-- `guard_get_guardfraction_bandwidth`; `none` where an assertion fails. -/
def guardGetGuardfractionBandwidth (origBandwidth : ℤ) (percentage : UInt32) :
    Option GuardfractionBandwidth :=
  if 100 < percentage.toNat then none
  else
    let guardBw := lround (guardfraction origBandwidth percentage.toNat)
    if int32Max < guardBw then none
    else some ⟨toInt guardBw, origBandwidth - toInt guardBw⟩

/-- The totals of the guards, the middle relays, the exits, the relays that are both, and of all
relays. A list of relays is too short for them to leave the range of an `int64_t`. -/
structure Totals where
  G : ℤ
  M : ℤ
  E : ℤ
  D : ℤ
  T : ℤ
  deriving DecidableEq

/-- How `networkstatus_compute_consensus` starts. -/
def Totals.initial : Totals := ⟨1, 1, 1, 1, 4⟩

/-- The bandwidth of a relay as a guard, or its whole bandwidth, and its bandwidth as no guard. -/
def relayShares (rs : Relay) : Option GuardfractionBandwidth :=
  if rs.hasGuardfraction then
    if rs.isGuard then
      guardGetGuardfractionBandwidth (toInt rs.bandwidthKb.toNat) rs.guardfractionPercentage
    else none
  else some ⟨toInt rs.bandwidthKb.toNat, 0⟩

/-- The last part of `update_total_bandwidth_weights`. -/
def addShares (t : Totals) (rs : Relay) (bw : GuardfractionBandwidth) : Totals :=
  let t := { t with T := t.T + bw.guardBw }
  if rs.isExit ∧ rs.isGuard then
    let t := { t with D := t.D + bw.guardBw }
    if rs.hasGuardfraction then { t with E := t.E + bw.nonGuardBw } else t
  else if rs.isExit then { t with E := t.E + bw.guardBw }
  else if rs.isGuard then
    let t := { t with G := t.G + bw.guardBw }
    if rs.hasGuardfraction then { t with M := t.M + bw.nonGuardBw } else t
  else { t with M := t.M + bw.guardBw }

def updateTotalBandwidthWeights (t : Totals) (rs : Relay) : Option Totals :=
  if ¬ rs.hasBandwidth then some t else (relayShares rs).map (addShares t rs)

end Model

section Pools
variable {t t' : Totals} {rs : Relay} {relays : List Relay}

/-- What the four pools hold. -/
def Totals.pools (t : Totals) : ℤ := t.G + t.M + t.E + t.D

def Totals.Balanced (t : Totals) : Prop := t.T = t.pools

/-- All through the relays the total is that of the pools, and each relay with a bandwidth adds
just this bandwidth to them. -/
def Conserved : Totals → List Relay → Prop
  | t, [] => t.Balanced
  | t, rs :: relays => t.Balanced ∧ ∃ t', updateTotalBandwidthWeights t rs = some t' ∧
      (rs.hasBandwidth → t'.pools = t.pools + rs.bandwidthKb.toNat) ∧ Conserved t' relays

/-- The bandwidth fits an `int`, and less than half a unit of it is not the guard's. -/
def Relay.Whole (rs : Relay) : Prop :=
  rs.hasBandwidth → rs.bandwidthKb.toNat < 2 ^ 31 ∧ (rs.hasGuardfraction →
    (100 - rs.guardfractionPercentage.toNat) * rs.bandwidthKb.toNat ≤ 50)

theorem Conserved.balanced (h : Conserved t relays) : t.Balanced := by
  cases relays with
  | nil => exact h
  | cons rs relays => exact h.1

theorem toInt_eq {n : ℤ} (hlow : -2 ^ 31 ≤ n) (hhigh : n < 2 ^ 31) : toInt n = n := by
  unfold toInt
  omega

theorem toInt_ne {n : ℕ} (hlow : 2 ^ 31 ≤ n) : toInt n ≠ n := by
  unfold toInt
  omega

end Pools

section Share
variable {bw percentage : ℕ}

theorem guardfraction_nonneg (bw percentage : ℕ) : 0 ≤ guardfraction bw percentage :=
  nearest_nonneg (mul_nonneg (nearest_nonneg (by positivity))
    (Int.cast_nonneg (Int.natCast_nonneg bw)))

theorem guardfraction_near (hbw : bw < 2 ^ 31) (hpercentage : percentage ≤ 100) :
    |guardfraction bw percentage - percentage * bw / 100| ≤ 1 / 1000 := by
  have ha : (0 : ℚ) ≤ percentage / 100 := by positivity
  have herror := nearest_error (percentage / 100 : ℚ)
  rw [abs_of_nonneg ha] at herror
  have hbound : (percentage : ℚ) * bw ≤ 100 * 2 ^ 31 :=
    mul_le_mul (by exact_mod_cast hpercentage) (by exact_mod_cast hbw.le) (by positivity)
      (by norm_num)
  have hmul := nearest_mul_error ha (Nat.cast_nonneg bw) herror
  rw [div_mul_eq_mul_div] at hmul
  exact hmul.trans (by linarith)

theorem guardShare_le (hbw : bw < 2 ^ 31) (hpercentage : percentage ≤ 100) :
    lround (guardfraction bw percentage) ≤ bw := by
  have hnear := abs_le.mp (guardfraction_near hbw hpercentage)
  have hle : (percentage : ℚ) * bw ≤ 100 * bw :=
    mul_le_mul_of_nonneg_right (by exact_mod_cast hpercentage) (by positivity)
  apply Int.lt_add_one_iff.mp
  apply (lround_lt_iff (guardfraction_nonneg bw percentage)).mpr
  push_cast
  linarith

theorem guardShare_half (hpercentage : percentage ≤ 100) (h : (100 - percentage) * bw = 50) :
    lround (guardfraction bw percentage) = bw := by
  have hdvd : bw ∣ 50 := ⟨_, (Nat.mul_comm _ _).trans h |>.symm⟩
  have hdivisors : ∀ n ≤ 50, n ∣ 50 → n ∈ [1, 2, 5, 10, 25, 50] := by decide
  have hmem := hdivisors bw (Nat.le_of_dvd (by norm_num) hdvd) hdvd
  simp only [List.mem_cons, List.not_mem_nil, or_false] at hmem
  rcases hmem with rfl | rfl | rfl | rfl | rfl | rfl
  · obtain rfl : percentage = 50 := by omega
    decide +kernel
  · obtain rfl : percentage = 75 := by omega
    decide +kernel
  · obtain rfl : percentage = 90 := by omega
    decide +kernel
  · obtain rfl : percentage = 95 := by omega
    decide +kernel
  · obtain rfl : percentage = 98 := by omega
    decide +kernel
  · obtain rfl : percentage = 99 := by omega
    decide +kernel

theorem guardShare_eq_iff (hbw : bw < 2 ^ 31) (hpercentage : percentage ≤ 100) :
    lround (guardfraction bw percentage) = bw ↔ (100 - percentage) * bw ≤ 50 := by
  have hnonneg := guardfraction_nonneg bw percentage
  have hnear := abs_le.mp (guardfraction_near hbw hpercentage)
  have hrest : (((100 - percentage) * bw : ℕ) : ℚ) = 100 * bw - percentage * bw := by
    push_cast [Nat.cast_sub hpercentage]
    ring
  rcases lt_trichotomy ((100 - percentage) * bw) 50 with hlt | heq | hgt
  · refine iff_of_true (le_antisymm (guardShare_le hbw hpercentage) ?_) hlt.le
    have hq : (((100 - percentage) * bw : ℕ) : ℚ) ≤ 49 := by exact_mod_cast Nat.le_of_lt_succ hlt
    rw [le_lround_iff hnonneg]
    push_cast
    linarith
  · exact iff_of_true (guardShare_half hpercentage heq) heq.le
  · refine iff_of_false (ne_of_lt ?_) (not_le.mpr hgt)
    have hq : (51 : ℚ) ≤ ((100 - percentage) * bw : ℕ) := by exact_mod_cast hgt
    rw [lround_lt_iff hnonneg]
    push_cast
    linarith

theorem guardGetGuardfractionBandwidth_eq (hbw : bw < 2 ^ 31) {percentage : UInt32}
    (hpercentage : percentage.toNat ≤ 100) : guardGetGuardfractionBandwidth bw percentage =
      some ⟨lround (guardfraction bw percentage.toNat),
        bw - lround (guardfraction bw percentage.toNat)⟩ := by
  have hle := guardShare_le hbw hpercentage
  have hpos : 0 ≤ lround (guardfraction bw percentage.toNat) := by
    have hnonneg := guardfraction_nonneg bw percentage.toNat
    rw [le_lround_iff hnonneg]
    linarith
  have hint := toInt_eq (n := lround (guardfraction bw percentage.toNat)) (by omega) (by omega)
  have hmax : ¬ int32Max < lround (guardfraction bw percentage.toNat) := by
    unfold int32Max
    omega
  simp only [guardGetGuardfractionBandwidth, if_neg (not_lt.mpr hpercentage), if_neg hmax, hint]

/-- Whatever the guard's share of a bandwidth is, the pools take all of it together. -/
theorem guardGetGuardfractionBandwidth_sum {origBandwidth : ℤ} {percentage : UInt32}
    {bw : GuardfractionBandwidth}
    (h : guardGetGuardfractionBandwidth origBandwidth percentage = some bw) :
    bw.guardBw + bw.nonGuardBw = origBandwidth := by
  simp only [guardGetGuardfractionBandwidth] at h
  split at h
  · cases h
  · split at h
    · cases h
    · cases h
      ring

end Share

section Update
variable {t t' : Totals} {rs : Relay} {relays : List Relay} {bw : GuardfractionBandwidth}

theorem relayShares_sum (h : relayShares rs = some bw) :
    bw.guardBw + bw.nonGuardBw = toInt rs.bandwidthKb.toNat := by
  rw [relayShares] at h
  split at h
  · split at h
    · exact guardGetGuardfractionBandwidth_sum h
    · cases h
  · rw [← Option.some.inj h, add_zero]

theorem relayShares_nonGuardBw (h : relayShares rs = some bw) (hnone : rs.hasGuardfraction = false) :
    bw.nonGuardBw = 0 := by
  rw [relayShares, hnone, if_neg Bool.false_ne_true] at h
  rw [← Option.some.inj h]

/-- The shares where the bandwidth fits an `int`: all of it is the guard's if and only if the
relay is whole. -/
theorem exists_relayShares (hbandwidth : rs.hasBandwidth) (hfits : rs.bandwidthKb.toNat < 2 ^ 31) :
    ∃ bw, relayShares rs = some bw ∧ (bw.guardBw = rs.bandwidthKb.toNat ↔ rs.Whole) := by
  have hint : toInt rs.bandwidthKb.toNat = rs.bandwidthKb.toNat :=
    toInt_eq (by omega) (by omega)
  unfold relayShares Relay.Whole
  by_cases hfraction : rs.hasGuardfraction
  · rw [if_pos hfraction, if_pos (rs.isGuard_of_guardfraction hfraction), hint,
      guardGetGuardfractionBandwidth_eq hfits rs.percentage_le]
    refine ⟨_, rfl, ?_⟩
    simp only [guardShare_eq_iff hfits rs.percentage_le, hbandwidth, hfits, hfraction, true_and,
      true_imp_iff]
  · rw [if_neg hfraction, hint]
    exact ⟨_, rfl, iff_of_true rfl fun _ => ⟨hfits, fun h => absurd h hfraction⟩⟩

theorem addShares_T (t : Totals) (rs : Relay) (bw : GuardfractionBandwidth) :
    (addShares t rs bw).T = t.T + bw.guardBw := by
  simp only [addShares]
  repeat' split
  all_goals rfl

theorem addShares_pools (h : relayShares rs = some bw) :
    (addShares t rs bw).pools = t.pools + (bw.guardBw + bw.nonGuardBw) := by
  have hguard := rs.isGuard_of_guardfraction
  have hnone := relayShares_nonGuardBw h
  simp only [addShares, Totals.pools]
  cases hfraction : rs.hasGuardfraction
  · have hzero := hnone hfraction
    cases rs.isExit <;> cases rs.isGuard <;> simp <;> omega
  · rw [hguard hfraction]
    cases rs.isExit <;> simp <;> omega

/-- One relay keeps the total that of the pools, and adds just its bandwidth, where it is whole;
elsewhere it does not do both. -/
theorem update_conserves_iff (hbalanced : t.Balanced) :
    (∃ t', updateTotalBandwidthWeights t rs = some t' ∧ t'.Balanced ∧
      (rs.hasBandwidth → t'.pools = t.pools + rs.bandwidthKb.toNat)) ↔ rs.Whole := by
  unfold Totals.Balanced at *
  by_cases hbandwidth : rs.hasBandwidth
  case neg =>
    rw [updateTotalBandwidthWeights, if_pos hbandwidth]
    exact iff_of_true ⟨t, rfl, hbalanced, fun h => absurd h hbandwidth⟩ fun h => absurd h hbandwidth
  case pos =>
    rw [updateTotalBandwidthWeights, if_neg (not_not.mpr hbandwidth)]
    constructor
    · rintro ⟨t', h, hbalanced', hadds⟩
      obtain ⟨bw, hbw, rfl⟩ := Option.map_eq_some_iff.mp h
      have hsum := relayShares_sum hbw
      have hpools := addShares_pools (t := t) hbw
      have htotal := addShares_T t rs bw
      have hadds := hadds hbandwidth
      -- a bandwidth that does not fit would be added as a negative number
      have hfits : rs.bandwidthKb.toNat < 2 ^ 31 := by
        by_contra hlarge
        exact toInt_ne (not_lt.mp hlarge) (by omega)
      obtain ⟨bw', hbw', hiff⟩ := exists_relayShares hbandwidth hfits
      rw [hbw] at hbw'
      cases hbw'
      exact hiff.mp (by omega)
    · intro hwhole
      obtain ⟨bw, hbw, hiff⟩ := exists_relayShares hbandwidth (hwhole hbandwidth).1
      have hsum := relayShares_sum hbw
      have hpools := addShares_pools (t := t) hbw
      have htotal := addShares_T t rs bw
      have hint := toInt_eq (n := rs.bandwidthKb.toNat) (by omega)
        (by exact_mod_cast (hwhole hbandwidth).1)
      have hguard := hiff.mpr hwhole
      refine ⟨addShares t rs bw, by rw [hbw, Option.map_some], by omega, fun _ => by omega⟩

theorem conserved_iff_of_balanced (hbalanced : t.Balanced) :
    Conserved t relays ↔ ∀ rs ∈ relays, rs.Whole := by
  induction relays generalizing t with
  | nil => exact iff_of_true hbalanced fun rs hrs => absurd hrs List.not_mem_nil
  | cons rs relays ih =>
    rw [List.forall_mem_cons, ← update_conserves_iff hbalanced]
    constructor
    · rintro ⟨-, t', h, hadds, hrest⟩
      exact ⟨⟨t', h, hrest.balanced, hadds⟩, (ih hrest.balanced).mp hrest⟩
    · rintro ⟨⟨t', h, hbalanced', hadds⟩, hrest⟩
      exact ⟨hbalanced, t', h, hadds, (ih hbalanced').mpr hrest⟩

end Update

section Conservation

/-- The totals are conserved if and only if each relay with a bandwidth has one that fits an `int`
and, with a guard fraction, is the guard's but for less than half a unit. -/
theorem bandwidth_conserved_iff (relays : List Relay) :
    Conserved .initial relays ↔ ∀ rs ∈ relays, rs.Whole :=
  conserved_iff_of_balanced rfl

/-- A guard with a bandwidth of 100 and a guard fraction of 50 percent. -/
def halfGuard : Relay where
  hasBandwidth := true
  bandwidthKb := 100
  hasGuardfraction := true
  guardfractionPercentage := 50
  isExit := false
  isGuard := true
  isGuard_of_guardfraction _ := rfl
  percentage_le := by decide

theorem bandwidth_not_conserved : ¬ ∀ relays, Conserved .initial relays := by
  intro h
  obtain ⟨-, t', ht', -, hbalanced⟩ := h [halfGuard]
  have heq : updateTotalBandwidthWeights .initial halfGuard = some ⟨51, 51, 1, 1, 54⟩ := by
    decide +kernel
  rw [heq] at ht'
  obtain rfl := Option.some.inj ht'
  have hsum : (54 : ℤ) = 51 + 51 + 1 + 1 := hbalanced
  omega

end Conservation

/-! The bandwidth weights of the consensus (`dirvote.c`), for totals whose products with the scale
fit an `int64_t`. -/

section Check

/-- `Wgd` is the weight of a relay that is both guard and exit in the guard position, and so on. -/
structure Weights where
  Wgg : ℤ
  Wgd : ℤ
  Wmg : ℤ
  Wme : ℤ
  Wmd : ℤ
  Wee : ℤ
  Wed : ℤ
  deriving DecidableEq

inductive BwWeightsError
  | noError
  | rangeError
  | sumgError
  | sumeError
  | sumdError
  | balanceMidError
  | balanceEgError
  deriving DecidableEq

def rangeCheck (w : Weights) (mx : ℤ) : Prop :=
  ∀ x ∈ [w.Wgg, w.Wgd, w.Wmg, w.Wme, w.Wmd, w.Wed, w.Wee], 0 ≤ x ∧ x ≤ mx

instance (w : Weights) (mx : ℤ) : Decidable (rangeCheck w mx) := inferInstanceAs (Decidable (∀ _, _))

def checkEq (a b margin : ℤ) : Prop := if 0 ≤ a - b then a - b ≤ margin else b - a ≤ margin

instance (a b margin : ℤ) : Decidable (checkEq a b margin) := inferInstanceAs (Decidable (ite _ _ _))

def networkstatusCheckWeights (w : Weights) (scale : ℤ) (t : Totals) (margin : ℤ)
    (doBalance : Bool) : BwWeightsError :=
  if ¬ checkEq (w.Wed + w.Wmd + w.Wgd) scale margin then .sumdError
  else if ¬ checkEq (w.Wmg + w.Wgg) scale margin then .sumgError
  else if ¬ checkEq (w.Wme + w.Wee) scale margin then .sumeError
  else if ¬ rangeCheck w scale then .rangeError
  else if doBalance ∧ ¬ checkEq (w.Wgg * t.G + w.Wgd * t.D) (w.Wee * t.E + w.Wed * t.D)
    ((margin * t.T).tdiv 3) then .balanceEgError
  else if doBalance ∧ ¬ checkEq (w.Wgg * t.G + w.Wgd * t.D)
    (t.M * scale + w.Wmd * t.D + w.Wme * t.E + w.Wmg * t.G) ((margin * t.T).tdiv 3) then
    .balanceMidError
  else .noError

end Check

section Cases
variable (t : Totals) (scale : ℤ)

/-- Case 1 (`Wgd=Wmd=Wed`). -/
def case1 : Weights :=
  let Wee := (scale * (t.E + t.G + t.M)).tdiv (3 * t.E)
  let Wmg := (scale * (2 * t.G - t.E - t.M)).tdiv (3 * t.G)
  { Wgd := scale.tdiv 3, Wed := scale.tdiv 3, Wmd := scale.tdiv 3, Wee := Wee, Wme := scale - Wee,
    Wmg := Wmg, Wgg := scale - Wmg }

/-- Case 2a. -/
def case2a : Weights :=
  { Wgg := scale, Wee := scale, Wmg := 0, Wme := 0, Wmd := 0,
    Wed := if t.E < t.G then scale else 0, Wgd := if t.E < t.G then 0 else scale }

/-- Case 2b1 (`Wgg=weight_scale`, `Wmd=Wgd`). -/
def case2b1 : Weights :=
  let Wed := (scale * (t.D - 2 * t.E + 4 * t.G - 2 * t.M)).tdiv (3 * t.D)
  { Wee := (scale * (t.E - t.G + t.M)).tdiv t.E, Wed := Wed,
    Wme := (scale * (t.G - t.M)).tdiv t.E, Wmg := 0, Wgg := scale,
    Wmd := (scale - Wed).tdiv 2, Wgd := (scale - Wed).tdiv 2 }

/-- Case 2b2 (`Wgg=weight_scale`, `Wee=weight_scale`), and case 2b3 (`Wmd=0`). -/
def case2b2 : Weights :=
  let Wed := (scale * (t.D - 2 * t.E + t.G + t.M)).tdiv (3 * t.D)
  let Wmd := (scale * (t.D - 2 * t.M + t.G + t.E)).tdiv (3 * t.D)
  let Wmd := if Wmd < 0 then 0 else Wmd
  { Wgg := scale, Wee := scale, Wed := Wed, Wmd := Wmd, Wme := 0, Wmg := 0,
    Wgd := scale - Wed - Wmd }

/-- Case 3a. -/
def case3a : Weights :=
  if t.G < t.E then
    let Wme := if t.E < t.M then 0 else (scale * (t.E - t.M)).tdiv (2 * t.E)
    { Wgg := scale, Wgd := scale, Wmd := 0, Wed := 0, Wmg := 0, Wme := Wme, Wee := scale - Wme }
  else
    let Wmg := if t.G < t.M then 0 else (scale * (t.G - t.M)).tdiv (2 * t.G)
    { Wee := scale, Wed := scale, Wmd := 0, Wgd := 0, Wme := 0, Wmg := Wmg, Wgg := scale - Wmg }

/-- Case 3bg (`Wgg=weight_scale`, `Wmd=Wed`). -/
def case3bg : Weights :=
  let Wgd := (scale * (t.D - 2 * t.G + t.E + t.M)).tdiv (3 * t.D)
  let Wee := (scale * (t.E + t.M)).tdiv (2 * t.E)
  { Wgg := scale, Wgd := Wgd, Wmg := 0, Wee := Wee, Wme := scale - Wee,
    Wmd := (scale - Wgd).tdiv 2, Wed := (scale - Wgd).tdiv 2 }

/-- Case 3be (`Wee=weight_scale`, `Wmd=Wgd`). -/
def case3be : Weights :=
  let Wed := (scale * (t.D - 2 * t.E + t.G + t.M)).tdiv (3 * t.D)
  let Wgg := (scale * (t.G + t.M)).tdiv (2 * t.G)
  { Wee := scale, Wed := Wed, Wme := 0, Wgg := Wgg, Wmg := scale - Wgg,
    Wmd := (scale - Wed).tdiv 2, Wgd := (scale - Wed).tdiv 2 }

def checked (w : Weights) : BwWeightsError := networkstatusCheckWeights w scale t 10 true

/-- The cases of section 3.8.3 of `dir-spec.txt`; `none` where they fail their check. -/
def computeWeights : Option Weights :=
  if 3 * t.E ≥ t.T ∧ 3 * t.G ≥ t.T then
    if checked t scale (case1 t scale) = .noError then some (case1 t scale) else none
  else if 3 * t.E < t.T ∧ 3 * t.G < t.T then
    if min t.E t.G + t.D < max t.E t.G then some (case2a t scale)
    else if checked t scale (case2b1 t scale) = .noError then some (case2b1 t scale)
    else if checked t scale (case2b2 t scale) = .noError ∨
      checked t scale (case2b2 t scale) = .balanceMidError then some (case2b2 t scale)
    else none
  else if 3 * (min t.E t.G + t.D) < t.T then some (case3a t scale)
  else
    let w := if t.G < t.E then case3bg t scale else case3be t scale
    if checked t scale w = .noError then some w else none

end Cases

section Line

/-- The names in the line, in its order. -/
inductive BwWeight
  | Wbd | Wbe | Wbg | Wbm
  | Wdb
  | Web | Wed | Wee | Weg | Wem
  | Wgb | Wgd | Wgg | Wgm
  | Wmb | Wmd | Wme | Wmg | Wmm
  deriving DecidableEq

/-- The line `bandwidth-weights` of the consensus. -/
abbrev BandwidthWeightsLine := List (BwWeight × ℤ)

def bandwidthWeightsLine (w : Weights) (scale : ℤ) : BandwidthWeightsLine :=
  [(.Wbd, toInt w.Wmd), (.Wbe, toInt w.Wme), (.Wbg, toInt w.Wmg), (.Wbm, toInt scale),
    (.Wdb, toInt scale),
    (.Web, toInt scale), (.Wed, toInt w.Wed), (.Wee, toInt w.Wee), (.Weg, toInt w.Wed),
    (.Wem, toInt w.Wee),
    (.Wgb, toInt scale), (.Wgd, toInt w.Wgd), (.Wgg, toInt w.Wgg), (.Wgm, toInt w.Wgg),
    (.Wmb, toInt scale), (.Wmd, toInt w.Wmd), (.Wme, toInt w.Wme), (.Wmg, toInt w.Wmg),
    (.Wmm, toInt scale)]

/-- Whether the weights could be computed, and the lines of the consensus; `none` where the
assertion on the scale fails. -/
def networkstatusComputeBwWeightsV10 (chunks : List BandwidthWeightsLine) (t : Totals) (scale : ℤ) :
    Option (Bool × List BandwidthWeightsLine) :=
  if t.G ≤ 0 ∨ t.M ≤ 0 ∨ t.E ≤ 0 ∨ t.D ≤ 0 then some (false, chunks)
  else
    match computeWeights t scale with
    | none => some (false, chunks)
    | some w =>
      if 0 < scale ∧ scale ≤ int32Max then some (true, chunks ++ [bandwidthWeightsLine w scale])
      else none

end Line

section Legal

/-- The weights of a line that are shared out, up to the margin of the rounding. -/
structure LegalLine (line : BandwidthWeightsLine) (scale : ℤ) : Prop where
  range : ∀ entry ∈ line, 0 ≤ entry.2 ∧ entry.2 ≤ scale
  sumg : |(line.lookup .Wgg).getD 0 + (line.lookup .Wmg).getD 0 - scale| ≤ 10
  sume : |(line.lookup .Wee).getD 0 + (line.lookup .Wme).getD 0 - scale| ≤ 10
  sumd : |(line.lookup .Wgd).getD 0 + (line.lookup .Wmd).getD 0 + (line.lookup .Wed).getD 0 -
    scale| ≤ 10

/-- The call succeeds, and adds a line that is right. -/
def ComputesLegalLine (chunks : List BandwidthWeightsLine) (t : Totals) (scale : ℤ) : Prop :=
  ∃ line, networkstatusComputeBwWeightsV10 chunks t scale = some (true, chunks ++ [line]) ∧
    LegalLine line scale

end Legal

end TorDaemon.Dirvote

import TorDaemon.Dirvote.Versions

/-! The keepalive periods of a channel: consensus parameters, negotiation, and the draw of a
period (`channelpadding.c`). A failed assertion is `none`. -/
namespace TorDaemon.Padding.Netflow
open Library.NetworkOrder SharedRandom Dirvote

section Code

/-- The first value of a parameter in a list of `key=int32`. -/
def netParam (netParams : List Bytes) (paramName : Bytes) : Option ℤ :=
  netParams.findSome? fun p =>
    if paramName <+: p ∧ p[paramName.length]? = some 61 then
      torParseLong (p.drop (paramName.length + 1)) (-2 ^ 31) int32Max
    else none

def getNetParamFromList (netParams : List Bytes) (paramName : Bytes)
    (defaultVal minVal maxVal : ℤ) : Option ℤ :=
  if maxVal > minVal ∧ minVal ≤ defaultVal ∧ maxVal ≥ defaultVal then
    let res := (netParam netParams paramName).getD defaultVal
    let res := if res < minVal then minVal else if res > maxVal then maxVal else res
    if res ≥ minVal ∧ res ≤ maxVal then some res else none
  else none

/-- `networkstatus_get_param`; there may be no consensus, or no parameters in it. -/
def networkstatusGetParam (ns : Option (List Bytes)) (paramName : Bytes)
    (defaultVal minVal maxVal : ℤ) : Option ℤ :=
  match ns with
  | none => some defaultVal
  | some netParams => getNetParamFromList netParams paramName defaultVal minVal maxVal

/-- The cached consensus parameters for netflow. -/
structure ConsensusParams where
  nfItoLow : ℤ
  nfItoHigh : ℤ
  nfItoLowReduced : ℤ
  nfItoHighReduced : ℤ
  nfConntimeoutRelays : ℤ
  nfConntimeoutClients : ℤ
  nfPadBeforeUsage : ℤ
  nfPadRelays : ℤ
  nfPadSingleOnion : ℤ
  deriving DecidableEq

def newConsensusParams (ns : Option (List Bytes)) : Option ConsensusParams := do
  let low ← networkstatusGetParam ns (ascii "nf_ito_low") 1500 0 60000
  let high ← networkstatusGetParam ns (ascii "nf_ito_high") 9500 low 60000
  let lowReduced ← networkstatusGetParam ns (ascii "nf_ito_low_reduced") 9000 0 60000
  let highReduced ←
    networkstatusGetParam ns (ascii "nf_ito_high_reduced") 14000 lowReduced 60000
  let conntimeoutRelays ←
    networkstatusGetParam ns (ascii "nf_conntimeout_relays") (60 * 60) 60 (7 * 24 * 60 * 60)
  let conntimeoutClients ←
    networkstatusGetParam ns (ascii "nf_conntimeout_clients") (30 * 60) 60 (24 * 60 * 60)
  let padBeforeUsage ← networkstatusGetParam ns (ascii "nf_pad_before_usage") 1 0 1
  let padRelays ← networkstatusGetParam ns (ascii "nf_pad_relays") 0 0 1
  let padSingleOnion ← networkstatusGetParam ns (ascii "nf_pad_single_onion") 1 0 1
  return ⟨low, high, lowReduced, highReduced, conntimeoutRelays, conntimeoutClients,
    padBeforeUsage, padRelays, padSingleOnion⟩

/-- What a channel keeps of its negotiation. -/
structure Channel where
  paddingEnabled : Bool
  paddingTimeoutLowMs : UInt16
  paddingTimeoutHighMs : UInt16
  deriving DecidableEq

structure Negotiate where
  version : UInt8
  command : UInt8
  itoLowMs : UInt16
  itoHighMs : UInt16

def channelpaddingCommandStart : UInt8 := 2

/-- The options that are asked for, and whether the peer is a known relay. -/
structure Side where
  bridgeRelay : Bool
  peerIsKnownRelay : Bool
  orPortSet : Bool

/-- `channelpadding_update_padding_for_channel`; `none` is the return of -1. -/
def updatePaddingForChannel (c : ConsensusParams) (side : Side) (padVars : Negotiate) :
    Option Channel :=
  if padVars.version ≠ 0 then none
  else if (side.bridgeRelay ∧ side.peerIsKnownRelay) ∨ ¬ side.orPortSet then none
  else
    let low := UInt16.ofInt (max c.nfItoLow padVars.itoLowMs.toNat)
    some {
      paddingEnabled := padVars.command = channelpaddingCommandStart
      paddingTimeoutLowMs := low
      paddingTimeoutHighMs := UInt16.ofInt (max (low.toNat : ℤ) padVars.itoHighMs.toNat) }

/-- `crypto_rand_int`, of the number that the generator gives. -/
def cryptoRandInt (draw : ℕ) (max : UInt32) : Option ℤ :=
  if max.toNat ≤ 2 ^ 31 ∧ 0 < max.toNat then some (draw % max.toNat : ℕ) else none

/-- `channelpadding_get_netflow_inactive_timeout_ms`, with the numbers of its two draws. -/
def getNetflowInactiveTimeoutMs (c : ConsensusParams) (chan : Channel) (draw₁ draw₂ : ℕ) :
    Option ℤ :=
  if c.nfItoLow = 0 ∧ c.nfItoLow = c.nfItoHigh then some 0
  else
    let negotiated := chan.paddingTimeoutLowMs ≠ 0 ∧ chan.paddingTimeoutHighMs ≠ 0
    let low := if negotiated then max c.nfItoLow chan.paddingTimeoutLowMs.toNat else c.nfItoLow
    let high := if negotiated then max c.nfItoHigh chan.paddingTimeoutHighMs.toNat else c.nfItoHigh
    if low ≥ high then some low
    else do
      let x₁ ← cryptoRandInt draw₁ (UInt32.ofInt (high - low))
      let x₂ ← cryptoRandInt draw₂ (UInt32.ofInt (high - low))
      return low + max x₁ x₂

end Code

/-! ### Limits -/

variable {ns : Option (List Bytes)} {netParams : List Bytes} {name : Bytes}
  {defaultVal minVal maxVal bound v : ℤ} {c : ConsensusParams} {side : Side} {padVars : Negotiate}
  {chan : Channel}

/-- The limits are in order and below the maximum. -/
structure ConsensusParams.InRange (c : ConsensusParams) : Prop where
  low_nonneg : 0 ≤ c.nfItoLow
  low_le : c.nfItoLow ≤ c.nfItoHigh
  high_le : c.nfItoHigh ≤ 60000
  lowReduced_nonneg : 0 ≤ c.nfItoLowReduced
  lowReduced_le : c.nfItoLowReduced ≤ c.nfItoHighReduced
  highReduced_le : c.nfItoHighReduced ≤ 60000

/-- A period is zero only where the consensus says so, and otherwise it lies between the limits
of the consensus and of the cell. -/
structure Admissible (c : ConsensusParams) (padVars : Negotiate) (period : ℤ) : Prop where
  zero : period = 0 → c.nfItoLow = 0
  low : period ≠ 0 → c.nfItoLow ≤ period
  negotiatedLow : period ≠ 0 → (padVars.itoLowMs.toNat : ℤ) ≤ period
  high : period ≠ 0 → period ≤ max (max c.nfItoHigh padVars.itoHighMs.toNat)
    (max c.nfItoLow padVars.itoLowMs.toNat)

/-- The parameters are taken over, and after every cell that is accepted every draw gives an
admissible period. -/
def Safe (ns : Option (List Bytes)) : Prop :=
  ∃ c, newConsensusParams ns = some c ∧ c.InRange ∧
    ∀ side padVars chan, updatePaddingForChannel c side padVars = some chan →
      ∀ draw₁ draw₂, ∃ period, getNetflowInactiveTimeoutMs c chan draw₁ draw₂ = some period ∧
        Admissible c padVars period

section Parameters

/-- Around a default in the bounds, the value of the list is clipped. -/
theorem getNetParamFromList_eq (hmin : minVal ≤ defaultVal) (hmax : defaultVal ≤ maxVal)
    (hlt : minVal < maxVal) : getNetParamFromList netParams name defaultVal minVal maxVal =
      some (max minVal (min maxVal ((netParam netParams name).getD defaultVal))) := by
  rw [getNetParamFromList, if_pos ⟨hlt, hmin, hmax⟩]
  dsimp only
  split_ifs with hlow hin hhigh
  · rw [max_eq_left (by omega)]
  · omega
  · rw [min_eq_left (by omega), max_eq_right (by omega)]
  · omega
  · rw [min_eq_right (by omega), max_eq_right (by omega)]
  · omega

theorem networkstatusGetParam_some (hmin : minVal ≤ defaultVal) (hmax : defaultVal ≤ maxVal)
    (hlt : minVal < maxVal) : ∃ v, networkstatusGetParam ns name defaultVal minVal maxVal = some v ∧
      minVal ≤ v ∧ v ≤ maxVal := by
  cases ns with
  | none => exact ⟨_, rfl, hmin, hmax⟩
  | some netParams =>
    exact ⟨_, getNetParamFromList_eq hmin hmax hlt, le_max_left _ _,
      max_le hlt.le (min_le_left _ _)⟩

/-- Where the list has the parameter, it stays below a bound if its value does. -/
def ParamLe (ns : Option (List Bytes)) (name : Bytes) (bound : ℤ) : Prop :=
  ∀ netParams, ns = some netParams → ∀ v, netParam netParams name = some v → v ≤ bound

theorem networkstatusGetParam_le_iff (hmin : minVal ≤ defaultVal) (hdefault : defaultVal ≤ bound)
    (hmax : bound < maxVal) (h : networkstatusGetParam ns name defaultVal minVal maxVal = some v) :
    v ≤ bound ↔ ParamLe ns name bound := by
  cases ns with
  | none =>
    obtain rfl : defaultVal = v := Option.some.inj h
    exact ⟨fun _ _ hns => absurd hns.symm (Option.some_ne_none _), fun _ => hdefault⟩
  | some netParams =>
    rw [networkstatusGetParam, getNetParamFromList_eq hmin (by omega) (by omega),
      Option.some.injEq] at h
    cases hparam : netParam netParams name with
    | none =>
      rw [hparam, Option.getD_none] at h
      constructor
      · intro _ _ hns v' hv'
        rw [← Option.some.inj hns, hparam] at hv'
        cases hv'
      · omega
    | some v' =>
      rw [hparam, Option.getD_some] at h
      constructor
      · intro hle _ hns v'' hv''
        rw [← Option.some.inj hns, hparam, Option.some.injEq] at hv''
        omega
      · intro hle
        have hv' := hle netParams rfl v' hparam
        omega

end Parameters

section Consensus

/-- The minimum of an upper limit is the lower limit, which must not pass its default. -/
theorem le_default_of_some {lowName highName : Bytes} {lowDefault highDefault low high : ℤ}
    (hlow : networkstatusGetParam ns lowName lowDefault minVal maxVal = some low)
    (hhigh : networkstatusGetParam ns highName highDefault low maxVal = some high)
    (hle : lowDefault ≤ highDefault) : low ≤ highDefault := by
  cases ns with
  | none =>
    obtain rfl : lowDefault = low := Option.some.inj hlow
    exact hle
  | some netParams =>
    by_contra hgt
    rw [networkstatusGetParam, getNetParamFromList, if_neg (by omega)] at hhigh
    cases hhigh

/-- The parameters are taken over exactly where neither lower limit passes the default of the
upper one. -/
theorem newConsensusParams_iff (ns : Option (List Bytes)) : (∃ c, newConsensusParams ns = some c) ↔
      ParamLe ns (ascii "nf_ito_low") 9500 ∧ ParamLe ns (ascii "nf_ito_low_reduced") 14000 := by
  constructor
  · rintro ⟨c, hc⟩
    simp only [newConsensusParams, Option.bind_eq_bind, Option.bind_eq_some_iff] at hc
    obtain ⟨low, hlow, high, hhigh, lowReduced, hreduced, highReduced, hhighReduced, -⟩ := hc
    exact ⟨(networkstatusGetParam_le_iff (by omega) (by omega) (by omega) hlow).mp
        (le_default_of_some hlow hhigh (by omega)),
      (networkstatusGetParam_le_iff (by omega) (by omega) (by omega) hreduced).mp
        (le_default_of_some hreduced hhighReduced (by omega))⟩
  · rintro ⟨hparam, hparamReduced⟩
    obtain ⟨low, hlow, -⟩ := @networkstatusGetParam_some ns (ascii "nf_ito_low") 1500 0 60000
      (by omega) (by omega) (by omega)
    obtain ⟨lowReduced, hreduced, -⟩ := @networkstatusGetParam_some ns
      (ascii "nf_ito_low_reduced") 9000 0 60000 (by omega) (by omega) (by omega)
    have hle := (networkstatusGetParam_le_iff (by omega) (by omega) (by omega) hlow).mpr hparam
    have hleReduced :=
      (networkstatusGetParam_le_iff (by omega) (by omega) (by omega) hreduced).mpr hparamReduced
    obtain ⟨high, hhigh, -⟩ := @networkstatusGetParam_some ns (ascii "nf_ito_high") 9500 low 60000
      hle (by omega) (by omega)
    obtain ⟨highReduced, hhighReduced, -⟩ := @networkstatusGetParam_some ns
      (ascii "nf_ito_high_reduced") 14000 lowReduced 60000 hleReduced (by omega) (by omega)
    obtain ⟨_, hrelays, -⟩ := @networkstatusGetParam_some ns (ascii "nf_conntimeout_relays")
      (60 * 60) 60 (7 * 24 * 60 * 60) (by omega) (by omega) (by omega)
    obtain ⟨_, hclients, -⟩ := @networkstatusGetParam_some ns (ascii "nf_conntimeout_clients")
      (30 * 60) 60 (24 * 60 * 60) (by omega) (by omega) (by omega)
    obtain ⟨_, hbefore, -⟩ := @networkstatusGetParam_some ns (ascii "nf_pad_before_usage") 1 0 1
      (by omega) (by omega) (by omega)
    obtain ⟨_, hpadRelays, -⟩ := @networkstatusGetParam_some ns (ascii "nf_pad_relays") 0 0 1
      (by omega) (by omega) (by omega)
    obtain ⟨_, honion, -⟩ := @networkstatusGetParam_some ns (ascii "nf_pad_single_onion") 1 0 1
      (by omega) (by omega) (by omega)
    exact ⟨_, by simp only [newConsensusParams, hlow, hhigh, hreduced, hhighReduced, hrelays,
      hclients, hbefore, hpadRelays, honion, Option.bind_eq_bind, Option.bind_some]; rfl⟩

theorem between_of_some (h : networkstatusGetParam ns name defaultVal minVal maxVal = some v)
    (hmin : minVal ≤ defaultVal) (hmax : defaultVal ≤ maxVal) (hlt : minVal < maxVal) :
    minVal ≤ v ∧ v ≤ maxVal := by
  obtain ⟨v', hv', hbounds⟩ := @networkstatusGetParam_some ns name _ _ _ hmin hmax hlt
  obtain rfl : v' = v := Option.some.inj (hv'.symm.trans h)
  exact hbounds

theorem newConsensusParams_inRange (h : newConsensusParams ns = some c) : c.InRange := by
  simp only [newConsensusParams, Option.bind_eq_bind, Option.bind_eq_some_iff] at h
  obtain ⟨low, hlow, high, hhigh, lowReduced, hreduced, highReduced, hhighReduced, _, -, _, -, _, -,
    _, -, _, -, hc⟩ := h
  have hle := le_default_of_some hlow hhigh (by omega)
  have hleReduced := le_default_of_some hreduced hhighReduced (by omega)
  have hbounds := between_of_some hhigh hle (by omega) (by omega)
  have hboundsReduced := between_of_some hhighReduced hleReduced (by omega) (by omega)
  cases hc
  exact {
    low_nonneg := (between_of_some hlow (by omega) (by omega) (by omega)).1
    low_le := hbounds.1
    high_le := hbounds.2
    lowReduced_nonneg := (between_of_some hreduced (by omega) (by omega) (by omega)).1
    lowReduced_le := hboundsReduced.1
    highReduced_le := hboundsReduced.2 }

end Consensus

section Periods

theorem toNat_ofInt {i : ℤ} (h₀ : 0 ≤ i) (h₁ : i < 2 ^ 16) : ((UInt16.ofInt i).toNat : ℤ) = i := by
  rw [UInt16.ofInt, UInt16.toNat_ofNat']
  omega

/-- What a cell leaves on the channel: the limits are raised to those of the consensus, and the
upper one to the lower one. -/
theorem updatePaddingForChannel_some (hc : c.InRange)
    (h : updatePaddingForChannel c side padVars = some chan) :
    (chan.paddingTimeoutLowMs.toNat : ℤ) = max c.nfItoLow padVars.itoLowMs.toNat ∧
      (chan.paddingTimeoutHighMs.toNat : ℤ) =
        max (max c.nfItoLow padVars.itoLowMs.toNat) padVars.itoHighMs.toNat := by
  have h₁ := hc.low_le
  have h₂ := hc.high_le
  have hlow := padVars.itoLowMs.toNat_lt
  have hhigh := padVars.itoHighMs.toNat_lt
  rw [updatePaddingForChannel] at h
  split_ifs at h
  cases h
  have hkept := toNat_ofInt (show 0 ≤ max c.nfItoLow padVars.itoLowMs.toNat by omega) (by omega)
  refine ⟨hkept, ?_⟩
  rw [hkept]
  exact toNat_ofInt (by omega) (by omega)

/-- A draw below a positive bound. -/
theorem cryptoRandInt_some {draw : ℕ} {i : ℤ} (h₀ : 0 < i) (h₁ : i ≤ 2 ^ 31) :
    ∃ x, cryptoRandInt draw (UInt32.ofInt i) = some x ∧ 0 ≤ x ∧ x < i := by
  have hmax : ((UInt32.ofInt i).toNat : ℤ) = i := by
    rw [UInt32.ofInt, UInt32.toNat_ofNat']
    omega
  have hlt := Nat.mod_lt draw (show 0 < (UInt32.ofInt i).toNat by omega)
  exact ⟨_, if_pos ⟨by omega, by omega⟩, by omega, by omega⟩

/-- Between two limits, a period is drawn or is the lower limit. -/
theorem period_some {low high : ℤ} (h₀ : 0 ≤ low) (h₁ : high ≤ 2 ^ 31) (draw₁ draw₂ : ℕ) :
    ∃ period, (if low ≥ high then some low
      else do
        let x₁ ← cryptoRandInt draw₁ (UInt32.ofInt (high - low))
        let x₂ ← cryptoRandInt draw₂ (UInt32.ofInt (high - low))
        return low + max x₁ x₂) = some period ∧ low ≤ period ∧ period ≤ max low high := by
  split_ifs with hge
  · exact ⟨low, rfl, le_rfl, le_max_left _ _⟩
  · obtain ⟨x₁, hx₁, h₁⟩ := @cryptoRandInt_some draw₁ (high - low) (by omega) (by omega)
    obtain ⟨x₂, hx₂, h₂⟩ := @cryptoRandInt_some draw₂ (high - low) (by omega) (by omega)
    rw [hx₁, hx₂]
    exact ⟨_, rfl, by omega, by omega⟩

theorem getNetflowInactiveTimeoutMs_some (hc : c.InRange)
    (h : updatePaddingForChannel c side padVars = some chan) (draw₁ draw₂ : ℕ) :
    ∃ period, getNetflowInactiveTimeoutMs c chan draw₁ draw₂ = some period ∧
      Admissible c padVars period := by
  obtain ⟨hlow, hhigh⟩ := updatePaddingForChannel_some hc h
  have h₀ := hc.low_nonneg
  have h₁ := hc.low_le
  have h₂ := hc.high_le
  have hlt := padVars.itoHighMs.toNat_lt
  have hlt' := padVars.itoLowMs.toNat_lt
  rw [getNetflowInactiveTimeoutMs]
  split_ifs with hnone
  · exact ⟨0, rfl, fun _ => hnone.1, absurd rfl, absurd rfl, absurd rfl⟩
  · dsimp only
    by_cases hnegotiated : chan.paddingTimeoutLowMs ≠ 0 ∧ chan.paddingTimeoutHighMs ≠ 0
    · simp only [if_pos hnegotiated]
      obtain ⟨period, hperiod, hge, hle⟩ := @period_some
        (max c.nfItoLow chan.paddingTimeoutLowMs.toNat)
        (max c.nfItoHigh chan.paddingTimeoutHighMs.toNat) (by omega) (by omega) draw₁ draw₂
      exact ⟨period, hperiod, by omega, by omega, by omega, by omega⟩
    · -- a negotiated lower limit of zero leaves the limits of the consensus
      have hzero : chan.paddingTimeoutLowMs.toNat = 0 := by
        by_contra hne
        refine hnegotiated ⟨fun heq => hne (by rw [heq]; rfl), fun heq => ?_⟩
        rw [heq, UInt16.toNat_zero] at hhigh
        omega
      simp only [if_neg hnegotiated]
      obtain ⟨period, hperiod, hge, hle⟩ := @period_some c.nfItoLow c.nfItoHigh h₀ (by omega)
        draw₁ draw₂
      exact ⟨period, hperiod, by omega, by omega, by omega, by omega⟩

end Periods

/-- The parameters and all periods are as they should be exactly where neither lower limit in
the list passes the default of the upper one. -/
theorem newConsensusParams_safe (ns : Option (List Bytes)) :
    Safe ns ↔ ∀ netParams, ns = some netParams →
      (∀ v, netParam netParams (ascii "nf_ito_low") = some v → v ≤ 9500) ∧
      (∀ v, netParam netParams (ascii "nf_ito_low_reduced") = some v → v ≤ 14000) := by
  constructor
  · rintro ⟨c, hc, -⟩ netParams hns
    obtain ⟨hlow, hreduced⟩ := (newConsensusParams_iff ns).mp ⟨c, hc⟩
    exact ⟨hlow netParams hns, hreduced netParams hns⟩
  · intro h
    obtain ⟨c, hc⟩ := (newConsensusParams_iff ns).mpr
      ⟨fun netParams hns => (h netParams hns).1, fun netParams hns => (h netParams hns).2⟩
    have hrange := newConsensusParams_inRange hc
    exact ⟨c, hc, hrange, fun _ _ _ haccepted => getNetflowInactiveTimeoutMs_some hrange haccepted⟩

/-- Limits of 10 and 20 seconds stop the process. -/
theorem newConsensusParams_stops :
    ¬ Safe (some [ascii "nf_ito_high=20000", ascii "nf_ito_low=10000"]) := by
  rintro ⟨c, hc, -⟩
  have hstop : newConsensusParams (some [ascii "nf_ito_high=20000", ascii "nf_ito_low=10000"]) =
      none := by decide
  rw [hstop] at hc
  cases hc

end TorDaemon.Padding.Netflow

import TorDaemon.Conflux.Send

/-! What sending a message does to the counters of a set, whatever they are: a SWITCH cell
brings its leg to the count of the leg before it, and the message adds one. -/
namespace TorDaemon.Conflux

section SendCases
variable {e e' : Endpoint} {circ : ℕ} {switches : List Cell} {msg : RelayMsg}

/-- What the choice of the next circuit can change. -/
structure Picked (e e' : Endpoint) : Prop where
  legs : e'.cfx.legs = e.cfx.legs
  circuits : e'.circuits = e.circuits
  teardown : e'.cfx.inFullTeardown = e.cfx.inFullTeardown
  currLeg : e'.cfx.currLeg = e.cfx.currLeg ∨
    (e.cfx.currLeg = none ∧ ∃ l ∈ e.cfx.legs, e'.cfx.currLeg = some l.circ)
  oooQ : e'.cfx.oooQ = e.cfx.oooQ
  oooQAllocCost : e'.cfx.oooQAllocCost = e.cfx.oooQAllocCost
  lastSeqDelivered : e'.cfx.lastSeqDelivered = e.cfx.lastSeqDelivered

theorem pickFirstLeg_eq_some {cfx cfx' : ConfluxSet} (h : pickFirstLeg cfx = some cfx') :
    ∃ l ∈ cfx.legs, cfx' = { cfx with cellsUntilSwitch := 0, currLeg := some l.circ } := by
  obtain ⟨l, hl, rfl⟩ := Option.map_eq_some_iff.mp h
  refine ⟨l, ?_, rfl⟩
  cases hlowest : lowestRtt none cfx.legs with
  | some leg =>
    obtain rfl : leg = l := by simpa [hlowest] using hl
    exact lowestRtt_mem hlowest
  | none => exact List.mem_of_mem_head? (by simpa [hlowest] using hl)

theorem decideNextCirc_spec {next : Option ℕ} (h : WellFormed e)
    (hdecide : decideNextCirc e = some (next, e')) :
    Picked e e' ∧ ∀ c ∈ next, ∃ l ∈ e.cfx.legs, l.circ = c := by
  unfold decideNextCirc at hdecide
  split_ifs at hdecide with hdown
  · obtain ⟨rfl, rfl⟩ := by simpa using hdecide
    exact ⟨⟨rfl, rfl, rfl, .inl rfl, rfl, rfl, rfl⟩, by simp⟩
  · cases hcurr : e.cfx.currLeg with
    | some curr =>
      simp only [hcurr, Option.map_eq_some_iff, Prod.mk.injEq] at hdecide
      obtain ⟨next', hnext, rfl, rfl⟩ := hdecide
      refine ⟨⟨rfl, rfl, rfl, .inl rfl, rfl, rfl, rfl⟩, fun c hc => ?_⟩
      obtain rfl := Option.mem_def.mp hc
      simpa using decideAmongLegs_mem hnext (by simpa using h.curr_mem curr hcurr)
    | none =>
      simp only [hcurr] at hdecide
      cases hpick : pickFirstLeg e.cfx with
      | none =>
        obtain ⟨rfl, rfl⟩ := by simpa [hpick] using hdecide
        exact ⟨⟨rfl, rfl, rfl, .inl rfl, rfl, rfl, rfl⟩, by simp⟩
      | some cfx =>
        obtain ⟨l, hl, rfl⟩ := pickFirstLeg_eq_some hpick
        simp only [hpick, Option.bind_eq_bind, Option.bind_some, Option.bind_eq_some_iff,
          Option.some.injEq, Prod.mk.injEq] at hdecide
        obtain ⟨next', hnext, rfl, rfl⟩ := hdecide
        refine ⟨⟨rfl, rfl, rfl, .inr ⟨hcurr, l, hl, rfl⟩, rfl, rfl, rfl⟩, fun c hc => ?_⟩
        obtain rfl := Option.mem_def.mp hc
        simpa using decideAmongLegs_mem hnext (by simpa using ⟨l, hl, rfl⟩)

theorem Picked.wellFormed (hpicked : Picked e e') (h : WellFormed e) : WellFormed e' := by
  refine h.congr (by rw [hpicked.legs]) (fun c => by rw [hpicked.circuits]) (fun c hc => ?_)
    hpicked.teardown
  obtain hsame | ⟨-, l, hl, hpick⟩ := hpicked.currLeg
  · exact List.mem_map.mpr (h.curr_mem c (hsame ▸ hc))
  · exact List.mem_map.mpr ⟨l, hl, by simpa [hpick] using hc⟩

/-- The cells that a decision puts before the message bring the leg of the message to the
count of the current leg. -/
structure Prepared (e e' : Endpoint) (circ : ℕ) (switches : List Cell) : Prop where
  wellFormed : WellFormed e'
  currLeg : e'.cfx.currLeg = some circ
  relayed : relayed switches = []
  numbered : ∀ seq, numbered seq switches = []
  legs : ∀ l' ∈ e'.cfx.legs, ∃ l ∈ e.cfx.legs, l.circ = l'.circ ∧
    l'.lastSeqRecv = l.lastSeqRecv ∧
    l'.lastSeqSent = if l.circ = circ then resolved l.lastSeqSent switches else l.lastSeqSent
  source : ∃ l ∈ e.cfx.legs, l.circ = circ
  reached : ∃ prev ∈ e.cfx.legs, (∀ c ∈ e.cfx.currLeg, c = prev.circ) ∧
    ∀ l ∈ e.cfx.legs, l.circ = circ → resolved l.lastSeqSent switches = prev.lastSeqSent
  lastSeqDelivered : e'.cfx.lastSeqDelivered = e.cfx.lastSeqDelivered

theorem Picked.current (hpicked : Picked e e') {l : Leg} (hcurr : e'.cfx.currLeg = some l.circ) :
    ∀ c ∈ e.cfx.currLeg, c = l.circ := by
  intro c hc
  obtain hsame | ⟨hnone, -⟩ := hpicked.currLeg
  · exact Option.some.inj ((Option.mem_def.mp hc).symm.trans (hsame.symm.trans hcurr))
  · simp [hnone] at hc

theorem prepared_keep (h : WellFormed e) (hpicked : Picked e e')
    (hcurr : e'.cfx.currLeg = some circ) : Prepared e e' circ [] := by
  have hwf := hpicked.wellFormed h
  obtain ⟨l, hl, rfl⟩ := hwf.curr_mem circ hcurr
  rw [hpicked.legs] at hl
  exact {
    wellFormed := hwf
    currLeg := hcurr
    relayed := rfl
    numbered := fun _ => rfl
    legs := fun l' hl' => ⟨l', hpicked.legs ▸ hl', rfl, rfl, by simp [resolved]⟩
    source := ⟨l, hl, rfl⟩
    reached := ⟨l, hl, hpicked.current hcurr, fun l' hl' hc => by
      rw [leg_eq_of_circ_eq h.nodup hl' hl hc, resolved]⟩
    lastSeqDelivered := hpicked.lastSeqDelivered }

/-- A decision that closes the entire set. -/
structure ToreDown (e e' : Endpoint) : Prop where
  wellFormed : WellFormed e'
  legs : e'.cfx.legs = []
  lastSeqDelivered : e'.cfx.lastSeqDelivered = e.cfx.lastSeqDelivered

/-- What each end of the choice of a circuit leaves. -/
def Decision.Outcome (e e' : Endpoint) : Decision → Prop
  | .noCircuit => Picked e e'
  | .switchFailed => ToreDown e e'
  | .keep circ => Prepared e e' circ []
  | .switched circ cell => Prepared e e' circ [cell]
  | .incoherent => ToreDown e e' ∧ ∃ prev ∈ e.cfx.legs, ∃ new ∈ e.cfx.legs,
      (∀ c ∈ e.cfx.currLeg, c = prev.circ) ∧ prev.lastSeqSent < new.lastSeqSent

theorem switchLeg_outcome {e₁ : Endpoint} {prevLeg newLeg : Leg} {packaging : Packaging}
    {decision : Decision} (h : WellFormed e)
    (hsent : ∀ l ∈ e.cfx.legs, l.lastSeqSent < 2 ^ 64) (hpicked : Picked e e₁)
    (hprev : prevLeg ∈ e.cfx.legs) (hcurr : e₁.cfx.currLeg = some prevLeg.circ)
    (hnew : newLeg ∈ e.cfx.legs) (hswitch : switchLeg { e₁ with cfx := { e₁.cfx with
      cellsUntilSwitch := 0, prevLeg := some prevLeg.circ, currLeg := some newLeg.circ } }
      prevLeg newLeg packaging = (decision, e')) : decision.Outcome e e' := by
  have hlegs := hpicked.legs
  have hdelivered := hpicked.lastSeqDelivered
  have hwf : WellFormed { e₁ with cfx := { e₁.cfx with
      cellsUntilSwitch := 0, prevLeg := some prevLeg.circ, currLeg := some newLeg.circ } } := by
    refine (hpicked.wellFormed h).congr rfl (fun _ => rfl) (fun c hc => ?_) rfl
    obtain rfl : newLeg.circ = c := by simpa using hc
    exact List.mem_map_of_mem (hlegs ▸ hnew)
  have htore : ToreDown e (markAllForClose { e₁ with cfx := { e₁.cfx with
      cellsUntilSwitch := 0, prevLeg := some prevLeg.circ, currLeg := some newLeg.circ } }) :=
    have ⟨hwf', hshrunk, hnil⟩ := markAllForClose_wellFormed hwf
    ⟨hwf', hnil, hshrunk.lastSeqDelivered.trans hdelivered⟩
  simp only [switchLeg] at hswitch
  split_ifs at hswitch with hahead
  · simp only [Prod.mk.injEq] at hswitch
    obtain ⟨rfl, rfl⟩ := hswitch
    exact ⟨htore, prevLeg, hprev, newLeg, hnew, hpicked.current hcurr, hahead⟩
  · cases hcell : sendSwitchCommand (prevLeg.lastSeqSent - newLeg.lastSeqSent) packaging with
    | none =>
      simp only [hcell, Prod.mk.injEq] at hswitch
      obtain ⟨rfl, rfl⟩ := hswitch
      exact htore
    | some cell =>
      simp only [hcell, Prod.mk.injEq] at hswitch
      obtain ⟨rfl, rfl⟩ := hswitch
      obtain rfl : cell = .switch (prevLeg.lastSeqSent - newLeg.lastSeqSent) := by
        cases packaging <;> simp_all [sendSwitchCommand]
      have hresolved (l : Leg) (hl : l ∈ e.cfx.legs) (hc : l.circ = newLeg.circ) :
          resolved l.lastSeqSent [.switch (prevLeg.lastSeqSent - newLeg.lastSeqSent)] =
            prevLeg.lastSeqSent := by
        have hlt := hsent prevLeg hprev
        obtain rfl := leg_eq_of_circ_eq h.nodup hl hnew hc
        rw [resolved, resolved, wrap64_of_lt (by omega)]
        omega
      refine ⟨hwf.congr (map_circ_updateLeg fun _ => rfl) (fun _ => rfl) hwf.currLeg_mem rfl,
        rfl, rfl, fun _ => rfl, fun l' hl' => ?_, ⟨newLeg, hnew, rfl⟩,
        ⟨prevLeg, hprev, hpicked.current hcurr, hresolved⟩, hdelivered⟩
      obtain ⟨l, hl, rfl⟩ := mem_updateLeg.mp hl'
      rw [hlegs] at hl
      refine ⟨l, hl, ?_⟩
      by_cases hc : l.circ = newLeg.circ
      · simp [hc, hresolved l hl hc]
      · simp [hc]

theorem decideCircForSend_outcome {orig : ℕ} {cmd : RelayCommand} {packaging : Packaging}
    {decision : Decision} (h : WellFormed e) (hsent : ∀ l ∈ e.cfx.legs, l.lastSeqSent < 2 ^ 64)
    (hmux : shouldMultiplex cmd = true)
    (hdecide : decideCircForSend e orig cmd packaging = some (decision, e')) :
    decision.Outcome e e' := by
  simp only [decideCircForSend, hmux, Bool.not_true, Bool.false_eq_true, if_false,
    Option.bind_eq_bind, Option.bind_eq_some_iff] at hdecide
  obtain ⟨⟨next, e₁⟩, hnext, hrest⟩ := hdecide
  obtain ⟨hpicked, hmem⟩ := decideNextCirc_spec h hnext
  cases next with
  | none =>
    cases hcurr : e₁.cfx.currLeg with
    | none =>
      obtain ⟨rfl, rfl⟩ := by simpa [hcurr] using hrest
      exact hpicked
    | some curr =>
      simp only [hcurr, Option.some.injEq, Prod.mk.injEq] at hrest
      obtain ⟨rfl, rfl⟩ := hrest
      by_cases hdata : cmd = .data
      · rw [if_pos hdata]
        exact hpicked
      · rw [if_neg hdata]
        exact prepared_keep h hpicked hcurr
  | some newCirc =>
    simp only [Option.bind_eq_some_iff] at hrest
    obtain ⟨curr, hcurr, hrest⟩ := hrest
    split_ifs at hrest with hsame
    · simp only [Option.some.injEq, Prod.mk.injEq] at hrest
      obtain ⟨rfl, rfl⟩ := hrest
      exact prepared_keep h hpicked (hsame ▸ hcurr)
    · simp only [Option.bind_eq_some_iff, Option.some.injEq] at hrest
      obtain ⟨newLeg, hnew, prevLeg, hprev, hswitch⟩ := hrest
      obtain ⟨hnewMem, rfl⟩ := getLeg_eq_some hnew
      obtain ⟨hprevMem, rfl⟩ := getLeg_eq_some hprev
      rw [hpicked.legs] at hnewMem hprevMem
      exact switchLeg_outcome h hsent hpicked hprevMem hcurr hnewMem hswitch

/-- What a call of `relay_send_command_from_edge_` sends, and the counters it leaves. -/
structure Sending (e : Endpoint) (em : Emission) : Prop where
  wellFormed : WellFormed em.endpoint
  single : (relayed em.cells).length ≤ 1
  source : em.cells = [] ∨ ∃ l ∈ e.cfx.legs, l.circ = em.circ
  legs : ∀ l' ∈ em.endpoint.cfx.legs, ∃ l ∈ e.cfx.legs, l.circ = l'.circ ∧
    l'.lastSeqRecv = l.lastSeqRecv ∧
    l'.lastSeqSent = if l.circ = em.circ then resolved l.lastSeqSent em.cells else l.lastSeqSent
  lastSeqDelivered : em.endpoint.cfx.lastSeqDelivered = e.cfx.lastSeqDelivered

theorem sending_switches {e'' : Endpoint} (h : Prepared e e' circ switches) (hwf : WellFormed e'')
    (hlegs : ∀ l ∈ e''.cfx.legs, l ∈ e'.cfx.legs)
    (hdelivered : e''.cfx.lastSeqDelivered = e'.cfx.lastSeqDelivered) :
    Sending e ⟨e'', circ, switches⟩ where
  wellFormed := hwf
  single := by simp [h.relayed]
  source := .inr h.source
  legs l' hl' := h.legs l' (hlegs l' hl')
  lastSeqDelivered := hdelivered.trans h.lastSeqDelivered

theorem sending_nothing (hwf : WellFormed e') (hlegs : ∀ l ∈ e'.cfx.legs, l ∈ e.cfx.legs)
    (hdelivered : e'.cfx.lastSeqDelivered = e.cfx.lastSeqDelivered) : Sending e ⟨e', circ, []⟩ where
  wellFormed := hwf
  single := by simp [relayed]
  source := .inl rfl
  legs l' hl' := ⟨l', hlegs l' hl', rfl, rfl, by simp [resolved]⟩
  lastSeqDelivered := hdelivered

theorem sending_message
    (h : Prepared e e' circ switches) (hmux : shouldMultiplex msg.command = true) :
    Sending e ⟨{ e' with cfx := noteCellSent e'.cfx circ msg.command }, circ,
      switches ++ [.relay msg]⟩ where
  wellFormed := by
    simp only [noteCellSent, hmux, Bool.not_true, Bool.false_eq_true, if_false]
    exact h.wellFormed.congr (map_circ_updateLeg fun _ => rfl) (fun _ => rfl)
      h.wellFormed.currLeg_mem rfl
  single := by simp [relayed_append, h.relayed, relayed]
  source := .inr h.source
  legs l' hl' := by
    simp only [noteCellSent, hmux, Bool.not_true, Bool.false_eq_true, if_false] at hl'
    obtain ⟨l₁, hl₁, rfl⟩ := mem_updateLeg.mp hl'
    obtain ⟨l, hl, hcirc, hrecv, hsent⟩ := h.legs l₁ hl₁
    refine ⟨l, hl, ?_⟩
    by_cases hc : l.circ = circ
    · simp [← hcirc, hc, hrecv, hsent, resolved_append, resolved]
    · simp [← hcirc, hc, hrecv, hsent]
  lastSeqDelivered := by
    simp only [noteCellSent, hmux, Bool.not_true, Bool.false_eq_true, if_false]
    exact h.lastSeqDelivered

theorem packageRelayMsg_sending (packaging : Packaging)
    (h : Prepared e e' circ switches) (hmux : shouldMultiplex msg.command = true) :
    Sending e (packageRelayMsg e' circ switches msg packaging) := by
  unfold packageRelayMsg
  split_ifs
  · exact sending_switches h h.wellFormed (fun _ hl => hl) rfl
  · cases packaging with
    | queueFull =>
      obtain ⟨hwf, hshrunk, -⟩ := circuitMarkForClose_spec h.wellFormed circ
      exact sending_switches h hwf (fun _ hl => hshrunk.legs.subset hl) hshrunk.lastSeqDelivered
    | queued => exact sending_message h hmux

theorem relaySendCommandFromEdge_sending {orig : ℕ}
    {switchPackaging packaging : Packaging} {em : Emission} (h : WellFormed e)
    (hsent : ∀ l ∈ e.cfx.legs, l.lastSeqSent < 2 ^ 64) (hmux : shouldMultiplex msg.command = true)
    (hsend : relaySendCommandFromEdge e orig msg switchPackaging packaging = some em) :
    Sending e em := by
  simp only [relaySendCommandFromEdge, Option.bind_eq_bind, Option.bind_eq_some_iff] at hsend
  obtain ⟨⟨decision, e'⟩, hdecide, hrest⟩ := hsend
  have houtcome := decideCircForSend_outcome h hsent hmux hdecide
  have htore (htore : ToreDown e e') : Sending e ⟨e', orig, []⟩ :=
    sending_nothing htore.wellFormed (by simp [htore.legs]) htore.lastSeqDelivered
  cases decision with
  | noCircuit =>
    refine Option.some.inj hrest ▸ sending_nothing (houtcome.wellFormed h) (fun l hl => ?_)
      houtcome.lastSeqDelivered
    exact houtcome.legs ▸ hl
  | switchFailed => exact Option.some.inj hrest ▸ htore houtcome
  | incoherent => exact Option.some.inj hrest ▸ htore houtcome.1
  | keep circ => exact Option.some.inj hrest ▸ packageRelayMsg_sending packaging houtcome hmux
  | switched circ cell =>
    exact Option.some.inj hrest ▸ packageRelayMsg_sending packaging houtcome hmux

end SendCases

/-! The counters of the sender. The current leg is the one that has gone furthest, and a
SWITCH cell makes up for what its leg has missed. -/

section SendOrder

/-- The counters of an end that has sent `n` messages since all of them were `base`. -/
structure SendInv (base n : ℕ) (e : Endpoint) : Prop extends WellFormed e where
  bounded : ∀ l ∈ e.cfx.legs, base ≤ l.lastSeqSent ∧ l.lastSeqSent ≤ base + n
  current : ∀ l ∈ e.cfx.legs, e.cfx.currLeg = some l.circ → l.lastSeqSent = base + n
  unused : e.cfx.currLeg = none → n = 0 ∨ e.cfx.legs = []

variable {base n : ℕ} {e e' : Endpoint} {circ : ℕ} {switches : List Cell} {packaging : Packaging}

/-- Closing circuits keeps the counters of the legs that stay. -/
theorem SendInv.shrunk (h : SendInv base n e) (hwf : WellFormed e') (hshrunk : Shrunk e e')
    (hcurr : e'.cfx.currLeg = e.cfx.currLeg ∨ e'.cfx.legs = []) : SendInv base n e' where
  toWellFormed := hwf
  bounded l hl := h.bounded l (hshrunk.legs.subset hl)
  current l hl hc := by
    obtain hsame | hnil := hcurr
    · exact h.current l (hshrunk.legs.subset hl) (hsame ▸ hc)
    · simp [hnil] at hl
  unused hc := by
    obtain hsame | hnil := hcurr
    · refine (h.unused (hsame ▸ hc)).imp_right fun hlegs => ?_
      exact List.subperm_nil.mp (hlegs ▸ hshrunk.legs)
    · exact .inr hnil

theorem SendInv.circuitMarkForClose (h : SendInv base n e) (circ : ℕ) :
    SendInv base n (circuitMarkForClose e circ) :=
  have ⟨hwf, hshrunk, hcurr⟩ := circuitMarkForClose_spec h.toWellFormed circ
  h.shrunk hwf hshrunk hcurr

theorem SendInv.ofNil (hwf : WellFormed e') (hnil : e'.cfx.legs = []) : SendInv base n e' where
  toWellFormed := hwf
  bounded l hl := by simp [hnil] at hl
  current l hl := by simp [hnil] at hl
  unused _ := .inr hnil

theorem SendInv.furthest (h : SendInv base n e) {prev : Leg} (hprev : prev ∈ e.cfx.legs)
    (hcurr : ∀ c ∈ e.cfx.currLeg, c = prev.circ) : prev.lastSeqSent = base + n := by
  cases hc : e.cfx.currLeg with
  | some c => exact h.current prev hprev (hc.trans (congrArg some (hcurr c hc)))
  | none =>
    have hbounded := h.bounded prev hprev
    obtain hzero | hnil := h.unused hc
    · omega
    · simp [hnil] at hprev

theorem SendInv.picked (h : SendInv base n e) (hpicked : Picked e e') : SendInv base n e' where
  toWellFormed := hpicked.wellFormed h.toWellFormed
  bounded := hpicked.legs ▸ h.bounded
  current l hl hc := h.furthest (hpicked.legs ▸ hl) (hpicked.current hc)
  unused hc := by
    rw [hpicked.legs]
    obtain hsame | ⟨-, l, -, hpick⟩ := hpicked.currLeg
    · exact h.unused (hsame ▸ hc)
    · simp [hpick] at hc

theorem Prepared.resolved_eq (h : Prepared e e' circ switches) (hinv : SendInv base n e) :
    ∀ l ∈ e.cfx.legs, l.circ = circ → resolved l.lastSeqSent switches = base + n := by
  obtain ⟨prev, hprev, hcurr, hresolved⟩ := h.reached
  intro l hl hc
  rw [hresolved l hl hc, hinv.furthest hprev hcurr]

/-- A leg that is brought to `base + m` and made current has gone furthest. -/
theorem SendInv.advance {m : ℕ} {cells : List Cell} (hinv : SendInv base n e) (hm : n ≤ m)
    (hwf : WellFormed e') (hcurr : e'.cfx.currLeg = some circ)
    (hresolved : ∀ l ∈ e.cfx.legs, l.circ = circ → resolved l.lastSeqSent cells = base + m)
    (hlegs : ∀ l' ∈ e'.cfx.legs, ∃ l ∈ e.cfx.legs, l.circ = l'.circ ∧
      l'.lastSeqRecv = l.lastSeqRecv ∧
      l'.lastSeqSent = if l.circ = circ then resolved l.lastSeqSent cells else l.lastSeqSent) :
    SendInv base m e' where
  toWellFormed := hwf
  bounded l' hl' := by
    obtain ⟨l, hl, hcirc, -, hsent⟩ := hlegs l' hl'
    have hbounded := hinv.bounded l hl
    by_cases hc : l.circ = circ
    · rw [hsent, if_pos hc, hresolved l hl hc]
      omega
    · rw [hsent, if_neg hc]
      omega
  current l' hl' hc := by
    obtain ⟨l, hl, hcirc, -, hsent⟩ := hlegs l' hl'
    have hc' : l.circ = circ := by
      rw [hcirc]
      exact (Option.some.inj (hcurr.symm.trans hc)).symm
    rw [hsent, if_pos hc', hresolved l hl hc']
  unused hc := by simp [hcurr] at hc

/-- For a set whose counters are in order, no leg is ahead of the current one. -/
theorem decideCircForSend_coherent {orig : ℕ} {cmd : RelayCommand}
    (h : SendInv base n e) (hn : base + n < 2 ^ 64) :
    decideCircForSend e orig cmd packaging ≠ some (.incoherent, e') := by
  intro hdecide
  cases hmux : shouldMultiplex cmd with
  | false => simp [decideCircForSend, hmux] at hdecide
  | true =>
    have hsent : ∀ l ∈ e.cfx.legs, l.lastSeqSent < 2 ^ 64 := fun l hl => by
      have hbounded := h.bounded l hl
      omega
    obtain ⟨-, prev, hprev, new, hnew, hcurr, hahead⟩ :=
      decideCircForSend_outcome h.toWellFormed hsent hmux hdecide
    have hbounded := h.bounded new hnew
    rw [h.furthest hprev hcurr] at hahead
    omega

/-- What a call of `relay_send_command_from_edge_` sends: the message, if it goes out, is
the next one of the numbering, whichever leg carries it. -/
structure Emitted (base n : ℕ) (e : Endpoint) (em : Emission) : Prop extends Sending e em where
  inv : SendInv base (n + (relayed em.cells).length) em.endpoint
  numbers : ∀ l ∈ e.cfx.legs, l.circ = em.circ →
    numbered l.lastSeqSent em.cells = (relayed em.cells).zipIdx (base + n + 1)

theorem emitted_switches {e'' : Endpoint}
    (h : Prepared e e' circ switches) (hsending : Sending e ⟨e'', circ, switches⟩)
    (hinv : SendInv base n e'') : Emitted base n e ⟨e'', circ, switches⟩ where
  toSending := hsending
  inv := by simpa [h.relayed] using hinv
  numbers l _ _ := by simp [h.numbered, h.relayed]

theorem packageRelayMsg_emitted {msg : RelayMsg}
    (h : Prepared e e' circ switches) (hinv : SendInv base n e) (hn : base + n + 1 < 2 ^ 64)
    (hmux : shouldMultiplex msg.command = true) :
    Emitted base n e (packageRelayMsg e' circ switches msg packaging) := by
  have hsending := packageRelayMsg_sending packaging h hmux
  have hinv' : SendInv base n e' :=
    hinv.advance n.le_refl h.wellFormed h.currLeg (h.resolved_eq hinv) h.legs
  unfold packageRelayMsg at hsending ⊢
  split_ifs at hsending ⊢ with hmarked
  · exact emitted_switches h hsending hinv'
  · cases packaging with
    | queueFull => exact emitted_switches h hsending (hinv'.circuitMarkForClose circ)
    | queued =>
      have hresolved (l : Leg) (hl : l ∈ e.cfx.legs) (hc : l.circ = circ) :
          resolved l.lastSeqSent (switches ++ [.relay msg]) = base + (n + 1) := by
        rw [resolved_append, h.resolved_eq hinv l hl hc, resolved, resolved, wrap64_of_lt hn]
        rfl
      refine ⟨hsending, ?_, fun l hl hc => ?_⟩
      · simp only [relayed_append, h.relayed, relayed, List.nil_append, List.length_singleton]
        refine hinv.advance (Nat.le_succ n) hsending.wellFormed ?_ hresolved hsending.legs
        simp only [noteCellSent, hmux, Bool.not_true, Bool.false_eq_true, if_false]
        exact h.currLeg
      · simp [numbered_append, h.numbered, relayed_append, h.relayed, relayed, numbered,
          h.resolved_eq hinv l hl hc, wrap64_of_lt hn]

theorem relaySendCommandFromEdge_emitted {orig : ℕ} {msg : RelayMsg}
    {switchPackaging : Packaging} {em : Emission} (h : SendInv base n e)
    (hn : base + n + 1 < 2 ^ 64) (hmux : shouldMultiplex msg.command = true)
    (hsend : relaySendCommandFromEdge e orig msg switchPackaging packaging = some em) :
    Emitted base n e em := by
  have hsent : ∀ l ∈ e.cfx.legs, l.lastSeqSent < 2 ^ 64 := fun l hl => by
    have hbounded := h.bounded l hl
    omega
  have hsending := relaySendCommandFromEdge_sending h.toWellFormed hsent hmux hsend
  simp only [relaySendCommandFromEdge, Option.bind_eq_bind, Option.bind_eq_some_iff] at hsend
  obtain ⟨⟨decision, e'⟩, hdecide, hrest⟩ := hsend
  have houtcome := decideCircForSend_outcome h.toWellFormed hsent hmux hdecide
  have hnothing (hinv : SendInv base n e') (hem : em = ⟨e', orig, []⟩) : Emitted base n e em := by
    subst hem
    exact ⟨hsending, by simpa [relayed] using hinv, fun _ _ _ => rfl⟩
  cases decision with
  | noCircuit => exact hnothing (h.picked houtcome) (Option.some.inj hrest).symm
  | switchFailed =>
    exact hnothing (.ofNil houtcome.wellFormed houtcome.legs) (Option.some.inj hrest).symm
  | incoherent => exact absurd hdecide (decideCircForSend_coherent h (by omega))
  | keep circ => exact Option.some.inj hrest ▸ packageRelayMsg_emitted houtcome h hn hmux
  | switched circ cell =>
    exact Option.some.inj hrest ▸ packageRelayMsg_emitted houtcome h hn hmux

end SendOrder

end TorDaemon.Conflux

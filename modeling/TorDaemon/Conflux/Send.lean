import TorDaemon.Conflux.Endpoint

/-! The choice of the leg to send on. Windows and round-trip times have 64 bits and
wrap as the source's do; `none` is a failed assertion. -/
namespace TorDaemon.Conflux

section Schedule

def circuitReadyToSend (circuit : Circuit) : Bool :=
  decide (circuit.ccontrol.inflight < circuit.ccontrol.cwnd) && !circuit.blockedOnChan

def cwndAvailable (cc : CongestionControl) : UInt64 :=
  if cc.cwnd < cc.inflight then 0 else cc.cwnd - cc.inflight

def cwndSendable (cc : CongestionControl) (inUsec ourUsec : UInt64) : UInt64 :=
  let adjusted := cwndAvailable cc
  if ourUsec = 0 ∨ inUsec = 0 then adjusted
  else if cc.inSlowStart then adjusted
  else min cc.cwnd (adjusted * inUsec / ourUsec)

/-- The first leg with the lowest measured round-trip time below the bound. -/
def lowestRtt (bound : Option UInt64) : List Leg → Option Leg
  | [] => none
  | leg :: legs =>
    if leg.circRttsUsec ≠ 0 ∧ bound.all fun usec => leg.circRttsUsec < usec then
      some ((lowestRtt (some leg.circRttsUsec) legs).getD leg)
    else lowestRtt bound legs

def rttMax : UInt64 := 18446744073709551615

variable (circuits : ℕ → Circuit)

def decideCircMinrtt (legs : List Leg) : Option ℕ :=
  (lowestRtt (some rttMax) legs).bind fun leg =>
    if circuitReadyToSend (circuits leg.circ) then some leg.circ else none

def decideCircLowrtt (legs : List Leg) : Option ℕ :=
  (lowestRtt (some rttMax)
    (legs.filter fun leg => circuitReadyToSend (circuits leg.circ))).map Leg.circ

/-- `conflux_decide_circ_cwndrtt`: beside the leg of the lowest round-trip time, the last
one that has room is taken. -/
def decideCircCwndrtt (legs : List Leg) : Option ℕ :=
  let minLeg := lowestRtt (some rttMax) legs
  let minRtt := (minLeg.map Leg.circRttsUsec).getD rttMax
  match minLeg.filter fun leg => circuitReadyToSend (circuits leg.circ) with
  | some leg => some leg.circ
  | none =>
    ((legs.filter fun leg => circuitReadyToSend (circuits leg.circ) &&
      decide (leg.circRttsUsec ≠ 0 ∧
        0 < cwndSendable (circuits leg.circ).ccontrol minRtt leg.circRttsUsec)).getLast?).map
      Leg.circ

def canSwitch (params : Params) (cfx : ConfluxSet) : Bool :=
  if 0 < cfx.cellsUntilSwitch then
    match cfx.prevLeg with
    | none => false
    | some prev =>
      let cc := (circuits prev).ccontrol
      decide (cc.inflight < cc.sendmeInc.toUInt64 ∨
        100 * cc.inflight ≤ params.drainPct.toUInt64 * cc.cwnd)
  else true

/-- `conflux_pick_first_leg`; `none` is a set without legs. -/
def pickFirstLeg (cfx : ConfluxSet) : Option ConfluxSet :=
  ((lowestRtt none cfx.legs).orElse fun _ => cfx.legs.head?).map fun leg =>
    { cfx with cellsUntilSwitch := 0, currLeg := some leg.circ }

/-- The rest of `conflux_decide_next_circ`, for a set with a current leg. -/
def decideAmongLegs (params : Params) (cfx : ConfluxSet) (curr : ℕ) : Option (Option ℕ) :=
  if !canSwitch circuits params cfx then
    some (if circuitReadyToSend (circuits curr) then some curr else none)
  else if cfx.legs = [] then none
  else
    match cfx.alg with
    | .minrtt => some (decideCircMinrtt circuits cfx.legs)
    | .lowrtt => some (decideCircLowrtt circuits cfx.legs)
    | .cwndrtt => some (decideCircCwndrtt circuits cfx.legs)

/-- `conflux_decide_next_circ`: the circuit, and the set with its current leg picked. -/
def decideNextCirc (e : Endpoint) : Option (Option ℕ × Endpoint) :=
  if e.cfx.inFullTeardown then some (none, e)
  else
    match e.cfx.currLeg with
    | some curr =>
      (decideAmongLegs e.circuits e.params e.cfx curr).map fun circ => (circ, e)
    | none =>
      match pickFirstLeg e.cfx with
      | none => some (none, e)
      | some cfx => do
        let curr ← cfx.currLeg
        let circ ← decideAmongLegs e.circuits e.params cfx curr
        some (circ, { e with cfx := cfx })

section Choice
variable {circuits}

theorem lowestRtt_mem {bound : Option UInt64} {legs : List Leg} {leg : Leg}
    (h : lowestRtt bound legs = some leg) : leg ∈ legs := by
  induction legs generalizing bound leg with
  | nil => simp [lowestRtt] at h
  | cons first legs ih =>
    simp only [lowestRtt] at h
    split_ifs at h with hlower
    · cases hrest : lowestRtt (some first.circRttsUsec) legs with
      | none =>
        obtain rfl : first = leg := by simpa [hrest] using h
        exact List.mem_cons_self
      | some other =>
        obtain rfl : other = leg := by simpa [hrest] using h
        exact List.mem_cons_of_mem _ (ih hrest)
    · exact List.mem_cons_of_mem _ (ih h)

/-- Whatever the measurements and the windows are, a leg of the set is chosen. -/
theorem decideAmongLegs_mem {params : Params} {cfx : ConfluxSet} {curr circ : ℕ}
    (h : decideAmongLegs circuits params cfx curr = some (some circ))
    (hcurr : curr ∈ cfx.legs.map Leg.circ) : circ ∈ cfx.legs.map Leg.circ := by
  simp only [decideAmongLegs] at h
  split_ifs at h with hswitch hready hlegs
  · obtain rfl : curr = circ := by simpa using h
    exact hcurr
  · simp at h
  · cases halg : cfx.alg with
    | minrtt =>
      simp only [halg, Option.some.injEq, decideCircMinrtt, Option.bind_eq_some_iff,
        Option.ite_none_right_eq_some] at h
      obtain ⟨leg, hleg, -, rfl⟩ := h
      exact List.mem_map_of_mem (lowestRtt_mem hleg)
    | lowrtt =>
      simp only [halg, Option.some.injEq, decideCircLowrtt, Option.map_eq_some_iff] at h
      obtain ⟨leg, hleg, rfl⟩ := h
      exact List.mem_map_of_mem (List.mem_of_mem_filter (lowestRtt_mem hleg))
    | cwndrtt =>
      simp only [halg, Option.some.injEq, decideCircCwndrtt] at h
      split at h
      · rename_i leg hleg
        obtain rfl : leg.circ = circ := by simpa using h
        exact List.mem_map_of_mem (lowestRtt_mem (Option.filter_eq_some_iff.mp hleg).1)
      · obtain ⟨leg, hleg, rfl⟩ := Option.map_eq_some_iff.mp h
        exact List.mem_map_of_mem (List.mem_of_mem_filter (List.mem_of_getLast? hleg))

end Choice

end Schedule

/-! Sending a multiplexed message: the choice of the circuit, the SWITCH cell before a
change of leg, and the counter of the leg that carries the message. -/

/-- What the wire of a leg carries. A SWITCH cell holds a relative sequence number. -/
inductive Cell
  | switch (relativeSeq : ℕ)
  | relay (msg : RelayMsg)
  deriving DecidableEq

/-- Whether a cell that is packaged fits in the queue of its circuit. -/
inductive Packaging
  | queued
  | queueFull
  deriving DecidableEq

def uint32Max : ℕ := 4294967295

/-- `conflux_send_switch_command`: the cell that went out. -/
def sendSwitchCommand (relativeSeq : ℕ) (packaging : Packaging) : Option Cell :=
  if uint32Max ≤ relativeSeq then none
  else match packaging with
    | .queued => some (.switch relativeSeq)
    | .queueFull => none

/-- The ends of `conflux_decide_circ_for_send`. -/
inductive Decision
  | noCircuit
  | keep (circ : ℕ)
  | switched (circ : ℕ) (cell : Cell)
  | incoherent
  | switchFailed
  deriving DecidableEq

/-- The part of `conflux_decide_circ_for_send` after the change of the current leg. -/
def switchLeg (e : Endpoint) (prevLeg newLeg : Leg) (packaging : Packaging) : Decision × Endpoint :=
  if prevLeg.lastSeqSent < newLeg.lastSeqSent then (.incoherent, markAllForClose e)
  else
    match sendSwitchCommand (prevLeg.lastSeqSent - newLeg.lastSeqSent) packaging with
    | none => (.switchFailed, markAllForClose e)
    | some cell =>
      let legs := updateLeg newLeg.circ
        (fun leg => { leg with lastSeqSent := prevLeg.lastSeqSent }) e.cfx.legs
      (.switched newLeg.circ cell, { e with cfx := { e.cfx with legs := legs } })

/-- `conflux_decide_circ_for_send`; `none` is a failed assertion. -/
def decideCircForSend (e : Endpoint) (origCirc : ℕ) (cmd : RelayCommand)
    (packaging : Packaging) : Option (Decision × Endpoint) :=
  if !shouldMultiplex cmd then some (.keep origCirc, e)
  else do
    let (newCirc, e) ← decideNextCirc e
    match newCirc with
    | none =>
      match e.cfx.currLeg with
      | some curr => some (if cmd = .data then .noCircuit else .keep curr, e)
      | none => some (.noCircuit, e)
    | some newCirc =>
      let curr ← e.cfx.currLeg
      if newCirc = curr then some (.keep newCirc, e)
      else
        let newLeg ← getLeg e.cfx.legs newCirc
        let prevLeg ← getLeg e.cfx.legs curr
        let cfx := { e.cfx with
          cellsUntilSwitch := 0, prevLeg := some curr, currLeg := some newCirc }
        some (switchLeg { e with cfx := cfx } prevLeg newLeg packaging)

def noteCellSent (cfx : ConfluxSet) (circ : ℕ) (cmd : RelayCommand) : ConfluxSet :=
  if !shouldMultiplex cmd then cfx
  else { cfx with
    legs := updateLeg circ (fun leg => { leg with lastSeqSent := wrap64 (leg.lastSeqSent + 1) })
      cfx.legs
    cellsUntilSwitch := cfx.cellsUntilSwitch - 1 }

/-- What a call of `relay_send_command_from_edge_` put on the wire of one circuit. -/
structure Emission where
  endpoint : Endpoint
  circ : ℕ
  cells : List Cell

/-- The message goes on the wire of the circuit, behind a SWITCH cell if there is one. -/
def packageRelayMsg (e : Endpoint) (circ : ℕ) (switches : List Cell) (msg : RelayMsg)
    (packaging : Packaging) : Emission :=
  if (e.circuits circ).markedForClose then ⟨e, circ, switches⟩
  else match packaging with
    | .queueFull => ⟨circuitMarkForClose e circ, circ, switches⟩
    | .queued => ⟨{ e with cfx := noteCellSent e.cfx circ msg.command }, circ,
        switches ++ [.relay msg]⟩

/-- `relay_send_command_from_edge_`, on a circuit of a set. -/
def relaySendCommandFromEdge (e : Endpoint) (origCirc : ℕ) (msg : RelayMsg)
    (switchPackaging packaging : Packaging) : Option Emission := do
  let (decision, e) ← decideCircForSend e origCirc msg.command switchPackaging
  match decision with
  | .keep circ => some (packageRelayMsg e circ [] msg packaging)
  | .switched circ cell => some (packageRelayMsg e circ [cell] msg packaging)
  | .noCircuit | .incoherent | .switchFailed => some ⟨e, origCirc, []⟩

section Numbering

/-- The counter of a receiver that has read the cells. -/
def resolved (seq : ℕ) : List Cell → ℕ
  | [] => seq
  | .switch relativeSeq :: cells => resolved (wrap64 (seq + relativeSeq)) cells
  | .relay _ :: cells => resolved (wrap64 (seq + 1)) cells

/-- The messages among the cells, with the absolute sequence numbers that a receiver
gives them. -/
def numbered (seq : ℕ) : List Cell → List (RelayMsg × ℕ)
  | [] => []
  | .switch relativeSeq :: cells => numbered (wrap64 (seq + relativeSeq)) cells
  | .relay msg :: cells => (msg, wrap64 (seq + 1)) :: numbered (wrap64 (seq + 1)) cells

/-- The messages among the cells. -/
def relayed : List Cell → List RelayMsg
  | [] => []
  | .switch _ :: cells => relayed cells
  | .relay msg :: cells => msg :: relayed cells

variable {seq : ℕ} {cells cells' : List Cell}

theorem resolved_append :
    resolved seq (cells ++ cells') = resolved (resolved seq cells) cells' := by
  induction cells generalizing seq with
  | nil => rfl
  | cons cell cells ih => cases cell <;> exact ih

theorem numbered_append : numbered seq (cells ++ cells') =
      numbered seq cells ++ numbered (resolved seq cells) cells' := by
  induction cells generalizing seq with
  | nil => rfl
  | cons cell cells ih =>
    cases cell with
    | switch relativeSeq => exact ih
    | relay msg => exact congrArg _ ih

theorem relayed_append : relayed (cells ++ cells') = relayed cells ++ relayed cells' := by
  induction cells with
  | nil => rfl
  | cons cell cells ih =>
    cases cell with
    | switch relativeSeq => exact ih
    | relay msg => exact congrArg _ ih

end Numbering

end TorDaemon.Conflux

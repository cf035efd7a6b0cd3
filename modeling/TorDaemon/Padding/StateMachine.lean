import TorDaemon.Library.Contracts
import TorDaemon.Padding.Sampling

/-! The padding state machines of a circuit: transitions, timers and cell events
(`circuitpadding.c`). The functions call one another; `transition` stands for a nested call of
`circpad_machine_spec_transition`, through which all of the calls go round. -/
namespace TorDaemon.Padding.Machine
open Library.Contracts

/-- What the machines read of the rest of the process and of the circuit. -/
structure World where
  /-- `circpad_is_padding_allowed` -/
  isPaddingAllowed : Bool
  isParticipatingOnNetwork : Bool
  isOpen : Bool
  markedForClose : Bool
  globalAllowedCells : ℕ
  globalMaxPaddingPercent : ℕ
  globalPaddingSent : ℕ
  globalNonpaddingSent : ℕ

/-- The machines of one circuit. `draws` is what the environment will answer, `log` what has been
noted, newest first. -/
structure Circuit where
  isOrigin : Bool
  world : World
  paddingMachine : Slot → Option Spec
  paddingInfo : Slot → Option Runtime
  draws : ℕ → Draw
  drawn : ℕ
  log : List Observation

def Circuit.new (isOrigin : Bool) (world : World) (draws : ℕ → Draw) : Circuit :=
  ⟨isOrigin, world, fun _ => none, fun _ => none, draws, 0, []⟩

/-- Why processing stops on the way: the process has crashed, or the calls nest too deeply. -/
inductive Stop
  | crash
  | depth
  deriving DecidableEq

abbrev Run := EStateM Stop Circuit

def Circuit.machineAt (c : Circuit) (i : Slot) : Option (Spec × Runtime) :=
  (c.paddingMachine i).bind fun spec => (c.paddingInfo i).map fun mi => (spec, mi)

def Circuit.withInfo (c : Circuit) (i : Slot) (mi : Option Runtime) : Circuit :=
  { c with paddingInfo := Function.update c.paddingInfo i mi }

/-- The machine in a slot; the code reads it through a pointer. -/
def slot (i : Slot) : Run (Spec × Runtime) := fun c =>
  match c.machineAt i with
  | some p => .ok p c
  | none => .error .crash c

def onSlot {α : Type} (i : Slot) (f : Local α) : Run α := fun c =>
  match c.machineAt i with
  | none => .error .crash c
  | some (spec, mi) =>
    match f spec (c.draws c.drawn) mi with
    | none => .error .crash c
    | some (a, mi', noted) =>
      .ok a { c.withInfo i (some mi') with drawn := c.drawn + 1, log := noted ++ c.log }

/-- A change of one machine that needs nothing from the environment. -/
def changeSlot (i : Slot) (f : Spec → Runtime → Runtime) : Run Unit :=
  onSlot i fun spec _ mi => some ((), f spec mi, [])

def note (o : Circuit → Observation) : Run Unit := fun c => .ok () { c with log := o c :: c.log }

/-! ### Limits -/

/-- The global part of `circpad_machine_reached_padding_limit`. `none` is a division by zero. -/
def World.reachedPaddingLimit (w : World) : Option Bool :=
  if w.globalMaxPaddingPercent ≠ 0 ∧ w.globalAllowedCells ≤ w.globalPaddingSent then
    let totalCells := (w.globalPaddingSent + w.globalNonpaddingSent) % 2 ^ 64
    if totalCells = 0 then none
    else some (decide
      (w.globalMaxPaddingPercent < 100 * w.globalPaddingSent % 2 ^ 64 / totalCells))
  else some false

def machineReachedPaddingLimit (w : World) (spec : Spec) (mi : Runtime) : Option Bool :=
  if spec.maxPaddingPercent ≠ 0 ∧ spec.allowedPaddingCount ≤ mi.paddingSent then
    let totalCells := mi.paddingSent + mi.nonpaddingSent
    if totalCells = 0 then none
    else if spec.maxPaddingPercent < 100 * mi.paddingSent / totalCells then some true
    else w.reachedPaddingLimit
  else w.reachedPaddingLimit

/-- Whether `circpad_machine_schedule_padding` returns before it looks at the timer. -/
def schedulingRefused (w : World) (spec : Spec) (mi : Runtime) : Option Bool :=
  if w.isPaddingAllowed = false then some true
  else if w.isParticipatingOnNetwork = false then some true
  else if mi.currentState = none then some true
  else machineReachedPaddingLimit w spec mi

/-! ### What may leave a timer behind -/

/-- The machine has a timer that `circpad_machine_schedule_padding` will not look at. -/
def Circuit.stale (c : Circuit) (i : Slot) : Bool :=
  match c.machineAt i with
  | none => false
  | some (spec, mi) =>
    mi.isPaddingTimerScheduled && decide (schedulingRefused c.world spec mi = some true)

/-- The event does not reach the timer of the machine: it is ignored, or it asks for a new timer
and scheduling is refused. -/
def leavesTimer (w : World) (spec : Spec) (mi : Runtime) (e : Event) : Bool :=
  match spec.currentState mi with
  | none => true
  | some st =>
    match st.nextState e with
    | .ignore => true
    | .cancel => false
    | .stateEnd => false
    | .state s => decide (mi.currentState = some s ∧ schedulingRefused w spec mi = some true)

/-- The machine has used up its length but has a timer, and none of the events reaches it. -/
def strandedBy (w : World) (spec : Spec) (mi : Runtime) (events : List Event) : Bool :=
  mi.isPaddingTimerScheduled && decide (mi.stateLength = 0) && events.all (leavesTimer w spec mi)

/-- The events are to come, after `CIRCPAD_EVENT_BINS_EMPTY` if the bins are empty. -/
def withSupplyEvent (mi : Runtime) (events : List Event) : List Event :=
  if mi.binsEmpty then .binsEmpty :: events else events

def Circuit.stranded (c : Circuit) (i : Slot) (events : List Event) : Bool :=
  match c.machineAt i with
  | none => false
  | some (spec, mi) => strandedBy c.world spec mi (withSupplyEvent mi events)

/-! ### Estimating the round-trip time -/

def estimateCircRttOnReceived (isOrigin : Bool) (w : World) : Local Unit := fun spec draw mi =>
  if isOrigin = true ∨ mi.stopRttUpdate = true then some ((), mi, [])
  else if mi.lastReceivedTimeUsec ≠ 0 then
    some ((), if w.isOpen then { mi with stopRttUpdate := true } else mi, [])
  else match spec.currentState mi with
    | none => some ((), mi, [])
    | some st =>
      if st.useRttEstimate then some ((), { mi with lastReceivedTimeUsec := draw.now }, [])
      else some ((), { mi with stopRttUpdate := true }, [])

def estimateCircRttOnSend (isOrigin : Bool) (w : World) : Local Unit := fun _ draw mi =>
  if isOrigin then some ((), mi, [])
  else if mi.lastReceivedTimeUsec ≠ 0 then
    let rttTime := (draw.now + 2 ^ 64 - mi.lastReceivedTimeUsec) % 2 ^ 64
    let reset := { mi with lastReceivedTimeUsec := 0 }
    if 2 ^ 31 - 1 ≤ rttTime then some ((), reset, [])
    else if mi.rttEstimateUsec < rttTime then
      some ((), { reset with rttEstimateUsec := rttTime }, [])
    else some ((), { reset with rttEstimateUsec := (mi.rttEstimateUsec + rttTime) % 2 ^ 32 / 2 }, [])
  else some ((), if w.isOpen then { mi with stopRttUpdate := true } else mi, [])

/-! ### Transitions and timers -/

/-- The environment's next answer, to a cell that is sent. -/
def draw : Run Draw := fun c => .ok (c.draws c.drawn) { c with drawn := c.drawn + 1 }

section Calls

variable (transition : Slot → Event → Run Bool)

def internalEventBinsEmpty (i : Slot) : Run Bool := do
  let changed ← transition i .binsEmpty
  if changed then pure true
  else do
    changeSlot i setupTokens
    pure false

/-- `check_machine_token_supply`, the tokens. -/
def checkTokens (i : Slot) : Run Bool := do
  let p ← slot i
  if p.2.binsEmpty then internalEventBinsEmpty transition i else pure false

def checkMachineTokenSupply (i : Slot) : Run Bool := do
  let changed ← checkTokens transition i
  if changed then pure true
  else do
    let p ← slot i
    if p.2.stateLength = 0 then transition i .lengthCount else pure false

/-- The machines of the slots in which there is one react in turn. -/
def forEachActiveMachine (react : Slot → Run Unit) : Run Unit :=
  allSlots.forM fun i => do
    let c ← get
    if (c.paddingInfo i).isSome then react i else pure ()

/-- An event follows the check of the token supply unless that has changed the state. -/
def checkThen (e : Event) (i : Slot) : Run Unit := do
  let changed ← checkMachineTokenSupply transition i
  if changed then pure ()
  else do
    let _ ← transition i e
    pure ()

def cellEventPaddingSent : Run Unit := forEachActiveMachine (checkThen transition .paddingSent)

section
variable (i : Slot)

/-- `circpad_cell_event_nonpadding_sent`, for one machine. -/
def nonpaddingSentOn : Run Unit := do
  let c ← get
  onSlot i (estimateCircRttOnSend c.isOrigin c.world)
  onSlot i countNonpaddingSent
  note fun c => .spends (c.stranded i [.lengthCount, .nonpaddingSent])
  checkThen transition .nonpaddingSent i

def countGlobalNonpadding (c : Circuit) : Circuit :=
  { c with world := { c.world with
      globalNonpaddingSent := (c.world.globalNonpaddingSent + 1) % 2 ^ 64 } }

def cellEventNonpaddingSent : Run Unit := do
  modify countGlobalNonpadding
  forEachActiveMachine (nonpaddingSentOn transition)

/-- What happens to the circuit when a padding cell is sent, events apart. -/
def afterDrop (d : Draw) (c : Circuit) : Circuit :=
  { c with world := { c.world with
      globalPaddingSent := (c.world.globalPaddingSent + 1) % 2 ^ 64
      markedForClose := c.world.markedForClose || d.closes } }

/-- The end of `circpad_send_padding_cell_for_callback`. -/
def checkAfterSending (state : Option ℕ) : Run Bool := do
  let c ← get
  match c.paddingInfo i with
  | none => pure true
  | some mi =>
    if mi.currentState ≠ state then pure true else checkMachineTokenSupply transition i

def sendPaddingCellForCallback : Run Bool := do
  let p ← slot i
  changeSlot i fun _ mi => mi.cancelPadding
  let c ← get
  if c.world.markedForClose then pure true
  else do
    onSlot i countPaddingSent
    let d ← draw
    modify (afterDrop d)
    cellEventPaddingSent transition
    checkAfterSending transition i p.2.currentState

/-- The timer is cancelled and a new delay is chosen. -/
def chooseDelay : Local ℕ := fun spec draw mi =>
  (sampleDelay spec draw { mi with isPaddingTimerScheduled := false }).map
    fun (delay, mi, noted) =>
      (delay, { mi with paddingScheduledAtUsec := if mi.histogram.isSome then draw.now else 1 },
        noted)

def askRefused : Run Bool := fun c =>
  match c.machineAt i with
  | none => .error .crash c
  | some (spec, mi) =>
    match schedulingRefused c.world spec mi with
    | none => .error .crash c
    | some refused => .ok refused c

/-- The end of `circpad_machine_schedule_padding`. -/
def scheduleIn (delay : ℕ) : Run Bool := do
  let p ← slot i
  if p.2.stateLength = 0 then pure false
  else if delay = 0 then sendPaddingCellForCallback transition i
  else do
    changeSlot i fun _ mi => { mi with isPaddingTimerScheduled := true }
    pure false

/-- `circpad_machine_schedule_padding`, once nothing speaks against padding. -/
def replaceTimer : Run Bool := do
  let delay ← onSlot i chooseDelay
  if delay = delayInfinite then transition i .infinity else scheduleIn transition i delay

def schedulePadding : Run Bool := do
  let refused ← askRefused i
  if refused then pure false else replaceTimer transition i

/-- `circpad_negotiate_padding`, `circpad_padding_negotiated`: a cell that gets as far as being
sent is a non-padding cell. -/
def sendNegotiation : Run Unit := do
  let d ← draw
  if d.sent then cellEventNonpaddingSent transition else pure ()

def freeInfo : Run Unit := modify fun c => c.withInfo i none

def freeMachine : Run Unit :=
  modify fun c => { c with paddingMachine := Function.update c.paddingMachine i none }

def specTransitionedToEnd : Run Unit := do
  let p ← slot i
  if p.1.shouldNegotiateEnd then do
    freeInfo i
    sendNegotiation transition
    if p.1.isOriginSide then pure () else freeMachine i
  else pure ()

def enterState (s : Option ℕ) : Local Unit := fun spec draw mi =>
  some ((), chooseStateLength spec draw (setupTokens spec { mi with currentState := s }), [])

/-- `circpad_machine_spec_transition`, where the state changes. -/
def moveTo (s : ℕ) : Run Bool := do
  onSlot i (enterState (some s))
  note fun c => .enters (c.stale i)
  let _ ← schedulePadding transition i
  pure true

/-- `circpad_machine_spec_transition`, where the state becomes `CIRCPAD_STATE_END`. -/
def moveToEnd : Run Bool := do
  onSlot i (enterState none)
  specTransitionedToEnd transition i
  pure true

/-- `circpad_machine_spec_transition`, for the machine that it finds. -/
def reactTo (e : Event) (p : Spec × Runtime) : Run Bool :=
  match p.1.currentState p.2 with
  | none => pure false
  | some st =>
    match st.nextState e with
    | .ignore => pure false
    | .cancel => do
      changeSlot i fun _ mi => mi.cancelPadding
      pure false
    | .stateEnd => moveToEnd transition i
    | .state s =>
      if p.2.currentState ≠ some s then moveTo transition i s else schedulePadding transition i

def specTransition (e : Event) : Run Bool := do
  let p ← slot i
  reactTo transition i e p

end

end Calls

/-- `circpad_machine_spec_transition` with `depth` calls of itself on the stack. -/
def machineSpecTransition : ℕ → Slot → Event → Run Bool
  | 0, _, _ => throw .depth
  | depth + 1, i, e => specTransition (machineSpecTransition depth) i e

/-! ### Runs -/

inductive Input
  | setup (i : Slot) (spec : Spec)
  | shutdown (i : Slot) (keepsMachine : Bool)
  | world (w : World)
  | nonpaddingSent
  | nonpaddingReceived
  | paddingReceived
  | timer (i : Slot)

def setupMachineOnCirc (i : Slot) (spec : Spec) (c : Circuit) : Circuit :=
  if c.isOrigin ≠ spec.isOriginSide then c
  else if (c.paddingMachine i).isSome ∨ (c.paddingInfo i).isSome then c
  else { c.withInfo i (some Runtime.new) with
    paddingMachine := Function.update c.paddingMachine i (some spec) }

section
variable (transition : Slot → Event → Run Bool)

def cellEventNonpaddingReceived : Run Unit :=
  forEachActiveMachine fun i => do
    let c ← get
    onSlot i (estimateCircRttOnReceived c.isOrigin c.world)
    let _ ← transition i .nonpaddingRecv
    pure ()

def cellEventPaddingReceived : Run Unit :=
  forEachActiveMachine fun i => do
    let _ ← transition i .paddingRecv
    pure ()

/-- `circpad_send_padding_callback`; a timer that has been disabled does not fire. -/
def sendPaddingCallback (i : Slot) : Run Unit := do
  let c ← get
  if (c.paddingInfo i).any Runtime.isPaddingTimerScheduled then do
    let _ ← sendPaddingCellForCallback transition i
    pure ()
  else pure ()

end

def deliver (depth : ℕ) : Input → Run Unit
  | .setup i spec => modify (setupMachineOnCirc i spec)
  | .shutdown i true => freeInfo i
  | .shutdown i false => do
    freeInfo i
    freeMachine i
  | .world w => modify fun c => { c with world := w }
  | .nonpaddingSent => cellEventNonpaddingSent (machineSpecTransition depth)
  | .nonpaddingReceived => cellEventNonpaddingReceived (machineSpecTransition depth)
  | .paddingReceived => cellEventPaddingReceived (machineSpecTransition depth)
  | .timer i => sendPaddingCallback (machineSpecTransition depth) i

/-- The circuit after the inputs, or where processing them has stopped. -/
def run (depth : ℕ) (c : Circuit) (inputs : List Input) : Circuit :=
  match inputs.forM (deliver depth) c with
  | .ok _ c' => c'
  | .error _ c' => c'

end TorDaemon.Padding.Machine

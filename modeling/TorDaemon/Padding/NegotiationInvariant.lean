import Mathlib.Algebra.Group.Nat.Defs
import TorDaemon.Library.Leases
import TorDaemon.Library.Reachability

/-! A client and a relay negotiate the padding machines of a circuit (`circuitpadding.c`).
Sending a cell delivers padding events before the cell is queued, so what has begun is on a
stack. -/
namespace TorDaemon.Padding
open Library.Leases Library.Reachability

/-- One of `CIRCPAD_MAX_MACHINES`. -/
abbrev Slot := Fin 2

def allSlots : List Slot := [0, 1]

structure MachineSpec where
  machineNum : ℕ
  machineIndex : Slot
  shouldNegotiateEnd : Bool
  deriving DecidableEq

inductive Command
  | start
  | stop
  deriving DecidableEq

/-- Which machine a cell is about. `serial` numbers the machines that the client has set up;
the code does not have it. -/
structure Tag where
  machineType : ℕ
  machineCtr : ℕ
  serial : ℕ
  deriving DecidableEq

structure Negotiate where
  command : Command
  tag : Tag
  deriving DecidableEq

structure Negotiated where
  command : Command
  ok : Bool
  tag : Tag
  deriving DecidableEq

structure MachineRuntime where
  machineCtr : ℕ
  serial : ℕ
  deriving DecidableEq

structure Circuit where
  paddingMachine : Slot → Option MachineSpec
  paddingInfo : Slot → Option MachineRuntime
  paddingMachineCtr : ℕ

def Circuit.new : Circuit := ⟨fun _ => none, fun _ => none, 0⟩

/-! ### Machines of a circuit -/

/-- A `uint32_t` for which zero is special. -/
def nextMachineCtr (ctr : ℕ) : ℕ := if (ctr + 1) % 2 ^ 32 = 0 then 1 else (ctr + 1) % 2 ^ 32

def machineinfoFreeIdx (i : Slot) (circ : Circuit) : Circuit :=
  { circ with paddingInfo := Function.update circ.paddingInfo i none }

def clearMachine (i : Slot) (circ : Circuit) : Circuit :=
  { circ with paddingMachine := Function.update circ.paddingMachine i none }

def setupMachineOnCirc (serial : ℕ) (machine : MachineSpec) (circ : Circuit) : Circuit :=
  let i := machine.machineIndex
  if (circ.paddingMachine i).isSome || (circ.paddingInfo i).isSome then circ
  else
    let ctr := nextMachineCtr circ.paddingMachineCtr
    { paddingMachine := Function.update circ.paddingMachine i (some machine)
      paddingInfo := Function.update circ.paddingInfo i (some ⟨ctr, serial⟩)
      paddingMachineCtr := ctr }

/-- The slot has the machine, and not a runtime of another counter. -/
def matchesMachine (machineNum machineCtr : ℕ) (circ : Circuit) (i : Slot) : Bool :=
  (circ.paddingMachine i).any fun machine => machine.machineNum = machineNum &&
    !(machineCtr ≠ 0 && (circ.paddingInfo i).any fun info => info.machineCtr ≠ machineCtr)

/-- Whether a slot has been freed, and the circuit. -/
def freeCircMachineinfosWithMachineNum (machineNum machineCtr : ℕ) (circ : Circuit) :
    Bool × Circuit :=
  let freed := matchesMachine machineNum machineCtr circ
  (allSlots.any freed,
    { circ with
      paddingMachine := fun i => if freed i then none else circ.paddingMachine i
      paddingInfo := fun i => if freed i then none else circ.paddingInfo i })

/-! ### The client -/

/-- What the client is doing, the innermost call first. -/
inductive Frame
  | sending (cell : Negotiate)
  | shutdownOldMachines (slots : List Slot)
  | enterAddMatchingMachines
  | addMatchingMachines (slots : List Slot)
  deriving DecidableEq

structure Client where
  circ : Circuit
  paddingNegotiationFailed : Bool
  /-- `circpad_circuit_supports_padding` of the hop -/
  supportsPadding : Bool
  started : ℕ
  stack : List Frame

/-- The conditions of the machines, as the circuit is. -/
structure Conditions where
  apply : MachineSpec → Bool
  keep : MachineSpec → Bool

/-- The client begins to send the cell, or `-1`. -/
def negotiatePadding (command : Command) (tag : Tag) (client : Client) : Option Client :=
  if client.supportsPadding then
    some { client with stack := .sending ⟨command, tag⟩ :: client.stack }
  else none

/-- The machine is freed and a STOP sent; its definition stays for the answer. The result of
the sending is not looked at. -/
def stopMachine (i : Slot) (machine : MachineSpec) (info : MachineRuntime) (client : Client) :
    Client :=
  let client := { client with circ := machineinfoFreeIdx i client.circ }
  (negotiatePadding .stop ⟨machine.machineNum, info.machineCtr, info.serial⟩ client).getD client

/-- A machine that waits for an answer is replaced. -/
def startMachine (i : Slot) (machine : MachineSpec) (client : Client) : Client :=
  { client with
    circ := setupMachineOnCirc client.started machine (clearMachine i client.circ)
    started := client.started + 1 }

/-- The loop of `circpad_add_matching_machines` for one slot. -/
def tryMachines (conditions : Conditions) (i : Slot) : List MachineSpec → Client → Client
  | [], client => client
  | machine :: machines, client =>
    if machine.machineIndex = i && conditions.apply machine then
      let client' := startMachine i machine client
      let tag := ⟨machine.machineNum, client'.circ.paddingMachineCtr, client.started⟩
      match negotiatePadding .start tag client' with
      | some client => client
      | none =>
        tryMachines conditions i machines
          { client' with
            circ := clearMachine i (machineinfoFreeIdx i client'.circ)
            paddingNegotiationFailed := true }
    else tryMachines conditions i machines client

/-- Padding events can come in: nothing is being done, or a cell is being sent. -/
def Client.mayReact (client : Client) : Bool :=
  match client.stack with
  | [] => true
  | .sending _ :: _ => true
  | _ => false

section Machines
variable (originMachines relayMachines : List MachineSpec)

/-- The innermost call goes on; the cell is one that is queued now. -/
def clientProceed (conditions : Conditions) (client : Client) :
    Option (Client × Option Negotiate) :=
  match client.stack with
  | [] => none
  | .sending cell :: stack => some ({ client with stack := stack }, some cell)
  | .shutdownOldMachines [] :: stack => some ({ client with stack := stack }, none)
  | .shutdownOldMachines (i :: slots) :: stack =>
    let client := { client with stack := .shutdownOldMachines slots :: stack }
    match client.circ.paddingInfo i, client.circ.paddingMachine i with
    | none, _ => some (client, none)
    | some _, none => none
    | some info, some machine =>
      if conditions.apply machine || conditions.keep machine then some (client, none)
      else some (stopMachine i machine info client, none)
  | .enterAddMatchingMachines :: stack =>
    if client.paddingNegotiationFailed then some ({ client with stack := stack }, none)
    else some ({ client with stack := .addMatchingMachines allSlots :: stack }, none)
  | .addMatchingMachines [] :: stack => some ({ client with stack := stack }, none)
  | .addMatchingMachines (i :: slots) :: stack =>
    let client := { client with stack := .addMatchingMachines slots :: stack }
    if (client.circ.paddingInfo i).isSome then some (client, none)
    else some (tryMachines conditions i originMachines.reverse client, none)

/-- A machine makes a transition to the end state. -/
def clientMachineEnds (i : Slot) (client : Client) : Option Client :=
  match client.circ.paddingInfo i, client.circ.paddingMachine i with
  | some info, some machine =>
    if machine.shouldNegotiateEnd then some (stopMachine i machine info client) else some client
  | _, _ => none

/-- With no definition in any slot the cell is not from an expected hop. -/
def handlePaddingNegotiated (cell : Negotiated) (client : Client) : Client :=
  if allSlots.all fun i => (client.circ.paddingMachine i).isNone then client
  else
    let (found, circ) :=
      freeCircMachineinfosWithMachineNum cell.tag.machineType cell.tag.machineCtr client.circ
    match cell.command, cell.ok with
    | .stop, _ => { client with circ := circ }
    | .start, false =>
      { client with
        circ := circ
        paddingNegotiationFailed := client.paddingNegotiationFailed || found }
    | .start, true => client

/-! ### The relay -/

structure Relay where
  circ : Circuit
  /-- The cells that are being sent, the innermost first. -/
  sending : List Negotiated

def relayMachine (machineNum : ℕ) : Option MachineSpec :=
  relayMachines.find? fun machine => machine.machineNum = machineNum

def handlePaddingNegotiate (cell : Negotiate) (relay : Relay) : Relay :=
  match cell.command with
  | .stop =>
    let (found, circ) :=
      freeCircMachineinfosWithMachineNum cell.tag.machineType cell.tag.machineCtr relay.circ
    if found then ⟨circ, ⟨.stop, true, cell.tag⟩ :: relay.sending⟩ else { relay with circ := circ }
  | .start =>
    match relayMachine relayMachines cell.tag.machineType with
    | some machine =>
      ⟨setupMachineOnCirc cell.tag.serial machine relay.circ,
        ⟨.start, true, cell.tag⟩ :: relay.sending⟩
    | none => { relay with sending := ⟨.start, false, cell.tag⟩ :: relay.sending }

def relayMachineEnds (i : Slot) (relay : Relay) : Option Relay :=
  match relay.circ.paddingInfo i, relay.circ.paddingMachine i with
  | some info, some machine =>
    if machine.shouldNegotiateEnd then
      some ⟨clearMachine i (machineinfoFreeIdx i relay.circ),
        ⟨.stop, true, ⟨machine.machineNum, info.machineCtr, info.serial⟩⟩ :: relay.sending⟩
    else some relay
  | _, _ => none

/-! ### Runs -/

/-- The two queues have the oldest cell first. -/
structure System where
  client : Client
  relay : Relay
  forward : List Negotiate
  backward : List Negotiated

def System.init (supportsPadding : Bool) : System :=
  ⟨⟨.new, false, supportsPadding, 0, []⟩, ⟨.new, []⟩, [], []⟩

inductive Event
  /-- An event of the circuit that old machines are shut down and new ones added for. -/
  | conditionsChanged
  | addedHop
  | nodelistChanged (supportsPadding : Bool)
  | machineEnds (i : Slot)
  | proceed (conditions : Conditions)
  | receive
  | relayMachineEnds (i : Slot)
  | relayProceed
  | relayReceive

def step (s : System) : Event → Option System
  | .conditionsChanged =>
    if s.client.mayReact then
      let stack := .shutdownOldMachines allSlots :: .enterAddMatchingMachines :: s.client.stack
      some { s with client := { s.client with stack := stack } }
    else none
  | .addedHop =>
    if s.client.stack = [] then
      some { s with client := { s.client with stack := [.enterAddMatchingMachines] } }
    else none
  | .nodelistChanged supportsPadding =>
    if s.client.stack = [] then
      some { s with client := { s.client with supportsPadding := supportsPadding } }
    else none
  | .machineEnds i =>
    if s.client.mayReact then
      (clientMachineEnds i s.client).map fun client => { s with client := client }
    else none
  | .proceed conditions =>
    (clientProceed originMachines conditions s.client).map fun (client, cell) =>
      { s with client := client, forward := s.forward ++ cell.toList }
  | .receive =>
    match s.client.stack, s.backward with
    | [], cell :: backward =>
      some { s with client := handlePaddingNegotiated cell s.client, backward := backward }
    | _, _ => none
  | .relayMachineEnds i =>
    (relayMachineEnds i s.relay).map fun relay => { s with relay := relay }
  | .relayProceed =>
    match s.relay.sending with
    | [] => none
    | cell :: sending =>
      some { s with relay := { s.relay with sending := sending }, backward := s.backward ++ [cell] }
  | .relayReceive =>
    match s.relay.sending, s.forward with
    | [], cell :: forward =>
      some { s with relay := handlePaddingNegotiate relayMachines cell s.relay, forward := forward }
    | _, _ => none

end Machines

/-! What holds between the two parties of a negotiation, and the conditions of a step. -/

/-! ### What is under way -/

def Frame.cell? : Frame → Option Negotiate
  | .sending cell => some cell
  | _ => none

/-- The cells that are being sent, the innermost first, which is queued first. -/
def Client.sending (client : Client) : List Negotiate := client.stack.filterMap Frame.cell?

/-- The client's cells in the order in which the relay will have them. -/
def System.outgoing (s : System) : List Negotiate := s.forward ++ s.client.sending

def System.answers (s : System) : List Negotiated := s.relay.sending ++ s.backward

def Circuit.tagAt (circ : Circuit) (i : Slot) : Option Tag :=
  match circ.paddingMachine i, circ.paddingInfo i with
  | some machine, some info => some ⟨machine.machineNum, info.machineCtr, info.serial⟩
  | _, _ => none

/-- The machines that are active or that a cell is about. -/
def System.tags (s : System) : List Tag :=
  s.outgoing.map Negotiate.tag ++ s.answers.map Negotiated.tag ++
    allSlots.filterMap s.client.circ.tagAt ++ allSlots.filterMap s.relay.circ.tagAt

section Invariant
variable (originMachines relayMachines : List MachineSpec)

/-- The slot of a machine at the relay. -/
def slotOf (machineNum : ℕ) : Option Slot :=
  (relayMachine relayMachines machineNum).map MachineSpec.machineIndex

/-- The two parties have the machines that they both know in the same slots. -/
def SameSlots : Prop :=
  ∀ machine ∈ originMachines, ∀ i ∈ slotOf relayMachines machine.machineNum,
    machine.machineIndex = i

/-! ### One slot -/

def openMessage (i : Slot) (cell : Negotiate) : Option (Message ℕ) :=
  if slotOf relayMachines cell.tag.machineType = some i then
    match cell.command with
    | .start => some (.opened cell.tag.serial)
    | .stop => some (.closed cell.tag.serial)
  else none

def stopNotice (i : Slot) (cell : Negotiated) : Option ℕ :=
  if slotOf relayMachines cell.tag.machineType = some i ∧ cell.command = .stop then
    some cell.tag.serial
  else none

/-- The machine in a slot of the client, if the relay knows it. -/
def heldHere (i : Slot) (client : Client) : Option ℕ :=
  (client.circ.tagAt i).bind fun tag =>
    if slotOf relayMachines tag.machineType = some i then some tag.serial else none

def slotLease (i : Slot) (s : System) : Lease ℕ where
  here := heldHere relayMachines i s.client
  there := (s.relay.circ.tagAt i).map Tag.serial
  queue := s.outgoing.filterMap (openMessage relayMachines i)
  notices := s.answers.filterMap (stopNotice relayMachines i)

/-! ### The counters -/

def isStart (cell : Negotiate) : Bool := cell.command = .start

def isRefusal (cell : Negotiated) : Bool := cell.command = .start && !cell.ok

def System.starts (s : System) : List Tag := (s.outgoing.filter isStart).map Negotiate.tag

/-- From the counter of the relay the starts count on to that of the client, if there is one
to count to. Only the last start is of a machine that the relay does not know. -/
def Counts (final : Option ℕ) : ℕ → List Tag → Prop
  | ctr, [] => ∀ c ∈ final, ctr = c
  | ctr, tag :: tags => tag.machineCtr = nextMachineCtr ctr ∧
      ((slotOf relayMachines tag.machineType).isSome = true ∨ tags = []) ∧
      Counts final tag.machineCtr tags

/-- The client's counter, while no machine has been refused. -/
def System.finalCtr (s : System) : Option ℕ :=
  if s.client.paddingNegotiationFailed || s.answers.any isRefusal then none
  else some s.client.circ.paddingMachineCtr

/-! ### The invariant -/

/-- A counter or a serial number tells which machine is meant. -/
structure Labels (tags : List Tag) (started : ℕ) : Prop where
  same_ctr : ∀ t ∈ tags, ∀ t' ∈ tags, t.machineCtr = t'.machineCtr → t = t'
  same_serial : ∀ t ∈ tags, ∀ t' ∈ tags, t.serial = t'.serial → t = t'
  nonzero : ∀ t ∈ tags, t.machineCtr ≠ 0
  serial_lt : ∀ t ∈ tags, t.serial < started

/-- A machine that the relay does not know has been asked for. -/
def Refused (s : System) (t : Tag) : Prop :=
  (∃ cell ∈ s.outgoing, isStart cell = true ∧ cell.tag = t) ∨
    ∃ cell ∈ s.answers, isRefusal cell = true ∧ cell.tag = t

structure Inv (s : System) : Prop where
  lease : ∀ i, Coherent (slotLease relayMachines i s)
  labels : Labels s.tags s.client.started
  client_machine : ∀ i info, s.client.circ.paddingInfo i = some info →
    ∃ machine ∈ originMachines, s.client.circ.paddingMachine i = some machine ∧
      machine.machineIndex = i
  relay_info : ∀ i, s.relay.circ.paddingInfo i = none ↔ s.relay.circ.paddingMachine i = none
  relay_machine : ∀ i machine, s.relay.circ.paddingMachine i = some machine →
    slotOf relayMachines machine.machineNum = some i
  counts : Counts relayMachines s.finalCtr s.relay.circ.paddingMachineCtr s.starts
  answered : ∀ cell ∈ s.answers,
    isRefusal cell = true ↔ slotOf relayMachines cell.tag.machineType = none
  unknown : ∀ i t, s.client.circ.tagAt i = some t → slotOf relayMachines t.machineType = none →
    Refused s t
  waiting : ∀ t, slotOf relayMachines t.machineType = none → Refused s t →
    s.client.paddingNegotiationFailed = true ∨
      ∃ i, matchesMachine t.machineType t.machineCtr s.client.circ i = true
  adding : ∀ slots, .addMatchingMachines slots ∈ s.client.stack →
    s.client.paddingNegotiationFailed = true → s.client.supportsPadding = false

/-! ### The conditions of a step -/

/-- No cell for the machine's slot at the relay is being sent. -/
def SlotQuiet (client : Client) (machine : MachineSpec) : Prop :=
  ∀ i ∈ slotOf relayMachines machine.machineNum, ∀ cell ∈ client.sending,
    slotOf relayMachines cell.tag.machineType ≠ some i

structure StartOk (s : System) (machine : MachineSpec) : Prop where
  no_start : ∀ cell ∈ s.client.sending, isStart cell = false
  quiet : SlotQuiet relayMachines s.client machine
  known : ∀ cell ∈ s.outgoing, isStart cell = true →
    (slotOf relayMachines cell.tag.machineType).isSome = true
  accepted : ∀ cell ∈ s.answers, isRefusal cell = false
  counter : ∀ t ∈ s.tags, t.machineCtr ≠ nextMachineCtr s.client.circ.paddingMachineCtr

structure StopOk (s : System) (machine : MachineSpec) : Prop where
  supported : (slotOf relayMachines machine.machineNum).isSome = true →
    s.client.supportsPadding = true
  quiet : SlotQuiet relayMachines s.client machine

/-- The machine that is started next. -/
def machineToStart (conditions : Conditions) (client : Client) : Option MachineSpec :=
  match client.stack with
  | .addMatchingMachines (i :: _) :: _ =>
    if (client.circ.paddingInfo i).isSome || !client.supportsPadding then none
    else originMachines.reverse.find? fun machine =>
      machine.machineIndex = i && conditions.apply machine
  | _ => none

/-- The machine that is shut down next. -/
def machineToStop (conditions : Conditions) (client : Client) : Option MachineSpec :=
  match client.stack with
  | .shutdownOldMachines (i :: _) :: _ =>
    if (client.circ.paddingInfo i).isSome then
      (client.circ.paddingMachine i).filter fun machine =>
        !(conditions.apply machine || conditions.keep machine)
    else none
  | _ => none

def StepOk (s : System) : Event → Prop
  | .proceed conditions =>
    (∀ machine ∈ machineToStart originMachines conditions s.client,
      StartOk relayMachines s machine) ∧
    ∀ machine ∈ machineToStop conditions s.client, StopOk relayMachines s machine
  | .machineEnds i =>
    ∀ machine ∈ s.client.circ.paddingMachine i, machine.shouldNegotiateEnd = true →
      StopOk relayMachines s machine
  | _ => True

instance decidableSlotQuiet (client : Client) (machine : MachineSpec) :
    Decidable (SlotQuiet relayMachines client machine) :=
  inferInstanceAs (Decidable (∀ i ∈ slotOf relayMachines machine.machineNum,
    ∀ cell ∈ client.sending, slotOf relayMachines cell.tag.machineType ≠ some i))

instance decidableStartOk (s : System) (machine : MachineSpec) :
    Decidable (StartOk relayMachines s machine) :=
  decidable_of_iff ((∀ cell ∈ s.client.sending, isStart cell = false) ∧
      SlotQuiet relayMachines s.client machine ∧
      (∀ cell ∈ s.outgoing, isStart cell = true →
        (slotOf relayMachines cell.tag.machineType).isSome = true) ∧
      (∀ cell ∈ s.answers, isRefusal cell = false) ∧
      ∀ t ∈ s.tags, t.machineCtr ≠ nextMachineCtr s.client.circ.paddingMachineCtr)
    ⟨fun h => ⟨h.1, h.2.1, h.2.2.1, h.2.2.2.1, h.2.2.2.2⟩,
      fun h => ⟨h.no_start, h.quiet, h.known, h.accepted, h.counter⟩⟩

instance decidableStopOk (s : System) (machine : MachineSpec) :
    Decidable (StopOk relayMachines s machine) :=
  decidable_of_iff (((slotOf relayMachines machine.machineNum).isSome = true →
      s.client.supportsPadding = true) ∧ SlotQuiet relayMachines s.client machine)
    ⟨fun h => ⟨h.1, h.2⟩, fun h => ⟨h.supported, h.quiet⟩⟩

instance decidableStepOk (s : System) : ∀ e, Decidable (StepOk originMachines relayMachines s e)
  | .proceed conditions => inferInstanceAs (Decidable
      ((∀ machine ∈ machineToStart originMachines conditions s.client,
        StartOk relayMachines s machine) ∧
      ∀ machine ∈ machineToStop conditions s.client, StopOk relayMachines s machine))
  | .machineEnds i => inferInstanceAs (Decidable
      (∀ machine ∈ s.client.circ.paddingMachine i, machine.shouldNegotiateEnd = true →
        StopOk relayMachines s machine))
  | .conditionsChanged => .isTrue trivial
  | .addedHop => .isTrue trivial
  | .nodelistChanged _ => .isTrue trivial
  | .receive => .isTrue trivial
  | .relayMachineEnds _ => .isTrue trivial
  | .relayProceed => .isTrue trivial
  | .relayReceive => .isTrue trivial

end Invariant

/-! ### Tags -/

section Tags
variable {circ : Circuit} {i j : Slot} {t t' : Tag} {tags tags' : List Tag} {started started' : ℕ}
  {s : System}

theorem Labels.subset (h : Labels tags started) (hsub : ∀ t ∈ tags', t ∈ tags)
    (hle : started ≤ started') : Labels tags' started' where
  same_ctr t ht t' ht' := h.same_ctr t (hsub t ht) t' (hsub t' ht')
  same_serial t ht t' ht' := h.same_serial t (hsub t ht) t' (hsub t' ht')
  nonzero t ht := h.nonzero t (hsub t ht)
  serial_lt t ht := Nat.lt_of_lt_of_le (h.serial_lt t (hsub t ht)) hle

/-- A new machine has a counter that is not in use. -/
theorem Labels.insert (h : Labels tags started) (hctr : ∀ t' ∈ tags, t'.machineCtr ≠ t.machineCtr)
    (hserial : t.serial = started) (hzero : t.machineCtr ≠ 0) :
    Labels (t :: tags) (started + 1) := by
  have hnew : ∀ t' ∈ tags, t'.serial ≠ t.serial := by
    intro t' ht'
    rw [hserial]
    exact Nat.ne_of_lt (h.serial_lt t' ht')
  constructor
  · rintro a ha b hb heq
    rcases List.mem_cons.mp ha with rfl | ha' <;> rcases List.mem_cons.mp hb with rfl | hb'
    · rfl
    · exact absurd heq.symm (hctr b hb')
    · exact absurd heq (hctr a ha')
    · exact h.same_ctr a ha' b hb' heq
  · rintro a ha b hb heq
    rcases List.mem_cons.mp ha with rfl | ha' <;> rcases List.mem_cons.mp hb with rfl | hb'
    · rfl
    · exact absurd heq.symm (hnew b hb')
    · exact absurd heq (hnew a ha')
    · exact h.same_serial a ha' b hb' heq
  · exact List.forall_mem_cons.mpr ⟨hzero, h.nonzero⟩
  · refine List.forall_mem_cons.mpr ⟨by omega, fun a ha => ?_⟩
    exact Nat.lt_succ_of_lt (h.serial_lt a ha)

theorem nextMachineCtr_ne_zero (ctr : ℕ) : nextMachineCtr ctr ≠ 0 := by
  simp only [nextMachineCtr]
  split
  · simp
  · assumption

theorem mem_allSlots (i : Slot) : i ∈ allSlots := by
  revert i
  decide

theorem mem_tags : t ∈ s.tags ↔ (∃ cell ∈ s.outgoing, cell.tag = t) ∨
    (∃ cell ∈ s.answers, cell.tag = t) ∨ (∃ i, s.client.circ.tagAt i = some t) ∨
      ∃ i, s.relay.circ.tagAt i = some t := by
  simp [System.tags, mem_allSlots, or_assoc]

theorem tagAt_eq_some : circ.tagAt i = some t ↔ ∃ machine info,
    circ.paddingMachine i = some machine ∧ circ.paddingInfo i = some info ∧
      t = ⟨machine.machineNum, info.machineCtr, info.serial⟩ := by
  cases hm : circ.paddingMachine i <;> cases hinfo : circ.paddingInfo i <;>
    simp [Circuit.tagAt, hm, hinfo, eq_comm]

theorem tagAt_eq_none (h : circ.paddingInfo i = none) : circ.tagAt i = none := by
  cases hm : circ.paddingMachine i <;> simp [Circuit.tagAt, hm, h]

theorem tagAt_machineinfoFreeIdx :
    (machineinfoFreeIdx i circ).tagAt = Function.update circ.tagAt i none := by
  funext j
  by_cases hj : j = i
  · subst hj
    rw [Function.update_self]
    exact tagAt_eq_none (by simp [machineinfoFreeIdx])
  · simp [Circuit.tagAt, machineinfoFreeIdx, hj]

theorem tagAt_clearMachine : (clearMachine i circ).tagAt = Function.update circ.tagAt i none := by
  funext j
  by_cases hj : j = i
  · simp [Circuit.tagAt, clearMachine, hj]
  · simp [Circuit.tagAt, clearMachine, hj]

theorem setupMachineOnCirc_empty {machine : MachineSpec} (serial : ℕ)
    (hm : circ.paddingMachine machine.machineIndex = none)
    (hinfo : circ.paddingInfo machine.machineIndex = none) :
    setupMachineOnCirc serial machine circ =
      ⟨Function.update circ.paddingMachine machine.machineIndex (some machine),
        Function.update circ.paddingInfo machine.machineIndex
          (some ⟨nextMachineCtr circ.paddingMachineCtr, serial⟩),
        nextMachineCtr circ.paddingMachineCtr⟩ := by
  simp [setupMachineOnCirc, hm, hinfo]

theorem matchesMachine_of_tagAt (h : circ.tagAt i = some t) :
    matchesMachine t.machineType t.machineCtr circ i = true := by
  obtain ⟨machine, info, hm, hinfo, rfl⟩ := tagAt_eq_some.mp h
  simp [matchesMachine, hm, hinfo]

theorem tagAt_of_matchesMachine (hmatch : matchesMachine t.machineType t.machineCtr circ i = true)
    (hzero : t.machineCtr ≠ 0) (h : circ.tagAt i = some t') : t'.machineCtr = t.machineCtr := by
  obtain ⟨machine, info, hm, hinfo, rfl⟩ := tagAt_eq_some.mp h
  have hboth : machine.machineNum = t.machineType ∧ info.machineCtr = t.machineCtr := by
    simpa [matchesMachine, hm, hinfo, hzero] using hmatch
  exact hboth.2

theorem tagAt_free (hzero : t.machineCtr ≠ 0)
    (hsame : ∀ i t', circ.tagAt i = some t' → t'.machineCtr = t.machineCtr → t' = t) :
    (freeCircMachineinfosWithMachineNum t.machineType t.machineCtr circ).2.tagAt i =
      if circ.tagAt i = some t then none else circ.tagAt i := by
  by_cases hmatch : matchesMachine t.machineType t.machineCtr circ i = true
  · have hnone : (freeCircMachineinfosWithMachineNum t.machineType t.machineCtr circ).2.tagAt i =
        none := tagAt_eq_none (by simp [freeCircMachineinfosWithMachineNum, hmatch])
    rw [hnone]
    cases h : circ.tagAt i with
    | none => rfl
    | some t' => simp [hsame i t' h (tagAt_of_matchesMachine hmatch hzero h)]
  · have hne : circ.tagAt i ≠ some t := fun h => hmatch (matchesMachine_of_tagAt h)
    rw [if_neg hne]
    simp [Circuit.tagAt, freeCircMachineinfosWithMachineNum, hmatch]

end Tags

end TorDaemon.Padding

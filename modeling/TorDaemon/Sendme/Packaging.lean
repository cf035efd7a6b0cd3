import TorDaemon.FlowControl.Xoff
import TorDaemon.Relay.Codec
import TorDaemon.Sendme.Windows

/-! The DATA cells that a circuit packages from the buffers of its streams, and the random bytes in
them that make the SENDMEs for them unpredictable (`relay.c`). -/
namespace TorDaemon.Sendme.Packaging
open Library.NetworkOrder Relay

section Model

/-- Where the cells of a stream go to: a hop of a circuit at its origin, else the origin. -/
structure Layer where
  format : CellFormat
  sender : Sender

structure Circuit where
  haveSentSufficientlyRandomCell : Bool
  sendRandomnessAfterNCells : UInt16
  markedForClose : Bool

/-- A stream of a circuit; a message with stream id zero never makes one. -/
structure EdgeConnection where
  flow : FlowControl.EdgeConnection
  isOpen : Bool
  markedForClose : Bool
  onCircuit : Bool
  layer : ℕ
  streamId : UInt16
  streamId_ne : streamId ≠ 0
  packageWindow : ℤ
  inbuf : Bytes
  sendingOptimisticData : Option Bytes
  pendingOptimisticData : Option Bytes

/-- What `crypto_fast_rng_get_uint` gives for half an increment. -/
abbrev Draw := Fin (circwindowIncrement / 2)

def circuitResetSendmeRandomness (draw : Draw) (circ : Circuit) : Circuit :=
  { circ with
    haveSentSufficientlyRandomCell := false
    sendRandomnessAfterNCells := UInt16.ofNat (circwindowIncrement / 2 + draw) }

/-- A length, whether a new interval is begun with it, and the counter just before it is
decremented. -/
structure Package where
  length : ℕ
  reset : Bool
  counter : UInt16

def relayCellPaddingGap : ℕ := 4

/-- The end of `connection_edge_get_inbuf_bytes_to_package`, for a length that is not zero. -/
def package (draw : Draw) (targetLengthWithRandom length : ℕ) (circ : Circuit) :
    Circuit × Package :=
  let circ :=
    if length ≤ targetLengthWithRandom then { circ with haveSentSufficientlyRandomCell := true }
    else circ
  let reset := decide (circ.sendRandomnessAfterNCells = 0)
  let circ := if reset then circuitResetSendmeRandomness draw circ else circ
  ({ circ with sendRandomnessAfterNCells := circ.sendRandomnessAfterNCells - 1 },
    ⟨length, reset, circ.sendRandomnessAfterNCells⟩)

/-- `connection_edge_get_inbuf_bytes_to_package`; `none` is zero. -/
def getInbufBytesToPackage (draw : Draw) (nAvailable : ℕ) (packagePartial : Bool)
    (format : CellFormat) (circ : Circuit) : Option (Circuit × Package) :=
  if nAvailable = 0 then none
  else
    let forceRandomBytes :=
      circ.sendRandomnessAfterNCells = 0 ∧ circ.haveSentSufficientlyRandomCell = false
    let full := maxPayloadSize format Command.data
    let targetLengthWithRandom := full - relayCellPaddingGap - 16
    let targetLength := if forceRandomBytes then targetLengthWithRandom else full
    if targetLength ≤ nAvailable then some (package draw targetLengthWithRandom targetLength circ)
    else if packagePartial then some (package draw targetLengthWithRandom nAvailable circ)
    else none

/-- What `circuit_package_relay_cell` does with a cell. -/
inductive Outcome
  | queued
  | dropped
  | failed

/-- What a turn of the loop depends on: the number drawn for a new interval, the padding, the tag
of the cell, and what becomes of it. -/
structure Turn where
  draw : Draw
  rng : ℕ → UInt8
  tag : Bytes
  outcome : Outcome

def dataMsg (streamId : UInt16) (payload : Bytes) : Msg where
  command := Command.data
  length := UInt16.ofNat payload.length
  streamId := streamId
  isRelayEarly := false
  body := payload
  length_le := Nat.mod_le _ _

/-- A DATA message on its way to a cell, as it is handed to `connection_edge_send_command`. -/
structure Packaged where
  format : CellFormat
  msg : Msg
  reset : Bool
  counter : UInt16

structure PackageState where
  circ : Circuit
  layers : ℕ → Layer
  conn : EdgeConnection
  log : List Packaged
  maxCells : Option ℤ

/-- `relay_send_command_from_edge` for a DATA message, and whether it returns zero. -/
def relaySendCommandFromEdge (turn : Turn) (msg : Msg) (st : PackageState) : PackageState × Bool :=
  let closed := { st with circ := { st.circ with markedForClose := true } }
  let layer := st.layers st.conn.layer
  if st.circ.markedForClose then (st, false)
  else if maxPayloadSize layer.format msg.command < msg.body.length then (closed, false)
  else
    match encodeCell turn.rng layer.format msg, turn.outcome with
    | none, _ => (closed, false)
    | some _, .failed => (closed, false)
    | some _, .dropped => (st, true)
    | some _, .queued =>
      let sender := noteDataPackaged (recordCellDigest layer.sender turn.tag)
      let layers := Function.update st.layers st.conn.layer { layer with sender := sender }
      if getPackageWindow sender < 0 then ({ closed with layers := layers }, false)
      else ({ st with layers := layers }, true)

def connectionEdgeSendCommand (turn : Turn) (msg : Msg) (st : PackageState) : PackageState × Bool :=
  if st.conn.markedForClose then (st, true)
  else if !st.conn.onCircuit then (st, false)
  else relaySendCommandFromEdge turn msg st

section
variable (conn : EdgeConnection)

def sendmeNoteStreamDataPackaged (len : ℕ) : EdgeConnection × ℤ :=
  if conn.flow.usesFlowControl then
    let flow := FlowControl.noteSentData conn.flow (UInt64.ofNat len)
    ({ conn with flow := flow }, if flow.xoffReceived then -1 else 1)
  else ({ conn with packageWindow := conn.packageWindow - 1 }, conn.packageWindow - 1)

/-- Data that was sent before is sent again first. -/
def EdgeConnection.sendingFromOptimistic : Bool :=
  conn.flow.isAp && decide (conn.sendingOptimisticData.getD [] ≠ [])

def EdgeConnection.available : Bytes :=
  if conn.sendingFromOptimistic then conn.sendingOptimisticData.getD [] else conn.inbuf

/-- The connection without the first bytes; new optimistic data is kept for a retry. -/
def EdgeConnection.getBytes (length : ℕ) : EdgeConnection :=
  if conn.sendingFromOptimistic then
    let rest := (conn.sendingOptimisticData.getD []).drop length
    { conn with sendingOptimisticData := if rest = [] then none else some rest }
  else if conn.flow.isAp ∧ conn.isOpen = false then
    { conn with
      inbuf := conn.inbuf.drop length
      pendingOptimisticData :=
        some (conn.pendingOptimisticData.getD [] ++ conn.inbuf.take length) }
  else { conn with inbuf := conn.inbuf.drop length }

end

/-- A turn of the loop, and what is returned when it ends the loop. -/
def packageTurn (turn : Turn) (packagePartial : Bool) (st : PackageState) :
    PackageState × Option ℤ :=
  let layer := st.layers st.conn.layer
  if !st.conn.onCircuit then (st, some (-1))
  -- `circuit_consider_stop_edge_reading`
  else if getPackageWindow layer.sender ≤ 0 then (st, some 0)
  else if st.conn.packageWindow ≤ 0 then (st, some 0)
  else
    match getInbufBytesToPackage turn.draw st.conn.available.length packagePartial layer.format
        st.circ with
    | none => (st, some 0)
    | some (circ, p) =>
      let msg := dataMsg st.conn.streamId (st.conn.available.take p.length)
      let packaged := { st with
        circ := circ
        conn := st.conn.getBytes p.length
        log := st.log ++ [⟨layer.format, msg, p.reset, p.counter⟩] }
      let (st, sent) := connectionEdgeSendCommand turn msg packaged
      if !sent then (st, some 0)
      else
        let (conn, window) := sendmeNoteStreamDataPackaged st.conn p.length
        if window < 0 then ({ st with conn := conn }, some 0)
        else
          let maxCells := st.maxCells.map (· - 1)
          ({ st with conn := conn, maxCells := maxCells },
            if maxCells.any (· ≤ 0) then some 0 else none)

/-- The loop with room for so many turns, after `k` turns; `none` is that there is too little. -/
def packageLoop (turns : ℕ → Turn) (packagePartial : Bool) :
    ℕ → ℕ → PackageState → Option (PackageState × ℤ)
  | 0, _, _ => none
  | room + 1, k, st =>
    match packageTurn (turns k) packagePartial st with
    | (st, some ret) => some (st, ret)
    | (st, none) => packageLoop turns packagePartial room (k + 1) st

def EdgeConnection.buffered (conn : EdgeConnection) : ℕ :=
  conn.inbuf.length + (conn.sendingOptimisticData.getD []).length

def connectionEdgePackageRawInbuf (turns : ℕ → Turn) (packagePartial : Bool) (st : PackageState) :
    Option (PackageState × ℤ) :=
  if st.conn.markedForClose then some (st, 0)
  else if st.maxCells.any (· ≤ 0) then some (st, 0)
  else packageLoop turns packagePartial (st.conn.buffered + 1) 0 st

/-- A call for a stream, with the buffers and the windows that there are by then. -/
structure Call where
  conn : EdgeConnection
  layers : ℕ → Layer
  packagePartial : Bool
  maxCells : Option ℤ
  turns : ℕ → Turn

def Circuit.apply (circ : Circuit) (call : Call) : Option (Circuit × List Packaged) :=
  (connectionEdgePackageRawInbuf call.turns call.packagePartial
    ⟨circ, call.layers, call.conn, [], call.maxCells⟩).map fun r => (r.1.circ, r.1.log)

/-- The calls one after the other, with all that they package. -/
def Circuit.run (circ : Circuit) : List Call → Option (Circuit × List Packaged)
  | [] => some (circ, [])
  | call :: calls => do
    let (circ, log) ← circ.apply call
    let (circ, log') ← circ.run calls
    some (circ, log ++ log')

/-- The part of `init_circuit_base`. -/
def initCircuitBase (draw : Draw) : Circuit := circuitResetSendmeRandomness draw ⟨false, 0, false⟩

end Model

section Statement

/-- In every cell that the message is encoded to, the last 16 bytes are from the generator. -/
def Packaged.RandomlyPadded (p : Packaged) : Prop :=
  ∀ rng : ℕ → UInt8, ∃ cell, encodeCell rng p.format p.msg = some cell ∧
    ∀ i (hi : i < cellPayloadSize), cellPayloadSize - 16 ≤ i → cell.payload[i] = rng i

/-- The cells at the end of the log since the last reset, or since the circuit was made. -/
def SinceReset (log cells : List Packaged) : Prop :=
  ∃ before, log = before ++ cells ∧ (∀ p ∈ cells, p.reset = false) ∧
    ∀ p ∈ before.getLast?, p.reset = true

/-- The cells between two resets. The last of them makes the second reset. -/
def Stretch (log cells : List Packaged) : Prop :=
  ∃ earlier body last later, log = earlier ++ last :: later ∧ SinceReset earlier body ∧
    last.reset = true ∧ cells = body ++ [last]

structure Unpredictable (increment : ℕ) (log : List Packaged) : Prop where
  noUnderflow : ∀ p ∈ log, p.counter ≠ 0
  stretch : ∀ cells, Stretch log cells →
    cells.length ≤ increment ∧ ∃ p ∈ cells, p.RandomlyPadded

end Statement

/-! Each stretch of DATA cells between two resets has a cell with random bytes. -/

section Padding
variable {rng : ℕ → UInt8} {format : CellFormat} {msg : Msg} {cell : Cell}

/-- A message that leaves twenty bytes free is padded with sixteen random ones. -/
theorem encodeCell_padding (hcommand : msg.command = Command.data)
    (hlen : msg.length.toNat + 20 ≤ maxPayloadSize format Command.data)
    (hencode : encodeCell rng format msg = some cell) {i : ℕ} (hi : i < cellPayloadSize)
    (hlast : cellPayloadSize - 16 ≤ i) : cell.payload[i] = rng i := by
  have hexpects : expectsStreamidInV1 msg.command = true := by rw [hcommand]; decide
  cases format with
  | v0 =>
    simp only [encodeCell, Option.map_eq_some_iff] at hencode
    obtain ⟨payload, hpayload, rfl⟩ := hencode
    simp only [encodeV0Cell, Option.dite_none_left_eq_some, Option.some.injEq] at hpayload
    obtain ⟨-, rfl⟩ := hpayload
    apply relayCellPad_after hi
    simp only [maxPayloadSize, cellPayloadSize, relayHeaderSizeV0] at hlen hlast ⊢
    omega
  | v1 =>
    simp only [encodeCell, Option.map_eq_some_iff] at hencode
    obtain ⟨payload, hpayload, rfl⟩ := hencode
    simp only [encodeV1Cell, hexpects, Option.dite_none_left_eq_some, dif_pos,
      Option.ite_none_left_eq_some, Option.some.injEq] at hpayload
    obtain ⟨-, -, rfl⟩ := hpayload
    apply relayCellPad_after hi
    have hfull : maxPayloadSize .v1 Command.data = 488 := by decide
    simp only [cellPayloadSize] at hlast ⊢
    omega

theorem dataMsg_randomlyPadded {streamId : UInt16} {payload : Bytes} {reset : Bool}
    {counter : UInt16} (hstream : streamId ≠ 0)
    (hlen : payload.length + 20 ≤ maxPayloadSize format Command.data) :
    (Packaged.mk format (dataMsg streamId payload) reset counter).RandomlyPadded := by
  intro rng
  have hmod : (dataMsg streamId payload).length.toNat ≤ payload.length := Nat.mod_le _ _
  have hsome : (encodeCell rng format (dataMsg streamId payload)).isSome := by
    apply encodeCell_isSome.mpr
    refine ⟨?_, fun _ => ⟨fun _ => hstream, fun _ => rfl⟩⟩
    change _ ≤ maxPayloadSize format Command.data
    omega
  obtain ⟨cell, hcell⟩ := Option.isSome_iff_exists.mp hsome
  refine ⟨cell, hcell, fun i hi hlast => ?_⟩
  exact encodeCell_padding rfl (by omega) hcell hi hlast

end Padding

section Intervals
variable {log cells : List Packaged} {p : Packaged}

theorem sinceReset_append (hreset : p.reset = false) (h : SinceReset (log ++ [p]) cells) :
    ∃ body, cells = body ++ [p] ∧ SinceReset log body := by
  obtain ⟨before, hlog, hcells, hbefore⟩ := h
  rcases List.eq_nil_or_concat cells with rfl | ⟨body, last, rfl⟩
  · rw [List.append_nil] at hlog
    have hlast := hbefore p (by simp [← hlog])
    rw [hreset] at hlast
    exact absurd hlast Bool.false_ne_true
  · rw [List.concat_eq_append, ← List.append_assoc] at hlog
    obtain ⟨rfl, hp⟩ := List.append_inj' hlog rfl
    obtain rfl := List.singleton_inj.mp hp
    refine ⟨body, List.concat_eq_append, before, rfl, fun q hq => hcells q ?_, hbefore⟩
    simp [hq]

/-- A cell that makes a reset leaves an empty interval behind. -/
theorem sinceReset_reset (hreset : p.reset = true) (h : SinceReset (log ++ [p]) cells) :
    cells = [] := by
  obtain ⟨before, hlog, hcells, -⟩ := h
  rcases List.eq_nil_or_concat cells with rfl | ⟨body, last, rfl⟩
  · rfl
  · rw [List.concat_eq_append, ← List.append_assoc] at hlog
    obtain ⟨-, hp⟩ := List.append_inj' hlog rfl
    obtain rfl := List.singleton_inj.mp hp
    have hlast := hcells p (by simp)
    rw [hreset] at hlast
    exact absurd hlast.symm Bool.false_ne_true

theorem stretch_append (h : Stretch (log ++ [p]) cells) :
    Stretch log cells ∨ p.reset = true ∧ ∃ body, SinceReset log body ∧ cells = body ++ [p] := by
  obtain ⟨earlier, body, last, later, hlog, hsince, hreset, hcells⟩ := h
  rcases List.eq_nil_or_concat later with rfl | ⟨later, q, rfl⟩
  · obtain ⟨rfl, hp⟩ := List.append_inj' hlog rfl
    obtain rfl := List.singleton_inj.mp hp
    exact Or.inr ⟨hreset, body, hsince, hcells⟩
  · rw [List.concat_eq_append, ← List.cons_append, ← List.append_assoc] at hlog
    obtain ⟨rfl, -⟩ := List.append_inj' hlog rfl
    exact Or.inl ⟨earlier, body, last, later, rfl, hsince, hreset, hcells⟩

end Intervals

section Packages
variable {circ circ' : Circuit} {log : List Packaged} {p : Packaged} {pkg : Package}
  {draw : Draw} {n : ℕ} {packagePartial : Bool} {format : CellFormat}

/-- The counter is at least half an increment when it is decremented after a reset. -/
theorem drawn_toNat (draw : Draw) :
    (UInt16.ofNat (circwindowIncrement / 2 + draw)).toNat = 50 + draw := by
  have hdraw := draw.isLt
  simp only [circwindowIncrement] at hdraw
  simp only [circwindowIncrement, UInt16.toNat_ofNat']
  omega

theorem sub_one_toNat {counter : UInt16} (h : counter ≠ 0) :
    (counter - 1).toNat + 1 = counter.toNat := by
  have hpos : 1 ≤ counter.toNat := by
    rw [Nat.one_le_iff_ne_zero]
    exact fun hzero => h (UInt16.toNat_inj.mp hzero)
  have hle : (1 : UInt16) ≤ counter := UInt16.le_iff_toNat_le.mpr hpos
  rw [UInt16.toNat_sub_of_le _ _ hle]
  exact Nat.sub_add_cancel hpos

/-- What the counter allows of the interval, and what the flag promises of it. -/
structure Inv (circ : Circuit) (log : List Packaged) : Prop where
  unpredictable : Unpredictable circwindowIncrement log
  counter : ∀ cells, SinceReset log cells →
    circ.sendRandomnessAfterNCells.toNat + cells.length < circwindowIncrement
  random : circ.haveSentSufficientlyRandomCell = true → ∀ cells, SinceReset log cells →
    ∃ p ∈ cells, p.RandomlyPadded

theorem Inv.congr (h : Inv circ log)
    (hcounter : circ'.sendRandomnessAfterNCells = circ.sendRandomnessAfterNCells)
    (hflag : circ'.haveSentSufficientlyRandomCell = circ.haveSentSufficientlyRandomCell) :
    Inv circ' log where
  unpredictable := h.unpredictable
  counter := by rw [hcounter]; exact h.counter
  random := by rw [hflag]; exact h.random

theorem initCircuitBase_inv (draw : Draw) : Inv (initCircuitBase draw) [] where
  unpredictable :=
    ⟨by simp, by rintro cells ⟨earlier, body, last, later, hlog, -⟩; simp at hlog⟩
  counter := by
    rintro cells ⟨before, hlog, -⟩
    have hcells : cells = [] := (List.append_eq_nil_iff.mp hlog.symm).2
    have hdraw := draw.isLt
    rw [hcells, initCircuitBase, circuitResetSendmeRandomness, drawn_toNat]
    simp only [circwindowIncrement, List.length_nil] at hdraw ⊢
    omega
  random := fun h => absurd h Bool.false_ne_true

theorem getInbufBytesToPackage_cases
    (hget : getInbufBytesToPackage draw n packagePartial format circ = some (circ', pkg)) :
    ∃ length, package draw (maxPayloadSize format Command.data - 20) length circ = (circ', pkg) ∧
      0 < length ∧ length ≤ n ∧
      (circ.sendRandomnessAfterNCells = 0 → circ.haveSentSufficientlyRandomCell = false →
        length ≤ maxPayloadSize format Command.data - 20) := by
  have hfull : 488 ≤ maxPayloadSize format Command.data := by cases format <;> decide
  unfold getInbufBytesToPackage at hget
  simp only [relayCellPaddingGap, Nat.sub_sub, Nat.reduceAdd] at hget
  split_ifs at hget with hzero hforce hfits hpartial hfits hpartial
  · exact ⟨_, Option.some.inj hget, by omega, hfits, fun _ _ => le_rfl⟩
  · exact ⟨_, Option.some.inj hget, by omega, le_rfl, fun _ _ => by omega⟩
  · exact ⟨_, Option.some.inj hget, by omega, hfits, fun hn hflag => absurd ⟨hn, hflag⟩ hforce⟩
  · exact ⟨_, Option.some.inj hget, by omega, le_rfl, fun hn hflag => absurd ⟨hn, hflag⟩ hforce⟩

theorem package_zero (withRandom length : ℕ) (hzero : circ.sendRandomnessAfterNCells = 0) :
    package draw withRandom length circ =
      ({ circ with
          haveSentSufficientlyRandomCell := false
          sendRandomnessAfterNCells := UInt16.ofNat (circwindowIncrement / 2 + draw) - 1 },
        ⟨length, true, UInt16.ofNat (circwindowIncrement / 2 + draw)⟩) := by
  unfold package
  split_ifs with hlength <;> simp [hzero, circuitResetSendmeRandomness]

theorem package_pos (withRandom length : ℕ) (hpos : circ.sendRandomnessAfterNCells ≠ 0) :
    package draw withRandom length circ =
      ({ circ with
          haveSentSufficientlyRandomCell :=
            circ.haveSentSufficientlyRandomCell || decide (length ≤ withRandom)
          sendRandomnessAfterNCells := circ.sendRandomnessAfterNCells - 1 },
        ⟨length, false, circ.sendRandomnessAfterNCells⟩) := by
  unfold package
  split_ifs with hlength <;> simp [hpos, hlength]

/-- A package keeps the invariant, whatever message of its length it is for. -/
theorem package_inv {length : ℕ} (h : Inv circ log)
    (hpackage : package draw (maxPayloadSize format Command.data - 20) length circ = (circ', pkg))
    (hforced : circ.sendRandomnessAfterNCells = 0 → circ.haveSentSufficientlyRandomCell = false →
      length ≤ maxPayloadSize format Command.data - 20)
    (hcounter : p.counter = pkg.counter) (hreset : p.reset = pkg.reset)
    (hpadded : length ≤ maxPayloadSize format Command.data - 20 → p.RandomlyPadded) :
    Inv circ' (log ++ [p]) := by
  have hold := h.unpredictable
  by_cases hzero : circ.sendRandomnessAfterNCells = 0
  · rw [package_zero _ _ hzero] at hpackage
    cases hpackage
    have hdrawn := drawn_toNat draw
    have hne : UInt16.ofNat (circwindowIncrement / 2 + draw) ≠ 0 := by
      intro hn
      rw [hn, UInt16.toNat_zero] at hdrawn
      omega
    have hsub := sub_one_toNat hne
    refine ⟨⟨?_, ?_⟩, ?_, fun hflag => absurd hflag Bool.false_ne_true⟩
    · rw [List.forall_mem_append, List.forall_mem_singleton, hcounter]
      exact ⟨hold.noUnderflow, hne⟩
    · intro cells hstretch
      rcases stretch_append hstretch with hearlier | ⟨-, body, hsince, rfl⟩
      · exact hold.stretch cells hearlier
      · have hlen := h.counter body hsince
        rw [List.length_append, List.length_singleton]
        refine ⟨by omega, ?_⟩
        cases hflag : circ.haveSentSufficientlyRandomCell with
        | true =>
          obtain ⟨q, hq, hrandom⟩ := h.random hflag body hsince
          exact ⟨q, List.mem_append_left _ hq, hrandom⟩
        | false => exact ⟨p, by simp, hpadded (hforced hzero hflag)⟩
    · intro cells hsince
      rw [sinceReset_reset hreset hsince]
      simp only [circwindowIncrement, List.length_nil] at hsub hdrawn ⊢
      omega
  · rw [package_pos _ _ hzero] at hpackage
    cases hpackage
    have hsub := sub_one_toNat hzero
    refine ⟨⟨?_, ?_⟩, ?_, ?_⟩
    · rw [List.forall_mem_append, List.forall_mem_singleton, hcounter]
      exact ⟨hold.noUnderflow, hzero⟩
    · intro cells hstretch
      rcases stretch_append hstretch with hearlier | ⟨hyes, -⟩
      · exact hold.stretch cells hearlier
      · rw [hreset] at hyes
        exact absurd hyes Bool.false_ne_true
    · intro cells hsince
      obtain ⟨body, rfl, hbody⟩ := sinceReset_append hreset hsince
      have hlen := h.counter body hbody
      rw [List.length_append, List.length_singleton]
      dsimp only
      omega
    · intro hflag cells hsince
      obtain ⟨body, rfl, hbody⟩ := sinceReset_append hreset hsince
      rcases Bool.or_eq_true_iff.mp hflag with hbefore | hnow
      · obtain ⟨q, hq, hrandom⟩ := h.random hbefore body hbody
        exact ⟨q, List.mem_append_left _ hq, hrandom⟩
      · exact ⟨p, by simp, hpadded (of_decide_eq_true hnow)⟩

end Packages

section Turns
variable {st : PackageState} {turn : Turn} {packagePartial : Bool} {base : List Packaged}

/-- To send a cell may close the circuit and moves the window, and leaves the rest. -/
theorem connectionEdgeSendCommand_fst (turn : Turn) (msg : Msg) (st : PackageState) :
    ∃ marked layers, (connectionEdgeSendCommand turn msg st).1 =
      { st with circ := { st.circ with markedForClose := marked }, layers := layers } := by
  unfold connectionEdgeSendCommand
  split_ifs
  · exact ⟨st.circ.markedForClose, st.layers, rfl⟩
  · exact ⟨st.circ.markedForClose, st.layers, rfl⟩
  unfold relaySendCommandFromEdge
  dsimp only
  split_ifs
  · exact ⟨st.circ.markedForClose, st.layers, rfl⟩
  · exact ⟨true, st.layers, rfl⟩
  all_goals
    cases encodeCell turn.rng (st.layers st.conn.layer).format msg with
    | none => exact ⟨_, _, rfl⟩
    | some cell => cases turn.outcome <;> exact ⟨_, _, rfl⟩

theorem sendmeNoteStreamDataPackaged_buffered (conn : EdgeConnection) (len : ℕ) :
    (sendmeNoteStreamDataPackaged conn len).1.buffered = conn.buffered := by
  unfold sendmeNoteStreamDataPackaged
  cases hflow : conn.flow.usesFlowControl with
  | true => simp [EdgeConnection.buffered]
  | false => simp [EdgeConnection.buffered]

theorem getD_rest (rest : Bytes) : (if rest = [] then none else some rest).getD [] = rest := by
  split_ifs with hrest
  · rw [hrest, Option.getD_none]
  · rw [Option.getD_some]

theorem getBytes_buffered {conn : EdgeConnection} {length : ℕ} (hpos : 0 < length)
    (hle : length ≤ conn.available.length) : (conn.getBytes length).buffered < conn.buffered := by
  unfold EdgeConnection.getBytes
  unfold EdgeConnection.available at hle
  cases hfrom : conn.sendingFromOptimistic with
  | true =>
    rw [hfrom, if_pos rfl] at hle
    simp only [if_true, EdgeConnection.buffered, getD_rest, List.length_drop]
    omega
  | false =>
    rw [hfrom, if_neg Bool.false_ne_true] at hle
    simp only [Bool.false_eq_true, if_false]
    split_ifs
    · simp only [EdgeConnection.buffered, List.length_drop]
      omega
    · simp only [EdgeConnection.buffered, List.length_drop]
      omega

/-- A turn keeps the invariant, and one that goes on uses up some of the buffers. -/
theorem packageTurn_spec (h : Inv st.circ (base ++ st.log)) :
    Inv (packageTurn turn packagePartial st).1.circ
        (base ++ (packageTurn turn packagePartial st).1.log) ∧
      ((packageTurn turn packagePartial st).2 = none →
        (packageTurn turn packagePartial st).1.conn.buffered < st.conn.buffered) := by
  unfold packageTurn
  dsimp only
  split_ifs
  · exact ⟨h, nofun⟩
  · exact ⟨h, nofun⟩
  · exact ⟨h, nofun⟩
  cases hget : getInbufBytesToPackage turn.draw st.conn.available.length packagePartial
      (st.layers st.conn.layer).format st.circ with
  | none => exact ⟨h, nofun⟩
  | some r =>
    obtain ⟨circ, p⟩ := r
    obtain ⟨length, hpackage, hpos, hle, hforced⟩ := getInbufBytesToPackage_cases hget
    have hlength : length = p.length := congrArg (·.2.length) hpackage
    have htake : (st.conn.available.take p.length).length = p.length :=
      List.length_take_of_le (by omega)
    have hinv := @package_inv _ _ _ ⟨(st.layers st.conn.layer).format,
        dataMsg st.conn.streamId (st.conn.available.take p.length), p.reset, p.counter⟩ _ _ _ _ h
      hpackage hforced rfl rfl
      fun hroom => dataMsg_randomlyPadded st.conn.streamId_ne (by omega)
    rw [List.append_assoc] at hinv
    have hless := @getBytes_buffered st.conn p.length (by omega) (by omega)
    dsimp only
    generalize hpackaged :
      PackageState.mk circ st.layers (st.conn.getBytes p.length) _ st.maxCells = packaged
    obtain ⟨marked, layers, hsent⟩ := connectionEdgeSendCommand_fst turn
      (dataMsg st.conn.streamId (st.conn.available.take p.length)) packaged
    cases hsend : connectionEdgeSendCommand turn
        (dataMsg st.conn.streamId (st.conn.available.take p.length)) packaged with
    | mk st' sent =>
      rw [hsend] at hsent
      subst hsent hpackaged
      have hinv' := @Inv.congr _ { circ with markedForClose := marked } _ hinv rfl rfl
      have hnote := sendmeNoteStreamDataPackaged_buffered (st.conn.getBytes p.length) p.length
      cases sent with
      | false => exact ⟨hinv', nofun⟩
      | true =>
        simp only [Bool.not_true, Bool.false_eq_true, if_false]
        split_ifs
        · exact ⟨hinv', nofun⟩
        · exact ⟨hinv', nofun⟩
        · refine ⟨hinv', fun _ => ?_⟩
          simp only [hnote]
          exact hless

theorem packageLoop_spec {turns : ℕ → Turn} {room : ℕ} (k : ℕ) (hroom : st.conn.buffered < room)
    (h : Inv st.circ (base ++ st.log)) :
    ∃ st' ret, packageLoop turns packagePartial room k st = some (st', ret) ∧
      Inv st'.circ (base ++ st'.log) := by
  induction room generalizing st k with
  | zero => omega
  | succ room ih =>
    obtain ⟨hinv, hless⟩ := @packageTurn_spec st (turns k) packagePartial base h
    rw [packageLoop]
    cases hturn : packageTurn (turns k) packagePartial st with
    | mk st' ret =>
      rw [hturn] at hinv hless
      cases ret with
      | some ret => exact ⟨st', ret, rfl, hinv⟩
      | none =>
        have hbuffered : st'.conn.buffered < st.conn.buffered := hless rfl
        exact ih (k + 1) (by omega) hinv

end Turns

section Runs
variable {circ : Circuit} {log : List Packaged}

theorem apply_spec (call : Call) (h : Inv circ log) :
    ∃ circ' log', circ.apply call = some (circ', log') ∧ Inv circ' (log ++ log') := by
  have hstart : Inv circ (log ++ []) := by rwa [List.append_nil]
  unfold Circuit.apply connectionEdgePackageRawInbuf
  split_ifs
  · exact ⟨circ, [], rfl, hstart⟩
  · exact ⟨circ, [], rfl, hstart⟩
  · obtain ⟨st', ret, hloop, hinv⟩ := @packageLoop_spec
      ⟨circ, call.layers, call.conn, [], call.maxCells⟩ call.packagePartial log call.turns _ 0
      (Nat.lt_succ_self _) hstart
    exact ⟨st'.circ, st'.log, congrArg (Option.map _) hloop, hinv⟩

theorem run_spec (calls : List Call) (h : Inv circ log) :
    ∃ circ' log', circ.run calls = some (circ', log') ∧ Inv circ' (log ++ log') := by
  induction calls generalizing circ log with
  | nil => exact ⟨circ, [], rfl, by rwa [List.append_nil]⟩
  | cons call calls ih =>
    obtain ⟨circ₁, log₁, happly, hinv₁⟩ := apply_spec call h
    obtain ⟨circ₂, log₂, hrun, hinv₂⟩ := ih hinv₁
    refine ⟨circ₂, log₁ ++ log₂, ?_, by rwa [← List.append_assoc]⟩
    simp [Circuit.run, happly, hrun]

/-- In every run the counter never underflows, and each stretch of DATA cells between two resets
has at most a hundred of them, one of which ends with sixteen random bytes. -/
theorem run_unpredictable (draw : Draw) (calls : List Call) :
    ∃ circ log, (initCircuitBase draw).run calls = some (circ, log) ∧
      Unpredictable circwindowIncrement log := by
  obtain ⟨circ, log, hrun, hinv⟩ := run_spec calls (initCircuitBase_inv draw)
  exact ⟨circ, log, hrun, hinv.unpredictable⟩

end Runs

section Example

/-- The least number that can be drawn. -/
def leastDraw : Draw := ⟨0, by decide⟩

/-- Congestion control with its usual increment. -/
def exampleFlow : Flow := .congestion 31 31 124

/-- A call that packages one cell, with so many cells in flight. -/
def dataCall (inbuf : Bytes) (inflight : ℕ) : Call where
  conn := {
    flow := ⟨false, false, true, 0, 0, 0, false⟩
    isOpen := true
    markedForClose := false
    onCircuit := true
    layer := 0
    streamId := 1
    streamId_ne := by decide
    packageWindow := 500
    inbuf := inbuf
    sendingOptimisticData := none
    pendingOptimisticData := none }
  layers _ := ⟨.v0, ⟨circwindowStart, some ⟨exampleFlow.inc, 124, inflight⟩, []⟩⟩
  packagePartial := false
  maxCells := some 1
  turns _ := ⟨leastDraw, fun _ => 0, [], .queued⟩

/-- Full cells are packaged until the counter is zero, and then the first with random bytes. -/
theorem run_fullCells : ((initCircuitBase leastDraw).run
    ((List.range 51).map (dataCall (List.replicate 498 0)))).any (fun r =>
      r.2.map (fun p => p.reset) == List.replicate 50 false ++ [true]) = true := by
  decide +kernel

/-- Congestion control acknowledges each 31 cells, and a stretch has at least 51 at first. -/
theorem congestion_stretch_long : exampleFlow.Admitted ∧ ∃ circ log,
    (initCircuitBase leastDraw).run ((List.range 51).map (dataCall (List.replicate 498 0))) =
      some (circ, log) ∧ ¬Unpredictable exampleFlow.inc log := by
  obtain ⟨⟨circ, log⟩, hrun, hresets⟩ := (Option.any_eq_true _ _).mp run_fullCells
  obtain ⟨full, rest, rfl, hfull, hrest⟩ := List.map_eq_append_iff.mp (beq_iff_eq.mp hresets)
  obtain ⟨last, rfl, hlast⟩ := List.map_eq_singleton_iff.mp hrest
  have hfalse : ∀ p ∈ full, p.reset = false := fun p hp =>
    List.eq_of_mem_replicate (hfull ▸ List.mem_map_of_mem hp)
  have hlen : full.length = 50 := by
    rw [← List.length_map, hfull, List.length_replicate]
  refine ⟨by decide, circ, full ++ [last], hrun, fun hunpredictable => ?_⟩
  have hstretch : Stretch (full ++ [last]) (full ++ [last]) :=
    ⟨full, full, last, [], rfl, ⟨[], rfl, hfalse, by simp⟩, hlast, rfl⟩
  have hle := (hunpredictable.stretch _ hstretch).1
  rw [List.length_append, hlen, List.length_singleton] at hle
  exact absurd hle (by decide)

end Example

end TorDaemon.Sendme.Packaging

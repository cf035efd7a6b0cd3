import Mathlib.Algebra.Order.Ring.Int
import Mathlib.Data.Nat.ModEq
import TorDaemon.Library.NetworkOrder
import TorDaemon.Library.Numbering

/-! The SENDME cell of `trunnel/sendme_cell.c`, and the tags that authenticate it. -/
namespace TorDaemon.Sendme
open Library.NetworkOrder Library.Segment

section Cell

def sendmeTagLenTor1 : ℕ := 20

def sendmeTagLenCgo : ℕ := 16

def tagLenOk (tagLen : ℕ) : Bool := tagLen = sendmeTagLenCgo ∨ tagLen = sendmeTagLenTor1

structure SendmeCell where
  version : ℕ
  dataLen : ℕ
  dataV1Digest : Bytes
  deriving DecidableEq

/-- `sendme_cell_encode`, with as much room as a payload needs. The length field is
that of the data which was written. -/
def sendmeCellEncode (cell : SendmeCell) : Option Bytes :=
  if ¬ (cell.version = 0 ∨ cell.version = 1) then none
  else if ¬ (cell.dataLen = 16 ∨ cell.dataLen = 20) then none
  else
    let data := if cell.version = 0 then [] else cell.dataV1Digest
    some (UInt8.ofNat cell.version :: (bigEndian 2 data.length ++ data))

/-- `sendme_cell_parse`; bytes after the data are left over. -/
def sendmeCellParse : Bytes → Option SendmeCell
  | version :: hi :: lo :: rest =>
    let dataLen := ofBigEndian [hi, lo]
    if ¬ (version = 0 ∨ version = 1) then none
    else if ¬ (dataLen = 16 ∨ dataLen = 20) then none
    else if rest.length < dataLen then none
    else
      some { version := version.toNat, dataLen := dataLen
             dataV1Digest := if version = 0 then [] else rest.take dataLen }
  | _ => none

def buildCellPayloadV1 (cellTag : Bytes) : Option Bytes :=
  if tagLenOk cellTag.length then
    sendmeCellEncode { version := 1, dataLen := cellTag.length, dataV1Digest := cellTag }
  else none

/-- What the queue of expected digests holds for a tag: the longest kind of tag, with
zeros after a shorter one. -/
def recordedTag (tag : Bytes) : Bytes := tag ++ List.replicate (sendmeTagLenTor1 - tag.length) 0

def cellV1IsValid (cell : SendmeCell) (circDigest : Bytes) (circDigestLen : ℕ) : Bool :=
  if !tagLenOk cell.dataLen then false
  else if cell.dataV1Digest.length < cell.dataLen then false
  else if cell.dataLen ≠ circDigestLen then false
  else circDigest.take cell.dataLen = cell.dataV1Digest.take cell.dataLen

theorem tagLenOk_iff {n : ℕ} : tagLenOk n = true ↔ n = 16 ∨ n = 20 := by
  rw [tagLenOk, decide_eq_true_eq]
  rfl

variable {tag : Bytes}

theorem buildCellPayloadV1_eq (h : tagLenOk tag.length) :
    buildCellPayloadV1 tag = some (1 :: (bigEndian 2 tag.length ++ tag)) := by
  have hlen := tagLenOk_iff.mp h
  simp [buildCellPayloadV1, h, sendmeCellEncode, hlen]

theorem sendmeCellParse_buildCellPayloadV1 (h : tagLenOk tag.length) :
    (buildCellPayloadV1 tag).bind sendmeCellParse =
      some { version := 1, dataLen := tag.length, dataV1Digest := tag } := by
  have hlen := tagLenOk_iff.mp h
  have hround := ofBigEndian_bigEndian 2 tag.length
  rw [buildCellPayloadV1_eq h, Option.bind_some]
  match hbytes : bigEndian 2 tag.length, bigEndian_length 2 tag.length with
  | [hi, lo], _ =>
    rw [hbytes, Nat.mod_eq_of_lt (by omega)] at hround
    simp [sendmeCellParse, hround, hlen]

theorem cellV1IsValid_recordedTag (other : Bytes) (h : tagLenOk tag.length)
    (hlen : other.length = tag.length) :
    cellV1IsValid { version := 1, dataLen := other.length, dataV1Digest := other }
      (recordedTag tag) tag.length = decide (other = tag) := by
  simp [cellV1IsValid, recordedTag, hlen, h, List.take_of_length_le, eq_comm]

end Cell

/-! One direction of a circuit hop: the end that sends DATA cells and keeps the package
window, the end that receives them and acknowledges every `inc`-th with a SENDME,
and the two FIFO channels between them (`sendme.c`, `congestion_control_common.c`). -/

def circwindowStart : ℤ := 1000

def circwindowStartMax : ℤ := 1000

def circwindowIncrement : ℕ := 100

def sendmeMaxSupportedVersion : ℕ := 1

/-- `congestion_control_validate_sendme_increment`, on `uint8_t` arguments. -/
def validateSendmeIncrement (ccSendmeInc sendmeInc : ℕ) : Bool :=
  if sendmeInc = 0 then false
  else if (sendmeInc : ℤ) > ccSendmeInc + 1 ∨ (sendmeInc : ℤ) < ccSendmeInc - 1 then false
  else true

/-- The flow control of the hop: the fixed window, whose start is the consensus
parameter `circwindow`, or congestion control with a negotiated increment. -/
inductive Flow
  | fixed (circwindow : ℕ)
  | congestion (ccSendmeInc sendmeInc cwndInit : ℕ)

/-- The ranges of the parameters, and the check of the negotiation. -/
def Flow.Admitted : Flow → Prop
  | .fixed circwindow => 100 ≤ circwindow ∧ circwindow ≤ 1000
  | .congestion ccSendmeInc sendmeInc cwndInit =>
    1 ≤ ccSendmeInc ∧ ccSendmeInc ≤ 254 ∧ sendmeInc < 256 ∧
      validateSendmeIncrement ccSendmeInc sendmeInc = true ∧ 31 ≤ cwndInit ∧ cwndInit ≤ 10000

instance (flow : Flow) : Decidable flow.Admitted := by
  cases flow <;> unfold Flow.Admitted <;> infer_instance

/-- A hop whose ends agree on the tag of every DATA cell, in a network that has
SENDMEs authenticated: version 1 is emitted, and accepted. -/
structure Hop where
  flow : Flow
  admitted : flow.Admitted
  tagLen : ℕ
  tagLen_ok : tagLenOk tagLen = true
  tag : ℕ → Bytes
  tag_length : ∀ k, (tag k).length = tagLen
  sendmeTag : Bytes → Bytes
  acceptMinVersion : ℕ
  accept_le : acceptMinVersion ≤ sendmeMaxSupportedVersion
  usedLegacyCircuitHandshake : Bool

/-- The part of `congestion_control_t` that is used here. -/
structure CongestionControl where
  sendmeInc : ℕ
  cwnd : ℕ
  inflight : ℕ
  deriving DecidableEq

/-- The fields of the sending end. -/
structure Sender where
  packageWindow : ℤ
  cc : Option CongestionControl
  sendmeLastDigests : List Bytes
  deriving DecidableEq

/-- `sendme_get_inc_count`. -/
def Flow.inc : Flow → ℕ
  | .fixed _ => circwindowIncrement
  | .congestion _ sendmeInc _ => sendmeInc

def circuitSentCellForSendme (s : Sender) : Bool :=
  match s.cc with
  | some cc =>
    if cc.inflight = 0 then false
    else if (cc.inflight + 1) % 2 ^ 64 % cc.sendmeInc ≠ 0 then false
    else true
  | none =>
    if s.packageWindow = circwindowStart then false
    else if (s.packageWindow - 1).tmod circwindowIncrement ≠ 0 then false
    else true

def getPackageWindow (s : Sender) : ℤ :=
  match s.cc with
  | none => s.packageWindow
  | some cc => if cc.inflight > cc.cwnd then 0 else min (cc.cwnd - cc.inflight : ℤ) (2 ^ 31 - 1)

/-- `sendme_record_cell_digest_on_circ`. -/
def recordCellDigest (s : Sender) (tag : Bytes) : Sender :=
  if circuitSentCellForSendme s then
    { s with sendmeLastDigests := s.sendmeLastDigests ++ [recordedTag tag] }
  else s

/-- `sendme_note_circuit_data_packaged`. -/
def noteDataPackaged (s : Sender) : Sender :=
  match s.cc with
  | some cc => { s with cc := some { cc with inflight := (cc.inflight + 1) % 2 ^ 64 } }
  | none => { s with packageWindow := s.packageWindow - 1 }

def cellVersionCanBeHandled (acceptVersion cellVersion : ℕ) : Bool :=
  if acceptVersion > sendmeMaxSupportedVersion then false
  else if cellVersion < acceptVersion then false
  else if cellVersion > sendmeMaxSupportedVersion then false
  else true

/-- `sendme_is_valid`: the verdict, and the queue without the digest that was popped.
A cell that does not parse, or whose version is refused, pops none. -/
def sendmeIsValid (hop : Hop) (digests : List Bytes) (payload : Bytes) : Bool × List Bytes :=
  let cell := if payload = [] then some { version := 0, dataLen := 0, dataV1Digest := [] }
    else sendmeCellParse payload
  match cell with
  | none => (false, digests)
  | some cell =>
    if ¬ (hop.usedLegacyCircuitHandshake ∧ cell.version = 0) ∧
        !cellVersionCanBeHandled hop.acceptMinVersion cell.version then (false, digests)
    else
      match digests with
      | [] => (false, [])
      | circDigest :: rest =>
        if cell.version = 1 then (cellV1IsValid cell circDigest hop.tagLen, rest)
        else (true, rest)

/-- `sendme_process_circuit_level`. With congestion control the window may change to
anything, and the counter is a `uint64_t`; `none` is a circuit to be closed. -/
def processCircuitLevel (hop : Hop) (s : Sender) (payload : Bytes) (cwnd : UInt64) :
    Option Sender :=
  let (valid, rest) := sendmeIsValid hop s.sendmeLastDigests payload
  if !valid then none
  else
    match s.cc with
    | some cc =>
      some { s with sendmeLastDigests := rest
                    cc := some { cc with
                      cwnd := cwnd.toNat
                      inflight := (cc.inflight + 2 ^ 64 - cc.sendmeInc) % 2 ^ 64 } }
    | none =>
      if s.packageWindow + circwindowIncrement > circwindowStartMax then none
      else some { s with sendmeLastDigests := rest
                         packageWindow := s.packageWindow + circwindowIncrement }

/-- The loop of `sendme_circuit_consider_sending`: the window, and the payloads sent. To
send a SENDME changes the tag that the crypto state holds. -/
def considerSending (inc : ℕ) (sendmeTag : Bytes → Bytes) (deliverWindow : ℤ) (tag : Bytes) :
    ℤ × List Bytes :=
  if inc = 0 then (deliverWindow, [])
  else if deliverWindow ≤ circwindowStart - inc then
    let payload := (buildCellPayloadV1 tag).getD []
    let (window, payloads) :=
      considerSending inc sendmeTag (deliverWindow + inc) (sendmeTag payload)
    (window, payload :: payloads)
  else (deliverWindow, [])
termination_by (circwindowStart - deliverWindow + inc).toNat
decreasing_by omega

/-- The hop and its channels. DATA cells are numbered from one; `sent`, `received` and
`acked` count the cells sent, the cells received and the SENDMEs processed. -/
structure State where
  sender : Sender
  sent : ℕ
  dataWire : List ℕ
  deliverWindow : ℤ
  received : ℕ
  sendmeWire : List Bytes
  emitted : List Bytes
  acked : ℕ
  closed : Bool
  deriving DecidableEq

def Hop.init (hop : Hop) : State where
  sender :=
    match hop.flow with
    | .fixed circwindow => { packageWindow := circwindow, cc := none, sendmeLastDigests := [] }
    | .congestion _ sendmeInc cwndInit =>
      { packageWindow := circwindowStart
        cc := some { sendmeInc := sendmeInc, cwnd := cwndInit, inflight := 0 }
        sendmeLastDigests := [] }
  sent := 0
  dataWire := []
  deliverWindow := circwindowStart
  received := 0
  sendmeWire := []
  emitted := []
  acked := 0
  closed := false

inductive Event
  | sendData
  | deliverData
  | deliverSendme (cwnd : UInt64)

/-- A DATA cell is only packaged while the package window is open. The circuit is closed
when a window goes below zero or a SENDME is refused. -/
def step (hop : Hop) (s : State) : Event → Option State
  | .sendData =>
    if s.closed ∨ getPackageWindow s.sender ≤ 0 then none
    else
      let sender := noteDataPackaged (recordCellDigest s.sender (hop.tag (s.sent + 1)))
      some { s with sender := sender
                    sent := s.sent + 1
                    dataWire := s.dataWire ++ [s.sent + 1]
                    closed := decide (getPackageWindow sender < 0) }
  | .deliverData =>
    match s.closed, s.dataWire with
    | false, cell :: dataWire =>
      let window := s.deliverWindow - 1
      if window < 0 then some { s with dataWire := dataWire, closed := true }
      else
        let (window, payloads) := considerSending hop.flow.inc hop.sendmeTag window (hop.tag cell)
        some { s with dataWire := dataWire
                      deliverWindow := window
                      received := s.received + 1
                      sendmeWire := s.sendmeWire ++ payloads
                      emitted := s.emitted ++ payloads }
    | _, _ => none
  | .deliverSendme cwnd =>
    match s.closed, s.sendmeWire with
    | false, payload :: sendmeWire =>
      match processCircuitLevel hop s.sender payload cwnd with
      | none => some { s with sendmeWire := sendmeWire, closed := true }
      | some sender =>
        some { s with sender := sender, sendmeWire := sendmeWire, acked := s.acked + 1 }
    | _, _ => none

/-- The payload of the SENDME that acknowledges up to the `k`-th cell. -/
def Hop.payload (hop : Hop) (k : ℕ) : Bytes := (buildCellPayloadV1 (hop.tag k)).getD []

/-- `cc->inflight`, or the part of the fixed window that is used up. -/
def cellsInFlight (hop : Hop) (s : State) : ℤ :=
  match hop.flow, s.sender.cc with
  | .fixed circwindow, _ => circwindow - s.sender.packageWindow
  | .congestion _ _ _, some cc => cc.inflight
  | .congestion _ _ _, none => 0

/-! The windows of the two ends as functions of the cells and SENDMEs that each has
counted, and when the sender's test for a cell to record is in phase with the
receiver's window. -/

section Windows
variable {hop : Hop} {sent acked : ℕ}

/-- The sender counts from a multiple of the increment, and its test for an empty
window leaves out no cell that is to be acknowledged. -/
def InPhase : Flow → Prop
  | .fixed circwindow => circwindowIncrement ∣ circwindow
  | .congestion _ sendmeInc _ => 2 ≤ sendmeInc

instance (flow : Flow) : Decidable (InPhase flow) := by
  cases flow <;> unfold InPhase <;> infer_instance

theorem inc_pos (hop : Hop) : 0 < hop.flow.inc := by
  have h := hop.admitted
  cases hflow : hop.flow with
  | fixed circwindow => simp [Flow.inc, circwindowIncrement]
  | congestion ccSendmeInc sendmeInc cwndInit =>
    simp only [hflow, Flow.Admitted, validateSendmeIncrement] at h
    by_contra hzero
    simp only [Flow.inc, Nat.pos_iff_ne_zero, not_not] at hzero
    simp [hzero] at h

theorem inc_lt (hop : Hop) : hop.flow.inc < 256 := by
  have h := hop.admitted
  cases hflow : hop.flow with
  | fixed circwindow => simp [Flow.inc, circwindowIncrement]
  | congestion ccSendmeInc sendmeInc cwndInit =>
    simp only [hflow, Flow.Admitted] at h
    exact h.2.2.1

theorem considerSending_stop {inc : ℕ} {w : ℤ} (sendmeTag : Bytes → Bytes) (tag : Bytes)
    (h : circwindowStart - inc < w) : considerSending inc sendmeTag w tag = (w, []) := by
  rw [considerSending]
  simp [h]

/-- A window that has just shrunk by one is acknowledged at most once. -/
theorem considerSending_eq {inc : ℕ} {w : ℤ} (sendmeTag : Bytes → Bytes) (tag : Bytes)
    (hinc : 0 < inc) (hwindow : circwindowStart - inc ≤ w) : considerSending inc sendmeTag w tag =
      if w = circwindowStart - inc
      then (circwindowStart, [(buildCellPayloadV1 tag).getD []]) else (w, []) := by
  by_cases hlast : w = circwindowStart - inc
  · have hnext : w + inc = circwindowStart := by omega
    have hstop := considerSending_stop sendmeTag (sendmeTag ((buildCellPayloadV1 tag).getD []))
      (show circwindowStart - inc < circwindowStart by omega)
    rw [considerSending, if_neg hinc.ne', if_pos hlast.le, if_pos hlast]
    simp only [hnext, hstop]
  · rw [if_neg hlast]
    exact considerSending_stop sendmeTag tag (by omega)

theorem sendmeIsValid_payload (hop : Hop) (k : ℕ) (rest : List Bytes) :
    sendmeIsValid hop (recordedTag (hop.tag k) :: rest) (hop.payload k) = (true, rest) := by
  have hok : tagLenOk (hop.tag k).length = true := by rw [hop.tag_length]; exact hop.tagLen_ok
  have hpayload : hop.payload k = 1 :: (bigEndian 2 (hop.tag k).length ++ hop.tag k) := by
    simp [Hop.payload, buildCellPayloadV1_eq hok]
  have hparse : sendmeCellParse (hop.payload k) = some
      { version := 1, dataLen := (hop.tag k).length, dataV1Digest := hop.tag k } := by
    have hround := sendmeCellParse_buildCellPayloadV1 hok
    rwa [buildCellPayloadV1_eq hok, Option.bind_some, ← hpayload] at hround
  have hvalid := cellV1IsValid_recordedTag (hop.tag k) hok rfl
  have hversion : cellVersionCanBeHandled hop.acceptMinVersion 1 = true := by
    have h := hop.accept_le
    simp only [sendmeMaxSupportedVersion] at h
    simp [cellVersionCanBeHandled, sendmeMaxSupportedVersion]
    omega
  rw [hop.tag_length] at hvalid
  have hne : hop.payload k ≠ [] := by simp [hpayload]
  simp [sendmeIsValid, hne, hparse, hversion, hop.tag_length, hvalid]

/-- The sender's counter, as a function of the cells sent and the SENDMEs processed. -/
def WindowInv (flow : Flow) (sender : Sender) (sent acked : ℕ) : Prop :=
  match flow with
  | .fixed circwindow =>
    sender.cc = none ∧ sender.packageWindow = circwindow - (sent - circwindowIncrement * acked) ∧
      0 ≤ sender.packageWindow
  | .congestion _ sendmeInc _ =>
    ∃ cwnd inflight, sender.cc = some ⟨sendmeInc, cwnd, inflight⟩ ∧
      inflight + sendmeInc * acked = sent ∧ inflight < 2 ^ 64 ∧ cwnd < 2 ^ 64 ∧
      sender.packageWindow = circwindowStart

@[simp] theorem recordCellDigest_cc (sender : Sender) (tag : Bytes) :
    (recordCellDigest sender tag).cc = sender.cc := by
  unfold recordCellDigest
  split <;> rfl

@[simp] theorem recordCellDigest_packageWindow (sender : Sender) (tag : Bytes) :
    (recordCellDigest sender tag).packageWindow = sender.packageWindow := by
  unfold recordCellDigest
  split <;> rfl

@[simp] theorem noteDataPackaged_sendmeLastDigests (sender : Sender) :
    (noteDataPackaged sender).sendmeLastDigests = sender.sendmeLastDigests := by
  unfold noteDataPackaged
  split <;> rfl

theorem windowInv_send {flow : Flow} {sender : Sender}
    (h : WindowInv flow sender sent acked) (hopen : 0 < getPackageWindow sender) :
    WindowInv flow (noteDataPackaged sender) (sent + 1) acked ∧
      0 ≤ getPackageWindow (noteDataPackaged sender) := by
  cases flow with
  | fixed circwindow =>
    obtain ⟨hcc, hwindow, -⟩ := h
    simp only [getPackageWindow, hcc] at hopen
    simp only [WindowInv, noteDataPackaged, getPackageWindow, hcc]
    refine ⟨⟨trivial, ?_, ?_⟩, ?_⟩ <;> omega
  | congestion ccSendmeInc sendmeInc cwndInit =>
    obtain ⟨cwnd, inflight, hcc, hsent, hlt, hcwnd, hwindow⟩ := h
    simp only [getPackageWindow, hcc] at hopen
    have hnext : (inflight + 1) % 2 ^ 64 = inflight + 1 := Nat.mod_eq_of_lt (by omega)
    simp only [WindowInv, noteDataPackaged, getPackageWindow, hcc, hnext, hwindow]
    refine ⟨⟨cwnd, inflight + 1, rfl, by omega, by omega, hcwnd, trivial⟩, ?_⟩
    split <;> omega

theorem circuitSentCellForSendme_fixed {w : ℤ} {d : List Bytes} (hw : 0 < w) :
    circuitSentCellForSendme ⟨w, none, d⟩ = true ↔ (w - 1) % 100 = 0 := by
  have hmod : (w - 1).tmod circwindowIncrement = (w - 1) % circwindowIncrement :=
    Int.tmod_eq_emod_of_nonneg (by omega)
  simp only [circuitSentCellForSendme, hmod]
  simp only [circwindowIncrement, circwindowStart, Nat.cast_ofNat]
  by_cases hstart : w = 1000
  · simp [hstart]
  · by_cases hrest : (w - 1) % 100 = 0 <;> simp [hstart, hrest]

theorem circuitSentCellForSendme_iff {flow : Flow} {sender : Sender}
    (hphase : InPhase flow) (h : WindowInv flow sender sent acked)
    (hopen : 0 < getPackageWindow sender) :
    circuitSentCellForSendme sender = true ↔ flow.inc ∣ sent + 1 := by
  cases flow with
  | fixed circwindow =>
    obtain ⟨hcc, hwindow, -⟩ := h
    obtain ⟨n, rfl⟩ := hphase
    simp only [getPackageWindow, hcc] at hopen
    have hfixed := circuitSentCellForSendme_fixed (d := sender.sendmeLastDigests) hopen
    rw [← hcc] at hfixed
    simp only [Flow.inc, circwindowIncrement] at hwindow ⊢
    rw [hfixed]
    omega
  | congestion ccSendmeInc sendmeInc cwndInit =>
    obtain ⟨cwnd, inflight, hcc, hsent, hlt, hcwnd, hwindow⟩ := h
    simp only [getPackageWindow, hcc] at hopen
    have hnext : (inflight + 1) % 2 ^ 64 = inflight + 1 := Nat.mod_eq_of_lt (by omega)
    have hdvd : sendmeInc ∣ sent + 1 ↔ sendmeInc ∣ inflight + 1 := by
      rw [← hsent,
        show inflight + sendmeInc * acked + 1 = inflight + 1 + sendmeInc * acked by omega]
      exact Nat.dvd_add_left (Nat.dvd_mul_right ..)
    have hone : ¬ sendmeInc ∣ 0 + 1 := by
      intro hdiv
      have hle := Nat.le_of_dvd (by omega) hdiv
      simp only [InPhase] at hphase
      omega
    simp only [circuitSentCellForSendme, hcc, hnext, Flow.inc, hdvd]
    by_cases hzero : inflight = 0
    · subst hzero
      simp [hone]
    · simp [hzero, Nat.dvd_iff_mod_eq_zero]

theorem windowInv_ack {sender : Sender} (rest : List Bytes) (cwnd : UInt64)
    (h : WindowInv hop.flow sender sent acked) (hacked : hop.flow.inc * (acked + 1) ≤ sent)
    {payload : Bytes} (hvalid : sendmeIsValid hop sender.sendmeLastDigests payload = (true, rest)) :
    ∃ sender', processCircuitLevel hop sender payload cwnd = some sender' ∧
      sender'.sendmeLastDigests = rest ∧ WindowInv hop.flow sender' sent (acked + 1) := by
  have hadmitted := hop.admitted
  cases hflow : hop.flow with
  | fixed circwindow =>
    rw [hflow] at h hacked hadmitted
    obtain ⟨hcc, hwindow, hnonneg⟩ := h
    simp only [Flow.inc, circwindowIncrement] at hacked hwindow
    have hroom : ¬ sender.packageWindow + circwindowIncrement > circwindowStartMax := by
      simp only [Flow.Admitted] at hadmitted
      simp only [circwindowIncrement, circwindowStartMax]
      omega
    refine ⟨{ sender with
        sendmeLastDigests := rest, packageWindow := sender.packageWindow + circwindowIncrement },
      by simp [processCircuitLevel, hvalid, hcc, hroom], rfl, hcc, ?_, ?_⟩ <;>
      simp only [circwindowIncrement] <;> omega
  | congestion ccSendmeInc sendmeInc cwndInit =>
    rw [hflow] at h hacked
    obtain ⟨oldCwnd, inflight, hcc, hsent, hlt, -, hwindow⟩ := h
    simp only [Flow.inc, Nat.mul_add, Nat.mul_one] at hacked
    have hsub : (inflight + 2 ^ 64 - sendmeInc) % 2 ^ 64 = inflight - sendmeInc := by
      rw [show inflight + 2 ^ 64 - sendmeInc = inflight - sendmeInc + 2 ^ 64 by omega,
        Nat.add_mod_right, Nat.mod_eq_of_lt (by omega)]
    refine ⟨{ sender with
        sendmeLastDigests := rest, cc := some ⟨sendmeInc, cwnd.toNat, inflight - sendmeInc⟩ },
      ?_, rfl, cwnd.toNat, inflight - sendmeInc, rfl, ?_, by omega, cwnd.toNat_lt, hwindow⟩
    · simp only [processCircuitLevel, hvalid, hcc, hsub]
      simp
    · rw [Nat.mul_add]
      omega

end Windows

end TorDaemon.Sendme

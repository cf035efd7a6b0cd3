import TorDaemon.Library.NetworkOrder

/-! Relay messages in cells, in the two formats. A write into a cell comes with a proof
that it stays inside the payload. -/
namespace TorDaemon.Relay
open Library.NetworkOrder

namespace Command

def begin : UInt8 := 1
def data : UInt8 := 2
def endStream : UInt8 := 3
def connected : UInt8 := 4
def sendme : UInt8 := 5
def extend : UInt8 := 6
def extended : UInt8 := 7
def truncate : UInt8 := 8
def truncated : UInt8 := 9
def drop : UInt8 := 10
def resolve : UInt8 := 11
def resolved : UInt8 := 12
def beginDir : UInt8 := 13
def extend2 : UInt8 := 14
def extended2 : UInt8 := 15
def confluxLink : UInt8 := 19
def confluxLinked : UInt8 := 20
def confluxLinkedAck : UInt8 := 21
def confluxSwitch : UInt8 := 22
def establishIntro : UInt8 := 32
def establishRendezvous : UInt8 := 33
def introduce1 : UInt8 := 34
def introduce2 : UInt8 := 35
def rendezvous1 : UInt8 := 36
def rendezvous2 : UInt8 := 37
def introEstablished : UInt8 := 38
def rendezvousEstablished : UInt8 := 39
def introduceAck : UInt8 := 40
def paddingNegotiate : UInt8 := 41
def paddingNegotiated : UInt8 := 42
def xoff : UInt8 := 43
def xon : UInt8 := 44

end Command

open Command

def isKnownRelayCommand (cmd : UInt8) : Bool :=
  cmd ∈ [begin, beginDir, confluxLink, confluxLinked, confluxLinkedAck, confluxSwitch, connected,
    data, drop, endStream, establishIntro, establishRendezvous, extend2, extend, extended2,
    extended, introduce1, introduce2, introduceAck, introEstablished, paddingNegotiate,
    paddingNegotiated, rendezvous1, rendezvous2, rendezvousEstablished, resolve, resolved, sendme,
    truncate, truncated, xoff, xon]

def expectsStreamidInV1 (cmd : UInt8) : Bool :=
  cmd ∈ [begin, beginDir, connected, data, endStream, resolve, resolved, xoff, xon]

def cellPayloadSize : ℕ := 509

abbrev Payload := Vector UInt8 cellPayloadSize

inductive CellFormat
  | v0
  | v1
  deriving DecidableEq

def relayHeaderSizeV0 : ℕ := 1 + 2 + 2 + 4 + 2

def relayPayloadSizeMax : ℕ := cellPayloadSize - relayHeaderSizeV0

def relayHeaderSizeV1NoStreamId : ℕ := 16 + 1 + 2

def relayHeaderSizeV1WithStreamId : ℕ := 16 + 1 + 2 + 2

def maxPayloadSize (format : CellFormat) (cmd : UInt8) : ℕ :=
  match format with
  | .v0 => cellPayloadSize - relayHeaderSizeV0
  | .v1 =>
    if expectsStreamidInV1 cmd then cellPayloadSize - relayHeaderSizeV1WithStreamId
    else cellPayloadSize - relayHeaderSizeV1NoStreamId

def cellRelay : UInt8 := 3

def cellRelayEarly : UInt8 := 9

structure Cell where
  circId : UInt32
  command : UInt8
  payload : Payload

/-- `relay_msg_t` for sending: the memory at `body` holds at least `length` bytes. -/
structure Msg where
  command : UInt8
  length : UInt16
  streamId : UInt16
  isRelayEarly : Bool
  body : Bytes
  length_le : length.toNat ≤ body.length

/-- The bytes of the message. -/
def Msg.content (msg : Msg) : Bytes := msg.body.take msg.length.toNat

section Memory

/-- `memcpy` into a payload. -/
def writeAt (p : Payload) (offset : ℕ) (bytes : Bytes)
    (_ : offset + bytes.length ≤ cellPayloadSize) : Payload :=
  Vector.ofFn fun i =>
    if h : offset ≤ i.val ∧ i.val < offset + bytes.length then bytes[i.val - offset] else p[i]

def setUint8 (p : Payload) (offset : ℕ) (b : UInt8) (h : offset + 1 ≤ cellPayloadSize) : Payload :=
  writeAt p offset [b] h

def setUint16 (p : Payload) (offset : ℕ) (n : UInt16) (h : offset + 2 ≤ cellPayloadSize) :
    Payload :=
  writeAt p offset (bigEndian 2 n.toNat) (by rwa [bigEndian_length])

def getUint16 (p : Payload) (offset : ℕ) (h : offset + 2 ≤ cellPayloadSize) : UInt16 :=
  UInt16.ofNat (ofBigEndian [p[offset], p[offset + 1]])

/-- `relay_cell_pad`, with the bytes that the generator gives. -/
def relayCellPad (rng : ℕ → UInt8) (p : Payload) (endOfMessage : ℕ) : Payload :=
  if cellPayloadSize ≤ endOfMessage + 4 then p
  else Vector.ofFn fun i => if endOfMessage + 4 ≤ i.val then rng i else p[i]

end Memory

section Encode
variable (rng : ℕ → UInt8)

theorem Msg.content_length (msg : Msg) : msg.content.length = msg.length.toNat := by
  simp [Msg.content, msg.length_le]

/-- `encode_v0_cell`, into a payload of zeros. -/
def encodeV0Cell (msg : Msg) (out : Payload) : Option Payload :=
  if h : maxPayloadSize .v0 msg.command < msg.length.toNat then none
  else
    let out := setUint8 out 0 msg.command (by decide)
    let out := setUint16 out 3 msg.streamId (by decide)
    let out := setUint16 out 9 msg.length (by decide)
    let out := writeAt out relayHeaderSizeV0 msg.content (by
      rw [msg.content_length]
      simp only [maxPayloadSize, cellPayloadSize, relayHeaderSizeV0] at h ⊢
      omega)
    some (relayCellPad rng out (relayHeaderSizeV0 + msg.length.toNat))

/-- `encode_v1_cell`, into a payload of zeros. -/
def encodeV1Cell (msg : Msg) (out : Payload) : Option Payload :=
  if h : maxPayloadSize .v1 msg.command < msg.length.toNat then none
  else
    let out := setUint8 out 16 msg.command (by decide)
    let out := setUint16 out 17 msg.length (by decide)
    if hexpects : expectsStreamidInV1 msg.command then
      if msg.streamId = 0 then none
      else
        let out := setUint16 out 19 msg.streamId (by decide)
        let out := writeAt out 21 msg.content (by
          rw [msg.content_length]
          simp only [maxPayloadSize, hexpects, if_true, cellPayloadSize,
            relayHeaderSizeV1WithStreamId] at h ⊢
          omega)
        some (relayCellPad rng out (21 + msg.length.toNat))
    else if msg.streamId ≠ 0 then none
    else
      let out := writeAt out 19 msg.content (by
        rw [msg.content_length]
        simp only [maxPayloadSize, hexpects, Bool.false_eq_true, if_false, cellPayloadSize,
          relayHeaderSizeV1NoStreamId] at h ⊢
        omega)
      some (relayCellPad rng out (19 + msg.length.toNat))

/-- `relay_msg_encode_cell`; `none` is an error. -/
def encodeCell (format : CellFormat) (msg : Msg) : Option Cell :=
  let out := Vector.replicate cellPayloadSize 0
  let command := if msg.isRelayEarly then cellRelayEarly else cellRelay
  match format with
  | .v0 => (encodeV0Cell rng msg out).map fun payload => ⟨0, command, payload⟩
  | .v1 => (encodeV1Cell rng msg out).map fun payload => ⟨0, command, payload⟩

end Encode

section Decode

/-- `relay_msg_t` after decoding: the body is a place in the payload of the cell. -/
structure MsgInPlace where
  command : UInt8
  length : UInt16
  streamId : UInt16
  isRelayEarly : Bool
  bodyOffset : ℕ

/-- The bytes that the message has in a cell. -/
def MsgInPlace.content (msg : MsgInPlace) (cell : Cell) : Bytes :=
  (cell.payload.toList.drop msg.bodyOffset).take msg.length.toNat

def decodeV0Cell (cell : Cell) : Option MsgInPlace :=
  let body := cell.payload
  let length := getUint16 body 9 (by decide)
  if cellPayloadSize - relayHeaderSizeV0 < length.toNat then none
  else some {
    command := body[0]
    length := length
    streamId := getUint16 body 3 (by decide)
    isRelayEarly := cell.command = cellRelayEarly
    bodyOffset := 11 }

def decodeV1Cell (cell : Cell) : Option MsgInPlace :=
  let body := cell.payload
  let command := body[16]
  if !isKnownRelayCommand command then none
  else
    let length := getUint16 body 17 (by decide)
    let streamId := if expectsStreamidInV1 command then getUint16 body 19 (by decide) else 0
    let payloadOffset := if expectsStreamidInV1 command then 21 else 19
    if cellPayloadSize - payloadOffset < length.toNat then none
    else some {
      command := command
      length := length
      streamId := streamId
      isRelayEarly := cell.command = cellRelayEarly
      bodyOffset := payloadOffset }

def decodeCellInPlace (format : CellFormat) (cell : Cell) : Option MsgInPlace :=
  match format with
  | .v0 => decodeV0Cell cell
  | .v1 => decodeV1Cell cell

end Decode

/-! ### Round trips -/

section Memory
variable {p : Payload} {offset : ℕ} {bytes : Bytes} {i : ℕ}

section
variable (hi : i < cellPayloadSize)
include hi

theorem writeAt_inside {h : offset + bytes.length ≤ cellPayloadSize} (hin : offset ≤ i ∧ i < offset + bytes.length) :
    (writeAt p offset bytes h)[i] = bytes[i - offset] := by
  simp [writeAt, hin]

theorem writeAt_outside {h : offset + bytes.length ≤ cellPayloadSize} (hout : i < offset ∨ offset + bytes.length ≤ i) :
    (writeAt p offset bytes h)[i] = p[i] := by
  have hnot : ¬ (offset ≤ i ∧ i < offset + bytes.length) := by omega
  simp [writeAt, hnot]

theorem relayCellPad_before {rng : ℕ → UInt8} {endOfMessage : ℕ}
    (hbefore : i < endOfMessage) : (relayCellPad rng p endOfMessage)[i] = p[i] := by
  unfold relayCellPad
  split_ifs
  · rfl
  · simp [show ¬ endOfMessage + 4 ≤ i by omega]

theorem relayCellPad_after {rng : ℕ → UInt8} {endOfMessage : ℕ}
    (hafter : endOfMessage + 4 ≤ i) : (relayCellPad rng p endOfMessage)[i] = rng i := by
  unfold relayCellPad
  rw [if_neg (by omega)]
  simp [hafter]

end

theorem setUint8_at {b : UInt8} {h : offset + 1 ≤ cellPayloadSize} :
    (setUint8 p offset b h)[offset] = b := by
  rw [setUint8, writeAt_inside (by omega) (by simp)]
  simp

theorem setUint16_outside {n : UInt16} {h : offset + 2 ≤ cellPayloadSize}
    (hi : i < cellPayloadSize) (hout : i < offset ∨ offset + 2 ≤ i) :
    (setUint16 p offset n h)[i] = p[i] :=
  writeAt_outside hi (by rwa [bigEndian_length])

theorem getUint16_congr {p' : Payload} {h : offset + 2 ≤ cellPayloadSize}
    (hsame : ∀ i (hi : i < cellPayloadSize), offset ≤ i → i < offset + 2 → p'[i] = p[i]) :
    getUint16 p' offset h = getUint16 p offset h := by
  rw [getUint16, getUint16, hsame offset (by omega) (by omega) (by omega),
    hsame (offset + 1) (by omega) (by omega) (by omega)]

theorem getUint16_setUint16 {n : UInt16} {h : offset + 2 ≤ cellPayloadSize} :
    getUint16 (setUint16 p offset n h) offset h = n := by
  have hlen := bigEndian_length 2 n.toNat
  have hpair : [(setUint16 p offset n h)[offset], (setUint16 p offset n h)[offset + 1]] =
      bigEndian 2 n.toNat := by
    apply List.ext_getElem
    · simp [hlen]
    · intro i hi _
      obtain rfl | rfl : i = 0 ∨ i = 1 := by
        omega
      · simp only [List.getElem_cons_zero, setUint16]
        rw [writeAt_inside (by omega) (by omega)]
        simp
      · simp only [List.getElem_cons_succ, List.getElem_cons_zero, setUint16]
        rw [writeAt_inside (by omega) (by omega)]
        simp
  rw [getUint16, hpair, ofBigEndian_bigEndian]
  apply UInt16.toNat_inj.mp
  have hlt := n.toNat_lt
  simp only [UInt16.toNat_ofNat']
  omega

end Memory

/-- The bytes that the cryptography writes: the recognized and digest fields, or the tag. -/
def CryptoField (format : CellFormat) (i : ℕ) : Prop :=
  match format with
  | .v0 => (1 ≤ i ∧ i < 3) ∨ (5 ≤ i ∧ i < 9)
  | .v1 => i < 16

/-- A cell after the cryptography has written into its own fields. -/
structure Processed (format : CellFormat) (cell cell' : Cell) : Prop where
  command : cell'.command = cell.command
  payload : ∀ i (_ : i < cellPayloadSize), ¬ CryptoField format i →
    cell'.payload[i] = cell.payload[i]

/-- The body of the message is in the payload, at the given place. -/
structure Body (p : Payload) (msg : Msg) (offset : ℕ) : Prop where
  le : offset + msg.length.toNat ≤ cellPayloadSize
  bytes : (p.toList.drop offset).take msg.length.toNat = msg.content

theorem Body.written {p out : Payload} {msg : Msg} {rng : ℕ → UInt8} {offset : ℕ}
    (h : offset + msg.content.length ≤ cellPayloadSize)
    (hp : p = relayCellPad rng (writeAt out offset msg.content h) (offset + msg.length.toNat)) :
    Body p msg offset := by
  have hlength := msg.content_length
  constructor
  · omega
  · apply List.ext_getElem
    · simp only [List.length_take, List.length_drop, Vector.length_toList]
      omega
    · intro i hi hi'
      simp only [List.getElem_take, List.getElem_drop, Vector.getElem_toList, hp]
      rw [relayCellPad_before (by omega) (by omega), writeAt_inside (by omega) (by omega)]
      simp

theorem Body.congr {p p' : Payload} {msg : Msg} {offset : ℕ} (hbody : Body p msg offset)
    (hsame : ∀ i (_ : i < cellPayloadSize), offset ≤ i → p'[i] = p[i]) : Body p' msg offset := by
  constructor
  · exact hbody.le
  · rw [← hbody.bytes]
    congr 1
    apply List.ext_getElem
    · simp
    · intro i hi hi'
      simp only [List.length_drop, Vector.length_toList] at hi
      simp only [List.getElem_drop, Vector.getElem_toList]
      exact hsame _ (by omega) (by omega)

/-- Before the body nothing but the header is written. -/
theorem header_getElem {out : Payload} {msg : Msg} {rng : ℕ → UInt8} {offset i : ℕ}
    {h : offset + msg.content.length ≤ cellPayloadSize} (hi : i < cellPayloadSize)
    (hbefore : i < offset) :
    (relayCellPad rng (writeAt out offset msg.content h) (offset + msg.length.toNat))[i] =
      out[i] := by
  rw [relayCellPad_before hi (by omega), writeAt_outside hi (.inl hbefore)]

section V0
variable {rng : ℕ → UInt8} {msg : Msg} {out p : Payload}

/-- The message in a payload of the first format. -/
structure LaidV0 (p : Payload) (msg : Msg) : Prop where
  command : p[0] = msg.command
  streamId : getUint16 p 3 (by decide) = msg.streamId
  length : getUint16 p 9 (by decide) = msg.length
  body : Body p msg 11

theorem encodeV0Cell_laid (hencode : encodeV0Cell rng msg out = some p) : LaidV0 p msg := by
  unfold encodeV0Cell at hencode
  split at hencode
  · cases hencode
  · cases hencode
    constructor
    · rw [header_getElem _ (by decide), setUint16_outside _ (by decide),
        setUint16_outside _ (by decide), setUint8_at]
    · rw [getUint16_congr fun i hi _ hlt => header_getElem hi (by
          simp only [relayHeaderSizeV0]; omega),
        getUint16_congr fun i hi _ hlt => setUint16_outside hi (by omega), getUint16_setUint16]
    · rw [getUint16_congr fun i hi _ hlt => header_getElem hi (by
          simp only [relayHeaderSizeV0]; omega), getUint16_setUint16]
    · exact .written _ rfl

theorem LaidV0.processed {cell cell' : Cell} (hlaid : LaidV0 cell.payload msg)
    (hprocessed : Processed .v0 cell cell') : LaidV0 cell'.payload msg := by
  have hsame : ∀ i (_ : i < cellPayloadSize), ¬ ((1 ≤ i ∧ i < 3) ∨ (5 ≤ i ∧ i < 9)) →
      cell'.payload[i] = cell.payload[i] := hprocessed.payload
  constructor
  · rw [hsame 0 (by decide) (by omega), hlaid.command]
  · rw [getUint16_congr fun i hi _ _ => hsame i hi (by omega), hlaid.streamId]
  · rw [getUint16_congr fun i hi _ _ => hsame i hi (by omega), hlaid.length]
  · exact hlaid.body.congr fun i hi _ => hsame i hi (by omega)

theorem decodeV0Cell_laid {cell : Cell} (hlaid : LaidV0 cell.payload msg) :
    decodeV0Cell cell = some {
      command := msg.command
      length := msg.length
      streamId := msg.streamId
      isRelayEarly := cell.command = cellRelayEarly
      bodyOffset := 11 } := by
  have hle := hlaid.body.le
  unfold decodeV0Cell
  simp only [hlaid.command, hlaid.streamId, hlaid.length]
  rw [if_neg]
  simp only [relayHeaderSizeV0]
  omega

end V0

section V1
variable {rng : ℕ → UInt8} {msg : Msg} {out p : Payload}

/-- Where the second format has the body. -/
def payloadOffsetV1 (cmd : UInt8) : ℕ := if expectsStreamidInV1 cmd then 21 else 19

theorem payloadOffsetV1_le (cmd : UInt8) : payloadOffsetV1 cmd ≤ 21 := by
  unfold payloadOffsetV1
  split_ifs <;> omega

/-- The message in a payload of the second format. -/
structure LaidV1 (p : Payload) (msg : Msg) : Prop where
  command : p[16] = msg.command
  length : getUint16 p 17 (by decide) = msg.length
  streamId : (if expectsStreamidInV1 msg.command then getUint16 p 19 (by decide) else 0) =
    msg.streamId
  body : Body p msg (payloadOffsetV1 msg.command)

theorem encodeV1Cell_laid (hencode : encodeV1Cell rng msg out = some p) : LaidV1 p msg := by
  unfold encodeV1Cell at hencode
  split at hencode
  · cases hencode
  · dsimp only at hencode
    split at hencode
    case isTrue hexpects =>
      split at hencode
      · cases hencode
      · cases hencode
        constructor
        · rw [header_getElem _ (by decide), setUint16_outside _ (by decide),
            setUint16_outside _ (by decide), setUint8_at]
        · rw [getUint16_congr fun i hi _ hlt => header_getElem hi (by omega),
            getUint16_congr fun i hi _ hlt => setUint16_outside hi (by omega),
            getUint16_setUint16]
        · rw [if_pos hexpects, getUint16_congr fun i hi _ hlt => header_getElem hi (by omega),
            getUint16_setUint16]
        · rw [payloadOffsetV1, if_pos hexpects]
          exact .written _ rfl
    case isFalse hexpects =>
      split at hencode
      · cases hencode
      · cases hencode
        constructor
        · rw [header_getElem _ (by decide), setUint16_outside _ (by decide), setUint8_at]
        · rw [getUint16_congr fun i hi _ hlt => header_getElem hi (by omega),
            getUint16_setUint16]
        · rw [if_neg hexpects]
          exact (not_not.mp ‹¬ msg.streamId ≠ 0›).symm
        · rw [payloadOffsetV1, if_neg hexpects]
          exact .written _ rfl

theorem LaidV1.processed {cell cell' : Cell} (hlaid : LaidV1 cell.payload msg)
    (hprocessed : Processed .v1 cell cell') : LaidV1 cell'.payload msg := by
  have hsame : ∀ i (_ : i < cellPayloadSize), ¬ i < 16 → cell'.payload[i] = cell.payload[i] :=
    hprocessed.payload
  constructor
  · rw [hsame 16 (by decide) (by omega), hlaid.command]
  · rw [getUint16_congr fun i hi _ _ => hsame i hi (by omega), hlaid.length]
  · rw [getUint16_congr fun i hi _ _ => hsame i hi (by omega), hlaid.streamId]
  · apply hlaid.body.congr
    intro i hi hle
    apply hsame i hi
    unfold payloadOffsetV1 at hle
    split_ifs at hle <;> omega

theorem decodeV1Cell_laid {cell : Cell} (hlaid : LaidV1 cell.payload msg)
    (hknown : isKnownRelayCommand msg.command) : decodeV1Cell cell = some {
      command := msg.command
      length := msg.length
      streamId := msg.streamId
      isRelayEarly := cell.command = cellRelayEarly
      bodyOffset := payloadOffsetV1 msg.command } := by
  have hle := hlaid.body.le
  unfold decodeV1Cell
  simp only [hlaid.command, hlaid.streamId, hlaid.length, hknown, Bool.not_true,
    Bool.false_eq_true, if_false]
  rw [if_neg]
  · rfl
  · unfold payloadOffsetV1 at hle
    omega

end V1

section RoundTrip
variable {rng : ℕ → UInt8} {format : CellFormat} {msg : Msg}

/-- The stream identifiers that a command may have. -/
def LegalStreamId (format : CellFormat) (cmd : UInt8) (streamId : UInt16) : Prop :=
  format = .v1 → (expectsStreamidInV1 cmd ↔ streamId ≠ 0)

theorem encodeV0Cell_isSome {out : Payload} :
    (encodeV0Cell rng msg out).isSome ↔ msg.length.toNat ≤ maxPayloadSize .v0 msg.command := by
  unfold encodeV0Cell
  split
  case isTrue hlong => simp [hlong]
  case isFalse hfits => simpa using hfits

theorem encodeV1Cell_isSome {out : Payload} :
    (encodeV1Cell rng msg out).isSome ↔ msg.length.toNat ≤ maxPayloadSize .v1 msg.command ∧
      (expectsStreamidInV1 msg.command ↔ msg.streamId ≠ 0) := by
  unfold encodeV1Cell
  by_cases hlong : maxPayloadSize .v1 msg.command < msg.length.toNat
  · simp [hlong, Nat.not_le.mpr hlong]
  · have hfits := Nat.not_lt.mp hlong
    by_cases hexpects : expectsStreamidInV1 msg.command = true
    · by_cases hzero : msg.streamId = 0 <;> simp [hlong, hfits, hexpects, hzero]
    · by_cases hzero : msg.streamId = 0 <;> simp [hlong, hfits, hexpects, hzero]

theorem encodeCell_isSome : (encodeCell rng format msg).isSome ↔
    msg.length.toNat ≤ maxPayloadSize format msg.command ∧
      LegalStreamId format msg.command msg.streamId := by
  cases format with
  | v0 => simp [encodeCell, encodeV0Cell_isSome, LegalStreamId]
  | v1 => simp [encodeCell, encodeV1Cell_isSome, LegalStreamId]

theorem isRelayEarly_encoded {early : Bool} {cell : Cell}
    (hcommand : cell.command = if early then cellRelayEarly else cellRelay) :
    decide (cell.command = cellRelayEarly) = early := by
  cases early <;> simp [hcommand, cellRelayEarly, cellRelay]

theorem decodeCellInPlace_encodeCell {cell cell' : Cell}
    (hknown : format = .v1 → isKnownRelayCommand msg.command)
    (hencode : encodeCell rng format msg = some cell) (hprocessed : Processed format cell cell') :
    ∃ offset, Body cell'.payload msg offset ∧ decodeCellInPlace format cell' = some {
      command := msg.command
      length := msg.length
      streamId := msg.streamId
      isRelayEarly := msg.isRelayEarly
      bodyOffset := offset } := by
  cases format with
  | v0 =>
    obtain ⟨payload, hpayload, rfl⟩ := Option.map_eq_some_iff.mp hencode
    have hlaid := (encodeV0Cell_laid hpayload).processed hprocessed
    have hearly := isRelayEarly_encoded hprocessed.command
    refine ⟨11, hlaid.body, ?_⟩
    rw [decodeCellInPlace, decodeV0Cell_laid hlaid, hearly]
  | v1 =>
    obtain ⟨payload, hpayload, rfl⟩ := Option.map_eq_some_iff.mp hencode
    have hlaid := (encodeV1Cell_laid hpayload).processed hprocessed
    have hearly := isRelayEarly_encoded hprocessed.command
    refine ⟨payloadOffsetV1 msg.command, hlaid.body, ?_⟩
    rw [decodeCellInPlace, decodeV1Cell_laid hlaid (hknown rfl), hearly]

theorem decodeCellInPlace_bounds {cell : Cell} {out : MsgInPlace}
    (hdecode : decodeCellInPlace format cell = some out) :
    out.bodyOffset + out.length.toNat ≤ cellPayloadSize := by
  cases format with
  | v0 =>
    unfold decodeCellInPlace decodeV0Cell at hdecode
    dsimp only at hdecode
    split at hdecode
    · cases hdecode
    · cases hdecode
      simp only [cellPayloadSize, relayHeaderSizeV0] at *
      omega
  | v1 =>
    unfold decodeCellInPlace decodeV1Cell at hdecode
    dsimp only at hdecode
    split at hdecode
    · cases hdecode
    · obtain ⟨hfits, hout⟩ := Option.ite_none_left_eq_some.mp hdecode
      cases hout
      have hle := payloadOffsetV1_le cell.payload[16]
      simp only [cellPayloadSize, payloadOffsetV1] at hfits hle ⊢
      omega

/-- A message that is accepted is decoded from its cell, and a message that is decoded from any
cell has its body in the payload. -/
theorem relay_msg_round_trip (format : CellFormat) (rng : ℕ → UInt8) :
    (∀ msg, (encodeCell rng format msg).isSome ↔
      msg.length.toNat ≤ maxPayloadSize format msg.command ∧
        LegalStreamId format msg.command msg.streamId) ∧
    (∀ msg cell cell', (format = .v1 → isKnownRelayCommand msg.command) →
      encodeCell rng format msg = some cell → Processed format cell cell' →
      ∃ out, decodeCellInPlace format cell' = some out ∧ out.command = msg.command ∧
        out.streamId = msg.streamId ∧ out.length = msg.length ∧
        out.isRelayEarly = msg.isRelayEarly ∧ out.content cell' = msg.content) ∧
    ∀ cell out, decodeCellInPlace format cell = some out →
      out.bodyOffset + out.length.toNat ≤ cellPayloadSize ∧
        (out.content cell).length = out.length.toNat := by
  refine ⟨fun msg => encodeCell_isSome, ?_, ?_⟩
  · intro msg cell cell' hknown hencode hprocessed
    obtain ⟨offset, hbody, hdecode⟩ := decodeCellInPlace_encodeCell hknown hencode hprocessed
    exact ⟨_, hdecode, rfl, rfl, rfl, rfl, hbody.bytes⟩
  · intro cell out hdecode
    have hle := decodeCellInPlace_bounds hdecode
    refine ⟨hle, ?_⟩
    simp only [MsgInPlace.content, List.length_take, List.length_drop, Vector.length_toList]
    omega

/-- A BEGIN message with a body of three bytes. -/
def beginMessage : Msg := ⟨Command.begin, 3, 5, false, [97, 58, 0], by decide⟩

theorem relay_msg_round_trip_begin : ∃ cell out,
    encodeCell (fun _ => 7) .v1 beginMessage = some cell ∧ decodeCellInPlace .v1 cell = some out ∧
      out.streamId = 5 ∧ out.content cell = [97, 58, 0] := by
  obtain ⟨haccepts, hround, -⟩ := relay_msg_round_trip .v1 fun _ => 7
  obtain ⟨cell, hcell⟩ := Option.isSome_iff_exists.mp <|
    (haccepts beginMessage).mpr ⟨by decide, fun _ => by decide⟩
  obtain ⟨out, hdecode, -, hstream, -, -, hcontent⟩ :=
    hround beginMessage cell cell (fun _ => by decide) hcell ⟨rfl, fun _ _ _ => rfl⟩
  exact ⟨cell, out, hcell, hdecode, hstream, hcontent⟩

end RoundTrip

end TorDaemon.Relay

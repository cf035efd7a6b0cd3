import TorDaemon.Relay.Codec
import TorDaemon.Relay.Extend2Body
import TorDaemon.SharedRandom.Protocol

/-! Cells that create circuits, and the messages that extend them (`onion.c`). An error is
`Except.error`, and a failed assertion, or a read outside of an array, is `none`. -/
namespace TorDaemon.Relay.HandshakeCells
open Library.NetworkOrder Policies Extend2Body

def cellCreate : UInt8 := 1

def cellCreated : UInt8 := 2

def cellCreateFast : UInt8 := 5

def cellCreatedFast : UInt8 := 6

def cellCreate2 : UInt8 := 10

def cellCreated2 : UInt8 := 11

def onionHandshakeTypeTap : UInt16 := 0

def onionHandshakeTypeFast : UInt16 := 1

def onionHandshakeTypeNtor : UInt16 := 2

def onionHandshakeTypeNtorV3 : UInt16 := 3

def digestLen : ℕ := 20

def createFastLen : ℕ := digestLen

def createdFastLen : ℕ := digestLen * 2

def ntorOnionskinLen : ℕ := 84

def maxCreateLen : ℕ := cellPayloadSize - 4

def maxCreatedLen : ℕ := cellPayloadSize - 2

/-- An array of zeros after a copy to its start. -/
def copied (n : ℕ) (bytes : Bytes) (_ : bytes.length ≤ n) : Vector UInt8 n :=
  Vector.ofFn fun i => bytes.getD i.val 0

structure CreateCell where
  cellType : UInt8
  handshakeType : UInt16
  handshakeLen : UInt16
  onionskin : Vector UInt8 maxCreateLen

/-- The bytes of the onionskin that are used. -/
def CreateCell.data (c : CreateCell) : Bytes := c.onionskin.toList.take c.handshakeLen.toNat

structure CreatedCell where
  cellType : UInt8
  handshakeLen : UInt16
  reply : Vector UInt8 maxCreatedLen

/-- The bytes of the reply that are used. -/
def CreatedCell.data (c : CreatedCell) : Bytes := c.reply.toList.take c.handshakeLen.toNat

structure TorAddrPort where
  addr : TorAddr
  port : UInt16
  deriving DecidableEq

/-- `tor_addr_port_is_valid_ap`, of an address that is not for listening -/
def TorAddrPort.isValid (ap : TorAddrPort) : Bool := ! ap.addr.isNull ∧ ap.port ≠ 0

/-- `extend_cell_t`. The field for an IPv4 address holds no IPv6 address, nor the other one an
IPv4 address. -/
structure ExtendCell where
  cellType : UInt8
  orportIpv4 : TorAddrPort
  orportIpv6 : TorAddrPort
  nodeId : Rsa1024Id
  edPubkey : Ed25519PublicKey
  createCell : CreateCell
  ipv4_family : orportIpv4.addr.family ≠ .inet6
  ipv6_family : orportIpv6.addr.family ≠ .inet

structure ExtendedCell where
  cellType : UInt8
  createdCell : CreatedCell

section Create

def checkCreateCell (cell : CreateCell) (unknownOk : Bool) : Bool :=
  (if cell.cellType = cellCreate then false
    else if cell.cellType = cellCreateFast then cell.handshakeType = onionHandshakeTypeFast
    else cell.cellType = cellCreate2) &&
  if cell.handshakeType = onionHandshakeTypeTap then false
  else if cell.handshakeType = onionHandshakeTypeFast then
    cell.handshakeLen.toNat = createFastLen
  else if cell.handshakeType = onionHandshakeTypeNtor then
    cell.handshakeLen.toNat = ntorOnionskinLen
  else if cell.handshakeType = onionHandshakeTypeNtorV3 then true
  else unknownOk

def createCellInit (cellType : UInt8) (handshakeType handshakeLen : UInt16) (onionskin : Bytes)
    (h : handshakeLen.toNat ≤ maxCreateLen) : CreateCell where
  cellType := cellType
  handshakeType := handshakeType
  handshakeLen := handshakeLen
  onionskin := copied maxCreateLen (onionskin.take handshakeLen.toNat)
    ((List.length_take_le _ _).trans h)

/-- `parse_create2_payload`, of the payload of a cell; `none` is an error. -/
def parseCreate2Payload (p : Payload) : Option CreateCell :=
  let handshakeType := getUint16 p 0 (by decide)
  let handshakeLen := getUint16 p 2 (by decide)
  if h : handshakeLen.toNat ≤ maxCreateLen ∧ handshakeLen.toNat ≤ cellPayloadSize - 4 then
    if handshakeType = onionHandshakeTypeFast then none
    else some (createCellInit cellCreate2 handshakeType handshakeLen (p.toList.drop 4) h.1)
  else none

/-- `create_cell_parse`; `none` is an error. -/
def createCellParse (cell : Cell) : Option CreateCell :=
  let parsed :=
    if cell.command = cellCreate then none
    else if cell.command = cellCreateFast then
      some (createCellInit cellCreateFast onionHandshakeTypeFast 20 cell.payload.toList (by decide))
    else if cell.command = cellCreate2 then parseCreate2Payload cell.payload
    else none
  parsed.filter fun c => checkCreateCell c false

/-- The bytes that are copied out of an array of `n`, unless it ends before. -/
def readArray {n : ℕ} (a : Vector UInt8 n) (len : ℕ) : Option { b : Bytes // b.length = len } :=
  if h : len ≤ n then some ⟨a.toList.take len, by simp [h]⟩ else none

/-- A copy into the payload, with the assertion that it fits. -/
def store (p : Payload) (offset : ℕ) (bytes : Bytes) : Option Payload :=
  if h : offset + bytes.length ≤ cellPayloadSize then some (writeAt p offset bytes h) else none

def ntorCreateMagic : Bytes := SharedRandom.ascii "ntorNTORntorNTOR"

/-- `create_cell_format_impl`, into a cell that has been used for something else. -/
def createCellFormatImpl (cellOut : Cell) (cellIn : CreateCell) (relayed : Bool) :
    Option (Except Unit Cell) :=
  if ! checkCreateCell cellIn relayed then some (.error ())
  else
    let payload := Vector.replicate cellPayloadSize 0
    if cellIn.cellType = cellCreate then
      if cellIn.handshakeType = onionHandshakeTypeNtorV3 then some (.error ())
      else do
        let data ← readArray cellIn.onionskin cellIn.handshakeLen.toNat
        let magic := if cellIn.handshakeType = onionHandshakeTypeNtor then ntorCreateMagic else []
        let payload ← store payload 0 (magic ++ data.val)
        return .ok { cellOut with command := cellIn.cellType, payload }
    else if cellIn.cellType = cellCreateFast then do
      let data ← readArray cellIn.onionskin cellIn.handshakeLen.toNat
      let payload ← store payload 0 data.val
      return .ok { cellOut with command := cellIn.cellType, payload }
    else if cellIn.cellType = cellCreate2 then do
      let data ← readArray cellIn.onionskin cellIn.handshakeLen.toNat
      let payload := setUint16 payload 0 cellIn.handshakeType (by decide)
      let payload := setUint16 payload 2 cellIn.handshakeLen (by decide)
      let payload ← store payload 4 data.val
      return .ok { cellOut with command := cellIn.cellType, payload }
    else some (.error ())

def createCellFormatRelayed (cellOut : Cell) (cellIn : CreateCell) : Option (Except Unit Cell) :=
  createCellFormatImpl cellOut cellIn true

end Create

section Created

def checkCreatedCell (cell : CreatedCell) : Bool :=
  if cell.cellType = cellCreated then false
  else if cell.cellType = cellCreatedFast then cell.handshakeLen.toNat = createdFastLen
  else if cell.cellType = cellCreated2 then cell.handshakeLen.toNat ≤ relayPayloadSizeMax - 2
  else true

/-- `created_cell_parse`; `none` is an error. -/
def createdCellParse (cell : Cell) : Option CreatedCell :=
  let parsed :=
    if cell.command = cellCreated then none
    else if cell.command = cellCreatedFast then
      some ⟨cellCreatedFast, 40,
        copied maxCreatedLen (cell.payload.toList.take createdFastLen)
          ((List.length_take_le _ _).trans (by decide))⟩
    else if cell.command = cellCreated2 then
      let handshakeLen := getUint16 cell.payload 0 (by decide)
      if h : handshakeLen.toNat ≤ maxCreatedLen then
        some ⟨cellCreated2, handshakeLen,
          copied maxCreatedLen ((cell.payload.toList.drop 2).take handshakeLen.toNat)
            ((List.length_take_le _ _).trans h)⟩
      else none
    else some ⟨0, 0, Vector.replicate maxCreatedLen 0⟩
  parsed.filter checkCreatedCell

def checkExtendedCell (cell : ExtendedCell) : Bool :=
  (if cell.createdCell.cellType = cellCreated then cell.cellType = Command.extended
    else if cell.createdCell.cellType = cellCreated2 then cell.cellType = Command.extended2
    else false) && checkCreatedCell cell.createdCell

theorem relayPayloadSizeMax_le {n : ℕ} (h : n ≤ relayPayloadSizeMax - 2) : n ≤ maxCreatedLen :=
  h.trans (by decide)

/-- `extended_cell_parse`; `none` is an error. -/
def extendedCellParse (command : UInt8) (payload : Bytes) : Option ExtendedCell :=
  let parsed :=
    if relayPayloadSizeMax < payload.length then none
    else if command = Command.extended then none
    else if command = Command.extended2 then
      if payload.length < 2 then none
      else
        let handshakeLen := UInt16.ofNat (ofBigEndian (payload.take 2))
        if h : handshakeLen.toNat ≤ relayPayloadSizeMax - 2 ∧
            handshakeLen.toNat ≤ payload.length - 2 then
          some ⟨Command.extended2, cellCreated2, handshakeLen,
            copied maxCreatedLen ((payload.drop 2).take handshakeLen.toNat)
              ((List.length_take_le _ _).trans (relayPayloadSizeMax_le h.1))⟩
        else none
    else none
  parsed.filter checkExtendedCell

/-- `extended_cell_format`, with the command and the bytes of the message. -/
def extendedCellFormat (cellIn : ExtendedCell) : Option (Except Unit (UInt8 × Bytes)) :=
  if ! checkExtendedCell cellIn then some (.error ())
  else if cellIn.cellType = Command.extended then some (.error ())
  else if cellIn.cellType = Command.extended2 then
    if relayPayloadSizeMax - 2 < cellIn.createdCell.handshakeLen.toNat then some (.error ())
    else do
      let data ← readArray cellIn.createdCell.reply cellIn.createdCell.handshakeLen.toNat
      return .ok (Command.extended2,
        bigEndian 2 cellIn.createdCell.handshakeLen.toNat ++ data.val)
  else some (.error ())

/-- The message in which a relay sends a created cell on (`command_process_created_cell`). -/
def extendedOf (created : CreatedCell) : ExtendedCell where
  cellType := if created.cellType = cellCreated2 then Command.extended2 else Command.extended
  createdCell := created

end Created

section Extend

def checkExtendCell (cell : ExtendCell) : Bool :=
  if cell.nodeId.val.all (· = 0) then false
  else if ! cell.orportIpv4.isValid ∧
      (cell.cellType ≠ Command.extend2 ∨ ! cell.orportIpv6.isValid) then false
  else if cell.createCell.cellType = cellCreate then false
  else if cell.createCell.cellType = cellCreate2 then
    if cell.cellType ≠ Command.extend2 then false
    else if cell.createCell.handshakeType = onionHandshakeTypeFast ∨
        cell.createCell.handshakeType = onionHandshakeTypeTap then false
    else checkCreateCell cell.createCell true
  else false

/-- `create_cell_from_create2_cell_body`; `none` is an error. -/
def createCellFromCreate2CellBody (body : Create2Body) : Option CreateCell :=
  if h : body.handshakeLen.toNat ≤ maxCreateLen then
    some (createCellInit cellCreate2 body.handshakeType body.handshakeLen body.handshakeData h)
  else none

/-- What the link specifiers have given so far. -/
structure Found where
  ipv4 : Option (BitVec 32 × UInt16)
  ipv6 : Option (In6Addr × UInt16)
  rsaId : Option Rsa1024Id
  edId : Option Ed25519PublicKey

/-- One link specifier in `extend_cell_from_extend2_cell_body`: of addresses the first one counts,
and an identity may not come twice. -/
def Found.add (f : Found) : LinkSpecifier → Option Found
  | .ipv4 addr port => if f.ipv4.isSome then some f else some { f with ipv4 := some (addr, port) }
  | .ipv6 addr port => if f.ipv6.isSome then some f else some { f with ipv6 := some (addr, port) }
  | .legacyId id => if f.rsaId.isSome then none else some { f with rsaId := some id }
  | .ed25519Id id => if f.edId.isSome then none else some { f with edId := some id }
  | .unrecognized _ _ _ _ => some f

def zeroKey : Ed25519PublicKey := ⟨List.replicate 32 0, List.length_replicate⟩

/-- An address that a link specifier gave, or the unspecified one. -/
def Found.orportIpv4 (f : Found) : TorAddrPort :=
  (f.ipv4.map fun ap => ⟨.inet ap.1, ap.2⟩).getD ⟨.unspec, 0⟩

def Found.orportIpv6 (f : Found) : TorAddrPort :=
  (f.ipv6.map fun ap => ⟨.inet6 ap.1, ap.2⟩).getD ⟨.unspec, 0⟩

theorem Found.ipv4_family (f : Found) : f.orportIpv4.addr.family ≠ .inet6 := by
  cases hfound : f.ipv4 <;> simp [orportIpv4, hfound, TorAddr.family]

theorem Found.ipv6_family (f : Found) : f.orportIpv6.addr.family ≠ .inet := by
  cases hfound : f.ipv6 <;> simp [orportIpv6, hfound, TorAddr.family]

/-- `extend_cell_from_extend2_cell_body`; `none` is an error. -/
def extendCellFromExtend2CellBody (body : Extend2CellBody) : Option ExtendCell := do
  let f ← body.ls.foldlM Found.add ⟨none, none, none, none⟩
  let nodeId ← f.rsaId
  if f.ipv4.isNone ∧ f.ipv6.isNone then none
  else
    (createCellFromCreate2CellBody body.create2).map fun createCell => {
      cellType := Command.extend2
      orportIpv4 := f.orportIpv4
      orportIpv6 := f.orportIpv6
      nodeId := nodeId
      edPubkey := f.edId.getD zeroKey
      createCell := createCell
      ipv4_family := f.ipv4_family
      ipv6_family := f.ipv6_family }

/-- `extend_cell_parse`; `none` is an error. -/
def extendCellParse (command : UInt8) (payload : Bytes) : Option ExtendCell :=
  let parsed :=
    if relayPayloadSizeMax < payload.length then none
    else if command = Command.extend then none
    else if command = Command.extend2 then
      (extend2CellBodyParse payload).bind fun body => extendCellFromExtend2CellBody body.1
    else none
  parsed.filter checkExtendCell

def torAddrToIpv4h : TorAddr → BitVec 32
  | .inet addr => addr
  | _ => 0

def torAddrCopyIpv6Bytes : TorAddr → In6Addr
  | .inet6 addr => addr
  | _ => ⟨List.replicate 16 0, zeros_length⟩

/-- The link specifiers of `extend_cell_format`. -/
def linkSpecifiers (includeEd25519 : Bool) (cell : ExtendCell) : List LinkSpecifier :=
  (if cell.orportIpv4.isValid then
      [.ipv4 (torAddrToIpv4h cell.orportIpv4.addr) cell.orportIpv4.port] else []) ++
    [.legacyId cell.nodeId] ++
    (if includeEd25519 ∧ ! cell.edPubkey.val.all (· = 0) then [.ed25519Id cell.edPubkey] else []) ++
    if cell.orportIpv6.isValid then
      [.ipv6 (torAddrCopyIpv6Bytes cell.orportIpv6.addr) cell.orportIpv6.port] else []

/-- `extend_cell_format`, with the command and the bytes of the message.
`should_include_ed25519_id_extend_cells` says whether the Ed25519 identity is for sending. -/
def extendCellFormat (includeEd25519 : Bool) (cellIn : ExtendCell) :
    Option (Except Unit (UInt8 × Bytes)) :=
  if ! checkExtendCell cellIn then some (.error ())
  else if cellIn.cellType = Command.extend then some (.error ())
  else if cellIn.cellType = Command.extend2 then
    let create := cellIn.createCell
    let ls := linkSpecifiers includeEd25519 cellIn
    (readArray create.onionskin create.handshakeLen.toNat).map fun data =>
      match extend2CellBodyEncode relayPayloadSizeMax
        ⟨UInt8.ofNat ls.length, ls, create.handshakeType, create.handshakeLen, data.val⟩ with
      | none => .error ()
      | some bytes => .ok (Command.extend2, bytes)
  else some (.error ())

end Extend

/-! ### Round trips -/

variable {n : ℕ} {bytes : Bytes} {p : Payload} {c c' : CreateCell} {body : Extend2CellBody}
  {ec : ExtendCell} {cell : Cell} {created : CreatedCell}

/-- The two cells ask for one handshake. -/
structure SameCreate (c c' : CreateCell) : Prop where
  cellType : c'.cellType = c.cellType
  handshakeType : c'.handshakeType = c.handshakeType
  handshakeLen : c'.handshakeLen = c.handshakeLen
  data : c'.data = c.data

section Memory

theorem copied_take (h : bytes.length ≤ n) :
    (copied n bytes h).toList.take bytes.length = bytes := by
  apply List.ext_getElem
  · simp [h]
  · intro i hi hi'
    simp [copied, List.getElem_take, hi']

/-- What is copied from a text that is long enough. -/
theorem copied_take_take {len : ℕ} (hlen : len ≤ bytes.length) (h : (bytes.take len).length ≤ n) :
    (copied n (bytes.take len) h).toList.take len = bytes.take len := by
  have hcopied := copied_take h
  rwa [List.length_take, Nat.min_eq_left hlen] at hcopied

theorem writeAt_drop_take {offset : ℕ} (h : offset + bytes.length ≤ cellPayloadSize) :
    ((writeAt p offset bytes h).toList.drop offset).take bytes.length = bytes := by
  apply List.ext_getElem
  · simp
    omega
  · intro i hi hi'
    rw [List.getElem_take, List.getElem_drop, Vector.getElem_toList, writeAt_inside (by omega)
      (by omega)]
    simp

end Memory

section Create

/-- The payload of a CREATE2 cell with a handshake. -/
structure LaidCreate2 (p : Payload) (c : CreateCell) : Prop where
  handshakeType : getUint16 p 0 (by decide) = c.handshakeType
  handshakeLen : getUint16 p 2 (by decide) = c.handshakeLen
  data : (p.toList.drop 4).take c.handshakeLen.toNat = c.data

theorem createCellFormatRelayed_some (hcheck : checkCreateCell c true = true)
    (htype : c.cellType = cellCreate2) (hlen : c.handshakeLen.toNat ≤ maxCreateLen)
    (cellOut : Cell) : ∃ cell, createCellFormatRelayed cellOut c = some (.ok cell) ∧
      cell.command = cellCreate2 ∧ LaidCreate2 cell.payload c := by
  have hdata : c.data.length = c.handshakeLen.toNat := by
    rw [CreateCell.data, List.length_take, Vector.length_toList, Nat.min_eq_left hlen]
  have hfits : 4 + c.data.length ≤ cellPayloadSize := by
    rw [hdata]
    exact Nat.add_le_of_le_sub' (by decide) hlen
  have hread : readArray c.onionskin c.handshakeLen.toNat = some ⟨c.data, hdata⟩ := dif_pos hlen
  have hstore (p : Payload) : store p 4 c.data = some (writeAt p 4 c.data hfits) := dif_pos hfits
  refine ⟨⟨cellOut.circId, c.cellType, writeAt (setUint16 (setUint16
    (Vector.replicate cellPayloadSize 0) 0 c.handshakeType (by decide)) 2 c.handshakeLen
    (by decide)) 4 c.data hfits⟩, ?_, htype, ?_⟩
  · rw [createCellFormatRelayed, createCellFormatImpl, hcheck, Bool.not_true,
      if_neg Bool.false_ne_true, if_neg (by rw [htype]; decide), if_neg (by rw [htype]; decide),
      if_pos htype, hread]
    simp [hstore]
  · constructor
    · rw [getUint16_congr fun i hi _ hlt => writeAt_outside hi (.inl (by omega)),
        getUint16_congr fun i hi _ hlt => setUint16_outside hi (by omega), getUint16_setUint16]
    · rw [getUint16_congr fun i hi _ hlt => writeAt_outside hi (.inl (by omega)),
        getUint16_setUint16]
    · rw [← hdata]
      exact writeAt_drop_take hfits

theorem createCellInit_data {cellType : UInt8} {handshakeType handshakeLen : UInt16}
    {h : handshakeLen.toNat ≤ maxCreateLen} (hlen : handshakeLen.toNat ≤ bytes.length) :
    (createCellInit cellType handshakeType handshakeLen bytes h).data =
      bytes.take handshakeLen.toNat :=
  copied_take_take hlen ((List.length_take_le _ _).trans h)

theorem checkCreateCell_congr (h : SameCreate c c') (unknownOk : Bool) :
    checkCreateCell c' unknownOk = checkCreateCell c unknownOk := by
  simp only [checkCreateCell, h.cellType, h.handshakeType, h.handshakeLen]

/-- Where unknown types are not taken either, only a type can be wrong. -/
theorem checkCreateCell_known (h : checkCreateCell c true = true) :
    checkCreateCell c false = true ∨ (checkCreateCell c false = false ∧
      c.handshakeType ∉ [onionHandshakeTypeNtor, onionHandshakeTypeNtorV3]) := by
  by_cases hknown : c.handshakeType ∈ [onionHandshakeTypeTap, onionHandshakeTypeFast,
      onionHandshakeTypeNtor, onionHandshakeTypeNtorV3]
  · left
    rw [← h]
    unfold checkCreateCell
    congr 1
    split_ifs <;> simp_all
  · right
    simp only [List.mem_cons, List.not_mem_nil, or_false, not_or] at hknown
    simp [checkCreateCell, hknown]

/-- The next relay reads the handshake, unless it does not know its type. -/
theorem createCellParse_laid (hlaid : LaidCreate2 cell.payload c)
    (hcommand : cell.command = cellCreate2) (hcheck : checkCreateCell c true = true)
    (htype : c.cellType = cellCreate2) (hfast : c.handshakeType ≠ onionHandshakeTypeFast)
    (hlen : c.handshakeLen.toNat ≤ maxCreateLen) : (createCellParse cell = none ∧
        c.handshakeType ∉ [onionHandshakeTypeNtor, onionHandshakeTypeNtorV3]) ∨
      ∃ c', createCellParse cell = some c' ∧ SameCreate c c' := by
  have hbytes : c.handshakeLen.toNat ≤ (cell.payload.toList.drop 4).length := by
    rw [List.length_drop, Vector.length_toList]
    exact hlen
  have hparse : parseCreate2Payload cell.payload = some (createCellInit cellCreate2
      c.handshakeType c.handshakeLen (cell.payload.toList.drop 4) hlen) := by
    rw [parseCreate2Payload]
    simp only [hlaid.handshakeType, hlaid.handshakeLen]
    rw [dif_pos ⟨hlen, hlen⟩, if_neg hfast]
  have hsame : SameCreate c (createCellInit cellCreate2 c.handshakeType c.handshakeLen
      (cell.payload.toList.drop 4) hlen) := by
    refine ⟨htype.symm, rfl, rfl, ?_⟩
    rw [createCellInit_data hbytes, hlaid.data]
  rw [createCellParse, if_neg (by rw [hcommand]; decide), if_neg (by rw [hcommand]; decide),
    if_pos hcommand, hparse, Option.filter_some, checkCreateCell_congr hsame]
  rcases checkCreateCell_known hcheck with hknown | ⟨hunknown, htypes⟩
  · rw [hknown, if_pos rfl]
    exact .inr ⟨_, rfl, hsame⟩
  · rw [hunknown, if_neg Bool.false_ne_true]
    exact .inl ⟨rfl, htypes⟩

end Create

section Created

theorem createdCellParse_some (h : createdCellParse cell = some created)
    (hcommand : cell.command = cellCreated2) : created.cellType = cellCreated2 ∧
      created.handshakeLen.toNat ≤ relayPayloadSizeMax - 2 := by
  rw [createdCellParse, if_neg (by rw [hcommand]; decide), if_neg (by rw [hcommand]; decide),
    if_pos hcommand, Option.filter_eq_some_iff] at h
  obtain ⟨hparse, hcheck⟩ := h
  dsimp only at hparse
  split_ifs at hparse with hlen
  cases hparse
  exact ⟨rfl, of_decide_eq_true hcheck⟩

theorem checkExtendedCell_created2 {extended : ExtendedCell}
    (htype : extended.cellType = Command.extended2)
    (hcreated : extended.createdCell.cellType = cellCreated2)
    (hlen : extended.createdCell.handshakeLen.toNat ≤ relayPayloadSizeMax - 2) :
    checkExtendedCell extended = true := by
  have hne : ¬ cellCreated2 = cellCreated ∧ ¬ cellCreated2 = cellCreatedFast := by decide
  simp [checkExtendedCell, checkCreatedCell, htype, hcreated, hlen, hne]

/-- The reply goes back as it came. -/
theorem extendedCellParse_format (htype : created.cellType = cellCreated2)
    (hlen : created.handshakeLen.toNat ≤ relayPayloadSizeMax - 2) :
    ∃ payload extended, extendedCellFormat (extendedOf created) =
        some (.ok (Command.extended2, payload)) ∧
      extendedCellParse Command.extended2 payload = some extended ∧
      extended.createdCell.handshakeLen = created.handshakeLen ∧
      extended.createdCell.data = created.data := by
  have hle := relayPayloadSizeMax_le hlen
  have hdata : created.data.length = created.handshakeLen.toNat := by
    rw [CreatedCell.data, List.length_take, Vector.length_toList, Nat.min_eq_left hle]
  have hread : readArray created.reply created.handshakeLen.toNat = some ⟨created.data, hdata⟩ :=
    dif_pos hle
  have hextended : checkExtendedCell (extendedOf created) = true :=
    checkExtendedCell_created2 (by rw [extendedOf, if_pos htype]) htype hlen
  have hfits : ¬ relayPayloadSizeMax <
      (bigEndian 2 created.handshakeLen.toNat ++ created.data).length := by
    have hmax : 2 ≤ relayPayloadSizeMax := by decide
    rw [List.length_append, bigEndian_length, hdata]
    omega
  have htwo : (bigEndian 2 created.handshakeLen.toNat ++ created.data).take 2 =
      bigEndian 2 created.handshakeLen.toNat :=
    List.take_left' (bigEndian_length 2 _)
  have hrest : (bigEndian 2 created.handshakeLen.toNat ++ created.data).drop 2 = created.data :=
    List.drop_left' (bigEndian_length 2 _)
  have hlenRead : UInt16.ofNat (ofBigEndian (bigEndian 2 created.handshakeLen.toNat)) =
      created.handshakeLen := by
    have hlt := created.handshakeLen.toNat_lt
    rw [ofBigEndian_bigEndian, Nat.mod_eq_of_lt (by omega), UInt16.ofNat_toNat]
  refine ⟨bigEndian 2 created.handshakeLen.toNat ++ created.data, ⟨Command.extended2, cellCreated2,
    created.handshakeLen, copied maxCreatedLen (created.data.take created.handshakeLen.toNat)
    ((List.length_take_le _ _).trans hle)⟩, ?_, ?_, rfl, ?_⟩
  · rw [extendedCellFormat, hextended, Bool.not_true, if_neg Bool.false_ne_true]
    simp only [extendedOf, htype, hread]
    rw [if_neg (by decide), if_pos (by decide), if_neg (Nat.not_lt.mpr hlen)]
    rfl
  · rw [extendedCellParse, if_neg hfits, if_neg (by decide), if_pos rfl, if_neg (by
      rw [List.length_append, bigEndian_length]
      omega), Option.filter_eq_some_iff]
    simp only [htwo, hrest, hlenRead]
    rw [dif_pos ⟨hlen, by rw [List.length_append, bigEndian_length, hdata]; omega⟩]
    exact ⟨rfl, checkExtendedCell_created2 rfl rfl hlen⟩
  · rw [CreatedCell.data, copied_take_take hdata.ge]
    exact List.take_of_length_le hdata.le

end Created

section Extend
variable {includeEd25519 : Bool} {ec' : ExtendCell} {command : UInt8}

/-- The two messages extend to one relay with one handshake. The Ed25519 identity is compared
where it is for sending. -/
structure SameExtend (includeEd25519 : Bool) (ec ec' : ExtendCell) : Prop where
  nodeId : ec'.nodeId = ec.nodeId
  edPubkey : includeEd25519 = true → ec'.edPubkey = ec.edPubkey
  ipv4_valid : ec'.orportIpv4.isValid = ec.orportIpv4.isValid
  ipv4 : ec.orportIpv4.isValid = true → ec'.orportIpv4 = ec.orportIpv4
  ipv6_valid : ec'.orportIpv6.isValid = ec.orportIpv6.isValid
  ipv6 : ec.orportIpv6.isValid = true → ec'.orportIpv6 = ec.orportIpv6
  createCell : SameCreate ec.createCell ec'.createCell

theorem checkExtendCell_create (h : checkExtendCell ec = true) :
    ec.createCell.cellType = cellCreate2 ∧
      ec.createCell.handshakeType ≠ onionHandshakeTypeFast ∧
      checkCreateCell ec.createCell true = true := by
  rw [checkExtendCell] at h
  split_ifs at h with _ _ _ htype _ hfast
  rw [not_or] at hfast
  exact ⟨htype, hfast.1, h⟩

theorem checkExtendCell_congr (h : SameExtend includeEd25519 ec ec')
    (hcellType : ec'.cellType = ec.cellType) : checkExtendCell ec' = checkExtendCell ec := by
  simp only [checkExtendCell, h.nodeId, h.ipv4_valid, h.ipv6_valid, hcellType,
    h.createCell.cellType, h.createCell.handshakeType, checkCreateCell_congr h.createCell]

theorem extendCellParse_some (h : extendCellParse command bytes = some ec) :
    checkExtendCell ec = true ∧ ec.createCell.handshakeLen.toNat ≤ maxCreateLen := by
  rw [extendCellParse, Option.filter_eq_some_iff] at h
  obtain ⟨hparse, hcheck⟩ := h
  refine ⟨hcheck, ?_⟩
  split_ifs at hparse
  obtain ⟨body, -, hcell⟩ := Option.bind_eq_some_iff.mp hparse
  simp only [extendCellFromExtend2CellBody, Option.bind_eq_bind, Option.bind_eq_some_iff] at hcell
  obtain ⟨f, -, nodeId, -, hcell⟩ := hcell
  split_ifs at hcell
  obtain ⟨createCell, hcreate, rfl⟩ := Option.map_eq_some_iff.mp hcell
  rw [createCellFromCreate2CellBody] at hcreate
  split_ifs at hcreate with hlen
  cases hcreate
  exact hlen

theorem linkSpecifiers_found (includeEd25519 : Bool) (ec : ExtendCell) :
    (linkSpecifiers includeEd25519 ec).foldlM Found.add ⟨none, none, none, none⟩ = some {
      ipv4 := if ec.orportIpv4.isValid then
        some (torAddrToIpv4h ec.orportIpv4.addr, ec.orportIpv4.port) else none
      ipv6 := if ec.orportIpv6.isValid then
        some (torAddrCopyIpv6Bytes ec.orportIpv6.addr, ec.orportIpv6.port) else none
      rsaId := some ec.nodeId
      edId := if includeEd25519 ∧ ! ec.edPubkey.val.all (· = 0) then some ec.edPubkey else none } := by
  unfold linkSpecifiers
  split_ifs <;> rfl

theorem torAddrPort_ipv4 {ap : TorAddrPort} (hfamily : ap.addr.family ≠ .inet6)
    (hvalid : ap.isValid = true) : ⟨.inet (torAddrToIpv4h ap.addr), ap.port⟩ = ap := by
  obtain ⟨addr, port⟩ := ap
  cases addr with
  | unspec => simp [TorAddrPort.isValid, TorAddr.isNull] at hvalid
  | inet addr => rfl
  | inet6 addr => exact absurd rfl hfamily

theorem torAddrPort_ipv6 {ap : TorAddrPort} (hfamily : ap.addr.family ≠ .inet)
    (hvalid : ap.isValid = true) : ⟨.inet6 (torAddrCopyIpv6Bytes ap.addr), ap.port⟩ = ap := by
  obtain ⟨addr, port⟩ := ap
  cases addr with
  | unspec => simp [TorAddrPort.isValid, TorAddr.isNull] at hvalid
  | inet addr => exact absurd rfl hfamily
  | inet6 addr => rfl

theorem eq_zeroKey {key : Ed25519PublicKey} (h : key.val.all (· = 0) = true) : key = zeroKey := by
  apply Subtype.ext
  exact List.eq_replicate_iff.mpr ⟨key.property, by simpa using h⟩

/-- The message that was sent, as the parser makes it again. -/
theorem extendCellFromExtend2CellBody_format (includeEd25519 : Bool)
    (hcheck : checkExtendCell ec = true)
    (hlen : ec.createCell.handshakeLen.toNat ≤ maxCreateLen) (nSpec : UInt8) :
    ∃ ec', extendCellFromExtend2CellBody ⟨nSpec, linkSpecifiers includeEd25519 ec,
        ec.createCell.handshakeType, ec.createCell.handshakeLen, ec.createCell.data⟩ = some ec' ∧
      ec'.cellType = Command.extend2 ∧ SameExtend includeEd25519 ec ec' := by
  have hdata : ec.createCell.data.length = ec.createCell.handshakeLen.toNat := by
    rw [CreateCell.data, List.length_take, Vector.length_toList, Nat.min_eq_left hlen]
  obtain ⟨htype, -, -⟩ := checkExtendCell_create hcheck
  have hcreate : SameCreate ec.createCell (createCellInit cellCreate2 ec.createCell.handshakeType
      ec.createCell.handshakeLen ec.createCell.data hlen) := by
    refine ⟨htype.symm, rfl, rfl, ?_⟩
    rw [createCellInit_data hdata.ge]
    exact List.take_of_length_le hdata.le
  have hvalid : ec.orportIpv4.isValid = true ∨ ec.orportIpv6.isValid = true := by
    rw [checkExtendCell] at hcheck
    split_ifs at hcheck with _ hinvalid
    simp only [Bool.not_eq_true', not_and_or, not_or, Bool.not_eq_false] at hinvalid
    rcases hinvalid with hipv4 | ⟨-, hipv6⟩
    · exact .inl hipv4
    · exact .inr hipv6
  have hunspec : TorAddrPort.isValid ⟨.unspec, 0⟩ = false := rfl
  rw [extendCellFromExtend2CellBody, linkSpecifiers_found]
  simp only [Option.bind_eq_bind, Option.bind_some, createCellFromCreate2CellBody, dif_pos hlen,
    Option.map_some]
  rw [if_neg (by rcases hvalid with hvalid | hvalid <;> simp [hvalid])]
  refine ⟨_, rfl, rfl, rfl, ?_, ?_, ?_, ?_, ?_, hcreate⟩
  · rintro rfl
    cases hzero : ec.edPubkey.val.all (· = 0) with
    | true => simp [eq_zeroKey hzero]
    | false => simp
  · cases hipv4 : ec.orportIpv4.isValid with
    | true => simp [Found.orportIpv4, hipv4, torAddrPort_ipv4 ec.ipv4_family hipv4]
    | false => simp [Found.orportIpv4, hunspec]
  · intro hipv4
    simp [Found.orportIpv4, hipv4, torAddrPort_ipv4 ec.ipv4_family hipv4]
  · cases hipv6 : ec.orportIpv6.isValid with
    | true => simp [Found.orportIpv6, hipv6, torAddrPort_ipv6 ec.ipv6_family hipv6]
    | false => simp [Found.orportIpv6, hunspec]
  · intro hipv6
    simp [Found.orportIpv6, hipv6, torAddrPort_ipv6 ec.ipv6_family hipv6]

theorem extendCellFormat_ok
    (h : extendCellFormat includeEd25519 ec = some (.ok (command, bytes))) :
    command = Command.extend2 ∧ ec.cellType = Command.extend2 ∧ checkExtendCell ec = true ∧
      ec.createCell.handshakeLen.toNat ≤ maxCreateLen ∧
      extend2CellBodyEncode relayPayloadSizeMax ⟨UInt8.ofNat
        (linkSpecifiers includeEd25519 ec).length, linkSpecifiers includeEd25519 ec,
        ec.createCell.handshakeType, ec.createCell.handshakeLen, ec.createCell.data⟩ =
          some bytes := by
  rw [extendCellFormat] at h
  by_cases hcheck : checkExtendCell ec = true
  · rw [hcheck, Bool.not_true, if_neg Bool.false_ne_true] at h
    split_ifs at h with hextend hextend2
    · cases h
    · obtain ⟨data, hread, hencoded⟩ := Option.map_eq_some_iff.mp h
      rw [readArray] at hread
      split_ifs at hread with hlen
      cases hread
      cases hencode : extend2CellBodyEncode relayPayloadSizeMax ⟨UInt8.ofNat
          (linkSpecifiers includeEd25519 ec).length, linkSpecifiers includeEd25519 ec,
          ec.createCell.handshakeType, ec.createCell.handshakeLen, ec.createCell.data⟩ with
      | none =>
        simp only [CreateCell.data] at hencode
        rw [hencode] at hencoded
        cases hencoded
      | some written =>
        simp only [CreateCell.data] at hencode
        rw [hencode] at hencoded
        cases Except.ok.inj hencoded
        exact ⟨rfl, hextend2, hcheck, hlen, rfl⟩
    · cases h
  · rw [Bool.not_eq_true] at hcheck
    rw [hcheck] at h
    cases h

theorem extendCellParse_format
    (h : extendCellFormat includeEd25519 ec = some (.ok (command, bytes))) :
    ∃ ec', extendCellParse command bytes = some ec' ∧ SameExtend includeEd25519 ec ec' := by
  obtain ⟨rfl, htype, hcheck, hlen, hencode⟩ := extendCellFormat_ok h
  obtain ⟨ec', hcell, hextend2, hsame⟩ := extendCellFromExtend2CellBody_format includeEd25519 hcheck
    hlen (UInt8.ofNat (linkSpecifiers includeEd25519 ec).length)
  have hparse := @extend2CellBodyParse_encode [] _ _ _ hencode
  rw [List.append_nil] at hparse
  refine ⟨ec', ?_, hsame⟩
  rw [extendCellParse, if_neg (Nat.not_lt.mpr (extend2CellBodyEncode_length hencode)),
    if_neg (by decide), if_pos rfl, hparse, Option.bind_some, hcell, Option.filter_some,
    checkExtendCell_congr hsame (hextend2.trans htype.symm), hcheck, if_pos rfl]

end Extend

/-- Handshakes survive: on the way from an extend message into a create cell and its parser, from
a created cell into an extended message and its parser, and from an extend message to its parser. -/
theorem handshakes_survive (includeEd25519 : Bool) :
    (∀ command payload ec, extendCellParse command payload = some ec →
      ∀ cellOut, ∃ cell, createCellFormatRelayed cellOut ec.createCell = some (.ok cell) ∧
        ((createCellParse cell = none ∧
            ec.createCell.handshakeType ∉ [onionHandshakeTypeNtor, onionHandshakeTypeNtorV3]) ∨
          ∃ c', createCellParse cell = some c' ∧ SameCreate ec.createCell c')) ∧
    (∀ cell created, cell.command = cellCreated2 → createdCellParse cell = some created →
      ∃ payload extended,
        extendedCellFormat (extendedOf created) = some (.ok (Command.extended2, payload)) ∧
        extendedCellParse Command.extended2 payload = some extended ∧
        extended.createdCell.handshakeLen = created.handshakeLen ∧
        extended.createdCell.data = created.data) ∧
    ∀ ec command payload, extendCellFormat includeEd25519 ec = some (.ok (command, payload)) →
      ∃ ec', extendCellParse command payload = some ec' ∧ SameExtend includeEd25519 ec ec' := by
  refine ⟨?_, ?_, fun ec command payload h => extendCellParse_format h⟩
  · intro command payload ec h cellOut
    obtain ⟨hchecked, hlen⟩ := extendCellParse_some h
    obtain ⟨htype, hfast, hcheck⟩ := checkExtendCell_create hchecked
    obtain ⟨cell, hformat, hcommand, hlaid⟩ :=
      createCellFormatRelayed_some hcheck htype hlen cellOut
    exact ⟨cell, hformat, createCellParse_laid hlaid hcommand hcheck htype hfast hlen⟩
  · intro cell created hcommand h
    obtain ⟨htype, hlen⟩ := createdCellParse_some h hcommand
    exact extendedCellParse_format htype hlen

/-- A message with a link specifier of an unknown type, before the identity. -/
def unknownSpecifier : Bytes :=
  [3, 0, 6, 127, 0, 0, 1, 35, 41, 9, 1, 7, 2, 20] ++ List.replicate 20 5 ++ [0, 3, 0, 2, 8, 9]

/-- The reply to it, of two bytes. -/
def createdReply : Cell where
  circId := 1
  command := cellCreated2
  payload := Vector.ofFn fun i => if i.val = 1 then 2 else if i.val = 2 ∨ i.val = 3 then 7 else 0

/-- The relay sends the message on without the unknown specifier. -/
theorem handshakes_survive_unknown_specifier :
    (∃ ec, extendCellParse Command.extend2 unknownSpecifier = some ec ∧
      (∀ cellOut, ∃ cell c', createCellFormatRelayed cellOut ec.createCell = some (.ok cell) ∧
        createCellParse cell = some c' ∧ SameCreate ec.createCell c') ∧
      ∃ payload ec', extendCellFormat true ec = some (.ok (Command.extend2, payload)) ∧
        payload.length < unknownSpecifier.length ∧
        extendCellParse Command.extend2 payload = some ec' ∧ SameExtend true ec ec') ∧
    ∃ created payload extended, createdCellParse createdReply = some created ∧
      extendedCellFormat (extendedOf created) = some (.ok (Command.extended2, payload)) ∧
      extendedCellParse Command.extended2 payload = some extended ∧
      extended.createdCell.data = created.data ∧ created.data = [7, 7] := by
  obtain ⟨hcreate, hcreated, hextend⟩ := handshakes_survive true
  constructor
  · have hrelayed : ((extendCellParse Command.extend2 unknownSpecifier).bind fun ec =>
        (extendCellFormat true ec).bind fun out => (out.toOption.map fun sent =>
          (ec.createCell.handshakeType, sent.2.length))) = some (onionHandshakeTypeNtorV3, 37) := by
      decide +kernel
    obtain ⟨ec, hparse, hformats⟩ := Option.bind_eq_some_iff.mp hrelayed
    obtain ⟨out, hformat, hsent⟩ := Option.bind_eq_some_iff.mp hformats
    obtain ⟨⟨command, payload⟩, hok, hlength⟩ := Option.map_eq_some_iff.mp hsent
    cases out with
    | error => cases hok
    | ok sent =>
      cases hok
      obtain ⟨ec', hparse', hsame⟩ := hextend ec command payload hformat
      obtain ⟨rfl, -⟩ := extendCellFormat_ok hformat
      obtain ⟨htype, hlen⟩ := Prod.mk.inj hlength
      refine ⟨ec, hparse, ?_, payload, ec', hformat, ?_, hparse', hsame⟩
      · intro cellOut
        obtain ⟨cell, hcell, ⟨-, hother⟩ | ⟨c', hc', hsurvives⟩⟩ := hcreate _ _ ec hparse cellOut
        · simp [htype] at hother
        · exact ⟨cell, c', hcell, hc', hsurvives⟩
      · rw [hlen]
        decide
  · have hreply : (createdCellParse createdReply).map CreatedCell.data = some [7, 7] := by
      decide +kernel
    obtain ⟨created, hparse, hdata⟩ := Option.map_eq_some_iff.mp hreply
    obtain ⟨payload, extended, hformat, hparse', -, hsame⟩ := hcreated _ created rfl hparse
    exact ⟨created, payload, extended, hparse, hformat, hparse', hsame, hdata⟩

end TorDaemon.Relay.HandshakeCells

import TorDaemon.Library.Framing
import TorDaemon.Policies.Addresses

/-! The body of an EXTEND2 message: link specifiers and the payload of a CREATE2 cell
(`trunnel/ed25519_cert.c`). Both errors of a parser are `none`. -/
namespace TorDaemon.Relay.Extend2Body
open Library.NetworkOrder Library.Framing Policies

abbrev Rsa1024Id := { b : Bytes // b.length = 20 }

abbrev Ed25519PublicKey := { b : Bytes // b.length = 32 }

/-- `link_specifier_t`: the type and the member of the union that it selects. A specifier of an
unknown type has as many bytes as its length field can count. -/
inductive LinkSpecifier
  | ipv4 (addr : BitVec 32) (port : UInt16)
  | ipv6 (addr : In6Addr) (port : UInt16)
  | legacyId (id : Rsa1024Id)
  | ed25519Id (id : Ed25519PublicKey)
  | unrecognized (lsType : UInt8) (data : Bytes) (_ : 3 < lsType) (_ : data.length < 256)
  deriving DecidableEq

def lsIpv4 : UInt8 := 0

def lsIpv6 : UInt8 := 1

def lsLegacyId : UInt8 := 2

def lsEd25519Id : UInt8 := 3

/-- `create2_cell_body_t` -/
structure Create2Body where
  handshakeType : UInt16
  handshakeLen : UInt16
  handshakeData : Bytes
  deriving DecidableEq

structure Extend2CellBody where
  nSpec : UInt8
  ls : List LinkSpecifier
  create2 : Create2Body
  deriving DecidableEq

section Code

def readUint8 : Bytes → Option (UInt8 × Bytes)
  | b :: l => some (b, l)
  | [] => none

/-- A number of bytes, where they remain. -/
def readBytes (n : ℕ) (l : Bytes) : Option ({ b : Bytes // b.length = n } × Bytes) :=
  if h : n ≤ l.length then some (⟨l.take n, by rw [List.length_take]; omega⟩, l.drop n) else none

def readUint16 (l : Bytes) : Option (UInt16 × Bytes) := do
  let (b, l) ← readBytes 2 l
  return (UInt16.ofNat (ofBigEndian b.val), l)

def readUint32 (l : Bytes) : Option (BitVec 32 × Bytes) := do
  let (b, l) ← readBytes 4 l
  return (BitVec.ofNat 32 (ofBigEndian b.val), l)

theorem unknown_lsType {lsType : UInt8} (h₀ : ¬ lsType = lsIpv4) (h₁ : ¬ lsType = lsIpv6)
    (h₂ : ¬ lsType = lsLegacyId) (h₃ : ¬ lsType = lsEd25519Id) : 3 < lsType := by
  simp only [← UInt8.toNat_inj, lsIpv4, lsIpv6, lsLegacyId, lsEd25519Id, UInt8.lt_iff_toNat_lt]
    at *
  simp only [UInt8.reduceToNat] at *
  omega

/-- The union of a link specifier, out of the bytes that its length counts, with what is left of
them. -/
def linkSpecifierUnion (lsType lsLen : UInt8) (un : { b : Bytes // b.length = lsLen.toNat }) :
    Option (LinkSpecifier × Bytes) :=
  if h₀ : lsType = lsIpv4 then do
    let (addr, l) ← readUint32 un.val
    let (port, l) ← readUint16 l
    return (.ipv4 addr port, l)
  else if h₁ : lsType = lsIpv6 then do
    let (addr, l) ← readBytes 16 un.val
    let (port, l) ← readUint16 l
    return (.ipv6 addr port, l)
  else if h₂ : lsType = lsLegacyId then do
    let (id, l) ← readBytes 20 un.val
    return (.legacyId id, l)
  else if h₃ : lsType = lsEd25519Id then do
    let (id, l) ← readBytes 32 un.val
    return (.ed25519Id id, l)
  else
    some (.unrecognized lsType un.val (unknown_lsType h₀ h₁ h₂ h₃)
      (un.property.trans_lt lsLen.toNat_lt), [])

def linkSpecifierParse (l : Bytes) : Option (LinkSpecifier × Bytes) := do
  let (lsType, l) ← readUint8 l
  let (lsLen, l) ← readUint8 l
  let (un, after) ← readBytes lsLen.toNat l
  let (ls, remaining) ← linkSpecifierUnion lsType lsLen un
  if remaining ≠ [] then none
  return (ls, after)

def create2CellBodyParse (l : Bytes) : Option (Create2Body × Bytes) := do
  let (handshakeType, l) ← readUint16 l
  let (handshakeLen, l) ← readUint16 l
  let (data, l) ← readBytes handshakeLen.toNat l
  return (⟨handshakeType, handshakeLen, data.val⟩, l)

/-- `extend2_cell_body_parse`; bytes that follow the body are left alone. -/
def extend2CellBodyParse (l : Bytes) : Option (Extend2CellBody × Bytes) := do
  let (nSpec, l) ← readUint8 l
  let (ls, l) ← readItems linkSpecifierParse nSpec.toNat l
  let (create2, l) ← create2CellBodyParse l
  return (⟨nSpec, ls, create2⟩, l)

/-- The type of a link specifier and the bytes of its union. -/
def LinkSpecifier.parts : LinkSpecifier → UInt8 × Bytes
  | .ipv4 addr port => (lsIpv4, bigEndian 4 addr.toNat ++ bigEndian 2 port.toNat)
  | .ipv6 addr port => (lsIpv6, addr.val ++ bigEndian 2 port.toNat)
  | .legacyId id => (lsLegacyId, id.val)
  | .ed25519Id id => (lsEd25519Id, id.val)
  | .unrecognized lsType data _ _ => (lsType, data)

/-- `link_specifier_encode`, which writes the length of the union back. -/
def linkSpecifierEncode (ls : LinkSpecifier) : Bytes :=
  ls.parts.1 :: UInt8.ofNat ls.parts.2.length :: ls.parts.2

def create2CellBodyEncode (create2 : Create2Body) : Bytes :=
  bigEndian 2 create2.handshakeType.toNat ++ (bigEndian 2 create2.handshakeLen.toNat ++
    create2.handshakeData)

/-- `extend2_cell_body_check` finds nothing wrong. -/
def extend2CellBodyCheck (body : Extend2CellBody) : Bool :=
  body.ls.length = body.nSpec.toNat ∧
    body.create2.handshakeData.length = body.create2.handshakeLen.toNat

/-- `extend2_cell_body_encode` into `avail` bytes -/
def extend2CellBodyEncode (avail : ℕ) (body : Extend2CellBody) : Option Bytes :=
  let written :=
    body.nSpec :: (body.ls.flatMap linkSpecifierEncode ++ create2CellBodyEncode body.create2)
  if extend2CellBodyCheck body ∧ written.length ≤ avail then some written else none

end Code

section Inverse
variable {rest : Bytes} {body : Extend2CellBody} {bytes : Bytes} {avail n : ℕ}

theorem readBytes_append {b : Bytes} (h : b.length = n) :
    readBytes n (b ++ rest) = some (⟨b, h⟩, rest) := by
  subst h
  rw [readBytes, dif_pos (by rw [List.length_append]; omega)]
  simp

theorem readUint16_bigEndian (v : UInt16) :
    readUint16 (bigEndian 2 v.toNat ++ rest) = some (v, rest) := by
  have hlt := v.toNat_lt
  rw [readUint16, readBytes_append (bigEndian_length 2 _)]
  simp [ofBigEndian_bigEndian, Nat.mod_eq_of_lt hlt]

theorem readUint32_bigEndian (v : BitVec 32) :
    readUint32 (bigEndian 4 v.toNat ++ rest) = some (v, rest) := by
  have hlt := v.isLt
  rw [readUint32, readBytes_append (bigEndian_length 4 _)]
  simp [ofBigEndian_bigEndian, Nat.mod_eq_of_lt hlt]

section
variable (ls : LinkSpecifier)

theorem LinkSpecifier.parts_length : ls.parts.2.length < 256 := by
  cases ls with
  | ipv4 addr port => simp [parts, bigEndian_length]
  | ipv6 addr port => simp [parts, bigEndian_length, addr.property]
  | legacyId id => simp [parts, id.property]
  | ed25519Id id => simp [parts, id.property]
  | unrecognized lsType data _ hlen => exact hlen

theorem linkSpecifierUnion_unknown {lsType lsLen : UInt8}
    (un : { b : Bytes // b.length = lsLen.toNat }) (htype : 3 < lsType)
    (hlen : un.val.length < 256) : linkSpecifierUnion lsType lsLen un =
      some (.unrecognized lsType un.val htype hlen, []) := by
  have hne (k : UInt8) (hk : ¬ 3 < k) : ¬ lsType = k := fun heq => hk (heq ▸ htype)
  rw [linkSpecifierUnion, dif_neg (hne lsIpv4 (by decide)), dif_neg (hne lsIpv6 (by decide)),
    dif_neg (hne lsLegacyId (by decide)), dif_neg (hne lsEd25519Id (by decide))]

/-- The union is read back as a whole. -/
theorem linkSpecifierUnion_parts {lsLen : UInt8} (hlen : ls.parts.2.length = lsLen.toNat) :
    linkSpecifierUnion ls.parts.1 lsLen ⟨ls.parts.2, hlen⟩ = some (ls, []) := by
  cases ls with
  | ipv4 addr port =>
    have hport := @readUint16_bigEndian [] port
    rw [List.append_nil] at hport
    simp [linkSpecifierUnion, LinkSpecifier.parts, readUint32_bigEndian, hport]
  | ipv6 addr port =>
    have hport := @readUint16_bigEndian [] port
    rw [List.append_nil] at hport
    simp [linkSpecifierUnion, LinkSpecifier.parts, lsIpv6, lsIpv4, readBytes_append addr.property,
      hport]
  | legacyId id =>
    have hid := @readBytes_append [] 20 id.val id.property
    rw [List.append_nil] at hid
    simp [linkSpecifierUnion, LinkSpecifier.parts, lsIpv4, lsIpv6, lsLegacyId, hid]
  | ed25519Id id =>
    have hid := @readBytes_append [] 32 id.val id.property
    rw [List.append_nil] at hid
    simp [linkSpecifierUnion, LinkSpecifier.parts, lsIpv4, lsIpv6, lsLegacyId, lsEd25519Id, hid]
  | unrecognized lsType data htype hdata =>
    exact linkSpecifierUnion_unknown ⟨data, hlen⟩ htype hdata

theorem linkSpecifierParse_encode :
    linkSpecifierParse (linkSpecifierEncode ls ++ rest) = some (ls, rest) := by
  have hlen : ls.parts.2.length = (UInt8.ofNat ls.parts.2.length).toNat := by
    rw [UInt8.toNat_ofNat', Nat.mod_eq_of_lt ls.parts_length]
  simp [linkSpecifierParse, linkSpecifierEncode, readUint8, readBytes_append hlen,
    linkSpecifierUnion_parts ls hlen]

end

theorem create2CellBodyParse_encode {create2 : Create2Body}
    (h : create2.handshakeData.length = create2.handshakeLen.toNat) :
    create2CellBodyParse (create2CellBodyEncode create2 ++ rest) = some (create2, rest) := by
  simp [create2CellBodyParse, create2CellBodyEncode, List.append_assoc, readUint16_bigEndian,
    readBytes_append h]

theorem extend2CellBodyParse_encode (h : extend2CellBodyEncode avail body = some bytes) :
    extend2CellBodyParse (bytes ++ rest) = some (body, rest) := by
  rw [extend2CellBodyEncode] at h
  split_ifs at h with hencode
  obtain ⟨hcheck, -⟩ := hencode
  obtain ⟨hspec, hdata⟩ := of_decide_eq_true hcheck
  cases h
  have hls : readItems linkSpecifierParse body.ls.length (body.ls.flatMap linkSpecifierEncode ++
      (create2CellBodyEncode body.create2 ++ rest)) =
      some (body.ls, create2CellBodyEncode body.create2 ++ rest) :=
    readItems_flatMap fun ls _ _ => linkSpecifierParse_encode ls
  rw [hspec] at hls
  simp [extend2CellBodyParse, readUint8, List.append_assoc, hls, create2CellBodyParse_encode hdata]

theorem extend2CellBodyEncode_length (h : extend2CellBodyEncode avail body = some bytes) :
    bytes.length ≤ avail := by
  rw [extend2CellBodyEncode] at h
  split_ifs at h with hencode
  cases h
  exact hencode.2

end Inverse

end TorDaemon.Relay.Extend2Body

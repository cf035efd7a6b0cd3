import TorDaemon.Library.Onion
import TorDaemon.Relay.Codec

/-! The legacy relay cryptography: a stream cipher and a running digest for each direction. -/
namespace TorDaemon.Relay.Tor1
open Library.Keystream Library.Onion Library.NetworkOrder
variable {κ δ : Type*}

def digestLen : ℕ := 20

/-- `sendme_digest`. -/
abbrev Tag := Vector UInt8 digestLen

/-- The stream cipher and the running digest. -/
structure Primitives (κ δ : Type*) where
  keystream : κ → Payload
  advance : κ → κ
  addBytes : δ → Payload → δ
  getDigest : δ → Tag

/-- The cipher and the digest of one direction. -/
structure Half (κ δ : Type*) where
  crypto : κ
  digest : δ

structure Tor1Crypt (κ δ : Type*) where
  f : Half κ δ
  b : Half κ δ
  sendmeDigest : Tag

def v0DigestOffset : ℕ := 5

def v0DigestLen : ℕ := 4

variable (prim : Primitives κ δ)

section Half

/-- The integrity field. -/
def integrity (payload : Payload) : Vector UInt8 v0DigestLen :=
  slice payload v0DigestOffset v0DigestLen (by decide)

def setIntegrity (payload : Payload) (bytes : Vector UInt8 v0DigestLen) : Payload :=
  writeAt payload v0DigestOffset bytes.toList (by rw [Vector.length_toList]; decide)

def noIntegrity : Vector UInt8 v0DigestLen := Vector.replicate v0DigestLen 0

/-- The first bytes of a digest. -/
def integrityOf (digest : Tag) : Vector UInt8 v0DigestLen := slice digest 0 v0DigestLen (by decide)

def setDigestV0 (digest : δ) (payload : Payload) : δ × Payload × Tag :=
  let digest := prim.addBytes digest payload
  let buf := prim.getDigest digest
  (digest, setIntegrity payload (integrityOf buf), buf)

def relayDigestMatchesV0 (digest : δ) (payload : Payload) : δ × Payload × Option Tag :=
  let backupDigest := digest
  let receivedIntegrity := integrity payload
  let payload := setIntegrity payload noIntegrity
  let digest := prim.addBytes digest payload
  let calculatedDigest := prim.getDigest digest
  if integrityOf calculatedDigest ≠ receivedIntegrity then
    (backupDigest, setIntegrity payload receivedIntegrity, none)
  else (digest, payload, some calculatedDigest)

def isRecognizedV0 (payload : Payload) : Bool := getUint16 payload 1 (by decide) == 0

def cryptOnePayload (crypto : κ) (payload : Payload) : κ × Payload :=
  (prim.advance crypto, xorBytes payload (prim.keystream crypto))

/-- A cell that starts here. -/
def Half.originate (half : Half κ δ) (payload : Payload) : Half κ δ × Payload × Tag :=
  let signed := setDigestV0 prim half.digest payload
  let crypted := cryptOnePayload prim half.crypto signed.2.1
  (⟨crypted.1, signed.1⟩, crypted.2, signed.2.2)

/-- A cell that goes by. -/
def Half.pass (half : Half κ δ) (payload : Payload) : Half κ δ × Payload :=
  let crypted := cryptOnePayload prim half.crypto payload
  (⟨crypted.1, half.digest⟩, crypted.2)

/-- A cell that arrives, with the digest of one that is recognized. -/
def Half.receive (half : Half κ δ) (payload : Payload) : Half κ δ × Payload × Option Tag :=
  let crypted := cryptOnePayload prim half.crypto payload
  if isRecognizedV0 crypted.2 then
    let checked := relayDigestMatchesV0 prim half.digest crypted.2
    (⟨crypted.1, checked.1⟩, checked.2)
  else (⟨crypted.1, half.digest⟩, crypted.2, none)

end Half

section Crypt
variable (tor1 : Tor1Crypt κ δ) (cell : Payload)

def Tor1Crypt.clientOriginate : Tor1Crypt κ δ × Payload :=
  let (f, cell, tag) := tor1.f.originate prim cell
  ({ tor1 with f := f, sendmeDigest := tag }, cell)

def Tor1Crypt.relayOriginate : Tor1Crypt κ δ × Payload :=
  let (b, cell, tag) := tor1.b.originate prim cell
  ({ tor1 with b := b, sendmeDigest := tag }, cell)

def Tor1Crypt.clientForward : Tor1Crypt κ δ × Payload :=
  let (f, cell) := tor1.f.pass prim cell
  ({ tor1 with f := f }, cell)

def Tor1Crypt.relayBackward : Tor1Crypt κ δ × Payload :=
  let (b, cell) := tor1.b.pass prim cell
  ({ tor1 with b := b }, cell)

def Tor1Crypt.relayForward : Tor1Crypt κ δ × Payload × Bool :=
  match tor1.f.receive prim cell with
  | (f, cell, some tag) => ({ tor1 with f := f, sendmeDigest := tag }, cell, true)
  | (f, cell, none) => ({ tor1 with f := f }, cell, false)

def Tor1Crypt.clientBackward : Tor1Crypt κ δ × Payload × Bool :=
  match tor1.b.receive prim cell with
  | (b, cell, some tag) => ({ tor1 with b := b, sendmeDigest := tag }, cell, true)
  | (b, cell, none) => ({ tor1 with b := b }, cell, false)

end Crypt

section Sound

/-- The recognized and integrity fields are zero, as they are in a cell that is handed to be
encrypted. -/
structure Fresh (payload : Payload) : Prop where
  recognized : isRecognizedV0 payload
  integrity : integrity payload = noIntegrity

variable {prim : Primitives κ δ} {payload : Payload} {bytes bytes' : Vector UInt8 v0DigestLen}

theorem setIntegrity_inside {i : ℕ} (hi : i < cellPayloadSize)
    (hin : 5 ≤ i ∧ i - 5 < v0DigestLen) : (setIntegrity payload bytes)[i] = bytes[i - 5] := by
  have hlength : bytes.toList.length = 4 := Vector.length_toList
  simp only [v0DigestLen] at hin
  rw [setIntegrity, writeAt_inside hi (by simp only [v0DigestOffset]; omega)]
  simp [v0DigestOffset]

theorem setIntegrity_outside {i : ℕ} (hi : i < cellPayloadSize)
    (hout : ¬ (5 ≤ i ∧ i - 5 < v0DigestLen)) : (setIntegrity payload bytes)[i] = payload[i] := by
  have hlength : bytes.toList.length = 4 := Vector.length_toList
  simp only [v0DigestLen] at hout
  exact writeAt_outside hi (by simp only [v0DigestOffset]; omega)

theorem integrity_setIntegrity : integrity (setIntegrity payload bytes) = bytes := by
  ext i hi
  simp only [integrity, slice, Vector.getElem_ofFn, v0DigestOffset]
  have hin : 5 + i < cellPayloadSize := by
    simp only [v0DigestLen, cellPayloadSize] at hi ⊢
    omega
  rw [setIntegrity_inside hin (by omega)]
  simp

theorem setIntegrity_setIntegrity :
    setIntegrity (setIntegrity payload bytes) bytes' = setIntegrity payload bytes' := by
  ext i hi
  by_cases hin : 5 ≤ i ∧ i - 5 < v0DigestLen
  · rw [setIntegrity_inside hi hin, setIntegrity_inside hi hin]
  · rw [setIntegrity_outside hi hin, setIntegrity_outside hi hin, setIntegrity_outside hi hin]

theorem setIntegrity_integrity : setIntegrity payload (integrity payload) = payload := by
  ext i hi
  by_cases hin : 5 ≤ i ∧ i - 5 < v0DigestLen
  · rw [setIntegrity_inside hi hin]
    simp only [integrity, slice, Vector.getElem_ofFn, v0DigestOffset, Nat.add_sub_cancel' hin.1]
  · rw [setIntegrity_outside hi hin]

theorem isRecognizedV0_setIntegrity :
    isRecognizedV0 (setIntegrity payload bytes) = isRecognizedV0 payload := by
  unfold isRecognizedV0
  rw [getUint16_congr fun i hi _ _ => setIntegrity_outside hi (by omega)]

/-- One direction of a layer. -/
def halfLayer (prim : Primitives κ δ) : Layer (Half κ δ) (Half κ δ) Payload Tag where
  originate := Half.originate prim
  pass := Half.pass prim
  receive := Half.receive prim

theorem relayDigestMatchesV0_signed {digest : δ}
    (hrestored : setIntegrity payload noIntegrity = payload) :
    relayDigestMatchesV0 prim digest (setDigestV0 prim digest payload).2.1 =
      ((setDigestV0 prim digest payload).1, payload,
        some (setDigestV0 prim digest payload).2.2) := by
  unfold relayDigestMatchesV0 setDigestV0
  rw [integrity_setIntegrity, setIntegrity_setIntegrity, hrestored, if_neg (not_not_intro rfl)]

variable (prim) in
/-- What is originated is recognized, with the integrity field zero again. -/
theorem receive_originate (half : Half κ δ) (hfresh : Fresh payload) :
    half.receive prim (half.originate prim payload).2.1 =
      ((half.originate prim payload).1, payload, some (half.originate prim payload).2.2) := by
  have hrestored : setIntegrity payload noIntegrity = payload := by
    rw [← hfresh.integrity, setIntegrity_integrity]
  have hinner : (cryptOnePayload prim half.crypto (half.originate prim payload).2.1).2 =
      (setDigestV0 prim half.digest payload).2.1 := xorBytes_xorBytes _ _
  have hrecognized : isRecognizedV0 (setDigestV0 prim half.digest payload).2.1 = true :=
    isRecognizedV0_setIntegrity.trans hfresh.recognized
  have hfirst : (half.originate prim payload).1 =
      ⟨prim.advance half.crypto, (setDigestV0 prim half.digest payload).1⟩ := rfl
  have htag : (half.originate prim payload).2.2 = (setDigestV0 prim half.digest payload).2.2 := rfl
  rw [Half.receive, hinner, if_pos hrecognized, relayDigestMatchesV0_signed hrestored, hfirst, htag,
    cryptOnePayload]

/-- A cell that is not recognized leaves the digest as it was, and itself is as it was. -/
theorem receive_other {half : Half κ δ} (hother : (half.receive prim payload).2.2 = none) :
    half.receive prim payload = (⟨prim.advance half.crypto, half.digest⟩,
      xorBytes payload (prim.keystream half.crypto), none) := by
  unfold Half.receive at hother ⊢
  by_cases hrecognized : isRecognizedV0 (cryptOnePayload prim half.crypto payload).2 = true
  · simp only [if_pos hrecognized] at hother ⊢
    unfold relayDigestMatchesV0 at hother ⊢
    dsimp only at hother ⊢
    split_ifs at hother ⊢ with hmatch
    rw [setIntegrity_setIntegrity, setIntegrity_integrity]
    rfl
  · simp only [if_neg hrecognized]
    rfl

theorem halfLayer_sound (prim : Primitives κ δ) : Sound (halfLayer prim) Fresh Eq := by
  constructor
  · rintro half _ payload half' outer tag rfl hfresh horiginate
    have hreceive := receive_originate prim half hfresh
    change half.originate prim payload = _ at horiginate
    rw [horiginate] at hreceive
    exact ⟨half', hreceive, rfl⟩
  · rintro half _ payload half' outer rfl hpass hother
    have hreceive := receive_other hother
    cases hpass
    refine ⟨_, hreceive.trans ?_, rfl⟩
    rw [cryptOnePayload, xorBytes_xorBytes]

end Sound

end TorDaemon.Relay.Tor1

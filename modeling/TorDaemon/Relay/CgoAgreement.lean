import TorDaemon.Library.NetworkOrder
import TorDaemon.Library.Onion
import TorDaemon.Library.Reachability

/-! Counter galois onion: a wide-block cipher whose keys change with every cell that is
originated. A client's instance decrypts and a relay's encrypts, which their types say. -/
namespace TorDaemon.Relay.Cgo
open Library.Keystream Library.NetworkOrder Library.Reachability

abbrev Block := Vector UInt8 16

def polyvalKeyLen : ℕ := 16

def etTweakLenXR : ℕ := 493

/-- The payload of a cell, with its first block apart. -/
@[ext] structure CellBody where
  xL : Block
  xR : Vector UInt8 etTweakLenXR

structure Cell where
  command : UInt8
  payload : CellBody

structure UivTweak where
  h : Block
  cmd : UInt8

structure EtTweak where
  uiv : UivTweak
  xR : Vector UInt8 etTweakLenXR

/-- The keys of one layer: for AES, and for the polynomial hash. -/
structure LayerKey (aesBytes : ℕ) where
  k : Vector UInt8 aesBytes
  b : Vector UInt8 polyvalKeyLen

/-- A tweakable permutation of blocks, and a pseudorandom function at two positions. -/
structure Primitives (aesBytes : ℕ) where
  etEncrypt : LayerKey aesBytes → EtTweak → Block → Block
  etDecrypt : LayerKey aesBytes → EtTweak → Block → Block
  etDecrypt_etEncrypt : ∀ key tweak block, etDecrypt key tweak (etEncrypt key tweak block) = block
  etEncrypt_etDecrypt : ∀ key tweak block, etEncrypt key tweak (etDecrypt key tweak block) = block
  prfT0 : LayerKey aesBytes → Block → Vector UInt8 etTweakLenXR
  prfT1 : LayerKey aesBytes → Block → (n : ℕ) → Vector UInt8 n

section Layers
variable {aesBytes : ℕ} (aesEncrypt aesDecrypt : Vector UInt8 aesBytes → Block → Block)
  (aesCtr : Vector UInt8 aesBytes → Block → (n : ℕ) → Vector UInt8 n)
  (polyval : Vector UInt8 polyvalKeyLen → Bytes → Block)

def computeEtMask (ku : Vector UInt8 polyvalKeyLen) (tweak : EtTweak) : Block :=
  polyval ku (tweak.uiv.h.toList ++ tweak.uiv.cmd :: tweak.xR.toList ++
    List.replicate (15 - (etTweakLenXR - 15 - 1) % 16) 0)

def etEncrypt (et : LayerKey aesBytes) (tweak : EtTweak) (block : Block) : Block :=
  let mask := computeEtMask polyval et.b tweak
  xorBytes (aesEncrypt et.k (xorBytes block mask)) mask

def etDecrypt (et : LayerKey aesBytes) (tweak : EtTweak) (block : Block) : Block :=
  let mask := computeEtMask polyval et.b tweak
  xorBytes (aesDecrypt et.k (xorBytes block mask)) mask

section
variable (prf : LayerKey aesBytes)

/-- The start of the key stream, with its low six bits free. -/
def prfHash (input : Block) : Block :=
  let hash := polyval prf.b input.toList
  hash.set 15 (hash[15] &&& 0xC0)

/-- The key stream of `cgo_prf_xor_t0`. -/
def prfT0 (input : Block) : Vector UInt8 etTweakLenXR :=
  aesCtr prf.k (prfHash polyval prf input) etTweakLenXR

def t1Offset : UInt8 := 31

def prfGenT1 (input : Block) (n : ℕ) : Vector UInt8 n :=
  let hash := prfHash polyval prf input
  aesCtr prf.k (hash.set 15 (hash[15] + t1Offset)) n

end

/-- The two layers, over a block cipher that decrypts what it encrypts. -/
def layers (hdecrypt : ∀ k block, aesDecrypt k (aesEncrypt k block) = block)
    (hencrypt : ∀ k block, aesEncrypt k (aesDecrypt k block) = block) : Primitives aesBytes where
  etEncrypt := etEncrypt aesEncrypt polyval
  etDecrypt := etDecrypt aesDecrypt polyval
  etDecrypt_etEncrypt key tweak block := by
    rw [etDecrypt, etEncrypt, xorBytes_xorBytes, hdecrypt, xorBytes_xorBytes]
  etEncrypt_etDecrypt key tweak block := by
    rw [etDecrypt, etEncrypt, xorBytes_xorBytes, hencrypt, xorBytes_xorBytes]
  prfT0 := prfT0 aesCtr polyval
  prfT1 := prfGenT1 aesCtr polyval

end Layers

section Uiv
variable {aesBytes : ℕ} {encrypt : Bool}

structure CgoUiv (aesBytes : ℕ) (encrypt : Bool) where
  j : LayerKey aesBytes
  s : LayerKey aesBytes

def singleKeyLen (aesBytes : ℕ) : ℕ := aesBytes + polyvalKeyLen

def keyMaterialLen (aesBytes : ℕ) : ℕ := singleKeyLen aesBytes * 2 + 16

/-- The key of a layer at a place in the key material. -/
def layerKeyAt (keys : Vector UInt8 (keyMaterialLen aesBytes)) (offset : ℕ)
    (h : offset + singleKeyLen aesBytes ≤ keyMaterialLen aesBytes) : LayerKey aesBytes where
  k := slice keys offset aesBytes (by simp only [singleKeyLen] at h; omega)
  b := slice keys (offset + aesBytes) polyvalKeyLen (by simp only [singleKeyLen] at h; omega)

/-- `cgo_uiv_init`, and the keys that `cgo_uiv_update` sets. -/
def uivInit (encrypt : Bool) (keys : Vector UInt8 (keyMaterialLen aesBytes)) :
    CgoUiv aesBytes encrypt where
  j := layerKeyAt keys 0 (by simp only [keyMaterialLen]; omega)
  s := layerKeyAt keys (singleKeyLen aesBytes) (by simp only [keyMaterialLen]; omega)

def nonceAt (keys : Vector UInt8 (keyMaterialLen aesBytes)) : Block :=
  slice keys (singleKeyLen aesBytes * 2) 16 (by simp only [keyMaterialLen]; omega)

variable (prim : Primitives aesBytes)

def uivEncrypt (uiv : CgoUiv aesBytes true) (tweak : UivTweak) (body : CellBody) : CellBody :=
  let xL := prim.etEncrypt uiv.j ⟨tweak, body.xR⟩ body.xL
  ⟨xL, xorBytes body.xR (prim.prfT0 uiv.s xL)⟩

def uivDecrypt (uiv : CgoUiv aesBytes false) (tweak : UivTweak) (body : CellBody) : CellBody :=
  let xR := xorBytes body.xR (prim.prfT0 uiv.s body.xL)
  ⟨prim.etDecrypt uiv.j ⟨tweak, xR⟩ body.xL, xR⟩

def uivUpdate (uiv : CgoUiv aesBytes encrypt) (nonce : Block) : CgoUiv aesBytes encrypt × Block :=
  let newKeys := prim.prfT1 uiv.s nonce (keyMaterialLen aesBytes)
  (uivInit encrypt newKeys, nonceAt newKeys)

end Uiv

section Crypt
variable {aesBytes : ℕ} {encrypt : Bool}

structure CgoCrypt (aesBytes : ℕ) (encrypt : Bool) where
  uiv : CgoUiv aesBytes encrypt
  nonce : Block
  tprime : Block
  lastTagRelayFwd : Block

def zeros : Block := Vector.replicate 16 0

def CgoCrypt.new (encrypt : Bool) (keys : Vector UInt8 (keyMaterialLen aesBytes)) :
    CgoCrypt aesBytes encrypt where
  uiv := uivInit encrypt keys
  nonce := nonceAt keys
  tprime := zeros
  lastTagRelayFwd := zeros

variable (prim : Primitives aesBytes)

def CgoCrypt.update (cgo : CgoCrypt aesBytes encrypt) : CgoCrypt aesBytes encrypt :=
  let (uiv, nonce) := uivUpdate prim cgo.uiv cgo.nonce
  { cgo with uiv := uiv, nonce := nonce }

def CgoCrypt.tweak (cgo : CgoCrypt aesBytes encrypt) (cell : Cell) : UivTweak :=
  ⟨cgo.tprime, cell.command⟩

section
variable (cgo : CgoCrypt aesBytes true)

def CgoCrypt.relayForward (cell : Cell) : CgoCrypt aesBytes true × Cell × Option Block :=
  let payload := uivEncrypt prim cgo.uiv (cgo.tweak cell) cell.payload
  let cgo := { cgo with lastTagRelayFwd := cell.payload.xL, tprime := payload.xL }
  if payload.xL = cgo.nonce then
    (cgo.update prim, { cell with payload := payload }, some cgo.lastTagRelayFwd)
  else (cgo, { cell with payload := payload }, none)

def CgoCrypt.relayBackward (cell : Cell) : CgoCrypt aesBytes true × Cell :=
  let payload := uivEncrypt prim cgo.uiv (cgo.tweak cell) cell.payload
  ({ cgo with tprime := payload.xL }, { cell with payload := payload })

def CgoCrypt.relayOriginate (cell : Cell) : CgoCrypt aesBytes true × Cell × Block :=
  let payload := uivEncrypt prim cgo.uiv (cgo.tweak cell) { cell.payload with xL := cgo.nonce }
  let cgo := { cgo with tprime := payload.xL, nonce := payload.xL }
  (cgo.update prim, { cell with payload := payload }, cgo.tprime)

end

section
variable (cgo : CgoCrypt aesBytes false)

def CgoCrypt.clientForward (cell : Cell) : CgoCrypt aesBytes false × Cell :=
  let payload := uivDecrypt prim cgo.uiv (cgo.tweak cell) cell.payload
  ({ cgo with tprime := cell.payload.xL }, { cell with payload := payload })

def CgoCrypt.clientOriginate (cell : Cell) : CgoCrypt aesBytes false × Cell × Block :=
  let (cgo, cell) :=
    cgo.clientForward prim { cell with payload := { cell.payload with xL := cgo.nonce } }
  (cgo.update prim, cell, cell.payload.xL)

def CgoCrypt.clientBackward (cell : Cell) : CgoCrypt aesBytes false × Cell × Option Block :=
  let payload := uivDecrypt prim cgo.uiv (cgo.tweak cell) cell.payload
  let tOrig := cell.payload.xL
  let cgo := { cgo with tprime := tOrig }
  if payload.xL = cgo.nonce then
    let cgo := { cgo with nonce := tOrig }
    (cgo.update prim, { cell with payload := payload }, some cgo.tprime)
  else (cgo, { cell with payload := payload }, none)

end

end Crypt

section Pair
variable {aesBytes : ℕ}

structure CgoPair (aesBytes : ℕ) (encrypt : Bool) where
  fwd : CgoCrypt aesBytes encrypt
  back : CgoCrypt aesBytes encrypt
  lastTag : Block

def CgoPair.init (isRelay : Bool) (fwdKeys backKeys : Vector UInt8 (keyMaterialLen aesBytes)) :
    CgoPair aesBytes isRelay :=
  ⟨.new isRelay fwdKeys, .new isRelay backKeys, zeros⟩

variable (prim : Primitives aesBytes)

def CgoPair.clientBackward (crypto : CgoPair aesBytes false) (cell : Cell) :
    CgoPair aesBytes false × Cell × Bool :=
  match crypto.back.clientBackward prim cell with
  | (back, cell, some tag) => ({ crypto with back := back, lastTag := tag }, cell, true)
  | (back, cell, none) => ({ crypto with back := back }, cell, false)

def CgoPair.relayForward (crypto : CgoPair aesBytes true) (cell : Cell) :
    CgoPair aesBytes true × Cell × Bool :=
  match crypto.fwd.relayForward prim cell with
  | (fwd, cell, some tag) => ({ crypto with fwd := fwd, lastTag := tag }, cell, true)
  | (fwd, cell, none) => ({ crypto with fwd := fwd }, cell, false)

def CgoPair.relayBackward (crypto : CgoPair aesBytes true) (cell : Cell) :
    CgoPair aesBytes true × Cell :=
  let (back, cell) := crypto.back.relayBackward prim cell
  ({ crypto with back := back }, cell)

def CgoPair.clientOriginate (crypto : CgoPair aesBytes false) (cell : Cell) :
    CgoPair aesBytes false × Cell :=
  let (fwd, cell, tag) := crypto.fwd.clientOriginate prim cell
  ({ crypto with fwd := fwd, lastTag := tag }, cell)

def CgoPair.clientForward (crypto : CgoPair aesBytes false) (cell : Cell) :
    CgoPair aesBytes false × Cell :=
  let (fwd, cell) := crypto.fwd.clientForward prim cell
  ({ crypto with fwd := fwd }, cell)

/-- `relay_encrypt_cell_inbound`. -/
def CgoPair.relayOriginate (crypto : CgoPair aesBytes true) (cell : Cell) :
    CgoPair aesBytes true × Cell :=
  let (back, cell, tag) := crypto.back.relayOriginate prim cell
  ({ crypto with back := back, lastTag := tag }, cell)

end Pair

/-! The two ends of a hop stay in step, cell by cell. -/

section CgoAgreement
variable {aesBytes : ℕ} {prim : Primitives aesBytes}

section Uiv
variable {decrypting : CgoUiv aesBytes false} {encrypting : CgoUiv aesBytes true}

/-- One instance decrypts what the other encrypts. -/
structure SameKeys (decrypting : CgoUiv aesBytes false) (encrypting : CgoUiv aesBytes true) :
    Prop where
  j : decrypting.j = encrypting.j
  s : decrypting.s = encrypting.s

variable (prim) in
theorem uivDecrypt_uivEncrypt (h : SameKeys decrypting encrypting) (tweak : UivTweak)
    (body : CellBody) :
    uivDecrypt prim decrypting tweak (uivEncrypt prim encrypting tweak body) = body := by
  simp only [uivDecrypt, uivEncrypt, h.j, h.s, xorBytes_xorBytes, prim.etDecrypt_etEncrypt]

variable (prim) in
theorem uivEncrypt_uivDecrypt (h : SameKeys decrypting encrypting) (tweak : UivTweak)
    (body : CellBody) :
    uivEncrypt prim encrypting tweak (uivDecrypt prim decrypting tweak body) = body := by
  simp only [uivDecrypt, uivEncrypt, h.j, h.s, xorBytes_xorBytes, prim.etEncrypt_etDecrypt]

end Uiv

section Crypt
variable {client : CgoCrypt aesBytes false} {relay : CgoCrypt aesBytes true} {cell : Cell}

/-- Equal keys, nonce and tweak state at both ends, in one direction. -/
structure InStep (client : CgoCrypt aesBytes false) (relay : CgoCrypt aesBytes true) : Prop where
  keys : SameKeys client.uiv relay.uiv
  nonce : client.nonce = relay.nonce
  tprime : client.tprime = relay.tprime

theorem new_inStep (keys : Vector UInt8 (keyMaterialLen aesBytes)) :
    InStep (.new false keys) (.new true keys) := ⟨⟨rfl, rfl⟩, rfl, rfl⟩

theorem update_inStep (h : InStep client relay) :
    InStep (client.update prim) (relay.update prim) := by
  simp only [CgoCrypt.update, uivUpdate, h.keys.s, h.nonce]
  exact ⟨⟨rfl, rfl⟩, rfl, h.tprime⟩

/-- A cell with the nonce in front. -/
def tagged (nonce : Block) (cell : Cell) : Cell :=
  { cell with payload := { cell.payload with xL := nonce } }

variable (prim) in
theorem forward_originated (h : InStep client relay) (cell : Cell) :
    let sent := client.clientOriginate prim cell
    let received := relay.relayForward prim sent.2.1
    InStep sent.1 received.1 ∧ received.2.1 = tagged client.nonce cell ∧
      received.2.2 = some sent.2.2 := by
  have hrestored := uivEncrypt_uivDecrypt prim h.keys ⟨client.tprime, cell.command⟩
    (tagged client.nonce cell).payload
  have hreceived : relay.relayForward prim (client.clientOriginate prim cell).2.1 =
      (({ relay with
          lastTagRelayFwd := (client.clientOriginate prim cell).2.2
          tprime := client.nonce } : CgoCrypt aesBytes true).update prim,
        tagged client.nonce cell, some (client.clientOriginate prim cell).2.2) := by
    simp only [CgoCrypt.relayForward, CgoCrypt.clientOriginate, CgoCrypt.clientForward,
      CgoCrypt.tweak, tagged, ← h.tprime] at hrestored ⊢
    rw [hrestored, if_pos h.nonce]
  dsimp only
  rw [hreceived]
  exact ⟨update_inStep ⟨h.keys, h.nonce, rfl⟩, rfl, rfl⟩

variable (prim) in
/-- A cell that goes on past the relay. -/
theorem forward_passed (h : InStep client relay) (hother : cell.payload.xL ≠ relay.nonce) :
    let sent := client.clientForward prim cell
    let received := relay.relayForward prim sent.2
    InStep sent.1 received.1 ∧ received.2.1 = cell ∧ received.2.2 = none := by
  have hrestored := uivEncrypt_uivDecrypt prim h.keys ⟨client.tprime, cell.command⟩
    cell.payload
  have hreceived : relay.relayForward prim (client.clientForward prim cell).2 =
      ({ relay with
          lastTagRelayFwd := (client.clientForward prim cell).2.payload.xL
          tprime := cell.payload.xL }, cell, none) := by
    simp only [CgoCrypt.relayForward, CgoCrypt.clientForward, CgoCrypt.tweak, ← h.tprime]
    rw [hrestored, if_neg hother]
  dsimp only
  rw [hreceived]
  exact ⟨⟨h.keys, h.nonce, rfl⟩, rfl, rfl⟩

variable (prim) in
theorem backward_originated (h : InStep client relay) (cell : Cell) :
    let sent := relay.relayOriginate prim cell
    let received := client.clientBackward prim sent.2.1
    InStep received.1 sent.1 ∧ received.2.1 = tagged relay.nonce cell ∧
      received.2.2 = some sent.2.2 := by
  have hrestored := uivDecrypt_uivEncrypt prim h.keys ⟨relay.tprime, cell.command⟩
    (tagged relay.nonce cell).payload
  have hreceived : client.clientBackward prim (relay.relayOriginate prim cell).2.1 =
      (({ client with
          tprime := (relay.relayOriginate prim cell).2.2
          nonce := (relay.relayOriginate prim cell).2.2 } :
          CgoCrypt aesBytes false).update prim,
        tagged relay.nonce cell, some (relay.relayOriginate prim cell).2.2) := by
    simp only [CgoCrypt.clientBackward, CgoCrypt.relayOriginate, CgoCrypt.tweak, tagged,
      h.tprime] at hrestored ⊢
    rw [hrestored, if_pos h.nonce.symm]
  dsimp only
  rw [hreceived]
  exact ⟨update_inStep ⟨h.keys, rfl, rfl⟩, rfl, rfl⟩

variable (prim) in
/-- A cell from farther away. -/
theorem backward_passed (h : InStep client relay) (hother : cell.payload.xL ≠ client.nonce) :
    let sent := relay.relayBackward prim cell
    let received := client.clientBackward prim sent.2
    InStep received.1 sent.1 ∧ received.2.1 = cell ∧ received.2.2 = none := by
  have hrestored := uivDecrypt_uivEncrypt prim h.keys ⟨relay.tprime, cell.command⟩
    cell.payload
  have hreceived : client.clientBackward prim (relay.relayBackward prim cell).2 =
      ({ client with tprime := (relay.relayBackward prim cell).2.payload.xL }, cell, none) := by
    simp only [CgoCrypt.clientBackward, CgoCrypt.relayBackward, CgoCrypt.tweak, h.tprime]
    rw [hrestored, if_neg hother]
  dsimp only
  rw [hreceived]
  exact ⟨⟨h.keys, h.nonce, rfl⟩, rfl, rfl⟩

end Crypt

section Pair
variable {client : CgoPair aesBytes false} {relay : CgoPair aesBytes true} {cell : Cell}

theorem relayForward_recognized {tag : Block}
    (h : (relay.fwd.relayForward prim cell).2.2 = some tag) : relay.relayForward prim cell =
      ({ relay with fwd := (relay.fwd.relayForward prim cell).1, lastTag := tag },
        (relay.fwd.relayForward prim cell).2.1, true) := by
  unfold CgoPair.relayForward
  generalize relay.fwd.relayForward prim cell = received at h ⊢
  obtain ⟨fwd, cell, recognized⟩ := received
  subst h
  rfl

theorem relayForward_passed (h : (relay.fwd.relayForward prim cell).2.2 = none) :
    relay.relayForward prim cell = ({ relay with fwd := (relay.fwd.relayForward prim cell).1 },
      (relay.fwd.relayForward prim cell).2.1, false) := by
  unfold CgoPair.relayForward
  generalize relay.fwd.relayForward prim cell = received at h ⊢
  obtain ⟨fwd, cell, recognized⟩ := received
  subst h
  rfl

theorem clientBackward_recognized {tag : Block}
    (h : (client.back.clientBackward prim cell).2.2 = some tag) : client.clientBackward prim cell =
      ({ client with back := (client.back.clientBackward prim cell).1, lastTag := tag },
        (client.back.clientBackward prim cell).2.1, true) := by
  unfold CgoPair.clientBackward
  generalize client.back.clientBackward prim cell = received at h ⊢
  obtain ⟨back, cell, recognized⟩ := received
  subst h
  rfl

theorem clientBackward_passed (h : (client.back.clientBackward prim cell).2.2 = none) :
    client.clientBackward prim cell =
      ({ client with back := (client.back.clientBackward prim cell).1 },
        (client.back.clientBackward prim cell).2.1, false) := by
  unfold CgoPair.clientBackward
  generalize client.back.clientBackward prim cell = received at h ⊢
  obtain ⟨back, cell, recognized⟩ := received
  subst h
  rfl

end Pair

section Hop

/-- The two ends of one hop of a circuit. -/
structure Hop (aesBytes : ℕ) where
  client : CgoPair aesBytes false
  relay : CgoPair aesBytes true

/-- A cell that one end sends and the other receives. -/
inductive Event
  | clientOriginate (cell : Cell)
  | clientForward (cell : Cell)
  | relayOriginate (cell : Cell)
  | relayBackward (cell : Cell)

def Event.cell : Event → Cell
  | .clientOriginate cell => cell
  | .clientForward cell => cell
  | .relayOriginate cell => cell
  | .relayBackward cell => cell

/-- The cell is for this hop, or from it. -/
def Event.originated : Event → Bool
  | .clientOriginate _ => true
  | .clientForward _ => false
  | .relayOriginate _ => true
  | .relayBackward _ => false

structure Outcome (aesBytes : ℕ) where
  hop : Hop aesBytes
  received : Cell
  recognized : Bool

/-- What both ends make of a cell. -/
def transfer (prim : Primitives aesBytes) (hop : Hop aesBytes) : Event → Outcome aesBytes
  | .clientOriginate cell =>
    let (client, sent) := hop.client.clientOriginate prim cell
    let (relay, received, recognized) := hop.relay.relayForward prim sent
    ⟨⟨client, relay⟩, received, recognized⟩
  | .clientForward cell =>
    let (client, sent) := hop.client.clientForward prim cell
    let (relay, received, recognized) := hop.relay.relayForward prim sent
    ⟨⟨client, relay⟩, received, recognized⟩
  | .relayOriginate cell =>
    let (relay, sent) := hop.relay.relayOriginate prim cell
    let (client, received, recognized) := hop.client.clientBackward prim sent
    ⟨⟨client, relay⟩, received, recognized⟩
  | .relayBackward cell =>
    let (relay, sent) := hop.relay.relayBackward prim cell
    let (client, received, recognized) := hop.client.clientBackward prim sent
    ⟨⟨client, relay⟩, received, recognized⟩

def step (prim : Primitives aesBytes) (hop : Hop aesBytes) (e : Event) : Option (Hop aesBytes) :=
  some (transfer prim hop e).hop

/-- A cell that passes does not match the nonce by accident. -/
def NoAccident (hop : Hop aesBytes) : Event → Prop
  | .clientOriginate _ => True
  | .clientForward cell => cell.payload.xL ≠ hop.relay.fwd.nonce
  | .relayOriginate _ => True
  | .relayBackward cell => cell.payload.xL ≠ hop.client.back.nonce

def start (fwdKeys backKeys : Vector UInt8 (keyMaterialLen aesBytes)) : Hop aesBytes :=
  ⟨.init false fwdKeys backKeys, .init true fwdKeys backKeys⟩

/-- Both directions are in step, and both ends have the same tag. -/
structure HopInStep (hop : Hop aesBytes) : Prop where
  fwd : InStep hop.client.fwd hop.relay.fwd
  back : InStep hop.client.back hop.relay.back
  lastTag : hop.client.lastTag = hop.relay.lastTag

/-- What a cell should come to. -/
structure Agreed (e : Event) (out : Outcome aesBytes) : Prop where
  inStep : HopInStep out.hop
  recognized : out.recognized = e.originated
  command : out.received.command = e.cell.command
  body : out.received.payload.xR = e.cell.payload.xR
  passed : e.originated = false → out.received = e.cell

theorem transfer_agreed {hop : Hop aesBytes} {e : Event} (h : HopInStep hop)
    (hother : NoAccident hop e) : Agreed e (transfer prim hop e) := by
  cases e with
  | clientOriginate cell =>
    obtain ⟨hfwd, hcell, htag⟩ := forward_originated prim h.fwd cell
    simp only [transfer, CgoPair.clientOriginate]
    rw [relayForward_recognized htag]
    exact ⟨⟨hfwd, h.back, rfl⟩, rfl, by rw [hcell]; rfl, by rw [hcell]; rfl, nofun⟩
  | clientForward cell =>
    obtain ⟨hfwd, hcell, htag⟩ := forward_passed prim h.fwd hother
    simp only [transfer, CgoPair.clientForward]
    rw [relayForward_passed htag]
    exact ⟨⟨hfwd, h.back, h.lastTag⟩, rfl, by rw [hcell]; rfl, by rw [hcell]; rfl, fun _ => hcell⟩
  | relayOriginate cell =>
    obtain ⟨hback, hcell, htag⟩ := backward_originated prim h.back cell
    simp only [transfer, CgoPair.relayOriginate]
    rw [clientBackward_recognized htag]
    exact ⟨⟨h.fwd, hback, rfl⟩, rfl, by rw [hcell]; rfl, by rw [hcell]; rfl, nofun⟩
  | relayBackward cell =>
    obtain ⟨hback, hcell, htag⟩ := backward_passed prim h.back hother
    simp only [transfer, CgoPair.relayBackward]
    rw [clientBackward_passed htag]
    exact ⟨⟨h.fwd, hback, h.lastTag⟩, rfl, by rw [hcell]; rfl, by rw [hcell]; rfl, fun _ => hcell⟩

theorem reached_inStep {fwdKeys backKeys : Vector UInt8 (keyMaterialLen aesBytes)}
    {hop : Hop aesBytes} (h : Reached (step prim) NoAccident (start fwdKeys backKeys) hop) :
    HopInStep hop := by
  apply h.invariant
  · exact ⟨new_inStep fwdKeys, new_inStep backKeys, rfl⟩
  · intro hop e hop' hinStep hother hstep
    cases hstep
    exact (transfer_agreed hinStep hother).inStep

/-- The two ends of a hop agree about every cell of every run, and stay in step; and the wide-block
cipher of one end inverts that of the other. -/
theorem cgo_synchronised (prim : Primitives aesBytes)
    {fwdKeys backKeys : Vector UInt8 (keyMaterialLen aesBytes)} {hop : Hop aesBytes}
    (hreached : Reached (step prim) NoAccident (start fwdKeys backKeys) hop) :
    HopInStep hop ∧ (∀ e, NoAccident hop e → Agreed e (transfer prim hop e)) ∧
      ∀ decrypting encrypting, SameKeys decrypting encrypting → ∀ tweak body,
        uivDecrypt prim decrypting tweak (uivEncrypt prim encrypting tweak body) = body ∧
        uivEncrypt prim encrypting tweak (uivDecrypt prim decrypting tweak body) = body := by
  have hinStep := reached_inStep hreached
  refine ⟨hinStep, fun e hother => transfer_agreed hinStep hother, ?_⟩
  intro decrypting encrypting hkeys tweak body
  exact ⟨uivDecrypt_uivEncrypt prim hkeys tweak body, uivEncrypt_uivDecrypt prim hkeys tweak body⟩

/-- Blocks under their tweak, and keys that are ones after the first cell. -/
def padded : Primitives 16 where
  etEncrypt _ tweak block := xorBytes block tweak.uiv.h
  etDecrypt _ tweak block := xorBytes block tweak.uiv.h
  etDecrypt_etEncrypt _ tweak block := xorBytes_xorBytes block tweak.uiv.h
  etEncrypt_etDecrypt _ tweak block := xorBytes_xorBytes block tweak.uiv.h
  prfT0 _ _ := Vector.replicate etTweakLenXR 0
  prfT1 _ _ n := Vector.replicate n 1

def fives : Cell := ⟨3, Vector.replicate 16 5, Vector.replicate etTweakLenXR 5⟩

def paddedStart : Hop 16 :=
  start (Vector.replicate (keyMaterialLen 16) 0) (Vector.replicate (keyMaterialLen 16) 0)

theorem cgo_synchronised_padded : ∃ hop,
    run (step padded) paddedStart [.clientOriginate fives, .clientForward fives] = some hop ∧
      HopInStep hop ∧
      Agreed (.relayOriginate fives) (transfer padded hop (.relayOriginate fives)) := by
  have hfirst : Reached (step padded) NoAccident paddedStart
      (transfer padded paddedStart (.clientOriginate fives)).hop :=
    .step (e := .clientOriginate fives) .init trivial rfl
  have hother : NoAccident (transfer padded paddedStart (.clientOriginate fives)).hop
      (.clientForward fives) := by
    have hnonce : (transfer padded paddedStart (.clientOriginate fives)).hop.client.fwd.nonce[0] =
        1 := rfl
    rw [NoAccident, ← (reached_inStep hfirst).fwd.nonce]
    intro hsame
    rw [← hsame] at hnonce
    exact absurd hnonce (by decide)
  obtain ⟨hinStep, hagreed, -⟩ := cgo_synchronised padded (.step hfirst hother rfl)
  exact ⟨_, rfl, hinStep, hagreed _ trivial⟩

end Hop

end CgoAgreement

end TorDaemon.Relay.Cgo

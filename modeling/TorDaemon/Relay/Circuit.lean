import TorDaemon.Library.Reachability
import TorDaemon.Relay.Tor1

/-! A circuit: the client's layers, the relays, and the cells on their way in both directions. -/
namespace TorDaemon.Relay.Tor1
open Library.Reachability
variable {κ δ : Type} (prim : Primitives κ δ)

section Client

/-- `relay_encrypt_cell_outbound`: the layer of the hop first, then those before it. -/
def encryptCellOutbound :
    List (Tor1Crypt κ δ) → ℕ → Payload → Option (List (Tor1Crypt κ δ) × Payload)
  | [], _, _ => none
  | thishop :: cpath, 0, cell =>
    let out := thishop.clientOriginate prim cell
    some (out.1 :: cpath, out.2)
  | thishop :: cpath, hop + 1, cell => do
    let (cpath, cell) ← encryptCellOutbound cpath hop cell
    let out := thishop.clientForward prim cell
    return (out.1 :: cpath, out.2)

/-- `relay_decrypt_cell` at the client, with the number of the hop that is the layer hint. -/
def decryptCellInbound :
    List (Tor1Crypt κ δ) → Payload → Option (List (Tor1Crypt κ δ) × Payload × ℕ)
  | [], _ => none
  | thishop :: cpath, cell =>
    let out := thishop.clientBackward prim cell
    if out.2.2 then some (out.1 :: cpath, out.2.1, 0)
    else do
      let (cpath, cell, hop) ← decryptCellInbound cpath out.2.1
      return (out.1 :: cpath, cell, hop + 1)

end Client

/-- What was sent: by or to which hop, and the digest that its originator recorded. -/
structure Sent where
  hop : ℕ
  original : Payload
  tag : Tag

/-- A cell on its way. One that goes out waits for the hop at its position; one that comes in has
passed that hop last, and at position zero the client is next. -/
structure InFlight where
  position : ℕ
  payload : Payload
  sent : Sent

/-- The cells are in the order in which every hop handles them, those that are farthest on first. -/
structure Circuit (κ δ : Type) where
  cpath : List (Tor1Crypt κ δ)
  hops : List (Tor1Crypt κ δ)
  outbound : List InFlight
  inbound : List InFlight

/-- The first cell at a position, with the cells before and after it. -/
def firstAt (position : ℕ) : List InFlight → Option (List InFlight × InFlight × List InFlight)
  | [] => none
  | inFlight :: rest =>
    if inFlight.position = position then some ([], inFlight, rest)
    else (firstAt position rest).map fun found => (inFlight :: found.1, found.2)

inductive Event
  | sendOutbound (hop : ℕ) (cell : Payload)
  | relayForward (hop : ℕ)
  | sendInbound (hop : ℕ) (cell : Payload)
  | relayBackward (hop : ℕ)
  | clientReceive

/-- A link in each direction gives up its cells in order. -/
def step (c : Circuit κ δ) : Event → Option (Circuit κ δ)
  | .sendOutbound hop cell => do
    let (cpath, payload) ← encryptCellOutbound prim c.cpath hop cell
    let layer ← cpath[hop]?
    let sent : Sent := ⟨hop, cell, layer.sendmeDigest⟩
    return { c with cpath := cpath, outbound := c.outbound ++ [⟨0, payload, sent⟩] }
  | .relayForward hop => do
    let (before, cell, after) ← firstAt hop c.outbound
    let relay ← c.hops[hop]?
    let out := relay.relayForward prim cell.payload
    let rest := if out.2.2 then after else ⟨hop + 1, out.2.1, cell.sent⟩ :: after
    return { c with hops := c.hops.set hop out.1, outbound := before ++ rest }
  | .sendInbound hop cell => do
    let relay ← c.hops[hop]?
    let out := relay.relayOriginate prim cell
    let sent : Sent := ⟨hop, cell, out.1.sendmeDigest⟩
    return { c with
      hops := c.hops.set hop out.1
      inbound := c.inbound.takeWhile (fun x => x.position ≤ hop) ++
        ⟨hop, out.2, sent⟩ :: c.inbound.dropWhile (fun x => x.position ≤ hop) }
  | .relayBackward hop => do
    let (before, cell, after) ← firstAt (hop + 1) c.inbound
    let relay ← c.hops[hop]?
    let out := relay.relayBackward prim cell.payload
    return { c with
      hops := c.hops.set hop out.1
      inbound := before ++ ⟨hop, out.2, cell.sent⟩ :: after }
  | .clientReceive => do
    let (before, cell, after) ← firstAt 0 c.inbound
    let (cpath, _, _) ← decryptCellInbound prim c.cpath cell.payload
    return { c with cpath := cpath, inbound := before ++ after }

/-- No layer before that of the hop recognizes the cell. -/
def NoneBefore : List (Tor1Crypt κ δ) → ℕ → Payload → Prop
  | [], _, _ => True
  | _ :: _, 0, _ => True
  | thishop :: cpath, hop + 1, cell =>
    let out := thishop.clientBackward prim cell
    out.2.2 = false ∧ NoneBefore cpath hop out.2.1

/-- Cells are handed over with their fields zero, and nothing is recognized by accident. -/
def NoAccident (c : Circuit κ δ) : Event → Prop
  | .sendOutbound _ cell => Fresh cell
  | .relayForward hop => ∀ found ∈ firstAt hop c.outbound, ∀ relay ∈ c.hops[hop]?,
    found.2.1.sent.hop ≠ hop → (relay.relayForward prim found.2.1.payload).2.2 = false
  | .sendInbound _ cell => Fresh cell
  | .relayBackward _ => True
  | .clientReceive => ∀ found ∈ firstAt 0 c.inbound,
    NoneBefore prim c.cpath found.2.1.sent.hop found.2.1.payload

/-- Both ends of every hop start with the same ciphers and digests. -/
def start (keys : List (Half κ δ × Half κ δ)) : Circuit κ δ :=
  let crypts := keys.map fun key => ⟨key.1, key.2, Vector.replicate digestLen 0⟩
  ⟨crypts, crypts, [], []⟩

end TorDaemon.Relay.Tor1

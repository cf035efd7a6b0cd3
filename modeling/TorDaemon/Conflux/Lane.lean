import Mathlib.Algebra.Order.Group.Multiset
import Mathlib.Data.List.Flatten
import TorDaemon.Conflux.Receive
import TorDaemon.Conflux.SendOrder
import TorDaemon.Library.Numbering

/-! One direction of a conflux set: the sender, the receiver, and the cells in flight,
first in first out on each leg. -/
namespace TorDaemon.Conflux
open Container.Pqueue Library.Reachability

/-- What happens at one end beside the messages: a new estimate of a round-trip time, other
windows, a new consensus, a query for the next circuit, and the close of a circuit. -/
inductive LocalEvent
  | updateRtt (circ : ℕ) (usec : UInt64)
  | setCircuit (circ : ℕ) (ccontrol : CongestionControl) (blockedOnChan : Bool)
  | newConsensus (params : Params)
  | query
  | close (circ : ℕ)

def localStep (e : Endpoint) : LocalEvent → Option Endpoint
  | .updateRtt circ usec => some { e with cfx := { e.cfx with
      legs := updateLeg circ (fun leg => { leg with circRttsUsec := usec }) e.cfx.legs } }
  | .setCircuit circ ccontrol blockedOnChan => some { e with
      circuits := Function.update e.circuits circ
        { e.circuits circ with ccontrol := ccontrol, blockedOnChan := blockedOnChan } }
  | .newConsensus params => some { e with params := params }
  | .query => (decideNextCirc e).map Prod.snd
  | .close circ => some (circuitMarkForClose e circ)

section Local

def counters (leg : Leg) : ℕ × ℕ × ℕ := (leg.circ, leg.lastSeqRecv, leg.lastSeqSent)

/-- What a local event can change: no counter, and no leg goes unless a circuit is closed. -/
structure LocalFrame (e e' : Endpoint) (event : LocalEvent) : Prop where
  wellFormed : WellFormed e'
  sendInv : ∀ base n, SendInv base n e → SendInv base n e'
  legs : (e'.cfx.legs.map counters).Subperm (e.cfx.legs.map counters)
  kept : (∀ circ, event ≠ .close circ) →
    e'.cfx.legs.map counters = e.cfx.legs.map counters
  oooQ : e'.cfx.oooQ = e.cfx.oooQ
  oooQAllocCost : e'.cfx.oooQAllocCost = e.cfx.oooQAllocCost
  lastSeqDelivered : e'.cfx.lastSeqDelivered = e.cfx.lastSeqDelivered

theorem mem_of_counters {legs legs' : List Leg}
    (h : (legs'.map counters).Subperm (legs.map counters)) {l' : Leg} (hl' : l' ∈ legs') :
    ∃ l ∈ legs, l.circ = l'.circ ∧ l.lastSeqRecv = l'.lastSeqRecv ∧
      l.lastSeqSent = l'.lastSeqSent := by
  obtain ⟨l, hl, heq⟩ := List.mem_map.mp (h.subset (List.mem_map_of_mem hl'))
  simp only [counters, Prod.mk.injEq] at heq
  exact ⟨l, hl, heq⟩

theorem counters_subperm {legs legs' : List Leg} (h : legs'.Subperm legs) :
    (legs'.map counters).Subperm (legs.map counters) := by
  obtain ⟨l, hperm, hsub⟩ := h
  exact ⟨l.map counters, hperm.map _, hsub.map _⟩

theorem map_circ_of_counters {legs legs' : List Leg}
    (h : legs'.map counters = legs.map counters) : legs'.map Leg.circ = legs.map Leg.circ := by
  simpa [counters, Function.comp_def] using congrArg (List.map Prod.fst) h

theorem SendInv.congr {base n : ℕ} {e e' : Endpoint} (h : SendInv base n e)
    (hwf : WellFormed e') (hlegs : e'.cfx.legs.map counters = e.cfx.legs.map counters)
    (hcurr : e'.cfx.currLeg = e.cfx.currLeg) : SendInv base n e' where
  toWellFormed := hwf
  bounded l' hl' := by
    obtain ⟨l, hl, -, -, hvalue⟩ := mem_of_counters (List.Perm.of_eq hlegs).subperm hl'
    exact hvalue ▸ h.bounded l hl
  current l' hl' hc := by
    obtain ⟨l, hl, hcirc, -, hvalue⟩ := mem_of_counters (List.Perm.of_eq hlegs).subperm hl'
    exact hvalue ▸ h.current l hl (by rw [hcirc, ← hcurr, hc])
  unused hc := by
    refine (h.unused (hcurr ▸ hc)).imp_right fun hnil => ?_
    rwa [hnil, List.map_nil, List.map_eq_nil_iff] at hlegs

theorem localFrame_of_kept {e e' : Endpoint} {event : LocalEvent} (h : WellFormed e)
    (hlegs : e'.cfx.legs.map counters = e.cfx.legs.map counters)
    (hmarked : ∀ c, (e'.circuits c).markedForClose = (e.circuits c).markedForClose)
    (hcurr : e'.cfx.currLeg = e.cfx.currLeg) (hdown : e'.cfx.inFullTeardown = e.cfx.inFullTeardown)
    (hqueue : e'.cfx.oooQ = e.cfx.oooQ ∧ e'.cfx.oooQAllocCost = e.cfx.oooQAllocCost ∧
      e'.cfx.lastSeqDelivered = e.cfx.lastSeqDelivered) : LocalFrame e e' event := by
  have hwf : WellFormed e' :=
    h.congr (map_circ_of_counters hlegs) hmarked (hcurr ▸ h.currLeg_mem) hdown
  exact ⟨hwf, fun _ _ hs => hs.congr hwf hlegs hcurr, (List.Perm.of_eq hlegs).subperm,
    fun _ => hlegs, hqueue.1, hqueue.2.1, hqueue.2.2⟩

theorem localStep_frame {e e' : Endpoint} {event : LocalEvent} (h : WellFormed e)
    (hstep : localStep e event = some e') : LocalFrame e e' event := by
  cases event with
  | updateRtt circ usec =>
    cases hstep
    refine localFrame_of_kept h ?_ (fun _ => rfl) rfl rfl ⟨rfl, rfl, rfl⟩
    simp only [updateLeg, List.map_map]
    refine List.map_congr_left fun l _ => ?_
    simp only [Function.comp_apply]
    split_ifs <;> rfl
  | setCircuit circ ccontrol blockedOnChan =>
    cases hstep
    refine localFrame_of_kept h rfl (fun c => ?_) rfl rfl ⟨rfl, rfl, rfl⟩
    by_cases hc : c = circ <;> simp [hc]
  | newConsensus params =>
    cases hstep
    exact localFrame_of_kept h rfl (fun _ => rfl) rfl rfl ⟨rfl, rfl, rfl⟩
  | query =>
    obtain ⟨⟨next, e'⟩, hnext, rfl⟩ := Option.map_eq_some_iff.mp hstep
    obtain ⟨hpicked, -⟩ := decideNextCirc_spec h hnext
    have hlegs : e'.cfx.legs.map counters = e.cfx.legs.map counters := by rw [hpicked.legs]
    exact ⟨hpicked.wellFormed h, fun _ _ hs => hs.picked hpicked,
      (List.Perm.of_eq hlegs).subperm, fun _ => hlegs, hpicked.oooQ, hpicked.oooQAllocCost,
      hpicked.lastSeqDelivered⟩
  | close circ =>
    cases hstep
    obtain ⟨hwf, hshrunk, -⟩ := circuitMarkForClose_spec h circ
    exact ⟨hwf, fun _ _ hs => hs.circuitMarkForClose circ, counters_subperm hshrunk.legs,
      fun hnot => absurd rfl (hnot circ), hshrunk.oooQ, hshrunk.oooQAllocCost,
      hshrunk.lastSeqDelivered⟩

end Local

structure State where
  sender : Endpoint
  receiver : Endpoint
  wire : ℕ → List Cell
  sent : List RelayMsg
  handedUp : List RelayMsg

inductive Event
  | send (origCirc : ℕ) (msg : RelayMsg) (switchPackaging packaging : Packaging)
  | arrive (circ : ℕ)
  | atSender (event : LocalEvent)
  | atReceiver (event : LocalEvent)

def step (s : State) : Event → Option State
  | .send origCirc msg switchPackaging packaging =>
    if shouldMultiplex msg.command then
      (relaySendCommandFromEdge s.sender origCirc msg switchPackaging packaging).map fun em =>
        { s with
          sender := em.endpoint
          wire := Function.update s.wire em.circ (s.wire em.circ ++ em.cells)
          sent := s.sent ++ relayed em.cells }
    else none
  | .arrive circ =>
    match s.wire circ with
    | [] => none
    | cell :: cells =>
      (processCell s.receiver circ cell).map fun (msgs, receiver) =>
        { s with
          receiver := receiver
          wire := Function.update s.wire circ cells
          handedUp := s.handedUp ++ msgs }
  | .atSender event => (localStep s.sender event).map fun sender => { s with sender := sender }
  | .atReceiver event =>
    (localStep s.receiver event).map fun receiver => { s with receiver := receiver }

/-- A linked set whose legs start with equal sequence counters, with nothing sent yet. -/
structure Linked (base : ℕ) (s : State) : Prop where
  sender : WellFormed s.sender
  receiver : WellFormed s.receiver
  lastSeqSent : ∀ l ∈ s.sender.cfx.legs, l.lastSeqSent = base
  lastSeqRecv : ∀ l ∈ s.receiver.cfx.legs, l.lastSeqRecv = base
  lastSeqDelivered : s.receiver.cfx.lastSeqDelivered = base
  circuits : ∀ l ∈ s.sender.cfx.legs, ∃ r ∈ s.receiver.cfx.legs, r.circ = l.circ
  oooQ : s.receiver.cfx.oooQ.list = [] ∧ s.receiver.cfx.oooQAllocCost = 0
  wire : ∀ circ, s.wire circ = []
  sent : s.sent = [] ∧ s.handedUp = []

/-- The cells that the receiver will still number. -/
def inFlight (legs : List Leg) (wire : ℕ → List Cell) : List (RelayMsg × ℕ) :=
  legs.flatMap fun leg => numbered leg.lastSeqRecv (wire leg.circ)

/-- Every message that is handed up, queued or in flight, with its sequence number. -/
def accounted (base : ℕ) (s : State) : Multiset (RelayMsg × ℕ) :=
  (s.handedUp.zipIdx (base + 1) : Multiset (RelayMsg × ℕ)) +
    ((queued s.receiver.cfx : Multiset (RelayMsg × ℕ)) +
      (inFlight s.receiver.cfx.legs s.wire : Multiset (RelayMsg × ℕ)))

/-- The joint invariant of the two ends and the wires. -/
structure Inv (base : ℕ) (s : State) : Prop where
  sender : SendInv base s.sent.length s.sender
  receiver : WellFormed s.receiver
  queue : QueueInv s.receiver.cfx
  delivered : s.receiver.cfx.lastSeqDelivered = base + s.handedUp.length
  agreed : ∀ l ∈ s.sender.cfx.legs, ∀ r ∈ s.receiver.cfx.legs, r.circ = l.circ →
    resolved r.lastSeqRecv (s.wire r.circ) = l.lastSeqSent
  account : accounted base s ≤ (s.sent.zipIdx (base + 1) : Multiset (RelayMsg × ℕ))
  settled : ∀ m ∈ s.receiver.cfx.oooQ.list, m.seq ≠ s.receiver.cfx.lastSeqDelivered + 1
  bounded : base + s.sent.length < 2 ^ 64

/-- Nothing has been lost. -/
structure Lossless (base : ℕ) (s : State) : Prop where
  lanes : ∀ l ∈ s.sender.cfx.legs, ∃ r ∈ s.receiver.cfx.legs, r.circ = l.circ
  known : ∀ circ, s.wire circ ≠ [] → ∃ r ∈ s.receiver.cfx.legs, r.circ = circ
  account : accounted base s = (s.sent.zipIdx (base + 1) : Multiset (RelayMsg × ℕ))

section InFlight
variable {legs legs' : List Leg} {leg : Leg} {wire : ℕ → List Cell} {cells : List Cell}
  {circ : ℕ}

theorem inFlight_perm (hnodup : (legs.map Leg.circ).Nodup) (hleg : leg ∈ legs) :
    (inFlight legs wire).Perm (numbered leg.lastSeqRecv (wire leg.circ) ++
      inFlight (legs.filter fun l => l.circ ≠ leg.circ) wire) :=
  (legs_perm hnodup hleg).flatMap_right _

theorem inFlight_recordSeq_perm (hnodup : (legs.map Leg.circ).Nodup) (hleg : leg ∈ legs)
    (seq : ℕ) : (inFlight (recordSeq legs leg.circ seq) wire).Perm
      (numbered seq (wire leg.circ) ++
        inFlight (legs.filter fun l => l.circ ≠ leg.circ) wire) :=
  (updateLeg_perm hnodup hleg).flatMap_right _

theorem inFlight_eq_flatMap : inFlight legs wire =
    (legs.map counters).flatMap fun c => numbered c.2.1 (wire c.1) := by
  simp [inFlight, counters, List.flatMap_map]

theorem inFlight_subperm_of_counters
    (h : (legs'.map counters).Subperm (legs.map counters)) :
    (inFlight legs' wire).Subperm (inFlight legs wire) := by
  rw [inFlight_eq_flatMap, inFlight_eq_flatMap]
  obtain ⟨l, hperm, hsub⟩ := h
  exact ⟨l.flatMap _, hperm.flatMap_right _, hsub.flatMap _⟩

theorem inFlight_update_of_ne (h : ∀ l ∈ legs, l.circ ≠ circ) :
    inFlight legs (Function.update wire circ cells) = inFlight legs wire :=
  List.flatMap_congr fun l hl => by rw [Function.update_of_ne (h l hl)]

theorem inFlight_others :
    inFlight (legs.filter fun l => l.circ ≠ circ) (Function.update wire circ cells) =
      inFlight (legs.filter fun l => l.circ ≠ circ) wire :=
  inFlight_update_of_ne fun l hl => by simpa using (List.mem_filter.mp hl).2

end InFlight

variable {base : ℕ} {s : State}

theorem Linked.inv (h : Linked base s) (hbase : base < 2 ^ 64) : Inv base s := by
  have hflight : inFlight s.receiver.cfx.legs s.wire = [] := by
    simp [inFlight, h.wire, numbered]
  exact {
    sender := {
      toWellFormed := h.sender
      bounded := fun l hl => by simp [h.lastSeqSent l hl]
      current := fun l hl _ => by simp [h.lastSeqSent l hl, h.sent.1]
      unused := fun _ => .inl (by simp [h.sent.1]) }
    receiver := h.receiver
    queue := {
      indexed := fun i a ha => by simp [h.oooQ.1] at ha
      ordered := fun k _ x y hx => by simp [entries, h.oooQ.1] at hx
      bounded := by simp [h.oooQ.1]
      allocCost := by simp [h.oooQ.1, h.oooQ.2] }
    delivered := by simp [h.lastSeqDelivered, h.sent.2]
    agreed := fun l hl r hr _ => by
      rw [h.wire, resolved, h.lastSeqRecv r hr, h.lastSeqSent l hl]
    account := by simp [accounted, hflight, queued, h.oooQ.1, h.sent]
    settled := by simp [h.oooQ.1]
    bounded := by simpa [h.sent.1] using hbase }

theorem Linked.lossless (h : Linked base s) : Lossless base s where
  lanes := h.circuits
  known circ hne := absurd (h.wire circ) hne
  account := by
    have hflight : inFlight s.receiver.cfx.legs s.wire = [] := by
      simp [inFlight, h.wire, numbered]
    simp [accounted, hflight, queued, h.oooQ.1, h.sent]

theorem Inv.numbers (h : Inv base s) :
    ((queued s.receiver.cfx : Multiset (RelayMsg × ℕ)).map Prod.snd +
      (inFlight s.receiver.cfx.legs s.wire : Multiset (RelayMsg × ℕ)).map Prod.snd).Nodup ∧
    ∀ p ∈ (queued s.receiver.cfx : Multiset (RelayMsg × ℕ)) +
        (inFlight s.receiver.cfx.legs s.wire : Multiset (RelayMsg × ℕ)),
      s.receiver.cfx.lastSeqDelivered < p.2 ∧ p.2 < 2 ^ 64 := by
  obtain ⟨hnodup, hrange⟩ := Library.Numbering.numbers_of_le_zipIdx h.account
  simp only [accounted, Multiset.map_add] at hnodup hrange
  obtain ⟨-, hnodup', hdisjoint⟩ := Multiset.nodup_add.mp hnodup
  refine ⟨hnodup', fun p hp => ?_⟩
  have hp' : p.2 ∈ (queued s.receiver.cfx : Multiset (RelayMsg × ℕ)).map Prod.snd +
      (inFlight s.receiver.cfx.legs s.wire : Multiset (RelayMsg × ℕ)).map Prod.snd := by
    rw [← Multiset.map_add]
    exact Multiset.mem_map_of_mem _ hp
  have hin := hrange p.2 (Multiset.mem_add.mpr (.inr hp'))
  have hnot : p.2 ∉ ((s.handedUp.zipIdx (base + 1) : Multiset (RelayMsg × ℕ)).map Prod.snd) :=
    fun hmem => Multiset.disjoint_left.mp hdisjoint hmem hp'
  rw [Multiset.map_coe, List.zipIdx_map_snd, Multiset.mem_coe, List.mem_range'_1] at hnot
  have hbounded := h.bounded
  rw [h.delivered]
  omega

theorem Inv.pending (h : Inv base s) : Pending s.receiver.cfx := by
  obtain ⟨hnodup, hrange⟩ := h.numbers
  have hqueue := (Multiset.nodup_add.mp hnodup).1
  rw [Multiset.map_coe, Multiset.coe_nodup, queued, List.map_map] at hqueue
  exact ⟨hqueue, fun m hm => hrange (m.msg, m.seq) (Multiset.mem_add.mpr (.inl (mem_queued hm)))⟩

theorem Inv.fresh (h : Inv base s) {r : Leg} {cell : Cell} {cells : List Cell}
    (hr : r ∈ s.receiver.cfx.legs) (hwire : s.wire r.circ = cell :: cells) :
    ∀ p ∈ numbered r.lastSeqRecv [cell], Fresh s.receiver.cfx p.2 := by
  intro p hp
  obtain ⟨hnodup, hrange⟩ := h.numbers
  have hflight : p ∈ inFlight s.receiver.cfx.legs s.wire := by
    refine List.mem_flatMap.mpr ⟨r, hr, ?_⟩
    rw [hwire, show cell :: cells = [cell] ++ cells from rfl, numbered_append]
    exact List.mem_append_left _ hp
  obtain ⟨hahead, hbounded⟩ := hrange p (Multiset.mem_add.mpr (.inr hflight))
  refine ⟨hahead, hbounded, fun m hm heq => ?_⟩
  have hqueued : p.2 ∈ (queued s.receiver.cfx : Multiset (RelayMsg × ℕ)).map Prod.snd :=
    Multiset.mem_map.mpr ⟨(m.msg, m.seq), mem_queued hm, heq⟩
  exact Multiset.disjoint_left.mp (Multiset.nodup_add.mp hnodup).2.2 hqueued
    (Multiset.mem_map_of_mem _ hflight)

end TorDaemon.Conflux

import TorDaemon.Conflux.Lane

/-! A conflux set delivers in order and exactly once, up to the bound on the out-of-order
queue: a message that finds the queue full is dropped and its circuit is closed. -/
namespace TorDaemon.Conflux
open Library.Reachability Library.Numbering
variable {base : ℕ} {s s' : State} {em : Emission} {msgs : List RelayMsg} {receiver : Endpoint}
  {r : Leg} {cell : Cell} {cells : List Cell}

theorem inFlight_append {legs : List Leg} (wire : ℕ → List Cell) (cells : List Cell)
    (hnodup : (legs.map Leg.circ).Nodup) (hr : r ∈ legs) :
    (inFlight legs (Function.update wire r.circ (wire r.circ ++ cells))).Perm
      (inFlight legs wire ++ numbered (resolved r.lastSeqRecv (wire r.circ)) cells) := by
  refine (inFlight_perm hnodup hr).trans (List.Perm.trans ?_
    ((inFlight_perm hnodup hr).symm.append_right _))
  rw [Function.update_self, numbered_append, inFlight_others, List.append_assoc,
    List.append_assoc]
  exact List.perm_append_comm.append_left _

/-- A read cell gives way to the cells behind it. -/
theorem inFlight_pop {legs : List Leg} {wire : ℕ → List Cell}
    (hnodup : (legs.map Leg.circ).Nodup) (hr : r ∈ legs) (hwire : wire r.circ = cell :: cells) :
    (numbered r.lastSeqRecv [cell] ++
      inFlight (recordSeq legs r.circ (resolved r.lastSeqRecv [cell]))
        (Function.update wire r.circ cells)).Perm (inFlight legs wire) := by
  refine ((inFlight_recordSeq_perm hnodup hr _).append_left _).trans
    (List.Perm.trans (.of_eq ?_) (inFlight_perm hnodup hr).symm)
  rw [Function.update_self, inFlight_others, hwire, ← List.append_assoc, ← numbered_append]
  rfl

section Send

def afterSend (s : State) (em : Emission) : State :=
  { s with
    sender := em.endpoint
    wire := Function.update s.wire em.circ (s.wire em.circ ++ em.cells)
    sent := s.sent ++ relayed em.cells }

theorem sent_zipIdx (base : ℕ) (sent more : List RelayMsg) : (sent ++ more).zipIdx (base + 1) =
    sent.zipIdx (base + 1) ++ more.zipIdx (base + sent.length + 1) := by
  rw [List.zipIdx_append, Nat.add_right_comm]

/-- The new messages are in flight, if the receiver still has the leg they are on. -/
theorem accounted_send (h : Inv base s) (hem : Emitted base s.sent.length s.sender em)
    (hr : r ∈ s.receiver.cfx.legs) (hcirc : r.circ = em.circ) :
    accounted base (afterSend s em) = accounted base s +
      ((relayed em.cells).zipIdx (base + s.sent.length + 1) : Multiset (RelayMsg × ℕ)) := by
  have hnew : numbered (resolved r.lastSeqRecv (s.wire r.circ)) em.cells =
      (relayed em.cells).zipIdx (base + s.sent.length + 1) := by
    obtain hnil | ⟨l, hl, hlc⟩ := hem.source
    · simp [hnil, numbered, relayed]
    · rw [h.agreed l hl r hr (hcirc.trans hlc.symm)]
      exact hem.numbers l hl hlc
  have hflight := Multiset.coe_eq_coe.mpr (inFlight_append s.wire em.cells h.receiver.nodup hr)
  rw [hnew, ← Multiset.coe_add, hcirc] at hflight
  simp [accounted, afterSend, hflight]

theorem inv_send (h : Inv base s) (hem : Emitted base s.sent.length s.sender em)
    (hn : base + (s.sent ++ relayed em.cells).length < 2 ^ 64) : Inv base (afterSend s em) where
  sender := by simpa [afterSend] using hem.inv
  receiver := h.receiver
  queue := h.queue
  delivered := h.delivered
  agreed l' hl' r hr hcirc := by
    obtain ⟨l, hl, hlc, -, hvalue⟩ := hem.legs l' hl'
    have hagreed := h.agreed l hl r hr (hcirc.trans hlc.symm)
    rw [hvalue, ← hagreed, ← hcirc.trans hlc.symm]
    split_ifs with hc
    · simp only [afterSend, ← hc, Function.update_self, resolved_append]
    · simp only [afterSend, Function.update_of_ne hc]
  account := by
    simp only [afterSend, sent_zipIdx, ← Multiset.coe_add]
    by_cases hr : ∃ r ∈ s.receiver.cfx.legs, r.circ = em.circ
    · obtain ⟨r, hr, hcirc⟩ := hr
      have haccount := accounted_send h hem hr hcirc
      simp only [afterSend] at haccount
      rw [haccount]
      exact Multiset.add_le_add_right h.account
    · push Not at hr
      have haccount : accounted base (afterSend s em) = accounted base s := by
        simp [accounted, afterSend, inFlight_update_of_ne hr]
      simp only [afterSend] at haccount
      rw [haccount]
      exact h.account.trans (Multiset.le_add_right _ _)
  settled := h.settled
  bounded := hn

theorem lossless_send (h : Inv base s) (hl : Lossless base s)
    (hem : Emitted base s.sent.length s.sender em) : Lossless base (afterSend s em) where
  lanes l' hl' := by
    obtain ⟨l, hlm, hlc, -⟩ := hem.legs l' hl'
    obtain ⟨r, hr, hrc⟩ := hl.lanes l hlm
    exact ⟨r, hr, hrc.trans hlc⟩
  known circ hne := by
    by_cases hc : circ = em.circ
    · obtain hnil | ⟨l, hlm, hlc⟩ := hem.source
      · simp only [afterSend, hnil, List.append_nil, Function.update_eq_self] at hne
        exact hl.known circ hne
      · obtain ⟨r, hr, hrc⟩ := hl.lanes l hlm
        exact ⟨r, hr, (hrc.trans hlc).trans hc.symm⟩
    · simp only [afterSend, Function.update_of_ne hc] at hne
      exact hl.known circ hne
  account := by
    obtain hnil | ⟨l, hlm, hlc⟩ := hem.source
    · simpa [accounted, afterSend, hnil, relayed] using hl.account
    · obtain ⟨r, hr, hrc⟩ := hl.lanes l hlm
      rw [accounted_send h hem hr (hrc.trans hlc), hl.account]
      simp [afterSend, sent_zipIdx]

end Send

section Arrive

def afterArrive (s : State) (circ : ℕ) (cells : List Cell) (msgs : List RelayMsg)
    (receiver : Endpoint) : State :=
  { s with
    receiver := receiver
    wire := Function.update s.wire circ cells
    handedUp := s.handedUp ++ msgs }

section
variable (h : Inv base s)
include h

theorem accounted_arrive (hr : r ∈ s.receiver.cfx.legs) (hwire : s.wire r.circ = cell :: cells) :
    accounted base s = (s.handedUp.zipIdx (base + 1) : Multiset (RelayMsg × ℕ)) +
      ((numbered r.lastSeqRecv [cell] ++ queued s.receiver.cfx : List _) +
        (inFlight (recordSeq s.receiver.cfx.legs r.circ (resolved r.lastSeqRecv [cell]))
          (Function.update s.wire r.circ cells) : Multiset (RelayMsg × ℕ))) := by
  have hflight := Multiset.coe_eq_coe.mpr (inFlight_pop h.receiver.nodup hr hwire)
  rw [accounted, ← hflight, ← Multiset.coe_add, ← Multiset.coe_add, add_assoc,
    add_left_comm (queued s.receiver.cfx : Multiset (RelayMsg × ℕ))]

theorem accounted_afterArrive (circ : ℕ) : accounted base (afterArrive s circ cells msgs receiver) =
      (s.handedUp.zipIdx (base + 1) : Multiset (RelayMsg × ℕ)) +
        ((msgs.zipIdx (s.receiver.cfx.lastSeqDelivered + 1) ++ queued receiver.cfx : List _) +
          (inFlight receiver.cfx.legs (Function.update s.wire circ cells) :
            Multiset (RelayMsg × ℕ))) := by
  simp [accounted, afterArrive, sent_zipIdx, h.delivered]

theorem inv_arrive (hr : r ∈ s.receiver.cfx.legs) (hwire : s.wire r.circ = cell :: cells)
    (hreceived : Received s.receiver receiver r cell msgs) :
    Inv base (afterArrive s r.circ cells msgs receiver) where
  sender := h.sender
  receiver := hreceived.wellFormed
  queue := hreceived.queue
  delivered := by
    simp only [afterArrive, hreceived.delivered, h.delivered, List.length_append]
    omega
  agreed l hl r' hr' hcirc := by
    obtain ⟨r₀, hr₀, rfl⟩ := mem_updateLeg.mp (hreceived.legs.subset hr')
    split_ifs at hcirc ⊢ with hc
    · obtain rfl := leg_eq_of_circ_eq h.receiver.nodup hr₀ hr hc
      rw [← h.agreed l hl r₀ hr₀ hcirc, hwire]
      simp only [afterArrive, Function.update_self]
      rw [← resolved_append]
      rfl
    · rw [← h.agreed l hl r₀ hr₀ hcirc]
      simp only [afterArrive, Function.update_of_ne hc]
  account := by
    refine le_trans ?_ ((accounted_arrive h hr hwire).symm.trans_le h.account)
    rw [accounted_afterArrive h]
    exact add_le_add_right (add_le_add (Multiset.coe_le.mpr hreceived.account)
      (Multiset.coe_le.mpr (inFlight_subperm_of_counters (counters_subperm hreceived.legs)))) _
  settled := hreceived.settled h.settled
  bounded := h.bounded

theorem lossless_arrive (hl : Lossless base s) (hr : r ∈ s.receiver.cfx.legs)
    (hwire : s.wire r.circ = cell :: cells) (hreceived : Received s.receiver receiver r cell msgs)
    (hroom : overflows s.receiver r.circ cell = false) :
    Lossless base (afterArrive s r.circ cells msgs receiver) := by
  obtain ⟨hlegs, haccount⟩ := hreceived.lossless hroom
  have hcircs (circ : ℕ) (hc : ∃ r ∈ s.receiver.cfx.legs, r.circ = circ) :
      ∃ r ∈ receiver.cfx.legs, r.circ = circ := by
    obtain ⟨r₀, hr₀, rfl⟩ := hc
    have hmem : r₀.circ ∈ receiver.cfx.legs.map Leg.circ := by
      rw [hlegs, map_circ_recordSeq]
      exact List.mem_map_of_mem hr₀
    exact List.mem_map.mp hmem
  exact {
    lanes := fun l hlm => hcircs l.circ (hl.lanes l hlm)
    known := fun circ hne => by
      by_cases hc : circ = r.circ
      · exact hcircs circ ⟨r, hr, hc.symm⟩
      · simp only [afterArrive, Function.update_of_ne hc] at hne
        exact hcircs circ (hl.known circ hne)
    account := by
      rw [accounted_afterArrive h, Multiset.coe_eq_coe.mpr haccount, hlegs,
        ← accounted_arrive h hr hwire]
      exact hl.account }

end

theorem inv_arrive_closed {circ : ℕ} (cells : List Cell) (h : Inv base s)
    (hclosed : ∀ r ∈ s.receiver.cfx.legs, r.circ ≠ circ) :
    Inv base (afterArrive s circ cells [] s.receiver) where
  sender := h.sender
  receiver := h.receiver
  queue := h.queue
  delivered := by simpa [afterArrive] using h.delivered
  agreed l hl r hr hcirc := by
    simp only [afterArrive, Function.update_of_ne (hclosed r hr)]
    exact h.agreed l hl r hr hcirc
  account := by
    simpa [accounted, afterArrive, inFlight_update_of_ne hclosed] using h.account
  settled := h.settled
  bounded := h.bounded

end Arrive

section Local
variable {event : LocalEvent} {e' : Endpoint}

theorem inv_atSender (h : Inv base s) (hlocal : LocalFrame s.sender e' event) :
    Inv base { s with sender := e' } where
  sender := hlocal.sendInv base _ h.sender
  receiver := h.receiver
  queue := h.queue
  delivered := h.delivered
  agreed l' hl' r hr hcirc := by
    obtain ⟨l, hl, hlc, -, hvalue⟩ := mem_of_counters hlocal.legs hl'
    exact (h.agreed l hl r hr (hcirc.trans hlc.symm)).trans hvalue
  account := h.account
  settled := h.settled
  bounded := h.bounded

theorem lossless_atSender (h : Lossless base s) (hlocal : LocalFrame s.sender e' event) :
    Lossless base { s with sender := e' } where
  lanes l' hl' := by
    obtain ⟨l, hl, hlc, -, -⟩ := mem_of_counters hlocal.legs hl'
    obtain ⟨r, hr, hrc⟩ := h.lanes l hl
    exact ⟨r, hr, hrc.trans hlc⟩
  known := h.known
  account := h.account

theorem inv_atReceiver (h : Inv base s) (hlocal : LocalFrame s.receiver e' event) :
    Inv base { s with receiver := e' } where
  sender := h.sender
  receiver := hlocal.wellFormed
  queue := by
    have hqueue := h.queue
    exact ⟨hlocal.oooQ ▸ hqueue.indexed, hlocal.oooQ ▸ hqueue.ordered,
      hlocal.oooQ ▸ hqueue.bounded, by rw [hlocal.oooQAllocCost, hlocal.oooQ, hqueue.allocCost]⟩
  delivered := hlocal.lastSeqDelivered.trans h.delivered
  agreed l hl r' hr' hcirc := by
    obtain ⟨r, hr, hrc, hvalue, -⟩ := mem_of_counters hlocal.legs hr'
    simp only [← hrc, ← hvalue]
    exact h.agreed l hl r hr (hrc.trans hcirc)
  account := by
    refine le_trans ?_ h.account
    simp only [accounted, queued, hlocal.oooQ]
    exact add_le_add_right (add_le_add_right
      (Multiset.coe_le.mpr (inFlight_subperm_of_counters hlocal.legs)) _) _
  settled := by
    simp only [hlocal.oooQ, hlocal.lastSeqDelivered]
    exact h.settled
  bounded := h.bounded

theorem lossless_atReceiver (h : Lossless base s) (hlocal : LocalFrame s.receiver e' event)
    (hkept : ∀ circ, event ≠ .close circ) : Lossless base { s with receiver := e' } := by
  have hlegs := hlocal.kept hkept
  have hcircs (circ : ℕ) (hc : ∃ r ∈ s.receiver.cfx.legs, r.circ = circ) :
      ∃ r ∈ e'.cfx.legs, r.circ = circ :=
    List.mem_map.mp (map_circ_of_counters hlegs ▸ List.mem_map.mpr hc)
  exact {
    lanes := fun l hl => hcircs l.circ (h.lanes l hl)
    known := fun circ hne => hcircs circ (h.known circ hne)
    account := by
      rw [← h.account]
      simp only [accounted, queued, hlocal.oooQ, inFlight_eq_flatMap, hlegs] }

end Local

section Run

/-- The 64-bit counters do not wrap around. -/
def WithinCounters (base : ℕ) (s : State) : Event → Prop
  | .send .. => base + s.sent.length + 1 < 2 ^ 64
  | _ => True

/-- The receiver has room for what arrives, and keeps its circuits open. -/
def Undisturbed (s : State) : Event → Prop
  | .arrive circ => ∀ cell ∈ (s.wire circ).head?, overflows s.receiver circ cell = false
  | .atReceiver (.close _) => False
  | _ => True

/-- The sender and the wires know no other circuits. -/
structure OnLegs (circs : List ℕ) (s : State) : Prop where
  sender : ∀ l ∈ s.sender.cfx.legs, l.circ ∈ circs
  wire : ∀ circ, s.wire circ ≠ [] → circ ∈ circs

variable {event : Event}

theorem step_send {orig : ℕ} {msg : RelayMsg} {switchPackaging packaging : Packaging}
    (h : Inv base s) (hn : base + s.sent.length + 1 < 2 ^ 64)
    (hstep : step s (.send orig msg switchPackaging packaging) = some s') :
    ∃ em, Emitted base s.sent.length s.sender em ∧ s' = afterSend s em := by
  simp only [step, Option.ite_none_right_eq_some, Option.map_eq_some_iff] at hstep
  obtain ⟨hmux, em, hem, rfl⟩ := hstep
  exact ⟨em, relaySendCommandFromEdge_emitted h.sender hn hmux hem, rfl⟩

theorem step_arrive {circ : ℕ} (hstep : step s (.arrive circ) = some s') :
    ∃ cell cells msgs receiver, s.wire circ = cell :: cells ∧
      processCell s.receiver circ cell = some (msgs, receiver) ∧
      s' = afterArrive s circ cells msgs receiver := by
  simp only [step] at hstep
  cases hwire : s.wire circ with
  | nil => simp [hwire] at hstep
  | cons cell cells =>
    simp only [hwire, Option.map_eq_some_iff] at hstep
    obtain ⟨⟨msgs, receiver⟩, hprocess, rfl⟩ := hstep
    exact ⟨cell, cells, msgs, receiver, rfl, hprocess, rfl⟩

section
variable (h : Inv base s)
include h

theorem Inv.received (hr : r ∈ s.receiver.cfx.legs) (hwire : s.wire r.circ = cell :: cells)
    (hprocess : processCell s.receiver r.circ cell = some (msgs, receiver)) :
    Received s.receiver receiver r cell msgs :=
  processCell_received h.receiver h.queue h.pending hr (h.fresh hr hwire) hprocess

theorem step_inv (hn : WithinCounters base s event)
    (hstep : step s event = some s') : Inv base s' := by
  cases event with
  | send orig msg switchPackaging packaging =>
    obtain ⟨em, hem, rfl⟩ := step_send h hn hstep
    refine inv_send h hem ?_
    have hsingle := hem.single
    simp only [WithinCounters] at hn
    rw [List.length_append]
    omega
  | arrive circ =>
    obtain ⟨cell, cells, msgs, receiver, hwire, hprocess, rfl⟩ := step_arrive hstep
    by_cases hr : ∃ r ∈ s.receiver.cfx.legs, r.circ = circ
    · obtain ⟨r, hr, rfl⟩ := hr
      exact inv_arrive h hr hwire (h.received hr hwire hprocess)
    · push Not at hr
      have hquiet := inv_arrive_closed cells h hr
      obtain ⟨rfl, rfl | rfl⟩ := processCell_stray hr hprocess
      · exact hquiet
      · exact inv_atReceiver hquiet
          (localStep_frame h.receiver (rfl : localStep _ (.close circ) = _))
  | atSender event =>
    obtain ⟨e', hlocal, rfl⟩ := Option.map_eq_some_iff.mp hstep
    exact inv_atSender h (localStep_frame h.sender.toWellFormed hlocal)
  | atReceiver event =>
    obtain ⟨e', hlocal, rfl⟩ := Option.map_eq_some_iff.mp hstep
    exact inv_atReceiver h (localStep_frame h.receiver hlocal)

theorem step_onLegs {circs : List ℕ} (hl : OnLegs circs s)
    (hn : WithinCounters base s event) (hstep : step s event = some s') : OnLegs circs s' := by
  cases event with
  | send orig msg switchPackaging packaging =>
    obtain ⟨em, hem, rfl⟩ := step_send h hn hstep
    refine ⟨fun l' hl' => ?_, fun circ hne => ?_⟩
    · obtain ⟨l, hlm, hlc, -⟩ := hem.legs l' hl'
      exact hlc ▸ hl.sender l hlm
    · by_cases hc : circ = em.circ
      · obtain hnil | ⟨l, hlm, hlc⟩ := hem.source
        · simp only [afterSend, hnil, List.append_nil, Function.update_eq_self] at hne
          exact hl.wire circ hne
        · exact hc ▸ hlc ▸ hl.sender l hlm
      · simp only [afterSend, Function.update_of_ne hc] at hne
        exact hl.wire circ hne
  | arrive circ =>
    obtain ⟨cell, cells, msgs, receiver, hwire, -, rfl⟩ := step_arrive hstep
    refine ⟨hl.sender, fun c hne => hl.wire c ?_⟩
    by_cases hc : c = circ
    · simp [hc, hwire]
    · simpa [afterArrive, Function.update_of_ne hc] using hne
  | atSender event =>
    obtain ⟨e', hlocal, rfl⟩ := Option.map_eq_some_iff.mp hstep
    have hframe := localStep_frame h.sender.toWellFormed hlocal
    refine ⟨fun l' hl' => ?_, hl.wire⟩
    obtain ⟨l, hlm, hlc, -⟩ := mem_of_counters hframe.legs hl'
    exact hlc ▸ hl.sender l hlm
  | atReceiver event =>
    obtain ⟨e', -, rfl⟩ := Option.map_eq_some_iff.mp hstep
    exact ⟨hl.sender, hl.wire⟩

theorem step_lossless (hl : Lossless base s) (hn : WithinCounters base s event)
    (hquiet : Undisturbed s event) (hstep : step s event = some s') : Lossless base s' := by
  cases event with
  | send orig msg switchPackaging packaging =>
    obtain ⟨em, hem, rfl⟩ := step_send h hn hstep
    exact lossless_send h hl hem
  | arrive circ =>
    obtain ⟨cell, cells, msgs, receiver, hwire, hprocess, rfl⟩ := step_arrive hstep
    obtain ⟨r, hr, rfl⟩ := hl.known circ (by simp [hwire])
    exact lossless_arrive h hl hr hwire (h.received hr hwire hprocess)
      (hquiet cell (by simp [hwire]))
  | atSender event =>
    obtain ⟨e', hlocal, rfl⟩ := Option.map_eq_some_iff.mp hstep
    exact lossless_atSender hl (localStep_frame h.sender.toWellFormed hlocal)
  | atReceiver event =>
    obtain ⟨e', hlocal, rfl⟩ := Option.map_eq_some_iff.mp hstep
    refine lossless_atReceiver hl (localStep_frame h.receiver hlocal) fun circ heq => ?_
    subst heq
    exact hquiet

end

/-- Only the circuits that were legs of the sender carry cells. -/
theorem reached_wire {init : State} {circ : ℕ} (hinit : Linked base init) (hbase : base < 2 ^ 64)
    (h : Reached step (WithinCounters base) init s) (hne : s.wire circ ≠ []) :
    circ ∈ init.sender.cfx.legs.map Leg.circ := by
  have hinv : Inv base s ∧ OnLegs (init.sender.cfx.legs.map Leg.circ) s := by
    refine h.invariant (I := fun s => Inv base s ∧ OnLegs (init.sender.cfx.legs.map Leg.circ) s)
      ⟨hinit.inv hbase, fun l => List.mem_map_of_mem, fun c hc => absurd (hinit.wire c) hc⟩
      fun _ _ _ hs hn hstep => ⟨step_inv hs.1 hn hstep, step_onLegs hs.1 hs.2 hn hstep⟩
  exact hinv.2.wire circ hne

theorem Inv.handedUp_prefix (h : Inv base s) : s.handedUp <+: s.sent := by
  refine prefix_of_zipIdx_subset (k := base + 1) fun p hp => ?_
  exact Multiset.mem_of_le h.account (Multiset.mem_add.mpr (.inl hp))

/-- With nothing left in flight, everything that was sent has been handed up: the queue
would need the next message, which no queue holds. -/
theorem Lossless.handedUp_eq (h : Inv base s) (hl : Lossless base s)
    (hwire : ∀ circ, s.wire circ = []) : s.handedUp = s.sent := by
  refine h.handedUp_prefix.eq_of_length (le_antisymm h.handedUp_prefix.length_le ?_)
  by_contra hlt
  have hlt' : s.handedUp.length < s.sent.length := by omega
  have hnext : (s.sent[s.handedUp.length], s.receiver.cfx.lastSeqDelivered + 1) ∈
      accounted base s := by
    rw [hl.account, h.delivered, Nat.add_right_comm]
    exact List.mk_add_mem_zipIdx_iff_getElem?.mpr (List.getElem?_eq_getElem hlt')
  rw [accounted, Multiset.mem_add, Multiset.mem_add, Multiset.mem_coe, Multiset.mem_coe,
    Multiset.mem_coe] at hnext
  obtain hhanded | hqueued | hflight := hnext
  · have hle := List.snd_lt_add_of_mem_zipIdx hhanded
    rw [h.delivered] at hle
    omega
  · obtain ⟨m, hm, heq⟩ := List.mem_map.mp hqueued
    exact h.settled m hm (Prod.ext_iff.mp heq).2
  · simp [inFlight, hwire, numbered] at hflight

/-- Whatever leg each message is sent on and however the legs interleave, what is handed
up is at every moment a prefix of what was sent, and the sender never finds a leg ahead
of its current one. All of it is handed up once everything has arrived, unless the
receiver has closed a circuit: by itself it does so only where its out-of-order queue is
at its bound. -/
theorem reached_delivered_in_order {init : State} (hinit : Linked base init)
    (hbase : base < 2 ^ 64) (h : Reached step (WithinCounters base) init s) :
    s.handedUp <+: s.sent ∧
      (∀ orig cmd packaging e, decideCircForSend s.sender orig cmd packaging ≠
        some (.incoherent, e)) ∧
      (Reached step (fun s e => WithinCounters base s e ∧ Undisturbed s e) init s →
        (∀ circ, s.wire circ = []) → s.handedUp = s.sent) := by
  have hinv : Inv base s :=
    h.invariant (hinit.inv hbase) fun _ _ _ hs hn hstep => step_inv hs hn hstep
  refine ⟨hinv.handedUp_prefix, fun orig cmd packaging e => ?_, fun hquiet hwire => ?_⟩
  · exact decideCircForSend_coherent hinv.sender hinv.bounded
  · have hboth : Inv base s ∧ Lossless base s :=
      hquiet.invariant (I := fun s => Inv base s ∧ Lossless base s)
        ⟨hinit.inv hbase, hinit.lossless⟩ fun _ _ _ hs hguard hstep =>
        ⟨step_inv hs.1 hguard.1 hstep, step_lossless hs.1 hs.2 hguard.1 hguard.2 hstep⟩
    exact hboth.2.handedUp_eq hboth.1 hwire

instance (base : ℕ) (s : State) (event : Event) : Decidable (WithinCounters base s event) := by
  cases event <;> unfold WithinCounters <;> infer_instance

instance (s : State) (event : Event) : Decidable (Undisturbed s event) := by
  cases event with
  | atReceiver event => cases event <;> unfold Undisturbed <;> infer_instance
  | _ => unfold Undisturbed; infer_instance

/-- An end of a set of two legs, the first of which has the lower round-trip time. -/
def twoLegs (base : ℕ) (params : Params) : Endpoint where
  cfx := {
    alg := .minrtt
    legs := [⟨1, base, base, 100⟩, ⟨2, base, base, 200⟩]
    oooQ := ⟨[], fun _ => -1⟩
    oooQAllocCost := 0
    lastSeqDelivered := base
    cellsUntilSwitch := 0
    currLeg := none
    prevLeg := none
    inFullTeardown := false }
  circuits := fun _ => ⟨⟨124, 0, 31, true⟩, false, false⟩
  params := params

def linkedPair (base : ℕ) (params : Params) : State where
  sender := twoLegs base params
  receiver := twoLegs base params
  wire := fun _ => []
  sent := []
  handedUp := []

theorem twoLegs_wellFormed (base : ℕ) (params : Params) : WellFormed (twoLegs base params) where
  nodup := by simp [twoLegs]
  unmarked := by simp [twoLegs]
  curr_mem := by simp [twoLegs]
  teardown := by simp [twoLegs]

theorem linkedPair_linked (base : ℕ) (params : Params) : Linked base (linkedPair base params) where
  sender := twoLegs_wellFormed base params
  receiver := twoLegs_wellFormed base params
  lastSeqSent := by simp [linkedPair, twoLegs]
  lastSeqRecv := by simp [linkedPair, twoLegs]
  lastSeqDelivered := rfl
  circuits := by simp [linkedPair, twoLegs]
  oooQ := ⟨rfl, rfl⟩
  wire _ := rfl
  sent := ⟨rfl, rfl⟩

def dataMsg (streamId : UInt16) : RelayMsg := ⟨.data, streamId, false, [0]⟩

/-- The second message is sent on the second leg and arrives first. -/
def overtaking : List Event :=
  [.send 1 (dataMsg 1) .queued .queued, .atSender (.updateRtt 1 300),
    .send 1 (dataMsg 2) .queued .queued, .arrive 2, .arrive 2, .arrive 1]

def roomy : Params := ⟨0, 2147483647, le_rfl⟩

def cramped : Params := ⟨0, 0, by decide⟩

theorem overtaking_arrived {params : Params} {s : State}
    (h : Reached step (WithinCounters 0) (linkedPair 0 params) s)
    (hwire : s.wire 1 = [] ∧ s.wire 2 = []) : ∀ circ, s.wire circ = [] := by
  intro circ
  by_contra hne
  have hknown := reached_wire (linkedPair_linked 0 params) (by decide) h hne
  simp only [linkedPair, twoLegs, List.map_cons, List.map_nil, List.mem_cons, List.not_mem_nil,
    or_false] at hknown
  obtain rfl | rfl := hknown
  · exact hne hwire.1
  · exact hne hwire.2

theorem reached_delivered_in_order_overtaking :
    ∃ s, run step (linkedPair 0 roomy) overtaking = some s ∧
      s.sent = [dataMsg 1, dataMsg 2] ∧ s.handedUp <+: s.sent ∧ s.handedUp = s.sent := by
  have hrun : (run step (linkedPair 0 roomy) overtaking).map
      (fun s => (s.sent, s.wire 1, s.wire 2)) = some ([dataMsg 1, dataMsg 2], [], []) := by
    decide +kernel
  obtain ⟨s, hs, hresult⟩ := Option.map_eq_some_iff.mp hrun
  simp only [Prod.mk.injEq] at hresult
  have hguard : Guarded step (fun s e => WithinCounters 0 s e ∧ Undisturbed s e)
      (linkedPair 0 roomy) overtaking := by decide +kernel
  have hquiet := Reached.init.of_run hguard hs
  have hreached := hquiet.mono fun _ _ hboth => hboth.1
  have hdelivered :=
    reached_delivered_in_order (linkedPair_linked 0 roomy) (by decide) hreached
  exact ⟨s, hs, hresult.1, hdelivered.1,
    hdelivered.2.2 hquiet (overtaking_arrived hreached hresult.2)⟩

/-- With no room for a message out of order, the one that overtakes is dropped and the set
is closed; with counters that wrap around, the sender finds a leg ahead of its current
one. -/
theorem overtaking_lost_and_wrapped_incoherent : (∃ s, Linked 0 (linkedPair 0 cramped) ∧
      run step (linkedPair 0 cramped) overtaking = some s ∧ (∀ circ, s.wire circ = []) ∧
      s.sent = [dataMsg 1, dataMsg 2] ∧ s.handedUp = []) ∧
    ∃ s, Linked 18446744073709551615 (linkedPair 18446744073709551615 roomy) ∧
      run step (linkedPair 18446744073709551615 roomy) (overtaking.take 2) = some s ∧
      (decideCircForSend s.sender 1 .data .queued).map Prod.fst = some .incoherent := by
  have hlost : (run step (linkedPair 0 cramped) overtaking).map
      (fun s => (s.sent, s.handedUp, s.wire 1, s.wire 2)) =
        some ([dataMsg 1, dataMsg 2], [], [], []) := by decide +kernel
  obtain ⟨s, hs, hresult⟩ := Option.map_eq_some_iff.mp hlost
  simp only [Prod.mk.injEq] at hresult
  have hguard : Guarded step (WithinCounters 0) (linkedPair 0 cramped) overtaking := by
    decide +kernel
  have hreached := Reached.init.of_run hguard hs
  have hwrapped : ((run step (linkedPair 18446744073709551615 roomy) (overtaking.take 2)).bind
      fun s => (decideCircForSend s.sender 1 .data .queued).map Prod.fst) = some .incoherent := by
    decide +kernel
  obtain ⟨s', hs', hdecide⟩ := Option.bind_eq_some_iff.mp hwrapped
  exact ⟨⟨s, linkedPair_linked 0 cramped, hs, overtaking_arrived hreached hresult.2.2,
    hresult.1, hresult.2.1⟩, ⟨s', linkedPair_linked _ roomy, hs', hdecide⟩⟩

end Run

end TorDaemon.Conflux

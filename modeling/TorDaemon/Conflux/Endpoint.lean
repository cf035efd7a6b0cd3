import TorDaemon.Container.Pqueue
import TorDaemon.Container.Smartlist
import TorDaemon.Library.NetworkOrder

/-! One end of a conflux set: the relay messages it multiplexes, the counters of
its legs, its out-of-order queue, and what closing one of its circuits does. -/
namespace TorDaemon.Conflux
open Container Container.Pqueue Library.NetworkOrder

/-- `RELAY_COMMAND_*`; a code without a name is `unknown`. -/
inductive RelayCommand
  | begin | data | endStream | connected | sendme | extend | extended | truncate | truncated
  | drop | resolve | resolved | beginDir | extend2 | extended2 | confluxLink | confluxLinked
  | confluxLinkedAck | confluxSwitch | establishIntro | establishRendezvous | introduce1
  | introduce2 | rendezvous1 | rendezvous2 | introEstablished | rendezvousEstablished
  | introduceAck | paddingNegotiate | paddingNegotiated | xoff | xon
  | unknown (code : UInt8)
  deriving DecidableEq

def shouldMultiplex : RelayCommand → Bool
  | .begin | .data | .endStream | .connected => true
  | .resolve | .resolved => true
  | .xoff | .xon => true
  | _ => false

structure RelayMsg where
  command : RelayCommand
  streamId : UInt16
  isRelayEarly : Bool
  body : Bytes
  deriving DecidableEq

/-- An entry of the out-of-order queue. -/
structure ConfluxMsg where
  seq : ℕ
  msg : RelayMsg
  deriving DecidableEq

/-- `sizeof(conflux_msg_t) + sizeof(relay_msg_t)`, with pointers of 64 bits. -/
def msgSize : ℕ := 24 + 16

def msgAllocCost (m : ConfluxMsg) : ℕ := m.msg.body.length + msgSize

/-- `conflux_queue_cmp`: the lowest sequence number is at the head of the queue. -/
def queueCmp : Comparator ConfluxMsg where
  compare a b := if a.seq < b.seq then -1 else if b.seq < a.seq then 1 else 0
  swapped a b := by split_ifs <;> omega
  chained a b c hab hbc := by split_ifs at * <;> simp at * <;> omega

/-- A counter of the source that has 64 bits. -/
def wrap64 (n : ℕ) : ℕ := n % 2 ^ 64

theorem wrap64_of_lt {n : ℕ} (h : n < 2 ^ 64) : wrap64 n = n := Nat.mod_eq_of_lt h

structure Leg where
  circ : ℕ
  lastSeqRecv : ℕ
  lastSeqSent : ℕ
  circRttsUsec : UInt64

/-- What conflux reads of the congestion control of a circuit. -/
structure CongestionControl where
  cwnd : UInt64
  inflight : UInt64
  sendmeInc : UInt8
  inSlowStart : Bool

/-- `blockedOnChan` is the flag of the channel the end sends on. -/
structure Circuit where
  ccontrol : CongestionControl
  blockedOnChan : Bool
  markedForClose : Bool

inductive Alg
  | minrtt
  | lowrtt
  | cwndrtt

/-- The consensus parameters that are read while a set is in use, within their bounds. -/
structure Params where
  drainPct : UInt8
  maxOooq : ℕ
  maxOooq_le : maxOooq ≤ intMax

/-- `conflux_t`, with a leg named by its circuit. -/
structure ConfluxSet where
  alg : Alg
  legs : List Leg
  oooQ : Smartlist ConfluxMsg
  oooQAllocCost : ℕ
  lastSeqDelivered : ℕ
  cellsUntilSwitch : ℕ
  currLeg : Option ℕ
  prevLeg : Option ℕ
  inFullTeardown : Bool

structure Endpoint where
  cfx : ConfluxSet
  circuits : ℕ → Circuit
  params : Params

section Legs

/-- `conflux_get_leg`. -/
def getLeg (legs : List Leg) (circ : ℕ) : Option Leg := legs.find? fun leg => leg.circ = circ

/-- An assignment through the pointer to the leg of a circuit. -/
def updateLeg (circ : ℕ) (f : Leg → Leg) (legs : List Leg) : List Leg :=
  legs.map fun leg => if leg.circ = circ then f leg else leg

def maxSeqSent (legs : List Leg) : ℕ := legs.foldl (fun n leg => max n leg.lastSeqSent) 0

def maxSeqRecv (legs : List Leg) : ℕ := legs.foldl (fun n leg => max n leg.lastSeqRecv) 0

end Legs

section Closing

/-- `cfx_del_leg`; the result says whether the entire set is to be torn down. -/
def delLeg (cfx : ConfluxSet) (circ : ℕ) (cc : CongestionControl) : ConfluxSet × Bool :=
  match getLeg cfx.legs circ with
  | none => (cfx, false)
  | some leg =>
    let legs := Smartlist.remove (fun l => l.circ = circ) cfx.legs
    let inflight := cc.sendmeInc.toUInt64 ≤ cc.inflight
    -- the leg was in active use by one of the ends
    let ahead := legs ≠ [] ∧
      (maxSeqSent legs < leg.lastSeqSent ∨ maxSeqRecv legs < leg.lastSeqRecv)
    let current := cfx.currLeg = some circ
    ({ cfx with
        legs := legs
        currLeg := if current then none else cfx.currLeg
        prevLeg := if cfx.prevLeg = some circ then none else cfx.prevLeg },
      inflight ∨ ahead ∨ current)

/-- A circuit is marked for close, and its leg leaves the set. -/
def closeLeg (e : Endpoint) (circ : ℕ) : Endpoint × Bool :=
  let circuit := e.circuits circ
  if circuit.markedForClose then (e, false)
  else
    let deleted := delLeg e.cfx circ circuit.ccontrol
    ({ e with
        cfx := deleted.1
        circuits := Function.update e.circuits circ { circuit with markedForClose := true } },
      deleted.2)

/-- `conflux_mark_all_for_close`. A set without legs is not in the pool any more. The
calls of it for the legs that are closed here return at once. -/
def markAllForClose (e : Endpoint) : Endpoint :=
  if e.cfx.legs = [] ∨ e.cfx.inFullTeardown then e
  else (e.cfx.legs.map Leg.circ).foldl (fun e circ => (closeLeg e circ).1)
    { e with cfx := { e.cfx with inFullTeardown := true } }

/-- `circuit_mark_for_close`, with `linked_circuit_closed`. -/
def circuitMarkForClose (e : Endpoint) (circ : ℕ) : Endpoint :=
  let closed := closeLeg e circ
  if closed.2 then markAllForClose closed.1 else closed.1

end Closing

/-! Closing circuits only takes legs out of a set. The set that loses its current leg
loses all of them. -/

section Closing

section Legs
variable {legs : List Leg} {leg : Leg} {circ : ℕ} {f : Leg → Leg}

theorem getLeg_eq_some (h : getLeg legs circ = some leg) : leg ∈ legs ∧ leg.circ = circ := by
  have hcirc := List.find?_some h
  exact ⟨List.mem_of_find?_eq_some h, by simpa using hcirc⟩

theorem leg_eq_of_circ_eq {leg' : Leg} (hnodup : (legs.map Leg.circ).Nodup) (hleg : leg ∈ legs)
    (hleg' : leg' ∈ legs) (h : leg.circ = leg'.circ) : leg = leg' :=
  List.inj_on_of_nodup_map hnodup hleg hleg' h

theorem getLeg_of_mem (hnodup : (legs.map Leg.circ).Nodup) (hleg : leg ∈ legs) :
    getLeg legs leg.circ = some leg := by
  cases h : getLeg legs leg.circ with
  | none => exact absurd (List.find?_eq_none.mp h leg hleg) (by simp)
  | some found =>
    obtain ⟨hfound, hcirc⟩ := getLeg_eq_some h
    rw [leg_eq_of_circ_eq hnodup hfound hleg hcirc]

theorem getLeg_eq_none (h : getLeg legs circ = none) : ∀ l ∈ legs, l.circ ≠ circ := by
  intro l hl heq
  exact absurd (List.find?_eq_none.mp h l hl) (by simp [heq])

theorem map_circ_updateLeg (hf : ∀ l, (f l).circ = l.circ) :
    (updateLeg circ f legs).map Leg.circ = legs.map Leg.circ := by
  simp only [updateLeg, List.map_map]
  refine List.map_congr_left fun l _ => ?_
  simp only [Function.comp_apply]
  split_ifs <;> simp [hf]

theorem mem_updateLeg {leg' : Leg} : leg' ∈ updateLeg circ f legs ↔
    ∃ l ∈ legs, leg' = if l.circ = circ then f l else l := by
  simp only [updateLeg, List.mem_map]
  exact exists_congr fun l => and_congr_right fun _ => eq_comm

theorem legs_perm (hnodup : (legs.map Leg.circ).Nodup) (hleg : leg ∈ legs) :
    legs.Perm (leg :: legs.filter fun l => l.circ ≠ leg.circ) := by
  obtain ⟨a, b, rfl⟩ := List.append_of_mem hleg
  have hsplit : (a ++ leg :: b).filter (fun l => l.circ ≠ leg.circ) = a ++ b := by
    rw [List.map_append, List.map_cons, List.nodup_middle, List.nodup_cons, List.mem_append,
      not_or] at hnodup
    have ha : ∀ l ∈ a, l.circ ≠ leg.circ :=
      fun l hl heq => hnodup.1.1 (heq ▸ List.mem_map_of_mem hl)
    have hb : ∀ l ∈ b, l.circ ≠ leg.circ :=
      fun l hl heq => hnodup.1.2 (heq ▸ List.mem_map_of_mem hl)
    simp only [List.filter_append, List.filter_cons, ne_eq, not_true_eq_false, decide_false]
    rw [List.filter_eq_self.mpr (by simpa using ha), List.filter_eq_self.mpr (by simpa using hb)]
    simp
  rw [hsplit]
  exact List.perm_middle

theorem updateLeg_perm (hnodup : (legs.map Leg.circ).Nodup) (hleg : leg ∈ legs) :
    (updateLeg leg.circ f legs).Perm (f leg :: legs.filter fun l => l.circ ≠ leg.circ) := by
  have hperm := (legs_perm hnodup hleg).map fun l => if l.circ = leg.circ then f l else l
  refine hperm.trans (List.Perm.of_eq ?_)
  rw [List.map_cons, if_pos rfl]
  congr 1
  rw [List.map_congr_left (g := id), List.map_id]
  intro l hl
  rw [if_neg (by simpa using (List.mem_filter.mp hl).2), id]

end Legs

/-- What `circuit_mark_for_close` can change at an end. -/
structure Shrunk (e e' : Endpoint) : Prop where
  legs : e'.cfx.legs.Subperm e.cfx.legs
  marked : ∀ c, (e.circuits c).markedForClose → (e'.circuits c).markedForClose
  gone : ∀ l ∈ e.cfx.legs, l ∈ e'.cfx.legs ∨ (e'.circuits l.circ).markedForClose
  oooQ : e'.cfx.oooQ = e.cfx.oooQ
  oooQAllocCost : e'.cfx.oooQAllocCost = e.cfx.oooQAllocCost
  lastSeqDelivered : e'.cfx.lastSeqDelivered = e.cfx.lastSeqDelivered
  params : e'.params = e.params

theorem Shrunk.refl (e : Endpoint) : Shrunk e e :=
  ⟨.refl _, fun _ h => h, fun _ h => .inl h, rfl, rfl, rfl, rfl⟩

theorem Shrunk.trans {e e' e'' : Endpoint} (h : Shrunk e e') (h' : Shrunk e' e'') :
    Shrunk e e'' where
  legs := h'.legs.trans h.legs
  marked c hc := h'.marked c (h.marked c hc)
  gone l hl := (h.gone l hl).elim (h'.gone l) fun hm => .inr (h'.marked _ hm)
  oooQ := h'.oooQ.trans h.oooQ
  oooQAllocCost := h'.oooQAllocCost.trans h.oooQAllocCost
  lastSeqDelivered := h'.lastSeqDelivered.trans h.lastSeqDelivered
  params := h'.params.trans h.params

/-- The legs of a set are on different circuits, which are open, and the current leg is
one of them. -/
structure OpenLegs (e : Endpoint) : Prop where
  nodup : (e.cfx.legs.map Leg.circ).Nodup
  unmarked : ∀ l ∈ e.cfx.legs, (e.circuits l.circ).markedForClose = false
  curr_mem : ∀ c ∈ e.cfx.currLeg, ∃ l ∈ e.cfx.legs, l.circ = c

variable {e : Endpoint} {circ : ℕ}

theorem delLeg_legs (h : OpenLegs e) (cc : CongestionControl) :
    (delLeg e.cfx circ cc).1.legs.Perm (e.cfx.legs.filter fun l => l.circ ≠ circ) := by
  unfold delLeg
  cases hleg : getLeg e.cfx.legs circ with
  | none =>
    rw [List.filter_eq_self.mpr (by simpa using getLeg_eq_none hleg)]
  | some leg => exact Smartlist.remove_perm_filter h.nodup circ

theorem closeLeg_legs (h : OpenLegs e) :
    (closeLeg e circ).1.cfx.legs.Perm (e.cfx.legs.filter fun l => l.circ ≠ circ) := by
  simp only [closeLeg]
  split_ifs with hmarked
  · rw [List.filter_eq_self.mpr]
    intro l hl
    have hopen := h.unmarked l hl
    simp only [ne_eq, decide_not, Bool.not_eq_eq_eq_not, Bool.not_true, decide_eq_false_iff_not]
    rintro rfl
    simp [hmarked] at hopen
  · exact delLeg_legs h _

theorem mem_closeLeg (h : OpenLegs e) {l : Leg} :
    l ∈ (closeLeg e circ).1.cfx.legs ↔ l ∈ e.cfx.legs ∧ l.circ ≠ circ := by
  simp [(closeLeg_legs h).mem_iff]

theorem closeLeg_marked (e : Endpoint) (circ c : ℕ) :
    ((closeLeg e circ).1.circuits c).markedForClose =
      (decide (c = circ) || (e.circuits c).markedForClose) := by
  by_cases hmarked : (e.circuits circ).markedForClose = true
  · by_cases hc : c = circ <;> simp_all [closeLeg]
  · by_cases hc : c = circ <;> simp_all [closeLeg]

theorem closeLeg_of_unmarked (h : (e.circuits circ).markedForClose = false) :
    closeLeg e circ = ({ e with
      cfx := (delLeg e.cfx circ (e.circuits circ).ccontrol).1
      circuits := Function.update e.circuits circ { e.circuits circ with markedForClose := true } },
      (delLeg e.cfx circ (e.circuits circ).ccontrol).2) := by
  simp [closeLeg, h]

theorem closeLeg_of_marked (h : (e.circuits circ).markedForClose = true) :
    closeLeg e circ = (e, false) := by
  simp [closeLeg, h]

theorem closeLeg_frame (e : Endpoint) (circ : ℕ) : (closeLeg e circ).1.cfx.oooQ = e.cfx.oooQ ∧
      (closeLeg e circ).1.cfx.oooQAllocCost = e.cfx.oooQAllocCost ∧
      (closeLeg e circ).1.cfx.lastSeqDelivered = e.cfx.lastSeqDelivered ∧
      (closeLeg e circ).1.cfx.inFullTeardown = e.cfx.inFullTeardown ∧
      (closeLeg e circ).1.params = e.params := by
  cases hmarked : (e.circuits circ).markedForClose with
  | true => simp [closeLeg_of_marked hmarked]
  | false =>
    rw [closeLeg_of_unmarked hmarked]
    cases hleg : getLeg e.cfx.legs circ <;> simp [delLeg, hleg]

/-- The current leg stays where the entire set need not be torn down. -/
theorem closeLeg_currLeg (e : Endpoint) (circ : ℕ) :
    (closeLeg e circ).1.cfx.currLeg = e.cfx.currLeg ∨
      ((closeLeg e circ).1.cfx.currLeg = none ∧ (closeLeg e circ).2 = true) := by
  cases hmarked : (e.circuits circ).markedForClose with
  | true => exact .inl (by rw [closeLeg_of_marked hmarked])
  | false =>
    rw [closeLeg_of_unmarked hmarked]
    cases hleg : getLeg e.cfx.legs circ with
    | none => exact .inl (by simp only [delLeg, hleg])
    | some leg =>
      by_cases hcurr : e.cfx.currLeg = some circ
      · exact .inr (by simp [delLeg, hleg, hcurr])
      · exact .inl (by simp only [delLeg, hleg, if_neg hcurr])

theorem closeLeg_curr_ne (h : OpenLegs e) : (closeLeg e circ).1.cfx.currLeg ≠ some circ := by
  intro hcurr
  have hsame := (closeLeg_currLeg e circ).resolve_right (by simp [hcurr])
  obtain ⟨l, hl, rfl⟩ := h.curr_mem circ (hsame.symm.trans hcurr)
  simp [closeLeg_of_unmarked (h.unmarked l hl), delLeg, getLeg_of_mem h.nodup hl] at hcurr

theorem closeLeg_shrunk (h : OpenLegs e) (circ : ℕ) : Shrunk e (closeLeg e circ).1 where
  legs := (closeLeg_legs h).subperm.trans List.filter_sublist.subperm
  marked c hc := by simp [closeLeg_marked, hc]
  gone l hl := by
    by_cases hcirc : l.circ = circ
    · exact .inr (by simp [closeLeg_marked, hcirc])
    · exact .inl ((mem_closeLeg h).mpr ⟨hl, hcirc⟩)
  oooQ := (closeLeg_frame e circ).1
  oooQAllocCost := (closeLeg_frame e circ).2.1
  lastSeqDelivered := (closeLeg_frame e circ).2.2.1
  params := (closeLeg_frame e circ).2.2.2.2

theorem closeLeg_openLegs (h : OpenLegs e) (circ : ℕ) : OpenLegs (closeLeg e circ).1 where
  nodup := by
    rw [((closeLeg_legs h).map _).nodup_iff]
    exact h.nodup.sublist (List.filter_sublist.map _)
  unmarked l hl := by
    obtain ⟨hmem, hne⟩ := (mem_closeLeg h).mp hl
    simp [closeLeg_marked, hne, h.unmarked l hmem]
  curr_mem c hc := by
    have hne : c ≠ circ := fun heq => closeLeg_curr_ne h (heq ▸ hc)
    obtain hcurr | ⟨hcurr, -⟩ := closeLeg_currLeg e circ
    · obtain ⟨l, hl, rfl⟩ := h.curr_mem c (hcurr ▸ hc)
      exact ⟨l, (mem_closeLeg h).mpr ⟨hl, hne⟩, rfl⟩
    · simp [hcurr] at hc

/-- The legs of a list of circuits are closed one by one. -/
def closeLegs (e : Endpoint) (circs : List ℕ) : Endpoint :=
  circs.foldl (fun e circ => (closeLeg e circ).1) e

theorem closeLegs_spec (h : OpenLegs e) (circs : List ℕ) :
    OpenLegs (closeLegs e circs) ∧ Shrunk e (closeLegs e circs) ∧
      ∀ l ∈ (closeLegs e circs).cfx.legs, l.circ ∉ circs := by
  induction circs generalizing e with
  | nil => exact ⟨h, .refl e, fun _ _ => List.not_mem_nil⟩
  | cons circ circs ih =>
    obtain ⟨hopen, hshrunk, hgone⟩ := ih (closeLeg_openLegs h circ)
    refine ⟨hopen, (closeLeg_shrunk h circ).trans hshrunk, fun l hl => ?_⟩
    have hbefore := (mem_closeLeg h).mp (hshrunk.legs.subset hl)
    exact List.mem_cons.not.mpr (not_or.mpr ⟨hbefore.2, hgone l hl⟩)

theorem markAllForClose_spec (h : OpenLegs e) :
    OpenLegs (markAllForClose e) ∧ Shrunk e (markAllForClose e) ∧
      (e.cfx.inFullTeardown = false → (markAllForClose e).cfx.legs = []) := by
  unfold markAllForClose
  split_ifs with hdone
  · refine ⟨h, .refl e, fun hteardown => hdone.resolve_right (by simp [hteardown])⟩
  · have hopen : OpenLegs { e with cfx := { e.cfx with inFullTeardown := true } } :=
      ⟨h.nodup, h.unmarked, h.curr_mem⟩
    obtain ⟨hopen', hshrunk, hgone⟩ := closeLegs_spec hopen (e.cfx.legs.map Leg.circ)
    refine ⟨hopen', ⟨hshrunk.legs, hshrunk.marked, hshrunk.gone, hshrunk.oooQ,
      hshrunk.oooQAllocCost, hshrunk.lastSeqDelivered, hshrunk.params⟩, fun _ => ?_⟩
    refine List.eq_nil_iff_forall_not_mem.mpr fun l hl => hgone l hl ?_
    exact List.mem_map_of_mem (hshrunk.legs.subset hl)

/-- A set that is torn down has no leg left. -/
structure WellFormed (e : Endpoint) : Prop extends OpenLegs e where
  teardown : e.cfx.inFullTeardown → e.cfx.legs = []

section
variable (h : WellFormed e)
include h

theorem WellFormed.currLeg_mem : ∀ c ∈ e.cfx.currLeg, c ∈ e.cfx.legs.map Leg.circ :=
  fun c hc => List.mem_map.mpr (h.curr_mem c hc)

theorem WellFormed.congr {e' : Endpoint}
    (hlegs : e'.cfx.legs.map Leg.circ = e.cfx.legs.map Leg.circ)
    (hmarked : ∀ c, (e'.circuits c).markedForClose = (e.circuits c).markedForClose)
    (hcurr : ∀ c ∈ e'.cfx.currLeg, c ∈ e.cfx.legs.map Leg.circ)
    (hdown : e'.cfx.inFullTeardown = e.cfx.inFullTeardown) : WellFormed e' where
  nodup := hlegs ▸ h.nodup
  unmarked l hl := by
    have hmem : l.circ ∈ e.cfx.legs.map Leg.circ := hlegs ▸ List.mem_map_of_mem hl
    obtain ⟨l', hl', hcirc⟩ := List.mem_map.mp hmem
    rw [hmarked, ← hcirc]
    exact h.unmarked l' hl'
  curr_mem c hc := List.mem_map.mp (hlegs ▸ hcurr c hc)
  teardown hin := by
    have hnil := h.teardown (hdown ▸ hin)
    rwa [hnil, List.map_nil, List.map_eq_nil_iff] at hlegs

theorem circuitMarkForClose_spec (circ : ℕ) :
    WellFormed (circuitMarkForClose e circ) ∧ Shrunk e (circuitMarkForClose e circ) ∧
      ((circuitMarkForClose e circ).cfx.currLeg = e.cfx.currLeg ∨
        (circuitMarkForClose e circ).cfx.legs = []) := by
  have hopen := closeLeg_openLegs h.toOpenLegs circ
  have hshrunk := closeLeg_shrunk h.toOpenLegs circ
  have hteardown := (closeLeg_frame e circ).2.2.2.1
  have hdown : (closeLeg e circ).1.cfx.inFullTeardown →
      (closeLeg e circ).1.cfx.legs = [] := by
    rw [hteardown]
    intro hdown
    exact List.subperm_nil.mp (h.teardown hdown ▸ hshrunk.legs)
  simp only [circuitMarkForClose]
  split_ifs with hfull
  · obtain ⟨hopen', hshrunk', hnil⟩ := markAllForClose_spec hopen
    have hlegs : (markAllForClose (closeLeg e circ).1).cfx.legs = [] := by
      cases hin : (closeLeg e circ).1.cfx.inFullTeardown with
      | false => exact hnil hin
      | true => exact List.subperm_nil.mp (hdown hin ▸ hshrunk'.legs)
    exact ⟨⟨hopen', fun _ => hlegs⟩, hshrunk.trans hshrunk', .inr hlegs⟩
  · have hcurr := (closeLeg_currLeg e circ).resolve_right fun hnone => hfull hnone.2
    exact ⟨⟨hopen, hdown⟩, hshrunk, .inl hcurr⟩

theorem markAllForClose_wellFormed : WellFormed (markAllForClose e) ∧ Shrunk e (markAllForClose e) ∧
      (markAllForClose e).cfx.legs = [] := by
  obtain ⟨hopen, hshrunk, hnil⟩ := markAllForClose_spec h.toOpenLegs
  have hlegs : (markAllForClose e).cfx.legs = [] := by
    cases hin : e.cfx.inFullTeardown with
    | false => exact hnil hin
    | true => exact List.subperm_nil.mp (h.teardown hin ▸ hshrunk.legs)
  exact ⟨⟨hopen, fun _ => hlegs⟩, hshrunk, hlegs⟩

end

end Closing

end TorDaemon.Conflux

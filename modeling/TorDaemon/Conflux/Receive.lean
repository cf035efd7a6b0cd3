import Mathlib.Algebra.BigOperators.Group.List.Basic
import TorDaemon.Conflux.Send
import TorDaemon.Container.PqueueCalls

/-! Receiving on a leg: the absolute sequence number of a message, its delivery when it
is the next one, the out-of-order queue otherwise. -/
namespace TorDaemon.Conflux
open Container.Pqueue Library.Heap

/-- `conflux_process_switch_command`, for a cell from the end of the circuit. -/
def processSwitchCommand (e : Endpoint) (circ relativeSeq : ℕ) : Endpoint :=
  match getLeg e.cfx.legs circ with
  | none => circuitMarkForClose e circ
  | some _ => { e with cfx := { e.cfx with
      legs := updateLeg circ
        (fun leg => { leg with lastSeqRecv := wrap64 (leg.lastSeqRecv + relativeSeq) })
        e.cfx.legs } }

/-- `conflux_process_relay_msg`: whether the message is the next one for the streams.
`none` is a failed assertion of the queue. -/
def processRelayMsg (e : Endpoint) (circ : ℕ) (msg : RelayMsg) : Option (Bool × Endpoint) :=
  match getLeg e.cfx.legs circ with
  | none => some (false, circuitMarkForClose e circ)
  | some leg =>
    let seq := wrap64 (leg.lastSeqRecv + 1)
    let cfx := { e.cfx with
      legs := updateLeg circ (fun leg => { leg with lastSeqRecv := seq }) e.cfx.legs }
    let e := { e with cfx := cfx }
    if seq = wrap64 (cfx.lastSeqDelivered + 1) then
      some (true, { e with cfx := { cfx with
        lastSeqDelivered := wrap64 (cfx.lastSeqDelivered + 1) } })
    else if seq ≤ cfx.lastSeqDelivered then some (false, circuitMarkForClose e circ)
    else if e.params.maxOooq ≤ cfx.oooQAllocCost then some (false, circuitMarkForClose e circ)
    else do
      let queued : ConfluxMsg := ⟨seq, msg⟩
      let oooQ ← pqueueAdd queueCmp cfx.oooQ queued
      some (false, { e with cfx := { cfx with
        oooQ := oooQ, oooQAllocCost := cfx.oooQAllocCost + msgAllocCost queued } })

/-- The set after the head of its queue is taken out for delivery. -/
def afterDequeue (cfx : ConfluxSet) (top : ConfluxMsg) (oooQ : Smartlist ConfluxMsg) : ConfluxSet :=
  { cfx with
    oooQ := oooQ
    oooQAllocCost := cfx.oooQAllocCost - msgAllocCost top
    lastSeqDelivered := wrap64 (cfx.lastSeqDelivered + 1) }

/-- `conflux_dequeue_relay_msg`, on a circuit of the set. -/
def dequeueRelayMsg (e : Endpoint) (circ : ℕ) : Option (ConfluxMsg × Endpoint) :=
  if (e.circuits circ).markedForClose then none
  else do
    let (top, oooQ) ← pqueuePop queueCmp e.cfx.oooQ
    if top.seq = wrap64 (e.cfx.lastSeqDelivered + 1) then
      some (top, { e with cfx := afterDequeue e.cfx top oooQ })
    else none

theorem dequeueRelayMsg_eq_some {e e' : Endpoint} {circ : ℕ} {top : ConfluxMsg}
    (h : dequeueRelayMsg e circ = some (top, e')) :
    ∃ oooQ, pqueuePop queueCmp e.cfx.oooQ = some (top, oooQ) ∧
      top.seq = wrap64 (e.cfx.lastSeqDelivered + 1) ∧
      e' = { e with cfx := afterDequeue e.cfx top oooQ } := by
  simp only [dequeueRelayMsg, Option.ite_none_left_eq_some] at h
  obtain ⟨⟨first, oooQ⟩, hpop, hnext⟩ := Option.bind_eq_some_iff.mp h.2
  simp only [Option.ite_none_right_eq_some, Option.some.injEq, Prod.mk.injEq] at hnext
  obtain ⟨hseq, rfl, rfl⟩ := hnext
  exact ⟨oooQ, hpop, hseq, rfl⟩

theorem dequeueRelayMsg_length {e e' : Endpoint} {circ : ℕ} {top : ConfluxMsg}
    (h : dequeueRelayMsg e circ = some (top, e')) :
    e'.cfx.oooQ.list.length < e.cfx.oooQ.list.length := by
  obtain ⟨oooQ, hpop, -, rfl⟩ := dequeueRelayMsg_eq_some h
  rw [pqueuePop_length hpop]
  exact Nat.lt_succ_self _

/-- The loop of the caller: the messages that it hands to the streams. -/
def drainQueue (e : Endpoint) (circ : ℕ) : List RelayMsg × Endpoint :=
  match _ : dequeueRelayMsg e circ with
  | none => ([], e)
  | some (top, e') =>
    let rest := drainQueue e' circ
    (top.msg :: rest.1, rest.2)
termination_by e.cfx.oooQ.list.length
decreasing_by exact dequeueRelayMsg_length ‹_›

/-- A cell that arrives on a circuit: the messages handed to the streams. A circuit that
is marked for close reads no cell. -/
def processCell (e : Endpoint) (circ : ℕ) (cell : Cell) : Option (List RelayMsg × Endpoint) :=
  if (e.circuits circ).markedForClose then some ([], e)
  else
    match cell with
    | .switch relativeSeq => some ([], processSwitchCommand e circ relativeSeq)
    | .relay msg => do
      let (ordered, e) ← processRelayMsg e circ msg
      if ordered then
        let rest := drainQueue e circ
        some (msg :: rest.1, rest.2)
      else some ([], e)

/-! What the receiver does with a message: it is handed up with everything in the queue
that follows it, or it waits in the queue, or the queue is full and its circuit closes. -/

section ReceiveOrder

/-- The messages of the out-of-order queue with their sequence numbers. -/
def queued (cfx : ConfluxSet) : List (RelayMsg × ℕ) := cfx.oooQ.list.map fun m => (m.msg, m.seq)

theorem mem_queued {cfx : ConfluxSet} {m : ConfluxMsg} (h : m ∈ cfx.oooQ.list) :
    (m.msg, m.seq) ∈ queued cfx := List.mem_map_of_mem h

/-- The out-of-order queue is a heap, and its cost is accounted for. -/
structure QueueInv (cfx : ConfluxSet) : Prop where
  indexed : Indexed cfx.oooQ
  ordered : Ordered queueCmp.le (entries cfx.oooQ)
  bounded : cfx.oooQ.list.length ≤ intMax
  allocCost : cfx.oooQAllocCost = (cfx.oooQ.list.map msgAllocCost).sum

/-- The queue holds each message once, and only messages that are still to be delivered. -/
structure Pending (cfx : ConfluxSet) : Prop where
  nodup : (cfx.oooQ.list.map ConfluxMsg.seq).Nodup
  ahead : ∀ m ∈ cfx.oooQ.list, cfx.lastSeqDelivered < m.seq ∧ m.seq < 2 ^ 64

theorem queueCmp_le {a b : ConfluxMsg} : queueCmp.le a b ↔ a.seq ≤ b.seq := by
  simp only [Comparator.le, queueCmp]
  split_ifs <;> simp <;> omega

variable {e e' : Endpoint} {circ : ℕ} {oooQ : Smartlist ConfluxMsg}

theorem next_notMem_of_dequeue_none (hordered : Ordered queueCmp.le (entries e.cfx.oooQ))
    (hpending : Pending e.cfx) (hopen : (e.circuits circ).markedForClose = false)
    (h : dequeueRelayMsg e circ = none) :
    ∀ m ∈ e.cfx.oooQ.list, m.seq ≠ e.cfx.lastSeqDelivered + 1 := by
  intro m hm hnext
  cases hlist : e.cfx.oooQ.list with
  | nil => simp [hlist] at hm
  | cons top rest =>
    have hpop := pqueuePop_eq (c := queueCmp) hlist
    have hle := queueCmp_le.mp (pqueuePop_le hpop hordered m hm)
    have htop := hpending.ahead top (by simp [hlist])
    have hseq : top.seq = wrap64 (e.cfx.lastSeqDelivered + 1) := by
      rw [wrap64_of_lt (by omega)]
      omega
    simp [dequeueRelayMsg, hopen, hpop, hseq] at h

theorem afterDequeue_spec {top : ConfluxMsg} {cfx : ConfluxSet}
    (hinv : QueueInv cfx) (hpending : Pending cfx)
    (hpop : pqueuePop queueCmp cfx.oooQ = some (top, oooQ))
    (hseq : top.seq = wrap64 (cfx.lastSeqDelivered + 1)) :
    QueueInv (afterDequeue cfx top oooQ) ∧ Pending (afterDequeue cfx top oooQ) ∧
      top.seq = cfx.lastSeqDelivered + 1 ∧
      (queued cfx).Perm ((top.msg, top.seq) :: queued (afterDequeue cfx top oooQ)) := by
  obtain ⟨hremoved, hordered⟩ := pqueuePop_spec hpop hinv.indexed hinv.bounded hinv.ordered
  have htop := hpending.ahead top (hremoved.perm.mem_iff.mpr List.mem_cons_self)
  have hnext : wrap64 (cfx.lastSeqDelivered + 1) = cfx.lastSeqDelivered + 1 :=
    wrap64_of_lt (by omega)
  have hlen := hremoved.perm.length_eq
  have hbounded := hinv.bounded
  have hsum := (hremoved.perm.map msgAllocCost).sum_eq
  simp only [List.length_cons, List.map_cons, List.sum_cons] at hlen hsum
  have hnodup := (hremoved.perm.map ConfluxMsg.seq).nodup_iff.mp hpending.nodup
  rw [List.map_cons, List.nodup_cons] at hnodup
  refine ⟨⟨hremoved.indexed, hordered, ?_, ?_⟩, ⟨hnodup.2, fun m hm => ?_⟩, hseq.trans hnext,
    hremoved.perm.map _⟩
  · simp only [afterDequeue]
    omega
  · have hcost := hinv.allocCost
    simp only [afterDequeue]
    omega
  · have hbefore := hpending.ahead m (hremoved.perm.mem_iff.mpr (List.mem_cons_of_mem _ hm))
    have hne : m.seq ≠ top.seq := fun heq => hnodup.1 (heq ▸ List.mem_map_of_mem hm)
    simp only [afterDequeue]
    omega

/-- What delivering messages from the queue can change, and what it delivers. -/
structure Drained (e e' : Endpoint) (circ : ℕ) (msgs : List RelayMsg) : Prop where
  legs : e'.cfx.legs = e.cfx.legs
  currLeg : e'.cfx.currLeg = e.cfx.currLeg
  teardown : e'.cfx.inFullTeardown = e.cfx.inFullTeardown
  circuits : e'.circuits = e.circuits
  params : e'.params = e.params
  queue : QueueInv e'.cfx
  delivered : e'.cfx.lastSeqDelivered = e.cfx.lastSeqDelivered + msgs.length
  account : (queued e.cfx).Perm (msgs.zipIdx (e.cfx.lastSeqDelivered + 1) ++ queued e'.cfx)
  settled : (e.circuits circ).markedForClose = false →
    ∀ m ∈ e'.cfx.oooQ.list, m.seq ≠ e'.cfx.lastSeqDelivered + 1

theorem drainQueue_spec (circ : ℕ) (hinv : QueueInv e.cfx) (hpending : Pending e.cfx) :
    Drained e (drainQueue e circ).2 circ (drainQueue e circ).1 := by
  fun_induction drainQueue e circ with
  | case1 e h =>
    exact ⟨rfl, rfl, rfl, rfl, rfl, hinv, rfl, .refl _,
      fun hopen => next_notMem_of_dequeue_none hinv.ordered hpending hopen h⟩
  | case2 e top e' h rest ih =>
    obtain ⟨oooQ, hpop, hseq, rfl⟩ := dequeueRelayMsg_eq_some h
    obtain ⟨hinv', hpending', hnext, hperm⟩ := afterDequeue_spec hinv hpending hpop hseq
    have hrest : Drained _ rest.2 circ rest.1 := ih hinv' hpending'
    have hdelivered : (afterDequeue e.cfx top oooQ).lastSeqDelivered =
        e.cfx.lastSeqDelivered + 1 := hseq.symm.trans hnext
    refine ⟨hrest.legs, hrest.currLeg, hrest.teardown, hrest.circuits, hrest.params,
      hrest.queue, ?_, ?_, hrest.settled⟩
    · rw [hrest.delivered, hdelivered, List.length_cons]
      omega
    · have haccount := hrest.account
      simp only [hdelivered] at haccount
      rw [List.zipIdx_cons, List.cons_append, ← hnext]
      exact hperm.trans ((hnext ▸ haccount).cons _)

/-- The counter of the leg of a circuit becomes `seq`. -/
def recordSeq (legs : List Leg) (circ seq : ℕ) : List Leg :=
  updateLeg circ (fun leg => { leg with lastSeqRecv := seq }) legs

theorem map_circ_recordSeq (legs : List Leg) (circ seq : ℕ) :
    (recordSeq legs circ seq).map Leg.circ = legs.map Leg.circ :=
  map_circ_updateLeg fun _ => rfl

/-- The end after a cell has moved the counter of its leg. -/
def counted (e : Endpoint) (circ seq : ℕ) : Endpoint :=
  { e with cfx := { e.cfx with legs := recordSeq e.cfx.legs circ seq } }

/-- The out-of-order queue has no room for the message in the cell. -/
def overflows (e : Endpoint) (circ : ℕ) : Cell → Bool
  | .switch _ => false
  | .relay _ =>
    match getLeg e.cfx.legs circ with
    | none => false
    | some leg => decide (wrap64 (leg.lastSeqRecv + 1) ≠ wrap64 (e.cfx.lastSeqDelivered + 1) ∧
        e.params.maxOooq ≤ e.cfx.oooQAllocCost)

/-- What reading a cell on a leg can change, and what it hands up. Nothing is lost unless
the queue has no room. -/
structure Received (e e' : Endpoint) (leg : Leg) (cell : Cell) (msgs : List RelayMsg) :
    Prop where
  wellFormed : WellFormed e'
  queue : QueueInv e'.cfx
  delivered : e'.cfx.lastSeqDelivered = e.cfx.lastSeqDelivered + msgs.length
  legs : e'.cfx.legs.Subperm
    (recordSeq e.cfx.legs leg.circ (resolved leg.lastSeqRecv [cell]))
  account : (msgs.zipIdx (e.cfx.lastSeqDelivered + 1) ++ queued e'.cfx).Subperm
    (numbered leg.lastSeqRecv [cell] ++ queued e.cfx)
  settled : (∀ m ∈ e.cfx.oooQ.list, m.seq ≠ e.cfx.lastSeqDelivered + 1) →
    ∀ m ∈ e'.cfx.oooQ.list, m.seq ≠ e'.cfx.lastSeqDelivered + 1
  lossless : overflows e leg.circ cell = false →
    e'.cfx.legs = recordSeq e.cfx.legs leg.circ (resolved leg.lastSeqRecv [cell]) ∧
      (msgs.zipIdx (e.cfx.lastSeqDelivered + 1) ++ queued e'.cfx).Perm
        (numbered leg.lastSeqRecv [cell] ++ queued e.cfx)

theorem WellFormed.counted (h : WellFormed e) (circ seq : ℕ) : WellFormed (counted e circ seq) :=
  h.congr (map_circ_recordSeq ..) (fun _ => rfl) h.currLeg_mem rfl

theorem updateLeg_eq_recordSeq {legs : List Leg} {leg : Leg} {f : Leg → Leg} {seq : ℕ}
    (hnodup : (legs.map Leg.circ).Nodup) (hleg : leg ∈ legs)
    (hf : f leg = { leg with lastSeqRecv := seq }) :
    updateLeg leg.circ f legs = recordSeq legs leg.circ seq := by
  refine List.map_congr_left fun l hl => ?_
  by_cases hc : l.circ = leg.circ
  · obtain rfl := leg_eq_of_circ_eq hnodup hl hleg hc
    simp [hf]
  · simp [hc]

theorem processSwitchCommand_received {leg : Leg} {relativeSeq : ℕ} (h : WellFormed e)
    (hqueue : QueueInv e.cfx) (hleg : leg ∈ e.cfx.legs) :
    Received e (processSwitchCommand e leg.circ relativeSeq) leg (.switch relativeSeq) [] := by
  have hlegs := updateLeg_eq_recordSeq (f := fun leg =>
    { leg with lastSeqRecv := wrap64 (leg.lastSeqRecv + relativeSeq) }) h.nodup hleg rfl
  simp only [processSwitchCommand, getLeg_of_mem h.nodup hleg, hlegs]
  exact {
    wellFormed := h.counted leg.circ _
    queue := ⟨hqueue.indexed, hqueue.ordered, hqueue.bounded, hqueue.allocCost⟩
    delivered := rfl
    legs := .refl _
    account := .refl _
    settled := fun hsettled => hsettled
    lossless := fun _ => ⟨rfl, .refl _⟩ }

/-- The message is the next one, or has no room, or goes into the queue. -/
theorem processRelayMsg_cases {leg : Leg} {msg : RelayMsg} {seq : ℕ} {ordered : Bool}
    (h : WellFormed e) (hleg : leg ∈ e.cfx.legs) (hseq : wrap64 (leg.lastSeqRecv + 1) = seq)
    (hahead : e.cfx.lastSeqDelivered < seq)
    (hnext : wrap64 (e.cfx.lastSeqDelivered + 1) = e.cfx.lastSeqDelivered + 1)
    (hprocess : processRelayMsg e leg.circ msg = some (ordered, e')) :
    let e₁ := counted e leg.circ seq
    (ordered = true ∧ seq = e.cfx.lastSeqDelivered + 1 ∧
      e' = { e₁ with cfx := { e₁.cfx with lastSeqDelivered := e.cfx.lastSeqDelivered + 1 } }) ∨
    (ordered = false ∧ overflows e leg.circ (.relay msg) = true ∧
      e' = circuitMarkForClose e₁ leg.circ) ∨
    (ordered = false ∧ seq ≠ e.cfx.lastSeqDelivered + 1 ∧
      e.cfx.oooQAllocCost < intMax ∧
      ∃ oooQ, pqueueAdd queueCmp e.cfx.oooQ ⟨seq, msg⟩ = some oooQ ∧
        e' = { e₁ with cfx := { e₁.cfx with
          oooQ := oooQ, oooQAllocCost := e.cfx.oooQAllocCost + msgAllocCost ⟨seq, msg⟩ } }) := by
  have hlegs : updateLeg leg.circ (fun l => { l with lastSeqRecv := seq }) e.cfx.legs =
    recordSeq e.cfx.legs leg.circ seq := rfl
  simp only [processRelayMsg, getLeg_of_mem h.nodup hleg, hseq, hnext, hlegs] at hprocess
  split_ifs at hprocess with heq hle hfull
  · simp only [Option.some.injEq, Prod.mk.injEq] at hprocess
    obtain ⟨rfl, rfl⟩ := hprocess
    exact .inl ⟨rfl, heq, rfl⟩
  · omega
  · simp only [Option.some.injEq, Prod.mk.injEq] at hprocess
    obtain ⟨rfl, rfl⟩ := hprocess
    refine .inr (.inl ⟨rfl, ?_, rfl⟩)
    simp [overflows, getLeg_of_mem h.nodup hleg, hseq, hnext, heq, hfull]
  · simp only [Option.bind_eq_bind, Option.bind_eq_some_iff, Option.some.injEq,
      Prod.mk.injEq] at hprocess
    obtain ⟨oooQ, hadd, rfl, rfl⟩ := hprocess
    have hmax := e.params.maxOooq_le
    exact .inr (.inr ⟨rfl, heq, by omega, oooQ, hadd, rfl⟩)

theorem QueueInv.length_le {cfx : ConfluxSet} (h : QueueInv cfx) :
    cfx.oooQ.list.length ≤ cfx.oooQAllocCost := by
  rw [h.allocCost]
  induction cfx.oooQ.list with
  | nil => simp
  | cons m list ih =>
    simp only [List.map_cons, List.sum_cons, List.length_cons, msgAllocCost, msgSize]
    omega

/-- A message that can be put in the queue or handed up. -/
structure Fresh (cfx : ConfluxSet) (seq : ℕ) : Prop where
  ahead : cfx.lastSeqDelivered < seq
  bounded : seq < 2 ^ 64
  fresh : ∀ m ∈ cfx.oooQ.list, m.seq ≠ seq

variable {leg : Leg} {msg : RelayMsg} {seq : ℕ}

section
variable (h : WellFormed e)
include h

section
variable (hqueue : QueueInv e.cfx)
include hqueue

theorem received_next (hpending : Pending e.cfx)
    (hleg : leg ∈ e.cfx.legs) (hseq : wrap64 (leg.lastSeqRecv + 1) = seq)
    (hfresh : Fresh e.cfx seq) (hnext : seq = e.cfx.lastSeqDelivered + 1) :
    let e₁ := counted e leg.circ seq
    let e₂ := { e₁ with cfx := { e₁.cfx with lastSeqDelivered := e.cfx.lastSeqDelivered + 1 } }
    Received e (drainQueue e₂ leg.circ).2 leg (.relay msg)
      (msg :: (drainQueue e₂ leg.circ).1) := by
  intro e₁ e₂
  have hpending' : Pending e₂.cfx := {
    nodup := hpending.nodup
    ahead := fun m hm => by
      have hbefore := hpending.ahead m hm
      have hne := hfresh.fresh m hm
      simp only [e₂]
      omega }
  have hqueue' : QueueInv e₂.cfx := ⟨hqueue.indexed, hqueue.ordered, hqueue.bounded,
    hqueue.allocCost⟩
  have hdrained := drainQueue_spec leg.circ hqueue' hpending'
  have hwf : WellFormed (drainQueue e₂ leg.circ).2 :=
    (h.counted leg.circ seq).congr (congrArg _ hdrained.legs)
      (fun c => by rw [hdrained.circuits])
      (by rw [hdrained.currLeg]; exact (h.counted leg.circ seq).currLeg_mem) hdrained.teardown
  have hresolved : resolved leg.lastSeqRecv [.relay msg] = seq := hseq
  have haccount : ((msg :: (drainQueue e₂ leg.circ).1).zipIdx (e.cfx.lastSeqDelivered + 1) ++
      queued (drainQueue e₂ leg.circ).2.cfx).Perm
        (numbered leg.lastSeqRecv [.relay msg] ++ queued e.cfx) := by
    simp only [numbered, hseq, hnext, List.zipIdx_cons, List.cons_append, List.nil_append]
    exact hdrained.account.symm.cons _
  exact {
    wellFormed := hwf
    queue := hdrained.queue
    delivered := by
      rw [hdrained.delivered, List.length_cons]
      simp only [e₂]
      omega
    legs := by rw [hdrained.legs, hresolved]; exact .refl _
    account := haccount.subperm
    settled := fun _ => hdrained.settled (h.unmarked leg hleg)
    lossless := fun _ => ⟨by rw [hdrained.legs, hresolved]; rfl, haccount⟩ }

theorem received_overflow
    (hseq : wrap64 (leg.lastSeqRecv + 1) = seq) (hfull : overflows e leg.circ (.relay msg) = true) :
    Received e (circuitMarkForClose (counted e leg.circ seq) leg.circ) leg (.relay msg) [] := by
  obtain ⟨hwf, hshrunk, -⟩ := circuitMarkForClose_spec (h.counted leg.circ seq) leg.circ
  have hoooQ : (circuitMarkForClose (counted e leg.circ seq) leg.circ).cfx.oooQ = e.cfx.oooQ :=
    hshrunk.oooQ
  have hresolved : resolved leg.lastSeqRecv [.relay msg] = seq := hseq
  exact {
    wellFormed := hwf
    queue := {
      indexed := hoooQ ▸ hqueue.indexed
      ordered := hoooQ ▸ hqueue.ordered
      bounded := hoooQ ▸ hqueue.bounded
      allocCost := by
        rw [hoooQ, hshrunk.oooQAllocCost]
        exact hqueue.allocCost }
    delivered := hshrunk.lastSeqDelivered
    legs := hresolved ▸ hshrunk.legs
    account := by
      simp only [queued, hoooQ, List.zipIdx_nil, List.nil_append]
      exact (List.sublist_append_right ..).subperm
    settled := fun hsettled m hm => by
      rw [hshrunk.lastSeqDelivered]
      exact hsettled m (hoooQ ▸ hm)
    lossless := fun hroom => by simp [hroom] at hfull }

theorem received_queued (hseq : wrap64 (leg.lastSeqRecv + 1) = seq)
    (hfresh : Fresh e.cfx seq) (hnext : seq ≠ e.cfx.lastSeqDelivered + 1)
    (hroom : e.cfx.oooQAllocCost < intMax)
    (hadd : pqueueAdd queueCmp e.cfx.oooQ ⟨seq, msg⟩ = some oooQ) : let e₁ := counted e leg.circ seq
    Received e { e₁ with cfx := { e₁.cfx with
      oooQ := oooQ, oooQAllocCost := e.cfx.oooQAllocCost + msgAllocCost ⟨seq, msg⟩ } }
      leg (.relay msg) [] := by
  have hitem : (⟨seq, msg⟩ : ConfluxMsg) ∉ e.cfx.oooQ.list := fun hm => hfresh.fresh _ hm rfl
  obtain ⟨hperm, hindexed, -⟩ := pqueueAdd_rearranged hadd hitem hqueue.indexed
  have hlen := hperm.length_eq
  have hlength := hqueue.length_le
  have hsum := (hperm.map msgAllocCost).sum_eq
  simp only [List.length_cons, List.map_cons, List.sum_cons] at hlen hsum
  have hresolved : resolved leg.lastSeqRecv [.relay msg] = seq := hseq
  have haccount : (oooQ.list.map fun m => (m.msg, m.seq)).Perm
      (numbered leg.lastSeqRecv [.relay msg] ++ queued e.cfx) := by
    simp only [numbered, hseq, List.cons_append, List.nil_append]
    exact hperm.map _
  exact {
    wellFormed := (h.counted leg.circ seq).congr rfl (fun _ => rfl)
      (h.counted leg.circ seq).currLeg_mem rfl
    queue := {
      indexed := hindexed
      ordered := pqueueAdd_ordered hadd hqueue.ordered
      bounded := by simp only; omega
      allocCost := by
        have hcost := hqueue.allocCost
        simp only
        omega }
    delivered := rfl
    legs := by rw [hresolved]; exact .refl _
    account := haccount.subperm
    settled := fun hsettled m hm => by
      obtain rfl | hold := List.mem_cons.mp (hperm.mem_iff.mp hm)
      · exact hnext
      · exact hsettled m hold
    lossless := fun _ => ⟨by rw [hresolved]; rfl, haccount⟩ }

theorem processCell_received {cell : Cell} {msgs : List RelayMsg} (hpending : Pending e.cfx) (hleg : leg ∈ e.cfx.legs)
    (hfresh : ∀ p ∈ numbered leg.lastSeqRecv [cell], Fresh e.cfx p.2)
    (hprocess : processCell e leg.circ cell = some (msgs, e')) : Received e e' leg cell msgs := by
  simp only [processCell, h.unmarked leg hleg, Bool.false_eq_true, if_false] at hprocess
  cases cell with
  | switch relativeSeq =>
    obtain ⟨rfl, rfl⟩ := hprocess
    exact processSwitchCommand_received h hqueue hleg
  | relay msg =>
    have hfresh' := hfresh (msg, wrap64 (leg.lastSeqRecv + 1)) (by simp [numbered])
    have hnext : wrap64 (e.cfx.lastSeqDelivered + 1) = e.cfx.lastSeqDelivered + 1 :=
      wrap64_of_lt (lt_of_le_of_lt hfresh'.ahead hfresh'.bounded)
    simp only [Option.bind_eq_bind, Option.bind_eq_some_iff] at hprocess
    obtain ⟨⟨ordered, e₁⟩, hmsg, hrest⟩ := hprocess
    obtain ⟨rfl, hseq, rfl⟩ | ⟨rfl, hfull, rfl⟩ | ⟨rfl, hne, hroom, oooQ, hadd, rfl⟩ :=
      processRelayMsg_cases h hleg rfl hfresh'.ahead hnext hmsg
    · simp only [if_true, Option.some.injEq, Prod.mk.injEq] at hrest
      obtain ⟨rfl, rfl⟩ := hrest
      exact received_next h hqueue hpending hleg rfl hfresh' hseq
    · simp only [Bool.false_eq_true, if_false, Option.some.injEq, Prod.mk.injEq] at hrest
      obtain ⟨rfl, rfl⟩ := hrest
      exact received_overflow h hqueue rfl hfull
    · simp only [Bool.false_eq_true, if_false, Option.some.injEq, Prod.mk.injEq] at hrest
      obtain ⟨rfl, rfl⟩ := hrest
      exact received_queued h hqueue rfl hfresh' hne hroom hadd

end

end

theorem processCell_stray {cell : Cell} {msgs : List RelayMsg}
    (hstray : ∀ l ∈ e.cfx.legs, l.circ ≠ circ)
    (hprocess : processCell e circ cell = some (msgs, e')) :
    msgs = [] ∧ (e' = e ∨ e' = circuitMarkForClose e circ) := by
  have hnone : getLeg e.cfx.legs circ = none :=
    List.find?_eq_none.mpr fun l hl => by simpa using hstray l hl
  simp only [processCell] at hprocess
  split_ifs at hprocess
  · simp only [Option.some.injEq, Prod.mk.injEq] at hprocess
    obtain ⟨rfl, rfl⟩ := hprocess
    exact ⟨rfl, .inl rfl⟩
  · cases cell with
    | switch relativeSeq =>
      simp only [processSwitchCommand, hnone, Option.some.injEq, Prod.mk.injEq] at hprocess
      exact ⟨hprocess.1.symm, .inr hprocess.2.symm⟩
    | relay msg =>
      simp only [processRelayMsg, hnone, Option.bind_eq_bind, Option.bind_some,
        Bool.false_eq_true, if_false, Option.some.injEq, Prod.mk.injEq] at hprocess
      exact ⟨hprocess.1.symm, .inr hprocess.2.symm⟩

end ReceiveOrder

end TorDaemon.Conflux

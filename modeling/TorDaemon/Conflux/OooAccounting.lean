import TorDaemon.Conflux.Receive

/-! The memory of the out-of-order queues: what each set counts, and the total that all sets
share (`conflux.c`, `conflux_pool.c`). -/
namespace TorDaemon.Conflux
open Container.Pqueue Library.Reachability

section Operations

/-- `conflux_process_relay_msg` with the total of all sets. -/
def processRelayMsgTotal (e : Endpoint) (total circ : ℕ) (fromSourceHop : Bool) (msg : RelayMsg) :
    Option (Bool × Endpoint × ℕ) :=
  match getLeg e.cfx.legs circ with
  | none => some (false, circuitMarkForClose e circ, total)
  | some leg =>
    if !fromSourceHop then some (false, circuitMarkForClose e circ, total)
    else
      let seq := wrap64 (leg.lastSeqRecv + 1)
      let cfx := { e.cfx with
        legs := updateLeg circ (fun leg => { leg with lastSeqRecv := seq }) e.cfx.legs }
      let e := { e with cfx := cfx }
      if seq = wrap64 (cfx.lastSeqDelivered + 1) then
        some (true, { e with cfx := { cfx with
          lastSeqDelivered := wrap64 (cfx.lastSeqDelivered + 1) } }, total)
      else if seq ≤ cfx.lastSeqDelivered then some (false, circuitMarkForClose e circ, total)
      else if e.params.maxOooq ≤ cfx.oooQAllocCost then
        some (false, circuitMarkForClose e circ, total)
      else do
        let queued : ConfluxMsg := ⟨seq, msg⟩
        let oooQ ← pqueueAdd queueCmp cfx.oooQ queued
        some (false, { e with cfx := { cfx with
          oooQ := oooQ, oooQAllocCost := cfx.oooQAllocCost + msgAllocCost queued } },
          total + msgAllocCost queued)

/-- `conflux_dequeue_relay_msg` with the total; the subtraction is one of 64 bits. -/
def dequeueRelayMsgTotal (e : Endpoint) (total circ : ℕ) : Option (ConfluxMsg × Endpoint × ℕ) :=
  (dequeueRelayMsg e circ).map fun (top, e') =>
    (top, e', if msgAllocCost top ≤ total then total - msgAllocCost top
      else total + 2 ^ 64 - msgAllocCost top)

/-- The total after the loop of `conflux_clear_ooo_q`, with its `BUG` branch. -/
def clearTotal (total : ℕ) (msgs : List ConfluxMsg) : ℕ :=
  msgs.foldl (fun total msg => if total < msgAllocCost msg then 0 else total - msgAllocCost msg)
    total

def clearOooQ (e : Endpoint) (total : ℕ) : Endpoint × ℕ :=
  ({ e with cfx := { e.cfx with oooQ := { e.cfx.oooQ with list := [] } } },
    clearTotal total e.cfx.oooQ.list)

end Operations

section Runs

/-- A live set, and whether its queue was ever cleared. -/
structure LiveSet where
  endpoint : Endpoint
  cleared : Bool

structure World where
  sets : List LiveSet
  totalOooQBytes : ℕ

inductive MemoryEvent
  /-- `conflux_new`; legs come and go with `relink`. -/
  | create (e : Endpoint) (empty : e.cfx.oooQ.list = [] ∧ e.cfx.oooQAllocCost = 0)
  | relink (i : ℕ) (legs : List Leg) (circuits : ℕ → Circuit) (params : Params)
  | arrive (i circ : ℕ) (fromSourceHop : Bool) (msg : RelayMsg)
  | dequeue (i circ : ℕ)
  | clear (i : ℕ)
  /-- `conflux_free_`. -/
  | free (i : ℕ)

def LiveSet.relink (s : LiveSet) (legs : List Leg) (circuits : ℕ → Circuit) (params : Params) :
    LiveSet :=
  { s with endpoint := ⟨{ s.endpoint.cfx with legs := legs }, circuits, params⟩ }

def memoryStep (w : World) : MemoryEvent → Option World
  | .create e _ => some { w with sets := ⟨e, false⟩ :: w.sets }
  | .relink i legs circuits params =>
    w.sets[i]?.map fun s => { w with sets := w.sets.set i (s.relink legs circuits params) }
  | .arrive i circ fromSourceHop msg => do
    let s ← w.sets[i]?
    let (_, e, total) ←
      processRelayMsgTotal s.endpoint w.totalOooQBytes circ fromSourceHop msg
    some { sets := w.sets.set i { s with endpoint := e }, totalOooQBytes := total }
  | .dequeue i circ =>
    w.sets[i]?.map fun s =>
      match dequeueRelayMsgTotal s.endpoint w.totalOooQBytes circ with
      | none => w
      | some (_, e, total) =>
        { sets := w.sets.set i { s with endpoint := e }, totalOooQBytes := total }
  | .clear i =>
    w.sets[i]?.map fun s =>
      { sets := w.sets.set i ⟨(clearOooQ s.endpoint w.totalOooQBytes).1, true⟩
        totalOooQBytes := (clearOooQ s.endpoint w.totalOooQBytes).2 }
  | .free i =>
    w.sets[i]?.map fun s =>
      { sets := w.sets.eraseIdx i
        totalOooQBytes := (clearOooQ s.endpoint w.totalOooQBytes).2 }

def noSets : World := ⟨[], 0⟩

end Runs

/-! ### What the counters stand for -/

def queueCost (e : Endpoint) : ℕ := (e.cfx.oooQ.list.map msgAllocCost).sum

/-- The costs can be taken off the total one after the other. -/
def Affords : ℕ → List ℕ → Prop
  | _, [] => True
  | total, cost :: costs => cost ≤ total ∧ Affords (total - cost) costs

/-- No subtraction of the event goes below zero. -/
def NoUnderflow (w : World) : MemoryEvent → Prop
  | .dequeue i circ => ∀ s ∈ w.sets[i]?, ∀ r ∈ dequeueRelayMsg s.endpoint circ,
      msgAllocCost r.1 ≤ s.endpoint.cfx.oooQAllocCost ∧ msgAllocCost r.1 ≤ w.totalOooQBytes
  | .clear i => ∀ s ∈ w.sets[i]?,
      Affords w.totalOooQBytes (s.endpoint.cfx.oooQ.list.map msgAllocCost)
  | .free i => ∀ s ∈ w.sets[i]?,
      Affords w.totalOooQBytes (s.endpoint.cfx.oooQ.list.map msgAllocCost)
  | _ => True

/-- What a set counts is its queue's cost, or more once its queue was cleared. -/
structure LiveSet.Counted (s : LiveSet) : Prop where
  exact : s.cleared = false → s.endpoint.cfx.oooQAllocCost = queueCost s.endpoint
  covers : queueCost s.endpoint ≤ s.endpoint.cfx.oooQAllocCost

structure Accounted (w : World) : Prop where
  sets : ∀ s ∈ w.sets, s.Counted
  total : w.totalOooQBytes = (w.sets.map fun s => queueCost s.endpoint).sum

/-! ### What one call counts -/

variable {e e' : Endpoint} {total total' circ : ℕ} {w w' : World} {s s' : LiveSet} {i : ℕ}
  {r : ConfluxMsg × Endpoint}

theorem circuitMarkForClose_queue (e : Endpoint) (circ : ℕ) :
    (circuitMarkForClose e circ).cfx.oooQ = e.cfx.oooQ ∧
      (circuitMarkForClose e circ).cfx.oooQAllocCost = e.cfx.oooQAllocCost := by
  have hfold : ∀ (circs : List ℕ) (e : Endpoint), (closeLegs e circs).cfx.oooQ = e.cfx.oooQ ∧
      (closeLegs e circs).cfx.oooQAllocCost = e.cfx.oooQAllocCost := by
    intro circs
    induction circs with
    | nil => exact fun e => ⟨rfl, rfl⟩
    | cons circ circs ih =>
      intro e
      have hclose := closeLeg_frame e circ
      have hrest := ih (closeLeg e circ).1
      exact ⟨hrest.1.trans hclose.1, hrest.2.trans hclose.2.1⟩
  have hall : ∀ e : Endpoint, (markAllForClose e).cfx.oooQ = e.cfx.oooQ ∧
      (markAllForClose e).cfx.oooQAllocCost = e.cfx.oooQAllocCost := by
    intro e
    unfold markAllForClose
    split
    · exact ⟨rfl, rfl⟩
    · exact hfold _ _
  have hclose := closeLeg_frame e circ
  simp only [circuitMarkForClose]
  split
  · have hrest := hall (closeLeg e circ).1
    exact ⟨hrest.1.trans hclose.1, hrest.2.trans hclose.2.1⟩
  · exact ⟨hclose.1, hclose.2.1⟩

/-- A message adds one cost to its queue, to its set's count and to the total. -/
structure Charged (e e' : Endpoint) (total total' cost : ℕ) : Prop where
  queue : queueCost e' = queueCost e + cost
  count : e'.cfx.oooQAllocCost = e.cfx.oooQAllocCost + cost
  total : total' = total + cost

theorem Charged.none (hq : e'.cfx.oooQ = e.cfx.oooQ)
    (hc : e'.cfx.oooQAllocCost = e.cfx.oooQAllocCost) : Charged e e' total total 0 := by
  constructor
  · rw [queueCost, hq]
    rfl
  · exact hc
  · rfl

theorem processRelayMsgTotal_charged {fromSourceHop ordered : Bool} {msg : RelayMsg}
    (h : processRelayMsgTotal e total circ fromSourceHop msg = some (ordered, e', total')) :
    ∃ cost, Charged e e' total total' cost := by
  have hclosed : ∀ e₁ : Endpoint, e₁.cfx.oooQ = e.cfx.oooQ →
      e₁.cfx.oooQAllocCost = e.cfx.oooQAllocCost →
      Charged e (circuitMarkForClose e₁ circ) total total 0 := by
    intro e₁ hq hc
    have hmark := circuitMarkForClose_queue e₁ circ
    exact .none (hmark.1.trans hq) (hmark.2.trans hc)
  unfold processRelayMsgTotal at h
  cases hleg : getLeg e.cfx.legs circ with
  | none =>
    rw [hleg] at h
    cases h
    exact ⟨0, hclosed e rfl rfl⟩
  | some leg =>
    simp only [hleg] at h
    split at h
    · cases h
      exact ⟨0, hclosed e rfl rfl⟩
    split at h
    · cases h
      exact ⟨0, .none rfl rfl⟩
    split at h
    · cases h
      exact ⟨0, hclosed _ rfl rfl⟩
    split at h
    · cases h
      exact ⟨0, hclosed _ rfl rfl⟩
    · obtain ⟨oooQ, hadd, hsome⟩ := Option.bind_eq_some_iff.mp h
      cases hsome
      refine ⟨msgAllocCost ⟨wrap64 (leg.lastSeqRecv + 1), msg⟩, ?_, rfl, rfl⟩
      have hsum := ((pqueueAdd_perm hadd).map msgAllocCost).sum_eq
      rw [List.map_cons, List.sum_cons, add_comm] at hsum
      exact hsum

theorem dequeueRelayMsg_cost (h : dequeueRelayMsg e circ = some r) :
    queueCost e = msgAllocCost r.1 + queueCost r.2 ∧
      r.2.cfx.oooQAllocCost = e.cfx.oooQAllocCost - msgAllocCost r.1 := by
  obtain ⟨top, e'⟩ := r
  obtain ⟨oooQ, hpop, -, rfl⟩ := dequeueRelayMsg_eq_some h
  have hsum := ((pqueuePop_perm hpop).map msgAllocCost).sum_eq
  exact ⟨hsum, rfl⟩

theorem affords_iff {costs : List ℕ} : Affords total costs ↔ costs.sum ≤ total := by
  induction costs generalizing total with
  | nil => exact iff_of_true trivial (Nat.zero_le _)
  | cons cost costs ih =>
    rw [Affords, ih, List.sum_cons]
    omega

theorem clearTotal_eq {msgs : List ConfluxMsg} (h : (msgs.map msgAllocCost).sum ≤ total) :
    clearTotal total msgs = total - (msgs.map msgAllocCost).sum := by
  induction msgs generalizing total with
  | nil => rfl
  | cons msg msgs ih =>
    rw [List.map_cons, List.sum_cons] at h ⊢
    have hrest : clearTotal (total - msgAllocCost msg) msgs =
        total - msgAllocCost msg - (msgs.map msgAllocCost).sum := ih (by omega)
    unfold clearTotal at hrest ⊢
    rw [List.foldl_cons, if_neg (by omega), hrest, Nat.sub_sub]

/-! ### Every run -/

/-- The cost of the queues of all live sets. -/
def liveCost (sets : List LiveSet) : ℕ := (sets.map fun s => queueCost s.endpoint).sum

theorem liveCost_eraseIdx {sets : List LiveSet} (h : sets[i]? = some s) :
    liveCost sets = queueCost s.endpoint + liveCost (sets.eraseIdx i) := by
  obtain ⟨hi, rfl⟩ := List.getElem?_eq_some_iff.mp h
  have hperm := (List.getElem_cons_eraseIdx_perm hi).map fun s => queueCost s.endpoint
  rw [liveCost, ← hperm.sum_eq, List.map_cons, List.sum_cons]
  rfl

theorem liveCost_set (s' : LiveSet) {sets : List LiveSet} (h : sets[i]? = some s) :
    liveCost (sets.set i s') = queueCost s'.endpoint + liveCost (sets.eraseIdx i) := by
  obtain ⟨hi, -⟩ := List.getElem?_eq_some_iff.mp h
  have hperm := (List.set_perm_cons_eraseIdx hi s').map fun s => queueCost s.endpoint
  rw [liveCost, hperm.sum_eq, List.map_cons, List.sum_cons]
  rfl

theorem Accounted.afford (h : Accounted w) (hs : w.sets[i]? = some s) :
    queueCost s.endpoint ≤ w.totalOooQBytes := by
  have hcost := liveCost_eraseIdx hs
  have htotal : w.totalOooQBytes = liveCost w.sets := h.total
  omega

theorem Accounted.set (h : Accounted w) (hs : w.sets[i]? = some s) (hs' : s'.Counted)
    (htotal : total + queueCost s.endpoint = w.totalOooQBytes + queueCost s'.endpoint) :
    Accounted ⟨w.sets.set i s', total⟩ := by
  constructor
  · intro t ht
    cases List.mem_or_eq_of_mem_set ht with
    | inl hmem => exact h.sets t hmem
    | inr heq => exact heq ▸ hs'
  · have hbefore := liveCost_eraseIdx hs
    have hafter := liveCost_set s' hs
    have hw : w.totalOooQBytes = liveCost w.sets := h.total
    change total = liveCost (w.sets.set i s')
    omega

theorem Accounted.noUnderflow (h : Accounted w) (ev : MemoryEvent) : NoUnderflow w ev := by
  have hcleared : ∀ (i : ℕ) (s : LiveSet), s ∈ w.sets[i]? →
      Affords w.totalOooQBytes (s.endpoint.cfx.oooQ.list.map msgAllocCost) := by
    intro i s hs
    exact affords_iff.mpr (h.afford hs)
  cases ev with
  | create e empty => trivial
  | relink i legs circuits params => trivial
  | arrive i circ fromSourceHop msg => trivial
  | dequeue i circ =>
    intro s hs r hr
    have hcost := (dequeueRelayMsg_cost hr).1
    have htop : msgAllocCost r.1 ≤ queueCost s.endpoint := hcost ▸ Nat.le_add_right _ _
    have hmem := List.mem_of_getElem? hs
    exact ⟨htop.trans (h.sets s hmem).covers, htop.trans (h.afford hs)⟩
  | clear i => exact hcleared i
  | free i => exact hcleared i

theorem LiveSet.Counted.charged {cost : ℕ} (h : s.Counted)
    (hcharged : Charged s.endpoint e' total total' cost) :
    LiveSet.Counted { s with endpoint := e' } := by
  constructor
  · intro hcleared
    have := h.exact hcleared
    have hqueue := hcharged.queue
    have hcount := hcharged.count
    change e'.cfx.oooQAllocCost = queueCost e'
    omega
  · have := h.covers
    have hqueue := hcharged.queue
    have hcount := hcharged.count
    change queueCost e' ≤ e'.cfx.oooQAllocCost
    omega

theorem LiveSet.Counted.dequeued (h : s.Counted)
    (hdequeue : dequeueRelayMsg s.endpoint circ = some r) :
    LiveSet.Counted { s with endpoint := r.2 } := by
  obtain ⟨hqueue, hcount⟩ := dequeueRelayMsg_cost hdequeue
  constructor
  · intro hcleared
    have := h.exact hcleared
    change r.2.cfx.oooQAllocCost = queueCost r.2
    omega
  · have := h.covers
    change queueCost r.2 ≤ r.2.cfx.oooQAllocCost
    omega

theorem memoryStep_accounted {ev : MemoryEvent} (h : Accounted w) (hs : memoryStep w ev = some w') :
    Accounted w' := by
  cases ev with
  | create e empty =>
    cases hs
    have hzero : queueCost e = 0 := by rw [queueCost, empty.1]; rfl
    constructor
    · intro t ht
      cases List.mem_cons.mp ht with
      | inl heq =>
        rw [heq]
        exact ⟨fun _ => empty.2.trans hzero.symm, hzero ▸ Nat.zero_le _⟩
      | inr hmem => exact h.sets t hmem
    · rw [List.map_cons, List.sum_cons, hzero, Nat.zero_add]
      exact h.total
  | relink i legs circuits params =>
    obtain ⟨s, hget, rfl⟩ := Option.map_eq_some_iff.mp hs
    have hcounted := h.sets s (List.mem_of_getElem? hget)
    apply h.set hget
    · exact ⟨hcounted.exact, hcounted.covers⟩
    · rfl
  | arrive i circ fromSourceHop msg =>
    obtain ⟨s, hget, hs⟩ := Option.bind_eq_some_iff.mp hs
    obtain ⟨⟨ordered, e', total'⟩, hprocess, hs⟩ := Option.bind_eq_some_iff.mp hs
    obtain ⟨cost, hcharged⟩ := processRelayMsgTotal_charged hprocess
    cases hs
    apply h.set hget
    · exact (h.sets s (List.mem_of_getElem? hget)).charged hcharged
    · have hqueue := hcharged.queue
      have htotal := hcharged.total
      change total' + _ = w.totalOooQBytes + queueCost e'
      omega
  | dequeue i circ =>
    obtain ⟨s, hget, rfl⟩ := Option.map_eq_some_iff.mp hs
    unfold dequeueRelayMsgTotal
    cases hdequeue : dequeueRelayMsg s.endpoint circ with
    | none => exact h
    | some r =>
      have hqueue := (dequeueRelayMsg_cost hdequeue).1
      have hle : msgAllocCost r.1 ≤ w.totalOooQBytes :=
        (hqueue ▸ Nat.le_add_right _ _ : msgAllocCost r.1 ≤ queueCost s.endpoint).trans
          (h.afford hget)
      simp only [Option.map_some, if_pos hle]
      apply h.set hget
      · exact (h.sets s (List.mem_of_getElem? hget)).dequeued hdequeue
      · change w.totalOooQBytes - msgAllocCost r.1 + _ = w.totalOooQBytes + queueCost r.2
        omega
  | clear i =>
    obtain ⟨s, hget, rfl⟩ := Option.map_eq_some_iff.mp hs
    have hafford := h.afford hget
    apply h.set hget
    · constructor
      · exact fun hcleared => nomatch hcleared
      · exact Nat.zero_le _
    · change clearTotal _ _ + _ = w.totalOooQBytes + 0
      rw [clearTotal_eq hafford]
      exact Nat.sub_add_cancel hafford
  | free i =>
    obtain ⟨s, hget, rfl⟩ := Option.map_eq_some_iff.mp hs
    have hafford := h.afford hget
    have hcost := liveCost_eraseIdx hget
    have htotal : w.totalOooQBytes = liveCost w.sets := h.total
    constructor
    · exact fun t ht => h.sets t (List.mem_of_mem_eraseIdx ht)
    · change clearTotal _ _ = liveCost (w.sets.eraseIdx i)
      rw [clearTotal_eq hafford]
      change w.totalOooQBytes - queueCost s.endpoint = _
      omega

/-- In every reachable state the total is the cost of the queues of the live sets, every set whose
queue was never cleared counts its queue's cost, and nothing that is taken off is more than what is
there. -/
theorem ooo_q_accounted (es : List MemoryEvent) (w : World)
    (h : run memoryStep noSets es = some w) :
    w.totalOooQBytes = (w.sets.map fun s => queueCost s.endpoint).sum ∧
      (∀ s ∈ w.sets, s.cleared = false →
        s.endpoint.cfx.oooQAllocCost = (s.endpoint.cfx.oooQ.list.map msgAllocCost).sum) ∧
      ∀ ev, NoUnderflow w ev := by
  have haccounted : Accounted w :=
    run_invariant h ⟨fun s hs => absurd hs List.not_mem_nil, rfl⟩ fun _ _ _ _ hw hs => memoryStep_accounted hw hs
  exact ⟨haccounted.total, fun s hs => (haccounted.sets s hs).exact, haccounted.noUnderflow⟩

def oneLeg : Endpoint where
  cfx := {
    alg := .minrtt
    legs := [⟨1, 5, 5, 100⟩]
    oooQ := ⟨[], fun _ => -1⟩
    oooQAllocCost := 0
    lastSeqDelivered := 0
    cellsUntilSwitch := 0
    currLeg := none
    prevLeg := none
    inFullTeardown := false }
  circuits := fun _ => ⟨⟨124, 0, 31, true⟩, false, false⟩
  params := ⟨0, 1000, by decide⟩

def earlyData : RelayMsg := ⟨.data, 7, false, [0, 1]⟩

/-- A message waits in one set, and another set is freed with one in it. -/
def twoSets : List MemoryEvent :=
  [.create oneLeg ⟨rfl, rfl⟩, .create oneLeg ⟨rfl, rfl⟩, .arrive 0 1 true earlyData,
    .arrive 1 1 true earlyData, .clear 0, .free 0]

theorem ooo_q_accounted_two_sets : ∃ w, run memoryStep noSets twoSets = some w ∧
      w.totalOooQBytes = (w.sets.map fun s => queueCost s.endpoint).sum :=
  ⟨_, rfl, (ooo_q_accounted twoSets _ rfl).1⟩

/-- The queue is emptied, and its set's count is not. -/
theorem cleared_queue_still_counted : ¬ ∀ es w, run memoryStep noSets es = some w → ∀ s ∈ w.sets,
      s.endpoint.cfx.oooQAllocCost = (s.endpoint.cfx.oooQ.list.map msgAllocCost).sum := by
  intro h
  have hcleared := h [.create oneLeg ⟨rfl, rfl⟩, .arrive 0 1 true earlyData, .clear 0] _ rfl _
    List.mem_cons_self
  exact absurd hcleared (by decide +kernel)

end TorDaemon.Conflux

import Mathlib.Algebra.Order.BigOperators.Group.List
import Mathlib.Tactic.Linarith
import TorDaemon.Library.Reachability

/-! The destroy cells of a circuitmux (`circuitmux.c`), and the loop that flushes cells from it to
its channel (`channel_flush_from_first_active_circuit`). -/
namespace TorDaemon.Circuitmux
open Library.Reachability

section Model

structure DestroyCell where
  circid : UInt32
  reason : UInt8
  deriving DecidableEq

/-- A circuit that is attached to the mux: its cells for the channel of the mux, whether it is
blocked on this channel, and the count that the mux has for it. -/
structure AttachedCircuit (Cell : Type) where
  cells : List Cell
  cellCount : ℕ
  blocked : Bool
  markedForClose : Bool

structure Circuitmux (Cell : Type) where
  circuits : List (AttachedCircuit Cell)
  nActiveCircuits : ℤ
  nCells : ℤ
  lastCellWasDestroy : Bool
  destroyCellQueue : List DestroyCell
  destroyCtr : ℤ

/-- What was written to the channel is a cell of a circuit or a destroy cell. -/
structure Channel (Cell : Type) where
  cmux : Circuitmux Cell
  outbuf : List (DestroyCell ⊕ Cell)
  closing : Bool

/-- What a call of the flush depends on in each turn: the circuit that the policy of the mux picks,
an active one, and whether the write to the channel succeeds. -/
structure Turns (Cell : Type) where
  pickActiveCircuit : ℕ → List (AttachedCircuit Cell) → Option ℕ
  picks : ∀ k circuits i, pickActiveCircuit k circuits = some i →
    ∃ circ, circuits[i]? = some circ ∧ 0 < circ.cellCount
  writes : ℕ → Bool
  lowwatermark : ℕ

variable {Cell : Type}

/-- The outcome of `circuitmux_get_first_active_circuit`. -/
inductive Choice
  | destroyQueue
  | circuit (i : ℕ)
  | nothing

/-- `none` is an assertion that fails, here and below. -/
def circuitmuxGetFirstActiveCircuit (pick : List (AttachedCircuit Cell) → Option ℕ)
    (m : Circuitmux Cell) : Option (Circuitmux Cell × Choice) :=
  if m.destroyCellQueue ≠ [] ∧ (m.lastCellWasDestroy = false ∨ m.nActiveCircuits = 0) then
    some ({ m with lastCellWasDestroy := true }, .destroyQueue)
  else if 0 < m.nActiveCircuits then
    if 0 < m.nCells then
      some ({ m with lastCellWasDestroy := false },
        match pick m.circuits with
        | some i => .circuit i
        | none => .nothing)
    else none
  else if m.nCells = 0 ∧ m.destroyCellQueue = [] then some (m, .nothing)
  else none

def circuitmuxSetNumCells (m : Circuitmux Cell) (i nCells : ℕ) : Option (Circuitmux Cell) :=
  m.circuits[i]?.map fun circ =>
    let nActiveCircuits :=
      if 0 < circ.cellCount ∧ nCells = 0 then m.nActiveCircuits - 1
      else if circ.cellCount = 0 ∧ 0 < nCells then m.nActiveCircuits + 1
      else m.nActiveCircuits
    { m with
      nCells := m.nCells - circ.cellCount + nCells
      nActiveCircuits := nActiveCircuits
      circuits := m.circuits.set i { circ with cellCount := nCells } }

/-- `circuitmux_notify_xmit_cells` for one cell. -/
def circuitmuxNotifyXmitCell (m : Circuitmux Cell) (i : ℕ) : Option (Circuitmux Cell) :=
  m.circuits[i]?.bind fun circ =>
    if circ.cellCount < 1 then none
    else some { m with
      nCells := m.nCells - 1
      nActiveCircuits :=
        if circ.cellCount - 1 = 0 then m.nActiveCircuits - 1 else m.nActiveCircuits
      circuits := m.circuits.set i { circ with cellCount := circ.cellCount - 1 } }

/-- The channel, `global_destroy_ctr`, and `n_flushed`. -/
structure FlushState (Cell : Type) where
  chan : Channel Cell
  globalDestroyCtr : ℤ
  nFlushed : ℕ

def FlushState.withCmux (st : FlushState Cell) (m : Circuitmux Cell) : FlushState Cell :=
  { st with chan := { st.chan with cmux := m } }

/-- `channel_write_packed_cell`, and `channel_mark_for_close` where it fails. -/
def FlushState.write (st : FlushState Cell) (cell : DestroyCell ⊕ Cell) (succeeds : Bool) :
    FlushState Cell :=
  if succeeds then
    { st with
      chan := { st.chan with outbuf := st.chan.outbuf ++ [cell] }
      nFlushed := st.nFlushed + 1 }
  else { st with chan := { st.chan with closing := true } }

/-- A turn of the loop for a destroy cell. A failed write leaves both counters as they are. -/
def destroyTurn (succeeds : Bool) (st : FlushState Cell) : Option (FlushState Cell) :=
  match st.chan.cmux.destroyCellQueue with
  | [] => none
  | dcell :: queue =>
    let popped := { st.chan.cmux with destroyCellQueue := queue }
    let st := (st.withCmux popped).write (.inl dcell) succeeds
    if succeeds then
      -- `circuitmux_notify_xmit_destroy`
      some { st.withCmux { st.chan.cmux with destroyCtr := st.chan.cmux.destroyCtr - 1 } with
        globalDestroyCtr := st.globalDestroyCtr - 1 }
    else some st

/-- A turn of the loop for a circuit. -/
def circuitTurn (lowwatermark : ℕ) (succeeds : Bool) (i : ℕ) (st : FlushState Cell) :
    Option (FlushState Cell) :=
  st.chan.cmux.circuits[i]?.bind fun circ =>
    match circ.cells with
    | [] =>
      -- the mux is told, and the circuit is marked for close
      (circuitmuxSetNumCells st.chan.cmux i 0).map fun m =>
        st.withCmux { m with
          circuits := m.circuits.modify i fun circ => { circ with markedForClose := true } }
    | cell :: cells =>
      let popped := st.chan.cmux.circuits.modify i fun circ => { circ with cells := cells }
      let st := (st.withCmux { st.chan.cmux with circuits := popped }).write (.inr cell) succeeds
      if succeeds then do
        let m ← circuitmuxNotifyXmitCell st.chan.cmux i
        let m ← circuitmuxSetNumCells m i cells.length
        let unblocked := m.circuits.modify i fun circ =>
          { circ with blocked := circ.blocked && decide (lowwatermark < cells.length) }
        some (st.withCmux { m with circuits := unblocked })
      else some st

/-- A turn, which goes on with the loop or ends it. -/
def flushTurn (turns : Turns Cell) (k : ℕ) (st : FlushState Cell) :
    Option (FlushState Cell × Bool) := do
  let (m, choice) ← circuitmuxGetFirstActiveCircuit (turns.pickActiveCircuit k) st.chan.cmux
  let st := st.withCmux m
  match choice with
  | .destroyQueue => (destroyTurn (turns.writes k) st).map (·, true)
  | .nothing => some (st, false)
  | .circuit i => (circuitTurn turns.lowwatermark (turns.writes k) i st).map (·, true)

/-- The loop with room for so many more turns, after `k` turns. It gives the number of all turns
too. -/
def flushLoop (turns : Turns Cell) (max : ℕ) :
    ℕ → ℕ → FlushState Cell → Option (FlushState Cell × ℕ)
  | 0, k, st => if st.nFlushed < max then none else some (st, k)
  | room + 1, k, st =>
    if st.nFlushed < max then do
      let (st, goesOn) ← flushTurn turns k st
      if goesOn then flushLoop turns max room (k + 1) st else some (st, k + 1)
    else some (st, k)

def activeCircuits (m : Circuitmux Cell) : ℕ := m.circuits.countP (0 < ·.cellCount)

/-- Each turn that goes on takes a cell from a queue, or ends that a circuit is active. -/
def Circuitmux.work (m : Circuitmux Cell) : ℕ :=
  m.destroyCellQueue.length + (m.circuits.map (·.cells.length)).sum + activeCircuits m

/-- `channel_flush_from_first_active_circuit`, with the turns it took. -/
def channelFlushFromFirstActiveCircuit (turns : Turns Cell) (max : ℕ) (chan : Channel Cell)
    (globalDestroyCtr : ℤ) : Option (FlushState Cell × ℕ) :=
  flushLoop turns max (chan.cmux.work + 1) 0 ⟨chan, globalDestroyCtr, 0⟩

def circuitmuxAppendDestroyCell (turns : Turns Cell) (hasQueuedWrites : Bool) (cell : DestroyCell)
    (chan : Channel Cell) (globalDestroyCtr : ℤ) : Option (FlushState Cell × ℕ) :=
  let m := { chan.cmux with
    destroyCellQueue := chan.cmux.destroyCellQueue ++ [cell]
    destroyCtr := chan.cmux.destroyCtr + 1 }
  let chan := { chan with cmux := m }
  if hasQueuedWrites then some (⟨chan, globalDestroyCtr + 1, 0⟩, 0)
  else channelFlushFromFirstActiveCircuit turns 1 chan (globalDestroyCtr + 1)

/-- `append_cell_to_circuit_queue`, as far as it changes the queue and the mux. -/
def appendCellToCircuitQueue (maxQueueSize highwatermark j : ℕ) (cell : Cell)
    (m : Circuitmux Cell) : Option (Circuitmux Cell) :=
  match m.circuits[j]? with
  | none => some m
  | some circ =>
    if circ.markedForClose ∨ maxQueueSize ≤ circ.cells.length then some m
    else
      let blocked := circ.blocked || decide (highwatermark ≤ circ.cells.length + 1)
      let circ' := { circ with cells := circ.cells ++ [cell], blocked := blocked }
      circuitmuxSetNumCells { m with circuits := m.circuits.set j circ' } j (circ.cells.length + 1)

/-- All channels, with the counter they share. -/
structure World (Cell : Type) where
  channels : List (Channel Cell)
  globalDestroyCtr : ℤ

inductive Call (Cell : Type)
  | appendDestroy (i : ℕ) (cell : DestroyCell) (hasQueuedWrites : Bool) (turns : Turns Cell)
  | appendCell (i j maxQueueSize highwatermark : ℕ) (cell : Cell)
  | flush (i max : ℕ) (turns : Turns Cell)

/-- Most turns that the call may take. -/
def Call.max : Call Cell → ℕ
  | .appendDestroy .. => 1
  | .appendCell .. => 0
  | .flush _ max _ => max

def World.put (w : World Cell) (i : ℕ) (r : FlushState Cell × ℕ) : World Cell × ℕ :=
  (⟨w.channels.set i r.1.chan, r.1.globalDestroyCtr⟩, r.2)

/-- A call, with the turns that it took. -/
def World.apply (w : World Cell) : Call Cell → Option (World Cell × ℕ)
  | .appendDestroy i cell hasQueuedWrites turns =>
    match w.channels[i]? with
    | none => some (w, 0)
    | some chan =>
      (circuitmuxAppendDestroyCell turns hasQueuedWrites cell chan w.globalDestroyCtr).map (w.put i)
  | .appendCell i j maxQueueSize highwatermark cell =>
    match w.channels[i]? with
    | none => some (w, 0)
    | some chan =>
      (appendCellToCircuitQueue maxQueueSize highwatermark j cell chan.cmux).map fun m =>
        w.put i (⟨{ chan with cmux := m }, w.globalDestroyCtr, 0⟩, 0)
  | .flush i max turns =>
    match w.channels[i]? with
    | none => some (w, 0)
    | some chan =>
      (channelFlushFromFirstActiveCircuit turns max chan w.globalDestroyCtr).map (w.put i)

def World.run (w : World Cell) : List (Call Cell) → Option (World Cell)
  | [] => some w
  | call :: calls => (w.apply call).bind fun r => World.run r.1 calls

end Model

section Statement
variable {Cell : Type}

/-- Each mux counts the cells of its destroy queue, and the global counter is their sum. -/
structure Accounted (w : World Cell) : Prop where
  each : ∀ chan ∈ w.channels, chan.cmux.destroyCtr = chan.cmux.destroyCellQueue.length
  sum : w.globalDestroyCtr = (w.channels.map (·.cmux.destroyCtr)).sum

/-- The counts of a mux are those of its circuits. -/
structure Counted (m : Circuitmux Cell) : Prop where
  nCells : m.nCells = (m.circuits.map (·.cellCount)).sum
  nActiveCircuits : m.nActiveCircuits = activeCircuits m

/-- The count of each circuit is that of its cells. -/
def Synced (m : Circuitmux Cell) : Prop := ∀ circ ∈ m.circuits, circ.cellCount = circ.cells.length

structure Sound (w : World Cell) : Prop extends Accounted w where
  counted : ∀ chan ∈ w.channels, Counted chan.cmux
  synced : ∀ chan ∈ w.channels, Synced chan.cmux

/-- In each state that a sequence of calls reaches the destroy cells are accounted for, and each
call takes no more turns than it may. -/
structure RunRight (w : World Cell) (calls : List (Call Cell)) : Prop where
  accounted : ∀ before after, calls = before ++ after →
    ∃ w', w.run before = some w' ∧ Accounted w'
  turns : ∀ before call after, calls = before ++ call :: after → ∀ w', w.run before = some w' →
    ∃ w'' k, w'.apply call = some (w'', k) ∧ k ≤ call.max

/-- The cells that wait to be written. -/
def Circuitmux.waiting (m : Circuitmux Cell) : ℕ :=
  m.destroyCellQueue.length + (m.circuits.map (·.cells.length)).sum

/-- Each turn that may have a cell to write can write it. -/
def World.WritesSucceed (w : World Cell) : Call Cell → Prop
  | .appendDestroy i _ hasQueuedWrites turns =>
    ∀ chan ∈ w.channels[i]?, hasQueuedWrites = false → turns.writes 0
  | .appendCell .. => True
  | .flush i max turns =>
    ∀ chan ∈ w.channels[i]?, ∀ k < max, k < chan.cmux.waiting → turns.writes k

instance (w : World Cell) (call : Call Cell) : Decidable (w.WritesSucceed call) := by
  cases call <;> unfold World.WritesSucceed <;> infer_instance

/-- The writes of each call succeed, in the state that it is made in. -/
abbrev World.AllWritesSucceed (w : World Cell) (calls : List (Call Cell)) : Prop :=
  Guarded (fun w call => (w.apply call).map Prod.fst) World.WritesSucceed w calls

end Statement

/-! The counters of destroy cells are right while the writes to the channels succeed. -/

section DestroyRuns
variable {Cell : Type} {i k room max : ℕ} {before after : List (AttachedCircuit Cell)}
  {circ circ' : AttachedCircuit Cell} {m : Circuitmux Cell} {st : FlushState Cell}
  {turns : Turns Cell}

section Circuits

/-- The circuits around one of them. -/
theorem exists_split {circuits : List (AttachedCircuit Cell)} (h : circuits[i]? = some circ) :
    ∃ before after, circuits = before ++ circ :: after ∧ before.length = i := by
  obtain ⟨hlt, rfl⟩ := List.getElem?_eq_some_iff.mp h
  refine ⟨circuits.take i, circuits.drop (i + 1), ?_, List.length_take_of_le hlt.le⟩
  rw [List.getElem_cons_drop, List.take_append_drop]

section
variable (h : before.length = i)
include h

theorem set_split : (before ++ circ :: after).set i circ' = before ++ circ' :: after := by
  subst h
  simp

theorem modify_split (f : AttachedCircuit Cell → AttachedCircuit Cell) :
    (before ++ circ :: after).modify i f = before ++ f circ :: after := by
  subst h
  induction before with
  | nil => rfl
  | cons b before ih => simpa using ih

theorem get_split : (before ++ circ :: after)[i]? = some circ := by
  subst h
  simp

end

/-- One when a circuit with so many cells is active. -/
def activeOne (n : ℕ) : ℕ := if 0 < n then 1 else 0

/-- The counts of a mux follow those of one circuit that changes. -/
theorem Counted.replace {m' : Circuitmux Cell} (hm : Counted m)
    (hcircuits : m.circuits = before ++ circ :: after)
    (hcircuits' : m'.circuits = before ++ circ' :: after)
    (hcells : m'.nCells = m.nCells - circ.cellCount + circ'.cellCount)
    (hactive : m'.nActiveCircuits =
      m.nActiveCircuits - activeOne circ.cellCount + activeOne circ'.cellCount) : Counted m' := by
  constructor
  · rw [hcells, hm.nCells, hcircuits, hcircuits']
    simp only [List.map_append, List.map_cons, List.sum_append, List.sum_cons]
    push_cast
    linarith
  · rw [hactive, hm.nActiveCircuits, activeCircuits, activeCircuits, hcircuits, hcircuits']
    simp only [List.countP_append, List.countP_cons, decide_eq_true_eq, activeOne]
    push_cast
    linarith

theorem setNumCells_split (h : before.length = i) (hm : Counted m)
    (hcircuits : m.circuits = before ++ circ :: after) (n : ℕ) :
    ∃ m', circuitmuxSetNumCells m i n = some m' ∧ Counted m' ∧
      m'.circuits = before ++ { circ with cellCount := n } :: after ∧
      m'.destroyCellQueue = m.destroyCellQueue ∧ m'.destroyCtr = m.destroyCtr := by
  unfold circuitmuxSetNumCells
  rw [hcircuits, get_split h]
  refine ⟨_, rfl, Counted.replace hm hcircuits (set_split h) rfl ?_, set_split h, rfl, rfl⟩
  simp only [activeOne]
  split_ifs <;> omega

theorem notifyXmitCell_split (h : before.length = i) (hm : Counted m)
    (hcircuits : m.circuits = before ++ circ :: after) (hpos : 0 < circ.cellCount) :
    ∃ m', circuitmuxNotifyXmitCell m i = some m' ∧ Counted m' ∧
      m'.circuits = before ++ { circ with cellCount := circ.cellCount - 1 } :: after ∧
      m'.destroyCellQueue = m.destroyCellQueue ∧ m'.destroyCtr = m.destroyCtr := by
  unfold circuitmuxNotifyXmitCell
  rw [hcircuits, get_split h]
  simp only [Option.bind_some]
  rw [if_neg (by omega)]
  refine ⟨_, rfl, Counted.replace hm hcircuits (set_split h) ?_ ?_, set_split h, rfl, rfl⟩
  · dsimp only
    omega
  · simp only [activeOne]
    split_ifs <;> omega

theorem Counted.of_eq {m' : Circuitmux Cell} (h : Counted m)
    (hcounts : m'.circuits.map (·.cellCount) = m.circuits.map (·.cellCount))
    (hcells : m'.nCells = m.nCells) (hactive : m'.nActiveCircuits = m.nActiveCircuits) :
    Counted m' := by
  have hcountP : ∀ l : List (AttachedCircuit Cell),
      l.countP (0 < ·.cellCount) = (l.map (·.cellCount)).countP (0 < ·) := by
    intro l
    rw [List.countP_map]
    rfl
  constructor
  · rw [hcells, h.nCells, hcounts]
  · rw [hactive, h.nActiveCircuits, activeCircuits, activeCircuits, hcountP, hcountP, hcounts]

end Circuits

section Turn

theorem destroyTurn_spec (succeeds : Bool) (hqueue : st.chan.cmux.destroyCellQueue ≠ []) :
    ∃ st', destroyTurn succeeds st = some st' ∧
      st'.chan.cmux.circuits = st.chan.cmux.circuits ∧
      st'.chan.cmux.nCells = st.chan.cmux.nCells ∧
      st'.chan.cmux.nActiveCircuits = st.chan.cmux.nActiveCircuits ∧
      st'.chan.cmux.destroyCellQueue.length + 1 = st.chan.cmux.destroyCellQueue.length ∧
      st'.globalDestroyCtr - st'.chan.cmux.destroyCtr =
        st.globalDestroyCtr - st.chan.cmux.destroyCtr ∧
      (succeeds → st'.chan.cmux.destroyCtr = st.chan.cmux.destroyCtr - 1 ∧
        st'.nFlushed = st.nFlushed + 1) := by
  unfold destroyTurn
  cases hq : st.chan.cmux.destroyCellQueue with
  | nil => exact absurd hq hqueue
  | cons dcell queue =>
    cases succeeds with
    | false =>
      refine ⟨_, rfl, rfl, rfl, rfl, rfl, rfl, ?_⟩
      simp
    | true =>
      refine ⟨_, rfl, rfl, rfl, rfl, rfl, ?_, fun _ => ⟨rfl, rfl⟩⟩
      simp only [FlushState.withCmux, FlushState.write, if_true]
      omega

theorem circuitTurn_spec (lowwatermark : ℕ) (succeeds : Bool) (hm : Counted st.chan.cmux)
    (hget : st.chan.cmux.circuits[i]? = some circ) (hpos : 0 < circ.cellCount) :
    ∃ st', circuitTurn lowwatermark succeeds i st = some st' ∧ Counted st'.chan.cmux ∧
      st'.chan.cmux.work < st.chan.cmux.work ∧
      st'.chan.cmux.destroyCellQueue = st.chan.cmux.destroyCellQueue ∧
      st'.chan.cmux.destroyCtr = st.chan.cmux.destroyCtr ∧
      st'.globalDestroyCtr = st.globalDestroyCtr ∧
      (succeeds → Synced st.chan.cmux → Synced st'.chan.cmux ∧
        st'.nFlushed = st.nFlushed + 1 ∧ st'.chan.cmux.waiting + 1 = st.chan.cmux.waiting) := by
  obtain ⟨before, after, hcircuits, hlen⟩ := exists_split hget
  unfold circuitTurn
  rw [hget]
  simp only [Option.bind_some]
  cases hcells : circ.cells with
  | nil =>
    obtain ⟨m', hset, hcounted, hm', hdq, hctr⟩ := setNumCells_split hlen hm hcircuits 0
    rw [hset]
    have hmodify := @modify_split _ i before after { circ with cellCount := 0 } hlen
      fun circ => { circ with markedForClose := true }
    refine ⟨_, rfl, ?_, ?_, hdq, hctr, rfl, ?_⟩
    · refine Counted.of_eq hcounted ?_ ?_ ?_
      · simp [FlushState.withCmux, hm', hmodify]
      · rfl
      · rfl
    · simp only [Circuitmux.work, FlushState.withCmux, hdq, hm', hmodify, activeCircuits]
      rw [hcircuits]
      simp [List.countP_append, hcells, hpos]
    · intro _ hsync
      have hzero := hsync circ (hcircuits ▸ by simp)
      rw [hcells] at hzero
      simp only [List.length_nil] at hzero
      omega
  | cons cell cells =>
    have hmodify := @modify_split _ i before after circ hlen
      fun circ => { circ with cells := cells }
    cases succeeds with
    | false =>
      refine ⟨_, rfl, ?_, ?_, rfl, rfl, rfl, by simp⟩
      · refine Counted.of_eq hm ?_ ?_ ?_
        · simp [FlushState.write, FlushState.withCmux, hcircuits, hmodify]
        · rfl
        · rfl
      · simp only [Circuitmux.work, FlushState.write, FlushState.withCmux, activeCircuits,
          Bool.false_eq_true, if_false]
        rw [hcircuits, hmodify]
        simp [List.countP_append, List.countP_cons, hcells]
    | true =>
      have hpopped : Counted ((st.withCmux { st.chan.cmux with
          circuits := st.chan.cmux.circuits.modify i
            fun circ => { circ with cells := cells } }).write (.inr cell) true).chan.cmux := by
        refine Counted.of_eq hm ?_ ?_ ?_
        · simp [FlushState.write, FlushState.withCmux, hcircuits, hmodify]
        · rfl
        · rfl
      obtain ⟨m₁, hnotify, hcounted₁, hm₁, hdq₁, hctr₁⟩ := notifyXmitCell_split hlen hpopped
        (show _ = before ++ { circ with cells := cells } :: after by
          simp only [FlushState.write, FlushState.withCmux, hcircuits, hmodify, if_true]) hpos
      obtain ⟨m₂, hset, hcounted₂, hm₂, hdq₂, hctr₂⟩ :=
        setNumCells_split hlen hcounted₁ hm₁ cells.length
      simp only [hnotify, hset, Option.bind_eq_bind, Option.bind_some]
      have hunblock := @modify_split _ i before after
        { circ with cells := cells, cellCount := cells.length } hlen fun circ =>
          { circ with blocked := circ.blocked && decide (lowwatermark < cells.length) }
      refine ⟨_, rfl, ?_, ?_, hdq₂.trans hdq₁, hctr₂.trans hctr₁, rfl, ?_⟩
      · refine Counted.of_eq hcounted₂ ?_ ?_ ?_
        · simp [FlushState.withCmux, hm₂, hunblock]
        · rfl
        · rfl
      · simp only [Circuitmux.work, FlushState.withCmux, FlushState.write, hdq₂, hdq₁, hm₂,
          hunblock, activeCircuits]
        rw [hcircuits]
        simp only [List.map_append, List.map_cons, List.sum_append, List.sum_cons, hcells,
          List.length_cons, List.countP_append, List.countP_cons, hpos, decide_true, if_true,
          decide_eq_true_eq]
        split_ifs <;> omega
      · intro _ hsync
        rw [Synced, hcircuits, List.forall_mem_append, List.forall_mem_cons] at hsync
        refine ⟨?_, rfl, ?_⟩
        · simp only [Synced, FlushState.withCmux, hm₂, hunblock]
          rw [List.forall_mem_append, List.forall_mem_cons]
          exact ⟨hsync.1, rfl, hsync.2.2⟩
        · simp only [Circuitmux.waiting, FlushState.withCmux, FlushState.write, hdq₂, hdq₁, hm₂,
            hunblock]
          rw [hcircuits]
          simp only [List.map_append, List.map_cons, List.sum_append, List.sum_cons, hcells,
            List.length_cons, if_true]
          omega

end Turn

section Loop

theorem getFirstActiveCircuit_spec (hm : Counted m) (turns : Turns Cell) (k : ℕ) :
    ∃ last choice, circuitmuxGetFirstActiveCircuit (turns.pickActiveCircuit k) m =
        some ({ m with lastCellWasDestroy := last }, choice) ∧
      match choice with
      | .destroyQueue => m.destroyCellQueue ≠ []
      | .circuit i => ∃ circ, m.circuits[i]? = some circ ∧ 0 < circ.cellCount
      | .nothing => True := by
  have hcells := hm.nCells
  have hactive := hm.nActiveCircuits
  unfold circuitmuxGetFirstActiveCircuit
  by_cases hdestroy : m.destroyCellQueue ≠ [] ∧
      (m.lastCellWasDestroy = false ∨ m.nActiveCircuits = 0)
  · rw [if_pos hdestroy]
    exact ⟨_, _, rfl, hdestroy.1⟩
  rw [if_neg hdestroy]
  by_cases hpos : 0 < m.nActiveCircuits
  · have hcount : 0 < activeCircuits m := by omega
    obtain ⟨circ, hmem, hcirc⟩ := List.countP_pos_iff.mp hcount
    have hle : circ.cellCount ≤ (m.circuits.map (·.cellCount)).sum :=
      List.single_le_sum (by simp) _ (List.mem_map_of_mem hmem)
    have hcirc' : 0 < circ.cellCount := of_decide_eq_true hcirc
    rw [if_pos hpos, if_pos (by omega)]
    cases hpick : turns.pickActiveCircuit k m.circuits with
    | none => exact ⟨_, _, rfl, trivial⟩
    | some i => exact ⟨_, _, rfl, turns.picks k _ i hpick⟩
  · have hzero : activeCircuits m = 0 := by omega
    have hall : (m.circuits.map (·.cellCount)).sum = 0 := by
      rw [List.sum_eq_zero_iff]
      intro n hn
      obtain ⟨circ, hmem, rfl⟩ := List.mem_map.mp hn
      have hnot := List.countP_eq_zero.mp hzero circ hmem
      simpa using hnot
    have hempty : m.destroyCellQueue = [] := by
      by_contra hne
      exact hdestroy ⟨hne, Or.inr (by omega)⟩
    rw [if_neg hpos, if_pos ⟨by omega, hempty⟩]
    exact ⟨_, _, rfl, trivial⟩

/-- What is kept of the counters in the loop: their difference, and with writes that succeed also
the difference to the length of the queue. -/
structure Keeps (succeeds : Prop) (st st' : FlushState Cell) : Prop where
  counted : Counted st'.chan.cmux
  global : st'.globalDestroyCtr - st'.chan.cmux.destroyCtr =
    st.globalDestroyCtr - st.chan.cmux.destroyCtr
  synced : succeeds → Synced st.chan.cmux → Synced st'.chan.cmux
  counter : succeeds → Synced st.chan.cmux →
    st'.chan.cmux.destroyCtr - st'.chan.cmux.destroyCellQueue.length =
      st.chan.cmux.destroyCtr - st.chan.cmux.destroyCellQueue.length

/-- The second writes succeed where the first do, in a mux whose counts are right. -/
theorem Keeps.trans {succeeds succeeds' succeeds'' : Prop} {st₁ st₂ st₃ : FlushState Cell}
    (h : Keeps succeeds st₁ st₂) (h' : Keeps succeeds' st₂ st₃) (hfirst : succeeds'' → succeeds)
    (hlater : succeeds'' → Synced st₁.chan.cmux → succeeds') : Keeps succeeds'' st₁ st₃ where
  counted := h'.counted
  global := h'.global.trans h.global
  synced hs hsync := h'.synced (hlater hs hsync) (h.synced (hfirst hs) hsync)
  counter hs hsync := (h'.counter (hlater hs hsync) (h.synced (hfirst hs) hsync)).trans
    (h.counter (hfirst hs) hsync)

theorem Keeps.mono {succeeds succeeds' : Prop} {st₁ st₂ : FlushState Cell}
    (h : Keeps succeeds st₁ st₂) (hfirst : succeeds' → succeeds) : Keeps succeeds' st₁ st₂ :=
  ⟨h.counted, h.global, fun hs => h.synced (hfirst hs), fun hs => h.counter (hfirst hs)⟩

theorem waiting_pos (hsync : Synced m) (hget : m.circuits[i]? = some circ)
    (hpos : 0 < circ.cellCount) : 0 < m.waiting := by
  have hmem := List.mem_of_getElem? hget
  have hle : circ.cells.length ≤ (m.circuits.map (·.cells.length)).sum :=
    List.single_le_sum (by simp) _ (List.mem_map_of_mem hmem)
  have hcount := hsync circ hmem
  rw [Circuitmux.waiting]
  omega

theorem flushTurn_spec (hm : Counted st.chan.cmux) (turns : Turns Cell) (k : ℕ) :
    ∃ st' goesOn, flushTurn turns k st = some (st', goesOn) ∧
      Keeps (0 < st.chan.cmux.waiting → turns.writes k) st st' ∧
      (goesOn = true → st'.chan.cmux.work < st.chan.cmux.work) ∧
      (goesOn = true → (0 < st.chan.cmux.waiting → turns.writes k) → Synced st.chan.cmux →
        0 < st.chan.cmux.waiting ∧ st'.nFlushed = st.nFlushed + 1 ∧
          st'.chan.cmux.waiting + 1 = st.chan.cmux.waiting) := by
  obtain ⟨last, choice, hget, hchoice⟩ := getFirstActiveCircuit_spec hm turns k
  unfold flushTurn
  rw [hget]
  simp only [Option.bind_eq_bind, Option.bind_some]
  have hm' : Counted { st.chan.cmux with lastCellWasDestroy := last } := ⟨hm.1, hm.2⟩
  cases choice with
  | nothing =>
    exact ⟨_, _, rfl, ⟨hm', rfl, fun _ h => h, fun _ _ => rfl⟩, by simp, by simp⟩
  | destroyQueue =>
    obtain ⟨st', hturn, hcircuits, hcells, hactive, hlen, hglobal, hsucceeds⟩ :=
      @destroyTurn_spec _ (st.withCmux { st.chan.cmux with lastCellWasDestroy := last })
        (turns.writes k) hchoice
    simp only [FlushState.withCmux] at hturn hcircuits hcells hactive hlen hglobal hsucceeds
    simp only [FlushState.withCmux, hturn]
    have hwaiting : st'.chan.cmux.waiting + 1 = st.chan.cmux.waiting := by
      rw [Circuitmux.waiting, Circuitmux.waiting, hcircuits]
      omega
    have hpos : 0 < st.chan.cmux.waiting := by omega
    refine ⟨st', true, rfl, ⟨?_, hglobal, ?_, ?_⟩, fun _ => ?_,
      fun _ hw _ => ⟨hpos, (hsucceeds (hw hpos)).2, hwaiting⟩⟩
    · refine Counted.of_eq hm ?_ hcells hactive
      rw [hcircuits]
    · intro _ hsync
      rwa [Synced, hcircuits]
    · intro hw _
      rw [(hsucceeds (hw hpos)).1, ← hlen]
      omega
    · rw [Circuitmux.work, Circuitmux.work, activeCircuits, activeCircuits, hcircuits]
      omega
  | circuit i =>
    obtain ⟨circ, hcirc, hpos⟩ := hchoice
    obtain ⟨st', hturn, hcounted, hwork, hdq, hctr, hglobal, hsucceeds⟩ :=
      @circuitTurn_spec _ i circ (st.withCmux { st.chan.cmux with lastCellWasDestroy := last })
        turns.lowwatermark (turns.writes k) hm' hcirc hpos
    refine ⟨st', true, congrArg (Option.map (·, true)) hturn, ⟨hcounted, ?_, ?_, ?_⟩,
      fun _ => hwork, fun _ hw hsync => ?_⟩
    · rw [hglobal, hctr]
      rfl
    · exact fun hw hsync => (hsucceeds (hw (waiting_pos hsync hcirc hpos)) hsync).1
    · intro _ _
      rw [hdq, hctr]
      rfl
    · have hwaiting := waiting_pos hsync hcirc hpos
      exact ⟨hwaiting, (hsucceeds (hw hwaiting) hsync).2⟩

/-- A turn of a mux whose counts are right writes a cell that waits, so no turn is late where the
writes up to there succeed. -/
theorem flushLoop_spec (hm : Counted st.chan.cmux) (turns : Turns Cell) (max : ℕ) (k : ℕ)
    (hroom : st.chan.cmux.work < room) : ∃ st' n, flushLoop turns max room k st = some (st', n) ∧
      Keeps (∀ j < max - st.nFlushed, j < st.chan.cmux.waiting → turns.writes (k + j)) st st' ∧
      ((∀ j < max - st.nFlushed, j < st.chan.cmux.waiting → turns.writes (k + j)) →
        Synced st.chan.cmux → n ≤ k + (max - st.nFlushed)) := by
  induction room generalizing st k with
  | zero => omega
  | succ room ih =>
    rw [flushLoop]
    split_ifs with hmax
    · obtain ⟨st', goesOn, hturn, hkeeps, hwork, hcount⟩ := flushTurn_spec hm turns k
      have hfirst : (∀ j < max - st.nFlushed, j < st.chan.cmux.waiting → turns.writes (k + j)) →
          0 < st.chan.cmux.waiting → turns.writes k :=
        fun hw => hw 0 (by omega)
      have hkeeps' := hkeeps.mono hfirst
      rw [hturn]
      cases goesOn with
      | false =>
        refine ⟨st', k + 1, rfl, hkeeps', fun _ _ => ?_⟩
        omega
      | true =>
        have hless := hwork rfl
        obtain ⟨st'', n, hloop, hkeeps'', hturns⟩ := @ih st' hkeeps.counted (k + 1) (by omega)
        have hlater : (∀ j < max - st.nFlushed, j < st.chan.cmux.waiting →
            turns.writes (k + j)) → Synced st.chan.cmux →
            ∀ j < max - st'.nFlushed, j < st'.chan.cmux.waiting → turns.writes (k + 1 + j) := by
          intro hw hsync j hj hwaiting
          obtain ⟨-, hflushed, hone⟩ := hcount rfl (hfirst hw) hsync
          have hnext := hw (j + 1) (by omega) (by omega)
          rwa [← Nat.add_assoc, Nat.add_right_comm] at hnext
        refine ⟨st'', n, hloop, ?_, fun hw hsync => ?_⟩
        · exact hkeeps.trans hkeeps'' hfirst hlater
        · have hn := hturns (hlater hw hsync) (hkeeps'.synced hw hsync)
          rw [(hcount rfl (hfirst hw) hsync).2.1] at hn
          omega
    · exact ⟨st, k, rfl, ⟨hm, rfl, fun _ h => h, fun _ _ => rfl⟩, fun _ _ => by omega⟩

end Loop

section Runs
variable {w w' : World Cell} {chan : Channel Cell}

/-- What a call leaves of a channel, with the counters in step. -/
structure Settled (w : World Cell) (chan : Channel Cell) (st : FlushState Cell) : Prop where
  counted : Counted st.chan.cmux
  synced : Synced st.chan.cmux
  counter : st.chan.cmux.destroyCtr = st.chan.cmux.destroyCellQueue.length
  global : st.globalDestroyCtr - st.chan.cmux.destroyCtr =
    w.globalDestroyCtr - chan.cmux.destroyCtr

theorem put_sound (h : Sound w) (hget : w.channels[i]? = some chan) (hst : Settled w chan st)
    (n : ℕ) : Sound (w.put i (st, n)).1 := by
  have hmem : ∀ {P : Channel Cell → Prop}, (∀ chan ∈ w.channels, P chan) → P st.chan →
      ∀ chan ∈ w.channels.set i st.chan, P chan := by
    intro P hall hnew chan' hchan'
    rcases List.mem_or_eq_of_mem_set hchan' with hin | rfl
    · exact hall chan' hin
    · exact hnew
  refine ⟨⟨hmem h.each hst.counter, ?_⟩, hmem h.counted hst.counted, hmem h.synced hst.synced⟩
  obtain ⟨hlt, rfl⟩ := List.getElem?_eq_some_iff.mp hget
  have hsplit : w.channels.take i ++ w.channels[i] :: w.channels.drop (i + 1) = w.channels := by
    rw [List.getElem_cons_drop, List.take_append_drop]
  have hsum := h.sum
  have hglobal := hst.global
  rw [← hsplit] at hsum
  simp only [World.put, List.set_eq_take_append_cons_drop, hlt, if_true]
  simp only [List.map_append, List.map_cons, List.sum_append, List.sum_cons] at hsum ⊢
  omega

theorem flush_settled (h : Sound w) (hget : w.channels[i]? = some chan) {chan' : Channel Cell}
    {ctr : ℤ} (hcircuits : chan'.cmux.circuits = chan.cmux.circuits)
    (hcells : chan'.cmux.nCells = chan.cmux.nCells)
    (hactive : chan'.cmux.nActiveCircuits = chan.cmux.nActiveCircuits)
    (hcounter : chan'.cmux.destroyCtr = chan'.cmux.destroyCellQueue.length)
    (hglobal : ctr - chan'.cmux.destroyCtr = w.globalDestroyCtr - chan.cmux.destroyCtr)
    {max : ℕ} (hw : ∀ k < max, k < chan'.cmux.waiting → turns.writes k) :
    ∃ st n, channelFlushFromFirstActiveCircuit turns max chan' ctr = some (st, n) ∧
      Settled w chan st ∧ n ≤ max := by
  have hchan := List.mem_of_getElem? hget
  have hcounted : Counted chan'.cmux :=
    Counted.of_eq (h.counted chan hchan) (by rw [hcircuits]) hcells hactive
  have hsynced : Synced chan'.cmux := by
    rw [Synced, hcircuits]
    exact h.synced chan hchan
  obtain ⟨st, n, hloop, hkeeps, hturns⟩ := @flushLoop_spec _ (chan'.cmux.work + 1) ⟨chan', ctr, 0⟩
    hcounted turns max 0 (Nat.lt_succ_self _)
  have hwrites : ∀ j < max - 0, j < chan'.cmux.waiting → turns.writes (0 + j) := by
    simpa using hw
  have hn := hturns hwrites hsynced
  have hctr := hkeeps.counter hwrites hsynced
  simp only at hn hctr
  refine ⟨st, n, hloop, ⟨hkeeps.counted, hkeeps.synced hwrites hsynced, by omega, ?_⟩, by omega⟩
  exact hkeeps.global.trans hglobal

theorem appendCell_spec {maxQueueSize highwatermark j : ℕ} {cell : Cell} (hm : Counted m)
    (hsync : Synced m) : ∃ m', appendCellToCircuitQueue maxQueueSize highwatermark j cell m =
        some m' ∧ Counted m' ∧ Synced m' ∧ m'.destroyCellQueue = m.destroyCellQueue ∧
      m'.destroyCtr = m.destroyCtr := by
  unfold appendCellToCircuitQueue
  cases hget : m.circuits[j]? with
  | none => exact ⟨m, rfl, hm, hsync, rfl, rfl⟩
  | some circ =>
    dsimp only
    split_ifs
    · exact ⟨m, rfl, hm, hsync, rfl, rfl⟩
    · obtain ⟨before, after, hcircuits, hlen⟩ := exists_split hget
      set circ' : AttachedCircuit Cell := { circ with
        cells := circ.cells ++ [cell]
        blocked := circ.blocked || decide (highwatermark ≤ circ.cells.length + 1) } with hcirc'
      have hset : m.circuits.set j circ' = before ++ circ' :: after := by
        rw [hcircuits, set_split hlen]
      have hcounted : Counted { m with circuits := m.circuits.set j circ' } := by
        refine Counted.of_eq hm ?_ rfl rfl
        rw [hset, hcircuits, List.map_append, List.map_append, List.map_cons, List.map_cons]
      obtain ⟨m', hnum, hcounted', hcircuits', hdq, hctr⟩ := setNumCells_split hlen hcounted
        hset (circ.cells.length + 1)
      refine ⟨m', hnum, hcounted', ?_, hdq, hctr⟩
      rw [Synced, hcircuits, List.forall_mem_append, List.forall_mem_cons] at hsync
      rw [Synced, hcircuits', List.forall_mem_append, List.forall_mem_cons]
      exact ⟨hsync.1, by simp [hcirc'], hsync.2.2⟩

theorem apply_spec (h : Sound w) {call : Call Cell} (hw : w.WritesSucceed call) :
    ∃ w' n, w.apply call = some (w', n) ∧ Sound w' ∧ n ≤ call.max := by
  cases call with
  | appendDestroy i cell hasQueuedWrites turns =>
    rw [World.apply]
    cases hget : w.channels[i]? with
    | none => exact ⟨w, 0, rfl, h, Nat.zero_le _⟩
    | some chan =>
      have hchan := List.mem_of_getElem? hget
      have hcounter := h.each chan hchan
      unfold circuitmuxAppendDestroyCell
      cases hasQueuedWrites with
      | true =>
        refine ⟨_, _, rfl, put_sound h hget ⟨?_, h.synced chan hchan, ?_, ?_⟩ 0, Nat.zero_le _⟩
        · exact ⟨(h.counted chan hchan).1, (h.counted chan hchan).2⟩
        · simp [hcounter]
        · simp
      | false =>
        simp only [Bool.false_eq_true, if_false]
        have hfirst : ∀ k < 1, turns.writes k := by
          simpa using hw chan hget rfl
        obtain ⟨st, n, hflush, hsettled, hn⟩ := @flush_settled _ i turns w chan h hget
          { chan with cmux := { chan.cmux with
              destroyCellQueue := chan.cmux.destroyCellQueue ++ [cell]
              destroyCtr := chan.cmux.destroyCtr + 1 } } (w.globalDestroyCtr + 1) rfl rfl rfl
          (by simp [hcounter]) (by simp) 1 fun k hk _ => hfirst k hk
        exact ⟨_, _, by rw [hflush]; rfl, put_sound h hget hsettled n, hn⟩
  | appendCell i j maxQueueSize highwatermark cell =>
    rw [World.apply]
    cases hget : w.channels[i]? with
    | none => exact ⟨w, 0, rfl, h, Nat.zero_le _⟩
    | some chan =>
      have hchan := List.mem_of_getElem? hget
      obtain ⟨m', happend, hcounted, hsync, hdq, hctr⟩ :=
        @appendCell_spec _ chan.cmux maxQueueSize highwatermark j cell (h.counted chan hchan)
          (h.synced chan hchan)
      have hcounter := h.each chan hchan
      refine ⟨_, _, by dsimp only; rw [happend]; rfl,
        @put_sound _ _ ⟨{ chan with cmux := m' }, w.globalDestroyCtr, 0⟩ w chan h hget
          ⟨hcounted, hsync, ?_, ?_⟩ 0, le_rfl⟩
      · rw [hdq, hctr, hcounter]
      · rw [hctr]
  | flush i max turns =>
    rw [World.apply]
    cases hget : w.channels[i]? with
    | none => exact ⟨w, 0, rfl, h, Nat.zero_le _⟩
    | some chan =>
      obtain ⟨st, n, hflush, hsettled, hn⟩ := @flush_settled _ i turns w chan h hget chan
        w.globalDestroyCtr rfl rfl rfl (h.each chan (List.mem_of_getElem? hget)) rfl max
        (hw chan hget)
      exact ⟨_, _, by dsimp only; rw [hflush]; rfl, put_sound h hget hsettled n, hn⟩

theorem run_sound (h : Sound w) {before after : List (Call Cell)}
    (hw : w.AllWritesSucceed (before ++ after)) :
    ∃ w', w.run before = some w' ∧ Sound w' ∧ w'.AllWritesSucceed after := by
  induction before generalizing w with
  | nil => exact ⟨w, rfl, h, hw⟩
  | cons call before ih =>
    obtain ⟨w', n, happly, hsound, -⟩ := apply_spec h hw.1
    obtain ⟨w'', hrun, hrest⟩ := ih hsound (hw.2 w' (congrArg (Option.map Prod.fst) happly))
    refine ⟨w'', ?_, hrest⟩
    rw [World.run, happly, Option.bind_some, hrun]

/-- While the writes to the channels succeed, the destroy cells are accounted for in each state
that is reached, no assertion fails, and no flush takes more turns than it may. -/
theorem runRight_of_writesSucceed (w : World Cell) (h : Sound w) (calls : List (Call Cell))
    (hw : w.AllWritesSucceed calls) : RunRight w calls := by
  constructor
  · rintro before after rfl
    obtain ⟨w', hrun, hsound, -⟩ := run_sound h hw
    exact ⟨w', hrun, hsound.toAccounted⟩
  · rintro before call after rfl w' hrun
    obtain ⟨w'', hrun', hsound, hrest⟩ := run_sound h hw
    rw [hrun] at hrun'
    obtain rfl := Option.some.inj hrun'
    obtain ⟨w₃, n, happly, -, hn⟩ := apply_spec hsound hrest.1
    exact ⟨w₃, n, happly, hn⟩

end Runs

section Example

/-- A flush that has no circuit to pick. -/
def noCircuits (succeeds : Bool) : Turns Unit where
  pickActiveCircuit _ _ := none
  picks := by simp
  writes _ := succeeds
  lowwatermark := 0

def oneChannel : World Unit := ⟨[⟨⟨[], 0, 0, false, [], 0⟩, [], false⟩], 0⟩

theorem oneChannel_sound : Sound oneChannel where
  each := by simp [oneChannel]
  sum := by simp [oneChannel]
  counted := by
    intro chan hchan
    obtain rfl : chan = _ := List.mem_singleton.mp hchan
    exact ⟨rfl, rfl⟩
  synced := by
    intro chan hchan
    obtain rfl : chan = _ := List.mem_singleton.mp hchan
    simp [Synced]

/-- The first active circuit is picked. -/
def firstActive (succeeds : Bool) : Turns ℕ where
  pickActiveCircuit _ circuits := circuits.findIdx? (0 < ·.cellCount)
  picks _ circuits i h := by
    obtain ⟨hlt, hpos, -⟩ := List.findIdx?_eq_some_iff_getElem.mp h
    exact ⟨circuits[i], List.getElem?_eq_getElem hlt, of_decide_eq_true hpos⟩
  writes _ := succeeds
  lowwatermark := 10

/-- Muxes with a circuit and with two circuits. -/
def twoChannels : World ℕ where
  channels := [⟨⟨[⟨[], 0, false, false⟩], 0, 0, false, [], 0⟩, [], false⟩,
    ⟨⟨[⟨[], 0, false, false⟩, ⟨[], 0, false, false⟩], 0, 0, false, [], 0⟩, [], false⟩]
  globalDestroyCtr := 0

theorem twoChannels_sound : Sound twoChannels where
  each := by simp [twoChannels]
  sum := by simp [twoChannels]
  counted := by
    intro chan hchan
    rcases List.mem_pair.mp hchan with rfl | rfl
    · exact ⟨rfl, rfl⟩
    · exact ⟨rfl, rfl⟩
  synced := by simp [twoChannels, Synced]

/-- Two destroy cells and three relay cells; no write is tried where one would fail. -/
def interleaved : List (Call ℕ) :=
  [.appendCell 0 0 100 50 1, .appendCell 1 1 100 50 2, .appendCell 1 0 100 50 3,
    .appendDestroy 1 ⟨7, 0⟩ true (firstActive false), .flush 1 10 (firstActive true),
    .appendDestroy 0 ⟨8, 0⟩ false (firstActive true), .flush 0 1 (firstActive true),
    .flush 0 5 (firstActive false)]

theorem runRight_of_writesSucceed_interleaved : RunRight twoChannels interleaved ∧
    (twoChannels.run interleaved).map (fun w => w.channels.map (·.outbuf)) =
      some [[.inl ⟨8, 0⟩, .inr 1], [.inl ⟨7, 0⟩, .inr 3, .inr 2]] :=
  ⟨runRight_of_writesSucceed twoChannels twoChannels_sound _ (by decide +kernel),
    by decide +kernel⟩

/-- A destroy cell whose write fails is counted for ever. -/
theorem failedWrite_counted : Sound oneChannel ∧
    ¬RunRight oneChannel [.appendDestroy 0 ⟨7, 0⟩ false (noCircuits false)] := by
  refine ⟨oneChannel_sound, fun h => ?_⟩
  obtain ⟨w, hrun, haccounted⟩ := h.accounted _ [] (List.append_nil _).symm
  have hone : oneChannel.run [.appendDestroy 0 ⟨7, 0⟩ false (noCircuits false)] =
      some ⟨[⟨⟨[], 0, 0, true, [], 1⟩, [], true⟩], 1⟩ := rfl
  rw [hone] at hrun
  obtain rfl := Option.some.inj hrun
  have heach := haccounted.each _ (List.mem_singleton_self _)
  exact absurd heach (by decide)

end Example

end DestroyRuns

end TorDaemon.Circuitmux

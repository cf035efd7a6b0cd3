import TorDaemon.Circuitmux.Destroys
import TorDaemon.Circuitmux.Ewma
import TorDaemon.Library.Tables

/-! The circuits that are attached to a circuitmux, with their counts and their places in the queue
of its policy (`circuitmux.c`). -/
namespace TorDaemon.Circuitmux.Attachments
open Container.Pqueue Ewma Library.Heap Library.Sweep Library.Tables

section Model

structure OrCircuit where
  pChan : Option UInt64
  pCircId : UInt32
  pChanCells : ℕ

/-- What a mux reads of a circuit. Channels go by their global identifiers. -/
structure Circuit where
  nChan : Option UInt64
  nCircId : UInt32
  nChanCells : ℕ
  orCircuit : Option OrCircuit

def Circuit.nKey (circ : Circuit) : Option ChanidCircid := circ.nChan.map (⟨·, circ.nCircId⟩)

def Circuit.pKey (circ : Circuit) : Option ChanidCircid :=
  circ.orCircuit.bind fun orCirc => orCirc.pChan.map (⟨·, orCirc.pCircId⟩)

/-- `circuit_muxinfo_t`, with whether it has policy data. -/
structure CircuitMuxinfo where
  cellCount : ℕ
  direction : CellDirection
  policyData : Bool
  deriving DecidableEq

/-- A mux has the policy of `circuitmux_ewma.c` or none. -/
structure Mux (α : Type) where
  chanidCircidMap : AList fun _ : ChanidCircid => CircuitMuxinfo
  nCircuits : ℤ
  nActiveCircuits : ℤ
  nCells : ℤ
  policy : Option (PolicyData α)
  lastCellWasDestroy : Bool
  destroyCellQueue : List DestroyCell
  destroyCtr : ℤ

/-- The outcome of `circuitmux_get_first_active_circuit`. -/
inductive Choice
  | destroyQueue
  | circuit (k : ChanidCircid)
  | nothing
  deriving DecidableEq

abbrev Entry := Σ _ : ChanidCircid, CircuitMuxinfo

variable {α : Type}

def circuitmuxAlloc : Mux α := ⟨∅, 0, 0, 0, none, false, [], 0⟩

def Mux.setMuxinfo (m : Mux α) (k : ChanidCircid) (info : CircuitMuxinfo) : Mux α :=
  { m with chanidCircidMap := m.chanidCircidMap.insert k info }

def entryAt (m : Mux α) (key : Option ChanidCircid) : Option Entry :=
  key.bind fun k => (m.chanidCircidMap.lookup k).map (⟨k, ·⟩)

/-- `none` is an assertion that fails, here and below. -/
def circuitmuxFindMapEntry (m : Mux α) (circ : Circuit) : Option (Option Entry) :=
  match entryAt m circ.nKey with
  | some hashent => if hashent.2.direction = .out then some (some hashent) else none
  | none =>
    match entryAt m circ.pKey with
    | some hashent => if hashent.2.direction = .into then some (some hashent) else none
    | none => some none

/-- The policy is told of the entry that the circuit has now. -/
def notifyPolicy (notify : ChanidCircid → PolicyData α → Option (PolicyData α)) (circ : Circuit)
    (m : Mux α) : Option (Mux α) := do
  let pol ← m.policy
  let found ← circuitmuxFindMapEntry m circ
  let hashent ← found
  if hashent.2.policyData then
    (notify hashent.1 pol).map fun pol => { m with policy := some pol }
  else none

variable [LinearOrder α]

section
variable (d : Doubles α)

section
variable (clock : Clock d)

def circuitmuxMakeCircuitActive : Circuit → Mux α → Option (Mux α) :=
  notifyPolicy (addCellEwma d clock)

def circuitmuxMakeCircuitInactive : Circuit → Mux α → Option (Mux α) :=
  notifyPolicy removeCellEwma

section
variable (circ : Circuit)

/-- The key and the cells of a circuit that is attached in a direction. -/
def Circuit.attachment : CellDirection → Option (ChanidCircid × ℕ)
  | .out => circ.nKey.map (·, circ.nChanCells)
  | .into => circ.orCircuit.bind fun orCirc =>
      orCirc.pChan.map fun chan => (⟨chan, orCirc.pCircId⟩, orCirc.pChanCells)

/-- The circuit becomes active or inactive as its count changes. -/
def countChanges (before after : ℕ) (m : Mux α) : Option (Mux α) :=
  if 0 < before ∧ after = 0 then
    circuitmuxMakeCircuitInactive circ { m with nActiveCircuits := m.nActiveCircuits - 1 }
  else if before = 0 ∧ 0 < after then
    circuitmuxMakeCircuitActive d clock circ { m with nActiveCircuits := m.nActiveCircuits + 1 }
  else some m

/-- A circuit that is not attached yet. -/
def attachNew (direction : CellDirection)
    (k : ChanidCircid) (cellCount : ℕ) (m : Mux α) : Option (Mux α) := do
  let pol ← m.policy
  let m := { m.setMuxinfo k ⟨cellCount, direction, true⟩ with
    policy := some (ewmaAllocCircData d clock k direction pol)
    nCircuits := m.nCircuits + 1 }
  let withCells (m : Mux α) := { m with nCells := m.nCells + cellCount }
  if 0 < cellCount then
    (circuitmuxMakeCircuitActive d clock circ
      { m with nActiveCircuits := m.nActiveCircuits + 1 }).map withCells
  else some (withCells m)

def circuitmuxAttachCircuit
    (direction : CellDirection) (m : Mux α) : Option (Mux α) := do
  let (k, cellCount) ← circ.attachment direction
  if k.circId = 0 then none
  else
    match m.chanidCircidMap.lookup k with
    | some info =>
      if info.direction ≠ direction then none
      else
        (countChanges d clock circ info.cellCount cellCount m).map fun m =>
          { m.setMuxinfo k { info with cellCount := cellCount } with
            nCells := m.nCells - info.cellCount + cellCount }
    | none => attachNew d clock circ direction k cellCount m

/-- The entry for the circuit, with the direction that was searched last. -/
def detachSearch (m : Mux α) : Option Entry × Option CellDirection :=
  match entryAt m circ.nKey with
  | some hashent => (some hashent, some .out)
  | none =>
    if circ.pKey.isSome then (entryAt m circ.pKey, some .into)
    else (none, circ.nKey.map fun _ => .out)

end

/-- The circuit becomes inactive if it has cells. -/
def stopIf (stops : Prop) [Decidable stops] (circ : Circuit) (m : Mux α) : Option (Mux α) :=
  if stops then
    circuitmuxMakeCircuitInactive circ { m with nActiveCircuits := m.nActiveCircuits - 1 }
  else some m

def circuitmuxDetachCircuit (circ : Circuit) (m : Mux α) : Option (Mux α) :=
  match detachSearch circ m with
  | (_, none) => none
  | (none, some _) => some m
  | (some hashent, some lastSearchedDirection) => do
    let info := hashent.2
    let m ← stopIf (0 < info.cellCount) circ { m with nCircuits := m.nCircuits - 1 }
    let m := { m with nCells := m.nCells - info.cellCount }
    if info.policyData ∧ m.policy.isNone then none
    else if lastSearchedDirection ≠ info.direction then none
    else some { m with chanidCircidMap := m.chanidCircidMap.erase hashent.1 }

def circuitmuxSetNumCells (circ : Circuit) (nCells : ℕ) (m : Mux α) : Option (Mux α) := do
  let found ← circuitmuxFindMapEntry m circ
  let hashent ← found
  let info := hashent.2
  if m.policy.isNone then none
  else
    countChanges d clock circ info.cellCount nCells
      { m.setMuxinfo hashent.1 { info with cellCount := nCells } with
        nCells := m.nCells - info.cellCount + nCells }

def circuitmuxNotifyXmitCells (circ : Circuit) (nCells : ℕ) (m : Mux α) : Option (Mux α) :=
  if nCells = 0 then some m
  else do
    let found ← circuitmuxFindMapEntry m circ
    let hashent ← found
    let info := hashent.2
    if info.cellCount < nCells then none
    else
      let m := { m.setMuxinfo hashent.1 { info with cellCount := info.cellCount - nCells } with
        nCells := m.nCells - nCells }
      let pol ← m.policy
      if info.policyData then
        let pol ← ewmaNotifyXmitCells d clock hashent.1 nCells pol
        stopIf (info.cellCount - nCells = 0) circ { m with policy := some pol }
      else none

/-- What the loop of `circuitmux_set_policy` does to the data of an entry under the old policy. -/
def leaveOldPolicy (hashent : Entry) (old : Option (PolicyData α)) :
    Option (Option (PolicyData α)) :=
  match old with
  | none => if hashent.2.policyData then none else some none
  | some pol =>
    if 0 < hashent.2.cellCount then
      if hashent.2.policyData then (removeCellEwma hashent.1 pol).map some else none
    else some (some pol)

/-- What the loop does for the entry under the new one. -/
def joinNewPolicy (hashent : Entry) (m : Mux α) : Option (Mux α) :=
  match m.policy with
  | none => some (m.setMuxinfo hashent.1 { hashent.2 with policyData := false })
  | some pol =>
    let m := m.setMuxinfo hashent.1 { hashent.2 with policyData := true }
    let pol := ewmaAllocCircData d clock hashent.1 hashent.2.direction pol
    if 0 < hashent.2.cellCount then
      (addCellEwma d clock hashent.1 pol).map fun pol => { m with policy := some pol }
    else some { m with policy := some pol }

end

end

/-- The loop of `circuitmux_set_policy`, for the circuits that are found for the keys. -/
def setPolicyEach (d : Doubles α) (clock : Clock d) (circuitOf : ChanidCircid → Option Circuit) :
    List Entry → Option (PolicyData α) → Mux α → Option (Mux α)
  | [], _, m => some m
  | hashent :: rest, old, m => do
    let _ ← circuitOf hashent.1
    let old ← leaveOldPolicy hashent old
    let m ← joinNewPolicy d clock hashent m
    setPolicyEach d clock circuitOf rest old m

/-- `circuitmux_set_policy`, for the policy of `circuitmux_ewma.c` or none. -/
def circuitmuxSetPolicy (d : Doubles α) (clock : Clock d) (ewma : Bool)
    (circuitOf : ChanidCircid → Option Circuit) (it : Iteration Entry) (m : Mux α) :
    Option (Mux α) :=
  if m.policy.isSome = ewma then some m
  else
    let newPolicy := if ewma then some (ewmaAllocCmuxData d clock) else none
    setPolicyEach d clock circuitOf (it.order m.chanidCircidMap.entries) m.policy
      { m with policy := newPolicy }

/-- What the loop of `circuitmux_detach_all_circuits` does for an entry before it removes it. An
entry without a circuit is complained about. -/
def detachEntry (circuitOf : ChanidCircid → Option Circuit) (hashent : Entry) (m : Mux α) :
    Option (Mux α) :=
  let info := hashent.2
  match circuitOf hashent.1 with
  | none => if info.policyData then none else some m
  | some circ =>
    let stopped :=
      if (info.direction = .out ∨ circ.orCircuit.isSome) ∧ 0 < info.cellCount then
        circuitmuxMakeCircuitInactive circ m
      else some m
    stopped.bind fun m => if info.policyData ∧ m.policy.isNone then none else some m

/-- The loop of `circuitmux_detach_all_circuits`. -/
def detachEach (circuitOf : ChanidCircid → Option Circuit) : List Entry → Mux α → Option (Mux α)
  | [], m => some m
  | hashent :: rest, m => do
    let m ← detachEntry circuitOf hashent m
    detachEach circuitOf rest { m with chanidCircidMap := m.chanidCircidMap.erase hashent.1 }

def circuitmuxDetachAllCircuits (circuitOf : ChanidCircid → Option Circuit) (it : Iteration Entry)
    (m : Mux α) : Option (Mux α) :=
  (detachEach circuitOf (it.order m.chanidCircidMap.entries) m).map fun m =>
    { m with nCircuits := 0, nActiveCircuits := 0, nCells := 0 }

def circuitmuxGetFirstActiveCircuit (m : Mux α) : Option (Mux α × Choice) :=
  m.policy.bind fun pol =>
    if m.destroyCellQueue ≠ [] ∧ (m.lastCellWasDestroy = false ∨ m.nActiveCircuits = 0) then
      some ({ m with lastCellWasDestroy := true }, .destroyQueue)
    else if 0 < m.nActiveCircuits then
      if 0 < m.nCells then
        some ({ m with lastCellWasDestroy := false },
          match ewmaPickActiveCircuit pol with
          | some k => .circuit k
          | none => .nothing)
      else none
    else if m.nCells = 0 ∧ m.destroyCellQueue = [] then some (m, .nothing)
    else none

/-- The mux, with the answer to the last question for a circuit. -/
structure Traced (α : Type) where
  cmux : Mux α
  asked : Option Choice

def start : Traced α := ⟨circuitmuxAlloc, none⟩

/-- The calls. `circuitmux_append_destroy_cell` may go on with a flush, which is a sequence of
others. -/
inductive Call (d : Doubles α)
  | attach (circ : Circuit) (direction : CellDirection) (clock : Clock d)
  | detach (circ : Circuit)
  | setNumCells (circ : Circuit) (nCells : ℕ) (clock : Clock d)
  | notifyXmitCells (circ : Circuit) (nCells : ℕ) (clock : Clock d)
  | setPolicy (ewma : Bool) (circuitOf : ChanidCircid → Option Circuit) (it : Iteration Entry)
      (clock : Clock d)
  | detachAll (circuitOf : ChanidCircid → Option Circuit) (it : Iteration Entry)
  | getFirst
  | appendDestroy (cell : DestroyCell)
  | popDestroy
  | notifyXmitDestroy

def Traced.withCmux (t : Traced α) (m : Mux α) : Traced α := { t with cmux := m }

def step (d : Doubles α) (t : Traced α) : Call d → Option (Traced α)
  | .attach circ direction clock =>
    (circuitmuxAttachCircuit d clock circ direction t.cmux).map t.withCmux
  | .detach circ => (circuitmuxDetachCircuit circ t.cmux).map t.withCmux
  | .setNumCells circ nCells clock =>
    (circuitmuxSetNumCells d clock circ nCells t.cmux).map t.withCmux
  | .notifyXmitCells circ nCells clock =>
    (circuitmuxNotifyXmitCells d clock circ nCells t.cmux).map t.withCmux
  | .setPolicy ewma circuitOf it clock =>
    (circuitmuxSetPolicy d clock ewma circuitOf it t.cmux).map t.withCmux
  | .detachAll circuitOf it => (circuitmuxDetachAllCircuits circuitOf it t.cmux).map t.withCmux
  | .getFirst => (circuitmuxGetFirstActiveCircuit t.cmux).map fun r => ⟨r.1, some r.2⟩
  | .appendDestroy cell =>
    let m := t.cmux
    some (t.withCmux { m with
      destroyCellQueue := m.destroyCellQueue ++ [cell], destroyCtr := m.destroyCtr + 1 })
  | .popDestroy =>
    let m := t.cmux
    some (t.withCmux { m with destroyCellQueue := m.destroyCellQueue.tail })
  | .notifyXmitDestroy =>
    let m := t.cmux
    some (t.withCmux { m with destroyCtr := m.destroyCtr - 1 })

end Model

section Statement
variable {α : Type}

def Mux.Active (m : Mux α) (k : ChanidCircid) : Prop :=
  ∃ info, m.chanidCircidMap.lookup k = some info ∧ 0 < info.cellCount

/-- Destroy cells wait, and a cell of a circuit was sent last or there is none to send. -/
def Mux.DestroyTurn (m : Mux α) : Prop :=
  m.destroyCellQueue ≠ [] ∧ (m.lastCellWasDestroy = false ∨ ¬ ∃ k, m.Active k)

/-- The answer to the question for a circuit. -/
structure Mux.AnswerRight (m : Mux α) (choice : Choice) : Prop where
  destroyQueue : choice = .destroyQueue ↔ m.DestroyTurn
  active : ∀ k, choice = .circuit k → m.Active k
  circuit : (∃ k, choice = .circuit k) ↔ (∃ k, m.Active k) ∧ ¬ m.DestroyTurn

/-- The entry that is found for the circuit. -/
def attachedAs (m : Mux α) (circ : Circuit) : Option Entry := (circuitmuxFindMapEntry m circ).join

/-- Each entry belongs to a circuit that is found for it. -/
def CircuitsFound (m : Mux α) (circuitOf : ChanidCircid → Option Circuit) : Prop :=
  ∀ hashent ∈ m.chanidCircidMap.entries,
    ∃ circ ∈ circuitOf hashent.1, attachedAs m circ = some hashent

variable [LinearOrder α]

/-- The counters are those of the entries, the queue of the policy is a heap of the active circuits,
and no destroy cell is asked for after another while a circuit is active. -/
structure Correct (t : Traced α) : Prop where
  nCircuits : t.cmux.nCircuits = t.cmux.chanidCircidMap.entries.length
  nActiveCircuits :
    t.cmux.nActiveCircuits = t.cmux.chanidCircidMap.entries.countP (0 < ·.2.cellCount)
  nCells : t.cmux.nCells = (t.cmux.chanidCircidMap.entries.map (·.2.cellCount)).sum
  queue : ∀ pol, t.cmux.policy = some pol →
    (∀ k, k ∈ pol.activeCircuitPqueue.list ↔ t.cmux.Active k) ∧
      AssertOk (compareCellEwmaCounts pol.cellEwma) pol.activeCircuitPqueue
  first : t.cmux.policy.isSome → ∃ m choice,
    circuitmuxGetFirstActiveCircuit t.cmux = some (m, choice) ∧ t.cmux.AnswerRight choice
  notTwice : t.asked = some .destroyQueue → (∃ k, t.cmux.Active k) → ¬ t.cmux.DestroyTurn

/-- What the callers see to. A circuit is attached to a mux in one direction, and sends the cells of
the mux when it is the one that the mux picked; a mux without a policy is only given one or left by
its circuits. -/
def WellFormed {d : Doubles α} (t : Traced α) : Call d → Prop
  | .attach circ direction _ => t.cmux.policy.isSome ∧
      ∃ attachment ∈ circ.attachment direction, attachment.1.circId ≠ 0 ∧
        ((∃ hashent ∈ attachedAs t.cmux circ,
            hashent.1 = attachment.1 ∧ hashent.2.direction = direction) ∨
          (circuitmuxFindMapEntry t.cmux circ = some none ∧ circ.nKey ≠ circ.pKey ∧
            t.cmux.chanidCircidMap.entries.length < intMax))
  | .detach circ => t.cmux.policy.isSome ∧ (circ.nKey.isSome ∨ circ.pKey.isSome) ∧
      (circuitmuxFindMapEntry t.cmux circ).isSome
  | .setNumCells circ _ _ => t.cmux.policy.isSome ∧ (attachedAs t.cmux circ).isSome
  | .notifyXmitCells circ nCells _ => nCells ≠ 0 →
      ∃ pol ∈ t.cmux.policy, ∃ hashent ∈ attachedAs t.cmux circ,
        nCells ≤ hashent.2.cellCount ∧ ewmaPickActiveCircuit pol = some hashent.1
  | .setPolicy _ circuitOf _ _ => CircuitsFound t.cmux circuitOf
  | .detachAll circuitOf _ => CircuitsFound t.cmux circuitOf ∧
      (t.cmux.policy.isSome ∨ ∀ hashent ∈ t.cmux.chanidCircidMap.entries, hashent.2.cellCount = 0)
  | .getFirst => t.cmux.policy.isSome
  | .appendDestroy _ => True
  | .popDestroy => t.cmux.destroyCellQueue ≠ []
  | .notifyXmitDestroy => True

instance {d : Doubles α} (t : Traced α) (call : Call d) : Decidable (WellFormed t call) := by
  cases call <;> unfold WellFormed CircuitsFound <;> infer_instance

/-- The last circuit of the heap may stand where `k` leaves it. -/
def LeavesInOrder (pol : PolicyData α) (k : ChanidCircid) : Prop :=
  FillInOrder (compareCellEwmaCounts pol.cellEwma) pol.activeCircuitPqueue k

instance (pol : PolicyData α) (k : ChanidCircid) : Decidable (LeavesInOrder pol k) :=
  inferInstanceAs (Decidable (FillInOrder ..))

/-- No circuit leaves the heap of the policy from a place where the last one may not stand: none
that is given no cells any more, and none that is detached. One that has sent its last cell was at
the root, and leaves from where its new count puts it. -/
def KeepsOrder {d : Doubles α} (t : Traced α) : Call d → Prop
  | .attach circ direction _ => ∀ pol ∈ t.cmux.policy, ∀ attachment ∈ circ.attachment direction,
      ∀ info ∈ t.cmux.chanidCircidMap.lookup attachment.1,
        0 < info.cellCount ∧ attachment.2 = 0 → LeavesInOrder pol attachment.1
  | .detach circ => ∀ pol ∈ t.cmux.policy, ∀ hashent ∈ attachedAs t.cmux circ,
      0 < hashent.2.cellCount → LeavesInOrder pol hashent.1
  | .setNumCells circ nCells _ => ∀ pol ∈ t.cmux.policy, ∀ hashent ∈ attachedAs t.cmux circ,
      0 < hashent.2.cellCount ∧ nCells = 0 → LeavesInOrder pol hashent.1
  | _ => True

instance {d : Doubles α} (t : Traced α) (call : Call d) : Decidable (KeepsOrder t call) := by
  cases call <;> unfold KeepsOrder <;> infer_instance

end Statement

/-! The counters of a circuitmux and the entries of its map. -/

section AttachmentCounts
variable {α : Type} {m m' : Mux α} {circ : Circuit} {k k' : ChanidCircid}
  {info info' : CircuitMuxinfo} {pol pol' : PolicyData α}

section Entries

theorem entryAt_eq_some {key : Option ChanidCircid} {hashent : Entry} :
    entryAt m key = some hashent ↔
      key = some hashent.1 ∧ m.chanidCircidMap.lookup hashent.1 = some hashent.2 := by
  unfold entryAt
  constructor
  · intro h
    obtain ⟨k, hk, hmap⟩ := Option.bind_eq_some_iff.mp h
    obtain ⟨info, hinfo, rfl⟩ := Option.map_eq_some_iff.mp hmap
    exact ⟨hk, hinfo⟩
  · rintro ⟨hk, hinfo⟩
    rw [hk, Option.bind_some, hinfo, Option.map_some]

theorem entryAt_eq_none {key : Option ChanidCircid} :
    entryAt m key = none ↔ ∀ k, key = some k → m.chanidCircidMap.lookup k = none := by
  unfold entryAt
  cases key with
  | none => simp
  | some k => simp

theorem attachedAs_eq_some {hashent : Entry} : attachedAs m circ = some hashent ↔
    circuitmuxFindMapEntry m circ = some (some hashent) := Option.join_eq_some_iff

theorem findMapEntry_iff : circuitmuxFindMapEntry m circ = some (some ⟨k, info⟩) ↔
    m.chanidCircidMap.lookup k = some info ∧
      ((circ.nKey = some k ∧ info.direction = .out) ∨
        (entryAt m circ.nKey = none ∧ circ.pKey = some k ∧ info.direction = .into)) := by
  unfold circuitmuxFindMapEntry
  cases hn : entryAt m circ.nKey with
  | some hashent =>
    have hat := entryAt_eq_some.mp hn
    dsimp only
    constructor
    · intro h
      rw [Option.ite_none_right_eq_some, Option.some_inj, Option.some_inj] at h
      obtain ⟨hdir, rfl⟩ := h
      exact ⟨hat.2, .inl ⟨hat.1, hdir⟩⟩
    · rintro ⟨hinfo, ⟨hk, hdir⟩ | ⟨hnone, -⟩⟩
      · have heq : hashent.1 = k := Option.some.inj (hat.1.symm.trans hk)
        obtain rfl := heq
        cases hat.2.symm.trans hinfo
        rw [if_pos hdir]
      · exact absurd hnone (by simp)
  | none =>
    have hnone := entryAt_eq_none.mp hn
    cases hp : entryAt m circ.pKey with
    | some hashent =>
      have hat := entryAt_eq_some.mp hp
      dsimp only
      constructor
      · intro h
        rw [Option.ite_none_right_eq_some, Option.some_inj, Option.some_inj] at h
        obtain ⟨hdir, rfl⟩ := h
        exact ⟨hat.2, .inr ⟨rfl, hat.1, hdir⟩⟩
      · rintro ⟨hinfo, ⟨hk, -⟩ | ⟨-, hk, hdir⟩⟩
        · exact absurd hinfo (by simp [hnone k hk])
        · have heq : hashent.1 = k := Option.some.inj (hat.1.symm.trans hk)
          obtain rfl := heq
          cases hat.2.symm.trans hinfo
          rw [if_pos hdir]
    | none =>
      have hpnone := entryAt_eq_none.mp hp
      constructor
      · intro h
        simp at h
      · rintro ⟨hinfo, ⟨hk, -⟩ | ⟨-, hk, -⟩⟩
        · exact absurd hinfo (by simp [hnone k hk])
        · exact absurd hinfo (by simp [hpnone k hk])

theorem findMapEntry_update (h : circuitmuxFindMapEntry m circ = some (some ⟨k, info⟩))
    (hdir : info'.direction = info.direction)
    (hmap : m'.chanidCircidMap = m.chanidCircidMap.insert k info') :
    circuitmuxFindMapEntry m' circ = some (some ⟨k, info'⟩) := by
  rw [findMapEntry_iff] at h ⊢
  rw [hmap, AList.lookup_insert, hdir]
  refine ⟨rfl, h.2.imp_right fun hp => ⟨?_, hp.2⟩⟩
  have hnone := entryAt_eq_none.mp hp.1
  rw [entryAt_eq_none, hmap]
  intro k' hk'
  have hne : k' ≠ k := by
    rintro rfl
    exact absurd h.1 (by simp [hnone k' hk'])
  rw [AList.lookup_insert_ne hne, hnone k' hk']

/-- The circuit is still found when another one leaves. -/
theorem findMapEntry_erase (h : circuitmuxFindMapEntry m circ = some (some ⟨k, info⟩))
    (hne : k ≠ k') (hmap : m'.chanidCircidMap = m.chanidCircidMap.erase k') :
    circuitmuxFindMapEntry m' circ = some (some ⟨k, info⟩) := by
  rw [findMapEntry_iff] at h ⊢
  rw [hmap, AList.lookup_erase_ne hne]
  refine ⟨h.1, h.2.imp_right fun hp => ⟨?_, hp.2⟩⟩
  have hnone := entryAt_eq_none.mp hp.1
  rw [entryAt_eq_none, hmap]
  intro a ha
  by_cases hak : a = k'
  · rw [hak, AList.lookup_erase]
  · rw [AList.lookup_erase_ne hak, hnone a ha]

theorem notifyPolicy_eq {notify : ChanidCircid → PolicyData α → Option (PolicyData α)}
    (hpol : m.policy = some pol) (hfind : circuitmuxFindMapEntry m circ = some (some ⟨k, info⟩))
    (hdata : info.policyData = true) (hnotify : notify k pol = some pol') :
    notifyPolicy notify circ m = some { m with policy := some pol' } := by
  unfold notifyPolicy
  rw [hpol, hfind]
  simp [hdata, hnotify]

theorem findMapEntry_eq_none : circuitmuxFindMapEntry m circ = some none ↔
    entryAt m circ.nKey = none ∧ entryAt m circ.pKey = none := by
  unfold circuitmuxFindMapEntry
  cases entryAt m circ.nKey with
  | some hashent => simp
  | none =>
    cases entryAt m circ.pKey with
    | some hashent => simp
    | none => simp

theorem attachment_eq {direction : CellDirection} {nCells : ℕ}
    (h : circ.attachment direction = some (k, nCells)) :
    (direction = .out ∧ circ.nKey = some k) ∨ (direction = .into ∧ circ.pKey = some k) := by
  cases direction with
  | out =>
    obtain ⟨k', hk', heq⟩ := Option.map_eq_some_iff.mp h
    obtain ⟨rfl, -⟩ := Prod.mk.injEq .. ▸ heq
    exact .inl ⟨rfl, hk'⟩
  | into =>
    obtain ⟨orCirc, hor, hmap⟩ := Option.bind_eq_some_iff.mp h
    obtain ⟨chan, hchan, heq⟩ := Option.map_eq_some_iff.mp hmap
    obtain ⟨rfl, -⟩ := Prod.mk.injEq .. ▸ heq
    refine .inr ⟨rfl, ?_⟩
    rw [Circuit.pKey, hor, Option.bind_some, hchan, Option.map_some]

theorem findMapEntry_new {direction : CellDirection} {nCells : ℕ} {policyData : Bool}
    (hfind : circuitmuxFindMapEntry m circ = some none) (hkeys : circ.nKey ≠ circ.pKey)
    (hat : circ.attachment direction = some (k, nCells)) : m.chanidCircidMap.lookup k = none ∧
      circuitmuxFindMapEntry (m.setMuxinfo k ⟨nCells, direction, policyData⟩) circ =
        some (some ⟨k, ⟨nCells, direction, policyData⟩⟩) := by
  obtain ⟨hn, hp⟩ := findMapEntry_eq_none.mp hfind
  rw [entryAt_eq_none] at hn hp
  rw [findMapEntry_iff]
  rcases attachment_eq hat with ⟨hdir, hkey⟩ | ⟨hdir, hkey⟩
  · exact ⟨hn k hkey, AList.lookup_insert _, .inl ⟨hkey, hdir⟩⟩
  · refine ⟨hp k hkey, AList.lookup_insert _, .inr ⟨?_, hkey, hdir⟩⟩
    rw [entryAt_eq_none]
    intro k' hk'
    have hne : k' ≠ k := by
      rintro rfl
      exact hkeys (hk'.trans hkey.symm)
    exact (AList.lookup_insert_ne hne).trans (hn k' hk')

theorem detachSearch_of_find (h : circuitmuxFindMapEntry m circ = some (some ⟨k, info⟩)) :
    detachSearch circ m = (some ⟨k, info⟩, some info.direction) := by
  obtain ⟨hk, ⟨hn, hdir⟩ | ⟨hnone, hp, hdir⟩⟩ := findMapEntry_iff.mp h
  · have hat : entryAt m circ.nKey = some ⟨k, info⟩ := entryAt_eq_some.mpr ⟨hn, hk⟩
    rw [detachSearch, hat, hdir]
  · have hat : entryAt m circ.pKey = some ⟨k, info⟩ := entryAt_eq_some.mpr ⟨hp, hk⟩
    simp only [detachSearch, hnone, hat, hdir]
    rw [if_pos (by rw [hp]; rfl)]

theorem detachSearch_of_none (h : circuitmuxFindMapEntry m circ = some none)
    (hkeys : circ.nKey.isSome ∨ circ.pKey.isSome) :
    ∃ direction, detachSearch circ m = (none, some direction) := by
  obtain ⟨hn, hp⟩ := findMapEntry_eq_none.mp h
  simp only [detachSearch, hn, hp]
  split_ifs with hsome
  · exact ⟨.into, rfl⟩
  · obtain ⟨k, hk⟩ := Option.isSome_iff_exists.mp (hkeys.resolve_right hsome)
    exact ⟨.out, by rw [hk]; rfl⟩

end Entries

section Counts

def activeOf (info : CircuitMuxinfo) : ℕ := if 0 < info.cellCount then 1 else 0

/-- The counters are those of the entries. -/
structure Mux.Counted (m : Mux α) : Prop where
  nCircuits : m.nCircuits = weight (fun _ => 1) m.chanidCircidMap
  nActiveCircuits : m.nActiveCircuits = weight activeOf m.chanidCircidMap
  nCells : m.nCells = weight (·.cellCount) m.chanidCircidMap
  bounded : weight (fun _ => 1) m.chanidCircidMap ≤ intMax

/-- What holds of a mux whatever the order of the heap. -/
structure Mux.Sound (m : Mux α) : Prop extends Counted m where
  policyData : ∀ k info, m.chanidCircidMap.lookup k = some info →
    info.policyData = m.policy.isSome
  queue : ∀ pol, m.policy = some pol →
    pol.Sound ∧ ∀ k, k ∈ pol.activeCircuitPqueue.list ↔ m.Active k

theorem activeOf_pos : 0 < activeOf info ↔ 0 < info.cellCount := by
  unfold activeOf
  split_ifs <;> omega

theorem weight_one (m : Mux α) :
    weight (fun _ => 1) m.chanidCircidMap = m.chanidCircidMap.entries.length := by
  simp [weight]

theorem weight_activeOf (m : Mux α) : weight activeOf m.chanidCircidMap =
    m.chanidCircidMap.entries.countP (0 < ·.2.cellCount) := by
  unfold weight
  induction m.chanidCircidMap.entries with
  | nil => rfl
  | cons e es ih =>
    rw [List.map_cons, List.sum_cons, List.countP_cons, ih, activeOf, Nat.add_comm]
    simp

theorem exists_active_iff : (∃ k, m.Active k) ↔ 0 < weight activeOf m.chanidCircidMap := by
  rw [weight_pos]
  apply exists_congr
  intro k
  apply exists_congr
  intro info
  rw [activeOf_pos]

theorem Mux.Counted.replace (h : m.Counted) (hk : m.chanidCircidMap.lookup k = some info)
    (hmap : m'.chanidCircidMap = m.chanidCircidMap.insert k info')
    (hcircuits : m'.nCircuits = m.nCircuits)
    (hactive : m'.nActiveCircuits = m.nActiveCircuits - activeOf info + activeOf info')
    (hcells : m'.nCells = m.nCells - info.cellCount + info'.cellCount) : m'.Counted := by
  have hone := weight_replace (fun _ : CircuitMuxinfo => 1) (b := info') hk
  have hact := weight_replace activeOf (b := info') hk
  have hcount := weight_replace (·.cellCount) (b := info') hk
  have hc := h.nCircuits
  have ha := h.nActiveCircuits
  have hn := h.nCells
  have hb := h.bounded
  constructor
  · rw [hmap]
    omega
  · rw [hmap]
    omega
  · rw [hmap]
    omega
  · rw [hmap]
    omega

theorem Mux.Counted.add (h : m.Counted) (hk : m.chanidCircidMap.lookup k = none)
    (hmap : m'.chanidCircidMap = m.chanidCircidMap.insert k info)
    (hcircuits : m'.nCircuits = m.nCircuits + 1)
    (hactive : m'.nActiveCircuits = m.nActiveCircuits + activeOf info)
    (hcells : m'.nCells = m.nCells + info.cellCount)
    (hroom : m.chanidCircidMap.entries.length < intMax) : m'.Counted := by
  have hweight : ∀ size : CircuitMuxinfo → ℕ,
      weight size m'.chanidCircidMap = size info + weight size m.chanidCircidMap := by
    intro size
    rw [hmap, weight_insert, weight_erase_of_none size hk]
  have hc := h.nCircuits
  have ha := h.nActiveCircuits
  have hn := h.nCells
  have hb := weight_one m
  constructor
  · rw [hweight]
    omega
  · rw [hweight]
    omega
  · rw [hweight]
    omega
  · rw [hweight]
    omega

theorem Mux.Counted.leave (h : m.Counted) (hk : m.chanidCircidMap.lookup k = some info)
    (hmap : m'.chanidCircidMap = m.chanidCircidMap.erase k)
    (hcircuits : m'.nCircuits = m.nCircuits - 1)
    (hactive : m'.nActiveCircuits = m.nActiveCircuits - activeOf info)
    (hcells : m'.nCells = m.nCells - info.cellCount) : m'.Counted := by
  have hone := weight_erase (fun _ : CircuitMuxinfo => 1) hk
  have hact := weight_erase activeOf hk
  have hcount := weight_erase (·.cellCount) hk
  have hc := h.nCircuits
  have ha := h.nActiveCircuits
  have hn := h.nCells
  have hb := h.bounded
  constructor
  · rw [hmap]
    omega
  · rw [hmap]
    omega
  · rw [hmap]
    omega
  · rw [hmap]
    omega

theorem active_insert (hmap : m'.chanidCircidMap = m.chanidCircidMap.insert k info) :
    m'.Active k' ↔ if k' = k then 0 < info.cellCount else m.Active k' := by
  unfold Mux.Active
  rw [hmap]
  split_ifs with hk
  · subst hk
    simp
  · rw [AList.lookup_insert_ne hk]

theorem active_erase (hmap : m'.chanidCircidMap = m.chanidCircidMap.erase k) :
    m'.Active k' ↔ k' ≠ k ∧ m.Active k' := by
  unfold Mux.Active
  rw [hmap]
  by_cases hk : k' = k
  · subst hk
    simp
  · rw [AList.lookup_erase_ne hk]
    simp [hk]

theorem active_iff (hk : m.chanidCircidMap.lookup k = some info) :
    m.Active k ↔ 0 < info.cellCount := by
  unfold Mux.Active
  rw [hk]
  simp

theorem Mux.Sound.policyData_of_some (h : m.Sound) (hpol : m.policy = some pol)
    (hk : m.chanidCircidMap.lookup k = some info) : info.policyData = true := by
  rw [h.policyData k info hk, hpol, Option.isSome_some]

theorem length_le_entries {queue : List ChanidCircid} (hnodup : queue.Nodup)
    (hsub : ∀ a ∈ queue, (m.chanidCircidMap.lookup a).isSome) :
    queue.length ≤ m.chanidCircidMap.entries.length := by
  have hkeys : queue ⊆ m.chanidCircidMap.keys := by
    intro a ha
    rw [← AList.mem_keys, ← AList.lookup_isSome]
    exact hsub a ha
  calc queue.length ≤ m.chanidCircidMap.keys.length := (hnodup.subperm hkeys).length_le
    _ = m.chanidCircidMap.entries.length := List.length_map _

theorem Mux.Counted.room {queue : List ChanidCircid} (h : m.Counted) (hnodup : queue.Nodup)
    (hsub : ∀ a ∈ queue, (m.chanidCircidMap.lookup a).isSome)
    (hk : m.chanidCircidMap.lookup k = some info) (hnot : k ∉ queue) : queue.length < intMax := by
  have hle := length_le_entries (m := m) (List.nodup_cons.mpr ⟨hnot, hnodup⟩) fun a ha => by
    rcases List.mem_cons.mp ha with rfl | ha
    · rw [hk]
      rfl
    · exact hsub a ha
  have hone := weight_one m
  have hbound := h.bounded
  rw [List.length_cons] at hle
  omega

theorem Mux.Active.isSome (h : m.Active k) : (m.chanidCircidMap.lookup k).isSome := by
  obtain ⟨info, hinfo, -⟩ := h
  rw [hinfo]
  rfl

theorem Mux.Sound.room (h : m.Sound) (hpol : m.policy = some pol)
    (hk : m.chanidCircidMap.lookup k = some info) (hnot : k ∉ pol.activeCircuitPqueue.list) :
    pol.activeCircuitPqueue.list.length < intMax := by
  obtain ⟨hsound, hmem⟩ := h.queue pol hpol
  exact h.toCounted.room hsound.indexed.nodup (fun a ha => ((hmem a).mp ha).isSome) hk hnot

theorem Mux.Sound.put (info : CircuitMuxinfo) (h : m.Sound) (hpol : m.policy = some pol)
    (hdata : info.policyData = true) (hpol' : m'.policy = some pol') (hsound : pol'.Sound)
    (hmem : ∀ a, a ∈ pol'.activeCircuitPqueue.list ↔
      if a = k then 0 < info.cellCount else a ∈ pol.activeCircuitPqueue.list)
    (hcounted : m'.Counted) (hmap : m'.chanidCircidMap = m.chanidCircidMap.insert k info) :
    m'.Sound := by
  refine { hcounted with policyData := ?_, queue := ?_ }
  · intro a infoA ha
    rw [hpol', Option.isSome_some]
    rw [hmap] at ha
    by_cases hak : a = k
    · subst hak
      rw [AList.lookup_insert, Option.some_inj] at ha
      rw [← ha, hdata]
    · rw [AList.lookup_insert_ne hak] at ha
      exact h.policyData_of_some hpol ha
  · intro pol₁ hpol₁
    cases hpol'.symm.trans hpol₁
    refine ⟨hsound, fun a => ?_⟩
    rw [hmem, active_insert hmap, (h.queue pol hpol).2]

/-- Only what the counters and the policy do not depend on has changed. -/
theorem Mux.Sound.frame (h : m.Sound) (hmap : m'.chanidCircidMap = m.chanidCircidMap)
    (hcircuits : m'.nCircuits = m.nCircuits) (hactive : m'.nActiveCircuits = m.nActiveCircuits)
    (hcells : m'.nCells = m.nCells) (hpol : m'.policy = m.policy) : m'.Sound := by
  cases m
  cases m'
  subst hmap hcircuits hactive hcells hpol
  exact ⟨⟨h.nCircuits, h.nActiveCircuits, h.nCells, h.bounded⟩, h.policyData, h.queue⟩

theorem circuitmuxGetFirstActiveCircuit_spec (h : m.Sound) (hpol : m.policy = some pol) :
    ∃ flag choice, circuitmuxGetFirstActiveCircuit m =
        some ({ m with lastCellWasDestroy := flag }, choice) ∧
      m.AnswerRight choice ∧ (choice = .destroyQueue → flag = true) := by
  obtain ⟨hsound, hmem⟩ := h.queue pol hpol
  have hactive : 0 < m.nActiveCircuits ↔ ∃ k, m.Active k := by
    rw [exists_active_iff, h.nActiveCircuits]
    exact Int.natCast_pos
  have hnone : m.nActiveCircuits = 0 ↔ ¬ ∃ k, m.Active k := by
    rw [← hactive, h.nActiveCircuits]
    omega
  have hcells : 0 < m.nCells ↔ ∃ k, m.Active k := by
    rw [h.nCells, Int.natCast_pos, weight_pos]
    rfl
  unfold circuitmuxGetFirstActiveCircuit
  rw [hpol, Option.bind_some]
  by_cases hturn : m.DestroyTurn
  · have hcond : m.destroyCellQueue ≠ [] ∧
        (m.lastCellWasDestroy = false ∨ m.nActiveCircuits = 0) := by rwa [hnone]
    rw [if_pos hcond]
    refine ⟨true, .destroyQueue, rfl, ⟨by simp [hturn], by simp, by simp [hturn]⟩, fun _ => rfl⟩
  · have hcond : ¬ (m.destroyCellQueue ≠ [] ∧
        (m.lastCellWasDestroy = false ∨ m.nActiveCircuits = 0)) := by rwa [hnone]
    rw [if_neg hcond]
    by_cases hsome : ∃ k, m.Active k
    · rw [if_pos (hactive.mpr hsome), if_pos (hcells.mpr hsome)]
      obtain ⟨k, hk⟩ := hsome
      obtain ⟨top, htop⟩ : ∃ top, ewmaPickActiveCircuit pol = some top := by
        rw [ewmaPickActiveCircuit, ← Option.isSome_iff_exists, List.isSome_head?]
        exact List.ne_nil_of_mem ((hmem k).mpr hk)
      have hat := (hmem top).mp (List.mem_of_getElem? (ewmaPickActiveCircuit_eq htop))
      refine ⟨false, .circuit top, by rw [htop], ⟨by simp [hturn], fun k' hk' => ?_, ?_⟩, by simp⟩
      · obtain rfl := Choice.circuit.inj hk'
        exact hat
      · exact iff_of_true ⟨top, rfl⟩ ⟨⟨k, hk⟩, hturn⟩
    · have hqueue : m.destroyCellQueue = [] := by
        by_contra hne
        exact hturn ⟨hne, .inr hsome⟩
      have hzero : m.nCells = 0 := by
        have hle : ¬ 0 < m.nCells := fun hpos => hsome (hcells.mp hpos)
        have hnonneg := h.nCells
        omega
      rw [if_neg (fun hpos => hsome (hactive.mp hpos)), if_pos ⟨hzero, hqueue⟩]
      refine ⟨m.lastCellWasDestroy, .nothing, by rw [← hpol], ⟨by simp [hturn], by simp, ?_⟩,
        by simp⟩
      exact iff_of_false (by simp) fun hboth => hsome hboth.1

end Counts

end AttachmentCounts

end TorDaemon.Circuitmux.Attachments

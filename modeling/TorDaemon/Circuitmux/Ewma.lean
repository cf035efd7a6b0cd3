import TorDaemon.Container.PqueueCalls

/-! The policy of a circuitmux that sends first from the circuits that were quiet lately
(`circuitmux_ewma.c`). -/
namespace TorDaemon.Circuitmux.Ewma
open Library.Heap Container.Pqueue

section Model

/-- A circuit on a channel. -/
structure ChanidCircid where
  chanId : UInt64
  circId : UInt32
  deriving DecidableEq

inductive CellDirection
  | into
  | out
  deriving DecidableEq

/-- What the policy computes with: numbers in an order that scaling keeps. -/
structure Doubles (α : Type) [LinearOrder α] where
  zero : α
  ofInt : ℤ → α
  add : α → α → α
  mul : α → α → α
  neg : α → α
  pow : α → α → α
  pow_nonneg : ∀ a b, zero ≤ a → zero ≤ pow a b
  mul_le_mul : ∀ a b c, zero ≤ c → a ≤ b → mul a c ≤ mul b c

/-- `cell_ewma_t`, without the position in the queue, which is a field of the queue. -/
structure CellEwma (α : Type) where
  lastAdjustedTick : UInt32
  cellCount : α
  isForPChan : Bool

/-- `ewma_policy_data_t`, with the `cell_ewma_t` of each circuit. -/
structure PolicyData (α : Type) where
  activeCircuitPqueue : Smartlist ChanidCircid
  activeCircuitPqueueLastRecalibrated : UInt32
  cellEwma : ChanidCircid → CellEwma α

variable {α : Type} [LinearOrder α]

/-- What a call reads of the clock and of the options: the tick when the data of a mux and of a
circuit is made, the tick and its fraction when a cell is sent, and the scale factor. -/
structure Clock (d : Doubles α) where
  cmuxTick : UInt32
  circTick : ChanidCircid → UInt32
  currentTick : UInt32
  fractionalTick : α
  ewmaScaleFactor : α
  nonneg : d.zero ≤ ewmaScaleFactor

def compareCellEwmaCounts (ewmas : ChanidCircid → CellEwma α) : Comparator ChanidCircid where
  compare a b :=
    if (ewmas a).cellCount < (ewmas b).cellCount then -1
    else if (ewmas b).cellCount < (ewmas a).cellCount then 1
    else 0
  swapped a b := by grind
  chained a b c := by grind

section
variable (d : Doubles α)

section
variable (clock : Clock d)

def ewmaAllocCmuxData : PolicyData α where
  activeCircuitPqueue := { list := [], idx := fun _ => -1 }
  activeCircuitPqueueLastRecalibrated := clock.cmuxTick
  cellEwma _ := ⟨clock.cmuxTick, d.zero, false⟩

def ewmaAllocCircData (k : ChanidCircid)
    (direction : CellDirection) (pol : PolicyData α) : PolicyData α :=
  { pol with
    activeCircuitPqueue := clearIdx pol.activeCircuitPqueue k
    cellEwma := Function.update pol.cellEwma k
      ⟨clock.circTick k, d.zero, direction = .into⟩ }

/-- The difference may wrap around. -/
def getScaleFactor (fromTick toTick : UInt32) : α :=
  d.pow clock.ewmaScaleFactor (d.ofInt (toTick - fromTick).toInt32.toInt)

def CellEwma.scaled (factor : α) (curTick : UInt32) (ewma : CellEwma α) : CellEwma α :=
  { ewma with cellCount := d.mul ewma.cellCount factor, lastAdjustedTick := curTick }

def scaleSingleCellEwma (curTick : UInt32) (ewma : CellEwma α) : CellEwma α :=
  ewma.scaled d (getScaleFactor d clock ewma.lastAdjustedTick curTick) curTick

end

end

/-- The loop of `scale_active_circuits`. -/
def scaleEach (d : Doubles α) (factor : α) (fromTick curTick : UInt32) :
    List ChanidCircid → (ChanidCircid → CellEwma α) → Option (ChanidCircid → CellEwma α)
  | [], ewmas => some ewmas
  | k :: ks, ewmas =>
    if (ewmas k).lastAdjustedTick = fromTick then
      scaleEach d factor fromTick curTick ks
        (Function.update ewmas k ((ewmas k).scaled d factor curTick))
    else none

section
variable (d : Doubles α)

section
variable (clock : Clock d)

def scaleActiveCircuits (curTick : UInt32) (pol : PolicyData α) : Option (PolicyData α) :=
  let fromTick := pol.activeCircuitPqueueLastRecalibrated
  let factor := getScaleFactor d clock fromTick curTick
  (scaleEach d factor fromTick curTick pol.activeCircuitPqueue.list pol.cellEwma).map fun ewmas =>
    { pol with cellEwma := ewmas, activeCircuitPqueueLastRecalibrated := curTick }

def addCellEwma (k : ChanidCircid) (pol : PolicyData α) : Option (PolicyData α) :=
  if pol.activeCircuitPqueue.idx k = -1 then
    let ewmas := Function.update pol.cellEwma k
      (scaleSingleCellEwma d clock pol.activeCircuitPqueueLastRecalibrated (pol.cellEwma k))
    (pqueueAdd (compareCellEwmaCounts ewmas) pol.activeCircuitPqueue k).map fun queue =>
      { pol with activeCircuitPqueue := queue, cellEwma := ewmas }
  else none

def removeCellEwma (k : ChanidCircid) (pol : PolicyData α) : Option (PolicyData α) :=
  if pol.activeCircuitPqueue.idx k = -1 then none
  else
    (pqueueRemove (compareCellEwmaCounts pol.cellEwma) pol.activeCircuitPqueue k).map fun queue =>
      { pol with activeCircuitPqueue := queue }

def popFirstCellEwma (pol : PolicyData α) : Option (ChanidCircid × PolicyData α) :=
  (pqueuePop (compareCellEwmaCounts pol.cellEwma) pol.activeCircuitPqueue).map fun r =>
    (r.1, { pol with activeCircuitPqueue := r.2 })

/-- The ewmas are rescaled if needed. -/
def recalibrate (pol : PolicyData α) : Option (PolicyData α) :=
  if clock.currentTick ≠ pol.activeCircuitPqueueLastRecalibrated then
    scaleActiveCircuits d clock clock.currentTick pol
  else some pol

/-- The count of the circuit grows while it is at the head of the queue, from where it is taken and
put in again. -/
def ewmaNotifyXmitCells (k : ChanidCircid) (nCells : ℕ)
    (pol : PolicyData α) : Option (PolicyData α) := do
  let pol ← recalibrate d clock pol
  let ewmaIncrement :=
    d.mul (d.ofInt nCells) (d.pow clock.ewmaScaleFactor (d.neg clock.fractionalTick))
  let ewma := pol.cellEwma k
  let ewmas := Function.update pol.cellEwma k
    { ewma with cellCount := d.add ewma.cellCount ewmaIncrement }
  let (tmp, pol) ← popFirstCellEwma { pol with cellEwma := ewmas }
  if tmp = k then addCellEwma d clock k pol else none

end

end

def ewmaPickActiveCircuit (pol : PolicyData α) : Option ChanidCircid :=
  pol.activeCircuitPqueue.list.head?

end Model

section Spec
variable {α : Type} [LinearOrder α] {d : Doubles α} {clock : Clock d} {k : ChanidCircid}
  {pol : PolicyData α} {ewmas ewmas' : ChanidCircid → CellEwma α} {queue : Smartlist ChanidCircid}

@[simp]
theorem compareCellEwmaCounts_le {a b : ChanidCircid} :
    (compareCellEwmaCounts ewmas).le a b ↔ (ewmas a).cellCount ≤ (ewmas b).cellCount := by
  unfold Comparator.le compareCellEwmaCounts
  grind

/-- The heap is in the order of the counts. -/
def PolicyData.HeapOrdered (pol : PolicyData α) : Prop :=
  Ordered (compareCellEwmaCounts pol.cellEwma).le (entries pol.activeCircuitPqueue)

/-- What holds of the queue whatever its order. -/
structure PolicyData.Sound (pol : PolicyData α) : Prop where
  indexed : Indexed pol.activeCircuitPqueue
  idle : ∀ k ∉ pol.activeCircuitPqueue.list, pol.activeCircuitPqueue.idx k = -1
  ticks : ∀ k ∈ pol.activeCircuitPqueue.list,
    (pol.cellEwma k).lastAdjustedTick = pol.activeCircuitPqueueLastRecalibrated
  bounded : pol.activeCircuitPqueue.list.length ≤ intMax

theorem ordered_of_counts
    (h : Ordered (compareCellEwmaCounts ewmas).le (entries queue))
    (hcounts : ∀ a ∈ queue.list, ∀ b ∈ queue.list, (ewmas a).cellCount ≤ (ewmas b).cellCount →
      (ewmas' a).cellCount ≤ (ewmas' b).cellCount) :
    Ordered (compareCellEwmaCounts ewmas').le (entries queue) := by
  intro i hi a b ha hb
  have hab := h i hi a b ha hb
  rw [compareCellEwmaCounts_le] at hab ⊢
  exact hcounts a (List.mem_of_getElem? ha) b (List.mem_of_getElem? hb) hab

theorem ordered_update (ewma : CellEwma α)
    (hk : k ∉ queue.list) (h : Ordered (compareCellEwmaCounts ewmas).le (entries queue)) :
    Ordered (compareCellEwmaCounts (Function.update ewmas k ewma)).le (entries queue) := by
  refine ordered_of_counts h fun a ha b hb hab => ?_
  have hak : a ≠ k := fun heq => hk (heq ▸ ha)
  have hbk : b ≠ k := fun heq => hk (heq ▸ hb)
  rwa [Function.update_of_ne hak, Function.update_of_ne hbk]

theorem ewmaAllocCmuxData_sound (d : Doubles α) (clock : Clock d) :
    (ewmaAllocCmuxData d clock).Sound ∧ (ewmaAllocCmuxData d clock).HeapOrdered := by
  refine ⟨⟨?_, fun _ _ => rfl, ?_, ?_⟩, ?_⟩
  · intro i a ha
    simp [ewmaAllocCmuxData] at ha
  · simp [ewmaAllocCmuxData]
  · simp [ewmaAllocCmuxData]
  · intro i _ a b ha
    simp [ewmaAllocCmuxData, entries] at ha

section
variable (clock : Clock d)

theorem ewmaAllocCircData_sound (direction : CellDirection) (h : pol.Sound)
    (hk : k ∉ pol.activeCircuitPqueue.list) : (ewmaAllocCircData d clock k direction pol).Sound ∧
      (pol.HeapOrdered → (ewmaAllocCircData d clock k direction pol).HeapOrdered) := by
  refine ⟨⟨fun i a ha => ?_, fun a ha => ?_, fun a ha => ?_, h.bounded⟩, fun hord => ?_⟩
  · have hne : a ≠ k := fun heq => hk (heq ▸ List.mem_of_getElem? ha)
    exact (clearIdx_idx_of_ne hne).trans (h.indexed i a ha)
  · by_cases hak : a = k
    · subst hak
      exact clearIdx_idx_self
    · exact (clearIdx_idx_of_ne hak).trans (h.idle a ha)
  · have hne : a ≠ k := fun heq => hk (heq ▸ ha)
    simpa only [ewmaAllocCircData, Function.update_of_ne hne] using h.ticks a ha
  · exact ordered_update _ hk hord

omit [LinearOrder α] in
/-- What keeps the ticks of those that stay is sound once `k` has left the queue. -/
theorem PolicyData.Sound.removed {pol' : PolicyData α} (h : pol.Sound)
    (hrem : Removed pol.activeCircuitPqueue pol'.activeCircuitPqueue k)
    (hticks : ∀ a ∈ pol'.activeCircuitPqueue.list,
      (pol'.cellEwma a).lastAdjustedTick = pol'.activeCircuitPqueueLastRecalibrated) :
    pol'.Sound := by
  have hlen := hrem.perm.length_eq
  have hbound := h.bounded
  rw [List.length_cons] at hlen
  refine ⟨hrem.indexed, fun a ha => ?_, hticks, by omega⟩
  by_cases hak : a = k
  · subst hak
    exact hrem.cleared
  · have hnot : a ∉ pol.activeCircuitPqueue.list := by
      rw [hrem.perm.mem_iff, List.mem_cons, not_or]
      exact ⟨hak, ha⟩
    exact (hrem.other a hnot).trans (h.idle a hnot)

theorem removeCellEwma_spec (h : pol.Sound) (hk : k ∈ pol.activeCircuitPqueue.list) :
    ∃ pol', removeCellEwma k pol = some pol' ∧ pol'.Sound ∧
      pol.activeCircuitPqueue.list.Perm (k :: pol'.activeCircuitPqueue.list) ∧
      (pol.HeapOrdered → (pol'.HeapOrdered ↔
        FillInOrder (compareCellEwmaCounts pol.cellEwma) pol.activeCircuitPqueue k)) := by
  obtain ⟨hpos, hitem⟩ := h.indexed.getElem?_idx hk
  have hrem := removed_afterRemove (c := compareCellEwmaCounts pol.cellEwma) h.indexed hitem
  have heq : removeCellEwma k pol = some { pol with
      activeCircuitPqueue := afterRemove (compareCellEwmaCounts pol.cellEwma)
        pol.activeCircuitPqueue k (pol.activeCircuitPqueue.idx k).toNat } := by
    rw [removeCellEwma, if_neg (by omega), pqueueRemove_eq h.indexed hitem, Option.map_some]
  exact ⟨_, heq, h.removed hrem fun a ha =>
    h.ticks a (hrem.perm.mem_iff.mpr (List.mem_cons_of_mem _ ha)), hrem.perm,
    afterRemove_ordered_iff h.indexed hitem h.bounded⟩

theorem addCellEwma_spec (h : pol.Sound) (hk : k ∉ pol.activeCircuitPqueue.list)
    (hlen : pol.activeCircuitPqueue.list.length < intMax) :
    ∃ pol', addCellEwma d clock k pol = some pol' ∧ pol'.Sound ∧
      pol'.activeCircuitPqueue.list.Perm (k :: pol.activeCircuitPqueue.list) ∧
      (pol.HeapOrdered → pol'.HeapOrdered ∧
        FillInOrder (compareCellEwmaCounts pol'.cellEwma) pol'.activeCircuitPqueue k) := by
  unfold addCellEwma
  rw [if_pos (h.idle k hk)]
  dsimp only
  obtain ⟨queue, hqueue⟩ : ∃ queue, pqueueAdd (compareCellEwmaCounts (Function.update pol.cellEwma k
      (scaleSingleCellEwma d clock pol.activeCircuitPqueueLastRecalibrated (pol.cellEwma k))))
      pol.activeCircuitPqueue k = some queue := ⟨_, if_neg (by omega)⟩
  obtain ⟨hperm, hidx, hother⟩ := pqueueAdd_rearranged hqueue hk h.indexed
  have hadded := hperm.length_eq
  rw [List.length_cons] at hadded
  rw [hqueue, Option.map_some]
  refine ⟨_, rfl, ⟨hidx, fun a ha => ?_, fun a ha => ?_, ?_⟩, hperm, fun hord => ?_⟩
  · have hnot : a ∉ k :: pol.activeCircuitPqueue.list := fun hmem => ha (hperm.mem_iff.mpr hmem)
    exact (hother a hnot).trans (h.idle a fun hmem => hnot (List.mem_cons_of_mem _ hmem))
  · dsimp only
    by_cases hak : a = k
    · subst hak
      rw [Function.update_self]
      rfl
    · rw [Function.update_of_ne hak]
      exact h.ticks a (List.mem_of_ne_of_mem hak (hperm.mem_iff.mp ha))
  · dsimp only
    omega
  · have hord' := ordered_update (scaleSingleCellEwma d clock
      pol.activeCircuitPqueueLastRecalibrated (pol.cellEwma k)) hk hord
    exact ⟨pqueueAdd_ordered hqueue hord', pqueueAdd_fillInOrder hqueue hk h.indexed hord'⟩

theorem scaleEach_spec (factor : α) (curTick : UInt32) {fromTick : UInt32} {ks : List ChanidCircid}
    (hnodup : ks.Nodup) (hticks : ∀ k ∈ ks, (ewmas k).lastAdjustedTick = fromTick) :
    ∃ ewmas', scaleEach d factor fromTick curTick ks ewmas = some ewmas' ∧
      (∀ k ∈ ks, ewmas' k = (ewmas k).scaled d factor curTick) ∧ ∀ k ∉ ks, ewmas' k = ewmas k := by
  induction ks generalizing ewmas with
  | nil => exact ⟨ewmas, rfl, by simp, fun _ _ => rfl⟩
  | cons k ks ih =>
    rw [List.nodup_cons] at hnodup
    have hne : ∀ a ∈ ks, a ≠ k := fun a ha heq => hnodup.1 (heq ▸ ha)
    obtain ⟨ewmas', hloop, hin, hout⟩ := @ih (Function.update ewmas k
      ((ewmas k).scaled d factor curTick)) hnodup.2 fun a ha => by
        rw [Function.update_of_ne (hne a ha)]
        exact hticks a (List.mem_cons_of_mem k ha)
    refine ⟨ewmas', ?_, fun a ha => ?_, fun a ha => ?_⟩
    · rw [scaleEach, if_pos (hticks k List.mem_cons_self), hloop]
    · rcases List.mem_cons.mp ha with rfl | ha
      · rw [hout a hnodup.1, Function.update_self]
      · rw [hin a ha, Function.update_of_ne (hne a ha)]
    · rw [List.mem_cons, not_or] at ha
      rw [hout a ha.2, Function.update_of_ne ha.1]

theorem scaleActiveCircuits_spec (curTick : UInt32) (h : pol.Sound) :
    ∃ pol', scaleActiveCircuits d clock curTick pol = some pol' ∧ pol'.Sound ∧
      pol'.activeCircuitPqueue = pol.activeCircuitPqueue ∧
      (pol.HeapOrdered → pol'.HeapOrdered) := by
  obtain ⟨ewmas', hloop, hin, -⟩ := scaleEach_spec (d := d)
    (getScaleFactor d clock pol.activeCircuitPqueueLastRecalibrated curTick) curTick
    h.indexed.nodup h.ticks
  have heq : scaleActiveCircuits d clock curTick pol = some { pol with
      cellEwma := ewmas', activeCircuitPqueueLastRecalibrated := curTick } := by
    rw [scaleActiveCircuits, hloop, Option.map_some]
  refine ⟨_, heq, ⟨h.indexed, h.idle, ?_, h.bounded⟩, rfl, ?_⟩
  · intro a ha
    dsimp only
    rw [hin a ha]
    rfl
  · intro hord
    refine ordered_of_counts hord fun a ha b hb hab => ?_
    dsimp only
    rw [hin a ha, hin b hb]
    exact d.mul_le_mul _ _ _ (d.pow_nonneg _ _ clock.nonneg) hab

end

omit [LinearOrder α] in
theorem ewmaPickActiveCircuit_eq (h : ewmaPickActiveCircuit pol = some k) :
    pol.activeCircuitPqueue.list[0]? = some k := by
  rwa [ewmaPickActiveCircuit, List.head?_eq_getElem?] at h

/-- The head of the queue is taken from it in order, whatever its own count has become. -/
theorem popFirstCellEwma_spec (ewma : CellEwma α) (h : pol.Sound)
    (hhead : ewmaPickActiveCircuit pol = some k) :
    ∃ pol', popFirstCellEwma { pol with cellEwma := Function.update pol.cellEwma k ewma } =
        some (k, pol') ∧ pol'.Sound ∧
      pol.activeCircuitPqueue.list.Perm (k :: pol'.activeCircuitPqueue.list) ∧
      (pol.HeapOrdered → pol'.HeapOrdered) := by
  have hitem := ewmaPickActiveCircuit_eq hhead
  have hcongr : afterRemove (compareCellEwmaCounts (Function.update pol.cellEwma k ewma))
      pol.activeCircuitPqueue k 0 =
      afterRemove (compareCellEwmaCounts pol.cellEwma) pol.activeCircuitPqueue k 0 := by
    apply afterRemove_congr h.indexed hitem
    intro a _ hak b _ hbk
    simp only [compareCellEwmaCounts, Function.update_of_ne hak, Function.update_of_ne hbk]
  have hrem := removed_afterRemove (c := compareCellEwmaCounts pol.cellEwma) h.indexed hitem
  have hnotMem := (hrem.perm.nodup_iff.mp h.indexed.nodup).notMem
  have heq : popFirstCellEwma { pol with cellEwma := Function.update pol.cellEwma k ewma } =
      some (k, { pol with
        cellEwma := Function.update pol.cellEwma k ewma
        activeCircuitPqueue :=
          afterRemove (compareCellEwmaCounts pol.cellEwma) pol.activeCircuitPqueue k 0 }) := by
    obtain ⟨rest, hlist⟩ : ∃ rest, pol.activeCircuitPqueue.list = k :: rest :=
      List.head?_eq_some_iff.mp hhead
    rw [popFirstCellEwma]
    rw [pqueuePop_eq hlist, Option.map_some, hcongr]
  refine ⟨_, heq, h.removed hrem fun a ha => ?_, hrem.perm, fun hord => ?_⟩
  · have hne : a ≠ k := fun heq => hnotMem (heq ▸ ha)
    simpa only [Function.update_of_ne hne] using
      h.ticks a (hrem.perm.mem_iff.mpr (List.mem_cons_of_mem _ ha))
  · apply ordered_update _ hnotMem
    have hroot : (pol.activeCircuitPqueue.idx k).toNat = 0 := by simp [h.indexed 0 k hitem]
    exact (afterRemove_ordered_iff h.indexed hitem h.bounded hord).mpr (.inl hroot)

/-- The head of the queue comes to stand where it may leave the queue again. -/
theorem ewmaNotifyXmitCells_spec (clock : Clock d) (nCells : ℕ) (h : pol.Sound)
    (hhead : ewmaPickActiveCircuit pol = some k) :
    ∃ pol', ewmaNotifyXmitCells d clock k nCells pol = some pol' ∧ pol'.Sound ∧
      pol'.activeCircuitPqueue.list.Perm pol.activeCircuitPqueue.list ∧
      (pol.HeapOrdered → pol'.HeapOrdered ∧
        FillInOrder (compareCellEwmaCounts pol'.cellEwma) pol'.activeCircuitPqueue k) := by
  obtain ⟨pol₁, hscale, hsound₁, hqueue₁, hord₁⟩ : ∃ pol₁, recalibrate d clock pol = some pol₁ ∧
      pol₁.Sound ∧ pol₁.activeCircuitPqueue = pol.activeCircuitPqueue ∧
      (pol.HeapOrdered → pol₁.HeapOrdered) := by
    unfold recalibrate
    split_ifs
    · exact scaleActiveCircuits_spec clock clock.currentTick h
    · exact ⟨pol, rfl, h, rfl, id⟩
  have hhead₁ : ewmaPickActiveCircuit pol₁ = some k := by
    rwa [ewmaPickActiveCircuit, hqueue₁]
  obtain ⟨pol₂, hpop, hsound₂, hperm₂, hord₂⟩ := popFirstCellEwma_spec
    { pol₁.cellEwma k with
      cellCount := d.add (pol₁.cellEwma k).cellCount
        (d.mul (d.ofInt nCells) (d.pow clock.ewmaScaleFactor (d.neg clock.fractionalTick))) }
    hsound₁ hhead₁
  have hnotMem := (hperm₂.nodup_iff.mp hsound₁.indexed.nodup).notMem
  have hlen := hperm₂.length_eq
  have hbound := hsound₁.bounded
  rw [List.length_cons] at hlen
  obtain ⟨pol₃, hadd, hsound₃, hperm₃, hord₃⟩ :=
    addCellEwma_spec clock hsound₂ hnotMem (by omega)
  refine ⟨pol₃, ?_, hsound₃, ?_, fun hord => hord₃ (hord₂ (hord₁ hord))⟩
  · unfold ewmaNotifyXmitCells
    rw [hscale, Option.bind_eq_bind, Option.bind_some]
    dsimp only
    rw [hpop, Option.bind_eq_bind, Option.bind_some]
    rw [if_pos rfl, hadd]
  · rw [← hqueue₁]
    exact hperm₃.trans hperm₂.symm

end Spec

end TorDaemon.Circuitmux.Ewma

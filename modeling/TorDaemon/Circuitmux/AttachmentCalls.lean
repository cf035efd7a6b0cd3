import TorDaemon.Circuitmux.Attachments

/-! What each call for a circuit does to a circuitmux and to the queue of its policy. -/
namespace TorDaemon.Circuitmux.Attachments
open Library.Heap Container.Pqueue Ewma Library.Tables Library.Sweep

variable {α : Type} {m m' : Mux α} {circ : Circuit} {k : ChanidCircid} {info : CircuitMuxinfo}
  {pol pol' : PolicyData α}

section Calls
variable [LinearOrder α] {d : Doubles α} {clock : Clock d} {nCells : ℕ}

/-- The heap of the policy is in order. -/
def Mux.HeapOrdered (m : Mux α) : Prop := ∀ pol, m.policy = some pol → pol.HeapOrdered

theorem heapOrdered_of_some (h : m.policy = some pol) : m.HeapOrdered ↔ pol.HeapOrdered := by
  unfold Mux.HeapOrdered
  rw [h]
  simp

/-- The policy is told that a circuit stops, if it does. -/
def leave (stops : Prop) [Decidable stops] (k : ChanidCircid) (pol : PolicyData α) :
    Option (PolicyData α) :=
  if stops then removeCellEwma k pol else some pol

theorem leave_spec (stops : Prop) [Decidable stops] (h : pol.Sound)
    (hk : stops → k ∈ pol.activeCircuitPqueue.list) :
    ∃ pol', leave stops k pol = some pol' ∧ pol'.Sound ∧
      (∀ a, a ∈ pol'.activeCircuitPqueue.list ↔
        a ∈ pol.activeCircuitPqueue.list ∧ (a = k → ¬ stops)) ∧
      (pol.HeapOrdered → (pol'.HeapOrdered ↔ (stops → LeavesInOrder pol k))) := by
  unfold leave
  split_ifs with hstop
  · obtain ⟨pol', hremove, hsound, hperm, hord⟩ := removeCellEwma_spec h (hk hstop)
    have hnotMem := (hperm.nodup_iff.mp h.indexed.nodup).notMem
    refine ⟨pol', hremove, hsound, fun a => ?_, fun hheap => ?_⟩
    · rw [hperm.mem_iff, List.mem_cons]
      by_cases ha : a = k
      · subst ha
        simp [hnotMem, hstop]
      · simp [ha]
    · rw [hord hheap]
      simp [hstop, LeavesInOrder]
  · refine ⟨pol, rfl, h, fun a => ?_, fun hheap => ?_⟩
    · simp [hstop]
    · simp [hstop, hheap]

/-- The policy is told when a circuit with so many cells has so many others now. -/
def retell (d : Doubles α) (clock : Clock d) (k : ChanidCircid) (before after : ℕ)
    (pol : PolicyData α) : Option (PolicyData α) :=
  if before = 0 ∧ 0 < after then addCellEwma d clock k pol
  else leave (0 < before ∧ after = 0) k pol

theorem retell_spec (clock : Clock d) (before after : ℕ) (h : pol.Sound)
    (hk : k ∈ pol.activeCircuitPqueue.list ↔ 0 < before)
    (hlen : k ∉ pol.activeCircuitPqueue.list → pol.activeCircuitPqueue.list.length < intMax) :
    ∃ pol', retell d clock k before after pol = some pol' ∧ pol'.Sound ∧
      (∀ a, a ∈ pol'.activeCircuitPqueue.list ↔
        if a = k then 0 < after else a ∈ pol.activeCircuitPqueue.list) ∧
      (pol.HeapOrdered → (pol'.HeapOrdered ↔ (0 < before ∧ after = 0 → LeavesInOrder pol k))) := by
  unfold retell
  by_cases hgo : before = 0 ∧ 0 < after
  · rw [if_pos hgo]
    have hnot : k ∉ pol.activeCircuitPqueue.list := by
      rw [hk, hgo.1]
      exact lt_irrefl 0
    obtain ⟨pol', hadd, hsound, hperm, hord⟩ := addCellEwma_spec clock h hnot (hlen hnot)
    refine ⟨pol', hadd, hsound, fun a => ?_, fun hheap => ?_⟩
    · rw [hperm.mem_iff, List.mem_cons]
      split_ifs with ha
      · simp [ha, hgo.2]
      · simp [ha]
    · simp [(hord hheap).1, hgo.1]
  · rw [if_neg hgo]
    obtain ⟨pol', hleave, hsound, hmem, hord⟩ :=
      leave_spec (0 < before ∧ after = 0) h fun hstop => hk.mpr hstop.1
    refine ⟨pol', hleave, hsound, fun a => ?_, hord⟩
    rw [hmem]
    split_ifs with ha
    · rw [ha, hk]
      simp only [true_imp_iff]
      omega
    · simp [ha]

theorem countChanges_eq (hpol : m.policy = some pol)
    (hfind : circuitmuxFindMapEntry m circ = some (some ⟨k, info⟩))
    (hdata : info.policyData = true) {before after : ℕ}
    (hretell : retell d clock k before after pol = some pol') :
    countChanges d clock circ before after m = some { m with
      policy := some pol'
      nActiveCircuits := m.nActiveCircuits - (if 0 < before then 1 else 0) +
        (if 0 < after then 1 else 0) } := by
  unfold retell leave at hretell
  unfold countChanges
  by_cases hgo : before = 0 ∧ 0 < after
  · rw [if_pos hgo] at hretell
    rw [if_neg (by omega), if_pos hgo]
    refine (notifyPolicy_eq (m := { m with nActiveCircuits := m.nActiveCircuits + 1 }) hpol hfind
      hdata hretell).trans ?_
    simp [hgo]
  · rw [if_neg hgo] at hretell ⊢
    by_cases hstop : 0 < before ∧ after = 0
    · rw [if_pos hstop] at hretell ⊢
      refine (notifyPolicy_eq (m := { m with nActiveCircuits := m.nActiveCircuits - 1 }) hpol hfind
        hdata hretell).trans ?_
      simp [hstop]
    · rw [if_neg hstop] at hretell ⊢
      cases hretell
      have hsame : 0 < before ↔ 0 < after := by omega
      simp [hsame, ← hpol]

theorem stopIf_eq {stops : Prop} [Decidable stops] (hpol : m.policy = some pol)
    (hfind : circuitmuxFindMapEntry m circ = some (some ⟨k, info⟩))
    (hdata : info.policyData = true) (hleave : leave stops k pol = some pol') :
    stopIf stops circ m = some { m with
      policy := some pol'
      nActiveCircuits := m.nActiveCircuits - (if stops then 1 else 0) } := by
  unfold leave at hleave
  unfold stopIf
  by_cases hstop : stops
  · rw [if_pos hstop] at hleave ⊢
    refine (notifyPolicy_eq (m := { m with nActiveCircuits := m.nActiveCircuits - 1 }) hpol hfind
      hdata hleave).trans ?_
    simp [hstop]
  · rw [if_neg hstop] at hleave ⊢
    cases hleave
    simp [hstop, ← hpol]

/-- The mux with another count for a circuit, and with what the policy makes of it. -/
def Mux.recounted (m : Mux α) (k : ChanidCircid) (info : CircuitMuxinfo) (nCells : ℕ)
    (pol : PolicyData α) : Mux α :=
  { m.setMuxinfo k { info with cellCount := nCells } with
    policy := some pol
    nCells := m.nCells - info.cellCount + nCells
    nActiveCircuits := m.nActiveCircuits - (if 0 < info.cellCount then 1 else 0) +
      (if 0 < nCells then 1 else 0) }

section
variable (clock : Clock d)

theorem recounted_spec (nCells : ℕ) (h : m.Sound) (hpol : m.policy = some pol)
    (hk : m.chanidCircidMap.lookup k = some info) :
    ∃ pol', retell d clock k info.cellCount nCells pol = some pol' ∧
      (m.recounted k info nCells pol').Sound ∧ (m.HeapOrdered →
        ((m.recounted k info nCells pol').HeapOrdered ↔
          (0 < info.cellCount ∧ nCells = 0 → LeavesInOrder pol k))) := by
  obtain ⟨hsound, hmem⟩ := h.queue pol hpol
  obtain ⟨pol', hretell, hsound', hmem', hord⟩ := retell_spec clock _ nCells hsound
    ((hmem k).trans (active_iff hk)) (h.room hpol hk)
  refine ⟨pol', hretell, ?_, fun hheap => ?_⟩
  · have hdata := h.policyData_of_some hpol hk
    refine h.put { info with cellCount := nCells } hpol hdata rfl hsound' hmem' ?_ rfl
    refine h.toCounted.replace hk rfl rfl ?_ rfl
    simp only [Mux.recounted, activeOf]
    split_ifs <;> rfl
  · rw [heapOrdered_of_some rfl]
    exact hord ((heapOrdered_of_some hpol).mp hheap)

theorem circuitmuxSetNumCells_spec (nCells : ℕ) (h : m.Sound) (hpol : m.policy = some pol)
    (hfind : circuitmuxFindMapEntry m circ = some (some ⟨k, info⟩)) :
    ∃ m', circuitmuxSetNumCells d clock circ nCells m = some m' ∧ m'.Sound ∧
      m'.lastCellWasDestroy = m.lastCellWasDestroy ∧
      (m.HeapOrdered →
        (m'.HeapOrdered ↔ (0 < info.cellCount ∧ nCells = 0 → LeavesInOrder pol k))) := by
  have hk := (findMapEntry_iff.mp hfind).1
  obtain ⟨pol', hretell, hsound, hord⟩ := recounted_spec clock nCells h hpol hk
  have hdata := h.policyData_of_some hpol hk
  have hfind' : circuitmuxFindMapEntry (m.setMuxinfo k { info with cellCount := nCells }) circ =
      some (some ⟨k, { info with cellCount := nCells }⟩) := findMapEntry_update hfind rfl rfl
  refine ⟨m.recounted k info nCells pol', ?_, hsound, rfl, hord⟩
  unfold circuitmuxSetNumCells
  rw [hfind, hpol]
  exact countChanges_eq (m := { m.setMuxinfo k { info with cellCount := nCells } with
    nCells := m.nCells - info.cellCount + nCells }) hpol hfind' hdata hretell

theorem circuitmuxNotifyXmitCells_spec (h : m.Sound) (hpol : m.policy = some pol)
    (hfind : circuitmuxFindMapEntry m circ = some (some ⟨k, info⟩)) (hpos : nCells ≠ 0)
    (hle : nCells ≤ info.cellCount) (hpick : ewmaPickActiveCircuit pol = some k) :
    ∃ m', circuitmuxNotifyXmitCells d clock circ nCells m = some m' ∧ m'.Sound ∧
      m'.lastCellWasDestroy = m.lastCellWasDestroy ∧
      (m.HeapOrdered → m'.HeapOrdered) := by
  have hk := (findMapEntry_iff.mp hfind).1
  obtain ⟨hsound, hmem⟩ := h.queue pol hpol
  obtain ⟨pol₁, hxmit, hsound₁, hperm₁, hord₁⟩ := ewmaNotifyXmitCells_spec clock nCells hsound hpick
  have hactive : k ∈ pol₁.activeCircuitPqueue.list := by
    rw [hperm₁.mem_iff, hmem, active_iff hk]
    omega
  obtain ⟨pol', hleave, hsound', hmem', hord⟩ :=
    leave_spec (info.cellCount - nCells = 0) hsound₁ fun _ => hactive
  have hdata := h.policyData_of_some hpol hk
  have hfind' : circuitmuxFindMapEntry
      (m.setMuxinfo k { info with cellCount := info.cellCount - nCells }) circ =
      some (some ⟨k, { info with cellCount := info.cellCount - nCells }⟩) :=
    findMapEntry_update hfind rfl rfl
  have heq : circuitmuxNotifyXmitCells d clock circ nCells m = some
      { m.setMuxinfo k { info with cellCount := info.cellCount - nCells } with
        policy := some pol'
        nCells := m.nCells - nCells
        nActiveCircuits :=
          m.nActiveCircuits - (if info.cellCount - nCells = 0 then 1 else 0) } := by
    unfold circuitmuxNotifyXmitCells
    rw [if_neg hpos, hfind]
    simp only [Option.bind_eq_bind, Option.bind_some, Mux.setMuxinfo, hpol, if_pos hdata, hxmit]
    rw [if_neg (by omega)]
    exact stopIf_eq (m := { m.setMuxinfo k { info with cellCount := info.cellCount - nCells } with
      nCells := m.nCells - nCells, policy := some pol₁ }) rfl hfind' hdata hleave
  refine ⟨_, heq, ?_, rfl, fun hheap => ?_⟩
  · refine h.put { info with cellCount := info.cellCount - nCells } hpol hdata rfl hsound'
      (fun a => ?_) ?_ rfl
    · rw [hmem', hperm₁.mem_iff]
      split_ifs with ha
      · rw [ha, ← hperm₁.mem_iff]
        simp only [hperm₁.mem_iff.mp hactive, hperm₁.mem_iff, true_and, true_imp_iff]
        omega
      · simp [ha]
    · refine h.toCounted.replace hk rfl rfl ?_ ?_
      · simp only [activeOf]
        split_ifs <;> omega
      · simp only
        omega
  · obtain ⟨hordered, hleaves⟩ := hord₁ ((heapOrdered_of_some hpol).mp hheap)
    rw [heapOrdered_of_some rfl, hord hordered]
    exact fun _ => hleaves

theorem circuitmuxAttachCircuit_again (h : m.Sound) (hpol : m.policy = some pol)
    (hfind : circuitmuxFindMapEntry m circ = some (some ⟨k, info⟩))
    (hat : circ.attachment info.direction = some (k, nCells)) (hid : k.circId ≠ 0) :
    ∃ m', circuitmuxAttachCircuit d clock circ info.direction m = some m' ∧ m'.Sound ∧
      m'.lastCellWasDestroy = m.lastCellWasDestroy ∧
      (m.HeapOrdered →
        (m'.HeapOrdered ↔ (0 < info.cellCount ∧ nCells = 0 → LeavesInOrder pol k))) := by
  have hk := (findMapEntry_iff.mp hfind).1
  obtain ⟨pol', hretell, hsound, hord⟩ := recounted_spec clock nCells h hpol hk
  refine ⟨m.recounted k info nCells pol', ?_, hsound, rfl, hord⟩
  unfold circuitmuxAttachCircuit
  simp only [hat, Option.bind_eq_bind, Option.bind_some, hk, if_neg hid, ne_eq, not_true_eq_false,
    if_false]
  rw [countChanges_eq hpol hfind (h.policyData_of_some hpol hk) hretell, Option.map_some]
  rfl

theorem circuitmuxAttachCircuit_new {direction : CellDirection} (h : m.Sound)
    (hpol : m.policy = some pol) (hfind : circuitmuxFindMapEntry m circ = some none)
    (hkeys : circ.nKey ≠ circ.pKey) (hroom : m.chanidCircidMap.entries.length < intMax)
    (hat : circ.attachment direction = some (k, nCells)) (hid : k.circId ≠ 0) :
    ∃ m', circuitmuxAttachCircuit d clock circ direction m = some m' ∧ m'.Sound ∧
      m'.lastCellWasDestroy = m.lastCellWasDestroy ∧ (m.HeapOrdered → m'.HeapOrdered) ∧
      m.chanidCircidMap.lookup k = none := by
  obtain ⟨hk, hfind'⟩ := findMapEntry_new hfind hkeys hat
  obtain ⟨hsound, hmem⟩ := h.queue pol hpol
  have hnot : k ∉ pol.activeCircuitPqueue.list := by
    intro hin
    have hsome := ((hmem k).mp hin).isSome
    rw [hk] at hsome
    exact Bool.false_ne_true hsome
  obtain ⟨hsound₀, hord₀⟩ := ewmaAllocCircData_sound clock direction hsound hnot
  have hlen : pol.activeCircuitPqueue.list.length ≤ m.chanidCircidMap.entries.length :=
    length_le_entries hsound.indexed.nodup fun a ha => ((hmem a).mp ha).isSome
  obtain ⟨pol', hretell, hsound', hmem', hord⟩ := retell_spec clock 0 nCells
    hsound₀ (iff_of_false hnot (lt_irrefl 0)) fun _ => hlen.trans_lt hroom
  have heq : circuitmuxAttachCircuit d clock circ direction m = some
      { m.setMuxinfo k ⟨nCells, direction, true⟩ with
        policy := some pol'
        nCircuits := m.nCircuits + 1
        nCells := m.nCells + nCells
        nActiveCircuits := m.nActiveCircuits + (if 0 < nCells then 1 else 0) } := by
    have hchanges := countChanges_eq (m := { m.setMuxinfo k ⟨nCells, direction, true⟩ with
      policy := some (ewmaAllocCircData d clock k direction pol)
      nCircuits := m.nCircuits + 1 }) rfl hfind' rfl hretell
    simp only [countChanges, lt_irrefl, false_and, if_false, true_and, sub_zero] at hchanges
    unfold circuitmuxAttachCircuit
    simp only [hat, Option.bind_eq_bind, Option.bind_some, hk, if_neg hid]
    unfold attachNew
    simp only [hpol, Option.bind_eq_bind, Option.bind_some]
    split_ifs at hchanges ⊢ with hpos
    · rw [hchanges, Option.map_some]
      rfl
    · have hzero : nCells = 0 := by omega
      subst hzero
      obtain rfl : ewmaAllocCircData d clock k direction pol = pol' := by
        simpa [retell, leave] using hretell
      simp [Mux.setMuxinfo]
  refine ⟨_, heq, ?_, rfl, fun hheap => ?_, hk⟩
  · refine h.put _ hpol rfl rfl hsound' hmem' ?_ rfl
    refine h.toCounted.add hk rfl rfl ?_ rfl hroom
    simp only [activeOf]
    split_ifs <;> rfl
  · rw [heapOrdered_of_some rfl]
    exact (hord (hord₀ ((heapOrdered_of_some hpol).mp hheap))).mpr fun hstop =>
      absurd hstop.1 (lt_irrefl 0)

end

theorem circuitmuxDetachCircuit_spec (h : m.Sound) (hpol : m.policy = some pol)
    (hfind : circuitmuxFindMapEntry m circ = some (some ⟨k, info⟩)) :
    ∃ m', circuitmuxDetachCircuit circ m = some m' ∧ m'.Sound ∧
      m'.lastCellWasDestroy = m.lastCellWasDestroy ∧
      (m.HeapOrdered → (m'.HeapOrdered ↔ (0 < info.cellCount → LeavesInOrder pol k))) := by
  have hk := (findMapEntry_iff.mp hfind).1
  obtain ⟨hsound, hmem⟩ := h.queue pol hpol
  obtain ⟨pol', hleave, hsound', hmem', hord⟩ := leave_spec (0 < info.cellCount) hsound
    fun hpos => (hmem k).mpr ((active_iff hk).mpr hpos)
  have hdata := h.policyData_of_some hpol hk
  have heq : circuitmuxDetachCircuit circ m = some
      { m with
        chanidCircidMap := m.chanidCircidMap.erase k
        policy := some pol'
        nCircuits := m.nCircuits - 1
        nCells := m.nCells - info.cellCount
        nActiveCircuits := m.nActiveCircuits - (if 0 < info.cellCount then 1 else 0) } := by
    unfold circuitmuxDetachCircuit
    rw [detachSearch_of_find hfind]
    simp only [Option.bind_eq_bind]
    rw [stopIf_eq (m := { m with nCircuits := m.nCircuits - 1 }) hpol hfind hdata hleave]
    simp
  refine ⟨_, heq, ⟨h.toCounted.leave hk rfl rfl ?_ rfl, fun a infoA ha => ?_, ?_⟩, rfl,
    fun hheap => ?_⟩
  · simp only [activeOf]
    split_ifs <;> rfl
  · by_cases hak : a = k
    · subst hak
      simp at ha
    · rw [AList.lookup_erase_ne hak] at ha
      exact h.policyData_of_some hpol ha
  · rintro pol₁ hpol₁
    cases hpol₁
    refine ⟨hsound', fun a => ?_⟩
    rw [hmem', active_erase (m := m) (k := k) rfl, hmem]
    by_cases hak : a = k
    · subst hak
      rw [active_iff hk]
      tauto
    · simp [hak]
  · rw [heapOrdered_of_some rfl]
    exact hord ((heapOrdered_of_some hpol).mp hheap)

end Calls

end TorDaemon.Circuitmux.Attachments

import Mathlib.Data.Rat.Floor
import TorDaemon.Circuitmux.AttachmentCalls

/-! Runs of calls on a circuitmux: the counters are right in all of them, and the queue of the
policy is a heap while no circuit leaves it out of order. -/
namespace TorDaemon.Circuitmux.Attachments
open Library.Heap Library.Reachability Container.Pqueue Ewma Library.Tables Library.Sweep

variable {α : Type} {m m' : Mux α} {circ : Circuit} {k k' : ChanidCircid} {info : CircuitMuxinfo}
  {pol pol' : PolicyData α} {hashent : Entry} {rest : List Entry}

section Loops

/-- The loop of `circuitmux_set_policy` before it has come to these entries. -/
structure Moving [LinearOrder α] (ewma : Bool) (rest : List Entry) (old : Option (PolicyData α))
    (m : Mux α) : Prop where
  counted : m.Counted
  policy : m.policy.isSome = ewma
  distinct : (rest.map Sigma.fst).Nodup
  here : ∀ hashent ∈ rest, m.chanidCircidMap.lookup hashent.1 = some hashent.2
  oldData : ∀ hashent ∈ rest, hashent.2.policyData = old.isSome
  newData : ∀ k info, m.chanidCircidMap.lookup k = some info → k ∉ rest.map Sigma.fst →
    info.policyData = ewma
  oldQueue : ∀ pol, old = some pol → pol.Sound ∧
    ∀ hashent ∈ rest, 0 < hashent.2.cellCount → hashent.1 ∈ pol.activeCircuitPqueue.list
  newQueue : ∀ pol, m.policy = some pol → pol.Sound ∧ pol.HeapOrdered ∧
    ∀ k, k ∈ pol.activeCircuitPqueue.list ↔ m.Active k ∧ k ∉ rest.map Sigma.fst

variable [LinearOrder α] {d : Doubles α} {ewma : Bool} {old : Option (PolicyData α)}
  {circuitOf : ChanidCircid → Option Circuit}

theorem leaveOldPolicy_spec (h : Moving ewma (hashent :: rest) old m) :
    ∃ old', leaveOldPolicy hashent old = some old' ∧ old'.isSome = old.isSome ∧
      ∀ pol, old' = some pol → pol.Sound ∧
        ∀ other ∈ rest, 0 < other.2.cellCount → other.1 ∈ pol.activeCircuitPqueue.list := by
  have hdata := h.oldData hashent List.mem_cons_self
  have hdistinct := (List.nodup_cons.mp h.distinct).1
  unfold leaveOldPolicy
  cases old with
  | none =>
    refine ⟨none, by simp [hdata], rfl, by simp⟩
  | some pol =>
    obtain ⟨hsound, hin⟩ := h.oldQueue pol rfl
    by_cases hpos : 0 < hashent.2.cellCount
    · obtain ⟨pol', hremove, hsound', hperm, -⟩ :=
        removeCellEwma_spec hsound (hin hashent List.mem_cons_self hpos)
      refine ⟨some pol', by simp [hpos, hdata, hremove], rfl, ?_⟩
      rintro _ ⟨⟩
      refine ⟨hsound', fun other hother hpos' => ?_⟩
      have hne : other.1 ≠ hashent.1 := fun heq =>
        hdistinct (heq ▸ List.mem_map_of_mem (f := Sigma.fst) hother)
      exact List.mem_of_ne_of_mem hne
        (hperm.mem_iff.mp (hin other (List.mem_cons_of_mem _ hother) hpos'))
    · refine ⟨some pol, by simp [hpos], rfl, ?_⟩
      rintro _ ⟨⟩
      exact ⟨hsound, fun other hother => hin other (List.mem_cons_of_mem _ hother)⟩

section
variable (clock : Clock d)

theorem joinNewPolicy_spec {old' : Option (PolicyData α)}
    (h : Moving ewma (hashent :: rest) old m) (hsome : old'.isSome = old.isSome)
    (hold : ∀ pol, old' = some pol → pol.Sound ∧
      ∀ other ∈ rest, 0 < other.2.cellCount → other.1 ∈ pol.activeCircuitPqueue.list) :
    ∃ m', joinNewPolicy d clock hashent m = some m' ∧ Moving ewma rest old' m' ∧
      m'.lastCellWasDestroy = m.lastCellWasDestroy := by
  obtain ⟨hnotin, hdistinct⟩ := List.nodup_cons.mp h.distinct
  have hk := h.here hashent List.mem_cons_self
  -- what the entry becomes changes no count
  have hmoved : ∀ (info : CircuitMuxinfo) (m' : Mux α), info.cellCount = hashent.2.cellCount →
      info.policyData = ewma → m'.chanidCircidMap = m.chanidCircidMap.insert hashent.1 info →
      m'.nCircuits = m.nCircuits → m'.nActiveCircuits = m.nActiveCircuits →
      m'.nCells = m.nCells → m'.policy.isSome = ewma →
      (∀ pol, m'.policy = some pol → pol.Sound ∧ pol.HeapOrdered ∧
        ∀ k, k ∈ pol.activeCircuitPqueue.list ↔ m'.Active k ∧ k ∉ rest.map Sigma.fst) →
      Moving ewma rest old' m' := by
    intro info m' hcount hdata hmap hcircuits hactive hcells hpolicy hqueue
    have hne : ∀ other ∈ rest, other.1 ≠ hashent.1 := fun other hother heq =>
      hnotin (heq ▸ List.mem_map_of_mem (f := Sigma.fst) hother)
    refine ⟨h.counted.replace hk hmap hcircuits ?_ ?_, hpolicy, hdistinct, fun other hother => ?_,
      fun other hother => ?_, fun k infoK hlook hout => ?_, hold, hqueue⟩
    · rw [hactive, activeOf, activeOf, hcount]
      omega
    · rw [hcells, hcount]
      omega
    · rw [hmap, AList.lookup_insert_ne (hne other hother)]
      exact h.here other (List.mem_cons_of_mem _ hother)
    · rw [hsome]
      exact h.oldData other (List.mem_cons_of_mem _ hother)
    · rw [hmap] at hlook
      by_cases hkh : k = hashent.1
      · subst hkh
        rw [AList.lookup_insert, Option.some_inj] at hlook
        rw [← hlook, hdata]
      · rw [AList.lookup_insert_ne hkh] at hlook
        apply h.newData k infoK hlook
        rw [List.map_cons, List.mem_cons, not_or]
        exact ⟨hkh, hout⟩
  unfold joinNewPolicy
  cases hpol : m.policy with
  | none =>
    have hewma : ewma = false := by rw [← h.policy, hpol, Option.isSome_none]
    refine ⟨_, rfl, hmoved { hashent.2 with policyData := false } _ rfl hewma.symm rfl rfl rfl rfl
      h.policy ?_, rfl⟩
    intro pol hpol'
    exact absurd (hpol.symm.trans hpol') (by simp)
  | some pol =>
    have hewma : ewma = true := by rw [← h.policy, hpol, Option.isSome_some]
    obtain ⟨hsound, hheap, hmem⟩ := h.newQueue pol hpol
    have hnot : hashent.1 ∉ pol.activeCircuitPqueue.list := by
      rw [hmem]
      simp
    obtain ⟨hsound₀, hord₀⟩ :=
      ewmaAllocCircData_sound clock hashent.2.direction hsound hnot
    obtain ⟨pol', hretell, hsound', hmem', hord⟩ := retell_spec clock 0
      hashent.2.cellCount hsound₀ (iff_of_false hnot (lt_irrefl 0)) fun _ =>
        h.counted.room hsound.indexed.nodup (fun a ha => ((hmem a).mp ha).1.isSome) hk hnot
    have heq : joinNewPolicy d clock hashent m = some
        { m.setMuxinfo hashent.1 { hashent.2 with policyData := true } with
          policy := some pol' } := by
      unfold joinNewPolicy
      rw [hpol]
      simp only [retell, leave, true_and, lt_irrefl, false_and, if_false] at hretell ⊢
      split_ifs at hretell ⊢
      · rw [hretell, Option.map_some]
      · rw [Option.some.inj hretell]
    unfold joinNewPolicy at heq
    rw [hpol] at heq
    refine ⟨_, heq, hmoved { hashent.2 with policyData := true } _ rfl hewma.symm rfl rfl rfl rfl
      hewma.symm ?_, rfl⟩
    rintro _ ⟨⟩
    refine ⟨hsound', (hord (hord₀ hheap)).mpr fun hstop => absurd hstop.1 (lt_irrefl 0),
      fun a => ?_⟩
    rw [hmem', active_insert rfl]
    split_ifs with ha
    · subst ha
      simp [hnotin]
    · refine (hmem a).trans ?_
      simp [ha]

theorem setPolicyEach_spec
    (hfound : ∀ hashent ∈ rest, (circuitOf hashent.1).isSome) (h : Moving ewma rest old m) :
    ∃ m', setPolicyEach d clock circuitOf rest old m = some m' ∧ m'.Sound ∧ m'.HeapOrdered ∧
      m'.lastCellWasDestroy = m.lastCellWasDestroy := by
  induction rest generalizing old m with
  | nil =>
    refine ⟨m, rfl, ⟨h.counted, fun k info hk => ?_, fun pol hpol => ?_⟩, fun pol hpol => ?_, rfl⟩
    · rw [h.policy]
      exact h.newData k info hk List.not_mem_nil
    · obtain ⟨hsound, -, hmem⟩ := h.newQueue pol hpol
      exact ⟨hsound, fun k => (hmem k).trans (and_iff_left List.not_mem_nil)⟩
    · exact (h.newQueue pol hpol).2.1
  | cons hashent rest ih =>
    obtain ⟨old', hleave, hsome, hold⟩ := leaveOldPolicy_spec h
    obtain ⟨m₁, hjoin, hmoving, hlast⟩ := joinNewPolicy_spec clock h hsome hold
    obtain ⟨m', hloop, hsound, hheap, hlast'⟩ :=
      ih (fun other hother => hfound other (List.mem_cons_of_mem _ hother)) hmoving
    refine ⟨m', ?_, hsound, hheap, hlast'.trans hlast⟩
    obtain ⟨circ, hcirc⟩ := Option.isSome_iff_exists.mp (hfound hashent List.mem_cons_self)
    rw [setPolicyEach, hcirc, hleave]
    simp only [Option.bind_eq_bind, Option.bind_some]
    rw [hjoin, Option.bind_some, hloop]

/-- `circuitmux_set_policy` keeps what holds of a mux, and the new queue is in order. -/
theorem circuitmuxSetPolicy_spec (ewma : Bool) (it : Iteration Entry) (h : m.Sound)
    (hfound : CircuitsFound m circuitOf) :
    ∃ m', circuitmuxSetPolicy d clock ewma circuitOf it m = some m' ∧ m'.Sound ∧
      m'.lastCellWasDestroy = m.lastCellWasDestroy ∧ (m.HeapOrdered → m'.HeapOrdered) := by
  unfold circuitmuxSetPolicy
  by_cases hsame : m.policy.isSome = ewma
  · rw [if_pos hsame]
    exact ⟨m, rfl, h, rfl, id⟩
  · rw [if_neg hsame]
    have hperm := it.perm m.chanidCircidMap.entries
    have hlook : ∀ hashent ∈ it.order m.chanidCircidMap.entries,
        m.chanidCircidMap.lookup hashent.1 = some hashent.2 := fun hashent hin =>
      AList.mem_lookup_iff.mpr (hperm.mem_iff.mp hin)
    have hall : ∀ k info, m.chanidCircidMap.lookup k = some info →
        k ∈ (it.order m.chanidCircidMap.entries).map Sigma.fst := fun k info hk =>
      List.mem_map_of_mem (f := Sigma.fst) (hperm.mem_iff.mpr (AList.mem_lookup_iff.mp hk))
    have hmoving : Moving ewma (it.order m.chanidCircidMap.entries) m.policy
        { m with policy := if ewma then some (ewmaAllocCmuxData d clock) else none } := by
      refine ⟨⟨h.nCircuits, h.nActiveCircuits, h.nCells, h.bounded⟩, ?_, ?_, hlook,
        fun hashent hin => h.policyData _ _ (hlook hashent hin),
        fun k info hk hout => absurd (hall k info hk) hout, fun pol hpol => ?_, fun pol hpol => ?_⟩
      · cases ewma <;> rfl
      · exact (hperm.map Sigma.fst).nodup_iff.mpr m.chanidCircidMap.nodupKeys
      · obtain ⟨hsound, hmem⟩ := h.queue pol hpol
        exact ⟨hsound, fun hashent hin hpos => (hmem _).mpr ⟨_, hlook hashent hin, hpos⟩⟩
      · rw [Option.ite_none_right_eq_some, Option.some_inj] at hpol
        obtain ⟨-, rfl⟩ := hpol
        obtain ⟨hsound, hheap⟩ := ewmaAllocCmuxData_sound d clock
        refine ⟨hsound, hheap, fun k => iff_of_false List.not_mem_nil ?_⟩
        rintro ⟨⟨info, hk, -⟩, hout⟩
        exact hout (hall k info hk)
    have hcircs : ∀ hashent ∈ it.order m.chanidCircidMap.entries, (circuitOf hashent.1).isSome := by
      intro hashent hin
      obtain ⟨circ, hcirc, -⟩ := hfound hashent (hperm.mem_iff.mp hin)
      exact Option.isSome_of_eq_some hcirc
    obtain ⟨m', hloop, hsound, hheap, hlast⟩ := setPolicyEach_spec clock hcircs hmoving
    exact ⟨m', hloop, hsound, hlast, fun _ => hheap⟩

end

/-- The loop of `circuitmux_detach_all_circuits` before it has come to these entries, which are all
that the map has left. -/
structure Leaving (circuitOf : ChanidCircid → Option Circuit) (rest : List Entry) (m : Mux α) :
    Prop where
  distinct : (rest.map Sigma.fst).Nodup
  all : ∀ k info, m.chanidCircidMap.lookup k = some info ↔ ⟨k, info⟩ ∈ rest
  found : ∀ hashent ∈ rest,
    ∃ circ, circuitOf hashent.1 = some circ ∧ circuitmuxFindMapEntry m circ = some (some hashent)
  policyData : ∀ hashent ∈ rest, hashent.2.policyData = m.policy.isSome
  policy : m.policy.isSome ∨ ∀ k, ¬ m.Active k
  queue : ∀ pol, m.policy = some pol →
    pol.Sound ∧ ∀ k, k ∈ pol.activeCircuitPqueue.list ↔ m.Active k

omit [LinearOrder α] in
theorem Leaving.erase
    (h : Leaving circuitOf (hashent :: rest) m)
    (hmap : m'.chanidCircidMap = m.chanidCircidMap.erase hashent.1)
    (hpolicy : m'.policy.isSome = m.policy.isSome) (hqueue : ∀ pol, m'.policy = some pol →
      pol.Sound ∧ ∀ k, k ∈ pol.activeCircuitPqueue.list ↔ k ≠ hashent.1 ∧ m.Active k) :
    Leaving circuitOf rest m' := by
  obtain ⟨hnotin, hdistinct⟩ := List.nodup_cons.mp h.distinct
  refine ⟨hdistinct, fun k info => ?_, fun other hother => ?_, fun other hother => ?_, ?_,
    fun pol hpol => ?_⟩
  · rw [hmap]
    by_cases hkh : k = hashent.1
    · subst hkh
      refine iff_of_false (by simp) fun hin => hnotin ?_
      exact List.mem_map.mpr ⟨_, hin, rfl⟩
    · rw [AList.lookup_erase_ne hkh, h.all, List.mem_cons]
      refine or_iff_right fun heq => hkh ?_
      rw [← heq]
  · obtain ⟨circ, hcirc, hfind⟩ := h.found other (List.mem_cons_of_mem _ hother)
    have hne : other.1 ≠ hashent.1 := fun heq =>
      hnotin (heq ▸ List.mem_map_of_mem (f := Sigma.fst) hother)
    exact ⟨circ, hcirc, findMapEntry_erase hfind hne hmap⟩
  · rw [hpolicy]
    exact h.policyData other (List.mem_cons_of_mem _ hother)
  · rw [hpolicy]
    refine h.policy.imp_right fun hidle k hk => ?_
    exact hidle k ((active_erase hmap).mp hk).2
  · obtain ⟨hsound, hmem⟩ := hqueue pol hpol
    exact ⟨hsound, fun k => (hmem k).trans (active_erase hmap).symm⟩

theorem detachEntry_spec
    (h : Leaving circuitOf (hashent :: rest) m) : ∃ m₁, detachEntry circuitOf hashent m = some m₁ ∧
      Leaving circuitOf rest
        { m₁ with chanidCircidMap := m₁.chanidCircidMap.erase hashent.1 } ∧
      m₁.lastCellWasDestroy = m.lastCellWasDestroy := by
  have hk := (h.all hashent.1 hashent.2).mpr List.mem_cons_self
  obtain ⟨circ, hcirc, hfind⟩ := h.found hashent List.mem_cons_self
  have hdata := h.policyData hashent List.mem_cons_self
  have hact : m.Active hashent.1 ↔ 0 < hashent.2.cellCount := active_iff hk
  have hor : hashent.2.direction = .out ∨ circ.orCircuit.isSome := by
    rcases (findMapEntry_iff.mp hfind).2 with ⟨-, hdir⟩ | ⟨-, hp, -⟩
    · exact .inl hdir
    · obtain ⟨orCirc, horCirc, -⟩ := Option.bind_eq_some_iff.mp hp
      exact .inr (by rw [horCirc]; rfl)
  unfold detachEntry
  simp only [hcirc, hor, true_and]
  cases hpol : m.policy with
  | none =>
    have hidle : ¬ 0 < hashent.2.cellCount := by
      rw [← hact]
      rcases h.policy with hsome | hidle
      · rw [hpol] at hsome
        exact absurd hsome (by simp)
      · exact hidle _
    rw [if_neg hidle, Option.bind_some]
    rw [hpol, Option.isSome_none] at hdata
    rw [hdata, if_neg (by simp)]
    refine ⟨m, rfl, h.erase rfl rfl fun pol hpol' => ?_, rfl⟩
    exact absurd (hpol.symm.trans hpol') (by simp)
  | some pol =>
    obtain ⟨hsound, hmem⟩ := h.queue pol hpol
    rw [hpol, Option.isSome_some] at hdata
    by_cases hpos : 0 < hashent.2.cellCount
    · obtain ⟨pol', hremove, hsound', hperm, -⟩ :=
        removeCellEwma_spec hsound ((hmem _).mpr (hact.mpr hpos))
      have hnotMem := (hperm.nodup_iff.mp hsound.indexed.nodup).notMem
      rw [if_pos hpos, circuitmuxMakeCircuitInactive, notifyPolicy_eq hpol hfind hdata hremove,
        Option.bind_some, if_neg (by simp)]
      refine ⟨_, rfl, h.erase rfl (by simp [hpol]) ?_, rfl⟩
      rintro _ ⟨⟩
      refine ⟨hsound', fun k => ?_⟩
      rw [← hmem, hperm.mem_iff, List.mem_cons]
      by_cases hkh : k = hashent.1
      · subst hkh
        simp [hnotMem]
      · simp [hkh]
    · rw [if_neg hpos, Option.bind_some, hpol, if_neg (by simp)]
      refine ⟨m, rfl, h.erase rfl rfl fun pol₁ hpol₁ => ?_, rfl⟩
      cases hpol.symm.trans hpol₁
      refine ⟨hsound, fun k => ?_⟩
      rw [hmem]
      refine (and_iff_right_of_imp ?_).symm
      rintro hk' rfl
      exact hpos (hact.mp hk')

theorem detachEach_spec
    (h : Leaving circuitOf rest m) :
    ∃ m', detachEach circuitOf rest m = some m' ∧ Leaving circuitOf [] m' ∧
      m'.lastCellWasDestroy = m.lastCellWasDestroy := by
  induction rest generalizing m with
  | nil => exact ⟨m, rfl, h, rfl⟩
  | cons hashent rest ih =>
    obtain ⟨m₁, hentry, hleaving, hlast⟩ := detachEntry_spec h
    obtain ⟨m', hloop, hend, hlast'⟩ := ih hleaving
    refine ⟨m', ?_, hend, hlast'.trans hlast⟩
    rw [detachEach, hentry]
    exact hloop

theorem circuitmuxDetachAllCircuits_spec
    (it : Iteration Entry) (h : m.Sound) (hfound : CircuitsFound m circuitOf)
    (hpolicy : m.policy.isSome ∨ ∀ k, ¬ m.Active k) :
    ∃ m', circuitmuxDetachAllCircuits circuitOf it m = some m' ∧ m'.Sound ∧
      m'.lastCellWasDestroy = m.lastCellWasDestroy ∧ m'.HeapOrdered := by
  have hperm := it.perm m.chanidCircidMap.entries
  have hleaving : Leaving circuitOf (it.order m.chanidCircidMap.entries) m := by
    refine ⟨(hperm.map Sigma.fst).nodup_iff.mpr m.chanidCircidMap.nodupKeys, fun k info => ?_,
      fun hashent hin => ?_, fun hashent hin => ?_, hpolicy, h.queue⟩
    · rw [hperm.mem_iff]
      exact AList.mem_lookup_iff
    · obtain ⟨circ, hcirc, hfind⟩ := hfound hashent (hperm.mem_iff.mp hin)
      exact ⟨circ, hcirc, attachedAs_eq_some.mp hfind⟩
    · exact h.policyData _ _ (AList.mem_lookup_iff.mpr (hperm.mem_iff.mp hin))
  obtain ⟨m₁, hloop, hend, hlast⟩ := detachEach_spec hleaving
  have hempty : m₁.chanidCircidMap.entries = [] := by
    rw [List.eq_nil_iff_forall_not_mem]
    rintro ⟨k, info⟩ hin
    exact List.not_mem_nil ((hend.all k info).mp (AList.mem_lookup_iff.mpr hin))
  have hidle : ∀ k, ¬ m₁.Active k := by
    rintro k ⟨info, hk, -⟩
    exact List.not_mem_nil ((hend.all k info).mp hk)
  have hweight : ∀ size : CircuitMuxinfo → ℕ, weight size m₁.chanidCircidMap = 0 := by
    intro size
    rw [weight, hempty]
    rfl
  have heq : circuitmuxDetachAllCircuits circuitOf it m =
      some { m₁ with nCircuits := 0, nActiveCircuits := 0, nCells := 0 } := by
    rw [circuitmuxDetachAllCircuits, hloop, Option.map_some]
  refine ⟨_, heq, ⟨⟨?_, ?_, ?_, ?_⟩, fun k info hk => ?_, hend.queue⟩, hlast, fun pol hpol => ?_⟩
  · exact (Int.natCast_eq_zero.mpr (hweight _)).symm
  · exact (Int.natCast_eq_zero.mpr (hweight _)).symm
  · exact (Int.natCast_eq_zero.mpr (hweight _)).symm
  · exact (hweight _).le.trans (Nat.zero_le _)
  · exact absurd ((hend.all k info).mp hk) List.not_mem_nil
  · intro i _ a b ha
    have hin := ((hend.queue pol hpol).2 a).mp (List.mem_of_getElem? ha)
    exact absurd hin (hidle a)

end Loops

section Runs
variable [LinearOrder α] {d : Doubles α} {t : Traced α} {clock : Clock d}

/-- What holds in every state that the callers can reach. -/
structure Traced.Sound (t : Traced α) : Prop where
  cmux : t.cmux.Sound
  asked : t.asked = some .destroyQueue → t.cmux.lastCellWasDestroy = true

omit [LinearOrder α] in
theorem start_sound : (start : Traced α).Sound where
  cmux := by
    refine ⟨⟨rfl, rfl, rfl, Nat.zero_le _⟩, fun k info hk => ?_, fun pol hpol => ?_⟩
    · simp [start, circuitmuxAlloc] at hk
    · simp [start, circuitmuxAlloc] at hpol
  asked h := by simp [start] at h

omit [LinearOrder α] in
theorem Traced.Sound.withCmux (h : t.Sound) (hm : m.Sound)
    (hlast : m.lastCellWasDestroy = t.cmux.lastCellWasDestroy) : (t.withCmux m).Sound where
  cmux := hm
  asked hasked := hlast.trans (h.asked hasked)

/-- The right answer, next to the heap, is all that is asked for. -/
theorem Traced.Sound.correct (h : t.Sound) (hord : t.cmux.HeapOrdered) : Correct t where
  nCircuits := h.cmux.nCircuits.trans (congrArg _ (weight_one t.cmux))
  nActiveCircuits := h.cmux.nActiveCircuits.trans (congrArg _ (weight_activeOf t.cmux))
  nCells := h.cmux.nCells
  queue pol hpol := by
    obtain ⟨hsound, hmem⟩ := h.cmux.queue pol hpol
    exact ⟨hmem, assertOk_iff.mpr ⟨hord pol hpol, hsound.indexed⟩⟩
  first hsome := by
    obtain ⟨pol, hpol⟩ := Option.isSome_iff_exists.mp hsome
    obtain ⟨flag, choice, hfirst, hright, -⟩ := circuitmuxGetFirstActiveCircuit_spec h.cmux hpol
    exact ⟨_, choice, hfirst, hright⟩
  notTwice hasked hactive hturn := by
    rcases hturn.2 with hlast | hidle
    · exact Bool.false_ne_true (hlast.symm.trans (h.asked hasked))
    · exact hidle hactive

/-- What a call does that does not fail, keeps the counters, and leaves the heap in order exactly in
the case that is named. -/
def Does (t : Traced α) (result : Option (Mux α)) (keeps : Prop) : Prop :=
  ∃ m', result = some m' ∧ m'.Sound ∧ m'.lastCellWasDestroy = t.cmux.lastCellWasDestroy ∧
    (t.cmux.HeapOrdered → (m'.HeapOrdered ↔ keeps))

theorem attach_does {direction : CellDirection} (h : t.Sound)
    (hw : WellFormed t (.attach circ direction clock)) :
    Does t (circuitmuxAttachCircuit d clock circ direction t.cmux)
      (KeepsOrder t (.attach circ direction clock)) := by
  obtain ⟨hsome, ⟨k, nCells⟩, hat, hid, hcase⟩ := hw
  obtain ⟨pol, hpol⟩ := Option.isSome_iff_exists.mp hsome
  rcases hcase with ⟨⟨k', info⟩, hfind, hkeq, hdir⟩ | ⟨hfind, hkeys, hroom⟩
  · obtain rfl : k' = k := hkeq
    obtain rfl : info.direction = direction := hdir
    have hfind := attachedAs_eq_some.mp hfind
    obtain ⟨m', heq, hsound, hlast, hord⟩ :=
      circuitmuxAttachCircuit_again clock h.cmux hpol hfind hat hid
    refine ⟨m', heq, hsound, hlast, fun hheap => (hord hheap).trans ?_⟩
    simp only [KeepsOrder, hpol, Option.mem_def.mp hat, (findMapEntry_iff.mp hfind).1,
      Option.mem_some_iff, forall_eq']
  · obtain ⟨m', heq, hsound, hlast, hord, hk⟩ :=
      circuitmuxAttachCircuit_new clock h.cmux hpol hfind hkeys hroom hat hid
    refine ⟨m', heq, hsound, hlast, fun hheap => iff_of_true (hord hheap) ?_⟩
    rintro _ _ attachment hat' info hinfo
    cases hat.symm.trans hat'
    exact absurd (hk.symm.trans hinfo) (by simp)

theorem detach_does (d : Doubles α) (h : t.Sound) (hw : WellFormed (d := d) t (.detach circ)) :
    Does t (circuitmuxDetachCircuit circ t.cmux) (KeepsOrder (d := d) t (.detach circ)) := by
  obtain ⟨hsome, hkeys, hfound⟩ := hw
  obtain ⟨pol, hpol⟩ := Option.isSome_iff_exists.mp hsome
  obtain ⟨found, hfind⟩ := Option.isSome_iff_exists.mp hfound
  cases found with
  | none =>
    obtain ⟨direction, hsearch⟩ := detachSearch_of_none hfind hkeys
    have hnone : attachedAs t.cmux circ = none := by rw [attachedAs, hfind, Option.join_some]
    refine ⟨t.cmux, by rw [circuitmuxDetachCircuit, hsearch], h.cmux, rfl,
      fun hheap => iff_of_true hheap ?_⟩
    simp [KeepsOrder, hnone]
  | some hashent =>
    obtain ⟨m', heq, hsound, hlast, hord⟩ := circuitmuxDetachCircuit_spec h.cmux hpol hfind
    refine ⟨m', heq, hsound, hlast, fun hheap => (hord hheap).trans ?_⟩
    simp only [KeepsOrder, hpol, attachedAs_eq_some.mpr hfind, Option.mem_some_iff, forall_eq']

section
variable (h : t.Sound)
include h

theorem setNumCells_does {nCells : ℕ} (hw : WellFormed t (.setNumCells circ nCells clock)) :
    Does t (circuitmuxSetNumCells d clock circ nCells t.cmux)
      (KeepsOrder t (.setNumCells circ nCells clock)) := by
  obtain ⟨hsome, hfound⟩ := hw
  obtain ⟨pol, hpol⟩ := Option.isSome_iff_exists.mp hsome
  obtain ⟨hashent, hat⟩ := Option.isSome_iff_exists.mp hfound
  obtain ⟨m', heq, hsound, hlast, hord⟩ :=
    circuitmuxSetNumCells_spec clock nCells h.cmux hpol (attachedAs_eq_some.mp hat)
  refine ⟨m', heq, hsound, hlast, fun hheap => (hord hheap).trans ?_⟩
  simp only [KeepsOrder, hpol, hat, Option.mem_some_iff, forall_eq']

theorem notifyXmitCells_does {nCells : ℕ} (hw : WellFormed t (.notifyXmitCells circ nCells clock)) :
    Does t (circuitmuxNotifyXmitCells d clock circ nCells t.cmux)
      (KeepsOrder t (.notifyXmitCells circ nCells clock)) := by
  by_cases hzero : nCells = 0
  · exact ⟨t.cmux, by rw [circuitmuxNotifyXmitCells, if_pos hzero], h.cmux, rfl,
      fun hheap => iff_of_true hheap trivial⟩
  · obtain ⟨pol, hpol, hashent, hat, hle, hpick⟩ := hw hzero
    obtain ⟨m', heq, hsound, hlast, hord⟩ := circuitmuxNotifyXmitCells_spec clock h.cmux hpol
      (attachedAs_eq_some.mp hat) hzero hle hpick
    exact ⟨m', heq, hsound, hlast, fun hheap => iff_of_true (hord hheap) trivial⟩

theorem Does.step {result : Option (Mux α)} {keeps : Prop}
    (hdoes : Does t result keeps) : ∃ t', result.map t.withCmux = some t' ∧ t'.Sound ∧
      (t.cmux.HeapOrdered → (t'.cmux.HeapOrdered ↔ keeps)) := by
  obtain ⟨m', rfl, hsound, hlast, hord⟩ := hdoes
  exact ⟨t.withCmux m', rfl, h.withCmux hsound hlast, hord⟩

/-- A call that its caller may make fails no assertion, and the heap order that it leaves depends on
the place that a circuit leaves alone. -/
theorem step_sound {call : Call d} (hw : WellFormed t call) :
    ∃ t', step d t call = some t' ∧ t'.Sound ∧
      (t.cmux.HeapOrdered → (t'.cmux.HeapOrdered ↔ KeepsOrder t call)) := by
  cases call with
  | attach circ direction clock => exact (attach_does h hw).step h
  | detach circ => exact (detach_does d h hw).step h
  | setNumCells circ nCells clock => exact (setNumCells_does h hw).step h
  | notifyXmitCells circ nCells clock => exact (notifyXmitCells_does h hw).step h
  | setPolicy ewma circuitOf it clock =>
    obtain ⟨m', heq, hsound, hlast, hord⟩ := circuitmuxSetPolicy_spec clock ewma it h.cmux hw
    exact Does.step h ⟨m', heq, hsound, hlast, fun hheap => iff_of_true (hord hheap) trivial⟩
  | detachAll circuitOf it =>
    have hidle : t.cmux.policy.isSome ∨ ∀ k, ¬ t.cmux.Active k := by
      refine hw.2.imp_right fun hall k => ?_
      rintro ⟨info, hk, hpos⟩
      exact hpos.ne' (hall _ (AList.mem_lookup_iff.mp hk))
    obtain ⟨m', heq, hsound, hlast, hheap⟩ :=
      circuitmuxDetachAllCircuits_spec it h.cmux hw.1 hidle
    exact Does.step h ⟨m', heq, hsound, hlast, fun _ => iff_of_true hheap trivial⟩
  | getFirst =>
    obtain ⟨pol, hpol⟩ := Option.isSome_iff_exists.mp hw
    obtain ⟨flag, choice, hfirst, hright, hflag⟩ :=
      circuitmuxGetFirstActiveCircuit_spec h.cmux hpol
    have heq : step d t .getFirst =
        some ⟨{ t.cmux with lastCellWasDestroy := flag }, some choice⟩ := by
      rw [step, hfirst, Option.map_some]
    exact ⟨_, heq, ⟨h.cmux.frame rfl rfl rfl rfl rfl, fun hasked => hflag (Option.some.inj hasked)⟩,
      fun hheap => iff_of_true hheap trivial⟩
  | appendDestroy cell =>
    exact ⟨_, rfl, h.withCmux (h.cmux.frame rfl rfl rfl rfl rfl) rfl,
      fun hheap => iff_of_true hheap trivial⟩
  | popDestroy =>
    exact ⟨_, rfl, h.withCmux (h.cmux.frame rfl rfl rfl rfl rfl) rfl,
      fun hheap => iff_of_true hheap trivial⟩
  | notifyXmitDestroy =>
    exact ⟨_, rfl, h.withCmux (h.cmux.frame rfl rfl rfl rfl rfl) rfl,
      fun hheap => iff_of_true hheap trivial⟩

end

theorem reached_sound (h : Reached (step d) WellFormed start t) : t.Sound := by
  refine h.invariant start_sound fun s call s' hs hw hstep => ?_
  obtain ⟨t', ht', hsound, -⟩ := step_sound hs hw
  rw [hstep, Option.some.injEq] at ht'
  exact ht' ▸ hsound

end Runs

section Examples

def sameOrder : Iteration Entry := ⟨id, fun l => .refl l⟩

end Examples

end TorDaemon.Circuitmux.Attachments

import TorDaemon.Padding.NegotiationClient

/-! The relay's steps keep the invariant of a negotiation. -/
namespace TorDaemon.Padding
open Library.Reachability Library.Leases

variable {originMachines relayMachines : List MachineSpec} {s : System} {i j : Slot} {t : Tag}

section Tags

theorem client_tag (ht : s.client.circ.tagAt i = some t) : t ∈ s.tags :=
  mem_tags.mpr (Or.inr (Or.inr (Or.inl ⟨i, ht⟩)))

variable (h : Inv originMachines relayMachines s)
include h

theorem Inv.relay_tag (ht : s.relay.circ.tagAt i = some t) :
    t ∈ s.tags ∧ slotOf relayMachines t.machineType = some i := by
  refine ⟨mem_tags.mpr (Or.inr (Or.inr (Or.inr ⟨i, ht⟩))), ?_⟩
  obtain ⟨machine, info, hmachine, _, rfl⟩ := tagAt_eq_some.mp ht
  exact h.relay_machine i machine hmachine

theorem Inv.relay_free (ht : t ∈ s.tags) :
    (freeCircMachineinfosWithMachineNum t.machineType t.machineCtr s.relay.circ).2.tagAt i =
      if s.relay.circ.tagAt i = some t then none else s.relay.circ.tagAt i := by
  apply tagAt_free (h.labels.nonzero t ht)
  exact fun j t' ht' hctr => h.labels.same_ctr t' (h.relay_tag ht').1 t ht hctr

theorem Inv.client_free (ht : t ∈ s.tags) :
    (freeCircMachineinfosWithMachineNum t.machineType t.machineCtr s.client.circ).2.tagAt i =
      if s.client.circ.tagAt i = some t then none else s.client.circ.tagAt i := by
  apply tagAt_free (h.labels.nonzero t ht)
  exact fun j t' ht' hctr => h.labels.same_ctr t' (client_tag ht') t ht hctr

theorem Inv.relay_found (ht : t ∈ s.tags) :
    (freeCircMachineinfosWithMachineNum t.machineType t.machineCtr s.relay.circ).1 = true ↔
      ∃ j, s.relay.circ.tagAt j = some t := by
  simp only [freeCircMachineinfosWithMachineNum, List.any_eq_true]
  constructor
  · rintro ⟨j, _, hmatch⟩
    refine ⟨j, ?_⟩
    cases hinfo : s.relay.circ.paddingInfo j with
    | none =>
      have hmachine := (h.relay_info j).mp hinfo
      simp [matchesMachine, hmachine] at hmatch
    | some info =>
      cases hmachine : s.relay.circ.paddingMachine j with
      | none => simp [(h.relay_info j).mpr hmachine] at hinfo
      | some machine =>
        have htag := tagAt_eq_some.mpr ⟨machine, info, hmachine, hinfo, rfl⟩
        have hctr := tagAt_of_matchesMachine hmatch (h.labels.nonzero t ht) htag
        rw [htag, h.labels.same_ctr _ (h.relay_tag htag).1 t ht hctr]
  · rintro ⟨j, hj⟩
    exact ⟨j, mem_allSlots j, matchesMachine_of_tagAt hj⟩

end Tags

/-! ### The relay's own cells -/

theorem relayProceed_inv {cell : Negotiated} {sending : List Negotiated}
    (h : Inv originMachines relayMachines s) (hsending : s.relay.sending = cell :: sending) :
    Inv originMachines relayMachines
      { s with relay := { s.relay with sending := sending }, backward := s.backward ++ [cell] } := by
  refine h.of_same rfl (fun cell' => ?_) rfl rfl rfl rfl h.adding
  simp only [System.answers, hsending, List.mem_append, List.mem_cons, List.not_mem_nil, or_false]
  tauto

/-- The relay frees its machine in a slot and tells the client of it. -/
def withdrawn (i : Slot) (t : Tag) (relay : Relay) : Relay :=
  ⟨clearMachine i (machineinfoFreeIdx i relay.circ), ⟨.stop, true, t⟩ :: relay.sending⟩

theorem withdrawn_tagAt (relay : Relay) :
    (withdrawn i t relay).circ.tagAt = Function.update relay.circ.tagAt i none := by
  rw [withdrawn, tagAt_clearMachine, tagAt_machineinfoFreeIdx, Function.update_idem]

theorem withdrawn_lease (h : Inv originMachines relayMachines s)
    (ht : s.relay.circ.tagAt i = some t) (j : Slot) :
    Coherent (slotLease relayMachines j { s with relay := withdrawn i t s.relay }) := by
  have hslot := (h.relay_tag ht).2
  by_cases hj : j = i
  · subst hj
    have hthere : (slotLease relayMachines j s).there = some t.serial := by
      simp [slotLease, ht]
    refine ((h.lease j).ended hthere).same rfl ?_ rfl ?_
    · simp [slotLease, withdrawn_tagAt]
    · simp [slotLease, System.answers, withdrawn, stopNotice, hslot]
  · refine (h.lease j).same rfl ?_ rfl ?_
    · simp [slotLease, withdrawn_tagAt, hj]
    · have hne : i ≠ j := fun hij => hj hij.symm
      simp [slotLease, System.answers, withdrawn, stopNotice, hslot, hne]

theorem refused_cons {relay : Relay} {cell : Negotiated} (hcell : isRefusal cell = false)
    (hsending : relay.sending = cell :: s.relay.sending) :
    Refused { s with relay := relay } t ↔ Refused s t := by
  simp only [Refused, System.answers, hsending]
  refine or_congr_right ⟨?_, ?_⟩
  · rintro ⟨cell', hcell', href, ht⟩
    rw [List.cons_append, List.mem_cons] at hcell'
    rcases hcell' with rfl | hcell'
    · simp [hcell] at href
    · exact ⟨cell', hcell', href, ht⟩
  · rintro ⟨cell', hcell', href, ht⟩
    exact ⟨cell', List.mem_cons_of_mem _ hcell', href, ht⟩

theorem withdrawn_inv (h : Inv originMachines relayMachines s)
    (ht : s.relay.circ.tagAt i = some t) :
    Inv originMachines relayMachines { s with relay := withdrawn i t s.relay } := by
  obtain ⟨hmem, hslot⟩ := h.relay_tag ht
  have hrefused : ∀ t', Refused { s with relay := withdrawn i t s.relay } t' ↔ Refused s t' :=
    fun _ => refused_cons rfl rfl
  constructor
  · exact withdrawn_lease h ht
  · refine h.labels.subset (fun t' ht' => ?_) (Nat.le_refl _)
    rcases mem_tags.mp ht' with hout | ⟨cell, hcell, rfl⟩ | hclient | ⟨j, hj⟩
    · exact mem_tags.mpr (Or.inl hout)
    · rcases List.mem_cons.mp hcell with rfl | hcell
      · exact hmem
      · exact mem_tags.mpr (Or.inr (Or.inl ⟨cell, hcell, rfl⟩))
    · exact mem_tags.mpr (Or.inr (Or.inr (Or.inl hclient)))
    · rw [withdrawn_tagAt] at hj
      by_cases hji : j = i
      · simp [hji] at hj
      · exact (h.relay_tag (by simpa [hji] using hj)).1
  · exact h.client_machine
  · intro j
    by_cases hji : j = i
    · simp [withdrawn, clearMachine, machineinfoFreeIdx, hji]
    · simpa [withdrawn, clearMachine, machineinfoFreeIdx, hji] using h.relay_info j
  · intro j machine hmachine
    by_cases hji : j = i
    · simp [withdrawn, clearMachine, hji] at hmachine
    · refine h.relay_machine j machine ?_
      simpa [withdrawn, clearMachine, machineinfoFreeIdx, hji] using hmachine
  · have hfinal : System.finalCtr { s with relay := withdrawn i t s.relay } = s.finalCtr := by
      simp [System.finalCtr, System.answers, withdrawn, isRefusal]
    exact h.counts
  · intro cell hcell
    rcases List.mem_cons.mp hcell with rfl | hcell
    · simp [isRefusal, hslot]
    · exact h.answered cell hcell
  · intro j t' ht' hunknown
    rw [hrefused]
    exact h.unknown j t' ht' hunknown
  · intro t' hunknown ht'
    exact h.waiting t' hunknown ((hrefused t').mp ht')
  · exact h.adding

theorem relayMachineEnds_inv {relay : Relay} (h : Inv originMachines relayMachines s)
    (hends : relayMachineEnds i s.relay = some relay) :
    Inv originMachines relayMachines { s with relay := relay } := by
  simp only [relayMachineEnds] at hends
  split at hends
  · rename_i info machine hinfo hmachine
    split at hends
    · cases hends
      exact withdrawn_inv h (tagAt_eq_some.mpr ⟨machine, info, hmachine, hinfo, rfl⟩)
    · cases hends
      exact h
  · cases hends

/-! ### The relay takes a cell -/

section Receive
variable {cell : Negotiate} {forward : List Negotiate} {relay : Relay}
  (h : Inv originMachines relayMachines s) (hforward : s.forward = cell :: forward)
include h hforward

omit h in
theorem outgoing_received : s.outgoing = cell :: (forward ++ s.client.sending) := by
  simp [System.outgoing, hforward]

omit h in
theorem received_queue (relayMachines : List MachineSpec) (j : Slot) (relay : Relay) :
    (slotLease relayMachines j s).queue = (openMessage relayMachines j cell).toList ++
      (slotLease relayMachines j { s with relay := relay, forward := forward }).queue := by
  rw [slotLease, outgoing_received hforward]
  cases hm : openMessage relayMachines j cell <;>
    simp [slotLease, System.outgoing, hm]

omit h in
theorem received_tag : cell.tag ∈ s.tags := by
  refine mem_tags.mpr (Or.inl ⟨cell, ?_, rfl⟩)
  simp [System.outgoing, hforward]

variable {new : List Negotiated}

omit h in
theorem received_tags (hanswers : System.answers { s with relay := relay, forward := forward } =
      new ++ s.answers) (hnew : ∀ answer ∈ new, answer.tag = cell.tag)
    (hcirc : ∀ j t, relay.circ.tagAt j = some t → t ∈ s.tags) :
    ∀ t ∈ System.tags { s with relay := relay, forward := forward }, t ∈ s.tags := by
  intro t ht
  rcases mem_tags.mp ht with ⟨cell', hcell', rfl⟩ | ⟨answer, hanswer, rfl⟩ | hclient | ⟨j, hj⟩
  · refine mem_tags.mpr (Or.inl ⟨cell', ?_, rfl⟩)
    rw [outgoing_received hforward]
    exact List.mem_cons_of_mem _ hcell'
  · rw [hanswers] at hanswer
    cases List.mem_append.mp hanswer with
    | inl hmem =>
      rw [hnew answer hmem]
      exact received_tag hforward
    | inr hold => exact mem_tags.mpr (Or.inr (Or.inl ⟨answer, hold, rfl⟩))
  · exact mem_tags.mpr (Or.inr (Or.inr (Or.inl hclient)))
  · exact hcirc j t hj

omit h in
theorem received_refused
    (hanswers : System.answers { s with relay := relay, forward := forward } = new ++ s.answers)
    (hnew : ∀ answer ∈ new, isRefusal answer = false) {t : Tag}
    (hcell : isStart cell = true → cell.tag ≠ t) :
    Refused { s with relay := relay, forward := forward } t ↔ Refused s t := by
  simp only [Refused, hanswers, System.outgoing, hforward, List.cons_append, List.mem_append,
    List.mem_cons]
  refine or_congr ⟨?_, ?_⟩ ⟨?_, ?_⟩
  · rintro ⟨cell', hcell', hs⟩
    exact ⟨cell', Or.inr hcell', hs⟩
  · rintro ⟨cell', rfl | hcell', hs, ht⟩
    · exact absurd ht (hcell hs)
    · exact ⟨cell', hcell', hs, ht⟩
  · rintro ⟨answer, hanswer | hanswer, href, ht⟩
    · rw [hnew answer hanswer] at href
      cases href
    · exact ⟨answer, hanswer, href, ht⟩
  · rintro ⟨answer, hanswer, href, ht⟩
    exact ⟨answer, Or.inr hanswer, href, ht⟩

/-- The relay has taken a cell. -/
@[simp] abbrev System.received (s : System) (relayMachines : List MachineSpec) (cell : Negotiate)
    (forward : List Negotiate) : System :=
  { s with relay := handlePaddingNegotiate relayMachines cell s.relay, forward := forward }

section Stop

/-- The answer to a STOP. -/
def stopAnswer (cell : Negotiate) (relay : Relay) : List Negotiated :=
  if (freeCircMachineinfosWithMachineNum cell.tag.machineType cell.tag.machineCtr relay.circ).1 then
    [⟨.stop, true, cell.tag⟩]
  else []

omit h hforward in
theorem handlePaddingNegotiate_stop (hstop : cell.command = .stop) :
    handlePaddingNegotiate relayMachines cell relay =
      ⟨(freeCircMachineinfosWithMachineNum cell.tag.machineType cell.tag.machineCtr relay.circ).2,
        stopAnswer cell relay ++ relay.sending⟩ := by
  simp only [handlePaddingNegotiate, hstop, stopAnswer]
  split <;> rfl

theorem mem_stopAnswer {answer : Negotiated} (hmem : answer ∈ stopAnswer cell s.relay) :
    answer = ⟨.stop, true, cell.tag⟩ ∧ ∃ j, s.relay.circ.tagAt j = some cell.tag := by
  rw [stopAnswer] at hmem
  split at hmem
  · rename_i hfound
    exact ⟨List.mem_singleton.mp hmem, (h.relay_found (received_tag hforward)).mp hfound⟩
  · cases hmem

variable (hstop : cell.command = .stop)
include hstop

theorem stopped_lease (j : Slot) : Coherent
    (slotLease relayMachines j (s.received relayMachines cell forward)) := by
  have htag := received_tag hforward
  have hqueue := received_queue hforward relayMachines j
    (handlePaddingNegotiate relayMachines cell s.relay)
  have hthere : ∀ k, (slotLease relayMachines j (s.received relayMachines cell forward)).there =
        some k ↔ s.relay.circ.tagAt j ≠ some cell.tag ∧
          (slotLease relayMachines j s).there = some k := by
    intro k
    simp only [slotLease, handlePaddingNegotiate_stop hstop, h.relay_free htag]
    by_cases hj : s.relay.circ.tagAt j = some cell.tag <;> simp [hj]
  by_cases hj : slotOf relayMachines cell.tag.machineType = some j
  · have hheld : s.relay.circ.tagAt j = some cell.tag ↔
        (slotLease relayMachines j s).there = some cell.tag.serial := by
      constructor
      · intro hj'
        simp [slotLease, hj']
      · intro hserial
        obtain ⟨t, ht, hts⟩ := Option.map_eq_some_iff.mp hserial
        rw [ht, h.labels.same_serial t (h.relay_tag ht).1 cell.tag htag hts]
    refine ((h.lease j).received (m := .closed cell.tag.serial) ?_ ?_).same rfl ?_ rfl rfl
    · rw [hqueue]
      simp [openMessage, hj, hstop]
    · by_cases hfound : s.relay.circ.tagAt j = some cell.tag
      · right
        refine ⟨cell.tag.serial, hheld.mp hfound, rfl, ?_⟩
        have hanswer : stopAnswer cell s.relay = [⟨.stop, true, cell.tag⟩] := by
          rw [stopAnswer, if_pos ((h.relay_found htag).mpr ⟨j, hfound⟩)]
        simp [slotLease, System.answers, handlePaddingNegotiate_stop hstop, hanswer, stopNotice, hj]
      · left
        have hanswer : stopAnswer cell s.relay = [] := by
          rw [stopAnswer, if_neg]
          rw [h.relay_found htag]
          rintro ⟨k, hk⟩
          have hkj : some k = some j := (h.relay_tag hk).2.symm.trans hj
          exact hfound (Option.some.inj hkj ▸ hk)
        simp [slotLease, System.answers, handlePaddingNegotiate_stop hstop, hanswer]
    · ext k
      simp only [deliver_closed]
      split <;> simp_all
  · have hne : s.relay.circ.tagAt j ≠ some cell.tag := fun hj' => hj (h.relay_tag hj').2
    refine (h.lease j).same rfl ?_ ?_ ?_
    · ext k
      rw [hthere]
      simp [hne]
    · rw [hqueue, openMessage_eq_none hj]
      rfl
    · have hnone : (stopAnswer cell s.relay).filterMap (stopNotice relayMachines j) = [] := by
        rw [List.filterMap_eq_nil_iff]
        intro answer hanswer
        rw [(mem_stopAnswer h hforward hanswer).1]
        simp [stopNotice, hj]
      simp [slotLease, System.answers, handlePaddingNegotiate_stop hstop, hnone]

theorem stopped_inv : Inv originMachines relayMachines
    (s.received relayMachines cell forward) := by
  have htag := received_tag hforward
  have hcirc : (handlePaddingNegotiate relayMachines cell s.relay).circ =
      (freeCircMachineinfosWithMachineNum cell.tag.machineType cell.tag.machineCtr
        s.relay.circ).2 := by rw [handlePaddingNegotiate_stop hstop]
  have hanswers : (s.received relayMachines cell forward).answers =
        stopAnswer cell s.relay ++ s.answers := by
    simp [System.answers, handlePaddingNegotiate_stop hstop]
  have hnot : ∀ answer ∈ stopAnswer cell s.relay, isRefusal answer = false := by
    intro answer hanswer
    rw [(mem_stopAnswer h hforward hanswer).1]
    rfl
  have hnotStart : isStart cell = false := by simp [isStart, hstop]
  have hrefused : ∀ t, Refused (s.received relayMachines cell forward) t ↔
        Refused s t := by
    intro t
    apply received_refused hforward hanswers hnot
    intro hs
    rw [hnotStart] at hs
    cases hs
  constructor
  · exact stopped_lease h hforward hstop
  · apply h.labels.subset _ (Nat.le_refl _)
    apply received_tags hforward hanswers
    · intro answer hanswer
      rw [(mem_stopAnswer h hforward hanswer).1]
    · intro j t hj
      rw [hcirc, h.relay_free htag] at hj
      split at hj
      · cases hj
      · exact (h.relay_tag hj).1
  · exact h.client_machine
  · intro j
    rw [hcirc]
    simp only [freeCircMachineinfosWithMachineNum]
    split
    · simp
    · exact h.relay_info j
  · intro j machine hmachine
    rw [hcirc] at hmachine
    simp only [freeCircMachineinfosWithMachineNum] at hmachine
    split at hmachine
    · cases hmachine
    · exact h.relay_machine j machine hmachine
  · have hstarts : (s.received relayMachines cell forward).starts =
          s.starts := by
      simp [System.starts, System.outgoing, hforward, hnotStart]
    have hfinal : (s.received relayMachines cell forward).finalCtr =
          s.finalCtr := by
      have hany : (stopAnswer cell s.relay).any isRefusal = false := by
        rw [List.any_eq_false]
        intro answer hanswer
        simp [hnot answer hanswer]
      simp [System.finalCtr, hanswers, hany]
    rw [hstarts, hfinal, hcirc]
    exact h.counts
  · intro answer hanswer
    rw [hanswers] at hanswer
    cases List.mem_append.mp hanswer with
    | inl hnew =>
      obtain ⟨heq, j, hj⟩ := mem_stopAnswer h hforward hnew
      simp [heq, isRefusal, (h.relay_tag hj).2]
    | inr hold => exact h.answered answer hold
  · intro j t ht hunknown
    rw [hrefused]
    exact h.unknown j t ht hunknown
  · intro t hunknown ht
    exact h.waiting t hunknown ((hrefused t).mp ht)
  · exact h.adding

end Stop

section Start
variable (hstart : cell.command = .start)
include hstart

omit h in
theorem starts_received (relay : Relay) : s.starts =
    cell.tag :: System.starts { s with relay := relay, forward := forward } := by
  simp [System.starts, System.outgoing, hforward, isStart, hstart]

theorem started_ctr : cell.tag.machineCtr = nextMachineCtr s.relay.circ.paddingMachineCtr := by
  have hcounts := h.counts
  rw [starts_received hforward hstart s.relay] at hcounts
  exact hcounts.1

variable {machine : MachineSpec}
  (hmachine : relayMachine relayMachines cell.tag.machineType = some machine)

omit h hforward hstart in
theorem slotOf_known (hmachine : relayMachine relayMachines cell.tag.machineType = some machine) :
    machine.machineNum = cell.tag.machineType ∧
      slotOf relayMachines cell.tag.machineType = some machine.machineIndex := by
  have hnum := List.find?_some hmachine
  exact ⟨by simpa using hnum, by simp [slotOf, hmachine]⟩

include hmachine

theorem started_empty : s.relay.circ.paddingMachine machine.machineIndex = none ∧
    s.relay.circ.paddingInfo machine.machineIndex = none := by
  have hready := (h.lease machine.machineIndex).ready
  rw [received_queue hforward relayMachines machine.machineIndex s.relay] at hready
  simp only [openMessage, (slotOf_known hmachine).2, hstart, if_true, Option.toList_some,
    List.cons_append, Ready] at hready
  have hnone : s.relay.circ.tagAt machine.machineIndex = none := by
    simpa [slotLease] using hready.1
  cases hinfo : s.relay.circ.paddingInfo machine.machineIndex with
  | none => exact ⟨(h.relay_info _).mp hinfo, rfl⟩
  | some info =>
    cases hm : s.relay.circ.paddingMachine machine.machineIndex with
    | none => simp [(h.relay_info _).mpr hm] at hinfo
    | some machine' => simp [Circuit.tagAt, hinfo, hm] at hnone

theorem started_circ : (handlePaddingNegotiate relayMachines cell s.relay).circ =
    ⟨Function.update s.relay.circ.paddingMachine machine.machineIndex (some machine),
      Function.update s.relay.circ.paddingInfo machine.machineIndex
        (some ⟨cell.tag.machineCtr, cell.tag.serial⟩),
      cell.tag.machineCtr⟩ := by
  obtain ⟨hm, hinfo⟩ := started_empty h hforward hstart hmachine
  simp only [handlePaddingNegotiate, hstart, hmachine]
  rw [setupMachineOnCirc_empty cell.tag.serial hm hinfo, started_ctr h hforward hstart]

theorem started_tagAt : (handlePaddingNegotiate relayMachines cell s.relay).circ.tagAt =
    Function.update s.relay.circ.tagAt machine.machineIndex (some cell.tag) := by
  rw [started_circ h hforward hstart hmachine]
  funext j
  by_cases hj : j = machine.machineIndex
  · simp [Circuit.tagAt, hj, (slotOf_known hmachine).1]
  · simp [Circuit.tagAt, hj]

omit h hforward in
theorem started_sending : (handlePaddingNegotiate relayMachines cell s.relay).sending =
    ⟨.start, true, cell.tag⟩ :: s.relay.sending := by
  simp [handlePaddingNegotiate, hstart, hmachine]

theorem started_lease (j : Slot) : Coherent
    (slotLease relayMachines j (s.received relayMachines cell forward)) := by
  have hslot := (slotOf_known hmachine).2
  have hqueue := received_queue hforward relayMachines j
    (handlePaddingNegotiate relayMachines cell s.relay)
  have hnotices : (slotLease relayMachines j (s.received relayMachines cell forward)).notices =
        (slotLease relayMachines j s).notices := by
    simp [slotLease, System.answers, started_sending hstart hmachine, stopNotice]
  by_cases hj : machine.machineIndex = j
  · have hempty : (slotLease relayMachines j s).there = none := by
      simp [slotLease, tagAt_eq_none (hj ▸ (started_empty h hforward hstart hmachine).2)]
    refine ((h.lease j).received (m := .opened cell.tag.serial) ?_ (Or.inl hnotices)).same
      rfl ?_ rfl rfl
    · rw [hqueue]
      simp [openMessage, hslot, hj, hstart]
    · rw [hempty, deliver_opened, ← hj]
      simp [slotLease, started_tagAt h hforward hstart hmachine]
  · refine (h.lease j).same rfl ?_ ?_ hnotices
    · have hne : j ≠ machine.machineIndex := fun hji => hj hji.symm
      simp [slotLease, started_tagAt h hforward hstart hmachine, hne]
    · rw [hqueue, openMessage_eq_none (by simpa [hslot] using hj)]
      rfl

theorem started_inv : Inv originMachines relayMachines
    (s.received relayMachines cell forward) := by
  have htag := received_tag hforward
  obtain ⟨hnum, hslot⟩ := slotOf_known hmachine
  have hcirc := started_circ h hforward hstart hmachine
  have hanswers : (s.received relayMachines cell forward).answers =
        [⟨.start, true, cell.tag⟩] ++ s.answers := by
    simp [System.answers, started_sending hstart hmachine]
  have hrefused : ∀ t, slotOf relayMachines t.machineType = none → (Refused (s.received relayMachines cell forward) t ↔
        Refused s t) := by
    intro t hunknown
    apply received_refused hforward hanswers
    · intro answer hanswer
      rw [List.mem_singleton.mp hanswer]
      rfl
    · rintro - rfl
      rw [hslot] at hunknown
      cases hunknown
  constructor
  · exact started_lease h hforward hstart hmachine
  · apply h.labels.subset _ (Nat.le_refl _)
    apply received_tags hforward hanswers
    · intro answer hanswer
      rw [List.mem_singleton.mp hanswer]
    · intro j t hj
      rw [started_tagAt h hforward hstart hmachine] at hj
      by_cases hji : j = machine.machineIndex
      · have ht : cell.tag = t := by simpa [hji] using hj
        exact ht ▸ htag
      · exact (h.relay_tag (by simpa [hji] using hj)).1
  · exact h.client_machine
  · intro j
    rw [hcirc]
    by_cases hji : j = machine.machineIndex
    · simp [hji]
    · simpa [hji] using h.relay_info j
  · intro j machine' hm
    rw [hcirc] at hm
    by_cases hji : j = machine.machineIndex
    · have heq : machine = machine' := by simpa [hji] using hm
      rw [← heq, hnum, hslot, hji]
    · exact h.relay_machine j machine' (by simpa [hji] using hm)
  · have hcounts := h.counts
    rw [starts_received hforward hstart
      (handlePaddingNegotiate relayMachines cell s.relay)] at hcounts
    have hfinal : (s.received relayMachines cell forward).finalCtr =
          s.finalCtr := by
      simp [System.finalCtr, hanswers, isRefusal]
    rw [hfinal, hcirc]
    exact hcounts.2.2
  · intro answer hanswer
    rw [hanswers] at hanswer
    rcases List.mem_cons.mp hanswer with rfl | hold
    · simp [isRefusal, hslot]
    · exact h.answered answer hold
  · intro j t ht hunknown
    rw [hrefused t hunknown]
    exact h.unknown j t ht hunknown
  · intro t hunknown ht
    exact h.waiting t hunknown ((hrefused t hunknown).mp ht)
  · exact h.adding

omit hmachine in
/-- A machine that the relay does not know was the last to be asked for. -/
theorem refused_inv (hunknown : relayMachine relayMachines cell.tag.machineType = none) :
    Inv originMachines relayMachines (s.received relayMachines cell forward) := by
  have hslot : slotOf relayMachines cell.tag.machineType = none := by simp [slotOf, hunknown]
  have hrelay : handlePaddingNegotiate relayMachines cell s.relay =
      { s.relay with sending := ⟨.start, false, cell.tag⟩ :: s.relay.sending } := by
    simp [handlePaddingNegotiate, hstart, hunknown]
  have hanswers : (s.received relayMachines cell forward).answers =
        [⟨.start, false, cell.tag⟩] ++ s.answers := by
    simp [System.answers, hrelay]
  have hcirc : (handlePaddingNegotiate relayMachines cell s.relay).circ = s.relay.circ := by
    rw [hrelay]
  have hrefused : ∀ t, Refused (s.received relayMachines cell forward) t ↔
        Refused s t := by
    intro t
    simp only [Refused, hanswers, System.outgoing, hforward, List.cons_append, List.nil_append,
      List.mem_append, List.mem_cons]
    constructor
    · rintro (⟨cell', hcell', hs, ht⟩ | ⟨answer, rfl | hanswer, href, ht⟩)
      · exact Or.inl ⟨cell', Or.inr hcell', hs, ht⟩
      · exact Or.inl ⟨cell, Or.inl rfl, by simp [isStart, hstart], ht⟩
      · exact Or.inr ⟨answer, hanswer, href, ht⟩
    · rintro (⟨cell', rfl | hcell', hs, ht⟩ | ⟨answer, hanswer, href, ht⟩)
      · exact Or.inr ⟨⟨.start, false, cell'.tag⟩, Or.inl rfl, rfl, ht⟩
      · exact Or.inl ⟨cell', hcell', hs, ht⟩
      · exact Or.inr ⟨answer, Or.inr hanswer, href, ht⟩
  constructor
  · intro j
    refine (h.lease j).same rfl ?_ ?_ ?_
    · simp [slotLease, hcirc]
    · rw [received_queue hforward relayMachines j
        (handlePaddingNegotiate relayMachines cell s.relay),
        openMessage_eq_none (by simp [hslot])]
      rfl
    · simp [slotLease, hanswers, stopNotice]
  · apply h.labels.subset _ (Nat.le_refl _)
    apply received_tags hforward hanswers
    · intro answer hanswer
      rw [List.mem_singleton.mp hanswer]
    · intro j t hj
      rw [hcirc] at hj
      exact (h.relay_tag hj).1
  · exact h.client_machine
  · rw [hcirc]
    exact h.relay_info
  · rw [hcirc]
    exact h.relay_machine
  · have hcounts := h.counts
    rw [starts_received hforward hstart
      (handlePaddingNegotiate relayMachines cell s.relay)] at hcounts
    have hlast := hcounts.2.1.resolve_left (by simp [hslot])
    have hfinal : (s.received relayMachines cell forward).finalCtr =
          none := by
      simp [System.finalCtr, hanswers, isRefusal]
    rw [hfinal, hlast]
    exact fun _ hc => by cases hc
  · intro answer hanswer
    rw [hanswers] at hanswer
    rcases List.mem_cons.mp hanswer with rfl | hold
    · simp [isRefusal, hslot]
    · exact h.answered answer hold
  · intro j t ht hunknown'
    rw [hrefused]
    exact h.unknown j t ht hunknown'
  · intro t hunknown' ht
    exact h.waiting t hunknown' ((hrefused t).mp ht)
  · exact h.adding

end Start

theorem relayReceive_inv : Inv originMachines relayMachines
    (s.received relayMachines cell forward) := by
  cases hcommand : cell.command with
  | stop => exact stopped_inv h hforward hcommand
  | start =>
    cases hmachine : relayMachine relayMachines cell.tag.machineType with
    | none => exact refused_inv h hforward hcommand hmachine
    | some machine => exact started_inv h hforward hcommand hmachine

end Receive

end TorDaemon.Padding

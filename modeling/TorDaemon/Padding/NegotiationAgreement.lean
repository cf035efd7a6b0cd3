import TorDaemon.Padding.NegotiationRelay

/-! What the client makes of the relay's answers keeps the invariant of a negotiation. -/
namespace TorDaemon.Padding
open Library.Leases Library.Reachability

section NegotiationAnswers
variable {originMachines relayMachines : List MachineSpec} {s : System} {j : Slot} {t : Tag}

section Answer
variable {cell : Negotiated} {client : Client} {backward : List Negotiated}

@[simp] theorem negotiated_stack : (handlePaddingNegotiated cell client).stack = client.stack := by
  simp only [handlePaddingNegotiated]
  split
  · rfl
  · split <;> rfl

@[simp] theorem negotiated_started :
    (handlePaddingNegotiated cell client).started = client.started := by
  simp only [handlePaddingNegotiated]
  split
  · rfl
  · split <;> rfl

@[simp] theorem negotiated_ctr : (handlePaddingNegotiated cell client).circ.paddingMachineCtr =
    client.circ.paddingMachineCtr := by
  simp only [handlePaddingNegotiated]
  split
  · rfl
  · split <;> rfl

/-- That a machine was set up changes nothing. -/
theorem negotiated_of_accepted (hcell : ¬ (cell.command = .stop ∨ isRefusal cell = true)) :
    handlePaddingNegotiated cell client = client := by
  cases hcommand : cell.command with
  | stop => exact absurd (Or.inl hcommand) hcell
  | start =>
    cases hok : cell.ok with
    | false => exact absurd (Or.inr (by simp [isRefusal, hcommand, hok])) hcell
    | true => simp [handlePaddingNegotiated, hcommand, hok]

theorem negotiated_circ (client : Client) (hcell : cell.command = .stop ∨ isRefusal cell = true) :
    (handlePaddingNegotiated cell client).circ = client.circ ∧
        (∀ j, client.circ.paddingMachine j = none) ∨
      (handlePaddingNegotiated cell client).circ = (freeCircMachineinfosWithMachineNum
        cell.tag.machineType cell.tag.machineCtr client.circ).2 := by
  simp only [handlePaddingNegotiated]
  split
  · rename_i hnone
    refine Or.inl ⟨rfl, fun j => ?_⟩
    simpa using List.all_eq_true.mp hnone j (mem_allSlots j)
  · right
    split
    · rfl
    · rfl
    · rename_i hcommand hok
      simp [isRefusal, hcommand, hok] at hcell

/-- The client has taken the first answer. -/
abbrev System.negotiated (s : System) (cell : Negotiated) (backward : List Negotiated) : System :=
  { s with client := handlePaddingNegotiated cell s.client, backward := backward }

variable (h : Inv originMachines relayMachines s) (hbackward : s.backward = cell :: backward)

theorem answers_received (client : Client) (answer : Negotiated)
    (hbackward : s.backward = cell :: backward) : answer ∈ s.answers ↔ answer = cell ∨
      answer ∈ System.answers { s with client := client, backward := backward } := by
  simp only [System.answers, hbackward, List.mem_append, List.mem_cons]
  tauto

theorem answer_mem (hbackward : s.backward = cell :: backward) : cell ∈ s.answers :=
  (answers_received s.client cell hbackward).mpr (Or.inl rfl)

theorem answer_tag (hbackward : s.backward = cell :: backward) : cell.tag ∈ s.tags :=
  mem_tags.mpr (Or.inr (Or.inl ⟨cell, answer_mem hbackward, rfl⟩))

theorem negotiated_outgoing : (s.negotiated cell backward).outgoing = s.outgoing := by
  simp [System.outgoing, Client.sending]

include h hbackward

theorem negotiated_tagAt (hcell : cell.command = .stop ∨ isRefusal cell = true) :
    (handlePaddingNegotiated cell s.client).circ.tagAt j =
      if s.client.circ.tagAt j = some cell.tag then none else s.client.circ.tagAt j := by
  rcases negotiated_circ s.client hcell with ⟨hcirc, hnone⟩ | hcirc
  · have htag : s.client.circ.tagAt j = none := by
      simp [Circuit.tagAt, hnone j]
    rw [hcirc, htag]
    rfl
  · rw [hcirc]
    exact h.client_free (answer_tag hbackward)

omit h hbackward in
theorem negotiated_info (hcell : cell.command = .stop ∨ isRefusal cell = true)
    {info : MachineRuntime}
    (hinfo : (handlePaddingNegotiated cell s.client).circ.paddingInfo j = some info) :
    s.client.circ.paddingInfo j = some info ∧
      (handlePaddingNegotiated cell s.client).circ.paddingMachine j =
        s.client.circ.paddingMachine j := by
  rcases negotiated_circ s.client hcell with ⟨hcirc, _⟩ | hcirc
  · rw [hcirc] at hinfo ⊢
    exact ⟨hinfo, rfl⟩
  · rw [hcirc] at hinfo ⊢
    simp only [freeCircMachineinfosWithMachineNum] at hinfo ⊢
    split at hinfo
    · cases hinfo
    · rename_i hfree
      exact ⟨hinfo, if_neg hfree⟩

/-- What holds whatever the answer is: tags, machines and what may still be under way. -/
theorem negotiated_labels : Labels (s.negotiated cell backward).tags s.client.started := by
  refine h.labels.subset (fun t ht => ?_) (Nat.le_refl _)
  rcases mem_tags.mp ht with hout | ⟨answer, hanswer, rfl⟩ | ⟨j, hj⟩ | hrelay
  · rw [negotiated_outgoing] at hout
    exact mem_tags.mpr (Or.inl hout)
  · exact mem_tags.mpr (Or.inr (Or.inl ⟨answer,
      (answers_received _ answer hbackward).mpr (Or.inr hanswer), rfl⟩))
  · by_cases hcell : cell.command = .stop ∨ isRefusal cell = true
    · rw [negotiated_tagAt h hbackward hcell] at hj
      split at hj
      · cases hj
      · exact client_tag hj
    · rw [System.negotiated, negotiated_of_accepted hcell] at hj
      exact client_tag hj
  · exact mem_tags.mpr (Or.inr (Or.inr (Or.inr hrelay)))

omit hbackward in
theorem negotiated_client_machine (j : Slot) (info : MachineRuntime)
    (hinfo : (handlePaddingNegotiated cell s.client).circ.paddingInfo j = some info) :
    ∃ machine ∈ originMachines,
      (handlePaddingNegotiated cell s.client).circ.paddingMachine j = some machine ∧
        machine.machineIndex = j := by
  by_cases hcell : cell.command = .stop ∨ isRefusal cell = true
  · obtain ⟨hold, hsame⟩ := negotiated_info hcell hinfo
    rw [hsame]
    exact h.client_machine j info hold
  · rw [negotiated_of_accepted hcell] at hinfo ⊢
    exact h.client_machine j info hinfo

theorem negotiated_lease (j : Slot) :
    Coherent (slotLease relayMachines j (s.negotiated cell backward)) := by
  have htag := answer_tag hbackward
  have hnotices : ∀ k, k ∈ (slotLease relayMachines j s).notices ↔
      stopNotice relayMachines j cell = some k ∨
        k ∈ (slotLease relayMachines j (s.negotiated cell backward)).notices := by
    intro k
    simp only [slotLease, System.answers, hbackward, List.mem_filterMap, List.mem_append,
      List.mem_cons]
    constructor
    · rintro ⟨answer, hanswer | rfl | hanswer, hk⟩
      · exact Or.inr ⟨answer, Or.inl hanswer, hk⟩
      · exact Or.inl hk
      · exact Or.inr ⟨answer, Or.inr hanswer, hk⟩
    · rintro (hk | ⟨answer, hanswer | hanswer, hk⟩)
      · exact ⟨cell, Or.inr (Or.inl rfl), hk⟩
      · exact ⟨answer, Or.inl hanswer, hk⟩
      · exact ⟨answer, Or.inr (Or.inr hanswer), hk⟩
  have hqueue : (slotLease relayMachines j (s.negotiated cell backward)).queue =
        (slotLease relayMachines j s).queue := by
    simp only [slotLease, negotiated_outgoing]
  cases hcell : stopNotice relayMachines j cell with
  | some n =>
    obtain ⟨hslot, hstop, rfl⟩ := stopNotice_eq_some.mp hcell
    refine ((h.lease j).noticed ((hnotices _).mpr (Or.inl hcell)) ?_ ?_).same ?_ rfl hqueue rfl
    · exact fun k hk => (hnotices k).mpr (Or.inr hk)
    · intro k hk
      refine ((hnotices k).mp hk).imp_left fun hk => ?_
      exact (Option.some.inj (hcell.symm.trans hk)).symm
    · simp only [slotLease, heldHere, negotiated_tagAt h hbackward (Or.inl hstop)]
      rcases Option.eq_none_or_eq_some (s.client.circ.tagAt j) with ht | ⟨t, ht⟩
      · simp [ht]
      · by_cases heq : t = cell.tag
        · simp [ht, heq, hslot]
        · have hserial : t.serial ≠ cell.tag.serial := fun hs =>
            heq (h.labels.same_serial t (client_tag ht) cell.tag htag hs)
          simp [ht, heq, hserial]
  | none =>
    have hlease := (h.lease j).forget (fun k hk => (hnotices k).mpr (Or.inr hk))
      fun k hk _ => ((hnotices k).mp hk).resolve_left (by simp [hcell])
    refine hlease.same ?_ rfl hqueue rfl
    by_cases hanswer : cell.command = .stop ∨ isRefusal cell = true
    · have hslot : slotOf relayMachines cell.tag.machineType ≠ some j := by
        intro hslot
        cases hanswer with
        | inl hstop => simp [stopNotice, hslot, hstop] at hcell
        | inr href => simp [(h.answered cell (answer_mem hbackward)).mp href] at hslot
      simp only [slotLease, heldHere, negotiated_tagAt h hbackward hanswer]
      split
      · rename_i ht
        simp [ht, hslot]
      · rfl
    · simp only [slotLease, negotiated_of_accepted hanswer]

theorem negotiated_tag (ht : (handlePaddingNegotiated cell s.client).circ.tagAt j = some t) :
    s.client.circ.tagAt j = some t ∧ (isRefusal cell = true → t ≠ cell.tag) := by
  by_cases hcell : cell.command = .stop ∨ isRefusal cell = true
  · rw [negotiated_tagAt h hbackward hcell] at ht
    split at ht
    · cases ht
    · rename_i hne
      exact ⟨ht, fun _ heq => hne (heq ▸ ht)⟩
  · rw [negotiated_of_accepted hcell] at ht
    exact ⟨ht, fun href => absurd (Or.inr href) hcell⟩

omit h in
theorem negotiated_refused (hnew : isRefusal cell = true → t ≠ cell.tag) :
    Refused (s.negotiated cell backward) t ↔ Refused s t := by
  simp only [Refused, negotiated_outgoing]
  refine or_congr_right ⟨?_, ?_⟩
  · rintro ⟨answer, hanswer, href⟩
    exact ⟨answer, (answers_received _ answer hbackward).mpr (Or.inr hanswer), href⟩
  · rintro ⟨answer, hanswer, href, ht⟩
    rcases (answers_received (handlePaddingNegotiated cell s.client) answer hbackward).mp hanswer
      with rfl | hanswer
    · exact absurd ht.symm (hnew href)
    · exact ⟨answer, hanswer, href, ht⟩

omit h hbackward in
theorem negotiated_failed (href : isRefusal cell = false) :
    (handlePaddingNegotiated cell client).paddingNegotiationFailed =
      client.paddingNegotiationFailed := by
  simp only [handlePaddingNegotiated]
  split
  · rfl
  · split
    · rfl
    · rename_i hcommand hok
      simp [isRefusal, hcommand, hok] at href
    · rfl

/-- A refusal finds the machine that it is about: no machine has been started since. -/
theorem negotiated_refusal (href : isRefusal cell = true) :
    (handlePaddingNegotiated cell s.client).paddingNegotiationFailed = true := by
  have hmem := answer_mem hbackward
  have hunknown := (h.answered cell hmem).mp href
  obtain ⟨hstart, hok⟩ : cell.command = .start ∧ cell.ok = false := by
    simpa [isRefusal] using href
  simp only [handlePaddingNegotiated, hstart, hok]
  rcases h.waiting cell.tag hunknown (Or.inr ⟨cell, hmem, href, rfl⟩) with hfailed | ⟨j, hj⟩
  · split
    · exact hfailed
    · simp [hfailed]
  · split
    · rename_i hnone
      have hm := List.all_eq_true.mp hnone j (mem_allSlots j)
      rw [Option.isNone_iff_eq_none] at hm
      simp [matchesMachine, hm] at hj
    · have hfound : allSlots.any (matchesMachine cell.tag.machineType cell.tag.machineCtr
          s.client.circ) = true := List.any_eq_true.mpr ⟨j, mem_allSlots j, hj⟩
      simp [freeCircMachineinfosWithMachineNum, hfound]

theorem negotiated_waiting (href : isRefusal cell = false)
    (hunknown : slotOf relayMachines t.machineType = none)
    (hj : matchesMachine t.machineType t.machineCtr s.client.circ j = true) :
    matchesMachine t.machineType t.machineCtr
      (handlePaddingNegotiated cell s.client).circ j = true := by
  have hknown : slotOf relayMachines cell.tag.machineType ≠ none := by
    intro hnone
    simp [(h.answered cell (answer_mem hbackward)).mpr hnone] at href
  by_cases hcell : cell.command = .stop ∨ isRefusal cell = true
  · rcases negotiated_circ s.client hcell with ⟨hcirc, _⟩ | hcirc
    · rw [hcirc]
      exact hj
    · have hfree : matchesMachine cell.tag.machineType cell.tag.machineCtr s.client.circ j =
          false := by
        cases hm : s.client.circ.paddingMachine j with
        | none => simp [matchesMachine, hm]
        | some machine =>
          simp only [matchesMachine, hm, Option.any_some, Bool.and_eq_true] at hj
          have hnum : machine.machineNum = t.machineType := by simpa using hj.1
          have hne : t.machineType ≠ cell.tag.machineType := fun heq => hknown (heq ▸ hunknown)
          simp [matchesMachine, hm, hnum, hne]
      rw [hcirc]
      simp only [freeCircMachineinfosWithMachineNum]
      rw [matchesMachine] at hj ⊢
      simp only [hfree]
      exact hj
  · rw [negotiated_of_accepted hcell]
    exact hj

theorem receive_inv (hstack : s.client.stack = []) :
    Inv originMachines relayMachines (s.negotiated cell backward) := by
  constructor
  · exact negotiated_lease h hbackward
  · exact (negotiated_labels h hbackward).subset (fun _ ht => ht) (by simp)
  · exact negotiated_client_machine h
  · exact h.relay_info
  · exact h.relay_machine
  · rw [System.starts, negotiated_outgoing]
    cases href : isRefusal cell with
    | true =>
      have hfinal : (s.negotiated cell backward).finalCtr = none := by
        simp [System.finalCtr, negotiated_refusal h hbackward href]
      rw [hfinal]
      exact h.counts.none
    | false =>
      have hfinal : (s.negotiated cell backward).finalCtr = s.finalCtr := by
        simp [System.finalCtr, negotiated_failed href, System.answers, hbackward, href]
      rw [hfinal]
      exact h.counts
  · intro answer hanswer
    exact h.answered answer ((answers_received _ answer hbackward).mpr (Or.inr hanswer))
  · intro j t ht hunknown
    obtain ⟨hold, hnew⟩ := negotiated_tag h hbackward ht
    rw [negotiated_refused hbackward hnew]
    exact h.unknown j t hold hunknown
  · intro t hunknown ht
    cases href : isRefusal cell with
    | true => exact Or.inl (negotiated_refusal h hbackward href)
    | false =>
      have hold := (negotiated_refused hbackward (by simp [href])).mp ht
      refine (h.waiting t hunknown hold).imp ?_ ?_
      · exact fun hfailed => (negotiated_failed href).trans hfailed
      · rintro ⟨j, hj⟩
        exact ⟨j, negotiated_waiting h hbackward href hunknown hj⟩
  · intro slots hslots hfailed
    simp [hstack] at hslots

end Answer

end NegotiationAnswers

/-! In every negotiation whose steps meet the conditions the two parties agree. -/

section NegotiationAgreement
variable {originMachines relayMachines : List MachineSpec} {s s' : System} {i : Slot}

/-! ### Runs -/

theorem inv_init (supportsPadding : Bool) :
    Inv originMachines relayMachines (.init supportsPadding) := by
  constructor
  · exact fun _ => coherent_empty
  · constructor <;> simp [System.tags, System.outgoing, System.answers, System.init, Circuit.new,
      Client.sending, allSlots, Circuit.tagAt]
  · intro i info hinfo
    cases hinfo
  · exact fun _ => ⟨fun _ => rfl, fun _ => rfl⟩
  · intro i machine hmachine
    cases hmachine
  · exact fun c hc => Option.some.inj hc
  · intro cell hcell
    cases hcell
  · intro i t ht
    cases ht
  · rintro t _ (⟨cell, hcell, _⟩ | ⟨cell, hcell, _⟩)
    · cases hcell
    · cases hcell
  · intro slots hslots
    cases hslots

theorem step_inv (htables : SameSlots originMachines relayMachines)
    (h : Inv originMachines relayMachines s) {e : Event}
    (hok : StepOk originMachines relayMachines s e)
    (hstep : step originMachines relayMachines s e = some s') :
    Inv originMachines relayMachines s' := by
  cases e with
  | conditionsChanged =>
    simp only [step] at hstep
    split at hstep
    · cases hstep
      refine h.of_stack ?_ fun slots hslots => h.adding slots ?_
      · rfl
      · simpa using hslots
    · cases hstep
  | addedHop =>
    simp only [step] at hstep
    split at hstep
    · rename_i hstack
      cases hstep
      refine h.of_stack ?_ fun slots hslots => ?_
      · rw [Client.sending, hstack]
        rfl
      · simp at hslots
    · cases hstep
  | nodelistChanged supportsPadding =>
    simp only [step] at hstep
    split at hstep
    · rename_i hstack
      cases hstep
      refine h.of_same rfl (fun _ => Iff.rfl) rfl rfl rfl rfl fun slots hslots => ?_
      simp [hstack] at hslots
    · cases hstep
  | machineEnds i =>
    simp only [step] at hstep
    split at hstep
    · obtain ⟨client', hends, rfl⟩ := Option.map_eq_some_iff.mp hstep
      exact machineEnds_inv h htables hok hends
    · cases hstep
  | proceed conditions =>
    obtain ⟨⟨client', cell⟩, hproceed, rfl⟩ := Option.map_eq_some_iff.mp hstep
    exact proceed_inv h htables hok hproceed
  | receive =>
    simp only [step] at hstep
    split at hstep
    · rename_i cell backward hstack hbackward
      cases hstep
      exact receive_inv h hbackward hstack
    · cases hstep
  | relayMachineEnds i =>
    obtain ⟨relay, hends, rfl⟩ := Option.map_eq_some_iff.mp hstep
    exact relayMachineEnds_inv h hends
  | relayProceed =>
    simp only [step] at hstep
    split at hstep
    · cases hstep
    · rename_i cell sending hsending
      cases hstep
      exact relayProceed_inv h hsending
  | relayReceive =>
    simp only [step] at hstep
    split at hstep
    · rename_i cell forward _ hforward
      cases hstep
      exact relayReceive_inv h hforward
    · cases hstep

/-! ### Agreement -/

/-- What the two parties can rely on in a state of a run. -/
structure Agreement (relayMachines : List MachineSpec) (s : System) : Prop where
  /-- A STOP frees the instance that it is about, and no other. -/
  stop_frees : ∀ cell forward, s.forward = cell :: forward → cell.command = .stop →
    ∀ i info, s.relay.circ.paddingInfo i = some info →
      (handlePaddingNegotiate relayMachines cell s.relay).circ.paddingInfo i = none →
        info.serial = cell.tag.serial
  /-- So does a STOP or an error that comes back. -/
  answer_frees : ∀ cell backward, s.backward = cell :: backward →
    ∀ i info, s.client.circ.paddingInfo i = some info →
      (handlePaddingNegotiated cell s.client).circ.paddingInfo i = none →
        info.serial = cell.tag.serial
  /-- With a START the relay comes to the counter that the client sent it with. -/
  start_counts : ∀ cell forward, s.forward = cell :: forward → cell.command = .start →
    (relayMachine relayMachines cell.tag.machineType).isSome = true →
      (handlePaddingNegotiate relayMachines cell s.relay).circ.paddingMachineCtr =
        cell.tag.machineCtr
  /-- Once no cell is under way, the same instances are active. -/
  settled : s.outgoing = [] → s.answers = [] → ∀ i,
    (s.client.circ.paddingInfo i).map MachineRuntime.serial =
      (s.relay.circ.paddingInfo i).map MachineRuntime.serial

theorem Inv.settled (h : Inv originMachines relayMachines s)
    (htables : SameSlots originMachines relayMachines) (hout : s.outgoing = [])
    (hanswers : s.answers = []) (i : Slot) :
    (s.client.circ.paddingInfo i).map MachineRuntime.serial =
      (s.relay.circ.paddingInfo i).map MachineRuntime.serial := by
  have hlease := (h.lease i).settled (by simp [slotLease, hout]) (by simp [slotLease, hanswers])
  have hthere : (slotLease relayMachines i s).there =
      (s.relay.circ.paddingInfo i).map MachineRuntime.serial := by
    cases hinfo : s.relay.circ.paddingInfo i with
    | none => simp [slotLease, tagAt_eq_none hinfo]
    | some info =>
      cases hm : s.relay.circ.paddingMachine i with
      | none => simp [(h.relay_info i).mpr hm] at hinfo
      | some machine => simp [slotLease, Circuit.tagAt, hinfo, hm]
  have hhere : (slotLease relayMachines i s).here =
      (s.client.circ.paddingInfo i).map MachineRuntime.serial := by
    cases hinfo : s.client.circ.paddingInfo i with
    | none => simp [slotLease, heldHere, tagAt_eq_none hinfo]
    | some info =>
      obtain ⟨machine, hmem, hm, hindex⟩ := h.client_machine i info hinfo
      have htag := tagAt_eq_some.mpr ⟨machine, info, hm, hinfo, rfl⟩
      cases hslot : slotOf relayMachines machine.machineNum with
      | none =>
        rcases h.unknown i _ htag hslot with ⟨cell, hcell, _⟩ | ⟨cell, hcell, _⟩
        · simp [hout] at hcell
        · simp [hanswers] at hcell
      | some j =>
        have hji : i = j := hindex ▸ htables machine hmem j hslot
        subst hji
        simp [slotLease, heldHere, htag, hslot]
  rw [← hhere, ← hthere, hlease]

theorem Inv.agreement (h : Inv originMachines relayMachines s)
    (htables : SameSlots originMachines relayMachines) : Agreement relayMachines s := by
  constructor
  · intro cell forward hforward hstop i info hinfo hfreed
    have htag := received_tag hforward
    cases hm : s.relay.circ.paddingMachine i with
    | none => simp [(h.relay_info i).mpr hm] at hinfo
    | some machine =>
      have hold := tagAt_eq_some.mpr ⟨machine, info, hm, hinfo, rfl⟩
      rw [handlePaddingNegotiate_stop hstop] at hfreed
      have hnew := h.relay_free htag (i := i)
      rw [tagAt_eq_none hfreed] at hnew
      split at hnew
      · rename_i heq
        rw [← Option.some.inj (hold.symm.trans heq)]
      · simp [hold] at hnew
  · intro cell backward hbackward i info hinfo hfreed
    obtain ⟨machine, _, hm, _⟩ := h.client_machine i info hinfo
    have hold := tagAt_eq_some.mpr ⟨machine, info, hm, hinfo, rfl⟩
    by_cases hcell : cell.command = .stop ∨ isRefusal cell = true
    · have hnew := negotiated_tagAt h hbackward hcell (j := i)
      rw [tagAt_eq_none hfreed] at hnew
      split at hnew
      · rename_i heq
        rw [← Option.some.inj (hold.symm.trans heq)]
      · simp [hold] at hnew
    · simp [negotiated_of_accepted hcell, hinfo] at hfreed
  · intro cell forward hforward hstart hknown
    obtain ⟨machine, hmachine⟩ := Option.isSome_iff_exists.mp hknown
    rw [started_circ h hforward hstart hmachine]
  · exact h.settled htables

/-- In every run in which no cell is overtaken, lost or refused too late, the two parties
agree. -/
theorem negotiation_agrees (htables : SameSlots originMachines relayMachines)
    {supportsPadding : Bool} {events : List Event}
    (hok : Guarded (step originMachines relayMachines) (StepOk originMachines relayMachines)
      (.init supportsPadding) events)
    (hrun : run (step originMachines relayMachines) (.init supportsPadding) events = some s) :
    Agreement relayMachines s := by
  have hreached := Reached.init.of_run hok hrun
  exact (hreached.invariant (inv_init supportsPadding)
    fun _ _ _ h hguard hstep => step_inv htables h hguard hstep).agreement htables

section Examples

def exampleMachines : List MachineSpec := allSlots.map fun i : Slot => ⟨i.val, i, i.val = 1⟩

/-- The conditions of all machines hold, or of none. -/
def always : Conditions := ⟨fun _ => true, fun _ => true⟩
def never : Conditions := ⟨fun _ => false, fun _ => false⟩

/-- The client starts its machines, and the relay takes and answers the cells. -/
def startAll : List Event :=
  [.addedHop, .proceed always, .proceed always, .proceed always, .proceed always,
    .proceed always, .proceed always, .relayReceive, .relayProceed, .relayReceive, .relayProceed,
    .receive, .receive]

/-- The relay's second machine ends. Before it knows, the client shuts both machines down and
starts them again. -/
def crossing : List Event :=
  [.relayMachineEnds (.last 1), .relayProceed, .conditionsChanged, .proceed never, .proceed never,
    .proceed never, .proceed never, .proceed never, .proceed always, .proceed always,
    .proceed always, .proceed always, .proceed always, .proceed always, .receive, .relayReceive,
    .relayProceed, .relayReceive, .relayReceive, .relayProceed, .relayReceive, .relayProceed,
    .receive, .receive, .receive]

theorem negotiation_agrees_crossing : ∃ s,
    run (step exampleMachines exampleMachines) (.init true) (startAll ++ crossing) = some s ∧
      Agreement exampleMachines s := by
  have hrun : ∃ s, run (step exampleMachines exampleMachines) (.init true)
      (startAll ++ crossing) = some s := ⟨_, rfl⟩
  cases hrun with
  | intro s hs =>
    refine ⟨s, hs, negotiation_agrees ?_ ?_ hs⟩
    · simp [SameSlots, exampleMachines, allSlots, slotOf, relayMachine]
    · decide

/-- The conditions change, and the client shuts the second machine down. -/
def stopSecond : List Event :=
  [.conditionsChanged, .proceed never, .proceed never, .proceed never, .proceed never,
    .proceed never, .relayReceive]

/-- The relay does not know the first of two machines. -/
theorem unknown_machine_drifts : ∃ s,
    run (step exampleMachines [⟨1, 1, true⟩]) (.init true) (startAll ++ stopSecond) = some s ∧
      s.outgoing = [] ∧ s.answers = [] ∧ s.client.circ.paddingInfo 1 = none ∧
        (s.relay.circ.paddingInfo 1).isSome = true :=
  ⟨_, rfl, rfl, rfl, rfl, rfl⟩

end Examples

end NegotiationAgreement

end TorDaemon.Padding

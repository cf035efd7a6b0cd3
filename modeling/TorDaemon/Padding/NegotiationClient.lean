import TorDaemon.Padding.NegotiationInvariant

/-! The client's own steps keep the invariant of a negotiation. -/
namespace TorDaemon.Padding
open Library.Reachability Library.Leases

variable {originMachines relayMachines : List MachineSpec} {s s' : System} {i : Slot}

/-! ### Steps that only move cells -/

theorem stopNotice_eq_some {cell : Negotiated} {n : ℕ} : stopNotice relayMachines i cell = some n ↔
      slotOf relayMachines cell.tag.machineType = some i ∧ cell.command = .stop ∧
        cell.tag.serial = n := by
  simp [stopNotice, and_assoc]

theorem mem_notices {n : ℕ} : n ∈ (slotLease relayMachines i s).notices ↔
    ∃ cell ∈ s.answers, slotOf relayMachines cell.tag.machineType = some i ∧
      cell.command = .stop ∧ cell.tag.serial = n := by
  simp [slotLease, stopNotice_eq_some]

theorem finalCtr_congr (hans : ∀ cell, cell ∈ s'.answers ↔ cell ∈ s.answers)
    (hcirc : s'.client.circ = s.client.circ)
    (hfailed : s'.client.paddingNegotiationFailed = s.client.paddingNegotiationFailed) :
    s'.finalCtr = s.finalCtr := by
  have hany : s'.answers.any isRefusal = s.answers.any isRefusal := by
    rw [Bool.eq_iff_iff]
    simp [hans]
  rw [System.finalCtr, System.finalCtr, hany, hcirc, hfailed]

/-- The order of the relay's cells does not matter. -/
theorem Inv.of_same (h : Inv originMachines relayMachines s) (hout : s'.outgoing = s.outgoing)
    (hans : ∀ cell, cell ∈ s'.answers ↔ cell ∈ s.answers) (hcirc : s'.client.circ = s.client.circ)
    (hfailed : s'.client.paddingNegotiationFailed = s.client.paddingNegotiationFailed)
    (hstarted : s'.client.started = s.client.started) (hrelay : s'.relay.circ = s.relay.circ)
    (hadding : ∀ slots, .addMatchingMachines slots ∈ s'.client.stack →
      s'.client.paddingNegotiationFailed = true → s'.client.supportsPadding = false) :
    Inv originMachines relayMachines s' where
  lease i := by
    have hnotices : ∀ k, k ∈ (slotLease relayMachines i s').notices ↔
        k ∈ (slotLease relayMachines i s).notices := by
      intro k
      simp only [mem_notices, hans]
    have hlease := (h.lease i).forget (fun k hk => (hnotices k).mp hk)
      fun k hk _ => (hnotices k).mpr hk
    refine hlease.same ?_ ?_ ?_ rfl
    · simp [slotLease, heldHere, hcirc]
    · simp [slotLease, hrelay]
    · simp [slotLease, hout]
  labels := by
    refine h.labels.subset (fun t ht => ?_) (Nat.le_of_eq hstarted.symm)
    simpa only [mem_tags, hout, hans, hcirc, hrelay] using ht
  client_machine := by
    rw [hcirc]
    exact h.client_machine
  relay_info := by
    rw [hrelay]
    exact h.relay_info
  relay_machine := by
    rw [hrelay]
    exact h.relay_machine
  counts := by
    rw [System.starts, finalCtr_congr hans hcirc hfailed, hrelay, hout]
    exact h.counts
  answered cell hcell := h.answered cell ((hans cell).mp hcell)
  unknown i t ht hunknown := by
    rw [hcirc] at ht
    simpa only [Refused, hout, hans] using h.unknown i t ht hunknown
  waiting t hunknown ht := by
    rw [hcirc, hfailed]
    refine h.waiting t hunknown ?_
    simpa only [Refused, hout, hans] using ht
  adding := hadding

/-! ### The client stops a machine -/

section Stop
variable {machine : MachineSpec} {info : MachineRuntime} {j : Slot}

theorem heldHere_free {client client' : Client}
    (hcirc : client'.circ = machineinfoFreeIdx i client.circ) :
    heldHere relayMachines j client' = if j = i then none else heldHere relayMachines j client := by
  rw [heldHere, hcirc, tagAt_machineinfoFreeIdx]
  by_cases hj : j = i <;> simp [hj, heldHere]

theorem openMessage_eq_none {cell : Negotiate}
    (h : slotOf relayMachines cell.tag.machineType ≠ some i) :
    openMessage relayMachines i cell = none := by
  simp [openMessage, h]

theorem filterMap_quiet {cells : List Negotiate}
    (h : ∀ cell ∈ cells, slotOf relayMachines cell.tag.machineType ≠ some i) :
    cells.filterMap (openMessage relayMachines i) = [] := by
  rw [List.filterMap_eq_nil_iff]
  exact fun cell hcell => openMessage_eq_none (h cell hcell)

theorem matchesMachine_free {machineNum machineCtr : ℕ} {circ : Circuit}
    (h : matchesMachine machineNum machineCtr circ j = true) :
    matchesMachine machineNum machineCtr (machineinfoFreeIdx i circ) j = true := by
  by_cases hj : j = i
  · subst hj
    cases hm : circ.paddingMachine j with
    | none => simp [matchesMachine, hm] at h
    | some machine =>
      simp only [matchesMachine, hm, Option.any_some, Bool.and_eq_true] at h
      simp [matchesMachine, machineinfoFreeIdx, hm, h.1]
  · simpa [matchesMachine, machineinfoFreeIdx, hj] using h

section Client
variable (client : Client)

@[simp] theorem stopMachine_circ :
    (stopMachine i machine info client).circ = machineinfoFreeIdx i client.circ := by
  by_cases hs : client.supportsPadding = true <;> simp [stopMachine, negotiatePadding, hs]

@[simp] theorem stopMachine_failed : (stopMachine i machine info client).paddingNegotiationFailed =
      client.paddingNegotiationFailed := by
  by_cases hs : client.supportsPadding = true <;> simp [stopMachine, negotiatePadding, hs]

@[simp] theorem stopMachine_started :
    (stopMachine i machine info client).started = client.started := by
  by_cases hs : client.supportsPadding = true <;> simp [stopMachine, negotiatePadding, hs]

@[simp] theorem stopMachine_supportsPadding :
    (stopMachine i machine info client).supportsPadding = client.supportsPadding := by
  by_cases hs : client.supportsPadding = true <;> simp [stopMachine, negotiatePadding, hs]

theorem stopMachine_sending : (stopMachine i machine info client).sending =
    (if client.supportsPadding then
      [⟨.stop, ⟨machine.machineNum, info.machineCtr, info.serial⟩⟩] else []) ++ client.sending := by
  by_cases hs : client.supportsPadding = true <;>
    simp [stopMachine, negotiatePadding, hs, Client.sending, Frame.cell?]

theorem mem_stopMachine_stack {slots : List Slot} :
    .addMatchingMachines slots ∈ (stopMachine i machine info client).stack ↔
      .addMatchingMachines slots ∈ client.stack := by
  by_cases hs : client.supportsPadding = true <;> simp [stopMachine, negotiatePadding, hs]

end Client

variable (htables : SameSlots originMachines relayMachines)
  (h : Inv originMachines relayMachines s) (hinfo : s.client.circ.paddingInfo i = some info)
  (hmachine : s.client.circ.paddingMachine i = some machine)
  (hok : StopOk relayMachines s machine)
include htables h hinfo hmachine

theorem slotOf_client (hj : slotOf relayMachines machine.machineNum = some j) : i = j := by
  obtain ⟨machine', hmem, hmachine', hindex⟩ := h.client_machine i info hinfo
  have heq : machine = machine' := Option.some.inj (hmachine.symm.trans hmachine')
  rw [← hindex, ← heq]
  exact htables machine (heq ▸ hmem) j hj

include hok

theorem stopMachine_lease (j : Slot) : Coherent
    (slotLease relayMachines j { s with client := stopMachine i machine info s.client }) := by
  have htag : s.client.circ.tagAt i = some ⟨machine.machineNum, info.machineCtr, info.serial⟩ :=
    tagAt_eq_some.mpr ⟨machine, info, hmachine, hinfo, rfl⟩
  have hhere : (slotLease relayMachines j
      { s with client := stopMachine i machine info s.client }).here =
        if j = i then none else (slotLease relayMachines j s).here :=
    heldHere_free (stopMachine_circ s.client)
  by_cases hj : slotOf relayMachines machine.machineNum = some j
  · have hij := slotOf_client htables h hinfo hmachine hj
    have hsupported := hok.supported (by rw [hj]; rfl)
    have hheld : (slotLease relayMachines j s).here = some info.serial := by
      simp [slotLease, heldHere, ← hij, htag, hij ▸ hj]
    have hquiet := filterMap_quiet (hok.quiet j hj)
    refine ((h.lease j).closed hheld).same ?_ rfl ?_ rfl
    · rw [hhere, if_pos hij.symm]
    · simp [slotLease, System.outgoing, stopMachine_sending, hsupported, hquiet, openMessage, hj]
  · refine (h.lease j).same ?_ rfl ?_ rfl
    · rw [hhere]
      split
      · rename_i hji
        simp [slotLease, heldHere, hji, htag, hji ▸ hj]
      · rfl
    · by_cases hs : s.client.supportsPadding = true <;>
        simp [slotLease, System.outgoing, stopMachine_sending, hs, openMessage, hj]

theorem stopMachine_inv : Inv originMachines relayMachines
    { s with client := stopMachine i machine info s.client } := by
  have htag : s.client.circ.tagAt i = some ⟨machine.machineNum, info.machineCtr, info.serial⟩ :=
    tagAt_eq_some.mpr ⟨machine, info, hmachine, hinfo, rfl⟩
  have hfree : ∀ j t, (machineinfoFreeIdx i s.client.circ).tagAt j = some t →
      j ≠ i ∧ s.client.circ.tagAt j = some t := by
    intro j t ht
    rw [tagAt_machineinfoFreeIdx] at ht
    by_cases hj : j = i
    · simp [hj] at ht
    · exact ⟨hj, by simpa [hj] using ht⟩
  have hout : ∀ cell, cell ∈ System.outgoing
      { s with client := stopMachine i machine info s.client } ↔ cell ∈ s.outgoing ∨
        s.client.supportsPadding = true ∧
          cell = ⟨.stop, ⟨machine.machineNum, info.machineCtr, info.serial⟩⟩ := by
    intro cell
    by_cases hs : s.client.supportsPadding = true
    · simp [System.outgoing, stopMachine_sending, hs]
      tauto
    · simp [System.outgoing, stopMachine_sending, hs]
  have hrefused : ∀ t, Refused { s with client := stopMachine i machine info s.client } t ↔
      Refused s t := by
    intro t
    simp only [Refused, hout]
    refine or_congr_left ⟨?_, ?_⟩
    · rintro ⟨cell, hcell | ⟨_, rfl⟩, hstart, ht⟩
      · exact ⟨cell, hcell, hstart, ht⟩
      · simp [isStart] at hstart
    · rintro ⟨cell, hcell, hstart, ht⟩
      exact ⟨cell, Or.inl hcell, hstart, ht⟩
  constructor
  · exact stopMachine_lease htables h hinfo hmachine hok
  · refine h.labels.subset (fun t ht => ?_) (by simp)
    rw [mem_tags] at ht ⊢
    rcases ht with ⟨cell, hcell, ht⟩ | hans | ⟨j, hj⟩ | hrelay
    · rcases (hout cell).mp hcell with hcell | ⟨_, rfl⟩
      · exact Or.inl ⟨cell, hcell, ht⟩
      · exact Or.inr (Or.inr (Or.inl ⟨i, ht ▸ htag⟩))
    · exact Or.inr (Or.inl hans)
    · rw [stopMachine_circ] at hj
      exact Or.inr (Or.inr (Or.inl ⟨j, (hfree j t hj).2⟩))
    · exact Or.inr (Or.inr (Or.inr hrelay))
  · intro j info' hinfo'
    have hj : j ≠ i := by
      rintro rfl
      simp [machineinfoFreeIdx] at hinfo'
    rw [stopMachine_circ]
    refine h.client_machine j info' ?_
    simpa [machineinfoFreeIdx, hj] using hinfo'
  · exact h.relay_info
  · exact h.relay_machine
  · have hstarts : System.starts { s with client := stopMachine i machine info s.client } =
        s.starts := by
      by_cases hs : s.client.supportsPadding = true <;>
        simp [System.starts, System.outgoing, stopMachine_sending, hs, isStart]
    have hfinal : System.finalCtr { s with client := stopMachine i machine info s.client } =
        s.finalCtr := by
      simp [System.finalCtr, System.answers, machineinfoFreeIdx]
    rw [hstarts, hfinal]
    exact h.counts
  · exact h.answered
  · intro j t ht hunknown
    rw [stopMachine_circ] at ht
    rw [hrefused]
    exact h.unknown j t (hfree j t ht).2 hunknown
  · intro t hunknown ht
    rw [hrefused] at ht
    refine (h.waiting t hunknown ht).imp (by simp) ?_
    rintro ⟨j, hj⟩
    exists j
    rw [stopMachine_circ]
    exact matchesMachine_free hj
  · intro slots hslots hfailed
    rw [mem_stopMachine_stack] at hslots
    simpa using h.adding slots hslots (by simpa using hfailed)

end Stop

/-! ### The client starts a machine -/

section Counts
variable {ctr c : ℕ} {final : Option ℕ} {tags : List Tag} {t : Tag}

theorem Counts.none (h : Counts relayMachines final ctr tags) :
    Counts relayMachines none ctr tags := by
  induction tags generalizing ctr with
  | nil => simp [Counts]
  | cons t tags ih => exact ⟨h.1, h.2.1, ih h.2.2⟩

theorem Counts.concat (h : Counts relayMachines (some c) ctr tags)
    (hknown : ∀ t ∈ tags, (slotOf relayMachines t.machineType).isSome = true)
    (ht : t.machineCtr = nextMachineCtr c) :
    Counts relayMachines (some t.machineCtr) ctr (tags ++ [t]) := by
  induction tags generalizing ctr with
  | nil =>
    have hc : ctr = c := h c rfl
    exact ⟨hc ▸ ht, Or.inr rfl, fun _ hc => Option.some.inj hc⟩
  | cons t' tags ih =>
    have hknown' := List.forall_mem_cons.mp hknown
    exact ⟨h.1, Or.inl hknown'.1, ih h.2.2 hknown'.2⟩

end Counts

section Start
variable {conditions : Conditions} {machines : List MachineSpec} {client : Client}

theorem tryMachines_supported (hs : client.supportsPadding = true) :
    tryMachines conditions i machines client =
      match machines.find? fun machine => machine.machineIndex = i && conditions.apply machine with
      | none => client
      | some machine =>
        { startMachine i machine client with
          stack := .sending ⟨.start, ⟨machine.machineNum,
            (startMachine i machine client).circ.paddingMachineCtr, client.started⟩⟩ ::
              client.stack } := by
  induction machines with
  | nil => rfl
  | cons machine machines ih =>
    rw [tryMachines, List.find?_cons]
    by_cases hm : (machine.machineIndex = i && conditions.apply machine) = true
    · simp [hm, negotiatePadding, startMachine, hs]
    · simp [hm, ih]

/-- What stays as it is where no machine could be started. -/
structure Unstarted (client client' : Client) : Prop where
  info : client'.circ.paddingInfo = client.circ.paddingInfo
  machine : ∀ j info, client.circ.paddingInfo j = some info →
    client'.circ.paddingMachine j = client.circ.paddingMachine j
  stack : client'.stack = client.stack
  supportsPadding : client'.supportsPadding = client.supportsPadding
  started : client.started ≤ client'.started
  failed : client' = client ∨ client'.paddingNegotiationFailed = true

theorem Unstarted.trans {client₁ client₂ : Client} (h : Unstarted client client₁)
    (h' : Unstarted client₁ client₂) : Unstarted client client₂ where
  info := h'.info.trans h.info
  machine j info hinfo := (h'.machine j info (h.info ▸ hinfo)).trans (h.machine j info hinfo)
  stack := h'.stack.trans h.stack
  supportsPadding := h'.supportsPadding.trans h.supportsPadding
  started := Nat.le_trans h.started h'.started
  failed := by
    cases h'.failed with
    | inl heq => exact heq ▸ h.failed
    | inr hfailed => exact Or.inr hfailed

theorem startMachine_circ {machine : MachineSpec} (hindex : machine.machineIndex = i)
    (hinfo : client.circ.paddingInfo i = none) : (startMachine i machine client).circ =
      ⟨Function.update client.circ.paddingMachine i (some machine),
        Function.update client.circ.paddingInfo i
          (some ⟨nextMachineCtr client.circ.paddingMachineCtr, client.started⟩),
        nextMachineCtr client.circ.paddingMachineCtr⟩ := by
  subst hindex
  rw [startMachine, setupMachineOnCirc_empty client.started (by simp [clearMachine])
    (by simpa [clearMachine] using hinfo)]
  simp [clearMachine]

/-- Where the sending fails, the slot is as empty as it was. -/
theorem unstarted_of_failed {machine : MachineSpec} (hindex : machine.machineIndex = i)
    (hinfo : client.circ.paddingInfo i = none) :
    Unstarted client { startMachine i machine client with
      circ := clearMachine i (machineinfoFreeIdx i (startMachine i machine client).circ)
      paddingNegotiationFailed := true } := by
  have hcirc := startMachine_circ hindex hinfo
  constructor
  · rw [hcirc]
    funext j
    by_cases hj : j = i <;> simp [clearMachine, machineinfoFreeIdx, hj, hinfo]
  · intro j info hj
    have hji : j ≠ i := by
      rintro rfl
      simp [hinfo] at hj
    rw [hcirc]
    simp [clearMachine, machineinfoFreeIdx, hji]
  · rfl
  · rfl
  · exact Nat.le_succ _
  · exact Or.inr rfl

theorem tryMachines_unsupported (hs : client.supportsPadding = false)
    (hinfo : client.circ.paddingInfo i = none) :
    Unstarted client (tryMachines conditions i machines client) := by
  induction machines generalizing client with
  | nil => exact ⟨rfl, fun _ _ _ => rfl, rfl, rfl, Nat.le_refl _, Or.inl rfl⟩
  | cons machine machines ih =>
    rw [tryMachines]
    by_cases hm : (machine.machineIndex = i && conditions.apply machine) = true
    · have hindex : machine.machineIndex = i := by
        rw [Bool.and_eq_true] at hm
        simpa using hm.1
      have hfailed := unstarted_of_failed hindex hinfo
      have hrest := ih (hfailed.supportsPadding.trans hs) (by rw [hfailed.info]; exact hinfo)
      have hnone : ∀ tag, negotiatePadding .start tag (startMachine i machine client) = none := by
        intro tag
        simp [negotiatePadding, startMachine, hs]
      rw [if_pos hm]
      simp only [hnone]
      exact hfailed.trans hrest
    · rw [if_neg hm]
      exact ih hs hinfo

theorem Unstarted.tagAt {client' : Client} (h : Unstarted client client') :
    client'.circ.tagAt = client.circ.tagAt := by
  funext j
  cases hinfo : client.circ.paddingInfo j with
  | none => rw [tagAt_eq_none hinfo, tagAt_eq_none (h.info ▸ hinfo)]
  | some info => simp only [Circuit.tagAt, h.info, h.machine j info hinfo]

theorem Unstarted.inv {client' : Client} (hu : Unstarted s.client client')
    (h : Inv originMachines relayMachines s) (hs : s.client.supportsPadding = false) :
    Inv originMachines relayMachines { s with client := client' } := by
  have hout : System.outgoing { s with client := client' } = s.outgoing := by
    simp [System.outgoing, Client.sending, hu.stack]
  have hrefused : ∀ t, Refused { s with client := client' } t ↔ Refused s t := by
    intro t
    simp only [Refused, hout]
    rfl
  constructor
  · intro j
    refine (h.lease j).same ?_ rfl ?_ rfl
    · simp [slotLease, heldHere, hu.tagAt]
    · simp [slotLease, hout]
  · refine h.labels.subset (fun t ht => ?_) hu.started
    rw [mem_tags] at ht ⊢
    simpa only [hout, hu.tagAt, System.answers] using ht
  · intro j info hinfo
    rw [hu.info] at hinfo
    rw [hu.machine j info hinfo]
    exact h.client_machine j info hinfo
  · exact h.relay_info
  · exact h.relay_machine
  · rw [System.starts, hout]
    cases hu.failed with
    | inl heq => exact heq ▸ h.counts
    | inr hfailed =>
      have hfinal : System.finalCtr { s with client := client' } = none := by
        simp [System.finalCtr, hfailed]
      rw [hfinal]
      exact h.counts.none
  · exact h.answered
  · intro j t ht hunknown
    rw [hu.tagAt] at ht
    rw [hrefused]
    exact h.unknown j t ht hunknown
  · intro t hunknown ht
    rw [hrefused] at ht
    cases hu.failed with
    | inl heq => exact heq ▸ h.waiting t hunknown ht
    | inr hfailed => exact Or.inl hfailed
  · exact fun _ _ _ => hu.supportsPadding.trans hs

section Started
variable {machine : MachineSpec} (htables : SameSlots originMachines relayMachines)
  (h : Inv originMachines relayMachines s) (hmem : machine ∈ originMachines)
  (hindex : machine.machineIndex = i) (hinfo : s.client.circ.paddingInfo i = none)
  (hok : StartOk relayMachines s machine)

/-- The client while it sends the START of the machine. -/
def startingClient (i : Slot) (machine : MachineSpec) (client : Client) : Client :=
  { startMachine i machine client with
    stack := .sending ⟨.start, ⟨machine.machineNum,
      (startMachine i machine client).circ.paddingMachineCtr, client.started⟩⟩ :: client.stack }

def startTag (machine : MachineSpec) (client : Client) : Tag :=
  ⟨machine.machineNum, nextMachineCtr client.circ.paddingMachineCtr, client.started⟩

include hindex hinfo

theorem startingClient_circ : (startingClient i machine s.client).circ =
    ⟨Function.update s.client.circ.paddingMachine i (some machine),
      Function.update s.client.circ.paddingInfo i
        (some ⟨nextMachineCtr s.client.circ.paddingMachineCtr, s.client.started⟩),
      nextMachineCtr s.client.circ.paddingMachineCtr⟩ := by
  exact startMachine_circ hindex hinfo

theorem startingClient_tagAt : (startingClient i machine s.client).circ.tagAt =
    Function.update s.client.circ.tagAt i (some (startTag machine s.client)) := by
  rw [startingClient_circ hindex hinfo]
  funext j
  by_cases hj : j = i <;> simp [Circuit.tagAt, hj, startTag]

theorem startingClient_outgoing :
    System.outgoing { s with client := startingClient i machine s.client } =
      s.forward ++ ⟨.start, startTag machine s.client⟩ :: s.client.sending := by
  have hctr : (startMachine i machine s.client).circ.paddingMachineCtr =
      nextMachineCtr s.client.circ.paddingMachineCtr := by rw [startMachine_circ hindex hinfo]
  simp [System.outgoing, Client.sending, startingClient, Frame.cell?, hctr, startTag]

include htables h hmem hok

theorem startingClient_lease (j : Slot) : Coherent
    (slotLease relayMachines j { s with client := startingClient i machine s.client }) := by
  have hnone : (slotLease relayMachines i s).here = none := by
    simp [slotLease, heldHere, tagAt_eq_none hinfo]
  have hserial : ∀ t ∈ s.tags, t.serial ≠ s.client.started :=
    fun t ht => Nat.ne_of_lt (h.labels.serial_lt t ht)
  by_cases hj : slotOf relayMachines machine.machineNum = some j
  · have hij : i = j := by
      rw [← hindex]
      exact htables machine hmem j hj
    subst hij
    have hquiet := filterMap_quiet (hok.quiet i hj)
    refine ((h.lease i).opened (n := s.client.started) hnone ?_ ?_ ?_).same ?_ rfl ?_ rfl
    · intro hthere
      obtain ⟨t, ht, hts⟩ := Option.map_eq_some_iff.mp hthere
      exact hserial t (mem_tags.mpr (Or.inr (Or.inr (Or.inr ⟨i, ht⟩)))) hts
    · intro m hm hlease
      obtain ⟨cell, hcell, hmsg⟩ := List.mem_filterMap.mp hm
      have hsame : m.lease = cell.tag.serial := by
        rw [openMessage] at hmsg
        split at hmsg
        · split at hmsg <;> exact Option.some.inj hmsg ▸ rfl
        · cases hmsg
      exact hserial cell.tag (mem_tags.mpr (Or.inl ⟨cell, hcell, rfl⟩)) (hsame ▸ hlease)
    · intro hn
      obtain ⟨cell, hcell, _, _, hts⟩ := mem_notices.mp hn
      exact hserial cell.tag (mem_tags.mpr (Or.inr (Or.inl ⟨cell, hcell, rfl⟩))) hts
    · simp [slotLease, heldHere, startingClient_tagAt hindex hinfo, startTag, hj]
    · rw [slotLease, startingClient_outgoing hindex hinfo]
      simp [slotLease, System.outgoing, hquiet, openMessage, hj, startTag]
  · refine (h.lease j).same ?_ rfl ?_ rfl
    · by_cases hji : j = i
      · rw [hji, hnone]
        simp [slotLease, heldHere, startingClient_tagAt hindex hinfo, startTag, hji ▸ hj]
      · simp [slotLease, heldHere, startingClient_tagAt hindex hinfo, hji]
    · rw [slotLease, startingClient_outgoing hindex hinfo]
      simp [slotLease, System.outgoing, openMessage, hj, startTag]

theorem startingClient_inv (hfailed : s.client.paddingNegotiationFailed = false) :
    Inv originMachines relayMachines { s with client := startingClient i machine s.client } := by
  have hcirc := startingClient_circ hindex hinfo
  have htagAt := startingClient_tagAt hindex hinfo
  have hout : ∀ cell, cell ∈ System.outgoing
      { s with client := startingClient i machine s.client } ↔
        cell ∈ s.outgoing ∨ cell = ⟨.start, startTag machine s.client⟩ := by
    intro cell
    rw [startingClient_outgoing hindex hinfo]
    simp only [System.outgoing, List.mem_append, List.mem_cons]
    tauto
  have hrefusal : ∀ cell ∈ s.answers, isRefusal cell = false := hok.accepted
  have hrefused : ∀ t, slotOf relayMachines t.machineType = none →
      Refused { s with client := startingClient i machine s.client } t →
        t = startTag machine s.client := by
    rintro t hunknown (⟨cell, hcell, hstart, rfl⟩ | ⟨cell, hcell, href, _⟩)
    · rcases (hout cell).mp hcell with hcell | rfl
      · have hknown := hok.known cell hcell hstart
        simp [hunknown] at hknown
      · rfl
    · exact absurd href (by simp [hrefusal cell hcell])
  constructor
  · exact startingClient_lease htables h hmem hindex hinfo hok
  · have hinsert := h.labels.insert (t := startTag machine s.client)
      (fun t ht => hok.counter t ht) rfl (nextMachineCtr_ne_zero _)
    refine hinsert.subset (fun t ht => ?_) (Nat.le_refl _)
    rw [List.mem_cons]
    rcases mem_tags.mp ht with ⟨cell, hcell, rfl⟩ | hans | ⟨j, hj⟩ | hrelay
    · rcases (hout cell).mp hcell with hcell | rfl
      · exact Or.inr (mem_tags.mpr (Or.inl ⟨cell, hcell, rfl⟩))
      · exact Or.inl rfl
    · exact Or.inr (mem_tags.mpr (Or.inr (Or.inl hans)))
    · rw [htagAt] at hj
      by_cases hji : j = i
      · left
        simpa [hji, eq_comm] using hj
      · right
        refine mem_tags.mpr (Or.inr (Or.inr (Or.inl ⟨j, ?_⟩)))
        simpa [hji] using hj
    · exact Or.inr (mem_tags.mpr (Or.inr (Or.inr (Or.inr hrelay))))
  · intro j info hj
    by_cases hji : j = i
    · exact ⟨machine, hmem, by simp [hcirc, hji], hindex.trans hji.symm⟩
    · have hold : s.client.circ.paddingInfo j = some info := by simpa [hcirc, hji] using hj
      obtain ⟨machine', hmem', hm', hindex'⟩ := h.client_machine j info hold
      exact ⟨machine', hmem', by simpa [hcirc, hji] using hm', hindex'⟩
  · exact h.relay_info
  · exact h.relay_machine
  · have hany : s.answers.any isRefusal = false := by
      rw [List.any_eq_false]
      intro cell hcell
      simp [hrefusal cell hcell]
    have hfinal : s.finalCtr = some s.client.circ.paddingMachineCtr := by
      simp [System.finalCtr, hfailed, hany]
    have hstarts : System.starts { s with client := startingClient i machine s.client } =
        s.starts ++ [startTag machine s.client] := by
      have hquiet : s.client.sending.filter isStart = [] := by
        rw [List.filter_eq_nil_iff]
        intro cell hcell
        simp [hok.no_start cell hcell]
      rw [System.starts, startingClient_outgoing hindex hinfo]
      simp [System.starts, System.outgoing, hquiet, isStart]
    have hfinal' : System.finalCtr { s with client := startingClient i machine s.client } =
        some (startTag machine s.client).machineCtr := by
      have hf : (startingClient i machine s.client).paddingNegotiationFailed = false := hfailed
      have hans : System.answers { s with client := startingClient i machine s.client } =
          s.answers := rfl
      simp [System.finalCtr, hans, hany, hf, hcirc, startTag]
    have hknown : ∀ t ∈ s.starts, (slotOf relayMachines t.machineType).isSome = true := by
      intro t ht
      obtain ⟨cell, hcell, rfl⟩ := List.mem_map.mp ht
      exact hok.known cell (List.mem_filter.mp hcell).1 (List.mem_filter.mp hcell).2
    rw [hstarts, hfinal']
    exact (hfinal ▸ h.counts).concat hknown rfl
  · exact h.answered
  · intro j t ht hunknown
    rw [htagAt] at ht
    by_cases hji : j = i
    · have htt : startTag machine s.client = t := by simpa [hji] using ht
      exact Or.inl ⟨⟨.start, startTag machine s.client⟩, (hout _).mpr (Or.inr rfl), rfl, htt⟩
    · refine (h.unknown j t (by simpa [hji] using ht) hunknown).imp_left ?_
      rintro ⟨cell, hcell, hstart⟩
      exact ⟨cell, (hout cell).mpr (Or.inl hcell), hstart⟩
  · intro t hunknown ht
    right
    refine ⟨i, ?_⟩
    rw [hrefused t hunknown ht]
    refine matchesMachine_of_tagAt ?_
    simp [htagAt]
  · intro slots hslots hfailed'
    have hf : (startingClient i machine s.client).paddingNegotiationFailed = false := hfailed
    simp [hf] at hfailed'

end Started

end Start

/-! ### The steps of the client -/

section Client
variable {conditions : Conditions} {slots : List Slot} {stack : List Frame}
  (h : Inv originMachines relayMachines s)
include h

/-- The client's calls change, but not the cells that it is sending. -/
theorem Inv.of_stack (hsending : stack.filterMap Frame.cell? = s.client.sending)
    (hadding : ∀ slots, .addMatchingMachines slots ∈ stack →
      s.client.paddingNegotiationFailed = true → s.client.supportsPadding = false) :
    Inv originMachines relayMachines { s with client := { s.client with stack := stack } } := by
  refine h.of_same ?_ (fun _ => Iff.rfl) rfl rfl rfl rfl hadding
  simp [System.outgoing, Client.sending, hsending]

/-- The innermost call goes on to its next slot, or returns. -/
theorem Inv.of_frame {frame : Frame} (frames : List Frame)
    (hstack : s.client.stack = frame :: stack) (hcell : frame.cell? = none)
    (hframes : frames.filterMap Frame.cell? = [])
    (hadding : ∀ slots, .addMatchingMachines slots ∈ frames →
      s.client.paddingNegotiationFailed = true → s.client.supportsPadding = false) :
    Inv originMachines relayMachines
      { s with client := { s.client with stack := frames ++ stack } } := by
  refine h.of_stack ?_ fun slots hslots => ?_
  · simp [Client.sending, hstack, hframes, hcell]
  · cases List.mem_append.mp hslots with
    | inl hnew => exact hadding slots hnew
    | inr hold => exact h.adding slots (hstack ▸ List.mem_cons_of_mem _ hold)

theorem Inv.of_sent {cell : Negotiate} (hstack : s.client.stack = .sending cell :: stack) :
    Inv originMachines relayMachines
      { s with client := { s.client with stack := stack }, forward := s.forward ++ [cell] } := by
  refine h.of_same ?_ (fun _ => Iff.rfl) rfl rfl rfl rfl fun slots hslots => ?_
  · simp [System.outgoing, Client.sending, hstack, Frame.cell?]
  · exact h.adding slots (hstack ▸ List.mem_cons_of_mem _ hslots)

omit h in
theorem StartOk.of_stack {machine : MachineSpec} (hok : StartOk relayMachines s machine)
    (hsending : stack.filterMap Frame.cell? = s.client.sending) :
    StartOk relayMachines { s with client := { s.client with stack := stack } } machine := by
  have hclient : Client.sending { s.client with stack := stack } = s.client.sending := hsending
  have hout : System.outgoing { s with client := { s.client with stack := stack } } =
      s.outgoing := by simp only [System.outgoing, hclient]
  have htags : System.tags { s with client := { s.client with stack := stack } } = s.tags := by
    simp only [System.tags, hout]
    rfl
  constructor
  · exact hclient ▸ hok.no_start
  · exact fun j hj => hclient ▸ hok.quiet j hj
  · rw [hout]
    exact hok.known
  · exact hok.accepted
  · rw [htags]
    exact hok.counter

variable (htables : SameSlots originMachines relayMachines) {client' : Client}
include htables

theorem shutdown_inv {cell : Option Negotiate}
    (hstack : s.client.stack = .shutdownOldMachines (i :: slots) :: stack)
    (hok : ∀ machine ∈ machineToStop conditions s.client, StopOk relayMachines s machine)
    (hproceed : clientProceed originMachines conditions s.client = some (client', cell)) :
    Inv originMachines relayMachines { s with client := client' } ∧ cell = none := by
  have hbase := h.of_frame [.shutdownOldMachines slots] hstack rfl rfl (by simp)
  simp only [clientProceed, hstack] at hproceed
  split at hproceed
  · cases hproceed
    exact ⟨hbase, rfl⟩
  · cases hproceed
  · rename_i info machine hinfo hmachine
    split at hproceed
    · cases hproceed
      exact ⟨hbase, rfl⟩
    · rename_i hconditions
      cases hproceed
      have hstop := hok machine (by simpa [machineToStop, hstack, hinfo, hmachine] using hconditions)
      have hquiet : SlotQuiet relayMachines
          { s.client with stack := .shutdownOldMachines slots :: stack } machine := by
        intro j hj cell hcell
        refine hstop.quiet j hj cell ?_
        simpa [Client.sending, hstack, Frame.cell?] using hcell
      exact ⟨stopMachine_inv htables hbase hinfo hmachine ⟨hstop.supported, hquiet⟩, rfl⟩

theorem tryMachines_inv (hinfo : s.client.circ.paddingInfo i = none)
    (hok : s.client.supportsPadding = true → ∀ machine ∈ originMachines.reverse.find?
      (fun machine => machine.machineIndex = i && conditions.apply machine),
        StartOk relayMachines s machine)
    (hadding : s.client.paddingNegotiationFailed = true → s.client.supportsPadding = false) :
    Inv originMachines relayMachines
      { s with client := tryMachines conditions i originMachines.reverse s.client } := by
  by_cases hs : s.client.supportsPadding = true
  · rw [tryMachines_supported hs]
    cases hfind : originMachines.reverse.find? fun machine =>
        machine.machineIndex = i && conditions.apply machine with
    | none => exact h
    | some machine =>
      have hmem : machine ∈ originMachines := List.mem_reverse.mp (List.mem_of_find?_eq_some hfind)
      have hindex : machine.machineIndex = i := by
        have hfound := List.find?_some hfind
        rw [Bool.and_eq_true] at hfound
        simpa using hfound.1
      have hfailed : s.client.paddingNegotiationFailed = false := by
        rw [← Bool.not_eq_true]
        intro hfailed
        exact absurd (hadding hfailed) (by simp [hs])
      exact startingClient_inv htables h hmem hindex hinfo (hok hs machine hfind) hfailed
  · have hs' : s.client.supportsPadding = false := by simpa using hs
    exact (tryMachines_unsupported hs' hinfo).inv h hs'

theorem add_inv {cell : Option Negotiate}
    (hstack : s.client.stack = .addMatchingMachines (i :: slots) :: stack)
    (hok : ∀ machine ∈ machineToStart originMachines conditions s.client,
      StartOk relayMachines s machine)
    (hproceed : clientProceed originMachines conditions s.client = some (client', cell)) :
    Inv originMachines relayMachines { s with client := client' } ∧ cell = none := by
  have hadding := h.adding (i :: slots) (hstack ▸ List.mem_cons_self ..)
  have hbase := h.of_frame [.addMatchingMachines slots] hstack rfl rfl
    (fun _ _ => hadding)
  simp only [clientProceed, hstack] at hproceed
  split at hproceed
  · cases hproceed
    exact ⟨hbase, rfl⟩
  · rename_i hsome
    have hinfo : s.client.circ.paddingInfo i = none := by simpa using hsome
    cases hproceed
    refine ⟨tryMachines_inv hbase htables hinfo (fun hs machine hfind => ?_) hadding, rfl⟩
    have hs' : s.client.supportsPadding = true := hs
    have hstart := hok machine (by simpa [machineToStart, hstack, hinfo, hs'] using hfind)
    refine hstart.of_stack ?_
    rw [Client.sending, hstack]
    rfl

theorem proceed_inv {cell : Option Negotiate}
    (hok : StepOk originMachines relayMachines s (.proceed conditions))
    (hproceed : clientProceed originMachines conditions s.client = some (client', cell)) :
    Inv originMachines relayMachines
      { s with client := client', forward := s.forward ++ cell.toList } := by
  rcases hstack : s.client.stack with _ | ⟨frame, stack⟩
  · simp [clientProceed, hstack] at hproceed
  · have hdone : Inv originMachines relayMachines { s with client := client' } ∧ cell = none →
        Inv originMachines relayMachines
          { s with client := client', forward := s.forward ++ cell.toList } := by
      rintro ⟨hinv, rfl⟩
      simpa using hinv
    cases frame with
    | sending cell' =>
      simp only [clientProceed, hstack] at hproceed
      cases hproceed
      exact h.of_sent hstack
    | shutdownOldMachines slots =>
      cases slots with
      | nil =>
        simp only [clientProceed, hstack] at hproceed
        cases hproceed
        exact hdone ⟨h.of_frame [] hstack rfl rfl (by simp), rfl⟩
      | cons i slots => exact hdone (shutdown_inv h htables hstack hok.2 hproceed)
    | enterAddMatchingMachines =>
      simp only [clientProceed, hstack] at hproceed
      split at hproceed
      · cases hproceed
        exact hdone ⟨h.of_frame [] hstack rfl rfl (by simp), rfl⟩
      · rename_i hfailed
        cases hproceed
        exact hdone ⟨h.of_frame [.addMatchingMachines allSlots] hstack rfl rfl
          (fun _ _ hfailed' => absurd hfailed' hfailed), rfl⟩
    | addMatchingMachines slots =>
      cases slots with
      | nil =>
        simp only [clientProceed, hstack] at hproceed
        cases hproceed
        exact hdone ⟨h.of_frame [] hstack rfl rfl (by simp), rfl⟩
      | cons i slots => exact hdone (add_inv h htables hstack hok.1 hproceed)

theorem machineEnds_inv
    (hok : StepOk originMachines relayMachines s (.machineEnds i))
    (hends : clientMachineEnds i s.client = some client') :
    Inv originMachines relayMachines { s with client := client' } := by
  simp only [clientMachineEnds] at hends
  split at hends
  · rename_i info machine hinfo hmachine
    split at hends
    · rename_i hnegotiate
      cases hends
      exact stopMachine_inv htables h hinfo hmachine (hok machine hmachine hnegotiate)
    · cases hends
      exact h
  · cases hends

end Client

end TorDaemon.Padding

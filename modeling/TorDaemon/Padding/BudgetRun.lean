import TorDaemon.Padding.BudgetCalls

/-! Padding machines respect their budgets on every run in which no timer is left behind
(`circuitpadding.c`). -/
namespace TorDaemon.Padding.Machine
open Library.Contracts

variable {c : Circuit} {w : World} {i j : Slot} {e : Event} {es : List Event}
  {p : Spec × Runtime} {t : Slot → Event → Run Bool}

/-! ### The token supply -/

theorem strandedBy_setup {spec : Spec} {mi : Runtime} :
    strandedBy w spec (setupTokens spec mi) es = strandedBy w spec mi es := by
  rw [setupTokens_same]
  rfl

theorem setupTokens_awaits :
    Meets (Awaits i es) (changeSlot i setupTokens) (fun _ => Awaits i es) Standing := by
  intro c hc
  have hg : Takes (fun spec mi => Bare spec mi ∧ strandedBy c.world spec mi es = false)
      (fun spec _ mi => some ((), setupTokens spec mi, [])) (fun _ spec mi =>
        Bare spec mi ∧ strandedBy c.world spec mi es = false) := by
    apply takes_change
    intro spec mi hm
    exact ⟨hm.1.setup, strandedBy_setup.trans hm.2⟩
  apply (onSlot_meets_in (fun _ _ h => h.1.toSettled) hg).after _ c ⟨rfl, hc⟩
  intro _ c' hc'
  unfold Awaits
  rw [hc'.1]
  exact hc'.2

section
variable (ht : Lawful t)
include ht

theorem internalEventBinsEmpty_meets :
    Meets (Awaits i (.binsEmpty :: es)) (internalEventBinsEmpty t i)
      (fun changed c => Awaits i es c ∧ (changed = true → Kept c)) Standing := by
  apply ht.awaits.bind
  intro changed
  apply meets_ite
  · intro hchanged
    apply meets_pure
    exact fun c hc => ⟨hc.1, fun _ => hc.2 hchanged⟩
  · intro _
    apply (setupTokens_awaits.before fun c hc => hc.1).bind
    intro _
    apply meets_pure
    exact fun c hc => ⟨hc, fun h => nomatch h⟩

theorem checkTokens_meets : Meets (Supplied i es) (checkTokens t i)
      (fun changed c => Awaits i es c ∧ (changed = true → Kept c)) Standing := by
  apply (slot_meets fun c hc => Supplied.standing hc).bind
  intro p
  apply meets_ite
  · intro hempty
    apply (internalEventBinsEmpty_meets ht).before
    rintro c ⟨hp, hc⟩
    apply KeptBut.weaken (KeptBut.at hc hp)
    rintro spec mi ⟨⟨hbare, hstranded⟩, rfl⟩
    rw [withSupplyEvent, if_pos hempty] at hstranded
    exact ⟨hbare, hstranded⟩
  · intro hempty
    apply meets_pure
    rintro c ⟨hp, hc⟩
    apply And.intro
    · apply KeptBut.weaken (KeptBut.at hc hp)
      rintro spec mi ⟨⟨hbare, hstranded⟩, rfl⟩
      rw [withSupplyEvent, if_neg hempty] at hstranded
      exact ⟨hbare, hstranded⟩
    · exact fun h => nomatch h

theorem checkMachineTokenSupply_meets :
    Meets (Supplied i (.lengthCount :: es)) (checkMachineTokenSupply t i)
      (fun changed c => Awaits i es c ∧ (changed = true → Kept c)) Standing := by
  apply (checkTokens_meets ht).bind
  intro changed
  apply meets_ite
  · intro hchanged
    apply meets_pure
    exact fun c hc => ⟨(hc.2 hchanged).awaits, fun _ => hc.2 hchanged⟩
  · intro _
    apply ((slot_meets fun c hc => Awaits.standing hc).before fun c hc => hc.1).bind
    intro p
    apply meets_ite
    · intro _
      exact ht.awaits.before fun c hc => hc.2
    · intro hlength
      apply meets_pure
      rintro c ⟨hp, hc⟩
      apply And.intro
      · apply KeptBut.weaken (KeptBut.at hc hp)
        rintro spec mi ⟨⟨hbare, _⟩, rfl⟩
        exact ⟨hbare, (hbare.good fun _ => hlength).not_stranded es⟩
      · exact fun h => nomatch h

/-- After a cell the machine is good again, if one of the events reaches its timer. -/
theorem checkThen_meets :
    Meets (Supplied i [.lengthCount, e]) (checkThen t e i) (fun _ => Kept) Standing := by
  apply (checkMachineTokenSupply_meets ht).bind
  intro changed
  apply meets_ite
  · intro hchanged
    exact meets_pure fun c hc => hc.2 hchanged
  · intro _
    apply (ht.awaits.before fun c hc => hc.1).bind
    intro _
    exact meets_pure fun c hc => Awaits.kept hc.1

end

/-! ### Cells -/

theorem forEachActiveMachine_meets {react : Slot → Run Unit}
    (h : ∀ i, Meets Kept (react i) (fun _ => Kept) Standing) :
    Meets Kept (forEachActiveMachine react) (fun _ => Kept) Standing := by
  apply meets_forM
  intro i
  apply (meets_get fun c hc => hc).bind
  intro c
  apply meets_ite
  · exact fun _ => h i
  · exact fun _ => meets_pure fun _ hc => hc

theorem cellEventPaddingSent_meets (ht : Lawful t) :
    Meets Kept (cellEventPaddingSent t) (fun _ => Kept) Standing :=
  forEachActiveMachine_meets fun _ => (checkThen_meets ht).before fun _ hc => hc.supplied

theorem note_spends_meets :
    Meets (KeptBut i Bare) (note fun c => .spends (c.stranded i es)) (fun _ => Supplied i es)
      Standing := by
  intro c hc hclean
  have hstranded : c.stranded i es = false := hclean _ List.mem_cons_self
  have hk := hc fun o ho => hclean o (List.mem_cons_of_mem _ ho)
  apply And.intro
  · intro o ho
    cases List.mem_cons.mp ho with
    | inl h => rw [h]; trivial
    | inr h => exact hk.1 o h
  · apply And.intro
    · intro p hp
      apply And.intro (hk.2.1 p hp)
      change c.machineAt i = some p at hp
      unfold Circuit.stranded at hstranded
      rw [hp] at hstranded
      exact hstranded
    · exact hk.2.2

theorem nonpaddingSentOn_meets (ht : Lawful t) :
    Meets Kept (nonpaddingSentOn t i) (fun _ => Kept) Standing := by
  apply (meets_get fun c hc => hc).bind
  intro c
  apply (onSlot_kept (estimateCircRttOnSend_takes c.isOrigin c.world)).bind
  intro _
  apply ((onSlot_meets (fun _ _ h => h.toSettled) countNonpaddingSent_takes).before
    fun c hc => (kept_iff i).mp hc).bind
  intro _
  apply note_spends_meets.bind
  intro _
  exact checkThen_meets ht

theorem modify_kept {f : Circuit → Circuit} (hlog : ∀ c, (f c).log = c.log)
    (hat : ∀ c j p, (f c).machineAt j = some p → c.machineAt j = some p) :
    Meets Kept (modify f : Run Unit) (fun _ => Kept) Standing :=
  meets_modify fun c hc => Kept.of_same hc (hlog c) (hat c)

theorem cellEventNonpaddingSent_meets (ht : Lawful t) :
    Meets Kept (cellEventNonpaddingSent t) (fun _ => Kept) Standing := by
  have hcount : Meets Kept (modify countGlobalNonpadding : Run Unit) (fun _ => Kept) Standing :=
    modify_kept (fun _ => rfl) fun _ _ _ hp => hp
  apply hcount.bind
  intro _
  exact forEachActiveMachine_meets fun _ => nonpaddingSentOn_meets ht

theorem draw_meets : Meets Kept draw (fun _ => Kept) Standing :=
  fun _ hc => Kept.of_same hc rfl fun _ _ hp => hp

theorem checkAfterSending_meets (ht : Lawful t) (state : Option ℕ) :
    Meets Kept (checkAfterSending t i state) (fun _ => Kept) Standing := by
  apply (meets_get fun c hc => hc).bind
  intro c
  cases c.paddingInfo i with
  | none => exact meets_pure fun _ hc => hc
  | some mi =>
    apply meets_ite
    · exact fun _ => meets_pure fun _ hc => hc
    · intro _
      have hsupply : Meets (Supplied i [.lengthCount]) (checkMachineTokenSupply t i)
          (fun changed c => Awaits i [] c ∧ (changed = true → Kept c)) Standing :=
        checkMachineTokenSupply_meets ht
      apply hsupply.weaken
      · exact fun _ hc => hc.supplied
      · exact fun _ _ hc => Awaits.kept hc.1

/-- What a machine needs when its timer fires. -/
structure Fires (spec : Spec) (mi : Runtime) : Prop where
  settled : Settled spec mi
  token : mi.TokenReady
  length : mi.stateLength ≠ 0

theorem Fires.payable {spec : Spec} {mi : Runtime} (hm : Fires spec mi) :
    Payable spec mi.cancelPadding := by
  constructor
  · exact hm.settled.cancel.toSettled
  · rfl
  · exact hm.token
  · exact hm.length

theorem sendPaddingCellForCallback_meets (ht : Lawful t) :
    Meets (KeptBut i Fires) (sendPaddingCellForCallback t i) (fun _ => Kept) Standing := by
  apply (slot_meets fun c hc => KeptBut.standing hc fun _ _ h => h.settled).bind
  intro p
  apply ((changeSlot_meets (fun _ _ h => h.settled) fun _ _ h => h.payable).before
    fun c hc => hc.2).bind
  intro _
  apply (meets_get fun c hc => hc).bind
  intro c
  apply meets_ite
  · intro _
    apply meets_pure
    exact fun c hc => KeptBut.kept hc fun _ _ h => h.settled.good h.off
  · intro _
    apply ((onSlot_meets (fun _ _ h => h.settled) countPaddingSent_takes).after
      fun _ c hc => (kept_iff i).mpr hc).bind
    intro _
    apply draw_meets.bind
    intro d
    have hdrop : Meets Kept (modify (afterDrop d) : Run Unit) (fun _ => Kept) Standing :=
      modify_kept (fun _ => rfl) fun _ _ _ hp => hp
    apply hdrop.bind
    intro _
    apply (cellEventPaddingSent_meets ht).bind
    intro _
    exact checkAfterSending_meets ht _

/-! ### Timers -/

theorem scheduleIn_meets (ht : Lawful t) {delay : ℕ} (hfinite : delay ≠ delayInfinite) :
    Meets (KeptBut i (Delayed delay)) (scheduleIn t i delay) (fun _ => Kept) Standing := by
  apply (slot_meets fun c hc => KeptBut.standing hc fun _ _ h => h.settled).bind
  intro p
  apply meets_ite
  · intro _
    apply meets_pure
    exact fun c hc => KeptBut.kept hc.2 fun _ _ h => h.settled.good h.off
  · intro hlength
    have hfires : ∀ c, c.machineAt i = some p ∧ KeptBut i (Delayed delay) c → KeptBut i Fires c := by
      rintro c ⟨hp, hc⟩
      apply (hc.at hp).weaken
      rintro spec mi ⟨hm, rfl⟩
      exact ⟨hm.settled, hm.ready hfinite, hlength⟩
    apply meets_ite
    · intro _
      exact (sendPaddingCellForCallback_meets ht).before hfires
    · intro _
      apply ((changeSlot_meets (fun _ _ h => h.settled) (R := Good) ?_).before hfires).bind
      · intro _
        exact meets_pure fun c hc => (kept_iff i).mpr hc
      · intro spec mi hm
        have hs : SameBudget mi { mi with isPaddingTimerScheduled := true } :=
          ⟨rfl, rfl, rfl, rfl, rfl⟩
        exact ⟨hm.settled.of_same hs, fun _ => ⟨hm.token, hm.length⟩⟩

theorem replaceTimer_meets (ht : Lawful t) :
    Meets (KeptBut i Settled) (replaceTimer t i) (fun _ => Kept) Standing := by
  apply (onSlot_meets (fun _ _ h => h) chooseDelay_takes).bind
  intro delay
  apply meets_ite
  · intro _
    apply ht.kept.before
    exact fun c hc => KeptBut.kept hc fun _ _ h => h.settled.good h.off
  · exact fun hfinite => scheduleIn_meets ht hfinite

theorem schedulePadding_run {r : Option Bool} (hp : c.machineAt i = some p)
    (hr : schedulingRefused c.world p.1 p.2 = r) : schedulePadding t i c = match r with
      | none => .error .crash c
      | some true => .ok false c
      | some false => replaceTimer t i c := by
  have hask : askRefused i c = match r with
      | none => .error .crash c
      | some refused => .ok refused c := by
    unfold askRefused
    simp only [hp, hr]
    cases r <;> rfl
  change EStateM.bind (askRefused i) _ c = _
  unfold EStateM.bind
  rw [hask]
  cases r with
  | none => rfl
  | some refused => cases refused <;> rfl

theorem schedulePadding_none (hp : c.machineAt i = none) :
    schedulePadding t i c = .error .crash c := by
  have hask : askRefused i c = .error .crash c := by
    unfold askRefused
    simp only [hp]
  change EStateM.bind (askRefused i) _ c = _
  unfold EStateM.bind
  rw [hask]

/-- The machine has just entered its state, and an old timer of it will be looked at. -/
def Entered (i : Slot) (c : Circuit) : Prop :=
  KeptBut i (fun spec mi => Settled spec mi ∧ (mi.isPaddingTimerScheduled = true →
    schedulingRefused c.world spec mi ≠ some true)) c

theorem schedulePadding_meets (ht : Lawful t) :
    Meets (Entered i) (schedulePadding t i) (fun _ => Kept) Standing := by
  intro c hc
  have hsettled : KeptBut i Settled c := KeptBut.weaken hc fun _ _ h => h.1
  have hstand : Standing c := hsettled.standing fun _ _ h => h
  cases hp : c.machineAt i with
  | none =>
    rw [schedulePadding_none hp]
    exact hstand
  | some p =>
    cases hr : schedulingRefused c.world p.1 p.2 with
    | none =>
      rw [schedulePadding_run hp hr]
      exact hstand
    | some refused =>
      rw [schedulePadding_run hp hr]
      cases refused with
      | true =>
        apply (KeptBut.at hc hp).kept
        rintro spec mi ⟨⟨hm, hlooked⟩, rfl⟩
        apply hm.good
        by_contra hon
        exact hlooked (Bool.not_eq_false _ ▸ hon) hr
      | false => exact replaceTimer_meets ht c hsettled

theorem note_enters_meets :
    Meets (KeptBut i Settled) (note fun c => .enters (c.stale i)) (fun _ => Entered i)
      Standing := by
  intro c hc hclean
  have hstale : c.stale i = false := hclean _ List.mem_cons_self
  have hk := hc fun o ho => hclean o (List.mem_cons_of_mem _ ho)
  apply And.intro
  · intro o ho
    cases List.mem_cons.mp ho with
    | inl h => rw [h]; trivial
    | inr h => exact hk.1 o h
  · apply And.intro
    · intro p hp
      apply And.intro (hk.2.1 p hp)
      intro hon hr
      change c.machineAt i = some p at hp
      unfold Circuit.stale at hstale
      rw [hp] at hstale
      simp only [hon, Bool.true_and, decide_eq_false_iff_not] at hstale
      exact hstale hr
    · exact hk.2.2

/-! ### Transitions -/

theorem moveTo_meets (ht : Lawful t) (s : ℕ) :
    Meets (KeptBut i Bare) (moveTo t i s) (fun _ => Kept) Standing := by
  apply (onSlot_meets (fun _ _ h => h.toSettled) (enterState_takes s)).bind
  intro _
  apply note_enters_meets.bind
  intro _
  apply (schedulePadding_meets ht).bind
  intro _
  exact meets_pure fun _ hc => hc

theorem freeInfo_meets : Meets Kept (freeInfo i) (fun _ => Kept) Standing := by
  apply modify_kept (f := fun c => c.withInfo i none) fun _ => rfl
  intro c j p hp
  by_cases hj : j = i
  · rw [hj, machineAt_withInfo_self] at hp
    cases hm : c.paddingMachine i with
    | none => simp [hm] at hp
    | some spec => simp [hm] at hp
  · rwa [machineAt_withInfo_of_ne c _ hj] at hp

theorem freeMachine_meets : Meets Kept (freeMachine i) (fun _ => Kept) Standing := by
  apply modify_kept (f := fun c =>
    { c with paddingMachine := Function.update c.paddingMachine i none }) fun _ => rfl
  intro c j p hp
  unfold Circuit.machineAt at hp ⊢
  by_cases hj : j = i
  · rw [hj] at hp
    simp at hp
  · simpa only [Function.update_of_ne hj] using hp

theorem specTransitionedToEnd_meets (ht : Lawful t) :
    Meets Kept (specTransitionedToEnd t i) (fun _ => Kept) Standing := by
  apply ((slot_meets fun c hc => Kept.standing hc).after fun _ c hc => hc.2).bind
  intro p
  apply meets_ite
  · intro _
    apply freeInfo_meets.bind
    intro _
    apply Meets.bind (Q := fun _ => Kept)
    · apply draw_meets.bind
      intro d
      apply meets_ite
      · exact fun _ => cellEventNonpaddingSent_meets ht
      · exact fun _ => meets_pure fun _ hc => hc
    · intro _
      apply meets_ite
      · exact fun _ => meets_pure fun _ hc => hc
      · exact fun _ => freeMachine_meets
  · exact fun _ => meets_pure fun _ hc => hc

theorem moveToEnd_meets (ht : Lawful t) :
    Meets (KeptBut i Bare) (moveToEnd t i) (fun _ => Kept) Standing := by
  apply ((onSlot_meets (fun _ _ h => h.toSettled) enterEnd_takes).after
    fun _ c hc => (kept_iff i).mpr hc).bind
  intro _
  apply (specTransitionedToEnd_meets ht).bind
  intro _
  exact meets_pure fun _ hc => hc

theorem Meets.answered {x : Run Bool} (hx : Meets (KeptBut i Bare) x (fun _ => Kept) Standing)
    (hc : KeptBut i Bare c) : Answered i e c (x c) := by
  have h := hx c hc
  cases hr : x c with
  | ok changed c' =>
    rw [hr] at h
    exact Or.inl h
  | error s c' =>
    rw [hr] at h
    exact h

theorem schedulePadding_answered (ht : Lawful t) (hc : KeptBut i Bare c)
    (hp : c.machineAt i = some p) (hleaves : schedulingRefused c.world p.1 p.2 = some true →
      leavesTimer c.world p.1 p.2 e = true) : Answered i e c (schedulePadding t i c) := by
  cases hr : schedulingRefused c.world p.1 p.2 with
  | none =>
    rw [schedulePadding_run hp hr]
    exact hc.standing fun _ _ h => h.toSettled
  | some refused =>
    rw [schedulePadding_run hp hr]
    cases refused with
    | true => exact Or.inr ⟨rfl, rfl, p, hp, hleaves hr⟩
    | false =>
      apply Meets.answered _ hc
      exact (replaceTimer_meets ht).before fun c hc => hc.weaken fun _ _ h => h.toSettled

theorem reactTo_answered (ht : Lawful t) (hc : KeptBut i Bare c) (hp : c.machineAt i = some p) :
    Answered i e c (reactTo t i e p c) := by
  unfold reactTo
  cases hst : p.1.currentState p.2 with
  | none =>
    have hleaves : leavesTimer c.world p.1 p.2 e = true := by rw [leavesTimer, hst]
    exact Or.inr ⟨rfl, rfl, p, hp, hleaves⟩
  | some st =>
    simp only
    cases hnext : st.nextState e with
    | ignore =>
      have hleaves : leavesTimer c.world p.1 p.2 e = true := by
        rw [leavesTimer, hst]
        simp only [hnext]
      exact Or.inr ⟨rfl, rfl, p, hp, hleaves⟩
    | cancel =>
      apply Meets.answered _ hc
      apply (changeSlot_meets (fun _ _ h => h.toSettled) fun _ _ h => h.toSettled.cancel).bind
      intro _
      exact meets_pure fun _ hc => (kept_iff i).mpr hc
    | stateEnd => exact Meets.answered (moveToEnd_meets ht) hc
    | state s =>
      simp only
      split
      · exact Meets.answered (moveTo_meets ht s) hc
      · rename_i hsame
        apply schedulePadding_answered ht hc hp
        intro hr
        rw [leavesTimer, hst]
        simp only [hnext]
        exact decide_eq_true ⟨not_not.mp hsame, hr⟩

theorem specTransition_lawful (ht : Lawful t) : Lawful (specTransition t) := by
  intro i e c hc
  change Answered i e c (EStateM.bind (slot i) (reactTo t i e) c)
  unfold EStateM.bind slot
  cases hp : c.machineAt i with
  | none => exact hc.standing fun _ _ h => h.toSettled
  | some p => exact reactTo_answered ht hc hp

/-- However deeply the calls nest. -/
theorem machineSpecTransition_lawful (depth : ℕ) : Lawful (machineSpecTransition depth) := by
  induction depth with
  | zero =>
    intro i e c hc
    exact hc.standing fun _ _ h => h.toSettled
  | succ depth ih => exact specTransition_lawful ih

/-! ### Runs -/

theorem setupMachineOnCirc_kept (spec : Spec) :
    Meets Kept (modify (setupMachineOnCirc i spec) : Run Unit) (fun _ => Kept) Standing := by
  apply meets_modify
  intro c hc
  unfold setupMachineOnCirc
  split
  · exact hc
  · split
    · exact hc
    · intro hclean
      have hk := hc hclean
      apply And.intro hk.1
      intro j p hp
      by_cases hj : j = i
      · rw [hj] at hp
        simp only [Circuit.machineAt, Circuit.withInfo, Function.update_self, Option.bind_some,
          Option.map_some, Option.some.injEq] at hp
        rw [← hp]
        exact new_good
      · simp only [Circuit.machineAt, Circuit.withInfo, Function.update_of_ne hj] at hp
        exact hk.2 j p hp

theorem sendPaddingCallback_meets (ht : Lawful t) :
    Meets Kept (sendPaddingCallback t i) (fun _ => Kept) Standing := by
  apply (meets_get (F := fun d c => d = c ∧ Kept c) fun c hc => ⟨rfl, hc⟩).bind
  intro d
  apply meets_ite
  · intro hon
    apply Meets.bind (Q := fun _ => Kept)
    · apply (sendPaddingCellForCallback_meets ht).before
      rintro c ⟨rfl, hc⟩ hclean
      have hk := hc hclean
      apply And.intro hk.1
      apply And.intro
      · intro p hp
        have hgood := hk.2 i p hp
        have hpending : p.2.isPaddingTimerScheduled = true := by
          unfold Circuit.machineAt at hp
          cases hm : d.paddingMachine i with
          | none => simp [hm] at hp
          | some spec =>
            cases hi : d.paddingInfo i with
            | none => simp [hm, hi] at hp
            | some mi =>
              simp only [hm, hi, Option.bind_some, Option.map_some, Option.some.injEq] at hp
              rw [hi, Option.any_some] at hon
              rw [← hp]
              exact hon
        exact ⟨hgood.toSettled, (hgood.ready hpending).1, (hgood.ready hpending).2⟩
      · exact fun j _ p hp => hk.2 j p hp
    · intro _
      exact meets_pure fun _ hc => hc
  · exact fun _ => meets_pure fun _ hc => hc.2

theorem cellEventNonpaddingReceived_meets (ht : Lawful t) :
    Meets Kept (cellEventNonpaddingReceived t) (fun _ => Kept) Standing := by
  apply forEachActiveMachine_meets
  intro i
  apply (meets_get fun c hc => hc).bind
  intro c
  apply (onSlot_kept (estimateCircRttOnReceived_takes c.isOrigin c.world)).bind
  intro _
  apply ht.kept.bind
  intro _
  exact meets_pure fun _ hc => hc

theorem cellEventPaddingReceived_meets (ht : Lawful t) :
    Meets Kept (cellEventPaddingReceived t) (fun _ => Kept) Standing := by
  apply forEachActiveMachine_meets
  intro i
  apply ht.kept.bind
  intro _
  exact meets_pure fun _ hc => hc

theorem deliver_meets (depth : ℕ) (input : Input) :
    Meets Kept (deliver depth input) (fun _ => Kept) Standing := by
  have ht := machineSpecTransition_lawful depth
  cases input with
  | setup i spec => exact setupMachineOnCirc_kept spec
  | shutdown i keepsMachine =>
    cases keepsMachine with
    | true => exact freeInfo_meets
    | false =>
      apply freeInfo_meets.bind
      intro _
      exact freeMachine_meets
  | world w => exact modify_kept (fun _ => rfl) fun _ _ _ hp => hp
  | nonpaddingSent => exact cellEventNonpaddingSent_meets ht
  | nonpaddingReceived => exact cellEventNonpaddingReceived_meets ht
  | paddingReceived => exact cellEventPaddingReceived_meets ht
  | timer i => exact sendPaddingCallback_meets ht

/-- Whatever happens on the circuit, also where processing stops on the way. -/
theorem run_standing (depth : ℕ) (inputs : List Input) (hc : Kept c) :
    Standing (run depth c inputs) := by
  have h := meets_forM (deliver_meets depth) inputs c hc
  unfold run
  cases hr : inputs.forM (deliver depth) c with
  | ok u c' =>
    rw [hr] at h
    exact Kept.standing h
  | error s c' =>
    rw [hr] at h
    exact h

theorem new_kept (isOrigin : Bool) (w : World) (draws : ℕ → Draw) :
    Kept (Circuit.new isOrigin w draws) := by
  intro _
  exact ⟨fun o ho => (nomatch ho), fun j p hp => (nomatch hp)⟩

/-- Where no timer is left behind, every padding cell that is counted has a length and a token to
be counted against, no counter wraps, and no state counts more cells than were sampled for it. -/
theorem padding_within_budget (depth : ℕ) (isOrigin : Bool) (w : World) (draws : ℕ → Draw)
    (inputs : List Input) (hclean : (run depth (Circuit.new isOrigin w draws) inputs).Clean) :
    (run depth (Circuit.new isOrigin w draws) inputs).Sound ∧
      ∀ i p, (run depth (Circuit.new isOrigin w draws) inputs).machineAt i = some p →
        p.2.WithinLength := by
  have hstand := run_standing depth inputs (new_kept isOrigin w draws) hclean
  exact ⟨hstand.1, fun i p hp => (hstand.2 i p hp).withinLength⟩

/-! ### A timer that is left behind -/

instance : DecidablePred Observation.Sound := fun o =>
  match o with
  | .counts mi => inferInstanceAs (Decidable
      ((mi.stateLength = stateLengthInfinite ∨ 0 < mi.stateLength) ∧
        (∀ h ∈ mi.histogram, mi.chosenBin < h.length ∧ 0 < h.getD mi.chosenBin 0) ∧
        (mi.sampledLength ≠ stateLengthInfinite → mi.counted < mi.sampledLength)))
  | .decrements counter => inferInstanceAs (Decidable (0 < counter))
  | .enters _ => .isTrue trivial
  | .spends _ => .isTrue trivial

instance : DecidablePred Circuit.Sound := fun c =>
  inferInstanceAs (Decidable (∀ o ∈ c.log, o.Sound))

instance : DecidablePred Circuit.Clean := fun c =>
  inferInstanceAs (Decidable (∀ o ∈ c.log, o.Clean))

/-- Delays come from a distribution, so that no tokens are removed; cells of either kind count,
and no event but the first leads to another state. -/
def lengthOneState (next : Event → NextState) : State where
  histogram := []
  histogramEdges := []
  histogramTotalTokens := 0
  iatDist := true
  distMaxSampleUsec := 1000
  distAddedShiftUsec := 100
  lengthDist := true
  startLength := 1
  maxLength := 1
  lengthIncludesNonpadding := true
  nextState := next
  useRttEstimate := false
  tokenRemoval := .none
  keeps_tokens := State.keeps_none true
  has_bins := State.bins_of_none

def lengthOneMachine : Spec where
  states := [lengthOneState fun e => if e = .nonpaddingRecv then .state 1 else .ignore,
    lengthOneState fun _ => .ignore]
  shouldNegotiateEnd := false
  isOriginSide := true
  allowedPaddingCount := 0
  maxPaddingPercent := 0
  valid := rfl

def lengthOneCircuit : Circuit :=
  Circuit.new true ⟨true, true, true, false, 0, 0, 0, 0⟩ fun _ => ⟨1, 0, 0, 0, true, false⟩

/-- The timer is set for a padding cell, and a non-padding cell uses up the length. -/
theorem padding_counted_without_length : ¬(run 5 lengthOneCircuit
      [.setup 0 lengthOneMachine, .nonpaddingReceived, .nonpaddingSent, .timer 0]).Sound := by
  decide +kernel

theorem padding_within_budget_once :
    (run 5 lengthOneCircuit [.setup 0 lengthOneMachine, .nonpaddingReceived, .timer 0]).Sound :=
  (padding_within_budget 5 true ⟨true, true, true, false, 0, 0, 0, 0⟩
    (fun _ => ⟨1, 0, 0, 0, true, false⟩)
    [.setup 0 lengthOneMachine, .nonpaddingReceived, .timer 0] (by decide +kernel)).1

end TorDaemon.Padding.Machine

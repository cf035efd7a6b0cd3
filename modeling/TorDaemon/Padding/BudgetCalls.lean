import TorDaemon.Padding.Budget

/-! What holds of the padding machines of a circuit between the calls of `circuitpadding.c`, as
long as no timer has been left behind. -/
namespace TorDaemon.Padding.Machine
open Library.Contracts

variable {α : Type} {P R : Spec → Runtime → Prop} {f : Local α} {Q : α → Spec → Runtime → Prop}
  {c : Circuit} {w : World} {i j : Slot} {e : Event} {es : List Event} {p : Spec × Runtime}
  {K : Circuit → Prop}

def Circuit.Clean (c : Circuit) : Prop := ∀ o ∈ c.log, o.Clean

def Circuit.Sound (c : Circuit) : Prop := ∀ o ∈ c.log, o.Sound

/-- The machine in a slot has `P`, every other machine is good. -/
def KeptBut (i : Slot) (P : Spec → Runtime → Prop) (c : Circuit) : Prop :=
  c.Clean → c.Sound ∧ (∀ p, c.machineAt i = some p → P p.1 p.2) ∧
    ∀ j, j ≠ i → ∀ p, c.machineAt j = some p → Good p.1 p.2

def Kept (c : Circuit) : Prop :=
  c.Clean → c.Sound ∧ ∀ j p, c.machineAt j = some p → Good p.1 p.2

/-- What holds even where processing stops on the way. -/
def Standing (c : Circuit) : Prop :=
  c.Clean → c.Sound ∧ ∀ j p, c.machineAt j = some p → Settled p.1 p.2

theorem kept_iff (i : Slot) : Kept c ↔ KeptBut i Good c := by
  apply Iff.intro
  · intro hk hclean
    have hc := hk hclean
    exact ⟨hc.1, hc.2 i, fun j _ => hc.2 j⟩
  · intro hk hclean
    have hc := hk hclean
    apply And.intro hc.1
    intro j p hp
    by_cases hj : j = i
    · rw [hj] at hp
      exact hc.2.1 p hp
    · exact hc.2.2 j hj p hp

theorem KeptBut.weaken (hk : KeptBut i P c) (h : ∀ spec mi, P spec mi → R spec mi) :
    KeptBut i R c := by
  intro hclean
  have hc := hk hclean
  exact ⟨hc.1, fun p hp => h p.1 p.2 (hc.2.1 p hp), hc.2.2⟩

theorem KeptBut.kept (hk : KeptBut i P c) (h : ∀ spec mi, P spec mi → Good spec mi) : Kept c :=
  (kept_iff i).mpr (hk.weaken h)

theorem Kept.standing (hk : Kept c) : Standing c := by
  intro hclean
  have hc := hk hclean
  exact ⟨hc.1, fun j p hp => (hc.2 j p hp).toSettled⟩

theorem KeptBut.standing (hk : KeptBut i P c) (h : ∀ spec mi, P spec mi → Settled spec mi) :
    Standing c := by
  intro hclean
  have hc := hk hclean
  apply And.intro hc.1
  intro j p hp
  by_cases hj : j = i
  · rw [hj] at hp
    exact h p.1 p.2 (hc.2.1 p hp)
  · exact (hc.2.2 j hj p hp).toSettled

theorem KeptBut.at (hk : KeptBut i P c) (hp : c.machineAt i = some p) :
    KeptBut i (fun spec mi => P spec mi ∧ (spec, mi) = p) c := by
  intro hclean
  have hc := hk hclean
  apply And.intro hc.1
  apply And.intro
  · intro q hq
    apply And.intro (hc.2.1 q hq)
    exact Option.some.inj (hq.symm.trans hp)
  · exact hc.2.2

/-! ### Steps on one slot -/

theorem machineAt_withInfo_self (c : Circuit) (i : Slot) (mi : Option Runtime) :
    (c.withInfo i mi).machineAt i =
      (c.paddingMachine i).bind fun spec => mi.map fun m => (spec, m) := by
  unfold Circuit.machineAt Circuit.withInfo
  simp only [Function.update_self]

theorem machineAt_withInfo_of_ne (c : Circuit) (mi : Option Runtime) (hj : j ≠ i) :
    (c.withInfo i mi).machineAt j = c.machineAt j := by
  unfold Circuit.machineAt Circuit.withInfo
  simp only [Function.update_of_ne hj]

theorem paddingMachine_of_machineAt (hp : c.machineAt i = some p) :
    c.paddingMachine i = some p.1 := by
  unfold Circuit.machineAt at hp
  cases hm : c.paddingMachine i with
  | none => simp [hm] at hp
  | some spec =>
    simp only [hm, Option.bind_some, Option.map_eq_some_iff] at hp
    obtain ⟨mi, _, heq⟩ := hp
    rw [← heq]

theorem slot_meets (hK : ∀ c, K c → Standing c) :
    Meets K (slot i) (fun p c => c.machineAt i = some p ∧ K c) Standing := by
  intro c hc
  unfold slot
  cases hp : c.machineAt i with
  | none => exact hK c hc
  | some p => exact ⟨hp, hc⟩

section
variable (hP : ∀ spec mi, P spec mi → Settled spec mi)
include hP

theorem onSlot_meets_in (hf : Takes P f Q) :
    Meets (fun c => c.world = w ∧ KeptBut i P c) (onSlot i f)
      (fun a c => c.world = w ∧ KeptBut i (Q a) c) Standing := by
  intro c hc
  have hstand := hc.2.standing hP
  unfold onSlot
  cases hp : c.machineAt i with
  | none => exact hstand
  | some p =>
    cases he : f p.1 (c.draws c.drawn) p.2 with
    | none =>
      simp only [he]
      exact hstand
    | some r =>
      simp only [he]
      apply And.intro hc.1
      intro hclean
      have hold : c.Clean := fun o ho => hclean o (List.mem_append_right _ ho)
      have hk := hc.2 hold
      have htakes := hf p.1 _ p.2 r.1 r.2.1 r.2.2 (hk.2.1 p hp) he
      apply And.intro
      · intro o ho
        cases List.mem_append.mp ho with
        | inl h => exact htakes.2 o h
        | inr h => exact hk.1 o h
      · apply And.intro
        · intro q hq
          change (c.withInfo i (some r.2.1)).machineAt i = some q at hq
          rw [machineAt_withInfo_self, paddingMachine_of_machineAt hp] at hq
          cases hq
          exact htakes.1
        · intro j hj q hq
          change (c.withInfo i (some r.2.1)).machineAt j = some q at hq
          rw [machineAt_withInfo_of_ne c _ hj] at hq
          exact hk.2.2 j hj q hq

theorem onSlot_meets (hf : Takes P f Q) :
    Meets (KeptBut i P) (onSlot i f) (fun a => KeptBut i (Q a)) Standing := by
  intro c hc
  exact (onSlot_meets_in hP hf).after (fun _ _ h => h.2) c ⟨rfl, hc⟩

theorem changeSlot_meets {g : Spec → Runtime → Runtime}
    (hg : ∀ spec mi, P spec mi → R spec (g spec mi)) :
    Meets (KeptBut i P) (changeSlot i g) (fun _ => KeptBut i R) Standing :=
  onSlot_meets hP (takes_change hg)

end

theorem onSlot_kept {f : Local Unit} (hf : Takes Good f (fun _ => Good)) :
    Meets Kept (onSlot i f) (fun _ => Kept) Standing := by
  apply (onSlot_meets (fun _ _ h => h.toSettled) hf).weaken
  · exact fun c hc => (kept_iff i).mp hc
  · exact fun _ c hc => (kept_iff i).mpr hc

/-- The slots and the log are what they were. -/
theorem Kept.of_same {c' : Circuit} (hk : Kept c) (hlog : c'.log = c.log)
    (hat : ∀ j p, c'.machineAt j = some p → c.machineAt j = some p) : Kept c' := by
  intro hclean
  have hc := hk (fun o ho => hclean o (hlog ▸ ho))
  exact ⟨fun o ho => hc.1 o (hlog ▸ ho), fun j p hp => hc.2 j p (hat j p hp)⟩

/-! ### Events that are awaited -/

/-- The events will reach the timer of the machine if it has used up its length. -/
def Awaits (i : Slot) (es : List Event) (c : Circuit) : Prop :=
  KeptBut i (fun spec mi => Bare spec mi ∧ strandedBy c.world spec mi es = false) c

def Supplied (i : Slot) (es : List Event) (c : Circuit) : Prop :=
  KeptBut i (fun spec mi =>
    Bare spec mi ∧ strandedBy c.world spec mi (withSupplyEvent mi es) = false) c

theorem Good.not_stranded {spec : Spec} {mi : Runtime} (hm : Good spec mi) (es : List Event) :
    strandedBy w spec mi es = false := by
  unfold strandedBy
  cases ht : mi.isPaddingTimerScheduled with
  | false => rfl
  | true =>
    rw [decide_eq_false (hm.ready ht).2]
    rfl

theorem Kept.awaits (hk : Kept c) : Awaits i es c :=
  ((kept_iff i).mp hk).weaken fun _ _ hm => ⟨hm.bare, hm.not_stranded es⟩

theorem Kept.supplied (hk : Kept c) : Supplied i es c :=
  ((kept_iff i).mp hk).weaken fun _ _ hm => ⟨hm.bare, hm.not_stranded _⟩

theorem Awaits.kept (ha : Awaits i [] c) : Kept c :=
  KeptBut.kept ha fun _ _ h => h.1.good fun ht hlen => by
    simpa [strandedBy, ht, hlen] using h.2

theorem Awaits.standing (ha : Awaits i es c) : Standing c :=
  KeptBut.standing ha fun _ _ h => h.1.toSettled

theorem Supplied.standing (hs : Supplied i es c) : Standing c :=
  KeptBut.standing hs fun _ _ h => h.1.toSettled

/-- What a nested transition answers: the machine is good again, or the event does not reach its
timer and nothing has changed. -/
def Answered (i : Slot) (e : Event) (c : Circuit) : EStateM.Result Stop Circuit Bool → Prop
  | .ok changed c' => Kept c' ∨ changed = false ∧ c' = c ∧
      ∃ p, c.machineAt i = some p ∧ leavesTimer c.world p.1 p.2 e = true
  | .error _ c' => Standing c'

def Lawful (t : Slot → Event → Run Bool) : Prop :=
  ∀ i e c, KeptBut i Bare c → Answered i e c (t i e c)

variable {t : Slot → Event → Run Bool}

theorem Lawful.awaits (ht : Lawful t) : Meets (Awaits i (e :: es)) (t i e)
    (fun changed c => Awaits i es c ∧ (changed = true → Kept c)) Standing := by
  intro c hc
  have hanswer := ht i e c (KeptBut.weaken hc fun _ _ h => h.1)
  cases hr : t i e c with
  | error s c' =>
    rw [hr] at hanswer
    exact hanswer
  | ok changed c' =>
    rw [hr] at hanswer
    cases hanswer with
    | inl hk => exact ⟨hk.awaits, fun _ => hk⟩
    | inr hleft =>
      obtain ⟨hchanged, rfl, p, hp, hleaves⟩ := hleft
      apply And.intro
      · apply KeptBut.weaken (KeptBut.at hc hp)
        rintro spec mi ⟨⟨hbare, hstranded⟩, rfl⟩
        apply And.intro hbare
        unfold strandedBy at hstranded ⊢
        rw [List.all_cons, hleaves, Bool.true_and] at hstranded
        exact hstranded
      · intro h
        rw [hchanged] at h
        cases h

theorem Lawful.kept (ht : Lawful t) : Meets Kept (t i e) (fun _ => Kept) Standing :=
  (ht.awaits (i := i) (e := e)).weaken (fun _ hk => hk.awaits) fun _ _ h => Awaits.kept h.1

end TorDaemon.Padding.Machine

import TorDaemon.Padding.StateMachine

/-! Budgets of a padding machine: what each step on one machine keeps of its tokens and of the
length of its state (`circuitpadding.c`). -/
namespace TorDaemon.Padding.Machine

section Budget

/-- A cell that is counted has a length and a token to be counted against, its state has counted
fewer cells than were sampled for it, and a counter that is decremented is not zero. -/
def Observation.Sound : Observation → Prop
  | .counts mi =>
    (mi.stateLength = stateLengthInfinite ∨ 0 < mi.stateLength) ∧
      (∀ h, mi.histogram = some h → mi.chosenBin < h.length ∧ 0 < h.getD mi.chosenBin 0) ∧
      (mi.sampledLength ≠ stateLengthInfinite → mi.counted < mi.sampledLength)
  | .decrements counter => 0 < counter
  | .enters _ => True
  | .spends _ => True

/-- No timer is left behind. -/
def Observation.Clean : Observation → Prop
  | .counts _ => True
  | .decrements _ => True
  | .enters stale => stale = false
  | .spends stranded => stranded = false

instance : DecidablePred Observation.Clean := fun o =>
  match o with
  | .counts _ => .isTrue trivial
  | .decrements _ => .isTrue trivial
  | .enters stale => inferInstanceAs (Decidable (stale = false))
  | .spends stranded => inferInstanceAs (Decidable (stranded = false))

/-- The cells that the state has counted do not exceed the length that was sampled for it. -/
def Runtime.WithinLength (mi : Runtime) : Prop :=
  mi.sampledLength ≠ stateLengthInfinite → mi.counted ≤ mi.sampledLength

def Runtime.TokenReady (mi : Runtime) : Prop :=
  ∀ h, mi.histogram = some h → 0 < h.getD mi.chosenBin 0

structure Settled (spec : Spec) (mi : Runtime) : Prop where
  length : mi.sampledLength = stateLengthInfinite ∧ mi.stateLength = stateLengthInfinite ∨
    mi.sampledLength < stateLengthInfinite ∧ mi.counted + mi.stateLength = mi.sampledLength
  stocked : ∀ h, mi.histogram = some h → ∃ st, spec.currentState mi = some st ∧
    st.tokenRemoval ≠ .none ∧ List.Forall₂ (· ≤ ·) h st.histogram
  /-- The state in which a machine starts has no histogram, whatever its strategy is. -/
  unstocked : mi.histogram = none → (∀ st, spec.currentState mi = some st →
    st.tokenRemoval = .none) ∨ mi.sampledLength = 0

/-- Between the counting of a non-padding cell and its events a timer may be pending although the
length is used up. -/
structure Bare (spec : Spec) (mi : Runtime) : Prop extends Settled spec mi where
  ready : mi.isPaddingTimerScheduled = true → mi.TokenReady ∧ mi.sampledLength ≠ 0

structure Good (spec : Spec) (mi : Runtime) : Prop extends Settled spec mi where
  ready : mi.isPaddingTimerScheduled = true → mi.TokenReady ∧ mi.stateLength ≠ 0

variable {spec : Spec} {d : Draw} {mi mi' : Runtime} {st : State} {h hs : List ℕ} {bin : ℕ}

theorem Settled.withinLength (hm : Settled spec mi) : mi.WithinLength := by
  intro hfinite
  cases hm.length with
  | inl hinf => exact absurd hinf.1 hfinite
  | inr hle => omega

theorem Settled.sampled_ne_zero (hm : Settled spec mi) (hlen : mi.stateLength ≠ 0) :
    mi.sampledLength ≠ 0 := by
  cases hm.length with
  | inl hinf => rw [hinf.1]; decide
  | inr hle => omega

theorem Good.bare (hm : Good spec mi) : Bare spec mi :=
  ⟨hm.toSettled, fun ht => ⟨(hm.ready ht).1, hm.toSettled.sampled_ne_zero (hm.ready ht).2⟩⟩

theorem Bare.good (hm : Bare spec mi) (hlen : mi.isPaddingTimerScheduled = true →
    mi.stateLength ≠ 0) : Good spec mi :=
  ⟨hm.toSettled, fun ht => ⟨(hm.ready ht).1, hlen ht⟩⟩

theorem Settled.good (hm : Settled spec mi) (ht : mi.isPaddingTimerScheduled = false) :
    Good spec mi :=
  ⟨hm, fun h => by rw [ht] at h; cases h⟩

theorem currentState_congr (heq : mi'.currentState = mi.currentState) :
    spec.currentState mi' = spec.currentState mi := by
  unfold Spec.currentState
  rw [heq]

/-- The fields of which the budgets speak. -/
structure SameBudget (mi mi' : Runtime) : Prop where
  histogram : mi'.histogram = mi.histogram
  stateLength : mi'.stateLength = mi.stateLength
  currentState : mi'.currentState = mi.currentState
  sampledLength : mi'.sampledLength = mi.sampledLength
  counted : mi'.counted = mi.counted

theorem Settled.of_length (hm : Settled spec mi) (hhist : mi'.histogram = mi.histogram)
    (hstate : mi'.currentState = mi.currentState) (hsampled : mi'.sampledLength = mi.sampledLength)
    (hlen : mi.sampledLength = stateLengthInfinite ∧ mi'.stateLength = stateLengthInfinite ∨
      mi.sampledLength < stateLengthInfinite ∧ mi'.counted + mi'.stateLength = mi.sampledLength) :
    Settled spec mi' := by
  constructor
  · rw [hsampled]
    exact hlen
  · rw [hhist, currentState_congr hstate]
    exact hm.stocked
  · rw [hhist, currentState_congr hstate, hsampled]
    exact hm.unstocked

theorem Settled.of_same (hm : Settled spec mi) (hs : SameBudget mi mi') : Settled spec mi' := by
  apply hm.of_length hs.histogram hs.currentState hs.sampledLength
  rw [hs.stateLength, hs.counted]
  exact hm.length

theorem Good.of_same (hm : Good spec mi) (hs : SameBudget mi mi')
    (hbin : mi'.chosenBin = mi.chosenBin)
    (ht : mi'.isPaddingTimerScheduled = mi.isPaddingTimerScheduled) : Good spec mi' := by
  constructor
  · exact hm.toSettled.of_same hs
  · intro hpending
    unfold Runtime.TokenReady
    rw [hs.histogram, hbin, hs.stateLength]
    exact hm.ready (ht ▸ hpending)

theorem new_good : Good spec Runtime.new := by
  constructor
  · constructor
    · exact Or.inr ⟨by decide, rfl⟩
    · intro h hh
      cases hh
    · intro _
      exact Or.inr rfl
  · intro ht
    cases ht

/-! ### Tokens -/

theorem predU32_le {t : ℕ} (ht : 0 < t) : predU32 t ≤ t := by
  rw [predU32, if_neg (Nat.pos_iff_ne_zero.mp ht)]
  exact Nat.sub_le _ _

/-- A histogram from which a token has been taken is within the same bounds. -/
theorem spendToken_le (hle : List.Forall₂ (· ≤ ·) h hs) (ht : 0 < h.getD bin 0) :
    List.Forall₂ (· ≤ ·) (spendToken h bin) hs := by
  induction hle generalizing bin with
  | nil => exact List.Forall₂.nil
  | cons hab hle ih =>
    cases bin with
    | zero => exact List.Forall₂.cons (le_trans (predU32_le ht) hab) hle
    | succ bin => exact List.Forall₂.cons hab (ih ht)

theorem getD_le (hle : List.Forall₂ (· ≤ ·) h hs) : h.getD bin 0 ≤ hs.getD bin 0 := by
  induction hle generalizing bin with
  | nil => exact le_refl _
  | cons hab _ ih =>
    cases bin with
    | zero => exact hab
    | succ bin => exact ih

theorem lt_length_of_token (ht : 0 < h.getD bin 0) : bin < h.length := by
  by_contra hge
  rw [List.getD_eq_default _ _ (not_lt.mp hge)] at ht
  exact lt_irrefl 0 ht

theorem Settled.spend (hm : Settled spec mi) (hh : mi.histogram = some h)
    (ht : 0 < h.getD bin 0) : Settled spec { mi with histogram := some (spendToken h bin) } := by
  constructor
  · exact hm.length
  · intro h' hh'
    obtain ⟨st, hst, hremoval, hle⟩ := hm.stocked h hh
    cases hh'
    exact ⟨st, hst, hremoval, spendToken_le hle ht⟩
  · intro hnone
    cases hnone

theorem ensureBinCapacity_holds {b : ℕ} (hb : ensureBinCapacity h b = some bin) :
    0 < h.getD bin 0 := by
  unfold ensureBinCapacity at hb
  split at hb
  · cases hb
  · cases hb
    omega

theorem binToRemove_holds {target : ℕ} (hb : binToRemove st mi h target = some bin) :
    0 < h.getD bin 0 := by
  have hclosest : ∀ useUsec, removeClosestToken st mi h target useUsec = some bin →
      0 < h.getD bin 0 := by
    intro useUsec hc
    unfold removeClosestToken at hc
    cases hlower : firstLowerIndex st mi h target with
    | none =>
      simp only [hlower] at hc
      split_ifs at hc
      exact ensureBinCapacity_holds hc
    | some lower =>
      simp only [hlower] at hc
      split_ifs at hc
      · exact ensureBinCapacity_holds hc
      · exact ensureBinCapacity_holds hc
  unfold binToRemove at hb
  cases hremoval : st.tokenRemoval with
  | none => simp only [hremoval] at hb; cases hb
  | closestUsec => simp only [hremoval] at hb; exact hclosest true hb
  | closest => simp only [hremoval] at hb; exact hclosest false hb
  | higher =>
    simp only [hremoval, removeHigherToken] at hb
    split_ifs at hb
    exact ensureBinCapacity_holds hb
  | lower =>
    simp only [hremoval, removeLowerToken] at hb
    cases hlower : firstLowerIndex st mi h target with
    | none => simp only [hlower] at hb; cases hb
    | some lower =>
      simp only [hlower] at hb
      split_ifs at hb
      exact ensureBinCapacity_holds hb
  | exact =>
    simp only [hremoval, removeExact] at hb
    split_ifs at hb with hpos
    cases hb
    exact hpos

/-! ### Entering a state -/

theorem setupTokens_same (spec : Spec) (mi : Runtime) :
    setupTokens spec mi = { mi with histogram := (setupTokens spec mi).histogram } := by
  unfold setupTokens
  cases spec.currentState mi with
  | none => rfl
  | some st =>
    simp only
    split_ifs <;> rfl

theorem setupTokens_histogram (spec : Spec) (mi : Runtime) :
    (setupTokens spec mi).histogram = (spec.currentState mi).bind fun st =>
      if st.tokenRemoval = .none then none else some st.histogram := by
  unfold setupTokens
  cases spec.currentState mi with
  | none => rfl
  | some st =>
    simp only [Option.bind_some]
    split_ifs <;> rfl

theorem setupTokens_currentState (spec : Spec) (mi : Runtime) :
    spec.currentState (setupTokens spec mi) = spec.currentState mi := by
  apply currentState_congr
  rw [setupTokens_same]

theorem setupTokens_stocked (h : List ℕ) (hh : (setupTokens spec mi).histogram = some h) :
    ∃ st, spec.currentState mi = some st ∧ st.tokenRemoval ≠ .none ∧
      List.Forall₂ (· ≤ ·) h st.histogram := by
  rw [setupTokens_histogram] at hh
  cases hst : spec.currentState mi with
  | none => simp [hst] at hh
  | some st =>
    simp only [hst, Option.bind_some] at hh
    split_ifs at hh with hremoval
    cases hh
    exact ⟨st, rfl, hremoval, List.forall₂_refl _⟩

theorem setupTokens_unstocked (hh : (setupTokens spec mi).histogram = none) :
    ∀ st, spec.currentState mi = some st → st.tokenRemoval = .none := by
  intro st hst
  rw [setupTokens_histogram, hst, Option.bind_some] at hh
  by_contra hremoval
  rw [if_neg hremoval] at hh
  cases hh

theorem Settled.setup (hm : Settled spec mi) : Settled spec (setupTokens spec mi) := by
  constructor
  · rw [setupTokens_same]
    exact hm.length
  · intro h hh
    rw [setupTokens_currentState]
    exact setupTokens_stocked h hh
  · intro hh
    rw [setupTokens_currentState]
    exact Or.inl (setupTokens_unstocked hh)

/-- Refilled bins hold at least the tokens that they held. -/
theorem tokenReady_setup (hm : Settled spec mi) (ht : mi.TokenReady)
    (hlen : mi.sampledLength ≠ 0) : (setupTokens spec mi).TokenReady := by
  intro h' hh'
  have hbin : (setupTokens spec mi).chosenBin = mi.chosenBin := by rw [setupTokens_same]
  rw [hbin]
  rw [setupTokens_histogram] at hh'
  cases hh : mi.histogram with
  | none =>
    cases hm.unstocked hh with
    | inl hnone =>
      cases hst : spec.currentState mi with
      | none => simp [hst] at hh'
      | some st => simp [hst, hnone st hst] at hh'
    | inr hzero => exact absurd hzero hlen
  | some h =>
    obtain ⟨st, hst, hremoval, hle⟩ := hm.stocked h hh
    rw [hst, Option.bind_some, if_neg hremoval] at hh'
    cases hh'
    exact lt_of_lt_of_le (ht h hh) (getD_le hle)

theorem Bare.setup (hm : Bare spec mi) : Bare spec (setupTokens spec mi) := by
  constructor
  · exact hm.toSettled.setup
  · rw [setupTokens_same]
    intro hpending
    have hready := hm.ready hpending
    constructor
    · rw [← setupTokens_same]
      exact tokenReady_setup hm.toSettled hready.1 hready.2
    · exact hready.2

/-- The length that has been sampled is infinite, or it is in the range of an `int64_t`. -/
theorem chooseStateLength_sampled (spec : Spec) (d : Draw) (mi : Runtime) :
    ∃ length, chooseStateLength spec d mi = mi.withLength length ∧
      (length = stateLengthInfinite ∨ length < stateLengthInfinite) := by
  unfold chooseStateLength
  cases spec.currentState mi with
  | none => exact ⟨_, rfl, Or.inl rfl⟩
  | some st =>
    simp only
    split
    · exact ⟨_, rfl, Or.inl rfl⟩
    · apply Exists.intro _
      apply And.intro rfl
      apply Or.inr
      unfold stateLengthInfinite
      omega

theorem enterState_settled {s : Option ℕ} {noted : List Observation}
    (he : enterState s spec d mi = some ((), mi', noted)) : Settled spec mi' := by
  unfold enterState at he
  simp only [Option.some.injEq, Prod.mk.injEq, true_and] at he
  obtain ⟨length, hchosen, hrange⟩ :=
    chooseStateLength_sampled spec d (setupTokens spec { mi with currentState := s })
  rw [← he.1, hchosen]
  constructor
  · cases hrange with
    | inl hinf => exact Or.inl ⟨hinf, hinf⟩
    | inr hlt => exact Or.inr ⟨hlt, Nat.zero_add _⟩
  · intro h hh
    obtain ⟨st, hst, hstock⟩ := setupTokens_stocked h hh
    exact ⟨st, (setupTokens_currentState _ _).trans hst, hstock⟩
  · intro hh
    apply Or.inl
    intro st hst
    exact setupTokens_unstocked hh st ((setupTokens_currentState _ _).symm.trans hst)

theorem enterEnd_good {noted : List Observation}
    (he : enterState none spec d mi = some ((), mi', noted)) : Good spec mi' := by
  have hsettled := enterState_settled he
  have hinf : stateLengthInfinite ≠ 0 := by decide
  cases he
  constructor
  · exact hsettled
  · intro _
    constructor
    · intro h hh
      cases hh
    · exact hinf

theorem Settled.cancel (hm : Settled spec mi) : Good spec mi.cancelPadding := by
  have hs : SameBudget mi mi.cancelPadding := ⟨rfl, rfl, rfl, rfl, rfl⟩
  exact (hm.of_same hs).good rfl

end Budget

/-! Choosing a delay and counting cells keep the budgets of a padding machine
(`circuitpadding.c`). -/

section BudgetSteps
variable {α : Type} {P : Spec → Runtime → Prop} {f : Local α} {Q : α → Spec → Runtime → Prop}
  {spec : Spec} {d : Draw} {mi mi' : Runtime} {st : State} {h : List ℕ} {bin : ℕ}

/-- The step leads from `P` to `Q`, and what it notes is sound. -/
def Takes (P : Spec → Runtime → Prop) (f : Local α) (Q : α → Spec → Runtime → Prop) : Prop :=
  ∀ spec d mi a mi' noted, P spec mi → f spec d mi = some (a, mi', noted) →
    Q a spec mi' ∧ ∀ o ∈ noted, o.Sound

theorem takes_change {g : Spec → Runtime → Runtime} {R : Spec → Runtime → Prop}
    (hg : ∀ spec mi, P spec mi → R spec (g spec mi)) :
    Takes P (fun spec _ mi => some ((), g spec mi, [])) (fun _ => R) := by
  intro spec d mi a mi' noted hm he
  cases he
  exact ⟨hg spec mi hm, fun o ho => nomatch ho⟩

theorem enterState_takes (s : ℕ) : Takes P (enterState (some s)) (fun _ => Settled) := by
  intro spec d mi a mi' noted _ he
  apply And.intro (enterState_settled he)
  cases he
  exact fun o ho => nomatch ho

theorem enterEnd_takes : Takes P (enterState none) (fun _ => Good) := by
  intro spec d mi a mi' noted _ he
  apply And.intro (enterEnd_good he)
  cases he
  exact fun o ho => nomatch ho

/-! ### Delays -/

theorem Settled.chosen (hm : Settled spec mi) (bin : ℕ) :
    Settled spec { mi with chosenBin := bin } := hm.of_same ⟨rfl, rfl, rfl, rfl, rfl⟩

/-- What is known of a machine whose timer is off, once a delay has been chosen for it. -/
structure Delayed (delay : ℕ) (spec : Spec) (mi : Runtime) : Prop where
  settled : Settled spec mi
  off : mi.isPaddingTimerScheduled = false
  ready : delay ≠ delayInfinite → mi.TokenReady

section
variable (hm : Settled spec mi)
include hm

theorem Settled.delayed_infinite (hoff : mi.isPaddingTimerScheduled = false) :
    Delayed delayInfinite spec mi := ⟨hm, hoff, fun hne => absurd rfl hne⟩

theorem Settled.tokenReady_of_none (hst : spec.currentState mi = some st)
    (hnone : st.tokenRemoval = .none) : mi.TokenReady := by
  intro h hh
  obtain ⟨st', hst', hremoval, _⟩ := hm.stocked h hh
  rw [hst] at hst'
  cases hst'
  exact absurd hnone hremoval

theorem delayOfBin_delayed {delay : ℕ} {noted : List Observation}
    (hoff : mi.isPaddingTimerScheduled = false) (hst : spec.currentState mi = some st)
    (ht : 0 < (mi.histogram.getD st.histogram).getD bin 0)
    (he : delayOfBin st d bin spec d mi = some (delay, mi', noted)) :
    Delayed delay spec mi' ∧ ∀ o ∈ noted, o.Sound := by
  have hempty : ∀ o ∈ ([] : List Observation), o.Sound := fun o ho => nomatch ho
  unfold delayOfBin at he
  by_cases hnone : st.tokenRemoval = .none
  · have hready := hm.tokenReady_of_none hst hnone
    simp only [if_pos hnone] at he
    split_ifs at he
    all_goals cases he
    · exact ⟨hm.delayed_infinite hoff, hempty⟩
    · exact ⟨⟨hm, hoff, fun _ => hready⟩, hempty⟩
    · exact ⟨⟨hm, hoff, fun _ => hready⟩, hempty⟩
  · have hchosen : Settled spec { mi with chosenBin := bin } := hm.chosen bin
    have hready : ({ mi with chosenBin := bin } : Runtime).TokenReady := by
      intro h hh
      rw [hh] at ht
      exact ht
    simp only [if_neg hnone] at he
    by_cases hinfinity : st.histogram.length ≤ bin + 1
    · rw [if_pos hinfinity] at he
      cases hh : mi.histogram with
      | none => simp only [hh] at he; cases he
      | some h =>
        have hth : 0 < h.getD bin 0 := by rwa [hh] at ht
        simp only [hh, if_pos hth] at he
        cases he
        apply And.intro
        · exact Settled.delayed_infinite (hchosen.spend hh hth) hoff
        · intro o ho
          cases List.mem_singleton.mp ho
          exact hth
    · rw [if_neg hinfinity] at he
      split_ifs at he
      all_goals cases he
      · exact ⟨⟨hchosen, hoff, fun _ => hready⟩, hempty⟩
      · exact ⟨⟨hchosen, hoff, fun _ => hready⟩, hempty⟩

theorem sampleDelay_delayed {delay : ℕ} {noted : List Observation}
    (hoff : mi.isPaddingTimerScheduled = false)
    (he : sampleDelay spec d mi = some (delay, mi', noted)) :
    Delayed delay spec mi' ∧ ∀ o ∈ noted, o.Sound := by
  have hempty : ∀ o ∈ ([] : List Observation), o.Sound := fun o ho => nomatch ho
  have hinfinite := hm.delayed_infinite hoff
  unfold sampleDelay at he
  cases hst : spec.currentState mi with
  | none => simp only [hst] at he; cases he
  | some st =>
    simp only [hst] at he
    by_cases hiat : st.iatDist = true
    · rw [if_pos hiat] at he
      cases he
      have hready := hm.tokenReady_of_none hst (st.keeps_tokens hiat)
      exact ⟨⟨hm, hoff, fun _ => hready⟩, hempty⟩
    · rw [if_neg hiat] at he
      split at he
      · cases he
        exact ⟨hinfinite, hempty⟩
      · split at he
        · cases he
        · split at he
          · cases he
            exact ⟨hinfinite, hempty⟩
          · split at he
            · cases he
              exact ⟨hinfinite, hempty⟩
            · rename_i htoken
              exact delayOfBin_delayed hm hoff hst (Nat.pos_of_ne_zero htoken) he

end

theorem chooseDelay_takes : Takes Settled chooseDelay Delayed := by
  intro spec d mi delay mi' noted hm he
  obtain ⟨⟨delay', sampled, noted'⟩, hsample, heq⟩ := Option.map_eq_some_iff.mp he
  cases heq
  have hdisabled : Settled spec { mi with isPaddingTimerScheduled := false } :=
    hm.of_same ⟨rfl, rfl, rfl, rfl, rfl⟩
  have hdelayed := sampleDelay_delayed hdisabled rfl hsample
  apply And.intro
  · have hs : SameBudget sampled { sampled with paddingScheduledAtUsec :=
        if sampled.histogram.isSome then d.now else 1 } := ⟨rfl, rfl, rfl, rfl, rfl⟩
    exact ⟨hdelayed.1.settled.of_same hs, hdelayed.1.off, hdelayed.1.ready⟩
  · exact hdelayed.2

/-! ### Cells -/

/-- What a machine needs so that its padding cell may be counted. -/
structure Payable (spec : Spec) (mi : Runtime) : Prop where
  settled : Settled spec mi
  off : mi.isPaddingTimerScheduled = false
  token : mi.TokenReady
  length : mi.stateLength ≠ 0

theorem Payable.sound (hm : Payable spec mi) : (Observation.counts mi).Sound := by
  apply And.intro (Or.inr (Nat.pos_of_ne_zero hm.length))
  apply And.intro
  · intro h hh
    exact ⟨lt_length_of_token (hm.token h hh), hm.token h hh⟩
  · intro hfinite
    have hpos := hm.length
    cases hm.settled.length with
    | inl hinf => exact absurd hinf.1 hfinite
    | inr hle => omega

theorem predU64_add_one {n : ℕ} (hpos : n ≠ 0) : predU64 n + 1 = n := by
  rw [predU64, if_neg hpos]
  omega

/-- A cell is counted against a finite length that is not used up. -/
theorem Settled.spendLength (hm : Settled spec mi) (hfinite : mi.stateLength ≠ stateLengthInfinite)
    (hpos : mi.stateLength ≠ 0) :
    Settled spec { mi.spendLength with counted := mi.counted + 1 } := by
  apply Settled.of_length hm
  · rfl
  · rfl
  · rfl
  · apply Or.inr
    cases hm.length with
    | inl hinf => exact absurd hinf.2 hfinite
    | inr hle =>
      apply And.intro hle.1
      have hpred : predU64 mi.stateLength + 1 = mi.stateLength := predU64_add_one hpos
      change mi.counted + 1 + predU64 mi.stateLength = mi.sampledLength
      omega

theorem Settled.countInfinite (hm : Settled spec mi) (hinf : mi.stateLength = stateLengthInfinite) :
    Settled spec { mi with counted := mi.counted + 1 } := by
  apply Settled.of_length hm
  · rfl
  · rfl
  · rfl
  · cases hm.length with
    | inl h => exact Or.inl h
    | inr hle => omega

theorem countLength_settled (hm : Payable spec mi) :
    Settled spec (countLength mi).1 ∧ ∀ o ∈ (countLength mi).2, o.Sound := by
  unfold countLength
  split_ifs with hfinite
  · apply And.intro (hm.settled.spendLength hfinite.1 hfinite.2)
    intro o ho
    cases List.mem_singleton.mp ho
    exact Nat.pos_of_ne_zero hm.length
  · apply And.intro
    · apply hm.settled.countInfinite
      by_contra hne
      exact hfinite ⟨hne, hm.length⟩
    · exact fun o ho => nomatch ho

theorem countToken_settled (hm : Settled spec mi) :
    Settled spec (countToken mi).1 ∧ ∀ o ∈ (countToken mi).2, o.Sound := by
  unfold countToken
  cases hh : mi.histogram with
  | none => exact ⟨hm, fun o ho => nomatch ho⟩
  | some h =>
    simp only
    split_ifs with htoken
    · have hpos := Nat.pos_of_ne_zero htoken.2
      apply And.intro (hm.spend hh hpos)
      intro o ho
      cases List.mem_singleton.mp ho
      exact hpos
    · exact ⟨hm, fun o ho => nomatch ho⟩

theorem countToken_timer :
    (countToken mi).1.isPaddingTimerScheduled = mi.isPaddingTimerScheduled := by
  unfold countToken
  cases mi.histogram with
  | none => rfl
  | some h =>
    simp only
    split_ifs <;> rfl

theorem countLength_timer :
    (countLength mi).1.isPaddingTimerScheduled = mi.isPaddingTimerScheduled := by
  unfold countLength
  split_ifs <;> rfl

theorem halved_same (mi : Runtime) (count : ℕ) : mi.halved count = { mi with
      paddingSent := (mi.halved count).paddingSent
      nonpaddingSent := (mi.halved count).nonpaddingSent } := by
  unfold Runtime.halved
  split_ifs <;> rfl

theorem Settled.halved (hm : Settled spec mi) (count : ℕ) : Settled spec (mi.halved count) := by
  rw [halved_same]
  exact hm.of_same ⟨rfl, rfl, rfl, rfl, rfl⟩

theorem countPaddingSent_takes : Takes Payable countPaddingSent (fun _ => Good) := by
  intro spec d mi a mi' noted hm he
  have hlength := countLength_settled hm
  have hsent : Settled spec { (countLength mi).1 with
      paddingSent := (countLength mi).1.paddingSent + 1 } :=
    hlength.1.of_same ⟨rfl, rfl, rfl, rfl, rfl⟩
  have htoken := countToken_settled (hsent.halved ((countLength mi).1.paddingSent + 1))
  cases he
  apply And.intro
  · apply htoken.1.good
    rw [countToken_timer, halved_same]
    exact countLength_timer.trans hm.off
  · intro o ho
    simp only [List.append_assoc, List.mem_append, List.mem_singleton] at ho
    cases ho with
    | inl h => exact htoken.2 o h
    | inr ho =>
      cases ho with
      | inl h => exact hlength.2 o h
      | inr h =>
        rw [h]
        exact hm.sound

theorem updateStateLengthForNonpadding_bare (hm : Good spec mi) :
    Bare spec (updateStateLengthForNonpadding spec mi).1 ∧
      ∀ o ∈ (updateStateLengthForNonpadding spec mi).2, o.Sound := by
  have hbare : Bare spec mi ∧ ∀ o ∈ ([] : List Observation), o.Sound :=
    ⟨hm.bare, fun o ho => nomatch ho⟩
  unfold updateStateLengthForNonpadding
  split_ifs with hinf
  · exact hbare
  · cases hst : spec.currentState mi with
    | none => exact hbare
    | some st =>
      simp only
      split_ifs with hcounts
      · have hpos : mi.stateLength ≠ 0 := Nat.pos_iff_ne_zero.mp hcounts.2
        apply And.intro
        · constructor
          · exact hm.toSettled.spendLength hinf hpos
          · exact fun hpending => hm.bare.ready hpending
        · intro o ho
          cases List.mem_singleton.mp ho
          exact hcounts.2
      · exact hbare

/-- A non-padding cell takes a token only after the timer has been cancelled. -/
theorem removeToken_takes : Takes Bare removeToken (fun _ => Bare) := by
  intro spec d mi a mi' noted hm he
  have hempty : ∀ o ∈ ([] : List Observation), o.Sound := fun o ho => nomatch ho
  have hcancel := hm.toSettled.cancel
  unfold removeToken at he
  split_ifs at he
  · cases he
    exact ⟨hm, hempty⟩
  · cases hst : spec.currentState mi with
    | none =>
      simp only [hst] at he
      cases he
      exact ⟨hm, hempty⟩
    | some st =>
      simp only [hst] at he
      split at he
      · cases he
        exact ⟨hm, hempty⟩
      · cases hh : mi.histogram with
        | none =>
          simp only [hh] at he
          split at he
          · cases he
            exact ⟨hcancel.bare, hempty⟩
          · cases he
        | some h =>
          simp only [hh] at he
          split at he
          · cases he
            exact ⟨hcancel.bare, hempty⟩
          · rename_i bin hbin
            have htoken := binToRemove_holds hbin
            cases he
            apply And.intro
            · exact (Settled.good (hcancel.toSettled.spend hh htoken) rfl).bare
            · intro o ho
              cases List.mem_singleton.mp ho
              exact htoken

theorem countNonpaddingSent_takes : Takes Good countNonpaddingSent (fun _ => Bare) := by
  intro spec d mi a mi' noted hm he
  have hsent : Good spec { mi with nonpaddingSent := mi.nonpaddingSent + 1 } :=
    hm.of_same ⟨rfl, rfl, rfl, rfl, rfl⟩ rfl rfl
  have hhalved : Good spec (Runtime.halved { mi with nonpaddingSent := mi.nonpaddingSent + 1 }
      (mi.nonpaddingSent + 1)) := by
    rw [halved_same]
    exact hsent.of_same ⟨rfl, rfl, rfl, rfl, rfl⟩ rfl rfl
  have hspent := updateStateLengthForNonpadding_bare hhalved
  obtain ⟨⟨u, taken, tokens⟩, hremove, heq⟩ := Option.map_eq_some_iff.mp he
  cases heq
  have htaken := removeToken_takes spec d _ u _ tokens hspent.1 hremove
  apply And.intro htaken.1
  intro o ho
  cases List.mem_append.mp ho with
  | inl h => exact htaken.2 o h
  | inr h => exact hspent.2 o h

theorem estimateCircRttOnReceived_takes (isOrigin : Bool) (w : World) :
    Takes Good (estimateCircRttOnReceived isOrigin w) (fun _ => Good) := by
  intro spec d mi a mi' noted hm he
  have hempty : ∀ o ∈ ([] : List Observation), o.Sound := fun o ho => nomatch ho
  unfold estimateCircRttOnReceived at he
  split_ifs at he
  · cases he
    exact ⟨hm, hempty⟩
  · cases he
    exact ⟨hm.of_same ⟨rfl, rfl, rfl, rfl, rfl⟩ rfl rfl, hempty⟩
  · cases he
    exact ⟨hm, hempty⟩
  · split at he
    · cases he
      exact ⟨hm, hempty⟩
    · split_ifs at he
      all_goals cases he
      · exact ⟨hm.of_same ⟨rfl, rfl, rfl, rfl, rfl⟩ rfl rfl, hempty⟩
      · exact ⟨hm.of_same ⟨rfl, rfl, rfl, rfl, rfl⟩ rfl rfl, hempty⟩

theorem estimateCircRttOnSend_takes (isOrigin : Bool) (w : World) :
    Takes Good (estimateCircRttOnSend isOrigin w) (fun _ => Good) := by
  intro spec d mi a mi' noted hm he
  have hempty : ∀ o ∈ ([] : List Observation), o.Sound := fun o ho => nomatch ho
  have hsame : ∀ mi', SameBudget mi mi' → mi'.chosenBin = mi.chosenBin →
      mi'.isPaddingTimerScheduled = mi.isPaddingTimerScheduled → Good spec mi' :=
    fun mi' => hm.of_same
  unfold estimateCircRttOnSend at he
  split at he
  · cases he
    exact ⟨hm, hempty⟩
  · split at he
    · dsimp only at he
      split at he
      · cases he
        exact ⟨hsame _ ⟨rfl, rfl, rfl, rfl, rfl⟩ rfl rfl, hempty⟩
      · split at he
        · cases he
          exact ⟨hsame _ ⟨rfl, rfl, rfl, rfl, rfl⟩ rfl rfl, hempty⟩
        · cases he
          exact ⟨hsame _ ⟨rfl, rfl, rfl, rfl, rfl⟩ rfl rfl, hempty⟩
    · cases he
      split
      · exact ⟨hsame _ ⟨rfl, rfl, rfl, rfl, rfl⟩ rfl rfl, hempty⟩
      · exact ⟨hm, hempty⟩

end BudgetSteps

end TorDaemon.Padding.Machine

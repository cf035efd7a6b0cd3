import Mathlib.Data.Nat.Dist
import TorDaemon.Padding.Sampling

/-! The bin of a delay and the bin that loses a token for it
(`circpad_histogram_usec_to_bin` and `circpad_machine_remove_closest_token`). -/
namespace TorDaemon.Padding.Machine

section Searches
variable {p : ℕ → Bool} {n b : ℕ}

theorem find?_reverse_range_eq_some : (List.range n).reverse.find? p = some b ↔
    b < n ∧ p b = true ∧ ∀ j, b < j → j < n → p j = false := by
  induction n with
  | zero => simp
  | succ n ih =>
    rw [List.range_succ, List.reverse_append, List.reverse_singleton, List.singleton_append]
    cases hn : p n with
    | true =>
      rw [List.find?_cons_of_pos hn, Option.some.injEq]
      constructor
      · rintro rfl
        exact ⟨Nat.lt_succ_self _, hn, fun j hlow hhigh => by omega⟩
      · rintro ⟨hb, -, hafter⟩
        by_contra hne
        rw [hafter n (by omega) (Nat.lt_succ_self n)] at hn
        cases hn
    | false =>
      rw [List.find?_cons_of_neg (by simp [hn]), ih]
      constructor
      · rintro ⟨hb, hat, hafter⟩
        refine ⟨by omega, hat, fun j hlow hhigh => ?_⟩
        by_cases hj : j = n
        · rw [hj, hn]
        · exact hafter j hlow (by omega)
      · rintro ⟨hb, hat, hafter⟩
        have hne : b ≠ n := by
          rintro rfl
          rw [hat] at hn
          cases hn
        exact ⟨by omega, hat, fun j hlow hhigh => hafter j hlow (by omega)⟩

end Searches

/-! ### Bounds of the bins -/

section Bounds
variable {st : State} {mi : Runtime} {h : List ℕ} {usec bin own : ℕ} {b a higher : ℕ}

/-- The edges increase and none overflows with the estimate. -/
structure Ordered (st : State) (mi : Runtime) : Prop where
  valid : st.isValid = true
  bins : 2 ≤ st.histogram.length
  fits : ∀ b < st.histogram.length, st.histogramEdges.getD b 0 + rttAddUsec st mi < 2 ^ 32

section
variable (hord : Ordered st mi)
include hord

theorem Ordered.binToUsec (hb : b < st.histogram.length) :
    histogramBinToUsec st mi b = st.histogramEdges.getD b 0 + rttAddUsec st mi := by
  rw [histogramBinToUsec, if_neg (Nat.not_le.mpr hb), Nat.mod_eq_of_lt (hord.fits b hb)]

theorem Ordered.binToUsec_lt_succ
    (hb : b + 1 < st.histogram.length) :
    histogramBinToUsec st mi b < histogramBinToUsec st mi (b + 1) := by
  have hvalid := hord.valid
  rw [State.isValid, if_neg (by omega), if_neg (by omega), Bool.and_eq_true,
    List.all_eq_true] at hvalid
  have hedge := hvalid.1 (b + 1) (List.mem_range.mpr hb)
  simp only [Nat.add_eq_zero_iff, Nat.one_ne_zero, and_false, decide_false, Bool.false_or,
    Nat.add_sub_cancel, decide_eq_true_eq] at hedge
  rw [hord.binToUsec hb, hord.binToUsec (Nat.lt_of_succ_lt hb)]
  omega

theorem Ordered.binToUsec_mono (hab : a ≤ b)
    (hb : b < st.histogram.length) : histogramBinToUsec st mi a ≤ histogramBinToUsec st mi b := by
  induction b, hab using Nat.le_induction with
  | base => rfl
  | succ b hab ih => exact (ih (Nat.lt_of_succ_lt hb)).trans (hord.binToUsec_lt_succ hb).le

theorem Ordered.binToUsec_lt (hb : b < st.histogram.length) :
    histogramBinToUsec st mi b < 2 ^ 32 := by
  rw [hord.binToUsec hb]
  exact hord.fits b hb

theorem Ordered.upperBound_succ
    (hb : b + 1 < st.histogram.length) :
    histogramGetBinUpperBound st mi b + 1 = histogramBinToUsec st mi (b + 1) := by
  have hlt := hord.binToUsec_lt_succ hb
  have hfits := hord.binToUsec_lt hb
  rw [histogramGetBinUpperBound]
  omega

theorem Ordered.lower_le_upper (hb : b + 1 < st.histogram.length) :
    histogramBinToUsec st mi b ≤ histogramGetBinUpperBound st mi b := by
  have hlt := hord.binToUsec_lt_succ hb
  have hupper := hord.upperBound_succ hb
  omega

theorem Ordered.upper_lt_lower (hab : a < b) (hb : b < st.histogram.length) :
    histogramGetBinUpperBound st mi a < histogramBinToUsec st mi b := by
  have hupper := hord.upperBound_succ (Nat.lt_of_le_of_lt hab hb)
  have hmono := hord.binToUsec_mono (show a + 1 ≤ b from hab) hb
  omega

theorem Ordered.midpoint (hb : b + 1 < st.histogram.length) :
    histogramBinToUsec st mi b ≤ getHistogramBinMidpoint st mi b ∧
      getHistogramBinMidpoint st mi b ≤ histogramGetBinUpperBound st mi b := by
  have hle := hord.lower_le_upper hb
  have hupper := hord.upperBound_succ hb
  have hfits := hord.binToUsec_lt hb
  simp only [getHistogramBinMidpoint]
  omega

end

/-! ### The bin of a delay -/

/-- The bin, but not the infinity bin, that contains a delay, or the first or last such bin for
a delay below or above all of them. -/
def IsBinOf (st : State) (mi : Runtime) (usec bin : ℕ) : Prop :=
  bin + 1 < st.histogram.length ∧
    (histogramBinToUsec st mi bin ≤ usec ∧ usec ≤ histogramGetBinUpperBound st mi bin ∨
      bin = 0 ∧ usec < histogramBinToUsec st mi 0 ∨
      bin + 2 = st.histogram.length ∧ histogramGetBinUpperBound st mi bin < usec)

instance : Decidable (IsBinOf st mi usec bin) := inferInstanceAs (Decidable (_ ∧ _))

theorem Ordered.isBinOf_iff (hord : Ordered st mi) : IsBinOf st mi usec bin ↔
    bin + 1 < st.histogram.length ∧ (bin = 0 ∨ histogramBinToUsec st mi bin ≤ usec) ∧
      (bin + 2 = st.histogram.length ∨ usec ≤ histogramGetBinUpperBound st mi bin) := by
  apply and_congr_right
  intro hb
  have hle := hord.lower_le_upper hb
  by_cases hzero : bin = 0
  · subst hzero
    omega
  · omega

theorem Ordered.isBinOf_unique (hord : Ordered st mi) (hbin : IsBinOf st mi usec bin)
    (hb : IsBinOf st mi usec b) : b = bin := by
  obtain ⟨hlength, hlower, hupper⟩ := hord.isBinOf_iff.mp hbin
  obtain ⟨hlength', hlower', hupper'⟩ := hord.isBinOf_iff.mp hb
  rcases Nat.lt_trichotomy b bin with hlt | heq | hgt
  · have hbound := hord.upper_lt_lower hlt (by omega)
    omega
  · exact heq
  · have hbound := hord.upper_lt_lower hgt (by omega)
    omega

/-- The first bin that ends at the delay or above it, if there is one before the last. -/
theorem find?_getD_spec (reaches : ℕ → Bool) (hbins : 2 ≤ st.histogram.length) :
    ((List.range (st.histogram.length - 1)).find? reaches).getD (st.histogram.length - 2) = bin ↔
      bin + 1 < st.histogram.length ∧ (∀ b < bin, reaches b = false) ∧
        (bin + 2 = st.histogram.length ∨ reaches bin = true) := by
  cases hfind : (List.range (st.histogram.length - 1)).find? reaches with
  | none =>
    have hnone : ∀ b, b + 1 < st.histogram.length → reaches b = false := by
      intro b hb
      simpa using List.find?_eq_none.mp hfind b (List.mem_range.mpr (by omega))
    rw [Option.getD_none]
    constructor
    · rintro rfl
      exact ⟨by omega, fun b hb => hnone b (by omega), .inl (by omega)⟩
    · rintro ⟨hlength, -, hlast⟩
      cases hlast with
      | inl hlast => omega
      | inr hreach =>
        rw [hnone bin hlength] at hreach
        cases hreach
  | some b =>
    obtain ⟨hreach, hmem, hbefore⟩ := List.find?_range_eq_some.mp hfind
    have hb := List.mem_range.mp hmem
    have hbefore : ∀ j < b, reaches j = false := fun j hj => by simpa using hbefore j hj
    rw [Option.getD_some]
    constructor
    · rintro rfl
      exact ⟨by omega, hbefore, .inr hreach⟩
    · rintro ⟨hlength, hbefore', hlast⟩
      rcases Nat.lt_trichotomy b bin with hlt | heq | hgt
      · rw [hbefore' b hlt] at hreach
        cases hreach
      · exact heq
      · cases hlast with
        | inl hlast => omega
        | inr hreach' =>
          rw [hbefore bin hgt] at hreach'
          cases hreach'

theorem Ordered.exists_isBinOf (hord : Ordered st mi) (usec : ℕ) :
    ∃ bin, IsBinOf st mi usec bin := by
  obtain ⟨hlength, hbefore, hlast⟩ := (find?_getD_spec
    (fun b => decide (usec ≤ histogramGetBinUpperBound st mi b)) hord.bins).mp rfl
  refine ⟨_, hord.isBinOf_iff.mpr ⟨hlength, ?_, hlast.imp_right of_decide_eq_true⟩⟩
  generalize (Option.getD _ _ : ℕ) = bin at hlength hbefore hlast ⊢
  cases bin with
  | zero => exact .inl rfl
  | succ bin =>
    have hbelow := of_decide_eq_false (hbefore bin (Nat.lt_succ_self bin))
    have hupper := hord.upperBound_succ (by omega : bin + 1 < st.histogram.length)
    omega

/-- With the estimate added once more no bin that ends below the delay reaches it, and the bin
of the delay still does. The last bin before the infinity bin is not looked at. -/
def ShiftHarmless (st : State) (mi : Runtime) (usec : ℕ) : Prop :=
  ∀ b, b + 2 < st.histogram.length →
    (histogramGetBinUpperBound st mi b < usec →
      (histogramGetBinUpperBound st mi b + rttAddUsec st mi) % 2 ^ 32 < usec) ∧
    (IsBinOf st mi usec b →
      usec ≤ (histogramGetBinUpperBound st mi b + rttAddUsec st mi) % 2 ^ 32)

theorem Ordered.usecToBin_iff (hord : Ordered st mi) :
    IsBinOf st mi usec (histogramUsecToBin st mi usec) ↔ ShiftHarmless st mi usec := by
  obtain ⟨hlength, hbefore, hlast⟩ := (find?_getD_spec (fun b => decide
    (usec ≤ (histogramGetBinUpperBound st mi b + rttAddUsec st mi) % 2 ^ 32)) hord.bins).mp rfl
  change IsBinOf st mi usec (Option.getD _ _) ↔ _
  generalize (Option.getD _ _ : ℕ) = found at hlength hbefore hlast ⊢
  simp only [decide_eq_false_iff_not, decide_eq_true_eq, Nat.not_le] at hbefore hlast
  constructor
  · intro hfound b hb
    obtain ⟨-, -, hupper⟩ := hord.isBinOf_iff.mp hfound
    constructor
    · intro hbelow
      apply hbefore
      by_contra hle
      have hmono := hord.binToUsec_mono (Nat.succ_le_succ (Nat.not_lt.mp hle)) (by omega)
      rw [← hord.upperBound_succ hlength, ← hord.upperBound_succ (by omega)] at hmono
      omega
    · intro hown
      have heq := hord.isBinOf_unique hfound hown
      rw [heq] at hb ⊢
      omega
  · intro hharmless
    obtain ⟨own, hown⟩ := hord.exists_isBinOf usec
    obtain ⟨hown_lt, hlower, hupper⟩ := hord.isBinOf_iff.mp hown
    suffices heq : found = own by rwa [heq]
    rcases Nat.lt_trichotomy found own with hlt | heq | hgt
    · have hbound := hord.upper_lt_lower hlt (by omega)
      have hshift := (hharmless found (by omega)).1 (by omega)
      omega
    · exact heq
    · have hreach := (hharmless own (by omega)).2 hown
      have hbelow := hbefore own hgt
      omega

/-! ### The bin that loses a token -/

/-- The bins below the own bin in which the search finds no tokens, and the one where it ends. -/
theorem Ordered.firstLowerIndex_spec (hord : Ordered st mi)
    (hown : IsBinOf st mi usec (histogramUsecToBin st mi usec)) :
    (firstLowerIndex st mi h usec = none ∧
      (∀ b < histogramUsecToBin st mi usec, h.getD b 0 = 0) ∧
      (h.getD (histogramUsecToBin st mi usec) 0 = 0 ∨
        usec < histogramBinToUsec st mi (histogramUsecToBin st mi usec))) ∨
    ∃ b ≤ histogramUsecToBin st mi usec, firstLowerIndex st mi h usec = some b ∧
      h.getD b 0 ≠ 0 ∧ ∀ j, b < j → j ≤ histogramUsecToBin st mi usec → h.getD j 0 = 0 := by
  unfold firstLowerIndex
  generalize histogramUsecToBin st mi usec = own at hown ⊢
  obtain ⟨hlength, hlower, -⟩ := hord.isBinOf_iff.mp hown
  have hbelow : ∀ j ≤ own, 0 < own → histogramBinToUsec st mi j ≤ usec := by
    intro j hj hpos
    have hmono := hord.binToUsec_mono hj (by omega)
    omega
  cases hfind : (List.range (own + 1)).reverse.find? _ with
  | none =>
    have hnone : ∀ j ≤ own, ¬ (h.getD j 0 ≠ 0 ∧ histogramBinToUsec st mi j ≤ usec) := by
      intro j hj
      simpa using List.find?_eq_none.mp hfind j
        (List.mem_reverse.mpr (List.mem_range.mpr (Nat.lt_succ_of_le hj)))
    refine .inl ⟨rfl, fun b hb => ?_, ?_⟩
    · by_contra htokens
      exact hnone b hb.le ⟨htokens, hbelow b hb.le (by omega)⟩
    · have hlast := hnone own le_rfl
      omega
  | some b =>
    obtain ⟨hb, hat, hafter⟩ := find?_reverse_range_eq_some.mp hfind
    simp only [decide_eq_true_eq, decide_eq_false_iff_not] at hat hafter
    refine .inr ⟨b, Nat.le_of_lt_succ hb, rfl, hat.1, fun j hlow hhigh => ?_⟩
    by_contra htokens
    exact hafter j hlow (Nat.lt_succ_of_le hhigh) ⟨htokens, hbelow j hhigh (by omega)⟩

theorem Ordered.firstHigherIndex_spec (hord : Ordered st mi)
    (hlength : h.length = st.histogram.length)
    (hown : IsBinOf st mi usec (histogramUsecToBin st mi usec)) :
    (firstHigherIndex st mi h usec = h.length ∧
      (∀ b, histogramUsecToBin st mi usec < b → b + 1 < h.length → h.getD b 0 = 0) ∧
      (h.getD (histogramUsecToBin st mi usec) 0 = 0 ∨
        histogramGetBinUpperBound st mi (histogramUsecToBin st mi usec) < usec)) ∨
    ∃ b, histogramUsecToBin st mi usec ≤ b ∧ b + 1 < h.length ∧
      firstHigherIndex st mi h usec = b ∧ h.getD b 0 ≠ 0 ∧
      ∀ j, histogramUsecToBin st mi usec ≤ j → j < b → h.getD j 0 = 0 := by
  unfold firstHigherIndex
  dsimp only
  generalize histogramUsecToBin st mi usec = own at hown ⊢
  obtain ⟨hown_lt, -, hupper⟩ := hord.isBinOf_iff.mp hown
  have habove : ∀ j, own ≤ j → j + 1 < h.length → own + 2 < st.histogram.length →
      usec ≤ histogramGetBinUpperBound st mi j := by
    intro j hj hj_lt hinner
    have hmono := hord.binToUsec_mono (Nat.succ_le_succ hj) (by omega)
    have hsucc := hord.upperBound_succ hown_lt
    have hsucc' := hord.upperBound_succ (b := j) (by omega)
    simp only [Nat.succ_eq_add_one] at hmono
    omega
  cases hfind : (List.range' own (h.length - 1 - own)).find? _ with
  | none =>
    have hnone : ∀ j, own ≤ j → j + 1 < h.length →
        ¬ (h.getD j 0 ≠ 0 ∧ usec ≤ histogramGetBinUpperBound st mi j) := by
      intro j hj hj_lt
      simpa using List.find?_eq_none.mp hfind j (List.mem_range'_1.mpr (by omega))
    refine .inl ⟨rfl, fun b hb hb_lt => ?_, ?_⟩
    · by_contra htokens
      exact hnone b hb.le hb_lt ⟨htokens, habove b hb.le hb_lt (by omega)⟩
    · have hfirst := hnone own le_rfl (by omega)
      omega
  | some b =>
    obtain ⟨hat, hmem, hbefore⟩ := List.find?_range'_eq_some.mp hfind
    have hb := List.mem_range'_1.mp hmem
    simp only [decide_eq_true_eq] at hat
    refine .inr ⟨b, hb.1, by omega, rfl, hat.1, fun j hj hj_lt => ?_⟩
    have hnot := hbefore j hj hj_lt
    rw [Bool.not_eq_true', decide_eq_false_iff_not] at hnot
    by_contra htokens
    exact hnot ⟨htokens, habove j hj (by omega) (by omega)⟩

/-- How far a bin is from a delay: by the midpoint, or by the index. -/
def distance (st : State) (mi : Runtime) (usec own : ℕ) (useUsec : Bool) (bin : ℕ) : ℕ :=
  if useUsec then Nat.dist (getHistogramBinMidpoint st mi bin) usec else Nat.dist bin own

/-- A bin with tokens that is nearest to a delay: its own bin, or else one at the least
distance. -/
structure IsNearest (st : State) (mi : Runtime) (h : List ℕ) (usec own : ℕ) (useUsec : Bool)
    (bin : ℕ) : Prop where
  bin_lt : bin + 1 < h.length
  tokens : h.getD bin 0 ≠ 0
  contains : h.getD own 0 ≠ 0 → bin = own
  closest : h.getD own 0 = 0 → ∀ b, b + 1 < h.length → h.getD b 0 ≠ 0 →
    distance st mi usec own useUsec bin ≤ distance st mi usec own useUsec b

section
variable (hord : Ordered st mi)
include hord

section
variable (hown : IsBinOf st mi usec own)
include hown

/-- Of two bins on one side the one that is nearer by index is nearer by midpoint too. -/
theorem Ordered.distance_le_below
    (hba : b ≤ a) (ha : a < own) (useUsec : Bool) :
    distance st mi usec own useUsec a ≤ distance st mi usec own useUsec b := by
  obtain ⟨hown_lt, hlower, -⟩ := hord.isBinOf_iff.mp hown
  have hmid_a := hord.midpoint (b := a) (by omega)
  have hmid_b := hord.midpoint (b := b) (by omega)
  have hbound := hord.upper_lt_lower ha (by omega)
  cases useUsec with
  | false =>
    simp only [distance, Bool.false_eq_true, if_false, Nat.dist]
    omega
  | true =>
    simp only [distance, if_true, Nat.dist]
    rcases Nat.eq_or_lt_of_le hba with rfl | hlt
    · rfl
    · have hstep := hord.upper_lt_lower hlt (by omega)
      omega

theorem Ordered.distance_le_above
    (hab : a ≤ b) (ha : own < a) (hb : b + 1 < st.histogram.length) (useUsec : Bool) :
    distance st mi usec own useUsec a ≤ distance st mi usec own useUsec b := by
  obtain ⟨hown_lt, -, hupper⟩ := hord.isBinOf_iff.mp hown
  have hmid_a := hord.midpoint (b := a) (by omega)
  have hmid_b := hord.midpoint hb
  have hbound := hord.upper_lt_lower ha (by omega)
  cases useUsec with
  | false =>
    simp only [distance, Bool.false_eq_true, if_false, Nat.dist]
    omega
  | true =>
    simp only [distance, if_true, Nat.dist]
    rcases Nat.eq_or_lt_of_le hab with rfl | hlt
    · rfl
    · have hstep := hord.upper_lt_lower hlt (by omega)
      omega

/-- Between a bin below and one above, `circpad_machine_remove_closest_token` takes the one at the
smaller distance. -/
theorem Ordered.closerBin_spec
    {lower : ℕ} (hlower : lower < own) (hhigher : own < higher)
    (hhigher_lt : higher + 1 < st.histogram.length) (useUsec : Bool) :
    (closerBin st mi usec lower higher own useUsec = lower ∧
      distance st mi usec own useUsec lower ≤ distance st mi usec own useUsec higher) ∨
    (closerBin st mi usec lower higher own useUsec = higher ∧
      distance st mi usec own useUsec higher ≤ distance st mi usec own useUsec lower) := by
  obtain ⟨hown_lt, hown_lower, hown_upper⟩ := hord.isBinOf_iff.mp hown
  cases useUsec with
  | false =>
    simp only [closerBin, distance, Bool.false_eq_true, if_false, Nat.dist]
    split_ifs with hcloser
    · exact .inr ⟨rfl, by omega⟩
    · exact .inl ⟨rfl, by omega⟩
  | true =>
    have hmid_low := hord.midpoint (b := lower) (by omega)
    have hmid_high := hord.midpoint hhigher_lt
    have hbound_low := hord.upper_lt_lower hlower (by omega)
    have hbound_high := hord.upper_lt_lower hhigher (by omega)
    have hfits := hord.binToUsec_lt hhigher_lt
    have hsucc := hord.upperBound_succ hhigher_lt
    simp only [closerBin, distance, if_true, Nat.dist]
    rw [if_neg (by omega), if_neg (by omega)]
    split_ifs with hcloser
    · exact .inr ⟨rfl, by omega⟩
    · exact .inl ⟨rfl, by omega⟩

end

end

theorem closerBin_self (useUsec : Bool) : closerBin st mi usec bin bin own useUsec = bin := by
  unfold closerBin
  dsimp only
  split_ifs <;> rfl

section
variable (hord : Ordered st mi)
include hord

section
variable (hown : IsBinOf st mi usec own)
include hown

theorem Ordered.closest_below {lower : ℕ} (hle : lower ≤ own) (htokens : h.getD lower 0 ≠ 0)
    (hempty : ∀ j, lower < j → j ≤ own → h.getD j 0 = 0) (hown_empty : h.getD own 0 = 0)
    (useUsec : Bool) : lower < own ∧ ∀ b ≤ own, h.getD b 0 ≠ 0 →
      distance st mi usec own useUsec lower ≤ distance st mi usec own useUsec b := by
  have hlt : lower < own := by
    apply lt_of_le_of_ne hle
    rintro rfl
    exact htokens hown_empty
  refine ⟨hlt, fun b hb hb_tokens => ?_⟩
  have hb_low : b ≤ lower := by
    by_contra hnot
    exact hb_tokens (hempty b (Nat.not_le.mp hnot) hb)
  exact hord.distance_le_below hown hb_low hlt useUsec

theorem Ordered.closest_above
    (hlength : h.length = st.histogram.length) (hge : own ≤ higher)
    (htokens : h.getD higher 0 ≠ 0) (hempty : ∀ j, own ≤ j → j < higher → h.getD j 0 = 0)
    (hown_empty : h.getD own 0 = 0) (useUsec : Bool) :
    own < higher ∧ ∀ b, own ≤ b → b + 1 < h.length → h.getD b 0 ≠ 0 →
      distance st mi usec own useUsec higher ≤ distance st mi usec own useUsec b := by
  have hlt : own < higher := by
    apply lt_of_le_of_ne hge
    rintro rfl
    exact htokens hown_empty
  refine ⟨hlt, fun b hb hb_lt hb_tokens => ?_⟩
  have hb_high : higher ≤ b := by
    by_contra hnot
    exact hb_tokens (hempty b hb (Nat.not_le.mp hnot))
  exact hord.distance_le_above hown hb_high hlt (by omega) useUsec

/-- Where both searches find a bin, the guards let the closer one through. -/
theorem Ordered.closerBin_nearest
    {lower : ℕ} (hlength : h.length = st.histogram.length) (hle : lower ≤ own)
    (htokens_low : h.getD lower 0 ≠ 0) (hempty_low : ∀ j, lower < j → j ≤ own → h.getD j 0 = 0)
    (hge : own ≤ higher) (hhigher_lt : higher + 1 < h.length) (htokens : h.getD higher 0 ≠ 0)
    (hempty_high : ∀ j, own ≤ j → j < higher → h.getD j 0 = 0) (useUsec : Bool) :
    h.getD (closerBin st mi usec lower higher own useUsec) 0 ≠ 0 ∧
      IsNearest st mi h usec own useUsec (closerBin st mi usec lower higher own useUsec) := by
  by_cases hown_empty : h.getD own 0 = 0
  · obtain ⟨hlt, hbelow⟩ := hord.closest_below hown hle htokens_low hempty_low hown_empty useUsec
    obtain ⟨hgt, habove⟩ :=
      hord.closest_above hown hlength hge htokens hempty_high hown_empty useUsec
    have hclosest (bin : ℕ)
        (hlow : distance st mi usec own useUsec bin ≤ distance st mi usec own useUsec lower)
        (hhigh : distance st mi usec own useUsec bin ≤ distance st mi usec own useUsec higher) :
        ∀ b, b + 1 < h.length → h.getD b 0 ≠ 0 →
          distance st mi usec own useUsec bin ≤ distance st mi usec own useUsec b := by
      intro b hb hb_tokens
      by_cases hside : b ≤ own
      · exact hlow.trans (hbelow b hside hb_tokens)
      · exact hhigh.trans (habove b (Nat.not_le.mp hside).le hb hb_tokens)
    rcases hord.closerBin_spec hown hlt hgt (by omega) useUsec with ⟨hbin, hdist⟩ | ⟨hbin, hdist⟩
    · rw [hbin]
      exact ⟨htokens_low, by omega, htokens_low, fun hne => absurd hown_empty hne,
        fun _ => hclosest lower le_rfl hdist⟩
    · rw [hbin]
      exact ⟨htokens, hhigher_lt, htokens, fun hne => absurd hown_empty hne,
        fun _ => hclosest higher hdist le_rfl⟩
  · have hlow : lower = own := by
      by_contra hne
      exact hown_empty (hempty_low own (by omega) le_rfl)
    have hhigh : higher = own := by
      by_contra hne
      exact hown_empty (hempty_high own le_rfl (by omega))
    rw [hlow, hhigh, closerBin_self]
    exact ⟨hown_empty, by omega, hown_empty, fun _ => rfl, fun hempty => absurd hempty hown_empty⟩

end

theorem Ordered.removeClosestToken_spec
    (hlength : h.length = st.histogram.length)
    (hown : IsBinOf st mi usec (histogramUsecToBin st mi usec))
    (hex : ∃ b, b + 1 < h.length ∧ h.getD b 0 ≠ 0) (useUsec : Bool) :
    ∃ b, removeClosestToken st mi h usec useUsec = some b ∧
      IsNearest st mi h usec (histogramUsecToBin st mi usec) useUsec b := by
  have hlower := hord.firstLowerIndex_spec (h := h) hown
  have hhigher := hord.firstHigherIndex_spec hlength hown
  unfold removeClosestToken
  generalize histogramUsecToBin st mi usec = own at hown hlower hhigher ⊢
  have hown_lt := hown.1
  have hmiddle := hord.lower_le_upper hown_lt
  rcases hlower with ⟨hnone, hempty_low, hown_low⟩ | ⟨lower, hle, hsome, htokens_low, hempty_low⟩
  · rw [hnone]
    rcases hhigher with ⟨hend, hempty_high, hown_high⟩ |
      ⟨higher, hge, hhigher_lt, hhigher_eq, htokens, hempty_high⟩
    · -- all bins are empty
      obtain ⟨b, hb, htokens⟩ := hex
      rcases Nat.lt_trichotomy b own with hlt | rfl | hgt
      · exact absurd (hempty_low b hlt) htokens
      · omega
      · exact absurd (hempty_high b hgt hb) htokens
    · refine ⟨higher, ?_, hhigher_lt, htokens, fun hown_tokens => ?_, fun hown_empty b hb hb' => ?_⟩
      · simp only [hhigher_eq, ensureBinCapacity, if_neg htokens, if_neg (Nat.not_lt.mpr hge),
          if_neg (show ¬ higher = h.length by omega)]
      · by_contra hne
        exact hown_tokens (hempty_high own le_rfl (by omega))
      · have hb_own : own ≤ b := by
          by_contra hnot
          exact hb' (hempty_low b (Nat.not_le.mp hnot))
        exact (hord.closest_above hown hlength hge htokens hempty_high hown_empty useUsec).2
          b hb_own hb hb'
  · rw [hsome]
    rcases hhigher with ⟨hend, hempty_high, hown_high⟩ |
      ⟨higher, hge, hhigher_lt, hhigher_eq, htokens, hempty_high⟩
    · refine ⟨lower, ?_, by omega, htokens_low, fun hown_tokens => ?_, fun hown_empty b hb hb' => ?_⟩
      · simp only [hend, ensureBinCapacity, if_neg htokens_low, if_true,
          if_neg (show ¬ (own < lower ∨ h.length < own) by omega)]
      · by_contra hne
        exact hown_tokens (hempty_low own (by omega) le_rfl)
      · have hb_own : b ≤ own := by
          by_contra habove
          exact hb' (hempty_high b (by omega) hb)
        exact (hord.closest_below hown hle htokens_low hempty_low hown_empty useUsec).2
          b hb_own hb'
    · obtain ⟨hcloser, hnearest⟩ := hord.closerBin_nearest hown hlength hle htokens_low hempty_low
        hge hhigher_lt htokens hempty_high useUsec
      refine ⟨_, ?_, hnearest⟩
      rw [hhigher_eq]
      dsimp only
      rw [if_neg (by omega), if_neg (by omega), ensureBinCapacity, if_neg hcloser]

end

/-- A delay gets its bin, and the removal takes one token from a bin nearest to it, just where
the estimate that is added twice does no harm. -/
theorem usecToBin_right_iff (hord : Ordered st mi) :
    (IsBinOf st mi usec (histogramUsecToBin st mi usec) ∧
      ∀ h : List ℕ, h.length = st.histogram.length → (∃ b, b + 1 < h.length ∧ h.getD b 0 ≠ 0) →
        ∀ useUsec, ∃ b, removeClosestToken st mi h usec useUsec = some b ∧
          (∀ own, IsBinOf st mi usec own → IsNearest st mi h usec own useUsec b) ∧
          spendToken h b = h.set b (h.getD b 0 - 1)) ↔
      ShiftHarmless st mi usec := by
  rw [← hord.usecToBin_iff]
  refine ⟨And.left, fun hown => ⟨hown, fun h hlength hex useUsec => ?_⟩⟩
  obtain ⟨b, hremoved, hnearest⟩ := hord.removeClosestToken_spec hlength hown hex useUsec
  refine ⟨b, hremoved, fun own hbin => ?_, ?_⟩
  · rw [hord.isBinOf_unique hown hbin]
    exact hnearest
  · rw [spendToken, predU32, if_neg hnearest.tokens]

/-- Bins for 0 to 999 and 1000 to 1999 microseconds, shifted by the estimate. -/
def shiftedState : State where
  histogram := [1, 1, 0]
  histogramEdges := [0, 1000, 2000]
  histogramTotalTokens := 2
  iatDist := false
  distMaxSampleUsec := 0
  distAddedShiftUsec := 0
  lengthDist := false
  startLength := 0
  maxLength := 0
  lengthIncludesNonpadding := false
  nextState := fun _ => .ignore
  useRttEstimate := true
  tokenRemoval := .closest
  keeps_tokens := fun h => absurd h Bool.false_ne_true
  has_bins := fun _ => by decide

def shiftedBy (rttEstimateUsec : ℕ) : Runtime :=
  { Runtime.new with histogram := some [1, 1, 0], rttEstimateUsec := rttEstimateUsec }

theorem usecToBin_right_iff_hundred : (IsBinOf shiftedState (shiftedBy 100) 1500
        (histogramUsecToBin shiftedState (shiftedBy 100) 1500) ∧
      ∀ h : List ℕ, h.length = 3 → (∃ b, b + 1 < h.length ∧ h.getD b 0 ≠ 0) →
        ∀ useUsec, ∃ b, removeClosestToken shiftedState (shiftedBy 100) h 1500 useUsec = some b ∧
          (∀ own, IsBinOf shiftedState (shiftedBy 100) 1500 own →
            IsNearest shiftedState (shiftedBy 100) h 1500 own useUsec b) ∧
          spendToken h b = h.set b (h.getD b 0 - 1)) ↔
      ShiftHarmless shiftedState (shiftedBy 100) 1500 :=
  usecToBin_right_iff ⟨by decide, by decide, by decide⟩

/-- With an estimate of 100 the second bin starts at 1100, but a delay of 1150 is put into the
first bin, and takes its token from there. -/
theorem usecToBin_wrong_hundred :
    Ordered shiftedState (shiftedBy 100) ∧ IsBinOf shiftedState (shiftedBy 100) 1150 1 ∧
      histogramUsecToBin shiftedState (shiftedBy 100) 1150 = 0 ∧
      ¬ IsBinOf shiftedState (shiftedBy 100) 1150 0 ∧
      removeClosestToken shiftedState (shiftedBy 100) [1, 1, 0] 1150 false = some 0 :=
  ⟨⟨by decide, by decide, by decide⟩, by decide, by decide, by decide, by decide⟩

end Bounds

end TorDaemon.Padding.Machine

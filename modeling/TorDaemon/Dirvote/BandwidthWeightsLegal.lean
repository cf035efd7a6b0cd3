import Mathlib.Tactic.LinearCombination
import TorDaemon.Dirvote.BandwidthWeights

/-! When the bandwidth weights can be computed. -/
namespace TorDaemon.Dirvote
open Library.TruncatedDivision
variable {t : Totals} {s : ℤ} {w : Weights} {margin : ℤ}

section Check

/-- The sums and the ranges that `networkstatus_check_weights` asks for. -/
structure LegalWeights (w : Weights) (s : ℤ) : Prop where
  sumd : |w.Wed + w.Wmd + w.Wgd - s| ≤ 10
  sumg : |w.Wmg + w.Wgg - s| ≤ 10
  sume : |w.Wme + w.Wee - s| ≤ 10
  range : rangeCheck w s

/-- Guards and exits get the same bandwidth. -/
def EgBalanced (t : Totals) (w : Weights) : Prop :=
  |w.Wgg * t.G + w.Wgd * t.D - (w.Wee * t.E + w.Wed * t.D)| ≤ (10 * t.T).tdiv 3

/-- Guards and middle relays get the same bandwidth. -/
def MidBalanced (t : Totals) (s : ℤ) (w : Weights) : Prop :=
  |w.Wgg * t.G + w.Wgd * t.D - (t.M * s + w.Wmd * t.D + w.Wme * t.E + w.Wmg * t.G)| ≤
    (10 * t.T).tdiv 3

theorem checkEq_iff {a b : ℤ} : checkEq a b margin ↔ |a - b| ≤ margin := by
  unfold checkEq
  split
  case isTrue h => rw [abs_of_nonneg h]
  case isFalse h => rw [abs_of_neg (not_le.mp h), neg_sub]

theorem legal_of_checked (h : checked t s w = .noError ∨ checked t s w = .balanceMidError) :
    LegalWeights w s ∧ EgBalanced t w ∧ (checked t s w = .noError → MidBalanced t s w) := by
  unfold checked networkstatusCheckWeights at *
  simp only [checkEq_iff, true_and] at *
  split at h
  · simp at h
  split at h
  · simp at h
  split at h
  · simp at h
  split at h
  · simp at h
  split at h
  · simp at h
  rename_i hd hg he hrange heg
  rw [if_neg hd, if_neg hg, if_neg he, if_neg hrange, if_neg heg]
  refine ⟨⟨not_not.mp hd, not_not.mp hg, not_not.mp he, not_not.mp hrange⟩, not_not.mp heg, ?_⟩
  intro hnoError
  by_contra hmid
  unfold MidBalanced at hmid
  rw [if_pos hmid] at hnoError
  cases hnoError

theorem checked_of_legal (h : LegalWeights w s) (heg : EgBalanced t w) :
    checked t s w = .noError ∧ MidBalanced t s w ∨
      checked t s w = .balanceMidError ∧ ¬ MidBalanced t s w := by
  unfold checked networkstatusCheckWeights
  simp only [checkEq_iff, true_and]
  unfold EgBalanced at heg
  rw [if_neg (not_not.mpr h.sumd), if_neg (not_not.mpr h.sumg), if_neg (not_not.mpr h.sume),
    if_neg (not_not.mpr h.range), if_neg (not_not.mpr heg)]
  by_cases hmid : MidBalanced t s w
  · rw [MidBalanced] at hmid
    rw [if_neg (not_not.mpr hmid)]
    exact .inl ⟨rfl, hmid⟩
  · rw [MidBalanced] at hmid
    rw [if_pos hmid]
    exact .inr ⟨rfl, hmid⟩

theorem checked_iff : checked t s w = .noError ↔
    LegalWeights w s ∧ EgBalanced t w ∧ MidBalanced t s w := by
  constructor
  · intro h
    obtain ⟨hlegal, heg, hmid⟩ := legal_of_checked (.inl h)
    exact ⟨hlegal, heg, hmid h⟩
  · rintro ⟨hlegal, heg, hmid⟩
    rcases checked_of_legal hlegal heg with ⟨h, -⟩ | ⟨-, hnot⟩
    · exact h
    · exact absurd hmid hnot

theorem checked_mid_iff : (checked t s w = .noError ∨ checked t s w = .balanceMidError) ↔
    LegalWeights w s ∧ EgBalanced t w := by
  constructor
  · intro h
    obtain ⟨hlegal, heg, -⟩ := legal_of_checked h
    exact ⟨hlegal, heg⟩
  · rintro ⟨hlegal, heg⟩
    rcases checked_of_legal (t := t) hlegal heg with ⟨h, -⟩ | ⟨h, -⟩
    · exact .inl h
    · exact .inr h

end Check

section Cases

/-- Totals as they are summed up. -/
structure Totals.Proper (t : Totals) : Prop where
  G_pos : 0 < t.G
  M_pos : 0 < t.M
  E_pos : 0 < t.E
  D_pos : 0 < t.D
  sum : t.T = t.G + t.M + t.E + t.D

theorem margin_spec : 10 * t.T - 2 ≤ 3 * (10 * t.T).tdiv 3 := by
  obtain ⟨r, heq, -, hr, -, -⟩ := tdiv_spec (n := 10 * t.T) (d := 3) (by norm_num)
  omega

theorem share_spec {a b : ℤ} (hs : 0 < s) (ha : 0 ≤ a) (hab : a ≤ b) (hb : 0 < b) :
    ∃ q r, (s * a).tdiv b = q ∧ b * q = s * a - r ∧ 0 ≤ r ∧ r < b ∧ 0 ≤ q ∧ q ≤ s := by
  have hn : 0 ≤ s * a := mul_nonneg hs.le ha
  obtain ⟨r, heq, -, hlt, hnonneg, -⟩ := tdiv_spec (n := s * a) hb
  exact ⟨_, r, rfl, heq, hnonneg hn, hlt, tdiv_nonneg hb hn,
    tdiv_le hb (mul_le_mul_of_nonneg_left hab hs.le)⟩

theorem half_spec {q : ℤ} (hq : q ≤ s) :
    ∃ h r, (s - q).tdiv 2 = h ∧ 2 * h = s - q - r ∧ 0 ≤ r ∧ r ≤ 1 ∧ 0 ≤ h := by
  obtain ⟨r, heq, -, hlt, hnonneg, -⟩ := tdiv_spec (n := s - q) (d := 2) (by norm_num)
  exact ⟨_, r, rfl, heq, hnonneg (by omega), by omega, tdiv_nonneg (by norm_num) (by omega)⟩

theorem half_mul {half q r b : ℤ} (hhalf : 2 * half = s - q - r) (hr0 : 0 ≤ r) (hr1 : r ≤ 1)
    (hb : 0 < b) : 2 * (half * b) = s * b - q * b - r * b ∧ 0 ≤ r * b ∧ r * b ≤ b :=
  ⟨by linear_combination b * hhalf, mul_nonneg hr0 hb.le, mul_le_of_le_one_left hb.le hr1⟩

theorem rangeCheck_iff : rangeCheck w s ↔ (0 ≤ w.Wgg ∧ w.Wgg ≤ s) ∧ (0 ≤ w.Wgd ∧ w.Wgd ≤ s) ∧
    (0 ≤ w.Wmg ∧ w.Wmg ≤ s) ∧ (0 ≤ w.Wme ∧ w.Wme ≤ s) ∧ (0 ≤ w.Wmd ∧ w.Wmd ≤ s) ∧
    (0 ≤ w.Wed ∧ w.Wed ≤ s) ∧ 0 ≤ w.Wee ∧ w.Wee ≤ s := by
  simp [rangeCheck]

theorem legal_of_bounds (h : (-10 ≤ w.Wed + w.Wmd + w.Wgd - s ∧ w.Wed + w.Wmd + w.Wgd - s ≤ 10) ∧
    w.Wmg + w.Wgg = s ∧ w.Wme + w.Wee = s ∧ (0 ≤ w.Wgg ∧ w.Wgg ≤ s) ∧ (0 ≤ w.Wgd ∧ w.Wgd ≤ s) ∧
      (0 ≤ w.Wmg ∧ w.Wmg ≤ s) ∧ (0 ≤ w.Wme ∧ w.Wme ≤ s) ∧ (0 ≤ w.Wmd ∧ w.Wmd ≤ s) ∧
        (0 ≤ w.Wed ∧ w.Wed ≤ s) ∧ 0 ≤ w.Wee ∧ w.Wee ≤ s) : LegalWeights w s :=
  ⟨abs_le.mpr h.1, by simp [h.2.1], by simp [h.2.2.1], rangeCheck_iff.mpr h.2.2.2⟩

theorem case1_checked (ht : t.Proper) (hs : 0 < s) (hE : t.T ≤ 3 * t.E) (hG : t.T ≤ 3 * t.G) :
    checked t s (case1 t s) = .noError := by
  obtain ⟨hGpos, hMpos, hEpos, hDpos, hsum⟩ := ht
  have hmargin := margin_spec (t := t)
  obtain ⟨Wee, r, hWee, hr, hr0, hrlt, hWee0, hWees⟩ := share_spec (a := t.E + t.G + t.M)
    (b := 3 * t.E) hs (by omega) (by omega) (by omega)
  obtain ⟨Wmg, r', hWmg, hr', hr0', hrlt', hWmg0, hWmgs⟩ := share_spec (a := 2 * t.G - t.E - t.M)
    (b := 3 * t.G) hs (by omega) (by omega) (by omega)
  obtain ⟨third, r3, hthird, hr3, hr03, hrlt3, hthird0, hthirds⟩ := share_spec (a := 1)
    (b := 3) hs (by omega) (by omega) (by omega)
  rw [mul_one] at hthird hr3
  have hw : case1 t s = ⟨s - Wmg, third, Wmg, s - Wee, third, Wee, third⟩ := by
    simp [case1, hWee, hWmg, hthird]
  rw [hw, checked_iff]
  refine ⟨legal_of_bounds ?_, abs_le.mpr ?_, abs_le.mpr ?_⟩ <;> dsimp only
  · omega
  · constructor <;> linarith
  · constructor <;> linarith

theorem case3bg_checked (ht : t.Proper) (hs : 0 < s) (hG : 3 * t.G < t.T) (hE : t.T ≤ 3 * t.E)
    (hD : t.T ≤ 3 * (t.G + t.D)) : checked t s (case3bg t s) = .noError := by
  obtain ⟨hGpos, hMpos, hEpos, hDpos, hsum⟩ := ht
  have hmargin := margin_spec (t := t)
  obtain ⟨Wgd, r, hWgd, hr, hr0, hrlt, hWgd0, hWgds⟩ := share_spec
    (a := t.D - 2 * t.G + t.E + t.M) (b := 3 * t.D) hs (by omega) (by omega) (by omega)
  obtain ⟨Wee, r', hWee, hr', hr0', hrlt', hWee0, hWees⟩ := share_spec (a := t.E + t.M)
    (b := 2 * t.E) hs (by omega) (by omega) (by omega)
  obtain ⟨half, r2, hhalf, hr2, hr02, hrle2, hhalf0⟩ := half_spec hWgds
  obtain ⟨hhalfD, hrest⟩ := half_mul hr2 hr02 hrle2 hDpos
  have hw : case3bg t s = ⟨s, Wgd, 0, s - Wee, half, Wee, half⟩ := by
    simp [case3bg, hWgd, hWee, hhalf]
  rw [hw, checked_iff]
  refine ⟨legal_of_bounds ?_, abs_le.mpr ?_, abs_le.mpr ?_⟩ <;> dsimp only
  · omega
  · constructor <;> linarith
  · constructor <;> linarith

theorem case3be_checked (ht : t.Proper) (hs : 0 < s) (hE : 3 * t.E < t.T) (hG : t.T ≤ 3 * t.G)
    (hD : t.T ≤ 3 * (t.E + t.D)) : checked t s (case3be t s) = .noError := by
  obtain ⟨hGpos, hMpos, hEpos, hDpos, hsum⟩ := ht
  have hmargin := margin_spec (t := t)
  obtain ⟨Wed, r, hWed, hr, hr0, hrlt, hWed0, hWeds⟩ := share_spec
    (a := t.D - 2 * t.E + t.G + t.M) (b := 3 * t.D) hs (by omega) (by omega) (by omega)
  obtain ⟨Wgg, r', hWgg, hr', hr0', hrlt', hWgg0, hWggs⟩ := share_spec (a := t.G + t.M)
    (b := 2 * t.G) hs (by omega) (by omega) (by omega)
  obtain ⟨half, r2, hhalf, hr2, hr02, hrle2, hhalf0⟩ := half_spec hWeds
  obtain ⟨hhalfD, hrest⟩ := half_mul hr2 hr02 hrle2 hDpos
  have hw : case3be t s = ⟨Wgg, half, s - Wgg, 0, half, s, Wed⟩ := by
    simp [case3be, hWed, hWgg, hhalf]
  rw [hw, checked_iff]
  refine ⟨legal_of_bounds ?_, abs_le.mpr ?_, abs_le.mpr ?_⟩ <;> dsimp only
  · omega
  · constructor <;> linarith
  · constructor <;> linarith

theorem case2a_legal (hs : 0 < s) : LegalWeights (case2a t s) s := by
  unfold case2a
  by_cases h : t.E < t.G
  all_goals
    apply legal_of_bounds
    dsimp only
    omega

theorem surplus_spec {a b : ℤ} (hs : 0 < s) (ha : 0 < a) : ∃ q, (if a < b then 0 else
    (s * (a - b)).tdiv (2 * a)) = q ∧ (b < 0 ∨ 0 ≤ q ∧ q ≤ s) := by
  refine ⟨_, rfl, ?_⟩
  by_cases hb : b < 0
  · exact .inl hb
  · split
    · exact .inr ⟨le_rfl, hs.le⟩
    · obtain ⟨q, r, hq, -, -, -, hq0, hqs⟩ := share_spec (a := a - b) (b := 2 * a) hs (by omega)
        (by omega) (by omega)
      rw [hq]
      exact .inr ⟨hq0, hqs⟩

theorem case3a_legal (ht : t.Proper) (hs : 0 < s) : LegalWeights (case3a t s) s := by
  obtain ⟨hGpos, hMpos, hEpos, -, -⟩ := ht
  unfold case3a
  split
  · obtain ⟨q, hq, hrange⟩ := surplus_spec (b := t.M) hs hEpos
    apply legal_of_bounds
    dsimp only
    omega
  · obtain ⟨q, hq, hrange⟩ := surplus_spec (b := t.M) hs hGpos
    apply legal_of_bounds
    dsimp only
    omega

end Cases

/-! ### Guards and exits scarce, and relays that are both -/

section BothScarce

/-- Case 2b. -/
structure BothScarce (t : Totals) : Prop where
  E_lt : 3 * t.E < t.T
  G_lt : 3 * t.G < t.T
  G_le : t.G ≤ t.E + t.D
  E_le : t.E ≤ t.G + t.D

/-- A share that is negative by less than a unit is rounded to nothing. -/
theorem rounded_spec {n b : ℤ} (hs : 0 < s) (hb : 0 < b) (hlow : -b < n) (hhigh : n < (s + 1) * b) :
    ∃ q r, n.tdiv b = q ∧ b * q = n - r ∧ -b < r ∧ r < b ∧ 0 ≤ q ∧ q ≤ s ∧ (0 ≤ n → 0 ≤ r) := by
  obtain ⟨r, heq, hr, hr', hnonneg, -⟩ := tdiv_spec (n := n) hb
  refine ⟨_, r, rfl, heq, hr, hr', ?_, ?_, hnonneg⟩
  · exact not_lt.mp fun h => absurd ((tdiv_neg_iff hb).mp h) (by omega)
  · by_cases hn : 0 ≤ n
    · exact Int.lt_add_one_iff.mp ((tdiv_lt_iff hb hn).mpr hhigh)
    · rw [tdiv_eq_zero_of_neg hlow (by omega) hb]
      exact hs.le

section
variable (ht : t.Proper)
include ht

theorem case2b1_fails
    (h : t.E ≤ s * (t.M - t.G) ∨ 3 * t.D ≤ s * (3 * t.M - t.T + 3 * (t.E - t.G))) :
    checked t s (case2b1 t s) ≠ .noError := by
  obtain ⟨hGpos, hMpos, hEpos, hDpos, hsum⟩ := ht
  intro hchecked
  obtain ⟨hlegal, -⟩ := checked_iff.mp hchecked
  obtain ⟨-, -, -, hWme, -, hWed, -⟩ := rangeCheck_iff.mp hlegal.range
  rcases h with h | h
  · refine absurd ((tdiv_neg_iff hEpos).mpr ?_) (not_lt.mpr hWme.1)
    linarith
  · refine absurd ((tdiv_neg_iff (by omega)).mpr ?_) (not_lt.mpr hWed.1)
    rw [hsum] at h
    linarith

/-- The middle relays have just so much that what is rounded makes up for it. -/
theorem case2b1_checked (hs : 0 < s) (hboth : BothScarce t)
    (hmiddle : 3 * t.D ≤ s * (3 * t.M - t.T)) (hWme : s * (t.M - t.G) < t.E)
    (hWed : s * (3 * t.M - t.T + 3 * (t.E - t.G)) < 3 * t.D) :
    checked t s (case2b1 t s) = .noError := by
  obtain ⟨hGpos, hMpos, hEpos, hDpos, hsum⟩ := ht
  obtain ⟨hE, hG, hGE, hEG⟩ := hboth
  have hmargin := margin_spec (t := t)
  have hGEs : s * t.G ≤ s * (t.E + t.D) := mul_le_mul_of_nonneg_left hGE hs.le
  rw [hsum] at hWed hmiddle
  have hWme0 : (s * (t.G - t.M)).tdiv t.E = 0 :=
    tdiv_eq_zero_of_neg (by linarith) (by linarith) hEpos
  have hWees : (s * (t.E - t.G + t.M)).tdiv t.E = s := by
    have hpos := mul_pos hs hEpos
    apply le_antisymm
    · exact Int.lt_add_one_iff.mp ((tdiv_lt_iff hEpos (by linarith)).mpr (by linarith))
    · rw [← not_lt, tdiv_lt_iff hEpos (by linarith)]
      linarith
  obtain ⟨Wed, r, hWed, hr, hr0, hrlt, hWed0, hWeds, -⟩ := rounded_spec
    (n := s * (t.D - 2 * t.E + 4 * t.G - 2 * t.M)) (b := 3 * t.D) hs (by omega)
    (by linarith) (by linarith)
  obtain ⟨half, r2, hhalf, hr2, hr02, hrle2, hhalf0⟩ := half_spec hWeds
  obtain ⟨hhalfD, hrest⟩ := half_mul hr2 hr02 hrle2 hDpos
  have hw : case2b1 t s = ⟨s, half, 0, 0, half, s, Wed⟩ := by
    simp [case2b1, hWees, hWme0, hWed, hhalf]
  rw [hw, checked_iff]
  refine ⟨legal_of_bounds ?_, abs_le.mpr ?_, abs_le.mpr ?_⟩ <;> dsimp only
  · omega
  · constructor <;> linarith
  · constructor <;> linarith

/-- Not much more than a third of the bandwidth is that of middle relays. -/
theorem case2b2_legal (hs : 0 < s) (hboth : BothScarce t)
    (hmiddle : s * (3 * t.M - t.T) < 3 * t.D) :
    LegalWeights (case2b2 t s) s ∧ EgBalanced t (case2b2 t s) := by
  obtain ⟨hGpos, hMpos, hEpos, hDpos, hsum⟩ := ht
  obtain ⟨hE, hG, hGE, hEG⟩ := hboth
  have hmargin := margin_spec (t := t)
  have hGs : s * (3 * t.G) < s * t.T := mul_lt_mul_of_pos_left hG hs
  have hEs : 0 < s * (t.T - 3 * t.E) := mul_pos hs (by omega)
  rw [hsum] at hmiddle hGs hEs
  obtain ⟨Wed, r, hWed, hr, hr0, hrlt, hWed0, hWeds, hrnonneg0⟩ := rounded_spec
    (n := s * (t.D - 2 * t.E + t.G + t.M)) (b := 3 * t.D) hs (by omega) (by linarith) (by linarith)
  obtain ⟨r1, hr1, hr01, hrlt1, hrnonneg, hrnonpos⟩ := tdiv_spec
    (n := s * (t.D - 2 * t.M + t.G + t.E)) (d := 3 * t.D) (by omega)
  have hWmd0 : 0 ≤ (s * (t.D - 2 * t.M + t.G + t.E)).tdiv (3 * t.D) := by
    rw [← not_lt, tdiv_neg_iff (by omega)]
    linarith
  have hw : case2b2 t s = ⟨s, s - Wed - (s * (t.D - 2 * t.M + t.G + t.E)).tdiv (3 * t.D), 0, 0,
      (s * (t.D - 2 * t.M + t.G + t.E)).tdiv (3 * t.D), s, Wed⟩ := by
    simp only [case2b2, hWed, if_neg (not_lt.mpr hWmd0)]
  -- where the shares are rounded down, both fit the scale
  have hfits : Wed + (s * (t.D - 2 * t.M + t.G + t.E)).tdiv (3 * t.D) ≤ s := by
    by_cases hn : 0 ≤ s * (t.D - 2 * t.M + t.G + t.E)
    · have hr1nonneg := hrnonneg hn
      apply Int.lt_add_one_iff.mp
      apply lt_of_mul_lt_mul_left (a := 3 * t.D) _ (by omega)
      linarith
    · rw [tdiv_eq_zero_of_neg (by linarith) (by omega) (by omega)]
      omega
  rw [hw]
  generalize (s * (t.D - 2 * t.M + t.G + t.E)).tdiv (3 * t.D) = Wmd at *
  refine ⟨legal_of_bounds ?_, abs_le.mpr ?_⟩ <;> dsimp only
  · omega
  · constructor <;> linarith

/-- Much more than a third of it is, and none of the relays that are both are left for them. -/
theorem case2b3_legal_iff (hs : 0 < s) (hboth : BothScarce t)
    (hmiddle : 3 * t.D ≤ s * (3 * t.M - t.T)) :
    LegalWeights (case2b2 t s) s ∧ EgBalanced t (case2b2 t s) ↔
      s * (t.T - 3 * t.E) < (s + 1) * (3 * t.D) ∧ s * (3 * t.M - t.T) ≤
        3 * (10 * t.T).tdiv 3 + 2 * (s * (t.T - 3 * t.E) % (3 * t.D)) := by
  obtain ⟨hGpos, hMpos, hEpos, hDpos, hsum⟩ := ht
  obtain ⟨hE, hG, hGE, hEG⟩ := hboth
  have hmargin := margin_spec (t := t)
  have hn : 0 ≤ s * (t.T - 3 * t.E) := mul_nonneg hs.le (by omega)
  have hb : 0 < 3 * t.D := by omega
  have harg : t.D - 2 * t.E + t.G + t.M = t.T - 3 * t.E := by omega
  have harg' : t.D - 2 * t.M + t.G + t.E = t.T - 3 * t.M := by omega
  have hWmd : (s * (t.T - 3 * t.M)).tdiv (3 * t.D) < 0 := (tdiv_neg_iff hb).mpr (by linarith)
  have hw : case2b2 t s = ⟨s, s - (s * (t.T - 3 * t.E)).tdiv (3 * t.D), 0, 0, 0, s,
      (s * (t.T - 3 * t.E)).tdiv (3 * t.D)⟩ := by
    simp only [case2b2, harg, harg', if_pos hWmd, sub_zero]
  have hWed0 := tdiv_nonneg hb hn
  have hWeds := tdiv_lt_iff (s := s + 1) hb hn
  have hrest : 3 * t.D * (s * (t.T - 3 * t.E)).tdiv (3 * t.D) =
      s * (t.T - 3 * t.E) - s * (t.T - 3 * t.E) % (3 * t.D) := by
    rw [Int.tdiv_eq_ediv_of_nonneg hn]
    have hdiv := Int.mul_ediv_add_emod (s * (t.T - 3 * t.E)) (3 * t.D)
    omega
  have hrestlt := Int.emod_lt_of_pos (s * (t.T - 3 * t.E)) hb
  rw [hw, ← hWeds]
  generalize (s * (t.T - 3 * t.E)).tdiv (3 * t.D) = Wed at *
  generalize s * (t.T - 3 * t.E) % (3 * t.D) = r at *
  have hsT : s * t.T = s * (t.G + t.M + t.E + t.D) := congrArg (s * ·) hsum
  constructor
  · rintro ⟨hlegal, heg⟩
    obtain ⟨-, -, -, -, -, hWed, -⟩ := rangeCheck_iff.mp hlegal.range
    obtain ⟨hlow, -⟩ := abs_le.mp heg
    dsimp only at hWed hlow
    exact ⟨by omega, by linarith⟩
  · rintro ⟨hWed, hbalance⟩
    refine ⟨legal_of_bounds ?_, abs_le.mpr ?_⟩ <;> dsimp only
    · omega
    · constructor <;> linarith

end

end BothScarce

section Compute

/-- Guards and exits are scarce, but with the relays that are both no worse than each other; the
middle relays have so much that none of the latter are left for them; the first formulas make a
weight negative; and the second ones make a weight too large, or leave the balance of guards and
exits beyond the margin. -/
def Swamped (t : Totals) (s : ℤ) : Prop :=
  BothScarce t ∧ 3 * t.D ≤ s * (3 * t.M - t.T) ∧
    (t.E ≤ s * (t.M - t.G) ∨ 3 * t.D ≤ s * (3 * t.M - t.T + 3 * (t.E - t.G))) ∧
    ((s + 1) * (3 * t.D) ≤ s * (t.T - 3 * t.E) ∨
      3 * (10 * t.T).tdiv 3 + 2 * (s * (t.T - 3 * t.E) % (3 * t.D)) < s * (3 * t.M - t.T))

theorem bothScarce_iff (hE : 3 * t.E < t.T) (hG : 3 * t.G < t.T) :
    ¬ min t.E t.G + t.D < max t.E t.G ↔ BothScarce t := by
  constructor
  · intro h
    exact ⟨hE, hG, by omega, by omega⟩
  · rintro ⟨-, -, hGE, hEG⟩
    omega

/-- What is computed has passed its check, or needs none. -/
theorem computeWeights_legal (ht : t.Proper) (hs : 0 < s) (h : computeWeights t s = some w) :
    LegalWeights w s := by
  unfold computeWeights at h
  split at h
  · split at h
    case isTrue hchecked =>
      cases h
      exact (checked_iff.mp hchecked).1
    case isFalse => cases h
  split at h
  · split at h
    · cases h
      exact case2a_legal hs
    split at h
    case isTrue hchecked =>
      cases h
      exact (checked_iff.mp hchecked).1
    split at h
    case isTrue hchecked =>
      cases h
      exact (checked_mid_iff.mp hchecked).1
    case isFalse => cases h
  split at h
  · cases h
    exact case3a_legal ht hs
  · dsimp only at h
    generalize (if t.G < t.E then case3bg t s else case3be t s) = w' at h
    split at h
    case isTrue hchecked =>
      cases h
      exact (checked_iff.mp hchecked).1
    case isFalse => cases h

theorem case2b_iff (ht : t.Proper) (hs : 0 < s) (hboth : BothScarce t) :
    (checked t s (case2b1 t s) = .noError ∨ checked t s (case2b2 t s) = .noError ∨
      checked t s (case2b2 t s) = .balanceMidError) ↔ ¬ Swamped t s := by
  rw [checked_mid_iff]
  by_cases hmiddle : 3 * t.D ≤ s * (3 * t.M - t.T)
  · rw [case2b3_legal_iff ht hs hboth hmiddle]
    by_cases hfirst : t.E ≤ s * (t.M - t.G) ∨ 3 * t.D ≤ s * (3 * t.M - t.T + 3 * (t.E - t.G))
    · rw [or_iff_right (case2b1_fails ht hfirst)]
      constructor
      · rintro ⟨hWed, hbalance⟩ ⟨-, -, -, hlarge | hunbalanced⟩
        · exact absurd hWed (not_lt.mpr hlarge)
        · exact absurd hbalance (not_le.mpr hunbalanced)
      · intro hswamped
        constructor
        · by_contra hlarge
          exact hswamped ⟨hboth, hmiddle, hfirst, .inl (not_lt.mp hlarge)⟩
        · by_contra hunbalanced
          exact hswamped ⟨hboth, hmiddle, hfirst, .inr (not_le.mp hunbalanced)⟩
    · obtain ⟨hWme, hWed⟩ := not_or.mp hfirst
      have hchecked := case2b1_checked ht hs hboth hmiddle (not_le.mp hWme) (not_le.mp hWed)
      exact iff_of_true (.inl hchecked) fun hswamped => hfirst hswamped.2.2.1
  · exact iff_of_true (.inr (case2b2_legal ht hs hboth (not_le.mp hmiddle)))
      fun hswamped => hmiddle hswamped.2.1

theorem computeWeights_isSome_iff (ht : t.Proper) (hs : 0 < s) :
    (computeWeights t s).isSome ↔ ¬ Swamped t s := by
  unfold computeWeights
  by_cases h1 : 3 * t.E ≥ t.T ∧ 3 * t.G ≥ t.T
  · rw [if_pos h1, if_pos (case1_checked ht hs h1.1 h1.2)]
    exact iff_of_true rfl fun hswamped => absurd hswamped.1.E_lt (not_lt.mpr h1.1)
  rw [if_neg h1]
  by_cases h2 : 3 * t.E < t.T ∧ 3 * t.G < t.T
  · rw [if_pos h2]
    by_cases ha : min t.E t.G + t.D < max t.E t.G
    · rw [if_pos ha]
      exact iff_of_true rfl fun hswamped => (bothScarce_iff h2.1 h2.2).mpr hswamped.1 ha
    · rw [if_neg ha, ← case2b_iff ht hs ((bothScarce_iff h2.1 h2.2).mp ha)]
      by_cases hb1 : checked t s (case2b1 t s) = .noError
      · rw [if_pos hb1]
        exact iff_of_true rfl (.inl hb1)
      · rw [if_neg hb1, or_iff_right hb1]
        split
        case isTrue hb2 => exact iff_of_true rfl hb2
        case isFalse hb2 => exact iff_of_false Bool.false_ne_true hb2
  rw [if_neg h2]
  refine iff_of_true ?_ fun hswamped => h2 ⟨hswamped.1.E_lt, hswamped.1.G_lt⟩
  by_cases ha : 3 * (min t.E t.G + t.D) < t.T
  · rw [if_pos ha]
    rfl
  rw [if_neg ha]
  by_cases hGE : t.G < t.E
  · simp only [if_pos hGE, case3bg_checked ht hs (by omega) (by omega) (by omega)]
    rfl
  · simp only [if_neg hGE, case3be_checked ht hs (by omega) (by omega) (by omega)]
    rfl

/-- The weights of the line are those that were computed, since they fit an `int`. -/
theorem legalLine_of_legal (hs : 0 < s) (hmax : s ≤ int32Max) (h : LegalWeights w s) :
    LegalLine (bandwidthWeightsLine w s) s := by
  have hint : ∀ x, 0 ≤ x ∧ x ≤ s → toInt x = x := by
    rintro x ⟨hx0, hxs⟩
    unfold int32Max at hmax
    exact toInt_eq (by omega) (by omega)
  obtain ⟨hWgg, hWgd, hWmg, hWme, hWmd, hWed, hWee⟩ := rangeCheck_iff.mp h.range
  have hline : bandwidthWeightsLine w s =
      [(.Wbd, w.Wmd), (.Wbe, w.Wme), (.Wbg, w.Wmg), (.Wbm, s), (.Wdb, s), (.Web, s), (.Wed, w.Wed),
        (.Wee, w.Wee), (.Weg, w.Wed), (.Wem, w.Wee), (.Wgb, s), (.Wgd, w.Wgd), (.Wgg, w.Wgg),
        (.Wgm, w.Wgg), (.Wmb, s), (.Wmd, w.Wmd), (.Wme, w.Wme), (.Wmg, w.Wmg), (.Wmm, s)] := by
    simp [bandwidthWeightsLine, hint _ hWgg, hint _ hWgd, hint _ hWmg, hint _ hWme, hint _ hWmd, hint _ hWed, hint _ hWee, hint s ⟨hs.le, le_rfl⟩]
  rw [hline]
  have hsumd := h.sumd
  have hsumg := h.sumg
  have hsume := h.sume
  have hscale : 0 ≤ s ∧ s ≤ s := ⟨hs.le, le_rfl⟩
  constructor
  · simp only [List.forall_mem_cons, List.not_mem_nil, false_imp_iff, implies_true, and_true]
    exact ⟨hWmd, hWme, hWmg, hscale, hscale, hscale, hWed, hWee, hWed, hWee, hscale, hWgd, hWgg,
      hWgg, hscale, hWmd, hWme, hWmg, hscale⟩
  · change |w.Wgg + w.Wmg - s| ≤ 10
    rwa [add_comm]
  · change |w.Wee + w.Wme - s| ≤ 10
    rwa [add_comm]
  · change |w.Wgd + w.Wmd + w.Wed - s| ≤ 10
    rwa [add_comm w.Wgd, add_comm (w.Wmd + w.Wgd), ← add_assoc]

/-- The call succeeds and its weights are right if and only if the scale fits 32 bits and the
totals are not swamped with middle bandwidth. -/
theorem bw_weights_legal_iff (chunks : List BandwidthWeightsLine) (ht : t.Proper) (hs : 0 < s) :
    ComputesLegalLine chunks t s ↔ s ≤ int32Max ∧ ¬ Swamped t s := by
  have hpos : ¬ (t.G ≤ 0 ∨ t.M ≤ 0 ∨ t.E ≤ 0 ∨ t.D ≤ 0) := by
    obtain ⟨hG, hM, hE, hD, -⟩ := ht
    omega
  rw [← computeWeights_isSome_iff ht hs]
  unfold ComputesLegalLine networkstatusComputeBwWeightsV10
  rw [if_neg hpos]
  cases hweights : computeWeights t s with
  | none => simp
  | some w =>
    by_cases hmax : s ≤ int32Max
    · have hlegal := legalLine_of_legal hs hmax (computeWeights_legal ht hs hweights)
      simp only [hs, hmax, true_and, if_true, Option.isSome_some]
      exact iff_of_true ⟨_, rfl, hlegal⟩ trivial
    · simp [hmax]

theorem bw_weights_legal_iff_2b2 : ComputesLegalLine [] ⟨10, 60, 30, 100, 200⟩ 10000 ↔
    (10000 : ℤ) ≤ int32Max ∧ ¬ Swamped ⟨10, 60, 30, 100, 200⟩ 10000 :=
  bw_weights_legal_iff [] (by constructor <;> decide) (by decide)

/-- Totals with a surplus of middle bandwidth. -/
def swampedTotals : Totals := ⟨1, 3, 1, 1, 6⟩

theorem bw_weights_not_legal : ¬ ∀ (chunks : List BandwidthWeightsLine) (t : Totals) (s : ℤ),
    t.Proper → 0 < s → s ≤ int32Max → ComputesLegalLine chunks t s := by
  intro h
  obtain ⟨line, hline, -⟩ := h [] swampedTotals 10000 (by constructor <;> decide) (by decide)
    (by decide)
  have hfails : networkstatusComputeBwWeightsV10 [] swampedTotals 10000 = some (false, []) := by
    decide +kernel
  rw [hfails] at hline
  simp at hline

end Compute

end TorDaemon.Dirvote

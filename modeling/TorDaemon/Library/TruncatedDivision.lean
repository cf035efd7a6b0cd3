import Mathlib.Tactic.Linarith

/-! Integer division towards zero, as C has it, by a positive number. -/
namespace TorDaemon.Library.TruncatedDivision
variable {n d s : ℤ}

section
variable (hd : 0 < d)
include hd

/-- The quotient, with a rest that has the sign of the number. -/
theorem tdiv_spec : ∃ r, d * n.tdiv d = n - r ∧ -d < r ∧ r < d ∧
    (0 ≤ n → 0 ≤ r) ∧ (n ≤ 0 → r ≤ 0) := by
  refine ⟨n.tmod d, ?_, Int.lt_tmod_of_pos n hd, Int.tmod_lt_of_pos n hd, Int.tmod_nonneg d, ?_⟩
  · have hsum := Int.mul_tdiv_add_tmod n d
    omega
  · intro hn
    have hneg := Int.tmod_nonneg d (neg_nonneg.mpr hn)
    rw [Int.neg_tmod] at hneg
    omega

theorem tdiv_nonneg (hn : 0 ≤ n) : 0 ≤ n.tdiv d := Int.tdiv_nonneg hn hd.le

theorem tdiv_le (hn : n ≤ s * d) : n.tdiv d ≤ s := by
  have hle := Int.tdiv_le_tdiv hd hn
  rwa [Int.mul_tdiv_cancel _ hd.ne'] at hle

theorem tdiv_lt_iff (hn : 0 ≤ n) : n.tdiv d < s ↔ n < s * d := by
  rw [Int.tdiv_eq_ediv_of_nonneg hn]
  exact Int.ediv_lt_iff_lt_mul hd

/-- Only from a whole divisor below zero on is the quotient negative. -/
theorem tdiv_neg_iff : n.tdiv d < 0 ↔ n ≤ -d := by
  obtain ⟨r, heq, hlow, hhigh, hnonneg, hnonpos⟩ := tdiv_spec (n := n) hd
  constructor
  · intro h
    have hmul : d * n.tdiv d ≤ d * (-1) := mul_le_mul_of_nonneg_left (by omega) hd.le
    omega
  · intro h
    by_contra hpos
    have hmul := mul_nonneg hd.le (not_lt.mp hpos)
    omega

end

theorem tdiv_eq_zero_of_neg (hlow : -d < n) (hn : n ≤ 0) (hd : 0 < d) : n.tdiv d = 0 := by
  apply le_antisymm (tdiv_le hd (by omega))
  exact not_lt.mp fun h => by
    have hle := (tdiv_neg_iff hd).mp h
    omega

end TorDaemon.Library.TruncatedDivision

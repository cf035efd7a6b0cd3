import Mathlib.Data.Int.Log
import Mathlib.Data.Rat.Floor

/-! Double-precision arithmetic, away from overflow and underflow: each operation gives the number
with a significand of 53 bits that is nearest to the exact result. -/
namespace TorDaemon.Library.Binary64
variable {x : ℚ} {n : ℤ}

/-- The nearest integer, and of two that are as near the even one. -/
def halfEven (x : ℚ) : ℤ :=
  if 1 < 2 * Int.fract x ∨ 2 * Int.fract x = 1 ∧ ⌊x⌋ % 2 = 1 then ⌊x⌋ + 1 else ⌊x⌋

/-- The distance of the numbers with 53 bits around this one. -/
def ulp (x : ℚ) : ℚ := 2 ^ (Int.log 2 |x| - 52)

/-- The result of an operation whose exact result this is. -/
def nearest (x : ℚ) : ℚ := halfEven (x / ulp x) * ulp x

/-- `lround`: halfway cases go away from zero. -/
def lround (x : ℚ) : ℤ := if 0 ≤ x then ⌊x + 1 / 2⌋ else ⌈x - 1 / 2⌉

theorem halfEven_error (x : ℚ) : |halfEven x - x| ≤ 1 / 2 := by
  have hfloor := Int.self_sub_floor x
  have hnonneg := Int.fract_nonneg x
  have hlt := Int.fract_lt_one x
  rw [abs_le, halfEven]
  split
  case isTrue h =>
    push_cast
    constructor
    · linarith
    · rcases h with h | h <;> linarith
  case isFalse h =>
    have hhalf : 2 * Int.fract x ≤ 1 := not_lt.mp fun h' => h (.inl h')
    constructor <;> linarith

theorem ulp_pos (x : ℚ) : 0 < ulp x := zpow_pos (by norm_num) _

theorem ulp_le (hx : x ≠ 0) : ulp x ≤ |x| / 2 ^ 52 := by
  have hlog : (2 : ℚ) ^ Int.log 2 |x| ≤ |x| := by
    simpa using Int.zpow_log_le_self (b := 2) (by norm_num) (abs_pos.mpr hx)
  rw [ulp, zpow_sub₀ (by norm_num)]
  exact div_le_div_of_nonneg_right hlog (by norm_num)

theorem nearest_nonneg (hx : 0 ≤ x) : 0 ≤ nearest x := by
  have hfloor : 0 ≤ ⌊x / ulp x⌋ := Int.floor_nonneg.mpr (div_nonneg hx (ulp_pos x).le)
  have hround : 0 ≤ halfEven (x / ulp x) := by
    unfold halfEven
    split <;> omega
  exact mul_nonneg (Int.cast_nonneg hround) (ulp_pos x).le

theorem nearest_error (x : ℚ) : |nearest x - x| ≤ |x| / 2 ^ 53 := by
  by_cases hx : x = 0
  · simp [hx, nearest, halfEven]
  · have hpos := ulp_pos x
    have heq : nearest x - x = (halfEven (x / ulp x) - x / ulp x) * ulp x := by
      rw [nearest, sub_mul, div_mul_cancel₀ _ hpos.ne']
    calc |nearest x - x| = |halfEven (x / ulp x) - x / ulp x| * ulp x := by
          rw [heq, abs_mul, abs_of_pos hpos]
      _ ≤ 1 / 2 * (|x| / 2 ^ 52) :=
          mul_le_mul (halfEven_error _) (ulp_le hx) hpos.le (by norm_num)
      _ = |x| / 2 ^ 53 := by ring

/-- Two operations one after the other, on numbers that are not negative. -/
theorem nearest_mul_error {a y b : ℚ} (ha : 0 ≤ a) (hb : 0 ≤ b) (hab : |y - a| ≤ a / 2 ^ 53) :
    |nearest (y * b) - a * b| ≤ a * b / 2 ^ 51 := by
  have hround := abs_le.mp (nearest_error (y * b))
  have hy := abs_le.mp hab
  have hynonneg : 0 ≤ y := by linarith
  rw [abs_of_nonneg (mul_nonneg hynonneg hb)] at hround
  have hlow : (a - a / 2 ^ 53) * b ≤ y * b := mul_le_mul_of_nonneg_right (by linarith) hb
  have hhigh : y * b ≤ (a + a / 2 ^ 53) * b := mul_le_mul_of_nonneg_right (by linarith) hb
  rw [abs_le]
  constructor <;> linarith

theorem le_lround_iff (hx : 0 ≤ x) : n ≤ lround x ↔ (n : ℚ) - 1 / 2 ≤ x := by
  rw [lround, if_pos hx, Int.le_floor]
  constructor <;> intro h <;> linarith

theorem lround_lt_iff (hx : 0 ≤ x) : lround x < n ↔ x < (n : ℚ) - 1 / 2 := by
  rw [← not_le, le_lround_iff hx, not_le]

end TorDaemon.Library.Binary64

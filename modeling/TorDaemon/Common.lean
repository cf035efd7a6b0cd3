import Mathlib.Algebra.Order.Ring.Int

/-! Bounds of the types of C, casts to `int`, and assertions. -/
namespace TorDaemon

/-- The largest value of an `int`. -/
def intMax : ℕ := 2 ^ 31 - 1

def sizeTCeiling : ℕ := 2 ^ 63 - 1 - 16

/-- The value that an `int` takes from a wider one. -/
def toInt32 (n : ℤ) : ℤ := n.bmod (2 ^ 32)

theorem toInt32_eq {n : ℤ} (hlow : -2 ^ 31 ≤ n) (hhigh : n < 2 ^ 31) : toInt32 n = n :=
  Int.bmod_eq_of_le (by omega) (by omega)

/-- A failed assertion is `none`. -/
def torAssert (p : Prop) [Decidable p] : Option Unit := if p then some () else none

end TorDaemon

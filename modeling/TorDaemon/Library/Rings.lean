import Mathlib.Algebra.BigOperators.Group.List.Basic
import Mathlib.Data.List.Rotate
import Mathlib.Data.Nat.ModEq

/-! Lists used as rings. The values of a sequence are written one after the other, and each takes
the place of the one that a whole ring of values was written after. -/
namespace TorDaemon.Library.Rings
variable {α : Type*} {ring : List α} {seq seq' : ℕ → α} {p k i n : ℕ} {a : α}

/-- The ring has the last of the first values of a sequence. -/
def Holds (ring : List α) (seq : ℕ → α) (p : ℕ) : Prop :=
  ∀ k < p, p ≤ k + ring.length → ring[k % ring.length]? = some (seq k)

/-- The values from a place on, around the ring. -/
def around (ring : List α) (blank : α) (i n : ℕ) : List α :=
  (List.range n).map fun j => ring.getD ((i + j) % ring.length) blank

/-- Two of the values in a ring are in different places. -/
theorem mod_ne (hk : k < p) (hp : p < k + n) : k % n ≠ p % n := by
  intro heq
  obtain ⟨d, hd⟩ := (Nat.modEq_iff_dvd' hk.le).mp heq
  rcases Nat.eq_zero_or_pos d with rfl | hpos
  · omega
  · have := Nat.le_mul_of_pos_right n hpos
    omega

theorem holds_zero : Holds ring seq 0 := nofun

/-- The next value is written where the oldest was. -/
theorem Holds.write (h : Holds ring seq p) (hring : 0 < ring.length) :
    Holds (ring.set (p % ring.length) (seq p)) seq (p + 1) := by
  intro k hk hp
  rw [List.length_set] at hp ⊢
  rw [List.getElem?_set]
  rcases Nat.lt_succ_iff_lt_or_eq.mp hk with hk | rfl
  · rw [if_neg (mod_ne hk (by omega)).symm, h k hk (by omega)]
  · rw [if_pos rfl, if_pos (Nat.mod_lt _ hring)]

/-- The newest value is changed. -/
theorem Holds.rewrite (h : Holds ring seq (p + 1)) (hring : 0 < ring.length)
    (hseq : ∀ k < p, seq' k = seq k) :
    Holds (ring.set (p % ring.length) (seq' p)) seq' (p + 1) := by
  intro k hk hp
  rw [List.length_set] at hp ⊢
  rw [List.getElem?_set]
  rcases Nat.lt_succ_iff_lt_or_eq.mp hk with hlt | rfl
  · rw [if_neg (mod_ne hlt (by omega)).symm, h k hk (by omega), hseq k hlt]
  · rw [if_pos rfl, if_pos (Nat.mod_lt _ hring)]

section
variable (h : Holds ring seq p)
include h

theorem Holds.congr (hseq : ∀ k < p, seq' k = seq k) : Holds ring seq' p := by
  intro k hk hp
  rw [h k hk hp, hseq k hk]

/-- The last values are read from the oldest on. -/
theorem Holds.around (blank : α) (hn : n ≤ p) (hle : n ≤ ring.length)
    (hi : i % ring.length = (p - n) % ring.length) :
    around ring blank i n = ((List.range p).map seq).drop (p - n) := by
  have hrange : (List.range p).drop (p - n) = (List.range n).map (p - n + ·) := by
    conv_lhs => rw [show p = p - n + n by omega, List.range_add]
    rw [List.drop_append_of_le_length (by simp), List.drop_of_length_le (by simp),
      List.nil_append]
  rw [Rings.around, ← List.map_drop, hrange, List.map_map]
  apply List.map_congr_left
  intro j hj
  have hlt := List.mem_range.mp hj
  have hmod : (i + j) % ring.length = (p - n + j) % ring.length := by
    rw [Nat.add_mod, hi, ← Nat.add_mod]
  rw [hmod, List.getD_eq_getElem?_getD, h (p - n + j) (by omega) (by omega)]
  rfl

/-- The values of a whole ring are added up. -/
theorem Holds.sum [AddCommMonoid α] (hp : ring.length ≤ p) :
    ring.sum = ((List.range ring.length).map fun j => seq (p - ring.length + j)).sum := by
  have hrotate : ring.rotate ((p - ring.length) % ring.length) =
      (List.range ring.length).map fun j => seq (p - ring.length + j) := by
    apply List.ext_getElem?
    intro j
    by_cases hj : j < ring.length
    · rw [List.getElem?_rotate hj, Nat.add_mod_mod, Nat.add_comm j, List.getElem?_map,
        List.getElem?_range hj, h (p - ring.length + j) (by omega) (by omega)]
      rfl
    · rw [List.getElem?_eq_none (by simpa using not_lt.mp hj),
        List.getElem?_eq_none (by simpa using not_lt.mp hj)]
  rw [← hrotate]
  exact (List.rotate_perm ..).sum_eq.symm

end

end TorDaemon.Library.Rings

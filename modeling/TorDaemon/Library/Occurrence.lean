import Mathlib.Order.Lattice.Nat

/-! Where a list occurs in another one, and the search that goes from one element that is
like its first to the next. -/
namespace TorDaemon.Library.Occurrence
variable {α : Type*} {s q : List α} {j k : ℕ}

/-- The list occurs at an offset. -/
def OccursAt (s q : List α) (k : ℕ) : Prop := s <+: q.drop k

theorem OccursAt.length_le (h : OccursAt s q k) (hs : s ≠ []) : k + s.length ≤ q.length := by
  have hle := List.IsPrefix.length_le h
  have hpos := List.length_pos_iff.mpr hs
  rw [List.length_drop] at hle
  omega

theorem not_occursAt_of_ne (hs : s ≠ []) (h : q[k]? ≠ s.head?) : ¬ OccursAt s q k := by
  intro hocc
  cases s with
  | nil => exact hs rfl
  | cons a s =>
    obtain ⟨rest, hrest⟩ := hocc
    have hhead : q[k]? = some a := by
      rw [← List.head?_drop, ← hrest]
      rfl
    exact h hhead

/-- The search so far has passed by no occurrence. -/
def Passed (s q : List α) (k : ℕ) : Prop := ∀ j < k, ¬ OccursAt s q j

theorem Passed.zero (s q : List α) : Passed s q 0 := fun _ hj => absurd hj (Nat.not_lt_zero _)

theorem Passed.succ (h : Passed s q k) (hk : ¬ OccursAt s q k) : Passed s q (k + 1) := by
  intro j hj
  rcases Nat.lt_succ_iff_lt_or_eq.mp hj with hj | rfl
  · exact h j hj
  · exact hk

/-- It skips to the next element that is like the first one. -/
theorem Passed.skip (h : Passed s q j) (hs : s ≠ [])
    (hskip : ∀ i, j ≤ i → i < k → q[i]? ≠ s.head?) : Passed s q k := by
  intro i hi
  by_cases hij : i < j
  · exact h i hij
  · exact not_occursAt_of_ne hs (hskip i (by omega) hi)

section Decidable
variable [DecidableEq α]

instance (s q : List α) (k : ℕ) : Decidable (OccursAt s q k) :=
  inferInstanceAs (Decidable (s <+: q.drop k))

/-- The first offset at which the list occurs. -/
def firstOffset (s q : List α) : Option ℕ :=
  (List.range (q.length + 1)).find? fun k => OccursAt s q k

theorem Passed.firstOffset_some (h : Passed s q k) (hs : s ≠ []) (hocc : OccursAt s q k) :
    firstOffset s q = some k := by
  have hk := hocc.length_le hs
  rw [firstOffset, List.find?_range_eq_some]
  refine ⟨by simpa using hocc, by simp; omega, fun j hj => ?_⟩
  simpa using h j hj

theorem Passed.firstOffset_none (h : Passed s q k) (hs : s ≠ []) (hk : q.length ≤ k) :
    firstOffset s q = none := by
  rw [firstOffset, List.find?_eq_none]
  intro j _
  simp only [decide_eq_true_eq]
  intro hocc
  have hle := hocc.length_le hs
  have hpos := List.length_pos_iff.mpr hs
  exact h j (by omega) hocc

end Decidable

end TorDaemon.Library.Occurrence

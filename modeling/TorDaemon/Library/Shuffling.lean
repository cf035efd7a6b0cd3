import Mathlib.Data.List.Perm.Basic
import Mathlib.Data.Fin.Basic

/-! Shuffling a list in place: from a position down, each element changes places with one that is
drawn from those up to it. -/
namespace TorDaemon.Library.Shuffling
variable {α : Type*} {l : List α} {i j k m n : ℕ}

/-- Two elements change places, where both are in the list. -/
def swap (l : List α) (i j : ℕ) : List α :=
  match l[i]?, l[j]? with
  | some a, some b => (l.set i b).set j a
  | _, _ => l

/-- The positions from `n` down to 1, of which `rand` draws the partners. -/
def shuffle (rand : (n : ℕ) → Fin (n + 1)) : ℕ → List α → List α
  | 0, l => l
  | n + 1, l => shuffle rand n (swap l (rand (n + 1)) (n + 1))

theorem swap_of_lt (hi : i < l.length) (hj : j < l.length) :
    swap l i j = (l.set i l[j]).set j l[i] := by
  rw [swap, List.getElem?_eq_getElem hi, List.getElem?_eq_getElem hj]

theorem swap_perm : (swap l i j).Perm l := by
  unfold swap
  split
  · rename_i a b ha hb
    obtain ⟨hi, rfl⟩ := List.getElem?_eq_some_iff.mp ha
    obtain ⟨hj, rfl⟩ := List.getElem?_eq_some_iff.mp hb
    exact List.set_set_perm hi hj
  · exact List.Perm.refl l

@[simp] theorem swap_length : (swap l i j).length = l.length := swap_perm.length_eq

@[simp] theorem swap_self : swap l i i = l := by
  unfold swap
  split
  · rename_i a b ha hb
    cases ha.symm.trans hb
    rw [List.set_set]
    obtain ⟨hi, rfl⟩ := List.getElem?_eq_some_iff.mp ha
    exact List.set_getElem_self hi
  · rfl

theorem swap_take (hi : i < m) (hj : j < m) : (swap l i j).take m = swap (l.take m) i j := by
  rw [swap, swap, List.getElem?_take_of_lt hi, List.getElem?_take_of_lt hj]
  split
  · rw [List.take_set, List.take_set]
  · rfl

theorem swap_zero (hj : j < l.length) : (swap l 0 j)[0]? = l[j]? := by
  rw [swap_of_lt (Nat.zero_lt_of_lt hj) hj, List.getElem?_set]
  split
  · rename_i hzero
    subst hzero
    simp [hj]
  · rw [List.getElem?_set_self (Nat.zero_lt_of_lt hj), List.getElem?_eq_getElem hj]

variable {rand : (n : ℕ) → Fin (n + 1)}

/-- The elements before a position that is not reached stay before it. -/
theorem shuffle_take_perm (h : n < m) : ((shuffle rand n l).take m).Perm (l.take m) := by
  induction n generalizing l with
  | zero => exact List.Perm.refl _
  | succ n ih =>
    refine (ih (by omega)).trans ?_
    rw [swap_take (by omega) h]
    exact swap_perm

theorem shuffle_perm : (shuffle rand n l).Perm l := by
  induction n generalizing l with
  | zero => exact List.Perm.refl _
  | succ n ih => exact ih.trans swap_perm

theorem shuffle_eq_self (h : ∀ k, 1 ≤ k → k ≤ n → (rand k : ℕ) = k) : shuffle rand n l = l := by
  induction n generalizing l with
  | zero => rfl
  | succ n ih =>
    rw [shuffle, h (n + 1) (by omega) le_rfl, swap_self]
    exact ih fun k hk hle => h k hk (by omega)

/-- Every element before the end may be drawn to the front. -/
theorem exists_shuffle_head (hj : j ≤ n) (hn : n < l.length) :
    ∃ rand, (shuffle rand n l)[0]? = l[j]? := by
  refine ⟨fun k => if k = j then 0 else Fin.last k, ?_⟩
  induction n with
  | zero =>
    obtain rfl : j = 0 := by omega
    rfl
  | succ n ih =>
    rw [shuffle]
    by_cases hlast : n + 1 = j
    · subst hlast
      rw [if_pos rfl, shuffle_eq_self fun k _ hk => ?_]
      · exact swap_zero hn
      · rw [if_neg (by omega), Fin.val_last]
    · rw [if_neg hlast, Fin.val_last, swap_self]
      exact ih (by omega) (by omega)

end TorDaemon.Library.Shuffling

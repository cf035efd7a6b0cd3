import Mathlib.Data.List.TakeWhile

/-! Functions of numbers that are kept as a list of ranges, one after the other. -/
namespace TorDaemon.Library.Tiling
variable {ι β : Type*} {lo hi : ι → ℕ} {val : ι → β} {f g : ℕ → β} {a m n p : ℕ} {x : ι}
  {xs ys : List ι}

/-- The ranges of a list, one after the other, are those from `a` to before `n`, and have the
values of `f`. -/
def Tiles (lo hi : ι → ℕ) (val : ι → β) (f : ℕ → β) : ℕ → ℕ → List ι → Prop
  | a, n, [] => a = n
  | a, n, x :: xs => lo x = a ∧ a ≤ hi x ∧ (∀ p, a ≤ p → p ≤ hi x → f p = val x) ∧
      Tiles lo hi val f (hi x + 1) n xs

theorem Tiles.le (h : Tiles lo hi val f a n xs) : a ≤ n := by
  induction xs generalizing a with
  | nil => exact h.le
  | cons x xs ih =>
    have hle := h.2.1
    have hrest := ih h.2.2.2
    omega

theorem tiles_append : Tiles lo hi val f a n (xs ++ ys) ↔
    ∃ m, Tiles lo hi val f a m xs ∧ Tiles lo hi val f m n ys := by
  induction xs generalizing a with
  | nil =>
    constructor
    · intro h
      exact ⟨a, rfl, h⟩
    · rintro ⟨m, rfl, h⟩
      exact h
  | cons x xs ih =>
    simp only [List.cons_append, Tiles, ih]
    constructor
    · rintro ⟨hlo, hhi, hval, m, hxs, hys⟩
      exact ⟨m, ⟨hlo, hhi, hval, hxs⟩, hys⟩
    · rintro ⟨m, ⟨hlo, hhi, hval, hxs⟩, hys⟩
      exact ⟨hlo, hhi, hval, m, hxs, hys⟩

theorem Tiles.append (hxs : Tiles lo hi val f a m xs) (hys : Tiles lo hi val f m n ys) :
    Tiles lo hi val f a n (xs ++ ys) := tiles_append.mpr ⟨m, hxs, hys⟩

theorem tiles_singleton (hle : lo x ≤ hi x) (hval : ∀ p, lo x ≤ p → p ≤ hi x → f p = val x) :
    Tiles lo hi val f (lo x) (hi x + 1) [x] := ⟨rfl, hle, hval, rfl⟩

section
variable (h : Tiles lo hi val f a n xs)
include h

/-- Each range is within those of the list. -/
theorem Tiles.mem (hx : x ∈ xs) : a ≤ lo x ∧ lo x ≤ hi x ∧ hi x < n := by
  obtain ⟨pre, post, rfl⟩ := List.append_of_mem hx
  obtain ⟨m, hpre, hlo, hhi, -, hpost⟩ := tiles_append.mp h
  have hle := hpre.le
  have hlt := hpost.le
  omega

theorem Tiles.value (hx : x ∈ xs) (hlo : lo x ≤ p) (hhi : p ≤ hi x) : f p = val x := by
  obtain ⟨pre, post, rfl⟩ := List.append_of_mem hx
  obtain ⟨m, -, rfl, -, hval, -⟩ := tiles_append.mp h
  exact hval p hlo hhi

/-- Some range has the number. -/
theorem Tiles.exists_mem (ha : a ≤ p) (hn : p < n) : ∃ x ∈ xs, lo x ≤ p ∧ p ≤ hi x := by
  induction xs generalizing a with
  | nil =>
    obtain rfl : a = n := h
    omega
  | cons x xs ih =>
    obtain ⟨rfl, -, -, hrest⟩ := h
    by_cases hp : p ≤ hi x
    · exact ⟨x, List.mem_cons_self, ha, hp⟩
    · obtain ⟨y, hy, hcovers⟩ := ih hrest (by omega)
      exact ⟨y, List.mem_cons_of_mem _ hy, hcovers⟩

theorem Tiles.congr (hfg : ∀ p, a ≤ p → p < n → f p = g p) : Tiles lo hi val g a n xs := by
  induction xs generalizing a with
  | nil => exact h
  | cons x xs ih =>
    obtain ⟨hlo, hhi, hval, hrest⟩ := h
    have hlt := hrest.le
    refine ⟨hlo, hhi, ?_, ih hrest fun p ha hn => hfg p (by omega) hn⟩
    intro p ha hp
    rw [← hfg p ha (by omega)]
    exact hval p ha hp

/-- The values of all ranges change, and the ranges stay. -/
theorem Tiles.map {k : ι → ι} {t : β → β}
    (hlo : ∀ x ∈ xs, lo (k x) = lo x) (hhi : ∀ x ∈ xs, hi (k x) = hi x)
    (hval : ∀ x ∈ xs, val (k x) = t (val x)) :
    Tiles lo hi val (fun p => t (f p)) a n (xs.map k) := by
  induction xs generalizing a with
  | nil => exact h
  | cons x xs ih =>
    have hrest := ih h.2.2.2 (fun y hy => hlo y (.tail _ hy)) (fun y hy => hhi y (.tail _ hy))
      fun y hy => hval y (.tail _ hy)
    rw [List.map_cons, Tiles, hlo x (.head _), hhi x (.head _), hval x (.head _)]
    refine ⟨h.1, h.2.1, ?_, hrest⟩
    intro p ha hp
    rw [h.2.2.1 p ha hp]

/-- The ranges that end before a number, and the one that has it. -/
theorem Tiles.exists_at (ha : a ≤ p) (hn : p < n) :
    ∃ x after, xs.dropWhile (fun x => hi x < p) = x :: after ∧ lo x ≤ p ∧ p ≤ hi x ∧
      Tiles lo hi val f a (lo x) (xs.takeWhile fun x => hi x < p) ∧
      Tiles lo hi val f (lo x) n (x :: after) := by
  induction xs generalizing a with
  | nil =>
    obtain rfl : a = n := h
    omega
  | cons y xs ih =>
    by_cases hy : hi y < p
    · obtain ⟨hlo, hhi, hval, hrest⟩ := h
      obtain ⟨x, after, hdrop, hlox, hhix, hbefore, hafter⟩ := ih hrest hy
      refine ⟨x, after, ?_, hlox, hhix, ?_, hafter⟩
      · rw [List.dropWhile_cons_of_pos (by simpa using hy), hdrop]
      · rw [List.takeWhile_cons_of_pos (by simpa using hy)]
        exact ⟨hlo, hhi, hval, hbefore⟩
    · have hlo := h.1
      refine ⟨y, xs, ?_, by omega, not_lt.mp hy, ?_, ?_⟩
      · rw [List.dropWhile_cons_of_neg (by simpa using hy)]
      · rw [List.takeWhile_cons_of_neg (by simpa using hy)]
        exact hlo.symm
      · rwa [hlo]

end

/-- The ranges up to where one ends. -/
theorem Tiles.span (hxs : Tiles lo hi val f a m xs) (hys : Tiles lo hi val f m n ys) :
    (xs ++ ys).takeWhile (fun x => hi x < m) = xs ∧
      (xs ++ ys).dropWhile (fun x => hi x < m) = ys := by
  have hpos : ∀ x ∈ xs, decide (hi x < m) = true := by
    intro x hx
    simpa using (hxs.mem hx).2.2
  rw [List.takeWhile_append_of_pos hpos, List.dropWhile_append_of_pos hpos]
  cases ys with
  | nil => simp
  | cons y ys =>
    have hneg : ¬hi y < m := not_lt.mpr hys.2.1
    simp [hneg]

end TorDaemon.Library.Tiling

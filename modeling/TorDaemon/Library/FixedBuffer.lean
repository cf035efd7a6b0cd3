import Mathlib.Data.List.Basic

/-! Output into a buffer of a fixed size, which is written to from the front. A write past the
end is `none`. -/
namespace TorDaemon.Library.FixedBuffer
variable {α : Type*} {size : ℕ} {written l : List α}

def put (size : ℕ) (written : List α) (a : α) : Option (List α) :=
  if written.length < size then some (written ++ [a]) else none

def putAll (size : ℕ) (written l : List α) : Option (List α) := l.foldlM (put size) written

theorem put_eq (h : written.length < size) (a : α) : put size written a = some (written ++ [a]) :=
  if_pos h

theorem putAll_eq (h : written.length + l.length ≤ size) :
    putAll size written l = some (written ++ l) := by
  induction l generalizing written with
  | nil => simp [putAll]
  | cons a l ih =>
    rw [List.length_cons] at h
    have hrest : putAll size (written ++ [a]) l = some (written ++ [a] ++ l) :=
      ih (by rw [List.length_append, List.length_singleton]; omega)
    rw [putAll, List.foldlM_cons, put_eq (by omega)]
    simpa [putAll] using hrest

/-- The whole buffer, which was filled with one value before. -/
def contents (size : ℕ) (fill : α) (written : List α) : List α :=
  written ++ List.replicate (size - written.length) fill

theorem length_contents (fill : α) (h : written.length ≤ size) :
    (contents size fill written).length = size := by
  rw [contents, List.length_append, List.length_replicate]
  omega

/-- The next place of the buffer is set. -/
theorem contents_set (fill a : α) (h : written.length < size) :
    (contents size fill written).set written.length a = contents size fill (written ++ [a]) := by
  obtain ⟨k, hk⟩ : ∃ k, size - written.length = k + 1 := ⟨size - written.length - 1, by omega⟩
  have hrest : size - (written ++ [a]).length = k := by
    rw [List.length_append, List.length_singleton]
    omega
  rw [contents, contents, hk, hrest, List.set_append_right _ _ (Nat.le_refl _), Nat.sub_self,
    List.replicate_succ, List.set_cons_zero, List.append_assoc, List.singleton_append]

/-- One more of the value that it was filled with changes nothing. -/
theorem contents_concat_fill (fill : α) (h : written.length < size) :
    contents size fill (written ++ [fill]) = contents size fill written := by
  rw [contents, contents, List.length_append, List.length_singleton, List.append_assoc,
    List.singleton_append, ← List.replicate_succ]
  congr 2
  omega

end TorDaemon.Library.FixedBuffer

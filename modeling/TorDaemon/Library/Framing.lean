import Mathlib.Data.List.Basic

/-! Items that say themselves where they end, one after the other. -/
namespace TorDaemon.Library.Framing
variable {α ι : Type*} {encode : ι → List α} {i j : ι} {is js : List ι} {l rest rest' : List α}

/-- An item is read off the front of a text in one way. -/
structure SelfDelimiting (encode : ι → List α) : Prop where
  ne_nil : ∀ i, encode i ≠ []
  split : ∀ i j rest rest', encode i ++ rest = encode j ++ rest' → i = j ∧ rest = rest'

theorem SelfDelimiting.flatMap_inj (h : SelfDelimiting encode)
    (heq : is.flatMap encode = js.flatMap encode) : is = js := by
  induction is generalizing js with
  | nil =>
    cases js with
    | nil => rfl
    | cons j js =>
      exact absurd (List.append_eq_nil_iff.mp heq.symm).1 (h.ne_nil j)
  | cons i is ih =>
    cases js with
    | nil =>
      exact absurd (List.append_eq_nil_iff.mp heq).1 (h.ne_nil i)
    | cons j js =>
      obtain ⟨rfl, hrest⟩ := h.split i j _ _ heq
      rw [ih hrest]

/-- The first item of a text of items is the one that is read off its front. -/
theorem SelfDelimiting.exists_cons (h : SelfDelimiting encode)
    (heq : encode i ++ rest = is.flatMap encode) :
    ∃ js, is = i :: js ∧ rest = js.flatMap encode := by
  cases is with
  | nil => exact absurd (List.append_eq_nil_iff.mp heq).1 (h.ne_nil i)
  | cons j js =>
    obtain ⟨rfl, hrest⟩ := h.split i j _ _ heq
    exact ⟨js, rfl, hrest⟩

section Readers
variable {read : List α → Option (ι × List α)}

/-- A number of items, one after the other. -/
def readItems (read : List α → Option (ι × List α)) : ℕ → List α → Option (List ι × List α)
  | 0, l => some ([], l)
  | n + 1, l => do
    let (i, l) ← read l
    let (is, l) ← readItems read n l
    return (i :: is, l)

theorem readItems_flatMap (h : ∀ i ∈ is, ∀ rest, read (encode i ++ rest) = some (i, rest)) :
    readItems read is.length (is.flatMap encode ++ rest) = some (is, rest) := by
  induction is with
  | nil => rfl
  | cons i is ih =>
    have hfirst := h i List.mem_cons_self (is.flatMap encode ++ rest)
    have hothers := ih fun j hj => h j (List.mem_cons_of_mem i hj)
    rw [List.flatMap_cons, List.append_assoc, List.length_cons, readItems, hfirst]
    simp [hothers]

end Readers

end TorDaemon.Library.Framing

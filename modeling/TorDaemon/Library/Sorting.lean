import Mathlib.Data.List.Sort
import Mathlib.Data.Prod.Lex

/-! Sorting as C gives it: some ordered permutation of the input, with no promise
about the order of elements that compare equal. -/
namespace TorDaemon.Library.Sorting
variable {α : Type*} {cmp : α → α → Ordering}

/-- A sorting function for one comparison callback. -/
structure Qsort (cmp : α → α → Ordering) where
  sort : List α → List α
  perm : ∀ l, (sort l).Perm l
  sorted : ∀ l, (sort l).Pairwise fun a b => (cmp a b).isLE

/-- The relation that a sorted list's elements are in. -/
def Before (cmp : α → α → Ordering) (a b : α) : Prop := (cmp a b).isLE

instance : DecidableRel (Before cmp) :=
  fun a b => inferInstanceAs (Decidable ((cmp a b).isLE = true))

instance [Std.OrientedCmp cmp] : Std.Total (Before cmp) where
  total a b := by
    have hswap : cmp b a = (cmp a b).swap := Std.OrientedCmp.eq_swap
    unfold Before
    rw [hswap, Ordering.isLE_swap]
    cases cmp a b <;> simp

instance [Std.TransCmp cmp] : IsTrans α (Before cmp) := ⟨fun _ _ _ => Std.TransCmp.isLE_trans⟩

theorem before_perm (cmp : α → α → Ordering) (l : List α) : (l.insertionSort (Before cmp)).Perm l :=
  List.perm_insertionSort _ l

/-- The insertion sort, which keeps equal elements in the order of the input. -/
def stableQsort (cmp : α → α → Ordering) [Std.TransCmp cmp] : Qsort cmp where
  sort l := l.insertionSort (Before cmp)
  perm := before_perm cmp
  sorted l := List.pairwise_insertionSort (Before cmp) l

/-- Two sorted permutations agree where only equal elements compare equal. -/
theorem sorted_unique {l l' : List α} [Std.OrientedCmp cmp]
    (h : l.Pairwise fun a b => (cmp a b).isLE) (h' : l'.Pairwise fun a b => (cmp a b).isLE)
    (hperm : l.Perm l') (hcmp : ∀ a ∈ l, ∀ b ∈ l, cmp a b = .eq → a = b) : l = l' := by
  refine hperm.eq_of_pairwise (fun a b ha hb hab hba => hcmp a ha b (hperm.mem_iff.mpr hb) ?_) h h'
  exact Std.OrientedCmp.isLE_antisymm hab hba

/-- Of two equal elements the insertion sort puts first the one it meets first. -/
theorem stableQsort_sublist [Std.TransCmp cmp] {a b : α} {l : List α} (hab : cmp a b = .eq)
    (h : [a, b].Sublist l) : [a, b].Sublist ((stableQsort cmp).sort l) := by
  have hbefore : Before cmp a b := by simp [Before, hab]
  exact List.pair_sublist_insertionSort hbefore h

end TorDaemon.Library.Sorting

import Mathlib.Algebra.Order.Ring.Int
import Mathlib.Data.Multiset.Basic
import TorDaemon.Common
import TorDaemon.Library.Heap

/-! The priority queue of `smartlist.c`: a binary heap in the used part of a
smartlist, whose elements store their own position. The elements' index fields
are a function on the elements; `none` is a failed assertion. -/
namespace TorDaemon.Container.Pqueue
open Library.Heap

section Pqueue
variable {α : Type*}

def maxParentIdx : ℕ := (intMax - 2) / 2

/-- A comparison callback: a total preorder by the sign of its result. -/
structure Comparator (α : Type*) where
  compare : α → α → ℤ
  swapped : ∀ a b, compare a b < 0 ↔ 0 < compare b a
  chained : ∀ a b c, compare a b ≤ 0 → compare b c ≤ 0 → compare a c ≤ 0

structure Smartlist (α : Type*) where
  list : List α
  idx : α → ℤ

def entries (sl : Smartlist α) : ℕ → Option α := fun i => sl.list[i]?

/-- `compare(sl->list[i], sl->list[j])`, at positions the callers keep in range. -/
def compareAt (c : Comparator α) (sl : Smartlist α) (i j : ℕ) : ℤ :=
  match sl.list[i]?, sl.list[j]? with
  | some a, some b => c.compare a b
  | _, _ => 0

section Operations
variable [DecidableEq α]

def updateIdx (sl : Smartlist α) (i : ℕ) : Smartlist α :=
  match sl.list[i]? with
  | some updated => { sl with idx := Function.update sl.idx updated i }
  | none => sl

/-- The exchange in the loops of the heap functions. -/
def swap (sl : Smartlist α) (i j : ℕ) : Smartlist α :=
  match sl.list[i]?, sl.list[j]? with
  | some a, some b => updateIdx (updateIdx { sl with list := (sl.list.set i b).set j a } i) j
  | _, _ => sl

/-- The position of a smallest one of an entry and its children. The entry
itself is it only if it is strictly below its left child. -/
def bestIdx (c : Comparator α) (sl : Smartlist α) (idx : ℕ) : ℕ :=
  let left := leftChild idx
  let best := if compareAt c sl idx left < 0 then idx else left
  if left + 1 < sl.list.length ∧ compareAt c sl (left + 1) best < 0 then left + 1 else best

theorem updateIdx_list (sl : Smartlist α) (i : ℕ) : (updateIdx sl i).list = sl.list := by
  unfold updateIdx
  split <;> rfl

theorem swap_length (sl : Smartlist α) (i j : ℕ) : (swap sl i j).list.length = sl.list.length := by
  unfold swap
  split <;> simp [updateIdx_list]

omit [DecidableEq α] in
theorem bestIdx_cases (c : Comparator α) (sl : Smartlist α) (idx : ℕ) :
    bestIdx c sl idx = idx ∨ bestIdx c sl idx = leftChild idx ∨
      (bestIdx c sl idx = rightChild idx ∧ rightChild idx < sl.list.length) := by
  have hright : leftChild idx + 1 = rightChild idx := rfl
  unfold bestIdx
  simp only [hright]
  split_ifs <;> simp_all

def heapify (c : Comparator α) (sl : Smartlist α) (idx : ℕ) : Smartlist α :=
  if maxParentIdx < idx then sl
  else if sl.list.length ≤ leftChild idx then sl
  else if bestIdx c sl idx = idx then sl
  else heapify c (swap sl idx (bestIdx c sl idx)) (bestIdx c sl idx)
termination_by sl.list.length - idx
decreasing_by
  have hbest := bestIdx_cases c sl idx
  rw [swap_length]
  unfold leftChild rightChild at *
  omega

/-- The loop of `smartlist_pqueue_add`. -/
def siftUp (c : Comparator α) (sl : Smartlist α) (idx : ℕ) : Smartlist α :=
  if idx = 0 then sl
  else if compareAt c sl idx (parent idx) < 0 then
    siftUp c (swap sl (parent idx) idx) (parent idx)
  else sl
termination_by idx
decreasing_by exact parent_lt (by omega)

section
variable (c : Comparator α)

section
variable (sl : Smartlist α)

def pqueueAdd (item : α) : Option (Smartlist α) :=
  if intMax < sl.list.length + 1 then none
  else
    let sl' := updateIdx { sl with list := sl.list ++ [item] } sl.list.length
    some (siftUp c sl' sl.list.length)

/-- `*IDXP(item) = -1`. -/
def clearIdx (item : α) : Smartlist α :=
  { sl with idx := Function.update sl.idx item (-1) }

/-- The last entry moves into position `idx`, and its index field follows. -/
def moveLast (idx : ℕ) : Smartlist α :=
  match sl.list.getLast? with
  | some last => updateIdx { sl with list := sl.list.dropLast.set idx last } idx
  | none => sl

def pqueuePop : Option (α × Smartlist α) :=
  match sl.list with
  | [] => none
  | top :: rest =>
    let sl' := clearIdx sl top
    if rest.length ≠ 0 then some (top, heapify c (moveLast sl' 0) 0)
    else some (top, { sl' with list := [] })

/-- The fields of `sl` are read before the item's index field is cleared. -/
def pqueueRemove (item : α) : Option (Smartlist α) :=
  let idx := (sl.idx item).toNat
  if sl.idx item < 0 then none
  else if sl.list[idx]? ≠ some item then none
  else
    let sl' := clearIdx sl item
    if idx = sl.list.length - 1 then some { sl' with list := sl.list.dropLast }
    else some (heapify c (moveLast sl' idx) idx)

def AssertOk : Prop :=
  ∀ i < sl.list.length,
    (0 < i → compareAt c sl (parent i) i ≤ 0) ∧ sl.list[i]?.map sl.idx = some (i : ℤ)

end

end

instance (c : Comparator α) (sl : Smartlist α) : Decidable (AssertOk c sl) :=
  inferInstanceAs (Decidable (∀ i < sl.list.length, _))

end Operations

end Pqueue

/-! What each priority queue function does to the heap order, the stored
positions and the multiset of elements. -/

section PqueueOrder
variable {α : Type*} {c : Comparator α} {sl sl' : Smartlist α} {i j : ℕ} {a b : α}

section
variable (c : Comparator α)

/-- The order of the heap. -/
def Comparator.le (a b : α) : Prop := c.compare a b ≤ 0

theorem Comparator.compare_neg_iff {a b : α} : c.compare a b < 0 ↔ ¬ c.le b a := by
  rw [c.swapped, Comparator.le, not_le]

theorem Comparator.le_total (a b : α) : c.le a b ∨ c.le b a := by
  have h := c.swapped a b
  unfold Comparator.le
  omega

end

instance (c : Comparator α) : IsTrans α c.le := ⟨c.chained⟩

instance (c : Comparator α) : Std.Refl c.le := ⟨fun a => (c.le_total a a).elim id id⟩

/-- Every element's index field is its position. -/
def Indexed (sl : Smartlist α) : Prop := ∀ (i : ℕ) a, sl.list[i]? = some a → sl.idx a = i

theorem Indexed.injective (h : Indexed sl) (hi : sl.list[i]? = some a) (hj : sl.list[j]? = some a) :
    i = j := by
  have hi' := h i a hi
  have hj' := h j a hj
  omega

theorem Indexed.congr {l : List α} {idx idx' : α → ℤ} (h : Indexed ⟨l, idx⟩)
    (heq : ∀ a ∈ l, idx' a = idx a) : Indexed ⟨l, idx'⟩ := by
  intro i a ha
  exact (heq a (List.mem_of_getElem? ha)).trans (h i a ha)

theorem assertOk_iff [DecidableEq α] : AssertOk c sl ↔ Ordered c.le (entries sl) ∧ Indexed sl := by
  constructor
  · intro h
    constructor
    · intro k hk x y hx hy
      have hlt := (List.getElem?_eq_some_iff.mp hy).1
      have hcmp := (h k hlt).1 hk
      unfold entries at hx hy
      simpa [Comparator.le, compareAt, hx, hy] using hcmp
    · intro k x hx
      have hlt := (List.getElem?_eq_some_iff.mp hx).1
      simpa [hx] using (h k hlt).2
  · rintro ⟨hord, hidx⟩ k hk
    have hx : sl.list[k]? = some sl.list[k] := List.getElem?_eq_getElem hk
    constructor
    · intro hpos
      have hlt := parent_lt hpos
      have hp : sl.list[parent k]? = some sl.list[parent k] := List.getElem?_eq_getElem (by omega)
      simpa [Comparator.le, compareAt, hx, hp] using hord k hpos _ _ hp hx
    · simpa [hx] using hidx k _ hx

theorem entries_isSome : (entries sl i).isSome ↔ i < sl.list.length := by
  simp [entries]

theorem entries_parent_isSome {k : ℕ} (hk : 0 < k) (h : (entries sl k).isSome) :
    (entries sl (parent k)).isSome := by
  rw [entries_isSome] at h ⊢
  exact (parent_lt hk).trans h

section Swap
variable [DecidableEq α]

theorem swap_of_ne (hij : i ≠ j) (hi : sl.list[i]? = some a) (hj : sl.list[j]? = some b) :
    swap sl i j = { list := (sl.list.set i b).set j a
                    idx := Function.update (Function.update sl.idx b i) a j } := by
  have hilt := (List.getElem?_eq_some_iff.mp hi).1
  have hjlt := (List.getElem?_eq_some_iff.mp hj).1
  have hset : ((sl.list.set i b).set j a)[i]? = some b := by
    simp [hij.symm, hilt]
  have hset' : ((sl.list.set i b).set j a)[j]? = some a := by
    simp [hjlt]
  simp only [swap, hi, hj, updateIdx, hset, hset']

theorem entries_swap (hij : i ≠ j) (hi : i < sl.list.length) (hj : j < sl.list.length) :
    entries (swap sl i j) = exchange (entries sl) i j := by
  rw [swap_of_ne hij (List.getElem?_eq_getElem hi) (List.getElem?_eq_getElem hj)]
  funext k
  simp only [entries, exchange, List.getElem?_set, List.length_set]
  by_cases hkj : k = j
  · subst hkj
    simp [hj, List.getElem?_eq_getElem hi]
  · by_cases hki : k = i
    · subst hki
      simp [hi, Ne.symm hkj, List.getElem?_eq_getElem hj]
    · simp [Ne.symm hkj, Ne.symm hki, Equiv.swap_apply_of_ne_of_ne hki hkj]

theorem swap_perm (hij : i ≠ j) (hi : i < sl.list.length) (hj : j < sl.list.length) :
    (swap sl i j).list.Perm sl.list := by
  rw [swap_of_ne hij (List.getElem?_eq_getElem hi) (List.getElem?_eq_getElem hj)]
  exact List.set_set_perm hi hj

theorem Indexed.swap (h : Indexed sl) (hij : i ≠ j) (hi : i < sl.list.length)
    (hj : j < sl.list.length) : Indexed (swap sl i j) := by
  have hab : sl.list[j] ≠ sl.list[i] := fun heq =>
    hij (h.injective (List.getElem?_eq_getElem hi) (heq ▸ List.getElem?_eq_getElem hj))
  rw [swap_of_ne hij (List.getElem?_eq_getElem hi) (List.getElem?_eq_getElem hj)]
  intro k x hx
  simp only [List.getElem?_set, List.length_set] at hx
  by_cases hkj : k = j
  · subst hkj
    simp only [if_pos, hj, Option.some.injEq] at hx
    simp [← hx]
  · rw [if_neg (Ne.symm hkj)] at hx
    by_cases hki : k = i
    · subst hki
      simp only [if_pos, hi, Option.some.injEq] at hx
      simp [← hx, hab]
    · rw [if_neg (Ne.symm hki)] at hx
      have hxi : x ≠ sl.list[i] := fun heq =>
        hki (h.injective hx (heq ▸ List.getElem?_eq_getElem hi))
      have hxj : x ≠ sl.list[j] := fun heq =>
        hkj (h.injective hx (heq ▸ List.getElem?_eq_getElem hj))
      simpa [Function.update_of_ne hxi, Function.update_of_ne hxj] using h k x hx

theorem swap_idx_of_notMem (hij : i ≠ j) (hi : i < sl.list.length) (hj : j < sl.list.length)
    (ha : a ∉ sl.list) : (swap sl i j).idx a = sl.idx a := by
  rw [swap_of_ne hij (List.getElem?_eq_getElem hi) (List.getElem?_eq_getElem hj)]
  have hai : a ≠ sl.list[i] := fun heq => ha (heq ▸ List.getElem_mem hi)
  have haj : a ≠ sl.list[j] := fun heq => ha (heq ▸ List.getElem_mem hj)
  simp [Function.update_of_ne hai, Function.update_of_ne haj]

end Swap

/-- A smartlist function has only moved elements, and kept their index fields right. -/
structure Rearranged (sl sl' : Smartlist α) : Prop where
  perm : sl'.list.Perm sl.list
  indexed : Indexed sl → Indexed sl'
  other : ∀ a ∉ sl.list, sl'.idx a = sl.idx a

theorem Rearranged.refl (sl : Smartlist α) : Rearranged sl sl :=
  ⟨.refl _, id, fun _ _ => rfl⟩

theorem Rearranged.trans {sl₁ sl₂ sl₃ : Smartlist α} (h : Rearranged sl₁ sl₂)
    (h' : Rearranged sl₂ sl₃) : Rearranged sl₁ sl₃ where
  perm := h'.perm.trans h.perm
  indexed hi := h'.indexed (h.indexed hi)
  other a ha := (h'.other a (by rwa [h.perm.mem_iff])).trans (h.other a ha)

variable [DecidableEq α]

theorem rearranged_swap (hij : i ≠ j) (hi : i < sl.list.length) (hj : j < sl.list.length) :
    Rearranged sl (swap sl i j) where
  perm := swap_perm hij hi hj
  indexed h := h.swap hij hi hj
  other _ ha := swap_idx_of_notMem hij hi hj ha

omit [DecidableEq α] in
theorem inOrder_of_compareAt (h : compareAt c sl i j < 0) : InOrder c.le (entries sl) i j := by
  intro a b ha hb
  unfold entries at ha hb
  simp only [compareAt, ha, hb] at h
  exact Int.le_of_lt h

omit [DecidableEq α] in
theorem inOrder_of_not_compareAt (h : ¬ compareAt c sl i j < 0) :
    InOrder c.le (entries sl) j i := by
  intro b a hb ha
  unfold entries at ha hb
  simpa only [compareAt, ha, hb, c.compare_neg_iff, not_not] using h

omit [DecidableEq α] in
theorem inOrder_self : InOrder c.le (entries sl) i i := by
  intro a b ha hb
  rw [ha, Option.some.injEq] at hb
  exact hb ▸ Std.Refl.refl a

omit [DecidableEq α] in
/-- The chosen entry is not greater than the entry at `i` and its children. -/
theorem bestIdx_inOrder (c : Comparator α) (sl : Smartlist α) (hi : leftChild i < sl.list.length) :
    InOrder c.le (entries sl) (bestIdx c sl i) i ∧
      InOrder c.le (entries sl) (bestIdx c sl i) (leftChild i) ∧
      InOrder c.le (entries sl) (bestIdx c sl i) (rightChild i) := by
  have hleft : (entries sl (leftChild i)).isSome := entries_isSome.mpr hi
  have hself : (entries sl i).isSome := by
    rw [entries_isSome]
    unfold leftChild at hi
    omega
  have hright (k : ℕ)
      (h : ¬ (rightChild i < sl.list.length ∧ compareAt c sl (rightChild i) k < 0)) :
      InOrder c.le (entries sl) k (rightChild i) := by
    by_cases hlt : rightChild i < sl.list.length
    · exact inOrder_of_not_compareAt fun hcmp => h ⟨hlt, hcmp⟩
    · intro x y _ hy
      exact absurd (entries_isSome.mp (Option.isSome_of_eq_some hy)) hlt
  have hsucc : leftChild i + 1 = rightChild i := rfl
  by_cases hcmp : compareAt c sl i (leftChild i) < 0
  · have hil := inOrder_of_compareAt hcmp
    simp only [bestIdx, hcmp, if_true, hsucc]
    split_ifs with hr
    · have hri := inOrder_of_compareAt hr.2
      exact ⟨hri, hri.trans hil hself, inOrder_self⟩
    · exact ⟨inOrder_self, hil, hright i hr⟩
  · have hli := inOrder_of_not_compareAt hcmp
    simp only [bestIdx, hcmp, if_false, hsucc]
    split_ifs with hr
    · have hrl := inOrder_of_compareAt hr.2
      exact ⟨hrl.trans hli hleft, hrl, inOrder_self⟩
    · exact ⟨hli, inOrder_self, hright _ hr⟩

omit [DecidableEq α] in
theorem bestIdx_child (hi : leftChild i < sl.list.length) (hne : bestIdx c sl i ≠ i) :
    i < bestIdx c sl i ∧ parent (bestIdx c sl i) = i ∧ bestIdx c sl i < sl.list.length := by
  have h := bestIdx_cases c sl i
  unfold leftChild rightChild at *
  unfold parent
  omega

theorem heapify_rearranged (c : Comparator α) (sl : Smartlist α) (i : ℕ) :
    Rearranged sl (heapify c sl i) := by
  induction sl, i using heapify.induct (c := c) with
  | case1 sl i h | case2 sl i _ h | case3 sl i _ _ h =>
    rw [heapify]
    simp [*, Rearranged.refl]
  | case4 sl i h hlen hbest ih =>
    rw [heapify]
    obtain ⟨hlt, -, hb⟩ := bestIdx_child (by omega) hbest
    simp only [h, hlen, hbest, if_false]
    exact (rearranged_swap hlt.ne (by omega) hb).trans ih

/-- The hole's loop leaves the positions before it alone. -/
theorem heapify_before {k : ℕ} (c : Comparator α) (sl : Smartlist α) (hk : k < i) :
    entries (heapify c sl i) k = entries sl k := by
  induction sl, i using heapify.induct (c := c) with
  | case1 sl i h | case2 sl i _ h | case3 sl i _ _ h =>
    rw [heapify]
    simp [*]
  | case4 sl i h hlen hbest ih =>
    rw [heapify]
    obtain ⟨hlt, -, hb⟩ := bestIdx_child (by omega) hbest
    simp only [h, hlen, hbest, if_false]
    rw [ih (by omega), entries_swap hlt.ne (by omega) hb, exchange_other _ (by omega) (by omega)]

theorem heapify_ordered (hlen : sl.list.length ≤ intMax) (h : DownOrder c.le (entries sl) i) :
    Ordered c.le (entries (heapify c sl i)) := by
  induction sl, i using heapify.induct (c := c) with
  | case1 sl i hmax | case2 sl i _ hmax =>
    rw [heapify]
    simp only [*, if_true, if_false]
    refine h.ordered fun k hk hpk x y _ hy => ?_
    have hlt := entries_isSome.mp (Option.isSome_of_eq_some hy)
    unfold parent at hpk
    simp only [maxParentIdx, intMax, leftChild] at *
    omega
  | case3 sl i _ hleft hbest =>
    rw [heapify]
    simp only [*, if_true, if_false]
    obtain ⟨-, hl, hr⟩ := bestIdx_inOrder c sl (i := i) (by omega)
    rw [hbest] at hl hr
    refine h.ordered fun k hk hpk => ?_
    rcases child_of_parent hk hpk with rfl | rfl
    · exact hl
    · exact hr
  | case4 sl i hmax hleft hbest ih =>
    rw [heapify]
    simp only [hmax, hleft, hbest, if_false]
    obtain ⟨hlt, hparent, hb⟩ := bestIdx_child (by omega) hbest
    obtain ⟨hi, hl, hr⟩ := bestIdx_inOrder c sl (i := i) (by omega)
    refine ih (by rwa [swap_length]) ?_
    rw [entries_swap hlt.ne (by omega) hb]
    refine h.exchange_child (by omega) hparent hi fun k hk _ hpk => ?_
    rcases child_of_parent hk hpk with rfl | rfl
    · exact hl
    · exact hr

/-- The entry that a sift leaves at its first position is not greater than it was. -/
theorem heapify_at_le (c : Comparator α) (sl : Smartlist α) (ha : entries sl i = some a) :
    ∃ b, entries (heapify c sl i) i = some b ∧ c.le b a := by
  have hi := entries_isSome.mp (Option.isSome_of_eq_some ha)
  rw [heapify]
  split_ifs with hmax hleft hbest
  · exact ⟨a, ha, Std.Refl.refl a⟩
  · exact ⟨a, ha, Std.Refl.refl a⟩
  · exact ⟨a, ha, Std.Refl.refl a⟩
  · obtain ⟨hlt, -, hb⟩ := bestIdx_child (by omega) hbest
    obtain ⟨b, hbe⟩ := Option.isSome_iff_exists.mp (entries_isSome.mpr hb)
    refine ⟨b, ?_, (bestIdx_inOrder c sl (by omega)).1 b a hbe ha⟩
    rw [heapify_before c _ hlt, entries_swap hlt.ne hi hb, exchange_left, hbe]

theorem siftUp_rearranged (c : Comparator α) (sl : Smartlist α) (hi : i < sl.list.length) :
    Rearranged sl (siftUp c sl i) := by
  induction sl, i using siftUp.induct (c := c) with
  | case1 sl =>
    rw [siftUp]
    exact .refl sl
  | case2 sl i hne hcmp ih =>
    rw [siftUp]
    simp only [hne, hcmp, if_true, if_false]
    have hlt := parent_lt (i := i) (by omega)
    have hparent : parent i < sl.list.length := hlt.trans hi
    exact (rearranged_swap hlt.ne hparent hi).trans (ih (by rwa [swap_length]))
  | case3 sl i hne hcmp =>
    rw [siftUp]
    simp only [hne, hcmp, if_false]
    exact .refl sl

/-- What sifts comes to stand on the way to the root. -/
theorem siftUp_above (hitem : sl.list[i]? = some a) :
    ∃ j, Above i j ∧ (siftUp c sl i).list[j]? = some a := by
  induction sl, i using siftUp.induct (c := c) with
  | case1 sl =>
    rw [siftUp]
    exact ⟨0, .self, hitem⟩
  | case2 sl i hne hcmp ih =>
    rw [siftUp]
    simp only [hne, hcmp, if_true, if_false]
    have hpos : 0 < i := by omega
    have hlt := parent_lt hpos
    have hi := (List.getElem?_eq_some_iff.mp hitem).1
    have hparent : entries (swap sl (parent i) i) (parent i) = some a := by
      rw [entries_swap hlt.ne (hlt.trans hi) hi, exchange_left]
      exact hitem
    obtain ⟨j, habove, hj⟩ := ih hparent
    exact ⟨j, habove.of_parent hpos, hj⟩
  | case3 sl i hne hcmp =>
    rw [siftUp]
    simp only [hne, hcmp, if_false]
    exact ⟨i, .self, hitem⟩

theorem siftUp_ordered (hi : i < sl.list.length) (h : UpOrder c.le (entries sl) i) :
    Ordered c.le (entries (siftUp c sl i)) := by
  induction sl, i using siftUp.induct (c := c) with
  | case1 sl =>
    rw [siftUp]
    exact h.ordered fun hpos => absurd hpos (by omega)
  | case2 sl i hne hcmp ih =>
    rw [siftUp]
    simp only [hne, hcmp, if_true, if_false]
    have hlt := parent_lt (i := i) (by omega)
    have hparent : parent i < sl.list.length := hlt.trans hi
    refine ih (by rwa [swap_length]) ?_
    rw [entries_swap hlt.ne hparent hi, exchange_comm]
    exact h.exchange_parent (by omega) (inOrder_of_compareAt hcmp) (entries_isSome.mpr hparent)
  | case3 sl i hne hcmp =>
    rw [siftUp]
    simp only [hne, hcmp, if_false]
    exact h.ordered fun _ => inOrder_of_not_compareAt hcmp

end PqueueOrder

end TorDaemon.Container.Pqueue

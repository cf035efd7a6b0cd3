import Mathlib.Data.Multiset.AddSub
import TorDaemon.Container.Pqueue
import TorDaemon.Library.Reachability

/-! What one priority queue call does. Adding and popping keep the heap; removing
keeps it exactly when the last element may stand below the parent of the freed
position, because the sift after a removal only goes towards the leaves. -/
namespace TorDaemon.Container.Pqueue
open Library.Heap Library.Reachability

section PqueueCalls
variable {α : Type*} {c c' : Comparator α} {sl sl' : Smartlist α} {i j : ℕ} {a b e : α}

theorem Indexed.nodup (h : Indexed sl) : sl.list.Nodup := by
  rw [List.nodup_iff_getElem?_ne_getElem?]
  intro i j hij hj heq
  have hjs : sl.list[j]? = some sl.list[j] := List.getElem?_eq_getElem hj
  exact hij.ne (h.injective (heq.trans hjs) hjs)

theorem Indexed.getElem?_idx (h : Indexed sl) (hmem : e ∈ sl.list) :
    0 ≤ sl.idx e ∧ sl.list[(sl.idx e).toNat]? = some e := by
  obtain ⟨i, hi⟩ := List.mem_iff_getElem?.mp hmem
  have hidx := h i e hi
  simp [hidx, hi]

/-- A call has taken `e`, and only it, out of the queue. -/
structure Removed (sl sl' : Smartlist α) (e : α) : Prop where
  perm : sl.list.Perm (e :: sl'.list)
  indexed : Indexed sl'
  cleared : sl'.idx e = -1
  other : ∀ a ∉ sl.list, sl'.idx a = sl.idx a

variable [DecidableEq α] {top : α}

section
variable (h : pqueueAdd c sl e = some sl')
include h

theorem pqueueAdd_eq_some :
    sl' = siftUp c ⟨sl.list ++ [e], Function.update sl.idx e sl.list.length⟩ sl.list.length := by
  simp only [pqueueAdd, updateIdx, List.getElem?_concat_length, Option.ite_none_left_eq_some,
    Option.some.injEq] at h
  exact h.2.symm

theorem pqueueAdd_rearranged (hitem : e ∉ sl.list) (hidx : Indexed sl) :
    sl'.list.Perm (e :: sl.list) ∧ Indexed sl' ∧
      ∀ a ∉ e :: sl.list, sl'.idx a = sl.idx a := by
  obtain rfl := pqueueAdd_eq_some h
  have hsift := siftUp_rearranged c (i := sl.list.length)
    ⟨sl.list ++ [e], Function.update sl.idx e sl.list.length⟩ (by simp)
  refine ⟨hsift.perm.trans (List.perm_append_singleton ..), hsift.indexed ?_, ?_⟩
  · intro k x hx
    rw [List.getElem?_append] at hx
    split_ifs at hx with hk
    · have hne : x ≠ e := fun heq => hitem (heq ▸ List.mem_of_getElem? hx)
      simpa [Function.update_of_ne hne] using hidx k x hx
    · obtain ⟨hk0, rfl⟩ : k - sl.list.length = 0 ∧ e = x := by
        rw [List.getElem?_singleton] at hx
        split_ifs at hx with h0
        exact ⟨h0, by simpa using hx⟩
      simp only [Function.update_self]
      omega
  · intro x hx
    rw [List.mem_cons, not_or] at hx
    rw [hsift.other x (by simp [hx])]
    exact Function.update_of_ne hx.1 ..

theorem pqueueAdd_perm : sl'.list.Perm (e :: sl.list) := by
  obtain rfl := pqueueAdd_eq_some h
  have hsift := siftUp_rearranged c (i := sl.list.length)
    ⟨sl.list ++ [e], Function.update sl.idx e sl.list.length⟩ (by simp)
  exact hsift.perm.trans (List.perm_append_singleton ..)

theorem pqueueAdd_ordered (hord : Ordered c.le (entries sl)) : Ordered c.le (entries sl') := by
  obtain rfl := pqueueAdd_eq_some h
  refine siftUp_ordered (by simp) ⟨fun k hk hne x y hx hy => ?_, fun _ k hk hpk x y _ hy => ?_⟩
  · have hlt := parent_lt hk
    have hlen := (List.getElem?_eq_some_iff.mp hy).1
    simp only [List.length_append, List.length_singleton] at hlen
    simp only [entries, List.getElem?_append_left (show k < sl.list.length by omega),
      List.getElem?_append_left (show parent k < sl.list.length by omega)] at hx hy
    exact hord k hk x y hx hy
  · have hlen := (List.getElem?_eq_some_iff.mp hy).1
    simp only [List.length_append, List.length_singleton] at hlen
    have hlt := parent_lt hk
    omega

end

theorem clearIdx_idx_of_ne (ha : a ≠ e) : (clearIdx sl e).idx a = sl.idx a :=
  Function.update_of_ne ha ..

theorem clearIdx_idx_self : (clearIdx sl e).idx e = -1 :=
  Function.update_self ..

section
variable (hi : i + 1 < sl.list.length)
include hi

theorem entries_moveLast (k : ℕ) : entries (moveLast (clearIdx sl e) i) k =
      if k = i then entries sl (sl.list.length - 1)
      else if k < sl.list.length - 1 then entries sl k else none := by
  have hlast : sl.list[sl.list.length - 1]? = some sl.list[sl.list.length - 1] :=
    List.getElem?_eq_getElem (by omega)
  simp only [moveLast, clearIdx, List.getLast?_eq_getElem?, hlast, entries, updateIdx_list,
    List.getElem?_set, List.getElem?_dropLast, List.length_dropLast]
  grind

theorem moveLast_idx : (moveLast (clearIdx sl e) i).idx =
      Function.update (clearIdx sl e).idx sl.list[sl.list.length - 1] i := by
  have hlast : sl.list[sl.list.length - 1]? = some sl.list[sl.list.length - 1] :=
    List.getElem?_eq_getElem (by omega)
  simp only [moveLast, clearIdx, List.getLast?_eq_getElem?, hlast, updateIdx]
  simp [show i < sl.list.length - 1 by omega]

theorem moveLast_perm : sl.list.Perm (sl.list[i] :: (moveLast (clearIdx sl e) i).list) := by
  have hne : sl.list ≠ [] := List.ne_nil_of_length_pos (by omega)
  have hlen : i < sl.list.dropLast.length := by simp; omega
  have hset := (List.set_perm_cons_eraseIdx hlen (sl.list.getLast hne)).cons sl.list.dropLast[i]
  have hget := (List.getElem_cons_eraseIdx_perm hlen).cons (sl.list.getLast hne)
  have hall : (sl.list.getLast hne :: sl.list.dropLast).Perm sl.list := by
    conv_rhs => rw [← List.dropLast_concat_getLast hne]
    exact (List.perm_append_singleton ..).symm
  have hswap := List.Perm.swap (sl.list.getLast hne) sl.list.dropLast[i]
    (sl.list.dropLast.eraseIdx i)
  simp only [moveLast, clearIdx, List.getLast?_eq_some_getLast hne, updateIdx_list]
  rw [← List.getElem_dropLast hlen]
  exact ((hset.trans hswap).trans (hget.trans hall)).symm

theorem moveLast_length : (moveLast (clearIdx sl e) i).list.length = sl.list.length - 1 := by
  have hperm := (moveLast_perm (e := e) hi).length_eq
  simp only [List.length_cons] at hperm
  omega

theorem moveLast_indexed (hitem : sl.list[i]? = some e)
    (hidx : Indexed sl) : Indexed (moveLast (clearIdx sl e) i) := by
  intro k x hx
  have hlast : sl.list[sl.list.length - 1]? = some sl.list[sl.list.length - 1] :=
    List.getElem?_eq_getElem (by omega)
  have hx' := (entries_moveLast (e := e) hi k).symm.trans hx
  rw [moveLast_idx hi]
  simp only [entries] at hx'
  split_ifs at hx' with hk hklt
  · rw [hlast, Option.some.injEq] at hx'
    simp [← hx', hk]
  · have hxi : x ≠ e := fun heq => hk (hidx.injective hx' (heq ▸ hitem))
    have hxl : x ≠ sl.list[sl.list.length - 1] := fun heq => by
      have := hidx.injective hx' (heq ▸ hlast)
      omega
    rw [Function.update_of_ne hxl, clearIdx_idx_of_ne hxi]
    exact hidx k x hx'

end

/-- Where the last element may stand in the place of `e`. -/
def FillInOrder (c : Comparator α) (sl : Smartlist α) (e : α) : Prop :=
  let i := (sl.idx e).toNat
  i = 0 ∨ i = sl.list.length - 1 ∨ compareAt c sl (parent i) (sl.list.length - 1) ≤ 0

instance (c : Comparator α) (sl : Smartlist α) (e : α) : Decidable (FillInOrder c sl e) :=
  inferInstanceAs (Decidable (_ ∨ _ ∨ _))

/-- What was added last stands between the root and the last position. -/
theorem pqueueAdd_fillInOrder (h : pqueueAdd c sl e = some sl') (hitem : e ∉ sl.list)
    (hidx : Indexed sl) (hord : Ordered c.le (entries sl)) : FillInOrder c sl' e := by
  obtain ⟨hperm, hidx', -⟩ := pqueueAdd_rearranged h hitem hidx
  have hord' := pqueueAdd_ordered h hord
  have hlength := hperm.length_eq
  rw [List.length_cons] at hlength
  obtain rfl := pqueueAdd_eq_some h
  have hadded : (Smartlist.mk (sl.list ++ [e]) (Function.update sl.idx e sl.list.length)).list[
      sl.list.length]? = some e := by simp
  obtain ⟨j, habove, hj⟩ := siftUp_above (c := c) hadded
  have hplace := hidx' j e hj
  simp only [FillInOrder, hplace, Int.toNat_natCast, hlength, Nat.add_sub_cancel]
  by_cases hpos : 0 < j
  · have hparent := entries_parent_isSome hpos (Option.isSome_of_eq_some hj)
    obtain ⟨p, hp⟩ := Option.isSome_iff_exists.mp hparent
    have hlast := entries_isSome.mpr ((Nat.lt_succ_self sl.list.length).trans_eq hlength.symm)
    obtain ⟨x, hx⟩ := Option.isSome_iff_exists.mp hlast
    have hle := hord'.le_above (fun _ => entries_parent_isSome) (habove.parent hpos) hp hx
    unfold entries at hp hx
    simpa [compareAt, hp, hx, Comparator.le] using .inr (.inr hle)
  · exact .inl (by omega)

/-- The queue after `e` has left position `i`. -/
def afterRemove (c : Comparator α) (sl : Smartlist α) (e : α) (i : ℕ) : Smartlist α :=
  let sl' := clearIdx sl e
  if i = sl.list.length - 1 then { sl' with list := sl.list.dropLast }
  else heapify c (moveLast sl' i) i

theorem pqueueRemove_eq (hidx : Indexed sl) (hitem : sl.list[i]? = some e) :
    pqueueRemove c sl e = some (afterRemove c sl e i) := by
  have hi := hidx i e hitem
  simp only [pqueueRemove, afterRemove, hi, Int.toNat_natCast, hitem]
  split_ifs <;> first | rfl | omega | contradiction

theorem pqueuePop_eq {rest : List α} (hlist : sl.list = top :: rest) :
    pqueuePop c sl = some (top, afterRemove c sl top 0) := by
  simp only [pqueuePop, afterRemove, hlist, List.length_cons, Nat.add_sub_cancel]
  cases rest <;> simp

theorem removed_afterRemove (hidx : Indexed sl) (hitem : sl.list[i]? = some e) :
    Removed sl (afterRemove c sl e i) e := by
  obtain ⟨hi, hget⟩ := List.getElem?_eq_some_iff.mp hitem
  unfold afterRemove
  by_cases hlast : i = sl.list.length - 1
  · simp only [hlast, if_true]
    have hne : sl.list ≠ [] := List.ne_nil_of_length_pos (by omega)
    have hitem' : sl.list.getLast hne = e := by
      rw [List.getLast_eq_getElem]
      simp [← hlast, hget]
    refine ⟨?_, fun k x hx => ?_, clearIdx_idx_self, fun a ha => ?_⟩
    · conv_lhs => rw [← List.dropLast_concat_getLast hne, hitem']
      exact List.perm_append_singleton ..
    · rw [List.getElem?_dropLast, Option.ite_none_right_eq_some] at hx
      have hxi : x ≠ e := fun heq => by
        have := hidx.injective hx.2 (heq ▸ hitem)
        omega
      exact (clearIdx_idx_of_ne hxi).trans (hidx k x hx.2)
    · have hne' : a ≠ e := fun heq => ha (heq ▸ List.mem_of_getElem? hitem)
      exact clearIdx_idx_of_ne hne'
  · simp only [hlast, if_false]
    have hlt : i + 1 < sl.list.length := by omega
    have hsift := heapify_rearranged c
      (moveLast (clearIdx sl e) i) i
    have hperm := moveLast_perm (e := e) hlt
    rw [hget] at hperm
    have hnodup := (hperm.nodup_iff.mp hidx.nodup).notMem
    have hlastMem : sl.list[sl.list.length - 1] ∈ sl.list := List.getElem_mem ..
    have hlastNe : e ≠ sl.list[sl.list.length - 1] := fun heq => by
      have := hidx.injective hitem (heq ▸ List.getElem?_eq_getElem (by omega))
      omega
    refine ⟨hperm.trans (hsift.perm.symm.cons e),
      hsift.indexed (moveLast_indexed hlt hitem hidx), ?_, fun a ha => ?_⟩
    · rw [hsift.other e hnodup, moveLast_idx (e := e) hlt, Function.update_of_ne hlastNe]
      exact clearIdx_idx_self
    · have hnotMem : a ∉ e :: _ := fun hmem => ha (hperm.mem_iff.mpr hmem)
      rw [List.mem_cons, not_or] at hnotMem
      have hne : a ≠ sl.list[sl.list.length - 1] := fun heq => ha (heq ▸ hlastMem)
      rw [hsift.other a hnotMem.2, moveLast_idx (e := e) hlt, Function.update_of_ne hne]
      exact clearIdx_idx_of_ne hnotMem.1

theorem afterRemove_ordered_iff (hidx : Indexed sl) (hitem : sl.list[i]? = some e)
    (hlen : sl.list.length ≤ intMax) (hord : Ordered c.le (entries sl)) :
    Ordered c.le (entries (afterRemove c sl e i)) ↔ FillInOrder c sl e := by
  obtain ⟨hi, hget⟩ := List.getElem?_eq_some_iff.mp hitem
  have hidxi : (sl.idx e).toNat = i := by simp [hidx i e hitem]
  unfold afterRemove FillInOrder
  simp only [hidxi]
  by_cases hlast : i = sl.list.length - 1
  · simp only [hlast, if_true, true_or, or_true, iff_true]
    intro k hk x y hx hy
    simp only [entries, List.getElem?_dropLast, Option.ite_none_right_eq_some] at hx hy
    exact hord k hk x y hx.2 hy.2
  · simp only [hlast, if_false, false_or]
    have hlt : i + 1 < sl.list.length := by omega
    have hmoved := entries_moveLast (e := e) hlt
    have hfill := (hmoved i).trans (if_pos rfl)
    have hlastAt : entries sl (sl.list.length - 1) = some sl.list[sl.list.length - 1] :=
      List.getElem?_eq_getElem (by omega)
    have hparent (hpos : 0 < i) :
        entries (moveLast (clearIdx sl e) i) (parent i) = entries sl (parent i) := by
      have hplt := parent_lt hpos
      exact (hmoved (parent i)).trans ((if_neg hplt.ne).trans (if_pos (by omega)))
    constructor
    · intro hafter
      refine or_iff_not_imp_left.mpr fun hne => ?_
      have hpos : 0 < i := by omega
      have hplt : parent i < sl.list.length := (parent_lt hpos).trans hi
      obtain ⟨y, hy, hyle⟩ := heapify_at_le c _ (hfill.trans hlastAt)
      have hx : entries sl (parent i) = some sl.list[parent i] :=
        List.getElem?_eq_getElem hplt
      have hxy := hafter i hpos sl.list[parent i] y
        ((heapify_before c _ (parent_lt hpos)).trans ((hparent hpos).trans hx)) hy
      unfold entries at hx hlastAt
      simpa [compareAt, hx, hlastAt, Comparator.le] using IsTrans.trans _ _ _ hxy hyle
    · intro hcond
      refine heapify_ordered ?_ (hord.downOrder_of_replace ?_ (Option.isSome_of_eq_some hitem) ?_)
      · rw [moveLast_length (e := e) hlt]
        exact (Nat.sub_le ..).trans hlen
      · intro k hk x hx
        rw [hmoved k, if_neg hk, Option.ite_none_right_eq_some] at hx
        exact hx.2
      · intro hpos x y hx hy
        rw [hparent hpos] at hx
        rw [hfill] at hy
        have hcmp := hcond.resolve_left hpos.ne'
        unfold entries at hx hy
        simpa only [compareAt, hx, hy, Comparator.le] using hcmp

section
variable (h : pqueuePop c sl = some (top, sl'))
include h

theorem pqueuePop_eq_some : sl.list[0]? = some top ∧ sl' = afterRemove c sl top 0 := by
  cases hlist : sl.list with
  | nil => simp [pqueuePop, hlist] at h
  | cons first rest =>
    rw [pqueuePop_eq hlist, Option.some.injEq, Prod.mk.injEq] at h
    obtain ⟨rfl, rfl⟩ := h
    exact ⟨rfl, rfl⟩

/-- No element of a heap is before the one that is popped. -/
theorem pqueuePop_perm : sl.list.Perm (top :: sl'.list) := by
  obtain ⟨htop, rfl⟩ := pqueuePop_eq_some h
  obtain ⟨hpos, hget⟩ := List.getElem?_eq_some_iff.mp htop
  unfold afterRemove
  split_ifs with hlast
  · obtain ⟨a, ha⟩ := List.length_eq_one_iff.mp (show sl.list.length = 1 by omega)
    simp only [ha, List.getElem_cons_zero] at hget
    rw [ha, ← hget]
    rfl
  · have hmove := moveLast_perm (e := top) (show 0 + 1 < sl.list.length by omega)
    rw [hget] at hmove
    exact hmove.trans ((heapify_rearranged c _ 0).perm.symm.cons top)

theorem pqueuePop_le
    (hord : Ordered c.le (entries sl)) : ∀ a ∈ sl.list, c.le top a := by
  intro a ha
  obtain ⟨k, hk⟩ := List.mem_iff_getElem?.mp ha
  exact hord.le_above (fun _ => entries_parent_isSome) (above_root k) (pqueuePop_eq_some h).1 hk

theorem pqueuePop_spec (hidx : Indexed sl)
    (hlen : sl.list.length ≤ intMax) (hord : Ordered c.le (entries sl)) :
    Removed sl sl' top ∧ Ordered c.le (entries sl') := by
  obtain ⟨htop, rfl⟩ := pqueuePop_eq_some h
  have hroot : (sl.idx top).toNat = 0 := by simp [hidx 0 top htop]
  exact ⟨removed_afterRemove hidx htop,
    (afterRemove_ordered_iff hidx htop hlen hord).mpr (.inl hroot)⟩

theorem pqueuePop_length : sl.list.length = sl'.list.length + 1 := by
  obtain ⟨htop, rfl⟩ := pqueuePop_eq_some h
  obtain ⟨hpos, -⟩ := List.getElem?_eq_some_iff.mp htop
  unfold afterRemove
  split_ifs with hlast
  · simp only [List.length_dropLast]
    omega
  · rw [(heapify_rearranged c _ 0).perm.length_eq, moveLast_length (by omega)]
    omega

end

/-- The comparators agree on the elements. -/
def Agree (c c' : Comparator α) (sl : Smartlist α) : Prop :=
  ∀ a ∈ sl.list, ∀ b ∈ sl.list, c.compare a b = c'.compare a b

omit [DecidableEq α] in
theorem Agree.compareAt (h : Agree c c' sl) (i j : ℕ) :
    compareAt c sl i j = compareAt c' sl i j := by
  unfold Pqueue.compareAt
  split
  · next a b ha hb => exact h a (List.mem_of_getElem? ha) b (List.mem_of_getElem? hb)
  · rfl

omit [DecidableEq α] in
theorem Agree.bestIdx (h : Agree c c' sl) (i : ℕ) : bestIdx c sl i = bestIdx c' sl i := by
  simp [Pqueue.bestIdx, h.compareAt]

theorem Agree.heapify (h : Agree c c' sl) : heapify c sl i = heapify c' sl i := by
  induction sl, i using heapify.induct (c := c) with
  | case1 sl i hmax | case2 sl i _ hmax =>
    rw [Pqueue.heapify.eq_def c, Pqueue.heapify.eq_def c']
    simp [*]
  | case3 sl i hmax hleft hbest =>
    rw [Pqueue.heapify.eq_def c, Pqueue.heapify.eq_def c']
    simp [hmax, hleft, ← h.bestIdx, hbest]
  | case4 sl i hmax hleft hbest ih =>
    rw [Pqueue.heapify.eq_def c, Pqueue.heapify.eq_def c']
    simp only [hmax, hleft, ← h.bestIdx, hbest, if_false]
    obtain ⟨hlt, -, hb⟩ := bestIdx_child (c := c) (by omega) hbest
    have hperm : (swap sl i (Pqueue.bestIdx c sl i)).list.Perm sl.list :=
      swap_perm hlt.ne (by omega) hb
    apply ih
    intro a ha b hb
    exact h a (hperm.mem_iff.mp ha) b (hperm.mem_iff.mp hb)

theorem afterRemove_congr (hidx : Indexed sl) (hitem : sl.list[i]? = some e)
    (h : ∀ a ∈ sl.list, a ≠ e → ∀ b ∈ sl.list, b ≠ e → c.compare a b = c'.compare a b) :
    afterRemove c sl e i = afterRemove c' sl e i := by
  obtain ⟨hi, hget⟩ := List.getElem?_eq_some_iff.mp hitem
  unfold afterRemove
  split_ifs with hlast
  · rfl
  · have hperm := moveLast_perm (e := e) (show i + 1 < sl.list.length by omega)
    rw [hget] at hperm
    have hnotMem := (hperm.nodup_iff.mp hidx.nodup).notMem
    have hother : ∀ a ∈ (moveLast (clearIdx sl e) i).list, a ∈ sl.list ∧ a ≠ e := fun a ha =>
      ⟨hperm.mem_iff.mpr (List.mem_cons_of_mem e ha), fun heq => hnotMem (heq ▸ ha)⟩
    apply Agree.heapify
    intro a ha b hb
    exact h a (hother a ha).1 (hother a ha).2 b (hother b hb).1 (hother b hb).2

end PqueueCalls

/-! Runs of priority queue calls on a smartlist that starts empty, next to the
multiset of the elements that were added and not taken out again. -/

section PqueueRuns
variable {α : Type*} [DecidableEq α] {c : Comparator α}

inductive Call (α : Type*)
  | add (item : α)
  | pop
  | remove (item : α)

structure Traced (α : Type*) where
  queue : Smartlist α
  contents : Multiset α

/-- An empty smartlist, with whatever the index fields hold before the first call. -/
def start (idx : α → ℤ) : Traced α := { queue := { list := [], idx := idx }, contents := 0 }

def step (c : Comparator α) (t : Traced α) : Call α → Option (Traced α)
  | .add item => (pqueueAdd c t.queue item).map fun q => ⟨q, item ::ₘ t.contents⟩
  | .pop => (pqueuePop c t.queue).map fun r => ⟨r.2, t.contents.erase r.1⟩
  | .remove item => (pqueueRemove c t.queue item).map fun q => ⟨q, t.contents.erase item⟩

/-- What the functions ask of their callers: an element has one index field, so it
is in one place; a smartlist holds `INT_MAX` elements at most. -/
def WellFormed (t : Traced α) : Call α → Prop
  | .add item => item ∉ t.queue.list ∧ t.queue.list.length < intMax
  | .pop => t.queue.list ≠ []
  | .remove item => item ∈ t.queue.list

instance (t : Traced α) (e : Call α) : Decidable (WellFormed t e) := by
  cases e <;> unfold WellFormed <;> infer_instance

def KeepsOrder (c : Comparator α) (t : Traced α) : Call α → Prop
  | .remove item => FillInOrder c t.queue item
  | _ => True

instance (t : Traced α) (e : Call α) : Decidable (KeepsOrder c t e) := by
  cases e <;> unfold KeepsOrder <;> infer_instance

/-- The invariant of the priority queue, and what it is for. -/
structure Correct (c : Comparator α) (t : Traced α) : Prop where
  assertOk : AssertOk c t.queue
  contents : t.contents = t.queue.list
  pop_min : ∀ top q, pqueuePop c t.queue = some (top, q) → ∀ a ∈ t.queue.list, c.le top a

variable {t : Traced α}

/-- What holds of a queue whatever its order. -/
structure Sound (t : Traced α) : Prop where
  indexed : Indexed t.queue
  bounded : t.queue.list.length ≤ intMax
  contents : t.contents = t.queue.list

theorem Sound.correct (h : Sound t) (hord : Ordered c.le (entries t.queue)) : Correct c t where
  assertOk := assertOk_iff.mpr ⟨hord, h.indexed⟩
  contents := h.contents
  pop_min _ _ hpop := pqueuePop_le hpop hord

theorem Correct.ordered (h : Correct c t) : Ordered c.le (entries t.queue) :=
  (assertOk_iff.mp h.assertOk).1

theorem afterRemove_sound {item : α} {i : ℕ} (h : Sound t) (hitem : t.queue.list[i]? = some item) :
    Sound ⟨afterRemove c t.queue item i, t.contents.erase item⟩ := by
  have hrem := removed_afterRemove (c := c) h.indexed hitem
  have hlen := hrem.perm.length_eq
  have hbound := h.bounded
  simp only [List.length_cons] at hlen
  refine ⟨hrem.indexed, by simp only; omega, ?_⟩
  rw [h.contents, Multiset.coe_erase, Multiset.coe_eq_coe]
  simpa using hrem.perm.erase item

/-- A call its caller may make never fails an assertion, and the heap order it
leaves depends on the fill of the freed position alone. -/
theorem step_sound {e : Call α} (h : Sound t) (hw : WellFormed t e) :
    ∃ t', step c t e = some t' ∧ Sound t' ∧
      (Ordered c.le (entries t.queue) → (Ordered c.le (entries t'.queue) ↔ KeepsOrder c t e)) := by
  cases e with
  | add item =>
    have hlt : ¬ intMax < t.queue.list.length + 1 := by have := hw.2; omega
    obtain ⟨q, hq⟩ : ∃ q, pqueueAdd c t.queue item = some q := ⟨_, if_neg hlt⟩
    obtain ⟨hperm, hidx, -⟩ := pqueueAdd_rearranged hq hw.1 h.indexed
    have hlen := hperm.length_eq
    simp only [List.length_cons] at hlen
    refine ⟨⟨q, item ::ₘ t.contents⟩, by simp [step, hq], ⟨hidx, by simp only; omega, ?_⟩, ?_⟩
    · rw [h.contents, Multiset.cons_coe, Multiset.coe_eq_coe]
      exact hperm.symm
    · intro hord
      simpa [KeepsOrder] using pqueueAdd_ordered hq hord
  | pop =>
    cases hlist : t.queue.list with
    | nil => exact absurd hlist hw
    | cons top rest =>
      have htop : t.queue.list[0]? = some top := by simp [hlist]
      have hidx := h.indexed 0 top htop
      refine ⟨_, by simp [step, pqueuePop_eq hlist], afterRemove_sound (c := c) h htop,
        fun hord => ?_⟩
      rw [afterRemove_ordered_iff h.indexed htop h.bounded hord]
      simp [FillInOrder, KeepsOrder, hidx]
  | remove item =>
    have hitem := (h.indexed.getElem?_idx hw).2
    refine ⟨_, by simp [step, pqueueRemove_eq h.indexed hitem], afterRemove_sound (c := c) h hitem,
      ?_⟩
    exact afterRemove_ordered_iff h.indexed hitem h.bounded

omit [DecidableEq α] in
theorem start_sound (idx : α → ℤ) : Sound (start idx) where
  indexed k a ha := by simp [start] at ha
  bounded := by simp [start]
  contents := rfl

theorem reached_sound {idx : α → ℤ} (h : Reached (step c) WellFormed (start idx) t) : Sound t := by
  refine h.invariant (start_sound idx) fun s e s' hs hw hstep => ?_
  obtain ⟨t', ht', hsound, -⟩ := step_sound (c := c) hs hw
  rw [hstep, Option.some.injEq] at ht'
  exact ht' ▸ hsound

/-- In a run whose removals all leave a hole that the last element may fill, the
queue is a heap after every call; and after one call more it is one exactly if that
call is no removal that breaks this. -/
theorem reached_heap_correct {idx : α → ℤ}
    (h : Reached (step c) (fun s e => WellFormed s e ∧ KeepsOrder c s e) (start idx) t) :
    Correct c t ∧ ∀ e, WellFormed t e →
      ∃ t', step c t e = some t' ∧ (Correct c t' ↔ KeepsOrder c t e) := by
  have hsound := reached_sound (h.mono fun _ _ hw => hw.1)
  have hord : Ordered c.le (entries t.queue) := by
    refine (h.invariant (I := fun s => Sound s ∧ Ordered c.le (entries s.queue))
      ⟨start_sound idx, fun k _ x y hx => by simp [entries, start] at hx⟩ ?_).2
    rintro s e s' ⟨hs, hord⟩ ⟨hw, hkeeps⟩ hstep
    obtain ⟨t', ht', hs', hiff⟩ := step_sound (c := c) hs hw
    rw [hstep, Option.some.injEq] at ht'
    exact ht' ▸ ⟨hs', (hiff hord).mpr hkeeps⟩
  refine ⟨hsound.correct hord, fun e hw => ?_⟩
  obtain ⟨t', ht', hs', hiff⟩ := step_sound (c := c) hsound hw
  exact ⟨t', ht', fun hc => (hiff hord).mp hc.ordered, fun hk => hs'.correct ((hiff hord).mpr hk)⟩

/-- Numbers under their own order. -/
def natComparator : Comparator ℕ where
  compare a b := (a : ℤ) - b
  swapped a b := by omega
  chained a b d := by omega

/-- Adding these seven gives the heap with the list as it stands; the removal of 11
then moves 3 below 10. -/
def brokenRun : List (Call ℕ) := [0, 10, 1, 11, 12, 2, 3].map .add ++ [.remove 11]

theorem brokenRun_not_correct :
    ¬ ∀ t, Reached (step natComparator) WellFormed (start fun _ => -1) t →
      Correct natComparator t := by
  intro h
  have hguard : Guarded (step natComparator) WellFormed (start fun _ => -1) brokenRun := by
    decide +kernel
  obtain ⟨t, hrun, hbad⟩ : ∃ t ∈ run (step natComparator) (start fun _ => -1) brokenRun,
      ¬ AssertOk natComparator t.queue := by decide +kernel
  exact hbad (h t (Reached.init.of_run hguard hrun)).assertOk

/-- The removal of 2 from the same queue puts 3 below 1, where it may stand. -/
theorem reached_heap_correct_remove_two : ∃ t : Traced ℕ, t.queue.list = [0, 10, 1, 11, 12, 3] ∧
    Correct natComparator t ∧ ∀ e, WellFormed t e →
      ∃ t', step natComparator t e = some t' ∧
        (Correct natComparator t' ↔ KeepsOrder natComparator t e) := by
  have hguard : Guarded (step natComparator)
      (fun s e => WellFormed s e ∧ KeepsOrder natComparator s e) (start fun _ => -1)
      ([0, 10, 1, 11, 12, 2, 3].map .add ++ [.remove 2]) := by decide +kernel
  obtain ⟨t, hrun, hlist⟩ : ∃ t ∈ run (step natComparator) (start fun _ => -1)
      ([0, 10, 1, 11, 12, 2, 3].map .add ++ [.remove 2]),
      t.queue.list = [0, 10, 1, 11, 12, 3] := by decide +kernel
  exact ⟨t, hlist, reached_heap_correct (Reached.init.of_run hguard hrun)⟩

end PqueueRuns

end TorDaemon.Container.Pqueue

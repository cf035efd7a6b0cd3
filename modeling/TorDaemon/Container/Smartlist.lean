import Mathlib.Data.List.Induction
import Mathlib.Data.List.Nodup
import Mathlib.Data.List.Perm.Basic
import Mathlib.Order.Lattice

/-! Removal from a smartlist: the last element moves into the place of the removed
one, so the order of the others is not kept. -/
namespace TorDaemon.Container.Smartlist
variable {α β : Type*}

/-- `smartlist_remove`, for an element that the list holds at most once. -/
def remove (p : α → Bool) (l : List α) : List α :=
  match l.findIdx? p, l.getLast? with
  | some i, some last => (l.set i last).dropLast
  | _, _ => l

theorem remove_of_forall {p : α → Bool} {l : List α} (h : ∀ a ∈ l, p a = false) :
    remove p l = l := by
  have hnone : l.findIdx? p = none := List.findIdx?_eq_none_iff.mpr h
  simp [remove, hnone]

theorem remove_append_cons {p : α → Bool} {a b : List α} {x : α}
    (ha : ∀ y ∈ a, p y = false) (hx : p x = true) : (remove p (a ++ x :: b)).Perm (a ++ b) := by
  have hidx : (a ++ x :: b).findIdx? p = some a.length := by
    have hnone : a.findIdx? p = none := List.findIdx?_eq_none_iff.mpr ha
    simp [List.findIdx?_append, hnone, List.findIdx?_cons, hx]
  cases b using List.reverseRecOn with
  | nil =>
    simp [remove, hidx, List.set_append_right]
  | append_singleton b z =>
    have hlast : (a ++ x :: (b ++ [z])).getLast? = some z := by
      simp [List.getLast?_append, List.getLast?_cons]
    have hset : (a ++ x :: (b ++ [z])).set a.length z = (a ++ z :: b) ++ [z] := by
      simp [List.set_append_right]
    simp only [remove, hidx, hlast, hset, List.dropLast_concat]
    exact List.Perm.append_left a (List.perm_append_singleton z b).symm

/-- With distinct keys, exactly the elements with another key stay. -/
theorem remove_perm_filter [DecidableEq β] {f : α → β} {l : List α} (h : (l.map f).Nodup)
    (k : β) : (remove (fun a => f a = k) l).Perm (l.filter fun a => f a ≠ k) := by
  by_cases hmem : ∃ x ∈ l, f x = k
  · obtain ⟨x, hx, rfl⟩ := hmem
    obtain ⟨a, b, rfl⟩ := List.append_of_mem hx
    rw [List.map_append, List.map_cons, List.nodup_middle, List.nodup_cons, List.mem_append,
      not_or] at h
    have ha : ∀ y ∈ a, f y ≠ f x := fun y hy heq => h.1.1 (heq ▸ List.mem_map_of_mem hy)
    have hb : ∀ y ∈ b, f y ≠ f x := fun y hy heq => h.1.2 (heq ▸ List.mem_map_of_mem hy)
    have hfilter : (a ++ x :: b).filter (fun y => f y ≠ f x) = a ++ b := by
      simp only [List.filter_append, List.filter_cons, ne_eq, not_true_eq_false, decide_false]
      rw [List.filter_eq_self.mpr (by simpa using ha), List.filter_eq_self.mpr (by simpa using hb)]
      simp
    rw [hfilter]
    exact remove_append_cons (by simpa using ha) (by simp)
  · push Not at hmem
    rw [remove_of_forall (by simpa using hmem), List.filter_eq_self.mpr (by simpa using hmem)]

section Distinct
variable [DecidableEq β] {f : α → β} {l l' : List α} {k : β} {a : α}

section
variable (h : (l.map f).Nodup)
include h

theorem mem_remove : a ∈ remove (fun b => f b = k) l ↔ a ∈ l ∧ f a ≠ k := by
  rw [(remove_perm_filter h k).mem_iff]
  simp

theorem find?_eq_some_iff_of_nodup : l.find? (fun b => f b = k) = some a ↔ a ∈ l ∧ f a = k := by
  constructor
  · intro hfind
    exact ⟨List.mem_of_find?_eq_some hfind, by simpa using List.find?_some hfind⟩
  · rintro ⟨ha, rfl⟩
    cases hfind : l.find? fun b => f b = f a with
    | none => simpa using List.find?_eq_none.mp hfind a ha
    | some b =>
      have hb : f b = f a := by simpa using List.find?_some hfind
      rw [List.inj_on_of_nodup_map h (List.mem_of_find?_eq_some hfind) ha hb]

theorem find?_congr_of_nodup (h' : (l'.map f).Nodup) (hmem : ∀ a, f a = k → (a ∈ l ↔ a ∈ l')) :
    l.find? (fun b => f b = k) = l'.find? fun b => f b = k := by
  ext a
  rw [find?_eq_some_iff_of_nodup h, find?_eq_some_iff_of_nodup h']
  exact and_congr_left fun hk => hmem a hk

/-- An element takes the place of the one that has its key. -/
theorem nodup_remove_append (a : α) : ((remove (fun b => f b = f a) l ++ [a]).map f).Nodup := by
  have hperm := (remove_perm_filter h (f a)).map f
  rw [List.map_append, List.nodup_append, hperm.nodup_iff]
  refine ⟨h.sublist (List.filter_sublist.map f), by simp, ?_⟩
  intro b hb c hc
  rw [hperm.mem_iff] at hb
  obtain ⟨x, hx, rfl⟩ := List.mem_map.mp hb
  simp only [List.map_cons, List.map_nil, List.mem_singleton] at hc
  subst hc
  simpa using (List.mem_filter.mp hx).2

end

end Distinct

end TorDaemon.Container.Smartlist

/-! Binary search in a smartlist (`smartlist_bsearch_idx`). `compare` says how the
key stands to a member; a failed assertion is `none`. -/
namespace TorDaemon.Container.Bsearch
variable {α : Type*} {sl : List α} {compare : α → Ordering} {lo hi : ℕ}

/-- What is asserted when the key has not been found. -/
def bsearchEnd (sl : List α) (compare : α → Ordering) (lo hi : ℕ) : Option (ℕ × Bool) :=
  if lo = hi + 1 ∧ lo ≤ sl.length ∧ hi ≤ sl.length then
    if lo < sl.length then
      if sl[lo]?.map compare = some .lt then some (lo, false) else none
    else if sl[sl.length - 1]?.map compare = some .gt then some (lo, false) else none
  else none

def bsearchLoop (sl : List α) (compare : α → Ordering) : ℕ → ℕ → ℕ → Option (ℕ × Bool)
  | 0, _, _ => none
  | fuel + 1, lo, hi =>
    if lo ≤ hi then
      let mid := lo + (hi - lo) / 2
      match sl[mid]?.map compare with
      | none => none
      | some .eq => some (mid, true)
      | some .gt => if mid < sl.length then bsearchLoop sl compare fuel (mid + 1) hi else none
      | some .lt =>
        if 0 < mid then bsearchLoop sl compare fuel lo (mid - 1)
        else if mid = lo then some (0, false) else none
    else bsearchEnd sl compare lo hi

/-- `smartlist_bsearch_idx`: the index, and whether the key is there. -/
def bsearchIdx (sl : List α) (compare : α → Ordering) : Option (ℕ × Bool) :=
  if sl.length = 0 then some (0, false)
  else bsearchLoop sl compare (sl.length + 1) 0 (sl.length - 1)

/-- The list is in the order that the comparisons with the key have. -/
def Ordered (sl : List α) (compare : α → Ordering) : Prop :=
  sl.Pairwise fun a b =>
    (compare a = .lt → compare b = .lt) ∧ (compare b = .gt → compare a = .gt)

/-- The invariants in the comment of the loop. -/
structure Between (sl : List α) (compare : α → Ordering) (lo hi : ℕ) : Prop where
  lo_le : lo ≤ hi + 1
  hi_lt : hi < sl.length
  below : ∀ i a, i < lo → sl[i]? = some a → compare a = .gt
  above : ∀ i a, hi < i → sl[i]? = some a → compare a = .lt

theorem Ordered.at {i j : ℕ} {a b : α} (h : Ordered sl compare) (hij : i < j)
    (ha : sl[i]? = some a) (hb : sl[j]? = some b) :
    (compare a = .lt → compare b = .lt) ∧ (compare b = .gt → compare a = .gt) := by
  rw [List.getElem?_eq_some_iff] at ha hb
  obtain ⟨hi, rfl⟩ := ha
  obtain ⟨hj, rfl⟩ := hb
  exact List.pairwise_iff_getElem.mp h i j hi hj hij

section
variable (h : Between sl compare lo hi)
include h

theorem Between.raise {mid : ℕ} {a : α}
    (hord : Ordered sl compare) (hmid : sl[mid]? = some a) (hle : mid ≤ hi)
    (hgt : compare a = .gt) : Between sl compare (mid + 1) hi where
  lo_le := by omega
  hi_lt := h.hi_lt
  above := h.above
  below := by
    intro i b hi hb
    rcases Nat.lt_succ_iff_lt_or_eq.mp hi with hlt | rfl
    · exact (hord.at hlt hb hmid).2 hgt
    · rw [hmid] at hb
      exact Option.some.inj hb ▸ hgt

theorem Between.lower {mid : ℕ} {a : α}
    (hord : Ordered sl compare) (hmid : sl[mid]? = some a) (hlo : lo ≤ mid) (hle : mid ≤ hi)
    (hpos : 0 < mid) (hlt : compare a = .lt) : Between sl compare lo (mid - 1) where
  lo_le := by omega
  hi_lt := by have := h.hi_lt; omega
  below := h.below
  above := by
    intro i b hi hb
    rcases Nat.lt_or_eq_of_le (show mid ≤ i by omega) with hgt | rfl
    · exact (hord.at hgt hmid hb).1 hlt
    · rw [hmid] at hb
      exact Option.some.inj hb ▸ hlt

theorem bsearchEnd_eq (hgt : hi < lo) : bsearchEnd sl compare lo hi = some (lo, false) := by
  have hlo : lo = hi + 1 := by have := h.lo_le; omega
  have hhi := h.hi_lt
  rw [bsearchEnd, if_pos ⟨hlo, by omega, by omega⟩]
  by_cases hlast : lo < sl.length
  · have habove := h.above lo sl[lo] hgt (List.getElem?_eq_getElem hlast)
    rw [if_pos hlast, List.getElem?_eq_getElem hlast]
    simp [habove]
  · have hend : sl.length - 1 < sl.length := by omega
    have hbelow := h.below (sl.length - 1) sl[sl.length - 1] (by omega)
      (List.getElem?_eq_getElem hend)
    rw [if_neg hlast, List.getElem?_eq_getElem hend]
    simp [hbelow]

end

/-- What the search says of the index that it returns. -/
structure Located (sl : List α) (compare : α → Ordering) (i : ℕ) (found : Bool) : Prop where
  le : i ≤ sl.length
  eq : found = true → ∃ a, sl[i]? = some a ∧ compare a = .eq
  below : found = false → ∀ j a, j < i → sl[j]? = some a → compare a = .gt
  above : found = false → ∀ j a, i ≤ j → sl[j]? = some a → compare a = .lt

section
variable (hord : Ordered sl compare)
include hord

theorem bsearchLoop_located {fuel : ℕ} (h : Between sl compare lo hi) (hfuel : hi + 1 < lo + fuel) :
    ∃ i found, bsearchLoop sl compare fuel lo hi = some (i, found) ∧
      Located sl compare i found := by
  induction fuel generalizing lo hi with
  | zero =>
    have := h.lo_le
    omega
  | succ fuel ih =>
    have hlen := h.hi_lt
    by_cases hle : lo ≤ hi
    · have hmid : lo + (hi - lo) / 2 ≤ hi := by omega
      have hget := List.getElem?_eq_getElem (show lo + (hi - lo) / 2 < sl.length by omega)
      simp only [bsearchLoop, if_pos hle, hget, Option.map_some]
      cases hcmp : compare sl[lo + (hi - lo) / 2] with
      | eq => exact ⟨_, _, rfl, by omega, fun _ => ⟨_, hget, hcmp⟩, nofun, nofun⟩
      | gt =>
        simp only [if_pos (show lo + (hi - lo) / 2 < sl.length by omega)]
        exact ih (h.raise hord hget hmid hcmp) (by omega)
      | lt =>
        by_cases hpos : 0 < lo + (hi - lo) / 2
        · simp only [if_pos hpos]
          exact ih (h.lower hord hget (by omega) hmid hpos hcmp) (by omega)
        · simp only [if_neg hpos, if_pos (show lo + (hi - lo) / 2 = lo by omega)]
          refine ⟨_, _, rfl, Nat.zero_le _, nofun, fun _ j a hj => by omega, fun _ j a _ ha => ?_⟩
          rcases Nat.lt_or_eq_of_le (show lo + (hi - lo) / 2 ≤ j by omega) with hj | rfl
          · exact (hord.at hj hget ha).1 hcmp
          · rw [hget] at ha
            exact Option.some.inj ha ▸ hcmp
    · have hlo : lo = hi + 1 := by have := h.lo_le; omega
      rw [bsearchLoop, if_neg hle, bsearchEnd_eq h (by omega)]
      exact ⟨_, _, rfl, by omega, nofun, fun _ => h.below, fun _ j a hj => h.above j a (by omega)⟩

/-- In an ordered list no assertion fails. -/
theorem bsearchIdx_located :
    ∃ i found, bsearchIdx sl compare = some (i, found) ∧ Located sl compare i found := by
  by_cases hlen : sl.length = 0
  · rw [bsearchIdx, if_pos hlen]
    refine ⟨_, _, rfl, Nat.zero_le _, nofun, fun _ j a hj => by omega, fun _ j a _ ha => ?_⟩
    have := (List.getElem?_eq_some_iff.mp ha).1
    omega
  · rw [bsearchIdx, if_neg hlen]
    apply bsearchLoop_located hord _ (by omega)
    exact {
      lo_le := by omega
      hi_lt := by omega
      below := by intro i a hi; omega
      above := by
        intro i a hi ha
        have := (List.getElem?_eq_some_iff.mp ha).1
        omega }

theorem bsearchIdx_le : ∃ i found, bsearchIdx sl compare = some (i, found) ∧ i ≤ sl.length := by
  obtain ⟨i, found, hidx, hlocated⟩ := bsearchIdx_located hord
  exact ⟨i, found, hidx, hlocated.le⟩

end

/-- No two members compare equal to the key. -/
def StrictlyOrdered (sl : List α) (compare : α → Ordering) : Prop :=
  sl.Pairwise fun a b => compare b ≠ .lt → compare a = .gt

theorem StrictlyOrdered.ordered (h : StrictlyOrdered sl compare) : Ordered sl compare := by
  apply h.imp
  intro a b hab
  constructor
  · intro hlt
    by_contra hb
    rw [hab hb] at hlt
    cases hlt
  · intro hgt
    exact hab (by rw [hgt]; nofun)

/-- The index that is returned is that of the first member that the key is not above, and
splits the list. -/
theorem bsearchIdx_splits (h : StrictlyOrdered sl compare) :
    ∃ i found, bsearchIdx sl compare = some (i, found) ∧ i ≤ sl.length ∧
      sl.take i = sl.filter (fun a => compare a = .gt) ∧
      sl.drop i = sl.filter (fun a => compare a ≠ .gt) := by
  obtain ⟨i, found, hidx, hlocated⟩ := bsearchIdx_located h.ordered
  have hbelow : ∀ a ∈ sl.take i, compare a = .gt := by
    intro a ha
    obtain ⟨j, hj, ha⟩ := List.mem_take_iff_getElem.mp ha
    have hget := List.getElem?_eq_some_iff.mpr ⟨_, ha⟩
    cases found with
    | false => exact hlocated.below rfl j a (by omega) hget
    | true =>
      obtain ⟨b, hb, hcmp⟩ := hlocated.eq rfl
      obtain ⟨hi, rfl⟩ := List.getElem?_eq_some_iff.mp hb
      rw [← ha]
      exact List.pairwise_iff_getElem.mp h j i (by omega) hi (by omega) (by rw [hcmp]; nofun)
  have habove : ∀ a ∈ sl.drop i, compare a ≠ .gt := by
    intro a ha
    obtain ⟨j, hj, ha⟩ := List.mem_drop_iff_getElem.mp ha
    have hget := List.getElem?_eq_some_iff.mpr ⟨_, ha⟩
    cases found with
    | false => rw [hlocated.above rfl (i + j) a (by omega) hget]; nofun
    | true =>
      obtain ⟨b, hb, hcmp⟩ := hlocated.eq rfl
      rcases Nat.eq_zero_or_pos j with rfl | hpos
      · rw [Nat.add_zero, hb] at hget
        rw [← Option.some.inj hget, hcmp]
        nofun
      · intro hgt
        have hb' := (h.ordered.at (show i < i + j by omega) hb hget).2 hgt
        rw [hcmp] at hb'
        cases hb'
  have hsplit := List.take_append_drop i sl
  refine ⟨i, found, hidx, hlocated.le, ?_, ?_⟩
  · conv_rhs => rw [← hsplit]
    rw [List.filter_append, List.filter_eq_self.mpr fun a ha => decide_eq_true (hbelow a ha),
      List.filter_eq_nil_iff.mpr fun a ha => by simpa using habove a ha, List.append_nil]
  · conv_rhs => rw [← hsplit]
    rw [List.filter_append, List.filter_eq_nil_iff.mpr fun a ha => by simp [hbelow a ha],
      List.filter_eq_self.mpr fun a ha => decide_eq_true (habove a ha), List.nil_append]

/-- The search depends on the comparisons with the members only. -/
theorem bsearchIdx_congr {compare' : α → Ordering} (h : ∀ a ∈ sl, compare a = compare' a) :
    bsearchIdx sl compare = bsearchIdx sl compare' := by
  have hget (i : ℕ) : sl[i]?.map compare = sl[i]?.map compare' := by
    cases ha : sl[i]? with
    | none => rfl
    | some a => exact congrArg some (h a (List.mem_of_getElem? ha))
  have hend (lo hi : ℕ) : bsearchEnd sl compare lo hi = bsearchEnd sl compare' lo hi := by
    simp only [bsearchEnd, hget]
  have hloop (fuel lo hi : ℕ) :
      bsearchLoop sl compare fuel lo hi = bsearchLoop sl compare' fuel lo hi := by
    induction fuel generalizing lo hi with
    | zero => rfl
    | succ fuel ih => simp only [bsearchLoop, hget, hend, ih]
  simp only [bsearchIdx, hloop]

theorem ordered_of_sorted {κ : Type*} [LinearOrder κ] (of : α → κ)
    (h : sl.Pairwise fun a b => of a ≤ of b) (key : κ) : Ordered sl fun a => cmp key (of a) := by
  apply h.imp
  intro a b hle
  rw [cmp_eq_lt_iff, cmp_eq_lt_iff, cmp_eq_gt_iff, cmp_eq_gt_iff]
  exact ⟨fun hlt => hlt.trans_le hle, fun hlt => hle.trans_lt hlt⟩

/-- Where the key is not found, the index counts the smaller members. -/
theorem Located.eq_countP {i : ℕ} (h : Located sl compare i false) :
    i = sl.countP fun a => compare a = .gt := by
  have hbelow : ∀ a ∈ sl.take i, compare a = .gt := by
    intro a ha
    obtain ⟨j, hj, ha⟩ := List.mem_take_iff_getElem.mp ha
    exact h.below rfl j a (by omega) (List.getElem?_eq_some_iff.mpr ⟨_, ha⟩)
  have habove : ∀ a ∈ sl.drop i, compare a ≠ .gt := by
    intro a ha
    obtain ⟨j, hj, ha⟩ := List.mem_drop_iff_getElem.mp ha
    rw [h.above rfl (i + j) a (by omega) (List.getElem?_eq_some_iff.mpr ⟨_, ha⟩)]
    nofun
  have hfirst : (sl.take i).countP (fun a => compare a = .gt) = (sl.take i).length :=
    List.countP_eq_length.mpr fun a ha => decide_eq_true (hbelow a ha)
  have hsecond : (sl.drop i).countP (fun a => compare a = .gt) = 0 :=
    List.countP_eq_zero.mpr fun a ha => by simpa using habove a ha
  conv_rhs => rw [← List.take_append_drop i sl]
  rw [List.countP_append, hfirst, hsecond, List.length_take, Nat.min_eq_left h.le, Nat.add_zero]

theorem Located.not_eq {i : ℕ} (h : Located sl compare i false) : ∀ a ∈ sl, compare a ≠ .eq := by
  intro a ha
  obtain ⟨j, hj⟩ := List.mem_iff_getElem?.mp ha
  rcases Nat.lt_or_ge j i with hlt | hge
  · rw [h.below rfl j a hlt hj]
    nofun
  · rw [h.above rfl j a hge hj]
    nofun

/-- A member that is equal to the key is found when there is one; otherwise the index is how
many members are smaller. -/
theorem bsearchIdx_finds {κ : Type*} (compare : κ → α → Ordering) (key : κ)
    (hord : Ordered sl (compare key)) : ∃ i found, bsearchIdx sl (compare key) = some (i, found) ∧
      (found = true ↔ ∃ a ∈ sl, compare key a = .eq) ∧
      (found = true → ∃ a, sl[i]? = some a ∧ compare key a = .eq) ∧
      (found = false → i = sl.countP fun a => compare key a = .gt) := by
  obtain ⟨i, found, hidx, hlocated⟩ := bsearchIdx_located hord
  refine ⟨i, found, hidx, ?_, hlocated.eq, ?_⟩
  · constructor
    · intro htrue
      obtain ⟨a, ha, heq⟩ := hlocated.eq htrue
      exact ⟨a, List.mem_of_getElem? ha, heq⟩
    · rintro ⟨a, ha, heq⟩
      by_contra hfalse
      rw [Bool.not_eq_true] at hfalse
      subst hfalse
      exact hlocated.not_eq a ha heq
  · intro hfalse
    subst hfalse
    exact hlocated.eq_countP

/-- Repeated members, and a key between two others. -/
theorem bsearchIdx_finds_between : Ordered [1, 3, 3, 7] (fun a : ℕ => cmp 4 a) ∧
      ∃ i found, bsearchIdx [1, 3, 3, 7] (fun a : ℕ => cmp 4 a) = some (i, found) ∧
        (found = true ↔ ∃ a ∈ [1, 3, 3, 7], cmp 4 a = .eq) ∧
        (found = true → ∃ a, [1, 3, 3, 7][i]? = some a ∧ cmp 4 a = .eq) ∧
        (found = false → i = [1, 3, 3, 7].countP fun a => cmp 4 a = .gt) :=
  have hsorted : [1, 3, 3, 7].Pairwise fun a b : ℕ => id a ≤ id b := by decide
  have hord := ordered_of_sorted id hsorted 4
  ⟨hord, bsearchIdx_finds cmp 4 hord⟩

end TorDaemon.Container.Bsearch

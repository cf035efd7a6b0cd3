import Mathlib.Algebra.BigOperators.Group.List.Basic
import Mathlib.Data.List.Count
import Mathlib.Data.List.Destutter
import TorDaemon.Library.Sorting

/-! More than half of some voters, of whom not all need to have voted. -/
namespace TorDaemon.Library.Voting
variable {α : Type*} {p q : α → Bool} {total : ℕ} {votes : List α}

def Majority (total : ℕ) (votes : List α) (p : α → Bool) : Prop := total / 2 < votes.countP p

instance : Decidable (Majority total votes p) := inferInstanceAs (Decidable (_ < _))

/-- Two majorities have a voter in common. -/
theorem Majority.intersect (hp : Majority total votes p) (hq : Majority total votes q)
    (htotal : votes.length ≤ total) : ∃ v ∈ votes, p v ∧ q v := by
  by_contra hdisjoint
  have hnot : votes.countP q ≤ votes.countP fun v => ¬ p v := by
    refine List.countP_mono_left fun v hv hqv => ?_
    simpa using fun hpv => hdisjoint ⟨v, hv, hpv, hqv⟩
  have hsum := List.length_eq_countP_add_countP p (l := votes)
  unfold Majority at hp hq
  omega

end TorDaemon.Library.Voting

/-! Votes that are counted in sorted lists. The comparison that a list is sorted by may take
different elements for equal, while the counting tells them apart. -/
namespace TorDaemon.Library.Tally
open Library.Sorting
variable {α : Type*} {cmp : α → α → Ordering} {l l' : List α} {a b : α}

section Sorter

/-- The comparison puts the elements of the list in an order, though different ones may be equal
in it. -/
structure Consistent (cmp : α → α → Ordering) (l : List α) : Prop where
  swap : ∀ a ∈ l, ∀ b ∈ l, cmp b a = (cmp a b).swap
  trans : ∀ a ∈ l, ∀ b ∈ l, ∀ c ∈ l, (cmp a b).isLE → (cmp b c).isLE → (cmp a c).isLE

theorem Consistent.of_subset (h : Consistent cmp l) (hl : ∀ a ∈ l', a ∈ l) : Consistent cmp l' :=
  ⟨fun a ha b hb => h.swap a (hl a ha) b (hl b hb),
    fun a ha b hb c hc => h.trans a (hl a ha) b (hl b hb) c (hl c hc)⟩

theorem consistent_of_transCmp [Std.TransCmp cmp] (l : List α) : Consistent cmp l :=
  ⟨fun _ _ _ _ => Std.OrientedCmp.eq_swap, fun _ _ _ _ _ _ => Std.TransCmp.isLE_trans⟩

theorem Consistent.eq_of_isLE (h : Consistent cmp l) (ha : a ∈ l) (hb : b ∈ l)
    (hab : (cmp a b).isLE) (hba : (cmp b a).isLE) : cmp a b = .eq := by
  rw [h.swap a ha b hb] at hba
  cases hcmp : cmp a b <;> simp [hcmp] at hab hba ⊢

/-- A sorting function for one comparison callback, which owes nothing where the callback is no
order. -/
structure Sorter (cmp : α → α → Ordering) where
  sort : List α → List α
  perm : ∀ l, (sort l).Perm l
  sorted : ∀ l, Consistent cmp l → (sort l).Pairwise fun a b => (cmp a b).isLE

/-- The insertion sort. -/
def stableSorter (cmp : α → α → Ordering) : Sorter cmp where
  sort l := l.insertionSort (Before cmp)
  perm := before_perm cmp
  sorted l h := by
    -- the order is total and transitive on the elements of the list alone
    let before : { a // a ∈ l } → { a // a ∈ l } → Prop := fun a b => Before cmp a.val b.val
    have htotal : Std.Total before := by
      constructor
      intro a b
      have hswap := h.swap a.val a.property b.val b.property
      simp only [before, Before, hswap]
      cases cmp a.val b.val <;> simp
    have htrans : IsTrans { a // a ∈ l } before :=
      ⟨fun a b c => h.trans a.val a.property b.val b.property c.val c.property⟩
    have hdecidable : DecidableRel before := fun a b => inferInstanceAs (Decidable (Before cmp _ _))
    have hmap : (l.attach.insertionSort before).map Subtype.val = l.insertionSort (Before cmp) := by
      rw [List.map_insertionSort before (Before cmp) Subtype.val l.attach fun _ _ _ _ => Iff.rfl,
        List.attach_map_subtype_val]
    rw [← hmap, List.pairwise_map]
    exact List.pairwise_insertionSort before l.attach

end Sorter

section Frequent

/-- Of neighbours that are equal in the order the first is left. -/
def uniq (cmp : α → α → Ordering) (l : List α) : List α := l.destutter fun a b => cmp a b ≠ .eq

/-- Nothing else in the list is equal to the element in the order. -/
def Alone (cmp : α → α → Ordering) (l : List α) (a : α) : Prop := ∀ b ∈ l, cmp a b = .eq → a = b

variable [DecidableEq α]

/-- The current element has been met so often. -/
def frequentLoop (least : ℕ) (cur : α) (count : ℕ) : List α → List α
  | [] => if least < count then [cur] else []
  | a :: l =>
    if a = cur then frequentLoop least cur (count + 1) l
    else (if least < count then [cur] else []) ++ frequentLoop least a 1 l

/-- The elements that occur more often than so. -/
def frequentMembers (least : ℕ) : List α → List α
  | [] => []
  | a :: l => frequentLoop least a 1 l

end Frequent

section Uniq

theorem uniq_sublist (l : List α) : (uniq cmp l).Sublist l := List.destutter_sublist _ l

theorem pairwise_lt_of_isChain (hcmp : Consistent cmp l)
    (hsorted : l.Pairwise fun a b => (cmp a b).isLE) (h : l.IsChain fun a b => cmp a b ≠ .eq) :
    l.Pairwise fun a b => cmp a b = .lt := by
  induction l with
  | nil => exact .nil
  | cons a l ih =>
    rw [List.pairwise_cons] at hsorted ⊢
    refine ⟨?_, ih (hcmp.of_subset fun b hb => .tail _ hb) hsorted.2 h.tail⟩
    intro c hc
    have hle := hsorted.1 c hc
    cases hac : cmp a c with
    | lt => rfl
    | gt => simp [hac] at hle
    | eq =>
      -- the element after `a` would be between two that are equal
      cases l with
      | nil => simp at hc
      | cons b l =>
        have hne : cmp a b ≠ .eq := (List.isChain_cons_cons.mp h).1
        have hb : b ∈ a :: b :: l := .tail _ (.head _)
        have hbc : (cmp b c).isLE := by
          rcases List.mem_cons.mp hc with rfl | hc
          · exact absurd hac hne
          · exact (List.pairwise_cons.mp hsorted.2).1 c hc
        have hca : (cmp c a).isLE := by
          rw [hcmp.swap a (.head _) c (.tail _ hc), hac]
          rfl
        have hba := hcmp.trans b hb c (.tail _ hc) a (.head _) hbc hca
        exact absurd (hcmp.eq_of_isLE (.head _) hb (hsorted.1 b (.head _)) hba) hne

theorem uniq_pairwise (hcmp : Consistent cmp l) (hsorted : l.Pairwise fun a b => (cmp a b).isLE) :
    (uniq cmp l).Pairwise fun a b => cmp a b = .lt :=
  pairwise_lt_of_isChain (hcmp.of_subset fun _ ha => (uniq_sublist l).subset ha)
    (hsorted.sublist (uniq_sublist l)) (List.isChain_destutter _ l)

variable (cmp) in
/-- Of what is taken out something equal is left. -/
theorem exists_mem_uniq (h : a ∈ l) : a ∈ uniq cmp l ∨ ∃ b ∈ uniq cmp l, cmp b a = .eq := by
  have hloop : ∀ (l : List α) (c : α), a ∈ l →
      a ∈ l.destutter' (fun a b => cmp a b ≠ .eq) c ∨
        ∃ b ∈ l.destutter' (fun a b => cmp a b ≠ .eq) c, cmp b a = .eq := by
    intro l
    induction l with
    | nil => simp
    | cons b l ih =>
      intro c ha
      by_cases hcb : cmp c b = .eq
      · rw [List.destutter'_cons_neg _ (not_not.mpr hcb)]
        rcases List.mem_cons.mp ha with rfl | ha
        · exact .inr ⟨c, List.mem_destutter' _ _ _, hcb⟩
        · exact ih c ha
      · rw [List.destutter'_cons_pos _ hcb]
        rcases List.mem_cons.mp ha with rfl | ha
        · exact .inl (.tail _ (List.mem_destutter' _ _ _))
        · rcases ih b ha with hmem | ⟨d, hd, heq⟩
          · exact .inl (.tail _ hmem)
          · exact .inr ⟨d, .tail _ hd, heq⟩
  cases l with
  | nil => simp at h
  | cons c l =>
    rcases List.mem_cons.mp h with rfl | h
    · exact .inl (List.mem_destutter' _ _ _)
    · exact hloop l c h

variable [DecidableEq α]

theorem count_uniq_le (hcmp : Consistent cmp l)
    (hsorted : l.Pairwise fun a b => (cmp a b).isLE) (a : α) :
    (uniq cmp l).count a ≤ if a ∈ l then 1 else 0 := by
  by_cases ha : a ∈ l
  · rw [if_pos ha]
    apply List.nodup_iff_count_le_one.mp
    refine (uniq_pairwise hcmp hsorted).imp_of_mem fun {b c} hb _ hlt => ?_
    rintro rfl
    have hswap := hcmp.swap b ((uniq_sublist l).subset hb) b ((uniq_sublist l).subset hb)
    rw [hlt] at hswap
    exact Ordering.noConfusion hswap
  · rw [if_neg ha, List.count_eq_zero_of_not_mem fun h => ha ((uniq_sublist l).subset h)]

theorem count_uniq_of_alone (hcmp : Consistent cmp l)
    (hsorted : l.Pairwise fun a b => (cmp a b).isLE) (ha : Alone cmp l a) :
    (uniq cmp l).count a = if a ∈ l then 1 else 0 := by
  have hle := count_uniq_le hcmp hsorted a
  by_cases hin : a ∈ l
  · rw [if_pos hin] at hle ⊢
    have hmem : a ∈ uniq cmp l := by
      rcases exists_mem_uniq cmp hin with hmem | ⟨b, hb, heq⟩
      · exact hmem
      · have hbl := (uniq_sublist l).subset hb
        have hab : cmp a b = .eq := by
          rw [hcmp.swap b hbl a hin, heq]
          rfl
        exact ha b hbl hab ▸ hb
    have hpos := List.count_pos_iff.mpr hmem
    omega
  · rw [if_neg hin] at hle ⊢
    omega

end Uniq

section Voters
variable [DecidableEq α] {ballots : List (List α)} {q : Sorter cmp}

/-- Every voter's list is sorted and no element is left in it twice; then those of all voters are
sorted together. -/
def combined (q : Sorter cmp) (ballots : List (List α)) : List α :=
  ballots.flatMap fun ballot => uniq cmp (q.sort ballot)

/-- What more than so many voters list. -/
def tally (q : Sorter cmp) (least : ℕ) (ballots : List (List α)) : List α :=
  frequentMembers least (q.sort (combined q ballots))

def listedBy (ballots : List (List α)) (a : α) : ℕ := ballots.countP (a ∈ ·)

omit [DecidableEq α] in
theorem mem_combined (h : a ∈ combined q ballots) : a ∈ ballots.flatten := by
  obtain ⟨ballot, hballot, ha⟩ := List.mem_flatMap.mp h
  have hin := (q.perm ballot).mem_iff.mp ((uniq_sublist _).subset ha)
  exact List.mem_flatten.mpr ⟨ballot, hballot, hin⟩

theorem count_combined (q : Sorter cmp) (hcmp : Consistent cmp ballots.flatten) (a : α) :
    (combined q ballots).count a ≤ listedBy ballots a ∧
      (Alone cmp ballots.flatten a → (combined q ballots).count a = listedBy ballots a) := by
  induction ballots with
  | nil => simp [combined, listedBy]
  | cons ballot ballots ih =>
    have hleft : ∀ b ∈ ballot, b ∈ (ballot :: ballots).flatten := fun b hb => by simp [hb]
    have hright : ∀ b ∈ ballots.flatten, b ∈ (ballot :: ballots).flatten := by
      intro b hb
      exact List.mem_append_right _ hb
    have hballot : Consistent cmp ballot := hcmp.of_subset hleft
    have hsort : Consistent cmp (q.sort ballot) :=
      hballot.of_subset fun a ha => (q.perm ballot).mem_iff.mp ha
    have hfirst := count_uniq_le hsort (q.sorted ballot hballot) a
    obtain ⟨hrest, hrestAlone⟩ := ih (hcmp.of_subset hright)
    simp only [(q.perm ballot).mem_iff] at hfirst
    simp only [combined, listedBy, List.flatMap_cons, List.count_append, List.countP_cons,
      decide_eq_true_eq] at hrest hrestAlone ⊢
    refine ⟨by omega, fun ha => ?_⟩
    have halone := count_uniq_of_alone hsort (q.sorted ballot hballot) (a := a)
      fun b hb => ha b (hleft b ((q.perm ballot).mem_iff.mp hb))
    have hrest := hrestAlone fun b hb => ha b (hright b hb)
    simp only [(q.perm ballot).mem_iff] at halone
    omega

end Voters

section Most

/-- The best element so far and the length of its run are kept beside the current ones. -/
def mostLoop (cmp : α → α → Ordering) (best : Option α × ℕ) (cur : α) (count : ℕ) :
    List α → Option α × ℕ
  | [] => if best.2 ≤ count then (some cur, count) else best
  | a :: l =>
    if cmp cur a = .eq then mostLoop cmp best cur (count + 1) l
    else mostLoop cmp (if best.2 ≤ count then (some cur, count) else best) a 1 l

/-- The first element of the longest run, of the last one of these, and its length. -/
def mostFrequent (cmp : α → α → Ordering) : List α → Option α × ℕ
  | [] => (none, 0)
  | a :: l => mostLoop cmp (none, 0) a 1 l

end Most

end TorDaemon.Library.Tally

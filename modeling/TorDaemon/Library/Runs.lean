import Mathlib.Data.List.Infix
import TorDaemon.Library.Tally

/-! Runs of equal elements in sorted lists, where elements that are equal in the order but not the
same may come in between. -/
namespace TorDaemon.Library.Runs
open Library.Sorting Library.Tally
variable {α : Type*} {cmp : α → α → Ordering} {l A B : List α} {a b u : α} {least k : ℕ}

section Runs

theorem replicate_le_run {n : ℕ} (h : k ≤ n) : List.replicate k a <+: List.replicate n a := by
  refine ⟨List.replicate (n - k) a, ?_⟩
  rw [← List.replicate_add, Nat.add_sub_cancel' h]

/-- A run does not go across another element. -/
theorem replicate_infix_split (hne : u ≠ a) (h : List.replicate k a <:+: A ++ u :: B) :
    List.replicate k a <:+: A ∨ List.replicate k a <:+: B := by
  rcases List.infix_append_iff.mp h with h | h | ⟨l₁, l₂, heq, h₁, h₂⟩
  · exact .inl h
  · rcases List.infix_cons_iff.mp h with h | h
    · cases k with
      | zero => exact .inr List.nil_infix
      | succ k =>
        rw [List.replicate_succ, List.cons_prefix_cons] at h
        exact absurd h.1.symm hne
    · exact .inr h
  · cases l₂ with
    | nil =>
      rw [heq, List.append_nil]
      exact .inl h₁.isInfix
    | cons b l₂ =>
      obtain rfl := (List.cons_prefix_cons.mp h₂).1
      have hmem : b ∈ List.replicate k a := by simp [heq]
      exact absurd (List.eq_of_mem_replicate hmem) hne

theorem replicate_infix_of_not_mem (hA : a ∉ A) (h : List.replicate (k + 1) a <:+: A ++ B) :
    List.replicate (k + 1) a <:+: B := by
  have hmem : a ∈ List.replicate (k + 1) a := by simp
  rcases List.infix_append_iff.mp h with h | h | ⟨l₁, l₂, heq, h₁, h₂⟩
  · exact absurd (h.subset hmem) hA
  · exact h
  · cases l₁ with
    | nil =>
      rw [heq, List.nil_append]
      exact h₂.isInfix
    | cons b l₁ =>
      have hb : b ∈ List.replicate (k + 1) a := by simp [heq]
      obtain rfl := List.eq_of_mem_replicate hb
      exact absurd (h₁.subset (.head _)) hA

variable [DecidableEq α]

theorem le_count_of_replicate_infix (h : List.replicate k a <:+: l) : k ≤ l.count a := by
  simpa using h.sublist.count_le a

theorem mem_ite_iff {cur : α} {count : ℕ} : a ∈ (if least < count then [cur] else []) ↔
    List.replicate (least + 1) a <:+: List.replicate count cur := by
  constructor
  · intro h
    split at h
    case isTrue hlt =>
      obtain rfl := List.mem_singleton.mp h
      exact (replicate_le_run hlt).isInfix
    case isFalse => simp at h
  · intro h
    have hcount := le_count_of_replicate_infix h
    rw [List.count_replicate] at hcount
    split at hcount
    case isTrue heq =>
      rw [if_pos (Nat.lt_of_succ_le hcount)]
      simpa using (beq_iff_eq.mp heq).symm
    case isFalse => omega

theorem mem_frequentLoop_iff {cur : α} {count : ℕ} : a ∈ frequentLoop least cur count l ↔
    List.replicate (least + 1) a <:+: List.replicate count cur ++ l := by
  induction l generalizing cur count with
  | nil => rw [frequentLoop, List.append_nil, mem_ite_iff]
  | cons b l ih =>
    rw [frequentLoop]
    by_cases hb : b = cur
    · subst hb
      have hcons : List.replicate (count + 1) b ++ l = List.replicate count b ++ b :: l := by
        rw [List.replicate_succ', List.append_assoc, List.singleton_append]
      rw [if_pos rfl, ih, hcons]
    · rw [if_neg hb, List.mem_append, ih, mem_ite_iff, List.replicate_one, List.singleton_append]
      constructor
      · rintro (h | h)
        · exact h.trans (List.prefix_append _ _).isInfix
        · exact h.trans (List.suffix_append _ _).isInfix
      · intro h
        by_cases ha : a = cur
        · subst ha
          refine (replicate_infix_split hb h).imp_right fun hl => ?_
          exact hl.trans (List.suffix_cons _ _).isInfix
        · refine .inr (replicate_infix_of_not_mem (fun hmem => ?_) h)
          exact ha (List.eq_of_mem_replicate hmem)

/-- An element is met more often than so if and only if it has a run of such a length. -/
theorem mem_frequentMembers_iff :
    a ∈ frequentMembers least l ↔ List.replicate (least + 1) a <:+: l := by
  cases l with
  | nil => simp [frequentMembers, List.replicate_succ]
  | cons b l =>
    rw [frequentMembers, mem_frequentLoop_iff, List.replicate_one, List.singleton_append]

theorem frequentLoop_sublist (least : ℕ) (cur : α) (count : ℕ) (l : List α) :
    (frequentLoop least cur count l).Sublist (cur :: l) := by
  have hite : ∀ (count : ℕ) (cur : α),
      (if least < count then [cur] else []).Sublist [cur] := by
    intro count cur
    split
    · exact List.Sublist.refl _
    · exact List.nil_sublist _
  induction l generalizing cur count with
  | nil => exact hite count cur
  | cons b l ih =>
    rw [frequentLoop]
    split
    · exact (ih cur _).trans ((List.sublist_cons_self b l).cons_cons cur)
    · exact (hite count cur).append (ih b 1)

theorem frequentMembers_sublist (least : ℕ) (l : List α) : (frequentMembers least l).Sublist l := by
  cases l with
  | nil => exact List.Sublist.refl _
  | cons b l => exact frequentLoop_sublist least b 1 l

end Runs

section Classes
variable [Std.TransCmp cmp]

/-- The elements that are equal to this one in the order. -/
def inClass (cmp : α → α → Ordering) (a b : α) : Bool := cmp a b = .eq

omit [Std.TransCmp cmp] in
theorem inClass_iff : inClass cmp a b ↔ cmp a b = .eq := decide_eq_true_iff

theorem filter_prefix_of_sorted (hsorted : l.Pairwise fun a b => (cmp a b).isLE)
    (hle : ∀ b ∈ l, (cmp a b).isLE) : l.filter (inClass cmp a) <+: l := by
  induction l with
  | nil => exact List.prefix_refl _
  | cons b l ih =>
    rw [List.pairwise_cons] at hsorted
    rw [List.forall_mem_cons] at hle
    cases hb : cmp a b with
    | eq =>
      rw [List.filter_cons_of_pos (inClass_iff.mpr hb), List.cons_prefix_cons]
      exact ⟨rfl, ih hsorted.2 hle.2⟩
    | lt =>
      have hnone : (b :: l).filter (inClass cmp a) = [] := by
        rw [List.filter_eq_nil_iff, List.forall_mem_cons]
        refine ⟨by simp [inClass, hb], fun c hc => ?_⟩
        simp [inClass, Std.TransCmp.lt_of_lt_of_isLE hb (hsorted.1 c hc)]
      rw [hnone]
      exact List.nil_prefix
    | gt => simp [hb] at hle

/-- In a sorted list they stand together. -/
theorem filter_infix_of_sorted (hsorted : l.Pairwise fun a b => (cmp a b).isLE) (a : α) :
    l.filter (inClass cmp a) <:+: l := by
  induction l with
  | nil => exact List.infix_refl _
  | cons b l ih =>
    obtain ⟨hb, htail⟩ := List.pairwise_cons.mp hsorted
    by_cases hab : (cmp a b).isLE
    · apply (filter_prefix_of_sorted hsorted _).isInfix
      rw [List.forall_mem_cons]
      exact ⟨hab, fun c hc => Std.TransCmp.isLE_trans hab (hb c hc)⟩
    · have hne : ¬ inClass cmp a b := by
        intro h
        rw [inClass_iff.mp h] at hab
        exact hab rfl
      rw [List.filter_cons_of_neg hne]
      exact (ih htail).trans (List.suffix_cons _ _).isInfix

/-- The insertion sort keeps their order. -/
theorem stableSorter_filter (l : List α) (a : α) :
    ((stableSorter cmp).sort l).filter (inClass cmp a) = l.filter (inClass cmp a) := by
  have hpairwise : (l.filter (inClass cmp a)).Pairwise (Before cmp) := by
    apply List.pairwise_of_forall_mem_list
    intro b hb c hc
    have hab := inClass_iff.mp (List.mem_filter.mp hb).2
    have hac := inClass_iff.mp (List.mem_filter.mp hc).2
    have hba : cmp b a = .eq := Std.OrientedCmp.eq_symm hab
    simp [Before, Std.TransCmp.eq_trans hba hac]
  have hsub := List.sublist_insertionSort hpairwise List.filter_sublist
  have hfilter := hsub.filter (inClass cmp a)
  simp only [List.filter_filter, Bool.and_self] at hfilter
  have hperm := ((stableSorter cmp).perm l).filter (inClass cmp a)
  exact (hfilter.eq_of_length hperm.length_eq.symm).symm

section
variable (hsorted : l.Pairwise fun a b => (cmp a b).isLE)
include hsorted

theorem uniq_filter (a : α) :
    (uniq cmp l).filter (inClass cmp a) = (l.find? (inClass cmp a)).toList := by
  have hloop : ∀ (l : List α) (c : α), (c :: l).Pairwise (fun a b => (cmp a b).isLE) →
      (l.destutter' (fun a b => cmp a b ≠ .eq) c).filter (inClass cmp a) =
        ((c :: l).find? (inClass cmp a)).toList := by
    intro l
    induction l with
    | nil =>
      intro c _
      by_cases hc : inClass cmp a c <;> simp [hc]
    | cons b l ih =>
      intro c hsorted
      obtain ⟨hc, htail⟩ := List.pairwise_cons.mp hsorted
      by_cases hcb : cmp c b = .eq
      · rw [List.destutter'_cons_neg _ (not_not.mpr hcb)]
        have hcl : (c :: l).Pairwise (fun a b => (cmp a b).isLE) :=
          List.pairwise_cons.mpr ⟨fun d hd => hc d (.tail _ hd), (List.pairwise_cons.mp htail).2⟩
        rw [ih c hcl]
        by_cases hac : inClass cmp a c
        · simp [hac]
        · have hab : ¬ inClass cmp a b := by
            rwa [inClass_iff, ← Std.TransCmp.congr_right hcb, ← inClass_iff]
          simp [hac, hab]
      · rw [List.destutter'_cons_pos _ hcb]
        by_cases hac : inClass cmp a c
        · have hcb' : cmp c b = .lt := by
            have hle := hc b (.head _)
            cases h : cmp c b <;> simp [h] at hcb hle ⊢
          -- what follows comes after the class of `c`
          have hnone : (b :: l).find? (inClass cmp a) = none := by
            rw [List.find?_eq_none]
            intro d hd
            have hbd : (cmp b d).isLE := by
              rcases List.mem_cons.mp hd with heq | hd
              · rw [heq, (Std.ReflCmp.compare_self : cmp b b = .eq)]
                rfl
              · exact (List.pairwise_cons.mp htail).1 d hd
            have had := Std.TransCmp.lt_of_eq_of_lt (inClass_iff.mp hac)
              (Std.TransCmp.lt_of_lt_of_isLE hcb' hbd)
            simp [inClass, had]
          rw [List.filter_cons_of_pos hac, ih b htail, hnone]
          simp [hac]
        · rw [List.filter_cons_of_neg hac, ih b htail, List.find?_cons_of_neg hac]
  cases l with
  | nil => rfl
  | cons c l => exact hloop l c hsorted

theorem replicate_infix_of_alone [DecidableEq α]
    (halone : Alone cmp l a) : List.replicate (l.count a) a <:+: l := by
  have hself : cmp a a = .eq := Std.ReflCmp.compare_self
  have hfilter : l.filter (inClass cmp a) = List.replicate (l.count a) a := by
    rw [← List.filter_eq]
    apply List.filter_congr
    intro b hb
    by_cases hab : a = b
    · simp [inClass, ← hab, hself]
    · have hne : cmp a b ≠ .eq := fun heq => hab (halone b hb heq)
      simp [inClass, hne, Ne.symm hab]
  rw [← hfilter]
  exact filter_infix_of_sorted hsorted a

theorem mem_frequentMembers_of_alone [DecidableEq α] (halone : Alone cmp l a)
    (hcount : least < l.count a) : a ∈ frequentMembers least l := by
  have hpre := (replicate_le_run (a := a) hcount).isInfix
  exact mem_frequentMembers_iff.mpr (hpre.trans (replicate_infix_of_alone hsorted halone))

end

theorem stableSorter_find? (l : List α) (a : α) :
    ((stableSorter cmp).sort l).find? (inClass cmp a) = l.find? (inClass cmp a) := by
  rw [← List.head?_filter, stableSorter_filter, List.head?_filter]

theorem inClass_self (a : α) : inClass cmp a a := inClass_iff.mpr Std.ReflCmp.compare_self

theorem inClass_congr_right {c : α} (h : cmp b c = .eq) (a : α) :
    inClass cmp a b = inClass cmp a c := by
  rw [inClass, inClass, Std.TransCmp.congr_right h]

theorem inClass_congr_left {c : α} (h : cmp a b = .eq) : inClass cmp a c = inClass cmp b c := by
  rw [inClass, inClass, Std.TransCmp.congr_left h]

theorem lt_of_sorted (hsorted : (a :: b :: l).Pairwise fun a b => (cmp a b).isLE)
    (hab : cmp a b ≠ .eq) : ∀ c ∈ b :: l, cmp a c = .lt := by
  obtain ⟨ha, htail⟩ := List.pairwise_cons.mp hsorted
  have hlt : cmp a b = .lt := by
    have hle := ha b (.head _)
    cases h : cmp a b <;> simp [h] at hab hle ⊢
  intro c hc
  rcases List.mem_cons.mp hc with rfl | hc
  · exact hlt
  · exact Std.TransCmp.lt_of_lt_of_isLE hlt ((List.pairwise_cons.mp htail).1 c hc)

theorem not_inClass_of_lt (h : cmp a b = .lt) : ¬ inClass cmp b a := by
  intro hclass
  have hswap := Std.OrientedCmp.eq_symm (inClass_iff.mp hclass)
  rw [h] at hswap
  exact Ordering.noConfusion hswap

omit [Std.TransCmp cmp] in
theorem countP_inClass_of_lt (h : ∀ b ∈ l, cmp a b = .lt) : l.countP (inClass cmp a) = 0 := by
  rw [List.countP_eq_zero]
  intro b hb hclass
  rw [inClass_iff, h b hb] at hclass
  exact Ordering.noConfusion hclass

/-- A result is the best so far, or else the first element of a class that has as many elements as
any in the list. -/
def IsMost (cmp : α → α → Ordering) (best : Option α × ℕ) (total : α → ℕ) (l : List α)
    (result : Option α × ℕ) : Prop :=
  (result = best ∧ ∀ a ∈ l, total a < best.2) ∨
    ∃ a ∈ l, l.find? (inClass cmp a) = some a ∧ result = (some a, total a) ∧ best.2 ≤ total a ∧
      ∀ b ∈ l, total b ≤ total a

section Most
variable {best result : Option α × ℕ} {cur b : α} {count : ℕ} {total : α → ℕ}

theorem IsMost.same (h : IsMost cmp best total (cur :: l) result) (hcb : cmp cur b = .eq)
    (htotal : total b = total cur) : IsMost cmp best total (cur :: b :: l) result := by
  have hclass : ∀ a, inClass cmp a b = inClass cmp a cur :=
    fun a => (inClass_congr_right hcb a).symm
  have hfind : ∀ a, (cur :: b :: l).find? (inClass cmp a) = (cur :: l).find? (inClass cmp a) := by
    intro a
    by_cases ha : inClass cmp a cur
    · rw [List.find?_cons_of_pos ha, List.find?_cons_of_pos ha]
    · rw [List.find?_cons_of_neg ha, List.find?_cons_of_neg ha,
        List.find?_cons_of_neg (by rwa [hclass])]
  have hall : ∀ P : α → Prop, (P cur → P b) → (∀ a ∈ cur :: l, P a) →
      ∀ a ∈ cur :: b :: l, P a := by
    intro P hP hl a ha
    rcases List.mem_cons.mp ha with rfl | ha
    · exact hl a (.head _)
    rcases List.mem_cons.mp ha with rfl | ha
    · exact hP (hl cur (.head _))
    · exact hl a (.tail _ ha)
  rcases h with ⟨hloop, hlt⟩ | ⟨a, ha, hfinda, hloop, hle, hmost⟩
  · exact .inl ⟨hloop, hall _ (by rw [htotal]; exact id) hlt⟩
  · refine .inr ⟨a, ?_, (hfind a).trans hfinda, hloop, hle, hall _ (by rw [htotal]; exact id) hmost⟩
    rcases List.mem_cons.mp ha with rfl | ha
    · exact .head _
    · exact .tail _ (.tail _ ha)

/-- The class of the first element is behind, and it may be the best. -/
theorem IsMost.next (h : IsMost cmp (if best.2 ≤ count then (some cur, count) else best) total l
    result) (hcur : total cur = count) (hnot : ∀ a ∈ l, ¬ inClass cmp a cur) :
    IsMost cmp best total (cur :: l) result := by
  have hbest : (if best.2 ≤ count then (some cur, count) else best).2 = max best.2 count := by
    split <;> simp <;> omega
  rcases h with ⟨hloop, hmost⟩ | ⟨a, ha, hfind, hloop, hle, hmost⟩
  · rw [hloop]
    by_cases hcount : best.2 ≤ count
    · rw [if_pos hcount]
      refine .inr ⟨cur, .head _, List.find?_cons_of_pos (inClass_self cur), by rw [hcur],
        by rwa [hcur], ?_⟩
      rw [List.forall_mem_cons]
      refine ⟨le_rfl, fun a ha => ?_⟩
      have hlta := hmost a ha
      omega
    · rw [if_neg hcount]
      refine .inl ⟨rfl, ?_⟩
      rw [List.forall_mem_cons, hcur]
      refine ⟨not_le.mp hcount, fun a ha => ?_⟩
      have hlta := hmost a ha
      omega
  · refine .inr ⟨a, .tail _ ha, ?_, hloop, by omega, ?_⟩
    · rw [List.find?_cons_of_neg (hnot a ha), hfind]
    · rw [List.forall_mem_cons, hcur]
      exact ⟨by omega, hmost⟩

omit [Std.TransCmp cmp] in
theorem IsMost.congr {total' : α → ℕ} (h : IsMost cmp best total l result)
    (htotal : ∀ a ∈ l, total' a = total a) : IsMost cmp best total' l result := by
  rcases h with ⟨hloop, hlt⟩ | ⟨a, ha, hfind, hloop, hle, hmost⟩
  · refine .inl ⟨hloop, fun a ha => ?_⟩
    rw [htotal a ha]
    exact hlt a ha
  · refine .inr ⟨a, ha, hfind, ?_, ?_, fun c hc => ?_⟩
    · rw [hloop, htotal a ha]
    · rwa [htotal a ha]
    · rw [htotal a ha, htotal c hc]
      exact hmost c hc

end Most

/-- The elements of a class are counted together with those counted before. -/
theorem mostLoop_spec {best : Option α × ℕ} {cur : α} {count : ℕ}
    (hsorted : (cur :: l).Pairwise fun a b => (cmp a b).isLE) (total : α → ℕ)
    (htotal : ∀ a, total a = l.countP (inClass cmp a) + if inClass cmp a cur then count else 0) :
    IsMost cmp best total (cur :: l) (mostLoop cmp best cur count l) := by
  induction l generalizing best cur count total with
  | nil =>
    have hcur : total cur = count := by simp [htotal, inClass_self]
    exact IsMost.next (.inl ⟨rfl, by simp⟩) hcur (by simp)
  | cons b l ih =>
    obtain ⟨hcur, htail⟩ := List.pairwise_cons.mp hsorted
    rw [mostLoop]
    by_cases hcb : cmp cur b = .eq
    · rw [if_pos hcb]
      have hclass : inClass cmp cur = inClass cmp b := funext fun c => inClass_congr_left hcb
      have hrest := @ih best cur (count + 1)
        (hsorted.sublist ((List.sublist_cons_self b l).cons_cons cur)) total
        (fun a => by
          rw [htotal, List.countP_cons, ← inClass_congr_right hcb a]
          split <;> omega)
      exact hrest.same hcb (by rw [htotal, htotal, hclass])
    · rw [if_neg hcb]
      -- what follows is not in the class of `cur`
      have hlt := lt_of_sorted hsorted hcb
      have hnot : ∀ a ∈ b :: l, ¬ inClass cmp a cur := fun a ha => not_inClass_of_lt (hlt a ha)
      have htotalcur : total cur = count := by
        rw [htotal, countP_inClass_of_lt hlt, if_pos (inClass_self cur), zero_add]
      have hrest := @ih (if best.2 ≤ count then (some cur, count) else best) b 1 htail
        (fun a => (b :: l).countP (inClass cmp a)) (fun a => List.countP_cons)
      have htotalrest : ∀ a ∈ b :: l, total a = (b :: l).countP (inClass cmp a) := by
        intro a ha
        rw [htotal, if_neg (hnot a ha), add_zero]
      exact (hrest.congr htotalrest).next htotalcur hnot

/-- In a sorted list the result is the first element of a class, and no class is larger. -/
theorem mostFrequent_spec (hsorted : l.Pairwise fun a b => (cmp a b).isLE) (hl : l ≠ []) :
    ∃ a ∈ l, l.find? (inClass cmp a) = some a ∧
      mostFrequent cmp l = (some a, l.countP (inClass cmp a)) ∧
      ∀ b ∈ l, l.countP (inClass cmp b) ≤ l.countP (inClass cmp a) := by
  cases l with
  | nil => exact absurd rfl hl
  | cons c l =>
    rcases @mostLoop_spec _ cmp l _ (none, 0) c 1 hsorted
      (fun a => (c :: l).countP (inClass cmp a)) (fun a => List.countP_cons) with
      ⟨-, hlt⟩ | ⟨a, ha, hfind, hloop, -, hmost⟩
    · exact absurd (hlt c (.head _)) (Nat.not_lt_zero _)
    · exact ⟨a, ha, hfind, hloop, hmost⟩

end Classes

section Votes
variable [DecidableEq α] [Std.TransCmp cmp] {ballots ballots' : List (List α)}

variable {q : Sorter cmp}

theorem listedBy_of_mem_tally (h : a ∈ tally q least ballots) : least < listedBy ballots a := by
  have hcount := le_count_of_replicate_infix (mem_frequentMembers_iff.mp h)
  rw [(q.perm _).count_eq] at hcount
  exact hcount.trans (count_combined q (consistent_of_transCmp _) a).1

theorem tally_sorted : (tally q least ballots).Pairwise fun a b => (cmp a b).isLE :=
  (q.sorted _ (consistent_of_transCmp _)).sublist (frequentMembers_sublist _ _)

theorem mem_tally_of_alone (halone : Alone cmp ballots.flatten a) (h : least < listedBy ballots a) :
    a ∈ tally q least ballots := by
  apply mem_frequentMembers_of_alone (q.sorted _ (consistent_of_transCmp _))
  · exact fun b hb => halone b (mem_combined ((q.perm _).mem_iff.mp hb))
  · rwa [(q.perm _).count_eq, (count_combined q (consistent_of_transCmp _) _).2 halone]

/-- In the only vote something is left that is equal to an entry. -/
theorem exists_mem_tally_of_one {ballot : List α} (h : a ∈ ballot) (hleast : least = 0) :
    ∃ b ∈ tally q least [ballot], cmp b a = .eq := by
  subst hleast
  have hself : cmp a a = .eq := Std.ReflCmp.compare_self
  have hone : ∀ b, b ∈ uniq cmp (q.sort ballot) → b ∈ tally q 0 [ballot] := by
    intro b hb
    have hcombined : b ∈ q.sort (combined q [ballot]) := by
      rw [(q.perm _).mem_iff, combined, List.flatMap_singleton]
      exact hb
    exact mem_frequentMembers_iff.mpr ((List.singleton_infix_iff _ _).mpr hcombined)
  rcases exists_mem_uniq cmp ((q.perm ballot).mem_iff.mpr h) with hmem | ⟨b, hb, heq⟩
  · exact ⟨a, hone a hmem, hself⟩
  · exact ⟨b, hone b hb, heq⟩

omit [DecidableEq α] in
theorem combined_filter (ballots : List (List α)) (a : α) :
    (combined (stableSorter cmp) ballots).filter (inClass cmp a) =
      ballots.filterMap (List.find? (inClass cmp a)) := by
  induction ballots with
  | nil => rfl
  | cons ballot ballots ih =>
    have hfirst : (combined (stableSorter cmp) (ballot :: ballots)) =
        uniq cmp ((stableSorter cmp).sort ballot) ++ combined (stableSorter cmp) ballots := rfl
    have hsorted := (stableSorter cmp).sorted ballot (consistent_of_transCmp ballot)
    rw [hfirst, List.filter_append, ih, uniq_filter hsorted, ← List.head?_filter,
      stableSorter_filter, List.head?_filter, List.filterMap_cons]
    cases ballot.find? (inClass cmp a) <;> rfl

/-- What is counted with the insertion sort is a run among the spellings, in the votes' order. -/
theorem mem_tally_iff (hab : inClass cmp a b) : b ∈ tally (stableSorter cmp) least ballots ↔
    List.replicate (least + 1) b <:+: ballots.filterMap (List.find? (inClass cmp a)) := by
  rw [tally, mem_frequentMembers_iff, ← combined_filter, ← stableSorter_filter]
  constructor
  · intro h
    have hfilter := h.filter (inClass cmp a)
    rwa [List.filter_replicate_of_pos hab] at hfilter
  · intro h
    exact h.trans (filter_infix_of_sorted ((stableSorter cmp).sorted _ (consistent_of_transCmp _)) a)

/-- The same votes, and the same entries in each of them, in another order. -/
def Reordered (ballots ballots' : List (List α)) : Prop :=
  ∃ l, ballots.Perm l ∧ List.Forall₂ List.Perm l ballots'

omit [DecidableEq α] in
theorem Reordered.refl (ballots : List (List α)) : Reordered ballots ballots :=
  ⟨ballots, .refl _, List.forall₂_same.mpr fun ballot _ => .refl ballot⟩

section Reordered
omit [DecidableEq α]

theorem Reordered.length_eq (h : Reordered ballots ballots') :
    ballots.length = ballots'.length := by
  obtain ⟨l, hperm, hentries⟩ := h
  exact hperm.length_eq.trans hentries.length_eq

/-- What does not look at the order of a vote's entries holds of as many votes. -/
theorem Reordered.countP_eq {p : List α → Bool} (hp : ∀ l l' : List α, l.Perm l' → p l = p l')
    (h : Reordered ballots ballots') : ballots.countP p = ballots'.countP p := by
  obtain ⟨l, hperm, hentries⟩ := h
  rw [hperm.countP_eq]
  clear hperm
  induction hentries with
  | nil => rfl
  | cons hab _ ih => rw [List.countP_cons, List.countP_cons, ih, hp _ _ hab]

theorem Reordered.mem_flatten_iff (h : Reordered ballots ballots') :
    a ∈ ballots.flatten ↔ a ∈ ballots'.flatten := by
  obtain ⟨l, hperm, hentries⟩ := h
  rw [hperm.flatten.mem_iff]
  clear hperm
  induction hentries with
  | nil => rfl
  | cons hab _ ih => rw [List.flatten_cons, List.flatten_cons, List.mem_append, List.mem_append, ih,
      hab.mem_iff]

end Reordered

theorem Reordered.listedBy_eq (h : Reordered ballots ballots') (a : α) :
    listedBy ballots a = listedBy ballots' a :=
  h.countP_eq fun _ _ hperm => decide_eq_decide.mpr hperm.mem_iff

omit [DecidableEq α] in
/-- One vote whose first entry is another one comes between two halves of some votes, before the
rest of them. -/
theorem reordered_between {v v' : List α} {T R : List (List α)} (h : ballots.Perm (v :: (T ++ R)))
    (hv : v.Perm v') (k : ℕ) : Reordered ballots (T.take k ++ v' :: (T.drop k ++ R)) := by
  refine ⟨T.take k ++ v :: (T.drop k ++ R), h.trans ?_, ?_⟩
  · have hsplit : T ++ R = T.take k ++ (T.drop k ++ R) := by
      rw [← List.append_assoc, List.take_append_drop]
    rw [hsplit]
    exact List.perm_middle.symm
  · have hsame : ∀ l : List (List α), List.Forall₂ List.Perm l l :=
      fun l => List.forall₂_same.mpr fun ballot _ => .refl ballot
    exact List.rel_append (hsame _) (.cons hv (hsame _))

omit [DecidableEq α] in
theorem filterMap_spelling {p : α → Bool} {t : α} (h : ∀ ballot ∈ ballots, ballot.find? p = some t) :
    ballots.filterMap (List.find? p) = List.replicate ballots.length t := by
  rw [List.filterMap_congr h]
  simp

/-- Where a class has two spellings, some order of the votes breaks up all runs that are longer
than two thirds of them. -/
theorem exists_reordered_without_run {p : α → Bool} {a' : α}
    (hleast : least = ballots.length * 2 / 3) (htwo : 2 ≤ ballots.length)
    (ha : a ∈ ballots.flatten) (ha' : a' ∈ ballots.flatten) (hp : p a) (hp' : p a')
    (hne : a ≠ a') : ∃ ballots', Reordered ballots ballots' ∧
      ∀ b, ¬ List.replicate (least + 1) b <:+: ballots'.filterMap (List.find? p) := by
  by_cases hpopular : ∃ t, least < (ballots.filterMap (List.find? p)).count t
  case neg =>
    refine ⟨ballots, .refl ballots, fun b h => hpopular ⟨b, ?_⟩⟩
    exact le_count_of_replicate_infix h
  case pos =>
    obtain ⟨t, ht⟩ := hpopular
    obtain ⟨u, v, hut, hu, huv, hv⟩ : ∃ u v, u ≠ t ∧ p u ∧ u ∈ v ∧ v ∈ ballots := by
      by_cases hat : a = t
      · obtain ⟨v, hv, hav⟩ := List.mem_flatten.mp ha'
        exact ⟨a', v, fun h => hne (hat.trans h.symm), hp', hav, hv⟩
      · obtain ⟨v, hv, hav⟩ := List.mem_flatten.mp ha
        exact ⟨a, v, hat, hp, hav, hv⟩
    -- the vote that gets another spelling, the others for the popular one, and the rest
    let T := (ballots.erase v).filter fun ballot => ballot.find? p = some t
    let R := (ballots.erase v).filter fun ballot => ¬ ballot.find? p = some t
    have hTt : ∀ ballot ∈ T, ballot.find? p = some t := fun ballot h => by
      simpa using (List.mem_filter.mp h).2
    have hperm : ballots.Perm (v :: (T ++ R)) := by
      refine (List.perm_cons_erase hv).trans (.cons v ?_)
      simpa [T, R] using (List.filter_append_perm _ (ballots.erase v)).symm
    have hlength : ballots.length = 1 + (T.length + R.length) := by
      rw [hperm.length_eq, List.length_cons, List.length_append]
      omega
    have hR : (R.filterMap (List.find? p)).count t = 0 := by
      rw [List.count_eq_zero, List.mem_filterMap]
      rintro ⟨ballot, hballot, hfind⟩
      have hnot := (List.mem_filter.mp hballot).2
      simp [hfind] at hnot
    have hTlen : least ≤ T.length := by
      rw [(hperm.filterMap _).count_eq, List.filterMap_cons, List.filterMap_append] at ht
      have hcount : (T.filterMap (List.find? p) ++ R.filterMap (List.find? p)).count t =
          T.length := by
        rw [List.count_append, filterMap_spelling hTt, List.count_replicate_self, hR, add_zero]
      cases hfind : v.find? p with
      | none =>
        simp only [hfind] at ht
        omega
      | some w =>
        simp only [hfind, List.count_cons] at ht
        split at ht <;> omega
    refine ⟨_, reordered_between hperm (List.perm_cons_erase huv) (T.length / 2), fun b h => ?_⟩
    rw [List.filterMap_append, List.filterMap_cons, List.find?_cons_of_pos hu,
      List.filterMap_append, filterMap_spelling fun x hx => hTt x (List.mem_of_mem_take hx),
      filterMap_spelling fun x hx => hTt x (List.mem_of_mem_drop hx)] at h
    simp only [List.length_take, List.length_drop] at h
    by_cases hb : b = t
    · subst hb
      rcases replicate_infix_split hut h with h | h
      · have hcount := le_count_of_replicate_infix h
        rw [List.count_replicate_self] at hcount
        omega
      · have hcount := le_count_of_replicate_infix h
        rw [List.count_append, List.count_replicate_self, hR] at hcount
        omega
    · have hcount := le_count_of_replicate_infix h
      have hRle := List.length_filterMap_le (List.find? p) R
      have hbR := List.count_le_length (a := b) (l := R.filterMap (List.find? p))
      have hbt : ∀ k, (List.replicate k t).count b = 0 := fun k => by
        simp [List.count_replicate, Ne.symm hb]
      simp only [List.count_append, List.count_cons, hbt] at hcount
      split at hcount <;> omega

end Votes

end TorDaemon.Library.Runs

/-! The runs of a sorted list: an element of each class, and how many there are. -/
namespace TorDaemon.Library.RunLengths
open Library.Tally Library.Runs
variable {α : Type*} {cmp : α → α → Ordering} {l : List α} {a : α}

/-- The runs, where `n` elements of the first one were met already. -/
def runsFrom (cmp : α → α → Ordering) (cur : α) (n : ℕ) : List α → List (α × ℕ)
  | [] => [(cur, n)]
  | a :: l => if cmp cur a = .eq then runsFrom cmp cur (n + 1) l else (cur, n) :: runsFrom cmp a 1 l

/-- Each class of the list has one run, and the runs are in order. -/
structure RunsOf (cmp : α → α → Ordering) (l : List α) (runs : List (α × ℕ)) : Prop where
  mem : ∀ r ∈ runs, r.1 ∈ l ∧ r.2 = l.countP (inClass cmp r.1)
  cover : ∀ a ∈ l, ∃ r ∈ runs, cmp r.1 a = .eq
  sorted : runs.Pairwise fun r r' => cmp r.1 r'.1 = .lt

variable [Std.TransCmp cmp]

theorem runsFrom_spec {cur : α} {n : ℕ} (hsorted : (cur :: l).Pairwise fun a b => (cmp a b).isLE) :
    (∀ r ∈ runsFrom cmp cur n l, r.1 ∈ cur :: l ∧
      r.2 = l.countP (inClass cmp r.1) + if inClass cmp r.1 cur then n else 0) ∧
    (∀ a ∈ cur :: l, ∃ r ∈ runsFrom cmp cur n l, cmp r.1 a = .eq) ∧
    (runsFrom cmp cur n l).Pairwise fun r r' => cmp r.1 r'.1 = .lt := by
  induction l generalizing cur n with
  | nil =>
    have hself : cmp cur cur = .eq := Std.ReflCmp.compare_self
    simp [runsFrom, inClass, hself]
  | cons b l ih =>
    obtain ⟨hcur, htail⟩ := List.pairwise_cons.mp hsorted
    rw [runsFrom]
    by_cases hcb : cmp cur b = .eq
    · rw [if_pos hcb]
      obtain ⟨hmem, hcover, hruns⟩ := @ih cur (n + 1)
        (hsorted.sublist ((List.sublist_cons_self b l).cons_cons cur))
      refine ⟨fun r hr => ?_, fun a ha => ?_, hruns⟩
      · obtain ⟨hin, hcount⟩ := hmem r hr
        constructor
        · rcases List.mem_cons.mp hin with heq | hin
          · exact heq ▸ .head _
          · exact .tail _ (.tail _ hin)
        · rw [hcount, List.countP_cons, inClass_congr_right hcb r.1]
          split <;> omega
      · rcases List.mem_cons.mp ha with rfl | ha
        · exact hcover _ (.head _)
        rcases List.mem_cons.mp ha with rfl | ha
        · obtain ⟨r, hr, heq⟩ := hcover cur (.head _)
          exact ⟨r, hr, Std.TransCmp.eq_trans heq hcb⟩
        · exact hcover a (.tail _ ha)
    · rw [if_neg hcb]
      -- what follows is not in the class of `cur`
      have hlt := lt_of_sorted hsorted hcb
      obtain ⟨hmem, hcover, hruns⟩ := @ih b 1 htail
      refine ⟨?_, ?_, List.pairwise_cons.mpr ⟨fun r hr => hlt r.1 (hmem r hr).1, hruns⟩⟩
      · rw [List.forall_mem_cons]
        constructor
        · refine ⟨.head _, ?_⟩
          rw [countP_inClass_of_lt hlt, if_pos (inClass_self cur), zero_add]
        · intro r hr
          obtain ⟨hin, hcount⟩ := hmem r hr
          refine ⟨.tail _ hin, ?_⟩
          rw [hcount, if_neg (not_inClass_of_lt (hlt r.1 hin)), List.countP_cons, add_zero]
      · rw [List.forall_mem_cons]
        constructor
        · exact ⟨_, .head _, Std.ReflCmp.compare_self⟩
        · intro a ha
          obtain ⟨r, hr, heq⟩ := hcover a ha
          exact ⟨r, .tail _ hr, heq⟩

theorem runsOf_runsFrom (hsorted : (a :: l).Pairwise fun a b => (cmp a b).isLE) :
    RunsOf cmp (a :: l) (runsFrom cmp a 1 l) := by
  obtain ⟨hmem, hcover, hruns⟩ := @runsFrom_spec _ cmp l _ a 1 hsorted
  refine ⟨fun r hr => ⟨(hmem r hr).1, ?_⟩, hcover, hruns⟩
  rw [(hmem r hr).2, List.countP_cons]

theorem mostFrequent_count [DecidableEq α] [Std.LawfulEqCmp cmp]
    (hsorted : l.Pairwise fun a b => (cmp a b).isLE) (hl : l ≠ []) :
    ∃ a ∈ l, (mostFrequent cmp l).1 = some a ∧ ∀ b ∈ l, l.count b ≤ l.count a := by
  obtain ⟨a, ha, -, hmost, hmax⟩ := mostFrequent_spec hsorted hl
  have hcount : ∀ b, l.countP (inClass cmp b) = l.count b := by
    intro b
    apply List.countP_congr
    intro c _
    rw [inClass_iff, Std.LawfulEqCmp.compare_eq_iff_eq, beq_iff_eq]
    exact eq_comm
  refine ⟨a, ha, by rw [hmost], fun b hb => ?_⟩
  rw [← hcount, ← hcount]
  exact hmax b hb

end TorDaemon.Library.RunLengths

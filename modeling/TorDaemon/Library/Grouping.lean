import Mathlib.Data.List.Sort
import Mathlib.Data.List.Perm.Basic

/-! Lists in the order of a key, where the elements of one key stand together, and the low median
of a list. -/
namespace TorDaemon.Library.Grouping
variable {α κ : Type*}

section Keys
variable [Ord κ] [Std.TransOrd κ] [Std.LawfulEqOrd κ] [DecidableEq κ] {key : α → κ} {l : List α}

theorem exists_keys (h : l.Pairwise fun a b => (compare (key a) (key b)).isLE) :
    ∃ ks : List κ, ks.Pairwise (fun k k' => compare k k' = .lt) ∧ (∀ k, k ∈ ks ↔ k ∈ l.map key) ∧
      l = ks.flatMap fun k => l.filter fun a => key a = k := by
  induction l with
  | nil => exact ⟨[], .nil, by simp, rfl⟩
  | cons a l ih =>
    obtain ⟨ha, hl⟩ := List.pairwise_cons.mp h
    obtain ⟨ks, hks, hmem, heq⟩ := ih hl
    have hle : ∀ k ∈ ks, (compare (key a) k).isLE := by
      intro k hk
      obtain ⟨b, hb, rfl⟩ := List.mem_map.mp ((hmem k).mp hk)
      exact ha b hb
    have hne : ∀ ks' : List κ, key a ∉ ks' →
        (ks'.flatMap fun k => (a :: l).filter fun b => key b = k) =
          ks'.flatMap fun k => l.filter fun b => key b = k := by
      intro ks' hnot
      apply List.flatMap_congr
      intro k hk
      have hka : key a ≠ k := fun hka => hnot (hka ▸ hk)
      simp [hka]
    by_cases hin : key a ∈ ks
    · cases ks with
      | nil => cases hin
      | cons k ks =>
        obtain ⟨hk, hks'⟩ := List.pairwise_cons.mp hks
        -- the least key is the first one
        have hfirst : key a = k := by
          rcases List.mem_cons.mp hin with hin | hin
          · exact hin
          · have hgt := Std.OrientedCmp.gt_of_lt (hk (key a) hin)
            have hle' := hle k List.mem_cons_self
            rw [hgt] at hle'
            cases hle'
        subst hfirst
        have hnot : key a ∉ ks := by
          intro hmem'
          have hlt := hk (key a) hmem'
          rw [(Std.ReflCmp.compare_self : compare (key a) (key a) = .eq)] at hlt
          cases hlt
        refine ⟨key a :: ks, hks, ?_, ?_⟩
        · intro k'
          rw [hmem k', List.map_cons, List.mem_cons]
          constructor
          · exact Or.inr
          · rintro (rfl | hk')
            · exact (hmem (key a)).mp List.mem_cons_self
            · exact hk'
        · rw [List.flatMap_cons, hne ks hnot, List.filter_cons_of_pos (by simp), List.cons_append]
          exact congrArg (a :: ·) heq
    · refine ⟨key a :: ks, List.pairwise_cons.mpr ⟨fun k hk => ?_, hks⟩, ?_, ?_⟩
      · cases hcmp : compare (key a) k with
        | lt => rfl
        | eq => exact absurd (Std.LawfulEqOrd.eq_of_compare hcmp ▸ hk) hin
        | gt => simpa [hcmp] using hle k hk
      · intro k
        rw [List.mem_cons, hmem k, List.map_cons, List.mem_cons]
      · have hnone : l.filter (fun b => key b = key a) = [] := by
          rw [List.filter_eq_nil_iff]
          intro b hb hba
          exact hin ((hmem (key a)).mpr (List.mem_map.mpr ⟨b, hb, of_decide_eq_true hba⟩))
        rw [List.flatMap_cons, hne ks hin, List.filter_cons_of_pos (by simp), hnone]
        exact congrArg (a :: ·) heq

end Keys

section Groups
variable [DecidableEq κ] {key : α → κ} {l : List α} {ks : List κ}

/-- The elements of one key after the other are all of the elements. -/
theorem flatMap_filter_perm (hks : ks.Nodup) (h : ∀ a ∈ l, key a ∈ ks) :
    (ks.flatMap fun k => l.filter fun a => key a = k).Perm l := by
  induction ks generalizing l with
  | nil =>
    cases l with
    | nil => exact .nil
    | cons a l => cases h a List.mem_cons_self
  | cons k ks ih =>
    obtain ⟨hk, hks⟩ := List.nodup_cons.mp hks
    have hothers : ∀ a ∈ l.filter (fun a => !decide (key a = k)), key a ∈ ks := by
      intro a ha
      obtain ⟨ha, hne⟩ := List.mem_filter.mp ha
      exact (List.mem_cons.mp (h a ha)).resolve_left (by simpa using hne)
    have hrest : (ks.flatMap fun k' => (l.filter fun a => !decide (key a = k)).filter
        fun a => key a = k') = ks.flatMap fun k' => l.filter fun a => key a = k' := by
      apply List.flatMap_congr
      intro k' hk'
      rw [List.filter_filter]
      apply List.filter_congr
      intro a _
      by_cases ha : key a = k'
      · subst ha
        have hne : key a ≠ k := fun heq => hk (heq ▸ hk')
        simp [hne]
      · simp [ha]
    rw [List.flatMap_cons, ← hrest]
    exact ((ih hks hothers).append_left _).trans (List.filter_append_perm _ l)

end Groups

section Median
variable [LinearOrder α] {l l' : List α} {m m' : α}

/-- The element that has less than half of the list below it, and at least half of the list not
above it. -/
structure IsLowMedian (l : List α) (m : α) : Prop where
  mem : m ∈ l
  below : 2 * l.countP (· < m) < l.length
  upTo : l.length ≤ 2 * l.countP (· ≤ m)

section
variable (h : IsLowMedian l m)
include h

theorem IsLowMedian.perm (hperm : l.Perm l') : IsLowMedian l' m := by
  constructor
  · exact hperm.mem_iff.mp h.mem
  · rw [← hperm.countP_eq, ← hperm.length_eq]
    exact h.below
  · rw [← hperm.countP_eq, ← hperm.length_eq]
    exact h.upTo

theorem IsLowMedian.le (h' : IsLowMedian l m') : m' ≤ m := by
  by_contra hnle
  have hlt := not_le.mp hnle
  have hcount : l.countP (· ≤ m) ≤ l.countP (· < m') :=
    List.countP_mono_left fun a _ ha => decide_eq_true ((of_decide_eq_true ha).trans_lt hlt)
  have hbelow := h'.below
  have hupTo := h.upTo
  omega

theorem IsLowMedian.unique (h' : IsLowMedian l m') : m = m' :=
  le_antisymm (h'.le h) (h.le h')

end

/-- It does not leave the bounds of a majority. -/
theorem IsLowMedian.between {low high : α} (h : IsLowMedian (l ++ l') m)
    (hl : ∀ a ∈ l, low ≤ a ∧ a ≤ high) (hlt : l'.length < l.length) : low ≤ m ∧ m ≤ high := by
  have hbelow := h.below
  have hupTo := h.upTo
  rw [List.countP_append, List.length_append] at hbelow hupTo
  constructor
  · by_contra hm
    have hnone : l.countP (· ≤ m) = 0 := List.countP_eq_zero.mpr fun a ha hle =>
      hm ((hl a ha).1.trans (of_decide_eq_true hle))
    have hrest : l'.countP (· ≤ m) ≤ l'.length := List.countP_le_length
    omega
  · by_contra hm
    have hall : l.countP (· < m) = l.length := List.countP_eq_length.mpr fun a ha =>
      decide_eq_true ((hl a ha).2.trans_lt (not_le.mp hm))
    omega

/-- It is found in the middle of the sorted list. -/
theorem isLowMedian_of_sorted {i : ℕ} (h : l.Pairwise (· ≤ ·)) (hi : i = (l.length - 1) / 2)
    (hm : l[i]? = some m) : IsLowMedian l m := by
  obtain ⟨hlt, rfl⟩ := List.getElem?_eq_some_iff.mp hm
  have hsplit : l.take i ++ l[i] :: l.drop (i + 1) = l := by
    rw [List.getElem_cons_drop, List.take_append_drop]
  have hcount : ∀ p : α → Bool, l.countP p =
      (l.take i).countP p + (if p l[i] then 1 else 0) + (l.drop (i + 1)).countP p := by
    intro p
    conv_lhs => rw [← hsplit]
    rw [List.countP_append, List.countP_cons]
    omega
  have hpairwise := h
  rw [← hsplit, List.pairwise_append, List.pairwise_cons] at hpairwise
  constructor
  · exact List.getElem_mem hlt
  · have hafter : (l.drop (i + 1)).countP (· < l[i]) = 0 := by
      rw [List.countP_eq_zero]
      intro a ha hlt'
      exact absurd (hpairwise.2.1.1 a ha) (not_le.mpr (of_decide_eq_true hlt'))
    have hbefore : (l.take i).countP (· < l[i]) ≤ i :=
      List.countP_le_length.trans (List.length_take_le i l)
    have hall := hcount (· < l[i])
    rw [hafter, if_neg (by simp)] at hall
    omega
  · have hbefore : (l.take i).countP (· ≤ l[i]) = i := by
      rw [List.countP_eq_length.mpr, List.length_take_of_le hlt.le]
      intro a ha
      exact decide_eq_true (hpairwise.2.2 a ha l[i] List.mem_cons_self)
    have hall := hcount (· ≤ l[i])
    rw [hbefore, if_pos (by simp)] at hall
    omega

end Median

end TorDaemon.Library.Grouping

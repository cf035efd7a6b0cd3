import Mathlib.Order.Lattice.Nat

/-! Lengths of longest common subsequences, and the recurrences that compute them. -/
namespace TorDaemon.Library.Subsequences
open List

variable {α : Type*} {a b a₁ a₂ s : List α} {x y : α} {n : ℕ}

/-- The lengths of the common subsequences of two lists. -/
def commonLengths (a b : List α) : Set ℕ := {n | ∃ s, s <+ a ∧ s <+ b ∧ s.length = n}

/-- The length of a longest common subsequence. -/
noncomputable def lcs (a b : List α) : ℕ := sSup (commonLengths a b)

theorem commonLengths_bddAbove (a b : List α) : BddAbove (commonLengths a b) := by
  refine ⟨a.length, ?_⟩
  rintro n ⟨s, hs, -, rfl⟩
  exact hs.length_le

theorem le_lcs (ha : s <+ a) (hb : s <+ b) : s.length ≤ lcs a b :=
  le_csSup (commonLengths_bddAbove a b) ⟨s, ha, hb, rfl⟩

theorem exists_lcs (a b : List α) : ∃ s, s <+ a ∧ s <+ b ∧ s.length = lcs a b := by
  have hne : (commonLengths a b).Nonempty := ⟨0, [], nil_sublist a, nil_sublist b, rfl⟩
  exact Nat.sSup_mem hne (commonLengths_bddAbove a b)

theorem lcs_le (h : ∀ s, s <+ a → s <+ b → s.length ≤ n) : lcs a b ≤ n := by
  obtain ⟨s, ha, hb, hlen⟩ := exists_lcs a b
  rw [← hlen]
  exact h s ha hb

theorem lcs_comm (a b : List α) : lcs a b = lcs b a := by
  have hle : ∀ a b : List α, lcs a b ≤ lcs b a := fun a b => lcs_le fun s ha hb => le_lcs hb ha
  exact (hle a b).antisymm (hle b a)

theorem lcs_mono_left (h : a₁ <+ a) : lcs a₁ b ≤ lcs a b :=
  lcs_le fun _ ha hb => le_lcs (ha.trans h) hb

theorem lcs_nil_left (b : List α) : lcs [] b = 0 :=
  Nat.le_zero.mp (lcs_le fun _ hs _ => by rw [sublist_nil.mp hs]; rfl)

theorem lcs_nil_right (a : List α) : lcs a [] = 0 := by
  rw [lcs_comm, lcs_nil_left]

theorem lcs_reverse (a b : List α) : lcs a.reverse b.reverse = lcs a b := by
  have hle : ∀ a b : List α, lcs a b ≤ lcs a.reverse b.reverse := by
    intro a b
    apply lcs_le
    intro s ha hb
    have hlen : s.length = s.reverse.length := length_reverse.symm
    rw [hlen]
    exact le_lcs ha.reverse hb.reverse
  apply le_antisymm _ (hle a b)
  have h := hle a.reverse b.reverse
  rwa [reverse_reverse, reverse_reverse] at h

theorem lcs_cons_cons (x : α) (a b : List α) : lcs (x :: a) (x :: b) = lcs a b + 1 := by
  apply le_antisymm
  · apply lcs_le
    intro s ha hb
    have htail := le_lcs ha.tail hb.tail
    rw [length_tail] at htail
    simp only [tail_cons] at htail
    omega
  · obtain ⟨s, ha, hb, hlen⟩ := exists_lcs a b
    have h := le_lcs (ha.cons_cons x) (hb.cons_cons x)
    rwa [length_cons, hlen] at h

theorem lcs_cons_cons_of_ne (h : x ≠ y) (a b : List α) :
    lcs (x :: a) (y :: b) = max (lcs (x :: a) b) (lcs a (y :: b)) := by
  apply le_antisymm
  · apply lcs_le
    intro s ha hb
    rw [le_max_iff]
    cases hb with
    | cons _ hb => exact .inl (le_lcs ha hb)
    | cons_cons _ hb =>
      cases ha with
      | cons _ ha => exact .inr (le_lcs ha (hb.cons_cons y))
      | cons_cons _ ha => exact absurd rfl h
  · apply max_le
    · rw [lcs_comm _ b, lcs_comm _ (y :: b)]
      exact lcs_mono_left (sublist_cons_self y b)
    · exact lcs_mono_left (sublist_cons_self x a)

theorem lcs_concat_concat (x : α) (a b : List α) : lcs (a ++ [x]) (b ++ [x]) = lcs a b + 1 := by
  rw [← lcs_reverse, reverse_concat, reverse_concat, lcs_cons_cons, lcs_reverse]

/-- Of two different last entries, one is not matched. -/
theorem lcs_concat_concat_of_ne (h : x ≠ y) (a b : List α) :
    lcs (a ++ [x]) (b ++ [y]) = max (lcs (a ++ [x]) b) (lcs a (b ++ [y])) := by
  rw [← lcs_reverse, reverse_concat, reverse_concat, lcs_cons_cons_of_ne h,
    ← reverse_concat, ← reverse_concat, lcs_reverse, lcs_reverse]

/-- A list that is split in two: its longest common subsequence is split somewhere in the other. -/
theorem lcs_append_left (a₁ a₂ b : List α) :
    ∃ i ≤ b.length, lcs (a₁ ++ a₂) b ≤ lcs a₁ (b.take i) + lcs a₂ (b.drop i) := by
  obtain ⟨s, ha, hb, hlen⟩ := exists_lcs (a₁ ++ a₂) b
  obtain ⟨s₁, s₂, rfl, hs₁, hs₂⟩ := sublist_append_iff.mp ha
  obtain ⟨b₁, b₂, rfl, hb₁, hb₂⟩ := append_sublist_iff.mp hb
  refine ⟨b₁.length, by simp, ?_⟩
  rw [take_left, drop_left, ← hlen, length_append]
  exact Nat.add_le_add (le_lcs hs₁ hb₁) (le_lcs hs₂ hb₂)

theorem add_le_lcs_append (a₁ a₂ b₁ b₂ : List α) :
    lcs a₁ b₁ + lcs a₂ b₂ ≤ lcs (a₁ ++ a₂) (b₁ ++ b₂) := by
  obtain ⟨s₁, ha₁, hb₁, hlen₁⟩ := exists_lcs a₁ b₁
  obtain ⟨s₂, ha₂, hb₂, hlen₂⟩ := exists_lcs a₂ b₂
  rw [← hlen₁, ← hlen₂, ← length_append]
  exact le_lcs (ha₁.append ha₂) (hb₁.append hb₂)

/-- Split where the two parts are longest together, the parts make up the whole. -/
theorem lcs_split (h : ∀ i ≤ b.length,
      lcs a₁ (b.take i) + lcs a₂ (b.drop i) ≤ lcs a₁ (b.take n) + lcs a₂ (b.drop n)) :
    lcs (a₁ ++ a₂) b = lcs a₁ (b.take n) + lcs a₂ (b.drop n) := by
  obtain ⟨i, hi, hle⟩ := lcs_append_left a₁ a₂ b
  have hge := add_le_lcs_append a₁ a₂ (b.take n) (b.drop n)
  rw [take_append_drop] at hge
  exact (hle.trans (h i hi)).antisymm hge

theorem lcs_append_prefix (s a b : List α) : lcs (s ++ a) (s ++ b) = s.length + lcs a b := by
  induction s with
  | nil => rw [nil_append, nil_append, length_nil, Nat.zero_add]
  | cons x s ih =>
    rw [cons_append, cons_append, lcs_cons_cons, ih, length_cons]
    omega

theorem lcs_append_suffix (s a b : List α) : lcs (a ++ s) (b ++ s) = lcs a b + s.length := by
  rw [← lcs_reverse, reverse_append, reverse_append, lcs_append_prefix, lcs_reverse,
    length_reverse, Nat.add_comm]

theorem lcs_singleton_of_mem (h : x ∈ b) : lcs [x] b = 1 := by
  apply le_antisymm
  · exact lcs_le fun _ ha _ => ha.length_le
  · exact le_lcs (Sublist.refl [x]) (singleton_sublist.mpr h)

theorem lcs_singleton_of_notMem (h : x ∉ b) : lcs [x] b = 0 := by
  apply Nat.le_zero.mp
  apply lcs_le
  intro s ha hb
  cases ha with
  | cons _ ha => rw [sublist_nil.mp ha]; rfl
  | cons_cons _ ha => exact absurd (hb.subset mem_cons_self) h

end TorDaemon.Library.Subsequences

import Mathlib.Data.List.Sort

/-! Numbers ranked by a weight, the heaviest first and the lower of two equals first. Taking out
the heaviest again and again gives them in this order. -/
namespace TorDaemon.Library.Ranking
variable {w v : ℕ → ℕ} {n i j : ℕ} {l : List ℕ}

/-- One number is ranked before another. -/
def Ahead (w : ℕ → ℕ) (i j : ℕ) : Prop := w j < w i ∨ w i = w j ∧ i < j

instance : DecidableRel (Ahead w) :=
  fun i j => inferInstanceAs (Decidable (w j < w i ∨ w i = w j ∧ i < j))

/-- The numbers below a bound, in their order. -/
def ranking (w : ℕ → ℕ) (n : ℕ) : List ℕ :=
  (List.range n).mergeSort fun i j => decide (¬Ahead w j i)

/-- The first of the heaviest numbers below a bound. -/
def heaviest (w : ℕ → ℕ) (n : ℕ) : ℕ :=
  (List.range n).foldl (fun i j => if w i < w j then j else i) 0

section Ranking

theorem Ahead.weight_le (h : Ahead w i j) : w j ≤ w i := by
  unfold Ahead at h
  omega

theorem ranking_perm (w : ℕ → ℕ) (n : ℕ) : (ranking w n).Perm (List.range n) :=
  List.mergeSort_perm ..

theorem mem_ranking : i ∈ ranking w n ↔ i < n := by
  rw [(ranking_perm w n).mem_iff, List.mem_range]

theorem ranking_pairwise (w : ℕ → ℕ) (n : ℕ) : (ranking w n).Pairwise (Ahead w) := by
  have htrans : ∀ a b c : ℕ, decide (¬Ahead w b a) = true → decide (¬Ahead w c b) = true →
      decide (¬Ahead w c a) = true := by
    simp only [decide_eq_true_eq]
    unfold Ahead
    omega
  have htotal : ∀ a b : ℕ, (decide (¬Ahead w b a) || decide (¬Ahead w a b)) = true := by
    simp only [Bool.or_eq_true, decide_eq_true_eq]
    unfold Ahead
    omega
  have hnodup : (ranking w n).Nodup := (ranking_perm w n).nodup_iff.mpr List.nodup_range
  refine ((List.pairwise_mergeSort htrans htotal (List.range n)).and hnodup).imp ?_
  rintro a b ⟨hle, hne⟩
  rw [decide_eq_true_eq] at hle
  unfold Ahead at hle ⊢
  omega

/-- The only heaviest number is ranked first. -/
theorem exists_ranking_cons (hi : i < n) (h : ∀ j ≠ i, w j < w i) :
    ∃ rest, ranking w n = i :: rest := by
  have hmem : i ∈ ranking w n := mem_ranking.mpr hi
  have hpairwise := ranking_pairwise w n
  cases hranking : ranking w n with
  | nil =>
    rw [hranking] at hmem
    cases hmem
  | cons j rest =>
    rw [hranking] at hmem hpairwise
    rcases List.mem_cons.mp hmem with rfl | hrest
    · exact ⟨rest, rfl⟩
    · have hle := ((List.pairwise_cons.mp hpairwise).1 i hrest).weight_le
      obtain rfl : j = i := by
        by_contra hne
        exact absurd (h j hne) (not_lt.mpr hle)
      exact ⟨rest, rfl⟩

end Ranking

section Heaviest

theorem heaviest_succ (w : ℕ → ℕ) (n : ℕ) :
    heaviest w (n + 1) = if w (heaviest w n) < w n then n else heaviest w n := by
  rw [heaviest, List.range_succ, List.foldl_append]
  rfl

theorem heaviest_spec (w : ℕ → ℕ) (n : ℕ) :
    (∀ j < n, w j ≤ w (heaviest w n)) ∧ ∀ j < heaviest w n, w j < w (heaviest w n) := by
  induction n with
  | zero => exact ⟨nofun, nofun⟩
  | succ n ih =>
    obtain ⟨hall, hfirst⟩ := ih
    rw [heaviest_succ]
    split
    · rename_i hlt
      refine ⟨fun j hj => ?_, fun j hj => (hall j hj).trans_lt hlt⟩
      rcases Nat.lt_succ_iff_lt_or_eq.mp hj with hj | rfl
      · exact (hall j hj).trans hlt.le
      · exact le_rfl
    · rename_i hle
      refine ⟨fun j hj => ?_, hfirst⟩
      rcases Nat.lt_succ_iff_lt_or_eq.mp hj with hj | rfl
      · exact hall j hj
      · exact not_lt.mp hle

/-- Where the weights are those of a ranked list and zero elsewhere, its first is the heaviest. -/
theorem heaviest_cons (hi : i < n) (hpos : 0 < w i) (hv : ∀ j, v j = if j ∈ i :: l then w j else 0)
    (hl : (i :: l).Pairwise (Ahead w)) : heaviest v n = i := by
  obtain ⟨hall, hfirst⟩ := heaviest_spec v n
  have hvi : v i = w i := by rw [hv, if_pos List.mem_cons_self]
  have hle := hall i hi
  rcases lt_trichotomy (heaviest v n) i with hlt | heq | hgt
  · exfalso
    rw [hvi, hv (heaviest v n)] at hle
    split at hle
    · rename_i hmem
      have hahead := (List.pairwise_cons.mp hl).1 _ ((List.mem_cons.mp hmem).resolve_left hlt.ne)
      unfold Ahead at hahead
      omega
    · omega
  · exact heq
  · exfalso
    have hbelow := hfirst i hgt
    rw [hvi, hv (heaviest v n)] at hbelow
    split at hbelow
    · rename_i hmem
      have hahead := (List.pairwise_cons.mp hl).1 _ ((List.mem_cons.mp hmem).resolve_left hgt.ne')
      exact absurd hahead.weight_le (not_le.mpr hbelow)
    · omega

end Heaviest

end TorDaemon.Library.Ranking

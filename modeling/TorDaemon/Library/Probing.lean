import Mathlib.Data.List.Rotate

/-! Linear probing: a walk along a list, or once around a ring, that picks what is
not picked yet until it has picked enough. -/
namespace TorDaemon.Library.Probing
variable {α κ : Type*} [DecidableEq α] {ring : List α} {start : κ → ℕ}

/-- Pick the first `n` elements of the list that are not picked yet. -/
def probe : ℕ → List α → List α → List α
  | 0, picked, _ => picked
  | _ + 1, picked, [] => picked
  | n + 1, picked, x :: l =>
    if x ∈ picked then probe (n + 1) picked l else probe n (picked ++ [x]) l

theorem probe_picked (n : ℕ) (picked l : List α) : picked ⊆ probe n picked l := by
  fun_induction probe n picked l with
  | case1 | case2 => exact List.Subset.refl _
  | case3 n picked x l hx ih => exact ih
  | case4 n picked x l hx ih => exact List.Subset.trans (List.subset_append_left _ _) ih

/-- A probe that may pick more, with more picked before, ends with more picked: what
the one skips the other has already. -/
theorem probe_mono {m n : ℕ} {picked picked' : List α} (l : List α) (hmn : m ≤ n)
    (hpicked : picked ⊆ picked') : probe m picked l ⊆ probe n picked' l := by
  induction l generalizing m n picked picked' with
  | nil => cases m <;> cases n <;> exact hpicked
  | cons x l ih =>
    cases m with
    | zero => exact List.Subset.trans hpicked (probe_picked n picked' _)
    | succ m =>
      cases n with
      | zero => omega
      | succ n =>
        by_cases hx : x ∈ picked
        · have hx' : x ∈ picked' := hpicked hx
          simp only [probe, if_pos hx, if_pos hx']
          exact ih hmn hpicked
        · by_cases hx' : x ∈ picked'
          · simp only [probe, if_neg hx, if_pos hx']
            apply ih (by omega)
            exact List.append_subset.mpr ⟨hpicked, by simpa using hx'⟩
          · simp only [probe, if_neg hx, if_neg hx']
            have hnew : picked ++ [x] ⊆ picked' ++ [x] := List.append_subset.mpr
              ⟨List.Subset.trans hpicked (List.subset_append_left _ _), List.subset_append_right _ _⟩
            exact ih (by omega) hnew

theorem probe_nodup {n : ℕ} {picked l : List α} (h : picked.Nodup) : (probe n picked l).Nodup := by
  fun_induction probe n picked l with
  | case1 | case2 => exact h
  | case3 n picked x l hx ih => exact ih h
  | case4 n picked x l hx ih =>
    exact ih (List.nodup_append.mpr ⟨h, List.nodup_singleton x, by
      rintro a ha b hb rfl
      exact hx (List.mem_singleton.mp hb ▸ ha)⟩)

/-- Where nothing comes twice, what is picked is known beforehand. -/
theorem probe_eq (n : ℕ) (picked : List α) {l : List α} (h : l.Nodup) :
    probe n picked l = picked ++ (l.filter (· ∉ picked)).take n := by
  fun_induction probe n picked l with
  | case1 => simp
  | case2 => simp
  | case3 n picked x l hx ih => rw [ih (List.nodup_cons.mp h).2, List.filter_cons_of_neg (by simpa)]
  | case4 n picked x l hx ih =>
    obtain ⟨hnot, hl⟩ := List.nodup_cons.mp h
    have hsame : l.filter (· ∉ picked ++ [x]) = l.filter (· ∉ picked) := by
      apply List.filter_congr
      intro a ha
      have hne : a ≠ x := fun heq => hnot (heq ▸ ha)
      simp [hne]
    rw [ih hl, hsame, List.filter_cons_of_pos (by simpa), List.take_succ_cons, List.append_assoc,
      List.singleton_append]

/-- Several probes around one ring, each from its own place, with one list of what
they picked. -/
def probeAll (ring : List α) (n : ℕ) (start : κ → ℕ) (keys : List κ) : List α :=
  keys.foldl (fun picked k => probe n picked (ring.rotate (start k))) []

section
variable (keys : List κ)

theorem probeAll_concat {n : ℕ} (k : κ) : probeAll ring n start (keys ++ [k]) =
      probe n (probeAll ring n start keys) (ring.rotate (start k)) := by
  simp [probeAll]

theorem probeAll_nodup {n : ℕ} : (probeAll ring n start keys).Nodup := by
  induction keys using List.reverseRecOn with
  | nil => exact List.nodup_nil
  | append_singleton keys k ih =>
    rw [probeAll_concat]
    exact probe_nodup ih

theorem probeAll_mono {m n : ℕ} (hmn : m ≤ n) :
    probeAll ring m start keys ⊆ probeAll ring n start keys := by
  induction keys using List.reverseRecOn with
  | nil => exact List.Subset.refl _
  | append_singleton keys k ih =>
    rw [probeAll_concat, probeAll_concat]
    exact probe_mono _ hmn ih

end

end TorDaemon.Library.Probing

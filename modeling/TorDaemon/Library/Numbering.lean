import Mathlib.Data.Multiset.UnionInter

/-! Items numbered from a start, and a multiset that accounts for some of them. -/
namespace TorDaemon.Library.Numbering
variable {α : Type*} {l l' : List α} {k : ℕ} {s : Multiset (α × ℕ)}

/-- A list whose numbered items are all items of another one is a prefix of it. -/
theorem prefix_of_zipIdx_subset (h : ∀ p ∈ l.zipIdx k, p ∈ l'.zipIdx k) : l <+: l' := by
  rw [List.prefix_iff_getElem?]
  intro i hi
  have hmem : (l[i], k + i) ∈ l.zipIdx k :=
    List.mk_add_mem_zipIdx_iff_getElem?.mpr (List.getElem?_eq_getElem hi)
  exact List.mk_add_mem_zipIdx_iff_getElem?.mp (h _ hmem)

/-- The numbers of the accounted items are distinct and in range. -/
theorem numbers_of_le_zipIdx (h : s ≤ (l.zipIdx k : Multiset (α × ℕ))) :
    (s.map Prod.snd).Nodup ∧ ∀ i ∈ s.map Prod.snd, k ≤ i ∧ i < k + l.length := by
  have hle := Multiset.map_le_map (f := Prod.snd) h
  rw [Multiset.map_coe, List.zipIdx_map_snd] at hle
  refine ⟨Multiset.nodup_of_le hle List.nodup_range', fun i hi => ?_⟩
  have hmem := Multiset.mem_of_le hle hi
  rw [Multiset.mem_coe, List.mem_range'_1] at hmem
  exact hmem

end TorDaemon.Library.Numbering

/-! Items numbered from one, of which a first-in first-out queue holds those after
the `a`-th up to the `b`-th. -/
namespace TorDaemon.Library.Segment
variable {α : Type*} {f : ℕ → α} {a b : ℕ}

/-- The items after the `a`-th, up to the `b`-th. -/
def segmentOf (f : ℕ → α) (a b : ℕ) : List α := (List.range' (a + 1) (b - a)).map f

theorem segmentOf_length (f : ℕ → α) (a b : ℕ) : (segmentOf f a b).length = b - a := by
  simp [segmentOf]

theorem segmentOf_push (h : a ≤ b) : segmentOf f a (b + 1) = segmentOf f a b ++ [f (b + 1)] := by
  have hsub : b + 1 - a = b - a + 1 := by omega
  have hlast : a + 1 + (b - a) = b + 1 := by omega
  simp [segmentOf, hsub, List.range'_concat, hlast]

/-- The oldest item comes out at the front. -/
theorem segmentOf_pop (h : a < b) : segmentOf f a b = f (a + 1) :: segmentOf f (a + 1) b := by
  have hsub : b - a = b - (a + 1) + 1 := by omega
  simp [segmentOf, hsub, List.range'_succ]

theorem segmentOf_eq_cons {x : α} {l : List α} (h : segmentOf f a b = x :: l) :
    a < b ∧ x = f (a + 1) ∧ l = segmentOf f (a + 1) b := by
  have hlen := congrArg List.length h
  rw [segmentOf_length, List.length_cons] at hlen
  have hlt : a < b := by omega
  rw [segmentOf_pop hlt, List.cons.injEq] at h
  exact ⟨hlt, h.1.symm, h.2.symm⟩

/-- One item for every `k` of a count: the count's next step adds one only at a
multiple of `k`. -/
theorem segmentOf_div_succ {k n : ℕ} (h : a ≤ n / k) : segmentOf f a ((n + 1) / k) =
    if k ∣ n + 1 then segmentOf f a (n / k) ++ [f ((n + 1) / k)] else segmentOf f a (n / k) := by
  rw [Nat.succ_div]
  split_ifs
  · exact segmentOf_push h
  · rfl

end TorDaemon.Library.Segment

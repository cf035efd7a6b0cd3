import Mathlib.Algebra.GroupWithZero.Nat
import Mathlib.Data.List.AList
import Mathlib.Data.List.Infix

/-! A table of rows, each made when it is first written to, and the result of going over a
hash map, in an order that nothing is known of. -/
namespace TorDaemon.Library.Tables
variable {κ α β : Type} [DecidableEq κ] {n : ℕ}

/-- An order in which an iteration over a map meets its entries. -/
structure Iteration (α : Type) where
  order : List α → List α
  perm : ∀ l, (order l).Perm l

abbrev Rows (κ α : Type) (n : ℕ) := AList fun _ : κ => Vector (Option α) n

/-- A row that was not made yet is empty. -/
def Rows.row (t : Rows κ α n) (k : κ) : Vector (Option α) n :=
  (t.lookup k).getD (Vector.replicate n none)

/-- A cell is written to once. -/
def Rows.put (t : Rows κ α n) (k : κ) (i : Fin n) (a : α) : Option (Rows κ α n) :=
  if (t.row k)[i].isSome then none else some (t.insert k ((t.row k).set i (some a)))

/-- The table holds these cells, in no more rows than they need. -/
structure Holds (t : Rows κ α n) (cell : κ → ℕ → Option α) : Prop where
  row : ∀ k (i : ℕ) (hi : i < n), (t.row k)[i] = cell k i
  mem : ∀ k, k ∈ t ↔ ∃ i < n, (cell k i).isSome

section Put
variable {t t' : Rows κ α n} {cell cell' : κ → ℕ → Option α} {k : κ} {i : Fin n} {a : α}

theorem Holds.empty (h : ∀ k i, cell k i = none) : Holds (∅ : Rows κ α n) cell := by
  constructor
  · intro k i hi
    simp [Rows.row, h]
  · simp [h]

theorem Holds.congr (ht : Holds t cell) (h : ∀ k, ∀ i < n, cell' k i = cell k i) :
    Holds t cell' := by
  constructor
  · intro k i hi
    rw [ht.row k i hi, h k i hi]
  · intro k
    rw [ht.mem]
    exact exists_congr fun i => and_congr_right fun hi => by rw [h k i hi]

theorem row_insert (t : Rows κ α n) (k k' : κ) (r : Vector (Option α) n) :
    Rows.row (t.insert k r) k' = if k' = k then r else t.row k' := by
  by_cases hk : k' = k
  · subst hk
    simp [Rows.row]
  · simp [Rows.row, AList.lookup_insert_ne hk, hk]

/-- Writing to a free cell changes that cell only. -/
theorem Holds.put (ht : Holds t cell) (hfree : cell k i = none) (hat : cell' k i = some a)
    (hother : ∀ k' i', (k' ≠ k ∨ i' ≠ i.val) → cell' k' i' = cell k' i') :
    ∃ t', t.put k i a = some t' ∧ Holds t' cell' := by
  have hrow : (t.row k)[i] = none := (ht.row k i i.isLt).trans hfree
  refine ⟨t.insert k ((t.row k).set i (some a)), by simp [Rows.put, hrow], ?_, ?_⟩
  · intro k' i' hi'
    rw [row_insert]
    by_cases hk : k' = k
    · subst hk
      by_cases hi : i' = i
      · subst hi
        simp [hat]
      · rw [if_pos rfl, Vector.getElem_set_ne _ _ (Ne.symm hi), ht.row _ _ hi',
          hother _ _ (.inr hi)]
    · rw [if_neg hk, ht.row _ _ hi', hother _ _ (.inl hk)]
  · intro k'
    rw [AList.mem_insert, ht.mem]
    constructor
    · rintro (rfl | ⟨i', hi', hsome⟩)
      · exact ⟨i, i.isLt, by simp [hat]⟩
      · by_cases hsame : k' = k ∧ i' = i
        · simp [hsame.1, hsame.2, hfree] at hsome
        · exact ⟨i', hi', by rwa [hother _ _ (by tauto)]⟩
    · rintro ⟨i', hi', hsome⟩
      by_cases hk : k' = k
      · exact .inl hk
      · exact .inr ⟨i', hi', by rwa [← hother _ _ (.inl hk)]⟩

theorem lookup_of_mem (h : k ∈ t) : t.lookup k = some (t.row k) := by
  obtain ⟨r, hr⟩ := Option.isSome_iff_exists.mp (AList.lookup_isSome.mpr h)
  simp [Rows.row, hr]

theorem row_of_mem_entries {ent : Σ _ : κ, Vector (Option α) n} (h : ent ∈ t.entries) :
    t.row ent.1 = ent.2 := by
  rw [Rows.row, AList.mem_lookup_iff.mpr h]
  rfl

end Put

/-- The keys that a map was given, in that order, with what it was given for them. -/
structure Collected (map : AList fun _ : κ => β) (keys : List κ) (results : List (κ × β)) :
    Prop where
  map_fst : results.map Prod.fst = keys
  distinct : keys.Nodup
  lookup : ∀ res ∈ results, map.lookup res.1 = some res.2
  mem : ∀ k, k ∈ map ↔ k ∈ keys

section Collected
variable {map : AList fun _ : κ => β} {keys : List κ} {results : List (κ × β)} {k : κ} {b : β}

theorem Collected.empty : Collected (∅ : AList fun _ : κ => β) [] [] :=
  ⟨rfl, .nil, by simp, by simp⟩

theorem Collected.insert (h : Collected map keys results) (hk : k ∉ keys) (b : β) :
    Collected (map.insert k b) (keys ++ [k]) (results ++ [(k, b)]) := by
  constructor
  · simp [h.map_fst]
  · exact h.distinct.append (List.nodup_singleton k) (by simpa using hk)
  · intro res hmem
    rcases List.mem_append.mp hmem with hres | hres
    · have hne : res.1 ≠ k := by
        rintro rfl
        exact hk (h.map_fst ▸ List.mem_map_of_mem hres)
      rw [AList.lookup_insert_ne hne, h.lookup res hres]
    · obtain rfl := List.mem_singleton.mp hres
      exact AList.lookup_insert _
  · intro k'
    rw [AList.mem_insert, h.mem, List.mem_append, List.mem_singleton, or_comm]

theorem Collected.result (h : Collected map keys results) (hk : k ∈ keys) :
    ∃ b, (k, b) ∈ results ∧ map.lookup k = some b := by
  rw [← h.map_fst] at hk
  obtain ⟨⟨k, b⟩, hres, rfl⟩ := List.mem_map.mp hk
  exact ⟨b, hres, h.lookup (k, b) hres⟩

end Collected

end TorDaemon.Library.Tables

/-! The weight of a map, and loops over a map that remove entries as they go. -/
namespace TorDaemon.Library.Sweep
open Tables
variable {κ α ρ : Type}

/-- The sum of the sizes of the entries. -/
def weight (size : α → ℕ) (m : AList fun _ : κ => α) : ℕ := (m.entries.map fun e => size e.2).sum

variable [DecidableEq κ]

theorem lookup_insert_ite (m : AList fun _ : κ => α) (k : κ) (a : α) (k' : κ) :
    (m.insert k a).lookup k' = if k' = k then some a else m.lookup k' := by
  by_cases hk : k' = k
  · rw [if_pos hk, hk, AList.lookup_insert]
  · rw [if_neg hk, AList.lookup_insert_ne hk]

section Weight
variable (size : α → ℕ) {m : AList fun _ : κ => α} {k : κ} {a b : α}

theorem weight_erase (h : m.lookup k = some a) :
    weight size (m.erase k) + size a = weight size m := by
  have hmem : ⟨k, a⟩ ∈ m.entries := AList.mem_lookup_iff.mp h
  obtain ⟨b, l₁, l₂, hnot, hm, hk⟩ := List.exists_of_kerase (List.mem_keys_of_mem hmem)
  have hb : b = a := by
    rw [hm] at hmem
    have hnodup := m.nodupKeys
    rw [hm] at hnodup
    exact congrArg (fun e : Σ _ : κ, α => e.2)
      (hnodup.eq_of_fst_eq (s := ⟨k, b⟩) (by simp) hmem rfl)
  subst hb
  have herase : (m.erase k).entries = l₁ ++ l₂ := hk
  simp only [weight, herase, hm, List.map_append, List.map_cons, List.sum_append, List.sum_cons]
  omega

theorem weight_erase_of_none (h : m.lookup k = none) : weight size (m.erase k) = weight size m := by
  have hnot : k ∉ m.entries.keys := AList.lookup_eq_none.mp h
  have herase : (m.erase k).entries = m.entries := List.kerase_of_notMem_keys hnot
  rw [weight, herase, weight]

section
variable (m : AList fun _ : κ => α)

theorem weight_erase_le (k : κ) : weight size (m.erase k) ≤ weight size m := by
  cases h : m.lookup k with
  | none => exact (weight_erase_of_none size h).le
  | some a => exact Nat.le_of_add_right_le (weight_erase size h).le

theorem weight_erase_erase (k : κ) : weight size ((m.erase k).erase k) = weight size (m.erase k) :=
  weight_erase_of_none size (AList.lookup_erase k m)

theorem weight_insert (k : κ) (a : α) :
    weight size (m.insert k a) = size a + weight size (m.erase k) := rfl

end

theorem weight_update (h : m.lookup k = some a) (hsize : size b = size a) :
    weight size (m.insert k b) = weight size m := by
  rw [weight_insert, ← weight_erase size h, hsize, Nat.add_comm]

/-- An entry is given a value of another size. -/
theorem weight_replace (h : m.lookup k = some a) :
    weight size (m.insert k b) + size a = weight size m + size b := by
  rw [weight_insert, ← weight_erase size h]
  omega

theorem weight_pos : 0 < weight size m ↔ ∃ k a, m.lookup k = some a ∧ 0 < size a := by
  rw [weight, List.sum_pos_iff_exists_pos_nat]
  constructor
  · rintro ⟨n, hn, hpos⟩
    obtain ⟨⟨k, a⟩, hmem, rfl⟩ := List.mem_map.mp hn
    exact ⟨k, a, AList.mem_lookup_iff.mpr hmem, hpos⟩
  · rintro ⟨k, a, hlook, hpos⟩
    exact ⟨size a, List.mem_map_of_mem (AList.mem_lookup_iff.mp hlook), hpos⟩

theorem weight_add_missing {m' : AList fun _ : κ => α}
    (hsub : ∀ k a, m'.lookup k = some a → m.lookup k = some a) : weight size m' +
        ((m.entries.filter fun e => (m'.lookup e.1).isNone).map fun e => size e.2).sum =
      weight size m := by
  have hkept : m'.entries.Perm (m.entries.filter fun e => !(m'.lookup e.1).isNone) := by
    apply List.mem_ext m'.nodupKeys.nodup (m.nodupKeys.nodup.filter _)
    rintro ⟨k, a⟩
    rw [List.mem_filter, ← AList.mem_lookup_iff, ← AList.mem_lookup_iff]
    constructor
    · intro h
      exact ⟨hsub k a h, by simp [Option.mem_def.mp h]⟩
    · rintro ⟨h, hsome⟩
      obtain ⟨b, hb⟩ : ∃ b, m'.lookup k = some b := by
        cases hlook : m'.lookup k with
        | none => simp [hlook] at hsome
        | some b => exact ⟨b, rfl⟩
      rw [Option.mem_def, hsub k b hb] at h
      rwa [Option.mem_def, ← h]
  have hall := List.filter_append_perm (fun e => (m'.lookup e.1).isNone) m.entries
  rw [weight, weight, (hkept.map _).sum_nat, ← (hall.map fun e => size e.2).sum_nat,
    List.map_append, List.sum_append, Nat.add_comm]

end Weight

section Loop
variable (visit : ρ → α → ρ × Bool)

/-- Each entry in turn is given to `visit`, which says whether it is removed. -/
def sweep : List (Σ _ : κ, α) → ρ → AList (fun _ : κ => α) → ρ × AList fun _ : κ => α
  | [], r, m => (r, m)
  | e :: es, r, m =>
    sweep es (visit r e.2).1 (if (visit r e.2).2 then m.erase e.1 else m)

/-- The loop over the whole map. -/
def sweepAll (it : Iteration (Σ _ : κ, α)) (r : ρ) (m : AList fun _ : κ => α) :
    ρ × AList fun _ : κ => α :=
  sweep visit (it.order m.entries) r m

variable {I : List (Σ _ : κ, α) → ρ → AList (fun _ : κ => α) → Prop}
  {es : List (Σ _ : κ, α)} {r : ρ} {m : AList fun _ : κ => α}

/-- The invariant may speak of the entries that are still to come. -/
theorem sweep_rule
    (hstep : ∀ e es r m, m.lookup e.1 = some e.2 → I (e :: es) r m →
      I es (visit r e.2).1 (if (visit r e.2).2 then m.erase e.1 else m))
    (hnodup : es.NodupKeys) (hmem : ∀ e ∈ es, m.lookup e.1 = some e.2) (h : I es r m) :
    I [] (sweep visit es r m).1 (sweep visit es r m).2 := by
  induction es generalizing r m with
  | nil => exact h
  | cons e es ih =>
    obtain ⟨hnot, hnodup⟩ := List.nodupKeys_cons.mp hnodup
    apply ih hnodup _ (hstep e es r m (hmem e (List.mem_cons_self ..)) h)
    intro e' he'
    have hlook := hmem e' (List.mem_cons_of_mem _ he')
    split
    · rw [AList.lookup_erase_ne, hlook]
      intro heq
      exact hnot (heq ▸ List.mem_keys_of_mem he')
    · exact hlook

theorem sweepAll_rule (it : Iteration (Σ _ : κ, α))
    (hstep : ∀ e es r m, m.lookup e.1 = some e.2 → I (e :: es) r m →
      I es (visit r e.2).1 (if (visit r e.2).2 then m.erase e.1 else m))
    (h : I (it.order m.entries) r m) :
    I [] (sweepAll visit it r m).1 (sweepAll visit it r m).2 := by
  apply sweep_rule visit hstep _ _ h
  · exact (List.perm_nodupKeys (it.perm m.entries)).mpr m.nodupKeys
  · intro e he
    exact AList.mem_lookup_iff.mpr ((it.perm m.entries).mem_iff.mp he)

/-- What is left was there before. -/
theorem lookup_of_sweepAll (it : Iteration (Σ _ : κ, α)) {k : κ} {a : α}
    (h : (sweepAll visit it r m).2.lookup k = some a) : m.lookup k = some a := by
  suffices hsub : ∀ k a, (sweepAll visit it r m).2.lookup k = some a → m.lookup k = some a from
    hsub k a h
  apply sweepAll_rule visit (I := fun _ _ m' => ∀ k a, m'.lookup k = some a → m.lookup k = some a) it
  · intro e es r m' he hsub k a hlook
    split at hlook
    · by_cases heq : k = e.1
      · subst heq
        simp at hlook
      · rw [AList.lookup_erase_ne heq] at hlook
        exact hsub k a hlook
    · exact hsub k a hlook
  · exact fun _ _ hlook => hlook

/-- Where each entry decides for itself. -/
theorem lookup_sweepAll {drop : α → Bool} (hdrop : ∀ r a, (visit r a).2 = drop a)
    (it : Iteration (Σ _ : κ, α)) (r : ρ) (m : AList fun _ : κ => α) (k : κ) :
    (sweepAll visit it r m).2.lookup k = (m.lookup k).filter fun a => !drop a := by
  have hleft := sweepAll_rule visit
    (I := fun es _ m' => es.NodupKeys ∧ ∀ k a, m'.lookup k = some a ↔
      m.lookup k = some a ∧ (⟨k, a⟩ ∈ es ∨ drop a = false)) it (r := r) (m := m) ?_ ?_
  · ext a
    rw [hleft.2 k a]
    simp
  · rintro ⟨k', b⟩ es r m' hlook ⟨hnodup, hI⟩
    obtain ⟨hnot, hnodup⟩ := List.nodupKeys_cons.mp hnodup
    refine ⟨hnodup, fun k a => ?_⟩
    rw [hdrop]
    by_cases hk : k = k'
    · subst hk
      have hgone : (⟨k, a⟩ : Σ _ : κ, α) ∉ es := by
        intro hmem
        have hkey := List.mem_keys_of_mem hmem
        exact hnot hkey
      have hb := ((hI k b).mp hlook).1
      by_cases hdropped : drop b = true
      · rw [if_pos hdropped, AList.lookup_erase, hb]
        constructor
        · nofun
        · rintro ⟨heq, hmem | hkept⟩
          · exact absurd hmem hgone
          · rw [← Option.some.inj heq, hdropped] at hkept
            cases hkept
      · rw [if_neg hdropped, hlook, hb]
        constructor
        · intro heq
          exact ⟨heq, .inr (Option.some.inj heq ▸ eq_false_of_ne_true hdropped)⟩
        · exact fun h => h.1
    · have hsame : (if drop b = true then m'.erase k' else m').lookup k = m'.lookup k := by
        split
        · exact AList.lookup_erase_ne hk
        · rfl
      rw [hsame, hI k a, List.mem_cons, Sigma.mk.injEq]
      simp [hk]
  · exact ⟨(List.perm_nodupKeys (it.perm m.entries)).mpr m.nodupKeys, fun k a => iff_self_and.mpr
      fun hlook => .inl ((it.perm _).mem_iff.mpr (AList.mem_lookup_iff.mp hlook))⟩

theorem weight_sweepAll_le (size : α → ℕ) (it : Iteration (Σ _ : κ, α)) (k : κ) :
    weight size ((sweepAll visit it r m).2.erase k) ≤ weight size (m.erase k) := by
  apply sweepAll_rule visit
    (I := fun _ _ m' => weight size (m'.erase k) ≤ weight size (m.erase k)) it _ (Nat.le_refl _)
  intro e es r m' he hle
  split
  · rw [AList.erase_erase]
    exact (weight_erase_le size _ e.1).trans hle
  · exact hle

end Loop

end TorDaemon.Library.Sweep

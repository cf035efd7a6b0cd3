import Mathlib.Data.List.Count
import Mathlib.Data.List.Nodup

/-! Values that are held once and shared. A pool counts the references to each of them, by numbers
below a modulus, and drops a value with the last reference. -/
namespace TorDaemon.Library.Interning
variable {κ : Type*}

structure Entry (κ : Type*) where
  id : ℕ
  key : κ
  refs : ℕ

structure Pool (κ : Type*) where
  entries : List (Entry κ)
  next : ℕ

def Pool.empty : Pool κ := ⟨[], 0⟩

def Pool.find [DecidableEq κ] (pool : Pool κ) (key : κ) : Option (Entry κ) :=
  pool.entries.find? fun e => e.key = key

/-- Another number of references for an entry. -/
def Pool.setRefs (pool : Pool κ) (id refs : ℕ) : Pool κ :=
  { pool with entries := pool.entries.map fun e => if e.id = id then { e with refs := refs } else e }

/-- A reference to a value, which is put into the pool if it is not there. -/
def intern [DecidableEq κ] (modulus : ℕ) (pool : Pool κ) (key : κ) : Pool κ × ℕ :=
  match pool.find key with
  | some e => (pool.setRefs e.id ((e.refs + 1) % modulus), e.id)
  | none => (⟨⟨pool.next, key, 1⟩ :: pool.entries, pool.next + 1⟩, pool.next)

/-- A reference is dropped. -/
def release (modulus : ℕ) (pool : Pool κ) (id : ℕ) : Pool κ :=
  match pool.entries.find? fun e => e.id = id with
  | none => pool
  | some e =>
    let refs := (e.refs + (modulus - 1)) % modulus
    if refs = 0 then { pool with entries := pool.entries.filter fun e => e.id ≠ id }
    else pool.setRefs id refs

/-- The references to an object. -/
def refCount (held : List (ℕ × κ)) (id : ℕ) : ℕ := held.countP fun r => r.1 = id

/-- The pools that come of calls, with the references that are held and what each was asked for,
while no object has as many as the modulus. -/
inductive Run [DecidableEq κ] (modulus : ℕ) : Pool κ → List (ℕ × κ) → Prop
  | empty : Run modulus .empty []
  | intern {pool : Pool κ} {held : List (ℕ × κ)} (h : Run modulus pool held) (key : κ)
      (hroom : refCount held (intern modulus pool key).2 + 1 < modulus) :
      Run modulus (intern modulus pool key).1 (((intern modulus pool key).2, key) :: held)
  | release {pool : Pool κ} {before after : List (ℕ × κ)} {r : ℕ × κ}
      (h : Run modulus pool (before ++ r :: after)) :
      Run modulus (release modulus pool r.1) (before ++ after)

/-- One object for a value, and one value for an object, with the references counted. -/
structure Shared (modulus : ℕ) (pool : Pool κ) (held : List (ℕ × κ)) : Prop where
  keys : (pool.entries.map Entry.key).Nodup
  ids : (pool.entries.map Entry.id).Nodup
  fresh : ∀ e ∈ pool.entries, e.id < pool.next
  counts : ∀ e ∈ pool.entries, e.refs = refCount held e.id
  used : ∀ e ∈ pool.entries, 0 < e.refs
  room : ∀ e ∈ pool.entries, e.refs < modulus
  found : ∀ r ∈ held, ∃ e ∈ pool.entries, e.id = r.1 ∧ e.key = r.2

variable {modulus : ℕ} {pool : Pool κ} {held before after : List (ℕ × κ)} {r r' : ℕ × κ} {key : κ}
  {e e' : Entry κ}

section
variable (h : Shared modulus pool held)
include h

section
variable (he : e ∈ pool.entries)
include he

theorem Shared.eq_of_id
    (he' : e' ∈ pool.entries) (hid : e.id = e'.id) : e = e' :=
  List.inj_on_of_nodup_map h.ids he he' hid

theorem Shared.eq_of_key
    (he' : e' ∈ pool.entries) (hkey : e.key = e'.key) : e = e' :=
  List.inj_on_of_nodup_map h.keys he he' hkey

theorem Shared.find_eq [DecidableEq κ] : pool.find e.key = some e := by
  cases hfind : pool.find e.key with
  | none => exact absurd (List.find?_eq_none.mp hfind e he) (by simp)
  | some e' =>
    have hkey : e'.key = e.key := by simpa using List.find?_some hfind
    rw [h.eq_of_key (List.mem_of_find?_eq_some hfind) he hkey]

theorem Shared.find_id : (pool.entries.find? fun e' => e'.id = e.id) = some e := by
  cases hfind : pool.entries.find? fun e' => e'.id = e.id with
  | none => exact absurd (List.find?_eq_none.mp hfind e he) (by simp)
  | some e' =>
    have hid : e'.id = e.id := by simpa using List.find?_some hfind
    rw [h.eq_of_id (List.mem_of_find?_eq_some hfind) he hid]

end

/-- Two references are to one object exactly if they were asked for with one value. -/
theorem Shared.same_iff (hr : r ∈ held) (hr' : r' ∈ held) : r.1 = r'.1 ↔ r.2 = r'.2 := by
  obtain ⟨e, he, hid, hkey⟩ := h.found r hr
  obtain ⟨e', he', hid', hkey'⟩ := h.found r' hr'
  rw [← hid, ← hid', ← hkey, ← hkey']
  constructor
  · intro heq
    rw [h.eq_of_id he he' heq]
  · intro heq
    rw [h.eq_of_key he he' heq]

theorem Shared.held_of_mem (he : e ∈ pool.entries) : ∃ r ∈ held, r.1 = e.id ∧ r.2 = e.key := by
  have hpos := h.used e he
  rw [h.counts e he, refCount, List.countP_pos_iff] at hpos
  obtain ⟨r, hr, hid⟩ := hpos
  rw [decide_eq_true_eq] at hid
  obtain ⟨e', he', hid', hkey⟩ := h.found r hr
  obtain rfl := h.eq_of_id he' he (hid'.trans hid)
  exact ⟨r, hr, hid, hkey.symm⟩

end

theorem map_key_setRefs (pool : Pool κ) (id refs : ℕ) :
    (pool.setRefs id refs).entries.map Entry.key = pool.entries.map Entry.key := by
  rw [Pool.setRefs, List.map_map]
  refine List.map_congr_left fun e _ => ?_
  by_cases he : e.id = id <;> simp [he]

theorem map_id_setRefs (pool : Pool κ) (id refs : ℕ) :
    (pool.setRefs id refs).entries.map Entry.id = pool.entries.map Entry.id := by
  rw [Pool.setRefs, List.map_map]
  refine List.map_congr_left fun e _ => ?_
  by_cases he : e.id = id <;> simp [he]

theorem mem_setRefs {id refs : ℕ} : e ∈ (pool.setRefs id refs).entries ↔
    ∃ e' ∈ pool.entries, e = if e'.id = id then { e' with refs := refs } else e' := by
  simp only [Pool.setRefs, List.mem_map, eq_comm]

/-- A change of one object's count, which goes with the references held. -/
theorem Shared.setRefs {held' : List (ℕ × κ)} {refs : ℕ} (h : Shared modulus pool held)
    (he : e ∈ pool.entries) (hrefs : refs = refCount held' e.id) (hpos : 0 < refs)
    (hroom : refs < modulus) (hothers : ∀ id, id ≠ e.id → refCount held' id = refCount held id)
    (hfound : ∀ r ∈ held', r ∈ held ∨ r = (e.id, e.key)) :
    Shared modulus (pool.setRefs e.id refs) held' := by
  have hcase {e' : Entry κ} (he' : e' ∈ (pool.setRefs e.id refs).entries) :
      e' = { e with refs := refs } ∨ e' ∈ pool.entries ∧ e'.id ≠ e.id := by
    obtain ⟨e₀, he₀, rfl⟩ := mem_setRefs.mp he'
    by_cases hid : e₀.id = e.id
    · rw [if_pos hid, h.eq_of_id he₀ he hid]
      exact .inl rfl
    · rw [if_neg hid]
      exact .inr ⟨he₀, hid⟩
  have hkept {e' : Entry κ} (he' : e' ∈ pool.entries) :
      ∃ e'' ∈ (pool.setRefs e.id refs).entries, e''.id = e'.id ∧ e''.key = e'.key := by
    refine ⟨_, mem_setRefs.mpr ⟨e', he', rfl⟩, ?_⟩
    by_cases hid : e'.id = e.id <;> simp [hid]
  refine ⟨?_, ?_, ?_, ?_, ?_, ?_, ?_⟩
  · rw [map_key_setRefs]
    exact h.keys
  · rw [map_id_setRefs]
    exact h.ids
  · intro e' he'
    rcases hcase he' with rfl | ⟨he', -⟩
    · exact h.fresh e he
    · exact h.fresh e' he'
  · intro e' he'
    rcases hcase he' with rfl | ⟨he', hid⟩
    · exact hrefs
    · rw [hothers e'.id hid]
      exact h.counts e' he'
  · intro e' he'
    rcases hcase he' with rfl | ⟨he', -⟩
    · exact hpos
    · exact h.used e' he'
  · intro e' he'
    rcases hcase he' with rfl | ⟨he', -⟩
    · exact hroom
    · exact h.room e' he'
  · intro r hr
    rcases hfound r hr with hr | rfl
    · obtain ⟨e', he', hid, hkey⟩ := h.found r hr
      obtain ⟨e'', he'', hid', hkey'⟩ := hkept he'
      exact ⟨e'', he'', hid'.trans hid, hkey'.trans hkey⟩
    · obtain ⟨e'', he'', hid', hkey'⟩ := hkept he
      exact ⟨e'', he'', hid', hkey'⟩

theorem refCount_cons (r : ℕ × κ) (held : List (ℕ × κ)) (id : ℕ) :
    refCount (r :: held) id = refCount held id + if r.1 = id then 1 else 0 := by
  simp [refCount, List.countP_cons]

theorem refCount_middle (before : List (ℕ × κ)) (r : ℕ × κ) (after : List (ℕ × κ)) (id : ℕ) :
    refCount (before ++ r :: after) id =
      refCount (before ++ after) id + if r.1 = id then 1 else 0 := by
  simp only [refCount, List.countP_append, List.countP_cons, decide_eq_true_eq]
  omega

/-- Nothing holds an object that was not made. -/
theorem Shared.refCount_next (h : Shared modulus pool held) : refCount held pool.next = 0 := by
  rw [refCount, List.countP_eq_zero]
  intro r hr hid
  obtain ⟨e, he, hre, -⟩ := h.found r hr
  have hlt := h.fresh e he
  have hnext : r.1 = pool.next := by simpa using hid
  omega

section Intern
variable [DecidableEq κ]

theorem intern_found (h : pool.find key = some e) :
    intern modulus pool key = (pool.setRefs e.id ((e.refs + 1) % modulus), e.id) := by
  rw [intern, h]

theorem find_some (h : pool.find key = some e) : e ∈ pool.entries ∧ e.key = key :=
  ⟨List.mem_of_find?_eq_some h, by simpa using List.find?_some h⟩

theorem find_none (h : pool.find key = none) : ∀ e ∈ pool.entries, e.key ≠ key := by
  intro e he
  simpa using List.find?_eq_none.mp h e he

/-- A value that is held is not made again. -/
theorem Shared.intern_held (h : Shared modulus pool held) (hr : r ∈ held) :
    (intern modulus pool r.2).2 = r.1 := by
  obtain ⟨e, he, hid, hkey⟩ := h.found r hr
  rw [← hkey, intern_found (h.find_eq he), hid]

theorem Shared.intern (h : Shared modulus pool held) (key : κ)
    (hroom : refCount held (intern modulus pool key).2 + 1 < modulus) :
    Shared modulus (intern modulus pool key).1 (((intern modulus pool key).2, key) :: held) := by
  cases hfind : pool.find key with
  | some e =>
    obtain ⟨he, rfl⟩ := find_some hfind
    rw [intern_found hfind] at hroom ⊢
    rw [← h.counts e he] at hroom
    have hrefs : (e.refs + 1) % modulus = e.refs + 1 := Nat.mod_eq_of_lt hroom
    rw [hrefs]
    refine h.setRefs he ?_ (Nat.succ_pos _) hroom ?_ ?_
    · rw [refCount_cons, if_pos rfl, h.counts e he]
    · intro id hid
      rw [refCount_cons, if_neg hid.symm, Nat.add_zero]
    · intro r hr
      rcases List.mem_cons.mp hr with rfl | hr
      · exact .inr rfl
      · exact .inl hr
  | none =>
    have hother := find_none hfind
    simp only [Interning.intern, hfind] at hroom ⊢
    rw [h.refCount_next] at hroom
    have hnew : refCount ((pool.next, key) :: held) pool.next = 1 := by
      rw [refCount_cons, h.refCount_next, if_pos rfl]
    have hold {e : Entry κ} (he : e ∈ pool.entries) :
        refCount ((pool.next, key) :: held) e.id = refCount held e.id := by
      rw [refCount_cons, if_neg (Nat.ne_of_gt (h.fresh e he)), Nat.add_zero]
    refine ⟨?_, ?_, ?_, ?_, ?_, ?_, ?_⟩
    · refine List.nodup_cons.mpr ⟨?_, h.keys⟩
      intro hmem
      obtain ⟨e, he, hkey⟩ := List.mem_map.mp hmem
      exact hother e he hkey
    · refine List.nodup_cons.mpr ⟨?_, h.ids⟩
      intro hmem
      obtain ⟨e, he, hid⟩ := List.mem_map.mp hmem
      exact absurd hid (Nat.ne_of_lt (h.fresh e he))
    · intro e he
      rcases List.mem_cons.mp he with rfl | he
      · exact Nat.lt_succ_self _
      · exact Nat.lt_succ_of_lt (h.fresh e he)
    · intro e he
      rcases List.mem_cons.mp he with rfl | he
      · exact hnew.symm
      · rw [hold he, h.counts e he]
    · intro e he
      rcases List.mem_cons.mp he with rfl | he
      · exact Nat.one_pos
      · exact h.used e he
    · intro e he
      rcases List.mem_cons.mp he with rfl | he
      · exact hroom
      · exact h.room e he
    · intro r hr
      rcases List.mem_cons.mp hr with rfl | hr
      · exact ⟨_, List.mem_cons_self, rfl, rfl⟩
      · obtain ⟨e, he, hre⟩ := h.found r hr
        exact ⟨e, List.mem_cons_of_mem _ he, hre⟩

end Intern

/-- A count below the modulus goes down by one. -/
theorem pred_mod {n : ℕ} (hpos : 0 < n) (hlt : n < modulus) :
    (n + (modulus - 1)) % modulus = n - 1 := by
  have hsum : n + (modulus - 1) = n - 1 + modulus := by omega
  rw [hsum, Nat.add_mod_right, Nat.mod_eq_of_lt (by omega)]

/-- The last reference goes, and the object with it. -/
theorem Shared.drop (h : Shared modulus pool (before ++ r :: after)) (he : e ∈ pool.entries)
    (hid : e.id = r.1) (hlast : e.refs = 1) :
    Shared modulus { pool with entries := pool.entries.filter fun e' => e'.id ≠ r.1 }
      (before ++ after) := by
  have hnone : refCount (before ++ after) r.1 = 0 := by
    have hcount := h.counts e he
    rw [hid, refCount_middle, if_pos rfl] at hcount
    omega
  have hmem {e' : Entry κ} (he' : e' ∈ pool.entries.filter fun e' => e'.id ≠ r.1) :
      e' ∈ pool.entries ∧ e'.id ≠ r.1 := by
    simpa using he'
  have hsub : (pool.entries.filter fun e' => e'.id ≠ r.1).Sublist pool.entries :=
    List.filter_sublist
  refine ⟨h.keys.sublist (hsub.map _), h.ids.sublist (hsub.map _), ?_, ?_, ?_, ?_, ?_⟩
  · intro e' he'
    exact h.fresh e' (hmem he').1
  · intro e' he'
    rw [h.counts e' (hmem he').1, refCount_middle, if_neg (hmem he').2.symm, Nat.add_zero]
  · intro e' he'
    exact h.used e' (hmem he').1
  · intro e' he'
    exact h.room e' (hmem he').1
  · intro r' hr'
    have hheld : r' ∈ before ++ r :: after := by
      rw [List.mem_append, List.mem_cons]
      exact (List.mem_append.mp hr').imp_right .inr
    obtain ⟨e', he', hid', hkey'⟩ := h.found r' hheld
    have hne : e'.id ≠ r.1 := by
      intro heq
      have hzero := List.countP_eq_zero.mp hnone r' hr'
      rw [← hid', decide_eq_true_eq] at hzero
      exact hzero heq
    exact ⟨e', List.mem_filter.mpr ⟨he', by simpa using hne⟩, hid', hkey'⟩

theorem Shared.release (h : Shared modulus pool (before ++ r :: after)) :
    Shared modulus (release modulus pool r.1) (before ++ after) := by
  obtain ⟨e, he, hid, hkey⟩ := h.found r (by simp)
  have hcount : e.refs = refCount (before ++ after) e.id + 1 := by
    rw [h.counts e he, refCount_middle, if_pos hid.symm]
  have hfind := h.find_id he
  rw [hid] at hfind
  rw [Interning.release, hfind]
  dsimp only
  rw [pred_mod (h.used e he) (h.room e he)]
  by_cases hlast : e.refs - 1 = 0
  · rw [if_pos hlast]
    exact h.drop he hid (by omega)
  · rw [if_neg hlast, ← hid]
    have hroom := h.room e he
    refine h.setRefs he (by omega) (by omega) (by omega) ?_ ?_
    · intro id hne
      rw [refCount_middle, if_neg (hid ▸ hne.symm), Nat.add_zero]
    · intro r' hr'
      rw [List.mem_append, List.mem_cons]
      exact .inl ((List.mem_append.mp hr').imp_right .inr)

theorem setRefs_setRefs (pool : Pool κ) (id refs refs' : ℕ) :
    (pool.setRefs id refs).setRefs id refs' = pool.setRefs id refs' := by
  simp only [Pool.setRefs, List.map_map, Pool.mk.injEq, and_true]
  refine List.map_congr_left fun e _ => ?_
  by_cases he : e.id = id <;> simp [he]

theorem Shared.setRefs_self (h : Shared modulus pool held) (he : e ∈ pool.entries) :
    pool.setRefs e.id e.refs = pool := by
  have hmap : (pool.entries.map fun e' =>
      if e'.id = e.id then { e' with refs := e.refs } else e') = pool.entries := by
    refine (List.map_congr_left fun e' he' => ?_).trans (List.map_id' _)
    split
    · rename_i hid
      rw [h.eq_of_id he' he hid]
    · rfl
  rw [Pool.setRefs, hmap]

/-- A further reference to an object that is dropped again leaves no trace, whatever its count. -/
theorem Shared.release_intern [DecidableEq κ] (h : Shared modulus pool held)
    (he : e ∈ pool.entries) :
    Interning.release modulus (Interning.intern modulus pool e.key).1 e.id = pool := by
  have hpos := h.used e he
  have hroom := h.room e he
  rw [intern_found (h.find_eq he), Interning.release]
  have hfind : ((pool.setRefs e.id ((e.refs + 1) % modulus)).entries.find? fun e' =>
      e'.id = e.id) = some { e with refs := (e.refs + 1) % modulus } := by
    rw [Pool.setRefs, List.find?_map]
    have hsame : ((fun e' : Entry κ => decide (e'.id = e.id)) ∘ fun e' =>
        if e'.id = e.id then { e' with refs := (e.refs + 1) % modulus } else e') =
        fun e' => decide (e'.id = e.id) := by
      funext e'
      by_cases hid : e'.id = e.id <;> simp [hid]
    rw [hsame, h.find_id he, Option.map_some, if_pos rfl]
  have hback : ((e.refs + 1) % modulus + (modulus - 1)) % modulus = e.refs := by
    have hsum : e.refs + 1 + (modulus - 1) = e.refs + modulus := by omega
    rw [Nat.mod_add_mod, hsum, Nat.add_mod_right, Nat.mod_eq_of_lt hroom]
  rw [hfind]
  dsimp only
  rw [hback, if_neg (Nat.ne_of_gt hpos), setRefs_setRefs, h.setRefs_self he]

theorem Run.shared [DecidableEq κ] (h : Run modulus pool held) : Shared modulus pool held := by
  induction h with
  | empty => exact ⟨.nil, .nil, by simp [Pool.empty], by simp [Pool.empty], by simp [Pool.empty],
      by simp [Pool.empty], by simp⟩
  | intern _ key hroom ih => exact ih.intern key hroom
  | release _ ih => exact ih.release

end TorDaemon.Library.Interning

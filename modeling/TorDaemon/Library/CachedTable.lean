import Mathlib.Data.Option.Basic
import Mathlib.Data.Nat.Notation

/-! A hash table of nodes on a heap, with a pointer to the node that was looked up last. -/
namespace TorDaemon.Library.CachedTable
variable {κ ν : Type*}

/-- The table has a pointer for each of its keys; a node has its key and a value. -/
structure Table (κ ν : Type*) where
  table : κ → Option ℕ
  heap : ℕ → Option (κ × ν)
  last : Option ℕ
  next : ℕ

namespace Table

def empty : Table κ ν := ⟨fun _ => none, fun _ => none, none, 0⟩

/-- The value that a key is found with. -/
def view (t : Table κ ν) (k : κ) : Option ν := (t.table k).bind fun p => (t.heap p).map Prod.snd

/-- Whether the node that was looked up last has such a key; `none` where it was freed. -/
def lastHas (t : Table κ ν) (q : κ → Bool) : Option Bool :=
  match t.last with
  | none => some false
  | some p => (t.heap p).map fun node => q node.1

/-- The last lookup is forgotten if it was of such a key. -/
def forget (t : Table κ ν) (q : κ → Bool) : Option (Table κ ν) :=
  (t.lastHas q).map fun hit => if hit then { t with last := none } else t

/-- A lookup that tries the last node first, and remembers what it finds. -/
def lookup [DecidableEq κ] (t : Table κ ν) (k : κ) : Option (Option ℕ × Table κ ν) :=
  (t.lastHas fun k' => decide (k' = k)).map fun hit =>
    if hit then (t.last, t) else (t.table k, { t with last := t.table k })

section
variable (t : Table κ ν)

/-- The key leaves the table, and its node stays on the heap. -/
def unlink [DecidableEq κ] (k : κ) : Table κ ν :=
  { t with table := Function.update t.table k none }

def free (p : ℕ) : Table κ ν := { t with heap := Function.update t.heap p none }

/-- A new node. -/
def insert [DecidableEq κ] (k : κ) (v : ν) : Table κ ν :=
  { t with
    table := Function.update t.table k (some t.next)
    heap := Function.update t.heap t.next (some (k, v))
    next := t.next + 1 }

/-- Another value in the node of a key. -/
def modify (k : κ) (v : ν) : Table κ ν :=
  match t.table k with
  | none => t
  | some p => { t with heap := Function.update t.heap p (some (k, v)) }

end

/-! ### Invariant -/

/-- Table and heap have the same nodes, and the last lookup found one of them. -/
structure Sound (t : Table κ ν) : Prop where
  node : ∀ k p, t.table k = some p → ∃ v, t.heap p = some (k, v)
  linked : ∀ p k v, t.heap p = some (k, v) → t.table k = some p
  fresh : ∀ p, t.next ≤ p → t.heap p = none
  last : ∀ p ∈ t.last, ∃ k v, t.heap p = some (k, v)

variable {t : Table κ ν} {k : κ} {v : ν} {p : ℕ}

theorem sound_empty : Sound (empty : Table κ ν) := ⟨nofun, nofun, fun _ _ => rfl, nofun⟩

section
variable (h : t.Sound)
include h

theorem Sound.view_eq_some :
    t.view k = some v ↔ ∃ p, t.table k = some p ∧ t.heap p = some (k, v) := by
  rw [view, Option.bind_eq_some_iff]
  constructor
  · rintro ⟨p, hp, hv⟩
    obtain ⟨v', hnode⟩ := h.node k p hp
    rw [hnode] at hv
    cases hv
    exact ⟨p, hp, hnode⟩
  · rintro ⟨p, hp, hnode⟩
    exact ⟨p, hp, by rw [hnode]; rfl⟩

theorem Sound.view_eq_none : t.view k = none ↔ t.table k = none := by
  cases hp : t.table k with
  | none => simp [view, hp]
  | some p =>
    obtain ⟨v, hnode⟩ := h.node k p hp
    simp [view, hp, hnode]

theorem Sound.lastHas (q : κ → Bool) : ∃ hit, t.lastHas q = some hit ∧
      (hit = true ↔ ∃ p ∈ t.last, ∃ k v, t.heap p = some (k, v) ∧ q k = true) := by
  unfold Table.lastHas
  cases hlast : t.last with
  | none => exact ⟨false, rfl, by simp⟩
  | some p =>
    obtain ⟨k, v, hnode⟩ := h.last p hlast
    refine ⟨q k, ?_, by simp [hnode]⟩
    change (t.heap p).map _ = _
    rw [hnode]
    rfl

theorem Sound.withLast {last : Option ℕ}
    (hlast : ∀ p ∈ last, ∃ k v, t.heap p = some (k, v)) : Sound { t with last := last } :=
  ⟨h.node, h.linked, h.fresh, hlast⟩

theorem Sound.forget (q : κ → Bool) :
    ∃ last, t.forget q = some { t with last := last } ∧ Sound { t with last := last } ∧
      ∀ p ∈ last, ∀ k v, t.heap p = some (k, v) → q k = false := by
  obtain ⟨hit, hhit, hiff⟩ := h.lastHas q
  cases hit with
  | true =>
    refine ⟨none, ?_, h.withLast nofun, nofun⟩
    rw [Table.forget, hhit]
    rfl
  | false =>
    refine ⟨t.last, ?_, h, ?_⟩
    · rw [Table.forget, hhit]
      rfl
    · intro p hp k v hnode
      by_contra hq
      exact Bool.noConfusion (hiff.mpr ⟨p, hp, k, v, hnode, by simpa using hq⟩)

end

variable [DecidableEq κ]

/-- The cache does not change what is found. -/
theorem Sound.lookup (h : t.Sound) (k : κ) :
    ∃ last, t.lookup k = some (t.table k, { t with last := last }) ∧
      Sound { t with last := last } := by
  obtain ⟨hit, hhit, hiff⟩ := h.lastHas fun k' => decide (k' = k)
  cases hit with
  | true =>
    obtain ⟨p, hp, k', v, hnode, hk⟩ := hiff.mp rfl
    obtain rfl := of_decide_eq_true hk
    refine ⟨t.last, ?_, h⟩
    rw [Table.lookup, hhit, h.linked p k' v hnode, ← Option.mem_def.mp hp]
    rfl
  | false =>
    refine ⟨t.table k, ?_, h.withLast fun p hp => ?_⟩
    · rw [Table.lookup, hhit]
      rfl
    · obtain ⟨v, hnode⟩ := h.node k p hp
      exact ⟨k, v, hnode⟩

/-! ### Changes -/

theorem Sound.remove (h : t.Sound) (hp : t.table k = some p) (hlast : p ∉ t.last) :
    Sound ((t.unlink k).free p) ∧
      ((t.unlink k).free p).view = Function.update t.view k none := by
  obtain ⟨v, hnode⟩ := h.node k p hp
  have hne : ∀ k' p', k' ≠ k → t.table k' = some p' → p' ≠ p := by
    rintro k' p' hk' hp' rfl
    obtain ⟨v', hnode'⟩ := h.node k' p' hp'
    rw [hnode] at hnode'
    exact hk' (Prod.mk.inj (Option.some.inj hnode')).1.symm
  constructor
  · constructor
    · intro k' p' hp'
      by_cases hk' : k' = k
      · rw [hk'] at hp'
        exact absurd hp' (by simp [unlink, free])
      · have hold : t.table k' = some p' := by simpa [unlink, free, hk'] using hp'
        obtain ⟨v', hnode'⟩ := h.node k' p' hold
        exact ⟨v', by simpa [unlink, free, hne k' p' hk' hold] using hnode'⟩
    · intro p' k' v' hnode'
      by_cases hpp : p' = p
      · exact absurd hnode' (by simp [unlink, free, hpp])
      · have hold : t.heap p' = some (k', v') := by simpa [unlink, free, hpp] using hnode'
        have htable := h.linked p' k' v' hold
        have hk' : k' ≠ k := by
          rintro rfl
          exact hpp (Option.some.inj (htable.symm.trans hp))
        simpa [unlink, free, hk'] using htable
    · intro p' hp'
      by_cases hpp : p' = p
      · simp [unlink, free, hpp]
      · simpa [unlink, free, hpp] using h.fresh p' hp'
    · intro p' hp'
      obtain ⟨k', v', hnode'⟩ := h.last p' hp'
      have hpp : p' ≠ p := fun heq => hlast (heq ▸ hp')
      exact ⟨k', v', by simpa [unlink, free, hpp] using hnode'⟩
  · funext k'
    by_cases hk' : k' = k
    · simp [view, unlink, free, hk']
    · rw [Function.update_of_ne hk']
      cases hold : t.table k' with
      | none => simp [view, unlink, free, hk', hold]
      | some p' => simp [view, unlink, free, hk', hold, hne k' p' hk' hold]

theorem Sound.insert (h : t.Sound) (hk : t.table k = none) (v : ν) :
    Sound (t.insert k v) ∧ (t.insert k v).view = Function.update t.view k (some v) := by
  have hne : ∀ p k' v', t.heap p = some (k', v') → p ≠ t.next := by
    rintro p k' v' hnode rfl
    rw [h.fresh t.next (Nat.le_refl _)] at hnode
    cases hnode
  constructor
  · constructor
    · intro k' p hp
      by_cases hk' : k' = k
      · obtain rfl : t.next = p := by simpa [Table.insert, hk'] using hp
        exact ⟨v, by simp [Table.insert, hk']⟩
      · have hold : t.table k' = some p := by simpa [Table.insert, hk'] using hp
        obtain ⟨v', hnode⟩ := h.node k' p hold
        exact ⟨v', by simpa [Table.insert, hne p k' v' hnode] using hnode⟩
    · intro p k' v' hnode
      by_cases hp : p = t.next
      · obtain ⟨rfl, -⟩ : k = k' ∧ v = v' := by simpa [Table.insert, hp] using hnode
        simp [Table.insert, hp]
      · have hold : t.heap p = some (k', v') := by simpa [Table.insert, hp] using hnode
        have htable := h.linked p k' v' hold
        have hk' : k' ≠ k := by
          rintro rfl
          rw [hk] at htable
          cases htable
        simpa [Table.insert, hk'] using htable
    · intro p hp
      have hp' : t.next < p := hp
      simpa [Table.insert, Nat.ne_of_gt hp'] using h.fresh p (Nat.le_of_lt hp')
    · intro p hp
      obtain ⟨k', v', hnode⟩ := h.last p hp
      exact ⟨k', v', by simpa [Table.insert, hne p k' v' hnode] using hnode⟩
  · funext k'
    by_cases hk' : k' = k
    · simp [view, Table.insert, hk']
    · rw [Function.update_of_ne hk']
      cases hold : t.table k' with
      | none => simp [view, Table.insert, hk', hold]
      | some p =>
        obtain ⟨v', hnode⟩ := h.node k' p hold
        simp [view, Table.insert, hk', hold, hne p k' v' hnode]

end Table

end TorDaemon.Library.CachedTable

import Mathlib.Logic.Equiv.Basic

/-! Binary heaps on the positions of a partial function. `UpOrder` and `DownOrder`
say what a sift needs of the order around the position it works at, and how one
exchange with the parent or with the smaller child carries that along. -/
namespace TorDaemon.Library.Heap
variable {α : Type*} {le : α → α → Prop} {f : ℕ → Option α} {i b : ℕ}

def parent (i : ℕ) : ℕ := (i - 1) / 2

def leftChild (i : ℕ) : ℕ := 2 * i + 1

def rightChild (i : ℕ) : ℕ := 2 * i + 2

theorem parent_lt (hi : 0 < i) : parent i < i := by
  unfold parent
  omega

theorem child_of_parent {c : ℕ} (hc : 0 < c) (h : parent c = i) :
    c = leftChild i ∨ c = rightChild i := by
  unfold parent at h
  unfold leftChild rightChild
  omega

/-- The entries at the two positions, where both are there, are in order. -/
def InOrder (le : α → α → Prop) (f : ℕ → Option α) (p c : ℕ) : Prop :=
  ∀ a b, f p = some a → f c = some b → le a b

theorem InOrder.trans [IsTrans α le] {i j k : ℕ} (h : InOrder le f i j) (h' : InOrder le f j k)
    (hj : (f j).isSome) : InOrder le f i k := by
  intro a b ha hb
  obtain ⟨x, hx⟩ := Option.isSome_iff_exists.mp hj
  exact IsTrans.trans a x b (h a x ha hx) (h' x b hx hb)

/-- No entry is smaller than its parent. -/
def Ordered (le : α → α → Prop) (f : ℕ → Option α) : Prop :=
  ∀ c, 0 < c → InOrder le f (parent c) c

/-- The state of a sift towards the root: only the entry at `i` may be smaller
than its parent, and the children of `i` are in order with that parent. -/
structure UpOrder (le : α → α → Prop) (f : ℕ → Option α) (i : ℕ) : Prop where
  except : ∀ c, 0 < c → c ≠ i → InOrder le f (parent c) c
  grand : 0 < i → ∀ c, 0 < c → parent c = i → InOrder le f (parent i) c

/-- The state of a sift towards the leaves: only the entry at `i` may be greater
than its children, and these are in order with the parent of `i`. -/
structure DownOrder (le : α → α → Prop) (f : ℕ → Option α) (i : ℕ) : Prop where
  except : ∀ c, 0 < c → parent c ≠ i → InOrder le f (parent c) c
  grand : 0 < i → ∀ c, 0 < c → parent c = i → InOrder le f (parent i) c

section
variable (f : ℕ → Option α)

/-- The entries after those at `i` and `j` have changed places. -/
def exchange (i j : ℕ) : ℕ → Option α := fun k => f (Equiv.swap i j k)

theorem exchange_left (i j : ℕ) : exchange f i j i = f j := by
  simp [exchange]

theorem exchange_right (i j : ℕ) : exchange f i j j = f i := by
  simp [exchange]

theorem exchange_other {i j k : ℕ} (hi : k ≠ i) (hj : k ≠ j) : exchange f i j k = f k := by
  simp [exchange, Equiv.swap_apply_of_ne_of_ne hi hj]

theorem exchange_comm (i j : ℕ) : exchange f i j = exchange f j i := by
  unfold exchange
  rw [Equiv.swap_comm]

end

theorem UpOrder.ordered (h : UpOrder le f i) (hi : 0 < i → InOrder le f (parent i) i) :
    Ordered le f := by
  intro c hc
  by_cases hci : c = i
  · subst hci
    exact hi hc
  · exact h.except c hc hci

theorem DownOrder.ordered (h : DownOrder le f i)
    (hi : ∀ c, 0 < c → parent c = i → InOrder le f i c) : Ordered le f := by
  intro c hc
  by_cases hci : parent c = i
  · rw [hci]
    exact hi c hc hci
  · exact h.except c hc hci

theorem UpOrder.exchange_parent [IsTrans α le] (h : UpOrder le f i) (hi : 0 < i)
    (hle : InOrder le f i (parent i)) (hsome : (f (parent i)).isSome) :
    UpOrder le (exchange f i (parent i)) (parent i) := by
  have hlt := parent_lt hi
  obtain ⟨p, hp⟩ := Option.isSome_iff_exists.mp hsome
  constructor
  · intro c hc hcp a b ha hb
    by_cases hci : c = i
    · subst hci
      rw [exchange_right] at ha
      rw [exchange_left] at hb
      exact hle a b ha hb
    · rw [exchange_other f hci hcp] at hb
      by_cases hpi : parent c = i
      · rw [hpi, exchange_left] at ha
        exact h.grand hi c hc hpi a b ha hb
      · by_cases hpp : parent c = parent i
        · rw [hpp, exchange_right] at ha
          have hpb := h.except c hc hci p b (hpp ▸ hp) hb
          exact IsTrans.trans a p b (hle a p ha hp) hpb
        · rw [exchange_other f hpi hpp] at ha
          exact h.except c hc hci a b ha hb
  · intro hpos c hc hpc a b ha hb
    have hpp := parent_lt hpos
    rw [exchange_other f (by omega) (by omega)] at ha
    have hap := h.except (parent i) hpos (by omega) a p ha hp
    by_cases hci : c = i
    · subst hci
      rw [exchange_left, hp, Option.some.injEq] at hb
      exact hb ▸ hap
    · have hlt' := parent_lt hc
      rw [exchange_other f hci (by omega)] at hb
      exact IsTrans.trans a p b hap (h.except c hc hci p b (hpc ▸ hp) hb)

theorem DownOrder.exchange_child (h : DownOrder le f i) (hb : 0 < b) (hpb : parent b = i)
    (hbi : InOrder le f b i) (hbest : ∀ c, 0 < c → c ≠ b → parent c = i → InOrder le f b c) :
    DownOrder le (exchange f i b) b := by
  have hlt := parent_lt hb
  constructor
  · intro c hc hcb x y hx hy
    have hltc := parent_lt hc
    by_cases hpi : parent c = i
    · rw [hpi, exchange_left] at hx
      by_cases hcb' : c = b
      · subst hcb'
        rw [exchange_right] at hy
        exact hbi x y hx hy
      · rw [exchange_other f (by omega) hcb'] at hy
        exact hbest c hc hcb' hpi x y hx hy
    · rw [exchange_other f hpi hcb] at hx
      have hcb' : c ≠ b := fun hcb' => hpi (hcb' ▸ hpb)
      by_cases hci : c = i
      · subst hci
        rw [exchange_left] at hy
        exact h.grand hc b hb hpb x y hx hy
      · rw [exchange_other f hci hcb'] at hy
        exact h.except c hc hpi x y hx hy
  · intro _ c hc hpc x y hx hy
    have hltc := parent_lt hc
    rw [hpb, exchange_left] at hx
    rw [exchange_other f (by omega) (by omega)] at hy
    exact h.except c hc (by omega) x y (hpc ▸ hx) hy

/-- A new entry under a parent that is not greater may sift towards the leaves. -/
theorem Ordered.downOrder_of_replace [IsTrans α le] {g : ℕ → Option α} (h : Ordered le f)
    (hg : ∀ k, k ≠ i → ∀ a, g k = some a → f k = some a) (hsome : (f i).isSome)
    (hi : 0 < i → InOrder le g (parent i) i) : DownOrder le g i := by
  obtain ⟨x, hx⟩ := Option.isSome_iff_exists.mp hsome
  constructor
  · intro c hc hpc a b ha hb
    by_cases hci : c = i
    · subst hci
      exact hi hc a b ha hb
    · exact h c hc a b (hg _ hpc a ha) (hg c hci b hb)
  · intro hpos c hc hpc a b ha hb
    have hlt := parent_lt hpos
    have hltc := parent_lt hc
    have hax := h i hpos a x (hg _ (by omega) a ha) hx
    exact IsTrans.trans a x b hax (h c hc x b (hpc ▸ hx) (hg c (by omega) b hb))

/-- The positions from `i` up to the root. -/
inductive Above (i : ℕ) : ℕ → Prop
  | self : Above i i
  | parent {j : ℕ} : 0 < j → Above i j → Above i (parent j)

theorem Above.of_parent {j : ℕ} (h : Above (Heap.parent i) j) (hi : 0 < i) : Above i j := by
  induction h with
  | self => exact .parent hi .self
  | parent hpos _ ih => exact .parent hpos ih

/-- No entry on the way to the root is greater. -/
theorem Ordered.le_above [IsTrans α le] [Std.Refl le] (h : Ordered le f)
    (hparent : ∀ c, 0 < c → (f c).isSome → (f (parent c)).isSome) {a x : α} {j : ℕ}
    (habove : Above i j) (hj : f j = some a) (hi : f i = some x) : le a x := by
  have hsome : ∀ {k}, Above i k → (f k).isSome := by
    intro k hk
    induction hk with
    | self => exact Option.isSome_of_eq_some hi
    | parent hpos _ ih => exact hparent _ hpos ih
  induction habove generalizing a with
  | self =>
    cases hi.symm.trans hj
    exact Std.Refl.refl _
  | parent hpos habove ih =>
    obtain ⟨p, hp⟩ := Option.isSome_iff_exists.mp (hsome habove)
    exact IsTrans.trans a p x (h _ hpos a p hj hp) (ih hp)

theorem above_root (i : ℕ) : Above i 0 := by
  induction i using Nat.strongRecOn with
  | ind i ih =>
    by_cases hpos : 0 < i
    · exact (ih _ (parent_lt hpos)).of_parent hpos
    · obtain rfl : i = 0 := by omega
      exact .self

end TorDaemon.Library.Heap

import Mathlib.Data.Set.Basic

/-! Sets of pairs in which nothing has two partners, and a new pair that takes the place of
those it contradicts. -/
namespace TorDaemon.Library.Pairing
variable {α β : Type*} {m : Set (α × β)} {p : α × β}

structure IsPairing (m : Set (α × β)) : Prop where
  left : ∀ p ∈ m, ∀ q ∈ m, p.1 = q.1 → p = q
  right : ∀ p ∈ m, ∀ q ∈ m, p.2 = q.2 → p = q

/-- The pair, and those that share nothing with it. -/
def supersede (m : Set (α × β)) (p : α × β) : Set (α × β) :=
  {q | q = p ∨ q ∈ m ∧ q.1 ≠ p.1 ∧ q.2 ≠ p.2}

/-- A pair that is already there contradicts nothing. -/
theorem supersede_of_mem (hm : IsPairing m) (hp : p ∈ m) : supersede m p = m := by
  ext q
  constructor
  · rintro (rfl | ⟨hq, -, -⟩)
    · exact hp
    · exact hq
  · intro hq
    by_cases hqp : q = p
    · exact .inl hqp
    · exact .inr ⟨hq, fun h => hqp (hm.left q hq p hp h), fun h => hqp (hm.right q hq p hp h)⟩

/-- The pairs, each taking the place of those before it that it contradicts. -/
def supersedeAll (m : Set (α × β)) (ps : List (α × β)) : Set (α × β) := ps.foldl supersede m

end TorDaemon.Library.Pairing

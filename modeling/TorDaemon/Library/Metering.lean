import Mathlib.Algebra.Order.Ring.Int

/-! Runs that are paid for by the time they take. A step gains at most a fixed rate for every
whole period that passes, and keeps the time that it has not been paid for. -/
namespace TorDaemon.Library.Metering
variable {σ ε : Type*} {step : σ → ε → σ}

/-- The state after a list of events. -/
def run (step : σ → ε → σ) (s : σ) (es : List ε) : σ := es.foldl step s

/-- What the events of a run add up to, each taken in the state that it is met in. -/
def total {M : Type*} [Zero M] [Add M] (step : σ → ε → σ) (f : σ → ε → M) : σ → List ε → M
  | _, [] => 0
  | s, e :: es => f s e + total step f (step s e) es

/-- Every event of a run meets the condition, in the state that it is met in. -/
def Throughout (step : σ → ε → σ) (P : σ → ε → Prop) : σ → List ε → Prop
  | _, [] => True
  | s, e :: es => P s e ∧ Throughout step P (step s e) es

instance decidableThroughout {P : σ → ε → Prop} [∀ s e, Decidable (P s e)] :
    ∀ (s : σ) (es : List ε), Decidable (Throughout step P s es)
  | _, [] => .isTrue trivial
  | s, e :: es =>
    have : Decidable (Throughout step P (step s e) es) := decidableThroughout (step s e) es
    inferInstanceAs (Decidable (P s e ∧ Throughout step P (step s e) es))

/-- What holds at first and is kept by every step holds at the end. -/
theorem Throughout.invariant {P : σ → ε → Prop} {I : σ → Prop} {s : σ} {es : List ε}
    (h : Throughout step P s es) (hs : I s) (hstep : ∀ s e, I s → P s e → I (step s e)) :
    I (run step s es) := by
  induction es generalizing s with
  | nil => exact hs
  | cons e es ih => exact ih h.2 (hstep s e hs h.1)

/-- One event gains no more than `rate` for each of some whole periods, and takes their time. -/
def Paid (step : σ → ε → σ) (gain : σ → ε → ℤ) (time : ε → ℕ) (pending : σ → ℕ) (rate period : ℕ)
    (s : σ) (e : ε) : Prop :=
  ∃ periods : ℕ, gain s e ≤ rate * periods ∧
    period * periods + pending (step s e) ≤ pending s + time e

section
variable {gain : σ → ε → ℤ} {time : ε → ℕ} {pending : σ → ℕ} {rate period : ℕ}

theorem total_paid {s : σ} {es : List ε}
    (h : Throughout step (Paid step gain time pending rate period) s es) :
    ∃ periods : ℕ, total step gain s es ≤ rate * periods ∧
      period * periods + pending (run step s es) ≤ pending s + (es.map time).sum := by
  induction es generalizing s with
  | nil => exact ⟨0, by simp [total], by simp [run]⟩
  | cons e es ih =>
    obtain ⟨k, hgain, htime⟩ := h.1
    obtain ⟨m, hgains, htimes⟩ := ih h.2
    refine ⟨k + m, ?_, ?_⟩
    · rw [total]
      push_cast
      rw [mul_add]
      exact add_le_add hgain hgains
    · simp only [List.map_cons, List.sum_cons, run, List.foldl_cons] at htimes ⊢
      rw [Nat.mul_add]
      omega

/-- A run gains no more than `rate` for every period of the time that it takes. -/
theorem total_le {s : σ} {es : List ε} (hperiod : 0 < period)
    (h : Throughout step (Paid step gain time pending rate period) s es) :
    total step gain s es ≤ rate * ((pending s + (es.map time).sum) / period : ℕ) := by
  obtain ⟨periods, hgain, htime⟩ := total_paid h
  have hle : periods ≤ (pending s + (es.map time).sum) / period := by
    rw [Nat.le_div_iff_mul_le hperiod, Nat.mul_comm]
    omega
  calc total step gain s es ≤ rate * periods := hgain
    _ ≤ rate * ((pending s + (es.map time).sum) / period : ℕ) := by
      apply mul_le_mul_of_nonneg_left
      · exact_mod_cast hle
      · exact Int.natCast_nonneg rate

end

end TorDaemon.Library.Metering

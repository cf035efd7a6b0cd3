import Mathlib.Data.List.Basic

/-! Lists of rules of which the first one that covers a point decides about it. -/
namespace TorDaemon.Library.DecisionList
variable {R X A : Type*} (covers : R → X → Prop) [∀ r x, Decidable (covers r x)] (action : R → A)
  (default : A)

/-- The action of the first rule that covers the point. -/
def decision (x : X) : List R → A
  | [] => default
  | r :: rules => if covers r x then action r else decision x rules

variable {covers action default} {x : X} {r b : R} {rules pre suf mid : List R}

theorem decision_append_of_covered (h : ∃ e ∈ pre, covers e x) :
    decision covers action default x (pre ++ suf) = decision covers action default x pre := by
  induction pre with
  | nil => simp at h
  | cons e pre ih =>
    simp only [List.cons_append, decision]
    by_cases he : covers e x
    · rw [if_pos he, if_pos he]
    · rw [if_neg he, if_neg he]
      simp only [List.mem_cons, exists_eq_or_imp, he, false_or] at h
      exact ih h

theorem decision_append_of_uncovered (h : ∀ e ∈ pre, ¬ covers e x) :
    decision covers action default x (pre ++ suf) = decision covers action default x suf := by
  induction pre with
  | nil => rfl
  | cons e pre ih =>
    simp only [List.cons_append, decision]
    rw [if_neg (h e List.mem_cons_self)]
    exact ih fun e he => h e (List.mem_cons_of_mem _ he)

theorem decision_of_forall {a : A} (hex : ∃ e ∈ rules, covers e x)
    (h : ∀ e ∈ rules, covers e x → action e = a) : decision covers action default x rules = a := by
  induction rules with
  | nil => simp at hex
  | cons e rules ih =>
    simp only [decision]
    by_cases he : covers e x
    · rw [if_pos he]
      exact h e List.mem_cons_self he
    · rw [if_neg he]
      simp only [List.mem_cons, exists_eq_or_imp, he, false_or] at hex
      exact ih hex fun e hmem => h e (List.mem_cons_of_mem _ hmem)

theorem decision_eq_default (h : ∀ e ∈ rules, ¬ covers e x) :
    decision covers action default x rules = default := by
  have happend : decision covers action default x (rules ++ []) = default :=
    decision_append_of_uncovered h
  rw [List.append_nil] at happend
  exact happend

theorem decision_split (hr : covers r x) (hpre : ∀ e ∈ pre, ¬ covers e x) :
    decision covers action default x (pre ++ r :: suf) = action r := by
  rw [decision_append_of_uncovered hpre]
  simp only [decision, if_pos hr]

theorem exists_first (h : ∃ e ∈ rules, covers e x) :
    ∃ pre r suf, rules = pre ++ r :: suf ∧ covers r x ∧ ∀ e ∈ pre, ¬ covers e x := by
  induction rules with
  | nil => simp at h
  | cons e rules ih =>
    by_cases he : covers e x
    · exact ⟨[], e, rules, rfl, he, by simp⟩
    · simp only [List.mem_cons, exists_eq_or_imp, he, false_or] at h
      obtain ⟨pre, r, suf, rfl, hr, hpre⟩ := ih h
      exact ⟨e :: pre, r, suf, rfl, hr, by simpa [he] using hpre⟩

/-- A rule decides nothing about a point that a rule before it covers. -/
theorem decision_remove_dead (h : covers r x → ∃ e ∈ pre, covers e x) :
    decision covers action default x (pre ++ r :: suf) =
      decision covers action default x (pre ++ suf) := by
  by_cases hpre : ∃ e ∈ pre, covers e x
  · rw [decision_append_of_covered hpre, decision_append_of_covered hpre]
  · have hr : ¬ covers r x := fun hr => hpre (h hr)
    push Not at hpre
    rw [decision_append_of_uncovered hpre, decision_append_of_uncovered hpre]
    simp only [decision, if_neg hr]

/-- A rule can go whose points a later rule of the same action covers, where each rule between
them has the same action too or no point in common with it. -/
theorem decision_remove_repeated (hb : covers r x → covers b x) (haction : action b = action r)
    (hmid : ∀ m ∈ mid, action m = action r ∨ (covers r x → ¬ covers m x)) :
    decision covers action default x (pre ++ r :: (mid ++ b :: suf)) =
      decision covers action default x (pre ++ (mid ++ b :: suf)) := by
  by_cases hpre : ∃ e ∈ pre, covers e x
  · rw [decision_append_of_covered hpre, decision_append_of_covered hpre]
  · push Not at hpre
    rw [decision_append_of_uncovered hpre, decision_append_of_uncovered hpre]
    by_cases hr : covers r x
    · have hcovered : ∃ e ∈ mid ++ [b], covers e x := ⟨b, by simp, hb hr⟩
      have hsame : ∀ e ∈ mid ++ [b], covers e x → action e = action r := by
        intro e he hcov
        cases List.mem_append.mp he with
        | inl hm => exact (hmid e hm).resolve_right fun hdisjoint => hdisjoint hr hcov
        | inr hlast => exact List.mem_singleton.mp hlast ▸ haction
      rw [List.append_cons mid b suf, decision_append_of_covered hcovered,
        decision_of_forall hcovered hsame]
      simp only [decision, if_pos hr]
    · simp only [decision, if_neg hr]

end TorDaemon.Library.DecisionList

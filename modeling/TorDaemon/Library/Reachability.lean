import Mathlib.Data.List.Basic

/-! Guarded runs of a partial step function. An event may be taken where its
guard holds and the step is defined; an undefined step is a failed assertion of
the modelled program, or an input its callers never give. -/
namespace TorDaemon.Library.Reachability
variable {σ ε : Type*} {step : σ → ε → Option σ} {guard guard' : σ → ε → Prop} {init s : σ}

/-- The states of the runs from `init` whose every event meets the guard. -/
inductive Reached (step : σ → ε → Option σ) (guard : σ → ε → Prop) (init : σ) : σ → Prop
  | init : Reached step guard init init
  | step {s s' : σ} {e : ε} :
      Reached step guard init s → guard s e → step s e = some s' → Reached step guard init s'

/-- What holds at first and is kept by every guarded step holds of every reached state. -/
theorem Reached.invariant {I : σ → Prop} (h : Reached step guard init s) (hinit : I init)
    (hstep : ∀ s e s', I s → guard s e → step s e = some s' → I s') : I s := by
  induction h with
  | init => exact hinit
  | step _ hguard hs ih => exact hstep _ _ _ ih hguard hs

theorem Reached.mono (hguard : ∀ s e, guard s e → guard' s e) (h : Reached step guard init s) :
    Reached step guard' init s := by
  induction h with
  | init => exact .init
  | step _ hg hs ih => exact ih.step (hguard _ _ hg) hs

/-- The state after a list of events, where every one of them is defined. -/
def run (step : σ → ε → Option σ) (s : σ) : List ε → Option σ
  | [] => some s
  | e :: es => (step s e).bind fun s' => run step s' es

theorem run_append (es es' : List ε) :
    run step s (es ++ es') = (run step s es).bind fun s' => run step s' es' := by
  induction es generalizing s with
  | nil => rfl
  | cons e es ih =>
    simp only [List.cons_append, run, Option.bind_assoc]
    congr 1
    funext s'
    exact ih

theorem run_invariant {I : σ → Prop} {es : List ε} {s' : σ} (hrun : run step s es = some s')
    (hs : I s) (hstep : ∀ s, ∀ e ∈ es, ∀ s', I s → step s e = some s' → I s') : I s' := by
  induction es generalizing s with
  | nil =>
    cases hrun
    exact hs
  | cons e es ih =>
    obtain ⟨s₁, he, hrest⟩ := Option.bind_eq_some_iff.mp hrun
    exact ih hrest (hstep s e (.head _) s₁ hs he) fun s e' he' => hstep s e' (.tail _ he')

/-- The guard holds at every event of the list, each in the state it is taken in. -/
def Guarded (step : σ → ε → Option σ) (guard : σ → ε → Prop) (s : σ) : List ε → Prop
  | [] => True
  | e :: es => guard s e ∧ ∀ s' ∈ step s e, Guarded step guard s' es

/-- A run whose events meet the guard is defined, where every guarded step is. -/
theorem exists_run {I : σ → Prop} {es : List ε} (hs : I s) (hguard : Guarded step guard s es)
    (hstep : ∀ {s} {e}, I s → guard s e → ∃ s', step s e = some s' ∧ I s') :
    ∃ s', run step s es = some s' ∧ I s' := by
  induction es generalizing s with
  | nil => exact ⟨s, rfl, hs⟩
  | cons e es ih =>
    obtain ⟨s₁, he, hs₁⟩ := hstep hs hguard.1
    obtain ⟨s', hrun, hs'⟩ := ih hs₁ (hguard.2 s₁ he)
    exact ⟨s', by rw [run, he, Option.bind_some, hrun], hs'⟩

instance decidableGuarded [∀ s e, Decidable (guard s e)] :
    ∀ (es : List ε) (s : σ), Decidable (Guarded step guard s es)
  | [], _ => .isTrue trivial
  | e :: es, s =>
    have : ∀ s', Decidable (Guarded step guard s' es) := decidableGuarded es
    inferInstanceAs (Decidable (guard s e ∧ ∀ s' ∈ step s e, Guarded step guard s' es))

theorem Reached.of_run {es : List ε} {s' : σ} (h : Reached step guard init s)
    (hguard : Guarded step guard s es) (hrun : run step s es = some s') :
    Reached step guard init s' := by
  induction es generalizing s with
  | nil =>
    cases hrun
    exact h
  | cons e es ih =>
    obtain ⟨s₁, hs, hrest⟩ := Option.bind_eq_some_iff.mp hrun
    exact ih (h.step hguard.1 hs) (hguard.2 s₁ hs) hrest

end TorDaemon.Library.Reachability

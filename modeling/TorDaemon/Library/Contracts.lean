import Mathlib.Data.List.Basic

/-! Contracts of programs whose state survives a failure: what holds where a program returns and
what holds where it stops on the way. -/
namespace TorDaemon.Library.Contracts

variable {ε σ α β : Type}

/-- From a state with `P`, the program returns with `Q` or stops with `E`. -/
def Meets (P : σ → Prop) (x : EStateM ε σ α) (Q : α → σ → Prop) (E : σ → Prop) : Prop :=
  ∀ s, P s → match x s with
    | .ok a s' => Q a s'
    | .error _ s' => E s'

variable {P P' : σ → Prop} {x : EStateM ε σ α} {Q Q' : α → σ → Prop} {R : β → σ → Prop}
  {E : σ → Prop}

theorem Meets.weaken (h : Meets P x Q E) (hP : ∀ s, P' s → P s) (hQ : ∀ a s, Q a s → Q' a s) :
    Meets P' x Q' E := by
  intro s hs
  have hx := h s (hP s hs)
  cases hr : x s with
  | ok a s' =>
    rw [hr] at hx
    exact hQ a s' hx
  | error e s' =>
    rw [hr] at hx
    exact hx

theorem Meets.before (h : Meets P x Q E) (hP : ∀ s, P' s → P s) : Meets P' x Q E :=
  h.weaken hP (fun _ _ hQ => hQ)

theorem Meets.after (h : Meets P x Q E) (hQ : ∀ a s, Q a s → Q' a s) : Meets P x Q' E :=
  h.weaken (fun _ hP => hP) hQ

theorem meets_pure {a : α} (h : ∀ s, P s → Q a s) : Meets P (pure a : EStateM ε σ α) Q E := h

theorem Meets.bind {f : α → EStateM ε σ β} (hx : Meets P x Q E) (hf : ∀ a, Meets (Q a) (f a) R E) :
    Meets P (x >>= f) R E := by
  intro s hs
  have h := hx s hs
  change match EStateM.bind x f s with
    | .ok b s' => R b s'
    | .error _ s' => E s'
  unfold EStateM.bind
  cases hr : x s with
  | ok a s' =>
    rw [hr] at h
    exact hf a s' h
  | error e s' =>
    rw [hr] at h
    exact h

theorem meets_ite {c : Prop} [Decidable c] {y : EStateM ε σ α}
    (hx : c → Meets P x Q E) (hy : ¬c → Meets P y Q E) : Meets P (if c then x else y) Q E := by
  by_cases h : c
  · rw [if_pos h]
    exact hx h
  · rw [if_neg h]
    exact hy h

theorem meets_modify {f : σ → σ} (h : ∀ s, P s → P' (f s)) :
    Meets P (modify f : EStateM ε σ PUnit) (fun _ => P') E := h

theorem meets_get {F : σ → σ → Prop} (h : ∀ s, P s → F s s) : Meets P (get : EStateM ε σ σ) F E := h

/-- What every round of a loop keeps. -/
theorem meets_forM {I : σ → Prop} {ι : Type} {body : ι → EStateM ε σ PUnit}
    (h : ∀ i, Meets I (body i) (fun _ => I) E) (is : List ι) :
    Meets I (is.forM body) (fun _ => I) E := by
  induction is with
  | nil => exact meets_pure fun _ hs => hs
  | cons i is ih => exact (h i).bind fun _ => ih

end TorDaemon.Library.Contracts

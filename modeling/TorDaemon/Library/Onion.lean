import Mathlib.Data.Nat.Notation

/-! Bytes under a keystream: adding it twice changes nothing. -/
namespace TorDaemon.Library.Keystream
variable {n : ℕ}

def xorBytes (out inp : Vector UInt8 n) : Vector UInt8 n := Vector.zipWith (· ^^^ ·) out inp

theorem xorBytes_xorBytes (out inp : Vector UInt8 n) : xorBytes (xorBytes out inp) inp = out := by
  ext i hi
  simp [xorBytes, UInt8.xor_assoc]

/-- Some of the bytes. -/
def slice {m : ℕ} (bytes : Vector UInt8 m) (offset n : ℕ) (h : offset + n ≤ m) : Vector UInt8 n :=
  Vector.ofFn fun i => bytes[offset + i]

end TorDaemon.Library.Keystream

/-! One layer of an onion: what a sender puts on, its receiver takes off, in the same order. -/
namespace TorDaemon.Library.Onion
variable {σ ρ μ τ : Type*}

/-- The two ends of a layer. A message that the receiver takes to be its own has a tag. -/
structure Layer (σ ρ μ τ : Type*) where
  originate : σ → μ → σ × μ × τ
  pass : σ → μ → σ × μ
  receive : ρ → μ → ρ × μ × Option τ

/-- A message between the two ends, with the tag of one that was originated here. -/
structure Entry (μ τ : Type*) where
  inner : μ
  outer : μ
  tag : Option τ

/-- The sender's step for a message. -/
def Layer.Emits (layer : Layer σ ρ μ τ) (Legal : μ → Prop) (s : σ) (e : Entry μ τ) (s' : σ) :
    Prop :=
  match e.tag with
  | some tag => Legal e.inner ∧ layer.originate s e.inner = (s', e.outer, tag)
  | none => layer.pass s e.inner = (s', e.outer)

/-- The receiver makes of every message what it should, and the ends stay in step. -/
structure Sound (layer : Layer σ ρ μ τ) (Legal : μ → Prop) (Sync : σ → ρ → Prop) : Prop where
  originated : ∀ s r m s' outer tag, Sync s r → Legal m →
    layer.originate s m = (s', outer, tag) →
    ∃ r', layer.receive r outer = (r', m, some tag) ∧ Sync s' r'
  passed : ∀ s r m s' outer, Sync s r → layer.pass s m = (s', outer) →
    (layer.receive r outer).2.2 = none →
    ∃ r', layer.receive r outer = (r', m, none) ∧ Sync s' r'

/-- The sender's steps for messages in order. -/
def Sends (layer : Layer σ ρ μ τ) (Legal : μ → Prop) : σ → List (Entry μ τ) → σ → Prop
  | s, [], s' => s = s'
  | s, e :: es, s' => ∃ s₁, layer.Emits Legal s e s₁ ∧ Sends layer Legal s₁ es s'

/-- The receiver is behind the sender by these messages. -/
def Behind (layer : Layer σ ρ μ τ) (Legal : μ → Prop) (Sync : σ → ρ → Prop)
    (es : List (Entry μ τ)) (s : σ) (r : ρ) : Prop :=
  ∃ s₀, Sync s₀ r ∧ Sends layer Legal s₀ es s

variable {layer : Layer σ ρ μ τ} {Legal : μ → Prop} {Sync : σ → ρ → Prop}
  {es : List (Entry μ τ)} {e : Entry μ τ} {s s' : σ} {r : ρ}

theorem Sends.append (hsends : Sends layer Legal s es s') {s'' : σ}
    (hemits : layer.Emits Legal s' e s'') : Sends layer Legal s (es ++ [e]) s'' := by
  induction es generalizing s with
  | nil =>
    cases hsends
    exact ⟨s'', hemits, rfl⟩
  | cons e' es ih =>
    obtain ⟨s₁, hfirst, hrest⟩ := hsends
    exact ⟨s₁, hfirst, ih hrest⟩

theorem Behind.refl (h : Sync s r) : Behind layer Legal Sync [] s r := ⟨s, h, rfl⟩

/-- The sender goes on. -/
theorem Behind.push (h : Behind layer Legal Sync es s r) (hemits : layer.Emits Legal s e s') :
    Behind layer Legal Sync (es ++ [e]) s' r := by
  obtain ⟨s₀, hsync, hsends⟩ := h
  exact ⟨s₀, hsync, hsends.append hemits⟩

/-- The receiver takes the oldest message: it is its own just when it was originated here. -/
theorem Behind.pop (hsound : Sound layer Legal Sync) (h : Behind layer Legal Sync (e :: es) s r)
    (hother : e.tag = none → (layer.receive r e.outer).2.2 = none) :
    ∃ r', layer.receive r e.outer = (r', e.inner, e.tag) ∧ Behind layer Legal Sync es s r' := by
  obtain ⟨s₀, hsync, s₁, hemits, hsends⟩ := h
  unfold Layer.Emits at hemits
  cases htag : e.tag with
  | some tag =>
    rw [htag] at hemits
    obtain ⟨hlegal, horiginate⟩ := hemits
    obtain ⟨r', hreceive, hsync'⟩ :=
      hsound.originated s₀ r e.inner s₁ e.outer tag hsync hlegal horiginate
    exact ⟨r', hreceive, s₁, hsync', hsends⟩
  | none =>
    rw [htag] at hemits
    obtain ⟨r', hreceive, hsync'⟩ :=
      hsound.passed s₀ r e.inner s₁ e.outer hsync hemits (hother htag)
    exact ⟨r', hreceive, s₁, hsync', hsends⟩

end TorDaemon.Library.Onion

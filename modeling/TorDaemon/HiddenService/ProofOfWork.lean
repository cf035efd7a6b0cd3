import TorDaemon.HiddenService.HsdirIndex

/-! The proof-of-work seeds of an onion service and the replay cache for solutions
(`hs_pow.c`, `hs_service.c`). BLAKE2b and Equi-X are parameters. -/
namespace TorDaemon.HiddenService.Pow
open Library.NetworkOrder Library.Reachability SharedRandom

abbrev Nonce := { bytes : Bytes // bytes.length = 16 }
abbrev Seed := { bytes : Bytes // bytes.length = 32 }
abbrev SeedHead := { bytes : Bytes // bytes.length = 4 }

/-- The first `HS_POW_SEED_HEAD_LEN` bytes. -/
def seedHead (seed : Seed) : SeedHead := ⟨seed.val.take 4, by simp [seed.property]⟩

/-- The seeds of `hs_pow_service_state_t`. -/
structure ServiceState where
  seedCurrent : Seed
  seedPrevious : Seed
  deriving DecidableEq

structure NonceCacheEntry where
  nonce : Nonce
  seedHead : SeedHead
  deriving DecidableEq

structure Solution where
  nonce : Nonce
  effort : ℕ
  seedHead : SeedHead
  equixSolution : Bytes

/-- The service's state, if the defenses are initialized, and the replay cache. -/
structure State where
  powState : Option ServiceState
  nonceCache : List NonceCacheEntry
  deriving DecidableEq

def State.start : State := ⟨none, []⟩

/-- The hash with its output of `HS_POW_HASH_LEN` bytes, and `equix_verify`. -/
structure Primitives where
  blake2b : Bytes → { bytes : Bytes // bytes.length = 4 }
  equixVerify : Bytes → List ℕ → Bool

section Verification
variable (prim : Primitives)

def buildEquixChallenge (blindedId : Ed25519PublicKey) (seed : Seed) (nonce : Nonce)
    (effort : ℕ) : Bytes :=
  ascii "Tor hs intro v1" ++ [0] ++ blindedId.val ++ seed.val ++ nonce.val ++ bigEndian 4 effort

def validateEquixChallenge (challenge solutionBytes : Bytes) (effort : ℕ) : Bool :=
  ofBigEndian (prim.blake2b (challenge ++ solutionBytes)).val * effort ≤ 2 ^ 32 - 1

/-- The indices of a solution, each from two bytes, the low one first. -/
def unpackEquixSolution : Bytes → List ℕ
  | lo :: hi :: rest => (lo.toNat + 256 * hi.toNat) :: unpackEquixSolution rest
  | _ => []

/-- The seed that starts with the head of the solution; the current one is tried first. -/
def findSeed (powState : ServiceState) (head : SeedHead) : Option Seed :=
  if seedHead powState.seedCurrent = head then some powState.seedCurrent
  else if seedHead powState.seedPrevious = head then some powState.seedPrevious
  else none

/-- `hs_pow_verify`, and the cache after it. `allocated` says whether `equix_alloc` gives
a context. -/
def hsPowVerify (blindedId : Ed25519PublicKey) (allocated : Bool) (powState : ServiceState)
    (cache : List NonceCacheEntry) (sol : Solution) : Bool × List NonceCacheEntry :=
  match findSeed powState sol.seedHead with
  | none => (false, cache)
  | some seed =>
    let entry : NonceCacheEntry := ⟨sol.nonce, sol.seedHead⟩
    if entry ∈ cache then (false, cache)
    else
      let challenge := buildEquixChallenge blindedId seed sol.nonce sol.effort
      if !validateEquixChallenge prim challenge sol.equixSolution sol.effort then (false, cache)
      else if !allocated then (false, cache)
      else if !prim.equixVerify challenge (unpackEquixSolution sol.equixSolution) then
        (false, cache)
      else (true, entry :: cache)

end Verification

/-- `hs_pow_remove_seed_from_cache`, for the head of a seed. -/
def hsPowRemoveSeedFromCache (head : SeedHead) (cache : List NonceCacheEntry) :
    List NonceCacheEntry :=
  cache.filter fun e => e.seedHead ≠ head

/-- `rotate_pow_seeds`. The bytes that `crypto_rand` returns are drawn until the heads
differ; a list that ends before is a loop that does not. -/
def rotatePowSeeds (draws : List Seed) (powState : ServiceState) (cache : List NonceCacheEntry) :
    Option State :=
  (draws.find? fun seed => seedHead seed ≠ seedHead powState.seedCurrent).map fun seed =>
    { powState := some ⟨seed, powState.seedCurrent⟩
      nonceCache := hsPowRemoveSeedFromCache (seedHead powState.seedPrevious) cache }

inductive Event
  | initializePowDefenses (current previous : Seed)
  | rotate (draws : List Seed)
  | verify (blindedId : Ed25519PublicKey) (allocated : Bool) (sol : Solution)

def step (prim : Primitives) (st : State) : Event → Option State
  | .initializePowDefenses current previous => some { st with powState := some ⟨current, previous⟩ }
  | .rotate draws => st.powState.bind fun p => rotatePowSeeds draws p st.nonceCache
  | .verify blindedId allocated sol => st.powState.map fun p =>
    { st with nonceCache := (hsPowVerify prim blindedId allocated p st.nonceCache sol).2 }

/-- The solution is accepted, against this seed. -/
def Accepts (prim : Primitives) (st : State) (blindedId : Ed25519PublicKey) (allocated : Bool)
    (sol : Solution) (seed : Seed) : Prop :=
  ∃ p, st.powState = some p ∧ findSeed p sol.seedHead = some seed ∧
    (hsPowVerify prim blindedId allocated p st.nonceCache sol).1 = true

/-- The seed is the current or the previous one. -/
def Uses (seed : Seed) (st : State) : Prop :=
  ∃ p, st.powState = some p ∧ (seed = p.seedCurrent ∨ seed = p.seedPrevious)

/-- The two seeds of an initialization have different heads, and a rotation does not draw
the seed that it drops. -/
def DistinctDraws (st : State) : Event → Prop
  | .initializePowDefenses current previous => seedHead current ≠ seedHead previous
  | .rotate draws => ∀ p ∈ st.powState, ∀ seed ∈ draws.find? fun seed =>
      seedHead seed ≠ seedHead p.seedCurrent, seed ≠ p.seedPrevious
  | .verify .. => True

/-- The invariant: the heads tell the seeds apart. -/
def DistinctHeads (st : State) : Prop :=
  ∀ p ∈ st.powState, seedHead p.seedCurrent ≠ seedHead p.seedPrevious

theorem DistinctHeads.uses_unique {st : State} {seed other : Seed} (h : DistinctHeads st)
    (hother : Uses other st) (hseed : Uses seed st) (heq : seedHead other = seedHead seed) :
    other = seed := by
  obtain ⟨p, hp, hother⟩ := hother
  obtain ⟨p', hp', hseed⟩ := hseed
  cases hp.symm.trans hp'
  have hheads := h p hp
  rcases hother with rfl | rfl <;> rcases hseed with rfl | rfl
  · rfl
  · exact absurd heq hheads
  · exact absurd heq.symm hheads
  · rfl

section Runs
variable {prim : Primitives} {st st' : State} {e : Event} {seed : Seed} {nonce : Nonce}
  {cache : List NonceCacheEntry}

theorem step_distinctHeads (h : DistinctHeads st) (hguard : DistinctDraws st e)
    (hstep : step prim st e = some st') : DistinctHeads st' := by
  cases e with
  | initializePowDefenses current previous =>
    cases hstep
    intro p hp
    cases hp
    exact hguard
  | rotate draws =>
    obtain ⟨p, -, hrotate⟩ := Option.bind_eq_some_iff.mp hstep
    obtain ⟨drawn, hdrawn, rfl⟩ := Option.map_eq_some_iff.mp hrotate
    intro p' hp'
    cases hp'
    simpa using List.find?_some hdrawn
  | verify blindedId allocated sol =>
    obtain ⟨p, hp, rfl⟩ := Option.map_eq_some_iff.mp hstep
    exact h

theorem hsPowVerify_subset (prim : Primitives) (blindedId : Ed25519PublicKey)
    (allocated : Bool) (p : ServiceState) (sol : Solution) :
    cache ⊆ (hsPowVerify prim blindedId allocated p cache sol).2 := by
  unfold hsPowVerify
  split
  · exact List.Subset.refl _
  · dsimp only
    split_ifs
    all_goals first | exact List.Subset.refl _ | exact List.subset_cons_self _ _

theorem hsPowVerify_accepts {blindedId : Ed25519PublicKey} {allocated : Bool}
    {p : ServiceState} {sol : Solution}
    (h : (hsPowVerify prim blindedId allocated p cache sol).1 = true) :
    ⟨sol.nonce, sol.seedHead⟩ ∉ cache ∧
      ⟨sol.nonce, sol.seedHead⟩ ∈ (hsPowVerify prim blindedId allocated p cache sol).2 := by
  unfold hsPowVerify at h ⊢
  cases hfind : findSeed p sol.seedHead with
  | none => simp [hfind] at h
  | some seed =>
    simp only [hfind] at h ⊢
    split_ifs at h ⊢ with hmem
    exact ⟨hmem, List.mem_cons_self ..⟩

theorem findSeed_some {p : ServiceState} {head : SeedHead} (h : findSeed p head = some seed) :
    (seed = p.seedCurrent ∨ seed = p.seedPrevious) ∧ seedHead seed = head := by
  unfold findSeed at h
  split_ifs at h with hcurrent hprevious
  · cases h
    exact ⟨.inl rfl, hcurrent⟩
  · cases h
    exact ⟨.inr rfl, hprevious⟩

/-- A seed that stays in use keeps its entries. -/
theorem step_cached (h : DistinctHeads st) (hguard : DistinctDraws st e) (huses : Uses seed st)
    (huses' : Uses seed st') (hcached : ⟨nonce, seedHead seed⟩ ∈ st.nonceCache)
    (hstep : step prim st e = some st') : ⟨nonce, seedHead seed⟩ ∈ st'.nonceCache := by
  cases e with
  | initializePowDefenses current previous =>
    cases hstep
    exact hcached
  | rotate draws =>
    obtain ⟨p, hp, hrotate⟩ := Option.bind_eq_some_iff.mp hstep
    obtain ⟨drawn, hdrawn, rfl⟩ := Option.map_eq_some_iff.mp hrotate
    obtain ⟨p₀, hp₀, hseed⟩ := huses
    cases hp.symm.trans hp₀
    obtain ⟨p', hp', hseed'⟩ := huses'
    cases hp'
    have hheads := h p hp
    have hdropped := hguard p hp drawn hdrawn
    -- the dropped seed is neither of the two seeds after the rotation
    have hcurrent : seed = p.seedCurrent := by
      rcases hseed with hcurrent | hprevious
      · exact hcurrent
      · rcases hseed' with hdraw | hcurrent
        · exact absurd (hdraw.symm.trans hprevious) hdropped
        · exact hcurrent
    exact List.mem_filter.mpr ⟨hcached, by simpa [hcurrent] using hheads⟩
  | verify blindedId allocated sol =>
    obtain ⟨p, hp, rfl⟩ := Option.map_eq_some_iff.mp hstep
    exact hsPowVerify_subset _ _ _ _ _ hcached

theorem Accepts.spec {blindedId : Ed25519PublicKey} {allocated : Bool} {sol : Solution}
    (h : Accepts prim st blindedId allocated sol seed) :
    Uses seed st ∧ sol.seedHead = seedHead seed ∧ ⟨sol.nonce, seedHead seed⟩ ∉ st.nonceCache ∧
      ∀ st', step prim st (.verify blindedId allocated sol) = some st' →
        ⟨sol.nonce, seedHead seed⟩ ∈ st'.nonceCache := by
  obtain ⟨p, hp, hfind, haccept⟩ := h
  obtain ⟨hseed, hhead⟩ := findSeed_some hfind
  obtain ⟨hnew, hadded⟩ := hsPowVerify_accepts haccept
  rw [← hhead] at hnew hadded
  refine ⟨⟨p, hp, hseed⟩, hhead.symm, hnew, ?_⟩
  intro st' hstep
  rw [step, hp] at hstep
  cases hstep
  exact hadded

theorem run_cached {es : List Event} (h : DistinctHeads st)
    (hcached : ⟨nonce, seedHead seed⟩ ∈ st.nonceCache)
    (hguard : Guarded (step prim) (fun s e => DistinctDraws s e ∧ Uses seed s) st es)
    (hrun : run (step prim) st es = some st') (huses : Uses seed st') :
    ⟨nonce, seedHead seed⟩ ∈ st'.nonceCache := by
  induction es generalizing st with
  | nil =>
    cases hrun
    exact hcached
  | cons e es ih =>
    obtain ⟨st₁, hstep, hrest⟩ := Option.bind_eq_some_iff.mp hrun
    have hguard' := hguard.2 st₁ hstep
    have huses₁ : Uses seed st₁ := by
      cases es with
      | nil =>
        cases hrest
        exact huses
      | cons e' es => exact hguard'.1.2
    have hcached₁ := step_cached h hguard.1.1 hguard.1.2 huses₁ hcached hstep
    exact ih (step_distinctHeads h hguard.1.1 hstep) hcached₁ hguard' hrest

theorem run_distinctHeads {es : List Event} (h : DistinctHeads st)
    (hguard : Guarded (step prim) DistinctDraws st es) (hrun : run (step prim) st es = some st') :
    DistinctHeads st' :=
  (Reached.of_run .init hguard hrun).invariant h fun _ _ _ => step_distinctHeads

/-- The head selects the seed that a solution is verified against, and while that seed is
in use no solution with the same nonce is accepted against it again. -/
theorem pow_no_replay (prim : Primitives) (es₀ : List Event) (st : State)
    (blindedId : Ed25519PublicKey) (allocated : Bool) (sol : Solution) (seed : Seed)
    (hguard : Guarded (step prim) DistinctDraws State.start es₀)
    (hrun : run (step prim) State.start es₀ = some st)
    (haccept : Accepts prim st blindedId allocated sol seed) :
    (Uses seed st ∧ seedHead seed = sol.seedHead ∧
      ∀ other, Uses other st → seedHead other = sol.seedHead → other = seed) ∧
    ∀ es st₁ st₂, step prim st (.verify blindedId allocated sol) = some st₁ →
      Guarded (step prim) (fun s e => DistinctDraws s e ∧ Uses seed s) st₁ es →
      run (step prim) st₁ es = some st₂ →
      ∀ blindedId' allocated' sol', Accepts prim st₂ blindedId' allocated' sol' seed →
        sol'.nonce ≠ sol.nonce := by
  have hstart : DistinctHeads State.start := by
    intro p hp
    cases hp
  have hheads := run_distinctHeads hstart hguard hrun
  obtain ⟨huses, hhead, -, hadded⟩ := haccept.spec
  refine ⟨⟨huses, hhead.symm, ?_⟩, ?_⟩
  · intro other hother heq
    exact hheads.uses_unique hother huses (heq.trans hhead)
  · intro es st₁ st₂ hstep hkept hrest blindedId' allocated' sol' haccept' hnonce
    obtain ⟨huses', -, hnew, -⟩ := haccept'.spec
    have hheads₁ := step_distinctHeads (e := .verify blindedId allocated sol) hheads trivial hstep
    have hcached := run_cached hheads₁ (hadded st₁ hstep) hkept hrest huses'
    exact hnew (hnonce ▸ hcached)

end Runs

instance {st : State} : (e : Event) → Decidable (DistinctDraws st e)
  | .initializePowDefenses current previous =>
    inferInstanceAs (Decidable (seedHead current ≠ seedHead previous))
  | .rotate draws => inferInstanceAs (Decidable (∀ p ∈ st.powState, ∀ seed ∈ draws.find? fun seed =>
      seedHead seed ≠ seedHead p.seedCurrent, seed ≠ p.seedPrevious))
  | .verify .. => .isTrue trivial

/-- A seed with one byte repeated, but for the last. -/
def plainSeed (b last : UInt8) : Seed := ⟨List.replicate 31 b ++ [last], by simp⟩

def plainNonce : Nonce := ⟨List.replicate 16 0, rfl⟩

def plainKey : Ed25519PublicKey := Digest256.replicate 9

/-- A hash that meets every effort, and a verification that accepts. -/
def lenient : Primitives where
  blake2b _ := ⟨List.replicate 4 0, by simp⟩
  equixVerify _ _ := true

def plainSolution (seed : Seed) : Solution := ⟨plainNonce, 1, seedHead seed, List.replicate 16 0⟩

/-- The seed that a rotation has drawn is the previous one after the next; a solution with another
nonce is still accepted against it. -/
theorem pow_no_replay_rotated : ∃ st st₂,
    run (step lenient) State.start [.initializePowDefenses (plainSeed 1 1) (plainSeed 2 2),
      .rotate [plainSeed 3 3]] = some st ∧
    Accepts lenient st plainKey true (plainSolution (plainSeed 3 3)) (plainSeed 3 3) ∧
    (∀ other, Uses other st → seedHead other = seedHead (plainSeed 3 3) → other = plainSeed 3 3) ∧
    run (step lenient) st [.verify plainKey true (plainSolution (plainSeed 3 3)),
      .rotate [plainSeed 4 4]] = some st₂ ∧
    Accepts lenient st₂ plainKey true
      { plainSolution (plainSeed 3 3) with nonce := ⟨List.replicate 16 1, rfl⟩ } (plainSeed 3 3) ∧
    ∀ blindedId allocated,
      ¬ Accepts lenient st₂ blindedId allocated (plainSolution (plainSeed 3 3)) (plainSeed 3 3) := by
  have haccept : Accepts lenient ⟨some ⟨plainSeed 3 3, plainSeed 1 1⟩, []⟩ plainKey true
      (plainSolution (plainSeed 3 3)) (plainSeed 3 3) := ⟨_, rfl, by decide, by decide⟩
  obtain ⟨⟨-, -, hunique⟩, hreplay⟩ := pow_no_replay lenient
    [.initializePowDefenses (plainSeed 1 1) (plainSeed 2 2), .rotate [plainSeed 3 3]] _ plainKey true
    _ _ (by decide) (by decide) haccept
  refine ⟨_, ⟨some ⟨plainSeed 4 4, plainSeed 3 3⟩, [⟨plainNonce, seedHead (plainSeed 3 3)⟩]⟩,
    by decide, haccept, hunique, by decide, ⟨_, rfl, by decide, by decide⟩, ?_⟩
  intro blindedId allocated hagain
  refine hreplay [.rotate [plainSeed 4 4]] _ _ rfl ?_ (by decide) blindedId allocated _ hagain rfl
  exact ⟨⟨by decide, _, rfl, .inl rfl⟩, fun _ _ => trivial⟩

/-- Both seeds of the initialization have one head. The rotation scrubs the previous
seed's entries, and with them those of the current seed, which stays in use. -/
theorem pow_replay :
    ¬ ∀ (prim : Primitives) (es₀ : List Event) (st : State) (blindedId : Ed25519PublicKey)
      (allocated : Bool) (sol : Solution) (seed : Seed),
      run (step prim) State.start es₀ = some st → Accepts prim st blindedId allocated sol seed →
      ∀ es st₁ st₂, step prim st (.verify blindedId allocated sol) = some st₁ →
        Guarded (step prim) (fun s _ => Uses seed s) st₁ es →
        run (step prim) st₁ es = some st₂ →
        ∀ blindedId' allocated' sol', Accepts prim st₂ blindedId' allocated' sol' seed →
          sol'.nonce ≠ sol.nonce := by
  intro h
  have hkept : Guarded (step lenient) (fun s _ => Uses (plainSeed 1 1) s)
      ⟨some ⟨plainSeed 1 1, plainSeed 1 2⟩, [⟨plainNonce, seedHead (plainSeed 1 1)⟩]⟩
      [.rotate [plainSeed 3 3]] :=
    ⟨⟨_, rfl, .inl rfl⟩, fun _ _ => trivial⟩
  exact h lenient [.initializePowDefenses (plainSeed 1 1) (plainSeed 1 2)] _ plainKey true
    (plainSolution (plainSeed 1 1)) (plainSeed 1 1) rfl ⟨_, rfl, by decide, by decide⟩
    [.rotate [plainSeed 3 3]] _ ⟨some ⟨plainSeed 3 3, plainSeed 1 1⟩, []⟩ rfl hkept
    (by decide) plainKey true (plainSolution (plainSeed 1 1)) ⟨_, rfl, by decide, by decide⟩ rfl

end TorDaemon.HiddenService.Pow

import TorDaemon.Client.GuardPrimary

/-! Every operation keeps the three lists of guards as they should be. -/
namespace TorDaemon.Client.Entrynodes
open Library.NetworkOrder Library.Reachability Library.Sorting SharedRandom

/-! ### Removal -/

/-- The guard is in none of the lists, and nothing is said of its cell. -/
structure Removed (g : GuardId) (gs gs' : GuardSelection) : Prop where
  type : gs'.type = gs.type
  sampled : gs'.sampledEntryGuards = gs.sampledEntryGuards.erase g
  confirmed : gs'.confirmedEntryGuards = gs.confirmedEntryGuards.filter fun c => c ≠ g
  primary : gs'.primaryEntryGuards = gs.primaryEntryGuards.filter fun p => p ≠ g
  nextConfirmedIdx : gs'.nextConfirmedIdx = gs.nextConfirmedIdx
  nextSampledIdx : gs'.nextSampledIdx = gs.nextSampledIdx
  nextGuard : gs'.nextGuard = gs.nextGuard
  heap : ∀ g', g' ≠ g → gs'.heap g' = gs.heap g'
  live : ∀ g', g' ≠ g → gs'.live g' = gs.live g'

section Removal
variable {gs gs' : GuardSelection} {g : GuardId} {n : ℕ}

theorem removeGuard_spec (g : GuardId) (gs : GuardSelection) : Removed g gs (removeGuard g gs) := by
  unfold removeGuard removeGuardFromConfirmedAndPrimaryLists
  dsimp only
  split_ifs <;>
    exact ⟨rfl, rfl, rfl, rfl, rfl, rfl, rfl,
      fun g' hne => by simp [setPrimary, GuardSelection.modify, hne],
      fun g' hne => by simp [setPrimary, GuardSelection.modify, hne]⟩

theorem Removed.inv (h : Removed g gs gs') (hinv : Inv n gs) : Inv n gs' := by
  have hs := hinv.sample
  have hmem : ∀ g', g' ∈ gs'.sampledEntryGuards ↔ g' ≠ g ∧ g' ∈ gs.sampledEntryGuards := by
    intro g'
    rw [h.sampled, hs.nodup.mem_erase_iff]
  have hconfirmed : ∀ g', g' ∈ gs'.confirmedEntryGuards ↔
      g' ∈ gs.confirmedEntryGuards ∧ g' ≠ g := by
    intro g'
    rw [h.confirmed, List.mem_filter, decide_eq_true_eq]
  have hprimary : ∀ g', g' ∈ gs'.primaryEntryGuards ↔ g' ∈ gs.primaryEntryGuards ∧ g' ≠ g := by
    intro g'
    rw [h.primary, List.mem_filter, decide_eq_true_eq]
  have hheap : ∀ g' ∈ gs'.sampledEntryGuards, gs'.heap g' = gs.heap g' :=
    fun g' hg' => h.heap g' ((hmem g').mp hg').1
  have hcheap : ∀ g' ∈ gs'.confirmedEntryGuards, gs'.heap g' = gs.heap g' :=
    fun g' hg' => h.heap g' ((hconfirmed g').mp hg').2
  refine ⟨?_, ⟨?_, ?_, ?_⟩, ?_⟩
  · constructor
    · rw [h.sampled]
      exact hs.nodup.erase g
    · intro g' hg'
      rw [h.live g' ((hmem g').mp hg').1]
      exact hs.live g' ((hmem g').mp hg').2
    · intro g' hg'
      rw [h.nextGuard]
      exact hs.fresh g' ((hmem g').mp hg').2
    · intro htype g₁ hg₁ g₂ hg₂ heq
      rw [hheap g₁ hg₁, hheap g₂ hg₂] at heq
      exact hs.identities (h.type ▸ htype) g₁ ((hmem g₁).mp hg₁).2 g₂ ((hmem g₂).mp hg₂).2 heq
    · intro g' hg'
      rw [hheap g' hg', h.nextSampledIdx]
      exact hs.sampledIdx_lt g' ((hmem g').mp hg').2
    · intro g₁ hg₁ g₂ hg₂ heq
      rw [hheap g₁ hg₁, hheap g₂ hg₂] at heq
      exact hs.sampledIdx_injective g₁ ((hmem g₁).mp hg₁).2 g₂ ((hmem g₂).mp hg₂).2 heq
    · intro g'
      rw [hconfirmed, hmem, hs.confirmed_iff]
      by_cases hne : g' = g
      · simp [hne]
      · simp [hne, h.heap g' hne]
    · rw [h.confirmed]
      apply (hs.confirmed_sorted.filter _).imp_of_mem
      intro g₁ g₂ hg₁ hg₂ hlt
      rw [← h.confirmed] at hg₁ hg₂
      rwa [hcheap g₁ hg₁, hcheap g₂ hg₂]
    · intro g₁ hg₁ g₂ hg₂ heq
      rw [hcheap g₁ hg₁, hcheap g₂ hg₂] at heq
      exact hs.confirmedIdx_injective g₁ ((hconfirmed g₁).mp hg₁).1 g₂
        ((hconfirmed g₂).mp hg₂).1 heq
    · intro g' hg'
      rw [hcheap g' hg', h.nextConfirmedIdx]
      exact hs.confirmedIdx_lt g' ((hconfirmed g').mp hg').1
    · rw [h.nextConfirmedIdx]
      exact hs.nextConfirmedIdx_nonneg
  · rw [h.primary]
    exact hinv.marked.nodup.filter _
  · intro g' hg'
    obtain ⟨hold, hne⟩ := (hprimary g').mp hg'
    exact (hmem g').mpr ⟨hne, hinv.marked.sampled g' hold⟩
  · intro g' hg'
    obtain ⟨hne, hold⟩ := (hmem g').mp hg'
    rw [hheap g' hg', hinv.marked.mark g' hold, hprimary]
    simp [hne]
  · rw [h.primary]
    exact (List.length_filter_le _ _).trans hinv.length

theorem pruneObsolete_inv (h : Inv n gs) (t₁ t₂ t₃ : ℤ) :
    Inv n (sampledGuardsPruneObsoleteEntries t₁ t₂ t₃ gs).2 := by
  unfold sampledGuardsPruneObsoleteEntries
  generalize isObsolete t₁ t₂ t₃ = obsolete
  generalize 0 = changes
  generalize gs.sampledEntryGuards = guards
  induction guards generalizing changes gs with
  | nil => exact h
  | cons g guards ih =>
    rw [List.foldl_cons, pruneGuard]
    split
    · exact ih ((removeGuard_spec g gs).inv h) _
    · exact ih h _

end Removal

/-! ### Operations -/

section Operations
variable (env : Env) {gs : GuardSelection} {g : GuardId} {n : ℕ}

theorem updateConsensusPresence_keeps (h : Sample gs) (g : GuardId) :
    Keeps gs (gs.modify g fun _ => (updateConsensusPresence env gs g).2) := by
  unfold updateConsensusPresence
  dsimp only
  split_ifs <;> exact modify_keeps h rfl rfl rfl rfl

theorem consensusPresence_keeps (h : Sample gs) :
    Keeps gs (sampledGuardsUpdateConsensusPresence env gs).2 := by
  unfold sampledGuardsUpdateConsensusPresence
  generalize 0 = changes
  generalize gs.sampledEntryGuards = guards
  induction guards generalizing changes gs with
  | nil => exact .refl h
  | cons g guards ih =>
    have hg := updateConsensusPresence_keeps env h g
    exact hg.trans (ih hg.sample _)

section
variable (h : Inv n gs)
include h

theorem updateFromConsensus_inv :
    Inv n (sampledGuardsUpdateFromConsensus env gs) := by
  unfold sampledGuardsUpdateFromConsensus
  split
  · exact h
  · have hpruned := pruneObsolete_inv ((consensusPresence_keeps env h.sample).inv h)
      (env.now - env.removeUnlistedGuardsAfter) (env.now - env.guardLifetime)
      (env.now - env.guardConfirmedMinLifetime)
    dsimp only
    split
    · exact hpruned
    · have hflag := upToDate_keeps hpruned.sample false
      exact (hflag.trans (updateFilteredSets_keeps env hflag.sample)).inv hpruned

theorem updatePrimaryIfNeeded_inv (hn : env.nPrimaryGuards ≤ n) :
    Inv n (updatePrimaryIfNeeded env gs) := by
  unfold updatePrimaryIfNeeded
  split
  · exact h
  · exact updatePrimary_inv h hn

theorem markPrimary_inv (hn : env.nPrimaryGuards ≤ n) :
    Inv n (markPrimaryGuardsMaybeReachable env gs) := by
  have hupdated := updatePrimaryIfNeeded_inv env h hn
  refine (Keeps.foldl ?_ _ hupdated.sample).inv hupdated
  intro gs g h
  unfold markGuardMaybeReachable
  split
  · exact modify_keeps h rfl rfl rfl rfl
  · exact .refl h

theorem noteFailure_inv (g : GuardId) :
    Inv n (entryGuardsNoteGuardFailure env g gs) :=
  (modify_keeps h.sample rfl rfl rfl rfl).inv h

theorem noteSuccess_inv (hn : env.nPrimaryGuards ≤ n)
    (hg : g ∈ gs.sampledEntryGuards) (oldState : GuardCircState) :
    Inv n (entryGuardsNoteGuardSuccess env g oldState gs).2 := by
  unfold entryGuardsNoteGuardSuccess
  dsimp only
  set online : GuardSelection := { gs with lastTimeOnInternet := env.now }
  have honline : Keeps gs online := .of_frame h.sample
    ⟨rfl, rfl, rfl, rfl, rfl, rfl, rfl, fun _ => rfl, fun _ => rfl, fun _ => rfl⟩ (fun _ => rfl) rfl
  set reached := online.modify g fun guard =>
    { guard with
      isReachable := .yes
      failingSince := 0
      isPending := false
      isUsableFilteredGuard := guard.isFilteredGuard || guard.isUsableFilteredGuard }
  have hreached : Keeps gs reached := honline.trans (modify_keeps honline.sample rfl rfl rfl rfl)
  have hconfirmed : Inv n (if (reached.heap g).confirmedIdx < 0 then
      updatePrimaryIfNeeded env (makeGuardConfirmed env g reached) else reached) := by
    have hinv := hreached.inv h
    split
    · exact updatePrimaryIfNeeded_inv env (makeConfirmed_inv hinv (hreached.subset g hg)) hn
    · exact hinv
  revert hconfirmed
  generalize (if (reached.heap g).confirmedIdx < 0 then
    updatePrimaryIfNeeded env (makeGuardConfirmed env g reached) else reached) = confirmed
  intro hconfirmed
  split
  · exact markPrimary_inv env hconfirmed hn
  · exact hconfirmed

theorem apply_inv {op : Op} (hn : op.env.nPrimaryGuards ≤ n)
    (hguards : ∀ g ∈ op.guards, g ∈ gs.sampledEntryGuards) : Inv n (apply gs op) := by
  cases op with
  | expandSample env => exact (expandSample_keeps env h.sample).inv h
  | updateFromConsensus env => exact updateFromConsensus_inv env h
  | updateFilteredSets env => exact (updateFilteredSets_keeps env h.sample).inv h
  | updateConfirmed env => exact updateConfirmed_inv h
  | makeConfirmed env g => exact makeConfirmed_inv h (hguards g (List.mem_cons_self ..))
  | updatePrimary env => exact updatePrimary_inv h hn
  | noteSuccess env g oldState =>
    exact noteSuccess_inv env h hn (hguards g (List.mem_cons_self ..)) oldState
  | noteFailure env g => exact noteFailure_inv env h g

end

end Operations

/-! ### Runs -/

section Runs
variable {gs gs' : GuardSelection} {n : ℕ}

theorem guardSelectionNew_inv (type : SelectionType) (n : ℕ) :
    Inv n (guardSelectionNew type) := by
  refine ⟨?_, ⟨List.nodup_nil, by simp [guardSelectionNew], by simp [guardSelectionNew]⟩,
    Nat.zero_le _⟩
  constructor <;> simp [guardSelectionNew]

theorem step_inv {op : Op} (h : Inv n gs) (hn : op.env.nPrimaryGuards ≤ n)
    (hstep : step gs op = some gs') : Inv n gs' := by
  unfold step at hstep
  split at hstep
  · rename_i hguards
    dsimp only at hstep
    split at hstep
    · exact Option.some.inj hstep ▸ apply_inv h hn hguards
    · cases hstep
  · cases hstep

/-- The lists of a selection, with at most `n` primary guards. Bridges may have the same
identity, as that of some is not known. -/
structure WellListed (n : ℕ) (gs : GuardSelection) : Prop where
  identities : gs.type ≠ .bridge → ∀ g ∈ gs.sampledEntryGuards, ∀ g' ∈ gs.sampledEntryGuards,
    (gs.heap g).identity = (gs.heap g').identity → g = g'
  sampled_nodup : gs.sampledEntryGuards.Nodup
  confirmed_iff : ∀ g, g ∈ gs.confirmedEntryGuards ↔
    g ∈ gs.sampledEntryGuards ∧ 0 ≤ (gs.heap g).confirmedIdx
  confirmed_nodup : gs.confirmedEntryGuards.Nodup
  confirmed_sorted : gs.confirmedEntryGuards.Pairwise fun g g' =>
    (gs.heap g).sampledIdx < (gs.heap g').sampledIdx
  confirmedIdx_injective : ∀ g ∈ gs.confirmedEntryGuards, ∀ g' ∈ gs.confirmedEntryGuards,
    (gs.heap g).confirmedIdx = (gs.heap g').confirmedIdx → g = g'
  confirmedIdx_lt : ∀ g ∈ gs.confirmedEntryGuards, (gs.heap g).confirmedIdx < gs.nextConfirmedIdx
  primary_sampled : ∀ g ∈ gs.primaryEntryGuards, g ∈ gs.sampledEntryGuards
  primary_iff : ∀ g ∈ gs.sampledEntryGuards,
    (gs.heap g).isPrimary = true ↔ g ∈ gs.primaryEntryGuards
  primary_nodup : gs.primaryEntryGuards.Nodup
  primary_length : gs.primaryEntryGuards.length ≤ n
  live : ∀ g, g ∈ gs.sampledEntryGuards ∨ g ∈ gs.confirmedEntryGuards ∨
    g ∈ gs.primaryEntryGuards → gs.live g = true

theorem Inv.wellListed (h : Inv n gs) : WellListed n gs where
  identities := h.sample.identities
  sampled_nodup := h.sample.nodup
  confirmed_iff := h.sample.confirmed_iff
  confirmed_nodup := h.sample.confirmed_nodup
  confirmed_sorted := h.sample.confirmed_sorted
  confirmedIdx_injective := h.sample.confirmedIdx_injective
  confirmedIdx_lt := h.sample.confirmedIdx_lt
  primary_sampled := h.marked.sampled
  primary_iff := by
    intro g hg
    simpa using h.marked.mark g hg
  primary_nodup := h.marked.nodup
  primary_length := h.length
  live := by
    rintro g (hg | hg | hg)
    · exact h.sample.live g hg
    · exact h.sample.live g ((h.sample.confirmed_iff g).mp hg).1
    · exact h.sample.live g (h.marked.sampled g hg)

/-- In every run from an empty selection the lists are as they should be. -/
theorem guards_wellListed {type : SelectionType} {ops : List Op}
    (hn : ∀ op ∈ ops, op.env.nPrimaryGuards ≤ n)
    (hrun : run step (guardSelectionNew type) ops = some gs) : WellListed n gs := by
  have hinv : Inv n gs := run_invariant hrun (guardSelectionNew_inv type n)
    fun _ op hop _ h hstep => step_inv h (hn op hop) hstep
  exact hinv.wellListed

end Runs

section Examples

/-- A world in which the first of a list is chosen and nothing is filtered out. -/
def plainEnv (nodelist : List Node) (bridgeList : List BridgeInfo) : Env where
  now := 1000
  reasonablyLiveConsensus := true
  nodelist := nodelist
  bridgeList := bridgeList
  nodesInSameFamily _ _ := false
  enforceDistinctSubnets := false
  inSameNetwork _ _ := false
  isOutdatedDirserver _ := false
  falsePositive _ := false
  chooseNode := List.head?
  chooseNode_mem _ _ h := List.mem_of_head? h
  chooseBridge := List.head?
  chooseBridge_mem _ _ h := List.mem_of_head? h
  qsort key := stableQsort (compareBy key)
  minFilteredSampleSize := 3
  maxSampleByPct n := n
  maxSampleSizeAbsolute := 60
  nPrimaryGuards := 2
  randomizeTime _ := 900
  pathBiasDisabled _ := false
  removeUnlistedGuardsAfter := 500
  guardLifetime := 500
  guardConfirmedMinLifetime := 500
  internetLikelyDownInterval := 600

def exampleNode (n : UInt8) : Node := ⟨Digest.replicate n, true, true, true⟩

/-- Three nodes, and a consensus later on in which the first of them is missing. -/
def exampleOps : List Op :=
  let env := plainEnv [exampleNode 1, exampleNode 2, exampleNode 3] []
  [.expandSample env, .noteSuccess env 0 .usableOnCompletion, .noteFailure env 1, .updatePrimary env,
    .updateFromConsensus { plainEnv [exampleNode 2, exampleNode 3] [] with now := 2000 },
    .updateConfirmed env]

theorem guards_wellListed_three :
    ∃ gs, run step (guardSelectionNew .normal) exampleOps = some gs ∧ WellListed 2 gs := by
  have hn : ∀ op ∈ exampleOps, op.env.nPrimaryGuards ≤ 2 := by
    simp [exampleOps, Op.env, plainEnv]
  have hrun : ∃ gs, run step (guardSelectionNew .normal) exampleOps = some gs := ⟨_, rfl⟩
  cases hrun with
  | intro gs hgs => exact ⟨gs, hgs, guards_wellListed hn hgs⟩

/-- Two bridges whose fingerprints are not configured. -/
def exampleBridges : List BridgeInfo :=
  [⟨zeroDigest, ⟨[1], 443⟩, true⟩, ⟨zeroDigest, ⟨[2], 443⟩, true⟩]

theorem bridges_same_identity :
    ∃ gs, run step (guardSelectionNew .bridge) [.expandSample (plainEnv [] exampleBridges)] =
        some gs ∧ gs.sampledEntryGuards = [0, 1] ∧ (gs.heap 0).identity = (gs.heap 1).identity :=
  ⟨_, rfl, by decide, rfl⟩

end Examples

end TorDaemon.Client.Entrynodes

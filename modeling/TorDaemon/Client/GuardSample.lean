import TorDaemon.Client.GuardLists

/-! What the sample of guards is like, whatever is added to it, and what leaves it alone. -/
namespace TorDaemon.Client.Entrynodes
open Library.NetworkOrder Library.Reachability Library.Sorting SharedRandom

/-- The sampled guards, and the confirmed ones among them. -/
structure Sample (gs : GuardSelection) : Prop where
  nodup : gs.sampledEntryGuards.Nodup
  live : ∀ g ∈ gs.sampledEntryGuards, gs.live g = true
  fresh : ∀ g ∈ gs.sampledEntryGuards, g < gs.nextGuard
  identities : gs.type ≠ .bridge → ∀ g ∈ gs.sampledEntryGuards, ∀ g' ∈ gs.sampledEntryGuards,
    (gs.heap g).identity = (gs.heap g').identity → g = g'
  sampledIdx_lt : ∀ g ∈ gs.sampledEntryGuards, (gs.heap g).sampledIdx < gs.nextSampledIdx
  sampledIdx_injective : ∀ g ∈ gs.sampledEntryGuards, ∀ g' ∈ gs.sampledEntryGuards,
    (gs.heap g).sampledIdx = (gs.heap g').sampledIdx → g = g'
  confirmed_iff : ∀ g, g ∈ gs.confirmedEntryGuards ↔
    g ∈ gs.sampledEntryGuards ∧ 0 ≤ (gs.heap g).confirmedIdx
  confirmed_sorted : gs.confirmedEntryGuards.Pairwise fun g g' =>
    (gs.heap g).sampledIdx < (gs.heap g').sampledIdx
  confirmedIdx_injective : ∀ g ∈ gs.confirmedEntryGuards, ∀ g' ∈ gs.confirmedEntryGuards,
    (gs.heap g).confirmedIdx = (gs.heap g').confirmedIdx → g = g'
  confirmedIdx_lt : ∀ g ∈ gs.confirmedEntryGuards, (gs.heap g).confirmedIdx < gs.nextConfirmedIdx
  nextConfirmedIdx_nonneg : 0 ≤ gs.nextConfirmedIdx

/-- These are the guards that are marked as primary, with those in `rest`. -/
structure Marked (gs : GuardSelection) (guards rest : List GuardId) : Prop where
  nodup : guards.Nodup
  sampled : ∀ g ∈ guards, g ∈ gs.sampledEntryGuards
  mark : ∀ g ∈ gs.sampledEntryGuards, (gs.heap g).isPrimary = true ↔ g ∈ guards ∨ g ∈ rest

/-- Nothing that the sample depends on differs. -/
structure Frame (gs gs' : GuardSelection) : Prop where
  type : gs'.type = gs.type
  sampled : gs'.sampledEntryGuards = gs.sampledEntryGuards
  confirmed : gs'.confirmedEntryGuards = gs.confirmedEntryGuards
  nextConfirmedIdx : gs'.nextConfirmedIdx = gs.nextConfirmedIdx
  nextSampledIdx : gs'.nextSampledIdx = gs.nextSampledIdx
  live : gs'.live = gs.live
  nextGuard : gs'.nextGuard = gs.nextGuard
  identity : ∀ g, (gs'.heap g).identity = (gs.heap g).identity
  sampledIdx : ∀ g, (gs'.heap g).sampledIdx = (gs.heap g).sampledIdx
  confirmedIdx : ∀ g, (gs'.heap g).confirmedIdx = (gs.heap g).confirmedIdx

/-- The sample may have grown; the marks and the list of primary guards are the same. -/
structure Keeps (gs gs' : GuardSelection) : Prop where
  sample : Sample gs'
  subset : ∀ g ∈ gs.sampledEntryGuards, g ∈ gs'.sampledEntryGuards
  marked : ∀ guards rest, (∀ g ∈ rest, g ∈ gs.sampledEntryGuards) → Marked gs guards rest →
    Marked gs' guards rest
  primary : gs'.primaryEntryGuards = gs.primaryEntryGuards

section Frames
variable (env : Env) {gs gs' gs'' : GuardSelection} {g : GuardId} {guards rest : List GuardId}

theorem Frame.refl (gs : GuardSelection) : Frame gs gs :=
  ⟨rfl, rfl, rfl, rfl, rfl, rfl, rfl, fun _ => rfl, fun _ => rfl, fun _ => rfl⟩

section
variable (h : Sample gs)
include h

theorem Sample.confirmed_nodup : gs.confirmedEntryGuards.Nodup := by
  apply h.confirmed_sorted.imp
  rintro g g' hlt rfl
  exact lt_irrefl _ hlt

theorem Sample.of_frame (hframe : Frame gs gs') : Sample gs' := by
  obtain ⟨htype, hsampled, hconfirmed, hnextC, hnextS, hlive, hnext, hid, hsidx, hcidx⟩ := hframe
  constructor
  · simpa only [hsampled] using h.nodup
  · simpa only [hsampled, hlive] using h.live
  · simpa only [hsampled, hnext] using h.fresh
  · simpa only [htype, hsampled, hid] using h.identities
  · simpa only [hsampled, hsidx, hnextS] using h.sampledIdx_lt
  · simpa only [hsampled, hsidx] using h.sampledIdx_injective
  · simpa only [hsampled, hconfirmed, hcidx] using h.confirmed_iff
  · simpa only [hconfirmed, hsidx] using h.confirmed_sorted
  · simpa only [hconfirmed, hcidx] using h.confirmedIdx_injective
  · simpa only [hconfirmed, hcidx, hnextC] using h.confirmedIdx_lt
  · simpa only [hnextC] using h.nextConfirmedIdx_nonneg

theorem Keeps.of_frame (hframe : Frame gs gs')
    (hmark : ∀ g, (gs'.heap g).isPrimary = (gs.heap g).isPrimary)
    (hprimary : gs'.primaryEntryGuards = gs.primaryEntryGuards) : Keeps gs gs' where
  sample := h.of_frame hframe
  subset := by simp [hframe.sampled]
  marked := by
    intro guards rest _ hmarked
    constructor
    · exact hmarked.nodup
    · simpa only [hframe.sampled] using hmarked.sampled
    · simpa only [hframe.sampled, hmark] using hmarked.mark
  primary := hprimary

theorem Keeps.refl : Keeps gs gs :=
  .of_frame h (Frame.refl gs) (fun _ => rfl) rfl

end

theorem Keeps.trans (h : Keeps gs gs') (h' : Keeps gs' gs'') : Keeps gs gs'' where
  sample := h'.sample
  subset g hg := h'.subset g (h.subset g hg)
  marked guards rest hrest hmarked := h'.marked guards rest (fun g hg => h.subset g (hrest g hg))
    (h.marked guards rest hrest hmarked)
  primary := h'.primary.trans h.primary

theorem Keeps.foldl {f : GuardSelection → GuardId → GuardSelection}
    (hf : ∀ gs g, Sample gs → Keeps gs (f gs g)) (guards : List GuardId) (h : Sample gs) :
    Keeps gs (guards.foldl f gs) := by
  induction guards generalizing gs with
  | nil => exact .refl h
  | cons g guards ih =>
    have hg := hf gs g h
    exact hg.trans (ih hg.sample)

/-- A change to other fields of one guard. -/
theorem modify_frame {f : EntryGuard → EntryGuard}
    (hid : (f (gs.heap g)).identity = (gs.heap g).identity)
    (hsidx : (f (gs.heap g)).sampledIdx = (gs.heap g).sampledIdx)
    (hcidx : (f (gs.heap g)).confirmedIdx = (gs.heap g).confirmedIdx) :
    Frame gs (gs.modify g f) := by
  refine ⟨rfl, rfl, rfl, rfl, rfl, rfl, rfl, ?_, ?_, ?_⟩
  all_goals
    intro g'
    by_cases hg : g' = g
    · subst hg
      simpa [GuardSelection.modify]
    · simp [GuardSelection.modify, hg]

section
variable (h : Sample gs)
include h

theorem modify_keeps {f : EntryGuard → EntryGuard}
    (hid : (f (gs.heap g)).identity = (gs.heap g).identity)
    (hsidx : (f (gs.heap g)).sampledIdx = (gs.heap g).sampledIdx)
    (hcidx : (f (gs.heap g)).confirmedIdx = (gs.heap g).confirmedIdx)
    (hmark : (f (gs.heap g)).isPrimary = (gs.heap g).isPrimary) : Keeps gs (gs.modify g f) := by
  apply Keeps.of_frame h (modify_frame hid hsidx hcidx) _ rfl
  intro g'
  by_cases hg : g' = g
  · subst hg
    simpa [GuardSelection.modify]
  · simp [GuardSelection.modify, hg]

theorem considerRetry_keeps (g : GuardId) : Keeps gs (entryGuardConsiderRetry env gs g) := by
  unfold entryGuardConsiderRetry
  dsimp only
  split_ifs
  · exact .refl h
  · exact .refl h
  · exact modify_keeps h rfl rfl rfl rfl
  · exact .refl h

theorem considerRetries_keeps : Keeps gs (considerRetries env gs) :=
  .foldl (fun _ g h => considerRetry_keeps env h g) _ h

theorem upToDate_keeps (b : Bool) : Keeps gs { gs with primaryGuardsUpToDate := b } :=
  .of_frame h ⟨rfl, rfl, rfl, rfl, rfl, rfl, rfl, fun _ => rfl, fun _ => rfl, fun _ => rfl⟩
    (fun _ => rfl) rfl

theorem setFilteredFlags_keeps (g : GuardId) : Keeps gs (entryGuardSetFilteredFlags env gs g) := by
  unfold entryGuardSetFilteredFlags
  dsimp only
  set passes := entryGuardPassesFilter env gs.type g (gs.heap g)
  set flagged := gs.modify g fun guard =>
    { guard with
      isFilteredGuard := passes
      isUsableFilteredGuard := passes && guard.isReachable ≠ .no }
  have hflagged : Keeps gs flagged := modify_keeps h rfl rfl rfl rfl
  have hretry : Keeps gs (if passes then entryGuardConsiderRetry env flagged g else flagged) := by
    split
    · exact hflagged.trans (considerRetry_keeps env hflagged.sample g)
    · exact hflagged
  split
  · exact hretry
  · exact hretry.trans (upToDate_keeps hretry.sample false)

theorem updateFilteredSets_keeps : Keeps gs (entryGuardsUpdateFilteredSets env gs) :=
  .foldl (fun _ g h => setFilteredFlags_keeps env h g) _ h

theorem numReachable_keeps (rst : Option Restriction) :
    Keeps gs (numReachableFilteredGuards env rst gs).2 := considerRetries_keeps env h

end

end Frames

section Growing
variable (env : Env) {gs : GuardSelection} {guards : List GuardId} {g : GuardId}

theorem mem_add {guard : EntryGuard} :
    g ∈ (gs.add guard).sampledEntryGuards ↔ g ∈ gs.sampledEntryGuards ∨ g = gs.nextGuard := by
  simp [GuardSelection.add]

theorem nextGuard_not_mem (h : Sample gs) : gs.nextGuard ∉ gs.sampledEntryGuards :=
  fun hmem => Nat.lt_irrefl _ (h.fresh _ hmem)

theorem heap_add_new (gs : GuardSelection) (guard : EntryGuard) :
    (gs.add guard).heap gs.nextGuard = guard := Function.update_self ..

theorem heap_add_old (h : Sample gs) (guard : EntryGuard)
    (hg : g ∈ gs.sampledEntryGuards) : (gs.add guard).heap g = gs.heap g := by
  apply Function.update_of_ne
  rintro rfl
  exact nextGuard_not_mem h hg

theorem live_add_old (h : Sample gs) (guard : EntryGuard)
    (hg : g ∈ gs.sampledEntryGuards) : (gs.add guard).live g = gs.live g := by
  apply Function.update_of_ne
  rintro rfl
  exact nextGuard_not_mem h hg

/-- A number or name that no guard of the sample has keeps them apart. -/
theorem add_injective {β : Type} (field : EntryGuard → β) (h : Sample gs) {guard : EntryGuard}
    (hold : ∀ g ∈ gs.sampledEntryGuards, ∀ g' ∈ gs.sampledEntryGuards,
      field (gs.heap g) = field (gs.heap g') → g = g')
    (hnew : ∀ g ∈ gs.sampledEntryGuards, field (gs.heap g) ≠ field guard) :
    ∀ g ∈ (gs.add guard).sampledEntryGuards, ∀ g' ∈ (gs.add guard).sampledEntryGuards,
      field ((gs.add guard).heap g) = field ((gs.add guard).heap g') → g = g' := by
  intro g hg g' hg' heq
  rcases mem_add.mp hg with hg | rfl <;> rcases mem_add.mp hg' with hg' | rfl
  · rw [heap_add_old h guard hg, heap_add_old h guard hg'] at heq
    exact hold g hg g' hg' heq
  · rw [heap_add_old h guard hg, heap_add_new] at heq
    exact absurd heq (hnew g hg)
  · rw [heap_add_old h guard hg', heap_add_new] at heq
    exact absurd heq.symm (hnew g' hg')
  · rfl

section
variable (h : Sample gs)
include h

theorem add_sample {guard : EntryGuard}
    (hnew : gs.type ≠ .bridge → ∀ g ∈ gs.sampledEntryGuards, (gs.heap g).identity ≠ guard.identity)
    (hsidx : guard.sampledIdx = gs.nextSampledIdx) (hcidx : guard.confirmedIdx = -1) :
    Sample (gs.add guard) := by
  have hconfirmed : ∀ g ∈ gs.confirmedEntryGuards, (gs.add guard).heap g = gs.heap g :=
    fun g hg => heap_add_old h guard ((h.confirmed_iff g).mp hg).1
  constructor
  · exact h.nodup.append (List.nodup_singleton _) (by simpa using nextGuard_not_mem h)
  · intro g hg
    rcases mem_add.mp hg with hg | rfl
    · exact (live_add_old h guard hg).trans (h.live g hg)
    · exact Function.update_self ..
  · intro g hg
    rcases mem_add.mp hg with hg | rfl
    · exact Nat.lt_succ_of_lt (h.fresh g hg)
    · exact Nat.lt_succ_self _
  · intro htype
    exact add_injective EntryGuard.identity h (h.identities htype) (hnew htype)
  · intro g hg
    rcases mem_add.mp hg with hg | rfl
    · rw [heap_add_old h guard hg]
      exact (h.sampledIdx_lt g hg).trans (Int.lt_succ _)
    · rw [heap_add_new, hsidx]
      exact Int.lt_succ _
  · apply add_injective EntryGuard.sampledIdx h h.sampledIdx_injective
    intro g hg
    rw [hsidx]
    exact (h.sampledIdx_lt g hg).ne
  · intro g
    rw [mem_add]
    constructor
    · intro hg
      obtain ⟨hmem, hidx⟩ := (h.confirmed_iff g).mp hg
      exact ⟨.inl hmem, by rwa [hconfirmed g hg]⟩
    · rintro ⟨hg | rfl, hidx⟩
      · rw [heap_add_old h guard hg] at hidx
        exact (h.confirmed_iff g).mpr ⟨hg, hidx⟩
      · rw [heap_add_new, hcidx] at hidx
        omega
  · apply h.confirmed_sorted.imp_of_mem
    intro g g' hg hg' hlt
    rwa [hconfirmed g hg, hconfirmed g' hg']
  · intro g hg g' hg' heq
    rw [hconfirmed g hg, hconfirmed g' hg'] at heq
    exact h.confirmedIdx_injective g hg g' hg' heq
  · intro g hg
    rw [hconfirmed g hg]
    exact h.confirmedIdx_lt g hg
  · exact h.nextConfirmedIdx_nonneg

theorem add_marked {guard : EntryGuard} (hmark : guard.isPrimary = false)
    {rest : List GuardId} (hrest : ∀ g ∈ rest, g ∈ gs.sampledEntryGuards)
    (hmarked : Marked gs guards rest) : Marked (gs.add guard) guards rest := by
  refine ⟨hmarked.nodup, fun g hg => mem_add.mpr (.inl (hmarked.sampled g hg)), ?_⟩
  intro g hg
  rcases mem_add.mp hg with hg | rfl
  · rw [heap_add_old h guard hg]
    exact hmarked.mark g hg
  · rw [heap_add_new, hmark]
    constructor
    · intro hfalse
      cases hfalse
    · rintro (hg | hg)
      · exact absurd (hmarked.sampled _ hg) (nextGuard_not_mem h)
      · exact absurd (hrest _ hg) (nextGuard_not_mem h)

theorem add_keeps {guard : EntryGuard}
    (hnew : gs.type ≠ .bridge → ∀ g ∈ gs.sampledEntryGuards, (gs.heap g).identity ≠ guard.identity)
    (hsidx : guard.sampledIdx = gs.nextSampledIdx) (hcidx : guard.confirmedIdx = -1)
    (hmark : guard.isPrimary = false) : Keeps gs (gs.add guard) where
  sample := add_sample h hnew hsidx hcidx
  subset _ hg := mem_add.mpr (.inl hg)
  marked _ _ hrest hmarked := add_marked h hmark hrest hmarked
  primary := rfl

theorem addToSampleImpl_keeps {rsaIdDigest : Option Digest} {bridgeAddrPort : Option AddrPort}
    (hnew : gs.type ≠ .bridge → ∀ g ∈ gs.sampledEntryGuards,
      (gs.heap g).identity ≠ rsaIdDigest.getD zeroDigest) :
    Keeps gs (entryGuardAddToSampleImpl env rsaIdDigest bridgeAddrPort gs).2 := by
  have hadd : Keeps gs (gs.add
      { blankGuard with
        identity := rsaIdDigest.getD zeroDigest
        bridgeAddr := bridgeAddrPort
        sampledOnDate := env.randomizeTime gs.nextGuard
        currentlyListed := true
        sampledIdx := gs.nextSampledIdx
        confirmedIdx := -1
        isReachable := .maybe }) := add_keeps h hnew rfl rfl rfl
  exact hadd.trans (setFilteredFlags_keeps env hadd.sample _)

theorem selectAndAdd_keeps {eligible eligible' : Eligible} {gs' : GuardSelection}
    (hadd : selectAndAddGuardItemForSample env eligible gs = some (eligible', g, gs')) :
    Keeps gs gs' := by
  unfold selectAndAddGuardItemForSample at hadd
  split at hadd
  · rename_i htype
    obtain ⟨bridge, -, hmap⟩ := Option.bind_eq_some_iff.mp hadd
    obtain ⟨added, hbridge, heq⟩ := Option.map_eq_some_iff.mp hmap
    unfold entryGuardAddBridgeToSample at hbridge
    split at hbridge
    · cases hbridge
    · cases hbridge
      cases heq
      exact addToSampleImpl_keeps env h (fun hne => absurd htype hne)
  · obtain ⟨node, -, hmap⟩ := Option.bind_eq_some_iff.mp hadd
    obtain ⟨added, hnode, heq⟩ := Option.map_eq_some_iff.mp hmap
    unfold entryGuardAddToSample at hnode
    split at hnode
    · cases hnode
    · rename_i hnot
      cases hnode
      cases heq
      apply addToSampleImpl_keeps env h
      rintro - g hg hid
      rw [Bool.not_eq_true, Option.isSome_eq_false_iff, Option.isNone_iff_eq_none] at hnot
      exact absurd hid (by simpa using List.find?_eq_none.mp hnot g hg)

end

theorem expandLoop_keeps (maxSample fuel : ℕ) (eligible : Eligible) (n : ℕ)
    (addedGuard : Option GuardId) (h : Sample gs) :
    Keeps gs (expandLoop env maxSample fuel eligible n addedGuard gs).2 := by
  induction fuel generalizing eligible n addedGuard gs with
  | zero => exact .refl h
  | succ fuel ih =>
    rw [expandLoop]
    split
    · exact .refl h
    · cases hadd : selectAndAddGuardItemForSample env eligible gs with
      | none => exact .refl h
      | some added =>
        have hkeeps := selectAndAdd_keeps env h hadd
        exact hkeeps.trans (ih _ _ _ hkeeps.sample)

theorem expandSample_keeps (h : Sample gs) : Keeps gs (entryGuardsExpandSample env gs).2 := by
  unfold entryGuardsExpandSample
  split
  · exact .refl h
  · have hkeeps := numReachable_keeps env h none
    exact hkeeps.trans (expandLoop_keeps env _ _ _ _ _ hkeeps.sample)

/-- What the search finds is a guard of the sample that is none of the marked ones. -/
theorem firstReachable_spec (h : Sample gs) (rst : Option Restriction) (flags : SampleFlags) :
    Keeps gs (firstReachableFilteredEntryGuard env rst flags gs).2 ∧
      ∀ g, (firstReachableFilteredEntryGuard env rst flags gs).1 = some g →
        g ∈ (firstReachableFilteredEntryGuard env rst flags gs).2.sampledEntryGuards ∧
          isCandidate env rst flags (firstReachableFilteredEntryGuard env rst flags gs).2 g := by
  constructor
  · have hretry := considerRetries_keeps env h
    have hcount := hretry.trans (numReachable_keeps env hretry.sample rst)
    unfold firstReachableFilteredEntryGuard
    dsimp only
    split
    · have hexpand := hcount.trans (expandSample_keeps env hcount.sample)
      exact hexpand.trans (considerRetries_keeps env hexpand.sample)
    · exact hcount.trans (considerRetries_keeps env hcount.sample)
  · intro g hg
    exact ⟨List.mem_of_find?_eq_some hg, List.find?_some hg⟩

end Growing

end TorDaemon.Client.Entrynodes

import TorDaemon.Client.GuardSample

/-! The confirmed and the primary guards after they have been rebuilt. -/
namespace TorDaemon.Client.Entrynodes
open Library.NetworkOrder Library.Reachability Library.Sorting SharedRandom

/-- The three lists of a selection, of which the last has at most `n` guards. -/
structure Inv (n : ℕ) (gs : GuardSelection) : Prop where
  sample : Sample gs
  marked : Marked gs gs.primaryEntryGuards []
  length : gs.primaryEntryGuards.length ≤ n

theorem Keeps.inv {n : ℕ} {gs gs' : GuardSelection} (h : Keeps gs gs') (hinv : Inv n gs) :
    Inv n gs' where
  sample := h.sample
  marked := by
    rw [h.primary]
    exact h.marked _ _ (by simp) hinv.marked
  length := by
    rw [h.primary]
    exact hinv.length

section Sorted
variable {env : Env} {gs : GuardSelection} {guards : List GuardId}

theorem mem_sortBySampledIdx {g : GuardId} : g ∈ sortBySampledIdx env gs guards ↔ g ∈ guards :=
  ((env.qsort _).perm guards).mem_iff

theorem sortBySampledIdx_sorted (hnodup : guards.Nodup) (hinj : ∀ g ∈ guards, ∀ g' ∈ guards,
      (gs.heap g).sampledIdx = (gs.heap g').sampledIdx → g = g') :
    (sortBySampledIdx env gs guards).Pairwise fun g g' =>
      (gs.heap g).sampledIdx < (gs.heap g').sampledIdx := by
  have hsorted := (env.qsort (sampledIdxOf gs)).sorted guards
  have hne : (sortBySampledIdx env gs guards).Nodup :=
    ((env.qsort _).perm guards).nodup_iff.mpr hnodup
  apply (hsorted.and hne).imp_of_mem
  rintro g g' hg hg' ⟨hle, hne⟩
  have hidx : (gs.heap g).sampledIdx ≤ (gs.heap g').sampledIdx := by
    simpa [compareOn, sampledIdxOf, Ordering.isLE_iff_ne_gt, compare_gt_iff_gt] using hle
  apply lt_of_le_of_ne hidx
  intro heq
  exact hne (hinj g (mem_sortBySampledIdx.mp hg) g' (mem_sortBySampledIdx.mp hg') heq)

end Sorted

/-! ### Confirmed guards -/

/-- The guards have the indices from `idx` on, and nothing else differs. -/
structure Renumbered (idx : ℤ) (guards : List GuardId) (gs gs' : GuardSelection) : Prop where
  lists : gs' = { gs with heap := gs'.heap }
  other : ∀ g, g ∉ guards → gs'.heap g = gs.heap g
  range : ∀ g ∈ guards, idx ≤ (gs'.heap g).confirmedIdx ∧
    (gs'.heap g).confirmedIdx < idx + guards.length
  injective : ∀ g ∈ guards, ∀ g' ∈ guards,
    (gs'.heap g).confirmedIdx = (gs'.heap g').confirmedIdx → g = g'
  identity : ∀ g, (gs'.heap g).identity = (gs.heap g).identity
  sampledIdx : ∀ g, (gs'.heap g).sampledIdx = (gs.heap g).sampledIdx
  isPrimary : ∀ g, (gs'.heap g).isPrimary = (gs.heap g).isPrimary

theorem renumberConfirmed_spec {guards : List GuardId} (idx : ℤ) (gs : GuardSelection)
    (hnodup : guards.Nodup) : Renumbered idx guards gs (renumberConfirmed idx guards gs) := by
  induction guards generalizing idx gs with
  | nil =>
    exact ⟨rfl, fun _ _ => rfl, by simp [renumberConfirmed], by simp, fun _ => rfl, fun _ => rfl,
      fun _ => rfl⟩
  | cons g guards ih =>
    obtain ⟨hnot, hnodup⟩ := List.nodup_cons.mp hnodup
    set gs₁ := gs.modify g fun guard => { guard with confirmedIdx := idx } with hgs₁
    have hrest := ih (idx + 1) gs₁ hnodup
    have hself : (gs₁.heap g).confirmedIdx = idx := by simp [hgs₁, GuardSelection.modify]
    have hother : ∀ g', g' ≠ g → gs₁.heap g' = gs.heap g' := fun g' hne => by
      simp [hgs₁, GuardSelection.modify, hne]
    have hfield : ∀ {β : Type} (field : EntryGuard → β),
        field { gs.heap g with confirmedIdx := idx } = field (gs.heap g) →
        ∀ g', field (gs₁.heap g') = field (gs.heap g') := by
      intro β field hfield g'
      by_cases hg' : g' = g
      · subst hg'
        simpa [hgs₁, GuardSelection.modify] using hfield
      · rw [hother g' hg']
    have hg : ((renumberConfirmed (idx + 1) guards gs₁).heap g).confirmedIdx = idx := by
      rw [hrest.other g hnot, hself]
    have hrange : ∀ g' ∈ guards, idx + 1 ≤
        ((renumberConfirmed (idx + 1) guards gs₁).heap g').confirmedIdx := fun g' hg' =>
      (hrest.range g' hg').1
    have hstep : renumberConfirmed idx (g :: guards) gs = renumberConfirmed (idx + 1) guards gs₁ :=
      rfl
    rw [hstep]
    constructor
    · rw [hrest.lists]
      rfl
    · intro g' hg'
      rw [List.mem_cons, not_or] at hg'
      rw [hrest.other g' hg'.2, hother g' hg'.1]
    · intro g' hg'
      rw [List.length_cons]
      rcases List.mem_cons.mp hg' with rfl | hg'
      · rw [hg]
        omega
      · have hlt := hrest.range g' hg'
        omega
    · intro g₁ hg₁ g₂ hg₂ heq
      rcases List.mem_cons.mp hg₁ with heq₁ | hmem₁ <;>
        rcases List.mem_cons.mp hg₂ with heq₂ | hmem₂
      · rw [heq₁, heq₂]
      · have hle := hrange g₂ hmem₂
        rw [heq₁] at heq
        omega
      · have hle := hrange g₁ hmem₁
        rw [heq₂] at heq
        omega
      · exact hrest.injective g₁ hmem₁ g₂ hmem₂ heq
    · exact fun g' => (hrest.identity g').trans (hfield EntryGuard.identity rfl g')
    · exact fun g' => (hrest.sampledIdx g').trans (hfield EntryGuard.sampledIdx rfl g')
    · exact fun g' => (hrest.isPrimary g').trans (hfield EntryGuard.isPrimary rfl g')

section Confirmed
variable {env : Env} {gs : GuardSelection} {n : ℕ}

theorem updateConfirmed_inv (h : Inv n gs) : Inv n (entryGuardsUpdateConfirmed env gs) := by
  have hs := h.sample
  unfold entryGuardsUpdateConfirmed
  dsimp only
  set confirmed := (env.qsort fun g => (gs.heap g).confirmedIdx).sort
    (gs.sampledEntryGuards.filter fun g => 0 ≤ (gs.heap g).confirmedIdx) with hconfirmed
  have hperm : confirmed.Perm (gs.sampledEntryGuards.filter fun g => 0 ≤ (gs.heap g).confirmedIdx) :=
    (env.qsort _).perm _
  have hnodup : confirmed.Nodup := hperm.nodup_iff.mpr (hs.nodup.filter _)
  have hmem : ∀ g, g ∈ confirmed ↔ g ∈ gs.sampledEntryGuards ∧ 0 ≤ (gs.heap g).confirmedIdx := by
    intro g
    rw [hperm.mem_iff, List.mem_filter, decide_eq_true_eq]
  have hspec := renumberConfirmed_spec 0 gs hnodup
  set gs₁ := renumberConfirmed 0 confirmed gs
  have hlists := hspec.lists
  have hsampled : gs₁.sampledEntryGuards = gs.sampledEntryGuards := by rw [hlists]
  have hidx : ∀ g ∈ gs.sampledEntryGuards, ∀ g' ∈ gs.sampledEntryGuards,
      (gs₁.heap g).sampledIdx = (gs₁.heap g').sampledIdx → g = g' := by
    simpa only [hspec.sampledIdx] using hs.sampledIdx_injective
  refine ⟨?_, ?_, ?_⟩
  · constructor
    · simpa only [hsampled] using hs.nodup
    · intro g hg
      rw [hsampled] at hg
      rw [hlists]
      exact hs.live g hg
    · intro g hg
      rw [hsampled] at hg
      rw [hlists]
      exact hs.fresh g hg
    · intro htype g hg g' hg' heq
      rw [hlists] at htype
      rw [hsampled] at hg hg'
      rw [hspec.identity, hspec.identity] at heq
      exact hs.identities htype g hg g' hg' heq
    · intro g hg
      rw [hsampled] at hg
      rw [hspec.sampledIdx, hlists]
      exact hs.sampledIdx_lt g hg
    · simpa only [hsampled] using hidx
    · intro g
      rw [mem_sortBySampledIdx, hsampled, hmem]
      constructor
      · rintro ⟨hg, hpos⟩
        exact ⟨hg, (hspec.range g ((hmem g).mpr ⟨hg, hpos⟩)).1⟩
      · rintro ⟨hg, hpos⟩
        by_cases hin : g ∈ confirmed
        · exact (hmem g).mp hin
        · rw [hspec.other g hin] at hpos
          exact ⟨hg, hpos⟩
    · exact sortBySampledIdx_sorted hnodup fun g hg g' hg' =>
        hidx g ((hmem g).mp hg).1 g' ((hmem g').mp hg').1
    · intro g hg g' hg' heq
      exact hspec.injective g (mem_sortBySampledIdx.mp hg) g' (mem_sortBySampledIdx.mp hg') heq
    · intro g hg
      have hlt := (hspec.range g (mem_sortBySampledIdx.mp hg)).2
      rwa [Int.zero_add] at hlt
    · exact Int.natCast_nonneg _
  · constructor
    · dsimp only
      rw [hlists]
      exact h.marked.nodup
    · intro g hg
      rw [hlists] at hg ⊢
      exact h.marked.sampled g hg
    · intro g hg
      rw [hsampled] at hg
      rw [hspec.isPrimary, hlists]
      exact h.marked.mark g hg
  · dsimp only
    rw [hlists]
    exact h.length

theorem makeConfirmed_inv {g : GuardId} (h : Inv n gs) (hg : g ∈ gs.sampledEntryGuards) :
    Inv n (makeGuardConfirmed env g gs) := by
  have hs := h.sample
  unfold makeGuardConfirmed
  dsimp only
  split
  · exact h
  · rename_i hcond
    have hnew : g ∉ gs.confirmedEntryGuards := fun hmem => hcond (.inr hmem)
    set gs₁ := gs.modify g fun guard =>
      { guard with confirmedOnDate := env.randomizeTime g, confirmedIdx := gs.nextConfirmedIdx }
      with hgs₁
    have hself : (gs₁.heap g).confirmedIdx = gs.nextConfirmedIdx := by
      simp [hgs₁, GuardSelection.modify]
    have hother : ∀ g', g' ≠ g → gs₁.heap g' = gs.heap g' := fun g' hne => by
      simp [hgs₁, GuardSelection.modify, hne]
    have hold : ∀ g' ∈ gs.confirmedEntryGuards, gs₁.heap g' = gs.heap g' := by
      intro g' hg'
      apply hother
      rintro rfl
      exact hnew hg'
    have hfield : ∀ {β : Type} (field : EntryGuard → β),
        field (gs₁.heap g) = field (gs.heap g) → ∀ g', field (gs₁.heap g') = field (gs.heap g') := by
      intro β field hfield g'
      by_cases hg' : g' = g
      · rw [hg', hfield]
      · rw [hother g' hg']
    have hupdated : gs₁.heap g = { gs.heap g with
        confirmedOnDate := env.randomizeTime g, confirmedIdx := gs.nextConfirmedIdx } := by
      simp [hgs₁, GuardSelection.modify]
    have hid := hfield EntryGuard.identity (by rw [hupdated])
    have hsidx := hfield EntryGuard.sampledIdx (by rw [hupdated])
    have hmark := hfield EntryGuard.isPrimary (by rw [hupdated])
    have hmem : ∀ g', g' ∈ sortBySampledIdx env gs₁ (gs.confirmedEntryGuards ++ [g]) ↔
        g' ∈ gs.confirmedEntryGuards ∨ g' = g := by
      intro g'
      rw [mem_sortBySampledIdx, List.mem_append, List.mem_singleton]
    have hsub : ∀ g' ∈ gs.confirmedEntryGuards ++ [g], g' ∈ gs.sampledEntryGuards := by
      intro g' hg'
      rcases List.mem_append.mp hg' with hg' | hg'
      · exact ((hs.confirmed_iff g').mp hg').1
      · rwa [List.mem_singleton.mp hg']
    refine ⟨?_, ?_, h.length⟩
    · constructor
      · exact hs.nodup
      · exact hs.live
      · exact hs.fresh
      · intro htype g₁ hg₁ g₂ hg₂ heq
        rw [hid, hid] at heq
        exact hs.identities htype g₁ hg₁ g₂ hg₂ heq
      · intro g' hg'
        rw [hsidx]
        exact hs.sampledIdx_lt g' hg'
      · intro g₁ hg₁ g₂ hg₂ heq
        rw [hsidx, hsidx] at heq
        exact hs.sampledIdx_injective g₁ hg₁ g₂ hg₂ heq
      · intro g'
        apply (hmem g').trans
        rw [hs.confirmed_iff]
        by_cases heq : g' = g
        · subst heq
          rw [hself]
          exact ⟨fun _ => ⟨hg, hs.nextConfirmedIdx_nonneg⟩, fun _ => .inr rfl⟩
        · rw [hother g' heq]
          exact ⟨fun hor => hor.resolve_right heq, .inl⟩
      · apply sortBySampledIdx_sorted
        · exact hs.confirmed_nodup.append (List.nodup_singleton g) (by simpa using hnew)
        · intro g₁ hg₁ g₂ hg₂ heq
          rw [hsidx, hsidx] at heq
          exact hs.sampledIdx_injective g₁ (hsub g₁ hg₁) g₂ (hsub g₂ hg₂) heq
      · intro g₁ hg₁ g₂ hg₂ heq
        rcases (hmem g₁).mp hg₁ with hold₁ | heq₁ <;> rcases (hmem g₂).mp hg₂ with hold₂ | heq₂
        · rw [hold g₁ hold₁, hold g₂ hold₂] at heq
          exact hs.confirmedIdx_injective g₁ hold₁ g₂ hold₂ heq
        · rw [hold g₁ hold₁, heq₂, hself] at heq
          exact absurd heq (hs.confirmedIdx_lt g₁ hold₁).ne
        · rw [hold g₂ hold₂, heq₁, hself] at heq
          exact absurd heq.symm (hs.confirmedIdx_lt g₂ hold₂).ne
        · rw [heq₁, heq₂]
      · intro g' hg'
        rcases (hmem g').mp hg' with hold' | heq'
        · rw [hold g' hold']
          exact (hs.confirmedIdx_lt g' hold').trans (Int.lt_succ _)
        · rw [heq', hself]
          exact Int.lt_succ _
      · exact Int.add_nonneg hs.nextConfirmedIdx_nonneg (by decide)
    · refine ⟨h.marked.nodup, h.marked.sampled, ?_⟩
      intro g' hg'
      rw [hmark]
      exact h.marked.mark g' hg'

end Confirmed

/-! ### Primary guards -/

section Primary
variable {env : Env} {gs : GuardSelection} {guards rest rest' : List GuardId} {g : GuardId}
  {new : NewPrimary}

theorem setPrimary_frame (b : Bool) (g : GuardId) (gs : GuardSelection) :
    Frame gs (setPrimary b g gs) := modify_frame rfl rfl rfl

theorem isPrimary_setPrimary (b : Bool) (g g' : GuardId) (gs : GuardSelection) :
    ((setPrimary b g gs).heap g').isPrimary = if g' = g then b else (gs.heap g').isPrimary := by
  by_cases hg : g' = g
  · subst hg
    simp [setPrimary, GuardSelection.modify]
  · simp [setPrimary, GuardSelection.modify, hg]

theorem Marked.add (h : Marked gs guards rest) (hg : g ∈ gs.sampledEntryGuards)
    (hnew : g ∉ guards) (hrest : ∀ g', g' ≠ g → (g' ∈ rest' ↔ g' ∈ rest)) :
    Marked (setPrimary true g gs) (guards ++ [g]) rest' where
  nodup := h.nodup.append (List.nodup_singleton g) (by simpa using hnew)
  sampled := by
    intro g' hg'
    rcases List.mem_append.mp hg' with hg' | hg'
    · exact h.sampled g' hg'
    · rwa [List.mem_singleton.mp hg']
  mark := by
    intro g' hg'
    rw [isPrimary_setPrimary, List.mem_append, List.mem_singleton]
    by_cases heq : g' = g
    · simp [heq]
    · simp [heq, h.mark g' hg', hrest g' heq]

theorem Marked.drop (h : Marked gs guards (g :: rest)) (hnew : g ∉ guards) (hnot : g ∉ rest) :
    Marked (setPrimary false g gs) guards rest where
  nodup := h.nodup
  sampled := h.sampled
  mark := by
    intro g' hg'
    rw [isPrimary_setPrimary]
    by_cases heq : g' = g
    · simp [heq, hnew, hnot]
    · simp [heq, h.mark g' hg']

theorem Marked.skip (h : Marked gs guards (g :: rest)) (hg : g ∈ guards) :
    Marked gs guards rest where
  nodup := h.nodup
  sampled := h.sampled
  mark := by
    intro g' hg'
    rw [h.mark g' hg', List.mem_cons]
    constructor
    · rintro (hg' | rfl | hg')
      · exact .inl hg'
      · exact .inl hg
      · exact .inr hg'
    · rintro (hg' | hg')
      · exact .inl hg'
      · exact .inr (.inr hg')

/-- What holds while the new list of primary guards is made, where `rest` are the old ones
that are still to come. -/
structure Making (env : Env) (rest : List GuardId) (new : NewPrimary) : Prop where
  sample : Sample new.2
  marked : Marked new.2 new.1 rest
  sampled : ∀ g ∈ rest, g ∈ new.2.sampledEntryGuards
  length : new.1.length ≤ env.nPrimaryGuards

theorem Making.add (h : Making env rest new) (hg : g ∈ new.2.sampledEntryGuards) (hnew : g ∉ new.1)
    (hroom : new.1.length < env.nPrimaryGuards)
    (hrest : ∀ g', g' ≠ g → (g' ∈ rest' ↔ g' ∈ rest)) (hsub : ∀ g' ∈ rest', g' ∈ rest) :
    Making env rest' (addPrimary g new) where
  sample := h.sample.of_frame (setPrimary_frame true g new.2)
  marked := h.marked.add hg hnew hrest
  sampled g' hg' := h.sampled g' (hsub g' hg')
  length := by
    rw [addPrimary, List.length_append, List.length_singleton]
    exact hroom

theorem primaryFromConfirmed_spec {confirmed : List GuardId}
    (h : Making env rest new) (hnodup : confirmed.Nodup)
    (hsampled : ∀ g ∈ confirmed, g ∈ new.2.sampledEntryGuards) (hnew : ∀ g ∈ confirmed, g ∉ new.1) :
    Making env rest (confirmed.foldl (primaryFromConfirmed env) new) := by
  induction confirmed generalizing new with
  | nil => exact h
  | cons g confirmed ih =>
    obtain ⟨hnot, hnodup⟩ := List.nodup_cons.mp hnodup
    rw [List.foldl_cons]
    have hsampled' := fun g' hg' => hsampled g' (List.mem_cons_of_mem _ hg')
    have hnew' := fun g' hg' => hnew g' (List.mem_cons_of_mem _ hg')
    unfold primaryFromConfirmed
    split
    · rename_i hcond
      apply ih (h.add (hsampled g (List.mem_cons_self ..)) (hnew g (List.mem_cons_self ..)) hcond.1
        (fun _ _ => Iff.rfl) (fun _ hg' => hg')) hnodup hsampled'
      intro g' hg' hmem
      rcases List.mem_append.mp hmem with hmem | hmem
      · exact hnew' g' hg' hmem
      · exact hnot (List.mem_singleton.mp hmem ▸ hg')
    · exact ih h hnodup hsampled' hnew'

theorem primaryFromOld_spec {old : List GuardId} (h : Making env old new)
    (hnodup : old.Nodup) : Making env [] (old.foldl (primaryFromOld env) new) := by
  induction old generalizing new with
  | nil => exact h
  | cons g old ih =>
    obtain ⟨hnot, hnodup⟩ := List.nodup_cons.mp hnodup
    have hsub : ∀ g' ∈ old, g' ∈ g :: old := fun _ hg' => List.mem_cons_of_mem _ hg'
    apply ih _ hnodup
    unfold primaryFromOld
    split_ifs with hin hcond
    · exact ⟨h.sample, h.marked.skip hin, fun g' hg' => h.sampled g' (hsub g' hg'), h.length⟩
    · apply h.add (h.sampled g (List.mem_cons_self ..)) hin hcond.1 _ hsub
      intro g' hne
      simp [hne]
    · exact ⟨h.sample.of_frame (setPrimary_frame false g new.2), h.marked.drop hin hnot,
        fun g' hg' => h.sampled g' (hsub g' hg'), h.length⟩

theorem primaryFromSample_spec (fuel : ℕ) (h : Making env [] new) :
    Making env [] (primaryFromSample env fuel new) := by
  induction fuel generalizing new with
  | zero => exact h
  | succ fuel ih =>
    rw [primaryFromSample]
    split
    · rename_i hroom
      obtain ⟨hkeeps, hfound⟩ := firstReachable_spec env h.sample none
        ⟨true, true, false, false⟩
      cases hfirst : firstReachableFilteredEntryGuard env none ⟨true, true, false, false⟩ new.2 with
      | mk found gs =>
        rw [hfirst] at hkeeps hfound
        have hnext : Making env [] (new.1, gs) :=
          ⟨hkeeps.sample, hkeeps.marked _ _ (by simp) h.marked, by simp, h.length⟩
        cases found with
        | none => exact hnext
        | some g =>
          obtain ⟨hsampled, hcandidate⟩ := hfound g rfl
          apply ih
          apply hnext.add hsampled _ hroom (fun _ _ => Iff.rfl) (fun _ hg' => hg')
          intro hmem
          have hmark : (gs.heap g).isPrimary = true :=
            (hnext.marked.mark g hsampled).mpr (.inl hmem)
          simp [isCandidate, hmark] at hcandidate
    · exact h

theorem updatePrimary_inv {n m : ℕ} (h : Inv m gs) (hn : env.nPrimaryGuards ≤ n) :
    Inv n (entryGuardsUpdatePrimary env gs) := by
  have hstart : Making env gs.primaryEntryGuards ([], { gs with primaryGuardsUpToDate := true }) := by
    refine ⟨(upToDate_keeps h.sample true).sample, ⟨List.nodup_nil, by simp, ?_⟩,
      h.marked.sampled, Nat.zero_le _⟩
    intro g hg
    simpa using h.marked.mark g hg
  have hconfirmed := primaryFromConfirmed_spec hstart h.sample.confirmed_nodup
    (fun g hg => ((h.sample.confirmed_iff g).mp hg).1) (fun _ _ => List.not_mem_nil)
  have hold := primaryFromOld_spec hconfirmed h.marked.nodup
  have hend := primaryFromSample_spec env.nPrimaryGuards hold
  unfold entryGuardsUpdatePrimary
  set new := primaryFromSample env env.nPrimaryGuards _
  have hperm : ∀ l, (if new.1 = l then new.1 else sortBySampledIdx env new.2 new.1).Perm new.1 := by
    intro l
    split
    · exact .refl _
    · exact (env.qsort _).perm _
  have hframe : ∀ primary, Sample { new.2 with
      primaryEntryGuards := primary, primaryGuardsUpToDate := true } := fun primary =>
    hend.sample.of_frame ⟨rfl, rfl, rfl, rfl, rfl, rfl, rfl, fun _ => rfl, fun _ => rfl, fun _ => rfl⟩
  refine ⟨hframe _, ⟨?_, ?_, ?_⟩, ?_⟩
  · exact (hperm _).nodup_iff.mpr hend.marked.nodup
  · intro g hg
    exact hend.marked.sampled g ((hperm _).mem_iff.mp hg)
  · intro g hg
    rw [(hperm _).mem_iff]
    exact hend.marked.mark g hg
  · rw [(hperm _).length_eq]
    exact hend.length.trans hn

end Primary

end TorDaemon.Client.Entrynodes

import TorDaemon.HiddenService.Cache

/-! The out-of-memory handler of the directory cache comes to an end: every round after the
first removes an entry. -/
namespace TorDaemon.HiddenService.Cache
open Library.NetworkOrder Library.Sweep Library.Tables

/-- The next round removes something, or there is nothing left. -/
def Ready (target : ℕ) (dir : Digest256Map DirDescriptor) : Prop :=
  dir.entries = [] ∨ ∃ k entry, dir.lookup k = some entry ∧ entry.nDownloaded ≤ target

/-- The sweep of one round, which has counted nothing yet. -/
abbrev sweepRound (size : Sizeof) (target maxRemoveBytes : ℕ) (it : DirIteration) (a : Allocation)
    (dir : Digest256Map DirDescriptor) : Cleaning × Digest256Map DirDescriptor :=
  sweepAll (cleanByDownloadedVisit size target maxRemoveBytes) it ⟨0, 0, a⟩ dir

section Round
variable {size : Sizeof} {target maxRemoveBytes : ℕ} {it : DirIteration}
  {dir : Digest256Map DirDescriptor} {r : Cleaning} {k : Key} {entry : DirDescriptor}

theorem length_erase_lt (h : dir.lookup k = some entry) :
    (dir.erase k).entries.length < dir.entries.length := by
  have hweight := weight_erase (fun _ => 1) h
  simp only [weight, List.map_const', List.sum_replicate_nat, Nat.mul_one] at hweight
  omega

theorem length_sweep_le (size : Sizeof) (target maxRemoveBytes : ℕ) (it : DirIteration) (r : Cleaning)
    (dir : Digest256Map DirDescriptor) :
    (sweepAll (cleanByDownloadedVisit size target maxRemoveBytes) it r dir).2.entries.length ≤
      dir.entries.length := by
  apply sweepAll_rule _ (I := fun _ _ m => m.entries.length ≤ dir.entries.length) it _ (Nat.le_refl _)
  intro e es r m he hle
  split
  · exact (length_erase_lt he).le.trans hle
  · exact hle

theorem visit_above (h : target < entry.nDownloaded) :
    cleanByDownloadedVisit size target maxRemoveBytes r entry =
      ({ r with
        lowest := if r.lowest = 0 ∨ entry.nDownloaded < r.lowest then entry.nDownloaded
          else r.lowest }, false) := by
  rw [cleanByDownloadedVisit, if_pos h]

theorem visit_removes (h : entry.nDownloaded ≤ target) (hroom : r.bytesRemoved < maxRemoveBytes) :
    cleanByDownloadedVisit size target maxRemoveBytes r entry =
      (⟨r.bytesRemoved + cacheGetDirEntrySize size entry, r.lowest,
        r.allocation.decrement (cacheGetDirEntrySize size entry)⟩, true) := by
  rw [cleanByDownloadedVisit, if_neg (Nat.not_lt.mpr h), if_neg (Nat.not_le.mpr hroom)]

theorem visit_full (h : entry.nDownloaded ≤ target) (hfull : maxRemoveBytes ≤ r.bytesRemoved) :
    cleanByDownloadedVisit size target maxRemoveBytes r entry = (r, false) := by
  rw [cleanByDownloadedVisit, if_neg (Nat.not_lt.mpr h), if_pos hfull]

theorem length_sweep_lt (size : Sizeof) (it : DirIteration) (hpos : 0 < maxRemoveBytes) (a : Allocation)
    (hlook : dir.lookup k = some entry) (hn : entry.nDownloaded ≤ target) :
    (sweepRound size target maxRemoveBytes it a dir).2.entries.length <
      dir.entries.length := by
  have hend := sweepAll_rule (cleanByDownloadedVisit size target maxRemoveBytes)
    (I := fun es r m => m.entries.length < dir.entries.length ∨
      m = dir ∧ r.bytesRemoved = 0 ∧ ∃ e ∈ es, e.2.nDownloaded ≤ target) it
    (r := ⟨0, 0, a⟩) (m := dir) ?_ ?_
  · rcases hend with hlt | ⟨-, -, e, he, -⟩
    · exact hlt
    · cases he
  · intro e es r m he hI
    rcases hI with hlt | ⟨rfl, hzero, e', he', hn'⟩
    · left
      split
      · exact (length_erase_lt he).trans hlt
      · exact hlt
    · by_cases habove : target < e.2.nDownloaded
      · right
        rw [visit_above habove]
        refine ⟨rfl, hzero, e', ?_, hn'⟩
        rcases List.mem_cons.mp he' with rfl | he'
        · omega
        · exact he'
      · left
        rw [visit_removes (Nat.not_lt.mp habove) (hzero ▸ hpos)]
        exact length_erase_lt he
  · right
    exact ⟨rfl, rfl, ⟨k, entry⟩, (it.perm _).mem_iff.mpr (AList.mem_lookup_iff.mp hlook), hn⟩

/-- What is known when some of the entries are still to come: those that have been passed
are above the target and not below `lowest`, which one of them has. -/
structure Passed (target : ℕ) (es : List (Σ _ : Key, DirDescriptor)) (lowest : ℕ)
    (dir : Digest256Map DirDescriptor) : Prop where
  above : ∀ k entry, dir.lookup k = some entry → ⟨k, entry⟩ ∈ es ∨
    lowest ≠ 0 ∧ target < entry.nDownloaded ∧ lowest ≤ entry.nDownloaded
  attained : lowest ≠ 0 → ∃ k entry, dir.lookup k = some entry ∧ target < entry.nDownloaded ∧
    entry.nDownloaded = lowest

theorem passed_step {e : Σ _ : Key, DirDescriptor} {es : List (Σ _ : Key, DirDescriptor)}
    (he : dir.lookup e.1 = some e.2) (h : Passed target (e :: es) r.lowest dir)
    (hroom : r.bytesRemoved < maxRemoveBytes) :
    Passed target es (cleanByDownloadedVisit size target maxRemoveBytes r e.2).1.lowest
      (if (cleanByDownloadedVisit size target maxRemoveBytes r e.2).2 then dir.erase e.1
        else dir) := by
  by_cases habove : target < e.2.nDownloaded
  · rw [visit_above habove]
    dsimp only
    constructor
    · intro k entry hlook
      rcases h.above k entry hlook with hmem | ⟨hne, hentry, hle⟩
      · rcases List.mem_cons.mp hmem with rfl | hmem
        · refine .inr ⟨?_, habove, ?_⟩ <;> dsimp only at habove ⊢ <;> split <;> omega
        · exact .inl hmem
      · refine .inr ⟨?_, hentry, ?_⟩ <;> split <;> omega
    · intro hne
      by_cases hlower : r.lowest = 0 ∨ e.2.nDownloaded < r.lowest
      · exact ⟨e.1, e.2, he, habove, (if_pos hlower).symm⟩
      · obtain ⟨k, entry, hlook, hentry, heq⟩ := h.attained (fun hzero => hlower (.inl hzero))
        exact ⟨k, entry, hlook, hentry, heq.trans (if_neg hlower).symm⟩
  · rw [visit_removes (Nat.not_lt.mp habove) hroom]
    rw [if_pos rfl]
    constructor
    · intro k entry hlook
      by_cases heq : k = e.1
      · subst heq
        simp at hlook
      · rw [AList.lookup_erase_ne heq] at hlook
        rcases h.above k entry hlook with hmem | hentry
        · rcases List.mem_cons.mp hmem with rfl | hmem
          · exact absurd rfl heq
          · exact .inl hmem
        · exact .inr hentry
    · intro hne
      obtain ⟨k, entry, hlook, hentry, heq⟩ := h.attained hne
      refine ⟨k, entry, ?_, hentry, heq⟩
      rw [AList.lookup_erase_ne, hlook]
      rintro rfl
      rw [he] at hlook
      cases hlook
      exact habove hentry

theorem bytesRemoved_mono (r : Cleaning) (entry : DirDescriptor) : r.bytesRemoved ≤
      (cleanByDownloadedVisit size target maxRemoveBytes r entry).1.bytesRemoved := by
  by_cases habove : target < entry.nDownloaded
  · rw [visit_above habove]
  · by_cases hroom : r.bytesRemoved < maxRemoveBytes
    · rw [visit_removes (Nat.not_lt.mp habove) hroom]
      exact Nat.le_add_right _ _
    · rw [visit_full (Nat.not_lt.mp habove) (Nat.not_lt.mp hroom)]

/-- A round that did not remove enough went past everything that is left. -/
theorem passed_sweep (size : Sizeof) (target maxRemoveBytes : ℕ) (it : DirIteration)
    (a : Allocation) (dir : Digest256Map DirDescriptor)
    (hroom : (sweepRound size target maxRemoveBytes it a dir).1.bytesRemoved < maxRemoveBytes) :
    Passed target [] (sweepRound size target maxRemoveBytes it a dir).1.lowest
      (sweepRound size target maxRemoveBytes it a dir).2 := by
  refine sweepAll_rule (cleanByDownloadedVisit size target maxRemoveBytes)
    (I := fun es r m => r.bytesRemoved < maxRemoveBytes → Passed target es r.lowest m) it ?_ ?_ hroom
  · intro e es r m he hI hroom
    have hbefore := (bytesRemoved_mono r e.2).trans_lt hroom
    exact passed_step he (hI hbefore) hbefore
  · intro _
    constructor
    · intro k entry hlook
      exact .inl ((it.perm _).mem_iff.mpr (AList.mem_lookup_iff.mp hlook))
    · intro hne
      exact absurd rfl hne

theorem Passed.ready {lowest : ℕ} (h : Passed target [] lowest dir) : Ready lowest dir := by
  rcases hentries : dir.entries with _ | ⟨e, es⟩
  · exact .inl hentries
  · have hlook := AList.mem_lookup_iff.mpr (hentries ▸ List.mem_cons_self .. : e ∈ _)
    rcases h.above e.1 e.2 hlook with hmem | ⟨hne, -⟩
    · cases hmem
    · obtain ⟨k, entry, hlook, -, heq⟩ := h.attained hne
      exact .inr ⟨k, entry, hlook, heq.le⟩

/-- The next target is 0 for want of anything to come. -/
theorem Passed.eq_nil (h : Passed target [] 0 dir) : dir.entries = [] := by
  rcases h.ready with hempty | ⟨k, entry, hlook, -⟩
  · exact hempty
  · exact ((h.above k entry hlook).resolve_left nofun).1.elim rfl

theorem sweep_of_empty (h : dir.entries = []) :
    sweepAll (cleanByDownloadedVisit size target maxRemoveBytes) it r dir = (r, dir) := by
  have horder : it.order [] = [] := List.Perm.eq_nil (it.perm [])
  rw [sweepAll, h, horder, sweep]

end Round

section Rounds
variable {size : Sizeof} {minRemoveBytes : ℕ} {it : DirIteration} {P : State → Prop}

theorem oomRounds_succ (fuel bytesRemoved target : ℕ) (s : State) :
    oomRounds size minRemoveBytes it (fuel + 1) bytesRemoved target s =
      let round := cacheCleanByDownloadedAsDir size target (minRemoveBytes - bytesRemoved) it s
      if round.1 = 0 ∧ round.2.1 = 0 then some (bytesRemoved, round.2.2)
      else if bytesRemoved + round.1 < minRemoveBytes then
        oomRounds size minRemoveBytes it fuel (bytesRemoved + round.1) round.2.1 round.2.2
      else some (bytesRemoved + round.1, round.2.2) := rfl

theorem oomRounds_ready
    (hP : ∀ target maxRemoveBytes s, P s →
      P (cacheCleanByDownloadedAsDir size target maxRemoveBytes it s).2.2)
    {fuel bytesRemoved target : ℕ} {s : State} (h : P s) (hready : Ready target s.dir)
    (hfuel : s.dir.entries.length < fuel) (hroom : bytesRemoved < minRemoveBytes) :
    ∃ s', (oomRounds size minRemoveBytes it fuel bytesRemoved target s).map Prod.snd = some s' ∧
      P s' := by
  induction fuel generalizing bytesRemoved target s with
  | zero => omega
  | succ fuel ih =>
    have hpos : 0 < minRemoveBytes - bytesRemoved := Nat.sub_pos_of_lt hroom
    have hnext := hP target (minRemoveBytes - bytesRemoved) s h
    rw [oomRounds_succ]
    dsimp only
    split
    · exact ⟨_, rfl, hnext⟩
    · rename_i hgoon
      split
      · rename_i hmore
        rcases hready with hempty | ⟨k, entry, hlook, hn⟩
        · simp [cacheCleanByDownloadedAsDir, sweep_of_empty hempty] at hgoon
        · apply ih hnext (passed_sweep _ _ _ _ _ _ (Nat.lt_sub_iff_add_lt'.mpr hmore)).ready _ hmore
          have hlt := length_sweep_lt size it hpos s.allocation hlook hn
          exact Nat.lt_of_lt_of_le hlt (Nat.le_of_lt_succ hfuel)
      · exact ⟨_, rfl, hnext⟩

/-- The handler ends, and what every round keeps holds afterwards. -/
theorem hsCacheHandleOom_spec
    (hP : ∀ target maxRemoveBytes s, P s →
      P (cacheCleanByDownloadedAsDir size target maxRemoveBytes it s).2.2)
    {s : State} (h : P s) (hmin : minRemoveBytes ≠ 0) :
    ∃ s', (hsCacheHandleOom size minRemoveBytes it s).map Prod.snd = some s' ∧ P s' := by
  have hnext := hP 0 (minRemoveBytes - 0) s h
  rw [hsCacheHandleOom, if_neg hmin, oomRounds_succ]
  dsimp only
  split
  · exact ⟨_, rfl, hnext⟩
  · split
    · rename_i hmore
      apply oomRounds_ready hP hnext (passed_sweep _ _ _ _ _ _ (Nat.lt_sub_iff_add_lt'.mpr hmore)).ready
        _ hmore
      have hle := length_sweep_le size 0 (minRemoveBytes - 0) it ⟨0, 0, s.allocation⟩ s.dir
      exact Nat.lt_succ_of_le hle
    · exact ⟨_, rfl, hnext⟩

end Rounds

/-! What the out-of-memory handler removes from the directory cache: as many bytes as it says,
from the descriptors that were downloaded least (`hs_cache.c`). -/

section Round
variable {size : Sizeof} {target maxRemoveBytes : ℕ} {it : DirIteration} {r : Cleaning}
  {dir dir' : Digest256Map DirDescriptor} {e : Σ _ : Key, DirDescriptor}
  {es : List (Σ _ : Key, DirDescriptor)}

/-- What a round has removed so far is what it has counted, and was not above the target. -/
structure Swept (size : Sizeof) (target : ℕ) (dir : Digest256Map DirDescriptor) (r : Cleaning)
    (dir' : Digest256Map DirDescriptor) : Prop where
  bytes : weight (cacheGetDirEntrySize size) dir' + r.bytesRemoved =
    weight (cacheGetDirEntrySize size) dir
  least : ∀ k entry, dir.lookup k = some entry → dir'.lookup k = none →
    entry.nDownloaded ≤ target

theorem swept_step (he : dir'.lookup e.1 = some e.2) (hdir : dir.lookup e.1 = some e.2)
    (h : Swept size target dir r dir') :
    Swept size target dir (cleanByDownloadedVisit size target maxRemoveBytes r e.2).1
      (if (cleanByDownloadedVisit size target maxRemoveBytes r e.2).2 then dir'.erase e.1
        else dir') := by
  by_cases habove : target < e.2.nDownloaded
  · rw [visit_above habove]
    exact ⟨h.bytes, h.least⟩
  · by_cases hroom : r.bytesRemoved < maxRemoveBytes
    · rw [visit_removes (Nat.not_lt.mp habove) hroom]
      rw [if_pos rfl]
      constructor
      · rw [← h.bytes, ← weight_erase (cacheGetDirEntrySize size) he]
        dsimp only
        omega
      · intro k entry hlook hgone
        by_cases heq : k = e.1
        · subst heq
          rw [hdir] at hlook
          cases hlook
          exact Nat.not_lt.mp habove
        · rw [AList.lookup_erase_ne heq] at hgone
          exact h.least k entry hlook hgone
    · rw [visit_full (Nat.not_lt.mp habove) (Nat.not_lt.mp hroom)]
      exact h

theorem swept_sweep (size : Sizeof) (target maxRemoveBytes : ℕ) (it : DirIteration)
    (a : Allocation) (dir : Digest256Map DirDescriptor) : Swept size target dir
      (sweepRound size target maxRemoveBytes it a dir).1
      (sweepRound size target maxRemoveBytes it a dir).2 := by
  refine (sweepAll_rule (cleanByDownloadedVisit size target maxRemoveBytes)
    (I := fun _ r m => Swept size target dir r m ∧
      ∀ k entry, m.lookup k = some entry → dir.lookup k = some entry) it ?_ ⟨⟨rfl, ?_⟩, ?_⟩).1
  · rintro e es r m he ⟨hswept, hkept⟩
    refine ⟨swept_step he (hkept _ _ he) hswept, fun k entry hlook => hkept k entry ?_⟩
    split at hlook
    · by_cases heq : k = e.1
      · subst heq
        simp at hlook
      · rwa [AList.lookup_erase_ne heq] at hlook
    · exact hlook
  · intro k entry hlook hgone
    rw [hlook] at hgone
    cases hgone
  · exact fun _ _ hlook => hlook

end Round

section Rounds
variable {size : Sizeof} {minRemoveBytes : ℕ} {it : DirIteration}
  {before dir : Digest256Map DirDescriptor} {bytesRemoved : ℕ}

/-- The bytes of the entries of `before` that `dir` does not have. -/
def removedBytes (size : Sizeof) (before dir : Digest256Map DirDescriptor) : ℕ :=
  ((before.entries.filter fun e => (dir.lookup e.1).isNone).map
    fun e => cacheGetDirEntrySize size e.2).sum

/-- Whatever was removed was not downloaded more often than anything that is left. -/
structure Evicted (size : Sizeof) (before : Digest256Map DirDescriptor) (bytesRemoved : ℕ)
    (dir : Digest256Map DirDescriptor) : Prop where
  kept : ∀ k entry, dir.lookup k = some entry → before.lookup k = some entry
  bytes : bytesRemoved = removedBytes size before dir
  leastFirst : ∀ k entry, before.lookup k = some entry → dir.lookup k = none →
    ∀ k' entry', before.lookup k' = some entry' → entry'.nDownloaded < entry.nDownloaded →
      dir.lookup k' = none

/-- The same between two rounds. -/
structure Evicting (size : Sizeof) (before : Digest256Map DirDescriptor) (bytesRemoved : ℕ)
    (dir : Digest256Map DirDescriptor) : Prop where
  kept : ∀ k entry, dir.lookup k = some entry → before.lookup k = some entry
  bytes : weight (cacheGetDirEntrySize size) dir + bytesRemoved =
    weight (cacheGetDirEntrySize size) before
  le : ∀ k entry, before.lookup k = some entry → dir.lookup k = none →
    ∀ k' entry', dir.lookup k' = some entry' → entry.nDownloaded ≤ entry'.nDownloaded

theorem Evicting.evicted (h : Evicting size before bytesRemoved dir) :
    Evicted size before bytesRemoved dir where
  kept := h.kept
  bytes := by
    have hsum := weight_add_missing (cacheGetDirEntrySize size) h.kept
    have hbytes := h.bytes
    rw [removedBytes]
    omega
  leastFirst := by
    intro k entry hlook hgone k' entry' hlook' hlt
    by_contra hleft
    obtain ⟨entry'', hleft⟩ := Option.ne_none_iff_exists'.mp hleft
    have heq := h.kept k' entry'' hleft
    rw [hlook'] at heq
    cases heq
    exact absurd hlt (Nat.not_lt.mpr (h.le k entry hlook hgone k' entry' hleft))

theorem Evicting.round {target : ℕ} (h : Evicting size before bytesRemoved dir)
    (htarget : ∀ k entry, dir.lookup k = some entry → target ≤ entry.nDownloaded)
    (maxRemoveBytes : ℕ) (it : DirIteration) (a : Allocation) : Evicting size before
      (bytesRemoved + (sweepRound size target maxRemoveBytes it a dir).1.bytesRemoved)
      (sweepRound size target maxRemoveBytes it a dir).2 := by
  have hswept := swept_sweep size target maxRemoveBytes it a dir
  constructor
  · exact fun k entry hlook => h.kept k entry (lookup_of_sweepAll _ it hlook)
  · have hbytes := hswept.bytes
    have hbefore := h.bytes
    omega
  · intro k entry hlook hgone k' entry' hleft
    have hleft := lookup_of_sweepAll _ it hleft
    cases hdir : dir.lookup k with
    | none => exact h.le k entry hlook hdir k' entry' hleft
    | some removed =>
      have heq := h.kept k removed hdir
      rw [hlook] at heq
      cases heq
      exact (hswept.least k entry hdir hgone).trans (htarget k' entry' hleft)

theorem oomRounds_evicting {fuel target n : ℕ} {s s' : State}
    (hrun : oomRounds size minRemoveBytes it fuel bytesRemoved target s = some (n, s'))
    (h : Evicting size before bytesRemoved s.dir)
    (htarget : ∀ k entry, s.dir.lookup k = some entry → target ≤ entry.nDownloaded)
    (hroom : bytesRemoved < minRemoveBytes) :
    Evicting size before n s'.dir ∧ (minRemoveBytes ≤ n ∨ s'.dir.entries = []) := by
  induction fuel generalizing bytesRemoved target s with
  | zero => cases hrun
  | succ fuel ih =>
    have hnext := h.round htarget (minRemoveBytes - bytesRemoved) it s.allocation
    have hpassed := passed_sweep size target (minRemoveBytes - bytesRemoved) it s.allocation s.dir
    rw [oomRounds_succ] at hrun
    dsimp only at hrun
    split_ifs at hrun with hempty hmore
    · cases hrun
      obtain ⟨hfreed, hlowest⟩ := hempty
      simp only [cacheCleanByDownloadedAsDir] at hfreed hlowest ⊢
      rw [hfreed, hlowest] at hpassed
      rw [hfreed] at hnext
      exact ⟨hnext, .inr (hpassed (Nat.sub_pos_of_lt hroom)).eq_nil⟩
    · have hleft := hpassed (Nat.lt_sub_iff_add_lt'.mpr hmore)
      refine ih hrun hnext ?_ hmore
      intro k entry hlook
      rcases hleft.above k entry hlook with hmem | ⟨-, -, hle⟩
      · cases hmem
      · exact hle
    · cases hrun
      exact ⟨hnext, .inl (Nat.not_lt.mp hmore)⟩

/-- The handler ends; it has removed as many bytes as it says and as it was asked for, or all of
them, and nothing before what was downloaded less. -/
theorem hsCacheHandleOom_evicts (size : Sizeof) (it : DirIteration) (s : State)
    (hmin : 0 < minRemoveBytes) :
    ∃ bytesRemoved s', hsCacheHandleOom size minRemoveBytes it s = some (bytesRemoved, s') ∧
      Evicted size s.dir bytesRemoved s'.dir ∧
      (minRemoveBytes ≤ bytesRemoved ∨ s'.dir.entries = []) := by
  have hmin' := Nat.ne_of_gt hmin
  obtain ⟨_, hend, -⟩ := @hsCacheHandleOom_spec size _ it (fun _ => True) (fun _ _ _ _ => trivial) s
    trivial hmin'
  obtain ⟨⟨bytesRemoved, s'⟩, hend, -⟩ := Option.map_eq_some_iff.mp hend
  have hstart : Evicting size s.dir 0 s.dir := by
    refine ⟨fun _ _ hlook => hlook, Nat.add_zero _, ?_⟩
    intro k entry hlook hgone
    rw [hlook] at hgone
    cases hgone
  have hrun := hend
  rw [hsCacheHandleOom, if_neg hmin'] at hrun
  obtain ⟨hevicting, henough⟩ :=
    oomRounds_evicting hrun hstart (fun _ _ _ => Nat.zero_le _) hmin
  exact ⟨bytesRemoved, s', hend, hevicting.evicted, henough⟩

/-- Two descriptors, of which the second was downloaded. -/
def twoDescriptors : State where
  dir := ((∅ : Digest256Map DirDescriptor).insert (SharedRandom.Digest256.replicate 1)
    ⟨100, ⟨10800, SharedRandom.Digest256.replicate 1, 1, 3⟩, [], 0⟩).insert
      (SharedRandom.Digest256.replicate 2) ⟨100, ⟨10800, SharedRandom.Digest256.replicate 2, 1, 3⟩, [], 4⟩
  client := ∅
  allocation := ⟨12, false, false⟩

theorem hsCacheHandleOom_evicts_two :
    ∃ bytesRemoved s', hsCacheHandleOom ⟨1, 1, 1, 1, 1, 1, 1, 1⟩ 9 ⟨id, fun _ => .refl _⟩
        twoDescriptors = some (bytesRemoved, s') ∧
      Evicted ⟨1, 1, 1, 1, 1, 1, 1, 1⟩ twoDescriptors.dir bytesRemoved s'.dir ∧
      (9 ≤ bytesRemoved ∨ s'.dir.entries = []) :=
  hsCacheHandleOom_evicts _ _ _ (by decide)

end Rounds

end TorDaemon.HiddenService.Cache

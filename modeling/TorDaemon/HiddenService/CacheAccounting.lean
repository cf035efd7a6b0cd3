import TorDaemon.HiddenService.CacheOom

/-! The counter of the bytes in the descriptor caches is the sum of the sizes of their
entries. -/
namespace TorDaemon.HiddenService.Cache
open Library.NetworkOrder Library.Reachability Library.Sweep Library.Tables

/-- The counter is at `n`, and has not been below zero. -/
structure Counts (a : Allocation) (n : ℕ) : Prop where
  total : a.total = n
  no_underflow : a.haveUnderflowed = false

theorem Counts.decrement {a : Allocation} {n k : ℕ} (h : Counts a (n + k)) :
    Counts (a.decrement k) n := by
  have hle : k ≤ a.total := h.total ▸ Nat.le_add_left k n
  rw [Allocation.decrement, if_pos hle]
  exact ⟨by simp [h.total], h.no_underflow⟩

theorem Counts.increment {a : Allocation} {n k : ℕ} (h : Counts a n) (hfits : n + k ≤ sizeMax) :
    Counts (a.increment k) (n + k) := by
  have hle : a.total ≤ sizeMax - k := by
    have htotal := h.total
    omega
  rw [Allocation.increment, if_pos hle]
  exact ⟨by simp [h.total], h.no_underflow⟩

/-- Each entry is under its own key. -/
def KeyedBy {α : Type} (key : α → Key) (m : Digest256Map α) : Prop :=
  ∀ k a, m.lookup k = some a → key a = k

section Loops
variable {α ρ : Type} {key : α → Key} {m : Digest256Map α} {k : Key} {a : α}
  {visit : ρ → α → ρ × Bool} {alloc : ρ → Allocation} {size : α → ℕ} {r : ρ} {rest : ℕ}

theorem KeyedBy.erase (h : KeyedBy key m) (k : Key) : KeyedBy key (m.erase k) := by
  intro k' a hlook
  by_cases heq : k' = k
  · subst heq
    simp at hlook
  · rw [AList.lookup_erase_ne heq] at hlook
    exact h k' a hlook

theorem KeyedBy.insert (h : KeyedBy key m) (hk : key a = k) : KeyedBy key (m.insert k a) := by
  intro k' a' hlook
  by_cases heq : k' = k
  · subst heq
    rw [AList.lookup_insert] at hlook
    exact Option.some.inj hlook ▸ hk
  · rw [AList.lookup_insert_ne heq] at hlook
    exact h k' a' hlook

theorem KeyedBy.sweepAll (h : KeyedBy key m) (it : Iteration (Σ _ : Key, α)) :
    KeyedBy key (sweepAll visit it r m).2 :=
  fun k a hlook => h k a (lookup_of_sweepAll visit it hlook)

/-- The loop takes from the counter the size of what it removes, and nothing else. -/
structure Frees (visit : ρ → α → ρ × Bool) (alloc : ρ → Allocation) (size : α → ℕ) : Prop where
  keep : ∀ r a, (visit r a).2 = false → alloc (visit r a).1 = alloc r
  remove : ∀ r a, (visit r a).2 = true → alloc (visit r a).1 = (alloc r).decrement (size a)

theorem Frees.sweepAll (h : Frees visit alloc size) (it : Iteration (Σ _ : Key, α))
    (hcounts : Counts (alloc r) (weight size m + rest)) :
    Counts (alloc (sweepAll visit it r m).1) (weight size (sweepAll visit it r m).2 + rest) := by
  apply sweepAll_rule visit (I := fun _ r m => Counts (alloc r) (weight size m + rest)) it _ hcounts
  intro e es r m he hcounts
  cases hvisit : (visit r e.2).2 with
  | false =>
    rw [h.keep r e.2 hvisit]
    exact hcounts
  | true =>
    rw [h.remove r e.2 hvisit]
    apply Counts.decrement
    have hweight := weight_erase size he
    rw [if_pos rfl]
    convert hcounts using 1
    omega

end Loops

section Members
variable (size : Sizeof)

theorem cleanByDownloaded_frees (target maxRemoveBytes : ℕ) :
    Frees (cleanByDownloadedVisit size target maxRemoveBytes) Cleaning.allocation
      (cacheGetDirEntrySize size) where
  keep := by
    intro r entry hkeep
    unfold cleanByDownloadedVisit at hkeep ⊢
    split_ifs at hkeep ⊢ <;> rfl
  remove := by
    intro r entry hremove
    unfold cleanByDownloadedVisit at hremove ⊢
    split_ifs at hremove ⊢
    rfl

theorem cleanAsDir_frees (now globalCutoff : ℤ) :
    Frees (cleanAsDirVisit size now globalCutoff) id (cacheGetDirEntrySize size) where
  keep := by
    intro a entry hkeep
    unfold cleanAsDirVisit at hkeep ⊢
    dsimp only at hkeep ⊢
    split_ifs at hkeep ⊢ <;> rfl
  remove := by
    intro a entry hremove
    unfold cleanAsDirVisit at hremove ⊢
    dsimp only at hremove ⊢
    split_ifs at hremove ⊢ <;> rfl

theorem cleanAsClient_frees (validAfter : Option ℤ) :
    Frees (cleanAsClientVisit size validAfter) id (cacheGetClientEntrySize size) where
  keep := by
    intro a entry hkeep
    unfold cleanAsClientVisit at hkeep ⊢
    split_ifs at hkeep ⊢
    rfl
  remove := by
    intro a entry hremove
    unfold cleanAsClientVisit at hremove ⊢
    split_ifs at hremove ⊢
    rfl

theorem purge_frees : Frees (purgeVisit size) id (cacheGetClientEntrySize size) where
  keep := by
    intro a entry hkeep
    cases hkeep
  remove := fun _ _ _ => rfl

end Members

/-- The sum of the sizes of all entries. -/
def cachedBytes (size : Sizeof) (s : State) : ℕ :=
  weight (cacheGetDirEntrySize size) s.dir + weight (cacheGetClientEntrySize size) s.client

/-- The counter is the sum, and has not been decremented below zero. -/
def Accounted (size : Sizeof) (s : State) : Prop := Counts s.allocation (cachedBytes size s)

structure Inv (size : Sizeof) (s : State) : Prop where
  accounted : Accounted size s
  dirKeyed : KeyedBy (fun desc => desc.plaintextData.blindedPubkey) s.dir
  clientKeyed : KeyedBy ClientDescriptor.key s.client

/-! ### The directory -/

section Directory
variable {size : Sizeof} {s : State} {it : DirIteration} {desc : DirDescriptor} {key : Key}

theorem cleanByDownloaded_spec (h : Inv size s) (target maxRemoveBytes : ℕ) :
    Inv size (cacheCleanByDownloadedAsDir size target maxRemoveBytes it s).2.2 where
  accounted := (cleanByDownloaded_frees size target maxRemoveBytes).sweepAll it h.accounted
  dirKeyed := h.dirKeyed.sweepAll it
  clientKeyed := h.clientKeyed

theorem handleOom_spec {minRemoveBytes : ℕ} (h : Inv size s) (hmin : minRemoveBytes ≠ 0) :
    ∃ s', (hsCacheHandleOom size minRemoveBytes it s).map Prod.snd = some s' ∧ Inv size s' := by
  apply hsCacheHandleOom_spec _ h hmin
  intro target maxRemoveBytes s h
  exact cleanByDownloaded_spec h target maxRemoveBytes

theorem cleanAsDir_spec (h : Inv size s) (now : ℤ) :
    ∃ s', hsCacheCleanAsDir size now it s = some s' ∧ Inv size s' := by
  refine ⟨_, rfl, ?_, h.dirKeyed.sweepAll it, h.clientKeyed⟩
  exact (cleanAsDir_frees size now 0).sweepAll it h.accounted

/-- What the other descriptors take, and this one, can be counted. -/
def FitsDir (size : Sizeof) (desc : DirDescriptor) (s : State) : Prop :=
  weight (cacheGetDirEntrySize size) (s.dir.erase desc.plaintextData.blindedPubkey) +
    weight (cacheGetClientEntrySize size) s.client + cacheGetDirEntrySize size desc ≤ sizeMax

theorem storeAsDir_spec (h : Inv size s)
    (hnew : s.dir.lookup desc.plaintextData.blindedPubkey = none) (hfits : FitsDir size desc s) :
    Inv size (storeAsDir size desc.plaintextData.blindedPubkey desc s) where
  accounted := by
    have hcounts := h.accounted.increment (k := cacheGetDirEntrySize size desc) (by
      unfold FitsDir at hfits
      rwa [weight_erase_of_none _ hnew] at hfits)
    unfold Accounted cachedBytes at *
    simp only [storeAsDir, weight_insert, weight_erase_of_none _ hnew]
    convert hcounts using 1
    omega
  dirKeyed := h.dirKeyed.insert rfl
  clientKeyed := h.clientKeyed

theorem removeAsDir_spec (h : Inv size s) (hlook : s.dir.lookup key = some desc) : Inv size { s with
      dir := s.dir.erase key
      allocation := s.allocation.decrement (cacheGetDirEntrySize size desc) } where
  accounted := by
    apply Counts.decrement
    have hweight := weight_erase (cacheGetDirEntrySize size) hlook
    have hcounts : Counts s.allocation (cachedBytes size s) := h.accounted
    convert hcounts using 1
    simp only [cachedBytes]
    omega
  dirKeyed := h.dirKeyed.erase key
  clientKeyed := h.clientKeyed

theorem replaceAsDir_spec (h : Inv size s) (hfits : FitsDir size desc s) :
    Inv size (replaceAsDir size desc s) := by
  unfold replaceAsDir
  dsimp only
  cases hlook : s.dir.lookup desc.plaintextData.blindedPubkey with
  | none => exact storeAsDir_spec h hlook hfits
  | some cacheEntry =>
    dsimp only
    split
    · exact h
    · have hkey : cacheEntry.plaintextData.blindedPubkey = desc.plaintextData.blindedPubkey :=
        h.dirKeyed _ cacheEntry hlook
      rw [hkey]
      apply @storeAsDir_spec size _ { desc with nDownloaded := cacheEntry.nDownloaded }
        (removeAsDir_spec h hlook) (AList.lookup_erase _ _)
      unfold FitsDir
      rw [weight_erase_erase]
      exact hfits

theorem pruneExcess_spec (maxCacheBytes : ℕ) (it : DirIteration) (h : Inv size s)
    (hfits : FitsDir size desc s) :
    ∃ s', pruneExcess size maxCacheBytes it s = some s' ∧ Inv size s' ∧ FitsDir size desc s' := by
  unfold pruneExcess
  dsimp only
  split
  · rename_i hexceeded
    apply hsCacheHandleOom_spec (P := fun s => Inv size s ∧ FitsDir size desc s) _ ⟨h, hfits⟩
    · split <;> omega
    · rintro target maxRemoveBytes s ⟨h, hfits⟩
      refine ⟨cleanByDownloaded_spec h target maxRemoveBytes, ?_⟩
      have hle := weight_sweepAll_le (cleanByDownloadedVisit size target maxRemoveBytes)
        (r := ⟨0, 0, s.allocation⟩) (m := s.dir) (cacheGetDirEntrySize size) it
        desc.plaintextData.blindedPubkey
      unfold FitsDir at hfits ⊢
      simp only [cacheCleanByDownloadedAsDir]
      omega
  · exact ⟨s, rfl, h, hfits⟩

theorem cacheStoreAsDir_spec {maxCacheBytes : ℕ} (h : Inv size s) (hfits : FitsDir size desc s) :
    ∃ s', cacheStoreAsDir size maxCacheBytes it desc s = some s' ∧ Inv size s' := by
  obtain ⟨s', hprune, hinv, hfits'⟩ := pruneExcess_spec maxCacheBytes it h hfits
  exact ⟨_, by rw [cacheStoreAsDir, hprune, Option.map_some], replaceAsDir_spec hinv hfits'⟩

theorem markDownloadedAsDir_spec (h : Inv size s) (blindedPk : Key) :
    Inv size (hsCacheMarkDownloadedAsDir blindedPk s) := by
  unfold hsCacheMarkDownloadedAsDir
  cases hlook : s.dir.lookup blindedPk with
  | none => exact h
  | some entry =>
    refine ⟨?_, h.dirKeyed.insert (h.dirKeyed _ entry hlook), h.clientKeyed⟩
    have haccounted := h.accounted
    unfold Accounted cachedBytes at *
    rwa [weight_update _ hlook]
    rfl

end Directory

/-! ### The client -/

section Client
variable {size : Sizeof} {s : State} {it : ClientIteration} {desc : ClientDescriptor} {key : Key}
  {validAfter : Option ℤ}

theorem lookupAsClient_eq_some (h : lookupAsClient validAfter key s = some desc) :
    s.client.lookup key = some desc :=
  (Option.filter_eq_some_iff.mp h).1

theorem removeAsClient_spec (h : Inv size s) (hlook : s.client.lookup key = some desc) :
    Inv size (removeAsClient size desc s) where
  accounted := by
    have hkey : desc.key = key := h.clientKeyed _ desc hlook
    apply Counts.decrement
    have hweight := weight_erase (cacheGetClientEntrySize size) hlook
    have hcounts : Counts s.allocation (cachedBytes size s) := h.accounted
    convert hcounts using 1
    simp only [cachedBytes, removeAsClient, hkey]
    omega
  dirKeyed := h.dirKeyed
  clientKeyed := h.clientKeyed.erase _

/-- What the other descriptors take, and this one, can be counted. -/
def FitsClient (size : Sizeof) (desc : ClientDescriptor) (s : State) : Prop :=
  weight (cacheGetDirEntrySize size) s.dir +
    weight (cacheGetClientEntrySize size) (s.client.erase desc.key) +
    cacheGetClientEntrySize size desc ≤ sizeMax

theorem storeAsClient_spec (h : Inv size s) (hnew : s.client.lookup desc.key = none)
    (hfits : FitsClient size desc s) : Inv size (storeAsClient size desc s) where
  accounted := by
    have hcounts := h.accounted.increment (k := cacheGetClientEntrySize size desc) (by
      unfold FitsClient at hfits
      rwa [weight_erase_of_none _ hnew] at hfits)
    unfold Accounted cachedBytes at *
    simp only [storeAsClient, weight_insert, weight_erase_of_none _ hnew]
    convert hcounts using 1
    omega
  dirKeyed := h.dirKeyed
  clientKeyed := h.clientKeyed.insert rfl

theorem storeOver_spec {old : ClientDescriptor} (h : Inv size s)
    (hlook : s.client.lookup desc.key = some old) (hfits : FitsClient size desc s) :
    Inv size (storeAsClient size desc (removeAsClient size old s)) := by
  have hkey : old.key = desc.key := h.clientKeyed _ old hlook
  apply storeAsClient_spec (removeAsClient_spec h hlook)
  · rw [removeAsClient, hkey]
    exact AList.lookup_erase _ _
  · unfold FitsClient
    simp only [removeAsClient, hkey, weight_erase_erase]
    exact hfits

/-- The descriptor does not replace one that has expired. -/
def NotOverExpired (validAfter : Option ℤ) (key : Key) (s : State) : Prop :=
  ∀ old, s.client.lookup key = some old → cachedClientDescriptorHasExpired validAfter old = false

theorem cacheStoreAsClient_spec (h : Inv size s) (hlive : NotOverExpired validAfter desc.key s)
    (hfits : FitsClient size desc s) : Inv size (cacheStoreAsClient size validAfter desc s) := by
  unfold cacheStoreAsClient
  cases hlookup : lookupAsClient validAfter desc.key s with
  | none =>
    apply storeAsClient_spec h _ hfits
    cases hlook : s.client.lookup desc.key with
    | none => rfl
    | some old => simp [lookupAsClient, hlook, hlive old hlook] at hlookup
  | some cacheEntry =>
    have hlook := lookupAsClient_eq_some hlookup
    dsimp only
    split
    · split
      · exact h
      · exact storeOver_spec h hlook hfits
    · exact storeOver_spec h hlook hfits

theorem removeAsClient_lookup_spec (h : Inv size s) :
    Inv size (hsCacheRemoveAsClient size validAfter key s) := by
  unfold hsCacheRemoveAsClient
  cases hlookup : lookupAsClient validAfter key s with
  | none => exact h
  | some cachedDesc => exact removeAsClient_spec h (lookupAsClient_eq_some hlookup)

theorem sweepClient_spec {visit : Allocation → ClientDescriptor → Allocation × Bool}
    (hfrees : Frees visit id (cacheGetClientEntrySize size)) (h : Inv size s) : Inv size { s with
      client := (sweepAll visit it s.allocation s.client).2
      allocation := (sweepAll visit it s.allocation s.client).1 } where
  accounted := by
    have haccounted := h.accounted
    unfold Accounted cachedBytes at *
    rw [Nat.add_comm] at haccounted ⊢
    exact hfrees.sweepAll it haccounted
  dirKeyed := h.dirKeyed
  clientKeyed := h.clientKeyed.sweepAll it

/-- No descriptor is decrypted in place. -/
def NotDecrypted (validAfter : Option ℤ) (servicePk : Key)
    (decoded : Except DecodeError HsDescriptor) (s : State) : Prop :=
  ∀ cachedDesc, lookupAsClient validAfter servicePk s = some cachedDesc →
    cachedDesc.desc = none → ∃ error, decoded = .error error

theorem newAuthParse_spec {decoded : Except DecodeError HsDescriptor}
    (h : NotDecrypted validAfter key decoded s) :
    hsCacheClientNewAuthParse validAfter key decoded s = s := by
  unfold hsCacheClientNewAuthParse
  cases hlookup : lookupAsClient validAfter key s with
  | none => rfl
  | some cachedDesc =>
    cases hdesc : cachedDesc.desc with
    | some desc => simp [hdesc]
    | none =>
      obtain ⟨error, rfl⟩ := h cachedDesc hlookup hdesc
      simp [hdesc]

end Client

/-! ### Runs -/

/-- The condition of each operation. -/
def StepOk (size : Sizeof) (s : State) : Op → Prop
  | .storeAsDir desc decoded now _ _ =>
    ∀ plaintextData, decoded = some plaintextData → FitsDir size ⟨now, plaintextData, desc, 0⟩ s
  | .handleOom minRemoveBytes _ => minRemoveBytes ≠ 0
  | .storeAsClient validAfter descStr identityPk expirationTs decoded =>
    ∀ clientDesc, cacheClientDescNew descStr identityPk expirationTs decoded = some clientDesc →
      NotOverExpired validAfter identityPk s ∧ FitsClient size clientDesc s
  | .newAuthParse validAfter servicePk decoded => NotDecrypted validAfter servicePk decoded s
  | _ => True

section Runs
variable {size : Sizeof} {s : State}

theorem step_spec {op : Op} (h : Inv size s) (hok : StepOk size s op) :
    ∃ s', step size s op = some s' ∧ Inv size s' := by
  cases op with
  | storeAsDir desc decoded now maxCacheBytes it =>
    cases decoded with
    | none => exact ⟨s, rfl, h⟩
    | some plaintextData => exact cacheStoreAsDir_spec h (hok plaintextData rfl)
  | markDownloadedAsDir blindedPk => exact ⟨_, rfl, markDownloadedAsDir_spec h blindedPk⟩
  | cleanAsDir now => exact cleanAsDir_spec h now
  | handleOom => exact handleOom_spec h hok
  | storeAsClient validAfter descStr identityPk expirationTs decoded =>
    refine ⟨_, rfl, ?_⟩
    unfold hsCacheStoreAsClient
    cases hnew : cacheClientDescNew descStr identityPk expirationTs decoded with
    | none => exact h
    | some clientDesc =>
      obtain ⟨hlive, hfits⟩ := hok clientDesc hnew
      have hkey : clientDesc.key = identityPk := by
        unfold cacheClientDescNew at hnew
        split at hnew <;> cases hnew <;> rfl
      exact cacheStoreAsClient_spec h (hkey ▸ hlive) hfits
  | removeAsClient => exact ⟨_, rfl, removeAsClient_lookup_spec h⟩
  | cleanAsClient validAfter => exact ⟨_, rfl, sweepClient_spec (cleanAsClient_frees size validAfter) h⟩
  | purgeAsClient => exact ⟨_, rfl, sweepClient_spec (purge_frees size) h⟩
  | newAuthParse => exact ⟨s, congrArg some (newAuthParse_spec hok), h⟩

theorem inv_init (size : Sizeof) : Inv size .init where
  accounted := ⟨rfl, rfl⟩
  dirKeyed := by
    intro k desc hlook
    simp [State.init] at hlook
  clientKeyed := by
    intro k desc hlook
    simp [State.init] at hlook

/-- Where no descriptor is stored over an expired one or decrypted in the cache, the counter
is the sum of the sizes. -/
theorem cache_accounted {ops : List Op} (hok : Guarded (step size) (StepOk size) .init ops) :
    ∃ s', run (step size) .init ops = some s' ∧ s'.allocation.total = cachedBytes size s' ∧
      s'.allocation.haveUnderflowed = false := by
  obtain ⟨s', hs', hinv⟩ := exists_run (inv_init size) hok step_spec
  exact ⟨s', hs', hinv.accounted.total, hinv.accounted.no_underflow⟩

end Runs

section Onion

/-- Sizes for a run: one byte each. -/
def oneByte : Sizeof := ⟨1, 1, 1, 1, 1, 1, 1, 1⟩

def onionKey : Key := SharedRandom.Digest256.replicate 7

def onionDesc : HsDescriptor := ⟨⟨10800, onionKey, 1, 3⟩, some 1, some 3⟩

/-- A client stores a descriptor before the given time. -/
def storeOnion (expirationTs : ℤ) (decoded : Except DecodeError HsDescriptor) : Op :=
  .storeAsClient (some 50) [1, 2, 3] onionKey expirationTs decoded

theorem cache_accounted_onion :
    ∃ s', run (step oneByte) .init [storeOnion 100 (.ok onionDesc), storeOnion 100 (.ok onionDesc)] =
        some s' ∧ s'.allocation.total = cachedBytes oneByte s' ∧
      s'.allocation.haveUnderflowed = false := by
  apply cache_accounted
  constructor
  · rintro clientDesc hnew
    cases hnew
    exact ⟨by simp [NotOverExpired, State.init], by unfold FitsClient; decide⟩
  · intro s hs
    obtain rfl := Option.some.inj hs
    refine ⟨?_, fun _ _ => trivial⟩
    rintro clientDesc hnew
    cases hnew
    refine ⟨?_, by unfold FitsClient; decide⟩
    intro old hold
    obtain rfl := Option.some.inj hold
    rfl

/-- A descriptor that was stored without client authorization is decrypted when that
arrives, and then removed. -/
theorem decrypted_descriptor_underflows :
    ∃ s', run (step oneByte) .init [storeOnion 100 (.error .needClientAuth),
        .newAuthParse (some 50) onionKey (.ok onionDesc), .removeAsClient (some 50) onionKey] =
          some s' ∧ s'.allocation.haveUnderflowed = true :=
  ⟨_, rfl, rfl⟩

end Onion

end TorDaemon.HiddenService.Cache

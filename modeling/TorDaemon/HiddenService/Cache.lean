import TorDaemon.HiddenService.HsdirIndex
import TorDaemon.Library.Tables

/-! The descriptor caches of a directory and of a client, and the counter of the bytes in
them (`hs_cache.c`). Decoding a descriptor is left to the caller; a failed assertion, or a
loop that does not end, is `none`. -/
namespace TorDaemon.HiddenService.Cache
open Library.NetworkOrder Library.Sweep Library.Tables

/-- A blinded key, or a service's identity key. -/
abbrev Key := Ed25519PublicKey

abbrev Digest256Map (α : Type) := AList fun _ : Key => α

structure PlaintextData where
  lifetimeSec : ℕ
  blindedPubkey : Key
  revisionCounter : ℕ
  superencryptedBlobSize : ℕ
  deriving DecidableEq

/-- A decrypted descriptor, with the lengths of two lists where it has them. -/
structure HsDescriptor where
  plaintextData : PlaintextData
  introAuthTypes : Option ℕ
  introPoints : Option ℕ
  deriving DecidableEq

structure DirDescriptor where
  createdTs : ℤ
  plaintextData : PlaintextData
  encodedDesc : Bytes
  nDownloaded : ℕ
  deriving DecidableEq

structure ClientDescriptor where
  key : Key
  expirationTs : ℤ
  desc : Option HsDescriptor
  encodedDesc : Bytes
  deriving DecidableEq

/-- What `sizeof` says of the structures. -/
structure Sizeof where
  dirDescriptor : ℕ
  clientDescriptor : ℕ
  plaintextData : ℕ
  signingKeyCert : ℕ
  encryptedData : ℕ
  introAuthTypes : ℕ
  introPoint : ℕ
  subcredential : ℕ

def sizeMax : ℕ := 2 ^ 64 - 1

/-- `hs_cache_total_allocation`, and whether one of the two warnings was given. -/
structure Allocation where
  total : ℕ
  haveUnderflowed : Bool
  haveOverflowed : Bool
  deriving DecidableEq

def Allocation.decrement (a : Allocation) (n : ℕ) : Allocation :=
  if n ≤ a.total then { a with total := a.total - n }
  else { a with total := 0, haveUnderflowed := true }

def Allocation.increment (a : Allocation) (n : ℕ) : Allocation :=
  if a.total ≤ sizeMax - n then { a with total := a.total + n }
  else { a with total := sizeMax, haveOverflowed := true }

structure State where
  dir : Digest256Map DirDescriptor
  client : Digest256Map ClientDescriptor
  allocation : Allocation

def State.init : State := ⟨∅, ∅, ⟨0, false, false⟩⟩

section Sizes
variable (size : Sizeof)

def hsDescPlaintextObjSize (data : PlaintextData) : ℕ :=
  size.plaintextData + size.signingKeyCert + data.superencryptedBlobSize

def hsDescEncryptedObjSize (data : HsDescriptor) : ℕ :=
  size.encryptedData + data.introAuthTypes.getD 0 * size.introAuthTypes +
    data.introPoints.getD 0 * size.introPoint

def hsDescObjSize (data : HsDescriptor) : ℕ :=
  hsDescPlaintextObjSize size data.plaintextData + hsDescEncryptedObjSize size data +
    size.subcredential

def cacheGetDirEntrySize (entry : DirDescriptor) : ℕ :=
  size.dirDescriptor + hsDescPlaintextObjSize size entry.plaintextData + entry.encodedDesc.length

def cacheGetClientEntrySize (entry : ClientDescriptor) : ℕ :=
  size.clientDescriptor + entry.encodedDesc.length + (entry.desc.map (hsDescObjSize size)).getD 0

end Sizes

/-! ### The directory's cache -/

section Directory
variable (size : Sizeof)

abbrev DirIteration := Iteration (Σ _ : Key, DirDescriptor)

/-- The variables of the loop below. -/
structure Cleaning where
  bytesRemoved : ℕ
  lowest : ℕ
  allocation : Allocation

def cleanByDownloadedVisit (target maxRemoveBytes : ℕ) (r : Cleaning) (entry : DirDescriptor) :
    Cleaning × Bool :=
  if target < entry.nDownloaded then
    ({ r with
      lowest := if r.lowest = 0 ∨ entry.nDownloaded < r.lowest then entry.nDownloaded
        else r.lowest }, false)
  else if maxRemoveBytes ≤ r.bytesRemoved then (r, false)
  else
    let entrySize := cacheGetDirEntrySize size entry
    (⟨r.bytesRemoved + entrySize, r.lowest, r.allocation.decrement entrySize⟩, true)

/-- `cache_clean_v3_by_downloaded_as_dir`, with the bytes freed and the next lowest count. -/
def cacheCleanByDownloadedAsDir (target maxRemoveBytes : ℕ) (it : DirIteration) (s : State) :
    ℕ × ℕ × State :=
  let (r, dir) :=
    sweepAll (cleanByDownloadedVisit size target maxRemoveBytes) it ⟨0, 0, s.allocation⟩ s.dir
  (r.bytesRemoved, r.lowest, { s with dir := dir, allocation := r.allocation })

/-- The rounds, of which there are at most `fuel`, with the bytes that were removed. -/
def oomRounds (minRemoveBytes : ℕ) (it : DirIteration) : ℕ → ℕ → ℕ → State → Option (ℕ × State)
  | 0, _, _, _ => none
  | fuel + 1, bytesRemoved, target, s =>
    let (bytesFreed, target, s) :=
      cacheCleanByDownloadedAsDir size target (minRemoveBytes - bytesRemoved) it s
    if bytesFreed = 0 ∧ target = 0 then some (bytesRemoved, s)
    else if bytesRemoved + bytesFreed < minRemoveBytes then
      oomRounds minRemoveBytes it fuel (bytesRemoved + bytesFreed) target s
    else some (bytesRemoved + bytesFreed, s)

/-- `hs_cache_handle_oom`. After the first round each one removes something. -/
def hsCacheHandleOom (minRemoveBytes : ℕ) (it : DirIteration) (s : State) : Option (ℕ × State) :=
  if minRemoveBytes = 0 then none
  else oomRounds size minRemoveBytes it (s.dir.entries.length + 2) 0 0 s

/-- `HSCACHE_PRUNE_SPARE_ROOM`: 1000 times `HS_DESC_MAX_LEN`. -/
def pruneSpareRoom : ℕ := 1000 * 50000

def pruneExcess (maxCacheBytes : ℕ) (it : DirIteration) (s : State) : Option State :=
  let currentCacheBytes := s.allocation.total
  if 0 < maxCacheBytes ∧ maxCacheBytes < currentCacheBytes then
    (hsCacheHandleOom size
      (if pruneSpareRoom < maxCacheBytes then currentCacheBytes - (maxCacheBytes - pruneSpareRoom)
       else currentCacheBytes / 2) it s).map Prod.snd
  else some s

def storeAsDir (key : Key) (desc : DirDescriptor) (s : State) : State :=
  { s with
    dir := s.dir.insert key desc
    allocation := s.allocation.increment (cacheGetDirEntrySize size desc) }

/-- `cache_store_v3_as_dir`, after the pruning. A descriptor that is not newer is rejected. -/
def replaceAsDir (desc : DirDescriptor) (s : State) : State :=
  let key := desc.plaintextData.blindedPubkey
  match s.dir.lookup key with
  | none => storeAsDir size key desc s
  | some cacheEntry =>
    if desc.plaintextData.revisionCounter ≤ cacheEntry.plaintextData.revisionCounter then s
    else
      storeAsDir size key { desc with nDownloaded := cacheEntry.nDownloaded }
        { s with
          dir := s.dir.erase cacheEntry.plaintextData.blindedPubkey
          allocation := s.allocation.decrement (cacheGetDirEntrySize size cacheEntry) }

def cacheStoreAsDir (maxCacheBytes : ℕ) (it : DirIteration) (desc : DirDescriptor) (s : State) :
    Option State :=
  (pruneExcess size maxCacheBytes it s).map (replaceAsDir size desc)

/-- `hs_cache_store_as_dir`, given what `hs_desc_decode_plaintext` makes of the descriptor. -/
def hsCacheStoreAsDir (desc : Bytes) (decoded : Option PlaintextData) (now : ℤ)
    (maxCacheBytes : ℕ) (it : DirIteration) (s : State) : Option State :=
  match decoded with
  | none => some s
  | some plaintextData => cacheStoreAsDir size maxCacheBytes it ⟨now, plaintextData, desc, 0⟩ s

/-- `hs_cache_mark_dowloaded_as_dir`. -/
def hsCacheMarkDownloadedAsDir (blindedPk : Key) (s : State) : State :=
  match s.dir.lookup blindedPk with
  | none => s
  | some entry =>
    let entry := { entry with nDownloaded := (entry.nDownloaded + 1) % 2 ^ 64 }
    { s with dir := s.dir.insert blindedPk entry }

def cleanAsDirVisit (now globalCutoff : ℤ) (a : Allocation) (entry : DirDescriptor) :
    Allocation × Bool :=
  let cutoff := if globalCutoff = 0 then now - entry.plaintextData.lifetimeSec else globalCutoff
  if cutoff < entry.createdTs then (a, false)
  else (a.decrement (cacheGetDirEntrySize size entry), true)

def cacheCleanAsDir (now globalCutoff : ℤ) (it : DirIteration) (s : State) : Option State :=
  if globalCutoff < 0 then none
  else
    let (allocation, dir) := sweepAll (cleanAsDirVisit size now globalCutoff) it s.allocation s.dir
    some { s with dir := dir, allocation := allocation }

def hsCacheCleanAsDir (now : ℤ) (it : DirIteration) (s : State) : Option State :=
  cacheCleanAsDir size now 0 it s

end Directory

/-! ### The client's cache -/

inductive DecodeError
  | badClientAuth
  | needClientAuth
  | encryptedError
  | superencError
  | plaintextError
  | genericError
  deriving DecidableEq

/-- Compared with the valid-after time of a reasonably live consensus, if there is one. -/
def cachedClientDescriptorHasExpired (validAfter : Option ℤ) (cachedDesc : ClientDescriptor) :
    Bool :=
  match validAfter with
  | none => true
  | some validAfter => cachedDesc.expirationTs ≤ validAfter

section Client
variable (size : Sizeof)

abbrev ClientIteration := Iteration (Σ _ : Key, ClientDescriptor)

def removeAsClient (desc : ClientDescriptor) (s : State) : State :=
  { s with
    client := s.client.erase desc.key
    allocation := s.allocation.decrement (cacheGetClientEntrySize size desc) }

/-- `store_v3_desc_as_client`. An entry that it finds under the key is freed. -/
def storeAsClient (desc : ClientDescriptor) (s : State) : State :=
  { s with
    client := s.client.insert desc.key desc
    allocation := s.allocation.increment (cacheGetClientEntrySize size desc) }

section
variable (validAfter : Option ℤ)

/-- `lookup_v3_desc_as_client`. Expired entries are not returned. -/
def lookupAsClient (key : Key) (s : State) : Option ClientDescriptor :=
  (s.client.lookup key).filter fun desc => !cachedClientDescriptorHasExpired validAfter desc

/-- Without client authorization the descriptor is kept as it is. -/
def cacheClientDescNew (descStr : Bytes) (serviceIdentityPk : Key) (expirationTs : ℤ) :
    Except DecodeError HsDescriptor → Option ClientDescriptor
  | .ok desc => some ⟨serviceIdentityPk, expirationTs, some desc, descStr⟩
  | .error .needClientAuth => some ⟨serviceIdentityPk, expirationTs, none, descStr⟩
  | .error .badClientAuth => some ⟨serviceIdentityPk, expirationTs, none, descStr⟩
  | .error _ => none

def cacheStoreAsClient (clientDesc : ClientDescriptor) (s : State) : State :=
  match lookupAsClient validAfter clientDesc.key s with
  | none => storeAsClient size clientDesc s
  | some cacheEntry =>
    match cacheEntry.desc, clientDesc.desc with
    | some old, some new =>
      if new.plaintextData.revisionCounter < old.plaintextData.revisionCounter then s
      else storeAsClient size clientDesc (removeAsClient size cacheEntry s)
    | _, _ => storeAsClient size clientDesc (removeAsClient size cacheEntry s)

/-- `hs_cache_store_as_client`, given what `hs_client_decode_descriptor` makes of the
descriptor and the start of the next time period. -/
def hsCacheStoreAsClient (descStr : Bytes) (identityPk : Key)
    (expirationTs : ℤ) (decoded : Except DecodeError HsDescriptor) (s : State) : State :=
  match cacheClientDescNew descStr identityPk expirationTs decoded with
  | none => s
  | some clientDesc => cacheStoreAsClient size validAfter clientDesc s

def hsCacheRemoveAsClient (key : Key) (s : State) : State :=
  match lookupAsClient validAfter key s with
  | none => s
  | some cachedDesc => removeAsClient size cachedDesc s

def cleanAsClientVisit (a : Allocation) (entry : ClientDescriptor) : Allocation × Bool :=
  if cachedClientDescriptorHasExpired validAfter entry then
    (a.decrement (cacheGetClientEntrySize size entry), true)
  else (a, false)

def hsCacheCleanAsClient (it : ClientIteration) (s : State) : State :=
  let (allocation, client) := sweepAll (cleanAsClientVisit size validAfter) it s.allocation s.client
  { s with client := client, allocation := allocation }

def purgeVisit (a : Allocation) (entry : ClientDescriptor) : Allocation × Bool :=
  (a.decrement (cacheGetClientEntrySize size entry), true)

def hsCachePurgeAsClient (it : ClientIteration) (s : State) : State :=
  let (allocation, client) := sweepAll (purgeVisit size) it s.allocation s.client
  { s with client := client, allocation := allocation }

/-- `hs_cache_client_new_auth_parse`, given what `hs_client_decode_descriptor` makes of the
cached descriptor. -/
def hsCacheClientNewAuthParse (servicePk : Key)
    (decoded : Except DecodeError HsDescriptor) (s : State) : State :=
  match lookupAsClient validAfter servicePk s with
  | none => s
  | some cachedDesc =>
    if cachedDesc.desc.isSome then s
    else
      match decoded with
      | .error _ => s
      | .ok desc =>
        let cachedDesc := { cachedDesc with desc := some desc }
        { s with client := s.client.insert servicePk cachedDesc }

end

end Client

inductive Op
  | storeAsDir (desc : Bytes) (decoded : Option PlaintextData) (now : ℤ) (maxCacheBytes : ℕ)
      (it : DirIteration)
  | markDownloadedAsDir (blindedPk : Key)
  | cleanAsDir (now : ℤ) (it : DirIteration)
  | handleOom (minRemoveBytes : ℕ) (it : DirIteration)
  | storeAsClient (validAfter : Option ℤ) (descStr : Bytes) (identityPk : Key) (expirationTs : ℤ)
      (decoded : Except DecodeError HsDescriptor)
  | removeAsClient (validAfter : Option ℤ) (key : Key)
  | cleanAsClient (validAfter : Option ℤ) (it : ClientIteration)
  | purgeAsClient (it : ClientIteration)
  | newAuthParse (validAfter : Option ℤ) (servicePk : Key)
      (decoded : Except DecodeError HsDescriptor)

def step (size : Sizeof) (s : State) : Op → Option State
  | .storeAsDir desc decoded now maxCacheBytes it =>
    hsCacheStoreAsDir size desc decoded now maxCacheBytes it s
  | .markDownloadedAsDir blindedPk => some (hsCacheMarkDownloadedAsDir blindedPk s)
  | .cleanAsDir now it => hsCacheCleanAsDir size now it s
  | .handleOom minRemoveBytes it => (hsCacheHandleOom size minRemoveBytes it s).map Prod.snd
  | .storeAsClient validAfter descStr identityPk expirationTs decoded =>
    some (hsCacheStoreAsClient size validAfter descStr identityPk expirationTs decoded s)
  | .removeAsClient validAfter key => some (hsCacheRemoveAsClient size validAfter key s)
  | .cleanAsClient validAfter it => some (hsCacheCleanAsClient size validAfter it s)
  | .purgeAsClient it => some (hsCachePurgeAsClient size it s)
  | .newAuthParse validAfter servicePk decoded =>
    some (hsCacheClientNewAuthParse validAfter servicePk decoded s)

end TorDaemon.HiddenService.Cache

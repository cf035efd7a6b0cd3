import TorDaemon.Common
import TorDaemon.Library.Reachability
import TorDaemon.SharedRandom.Agreement

/-! The sampled, confirmed and primary entry guards of a guard selection (`entrynodes.c`).
A guard is a cell of a heap, of which the selection says which ones are live. -/
namespace TorDaemon.Client.Entrynodes
open Library.NetworkOrder Library.Reachability Library.Sorting SharedRandom

abbrev GuardId := ℕ

def zeroDigest : Digest := Digest.replicate 0

structure AddrPort where
  addr : Bytes
  port : ℕ
  deriving DecidableEq

inductive Reachable
  | no
  | yes
  | maybe
  deriving DecidableEq

structure EntryGuard where
  identity : Digest
  bridgeAddr : Option AddrPort
  sampledOnDate : ℤ
  unlistedSinceDate : ℤ
  currentlyListed : Bool
  confirmedOnDate : ℤ
  sampledIdx : ℤ
  confirmedIdx : ℤ
  lastTriedToConnect : ℤ
  isReachable : Reachable
  isPending : Bool
  failingSince : ℤ
  isFilteredGuard : Bool
  isUsableFilteredGuard : Bool
  isPrimary : Bool
  deriving DecidableEq

inductive SelectionType
  | normal
  | bridge
  | restricted
  deriving DecidableEq

structure GuardSelection where
  type : SelectionType
  primaryGuardsUpToDate : Bool
  sampledEntryGuards : List GuardId
  confirmedEntryGuards : List GuardId
  primaryEntryGuards : List GuardId
  lastTimeOnInternet : ℤ
  nextConfirmedIdx : ℤ
  nextSampledIdx : ℤ
  heap : GuardId → EntryGuard
  live : GuardId → Bool
  /-- The cell of the next guard. -/
  nextGuard : GuardId

/-- What a cell holds before it is a guard. -/
def blankGuard : EntryGuard :=
  ⟨zeroDigest, none, 0, 0, false, 0, 0, 0, 0, .no, false, 0, false, false, false⟩

def guardSelectionNew (type : SelectionType) : GuardSelection :=
  ⟨type, false, [], [], [], 0, 0, 0, fun _ => blankGuard, fun _ => false, 0⟩

/-! ### The world of an operation -/

structure Node where
  identity : Digest
  isPossibleGuard : Bool
  passesGuardFilter : Bool
  hasPreferredDescriptor : Bool
  deriving DecidableEq

structure BridgeInfo where
  identity : Digest
  addrPort : AddrPort
  passesGuardFilter : Bool
  deriving DecidableEq

/-- A sort by a number that each guard has. -/
abbrev compareBy (key : GuardId → ℤ) : GuardId → GuardId → Ordering := compareOn key

/-- The options, parameters, lists and random choices that an operation meets. -/
structure Env where
  now : ℤ
  reasonablyLiveConsensus : Bool
  nodelist : List Node
  bridgeList : List BridgeInfo
  nodesInSameFamily : Node → Node → Bool
  enforceDistinctSubnets : Bool
  inSameNetwork : Node → AddrPort → Bool
  isOutdatedDirserver : Digest → Bool
  /-- Identities that the digest set contains without having been given them. -/
  falsePositive : Digest → Bool
  chooseNode : List Node → Option Node
  chooseNode_mem : ∀ l n, chooseNode l = some n → n ∈ l
  chooseBridge : List BridgeInfo → Option BridgeInfo
  chooseBridge_mem : ∀ l b, chooseBridge l = some b → b ∈ l
  qsort : ∀ key, Qsort (compareBy key)
  minFilteredSampleSize : ℕ
  maxSampleByPct : ℕ → ℕ
  maxSampleSizeAbsolute : ℕ
  nPrimaryGuards : ℕ
  randomizeTime : GuardId → ℤ
  pathBiasDisabled : GuardId → Bool
  removeUnlistedGuardsAfter : ℤ
  guardLifetime : ℤ
  guardConfirmedMinLifetime : ℤ
  internetLikelyDownInterval : ℤ

inductive Restriction
  | exitNode (excludeId : Digest)
  | outdatedMdDirserver
  | exclList (excludeId : Digest) (excluded : List Digest)
  deriving DecidableEq

def GuardSelection.modify (g : GuardId) (f : EntryGuard → EntryGuard) (gs : GuardSelection) :
    GuardSelection :=
  { gs with heap := Function.update gs.heap g (f (gs.heap g)) }

/-- The guard gets a new cell, at the end of the sample. -/
def GuardSelection.add (guard : EntryGuard) (gs : GuardSelection) : GuardSelection :=
  { gs with
    sampledEntryGuards := gs.sampledEntryGuards ++ [gs.nextGuard]
    nextSampledIdx := gs.nextSampledIdx + 1
    heap := Function.update gs.heap gs.nextGuard guard
    live := Function.update gs.live gs.nextGuard true
    nextGuard := gs.nextGuard + 1 }

section World
variable (env : Env)

def nodeGetById (id : Digest) : Option Node := env.nodelist.find? fun node => node.identity = id

section
variable (guard : EntryGuard)

def guardHasDescriptor : Bool :=
  (nodeGetById env guard.identity).any Node.hasPreferredDescriptor

/-- The identity, unless it is not known. -/
def bridgeGetRsaIdDigest (bridge : BridgeInfo) : Option Digest :=
  if bridge.identity = zeroDigest then none else some bridge.identity

/-- `get_bridge_info_for_guard`, with the look-up by exact address. -/
def getBridgeInfoForGuard : Option BridgeInfo :=
  guard.bridgeAddr.bind fun addrPort => env.bridgeList.find? fun bridge =>
    bridge.addrPort = addrPort &&
      (guard.identity = zeroDigest || bridge.identity = guard.identity ||
        bridge.identity = zeroDigest)

def guardInNodeFamily (node : Node) : Bool :=
  match nodeGetById env guard.identity with
  | some guardNode => env.nodesInSameFamily guardNode node
  | none => env.enforceDistinctSubnets && guard.bridgeAddr.any (env.inSameNetwork node)

def guardObeysExitRestriction (excludeId : Digest) : Bool :=
  !(nodeGetById env excludeId).any (guardInNodeFamily env guard) && guard.identity ≠ excludeId

def entryGuardObeysRestriction : Option Restriction → Bool
  | none => true
  | some (.exitNode excludeId) => guardObeysExitRestriction env guard excludeId
  | some .outdatedMdDirserver => !env.isOutdatedDirserver guard.identity
  | some (.exclList excludeId excluded) =>
    guardObeysExitRestriction env guard excludeId && !excluded.contains guard.identity

end

def entryGuardPassesFilter (type : SelectionType) (g : GuardId) (guard : EntryGuard) : Bool :=
  guard.currentlyListed && !env.pathBiasDisabled g &&
    if type = .bridge then (getBridgeInfoForGuard env guard).any BridgeInfo.passesGuardFilter
    else (nodeGetById env guard.identity).any Node.passesGuardFilter

def entryGuardIsListed (type : SelectionType) (guard : EntryGuard) : Bool :=
  if type = .bridge then (getBridgeInfoForGuard env guard).isSome
  else (nodeGetById env guard.identity).any Node.isPossibleGuard

end World

/-! ### Retries and filters -/

/-- The delays for a primary and for any other guard, with what is the longest time that a
guard has been failing for them. -/
def retryDelays : List (ℤ × ℤ × ℤ) :=
  [(6 * 3600, 10 * 60, 1 * 60 * 60), (4 * 86400, 90 * 60, 4 * 60 * 60),
    (7 * 86400, 4 * 60 * 60, 18 * 60 * 60)]

def getRetrySchedule (failingSince now : ℤ) (isPrimary : Bool) : ℤ :=
  let tdiff := if failingSince < now then now - failingSince else 0
  let (_, primaryDelay, nonprimaryDelay) :=
    (retryDelays.find? fun delay => tdiff ≤ delay.1).getD (0, 9 * 60 * 60, 36 * 60 * 60)
  if isPrimary then primaryDelay else nonprimaryDelay

def markMaybe (guard : EntryGuard) : EntryGuard :=
  { guard with
    isReachable := .maybe
    isUsableFilteredGuard := guard.isFilteredGuard || guard.isUsableFilteredGuard }

section Flags
variable (env : Env)

section
variable (gs : GuardSelection)

def entryGuardConsiderRetry (g : GuardId) : GuardSelection :=
  let guard := gs.heap g
  if guard.isReachable ≠ .no then gs
  else if guard.bridgeAddr.isSome && !guardHasDescriptor env guard then gs
  else if guard.lastTriedToConnect = 0 ∨ guard.lastTriedToConnect +
      getRetrySchedule guard.failingSince env.now guard.isPrimary ≤ env.now then
    gs.modify g markMaybe
  else gs

def entryGuardSetFilteredFlags (g : GuardId) : GuardSelection :=
  let wasFiltered := (gs.heap g).isFilteredGuard
  let passes := entryGuardPassesFilter env gs.type g (gs.heap g)
  let gs := gs.modify g fun guard =>
    { guard with
      isFilteredGuard := passes
      isUsableFilteredGuard := passes && guard.isReachable ≠ .no }
  let gs := if passes then entryGuardConsiderRetry env gs g else gs
  if wasFiltered = passes then gs else { gs with primaryGuardsUpToDate := false }

def entryGuardsUpdateFilteredSets : GuardSelection :=
  gs.sampledEntryGuards.foldl (entryGuardSetFilteredFlags env) gs

def considerRetries : GuardSelection :=
  gs.sampledEntryGuards.foldl (entryGuardConsiderRetry env) gs

end

/-- The number, and the selection after the retries. -/
def numReachableFilteredGuards (rst : Option Restriction) (gs : GuardSelection) :
    ℕ × GuardSelection :=
  let gs := considerRetries env gs
  ((gs.sampledEntryGuards.filter fun g =>
    entryGuardObeysRestriction env (gs.heap g) rst && (gs.heap g).isUsableFilteredGuard).length, gs)

end Flags

/-! ### The sample -/

section Sample
variable (env : Env)

def getSampledGuardWithId (gs : GuardSelection) (id : Digest) : Option GuardId :=
  gs.sampledEntryGuards.find? fun g => (gs.heap g).identity = id

def getSampledGuardByBridgeAddr (gs : GuardSelection) (addrPort : AddrPort) : Option GuardId :=
  gs.sampledEntryGuards.find? fun g => (gs.heap g).bridgeAddr = some addrPort

def getSampledGuardForBridge (gs : GuardSelection) (bridge : BridgeInfo) : Option GuardId :=
  (getSampledGuardByBridgeAddr gs bridge.addrPort).filter fun g =>
    (bridgeGetRsaIdDigest bridge).all fun id => id = (gs.heap g).identity

def entryGuardAddToSampleImpl (rsaIdDigest : Option Digest) (bridgeAddrPort : Option AddrPort)
    (gs : GuardSelection) : GuardId × GuardSelection :=
  let g := gs.nextGuard
  let guard : EntryGuard :=
    { blankGuard with
      identity := rsaIdDigest.getD zeroDigest
      bridgeAddr := bridgeAddrPort
      sampledOnDate := env.randomizeTime g
      currentlyListed := true
      sampledIdx := gs.nextSampledIdx
      confirmedIdx := -1
      isReachable := .maybe }
  (g, entryGuardSetFilteredFlags env (gs.add guard) g)

def entryGuardAddToSample (node : Node) (gs : GuardSelection) : Option (GuardId × GuardSelection) :=
  if (getSampledGuardWithId gs node.identity).isSome then none
  else some (entryGuardAddToSampleImpl env (some node.identity) none gs)

def entryGuardAddBridgeToSample (bridge : BridgeInfo) (gs : GuardSelection) :
    Option (GuardId × GuardSelection) :=
  if (getSampledGuardForBridge gs bridge).isSome then none
  else some (entryGuardAddToSampleImpl env (bridgeGetRsaIdDigest bridge) (some bridge.addrPort) gs)

/-- The nodes and the bridges that can be sampled; one of the two lists is empty. -/
structure Eligible where
  nodes : List Node
  bridges : List BridgeInfo

def Eligible.length (eligible : Eligible) : ℕ := eligible.nodes.length + eligible.bridges.length

/-- With the number of all guards, of which some are sampled already. -/
def getEligibleGuards (gs : GuardSelection) : Eligible × ℕ :=
  if gs.type = .bridge then
    (⟨[], env.bridgeList.filter fun bridge => (getSampledGuardForBridge gs bridge).isNone⟩,
      env.bridgeList.length)
  else
    let guards := env.nodelist.filter fun node =>
      node.isPossibleGuard && (gs.type ≠ .restricted || node.passesGuardFilter)
    (⟨guards.filter fun node => !(env.falsePositive node.identity ||
      (gs.sampledEntryGuards.map fun g => (gs.heap g).identity).contains node.identity), []⟩,
      guards.length)

def selectAndAddGuardItemForSample (eligible : Eligible) (gs : GuardSelection) :
    Option (Eligible × GuardId × GuardSelection) :=
  if gs.type = .bridge then
    (env.chooseBridge eligible.bridges).bind fun bridge =>
      (entryGuardAddBridgeToSample env bridge gs).map fun added =>
        ({ eligible with bridges := eligible.bridges.erase bridge }, added)
  else
    (env.chooseNode eligible.nodes).bind fun node =>
      (entryGuardAddToSample env node gs).map fun added =>
        ({ eligible with nodes := eligible.nodes.erase node }, added)

/-- Bridges have no maximum. -/
def getMaxSampleSize (gs : GuardSelection) (nGuards : ℕ) : ℕ :=
  if gs.type = .bridge then 2 ^ 31 - 1
  else max env.minFilteredSampleSize
    (min (env.maxSampleByPct nGuards) env.maxSampleSizeAbsolute)

/-- The loop. The eligible guards get fewer each time. -/
def expandLoop (maxSample : ℕ) : ℕ → Eligible → ℕ → Option GuardId → GuardSelection →
    Option GuardId × GuardSelection
  | 0, _, _, addedGuard, gs => (addedGuard, gs)
  | fuel + 1, eligible, nUsableFilteredGuards, addedGuard, gs =>
    if env.minFilteredSampleSize ≤ nUsableFilteredGuards ∨
        maxSample ≤ gs.sampledEntryGuards.length ∨ eligible.length = 0 then (addedGuard, gs)
    else
      match selectAndAddGuardItemForSample env eligible gs with
      | none => (none, gs)
      | some (eligible, g, gs) =>
        expandLoop maxSample fuel eligible
          (if (gs.heap g).isUsableFilteredGuard then nUsableFilteredGuards + 1
            else nUsableFilteredGuards) (some g) gs

def reasonablyLiveConsensusIsMissing (gs : GuardSelection) : Bool :=
  gs.type ≠ .bridge && !env.reasonablyLiveConsensus

/-- The last guard added, and the selection. -/
def entryGuardsExpandSample (gs : GuardSelection) : Option GuardId × GuardSelection :=
  if reasonablyLiveConsensusIsMissing env gs then (none, gs)
  else
    let (nUsableFilteredGuards, gs) := numReachableFilteredGuards env none gs
    let (eligible, nGuards) := getEligibleGuards env gs
    expandLoop env (getMaxSampleSize env gs nGuards) eligible.length eligible
      nUsableFilteredGuards none gs

end Sample

/-! How the confirmed and the primary guards of a selection are chosen, and the operations on
a selection (`entrynodes.c`). -/

section Lists
variable (env : Env)

/-! ### Confirmed guards -/

def sampledIdxOf (gs : GuardSelection) (g : GuardId) : ℤ := (gs.heap g).sampledIdx

def sortBySampledIdx (gs : GuardSelection) (guards : List GuardId) : List GuardId :=
  (env.qsort (sampledIdxOf gs)).sort guards

/-- The guards get the indices from `idx` on. -/
def renumberConfirmed : ℤ → List GuardId → GuardSelection → GuardSelection
  | _, [], gs => gs
  | idx, g :: guards, gs =>
    renumberConfirmed (idx + 1) guards
      (gs.modify g fun guard => { guard with confirmedIdx := idx })

def entryGuardsUpdateConfirmed (gs : GuardSelection) : GuardSelection :=
  let confirmed := (env.qsort fun g => (gs.heap g).confirmedIdx).sort
    (gs.sampledEntryGuards.filter fun g => 0 ≤ (gs.heap g).confirmedIdx)
  let gs := renumberConfirmed 0 confirmed gs
  { gs with
    nextConfirmedIdx := confirmed.length
    confirmedEntryGuards := sortBySampledIdx env gs confirmed }

def makeGuardConfirmed (g : GuardId) (gs : GuardSelection) : GuardSelection :=
  let guard := gs.heap g
  if guard.confirmedOnDate ≠ 0 ∧ 0 ≤ guard.confirmedIdx ∨ g ∈ gs.confirmedEntryGuards then gs
  else
    let idx := gs.nextConfirmedIdx
    let gs := gs.modify g fun guard =>
      { guard with confirmedOnDate := env.randomizeTime g, confirmedIdx := idx }
    { gs with
      nextConfirmedIdx := idx + 1
      confirmedEntryGuards := sortBySampledIdx env gs (gs.confirmedEntryGuards ++ [g])
      primaryGuardsUpToDate := false }

/-! ### Primary guards -/

/-- The flags of the search for a guard. It does not update the primary guards. -/
structure SampleFlags where
  excludeConfirmed : Bool
  excludePrimary : Bool
  excludePending : Bool
  needDescriptor : Bool

def isCandidate (rst : Option Restriction) (flags : SampleFlags) (gs : GuardSelection)
    (g : GuardId) : Bool :=
  let guard := gs.heap g
  entryGuardObeysRestriction env guard rst && guard.isUsableFilteredGuard &&
    !(flags.excludeConfirmed && 0 ≤ guard.confirmedIdx) &&
    !(flags.excludePrimary && guard.isPrimary) &&
    !(flags.excludePending && guard.isPending) &&
    !(flags.needDescriptor && !guardHasDescriptor env guard)

/-- `first_reachable_filtered_entry_guard` with `SAMPLE_NO_UPDATE_PRIMARY`. -/
def firstReachableFilteredEntryGuard (rst : Option Restriction) (flags : SampleFlags)
    (gs : GuardSelection) : Option GuardId × GuardSelection :=
  let (nReachableFiltered, gs) := numReachableFilteredGuards env rst (considerRetries env gs)
  let gs := if nReachableFiltered < env.minFilteredSampleSize then (entryGuardsExpandSample env gs).2
    else gs
  let gs := considerRetries env gs
  (gs.sampledEntryGuards.find? (isCandidate env rst flags gs), gs)

def setPrimary (isPrimary : Bool) (g : GuardId) (gs : GuardSelection) : GuardSelection :=
  gs.modify g fun guard => { guard with isPrimary := isPrimary }

/-- The new primary guards so far, and the selection with their flags. -/
abbrev NewPrimary := List GuardId × GuardSelection

def addPrimary (g : GuardId) (new : NewPrimary) : NewPrimary :=
  (new.1 ++ [g], setPrimary true g new.2)

def primaryFromConfirmed (new : NewPrimary) (g : GuardId) : NewPrimary :=
  if new.1.length < env.nPrimaryGuards ∧ (new.2.heap g).isFilteredGuard then addPrimary g new
  else new

def primaryFromOld (new : NewPrimary) (g : GuardId) : NewPrimary :=
  if g ∈ new.1 then new
  else if new.1.length < env.nPrimaryGuards ∧ (new.2.heap g).isFilteredGuard then addPrimary g new
  else (new.1, setPrimary false g new.2)

/-- Not more than `fuel` guards are missing. -/
def primaryFromSample : ℕ → NewPrimary → NewPrimary
  | 0, new => new
  | fuel + 1, new =>
    if new.1.length < env.nPrimaryGuards then
      match firstReachableFilteredEntryGuard env none ⟨true, true, false, false⟩ new.2 with
      | (none, gs) => (new.1, gs)
      | (some g, gs) => primaryFromSample fuel (addPrimary g (new.1, gs))
    else new

def entryGuardsUpdatePrimary (gs : GuardSelection) : GuardSelection :=
  let old := gs.primaryEntryGuards
  let new := gs.confirmedEntryGuards.foldl (primaryFromConfirmed env)
    ([], { gs with primaryGuardsUpToDate := true })
  let new := old.foldl (primaryFromOld env) new
  let (guards, gs) := primaryFromSample env env.nPrimaryGuards new
  { gs with
    primaryEntryGuards := if guards = old then guards else sortBySampledIdx env gs guards
    primaryGuardsUpToDate := true }

def updatePrimaryIfNeeded (gs : GuardSelection) : GuardSelection :=
  if gs.primaryGuardsUpToDate then gs else entryGuardsUpdatePrimary env gs

/-! ### A new consensus -/

/-- The guard, and how many of its fields changed. -/
def updateConsensusPresence (gs : GuardSelection) (g : GuardId) : ℕ × EntryGuard :=
  let guard := gs.heap g
  let isListed := entryGuardIsListed env gs.type guard
  let (n, guard) : ℕ × EntryGuard :=
    if isListed && !guard.currentlyListed then
      (1, { guard with currentlyListed := true, unlistedSinceDate := 0 })
    else if !isListed && guard.currentlyListed then
      (1, { guard with currentlyListed := false, unlistedSinceDate := env.randomizeTime g })
    else (0, guard)
  if guard.currentlyListed && guard.unlistedSinceDate ≠ 0 then
    (n + 1, { guard with unlistedSinceDate := 0 })
  else if !guard.currentlyListed && guard.unlistedSinceDate = 0 then
    (n + 1, { guard with unlistedSinceDate := env.randomizeTime g })
  else (n, guard)

def sampledGuardsUpdateConsensusPresence (gs : GuardSelection) : ℕ × GuardSelection :=
  gs.sampledEntryGuards.foldl (fun (n, gs) g =>
    let (changes, guard) := updateConsensusPresence env gs g
    (n + changes, gs.modify g fun _ => guard)) (0, gs)

def removeGuardFromConfirmedAndPrimaryLists (g : GuardId) (gs : GuardSelection) : GuardSelection :=
  let gs := { gs with primaryEntryGuards := gs.primaryEntryGuards.filter fun p => p ≠ g }
  let gs := if (gs.heap g).isPrimary then setPrimary false g gs else gs
  let gs := { gs with confirmedEntryGuards := gs.confirmedEntryGuards.filter fun c => c ≠ g }
  if 0 ≤ (gs.heap g).confirmedIdx then
    gs.modify g fun guard => { guard with confirmedIdx := -1, confirmedOnDate := 0 }
  else gs

def isObsolete (removeIfUnlistedSince maybeRemoveIfSampledBefore removeIfConfirmedBefore : ℤ)
    (guard : EntryGuard) : Bool :=
  if !guard.currentlyListed && guard.unlistedSinceDate < removeIfUnlistedSince then true
  else if guard.confirmedOnDate = 0 then guard.sampledOnDate < maybeRemoveIfSampledBefore
  else guard.confirmedOnDate < removeIfConfirmedBefore

/-- The guard is taken out of the sample and freed. -/
def removeGuard (g : GuardId) (gs : GuardSelection) : GuardSelection :=
  let gs := { gs with sampledEntryGuards := gs.sampledEntryGuards.erase g }
  let gs := removeGuardFromConfirmedAndPrimaryLists g gs
  { gs with live := Function.update gs.live g false }

def pruneGuard (obsolete : EntryGuard → Bool) (state : ℕ × GuardSelection) (g : GuardId) :
    ℕ × GuardSelection :=
  if obsolete (state.2.heap g) then (state.1 + 1, removeGuard g state.2) else state

def sampledGuardsPruneObsoleteEntries
    (removeIfUnlistedSince maybeRemoveIfSampledBefore removeIfConfirmedBefore : ℤ)
    (gs : GuardSelection) : ℕ × GuardSelection :=
  gs.sampledEntryGuards.foldl (pruneGuard (isObsolete removeIfUnlistedSince
    maybeRemoveIfSampledBefore removeIfConfirmedBefore)) (0, gs)

def sampledGuardsUpdateFromConsensus (gs : GuardSelection) : GuardSelection :=
  if reasonablyLiveConsensusIsMissing env gs then gs
  else
    let (nPresence, gs) := sampledGuardsUpdateConsensusPresence env gs
    let (nPruned, gs) := sampledGuardsPruneObsoleteEntries (env.now - env.removeUnlistedGuardsAfter)
      (env.now - env.guardLifetime) (env.now - env.guardConfirmedMinLifetime) gs
    if nPresence + nPruned = 0 then gs
    else entryGuardsUpdateFilteredSets env { gs with primaryGuardsUpToDate := false }

/-! ### Reports -/

/-- The state of a circuit's guard. -/
inductive GuardCircState
  | usableOnCompletion
  | usableIfNoBetterGuard
  | waitingForBetterGuard
  | complete
  | dead
  deriving DecidableEq

def markGuardMaybeReachable (gs : GuardSelection) (g : GuardId) : GuardSelection :=
  if (gs.heap g).isReachable = .no then gs.modify g markMaybe else gs

def markPrimaryGuardsMaybeReachable (gs : GuardSelection) : GuardSelection :=
  let gs := updatePrimaryIfNeeded env gs
  gs.primaryEntryGuards.foldl markGuardMaybeReachable gs

def entryGuardsNoteGuardFailure (g : GuardId) (gs : GuardSelection) : GuardSelection :=
  gs.modify g fun guard =>
    { guard with
      isReachable := .no
      isUsableFilteredGuard := false
      isPending := false
      failingSince := if guard.failingSince = 0 then env.now else guard.failingSince }

/-- The new state of the circuit, and the selection. -/
def entryGuardsNoteGuardSuccess (g : GuardId) (oldState : GuardCircState) (gs : GuardSelection) :
    GuardCircState × GuardSelection :=
  let lastTimeOnInternet := gs.lastTimeOnInternet
  let gs := { gs with lastTimeOnInternet := env.now }
  let gs := gs.modify g fun guard =>
    { guard with
      isReachable := .yes
      failingSince := 0
      isPending := false
      isUsableFilteredGuard := guard.isFilteredGuard || guard.isUsableFilteredGuard }
  let gs := if (gs.heap g).confirmedIdx < 0 then
      updatePrimaryIfNeeded env (makeGuardConfirmed env g gs)
    else gs
  let newState : GuardCircState :=
    match oldState with
    | .complete => .complete
    | .usableOnCompletion => .complete
    | _ => if (gs.heap g).isPrimary then .complete else .waitingForBetterGuard
  let gs := if !(gs.heap g).isPrimary &&
      lastTimeOnInternet + env.internetLikelyDownInterval < env.now then
      markPrimaryGuardsMaybeReachable env gs
    else gs
  (newState, gs)

end Lists

/-! ### Operations -/

inductive Op
  | expandSample (env : Env)
  | updateFromConsensus (env : Env)
  | updateFilteredSets (env : Env)
  | updateConfirmed (env : Env)
  | makeConfirmed (env : Env) (g : GuardId)
  | updatePrimary (env : Env)
  | noteSuccess (env : Env) (g : GuardId) (oldState : GuardCircState)
  | noteFailure (env : Env) (g : GuardId)

def Op.env : Op → Env
  | .expandSample env => env
  | .updateFromConsensus env => env
  | .updateFilteredSets env => env
  | .updateConfirmed env => env
  | .makeConfirmed env _ => env
  | .updatePrimary env => env
  | .noteSuccess env _ _ => env
  | .noteFailure env _ => env

/-- The guards that the callers have handles of. -/
def Op.guards : Op → List GuardId
  | .makeConfirmed _ g => [g]
  | .noteSuccess _ g _ => [g]
  | .noteFailure _ g => [g]
  | _ => []

def apply (gs : GuardSelection) : Op → GuardSelection
  | .expandSample env => (entryGuardsExpandSample env gs).2
  | .updateFromConsensus env => sampledGuardsUpdateFromConsensus env gs
  | .updateFilteredSets env => entryGuardsUpdateFilteredSets env gs
  | .updateConfirmed env => entryGuardsUpdateConfirmed env gs
  | .makeConfirmed env g => makeGuardConfirmed env g gs
  | .updatePrimary env => entryGuardsUpdatePrimary env gs
  | .noteSuccess env g oldState => (entryGuardsNoteGuardSuccess env g oldState gs).2
  | .noteFailure env g => entryGuardsNoteGuardFailure env g gs

/-- A handle leads to a guard of the sample, and the two counters are of type `int`. -/
def step (gs : GuardSelection) (op : Op) : Option GuardSelection :=
  if ∀ g ∈ op.guards, g ∈ gs.sampledEntryGuards then
    let gs := apply gs op
    if gs.nextConfirmedIdx ≤ intMax ∧ gs.nextSampledIdx ≤ intMax then some gs else none
  else none

end TorDaemon.Client.Entrynodes

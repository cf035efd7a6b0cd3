import TorDaemon.Library.NetworkOrder
import TorDaemon.Library.Reachability

/-! The history of clients (`geoip_stats.c`), with the statistics of each for the mitigation of
denial of service (`dos.c`), and the connections that they count. -/
namespace TorDaemon.Dos
open Library.NetworkOrder

/-! ### Token buckets -/

/-- `token_bucket_ctr_t`; its configuration comes first. -/
structure TokenBucketCtr where
  rate : UInt32
  burst : UInt32
  counter : Int32
  lastRefilledAtTimestamp : UInt32
  deriving DecidableEq

/-- `token_bucket_ctr_init`: the bucket starts out full. -/
def tokenBucketCtrInit (rate burst nowTsSec : UInt32) : TokenBucketCtr :=
  let burst := min burst 2147483647
  ⟨rate, burst, burst.toInt32, nowTsSec⟩

section
variable (bucket : TokenBucketCtr)

def tokenBucketRawRefillSteps (elapsed : UInt32) : TokenBucketCtr :=
  let gap := bucket.burst.toUInt64 - bucket.counter.toInt64.toUInt64
  if gap / bucket.rate.toUInt64 < elapsed.toUInt64 then
    { bucket with counter := bucket.burst.toInt32 }
  else { bucket with counter := bucket.counter + (bucket.rate * elapsed).toInt32 }

/-- A large jump of the time does not refill. -/
def tokenBucketCtrRefill (nowTsSec : UInt32) : TokenBucketCtr :=
  let elapsedSec := nowTsSec - bucket.lastRefilledAtTimestamp
  let bucket := if elapsedSec ≤ 1073741823 then tokenBucketRawRefillSteps bucket elapsedSec
    else bucket
  { bucket with lastRefilledAtTimestamp := nowTsSec }

def tokenBucketCtrGet : ℕ := bucket.counter.toInt.toNat

def tokenBucketCtrDec (n : Int32) : TokenBucketCtr :=
  { bucket with counter := bucket.counter - n }

end

/-! ### Entries -/

inductive TorAddr
  | unspec
  | ipv4 (addr : UInt32)
  | ipv6 (addr : { bytes : Bytes // bytes.length = 16 })
  /-- `AF_UNIX`: the path is not kept. -/
  | unix
  deriving DecidableEq

/-- `tor_addr_compare` with `CMP_EXACT` is zero. It compares `AF_UNIX` addresses as pointers, and
the two that it is given here are never one object. -/
def torAddrEq : TorAddr → TorAddr → Bool
  | .unspec, .unspec => true
  | .ipv4 a, .ipv4 b => a == b
  | .ipv6 a, .ipv6 b => a == b
  | _, _ => false

inductive Action
  | connect
  | networkstatus
  deriving DecidableEq

/-- What an entry is looked up by. -/
structure ClientKey where
  addr : TorAddr
  transportName : Option Bytes
  action : Action
  deriving DecidableEq

def clientmapEntriesEq (a b : ClientKey) : Bool :=
  if a.transportName ≠ b.transportName then false
  else torAddrEq a.addr b.addr && decide (a.action = b.action)

structure ConnClientStats where
  concurrentCount : UInt32
  connectCount : TokenBucketCtr
  markedUntilTs : ℤ
  deriving DecidableEq

structure ClientmapEntry where
  key : ClientKey
  lastSeenInMinutes : ℕ
  connStats : ConnClientStats
  /-- Which allocation the entry is; not in the source, where it is the pointer. -/
  serial : ℕ
  deriving DecidableEq

structure OrConnection where
  addr : TorAddr
  extOrTransport : Option Bytes
  trackedForDosMitigation : Bool
  /-- The entry that the connection was counted on; the source does not remember it. -/
  countedOn : Option ℕ
  deriving DecidableEq

/-- The parameters from the configuration and the consensus. -/
structure DosParams where
  ccEnabled : Bool
  connEnabled : Bool
  connConnectRate : UInt32
  connConnectBurst : UInt32
  connConnectDefenseTimePeriod : ℤ

structure Options where
  entryStatistics : Bool
  recordBridgeInfo : Bool
  dirReqStatistics : Bool
  bridgeAuthoritativeDir : Bool

structure World where
  clientHistory : List ClientmapEntry
  connectionArray : List OrConnection
  geoipClientHistoryCacheSize : ℕ
  dos : DosParams
  options : Options
  /-- `sizeof(clientmap_entry_t)`. -/
  entrySize : ℕ
  nextSerial : ℕ
  /-- How often the `BUG` of `conn_update_on_close` was reached. -/
  underflows : ℕ

/-- What the clocks and the random numbers are at an event. -/
structure Now where
  time : ℤ
  approxTime : ℤ
  monotimeSec : UInt32
  /-- `crypto_rand_int_range(1, dos_conn_connect_defense_time_period / 2)`. -/
  markDelay : ℤ

/-! ### Statistics -/

section
variable (dos : DosParams)

def connMarkClient (now : Now) (stats : ConnClientStats) : ConnClientStats :=
  { stats with
    markedUntilTs := now.approxTime + dos.connConnectDefenseTimePeriod + now.markDelay }

def connUpdateOnConnect (now : Now) (stats : ConnClientStats) : ConnClientStats :=
  let connectCount := tokenBucketCtrRefill stats.connectCount now.monotimeSec
  let connectCount := if 0 < tokenBucketCtrGet connectCount then tokenBucketCtrDec connectCount 1
    else connectCount
  let stats : ConnClientStats := ⟨stats.concurrentCount + 1, connectCount, stats.markedUntilTs⟩
  if tokenBucketCtrGet stats.connectCount = 0 ∧ stats.markedUntilTs = 0 then
    connMarkClient dos now stats
  else stats

/-- `none` where the `BUG` returns. -/
def connUpdateOnClose (stats : ConnClientStats) : Option ConnClientStats :=
  if stats.concurrentCount = 0 then none
  else some { stats with concurrentCount := stats.concurrentCount - 1 }

def dosIsEnabled : Bool := dos.ccEnabled || dos.connEnabled

def dosGeoipEntryInit (monotimeSec : UInt32) : ConnClientStats :=
  ⟨0, tokenBucketCtrInit dos.connConnectRate dos.connConnectBurst monotimeSec, 0⟩

end

/-! ### The history -/

section
variable (w : World)

def geoipLookupClient (addr : TorAddr) (transportName : Option Bytes)
    (action : Action) : Option ClientmapEntry :=
  w.clientHistory.find? fun e => clientmapEntriesEq e.key ⟨addr, transportName, action⟩

/-- A change of an entry, through its pointer. -/
def World.modifyEntry (serial : ℕ) (f : ClientmapEntry → ClientmapEntry) : World :=
  { w with clientHistory := w.clientHistory.map fun e => if e.serial = serial then f e else e }

def clientmapEntrySize (key : ClientKey) : ℕ :=
  w.entrySize + (key.transportName.map List.length).getD 0

/-- `clientmap_entry_new`, and the insertion of the entry. -/
def clientmapEntryNew (key : ClientKey) (now : Now) : ClientmapEntry × World :=
  let entry : ClientmapEntry := ⟨key, 0, dosGeoipEntryInit w.dos now.monotimeSec, w.nextSerial⟩
  let size := w.geoipClientHistoryCacheSize + clientmapEntrySize w key
  (entry, { w with
    clientHistory := entry :: w.clientHistory
    geoipClientHistoryCacheSize := min size 18446744073709551615
    nextSerial := w.nextSerial + 1 })

/-- Whether `geoip_note_client_seen` notes a client. -/
def notesClients : Action → Bool
  | .connect => dosIsEnabled w.dos || w.options.entryStatistics || w.options.recordBridgeInfo
  | .networkstatus => w.options.dirReqStatistics && !w.options.bridgeAuthoritativeDir

def minutesSeen (now : ℤ) : ℕ := if now.tdiv 60 ≤ 1073741823 ∧ 0 ≤ now then (now / 60).toNat else 0

def geoipNoteClientSeen (action : Action) (addr : TorAddr)
    (transportName : Option Bytes) (now : Now) : World :=
  if notesClients w action then
    let found := match geoipLookupClient w addr transportName action with
      | some entry => (entry, w)
      | none => clientmapEntryNew w ⟨addr, transportName, action⟩ now
    found.2.modifyEntry found.1.serial fun e => { e with lastSeenInMinutes := minutesSeen now.time }
  else w

/-- The connections from the address of an entry that is about to be freed lose their flag. -/
def dosGeoipEntryAboutToFree (entry : ClientmapEntry) (connectionArray : List OrConnection) :
    List OrConnection :=
  if entry.connStats.concurrentCount = 0 then connectionArray
  else connectionArray.map fun conn =>
    if torAddrEq entry.key.addr conn.addr then { conn with trackedForDosMitigation := false }
    else conn

def clientmapEntryFree (entry : ClientmapEntry) : World :=
  { w with
    connectionArray := dosGeoipEntryAboutToFree entry w.connectionArray
    geoipClientHistoryCacheSize :=
      w.geoipClientHistoryCacheSize - clientmapEntrySize w entry.key }

end

/-- A walk over the table that takes out and frees some of the entries. -/
def dropEntries (drop : ClientmapEntry → Bool) (w : World) : World :=
  { (w.clientHistory.filter drop).foldl clientmapEntryFree w with
    clientHistory := w.clientHistory.filter fun e => !drop e }

/-- `last_seen_in_minutes` is before a cutoff. -/
def olderThan (cutoff : ℤ) (entry : ClientmapEntry) : Bool :=
  decide ((entry.lastSeenInMinutes : ℤ) < cutoff.tdiv 60)

def clientHistoryClear (w : World) : World :=
  dropEntries (fun e => decide (e.key.action = .connect)) w

def geoipRemoveOldClients (w : World) (cutoff : ℤ) : World := dropEntries (olderThan cutoff) w

def oomCleanClientEntries (w : World) (cutoff : ℤ) : ℕ × World :=
  (((w.clientHistory.filter (olderThan cutoff)).map fun e => clientmapEntrySize w e.key).sum,
    dropEntries (olderThan cutoff) w)

/-- `GEOIP_CLIENT_CACHE_OOM_MIN_CUTOFF`, four hours. -/
def geoipClientCacheOomMinCutoff : ℕ := 14400

/-- `GEOIP_CLIENT_CACHE_OOM_STEP`, `15 * 50`. -/
def geoipClientCacheOomStep : ℕ := 750

/-- `WRITE_STATS_INTERVAL`, a day. -/
def writeStatsInterval : ℕ := 86400

/-- The rounds of `geoip_client_cache_handle_oom`, from a lifetime of `k` seconds downwards. -/
def oomRounds (now : ℤ) (minRemoveBytes k bytesRemoved : ℕ) (w : World) : World :=
  if k ≤ geoipClientCacheOomMinCutoff then w
  else
    let cleaned := oomCleanClientEntries w (now - k)
    if bytesRemoved + cleaned.1 < minRemoveBytes then
      oomRounds now minRemoveBytes (k - geoipClientCacheOomStep) (bytesRemoved + cleaned.1)
        cleaned.2
    else cleaned.2
termination_by k
decreasing_by
  simp only [geoipClientCacheOomMinCutoff, geoipClientCacheOomStep] at *
  omega

/-- `tor_assert(min_remove_bytes != 0)`. -/
def geoipClientCacheHandleOom (w : World) (now : ℤ) (minRemoveBytes : ℕ) : Option World :=
  if minRemoveBytes = 0 then none else some (oomRounds now minRemoveBytes writeStatsInterval 0 w)

/-! ### Connections -/

section
variable (w : World)

def dosNewClientConn (i : ℕ) (conn : OrConnection) (transportName : Option Bytes)
    (now : Now) : World :=
  if dosIsEnabled w.dos then
    match geoipLookupClient w conn.addr transportName .connect with
    | none => w
    | some entry =>
      { w.modifyEntry entry.serial fun e =>
          { e with connStats := connUpdateOnConnect w.dos now e.connStats } with
        connectionArray := w.connectionArray.set i
          { conn with trackedForDosMitigation := true, countedOn := some entry.serial } }
  else w

def dosCloseClientConn (conn : OrConnection) : World :=
  if conn.trackedForDosMitigation then
    match geoipLookupClient w conn.addr none .connect with
    | none => w
    | some entry =>
      match connUpdateOnClose entry.connStats with
      | none => { w with underflows := w.underflows + 1 }
      | some stats => w.modifyEntry entry.serial fun e => { e with connStats := stats }
  else w

/-- The client is noted and then counted. -/
def noteAndCount (i : ℕ) (conn : OrConnection) (now : Now) : World :=
  dosNewClientConn (geoipNoteClientSeen w .connect conn.addr conn.extOrTransport now) i conn
    conn.extOrTransport now

/-- `channel_tls_handle_incoming`, for a connection that was just added to the array. -/
def channelTlsHandleIncoming (addr : TorAddr) (extOrTransport : Option Bytes)
    (now : Now) : Option World :=
  if w.connectionArray.length < 2147483647 then
    let conn : OrConnection := ⟨addr, extOrTransport, false, none⟩
    some (noteAndCount { w with connectionArray := w.connectionArray ++ [conn] }
      w.connectionArray.length conn now)
  else none

/-- `channel_do_open_actions` of an incoming channel. -/
def channelDoOpenActions (i : ℕ) (isClient : Bool) (now : Now) : Option World :=
  w.connectionArray[i]?.map fun conn =>
    if isClient ∧ conn.trackedForDosMitigation = false then noteAndCount w i conn now else w

/-- `connection_unlink`: the connection leaves the array and is freed. -/
def connectionUnlink (i : ℕ) : Option World :=
  w.connectionArray[i]?.map fun conn =>
    dosCloseClientConn { w with connectionArray := w.connectionArray.eraseIdx i } conn

end

inductive Event
  | incoming (addr : TorAddr) (extOrTransport : Option Bytes) (now : Now)
  | opened (i : ℕ) (isClient : Bool) (now : Now)
  | closed (i : ℕ)
  /-- A request for a network status. -/
  | dirRequest (addr : TorAddr) (now : Now)
  | removeOldClients (cutoff : ℤ)
  | historyClear
  | handleOom (now : ℤ) (minRemoveBytes : ℕ)
  | setParameters (dos : DosParams)
  | setOptions (options : Options)

def historyStep (w : World) : Event → Option World
  | .incoming addr extOrTransport now => channelTlsHandleIncoming w addr extOrTransport now
  | .opened i isClient now => channelDoOpenActions w i isClient now
  | .closed i => connectionUnlink w i
  | .dirRequest addr now => some (geoipNoteClientSeen w .networkstatus addr none now)
  | .removeOldClients cutoff => some (geoipRemoveOldClients w cutoff)
  | .historyClear => some (clientHistoryClear w)
  | .handleOom now minRemoveBytes => geoipClientCacheHandleOom w now minRemoveBytes
  | .setParameters dos => some { w with dos := dos }
  | .setOptions options => some { w with options := options }

/-- No client was seen yet. -/
def World.start (dos : DosParams) (options : Options) (entrySize : ℕ) : World :=
  ⟨[], [], 0, dos, options, entrySize, 0, 0⟩

end TorDaemon.Dos

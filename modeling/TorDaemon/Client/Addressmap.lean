import TorDaemon.Net.AddressText

/-! The client's address map, and the map back to the virtual addresses that have been
handed out (`addressmap.c`). Undefined behaviour, as the use of freed memory, and a failed
assertion are `none`. -/
namespace TorDaemon.Client.Addressmap
open Library.NetworkOrder SharedRandom
open Encoding (base32Chars)
open Net (torAddrBufLen torAddrParse torAddrToStr)
open Policies (TorAddr torAddrCompareMasked)

abbrev Strmap (α : Type) := AList fun _ : Bytes => α

/-- The bytes of an address, in network order. -/
abbrev AddrBytes (n : ℕ) := { bytes : Bytes // bytes.length = n }

/-- A virtual network, of `n` bytes; `conf->bits` is at most their bits. -/
structure VirtualAddrConf (n : ℕ) where
  addr : AddrBytes n
  bits : ℕ
  bits_le : bits ≤ n * 8

/-- The virtual networks. -/
structure Env where
  virtaddrConfIpv4 : VirtualAddrConf 4
  virtaddrConfIpv6 : VirtualAddrConf 16

inductive AddrMapSrc
  | controller
  | automap
  | torrc
  | trackexit
  | dns
  | none
  deriving DecidableEq

structure AddressmapEntry where
  newAddress : Option Bytes
  expires : ℤ
  source : AddrMapSrc
  srcWildcard : Bool
  dstWildcard : Bool
  deriving DecidableEq

structure VirtaddressEntry where
  ipv4Address : Option Bytes
  ipv6Address : Option Bytes
  hostnameAddress : Option Bytes
  deriving DecidableEq

/-- What the pointer in the reverse map points to. -/
inductive Vent
  | live (ve : VirtaddressEntry)
  | freed
  deriving DecidableEq

structure State where
  addressmap : Strmap AddressmapEntry
  virtaddressReversemap : Strmap Vent

def State.empty : State := ⟨∅, ∅⟩

/-! ### Virtual addresses -/

def torAddrFromIpv4n (bytes : AddrBytes 4) : TorAddr :=
  .inet (BitVec.ofNat 32 (ofBigEndian bytes.val))

def torAddrFromIpv6Bytes (bytes : AddrBytes 16) : TorAddr := .inet6 bytes

def VirtualAddrConf.contains {n : ℕ} (conf : VirtualAddrConf n) (fromBytes : AddrBytes n → TorAddr)
    (addr : TorAddr) : Bool :=
  torAddrCompareMasked addr (fromBytes conf.addr) conf.bits = 0

def addressIsInVirtualRange (env : Env) (address : Bytes) : Bool :=
  strcasecmpendEq address (ascii ".virtual") ||
    match torAddrParse address with
    | .ok (.inet6 addr) => env.virtaddrConfIpv6.contains torAddrFromIpv6Bytes (.inet6 addr)
    | .ok addr => env.virtaddrConfIpv4.contains torAddrFromIpv4n addr
    | .error _ => false

/-- The first bits of the random bytes are replaced with those of the network. -/
def replaceBits {n : ℕ} (conf : VirtualAddrConf n) (bytes : Bytes) : Bytes :=
  let k := conf.bits / 8
  let bytes := conf.addr.val.take k ++ bytes.drop k
  if conf.bits &&& 7 = 0 then bytes
  else
    let mask : UInt8 := 255 >>> UInt8.ofNat (conf.bits &&& 7)
    bytes.set k ((bytes.getD k 0 &&& mask) ||| (conf.addr.val.getD k 0 &&& ~~~mask))

inductive ResolvedType
  | ipv4
  | ipv6
  | hostname
  deriving DecidableEq

/-- What the calls of `crypto_rand` return, one after the other, and how many names may
be tried before one is new. -/
structure Random where
  bytes : (n : ℕ) → ℕ → AddrBytes n
  names : ℕ

theorem replaceBits_length {n : ℕ} (conf : VirtualAddrConf n) {bytes : Bytes}
    (h : bytes.length = n) : (replaceBits conf bytes).length = n := by
  have hlen : (conf.addr.val.take (conf.bits / 8) ++ bytes.drop (conf.bits / 8)).length = n := by
    rw [List.length_append, List.length_take, List.length_drop, conf.addr.property, h]
    omega
  unfold replaceBits
  split
  · exact hlen
  · rw [List.length_set, hlen]

/-- `get_random_virtual_addr`; the address is asserted to be in the network. -/
def getRandomVirtualAddr {n : ℕ} (fromBytes : AddrBytes n → TorAddr) (conf : VirtualAddrConf n)
    (bytes : AddrBytes n) : Option TorAddr :=
  let addr := fromBytes ⟨replaceBits conf bytes.val, replaceBits_length conf bytes.property⟩
  if conf.contains fromBytes addr then some addr else none

def base32Encode (src : Bytes) : Bytes :=
  (List.range ((src.length * 8 + 4) / 5)).map fun i =>
    let bit := i * 5
    let idx := bit / 8
    let v := (src.getD idx 0).toNat <<< 8 + (src.getD (idx + 1) 0).toNat
    base32Chars.getD ((v >>> (11 - bit % 8)) &&& 31) 0

section Choice
variable (env : Env) (addressmap : Strmap AddressmapEntry)

/-- The addresses that are not handed out: `.0` and `.255`. -/
def skipped : TorAddr → Bool
  | .inet a => a &&& 0xff = 0 || a &&& 0xff = 0xff
  | _ => false

/-- `sizeof(buf)` -/
def virtualBufLen : ℕ := 64

/-- The loop over the attempts. -/
def tryAddresses (pick : ℕ → Option TorAddr) : ℕ → Option (Option Bytes)
  | 0 => some none
  | attempts + 1 =>
    match pick attempts with
    | none => none
    | some addr =>
      if skipped addr then tryAddresses pick attempts
      else
        match torAddrToStr addr virtualBufLen true, torAddrToStr addr torAddrBufLen false with
        | some buf, some tmp =>
          if (addressmap.lookup buf).isSome || (addressmap.lookup tmp).isSome then
            tryAddresses pick attempts
          else some (some buf)
        | _, _ => none

def virtualHostname (rand : Random) (i : ℕ) : Bytes :=
  base32Encode (rand.bytes 10 i).val ++ ascii ".virtual"

/-- `addressmap_get_virtual_address`. The inner `none` is a NULL. -/
def addressmapGetVirtualAddress (rand : Random) : ResolvedType → Option (Option Bytes)
  | .hostname =>
    (((List.range rand.names).map (virtualHostname rand)).find? fun buf =>
      (addressmap.lookup buf).isNone).map some
  | .ipv4 => tryAddresses addressmap
      (fun i => getRandomVirtualAddr torAddrFromIpv4n env.virtaddrConfIpv4 (rand.bytes 4 i)) 1000
  | .ipv6 => tryAddresses addressmap
      (fun i => getRandomVirtualAddr torAddrFromIpv6Bytes env.virtaddrConfIpv6 (rand.bytes 16 i))
      1000

end Choice

/-! ### Removal -/

section Removal
variable (env : Env)

def clearSlot (address : Bytes) (slot : Option Bytes) : Option Bytes :=
  if slot = some address then none else slot

/-- `addressmap_virtaddress_remove`. Each comparison reads the slot and the address, which
has been freed in the loop of `addressmap_get_mappings`. -/
def addressmapVirtaddressRemove (address : Bytes) (addressFreed : Bool) (ent : AddressmapEntry)
    (reversemap : Strmap Vent) : Option (Strmap Vent) :=
  match ent.newAddress with
  | none => some reversemap
  | some target =>
    if addressIsInVirtualRange env target then
      match reversemap.lookup target with
      | none => some reversemap
      | some .freed => none
      | some (.live ve) =>
        if addressFreed || ve.ipv4Address.isNone || ve.ipv6Address.isNone ||
            ve.hostnameAddress.isNone then none
        else
          let ve : VirtaddressEntry := ⟨clearSlot address ve.ipv4Address,
            clearSlot address ve.ipv6Address, clearSlot address ve.hostnameAddress⟩
          if ve = ⟨none, none, none⟩ then some (reversemap.erase target)
          else some (reversemap.insert target (.live ve))
    else some reversemap

/-- `addressmap_ent_remove` and the removal from the map. -/
def addressmapEntRemove (address : Bytes) (addressFreed : Bool) (ent : AddressmapEntry)
    (s : State) : Option State :=
  (addressmapVirtaddressRemove env address addressFreed ent s.virtaddressReversemap).map
    fun reversemap => ⟨s.addressmap.erase address, reversemap⟩

/-- A loop over the map that removes the entries of its choice. -/
def visit (addressFreed : Bool) (choose : Bytes → AddressmapEntry → Option Bool) (s : State)
    (address : Bytes) : Option State :=
  match s.addressmap.lookup address with
  | none => none
  | some ent =>
    match choose address ent with
    | none => none
    | some true => addressmapEntRemove env address addressFreed ent s
    | some false => some s

end Removal

def addressmapRegister (env : Env) (address : Bytes) (newAddress : Option Bytes) (expires : ℤ)
    (source : AddrMapSrc) (wildcardAddr wildcardNewAddr : Bool) (s : State) : Option State :=
  if wildcardNewAddr && !wildcardAddr then none
  else
    let removes := newAddress.all fun new => strcaseeq address new && wildcardAddr = wildcardNewAddr
    let ent' : AddressmapEntry :=
      ⟨newAddress, if expires = 2 then 1 else expires, source, wildcardAddr, wildcardNewAddr⟩
    match s.addressmap.lookup address with
    | none => if removes then some s else some { s with addressmap := s.addressmap.insert address ent' }
    | some ent =>
      if removes then addressmapEntRemove env address false ent s
      else
        match ent.newAddress with
        | none => some { s with addressmap := s.addressmap.insert address ent' }
        | some old =>
          if 1 < expires then some s
          else if addressIsInVirtualRange env old && expires ≠ 2 then
            (addressmapVirtaddressRemove env address false ent s.virtaddressReversemap).map
              fun reversemap => ⟨s.addressmap.insert address ent', reversemap⟩
          else some { s with addressmap := s.addressmap.insert address ent' }

def VirtaddressEntry.slot (ve : VirtaddressEntry) : ResolvedType → Option Bytes
  | .ipv4 => ve.ipv4Address
  | .ipv6 => ve.ipv6Address
  | .hostname => ve.hostnameAddress

def VirtaddressEntry.setSlot (ve : VirtaddressEntry) (v : Bytes) : ResolvedType → VirtaddressEntry
  | .ipv4 => { ve with ipv4Address := some v }
  | .ipv6 => { ve with ipv6Address := some v }
  | .hostname => { ve with hostnameAddress := some v }

/-- The part of `addressmap_register_virtual_address` that chooses a new address. -/
def registerNewVirtual (env : Env) (type : ResolvedType) (newAddress : Bytes) (rand : Random)
    (vent : Option VirtaddressEntry) (s : State) : Option State :=
  match addressmapGetVirtualAddress env s.addressmap rand type with
  | none => none
  | some none =>
    -- the entry is freed, and where it was in the map it stays there
    if vent.isNone then some s
    else some { s with
      virtaddressReversemap := s.virtaddressReversemap.insert newAddress .freed }
  | some (some v) =>
    let ve := (vent.getD ⟨none, none, none⟩).setSlot v type
    addressmapRegister env v (some newAddress) 2 .automap false false
      { s with virtaddressReversemap := s.virtaddressReversemap.insert newAddress (.live ve) }

/-- `addressmap_register_virtual_address`, without the string that it returns. -/
def addressmapRegisterVirtualAddress (env : Env) (type : ResolvedType) (newAddress : Bytes)
    (rand : Random) (s : State) : Option State :=
  match s.virtaddressReversemap.lookup newAddress with
  | some .freed => none
  | none => registerNewVirtual env type newAddress rand none s
  | some (.live ve) =>
    let mapped := (ve.slot type).any fun v => (s.addressmap.lookup v).any fun ent =>
      ent.newAddress.any fun target => strcaseeq newAddress target
    if mapped then some s else registerNewVirtual env type newAddress rand (some ve) s

/-! ### Clearing -/

/-- The order in which an iteration meets the entries. -/
abbrev Order := List Bytes

/-- The loop, where the order is one of the map. -/
def forEachModify (env : Env) (addressFreed : Bool)
    (choose : Bytes → AddressmapEntry → Option Bool) (order : Order) (s : State) : Option State :=
  if order.isPerm s.addressmap.keys then
    Library.Reachability.run (visit env addressFreed choose) s order
  else none

/-- `*.exitname.exit`, set by TrackHostExits. A missing address is read from NULL. -/
def isTrackexitTo (exitname : Bytes) (_ : Bytes) (ent : AddressmapEntry) : Option Bool :=
  let suffix := (ascii "." ++ exitname ++ ascii ".exit").map toLower
  if ent.source = .trackexit then ent.newAddress.map fun new => strcmpendEq new suffix
  else some false

def clearTrackexithostMappings (env : Env) (exitname : Option Bytes) (order : Order) (s : State) :
    Option State :=
  match exitname with
  | none => some s
  | some exitname => forEachModify env false (isTrackexitTo exitname) order s

/-- The options that automapping reads. -/
structure AutomapOptions where
  automapHostsOnResolve : Bool
  automapHostsSuffixes : Option (List Bytes)

def addressmapAddressShouldAutomap (options : AutomapOptions) (address : Bytes) : Bool :=
  (options.automapHostsSuffixes.getD []).any fun suffix =>
    suffix = ascii "." || strcasecmpendEq address suffix

section
variable (env : Env)

def isInvalidAutomap (options : AutomapOptions) (srcAddress : Bytes)
    (ent : AddressmapEntry) : Option Bool :=
  let clearAll := !options.automapHostsOnResolve || options.automapHostsSuffixes.isNone
  if ent.source = .automap then
    if clearAll || !addressmapAddressShouldAutomap options srcAddress then some true
    else ent.newAddress.map fun new => !addressIsInVirtualRange env new
  else some false

def addressmapClearInvalidAutomaps (options : AutomapOptions) (order : Order)
    (s : State) : Option State :=
  forEachModify env false (isInvalidAutomap env options) order s

def expiresWithin (minExpires maxExpires : ℤ) (_ : Bytes) (ent : AddressmapEntry) : Option Bool :=
  some (minExpires ≤ ent.expires && ent.expires ≤ maxExpires)

/-- `addressmap_get_mappings` without a list. `strmap_iter_next_rmv` frees the key before
`addressmap_ent_remove` is given it. -/
def addressmapRemoveMappings (minExpires maxExpires : ℤ) (order : Order) (s : State) :
    Option State :=
  forEachModify env true (expiresWithin minExpires maxExpires) order s

def timeMax : ℤ := 2 ^ 63 - 1

def addressmapClearConfigured := addressmapRemoveMappings env 0 0
def addressmapClearTransient := addressmapRemoveMappings env 2 timeMax
def addressmapClean (now : ℤ) := addressmapRemoveMappings env 2 now

end

inductive Op
  | register (address : Bytes) (newAddress : Option Bytes) (expires : ℤ) (source : AddrMapSrc)
      (wildcardAddr wildcardNewAddr : Bool)
  | registerVirtual (type : ResolvedType) (newAddress : Bytes) (rand : Random)
  | clearTrackexit (exitname : Option Bytes) (order : Order)
  | clearInvalidAutomaps (options : AutomapOptions) (order : Order)
  | clearConfigured (order : Order)
  | clearTransient (order : Order)
  | clean (now : ℤ) (order : Order)

def step (env : Env) (s : State) : Op → Option State
  | .register address newAddress expires source wildcardAddr wildcardNewAddr =>
    addressmapRegister env address newAddress expires source wildcardAddr wildcardNewAddr s
  | .registerVirtual type newAddress rand =>
    addressmapRegisterVirtualAddress env type newAddress rand s
  | .clearTrackexit exitname order => clearTrackexithostMappings env exitname order s
  | .clearInvalidAutomaps options order => addressmapClearInvalidAutomaps env options order s
  | .clearConfigured order => addressmapClearConfigured env order s
  | .clearTransient order => addressmapClearTransient env order s
  | .clean now order => addressmapClean env now order s

end TorDaemon.Client.Addressmap

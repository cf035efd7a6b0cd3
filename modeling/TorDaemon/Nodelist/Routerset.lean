import TorDaemon.Policies.Addresses
import TorDaemon.SharedRandom.DiskRoundTrip

/-! Sets of relays, given by nicknames, identities, addresses and countries (`routerset.c`), and
the nodes of the nodelist that are in one. The parser of address patterns and the tables of
countries are parameters. -/
namespace TorDaemon.Nodelist
open Library.NetworkOrder Policies SharedRandom

/-! ### Names -/

def maxNicknameLen : ℕ := 19

def hexDigestLen : ℕ := 40

/-- `LEGAL_NICKNAME_CHARACTERS` -/
def isNicknameChar (c : UInt8) : Bool := 48 ≤ c ∧ c ≤ 57 ∨ 65 ≤ c ∧ c ≤ 90 ∨ 97 ≤ c ∧ c ≤ 122

/-- `HEX_CHARACTERS` -/
def isHexChar (c : UInt8) : Bool := 48 ≤ c ∧ c ≤ 57 ∨ 65 ≤ c ∧ c ≤ 70 ∨ 97 ≤ c ∧ c ≤ 102

def isLegalNickname (s : Bytes) : Bool :=
  s ≠ [] ∧ s.length ≤ maxNicknameLen ∧ s.all isNicknameChar

/-- A name without the dollar sign before it. -/
def withoutDollar (s : Bytes) : Bytes := if s.head? = some 36 then s.tail else s

/-- The character behind a digest. -/
def qualifier (s : Bytes) : Option UInt8 := (withoutDollar s)[hexDigestLen]?

/-- `=` and `~`. -/
def isQualifier (c : Option UInt8) : Bool := c = some 61 ∨ c = some 126

def isLegalHexdigest (s : Bytes) : Bool :=
  let h := withoutDollar s
  (hexDigestLen < h.length →
    isQualifier (qualifier s) ∧ isLegalNickname (h.drop (hexDigestLen + 1))) ∧
    hexDigestLen ≤ h.length ∧ (h.takeWhile isHexChar).length = hexDigestLen

/-- `hex_digest_nickname_decode`: the digest, and the character behind it. -/
def hexDigestNicknameDecode (hexdigest : Bytes) : Option (Bytes × Option UInt8) :=
  let h := withoutDollar hexdigest
  if h.length < hexDigestLen then none
  else if (hexDigestLen < h.length ∧ isQualifier (qualifier hexdigest) ∧
      h.length ≤ hexDigestLen + 1 + maxNicknameLen) ∨ h.length = hexDigestLen then
    (base16Decode 20 h).map fun digest => (digest, qualifier hexdigest)
  else none

/-! ### Nodes -/

/-- What is read of `routerstatus_t`. -/
structure Routerstatus where
  nickname : Bytes
  identityDigest : Bytes
  ipv4Addr : TorAddr
  ipv4Orport : ℕ
  nickname_legal : isLegalNickname nickname
  deriving DecidableEq

/-- What is read of `routerinfo_t`. -/
structure Routerinfo where
  nickname : Bytes
  identityDigest : Bytes
  ipv4Addr : TorAddr
  ipv4Orport : ℕ
  ipv6Addr : TorAddr
  ipv6Orport : ℕ
  nickname_legal : isLegalNickname nickname
  deriving DecidableEq

/-- What is read of `node_t`. A node in the list has an entry in the consensus or a descriptor,
and those are of its identity. -/
structure Node where
  identity : Bytes
  rs : Option Routerstatus
  ri : Option Routerinfo
  isRunning : Bool
  country : ℤ
  usable : rs.isSome ∨ ri.isSome
  rs_identity : ∀ s ∈ rs, s.identityDigest = identity
  ri_identity : ∀ r ∈ ri, r.identityDigest = identity
  deriving DecidableEq

/-- `nodelist_t`: there is one node for an identity. -/
structure Nodes where
  list : List Node
  unique : (list.map Node.identity).Nodup

def nodeGetNickname (node : Node) : Bytes :=
  match node.rs, node.ri with
  | some rs, _ => rs.nickname
  | none, some ri => ri.nickname
  | none, none => []

def nodeGetById (nodes : Nodes) (identityDigest : Bytes) : Option Node :=
  nodes.list.find? fun node => node.identity = identityDigest

def nodeGetByHexId (nodes : Nodes) (hexId : Bytes) : Option Node :=
  (hexDigestNicknameDecode hexId).bind fun (digest, nnChar) =>
    (nodeGetById nodes digest).bind fun node => if nnChar = some 61 then none else some node

def unnamedRouterNickname : Bytes := ascii "Unnamed"

def nodeGetByNickname (nodes : Nodes) (nickname : Bytes) : Option Node :=
  match nodeGetByHexId nodes nickname with
  | some node => some node
  | none =>
    if strcaseeq nickname unnamedRouterNickname then none
    else (nodes.list.filter fun node => strcaseeq (nodeGetNickname node) nickname).head?

/-! ### Sets -/

/-- The tables of countries, as they are loaded. -/
structure Geoip where
  isLoaded : Bool
  nCountries : ℕ
  getCountry : Bytes → Option ℕ
  getCountryByAddr : TorAddr → ℤ

/-- No country is known. -/
def noGeoip : Geoip := ⟨false, 0, fun _ => none, fun _ => -1⟩

/-- An address pattern that was parsed. -/
structure Pattern where
  policy : AddrPolicy
  isPrivate : Bool

/-- `router_parse_addr_policy_item_from_string`: the pattern, and whether the list is malformed. -/
abbrev ParseItem := Bytes → Option Pattern × Bool

structure Routerset where
  list : List Bytes
  names : List Bytes
  digests : List Bytes
  policies : List Pattern
  countryNames : List Bytes
  countries : Option (List Bool)

def routersetNew : Routerset := ⟨[], [], [], [], [], none⟩

def routersetGetCountryname (cp : Bytes) : Option Bytes :=
  if cp.length < 4 ∨ cp[0]? ≠ some 123 ∨ cp[3]? ≠ some 125 then none
  else some (((cp.drop 1).take 2).map toLower)

def routersetRefreshCountries (geoip : Geoip) (target : Routerset) : Routerset :=
  { target with
    countries :=
      if geoip.isLoaded then
        some (target.countryNames.foldl
          (fun countries country =>
            match geoip.getCountry country with
            | some cc => countries.set cc true
            | none => countries)
          (List.replicate geoip.nCountries false))
      else none }

def policyExpandUnspec (policies : List Pattern) : List Pattern :=
  policies.flatMap fun p =>
    if p.policy.addr.family = .unspec ∧ ¬p.isPrivate then
      [{ p with policy := { p.policy with addr := .inet 0, maskbits := 0 } },
        { p with
          policy :=
            { p.policy with addr := .inet6 ⟨List.replicate 16 0, zeros_length⟩, maskbits := 0 } }]
    else [p]

/-- `SMARTLIST_DEL_CURRENT` on the entries that are still to come: the last one moves into the place
of the current one, and is the next. -/
def delCurrent (rest : List Bytes) : List Bytes := rest.getLast?.toList ++ rest.dropLast

/-- One entry, put into the set: what `routerset_parse` returns, whether a country was added, and
the entries that are still to come. -/
def routersetParseEntry (parseItem : ParseItem) (state : Routerset × ℤ × Bool) (nick : Bytes)
    (rest : List Bytes) : (Routerset × ℤ × Bool) × List Bytes :=
  let (target, r, addedCountries) := state
  if isLegalHexdigest nick then
    (({ target with
        digests := target.digests ++ (base16Decode 20 (withoutDollar nick)).toList
        list := target.list ++ [nick] }, r, addedCountries), rest)
  else if isLegalNickname nick then
    (({ target with
        names := target.names ++ [nick.map toLower]
        list := target.list ++ [nick] }, r, addedCountries), rest)
  else
    match routersetGetCountryname nick with
    | some countryname =>
      (({ target with
          countryNames := target.countryNames ++ [countryname]
          list := target.list ++ [nick] }, r, true), rest)
    | none =>
      if 46 ∈ nick ∨ 58 ∈ nick ∨ 42 ∈ nick then
        match parseItem nick with
        | (some p, _) =>
          (({ target with
              policies := target.policies ++ [p]
              list := target.list ++ [nick] }, r, addedCountries), rest)
        -- what is malformed, or ignored, is not kept in the list
        | (none, malformed) =>
          ((target, if malformed then -1 else r, addedCountries), delCurrent rest)
      else ((target, -1, addedCountries), delCurrent rest)

/-- The loop over the entries, which takes as many turns as there are entries. -/
def routersetParseLoop (parseItem : ParseItem) :
    ℕ → Routerset × ℤ × Bool → List Bytes → Routerset × ℤ × Bool
  | turns + 1, state, nick :: rest =>
    let (state, rest) := routersetParseEntry parseItem state nick rest
    routersetParseLoop parseItem turns state rest
  | _, state, _ => state

/-- `smartlist_split_string` at commas, with `SPLIT_SKIP_SPACE` and `SPLIT_IGNORE_BLANK`. -/
def splitAtCommas (s : Bytes) : List Bytes := ((s.splitOn 44).map trim).filter fun w => w ≠ []

def routersetParse (geoip : Geoip) (parseItem : ParseItem) (target : Routerset) (s : Bytes) :
    Routerset × ℤ :=
  let (target, r, addedCountries) :=
    routersetParseLoop parseItem (splitAtCommas s).length (target, 0, false) (splitAtCommas s)
  let target := { target with policies := policyExpandUnspec target.policies }
  (if addedCountries then routersetRefreshCountries geoip target else target, r)

-- The entry that comes last is parsed in the place of the one that is ignored.
example :
    (routersetParse noGeoip (fun _ => (none, false)) routersetNew
      (ascii "accept6 1.2.3.4,a,b")).1.list = [ascii "b", ascii "a"] := by
  decide +kernel

def routersetToString (set : Option Routerset) : Bytes :=
  match set with
  | none => []
  | some set => [44].intercalate set.list

def routersetUnion (geoip : Geoip) (parseItem : ParseItem) (target : Routerset)
    (source : Option Routerset) : Routerset :=
  match source with
  | none => target
  | some _ => (routersetParse geoip parseItem target (routersetToString source)).1

/-- `routerset_add_unknown_ccs`, for a set that there is. -/
def routersetAddUnknownCcs (geoip : Geoip) (set : Routerset) (onlyIfSomeCcSet : Bool) : Routerset :=
  if onlyIfSomeCcSet ∧ set.countryNames = [] then set
  else
    let addUnknown := ¬set.countryNames.any (strcaseeq · (ascii "??")) ∧
      (geoip.getCountry (ascii "??")).isSome
    let addA1 := ¬set.countryNames.any (strcaseeq · (ascii "a1")) ∧
      (geoip.getCountry (ascii "A1")).isSome
    let set := if addUnknown then
      { set with
        countryNames := set.countryNames ++ [ascii "??"]
        list := set.list ++ [ascii "\x7b??\x7d"] } else set
    let set := if addA1 then
      { set with
        countryNames := set.countryNames ++ [ascii "a1"]
        list := set.list ++ [ascii "\x7ba1\x7d"] } else set
    if addUnknown ∨ addA1 then routersetRefreshCountries geoip set else set

/-- The sets that there are. -/
inductive Built : Routerset → Prop
  | new : Built routersetNew
  | parse {set : Routerset} (geoip : Geoip) (parseItem : ParseItem) (s : Bytes) (h : Built set) :
    Built (routersetParse geoip parseItem set s).1
  | refreshCountries {set : Routerset} (geoip : Geoip) (h : Built set) :
    Built (routersetRefreshCountries geoip set)
  | addUnknownCcs {set : Routerset} (geoip : Geoip) (onlyIfSomeCcSet : Bool) (h : Built set) :
    Built (routersetAddUnknownCcs geoip set onlyIfSomeCcSet)

/-! ### Membership -/

def routersetIsList (set : Routerset) : Bool := set.countryNames = [] ∧ set.policies = []

/-- `compare_tor_addr_to_addr_policy`, with the patterns of a set. -/
def rejects (set : Routerset) (addr : TorAddr) (port : ℕ) : Bool :=
  compareTorAddrToAddrPolicy (some addr) port (some (set.policies.map Pattern.policy)) = .rejected

section
variable (geoip : Geoip)

section
variable (set : Option Routerset)

def routersetContains2 (addr : TorAddr) (orport : ℕ)
    (second : Option (TorAddr × ℕ)) (nickname idDigest : Bytes) (country : ℤ) : ℕ :=
  match set with
  | none => 0
  | some set =>
    if nickname.map toLower ∈ set.names then 4
    else if idDigest ∈ set.digests then 4
    else if rejects set addr orport then 3
    else if second.any fun (addr2, orport2) => rejects set addr2 orport2 then 3
    else
      match set.countries with
      | some countries =>
        let country := if country < 0 then geoip.getCountryByAddr addr else country
        if 0 ≤ country ∧ countries[country.toNat]? = some true then 2 else 0
      | none => 0

def routersetContainsRouter (ri : Routerinfo) (country : ℤ) : ℕ :=
  routersetContains2 geoip set ri.ipv4Addr ri.ipv4Orport (some (ri.ipv6Addr, ri.ipv6Orport))
    ri.nickname ri.identityDigest country

def routersetContainsRouterstatus (rs : Routerstatus) (country : ℤ) : ℕ :=
  routersetContains2 geoip set rs.ipv4Addr rs.ipv4Orport none rs.nickname rs.identityDigest country

def routersetContainsNode (node : Node) : ℕ :=
  match node.rs, node.ri with
  | some rs, _ => routersetContainsRouterstatus geoip set rs node.country
  | none, some ri => routersetContainsRouter geoip set ri node.country
  | none, none => 0

end

def routersetGetAllNodes (nodes : Nodes) (routerset excludeset : Option Routerset)
    (runningOnly : Bool) : List Node :=
  match routerset with
  | none => []
  | some set =>
    if routersetIsList set then
      (set.list.filterMap (nodeGetByNickname nodes)).filter fun node =>
        (!runningOnly || node.isRunning) && routersetContainsNode geoip excludeset node == 0
    else
      nodes.list.filter fun node =>
        (!runningOnly || node.isRunning) && routersetContainsNode geoip routerset node != 0 &&
          routersetContainsNode geoip excludeset node == 0

end

end TorDaemon.Nodelist

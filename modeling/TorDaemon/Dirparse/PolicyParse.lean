import TorDaemon.Dirparse.Tokens
import TorDaemon.Dirvote.Versions
import TorDaemon.Net.Inaddr
import TorDaemon.Nodelist.Routerset

/-! One item of a policy, as it is read from a text (`policy_parse.c`, with the patterns of
`address.c`). -/
namespace TorDaemon.Dirparse
open Library.NetworkOrder Policies
open Dirvote (eatWhitespace strtol torParseLongNext)
open Net (torInetAton torInetPton torSnprintf)
open Nodelist (ParseItem Pattern)
open SharedRandom (ascii isDigit toLower)

section Patterns

def addrMaskGetBits (mask : BitVec 32) : Option ℕ :=
  if mask = 0 then some 0
  else if mask = 0xffffffff then some 32
  else ((List.range 32).map (· + 1)).find? fun i => mask = ~~~((1#32 <<< (32 - i)) - 1)

/-- `parse_port_range`. Nothing is asked of what follows the second port. -/
def parsePortRange (port : Option Bytes) : Option (UInt16 × UInt16) :=
  match port with
  | none | some [] | some [42] => some (1, 65535)
  | some port =>
    match torParseLongNext port 1 65535 with
    | none => none
    | some (portMin, []) => some (UInt16.ofInt portMin, UInt16.ofInt portMin)
    | some (portMin, c :: port) =>
      if c ≠ 45 then none
      else
        match torParseLongNext port 1 65535 with
        | none => none
        | some (portMax, _) =>
          if portMax < portMin then none
          else some (UInt16.ofInt portMin, UInt16.ofInt portMax)

/-- The separate strings that a pattern is broken into. -/
structure PatternParts where
  address : Bytes
  mask : Option Bytes
  port : Option Bytes

/-- What `strchr` finds, and the string from there on. -/
def strchr (s : Bytes) (c : UInt8) : Option Bytes :=
  if c ∈ s then some (s.dropWhile (· ≠ c)) else none

def breakPattern (base : Bytes) : Option PatternParts :=
  let bracketed := base.head? = some 91
  let address := if bracketed then base.tail else base
  if bracketed ∧ 93 ∉ address then none
  else
    let rest := if bracketed then address.dropWhile (· ≠ 93) else address
    let mask := strchr rest 47
    let port := strchr (mask.getD rest) 58
    some
      { address :=
          if bracketed then address.takeWhile (· ≠ 93)
          else if mask.isSome then address.takeWhile (· ≠ 47)
          else address.takeWhile (· ≠ 58)
        mask := mask.map fun mask => mask.tail.takeWhile (· ≠ 58)
        port := port.map List.tail }

/-- The flags of `tor_addr_parse_mask_ports`. -/
structure TapmpFlags where
  extendedStar : Bool := false
  starIpv4Only : Bool := false
  starIpv6Only : Bool := false

def anyInet : TorAddr := .inet 0

def anyInet6 : TorAddr := .inet6 ⟨List.replicate 16 0, zeros_length⟩

/-- The address of a pattern, and whether it is a wildcard. No assertion of `tor_inet_pton` fails. -/
def readAddress (flags : TapmpFlags) (address : Bytes) : Option (TorAddr × Bool) :=
  if address = ascii "*" then
    if !flags.extendedStar || flags.starIpv4Only then some (anyInet, true)
    else if flags.starIpv6Only then some (anyInet6, true)
    else some (.unspec, true)
  else if address = ascii "*4" ∧ flags.extendedStar then some (anyInet, true)
  else if address = ascii "*6" ∧ flags.extendedStar then some (anyInet6, true)
  else
    match torInetPton .inet6 address with
    | .ok addr => some (addr, false)
    | .error _ =>
      match torInetPton .inet address with
      | .ok addr => some (addr, false)
      | .error _ => none

def torAddrIsV4 : TorAddr → Bool
  | .inet _ => true
  | .inet6 addr => addr.val.take 12 = List.replicate 10 0 ++ [255, 255]
  | .unspec => false

/-- The number in a mask, or the bits of a mask that is written as an address. A number is cast to
an `int`, and none at all is 0. -/
def maskNumber (family : Family) (mask : Bytes) : Option ℕ :=
  if (strtol mask).elim mask Prod.snd = [] then
    let bits := Dirvote.strtolInt mask
    if 128 < bits ∨ family = .inet ∧ 32 < bits then none else some bits.toNat
  else (torInetAton mask).bind addrMaskGetBits

def readMask (addr : TorAddr) (anyFlag : Bool) (mask : Option Bytes) : Option ℕ :=
  match mask with
  | none =>
    if anyFlag then some 0
    else
      match addr.family with
      | .inet => some 32
      | .inet6 => some 128
      | .unspec => some 0
  | some mask => do
    let bits ← maskNumber addr.family mask
    let mapped := addr.family = .inet6 ∧ torAddrIsV4 addr
    if mapped ∧ 32 < bits ∧ bits < 96 then none
    else if anyFlag then none
    else some (if mapped then 96 + bits % 32 else bits)

def maxAddressLength : ℕ := 48 + 2 + (1 + 16) + 12 + 1

/-- `tor_addr_parse_mask_ports`, with everything asked for. -/
def torAddrParseMaskPorts (s : Bytes) (flags : TapmpFlags) :
    Option (TorAddr × ℕ × UInt16 × UInt16) :=
  if maxAddressLength < s.length then none
  else do
    let parts ← breakPattern s
    let (addr, anyFlag) ← readAddress flags parts.address
    let maskbits ← readMask addr anyFlag parts.mask
    let (prtMin, prtMax) ← parsePortRange parts.port
    some (addr, maskbits, prtMin, prtMax)

end Patterns

section Items

/-- The rules of `routerdesc_token_table` for an item. What the others read is refused, as is what
no rule is for. -/
def policyTokenTable : List TokenRule :=
  [⟨ascii "reject", .kReject, 0, 2 ^ 31 - 1, false, .noObj, 0, 2 ^ 31 - 1, 0⟩,
    ⟨ascii "accept", .kAccept, 0, 2 ^ 31 - 1, false, .noObj, 0, 2 ^ 31 - 1, 0⟩,
    ⟨ascii "reject6", .kReject6, 0, 2 ^ 31 - 1, false, .noObj, 0, 2 ^ 31 - 1, 0⟩,
    ⟨ascii "accept6", .kAccept6, 0, 2 ^ 31 - 1, false, .noObj, 0, 2 ^ 31 - 1, 0⟩]

/-- There is no key in an item. -/
def noCrypto : PkCrypto Empty := ⟨fun _ => none, fun _ => 0, fun _ => false⟩

def policyTypeOf (tp : DirectoryKeyword) : PolicyType :=
  if tp = .kReject ∨ tp = .kReject6 then .reject else .accept

def routerParseAddrPolicyPrivate (tp : DirectoryKeyword) (arg : Bytes) : Option Pattern :=
  let arg := eatWhitespace false (arg.drop (ascii "private").length)
  if arg.head? ≠ some 58 then none
  else
    (parsePortRange (some arg.tail)).map fun (portMin, portMax) =>
      ⟨.ofPorts (policyTypeOf tp) 0 .unspec portMin portMax, true⟩

def routerParseAddrPolicy (tp : DirectoryKeyword) (args : List Bytes) (fmtFlags : TapmpFlags) :
    Option Pattern :=
  match args with
  | [arg] =>
    if ascii "private" <+: arg then routerParseAddrPolicyPrivate tp arg
    else
      let fmtFlags :=
        if fmtFlags.extendedStar ∧ (tp = .kAccept6 ∨ tp = .kReject6) then
          { fmtFlags with starIpv6Only := true } else fmtFlags
      (torAddrParseMaskPorts arg fmtFlags).map fun (addr, maskbits, prtMin, prtMax) =>
        ⟨.ofPorts (policyTypeOf tp) maskbits addr prtMin prtMax, false⟩
  | _ => none

def assumedAction : PolicyType → Bytes
  | .accept => ascii "accept"
  | .reject => ascii "reject"

/-- The size of the buffer for a line with an assumed action. -/
def policyLineSize : ℕ := 48 * 2 + 32

/-- The line that is parsed: as it is, or with an action before it. -/
def policyLine (s : Bytes) (assumeAction : Option PolicyType) : Option Bytes :=
  let s := eatWhitespace false s
  match assumeAction with
  | none => some s
  | some action =>
    if s.head?.any fun c => c = 42 ∨ c = 91 ∨ isDigit c then
      (torSnprintf policyLineSize (assumedAction action ++ ascii " " ++ s)).map
        fun line => line.map toLower
    else some s

/-- `router_parse_addr_policy_item_from_string`: the item, and whether the list is malformed. -/
def routerParseAddrPolicyItemFromString (s : Bytes) (assumeAction : Option PolicyType) :
    Option Pattern × Bool :=
  match policyLine s assumeAction with
  | none => (none, false)
  | some line =>
    match getNextToken noCrypto policyTokenTable line with
    | some (.ok (tok, _)) =>
      if tok.tp ≠ .kAccept ∧ tok.tp ≠ .kAccept6 ∧ tok.tp ≠ .kReject ∧ tok.tp ≠ .kReject6 then
        (none, true)
      else
        match routerParseAddrPolicy tok.tp tok.args { extendedStar := true } with
        | none => (none, true)
        | some r =>
          if (tok.tp = .kAccept6 ∨ tok.tp = .kReject6) ∧ r.policy.addr.family ≠ .inet6 then
            (none, false)
          else (some r, false)
    -- an error: what is read stays inside of the line
    | _ => (none, true)

/-- The items of a set of relays. -/
def routersetItem : ParseItem := fun nick => routerParseAddrPolicyItemFromString nick (some .reject)

end Items

end TorDaemon.Dirparse

import TorDaemon.Encoding.Pem

/-! One token of a directory document, as it is read by the rules of a table (`parsecommon.c`). A
read outside of the input, or an assertion that fails, is `none`. -/
namespace TorDaemon.Dirparse
open Library.NetworkOrder Library.Scanner
open SharedRandom (ascii decimalString)
open Encoding (ceilDiv base64Decode)
open Encoding.Pem (isWhitespace isSpaceNoNl eatWhitespaceEos eatWhitespaceEos_suffix)

section Table

/-- `directory_keyword`, without `ERR_`, which is how an error is returned, and `NIL_`, which is
the number of the others. -/
inductive DirectoryKeyword
  | kAccept | kAccept6 | kDirectorySignature | kRecommendedSoftware | kReject | kReject6 | kRouter
  | kSignedDirectory | kSigningKey | kOnionKey | kOnionKeyNtor | kRouterSignature | kPublished
  | kRunningRouters | kRouterStatus | kPlatform | kProto | kOpt | kBandwidth | kContact
  | kNetworkStatus | kUptime | kDirSigningKey | kFamily | kFamilyCert | kFamilyIds | kFingerprint
  | kHibernating | kReadHistory | kWriteHistory | kNetworkStatusVersion | kDirSource | kDirOptions
  | kClientVersions | kServerVersions | kRecommendedClientProtocols | kRecommendedRelayProtocols
  | kRequiredClientProtocols | kRequiredRelayProtocols | kOrAddress | kId | kP | kP6 | kR | kA
  | kS | kV | kW | kM | kExtraInfo | kExtraInfoDigest | kCachesExtraInfo | kHiddenServiceDir
  | kAllowSingleHopExits | kIpv6Policy | kRouterSigEd25519 | kIdentityEd25519 | kMasterKeyEd25519
  | kOnionKeyCrosscert | kNtorOnionKeyCrosscert | kDirreqEnd | kDirreqV2Ips | kDirreqV3Ips
  | kDirreqV2Reqs | kDirreqV3Reqs | kDirreqV2Share | kDirreqV3Share | kDirreqV2Resp
  | kDirreqV3Resp | kDirreqV2Dir | kDirreqV3Dir | kDirreqV2Tun | kDirreqV3Tun | kEntryEnd
  | kEntryIps | kCellEnd | kCellProcessed | kCellQueued | kCellTime | kCellCircs | kExitEnd
  | kExitWritten | kExitRead | kExitOpened | kDirKeyCertificateVersion | kDirIdentityKey
  | kDirKeyPublished | kDirKeyExpires | kDirKeyCertification | kDirKeyCrosscert | kDirAddress
  | kDirTunnelled | kVoteStatus | kValidAfter | kFreshUntil | kValidUntil | kVotingDelay
  | kKnownFlags | kParams | kBwWeights | kVoteDigest | kConsensusDigest | kAdditionalDigest
  | kAdditionalSignature | kConsensusMethods | kConsensusMethod | kLegacyDirKey | kDirectoryFooter
  | kSigningCertEd | kSrFlag | kCommit | kPreviousSrv | kCurrentSrv | kPackage | aPurpose
  | aLastListed | aUnknown | rRendezvousServiceDescriptor | rVersion | rPermanentKey
  | rSecretIdPart | rPublicationTime | rProtocolVersions | rIntroductionPoints | rSignature
  | rHsDescriptor | r3DescLifetime | r3DescSigningCert | r3RevisionCounter | r3Superencrypted
  | r3Signature | r3Create2Formats | r3IntroAuthRequired | r3SingleOnionService
  | r3IntroductionPoint | r3IntroOnionKey | r3IntroAuthKey | r3IntroEncKey | r3IntroEncKeyCert
  | r3IntroLegacyKey | r3IntroLegacyKeyCert | r3DescAuthType | r3DescAuthKey | r3DescAuthClient
  | r3Encrypted | r3FlowControl | r3PowParams | rIpoIdentifier | rIpoIpAddress | rIpoOnionPort
  | rIpoOnionKey | rIpoServiceKey | cClientName | cDescriptorCookie | cClientKey | eof
  deriving DecidableEq

/-- From `MIN_ANNOTATION` to `MAX_ANNOTATION`. -/
def isAnnotationKeyword (tp : DirectoryKeyword) : Bool :=
  !(tp.ctorIdx < DirectoryKeyword.aPurpose.ctorIdx ||
    DirectoryKeyword.aUnknown.ctorIdx < tp.ctorIdx)

inductive ObjSyntax
  | noObj
  | needObj
  | optKey1024
  | needKey1024
  | needKey
  | objOk
  deriving DecidableEq

def atStart : ℕ := 1
def atEnd : ℕ := 2

structure TokenRule where
  t : Bytes
  v : DirectoryKeyword
  minArgs : ℤ
  maxArgs : ℤ
  concatArgs : Bool
  os : ObjSyntax
  minCnt : ℤ
  maxCnt : ℤ
  pos : ℕ

/-- `directory_token_t` of a token that is no error. -/
structure Token (Key : Type) where
  tp : DirectoryKeyword
  args : List Bytes
  objectType : Option Bytes := none
  objectBody : Option Bytes := none
  key : Option Key := none

/-- What the library for keys does: `crypto_pk_asn1_decode`, `crypto_pk_num_bits` and
`crypto_pk_key_is_private`. -/
structure PkCrypto (Key : Type) where
  asn1Decode : Bytes → Option Key
  numBits : Key → ℕ
  keyIsPrivate : Key → Bool

end Table

section Arguments

/-- What `find_whitespace` stops at. -/
def isArgEnd (c : UInt8) : Bool := c = 0 || c = 35 || c = 32 || c = 13 || c = 10 || c = 9

/-- `MAX_ARGS` -/
def maxArgsMax : ℕ := 512

/-- `get_token_arguments`, on a copy of the line that a NUL ends. A comment sign ends an argument
as well. -/
def getTokenArguments (args : List Bytes) (cp : Bytes) : Option (List Bytes) :=
  if cp = [] then some args
  else if args.length = maxArgsMax then none
  else
    let args := args ++ [cp.takeWhile fun c => !isArgEnd c]
    if _h : cp.dropWhile (fun c => !isArgEnd c) = [] then some args
    else getTokenArguments args
      (eatWhitespaceEos false ((cp.dropWhile fun c => !isArgEnd c).drop 1))
termination_by cp.length
decreasing_by
  have hle := dropWhile_length_le (fun c => !isArgEnd c) cp
  have hpos := List.length_pos_iff.mpr _h
  have heat := (eatWhitespaceEos_suffix false
    ((cp.dropWhile fun c => !isArgEnd c).drop 1)).length_le
  rw [List.length_drop] at heat
  omega

/-- The first loop over the table. -/
def findRule (table : List TokenRule) (word : Bytes) : Option TokenRule :=
  table.find? fun rule => rule.t = word

/-- What is written to `ebuf`. -/
def errorText (text : Bytes) : Bytes := text.take 127

def wordOf (line : Bytes) : Bytes := line.takeWhile fun c => !isArgEnd c

/-- The line behind a word and the spaces after that. -/
def behindWord (line : Bytes) : Bytes := (line.drop (wordOf line).length).dropWhile isSpaceNoNl

variable {Key : Type}

def strndup (s : Bytes) : Bytes := s.takeWhile (· ≠ 0)

/-- The arguments for a rule. -/
def ruleArguments (rule : TokenRule) (rest : Bytes) : Except Bytes (List Bytes) :=
  if rule.concatArgs then .ok [strndup rest]
  else
    match getTokenArguments [] (strndup rest) with
    | none => .error (errorText (ascii "Far too many arguments to " ++ rule.t))
    | some args => .ok args

/-- The part of `get_next_token` about a line: the token, its keyword and its object syntax. -/
def lineToken (table : List TokenRule) (line : Bytes) :
    Except Bytes (Token Key × Bytes × ObjSyntax) :=
  match findRule table (wordOf line) with
  | none =>
    .ok (⟨if line.head? = some 64 then .aUnknown else .kOpt, [strndup line], none, none, none⟩, [],
      .objOk)
  | some rule =>
    match ruleArguments rule (behindWord line) with
    | .error e => .error e
    | .ok args =>
      if args.length < rule.minArgs then
        .error (errorText (ascii "Too few arguments to " ++ rule.t))
      else if args.length > rule.maxArgs then
        .error (errorText (ascii "Too many arguments to " ++ rule.t))
      else .ok (⟨rule.v, args, none, none, none⟩, rule.t, rule.os)

end Arguments

section Objects
variable {Key : Type}

def maxUnparsedObjectSize : ℕ := 128 * 1024

def maxLineLength : ℕ := 128 * 1024

/-- The bytes at a place behind a pointer. -/
def chunk (s : Bytes) (off len : ℕ) : Option Bytes :=
  if off + len ≤ s.length then some ((s.drop off).take len) else none

def base64DecodeMaxsize (srclen : ℕ) : Option ℕ :=
  if srclen < intMax / 3 then some (ceilDiv (srclen * 3) 4) else none

/-- The part of `get_next_token` about an object: its type and what it is decoded to, if there is
an object, and where it ends. -/
def readObject (s : Bytes) : Option (Except Bytes (Option (Bytes × Bytes) × Bytes)) :=
  let eol := (s.takeWhile (· ≠ 10)).length
  if eol = s.length ∨ eol < 11 ∨ ¬ascii "-----BEGIN " <+: s then some (.ok (none, s))
  else if eol ≤ 16 then some (.error (ascii "Malformed object: bad begin line"))
  else do
    let objectType ← chunk s 11 (eol - 16)
    let dashes ← chunk s (eol - 5) 5
    if 0 ∈ objectType ∨ dashes ≠ ascii "-----" ∨ maxUnparsedObjectSize < eol then
      return .error (ascii "Malformed object: bad begin line")
    else
      let s := s.drop (eol + 1)
      match s.dropInfix? (ascii "-----END ") with
      | none => return .error (ascii "Malformed object: missing object end line")
      | some (body, _) =>
        let next := s.drop body.length
        let eol := (next.takeWhile (· ≠ 10)).length
        let mismatched := errorText (ascii "Malformed object: mismatched end tag " ++ objectType)
        if eol ≠ 9 + objectType.length + 5 then return .error mismatched
        else
          let name ← chunk next 9 objectType.length
          let dashes ← chunk next (eol - 5) 5
          if name ≠ objectType ∨ dashes ≠ ascii "-----" then return .error mismatched
          else if maxUnparsedObjectSize < body.length then
            return .error
              (ascii "Couldn't parse object: missing footer or object much too big.")
          else
            match ← base64Decode (← base64DecodeMaxsize body.length) body with
            | .error => return .error (ascii "Malformed object: bad base64-encoded data")
            | .ok n dest => return .ok (some (objectType, dest.take n.toNat), next.drop eol)

section
variable (crypto : PkCrypto Key)

/-- The token with its object, which may be a key. -/
def addObject (tok : Token Key) (oSyn : ObjSyntax) :
    Option (Bytes × Bytes) → Except Bytes (Token Key)
  | none => .ok tok
  | some (objectType, objectBody) =>
    let tok := { tok with objectType := some objectType, objectBody := some objectBody }
    if objectType = ascii "RSA PUBLIC KEY" then
      if oSyn ≠ .optKey1024 ∧ oSyn ≠ .needKey ∧ oSyn ≠ .needKey1024 ∧ oSyn ≠ .objOk then
        .error (ascii "Unexpected public key.")
      else
        match crypto.asn1Decode objectBody with
        | none => .error (ascii "Couldn't parse public key.")
        | some key => .ok { tok with key := some key }
    else .ok tok

/-- `PK_BYTES * 8` -/
def pkBits : ℕ := 1024 / 8 * 8

/-- The cases of `token_check_object` for a key that is needed. -/
def checkKey (kwd : Bytes) (needBits : Bool) : Option Key → Except Bytes Unit
  | none => .error (errorText (ascii "Missing public key for " ++ kwd))
  | some key =>
    if needBits ∧ crypto.numBits key ≠ pkBits then
      .error (errorText (ascii "Wrong size on key for " ++ kwd ++ ascii ": " ++
        decimalString (crypto.numBits key) ++ ascii " bits"))
    else if crypto.keyIsPrivate key then
      .error (errorText (ascii "Private key given for " ++ kwd ++
        ascii ", which wants a public key"))
    else .ok ()

def tokenCheckObject (kwd : Bytes) (tok : Token Key) : ObjSyntax → Except Bytes Unit
  | .noObj =>
    if tok.objectBody.isSome then .error (errorText (ascii "Unexpected object for " ++ kwd))
    else if tok.key.isSome then .error (errorText (ascii "Unexpected public key for " ++ kwd))
    else .ok ()
  | .needObj =>
    if tok.objectBody.isNone then .error (errorText (ascii "Missing object for " ++ kwd))
    else .ok ()
  | .optKey1024 =>
    if tok.objectBody.isSome ∧ tok.key.isNone then
      .error (errorText (ascii "Unexpected object for " ++ kwd))
    else if tok.key.isNone then .ok ()
    else checkKey crypto kwd true tok.key
  | .needKey1024 => checkKey crypto kwd true tok.key
  | .needKey => checkKey crypto kwd false tok.key
  | .objOk => .ok ()

/-- The end of `get_next_token`: the token with its object, if that is in order. -/
def checkedToken (kwd : Bytes) (oSyn : ObjSyntax) (tok : Token Key)
    (object : Option (Bytes × Bytes)) : Except Bytes (Token Key) :=
  match addObject crypto tok oSyn object with
  | .error e => .error e
  | .ok tok =>
    match tokenCheckObject crypto kwd tok oSyn with
    | .error e => .error e
    | .ok _ => .ok tok

/-- The first line of `get_next_token` and where it ends. -/
def firstLine (s : Bytes) : Except Bytes (Bytes × Bytes) :=
  let s := eatWhitespaceEos false s
  let line := s.takeWhile (· ≠ 10)
  if maxLineLength < line.length then .error (ascii "Line far too long")
  else if wordOf line = ascii "opt" then .ok (behindWord line, s.drop line.length)
  else if s = [] then .error (ascii "Unexpected EOF")
  else .ok (line, s.drop line.length)

/-- `get_next_token`: the token and where it ends, or the text of an error. -/
def getNextToken (table : List TokenRule) (s : Bytes) : Option (Except Bytes (Token Key × Bytes)) :=
  match firstLine s with
  | .error e => some (.error e)
  | .ok (line, s) =>
    match lineToken table line with
    | .error e => some (.error e)
    | .ok (tok, kwd, oSyn) => do
      match ← readObject (eatWhitespaceEos false s) with
      | .error e => return .error e
      | .ok (object, s) =>
        return (checkedToken crypto kwd oSyn tok object).map fun tok => (tok, s)

end

end Objects

section Rules
variable {Key : Type} {crypto : PkCrypto Key} {table : List TokenRule} {rule : TokenRule}
  {tok tok' : Token Key} {s rest line : Bytes} {args : List Bytes} {object : Option (Bytes × Bytes)}
  {oSyn : ObjSyntax}

/-- What a syntax says of an object. -/
def ObjectAllowed (crypto : PkCrypto Key) (tok : Token Key) : ObjSyntax → Prop
  | .noObj => tok.objectBody = none
  | .needObj => tok.objectBody.isSome ∧ tok.key = none
  | .optKey1024 => tok.objectBody = none ∨
    ∃ key, tok.key = some key ∧ crypto.numBits key = pkBits ∧ crypto.keyIsPrivate key = false
  | .needKey1024 =>
    ∃ key, tok.key = some key ∧ crypto.numBits key = pkBits ∧ crypto.keyIsPrivate key = false
  | .needKey => ∃ key, tok.key = some key ∧ crypto.keyIsPrivate key = false
  | .objOk => True

/-- A line, without an "opt", and the object behind it. -/
structure Item where
  line : Bytes
  object : Option (Bytes × Bytes)

/-- An item of the input, and where it ends. No rule has to do with that. -/
def readItem (s : Bytes) : Option (Except Bytes (Item × Bytes)) :=
  match firstLine s with
  | .error e => some (.error e)
  | .ok (line, s) =>
    (readObject (eatWhitespaceEos false s)).map fun result =>
      result.map fun r => (⟨line, r.1⟩, r.2)

/-- The object of an item is put into a token, if it is not a key that cannot be parsed. -/
def withObject (crypto : PkCrypto Key) (tok : Token Key) (object : Option (Bytes × Bytes)) :
    Option (Token Key) :=
  match object with
  | none => some tok
  | some (objectType, objectBody) =>
    let tok := { tok with objectType := some objectType, objectBody := some objectBody }
    if objectType = ascii "RSA PUBLIC KEY" then
      (crypto.asn1Decode objectBody).map fun key => { tok with key := some key }
    else some tok

/-- The token for an item: by the rule for its keyword, which it obeys, or as it is. -/
inductive TokenFor (crypto : PkCrypto Key) (table : List TokenRule) (item : Item)
    (tok : Token Key) : Prop
  | byRule (rule : TokenRule) (args : List Bytes)
      (hrule : findRule table (wordOf item.line) = some rule)
      (hargs : ruleArguments rule (behindWord item.line) = .ok args)
      (hobject : withObject crypto ⟨rule.v, args, none, none, none⟩ item.object = some tok)
      (hmin : rule.minArgs ≤ tok.args.length) (hmax : tok.args.length ≤ rule.maxArgs)
      (hallowed : ObjectAllowed crypto tok rule.os)
  | unknown (hrule : findRule table (wordOf item.line) = none)
      (hobject : withObject crypto ⟨if item.line.head? = some 64 then .aUnknown else .kOpt,
        [strndup item.line], none, none, none⟩ item.object = some tok)

theorem withObject_fields
    (h : withObject crypto tok object = some tok') : tok'.tp = tok.tp ∧ tok'.args = tok.args := by
  rcases object with _ | ⟨objectType, objectBody⟩
  · cases h
    exact ⟨rfl, rfl⟩
  · simp only [withObject] at h
    split_ifs at h
    · obtain ⟨key, -, rfl⟩ := Option.map_eq_some_iff.mp h
      exact ⟨rfl, rfl⟩
    · cases h
      exact ⟨rfl, rfl⟩

theorem checkKey_ok {kwd : Bytes} {needBits : Bool} {key : Option Key} :
    checkKey crypto kwd needBits key = .ok () ↔ ∃ k, key = some k ∧
      (needBits = true → crypto.numBits k = pkBits) ∧ crypto.keyIsPrivate k = false := by
  cases key with
  | none => simp [checkKey]
  | some k =>
    rw [checkKey]
    by_cases hbits : needBits = true ∧ crypto.numBits k ≠ pkBits
    · rw [if_pos hbits]
      simp [hbits]
    · rw [if_neg hbits]
      have hbits' : needBits = true → crypto.numBits k = pkBits := by
        simpa only [not_and, not_not] using hbits
      cases hprivate : crypto.keyIsPrivate k
      · simpa [hprivate] using hbits'
      · simp [hprivate]

theorem tokenCheckObject_ok {kwd : Bytes}
    (hkey : tok.key.isSome = true → tok.objectBody.isSome = true ∧ oSyn ≠ .needObj) :
    tokenCheckObject crypto kwd tok oSyn = .ok () ↔ ObjectAllowed crypto tok oSyn := by
  cases oSyn with
  | noObj =>
    cases hbody : tok.objectBody with
    | some body => simp [tokenCheckObject, ObjectAllowed, hbody]
    | none =>
      have hnone : tok.key.isSome = false := by
        rw [hbody] at hkey
        simpa using hkey
      simp [tokenCheckObject, ObjectAllowed, hbody, hnone]
  | needObj =>
    have hnone : tok.key = none := by simpa using hkey
    cases hbody : tok.objectBody <;> simp [tokenCheckObject, ObjectAllowed, hbody, hnone]
  | optKey1024 =>
    cases hbody : tok.objectBody with
    | none =>
      have hnone : tok.key = none := by
        rw [hbody] at hkey
        simpa using hkey
      simp [tokenCheckObject, ObjectAllowed, hbody, hnone]
    | some body =>
      cases hsome : tok.key with
      | none => simp [tokenCheckObject, ObjectAllowed, hbody, hsome]
      | some key =>
        have hcheck : checkKey crypto kwd true (some key) = .ok () ↔ _ := checkKey_ok
        simpa [tokenCheckObject, ObjectAllowed, hbody, hsome] using hcheck
  | needKey1024 => simp [tokenCheckObject, ObjectAllowed, checkKey_ok]
  | needKey => simp [tokenCheckObject, ObjectAllowed, checkKey_ok]
  | objOk => simp [tokenCheckObject, ObjectAllowed]

theorem checkedToken_of {kwd : Bytes}
    {t : Token Key} (hadd : addObject crypto tok oSyn object = .ok t)
    (hkey : t.key.isSome = true → t.objectBody.isSome = true ∧ oSyn ≠ .needObj) :
    checkedToken crypto kwd oSyn tok object = .ok tok' ↔
      t = tok' ∧ ObjectAllowed crypto tok' oSyn := by
  have hok : tokenCheckObject crypto kwd t oSyn = .ok () ↔ _ := tokenCheckObject_ok hkey
  rw [checkedToken, hadd]
  cases hresult : tokenCheckObject crypto kwd t oSyn with
  | error e =>
    rw [hresult] at hok
    have hnot : ¬ObjectAllowed crypto t oSyn := fun hallowed => by cases hok.mpr hallowed
    simp only [hresult, reduceCtorEq, false_iff, not_and]
    rintro rfl
    exact hnot
  | ok u =>
    have hallowed := hok.mp hresult
    simp only [hresult, Except.ok.injEq]
    constructor
    · rintro rfl
      exact ⟨rfl, hallowed⟩
    · exact fun h => h.1

theorem checkedToken_ok {tp : DirectoryKeyword} (kwd : Bytes) :
    checkedToken crypto kwd oSyn ⟨tp, args, none, none, none⟩ object = .ok tok' ↔
      withObject crypto ⟨tp, args, none, none, none⟩ object = some tok' ∧
        ObjectAllowed crypto tok' oSyn := by
  rcases object with _ | ⟨objectType, objectBody⟩
  · rw [checkedToken_of rfl (by simp), withObject, Option.some.injEq]
  by_cases htype : objectType = ascii "RSA PUBLIC KEY"
  case neg =>
    rw [checkedToken_of (by rw [addObject, if_neg htype]) (by simp), withObject, if_neg htype,
      Option.some.injEq]
  rw [withObject, if_pos htype]
  by_cases hsyntax : oSyn ≠ .optKey1024 ∧ oSyn ≠ .needKey ∧ oSyn ≠ .needKey1024 ∧ oSyn ≠ .objOk
  · have hadd : addObject crypto ⟨tp, args, none, none, none⟩ oSyn (some (objectType, objectBody)) =
        .error (ascii "Unexpected public key.") := by
      rw [addObject, if_pos htype, if_pos hsyntax]
    have hnot (key : Key) : ¬ObjectAllowed crypto
        ⟨tp, args, some objectType, some objectBody, some key⟩ oSyn := by
      cases oSyn <;> simp [ObjectAllowed] at hsyntax ⊢
    rw [checkedToken, hadd]
    simp only [reduceCtorEq, false_iff, not_and]
    intro hkey
    obtain ⟨key, -, rfl⟩ := Option.map_eq_some_iff.mp hkey
    exact hnot key
  cases hdecode : crypto.asn1Decode objectBody with
  | none =>
    have hadd : addObject crypto ⟨tp, args, none, none, none⟩ oSyn (some (objectType, objectBody)) =
        .error (ascii "Couldn't parse public key.") := by
      rw [addObject, if_pos htype, if_neg hsyntax, hdecode]
    rw [checkedToken, hadd]
    simp
  | some key =>
    have hneed : oSyn ≠ .needObj := by
      rintro rfl
      simp at hsyntax
    rw [checkedToken_of (by rw [addObject, if_pos htype, if_neg hsyntax, hdecode])
      (fun _ => ⟨rfl, hneed⟩), Option.map_some, Option.some.injEq]

theorem getNextToken_line {tp : DirectoryKeyword} {kwd : Bytes} {s' : Bytes}
    (hfirst : firstLine s = .ok (line, s'))
    (hline : lineToken table line = .ok ((⟨tp, args, none, none, none⟩ : Token Key), kwd, oSyn)) :
    getNextToken crypto table s = some (.ok (tok, rest)) ↔ ∃ object,
      readItem s = some (.ok (⟨line, object⟩, rest)) ∧
        withObject crypto ⟨tp, args, none, none, none⟩ object = some tok ∧
          ObjectAllowed crypto tok oSyn := by
  simp only [getNextToken, readItem, hfirst, hline, ← checkedToken_ok kwd]
  cases hread : readObject (eatWhitespaceEos false s') with
  | none => simp
  | some result =>
    cases result with
    | error e => simp [Except.map]
    | ok r =>
      obtain ⟨object, r⟩ := r
      simp only [Option.bind_eq_bind, Option.bind_some, Option.pure_def, Option.some.injEq,
        Option.map_some, Except.map, Except.ok.injEq, Prod.mk.injEq, Item.mk.injEq, true_and]
      cases hchecked : checkedToken crypto kwd oSyn ⟨tp, args, none, none, none⟩ object with
      | error e =>
        simp only [reduceCtorEq, false_iff, not_exists, not_and]
        rintro object' ⟨rfl, -⟩ hok
        rw [hchecked] at hok
        cases hok
      | ok tok' =>
        simp only [Except.ok.injEq, Prod.mk.injEq]
        constructor
        · rintro ⟨rfl, rfl⟩
          exact ⟨object, ⟨rfl, rfl⟩, hchecked⟩
        · rintro ⟨object', ⟨rfl, rfl⟩, hok⟩
          rw [hchecked] at hok
          exact ⟨Except.ok.inj hok, rfl⟩

theorem getNextToken_ok : getNextToken crypto table s = some (.ok (tok, rest)) ↔
    ∃ item, readItem s = some (.ok (item, rest)) ∧ TokenFor crypto table item tok := by
  cases hfirst : firstLine s with
  | error e => simp [getNextToken, readItem, hfirst]
  | ok r =>
    obtain ⟨line, s'⟩ := r
    have hitem {item : Item} (h : readItem s = some (.ok (item, rest))) : item.line = line := by
      simp only [readItem, hfirst, Option.map_eq_some_iff] at h
      obtain ⟨result, -, hresult⟩ := h
      cases result with
      | error e => cases hresult
      | ok r =>
        cases hresult
        rfl
    cases hrule : findRule table (wordOf line) with
    | none =>
      have hline : lineToken table line = .ok ((⟨if line.head? = some 64 then .aUnknown else .kOpt,
          [strndup line], none, none, none⟩ : Token Key), [], .objOk) := by
        rw [lineToken, hrule]
      rw [getNextToken_line hfirst hline]
      constructor
      · rintro ⟨object, hread, hobject, -⟩
        exact ⟨_, hread, .unknown hrule hobject⟩
      · rintro ⟨item, hread, htoken⟩
        obtain rfl := hitem hread
        cases htoken with
        | byRule rule args hrule' => cases hrule.symm.trans hrule'
        | unknown _ hobject => exact ⟨item.object, hread, hobject, trivial⟩
    | some rule =>
      have hbyRule {item : Item} (hread : readItem s = some (.ok (item, rest)))
          (htoken : TokenFor crypto table item tok) : ∃ args object,
            readItem s = some (.ok (⟨line, object⟩, rest)) ∧
              ruleArguments rule (behindWord line) = .ok args ∧
                withObject crypto ⟨rule.v, args, none, none, none⟩ object = some tok ∧
                  rule.minArgs ≤ args.length ∧ args.length ≤ rule.maxArgs ∧
                    ObjectAllowed crypto tok rule.os := by
        obtain rfl := hitem hread
        cases htoken with
        | byRule rule' args hrule' hargs hobject hmin hmax hallowed =>
          cases hrule.symm.trans hrule'
          rw [(withObject_fields hobject).2] at hmin hmax
          exact ⟨args, item.object, hread, hargs, hobject, hmin, hmax, hallowed⟩
        | unknown hrule' => cases hrule.symm.trans hrule'
      cases hargs : ruleArguments rule (behindWord line) with
      | error e =>
        have hline : lineToken table line = (.error e : Except Bytes (Token Key × _)) := by
          rw [lineToken, hrule]
          simp only [hargs]
        simp only [getNextToken, hfirst, hline, Option.some.injEq, reduceCtorEq, false_iff,
          not_exists, not_and]
        intro item hread htoken
        obtain ⟨args, -, -, hargs', -⟩ := hbyRule hread htoken
        cases hargs.symm.trans hargs'
      | ok args =>
        by_cases hcount : rule.minArgs ≤ args.length ∧ args.length ≤ rule.maxArgs
        · have hline : lineToken table line =
              .ok ((⟨rule.v, args, none, none, none⟩ : Token Key), rule.t, rule.os) := by
            rw [lineToken, hrule]
            simp only [hargs]
            rw [if_neg (by omega), if_neg (by omega)]
          rw [getNextToken_line hfirst hline]
          constructor
          · rintro ⟨object, hread, hobject, hallowed⟩
            have hlength := (withObject_fields hobject).2
            exact ⟨_, hread, .byRule rule args hrule hargs hobject (by rw [hlength]; exact hcount.1)
              (by rw [hlength]; exact hcount.2) hallowed⟩
          · rintro ⟨item, hread, htoken⟩
            obtain ⟨args', object, hread', hargs', hobject, -, -, hallowed⟩ := hbyRule hread htoken
            obtain rfl := Except.ok.inj (hargs.symm.trans hargs')
            exact ⟨object, hread', hobject, hallowed⟩
        · have hline : ∃ e, lineToken table line = (.error e : Except Bytes (Token Key × _)) := by
            rw [lineToken, hrule]
            simp only [hargs]
            by_cases hmin : args.length < rule.minArgs
            · exact ⟨_, if_pos hmin⟩
            · rw [if_neg hmin, if_pos (by omega)]
              exact ⟨_, rfl⟩
          obtain ⟨e, hline⟩ := hline
          simp only [getNextToken, hfirst, hline, Option.some.injEq, reduceCtorEq, false_iff,
            not_exists, not_and]
          intro item hread htoken
          obtain ⟨args', -, -, hargs', -, hmin, hmax, -⟩ := hbyRule hread htoken
          obtain rfl := Except.ok.inj (hargs.symm.trans hargs')
          exact hcount ⟨hmin, hmax⟩

end Rules

section Inside
variable {Key : Type} {crypto : PkCrypto Key} {table : List TokenRule} {tok : Token Key}
  {s t rest line : Bytes} {off len : ℕ} {item : Item} {object : Option (Bytes × Bytes)}
  {args : List Bytes}

theorem chunk_eq (h : off + len ≤ s.length) : chunk s off len = some ((s.drop off).take len) :=
  if_pos h

theorem chunk_infix (s : Bytes) (off len : ℕ) : (s.drop off).take len <:+: s :=
  (List.take_prefix len (s.drop off)).isInfix.trans (s.drop_suffix off).isInfix

/-- What a text in base64 is decoded to. -/
def Decoded (text body : Bytes) : Prop :=
  ∃ size n dest, base64DecodeMaxsize text.length = some size ∧
    base64Decode size text = some (.ok n dest) ∧ body = dest.take n.toNat

/-- An object whose type and whose text are in an input. -/
def ObjectIn (s : Bytes) (object : Option (Bytes × Bytes)) : Prop :=
  ∀ r ∈ object, r.1 <:+: s ∧ ∃ text, text <:+: s ∧ Decoded text r.2

theorem readObject_spec (s : Bytes) : ∃ result, readObject s = some result ∧
    ∀ object rest, result = .ok (object, rest) → rest <:+ s ∧ ObjectIn s object := by
  have herror (e : Bytes) : ∀ object rest,
      (.error e : Except Bytes (Option (Bytes × Bytes) × Bytes)) = .ok (object, rest) →
        rest <:+ s ∧ ObjectIn s object := by
    intro object rest h
    cases h
  have hle := (List.takeWhile_prefix (l := s) (· ≠ (10 : UInt8))).length_le
  generalize heol : (s.takeWhile (· ≠ 10)).length = eol at hle
  simp only [readObject, heol]
  by_cases hnone : eol = s.length ∨ eol < 11 ∨ ¬ascii "-----BEGIN " <+: s
  · refine ⟨_, if_pos hnone, ?_⟩
    intro object rest h
    cases h
    exact ⟨List.suffix_refl s, fun r hr => by cases hr⟩
  rw [if_neg hnone]
  by_cases hshort : eol ≤ 16
  · exact ⟨_, if_pos hshort, herror _⟩
  rw [if_neg hshort, chunk_eq (by omega), chunk_eq (by omega)]
  simp only [Option.bind_eq_bind, Option.bind_some, Option.pure_def]
  generalize hname : (s.drop 11).take (eol - 16) = name
  have hname' : name <:+: s := hname ▸ chunk_infix s 11 (eol - 16)
  split_ifs with hbegin
  · exact ⟨_, rfl, herror _⟩
  generalize hs' : s.drop (eol + 1) = s'
  have hsuffix : s' <:+ s := hs' ▸ s.drop_suffix (eol + 1)
  cases hmark : s'.dropInfix? (ascii "-----END ") with
  | none => exact ⟨_, rfl, herror _⟩
  | some r =>
    obtain ⟨body, after⟩ := r
    obtain ⟨hbody, -⟩ := Encoding.Pem.dropInfix?_mark.mp hmark
    have hprefix : body <:+: s' := by
      rw [hbody, List.append_assoc]
      exact (List.prefix_append body _).isInfix
    have hnext : s'.drop body.length <:+ s' := s'.drop_suffix _
    dsimp only
    generalize s'.drop body.length = next at hnext ⊢
    have hle' := (List.takeWhile_prefix (l := next) (· ≠ (10 : UInt8))).length_le
    generalize (next.takeWhile (· ≠ 10)).length = eol' at hle' ⊢
    by_cases hlength : eol' ≠ 9 + name.length + 5
    · exact ⟨_, if_pos hlength, herror _⟩
    rw [if_neg hlength, chunk_eq (by omega), chunk_eq (by omega)]
    simp only [Option.bind_some]
    split_ifs with hend hbig
    · exact ⟨_, rfl, herror _⟩
    · exact ⟨_, rfl, herror _⟩
    have hmax : body.length < intMax / 3 := by
      have hbound : maxUnparsedObjectSize = 131072 := rfl
      have hint : intMax / 3 = 715827882 := rfl
      omega
    have hsize : base64DecodeMaxsize body.length = some (ceilDiv (body.length * 3) 4) := if_pos hmax
    obtain ⟨result, hdecode⟩ : ∃ result,
        base64Decode (ceilDiv (body.length * 3) 4) body = some result :=
      Encoding.base64Decode_inBounds
    rw [hsize, Option.bind_some, hdecode, Option.bind_some]
    cases result with
    | error => exact ⟨_, rfl, herror _⟩
    | ok n dest =>
      refine ⟨_, rfl, ?_⟩
      intro object rest h
      cases h
      refine ⟨(next.drop_suffix eol').trans (hnext.trans hsuffix), ?_⟩
      rintro _ ⟨⟩
      exact ⟨hname', body, hprefix.trans hsuffix.isInfix, _, n, dest, hsize, hdecode, rfl⟩

theorem ObjectIn.mono (h : ObjectIn t object) (ht : t <:+: s) : ObjectIn s object := by
  intro r hr
  obtain ⟨htype, text, htext, hdecoded⟩ := h r hr
  exact ⟨htype.trans ht, text, htext.trans ht, hdecoded⟩

theorem head_eatWhitespaceEos (comment : Bool) (s : Bytes) :
    ∀ c ∈ (eatWhitespaceEos comment s).head?, isWhitespace c = false := by
  induction s generalizing comment with
  | nil =>
    intro c hc
    cases hc
  | cons b s ih =>
    rw [eatWhitespaceEos]
    split_ifs with hcomment hspace
    · exact ih true
    · exact ih false
    · exact ih true
    · rintro c ⟨⟩
      simpa using hspace

theorem behindWord_suffix (line : Bytes) : behindWord line <:+ line :=
  (List.dropWhile_suffix _).trans (List.drop_suffix _ _)

/-- A line that is read is in the input, and the cursor gets ahead. -/
theorem firstLine_spec (h : firstLine s = .ok (line, rest)) :
    line <:+: s ∧ rest <:+ s ∧ rest.length < s.length := by
  have hsuffix := eatWhitespaceEos_suffix false s
  have hhead := head_eatWhitespaceEos false s
  simp only [firstLine] at h
  generalize eatWhitespaceEos false s = t at h hsuffix hhead
  have hpart := (List.takeWhile_prefix (l := t) (· ≠ (10 : UInt8))).isInfix.trans hsuffix.isInfix
  have hrest (hne : t.takeWhile (· ≠ 10) ≠ []) :
      t.drop (t.takeWhile (· ≠ 10)).length <:+ s ∧
        (t.drop (t.takeWhile (· ≠ 10)).length).length < s.length := by
    have hpos := List.length_pos_iff.mpr hne
    have hle := (List.takeWhile_prefix (l := t) (· ≠ (10 : UInt8))).length_le
    have hle' := hsuffix.length_le
    refine ⟨(List.drop_suffix _ t).trans hsuffix, ?_⟩
    rw [List.length_drop]
    omega
  split_ifs at h with hlong hopt hnil
  · cases h
    refine ⟨(behindWord_suffix _).isInfix.trans hpart, hrest ?_⟩
    intro hnil
    rw [hnil] at hopt
    exact absurd hopt (by decide)
  · cases h
    refine ⟨hpart, hrest ?_⟩
    cases t with
    | nil => exact absurd rfl hnil
    | cons c t =>
      have hc : c ≠ 10 := by
        rintro rfl
        exact absurd (hhead 10 rfl) (by decide)
      simp [hc]

theorem readItem_spec (s : Bytes) : ∃ result, readItem s = some result ∧
    ∀ item rest, result = .ok (item, rest) → rest <:+ s ∧ rest.length < s.length ∧
      item.line <:+: s ∧ ObjectIn s item.object := by
  cases hfirst : firstLine s with
  | error e =>
    refine ⟨.error e, by rw [readItem, hfirst], ?_⟩
    intro item rest h
    cases h
  | ok r =>
    obtain ⟨line, s'⟩ := r
    obtain ⟨hline, hsuffix, hlt⟩ := firstLine_spec hfirst
    have heat := (eatWhitespaceEos_suffix false s').trans hsuffix
    have hle := (eatWhitespaceEos_suffix false s').length_le
    obtain ⟨result, hread, hok⟩ := readObject_spec (eatWhitespaceEos false s')
    refine ⟨_, by rw [readItem, hfirst]; simp only [hread]; rfl, ?_⟩
    intro item rest h
    cases result with
    | error e => cases h
    | ok r =>
      cases h
      obtain ⟨hrest, hobject⟩ := hok r.1 r.2 rfl
      have hle' := hrest.length_le
      exact ⟨hrest.trans heat, by omega, hline, hobject.mono heat.isInfix⟩

theorem getTokenArguments_infix {out : List Bytes} {cp : Bytes}
    (h : getTokenArguments args cp = some out) : ∀ a ∈ out, a ∈ args ∨ a <:+: cp := by
  fun_induction getTokenArguments args cp with
  | case1 args =>
    cases h
    exact fun a ha => .inl ha
  | case2 => cases h
  | case3 args cp hnil hmax args' hend =>
    obtain rfl := Option.some.inj h
    intro a ha
    rcases List.mem_append.mp ha with ha | ha
    · exact .inl ha
    · obtain rfl := List.mem_singleton.mp ha
      exact .inr (List.takeWhile_prefix _).isInfix
  | case4 args cp hnil hmax args' hend ih =>
    intro a ha
    rcases ih h a ha with ha | ha
    · rcases List.mem_append.mp ha with ha | ha
      · exact .inl ha
      · obtain rfl := List.mem_singleton.mp ha
        exact .inr (List.takeWhile_prefix _).isInfix
    · right
      exact ha.trans <| ((eatWhitespaceEos_suffix _ _).trans <| (List.drop_suffix _ _).trans <|
        List.dropWhile_suffix _).isInfix

theorem ruleArguments_in {rule : TokenRule}
    (h : ruleArguments rule rest = .ok args) : ∀ a ∈ args, a <:+: rest := by
  have hdup : strndup rest <:+: rest := (List.takeWhile_prefix _).isInfix
  rw [ruleArguments] at h
  split_ifs at h
  · cases h
    intro a ha
    rwa [List.mem_singleton.mp ha]
  · cases hargs : getTokenArguments [] (strndup rest) with
    | none => simp [hargs] at h
    | some out =>
      simp only [hargs, Except.ok.injEq] at h
      subst h
      intro a ha
      rcases getTokenArguments_infix hargs a ha with hnil | ha
      · cases hnil
      · exact ha.trans hdup

/-- A token whose strings and object are in an input. -/
structure TokenIn (s : Bytes) (tok : Token Key) : Prop where
  args : ∀ a ∈ tok.args, a <:+: s
  objectType : ∀ name ∈ tok.objectType, name <:+: s
  objectBody : ∀ body ∈ tok.objectBody, ∃ text, text <:+: s ∧ Decoded text body

theorem withObject_in {tp : DirectoryKeyword} (hargs : ∀ a ∈ args, a <:+: s) (hobject : ObjectIn s object)
    (h : withObject crypto ⟨tp, args, none, none, none⟩ object = some tok) : TokenIn s tok := by
  rcases object with _ | ⟨objectType, objectBody⟩
  · cases h
    refine ⟨hargs, ?_, ?_⟩ <;>
      · intro x hx
        cases hx
  · obtain ⟨htype, hbody⟩ := hobject _ rfl
    have hin : ∀ key : Option Key,
        TokenIn s ⟨tp, args, some objectType, some objectBody, key⟩ := by
      intro key
      refine ⟨hargs, ?_, ?_⟩
      · rintro _ ⟨⟩
        exact htype
      · rintro _ ⟨⟩
        exact hbody
    simp only [withObject] at h
    split_ifs at h
    · obtain ⟨key, -, rfl⟩ := Option.map_eq_some_iff.mp h
      exact hin (some key)
    · cases h
      exact hin none

theorem TokenFor.tokenIn (h : TokenFor crypto table item tok) (hline : item.line <:+: s)
    (hobject : ObjectIn s item.object) : TokenIn s tok := by
  cases h with
  | byRule rule args hrule hargs hwith hmin hmax hallowed =>
    refine withObject_in (fun a ha => ?_) hobject hwith
    exact (ruleArguments_in hargs a ha).trans ((behindWord_suffix _).isInfix.trans hline)
  | unknown hrule hwith =>
    refine withObject_in (fun a ha => ?_) hobject hwith
    rw [List.mem_singleton.mp ha]
    exact (List.takeWhile_prefix _).isInfix.trans hline

/-- `get_next_token` returns, and no read of it is outside of the input. -/
theorem getNextToken_inBounds (crypto : PkCrypto Key) (table : List TokenRule) (s : Bytes) :
    ∃ result, getNextToken crypto table s = some result := by
  rw [getNextToken]
  cases hfirst : firstLine s with
  | error e => exact ⟨_, rfl⟩
  | ok r =>
    obtain ⟨line, s'⟩ := r
    dsimp only
    cases (lineToken table line : Except Bytes (Token Key × Bytes × ObjSyntax)) with
    | error e => exact ⟨_, rfl⟩
    | ok l =>
      obtain ⟨result, hread, -⟩ := readObject_spec (eatWhitespaceEos false s')
      simp only [hread, Option.bind_eq_bind, Option.bind_some]
      cases result with
      | error e => exact ⟨_, rfl⟩
      | ok r => exact ⟨_, rfl⟩

end Inside

end TorDaemon.Dirparse

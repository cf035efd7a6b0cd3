import TorDaemon.Keypin.Table
import TorDaemon.SharedRandom.Agreement

/-! A commit as it stands in a vote or in the state file (`sr_parse_commit`): the version, the
algorithm, the fingerprint, the commitment and, once it is known, the reveal. -/
namespace TorDaemon.SharedRandom
open Keypin Library.NetworkOrder Library.Sorting

/-- The characters of a string literal. -/
def ascii (s : String) : Bytes := s.toList.map fun c => c.toUInt8

section Numbers

/-- `TOR_ISSPACE`. -/
def isSpace (c : UInt8) : Bool := c = 32 ∨ 9 ≤ c ∧ c ≤ 13

/-- A space or a tab. -/
def isBlank (c : UInt8) : Bool := c = 32 || c = 9

def isDigit (c : UInt8) : Bool := 48 ≤ c ∧ c ≤ 57

def decimal (digits : Bytes) : ℕ := digits.foldl (fun n d => 10 * n + (d.toNat - 48)) 0

/-- `strtoul` in base 10 of a whole string: the sign, and the value without it. -/
def strtoul (s : Bytes) : Option (Bool × ℕ) :=
  let s := s.dropWhile isSpace
  let negative := s.head? = some 45
  let s := if s.head? = some 45 ∨ s.head? = some 43 then s.tail else s
  if s.takeWhile isDigit = [] ∨ s.dropWhile isDigit ≠ [] then none
  else some (negative, decimal s)

/-- `tor_parse_ulong` and `tor_parse_uint64` in base 10, where nothing may follow the number. A
minus sign takes the value from 2^64. -/
def torParseUint64 (s : Bytes) (min max : ℕ) : Option ℕ :=
  (strtoul s).bind fun (negative, v) =>
    if 2 ^ 64 ≤ v then none
    else
      let r := if negative then (2 ^ 64 - v) % 2 ^ 64 else v
      if r < min ∨ max < r then none else some r

end Numbers

def cryptoDigestAlgorithmGetName : DigestAlgorithm → Bytes
  | .sha1 => ascii "sha1"
  | .sha256 => ascii "sha256"
  | .sha512 => ascii "sha512"
  | .sha3_256 => ascii "sha3-256"
  | .sha3_512 => ascii "sha3-512"

def cryptoDigestAlgorithmParseName (name : Bytes) : Option DigestAlgorithm :=
  if name = ascii "sha1" then some .sha1
  else if name = ascii "sha256" then some .sha256
  else if name = ascii "sha512" then some .sha512
  else if name = ascii "sha3-256" then some .sha3_256
  else if name = ascii "sha3-512" then some .sha3_512
  else none

def hexDecodeDigit (c : UInt8) : Option UInt8 :=
  if 48 ≤ c ∧ c ≤ 57 then some (c - 48)
  else if 65 ≤ c ∧ c ≤ 70 then some (c - 55)
  else if 97 ≤ c ∧ c ≤ 102 then some (c - 87)
  else none

/-- `base16_decode` of so many pairs of digits from the start of a string. -/
def base16Decode : ℕ → Bytes → Option Bytes
  | 0, _ => some []
  | len + 1, a :: b :: src => do
    let v1 ← hexDecodeDigit a
    let v2 ← hexDecodeDigit b
    let rest ← base16Decode len src
    return (v1 <<< 4 ||| v2) :: rest
  | _ + 1, _ => none

/-- A decoded string, where it has the wanted length. -/
def ofLength (len : ℕ) (b : Bytes) : Option { b : Bytes // b.length = len } :=
  if h : b.length = len then some ⟨b, h⟩ else none

theorem ofLength_of {len : ℕ} {b : Bytes} (h : b.length = len) : ofLength len b = some ⟨b, h⟩ :=
  dif_pos h

def srProtoVersion : ℕ := 1

/-- `SR_COMMIT_LEN` and `SR_REVEAL_LEN`. -/
def srCommitLen : ℕ := 40

/-- `SR_COMMIT_BASE64_LEN` and `SR_REVEAL_BASE64_LEN`. -/
def srCommitBase64Len : ℕ := 56

/-- A timestamp and a digest, as the commitment and the reveal are encoded. -/
structure Stamped where
  ts : UInt64
  digest : Digest256

/-- The decoding that `commit_decode` and `reveal_decode` share. -/
def stampedDecode (encoded : Bytes) : Option Stamped :=
  if srCommitBase64Len < encoded.length then none
  else do
    let decoded ← base64Decode srCommitLen encoded
    let decoded ← ofLength srCommitLen decoded
    return ⟨UInt64.ofNat (ofBigEndian (decoded.val.take 8)), decoded.val.drop 8, by
      simp [decoded.property, srCommitLen]⟩

/-- The bytes that `commit_encode` and `reveal_encode` give to `base64_encode`. -/
def stampedEncode (s : Stamped) : Bytes :=
  base64Encode (bigEndian 8 s.ts.toNat ++ s.digest.val)

/-- A timestamp and a digest come back from what they are encoded as. -/
theorem stampedDecode_encode (s : Stamped) : stampedDecode (stampedEncode s) = some s := by
  have hlength : (bigEndian 8 s.ts.toNat ++ s.digest.val).length = srCommitLen := by
    simp [bigEndian_length, s.digest.property, srCommitLen]
  have hencoded : ¬ srCommitBase64Len < (stampedEncode s).length := by
    simp [stampedEncode, base64Encode_eq, sextets_length, pads, bigEndian_length,
      s.digest.property, srCommitBase64Len]
  have hdecode : base64Decode srCommitLen (stampedEncode s) =
      some (bigEndian 8 s.ts.toNat ++ s.digest.val) := by
    rw [stampedEncode, base64Encode_eq]
    exact base64Decode_encode (Nat.le_of_eq hlength) (List.prefix_refl _)
  have hts : UInt64.ofNat (ofBigEndian (bigEndian 8 s.ts.toNat)) = s.ts := by
    have hmod : s.ts.toNat % 256 ^ 8 = s.ts.toNat := Nat.mod_eq_of_lt s.ts.toNat_lt
    rw [ofBigEndian_bigEndian, hmod, UInt64.ofNat_toNat]
  rw [stampedDecode, if_neg hencoded, hdecode]
  simp only [Option.bind_eq_bind, Option.bind_some, ofLength_of hlength]
  congr 1
  cases s
  simp only [Stamped.mk.injEq]
  constructor
  · rw [List.take_left' (bigEndian_length _ _), hts]
  · exact Subtype.ext (List.drop_left' (bigEndian_length _ _))

def Commit.new (rsaIdentity : Digest) : Commit where
  alg := .sha3_256
  valid := false
  rsaIdentity := rsaIdentity
  revealTs := 0
  hashedReveal := Digest256.replicate 0
  encodedCommit := []
  randomNumber := Digest256.replicate 0
  commitTs := 0
  encodedReveal := []

def commitDecode (encoded : Bytes) (commit : Commit) : Option Commit := do
  let s ← stampedDecode encoded
  return { commit with commitTs := s.ts, hashedReveal := s.digest, encodedCommit := encoded }

def revealDecode (encoded : Bytes) (commit : Commit) : Option Commit := do
  let s ← stampedDecode encoded
  return { commit with revealTs := s.ts, randomNumber := s.digest, encodedReveal := encoded }

/-- A version that is no number is read as 0 and is not refused. -/
def srParseCommit (args : List Bytes) : Option Commit :=
  match args with
  | version :: algname :: rsaIdentityFpr :: value :: rest =>
    if srProtoVersion < (torParseUint64 version 1 (2 ^ 32 - 1)).getD 0 then none
    else if cryptoDigestAlgorithmParseName algname ≠ some .sha3_256 then none
    else do
      let digest ← base16Decode 20 rsaIdentityFpr
      let digest ← ofLength 20 digest
      let commit ← commitDecode value (.new digest)
      match rest with
      | [] => return commit
      | value :: _ => revealDecode value commit
  | _ => none

/-- What `commit_decode` has put into a commit. -/
structure Commit.Parsed (c : Commit) : Prop where
  alg : c.alg = .sha3_256
  commitment : stampedDecode c.encodedCommit = some ⟨c.commitTs, c.hashedReveal⟩

/-- A commit as the daemon makes or parses it. A commit without its reveal has zeros in place
of it. -/
structure Commit.Decoded (c : Commit) : Prop extends c.Parsed where
  reveal : if c.hasRevealValue then stampedDecode c.encodedReveal = some ⟨c.revealTs, c.randomNumber⟩
    else c.revealTs = 0 ∧ c.randomNumber = (Commit.new c.rsaIdentity).randomNumber

theorem stampedDecode_ne_nil {encoded : Bytes} {s : Stamped} (h : stampedDecode encoded = some s) :
    encoded ≠ [] := by
  rintro rfl
  cases h

theorem srParseCommit_decoded {args : List Bytes} (h : srParseCommit args = some c) :
    c.Decoded := by
  rcases args with _ | ⟨version, _ | ⟨algname, _ | ⟨fpr, _ | ⟨value, rest⟩⟩⟩⟩
  · cases h
  · cases h
  · cases h
  · cases h
  · simp only [srParseCommit, Option.bind_eq_bind] at h
    by_cases hversion : srProtoVersion < (torParseUint64 version 1 (2 ^ 32 - 1)).getD 0
    · rw [if_pos hversion] at h
      cases h
    rw [if_neg hversion] at h
    by_cases halg : cryptoDigestAlgorithmParseName algname ≠ some .sha3_256
    · rw [if_pos halg] at h
      cases h
    rw [if_neg halg] at h
    obtain ⟨bytes, -, h⟩ := Option.bind_eq_some_iff.mp h
    obtain ⟨digest, -, h⟩ := Option.bind_eq_some_iff.mp h
    obtain ⟨commit, hcommit, h⟩ := Option.bind_eq_some_iff.mp h
    obtain ⟨s, hs, hset⟩ := Option.bind_eq_some_iff.mp hcommit
    cases hset
    cases rest with
    | nil =>
      cases h
      exact ⟨⟨rfl, hs⟩, rfl, rfl⟩
    | cons reveal rest =>
      obtain ⟨r, hr, hset⟩ := Option.bind_eq_some_iff.mp h
      cases hset
      have hne : reveal ≠ [] := stampedDecode_ne_nil hr
      exact ⟨⟨rfl, hs⟩, by simp [Commit.hasRevealValue, hne, hr]⟩

/-! ### The run of an authority

An operation (`shared_random_state.c`) gives the state it ends in and, in order, the states that
were written to the disk on the way there. -/

structure SrState extends State where
  version : ℕ
  validAfter : ℕ
  validUntil : ℕ
  nProtocolRuns : ℕ
  nCommitRounds : ℕ
  nRevealRounds : ℕ

/-- What an operation reads of the authority it runs on: the authorities it knows, its own
identity if it has a certificate, the random number it draws, the voting schedule, and how it
sorts. -/
structure Env where
  recognized : Digest → Bool
  identity : Option Digest
  random : Digest256
  votingInterval : ℕ
  curValidAfter : ℕ
  nextValidAfter : ℕ
  sort : Qsort compareReveal

def sharedRandomNRounds : ℕ := 12

def sharedRandomNPhases : ℕ := 2

def getSrProtocolPhase (env : Env) (validAfter : ℕ) : Phase :=
  if validAfter / env.votingInterval % (sharedRandomNRounds * sharedRandomNPhases) <
      sharedRandomNRounds then .commit
  else .reveal

def getStateValidUntilTime (env : Env) (now : ℕ) : ℕ :=
  let totalRounds := sharedRandomNRounds * sharedRandomNPhases
  let currentRound := now / env.votingInterval % totalRounds
  let roundsLeft := totalRounds - currentRound
  env.curValidAfter + roundsLeft * env.votingInterval

def stateNew (env : Env) (now : ℕ) : SrState where
  phase := getSrProtocolPhase env now
  commits := .empty
  previousSrv := none
  currentSrv := none
  isSrvFresh := false
  version := srProtoVersion
  validAfter := 0
  validUntil := getStateValidUntilTime env now
  nProtocolRuns := 0
  nCommitRounds := 0
  nRevealRounds := 0

/-- An operation under way: the state, and the states that have been saved. -/
structure Progress where
  state : SrState
  saves : List SrState

namespace Progress

/-- A change in memory only. -/
def set (p : Progress) (f : SrState → SrState) : Progress := { p with state := f p.state }

/-- `state_query` with an action that changes the state and then saves it. -/
def query (p : Progress) (f : SrState → SrState) : Progress :=
  ⟨f p.state, p.saves ++ [f p.state]⟩

end Progress

/-- `state_del_previous_srv`, and `sr_state_set_previous_srv` with NULL. -/
def delPreviousSrv (s : SrState) : SrState := { s with previousSrv := none }

def delCurrentSrv (s : SrState) : SrState := { s with currentSrv := none }

def setPreviousSrv (srv : Option Srv) (s : SrState) : SrState := { s with previousSrv := srv }

def setCurrentSrv (srv : Option Srv) (s : SrState) : SrState := { s with currentSrv := srv }

def setFreshSrv (fresh : Bool) (s : SrState) : SrState := { s with isSrvFresh := fresh }

def setPhase (phase : Phase) (s : SrState) : SrState := { s with phase := phase }

def setValidAfter (validAfter : ℕ) (s : SrState) : SrState := { s with validAfter := validAfter }

/-- `commit_add_to_state`. -/
def addCommit (c : { c : Commit // c.valid = true }) (s : SrState) : SrState :=
  { s with commits := s.commits.set c.val c.property }

def deleteCommits (s : SrState) : SrState := { s with commits := .empty }

def stateRotateSrv (p : Progress) : Progress :=
  let p := p.query delPreviousSrv
  let p := p.query (setPreviousSrv p.state.currentSrv)
  p.query (setCurrentSrv none)

section Operations
variable (digest256 : Bytes → Digest256) (env : Env)

/-- The value that `sr_compute_srv` computes. -/
def computedSrv (s : SrState) : Srv :=
  generateSrv digest256 (digest256 (reveals env.recognized env.sort s.commits))
    (revealChunks env.recognized env.sort s.commits).length s.previousSrv

/-- `sr_compute_srv` with what it saves. -/
def srComputeSrvSaved (p : Progress) : Option Progress :=
  if p.state.phase ≠ .reveal then some p
  else if !p.state.commits.commits.all Commit.valid then none
  else
    let p := p.query (setCurrentSrv (some (computedSrv digest256 env p.state)))
    some (p.set (setFreshSrv true))

/-- `sr_generate_our_commit`, where the authority has a certificate. -/
def srGenerateOurCommit (timestamp : ℕ) : Option { c : Commit // c.valid = true } :=
  env.identity.map fun digest =>
    let ts := UInt64.ofNat timestamp
    let encodedReveal := stampedEncode ⟨ts, env.random⟩
    let hashedReveal := digest256 encodedReveal
    ⟨{ Commit.new digest with
      randomNumber := env.random
      commitTs := ts
      revealTs := ts
      encodedReveal := encodedReveal
      hashedReveal := hashedReveal
      encodedCommit := stampedEncode ⟨ts, hashedReveal⟩
      valid := true }, rfl⟩

section
variable (validAfter : ℕ)

section
variable (p : Progress)

/-- The commit is generated and added, unless the authority cannot make one. -/
def addOurCommit : Progress :=
  match srGenerateOurCommit digest256 env validAfter with
  | some c => p.query (addCommit c)
  | none => p

def resetStateForNewProtocolRun : Progress :=
  let p := p.set fun s => { s with
    nRevealRounds := 0
    nCommitRounds := 0
    nProtocolRuns := s.nProtocolRuns + 1
    validUntil := getStateValidUntilTime env validAfter
    validAfter := validAfter }
  p.query deleteCommits

/-- The value is computed at the end of the reveal phase only. -/
def computeAtEnd : Option Progress :=
  if p.state.phase = .reveal then srComputeSrvSaved digest256 env (stateRotateSrv p) else some p

def newProtocolRun : Option Progress := do
  let p ← computeAtEnd digest256 env p
  return addOurCommit digest256 env validAfter (resetStateForNewProtocolRun env validAfter p)

/-- The part of `sr_state_update` that prepares the stage for the phase of the next round. -/
def enterPhase : Option Progress :=
  let nextPhase := getSrProtocolPhase env validAfter
  if p.state.phase ≠ nextPhase then do
    let p ← if nextPhase = .commit then newProtocolRun digest256 env validAfter p else some p
    return p.set (setPhase nextPhase)
  else if p.state.phase = .commit ∧ p.state.commits.commits = [] then
    some (addOurCommit digest256 env validAfter p)
  else some p

/-- The counters at the end of `sr_state_update`. -/
def countRound (s : SrState) : SrState :=
  if s.phase = .commit then
    if s.nRevealRounds ≠ 0 then s else { s with nCommitRounds := s.nCommitRounds + 1 }
  else { s with nRevealRounds := s.nRevealRounds + 1 }

def srStateUpdate : Option Progress :=
  if validAfter ≤ p.state.validAfter then some p
  else do
    let p ← enterPhase digest256 env validAfter p
    return (p.query (setValidAfter validAfter)).set countRound

end

end

/-- The shared random values of a consensus. -/
structure ConsensusSrvs where
  previousSrv : Option Srv
  currentSrv : Option Srv

/-- The part of `sr_act_post_consensus` that takes over the values of a consensus. -/
def takeSrvs (consensus : ConsensusSrvs) (p : Progress) : Progress :=
  let p := (p.query delPreviousSrv).query delCurrentSrv
  let p := p.set (setFreshSrv false)
  (p.query (setPreviousSrv consensus.previousSrv)).query (setCurrentSrv consensus.currentSrv)

def srActPostConsensus (consensus : Option ConsensusSrvs) (p : Progress) : Option Progress :=
  let p := match consensus with
    | some consensus => takeSrvs consensus p
    | none => p
  srStateUpdate digest256 env env.nextValidAfter p

/-- One round of the loop of `sr_handle_received_commits`. -/
def receiveCommit (voterKey : Digest) (p : Progress) (c : Commit) : Option Progress :=
  if shouldKeepCommit digest256 env.recognized p.state.commits c voterKey p.state.phase then do
    let s ← saveCommitToState p.state.toState c
    return p.query fun t => { t with toState := s }
  else some p

/-- The commits of a vote, parsed from its lines and then handled. -/
def receiveVote (lines : List (List Bytes)) (voterKey : Digest) (p : Progress) : Option Progress :=
  (visited (lines.filterMap srParseCommit)).foldlM (receiveCommit digest256 env voterKey) p

end Operations

/-- What happens to the state. -/
inductive Operation
  | vote (lines : List (List Bytes)) (voterKey : Digest)
  | update (validAfter : ℕ)
  | postConsensus (consensus : Option ConsensusSrvs)

def Operation.perform (digest256 : Bytes → Digest256) (env : Env) (p : Progress) :
    Operation → Option Progress
  | .vote lines voterKey => receiveVote digest256 env lines voterKey p
  | .update validAfter => srStateUpdate digest256 env validAfter p
  | .postConsensus consensus => srActPostConsensus digest256 env consensus p

/-- An operation as one step. -/
def srStep (digest256 : Bytes → Digest256) (s : SrState) (e : Env × Operation) : Option SrState :=
  (e.2.perform digest256 e.1 ⟨s, []⟩).map Progress.state

end TorDaemon.SharedRandom

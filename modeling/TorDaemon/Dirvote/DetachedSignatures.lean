import TorDaemon.Container.Smartlist
import TorDaemon.SharedRandom.Agreement

/-! Detached signatures that are added to a consensus (`dirvote.c`), and the check of a signature
on a consensus (`networkstatus.c`). -/
namespace TorDaemon.Dirvote
open Library.NetworkOrder SharedRandom Container

section Model

/-- `digest_algorithm_t` below `N_COMMON_DIGEST_ALGORITHMS`. -/
inductive CommonDigestAlgorithm
  | sha1
  | sha256
  deriving DecidableEq

/-- `common_digests_t`: `DIGEST256_LEN` bytes for each algorithm, a shorter digest followed by
zeros. -/
abbrev CommonDigests := CommonDigestAlgorithm → Digest256

def zeroDigest : Digest256 := Digest256.replicate 0

def CommonDigestAlgorithm.digestLen : CommonDigestAlgorithm → ℕ
  | .sha1 => 20
  | .sha256 => 32

inductive ConsensusFlavor
  | ns
  | microdesc
  deriving DecidableEq

structure DocumentSignature where
  identityDigest : Digest
  signingKeyDigest : Digest
  alg : CommonDigestAlgorithm
  signature : Bytes
  badSignature : Bool
  goodSignature : Bool
  deriving DecidableEq

structure VoterInfo where
  identityDigest : Digest
  sigs : List DocumentSignature
  deriving DecidableEq

/-- `networkstatus_t` of the type `NS_TYPE_CONSENSUS`. -/
structure Consensus where
  flavor : ConsensusFlavor
  validAfter : ℤ
  freshUntil : ℤ
  validUntil : ℤ
  digests : CommonDigests
  voters : List VoterInfo

/-- `ns_detached_signatures_t`, with both maps at the names of the two flavors. -/
structure DetachedSignatures where
  validAfter : ℤ
  freshUntil : ℤ
  validUntil : ℤ
  digests : ConsensusFlavor → Option CommonDigests
  signatures : ConsensusFlavor → Option (List DocumentSignature)

structure AuthorityCert (Key : Type) where
  signingKey : Key
  identityDigest : Digest
  expires : ℤ

/-- The certificates and the authorities that are known at a call, and the operations on keys. -/
structure Authorities (Key : Type) where
  authorityCertGetByDigests : Digest → Digest → Option (AuthorityCert Key)
  isV3Auth : Digest → Bool
  isDenylisted : AuthorityCert Key → Bool
  now : ℤ
  pkGetDigest : Key → Option Digest
  pkPublicChecksig : Key → Bytes → Option Bytes

variable {Key : Type} (auth : Authorities Key) (target : Consensus)

def networkstatusCheckDocumentSignature (sig : DocumentSignature) (cert : AuthorityCert Key) :
    ℤ × DocumentSignature :=
  match auth.pkGetDigest cert.signingKey with
  | none => (-1, sig)
  | some keyDigest =>
    if sig.signingKeyDigest ≠ keyDigest ∨ sig.identityDigest ≠ cert.identityDigest then (-1, sig)
    else if auth.isDenylisted cert then (0, { sig with badSignature := true })
    else
      let dlen := sig.alg.digestLen
      match auth.pkPublicChecksig cert.signingKey sig.signature with
      | none => (0, { sig with badSignature := true })
      | some signedDigest =>
        if signedDigest.length < dlen ∨
            signedDigest.take dlen ≠ (target.digests sig.alg).val.take dlen then
          (0, { sig with badSignature := true })
        else (0, { sig with goodSignature := true })

def networkstatusGetVoterById (voters : List VoterInfo) (identity : Digest) : Option VoterInfo :=
  voters.find? fun v => v.identityDigest = identity

def networkstatusGetVoterSigByAlg (v : VoterInfo) (alg : CommonDigestAlgorithm) :
    Option DocumentSignature :=
  v.sigs.find? fun s => s.alg = alg

/-- A detached signature after it was tried, when it was not tried before. -/
def tried (sig : DocumentSignature) : DocumentSignature :=
  if ¬ sig.goodSignature ∧ ¬ sig.badSignature then
    match auth.authorityCertGetByDigests sig.identityDigest sig.signingKeyDigest with
    | none => sig
    | some cert => (networkstatusCheckDocumentSignature auth target sig cert).2
  else sig

/-- The pass for one detached signature, at its voter. The count is one when the signature is
added. -/
def addToVoter (sig : DocumentSignature) (v : VoterInfo) : VoterInfo × DocumentSignature × ℕ :=
  match networkstatusGetVoterSigByAlg v sig.alg with
  | none => ({ v with sigs := v.sigs ++ [tried auth target sig] }, tried auth target sig, 1)
  | some oldSig =>
    if oldSig.goodSignature then (v, sig, 0)
    else
      let sig' := tried auth target sig
      if sig'.goodSignature ∨ oldSig.badSignature then
        ({ v with sigs := Smartlist.remove (fun s => s.alg = sig.alg) v.sigs ++ [sig'] }, sig', 1)
      else (v, sig', 0)

/-- The first voter with the identity of the signature is looked at, and no other. -/
def addToVoters (sig : DocumentSignature) : List VoterInfo → List VoterInfo × DocumentSignature × ℕ
  | [] => ([], sig, 0)
  | v :: voters =>
    if v.identityDigest = sig.identityDigest then
      let added := addToVoter auth target sig v
      (added.1 :: voters, added.2)
    else
      let added := addToVoters sig voters
      (v :: added.1, added.2)

def addSignature (sig : DocumentSignature) : Consensus × DocumentSignature × ℕ :=
  let added := addToVoters auth target sig target.voters
  ({ target with voters := added.1 }, added.2)

/-- The loop over the signatures: the consensus, the signatures as they are left, and `r`. -/
def addSignatures (target : Consensus) :
    List DocumentSignature → Consensus × List DocumentSignature × ℕ
  | [] => (target, [], 0)
  | sig :: siglist =>
    let added := addSignature auth target sig
    let rest := addSignatures added.1 siglist
    (rest.1, added.2.1 :: rest.2.1, added.2.2 + rest.2.2)

/-- The loop over the digests: `none` where one does not agree, else `n_matches`. -/
def matchDigests (digests : CommonDigests) : List CommonDigestAlgorithm → Option ℕ
  | [] => some 0
  | alg :: algs =>
    if digests alg = zeroDigest then matchDigests digests algs
    else if target.digests alg = digests alg then (matchDigests digests algs).map (· + 1)
    else none

/-- What a call leaves: the consensus, the detached signatures, the value it returns, and
`*msg_out` where it is set. -/
structure AddOutcome where
  target : Consensus
  sigs : DetachedSignatures
  result : ℤ
  msgOut : Option String

def networkstatusAddDetachedSignatures (sigs : DetachedSignatures) : AddOutcome :=
  let refuse (msg : String) : AddOutcome := ⟨target, sigs, -1, some msg⟩
  if target.validAfter ≠ sigs.validAfter then
    refuse "Valid-After times do not match when adding detached signatures to consensus"
  else if target.freshUntil ≠ sigs.freshUntil then
    refuse "Fresh-until times do not match when adding detached signatures to consensus"
  else if target.validUntil ≠ sigs.validUntil then
    refuse "Valid-until times do not match when adding detached signatures to consensus"
  else
    match sigs.signatures target.flavor with
    | none => refuse "No signatures for given consensus flavor"
    | some siglist =>
      match sigs.digests target.flavor with
      | none => refuse "No digests for given consensus flavor"
      | some digests =>
        match matchDigests target digests [.sha1, .sha256] with
        | none => refuse "Mismatched digest."
        | some nMatches =>
          -- without a match the message is set, and the call goes on
          let msg := if nMatches = 0 then
            some "No recognized digests for given consensus flavor" else none
          let added := addSignatures auth target siglist
          let signatures := fun flavor =>
            if flavor = target.flavor then some added.2.1 else sigs.signatures flavor
          ⟨added.1, { sigs with signatures := signatures }, added.2.2, msg⟩

/-- `networkstatus_check_consensus_signature`, as far as it tries the signatures that the
consensus has. -/
def networkstatusCheckConsensusSignature : Consensus :=
  let check (sig : DocumentSignature) : DocumentSignature :=
    if ¬ sig.goodSignature ∧ ¬ sig.badSignature ∧ auth.isV3Auth sig.identityDigest then
      match auth.authorityCertGetByDigests sig.identityDigest sig.signingKeyDigest with
      | none => sig
      | some cert =>
        if cert.expires < auth.now then sig
        else (networkstatusCheckDocumentSignature auth target sig cert).2
    else sig
  { target with voters := target.voters.map fun v => { v with sigs := v.sigs.map check } }

/-- What is called on a consensus while signatures arrive for it. -/
inductive SignatureCall (Key : Type)
  | add (auth : Authorities Key) (sigs : DetachedSignatures)
  | check (auth : Authorities Key)

def SignatureCall.apply (target : Consensus) : SignatureCall Key → Consensus
  | .add auth sigs => (networkstatusAddDetachedSignatures auth target sigs).target
  | .check auth => networkstatusCheckConsensusSignature auth target

def runSignatureCalls (calls : List (SignatureCall Key)) : Consensus :=
  calls.foldl SignatureCall.apply target

end Model

section Statement
variable {Key : Type}

/-- The times agree, each digest that is given agrees, and there is one. -/
structure Corresponds (target : Consensus) (sigs : DetachedSignatures) : Prop where
  validAfter : target.validAfter = sigs.validAfter
  freshUntil : target.freshUntil = sigs.freshUntil
  validUntil : target.validUntil = sigs.validUntil
  digests : ∃ digests, sigs.digests target.flavor = some digests ∧
    (∀ alg, digests alg ≠ zeroDigest → target.digests alg = digests alg) ∧
    ∃ alg, digests alg ≠ zeroDigest

/-- The same voters, each with the good signatures that it had. -/
def KeepsGood (voters voters' : List VoterInfo) : Prop :=
  List.Forall₂ (fun v v' => v'.identityDigest = v.identityDigest ∧
    ∀ s ∈ v.sigs, s.goodSignature → s ∈ v'.sigs) voters voters'

/-- Each signature is at its voter, which has one at most for each algorithm. -/
def Signed (target : Consensus) : Prop :=
  ∀ v ∈ target.voters, (∀ s ∈ v.sigs, s.identityDigest = v.identityDigest) ∧
    (v.sigs.map (·.alg)).Nodup

/-- The signature was verified before, or it was not tried before and is verified now: its
certificate is known and not denylisted, and what the key signed is the digest of the consensus. -/
def Verifies (auth : Authorities Key) (target : Consensus) (sig : DocumentSignature) : Prop :=
  sig.goodSignature ∨ sig.badSignature = false ∧
    ∃ cert, auth.authorityCertGetByDigests sig.identityDigest sig.signingKeyDigest = some cert ∧
      auth.pkGetDigest cert.signingKey = some sig.signingKeyDigest ∧
      sig.identityDigest = cert.identityDigest ∧ auth.isDenylisted cert = false ∧
      ∃ signedDigest, auth.pkPublicChecksig cert.signingKey sig.signature = some signedDigest ∧
        sig.alg.digestLen ≤ signedDigest.length ∧
        signedDigest.take sig.alg.digestLen =
          (target.digests sig.alg).val.take sig.alg.digestLen

/-- One pass of the loop. A signature of a voter that is not listed is not added, and one that is
added in the place of another verifies. -/
structure PassRight (auth : Authorities Key) (target : Consensus) (sig : DocumentSignature) :
    Prop where
  keepsGood : KeepsGood target.voters (addSignature auth target sig).1.voters
  unlisted : networkstatusGetVoterById target.voters sig.identityDigest = none →
    (addSignature auth target sig).1 = target ∧ (addSignature auth target sig).2.2 = 0
  ignored : (addSignature auth target sig).2.2 = 0 → (addSignature auth target sig).1 = target
  replaces : ∀ v, networkstatusGetVoterById target.voters sig.identityDigest = some v →
    networkstatusGetVoterSigByAlg v sig.alg ≠ none → (addSignature auth target sig).2.2 ≠ 0 →
      Verifies auth target sig

structure CallRight (auth : Authorities Key) (target : Consensus) (sigs : DetachedSignatures) :
    Prop where
  refuses : ¬ Corresponds target sigs →
    (networkstatusAddDetachedSignatures auth target sigs).result = -1 ∧
      (networkstatusAddDetachedSignatures auth target sigs).target = target
  passes : 0 ≤ (networkstatusAddDetachedSignatures auth target sigs).result →
    ∀ siglist, sigs.signatures target.flavor = some siglist →
      ∀ before sig after, siglist = before ++ sig :: after →
        PassRight auth (addSignatures auth target before).1 sig

/-- In a sequence of calls, no good signature is removed, each voter has one signature at most for
each algorithm, and each call is as it should be. -/
structure RunRight (target : Consensus) (calls : List (SignatureCall Key)) : Prop where
  keepsGood : ∀ before between after, calls = before ++ between ++ after →
    KeepsGood (runSignatureCalls target before).voters
      (runSignatureCalls target (before ++ between)).voters
  signed : ∀ before after, calls = before ++ after → Signed (runSignatureCalls target before)
  calls : ∀ before auth sigs after, calls = before ++ .add auth sigs :: after →
    CallRight auth (runSignatureCalls target before) sigs

/-- The signature that the consensus has for this voter and algorithm, and then those of the
document, each after it was tried. -/
def inTurn (auth : Authorities Key) (target : Consensus) (siglist : List DocumentSignature)
    (v : VoterInfo) (alg : CommonDigestAlgorithm) : List DocumentSignature :=
  (networkstatusGetVoterSigByAlg v alg).toList ++
    (siglist.filter fun s => s.identityDigest = v.identityDigest ∧ s.alg = alg).map
      (tried auth target)

/-- A set of digests that is not all zeros, and no signature that was found bad is followed by one
that does not verify. -/
structure CallSound (auth : Authorities Key) (target : Consensus) (sigs : DetachedSignatures) :
    Prop where
  digests : target.validAfter = sigs.validAfter → target.freshUntil = sigs.freshUntil →
    target.validUntil = sigs.validUntil → sigs.signatures target.flavor ≠ none →
      ∀ digests, sigs.digests target.flavor = some digests → ∃ alg, digests alg ≠ zeroDigest
  bad : Corresponds target sigs → ∀ siglist, sigs.signatures target.flavor = some siglist →
    ∀ id v, networkstatusGetVoterById target.voters id = some v → ∀ alg first second rest,
      inTurn auth target siglist v alg = first :: second :: rest →
        first.badSignature → first.goodSignature = false → second.goodSignature

/-- Each call of the sequence is sound in the consensus it is made with. -/
def RunSound (target : Consensus) (calls : List (SignatureCall Key)) : Prop :=
  ∀ before auth sigs after, calls = before ++ .add auth sigs :: after →
    CallSound auth (runSignatureCalls target before) sigs

end Statement

end TorDaemon.Dirvote

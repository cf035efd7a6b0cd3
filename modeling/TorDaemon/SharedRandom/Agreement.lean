import TorDaemon.Library.NetworkOrder
import TorDaemon.Library.Scanner
import TorDaemon.Library.Sorting
import TorDaemon.Library.Words

/-! The shared random state of a directory authority: the commits it keeps, and
what it does with the commits of a vote (`shared_random.c`,
`shared_random_state.c`). Digests are a function of their input. -/
namespace TorDaemon.SharedRandom
open Library.Concatenation Library.NetworkOrder Library.Sorting

/-- `char[DIGEST_LEN]`. -/
abbrev Digest := { bytes : Bytes // bytes.length = 20 }

/-- `char[DIGEST256_LEN]`. -/
abbrev Digest256 := { bytes : Bytes // bytes.length = 32 }

/-- Every byte the same, as `memset` leaves it. -/
def Digest.replicate (b : UInt8) : Digest := ⟨List.replicate 20 b, List.length_replicate⟩

def Digest256.replicate (b : UInt8) : Digest256 := ⟨List.replicate 32 b, List.length_replicate⟩

inductive DigestAlgorithm
  | sha1
  | sha256
  | sha512
  | sha3_256
  | sha3_512
  deriving DecidableEq

inductive Phase
  | commit
  | reveal
  deriving DecidableEq

def srRevealBase64Len : ℕ := 56

/-- `sr_commit_t`. The strings are held without their terminating NUL. -/
structure Commit where
  alg : DigestAlgorithm
  valid : Bool
  rsaIdentity : Digest
  revealTs : UInt64
  hashedReveal : Digest256
  encodedCommit : Bytes
  randomNumber : Digest256
  commitTs : UInt64
  encodedReveal : Bytes
  deriving DecidableEq

def hexDigit (n : UInt8) : UInt8 := if n < 10 then 48 + n else 55 + n

def base16Encode (src : Bytes) : Bytes :=
  src.flatMap fun (b : UInt8) => [hexDigit (b >>> 4), hexDigit (b &&& 15)]

/-- `sr_commit_get_rsa_fpr`: the field that `commit_new` fills from the identity. -/
def Commit.rsaFpr (c : Commit) : Bytes := base16Encode c.rsaIdentity.val

def Commit.hasRevealValue (c : Commit) : Bool := c.encodedReveal ≠ []

theorem Commit.valid_accepted (c : Commit) : ({ c with valid := true } : Commit).valid = true :=
  rfl

/-- The commits of the state, in the order in which an iteration over the map
meets them. The map is keyed by the authority's identity. -/
structure CommitMap where
  commits : List Commit
  distinct : (commits.map Commit.rsaIdentity).Nodup
  valid : ∀ c ∈ commits, c.valid = true

structure Srv where
  numReveals : ℕ
  value : Digest256
  deriving DecidableEq

structure State where
  phase : Phase
  commits : CommitMap
  previousSrv : Option Srv
  currentSrv : Option Srv
  isSrvFresh : Bool

def CommitMap.empty : CommitMap := ⟨[], by simp, by simp⟩

def CommitMap.get (m : CommitMap) (id : Digest) : Option Commit :=
  m.commits.find? fun c => c.rsaIdentity = id

/-- `digestmap_set` under the commit's own identity. -/
def CommitMap.set (m : CommitMap) (c : Commit) (hvalid : c.valid = true) : CommitMap where
  commits := c :: m.commits.filter fun d => d.rsaIdentity ≠ c.rsaIdentity
  distinct := by
    rw [List.map_cons, List.nodup_cons]
    constructor
    · simp
    · exact m.distinct.sublist (List.filter_sublist.map _)
  valid := by
    intro d hd
    rcases List.mem_cons.mp hd with rfl | hd
    · exact hvalid
    · exact m.valid d (List.mem_of_mem_filter hd)

section Votes
variable (digest256 : Bytes → Digest256) (recognized : Digest → Bool)

/-- The digest covers the whole array, with the zeros after a shorter reveal. -/
def verifyCommitAndReveal (c : Commit) : Bool :=
  c.commitTs = c.revealTs ∧ c.alg = .sha3_256 ∧
    digest256 (c.encodedReveal ++
      List.replicate (srRevealBase64Len - c.encodedReveal.length) 0) = c.hashedReveal

def commitmentsAreTheSame (a b : Commit) : Bool := a.encodedCommit = b.encodedCommit

def commitIsAuthoritative (c : Commit) (voterKey : Digest) : Bool := c.rsaIdentity = voterKey

def shouldKeepCommit (m : CommitMap) (c : Commit) (voterKey : Digest) (phase : Phase) : Bool :=
  if !commitIsAuthoritative c voterKey then false
  else if !recognized c.rsaIdentity then false
  else
    match phase, m.get c.rsaIdentity with
    | .commit, some _ => false
    | .commit, none => !c.hasRevealValue
    | .reveal, none => false
    | .reveal, some saved =>
      commitmentsAreTheSame c saved && !saved.hasRevealValue && c.hasRevealValue &&
        verifyCommitAndReveal digest256 c

def copyRevealInfo (saved c : Commit) : Commit :=
  { saved with revealTs := c.revealTs, randomNumber := c.randomNumber
               encodedReveal := c.encodedReveal }

/-- `save_commit_to_state`, for a commit that has just been flagged valid. In the
reveal phase the saved commit is changed in place. -/
def saveCommitToState (s : State) (c : Commit) : Option State :=
  match s.phase with
  | .commit => some { s with commits := s.commits.set { c with valid := true } c.valid_accepted }
  | .reveal =>
    match h : s.commits.get c.rsaIdentity with
    | none => none
    | some saved =>
      if commitmentsAreTheSame c saved then
        some { s with commits := s.commits.set (copyRevealInfo saved c)
                        (s.commits.valid saved (List.mem_of_find?_eq_some h)) }
      else none

/-- `SMARTLIST_DEL_CURRENT` puts the last element where the current one was, and
the loop goes on there. -/
def visited : List Commit → List Commit
  | [] => []
  | c :: rest => c :: rest.reverse

def handleReceivedCommit (voterKey : Digest) (s : State) (c : Commit) : Option State :=
  if shouldKeepCommit digest256 recognized s.commits c voterKey s.phase then saveCommitToState s c
  else some s

def handleReceivedCommits (s : State) (commits : List Commit) (voterKey : Digest) : Option State :=
  (visited commits).foldlM (handleReceivedCommit digest256 recognized voterKey) s

end Votes

/-! `sr_compute_srv`. The commits are sorted by their hashed reveal and not, as the
comment in the function has it, by authority fingerprint. -/

section Computation

def compareReveal (a b : Commit) : Ordering := compare a.hashedReveal.val b.hashedReveal.val

instance : Std.TransCmp compareReveal where
  eq_swap := Std.OrientedOrd.eq_swap
  isLE_trans := Std.TransOrd.isLE_trans

/-- `get_srv_element_from_commit`. -/
def srvElement (c : Commit) : Option Bytes :=
  if c.hasRevealValue then some (c.rsaFpr ++ c.encodedReveal) else none

def srSrvToken : Bytes := "shared-random".toList.map fun c => c.toUInt8

/-- The message of `generate_srv`, whose buffer is zero where there is no previous value. -/
def srvMessage (hashedReveals : Digest256) (revealNum : ℕ) (previous : Option Srv) : Bytes :=
  srSrvToken ++ bigEndian 8 revealNum ++ bigEndian 4 1 ++ hashedReveals.val ++
    match previous with
    | some srv => srv.value.val
    | none => List.replicate 32 0

section Compute
variable (digest256 : Bytes → Digest256) (recognized : Digest → Bool)

def generateSrv (hashedReveals : Digest256) (revealNum : ℕ) (previous : Option Srv) : Srv :=
  { numReveals := revealNum, value := digest256 (srvMessage hashedReveals revealNum previous) }

section
variable (q : Qsort compareReveal)

/-- The elements in the order in which they are joined. -/
def revealChunks (m : CommitMap) : List Bytes :=
  (q.sort (m.commits.filter fun c => recognized c.rsaIdentity)).filterMap srvElement

/-- The string that is hashed. -/
def reveals (m : CommitMap) : Bytes :=
  (revealChunks recognized q m).flatten

def srComputeSrv (s : State) : Option State :=
  if s.phase ≠ .reveal then some s
  else if !s.commits.commits.all Commit.valid then none
  else
    let hashedReveals := digest256 (reveals recognized q s.commits)
    let revealNum := (revealChunks recognized q s.commits).length
    some { s with currentSrv := some (generateSrv digest256 hashedReveals revealNum s.previousSrv)
                  isSrvFresh := true }

end

end Compute

private def unhexDigit (c : UInt8) : UInt8 := if c < 58 then c - 48 else c - 55

private theorem unhexDigit_hexDigit (b : UInt8) :
    unhexDigit (hexDigit (b >>> 4)) <<< 4 ||| unhexDigit (hexDigit (b &&& 15)) = b := by
  revert b
  decide +kernel

theorem base16Encode_injective {a b : Bytes} (h : base16Encode a = base16Encode b) : a = b := by
  induction a generalizing b with
  | nil =>
    cases b with
    | nil => rfl
    | cons y b => simp [base16Encode] at h
  | cons x a ih =>
    cases b with
    | nil => simp [base16Encode] at h
    | cons y b =>
      simp only [base16Encode, List.flatMap_cons, List.cons_append, List.nil_append,
        List.cons.injEq] at h
      have hxy : x = y := by
        rw [← unhexDigit_hexDigit x, ← unhexDigit_hexDigit y, h.1, h.2.1]
      rw [hxy, ih h.2.2]

theorem rsaFpr_length (c : Commit) : c.rsaFpr.length = 40 := by
  simp [Commit.rsaFpr, base16Encode, c.rsaIdentity.property]

/-- The commits whose elements are joined, in that order. -/
def usedCommits (recognized : Digest → Bool) (q : Qsort compareReveal) (m : CommitMap) :
    List Commit :=
  (q.sort (m.commits.filter fun c => recognized c.rsaIdentity)).filter Commit.hasRevealValue

variable {recognized : Digest → Bool} {q p : Qsort compareReveal} {m m' : CommitMap}

/-- `get_srv_element_from_commit` for a commit that has a reveal. -/
def element (c : Commit) : Bytes := c.rsaFpr ++ c.encodedReveal

theorem filterMap_srvElement (l : List Commit) :
    l.filterMap srvElement = (l.filter Commit.hasRevealValue).map element := by
  induction l with
  | nil => rfl
  | cons c l ih => cases h : c.hasRevealValue <;> simp [srvElement, element, h, ih]

theorem revealChunks_eq : revealChunks recognized q m = (usedCommits recognized q m).map element :=
  filterMap_srvElement _

theorem reveals_eq : reveals recognized q m = (usedCommits recognized q m).flatMap element := by
  rw [reveals, revealChunks_eq, List.flatMap_def]

theorem mem_usedCommits {c : Commit} : c ∈ usedCommits recognized q m ↔
    c ∈ m.commits ∧ recognized c.rsaIdentity = true ∧ c.hasRevealValue = true := by
  simp [usedCommits, (q.perm _).mem_iff, and_assoc]

theorem usedCommits_perm (h : m.commits.Perm m'.commits) :
    (usedCommits recognized q m).Perm (usedCommits recognized p m') :=
  ((q.perm _).trans ((h.filter _).trans (p.perm _).symm)).filter _

theorem usedCommits_sorted : (usedCommits recognized q m).Pairwise fun a b =>
    (compareReveal a b).isLE :=
  (q.sorted _).filter _

/-- No two commits that are used have the same hashed reveal. -/
def DistinctReveals (recognized : Digest → Bool) (m : CommitMap) : Prop :=
  ∀ a ∈ m.commits, ∀ b ∈ m.commits, recognized a.rsaIdentity = true →
    recognized b.rsaIdentity = true → a.hasRevealValue = true → b.hasRevealValue = true →
    a.hashedReveal = b.hashedReveal → a = b

theorem usedCommits_eq (hdistinct : DistinctReveals recognized m)
    (h : m.commits.Perm m'.commits) : usedCommits recognized q m = usedCommits recognized p m' := by
  refine sorted_unique usedCommits_sorted usedCommits_sorted (usedCommits_perm h) ?_
  intro a ha b hb hab
  obtain ⟨ha, har, hav⟩ := mem_usedCommits.mp ha
  obtain ⟨hb, hbr, hbv⟩ := mem_usedCommits.mp hb
  exact hdistinct a ha b hb har hbr hav hbv (Subtype.ext (Std.LawfulEqOrd.eq_of_compare hab))

end Computation

/-! When two authorities that hold the same commits compute the same value: exactly
when no two commits in use have the same hashed reveal, the key they are sorted by. -/

section Agreement
variable {digest256 : Bytes → Digest256} {recognized : Digest → Bool} {q p : Qsort compareReveal}
  {m m' : CommitMap}

/-- Every authority that holds the commits of `m` hashes one string, and one that has
the same previous value computes the same value. -/
def Agreement (digest256 : Bytes → Digest256) (recognized : Digest → Bool) (m : CommitMap) : Prop :=
  ∀ (q p : Qsort compareReveal) (m' : CommitMap), m.commits.Perm m'.commits →
    reveals recognized q m = reveals recognized p m' ∧
    ∀ s s' : State, s.commits = m → s'.commits = m' → s.phase = .reveal → s'.phase = .reveal →
      s.previousSrv = s'.previousSrv →
        ∃ t t', srComputeSrv digest256 recognized q s = some t ∧
          srComputeSrv digest256 recognized p s' = some t' ∧ t.currentSrv = t'.currentSrv ∧
          t.currentSrv.isSome

/-- The map met in another order. -/
def CommitMap.reorder (m : CommitMap) {l : List Commit} (h : l.Perm m.commits) : CommitMap where
  commits := l
  distinct := (h.map _).nodup_iff.mpr m.distinct
  valid c hc := m.valid c (h.mem_iff.mp hc)

theorem CommitMap.nodup (m : CommitMap) : m.commits.Nodup := m.distinct.of_map _

theorem CommitMap.eq_of_rsaIdentity {a b : Commit} (ha : a ∈ m.commits) (hb : b ∈ m.commits)
    (h : a.rsaIdentity = b.rsaIdentity) : a = b :=
  List.inj_on_of_nodup_map m.distinct ha hb h

/-- The hashed string determines the order of the commits in it. -/
theorem usedCommits_eq_of_reveals (hperm : m.commits.Perm m'.commits)
    (h : reveals recognized q m = reveals recognized p m') :
    usedCommits recognized q m = usedCommits recognized p m' := by
  rw [reveals_eq, reveals_eq] at h
  refine flatMap_injective_of_prefix (n := 40) (fun c _ => ?_) (fun a ha b hb hab => ?_)
    (usedCommits_perm hperm).length_eq h
  · simp [element, rsaFpr_length]
  · simp only [element] at hab
    rw [List.take_append_of_le_length (rsaFpr_length a).ge,
      List.take_append_of_le_length (rsaFpr_length b).ge, List.take_of_length_le
      (rsaFpr_length a).le, List.take_of_length_le (rsaFpr_length b).le] at hab
    exact m.eq_of_rsaIdentity (mem_usedCommits.mp ha).1
      (hperm.mem_iff.mpr (mem_usedCommits.mp hb).1) (Subtype.ext (base16Encode_injective hab))

/-- Of two commits that compare equal a stable sort uses first the one it meets first. -/
theorem usedCommits_sublist {a b : Commit} (hab : a.hashedReveal = b.hashedReveal)
    (h : [a, b].Sublist m.commits) (ha : recognized a.rsaIdentity = true)
    (hb : recognized b.rsaIdentity = true) (hav : a.hasRevealValue = true)
    (hbv : b.hasRevealValue = true) :
    [a, b].Sublist (usedCommits recognized (stableQsort compareReveal) m) := by
  have hcmp : compareReveal a b = .eq := by simp [compareReveal, hab]
  have hrec := h.filter fun c => recognized c.rsaIdentity
  have hsort := stableQsort_sublist hcmp (by simpa [ha, hb] using hrec)
  simpa [usedCommits, hav, hbv] using hsort.filter Commit.hasRevealValue

theorem distinctReveals_of_agreement (h : Agreement digest256 recognized m) :
    DistinctReveals recognized m := by
  intro a ha b hb har hbr hav hbv hab
  by_contra hne
  obtain ⟨rest, hrest⟩ : ∃ rest, (a :: b :: rest).Perm m.commits := by
    have hb' : b ∈ m.commits.erase a := (List.mem_erase_of_ne (Ne.symm hne)).mpr hb
    exact ⟨_, ((List.perm_cons_erase hb').symm.cons a).trans (List.perm_cons_erase ha).symm⟩
  have hrest' : (b :: a :: rest).Perm m.commits := (List.Perm.swap a b rest).trans hrest
  have hsame := (h (stableQsort _) (stableQsort _) (m.reorder hrest) hrest.symm).1.symm.trans
    (h (stableQsort _) (stableQsort _) (m.reorder hrest') hrest'.symm).1
  have hused := usedCommits_eq_of_reveals (hrest.trans hrest'.symm) hsame
  have hfirst := usedCommits_sublist (m := m.reorder hrest) hab (by simp [CommitMap.reorder])
    har hbr hav hbv
  have hsecond := usedCommits_sublist (m := m.reorder hrest') hab.symm
    (by simp [CommitMap.reorder]) hbr har hbv hav
  have hnodup : (usedCommits recognized (stableQsort _) (m.reorder hrest)).Nodup :=
    (((stableQsort _).perm _).nodup_iff.mpr ((m.reorder hrest).nodup.filter _)).filter _
  exact not_sublist_swap hnodup hfirst (hused ▸ hsecond)

theorem srComputeSrv_reveal {s : State} (h : s.phase = .reveal) :
    srComputeSrv digest256 recognized q s = some { s with
      currentSrv := some (generateSrv digest256
        (digest256 (reveals recognized q s.commits))
        (revealChunks recognized q s.commits).length s.previousSrv)
      isSrvFresh := true } := by
  have hvalid : s.commits.commits.all Commit.valid = true :=
    List.all_eq_true.mpr s.commits.valid
  simp [srComputeSrv, h, hvalid]

/-- The computed value is a function of the set of commits exactly when the hashed
reveals of the commits in use tell them apart. -/
theorem agreement_iff (digest256 : Bytes → Digest256) (recognized : Digest → Bool)
    (m : CommitMap) : Agreement digest256 recognized m ↔ DistinctReveals recognized m := by
  refine ⟨distinctReveals_of_agreement, fun h q p m' hperm => ?_⟩
  have hused : usedCommits recognized q m = usedCommits recognized p m' := usedCommits_eq h hperm
  have hreveals : reveals recognized q m = reveals recognized p m' := by
    rw [reveals_eq, reveals_eq, hused]
  refine ⟨hreveals, fun s s' hs hs' hphase hphase' hprev => ?_⟩
  refine ⟨_, _, srComputeSrv_reveal hphase, srComputeSrv_reveal hphase', ?_, rfl⟩
  simp only [hs, hs', hreveals, hprev, revealChunks_eq, hused]

section CopiedCommit

/-- The digest in the example: the first bytes of the input. -/
def prefixDigest (input : Bytes) : Digest256 :=
  ⟨(input ++ List.replicate 32 0).take 32, by simp⟩

def exampleReveal : Bytes := List.replicate 56 82

/-- The commit of the authority whose identity repeats `b`; all of them publish one
commitment and one reveal. -/
def copiedCommit (b : UInt8) : Commit where
  alg := .sha3_256
  valid := false
  rsaIdentity := Digest.replicate b
  revealTs := 0
  hashedReveal := prefixDigest exampleReveal
  encodedCommit := List.replicate 56 67
  randomNumber := Digest256.replicate 0
  commitTs := 0
  encodedReveal := []

def revealedCommit (b : UInt8) : Commit := { copiedCommit b with encodedReveal := exampleReveal }

def receive (s : State) (c : Commit) : Option State :=
  handleReceivedCommits prefixDigest (fun _ => true) s [c] c.rsaIdentity

/-- A protocol run in which the votes of the authorities come in the given order. -/
def protocolRun (voters : List UInt8) : Option State := do
  let start : State := ⟨.commit, .empty, none, none, false⟩
  let committed ← (voters.map copiedCommit).foldlM receive start
  (voters.map revealedCommit).foldlM receive { committed with phase := .reveal }

def computedValue (s : State) : Option Bytes :=
  (srComputeSrv prefixDigest (fun _ => true) (stableQsort compareReveal) s).bind fun t =>
    t.currentSrv.map fun srv => srv.value.val

theorem protocolRun_diverges : (∃ s ∈ protocolRun [1, 2], ∃ s' ∈ protocolRun [2, 1],
      s.commits.commits.Perm s'.commits.commits ∧ s.previousSrv = none ∧ s'.previousSrv = none ∧
      computedValue s ≠ computedValue s') ∧
    ¬ ∀ m, Agreement prefixDigest (fun _ => true) m := by
  constructor
  · decide +kernel
  · intro h
    obtain ⟨s, -, s', -, hperm, hne⟩ : ∃ s ∈ protocolRun [1, 2], ∃ s' ∈ protocolRun [2, 1],
        s.commits.commits.Perm s'.commits.commits ∧
        reveals (fun _ => true) (stableQsort compareReveal) s.commits ≠
          reveals (fun _ => true) (stableQsort compareReveal) s'.commits := by
      decide +kernel
    exact hne (h s.commits _ _ s'.commits hperm).1

end CopiedCommit

end Agreement

end TorDaemon.SharedRandom

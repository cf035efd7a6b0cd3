import TorDaemon.Dirvote.Collation
import TorDaemon.Library.Runs
import TorDaemon.Policies.Addresses
import TorDaemon.SharedRandom.DiskRoundTrip

/-! The choice of a descriptor for one relay (`compute_routerstatus_consensus`) among the entries
that the votes have for it. -/
namespace TorDaemon.Dirvote
open Library.NetworkOrder Library.Tally Library.Runs Library.RunLengths SharedRandom Keypin
open Policies (TorAddr)

section Model

/-- A time as `parse_iso_time` reads it, which refuses those before 1970. -/
abbrev Time := { t : ℤ // 0 ≤ t ∧ t < 2 ^ 63 }

/-- What else the choice reads in an entry of a vote. -/
structure Listing where
  descriptorDigest : Digest
  publishedOn : Time
  nickname : Bytes
  ipv4Addr : TorAddr
  ipv4Orport : UInt16
  ipv4Dirport : UInt16
  ipv6Addr : TorAddr
  ipv6Orport : UInt16
  microdesc : List Bytes

abbrev VoteRs := VoteRouterstatus Listing

/-- `tor_addr_compare` with `CMP_EXACT`. -/
def torAddrCompare : TorAddr → TorAddr → Ordering
  | .unspec, .unspec => .eq
  | .inet a, .inet b => compare a.toNat b.toNat
  | .inet6 a, .inet6 b => compare a.val b.val
  | a, b => compare a.family.code b.family.code

/-- `CMP_FIELD`: the sign of a difference in words of so many bits. -/
def cmpField (bits : ℕ) (aval bval : ℤ) : Ordering := compare ((bval - aval).bmod (2 ^ bits)) 0

def compareVoteRs (a b : VoteRs) : Ordering :=
  (compare a.identityDigest.val b.identityDigest.val).then <|
  (compare a.rest.descriptorDigest.val b.rest.descriptorDigest.val).then <|
  (cmpField 64 a.rest.publishedOn b.rest.publishedOn).then <|
  (compare b.rest.nickname a.rest.nickname).then <|
  (torAddrCompare a.rest.ipv4Addr b.rest.ipv4Addr).then <|
  (cmpField 32 a.rest.ipv4Orport.toNat b.rest.ipv4Orport.toNat).then <|
  cmpField 32 a.rest.ipv4Dirport.toNat b.rest.ipv4Dirport.toNat

abbrev AddrPort := TorAddr × UInt16

def compareOrports (a b : AddrPort) : Ordering :=
  (torAddrCompare a.1 b.1).then (compare ((b.2.toNat : ℤ) - a.2.toNat) 0)

def compareDigests256 (a b : Digest256) : Ordering := compare a.val b.val

/-- The best class so far: an entry of it, its size and its time. -/
structure Scan where
  most : Option VoteRs
  mostN : ℕ
  mostPublished : ℤ

/-- A class ends, with `curN` entries. -/
def Scan.endOfClass (s : Scan) (cur : VoteRs) (curN : ℕ) : Scan :=
  if s.mostN < curN ∨ curN = s.mostN ∧ s.mostPublished < cur.rest.publishedOn then
    ⟨some cur, curN, cur.rest.publishedOn⟩
  else s

/-- The loop over the sorted entries, after the first. -/
def voteLoop (s : Scan) (cur : VoteRs) (curN : ℕ) : List VoteRs → Scan
  | [] => s.endOfClass cur curN
  | rs :: votes =>
    if compareVoteRs cur rs = .eq then voteLoop s cur (curN + 1) votes
    else voteLoop (s.endOfClass cur curN) rs 1 votes

/-- The scan of the sorted entries. -/
def scanVotes : List VoteRs → Option VoteRs
  | [] => none
  | rs :: votes => (voteLoop ⟨none, 0, 0⟩ rs 1 votes).most

/-- The line that is for the method, from where it lists it. -/
def methodLine (mstr cp : Bytes) : Option Bytes :=
  let numLen := (cp.takeWhile isDigit).length
  if cp.takeWhile isDigit = mstr then some cp
  else if h : numLen = 0 ∨ cp[numLen]? ≠ some 44 then none
  else
    have : (cp.drop (numLen + 1)).length < cp.length := by
      rw [not_or, not_not] at h
      obtain ⟨hlt, -⟩ := List.getElem?_eq_some_iff.mp h.2
      rw [List.length_drop]
      omega
    methodLine mstr (cp.drop (numLen + 1))
termination_by cp.length

/-- `vote_routerstatus_find_microdesc_hash` for SHA256. -/
def voteRouterstatusFindMicrodescHash (vrs : VoteRs) (method : ℕ) : Option Digest256 := do
  let cp ← vrs.rest.microdesc.findSome? (methodLine (decimalString method))
  let found ← cp.tails.find? (ascii " sha256=" <+: ·)
  let digest ← base64Decode 32 ((found.drop (ascii " sha256=").length).take 43)
  ofLength 32 digest

/-- The alternative OR port that an entry votes for. -/
def altOrport (rs : VoteRs) : Option AddrPort :=
  if ¬ rs.rest.ipv6Addr.isNull ∧ rs.rest.ipv6Orport ≠ 0 then
    some (rs.rest.ipv6Addr, rs.rest.ipv6Orport)
  else none

variable (q : Sorter compareVoteRs) (qOrports : Sorter compareOrports)
  (qDigests : Sorter compareDigests256)

/-- The entry, and what is copied to the two outputs (`smartlist_get_most_frequent_`). There is no
result without an entry. -/
def computeRouterstatusConsensus (votes : List VoteRs) (consensusMethod : ℕ) :
    Option (VoteRs × Option Digest256 × Option AddrPort) := do
  let sorted := q.sort votes
  let most ← scanVotes sorted
  let altOrports := (sorted.filter (inClass compareVoteRs most)).filterMap altOrport
  let digests := (sorted.filter fun rs => compareVoteRs rs most = .eq).filterMap
    (voteRouterstatusFindMicrodescHash · consensusMethod)
  some (most, (mostFrequent compareDigests256 (qDigests.sort digests)).1,
    (mostFrequent compareOrports (qOrports.sort altOrports)).1)

end Model

section Statement

def classSize (votes : List VoteRs) (rs : VoteRs) : ℕ := votes.countP (inClass compareVoteRs rs)

/-- An entry of a largest class, of these one with the latest time, and of these one with the
smallest descriptor digest. -/
structure Chosen (votes : List VoteRs) (most : VoteRs) : Prop where
  mem : most ∈ votes
  largest : ∀ rs ∈ votes, classSize votes rs ≤ classSize votes most
  latest : ∀ rs ∈ votes, classSize votes rs = classSize votes most →
    rs.rest.publishedOn.val ≤ most.rest.publishedOn.val
  smallest : ∀ rs ∈ votes, classSize votes rs = classSize votes most →
    rs.rest.publishedOn = most.rest.publishedOn →
      (compare most.rest.descriptorDigest.val rs.rest.descriptorDigest.val).isLE

/-- An element that occurs most often, where there is an element. -/
def IsMostFrequent {α : Type} [DecidableEq α] (l : List α) (found : Option α) : Prop :=
  match found with
  | none => l = []
  | some a => a ∈ l ∧ ∀ b ∈ l, l.count b ≤ l.count a

end Statement

section Order

/-- Values that are less than half a range apart are compared as numbers, the larger first. -/
theorem cmpField_eq {bits : ℕ} {aval bval : ℤ} (hlow : -(2 ^ bits : ℕ) < 2 * (bval - aval))
    (hhigh : 2 * (bval - aval) < (2 ^ bits : ℕ)) :
    cmpField bits aval bval = compare (-aval) (-bval) := by
  have hbmod : (bval - aval).bmod (2 ^ bits) = bval - aval :=
    Int.bmod_eq_of_le (by omega) (by omega)
  rw [cmpField, hbmod]
  rcases lt_trichotomy (bval - aval) 0 with h | h | h
  · rw [compare_lt_iff_lt.mpr h, compare_lt_iff_lt.mpr (by omega)]
  · rw [compare_eq_iff_eq.mpr h, compare_eq_iff_eq.mpr (by omega)]
  · rw [compare_gt_iff_gt.mpr h, compare_gt_iff_gt.mpr (by omega)]

theorem cmpField_time (a b : Time) : cmpField 64 a b = compare (-a.val) (-b.val) :=
  cmpField_eq (by have ha := a.property; have hb := b.property; omega)
    (by have ha := a.property; have hb := b.property; omega)

theorem cmpField_port (a b : UInt16) :
    cmpField 32 a.toNat b.toNat = compare (-(a.toNat : ℤ)) (-(b.toNat : ℤ)) :=
  cmpField_eq (by have ha := a.toNat_lt; have hb := b.toNat_lt; omega)
    (by have ha := a.toNat_lt; have hb := b.toNat_lt; omega)

/-- The part of an address in its family. -/
def addrKey : TorAddr → ℕ × Bytes
  | .unspec => (0, [])
  | .inet a => (a.toNat, [])
  | .inet6 a => (0, a.val)

/-- Addresses in the order of their families, and then of their bytes. -/
def addrOrder : TorAddr → TorAddr → Ordering :=
  compareLex (compareOn (·.family.code)) <|
    compareLex (compareOn fun addr => (addrKey addr).1) (compareOn fun addr => (addrKey addr).2)

instance : Ord TorAddr := ⟨addrOrder⟩

instance : Std.TransOrd TorAddr := by
  change Std.TransCmp addrOrder
  unfold addrOrder
  infer_instance

theorem torAddrCompare_eq (a b : TorAddr) : torAddrCompare a b = addrOrder a b := by
  cases a <;> cases b <;>
    simp [torAddrCompare, addrOrder, compareLex, compareOn, TorAddr.family, addrKey] <;> rfl

theorem torAddrCompare_eq_eq {a b : TorAddr} : torAddrCompare a b = .eq ↔ a = b := by
  cases a <;> cases b <;>
    simp [torAddrCompare, TorAddr.family, Policies.Family.code, BitVec.toNat_inj, Subtype.ext_iff]

/-- The order of the entries: the later time, the greater nickname and the greater ports come
first. -/
def voteRsOrder : VoteRs → VoteRs → Ordering :=
  compareLex (compareOn (·.identityDigest.val)) <|
  compareLex (compareOn (·.rest.descriptorDigest.val)) <|
  compareLex (compareOn fun rs => -rs.rest.publishedOn.val) <|
  compareLex (fun a b => compareOn (·.rest.nickname) b a) <|
  compareLex (compareOn (·.rest.ipv4Addr)) <|
  compareLex (compareOn fun rs => -(rs.rest.ipv4Orport.toNat : ℤ))
    (compareOn fun rs => -(rs.rest.ipv4Dirport.toNat : ℤ))

theorem compareVoteRs_eq : compareVoteRs = voteRsOrder := by
  funext a b
  rw [compareVoteRs, cmpField_time, cmpField_port, cmpField_port, torAddrCompare_eq]
  rfl

instance : Std.TransCmp voteRsOrder := by
  unfold voteRsOrder
  infer_instance

instance : Std.TransCmp compareVoteRs := compareVoteRs_eq ▸ inferInstance

instance : Std.TransCmp compareOrports := by
  have heq : compareOrports =
      compareLex (compareOn (·.1)) (compareOn fun ap => -(ap.2.toNat : ℤ)) := by
    funext a b
    have hport : compare ((b.2.toNat : ℤ) - a.2.toNat) 0 =
        compare (-(a.2.toNat : ℤ)) (-(b.2.toNat : ℤ)) := by
      rw [← cmpField_port, cmpField, Int.bmod_eq_of_le] <;>
        have ha := a.2.toNat_lt <;> have hb := b.2.toNat_lt <;> omega
    rw [compareOrports, hport, torAddrCompare_eq]
    rfl
  rw [heq]
  infer_instance

instance : Std.LawfulEqCmp compareOrports where
  eq_of_compare := by
    intro a b h
    obtain ⟨haddr, hport⟩ := Ordering.then_eq_eq.mp h
    have hnum := compare_eq_iff_eq.mp hport
    exact Prod.ext (torAddrCompare_eq_eq.mp haddr) (UInt16.toNat_inj.mp (by omega))

instance : Std.TransCmp compareDigests256 where
  eq_swap := Std.OrientedOrd.eq_swap
  isLE_trans := Std.TransOrd.isLE_trans

instance : Std.LawfulEqCmp compareDigests256 where
  eq_of_compare h := Subtype.ext (Std.LawfulEqOrd.eq_of_compare h)

end Order

section Choice
variable {votes : List VoteRs} {s : Scan} {cur most : VoteRs} {curN : ℕ}

/-- What decides between the classes. -/
def Scan.rank (s : Scan) : ℕ ×ₗ ℤ := toLex (s.mostN, s.mostPublished)

def runRank (r : VoteRs × ℕ) : ℕ ×ₗ ℤ := toLex (r.2, r.1.rest.publishedOn.val)

theorem Scan.endOfClass_eq (s : Scan) (cur : VoteRs) (curN : ℕ) : s.endOfClass cur curN =
      if s.rank < runRank (cur, curN) then ⟨some cur, curN, cur.rest.publishedOn⟩ else s := by
  unfold Scan.endOfClass Scan.rank runRank
  congr 1
  rw [Prod.Lex.toLex_lt_toLex, @eq_comm ℕ curN]

theorem voteLoop_eq : voteLoop s cur curN votes =
    (runsFrom compareVoteRs cur curN votes).foldl (fun s r => s.endOfClass r.1 r.2) s := by
  induction votes generalizing s cur curN with
  | nil => rfl
  | cons rs votes ih =>
    rw [voteLoop, runsFrom]
    split_ifs
    · exact ih
    · rw [ih, List.foldl_cons]

theorem foldl_endOfClass (runs : List (VoteRs × ℕ)) (s : Scan) :
    (runs.foldl (fun s r => s.endOfClass r.1 r.2) s = s ∧ ∀ r ∈ runs, runRank r ≤ s.rank) ∨
      ∃ before r after, runs = before ++ r :: after ∧
        runs.foldl (fun s r => s.endOfClass r.1 r.2) s = ⟨some r.1, r.2, r.1.rest.publishedOn⟩ ∧
        s.rank < runRank r ∧ (∀ r' ∈ before, runRank r' < runRank r) ∧
        ∀ r' ∈ after, runRank r' ≤ runRank r := by
  induction runs generalizing s with
  | nil => exact Or.inl ⟨rfl, by simp⟩
  | cons r runs ih =>
    rw [List.foldl_cons, Scan.endOfClass_eq]
    by_cases hlt : s.rank < runRank r
    · rw [if_pos hlt]
      rcases ih ⟨some r.1, r.2, r.1.rest.publishedOn⟩ with
        ⟨hkeep, hle⟩ | ⟨before, r', after, rfl, hfold, hbetter, hbefore, hafter⟩
      · exact Or.inr ⟨[], r, runs, rfl, hkeep, hlt, by simp, hle⟩
      · refine Or.inr ⟨r :: before, r', after, rfl, hfold, hlt.trans hbetter, ?_, hafter⟩
        rw [List.forall_mem_cons]
        exact ⟨hbetter, hbefore⟩
    · rw [if_neg hlt]
      rcases ih s with ⟨hkeep, hle⟩ | ⟨before, r', after, rfl, hfold, hbetter, hbefore, hafter⟩
      · refine Or.inl ⟨hkeep, ?_⟩
        rw [List.forall_mem_cons]
        exact ⟨not_lt.mp hlt, hle⟩
      · refine Or.inr ⟨r :: before, r', after, rfl, hfold, hbetter, ?_, hafter⟩
        rw [List.forall_mem_cons]
        exact ⟨(not_lt.mp hlt).trans_lt hbetter, hbefore⟩

theorem published_of_compare_eq {a b : VoteRs} (h : compareVoteRs a b = .eq) :
    a.rest.publishedOn = b.rest.publishedOn := by
  have htime := (Ordering.then_eq_eq.mp (Ordering.then_eq_eq.mp (Ordering.then_eq_eq.mp h).2).2).1
  rw [cmpField_time, compare_eq_iff_eq] at htime
  exact Subtype.ext (neg_inj.mp htime)

theorem digest_of_compare_isLE {a b : VoteRs} (hid : a.identityDigest = b.identityDigest)
    (h : (compareVoteRs a b).isLE) :
    (compare a.rest.descriptorDigest.val b.rest.descriptorDigest.val).isLE := by
  have hself : compare b.identityDigest.val b.identityDigest.val = .eq := Std.ReflOrd.compare_self
  rw [compareVoteRs, hid, hself, Ordering.eq_then] at h
  cases hcmp : compare a.rest.descriptorDigest.val b.rest.descriptorDigest.val with
  | lt => rfl
  | eq => rfl
  | gt => simp [hcmp] at h

theorem voteLoop_chosen {rs : VoteRs}
    (hsorted : (rs :: votes).Pairwise fun a b => (compareVoteRs a b).isLE)
    (hid : ∀ a ∈ rs :: votes, ∀ b ∈ rs :: votes, a.identityDigest = b.identityDigest) :
    ∃ most, (voteLoop ⟨none, 0, 0⟩ rs 1 votes).most = some most ∧ Chosen (rs :: votes) most := by
  have hruns := runsOf_runsFrom hsorted
  rw [voteLoop_eq]
  generalize runsFrom compareVoteRs rs 1 votes = runs at hruns
  rcases foldl_endOfClass runs ⟨none, 0, 0⟩ with
    ⟨-, hle⟩ | ⟨before, r, after, rfl, hfold, -, hbefore, hafter⟩
  · -- the first class is better than nothing
    obtain ⟨r, hr, heq⟩ := hruns.cover rs List.mem_cons_self
    have hpos : 0 < r.2 := by
      rw [(hruns.mem r hr).2]
      exact List.countP_pos_iff.mpr ⟨rs, List.mem_cons_self, inClass_iff.mpr heq⟩
    have hrank := hle r hr
    rw [runRank, Scan.rank, Prod.Lex.toLex_le_toLex] at hrank
    dsimp only at hrank
    omega
  · have hr : r ∈ before ++ r :: after := by simp
    have hall : ∀ r' ∈ before ++ r :: after, runRank r' ≤ runRank r := by
      intro r' hr'
      rcases List.mem_append.mp hr' with hr' | hr'
      · exact (hbefore r' hr').le
      rcases List.mem_cons.mp hr' with rfl | hr'
      · exact le_rfl
      · exact hafter r' hr'
    -- the run of each entry
    have hrun : ∀ v ∈ rs :: votes, ∃ r' ∈ before ++ r :: after, compareVoteRs r'.1 v = .eq ∧
        r'.2 = classSize (rs :: votes) v ∧ r'.1.rest.publishedOn = v.rest.publishedOn := by
      intro v hv
      obtain ⟨r', hr', heq⟩ := hruns.cover v hv
      refine ⟨r', hr', heq, ?_, published_of_compare_eq heq⟩
      have hclass : inClass compareVoteRs r'.1 = inClass compareVoteRs v :=
        funext fun c => inClass_congr_left heq
      rw [(hruns.mem r' hr').2, classSize, hclass]
    have hsize : r.2 = classSize (rs :: votes) r.1 := (hruns.mem r hr).2
    refine ⟨r.1, by rw [hfold], (hruns.mem r hr).1, ?_, ?_, ?_⟩
    · intro v hv
      obtain ⟨r', hr', -, hcount, -⟩ := hrun v hv
      have hrank := hall r' hr'
      rw [runRank, runRank, Prod.Lex.toLex_le_toLex] at hrank
      omega
    · intro v hv heq
      obtain ⟨r', hr', -, hcount, hpublished⟩ := hrun v hv
      have hrank := hall r' hr'
      rw [runRank, runRank, Prod.Lex.toLex_le_toLex] at hrank
      rw [hpublished] at hrank
      omega
    · intro v hv heq hpublished'
      obtain ⟨r', hr', hcmp, hcount, hpublished⟩ := hrun v hv
      have hrank : runRank r' = runRank r := by
        rw [runRank, runRank, hcount, heq, ← hsize, hpublished, hpublished']
      have hle : (compareVoteRs r.1 r'.1).isLE := by
        rcases List.mem_append.mp hr' with hr' | hr'
        · exact absurd hrank (hbefore r' hr').ne
        rcases List.mem_cons.mp hr' with rfl | hr'
        · rw [(Std.ReflCmp.compare_self : compareVoteRs r'.1 r'.1 = .eq)]
          rfl
        · have hlt := (List.pairwise_cons.mp (List.pairwise_append.mp hruns.sorted).2.1).1 r' hr'
          rw [hlt]
          rfl
      apply digest_of_compare_isLE (hid _ (hruns.mem r hr).1 v hv)
      rwa [← Std.TransCmp.congr_right hcmp]

theorem Chosen.perm {votes' : List VoteRs} (h : Chosen votes most) (hperm : votes.Perm votes') :
    Chosen votes' most := by
  have hsize : ∀ rs, classSize votes' rs = classSize votes rs := fun rs => (hperm.countP_eq _).symm
  constructor
  · exact hperm.mem_iff.mp h.mem
  · intro rs hrs
    rw [hsize, hsize]
    exact h.largest rs (hperm.mem_iff.mpr hrs)
  · intro rs hrs
    rw [hsize, hsize]
    exact h.latest rs (hperm.mem_iff.mpr hrs)
  · intro rs hrs
    rw [hsize, hsize]
    exact h.smallest rs (hperm.mem_iff.mpr hrs)

theorem isMostFrequent_mostFrequent {α : Type} [DecidableEq α] {cmp : α → α → Ordering}
    [Std.TransCmp cmp] [Std.LawfulEqCmp cmp] (q : Sorter cmp) {l l' : List α} (h : l.Perm l') :
    IsMostFrequent l' (mostFrequent cmp (q.sort l)).1 := by
  have hperm := (q.perm l).trans h
  cases hsort : q.sort l with
  | nil =>
    rw [hsort] at hperm
    exact hperm.nil_eq.symm
  | cons b m =>
    have hsorted := q.sorted l (consistent_of_transCmp l)
    obtain ⟨a, ha, hmost, hmax⟩ := mostFrequent_count hsorted (by simp [hsort])
    rw [← hsort, hmost]
    refine ⟨hperm.mem_iff.mp ha, fun c hc => ?_⟩
    rw [← hperm.count_eq, ← hperm.count_eq]
    exact hmax c (hperm.mem_iff.mpr hc)

/-- The choice among the entries for one relay, and what is most frequent in the class of the entry
that is chosen. -/
theorem computeRouterstatusConsensus_choice (q : Sorter compareVoteRs)
    (qOrports : Sorter compareOrports) (qDigests : Sorter compareDigests256) (votes : List VoteRs)
    (consensusMethod : ℕ) (hne : votes ≠ [])
    (hid : ∀ a ∈ votes, ∀ b ∈ votes, a.identityDigest = b.identityDigest) :
    ∃ most microdesc altOrp, computeRouterstatusConsensus q qOrports qDigests votes consensusMethod =
        some (most, microdesc, altOrp) ∧ Chosen votes most ∧
      IsMostFrequent ((votes.filter (inClass compareVoteRs most)).filterMap
        (voteRouterstatusFindMicrodescHash · consensusMethod)) microdesc ∧
      IsMostFrequent ((votes.filter (inClass compareVoteRs most)).filterMap altOrport) altOrp := by
  have hperm := q.perm votes
  have hsorted := q.sorted votes (consistent_of_transCmp votes)
  have hid' : ∀ a ∈ q.sort votes, ∀ b ∈ q.sort votes, a.identityDigest = b.identityDigest :=
    fun a ha b hb => hid a (hperm.mem_iff.mp ha) b (hperm.mem_iff.mp hb)
  unfold computeRouterstatusConsensus
  generalize q.sort votes = sorted at hperm hsorted hid'
  cases sorted with
  | nil => exact absurd hperm.nil_eq.symm hne
  | cons rs rest =>
    obtain ⟨most, hmost, hchosen⟩ := voteLoop_chosen hsorted hid'
    have hclass : ((rs :: rest).filter fun v => compareVoteRs v most = .eq) =
        (rs :: rest).filter (inClass compareVoteRs most) := by
      apply List.filter_congr
      intro v _
      rw [inClass, decide_eq_decide]
      exact ⟨Std.OrientedCmp.eq_symm, Std.OrientedCmp.eq_symm⟩
    have hdigests := isMostFrequent_mostFrequent qDigests
      ((hperm.filter (inClass compareVoteRs most)).filterMap
        (voteRouterstatusFindMicrodescHash · consensusMethod))
    have horports := isMostFrequent_mostFrequent qOrports
      ((hperm.filter (inClass compareVoteRs most)).filterMap altOrport)
    refine ⟨most, _, _, ?_, hchosen.perm hperm, hdigests, horports⟩
    simp [scanVotes, hmost, hclass]

/-- An entry for one relay with this descriptor and this time. -/
def exampleEntry (digest : UInt8) (publishedOn : Time) : VoteRs where
  identityDigest := Digest.replicate 1
  hasEd25519Listing := false
  ed25519Id := Digest256.replicate 0
  rest :=
    { descriptorDigest := Digest.replicate digest
      publishedOn := publishedOn
      nickname := ascii "relay"
      ipv4Addr := .inet 1
      ipv4Orport := 9001
      ipv4Dirport := 0
      ipv6Addr := .unspec
      ipv6Orport := 0
      microdesc := [] }

theorem computeRouterstatusConsensus_choice_two :
    let votes := [exampleEntry 2 ⟨5, by decide⟩, exampleEntry 1 ⟨5, by decide⟩]
    ∃ most microdesc altOrp, computeRouterstatusConsensus (stableSorter compareVoteRs)
        (stableSorter compareOrports) (stableSorter compareDigests256) votes 34 =
          some (most, microdesc, altOrp) ∧ Chosen votes most ∧
      IsMostFrequent ((votes.filter (inClass compareVoteRs most)).filterMap
        (voteRouterstatusFindMicrodescHash · 34)) microdesc ∧
      IsMostFrequent ((votes.filter (inClass compareVoteRs most)).filterMap altOrport) altOrp :=
  computeRouterstatusConsensus_choice _ _ _ _ 34 (by simp) (by simp [exampleEntry])

end Choice

end TorDaemon.Dirvote

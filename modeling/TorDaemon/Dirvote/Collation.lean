import TorDaemon.Common
import TorDaemon.Library.Tables
import TorDaemon.Library.Tally
import TorDaemon.SharedRandom.Agreement

/-! The collator of the directory votes (`dircollate.c`). Arrays hold the entries of the votes
by value; which of them had `ed25519_reflects_consensus` set is a list beside the maps. -/
namespace TorDaemon.Dirvote
open Library.Sorting Library.Tables Library.Voting SharedRandom

/-- `vote_routerstatus_t`: what the collator reads, and all else. -/
structure VoteRouterstatus (ρ : Type) where
  identityDigest : Digest
  hasEd25519Listing : Bool
  ed25519Id : Digest256
  rest : ρ

/-- A place for each vote, which is NULL or has an entry of the vote. -/
abbrev VrsLst (ρ : Type) (nVotes : ℕ) := Vector (Option (VoteRouterstatus ρ)) nVotes

variable {ρ : Type}

/-- A vote, of which the parser has checked that no identity is in it twice. -/
structure Vote (ρ : Type) where
  routerstatusList : List (VoteRouterstatus ρ)
  distinct : (routerstatusList.map VoteRouterstatus.identityDigest).Nodup

def compareDigests (a b : Digest) : Ordering := compare a.val b.val

instance : Std.TransCmp compareDigests where
  eq_swap := Std.OrientedOrd.eq_swap
  isLE_trans := Std.TransOrd.isLE_trans

/-- `dircollator_t` for a number of votes. -/
structure Dircollator (ρ : Type) (nVotes : ℕ) where
  isCollated : Bool
  nAuthorities : ℕ
  nextVoteNum : ℕ
  byRsaSha1 : Rows Digest (VoteRouterstatus ρ) nVotes
  byBothIds : Rows (Digest × Digest256) (VoteRouterstatus ρ) nVotes
  byCollatedRsaSha1 : AList fun _ : Digest => VrsLst ρ nVotes
  allRsaSha1Lst : List Digest
  /-- The votes and identities whose entry has `ed25519_reflects_consensus` set. -/
  reflectsConsensus : List (ℕ × Digest)

namespace Dircollator
variable {nVotes : ℕ}

def new (ρ : Type) (nVotes nAuthorities : ℕ) : Option (Dircollator ρ nVotes) := do
  torAssert (nVotes ≤ nAuthorities)
  return ⟨false, nAuthorities, 0, ∅, ∅, ∅, [], []⟩

def addRouterstatus (voteNum : Fin nVotes) (dc : Dircollator ρ nVotes)
    (vrs : VoteRouterstatus ρ) : Option (Dircollator ρ nVotes) := do
  let id := vrs.identityDigest
  let reflectsConsensus := dc.reflectsConsensus.filter (· ≠ (voteNum.val, id))
  let byRsaSha1 ← dc.byRsaSha1.put id voteNum vrs
  let byBothIds ←
    if !vrs.hasEd25519Listing then some dc.byBothIds
    else dc.byBothIds.put (id, vrs.ed25519Id) voteNum vrs
  return { dc with
    byRsaSha1 := byRsaSha1
    byBothIds := byBothIds
    reflectsConsensus := reflectsConsensus }

def addVote (dc : Dircollator ρ nVotes) (v : Vote ρ) : Option (Dircollator ρ nVotes) :=
  if h : dc.nextVoteNum < nVotes then do
    torAssert (!dc.isCollated)
    v.routerstatusList.foldlM (addRouterstatus ⟨dc.nextVoteNum, h⟩)
      { dc with nextVoteNum := dc.nextVoteNum + 1 }
  else none

/-- The collator that `networkstatus_compute_consensus` makes for its votes. -/
def ofVotes (votes : List (Vote ρ)) (totalAuthorities : ℕ) :
    Option (Dircollator ρ votes.length) := do
  let dc ← new ρ votes.length totalAuthorities
  votes.foldlM addVote dc

/-- The entries that are not NULL. -/
def count (vrsLst : VrsLst ρ nVotes) : ℕ :=
  vrsLst.toList.countP Option.isSome

/-- The empty places of a pair's array get the entries that have the RSA identity and no
ed25519 listing. -/
def mergeUnlisted (vrsLst vrsLst2 : VrsLst ρ nVotes) : VrsLst ρ nVotes :=
  Vector.ofFn fun i =>
    match vrsLst.get i, vrsLst2.get i with
    | some vrs, _ => some vrs
    | none, some vrs => if !vrs.hasEd25519Listing then some vrs else none
    | none, none => none

section
variable (dc : Dircollator ρ nVotes)

/-- `digestmap_set` and `smartlist_add` for one result. -/
def addResult (id : Digest) (vrsLst : VrsLst ρ nVotes) : Dircollator ρ nVotes :=
  { dc with
    byCollatedRsaSha1 := dc.byCollatedRsaSha1.insert id vrsLst
    allRsaSha1Lst := dc.allRsaSha1Lst ++ [id] }

/-- The votes in whose place the array has an entry. -/
def voters (vrsLst : VrsLst ρ nVotes) : List ℕ :=
  (List.range nVotes).filter fun i => vrsLst[i]?.join.isSome

/-- One pair of the loop over `by_both_ids`. The array of the pair is filled in place, and the
loop meets no pair twice. -/
def collatePair
    (ent : Σ _ : Digest × Digest256, VrsLst ρ nVotes) : Option (Dircollator ρ nVotes) :=
  if count ent.2 ≤ dc.nAuthorities / 2 then some dc
  else do
    let vrsLst2 ← dc.byRsaSha1.lookup ent.1.1
    let vrsLst := mergeUnlisted ent.2 vrsLst2
    return { dc with
      byBothIds := dc.byBothIds.replace ent.1 vrsLst
      reflectsConsensus := (voters ent.2).map (·, ent.1.1) ++ dc.reflectsConsensus
      : Dircollator ρ nVotes }.addResult ent.1.1 vrsLst

/-- One identity of the loop over `by_rsa_sha1`. -/
def collateRsa
    (ent : Σ _ : Digest, VrsLst ρ nVotes) : Dircollator ρ nVotes :=
  if ent.1 ∈ dc.byCollatedRsaSha1 then dc
  else if count ent.2 ≤ dc.nAuthorities / 2 then dc
  else dc.addResult ent.1 ent.2

end

section Collate
variable (pairs : Iteration (Σ _ : Digest × Digest256, VrsLst ρ nVotes))
  (ids : Iteration (Σ _ : Digest, VrsLst ρ nVotes))
  (q : Qsort compareDigests)

/-- `dircollator_collate_by_ed25519`, with the orders in which the maps are gone over. -/
def collateByEd25519 (dc : Dircollator ρ nVotes) : Option (Dircollator ρ nVotes) := do
  let dc ← (pairs.order dc.byBothIds.entries).foldlM collatePair
    { dc with byCollatedRsaSha1 := ∅ }
  return (ids.order dc.byRsaSha1.entries).foldl collateRsa dc

def collate (dc : Dircollator ρ nVotes) : Option (Dircollator ρ nVotes) := do
  torAssert (!dc.isCollated)
  let dc ← collateByEd25519 pairs ids { dc with allRsaSha1Lst := [] }
  return { dc with
    allRsaSha1Lst := q.sort dc.allRsaSha1Lst
    isCollated := true }

end Collate

def nRouters (dc : Dircollator ρ nVotes) : Option ℕ := do
  torAssert dc.isCollated
  return dc.allRsaSha1Lst.length

/-- A missing entry of the map would be a NULL array, which no caller may be given. -/
def getVotesForRouter (dc : Dircollator ρ nVotes) (idx : ℕ) : Option (VrsLst ρ nVotes) := do
  torAssert dc.isCollated
  let id ← dc.allRsaSha1Lst[idx]?
  dc.byCollatedRsaSha1.lookup id

end Dircollator

/-! ### What the collation gives

The tables are determined by the votes; the loops over them give the same results in every order,
because no RSA identity is in two pairs that each have a majority. -/

/-- The key of an entry in `by_rsa_sha1`. -/
def rsaKey (vrs : VoteRouterstatus ρ) : Option Digest := some vrs.identityDigest

/-- The key of an entry in `by_both_ids`, of a vote that lists an ed25519 identity for it or
that there is none. -/
def pairKey (vrs : VoteRouterstatus ρ) : Option (Digest × Digest256) :=
  if vrs.hasEd25519Listing then some (vrs.identityDigest, vrs.ed25519Id) else none

section Filed
variable {κ : Type} [DecidableEq κ]

def entry (key : VoteRouterstatus ρ → Option κ) (v : List (VoteRouterstatus ρ)) (k : κ) :
    Option (VoteRouterstatus ρ) :=
  v.find? fun vrs => key vrs = some k

/-- The entry for a key in the vote with a number. -/
def cells (key : VoteRouterstatus ρ → Option κ) (votes : List (List (VoteRouterstatus ρ)))
    (k : κ) (i : ℕ) : Option (VoteRouterstatus ρ) :=
  votes[i]?.bind fun v => entry key v k

variable {key : VoteRouterstatus ρ → Option κ} {nVotes : ℕ} {i : Fin nVotes}
  {votes : List (List (VoteRouterstatus ρ))} {part : List (VoteRouterstatus ρ)}
  {vrs : VoteRouterstatus ρ} {t : Rows κ (VoteRouterstatus ρ) nVotes} {k : κ}

theorem entry_append (key : VoteRouterstatus ρ → Option κ) (part : List (VoteRouterstatus ρ))
    (vrs : VoteRouterstatus ρ) (k : κ) : entry key (part ++ [vrs]) k =
      (entry key part k).or (if key vrs = some k then some vrs else none) := by
  by_cases h : key vrs = some k <;> simp [entry, List.find?_append, h]

theorem cells_last (key : VoteRouterstatus ρ → Option κ)
    (votes : List (List (VoteRouterstatus ρ))) (part : List (VoteRouterstatus ρ)) (k : κ) :
    cells key (votes ++ [part]) k votes.length = entry key part k := by
  simp [cells]

theorem cells_other {part' : List (VoteRouterstatus ρ)} {j : ℕ} (h : j ≠ votes.length) :
    cells key (votes ++ [part']) k j = cells key (votes ++ [part]) k j := by
  simp only [cells, List.getElem?_append]
  by_cases hlt : j < votes.length
  · simp [hlt]
  · have hge : 1 ≤ j - votes.length := by omega
    simp [hlt, List.getElem?_eq_none, hge]

theorem cells_empty (k : κ) (j : ℕ) : cells key (votes ++ [[]]) k j = cells key votes k j := by
  by_cases hlt : j < votes.length
  · simp [cells, List.getElem?_append, hlt]
  · have hge : votes.length ≤ j := Nat.le_of_not_lt hlt
    rw [cells, cells, List.getElem?_append_right hge, List.getElem?_eq_none hge]
    cases j - votes.length <;> simp [entry]

theorem holds_add (ht : Holds t (cells key (votes ++ [part]))) (hi : i.val = votes.length)
    (hkey : key vrs = some k) (hnew : entry key part k = none) :
    ∃ t', t.put k i vrs = some t' ∧ Holds t' (cells key (votes ++ [part ++ [vrs]])) := by
  apply ht.put
  · rw [hi, cells_last, hnew]
  · rw [hi, cells_last, entry_append, hnew, hkey]
    simp
  · intro k' j hne
    by_cases hj : j = votes.length
    · have hk : key vrs ≠ some k' := by
        rw [hkey]
        rintro ⟨⟩
        exact hne.elim (fun h => h rfl) (fun h => h (hj.trans hi.symm))
      rw [hj, cells_last, cells_last, entry_append, if_neg hk, Option.or_none]
    · exact cells_other hj

/-- An entry that has none changes nothing. -/
theorem holds_skip (ht : Holds t (cells key (votes ++ [part]))) (hkey : key vrs = none) :
    Holds t (cells key (votes ++ [part ++ [vrs]])) := by
  apply ht.congr
  intro k j _
  by_cases hj : j = votes.length
  · rw [hj, cells_last, cells_last, entry_append, hkey]
    simp
  · exact cells_other hj

end Filed

namespace Dircollator
variable {nVotes : ℕ} {dc : Dircollator ρ nVotes} {votes : List (List (VoteRouterstatus ρ))}
  {total : ℕ} {part : List (VoteRouterstatus ρ)} {vrs : VoteRouterstatus ρ}

/-- The collator has the entries of these votes. -/
structure Filed (dc : Dircollator ρ nVotes) (total next : ℕ)
    (votes : List (List (VoteRouterstatus ρ))) : Prop where
  isCollated : dc.isCollated = false
  nAuthorities : dc.nAuthorities = total
  nextVoteNum : dc.nextVoteNum = next
  byRsaSha1 : Holds dc.byRsaSha1 (cells rsaKey votes)
  byBothIds : Holds dc.byBothIds (cells pairKey votes)

theorem entry_rsaKey_none
    (h : vrs.identityDigest ∉ part.map VoteRouterstatus.identityDigest) :
    entry rsaKey part vrs.identityDigest = none := by
  apply List.find?_eq_none.mpr
  intro x hx
  have hne : x.identityDigest ≠ vrs.identityDigest := fun heq => h (heq ▸ List.mem_map_of_mem hx)
  simpa [rsaKey] using hne

theorem entry_pairKey_none
    (h : vrs.identityDigest ∉ part.map VoteRouterstatus.identityDigest) (ed : Digest256) :
    entry pairKey part (vrs.identityDigest, ed) = none := by
  apply List.find?_eq_none.mpr
  intro x hx
  have hne : x.identityDigest ≠ vrs.identityDigest := fun heq => h (heq ▸ List.mem_map_of_mem hx)
  simp [pairKey, hne]

theorem addRouterstatus_spec {next : ℕ} {i : Fin nVotes} (hdc : dc.Filed total next (votes ++ [part]))
    (hi : i.val = votes.length)
    (hnew : vrs.identityDigest ∉ part.map VoteRouterstatus.identityDigest) :
    ∃ dc', addRouterstatus i dc vrs = some dc' ∧
      dc'.Filed total next (votes ++ [part ++ [vrs]]) := by
  obtain ⟨byRsa, hputRsa, hrsa⟩ := holds_add hdc.byRsaSha1 hi rfl (entry_rsaKey_none hnew)
  by_cases hlisting : vrs.hasEd25519Listing = true
  · have hkey : pairKey vrs = some (vrs.identityDigest, vrs.ed25519Id) := by
      simp [pairKey, hlisting]
    obtain ⟨byBoth, hputBoth, hboth⟩ := holds_add hdc.byBothIds hi hkey (entry_pairKey_none hnew _)
    refine ⟨{ dc with
      byRsaSha1 := byRsa
      byBothIds := byBoth
      reflectsConsensus := dc.reflectsConsensus.filter (· ≠ (i.val, vrs.identityDigest)) }, ?_,
      hdc.isCollated, hdc.nAuthorities, hdc.nextVoteNum, hrsa, hboth⟩
    simp [addRouterstatus, hputRsa, hputBoth, hlisting]
  · have hkey : pairKey vrs = none := by simp [pairKey, hlisting]
    refine ⟨{ dc with
      byRsaSha1 := byRsa
      reflectsConsensus := dc.reflectsConsensus.filter (· ≠ (i.val, vrs.identityDigest)) }, ?_,
      hdc.isCollated, hdc.nAuthorities, hdc.nextVoteNum, hrsa, holds_skip hdc.byBothIds hkey⟩
    simp [addRouterstatus, hputRsa, hlisting]

theorem addRouterstatuses_spec {next : ℕ} {i : Fin nVotes} (rest : List (VoteRouterstatus ρ)) :
    ∀ {part : List (VoteRouterstatus ρ)} {dc : Dircollator ρ nVotes},
      dc.Filed total next (votes ++ [part]) → i.val = votes.length →
      ((part ++ rest).map VoteRouterstatus.identityDigest).Nodup →
      ∃ dc', rest.foldlM (addRouterstatus i) dc = some dc' ∧
        dc'.Filed total next (votes ++ [part ++ rest]) := by
  induction rest with
  | nil =>
    intro part dc hdc _ _
    exact ⟨dc, rfl, by simpa using hdc⟩
  | cons vrs rest ih =>
    intro part dc hdc hi hnodup
    rw [List.append_cons, List.map_append, List.map_append] at hnodup
    have hnew : vrs.identityDigest ∉ part.map VoteRouterstatus.identityDigest := by
      intro hmem
      exact List.disjoint_of_nodup_append hnodup.of_append_left hmem (by simp)
    obtain ⟨dc₁, hadd, hdc₁⟩ := addRouterstatus_spec hdc hi hnew
    obtain ⟨dc', hfold, hdc'⟩ := ih hdc₁ hi (by simpa using hnodup)
    refine ⟨dc', ?_, by simpa using hdc'⟩
    simp [List.foldlM_cons, hadd, hfold]

theorem addVote_spec {v : Vote ρ} (hdc : dc.Filed total votes.length votes)
    (hlt : votes.length < nVotes) : ∃ dc', addVote dc v = some dc' ∧
      dc'.Filed total (votes.length + 1) (votes ++ [v.routerstatusList]) := by
  have hnext := hdc.nextVoteNum
  have hstart : ({ dc with nextVoteNum := dc.nextVoteNum + 1 } : Dircollator ρ nVotes).Filed total
      (votes.length + 1) (votes ++ [[]]) :=
    ⟨hdc.isCollated, hdc.nAuthorities, congrArg (· + 1) hnext,
      hdc.byRsaSha1.congr fun k j _ => cells_empty k j,
      hdc.byBothIds.congr fun k j _ => cells_empty k j⟩
  have hopen : torAssert ((!dc.isCollated) = true) = some () := by
    simp [torAssert, hdc.isCollated]
  have hlt' : dc.nextVoteNum < nVotes := hnext ▸ hlt
  obtain ⟨dc', hfold, hdc'⟩ := addRouterstatuses_spec (i := ⟨dc.nextVoteNum, hlt'⟩)
    v.routerstatusList hstart hnext v.distinct
  refine ⟨dc', ?_, hdc'⟩
  rw [addVote, dif_pos hlt', hopen]
  exact hfold

theorem addVotes_spec (vs : List (Vote ρ)) :
    ∀ {votes : List (List (VoteRouterstatus ρ))} {dc : Dircollator ρ nVotes},
      dc.Filed total votes.length votes → votes.length + vs.length ≤ nVotes →
      ∃ dc', vs.foldlM addVote dc = some dc' ∧
        dc'.Filed total (votes.length + vs.length) (votes ++ vs.map Vote.routerstatusList) := by
  induction vs with
  | nil =>
    intro votes dc hdc _
    exact ⟨dc, rfl, by simpa using hdc⟩
  | cons v vs ih =>
    intro votes dc hdc hlength
    simp only [List.length_cons] at hlength
    obtain ⟨dc₁, hadd, hdc₁⟩ := addVote_spec (v := v) hdc (by omega)
    have hdc₂ : dc₁.Filed total (votes ++ [v.routerstatusList]).length
        (votes ++ [v.routerstatusList]) := by simpa using hdc₁
    obtain ⟨dc', hfold, hdc'⟩ := ih hdc₂ (by simp; omega)
    refine ⟨dc', by simp [List.foldlM_cons, hadd, hfold], ?_⟩
    simpa [Nat.add_assoc, Nat.add_comm 1] using hdc'

/-- No assertion fails while the votes are added, and their entries are all there. -/
theorem ofVotes_spec {votes : List (Vote ρ)} (htotal : votes.length ≤ total) :
    ∃ dc, ofVotes votes total = some dc ∧
      dc.Filed total votes.length (votes.map Vote.routerstatusList) := by
  have hnew : (⟨false, total, 0, ∅, ∅, ∅, [], []⟩ : Dircollator ρ votes.length).Filed total
      (([] : List (List (VoteRouterstatus ρ))).length) [] :=
    ⟨rfl, rfl, rfl, .empty fun _ _ => rfl, .empty fun _ _ => rfl⟩
  obtain ⟨dc, hfold, hdc⟩ := addVotes_spec votes hnew (by simp)
  refine ⟨dc, ?_, by simpa using hdc⟩
  simp [ofVotes, new, torAssert, htotal, hfold]

section Count
variable {κ : Type} [DecidableEq κ] {key : VoteRouterstatus ρ → Option κ}
  {votes : List (Vote ρ)} {t : Rows κ (VoteRouterstatus ρ) votes.length}

/-- Whether a vote has an entry with the key. -/
def lists (key : VoteRouterstatus ρ → Option κ) (k : κ) (v : Vote ρ) : Bool :=
  v.routerstatusList.any fun vrs => key vrs = some k

theorem isSome_entry (v : Vote ρ) (k : κ) :
    (entry key v.routerstatusList k).isSome = lists key k v := by
  rw [Bool.eq_iff_iff]
  simp [entry, lists]

theorem count_row (ht : Holds t (cells key (votes.map Vote.routerstatusList))) (k : κ) :
    count (t.row k) = votes.countP (lists key k) := by
  have hrow : (t.row k).toList = votes.map fun v => entry key v.routerstatusList k := by
    apply List.ext_getElem
    · simp
    · intro i hi hi'
      have hcell := ht.row k i (by simpa using hi')
      simp only [Vector.getElem_toList, hcell, cells, List.getElem_map]
      rw [List.getElem?_eq_getElem (by simpa using hi')]
      simp
  rw [count, hrow, List.countP_map]
  congr 1
  funext v
  exact isSome_entry v k

end Count

section Loops
variable {byRsaSha1 : Rows Digest (VoteRouterstatus ρ) nVotes}
  {results : List (Digest × VrsLst ρ nVotes)}

/-- What a pair with a majority puts into the map. -/
def pairResult (byRsaSha1 : Rows Digest (VoteRouterstatus ρ) nVotes)
    (ent : Σ _ : Digest × Digest256, VrsLst ρ nVotes) : Digest × VrsLst ρ nVotes :=
  (ent.1.1, mergeUnlisted ent.2 (byRsaSha1.row ent.1.1))

theorem collatePair_spec
    {ent : Σ _ : Digest × Digest256, VrsLst ρ nVotes}
    (htotal : dc.nAuthorities = total) (hrsa : dc.byRsaSha1 = byRsaSha1)
    (hdc : Collected dc.byCollatedRsaSha1 dc.allRsaSha1Lst results)
    (hmem : ent.1.1 ∈ byRsaSha1) (hmany : total / 2 < count ent.2)
    (hnew : ent.1.1 ∉ dc.allRsaSha1Lst) :
    ∃ dc', collatePair dc ent = some dc' ∧ dc'.nAuthorities = total ∧
      dc'.byRsaSha1 = byRsaSha1 ∧ dc'.allRsaSha1Lst = dc.allRsaSha1Lst ++ [ent.1.1] ∧
      Collected dc'.byCollatedRsaSha1 dc'.allRsaSha1Lst
        (results ++ [pairResult byRsaSha1 ent]) := by
  have hlookup : dc.byRsaSha1.lookup ent.1.1 = some (byRsaSha1.row ent.1.1) := by
    rw [hrsa]
    exact lookup_of_mem hmem
  have hstep : collatePair dc ent = some ({ dc with
      byBothIds := dc.byBothIds.replace ent.1 (mergeUnlisted ent.2 (byRsaSha1.row ent.1.1))
      reflectsConsensus := (voters ent.2).map (·, ent.1.1) ++ dc.reflectsConsensus
      : Dircollator ρ nVotes }.addResult ent.1.1
        (mergeUnlisted ent.2 (byRsaSha1.row ent.1.1))) := by
    rw [collatePair, htotal, if_neg (Nat.not_le_of_lt hmany), hlookup]
    rfl
  exact ⟨_, hstep, htotal, hrsa, rfl, hdc.insert hnew _⟩

theorem collatePairs_spec
    (ents : List (Σ _ : Digest × Digest256, VrsLst ρ nVotes)) : ∀ {dc : Dircollator ρ nVotes}
      {results : List (Digest × VrsLst ρ nVotes)},
      dc.nAuthorities = total → dc.byRsaSha1 = byRsaSha1 →
      Collected dc.byCollatedRsaSha1 dc.allRsaSha1Lst results →
      (∀ ent ∈ ents, ent.1.1 ∈ byRsaSha1) →
      (dc.allRsaSha1Lst ++
        (ents.filter fun ent => total / 2 < count ent.2).map (·.1.1)).Nodup →
      ∃ dc', ents.foldlM collatePair dc = some dc' ∧ dc'.nAuthorities = total ∧
        dc'.byRsaSha1 = byRsaSha1 ∧
        Collected dc'.byCollatedRsaSha1 dc'.allRsaSha1Lst (results ++
          (ents.filter fun ent => total / 2 < count ent.2).map (pairResult byRsaSha1)) := by
  induction ents with
  | nil =>
    intro dc results htotal hrsa hdc _ _
    exact ⟨dc, rfl, htotal, hrsa, by simpa using hdc⟩
  | cons ent ents ih =>
    intro dc results htotal hrsa hdc hmem hnodup
    have hrest : ∀ ent ∈ ents, ent.1.1 ∈ byRsaSha1 := fun e he => hmem e (.tail _ he)
    by_cases hfew : count ent.2 ≤ total / 2
    · have hstep : collatePair dc ent = some dc := by
        rw [collatePair, htotal, if_pos hfew]
      have hdrop : ¬ total / 2 < count ent.2 := Nat.not_lt.mpr hfew
      simp only [List.filter_cons, hdrop, decide_false, Bool.false_eq_true, if_false,
        List.foldlM_cons, hstep] at hnodup ⊢
      exact ih htotal hrsa hdc hrest hnodup
    · have hkeep : total / 2 < count ent.2 := Nat.lt_of_not_le hfew
      simp only [List.filter_cons, hkeep, decide_true, if_true, List.map_cons] at hnodup ⊢
      rw [List.append_cons] at hnodup
      have hnew : ent.1.1 ∉ dc.allRsaSha1Lst := by
        intro hin
        exact List.disjoint_of_nodup_append hnodup.of_append_left hin (by simp)
      obtain ⟨dc₁, hstep, htotal₁, hrsa₁, hall, hdc₁⟩ :=
        collatePair_spec htotal hrsa hdc (hmem ent (.head _)) hkeep hnew
      rw [← hall] at hnodup
      obtain ⟨dc', hfold, htotal', hrsa', hdc'⟩ := ih htotal₁ hrsa₁ hdc₁ hrest hnodup
      refine ⟨dc', by simp [List.foldlM_cons, hstep, hfold], htotal', hrsa', ?_⟩
      rw [List.append_cons]
      exact hdc'

theorem collateRsas_spec {first : List Digest} (ents : List (Σ _ : Digest, VrsLst ρ nVotes)) :
    ∀ {dc : Dircollator ρ nVotes} {results : List (Digest × VrsLst ρ nVotes)},
      dc.nAuthorities = total → Collected dc.byCollatedRsaSha1 dc.allRsaSha1Lst results →
      (∀ ent ∈ ents, ent.1 ∈ dc.allRsaSha1Lst ↔ ent.1 ∈ first) → (ents.map Sigma.fst).Nodup →
      Collected (ents.foldl collateRsa dc).byCollatedRsaSha1
        (ents.foldl collateRsa dc).allRsaSha1Lst
        (results ++ (ents.filter fun ent => ent.1 ∉ first ∧ total / 2 < count ent.2).map
          fun ent => (ent.1, ent.2)) := by
  induction ents with
  | nil =>
    intro dc results _ hdc _ _
    simpa using hdc
  | cons ent ents ih =>
    intro dc results htotal hdc hfirst hnodup
    obtain ⟨hnotin, hnodup⟩ := List.nodup_cons.mp hnodup
    have hrest : ∀ e ∈ ents, e.1 ∈ dc.allRsaSha1Lst ↔ e.1 ∈ first :=
      fun e he => hfirst e (.tail _ he)
    have hhere := (hdc.mem ent.1).trans (hfirst ent (.head _))
    by_cases hskip : ent.1 ∈ first ∨ count ent.2 ≤ total / 2
    · have hstep : collateRsa dc ent = dc := by
        rcases hskip with hin | hfew
        · rw [collateRsa, if_pos (hhere.mpr hin)]
        · rw [collateRsa, htotal, if_pos hfew, ite_self]
      have hdrop : ¬ (ent.1 ∉ first ∧ total / 2 < count ent.2) := by
        rintro ⟨hout, hmany⟩
        exact hskip.elim hout (Nat.not_le_of_lt hmany)
      simp only [List.filter_cons, hdrop, decide_false, Bool.false_eq_true, if_false,
        List.foldl_cons, hstep]
      exact ih htotal hdc hrest hnodup
    · obtain ⟨hout, hmany⟩ := not_or.mp hskip
      have hkeep : ent.1 ∉ first ∧ total / 2 < count ent.2 := ⟨hout, Nat.lt_of_not_le hmany⟩
      have hstep : collateRsa dc ent = dc.addResult ent.1 ent.2 := by
        rw [collateRsa, htotal, if_neg fun hin => hout (hhere.mp hin), if_neg hmany]
      have hnew : ent.1 ∉ dc.allRsaSha1Lst := fun hin => hout ((hfirst ent (.head _)).mp hin)
      simp only [List.filter_cons, hkeep, not_false_eq_true, and_self, decide_true, if_true,
        List.map_cons, List.foldl_cons, hstep]
      rw [List.append_cons]
      refine ih htotal (hdc.insert hnew ent.2) (fun e he => ?_) hnodup
      have hne : e.1 ≠ ent.1 := fun heq => hnotin (heq ▸ List.mem_map_of_mem he)
      rw [← hrest e he]
      simp [addResult, hne]

end Loops

end Dircollator

end TorDaemon.Dirvote

import TorDaemon.Dirvote.Collation

/-! The collated identities and the entries of each, as the votes determine them. -/
namespace TorDaemon.Dirvote
open Library.Tables Library.Sorting Library.Voting SharedRandom Dircollator
variable {ρ : Type} {votes : List (Vote ρ)} {total : ℕ} {id : Digest} {ed ed' : Digest256}

/-- More than half of the authorities list the ed25519 and the RSA identity together. -/
def PairMajority (votes : List (Vote ρ)) (total : ℕ) (id : Digest) (ed : Digest256) : Prop :=
  Majority total votes (lists pairKey (id, ed))

def RsaMajority (votes : List (Vote ρ)) (total : ℕ) (id : Digest) : Prop :=
  Majority total votes (lists rsaKey id)

/-- The entry of a vote for the RSA identity, where it has no ed25519 listing. -/
def unlistedEntry (v : List (VoteRouterstatus ρ)) (id : Digest) : Option (VoteRouterstatus ρ) :=
  v.find? fun vrs => vrs.identityDigest = id ∧ vrs.hasEd25519Listing = false

structure Exact (votes : List (Vote ρ)) (total : ℕ)
    (results : List (Digest × VrsLst ρ votes.length)) : Prop where
  once : (results.map Prod.fst).Nodup
  sorted : (results.map Prod.fst).Pairwise fun a b => (compareDigests a b).isLE
  mem : ∀ id, id ∈ results.map Prod.fst ↔
    (∃ ed, PairMajority votes total id ed) ∨ RsaMajority votes total id
  pair : ∀ res ∈ results, ∀ ed, PairMajority votes total res.1 ed → ∀ i (hi : i < votes.length),
    res.2[i] = (entry pairKey votes[i].routerstatusList (res.1, ed)).or
      (unlistedEntry votes[i].routerstatusList res.1)
  rsa : ∀ res ∈ results, (∀ ed, ¬ PairMajority votes total res.1 ed) →
    ∀ i (hi : i < votes.length), res.2[i] = entry rsaKey votes[i].routerstatusList res.1

theorem Exact.unique
    {results results' : List (Digest × VrsLst ρ votes.length)}
    (h : Exact votes total results) (h' : Exact votes total results') : results = results' := by
  have hperm : (results.map Prod.fst).Perm (results'.map Prod.fst) :=
    (List.perm_ext_iff_of_nodup h.once h'.once).mpr fun id => (h.mem id).trans (h'.mem id).symm
  have hids : results.map Prod.fst = results'.map Prod.fst := by
    apply sorted_unique h.sorted h'.sorted hperm
    intro a _ b _ hab
    exact Subtype.ext (Std.LawfulEqOrd.eq_of_compare hab)
  apply List.ext_getElem
  · simpa using congrArg List.length hids
  · intro j hj hj'
    have hid : results[j].1 = results'[j].1 := by
      simpa [hj, hj'] using congrArg (·[j]?) hids
    have hres := List.getElem_mem hj
    have hres' := List.getElem_mem hj'
    apply Prod.ext hid
    ext1 i hi
    by_cases hpair : ∃ ed, PairMajority votes total results[j].1 ed
    · obtain ⟨ed, hed⟩ := hpair
      rw [h.pair _ hres ed hed i hi, h'.pair _ hres' ed (hid ▸ hed) i hi, hid]
    · have hno : ∀ ed, ¬ PairMajority votes total results[j].1 ed := fun ed hed => hpair ⟨ed, hed⟩
      rw [h.rsa _ hres hno i hi, h'.rsa _ hres' (hid ▸ hno) i hi, hid]

section Vote
variable {v : Vote ρ}

theorem Vote.eq_of_id {x y : VoteRouterstatus ρ} (hx : x ∈ v.routerstatusList)
    (hy : y ∈ v.routerstatusList) (h : x.identityDigest = y.identityDigest) : x = y :=
  List.inj_on_of_nodup_map v.distinct hx hy h

theorem pairKey_eq_some {vrs : VoteRouterstatus ρ} : pairKey vrs = some (id, ed) ↔
    vrs.hasEd25519Listing = true ∧ vrs.identityDigest = id ∧ vrs.ed25519Id = ed := by
  unfold pairKey
  cases vrs.hasEd25519Listing <;> simp

theorem pair_unique (h : lists pairKey (id, ed) v = true) (h' : lists pairKey (id, ed') v = true) :
    ed = ed' := by
  obtain ⟨x, hx, hkey⟩ := List.any_eq_true.mp h
  obtain ⟨y, hy, hkey'⟩ := List.any_eq_true.mp h'
  obtain ⟨-, hid, hed⟩ := pairKey_eq_some.mp (of_decide_eq_true hkey)
  obtain ⟨-, hid', hed'⟩ := pairKey_eq_some.mp (of_decide_eq_true hkey')
  rw [← hed, ← hed', v.eq_of_id hx hy (hid.trans hid'.symm)]

theorem lists_rsaKey_of_pairKey (h : lists pairKey (id, ed) v = true) :
    lists rsaKey id v = true := by
  obtain ⟨x, hx, hkey⟩ := List.any_eq_true.mp h
  obtain ⟨-, hid, -⟩ := pairKey_eq_some.mp (of_decide_eq_true hkey)
  exact List.any_eq_true.mpr ⟨x, hx, by simp [rsaKey, hid]⟩

theorem entry_filter_unlisted (v : Vote ρ) (id : Digest) :
    ((entry rsaKey v.routerstatusList id).filter fun vrs => !vrs.hasEd25519Listing) =
      unlistedEntry v.routerstatusList id := by
  cases hentry : entry rsaKey v.routerstatusList id with
  | none =>
    symm
    apply List.find?_eq_none.mpr
    intro x hx
    have hne := List.find?_eq_none.mp hentry x hx
    simp only [rsaKey, Option.some.injEq, decide_eq_true_eq] at hne
    simp [hne]
  | some vrs =>
    have hvrs := List.mem_of_find?_eq_some hentry
    have hid : vrs.identityDigest = id := by
      simpa [rsaKey] using List.find?_some hentry
    cases hlisting : vrs.hasEd25519Listing with
    | true =>
      rw [Option.filter_some, if_neg (by simp [hlisting])]
      symm
      apply List.find?_eq_none.mpr
      intro x hx
      simp only [decide_eq_true_eq, not_and, Bool.not_eq_false]
      intro hxid
      rw [v.eq_of_id hx hvrs (hxid.trans hid.symm), hlisting]
    | false =>
      rw [Option.filter_some, if_pos (by simp [hlisting])]
      cases hfind : unlistedEntry v.routerstatusList id with
      | none =>
        have hnot := List.find?_eq_none.mp hfind vrs hvrs
        simp [hid, hlisting] at hnot
      | some x =>
        have hx := List.mem_of_find?_eq_some hfind
        have hxid := List.find?_some hfind
        simp only [decide_eq_true_eq] at hxid
        rw [v.eq_of_id hvrs hx (hid.trans hxid.1.symm)]

end Vote

theorem PairMajority.unique (htotal : votes.length ≤ total) (h : PairMajority votes total id ed)
    (h' : PairMajority votes total id ed') : ed = ed' := by
  obtain ⟨v, -, hv, hv'⟩ := h.intersect h' htotal
  exact pair_unique hv hv'

section Entries
variable {κ : Type} [DecidableEq κ] {key : VoteRouterstatus ρ → Option κ}
  {t : Rows κ (VoteRouterstatus ρ) votes.length} {k : κ}

theorem majority_of_entry {ent : Σ _ : κ, VrsLst ρ votes.length}
    (ht : Holds t (cells key (votes.map Vote.routerstatusList))) (hent : ent ∈ t.entries)
    (hmany : total / 2 < count ent.2) : Majority total votes (lists key ent.1) := by
  rw [← row_of_mem_entries hent, count_row ht] at hmany
  exact hmany

theorem entry_of_majority (ht : Holds t (cells key (votes.map Vote.routerstatusList)))
    (hmany : Majority total votes (lists key k)) :
    ⟨k, t.row k⟩ ∈ t.entries ∧ total / 2 < count (t.row k) := by
  refine ⟨AList.mem_lookup_iff.mp (lookup_of_mem ?_), (count_row ht k).symm ▸ hmany⟩
  obtain ⟨v, hv, hlists⟩ := List.countP_pos_iff.mp (Nat.zero_lt_of_lt hmany)
  obtain ⟨i, hi, rfl⟩ := List.getElem_of_mem hv
  refine (ht.mem k).mpr ⟨i, hi, ?_⟩
  simpa [cells, hi, isSome_entry] using hlists

end Entries

namespace Dircollator
variable {dc : Dircollator ρ votes.length}
  {pairs : Iteration (Σ _ : Digest × Digest256, VrsLst ρ votes.length)}
  {ids : Iteration (Σ _ : Digest, VrsLst ρ votes.length)}
  {res : Digest × VrsLst ρ votes.length}

/-- What is in the array of a pair that has been filled up. -/
theorem mergeUnlisted_row
    (hdc : dc.Filed total votes.length (votes.map Vote.routerstatusList)) (i : ℕ)
    (hi : i < votes.length) : (mergeUnlisted (dc.byBothIds.row (id, ed)) (dc.byRsaSha1.row id))[i] =
      (entry pairKey votes[i].routerstatusList (id, ed)).or
        (unlistedEntry votes[i].routerstatusList id) := by
  have hpair := hdc.byBothIds.row (id, ed) i hi
  have hrsa := hdc.byRsaSha1.row id i hi
  simp only [cells, List.getElem?_map, List.getElem?_eq_getElem hi, Option.map_some,
    Option.bind_some] at hpair hrsa
  change (dc.byBothIds.row (id, ed)).get ⟨i, hi⟩ = _ at hpair
  change (dc.byRsaSha1.row id).get ⟨i, hi⟩ = _ at hrsa
  rw [← entry_filter_unlisted]
  simp only [mergeUnlisted, Vector.getElem_ofFn, hpair, hrsa]
  cases entry pairKey votes[i].routerstatusList (id, ed) with
  | some vrs => rfl
  | none =>
    cases entry rsaKey votes[i].routerstatusList id with
    | none => rfl
    | some vrs => simp [Option.filter_some]

theorem winners_nodup (htotal : votes.length ≤ total)
    (hdc : dc.Filed total votes.length (votes.map Vote.routerstatusList)) :
    (((pairs.order dc.byBothIds.entries).filter fun ent => total / 2 < count ent.2).map
      (·.1.1)).Nodup := by
  have hentries : (pairs.order dc.byBothIds.entries).Nodup :=
    (pairs.perm _).nodup_iff.mpr (List.NodupKeys.nodup dc.byBothIds.nodupKeys)
  refine (hentries.filter _).map_on fun x hx y hy hxy => ?_
  obtain ⟨hx, hxmany⟩ := List.mem_filter.mp hx
  obtain ⟨hy, hymany⟩ := List.mem_filter.mp hy
  replace hx := (pairs.perm _).mem_iff.mp hx
  replace hy := (pairs.perm _).mem_iff.mp hy
  have hxmaj := majority_of_entry hdc.byBothIds hx (of_decide_eq_true hxmany)
  have hymaj := majority_of_entry hdc.byBothIds hy (of_decide_eq_true hymany)
  obtain ⟨⟨xid, xed⟩, xarr⟩ := x
  obtain ⟨⟨yid, yed⟩, yarr⟩ := y
  obtain rfl : xid = yid := hxy
  obtain rfl : xed = yed := PairMajority.unique htotal hxmaj hymaj
  have hxarr : dc.byBothIds.row (xid, xed) = xarr := row_of_mem_entries hx
  have hyarr : dc.byBothIds.row (xid, xed) = yarr := row_of_mem_entries hy
  rw [← hxarr, ← hyarr]

section
variable (hdc : dc.Filed total votes.length (votes.map Vote.routerstatusList))
include hdc

theorem mem_pairResults :
    res ∈ ((pairs.order dc.byBothIds.entries).filter fun ent => total / 2 < count ent.2).map
        (pairResult dc.byRsaSha1) ↔
      ∃ ed, PairMajority votes total res.1 ed ∧
        res.2 = mergeUnlisted (dc.byBothIds.row (res.1, ed)) (dc.byRsaSha1.row res.1) := by
  constructor
  · intro hres
    obtain ⟨ent, hent, rfl⟩ := List.mem_map.mp hres
    obtain ⟨hent, hmany⟩ := List.mem_filter.mp hent
    replace hent := (pairs.perm _).mem_iff.mp hent
    have hmaj := majority_of_entry hdc.byBothIds hent (of_decide_eq_true hmany)
    refine ⟨ent.1.2, hmaj, ?_⟩
    rw [show dc.byBothIds.row ((pairResult dc.byRsaSha1 ent).1, ent.1.2) = ent.2 from
      row_of_mem_entries hent]
    rfl
  · rintro ⟨ed, hmaj, harr⟩
    obtain ⟨hent, hmany⟩ := entry_of_majority hdc.byBothIds hmaj
    refine List.mem_map.mpr ⟨⟨(res.1, ed), dc.byBothIds.row (res.1, ed)⟩, ?_, ?_⟩
    · exact List.mem_filter.mpr ⟨(pairs.perm _).mem_iff.mpr hent, by simpa using hmany⟩
    · exact Prod.ext rfl harr.symm

/-- What the loop over the RSA identities adds. -/
theorem mem_rsaResults
    {first : List Digest} : res ∈ ((ids.order dc.byRsaSha1.entries).filter fun ent =>
        ent.1 ∉ first ∧ total / 2 < count ent.2).map (fun ent => (ent.1, ent.2)) ↔
      res.1 ∉ first ∧ RsaMajority votes total res.1 ∧ res.2 = dc.byRsaSha1.row res.1 := by
  constructor
  · intro hres
    obtain ⟨ent, hent, rfl⟩ := List.mem_map.mp hres
    obtain ⟨hent, hkept⟩ := List.mem_filter.mp hent
    obtain ⟨hout, hmany⟩ := of_decide_eq_true hkept
    replace hent := (ids.perm _).mem_iff.mp hent
    exact ⟨hout, majority_of_entry hdc.byRsaSha1 hent hmany, (row_of_mem_entries hent).symm⟩
  · rintro ⟨hout, hmaj, harr⟩
    obtain ⟨hent, hmany⟩ := entry_of_majority hdc.byRsaSha1 hmaj
    refine List.mem_map.mpr ⟨⟨res.1, dc.byRsaSha1.row res.1⟩, ?_, ?_⟩
    · exact List.mem_filter.mpr ⟨(ids.perm _).mem_iff.mpr hent, by simpa using ⟨hout, hmany⟩⟩
    · exact Prod.ext rfl harr.symm

/-- The RSA identity of a pair has its own row too. -/
theorem mem_byRsaSha1 {ent : Σ _ : Digest × Digest256,
      VrsLst ρ votes.length} (hent : ent ∈ dc.byBothIds.entries) : ent.1.1 ∈ dc.byRsaSha1 := by
  have hmem : ent.1 ∈ dc.byBothIds :=
    AList.lookup_isSome.mp (Option.isSome_of_mem (AList.mem_lookup_iff.mpr hent))
  obtain ⟨i, hi, hcell⟩ := (hdc.byBothIds.mem ent.1).mp hmem
  refine (hdc.byRsaSha1.mem ent.1.1).mpr ⟨i, hi, ?_⟩
  simp only [cells, List.getElem?_map, List.getElem?_eq_getElem hi, Option.map_some,
    Option.bind_some, isSome_entry] at hcell ⊢
  exact lists_rsaKey_of_pairKey hcell

end

/-- The results of both loops, before they are sorted. -/
structure Results (dc dc' : Dircollator ρ votes.length) (total : ℕ) : Prop where
  once : dc'.allRsaSha1Lst.Nodup
  lookup : ∀ id ∈ dc'.allRsaSha1Lst, id ∈ dc'.byCollatedRsaSha1
  mem : ∀ id, id ∈ dc'.allRsaSha1Lst ↔
    (∃ ed, PairMajority votes total id ed) ∨ RsaMajority votes total id
  pair : ∀ id ∈ dc'.allRsaSha1Lst, ∀ ed, PairMajority votes total id ed →
    Rows.row dc'.byCollatedRsaSha1 id =
      mergeUnlisted (dc.byBothIds.row (id, ed)) (dc.byRsaSha1.row id)
  rsa : ∀ id ∈ dc'.allRsaSha1Lst, (∀ ed, ¬ PairMajority votes total id ed) →
    Rows.row dc'.byCollatedRsaSha1 id = dc.byRsaSha1.row id

variable (pairs ids) in
theorem collateByEd25519_spec (htotal : votes.length ≤ total)
    (hdc : dc.Filed total votes.length (votes.map Vote.routerstatusList)) :
    ∃ dc', collateByEd25519 pairs ids { dc with allRsaSha1Lst := [] } = some dc' ∧
      Results dc dc' total := by
  let start : Dircollator ρ votes.length :=
    { dc with byCollatedRsaSha1 := ∅, allRsaSha1Lst := [] }
  have hstart : Collected start.byCollatedRsaSha1 start.allRsaSha1Lst [] := .empty
  have htotal₀ : start.nAuthorities = total := hdc.nAuthorities
  have hrsa₀ : start.byRsaSha1 = dc.byRsaSha1 := rfl
  obtain ⟨dc₁, hpairs, htotal₁, hrsa₁, hdc₁⟩ :=
    collatePairs_spec (pairs.order dc.byBothIds.entries) htotal₀ hrsa₀ hstart
      (fun ent hent => mem_byRsaSha1 hdc ((pairs.perm _).mem_iff.mp hent))
      (winners_nodup htotal hdc)
  have hdc' := collateRsas_spec (ids.order dc.byRsaSha1.entries) htotal₁ hdc₁
    (fun _ _ => Iff.rfl) (((ids.perm _).map Sigma.fst).nodup_iff.mpr dc.byRsaSha1.keys_nodup)
  have hfirst : ∀ id, id ∈ dc₁.allRsaSha1Lst ↔ ∃ ed, PairMajority votes total id ed := by
    intro id
    rw [← hdc₁.map_fst]
    constructor
    · intro hid
      obtain ⟨res, hres, rfl⟩ := List.mem_map.mp hid
      obtain ⟨ed, hmaj, -⟩ := (mem_pairResults hdc).mp hres
      exact ⟨ed, hmaj⟩
    · rintro ⟨ed, hmaj⟩
      exact List.mem_map.mpr
        ⟨(id, mergeUnlisted (dc.byBothIds.row (id, ed)) (dc.byRsaSha1.row id)),
          (mem_pairResults hdc).mpr ⟨ed, hmaj, rfl⟩, rfl⟩
  refine ⟨_, ?_, hdc'.distinct, fun id hid => (hdc'.mem id).mpr hid, ?_, ?_, ?_⟩
  · rw [collateByEd25519]
    change ((pairs.order dc.byBothIds.entries).foldlM collatePair start).bind _ = _
    rw [hpairs, Option.bind_some, hrsa₁]
    rfl
  · intro id
    rw [← hdc'.map_fst, List.map_append, List.mem_append, hdc₁.map_fst, hfirst]
    by_cases hpair : ∃ ed, PairMajority votes total id ed
    · exact iff_of_true (.inl hpair) (.inl hpair)
    · apply or_congr_right
      constructor
      · intro hid
        obtain ⟨res, hres, rfl⟩ := List.mem_map.mp hid
        exact ((mem_rsaResults hdc).mp hres).2.1
      · intro hmaj
        have hout : id ∉ dc₁.allRsaSha1Lst := fun hin => hpair ((hfirst id).mp hin)
        exact List.mem_map.mpr ⟨(id, dc.byRsaSha1.row id),
          (mem_rsaResults hdc).mpr ⟨hout, hmaj, rfl⟩, rfl⟩
  · intro id hid ed hmaj
    obtain ⟨b, hres, hlookup⟩ := hdc'.result hid
    rw [Rows.row, hlookup, Option.getD_some]
    rcases List.mem_append.mp hres with hres | hres
    · obtain ⟨ed', hmaj', harr⟩ := (mem_pairResults hdc).mp hres
      rw [hmaj.unique htotal hmaj']
      exact harr
    · obtain ⟨hout, -, -⟩ := (mem_rsaResults hdc).mp hres
      exact absurd ((hfirst id).mpr ⟨ed, hmaj⟩) hout
  · intro id hid hno
    obtain ⟨b, hres, hlookup⟩ := hdc'.result hid
    rw [Rows.row, hlookup, Option.getD_some]
    rcases List.mem_append.mp hres with hres | hres
    · obtain ⟨ed, hmaj, -⟩ := (mem_pairResults hdc).mp hres
      exact absurd hmaj (hno ed)
    · obtain ⟨-, -, harr⟩ := (mem_rsaResults hdc).mp hres
      exact harr

variable (pairs ids) in
/-- The results in the order in which the caller goes over them. -/
theorem collate_spec (q : Qsort compareDigests) (htotal : votes.length ≤ total)
    (hdc : dc.Filed total votes.length (votes.map Vote.routerstatusList)) :
    ∃ dc' results, collate pairs ids q dc = some dc' ∧ Exact votes total results ∧
      dc'.nRouters = some results.length ∧ dc'.allRsaSha1Lst = results.map Prod.fst ∧
      ∀ idx (h : idx < results.length), dc'.getVotesForRouter idx = some results[idx].2 := by
  obtain ⟨dc₁, hcollate, hresults⟩ := collateByEd25519_spec pairs ids htotal hdc
  have hperm := q.perm dc₁.allRsaSha1Lst
  let results := (q.sort dc₁.allRsaSha1Lst).map fun id =>
    (id, Rows.row dc₁.byCollatedRsaSha1 id)
  have hids : results.map Prod.fst = q.sort dc₁.allRsaSha1Lst := by
    simp [results, Function.comp_def]
  have hmem : ∀ res ∈ results, res.1 ∈ dc₁.allRsaSha1Lst ∧
      res.2 = Rows.row dc₁.byCollatedRsaSha1 res.1 := by
    intro res hres
    obtain ⟨id, hid, rfl⟩ := List.mem_map.mp hres
    exact ⟨hperm.mem_iff.mp hid, rfl⟩
  have hexact : Exact votes total results := by
    constructor
    · exact hids ▸ hperm.nodup_iff.mpr hresults.once
    · exact hids ▸ q.sorted _
    · intro id
      rw [hids, hperm.mem_iff, hresults.mem]
    · intro res hres ed hmaj i hi
      obtain ⟨hin, hrow⟩ := hmem res hres
      rw [hrow, hresults.pair _ hin ed hmaj, mergeUnlisted_row hdc i hi]
    · intro res hres hno i hi
      obtain ⟨hin, hrow⟩ := hmem res hres
      rw [hrow, hresults.rsa _ hin hno, hdc.byRsaSha1.row _ i hi]
      simp [cells, hi]
  refine ⟨{ dc₁ with allRsaSha1Lst := q.sort dc₁.allRsaSha1Lst, isCollated := true }, results,
    ?_, hexact, by simp [nRouters, torAssert, results], hids.symm, fun idx h => ?_⟩
  · have hopen : torAssert ((!dc.isCollated) = true) = some () := by
      simp [torAssert, hdc.isCollated]
    rw [collate, hopen]
    simp only [Option.bind_eq_bind, Option.bind_some, hcollate]
    rfl
  · have hidx : idx < (q.sort dc₁.allRsaSha1Lst).length := by simpa [results] using h
    have hin := hperm.mem_iff.mp (List.getElem_mem hidx)
    simp [getVotesForRouter, torAssert, hidx, results, lookup_of_mem (hresults.lookup _ hin)]

end Dircollator

/-- The results are a function of the votes, whatever the maps' order and the sort, and no
assertion fails. -/
theorem dircollator_collate_exact (votes : List (Vote ρ)) (totalAuthorities : ℕ)
    (htotal : votes.length ≤ totalAuthorities) : ∃ results, Exact votes totalAuthorities results ∧
      ∀ pairs ids q, ∃ dc dc', ofVotes votes totalAuthorities = some dc ∧
        collate pairs ids q dc = some dc' ∧ dc'.nRouters = some results.length ∧
        dc'.allRsaSha1Lst = results.map Prod.fst ∧
        ∀ idx (h : idx < results.length), dc'.getVotesForRouter idx = some results[idx].2 := by
  obtain ⟨dc, hvotes, hdc⟩ := ofVotes_spec htotal
  obtain ⟨-, results, -, hexact, -⟩ := collate_spec ⟨fun l => l, List.Perm.refl⟩
    ⟨fun l => l, List.Perm.refl⟩ (stableQsort compareDigests) htotal hdc
  refine ⟨results, hexact, fun pairs ids q => ?_⟩
  obtain ⟨dc', results', hcollate, hexact', hrest⟩ :=
    collate_spec pairs ids q htotal hdc
  obtain rfl := hexact.unique hexact'
  exact ⟨dc, dc', hvotes, hcollate, hrest⟩

section Example

def exampleId (b : UInt8) : Digest := Digest.replicate b

def exampleEd (b : UInt8) : Digest256 := Digest256.replicate b

/-- Two votes that pair an RSA identity with the same ed25519 identity, and one that lists it
alone. -/
def exampleVotes : List (Vote Unit) :=
  [⟨[⟨exampleId 1, true, exampleEd 5, ()⟩], by simp⟩,
    ⟨[⟨exampleId 1, false, exampleEd 0, ()⟩], by simp⟩,
    ⟨[⟨exampleId 1, true, exampleEd 5, ()⟩], by simp⟩]

theorem dircollator_collate_exact_unlisted :
    PairMajority exampleVotes 3 (exampleId 1) (exampleEd 5) ∧
    ∃ results, Exact exampleVotes 3 results ∧
      ∀ pairs ids q, ∃ dc dc', ofVotes exampleVotes 3 = some dc ∧
        collate pairs ids q dc = some dc' ∧ dc'.nRouters = some results.length ∧
        dc'.allRsaSha1Lst = results.map Prod.fst ∧
        ∀ idx (h : idx < results.length), dc'.getVotesForRouter idx = some results[idx].2 :=
  ⟨by unfold PairMajority; decide, dircollator_collate_exact exampleVotes 3 (by decide)⟩

end Example

end TorDaemon.Dirvote

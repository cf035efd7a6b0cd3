import TorDaemon.Container.Smartlist
import TorDaemon.HiddenService.HsdirIndex
import TorDaemon.Library.Probing

/-! The HSDirs that are responsible for a descriptor (`hs_get_responsible_hsdirs`),
and that those for fetching are among those for storing. -/
namespace TorDaemon.HiddenService
open Container.Bsearch Library.NetworkOrder Library.Probing Library.Sorting SharedRandom

section ResponsibleHsdirs

section Comparisons
variable (index : Node → Digest256)

/-- The comparisons of two nodes, for the index in question. -/
def compareNodes (a b : Node) : Ordering := compare (index a).val (index b).val

/-- The comparisons of a key and a node. -/
def compareDigestTo (key : Digest256) (node : Node) : Ordering :=
  compare key.val (index node).val

instance : Std.TransCmp (compareNodes index) where
  eq_swap := Std.OrientedOrd.eq_swap
  isLE_trans := Std.TransOrd.isLE_trans

end Comparisons

def compareNodeFetchHsdirIndex := compareNodes fun n => n.hsdirIndex.fetch
def compareNodeStoreFirstHsdirIndex := compareNodes fun n => n.hsdirIndex.storeFirst
def compareNodeStoreSecondHsdirIndex := compareNodes fun n => n.hsdirIndex.storeSecond
def compareDigestToFetchHsdirIndex := compareDigestTo fun n => n.hsdirIndex.fetch
def compareDigestToStoreFirstHsdirIndex := compareDigestTo fun n => n.hsdirIndex.storeFirst
def compareDigestToStoreSecondHsdirIndex := compareDigestTo fun n => n.hsdirIndex.storeSecond

/-- The routerstatus list of a live consensus, with the nodes of a nodelist that is
fresh: every entry has its node, which points back at it. -/
structure Nodelist where
  routerstatusList : List Routerstatus
  nodeById : Digest → Option Node
  fresh : ∀ rs ∈ routerstatusList, ∃ n, nodeById rs.identityDigest = some n ∧ n.rs = rs

/-- Consensus parameters, the hash, and the sorting function for each comparison. -/
structure HsdirConfig where
  nReplicas : ℕ
  spreadFetch : ℕ
  spreadStore : ℕ
  timing : Timing
  sha3_256 : Bytes → Digest256
  sortFetch : Qsort compareNodeFetchHsdirIndex
  sortStoreFirst : Qsort compareNodeStoreFirstHsdirIndex
  sortStoreSecond : Qsort compareNodeStoreSecondHsdirIndex

def isZero (d : Digest256) : Bool := d.val.all (· = 0)

/-- `node_has_hsdir_index`, for a node that supports v3 HSDir. -/
def nodeHasHsdirIndex (n : Node) : Bool :=
  n.hasPreferredDescriptor && !isZero n.hsdirIndex.fetch && !isZero n.hsdirIndex.storeFirst &&
    !isZero n.hsdirIndex.storeSecond

/-- The nodes that the loop over the routerstatus list adds. A missing node is an assertion. -/
def hsdirNodes (nodeById : Digest → Option Node) : List Routerstatus → Option (List Node)
  | [] => some []
  | rs :: rest => do
    let n ← nodeById rs.identityDigest
    let nodes ← hsdirNodes nodeById rest
    return if n.supportsV3Hsdir && rs.isHsDir && nodeHasHsdirIndex n then n :: nodes else nodes

def hsBuildHsIndex (cfg : HsdirConfig) (replica : ℕ) (blindedPk : Ed25519PublicKey)
    (periodNum : ℕ) : Digest256 :=
  cfg.sha3_256 (ascii "store-at-idx" ++ blindedPk.val ++ bigEndian 8 replica ++
    bigEndian 8 cfg.timing.timePeriodLength ++ bigEndian 8 periodNum)

/-- The loop around the ring. -/
def addFrom (sorted : List Node) (start nToAdd : ℕ) :
    ℕ → ℕ → ℕ → List Routerstatus → Option (List Routerstatus)
  | 0, _, _, _ => none
  | fuel + 1, idx, nAdded, dirs =>
    if nAdded < nToAdd then
      match sorted[idx]? with
      | none => none
      | some node =>
        let dirs' := if node.rs ∈ dirs then dirs else dirs ++ [node.rs]
        let nAdded' := if node.rs ∈ dirs then nAdded else nAdded + 1
        let idx' := if idx + 1 = sorted.length then 0 else idx + 1
        if idx' = start then some dirs' else addFrom sorted start nToAdd fuel idx' nAdded' dirs'
    else some dirs

/-- One round of the loop over the replicas. -/
def addReplica (cfg : HsdirConfig) (blindedPk : Ed25519PublicKey) (timePeriodNum nToAdd : ℕ)
    (sorted : List Node) (cmp : Digest256 → Node → Ordering) (dirs : List Routerstatus)
    (replica : ℕ) : Option (List Routerstatus) := do
  let hsIndex := hsBuildHsIndex cfg replica blindedPk timePeriodNum
  let (idx, _) ← bsearchIdx sorted (cmp hsIndex)
  let start := if idx = sorted.length then 0 else idx
  addFrom sorted start nToAdd sorted.length start 0 dirs

/-- `hs_get_responsible_hsdirs`, with an empty list to add to. -/
def hsGetResponsibleHsdirs (cfg : HsdirConfig) (nodelist : Option Nodelist)
    (blindedPk : Ed25519PublicKey) (timePeriodNum : ℕ)
    (useSecondHsdirIndex forFetching : Bool) : Option (List Routerstatus) :=
  match nodelist with
  | none => some []
  | some c => do
    let nodes ← hsdirNodes c.nodeById c.routerstatusList
    if nodes.isEmpty then return []
    let (sorted, cmp) :=
      if forFetching then (cfg.sortFetch.sort nodes, compareDigestToFetchHsdirIndex)
      else if useSecondHsdirIndex then
        (cfg.sortStoreSecond.sort nodes, compareDigestToStoreSecondHsdirIndex)
      else (cfg.sortStoreFirst.sort nodes, compareDigestToStoreFirstHsdirIndex)
    let nToAdd := if forFetching then cfg.spreadFetch else cfg.spreadStore
    (List.range' 1 cfg.nReplicas).foldlM
      (addReplica cfg blindedPk timePeriodNum nToAdd sorted cmp) []

/-! ### The ring -/

variable {index index' : Node → Digest256} {nodes sorted : List Node}

theorem wrap_eq {i len : ℕ} (h : 0 < len) :
    (if i % len + 1 = len then 0 else i % len + 1) = (i + 1) % len := by
  have hlt := Nat.mod_lt i h
  rw [← Nat.mod_add_mod i len 1]
  split
  · rename_i hend
    rw [hend, Nat.mod_self]
  · exact (Nat.mod_eq_of_lt (by omega)).symm

/-- From `start` the loop meets the ring once, in the order of the rotated list. -/
theorem addFrom_eq {start n fuel k nAdded : ℕ} {dirs : List Routerstatus}
    (hstart : start < sorted.length) (hk : k < sorted.length) (hfuel : sorted.length ≤ fuel + k)
    (hn : nAdded ≤ n) : addFrom sorted start n fuel ((start + k) % sorted.length) nAdded dirs =
      some (probe (n - nAdded) dirs (((sorted.rotate start).drop k).map Node.rs)) := by
  induction fuel generalizing k nAdded dirs with
  | zero => omega
  | succ fuel ih =>
    rcases Nat.lt_or_eq_of_le hn with hlt | rfl
    · have hmod := Nat.mod_lt (start + k) (show 0 < sorted.length by omega)
      have hkr : k < (sorted.rotate start).length := by rwa [List.length_rotate]
      have hdrop := List.drop_eq_getElem_cons hkr
      rw [List.getElem_rotate, Nat.add_comm k start] at hdrop
      obtain ⟨m, hm⟩ : ∃ m, n - nAdded = m + 1 := ⟨n - nAdded - 1, by omega⟩
      simp only [addFrom, if_pos hlt, List.getElem?_eq_getElem hmod, hdrop, List.map_cons, hm,
        probe, wrap_eq (show 0 < sorted.length by omega)]
      -- the place after the last one is `start` again
      by_cases hlast : k + 1 = sorted.length
      · have hback : (start + k + 1) % sorted.length = start := by
          rw [Nat.add_assoc, hlast, Nat.add_mod_right, Nat.mod_eq_of_lt hstart]
        have hnil : (sorted.rotate start).drop (k + 1) = [] := by
          rw [hlast, ← List.length_rotate sorted start, List.drop_length]
        rw [if_pos hback, hnil]
        cases m <;> split <;> rfl
      · have hback : (start + k + 1) % sorted.length ≠ start := by
          intro heq
          rcases Nat.lt_or_ge (start + k + 1) sorted.length with hin | hover
          · rw [Nat.mod_eq_of_lt hin] at heq
            omega
          · rw [Nat.mod_eq_sub_mod hover, Nat.mod_eq_of_lt (by omega)] at heq
            omega
        rw [if_neg hback, Nat.add_assoc]
        split
        · rw [ih (by omega) (by omega) hn, hm]
        · rw [ih (by omega) (by omega) hlt, show n - (nAdded + 1) = m by omega]
    · cases hrest : ((sorted.rotate start).drop k).map Node.rs <;> simp [addFrom, probe]

theorem hsdirNodes_isSome {nodeById : Digest → Option Node} {l : List Routerstatus}
    (h : ∀ rs ∈ l, ∃ n, nodeById rs.identityDigest = some n ∧ n.rs = rs) :
    (hsdirNodes nodeById l).isSome := by
  induction l with
  | nil => rfl
  | cons rs l ih =>
    obtain ⟨n, hn, -⟩ := h rs (List.mem_cons_self ..)
    obtain ⟨rest, hrest⟩ := Option.isSome_iff_exists.mp
      (ih fun rs' hrs => h rs' (List.mem_cons_of_mem _ hrs))
    simp [hsdirNodes, hn, hrest]

/-- Distinct indices have one order, whichever of two equal indices is sorted by. -/
theorem sort_eq (q : Qsort (compareNodes index)) (q' : Qsort (compareNodes index'))
    (hindex : ∀ n ∈ nodes, index n = index' n) (hdistinct : (nodes.map index).Nodup) :
    q.sort nodes = q'.sort nodes := by
  have hperm : (q.sort nodes).Perm (q'.sort nodes) := (q.perm nodes).trans (q'.perm nodes).symm
  apply @sorted_unique _ (compareNodes index) _ _ _ (q.sorted nodes) _ hperm
  · intro a ha b hb heq
    have hab : index a = index b := Subtype.ext (Std.LawfulEqOrd.eq_of_compare heq)
    exact List.inj_on_of_nodup_map hdistinct ((q.perm nodes).mem_iff.mp ha)
      ((q.perm nodes).mem_iff.mp hb) hab
  · apply (q'.sorted nodes).imp_of_mem
    intro a b ha hb hle
    have ha' := hindex a ((q'.perm nodes).mem_iff.mp ha)
    have hb' := hindex b ((q'.perm nodes).mem_iff.mp hb)
    simpa only [compareNodes, ha', hb'] using hle

theorem ordered_of_sorted (key : Digest256)
    (h : sorted.Pairwise fun a b => (compareNodes index a b).isLE) :
    Ordered sorted (compareDigestTo index key) := by
  apply h.imp
  intro a b hab
  constructor
  · intro hlt
    exact Std.TransCmp.lt_of_lt_of_isLE hlt hab
  · intro hgt
    exact Std.TransCmp.gt_of_gt_of_isGE hgt (Std.OrientedCmp.isGE_iff_isLE.mpr hab)

/-! ### The replicas -/

section Replicas
variable {cfg : HsdirConfig} {blindedPk : Ed25519PublicKey} {timePeriodNum n : ℕ}
  {q : Qsort (compareNodes index)}

/-- The place on the ring where the search for a replica begins. -/
def startAt (cfg : HsdirConfig) (blindedPk : Ed25519PublicKey) (timePeriodNum : ℕ)
    (sorted : List Node) (cmp : Digest256 → Node → Ordering) (replica : ℕ) : ℕ :=
  match bsearchIdx sorted (cmp (hsBuildHsIndex cfg replica blindedPk timePeriodNum)) with
  | none => 0
  | some (idx, _) => if idx = sorted.length then 0 else idx

theorem addReplica_eq {dirs : List Routerstatus} {replica : ℕ} (hne : sorted ≠ [])
    (hsorted : sorted.Pairwise fun a b => (compareNodes index a b).isLE) :
    addReplica cfg blindedPk timePeriodNum n sorted (compareDigestTo index) dirs replica =
      some (probe n dirs ((sorted.map Node.rs).rotate
        (startAt cfg blindedPk timePeriodNum sorted (compareDigestTo index) replica))) := by
  have hord := ordered_of_sorted (hsBuildHsIndex cfg replica blindedPk timePeriodNum) hsorted
  obtain ⟨idx, found, hidx, hle⟩ := bsearchIdx_le hord
  have hpos := List.length_pos_iff.mpr hne
  have hstart : (if idx = sorted.length then 0 else idx) < sorted.length := by
    split <;> omega
  have hloop := @addFrom_eq sorted _ n _ 0 0 dirs hstart hpos (Nat.le_refl _) (Nat.zero_le n)
  rw [Nat.add_zero, Nat.mod_eq_of_lt hstart, Nat.sub_zero, List.drop_zero, List.map_rotate]
    at hloop
  simp [addReplica, startAt, hidx, hloop]

theorem replicas_eq (hne : nodes ≠ []) :
    (List.range' 1 cfg.nReplicas).foldlM (addReplica cfg blindedPk timePeriodNum n (q.sort nodes)
        (compareDigestTo index)) [] =
      some (probeAll ((q.sort nodes).map Node.rs) n (startAt cfg blindedPk timePeriodNum
        (q.sort nodes) (compareDigestTo index)) (List.range' 1 cfg.nReplicas)) := by
  have hsort : q.sort nodes ≠ [] := by
    intro hnil
    have hperm := q.perm nodes
    rw [hnil] at hperm
    exact hne hperm.nil_eq.symm
  have hstep : addReplica cfg blindedPk timePeriodNum n (q.sort nodes) (compareDigestTo index) =
      fun dirs replica => pure (probe n dirs (((q.sort nodes).map Node.rs).rotate
        (startAt cfg blindedPk timePeriodNum (q.sort nodes) (compareDigestTo index) replica))) := by
    funext dirs replica
    exact addReplica_eq hsort (q.sorted nodes)
  rw [hstep, List.foldlM_pure]
  rfl

/-- The two runs go around the same ring from the same places. -/
theorem replicas_subset {q' : Qsort (compareNodes index')}
    {m : ℕ} (hne : nodes ≠ []) (hindex : ∀ n ∈ nodes, index n = index' n)
    (hdistinct : (nodes.map index).Nodup) (hmn : m ≤ n) : ∃ dirs dirs',
      (List.range' 1 cfg.nReplicas).foldlM (addReplica cfg blindedPk timePeriodNum m
        (q.sort nodes) (compareDigestTo index)) [] = some dirs ∧
      (List.range' 1 cfg.nReplicas).foldlM (addReplica cfg blindedPk timePeriodNum n
        (q'.sort nodes) (compareDigestTo index')) [] = some dirs' ∧ dirs ⊆ dirs' := by
  have hsort := sort_eq q q' hindex hdistinct
  have hstart : startAt cfg blindedPk timePeriodNum (q'.sort nodes) (compareDigestTo index) =
      startAt cfg blindedPk timePeriodNum (q'.sort nodes) (compareDigestTo index') := by
    funext replica
    simp only [startAt]
    rw [bsearchIdx_congr]
    intro a ha
    rw [compareDigestTo, compareDigestTo, hindex a ((q'.perm nodes).mem_iff.mp ha)]
  refine ⟨_, _, replicas_eq hne, replicas_eq hne, ?_⟩
  rw [hsort, hstart]
  exact probeAll_mono _ hmn

end Replicas

/-- Every directory to fetch from is one to store to. -/
theorem responsibleHsdirs_fetch_subset_store (cfg : HsdirConfig) (c : Nodelist)
    (blindedPk : Ed25519PublicKey) (timePeriodNum : ℕ) (useSecond anyIndex : Bool)
    (hdistinct : ∀ nodes ∈ hsdirNodes c.nodeById c.routerstatusList,
      (nodes.map fun n => n.hsdirIndex.fetch).Nodup)
    (hindex : ∀ nodes ∈ hsdirNodes c.nodeById c.routerstatusList, ∀ n ∈ nodes,
      n.hsdirIndex.fetch =
        if useSecond then n.hsdirIndex.storeSecond else n.hsdirIndex.storeFirst)
    (hspread : cfg.spreadFetch ≤ cfg.spreadStore) : ∃ fetched stored,
      hsGetResponsibleHsdirs cfg (some c) blindedPk timePeriodNum anyIndex true = some fetched ∧
      hsGetResponsibleHsdirs cfg (some c) blindedPk timePeriodNum useSecond false = some stored ∧
      fetched ⊆ stored := by
  obtain ⟨nodes, hnodes⟩ := Option.isSome_iff_exists.mp (hsdirNodes_isSome c.fresh)
  have hdistinct := hdistinct nodes hnodes
  have hindex := hindex nodes hnodes
  simp only [hsGetResponsibleHsdirs, hnodes, Option.bind_eq_bind, Option.bind_some]
  by_cases hempty : nodes = []
  · exact ⟨[], [], by simp [hempty], by simp [hempty], List.Subset.refl _⟩
  · have hne : nodes.isEmpty = false := by simpa using hempty
    simp only [hne, Bool.false_eq_true, if_false, if_true]
    cases useSecond with
    | false => exact replicas_subset hempty hindex hdistinct hspread
    | true => exact replicas_subset hempty hindex hdistinct hspread

/-- A node with the same byte everywhere. -/
def plainNode (b : UInt8) : Node where
  rs := ⟨Digest.replicate b, true⟩
  supportsV3Hsdir := true
  hasPreferredDescriptor := true
  ed25519Id := none
  hsdirIndex := ⟨Digest256.replicate b, Digest256.replicate b,
    Digest256.replicate (b + 1)⟩

def plainNodelist : Nodelist where
  routerstatusList := [plainNode 7, plainNode 3, plainNode 5].map Node.rs
  nodeById d := [plainNode 7, plainNode 3, plainNode 5].find? fun n => n.rs.identityDigest = d
  fresh := by decide +kernel

def plainConfig : HsdirConfig where
  nReplicas := 2
  spreadFetch := 1
  spreadStore := 2
  timing := liveTiming
  sha3_256 b := Digest256.replicate (if b.length % 2 = 0 then 4 else 8)
  sortFetch := stableQsort (compareNodes fun n => n.hsdirIndex.fetch)
  sortStoreFirst := stableQsort (compareNodes fun n => n.hsdirIndex.storeFirst)
  sortStoreSecond := stableQsort (compareNodes fun n => n.hsdirIndex.storeSecond)

theorem responsibleHsdirs_fetch_subset_store_plain : ∃ fetched stored,
      hsGetResponsibleHsdirs plainConfig (some plainNodelist) ⟨List.replicate 32 1, by simp⟩ 9
          false true = some fetched ∧
      hsGetResponsibleHsdirs plainConfig (some plainNodelist) ⟨List.replicate 32 1, by simp⟩ 9
          false false = some stored ∧
      fetched ⊆ stored :=
  responsibleHsdirs_fetch_subset_store plainConfig plainNodelist ⟨List.replicate 32 1, by simp⟩ 9
    false false (by decide +kernel) (by decide +kernel) (by decide)

end ResponsibleHsdirs

/-! What `hs_get_responsible_hsdirs` selects: replica by replica, the first directories on a
walk around the ring that are not selected yet. -/

section Specification
variable (index : Node → Digest256) (ring : List Node)

/-- The nodes in the order in which they are met, from the first one that is not below the
key, or from the first one of all. -/
def clockwise (key : Digest256) : List Node :=
  ring.filter (fun node => compareDigestTo index key node ≠ .gt) ++
    ring.filter fun node => compareDigestTo index key node = .gt

/-- What the walk for one replica adds. -/
structure Selects (n : ℕ) (key : Digest256) (dirs dirs' : List Routerstatus) : Prop where
  added : dirs' = dirs ++ (((clockwise index ring key).map Node.rs).filter (· ∉ dirs)).take n
  whole : dirs'.length < dirs.length + n → ∀ node ∈ ring, node.rs ∈ dirs'

/-- The index that a node is sorted by. -/
def usedIndex (useSecondHsdirIndex forFetching : Bool) (node : Node) : Digest256 :=
  if forFetching then node.hsdirIndex.fetch
  else if useSecondHsdirIndex then node.hsdirIndex.storeSecond
  else node.hsdirIndex.storeFirst

def nodesToAdd (cfg : HsdirConfig) (forFetching : Bool) : ℕ :=
  if forFetching then cfg.spreadFetch else cfg.spreadStore

/-- The replicas select one after the other, `selected k` after the first `k` of them. -/
structure Walked (cfg : HsdirConfig) (blindedPk : Ed25519PublicKey) (timePeriodNum n : ℕ)
    (nodes : List Node) (selected : ℕ → List Routerstatus) : Prop where
  perm : ring.Perm nodes
  strict : ring.Pairwise fun a b => compareNodes index a b = .lt
  none_first : selected 0 = []
  selects : ∀ k < cfg.nReplicas, Selects index ring n
    (hsBuildHsIndex cfg (k + 1) blindedPk timePeriodNum) (selected k) (selected (k + 1))
  nodup : (selected cfg.nReplicas).Nodup

end Specification

section Walk
variable {index : Node → Digest256} {nodes ring : List Node} {cfg : HsdirConfig}
  {blindedPk : Ed25519PublicKey} {timePeriodNum n : ℕ}

theorem hsdirNodes_nodeById {nodeById : Digest → Option Node} {l : List Routerstatus}
    (hfresh : ∀ rs ∈ l, ∃ n, nodeById rs.identityDigest = some n ∧ n.rs = rs)
    (h : hsdirNodes nodeById l = some nodes) :
    ∀ n ∈ nodes, nodeById n.rs.identityDigest = some n := by
  induction l generalizing nodes with
  | nil =>
    cases h
    exact fun _ hn => by cases hn
  | cons rs l ih =>
    obtain ⟨node, hnode, hrs⟩ := hfresh rs (List.mem_cons_self ..)
    simp only [hsdirNodes, hnode, Option.bind_eq_bind, Option.bind_some] at h
    obtain ⟨rest, hrest, h⟩ := Option.bind_eq_some_iff.mp h
    have ih := ih (fun rs' hrs' => hfresh rs' (List.mem_cons_of_mem _ hrs')) hrest
    cases h
    intro n hn
    split at hn
    · rcases List.mem_cons.mp hn with rfl | hn
      · rw [hrs, hnode]
      · exact ih n hn
    · exact ih n hn

theorem sort_strict (q : Qsort (compareNodes index)) (hdistinct : (nodes.map index).Nodup) :
    (q.sort nodes).Pairwise fun a b => compareNodes index a b = .lt := by
  have hnodup : ((q.sort nodes).map index).Nodup := ((q.perm nodes).map index).nodup_iff.mpr hdistinct
  apply ((q.sorted nodes).and (List.pairwise_map.mp hnodup)).imp
  rintro a b ⟨hle, hne⟩
  cases hcmp : compareNodes index a b with
  | lt => rfl
  | eq => exact absurd (Subtype.ext (Std.LawfulEqOrd.eq_of_compare hcmp)) hne
  | gt => rw [hcmp] at hle; cases hle

theorem strictlyOrdered_of_strict (key : Digest256)
    (h : ring.Pairwise fun a b => compareNodes index a b = .lt) :
    StrictlyOrdered ring (compareDigestTo index key) := by
  apply h.imp
  intro a b hlt hb
  have hge : (compareDigestTo index key b).isGE := by
    cases hcmp : compareDigestTo index key b with
    | lt => exact absurd hcmp hb
    | eq | gt => rfl
  have hgt : compareNodes index b a = .gt := Std.OrientedCmp.gt_of_lt hlt
  exact Std.TransCmp.gt_of_isGE_of_gt hge hgt

/-- The place where the search ends is where the walk begins. -/
theorem rotate_startAt (replica : ℕ) (h : ring.Pairwise fun a b => compareNodes index a b = .lt) :
    ring.rotate (startAt cfg blindedPk timePeriodNum ring (compareDigestTo index) replica) =
      clockwise index ring (hsBuildHsIndex cfg replica blindedPk timePeriodNum) := by
  obtain ⟨i, found, hidx, hle, htake, hdrop⟩ := bsearchIdx_splits
    (strictlyOrdered_of_strict (hsBuildHsIndex cfg replica blindedPk timePeriodNum) h)
  rw [clockwise, ← htake, ← hdrop, startAt, hidx]
  dsimp only
  split
  · rename_i hend
    rw [List.rotate_zero, hend, List.drop_length, List.take_length, List.nil_append]
  · exact List.rotate_eq_drop_append_take hle

theorem clockwise_perm (key : Digest256) : (clockwise index ring key).Perm ring := by
  have hperm := List.filter_append_perm (fun node => compareDigestTo index key node ≠ .gt) ring
  simpa [clockwise] using hperm

theorem selects_probe {key : Digest256} (dirs : List Routerstatus)
    (hnodup : (ring.map Node.rs).Nodup) :
    Selects index ring n key dirs (probe n dirs ((clockwise index ring key).map Node.rs)) := by
  have hperm : (clockwise index ring key).Perm ring := clockwise_perm key
  have hwalk : ((clockwise index ring key).map Node.rs).Nodup :=
    (hperm.map Node.rs).nodup_iff.mpr hnodup
  have heq := probe_eq n dirs hwalk
  refine ⟨heq, fun hfewer node hnode => ?_⟩
  rw [heq] at hfewer ⊢
  have hall : ((((clockwise index ring key).map Node.rs).filter (· ∉ dirs)).take n) =
      ((clockwise index ring key).map Node.rs).filter (· ∉ dirs) := by
    apply List.take_of_length_le
    rw [List.length_append, List.length_take] at hfewer
    omega
  rw [hall, List.mem_append]
  by_cases hdirs : node.rs ∈ dirs
  · exact .inl hdirs
  · exact .inr (List.mem_filter.mpr
      ⟨List.mem_map_of_mem (hperm.mem_iff.mpr hnode), decide_eq_true hdirs⟩)

theorem replicas_walked (q : Qsort (compareNodes index)) (hne : nodes ≠ [])
    (hdistinct : (nodes.map index).Nodup) (hrs : (nodes.map Node.rs).Nodup) :
    ∃ ring selected, (List.range' 1 cfg.nReplicas).foldlM (addReplica cfg blindedPk timePeriodNum n
        (q.sort nodes) (compareDigestTo index)) [] = some (selected cfg.nReplicas) ∧
      Walked index ring cfg blindedPk timePeriodNum n nodes selected := by
  have hstrict := sort_strict q hdistinct
  refine ⟨q.sort nodes, fun k => probeAll ((q.sort nodes).map Node.rs) n
    (startAt cfg blindedPk timePeriodNum (q.sort nodes) (compareDigestTo index))
    (List.range' 1 k), replicas_eq hne, q.perm nodes, hstrict, rfl, fun k _ => ?_,
    probeAll_nodup _⟩
  rw [List.range'_concat, probeAll_concat, ← List.map_rotate, Nat.one_mul, Nat.add_comm 1 k,
    rotate_startAt (k + 1) hstrict]
  exact selects_probe _ (((q.perm nodes).map Node.rs).nodup_iff.mpr hrs)

/-- The search ends, and has selected replica by replica. -/
theorem hsGetResponsibleHsdirs_walked (cfg : HsdirConfig) (c : Nodelist)
    (blindedPk : Ed25519PublicKey) (timePeriodNum : ℕ) (useSecondHsdirIndex forFetching : Bool)
    (hnodes : hsdirNodes c.nodeById c.routerstatusList = some nodes) (hne : nodes ≠ [])
    (hdistinct : (nodes.map (usedIndex useSecondHsdirIndex forFetching)).Nodup) :
    ∃ ring selected, hsGetResponsibleHsdirs cfg (some c) blindedPk timePeriodNum
        useSecondHsdirIndex forFetching = some (selected cfg.nReplicas) ∧
      Walked (usedIndex useSecondHsdirIndex forFetching) ring cfg blindedPk timePeriodNum
        (nodesToAdd cfg forFetching) nodes selected := by
  have hempty : nodes.isEmpty = false := by simpa using hne
  have hrs : (nodes.map Node.rs).Nodup := by
    have hback := hsdirNodes_nodeById c.fresh hnodes
    refine List.Nodup.map_on ?_ hdistinct.of_map
    intro a ha b hb heq
    have hfound := hback a ha
    rw [heq, hback b hb] at hfound
    exact (Option.some.inj hfound).symm
  simp only [hsGetResponsibleHsdirs, hnodes, Option.bind_eq_bind, Option.bind_some, hempty,
    Bool.false_eq_true, if_false]
  cases forFetching with
  | true => exact replicas_walked cfg.sortFetch hne hdistinct hrs
  | false =>
    cases useSecondHsdirIndex with
    | true => exact replicas_walked cfg.sortStoreSecond hne hdistinct hrs
    | false => exact replicas_walked cfg.sortStoreFirst hne hdistinct hrs

theorem hsGetResponsibleHsdirs_walked_plain :
    ∃ ring selected, hsGetResponsibleHsdirs plainConfig (some plainNodelist)
        ⟨List.replicate 32 1, by simp⟩ 9 false false = some (selected plainConfig.nReplicas) ∧
      Walked (usedIndex false false) ring plainConfig ⟨List.replicate 32 1, by simp⟩ 9
        (nodesToAdd plainConfig false) [plainNode 7, plainNode 3, plainNode 5] selected :=
  hsGetResponsibleHsdirs_walked plainConfig plainNodelist ⟨List.replicate 32 1, by simp⟩ 9 false
    false (by rfl) (by simp) (by decide +kernel)

end Walk

end TorDaemon.HiddenService

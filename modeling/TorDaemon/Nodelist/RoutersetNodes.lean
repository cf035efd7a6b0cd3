import Mathlib.Data.List.Count
import TorDaemon.Nodelist.Routerset

/-! When the nodes that are listed for a set of relays are those that are in it
(`routerset_get_all_nodes`). -/
namespace TorDaemon.Nodelist
open Library.NetworkOrder Policies SharedRandom

/-- A node that is to be listed. -/
def wanted (geoip : Geoip) (routerset excludeset : Option Routerset) (runningOnly : Bool)
    (node : Node) : Bool :=
  (!runningOnly || node.isRunning) && routersetContainsNode geoip routerset node != 0 &&
    routersetContainsNode geoip excludeset node == 0

/-- A set with an address pattern that was added. -/
def Routerset.withPattern (set : Routerset) (entry : Bytes) (added : List Pattern) : Routerset :=
  { set with list := set.list ++ [entry], policies := set.policies ++ added }

/-- What is meant by the nodes of a set. -/
structure ListsRight (geoip : Geoip) (nodes : Nodes) (routerset excludeset : Option Routerset)
    (runningOnly : Bool) : Prop where
  exact : (routersetGetAllNodes geoip nodes routerset excludeset runningOnly).Perm
    (nodes.list.filter (wanted geoip routerset excludeset runningOnly))
  pattern : ∀ set ∈ routerset, ∀ entry added, added ≠ [] →
    (∀ node ∈ nodes.list,
      routersetContainsNode geoip (some (set.withPattern entry added)) node ≠ 0 ↔
        routersetContainsNode geoip (some set) node ≠ 0) →
    (routersetGetAllNodes geoip nodes (some (set.withPattern entry added)) excludeset
      runningOnly).Perm (routersetGetAllNodes geoip nodes routerset excludeset runningOnly)

/-- An entry names a node, by its identity, or by its nickname if it is the first node that has
it. -/
def Names (nodes : Nodes) (entry : Bytes) (node : Node) : Prop :=
  if isLegalHexdigest entry then
    qualifier entry ≠ some 61 ∧ base16Decode 20 (withoutDollar entry) = some node.identity
  else
    strcaseeq entry unnamedRouterNickname = false ∧
      nodes.list.find? (fun other => strcaseeq (nodeGetNickname other) entry) = some node

instance (nodes : Nodes) (entry : Bytes) (node : Node) : Decidable (Names nodes entry node) :=
  inferInstanceAs (Decidable (ite ..))

/-- What the parts of a set have to do with its list. -/
structure Consistent (set : Routerset) : Prop where
  digests : ∀ d, d ∈ set.digests ↔ ∃ entry ∈ set.list,
    isLegalHexdigest entry = true ∧ base16Decode 20 (withoutDollar entry) = some d
  names : ∀ name, name ∈ set.names ↔ ∃ entry ∈ set.list,
    isLegalHexdigest entry = false ∧ isLegalNickname entry = true ∧ name = entry.map toLower
  entries : routersetIsList set = true →
    ∀ entry ∈ set.list, isLegalHexdigest entry = true ∨ isLegalNickname entry = true
  countries : set.countryNames = [] → ∀ countries ∈ set.countries, ∀ b ∈ countries, b = false

section Built
variable {set : Routerset} {geoip : Geoip} {parseItem : ParseItem}

theorem routersetIsList_iff :
    routersetIsList set = true ↔ set.countryNames = [] ∧ set.policies = [] := by
  simp [routersetIsList]

theorem policyExpandUnspec_eq_nil {policies : List Pattern} :
    policyExpandUnspec policies = [] ↔ policies = [] := by
  constructor
  · intro h
    rw [policyExpandUnspec, List.flatMap_eq_nil_iff] at h
    refine List.eq_nil_iff_forall_not_mem.mpr fun p hp => ?_
    have hnil := h p hp
    split at hnil <;> cases hnil
  · rintro rfl
    rfl

/-- An entry that is put into the list, where neither an identity nor a nickname is. -/
theorem Consistent.other (h : Consistent set) {entry : Bytes} {set' : Routerset}
    (hlist : set'.list = set.list ++ [entry]) (hdigests : set'.digests = set.digests)
    (hnames : set'.names = set.names) (hcountries : set'.countries = set.countries)
    (hempty : set'.countryNames = [] → set.countryNames = [])
    (hhex : isLegalHexdigest entry = false) (hnick : isLegalNickname entry = false)
    (hnot : routersetIsList set' = false) : Consistent set' := by
  constructor
  · intro d
    rw [hdigests, hlist, h.digests]
    simp [or_and_right, exists_or, hhex]
  · intro name
    rw [hnames, hlist, h.names]
    simp [or_and_right, exists_or, hnick]
  · intro hlist'
    rw [hnot] at hlist'
    cases hlist'
  · intro hnone
    rw [hcountries]
    exact h.countries (hempty hnone)

theorem consistent_new : Consistent routersetNew := by
  constructor
  · simp [routersetNew]
  · simp [routersetNew]
  · simp [routersetNew]
  · simp [routersetNew]

theorem Consistent.addDigest (h : Consistent set) {nick : Bytes}
    (hhex : isLegalHexdigest nick = true) : Consistent { set with
      digests := set.digests ++ (base16Decode 20 (withoutDollar nick)).toList
      list := set.list ++ [nick] } := by
  constructor
  · intro d
    simp only [List.mem_append, Option.mem_toList, h.digests, List.mem_singleton]
    simp [or_and_right, exists_or, hhex]
  · intro name
    simp only [h.names, List.mem_append, List.mem_singleton]
    simp [or_and_right, exists_or, hhex]
  · intro hlist entry hentry
    rcases List.mem_append.mp hentry with hentry | hentry
    · exact h.entries hlist entry hentry
    · rw [List.mem_singleton.mp hentry]
      exact .inl hhex
  · exact h.countries

theorem Consistent.addName (h : Consistent set) {nick : Bytes}
    (hhex : isLegalHexdigest nick = false) (hnick : isLegalNickname nick = true) :
    Consistent { set with
      names := set.names ++ [nick.map toLower]
      list := set.list ++ [nick] } := by
  constructor
  · intro d
    simp only [h.digests, List.mem_append, List.mem_singleton]
    simp [or_and_right, exists_or, hhex]
  · intro name
    simp only [h.names, List.mem_append, List.mem_singleton]
    simp [or_and_right, exists_or, hhex, hnick]
  · intro hlist entry hentry
    rcases List.mem_append.mp hentry with hentry | hentry
    · exact h.entries hlist entry hentry
    · rw [List.mem_singleton.mp hentry]
      exact .inr hnick
  · exact h.countries

theorem consistent_parseEntry {state : Routerset × ℤ × Bool} (h : Consistent state.1)
    (nick : Bytes) (rest : List Bytes) :
    Consistent (routersetParseEntry parseItem state nick rest).1.1 := by
  unfold routersetParseEntry
  dsimp only at h ⊢
  split
  · rename_i hhex
    exact h.addDigest hhex
  rename_i hhex
  split
  · rename_i hnick
    exact h.addName (Bool.eq_false_iff.mpr hhex) hnick
  rename_i hnick
  split
  · refine h.other rfl rfl rfl rfl (fun hnil => ?_) (Bool.eq_false_iff.mpr hhex)
      (Bool.eq_false_iff.mpr hnick) ?_
    · exact absurd hnil (by simp)
    · simp [routersetIsList]
  split
  · split
    · refine h.other rfl rfl rfl rfl id (Bool.eq_false_iff.mpr hhex)
        (Bool.eq_false_iff.mpr hnick) ?_
      simp [routersetIsList]
    · exact h
  · exact h

section
variable (h : Consistent set)
include h

section
variable (geoip : Geoip)

theorem consistent_refresh : Consistent (routersetRefreshCountries geoip set) := by
  refine ⟨h.digests, h.names, h.entries, fun hnil countries hcountries => ?_⟩
  have hnil' : set.countryNames = [] := hnil
  simp only [routersetRefreshCountries, hnil', List.foldl_nil] at hcountries
  split at hcountries
  · cases hcountries
    exact fun b hb => (List.mem_replicate.mp hb).2
  · cases hcountries

theorem consistent_parse (parseItem : ParseItem) (s : Bytes) :
    Consistent (routersetParse geoip parseItem set s).1 := by
  have hloop : ∀ (turns : ℕ) (state : Routerset × ℤ × Bool) (nicks : List Bytes),
      Consistent state.1 → Consistent (routersetParseLoop parseItem turns state nicks).1 := by
    intro turns
    induction turns with
    | zero => exact fun _ _ hstate => hstate
    | succ turns ih =>
      intro state nicks hstate
      cases nicks with
      | nil => exact hstate
      | cons nick rest => exact ih _ _ (consistent_parseEntry hstate nick rest)
  have hexpand : ∀ target : Routerset, Consistent target →
      Consistent { target with policies := policyExpandUnspec target.policies } := by
    refine fun target htarget =>
      ⟨htarget.digests, htarget.names, fun hlist => htarget.entries ?_, htarget.countries⟩
    rw [routersetIsList_iff] at hlist ⊢
    exact ⟨hlist.1, policyExpandUnspec_eq_nil.mp hlist.2⟩
  unfold routersetParse
  dsimp only
  split
  · exact consistent_refresh (hexpand _ (hloop _ _ _ h)) geoip
  · exact hexpand _ (hloop _ _ _ h)

theorem consistent_addUnknownCcs (onlyIfSomeCcSet : Bool) :
    Consistent (routersetAddUnknownCcs geoip set onlyIfSomeCcSet) := by
  have hadd : ∀ target : Routerset, Consistent target → ∀ name entry : Bytes,
      isLegalHexdigest entry = false → isLegalNickname entry = false →
      Consistent { target with
        countryNames := target.countryNames ++ [name]
        list := target.list ++ [entry] } := by
    intro target htarget name entry hhex hnick
    refine htarget.other rfl rfl rfl rfl (fun hnil => absurd hnil (by simp)) hhex hnick ?_
    simp [routersetIsList]
  unfold routersetAddUnknownCcs
  dsimp only
  split
  · exact h
  have hunknown : ∀ p : Prop, [Decidable p] → Consistent (if p then
      { set with
        countryNames := set.countryNames ++ [ascii "??"]
        list := set.list ++ [ascii "\x7b??\x7d"] } else set) := by
    intro p _
    split
    · exact hadd set h _ _ (by decide) (by decide)
    · exact h
  split
  · refine consistent_refresh ?_ geoip
    split
    · exact hadd _ (hunknown _) _ _ (by decide) (by decide)
    · exact hunknown _
  · split
    · exact hadd _ (hunknown _) _ _ (by decide) (by decide)
    · exact hunknown _

end

end

theorem consistent_of_built (h : Built set) : Consistent set := by
  induction h with
  | new => exact consistent_new
  | parse geoip parseItem s _ ih => exact consistent_parse ih geoip parseItem s
  | refreshCountries geoip _ ih => exact consistent_refresh ih geoip
  | addUnknownCcs geoip onlyIfSomeCcSet _ ih =>
    exact consistent_addUnknownCcs ih geoip onlyIfSomeCcSet

end Built

section Lookup
variable {nodes : Nodes} {entry : Bytes} {node : Node} {geoip : Geoip} {set : Routerset}

theorem isLegalNickname_length (h : isLegalNickname entry = true) :
    entry.length ≤ maxNicknameLen := by
  simp only [isLegalNickname, decide_eq_true_eq] at h
  exact h.2.1

theorem withoutDollar_length (s : Bytes) : (withoutDollar s).length ≤ s.length := by
  unfold withoutDollar
  split
  · rw [List.length_tail]
    omega
  · exact le_rfl

theorem isLegalHexdigest_length (h : isLegalHexdigest entry = true) :
    hexDigestLen ≤ (withoutDollar entry).length ∧
      (withoutDollar entry).length ≤ hexDigestLen + 1 + maxNicknameLen ∧
      (hexDigestLen < (withoutDollar entry).length → isQualifier (qualifier entry) = true) := by
  simp only [isLegalHexdigest, decide_eq_true_eq] at h
  obtain ⟨hlong, hlen, -⟩ := h
  refine ⟨hlen, ?_, fun hlt => (hlong hlt).1⟩
  by_cases hlt : hexDigestLen < (withoutDollar entry).length
  · have hshort := isLegalNickname_length (hlong hlt).2
    rw [List.length_drop] at hshort
    omega
  · omega

theorem decode_hexdigest (h : isLegalHexdigest entry = true) : hexDigestNicknameDecode entry =
      (base16Decode 20 (withoutDollar entry)).map fun digest => (digest, qualifier entry) := by
  obtain ⟨hlen, hshort, hqualifier⟩ := isLegalHexdigest_length h
  unfold hexDigestNicknameDecode
  rw [if_neg (by omega), if_pos]
  rcases Nat.lt_or_eq_of_le hlen with hlt | heq
  · exact .inl ⟨hlt, hqualifier hlt, hshort⟩
  · exact .inr heq.symm

theorem decode_nickname (h : isLegalNickname entry = true) :
    hexDigestNicknameDecode entry = none := by
  have hshort := isLegalNickname_length h
  have hle := withoutDollar_length entry
  unfold maxNicknameLen at hshort
  unfold hexDigestNicknameDecode hexDigestLen
  rw [if_pos (by omega)]

theorem nodeGetNickname_legal (node : Node) : isLegalNickname (nodeGetNickname node) = true := by
  unfold nodeGetNickname
  have husable := node.usable
  cases hrs : node.rs with
  | some rs => exact rs.nickname_legal
  | none =>
    cases hri : node.ri with
    | some ri => exact ri.nickname_legal
    | none => simp [hrs, hri] at husable

theorem strcaseeq_length {a b : Bytes} (h : strcaseeq a b = true) : a.length = b.length := by
  have hmap := of_decide_eq_true h
  rw [← List.length_map (f := toLower), hmap, List.length_map]

theorem find?_identity (nodes : Nodes) (digest : Bytes) (node : Node) :
    nodeGetById nodes digest = some node ↔ node ∈ nodes.list ∧ node.identity = digest := by
  constructor
  · intro h
    exact ⟨List.mem_of_find?_eq_some h, by simpa using List.find?_some h⟩
  · rintro ⟨hmem, rfl⟩
    cases hfind : nodeGetById nodes node.identity with
    | none =>
      have hnone := List.find?_eq_none.mp hfind node hmem
      simp at hnone
    | some other =>
      have hid : other.identity = node.identity := by simpa using List.find?_some hfind
      exact congrArg some (List.inj_on_of_nodup_map nodes.unique
        (List.mem_of_find?_eq_some hfind) hmem hid)

section
variable (h : isLegalHexdigest entry = true)
include h

theorem nickname_ne_hexdigest (node : Node) : strcaseeq (nodeGetNickname node) entry = false := by
  rw [Bool.eq_false_iff]
  intro heq
  have hlen := strcaseeq_length heq
  have hshort := isLegalNickname_length (nodeGetNickname_legal node)
  have hlong := (isLegalHexdigest_length h).1
  have hle := withoutDollar_length entry
  unfold maxNicknameLen at hshort
  unfold hexDigestLen at hlong
  omega

theorem nodeGetByNickname_hexdigest :
    nodeGetByNickname nodes entry = nodeGetByHexId nodes entry := by
  unfold nodeGetByNickname
  cases hhex : nodeGetByHexId nodes entry with
  | some node => rfl
  | none =>
    have hnone : nodes.list.filter (fun node => strcaseeq (nodeGetNickname node) entry) = [] := by
      refine List.filter_eq_nil_iff.mpr fun node _ => ?_
      rw [nickname_ne_hexdigest h node]
      exact Bool.false_ne_true
    rw [hnone, List.head?_nil, ite_self]

theorem nodeGetByHexId_iff : nodeGetByHexId nodes entry = some node ↔
      node ∈ nodes.list ∧ qualifier entry ≠ some 61 ∧
        base16Decode 20 (withoutDollar entry) = some node.identity := by
  rw [nodeGetByHexId, decode_hexdigest h]
  cases hdecode : base16Decode 20 (withoutDollar entry) with
  | none => simp
  | some digest =>
    rw [Option.map_some, Option.bind_some, Option.bind_eq_some_iff]
    constructor
    · rintro ⟨other, hother, heq⟩
      obtain ⟨hmem, hid⟩ := (find?_identity nodes digest other).mp hother
      split at heq
      · cases heq
      · rename_i hqualifier
        cases heq
        exact ⟨hmem, hqualifier, congrArg some hid.symm⟩
    · rintro ⟨hmem, hqualifier, hid⟩
      refine ⟨node, (find?_identity nodes digest node).mpr ⟨hmem, ?_⟩, if_neg hqualifier⟩
      exact (Option.some_inj.mp hid).symm

end

theorem nodeGetByNickname_iff
    (h : isLegalHexdigest entry = true ∨ isLegalNickname entry = true) :
    nodeGetByNickname nodes entry = some node ↔
      node ∈ nodes.list ∧ Names nodes entry node := by
  by_cases hhex : isLegalHexdigest entry = true
  · rw [nodeGetByNickname_hexdigest hhex, nodeGetByHexId_iff hhex, Names, if_pos hhex]
  · have hnick := h.resolve_left hhex
    have hnone : nodeGetByHexId nodes entry = none := by
      rw [nodeGetByHexId, decode_nickname hnick]
      rfl
    rw [nodeGetByNickname, hnone, Names, if_neg hhex]
    rw [List.head?_filter]
    by_cases hunnamed : strcaseeq entry unnamedRouterNickname = true
    · simp [hunnamed]
    · rw [if_neg hunnamed, and_iff_right (Bool.eq_false_iff.mpr hunnamed)]
      exact ⟨fun hfind => ⟨List.mem_of_find?_eq_some hfind, hfind⟩, fun hfind => hfind.2⟩

theorem contains_of_mem
    (h : (nodeGetNickname node).map toLower ∈ set.names ∨ node.identity ∈ set.digests) :
    routersetContainsNode geoip (some set) node ≠ 0 := by
  have hcontains : ∀ addr orport second (nickname idDigest : Bytes) country,
      nickname.map toLower ∈ set.names ∨ idDigest ∈ set.digests →
      routersetContains2 geoip (some set) addr orport second nickname idDigest country ≠ 0 := by
    intro addr orport second nickname idDigest country hmem
    unfold routersetContains2
    dsimp only
    by_cases hname : nickname.map toLower ∈ set.names
    · rw [if_pos hname]
      decide
    · rw [if_neg hname, if_pos (hmem.resolve_left hname)]
      decide
  have husable := node.usable
  unfold nodeGetNickname at h
  unfold routersetContainsNode
  cases hrs : node.rs with
  | some rs =>
    rw [hrs] at h
    refine hcontains _ _ _ _ _ _ (h.imp id fun hid => ?_)
    rw [node.rs_identity rs hrs]
    exact hid
  | none =>
    cases hri : node.ri with
    | some ri =>
      rw [hrs, hri] at h
      refine hcontains _ _ _ _ _ _ (h.imp id fun hid => ?_)
      rw [node.ri_identity ri hri]
      exact hid
    | none => simp [hrs, hri] at husable

theorem Consistent.contains (h : Consistent set) (hlist : routersetIsList set = true)
    (hentry : entry ∈ set.list) (hnames : Names nodes entry node) :
    routersetContainsNode geoip (some set) node ≠ 0 := by
  apply contains_of_mem
  by_cases hhex : isLegalHexdigest entry = true
  · rw [Names, if_pos hhex] at hnames
    exact .inr ((h.digests _).mpr ⟨entry, hentry, hhex, hnames.2⟩)
  · rw [Names, if_neg hhex] at hnames
    have hnick := (h.entries hlist entry hentry).resolve_left hhex
    have hfound := List.find?_some hnames.2
    have heq : (nodeGetNickname node).map toLower = entry.map toLower := of_decide_eq_true hfound
    exact .inl ((h.names _).mpr ⟨entry, hentry, Bool.eq_false_iff.mpr hhex, hnick, heq⟩)

end Lookup

section Listed
variable {geoip : Geoip} {nodes : Nodes} {set : Routerset} {excludeset : Option Routerset}
  {runningOnly : Bool}

theorem nodes_nodup (nodes : Nodes) : nodes.list.Nodup := .of_map _ nodes.unique

theorem getAllNodes_scan (h : routersetIsList set = false) :
    routersetGetAllNodes geoip nodes (some set) excludeset runningOnly =
      nodes.list.filter (wanted geoip (some set) excludeset runningOnly) := by
  rw [routersetGetAllNodes, h, if_neg Bool.false_ne_true]
  rfl

theorem count_getAllNodes (hset : Consistent set) (h : routersetIsList set = true) {node : Node}
    (hnode : node ∈ nodes.list) :
    (routersetGetAllNodes geoip nodes (some set) excludeset runningOnly).count node =
      if (!runningOnly || node.isRunning) && routersetContainsNode geoip excludeset node == 0 then
        set.list.countP fun entry => Names nodes entry node
      else 0 := by
  have hcount : (set.list.filterMap (nodeGetByNickname nodes)).count node =
      set.list.countP fun entry => Names nodes entry node := by
    rw [List.count, List.countP_filterMap]
    apply List.countP_congr
    intro entry hentry
    have hiff : nodeGetByNickname nodes entry = some node ↔
        node ∈ nodes.list ∧ Names nodes entry node :=
      nodeGetByNickname_iff (hset.entries h entry hentry)
    rw [and_iff_right hnode] at hiff
    rw [decide_eq_true_eq, ← hiff]
    cases nodeGetByNickname nodes entry <;> simp
  rw [routersetGetAllNodes, if_pos h]
  split
  · rename_i hok
    exact (List.count_filter (p := fun node => (!runningOnly || node.isRunning) &&
      routersetContainsNode geoip excludeset node == 0) hok).trans hcount
  · rename_i hok
    rw [List.count_eq_zero]
    exact fun hmem => hok (List.mem_filter.mp hmem).2

theorem mem_of_mem_getAllNodes (hset : Consistent set) {node : Node}
    (h : node ∈ routersetGetAllNodes geoip nodes (some set) excludeset runningOnly) :
    node ∈ nodes.list := by
  by_cases hlist : routersetIsList set = true
  · rw [routersetGetAllNodes, if_pos hlist] at h
    obtain ⟨entry, hentry, hfound⟩ := List.mem_filterMap.mp (List.mem_of_mem_filter h)
    exact ((nodeGetByNickname_iff (hset.entries hlist entry hentry)).mp hfound).1
  · rw [getAllNodes_scan (Bool.eq_false_iff.mpr hlist)] at h
    exact List.mem_of_mem_filter h

/-- A pattern that changes no membership changes nothing that is listed, where what is listed is
right without it. -/
theorem pattern_of_exact (h : (routersetGetAllNodes geoip nodes (some set) excludeset
      runningOnly).Perm (nodes.list.filter (wanted geoip (some set) excludeset runningOnly)))
    (entry : Bytes) {added : List Pattern} (hadded : added ≠ []) (hsame : ∀ node ∈ nodes.list,
      routersetContainsNode geoip (some (set.withPattern entry added)) node ≠ 0 ↔
        routersetContainsNode geoip (some set) node ≠ 0) :
    (routersetGetAllNodes geoip nodes (some (set.withPattern entry added)) excludeset
      runningOnly).Perm (routersetGetAllNodes geoip nodes (some set) excludeset runningOnly) := by
  have hscan : routersetIsList (set.withPattern entry added) = false := by
    simp [routersetIsList, Routerset.withPattern, hadded]
  have hwanted : nodes.list.filter
      (wanted geoip (some (set.withPattern entry added)) excludeset runningOnly) =
        nodes.list.filter (wanted geoip (some set) excludeset runningOnly) := by
    refine List.filter_congr fun node hnode => ?_
    have hnode' : (routersetContainsNode geoip (some (set.withPattern entry added)) node != 0) =
        (routersetContainsNode geoip (some set) node != 0) := by
      rw [Bool.eq_iff_iff, bne_iff_ne, bne_iff_ne]
      exact hsame node hnode
    rw [wanted, wanted, hnode']
  rw [getAllNodes_scan hscan, hwanted]
  exact h.symm

/-- The lookup by name lists what is wanted exactly where each wanted node is named once. -/
theorem getAllNodes_perm_iff (hset : Consistent set) (hlist : routersetIsList set = true) :
    (routersetGetAllNodes geoip nodes (some set) excludeset runningOnly).Perm
        (nodes.list.filter (wanted geoip (some set) excludeset runningOnly)) ↔
      ∀ node ∈ nodes.list, wanted geoip (some set) excludeset runningOnly node = true →
        set.list.countP (fun entry => Names nodes entry node) = 1 := by
  have hwanted : ∀ node, wanted geoip (some set) excludeset runningOnly node = true ↔
      ((!runningOnly || node.isRunning) && routersetContainsNode geoip excludeset node == 0) =
        true ∧ routersetContainsNode geoip (some set) node ≠ 0 := by
    intro node
    simp only [wanted, Bool.and_eq_true, bne_iff_ne]
    tauto
  rw [List.perm_iff_count]
  constructor
  · intro h node hnode hwant
    have hcount := h node
    rw [count_getAllNodes hset hlist hnode, if_pos ((hwanted node).mp hwant).1,
      List.count_filter hwant, List.count_eq_one_of_mem (nodes_nodup nodes) hnode] at hcount
    exact hcount
  · intro h node
    by_cases hnode : node ∈ nodes.list
    · rw [count_getAllNodes hset hlist hnode]
      by_cases hwant : wanted geoip (some set) excludeset runningOnly node = true
      · rw [if_pos ((hwanted node).mp hwant).1, List.count_filter hwant,
          List.count_eq_one_of_mem (nodes_nodup nodes) hnode, h node hnode hwant]
      · rw [List.count_eq_zero.mpr fun hmem => hwant (List.mem_filter.mp hmem).2]
        split
        · rename_i hok
          refine List.countP_eq_zero.mpr fun entry hentry hnames => hwant ?_
          exact (hwanted node).mpr
            ⟨hok, hset.contains hlist hentry (of_decide_eq_true hnames)⟩
        · rfl
    · rw [List.count_eq_zero.mpr fun hmem => hnode (mem_of_mem_getAllNodes hset hmem),
        List.count_eq_zero.mpr fun hmem => hnode (List.mem_of_mem_filter hmem)]

/-- The nodes of a set are those that are listed, each once, exactly where the set has an address
or a country, or where each node that is wanted is named by exactly one of its entries. -/
theorem routersetGetAllNodes_right_iff (geoip : Geoip) (nodes : Nodes)
    (routerset : Option { set // Built set }) (excludeset : Option Routerset) (runningOnly : Bool) :
    ListsRight geoip nodes (routerset.map Subtype.val) excludeset runningOnly ↔
      ∀ set ∈ routerset, routersetIsList set.val = true → ∀ node ∈ nodes.list,
        wanted geoip (some set.val) excludeset runningOnly node = true →
          set.val.list.countP (fun entry => Names nodes entry node) = 1 := by
  cases routerset with
  | none =>
    refine iff_of_true ⟨?_, nofun⟩ nofun
    have hnone : ∀ node, routersetContainsNode geoip none node = 0 := by
      intro node
      unfold routersetContainsNode
      cases node.rs <;> cases node.ri <;> rfl
    have hempty : nodes.list.filter (wanted geoip none excludeset runningOnly) = [] := by
      refine List.filter_eq_nil_iff.mpr fun node _ => ?_
      simp [wanted, hnone]
    exact hempty ▸ .nil
  | some set =>
    have hset := consistent_of_built set.property
    simp only [Option.map_some, Option.mem_some_iff, forall_eq']
    have hexact : ListsRight geoip nodes (some set.val) excludeset runningOnly ↔
        (routersetGetAllNodes geoip nodes (some set.val) excludeset runningOnly).Perm
          (nodes.list.filter (wanted geoip (some set.val) excludeset runningOnly)) := by
      refine ⟨ListsRight.exact, fun h => ⟨h, ?_⟩⟩
      rintro _ ⟨⟩ entry added hadded hsame
      exact pattern_of_exact h entry hadded hsame
    rw [hexact]
    by_cases hlist : routersetIsList set.val = true
    · rw [forall_prop_of_true hlist]
      exact getAllNodes_perm_iff hset hlist
    · refine iff_of_true ?_ fun h => absurd h hlist
      rw [getAllNodes_scan (Bool.eq_false_iff.mpr hlist)]

/-- A running relay with the nickname `a`. -/
def relayNamedA (identity : Bytes) : Node where
  identity := identity
  rs := some ⟨ascii "a", identity, .inet 1, 9001, by decide⟩
  ri := none
  isRunning := true
  country := -1
  usable := .inl rfl
  rs_identity := by simp
  ri_identity := nofun

/-- Two relays with one nickname. -/
def twoNamedA : Nodes := ⟨[relayNamedA [1], relayNamedA [2]], by decide⟩

/-- The set that `a` stands for. -/
def setOfA : { set // Built set } :=
  ⟨(routersetParse noGeoip (fun _ => (none, true)) routersetNew (ascii "a")).1,
    .parse noGeoip _ _ .new⟩

/-- Of two relays with one nickname both are in the set, and the first is listed. -/
theorem routersetGetAllNodes_sharedNickname :
    ¬ListsRight noGeoip twoNamedA (some setOfA.val) none false := by
  intro h
  have hlen := h.exact.length_eq
  exact absurd hlen (by decide +kernel)

end Listed

end TorDaemon.Nodelist

import TorDaemon.Library.Sorting
import TorDaemon.Protover.RoundTrip

/-! The tally of protocol votes. A string counts for a name with the first entry it has
of that name, whatever its later entries say. -/
namespace TorDaemon.Protover
open Library.Sorting

section Model

/-- `strcmp`, for strings of characters that have one byte. -/
def strcmp (a b : List Char) : Ordering := compare a b

instance : Std.TransCmp strcmp where
  eq_swap := Std.OrientedOrd.eq_swap
  isLE_trans := Std.TransOrd.isLE_trans

def findEntryByName (protos : List ProtoEntry) (name : List Char) : Option ProtoEntry :=
  protos.find? fun ent => ent.name = name

/-- The names of the entries of a vote that are not in the list yet. -/
def addNames (names : List (List Char)) (vote : List ProtoEntry) : List (List Char) :=
  vote.foldl (fun names ent => if ent.name ∈ names then names else names ++ [ent.name]) names

def protoNames (parsed : List (List ProtoEntry)) : List (List Char) := parsed.foldl addNames []

/-- One of the counters for a name. It has eight bits. -/
def voteCount (parsed : List (List ProtoEntry)) (name : List Char) (version : ℕ) : UInt8 :=
  parsed.foldl (fun count vote =>
    match findEntryByName vote name with
    | none => count
    | some ent => if ent.bitmask.getLsbD version then count + 1 else count) 0

@[irreducible] def resultBitmask (parsed : List (List ProtoEntry)) (threshold : ℕ)
    (name : List Char) : BitVec 64 :=
  (List.range 64).foldl (fun mask i =>
    if threshold ≤ (voteCount parsed name i).toNat then mask ||| (1#64 <<< i) else mask) 0

def resultEntry (parsed : List (List ProtoEntry)) (threshold : ℕ) (name : List Char) :
    Option ProtoEntry :=
  if resultBitmask parsed threshold name ≠ 0 then
    some ⟨name, resultBitmask parsed threshold name⟩
  else none

/-- The entries of the result. -/
def voteResult (q : Qsort strcmp) (parsed : List (List ProtoEntry)) (threshold : ℕ) :
    List ProtoEntry :=
  (q.sort (protoNames parsed)).filterMap (resultEntry parsed threshold)

/-- `protover_compute_vote`; `none` is a failed assertion, or a mask that is not encoded. -/
def protoverComputeVote (q : Qsort strcmp) (votes : List (List Char)) (threshold : ℕ) :
    Option (List Char) :=
  if 256 ≤ votes.length then none
  else if votes = [] then some []
  else encodeProtocolList (voteResult q (votes.filterMap parseProtocolList) threshold)

end Model

section Names
variable {names : List (List Char)} {vote : List ProtoEntry} {parsed : List (List ProtoEntry)}
  {name : List Char}

theorem addNames_spec (vote : List ProtoEntry) (hnodup : names.Nodup) :
    (addNames names vote).Nodup ∧
    ∀ name, name ∈ addNames names vote ↔ name ∈ names ∨ ∃ ent ∈ vote, ent.name = name := by
  induction vote generalizing names with
  | nil => simp [addNames, hnodup]
  | cons ent vote ih =>
    by_cases hmem : ent.name ∈ names
    · obtain ⟨hnodup', hiff⟩ := ih hnodup
      have hstep : addNames names (ent :: vote) = addNames names vote := by
        simp [addNames, hmem]
      rw [hstep]
      refine ⟨hnodup', fun name => ?_⟩
      rw [hiff]
      simp only [List.mem_cons, exists_eq_or_imp]
      constructor
      · tauto
      · rintro (h | rfl | h)
        · exact .inl h
        · exact .inl hmem
        · exact .inr h
    · obtain ⟨hnodup', hiff⟩ := @ih (names ++ [ent.name]) (by
        rw [List.nodup_append]
        refine ⟨hnodup, by simp, ?_⟩
        simp only [List.mem_singleton, forall_eq]
        rintro a ha rfl
        exact hmem ha)
      have hstep : addNames names (ent :: vote) = addNames (names ++ [ent.name]) vote := by
        simp [addNames, hmem]
      rw [hstep]
      refine ⟨hnodup', fun name => ?_⟩
      rw [hiff]
      simp only [List.mem_append, List.mem_cons, List.not_mem_nil, or_false, exists_eq_or_imp,
        or_assoc, eq_comm (a := name)]

theorem foldl_addNames_spec (hnodup : names.Nodup) : (parsed.foldl addNames names).Nodup ∧
    ∀ name, name ∈ parsed.foldl addNames names ↔
      name ∈ names ∨ ∃ vote ∈ parsed, ∃ ent ∈ vote, ent.name = name := by
  induction parsed generalizing names with
  | nil => simp [hnodup]
  | cons vote parsed ih =>
    obtain ⟨hnodup', hiff⟩ := addNames_spec vote hnodup
    obtain ⟨hnodup'', hiff'⟩ := ih hnodup'
    refine ⟨hnodup'', fun name => ?_⟩
    simp only [List.foldl_cons, hiff', hiff, List.mem_cons, exists_eq_or_imp, or_assoc]

theorem protoNames_nodup (parsed : List (List ProtoEntry)) : (protoNames parsed).Nodup :=
  (foldl_addNames_spec List.nodup_nil).1

theorem mem_protoNames :
    name ∈ protoNames parsed ↔ ∃ vote ∈ parsed, ∃ ent ∈ vote, ent.name = name := by
  rw [protoNames, (foldl_addNames_spec List.nodup_nil).2]
  simp

end Names

section Counting
variable {parsed : List (List ProtoEntry)} {name : List Char} {version : ℕ}

/-- A vote lists a version under a name in the first entry it has of that name. -/
def listsFirst (name : List Char) (version : ℕ) (vote : List ProtoEntry) : Bool :=
  (findEntryByName vote name).any fun ent => ent.bitmask.getLsbD version

/-- A vote lists a version under a name in any of its entries. -/
def listsAnywhere (name : List Char) (version : ℕ) (vote : List ProtoEntry) : Bool :=
  vote.any fun ent => ent.name = name && ent.bitmask.getLsbD version

theorem listsAnywhere_of_first {vote : List ProtoEntry} (h : listsFirst name version vote = true) :
    listsAnywhere name version vote = true := by
  rw [listsFirst] at h
  cases hfind : findEntryByName vote name with
  | none => simp [hfind] at h
  | some ent =>
    have hname : ent.name = name := by simpa using List.find?_some hfind
    have hbit : ent.bitmask.getLsbD version = true := by simpa [hfind] using h
    exact List.any_eq_true.mpr ⟨ent, List.mem_of_find?_eq_some hfind, by simp [hname, hbit]⟩

theorem foldl_voteCount (count : UInt8) : (parsed.foldl (fun count vote =>
      match findEntryByName vote name with
      | none => count
      | some ent => if ent.bitmask.getLsbD version then count + 1 else count) count).toNat =
    (count.toNat + parsed.countP (listsFirst name version)) % 256 := by
  induction parsed generalizing count with
  | nil => simp [Nat.mod_eq_of_lt count.toNat_lt]
  | cons vote parsed ih =>
    rw [List.foldl_cons, ih, List.countP_cons]
    cases hfind : findEntryByName vote name with
    | none => simp [listsFirst, hfind]
    | some ent =>
      by_cases hbit : ent.bitmask.getLsbD version = true
      · simp [listsFirst, hfind, hbit, Nat.add_assoc, Nat.add_comm 1]
      · simp [listsFirst, hfind, hbit]

/-- With fewer than 256 votes the counter is the number of votes. -/
theorem voteCount_toNat (h : parsed.length < 256) :
    (voteCount parsed name version).toNat = parsed.countP (listsFirst name version) := by
  have hle := List.countP_le_length (p := listsFirst name version) (l := parsed)
  rw [voteCount, foldl_voteCount, UInt8.toNat_zero, Nat.zero_add, Nat.mod_eq_of_lt (by omega)]

theorem bit_getLsbD (i j : ℕ) : (1#64 <<< i).getLsbD j = decide (j < 64 ∧ j = i) := by
  grind

theorem foldl_bits {p : ℕ → Prop} [DecidablePred p] {l : List ℕ} {mask : BitVec 64} {j : ℕ} :
    (l.foldl (fun mask i => if p i then mask ||| (1#64 <<< i) else mask) mask).getLsbD j = true ↔
      mask.getLsbD j = true ∨ (j < 64 ∧ j ∈ l ∧ p j) := by
  induction l generalizing mask with
  | nil => simp
  | cons i l ih =>
    rw [List.foldl_cons, ih, List.mem_cons]
    by_cases hp : p i
    · rw [if_pos hp, BitVec.getLsbD_or, bit_getLsbD]
      grind
    · rw [if_neg hp]
      grind

theorem resultBitmask_getLsbD {threshold : ℕ} (h : parsed.length < 256) :
    (resultBitmask parsed threshold name).getLsbD version = true ↔
      version < 64 ∧ threshold ≤ parsed.countP (listsFirst name version) := by
  rw [resultBitmask, foldl_bits, voteCount_toNat h]
  simp +contextual

theorem countP_listsFirst_of_ge (h : 64 ≤ version) :
    parsed.countP (listsAnywhere name version) = 0 := by
  refine List.countP_eq_zero.mpr fun vote _ => ?_
  simp [listsAnywhere, BitVec.getLsbD_of_ge _ version h]

end Counting

section Tally
variable {q p : Qsort strcmp} {votes votes' : List (List Char)} {threshold : ℕ}
  {parsed : List (List ProtoEntry)} {parsed' : List (List ProtoEntry)}

theorem strcmp_eq_iff {a b : List Char} : strcmp a b = .eq ↔ a = b :=
  Std.LawfulEqOrd.compare_eq_iff_eq

theorem mem_voteResult {ent : ProtoEntry} : ent ∈ voteResult q parsed threshold ↔
    ent.name ∈ protoNames parsed ∧ ent.bitmask = resultBitmask parsed threshold ent.name ∧
      ent.bitmask ≠ 0 := by
  simp only [voteResult, List.mem_filterMap, (q.perm _).mem_iff, resultEntry,
    Option.ite_none_right_eq_some, Option.some.injEq]
  constructor
  · rintro ⟨name, hname, hmask, rfl⟩
    exact ⟨hname, rfl, hmask⟩
  · rintro ⟨hname, hmask, hne⟩
    exact ⟨ent.name, hname, fun hzero => hne (hmask.trans hzero), by rw [← hmask]⟩

theorem voteResult_names : (voteResult q parsed threshold).map ProtoEntry.name =
    (q.sort (protoNames parsed)).filter fun name => resultBitmask parsed threshold name ≠ 0 := by
  rw [voteResult, List.map_filterMap, ← List.filterMap_eq_filter]
  congr 1
  funext name
  by_cases hmask : resultBitmask parsed threshold name = 0#64 <;>
    simp [resultEntry, Option.guard, hmask]

/-- The names are in strict order, so that none is repeated. -/
theorem voteResult_sorted :
    ((voteResult q parsed threshold).map ProtoEntry.name).Pairwise fun a b => strcmp a b = .lt := by
  rw [voteResult_names]
  refine List.Pairwise.filter _ ?_
  have hnodup := (q.perm _).nodup_iff.mpr (protoNames_nodup parsed)
  refine (List.Pairwise.and (q.sorted (protoNames parsed)) hnodup).imp fun {a b} h => ?_
  obtain ⟨hle, hne⟩ := h
  cases hcmp : strcmp a b with
  | lt => rfl
  | eq => exact absurd (strcmp_eq_iff.mp hcmp) hne
  | gt => simp [hcmp] at hle

theorem find_listsAnywhere {name : List Char} {version : ℕ} {vote : List ProtoEntry}
    (h : listsAnywhere name version vote = true) : ∃ ent ∈ vote, ent.name = name := by
  obtain ⟨ent, hent, hlists⟩ := List.any_eq_true.mp h
  exact ⟨ent, hent, by simpa using (Bool.and_eq_true_iff.mp hlists).1⟩

theorem mem_protoNames_of_count {name : List Char} {version : ℕ} (hpos : 1 ≤ threshold)
    (h : threshold ≤ parsed.countP (listsAnywhere name version)) : name ∈ protoNames parsed := by
  obtain ⟨vote, hvote, hlists⟩ := List.countP_pos_iff.mp (Nat.lt_of_lt_of_le hpos h)
  exact mem_protoNames.mpr ⟨vote, hvote, find_listsAnywhere hlists⟩

theorem countP_first_le {name : List Char} {version : ℕ} :
    parsed.countP (listsFirst name version) ≤ parsed.countP (listsAnywhere name version) :=
  List.countP_mono_left fun _ _ => listsAnywhere_of_first

theorem voteResult_lists {name : List Char} {version : ℕ} (hpos : 1 ≤ threshold)
    (hlen : parsed.length < 256) :
    (∃ ent ∈ voteResult q parsed threshold, ent.name = name ∧ ent.bitmask.getLsbD version = true) ↔
      threshold ≤ parsed.countP (listsFirst name version) := by
  constructor
  · rintro ⟨ent, hent, rfl, hbit⟩
    obtain ⟨-, hmask, -⟩ := mem_voteResult.mp hent
    rw [hmask, resultBitmask_getLsbD hlen] at hbit
    exact hbit.2
  · intro h
    have hany := h.trans countP_first_le
    have hlt : version < 64 := by
      by_contra hge
      rw [countP_listsFirst_of_ge (by omega)] at hany
      omega
    have hbit := (resultBitmask_getLsbD hlen).mpr ⟨hlt, h⟩
    refine ⟨⟨name, resultBitmask parsed threshold name⟩, mem_voteResult.mpr
      ⟨mem_protoNames_of_count hpos hany, rfl, fun hzero => ?_⟩, rfl, hbit⟩
    simp only at hzero
    rw [hzero] at hbit
    simp at hbit

/-- The parseable strings. -/
def parseable (votes : List (List Char)) : List (List ProtoEntry) :=
  votes.filterMap parseProtocolList

theorem voteResult_legal (q : Qsort strcmp) (votes : List (List Char)) (threshold : ℕ) :
    ∀ e ∈ voteResult q (parseable votes) threshold, LegalName e.name := by
  intro e he
  obtain ⟨vote, hvote, ent, hent, hname⟩ := mem_protoNames.mp (mem_voteResult.mp he).1
  obtain ⟨s, -, hs⟩ := List.mem_filterMap.mp hvote
  exact hname ▸ parseProtocolList_legal hs ent hent

/-- What a vote is to return: each version that is listed often enough, under its name. -/
def Tallied (q : Qsort strcmp) (votes : List (List Char)) (threshold : ℕ) : Prop :=
  ∃ s sl, protoverComputeVote q votes threshold = some s ∧ parseProtocolList s = some sl ∧
    (sl.map ProtoEntry.name).Pairwise (fun a b => strcmp a b = .lt) ∧
    ∀ name version, (∃ ent ∈ sl, ent.name = name ∧ ent.bitmask.getLsbD version = true) ↔
      threshold ≤ (parseable votes).countP (listsAnywhere name version)

/-- A version that enough strings list anywhere is also one that enough strings list in
their first entry of its name, and no name has all 64 versions. -/
structure Unambiguous (votes : List (List Char)) (threshold : ℕ) : Prop where
  first : ∀ name version, threshold ≤ (parseable votes).countP (listsAnywhere name version) →
    threshold ≤ (parseable votes).countP (listsFirst name version)
  range : ∀ name, ∃ version < 64,
    (parseable votes).countP (listsAnywhere name version) < threshold

theorem protoverComputeVote_eq (hlen : votes.length < 256) : protoverComputeVote q votes threshold =
      encodeProtocolList (voteResult q (parseable votes) threshold) := by
  rw [protoverComputeVote, if_neg (by omega)]
  split_ifs with hnil
  · subst hnil
    have hsort : q.sort (protoNames []) = [] := (q.perm _).eq_nil
    rw [voteResult, parseable, List.filterMap_nil, hsort]
    rfl
  · rfl

theorem voteCount_perm (h : parsed.Perm parsed') (name : List Char) (version : ℕ) :
    voteCount parsed name version = voteCount parsed' name version := by
  refine UInt8.toNat_inj.mp ?_
  rw [voteCount, voteCount, foldl_voteCount, foldl_voteCount, h.countP_eq]

theorem voteResult_perm (h : parsed.Perm parsed') :
    voteResult q parsed threshold = voteResult p parsed' threshold := by
  have hmask : resultEntry parsed threshold = resultEntry parsed' threshold := by
    funext name
    simp only [resultEntry, resultBitmask, voteCount_perm h]
  have hnames : (protoNames parsed).Perm (protoNames parsed') := by
    rw [List.perm_ext_iff_of_nodup (protoNames_nodup _) (protoNames_nodup _)]
    intro name
    simp only [mem_protoNames, h.mem_iff]
  have hsort : q.sort (protoNames parsed) = p.sort (protoNames parsed') := by
    refine sorted_unique (q.sorted _) (p.sorted _)
      (((q.perm _).trans hnames).trans (p.perm _).symm) fun a _ b _ => strcmp_eq_iff.mp
  rw [voteResult, voteResult, hmask, hsort]

theorem protoverComputeVote_perm (h : votes.Perm votes') :
    protoverComputeVote q votes threshold = protoverComputeVote p votes' threshold := by
  by_cases hlen : votes.length < 256
  · have hperm : (parseable votes).Perm (parseable votes') := h.filterMap _
    rw [protoverComputeVote_eq hlen, protoverComputeVote_eq (h.length_eq ▸ hlen),
      voteResult_perm (p := p) hperm]
  · rw [protoverComputeVote, protoverComputeVote, ← h.length_eq, if_pos (by omega),
      if_pos (by omega)]

theorem protoverComputeVote_parseable (hlen : votes.length < 256) :
    protoverComputeVote q (votes.filter fun s => (parseProtocolList s).isSome) threshold =
      protoverComputeVote q votes threshold := by
  rw [protoverComputeVote_eq hlen, protoverComputeVote_eq
    (lt_of_le_of_lt (List.length_filter_le ..) hlen), parseable, List.filterMap_filter]
  congr 2
  refine List.filterMap_congr fun s _ => ?_
  cases parseProtocolList s <;> rfl

/-- An entry with all 64 versions comes of a name that reaches the threshold with each. -/
theorem voteResult_partial (q : Qsort strcmp) (hpos : 1 ≤ threshold) (hlen : parsed.length < 256) :
    (∀ e ∈ voteResult q parsed threshold, e.bitmask ≠ BitVec.allOnes 64) ↔
      ∀ name, ∃ version < 64, parsed.countP (listsFirst name version) < threshold := by
  constructor
  · intro h name
    by_contra hall
    push Not at hall
    obtain ⟨ent, hent, rfl, -⟩ := (voteResult_lists hpos hlen).mpr (hall 0 (by decide))
    obtain ⟨-, hmask, -⟩ := mem_voteResult.mp hent
    refine h ent hent (BitVec.eq_of_getLsbD_eq fun i hi => ?_)
    rw [hmask, (resultBitmask_getLsbD hlen).mpr ⟨hi, hall i hi⟩, BitVec.getLsbD_allOnes]
    simp [hi]
  · intro h e he hall
    obtain ⟨version, hlt, hcount⟩ := h e.name
    have hbit : e.bitmask.getLsbD version = true := by
      rw [hall, BitVec.getLsbD_allOnes]
      simpa using hlt
    have hlists := (voteResult_lists hpos hlen).mp ⟨e, he, rfl, hbit⟩
    omega

theorem tallied_iff (hpos : 1 ≤ threshold) (hlen : votes.length < 256) :
    Tallied q votes threshold ↔ Unambiguous votes threshold := by
  have hparsed : (parseable votes).length < 256 :=
    lt_of_le_of_lt (List.length_filterMap_le ..) hlen
  have hround := encode_parse (voteResult_legal q votes threshold)
  have hpartial := voteResult_partial q hpos hparsed
  rw [Tallied, protoverComputeVote_eq hlen]
  constructor
  · rintro ⟨s, sl, hencode, hparse, -, hlists⟩
    have hfull := encodeProtocolList_isSome.mp (Option.isSome_of_mem hencode)
    obtain ⟨t, ht, hback⟩ := hround.mpr hfull
    obtain rfl : s = t := Option.some.inj (hencode.symm.trans ht)
    cases hparse.symm.trans hback
    have hfirst (name : List Char) (version : ℕ)
        (hany : threshold ≤ (parseable votes).countP (listsAnywhere name version)) :
        threshold ≤ (parseable votes).countP (listsFirst name version) :=
      (voteResult_lists hpos hparsed).mp ((hlists name version).mpr hany)
    refine ⟨hfirst, fun name => ?_⟩
    obtain ⟨version, hlt, hcount⟩ := hpartial.mp hfull name
    exact ⟨version, hlt, by_contra fun hge => Nat.not_le.mpr hcount
      (hfirst name version (Nat.not_lt.mp hge))⟩
  · intro h
    have hfull := hpartial.mpr fun name => by
      obtain ⟨version, hlt, hcount⟩ := h.range name
      exact ⟨version, hlt, lt_of_le_of_lt countP_first_le hcount⟩
    obtain ⟨t, ht, hback⟩ := hround.mpr hfull
    refine ⟨t, _, ht, hback, voteResult_sorted, fun name version => ?_⟩
    rw [voteResult_lists hpos hparsed]
    exact ⟨fun hfirst => hfirst.trans countP_first_le, h.first name version⟩

/-- The vote is the exact tally, whatever the order of the strings and whatever strings do
not parse, where no version gets its majority from a repeated entry and no name has all
64 versions. -/
theorem protoverComputeVote_exact (q : Qsort strcmp) (votes : List (List Char)) (threshold : ℕ)
    (hpos : 1 ≤ threshold) (hlen : votes.length < 256) : (Tallied q votes threshold ∧
      (∀ (p : Qsort strcmp) (votes' : List (List Char)), votes.Perm votes' →
        protoverComputeVote q votes threshold = protoverComputeVote p votes' threshold) ∧
      protoverComputeVote q (votes.filter fun s => (parseProtocolList s).isSome) threshold =
        protoverComputeVote q votes threshold) ↔
    Unambiguous votes threshold := by
  rw [tallied_iff hpos hlen]
  exact ⟨fun h => h.1, fun h =>
    ⟨h, fun _ _ => protoverComputeVote_perm, protoverComputeVote_parseable hlen⟩⟩

/-- `L=1`, `L=1-2`, and a string that does not parse. -/
def twoVotes : List (List Char) :=
  [['L', '=', '1'], ['L', '=', '1', '-', '2'], ['L', '=', '2', ',']]

theorem parseable_twoVotes : parseable twoVotes = [[⟨['L'], 2⟩], [⟨['L'], 6⟩]] := by
  decide +kernel

theorem protoverComputeVote_exact_twoVotes :
    Unambiguous twoVotes 2 ∧ Tallied (stableQsort strcmp) twoVotes 2 := by
  have hvotes : Unambiguous twoVotes 2 := by
    refine ⟨fun name version hany => ?_, fun name => ⟨0, by decide, ?_⟩⟩
    · rw [parseable_twoVotes] at hany ⊢
      by_cases hname : ['L'] = name
      · simpa [List.countP_cons, listsAnywhere, listsFirst, findEntryByName, hname] using hany
      · simp [listsAnywhere, hname] at hany
    · rw [parseable_twoVotes]
      simp [listsAnywhere]
  exact ⟨hvotes, ((protoverComputeVote_exact (stableQsort strcmp) twoVotes 2 (by decide)
    (by decide)).mpr hvotes).1⟩

/-- A version in the second entry of a name does not count, and the mask of all versions
is not encoded. -/
theorem repeated_and_full_not_tallied :
    ¬ Tallied (stableQsort strcmp) [['L', '=', '1', ' ', 'L', '=', '2']] 1 ∧
      ¬ Tallied (stableQsort strcmp) [['L', '=', '0', '-', '6', '3']] 1 := by
  constructor
  · have hvote : protoverComputeVote (stableQsort strcmp)
        [['L', '=', '1', ' ', 'L', '=', '2']] 1 = some ['L', '=', '1'] := by decide +kernel
    have hparse : parseProtocolList ['L', '=', '1'] = some [⟨['L'], 2⟩] := by decide +kernel
    rintro ⟨s, sl, hs, hsl, -, hlists⟩
    obtain rfl := Option.some.inj (hvote.symm.trans hs)
    obtain rfl := Option.some.inj (hparse.symm.trans hsl)
    have hcount : 1 ≤ (parseable [['L', '=', '1', ' ', 'L', '=', '2']]).countP
        (listsAnywhere ['L'] 2) := by decide +kernel
    obtain ⟨ent, hent, -, hbit⟩ := (hlists ['L'] 2).mpr hcount
    obtain rfl := List.mem_singleton.mp hent
    exact absurd hbit (by decide)
  · have hvote : protoverComputeVote (stableQsort strcmp) [['L', '=', '0', '-', '6', '3']] 1 =
        none := by decide +kernel
    rintro ⟨s, sl, hs, -⟩
    exact absurd (hvote.symm.trans hs) (by simp)

end Tally

/-! Whether a protocol list supports a version, and whether it supports that version or a later
one. The first question looks at one entry, the second at all of them. -/

inductive ProtocolType
  | link
  | linkAuth
  | relay
  | dirCache
  | hsDir
  | hsIntro
  | hsRend
  | desc
  | microdesc
  | cons
  | padding
  | flowCtrl
  | conflux
  deriving DecidableEq

def protocolTypeToStr : ProtocolType → List Char
  | .link => "Link".toList
  | .linkAuth => "LinkAuth".toList
  | .relay => "Relay".toList
  | .dirCache => "DirCache".toList
  | .hsDir => "HSDir".toList
  | .hsIntro => "HSIntro".toList
  | .hsRend => "HSRend".toList
  | .desc => "Desc".toList
  | .microdesc => "Microdesc".toList
  | .cons => "Cons".toList
  | .padding => "Padding".toList
  | .flowCtrl => "FlowCtrl".toList
  | .conflux => "Conflux".toList

/-- `strcasecmp` finds no difference. -/
def strcaseEq (a b : List Char) : Bool := a.map Char.toLower = b.map Char.toLower

def protocolListContains (protos : List ProtoEntry) (pr : ProtocolType) (ver : ℕ) : Bool :=
  if maxProtocolVersion < ver then false
  else match findEntryByName protos (protocolTypeToStr pr) with
    | none => false
    | some ent => ent.bitmask &&& (1#64 <<< ver) ≠ 0

def protocolListSupportsProtocol (list : List Char) (tp : ProtocolType) (version : ℕ) : Bool :=
  match parseProtocolList list with
  | none => false
  | some protocols => protocolListContains protocols tp version

/-- `protocol_list_supports_protocol_or_later`. `none` is a shift by 64 or more in
`bitmask_for_range`, whose result is undefined. -/
def protocolListSupportsProtocolOrLater (list : List Char) (tp : ProtocolType) (version : ℕ) :
    Option Bool :=
  match parseProtocolList list with
  | none => some false
  | some protocols =>
    if maxProtocolVersion < version then none
    else some (protocols.any fun proto => strcaseEq proto.name (protocolTypeToStr tp) &&
      proto.bitmask &&& bitmaskForRange version 63 ≠ 0)

section Queries
variable {list : List Char} {tp : ProtocolType} {v : ℕ} {protos : List ProtoEntry}
  {ent : ProtoEntry}

/-- The entry lists the version or a later one. -/
def ProtoEntry.ListsFrom (ent : ProtoEntry) (v : ℕ) : Prop :=
  ∃ w, v ≤ w ∧ ent.bitmask.getLsbD w = true

theorem and_ne_zero_iff {a b : BitVec 64} :
    a &&& b ≠ 0 ↔ ∃ w, a.getLsbD w = true ∧ b.getLsbD w = true := by
  constructor
  · intro hne
    by_contra hnone
    apply hne
    apply BitVec.eq_of_getLsbD_eq
    intro w _
    rw [BitVec.getLsbD_and]
    cases ha : a.getLsbD w with
    | false => simp
    | true =>
      cases hb : b.getLsbD w with
      | false => simp
      | true => exact absurd ⟨w, ha, hb⟩ hnone
  · rintro ⟨w, ha, hb⟩ hzero
    have hbit := congrArg (fun x => x.getLsbD w) hzero
    simp [ha, hb] at hbit

theorem bit_ne_zero_iff {a : BitVec 64} (hv : v < 64) :
    a &&& (1#64 <<< v) ≠ 0 ↔ a.getLsbD v = true := by
  rw [and_ne_zero_iff]
  constructor
  · rintro ⟨w, ha, hw⟩
    have heq : w = v := by
      simp only [BitVec.getLsbD_shiftLeft, BitVec.getLsbD_one, Bool.and_eq_true,
        decide_eq_true_eq, Bool.not_eq_true', decide_eq_false_iff_not] at hw
      omega
    rwa [heq] at ha
  · intro ha
    have hbit : (1#64 <<< v).getLsbD v = true := by simp [hv]
    exact ⟨v, ha, hbit⟩

theorem range_ne_zero_iff : ent.bitmask &&& bitmaskForRange v 63 ≠ 0 ↔ ent.ListsFrom v := by
  rw [and_ne_zero_iff]
  apply exists_congr
  intro w
  rw [bitmaskForRange_getLsbD (by decide), and_comm]
  constructor
  · rintro ⟨hrange, hw⟩
    exact ⟨(of_decide_eq_true hrange).1, hw⟩
  · rintro ⟨hle, hw⟩
    have hlt := BitVec.lt_of_getLsbD hw
    exact ⟨decide_eq_true ⟨hle, by omega⟩, hw⟩

theorem protocolListContains_iff : protocolListContains protos tp v = true ↔
    ∃ ent, findEntryByName protos (protocolTypeToStr tp) = some ent ∧
      ent.bitmask.getLsbD v = true := by
  unfold protocolListContains
  by_cases hv : maxProtocolVersion < v
  · rw [if_pos hv]
    simp only [Bool.false_eq_true, false_iff]
    rintro ⟨ent, _, hbit⟩
    have hlt := BitVec.lt_of_getLsbD hbit
    unfold maxProtocolVersion at hv
    omega
  · have hlt : v < 64 := Nat.lt_succ_of_le (Nat.not_lt.mp hv)
    rw [if_neg hv]
    cases findEntryByName protos (protocolTypeToStr tp) with
    | none => simp
    | some ent => simpa using bit_ne_zero_iff hlt

theorem exists_contains_iff : (∃ w, v ≤ w ∧ w ≤ 63 ∧ protocolListContains protos tp w = true) ↔
      ∃ ent, findEntryByName protos (protocolTypeToStr tp) = some ent ∧ ent.ListsFrom v := by
  constructor
  · rintro ⟨w, hle, _, hcontains⟩
    obtain ⟨ent, hfind, hbit⟩ := protocolListContains_iff.mp hcontains
    exact ⟨ent, hfind, w, hle, hbit⟩
  · rintro ⟨ent, hfind, w, hle, hbit⟩
    have hlt := BitVec.lt_of_getLsbD hbit
    exact ⟨w, hle, by omega, protocolListContains_iff.mpr ⟨ent, hfind, hbit⟩⟩

/-- The two queries agree on a list, a protocol and a version. -/
def QueriesAgree (list : List Char) (tp : ProtocolType) (v : ℕ) : Prop :=
  ∃ later, protocolListSupportsProtocolOrLater list tp v = some later ∧
    (later = true ↔ ∃ w, v ≤ w ∧ w ≤ 63 ∧ protocolListSupportsProtocol list tp w = true)

/-- Where an entry with the name, in whatever letter case, lists the version or a later one, the
first entry with the name as it is spelled does. -/
def ListedFirst (protos : List ProtoEntry) (tp : ProtocolType) (v : ℕ) : Prop :=
  (∃ ent ∈ protos, strcaseEq ent.name (protocolTypeToStr tp) = true ∧ ent.ListsFrom v) →
    ∃ ent, findEntryByName protos (protocolTypeToStr tp) = some ent ∧ ent.ListsFrom v

theorem queriesAgree_of_parse (hparse : parseProtocolList list = some protos) :
    QueriesAgree list tp v ↔ v ≤ 63 ∧ ListedFirst protos tp v := by
  have hsupports : ∀ w, protocolListSupportsProtocol list tp w = protocolListContains protos tp w := by
    intro w
    unfold protocolListSupportsProtocol
    rw [hparse]
  unfold QueriesAgree protocolListSupportsProtocolOrLater
  simp only [hparse, hsupports, exists_contains_iff]
  by_cases hv : maxProtocolVersion < v
  · have hgt : ¬v ≤ 63 := Nat.not_le.mpr hv
    simp [hv, hgt]
  · have hle : v ≤ 63 := Nat.not_lt.mp hv
    simp only [if_neg hv, Option.some.injEq, exists_eq_left', hle, true_and]
    have hany : (protos.any fun proto => strcaseEq proto.name (protocolTypeToStr tp) &&
        decide (proto.bitmask &&& bitmaskForRange v 63 ≠ 0)) = true ↔
        ∃ ent ∈ protos, strcaseEq ent.name (protocolTypeToStr tp) = true ∧ ent.ListsFrom v := by
      rw [List.any_eq_true]
      apply exists_congr
      intro ent
      rw [Bool.and_eq_true, decide_eq_true_eq, range_ne_zero_iff]
    rw [hany]
    constructor
    · exact fun h => h.mp
    · intro hfirst
      constructor
      · exact hfirst
      · rintro ⟨ent, hfind, hlists⟩
        have hname : ent.name = protocolTypeToStr tp := by simpa using List.find?_some hfind
        have hcase : strcaseEq ent.name (protocolTypeToStr tp) = true := by
          rw [hname, strcaseEq, decide_eq_true rfl]
        exact ⟨ent, List.mem_of_find?_eq_some hfind, hcase, hlists⟩

/-- When the two queries agree, exactly. -/
theorem protocol_queries_agree_iff (list : List Char) (tp : ProtocolType) (v : ℕ) :
    QueriesAgree list tp v ↔ ∀ protos, parseProtocolList list = some protos →
      v ≤ 63 ∧ ListedFirst protos tp v := by
  cases hparse : parseProtocolList list with
  | none =>
    simp only [reduceCtorEq, false_implies, implies_true, iff_true]
    apply Exists.intro false
    unfold protocolListSupportsProtocolOrLater protocolListSupportsProtocol
    simp [hparse]
  | some protos =>
    rw [queriesAgree_of_parse hparse]
    simp

/-- A name in another letter case, and a name that is repeated. -/
theorem link_queries_disagree :
    (protocolListSupportsProtocolOrLater "link=5".toList .link 3 = some true ∧
      ∀ w ≤ 63, protocolListSupportsProtocol "link=5".toList .link w = false) ∧
    protocolListSupportsProtocolOrLater "Link=1 Link=5".toList .link 3 = some true ∧
      ∀ w ≤ 63, 3 ≤ w → protocolListSupportsProtocol "Link=1 Link=5".toList .link w = false := by
  decide +kernel

end Queries

end TorDaemon.Protover

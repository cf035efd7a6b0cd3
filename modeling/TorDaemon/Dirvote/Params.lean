import Mathlib.Data.List.Flatten
import TorDaemon.Dirvote.Versions
import TorDaemon.Library.Grouping

/-! The network parameters of a consensus (`dirvote_compute_params`), from `KEY=VALUE` strings that
are sorted as strings. -/
namespace TorDaemon.Dirvote
open Library.Grouping Library.NetworkOrder Library.Sorting Library.Tally SharedRandom

section Model

def strcmp (a b : Bytes) : Ordering := compare a b

instance : Std.TransCmp strcmp := inferInstanceAs (Std.TransCmp fun a b : Bytes => compare a b)

def minVotesForParam : ℕ := 3

def int32Min : ℤ := -2 ^ 31

/-- The `=` of a string, where there is one. -/
def strchrEq (s : Bytes) : Option ℕ := if 61 ∈ s then some (s.idxOf 61) else none

/-- `find_nth_int32` sorts, and fails where the list is too short. -/
def medianInt32 (vals : List ℤ) : Option ℤ :=
  (vals.insertionSort (· ≤ ·))[(vals.length - 1) / 2]?

/-- `%ld`. -/
def longString (v : ℤ) : Bytes :=
  if v < 0 then 45 :: decimalString v.natAbs else decimalString v.natAbs

/-- What a series adds to the output at its end. -/
def endOfSeries (totalAuthorities : ℕ) (vals : List ℤ) (curParam : Bytes) : Option (List Bytes) :=
  if totalAuthorities / 2 < vals.length ∨ minVotesForParam ≤ vals.length then
    (medianInt32 vals).map fun median => [curParam ++ longString median]
  else some []

/-- The loop over the sorted list, with the values of the series so far and the length of its
keyword with the `=`. -/
def paramsLoop (nVotes totalAuthorities : ℕ) (vals : List ℤ) (curParamLen : ℕ) :
    List Bytes → Option (List Bytes)
  | [] => some []
  | param :: rest => do
    let eq ← strchrEq param
    if nVotes ≤ vals.length then none
    let v ← torParseLong (param.drop (eq + 1)) int32Min int32Max
    let vals := vals ++ [v]
    match rest with
    | [] => endOfSeries totalAuthorities vals (param.take curParamLen)
    | nextParam :: _ =>
      if nextParam.take curParamLen ≠ param.take curParamLen then
        let out ← endOfSeries totalAuthorities vals (param.take curParamLen)
        let eq ← strchrEq nextParam
        let output ← paramsLoop nVotes totalAuthorities [] (eq + 1) rest
        some (out ++ output)
      else paramsLoop nVotes totalAuthorities vals curParamLen rest

/-- The parameters of all votes in one list. -/
def allParams (votes : List (Option (List Bytes))) : List Bytes := votes.flatMap (·.getD [])

/-- The sorted list from the start of a series. -/
def paramsFrom (nVotes totalAuthorities : ℕ) (paramList : List Bytes) : Option (List Bytes) :=
  match paramList with
  | [] => some []
  | curParam :: rest => do
    let eq ← strchrEq curParam
    paramsLoop nVotes totalAuthorities [] (eq + 1) (curParam :: rest)

/-- `none` is an assertion that fails. -/
def dirvoteComputeParams (q : Sorter strcmp) (votes : List (Option (List Bytes)))
    (totalAuthorities : ℕ) : Option (List Bytes) :=
  paramsFrom votes.length totalAuthorities (q.sort (allParams votes))

end Model

section Statement

/-- The keyword of a parameter, with the `=`. -/
def keywordEq (param : Bytes) : Bytes := param.take (param.idxOf 61 + 1)

def paramValue (param : Bytes) : Option ℤ :=
  torParseLong (param.drop (param.idxOf 61 + 1)) int32Min int32Max

/-- The keywords differ, and the values are numbers of 32 bits. -/
structure WellFormedParams (params : List Bytes) : Prop where
  unique : (params.map keywordEq).Nodup
  value : ∀ param ∈ params, 61 ∈ param ∧ (paramValue param).isSome

def votesOn (kw : Bytes) (vote : Option (List Bytes)) : Bool := (vote.getD []).any (keywordEq · = kw)

/-- The values that the votes give for the keyword. -/
def votedValues (votes : List (Option (List Bytes))) (kw : Bytes) : List ℤ :=
  ((allParams votes).filter (keywordEq · = kw)).filterMap paramValue

/-- More than half of the authorities vote on the keyword, or three votes do. -/
def EnoughVotes (votes : List (Option (List Bytes))) (totalAuthorities : ℕ) (kw : Bytes) : Prop :=
  totalAuthorities / 2 < votes.countP (votesOn kw) ∨ minVotesForParam ≤ votes.countP (votesOn kw)

/-- The output is in order and well-formed, and it gives the low median for just the keywords with
enough votes. -/
structure LowMedians (votes : List (Option (List Bytes))) (totalAuthorities : ℕ)
    (output : List Bytes) : Prop where
  sorted : output.Pairwise fun a b => strcmp a b = .lt
  wellFormed : WellFormedParams output
  entry : ∀ kw m, (∃ param ∈ output, keywordEq param = kw ∧ paramValue param = some m) ↔
    EnoughVotes votes totalAuthorities kw ∧ IsLowMedian (votedValues votes kw) m

end Statement

/-! The parameters that the loop over the sorted strings finds. -/

section ParamsMedians
variable {param s s' kw kw' k : Bytes} {vals : List ℤ} {nVotes totalAuthorities : ℕ}
  {votes votes' : List (Option (List Bytes))} {m : ℤ}

section Strings

theorem idxOf_eq_of_not_mem (h : 61 ∉ kw) (s : Bytes) : (kw ++ 61 :: s).idxOf 61 = kw.length := by
  rw [List.idxOf_append_of_notMem h, List.idxOf_cons_self, Nat.add_zero]

theorem exists_keyword (h : 61 ∈ param) : ∃ kw s : Bytes, 61 ∉ kw ∧ param = kw ++ 61 :: s := by
  obtain ⟨kw, s, rfl, hkw⟩ := List.eq_append_cons_of_mem h
  exact ⟨kw, s, hkw, rfl⟩

theorem keywordEq_append (h : 61 ∉ kw) (s : Bytes) : keywordEq (kw ++ 61 :: s) = kw ++ [61] := by
  rw [keywordEq, idxOf_eq_of_not_mem h]
  exact List.take_length_add_append 1

theorem paramValue_append (h : 61 ∉ kw) (s : Bytes) :
    paramValue (kw ++ 61 :: s) = torParseLong s int32Min int32Max := by
  rw [paramValue, idxOf_eq_of_not_mem h, List.drop_length_add_append]
  rfl

theorem keywordEq_length (h : 61 ∈ param) : strchrEq param = some ((keywordEq param).length - 1) ∧
    0 < (keywordEq param).length := by
  obtain ⟨kw, s, hkw, rfl⟩ := exists_keyword h
  rw [keywordEq_append hkw, strchrEq, if_pos h, idxOf_eq_of_not_mem hkw]
  simp

theorem take_eq_iff (h : 61 ∈ param) (hs : 61 ∈ s) :
    s.take (keywordEq param).length = keywordEq param ↔ keywordEq s = keywordEq param := by
  obtain ⟨kw, t, hkw, rfl⟩ := exists_keyword h
  obtain ⟨kw', t', hkw', rfl⟩ := exists_keyword hs
  rw [keywordEq_append hkw, keywordEq_append hkw']
  constructor
  · intro htake
    have hsplit := List.take_append_drop (kw ++ [61]).length (kw' ++ 61 :: t')
    rw [htake, List.append_assoc, List.singleton_append] at hsplit
    rw [← keywordEq_append hkw', ← hsplit, keywordEq_append hkw]
  · intro heq
    rw [← heq, List.length_append, List.length_singleton]
    exact List.take_length_add_append 1

/-- Different keywords that end with `=` decide the order of the strings. -/
theorem compare_keyword (h : 61 ∉ kw) (h' : 61 ∉ kw') (s s' : Bytes) :
    compare (kw ++ 61 :: s) (kw' ++ 61 :: s') =
      (compare (kw ++ [61]) (kw' ++ [61])).then (compare s s') := by
  induction kw generalizing kw' with
  | nil =>
    cases kw' with
    | nil => simp [List.compare_cons_cons]
    | cons c kw' =>
      have hne : compare (61 : UInt8) c ≠ .eq := fun heq =>
        h' (Std.LawfulEqOrd.eq_of_compare heq ▸ List.mem_cons_self)
      simp only [List.nil_append, List.cons_append, List.compare_cons_cons]
      cases hcmp : compare (61 : UInt8) c with
      | eq => exact absurd hcmp hne
      | lt => rfl
      | gt => rfl
  | cons c kw ih =>
    cases kw' with
    | nil =>
      have hne : compare c (61 : UInt8) ≠ .eq := fun heq =>
        h (Std.LawfulEqOrd.eq_of_compare heq ▸ List.mem_cons_self)
      simp only [List.nil_append, List.cons_append, List.compare_cons_cons]
      cases hcmp : compare c (61 : UInt8) with
      | eq => exact absurd hcmp hne
      | lt => rfl
      | gt => rfl
    | cons c' kw' =>
      rw [List.mem_cons, not_or] at h h'
      simp [ih h.2 h'.2, Ordering.then_assoc]

theorem compare_keywordEq (h : 61 ∈ s) (h' : 61 ∈ s') (hle : (strcmp s s').isLE) :
    (compare (keywordEq s) (keywordEq s')).isLE := by
  obtain ⟨kw, t, hkw, rfl⟩ := exists_keyword h
  obtain ⟨kw', t', hkw', rfl⟩ := exists_keyword h'
  rw [strcmp, compare_keyword hkw hkw'] at hle
  rw [keywordEq_append hkw, keywordEq_append hkw']
  cases hcmp : compare (kw ++ [61]) (kw' ++ [61]) with
  | lt => rfl
  | eq => rfl
  | gt => simp [hcmp] at hle

/-- What is printed is read back. -/
theorem torParseLong_longString {low high : ℤ} (hlow : low ≤ m) (hhigh : m ≤ high) :
    torParseLong (longString m) low high = some m := by
  have hdigits := decimalString_digits m.natAbs
  have hword := decimalString_isWord m.natAbs
  have htake := List.takeWhile_eq_self_iff.mpr hdigits
  have hdrop := List.dropWhile_eq_nil_iff.mpr hdigits
  have hspace := dropWhile_of_noSpace hword.noSpace
  have hhead : ∀ x, (decimalString m.natAbs).head? = some x → isDigit x = true := fun x hx =>
    hdigits x (List.mem_of_head? hx)
  have hminus : (decimalString m.natAbs).head? ≠ some 45 := fun h => absurd (hhead 45 h) (by decide)
  have hplus : (decimalString m.natAbs).head? ≠ some 43 := fun h => absurd (hhead 43 h) (by decide)
  have hparse : strtol (longString m) = some (m, []) := by
    unfold strtol longString
    split_ifs with hneg
    · have hsign : isSpace 45 = false := by decide
      simp [hsign, htake, hdrop, hword.nonempty, decimal_decimalString, abs_of_neg hneg]
    · simp [hspace, hminus, hplus, htake, hdrop, hword.nonempty, decimal_decimalString]
      omega
  simp [torParseLong, torParseLongNext, hparse, hlow, hhigh]

end Strings

section Series

/-- The parameters of one keyword. -/
structure IsSeries (k : Bytes) (series : List Bytes) : Prop where
  nonempty : series ≠ []
  keyword : ∀ param ∈ series, 61 ∈ param ∧ keywordEq param = k
  value : ∀ param ∈ series, (paramValue param).isSome

theorem IsSeries.tail {series : List Bytes} (h : IsSeries k (param :: series))
    (hne : series ≠ []) : IsSeries k series :=
  ⟨hne, fun p hp => h.keyword p (.tail _ hp), fun p hp => h.value p (.tail _ hp)⟩

theorem paramsLoop_cons {rest : List Bytes} (hlen : vals.length < nVotes) (heq : 61 ∈ param)
    (hm : paramValue param = some m) (curParamLen : ℕ) :
    paramsLoop nVotes totalAuthorities vals curParamLen (param :: rest) =
      match rest with
      | [] => endOfSeries totalAuthorities (vals ++ [m]) (param.take curParamLen)
      | nextParam :: _ =>
        if nextParam.take curParamLen ≠ param.take curParamLen then
          (endOfSeries totalAuthorities (vals ++ [m]) (param.take curParamLen)).bind fun out =>
            (strchrEq nextParam).bind fun eq =>
              (paramsLoop nVotes totalAuthorities [] (eq + 1) rest).bind fun output =>
                some (out ++ output)
        else paramsLoop nVotes totalAuthorities (vals ++ [m]) curParamLen rest := by
  have hvalue : torParseLong (param.drop (param.idxOf 61 + 1)) int32Min int32Max = some m := hm
  have hroom := Nat.not_le.mpr hlen
  cases rest with
  | nil => simp [paramsLoop, strchrEq, heq, hvalue, hroom]
  | cons next rest => simp [paramsLoop, strchrEq, heq, hvalue, hroom]

/-- A series is read up to its end, and what it adds comes before the output of the rest. -/
theorem paramsLoop_series {series rest : List Bytes} (h : IsSeries k series)
    (hlen : vals.length + series.length ≤ nVotes)
    (hrest : ∀ next ∈ rest.head?, 61 ∈ next ∧ keywordEq next ≠ k) :
    paramsLoop nVotes totalAuthorities vals k.length (series ++ rest) =
      (endOfSeries totalAuthorities (vals ++ series.filterMap paramValue) k).bind fun out =>
        (paramsFrom nVotes totalAuthorities rest).bind fun output => some (out ++ output) := by
  induction series generalizing vals with
  | nil => exact absurd rfl h.nonempty
  | cons param series ih =>
    obtain ⟨heq, rfl⟩ := h.keyword param List.mem_cons_self
    obtain ⟨m, hm⟩ := Option.isSome_iff_exists.mp (h.value param List.mem_cons_self)
    have htake := (take_eq_iff heq heq).mpr rfl
    rw [List.length_cons] at hlen
    rw [List.cons_append, paramsLoop_cons (by omega) heq hm, List.filterMap_cons_some hm]
    cases series with
    | nil =>
      rw [List.nil_append, List.filterMap_nil, htake]
      cases rest with
      | nil => simp [paramsFrom]
      | cons next rest =>
        obtain ⟨hnext, hne⟩ := hrest next rfl
        have hdiff : next.take (keywordEq param).length ≠ keywordEq param :=
          fun h' => hne ((take_eq_iff heq hnext).mp h')
        simp only [paramsFrom, Option.bind_eq_bind, Option.bind_assoc]
        rw [if_pos hdiff]
    | cons param' series =>
      obtain ⟨heq', hk'⟩ := h.keyword param' (.tail _ List.mem_cons_self)
      have hsame := (take_eq_iff heq heq').mpr hk'
      have htail := @ih (vals ++ [m]) (h.tail (List.cons_ne_nil _ _))
        (by rw [List.length_append, List.length_singleton]; omega)
      simp only [List.cons_append]
      rw [if_neg (by rw [htake]; exact not_not.mpr hsame)]
      rw [← List.cons_append, htail, List.append_assoc, List.singleton_append]

theorem medianInt32_isSome (h : vals ≠ []) : (medianInt32 vals).isSome := by
  have hpos := List.length_pos_iff.mpr h
  rw [medianInt32, List.getElem?_eq_getElem (by rw [List.length_insertionSort]; omega)]
  rfl

theorem medianInt32_isLowMedian (h : medianInt32 vals = some m) : IsLowMedian vals m := by
  have hsorted := List.pairwise_insertionSort (· ≤ ·) vals
  have hperm := List.perm_insertionSort (· ≤ ·) vals
  exact (isLowMedian_of_sorted hsorted (by rw [hperm.length_eq]) h).perm hperm

/-- What a series with these values adds. -/
def seriesOutput (totalAuthorities : ℕ) (vals : List ℤ) (k : Bytes) : List Bytes :=
  (endOfSeries totalAuthorities vals k).getD []

theorem endOfSeries_eq (h : vals ≠ []) :
    endOfSeries totalAuthorities vals k = some (seriesOutput totalAuthorities vals k) := by
  obtain ⟨m, hm⟩ := Option.isSome_iff_exists.mp (medianInt32_isSome h)
  unfold seriesOutput endOfSeries
  split_ifs
  · simp [hm]
  · rfl

theorem mem_seriesOutput : s ∈ seriesOutput totalAuthorities vals k ↔
    (totalAuthorities / 2 < vals.length ∨ minVotesForParam ≤ vals.length) ∧
      ∃ m, medianInt32 vals = some m ∧ s = k ++ longString m := by
  unfold seriesOutput endOfSeries
  split_ifs with henough
  · cases medianInt32 vals with
    | none => simp
    | some m => simp [henough]
  · simp [henough]

/-- Series of different keywords, one after the other. -/
theorem paramsFrom_flatMap {series : Bytes → List Bytes} (ks : List Bytes)
    (hks : ks.Pairwise (· ≠ ·)) (hseries : ∀ k ∈ ks, IsSeries k (series k))
    (hlen : ∀ k ∈ ks, (series k).length ≤ nVotes) :
    paramsFrom nVotes totalAuthorities (ks.flatMap series) =
      some (ks.flatMap fun k => seriesOutput totalAuthorities ((series k).filterMap paramValue) k) := by
  induction ks with
  | nil => rfl
  | cons k ks ih =>
    rw [List.pairwise_cons] at hks
    rw [List.forall_mem_cons] at hseries hlen
    have hrest := ih hks.2 hseries.2 hlen.2
    have hnext : ∀ next ∈ (ks.flatMap series).head?, 61 ∈ next ∧ keywordEq next ≠ k := by
      intro next hnext
      obtain ⟨k', hk', hmem⟩ := List.mem_flatMap.mp (List.mem_of_mem_head? hnext)
      obtain ⟨heq, hkey⟩ := (hseries.2 k' hk').keyword next hmem
      exact ⟨heq, fun h => hks.1 k' hk' (h.symm.trans hkey)⟩
    rw [List.flatMap_cons, List.flatMap_cons]
    obtain ⟨param, params, hparam⟩ := List.exists_cons_of_ne_nil hseries.1.nonempty
    obtain ⟨heq, hkey⟩ := hseries.1.keyword param (hparam ▸ List.mem_cons_self)
    obtain ⟨hindex, hpos⟩ := keywordEq_length heq
    have hvals : (series k).filterMap paramValue ≠ [] := by
      obtain ⟨m, hm⟩ := Option.isSome_iff_exists.mp
        (hseries.1.value param (hparam ▸ List.mem_cons_self))
      rw [hparam, List.filterMap_cons_some hm]
      exact List.cons_ne_nil _ _
    have hloop := @paramsLoop_series k [] nVotes totalAuthorities _ _ hseries.1
      (by simpa using hlen.1) hnext
    have hstart : paramsFrom nVotes totalAuthorities (series k ++ ks.flatMap series) =
        paramsLoop nVotes totalAuthorities [] k.length (series k ++ ks.flatMap series) := by
      rw [hparam, List.cons_append, paramsFrom, hindex, ← hkey]
      simp only [Option.bind_eq_bind, Option.bind_some]
      rw [Nat.sub_add_cancel hpos]
    rw [hstart, hloop, List.nil_append, endOfSeries_eq hvals, hrest]
    rfl

end Series

section Votes

theorem allParams_perm (h : votes.Perm votes') : (allParams votes).Perm (allParams votes') :=
  h.flatMap_right _

theorem length_filter_allParams (h : ∀ v ∈ votes, WellFormedParams (v.getD [])) (kw : Bytes) :
    ((allParams votes).filter (keywordEq · = kw)).length = votes.countP (votesOn kw) := by
  induction votes with
  | nil => rfl
  | cons v votes ih =>
    rw [List.forall_mem_cons] at h
    have hone : ((v.getD []).filter (keywordEq · = kw)).length = if votesOn kw v then 1 else 0 := by
      have hcount : ((v.getD []).filter (keywordEq · = kw)).length =
          ((v.getD []).map keywordEq).count kw := by
        rw [List.count, List.countP_map, ← List.countP_eq_length_filter]
        apply List.countP_congr
        intro p _
        simp
      have hle := List.nodup_iff_count_le_one.mp h.1.unique kw
      rw [hcount]
      split_ifs with hvote
      · obtain ⟨p, hp, hkw⟩ := List.any_eq_true.mp hvote
        have hmem : kw ∈ (v.getD []).map keywordEq :=
          List.mem_map.mpr ⟨p, hp, of_decide_eq_true hkw⟩
        have hpos := List.count_pos_iff.mpr hmem
        omega
      · rw [List.count_eq_zero]
        intro hmem
        obtain ⟨p, hp, hkw⟩ := List.mem_map.mp hmem
        exact hvote (List.any_eq_true.mpr ⟨p, hp, decide_eq_true hkw⟩)
    have hrest := ih h.2
    rw [allParams] at hrest ⊢
    rw [List.flatMap_cons, List.filter_append, List.length_append, hone, hrest, List.countP_cons]
    omega

theorem mem_allParams_value (h : ∀ v ∈ votes, WellFormedParams (v.getD []))
    (hp : param ∈ allParams votes) : 61 ∈ param ∧ (paramValue param).isSome := by
  obtain ⟨v, hv, hmem⟩ := List.mem_flatMap.mp hp
  exact (h v hv).value param hmem

theorem length_filterMap_value {l : List Bytes} (h : ∀ p ∈ l, (paramValue p).isSome) :
    (l.filterMap paramValue).length = l.length := by
  rw [List.length_filterMap_eq_countP, List.countP_eq_length]
  exact h

theorem length_votedValues (h : ∀ v ∈ votes, WellFormedParams (v.getD [])) (kw : Bytes) :
    (votedValues votes kw).length = votes.countP (votesOn kw) := by
  rw [votedValues, length_filterMap_value, length_filter_allParams h]
  exact fun p hp => (mem_allParams_value h (List.mem_of_mem_filter hp)).2

theorem paramValue_range (h : paramValue param = some m) : int32Min ≤ m ∧ m ≤ int32Max :=
  torParseLong_range h

variable (q : Sorter strcmp)

theorem exists_series (h : ∀ v ∈ votes, WellFormedParams (v.getD [])) :
    ∃ ks : List Bytes, ks.Pairwise (fun k k' => compare k k' = .lt) ∧
      (∀ k, k ∈ ks ↔ k ∈ (allParams votes).map keywordEq) ∧
      q.sort (allParams votes) =
        ks.flatMap fun k => (q.sort (allParams votes)).filter (keywordEq · = k) := by
  have hperm := q.perm (allParams votes)
  have hsorted := (q.sorted _ (consistent_of_transCmp (allParams votes))).imp_of_mem
    (fun {a b} ha hb hle => compare_keywordEq (mem_allParams_value h (hperm.mem_iff.mp ha)).1
      (mem_allParams_value h (hperm.mem_iff.mp hb)).1 hle)
  obtain ⟨ks, hks, hmem, heq⟩ := exists_keys hsorted
  exact ⟨ks, hks, fun k => (hmem k).trans (hperm.map keywordEq).mem_iff, heq⟩

theorem dirvoteComputeParams_perm (q' : Sorter strcmp) (h : votes.Perm votes') :
    dirvoteComputeParams q' votes' totalAuthorities =
      dirvoteComputeParams q votes totalAuthorities := by
  have hperm := ((q'.perm (allParams votes')).trans (allParams_perm h).symm).trans
    (q.perm (allParams votes)).symm
  have hsort : q'.sort (allParams votes') = q.sort (allParams votes) :=
    sorted_unique (q'.sorted _ (consistent_of_transCmp _)) (q.sorted _ (consistent_of_transCmp _))
      hperm fun _ _ _ _ heq => Std.LawfulEqOrd.eq_of_compare heq
  rw [dirvoteComputeParams, dirvoteComputeParams, hsort, h.length_eq]

end Votes

section Medians
variable {output : List Bytes}

/-- What a keyword with the values of its votes puts out. -/
structure Puts (votes : List (Option (List Bytes))) (totalAuthorities : ℕ) (k s : Bytes) : Prop where
  keyword : keywordEq s = k
  hasEq : 61 ∈ s
  enough : EnoughVotes votes totalAuthorities k
  value : ∃ m, paramValue s = some m ∧ IsLowMedian (votedValues votes k) m

theorem puts_of_mem (h : ∀ v ∈ votes, WellFormedParams (v.getD []))
    (hk : k ∈ (allParams votes).map keywordEq)
    (hvals : vals.Perm (votedValues votes k)) (hs : s ∈ seriesOutput totalAuthorities vals k) :
    Puts votes totalAuthorities k s := by
  obtain ⟨henough, m, hmedian, rfl⟩ := mem_seriesOutput.mp hs
  obtain ⟨p, hp, rfl⟩ := List.mem_map.mp hk
  obtain ⟨kw, t, hkw, rfl⟩ := exists_keyword (mem_allParams_value h hp).1
  rw [keywordEq_append hkw] at hvals ⊢
  have hmed := (medianInt32_isLowMedian hmedian).perm hvals
  obtain ⟨p', -, hp'⟩ := List.mem_filterMap.mp hmed.mem
  have hlen := hvals.length_eq.trans (length_votedValues h (kw ++ [61]))
  rw [List.append_assoc, List.singleton_append]
  refine ⟨keywordEq_append hkw _, by simp, ?_, m, ?_, hmed⟩
  · rwa [EnoughVotes, ← hlen]
  rw [paramValue_append hkw]
  exact torParseLong_longString (paramValue_range hp').1 (paramValue_range hp').2

theorem pairwise_seriesOutput {R : Bytes → Bytes → Prop} :
    (seriesOutput totalAuthorities vals k).Pairwise R := by
  unfold seriesOutput endOfSeries
  split_ifs
  · cases medianInt32 vals <;> simp
  · exact .nil

theorem distinct_of_sorted {ks : List Bytes}
    (hks : ks.Pairwise fun k k' => compare k k' = .lt) : ks.Pairwise (· ≠ ·) := by
  refine hks.imp fun {k k'} hlt => ?_
  rintro rfl
  rw [(Std.ReflCmp.compare_self : compare k k = .eq)] at hlt
  cases hlt

/-- The call puts out what each keyword gives, in the order of the keywords. -/
theorem exists_outputs (q : Sorter strcmp) (h : ∀ v ∈ votes, WellFormedParams (v.getD [])) :
    ∃ (ks : List Bytes) (values : Bytes → List ℤ),
      ks.Pairwise (fun k k' => compare k k' = .lt) ∧
      (∀ k, k ∈ ks ↔ k ∈ (allParams votes).map keywordEq) ∧
      (∀ k, (values k).Perm (votedValues votes k)) ∧
      dirvoteComputeParams q votes totalAuthorities =
        some (ks.flatMap fun k => seriesOutput totalAuthorities (values k) k) := by
  obtain ⟨ks, hks, hmem, heq⟩ := exists_series q h
  have hperm := q.perm (allParams votes)
  have hvalue : ∀ p ∈ q.sort (allParams votes), 61 ∈ p ∧ (paramValue p).isSome := fun p hp =>
    mem_allParams_value h (hperm.mem_iff.mp hp)
  refine ⟨ks, _, hks, hmem, fun k => (hperm.filter (keywordEq · = k)).filterMap paramValue, ?_⟩
  rw [dirvoteComputeParams]
  conv_lhs => rw [heq]
  apply paramsFrom_flatMap ks (distinct_of_sorted hks)
  · intro k hk
    obtain ⟨p, hp, hkey⟩ := List.mem_map.mp ((hmem k).mp hk)
    constructor
    · exact List.ne_nil_of_mem (List.mem_filter.mpr ⟨hperm.mem_iff.mpr hp, decide_eq_true hkey⟩)
    · intro p hp
      obtain ⟨hp, hkey⟩ := List.mem_filter.mp hp
      exact ⟨(hvalue p hp).1, of_decide_eq_true hkey⟩
    · exact fun p hp => (hvalue p (List.mem_of_mem_filter hp)).2
  · intro k _
    rw [(hperm.filter _).length_eq, length_filter_allParams h]
    exact List.countP_le_length

theorem lowMedians_of_outputs (h : ∀ v ∈ votes, WellFormedParams (v.getD [])) {ks : List Bytes}
    {values : Bytes → List ℤ} (hks : ks.Pairwise fun k k' => compare k k' = .lt)
    (hmem : ∀ k, k ∈ ks ↔ k ∈ (allParams votes).map keywordEq)
    (hvals : ∀ k, (values k).Perm (votedValues votes k)) : LowMedians votes totalAuthorities
      (ks.flatMap fun k => seriesOutput totalAuthorities (values k) k) := by
  have hputs : ∀ k ∈ ks, ∀ s ∈ seriesOutput totalAuthorities (values k) k,
      Puts votes totalAuthorities k s := fun k hk s hs => puts_of_mem h ((hmem k).mp hk) (hvals k) hs
  constructor
  · rw [List.pairwise_flatMap]
    refine ⟨fun k _ => pairwise_seriesOutput,
      hks.imp_of_mem fun {k k'} hk hk' hlt s hs s' hs' => ?_⟩
    have hp := hputs k hk s hs
    have hp' := hputs k' hk' s' hs'
    obtain ⟨kw, t, hkw, rfl⟩ := exists_keyword hp.hasEq
    obtain ⟨kw', t', hkw', rfl⟩ := exists_keyword hp'.hasEq
    rw [strcmp, compare_keyword hkw hkw', ← keywordEq_append hkw t, ← keywordEq_append hkw' t',
      hp.keyword, hp'.keyword, hlt]
    rfl
  · constructor
    · rw [List.Nodup, List.pairwise_map, List.pairwise_flatMap]
      refine ⟨fun k _ => pairwise_seriesOutput,
        (distinct_of_sorted hks).imp_of_mem fun {k k'} hk hk' hne s hs s' hs' => ?_⟩
      rw [(hputs k hk s hs).keyword, (hputs k' hk' s' hs').keyword]
      exact hne
    · intro s hs
      obtain ⟨k, hk, hs⟩ := List.mem_flatMap.mp hs
      obtain ⟨m, hm, -⟩ := (hputs k hk s hs).value
      exact ⟨(hputs k hk s hs).hasEq, by simp [hm]⟩
  · intro kw m
    constructor
    · rintro ⟨s, hs, rfl, hm⟩
      obtain ⟨k, hk, hs⟩ := List.mem_flatMap.mp hs
      have hp := hputs k hk s hs
      obtain ⟨m', hm', hmedian⟩ := hp.value
      rw [hm] at hm'
      rw [hp.keyword, Option.some.inj hm']
      exact ⟨hp.enough, hmedian⟩
    · rintro ⟨henough, hmedian⟩
      obtain ⟨p, hp, -⟩ := List.mem_filterMap.mp hmedian.mem
      obtain ⟨hp, hkey⟩ := List.mem_filter.mp hp
      have hk : kw ∈ ks := (hmem kw).mpr (List.mem_map.mpr ⟨p, hp, of_decide_eq_true hkey⟩)
      have hne : values kw ≠ [] := List.ne_nil_of_mem ((hvals kw).mem_iff.mpr hmedian.mem)
      obtain ⟨m', hm'⟩ := Option.isSome_iff_exists.mp (medianInt32_isSome hne)
      have hlength : (values kw).length = votes.countP (votesOn kw) :=
        (hvals kw).length_eq.trans (length_votedValues h kw)
      have hs : kw ++ longString m' ∈ seriesOutput totalAuthorities (values kw) kw :=
        mem_seriesOutput.mpr ⟨hlength ▸ henough, m', hm', rfl⟩
      have hputs' := hputs kw hk _ hs
      obtain ⟨m'', hm'', hmedian''⟩ := hputs'.value
      refine ⟨_, List.mem_flatMap.mpr ⟨kw, hk, hs⟩, hputs'.keyword, ?_⟩
      rw [hm'', hmedian''.unique hmedian]

/-- The output is sorted, and it gives the low medians of just the keywords with enough votes, for
every order of the votes. -/
theorem dirvoteComputeParams_lowMedians (q : Sorter strcmp) (votes : List (Option (List Bytes)))
    (totalAuthorities : ℕ) (h : ∀ v ∈ votes, WellFormedParams (v.getD [])) :
    ∃ output, dirvoteComputeParams q votes totalAuthorities = some output ∧
      LowMedians votes totalAuthorities output ∧
      ∀ (q' : Sorter strcmp) (votes' : List (Option (List Bytes))), votes.Perm votes' →
        dirvoteComputeParams q' votes' totalAuthorities = some output := by
  obtain ⟨ks, values, hks, hmem, hvals, hrun⟩ := exists_outputs q h
  refine ⟨_, hrun, lowMedians_of_outputs h hks hmem hvals, fun q' votes' hvotes => ?_⟩
  rw [dirvoteComputeParams_perm q q' hvotes, hrun]

/-- Two votes on one keyword, which begins another, and a vote without parameters. -/
theorem dirvoteComputeParams_lowMedians_two :
    let votes := [some [ascii "cc=-5", ascii "cc_alg=2"], none, some [ascii "cc=7"]]
    ∃ output, dirvoteComputeParams (stableSorter strcmp) votes 3 = some output ∧
      LowMedians votes 3 output ∧
      ∀ (q' : Sorter strcmp) (votes' : List (Option (List Bytes))), votes.Perm votes' →
        dirvoteComputeParams q' votes' 3 = some output := by
  refine dirvoteComputeParams_lowMedians (stableSorter strcmp) _ 3 fun v hv => ?_
  have hall : ∀ v ∈ [some [ascii "cc=-5", ascii "cc_alg=2"], none, some [ascii "cc=7"]],
      ((v.getD []).map keywordEq).Nodup ∧
        ∀ p ∈ v.getD [], 61 ∈ p ∧ (paramValue p).isSome := by decide +kernel
  exact ⟨(hall v hv).1, (hall v hv).2⟩

theorem votedValues_append (honest adverse : List (Option (List Bytes))) (kw : Bytes) :
    votedValues (honest ++ adverse) kw = votedValues honest kw ++ votedValues adverse kw := by
  simp [votedValues, allParams]

/-- Where most of those who vote on a keyword keep to some bounds, no other votes move the value
out of them, and they cannot keep the keyword out. -/
theorem honestMajority_decides (q : Sorter strcmp) {honest adverse : List (Option (List Bytes))}
    {low high : ℤ} (hvotes : votes.Perm (honest ++ adverse))
    (h : ∀ v ∈ votes, WellFormedParams (v.getD []))
    (hbounds : ∀ m ∈ votedValues honest kw, low ≤ m ∧ m ≤ high)
    (hmajority : adverse.countP (votesOn kw) < honest.countP (votesOn kw)) :
    ∃ output, dirvoteComputeParams q votes totalAuthorities = some output ∧
      (∀ param ∈ output, keywordEq param = kw → ∀ m ∈ paramValue param, low ≤ m ∧ m ≤ high) ∧
      (EnoughVotes honest totalAuthorities kw → ∃ param ∈ output, keywordEq param = kw) := by
  obtain ⟨ks, values, hks, hmem, hvals, hrun⟩ := @exists_outputs totalAuthorities votes q h
  have hlow : LowMedians votes totalAuthorities _ := lowMedians_of_outputs h hks hmem hvals
  have hperm : (votedValues votes kw).Perm (votedValues honest kw ++ votedValues adverse kw) := by
    rw [← votedValues_append]
    exact ((allParams_perm hvotes).filter _).filterMap _
  have hwell : ∀ v ∈ honest ++ adverse, WellFormedParams (v.getD []) := fun v hv =>
    h v (hvotes.mem_iff.mpr hv)
  have hhonest := length_votedValues (fun v hv => hwell v (List.mem_append_left _ hv)) kw
  have hadverse := length_votedValues (fun v hv => hwell v (List.mem_append_right _ hv)) kw
  refine ⟨_, hrun, fun param hparam hkw m hm => ?_, fun henough => ?_⟩
  · have hmedian := ((hlow.entry kw m).mp ⟨param, hparam, hkw, hm⟩).2
    exact (hmedian.perm hperm).between hbounds (by omega)
  · have hcount : honest.countP (votesOn kw) ≤ votes.countP (votesOn kw) := by
      rw [hvotes.countP_eq, List.countP_append]
      omega
    have hne : votedValues votes kw ≠ [] := List.ne_nil_of_length_pos (by
      rw [hperm.length_eq, List.length_append]
      omega)
    obtain ⟨m, hm⟩ := Option.isSome_iff_exists.mp (medianInt32_isSome hne)
    have henough' : EnoughVotes votes totalAuthorities kw :=
      henough.imp hcount.trans_lt' hcount.trans'
    obtain ⟨param, hparam, hkw, -⟩ :=
      (hlow.entry kw m).mpr ⟨henough', medianInt32_isLowMedian hm⟩
    exact ⟨param, hparam, hkw⟩

/-- Two votes for small values are not moved by one for a large value. -/
theorem honestMajority_decides_two :
    let votes := [some [ascii "cc=-5"], some [ascii "cc=7"], some [ascii "cc=1000"]]
    ∃ output, dirvoteComputeParams (stableSorter strcmp) votes 3 = some output ∧
      ∀ param ∈ output, keywordEq param = ascii "cc=" →
        ∀ m ∈ paramValue param, -5 ≤ m ∧ m ≤ 7 := by
  have hall : ∀ v ∈ [some [ascii "cc=-5"], some [ascii "cc=7"], some [ascii "cc=1000"]],
      ((v.getD []).map keywordEq).Nodup ∧
        ∀ p ∈ v.getD [], 61 ∈ p ∧ (paramValue p).isSome := by decide +kernel
  have hhonest : ∀ m ∈ votedValues [some [ascii "cc=-5"], some [ascii "cc=7"]] (ascii "cc="),
      -5 ≤ m ∧ m ≤ 7 := by decide +kernel
  obtain ⟨output, hrun, hbounds, -⟩ := honestMajority_decides (stableSorter strcmp) (.refl _)
    (fun v hv => ⟨(hall v hv).1, (hall v hv).2⟩) hhonest (by decide +kernel)
  exact ⟨output, hrun, hbounds⟩

example : dirvoteComputeParams (stableSorter strcmp)
    [some [ascii "cc=-5", ascii "cc_alg=2"], none, some [ascii "cc=7"]] 3 = some [ascii "cc=-5"] := by
  decide +kernel

end Medians

end ParamsMedians

end TorDaemon.Dirvote

import TorDaemon.Dirvote.Versions
import TorDaemon.Library.Runs

/-! The consensus method that the authorities' votes agree on (`dirvote.c`). -/
namespace TorDaemon.Dirvote
open Library.NetworkOrder Library.Tally Library.Runs SharedRandom
variable {q : Sorter cmpIntStrings} {votes votes' : List (List Bytes)} {s s' : Bytes} {m : ℤ}

section Model

/-- The methods that more than two thirds of the votes list, each vote with its
`supported_methods` (`smartlist_uniq` for each vote, then `get_frequent_members`). -/
def acceptableMethods (q : Sorter cmpIntStrings) (votes : List (List Bytes)) : List Bytes :=
  tally q (votes.length * 2 / 3) votes

def computeConsensusMethod (q : Sorter cmpIntStrings) (votes : List (List Bytes)) : ℤ :=
  match (acceptableMethods q votes).getLast? with
  | some best => intString best
  | none => 1

end Model

section Answer

/-- The vote lists this number, however it is written. -/
def listsMethod (m : ℤ) (vote : List Bytes) : Bool := vote.any (intString · = m)

section
variable (votes : List (List Bytes))

/-- A positive number that more than two thirds of the votes list. -/
def Supported (m : ℤ) : Prop :=
  1 ≤ m ∧ votes.length * 2 / 3 < votes.countP (listsMethod m)

/-- The greatest supported number, or 1 where there is none. -/
def IsAgreedMethod (m : ℤ) : Prop :=
  (Supported votes m ∧ ∀ m', Supported votes m' → m' ≤ m) ∨ (m = 1 ∧ ∀ m', ¬ Supported votes m')

/-- Whatever the order of the votes and of the entries of each, and however the sort places
entries that it takes for equal, the agreed method is found. -/
def FindsAgreedMethod : Prop :=
  ∀ (q : Sorter cmpIntStrings) (votes' : List (List Bytes)), Reordered votes votes' →
    IsAgreedMethod votes (computeConsensusMethod q votes')

/-- The votes write the number in one way, or there is only one vote. -/
def WrittenAlike (m : ℤ) : Prop :=
  votes.length = 1 ∨ ∀ s ∈ votes.flatten, ∀ s' ∈ votes.flatten,
    intString s = m → intString s' = m → s = s'

/-- More than two thirds of the votes list an entry that is no positive number. -/
def SupportsWord : Prop :=
  ∃ s, intString s = 0 ∧ votes.length * 2 / 3 < listedBy votes s

/-- The greatest supported number is written alike in the votes, or none but 1 is supported, and
no word is. -/
def WellWritten : Prop :=
  (∃ m, Supported votes m ∧ (∀ m', Supported votes m' → m' ≤ m) ∧ WrittenAlike votes m) ∨
    ((∀ m, Supported votes m → m = 1) ∧ ¬ SupportsWord votes)

end

end Answer

section Order

/-- What an entry counts as that is no positive number. -/
def methodWord (s : Bytes) : Bytes := if intString s = 0 then s else []

theorem cmpIntStrings_eq_compareLex :
    cmpIntStrings = compareLex (compareOn intString) (compareOn methodWord) := by
  funext a b
  unfold cmpIntStrings compareLex compareOn methodWord
  cases hcmp : compare (intString a) (intString b) with
  | lt => rfl
  | gt => rfl
  | eq =>
    have heq : intString a = intString b := Std.LawfulEqOrd.eq_of_compare hcmp
    rw [← heq]
    split <;> rfl

instance : Std.TransCmp cmpIntStrings := by
  rw [cmpIntStrings_eq_compareLex]
  infer_instance

theorem intString_eq_zero_or (s : Bytes) : intString s = 0 ∨ 1 ≤ intString s := by
  rw [intString]
  cases h : torParseLong s 1 int32Max with
  | none => exact .inl rfl
  | some v => exact .inr (torParseLong_range h).1

theorem intString_le_of_isLE (h : (cmpIntStrings s s').isLE) : intString s ≤ intString s' := by
  unfold cmpIntStrings at h
  by_contra hlt
  have hgt : compare (intString s) (intString s') = .gt := Int.compare_eq_gt.mpr (not_le.mp hlt)
  rw [hgt] at h
  simp at h

/-- Two entries are equal in the order where they are the same number, or the same word. -/
theorem cmpIntStrings_eq_iff : cmpIntStrings s s' = .eq ↔
    intString s = intString s' ∧ (intString s = 0 → s = s') := by
  rw [cmpIntStrings, Ordering.then_eq_eq, Std.LawfulEqOrd.compare_eq_iff_eq]
  split
  case isTrue h => simp [h]
  case isFalse h => simp [h]

end Order

section Acceptable

theorem listedBy_le_countP (h : intString s = m) : listedBy votes s ≤ votes.countP (listsMethod m) := by
  apply List.countP_mono_left
  intro vote _ hs
  rw [listsMethod, List.any_eq_true]
  exact ⟨s, by simpa using hs, by simpa using h⟩

theorem supported_of_mem (h : s ∈ acceptableMethods q votes) (hs : intString s ≠ 0) :
    Supported votes (intString s) :=
  ⟨(intString_eq_zero_or s).resolve_left hs,
    (listedBy_of_mem_tally h).trans_le (listedBy_le_countP rfl)⟩

theorem computeConsensusMethod_of_mem (h : s ∈ acceptableMethods q votes) :
    ∃ best ∈ acceptableMethods q votes, computeConsensusMethod q votes = intString best ∧
      intString s ≤ intString best := by
  have hsorted : (acceptableMethods q votes).Pairwise fun a b => (cmpIntStrings a b).isLE :=
    tally_sorted
  rw [computeConsensusMethod]
  cases hlast : (acceptableMethods q votes).getLast? with
  | none =>
    rw [List.getLast?_eq_none_iff] at hlast
    simp [hlast] at h
  | some best =>
    refine ⟨best, List.mem_of_getLast? hlast, rfl, ?_⟩
    obtain ⟨init, hinit⟩ := List.getLast?_eq_some_iff.mp hlast
    rw [hinit] at h hsorted
    rcases List.mem_append.mp h with h | h
    · exact intString_le_of_isLE ((List.pairwise_append.mp hsorted).2.2 s h best (.head _))
    · exact (congrArg intString (List.mem_singleton.mp h)).le

theorem computeConsensusMethod_of_nil (h : acceptableMethods q votes = []) :
    computeConsensusMethod q votes = 1 := by
  rw [computeConsensusMethod, h]
  rfl

theorem exists_mem_of_writtenAlike (hm : Supported votes m) (halike : WrittenAlike votes m) :
    ∃ s ∈ acceptableMethods q votes, intString s = m := by
  obtain ⟨vote, hvote, hlists⟩ := List.countP_pos_iff.mp ((Nat.zero_le _).trans_lt hm.2)
  obtain ⟨s, hs, hsm⟩ := List.any_eq_true.mp hlists
  have hsm : intString s = m := by simpa using hsm
  have hflatten : s ∈ votes.flatten := List.mem_flatten.mpr ⟨vote, hvote, hs⟩
  rcases halike with hone | halike
  · obtain ⟨only, rfl⟩ := List.length_eq_one_iff.mp hone
    obtain ⟨best, hbest, heq⟩ : ∃ b ∈ acceptableMethods q [only], cmpIntStrings b s = .eq :=
      exists_mem_tally_of_one (List.mem_singleton.mp hvote ▸ hs) (by simp)
    exact ⟨best, hbest, (cmpIntStrings_eq_iff.mp heq).1.trans hsm⟩
  · refine ⟨s, mem_tally_of_alone (fun b hb heq => ?_) ?_, hsm⟩
    · have hval := (cmpIntStrings_eq_iff.mp heq).1
      exact halike s hflatten b hb hsm (hval.symm.trans hsm)
    · refine hm.2.trans_le (List.countP_mono_left fun vote hvote hlists => ?_)
      obtain ⟨s', hs', hsm'⟩ := List.any_eq_true.mp hlists
      have hflatten' : s' ∈ votes.flatten := List.mem_flatten.mpr ⟨vote, hvote, hs'⟩
      rw [halike s hflatten s' hflatten' hsm (by simpa using hsm')]
      simpa using hs'

end Acceptable

section Reordered

theorem listsMethod_perm {vote vote' : List Bytes} (h : vote.Perm vote') :
    listsMethod m vote = listsMethod m vote' := by
  rw [Bool.eq_iff_iff, listsMethod, listsMethod, List.any_eq_true, List.any_eq_true]
  simp only [h.mem_iff]

section
variable (h : Reordered votes votes')
include h

theorem supported_iff : Supported votes m ↔ Supported votes' m := by
  rw [Supported, Supported, h.length_eq, h.countP_eq fun _ _ => listsMethod_perm]

theorem wellWritten_of_reordered (hwell : WellWritten votes) : WellWritten votes' := by
  rcases hwell with ⟨m, hm, hgreatest, halike⟩ | ⟨hone, hword⟩
  · refine .inl ⟨m, (supported_iff h).mp hm, fun m' hm' => hgreatest m' ((supported_iff h).mpr hm'),
      ?_⟩
    rcases halike with hlength | halike
    · exact .inl (h.length_eq ▸ hlength)
    · exact .inr fun s hs s' hs' =>
        halike s (h.mem_flatten_iff.mpr hs) s' (h.mem_flatten_iff.mpr hs')
  · refine .inr ⟨fun m hm => hone m ((supported_iff h).mpr hm), ?_⟩
    rintro ⟨s, hs, hlisted⟩
    rw [← h.length_eq, ← h.listedBy_eq] at hlisted
    exact hword ⟨s, hs, hlisted⟩

end

end Reordered

section Agreed

theorem agreed_of_wellWritten (hwell : WellWritten votes) :
    IsAgreedMethod votes (computeConsensusMethod q votes) := by
  rcases hwell with ⟨m, hm, hgreatest, halike⟩ | ⟨hone, hword⟩
  · obtain ⟨s, hs, hsm⟩ := exists_mem_of_writtenAlike (q := q) hm halike
    obtain ⟨best, hbest, heq, hle⟩ := computeConsensusMethod_of_mem hs
    have hpos : intString best ≠ 0 := by
      have hm1 := hm.1
      omega
    have hbestm := hgreatest _ (supported_of_mem hbest hpos)
    have hval : intString best = m := by omega
    rw [heq, hval]
    exact .inl ⟨hm, hgreatest⟩
  · -- the acceptable methods are 1, if there are any
    have hall : ∀ s ∈ acceptableMethods q votes, intString s = 1 := by
      intro s hs
      apply hone
      apply supported_of_mem hs
      exact fun h0 => hword ⟨s, h0, listedBy_of_mem_tally hs⟩
    have hresult : computeConsensusMethod q votes = 1 := by
      cases hmethods : acceptableMethods q votes with
      | nil => exact computeConsensusMethod_of_nil hmethods
      | cons s l =>
        have hs : s ∈ acceptableMethods q votes := by simp [hmethods]
        obtain ⟨best, hbest, heq, -⟩ := computeConsensusMethod_of_mem hs
        rw [heq, hall best hbest]
    rw [hresult]
    by_cases h1 : Supported votes 1
    · exact .inl ⟨h1, fun m hm => (hone m hm).le⟩
    · exact .inr ⟨rfl, fun m hm => h1 (hone m hm ▸ hm)⟩

theorem computeConsensusMethod_of_word (hword : SupportsWord votes)
    (hnone : ∀ s ∈ acceptableMethods q votes, intString s = 0) :
    computeConsensusMethod q votes = 0 := by
  obtain ⟨s, hs, hlisted⟩ := hword
  have hmem : s ∈ acceptableMethods q votes := mem_tally_of_alone (fun _ _ heq => (cmpIntStrings_eq_iff.mp heq).2 hs) hlisted
  obtain ⟨best, hbest, heq, -⟩ := computeConsensusMethod_of_mem hmem
  rw [heq, hnone best hbest]

theorem exists_order_of_not_writtenAlike (hm : Supported votes m) (h : ¬ WrittenAlike votes m) :
    ∃ votes', Reordered votes votes' ∧
      ∀ s ∈ acceptableMethods (stableSorter cmpIntStrings) votes', intString s ≠ m := by
  obtain ⟨hlength, halike⟩ := not_or.mp h
  have htwo : 2 ≤ votes.length := by
    have hle := List.countP_le_length (p := listsMethod m) (l := votes)
    have hlt := hm.2
    omega
  have hspellings : ∃ s ∈ votes.flatten, ∃ s' ∈ votes.flatten,
      intString s = m ∧ intString s' = m ∧ s ≠ s' := by
    by_contra hnone
    refine halike fun s hs s' hs' hsm hsm' => ?_
    by_contra hne
    exact hnone ⟨s, hs, s', hs', hsm, hsm', hne⟩
  obtain ⟨s, hs, s', hs', hsm, hsm', hne⟩ := hspellings
  have hclass : ∀ b, inClass cmpIntStrings s b ↔ intString b = m := by
    intro b
    rw [inClass_iff, cmpIntStrings_eq_iff, hsm, eq_comm]
    have hm1 := hm.1
    exact and_iff_left fun h0 => by omega
  obtain ⟨votes', hreordered, hrun⟩ := exists_reordered_without_run rfl htwo hs hs'
    ((hclass s).mpr hsm) ((hclass s').mpr hsm') hne
  refine ⟨votes', hreordered, fun b hb hbm => hrun b ?_⟩
  rw [acceptableMethods, ← hreordered.length_eq] at hb
  exact (mem_tally_iff ((hclass b).mpr hbm)).mp hb

/-- In every order the agreed method is found if and only if the votes are well written. -/
theorem findsAgreedMethod_iff (votes : List (List Bytes)) :
    FindsAgreedMethod votes ↔ WellWritten votes := by
  constructor
  · intro h
    by_contra hwell
    obtain ⟨hgreatest, hrest⟩ := not_or.mp hwell
    by_cases hone : ∀ m, Supported votes m → m = 1
    · -- a word is supported, and 1 is not found in some order
      have hword : SupportsWord votes := by
        by_contra hword
        exact hrest ⟨hone, hword⟩
      obtain ⟨votes', hreordered, hne⟩ : ∃ votes', Reordered votes votes' ∧
          ∀ s ∈ acceptableMethods (stableSorter cmpIntStrings) votes', intString s ≠ 1 := by
        by_cases h1 : Supported votes 1
        · apply exists_order_of_not_writtenAlike h1
          exact fun halike => hgreatest ⟨1, h1, fun m hm => (hone m hm).le, halike⟩
        · refine ⟨votes, .refl votes, fun s hs hs1 => h1 ?_⟩
          have hsupported := supported_of_mem hs (by omega)
          rwa [hs1] at hsupported
      have hresult := h (stableSorter cmpIntStrings) votes' hreordered
      have hzero : computeConsensusMethod (stableSorter cmpIntStrings) votes' = 0 := by
        apply computeConsensusMethod_of_word
        · obtain ⟨s, hs, hlisted⟩ := hword
          rw [hreordered.length_eq, hreordered.listedBy_eq] at hlisted
          exact ⟨s, hs, hlisted⟩
        · intro s hs
          by_contra hs0
          have hsupported := (supported_iff hreordered).mpr (supported_of_mem hs hs0)
          exact hne s hs (hone _ hsupported)
      rw [hzero] at hresult
      rcases hresult with ⟨⟨hpos, -⟩, -⟩ | ⟨hpos, -⟩ <;> omega
    · -- the agreed method is greater than 1, and is not found in some order
      obtain ⟨m, hm, hm1⟩ : ∃ m, Supported votes m ∧ m ≠ 1 := by
        by_contra hnone
        exact hone fun m hm => by_contra fun hm1 => hnone ⟨m, hm, hm1⟩
      have hstart := h (stableSorter cmpIntStrings) votes (.refl votes)
      obtain ⟨r, hr, hrgreatest⟩ : ∃ r, Supported votes r ∧ ∀ m', Supported votes m' → m' ≤ r := by
        rcases hstart with hstart | ⟨-, hnone⟩
        · exact ⟨_, hstart⟩
        · exact absurd hm (hnone m)
      obtain ⟨votes', hreordered, hne⟩ := exists_order_of_not_writtenAlike hr
        fun halike => hgreatest ⟨r, hr, hrgreatest, halike⟩
      have hresult : computeConsensusMethod (stableSorter cmpIntStrings) votes' = r := by
        rcases h _ votes' hreordered with ⟨hsupported, hle⟩ | ⟨-, hnone⟩
        · exact le_antisymm (hrgreatest _ hsupported) (hle r hr)
        · exact absurd hr (hnone r)
      have hr1 := hrgreatest m hm
      have hmpos := hm.1
      cases hmethods : acceptableMethods (stableSorter cmpIntStrings) votes' with
      | nil =>
        rw [computeConsensusMethod_of_nil hmethods] at hresult
        omega
      | cons s l =>
        have hs : s ∈ acceptableMethods (stableSorter cmpIntStrings) votes' := by simp [hmethods]
        obtain ⟨best, hbest, heq, -⟩ := computeConsensusMethod_of_mem hs
        exact hne best hbest (heq.symm.trans hresult)
  · intro hwell q votes' hreordered
    simp only [IsAgreedMethod, supported_iff hreordered]
    exact agreed_of_wellWritten (wellWritten_of_reordered hreordered hwell)

/-- Two votes for the same method, one with a leading zero. -/
def zeroPaddedVotes : List (List Bytes) := [[ascii "20"], [ascii "020"]]

theorem zeroPaddedVotes_not_agreed : ¬ ∀ votes, FindsAgreedMethod votes := by
  intro h
  have hresult := h zeroPaddedVotes (stableSorter cmpIntStrings) _ (.refl _)
  have heq : computeConsensusMethod (stableSorter cmpIntStrings) zeroPaddedVotes = 1 := by
    decide +kernel
  have hsupported : Supported zeroPaddedVotes 20 := ⟨by omega, by decide +kernel⟩
  rw [heq] at hresult
  rcases hresult with ⟨-, hle⟩ | ⟨-, hnone⟩
  · exact absurd (hle 20 hsupported) (by omega)
  · exact hnone 20 hsupported

end Agreed

end TorDaemon.Dirvote

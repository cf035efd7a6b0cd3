import TorDaemon.Library.Runs
import TorDaemon.SharedRandom.Agreement

/-! The shared random value that a majority of the votes agrees on (`shared_random.c`). -/
namespace TorDaemon.SharedRandom
open Library.NetworkOrder Library.Tally Library.Runs Library.Voting

section Model

/-- `compare_srv_` and `compare_srvs_`. -/
def compareSrv (a b : Srv) : Ordering := compare a.value.val b.value.val

instance : Std.TransCmp compareSrv where
  eq_swap := Std.OrientedOrd.eq_swap
  isLE_trans := Std.TransOrd.isLE_trans

/-- `sr_info` of a vote. -/
structure SrInfo where
  participate : Bool
  previousSrv : Option Srv
  currentSrv : Option Srv

/-- The number of V3 authorities, `sr_state_srv_is_fresh`, and `num_srv_agreements_from_vote`. -/
structure SrvRules where
  nVoters : ℕ
  isFresh : Bool
  numSrvAgreements : Int32

def shouldKeepSrv (rules : SrvRules) (nAgreements : ℕ) : Bool :=
  if nAgreements < rules.nVoters / 2 + 1 then false
  else if rules.isFresh ∧ (nAgreements : ℤ) < rules.numSrvAgreements.toInt then false
  else true

/-- The value of one vote. -/
def votedSrv (current : Bool) (v : SrInfo) : Option Srv :=
  if ¬ v.participate then none else if current then v.currentSrv else v.previousSrv

def getMajoritySrvFromVotes (q : Sorter compareSrv) (rules : SrvRules) (votes : List SrInfo)
    (current : Bool) : Option Srv :=
  match mostFrequent compareSrv (q.sort (votes.filterMap (votedSrv current))) with
  | (none, _) => none
  | (some srv, count) => if shouldKeepSrv rules count then some srv else none

end Model

section Agreement
variable {q q' : Sorter compareSrv} {rules : SrvRules} {votes votes' : List SrInfo}
  {current : Bool} {srv srv' : Srv} {value value' : Digest256}

/-- The vote lists the value. -/
def listsValue (current : Bool) (value : Digest256) (v : SrInfo) : Bool :=
  (votedSrv current v).any (·.value = value)

/-- A majority of the authorities lists the value, and a value of this run has enough
agreements. -/
structure Agreed (rules : SrvRules) (votes : List SrInfo) (current : Bool) (value : Digest256) :
    Prop where
  majority : Majority rules.nVoters votes (listsValue current value)
  agreements : rules.isFresh →
    rules.numSrvAgreements.toInt ≤ votes.countP (listsValue current value)

/-- A value is found just where there is one that is agreed on, it is the only such value, and what
is found is the same for all orders of the votes, however equal values are sorted. -/
structure FindsMajority (rules : SrvRules) (votes : List SrInfo) (current : Bool) : Prop where
  sound : ∀ (q : Sorter compareSrv) (votes' : List SrInfo), votes.Perm votes' → ∀ srv,
    getMajoritySrvFromVotes q rules votes' current = some srv → Agreed rules votes current srv.value
  complete : ∀ (q : Sorter compareSrv) (votes' : List SrInfo), votes.Perm votes' →
    getMajoritySrvFromVotes q rules votes' current = none →
      ∀ value, ¬ Agreed rules votes current value
  unique : ∀ value value', Agreed rules votes current value → Agreed rules votes current value' →
    value = value'
  independent : ∀ (q q' : Sorter compareSrv) (votes' : List SrInfo), votes.Perm votes' →
    getMajoritySrvFromVotes q rules votes current = getMajoritySrvFromVotes q' rules votes' current

/-- Those who list a value that is agreed on give one number of reveals for it. -/
def SameReveals (rules : SrvRules) (votes : List SrInfo) (current : Bool) : Prop :=
  ∀ value, Agreed rules votes current value → ∀ srv ∈ votes.filterMap (votedSrv current),
    ∀ srv' ∈ votes.filterMap (votedSrv current), srv.value = value → srv'.value = value →
      srv.numReveals = srv'.numReveals

theorem shouldKeepSrv_iff {count : ℕ} (h : count = votes.countP (listsValue current value)) :
    shouldKeepSrv rules count ↔ Agreed rules votes current value := by
  unfold shouldKeepSrv
  subst h
  constructor
  · intro h
    split at h
    · cases h
    case isFalse hmajority =>
      split at h
      · cases h
      case isFalse hfresh =>
        refine ⟨by unfold Majority; omega, fun hf => ?_⟩
        by_contra hlt
        exact hfresh ⟨hf, not_le.mp hlt⟩
  · rintro ⟨hmajority, hagreements⟩
    unfold Majority at hmajority
    rw [if_neg (by omega), if_neg]
    rintro ⟨hf, hlt⟩
    exact absurd (hagreements hf) (not_le.mpr hlt)

theorem listsValue_iff {v : SrInfo} : listsValue current value v ↔
    ∃ srv, votedSrv current v = some srv ∧ srv.value = value := by
  rw [listsValue, Option.any_eq_true]
  simp

theorem inClass_srv_iff : inClass compareSrv srv srv' ↔ srv'.value = srv.value := by
  rw [inClass_iff, compareSrv, Std.LawfulEqOrd.compare_eq_iff_eq, Subtype.ext_iff, eq_comm]

/-- The values that are equal in the order are those of the votes that list the value. -/
theorem countP_inClass (srv : Srv) (votes : List SrInfo) (current : Bool) :
    (votes.filterMap (votedSrv current)).countP (inClass compareSrv srv) =
      votes.countP (listsValue current srv.value) := by
  have hclass : inClass compareSrv srv = fun srv' => decide (srv'.value = srv.value) := by
    funext srv'
    rw [Bool.eq_iff_iff, inClass_srv_iff, decide_eq_true_iff]
  rw [List.countP_filterMap, hclass]
  apply List.countP_congr
  intro v _
  rw [listsValue]
  cases votedSrv current v <;> rfl

theorem exists_of_agreed (h : Agreed rules votes current value) :
    ∃ srv ∈ votes.filterMap (votedSrv current), srv.value = value := by
  have hpos : 0 < votes.countP (listsValue current value) := (Nat.zero_le _).trans_lt h.majority
  obtain ⟨v, hv, hlists⟩ := List.countP_pos_iff.mp hpos
  obtain ⟨srv, hsrv, hvalue⟩ := listsValue_iff.mp hlists
  exact ⟨srv, List.mem_filterMap.mpr ⟨v, hv, hsrv⟩, hvalue⟩

/-- Each authority has one vote, so that there are not two majorities. -/
theorem agreed_unique (hvotes : votes.length ≤ rules.nVoters)
    (h : Agreed rules votes current value) (h' : Agreed rules votes current value') :
    value = value' := by
  obtain ⟨v, -, hv, hv'⟩ := h.majority.intersect h'.majority hvotes
  obtain ⟨srv, hsrv, rfl⟩ := listsValue_iff.mp hv
  obtain ⟨srv', hsrv', rfl⟩ := listsValue_iff.mp hv'
  rw [hsrv] at hsrv'
  rw [Option.some.inj hsrv']

theorem agreed_perm (hperm : votes.Perm votes') :
    Agreed rules votes current value ↔ Agreed rules votes' current value := by
  constructor
  · rintro ⟨hmajority, hagreements⟩
    unfold Majority at hmajority
    rw [hperm.countP_eq] at hmajority hagreements
    exact ⟨hmajority, hagreements⟩
  · rintro ⟨hmajority, hagreements⟩
    unfold Majority at hmajority
    rw [← hperm.countP_eq] at hmajority hagreements
    exact ⟨hmajority, hagreements⟩

/-- What is found is the first one of its value in the sorted list, and is agreed on; or nothing
is found, and nothing is agreed on. -/
theorem getMajoritySrvFromVotes_cases (q : Sorter compareSrv) (rules : SrvRules)
    (votes : List SrInfo) (current : Bool) :
    (∃ srv, getMajoritySrvFromVotes q rules votes current = some srv ∧
      srv ∈ votes.filterMap (votedSrv current) ∧ Agreed rules votes current srv.value ∧
      (q.sort (votes.filterMap (votedSrv current))).find? (inClass compareSrv srv) = some srv) ∨
    (getMajoritySrvFromVotes q rules votes current = none ∧
      ∀ value, ¬ Agreed rules votes current value) := by
  have hperm := q.perm (votes.filterMap (votedSrv current))
  have hsorted := q.sorted _ (consistent_of_transCmp (votes.filterMap (votedSrv current)))
  unfold getMajoritySrvFromVotes
  by_cases hnil : q.sort (votes.filterMap (votedSrv current)) = []
  · refine .inr ⟨by rw [hnil]; rfl, fun value hagreed => ?_⟩
    obtain ⟨srv, hsrv, -⟩ := exists_of_agreed hagreed
    rw [← hperm.mem_iff, hnil] at hsrv
    simp at hsrv
  obtain ⟨srv, hmem, hfind, hfrequent, hmost⟩ := mostFrequent_spec hsorted hnil
  simp only [hperm.countP_eq, countP_inClass] at hfrequent hmost
  simp only [hfrequent]
  by_cases hkeep : shouldKeepSrv rules (votes.countP (listsValue current srv.value))
  · exact .inl ⟨srv, if_pos hkeep, hperm.mem_iff.mp hmem, (shouldKeepSrv_iff rfl).mp hkeep, hfind⟩
  · refine .inr ⟨if_neg hkeep, fun value hagreed => hkeep ((shouldKeepSrv_iff rfl).mpr ?_)⟩
    obtain ⟨srv', hsrv', rfl⟩ := exists_of_agreed hagreed
    have hle := hmost srv' (hperm.mem_iff.mpr hsrv')
    refine ⟨hagreed.majority.trans_le hle, fun hfresh => (hagreed.agreements hfresh).trans ?_⟩
    exact_mod_cast hle

theorem getMajoritySrvFromVotes_stable {v : SrInfo} (hvotes : votes.length + 1 ≤ rules.nVoters)
    (hv : votedSrv current v = some srv) (h : Agreed rules (v :: votes) current srv.value) :
    getMajoritySrvFromVotes (stableSorter compareSrv) rules (v :: votes) current = some srv := by
  rcases getMajoritySrvFromVotes_cases (stableSorter compareSrv) rules (v :: votes) current with
    ⟨srv', hfound, -, hagreed, hfind⟩ | ⟨-, hnone⟩
  · have hlength : (v :: votes).length ≤ rules.nVoters := hvotes
    have hvalue := agreed_unique hlength h hagreed
    rw [stableSorter_find?, List.filterMap_cons_some hv,
      List.find?_cons_of_pos (inClass_srv_iff.mpr hvalue)] at hfind
    rw [hfound, hfind]
  · exact absurd h (hnone _)

theorem exists_order (hvotes : votes.length ≤ rules.nVoters)
    (hsrv : srv ∈ votes.filterMap (votedSrv current)) (h : Agreed rules votes current srv.value) :
    ∃ votes', votes.Perm votes' ∧
      getMajoritySrvFromVotes (stableSorter compareSrv) rules votes' current = some srv := by
  obtain ⟨v, hv, hvoted⟩ := List.mem_filterMap.mp hsrv
  obtain ⟨l, l', rfl⟩ := List.append_of_mem hv
  have hperm : (l ++ v :: l').Perm (v :: (l ++ l')) := List.perm_middle
  refine ⟨v :: (l ++ l'), hperm, getMajoritySrvFromVotes_stable ?_ hvoted ((agreed_perm hperm).mp h)⟩
  rw [hperm.length_eq] at hvotes
  exact hvotes

/-- The majority is found as it should be if and only if the votes that list the value give one
number of reveals. -/
theorem findsMajority_iff (rules : SrvRules) (votes : List SrInfo) (current : Bool)
    (hvotes : votes.length ≤ rules.nVoters) :
    FindsMajority rules votes current ↔ SameReveals rules votes current := by
  constructor
  · rintro h value hagreed srv hsrv srv' hsrv' rfl hvalue'
    obtain ⟨votes₁, hperm₁, hfound⟩ := exists_order hvotes hsrv hagreed
    obtain ⟨votes₂, hperm₂, hfound'⟩ := exists_order hvotes hsrv' (hvalue' ▸ hagreed)
    have heq := h.independent (stableSorter compareSrv) (stableSorter compareSrv) votes₁ hperm₁
    rw [h.independent (stableSorter compareSrv) (stableSorter compareSrv) votes₂ hperm₂, hfound,
      hfound'] at heq
    rw [Option.some.inj heq]
  · intro h
    have hsound : ∀ (q : Sorter compareSrv) (votes' : List SrInfo), votes.Perm votes' → ∀ srv,
        getMajoritySrvFromVotes q rules votes' current = some srv →
          srv ∈ votes.filterMap (votedSrv current) ∧ Agreed rules votes current srv.value := by
      intro q votes' hperm srv hfound
      rcases getMajoritySrvFromVotes_cases q rules votes' current with
        ⟨srv', hfound', hmem, hagreed, -⟩ | ⟨hnone, -⟩
      · rw [hfound] at hfound'
        rw [Option.some.inj hfound']
        exact ⟨(hperm.filterMap _).mem_iff.mpr hmem, (agreed_perm hperm).mpr hagreed⟩
      · rw [hfound] at hnone
        cases hnone
    have hcomplete : ∀ (q : Sorter compareSrv) (votes' : List SrInfo), votes.Perm votes' →
        getMajoritySrvFromVotes q rules votes' current = none →
          ∀ value, ¬ Agreed rules votes current value := by
      intro q votes' hperm hfound value hagreed
      rcases getMajoritySrvFromVotes_cases q rules votes' current with ⟨srv', hfound', -⟩ | ⟨-, hnone⟩
      · rw [hfound] at hfound'
        cases hfound'
      · exact hnone value ((agreed_perm hperm).mp hagreed)
    refine ⟨fun q votes' hperm srv hfound => (hsound q votes' hperm srv hfound).2, hcomplete,
      fun _ _ => agreed_unique hvotes, fun q q' votes' hperm => ?_⟩
    cases hfound : getMajoritySrvFromVotes q rules votes current with
    | none =>
      cases hfound' : getMajoritySrvFromVotes q' rules votes' current with
      | none => rfl
      | some srv' =>
        exact absurd (hsound q' votes' hperm srv' hfound').2 (hcomplete q votes (.refl _) hfound _)
    | some srv =>
      obtain ⟨hmem, hagreed⟩ := hsound q votes (.refl _) srv hfound
      cases hfound' : getMajoritySrvFromVotes q' rules votes' current with
      | none => exact absurd hagreed (hcomplete q' votes' hperm hfound' _)
      | some srv' =>
        obtain ⟨hmem', hagreed'⟩ := hsound q' votes' hperm srv' hfound'
        have hvalue := agreed_unique hvotes hagreed hagreed'
        have hreveals := h _ hagreed srv hmem srv' hmem' rfl hvalue.symm
        congr 1
        cases srv
        cases srv'
        simp_all

/-- Two votes for one value, that differ in the number of reveals. -/
def differentReveals : List SrInfo :=
  [⟨true, none, some ⟨8, Digest256.replicate 1⟩⟩,
    ⟨true, none, some ⟨9, Digest256.replicate 1⟩⟩]

theorem differentReveals_not_found : ¬ ∀ (rules : SrvRules) (votes : List SrInfo) (current : Bool),
    votes.length ≤ rules.nVoters → FindsMajority rules votes current := by
  intro h
  have hindependent := (h ⟨2, false, 2⟩ differentReveals true (by decide)).independent
    (stableSorter compareSrv) (stableSorter compareSrv) differentReveals.reverse
    (List.reverse_perm _).symm
  revert hindependent
  decide +kernel

/-- Two of three authorities list one value with one number of reveals. -/
def sameReveals : List SrInfo :=
  [⟨true, none, some ⟨8, Digest256.replicate 1⟩⟩, ⟨true, none, none⟩,
    ⟨true, none, some ⟨8, Digest256.replicate 1⟩⟩]

theorem findsMajority_iff_same : FindsMajority ⟨3, true, 2⟩ sameReveals true ∧
    Agreed ⟨3, true, 2⟩ sameReveals true (Digest256.replicate 1) := by
  have hone : ∀ srv ∈ sameReveals.filterMap (votedSrv true), srv = ⟨8, Digest256.replicate 1⟩ := by
    decide
  refine ⟨(findsMajority_iff _ _ _ (by decide)).mpr fun _ _ srv hsrv srv' hsrv' _ _ => ?_,
    by decide, fun _ => by decide⟩
  rw [hone srv hsrv, hone srv' hsrv']

end Agreement

end TorDaemon.SharedRandom

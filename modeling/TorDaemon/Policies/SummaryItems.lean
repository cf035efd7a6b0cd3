import TorDaemon.Library.Tiling
import TorDaemon.Policies.Summary

/-! The items of a summary tile the ports, and their counts and marks are those of the rule. -/
namespace TorDaemon.Policies
open Library.Tiling
variable {summary before within after rest : Summary} {f : ℕ → ℕ × Prop} {a m n p q : ℕ}
  {s : PolicySummaryItem} {family : Family}

/-- What an item says of its ports. -/
def PolicySummaryItem.value (s : PolicySummaryItem) : ℕ × Prop := (s.rejectCount, s.accepted = true)

/-- The items tile the ports from `a` to before `n`, with the values of `f`. -/
abbrev Summarizes (f : ℕ → ℕ × Prop) (a n : ℕ) (summary : Summary) : Prop :=
  Tiles PolicySummaryItem.prtMin PolicySummaryItem.prtMax PolicySummaryItem.value f a n summary

/-! ### Splitting -/

theorem policySummaryItemSplit_spec (h : Summarizes f s.prtMin n (s :: after))
    (hlow : s.prtMin < q) (hhigh : q ≤ s.prtMax) (hq : q < 2 ^ 16) :
    ∃ old new, policySummaryItemSplit s q = some (old, new) ∧
      Summarizes f s.prtMin q [old] ∧ Summarizes f q n (new :: after) := by
  obtain ⟨-, -, hval, hrest⟩ := h
  have hend : (q + 2 ^ 16 - 1) % 2 ^ 16 = q - 1 := by omega
  refine ⟨{ s with prtMax := q - 1 }, { s with prtMin := q }, ?_, ?_, ?_⟩
  · simp only [policySummaryItemSplit, hend]
    rw [if_pos]
    exact ⟨by omega, hhigh⟩
  · refine ⟨rfl, by dsimp only; omega, ?_, by dsimp only [Tiles]; omega⟩
    intro x hx hxq
    exact hval x hx (by dsimp only at hxq; omega)
  · refine ⟨rfl, hhigh, ?_, hrest⟩
    intro x hx hxq
    exact hval x (by omega) hxq

theorem policySummarySplitStart_spec (h : Summarizes f a n summary) (ha : a ≤ p) (hn : p < n)
    (hp : p < 2 ^ 16) : ∃ before rest, policySummarySplitStart summary p = some (before, rest) ∧
      Summarizes f a p before ∧ Summarizes f p n rest := by
  obtain ⟨s, after, hdrop, hlow, hhigh, hbefore, hat⟩ := h.exists_at ha hn
  rw [policySummarySplitStart, hdrop]
  by_cases hstart : s.prtMin = p
  · subst hstart
    exact ⟨_, _, if_neg (not_not.mpr rfl), hbefore, hat⟩
  · obtain ⟨old, new, hsplit, hold, hnew⟩ :=
      policySummaryItemSplit_spec hat (lt_of_le_of_ne hlow hstart) hhigh hp
    refine ⟨_, _, ?_, hbefore.append hold, hnew⟩
    dsimp only
    rw [if_pos hstart, hsplit]
    rfl

theorem policySummarySplitEnd_spec (h : Summarizes f a n summary) (ha : a ≤ q) (hn : q < n)
    (hports : n ≤ 2 ^ 16) : ∃ within after,
      policySummarySplitEnd summary q = some (within ++ after) ∧
      Summarizes f a (q + 1) within ∧ Summarizes f (q + 1) n after := by
  obtain ⟨s, after, hdrop, hlow, hhigh, hbefore, hat⟩ := h.exists_at ha hn
  rw [policySummarySplitEnd, hdrop]
  have hlast := (hat.mem List.mem_cons_self).2.2
  by_cases hend : s.prtMax = q
  · subst hend
    obtain ⟨-, hle, hval, hafter⟩ := hat
    refine ⟨_, after, ?_, hbefore.append (tiles_singleton hle hval), hafter⟩
    dsimp only
    rw [if_neg (not_not.mpr rfl), List.append_assoc]
    rfl
  · have hmod : (q + 1) % 2 ^ 16 = q + 1 := Nat.mod_eq_of_lt (by omega)
    obtain ⟨old, new, hsplit, hold, hnew⟩ :=
      policySummaryItemSplit_spec (q := q + 1) hat (by omega) (by omega) (by omega)
    refine ⟨summary.takeWhile (fun s => s.prtMax < q) ++ [old], new :: after, ?_,
      hbefore.append hold, hnew⟩
    dsimp only
    rw [if_pos hend, hmod, hsplit, List.append_assoc]
    rfl

/-- After a split the ports from `p` to `q` have items of their own. -/
theorem policySummarySplit_spec (h : Summarizes f 1 (2 ^ 16) summary) (hp : 1 ≤ p) (hpq : p ≤ q)
    (hq : q < 2 ^ 16) : ∃ before within after,
      policySummarySplit summary p q = some (before, within ++ after) ∧
      Summarizes f 1 p before ∧ Summarizes f p (q + 1) within ∧
      Summarizes f (q + 1) (2 ^ 16) after := by
  obtain ⟨before, rest, hstart, hbefore, hrest⟩ :=
    policySummarySplitStart_spec h hp (by omega) (by omega)
  obtain ⟨within, after, hend, hwithin, hafter⟩ :=
    policySummarySplitEnd_spec hrest hpq hq le_rfl
  refine ⟨before, within, after, ?_, hbefore, hwithin, hafter⟩
  rw [policySummarySplit, hstart, Option.bind_eq_bind, Option.bind_some]
  dsimp only
  rw [hend]
  rfl

/-! ### Updates -/

theorem span_within (hwithin : Summarizes f p (q + 1) within)
    (hafter : Summarizes f (q + 1) (2 ^ 16) after) :
    (within ++ after).takeWhile (fun s => s.prtMax ≤ q) = within ∧
      (within ++ after).dropWhile (fun s => s.prtMax ≤ q) = after := by
  have hspan := hwithin.span hafter
  simpa only [Nat.lt_succ_iff] using hspan

theorem policySummaryUpdate_spec {update : PolicySummaryItem → PolicySummaryItem}
    {t : ℕ × Prop → ℕ × Prop} (hmin : ∀ s, (update s).prtMin = s.prtMin)
    (hmax : ∀ s, (update s).prtMax = s.prtMax) (hval : ∀ s, (update s).value = t s.value)
    (hbefore : Summarizes f 1 p before) (hwithin : Summarizes f p (q + 1) within)
    (hafter : Summarizes f (q + 1) (2 ^ 16) after) :
    ∃ summary, policySummaryUpdate update q before (within ++ after) = some summary ∧
      Summarizes (fun x => if p ≤ x ∧ x ≤ q then t (f x) else f x) 1 (2 ^ 16) summary := by
  obtain ⟨htake, hdrop⟩ := span_within hwithin hafter
  refine ⟨before ++ within.map update ++ after, ?_, ?_⟩
  · rw [policySummaryUpdate, htake, hdrop]
    apply if_pos
    cases after with
    | nil =>
      have hend : q + 1 = 2 ^ 16 := hafter
      exact .inr (by omega)
    | cons s after => exact .inl (List.cons_ne_nil _ _)
  · apply Tiles.append
    · apply Tiles.append (m := p)
      · apply hbefore.congr
        intro x _ hx
        rw [if_neg (by omega)]
      · apply (hwithin.map (fun s _ => hmin s) (fun s _ => hmax s) fun s _ => hval s).congr
        intro x hx hxq
        rw [if_pos (by omega)]
    · apply hafter.congr
      intro x hx _
      rw [if_neg (by omega)]

theorem accept_ports (c : ℕ) : (∀ s : PolicySummaryItem, (s.accept c).prtMin = s.prtMin) ∧
    ∀ s : PolicySummaryItem, (s.accept c).prtMax = s.prtMax := by
  constructor <;> intro s <;> rw [PolicySummaryItem.accept] <;> split <;> rfl

theorem reject_ports (c : ℕ) : (∀ s : PolicySummaryItem, (s.reject c).prtMin = s.prtMin) ∧
    ∀ s : PolicySummaryItem, (s.reject c).prtMax = s.prtMax := by
  constructor <;> intro s <;> rw [PolicySummaryItem.reject] <;> split <;> rfl

theorem accept_value (c : ℕ) (s : PolicySummaryItem) :
    (s.accept c).value = (s.value.1, s.value.2 ∨ s.value.1 ≤ c) := by
  rw [PolicySummaryItem.accept]
  split_ifs with h
  · simp [PolicySummaryItem.value, h.2]
  · simp only [PolicySummaryItem.value, Prod.mk.injEq, true_and, eq_iff_iff]
    constructor
    · exact .inl
    · rintro (haccepted | hle)
      · exact haccepted
      · by_contra hnot
        exact h ⟨by simpa using hnot, hle⟩

theorem reject_value {count : ℕ} (hcount : count ≤ uint64Max) (s : PolicySummaryItem) :
    (s.reject count).value = (min uint64Max (s.value.1 + count), s.value.2) := by
  rw [PolicySummaryItem.reject]
  split_ifs with h
  · simp only [PolicySummaryItem.value, Prod.mk.injEq, and_true]
    omega
  · simp only [PolicySummaryItem.value, Prod.mk.injEq, and_true]
    omega

theorem policySummaryAccept_spec (hfamily : family ≠ .unspec)
    (h : Summarizes f 1 (2 ^ 16) summary) (hp : 1 ≤ p) (hpq : p ≤ q) (hq : q < 2 ^ 16) :
    ∃ summary', policySummaryAccept summary p q family = some summary' ∧
      Summarizes (fun x => if p ≤ x ∧ x ≤ q then
        ((f x).1, (f x).2 ∨ (f x).1 ≤ family.rejectCutoffCount) else f x) 1 (2 ^ 16) summary' := by
  obtain ⟨before, within, after, hsplit, hbefore, hwithin, hafter⟩ :=
    policySummarySplit_spec h hp hpq hq
  obtain ⟨summary', hupdate, hsummary⟩ :=
    policySummaryUpdate_spec (t := fun v => (v.1, v.2 ∨ v.1 ≤ family.rejectCutoffCount))
      (accept_ports _).1 (accept_ports _).2 (accept_value _) hbefore hwithin hafter
  refine ⟨summary', ?_, hsummary⟩
  rw [policySummaryAccept, if_neg hfamily, hsplit]
  exact hupdate

/-- The count of a network, as far as 64 bits have it. -/
theorem rejectCount_eq (maskbits : ℕ) (family : Family) : rejectCount maskbits family =
    min uint64Max (2 ^ (family.addrbits - family.scale - maskbits)) := by
  rw [rejectCount]
  generalize family.addrbits - family.scale - maskbits = k
  have hmax : uint64Max = 2 ^ 64 - 1 := rfl
  split_ifs with hk
  · have hpow : 2 ^ 64 ≤ 2 ^ k := Nat.pow_le_pow_right (by decide) hk
    omega
  · have hpow : 2 ^ k ≤ 2 ^ 63 := Nat.pow_le_pow_right (by decide) (by omega)
    omega

theorem policySummaryReject_spec {maskbits : ℕ} (hfamily : family ≠ .unspec)
    (h : Summarizes f 1 (2 ^ 16) summary) (hp : 1 ≤ p) (hpq : p ≤ q) (hq : q < 2 ^ 16)
    (hbits : maskbits ≤ family.addrbits) (hmax : ∀ x, (f x).1 ≤ uint64Max)
    (hcount : family = .inet → ∀ x, (f x).1 ≤ uint64Max - rejectCount maskbits family) :
    ∃ summary', policySummaryReject summary maskbits p q family = some summary' ∧
      Summarizes (fun x => if p ≤ x ∧ x ≤ q then
          (min uint64Max ((f x).1 + if maskbits ≤ family.addrbits - family.scale then
            2 ^ (family.addrbits - family.scale - maskbits) else 0), (f x).2) else f x)
        1 (2 ^ 16) summary' := by
  obtain ⟨before, within, after, hsplit, hbefore, hwithin, hafter⟩ :=
    policySummarySplit_spec h hp hpq hq
  rw [policySummaryReject, if_neg hfamily, hsplit, Option.bind_eq_bind, Option.bind_some]
  dsimp only
  rw [if_neg (not_lt.mpr hbits)]
  by_cases hsmall : maskbits ≤ family.addrbits - family.scale
  · have hsaturates : ¬(family = .inet ∧ ((within ++ after).takeWhile fun s => s.prtMax ≤ q).any
        fun s => s.rejectCount > uint64Max - rejectCount maskbits family) := by
      rintro ⟨hinet, hany⟩
      rw [(span_within hwithin hafter).1, List.any_eq_true] at hany
      obtain ⟨s, hs, hlarge⟩ := hany
      have hvalue := hwithin.value hs le_rfl (hwithin.mem hs).2.1
      have hle := hcount hinet s.prtMin
      rw [hvalue] at hle
      exact absurd hle (not_le.mpr (of_decide_eq_true hlarge))
    have hle : rejectCount maskbits family ≤ uint64Max := by
      rw [rejectCount_eq]
      exact min_le_left _ _
    obtain ⟨summary', hupdate, hsummary⟩ :=
      policySummaryUpdate_spec
        (t := fun v => (min uint64Max (v.1 + rejectCount maskbits family), v.2))
        (reject_ports _).1 (reject_ports _).2 (reject_value hle) hbefore hwithin hafter
    refine ⟨summary', ?_, ?_⟩
    · rw [if_neg (not_lt.mpr hsmall), if_neg hsaturates]
      exact hupdate
    · apply hsummary.congr
      intro x _ _
      rw [if_pos hsmall, rejectCount_eq]
      split_ifs
      · congr 1
        omega
      · rfl
  · have hinet6 : family = .inet6 := by
      cases family with
      | unspec => exact absurd rfl hfamily
      | inet => exact absurd hbits hsmall
      | inet6 => rfl
    refine ⟨before ++ (within ++ after), ?_, ?_⟩
    · rw [if_pos (not_le.mp hsmall), if_pos hinet6]
    · apply (hbefore.append (hwithin.append hafter)).congr
      intro x _ _
      rw [if_neg hsmall, Nat.add_zero, min_eq_right (hmax x), ite_self]

/-! ### The loop over the policy -/

section
variable {policy pre : List AddrPolicy} {e : AddrPolicy}

/-- What the rule says of a port. -/
def ruleValue (policy : List AddrPolicy) (family : Family) (port : ℕ) : ℕ × Prop :=
  (rejectedAddresses policy family port, AcceptedPort policy family port)

/-- The entries are for ports from 1 on, and their masks fit their addresses. -/
structure AddrPolicy.WellFormed (e : AddrPolicy) : Prop where
  prtMin_pos : 1 ≤ e.prtMin
  prtMin_le : e.prtMin ≤ e.prtMax
  maskbits_le : e.addr.family ≠ .unspec → e.maskbits ≤ e.addr.family.addrbits

/-- An entry that is not about a port changes nothing for it. -/
theorem ruleValue_other (hrejects : ¬e.RejectsPort family p) (haccepts : ¬e.AcceptsPort family p) :
    ruleValue (pre ++ [e]) family p = ruleValue pre family p := by
  rw [ruleValue, ruleValue, rejectedAddresses_append, if_neg hrejects]
  congr 1
  rw [eq_iff_iff, acceptedPort_append]
  simp [haccepts]

theorem ruleValue_accepts (h : e.AcceptsPort family p) :
    ruleValue (pre ++ [e]) family p = ((ruleValue pre family p).1,
      (ruleValue pre family p).2 ∨ (ruleValue pre family p).1 ≤ family.rejectCutoffCount) := by
  have hrejects : ¬e.RejectsPort family p := by
    intro hr
    rw [AddrPolicy.RejectsPort, h.1] at hr
    cases hr.1
  rw [ruleValue, ruleValue, rejectedAddresses_append, if_neg hrejects]
  congr 1
  rw [eq_iff_iff, acceptedPort_append]
  simp [h]

theorem ruleValue_rejects (h : e.RejectsPort family p) : ruleValue (pre ++ [e]) family p =
      (min uint64Max ((ruleValue pre family p).1 + e.addresses family),
        (ruleValue pre family p).2) := by
  have haccepts : ¬e.AcceptsPort family p := by
    intro ha
    rw [AddrPolicy.AcceptsPort, h.1] at ha
    cases ha.1
  rw [ruleValue, ruleValue, rejectedAddresses_append, if_pos h]
  congr 1
  rw [eq_iff_iff, acceptedPort_append]
  simp [haccepts]

theorem summarizes_other (h : Summarizes (ruleValue pre family) 1 (2 ^ 16) summary)
    (hrejects : ∀ p, ¬e.RejectsPort family p) (haccepts : ∀ p, ¬e.AcceptsPort family p) :
    Summarizes (ruleValue (pre ++ [e]) family) 1 (2 ^ 16) summary :=
  h.congr fun p _ _ => (ruleValue_other (hrejects p) (haccepts p)).symm

theorem policySummaryAddItem_accept (hfamily : e.addr.family ≠ .unspec) (he : e.WellFormed)
    (htype : e.policyType = .accept)
    (h : Summarizes (ruleValue pre e.addr.family) 1 (2 ^ 16) summary) :
    ∃ summary', policySummaryAddItem summary e = some summary' ∧
      Summarizes (ruleValue (pre ++ [e]) e.addr.family) 1 (2 ^ 16) summary' := by
  have hrejects : ∀ p, ¬e.RejectsPort e.addr.family p := by
    intro p hr
    rw [AddrPolicy.RejectsPort, htype] at hr
    cases hr.1
  rw [policySummaryAddItem, htype]
  by_cases hmask : e.maskbits = 0
  · rw [if_pos hmask]
    obtain ⟨summary', hsome, hsummary⟩ :=
      policySummaryAccept_spec hfamily h he.prtMin_pos he.prtMin_le e.prtMax_lt
    refine ⟨summary', hsome, hsummary.congr fun p _ _ => ?_⟩
    by_cases hcovers : e.prtMin ≤ p ∧ p ≤ e.prtMax
    · rw [if_pos hcovers]
      exact (ruleValue_accepts ⟨htype, hmask, rfl, hcovers⟩).symm
    · rw [if_neg hcovers]
      exact (ruleValue_other (hrejects p) fun ha => hcovers ha.2.2.2).symm
  · rw [if_neg hmask]
    exact ⟨summary, rfl, summarizes_other h hrejects fun p ha => hmask ha.2.1⟩

/-- So few IPv4 entries do not fill the count. -/
theorem rejectedAddresses_fits (hlen : pre.length < 2 ^ 31) (maskbits port : ℕ) :
    rejectedAddresses pre .inet port ≤ uint64Max - rejectCount maskbits .inet := by
  have hsum := rejectedAddresses_le pre port
  have hcount : rejectCount maskbits .inet ≤ 2 ^ 32 := by
    rw [rejectCount_eq]
    exact (min_le_right _ _).trans (Nat.pow_le_pow_right (by decide) (Nat.sub_le _ _))
  have hmax : uint64Max = 2 ^ 64 - 1 := rfl
  omega

theorem policySummaryAddItem_reject (hfamily : e.addr.family ≠ .unspec) (he : e.WellFormed)
    (hlen : pre.length < 2 ^ 31) (htype : e.policyType = .reject)
    (h : Summarizes (ruleValue pre e.addr.family) 1 (2 ^ 16) summary) :
    ∃ summary', policySummaryAddItem summary e = some summary' ∧
      Summarizes (ruleValue (pre ++ [e]) e.addr.family) 1 (2 ^ 16) summary' := by
  have haccepts : ∀ p, ¬e.AcceptsPort e.addr.family p := by
    intro p ha
    rw [AddrPolicy.AcceptsPort, htype] at ha
    cases ha.1
  rw [policySummaryAddItem, htype]
  by_cases hprivate : e.isPrivate = true
  · rw [if_pos hprivate]
    exact ⟨summary, rfl,
      summarizes_other h (fun p hr => hr.2.1 (isPrivate_iff.mp hprivate)) haccepts⟩
  · have hfits : e.addr.family = .inet → ∀ p, (ruleValue pre e.addr.family p).1 ≤
        uint64Max - rejectCount e.maskbits e.addr.family := by
      intro hinet p
      rw [hinet]
      exact rejectedAddresses_fits hlen e.maskbits p
    rw [if_neg hprivate]
    obtain ⟨summary', hsome, hsummary⟩ :=
      policySummaryReject_spec hfamily h he.prtMin_pos he.prtMin_le e.prtMax_lt
        (he.maskbits_le hfamily) (fun p => min_le_left _ _) hfits
    refine ⟨summary', hsome, hsummary.congr fun p _ _ => ?_⟩
    by_cases hcovers : e.prtMin ≤ p ∧ p ≤ e.prtMax
    · rw [if_pos hcovers]
      exact (ruleValue_rejects
        ⟨htype, fun hmem => hprivate (isPrivate_iff.mpr hmem), rfl, hcovers⟩).symm
    · rw [if_neg hcovers]
      exact (ruleValue_other (fun hr => hcovers hr.2.2.2) (haccepts p)).symm

theorem policySummaryTurn_spec (hfamily : family ≠ .unspec) (he : e.WellFormed)
    (hlen : pre.length < 2 ^ 31) (h : Summarizes (ruleValue pre family) 1 (2 ^ 16) summary) :
    ∃ summary', policySummaryTurn family summary e = some summary' ∧
      Summarizes (ruleValue (pre ++ [e]) family) 1 (2 ^ 16) summary' := by
  rw [policySummaryTurn]
  by_cases hother : e.addr.family ≠ family
  · rw [if_pos hother]
    exact ⟨summary, rfl,
      summarizes_other h (fun p hr => hother hr.2.2.1) fun p ha => hother ha.2.2.1⟩
  · rw [if_neg hother]
    obtain rfl := not_not.mp hother
    cases htype : e.policyType with
    | accept => exact policySummaryAddItem_accept hfamily he htype h
    | reject => exact policySummaryAddItem_reject hfamily he hlen htype h

theorem policySummary_from (pre : List AddrPolicy) (hfamily : family ≠ .unspec) {rest : List AddrPolicy}
    (hrest : ∀ e ∈ rest, e.WellFormed) (hlen : (pre ++ rest).length ≤ 2 ^ 31)
    (h : Summarizes (ruleValue pre family) 1 (2 ^ 16) summary) :
    ∃ summary', rest.foldlM (policySummaryTurn family) summary = some summary' ∧
      Summarizes (ruleValue (pre ++ rest) family) 1 (2 ^ 16) summary' := by
  induction rest generalizing pre summary with
  | nil =>
    rw [List.append_nil]
    exact ⟨summary, rfl, h⟩
  | cons e rest ih =>
    rw [List.length_append, List.length_cons] at hlen
    obtain ⟨summary₁, hturn, hsummary₁⟩ :=
      policySummaryTurn_spec hfamily (hrest e (.head _)) (by omega) h
    obtain ⟨summary₂, hfold, hsummary₂⟩ :=
      ih (pre ++ [e]) (fun x hx => hrest x (.tail _ hx)) (by simpa using by omega) hsummary₁
    refine ⟨summary₂, ?_, by simpa using hsummary₂⟩
    rw [List.foldlM_cons, hturn]
    exact hfold

theorem policySummary_spec (hfamily : family ≠ .unspec) (hpolicy : ∀ e ∈ policy, e.WellFormed)
    (hlen : policy.length < 2 ^ 31) : ∃ summary, policySummary policy family = some summary ∧
      Summarizes (ruleValue policy family) 1 (2 ^ 16) summary := by
  have hstart : Summarizes (ruleValue [] family) 1 (2 ^ 16) policySummaryCreate := by
    refine ⟨rfl, by decide, ?_, rfl⟩
    intro x _ _
    rw [ruleValue, PolicySummaryItem.value]
    congr 1
    · rw [eq_iff_iff]
      constructor
      · rintro ⟨before, e, post, hnil, -⟩
        simp at hnil
      · intro h
        cases h
  exact policySummary_from [] hfamily hpolicy hlen.le hstart

end

end TorDaemon.Policies

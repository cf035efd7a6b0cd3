import TorDaemon.Policies.Addresses

/-! What the lookups without a port or without an address promise about the exact one. -/
namespace TorDaemon.Policies
open Library Library.DecisionList

/-- `ADDR_POLICY_ACCEPTED` or `ADDR_POLICY_REJECTED` -/
def AddrPolicyResult.IsDefinite (r : AddrPolicyResult) : Prop := r = .accepted ∨ r = .rejected

/-- The lookup without an address stops at the wildcard with a definite answer: the entries for
the port before it have masks and say the same. -/
structure Decides (port : ℕ) (before : List AddrPolicy) (wildcard : AddrPolicy) : Prop where
  onPort : wildcard.CoversPort port
  maskbits : wildcard.maskbits = 0
  before : ∀ e ∈ before, e.CoversPort port →
    e.maskbits ≠ 0 ∧ e.policyType = wildcard.policyType

/-- The entries that the lookup without an address does not look at make no difference for the
port. Each of them that says otherwise than the wildcard is dead, and, where the wildcard
rejects, some entry covers each address. -/
def TailHarmless (port : ℕ) (policy : List AddrPolicy) : Prop :=
  ∀ before wildcard after, policy = before ++ wildcard :: after → Decides port before wildcard →
    (∀ mid e rest, after = mid ++ e :: rest → e.policyType ≠ wildcard.policyType →
      ∀ addr : TorAddr, addr.family ≠ .unspec → e.Covers (addr, port) →
        ∃ e' ∈ before ++ wildcard :: mid, e'.Covers (addr, port)) ∧
    (wildcard.policyType = .reject → ∀ addr : TorAddr, addr.family ≠ .unspec →
      ∃ e ∈ policy, e.Covers (addr, port))

variable {addr : TorAddr} {port : ℕ} {policy before after : List AddrPolicy} {e w : AddrPolicy}
  {maybeAccept maybeReject : Bool} {t : PolicyType}

/-- The flag that keeps an answer from being definite. -/
def doubt (maybeAccept maybeReject : Bool) : PolicyType → Bool
  | .accept => maybeReject
  | .reject => maybeAccept

theorem definiteMatch_eq_result {s : PolicyType} :
    definiteMatch maybeAccept maybeReject s = t.result ↔
      s = t ∧ doubt maybeAccept maybeReject t = false := by
  cases s <;> cases t <;> cases maybeAccept <;> cases maybeReject <;>
    simp [definiteMatch, PolicyType.result, doubt]

theorem defaultMatch_eq_result (maybeAccept : Bool) : defaultMatch maybeReject = t.result ↔
      t = .accept ∧ doubt maybeAccept maybeReject t = false := by
  cases t <;> cases maybeReject <;> simp [defaultMatch, PolicyType.result, doubt]

theorem isDefinite_iff {r : AddrPolicyResult} : r.IsDefinite ↔ ∃ t : PolicyType, r = t.result := by
  constructor
  · intro h
    cases h with
    | inl h => exact ⟨.accept, h⟩
    | inr h => exact ⟨.reject, h⟩
  · rintro ⟨t, rfl⟩
    cases t with
    | accept => exact .inl rfl
    | reject => exact .inr rfl

/-! ### Without a port -/

/-- The flags remember the entries that may match, so a definite answer has none that says
otherwise behind it. -/
theorem noportLoop_sound (h : noportLoop addr maybeAccept maybeReject policy = t.result)
    (hport : 1 ≤ port ∧ port ≤ 65535) : doubt maybeAccept maybeReject t = false ∧
      compareKnownTorAddrToAddrPolicy addr port policy = t.result := by
  induction policy generalizing maybeAccept maybeReject with
  | nil =>
    have hdefault := (defaultMatch_eq_result maybeAccept).mp h
    exact ⟨hdefault.2, hdefault.1 ▸ rfl⟩
  | cons e policy ih =>
    simp only [noportLoop] at h
    simp only [compareKnownTorAddrToAddrPolicy]
    by_cases haddr : torAddrCompareMasked addr e.addr e.maskbits = 0
    · rw [if_pos haddr] at h
      rw [if_pos haddr]
      by_cases hall : e.prtMin ≤ 1 ∧ e.prtMax ≥ 65535
      · rw [if_pos hall] at h
        obtain ⟨htype, hdoubt⟩ := definiteMatch_eq_result.mp h
        refine ⟨hdoubt, ?_⟩
        rw [if_pos (by omega), htype]
      · rw [if_neg hall] at h
        cases hs : e.policyType with
        | accept =>
          rw [hs] at h
          obtain ⟨hdoubt, hrest⟩ := ih h
          cases t with
          | accept => exact ⟨hdoubt, by split_ifs <;> first | rfl | exact hrest⟩
          | reject => cases hdoubt
        | reject =>
          rw [hs] at h
          obtain ⟨hdoubt, hrest⟩ := ih h
          cases t with
          | accept => cases hdoubt
          | reject => exact ⟨hdoubt, by split_ifs <;> first | rfl | exact hrest⟩
    · rw [if_neg haddr] at h
      rw [if_neg haddr]
      exact ih h

/-! ### Without an address -/

theorem Decides.cons (h : Decides port before w)
    (he : e.CoversPort port → e.maskbits ≠ 0 ∧ e.policyType = w.policyType) :
    Decides port (e :: before) w := by
  refine ⟨h.onPort, h.maskbits, fun e' he' => ?_⟩
  cases List.mem_cons.mp he' with
  | inl heq => exact heq ▸ he
  | inr hmem => exact h.before e' hmem

theorem Decides.of_cons (h : Decides port (e :: before) w) : Decides port before w :=
  ⟨h.onPort, h.maskbits, fun e' he' => h.before e' (List.mem_cons_of_mem _ he')⟩

/-- Where the lookup without an address comes to a definite answer. -/
def Answers (port : ℕ) (policy : List AddrPolicy) (t : PolicyType) : Prop :=
  (∃ before w after, policy = before ++ w :: after ∧ Decides port before w ∧
    w.policyType = t) ∨
  (t = .accept ∧ ∀ e ∈ policy, e.CoversPort port → e.maskbits ≠ 0 ∧ e.policyType = .accept)

theorem Answers.skip (he : e.CoversPort port → e.maskbits ≠ 0 ∧ e.policyType = t) :
    Answers port (e :: policy) t ↔ Answers port policy t := by
  constructor
  · rintro (⟨before, w, after, heq, hdecides, htype⟩ | ⟨ht, hall⟩)
    · cases before with
      | nil =>
        obtain ⟨rfl, -⟩ := List.cons.inj heq
        exact absurd hdecides.maskbits (he hdecides.onPort).1
      | cons e' before =>
        cases heq
        exact .inl ⟨before, w, after, rfl, hdecides.of_cons, htype⟩
    · exact .inr ⟨ht, fun e' he' => hall e' (List.mem_cons_of_mem _ he')⟩
  · rintro (⟨before, w, after, rfl, hdecides, htype⟩ | ⟨ht, hall⟩)
    · exact .inl ⟨e :: before, w, after, rfl, hdecides.cons (htype ▸ he), htype⟩
    · refine .inr ⟨ht, fun e' he' => ?_⟩
      cases List.mem_cons.mp he' with
      | inl heq => exact heq ▸ ht ▸ he
      | inr hmem => exact hall e' hmem

theorem Answers.wildcard (hport : e.CoversPort port) (hmask : e.maskbits = 0) :
    Answers port (e :: policy) t ↔ e.policyType = t := by
  constructor
  · rintro (⟨before, w, after, heq, hdecides, htype⟩ | ⟨-, hall⟩)
    · cases before with
      | nil =>
        obtain ⟨rfl, -⟩ := List.cons.inj heq
        exact htype
      | cons e' before =>
        obtain ⟨rfl, -⟩ := List.cons.inj heq
        exact absurd hmask (hdecides.before _ List.mem_cons_self hport).1
    · exact absurd hmask (hall e List.mem_cons_self hport).1
  · intro htype
    exact .inl ⟨[], e, policy, rfl, ⟨hport, hmask, by simp⟩, htype⟩

/-- An entry that may match and says otherwise. -/
theorem Answers.doubtful (hport : e.CoversPort port) (hmask : e.maskbits ≠ 0)
    (htype : e.policyType ≠ t) : ¬ Answers port (e :: policy) t := by
  rintro (⟨before, w, after, heq, hdecides, ht⟩ | ⟨ht, hall⟩)
  · cases before with
    | nil =>
      obtain ⟨rfl, -⟩ := List.cons.inj heq
      exact hmask hdecides.maskbits
    | cons e' before =>
      obtain ⟨rfl, -⟩ := List.cons.inj heq
      exact htype ((hdecides.before _ List.mem_cons_self hport).2.trans ht)
  · exact htype (ht ▸ (hall e List.mem_cons_self hport).2)

theorem unknownLoop_eq_result : unknownLoop port maybeAccept maybeReject policy = t.result ↔
      doubt maybeAccept maybeReject t = false ∧ Answers port policy t := by
  induction policy generalizing maybeAccept maybeReject with
  | nil =>
    simp only [unknownLoop, defaultMatch_eq_result maybeAccept]
    simp [Answers, and_comm]
  | cons e policy ih =>
    simp only [unknownLoop]
    by_cases hport : e.CoversPort port
    · rw [if_pos (show e.prtMin ≤ port ∧ port ≤ e.prtMax from hport)]
      by_cases hmask : e.maskbits = 0
      · rw [if_pos hmask, definiteMatch_eq_result, Answers.wildcard hport hmask, and_comm]
      · rw [if_neg hmask]
        by_cases htype : e.policyType = t
        · rw [Answers.skip fun _ => ⟨hmask, htype⟩]
          subst htype
          cases hs : e.policyType with
          | accept => simpa only [hs, doubt] using @ih true maybeReject
          | reject => simpa only [hs, doubt] using @ih maybeAccept true
        · have hnot : ¬ Answers port (e :: policy) t := Answers.doubtful hport hmask htype
          refine iff_of_false (fun h => ?_) fun h => hnot h.2
          cases hs : e.policyType with
          | accept =>
            rw [hs] at h htype
            have hdoubt := (ih.mp h).1
            cases t with
            | accept => exact htype rfl
            | reject => cases hdoubt
          | reject =>
            rw [hs] at h htype
            have hdoubt := (ih.mp h).1
            cases t with
            | accept => cases hdoubt
            | reject => exact htype rfl
    · rw [if_neg (show ¬ (e.prtMin ≤ port ∧ port ≤ e.prtMax) from hport),
        Answers.skip fun h => absurd h hport]
      exact ih

/-! ### Against the exact lookup -/

/-- The answer of the wildcard is that of the exact lookup for every address just where the rest
of the policy is harmless. -/
theorem wildcard_sound_iff (hpolicy : policy = before ++ w :: after)
    (hdecides : Decides port before w) : (∀ addr : TorAddr, addr.family ≠ .unspec →
      compareKnownTorAddrToAddrPolicy addr port policy = w.policyType.result) ↔
    (∀ mid e rest, after = mid ++ e :: rest → e.policyType ≠ w.policyType →
      ∀ addr : TorAddr, addr.family ≠ .unspec → e.Covers (addr, port) →
        ∃ e' ∈ before ++ w :: mid, e'.Covers (addr, port)) ∧
    (w.policyType = .reject → ∀ addr : TorAddr, addr.family ≠ .unspec →
      ∃ e ∈ policy, e.Covers (addr, port)) := by
  simp only [compareKnown_eq_decision]
  constructor
  · intro hsound
    constructor
    · intro mid e rest hafter htype addr hfamily hcovers
      by_contra hnone
      push Not at hnone
      have hdecision := hsound addr hfamily
      rw [hpolicy, hafter, ← List.cons_append, ← List.append_assoc,
        decision_split hcovers hnone] at hdecision
      exact htype (PolicyType.result_injective hdecision)
    · intro hreject addr hfamily
      have hne : decision AddrPolicy.Covers (fun e => e.policyType.result) .accepted (addr, port)
          policy ≠ .accepted := by
        rw [hsound addr hfamily, hreject]
        decide
      by_contra hnone
      push Not at hnone
      exact hne (decision_eq_default hnone)
  · rintro ⟨hdead, hall⟩ addr hfamily
    by_cases hex : ∃ e ∈ policy, e.Covers (addr, port)
    · obtain ⟨pre, e, suf, heq, hcovers, hpre⟩ := exists_first hex
      rw [heq, decision_split hcovers hpre]
      congr 1
      by_contra htype
      cases List.append_eq_append_iff.mp (heq.symm.trans hpolicy) with
      | inl h =>
        obtain ⟨mid, rfl, htail⟩ := h
        cases mid with
        | nil => exact htype (congrArg _ (List.cons.inj htail).1)
        | cons m mid =>
          obtain ⟨rfl, -⟩ := List.cons.inj htail
          exact htype (hdecides.before _ (by simp) hcovers.2).2
      | inr h =>
        obtain ⟨mid, rfl, htail⟩ := h
        cases mid with
        | nil => exact htype (congrArg _ (List.cons.inj htail).1.symm)
        | cons m mid =>
          -- behind the wildcard, so not the first entry that covers the address
          obtain ⟨rfl, hafter⟩ := List.cons.inj htail
          obtain ⟨e', he', hcovers'⟩ := hdead mid e suf hafter htype addr hfamily hcovers
          exact hpre e' he' hcovers'
    · push Not at hex
      rw [decision_eq_default hex]
      cases ht : w.policyType with
      | accept => rfl
      | reject =>
        obtain ⟨e, he, hcovers⟩ := hall ht addr hfamily
        exact absurd hcovers (hex e he)

/-- The lookup without an address promises nothing wrong just where the tail is harmless. -/
theorem unknown_sound_iff :
    (∀ t : PolicyType, compareUnknownTorAddrToAddrPolicy port policy = t.result →
      ∀ addr : TorAddr, addr.family ≠ .unspec →
        compareKnownTorAddrToAddrPolicy addr port policy = t.result) ↔
      TailHarmless port policy := by
  have hanswers (t : PolicyType) : compareUnknownTorAddrToAddrPolicy port policy = t.result ↔
      Answers port policy t := by
    rw [compareUnknownTorAddrToAddrPolicy, unknownLoop_eq_result]
    cases t <;> simp [doubt]
  simp only [hanswers]
  constructor
  · intro hsound before w after hpolicy hdecides
    apply (wildcard_sound_iff hpolicy hdecides).mp
    exact hsound w.policyType (.inl ⟨before, w, after, hpolicy, hdecides, rfl⟩)
  · intro hharmless t hanswer
    cases hanswer with
    | inl hwild =>
      obtain ⟨before, w, after, hpolicy, hdecides, rfl⟩ := hwild
      exact (wildcard_sound_iff hpolicy hdecides).mpr
        (hharmless before w after hpolicy hdecides)
    | inr hdefault =>
      -- no wildcard, and only accept entries: nothing rejects
      intro addr _
      obtain ⟨rfl, hall⟩ := hdefault
      rw [compareKnown_eq_decision]
      by_cases hex : ∃ e ∈ policy, e.Covers (addr, port)
      · apply decision_of_forall hex
        intro e he hcovers
        rw [(hall e he hcovers.2).2]
      · push Not at hex
        rw [decision_eq_default hex]
        rfl

/-- A definite answer without a port is that of the exact lookup for every port. One without an
address is that of the exact lookup for every IPv4 and IPv6 address just where the entries
behind the wildcard that gave it are harmless: it covers the addresses of one family only. -/
theorem definite_answers (policy : List AddrPolicy) :
    (∀ addr : TorAddr, addr.isNull = false → ∀ r : AddrPolicyResult, r.IsDefinite →
      compareTorAddrToAddrPolicy (some addr) 0 (some policy) = r →
      ∀ port, 1 ≤ port → port ≤ 65535 →
        compareTorAddrToAddrPolicy (some addr) port (some policy) = r) ∧
    ∀ port, 1 ≤ port → port ≤ 65535 →
      ((∀ unknown : Option TorAddr, (∀ a ∈ unknown, a.isNull = true) →
        ∀ r : AddrPolicyResult, r.IsDefinite →
        compareTorAddrToAddrPolicy unknown port (some policy) = r →
        ∀ addr : TorAddr, addr.family ≠ .unspec →
          compareKnownTorAddrToAddrPolicy addr port policy = r) ↔
        TailHarmless port policy) := by
  constructor
  · intro addr hnull r hdefinite hanswer port hlow hhigh
    obtain ⟨t, rfl⟩ := isDefinite_iff.mp hdefinite
    have hport : port ≠ 0 := by omega
    simp only [compareTorAddrToAddrPolicy, Option.filter, hnull, Bool.not_false, if_true,
      compareKnownTorAddrToAddrPolicyNoport] at hanswer
    simp only [compareTorAddrToAddrPolicy, Option.filter, hnull, Bool.not_false, if_true,
      if_neg hport]
    exact (noportLoop_sound hanswer ⟨hlow, hhigh⟩).2
  · intro port hlow hhigh
    have hport : port ≠ 0 := by omega
    have hunknown (unknown : Option TorAddr) (h : ∀ a ∈ unknown, a.isNull = true) :
        compareTorAddrToAddrPolicy unknown port (some policy) =
          compareUnknownTorAddrToAddrPolicy port policy := by
      have hfilter : unknown.filter (fun addr => !addr.isNull) = none := by
        rw [Option.filter_eq_none_iff]
        intro a ha
        simp [h a ha]
      simp only [compareTorAddrToAddrPolicy, hfilter, if_neg hport]
    rw [← unknown_sound_iff]
    constructor
    · intro hsound t ht
      exact hsound none (by simp) t.result (isDefinite_iff.mpr ⟨t, rfl⟩)
        ((hunknown none (by simp)).trans ht)
    · intro hsound unknown hnull r hdefinite hanswer
      obtain ⟨t, rfl⟩ := isDefinite_iff.mp hdefinite
      exact hsound t ((hunknown unknown hnull).symm.trans hanswer)

/-- "reject *4:80" -/
def rejectStar4 : List AddrPolicy :=
  [.ofPorts .reject 0 (.inet 0) 80 80]

/-- 2600::1 -/
def someIpv6 : TorAddr := .inet6 ⟨[38, 0, 0, 0, 0, 0, 0, 0, 0, 0, 0, 0, 0, 0, 0, 1], rfl⟩

/-- Without an address the answer for port 80 is that it is rejected, but the IPv6 addresses are
accepted. -/
theorem rejectStar4_not_sound : ¬ (∀ r : AddrPolicyResult, r.IsDefinite →
      compareTorAddrToAddrPolicy none 80 (some rejectStar4) = r →
      ∀ addr : TorAddr, addr.family ≠ .unspec →
        compareTorAddrToAddrPolicy (some addr) 80 (some rejectStar4) = r) := by
  intro hsound
  have hipv6 := hsound .rejected (.inr rfl) (by decide) someIpv6 (by decide)
  exact absurd hipv6 (by decide)

end TorDaemon.Policies

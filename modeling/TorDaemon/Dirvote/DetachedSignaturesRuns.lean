import TorDaemon.Dirvote.DetachedSignatures

/-! What signatures a consensus has over a sequence of calls. -/
namespace TorDaemon.Dirvote
open Library.NetworkOrder SharedRandom Container

variable {Key : Type} {auth : Authorities Key} {target target' : Consensus}
  {sig : DocumentSignature} {v w : VoterInfo} {voters : List VoterInfo}
  {siglist : List DocumentSignature} {id : Digest} {alg : CommonDigestAlgorithm}

section Tried

theorem checkDocumentSignature_fields (cert : AuthorityCert Key) :
    (networkstatusCheckDocumentSignature auth target sig cert).2.identityDigest =
      sig.identityDigest ∧
    (networkstatusCheckDocumentSignature auth target sig cert).2.alg = sig.alg := by
  unfold networkstatusCheckDocumentSignature
  split
  · exact ⟨rfl, rfl⟩
  · split_ifs
    · exact ⟨rfl, rfl⟩
    · exact ⟨rfl, rfl⟩
    · split
      · exact ⟨rfl, rfl⟩
      · dsimp only
        split_ifs <;> exact ⟨rfl, rfl⟩

@[simp] theorem tried_identityDigest :
    (tried auth target sig).identityDigest = sig.identityDigest := by
  unfold tried
  split_ifs
  · split
    · rfl
    · exact (checkDocumentSignature_fields _).1
  · rfl

@[simp] theorem tried_alg : (tried auth target sig).alg = sig.alg := by
  unfold tried
  split_ifs
  · split
    · rfl
    · exact (checkDocumentSignature_fields _).2
  · rfl

theorem checkDocumentSignature_good {cert : AuthorityCert Key} (h : sig.goodSignature = false) :
    (networkstatusCheckDocumentSignature auth target sig cert).2.goodSignature ↔
      auth.pkGetDigest cert.signingKey = some sig.signingKeyDigest ∧
        sig.identityDigest = cert.identityDigest ∧ auth.isDenylisted cert = false ∧
        ∃ signedDigest, auth.pkPublicChecksig cert.signingKey sig.signature = some signedDigest ∧
          sig.alg.digestLen ≤ signedDigest.length ∧
          signedDigest.take sig.alg.digestLen =
            (target.digests sig.alg).val.take sig.alg.digestLen := by
  unfold networkstatusCheckDocumentSignature
  cases hkey : auth.pkGetDigest cert.signingKey with
  | none => simp [h]
  | some keyDigest =>
    by_cases hids : sig.signingKeyDigest ≠ keyDigest ∨ sig.identityDigest ≠ cert.identityDigest
    · simp only [if_pos hids, h, Bool.false_eq_true, Option.some.injEq, false_iff]
      rintro ⟨rfl, hid, -⟩
      simp [hid] at hids
    · rw [not_or, not_not, not_not] at hids
      cases hdeny : auth.isDenylisted cert with
      | true => simp [hids, h]
      | false =>
        cases hsigned : auth.pkPublicChecksig cert.signingKey sig.signature with
        | none => simp [hids, h]
        | some signedDigest =>
          simp only [hids, ne_eq, not_true_eq_false, or_self, if_false, Bool.false_eq_true,
            Option.some.injEq, true_and, exists_eq_left']
          split_ifs with hbad
          · simp only [h, Bool.false_eq_true, false_iff, not_and]
            intro hle heq
            rcases hbad with hbad | hbad
            · exact absurd hle (Nat.not_le.mpr hbad)
            · exact hbad heq
          · rw [not_or, Nat.not_lt, not_not] at hbad
            exact ⟨fun _ => hbad, fun _ => rfl⟩

theorem tried_good_iff : (tried auth target sig).goodSignature ↔ Verifies auth target sig := by
  unfold tried Verifies
  cases hgood : sig.goodSignature with
  | true => simp [hgood]
  | false =>
    cases hbad : sig.badSignature with
    | true => simp [hgood]
    | false =>
      cases hcert : auth.authorityCertGetByDigests sig.identityDigest sig.signingKeyDigest with
      | none => simp [hgood]
      | some cert => simpa using checkDocumentSignature_good hgood

theorem tried_congr (h : target'.digests = target.digests) :
    tried auth target' sig = tried auth target sig := by
  simp only [tried, networkstatusCheckDocumentSignature, h]

end Tried

section Voters

@[simp] theorem addToVoter_identityDigest :
    (addToVoter auth target sig v).1.identityDigest = v.identityDigest := by
  unfold addToVoter
  split
  · rfl
  · dsimp only
    split_ifs <;> rfl

theorem addToVoters_forall₂ {R : VoterInfo → VoterInfo → Prop} (hrefl : ∀ v, R v v)
    (hadd : ∀ v, v ∈ voters → v.identityDigest = sig.identityDigest →
      R v (addToVoter auth target sig v).1) :
    List.Forall₂ R voters (addToVoters auth target sig voters).1 := by
  induction voters with
  | nil => exact .nil
  | cons v voters ih =>
    unfold addToVoters
    split_ifs with hid
    · exact .cons (hadd v List.mem_cons_self hid) (List.forall₂_same.mpr fun w _ => hrefl w)
    · exact .cons (hrefl v) (ih fun w hw => hadd w (List.mem_cons_of_mem v hw))

theorem addToVoters_snd : (addToVoters auth target sig voters).2 =
    match networkstatusGetVoterById voters sig.identityDigest with
    | none => (sig, 0)
    | some v => (addToVoter auth target sig v).2 := by
  induction voters with
  | nil => rfl
  | cons v voters ih =>
    by_cases hid : v.identityDigest = sig.identityDigest
    · simp [addToVoters, networkstatusGetVoterById, hid]
    · simpa [addToVoters, networkstatusGetVoterById, hid] using ih

theorem getVoterById_addToVoters :
    networkstatusGetVoterById (addToVoters auth target sig voters).1 id =
      if id = sig.identityDigest then
        (networkstatusGetVoterById voters id).map fun v => (addToVoter auth target sig v).1
      else networkstatusGetVoterById voters id := by
  induction voters with
  | nil => simp [addToVoters, networkstatusGetVoterById]
  | cons v voters ih =>
    unfold networkstatusGetVoterById at ih ⊢
    by_cases hid : v.identityDigest = sig.identityDigest
    · by_cases hv : v.identityDigest = id
      · subst hv
        simp [addToVoters, hid]
      · have hne : id ≠ sig.identityDigest := fun h => hv (hid.trans h.symm)
        simp [addToVoters, hid, hne, Ne.symm hne]
    · by_cases hv : v.identityDigest = id
      · subst hv
        simp [addToVoters, hid]
      · simpa [addToVoters, hid, hv] using ih

/-- The voters stay as they are when nothing is counted. -/
theorem addToVoters_of_zero (h : (addToVoters auth target sig voters).2.2 = 0) :
    (addToVoters auth target sig voters).1 = voters := by
  induction voters with
  | nil => rfl
  | cons v voters ih =>
    unfold addToVoters at h ⊢
    split_ifs at h ⊢ with hid
    · have hv : (addToVoter auth target sig v).1 = v := by
        unfold addToVoter at h ⊢
        split
        · simp_all
        · dsimp only at h ⊢
          split_ifs <;> simp_all
      simp only [hv]
    · simp only [ih h]

end Voters

section Stored

/-- What a voter has for an algorithm after a signature that was tried. -/
def settle (old : Option DocumentSignature) (s : DocumentSignature) : DocumentSignature :=
  match old with
  | none => s
  | some old =>
    if old.goodSignature then old
    else if s.goodSignature ∨ old.badSignature then s
    else old

theorem getVoterSigByAlg_addToVoter (h : (v.sigs.map (·.alg)).Nodup) :
    networkstatusGetVoterSigByAlg (addToVoter auth target sig v).1 alg =
      if alg = sig.alg then
        some (settle (networkstatusGetVoterSigByAlg v alg) (tried auth target sig))
      else networkstatusGetVoterSigByAlg v alg := by
  unfold addToVoter
  split
  case h_1 hnone =>
    by_cases halg : alg = sig.alg
    · subst halg
      unfold networkstatusGetVoterSigByAlg at hnone ⊢
      simp [List.find?_append, hnone, settle]
    · have hne : sig.alg ≠ alg := Ne.symm halg
      rw [if_neg halg]
      simp [networkstatusGetVoterSigByAlg, List.find?_append, hne]
  case h_2 old hold =>
    by_cases halg : alg = sig.alg
    · subst halg
      rw [if_pos rfl, hold]
      simp only [settle]
      split_ifs with hgood hadd
      · exact hold
      · unfold networkstatusGetVoterSigByAlg
        rw [List.find?_append, List.find?_eq_none.mpr]
        · simp
        · intro s hs
          simpa using ((Smartlist.mem_remove h).mp hs).2
      · exact hold
    · rw [if_neg halg]
      dsimp only
      split_ifs
      · rfl
      · have hnodup := Smartlist.nodup_remove_append h (tried auth target sig)
        rw [tried_alg] at hnodup
        apply Smartlist.find?_congr_of_nodup hnodup h
        intro s hs
        rw [List.mem_append, Smartlist.mem_remove h, List.mem_singleton]
        constructor
        · rintro (⟨hmem, -⟩ | rfl)
          · exact hmem
          · exact absurd (hs.symm.trans tried_alg) halg
        · intro hmem
          exact Or.inl ⟨hmem, fun h' => halg (hs.symm.trans h')⟩
      · rfl

theorem addToVoter_keepsGood (h : (v.sigs.map (·.alg)).Nodup) :
    ∀ s ∈ v.sigs, s.goodSignature → s ∈ (addToVoter auth target sig v).1.sigs := by
  intro s hs hgood
  unfold addToVoter
  split
  · exact List.mem_append_left _ hs
  case h_2 old hold =>
    dsimp only
    split_ifs with holdGood hadd
    · exact hs
    · refine List.mem_append_left _ ((Smartlist.mem_remove h).mpr ⟨hs, fun halg => holdGood ?_⟩)
      rwa [Option.some.inj (hold.symm.trans
        ((Smartlist.find?_eq_some_iff_of_nodup h).mpr ⟨hs, halg⟩))]
    · exact hs

theorem addToVoter_signed (hid : v.identityDigest = sig.identityDigest)
    (h : (∀ s ∈ v.sigs, s.identityDigest = v.identityDigest) ∧ (v.sigs.map (·.alg)).Nodup) :
    (∀ s ∈ (addToVoter auth target sig v).1.sigs,
        s.identityDigest = (addToVoter auth target sig v).1.identityDigest) ∧
      ((addToVoter auth target sig v).1.sigs.map (·.alg)).Nodup := by
  unfold addToVoter
  split
  case h_1 hnone =>
    constructor
    · intro s hs
      rcases List.mem_append.mp hs with hs | hs
      · exact h.1 s hs
      · rw [List.mem_singleton.mp hs, tried_identityDigest, hid]
    · have hne : ∀ s ∈ v.sigs, s.alg ≠ sig.alg := by
        simpa [networkstatusGetVoterSigByAlg] using hnone
      rw [List.map_append, List.nodup_append]
      refine ⟨h.2, by simp, ?_⟩
      simpa using hne
  case h_2 old hold =>
    dsimp only
    split_ifs
    · exact h
    · constructor
      · intro s hs
        rcases List.mem_append.mp hs with hs | hs
        · exact h.1 s ((Smartlist.mem_remove h.2).mp hs).1
        · rw [List.mem_singleton.mp hs, tried_identityDigest, hid]
      · have hnodup := Smartlist.nodup_remove_append h.2 (tried auth target sig)
        rwa [tried_alg] at hnodup
    · exact h

end Stored

section Passes

theorem forall_mem_of_forall₂ {P : VoterInfo → Prop} {voters' : List VoterInfo}
    (h : List.Forall₂ (fun v v' => P v → P v') voters voters') (hall : ∀ v ∈ voters, P v) :
    ∀ v ∈ voters', P v := by
  induction h with
  | nil => exact hall
  | cons hv _ ih =>
    rw [List.forall_mem_cons] at hall ⊢
    exact ⟨hv hall.1, ih hall.2⟩

theorem addSignature_signed (h : Signed target) : Signed (addSignature auth target sig).1 :=
  forall_mem_of_forall₂
    (addToVoters_forall₂ (fun _ h => h) fun _ _ hid h => addToVoter_signed hid h) h

theorem addSignature_keepsGood (h : Signed target) :
    KeepsGood target.voters (addSignature auth target sig).1.voters :=
  addToVoters_forall₂ (fun _ => ⟨rfl, fun _ hs _ => hs⟩) fun v hv _ =>
    ⟨addToVoter_identityDigest, addToVoter_keepsGood (h v hv).2⟩

/-- The one thing that a pass may do wrong is to put a signature that does not verify in the place
of one that was found bad. -/
theorem passRight_iff (h : Signed target) : PassRight auth target sig ↔
    ∀ v, networkstatusGetVoterById target.voters sig.identityDigest = some v →
      ∀ old, networkstatusGetVoterSigByAlg v sig.alg = some old →
        old.badSignature → old.goodSignature = false → (tried auth target sig).goodSignature := by
  have hsnd : (addSignature auth target sig).2 = _ := addToVoters_snd
  constructor
  · intro hright v hv old hold hbad hgood
    rw [tried_good_iff]
    apply hright.replaces v hv (by simp [hold])
    rw [hsnd, hv]
    simp [addToVoter, hold, hgood, hbad]
  · intro hbad
    refine ⟨addSignature_keepsGood h, ?_, ?_, ?_⟩
    · intro hnone
      have hzero : (addSignature auth target sig).2.2 = 0 := by rw [hsnd, hnone]
      have hvoters : (addSignature auth target sig).1.voters = target.voters :=
        addToVoters_of_zero hzero
      exact ⟨congrArg (fun voters => { target with voters }) hvoters, hzero⟩
    · intro hzero
      have hvoters : (addSignature auth target sig).1.voters = target.voters :=
        addToVoters_of_zero hzero
      exact congrArg (fun voters => { target with voters }) hvoters
    · intro v hv hsome hcount
      obtain ⟨old, hold⟩ := Option.ne_none_iff_exists'.mp hsome
      rw [hsnd, hv] at hcount
      rw [← tried_good_iff]
      simp only [addToVoter, hold] at hcount
      split_ifs at hcount with hgood hadd
      · exact absurd rfl hcount
      · exact hadd.elim id fun hb => hbad v hv old hold hb (by simpa using hgood)
      · exact absurd rfl hcount

theorem addSignatures_digests : (addSignatures auth target siglist).1.digests = target.digests := by
  induction siglist generalizing target with
  | nil => rfl
  | cons sig siglist ih => exact ih.trans (by rw [addSignature])

theorem addSignatures_signed (h : Signed target) : Signed (addSignatures auth target siglist).1 := by
  induction siglist generalizing target with
  | nil => exact h
  | cons sig siglist ih => exact ih (addSignature_signed h)

theorem KeepsGood.refl (voters : List VoterInfo) : KeepsGood voters voters :=
  List.forall₂_same.mpr fun _ _ => ⟨rfl, fun _ hs _ => hs⟩

theorem KeepsGood.trans {voters₁ voters₂ voters₃ : List VoterInfo} (h : KeepsGood voters₁ voters₂)
    (h' : KeepsGood voters₂ voters₃) : KeepsGood voters₁ voters₃ := by
  induction h generalizing voters₃ with
  | nil => exact h'
  | cons hv _ ih =>
    cases h' with
    | cons hv' hvs' =>
      refine .cons ⟨hv'.1.trans hv.1, fun s hs hgood => ?_⟩ (ih hvs')
      exact hv'.2 s (hv.2 s hs hgood) hgood

theorem addSignatures_keepsGood (h : Signed target) :
    KeepsGood target.voters (addSignatures auth target siglist).1.voters := by
  induction siglist generalizing target with
  | nil => exact .refl _
  | cons sig siglist ih =>
    exact (addSignature_keepsGood h).trans (ih (addSignature_signed h))

theorem getVoterById_addSignatures (h : Signed target)
    (hv : networkstatusGetVoterById target.voters id = some v) :
    ∃ v', networkstatusGetVoterById (addSignatures auth target siglist).1.voters id = some v' ∧
      ∀ alg, networkstatusGetVoterSigByAlg v' alg =
        ((siglist.filter fun s => s.identityDigest = id ∧ s.alg = alg).map
          (tried auth target)).foldl (fun old s => some (settle old s))
            (networkstatusGetVoterSigByAlg v alg) := by
  induction siglist generalizing target v with
  | nil => exact ⟨v, hv, fun _ => rfl⟩
  | cons sig siglist ih =>
    have htried : tried auth (addSignature auth target sig).1 = tried auth target := by
      funext s
      exact tried_congr rfl
    have hnodup : (v.sigs.map (·.alg)).Nodup := (h v (List.mem_of_find?_eq_some hv)).2
    have hget := @getVoterById_addToVoters _ auth target sig target.voters id
    by_cases hid : id = sig.identityDigest
    · rw [if_pos hid, hv] at hget
      obtain ⟨v', hv', hsigs⟩ := ih (addSignature_signed h) hget
      refine ⟨v', hv', fun alg => ?_⟩
      rw [hsigs alg, htried, getVoterSigByAlg_addToVoter hnodup]
      by_cases halg : alg = sig.alg
      · simp [hid, halg]
      · simp [hid, halg, Ne.symm halg]
    · rw [if_neg hid, hv] at hget
      obtain ⟨v', hv', hsigs⟩ := ih (addSignature_signed h) hget
      refine ⟨v', hv', fun alg => ?_⟩
      rw [hsigs alg, htried]
      simp [Ne.symm hid]

theorem getVoterById_addSignatures_of_none
    (hv : networkstatusGetVoterById target.voters id = none) :
    networkstatusGetVoterById (addSignatures auth target siglist).1.voters id = none := by
  induction siglist generalizing target with
  | nil => exact hv
  | cons sig siglist ih =>
    apply ih
    rw [addSignature, getVoterById_addToVoters, hv]
    simp

end Passes

section Calls

theorem foldl_settle_good {old : DocumentSignature} (hgood : old.goodSignature)
    (l : List DocumentSignature) :
    l.foldl (fun old s => some (settle old s)) (some old) = some old := by
  induction l with
  | nil => rfl
  | cons s l ih => simpa [settle, hgood] using ih

/-- A signature that was not tried stays until one is good. -/
theorem foldl_settle_untried {old stored : DocumentSignature} (hgood : old.goodSignature = false)
    (hbad : old.badSignature = false) {l : List DocumentSignature}
    (h : l.foldl (fun old s => some (settle old s)) (some old) = some stored) :
    stored = old ∨ stored.goodSignature := by
  induction l with
  | nil => exact Or.inl (Option.some.inj h).symm
  | cons s l ih =>
    rw [List.foldl_cons] at h
    cases hs : s.goodSignature with
    | true =>
      have hsettle : settle (some old) s = s := by simp [settle, hgood, hs]
      rw [hsettle, foldl_settle_good hs] at h
      cases h
      exact Or.inr hs
    | false =>
      have hsettle : settle (some old) s = old := by simp [settle, hgood, hbad, hs]
      rw [hsettle] at h
      exact ih h

/-- A bad signature is replaced by whatever comes next, so only the first two that come in turn
decide. -/
theorem replaced_good_iff (stored : Option DocumentSignature) (l : List DocumentSignature) :
    (∀ before s after, l = before ++ s :: after → ∀ old,
      before.foldl (fun old s => some (settle old s)) stored = some old →
        old.badSignature → old.goodSignature = false → s.goodSignature) ↔
      ∀ first second rest, stored.toList ++ l = first :: second :: rest →
        first.badSignature → first.goodSignature = false → second.goodSignature := by
  have hfrom : ∀ (old : DocumentSignature) (l : List DocumentSignature),
      (∀ before s after, l = before ++ s :: after → ∀ old',
        before.foldl (fun old s => some (settle old s)) (some old) = some old' →
          old'.badSignature → old'.goodSignature = false → s.goodSignature) ↔
      ∀ second rest, l = second :: rest →
        old.badSignature → old.goodSignature = false → second.goodSignature := by
    intro old l
    constructor
    · intro h second rest hl
      exact h [] second rest hl old rfl
    · intro h before s after hl old' hold' hbad' hgood'
      cases hgood : old.goodSignature with
      | true =>
        rw [foldl_settle_good hgood] at hold'
        rw [Option.some.inj hold', hgood'] at hgood
        cases hgood
      | false =>
        cases hbad : old.badSignature with
        | false =>
          rcases foldl_settle_untried hgood hbad hold' with rfl | hgood''
          · rw [hbad'] at hbad
            cases hbad
          · rw [hgood'] at hgood''
            cases hgood''
        | true =>
          cases before with
          | nil => exact h s after hl hbad hgood
          | cons second before =>
            have hsecond : second.goodSignature :=
              h second (before ++ s :: after) hl hbad hgood
            have hsettle : settle (some old) second = second := by simp [settle, hgood, hsecond]
            rw [List.foldl_cons, hsettle, foldl_settle_good hsecond] at hold'
            rw [Option.some.inj hold', hgood'] at hsecond
            cases hsecond
  cases stored with
  | some old =>
    rw [hfrom old l]
    constructor
    · intro h first second rest hl
      obtain ⟨rfl, hrest⟩ := List.cons.inj hl
      exact h second rest hrest
    · intro h second rest hl
      exact h old second rest (congrArg (old :: ·) hl)
  | none =>
    cases l with
    | nil => simp
    | cons first l =>
      have hrest := hfrom first l
      constructor
      · intro h first' second rest hl
        obtain ⟨rfl, htail⟩ := List.cons.inj hl
        refine hrest.mp (fun before s after hl' => ?_) second rest htail
        exact h (first :: before) s after (congrArg (first :: ·) hl')
      · intro h before s after hl
        cases before with
        | nil =>
          intro old hold
          cases hold
        | cons second before =>
          obtain ⟨rfl, htail⟩ := List.cons.inj hl
          exact hrest.mpr (fun second rest hl' => h first second rest (congrArg (first :: ·) hl'))
            before s after htail

theorem passes_iff (h : Signed target) : (∀ before sig after, siglist = before ++ sig :: after →
      PassRight auth (addSignatures auth target before).1 sig) ↔
    ∀ id v, networkstatusGetVoterById target.voters id = some v → ∀ alg first second rest,
      inTurn auth target siglist v alg = first :: second :: rest →
        first.badSignature → first.goodSignature = false → second.goodSignature := by
  have hvid : ∀ {id v}, networkstatusGetVoterById target.voters id = some v →
      v.identityDigest = id := fun hv => by simpa using List.find?_some hv
  have htried : ∀ l, tried auth (addSignatures auth target l).1 = tried auth target := by
    intro l
    funext s
    exact tried_congr addSignatures_digests
  constructor
  · intro hpasses id v hv alg
    apply (replaced_good_iff _ _).mp
    intro before s after hl old hold hbad hgood
    obtain ⟨before', rest, hfilter, rfl, hrest⟩ := List.map_eq_append_iff.mp hl
    obtain ⟨s, after', rfl, rfl, rfl⟩ := List.map_eq_cons_iff.mp hrest
    obtain ⟨l₁, l₂, rfl, rfl, hl₂⟩ := List.filter_eq_append_iff.mp hfilter
    obtain ⟨l₃, l₄, rfl, hl₃, hs, -⟩ := List.filter_eq_cons_iff.mp hl₂
    simp only [Bool.decide_and, Bool.and_eq_true, decide_eq_true_eq] at hs
    obtain ⟨hsid, rfl⟩ := hs
    have hbefore : (l₁ ++ l₃).filter
        (fun t => decide (t.identityDigest = id ∧ t.alg = s.alg)) =
        l₁.filter fun t => decide (t.identityDigest = v.identityDigest ∧ t.alg = s.alg) := by
      have hnil : l₃.filter (fun t => decide (t.identityDigest = id ∧ t.alg = s.alg)) = [] := by
        rw [List.filter_eq_nil_iff, ← hvid hv]
        exact hl₃
      rw [List.filter_append, hvid hv, hnil, List.append_nil]
    obtain ⟨v', hv', hsigs⟩ := @getVoterById_addSignatures _ auth target v (l₁ ++ l₃) id h hv
    have hpass := (passRight_iff (addSignatures_signed h)).mp
      (hpasses (l₁ ++ l₃) s l₄ (by simp)) v' (by rw [hsid, hvid hv]; exact hv') old
      (by rw [hsigs, hbefore]; exact hold) hbad hgood
    rwa [htried] at hpass
  · intro hturn before sig after hl
    rw [passRight_iff (addSignatures_signed h)]
    intro v' hv' old hold hbad hgood
    rw [htried]
    cases hv : networkstatusGetVoterById target.voters sig.identityDigest with
    | none =>
      rw [getVoterById_addSignatures_of_none hv] at hv'
      cases hv'
    | some v =>
      obtain ⟨v'', hv'', hsigs⟩ := @getVoterById_addSignatures _ auth target v before _ h hv
      cases hv'.symm.trans hv''
      rw [hsigs] at hold
      have hturn' := (replaced_good_iff _ _).mpr (hturn _ v hv sig.alg)
      rw [hvid hv] at hturn'
      refine hturn' _ (tried auth target sig) ((after.filter fun s =>
        s.identityDigest = sig.identityDigest ∧ s.alg = sig.alg).map (tried auth target))
        ?_ old hold hbad hgood
      rw [hl, List.filter_append, List.filter_cons_of_pos (by simp), List.map_append,
        List.map_cons]

theorem matchDigests_iff {digests : CommonDigests} :
    (matchDigests target digests [.sha1, .sha256]).isSome ↔
      ∀ alg, digests alg ≠ zeroDigest → target.digests alg = digests alg := by
  have hforall : (∀ alg, digests alg ≠ zeroDigest → target.digests alg = digests alg) ↔
      (digests .sha1 ≠ zeroDigest → target.digests .sha1 = digests .sha1) ∧
      (digests .sha256 ≠ zeroDigest → target.digests .sha256 = digests .sha256) := by
    constructor
    · exact fun h => ⟨h .sha1, h .sha256⟩
    · intro h alg
      cases alg with
      | sha1 => exact h.1
      | sha256 => exact h.2
  unfold matchDigests matchDigests matchDigests
  split_ifs with h1 h2 h2 h2 h2 <;> simp_all

/-- The call gets to the loop over the signatures. -/
structure Proceeds (target : Consensus) (sigs : DetachedSignatures)
    (siglist : List DocumentSignature) (digests : CommonDigests) : Prop where
  validAfter : target.validAfter = sigs.validAfter
  freshUntil : target.freshUntil = sigs.freshUntil
  validUntil : target.validUntil = sigs.validUntil
  siglistFound : sigs.signatures target.flavor = some siglist
  digestsFound : sigs.digests target.flavor = some digests
  agree : ∀ alg, digests alg ≠ zeroDigest → target.digests alg = digests alg

variable {sigs : DetachedSignatures} {digests : CommonDigests}

theorem Proceeds.outcome (h : Proceeds target sigs siglist digests) :
    (networkstatusAddDetachedSignatures auth target sigs).target =
        (addSignatures auth target siglist).1 ∧
      0 ≤ (networkstatusAddDetachedSignatures auth target sigs).result := by
  obtain ⟨n, hn⟩ := Option.isSome_iff_exists.mp (matchDigests_iff.mpr h.agree)
  simp [networkstatusAddDetachedSignatures, h.validAfter, h.freshUntil, h.validUntil,
    h.siglistFound, h.digestsFound, hn]

theorem refused_of_not_proceeds (h : ∀ siglist digests, ¬ Proceeds target sigs siglist digests) :
    (networkstatusAddDetachedSignatures auth target sigs).target = target ∧
      (networkstatusAddDetachedSignatures auth target sigs).result = -1 := by
  unfold networkstatusAddDetachedSignatures
  split_ifs with h1 h2 h3
  · exact ⟨rfl, rfl⟩
  · exact ⟨rfl, rfl⟩
  · exact ⟨rfl, rfl⟩
  · split
    · exact ⟨rfl, rfl⟩
    case h_2 siglist hsiglist =>
      split
      · exact ⟨rfl, rfl⟩
      case h_2 digests hdigests =>
        split
        · exact ⟨rfl, rfl⟩
        case h_2 n hn =>
          have hagree := matchDigests_iff.mp (Option.isSome_iff_exists.mpr ⟨n, hn⟩)
          exact absurd ⟨not_not.mp h1, not_not.mp h2, not_not.mp h3, hsiglist, hdigests, hagree⟩
            (h siglist digests)

theorem callRight_iff (h : Signed target) :
    CallRight auth target sigs ↔ CallSound auth target sigs := by
  constructor
  · intro hright
    constructor
    · intro hva hfu hvu hsiglist digests hdigests
      by_contra hzero
      obtain ⟨siglist, hsiglist⟩ := Option.ne_none_iff_exists'.mp hsiglist
      rw [not_exists] at hzero
      have hproceeds : Proceeds target sigs siglist digests :=
        ⟨hva, hfu, hvu, hsiglist, hdigests, fun alg hne => absurd hne (hzero alg)⟩
      have hrefused := hright.refuses fun hcorr => by
        obtain ⟨digests', hdigests', -, alg, hne⟩ := hcorr.digests
        rw [hdigests] at hdigests'
        exact hzero alg (Option.some.inj hdigests' ▸ hne)
      have hresult := (@Proceeds.outcome _ auth _ _ _ _ hproceeds).2
      omega
    · intro hcorr siglist hsiglist
      obtain ⟨digests, hdigests, hagree, -⟩ := hcorr.digests
      have hproceeds : Proceeds target sigs siglist digests :=
        ⟨hcorr.validAfter, hcorr.freshUntil, hcorr.validUntil, hsiglist, hdigests, hagree⟩
      exact (passes_iff h).mp (hright.passes hproceeds.outcome.2 siglist hsiglist)
  · intro hsound
    have hcorr : ∀ siglist digests, Proceeds target sigs siglist digests →
        Corresponds target sigs := fun siglist digests hp =>
      ⟨hp.validAfter, hp.freshUntil, hp.validUntil, digests, hp.digestsFound, hp.agree,
        hsound.digests hp.validAfter hp.freshUntil hp.validUntil
        (by simp [hp.siglistFound]) digests hp.digestsFound⟩
    constructor
    · intro hnot
      have hrefused := @refused_of_not_proceeds _ auth _ _ fun siglist digests hp =>
        hnot (hcorr siglist digests hp)
      exact ⟨hrefused.2, hrefused.1⟩
    · intro hresult siglist hsiglist
      by_cases hproceeds : ∃ siglist digests, Proceeds target sigs siglist digests
      · obtain ⟨siglist', digests, hp⟩ := hproceeds
        exact (passes_iff h).mpr (hsound.bad (hcorr siglist' digests hp) siglist hsiglist)
      · have hrefused := @refused_of_not_proceeds _ auth _ _ fun siglist digests hp =>
          hproceeds ⟨siglist, digests, hp⟩
        omega

end Calls

section Sequences
variable {calls before between after : List (SignatureCall Key)} {call : SignatureCall Key}

theorem checkConsensusSignature_voters : List.Forall₂ (fun v v' =>
    v'.identityDigest = v.identityDigest ∧ List.Forall₂ (fun s s' =>
      s'.identityDigest = s.identityDigest ∧ s'.alg = s.alg ∧ (s.goodSignature → s' = s))
        v.sigs v'.sigs)
    target.voters (networkstatusCheckConsensusSignature auth target).voters := by
  unfold networkstatusCheckConsensusSignature
  rw [List.forall₂_map_right_iff, List.forall₂_same]
  intro v _
  refine ⟨rfl, ?_⟩
  rw [List.forall₂_map_right_iff, List.forall₂_same]
  intro s _
  split_ifs with hcond
  · split
    · exact ⟨rfl, rfl, fun _ => rfl⟩
    · split_ifs
      · exact ⟨rfl, rfl, fun _ => rfl⟩
      · exact ⟨(checkDocumentSignature_fields _).1, (checkDocumentSignature_fields _).2,
          fun hgood => absurd hgood hcond.1⟩
  · exact ⟨rfl, rfl, fun _ => rfl⟩

section
variable (h : Signed target)
include h

theorem apply_signed : Signed (call.apply target) := by
  cases call with
  | add auth sigs =>
    by_cases hproceeds : ∃ siglist digests, Proceeds target sigs siglist digests
    · obtain ⟨siglist, digests, hp⟩ := hproceeds
      rw [SignatureCall.apply, hp.outcome.1]
      exact addSignatures_signed h
    · rw [SignatureCall.apply, (refused_of_not_proceeds fun siglist digests hp =>
        hproceeds ⟨siglist, digests, hp⟩).1]
      exact h
  | check auth =>
    apply forall_mem_of_forall₂ (checkConsensusSignature_voters.imp ?_) h
    rintro v v' ⟨hid, hsigs⟩ ⟨hids, hnodup⟩
    rw [hid]
    generalize v.sigs = l at hsigs hids hnodup
    generalize v'.sigs = l' at hsigs
    have hmap : l'.map (·.alg) = l.map (·.alg) := by
      induction hsigs with
      | nil => rfl
      | cons hs _ ih =>
        rw [List.forall_mem_cons] at hids
        rw [List.map_cons, List.map_cons, hs.2.1, ih hids.2 (List.nodup_cons.mp hnodup).2]
    refine ⟨?_, by rwa [hmap]⟩
    clear hnodup hmap
    induction hsigs with
    | nil => simp
    | cons hs _ ih =>
      rw [List.forall_mem_cons] at hids ⊢
      exact ⟨hs.1.trans hids.1, ih hids.2⟩

theorem apply_keepsGood : KeepsGood target.voters (call.apply target).voters := by
  cases call with
  | add auth sigs =>
    by_cases hproceeds : ∃ siglist digests, Proceeds target sigs siglist digests
    · obtain ⟨siglist, digests, hp⟩ := hproceeds
      rw [SignatureCall.apply, hp.outcome.1]
      exact addSignatures_keepsGood h
    · rw [SignatureCall.apply, (refused_of_not_proceeds fun siglist digests hp =>
        hproceeds ⟨siglist, digests, hp⟩).1]
      exact .refl _
  | check auth =>
    apply checkConsensusSignature_voters.imp
    rintro v v' ⟨hid, hsigs⟩
    refine ⟨hid, ?_⟩
    generalize v.sigs = l at hsigs
    generalize v'.sigs = l' at hsigs
    induction hsigs with
    | nil => simp
    | cons hs _ ih =>
      rw [List.forall_mem_cons]
      refine ⟨fun hgood => ?_, fun s hs' hgood => List.mem_cons_of_mem _ (ih s hs' hgood)⟩
      rw [hs.2.2 hgood]
      exact List.mem_cons_self

theorem run_signed (calls : List (SignatureCall Key)) :
    Signed (runSignatureCalls target calls) := by
  induction calls generalizing target with
  | nil => exact h
  | cons call calls ih => exact ih (apply_signed h)

theorem run_keepsGood (calls : List (SignatureCall Key)) :
    KeepsGood target.voters (runSignatureCalls target calls).voters := by
  induction calls generalizing target with
  | nil => exact .refl _
  | cons call calls ih => exact (apply_keepsGood h).trans (ih (apply_signed h))

end

/-- A sequence of calls is as it should be just when each of its calls is sound. -/
theorem runRight_iff (target : Consensus) (h : Signed target) (calls : List (SignatureCall Key)) :
    RunRight target calls ↔ RunSound target calls := by
  constructor
  · intro hright before auth sigs after hcalls
    exact (callRight_iff (run_signed h before)).mp (hright.calls before auth sigs after hcalls)
  · intro hsound
    refine ⟨?_, fun before _ _ => run_signed h before, ?_⟩
    · intro before between after _
      unfold runSignatureCalls
      rw [List.foldl_append]
      exact run_keepsGood (run_signed h before) between
    · intro before auth sigs after hcalls
      exact (callRight_iff (run_signed h before)).mpr (hsound before auth sigs after hcalls)

/-- A consensus with one voter, who has not signed. -/
def unsignedConsensus : Consensus where
  flavor := .ns
  validAfter := 0
  freshUntil := 1
  validUntil := 2
  digests := fun _ => ⟨List.replicate 20 7 ++ List.replicate 12 0, by simp⟩
  voters := [⟨Digest.replicate 1, []⟩]

theorem unsignedConsensus_signed : Signed unsignedConsensus := by
  simp [Signed, unsignedConsensus]

/-- Knows the certificate of one key, which has signed nothing. -/
def oneCertificate : Authorities Unit where
  authorityCertGetByDigests _ sk :=
    if sk.val = List.replicate 20 2 then some ⟨(), Digest.replicate 1, 0⟩ else none
  isV3Auth _ := true
  isDenylisted _ := false
  now := 0
  pkGetDigest _ := some (Digest.replicate 2)
  pkPublicChecksig _ _ := none

def unverified (sk : UInt8) : DocumentSignature where
  identityDigest := Digest.replicate 1
  signingKeyDigest := Digest.replicate sk
  alg := .sha1
  signature := List.replicate 128 0
  badSignature := false
  goodSignature := false

/-- The digests are given as zeros, or there are two signatures of one voter, of which the first is
found bad and nothing is known of the second. -/
def exampleDetached (zero : Bool) : DetachedSignatures where
  validAfter := 0
  freshUntil := 1
  validUntil := 2
  digests _ := some fun _ => if zero then zeroDigest else unsignedConsensus.digests .sha1
  signatures _ := some [unverified 2, unverified 3]

theorem exampleRuns_wrong : Signed unsignedConsensus ∧
    ¬ RunRight unsignedConsensus [.add oneCertificate (exampleDetached true)] ∧
      ¬ RunRight unsignedConsensus [.add oneCertificate (exampleDetached false)] := by
  refine ⟨unsignedConsensus_signed, fun h => ?_, fun h => ?_⟩
  · have hsound := (callRight_iff unsignedConsensus_signed).mp (h.calls [] _ _ [] rfl)
    obtain ⟨alg, halg⟩ := hsound.digests rfl rfl rfl (by simp [exampleDetached]) _ rfl
    exact halg rfl
  · have hsound := (callRight_iff unsignedConsensus_signed).mp (h.calls [] _ _ [] rfl)
    have hcorr : Corresponds unsignedConsensus (exampleDetached false) :=
      ⟨rfl, rfl, rfl, _, rfl, fun _ _ => rfl, .sha1, by decide +kernel⟩
    have hgood := hsound.bad hcorr _ rfl ⟨List.replicate 20 1, by simp⟩ _ rfl .sha1 _ _ _ rfl
      (by decide +kernel) (by decide +kernel)
    exact absurd hgood (by decide +kernel)

/-- Where no signature is found bad, a call is sound if there is a digest. -/
theorem CallSound.of_none_bad {sigs : DetachedSignatures}
    (hdigests : ∀ digests ∈ sigs.digests target.flavor, ∃ alg, digests alg ≠ zeroDigest)
    (hstored : ∀ v ∈ target.voters, ∀ s ∈ v.sigs, s.badSignature = false)
    (htried : ∀ siglist ∈ sigs.signatures target.flavor, ∀ s ∈ siglist,
      (tried auth target s).badSignature = false) : CallSound auth target sigs := by
  refine ⟨fun _ _ _ _ => hdigests, ?_⟩
  intro _ siglist hsiglist id v hv alg first second rest hturn hbad _
  have hfirst : first ∈ inTurn auth target siglist v alg := hturn ▸ List.mem_cons_self
  have hnot : first.badSignature = false := by
    rcases List.mem_append.mp hfirst with hmem | hmem
    · exact hstored v (List.mem_of_find?_eq_some hv) first
        (List.mem_of_find?_eq_some (Option.mem_toList.mp hmem))
    · obtain ⟨s, hs, rfl⟩ := List.mem_map.mp hmem
      exact htried siglist hsiglist s (List.mem_of_mem_filter hs)
  exact absurd (hbad.symm.trans hnot) (by decide)

/-- Keys are their digests, and what is signed is the signature. -/
def signedOpenly : Authorities Digest where
  authorityCertGetByDigests identity sk := some ⟨sk, identity, 10⟩
  isV3Auth _ := true
  isDenylisted _ := false
  now := 0
  pkGetDigest := some
  pkPublicChecksig _ signature := some signature

def signatureOf (identity : UInt8) (alg : CommonDigestAlgorithm) (goodSignature : Bool) :
    DocumentSignature where
  identityDigest := Digest.replicate identity
  signingKeyDigest := Digest.replicate identity
  alg := alg
  signature := (unsignedConsensus.digests alg).val
  badSignature := false
  goodSignature := goodSignature

/-- Of two voters, the first has signed. -/
def signedConsensus : Consensus :=
  { unsignedConsensus with voters := [⟨Digest.replicate 1, [signatureOf 1 .sha1 true]⟩,
      ⟨Digest.replicate 2, []⟩] }

def detachedOf (siglist : List DocumentSignature) : DetachedSignatures where
  validAfter := 0
  freshUntil := 1
  validUntil := 2
  digests _ := some unsignedConsensus.digests
  signatures _ := some siglist

/-- The second voter's signatures arrive, with one that the consensus has. -/
def signedCalls : List (SignatureCall Digest) :=
  [.add signedOpenly (detachedOf [signatureOf 2 .sha1 false]), .check signedOpenly,
    .add signedOpenly (detachedOf [signatureOf 1 .sha1 false, signatureOf 2 .sha256 false])]

theorem runRight_iff_signed : RunRight signedConsensus signedCalls ∧
    (runSignatureCalls signedConsensus signedCalls).voters =
      [⟨Digest.replicate 1, [signatureOf 1 .sha1 true]⟩,
        ⟨Digest.replicate 2, [signatureOf 2 .sha1 true, signatureOf 2 .sha256 true]⟩] := by
  refine ⟨(runRight_iff signedConsensus ?_ signedCalls).mpr ?_, by decide +kernel⟩
  · unfold Signed
    decide +kernel
  · have hdigests : ∀ digests ∈ (some unsignedConsensus.digests : Option CommonDigests),
        ∃ alg, digests alg ≠ zeroDigest := by
      rintro _ ⟨⟩
      exact ⟨.sha1, by decide +kernel⟩
    intro before auth sigs after hcalls
    rcases before with _ | ⟨_, _ | ⟨_, _ | ⟨_, _⟩⟩⟩
    · cases hcalls
      exact .of_none_bad hdigests (by decide +kernel) (by decide +kernel)
    · cases hcalls
    · cases hcalls
      exact .of_none_bad hdigests (by decide +kernel) (by decide +kernel)
    · simp [signedCalls] at hcalls

end Sequences

end TorDaemon.Dirvote

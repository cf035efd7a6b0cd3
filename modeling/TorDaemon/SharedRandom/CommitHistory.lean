import TorDaemon.SharedRandom.Protocol

/-! The commits of the state over a run of votes and updates: where they come from, and what
may become of them within one protocol run. -/
namespace TorDaemon.SharedRandom
open Library.NetworkOrder Library.Sorting Library.Reachability Relation
variable {digest256 : Bytes → Digest256} {env : Env} {p p' : Progress} {s s' t : SrState}
  {c saved : Commit} {id : Digest}

section Map
variable {m : CommitMap}

theorem get_set (m : CommitMap) (c : Commit) (hvalid : c.valid = true) (id : Digest) :
    (m.set c hvalid).get id = if c.rsaIdentity = id then some c else m.get id := by
  by_cases hid : c.rsaIdentity = id
  · simp [CommitMap.get, CommitMap.set, hid]
  · rw [if_neg hid]
    simp only [CommitMap.get, CommitMap.set, List.find?_cons, hid, decide_false, List.find?_filter]
    congr 1
    funext d
    by_cases hd : d.rsaIdentity = id
    · simp [hd, Ne.symm hid]
    · simp [hd]

theorem rsaIdentity_of_get (h : m.get id = some c) : c.rsaIdentity = id := by
  simpa using List.find?_some h

end Map

section Keep
variable {m : CommitMap} {recognized : Digest → Bool} {voterKey : Digest}

theorem shouldKeepCommit_commit
    (h : shouldKeepCommit digest256 recognized m c voterKey .commit = true) :
    c.rsaIdentity = voterKey ∧ m.get c.rsaIdentity = none ∧ c.hasRevealValue = false := by
  unfold shouldKeepCommit commitIsAuthoritative at h
  by_cases hkey : c.rsaIdentity = voterKey
  · subst hkey
    cases hget : m.get c.rsaIdentity with
    | none =>
      cases hrec : recognized c.rsaIdentity <;> simp_all
    | some saved =>
      cases hrec : recognized c.rsaIdentity <;> simp_all
  · simp [hkey] at h

theorem shouldKeepCommit_reveal
    (h : shouldKeepCommit digest256 recognized m c voterKey .reveal = true) :
    c.rsaIdentity = voterKey ∧ ∃ saved, m.get c.rsaIdentity = some saved ∧
      c.encodedCommit = saved.encodedCommit ∧ saved.hasRevealValue = false ∧
      c.hasRevealValue = true ∧ verifyCommitAndReveal digest256 c = true := by
  unfold shouldKeepCommit commitIsAuthoritative at h
  by_cases hkey : c.rsaIdentity = voterKey
  · subst hkey
    cases hget : m.get c.rsaIdentity with
    | none =>
      cases hrec : recognized c.rsaIdentity <;> simp_all
    | some saved =>
      rw [hget] at h
      cases hrec : recognized c.rsaIdentity
      · simp [hrec] at h
      · simp only [decide_true, Bool.not_true, Bool.false_eq_true, if_false, hrec,
          commitmentsAreTheSame, Bool.and_eq_true, decide_eq_true_eq, Bool.not_eq_true'] at h
        exact ⟨rfl, saved, rfl, h.1.1.1, h.1.1.2, h.1.2, h.2⟩
  · simp [hkey] at h

end Keep

/-- The authority made the commit itself. -/
def Generated (digest256 : Bytes → Digest256) (e : Env × Operation) (c : Commit) : Prop :=
  ∃ timestamp, (srGenerateOurCommit digest256 e.1 timestamp).map Subtype.val = some c

/-- The commit stands in a vote of the authority that it names. -/
def VotedIn (e : Env × Operation) (c : Commit) : Prop :=
  ∃ lines, e.2 = .vote lines c.rsaIdentity ∧ c ∈ lines.filterMap srParseCommit

/-- What becomes of the commits when one is received, or the state is updated. -/
inductive CommitStep (digest256 : Bytes → Digest256) (e : Env × Operation) (s s' : SrState) : Prop
  | same (commits : s'.commits = s.commits) (runs : s'.nProtocolRuns = s.nProtocolRuns)
      (phase : s.phase = .reveal → s'.phase = .reveal)
  | generated (c : Commit) (hvalid : c.valid = true) (origin : Generated digest256 e c)
      (commits : s'.commits = s.commits.set c hvalid)
      (new : s.commits.get c.rsaIdentity = none) (runs : s'.nProtocolRuns = s.nProtocolRuns)
      (phase : s.phase = .commit)
  | voted (c : Commit) (origin : VotedIn e c) (reveal : c.hasRevealValue = false)
      (commits : s'.commits = s.commits.set { c with valid := true } rfl)
      (new : s.commits.get c.rsaIdentity = none) (runs : s'.nProtocolRuns = s.nProtocolRuns)
      (phase : s.phase = .commit)
  | revealed (c saved : Commit) (hvalid : (copyRevealInfo saved c).valid = true)
      (origin : VotedIn e c) (saved_get : s.commits.get c.rsaIdentity = some saved)
      (same : c.encodedCommit = saved.encodedCommit) (reveal : saved.hasRevealValue = false)
      (verified : verifyCommitAndReveal digest256 c = true)
      (commits : s'.commits = s.commits.set (copyRevealInfo saved c) hvalid)
      (runs : s'.nProtocolRuns = s.nProtocolRuns) (phase : s'.phase = .reveal)
  | newRun (runs : s'.nProtocolRuns = s.nProtocolRuns + 1)
      (commits : ∀ id c, s'.commits.get id = some c → Generated digest256 e c)

section Steps
variable {e : Env × Operation} {voterKey : Digest}

/-- A commit that is kept: what is put into the map in its place. -/
theorem receiveCommit_keep
    (h : shouldKeepCommit digest256 env.recognized p.state.commits c voterKey p.state.phase = true) :
    ∃ (d : Commit) (hvalid : d.valid = true), receiveCommit digest256 env voterKey p c =
        some (p.query fun s => { s with commits := s.commits.set d hvalid }) ∧
      d.rsaIdentity = voterKey ∧
      match p.state.phase with
      | .commit => d = { c with valid := true }
      | .reveal => ∃ saved, p.state.commits.get voterKey = some saved ∧
          d = copyRevealInfo saved c ∧ d.hasRevealValue = true := by
  rw [receiveCommit, if_pos h]
  cases hphase : p.state.phase with
  | commit =>
    rw [hphase] at h
    obtain ⟨rfl, -, -⟩ := shouldKeepCommit_commit h
    have hsave : saveCommitToState p.state.toState c = some { p.state.toState with
        commits := p.state.commits.set { c with valid := true } rfl } := by
      unfold saveCommitToState
      split
      next => rfl
      next hreveal => exact absurd (hreveal.symm.trans hphase) (by simp)
    exact ⟨{ c with valid := true }, rfl, by rw [hsave]; rfl, rfl, rfl⟩
  | reveal =>
    rw [hphase] at h
    obtain ⟨rfl, saved, hget, hsame, -, hreveal, -⟩ := shouldKeepCommit_reveal h
    have hvalid : (copyRevealInfo saved c).valid = true :=
      p.state.commits.valid saved (List.mem_of_find?_eq_some hget)
    have hsave : saveCommitToState p.state.toState c = some { p.state.toState with
        commits := p.state.commits.set (copyRevealInfo saved c) hvalid } := by
      unfold saveCommitToState
      simp only [hphase]
      split
      next hnone =>
        rw [hget] at hnone
        cases hnone
      next saved' hsome =>
        cases hget.symm.trans hsome
        rw [if_pos (by simp [commitmentsAreTheSame, hsame])]
    have hidentity : saved.rsaIdentity = c.rsaIdentity := rsaIdentity_of_get hget
    exact ⟨copyRevealInfo saved c, hvalid, by rw [hsave]; rfl, hidentity, saved, hget, rfl, hreveal⟩

/-- A commit of a vote is dropped, added or, in the reveal phase, used for its reveal. -/
theorem receiveCommit_step {lines : List (List Bytes)}
    (hop : e.2 = .vote lines voterKey) (hc : c ∈ lines.filterMap srParseCommit) :
    ∃ p', receiveCommit digest256 e.1 voterKey p c = some p' ∧
      CommitStep digest256 e p.state p'.state := by
  by_cases hkeep : shouldKeepCommit digest256 e.1.recognized p.state.commits c voterKey
      p.state.phase = true
  · obtain ⟨d, hvalid, hp, -, hd⟩ := receiveCommit_keep hkeep
    refine ⟨_, hp, ?_⟩
    cases hphase : p.state.phase with
    | commit =>
      rw [hphase] at hkeep
      simp only [hphase] at hd
      subst hd
      obtain ⟨rfl, hnew, hreveal⟩ := shouldKeepCommit_commit hkeep
      exact .voted c ⟨lines, hop, hc⟩ hreveal rfl hnew rfl hphase
    | reveal =>
      rw [hphase] at hkeep
      simp only [hphase] at hd
      obtain ⟨saved, hget, rfl, -⟩ := hd
      obtain ⟨rfl, saved', hget', hsame, hreveal, -, hverified⟩ := shouldKeepCommit_reveal hkeep
      cases hget.symm.trans hget'
      exact .revealed c saved hvalid ⟨lines, hop, hc⟩ hget hsame hreveal hverified rfl rfl hphase
  · exact ⟨p, if_neg hkeep, .same rfl rfl id⟩

variable (digest256) in
theorem receiveVote_steps {lines : List (List Bytes)}
    (hop : e.2 = .vote lines voterKey) (p : Progress) :
    ∃ p', receiveVote digest256 e.1 lines voterKey p = some p' ∧
      ReflTransGen (CommitStep digest256 e) p.state p'.state := by
  have hvisited : ∀ c ∈ visited (lines.filterMap srParseCommit),
      c ∈ lines.filterMap srParseCommit := by
    cases lines.filterMap srParseCommit <;> simp [visited]
  unfold receiveVote
  generalize visited (lines.filterMap srParseCommit) = received at hvisited ⊢
  induction received generalizing p with
  | nil => exact ⟨p, rfl, .refl⟩
  | cons c rest ih =>
    obtain ⟨p₁, hp₁, hstep⟩ := receiveCommit_step (p := p) hop (hvisited c (.head _))
    obtain ⟨p', hp', hsteps⟩ := ih p₁ fun d hd => hvisited d (.tail _ hd)
    exact ⟨p', by simp [List.foldlM_cons, hp₁, hp'], .head hstep hsteps⟩

theorem srComputeSrvSaved_spec (env : Env) (p : Progress) :
    ∃ p', srComputeSrvSaved digest256 env p = some p' ∧ p'.state.commits = p.state.commits ∧
      p'.state.phase = p.state.phase ∧ p'.state.nProtocolRuns = p.state.nProtocolRuns := by
  unfold srComputeSrvSaved
  by_cases hphase : p.state.phase ≠ .reveal
  · rw [if_pos hphase]
    exact ⟨p, rfl, rfl, rfl, rfl⟩
  · have hvalid : p.state.commits.commits.all Commit.valid = true :=
      List.all_eq_true.mpr p.state.commits.valid
    rw [if_neg hphase, hvalid]
    exact ⟨_, rfl, rfl, rfl, rfl⟩

theorem addOurCommit_generated {timestamp : ℕ}
    (hempty : p.state.commits.commits = [] ∨ p.state.commits = .empty)
    (h : (addOurCommit digest256 e.1 timestamp p).state.commits.get id = some c) :
    Generated digest256 e c := by
  have hnone : p.state.commits.get id = none := by
    rcases hempty with hempty | hempty <;> simp [CommitMap.get, CommitMap.empty, hempty]
  unfold addOurCommit at h
  cases hgen : srGenerateOurCommit digest256 e.1 timestamp with
  | none =>
    rw [hgen] at h
    exact absurd (hnone.symm.trans h) (by simp)
  | some own =>
    rw [hgen] at h
    have hset := get_set p.state.commits own.val own.property id
    by_cases hid : own.val.rsaIdentity = id
    · rw [if_pos hid] at hset
      cases h.symm.trans hset
      exact ⟨timestamp, by rw [hgen]; rfl⟩
    · rw [if_neg hid, hnone] at hset
      exact absurd (hset.symm.trans h) (by simp)

theorem addOurCommit_counters (timestamp : ℕ) (p : Progress) :
    (addOurCommit digest256 env timestamp p).state.nProtocolRuns = p.state.nProtocolRuns ∧
      (addOurCommit digest256 env timestamp p).state.phase = p.state.phase := by
  unfold addOurCommit
  cases srGenerateOurCommit digest256 env timestamp <;> exact ⟨rfl, rfl⟩

variable (digest256) in
theorem newProtocolRun_step (validAfter : ℕ) (p : Progress) :
    ∃ p', newProtocolRun digest256 e.1 validAfter p = some p' ∧
      p'.state.nProtocolRuns = p.state.nProtocolRuns + 1 ∧
      ∀ id c, p'.state.commits.get id = some c → Generated digest256 e c := by
  have hfirst : ∃ p₁, computeAtEnd digest256 e.1 p = some p₁ ∧
      p₁.state.nProtocolRuns = p.state.nProtocolRuns := by
    unfold computeAtEnd
    by_cases hphase : p.state.phase = .reveal
    · obtain ⟨p₁, hp₁, -, -, hruns⟩ := srComputeSrvSaved_spec e.1 (stateRotateSrv p)
      exact ⟨p₁, by rw [if_pos hphase, hp₁], hruns⟩
    · exact ⟨p, if_neg hphase, rfl⟩
  obtain ⟨p₁, hp₁, hruns⟩ := hfirst
  refine ⟨addOurCommit digest256 e.1 validAfter
    (resetStateForNewProtocolRun e.1 validAfter p₁), ?_, ?_, ?_⟩
  · rw [newProtocolRun, hp₁]
    rfl
  · rw [(addOurCommit_counters _ _).1, ← hruns]
    rfl
  · intro id c hget
    exact addOurCommit_generated (.inr rfl) hget

variable (digest256) in
theorem enterPhase_step (validAfter : ℕ) (p : Progress) :
    ∃ p', enterPhase digest256 e.1 validAfter p = some p' ∧
      CommitStep digest256 e p.state p'.state := by
  unfold enterPhase
  by_cases hturn : p.state.phase ≠ getSrProtocolPhase e.1 validAfter
  · rw [if_pos hturn]
    by_cases hcommit : getSrProtocolPhase e.1 validAfter = .commit
    · obtain ⟨p₁, hp₁, hruns, hgen⟩ := newProtocolRun_step digest256 validAfter p
      refine ⟨p₁.set (setPhase .commit), by rw [if_pos hcommit, hp₁, hcommit]; rfl, ?_⟩
      exact .newRun hruns hgen
    · refine ⟨p.set (setPhase (getSrProtocolPhase e.1 validAfter)), by rw [if_neg hcommit]; rfl,
        .same rfl rfl ?_⟩
      intro hreveal
      cases hnext : getSrProtocolPhase e.1 validAfter with
      | commit => exact absurd hnext hcommit
      | reveal => rfl
  · rw [if_neg hturn]
    by_cases hempty : p.state.phase = .commit ∧ p.state.commits.commits = []
    · rw [if_pos hempty]
      refine ⟨_, rfl, ?_⟩
      unfold addOurCommit
      cases hgen : srGenerateOurCommit digest256 e.1 validAfter with
      | none => exact .same rfl rfl fun h => h
      | some own =>
        refine .generated own.val own.property ⟨validAfter, by rw [hgen]; rfl⟩ rfl ?_ rfl hempty.1
        simp [CommitMap.get, hempty.2]
    · rw [if_neg hempty]
      exact ⟨p, rfl, .same rfl rfl fun h => h⟩

/-- What is counted and written at the end of an update is not about the commits. -/
theorem CommitStep.congr (h : CommitStep digest256 e s s') (hcommits : t.commits = s'.commits)
    (hruns : t.nProtocolRuns = s'.nProtocolRuns) (hphase : t.phase = s'.phase) :
    CommitStep digest256 e s t := by
  cases h with
  | same commits runs phase =>
    exact .same (hcommits.trans commits) (hruns.trans runs) fun h => hphase.trans (phase h)
  | generated c hvalid origin commits new runs phase =>
    exact .generated c hvalid origin (hcommits.trans commits) new (hruns.trans runs) phase
  | voted c origin reveal commits new runs phase =>
    exact .voted c origin reveal (hcommits.trans commits) new (hruns.trans runs) phase
  | revealed c saved hvalid origin saved_get same reveal verified commits runs phase =>
    exact .revealed c saved hvalid origin saved_get same reveal verified (hcommits.trans commits)
      (hruns.trans runs) (hphase.trans phase)
  | newRun runs commits =>
    exact .newRun (hruns.trans runs) (hcommits ▸ commits)

theorem countRound_spec (s : SrState) : (countRound s).commits = s.commits ∧
    (countRound s).nProtocolRuns = s.nProtocolRuns ∧ (countRound s).phase = s.phase := by
  unfold countRound
  split_ifs <;> exact ⟨rfl, rfl, rfl⟩

variable (digest256) in
theorem srStateUpdate_step (validAfter : ℕ) (p : Progress) :
    ∃ p', srStateUpdate digest256 e.1 validAfter p = some p' ∧
      CommitStep digest256 e p.state p'.state := by
  unfold srStateUpdate
  by_cases hearly : validAfter ≤ p.state.validAfter
  · rw [if_pos hearly]
    exact ⟨p, rfl, .same rfl rfl fun h => h⟩
  · rw [if_neg hearly]
    obtain ⟨p₁, hp₁, hstep⟩ := enterPhase_step digest256 validAfter p
    obtain ⟨hcommits, hruns, hphase⟩ := countRound_spec (setValidAfter validAfter p₁.state)
    exact ⟨_, by rw [hp₁]; rfl, hstep.congr hcommits hruns hphase⟩

variable (digest256) in
theorem srStep_steps (s : SrState) (e : Env × Operation) :
    ∃ s', srStep digest256 s e = some s' ∧ ReflTransGen (CommitStep digest256 e) s s' := by
  unfold srStep Operation.perform
  cases hop : e.2 with
  | vote lines voterKey =>
    obtain ⟨p', hp', hsteps⟩ := receiveVote_steps digest256 hop ⟨s, []⟩
    exact ⟨p'.state, by simp [hp'], hsteps⟩
  | update validAfter =>
    obtain ⟨p', hp', hstep⟩ := srStateUpdate_step digest256 validAfter ⟨s, []⟩
    exact ⟨p'.state, by simp [hp'], .single hstep⟩
  | postConsensus consensus =>
    cases consensus with
    | none =>
      obtain ⟨p', hp', hstep⟩ :=
        srStateUpdate_step digest256 e.1.nextValidAfter ⟨s, []⟩
      exact ⟨p'.state, by simp [srActPostConsensus, hp'], .single hstep⟩
    | some consensus =>
      obtain ⟨p', hp', hstep⟩ := srStateUpdate_step digest256 e.1.nextValidAfter
        (takeSrvs consensus ⟨s, []⟩)
      refine ⟨p'.state, by simp [srActPostConsensus, hp'], .head ?_ (.single hstep)⟩
      exact .same rfl rfl fun h => h

end Steps

section Origin
variable {events : List (Env × Operation)} {e : Env × Operation}

/-- Two commits of one authority with the same commitment value and timestamp. -/
structure SameCommitment (c c' : Commit) : Prop where
  rsaIdentity : c'.rsaIdentity = c.rsaIdentity
  encodedCommit : c'.encodedCommit = c.encodedCommit
  commitTs : c'.commitTs = c.commitTs
  hashedReveal : c'.hashedReveal = c.hashedReveal
  alg : c'.alg = c.alg

/-- The commitment stands in a vote of the authority, and so does the reveal if there is one,
which is then the right one. -/
structure FromVotes (digest256 : Bytes → Digest256) (events : List (Env × Operation))
    (c : Commit) : Prop where
  committed : ∃ e ∈ events, ∃ c₀, VotedIn e c₀ ∧ SameCommitment c c₀
  revealed : c.hasRevealValue = true → verifyCommitAndReveal digest256 c = true ∧
    ∃ e ∈ events, ∃ c₀, VotedIn e c₀ ∧ SameCommitment c c₀ ∧
      c₀.encodedReveal = c.encodedReveal

/-- Every commit of the state is the authority's own, with its reveal, or from the votes. -/
structure Stored (digest256 : Bytes → Digest256) (events : List (Env × Operation))
    (s : SrState) : Prop where
  origin : ∀ id c, s.commits.get id = some c →
    (∃ e ∈ events, Generated digest256 e c) ∨ c.Parsed ∧ FromVotes digest256 events c

theorem Generated.hasRevealValue (h : Generated digest256 e c) : c.hasRevealValue = true := by
  obtain ⟨timestamp, h⟩ := h
  unfold srGenerateOurCommit at h
  cases hid : e.1.identity with
  | none => simp [hid] at h
  | some digest =>
    simp only [hid, Option.map_some, Option.some.injEq] at h
    subst h
    simp only [Commit.hasRevealValue, decide_eq_true_eq, ne_eq]
    intro hnil
    have hdecode := stampedDecode_encode ⟨UInt64.ofNat timestamp, e.1.random⟩
    rw [hnil] at hdecode
    cases hdecode

theorem VotedIn.parsed (h : VotedIn e c) : c.Parsed := by
  obtain ⟨lines, -, hmem⟩ := h
  obtain ⟨args, -, hparse⟩ := List.mem_filterMap.mp hmem
  exact (srParseCommit_decoded hparse).toParsed

theorem CommitStep.stored (hstep : CommitStep digest256 e s s') (he : e ∈ events)
    (hs : Stored digest256 events s) : Stored digest256 events s' := by
  constructor
  intro id c hget
  cases hstep with
  | same commits => exact hs.origin id c (commits ▸ hget)
  | generated own hvalid origin commits =>
    rw [commits, get_set] at hget
    by_cases hid : own.rsaIdentity = id
    · rw [if_pos hid] at hget
      cases hget
      exact .inl ⟨e, he, origin⟩
    · rw [if_neg hid] at hget
      exact hs.origin id c hget
  | voted d origin reveal commits =>
    rw [commits, get_set] at hget
    by_cases hid : d.rsaIdentity = id
    · rw [if_pos hid] at hget
      cases hget
      have hparsed := origin.parsed
      refine .inr ⟨⟨hparsed.alg, hparsed.commitment⟩, ⟨e, he, d, origin, rfl, rfl, rfl, rfl, rfl⟩, ?_⟩
      intro hreveal
      exact absurd (reveal.symm.trans hreveal) (by simp)
    · rw [if_neg hid] at hget
      exact hs.origin id c hget
  | revealed d saved hvalid origin saved_get same reveal verified commits =>
    rw [commits, get_set] at hget
    by_cases hid : (copyRevealInfo saved d).rsaIdentity = id
    · rw [if_pos hid] at hget
      cases hget
      have hd := origin.parsed
      rcases hs.origin _ _ saved_get with ⟨e', -, hgen⟩ | ⟨hsaved, hvotes⟩
      · exact absurd (reveal.symm.trans hgen.hasRevealValue) (by simp)
      · -- both decode the same string
        have hstamped := hd.commitment.symm.trans (same ▸ hsaved.commitment)
        simp only [Option.some.injEq, Stamped.mk.injEq] at hstamped
        have hcommitment : SameCommitment (copyRevealInfo saved d) d :=
          ⟨(rsaIdentity_of_get saved_get).symm, same, hstamped.1, hstamped.2,
            hd.alg.trans hsaved.alg.symm⟩
        refine .inr ⟨⟨hsaved.alg, hsaved.commitment⟩, ?_, fun _ => ⟨?_, ?_⟩⟩
        · obtain ⟨e₀, he₀, c₀, hc₀, hsame⟩ := hvotes.committed
          exact ⟨e₀, he₀, c₀, hc₀, hsame.1, hsame.2, hsame.3, hsame.4, hsame.5⟩
        · simpa [verifyCommitAndReveal, copyRevealInfo, hstamped.1, hstamped.2, hsaved.alg, hd.alg]
            using verified
        · exact ⟨e, he, d, origin, hcommitment, rfl⟩
    · rw [if_neg hid] at hget
      exact hs.origin id c hget
  | newRun runs commits => exact .inl ⟨e, he, commits id c hget⟩

end Origin

/-- What is the same in a later state of the same protocol run. -/
structure Continued (s s' : SrState) : Prop where
  runs : s.nProtocolRuns ≤ s'.nProtocolRuns
  kept : s'.nProtocolRuns = s.nProtocolRuns → ∀ id c, s.commits.get id = some c →
    ∃ c', s'.commits.get id = some c' ∧ SameCommitment c c' ∧
      (c.hasRevealValue = true → c' = c)
  noNew : s'.nProtocolRuns = s.nProtocolRuns → s.phase = .reveal → s'.phase = .reveal ∧
    ∀ id, (s'.commits.get id).isSome → (s.commits.get id).isSome

theorem Continued.refl (s : SrState) : Continued s s :=
  ⟨Nat.le_refl _, fun _ _ c h => ⟨c, h, ⟨rfl, rfl, rfl, rfl, rfl⟩, fun _ => rfl⟩,
    fun _ h => ⟨h, fun _ h => h⟩⟩

theorem Continued.trans (h : Continued s s') (h' : Continued s' t) : Continued s t := by
  have hruns := h.runs
  have hruns' := h'.runs
  refine ⟨Nat.le_trans hruns hruns', fun hsame id c hget => ?_, fun hsame hphase => ?_⟩
  · obtain ⟨c', hget', hc', hreveal⟩ := h.kept (by omega) id c hget
    obtain ⟨c'', hget'', hc'', hreveal'⟩ := h'.kept (by omega) id c' hget'
    refine ⟨c'', hget'', ⟨hc''.1.trans hc'.1, hc''.2.trans hc'.2, hc''.3.trans hc'.3,
      hc''.4.trans hc'.4, hc''.5.trans hc'.5⟩, fun hc => ?_⟩
    have heq := hreveal hc
    rw [hreveal' (heq ▸ hc), heq]
  · obtain ⟨hphase', hids⟩ := h.noNew (by omega) hphase
    obtain ⟨hphase'', hids'⟩ := h'.noNew (by omega) hphase'
    exact ⟨hphase'', fun id hid => hids id (hids' id hid)⟩

/-- A commit of an authority that had none takes the place of no other. -/
theorem continued_of_new {d : Commit} {hvalid : d.valid = true}
    (hcommits : s'.commits = s.commits.set d hvalid)
    (hnew : s.commits.get d.rsaIdentity = none) (hruns : s'.nProtocolRuns = s.nProtocolRuns)
    (hphase : s.phase = .commit) : Continued s s' := by
  refine ⟨Nat.le_of_eq hruns.symm, fun _ id c hget => ?_, fun _ hreveal => ?_⟩
  · have hid : d.rsaIdentity ≠ id := by
      rintro rfl
      exact absurd (hnew.symm.trans hget) (by simp)
    refine ⟨c, ?_, ⟨rfl, rfl, rfl, rfl, rfl⟩, fun _ => rfl⟩
    rw [hcommits, get_set, if_neg hid, hget]
  · exact absurd (hphase.symm.trans hreveal) (by simp)

theorem CommitStep.continued {e : Env × Operation} (h : CommitStep digest256 e s s') :
    Continued s s' := by
  cases h with
  | same commits runs phase =>
    refine ⟨Nat.le_of_eq runs.symm, fun _ id c hget => ?_, fun _ hreveal => ⟨phase hreveal, ?_⟩⟩
    · exact ⟨c, commits ▸ hget, ⟨rfl, rfl, rfl, rfl, rfl⟩, fun _ => rfl⟩
    · intro id hid
      exact commits ▸ hid
  | generated own hvalid origin commits new runs phase =>
    exact continued_of_new commits new runs phase
  | voted d origin reveal commits new runs phase => exact continued_of_new commits new runs phase
  | revealed d saved hvalid origin saved_get same reveal verified commits runs phase =>
    have hidentity : saved.rsaIdentity = d.rsaIdentity := rsaIdentity_of_get saved_get
    refine ⟨Nat.le_of_eq runs.symm, fun _ id c hget => ?_, fun _ _ => ⟨phase, fun id hid => ?_⟩⟩
    · rw [commits, get_set]
      by_cases hid : (copyRevealInfo saved d).rsaIdentity = id
      · obtain rfl : c = saved := by
          have hd : d.rsaIdentity = id := hidentity.symm.trans hid
          exact Option.some.inj (hget.symm.trans (hd ▸ saved_get))
        refine ⟨_, if_pos hid, ⟨rfl, rfl, rfl, rfl, rfl⟩, fun hc => ?_⟩
        exact absurd (reveal.symm.trans hc) (by simp)
      · exact ⟨c, by rw [if_neg hid, hget], ⟨rfl, rfl, rfl, rfl, rfl⟩, fun _ => rfl⟩
    · rw [commits, get_set] at hid
      by_cases hsame : (copyRevealInfo saved d).rsaIdentity = id
      · have hd : d.rsaIdentity = id := hidentity.symm.trans hsame
        rw [← hd, saved_get]
        rfl
      · rwa [if_neg hsame] at hid
  | newRun runs commits =>
    refine ⟨by omega, fun hsame => ?_, fun hsame => ?_⟩ <;> omega

section Runs
variable {events : List (Env × Operation)}

theorem steps_stored {e : Env × Operation} (h : ReflTransGen (CommitStep digest256 e) s s')
    (he : e ∈ events) (hs : Stored digest256 events s) : Stored digest256 events s' := by
  induction h with
  | refl => exact hs
  | tail _ hstep ih => exact hstep.stored he ih

theorem steps_continued {e : Env × Operation}
    (h : ReflTransGen (CommitStep digest256 e) s s') : Continued s s' := by
  induction h with
  | refl => exact .refl s
  | tail _ hstep ih => exact ih.trans hstep.continued

theorem run_continued (digest256 : Bytes → Digest256) (events : List (Env × Operation)) :
    ∀ s, ∃ s', run (srStep digest256) s events = some s' ∧ Continued s s' := by
  induction events with
  | nil => exact fun s => ⟨s, rfl, .refl s⟩
  | cons e events ih =>
    intro s
    obtain ⟨s₁, hs₁, hsteps⟩ := srStep_steps digest256 s e
    obtain ⟨s', hs', hcontinued⟩ := ih s₁
    exact ⟨s', by rw [run, hs₁, Option.bind_some, hs'], (steps_continued hsteps).trans hcontinued⟩

end Runs

/-- In every run from the start there is one commit for an authority, under its identity, made
by the authority itself or taken from its votes; and from each point of the run to its end, as
long as the protocol run is the same, the commitments stay, the reveals stay once they are
there, and in the reveal phase none is new. No operation fails. -/
theorem sr_commits_of_run (digest256 : Bytes → Digest256) (env : Env) (now : ℕ)
    (events : List (Env × Operation)) :
    ∃ s, run (srStep digest256) (stateNew env now) events = some s ∧
      (s.commits.commits.map Commit.rsaIdentity).Nodup ∧
      (∀ id c, s.commits.get id = some c → c.rsaIdentity = id ∧
        ((∃ e ∈ events, Generated digest256 e c) ∨ FromVotes digest256 events c)) ∧
      ∀ before after t, events = before ++ after →
        run (srStep digest256) (stateNew env now) before = some t → Continued t s := by
  obtain ⟨s, hrun, -⟩ := run_continued digest256 events (stateNew env now)
  have hstart : Stored digest256 events (stateNew env now) := by
    constructor
    intro id c hget
    cases hget
  have hstored : Stored digest256 events s := by
    apply run_invariant hrun hstart
    intro t e he t' hs ht
    obtain ⟨t₁, ht₁, hsteps⟩ := srStep_steps digest256 t e
    cases ht.symm.trans ht₁
    exact steps_stored hsteps he hs
  refine ⟨s, hrun, s.commits.distinct, fun id c hget => ⟨rsaIdentity_of_get hget, ?_⟩, ?_⟩
  · exact (hstored.origin id c hget).imp_right And.right
  · rintro before after t rfl ht
    obtain ⟨s', hs', hcontinued⟩ := run_continued digest256 after t
    rw [run_append, ht, Option.bind_some, hs'] at hrun
    cases hrun
    exact hcontinued

end TorDaemon.SharedRandom

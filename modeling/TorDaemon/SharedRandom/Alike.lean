import TorDaemon.SharedRandom.CommitHistory
import TorDaemon.SharedRandom.Update

/-! Two states that differ in the order of their commits treat a vote alike, and the commits of
a state are such that they can be decoded. -/
namespace TorDaemon.SharedRandom
open Library.NetworkOrder Library.Sorting Keypin Relation
variable {digest256 : Bytes → Digest256} {env : Env} {validAfter : ℕ} {s s' t : SrState}
  {c : Commit} {id : Digest}

section Same

theorem Same.trans {u : SrState} (h : Same s t) (h' : Same t u) : Same s u :=
  ⟨h'.phase.trans h.phase, h'.previousSrv.trans h.previousSrv, h'.currentSrv.trans h.currentSrv,
    h'.commits.trans h.commits, h'.validAfter.trans h.validAfter⟩

theorem SameTo.trans {u : SrState} (h : SameTo env validAfter s t) (h' : Same t u) :
    SameTo env validAfter s u := by
  refine ⟨h'.phase.trans h.phase, ?_, h'.currentSrv.trans h.currentSrv, h'.commits.trans h.commits,
    h'.validAfter.trans h.validAfter⟩
  exact h.previousSrv.imp_left h'.previousSrv.trans

theorem same_countRound (s : SrState) : Same (countRound s) s := by
  unfold countRound
  split_ifs <;> exact ⟨rfl, rfl, rfl, .refl _, rfl⟩

theorem get_eq_some_iff {m : CommitMap} :
    m.get id = some c ↔ c ∈ m.commits ∧ c.rsaIdentity = id := by
  constructor
  · intro hget
    exact ⟨List.mem_of_find?_eq_some hget, rsaIdentity_of_get hget⟩
  · rintro ⟨hc, rfl⟩
    cases hget : m.get c.rsaIdentity with
    | none => exact absurd (List.find?_eq_none.mp hget c hc) (by simp)
    | some d =>
      have hd : d ∈ m.commits := List.mem_of_find?_eq_some hget
      rw [m.eq_of_rsaIdentity hd hc (rsaIdentity_of_get hget)]

theorem get_perm {m m' : CommitMap} (h : m'.commits.Perm m.commits) (id : Digest) :
    m'.get id = m.get id := by
  ext c
  rw [get_eq_some_iff, get_eq_some_iff, h.mem_iff]

end Same

section Votes
variable {voterKey : Digest} {p q : Progress}

theorem Same.shouldKeepCommit (h : Same s t) (c : Commit) : shouldKeepCommit digest256
      env.recognized t.commits c voterKey t.phase =
    SharedRandom.shouldKeepCommit digest256 env.recognized s.commits c voterKey s.phase := by
  unfold SharedRandom.shouldKeepCommit
  rw [get_perm h.commits, h.phase]

variable (digest256 env voterKey) in
theorem Same.receiveCommit (h : Same p.state q.state) (c : Commit) :
    ∃ p' q', receiveCommit digest256 env voterKey p c = some p' ∧
      SharedRandom.receiveCommit digest256 env voterKey q c = some q' ∧ Same p'.state q'.state := by
  by_cases hkeep : SharedRandom.shouldKeepCommit digest256 env.recognized p.state.commits c voterKey
      p.state.phase = true
  · have hkeep' := (h.shouldKeepCommit c).trans hkeep
    obtain ⟨d, hvalid, hp, -, hd⟩ := receiveCommit_keep hkeep
    obtain ⟨d', hvalid', hq, -, hd'⟩ := receiveCommit_keep hkeep'
    have hdd' : d' = d := by
      rw [h.phase] at hd'
      cases hphase : p.state.phase with
      | commit =>
        simp only [hphase] at hd hd'
        rw [hd, hd']
      | reveal =>
        simp only [hphase] at hd hd'
        obtain ⟨saved, hget, hd, -⟩ := hd
        obtain ⟨saved', hget', hd', -⟩ := hd'
        rw [get_perm h.commits, hget] at hget'
        cases hget'
        rw [hd, hd']
    subst hdd'
    exact ⟨_, _, hp, hq, h.phase, h.previousSrv, h.currentSrv, set_perm h.commits d' hvalid,
      h.validAfter⟩
  · have hkeep' := mt (h.shouldKeepCommit c).symm.trans hkeep
    exact ⟨p, q, if_neg hkeep, if_neg hkeep', h⟩

variable (digest256 env voterKey) in
theorem Same.foldlM_receiveCommit (received : List Commit) (h : Same p.state q.state) :
    ∃ p' q', received.foldlM (SharedRandom.receiveCommit digest256 env voterKey) p = some p' ∧
      received.foldlM (SharedRandom.receiveCommit digest256 env voterKey) q = some q' ∧
      Same p'.state q'.state := by
  induction received generalizing p q with
  | nil => exact ⟨p, q, rfl, rfl, h⟩
  | cons c received ih =>
    obtain ⟨p₁, q₁, hp₁, hq₁, h₁⟩ := h.receiveCommit digest256 env voterKey c
    obtain ⟨p', q', hp', hq', h'⟩ := ih h₁
    exact ⟨p', q', by simp [List.foldlM_cons, hp₁, hp'], by simp [List.foldlM_cons, hq₁, hq'], h'⟩

theorem receiveCommit_saves (saves : List SrState) :
    receiveCommit digest256 env voterKey ⟨p.state, saves ++ p.saves⟩ c =
      (receiveCommit digest256 env voterKey p c).map fun q => ⟨q.state, saves ++ q.saves⟩ := by
  unfold receiveCommit
  by_cases hkeep : shouldKeepCommit digest256 env.recognized p.state.commits c voterKey
      p.state.phase = true
  · rw [if_pos hkeep, if_pos hkeep]
    cases hsave : saveCommitToState p.state.toState c with
    | none => rfl
    | some s => simp [Progress.query]
  · rw [if_neg hkeep, if_neg hkeep]
    rfl

variable (digest256 env voterKey) in
theorem foldlM_receiveCommit_saves (received : List Commit) (p : Progress) (saves : List SrState) :
    received.foldlM (receiveCommit digest256 env voterKey) ⟨p.state, saves ++ p.saves⟩ =
      (received.foldlM (receiveCommit digest256 env voterKey) p).map fun q =>
        ⟨q.state, saves ++ q.saves⟩ := by
  induction received generalizing p with
  | nil => rfl
  | cons c received ih =>
    rw [List.foldlM_cons, List.foldlM_cons, receiveCommit_saves]
    cases receiveCommit digest256 env voterKey p c with
    | none => rfl
    | some q => exact ih q

/-- The authority has had its commit, or its reveal, and no other one is kept. -/
theorem foldlM_receiveCommit_settled (h : ∀ c, shouldKeepCommit digest256 env.recognized
      p.state.commits c voterKey p.state.phase = false) (received : List Commit) :
    received.foldlM (receiveCommit digest256 env voterKey) p = some p := by
  induction received with
  | nil => rfl
  | cons c received ih =>
    have hc : receiveCommit digest256 env voterKey p c = some p := if_neg (by simp [h c])
    rw [List.foldlM_cons, hc]
    exact ih

variable (digest256 env voterKey) in
theorem foldlM_receiveCommit_one (received : List Commit) (s : SrState) :
    ∃ s' rest, (∀ saves, received.foldlM (receiveCommit digest256 env voterKey) ⟨s, saves⟩ =
        some ⟨s', saves ++ rest⟩) ∧
      ∀ file ∈ rest, file = s' ∧ s'.phase = s.phase ∧ s'.validAfter = s.validAfter := by
  induction received with
  | nil => exact ⟨s, [], by simp, by simp⟩
  | cons c received ih =>
    by_cases hkeep : shouldKeepCommit digest256 env.recognized s.commits c voterKey
        s.phase = true
    · obtain ⟨d, hvalid, hp, hidentity, hd⟩ := receiveCommit_keep (p := ⟨s, []⟩) hkeep
      have hget : (s.commits.set d hvalid).get voterKey = some d := by
        rw [get_set, if_pos hidentity]
      have hsettled : ∀ c', shouldKeepCommit digest256 env.recognized
          (s.commits.set d hvalid) c' voterKey s.phase = false := by
        intro c'
        rw [← Bool.not_eq_true]
        intro hkeep'
        cases hphase : s.phase with
        | commit =>
          rw [hphase] at hkeep'
          obtain ⟨rfl, hnone, -⟩ := shouldKeepCommit_commit hkeep'
          exact absurd (hnone.symm.trans hget) (by simp)
        | reveal =>
          rw [hphase] at hkeep'
          obtain ⟨rfl, saved, hsaved, -, hreveal, -⟩ := shouldKeepCommit_reveal hkeep'
          cases hget.symm.trans hsaved
          simp only [hphase] at hd
          obtain ⟨-, -, -, hd⟩ := hd
          exact absurd (hreveal.symm.trans hd) (by simp)
      let s' : SrState := { s with commits := s.commits.set d hvalid }
      refine ⟨s', [s'], fun saves => ?_, by simp [s']⟩
      have hall : (c :: received).foldlM (receiveCommit digest256 env voterKey) ⟨s, []⟩ =
          some ⟨s', [s']⟩ := by
        rw [List.foldlM_cons, hp]
        exact foldlM_receiveCommit_settled hsettled received
      have hsaves := foldlM_receiveCommit_saves digest256 env voterKey (c :: received) ⟨s, []⟩ saves
      rw [hall, List.append_nil] at hsaves
      exact hsaves
    · obtain ⟨s', rest, hrest, hfiles⟩ := ih
      refine ⟨s', rest, fun saves => ?_, hfiles⟩
      have hc : receiveCommit digest256 env voterKey ⟨s, saves⟩ c = some ⟨s, saves⟩ := if_neg hkeep
      rw [List.foldlM_cons, hc]
      exact hrest saves

end Votes

section Decoded
variable {e : Env × Operation}

theorem VotedIn.decoded (h : VotedIn e c) : c.Decoded := by
  obtain ⟨lines, -, hmem⟩ := h
  obtain ⟨args, -, hparse⟩ := List.mem_filterMap.mp hmem
  exact srParseCommit_decoded hparse

theorem Generated.decoded (h : Generated digest256 e c) : c.Decoded := by
  have hreveal := h.hasRevealValue
  obtain ⟨timestamp, h⟩ := h
  unfold srGenerateOurCommit at h
  cases hid : e.1.identity with
  | none => simp [hid] at h
  | some digest =>
    simp only [hid, Option.map_some, Option.some.injEq] at h
    subst h
    refine ⟨⟨rfl, stampedDecode_encode _⟩, ?_⟩
    rw [if_pos hreveal]
    exact stampedDecode_encode _

theorem CommitStep.decoded (h : CommitStep digest256 e s s')
    (hs : ∀ id c, s.commits.get id = some c → c.Decoded) :
    ∀ id c, s'.commits.get id = some c → c.Decoded := by
  have hset : ∀ (d : Commit) (hvalid : d.valid = true), d.Decoded →
      s'.commits = s.commits.set d hvalid → ∀ id c, s'.commits.get id = some c → c.Decoded := by
    intro d hvalid hd hcommits id c hget
    rw [hcommits, get_set] at hget
    by_cases hid : d.rsaIdentity = id
    · rw [if_pos hid] at hget
      cases hget
      exact hd
    · rw [if_neg hid] at hget
      exact hs id c hget
  cases h with
  | same commits => exact commits ▸ hs
  | generated own hvalid origin commits => exact hset own hvalid origin.decoded commits
  | voted d origin reveal commits =>
    have hd := origin.decoded
    exact hset { d with valid := true } rfl ⟨⟨hd.alg, hd.commitment⟩, hd.reveal⟩ commits
  | revealed d saved hvalid origin saved_get same reveal verified commits =>
    have hd := origin.decoded
    have hsaved := hs _ _ saved_get
    exact hset (copyRevealInfo saved d) hvalid ⟨⟨hsaved.alg, hsaved.commitment⟩, hd.reveal⟩ commits
  | newRun runs commits => exact fun id c hget => (commits id c hget).decoded

/-- All commits of the state are as they are made or parsed. -/
def AllDecoded (s : SrState) : Prop := ∀ c ∈ s.commits.commits, c.Decoded

theorem AllDecoded.get (h : AllDecoded s) : ∀ id c, s.commits.get id = some c → c.Decoded :=
  fun _ c hget => h c (List.mem_of_find?_eq_some hget)

theorem AllDecoded.of_get (h : ∀ id c, s.commits.get id = some c → c.Decoded) : AllDecoded s := by
  intro c hc
  exact h c.rsaIdentity c (get_eq_some_iff.mpr ⟨hc, rfl⟩)

theorem AllDecoded.of_same (h : AllDecoded s) (hsame : Same s t) : AllDecoded t :=
  fun c hc => h c (hsame.commits.mem_iff.mp hc)

theorem srStep_decoded (hs : AllDecoded s) (h : srStep digest256 s e = some s') :
    AllDecoded s' := by
  obtain ⟨t, ht, hsteps⟩ := srStep_steps digest256 s e
  cases h.symm.trans ht
  apply AllDecoded.of_get
  clear h ht
  induction hsteps with
  | refl => exact hs.get
  | tail _ hstep ih => exact hstep.decoded ih

end Decoded

end TorDaemon.SharedRandom

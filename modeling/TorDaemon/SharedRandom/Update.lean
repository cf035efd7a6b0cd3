import TorDaemon.SharedRandom.Protocol

/-! An update of the state in full: the state that it ends in and each state that it saves. Two
states that differ in the order of their commits are updated alike. -/
namespace TorDaemon.SharedRandom
open Library.NetworkOrder Library.Sorting Keypin
variable (digest256 : Bytes → Digest256) (env : Env) (validAfter : ℕ)

/-- The same authority where the schedule has come to another consensus. -/
def Env.later (env : Env) (curValidAfter nextValidAfter : ℕ) : Env :=
  { env with curValidAfter := curValidAfter, nextValidAfter := nextValidAfter }

/-- The update begins a new protocol run. -/
def StartsRun (s : SrState) : Prop :=
  s.validAfter < validAfter ∧ s.phase = .reveal ∧ getSrProtocolPhase env validAfter = .commit

instance (s : SrState) : Decidable (StartsRun env validAfter s) := inferInstanceAs (Decidable (_ ∧ _))

/-- The update makes a commit within the commit phase. -/
def MakesCommit (s : SrState) : Prop :=
  s.phase = .commit ∧ getSrProtocolPhase env validAfter = .commit ∧ s.commits.commits = []

instance (s : SrState) : Decidable (MakesCommit env validAfter s) :=
  inferInstanceAs (Decidable (_ ∧ _))

section States

/-- The values have been rotated. -/
def rotated (s : SrState) : SrState := { s with previousSrv := s.currentSrv, currentSrv := none }

/-- The value has been computed, and saved. -/
def computed (s : SrState) : SrState :=
  setCurrentSrv (some (computedSrv digest256 env (rotated s))) (rotated s)

/-- The state has been reset for the new run. -/
def resetted (s : SrState) : SrState :=
  deleteCommits { setFreshSrv true (computed digest256 env s) with
    nRevealRounds := 0
    nCommitRounds := 0
    nProtocolRuns := s.nProtocolRuns + 1
    validUntil := getStateValidUntilTime env validAfter
    validAfter := validAfter }

/-- The own commit is in the state, if the authority could make one. -/
def withOwn (s : SrState) : SrState :=
  match srGenerateOurCommit digest256 env validAfter with
  | some c => addCommit c s
  | none => s

/-- The new run has begun, and the state is saved for the last time. -/
def begun (s : SrState) : SrState :=
  setValidAfter validAfter (setPhase .commit
    (withOwn digest256 env validAfter (resetted digest256 env validAfter s)))

/-- The state is prepared within the protocol run, and saved for the last time. -/
def prepared (s : SrState) : SrState :=
  setValidAfter validAfter (setPhase (getSrProtocolPhase env validAfter)
    (if MakesCommit env validAfter s then withOwn digest256 env validAfter s else s))

/-- The states that are saved while a new protocol run begins. -/
def runSaves (s : SrState) : List SrState :=
  [delPreviousSrv s, setPreviousSrv s.currentSrv s, rotated s, computed digest256 env s,
    resetted digest256 env validAfter s] ++
    if env.identity.isSome then
      [withOwn digest256 env validAfter (resetted digest256 env validAfter s)]
    else []

end States

theorem withOwn_none {s : SrState} (h : env.identity = none) :
    withOwn digest256 env validAfter s = s := by
  simp [withOwn, srGenerateOurCommit, h]

theorem addOurCommit_eq (p : Progress) : addOurCommit digest256 env validAfter p =
    ⟨withOwn digest256 env validAfter p.state, p.saves ++
      if env.identity.isSome then [withOwn digest256 env validAfter p.state] else []⟩ := by
  unfold addOurCommit withOwn srGenerateOurCommit
  cases env.identity with
  | none => simp
  | some digest => rfl

theorem newProtocolRun_eq {p : Progress} (h : p.state.phase = .reveal) :
    newProtocolRun digest256 env validAfter p =
      some ⟨withOwn digest256 env validAfter (resetted digest256 env validAfter p.state),
        p.saves ++ runSaves digest256 env validAfter p.state⟩ := by
  have hvalid : (stateRotateSrv p).state.commits.commits.all Commit.valid = true :=
    List.all_eq_true.mpr p.state.commits.valid
  have hphase : ¬ (stateRotateSrv p).state.phase ≠ .reveal := not_not.mpr h
  have hcomputed : computeAtEnd digest256 env p =
      some ⟨setFreshSrv true (computed digest256 env p.state), p.saves ++
        [delPreviousSrv p.state, setPreviousSrv p.state.currentSrv p.state, rotated p.state,
          computed digest256 env p.state]⟩ := by
    rw [computeAtEnd, if_pos h, srComputeSrvSaved, if_neg hphase, hvalid]
    simp only [stateRotateSrv, Progress.query, Progress.set, Bool.not_true, Bool.false_eq_true,
      if_false, List.append_assoc, List.singleton_append]
    rfl
  rw [newProtocolRun, hcomputed]
  simp only [Option.bind_eq_bind, Option.bind_some, addOurCommit_eq, resetStateForNewProtocolRun,
    Progress.query, Progress.set, runSaves, List.append_assoc]
  rfl

theorem srStateUpdate_early {p : Progress} (h : validAfter ≤ p.state.validAfter) :
    srStateUpdate digest256 env validAfter p = some p := if_pos h

theorem srStateUpdate_run {p : Progress} (h : StartsRun env validAfter p.state) :
    srStateUpdate digest256 env validAfter p =
      some ⟨countRound (begun digest256 env validAfter p.state), p.saves ++
        (runSaves digest256 env validAfter p.state ++ [begun digest256 env validAfter p.state])⟩ := by
  obtain ⟨hlater, hphase, hnext⟩ := h
  have hturn : p.state.phase ≠ .commit := by simp [hphase]
  rw [srStateUpdate, if_neg (Nat.not_le_of_lt hlater), enterPhase]
  simp only [hnext, if_pos hturn, if_true, newProtocolRun_eq digest256 env validAfter hphase,
    Option.bind_eq_bind, Option.bind_some, Option.pure_def, Progress.set, Progress.query,
    List.append_assoc]
  rfl

theorem srStateUpdate_within {p : Progress} (hlater : p.state.validAfter < validAfter)
    (h : ¬ StartsRun env validAfter p.state) : srStateUpdate digest256 env validAfter p =
      some ⟨countRound (prepared digest256 env validAfter p.state), p.saves ++
        ((if MakesCommit env validAfter p.state ∧ env.identity.isSome then
            [withOwn digest256 env validAfter p.state] else []) ++
          [prepared digest256 env validAfter p.state])⟩ := by
  rw [srStateUpdate, if_neg (Nat.not_le_of_lt hlater), enterPhase]
  by_cases hturn : p.state.phase ≠ getSrProtocolPhase env validAfter
  · have hnext : getSrProtocolPhase env validAfter ≠ .commit := by
      intro hnext
      rw [hnext] at hturn
      refine h ⟨hlater, ?_, hnext⟩
      cases hphase : p.state.phase with
      | commit => exact absurd hphase hturn
      | reveal => rfl
    have hmakes : ¬ MakesCommit env validAfter p.state := fun h => hnext h.2.1
    simp [hturn, hnext, hmakes, prepared, Progress.set, Progress.query]
  · have hsame : p.state.phase = getSrProtocolPhase env validAfter := not_not.mp hturn
    have hset : ∀ s : SrState, s.phase = p.state.phase →
        setPhase (getSrProtocolPhase env validAfter) s = s := by
      intro s hs
      rw [← hsame, ← hs]
      rfl
    by_cases hempty : p.state.phase = .commit ∧ p.state.commits.commits = []
    · have hmakes : MakesCommit env validAfter p.state :=
        ⟨hempty.1, hsame.symm.trans hempty.1, hempty.2⟩
      have hphase : (withOwn digest256 env validAfter p.state).phase = p.state.phase := by
        unfold withOwn
        cases srGenerateOurCommit digest256 env validAfter <;> rfl
      simp only [if_neg hturn, if_pos hempty, addOurCommit_eq, Option.bind_eq_bind,
        Option.bind_some, Option.pure_def, Progress.set, Progress.query, List.append_assoc,
        prepared, hmakes, if_true, hset _ hphase, true_and]
    · have hmakes : ¬ MakesCommit env validAfter p.state := fun h => hempty ⟨h.1, h.2.2⟩
      simp only [if_neg hturn, if_neg hempty, Option.bind_eq_bind, Option.bind_some, Progress.set,
        Progress.query, prepared, hmakes, hset _ rfl, false_and, if_false, List.nil_append]
      rfl

section Same
variable {digest256 : Bytes → Digest256} {env : Env} {validAfter : ℕ} {s t : SrState}

/-- The states are the same, but for the order of the commits and for what no later state
depends on. -/
structure Same (s t : SrState) : Prop where
  phase : t.phase = s.phase
  previousSrv : t.previousSrv = s.previousSrv
  currentSrv : t.currentSrv = s.currentSrv
  commits : t.commits.commits.Perm s.commits.commits
  validAfter : t.validAfter = s.validAfter

/-- They are the same to an update, which forgets the previous value where it begins a run. -/
structure SameTo (env : Env) (validAfter : ℕ) (s t : SrState) : Prop where
  phase : t.phase = s.phase
  previousSrv : t.previousSrv = s.previousSrv ∨ StartsRun env validAfter s
  currentSrv : t.currentSrv = s.currentSrv
  commits : t.commits.commits.Perm s.commits.commits
  validAfter : t.validAfter = s.validAfter

theorem Same.refl (s : SrState) : Same s s := ⟨rfl, rfl, rfl, .refl _, rfl⟩

theorem Same.sameTo (h : Same s t) (env : Env) (validAfter : ℕ) : SameTo env validAfter s t :=
  ⟨h.phase, .inl h.previousSrv, h.currentSrv, h.commits, h.validAfter⟩

theorem Same.countRound (h : Same s t) :
    Same (SharedRandom.countRound s) (SharedRandom.countRound t) := by
  have hcount : ∀ u : SrState, Same u (SharedRandom.countRound u) := by
    intro u
    unfold SharedRandom.countRound
    split_ifs <;> exact ⟨rfl, rfl, rfl, .refl _, rfl⟩
  have hs := hcount s
  have ht := hcount t
  exact ⟨ht.phase.trans (h.phase.trans hs.phase.symm),
    ht.previousSrv.trans (h.previousSrv.trans hs.previousSrv.symm),
    ht.currentSrv.trans (h.currentSrv.trans hs.currentSrv.symm),
    ht.commits.trans (h.commits.trans hs.commits.symm),
    ht.validAfter.trans (h.validAfter.trans hs.validAfter.symm)⟩

theorem set_perm {m m' : CommitMap} (h : m'.commits.Perm m.commits) (c : Commit)
    (hvalid : c.valid = true) : (m'.set c hvalid).commits.Perm (m.set c hvalid).commits :=
  (h.filter _).cons c

theorem Same.withOwn (h : Same s t) :
    Same (withOwn digest256 env validAfter s) (withOwn digest256 env validAfter t) := by
  unfold SharedRandom.withOwn
  cases srGenerateOurCommit digest256 env validAfter with
  | none => exact h
  | some c =>
    exact ⟨h.phase, h.previousSrv, h.currentSrv, set_perm h.commits c.val c.property, h.validAfter⟩

theorem computedSrv_perm (hdistinct : DistinctReveals env.recognized s.commits)
    (hcommits : t.commits.commits.Perm s.commits.commits) (hprev : t.previousSrv = s.previousSrv) :
    computedSrv digest256 env t = computedSrv digest256 env s := by
  have hused : usedCommits env.recognized env.sort s.commits =
      usedCommits env.recognized env.sort t.commits := usedCommits_eq hdistinct hcommits.symm
  rw [computedSrv, computedSrv, reveals_eq, reveals_eq, revealChunks_eq, revealChunks_eq, hused,
    hprev]

section
variable (h : SameTo env validAfter s t)
include h

theorem SameTo.begun
    (hdistinct : DistinctReveals env.recognized s.commits) (curValidAfter nextValidAfter : ℕ) :
    Same (begun digest256 env validAfter s)
      (begun digest256 (env.later curValidAfter nextValidAfter) validAfter t) := by
  have hcomputed : computedSrv digest256 env (rotated t) = computedSrv digest256 env (rotated s) :=
    computedSrv_perm hdistinct h.commits h.currentSrv
  have hreset : Same (resetted digest256 env validAfter s)
      (resetted digest256 (env.later curValidAfter nextValidAfter) validAfter t) :=
    ⟨h.phase, h.currentSrv, congrArg some hcomputed, .refl _, rfl⟩
  have hown : Same
      (SharedRandom.withOwn digest256 env validAfter (resetted digest256 env validAfter s))
      (SharedRandom.withOwn digest256 env validAfter
        (resetted digest256 (env.later curValidAfter nextValidAfter) validAfter t)) :=
    hreset.withOwn
  exact ⟨rfl, hown.previousSrv, hown.currentSrv, hown.commits, rfl⟩

theorem SameTo.startsRun : StartsRun env validAfter t ↔ StartsRun env validAfter s := by
  rw [StartsRun, StartsRun, h.phase, h.validAfter]

theorem SameTo.makesCommit : MakesCommit env validAfter t ↔ MakesCommit env validAfter s := by
  have hempty : t.commits.commits = [] ↔ s.commits.commits = [] := by
    constructor
    · intro ht
      exact List.nil_perm.mp (ht ▸ h.commits)
    · intro hs
      exact List.perm_nil.mp (hs ▸ h.commits)
  rw [MakesCommit, MakesCommit, h.phase, hempty]

theorem SameTo.prepared (hrun : ¬ StartsRun env validAfter s) :
    Same (prepared digest256 env validAfter s) (prepared digest256 env validAfter t) := by
  have hsame : Same s t := ⟨h.phase, h.previousSrv.resolve_right hrun, h.currentSrv, h.commits,
    h.validAfter⟩
  have hown : Same
      (if MakesCommit env validAfter s then SharedRandom.withOwn digest256 env validAfter s else s)
      (if MakesCommit env validAfter t then SharedRandom.withOwn digest256 env validAfter t
        else t) := by
    by_cases hmakes : MakesCommit env validAfter s
    · rw [if_pos hmakes, if_pos (h.makesCommit.mpr hmakes)]
      exact hsame.withOwn
    · rw [if_neg hmakes, if_neg (mt h.makesCommit.mp hmakes)]
      exact hsame
  exact ⟨rfl, hown.previousSrv, hown.currentSrv, hown.commits, rfl⟩

end

variable (digest256) in
theorem SameTo.update (h : SameTo env validAfter s t)
    (hdistinct : StartsRun env validAfter s → DistinctReveals env.recognized s.commits)
    (curValidAfter nextValidAfter : ℕ) (saves saves' : List SrState) :
    ∃ p p', srStateUpdate digest256 env validAfter ⟨s, saves⟩ = some p ∧
      srStateUpdate digest256 (env.later curValidAfter nextValidAfter) validAfter ⟨t, saves'⟩ =
        some p' ∧ Same p.state p'.state := by
  by_cases hearly : validAfter ≤ s.validAfter
  · have hrun : ¬ StartsRun env validAfter s := fun h => absurd h.1 (by omega)
    refine ⟨_, _, srStateUpdate_early _ _ _ hearly,
      srStateUpdate_early _ _ _ (h.validAfter ▸ hearly), ?_⟩
    exact ⟨h.phase, h.previousSrv.resolve_right hrun, h.currentSrv, h.commits, h.validAfter⟩
  · have hlater : s.validAfter < validAfter := Nat.lt_of_not_le hearly
    have hlater' : t.validAfter < validAfter := h.validAfter ▸ hlater
    by_cases hrun : StartsRun env validAfter s
    · refine ⟨_, _, srStateUpdate_run _ _ _ hrun,
        srStateUpdate_run _ (env.later _ _) _ (h.startsRun.mpr hrun), ?_⟩
      exact (h.begun (hdistinct hrun) _ _).countRound
    · refine ⟨_, _, srStateUpdate_within _ _ _ hlater hrun,
        srStateUpdate_within _ (env.later _ _) _ hlater' (mt h.startsRun.mp hrun), ?_⟩
      exact (h.prepared hrun).countRound

end Same

end TorDaemon.SharedRandom

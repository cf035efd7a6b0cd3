import TorDaemon.SharedRandom.Alike
import TorDaemon.SharedRandom.DiskRoundTrip

/-! An authority that goes on, next to one that stops now and then, while an operation is under
way, and starts again from the file that was saved last. -/
namespace TorDaemon.SharedRandom
open Keypin Library.NetworkOrder Library.Reachability Library.Sorting Library.Tables

/-- The valid-after time that the state is prepared for by the operation. -/
def Operation.validAfter (env : Env) (s : SrState) : Operation → ℕ
  | .vote _ _ => s.validAfter
  | .update validAfter => validAfter
  | .postConsensus _ => env.nextValidAfter

section Stop
variable (digest256 : Bytes → Digest256) (env : Env)

/-- The states that are on the disk in turn while the operation goes on: the one from before,
and each that is saved. -/
def files (s : SrState) (o : Operation) : Option (List SrState) :=
  (o.perform digest256 env ⟨s, [s]⟩).map Progress.saves

/-- The authority stops when the operation has saved `k` times. It is started again at the time
`now`, by which there is a consensus for `curValidAfter`, and comes to the same next valid-after
time. -/
def restart (s : SrState) (o : Operation) (k : ℕ) (it : Iteration Commit)
    (curValidAfter now : ℕ) : Option SrState := do
  let saved ← files digest256 env s o
  let file ← saved[k]?
  let p ← srStateInit digest256 (env.later curValidAfter (o.validAfter env s)) it now
    (some (diskStateUpdate file))
  return p.state

end Stop

/-- One operation of the authority that goes on; the other one may stop in it. -/
inductive Episode
  | op (env : Env) (o : Operation)
  | stop (env : Env) (o : Operation) (k : ℕ) (it : Iteration Commit) (curValidAfter now : ℕ)

def episodeStep (digest256 : Bytes → Digest256) (st : SrState × SrState) :
    Episode → Option (SrState × SrState)
  | .op env o => do
    let s ← srStep digest256 st.1 (env, o)
    let t ← srStep digest256 st.2 (env, o)
    return (s, t)
  | .stop env o k it curValidAfter now => do
    let s ← srStep digest256 st.1 (env, o)
    let t ← restart digest256 env st.2 o k it curValidAfter now
    return (s, t)

section Guard
variable (env : Env)

/-- The phase is the one that the schedule has for the valid-after time of the state. -/
def OnSchedule (s : SrState) : Prop := getSrProtocolPhase env s.validAfter = s.phase

/-- An update can be made up for when it has saved `k` times. In one that begins a protocol run
these are the deletion of the previous value, its new value, the deletion of the current value,
its new value, the deletion of the commits, the own commit and the end. -/
def UpdateStop (validAfter : ℕ) (s : SrState) (k : ℕ) : Prop :=
  if StartsRun env validAfter s then
    OnSchedule env s ∧ (k ≤ 2 ∨ k = 3 ∧ s.currentSrv = none) ∨
      k = 5 ∧ env.identity = none ∨ 6 ≤ k
  else
    OnSchedule env s ∨ s.validAfter < validAfter ∧
      (if MakesCommit env validAfter s ∧ env.identity.isSome then 2 else 1) ≤ k

/-- The state after the values of a consensus have been taken over. -/
def taken (consensus : ConsensusSrvs) (s : SrState) : SrState :=
  (takeSrvs consensus ⟨s, []⟩).state

/-- The values on file when `k` of the changes to them have been saved. -/
def takenAt (consensus : ConsensusSrvs) (s : SrState) : ℕ → ConsensusSrvs
  | 0 => ⟨s.previousSrv, s.currentSrv⟩
  | 1 => ⟨none, s.currentSrv⟩
  | 2 => ⟨none, none⟩
  | _ => ⟨consensus.previousSrv, none⟩

/-- Nothing is lost of the values of the consensus that the update still needs. -/
def TakeStop (validAfter : ℕ) (consensus : ConsensusSrvs) (s : SrState) (k : ℕ) : Prop :=
  OnSchedule env s ∧ (takenAt consensus s k).currentSrv = consensus.currentSrv ∧
    ((takenAt consensus s k).previousSrv = consensus.previousSrv ∨ StartsRun env validAfter s)

/-- The operation can be made up for when it has saved `k` times. -/
def Operation.StopAt (s : SrState) (k : ℕ) : Operation → Prop
  | .vote _ _ => OnSchedule env s ∧ 1 ≤ k
  | .update validAfter => UpdateStop env validAfter s k
  | .postConsensus none => UpdateStop env env.nextValidAfter s k
  | .postConsensus (some consensus) =>
    if k < 4 then TakeStop env env.nextValidAfter consensus s k
    else UpdateStop env env.nextValidAfter (taken consensus s) (k - 4)

/-- No value is computed of commits that the order of the map would tell apart. -/
def Operation.Ordered (s : SrState) (o : Operation) : Prop :=
  StartsRun env (o.validAfter env s) s → DistinctReveals env.recognized s.commits

end Guard

/-- The episodes in which nothing gets lost. Where the authority stops, the file is there, is
not refused when it is read again, and was saved where the operation can be made up for. -/
def Episode.Kept (digest256 : Bytes → Digest256) (st : SrState × SrState) : Episode → Prop
  | .op env o => o.Ordered env st.1
  | .stop env o k _ _ now => o.Ordered env st.1 ∧ o.StopAt env st.2 k ∧
      ∃ saved file, files digest256 env st.2 o = some saved ∧ saved[k]? = some file ∧
        diskStateValidate now (diskStateUpdate file) = true ∧ Legible file

/-! An authority that stops where it can make up for it, and one that goes on, are in the same
state after every operation. -/

section Recovery
variable {digest256 : Bytes → Digest256} {env : Env} {validAfter k : ℕ}
  {s s' t t' file : SrState} {o : Operation}

section Resume

/-- The state as it is loaded: its phase is the one of its valid-after time. -/
def reloaded (env : Env) (file : SrState) : SrState :=
  { file with phase := getSrProtocolPhase env file.validAfter }

variable (digest256 env) in
theorem srStateInit_update (hdecoded : AllDecoded file) (hlegible : Legible file) {now : ℕ}
    (hvalidate : diskStateValidate now (diskStateUpdate file) = true) (it : Iteration Commit) :
    ∃ t, Same (reloaded env file) t ∧ srStateInit digest256 env it now
      (some (diskStateUpdate file)) = srStateUpdate digest256 env env.nextValidAfter ⟨t, []⟩ := by
  obtain ⟨t, ht, hcommits, hprev, hcur, hafter, hphase, -⟩ :=
    diskStateParse_update hdecoded hlegible env it now
  refine ⟨t, ⟨hphase, hprev, hcur, hcommits, hafter⟩, ?_⟩
  simp [srStateInit, hvalidate, ht]

/-- Whoever loads the file and updates the state comes to the same state as the one that goes
on, which ends in `s'`. -/
def Resumes (digest256 : Bytes → Digest256) (env : Env) (validAfter : ℕ) (s' file : SrState) :
    Prop :=
  ∀ t curValidAfter nextValidAfter, Same (reloaded env file) t →
    ∃ p, srStateUpdate digest256 (env.later curValidAfter nextValidAfter) validAfter ⟨t, []⟩ =
      some p ∧ Same s' p.state

theorem resumes_before {p : Progress} {saves : List SrState}
    (hsame : SameTo env validAfter s (reloaded env file))
    (hdistinct : StartsRun env validAfter s → DistinctReveals env.recognized s.commits)
    (hupdate : srStateUpdate digest256 env validAfter ⟨s, saves⟩ = some p) (hs' : Same s' p.state) :
    Resumes digest256 env validAfter s' file := by
  intro t curValidAfter nextValidAfter ht
  obtain ⟨q, q', hq, hq', hqq'⟩ := (hsame.trans ht).update digest256 hdistinct curValidAfter
    nextValidAfter saves []
  cases hq.symm.trans hupdate
  exact ⟨q', hq', hs'.trans hqq'⟩

/-- The file was saved when the state was prepared, and the update has nothing left to do. -/
theorem resumes_after (hsame : Same s' (reloaded env file)) (hafter : validAfter ≤ file.validAfter) :
    Resumes digest256 env validAfter s' file := by
  intro t curValidAfter nextValidAfter ht
  have hearly : validAfter ≤ t.validAfter := by
    rw [ht.validAfter]
    exact hafter
  exact ⟨_, srStateUpdate_early _ _ _ hearly, hsame.trans ht⟩

/-- The file is from before what the update changes, or the state is prepared in it. -/
def Recoverable (env : Env) (validAfter : ℕ) (s s' file : SrState) : Prop :=
  SameTo env validAfter s (reloaded env file) ∧ file.commits = s.commits ∨
    Same s' (reloaded env file) ∧ validAfter ≤ file.validAfter ∧ file.commits = s'.commits

variable (digest256 env validAfter) in
theorem withOwn_fields (s : SrState) :
    (withOwn digest256 env validAfter s).previousSrv = s.previousSrv ∧
      (withOwn digest256 env validAfter s).currentSrv = s.currentSrv ∧
      (withOwn digest256 env validAfter s).phase = s.phase ∧
      (withOwn digest256 env validAfter s).validAfter = s.validAfter := by
  unfold withOwn
  cases srGenerateOurCommit digest256 env validAfter <;> exact ⟨rfl, rfl, rfl, rfl⟩

theorem run_stop (hrun : StartsRun env validAfter s) (hstop : UpdateStop env validAfter s k)
    (hfile : (s :: (runSaves digest256 env validAfter s ++ [begun digest256 env validAfter s]))[k]? =
      some file) : Recoverable env validAfter s (begun digest256 env validAfter s) file := by
  rw [UpdateStop, if_pos hrun] at hstop
  obtain ⟨hprev, hcur, hphase, hafter⟩ := withOwn_fields digest256 env validAfter
    (resetted digest256 env validAfter s)
  have hwritten : Same (begun digest256 env validAfter s)
      (reloaded env (withOwn digest256 env validAfter (resetted digest256 env validAfter s))) := by
    refine ⟨?_, rfl, rfl, .refl _, hafter⟩
    rw [reloaded, hafter]
    exact hrun.2.2
  have hend : Same (begun digest256 env validAfter s)
      (reloaded env (begun digest256 env validAfter s)) := ⟨hrun.2.2, rfl, rfl, .refl _, rfl⟩
  have hbefore : OnSchedule env s → file.commits = s.commits → file.validAfter = s.validAfter →
      file.currentSrv = s.currentSrv →
      Recoverable env validAfter s (begun digest256 env validAfter s) file := by
    intro hschedule hcommits hafter hcurrent
    refine .inl ⟨⟨?_, .inr hrun, hcurrent, ?_, hafter⟩, hcommits⟩
    · rw [reloaded, hafter]
      exact hschedule
    · rw [reloaded, hcommits]
  have hdone : ∀ u, Same (begun digest256 env validAfter s) (reloaded env u) →
      u.validAfter = validAfter → u.commits = (begun digest256 env validAfter s).commits →
      file = u → Recoverable env validAfter s (begun digest256 env validAfter s) file := by
    rintro u hsame hafter hcommits rfl
    exact .inr ⟨hsame, hafter.ge, hcommits⟩
  have hearly : k ≤ 4 → OnSchedule env s ∧ (k ≤ 2 ∨ k = 3 ∧ s.currentSrv = none) := by
    intro hk
    rcases hstop with hstop | ⟨rfl, -⟩ | hlate
    · exact hstop
    · omega
    · omega
  rcases k with _ | _ | _ | _ | _ | _ | k
  · cases hfile
    exact hbefore (hearly (by omega)).1 rfl rfl rfl
  · cases hfile
    exact hbefore (hearly (by omega)).1 rfl rfl rfl
  · cases hfile
    exact hbefore (hearly (by omega)).1 rfl rfl rfl
  · cases hfile
    obtain ⟨hschedule, hk | ⟨-, hnone⟩⟩ := hearly (by omega)
    · omega
    · exact hbefore hschedule rfl rfl hnone.symm
  · obtain ⟨-, hk | ⟨hk, -⟩⟩ := hearly (by omega) <;> omega
  · cases hfile
    have hidentity : env.identity = none := by
      rcases hstop with ⟨-, hk | ⟨hk, -⟩⟩ | ⟨-, hidentity⟩ | hk
      · omega
      · omega
      · exact hidentity
      · omega
    rw [withOwn_none _ _ _ hidentity] at hwritten hafter
    refine hdone _ hwritten hafter ?_ rfl
    rw [begun, withOwn_none _ _ _ hidentity]
    rfl
  · -- the own commit, if there is one, and the end
    have hfile' : ((if env.identity.isSome then
        [withOwn digest256 env validAfter (resetted digest256 env validAfter s)] else []) ++
          [begun digest256 env validAfter s])[k]? = some file := by
      simpa [runSaves] using hfile
    rcases List.mem_append.mp (List.mem_of_getElem? hfile') with hmem | hmem
    · cases hidentity : env.identity.isSome with
      | false => simp [hidentity] at hmem
      | true =>
        simp only [hidentity, if_true, List.mem_singleton] at hmem
        exact hdone _ hwritten hafter rfl hmem
    · exact hdone _ hend rfl rfl (List.mem_singleton.mp hmem)

theorem own_resumes (hlater : s.validAfter < validAfter) (hschedule : OnSchedule env s)
    (hmakes : MakesCommit env validAfter s) (hidentity : env.identity.isSome) :
    Resumes digest256 env validAfter (countRound (prepared digest256 env validAfter s))
      (withOwn digest256 env validAfter s) := by
  obtain ⟨-, -, hphase, hvalidAfter⟩ := withOwn_fields digest256 env validAfter s
  have hrun : ¬ StartsRun env validAfter (withOwn digest256 env validAfter s) := by
    intro hrun
    exact absurd (hrun.2.1.symm.trans (hphase.trans hmakes.1)) (by simp)
  have hcommits : (withOwn digest256 env validAfter s).commits.commits ≠ [] := by
    obtain ⟨digest, hdigest⟩ := Option.isSome_iff_exists.mp hidentity
    simp [withOwn, srGenerateOurCommit, hdigest, addCommit, CommitMap.set]
  have hprepared : prepared digest256 env validAfter (withOwn digest256 env validAfter s) =
      prepared digest256 env validAfter s := by
    rw [prepared, if_neg fun h => hcommits h.2.2, prepared, if_pos hmakes]
  have hsame : SameTo env validAfter (withOwn digest256 env validAfter s)
      (reloaded env (withOwn digest256 env validAfter s)) := by
    refine ⟨?_, .inl rfl, rfl, .refl _, rfl⟩
    rw [reloaded, hvalidAfter, hphase]
    exact hschedule
  have hupdate := srStateUpdate_within digest256 env validAfter
    (p := ⟨withOwn digest256 env validAfter s, []⟩) (by rw [hvalidAfter]; exact hlater) hrun
  refine resumes_before hsame (fun h => absurd h hrun) hupdate ?_
  rw [hprepared]
  exact .refl _

theorem within_stop (hlater : s.validAfter < validAfter) (hrun : ¬ StartsRun env validAfter s)
    (hstop : UpdateStop env validAfter s k)
    (hfile : (s :: ((if MakesCommit env validAfter s ∧ env.identity.isSome then
        [withOwn digest256 env validAfter s] else []) ++ [prepared digest256 env validAfter s]))[k]? =
      some file) :
    Resumes digest256 env validAfter (countRound (prepared digest256 env validAfter s)) file ∧
      (file.commits = s.commits ∨ file.commits = (prepared digest256 env validAfter s).commits) := by
  rw [UpdateStop, if_neg hrun] at hstop
  have hbefore : OnSchedule env s → Resumes digest256 env validAfter
      (countRound (prepared digest256 env validAfter s)) s := by
    intro hschedule
    have hsame : SameTo env validAfter s (reloaded env s) := ⟨hschedule, .inl rfl, rfl, .refl _, rfl⟩
    exact resumes_before hsame (fun h => absurd h hrun)
      (srStateUpdate_within digest256 env validAfter (p := ⟨s, []⟩) hlater hrun) (.refl _)
  have hafter : Resumes digest256 env validAfter (countRound (prepared digest256 env validAfter s))
      (prepared digest256 env validAfter s) := by
    refine resumes_after ((same_countRound _).trans ?_) (Nat.le_refl _)
    exact ⟨rfl, rfl, rfl, .refl _, rfl⟩
  cases k with
  | zero =>
    cases hfile
    refine ⟨hbefore ?_, .inl rfl⟩
    rcases hstop with hschedule | ⟨-, hk⟩
    · exact hschedule
    · split_ifs at hk <;> omega
  | succ k =>
    by_cases hmakes : MakesCommit env validAfter s ∧ env.identity.isSome
    · rw [if_pos hmakes] at hfile hstop
      cases k with
      | zero =>
        cases hfile
        refine ⟨own_resumes hlater ?_ hmakes.1 hmakes.2, .inr (by rw [prepared, if_pos hmakes.1]; rfl)⟩
        rcases hstop with hschedule | ⟨-, hk⟩
        · exact hschedule
        · omega
      | succ k =>
        obtain rfl := List.mem_singleton.mp (List.mem_of_getElem? hfile)
        exact ⟨hafter, .inr rfl⟩
    · rw [if_neg hmakes, List.nil_append] at hfile
      obtain rfl := List.mem_singleton.mp (List.mem_of_getElem? hfile)
      exact ⟨hafter, .inr rfl⟩

variable (digest256 validAfter) in
theorem update_stop
    (hdistinct : StartsRun env validAfter s → DistinctReveals env.recognized s.commits) :
    ∃ s' rest, (∀ saves, srStateUpdate digest256 env validAfter ⟨s, saves⟩ =
        some ⟨s', saves ++ rest⟩) ∧
      ∀ k file, UpdateStop env validAfter s k → (s :: rest)[k]? = some file →
        Resumes digest256 env validAfter s' file ∧
          (file.commits = s.commits ∨ file.commits = s'.commits) := by
  have hcount : ∀ u, (countRound u).commits = u.commits := fun u => (countRound_spec u).1
  by_cases hearly : validAfter ≤ s.validAfter
  · have hrun : ¬ StartsRun env validAfter s := fun h => absurd h.1 (by omega)
    refine ⟨s, [], fun saves => ?_, fun k file hstop hfile => ?_⟩
    · rw [List.append_nil]
      exact srStateUpdate_early _ _ _ hearly
    · obtain rfl := List.mem_singleton.mp (List.mem_of_getElem? hfile)
      rw [UpdateStop, if_neg hrun] at hstop
      have hschedule : OnSchedule env file := hstop.resolve_right fun h => by omega
      have hsame : Same file (reloaded env file) := ⟨hschedule, rfl, rfl, .refl _, rfl⟩
      exact ⟨resumes_after hsame hearly, .inl rfl⟩
  · have hlater : s.validAfter < validAfter := Nat.lt_of_not_le hearly
    by_cases hrun : StartsRun env validAfter s
    · have hupdate := fun saves =>
        srStateUpdate_run digest256 env validAfter (p := ⟨s, saves⟩) hrun
      refine ⟨countRound (begun digest256 env validAfter s),
        runSaves digest256 env validAfter s ++ [begun digest256 env validAfter s], hupdate,
        fun k file hstop hfile => ?_⟩
      rcases run_stop hrun hstop hfile with ⟨hsame, hcommits⟩ | ⟨hsame, hafter, hcommits⟩
      · exact ⟨resumes_before hsame hdistinct (hupdate []) (.refl _), .inl hcommits⟩
      · refine ⟨resumes_after ((same_countRound _).trans hsame) hafter, .inr ?_⟩
        exact hcommits.trans (hcount _).symm
    · have hupdate := fun saves =>
        srStateUpdate_within digest256 env validAfter (p := ⟨s, saves⟩) hlater hrun
      refine ⟨countRound (prepared digest256 env validAfter s),
        (if MakesCommit env validAfter s ∧ env.identity.isSome then
          [withOwn digest256 env validAfter s] else []) ++ [prepared digest256 env validAfter s],
        hupdate, fun k file hstop hfile => ?_⟩
      obtain ⟨hresumes, hcommits⟩ := within_stop hlater hrun hstop hfile
      exact ⟨hresumes, hcommits.imp_right fun h => h.trans (hcount _).symm⟩

/-- The values of a consensus are partly taken over, and the update has yet to begin. -/
theorem take_stop {consensus : ConsensusSrvs} (hfile : file.commits = s.commits)
    (hafter : file.validAfter = s.validAfter)
    (hprevious : file.previousSrv = (takenAt consensus s k).previousSrv)
    (hcurrent : file.currentSrv = (takenAt consensus s k).currentSrv)
    (hstop : TakeStop env validAfter consensus s k) :
    SameTo env validAfter (taken consensus s) (reloaded env file) := by
  obtain ⟨hschedule, hcur, hprev⟩ := hstop
  constructor
  · rw [reloaded, hafter]
    exact hschedule
  · exact hprev.imp hprevious.trans fun h => h
  · exact hcurrent.trans hcur
  · rw [reloaded, hfile]
    exact .refl _
  · exact hafter

variable (digest256) in
/-- The state that an operation ends in, and the files from which it can be made up for. -/
theorem stop_resumes (s : SrState) (o : Operation) (hordered : o.Ordered env s) :
    ∃ s' saved, srStep digest256 s (env, o) = some s' ∧ files digest256 env s o = some saved ∧
      ∀ k file, o.StopAt env s k → saved[k]? = some file →
        Resumes digest256 env (o.validAfter env s) s' file ∧
          (file.commits = s.commits ∨ file.commits = s'.commits) := by
  cases o with
  | vote lines voterKey =>
    obtain ⟨s', rest, hrest, hfiles⟩ := foldlM_receiveCommit_one digest256 env voterKey
      (visited (lines.filterMap srParseCommit)) s
    refine ⟨s', s :: rest, ?_, ?_, fun k file hstop hfile => ?_⟩
    · rw [srStep, Operation.perform, receiveVote, hrest]
      rfl
    · rw [files, Operation.perform, receiveVote, hrest]
      rfl
    · obtain ⟨hschedule, hk⟩ := hstop
      obtain ⟨k, rfl⟩ := Nat.exists_eq_add_of_lt hk
      have hmem : file ∈ rest := List.mem_of_getElem? (i := k) (by simpa using hfile)
      obtain ⟨rfl, hphase, hafter⟩ := hfiles file hmem
      have hsame : Same file (reloaded env file) := by
        refine ⟨?_, rfl, rfl, .refl _, rfl⟩
        rw [reloaded, hafter, hphase]
        exact hschedule
      exact ⟨resumes_after hsame hafter.ge, .inr rfl⟩
  | update validAfter =>
    have hdistinct : StartsRun env validAfter s → DistinctReveals env.recognized s.commits :=
      hordered
    obtain ⟨s', rest, hrest, hfiles⟩ := update_stop digest256 validAfter hdistinct
    refine ⟨s', s :: rest, ?_, ?_, hfiles⟩
    · rw [srStep, Operation.perform, hrest]
      rfl
    · rw [files, Operation.perform, hrest]
      rfl
  | postConsensus consensus =>
    cases consensus with
    | none =>
      have hdistinct : StartsRun env env.nextValidAfter s →
          DistinctReveals env.recognized s.commits := hordered
      obtain ⟨s', rest, hrest, hfiles⟩ := update_stop digest256 env.nextValidAfter hdistinct
      refine ⟨s', s :: rest, ?_, ?_, hfiles⟩
      · rw [srStep, Operation.perform, srActPostConsensus, hrest]
        rfl
      · rw [files, Operation.perform, srActPostConsensus, hrest]
        rfl
    | some consensus =>
      have hdistinct : StartsRun env env.nextValidAfter (taken consensus s) →
          DistinctReveals env.recognized (taken consensus s).commits := hordered
      obtain ⟨s', rest, hrest, hfiles⟩ := update_stop digest256 env.nextValidAfter hdistinct
      have hall : ∀ saves, srActPostConsensus digest256 env (some consensus) ⟨s, saves⟩ =
          some ⟨s', (takeSrvs consensus ⟨s, saves⟩).saves ++ rest⟩ := fun saves => hrest _
      refine ⟨s', (takeSrvs consensus ⟨s, [s]⟩).saves ++ rest, ?_, ?_, fun k file hstop hfile => ?_⟩
      · rw [srStep, Operation.perform, hall]
        rfl
      · rw [files, Operation.perform, hall]
        rfl
      · rw [Operation.StopAt] at hstop
        by_cases hk : k < 4
        · rw [if_pos hk] at hstop
          have hbefore : ∀ file : SrState, file.commits = s.commits →
              file.validAfter = s.validAfter →
              file.previousSrv = (takenAt consensus s k).previousSrv →
              file.currentSrv = (takenAt consensus s k).currentSrv →
              Resumes digest256 env env.nextValidAfter s' file := by
            intro file hcommits hafter hprevious hcurrent
            exact resumes_before (take_stop hcommits hafter hprevious hcurrent hstop) hdistinct
              (hrest []) (.refl s')
          rcases k with _ | _ | _ | _ | k
          · cases hfile
            exact ⟨hbefore _ rfl rfl rfl rfl, .inl rfl⟩
          · cases hfile
            exact ⟨hbefore _ rfl rfl rfl rfl, .inl rfl⟩
          · cases hfile
            exact ⟨hbefore _ rfl rfl rfl rfl, .inl rfl⟩
          · cases hfile
            exact ⟨hbefore _ rfl rfl rfl rfl, .inl rfl⟩
          · omega
        · rw [if_neg hk] at hstop
          obtain ⟨j, rfl⟩ : ∃ j, k = j + 4 := ⟨k - 4, by omega⟩
          exact hfiles j file hstop hfile

end Resume

section Runs

theorem Operation.Ordered.of_same (h : o.Ordered env s) (hsame : Same s t) : o.Ordered env t := by
  intro hrun
  have hafter : o.validAfter env t = o.validAfter env s := by
    cases o with
    | vote => exact hsame.validAfter
    | update => rfl
    | postConsensus => rfl
  have hrun' := (hsame.sameTo env (o.validAfter env t)).startsRun.mp hrun
  have hdistinct := h (hafter ▸ hrun')
  intro a ha b hb
  exact hdistinct a (hsame.commits.mem_iff.mp ha) b (hsame.commits.mem_iff.mp hb)

variable (digest256) in
theorem Same.srStep (hsame : Same s t) (hordered : o.Ordered env s) :
    ∃ s' t', srStep digest256 s (env, o) = some s' ∧
      SharedRandom.srStep digest256 t (env, o) = some t' ∧ Same s' t' := by
  have hupdate : ∀ {s t : SrState} validAfter, Same s t →
      (StartsRun env validAfter s → DistinctReveals env.recognized s.commits) → ∀ saves saves',
      ∃ p q, srStateUpdate digest256 env validAfter ⟨s, saves⟩ = some p ∧
        srStateUpdate digest256 env validAfter ⟨t, saves'⟩ = some q ∧ Same p.state q.state :=
    fun validAfter hsame hdistinct saves saves' => (hsame.sameTo env validAfter).update digest256
      hdistinct env.curValidAfter env.nextValidAfter saves saves'
  cases o with
  | vote lines voterKey =>
    obtain ⟨p, q, hp, hq, hpq⟩ := Same.foldlM_receiveCommit digest256 env voterKey
      (p := ⟨s, []⟩) (q := ⟨t, []⟩) (visited (lines.filterMap srParseCommit)) hsame
    refine ⟨p.state, q.state, ?_, ?_, hpq⟩
    · rw [SharedRandom.srStep, Operation.perform, receiveVote, hp]
      rfl
    · rw [SharedRandom.srStep, Operation.perform, receiveVote, hq]
      rfl
  | update validAfter =>
    obtain ⟨p, q, hp, hq, hpq⟩ := hupdate validAfter hsame hordered [] []
    exact ⟨p.state, q.state, congrArg (Option.map Progress.state) hp,
      congrArg (Option.map Progress.state) hq, hpq⟩
  | postConsensus consensus =>
    cases consensus with
    | none =>
      obtain ⟨p, q, hp, hq, hpq⟩ := hupdate env.nextValidAfter hsame hordered [] []
      exact ⟨p.state, q.state, congrArg (Option.map Progress.state) hp,
        congrArg (Option.map Progress.state) hq, hpq⟩
    | some consensus =>
      have htaken : Same (taken consensus s) (taken consensus t) :=
        ⟨hsame.phase, rfl, rfl, hsame.commits, hsame.validAfter⟩
      obtain ⟨p, q, hp, hq, hpq⟩ := hupdate env.nextValidAfter htaken hordered
        (takeSrvs consensus ⟨s, []⟩).saves (takeSrvs consensus ⟨t, []⟩).saves
      exact ⟨p.state, q.state, congrArg (Option.map Progress.state) hp,
        congrArg (Option.map Progress.state) hq, hpq⟩

/-- Where nothing gets lost, an episode takes two states that are the same to two that are. -/
theorem Same.episodeStep {e : Episode} (hsame : Same s t) (hdecoded : AllDecoded t)
    (hkept : e.Kept digest256 (s, t)) : ∃ s' t', episodeStep digest256 (s, t) e = some (s', t') ∧
      Same s' t' ∧ AllDecoded t' := by
  cases e with
  | op env o =>
    obtain ⟨s', t', hs', ht', hsame'⟩ := hsame.srStep digest256 hkept
    refine ⟨s', t', ?_, hsame', srStep_decoded hdecoded ht'⟩
    simp [SharedRandom.episodeStep, hs', ht']
  | stop env o k it curValidAfter now =>
    obtain ⟨hordered, hstop, saved, file, hfiles, hfile, hvalidate, hlegible⟩ := hkept
    obtain ⟨s', t', hs', ht', hsame'⟩ := hsame.srStep digest256 hordered
    obtain ⟨t'', saved', ht'', hfiles', hresumes⟩ := stop_resumes digest256 t o (hordered.of_same hsame)
    cases ht'.symm.trans ht''
    cases hfiles.symm.trans hfiles'
    obtain ⟨hresumes, hcommits⟩ := hresumes k file hstop hfile
    have hdecoded' : AllDecoded t' := srStep_decoded hdecoded ht'
    have hloaded : AllDecoded file := by
      rcases hcommits with hcommits | hcommits
      · rw [AllDecoded, hcommits]
        exact hdecoded
      · rw [AllDecoded, hcommits]
        exact hdecoded'
    obtain ⟨u, hu, hinit⟩ := srStateInit_update digest256
      (env.later curValidAfter (o.validAfter env t)) hloaded hlegible hvalidate it
    obtain ⟨p, hp, hsame''⟩ := hresumes u curValidAfter (o.validAfter env t) hu
    have hrestart : restart digest256 env t o k it curValidAfter now = some p.state := by
      have hp' : srStateInit digest256 (env.later curValidAfter (o.validAfter env t)) it now
          (some (diskStateUpdate file)) = some p := hinit.trans hp
      simp [restart, hfiles, hfile, hp']
    refine ⟨s', p.state, ?_, hsame'.trans hsame'', hdecoded'.of_same hsame''⟩
    simp [SharedRandom.episodeStep, hs', hrestart]

/-- In every run in which the authority stops only where the operation can be made up for, it
is after every episode in the same state as if it had not stopped. -/
theorem sr_state_survives_restarts (digest256 : Bytes → Digest256) (env : Env) (now : ℕ)
    (episodes : List Episode) (h : Guarded (episodeStep digest256) (Episode.Kept digest256)
      (stateNew env now, stateNew env now) episodes) :
    ∃ s t, run (episodeStep digest256) (stateNew env now, stateNew env now) episodes =
      some (s, t) ∧ Same s t := by
  have hrun : ∀ (episodes : List Episode) s t, Same s t → AllDecoded t →
      Guarded (episodeStep digest256) (Episode.Kept digest256) (s, t) episodes →
      ∃ s' t', run (episodeStep digest256) (s, t) episodes = some (s', t') ∧ Same s' t' := by
    intro episodes
    induction episodes with
    | nil => exact fun s t hsame _ _ => ⟨s, t, rfl, hsame⟩
    | cons e episodes ih =>
      intro s t hsame hdecoded hguarded
      obtain ⟨s₁, t₁, hstep, hsame₁, hdecoded₁⟩ := hsame.episodeStep hdecoded hguarded.1
      obtain ⟨s', t', hrest, hsame'⟩ := ih s₁ t₁ hsame₁ hdecoded₁ (hguarded.2 _ hstep)
      exact ⟨s', t', by rw [run, hstep, Option.bind_some, hrest], hsame'⟩
  exact hrun episodes _ _ (.refl _) (fun c hc => absurd hc (by simp [stateNew, CommitMap.empty])) h

end Runs

section RotatedTwice

/-- An authority in rounds of one second. -/
def exampleEnv : Env where
  recognized _ := true
  identity := some (Digest.replicate 1)
  random := Digest256.replicate 0
  votingInterval := 1
  curValidAfter := 0
  nextValidAfter := 13
  sort := stableQsort compareReveal

def exampleSrv : Srv := ⟨1, List.replicate 32 7, by simp⟩

def exampleStart : SrState × SrState := (stateNew exampleEnv 0, stateNew exampleEnv 0)

def sameOrder : Iteration Commit := ⟨fun l => l, fun _ => .refl _⟩

/-- The authority stops when its commit has been saved. -/
def commitSaved : List Episode := [.stop exampleEnv (.update 1) 1 sameOrder 0 0]

def commitFile : SrState := withOwn prefixDigest exampleEnv 1 exampleStart.2

theorem sr_state_survives_commit_saved :
    ∃ s t, run (episodeStep prefixDigest) exampleStart commitSaved = some (s, t) ∧ Same s t := by
  have hordered : (Operation.update 1).Ordered exampleEnv exampleStart.1 :=
    fun hrun => absurd hrun.2.1 (by decide)
  have hstop : (Operation.update 1).StopAt exampleEnv exampleStart.2 1 := by
    have hrun : ¬ StartsRun exampleEnv 1 exampleStart.2 := by decide
    have hschedule : OnSchedule exampleEnv exampleStart.2 := by
      unfold OnSchedule
      decide
    rw [Operation.StopAt, UpdateStop, if_neg hrun]
    exact .inl hschedule
  have hlegible : Legible commitFile := by
    constructor
    · have hseparable : ∀ c ∈ commitFile.commits.commits,
          (c.encodedCommit ++ c.encodedReveal).all (· ≠ 32) = true ∧
            trim c.encodedCommit = c.encodedCommit ∧ trim c.encodedReveal = c.encodedReveal := by
        decide +kernel
      intro c hc
      obtain ⟨hblank, hcommit, hreveal⟩ := hseparable c hc
      exact ⟨fun hmem => by simpa using List.all_eq_true.mp hblank 32 hmem, hcommit, hreveal⟩
    · decide
    · decide
  have hkept : Guarded (episodeStep prefixDigest) (Episode.Kept prefixDigest) exampleStart
      commitSaved :=
    ⟨⟨hordered, hstop, _, commitFile, rfl, rfl, by decide +kernel, hlegible⟩, fun _ _ => trivial⟩
  exact sr_state_survives_restarts prefixDigest exampleEnv 0 commitSaved hkept

/-- The authority stops in the update that begins the second run, when the current value has
been deleted. -/
def rotatedTwice : List Episode :=
  [.op exampleEnv (.update 1), .op exampleEnv (.update 12),
    .op exampleEnv (.postConsensus (some ⟨none, some exampleSrv⟩)),
    .stop exampleEnv (.update 24) 3 sameOrder 0 20]

/-- The file is read, with the commit in it, and the values are rotated once more. -/
theorem restart_rotates_again : (∃ st ∈ run (episodeStep prefixDigest) exampleStart rotatedTwice,
      st.1.previousSrv = some exampleSrv ∧ st.2.previousSrv = none ∧
        st.2.currentSrv.map Srv.numReveals = some 1) ∧
    ¬ ∀ episodes s t, run (episodeStep prefixDigest) exampleStart episodes = some (s, t) →
      Same s t := by
  have hrun : ∃ st ∈ run (episodeStep prefixDigest) exampleStart rotatedTwice,
      st.1.previousSrv = some exampleSrv ∧ st.2.previousSrv = none ∧
        st.2.currentSrv.map Srv.numReveals = some 1 := by
    decide +kernel
  refine ⟨hrun, fun h => ?_⟩
  obtain ⟨⟨s, t⟩, hst, hs, ht, -⟩ := hrun
  have hsame := (h rotatedTwice s t hst).previousSrv
  exact absurd (ht.symm.trans (hsame.trans hs)) (by simp)

end RotatedTwice

end Recovery

end TorDaemon.SharedRandom

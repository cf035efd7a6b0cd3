import TorDaemon.Library.Tables
import TorDaemon.SharedRandom.Agreement

/-! The cache that recognizes introductions seen before (`replaycache.c`): with entries that age
and are scrubbed, it answers as the whole history of the queries does. -/
namespace TorDaemon.HiddenService.ReplayCache
open Library.NetworkOrder Library.Sweep Library.Tables SharedRandom

section Model

structure Replaycache where
  scrubInterval : ℤ
  scrubbed : ℤ
  horizon : ℤ
  digestsSeen : AList fun _ : Digest256 => ℤ

def replaycacheNew (horizon interval : ℤ) : Option Replaycache :=
  if horizon < 0 then none
  else some ⟨if interval < 0 then 0 else interval, 0, horizon, ∅⟩

abbrev DigestIteration := Iteration (Σ _ : Digest256, ℤ)

/-- An entry that has aged out is removed. -/
def scrubVisit (present horizon : ℤ) (_ : Unit) (accessTime : ℤ) : Unit × Bool :=
  ((), accessTime < present - horizon)

def replaycacheScrubIfNeededInternal (present : ℤ) (it : DigestIteration) (r : Replaycache) :
    Replaycache :=
  if present - r.scrubbed < r.scrubInterval ∧ 0 < r.scrubbed then r
  else if r.horizon = 0 then r
  else
    { r with
      digestsSeen := (sweepAll (scrubVisit present r.horizon) it () r.digestsSeen).2
      scrubbed := if r.scrubbed < present then present else r.scrubbed }

/-- `*elapsed` is written to on a hit only. -/
def testAccessTime (present horizon accessTime : ℤ) : Bool × Option ℤ :=
  if present - horizon ≤ accessTime ∨ horizon = 0 then
    (true, some (if accessTime ≤ present then present - accessTime else 0))
  else (false, none)

/-- `replaycache_add_and_test_internal`, with what it returns and the elapsed time. -/
def replaycacheAddAndTestInternal (sha256 : Bytes → Digest256) (present : ℤ) (data : Bytes)
    (it : DigestIteration) (r : Replaycache) : (Bool × Option ℤ) × Replaycache :=
  if present ≤ 0 ∨ data.length = 0 then ((false, none), r)
  else
    let digest := sha256 data
    match r.digestsSeen.lookup digest with
    | some accessTime =>
      let r' := if accessTime < present then
          { r with digestsSeen := r.digestsSeen.insert digest present }
        else r
      (testAccessTime present r.horizon accessTime, replaycacheScrubIfNeededInternal present it r')
    | none =>
      let r' := { r with digestsSeen := r.digestsSeen.insert digest present }
      ((false, none), replaycacheScrubIfNeededInternal present it r')

structure Query where
  present : ℤ
  data : Bytes
  it : DigestIteration

/-- The answers to the queries, one after the other. -/
def runQueries (sha256 : Bytes → Digest256) : Replaycache → List Query → List (Bool × Option ℤ)
  | _, [] => []
  | r, q :: qs =>
    let (answer, r') := replaycacheAddAndTestInternal sha256 q.present q.data q.it r
    answer :: runQueries sha256 r' qs

end Model

section History

/-- The time of the latest query of the data, where the latest one comes first. -/
def lastQuery (earlier : List Query) (data : Bytes) : Option ℤ :=
  (earlier.find? fun q => q.data = data).map Query.present

/-- A query is a hit if its data was queried before, and not longer ago than the horizon. -/
def historyAnswer (horizon : ℤ) (earlier : List Query) (q : Query) : Bool × Option ℤ :=
  match lastQuery earlier q.data with
  | none => (false, none)
  | some last =>
    if horizon = 0 ∨ q.present - last ≤ horizon then (true, some (q.present - last))
    else (false, none)

def historyAnswers (answer : List Query → Query → Bool × Option ℤ) :
    List Query → List Query → List (Bool × Option ℤ)
  | _, [] => []
  | earlier, q :: qs => answer earlier q :: historyAnswers answer (q :: earlier) qs

/-- The same but for the data that is refused. -/
def cacheAnswer (horizon : ℤ) (earlier : List Query) (q : Query) : Bool × Option ℤ :=
  if q.data = [] then (false, none) else historyAnswer horizon earlier q

variable {earlier : List Query} {q : Query} {data : Bytes} {t now : ℤ}

theorem lastQuery_cons (q : Query) (earlier : List Query) (data : Bytes) :
    lastQuery (q :: earlier) data =
      if q.data = data then some q.present else lastQuery earlier data := by
  unfold lastQuery
  by_cases h : q.data = data
  · simp [h]
  · simp [h]

theorem lastQuery_le (h : lastQuery earlier data = some t) (hpast : ∀ q ∈ earlier, q.present ≤ now) :
    t ≤ now := by
  obtain ⟨q, hq, rfl⟩ := Option.map_eq_some_iff.mp h
  exact hpast q (List.mem_of_find?_eq_some hq)

end History

section Scrub
variable {present t : ℤ} {it : DigestIteration} {r : Replaycache} {k : Digest256}

@[simp] theorem scrub_horizon (present : ℤ) (it : DigestIteration) (r : Replaycache) :
    (replaycacheScrubIfNeededInternal present it r).horizon = r.horizon := by
  unfold replaycacheScrubIfNeededInternal
  split_ifs <;> rfl

/-- A scrub is put off, or removes what has aged out. -/
theorem lookup_scrub (present : ℤ) (it : DigestIteration) (r : Replaycache) :
    (replaycacheScrubIfNeededInternal present it r).digestsSeen = r.digestsSeen ∨
      r.horizon ≠ 0 ∧ ∀ k, (replaycacheScrubIfNeededInternal present it r).digestsSeen.lookup k =
        (r.digestsSeen.lookup k).filter fun t => !decide (t < present - r.horizon) := by
  unfold replaycacheScrubIfNeededInternal
  by_cases hwait : present - r.scrubbed < r.scrubInterval ∧ 0 < r.scrubbed
  · rw [if_pos hwait]
    exact .inl rfl
  · rw [if_neg hwait]
    by_cases hnever : r.horizon = 0
    · rw [if_pos hnever]
      exact .inl rfl
    · rw [if_neg hnever]
      refine .inr ⟨hnever, fun k => ?_⟩
      exact lookup_sweepAll (scrubVisit present r.horizon) (fun _ _ => rfl) it () r.digestsSeen k

theorem lookup_of_scrub
    (h : (replaycacheScrubIfNeededInternal present it r).digestsSeen.lookup k = some t) :
    r.digestsSeen.lookup k = some t := by
  rcases lookup_scrub present it r with hsame | ⟨-, hfilter⟩
  · rwa [hsame] at h
  · rw [hfilter] at h
    exact (Option.filter_eq_some_iff.mp h).1

theorem scrub_lookup (h : r.digestsSeen.lookup k = some t) :
    (replaycacheScrubIfNeededInternal present it r).digestsSeen.lookup k = some t ∨
      r.horizon ≠ 0 ∧ t < present - r.horizon := by
  rcases lookup_scrub present it r with hsame | ⟨hnever, hfilter⟩
  · exact .inl (hsame ▸ h)
  · by_cases hold : t < present - r.horizon
    · exact .inr ⟨hnever, hold⟩
    · left
      rw [hfilter, h]
      simp [hold]

end Scrub

section Exact
variable {sha256 : Bytes → Digest256} {known : Set Bytes} {horizon now : ℤ} {earlier : List Query}
  {q : Query} {r r' : Replaycache}

/-- The cache has the time of the latest query of everything that is not older than the
horizon. -/
structure Remembers (sha256 : Bytes → Digest256) (known : Set Bytes) (horizon now : ℤ)
    (earlier : List Query) (r : Replaycache) : Prop where
  horizon_eq : r.horizon = horizon
  past : ∀ q ∈ earlier, q.present ≤ now
  sound : ∀ data ∈ known, data ≠ [] → ∀ t, r.digestsSeen.lookup (sha256 data) = some t →
    lastQuery earlier data = some t
  complete : ∀ data ∈ known, data ≠ [] → ∀ t, lastQuery earlier data = some t →
    r.digestsSeen.lookup (sha256 data) = some t ∨ horizon ≠ 0 ∧ t < now - horizon

section
variable (h : Remembers sha256 known horizon now earlier r)
include h

theorem Remembers.scrub (it : DigestIteration) :
    Remembers sha256 known horizon now earlier (replaycacheScrubIfNeededInternal now it r) where
  horizon_eq := (scrub_horizon now it r).trans h.horizon_eq
  past := h.past
  sound data hdata hne t hlook := h.sound data hdata hne t (lookup_of_scrub hlook)
  complete data hdata hne t hlast := by
    rcases h.complete data hdata hne t hlast with hlook | hold
    · rw [← h.horizon_eq]
      exact scrub_lookup hlook
    · exact .inr hold

/-- The data of the query is given its time, and nothing else is touched. -/
theorem Remembers.record
    (hinj : Set.InjOn sha256 known) (hq : q.data ∈ known) (hnow : now ≤ q.present)
    (hhorizon : r'.horizon = r.horizon) (hset : ∀ k, r'.digestsSeen.lookup k =
      if k = sha256 q.data then some q.present else r.digestsSeen.lookup k) :
    Remembers sha256 known horizon q.present (q :: earlier) r' where
  horizon_eq := hhorizon.trans h.horizon_eq
  past := by
    intro q' hq'
    rcases List.mem_cons.mp hq' with rfl | hq'
    · exact le_rfl
    · exact (h.past q' hq').trans hnow
  sound data hdata hne t hlook := by
    rw [hset] at hlook
    rw [lastQuery_cons]
    by_cases heq : q.data = data
    · rw [if_pos (congrArg sha256 heq.symm)] at hlook
      rwa [if_pos heq]
    · rw [if_neg fun hdigest => heq (hinj hq hdata hdigest.symm)] at hlook
      rw [if_neg heq]
      exact h.sound data hdata hne t hlook
  complete data hdata hne t hlast := by
    rw [hset]
    rw [lastQuery_cons] at hlast
    by_cases heq : q.data = data
    · rw [if_pos heq] at hlast
      rw [if_pos (congrArg sha256 heq.symm)]
      exact .inl hlast
    · rw [if_neg heq] at hlast
      rw [if_neg fun hdigest => heq (hinj hq hdata hdigest.symm)]
      rcases h.complete data hdata hne t hlast with hlook | ⟨hnever, hold⟩
      · exact .inl hlook
      · exact .inr ⟨hnever, by omega⟩

theorem Remembers.refuse (hq : q.data = [])
    (hnow : now ≤ q.present) : Remembers sha256 known horizon q.present (q :: earlier) r where
  horizon_eq := h.horizon_eq
  past := by
    intro q' hq'
    rcases List.mem_cons.mp hq' with rfl | hq'
    · exact le_rfl
    · exact (h.past q' hq').trans hnow
  sound data hdata hne t hlook := by
    rw [lastQuery_cons, hq, if_neg hne.symm]
    exact h.sound data hdata hne t hlook
  complete data hdata hne t hlast := by
    rw [lastQuery_cons, hq, if_neg hne.symm] at hlast
    rcases h.complete data hdata hne t hlast with hlook | ⟨hnever, hold⟩
    · exact .inl hlook
    · exact .inr ⟨hnever, by omega⟩

end

theorem testAccessTime_eq {t : ℤ} (hle : t ≤ q.present) : testAccessTime q.present horizon t =
      if horizon = 0 ∨ q.present - t ≤ horizon then (true, some (q.present - t))
      else (false, none) := by
  have hiff : q.present - horizon ≤ t ∨ horizon = 0 ↔ horizon = 0 ∨ q.present - t ≤ horizon := by
    omega
  simp only [testAccessTime, if_pos hle, hiff]

theorem addAndTest_seen {present accessTime : ℤ} {data : Bytes} {it : DigestIteration}
    (hpos : 0 < present) (hne : data ≠ [])
    (hlook : r.digestsSeen.lookup (sha256 data) = some accessTime) :
    replaycacheAddAndTestInternal sha256 present data it r =
      (testAccessTime present r.horizon accessTime, replaycacheScrubIfNeededInternal present it
        (if accessTime < present then
          { r with digestsSeen := r.digestsSeen.insert (sha256 data) present } else r)) := by
  have haccepted : ¬(present ≤ 0 ∨ data.length = 0) := by
    rw [List.length_eq_zero_iff]
    exact fun hor => hor.elim (not_le.mpr hpos) hne
  simp only [replaycacheAddAndTestInternal, if_neg haccepted, hlook]

theorem addAndTest_new {present : ℤ} {data : Bytes} {it : DigestIteration}
    (hpos : 0 < present) (hne : data ≠ []) (hlook : r.digestsSeen.lookup (sha256 data) = none) :
    replaycacheAddAndTestInternal sha256 present data it r =
      ((false, none), replaycacheScrubIfNeededInternal present it
        { r with digestsSeen := r.digestsSeen.insert (sha256 data) present }) := by
  have haccepted : ¬(present ≤ 0 ∨ data.length = 0) := by
    rw [List.length_eq_zero_iff]
    exact fun hor => hor.elim (not_le.mpr hpos) hne
  simp only [replaycacheAddAndTestInternal, if_neg haccepted, hlook]

theorem Remembers.step (h : Remembers sha256 known horizon now earlier r)
    (hinj : Set.InjOn sha256 known) (hq : q.data ∈ known) (hnow : now ≤ q.present)
    (hpos : 0 < q.present) : (replaycacheAddAndTestInternal sha256 q.present q.data q.it r).1 =
        cacheAnswer horizon earlier q ∧
      Remembers sha256 known horizon q.present (q :: earlier)
        (replaycacheAddAndTestInternal sha256 q.present q.data q.it r).2 := by
  by_cases hempty : q.data = []
  · have hrefused : q.present ≤ 0 ∨ q.data.length = 0 := .inr (by rw [hempty, List.length_nil])
    rw [replaycacheAddAndTestInternal, if_pos hrefused, cacheAnswer, if_pos hempty]
    exact ⟨rfl, h.refuse hempty hnow⟩
  · rw [cacheAnswer, if_neg hempty, historyAnswer]
    cases hlook : r.digestsSeen.lookup (sha256 q.data) with
    | none =>
      rw [addAndTest_new hpos hempty hlook]
      refine ⟨?_, (h.record hinj hq hnow ?_ fun k => ?_).scrub q.it⟩
      · cases hlast : lastQuery earlier q.data with
        | none => rfl
        | some last =>
          rcases h.complete q.data hq hempty last hlast with hfound | ⟨hnever, hold⟩
          · rw [hlook] at hfound
            cases hfound
          · exact (if_neg (by omega)).symm
      · rfl
      · exact lookup_insert_ite ..
    | some accessTime =>
      have hlast := h.sound q.data hq hempty accessTime hlook
      have hle := (lastQuery_le hlast h.past).trans hnow
      rw [addAndTest_seen hpos hempty hlook, hlast]
      refine ⟨h.horizon_eq ▸ testAccessTime_eq hle,
        (h.record hinj hq hnow ?_ fun k => ?_).scrub q.it⟩
      · split <;> rfl
      · split
        · exact lookup_insert_ite ..
        · -- the entry has the time of the query already
          rename_i hsame
          split
          · rename_i hk
            rw [hk, hlook, show accessTime = q.present by omega]
          · rfl

theorem runQueries_eq {qs : List Query} (h : Remembers sha256 known horizon now earlier r)
    (hinj : Set.InjOn sha256 known) (hqs : ∀ q ∈ qs, q.data ∈ known)
    (hnow : ∀ q ∈ qs, now ≤ q.present) (hpos : ∀ q ∈ qs, 0 < q.present)
    (hsorted : qs.Pairwise fun q q' => q.present ≤ q'.present) :
    runQueries sha256 r qs = historyAnswers (cacheAnswer horizon) earlier qs := by
  induction qs generalizing now earlier r with
  | nil => rfl
  | cons q qs ih =>
    obtain ⟨hafter, hsorted⟩ := List.pairwise_cons.mp hsorted
    obtain ⟨hanswer, hnext⟩ := h.step hinj (hqs q (List.mem_cons_self ..))
      (hnow q (List.mem_cons_self ..)) (hpos q (List.mem_cons_self ..))
    rw [runQueries, historyAnswers]
    dsimp only
    rw [hanswer, ih hnext (fun q' hq' => hqs q' (List.mem_cons_of_mem q hq')) hafter
      (fun q' hq' => hpos q' (List.mem_cons_of_mem q hq')) hsorted]

/-- The cache answers as the history does, but that it refuses empty data; and no scrub removes
what a later query could hit. -/
theorem replaycache_exact {interval : ℤ} {qs : List Query} (hhorizon : 0 ≤ horizon)
    (hinj : Set.InjOn sha256 {data | ∃ q ∈ qs, q.data = data}) (hpos : ∀ q ∈ qs, 0 < q.present)
    (hsorted : qs.Pairwise fun q q' => q.present ≤ q'.present) :
    ∃ r, replaycacheNew horizon interval = some r ∧
      runQueries sha256 r qs = historyAnswers (cacheAnswer horizon) [] qs ∧
      ∀ r' present it k t, r'.horizon = horizon → r'.digestsSeen.lookup k = some t →
        (replaycacheScrubIfNeededInternal present it r').digestsSeen.lookup k = none →
        ∀ later, present ≤ later → testAccessTime later horizon t = (false, none) := by
  refine ⟨_, if_neg (not_lt.mpr hhorizon), ?_, ?_⟩
  · have hempty : Remembers sha256 {data | ∃ q ∈ qs, q.data = data} horizon 0 []
        ⟨if interval < 0 then 0 else interval, 0, horizon, ∅⟩ :=
      ⟨rfl, nofun, nofun, nofun⟩
    exact runQueries_eq hempty hinj (fun q hq => ⟨q, hq, rfl⟩) (fun q hq => (hpos q hq).le) hpos
      hsorted
  · intro r' present it k t hr hlook hgone later hlater
    obtain hkept | ⟨hnever, hold⟩ :
        (replaycacheScrubIfNeededInternal present it r').digestsSeen.lookup k = some t ∨
          r'.horizon ≠ 0 ∧ t < present - r'.horizon := scrub_lookup hlook
    · rw [hgone] at hkept
      cases hkept
    · exact if_neg (by omega)

/-- The digests of two inputs. -/
def twoDigests (data : Bytes) : Digest256 :=
  if data = [0x61, 0x62, 0x63] then
    ⟨[0xba, 0x78, 0x16, 0xbf, 0x8f, 0x01, 0xcf, 0xea, 0x41, 0x41, 0x40, 0xde, 0x5d, 0xae, 0x22,
      0x23, 0xb0, 0x03, 0x61, 0xa3, 0x96, 0x17, 0x7a, 0x9c, 0xb4, 0x10, 0xff, 0x61, 0xf2, 0x00,
      0x15, 0xad], rfl⟩
  else
    ⟨[0xa5, 0x2d, 0x15, 0x9f, 0x26, 0x2b, 0x2c, 0x6d, 0xdb, 0x72, 0x4a, 0x61, 0x84, 0x0b, 0xef,
      0xc3, 0x6e, 0xb3, 0x0c, 0x88, 0x87, 0x7a, 0x40, 0x30, 0xb6, 0x5c, 0xbe, 0x86, 0x29, 0x84,
      0x49, 0xc9], rfl⟩

/-- The second of the queries for the first data is a hit, the third one is too late. -/
def fourQueries : List Query :=
  [⟨100, [0x61, 0x62, 0x63], ⟨id, fun _ => .refl _⟩⟩,
    ⟨200, [0x61, 0x62, 0x64], ⟨id, fun _ => .refl _⟩⟩,
    ⟨400, [0x61, 0x62, 0x63], ⟨id, fun _ => .refl _⟩⟩,
    ⟨701, [0x61, 0x62, 0x63], ⟨id, fun _ => .refl _⟩⟩]

theorem fourQueries_injOn : Set.InjOn twoDigests {data | ∃ q ∈ fourQueries, q.data = data} := by
  have hinj : ∀ q ∈ fourQueries, ∀ q' ∈ fourQueries,
      twoDigests q.data = twoDigests q'.data → q.data = q'.data := by decide
  rintro _ ⟨q, hq, rfl⟩ _ ⟨q', hq', rfl⟩ heq
  exact hinj q hq q' hq' heq

theorem replaycache_exact_four : ∃ r, replaycacheNew 300 150 = some r ∧
      runQueries twoDigests r fourQueries = historyAnswers (cacheAnswer 300) [] fourQueries ∧
      ∀ r' present it k t, r'.horizon = 300 → r'.digestsSeen.lookup k = some t →
        (replaycacheScrubIfNeededInternal present it r').digestsSeen.lookup k = none →
        ∀ later, present ≤ later → testAccessTime later 300 t = (false, none) :=
  replaycache_exact (by decide) fourQueries_injOn (by decide) (by decide)

/-- Empty data is never a hit, whenever it was queried before. -/
theorem emptyData_never_hits :
    ¬ ∀ (sha256 : Bytes → Digest256) (horizon interval : ℤ) (qs : List Query), 0 ≤ horizon →
      Set.InjOn sha256 {data | ∃ q ∈ qs, q.data = data} → (∀ q ∈ qs, 0 < q.present) →
      (qs.Pairwise fun q q' => q.present ≤ q'.present) →
      ∃ r, replaycacheNew horizon interval = some r ∧
        runQueries sha256 r qs = historyAnswers (historyAnswer horizon) [] qs := by
  intro h
  obtain ⟨r, hr, hrun⟩ := h twoDigests 300 150
    [⟨100, [], ⟨id, fun _ => .refl _⟩⟩, ⟨200, [], ⟨id, fun _ => .refl _⟩⟩] (by decide)
    (by rintro _ ⟨q, hq, rfl⟩ _ ⟨q', hq', rfl⟩ -; revert q q'; decide) (by decide) (by decide)
  obtain rfl := Option.some.inj hr
  revert hrun
  decide

end Exact

end TorDaemon.HiddenService.ReplayCache

import TorDaemon.HiddenService.HsdirIndex

/-! The descriptors of an onion service over the runs of its scheduled events
(`hs_service.c`): which time periods they are for when consensuses come late. -/
namespace TorDaemon.HiddenService
open Library.NetworkOrder Library.Reachability SharedRandom

structure ServiceDescriptor where
  timePeriodNum : ℕ
  deriving DecidableEq

/-- The part of `hs_service_t` that rotation reads and writes. A rotation time of 0 is
one that has not been set. -/
structure Service where
  descCurrent : Option ServiceDescriptor
  descNext : Option ServiceDescriptor
  nextRotationTime : ℕ
  deriving DecidableEq

def Service.new : Service := ⟨none, none, 0⟩

section Events
variable (t : Timing) (validAfter : ℕ)

section
variable (s : Service)

def setRotationTime : Service :=
  { s with nextRotationTime := srStateGetStartTimeOfCurrentProtocolRun t validAfter +
      srStateGetProtocolRunDuration t }

/-- `should_rotate_descriptors`, with a live consensus. -/
def shouldRotateDescriptors : Bool :=
  s.nextRotationTime ≤ validAfter && s.descCurrent.isSome && s.descNext.isSome

def rotateServiceDescriptors : Service :=
  setRotationTime t validAfter { s with descCurrent := s.descNext, descNext := none }

def rotateAllDescriptors : Service :=
  if shouldRotateDescriptors validAfter s then rotateServiceDescriptors t validAfter s else s

/-- `build_service_descriptor`, where keys and certificates can be made. -/
def buildServiceDescriptor (timePeriodNum : ℕ) : ServiceDescriptor := ⟨timePeriodNum⟩

def buildDescriptorsForNewService : Option Service := do
  let between ← hsInPeriodBetweenTpAndSrv t validAfter
  let currentDescTp ← if between then hsGetPreviousTimePeriodNum t validAfter 0
    else hsGetTimePeriodNum t validAfter 0
  let nextDescTp ← if between then hsGetTimePeriodNum t validAfter 0
    else hsGetNextTimePeriodNum t validAfter 0
  return { s with
    descCurrent := some (buildServiceDescriptor currentDescTp)
    descNext := some (buildServiceDescriptor nextDescTp) }

def buildAllDescriptors : Option Service :=
  match s.descCurrent, s.descNext with
  | none, none => buildDescriptorsForNewService t validAfter s
  | none, some _ => some s
  | some _, some _ => some s
  | some _, none => do
    let nextDescTp ← hsGetNextTimePeriodNum t validAfter 0
    return { s with descNext := some (buildServiceDescriptor nextDescTp) }

def runHousekeepingEvent : Service :=
  if s.nextRotationTime = 0 then setRotationTime t validAfter s else s

def runBuildDescriptorEvent : Option Service :=
  buildAllDescriptors t validAfter (rotateAllDescriptors t validAfter s)

end

end Events

/-- Both events, at one consensus. -/
def runEvents (t : Timing) (s : Service) (validAfter : ℕ) : Option Service :=
  runBuildDescriptorEvent t validAfter (runHousekeepingEvent t validAfter s)

/-- The service sees a consensus of every run before noon of the run: the consensus is
the first, or belongs to the run of the last rotation, or comes at the rotation time or
after it but before a time period begins. -/
def InTime (s : Service) (validAfter : ℕ) : Prop :=
  afterFirstDay ≤ validAfter ∧
    (s.nextRotationTime = 0 ∨ protocolRun validAfter + 1 = protocolRun s.nextRotationTime ∨
      s.nextRotationTime ≤ validAfter ∧
        segment validAfter = 2 * protocolRun s.nextRotationTime)

instance {s : Service} {validAfter : ℕ} : Decidable (InTime s validAfter) :=
  inferInstanceAs (Decidable (_ ∧ _))

/-- The descriptors are for the time periods that end and begin in the run. -/
structure UpToDate (s : Service) (run : ℕ) : Prop where
  current : s.descCurrent = some ⟨run - 1⟩
  next : s.descNext = some ⟨run⟩
  rotation : protocolRun s.nextRotationTime = run + 1

section Runs
variable {s : Service} {v : ℕ}

theorem protocolRun_pos (h : afterFirstDay ≤ v) : 0 < protocolRun v := by
  have hv : 86400 ≤ v := h
  unfold protocolRun
  omega

theorem rotation_of_setRotationTime (s : Service) (v : ℕ) :
    protocolRun (setRotationTime liveTiming v s).nextRotationTime = protocolRun v + 1 := by
  have hduration : srStateGetProtocolRunDuration liveTiming = 86400 := rfl
  simp only [setRotationTime, startTimeOfCurrentProtocolRun_live, hduration, protocolRun]
  omega

theorem timePeriodNum_run (h : afterFirstDay ≤ v) : hsGetTimePeriodNum liveTiming v 0 =
      some (if segment v % 2 = 1 then protocolRun v else protocolRun v - 1) := by
  have hv : 86400 ≤ v := h
  have hnum : (v - 43200) / 86400 =
      if segment v % 2 = 1 then protocolRun v else protocolRun v - 1 := by
    unfold segment protocolRun
    split <;> omega
  rw [timePeriodNum_zero, timePeriodNum_live (by omega), hnum]

/-- Either kind of segment gives a new service the same two time periods. -/
theorem new_upToDate (h : afterFirstDay ≤ v) :
    ∃ s', runEvents liveTiming Service.new v = some s' ∧ UpToDate s' (protocolRun v) := by
  have hrun := protocolRun_pos h
  have hhouse : runHousekeepingEvent liveTiming v Service.new =
      setRotationTime liveTiming v Service.new := by
    simp [runHousekeepingEvent, Service.new]
  have hrotate : rotateAllDescriptors liveTiming v (setRotationTime liveTiming v Service.new) =
      setRotationTime liveTiming v Service.new := by
    simp [rotateAllDescriptors, shouldRotateDescriptors, setRotationTime, Service.new]
  have hbuild : buildDescriptorsForNewService liveTiming v
      (setRotationTime liveTiming v Service.new) = some
        { setRotationTime liveTiming v Service.new with
          descCurrent := some ⟨protocolRun v - 1⟩
          descNext := some ⟨protocolRun v⟩ } := by
    simp only [buildDescriptorsForNewService, inPeriodBetweenTpAndSrv_live h,
      hsGetPreviousTimePeriodNum, hsGetNextTimePeriodNum, timePeriodNum_run h]
    rcases Nat.mod_two_eq_zero_or_one (segment v) with heven | hodd
    · simp [heven, buildServiceDescriptor, Nat.sub_add_cancel hrun]
    · simp [hodd, buildServiceDescriptor, Nat.ne_of_gt hrun]
  have hrun' : runEvents liveTiming Service.new v =
      buildDescriptorsForNewService liveTiming v (setRotationTime liveTiming v Service.new) := by
    rw [runEvents, hhouse, runBuildDescriptorEvent, hrotate]
    rfl
  refine ⟨_, hrun'.trans hbuild, rfl, rfl, rotation_of_setRotationTime Service.new v⟩

theorem UpToDate.housekeeping {run : ℕ} (h : UpToDate s run) :
    runHousekeepingEvent liveTiming v s = s := by
  have hset : s.nextRotationTime ≠ 0 := by
    intro hzero
    have hrotation := h.rotation
    simp [hzero, protocolRun] at hrotation
  simp [runHousekeepingEvent, hset]

theorem UpToDate.same_run {run : ℕ} (h : UpToDate s run) (hv : protocolRun v = run) :
    runEvents liveTiming s v = some s := by
  have hbefore : ¬ s.nextRotationTime ≤ v := by
    have hrotation := h.rotation
    unfold protocolRun at hrotation hv
    omega
  have hrotate : rotateAllDescriptors liveTiming v s = s := by
    simp [rotateAllDescriptors, shouldRotateDescriptors, hbefore]
  rw [runEvents, h.housekeeping, runBuildDescriptorEvent, hrotate, buildAllDescriptors,
    h.current, h.next]

theorem UpToDate.next_run {run : ℕ} (h : UpToDate s run) (hle : s.nextRotationTime ≤ v)
    (hseg : segment v = 2 * (run + 1)) (hday : afterFirstDay ≤ v) :
    ∃ s', runEvents liveTiming s v = some s' ∧ UpToDate s' (run + 1) := by
  have hv : protocolRun v = run + 1 := by
    rw [protocolRun_segment, hseg, Nat.mul_div_cancel_left _ (by omega)]
  have heven : segment v % 2 ≠ 1 := by omega
  have hrotate : rotateAllDescriptors liveTiming v s =
      setRotationTime liveTiming v { s with descCurrent := some ⟨run⟩, descNext := none } := by
    simp [rotateAllDescriptors, shouldRotateDescriptors, hle, h.current, h.next,
      rotateServiceDescriptors]
  have hrotation := rotation_of_setRotationTime
    { s with descCurrent := some ⟨run⟩, descNext := none } v
  have hnext : hsGetNextTimePeriodNum liveTiming v 0 = some (run + 1) := by
    simp [hsGetNextTimePeriodNum, timePeriodNum_run hday, heven, hv]
  refine ⟨{ setRotationTime liveTiming v { s with descCurrent := some ⟨run⟩, descNext := none }
    with descNext := some ⟨run + 1⟩ }, ?_, rfl, rfl, hv ▸ hrotation⟩
  rw [runEvents, h.housekeeping, runBuildDescriptorEvent, hrotate, buildAllDescriptors]
  simp [setRotationTime, hnext, buildServiceDescriptor]

theorem runEvents_upToDate (h : s = Service.new ∨ ∃ run, UpToDate s run) (hv : InTime s v) :
    ∃ s', runEvents liveTiming s v = some s' ∧ UpToDate s' (protocolRun v) := by
  obtain ⟨hday, htime⟩ := hv
  rcases h with rfl | ⟨run, h⟩
  · exact new_upToDate hday
  · have hrotation := h.rotation
    rcases htime with hzero | hsame | ⟨hle, hseg⟩
    · simp [hzero, protocolRun] at hrotation
    · have hrun : protocolRun v = run := by omega
      exact ⟨s, h.same_run hrun, hrun.symm ▸ h⟩
    · rw [hrotation] at hseg
      have hrun : protocolRun v = run + 1 := by
        rw [protocolRun_segment, hseg, Nat.mul_div_cancel_left _ (by omega)]
      rw [hrun]
      exact h.next_run hle hseg hday

theorem run_upToDate {vs : List ℕ} (h : s = Service.new ∨ ∃ run, UpToDate s run)
    (hguard : Guarded (runEvents liveTiming) InTime s (vs ++ [v])) :
    ∃ s', run (runEvents liveTiming) s (vs ++ [v]) = some s' ∧ UpToDate s' (protocolRun v) ∧
      afterFirstDay ≤ v := by
  induction vs generalizing s with
  | nil =>
    obtain ⟨s', hs', hup⟩ := runEvents_upToDate h hguard.1
    exact ⟨s', by simp [run, hs'], hup, hguard.1.1⟩
  | cons w vs ih =>
    obtain ⟨s₁, hs₁, hup⟩ := runEvents_upToDate h hguard.1
    obtain ⟨s', hs', hup', hday⟩ := ih (.inr ⟨_, hup⟩) (hguard.2 s₁ hs₁)
    exact ⟨s', by simpa [run, hs₁] using hs', hup', hday⟩

theorem hsdirPeriods_timePeriods (disasterSrv : ℕ → Digest256) {ns : Consensus}
    (h : afterFirstDay ≤ ns.validAfter) : ∃ p, hsdirPeriods disasterSrv liveTiming ns = some p ∧
      p.storeFirst.timePeriod = protocolRun ns.validAfter - 1 ∧
      p.storeSecond.timePeriod = protocolRun ns.validAfter := by
  have hrun := protocolRun_pos h
  simp only [hsdirPeriods, inPeriodBetweenTpAndSrv_live h, hsGetPreviousTimePeriodNum,
    hsGetNextTimePeriodNum, timePeriodNum_run h]
  rcases Nat.mod_two_eq_zero_or_one (segment ns.validAfter) with heven | hodd
  · simp [heven, Nat.sub_add_cancel hrun]
  · simp [hodd, Nat.ne_of_gt hrun]

/-- After every run whose consensuses come in time, the descriptors are those that the
HSDir indices of the last consensus are for. -/
theorem descriptors_follow_hsdirPeriods (disasterSrv : ℕ → Digest256) (vs : List ℕ) (ns : Consensus)
    (h : Guarded (runEvents liveTiming) InTime Service.new (vs ++ [ns.validAfter])) :
    ∃ s p, run (runEvents liveTiming) Service.new (vs ++ [ns.validAfter]) = some s ∧
      hsdirPeriods disasterSrv liveTiming ns = some p ∧
      s.descCurrent = some ⟨p.storeFirst.timePeriod⟩ ∧
      s.descNext = some ⟨p.storeSecond.timePeriod⟩ := by
  obtain ⟨s, hs, hup, hday⟩ := run_upToDate (.inl rfl) h
  obtain ⟨p, hp, hfirst, hsecond⟩ := hsdirPeriods_timePeriods disasterSrv hday
  exact ⟨s, p, hs, hp, hfirst ▸ hup.current, hsecond ▸ hup.next⟩

end Runs

/-- Two days with a consensus at 23:00, at 11:00 and at midnight. -/
theorem descriptors_follow_hsdirPeriods_twoDays :
    ∃ s p, run (runEvents liveTiming) Service.new ([946800, 990000] ++ [1036800]) = some s ∧
      hsdirPeriods noDisaster liveTiming (consensusAt runValue 1036800) = some p ∧
      s.descCurrent = some ⟨p.storeFirst.timePeriod⟩ ∧
      s.descNext = some ⟨p.storeSecond.timePeriod⟩ :=
  descriptors_follow_hsdirPeriods noDisaster [946800, 990000] (consensusAt runValue 1036800)
    (by decide +kernel)

/-- From 23:00 to 13:00 of the next day: the rotation comes inside the new time period,
and the next descriptor is made for the time period after it, whose shared random value
does not exist yet. -/
theorem descriptors_drift :
    ¬ ∀ (vs : List ℕ) (ns : Consensus), (vs ++ [ns.validAfter]).Pairwise (· ≤ ·) →
      (∀ v ∈ vs ++ [ns.validAfter], afterFirstDay ≤ v) →
      ∀ s ∈ run (runEvents liveTiming) Service.new (vs ++ [ns.validAfter]),
        ∀ p ∈ hsdirPeriods noDisaster liveTiming ns,
          s.descCurrent = some ⟨p.storeFirst.timePeriod⟩ ∧
            s.descNext = some ⟨p.storeSecond.timePeriod⟩ := by
  intro h
  have hfollow := h [946800] (consensusAt runValue 997200) (by decide) (by decide) _ rfl _ rfl
  revert hfollow
  decide

end TorDaemon.HiddenService

import TorDaemon.Padding.StateMachine

/-! The counters behind the padding limits and the divisions by them, over every run of cell
events (`circpad_machine_reached_padding_limit` in `circuitpadding.c`). -/
namespace TorDaemon.Padding.Machine

/-- The padding of a process: the machines of all of its circuits, by number. -/
structure Process where
  world : World
  machines : ℕ → Option (Spec × Runtime)

inductive CellEvent
  /-- The values in the consensus, if it has them. -/
  | newConsensusParams (allowedCells maxPaddingPct : Option ℤ)
  | setup (k : ℕ) (spec : Spec)
  | free (k : ℕ)
  | paddingSent (k : ℕ) (draw : Draw)
  /-- On the circuit that has the machines `ks`. -/
  | nonpaddingSent (ks : List ℕ) (draw : Draw)
  /-- A machine does anything else, to which its counters are nothing. -/
  | other (k : ℕ) (mi : Runtime)
  /-- `circpad_machine_schedule_padding` asks for the limits. -/
  | check (k : ℕ)

/-- `networkstatus_get_param`, of the value that the consensus has -/
def networkstatusGetParam (value : Option ℤ) (defaultVal minVal maxVal : ℤ) : ℤ :=
  let res := value.getD defaultVal
  if res < minVal then minVal
  else if res > maxVal then maxVal
  else res

def circpadNewConsensusParams (allowedCells maxPaddingPct : Option ℤ) (w : World) : World :=
  { w with
    globalAllowedCells := (networkstatusGetParam allowedCells 0 0 (2 ^ 16 - 2)).toNat
    globalMaxPaddingPercent := (networkstatusGetParam maxPaddingPct 0 0 100).toNat }

/-- The counters that a machine is limited by. -/
def Runtime.counters (mi : Runtime) : ℕ × ℕ := (mi.paddingSent, mi.nonpaddingSent)

def Process.withMachine (p : Process) (k : ℕ) (machine : Option (Spec × Runtime)) : Process :=
  { p with machines := Function.update p.machines k machine }

/-- `circpad_machine_count_nonpadding_sent`, where the circuit has an active machine. -/
def Process.countNonpadding (draw : Draw) (p : Process) (k : ℕ) : Option Process :=
  match p.machines k with
  | none => some p
  | some (spec, mi) =>
    (countNonpaddingSent spec draw mi).map fun r => p.withMachine k (some (spec, r.2.1))

/-- What an event does to the counters. `none` is a crash, but not the one of a division. -/
def Process.step (p : Process) : CellEvent → Option Process
  | .newConsensusParams allowedCells maxPaddingPct =>
    some { p with world := circpadNewConsensusParams allowedCells maxPaddingPct p.world }
  | .setup k spec => some (p.withMachine k (some (spec, Runtime.new)))
  | .free k => some (p.withMachine k none)
  | .paddingSent k draw =>
    match p.machines k with
    | none => some p
    | some (spec, mi) =>
      (countPaddingSent spec draw mi).map fun r =>
        { p.withMachine k (some (spec, r.2.1)) with
          world := { p.world with
            globalPaddingSent := (p.world.globalPaddingSent + 1) % 2 ^ 64 } }
  | .nonpaddingSent ks draw =>
    ks.foldlM (Process.countNonpadding draw) { p with
      world := { p.world with
        globalNonpaddingSent := (p.world.globalNonpaddingSent + 1) % 2 ^ 64 } }
  | .other k mi' =>
    match p.machines k with
    | none => some p
    | some (spec, mi) =>
      if mi'.counters = mi.counters then some (p.withMachine k (some (spec, mi'))) else none
  | .check _ => some p

/-- A process that has counted no cell and knows no consensus. -/
def Process.start (w : World) : Process where
  world := { w with
    globalAllowedCells := 0
    globalMaxPaddingPercent := 0
    globalPaddingSent := 0
    globalNonpaddingSent := 0 }
  machines := fun _ => none

def Process.dividesByZero (p : Process) : CellEvent → Bool
  | .check k =>
    match p.machines k with
    | none => false
    | some (spec, mi) => (machineReachedPaddingLimit p.world spec mi).isNone
  | _ => false

/-- No counter can wrap around when it is next incremented. -/
def Process.CountersFit (p : Process) : Prop :=
  ∀ k spec mi, p.machines k = some (spec, mi) →
    mi.paddingSent + 1 < 2 ^ 16 ∧ mi.nonpaddingSent + 1 < 2 ^ 16

/-- In every state of the run the counters fit, and no check divides by zero. -/
def Process.Safe (p : Process) : List CellEvent → Prop
  | [] => p.CountersFit
  | e :: events =>
    p.CountersFit ∧ p.dividesByZero e = false ∧ ∀ p', p.step e = some p' → p'.Safe events

/-! ### When a check divides by zero -/

section Check
variable {w : World} {spec : Spec} {mi : Runtime}

/-- A cell has been counted for the machine, if its percentage is looked at without one. -/
def MachineCounted (spec : Spec) (mi : Runtime) : Prop :=
  spec.maxPaddingPercent ≠ 0 → spec.allowedPaddingCount = 0 →
    0 < mi.paddingSent + mi.nonpaddingSent

/-- The percentage of the machine is exceeded. -/
def MachineExceeds (spec : Spec) (mi : Runtime) : Prop :=
  spec.maxPaddingPercent ≠ 0 ∧ spec.allowedPaddingCount ≤ mi.paddingSent ∧
    spec.maxPaddingPercent < 100 * mi.paddingSent / (mi.paddingSent + mi.nonpaddingSent)

/-- The process has counted a cell, if the global percentage is looked at. -/
def World.Counted (w : World) : Prop :=
  w.globalMaxPaddingPercent ≠ 0 → w.globalAllowedCells ≤ w.globalPaddingSent →
    0 < (w.globalPaddingSent + w.globalNonpaddingSent) % 2 ^ 64

theorem World.reachedPaddingLimit_ne_none : w.reachedPaddingLimit ≠ none ↔ w.Counted := by
  unfold World.reachedPaddingLimit World.Counted
  by_cases hlimit : w.globalMaxPaddingPercent ≠ 0 ∧ w.globalAllowedCells ≤ w.globalPaddingSent
  · rw [if_pos hlimit]
    by_cases hzero : (w.globalPaddingSent + w.globalNonpaddingSent) % 2 ^ 64 = 0
    · rw [if_pos hzero]
      refine iff_of_false (fun h => h rfl) fun h => ?_
      omega
    · rw [if_neg hzero]
      exact iff_of_true (Option.some_ne_none _) fun _ _ => Nat.pos_of_ne_zero hzero
  · rw [if_neg hlimit]
    exact iff_of_true (Option.some_ne_none _) fun hpercent hcells =>
      absurd ⟨hpercent, hcells⟩ hlimit

theorem machineReachedPaddingLimit_ne_none : machineReachedPaddingLimit w spec mi ≠ none ↔
    MachineCounted spec mi ∧ (MachineExceeds spec mi ∨ w.Counted) := by
  unfold machineReachedPaddingLimit MachineCounted MachineExceeds
  by_cases hlimit : spec.maxPaddingPercent ≠ 0 ∧ spec.allowedPaddingCount ≤ mi.paddingSent
  · rw [if_pos hlimit]
    by_cases hzero : mi.paddingSent + mi.nonpaddingSent = 0
    · rw [if_pos hzero]
      refine iff_of_false (fun h => h rfl) fun h => ?_
      omega
    · rw [if_neg hzero]
      have hcounted : 0 < mi.paddingSent + mi.nonpaddingSent := Nat.pos_of_ne_zero hzero
      split_ifs with hexceeds
      · simp [hcounted, hlimit, hexceeds]
      · rw [World.reachedPaddingLimit_ne_none]
        simp [hcounted, hexceeds]
  · rw [if_neg hlimit, World.reachedPaddingLimit_ne_none]
    have hmachine : spec.maxPaddingPercent ≠ 0 → spec.allowedPaddingCount = 0 →
        0 < mi.paddingSent + mi.nonpaddingSent :=
      fun hpercent hallowed => absurd ⟨hpercent, hallowed ▸ Nat.zero_le _⟩ hlimit
    have hexceeds : ¬ (spec.maxPaddingPercent ≠ 0 ∧ spec.allowedPaddingCount ≤ mi.paddingSent ∧
        spec.maxPaddingPercent <
          100 * mi.paddingSent / (mi.paddingSent + mi.nonpaddingSent)) :=
      fun h => hlimit ⟨h.1, h.2.1⟩
    simp only [hexceeds, false_or]
    exact ⟨fun h => ⟨hmachine, h⟩, And.right⟩

/-- What each check needs: that cells have been counted for what it divides by. -/
def Process.CellsCounted (p : Process) : CellEvent → Prop
  | .check k => ∀ spec mi, p.machines k = some (spec, mi) →
      MachineCounted spec mi ∧ (MachineExceeds spec mi ∨ p.world.Counted)
  | _ => True

def Process.Counted (p : Process) : List CellEvent → Prop
  | [] => True
  | e :: events => p.CellsCounted e ∧ ∀ p', p.step e = some p' → p'.Counted events

theorem Process.dividesByZero_eq_false (p : Process) (e : CellEvent) :
    p.dividesByZero e = false ↔ p.CellsCounted e := by
  cases e with
  | check k =>
    simp only [Process.dividesByZero, Process.CellsCounted]
    cases hk : p.machines k with
    | none => simp
    | some machine =>
      obtain ⟨spec, mi⟩ := machine
      rw [Option.isNone_eq_false_iff, Option.isSome_iff_ne_none,
        machineReachedPaddingLimit_ne_none]
      constructor
      · rintro h _ _ ⟨⟩
        exact h
      · exact fun h => h spec mi rfl
  | _ => exact iff_of_true rfl trivial

end Check

/-! ### The counters -/

section Counters
variable {spec : Spec} {mi mi' : Runtime} {d : Draw} {p p' : Process} {k : ℕ}
  {noted : List Observation}

/-- Neither counter of a machine can wrap around when it is next incremented. -/
def Runtime.CountersFit (mi : Runtime) : Prop :=
  mi.counters.1 + 1 < 2 ^ 16 ∧ mi.counters.2 + 1 < 2 ^ 16

/-- The incremented counter is cut in half in time. -/
theorem Runtime.CountersFit.halved {count : ℕ} (hpadding : mi.paddingSent < 2 ^ 16)
    (hnonpadding : mi.nonpaddingSent < 2 ^ 16)
    (hcount : mi.paddingSent = 2 ^ 16 - 1 ∨ mi.nonpaddingSent = 2 ^ 16 - 1 →
      count = 2 ^ 16 - 1) : (mi.halved count).CountersFit := by
  unfold Runtime.halved Runtime.CountersFit Runtime.counters
  split_ifs with hmax
  · dsimp only
    omega
  · have hbelow := mt hcount hmax
    omega

theorem countLength_counters : (countLength mi).1.counters = mi.counters := by
  unfold countLength
  split_ifs <;> rfl

theorem countToken_counters : (countToken mi).1.counters = mi.counters := by
  unfold countToken
  cases mi.histogram with
  | none => rfl
  | some h =>
    dsimp only
    split_ifs <;> rfl

theorem updateStateLength_counters :
    (updateStateLengthForNonpadding spec mi).1.counters = mi.counters := by
  unfold updateStateLengthForNonpadding
  split_ifs with hinfinite
  · rfl
  · cases spec.currentState mi with
    | none => rfl
    | some st =>
      dsimp only
      split_ifs <;> rfl

theorem removeToken_counters
    (h : removeToken spec d mi = some ((), mi', noted)) : mi'.counters = mi.counters := by
  unfold removeToken at h
  split at h
  · cases h
    rfl
  · split at h
    · cases h
      rfl
    · split at h
      · cases h
        rfl
      · dsimp only at h
        split at h
        · split at h
          · cases h
            rfl
          · cases h
        · split at h
          · cases h
            rfl
          · cases h
            rfl

theorem countPaddingSent_fits (hfits : mi.CountersFit)
    (h : countPaddingSent spec d mi = some ((), mi', noted)) : mi'.CountersFit := by
  have hpadding := congrArg Prod.fst (@countLength_counters mi)
  have hnonpadding := congrArg Prod.snd (@countLength_counters mi)
  simp only [countPaddingSent, Option.some.injEq, Prod.mk.injEq, true_and] at h
  obtain ⟨hfit, hfit'⟩ := hfits
  simp only [Runtime.counters] at hpadding hnonpadding hfit hfit'
  unfold Runtime.CountersFit
  rw [← h.1, countToken_counters]
  apply Runtime.CountersFit.halved
  · dsimp only
    omega
  · dsimp only
    omega
  · dsimp only
    omega

theorem countNonpaddingSent_fits (hfits : mi.CountersFit)
    (h : countNonpaddingSent spec d mi = some ((), mi', noted)) : mi'.CountersFit := by
  simp only [countNonpaddingSent, Option.map_eq_some_iff] at h
  obtain ⟨⟨u, taken, tokens⟩, hremove, heq⟩ := h
  simp only [Prod.mk.injEq, true_and] at heq
  obtain ⟨hfit, hfit'⟩ := hfits
  simp only [Runtime.counters] at hfit hfit'
  unfold Runtime.CountersFit
  rw [← heq.1, removeToken_counters hremove, updateStateLength_counters]
  apply Runtime.CountersFit.halved
  · dsimp only
    omega
  · dsimp only
    omega
  · dsimp only
    omega

theorem Process.countersFit_iff : p.CountersFit ↔
    ∀ k machine, p.machines k = some machine → machine.2.CountersFit :=
  ⟨fun h k machine hk => h k machine.1 machine.2 hk, fun h k spec mi hk => h k (spec, mi) hk⟩

theorem Process.CountersFit.withMachine (h : p.CountersFit) {machine : Option (Spec × Runtime)}
    (hmachine : ∀ m ∈ machine, m.2.CountersFit) : (p.withMachine k machine).CountersFit := by
  rw [Process.countersFit_iff] at h ⊢
  intro j m hm
  simp only [Process.withMachine] at hm
  by_cases hj : j = k
  · subst hj
    rw [Function.update_self] at hm
    exact hmachine m hm
  · rw [Function.update_of_ne hj] at hm
    exact h j m hm

theorem Process.CountersFit.ofWorld (h : p.CountersFit) (w : World) :
    Process.CountersFit { p with world := w } := h

theorem Process.CountersFit.countNonpadding (h : p.CountersFit)
    (hcount : p.countNonpadding d k = some p') : p'.CountersFit := by
  unfold Process.countNonpadding at hcount
  cases hk : p.machines k with
  | none =>
    rw [hk] at hcount
    cases hcount
    exact h
  | some machine =>
    rw [hk] at hcount
    obtain ⟨⟨u, mi', noted⟩, hsent, rfl⟩ := Option.map_eq_some_iff.mp hcount
    apply h.withMachine
    rintro m ⟨⟩
    exact countNonpaddingSent_fits (Process.countersFit_iff.mp h k machine hk) hsent

theorem Process.CountersFit.countAll (ks : List ℕ) (h : p.CountersFit)
    (hcount : ks.foldlM (Process.countNonpadding d) p = some p') : p'.CountersFit := by
  induction ks generalizing p with
  | nil =>
    cases hcount
    exact h
  | cons k ks ih =>
    obtain ⟨q, hq, hrest⟩ := Option.bind_eq_some_iff.mp hcount
    exact ih (h.countNonpadding hq) hrest

theorem Process.CountersFit.step {e : CellEvent} (h : p.CountersFit) (hs : p.step e = some p') :
    p'.CountersFit := by
  cases e with
  | newConsensusParams allowedCells maxPaddingPct =>
    cases hs
    exact h.ofWorld _
  | setup k spec =>
    cases hs
    apply h.withMachine
    rintro m ⟨⟩
    exact (⟨by decide, by decide⟩ : Runtime.new.CountersFit)
  | free k =>
    cases hs
    exact h.withMachine fun m hm => by cases hm
  | paddingSent k draw =>
    simp only [Process.step] at hs
    cases hk : p.machines k with
    | none =>
      rw [hk] at hs
      cases hs
      exact h
    | some machine =>
      rw [hk] at hs
      obtain ⟨⟨u, mi', noted⟩, hsent, rfl⟩ := Option.map_eq_some_iff.mp hs
      have hmachine : (p.withMachine k (some (machine.1, mi'))).CountersFit := by
        apply h.withMachine
        rintro m ⟨⟩
        exact countPaddingSent_fits (Process.countersFit_iff.mp h k machine hk) hsent
      exact hmachine.ofWorld _
  | nonpaddingSent ks draw => exact (h.ofWorld _).countAll ks hs
  | other k mi' =>
    simp only [Process.step] at hs
    cases hk : p.machines k with
    | none =>
      rw [hk] at hs
      cases hs
      exact h
    | some machine =>
      rw [hk] at hs
      dsimp only at hs
      split at hs
      · next hsame =>
        cases hs
        apply h.withMachine
        rintro m ⟨⟩
        have hfit := Process.countersFit_iff.mp h k machine hk
        unfold Runtime.CountersFit at hfit ⊢
        rwa [hsame]
      · cases hs
  | check k =>
    cases hs
    exact h

theorem Process.safe_iff (events : List CellEvent) (h : p.CountersFit) :
    p.Safe events ↔ p.Counted events := by
  induction events generalizing p with
  | nil => exact iff_of_true h trivial
  | cons e events ih =>
    simp only [Process.Safe, Process.Counted, p.dividesByZero_eq_false]
    constructor
    · rintro ⟨-, hcells, hrest⟩
      exact ⟨hcells, fun p' hs => (ih (h.step hs)).mp (hrest p' hs)⟩
    · rintro ⟨hcells, hrest⟩
      exact ⟨h, hcells, fun p' hs => (ih (h.step hs)).mpr (hrest p' hs)⟩

theorem Process.start_fits (w : World) : (Process.start w).CountersFit :=
  fun _ _ _ hk => nomatch hk

theorem Process.CountersFit.run (events : List CellEvent) (h : p.CountersFit)
    (hrun : events.foldlM Process.step p = some p') : p'.CountersFit := by
  induction events generalizing p with
  | nil =>
    cases hrun
    exact h
  | cons e events ih =>
    obtain ⟨q, hq, hrest⟩ := Option.bind_eq_some_iff.mp hrun
    exact ih (h.step hq) hrest

/-- The counters fit in every state of every run, and no check of a run divides by zero just
where cells have been counted before its checks. -/
theorem process_safe_iff_counted (w : World) (events : List CellEvent) :
    (∀ p, events.foldlM Process.step (Process.start w) = some p → p.CountersFit) ∧
      ((Process.start w).Safe events ↔ (Process.start w).Counted events) :=
  ⟨fun _ hrun => (Process.start_fits w).run events hrun,
    Process.safe_iff events (Process.start_fits w)⟩

end Counters

/-! ### The divisor of a machine's limit -/

section Divisor
variable {spec : Spec} {mi mi' : Runtime} {d : Draw} {p p' : Process} {j k : ℕ}
  {noted : List Observation} {counted after : Bool} {machine : Option (Spec × Runtime)}

/-- Halving keeps something of the count that it is made for. -/
theorem Runtime.halved_pos {count : ℕ} (hpos : 0 < count)
    (hcount : count = mi.paddingSent ∨ count = mi.nonpaddingSent) :
    0 < (mi.halved count).counters.1 + (mi.halved count).counters.2 := by
  unfold Runtime.halved Runtime.counters
  split_ifs
  · dsimp only
    omega
  · dsimp only
    omega

theorem countPaddingSent_pos (h : countPaddingSent spec d mi = some ((), mi', noted)) :
    0 < mi'.counters.1 + mi'.counters.2 := by
  simp only [countPaddingSent, Option.some.injEq, Prod.mk.injEq, true_and] at h
  rw [← h.1, countToken_counters]
  exact Runtime.halved_pos (Nat.succ_pos _) (.inl rfl)

theorem countNonpaddingSent_pos (h : countNonpaddingSent spec d mi = some ((), mi', noted)) :
    0 < mi'.counters.1 + mi'.counters.2 := by
  simp only [countNonpaddingSent, Option.map_eq_some_iff] at h
  obtain ⟨⟨u, taken, tokens⟩, hremove, heq⟩ := h
  simp only [Prod.mk.injEq, true_and] at heq
  rw [← heq.1, removeToken_counters hremove, updateStateLength_counters]
  exact Runtime.halved_pos (Nat.succ_pos _) (.inr rfl)

/-- Whether a cell has been counted for the machine `k` since it was set up. -/
def CellEvent.counts (k : ℕ) (counted : Bool) : CellEvent → Bool
  | .setup j _ => counted && j ≠ k
  | .free j => counted && j ≠ k
  | .paddingSent j _ => counted || j = k
  | .nonpaddingSent ks _ => counted || k ∈ ks
  | _ => counted

/-- The counters of the machine `k`, if there is one, are not both zero just if it has counted. -/
def Process.Tracks (p : Process) (k : ℕ) (counted : Bool) : Prop :=
  ∀ machine ∈ p.machines k, 0 < machine.2.counters.1 + machine.2.counters.2 ↔ counted = true

theorem Process.Tracks.withMachine (h : p.Tracks k counted)
    (hmachine : j = k → ∀ m ∈ machine, 0 < m.2.counters.1 + m.2.counters.2 ↔ after = true)
    (hother : j ≠ k → after = counted) : (p.withMachine j machine).Tracks k after := by
  intro m hm
  simp only [Process.withMachine] at hm
  by_cases hj : j = k
  · subst hj
    rw [Function.update_self] at hm
    exact hmachine rfl m hm
  · rw [Function.update_of_ne (Ne.symm hj)] at hm
    rw [hother hj]
    exact h m hm

/-- Where there is no machine to count for, nothing is lost. -/
theorem Process.Tracks.absent (h : p.Tracks k counted) (hj : p.machines j = none) :
    p.Tracks k (counted || j = k) := by
  intro m hm
  have hne : j ≠ k := by
    rintro rfl
    cases hj.symm.trans hm
  simpa [hne] using h m hm

theorem Process.Tracks.counted_at (h : p.Tracks k counted)
    (hpos : ∀ m ∈ machine, 0 < m.2.counters.1 + m.2.counters.2) :
    (p.withMachine j machine).Tracks k (counted || j = k) :=
  h.withMachine (fun hj m hm => iff_of_true (hpos m hm) (by simp [hj])) (by simp +contextual)

theorem Process.Tracks.ofWorld (h : p.Tracks k counted) (w : World) :
    Process.Tracks { p with world := w } k counted := h

theorem Process.Tracks.countNonpadding (h : p.Tracks k counted)
    (hcount : p.countNonpadding d j = some p') : p'.Tracks k (counted || j = k) := by
  unfold Process.countNonpadding at hcount
  cases hj : p.machines j with
  | none =>
    rw [hj] at hcount
    cases hcount
    exact h.absent hj
  | some machine =>
    rw [hj] at hcount
    obtain ⟨⟨u, mi', noted⟩, hsent, rfl⟩ := Option.map_eq_some_iff.mp hcount
    apply h.counted_at
    rintro m ⟨⟩
    exact countNonpaddingSent_pos hsent

theorem Process.Tracks.countAll (ks : List ℕ) (h : p.Tracks k counted)
    (hcount : ks.foldlM (Process.countNonpadding d) p = some p') :
    p'.Tracks k (counted || k ∈ ks) := by
  induction ks generalizing p counted with
  | nil =>
    cases hcount
    simpa using h
  | cons j ks ih =>
    obtain ⟨q, hq, hrest⟩ := Option.bind_eq_some_iff.mp hcount
    have hall := ih (h.countNonpadding hq) hrest
    simpa [List.mem_cons, Bool.or_assoc, eq_comm] using hall

theorem Process.Tracks.step {e : CellEvent} (h : p.Tracks k counted) (hs : p.step e = some p') :
    p'.Tracks k (e.counts k counted) := by
  cases e with
  | newConsensusParams allowedCells maxPaddingPct =>
    cases hs
    exact h
  | setup j spec =>
    cases hs
    refine h.withMachine (fun hj => ?_) (by simp +contextual [CellEvent.counts])
    rintro m ⟨⟩
    simp [CellEvent.counts, hj, Runtime.new, Runtime.counters]
  | free j =>
    cases hs
    refine h.withMachine (fun hj => ?_) (by simp +contextual [CellEvent.counts])
    rintro m ⟨⟩
  | paddingSent j draw =>
    simp only [Process.step] at hs
    cases hj : p.machines j with
    | none =>
      rw [hj] at hs
      cases hs
      exact h.absent hj
    | some machine =>
      rw [hj] at hs
      obtain ⟨⟨u, mi', noted⟩, hsent, rfl⟩ := Option.map_eq_some_iff.mp hs
      refine (h.counted_at ?_ :)
      rintro m ⟨⟩
      exact countPaddingSent_pos hsent
  | nonpaddingSent ks draw => exact (h.ofWorld _).countAll ks hs
  | other j mi' =>
    simp only [Process.step] at hs
    cases hj : p.machines j with
    | none =>
      rw [hj] at hs
      cases hs
      exact h
    | some machine =>
      rw [hj] at hs
      dsimp only at hs
      split at hs
      · next hsame =>
        cases hs
        refine h.withMachine ?_ fun _ => rfl
        rintro rfl m ⟨⟩
        rw [hsame]
        exact h _ hj
      · cases hs
  | check j =>
    cases hs
    exact h

theorem Process.Tracks.run (events : List CellEvent) (h : p.Tracks k counted)
    (hrun : events.foldlM Process.step p = some p') :
    p'.Tracks k (events.foldl (CellEvent.counts k) counted) := by
  induction events generalizing p counted with
  | nil =>
    cases hrun
    exact h
  | cons e events ih =>
    obtain ⟨q, hq, hrest⟩ := Option.bind_eq_some_iff.mp hrun
    exact ih (h.step hq) hrest

/-- Once a cell is counted for a machine, the divisor of its limit stays positive while it lasts. -/
theorem machineCounted_iff (w : World) (events : List CellEvent)
    (hrun : events.foldlM Process.step (Process.start w) = some p)
    (hk : p.machines k = some (spec, mi)) : MachineCounted spec mi ↔
      (spec.maxPaddingPercent ≠ 0 → spec.allowedPaddingCount = 0 →
        events.foldl (CellEvent.counts k) false = true) := by
  have hstart : (Process.start w).Tracks k false := fun _ hmachine => nomatch hmachine
  have hiff := hstart.run events hrun _ hk
  exact forall₂_congr fun _ _ => hiff

end Divisor

/-- A relay's machine that begins to pad when it receives a cell. -/
def limitedMachine : Spec where
  states :=
    let next (e : Event) : NextState := if e = .nonpaddingRecv then .state 1 else .ignore
    let state : State :=
      { histogram := []
        histogramEdges := []
        histogramTotalTokens := 0
        iatDist := true
        distMaxSampleUsec := 1000
        distAddedShiftUsec := 100
        lengthDist := false
        startLength := 0
        maxLength := 0
        lengthIncludesNonpadding := false
        nextState := next
        useRttEstimate := false
        tokenRemoval := .none
        keeps_tokens := State.keeps_none true
        has_bins := State.bins_of_none }
    [state, state]
  shouldNegotiateEnd := false
  isOriginSide := false
  allowedPaddingCount := 0
  maxPaddingPercent := 50
  valid := rfl

def limitedWorld : World := ⟨true, true, true, false, 0, 0, 0, 0⟩

/-- A relay sets the machine up and lets it react to the cell that asked for it, before it has
sent any. -/
theorem limitedMachine_divides :
    ¬ (Process.start limitedWorld).Safe [.setup 0 limitedMachine, .check 0] ∧
      machineReachedPaddingLimit limitedWorld limitedMachine Runtime.new = none ∧
      ∃ c, deliver 2 .nonpaddingReceived (setupMachineOnCirc 0 limitedMachine
        (Circuit.new false limitedWorld fun _ => ⟨1, 0, 0, 0, true, false⟩)) =
          .error .crash c := by
  refine ⟨fun h => ?_, rfl, _, rfl⟩
  have hchecked := h.2.2 _ rfl
  exact absurd hchecked.2.1 (by decide)

end TorDaemon.Padding.Machine

import Mathlib
import TorDaemon.Client.GuardInvariant

/-! When a circuit that waits for a better guard is completed
(`entry_guards_upgrade_waiting_circuits` of `entrynodes.c`). -/
namespace TorDaemon.Client.Entrynodes

variable (env : Env) (gs : GuardSelection)

/-- The guard of a circuit, of this selection or of another. -/
inductive GuardHandle
  | inSelection (g : GuardId)
  | elsewhere
  deriving DecidableEq

structure CircuitGuardState where
  guard : GuardHandle
  stateSetAt : ℤ
  state : GuardCircState
  restrictions : Option Restriction
  deriving DecidableEq

structure OriginCircuit where
  guardState : Option CircuitGuardState
  markedForClose : Bool
  deriving DecidableEq

abbrev CircuitId := ℕ
abbrev Circuits := CircuitId → OriginCircuit

/-- The guard, unless it has been freed or is of another selection. -/
def entryGuardHandleGet : GuardHandle → Option GuardId
  | .inSelection g => if gs.live g then some g else none
  | .elsewhere => none

def circuitGuard (circs : Circuits) (c : CircuitId) : Option GuardId :=
  (circs c).guardState.bind fun state => entryGuardHandleGet gs state.guard

def hasState (state : GuardCircState) (circs : Circuits) (c : CircuitId) : Bool :=
  (circs c).guardState.any fun guardState => guardState.state = state

/-! ### Priorities -/

def entryGuardHasHigherPriority (a b : GuardId) : Bool :=
  let guardA := gs.heap a
  let guardB := gs.heap b
  if a = b then false
  else if guardA.confirmedIdx < 0 then
    if 0 ≤ guardB.confirmedIdx then false
    else if guardA.isPending then
      !guardB.isPending || guardA.lastTriedToConnect < guardB.lastTriedToConnect
    else false
  else guardB.confirmedIdx < 0 || guardA.confirmedIdx < guardB.confirmedIdx

/-- Both circuits have a guard state (a `tor_assert`). -/
def circStateHasHigherPriority (circs : Circuits) (a : CircuitId) (rst : Option Restriction)
    (b : CircuitId) : Bool :=
  match circuitGuard gs circs a, circuitGuard gs circs b with
  | none, _ => false
  | some _, none => true
  | some guardA, some guardB =>
    entryGuardObeysRestriction env (gs.heap guardA) rst && entryGuardHasHigherPriority gs guardA guardB

/-! ### The primary guards -/

/-- The loop. It ends at the first guard that may be up. -/
def allGuardsAreDown : List GuardId → GuardSelection → Bool × GuardSelection
  | [], gs => (true, gs)
  | g :: guards, gs =>
    let gs := entryGuardConsiderRetry env gs g
    if (gs.heap g).isReachable ≠ .no then (false, gs) else allGuardsAreDown guards gs

def entryGuardsAllPrimaryGuardsAreDown : Bool × GuardSelection :=
  let gs := updatePrimaryIfNeeded env gs
  allGuardsAreDown env gs.primaryEntryGuards gs

/-! ### Upgrades -/

section
variable (circs : Circuits)

/-- The circuits are ours, and we can reason about them. -/
def isConsidered (c : CircuitId) : Bool :=
  (circuitGuard gs circs c).isSome && !(circs c).markedForClose

def considerWaiting (best : Option CircuitId) (c : CircuitId) : Option CircuitId :=
  if hasState .waitingForBetterGuard circs c &&
      best.all (circStateHasHigherPriority env gs circs c none) then some c
  else best

def bestWaitingCircuit (allCircuits : List CircuitId) : Option CircuitId :=
  allCircuits.foldl (considerWaiting env gs circs) none

def restrictionsOf (c : CircuitId) : Option Restriction :=
  (circs c).guardState.bind CircuitGuardState.restrictions

end

/-- Usable for less than the timeout. -/
def isPending (timeout : ℤ) (circs : Circuits) (c : CircuitId) : Bool :=
  (circs c).guardState.any fun guardState =>
    guardState.state = .usableIfNoBetterGuard && env.now - timeout < guardState.stateSetAt

/-- The number of circuits with the property that block the best one. -/
def numBlocking (circs : Circuits) (allCircuits : List CircuitId) (best : CircuitId)
    (p : CircuitId → Bool) : ℕ :=
  allCircuits.countP fun c =>
    p c && circStateHasHigherPriority env gs circs c (restrictionsOf circs best) best

def OriginCircuit.complete (now : ℤ) (circ : OriginCircuit) : OriginCircuit :=
  { circ with
    guardState := circ.guardState.map fun guardState =>
      { guardState with state := .complete, stateSetAt := now } }

/-- The circuits, and those that are newly complete. -/
abbrev Completion := Circuits × List CircuitId

def upgradeCircuit (best : CircuitId) (rstOnBestWaiting : Option Restriction) (out : Completion)
    (c : CircuitId) : Completion :=
  if c ≠ best && rstOnBestWaiting.isSome then out
  else if !hasState .waitingForBetterGuard out.1 c then out
  else if circStateHasHigherPriority env gs out.1 best none c then out
  else (Function.update out.1 c ((out.1 c).complete env.now), out.2 ++ [c])

structure UpgradeResult where
  upgraded : Bool
  circuits : Circuits
  newlyComplete : List CircuitId
  gs : GuardSelection

/-- `timeout` is the connect timeout for guards that are not primary. -/
def entryGuardsUpgradeWaitingCircuits (timeout : ℤ) (circs : Circuits)
    (allCircuitsIn : List CircuitId) : UpgradeResult :=
  let (down, gs) := entryGuardsAllPrimaryGuardsAreDown env gs
  let noChange : UpgradeResult := ⟨false, circs, [], gs⟩
  if !down then noChange
  else
    let allCircuits := allCircuitsIn.filter (isConsidered gs circs)
    match bestWaitingCircuit env gs circs allCircuits with
    | none => noChange
    | some best =>
      if numBlocking env gs circs allCircuits best (hasState .complete circs) ≠ 0 then noChange
      else if numBlocking env gs circs allCircuits best (isPending env timeout circs) ≠ 0 then
        noChange
      else
        let out := allCircuits.foldl
          (upgradeCircuit env gs best (restrictionsOf circs best)) (circs, [])
        ⟨true, out.1, out.2, gs⟩

/-! ### Priorities are a strict weak order -/

/-- What is compared, least first. -/
def priority (guard : EntryGuard) : ℕ ×ₗ ℤ :=
  if 0 ≤ guard.confirmedIdx then toLex (0, guard.confirmedIdx)
  else if guard.isPending then toLex (1, guard.lastTriedToConnect)
  else toLex (2, 0)

/-- A circuit whose guard is unknown comes last. -/
def circuitPriority (circs : Circuits) (c : CircuitId) : ℕ ×ₗ ℤ :=
  (circuitGuard gs circs c).elim (toLex (3, 0)) fun g => priority (gs.heap g)

section Priorities
variable {env gs} {circs : Circuits} {a b : CircuitId}

theorem entryGuardHasHigherPriority_iff {g g' : GuardId} :
    entryGuardHasHigherPriority gs g g' = true ↔ priority (gs.heap g) < priority (gs.heap g') := by
  by_cases heq : g = g'
  · simp [entryGuardHasHigherPriority, heq]
  · by_cases hg : (gs.heap g).confirmedIdx < 0 <;> by_cases hg' : (gs.heap g').confirmedIdx < 0 <;>
      cases hp : (gs.heap g).isPending <;> cases hp' : (gs.heap g').isPending <;>
      simp [entryGuardHasHigherPriority, priority, Prod.Lex.toLex_lt_toLex, heq, hg, hg', hp, hp',
        not_le.mpr, not_lt.mp]

theorem priority_lt_unknown (guard : EntryGuard) : priority guard < toLex (3, 0) := by
  simp only [priority]
  split
  · simp [Prod.Lex.toLex_lt_toLex]
  · split <;> simp [Prod.Lex.toLex_lt_toLex]

/-- Without a restriction the comparison is that of the priorities. -/
theorem circStateHasHigherPriority_none : circStateHasHigherPriority env gs circs a none b = true ↔
      circuitPriority gs circs a < circuitPriority gs circs b := by
  cases ha : circuitGuard gs circs a with
  | none =>
    cases hb : circuitGuard gs circs b with
    | none => simp [circStateHasHigherPriority, circuitPriority, ha, hb]
    | some g => simp [circStateHasHigherPriority, circuitPriority, ha, hb,
        (priority_lt_unknown (gs.heap g)).le]
  | some g =>
    cases hb : circuitGuard gs circs b with
    | none => simp [circStateHasHigherPriority, circuitPriority, ha, hb, priority_lt_unknown]
    | some g' => simp [circStateHasHigherPriority, circuitPriority, ha, hb,
        entryGuardObeysRestriction, entryGuardHasHigherPriority_iff]

theorem bestWaitingCircuit_eq (allCircuits : List CircuitId) :
    bestWaitingCircuit env gs circs allCircuits =
      (allCircuits.filter (hasState .waitingForBetterGuard circs)).argmin
        (circuitPriority gs circs) := by
  have hstep : considerWaiting env gs circs = fun best c =>
      if hasState .waitingForBetterGuard circs c then
        List.argAux (fun b c => circuitPriority gs circs b < circuitPriority gs circs c) best c
      else best := by
    funext best c
    cases best with
    | none => simp [considerWaiting, List.argAux]
    | some b =>
      by_cases hc : hasState .waitingForBetterGuard circs c <;>
        simp [considerWaiting, List.argAux, hc, circStateHasHigherPriority_none]
  rw [bestWaitingCircuit, List.argmin, List.foldl_filter, hstep]

theorem bestWaitingCircuit_spec {allCircuits : List CircuitId} {best : CircuitId}
    (h : bestWaitingCircuit env gs circs allCircuits = some best) :
    best ∈ allCircuits ∧ hasState .waitingForBetterGuard circs best = true ∧
      ∀ c ∈ allCircuits, hasState .waitingForBetterGuard circs c = true →
        circuitPriority gs circs best ≤ circuitPriority gs circs c := by
  rw [bestWaitingCircuit_eq] at h
  have hmem := List.mem_filter.mp (List.argmin_mem h)
  refine ⟨hmem.1, hmem.2, fun c hc hw => ?_⟩
  exact List.le_of_mem_argmin (List.mem_filter.mpr ⟨hc, hw⟩) h

end Priorities

/-! ### The circuits that are completed -/

section Completion
variable {env gs} {circs circs' : Circuits} {best c : CircuitId} {rst : Option Restriction}
  {out : Completion} {allCircuits : List CircuitId}

theorem hasState_complete {state : GuardCircState} (now : ℤ)
    (hc : circs' c = (circs c).complete now) :
    hasState state circs' c = ((circs c).guardState.isSome && .complete = state) := by
  cases h : (circs c).guardState <;> simp [hasState, hc, OriginCircuit.complete, h]

/-- The circuit is not lower than the best one, and may be completed with it. -/
structure Joins (gs : GuardSelection) (circs : Circuits) (best : CircuitId)
    (rst : Option Restriction) (c : CircuitId) : Prop where
  unrestricted : c = best ∨ rst = none
  waiting : hasState .waitingForBetterGuard circs c = true
  le : circuitPriority gs circs c ≤ circuitPriority gs circs best

/-- What the loop has done when it has passed the circuits `passed`. -/
structure Completing (env : Env) (gs : GuardSelection) (circs : Circuits) (best : CircuitId)
    (rst : Option Restriction) (passed : List CircuitId) (out : Completion) : Prop where
  mem_iff : ∀ c, c ∈ out.2 ↔ c ∈ passed ∧ Joins gs circs best rst c
  completed : ∀ c ∈ out.2, out.1 c = (circs c).complete env.now
  unchanged : ∀ c, c ∉ out.2 → out.1 c = circs c

section Step
variable {passed : List CircuitId} (h : Completing env gs circs best rst passed out)
include h

theorem Completing.circuitGuard_eq : circuitGuard gs out.1 = circuitGuard gs circs := by
  funext c
  by_cases hc : c ∈ out.2
  · rw [circuitGuard, circuitGuard, h.completed c hc]
    cases hstate : (circs c).guardState <;> simp [OriginCircuit.complete, hstate]
  · rw [circuitGuard, circuitGuard, h.unchanged c hc]

theorem Completing.higher_iff : circStateHasHigherPriority env gs out.1 best none c = true ↔
      circuitPriority gs circs best < circuitPriority gs circs c := by
  rw [circStateHasHigherPriority_none, circuitPriority, circuitPriority, h.circuitGuard_eq]
  rfl

theorem upgradeCircuit_of_mem (hc : c ∈ out.2) : upgradeCircuit env gs best rst out c = out := by
  have hstate : hasState .waitingForBetterGuard out.1 c = false := by
    simp [hasState_complete env.now (h.completed c hc)]
  simp [upgradeCircuit, hstate]

theorem upgradeCircuit_of_not_mem (hc : c ∉ out.2) :
    (Joins gs circs best rst c → upgradeCircuit env gs best rst out c =
        (Function.update out.1 c ((circs c).complete env.now), out.2 ++ [c])) ∧
      (¬ Joins gs circs best rst c → upgradeCircuit env gs best rst out c = out) := by
  have hout := h.unchanged c hc
  have hstate : hasState .waitingForBetterGuard out.1 c =
      hasState .waitingForBetterGuard circs c := by simp [hasState, hout]
  constructor
  · intro hj
    have hle : circStateHasHigherPriority env gs out.1 best none c = false := by
      rw [← Bool.not_eq_true, h.higher_iff]
      exact not_lt.mpr hj.le
    have hrst : (c ≠ best && rst.isSome) = false := by
      cases hj.unrestricted with
      | inl hbest => simp [hbest]
      | inr hnone => simp [hnone]
    simp only [upgradeCircuit, hrst, hstate, hj.waiting, hle, hout]
    simp
  · intro hj
    by_cases hrst : (c ≠ best && rst.isSome) = true
    · simp only [upgradeCircuit, hrst, if_true]
    · by_cases hw : hasState .waitingForBetterGuard circs c = true
      · have hlt : circStateHasHigherPriority env gs out.1 best none c = true := by
          rw [h.higher_iff]
          by_contra hle
          refine hj ⟨?_, hw, not_lt.mp hle⟩
          by_cases hbest : c = best
          · exact Or.inl hbest
          · simpa [hbest] using hrst
        simp [upgradeCircuit, hlt]
      · simp [upgradeCircuit, hstate, hw]

/-- One turn of the loop. -/
theorem upgradeCircuit_completing :
    Completing env gs circs best rst (passed ++ [c]) (upgradeCircuit env gs best rst out c) := by
  by_cases hc : c ∈ out.2
  · rw [upgradeCircuit_of_mem h hc]
    refine ⟨fun d => ?_, h.completed, h.unchanged⟩
    have hcj := (h.mem_iff c).mp hc
    rw [h.mem_iff d, List.mem_append, List.mem_singleton]
    constructor
    · exact fun hd => ⟨Or.inl hd.1, hd.2⟩
    · rintro ⟨hd | rfl, hj⟩
      · exact ⟨hd, hj⟩
      · exact hcj
  · by_cases hj : Joins gs circs best rst c
    · rw [(upgradeCircuit_of_not_mem h hc).1 hj]
      refine ⟨fun d => ?_, fun d hd => ?_, fun d hd => ?_⟩
      · simp only [List.mem_append, List.mem_singleton, h.mem_iff d]
        constructor
        · rintro (hd | rfl)
          · exact ⟨Or.inl hd.1, hd.2⟩
          · exact ⟨Or.inr rfl, hj⟩
        · rintro ⟨hd | rfl, hjd⟩
          · exact Or.inl ⟨hd, hjd⟩
          · exact Or.inr rfl
      · by_cases hdc : d = c
        · simp [hdc]
        · have hd' : d ∈ out.2 := by simpa [hdc] using hd
          simp [hdc, h.completed d hd']
      · have hd' : d ∉ out.2 ∧ d ≠ c := by simpa using hd
        simp [hd'.2, h.unchanged d hd'.1]
    · rw [(upgradeCircuit_of_not_mem h hc).2 hj]
      refine ⟨fun d => ?_, h.completed, h.unchanged⟩
      rw [h.mem_iff d, List.mem_append, List.mem_singleton]
      constructor
      · exact fun hd => ⟨Or.inl hd.1, hd.2⟩
      · rintro ⟨hd | rfl, hjd⟩
        · exact ⟨hd, hjd⟩
        · exact absurd hjd hj

theorem foldl_upgradeCircuit_completing (rest : List CircuitId) :
    Completing env gs circs best rst (passed ++ rest)
      (rest.foldl (upgradeCircuit env gs best rst) out) := by
  induction rest generalizing passed out with
  | nil => simpa using h
  | cons c rest ih =>
    rw [List.foldl_cons, ← List.singleton_append, ← List.append_assoc]
    exact ih (upgradeCircuit_completing h)

end Step

theorem upgradeCircuits_completing (allCircuits : List CircuitId) :
    Completing env gs circs best rst allCircuits
      (allCircuits.foldl (upgradeCircuit env gs best rst) (circs, [])) := by
  have hstart : Completing env gs circs best rst [] (circs, []) :=
    ⟨by simp, by simp, fun _ _ => rfl⟩
  simpa using foldl_upgradeCircuit_completing hstart allCircuits

end Completion

/-! ### No premature upgrade -/

section Upgraded
variable {env gs} {circs : Circuits} {allCircuitsIn : List CircuitId} {timeout : ℤ}
  {best c d : CircuitId}

theorem entryGuardConsiderRetry_eq {g : GuardId}
    (h : ((entryGuardConsiderRetry env gs g).heap g).isReachable = .no) :
    entryGuardConsiderRetry env gs g = gs := by
  simp only [entryGuardConsiderRetry] at h ⊢
  split_ifs at h ⊢ <;> simp_all [GuardSelection.modify, markMaybe]

theorem allGuardsAreDown_spec {guards : List GuardId}
    (h : (allGuardsAreDown env guards gs).1 = true) :
    (allGuardsAreDown env guards gs).2 = gs ∧ ∀ g ∈ guards, (gs.heap g).isReachable = .no := by
  induction guards with
  | nil => simp [allGuardsAreDown]
  | cons g guards ih =>
    rw [allGuardsAreDown] at h ⊢
    by_cases hg : ((entryGuardConsiderRetry env gs g).heap g).isReachable = .no
    · have heq := entryGuardConsiderRetry_eq hg
      simp only [heq] at h hg ⊢
      simp only [hg, ne_eq, not_true_eq_false, if_false] at h ⊢
      exact ⟨(ih h).1, List.forall_mem_cons.mpr ⟨hg, (ih h).2⟩⟩
    · simp [hg] at h

theorem entryGuardsAllPrimaryGuardsAreDown_spec
    (h : (entryGuardsAllPrimaryGuardsAreDown env gs).1 = true) :
    ∀ g ∈ (entryGuardsAllPrimaryGuardsAreDown env gs).2.primaryEntryGuards,
      ((entryGuardsAllPrimaryGuardsAreDown env gs).2.heap g).isReachable = .no := by
  have hspec := allGuardsAreDown_spec h
  rw [entryGuardsAllPrimaryGuardsAreDown, hspec.1]
  exact hspec.2

/-- The guard of `d` obeys the restriction on `c` and is of a strictly higher priority. -/
def Outranks (env : Env) (gs : GuardSelection) (circs : Circuits) (d c : CircuitId) : Prop :=
  ∃ g g', circuitGuard gs circs d = some g ∧ circuitGuard gs circs c = some g' ∧
    entryGuardObeysRestriction env (gs.heap g) (restrictionsOf circs c) = true ∧
    entryGuardHasHigherPriority gs g g' = true

/-- Complete, waiting, or usable for less than the timeout. -/
def IsBlocking (env : Env) (timeout : ℤ) (circs : Circuits) (d : CircuitId) : Prop :=
  hasState .complete circs d = true ∨ hasState .waitingForBetterGuard circs d = true ∨
    isPending env timeout circs d = true

theorem Outranks.lt (h : Outranks env gs circs d c) :
    circuitPriority gs circs d < circuitPriority gs circs c := by
  obtain ⟨g, g', hg, hg', _, hlt⟩ := h
  simpa [circuitPriority, hg, hg'] using entryGuardHasHigherPriority_iff.mp hlt

theorem Outranks.higher_best (h : Outranks env gs circs d c)
    (hbest : (circuitGuard gs circs best).isSome = true)
    (hj : Joins gs circs best (restrictionsOf circs best) c) :
    circStateHasHigherPriority env gs circs d (restrictionsOf circs best) best = true := by
  have hlt : circuitPriority gs circs d < circuitPriority gs circs best := h.lt.trans_le hj.le
  obtain ⟨g, g', hg, hg', hobeys, _⟩ := h
  obtain ⟨gb, hgb⟩ := Option.isSome_iff_exists.mp hbest
  have hrst : entryGuardObeysRestriction env (gs.heap g) (restrictionsOf circs best) = true := by
    cases hj.unrestricted with
    | inl heq => exact heq ▸ hobeys
    | inr hnone => rw [hnone]; rfl
  have hhigher : entryGuardHasHigherPriority gs g gb = true := by
    rw [entryGuardHasHigherPriority_iff]
    simpa [circuitPriority, hg, hgb] using hlt
  simp [circStateHasHigherPriority, hg, hgb, hrst, hhigher]

theorem numBlocking_eq_zero {allCircuits : List CircuitId} {p : CircuitId → Bool}
    (h : numBlocking env gs circs allCircuits best p = 0) (hd : d ∈ allCircuits)
    (hhigher : circStateHasHigherPriority env gs circs d (restrictionsOf circs best) best = true) :
    p d = false := by
  have hcount := List.countP_eq_zero.mp h d hd
  simpa [hhigher] using hcount

/-- What it means that circuits were completed, and rightly so. -/
structure Upgraded (env : Env) (timeout : ℤ) (circs : Circuits) (allCircuitsIn : List CircuitId)
    (result : UpgradeResult) : Prop where
  waiting : ∀ c ∈ result.newlyComplete, c ∈ allCircuitsIn ∧
    isConsidered result.gs circs c = true ∧ hasState .waitingForBetterGuard circs c = true
  completed : ∀ c ∈ result.newlyComplete, result.circuits c = (circs c).complete env.now
  unchanged : ∀ c, c ∉ result.newlyComplete → result.circuits c = circs c
  primary_down : ∀ g ∈ result.gs.primaryEntryGuards, (result.gs.heap g).isReachable = .no
  unblocked : ∀ c ∈ result.newlyComplete, ∀ d ∈ allCircuitsIn,
    isConsidered result.gs circs d = true → Outranks env result.gs circs d c →
      ¬ IsBlocking env timeout circs d ∧ ¬ IsBlocking env timeout result.circuits d
  nonempty : result.newlyComplete ≠ []

theorem upgradeCircuits_upgraded
    (hdown : ∀ g ∈ gs.primaryEntryGuards, (gs.heap g).isReachable = .no)
    (hbest : bestWaitingCircuit env gs circs (allCircuitsIn.filter (isConsidered gs circs)) =
      some best)
    (hcomplete : numBlocking env gs circs (allCircuitsIn.filter (isConsidered gs circs)) best
      (hasState .complete circs) = 0)
    (hpending : numBlocking env gs circs (allCircuitsIn.filter (isConsidered gs circs)) best
      (isPending env timeout circs) = 0) {out : Completion}
    (hout : (allCircuitsIn.filter (isConsidered gs circs)).foldl
      (upgradeCircuit env gs best (restrictionsOf circs best)) (circs, []) = out) :
    Upgraded env timeout circs allCircuitsIn ⟨true, out.1, out.2, gs⟩ := by
  have h : Completing env gs circs best (restrictionsOf circs best)
      (allCircuitsIn.filter (isConsidered gs circs)) out :=
    hout ▸ upgradeCircuits_completing _
  obtain ⟨hmem, hwaiting, hle⟩ := bestWaitingCircuit_spec hbest
  have hknown : (circuitGuard gs circs best).isSome = true := by
    have hconsidered := (List.mem_filter.mp hmem).2
    rw [isConsidered, Bool.and_eq_true] at hconsidered
    exact hconsidered.1
  have hbefore : ∀ c ∈ out.2, ∀ d ∈ allCircuitsIn, isConsidered gs circs d = true →
      Outranks env gs circs d c → ¬ IsBlocking env timeout circs d := by
    intro c hc d hd hconsidered hrank
    have hj := ((h.mem_iff c).mp hc).2
    have hd' := List.mem_filter.mpr ⟨hd, hconsidered⟩
    have hhigher := hrank.higher_best hknown hj
    rintro (hstate | hstate | hstate)
    · simp [numBlocking_eq_zero hcomplete hd' hhigher] at hstate
    · exact absurd (hrank.lt.trans_le hj.le) (not_lt.mpr (hle d hd' hstate))
    · simp [numBlocking_eq_zero hpending hd' hhigher] at hstate
  constructor
  · intro c hc
    obtain ⟨hcmem, hj⟩ := (h.mem_iff c).mp hc
    exact ⟨(List.mem_filter.mp hcmem).1, (List.mem_filter.mp hcmem).2, hj.waiting⟩
  · exact h.completed
  · exact h.unchanged
  · exact hdown
  · intro c hc d hd hconsidered hrank
    have hd' := hbefore c hc d hd hconsidered hrank
    refine ⟨hd', ?_⟩
    have hnew : d ∉ out.2 := by
      intro hnew
      exact hd' (Or.inr (Or.inl ((h.mem_iff d).mp hnew).2.waiting))
    simpa only [IsBlocking, hasState, isPending, h.unchanged d hnew] using hd'
  · have hnew := (h.mem_iff best).mpr ⟨hmem, Or.inl rfl, hwaiting, le_refl _⟩
    exact List.ne_nil_of_mem hnew

/-- Circuits are only completed when nothing that is better stands in the way. -/
theorem upgrade_not_premature (env : Env) (gs : GuardSelection) (timeout : ℤ) (circs : Circuits)
    (allCircuitsIn : List CircuitId) :
    let result := entryGuardsUpgradeWaitingCircuits env gs timeout circs allCircuitsIn
    (result.upgraded = true → Upgraded env timeout circs allCircuitsIn result) ∧
      (result.upgraded = false → result.circuits = circs ∧ result.newlyComplete = []) := by
  have hspec := @entryGuardsAllPrimaryGuardsAreDown_spec env gs
  cases hprimary : entryGuardsAllPrimaryGuardsAreDown env gs with
  | mk down gs' =>
    rw [hprimary] at hspec
    simp only [entryGuardsUpgradeWaitingCircuits, hprimary]
    cases down with
    | false => simp
    | true =>
      cases hbest : bestWaitingCircuit env gs' circs
          (allCircuitsIn.filter (isConsidered gs' circs)) with
      | none => simp
      | some best =>
        simp only [Bool.not_true, Bool.false_eq_true, if_false]
        split
        · simp
        · rename_i hcomplete
          split
          · simp
          · rename_i hpending
            refine ⟨fun _ => ?_, by simp⟩
            exact upgradeCircuits_upgraded (hspec rfl) hbest (not_not.mp hcomplete)
              (not_not.mp hpending) rfl

end Upgraded

section Examples

/-- The primary guard `0` is down; the guard `1` is confirmed and `2` is not. -/
def downSelection : GuardSelection :=
  { guardSelectionNew .normal with
    primaryGuardsUpToDate := true
    sampledEntryGuards := [0, 1, 2]
    confirmedEntryGuards := [0, 1]
    primaryEntryGuards := [0]
    nextConfirmedIdx := 2
    nextSampledIdx := 3
    heap := fun g =>
      { blankGuard with
        identity := (exampleNode (.ofNat (g + 1))).identity
        currentlyListed := true
        sampledIdx := g
        confirmedIdx := if g = 2 then -1 else g
        lastTriedToConnect := 990
        isReachable := if g = 0 then .no else .yes
        isFilteredGuard := true
        isUsableFilteredGuard := g ≠ 0
        isPrimary := g = 0 }
    live := fun g => g < 3
    nextGuard := 3 }

/-- A complete circuit that is marked for close, through the guard `1`, and a waiting one. -/
def markedCircuits : Circuits := fun c =>
  if c = 0 then ⟨some ⟨.inSelection 1, 900, .complete, none⟩, true⟩
  else ⟨some ⟨.inSelection 2, 950, .waitingForBetterGuard, none⟩, false⟩

theorem marked_circuit_outranks :
    let result := entryGuardsUpgradeWaitingCircuits (plainEnv [] []) downSelection 15
      markedCircuits [0, 1]
    result.upgraded = true ∧ 1 ∈ result.newlyComplete ∧
      hasState .complete result.circuits 0 = true ∧
      Outranks (plainEnv [] []) result.gs markedCircuits 0 1 := by
  refine ⟨by decide, by decide, by decide, 1, 2, by decide, by decide, by decide, by decide⟩

end Examples

end TorDaemon.Client.Entrynodes

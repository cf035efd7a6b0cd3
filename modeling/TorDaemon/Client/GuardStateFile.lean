import TorDaemon.Client.GuardLists
import TorDaemon.Client.GuardState

/-! The guards of all selections in the state file (`entrynodes.c`): they are loaded in the order
in which they were saved. -/
namespace TorDaemon.Client.GuardState
open Library.NetworkOrder Library.Sorting SharedRandom
open Dirvote (int32Max)
open Encoding.IsoTime (Representable)
open Entrynodes (SelectionType)
open Policies (TorAddr)

section Selections

/-- What of `guard_selection_t` is saved or loaded. -/
structure GuardSelection (δ : Type) where
  name : Bytes
  type : SelectionType
  sampledEntryGuards : List (EntryGuard δ)
  nextSampledIdx : ℤ

/-- `guard_selection_infer_type` of `GS_TYPE_INFER`. -/
def guardSelectionInferType (name : Bytes) : SelectionType :=
  if name = ascii "bridges" then .bridge
  else if name = ascii "restricted" then .restricted
  else .normal

variable {δ : Type} (env : Env δ)

def guardSelectionNew (name : Bytes) : GuardSelection δ :=
  ⟨name, guardSelectionInferType name, [], 0⟩

/-- The loop over the guards of a selection. -/
def encodeGuards (i : ℕ) : List (EntryGuard δ) → List Bytes
  | [] => []
  | guard :: guards =>
    if guard.isPersistent then
      entryGuardEncodeForState env guard i :: encodeGuards (i + 1) guards
    else encodeGuards i guards

/-- `entry_guards_update_guards_in_state`: the `Guard` lines. -/
def entryGuardsUpdateGuardsInState (guardContexts : Option (List (GuardSelection δ)))
    (stateGuard : List Bytes) : List Bytes :=
  match guardContexts with
  | none => stateGuard
  | some contexts => contexts.flatMap fun gs => encodeGuards env 0 gs.sampledEntryGuards

/-- `get_guard_selection_by_name`, which makes the selection where there is none, and what is done
with it. -/
def withGuardSelectionByName (name : Bytes) (f : GuardSelection δ → GuardSelection δ) :
    List (GuardSelection δ) → List (GuardSelection δ)
  | [] => [f (guardSelectionNew name)]
  | gs :: contexts =>
    if gs.name = name then f gs :: contexts else gs :: withGuardSelectionByName name f contexts

def addLoadedGuard (guard : EntryGuard δ) (gs : GuardSelection δ) : GuardSelection δ :=
  { gs with
    sampledEntryGuards := gs.sampledEntryGuards ++ [guard]
    nextSampledIdx := if gs.nextSampledIdx ≤ guard.sampledIdx then guard.sampledIdx + 1
      else gs.nextSampledIdx }

/-- The selections so far, and `n_errors`. -/
structure Loaded (δ : Type) where
  contexts : List (GuardSelection δ)
  nErrors : ℕ

def loadLine (set : Bool) (loaded : Loaded δ) (line : Bytes) : Loaded δ :=
  match entryGuardParseFromState env line with
  | none => { loaded with nErrors := loaded.nErrors + 1 }
  | some guard =>
    if guard.selectionName = ascii "legacy" then { loaded with nErrors := loaded.nErrors + 1 }
    else if set then
      { loaded with contexts :=
          withGuardSelectionByName guard.selectionName (addLoadedGuard guard) loaded.contexts }
    else loaded

abbrev compareGuardsBySampledIdx (δ : Type) : EntryGuard δ → EntryGuard δ → Ordering :=
  compareOn EntryGuard.sampledIdx

def sortBySampledIdx (q : Qsort (compareGuardsBySampledIdx δ)) (gs : GuardSelection δ) :
    GuardSelection δ :=
  { gs with sampledEntryGuards := q.sort gs.sampledEntryGuards }

/-- What is returned, and the selections. `updateAll` is `entry_guards_update_all`. -/
def entryGuardsLoadGuardsFromState (q : Qsort (compareGuardsBySampledIdx δ))
    (updateAll : GuardSelection δ → GuardSelection δ) (set : Bool) (stateGuard : List Bytes)
    (contexts : List (GuardSelection δ)) : ℤ × List (GuardSelection δ) :=
  let loaded := stateGuard.foldl (loadLine env set) ⟨if set then [] else contexts, 0⟩
  (if loaded.nErrors = 0 then 0 else -1,
    if set then loaded.contexts.map fun gs => updateAll (sortBySampledIdx q gs)
    else loaded.contexts)

end Selections

section Lines
variable {δ : Type} {env : Env δ} {guards : List (EntryGuard δ)} {name : Bytes}
  {cs : List (GuardSelection δ)} {gs : GuardSelection δ} {i k n : ℕ}

def persistentGuards (gs : GuardSelection δ) : List (EntryGuard δ) :=
  gs.sampledEntryGuards.filter EntryGuard.isPersistent

/-- The guards with the indices from `k` on. -/
def reloadedGuards (env : Env δ) (k : ℕ) (guards : List (EntryGuard δ)) : List (EntryGuard δ) :=
  (guards.zipIdx k).map fun p => reloaded env p.1 p.2

theorem reloadedGuards_cons (guard : EntryGuard δ) (guards : List (EntryGuard δ)) (k : ℕ) :
    reloadedGuards env k (guard :: guards) =
      reloaded env guard k :: reloadedGuards env (k + 1) guards := rfl

def linesFrom (env : Env δ) (k : ℕ) (guards : List (EntryGuard δ)) : List Bytes :=
  (guards.zipIdx k).map fun p => entryGuardEncodeForState env p.1 p.2

theorem linesFrom_cons (guard : EntryGuard δ) (guards : List (EntryGuard δ)) (k : ℕ) :
    linesFrom env k (guard :: guards) =
      entryGuardEncodeForState env guard k :: linesFrom env (k + 1) guards := rfl

theorem encodeGuards_eq (guards : List (EntryGuard δ)) (k : ℕ) :
    encodeGuards env k guards = linesFrom env k (guards.filter EntryGuard.isPersistent) := by
  induction guards generalizing k with
  | nil => rfl
  | cons guard guards ih =>
    rw [encodeGuards]
    by_cases hpersistent : guard.isPersistent = true
    · rw [if_pos hpersistent, List.filter_cons_of_pos hpersistent, linesFrom_cons, ih]
    · rw [if_neg hpersistent, List.filter_cons_of_neg hpersistent, ih]

theorem withGuardSelectionByName_new (f : GuardSelection δ → GuardSelection δ)
    (h : ∀ c ∈ cs, c.name ≠ name) :
    withGuardSelectionByName name f cs = cs ++ [f (guardSelectionNew name)] := by
  induction cs with
  | nil => rfl
  | cons c cs ih =>
    rw [withGuardSelectionByName, if_neg (h c (.head _)), ih fun c' hc' => h c' (.tail _ hc'),
      List.cons_append]

theorem withGuardSelectionByName_last (f : GuardSelection δ → GuardSelection δ)
    (h : ∀ c ∈ cs, c.name ≠ name) (hgs : gs.name = name) :
    withGuardSelectionByName name f (cs ++ [gs]) = cs ++ [f gs] := by
  induction cs with
  | nil => exact if_pos hgs
  | cons c cs ih =>
    rw [List.cons_append, withGuardSelectionByName, if_neg (h c (.head _)),
      ih fun c' hc' => h c' (.tail _ hc'), List.cons_append]

theorem loadLine_encode {guard : EntryGuard δ} (h : Storable guard) (hi : (i : ℤ) ≤ int32Max) :
    loadLine env true ⟨cs, n⟩ (entryGuardEncodeForState env guard i) =
      if guard.selectionName = ascii "legacy" then ⟨cs, n + 1⟩
      else ⟨withGuardSelectionByName guard.selectionName (addLoadedGuard (reloaded env guard i)) cs,
        n⟩ := by
  rw [loadLine, entryGuardParseFromState_encode h hi]
  rfl

theorem foldl_legacy (hstorable : ∀ guard ∈ guards, Storable guard)
    (hname : ∀ guard ∈ guards, guard.selectionName = ascii "legacy")
    (hlen : ((k + guards.length : ℕ) : ℤ) ≤ int32Max) :
    (linesFrom env k guards).foldl (loadLine env true) ⟨cs, n⟩ = ⟨cs, n + guards.length⟩ := by
  induction guards generalizing k n with
  | nil => rfl
  | cons guard guards ih =>
    rw [List.length_cons] at hlen
    rw [linesFrom_cons, List.foldl_cons, loadLine_encode (hstorable guard (.head _)) (by omega),
      if_pos (hname guard (.head _)), ih (fun g hg => hstorable g (.tail _ hg))
        (fun g hg => hname g (.tail _ hg)) (by omega), List.length_cons]
    congr 1
    omega

theorem foldl_rest (hstorable : ∀ guard ∈ guards, Storable guard)
    (hname : ∀ guard ∈ guards, guard.selectionName = name) (hlegacy : name ≠ ascii "legacy")
    (hnew : ∀ c ∈ cs, c.name ≠ name) (hgs : gs.name = name) (hnext : gs.nextSampledIdx = k)
    (hlen : ((k + guards.length : ℕ) : ℤ) ≤ int32Max) :
    (linesFrom env k guards).foldl (loadLine env true) ⟨cs ++ [gs], n⟩ =
      ⟨cs ++ [{ gs with
        sampledEntryGuards := gs.sampledEntryGuards ++ reloadedGuards env k guards
        nextSampledIdx := (k + guards.length : ℕ) }], n⟩ := by
  induction guards generalizing k gs with
  | nil =>
    simp only [reloadedGuards, linesFrom, List.zipIdx_nil, List.map_nil, List.foldl_nil,
      List.append_nil, List.length_nil, Nat.add_zero, ← hnext]
  | cons guard guards ih =>
    rw [List.length_cons] at hlen
    have hguard := hname guard (.head _)
    have hidx : (reloaded env guard k).sampledIdx = k := rfl
    have hadded : (addLoadedGuard (reloaded env guard k) gs).nextSampledIdx = (k + 1 : ℕ) := by
      unfold addLoadedGuard
      rw [hidx, if_pos (by omega)]
      rfl
    have hsame : (addLoadedGuard (reloaded env guard k) gs).name = name := hgs
    rw [linesFrom_cons, List.foldl_cons, loadLine_encode (hstorable guard (.head _)) (by omega),
      hguard, if_neg hlegacy, withGuardSelectionByName_last _ hnew hgs,
      ih (fun g hg => hstorable g (.tail _ hg)) (fun g hg => hname g (.tail _ hg)) hsame hadded
        (by omega)]
    congr 3
    simp only [addLoadedGuard, reloadedGuards_cons, List.append_assoc, List.singleton_append,
      List.length_cons]
    congr 2
    omega

end Lines

section Contexts
variable {δ : Type} {env : Env δ} {contexts cs : List (GuardSelection δ)} {gs : GuardSelection δ}
  {guards : List (EntryGuard δ)} {guard : EntryGuard δ} {k n : ℕ}

/-- Selections with names of their own, which are those that their guards give. -/
structure Saved (contexts : List (GuardSelection δ)) : Prop where
  names : contexts.Pairwise fun gs gs' => gs.name ≠ gs'.name
  selectionName : ∀ gs ∈ contexts, ∀ guard ∈ persistentGuards gs, guard.selectionName = gs.name
  storable : ∀ gs ∈ contexts, ∀ guard ∈ persistentGuards gs, Storable guard
  length : ∀ gs ∈ contexts, ((persistentGuards gs).length : ℤ) ≤ int32Max

def reloadedSelection (env : Env δ) (gs : GuardSelection δ) : GuardSelection δ :=
  ⟨gs.name, guardSelectionInferType gs.name, reloadedGuards env 0 (persistentGuards gs),
    (persistentGuards gs).length⟩

/-- A selection comes back where it has a guard, and is not of a very old version. -/
def isKept (gs : GuardSelection δ) : Bool :=
  gs.name ≠ ascii "legacy" ∧ (persistentGuards gs).length ≠ 0

/-- The guards that are refused. -/
def legacyGuards (gs : GuardSelection δ) : ℕ :=
  if gs.name = ascii "legacy" then (persistentGuards gs).length else 0

theorem foldl_selection (hname : ∀ guard ∈ persistentGuards gs, guard.selectionName = gs.name)
    (hstorable : ∀ guard ∈ persistentGuards gs, Storable guard)
    (hlen : ((persistentGuards gs).length : ℤ) ≤ int32Max) (hnew : ∀ c ∈ cs, c.name ≠ gs.name) :
    (encodeGuards env 0 gs.sampledEntryGuards).foldl (loadLine env true) ⟨cs, n⟩ =
      ⟨cs ++ ([gs].filter isKept).map (reloadedSelection env), n + legacyGuards gs⟩ := by
  rw [encodeGuards_eq]
  change (linesFrom env 0 (persistentGuards gs)).foldl (loadLine env true) ⟨cs, n⟩ = _
  by_cases hlegacy : gs.name = ascii "legacy"
  · have hkept : ¬ isKept gs = true := by simp [isKept, hlegacy]
    rw [foldl_legacy hstorable (fun g hg => (hname g hg).trans hlegacy) (by omega),
      List.filter_cons_of_neg hkept, List.filter_nil, List.map_nil, List.append_nil, legacyGuards,
      if_pos hlegacy]
  · rw [legacyGuards, if_neg hlegacy, Nat.add_zero]
    cases hguards : persistentGuards gs with
    | nil =>
      have hkept : ¬ isKept gs = true := by simp [isKept, hguards]
      rw [List.filter_cons_of_neg hkept, List.filter_nil, List.map_nil, List.append_nil]
      rfl
    | cons guard guards =>
      have hkept : isKept gs = true := by simp [isKept, hlegacy, hguards]
      rw [hguards] at hname hstorable hlen
      rw [List.length_cons] at hlen
      have hguard := hname guard (.head _)
      have hsame : (addLoadedGuard (reloaded env guard 0) (guardSelectionNew gs.name)).name =
          gs.name := rfl
      have hnext : (addLoadedGuard (reloaded env guard 0)
          (guardSelectionNew gs.name)).nextSampledIdx = (0 + 1 : ℕ) := rfl
      rw [linesFrom_cons, List.foldl_cons, loadLine_encode (hstorable guard (.head _)) (by omega),
        hguard, if_neg hlegacy, withGuardSelectionByName_new _ hnew,
        foldl_rest (fun g hg => hstorable g (.tail _ hg)) (fun g hg => hname g (.tail _ hg)) hlegacy
          hnew hsame hnext (by omega), List.filter_cons_of_pos hkept, List.filter_nil,
        List.map_singleton, reloadedSelection, hguards, reloadedGuards_cons]
      simp only [addLoadedGuard, guardSelectionNew, List.nil_append, List.singleton_append,
        List.length_cons, Nat.zero_add, Nat.add_comm 1]

theorem foldl_contexts (h : Saved contexts) (hnew : ∀ c ∈ cs, ∀ gs ∈ contexts, c.name ≠ gs.name) :
    (contexts.flatMap fun gs => encodeGuards env 0 gs.sampledEntryGuards).foldl (loadLine env true)
      ⟨cs, n⟩ = ⟨cs ++ (contexts.filter isKept).map (reloadedSelection env),
        n + (contexts.map legacyGuards).sum⟩ := by
  induction contexts generalizing cs n with
  | nil => simp
  | cons gs contexts ih =>
    obtain ⟨hdistinct, hnames⟩ := List.pairwise_cons.mp h.names
    have htail : Saved contexts := ⟨hnames, fun c hc => h.selectionName c (.tail _ hc),
      fun c hc => h.storable c (.tail _ hc), fun c hc => h.length c (.tail _ hc)⟩
    rw [List.flatMap_cons, List.foldl_append,
      foldl_selection (h.selectionName gs (.head _)) (h.storable gs (.head _))
        (h.length gs (.head _)) fun c hc => hnew c hc gs (.head _), ih htail]
    · rw [List.append_assoc, ← List.map_append, ← List.filter_append, List.singleton_append,
        List.map_cons, List.sum_cons, Nat.add_assoc]
    · intro c hc gs' hgs'
      rcases List.mem_append.mp hc with hc | hc
      · exact hnew c hc gs' (.tail _ hgs')
      · obtain ⟨gs'', hgs'', rfl⟩ := List.mem_map.mp hc
        obtain rfl := List.mem_singleton.mp (List.mem_filter.mp hgs'').1
        exact hdistinct gs' hgs'

/-- The indices of loaded guards lie in the range of those that were written. -/
theorem sampledIdx_reloadedGuards (h : guard ∈ reloadedGuards env k guards) :
    (k : ℤ) ≤ guard.sampledIdx ∧ guard.sampledIdx < (k + guards.length : ℕ) := by
  induction guards generalizing k with
  | nil => cases h
  | cons first guards ih =>
    rw [List.length_cons]
    rw [reloadedGuards_cons, List.mem_cons] at h
    rcases h with rfl | h
    · change (k : ℤ) ≤ k ∧ (k : ℤ) < (k + (guards.length + 1) : ℕ)
      omega
    · have hrest := ih h
      omega

theorem pairwise_reloadedGuards (guards : List (EntryGuard δ)) (k : ℕ) :
    (reloadedGuards env k guards).Pairwise fun g g' => g.sampledIdx < g'.sampledIdx := by
  induction guards generalizing k with
  | nil => exact .nil
  | cons guard guards ih =>
    rw [reloadedGuards_cons, List.pairwise_cons]
    refine ⟨fun g' hg' => ?_, ih _⟩
    have hrange := (sampledIdx_reloadedGuards hg').1
    change (k : ℤ) < g'.sampledIdx
    omega

/-- The order of the file is that of the indices already. -/
theorem sort_reloadedGuards (q : Qsort (compareGuardsBySampledIdx δ))
    (guards : List (EntryGuard δ)) (k : ℕ) :
    q.sort (reloadedGuards env k guards) = reloadedGuards env k guards := by
  have hpairwise : (reloadedGuards env k guards).Pairwise fun g g' =>
      g.sampledIdx < g'.sampledIdx := pairwise_reloadedGuards guards k
  have hdistinct : ((reloadedGuards env k guards).map EntryGuard.sampledIdx).Nodup :=
    List.pairwise_map.mpr (hpairwise.imp ne_of_lt)
  have hsorted : (reloadedGuards env k guards).Pairwise fun a b =>
      (compareGuardsBySampledIdx δ a b).isLE := by
    refine hpairwise.imp fun {a b} hlt => ?_
    rw [compareGuardsBySampledIdx, compareOn, Ordering.isLE_iff_ne_gt]
    exact fun hgt => not_lt.mpr hlt.le (compare_gt_iff_gt.mp hgt)
  have hperm := q.perm (reloadedGuards env k guards)
  refine sorted_unique (q.sorted _) hsorted hperm fun a ha b hb heq => ?_
  have hidx : a.sampledIdx = b.sampledIdx := compare_eq_iff_eq.mp heq
  exact List.inj_on_of_nodup_map hdistinct (hperm.mem_iff.mp ha) (hperm.mem_iff.mp hb) hidx

end Contexts

section RoundTrip
variable {δ : Type} {env : Env δ} {i : ℕ}

/-- What comes back of a guard that was written with the index `i`. A guard that is not confirmed
has the index -1 for that, and no date. -/
structure Restores (i : ℕ) (g g' : EntryGuard δ) : Prop where
  selectionName : g'.selectionName = g.selectionName
  identity : g'.identity = g.identity
  bridgeAddr : g'.bridgeAddr = g.bridgeAddr
  sampledOnDate : g'.sampledOnDate = g.sampledOnDate
  unlistedSinceDate : g'.unlistedSinceDate = g.unlistedSinceDate
  sampledByVersion : g'.sampledByVersion = g.sampledByVersion
  currentlyListed : g'.currentlyListed = g.currentlyListed
  confirmedIdx : g'.confirmedIdx = if 0 ≤ g.confirmedIdx then g.confirmedIdx else -1
  confirmedOnDate : g'.confirmedOnDate = if 0 ≤ g.confirmedIdx then g.confirmedOnDate else 0
  extraFields : extraFields g' = extraFields g
  sampledIdx : g'.sampledIdx = i

/-- The sample of a selection comes back in its order, with the places as the indices. -/
structure SampleRestored (gs gs' : GuardSelection δ) : Prop where
  name : gs'.name = gs.name
  length : gs'.sampledEntryGuards.length = (persistentGuards gs).length
  guards : ∀ i g, (persistentGuards gs)[i]? = some g →
    ∃ g', gs'.sampledEntryGuards[i]? = some g' ∧ Restores i g g'
  next : ∀ g' ∈ gs'.sampledEntryGuards, g'.sampledIdx < gs'.nextSampledIdx

theorem restores_reloaded (g : EntryGuard δ) (i : ℕ) : Restores i g (reloaded env g i) :=
  ⟨rfl, rfl, rfl, rfl, rfl, rfl, rfl, rfl, rfl, extraFields_reloaded, rfl⟩

theorem sampleRestored_reloadedSelection (gs : GuardSelection δ) :
    SampleRestored gs (reloadedSelection env gs) := by
  refine ⟨rfl, ?_, fun i g hg => ⟨reloaded env g i, ?_, restores_reloaded g i⟩, fun g' hg' => ?_⟩
  · simp [reloadedSelection, reloadedGuards]
  · simp [reloadedSelection, reloadedGuards, hg]
  · have hrange := (sampledIdx_reloadedGuards hg').2
    rwa [Nat.zero_add] at hrange

theorem load_save (q : Qsort (compareGuardsBySampledIdx δ))
    (updateAll : GuardSelection δ → GuardSelection δ) {contexts : List (GuardSelection δ)}
    (h : Saved contexts) (stateGuard : List Bytes) (old : List (GuardSelection δ)) :
    entryGuardsLoadGuardsFromState env q updateAll true
        (entryGuardsUpdateGuardsInState env (some contexts) stateGuard) old =
      (if ∀ gs ∈ contexts, legacyGuards gs = 0 then 0 else -1,
        ((contexts.filter isKept).map (reloadedSelection env)).map updateAll) := by
  have hfold : (entryGuardsUpdateGuardsInState env (some contexts) stateGuard).foldl
      (loadLine env true) ⟨[], 0⟩ = ⟨(contexts.filter isKept).map (reloadedSelection env),
        (contexts.map legacyGuards).sum⟩ := by
    have hnew : ∀ c ∈ ([] : List (GuardSelection δ)), ∀ gs ∈ contexts, c.name ≠ gs.name := by simp
    have hrun : (contexts.flatMap fun gs => encodeGuards env 0 gs.sampledEntryGuards).foldl
        (loadLine env true) ⟨[], 0⟩ = ⟨[] ++ (contexts.filter isKept).map (reloadedSelection env),
          0 + (contexts.map legacyGuards).sum⟩ := foldl_contexts h hnew
    rwa [List.nil_append, Nat.zero_add] at hrun
  have herrors : (contexts.map legacyGuards).sum = 0 ↔ ∀ gs ∈ contexts, legacyGuards gs = 0 := by
    rw [List.sum_eq_zero_iff_forall_eq_nat, List.forall_mem_map]
  unfold entryGuardsLoadGuardsFromState
  rw [if_pos rfl, hfold]
  simp only [herrors, if_true, List.map_map]
  congr 1
  apply List.map_congr_left
  intro gs _
  apply congrArg updateAll
  rw [sortBySampledIdx, reloadedSelection, sort_reloadedGuards]

/-- A guard comes back from its text, and so do the samples of all selections that have one, but for
those of very old versions. They are then updated as the consensus demands. -/
theorem guardState_restored (env : Env δ) (q : Qsort (compareGuardsBySampledIdx δ))
    (updateAll : GuardSelection δ → GuardSelection δ) :
    (∀ (g : EntryGuard δ) (i : ℕ), Storable g → (i : ℤ) ≤ int32Max → ∃ g',
      entryGuardParseFromState env (entryGuardEncodeForState env g i) = some g' ∧
        Restores i g g') ∧
    ∀ contexts, Saved contexts → ∀ stateGuard old, ∃ loaded,
      entryGuardsLoadGuardsFromState env q updateAll true
          (entryGuardsUpdateGuardsInState env (some contexts) stateGuard) old =
        (if ∀ gs ∈ contexts, legacyGuards gs = 0 then 0 else -1, loaded.map updateAll) ∧
      List.Forall₂ SampleRestored (contexts.filter isKept) loaded := by
  constructor
  · intro g i hg hi
    exact ⟨_, entryGuardParseFromState_encode hg hi, restores_reloaded g i⟩
  · intro contexts hsaved stateGuard old
    refine ⟨_, load_save q updateAll hsaved stateGuard old, ?_⟩
    rw [List.forall₂_map_right_iff, List.forall₂_same]
    exact fun gs _ => sampleRestored_reloadedSelection gs

end RoundTrip

section Runs

/-- Counts that are whole numbers. -/
def wholeCounts : Env ℕ where
  approxTime := 1700000000
  maxSampleSizeAbsolute := 60
  zero := 0
  isCounted := fun d => d ≠ 0
  format := decimalString
  format_noSpace := fun d => (decimalString_isWord d).noSpace
  torParseDouble := fun _ => none
  pathbiasGetUseSuccessCount := fun g => g.pb .useSuccesses
  pathbiasGetCloseSuccessCount := fun g => g.pb .successfulCircuitsClosed
  pathbiasCheck := fun _ => false

/-- A bridge with a date of its confirmation. -/
def bridgeGuard (selectionName : Bytes) (confirmedIdx : ℤ) (port : UInt16) : EntryGuard ℕ where
  nickname := ⟨ascii "no nickname", by decide⟩
  identity := Digest.replicate 7
  sampledOnDate := 1600000000
  unlistedSinceDate := 0
  sampledByVersion := some (ascii "0.4.9.11")
  currentlyListed := true
  confirmedOnDate := 1650000000
  sampledIdx := 5
  confirmedIdx := confirmedIdx
  selectionName := selectionName
  bridgeAddr := some ⟨.inet 0x01020304, port⟩
  isPersistent := true
  extraStateFields := some (ascii "future=1 flag")
  pb := fun _ => 0
  pathBiasDisabled := false

theorem storable_bridgeGuard : Storable (bridgeGuard (ascii "bridges") 3 443) where
  selectionName := by decide +kernel
  sampledByVersion := by
    rintro version hversion
    cases hversion
    decide +kernel
  sampledOnDate := ⟨by decide, by decide⟩
  sampledOnDate_pos := by decide
  unlistedSinceDate := ⟨by decide, by decide⟩
  confirmedOnDate := ⟨by decide, by decide⟩
  confirmedIdx := by decide
  bridgeAddr := by
    rintro a ha
    cases ha
    decide
  extraFields := by decide +kernel

def bridgesSelection : GuardSelection ℕ where
  name := ascii "bridges"
  type := .bridge
  sampledEntryGuards := [bridgeGuard (ascii "bridges") 3 443, bridgeGuard (ascii "bridges") 3 443]
  nextSampledIdx := 9

theorem saved_bridgesSelection : Saved [bridgesSelection] := by
  have hguards : ∀ guard ∈ persistentGuards bridgesSelection,
      guard = bridgeGuard (ascii "bridges") 3 443 := by
    intro guard hguard
    have hmem := List.mem_of_mem_filter hguard
    simpa [bridgesSelection] using hmem
  refine ⟨List.pairwise_singleton _ _, ?_, ?_, ?_⟩
  · intro gs hgs guard hguard
    obtain rfl := List.mem_singleton.mp hgs
    obtain rfl := hguards guard hguard
    rfl
  · intro gs hgs guard hguard
    obtain rfl := List.mem_singleton.mp hgs
    obtain rfl := hguards guard hguard
    exact storable_bridgeGuard
  · intro gs hgs
    obtain rfl := List.mem_singleton.mp hgs
    decide

theorem guardState_restored_bridges : (∃ g', entryGuardParseFromState wholeCounts
      (entryGuardEncodeForState wholeCounts (bridgeGuard (ascii "bridges") 3 443) 7) = some g' ∧
        Restores 7 (bridgeGuard (ascii "bridges") 3 443) g') ∧
    ∃ loaded, entryGuardsLoadGuardsFromState wholeCounts (stableQsort _) id true
        (entryGuardsUpdateGuardsInState wholeCounts (some [bridgesSelection]) []) [] =
        (0, loaded.map id) ∧
      List.Forall₂ SampleRestored [bridgesSelection] loaded :=
  ⟨(guardState_restored wholeCounts (stableQsort _) id).1 _ 7 storable_bridgeGuard (by decide),
    (guardState_restored wholeCounts (stableQsort _) id).2 _ saved_bridgesSelection [] []⟩

/-- The date of an unconfirmed guard is lost, and so are an address without a port and a selection
of the name that very old versions gave. -/
theorem guardState_lost : (entryGuardParseFromState wholeCounts
      (entryGuardEncodeForState wholeCounts (bridgeGuard (ascii "bridges") (-1) 443) 0)).map
        EntryGuard.confirmedOnDate ≠
      some (bridgeGuard (ascii "bridges") (-1) 443).confirmedOnDate ∧
    (entryGuardParseFromState wholeCounts
      (entryGuardEncodeForState wholeCounts (bridgeGuard (ascii "bridges") 3 0) 0)).map
        EntryGuard.bridgeAddr ≠ some (bridgeGuard (ascii "bridges") 3 0).bridgeAddr ∧
    ((entryGuardsUpdateGuardsInState wholeCounts
      (some [⟨ascii "legacy", .normal, [bridgeGuard (ascii "legacy") 3 443], 6⟩]) []).foldl
        (loadLine wholeCounts true) ⟨[], 0⟩).contexts.length = 0 := by
  decide +kernel

end Runs

end TorDaemon.Client.GuardState

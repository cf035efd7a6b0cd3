import TorDaemon.CircuitList.CircidMap

/-! What the map of circuit IDs keeps: a circuit owns the ID it has on a channel, and a queued DESTROY
reserves its ID, by a flag of the circuit or by a placeholder (`circuitlist.c`). -/
namespace TorDaemon.CircuitList
open Library.CachedTable

section CircidMapInvariant

/-- The channel and the ID of a side. -/
def Side.place (s : Side) : Option ℕ × UInt32 := (s.chan, s.circId)

/-- A circuit has a channel and an ID in a direction. -/
def World.Uses (w : World) (r : ℕ) (dir : Direction) (k : Key) : Prop :=
  k.2 ≠ 0 ∧ (w.side r dir).map Side.place = some (some k.1, k.2)

/-- The entries of circuits are exactly for what the circuits use. -/
structure Mapped (w : World) : Prop where
  sound : w.chanCircidMap.Sound
  mapped : ∀ r dir k, w.Uses r dir k → w.owner k = some (some r)
  owned : ∀ r k, w.owner k = some (some r) → ∃ dir, w.Uses r dir k
  apart : ∀ r dir dir' k, w.Uses r dir k → w.Uses r dir' k → dir = dir'
  detached : ∀ r dir s, w.side r dir = some s → s.chan = none → s.circId = 0

/-- A queued DESTROY has its ID, and a placeholder or a flag stands for a queued DESTROY. -/
structure Reserved (w : World) : Prop extends Mapped w where
  nodup : ∀ c, (w.queue c).Nodup
  nonzero : ∀ c, 0 ∉ w.queue c
  placeholder : ∀ k, w.owner k = some none → k.2 ∈ w.queue k.1
  queued : ∀ k, k.2 ∈ w.queue k.1 → w.owner k ≠ none
  flag : ∀ r dir s, w.side r dir = some s →
    (s.deletePending = true ↔ ∃ c, s.chan = some c ∧ s.circId ∈ w.queue c)

/-- No circuit's DESTROY is queued. -/
def World.Settled (w : World) : Prop :=
  ∀ r dir s, w.side r dir = some s → s.deletePending = false

variable {w w' : World} {k : Key} {r chan : ℕ} {id : UInt32} {dir : Direction} {s : Side}
  {newChan : Option ℕ}

theorem uses_iff : w.Uses r dir k ↔
    k.2 ≠ 0 ∧ ∃ s, w.side r dir = some s ∧ s.chan = some k.1 ∧ s.circId = k.2 := by
  rw [World.Uses, Option.map_eq_some_iff]
  simp [Side.place]

theorem uses_of_side (hs : w.side r dir = some s) (hc : s.chan = some chan) (hid : s.circId ≠ 0) :
    w.Uses r dir (chan, s.circId) :=
  uses_iff.mpr ⟨hid, s, hs, hc, rfl⟩

theorem uses_congr (hplace : ∀ r dir, (w'.side r dir).map Side.place = (w.side r dir).map Side.place) :
    w'.Uses = w.Uses := by
  funext r dir k
  rw [World.Uses, World.Uses, hplace]

theorem side_place (hplace : (w'.side r dir).map Side.place = (w.side r dir).map Side.place)
    (hs : w'.side r dir = some s) :
    ∃ s₀, w.side r dir = some s₀ ∧ s₀.chan = s.chan ∧ s₀.circId = s.circId := by
  rw [hs, Option.map_some] at hplace
  obtain ⟨s₀, hs₀, heq⟩ := Option.map_eq_some_iff.mp hplace.symm
  exact ⟨s₀, hs₀, (Prod.mk.inj heq).1, (Prod.mk.inj heq).2⟩

/-- The entries of circuits stay right where these and the circuits' places stay. -/
theorem Mapped.of_same (h : Mapped w) (hsound : w'.chanCircidMap.Sound)
    (howner : ∀ r k, w'.owner k = some (some r) ↔ w.owner k = some (some r))
    (hplace : ∀ r dir, (w'.side r dir).map Side.place = (w.side r dir).map Side.place) :
    Mapped w' := by
  have huses := uses_congr hplace
  constructor
  · exact hsound
  · intro r dir k huse
    rw [huses] at huse
    exact (howner r k).mpr (h.mapped r dir k huse)
  · intro r k hk
    rw [huses]
    exact h.owned r k ((howner r k).mp hk)
  · rw [huses]
    exact h.apart
  · intro r dir s hs hnone
    obtain ⟨s₀, hs₀, hchan, hid⟩ := side_place (hplace r dir) hs
    rw [← hid]
    exact h.detached r dir s₀ hs₀ (hchan.trans hnone)

section
variable (h : Reserved w)
include h

/-- Where the owners, the circuits' sides and the queues stay. -/
theorem Reserved.of_same (hsound : w'.chanCircidMap.Sound)
    (howner : w'.owner = w.owner) (hside : w'.side = w.side) (hqueue : w'.queue = w.queue) :
    Reserved w' := by
  refine ⟨h.toMapped.of_same hsound (fun r k => by rw [howner]) (fun r dir => by rw [hside]), ?_, ?_,
    ?_, ?_, ?_⟩
  · rw [hqueue]
    exact h.nodup
  · rw [hqueue]
    exact h.nonzero
  · rw [howner, hqueue]
    exact h.placeholder
  · rw [howner, hqueue]
    exact h.queued
  · rw [hside, hqueue]
    exact h.flag

theorem Reserved.owner_zero (chan : ℕ) : w.owner (chan, 0) = none := by
  cases howner : w.owner (chan, 0) with
  | none => rfl
  | some v =>
    cases v with
    | none => exact absurd (h.placeholder _ howner) (h.nonzero chan)
    | some r =>
      obtain ⟨dir, huse⟩ := h.owned r _ howner
      exact absurd rfl huse.1

theorem Reserved.owner_none_iff (hs : w.side r dir = some s)
    (hc : s.chan = some chan) : w.owner (chan, s.circId) = none ↔ s.circId = 0 := by
  constructor
  · intro hnone
    by_contra hid
    rw [h.mapped r dir _ (uses_of_side hs hc hid)] at hnone
    cases hnone
  · intro hid
    rw [hid]
    exact h.owner_zero chan

theorem Reserved.free (hunused : ∀ r dir, ¬ w.Uses r dir k)
    (hqueue : k.2 ∉ w.queue k.1) : w.owner k = none := by
  cases howner : w.owner k with
  | none => rfl
  | some v =>
    cases v with
    | none => exact absurd (h.placeholder k howner) hqueue
    | some r =>
      obtain ⟨dir, huse⟩ := h.owned r k howner
      exact absurd huse (hunused r dir)

end

/-! ### Attaching and detaching -/

/-- What a side moves to: nothing, or an ID that is free. -/
inductive Target (w : World) : UInt32 → Option ℕ → Prop
  | nothing : Target w 0 none
  | free {id : UInt32} {chan : ℕ} : id ≠ 0 → w.owner (chan, id) = none → Target w id (some chan)

theorem Target.owner_none (htarget : Target w id newChan)
    (hchan : newChan = some k.1) (hid : id = k.2) : w.owner k = none := by
  cases htarget with
  | nothing => cases hchan
  | free _ hfree =>
    cases hchan
    cases hid
    exact hfree

theorem Target.ne_zero (htarget : Target w id newChan) (hchan : newChan = some chan) : id ≠ 0 := by
  cases htarget with
  | nothing => cases hchan
  | free hid _ => exact hid

theorem Reserved.movable (h : Reserved w) (hs : w.side r dir = some s)
    (htarget : Target w id newChan) : Movable w s id newChan := by
  have hdetached : s.chan = none → s.circId = 0 ∧ s.deletePending = false := by
    intro hnone
    refine ⟨h.detached r dir s hs hnone, ?_⟩
    rw [Bool.eq_false_iff]
    intro hflag
    obtain ⟨c, hc, -⟩ := (h.flag r dir s hs).mp hflag
    rw [hnone] at hc
    cases hc
  cases htarget with
  | nothing => exact ⟨nofun, nofun, fun _ => rfl, hdetached⟩
  | free hid hfree =>
    refine ⟨?_, ?_, nofun, hdetached⟩
    · rintro c ⟨⟩
      exact hfree
    · rintro c ⟨⟩ ⟨hchan, rfl⟩
      exact hid ((h.owner_none_iff hs hchan).mp hfree)

/-- What a side's move changes. -/
structure Moved (w w' : World) (r : ℕ) (dir : Direction) (s : Side) (id : UInt32)
    (newChan : Option ℕ) : Prop where
  list : w'.globalCircuitlist = w.globalCircuitlist
  channels : ∀ c, w'.channels c = recounted w dir s newChan c
  circuits : ∀ r, (w'.circuits r).isSome = (w.circuits r).isSome
  side : ∀ r' dir', w'.side r' dir' =
    if r' = r ∧ dir' = dir then some ⟨newChan, id, false⟩ else w.side r' dir'

theorem queue_recounted (c : ℕ) : (recounted w dir s newChan c).destroyQueue = w.queue c := by
  unfold recounted Channel.addCircuit Channel.removeCircuit World.queue
  cases dir <;> (dsimp only; split <;> split <;> rfl)

theorem Moved.queue (h : Moved w w' r dir s id newChan) : w'.queue = w.queue := by
  funext c
  rw [World.queue, h.channels, queue_recounted]

theorem Moved.uses (h : Moved w w' r dir s id newChan) (r' : ℕ) (dir' : Direction) (k : Key) :
    w'.Uses r' dir' k ↔ if r' = r ∧ dir' = dir then k.2 ≠ 0 ∧ newChan = some k.1 ∧ id = k.2
      else w.Uses r' dir' k := by
  rw [World.Uses, h.side]
  split
  · simp [Side.place]
  · rfl

theorem ownerAfter_some (htarget : Target w id newChan) (r' : ℕ) (k : Key) :
    ownerAfter w r s id newChan k = some (some r') ↔
      (newChan = some k.1 ∧ id = k.2 ∧ r' = r) ∨
        w.owner k = some (some r') ∧ ¬ (s.chan = some k.1 ∧ s.circId = k.2) := by
  unfold ownerAfter
  by_cases hnew : newChan = some k.1 ∧ id = k.2
  · rw [if_pos hnew, htarget.owner_none hnew.1 hnew.2]
    constructor
    · rintro ⟨⟩
      exact .inl ⟨hnew.1, hnew.2, rfl⟩
    · rintro (⟨-, -, rfl⟩ | ⟨hnone, -⟩)
      · rfl
      · cases hnone
  · rw [if_neg hnew]
    by_cases hold : s.chan = some k.1 ∧ s.circId = k.2
    · rw [if_pos hold]
      constructor
      · split <;> exact nofun
      · rintro (⟨hchan, hid, -⟩ | ⟨-, hne⟩)
        · exact absurd ⟨hchan, hid⟩ hnew
        · exact absurd hold hne
    · rw [if_neg hold]
      constructor
      · intro howner
        exact .inr ⟨howner, hold⟩
      · rintro (⟨hchan, hid, -⟩ | ⟨howner, -⟩)
        · exact absurd ⟨hchan, hid⟩ hnew
        · exact howner

section
variable (h : Reserved w)
include h

section
variable (hs : w.side r dir = some s)
include hs

/-- A flag becomes a placeholder, and nothing else becomes one. -/
theorem Reserved.ownerAfter_placeholder :
    ownerAfter w r s id newChan k = some none → k.2 ∈ w.queue k.1 := by
  unfold ownerAfter
  split
  · exact nofun
  · split
    case isTrue hold =>
      split
      case isTrue hflag =>
        obtain ⟨c, hc, hmem⟩ := (h.flag r dir s hs).mp hflag
        rw [hold.1] at hc
        cases hc
        rw [← hold.2]
        exact fun _ => hmem
      case isFalse => exact nofun
    case isFalse => exact h.placeholder k

/-- A queued DESTROY keeps its ID through a move. -/
theorem Reserved.ownerAfter_queued (hqueue : k.2 ∈ w.queue k.1) :
    ownerAfter w r s id newChan k ≠ none := by
  unfold ownerAfter
  split
  · exact nofun
  · split
    case isTrue hold =>
      have hflag : s.deletePending = true :=
        (h.flag r dir s hs).mpr ⟨k.1, hold.1, by rw [hold.2]; exact hqueue⟩
      rw [if_pos hflag]
      exact nofun
    case isFalse => exact h.queued k hqueue

theorem Reserved.uses_after
    (hmoved : Moved w w' r dir s id newChan) {r' : ℕ} {dir' : Direction}
    (huse : w'.Uses r' dir' k) : (r' = r ∧ dir' = dir ∧ newChan = some k.1 ∧ id = k.2) ∨
      (¬ (r' = r ∧ dir' = dir) ∧ w.Uses r' dir' k ∧ ¬ (s.chan = some k.1 ∧ s.circId = k.2)) := by
  rw [hmoved.uses] at huse
  split at huse
  case isTrue hself => exact .inl ⟨hself.1, hself.2, huse.2⟩
  case isFalse hne =>
    refine .inr ⟨hne, huse, ?_⟩
    -- Else two sides would have had the same ID.
    rintro ⟨hchan, hid⟩
    have hold : w.Uses r dir k := uses_iff.mpr ⟨huse.1, s, hs, hchan, hid⟩
    have howner := (h.mapped r dir k hold).symm.trans (h.mapped r' dir' k huse)
    cases Option.some.inj howner
    exact hne ⟨rfl, h.apart r dir' dir k huse hold⟩

theorem Reserved.mapped_after
    (htarget : Target w id newChan) (hmoved : Moved w w' r dir s id newChan)
    (hsound : w'.chanCircidMap.Sound)
    (howner : ∀ k, w'.owner k = ownerAfter w r s id newChan k) : Mapped w' := by
  constructor
  · exact hsound
  · intro r' dir' k huse
    rw [howner, ownerAfter_some htarget]
    rcases h.uses_after hs hmoved huse with ⟨hr, -, hchan, hid⟩ | ⟨-, hold, hne⟩
    · exact .inl ⟨hchan, hid, hr⟩
    · exact .inr ⟨h.mapped r' dir' k hold, hne⟩
  · intro r' k hk
    rw [howner, ownerAfter_some htarget] at hk
    rcases hk with ⟨hchan, hid, rfl⟩ | ⟨hk, hne⟩
    · refine ⟨dir, ?_⟩
      rw [hmoved.uses, if_pos ⟨rfl, rfl⟩]
      exact ⟨hid ▸ htarget.ne_zero hchan, hchan, hid⟩
    · obtain ⟨dir', huse⟩ := h.owned r' k hk
      refine ⟨dir', ?_⟩
      rw [hmoved.uses, if_neg]
      · exact huse
      · rintro ⟨rfl, rfl⟩
        obtain ⟨-, s', hs', hchan, hid⟩ := uses_iff.mp huse
        rw [hs] at hs'
        cases hs'
        exact hne ⟨hchan, hid⟩
  · intro r' dir₁ dir₂ k h₁ h₂
    rcases h.uses_after hs hmoved h₁ with ⟨hr₁, hdir₁, hchan, hid⟩ | ⟨hne₁, hold₁, -⟩
    · rcases h.uses_after hs hmoved h₂ with ⟨-, hdir₂, -, -⟩ | ⟨-, hold₂, -⟩
      · rw [hdir₁, hdir₂]
      · -- The new ID was free.
        have howner := h.mapped r' dir₂ k hold₂
        rw [htarget.owner_none hchan hid] at howner
        cases howner
    · rcases h.uses_after hs hmoved h₂ with ⟨hr₂, hdir₂, hchan, hid⟩ | ⟨-, hold₂, -⟩
      · have howner := h.mapped r' dir₁ k hold₁
        rw [htarget.owner_none hchan hid] at howner
        cases howner
      · exact h.apart r' dir₁ dir₂ k hold₁ hold₂
  · intro r' dir' s' hs' hnone
    rw [hmoved.side] at hs'
    split at hs'
    · cases hs'
      cases htarget with
      | nothing => rfl
      | free => cases hnone
    · exact h.detached r' dir' s' hs' hnone

/-- A side moves to a free ID, or is detached. -/
theorem Reserved.set
    (htarget : Target w id newChan) :
    ∃ w', circuitSetCircidChan w r dir id newChan = some w' ∧ Reserved w' ∧
      Moved w w' r dir s id newChan := by
  obtain ⟨t, channels, circuits, hset, hsound, howner, hchannels, hcircuits, hside⟩ :=
    circuitSetCircidChan_eq h.sound hs (h.movable hs htarget)
  have hmoved : Moved w { w with chanCircidMap := t, channels := channels, circuits := circuits }
      r dir s id newChan := ⟨rfl, hchannels, hcircuits, hside⟩
  refine ⟨_, hset, ⟨h.mapped_after hs htarget hmoved hsound howner, ?_, ?_, ?_, ?_, ?_⟩, hmoved⟩
  · rw [hmoved.queue]
    exact h.nodup
  · rw [hmoved.queue]
    exact h.nonzero
  · intro k hk
    rw [hmoved.queue]
    exact h.ownerAfter_placeholder hs ((howner k).symm.trans hk)
  · intro k hk
    rw [hmoved.queue] at hk
    intro hnone
    exact h.ownerAfter_queued hs hk ((howner k).symm.trans hnone)
  · intro r' dir' s' hs'
    rw [hmoved.queue]
    rw [hmoved.side] at hs'
    split at hs'
    · cases hs'
      refine iff_of_false Bool.false_ne_true ?_
      rintro ⟨c, hc, hmem⟩
      exact h.queued (c, id) hmem (htarget.owner_none hc rfl)
    · exact h.flag r' dir' s' hs'

end

end

end CircidMapInvariant

/-! DESTROY cells that are queued, sent and dropped, and what they leave of the map's invariant
(`circuitlist.c`). -/

section CircidMapDestroys
variable {w w' : World} {k : Key} {r chan : ℕ} {id : UInt32} {dir : Direction} {s : Side} {b : Bool}
  {t : Table Key MapEntry}

/-- The flag of the side that has the channel and the ID. -/
def Side.flagged (chan : ℕ) (id : UInt32) (b : Bool) (s : Side) : Side :=
  if s.chan = some chan ∧ s.circId = id then { s with deletePending := b } else s

@[simp] theorem place_flagged : (s.flagged chan id b).place = s.place := by
  unfold Side.flagged
  split <;> rfl

theorem map_place_flagged (o : Option Side) :
    (o.map (Side.flagged chan id b)).map Side.place = o.map Side.place := by
  cases o with
  | none => rfl
  | some s => exact congrArg some place_flagged

/-! ### Flags -/

theorem Mapped.unique (h : Mapped w) {r' : ℕ} {dir' : Direction} (huse : w.Uses r dir k)
    (huse' : w.Uses r' dir' k) : r' = r ∧ dir' = dir := by
  have howner := (h.mapped r' dir' k huse').symm.trans (h.mapped r dir k huse)
  obtain rfl := Option.some.inj (Option.some.inj howner)
  exact ⟨rfl, h.apart r' dir' dir k huse' huse⟩

theorem Mapped.setSide_flagged (h : Mapped w) (hs : w.side r dir = some s)
    (hchan : s.chan = some chan) (hid : s.circId = id) (hne : id ≠ 0) (b : Bool) (r' : ℕ)
    (dir' : Direction) : (w.setSide r dir { s with deletePending := b }).side r' dir' =
      (w.side r' dir').map (Side.flagged chan id b) := by
  have huse : w.Uses r dir (chan, id) := uses_iff.mpr ⟨hne, s, hs, hchan, hid⟩
  rw [side_setSide dir _ (side_isSome hs)]
  split
  case isTrue heq =>
    rw [heq.1, heq.2, hs, Option.map_some, Side.flagged, if_pos ⟨hchan, hid⟩]
  case isFalse hother =>
    cases hs' : w.side r' dir' with
    | none => rfl
    | some s' =>
      rw [Option.map_some, Side.flagged, if_neg]
      rintro ⟨hchan', hid'⟩
      exact hother (h.unique huse (uses_iff.mpr ⟨hne, s', hs', hchan', hid'⟩))

theorem Mapped.flagged_unused (h : Mapped w) (hunused : ∀ r, w.owner (chan, id) ≠ some (some r))
    (hne : id ≠ 0) (b : Bool) (r : ℕ) (dir : Direction) :
    w.side r dir = (w.side r dir).map (Side.flagged chan id b) := by
  cases hs : w.side r dir with
  | none => rfl
  | some s =>
    rw [Option.map_some, Side.flagged, if_neg]
    rintro ⟨hchan, hid⟩
    exact hunused r (h.mapped r dir (chan, id) (uses_iff.mpr ⟨hne, s, hs, hchan, hid⟩))

/-- What noting a DESTROY changes: a flag, or a placeholder. -/
structure Noted (w w' : World) (chan : ℕ) (id : UInt32) (b : Bool) : Prop where
  sound : w'.chanCircidMap.Sound
  list : w'.globalCircuitlist = w.globalCircuitlist
  side : ∀ r dir, w'.side r dir = (w.side r dir).map (Side.flagged chan id b)
  other : ∀ k, k ≠ (chan, id) → w'.owner k = w.owner k
  circuit : ∀ r, w'.owner (chan, id) = some (some r) ↔ w.owner (chan, id) = some (some r)
  placeholder : w'.owner (chan, id) = some none → b = true
  taken : b = true → w'.owner (chan, id) ≠ none

theorem setDeletePending_eq (h : Mapped w) (howner : w.owner (chan, id) = some (some r)) (b : Bool) :
    ∃ w', setDeletePending w r chan id b = some w' ∧ Noted w w' chan id b ∧ w'.channels = w.channels := by
  obtain ⟨dir, huse⟩ := h.owned r _ howner
  obtain ⟨hne, s, hs, hchan, hid⟩ := uses_iff.mp huse
  refine ⟨w.setSide r dir { s with deletePending := b }, ?_, ?_, rfl⟩
  · obtain ⟨c, hc, hside⟩ := Option.bind_eq_some_iff.mp hs
    rw [setDeletePending, hc, Option.bind_some]
    cases dir with
    | out =>
      cases hside
      rw [if_pos ⟨hchan, hid⟩]
    | «in» =>
      have hp : c.p = some s := hside
      have hout : w.side r .out = some c.n := by
        rw [World.side, hc]
        rfl
      rw [if_neg, hp, Option.map_some, if_pos ⟨hchan, hid⟩]
      rintro ⟨hchan', hid'⟩
      exact Direction.noConfusion
        (h.apart r .out .in _ (uses_iff.mpr ⟨hne, c.n, hout, hchan', hid'⟩) huse)
  · refine ⟨h.sound, rfl, h.setSide_flagged hs hchan hid hne b, fun _ _ => rfl,
      fun _ => Iff.rfl, fun hplaceholder => ?_, fun _ hnone => ?_⟩
    · cases howner.symm.trans hplaceholder
    · cases howner.symm.trans hnone

theorem Mapped.noted_placeholder (h : Mapped w) (hne : id ≠ 0)
    (hunused : ∀ r, w.owner (chan, id) ≠ some (some r)) (hsound : t.Sound)
    (howner : ownerOf t = Function.update w.owner (chan, id) (if b then some none else none)) :
    Noted w { w with chanCircidMap := t } chan id b := by
  have hat : ownerOf t (chan, id) = if b then some none else none := by
    rw [howner, Function.update_self]
  refine ⟨hsound, rfl, h.flagged_unused hunused hne b, fun k hk => ?_, fun r => ?_,
    fun hplaceholder => ?_, fun hb => ?_⟩
  · exact (congrFun howner k).trans (Function.update_of_ne hk _ _)
  · refine iff_of_false (fun hr => ?_) (hunused r)
    have hr' := hat.symm.trans hr
    cases b <;> cases hr'
  · have hplaceholder' := hat.symm.trans hplaceholder
    cases b with
    | true => rfl
    | false => cases hplaceholder'
  · intro hnone
    rw [hb, if_pos rfl] at hat
    cases hat.symm.trans hnone

theorem Mapped.withTable (h : Mapped w) (hsound : t.Sound)
    (howner : ownerOf t = w.owner) : Mapped { w with chanCircidMap := t } :=
  h.of_same hsound (fun _ k => iff_of_eq (congrArg (· = _) (congrFun howner k))) fun _ _ => rfl

theorem Noted.of_withTable (howner : ownerOf t = w.owner)
    (h : Noted { w with chanCircidMap := t } w' chan id b) : Noted w w' chan id b :=
  ⟨h.sound, h.list, h.side, fun k hk => (h.other k hk).trans (congrFun howner k),
    fun r => (h.circuit r).trans (iff_of_eq (congrArg (· = _) (congrFun howner _))), h.placeholder,
    h.taken⟩

/-- A DESTROY is queued: a circuit is flagged, or a placeholder made. -/
theorem channelNoteDestroyPending_eq (h : Mapped w) (hne : id ≠ 0)
    (hfree : w.owner (chan, id) ≠ some none) :
    ∃ w', channelNoteDestroyPending w chan id = some w' ∧ Noted w w' chan id true ∧
      w'.channels = w.channels := by
  obtain ⟨t, hget, hsound, hview⟩ := circuitGetEvenIfMarked_eq h.sound id chan
  have h' := h.withTable hsound hview
  rw [channelNoteDestroyPending, hget, Option.bind_some]
  cases howner : w.owner (chan, id) with
  | none =>
    have howner' : ownerOf t (chan, id) = none := (congrFun hview _).trans howner
    obtain ⟨t', hmark, hsound', hview'⟩ :=
      channelMarkCircidUnusable_eq (w := { w with chanCircidMap := t }) hsound howner'
    have hnoted := h'.noted_placeholder (b := true) hne
      (fun r hr => nomatch howner'.symm.trans hr) hsound' hview'
    exact ⟨_, congrArg some hmark, hnoted.of_withTable hview, rfl⟩
  | some v =>
    cases v with
    | none => exact absurd howner hfree
    | some r =>
      obtain ⟨w', hset, hnoted, hchannels⟩ :=
        setDeletePending_eq h' ((congrFun hview (chan, id)).trans howner) true
      exact ⟨w', hset, hnoted.of_withTable hview, hchannels⟩

/-- A DESTROY has left: the flag is cleared, or the placeholder freed. -/
theorem channelNoteDestroyNotPending_eq (chan : ℕ) (h : Mapped w) (hne : id ≠ 0) :
    ∃ w', channelNoteDestroyNotPending w chan id = some w' ∧ Noted w w' chan id false ∧
      w'.channels = w.channels := by
  obtain ⟨t, hget, hsound, hview⟩ := circuitGetEvenIfMarked_eq h.sound id chan
  have h' := h.withTable hsound hview
  rw [channelNoteDestroyNotPending, hget, Option.bind_some]
  cases howner : w.owner (chan, id) with
  | none =>
    have howner' : ownerOf t (chan, id) = none := (congrFun hview _).trans howner
    have hunused : ∀ r, ownerOf t (chan, id) ≠ some (some r) := by simp [howner']
    have hnoted := h'.noted_placeholder (b := false) hne hunused hsound
      (Function.update_eq_self_iff.mpr howner'.symm).symm
    refine ⟨_, congrArg some ?_, hnoted.of_withTable hview, rfl⟩
    rw [channelMarkCircidUsable, (ownerOf_eq_none hsound).mp howner']
  | some v =>
    cases v with
    | none =>
      have howner' : ownerOf t (chan, id) = some none := (congrFun hview _).trans howner
      obtain ⟨t', hmark, hsound', hview'⟩ :=
        channelMarkCircidUsable_eq (w := { w with chanCircidMap := t }) hsound howner'
      have hnoted := h'.noted_placeholder (b := false) hne
        (fun r hr => absurd (howner'.symm.trans hr) (by simp)) hsound' hview'
      exact ⟨_, congrArg some hmark, hnoted.of_withTable hview, rfl⟩
    | some r =>
      obtain ⟨w', hset, hnoted, hchannels⟩ :=
        setDeletePending_eq h' ((congrFun hview (chan, id)).trans howner) false
      exact ⟨w', hset, hnoted.of_withTable hview, hchannels⟩

/-! ### Queues -/

def Channel.numCircuits (c : Channel) : Direction → UInt32
  | .out => c.numNCircuits
  | .in => c.numPCircuits

/-- Circuits stay where they are, and the counts stay. -/
structure Quiet (w w' : World) : Prop where
  list : w'.globalCircuitlist = w.globalCircuitlist
  counts : ∀ c dir, (w'.channels c).numCircuits dir = (w.channels c).numCircuits dir
  place : ∀ r dir, (w'.side r dir).map Side.place = (w.side r dir).map Side.place

theorem Quiet.refl (w : World) : Quiet w w := ⟨rfl, fun _ _ => rfl, fun _ _ => rfl⟩

theorem Quiet.trans {w'' : World} (h : Quiet w w') (h' : Quiet w' w'') : Quiet w w'' :=
  ⟨h'.list.trans h.list, fun c dir => (h'.counts c dir).trans (h.counts c dir),
    fun r dir => (h'.place r dir).trans (h.place r dir)⟩

theorem Noted.quiet (h : Noted w w' chan id b)
    (hcounts : ∀ c dir, (w'.channels c).numCircuits dir = (w.channels c).numCircuits dir) :
    Quiet w w' :=
  ⟨h.list, hcounts, fun r dir => by rw [h.side, map_place_flagged]⟩

/-- One queued DESTROY more or less, with its flag or placeholder. -/
theorem Reserved.requeue (h : Reserved w) (hne : id ≠ 0) (hnoted : Noted w w' chan id b)
    (hnodup : (w'.queue chan).Nodup) (hmem : id ∈ w'.queue chan ↔ b = true)
    (hrest : ∀ i, i ≠ id → (i ∈ w'.queue chan ↔ i ∈ w.queue chan))
    (hqueue : ∀ c, c ≠ chan → w'.queue c = w.queue c) : Reserved w' := by
  have hothers : ∀ k : Key, k ≠ (chan, id) → (k.2 ∈ w'.queue k.1 ↔ k.2 ∈ w.queue k.1) := by
    intro k hk
    by_cases hc : k.1 = chan
    · rw [hc]
      exact hrest k.2 fun hid => hk (Prod.ext hc hid)
    · rw [hqueue k.1 hc]
  have hcircuit : ∀ r k, w'.owner k = some (some r) ↔ w.owner k = some (some r) := by
    intro r k
    by_cases hk : k = (chan, id)
    · rw [hk]
      exact hnoted.circuit r
    · rw [hnoted.other k hk]
  refine ⟨h.toMapped.of_same hnoted.sound hcircuit fun r dir => ?_, fun c => ?_, fun c => ?_,
    fun k hk => ?_, fun k hk => ?_, fun r dir s' hs' => ?_⟩
  · rw [hnoted.side, map_place_flagged]
  · by_cases hc : c = chan
    · rw [hc]
      exact hnodup
    · rw [hqueue c hc]
      exact h.nodup c
  · by_cases hc : c = chan
    · rw [hc, hrest 0 hne.symm]
      exact h.nonzero chan
    · rw [hqueue c hc]
      exact h.nonzero c
  · by_cases hkey : k = (chan, id)
    · rw [hkey] at hk ⊢
      exact hmem.mpr (hnoted.placeholder hk)
    · rw [hothers k hkey]
      exact h.placeholder k ((hnoted.other k hkey).symm.trans hk)
  · by_cases hkey : k = (chan, id)
    · rw [hkey] at hk ⊢
      exact hnoted.taken (hmem.mp hk)
    · rw [hnoted.other k hkey]
      exact h.queued k ((hothers k hkey).mp hk)
  · rw [hnoted.side] at hs'
    obtain ⟨s, hs, rfl⟩ := Option.map_eq_some_iff.mp hs'
    unfold Side.flagged
    split
    case isTrue hkey =>
      rw [hkey.1, hkey.2]
      constructor
      · intro hb
        exact ⟨chan, rfl, hmem.mpr hb⟩
      · rintro ⟨c, ⟨⟩, hin⟩
        exact hmem.mp hin
    case isFalse hkey =>
      rw [h.flag r dir s hs]
      have hiff : ∀ c, s.chan = some c → (s.circId ∈ w'.queue c ↔ s.circId ∈ w.queue c) := by
        intro c hc
        apply hothers (c, s.circId)
        rintro ⟨⟩
        exact hkey ⟨hc, rfl⟩
      constructor
      · rintro ⟨c, hc, hin⟩
        exact ⟨c, hc, (hiff c hc).mpr hin⟩
      · rintro ⟨c, hc, hin⟩
        exact ⟨c, hc, (hiff c hc).mp hin⟩

theorem queue_modifyChannel (w : World) (chan : ℕ) (f : Channel → Channel) (c : ℕ) :
    (w.modifyChannel chan f).queue c =
      if c = chan then (f (w.channels chan)).destroyQueue else w.queue c := by
  rw [World.queue, channels_modifyChannel]
  split <;> rfl

theorem counts_modifyChannel (w : World) (chan : ℕ) {f : Channel → Channel}
    (hf : ∀ c dir, (f c).numCircuits dir = c.numCircuits dir) (c : ℕ) (dir : Direction) :
    ((w.modifyChannel chan f).channels c).numCircuits dir = (w.channels c).numCircuits dir := by
  rw [channels_modifyChannel]
  split
  case isTrue hc => rw [hf, hc]
  case isFalse => rfl

theorem numCircuits_setQueue (q : List UInt32) (c : Channel) (dir : Direction) :
    ({ c with destroyQueue := q } : Channel).numCircuits dir = c.numCircuits dir := by
  cases dir <;> rfl

theorem Reserved.destroyCellLeaves (h : Reserved w) (chan : ℕ) :
    ∃ w', destroyCellLeaves w chan = some w' ∧ Reserved w' ∧ Quiet w w' ∧
      ∀ c i, i ∈ w'.queue c → i ∈ w.queue c := by
  unfold CircuitList.destroyCellLeaves
  cases hq : (w.channels chan).destroyQueue with
  | nil => exact ⟨w, rfl, h, .refl w, fun _ _ hin => hin⟩
  | cons id rest =>
    have hqueue : w.queue chan = id :: rest := hq
    have hnodup := h.nodup chan
    rw [hqueue, List.nodup_cons] at hnodup
    have hne : id ≠ 0 := by
      rintro rfl
      apply h.nonzero chan
      rw [hqueue]
      exact List.mem_cons_self
    have hpopped : Mapped (w.modifyChannel chan fun c => { c with destroyQueue := rest }) :=
      h.toMapped.of_same h.sound (fun _ _ => Iff.rfl) fun _ _ => rfl
    obtain ⟨w', hnote, hnoted, hchannels⟩ := channelNoteDestroyNotPending_eq chan hpopped hne
    have hnoted' : Noted w w' chan id false := ⟨hnoted.sound, hnoted.list, hnoted.side, hnoted.other,
      hnoted.circuit, hnoted.placeholder, hnoted.taken⟩
    have hqueue' : ∀ c, w'.queue c = if c = chan then rest else w.queue c := by
      intro c
      rw [World.queue, hchannels]
      exact queue_modifyChannel w chan _ c
    have hat : w'.queue chan = rest := (hqueue' chan).trans (if_pos rfl)
    refine ⟨w', hnote, h.requeue hne hnoted' ?_ ?_ ?_ ?_, hnoted'.quiet ?_, ?_⟩
    · rw [hat]
      exact hnodup.2
    · rw [hat]
      exact iff_of_false hnodup.1 Bool.false_ne_true
    · intro i hi
      rw [hat, hqueue, List.mem_cons]
      exact (or_iff_right hi).symm
    · intro c hc
      rw [hqueue', if_neg hc]
    · rw [hchannels]
      exact counts_modifyChannel w chan fun c dir => numCircuits_setQueue rest c dir
    · intro c i hi
      rw [hqueue'] at hi
      split at hi
      case isTrue hc =>
        rw [hc, hqueue]
        exact List.mem_cons_of_mem id hi
      case isFalse => exact hi

theorem Reserved.channelSendDestroy (h : Reserved w) (hunqueued : id ∉ w.queue chan) (leaves : Bool) :
    ∃ w', channelSendDestroy w id chan leaves = some w' ∧ Reserved w' ∧ Quiet w w' ∧
      ∀ c i, i ∈ w'.queue c → i ∈ w.queue c ∨ (id ≠ 0 ∧ (c, i) = (chan, id)) := by
  unfold CircuitList.channelSendDestroy
  by_cases hne : id = 0
  · rw [if_pos hne]
    exact ⟨w, rfl, h, .refl w, fun _ _ hin => .inl hin⟩
  rw [if_neg hne]
  by_cases hcondemned : (w.channels chan).condemned = true
  · rw [if_pos hcondemned]
    exact ⟨w, rfl, h, .refl w, fun _ _ hin => .inl hin⟩
  rw [if_neg hcondemned]
  obtain ⟨w₁, hnote, hnoted, hchannels⟩ :=
    channelNoteDestroyPending_eq h.toMapped hne fun howner => hunqueued (h.placeholder _ howner)
  rw [hnote, Option.bind_some]
  let w₂ := w₁.modifyChannel chan fun c => { c with destroyQueue := c.destroyQueue ++ [id] }
  have hnoted' : Noted w w₂ chan id true := ⟨hnoted.sound, hnoted.list, hnoted.side, hnoted.other,
    hnoted.circuit, hnoted.placeholder, hnoted.taken⟩
  have hqueue : ∀ c, w₂.queue c = if c = chan then w.queue chan ++ [id] else w.queue c := by
    intro c
    refine (queue_modifyChannel w₁ chan _ c).trans ?_
    simp [World.queue, hchannels]
  have hat : w₂.queue chan = w.queue chan ++ [id] := (hqueue chan).trans (if_pos rfl)
  have hreserved : Reserved w₂ := by
    apply h.requeue hne hnoted'
    · rw [hat, List.nodup_append]
      refine ⟨h.nodup chan, List.pairwise_singleton _ id, fun i hi j hj heq => ?_⟩
      rw [heq, List.mem_singleton.mp hj] at hi
      exact hunqueued hi
    · rw [hat]
      exact iff_of_true (List.mem_append_right _ (List.mem_singleton_self id)) rfl
    · intro i hi
      rw [hat, List.mem_append, List.mem_singleton]
      exact or_iff_left hi
    · intro c hc
      rw [hqueue, if_neg hc]
  have hquiet : Quiet w w₂ := by
    apply hnoted'.quiet
    intro c dir
    refine (counts_modifyChannel w₁ chan (fun c dir => numCircuits_setQueue _ c dir) c dir).trans ?_
    rw [hchannels]
  have hsub : ∀ c i, i ∈ w₂.queue c → i ∈ w.queue c ∨ (id ≠ 0 ∧ (c, i) = (chan, id)) := by
    intro c i hi
    rw [hqueue] at hi
    split at hi
    case isTrue hc =>
      rcases List.mem_append.mp hi with hold | hnew
      · rw [hc]
        exact .inl hold
      · rw [hc, List.mem_singleton.mp hnew]
        exact .inr ⟨hne, rfl⟩
    case isFalse => exact .inl hi
  cases leaves with
  | false => exact ⟨w₂, rfl, hreserved, hquiet, hsub⟩
  | true =>
    obtain ⟨w₃, hleaves, hreserved', hquiet', hsub'⟩ := hreserved.destroyCellLeaves chan
    exact ⟨w₃, hleaves, hreserved', hquiet.trans hquiet', fun c i hi => hsub c i (hsub' c i hi)⟩

/-! ### Nothing is flagged -/

theorem Reserved.flag_false_iff (h : Reserved w) (hs : w.side r dir = some s) :
    s.deletePending = false ↔ ∀ c, s.chan = some c → s.circId ∉ w.queue c := by
  rw [← Bool.not_eq_true, h.flag r dir s hs]
  simp

theorem Reserved.flagged_after (h : Reserved w) (hsettled : w.Settled) (h' : Reserved w')
    (hquiet : Quiet w w')
    (hsub : ∀ c i, i ∈ w'.queue c → i ∈ w.queue c ∨ (id ≠ 0 ∧ (c, i) = (chan, id)))
    (hs : w'.side r dir = some s) (hflag : s.deletePending = true) : w.Uses r dir (chan, id) := by
  obtain ⟨c, hc, hin⟩ := (h'.flag r dir s hs).mp hflag
  obtain ⟨s₀, hs₀, hchan, hid⟩ := side_place (hquiet.place r dir) hs
  rcases hsub c _ hin with hold | ⟨hne, heq⟩
  · rw [← hid] at hold
    exact absurd hold ((h.flag_false_iff hs₀).mp (hsettled r dir s₀ hs₀) c (hchan.trans hc))
  · cases heq
    exact uses_iff.mpr ⟨hne, s₀, hs₀, hchan.trans hc, hid⟩

end CircidMapDestroys

end TorDaemon.CircuitList

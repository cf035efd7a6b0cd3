import Mathlib.Algebra.Group.Nat.Defs
import Mathlib.Data.List.Nodup
import Mathlib.Data.List.Perm.Subperm
import TorDaemon.CircuitList.CircidMapInvariant

/-! The counts of a channel's circuits against the circuits that are there (`circuitlist.c`). -/
namespace TorDaemon.CircuitList
open Library.CachedTable

section CircidMapCounts
variable {w w' : World} {r chan : ℕ} {id : UInt32} {dir : Direction} {s : Side} {l : List ℕ}

/-- A circuit is on the channel. -/
def World.On (w : World) (dir : Direction) (chan r : ℕ) : Prop := ∃ id, w.Uses r dir (chan, id)

/-- The numbers of circuits, as words. -/
def Counted (w : World) : Prop :=
  ∀ dir chan, ∃ l : List ℕ, l.Nodup ∧ (∀ r, r ∈ l ↔ w.On dir chan r) ∧
    (w.channels chan).numCircuits dir = UInt32.ofNat l.length

/-- The circuits of the global list that are on the channel. -/
def World.users (w : World) (dir : Direction) (chan : ℕ) : ℕ :=
  w.globalCircuitlist.countP fun r =>
    (w.side r dir).any fun s => decide (s.chan = some chan ∧ s.circId ≠ 0)

theorem on_iff : w.On dir chan r ↔ ∃ s, w.side r dir = some s ∧ s.chan = some chan ∧ s.circId ≠ 0 := by
  constructor
  · rintro ⟨id, huse⟩
    obtain ⟨hne, s, hs, hc, hid⟩ := uses_iff.mp huse
    exact ⟨s, hs, hc, by rw [hid]; exact hne⟩
  · rintro ⟨s, hs, hc, hne⟩
    exact ⟨s.circId, uses_of_side hs hc hne⟩

theorem Counted.of_quiet (h : Counted w) (hquiet : Quiet w w') : Counted w' := by
  intro dir chan
  obtain ⟨l, hnodup, hmem, hcount⟩ := h dir chan
  refine ⟨l, hnodup, fun r => ?_, (hquiet.counts chan dir).trans hcount⟩
  rw [hmem, World.On, World.On, uses_congr hquiet.place]

/-! ### Counting up and down -/

section
variable (c : Channel)

theorem numCircuits_removeCircuit (dir dir' : Direction) : (c.removeCircuit dir).numCircuits dir' =
    if dir' = dir then c.numCircuits dir' - 1 else c.numCircuits dir' := by
  cases dir <;> cases dir' <;> rfl

theorem numCircuits_addCircuit (dir dir' : Direction) : (c.addCircuit dir).numCircuits dir' =
    if dir' = dir then c.numCircuits dir' + 1 else c.numCircuits dir' := by
  cases dir <;> cases dir' <;> rfl

end

theorem ofNat_length_erase (h : r ∈ l) :
    UInt32.ofNat (l.erase r).length = UInt32.ofNat l.length - 1 := by
  obtain ⟨n, hn⟩ := Nat.exists_eq_succ_of_ne_zero (List.length_pos_of_mem h).ne'
  rw [List.length_erase_of_mem h, hn, Nat.succ_sub_one, Nat.succ_eq_add_one, UInt32.ofNat_add]
  exact (UInt32.add_sub_cancel _ _).symm

theorem Reserved.counted_left (h : Reserved w) (hcounted : Counted w) (hs : w.side r dir = some s)
    (chan : ℕ) : ∃ l : List ℕ, l.Nodup ∧ (∀ r', r' ∈ l ↔ r' ≠ r ∧ w.On dir chan r') ∧
      (if s.chan = some chan ∧ w.owner (chan, s.circId) ≠ none then
        (w.channels chan).removeCircuit dir else w.channels chan).numCircuits dir =
          UInt32.ofNat l.length := by
  obtain ⟨l, hnodup, hmem, hcount⟩ := hcounted dir chan
  have hiff : (s.chan = some chan ∧ w.owner (chan, s.circId) ≠ none) ↔ r ∈ l := by
    rw [hmem, on_iff]
    constructor
    · rintro ⟨hc, howner⟩
      exact ⟨s, hs, hc, fun hid => howner ((h.owner_none_iff hs hc).mpr hid)⟩
    · rintro ⟨s', hs', hc, hid⟩
      rw [hs] at hs'
      cases hs'
      exact ⟨hc, fun howner => hid ((h.owner_none_iff hs hc).mp howner)⟩
  refine ⟨l.erase r, hnodup.erase r, fun r' => ?_, ?_⟩
  · rw [hnodup.mem_erase_iff, hmem]
  · by_cases hin : r ∈ l
    · rw [if_pos (hiff.mpr hin), numCircuits_removeCircuit, if_pos rfl, hcount,
        ofNat_length_erase hin]
    · rw [if_neg (mt hiff.mp hin), hcount, List.erase_of_not_mem hin]

theorem Reserved.counted_moved (h : Reserved w) (hcounted : Counted w) {newChan : Option ℕ}
    (hs : w.side r dir = some s) (htarget : Target w id newChan)
    (hmoved : Moved w w' r dir s id newChan) : Counted w' := by
  intro dir' chan
  rw [hmoved.channels]
  by_cases hdir : dir' = dir
  · rw [hdir]
    obtain ⟨l, hnodup, hmem, hcount⟩ := h.counted_left hcounted hs chan
    have hon : ∀ r', w'.On dir chan r' ↔ if r' = r then newChan = some chan else w.On dir chan r' := by
      intro r'
      simp only [World.On, hmoved.uses, and_true]
      split
      · constructor
        · rintro ⟨i, -, hnew, -⟩
          exact hnew
        · intro hnew
          exact ⟨id, htarget.ne_zero hnew, hnew, rfl⟩
      · rfl
    unfold recounted
    by_cases hnew : newChan = some chan
    · refine ⟨r :: l, List.nodup_cons.mpr ⟨fun hr => ((hmem r).mp hr).1 rfl, hnodup⟩, fun r' => ?_, ?_⟩
      · rw [List.mem_cons, hmem, hon]
        by_cases hr : r' = r
        · rw [if_pos hr]
          exact iff_of_true (.inl hr) hnew
        · rw [if_neg hr, or_iff_right hr, and_iff_right hr]
      · dsimp only
        rw [if_pos hnew, numCircuits_addCircuit, if_pos rfl, hcount, List.length_cons,
          UInt32.ofNat_add]
        rfl
    · refine ⟨l, hnodup, fun r' => ?_, ?_⟩
      · rw [hmem, hon]
        by_cases hr : r' = r
        · rw [if_pos hr]
          exact iff_of_false (fun hin => hin.1 hr) hnew
        · rw [if_neg hr, and_iff_right hr]
      · dsimp only
        rw [if_neg hnew, hcount]
  · obtain ⟨l, hnodup, hmem, hcount⟩ := hcounted dir' chan
    refine ⟨l, hnodup, fun r' => ?_, ?_⟩
    · rw [hmem]
      simp only [World.On, hmoved.uses, if_neg fun heq : r' = r ∧ dir' = dir => hdir heq.2]
    · rw [← hcount]
      unfold recounted
      split <;> split <;> simp [numCircuits_addCircuit, numCircuits_removeCircuit, hdir]

/-! ### The words are the numbers -/

theorem length_lt_of_nodup {n : ℕ} (hnodup : l.Nodup) (h : ∀ i ∈ l, i ≠ 0 ∧ i < n)
    (hn : 0 < n) : l.length < n := by
  have hcons : (0 :: l).Nodup := List.nodup_cons.mpr ⟨fun hzero => (h 0 hzero).1 rfl, hnodup⟩
  have hsub : (0 :: l) ⊆ List.range n := by
    intro i hi
    rw [List.mem_range]
    rcases List.mem_cons.mp hi with rfl | hin
    · exact hn
    · exact (h i hin).2
  have hle := (hcons.subperm hsub).length_le
  rw [List.length_range, List.length_cons] at hle
  exact hle

/-- No channel has as many circuits as there are IDs. -/
theorem Mapped.length_lt (h : Mapped w) (hnodup : l.Nodup)
    (hon : ∀ r ∈ l, w.On dir chan r) : l.length < 2 ^ 32 := by
  have hids : ∀ r ∈ l, ∃ s, w.side r dir = some s ∧ s.chan = some chan ∧ s.circId ≠ 0 :=
    fun r hr => on_iff.mp (hon r hr)
  let f : ℕ → ℕ := fun r => ((w.side r dir).map fun s => s.circId.toNat).getD 0
  have hf : ∀ r ∈ l, w.Uses r dir (chan, UInt32.ofNat (f r)) ∧ f r ≠ 0 ∧ f r < 2 ^ 32 := by
    intro r hr
    obtain ⟨s, hs, hc, hne⟩ := hids r hr
    have hfr : f r = s.circId.toNat := by simp [f, hs]
    rw [hfr, UInt32.ofNat_toNat]
    refine ⟨uses_of_side hs hc hne, fun hzero => hne ?_, s.circId.toNat_lt⟩
    exact UInt32.toNat_inj.mp hzero
  have hinj : (l.map f).Nodup := by
    apply List.Nodup.map_on _ hnodup
    intro r hr r' hr' heq
    have huse := (hf r hr).1
    rw [heq] at huse
    exact (h.unique huse (hf r' hr').1).1.symm
  have hlt : (l.map f).length < 2 ^ 32 := by
    apply length_lt_of_nodup hinj _ (Nat.two_pow_pos 32)
    intro i hi
    obtain ⟨r, hr, rfl⟩ := List.mem_map.mp hi
    exact (hf r hr).2
  rw [List.length_map] at hlt
  exact hlt

/-- Every circuit is listed, once. -/
structure Listed (w : World) : Prop where
  nodup : w.globalCircuitlist.Nodup
  mem : ∀ r, r ∈ w.globalCircuitlist ↔ (w.circuits r).isSome

theorem Counted.toNat_eq (h : Counted w) (hmapped : Mapped w) (hlisted : Listed w) (dir : Direction)
    (chan : ℕ) : ((w.channels chan).numCircuits dir).toNat = w.users dir chan := by
  obtain ⟨l, hnodup, hmem, hcount⟩ := h dir chan
  have hlt := hmapped.length_lt hnodup fun r hr => (hmem r).mp hr
  rw [hcount, UInt32.toNat_ofNat', Nat.mod_eq_of_lt hlt, World.users, List.countP_eq_length_filter]
  apply List.Perm.length_eq
  rw [List.perm_ext_iff_of_nodup hnodup (hlisted.nodup.filter _)]
  intro r
  rw [hmem, on_iff, List.mem_filter, hlisted.mem, Option.any_eq_true]
  simp only [decide_eq_true_eq]
  constructor
  · rintro ⟨s, hs, hcond⟩
    exact ⟨side_isSome hs, s, hs, hcond⟩
  · rintro ⟨-, s, hs, hcond⟩
    exact ⟨s, hs, hcond⟩

end CircidMapCounts

/-! What circuits and channels that come and go leave of the map of circuit IDs (`circuitlist.c`,
`circuitbuild.c`). -/

section CircidMapSteps
variable {w w' : World} {k : Key} {r chan : ℕ} {id : UInt32} {dir : Direction} {s : Side}

/-- Between the events, no circuit is flagged: it was detached where its DESTROY was queued. -/
structure Steady (w : World) : Prop extends Reserved w where
  settled : w.Settled

/-- What a call keeps that makes and frees no circuits. -/
structure Kept (w w' : World) : Prop where
  steady : Steady w'
  counted : Counted w → Counted w'
  list : w'.globalCircuitlist = w.globalCircuitlist
  circuits : ∀ r, (w'.circuits r).isSome = (w.circuits r).isSome

theorem Kept.refl (h : Steady w) : Kept w w := ⟨h, id, rfl, fun _ => rfl⟩

theorem Kept.trans {w'' : World} (h : Kept w w') (h' : Kept w' w'') : Kept w w'' :=
  ⟨h'.steady, fun hc => h'.counted (h.counted hc), h'.list.trans h.list,
    fun r => (h'.circuits r).trans (h.circuits r)⟩

theorem Kept.listed (h : Kept w w') (hlisted : Listed w) : Listed w' := by
  refine ⟨h.list ▸ hlisted.nodup, fun r => ?_⟩
  rw [h.list, hlisted.mem, h.circuits]

theorem side_out_isSome (w : World) (r : ℕ) : (w.side r .out).isSome = (w.circuits r).isSome := by
  unfold World.side
  cases w.circuits r <;> rfl

theorem Quiet.circuits (h : Quiet w w') (r : ℕ) :
    (w'.circuits r).isSome = (w.circuits r).isSome := by
  rw [← side_out_isSome, ← side_out_isSome, ← Option.isSome_map (f := Side.place), h.place,
    Option.isSome_map]

theorem Steady.of_same (h : Steady w) (hsound : w'.chanCircidMap.Sound)
    (howner : w'.owner = w.owner) (hside : w'.side = w.side) (hqueue : w'.queue = w.queue) :
    Steady w' :=
  ⟨h.toReserved.of_same hsound howner hside hqueue, fun r dir s hs =>
    h.settled r dir s (by rw [← hside]; exact hs)⟩

/-- A lookup moves the cache only. -/
theorem Steady.withTable (h : Steady w) {t : Table Key MapEntry} (hsound : t.Sound)
    (howner : ownerOf t = w.owner) : Kept w { w with chanCircidMap := t } :=
  ⟨h.of_same hsound howner rfl rfl, id, rfl, fun _ => rfl⟩

/-! ### Attaching and detaching -/

theorem Moved.settled {newChan : Option ℕ} (h : Moved w w' r dir s id newChan)
    (honly : ∀ r' dir' s', w.side r' dir' = some s' → s'.deletePending = true → r' = r ∧ dir' = dir) :
    w'.Settled := by
  intro r' dir' s' hs'
  rw [h.side] at hs'
  split at hs'
  case isTrue =>
    cases hs'
    rfl
  case isFalse hne =>
    rw [Bool.eq_false_iff]
    intro hflag
    exact hne (honly r' dir' s' hs' hflag)

section
variable (h : Steady w)
include h

section
variable (hs : w.side r dir = some s)
include hs

theorem Steady.set {newChan : Option ℕ} (htarget : Target w id newChan) :
    ∃ w', circuitSetCircidChan w r dir id newChan = some w' ∧ Kept w w' ∧
      Moved w w' r dir s id newChan := by
  obtain ⟨w', hset, hreserved, hmoved⟩ := h.toReserved.set hs htarget
  have hsettled : w'.Settled := by
    apply hmoved.settled
    intro r' dir' s' hs' hflag
    rw [h.settled r' dir' s' hs'] at hflag
    cases hflag
  exact ⟨w', hset, ⟨⟨hreserved, hsettled⟩, fun hc => h.counted_moved hc hs htarget hmoved,
    hmoved.list, hmoved.circuits⟩, hmoved⟩

theorem Steady.detach :
    ∃ w', circuitSetCircidChan w r dir 0 none = some w' ∧ Kept w w' ∧ Moved w w' r dir s 0 none :=
  h.set hs .nothing

theorem Steady.sendAndDetach (hc : s.chan = some chan) (leaves : Bool) :
    ∃ w', ((channelSendDestroy w s.circId chan leaves).bind fun w =>
      circuitSetCircidChan w r dir 0 none) = some w' ∧ Kept w w' := by
  have hunqueued : s.circId ∉ w.queue chan :=
    (h.toReserved.flag_false_iff hs).mp (h.settled r dir s hs) chan hc
  obtain ⟨w₁, hsend, hreserved, hquiet, hsub⟩ := h.toReserved.channelSendDestroy hunqueued leaves
  have hplace := hquiet.place r dir
  rw [hs, Option.map_some] at hplace
  obtain ⟨s₁, hs₁, -⟩ := Option.map_eq_some_iff.mp hplace
  obtain ⟨w₂, hset, hreserved', hmoved⟩ := hreserved.set hs₁ .nothing
  have hsettled : w₂.Settled := by
    apply hmoved.settled
    intro r' dir' s' hs' hflag
    have huse' := h.toReserved.flagged_after h.settled hreserved hquiet hsub hs' hflag
    exact h.unique (uses_of_side hs hc huse'.1) huse'
  refine ⟨w₂, ?_, ⟨hreserved', hsettled⟩, fun hcounted => ?_, hmoved.list.trans hquiet.list,
    fun r' => (hmoved.circuits r').trans (hquiet.circuits r')⟩
  · rw [hsend, Option.bind_some, hset]
  · exact hreserved.counted_moved (hcounted.of_quiet hquiet) hs₁ .nothing hmoved

theorem Steady.leaveChannel (leaves : Bool) :
    ∃ w', leaveChannel w r dir leaves = some w' ∧ Kept w w' := by
  rw [CircuitList.leaveChannel, hs, Option.bind_some]
  cases hc : s.chan with
  | none => exact ⟨w, rfl, .refl h⟩
  | some chan =>
    dsimp only
    by_cases hcondemned : (w.channels chan).condemned = true
    · rw [if_pos hcondemned, Option.bind_some]
      obtain ⟨w', hset, hkept, -⟩ := h.detach hs
      exact ⟨w', hset, hkept⟩
    · rw [if_neg hcondemned]
      exact h.sendAndDetach hs hc leaves

end

theorem Steady.truncate (hs : w.side r .out = some s) (leaves : Bool) :
    ∃ w', truncate w r leaves = some w' ∧ Kept w w' := by
  rw [CircuitList.truncate, hs, Option.bind_some]
  cases hc : s.chan with
  | none => exact ⟨w, rfl, .refl h⟩
  | some chan => exact h.sendAndDetach hs hc leaves

theorem Steady.circuitAboutToFree (hr : (w.circuits r).isSome) (leavesN leavesP : Bool) :
    ∃ w', circuitAboutToFree w r leavesN leavesP = some w' ∧ Kept w w' := by
  rw [← side_out_isSome] at hr
  obtain ⟨s, hs⟩ := Option.isSome_iff_exists.mp hr
  obtain ⟨w₁, hleave, hkept⟩ := h.leaveChannel hs leavesN
  rw [CircuitList.circuitAboutToFree, hleave, Option.bind_some]
  cases hp : w₁.side r .in with
  | none => exact ⟨w₁, rfl, hkept⟩
  | some p =>
    obtain ⟨w₂, hleave', hkept'⟩ := hkept.steady.leaveChannel hp leavesP
    exact ⟨w₂, hleave', hkept.trans hkept'⟩

end

/-! ### Circuits that come and go -/

theorem side_update (w : World) (r : ℕ) (c : Option Circuit) (r' : ℕ) (dir : Direction) :
    World.side { w with circuits := Function.update w.circuits r c } r' dir =
      if r' = r then c.bind fun c => c.side dir else w.side r' dir := by
  simp only [World.side, Function.update_apply]
  split <;> rfl

/-- Circuits are made, changed or freed where they have no ID. -/
structure Replaced (w w' : World) : Prop where
  steady : Steady w'
  counted : Counted w → Counted w'

theorem Steady.of_unused (h : Steady w) {circuits : ℕ → Option Circuit}
    (huses : World.Uses { w with circuits := circuits } = w.Uses)
    (hsides : ∀ r dir s, World.side { w with circuits := circuits } r dir = some s →
      s.circId = 0 ∧ s.deletePending = false ∨ w.side r dir = some s) :
    Replaced w { w with circuits := circuits } := by
  refine ⟨⟨⟨⟨h.sound, ?_, ?_, ?_, ?_⟩, h.nodup, h.nonzero, h.placeholder, h.queued, ?_⟩, ?_⟩, ?_⟩
  · rw [huses]
    exact h.mapped
  · rw [huses]
    exact h.owned
  · rw [huses]
    exact h.apart
  · intro r dir s hs hnone
    rcases hsides r dir s hs with ⟨hid, -⟩ | hs
    · exact hid
    · exact h.detached r dir s hs hnone
  · intro r dir s hs
    rcases hsides r dir s hs with ⟨hid, hflag⟩ | hs
    · rw [hid, hflag]
      exact iff_of_false Bool.false_ne_true fun ⟨c, _, hin⟩ => h.nonzero c hin
    · exact h.flag r dir s hs
  · intro r dir s hs
    rcases hsides r dir s hs with ⟨-, hflag⟩ | hs
    · exact hflag
    · exact h.settled r dir s hs
  · intro hcounted dir chan
    obtain ⟨l, hnodup, hmem, hcount⟩ := hcounted dir chan
    refine ⟨l, hnodup, fun r => ?_, hcount⟩
    rw [hmem, World.On, World.On, huses]

theorem Steady.replace (h : Steady w) {c : Option Circuit} (hold : ∀ dir k, ¬ w.Uses r dir k)
    (hnew : ∀ dir s, (c.bind fun c => c.side dir) = some s → s = ⟨none, 0, false⟩) :
    Replaced w { w with circuits := Function.update w.circuits r c } := by
  apply h.of_unused
  · funext r' dir k
    rw [World.Uses, side_update]
    split
    case isTrue hr =>
      rw [hr]
      refine propext (iff_of_false ?_ (hold dir k))
      rintro ⟨-, hplace⟩
      obtain ⟨s, hs, heq⟩ := Option.map_eq_some_iff.mp hplace
      rw [hnew dir s hs] at heq
      cases (Prod.mk.inj heq).1
    case isFalse => rfl
  · intro r' dir s hs
    rw [side_update] at hs
    split at hs
    · rw [hnew dir s hs]
      exact .inl ⟨rfl, rfl⟩
    · exact .inr hs

theorem Steady.assign (h : Steady w) (hs : w.side r dir = some s) (hid : s.circId = 0) (chan : ℕ) :
    Replaced w (w.setSide r dir { s with chan := some chan }) := by
  have hside := side_setSide dir { s with chan := some chan } (side_isSome hs)
  apply h.of_unused
  · funext r' dir' k
    refine propext ?_
    apply and_congr_right
    intro hne
    refine (congrArg (Option.map Side.place · = _) (hside r' dir')).to_iff.trans ?_
    split
    case isTrue hr =>
      -- Its ID is 0 before and after.
      rw [hr.1, hr.2, hs]
      refine iff_of_false (fun heq => hne ?_) (fun heq => hne ?_)
      · exact (Prod.mk.inj (Option.some.inj heq)).2.symm.trans hid
      · exact (Prod.mk.inj (Option.some.inj heq)).2.symm.trans hid
    case isFalse => rfl
  · intro r' dir' s' hs'
    have hs' := (hside r' dir').symm.trans hs'
    split at hs'
    · cases hs'
      exact .inl ⟨hid, h.settled r dir s hs⟩
    · exact .inr hs'

theorem not_uses_of_free (hfree : w.circuits r = none) (dir : Direction) (k : Key) :
    ¬ w.Uses r dir k := by
  rintro ⟨-, hplace⟩
  rw [World.side, hfree] at hplace
  cases hplace

theorem Steady.newCircuit (h : Steady w) (hfree : w.circuits r = none) {p : Option Side}
    (hp : ∀ s ∈ p, s = ⟨none, 0, false⟩) : Replaced w (newCircuit w r p) := by
  apply h.replace (not_uses_of_free hfree)
  intro dir s hs
  cases dir with
  | out => exact (Option.some.inj hs).symm
  | «in» => exact hp s hs

theorem side_mark (w : World) (r : ℕ) : (circuitMarkForClose w r).side = w.side := by
  funext r' dir
  refine (side_update w r _ r' dir).trans ?_
  split
  case isTrue hr =>
    rw [hr, World.side]
    cases w.circuits r <;> cases dir <;> rfl
  case isFalse => rfl

theorem circuits_mark (w : World) (r r' : ℕ) :
    ((circuitMarkForClose w r).circuits r').isSome = (w.circuits r').isSome := by
  by_cases hr : r' = r
  · simp [circuitMarkForClose, hr]
  · simp [circuitMarkForClose, hr]

theorem Steady.mark (h : Steady w) (r : ℕ) : Kept w (circuitMarkForClose w r) :=
  ⟨h.of_same h.sound rfl (side_mark w r) rfl, fun hc => hc.of_quiet
    ⟨rfl, fun _ _ => rfl, fun r' dir => by rw [side_mark]⟩, rfl, circuits_mark w r⟩

theorem Steady.withList (h : Steady w) (l : List ℕ) : Steady { w with globalCircuitlist := l } :=
  h.of_same h.sound rfl rfl rfl

/-- `circuit_free_`, whatever the circuit's channels are. -/
theorem Steady.circuitFree (h : Steady w) (hr : (w.circuits r).isSome) :
    ∃ w', circuitFree w r = some w' ∧ Steady w' ∧ (Counted w → Counted w') ∧
      w'.globalCircuitlist = w.globalCircuitlist.erase r ∧
      ∀ r', (w'.circuits r').isSome = (decide (r' ≠ r) && (w.circuits r').isSome) := by
  have hin : ∃ w₁, (if (w.side r .in).isSome then circuitSetPCircidChan w r 0 none else some w) =
      some w₁ ∧ Kept w w₁ ∧ ∀ s, w₁.side r .in = some s → s = ⟨none, 0, false⟩ := by
    cases hs : w.side r .in with
    | none => exact ⟨w, rfl, .refl h, fun s hs' => nomatch hs.symm.trans hs'⟩
    | some s =>
      obtain ⟨w₁, hset, hkept, hmoved⟩ := h.detach hs
      refine ⟨w₁, hset, hkept, fun s' hs' => ?_⟩
      rw [hmoved.side, if_pos ⟨rfl, rfl⟩] at hs'
      exact (Option.some.inj hs').symm
  obtain ⟨w₁, hset₁, hkept, hp⟩ := hin
  have hr₁ := (hkept.circuits r).trans hr
  rw [← side_out_isSome] at hr₁
  obtain ⟨s, hs⟩ := Option.isSome_iff_exists.mp hr₁
  obtain ⟨w₂, hset₂, hkept₂, hmoved⟩ :=
    (hkept.steady.withList (w₁.globalCircuitlist.erase r)).detach hs
  have hsides : ∀ dir s, w₂.side r dir = some s → s = ⟨none, 0, false⟩ := by
    intro dir s' hs'
    rw [hmoved.side] at hs'
    cases dir with
    | out =>
      rw [if_pos ⟨rfl, rfl⟩] at hs'
      exact (Option.some.inj hs').symm
    | «in» =>
      rw [if_neg fun heq => Direction.noConfusion heq.2] at hs'
      exact hp s' hs'
  have hunused : ∀ dir k, ¬ w₂.Uses r dir k := by
    intro dir k huse
    obtain ⟨-, s', hs', hc, -⟩ := uses_iff.mp huse
    rw [hsides dir s' hs'] at hc
    cases hc
  have hfreed := hkept₂.steady.replace (c := none) hunused nofun
  refine ⟨_, ?_, hfreed.steady, fun hc => hfreed.counted (hkept₂.counted (hkept.counted hc)), ?_, ?_⟩
  · rw [CircuitList.circuitFree, hset₁, Option.bind_some]
    exact congrArg (Option.map _) hset₂
  · exact hkept₂.list.trans (congrArg (·.erase r) hkept.list)
  · intro r'
    change (Function.update w₂.circuits r none r').isSome = _
    by_cases hr' : r' = r
    · simp [hr']
    · rw [Function.update_of_ne hr', hkept₂.circuits, hkept.circuits, decide_eq_true hr',
        Bool.true_and]

end CircidMapSteps

end TorDaemon.CircuitList

import TorDaemon.CircuitList.CircidMapSteps

/-! Runs of the map of circuit IDs: circuits and queued DESTROYs have their IDs, and an ID without
either is free (`circuitlist.c`, `circuitbuild.c`). -/
namespace TorDaemon.CircuitList
open Library.CachedTable Library.Reachability

variable {w w' : World} {k : Key} {r chan : ℕ} {id : UInt32} {dir : Direction} {s : Side}

/-- What an event leaves. -/
structure Stepped (w w' : World) : Prop where
  steady : Steady w'
  listed : Listed w'
  counted : Counted w → Counted w'

theorem Kept.stepped (h : Kept w w') (hlisted : Listed w) : Stepped w w' :=
  ⟨h.steady, h.listed hlisted, h.counted⟩

theorem Stepped.of_kept {w'' : World} (h : Kept w w') (h' : Stepped w' w'') : Stepped w w'' :=
  ⟨h'.steady, h'.listed, fun hc => h'.counted (h.counted hc)⟩

theorem Stepped.of_eq {w'' : World} (h : Stepped w w'') (heq : some w'' = some w') :
    Stepped w w' := by
  cases heq
  exact h

/-- A DESTROY that is queued for no circuit, or leaves. -/
theorem Steady.quiet (h : Steady w) (hlisted : Listed w) (hreserved : Reserved w')
    (hquiet : Quiet w w') (hunused : ∀ r dir, ¬ w.Uses r dir (chan, id))
    (hsub : ∀ c i, i ∈ w'.queue c → i ∈ w.queue c ∨ (id ≠ 0 ∧ (c, i) = (chan, id))) :
    Stepped w w' := by
  have hsettled : w'.Settled := by
    intro r dir s hs
    rw [Bool.eq_false_iff]
    intro hflag
    exact hunused r dir (h.flagged_after h.settled hreserved hquiet hsub hs hflag)
  refine ⟨⟨hreserved, hsettled⟩, ⟨?_, fun r => ?_⟩, fun hc => hc.of_quiet hquiet⟩
  · rw [hquiet.list]
    exact hlisted.nodup
  · rw [hquiet.list, hquiet.circuits]
    exact hlisted.mem r

/-! ### New circuits -/

theorem Listed.append (hlisted : Listed w) (hfree : w.circuits r = none)
    (hlist : w'.globalCircuitlist = w.globalCircuitlist ++ [r])
    (hcircuits : ∀ r', (w'.circuits r').isSome = (decide (r' = r) || (w.circuits r').isSome)) :
    Listed w' := by
  have hnew : r ∉ w.globalCircuitlist := by
    rw [hlisted.mem, hfree]
    exact Bool.false_ne_true
  refine ⟨?_, fun r' => ?_⟩
  · rw [hlist, List.nodup_append]
    refine ⟨hlisted.nodup, List.pairwise_singleton _ r, fun a ha b hb heq => ?_⟩
    rw [heq, List.mem_singleton.mp hb] at ha
    exact hnew ha
  · rw [hlist, hcircuits, List.mem_append, List.mem_singleton, hlisted.mem, Bool.or_eq_true,
      decide_eq_true_iff]
    exact or_comm

theorem circuits_newCircuit (w : World) (r : ℕ) (p : Option Side) (r' : ℕ) :
    ((newCircuit w r p).circuits r').isSome = (decide (r' = r) || (w.circuits r').isSome) := by
  unfold newCircuit
  by_cases hr : r' = r <;> simp [hr]

section
variable (h : Steady w)
include h

section
variable (hlisted : Listed w)
include hlisted

theorem originCircuitNew_stepped
    (hs : originCircuitNew w r = some w') : Stepped w w' := by
  unfold originCircuitNew at hs
  split at hs
  case isTrue hfree =>
    cases hs
    have hfree' := Option.isNone_iff_eq_none.mp hfree
    have hnew := h.newCircuit hfree' (p := none) nofun
    exact ⟨hnew.steady.withList _, hlisted.append hfree' rfl (circuits_newCircuit w r none),
      hnew.counted⟩
  case isFalse => cases hs

theorem orCircuitNew_stepped (hid : id ≠ 0)
    (howner : w.owner (chan, id) = none) (hs : orCircuitNew w r id chan = some w') :
    Stepped w w' := by
  unfold orCircuitNew at hs
  split at hs
  case isTrue hfree =>
    have hfree' := Option.isNone_iff_eq_none.mp hfree
    have hnew := h.newCircuit hfree' (p := some ⟨none, 0, false⟩) fun s hs => (Option.some.inj hs).symm
    have hside : (newCircuit w r (some ⟨none, 0, false⟩)).side r .in = some ⟨none, 0, false⟩ := by
      simp [newCircuit, World.side, Circuit.side]
    have htarget : Target (newCircuit w r (some ⟨none, 0, false⟩)) id (some chan) := .free hid howner
    obtain ⟨w₁, hset, hkept, -⟩ := hnew.steady.set hside htarget
    rw [circuitSetPCircidChan, hset, Option.map_some] at hs
    cases hs
    refine ⟨hkept.steady.withList _, ?_, fun hc => hkept.counted (hnew.counted hc)⟩
    apply hlisted.append hfree'
    · exact congrArg (· ++ [r]) hkept.list
    · intro r'
      exact (hkept.circuits r').trans (circuits_newCircuit w r _ r')
  case isFalse => cases hs

theorem createCell_stepped
    (hs : createCell w r id chan = some w') : Stepped w w' := by
  unfold createCell at hs
  split at hs
  case isTrue =>
    cases hs
    exact (Kept.refl h).stepped hlisted
  case isFalse hid =>
    obtain ⟨use, t, huse, hiff, hsound, howner⟩ := circuitIdInUse_eq h.sound id chan
    have hkept := h.withTable hsound howner
    rw [huse, Option.bind_some] at hs
    split at hs
    case isTrue hzero =>
      have hfree : ownerOf t (chan, id) = none := by
        rw [howner]
        exact hiff.mp hzero
      exact .of_kept hkept (orCircuitNew_stepped hkept.steady (hkept.listed hlisted) hid hfree hs)
    case isFalse =>
      cases hs
      exact hkept.stepped hlisted

theorem createCellRefused_stepped {leaves : Bool}
    (hs : createCellRefused w id chan leaves = some w') : Stepped w w' := by
  unfold createCellRefused at hs
  split at hs
  case isTrue =>
    cases hs
    exact (Kept.refl h).stepped hlisted
  case isFalse hid =>
    obtain ⟨use, t, huse, hiff, hsound, howner⟩ := circuitIdInUse_eq h.sound id chan
    have hkept := h.withTable hsound howner
    rw [huse, Option.bind_some] at hs
    split at hs
    case isTrue hzero =>
      have hunqueued : id ∉ w.queue chan := fun hq => h.queued (chan, id) hq (hiff.mp hzero)
      have hunused : ∀ r dir, ¬ w.Uses r dir (chan, id) := by
        intro r dir huse
        cases (h.mapped r dir _ huse).symm.trans (hiff.mp hzero)
      obtain ⟨w₁, hsend, hreserved, hquiet, hsub⟩ :=
        hkept.steady.toReserved.channelSendDestroy (w := { w with chanCircidMap := t }) hunqueued leaves
      rw [hsend] at hs
      exact .of_kept hkept (.of_eq
        (hkept.steady.quiet (hkept.listed hlisted) hreserved hquiet hunused hsub) hs)
    case isFalse =>
      cases hs
      exact hkept.stepped hlisted

theorem takeCircid_stepped
    (hs : takeCircid w r dir id chan = some w') : Stepped w w' := by
  unfold takeCircid at hs
  obtain ⟨use, t, huse, hiff, hsound, howner⟩ := circuitIdInUse_eq h.sound id chan
  have hkept := h.withTable hsound howner
  rw [huse, Option.bind_some] at hs
  split at hs
  case isTrue hfree =>
    have hfree' : ownerOf t (chan, id) = none := by
      rw [howner]
      exact hiff.mp hfree.2
    cases hside : w.side r dir with
    | none =>
      have hside' : World.side { w with chanCircidMap := t } r dir = none := hside
      rw [circuitSetCircidChan, hside'] at hs
      cases hs
    | some s =>
      have htarget : Target { w with chanCircidMap := t } id (some chan) := .free hfree.1 hfree'
      obtain ⟨w₁, hset, hkept₁, -⟩ := hkept.steady.set (s := s) hside htarget
      rw [hset] at hs
      cases hs
      exact (hkept.trans hkept₁).stepped hlisted
  case isFalse => cases hs

/-- A circuit that waits for its channel has no ID, so the map does not change. -/
theorem assignNChan_stepped
    (hs : assignNChan w r chan = some w') : Stepped w w' := by
  obtain ⟨s, hside, hs⟩ := Option.bind_eq_some_iff.mp hs
  split at hs
  case isTrue hwaits =>
    cases hs
    have hassigned := h.assign hside hwaits.2 chan
    refine ⟨hassigned.steady, ⟨hlisted.nodup, fun r' => ?_⟩, hassigned.counted⟩
    rw [circuits_setSide]
    exact hlisted.mem r'
  case isFalse => cases hs

end

end

/-! ### Circuits and channels that go -/

section
variable (h : Steady w)
include h

theorem close_stepped (hlisted : Listed w) {leavesN leavesP : Bool}
    (hs : ((circuitAboutToFree w r leavesN leavesP).bind fun w => circuitFree w r) = some w') :
    Stepped w w' := by
  cases hr : w.circuits r with
  | none =>
    have hside : w.side r .out = none := by rw [World.side, hr]; rfl
    rw [circuitAboutToFree, leaveChannel, hside] at hs
    cases hs
  | some c =>
    have hlive : (w.circuits r).isSome := by rw [hr]; rfl
    obtain ⟨w₁, habout, hkept⟩ := h.circuitAboutToFree hlive leavesN leavesP
    have hlisted₁ := hkept.listed hlisted
    obtain ⟨w₂, hfree, hsteady, hcounted, hlist, hcircuits⟩ :=
      hkept.steady.circuitFree ((hkept.circuits r).trans hlive)
    rw [habout, Option.bind_some, hfree] at hs
    cases hs
    refine ⟨hsteady, ⟨?_, fun r' => ?_⟩, fun hc => hcounted (hkept.counted hc)⟩
    · rw [hlist]
      exact hlisted₁.nodup.erase r
    · rw [hlist, hcircuits, hlisted₁.nodup.mem_erase_iff, hlisted₁.mem, Bool.and_eq_true,
        decide_eq_true_iff]

/-- The channel's counts, flags and ID type are its own. -/
theorem Steady.modifyChannel (chan : ℕ) {f : Channel → Channel}
    (hf : ∀ c, (f c).destroyQueue = c.destroyQueue) : Steady (w.modifyChannel chan f) := by
  have hqueue : (w.modifyChannel chan f).queue = w.queue := by
    funext c
    rw [queue_modifyChannel, hf]
    split
    case isTrue hc =>
      rw [hc]
      rfl
    case isFalse => rfl
  exact h.of_same h.sound rfl rfl hqueue

theorem modifyChannel_stepped (hlisted : Listed w) {f : Channel → Channel}
    (hs : some (w.modifyChannel chan f) = some w')
    (hf : ∀ c, (f c).destroyQueue = c.destroyQueue ∧ ∀ dir, (f c).numCircuits dir = c.numCircuits dir) :
    Stepped w w' := by
  cases hs
  refine ⟨h.modifyChannel chan fun c => (hf c).1, ⟨hlisted.nodup, hlisted.mem⟩, fun hc => ?_⟩
  exact hc.of_quiet ⟨rfl, counts_modifyChannel w chan fun c => (hf c).2, fun _ _ => rfl⟩

theorem unlinkFromChannel_kept (hs : unlinkFromChannel w chan r = some w') : Kept w w' := by
  obtain ⟨c, hc, hs⟩ := Option.bind_eq_some_iff.mp hs
  obtain ⟨w₁, hn, hs⟩ := Option.bind_eq_some_iff.mp hs
  obtain ⟨w₂, hp, hs⟩ := Option.map_eq_some_iff.mp hs
  have hdetach : ∀ {w w' : World} (dir : Direction), Steady w →
      circuitSetCircidChan w r dir 0 none = some w' → Kept w w' := by
    intro w w' dir h hs
    obtain ⟨s, hside, -⟩ := Option.bind_eq_some_iff.mp hs
    obtain ⟨w₁, hset, hkept, -⟩ := h.detach hside
    rw [hset] at hs
    cases hs
    exact hkept
  have hkept₁ : Kept w w₁ := by
    split at hn
    · exact hdetach .out h hn
    · cases hn
      exact .refl h
  have hkept₂ : Kept w₁ w₂ := by
    split at hp
    · exact hdetach .in hkept₁.steady hp
    · cases hp
      exact .refl hkept₁.steady
  rw [← hs]
  split
  · exact (hkept₁.trans hkept₂).trans (hkept₂.steady.mark r)
  · exact hkept₁.trans hkept₂

end

theorem unlink_fold_kept (detached : List ℕ) (h : Steady w)
    (hs : detached.foldlM (fun w r => unlinkFromChannel w chan r) w = some w') : Kept w w' := by
  induction detached generalizing w with
  | nil =>
    cases hs
    exact .refl h
  | cons r detached ih =>
    obtain ⟨w₁, hunlink, hs⟩ := Option.bind_eq_some_iff.mp hs
    have hkept := unlinkFromChannel_kept h hunlink
    exact hkept.trans (ih hkept.steady hs)

/-- Both counts of the channel are 0. -/
def Idle (w : World) (chan : ℕ) : Prop :=
  (w.channels chan).numNCircuits = 0 ∧ (w.channels chan).numPCircuits = 0

theorem channelUnlinkAllCircuits_idle (h : Idle w chan) : channelUnlinkAllCircuits w chan = w := by
  have hsame : ∀ c : Channel, c.numNCircuits = 0 → c.numPCircuits = 0 →
      ({ c with numNCircuits := 0, numPCircuits := 0 } : Channel) = c := by
    rintro c hn hp
    cases c
    cases hn
    cases hp
    rfl
  rw [channelUnlinkAllCircuits, World.modifyChannel, hsame _ h.1 h.2, Function.update_eq_self]

theorem circuitUnlinkAll_stepped (h : Steady w) (hlisted : Listed w) {detached : List ℕ}
    (hs : circuitUnlinkAllFromChannel w chan detached = some w') :
    Steady w' ∧ Listed w' ∧ (Idle w chan → Counted w → Counted w') := by
  have hreset : Steady (channelUnlinkAllCircuits w chan) := h.modifyChannel chan fun _ => rfl
  have hkept := unlink_fold_kept detached hreset hs
  refine ⟨hkept.steady, hkept.listed ⟨hlisted.nodup, hlisted.mem⟩, fun hidle hc => ?_⟩
  rw [channelUnlinkAllCircuits_idle hidle] at hkept
  exact hkept.counted hc

theorem markUsable_fold (ids : List UInt32) (hnodup : ids.Nodup) (hsound : w.chanCircidMap.Sound)
    (hall : ∀ id ∈ ids, w.owner (chan, id) = some none) : ∃ t : Table Key MapEntry,
      ids.foldl (fun w id => channelMarkCircidUsable w chan id) w = { w with chanCircidMap := t } ∧
      t.Sound ∧ ∀ k, ownerOf t k = if k.1 = chan ∧ k.2 ∈ ids then none else w.owner k := by
  induction ids generalizing w with
  | nil =>
    refine ⟨w.chanCircidMap, rfl, hsound, fun k => ?_⟩
    rw [if_neg fun heq => nomatch heq.2]
    rfl
  | cons id ids ih =>
    obtain ⟨t, hmark, hsound', howner⟩ := channelMarkCircidUsable_eq hsound (hall id List.mem_cons_self)
    obtain ⟨hnotin, hnodup'⟩ := List.nodup_cons.mp hnodup
    have hrest : ∀ i ∈ ids, World.owner { w with chanCircidMap := t } (chan, i) = some none := by
      intro i hi
      refine (congrFun howner (chan, i)).trans ?_
      rw [Function.update_of_ne, hall i (List.mem_cons_of_mem id hi)]
      rintro ⟨⟩
      exact hnotin hi
    obtain ⟨t', hfold, hsound'', howner'⟩ := ih hnodup' hsound' hrest
    refine ⟨t', ?_, hsound'', fun k => ?_⟩
    · rw [List.foldl_cons, hmark]
      exact hfold
    · rw [howner']
      by_cases hk : k = (chan, id)
      · have hnone : World.owner { w with chanCircidMap := t } k = none := by
          refine (congrFun howner k).trans ?_
          rw [hk, Function.update_self]
        rw [hnone, ite_self, hk, if_pos ⟨rfl, List.mem_cons_self⟩]
      · have hsame : World.owner { w with chanCircidMap := t } k = w.owner k :=
          (congrFun howner k).trans (Function.update_of_ne hk _ _)
        have hiff : (k.1 = chan ∧ k.2 ∈ ids) ↔ (k.1 = chan ∧ k.2 ∈ id :: ids) := by
          apply and_congr_right
          intro hc
          rw [List.mem_cons, or_iff_right fun hid => hk (Prod.ext hc hid)]
        rw [hsame]
        exact if_congr hiff rfl rfl

/-- A channel that no circuit points to leaves with its queue and its placeholders. -/
structure Dropped (w w' : World) (chan : ℕ) : Prop where
  sound : w'.chanCircidMap.Sound
  list : w'.globalCircuitlist = w.globalCircuitlist
  circuits : w'.circuits = w.circuits
  owner : ∀ k, w'.owner k = if k.1 = chan then none else w.owner k
  channel : ∀ c, w'.channels c =
    if c = chan then ⟨0, 0, [], false, false, .neither⟩ else w.channels c

theorem Dropped.stepped (h : Steady w) (hlisted : Listed w)
    (hunused : ∀ r dir s, w.side r dir = some s → s.chan ≠ some chan)
    (hdropped : Dropped w w' chan) : Stepped w w' := by
  have hside : w'.side = w.side := by
    funext r dir
    rw [World.side, hdropped.circuits, World.side]
  have hqueue : ∀ c, w'.queue c = if c = chan then [] else w.queue c := by
    intro c
    rw [World.queue, hdropped.channel]
    split <;> rfl
  have hplace : ∀ r dir, (w'.side r dir).map Side.place = (w.side r dir).map Side.place := by
    intro r dir
    rw [hside]
  have hcircuit : ∀ r k, w'.owner k = some (some r) ↔ w.owner k = some (some r) := by
    intro r k
    rw [hdropped.owner]
    split
    case isTrue hk =>
      refine iff_of_false (by simp) fun howner => ?_
      obtain ⟨dir, huse⟩ := h.owned r k howner
      obtain ⟨-, s, hs, hc, -⟩ := uses_iff.mp huse
      exact hunused r dir s hs (hk ▸ hc)
    case isFalse => rfl
  refine ⟨⟨⟨h.toMapped.of_same hdropped.sound hcircuit hplace, fun c => ?_, fun c => ?_,
    fun k hk => ?_, fun k hk => ?_, fun r dir s hs => ?_⟩, ?_⟩, ⟨?_, fun r => ?_⟩,
    fun hcounted dir c => ?_⟩
  · rw [hqueue]
    split
    · exact List.nodup_nil
    · exact h.nodup c
  · rw [hqueue]
    split
    · exact List.not_mem_nil
    · exact h.nonzero c
  · rw [hdropped.owner] at hk
    rw [hqueue]
    split at hk
    · cases hk
    case isFalse hne =>
      rw [if_neg hne]
      exact h.placeholder k hk
  · rw [hqueue] at hk
    rw [hdropped.owner]
    split at hk
    · cases hk
    case isFalse hne =>
      rw [if_neg hne]
      exact h.queued k hk
  · rw [hside] at hs
    rw [h.flag r dir s hs]
    apply exists_congr
    intro c
    apply and_congr_right
    intro hc
    rw [hqueue, if_neg]
    rintro rfl
    exact hunused r dir s hs hc
  · rw [World.Settled, hside]
    exact h.settled
  · rw [hdropped.list]
    exact hlisted.nodup
  · rw [hdropped.list, hdropped.circuits]
    exact hlisted.mem r
  · by_cases hc : c = chan
    · refine ⟨[], List.nodup_nil, fun r => iff_of_false List.not_mem_nil fun hon => ?_, ?_⟩
      · obtain ⟨s, hs, hchan, -⟩ := on_iff.mp hon
        rw [hside] at hs
        exact hunused r dir s hs (hc ▸ hchan)
      · rw [hdropped.channel, if_pos hc]
        cases dir <;> rfl
    · obtain ⟨l, hnodup, hmem, hcount⟩ := hcounted dir c
      refine ⟨l, hnodup, fun r => ?_, ?_⟩
      · rw [hmem, World.On, World.On, uses_congr hplace]
      · rw [hdropped.channel, if_neg hc, hcount]

/-- A channel that is freed has no circuits, so its queue's IDs have placeholders. -/
theorem channelFree_stepped (h : Steady w) (hlisted : Listed w) (hs : channelFree w chan = some w') :
    Stepped w w' := by
  unfold channelFree at hs
  split at hs
  case isTrue => cases hs
  case isFalse hany =>
    have hunused : ∀ r dir s, w.side r dir = some s → s.chan ≠ some chan := by
      intro r dir s hside hc
      apply hany
      refine List.any_eq_true.mpr ⟨r, (hlisted.mem r).mpr (side_isSome hside), ?_⟩
      refine List.any_eq_true.mpr ⟨dir, by cases dir <;> simp, ?_⟩
      rw [hside, Option.any_some, hc]
      exact decide_eq_true rfl
    have hplaceholders : ∀ id ∈ w.queue chan, w.owner (chan, id) = some none := by
      intro id hid
      cases howner : w.owner (chan, id) with
      | none => exact absurd howner (h.queued (chan, id) hid)
      | some v =>
        cases v with
        | none => rfl
        | some r =>
          obtain ⟨dir, huse⟩ := h.owned r _ howner
          obtain ⟨-, s, hside, hc, -⟩ := uses_iff.mp huse
          exact absurd hc (hunused r dir s hside)
    obtain ⟨t, hfold, hsound, howner⟩ := markUsable_fold _ (h.nodup chan) h.sound hplaceholders
    rw [World.queue] at hfold
    rw [hfold] at hs
    cases hs
    refine Dropped.stepped h hlisted hunused ⟨hsound, rfl, rfl, fun k => ?_, fun c => ?_⟩
    · refine (howner k).trans ?_
      by_cases hk : k.1 = chan
      · rw [if_pos hk]
        split
        · rfl
        case isFalse hnot =>
          apply h.free
          · intro r dir huse
            obtain ⟨-, s, hside, hc, -⟩ := uses_iff.mp huse
            exact hunused r dir s hside (hk ▸ hc)
          · rw [hk]
            exact fun hi => hnot ⟨hk, hi⟩
      · rw [if_neg hk, if_neg fun heq => hk heq.1]
    · exact Function.update_apply _ _ _ _

/-! ### New circuit IDs -/

/-- Only the cache moves while an ID is tried, and the one that is found is free. -/
theorem tryCircIds_eq (randoms : List UInt32) {attempts : ℕ} (hsound : w.chanCircidMap.Sound)
    (hs : tryCircIds chan attempts randoms w = some (id, w')) :
    (id = 0 ∨ w.owner (chan, id) = none) ∧
      ∃ t : Table Key MapEntry, w' = { w with chanCircidMap := t } ∧ t.Sound ∧ ownerOf t = w.owner := by
  induction randoms generalizing attempts w with
  | nil =>
    cases attempts with
    | zero =>
      cases hs
      exact ⟨.inl rfl, _, rfl, hsound, rfl⟩
    | succ => cases hs
  | cons random randoms ih =>
    cases attempts with
    | zero =>
      cases hs
      exact ⟨.inl rfl, _, rfl, hsound, rfl⟩
    | succ attempts =>
      rw [tryCircIds] at hs
      split at hs
      case isTrue => exact ih hsound hs
      case isFalse =>
        obtain ⟨use, t, huse, hiff, hsound', howner⟩ :=
          circuitIdInUse_eq hsound (testCircId (w.channels chan) random) chan
        rw [huse, Option.bind_some] at hs
        split at hs
        case isTrue hzero =>
          cases hs
          exact ⟨.inr (hiff.mp hzero), t, rfl, hsound', howner⟩
        case isFalse =>
          have howner' : World.owner { w with chanCircidMap := t } = w.owner := howner
          obtain ⟨hid, t', rfl, hsound'', howner''⟩ := ih hsound' hs
          rw [howner'] at hid howner''
          exact ⟨hid, t', rfl, hsound'', howner''⟩

theorem getUniqueCircIdByChan_eq (hsound : w.chanCircidMap.Sound) {randoms : List UInt32}
    (hs : getUniqueCircIdByChan w chan randoms = some (id, w')) :
    (id = 0 ∨ w.owner (chan, id) = none) ∧
      ∃ t : Table Key MapEntry, w' = { w with chanCircidMap := t } ∧ t.Sound ∧ ownerOf t = w.owner := by
  unfold getUniqueCircIdByChan at hs
  split at hs
  · cases hs
    exact ⟨.inl rfl, _, rfl, hsound, rfl⟩
  · exact tryCircIds_eq randoms hsound hs

/-! ### Runs -/

/-- `circuit_unlink_all_from_channel` is called for a channel without circuits only. -/
def UnlinksIdle (w : World) : Event → Prop
  | .unlinkAll chan _ => Idle w chan
  | _ => True

/-- One event keeps the owners, and the counts where it unlinks nothing. -/
theorem mapStep_stepped (h : Steady w) (hlisted : Listed w) {e : Event} (hs : mapStep w e = some w') :
    Steady w' ∧ Listed w' ∧ (UnlinksIdle w e → Counted w → Counted w') := by
  have hstepped : Stepped w w' → Steady w' ∧ Listed w' ∧ (UnlinksIdle w e → Counted w → Counted w') :=
    fun hstepped => ⟨hstepped.steady, hstepped.listed, fun _ => hstepped.counted⟩
  cases e with
  | originCircuitNew r => exact hstepped (originCircuitNew_stepped h hlisted hs)
  | createCell r id chan => exact hstepped (createCell_stepped h hlisted hs)
  | createCellRefused id chan leaves => exact hstepped (createCellRefused_stepped h hlisted hs)
  | takeCircid r dir id chan => exact hstepped (takeCircid_stepped h hlisted hs)
  | assignNChan r chan => exact hstepped (assignNChan_stepped h hlisted hs)
  | lookup id chan =>
    obtain ⟨t, hget, hsound, howner⟩ := circuitGetEvenIfMarked_eq h.sound id chan
    rw [mapStep, hget] at hs
    exact hstepped (((h.withTable hsound howner).stepped hlisted).of_eq hs)
  | truncate r leaves =>
    obtain ⟨s, hside, -⟩ := Option.bind_eq_some_iff.mp hs
    obtain ⟨w₁, htruncate, hkept⟩ := h.truncate hside leaves
    rw [mapStep, htruncate] at hs
    exact hstepped ((hkept.stepped hlisted).of_eq hs)
  | detach r dir =>
    obtain ⟨s, hside, -⟩ := Option.bind_eq_some_iff.mp hs
    obtain ⟨w₁, hset, hkept, -⟩ := h.detach hside
    rw [mapStep, hset] at hs
    exact hstepped ((hkept.stepped hlisted).of_eq hs)
  | mark r => exact hstepped (((h.mark r).stepped hlisted).of_eq hs)
  | close r leavesN leavesP => exact hstepped (close_stepped h hlisted hs)
  | destroyLeaves chan =>
    obtain ⟨w₁, hleaves, hreserved, hquiet, hsub⟩ := h.toReserved.destroyCellLeaves chan
    rw [mapStep, hleaves] at hs
    have hunused : ∀ r dir, ¬ w.Uses r dir (chan, 0) := fun r dir huse => huse.1 rfl
    exact hstepped ((h.quiet hlisted hreserved hquiet hunused fun c i hi => .inl (hsub c i hi)).of_eq hs)
  | condemn chan =>
    apply hstepped
    apply modifyChannel_stepped h hlisted hs
    exact fun c => ⟨rfl, fun dir => by cases dir <;> rfl⟩
  | unlinkAll chan detached => exact circuitUnlinkAll_stepped h hlisted hs
  | channelFree chan => exact hstepped (channelFree_stepped h hlisted hs)
  | setCircidType chan wideCircIds circIdType =>
    apply hstepped
    apply modifyChannel_stepped h hlisted hs
    exact fun c => ⟨rfl, fun dir => by cases dir <;> rfl⟩
  | pickId chan randoms =>
    obtain ⟨⟨id, w₁⟩, hpick, hw₁⟩ := Option.map_eq_some_iff.mp hs
    obtain ⟨-, t, rfl, hsound, howner⟩ := getUniqueCircIdByChan_eq h.sound hpick
    exact hstepped (((h.withTable hsound howner).stepped hlisted).of_eq (congrArg some hw₁))
  | tick now =>
    have hsame : Steady { w with approxTime := now } := h.of_same h.sound rfl rfl rfl
    have htick : Stepped w { w with approxTime := now } :=
      ⟨hsame, ⟨hlisted.nodup, hlisted.mem⟩, fun hc => hc⟩
    exact hstepped (htick.of_eq hs)

/-- What the map says of circuits and of queued DESTROYs. -/
structure MapExact (w : World) : Prop where
  /-- A circuit is found by the channel and the ID of either side. -/
  found : ∀ r dir s chan, w.side r dir = some s → s.chan = some chan → s.circId ≠ 0 →
    ∃ w', circuitGetByCircidChannelEvenIfMarked w s.circId chan = some (some r, w')
  /-- An entry that is no placeholder is for a live circuit. -/
  live : ∀ chan id ent r, w.chanCircidMap.view (chan, id) = some ent → ent.circuit = some r →
    r ∈ w.globalCircuitlist ∧ ∃ dir s, w.side r dir = some s ∧ s.chan = some chan ∧ s.circId = id
  /-- The cache points to an entry of the map that is not freed. -/
  cache : ∀ p ∈ w.chanCircidMap.last, ∃ k ent,
    w.chanCircidMap.heap p = some (k, ent) ∧ w.chanCircidMap.table k = some p
  /-- A lookup finds what the map has, whatever the cache is. -/
  lookup : ∀ id chan, ∃ w', circuitGetByCircidChannelImpl w id chan =
    some (w.chanCircidMap.view (chan, id), w')
  /-- The ID of a queued DESTROY is in use. -/
  inUse : ∀ chan, ∀ id ∈ w.queue chan,
    ∃ use w', circuitIdInUseOnChannel w id chan = some (use, w') ∧ use ≠ 0
  /-- The ID of no queued DESTROY and no circuit is free. -/
  free : ∀ chan id, id ∉ w.queue chan →
    (∀ r dir s, w.side r dir = some s → ¬ (s.chan = some chan ∧ s.circId = id)) →
      ∃ w', circuitIdInUseOnChannel w id chan = some (0, w')
  /-- An ID that is handed out is the ID of no queued DESTROY and of no circuit. -/
  fresh : ∀ chan randoms id w', getUniqueCircIdByChan w chan randoms = some (id, w') → id ≠ 0 →
    id ∉ w.queue chan ∧
      ∀ r dir s, w.side r dir = some s → ¬ (s.chan = some chan ∧ s.circId = id)

theorem Steady.mapExact (h : Steady w) (hlisted : Listed w) : MapExact w := by
  constructor
  · intro r dir s chan hs hc hid
    obtain ⟨t, hget, -⟩ := circuitGetEvenIfMarked_eq h.sound s.circId chan
    rw [h.mapped r dir _ (uses_of_side hs hc hid)] at hget
    exact ⟨_, hget⟩
  · intro chan id ent r hview hcircuit
    have howner : w.owner (chan, id) = some (some r) := by
      rw [World.owner, ownerOf, hview, Option.map_some, hcircuit]
    obtain ⟨dir, huse⟩ := h.owned r _ howner
    obtain ⟨-, s, hs, hc, hid⟩ := uses_iff.mp huse
    exact ⟨(hlisted.mem r).mpr (side_isSome hs), dir, s, hs, hc, hid⟩
  · intro p hp
    obtain ⟨k, ent, hnode⟩ := h.sound.last p hp
    exact ⟨k, ent, hnode, h.sound.linked p k ent hnode⟩
  · intro id chan
    obtain ⟨t, hget, -⟩ := circuitGetByCircidChannelImpl_eq h.sound id chan
    exact ⟨_, hget⟩
  · intro chan id hid
    obtain ⟨use, t, huse, hiff, -⟩ := circuitIdInUse_eq h.sound id chan
    exact ⟨use, _, huse, fun hzero => h.queued (chan, id) hid (hiff.mp hzero)⟩
  · intro chan id hqueue hunused
    obtain ⟨use, t, huse, hiff, -⟩ := circuitIdInUse_eq h.sound id chan
    have hfree : w.owner (chan, id) = none := by
      apply h.free _ hqueue
      intro r dir hu
      obtain ⟨-, s, hs, hc, hid⟩ := uses_iff.mp hu
      exact hunused r dir s hs ⟨hc, hid⟩
    rw [hiff.mpr hfree] at huse
    exact ⟨_, huse⟩
  · intro chan randoms id w' hpick hne
    obtain ⟨hfree, -⟩ := getUniqueCircIdByChan_eq h.sound hpick
    have hfree := hfree.resolve_left hne
    refine ⟨fun hid => h.queued (chan, id) hid hfree, ?_⟩
    rintro r dir s hs ⟨hc, rfl⟩
    exact hne ((h.owner_none_iff hs hc).mp hfree)

theorem steady_start : Steady World.start := by
  have hnone : ∀ k, World.start.owner k = none := fun _ => rfl
  have hside : ∀ r dir, World.start.side r dir = none := fun _ _ => rfl
  refine ⟨⟨⟨Table.sound_empty, ?_, ?_, ?_, ?_⟩, ?_, ?_, ?_, ?_, ?_⟩, ?_⟩
  · rintro r dir k ⟨-, hplace⟩
    cases hplace
  · intro r k hk
    cases (hnone k).symm.trans hk
  · rintro r dir dir' k ⟨-, hplace⟩
    cases hplace
  · intro r dir s hs
    cases (hside r dir).symm.trans hs
  · exact fun _ => List.nodup_nil
  · exact fun _ => List.not_mem_nil
  · intro k hk
    cases (hnone k).symm.trans hk
  · intro k hk
    cases hk
  · intro r dir s hs
    cases (hside r dir).symm.trans hs
  · intro r dir s hs
    cases (hside r dir).symm.trans hs

theorem listed_start : Listed World.start :=
  ⟨List.nodup_nil, fun _ => iff_of_false List.not_mem_nil Bool.false_ne_true⟩

theorem counted_start : Counted World.start := by
  intro dir chan
  refine ⟨[], List.nodup_nil, fun r => iff_of_false List.not_mem_nil ?_, by cases dir <;> rfl⟩
  rintro ⟨id, -, hplace⟩
  cases hplace

theorem reached_steady {guard : World → Event → Prop} (h : Reached mapStep guard World.start w) :
    Steady w ∧ Listed w := by
  apply h.invariant ⟨steady_start, listed_start⟩
  rintro w e w' ⟨hsteady, hlisted⟩ - hs
  obtain ⟨hsteady', hlisted', -⟩ := mapStep_stepped hsteady hlisted hs
  exact ⟨hsteady', hlisted'⟩

theorem reached_counted (h : Reached mapStep UnlinksIdle World.start w) : Counted w := by
  have hall : Steady w ∧ Listed w ∧ Counted w := by
    apply h.invariant ⟨steady_start, listed_start, counted_start⟩
    rintro w e w' ⟨hsteady, hlisted, hcounted⟩ hguard hs
    obtain ⟨hsteady', hlisted', hcounted'⟩ := mapStep_stepped hsteady hlisted hs
    exact ⟨hsteady', hlisted', hcounted' hguard hcounted⟩
  exact hall.2.2

/-- Circuits and queued DESTROYs have their IDs, and the channels count their circuits. -/
theorem circid_map_exact (w : World) (h : Reached mapStep UnlinksIdle World.start w) : MapExact w ∧
      ∀ dir chan, ((w.channels chan).numCircuits dir).toNat = w.users dir chan := by
  obtain ⟨hsteady, hlisted⟩ := reached_steady h
  exact ⟨hsteady.mapExact hlisted,
    fun dir chan => (reached_counted h).toNat_eq hsteady.toMapped hlisted dir chan⟩

instance decidableUnlinksIdle : ∀ w e, Decidable (UnlinksIdle w e)
  | w, .unlinkAll chan _ => inferInstanceAs (Decidable
      ((w.channels chan).numNCircuits = 0 ∧ (w.channels chan).numPCircuits = 0))
  | _, .originCircuitNew _ => .isTrue trivial
  | _, .createCell .. => .isTrue trivial
  | _, .createCellRefused .. => .isTrue trivial
  | _, .takeCircid .. => .isTrue trivial
  | _, .assignNChan .. => .isTrue trivial
  | _, .lookup .. => .isTrue trivial
  | _, .truncate .. => .isTrue trivial
  | _, .detach .. => .isTrue trivial
  | _, .mark _ => .isTrue trivial
  | _, .close .. => .isTrue trivial
  | _, .destroyLeaves _ => .isTrue trivial
  | _, .condemn _ => .isTrue trivial
  | _, .channelFree _ => .isTrue trivial
  | _, .setCircidType .. => .isTrue trivial
  | _, .pickId .. => .isTrue trivial
  | _, .tick _ => .isTrue trivial

/-- A circuit is extended, truncated and closed while its DESTROY waits. -/
def extendedAndClosed : List Event :=
  [.setCircidType 1 true .higher, .createCell 0 7 2, .pickId 1 [0, 5], .takeCircid 0 .out 2147483653 1,
    .lookup 2147483653 1, .truncate 0 false, .pickId 1 [5, 6], .close 0 false true, .destroyLeaves 1,
    .channelFree 1]

theorem circid_map_exact_closed : ∃ w, run mapStep World.start extendedAndClosed = some w ∧
    MapExact w ∧ ∀ dir chan, ((w.channels chan).numCircuits dir).toNat = w.users dir chan := by
  have hrun : (run mapStep World.start extendedAndClosed).isSome := by decide +kernel
  obtain ⟨w, hw⟩ := Option.isSome_iff_exists.mp hrun
  exact ⟨w, hw, circid_map_exact w (Reached.init.of_run (by decide +kernel) hw)⟩

/-- A circuit with a channel and an ID, and the channel is unlinked. -/
def unlinkedWithCircuit : List Event :=
  [.originCircuitNew 0, .takeCircid 0 .out 5 1, .unlinkAll 1 [0]]

/-- A channel that loses its circuits counts 2 ^ 32 - 1 of them. -/
theorem unlinked_channel_counts_down : ¬ ∀ w, Reached mapStep (fun _ _ => True) World.start w →
    MapExact w ∧
      ∀ dir chan, ((w.channels chan).numCircuits dir).toNat = w.users dir chan := by
  intro h
  have hrun : (run mapStep World.start unlinkedWithCircuit).isSome := by decide +kernel
  obtain ⟨w, hw⟩ := Option.isSome_iff_exists.mp hrun
  have hguard : Guarded mapStep (fun _ _ => True) World.start unlinkedWithCircuit :=
    ⟨trivial, fun _ _ => ⟨trivial, fun _ _ => ⟨trivial, fun _ _ => trivial⟩⟩⟩
  have hcount := (h w (Reached.init.of_run hguard hw)).2 .out 1
  have hwrong : ∀ w ∈ run mapStep World.start unlinkedWithCircuit,
      ((w.channels 1).numCircuits .out).toNat ≠ w.users .out 1 := by decide +kernel
  exact hwrong w hw hcount

end TorDaemon.CircuitList

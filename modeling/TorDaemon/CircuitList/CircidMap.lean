import Mathlib.Algebra.Order.Group.Int
import TorDaemon.Library.CachedTable
import TorDaemon.Library.Reachability

/-! The map from channels and circuit IDs to circuits (`circuitlist.c`), with its placeholders for
IDs whose DESTROY is queued, and the choice of an unused ID (`circuitbuild.c`). -/
namespace TorDaemon.CircuitList
open Library.CachedTable

/-- `CELL_DIRECTION_OUT` and `CELL_DIRECTION_IN`. -/
inductive Direction
  | out
  | in
  deriving DecidableEq

/-- What `chan_circid_circuit_map_t` has beside its key. -/
structure MapEntry where
  circuit : Option ℕ
  madePlaceholderAt : ℤ
  deriving DecidableEq

/-- A circuit's channel and ID in one direction. -/
structure Side where
  chan : Option ℕ
  circId : UInt32
  deletePending : Bool
  deriving DecidableEq

structure Circuit where
  n : Side
  /-- Absent from a circuit that starts here. -/
  p : Option Side
  markedForClose : Bool
  deriving DecidableEq

inductive CircIdType
  | lower
  | higher
  | neither
  deriving DecidableEq

structure Channel where
  numNCircuits : UInt32
  numPCircuits : UInt32
  /-- `cmux->destroy_cell_queue`: the circuit IDs of its cells. -/
  destroyQueue : List UInt32
  condemned : Bool
  wideCircIds : Bool
  circIdType : CircIdType
  deriving DecidableEq

/-- Channels and circuits are known by their pointers. -/
structure World where
  chanCircidMap : Table (ℕ × UInt32) MapEntry
  circuits : ℕ → Option Circuit
  globalCircuitlist : List ℕ
  channels : ℕ → Channel
  approxTime : ℤ

def Circuit.side (c : Circuit) : Direction → Option Side
  | .out => some c.n
  | .in => c.p

def Circuit.setSide (c : Circuit) (dir : Direction) (s : Side) : Circuit :=
  match dir with
  | .out => { c with n := s }
  | .in => { c with p := some s }

namespace World

/-- `none` for a freed circuit, and for a failed `TO_OR_CIRCUIT`. -/
def side (w : World) (r : ℕ) (dir : Direction) : Option Side :=
  (w.circuits r).bind fun c => c.side dir

def setSide (w : World) (r : ℕ) (dir : Direction) (s : Side) : World :=
  { w with
    circuits := Function.update w.circuits r ((w.circuits r).map fun c => c.setSide dir s) }

def modifyChannel (w : World) (chan : ℕ) (f : Channel → Channel) : World :=
  { w with channels := Function.update w.channels chan (f (w.channels chan)) }

end World

/-! ### The map -/

/-- One more circuit uses the channel in a direction. -/
def Channel.addCircuit (dir : Direction) (c : Channel) : Channel :=
  match dir with
  | .out => { c with numNCircuits := c.numNCircuits + 1 }
  | .in => { c with numPCircuits := c.numPCircuits + 1 }

def Channel.removeCircuit (dir : Direction) (c : Channel) : Channel :=
  match dir with
  | .out => { c with numNCircuits := c.numNCircuits - 1 }
  | .in => { c with numPCircuits := c.numPCircuits - 1 }

section
variable (w : World)

/-- The entry of the old channel and ID is removed. -/
def removeOldEntry (dir : Direction) (oldChan : Option ℕ) (oldId : UInt32) : World :=
  match oldChan with
  | none => w
  | some chan =>
    match w.chanCircidMap.table (chan, oldId) with
    | none => w
    | some found =>
      { w with chanCircidMap := (w.chanCircidMap.unlink (chan, oldId)).free found }.modifyChannel chan
        (Channel.removeCircuit dir)

/-- The new channel and ID get an entry. -/
def addNewEntry (r : ℕ) (dir : Direction) (id : UInt32) (chan : Option ℕ) : World :=
  match chan with
  | none => w
  | some chan =>
    let map := match w.chanCircidMap.table (chan, id) with
      | some _ => w.chanCircidMap.modify (chan, id) ⟨some r, 0⟩
      | none => w.chanCircidMap.insert (chan, id) ⟨some r, 0⟩
    { w with chanCircidMap := map }.modifyChannel chan (Channel.addCircuit dir)

def circuitSetCircidChanHelper (r : ℕ) (dir : Direction) (id : UInt32)
    (chan : Option ℕ) : Option World :=
  (w.side r dir).bind fun old =>
    if id = old.circId ∧ chan = old.chan then some w
    else
      (w.chanCircidMap.forget fun k =>
          decide (old.chan = some k.1 ∧ old.circId = k.2) ||
            decide (chan = some k.1 ∧ id = k.2)).map fun map =>
        let w := removeOldEntry { w with chanCircidMap := map } dir old.chan old.circId
        addNewEntry (w.setSide r dir ⟨chan, id, old.deletePending⟩) r dir id chan

def channelMarkCircidUnusable (chan : ℕ) (id : UInt32) : World :=
  match w.chanCircidMap.view (chan, id) with
  | some ent =>
    if ent.circuit.isSome then w
    else if ent.madePlaceholderAt = 0 then
      { w with
        chanCircidMap :=
          w.chanCircidMap.modify (chan, id) { ent with madePlaceholderAt := w.approxTime } }
    else w
  | none => { w with chanCircidMap := w.chanCircidMap.insert (chan, id) ⟨none, w.approxTime⟩ }

/-- An entry of a circuit leaves the table, too, but is not freed. -/
def channelMarkCircidUsable (chan : ℕ) (id : UInt32) : World :=
  match w.chanCircidMap.table (chan, id), w.chanCircidMap.view (chan, id) with
  | some p, some ent =>
    let map := w.chanCircidMap.unlink (chan, id)
    if ent.circuit.isSome then { w with chanCircidMap := map }
    else
      let map := if map.last = some p then { map with last := none } else map
      { w with chanCircidMap := map.free p }
  | _, _ => w

/-- `circuit_get_by_circid_channel_impl`: the entry that is found. -/
def circuitGetByCircidChannelImpl (id : UInt32) (chan : ℕ) : Option (Option MapEntry × World) :=
  (w.chanCircidMap.lookup (chan, id)).map fun r =>
    (r.1.bind fun p => (w.chanCircidMap.heap p).map Prod.snd, { w with chanCircidMap := r.2 })

def circuitGetByCircidChannelEvenIfMarked (id : UInt32) (chan : ℕ) : Option (Option ℕ × World) :=
  (circuitGetByCircidChannelImpl w id chan).map fun r => (r.1.bind MapEntry.circuit, r.2)

/-- 1 for a circuit, 2 for a placeholder. -/
def circuitIdInUseOnChannel (id : UInt32) (chan : ℕ) : Option (ℕ × World) :=
  (circuitGetByCircidChannelImpl w id chan).map fun r =>
    (match r.1 with
      | some ent => if ent.circuit.isSome then 1 else 2
      | none => 0, r.2)

end

/-! ### Queued DESTROY cells -/

section
variable (w : World)

/-- `n_delete_pending` or `p_delete_pending`, whichever side has the channel and the ID. -/
def setDeletePending (r chan : ℕ) (id : UInt32) (pending : Bool) : Option World :=
  (w.circuits r).bind fun c =>
    if c.n.chan = some chan ∧ c.n.circId = id then
      some (w.setSide r .out { c.n with deletePending := pending })
    else
      c.p.map fun p =>
        if p.chan = some chan ∧ p.circId = id then
          w.setSide r .in { p with deletePending := pending }
        else w

def channelNoteDestroyPending (chan : ℕ) (id : UInt32) : Option World :=
  (circuitGetByCircidChannelEvenIfMarked w id chan).bind fun r =>
    match r.1 with
    | some circ => setDeletePending r.2 circ chan id true
    | none => some (channelMarkCircidUnusable r.2 chan id)

def channelNoteDestroyNotPending (chan : ℕ) (id : UInt32) : Option World :=
  (circuitGetByCircidChannelEvenIfMarked w id chan).bind fun r =>
    match r.1 with
    | some circ => setDeletePending r.2 circ chan id false
    | none => some (channelMarkCircidUsable r.2 chan id)

/-- The first queued DESTROY leaves: it is sent, or dropped by the channel. -/
def destroyCellLeaves (chan : ℕ) : Option World :=
  match (w.channels chan).destroyQueue with
  | [] => some w
  | id :: rest =>
    channelNoteDestroyNotPending (w.modifyChannel chan fun c => { c with destroyQueue := rest })
      chan id

/-- `channel_send_destroy`; where nothing else is queued, a DESTROY can leave at once. -/
def channelSendDestroy (id : UInt32) (chan : ℕ) (leaves : Bool) : Option World :=
  if id = 0 then some w
  else if (w.channels chan).condemned then some w
  else
    (channelNoteDestroyPending w chan id).bind fun w =>
      let w := w.modifyChannel chan fun c => { c with destroyQueue := c.destroyQueue ++ [id] }
      if leaves then destroyCellLeaves w chan else some w

/-- `circuit_set_p_circid_chan` and `circuit_set_n_circid_chan`. -/
def circuitSetCircidChan (r : ℕ) (dir : Direction) (id : UInt32) (chan : Option ℕ) : Option World :=
  (w.side r dir).bind fun old =>
    (circuitSetCircidChanHelper w r dir id chan).bind fun w =>
      (w.side r dir).map fun s =>
        match old.chan with
        | some oldChan =>
          if s.deletePending then
            (channelMarkCircidUnusable w oldChan old.circId).setSide r dir
              { s with deletePending := false }
          else w
        | none => w

def circuitSetPCircidChan (r : ℕ) (id : UInt32) (chan : Option ℕ) : Option World :=
  circuitSetCircidChan w r .in id chan

def circuitSetNCircidChan (r : ℕ) (id : UInt32) (chan : Option ℕ) : Option World :=
  circuitSetCircidChan w r .out id chan

end

/-! ### Circuits -/

section
variable (w : World)

section
variable (r : ℕ)

def newCircuit (p : Option Side) : World :=
  { w with circuits := Function.update w.circuits r (some ⟨⟨none, 0, false⟩, p, false⟩) }

def initCircuitBase : World :=
  { w with globalCircuitlist := w.globalCircuitlist ++ [r] }

/-- `origin_circuit_new`, at an address where no circuit is. -/
def originCircuitNew : Option World :=
  if (w.circuits r).isNone then some (initCircuitBase (newCircuit w r none) r) else none

def orCircuitNew (id : UInt32) (chan : ℕ) : Option World :=
  if (w.circuits r).isNone then
    (circuitSetPCircidChan (newCircuit w r (some ⟨none, 0, false⟩)) r id (some chan)).map fun w =>
      initCircuitBase w r
  else none

def circuitMarkForClose : World :=
  { w with
    circuits := Function.update w.circuits r
      ((w.circuits r).map fun c => { c with markedForClose := true }) }

/-- One side of `circuit_about_to_free`: the channel is told and left. -/
def leaveChannel (dir : Direction) (leaves : Bool) : Option World :=
  (w.side r dir).bind fun s =>
    match s.chan with
    | none => some w
    | some chan =>
      (if (w.channels chan).condemned then some w
        else channelSendDestroy w s.circId chan leaves).bind fun w =>
          circuitSetCircidChan w r dir 0 none

def circuitAboutToFree (leavesN leavesP : Bool) : Option World :=
  (leaveChannel w r .out leavesN).bind fun w =>
    if (w.side r .in).isSome then leaveChannel w r .in leavesP else some w

def circuitFree : Option World :=
  (if (w.side r .in).isSome then circuitSetPCircidChan w r 0 none else some w).bind fun w =>
    (circuitSetNCircidChan { w with globalCircuitlist := w.globalCircuitlist.erase r } r 0
      none).map fun w => { w with circuits := Function.update w.circuits r none }

end

/-- A round of `circuit_unlink_all_from_channel`. -/
def unlinkFromChannel (chan r : ℕ) : Option World :=
  (w.circuits r).bind fun c =>
    (if c.n.chan = some chan then circuitSetNCircidChan w r 0 none else some w).bind fun w =>
      let onP := c.p.any fun p => decide (p.chan = some chan)
      (if onP then circuitSetPCircidChan w r 0 none else some w).map fun w =>
        if c.n.chan = some chan ∨ onP then circuitMarkForClose w r else w

/-- `channel_unlink_all_circuits`, beside the circuits that it detaches. -/
def channelUnlinkAllCircuits (chan : ℕ) : World :=
  w.modifyChannel chan fun c => { c with numNCircuits := 0, numPCircuits := 0 }

/-- `circuit_unlink_all_from_channel`, with the list of circuits that were detached. -/
def circuitUnlinkAllFromChannel (chan : ℕ) (detached : List ℕ) : Option World :=
  detached.foldlM (fun w r => unlinkFromChannel w chan r) (channelUnlinkAllCircuits w chan)

/-- `circuitmux_mark_destroyed_circids_usable`, and the channel is freed. No circuit points to it
any more. Another one can be made at its address. -/
def channelFree (chan : ℕ) : Option World :=
  if w.globalCircuitlist.any fun r => [Direction.out, .in].any fun dir =>
      (w.side r dir).any fun s => decide (s.chan = some chan) then none
  else
    let w := (w.channels chan).destroyQueue.foldl (fun w id => channelMarkCircidUsable w chan id) w
    some { w with
      channels := Function.update w.channels chan ⟨0, 0, [], false, false, .neither⟩ }

end

/-! ### Callers -/

/-- A CREATE cell for a new circuit; one whose ID is 0 or in use is dropped. -/
def createCell (w : World) (r : ℕ) (id : UInt32) (chan : ℕ) : Option World :=
  if id = 0 then some w
  else
    (circuitIdInUseOnChannel w id chan).bind fun use =>
      if use.1 = 0 then orCircuitNew use.2 r id chan else some use.2

/-- A CREATE cell that is answered with a DESTROY. -/
def createCellRefused (w : World) (id : UInt32) (chan : ℕ) (leaves : Bool) : Option World :=
  if id = 0 then some w
  else
    (circuitIdInUseOnChannel w id chan).bind fun use =>
      if use.1 = 0 then channelSendDestroy use.2 id chan leaves else some use.2

/-- A circuit gets an ID that is not 0 and was reported free. -/
def takeCircid (w : World) (r : ℕ) (dir : Direction) (id : UInt32) (chan : ℕ) : Option World :=
  (circuitIdInUseOnChannel w id chan).bind fun use =>
    if id ≠ 0 ∧ use.1 = 0 then circuitSetCircidChan use.2 r dir id (some chan) else none

/-- The channel of a circuit that waits for it, before there is an ID. -/
def assignNChan (w : World) (r chan : ℕ) : Option World :=
  (w.side r .out).bind fun s =>
    if s.chan = none ∧ s.circId = 0 then some (w.setSide r .out { s with chan := some chan })
    else none

/-- A RELAY_TRUNCATE cell, on a circuit with a channel. -/
def truncate (w : World) (r : ℕ) (leaves : Bool) : Option World :=
  (w.side r .out).bind fun s =>
    match s.chan with
    | none => some w
    | some chan =>
      (channelSendDestroy w s.circId chan leaves).bind fun w => circuitSetNCircidChan w r 0 none

/-! ### New circuit IDs -/

/-- The ID that a random number gives on a channel; 0 is tried again. -/
def testCircId (c : Channel) (random : UInt32) : UInt32 :=
  let maxRange : UInt32 := if c.wideCircIds then 2147483648 else 32768
  let id := random &&& (maxRange - 1)
  if id = 0 then 0
  else id ||| (if c.circIdType = .higher then maxRange else 0)

/-- The attempts of `get_unique_circ_id_by_chan`, from its random numbers; `none` where these do not
reach for the attempts. -/
def tryCircIds (chan : ℕ) : ℕ → List UInt32 → World → Option (UInt32 × World)
  | 0, _, w => some (0, w)
  | _ + 1, [], _ => none
  | attempts + 1, random :: randoms, w =>
    let id := testCircId (w.channels chan) random
    if id = 0 then tryCircIds chan (attempts + 1) randoms w
    else
      (circuitIdInUseOnChannel w id chan).bind fun use =>
        if use.1 = 0 then some (id, use.2) else tryCircIds chan attempts randoms use.2

def maxCircidAttempts : ℕ := 64

def getUniqueCircIdByChan (w : World) (chan : ℕ) (randoms : List UInt32) :
    Option (UInt32 × World) :=
  if (w.channels chan).circIdType = .neither then some (0, w)
  else tryCircIds chan maxCircidAttempts randoms w

/-! ### Events -/

inductive Event
  | originCircuitNew (r : ℕ)
  | createCell (r : ℕ) (id : UInt32) (chan : ℕ)
  | createCellRefused (id : UInt32) (chan : ℕ) (leaves : Bool)
  | takeCircid (r : ℕ) (dir : Direction) (id : UInt32) (chan : ℕ)
  | assignNChan (r chan : ℕ)
  | lookup (id : UInt32) (chan : ℕ)
  | truncate (r : ℕ) (leaves : Bool)
  /-- A DESTROY cell is received, or the circuit is otherwise taken from a channel. -/
  | detach (r : ℕ) (dir : Direction)
  | mark (r : ℕ)
  /-- A marked circuit is closed. -/
  | close (r : ℕ) (leavesN leavesP : Bool)
  | destroyLeaves (chan : ℕ)
  | condemn (chan : ℕ)
  | unlinkAll (chan : ℕ) (detached : List ℕ)
  | channelFree (chan : ℕ)
  | setCircidType (chan : ℕ) (wideCircIds : Bool) (circIdType : CircIdType)
  | pickId (chan : ℕ) (randoms : List UInt32)
  | tick (now : ℤ)

def mapStep (w : World) : Event → Option World
  | .originCircuitNew r => originCircuitNew w r
  | .createCell r id chan => createCell w r id chan
  | .createCellRefused id chan leaves => createCellRefused w id chan leaves
  | .takeCircid r dir id chan => takeCircid w r dir id chan
  | .assignNChan r chan => assignNChan w r chan
  | .lookup id chan => (circuitGetByCircidChannelEvenIfMarked w id chan).map Prod.snd
  | .truncate r leaves => truncate w r leaves
  | .detach r dir => circuitSetCircidChan w r dir 0 none
  | .mark r => some (circuitMarkForClose w r)
  | .close r leavesN leavesP =>
    (circuitAboutToFree w r leavesN leavesP).bind fun w => circuitFree w r
  | .destroyLeaves chan => destroyCellLeaves w chan
  | .condemn chan => some (w.modifyChannel chan fun c => { c with condemned := true })
  | .unlinkAll chan detached => circuitUnlinkAllFromChannel w chan detached
  | .channelFree chan => channelFree w chan
  | .setCircidType chan wideCircIds circIdType =>
    some (w.modifyChannel chan fun c =>
      { c with wideCircIds := wideCircIds, circIdType := circIdType })
  | .pickId chan randoms => (getUniqueCircIdByChan w chan randoms).map Prod.snd
  | .tick now => some { w with approxTime := now }

/-- No circuits and no channels yet. -/
def World.start : World :=
  ⟨.empty, fun _ => none, [], fun _ => ⟨0, 0, [], false, false, .neither⟩, 0⟩

/-! ### Owners

A circuit ID on a channel is owned by a circuit, by a queued DESTROY, or by nobody. -/

abbrev Key := ℕ × UInt32

/-- `some (some r)` for a circuit, `some none` for a placeholder. -/
def ownerOf (t : Table Key MapEntry) (k : Key) : Option (Option ℕ) :=
  (t.view k).map MapEntry.circuit

def World.owner (w : World) : Key → Option (Option ℕ) := ownerOf w.chanCircidMap

def World.queue (w : World) (chan : ℕ) : List UInt32 := (w.channels chan).destroyQueue

variable {w : World} {t : Table Key MapEntry} {k : Key} {r chan : ℕ} {id : UInt32} {dir : Direction}
  {s : Side} {v : MapEntry} {newChan : Option ℕ}

theorem ownerOf_update (t : Table Key MapEntry) (t' : Table Key MapEntry)
    (h : t'.view = Function.update t.view k (some v)) :
    ownerOf t' = Function.update (ownerOf t) k (some v.circuit) := by
  funext k'
  rw [ownerOf, h]
  by_cases hk : k' = k
  · simp [hk]
  · simp [hk, ownerOf]

theorem ownerOf_remove (t : Table Key MapEntry) (t' : Table Key MapEntry)
    (h : t'.view = Function.update t.view k none) :
    ownerOf t' = Function.update (ownerOf t) k none := by
  funext k'
  rw [ownerOf, h]
  by_cases hk : k' = k
  · simp [hk]
  · simp [hk, ownerOf]

theorem ownerOf_eq_none (h : t.Sound) : ownerOf t k = none ↔ t.table k = none := by
  rw [ownerOf, Option.map_eq_none_iff, h.view_eq_none]

/-! ### Sides -/

theorem side_setSide_self (dir : Direction) (s : Side) (h : (w.circuits r).isSome) :
    (w.setSide r dir s).side r dir = some s := by
  obtain ⟨c, hc⟩ := Option.isSome_iff_exists.mp h
  simp only [World.side, World.setSide, Function.update_self, hc, Option.map_some, Option.bind_some]
  cases dir <;> rfl

theorem side_setSide_dir {dir' : Direction} (h : dir' ≠ dir) :
    (w.setSide r dir s).side r dir' = w.side r dir' := by
  simp only [World.side, World.setSide, Function.update_self]
  cases w.circuits r with
  | none => rfl
  | some c =>
    cases dir <;> cases dir'
    · exact absurd rfl h
    · rfl
    · rfl
    · exact absurd rfl h

theorem side_setSide_of_ne {r' : ℕ} {dir' : Direction} (h : r' ≠ r) :
    (w.setSide r dir s).side r' dir' = w.side r' dir' := by
  simp only [World.side, World.setSide, Function.update_of_ne h]

theorem side_setSide (dir : Direction) (s : Side) (h : (w.circuits r).isSome) (r' : ℕ)
    (dir' : Direction) :
    (w.setSide r dir s).side r' dir' = if r' = r ∧ dir' = dir then some s else w.side r' dir' := by
  by_cases hr : r' = r
  · by_cases hdir : dir' = dir
    · rw [if_pos ⟨hr, hdir⟩, hr, hdir]
      exact side_setSide_self dir s h
    · rw [if_neg fun heq => hdir heq.2, hr]
      exact side_setSide_dir hdir
  · rw [if_neg fun heq => hr heq.1]
    exact side_setSide_of_ne hr

theorem side_isSome (h : w.side r dir = some s) : (w.circuits r).isSome := by
  obtain ⟨c, hc, -⟩ := Option.bind_eq_some_iff.mp h
  rw [hc]
  rfl

theorem channels_modifyChannel (w : World) (chan : ℕ) (f : Channel → Channel) (c : ℕ) :
    (w.modifyChannel chan f).channels c = if c = chan then f (w.channels chan) else w.channels c :=
  Function.update_apply _ _ _ _

theorem circuits_setSide (w : World) (r : ℕ) (dir : Direction) (s : Side) (r' : ℕ) :
    ((w.setSide r dir s).circuits r').isSome = (w.circuits r').isSome := by
  by_cases hr : r' = r
  · simp [World.setSide, hr]
  · simp [World.setSide, hr]

/-! ### Lookups -/

section
variable (h : w.chanCircidMap.Sound)
include h

theorem circuitGetByCircidChannelImpl_eq (id : UInt32) (chan : ℕ) : ∃ t : Table Key MapEntry,
      circuitGetByCircidChannelImpl w id chan =
        some (w.chanCircidMap.view (chan, id), { w with chanCircidMap := t }) ∧
      t.Sound ∧ t.view = w.chanCircidMap.view := by
  obtain ⟨last, hlookup, hsound⟩ := h.lookup (chan, id)
  refine ⟨{ w.chanCircidMap with last := last }, ?_, hsound, rfl⟩
  rw [circuitGetByCircidChannelImpl, hlookup]
  rfl

theorem circuitGetEvenIfMarked_eq (id : UInt32) (chan : ℕ) : ∃ t : Table Key MapEntry,
      circuitGetByCircidChannelEvenIfMarked w id chan =
        some ((w.owner (chan, id)).join, { w with chanCircidMap := t }) ∧
      t.Sound ∧ ownerOf t = w.owner := by
  obtain ⟨t, hget, hsound, hview⟩ := circuitGetByCircidChannelImpl_eq h id chan
  refine ⟨t, ?_, hsound, ?_⟩
  · rw [circuitGetByCircidChannelEvenIfMarked, hget, Option.map_some, World.owner, ownerOf]
    cases w.chanCircidMap.view (chan, id) <;> rfl
  · funext k
    rw [ownerOf, hview]
    rfl

theorem circuitIdInUse_eq (id : UInt32) (chan : ℕ) : ∃ (use : ℕ) (t : Table Key MapEntry),
      circuitIdInUseOnChannel w id chan = some (use, { w with chanCircidMap := t }) ∧
      (use = 0 ↔ w.owner (chan, id) = none) ∧ t.Sound ∧ ownerOf t = w.owner := by
  obtain ⟨t, hget, hsound, hview⟩ := circuitGetByCircidChannelImpl_eq h id chan
  have howner : ownerOf t = w.owner := by
    funext k
    rw [ownerOf, hview]
    rfl
  rw [circuitIdInUseOnChannel, hget, Option.map_some, World.owner, ownerOf]
  cases hentry : w.chanCircidMap.view (chan, id) with
  | none => exact ⟨0, t, rfl, iff_of_true rfl rfl, hsound, howner⟩
  | some ent =>
    by_cases hcircuit : ent.circuit.isSome = true
    · refine ⟨1, t, ?_, iff_of_false Nat.one_ne_zero nofun, hsound, howner⟩
      dsimp only
      rw [if_pos hcircuit]
    · refine ⟨2, t, ?_, iff_of_false (Nat.succ_ne_zero 1) nofun, hsound, howner⟩
      dsimp only
      rw [if_neg hcircuit]

end

/-! ### Placeholders -/

theorem channelMarkCircidUnusable_eq (h : w.chanCircidMap.Sound) (hfree : w.owner (chan, id) = none) :
    ∃ t : Table Key MapEntry,
      channelMarkCircidUnusable w chan id = { w with chanCircidMap := t } ∧ t.Sound ∧
      ownerOf t = Function.update w.owner (chan, id) (some none) := by
  have htable := (ownerOf_eq_none h).mp hfree
  obtain ⟨hsound, hview⟩ := h.insert htable ⟨none, w.approxTime⟩
  refine ⟨_, ?_, hsound, ownerOf_update _ _ hview⟩
  rw [channelMarkCircidUnusable, h.view_eq_none.mpr htable]

theorem channelMarkCircidUsable_eq (h : w.chanCircidMap.Sound)
    (hplaceholder : w.owner (chan, id) = some none) : ∃ t : Table Key MapEntry,
      channelMarkCircidUsable w chan id = { w with chanCircidMap := t } ∧ t.Sound ∧
      ownerOf t = Function.update w.owner (chan, id) none := by
  obtain ⟨ent, hview, hcircuit⟩ := Option.map_eq_some_iff.mp hplaceholder
  obtain ⟨p, hp, hnode⟩ := h.view_eq_some.mp hview
  -- The pointer of the last lookup is dropped before the node is.
  have hlast : ∃ last, p ∉ last ∧ Table.Sound { w.chanCircidMap with last := last } ∧
      (if (w.chanCircidMap.unlink (chan, id)).last = some p then
        { w.chanCircidMap.unlink (chan, id) with last := none }
      else w.chanCircidMap.unlink (chan, id)) =
        Table.unlink { w.chanCircidMap with last := last } (chan, id) := by
    by_cases heq : w.chanCircidMap.last = some p
    · refine ⟨none, nofun, h.withLast nofun, ?_⟩
      exact if_pos heq
    · refine ⟨w.chanCircidMap.last, fun hmem => heq hmem, h, ?_⟩
      exact if_neg heq
  obtain ⟨last, hmem, hsound, hunlink⟩ := hlast
  obtain ⟨hsound', hview'⟩ := hsound.remove hp hmem
  refine ⟨_, ?_, hsound', ownerOf_remove _ _ hview'⟩
  rw [channelMarkCircidUsable, hp, hview]
  dsimp only
  rw [hcircuit, Option.isSome_none, if_neg Bool.false_ne_true]
  exact congrArg (fun t : Table Key MapEntry => { w with chanCircidMap := t.free p }) hunlink

/-! ### Attaching and detaching -/

theorem at_iff {c : ℕ} {k : Key} : some c = some k.1 ∧ id = k.2 ↔ k = (c, id) := by
  rw [Option.some.injEq, Prod.ext_iff]
  exact and_congr eq_comm eq_comm

theorem removeOldEntry_eq (h : w.chanCircidMap.Sound) (dir : Direction) {oldChan : Option ℕ}
    {oldId : UInt32} (hlast : ∀ c, oldChan = some c → ∀ p ∈ w.chanCircidMap.last, ∀ v,
      w.chanCircidMap.heap p ≠ some ((c, oldId), v)) :
    ∃ (t : Table Key MapEntry) (channels : ℕ → Channel),
      removeOldEntry w dir oldChan oldId = { w with chanCircidMap := t, channels := channels } ∧
      t.Sound ∧
      (∀ k, ownerOf t k = if oldChan = some k.1 ∧ oldId = k.2 then none else w.owner k) ∧
      ∀ c, channels c = if oldChan = some c ∧ w.owner (c, oldId) ≠ none then
        (w.channels c).removeCircuit dir else w.channels c := by
  cases oldChan with
  | none =>
    refine ⟨w.chanCircidMap, w.channels, rfl, h, fun k => ?_, fun c => ?_⟩
    · rw [if_neg fun heq => nomatch heq.1]
      rfl
    · rw [if_neg fun heq => nomatch heq.1]
  | some chan =>
    cases hp : w.chanCircidMap.table (chan, oldId) with
    | none =>
      have howner : w.owner (chan, oldId) = none := (ownerOf_eq_none h).mpr hp
      refine ⟨w.chanCircidMap, w.channels, ?_, h, fun k => ?_, fun c => ?_⟩
      · simp [removeOldEntry, hp]
      · split
        case isTrue heq => exact at_iff.mp heq ▸ howner
        case isFalse => rfl
      · rw [if_neg]
        rintro ⟨hchan, hne⟩
        cases hchan
        exact hne howner
    | some p =>
      have howner : w.owner (chan, oldId) ≠ none := by
        rw [World.owner, ne_eq, ownerOf_eq_none h, hp]
        exact Option.some_ne_none p
      have hmem : p ∉ w.chanCircidMap.last := by
        intro hmem
        obtain ⟨v, hnode⟩ := h.node _ _ hp
        exact hlast chan rfl p hmem v hnode
      obtain ⟨hsound, hview⟩ := h.remove hp hmem
      refine ⟨_, (w.modifyChannel chan (Channel.removeCircuit dir)).channels, ?_, hsound,
        fun k => ?_, fun c => ?_⟩
      · simp only [removeOldEntry, hp]
        rfl
      · rw [ownerOf_remove _ _ hview, Function.update_apply]
        simp only [at_iff]
        rfl
      · rw [channels_modifyChannel]
        by_cases hc : c = chan
        · rw [if_pos hc, if_pos ⟨by rw [hc], by rw [hc]; exact howner⟩, hc]
        · rw [if_neg hc, if_neg]
          rintro ⟨hchan, -⟩
          exact hc (Option.some.inj hchan).symm

theorem addNewEntry_eq (h : w.chanCircidMap.Sound) (r : ℕ) (dir : Direction)
    (hfree : ∀ c, newChan = some c → w.owner (c, id) = none) :
    ∃ (t : Table Key MapEntry) (channels : ℕ → Channel),
      addNewEntry w r dir id newChan = { w with chanCircidMap := t, channels := channels } ∧
      t.Sound ∧
      (∀ k, ownerOf t k = if newChan = some k.1 ∧ id = k.2 then some (some r) else w.owner k) ∧
      ∀ c, channels c = if newChan = some c then (w.channels c).addCircuit dir
        else w.channels c := by
  cases newChan with
  | none =>
    refine ⟨w.chanCircidMap, w.channels, rfl, h, fun k => ?_, fun c => ?_⟩
    · rw [if_neg fun heq => nomatch heq.1]
      rfl
    · rw [if_neg nofun]
  | some chan =>
    have htable := (ownerOf_eq_none h).mp (hfree chan rfl)
    obtain ⟨hsound, hview⟩ := h.insert htable ⟨some r, 0⟩
    refine ⟨_, (w.modifyChannel chan (Channel.addCircuit dir)).channels, ?_, hsound, fun k => ?_,
      fun c => ?_⟩
    · simp only [addNewEntry, htable]
      rfl
    · rw [ownerOf_update _ _ hview, Function.update_apply]
      simp only [at_iff]
      rfl
    · rw [channels_modifyChannel]
      by_cases hc : c = chan
      · rw [if_pos hc, if_pos (by rw [hc]), hc]
      · rw [if_neg hc, if_neg fun heq => hc (Option.some.inj heq).symm]

/-- The owners after a side moves to another channel and ID, or to none: a queued DESTROY keeps the
old ID. -/
def ownerAfter (w : World) (r : ℕ) (s : Side) (id : UInt32) (newChan : Option ℕ) (k : Key) :
    Option (Option ℕ) :=
  if newChan = some k.1 ∧ id = k.2 then some (some r)
  else if s.chan = some k.1 ∧ s.circId = k.2 then (if s.deletePending then some none else none)
  else w.owner k

/-- The counts after the move. -/
def recounted (w : World) (dir : Direction) (s : Side) (newChan : Option ℕ) (c : ℕ) : Channel :=
  let left := if s.chan = some c ∧ w.owner (c, s.circId) ≠ none then
    (w.channels c).removeCircuit dir else w.channels c
  if newChan = some c then left.addCircuit dir else left

/-- What a side can move to: nothing, or an ID that nobody owns. -/
structure Movable (w : World) (s : Side) (id : UInt32) (newChan : Option ℕ) : Prop where
  free : ∀ c, newChan = some c → w.owner (c, id) = none
  other : ∀ c, newChan = some c → ¬ (s.chan = some c ∧ s.circId = id)
  nothing : newChan = none → id = 0
  detached : s.chan = none → s.circId = 0 ∧ s.deletePending = false

theorem circuitSetCircidChanHelper_eq (h : w.chanCircidMap.Sound)
    (hs : w.side r dir = some s) (hm : Movable w s id newChan)
    (hmoves : ¬ (id = s.circId ∧ newChan = s.chan)) :
    ∃ (t : Table Key MapEntry) (channels : ℕ → Channel),
      circuitSetCircidChanHelper w r dir id newChan =
        some { w.setSide r dir ⟨newChan, id, s.deletePending⟩ with
          chanCircidMap := t, channels := channels } ∧
      t.Sound ∧
      (∀ k, ownerOf t k = if newChan = some k.1 ∧ id = k.2 then some (some r)
        else if s.chan = some k.1 ∧ s.circId = k.2 then none else w.owner k) ∧
      ∀ c, channels c = recounted w dir s newChan c := by
  obtain ⟨last, hforget, hsound, hlast⟩ := h.forget fun k =>
    decide (s.chan = some k.1 ∧ s.circId = k.2) || decide (newChan = some k.1 ∧ id = k.2)
  have hold : ∀ c, s.chan = some c → ∀ p ∈ last, ∀ v,
      w.chanCircidMap.heap p ≠ some ((c, s.circId), v) := by
    intro c hc p hp v hnode
    have hkey := hlast p hp _ v hnode
    rw [Bool.or_eq_false_iff] at hkey
    exact of_decide_eq_false hkey.1 ⟨hc, rfl⟩
  obtain ⟨t₁, channels₁, hremove, hsound₁, howner₁, hchannels₁⟩ :=
    removeOldEntry_eq (w := { w with chanCircidMap := { w.chanCircidMap with last := last } })
      hsound dir hold
  have hfree : ∀ c, newChan = some c → ownerOf t₁ (c, id) = none := by
    intro c hc
    rw [howner₁]
    split
    · rfl
    · exact hm.free c hc
  obtain ⟨t₂, channels₂, hadd, hsound₂, howner₂, hchannels₂⟩ :=
    addNewEntry_eq (w := { w.setSide r dir ⟨newChan, id, s.deletePending⟩ with
      chanCircidMap := t₁, channels := channels₁ }) hsound₁ r dir hfree
  refine ⟨t₂, channels₂, ?_, hsound₂, fun k => ?_, fun c => ?_⟩
  · rw [circuitSetCircidChanHelper, hs, Option.bind_some, if_neg hmoves, hforget, Option.map_some]
    rw [hremove]
    exact congrArg some hadd
  · rw [howner₂]
    split
    · rfl
    · exact howner₁ k
  · rw [hchannels₂]
    unfold recounted
    split
    · exact congrArg _ (hchannels₁ c)
    · exact hchannels₁ c

/-- A side moves: its flag becomes a placeholder for the old ID. -/
theorem circuitSetCircidChan_eq (h : w.chanCircidMap.Sound)
    (hs : w.side r dir = some s) (hm : Movable w s id newChan) :
    ∃ (t : Table Key MapEntry) (channels : ℕ → Channel) (circuits : ℕ → Option Circuit),
      circuitSetCircidChan w r dir id newChan =
        some { w with chanCircidMap := t, channels := channels, circuits := circuits } ∧
      t.Sound ∧ (∀ k, ownerOf t k = ownerAfter w r s id newChan k) ∧
      (∀ c, channels c = recounted w dir s newChan c) ∧
      (∀ r', (circuits r').isSome = (w.circuits r').isSome) ∧
      ∀ r' dir', (circuits r').bind (fun c => c.side dir') =
        if r' = r ∧ dir' = dir then some ⟨newChan, id, false⟩ else w.side r' dir' := by
  by_cases hmoves : id = s.circId ∧ newChan = s.chan
  · -- The side was detached, and stays so.
    have hnone : newChan = none := by
      cases hnew : newChan with
      | none => rfl
      | some c => exact absurd ⟨hmoves.2.symm.trans hnew, hmoves.1.symm⟩ (hm.other c hnew)
    have hchan : s.chan = none := hmoves.2.symm.trans hnone
    have hside : s = ⟨newChan, id, false⟩ := by
      rw [hmoves.1, hmoves.2, ← (hm.detached hchan).2]
    refine ⟨w.chanCircidMap, w.channels, w.circuits, ?_, h, fun k => ?_, fun c => ?_, fun _ => rfl,
      fun r' dir' => ?_⟩
    · rw [circuitSetCircidChan, hs, Option.bind_some, circuitSetCircidChanHelper, hs,
        Option.bind_some, if_pos hmoves, Option.bind_some, hs, Option.map_some, hchan]
    · rw [ownerAfter, if_neg (by rw [hnone]; exact nofun), if_neg (by rw [hchan]; exact nofun)]
      rfl
    · rw [recounted, if_neg (by rw [hnone]; exact nofun), if_neg (by rw [hchan]; exact nofun)]
    · split
      case isTrue heq =>
        rw [heq.1, heq.2, ← hside]
        exact hs
      case isFalse => rfl
  · obtain ⟨t, channels, hhelper, hsound, howner, hchannels⟩ :=
      circuitSetCircidChanHelper_eq h hs hm hmoves
    have hlive := side_isSome hs
    have hself := side_setSide_self dir ⟨newChan, id, s.deletePending⟩ hlive
    have hhelped : (World.side { w.setSide r dir ⟨newChan, id, s.deletePending⟩ with
        chanCircidMap := t, channels := channels } r dir) =
          some ⟨newChan, id, s.deletePending⟩ := hself
    cases hpending : s.deletePending with
    | false =>
      refine ⟨t, channels, (w.setSide r dir ⟨newChan, id, s.deletePending⟩).circuits, ?_, hsound,
        fun k => ?_, hchannels, circuits_setSide w r dir _, fun r' dir' => ?_⟩
      · rw [circuitSetCircidChan, hs, Option.bind_some, hhelper, Option.bind_some, hhelped,
          Option.map_some, hpending]
        cases s.chan <;> rfl
      · rw [howner, ownerAfter, hpending]
        rfl
      · rw [← hpending]
        exact side_setSide dir _ hlive r' dir'
    | true =>
      cases hchan : s.chan with
      | none =>
        rw [(hm.detached hchan).2] at hpending
        exact Bool.noConfusion hpending
      | some c =>
        have hfree : World.owner { w.setSide r dir ⟨newChan, id, s.deletePending⟩ with
            chanCircidMap := t, channels := channels } (c, s.circId) = none := by
          change ownerOf t (c, s.circId) = none
          rw [howner, if_neg fun heq => hm.other c heq.1 ⟨hchan, heq.2.symm⟩,
            if_pos ⟨hchan, rfl⟩]
        obtain ⟨t', hmark, hsound', howner'⟩ := channelMarkCircidUnusable_eq hsound hfree
        refine ⟨t', channels, (World.setSide (w.setSide r dir ⟨newChan, id, s.deletePending⟩) r dir
          ⟨newChan, id, false⟩).circuits, ?_, hsound', fun k => ?_, hchannels, fun r' => ?_,
          fun r' dir' => ?_⟩
        · rw [circuitSetCircidChan, hs, Option.bind_some, hhelper, Option.bind_some, hhelped,
            Option.map_some, hchan]
          change some (if s.deletePending = true then _ else _) = _
          rw [if_pos hpending]
          exact congrArg (fun w' : World => some (w'.setSide r dir ⟨newChan, id, false⟩)) hmark
        · rw [howner', Function.update_apply]
          change (if k = (c, s.circId) then _ else ownerOf t k) = _
          rw [howner, ownerAfter, hpending, hchan]
          by_cases hk : k = (c, s.circId)
          · rw [if_pos hk, if_neg, if_pos (at_iff.mpr hk), if_pos rfl]
            rintro ⟨hnew, hid⟩
            rw [hk] at hnew hid
            exact hm.other c hnew ⟨hchan, hid.symm⟩
          · rw [if_neg hk]
            split
            · rfl
            · rw [if_neg (mt at_iff.mp hk), if_neg (mt at_iff.mp hk)]
        · rw [circuits_setSide, circuits_setSide]
        · have hlive' : ((w.setSide r dir ⟨newChan, id, s.deletePending⟩).circuits r).isSome := by
            rw [circuits_setSide]
            exact hlive
          refine (side_setSide dir ⟨newChan, id, false⟩ hlive' r' dir').trans ?_
          split
          · rfl
          case isFalse hne => rw [side_setSide dir _ hlive, if_neg hne]

end TorDaemon.CircuitList

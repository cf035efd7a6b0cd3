import Mathlib.Data.List.Nodup
import TorDaemon.Padding.Limits

/-! The queues of the create cells that wait for a CPU worker (`onion_queue.c`). Circuits are
numbers. An entry's address is the number of its create cell, in the order in which the cells
are accepted, so that the memory of a freed entry is never used again. -/
namespace TorDaemon.Relay.OnionQueue
open Library.Reachability

inductive QueueIdx
  | tap
  | fast
  | ntor
  deriving DecidableEq

/-- `onion_queue_t` -/
structure Entry where
  ptr : ℕ
  circ : ℕ
  queueIdx : QueueIdx
  onionskin : Option ℕ
  whenAdded : ℤ
  deriving DecidableEq

/-- The queues with the fields that circuits have for them. The last three count the create
cells that were accepted, and name those that were handed out and those that were freed. -/
structure State where
  olList : QueueIdx → List Entry
  olEntries : QueueIdx → ℤ
  onionqueueEntry : ℕ → Option ℕ
  markedForClose : ℕ → Bool
  waitCutoff : ℤ
  maxDelay : ℤ
  accepted : ℕ
  handedOut : List ℕ
  freed : List ℕ

def State.init : State :=
  ⟨fun _ => [], fun _ => 0, fun _ => none, fun _ => false, 5, 1750, 0, [], []⟩

/-- All the entries. -/
def State.queued (s : State) : List Entry := s.olList .tap ++ (s.olList .fast ++ s.olList .ntor)

/-- Why the code cannot go on. -/
inductive Stop
  | assertion
  | nullRead
  | dangling
  | endless
  deriving DecidableEq

theorem ok_bind {α β : Type} (a : α) (f : α → Except Stop β) : (Except.ok a >>= f) = f a := rfl

/-! ### The code -/

/-- What `onion_pending_add` reads elsewhere: the clock, `MaxOnionQueueDelay` of the options,
the number of threads and what `estimated_usec_for_onionskins` returns. -/
structure Surroundings where
  now : ℤ
  maxOnionQueueDelay : ℤ
  numCpus : ℕ
  estimatedUsec : ℤ → ℕ

def onionskinTypeToQueue : ℕ → QueueIdx
  | 0 => .tap
  | 1 => .fast
  | _ => .ntor

def State.getOnionQueueMaxDelay (s : State) (env : Surroundings) : ℤ :=
  if 0 < env.maxOnionQueueDelay then env.maxOnionQueueDelay else s.maxDelay

def haveRoomForOnionskin (env : Surroundings) (type : QueueIdx) (s : State) : Except Stop Bool :=
  if type = .tap then .ok false
  else if s.olEntries type < 50 then .ok true
  else if env.numCpus = 0 then .error .assertion
  else
    let ntorUsec := env.estimatedUsec (s.olEntries .ntor) / env.numCpus
    if type = .ntor ∧ s.getOnionQueueMaxDelay env < (ntorUsec / 1000 : ℕ) then .ok false
    else .ok true

/-- The entry leaves its queue and its circuit, and is counted no more if it has its cell. -/
def State.detach (s : State) (victim : Entry) : State :=
  { s with
    olList := Function.update s.olList victim.queueIdx
      ((s.olList victim.queueIdx).erase victim)
    onionqueueEntry := Function.update s.onionqueueEntry victim.circ none
    olEntries :=
      if victim.onionskin.isSome then
        Function.update s.olEntries victim.queueIdx (s.olEntries victim.queueIdx - 1)
      else s.olEntries }

/-- `onion_queue_entry_remove` of the entry at an address. -/
def onionQueueEntryRemove (ptr : ℕ) (s : State) : Except Stop State :=
  match s.queued.find? (·.ptr = ptr) with
  | none => .error .dangling
  | some victim =>
    .ok { s.detach victim with freed := s.freed ++ victim.onionskin.toList }

def circuitMarkForClose (circ : ℕ) (s : State) : State :=
  { s with markedForClose := Function.update s.markedForClose circ true }

/-- The loop that culls elderly requests, for so many turns. -/
def cull (now : ℤ) (queueIdx : QueueIdx) : ℕ → State → Except Stop State
  | 0, _ => .error .endless
  | turns + 1, s =>
    match s.olList queueIdx with
    | [] => .error .nullRead
    | head :: _ =>
      if now - head.whenAdded < s.waitCutoff then .ok s
      else do
        let s ← onionQueueEntryRemove head.ptr
          { s with onionqueueEntry := Function.update s.onionqueueEntry head.circ none }
        cull now queueIdx turns
          (if s.markedForClose head.circ then s else circuitMarkForClose head.circ s)

/-- The new entry at the tail of its queue. -/
def State.enqueue (s : State) (circ : ℕ) (queueIdx : QueueIdx) (now : ℤ) : State :=
  { s with
    olList := Function.update s.olList queueIdx
      (s.olList queueIdx ++ [⟨s.accepted, circ, queueIdx, some s.accepted, now⟩])
    olEntries := Function.update s.olEntries queueIdx (s.olEntries queueIdx + 1)
    onionqueueEntry := Function.update s.onionqueueEntry circ (some s.accepted)
    accepted := s.accepted + 1 }

/-- `onion_pending_add`, which returns whether the create cell was accepted. -/
def onionPendingAdd (env : Surroundings) (circ handshakeType : ℕ) (s : State) :
    Except Stop (Bool × State) :=
  if 3 < handshakeType then .ok (false, s)
  else do
    let queueIdx := onionskinTypeToQueue handshakeType
    if ← haveRoomForOnionskin env queueIdx s then
      let s ← cull env.now queueIdx ((s.olList queueIdx).length + 1)
        (s.enqueue circ queueIdx env.now)
      return (true, s)
    else return (false, s)

/-- The create cell is taken from the head of the ntor queue, which is still in it. -/
def State.takeOnionskin (s : State) (head : Entry) (rest : List Entry) : State :=
  { s with
    olList := Function.update s.olList .ntor ({ head with onionskin := none } :: rest)
    olEntries :=
      if head.onionskin.isSome then
        Function.update s.olEntries head.queueIdx (s.olEntries head.queueIdx - 1)
      else s.olEntries
    onionqueueEntry := Function.update s.onionqueueEntry head.circ none
    handedOut := s.handedOut ++ head.onionskin.toList }

/-- `onion_next_task`: the circuit and its create cell. -/
def onionNextTask (s : State) : Except Stop (Option (ℕ × Option ℕ) × State) :=
  match s.olList .ntor with
  | [] => .ok (none, s)
  | head :: rest => do
    let s ← onionQueueEntryRemove head.ptr (s.takeOnionskin head rest)
    return (some (head.circ, head.onionskin), s)

def onionPendingRemove (circ : ℕ) (s : State) : Except Stop State :=
  match s.onionqueueEntry circ with
  | none => .ok s
  | some victim => onionQueueEntryRemove victim s

/-- The loop of `clear_pending_onions` over the entries of a queue. -/
def clearEntries : List Entry → State → Except Stop State
  | [], s => .ok s
  | victim :: next, s => do
    let s ← onionQueueEntryRemove victim.ptr s
    clearEntries next s

def clearQueue (queueIdx : QueueIdx) (s : State) : Except Stop State := do
  let s ← clearEntries (s.olList queueIdx) s
  if s.olList queueIdx = [] then return s else throw .assertion

def clearPendingOnions (s : State) : Except Stop State := do
  let s ← clearQueue .tap s
  let s ← clearQueue .fast s
  let s ← clearQueue .ntor s
  return { s with olEntries := fun _ => 0 }

/-- `onion_consensus_has_changed`, with the values that the consensus has. -/
def onionConsensusHasChanged (maxDelay waitCutoff : Option ℤ) (s : State) : State :=
  { s with
    maxDelay := Padding.Machine.networkstatusGetParam maxDelay 1750 1 (2 ^ 31 - 1)
    waitCutoff := Padding.Machine.networkstatusGetParam waitCutoff 5 1 (2 ^ 31 - 1) }

inductive Op
  | add (env : Surroundings) (circ handshakeType : ℕ)
  | nextTask
  | remove (circ : ℕ)
  | markForClose (circ : ℕ)
  | clear
  | consensusHasChanged (maxDelay waitCutoff : Option ℤ)

def step (s : State) : Op → Except Stop State
  | .add env circ handshakeType => (onionPendingAdd env circ handshakeType s).map Prod.snd
  | .nextTask => (onionNextTask s).map Prod.snd
  | .remove circ => onionPendingRemove circ s
  | .markForClose circ => .ok (circuitMarkForClose circ s)
  | .clear => clearPendingOnions s
  | .consensusHasChanged maxDelay waitCutoff =>
    .ok (onionConsensusHasChanged maxDelay waitCutoff s)

/-- A circuit that is added is not queued already. -/
def Allowed (s : State) : Op → Prop
  | .add _ circ _ => ∀ e ∈ s.queued, e.circ ≠ circ
  | _ => True

instance : ∀ (s : State) (op : Op), Decidable (Allowed s op)
  | s, .add _ circ _ => inferInstanceAs (Decidable (∀ e ∈ s.queued, e.circ ≠ circ))
  | _, .nextTask | _, .remove _ | _, .markForClose _ | _, .clear
  | _, .consensusHasChanged _ _ => .isTrue trivial

/-! ### The invariant -/

/-- The queues, the counters and the circuits agree. -/
structure Linked (s : State) : Prop where
  placed : ∀ q, ∀ e ∈ s.olList q, e.queueIdx = q
  full : ∀ e ∈ s.queued, e.onionskin = some e.ptr
  counted : ∀ q, s.olEntries q = (s.olList q).length
  circs : (s.queued.map (·.circ)).Nodup
  pointers : ∀ c p, s.onionqueueEntry c = some p ↔ ∃ e ∈ s.queued, e.circ = c ∧ e.ptr = p
  cutoff : 1 ≤ s.waitCutoff

/-- Each accepted create cell is freed, handed out or still queued, and those of the ntor queue
are handed out in their order. -/
structure Accounted (s : State) : Prop where
  account : (s.freed ++ s.handedOut ++ s.queued.map (·.ptr)).Perm (List.range s.accepted)
  order : (s.handedOut ++ (s.olList .ntor).map (·.ptr)).Pairwise (· < ·)

section Invariant
variable {s : State} {e : Entry} {q : QueueIdx}

theorem mem_queued : e ∈ s.queued ↔ ∃ q, e ∈ s.olList q := by
  simp only [State.queued, List.mem_append]
  constructor
  · rintro (h | h | h)
    exacts [⟨_, h⟩, ⟨_, h⟩, ⟨_, h⟩]
  · rintro ⟨q | q | q, h⟩
    exacts [.inl h, .inr (.inl h), .inr (.inr h)]

theorem Linked.mem_olList (h : Linked s) (he : e ∈ s.queued) : e ∈ s.olList e.queueIdx := by
  obtain ⟨q, hq⟩ := mem_queued.mp he
  rwa [h.placed q e hq]

theorem queued_detach (he : e ∈ s.olList e.queueIdx) :
    s.queued.Perm (e :: (s.detach e).queued) := by
  have herase := List.perm_cons_erase he
  simp only [State.queued, State.detach]
  cases hq : e.queueIdx <;> rw [hq] at herase <;> simp only [Function.update_apply]
  · exact herase.append_right _
  · exact ((herase.append_right _).append_left _).trans List.perm_middle
  · exact ((herase.append_left _).append_left _).trans
      ((List.perm_middle.append_left _).trans List.perm_middle)

theorem Linked.detach (h : Linked s) (he : e ∈ s.queued) : Linked (s.detach e) := by
  have hmem := h.mem_olList he
  have hperm := queued_detach hmem
  have hsub : ∀ e' ∈ (s.detach e).queued, e' ∈ s.queued := fun e' h' =>
    hperm.mem_iff.mpr (List.mem_cons_of_mem _ h')
  have hcircs := (hperm.map (·.circ)).nodup_iff.mp h.circs
  obtain ⟨hnot, hcircs⟩ := List.nodup_cons.mp hcircs
  refine ⟨fun q e' he' => ?_, fun e' he' => h.full e' (hsub e' he'), fun q => ?_, hcircs,
    fun c p => ?_, h.cutoff⟩
  · simp only [State.detach, Function.update_apply] at he'
    split at he'
    · subst q
      exact h.placed _ _ (List.mem_of_mem_erase he')
    · exact h.placed _ _ he'
  · have hcount := h.counted q
    have hlen := List.length_erase_of_mem hmem
    have hpos := List.length_pos_of_mem hmem
    simp only [State.detach, h.full e he, Option.isSome_some, if_true, Function.update_apply]
    split
    · subst q
      omega
    · exact hcount
  · simp only [State.detach, Function.update_apply]
    split
    · subst c
      simp only [reduceCtorEq, false_iff, not_exists, not_and]
      intro e' he' hcirc
      exact absurd (List.mem_map.mpr ⟨e', he', hcirc⟩) hnot
    · rename_i hne
      rw [h.pointers c p]
      constructor
      · rintro ⟨e', he', rfl, rfl⟩
        rcases List.mem_cons.mp (hperm.mem_iff.mp he') with rfl | he'
        · exact absurd rfl hne
        · exact ⟨e', he', rfl, rfl⟩
      · rintro ⟨e', he', rfl, rfl⟩
        exact ⟨e', hsub e' he', rfl, rfl⟩

/-- An entry that leaves takes its create cell with it. -/
theorem Accounted.freed (h : Accounted s) (hl : Linked s) (he : e ∈ s.queued) :
    Accounted { s.detach e with freed := s.freed ++ [e.ptr] } := by
  have hmem := hl.mem_olList he
  refine ⟨?_, h.order.sublist ((List.Sublist.map _ ?_).append_left _)⟩
  · refine List.Perm.trans ?_ h.account
    have hperm := (queued_detach hmem).map (·.ptr)
    have hmid : (s.handedOut ++ e.ptr :: (s.detach e).queued.map (·.ptr)).Perm
        (e.ptr :: (s.handedOut ++ (s.detach e).queued.map (·.ptr))) := List.perm_middle
    simp only [List.append_assoc]
    exact (hmid.symm.trans (hperm.symm.append_left _)).append_left _
  · simp only [State.detach, Function.update_apply]
    split
    · rename_i hq
      rw [hq]
      exact List.erase_sublist
    · exact List.Sublist.refl _

theorem Accounted.ptrs (h : Accounted s) : (s.queued.map (·.ptr)).Nodup :=
  ((List.nodup_append'.mp (h.account.nodup_iff.mpr List.nodup_range)).2.1)

theorem find?_ptr {l : List Entry} (hnodup : (l.map (·.ptr)).Nodup) (he : e ∈ l) :
    l.find? (·.ptr = e.ptr) = some e := by
  induction l with
  | nil => cases he
  | cons a l ih =>
    obtain ⟨hnot, hnodup⟩ := List.nodup_cons.mp hnodup
    rcases List.mem_cons.mp he with rfl | he
    · exact List.find?_cons_of_pos (by simp)
    · rw [List.find?_cons_of_neg, ih hnodup he]
      intro heq
      exact hnot (List.mem_map.mpr ⟨e, he, (of_decide_eq_true heq).symm⟩)

section
variable (h : Linked s)
include h

theorem onionQueueEntryRemove_eq (ha : Accounted s) (he : e ∈ s.queued) :
    onionQueueEntryRemove e.ptr s =
      .ok { s.detach e with freed := s.freed ++ [e.ptr] } := by
  simp [onionQueueEntryRemove, find?_ptr ha.ptrs he, h.full e he]

theorem onionQueueEntryRemove_told (ha : Accounted s) (he : e ∈ s.queued) :
    onionQueueEntryRemove e.ptr
        { s with onionqueueEntry := Function.update s.onionqueueEntry e.circ none } =
      .ok { s.detach e with freed := s.freed ++ [e.ptr] } := by
  have hqueued : State.queued
      { s with onionqueueEntry := Function.update s.onionqueueEntry e.circ none } = s.queued := rfl
  simp [onionQueueEntryRemove, hqueued, find?_ptr ha.ptrs he, State.detach, h.full e he]

theorem Linked.freed (he : e ∈ s.queued) (freed : List ℕ) :
    Linked { s.detach e with freed := freed } :=
  let hd := h.detach he
  ⟨hd.placed, hd.full, hd.counted, hd.circs, hd.pointers, hd.cutoff⟩

theorem Linked.markForClose (circ : ℕ) : Linked (circuitMarkForClose circ s) :=
  ⟨h.placed, h.full, h.counted, h.circs, h.pointers, h.cutoff⟩

end

theorem Accounted.markForClose (h : Accounted s) (circ : ℕ) :
    Accounted (circuitMarkForClose circ s) :=
  ⟨h.account, h.order⟩

end Invariant

/-! ### Each function keeps it -/

section Functions
variable {s : State} {q : QueueIdx}

theorem queued_enqueue (s : State) (circ : ℕ) (q : QueueIdx) (now : ℤ) :
    (s.enqueue circ q now).queued.Perm
      (⟨s.accepted, circ, q, some s.accepted, now⟩ :: s.queued) := by
  generalize hnew : (⟨s.accepted, circ, q, some s.accepted, now⟩ : Entry) = new
  simp only [State.queued, State.enqueue, hnew]
  cases q <;> simp only [Function.update_apply, reduceCtorEq, if_true, if_false]
  · rw [List.append_assoc]
    exact List.perm_middle
  · rw [List.append_assoc]
    exact (List.perm_middle.append_left _).trans List.perm_middle
  · rw [← List.append_assoc, ← List.append_assoc, ← List.append_assoc]
    exact List.perm_append_singleton _ _

theorem Linked.enqueue (h : Linked s) {circ : ℕ} (hfree : ∀ e ∈ s.queued, e.circ ≠ circ)
    (q : QueueIdx) (now : ℤ) : Linked (s.enqueue circ q now) := by
  have hperm := queued_enqueue s circ q now
  refine ⟨fun q' e he => ?_, fun e he => ?_, fun q' => ?_, ?_, fun c p => ?_, h.cutoff⟩
  · simp only [State.enqueue, Function.update_apply] at he
    split at he
    · subst q'
      rcases List.mem_append.mp he with he | he
      · exact h.placed _ _ he
      · rw [List.mem_singleton.mp he]
    · exact h.placed _ _ he
  · rcases List.mem_cons.mp (hperm.mem_iff.mp he) with rfl | he
    · rfl
    · exact h.full e he
  · have hcount := h.counted q'
    simp only [State.enqueue, Function.update_apply]
    split
    · subst q'
      simpa using hcount
    · exact hcount
  · rw [(hperm.map _).nodup_iff, List.map_cons, List.nodup_cons]
    refine ⟨fun hmem => ?_, h.circs⟩
    obtain ⟨e, he, hcirc⟩ := List.mem_map.mp hmem
    exact hfree e he hcirc
  · have hpointer : (s.enqueue circ q now).onionqueueEntry c =
        if c = circ then some s.accepted else s.onionqueueEntry c :=
      Function.update_apply ..
    simp only [hpointer, hperm.mem_iff, List.mem_cons, or_and_right, exists_or, exists_eq_left]
    by_cases hc : c = circ
    · subst c
      simp only [if_true, Option.some.injEq, true_and]
      refine ⟨Or.inl, ?_⟩
      rintro (hp | ⟨e, he, hcirc, -⟩)
      exacts [hp, absurd hcirc (hfree e he)]
    · rw [if_neg hc, h.pointers c p, or_iff_right (fun heq => hc heq.1.symm)]

theorem Accounted.enqueue (h : Accounted s) (circ : ℕ) (q : QueueIdx) (now : ℤ) :
    Accounted (s.enqueue circ q now) := by
  have hperm := (queued_enqueue s circ q now).map (·.ptr)
  have hlt : ∀ n ∈ s.handedOut ++ (s.olList .ntor).map (·.ptr), n < s.accepted := by
    intro n hn
    refine List.mem_range.mp (h.account.mem_iff.mp ?_)
    rcases List.mem_append.mp hn with hn | hn
    · exact List.mem_append_left _ (List.mem_append_right _ hn)
    · obtain ⟨e, he, rfl⟩ := List.mem_map.mp hn
      exact List.mem_append_right _ (List.mem_map_of_mem (mem_queued.mpr ⟨_, he⟩))
  refine ⟨?_, ?_⟩
  · have hrange : (List.range (s.enqueue circ q now).accepted).Perm
        (s.accepted :: List.range s.accepted) := by
      rw [show (s.enqueue circ q now).accepted = s.accepted + 1 from rfl, List.range_succ]
      exact List.perm_append_singleton _ _
    refine List.Perm.trans ?_ ((h.account.cons _).trans hrange.symm)
    exact (hperm.append_left _).trans List.perm_middle
  · simp only [State.enqueue, Function.update_apply]
    split
    · rename_i hq
      rw [← hq, List.map_append, ← List.append_assoc, List.pairwise_append]
      refine ⟨h.order, List.pairwise_singleton _ _, fun a ha b hb => ?_⟩
      rw [List.mem_singleton.mp hb]
      exact hlt a ha
    · exact h.order

/-- The new entry is never too old, so the loop stops at it at the latest. -/
theorem cull_ok {now : ℤ} {turns : ℕ} {before : List Entry} {last : Entry} (h : Linked s)
    (ha : Accounted s) (hlist : s.olList q = before ++ [last]) (hlast : last.whenAdded = now)
    (hturns : before.length < turns) :
    ∃ s', cull now q turns s = .ok s' ∧ Linked s' ∧ Accounted s' := by
  induction turns generalizing s before with
  | zero => omega
  | succ turns ih =>
    unfold cull
    cases before with
    | nil =>
      have hyoung : now - last.whenAdded < s.waitCutoff := by
        have := h.cutoff
        omega
      rw [List.nil_append] at hlist
      simp only [hlist]
      rw [if_pos hyoung]
      exact ⟨s, rfl, h, ha⟩
    | cons head before =>
      rw [List.cons_append] at hlist
      simp only [hlist]
      split
      · exact ⟨s, rfl, h, ha⟩
      · have he : head ∈ s.queued := mem_queued.mpr ⟨q, hlist ▸ List.mem_cons_self⟩
        have hq : head.queueIdx = q := h.placed q head (hlist ▸ List.mem_cons_self)
        rw [onionQueueEntryRemove_told h ha he]
        have hl' := h.freed he (s.freed ++ [head.ptr])
        have ha' := ha.freed h he
        have hlist' : (s.detach head).olList q = before ++ [last] := by
          simp [State.detach, hq, hlist]
        rw [ok_bind]
        split
        · exact ih hl' ha' hlist' (by simpa using hturns)
        · exact ih (hl'.markForClose _) (ha'.markForClose _) hlist' (by simpa using hturns)

theorem onionPendingAdd_ok {env : Surroundings} {circ handshakeType : ℕ} (h : Linked s)
    (ha : Accounted s) (hfree : ∀ e ∈ s.queued, e.circ ≠ circ) :
    onionPendingAdd env circ handshakeType s = .error .assertion ∧ env.numCpus = 0 ∨
      ∃ accepted s', onionPendingAdd env circ handshakeType s = .ok (accepted, s') ∧
        Linked s' ∧ Accounted s' := by
  unfold onionPendingAdd
  split
  · exact .inr ⟨false, s, rfl, h, ha⟩
  generalize onionskinTypeToQueue handshakeType = q
  dsimp only
  cases hroom : haveRoomForOnionskin env q s with
  | error stop =>
    have hstop : stop = .assertion ∧ env.numCpus = 0 := by
      unfold haveRoomForOnionskin at hroom
      dsimp only at hroom
      split_ifs at hroom with htap hfew hcpus
      exact ⟨by simpa using hroom.symm, hcpus⟩
    obtain ⟨rfl, hcpus⟩ := hstop
    exact .inl ⟨rfl, hcpus⟩
  | ok room =>
    rw [ok_bind]
    cases room with
    | false => exact .inr ⟨false, s, rfl, h, ha⟩
    | true =>
      have hlist : (s.enqueue circ q env.now).olList q =
          s.olList q ++ [⟨s.accepted, circ, q, some s.accepted, env.now⟩] := by
        simp [State.enqueue]
      obtain ⟨s', hcull, hl', ha'⟩ := cull_ok (h.enqueue hfree q env.now)
        (ha.enqueue circ q env.now) hlist rfl (Nat.lt_succ_self _)
      refine .inr ⟨true, s', ?_, hl', ha'⟩
      rw [if_pos rfl, hcull]
      rfl

/-- What `onion_next_task` does to the queues. -/
def State.handOut (s : State) (head : Entry) : State :=
  { s.detach head with handedOut := s.handedOut ++ [head.ptr] }

theorem onionNextTask_eq (h : Linked s) (ha : Accounted s) : onionNextTask s =
      match s.olList .ntor with
      | [] => .ok (none, s)
      | head :: _ => .ok (some (head.circ, some head.ptr), s.handOut head) := by
  unfold onionNextTask
  cases hlist : s.olList .ntor with
  | nil => rfl
  | cons head rest =>
    have he : head ∈ s.queued := mem_queued.mpr ⟨.ntor, hlist ▸ List.mem_cons_self⟩
    have hfull := h.full head he
    have hq : head.queueIdx = .ntor := h.placed _ _ (hlist ▸ List.mem_cons_self)
    have hlist' : (s.takeOnionskin head rest).olList .ntor =
        { head with onionskin := none } :: rest := by
      simp [State.takeOnionskin]
    have hptrs : (s.takeOnionskin head rest).queued.map (·.ptr) = s.queued.map (·.ptr) := by
      simp [State.takeOnionskin, State.queued, hlist]
    -- the entry has no create cell when it is looked up
    have hfind : (s.takeOnionskin head rest).queued.find? (·.ptr = head.ptr) =
        some { head with onionskin := none } :=
      find?_ptr (hptrs ▸ ha.ptrs) (mem_queued.mpr ⟨.ntor, hlist' ▸ List.mem_cons_self⟩)
    have hremove : onionQueueEntryRemove head.ptr (s.takeOnionskin head rest) =
        .ok (s.handOut head) := by
      rw [onionQueueEntryRemove, hfind]
      simp [State.takeOnionskin, State.detach, State.handOut, hq, hlist, hfull]
    simp only [hremove, ok_bind, hfull]
    rfl

theorem Accounted.handOut (h : Accounted s) {head : Entry} {rest : List Entry}
    (hl : Linked s) (hlist : s.olList .ntor = head :: rest) : Accounted (s.handOut head) := by
  have he : head ∈ s.queued := mem_queued.mpr ⟨.ntor, hlist ▸ List.mem_cons_self⟩
  have hq : head.queueIdx = .ntor := hl.placed _ _ (hlist ▸ List.mem_cons_self)
  have hperm := (queued_detach (hl.mem_olList he)).map (·.ptr)
  refine ⟨?_, ?_⟩
  · refine List.Perm.trans ?_ h.account
    simp only [State.handOut, List.append_assoc]
    exact (hperm.symm.append_left _).append_left _
  · have horder := h.order
    simpa [State.handOut, State.detach, hq, hlist] using horder

section
variable (h : Linked s)
include h

section
variable (ha : Accounted s)
include ha

theorem onionPendingRemove_ok (circ : ℕ) :
    ∃ s', onionPendingRemove circ s = .ok s' ∧ Linked s' ∧ Accounted s' := by
  unfold onionPendingRemove
  cases hvictim : s.onionqueueEntry circ with
  | none => exact ⟨s, rfl, h, ha⟩
  | some victim =>
    obtain ⟨e, he, -, rfl⟩ := (h.pointers circ victim).mp hvictim
    exact ⟨_, onionQueueEntryRemove_eq h ha he, h.freed he _, ha.freed h he⟩

theorem clearEntries_ok {entries : List Entry} (hlist : s.olList q = entries) :
    ∃ s', clearEntries entries s = .ok s' ∧ Linked s' ∧ Accounted s' ∧ s'.olList q = [] ∧
      ∀ q', s.olList q' = [] → s'.olList q' = [] := by
  induction entries generalizing s with
  | nil => exact ⟨s, rfl, h, ha, hlist, fun _ => id⟩
  | cons victim next ih =>
    have he : victim ∈ s.queued := mem_queued.mpr ⟨q, hlist ▸ List.mem_cons_self⟩
    have hq : victim.queueIdx = q := h.placed _ _ (hlist ▸ List.mem_cons_self)
    have hrest : (s.detach victim).olList q = next := by
      simp [State.detach, hq, hlist]
    obtain ⟨s', hclear, hl', ha', hempty, hothers⟩ :=
      ih (h.freed he (s.freed ++ [victim.ptr])) (ha.freed h he) hrest
    refine ⟨s', ?_, hl', ha', hempty, fun q' hq' => hothers q' ?_⟩
    · rw [clearEntries, onionQueueEntryRemove_eq h ha he, ok_bind, hclear]
    · simp only [State.detach, Function.update_apply]
      split
      · rename_i heq
        rw [← heq, hq']
        rfl
      · exact hq'

theorem clearQueue_ok (q : QueueIdx) :
    ∃ s', clearQueue q s = .ok s' ∧ Linked s' ∧ Accounted s' ∧ s'.olList q = [] ∧
      ∀ q', s.olList q' = [] → s'.olList q' = [] := by
  obtain ⟨s', hclear, hl', ha', hempty, hothers⟩ := clearEntries_ok h ha (q := q) rfl
  refine ⟨s', ?_, hl', ha', hempty, hothers⟩
  rw [clearQueue, hclear, ok_bind, if_pos hempty]
  rfl

theorem clearPendingOnions_ok : ∃ s', clearPendingOnions s = .ok s' ∧ Linked s' ∧ Accounted s' := by
  obtain ⟨s₁, h₁, hl₁, ha₁, htap, -⟩ := clearQueue_ok h ha .tap
  obtain ⟨s₂, h₂, hl₂, ha₂, hfast, hothers₂⟩ := clearQueue_ok hl₁ ha₁ .fast
  obtain ⟨s₃, h₃, hl₃, ha₃, hntor, hothers₃⟩ := clearQueue_ok hl₂ ha₂ .ntor
  have hempty : ∀ q, s₃.olList q = [] := by
    rintro (_ | _ | _)
    exacts [hothers₃ _ (hothers₂ _ htap), hothers₃ _ hfast, hntor]
  refine ⟨{ s₃ with olEntries := fun _ => 0 }, ?_,
    ⟨hl₃.placed, hl₃.full, fun q => by simp [hempty q], hl₃.circs, hl₃.pointers, hl₃.cutoff⟩,
    ⟨ha₃.account, ha₃.order⟩⟩
  rw [clearPendingOnions, h₁, ok_bind, h₂, ok_bind, h₃, ok_bind]
  rfl

end

theorem Linked.consensusHasChanged (maxDelay waitCutoff : Option ℤ) :
    Linked (onionConsensusHasChanged maxDelay waitCutoff s) := by
  refine ⟨h.placed, h.full, h.counted, h.circs, h.pointers, ?_⟩
  simp only [onionConsensusHasChanged, Padding.Machine.networkstatusGetParam]
  split_ifs <;> omega

end

end Functions

/-! ### Runs -/

/-- What holds of the queues at all times. -/
structure QueuesRight (s : State) : Prop where
  counted : ∀ q, s.olEntries q = (s.olList q).length
  pointers : ∀ circ ptr, s.onionqueueEntry circ = some ptr ↔
    ∃ e ∈ s.queued, e.circ = circ ∧ e.ptr = ptr
  unique : ∀ circ, (s.queued.map (·.circ)).count circ ≤ 1
  account : (s.freed ++ s.handedOut ++ s.queued.filterMap (·.onionskin)).Perm
    (List.range s.accepted)
  order : (s.handedOut ++ (s.olList .ntor).filterMap (·.onionskin)).Pairwise (· < ·)
  nextTask : ∀ head rest, s.olList .ntor = head :: rest →
    ∃ s', onionNextTask s = .ok (some (head.circ, head.onionskin), s') ∧
      s'.handedOut = s.handedOut ++ head.onionskin.toList ∧ s'.olList .ntor = rest
  nextTask_nil : s.olList .ntor = [] → onionNextTask s = .ok (none, s)
  stops : ∀ op stop, Allowed s op → step s op = .error stop →
    stop = .assertion ∧ ∃ env circ handshakeType, op = .add env circ handshakeType ∧
      env.numCpus = 0

section Runs
variable {s s' : State} {op : Op}

theorem step_ok (h : Linked s) (ha : Accounted s) (hop : Allowed s op) :
    (∃ s', step s op = .ok s' ∧ Linked s' ∧ Accounted s') ∨
      step s op = .error .assertion ∧
        ∃ env circ handshakeType, op = .add env circ handshakeType ∧ env.numCpus = 0 := by
  cases op with
  | add env circ handshakeType =>
    rcases onionPendingAdd_ok h ha hop with ⟨herror, hcpus⟩ | ⟨accepted, s', hok, hl', ha'⟩
    · exact .inr ⟨congrArg (Except.map Prod.snd) herror, env, circ, handshakeType, rfl, hcpus⟩
    · exact .inl ⟨s', congrArg (Except.map Prod.snd) hok, hl', ha'⟩
  | nextTask =>
    have hnext := onionNextTask_eq h ha
    cases hlist : s.olList .ntor with
    | nil =>
      rw [hlist] at hnext
      exact .inl ⟨s, congrArg (Except.map Prod.snd) hnext, h, ha⟩
    | cons head rest =>
      rw [hlist] at hnext
      have he : head ∈ s.queued := mem_queued.mpr ⟨.ntor, hlist ▸ List.mem_cons_self⟩
      have hl' := h.detach he
      exact .inl ⟨_, congrArg (Except.map Prod.snd) hnext,
        ⟨hl'.placed, hl'.full, hl'.counted, hl'.circs, hl'.pointers, hl'.cutoff⟩,
        ha.handOut h hlist⟩
  | remove circ => exact .inl (onionPendingRemove_ok h ha circ)
  | markForClose circ => exact .inl ⟨_, rfl, h.markForClose circ, ha.markForClose circ⟩
  | clear => exact .inl (clearPendingOnions_ok h ha)
  | consensusHasChanged maxDelay waitCutoff =>
    exact .inl ⟨_, rfl, h.consensusHasChanged maxDelay waitCutoff, ha.account, ha.order⟩

theorem reached_linked (h : Reached (fun s op => (step s op).toOption) Allowed .init s) :
    Linked s ∧ Accounted s := by
  refine h.invariant (I := fun s => Linked s ∧ Accounted s) ⟨⟨?_, ?_, ?_, ?_, ?_, ?_⟩, ?_, ?_⟩
    fun s op s' hinv hop hstep => ?_
  · intro q e he
    cases he
  · intro e he
    cases he
  · exact fun q => rfl
  · exact List.nodup_nil
  · simp [State.init, State.queued]
  · decide
  · exact List.Perm.nil
  · exact List.Pairwise.nil
  · rcases step_ok hinv.1 hinv.2 hop with ⟨s₁, hok, hinv'⟩ | ⟨herror, -⟩
    · rw [hok] at hstep
      cases hstep
      exact hinv'
    · rw [herror] at hstep
      cases hstep

theorem filterMap_onionskin {l : List Entry} (h : ∀ e ∈ l, e.onionskin = some e.ptr) :
    l.filterMap (·.onionskin) = l.map (·.ptr) := by
  rw [List.filterMap_congr h]
  exact List.filterMap_eq_map ▸ rfl

/-- However the queues are used, their counters, pointers and create cells are accounted for,
the cells of the ntor queue are handed out in their order, and no loop runs past the end of a
queue. -/
theorem onionQueues_right (h : Reached (fun s op => (step s op).toOption) Allowed .init s) :
    QueuesRight s := by
  obtain ⟨hl, ha⟩ := reached_linked h
  have hskins := filterMap_onionskin hl.full
  have hntor : (s.olList .ntor).filterMap (·.onionskin) = (s.olList .ntor).map (·.ptr) :=
    filterMap_onionskin fun e he => hl.full e (mem_queued.mpr ⟨_, he⟩)
  have hnext := onionNextTask_eq hl ha
  refine ⟨hl.counted, hl.pointers, List.nodup_iff_count_le_one.mp hl.circs,
    hskins ▸ ha.account, hntor ▸ ha.order, fun head rest hlist => ?_, fun hlist => ?_,
    fun op stop hop hstop => ?_⟩
  · rw [hlist] at hnext
    have he : head ∈ s.queued := mem_queued.mpr ⟨.ntor, hlist ▸ List.mem_cons_self⟩
    have hq : head.queueIdx = .ntor := hl.placed _ _ (hlist ▸ List.mem_cons_self)
    rw [hl.full head he]
    refine ⟨_, hnext, rfl, ?_⟩
    simp [State.handOut, State.detach, hq, hlist]
  · rwa [hlist] at hnext
  · rcases step_ok hl ha hop with ⟨s', hok, -⟩ | ⟨herror, hadd⟩
    · rw [hok] at hstop
      cases hstop
    · rw [herror] at hstop
      cases hstop
      exact ⟨rfl, hadd⟩

/-- Two circuits, the second of them after ten seconds, and a free worker. -/
def twoCircuits : List Op :=
  [.add ⟨10, 0, 1, fun _ => 0⟩ 7 2, .add ⟨20, 0, 1, fun _ => 0⟩ 8 3, .nextTask]

/-- The first circuit is culled, and the second is served. -/
theorem onionQueues_right_culled :
    ∃ s, run (fun s op => (step s op).toOption) .init twoCircuits = some s ∧
      s.freed = [0] ∧ s.handedOut = [1] ∧ QueuesRight s := by
  have hguard : Guarded (fun s op => (step s op).toOption) Allowed .init twoCircuits := by
    decide
  obtain ⟨s, hs, hfreed, hout⟩ :
      ∃ s, run (fun s op => (step s op).toOption) .init twoCircuits = some s ∧
        s.freed = [0] ∧ s.handedOut = [1] := ⟨_, rfl, rfl, rfl⟩
  exact ⟨s, hs, hfreed, hout, onionQueues_right (Reached.of_run .init hguard hs)⟩

end Runs

end TorDaemon.Relay.OnionQueue

import TorDaemon.Container.PqueueCalls

/-! The queue of rendezvous requests of a service with proof-of-work defenses, how it is trimmed
(`hs_circuit.c`), and the effort that the service suggests (`hs_service.c`). -/
namespace TorDaemon.HiddenService.Pow
open Container.Pqueue Library.Heap

section Model

/-- `pending_rend_t`, with the address that tells equal requests apart. -/
structure PendingRend where
  address : ℕ
  powEffort : UInt32
  enqueuedTs : ℤ
  deriving DecidableEq

/-- The part of `hs_pow_service_state_t` that is about the queue and the effort. -/
structure PowState where
  rendRequestPqueue : Smartlist PendingRend
  pqueueLowLevel : ℤ
  pqueueHighLevel : ℤ
  suggestedEffort : UInt32
  maxTrimmedEffort : UInt32
  rendHandled : UInt32
  nextEffortUpdate : ℤ
  totalEffort : UInt64
  hadQueue : Bool

/-- `compare_rend_request_by_effort_`: the higher effort is earlier, and of two requests with one
effort the older one. -/
def compareRendRequestByEffort : Comparator PendingRend where
  compare a b :=
    if a.powEffort > b.powEffort then -1
    else if a.powEffort = b.powEffort then
      if a.enqueuedTs < b.enqueuedTs then -1
      else if a.enqueuedTs > b.enqueuedTs then 1
      else 0
    else 1
  swapped a b := by
    simp only [gt_iff_lt, UInt32.lt_iff_toNat_lt, ← UInt32.toNat_inj]
    split_ifs <;> omega
  chained a b d := by
    simp only [gt_iff_lt, UInt32.lt_iff_toNat_lt, ← UInt32.toNat_inj]
    split_ifs <;> omega

def maxRendTimeout : ℤ := 30

def queuedRendRequestIsTooOld (req : PendingRend) (now : ℤ) : Bool :=
  req.enqueuedTs + maxRendTimeout / 2 < now

/-- The two queues, whose elements share their index fields, and what has been freed. -/
structure Trimming where
  old : List PendingRend
  new : List PendingRend
  idx : PendingRend → ℤ
  maxTrimmedEffort : UInt32
  freed : List PendingRend

/-- A request is discarded. -/
def Trimming.free (t : Trimming) (req : PendingRend) : Trimming :=
  { t with maxTrimmedEffort := max t.maxTrimmedEffort req.powEffort, freed := t.freed ++ [req] }

/-- One turn of the loop: the first of the old requests is moved or discarded. -/
def trimTurn (now : ℤ) (t : Trimming) : Option Trimming := do
  let (req, old) ← pqueuePop compareRendRequestByEffort ⟨t.old, t.idx⟩
  let t := { t with old := old.list, idx := old.idx }
  if queuedRendRequestIsTooOld req now then return t.free req
  else
    let new ← pqueueAdd compareRendRequestByEffort ⟨t.new, t.idx⟩ req
    return { t with new := new.list, idx := new.idx }

/-- The loop, of at most `fuel` turns. -/
def trimLoop (highLevel now : ℤ) : ℕ → Trimming → Option Trimming
  | 0, _ => none
  | fuel + 1, t =>
    if t.old ≠ [] ∧ t.new.length < highLevel.tdiv 2 then
      (trimTurn now t).bind (trimLoop highLevel now fuel)
    else some t

/-- `trim_rend_pqueue`, and the requests in the order in which they are freed. -/
def trimRendPqueue (p : PowState) (now : ℤ) : Option (PowState × List PendingRend) := do
  let queue := p.rendRequestPqueue
  let t ← trimLoop p.pqueueHighLevel now (queue.list.length + 1)
    ⟨queue.list, [], queue.idx, p.maxTrimmedEffort, []⟩
  let t := t.old.foldl Trimming.free t
  return ({ p with rendRequestPqueue := ⟨t.new, t.idx⟩, maxTrimmedEffort := t.maxTrimmedEffort },
    t.freed)

/-- `enqueue_rend_request`, for the request that it allocates. -/
def enqueueRendRequest (p : PowState) (req : PendingRend) (now : ℤ) :
    Option (PowState × List PendingRend) := do
  let req := { req with enqueuedTs := now }
  let queue ← pqueueAdd compareRendRequestByEffort (clearIdx p.rendRequestPqueue req) req
  let p := { p with rendRequestPqueue := queue }
  if p.pqueueHighLevel ≤ (queue.list.length : ℤ) then trimRendPqueue p now
  else return (p, [])

end Model

section Trim
variable {now highLevel : ℤ} {input : List PendingRend} {t t' : Trimming} {start : UInt32}
  {req : PendingRend} {old : Smartlist PendingRend}

/-- A queue that passes `smartlist_pqueue_assert_ok` and that a smartlist can hold. -/
structure ValidQueue (queue : Smartlist PendingRend) : Prop where
  assertOk : AssertOk compareRendRequestByEffort queue
  length_le : queue.list.length ≤ intMax

/-- The invariant of the loop: two queues, and requests that are discarded because they are
too old. -/
structure Trimming.Inv (highLevel now : ℤ) (input : List PendingRend) (start : UInt32)
    (t : Trimming) : Prop where
  oldIndexed : Indexed ⟨t.old, t.idx⟩
  oldOrdered : Ordered compareRendRequestByEffort.le (entries ⟨t.old, t.idx⟩)
  newIndexed : Indexed ⟨t.new, t.idx⟩
  newOrdered : Ordered compareRendRequestByEffort.le (entries ⟨t.new, t.idx⟩)
  perm : (t.old ++ (t.new ++ t.freed)).Perm input
  fresh : ∀ r ∈ t.new, queuedRendRequestIsTooOld r now = false
  expired : ∀ r ∈ t.freed, queuedRendRequestIsTooOld r now = true
  ranked : ∀ r ∈ t.new, ∀ d ∈ t.old, compareRendRequestByEffort.le r d
  length_le : t.new.length ≤ (highLevel.tdiv 2).toNat
  maxTrimmed : t.maxTrimmedEffort = t.freed.foldl (fun m r => max m r.powEffort) start

/-- What is popped from the old queue is before all that stays there. -/
structure Popped (t : Trimming) (req : PendingRend) (old : Smartlist PendingRend) : Prop where
  perm : t.old.Perm (req :: old.list)
  indexed : Indexed old
  ordered : Ordered compareRendRequestByEffort.le (entries old)
  first : ∀ d ∈ old.list, compareRendRequestByEffort.le req d
  other : ∀ r ∉ t.old, old.idx r = t.idx r

theorem pop_spec (h : t.Inv highLevel now input start) (hlen : input.length ≤ intMax)
    (hne : t.old ≠ []) : ∃ req old,
      pqueuePop compareRendRequestByEffort ⟨t.old, t.idx⟩ = some (req, old) ∧ Popped t req old := by
  have hlength := h.perm.length_eq
  simp only [List.length_append] at hlength
  obtain ⟨req, rest, hlist⟩ := List.exists_cons_of_ne_nil hne
  have hpop : pqueuePop compareRendRequestByEffort ⟨t.old, t.idx⟩ =
      some (req, afterRemove compareRendRequestByEffort ⟨t.old, t.idx⟩ req 0) := pqueuePop_eq hlist
  obtain ⟨hremoved, hordered⟩ := pqueuePop_spec hpop h.oldIndexed (by simp only; omega) h.oldOrdered
  refine ⟨req, _, hpop, hremoved.perm, hremoved.indexed, hordered, ?_, hremoved.other⟩
  intro d hd
  exact pqueuePop_le hpop h.oldOrdered d (hremoved.perm.mem_iff.mpr (.tail _ hd))

section
variable (h : Popped t req old)
include h

/-- The three places of a request exclude one another. -/
theorem Popped.apart
    (hnodup : (t.old ++ (t.new ++ t.freed)).Nodup) :
    req ∉ t.new ∧ (∀ r ∈ t.new, r ∉ t.old) ∧ ∀ d ∈ old.list, d ∉ req :: t.new := by
  have hold := List.disjoint_of_nodup_append hnodup
  have hreq : req ∈ t.old := h.perm.mem_iff.mpr (.head _)
  have hnew : ∀ r ∈ t.new, r ∉ t.old := fun r hr hr' => hold hr' (List.mem_append_left _ hr)
  have hrest := h.perm.nodup_iff.mp (List.Nodup.of_append_left hnodup)
  refine ⟨fun hr => hnew req hr hreq, hnew, fun d hd hmem => ?_⟩
  rcases List.mem_cons.mp hmem with rfl | hmem
  · exact (List.nodup_cons.mp hrest).1 hd
  · exact hnew d hmem (h.perm.mem_iff.mpr (.tail _ hd))

theorem Popped.discard
    (ht : t.Inv highLevel now input start) (hnodup : input.Nodup)
    (hreq : queuedRendRequestIsTooOld req now = true) :
    (Trimming.free { t with old := old.list, idx := old.idx } req).Inv highLevel now input start := by
  obtain ⟨-, hnew, -⟩ := h.apart (ht.perm.nodup_iff.mpr hnodup)
  constructor
  · exact h.indexed
  · exact h.ordered
  · exact ht.newIndexed.congr fun r hr => h.other r (hnew r hr)
  · exact ht.newOrdered
  · refine .trans ?_ ((h.perm.append_right _).symm.trans ht.perm)
    simp only [Trimming.free, ← List.append_assoc]
    exact List.perm_append_singleton ..
  · exact ht.fresh
  · intro r hr
    rcases List.mem_append.mp hr with hr | hr
    · exact ht.expired r hr
    · rw [List.mem_singleton.mp hr]
      exact hreq
  · exact fun r hr d hd => ht.ranked r hr d (h.perm.mem_iff.mpr (.tail _ hd))
  · exact ht.length_le
  · simp [Trimming.free, ht.maxTrimmed]

/-- Any other goes to the new queue, after those that are there. -/
theorem Popped.keep {new : Smartlist PendingRend}
    (ht : t.Inv highLevel now input start) (hnodup : input.Nodup)
    (hreq : queuedRendRequestIsTooOld req now = false) (hroom : t.new.length < highLevel.tdiv 2)
    (hadd : pqueueAdd compareRendRequestByEffort ⟨t.new, old.idx⟩ req = some new) :
    { t with old := old.list, new := new.list, idx := new.idx : Trimming }.Inv
      highLevel now input start := by
  obtain ⟨hitem, hnew, hold⟩ := h.apart (ht.perm.nodup_iff.mpr hnodup)
  have hindexed : Indexed ⟨t.new, old.idx⟩ :=
    ht.newIndexed.congr fun r hr => h.other r (hnew r hr)
  obtain ⟨hperm, hindexed', hother⟩ := pqueueAdd_rearranged hadd hitem hindexed
  constructor
  · exact h.indexed.congr fun d hd => hother d (hold d hd)
  · exact h.ordered
  · exact hindexed'
  · exact pqueueAdd_ordered hadd ht.newOrdered
  · refine .trans ?_ ((h.perm.append_right _).symm.trans ht.perm)
    refine ((hperm.append_right t.freed).append_left old.list).trans ?_
    exact List.perm_middle
  · intro r hr
    rcases List.mem_cons.mp (hperm.mem_iff.mp hr) with rfl | hr
    · exact hreq
    · exact ht.fresh r hr
  · exact ht.expired
  · intro r hr d hd
    rcases List.mem_cons.mp (hperm.mem_iff.mp hr) with rfl | hr
    · exact h.first d hd
    · exact ht.ranked r hr d (h.perm.mem_iff.mpr (.tail _ hd))
  · have hlength := hperm.length_eq
    simp only [List.length_cons] at hlength ⊢
    omega
  · exact ht.maxTrimmed

end

theorem trimTurn_spec (h : t.Inv highLevel now input start) (hnodup : input.Nodup)
    (hlen : input.length ≤ intMax) (hne : t.old ≠ []) (hroom : t.new.length < highLevel.tdiv 2) :
    ∃ t', trimTurn now t = some t' ∧ t'.Inv highLevel now input start ∧
      t'.old.length + 1 = t.old.length := by
  obtain ⟨req, old, hpop, hpopped⟩ := pop_spec h hlen hne
  have hlength := h.perm.length_eq
  have hold := hpopped.perm.length_eq
  simp only [List.length_append, List.length_cons] at hlength hold
  rw [trimTurn, hpop]
  dsimp only [Option.bind_eq_bind, Option.bind_some]
  by_cases hreq : queuedRendRequestIsTooOld req now = true
  · rw [if_pos hreq]
    exact ⟨_, rfl, hpopped.discard h hnodup hreq, hold.symm⟩
  · obtain ⟨new, hadd⟩ : ∃ new, pqueueAdd compareRendRequestByEffort ⟨t.new, old.idx⟩ req = some new :=
      ⟨_, if_neg (by simp only; omega)⟩
    rw [if_neg hreq, hadd]
    exact ⟨_, rfl, hpopped.keep h hnodup (by simpa using hreq) hroom hadd, hold.symm⟩

/-- The loop ends when the new queue is full, or the old one is empty. -/
theorem trimLoop_spec {fuel : ℕ} (h : t.Inv highLevel now input start) (hnodup : input.Nodup)
    (hlen : input.length ≤ intMax) (hfuel : t.old.length < fuel) :
    ∃ t', trimLoop highLevel now fuel t = some t' ∧ t'.Inv highLevel now input start := by
  induction fuel generalizing t with
  | zero => omega
  | succ fuel ih =>
    rw [trimLoop]
    split_ifs with hgo
    · obtain ⟨t', hturn, hinv, hshorter⟩ := trimTurn_spec h hnodup hlen hgo.1 hgo.2
      rw [hturn, Option.bind_some]
      exact ih hinv (by omega)
    · exact ⟨t, rfl, h⟩

theorem foldl_free (t : Trimming) (l : List PendingRend) : l.foldl Trimming.free t =
    { t with
      maxTrimmedEffort := l.foldl (fun m r => max m r.powEffort) t.maxTrimmedEffort
      freed := t.freed ++ l } := by
  induction l generalizing t with
  | nil => simp
  | cons r l ih => simp [ih, Trimming.free]

/-- The maximum of a value and the efforts of the requests. -/
structure IsMaxEffort (start : UInt32) (l : List PendingRend) (m : UInt32) : Prop where
  start_le : start ≤ m
  le : ∀ r ∈ l, r.powEffort ≤ m
  attained : m = start ∨ ∃ r ∈ l, m = r.powEffort

theorem isMaxEffort_foldl (start : UInt32) (l : List PendingRend) :
    IsMaxEffort start l (l.foldl (fun m r => max m r.powEffort) start) := by
  induction l generalizing start with
  | nil => exact ⟨UInt32.le_refl _, nofun, .inl rfl⟩
  | cons r l ih =>
    obtain ⟨hstart, hle, hattained⟩ := ih (max start r.powEffort)
    have hmax : start ≤ max start r.powEffort ∧ r.powEffort ≤ max start r.powEffort ∧
        (max start r.powEffort = start ∨ max start r.powEffort = r.powEffort) := by
      simp only [max, UInt32.le_iff_toNat_le]
      split_ifs with h
      · exact ⟨h, Nat.le_refl _, .inr rfl⟩
      · exact ⟨Nat.le_refl _, (Nat.le_total _ _).resolve_left h, .inl rfl⟩
    refine ⟨UInt32.le_trans hmax.1 hstart, ?_, ?_⟩
    · rintro d (_ | ⟨_, hd⟩)
      · exact UInt32.le_trans hmax.2.1 hstart
      · exact hle d hd
    · rcases hattained with heq | ⟨d, hd, heq⟩
      · exact hmax.2.2.imp heq.trans fun h => ⟨r, .head _, heq.trans h⟩
      · exact .inr ⟨d, .tail _ hd, heq⟩

/-- What trimming promises. -/
structure Trimmed (p : PowState) (now : ℤ) (p' : PowState) (freed : List PendingRend) : Prop where
  valid : ValidQueue p'.rendRequestPqueue
  length_le : p'.rendRequestPqueue.list.length ≤ (p.pqueueHighLevel.tdiv 2).toNat
  fresh : ∀ r ∈ p'.rendRequestPqueue.list, queuedRendRequestIsTooOld r now = false
  ranked : ∀ r ∈ p'.rendRequestPqueue.list, ∀ d ∈ freed, queuedRendRequestIsTooOld d now = false →
    compareRendRequestByEffort.compare r d ≤ 0
  once : (p'.rendRequestPqueue.list ++ freed).Perm p.rendRequestPqueue.list
  nodup : (p'.rendRequestPqueue.list ++ freed).Nodup
  maxTrimmed : IsMaxEffort p.maxTrimmedEffort freed p'.maxTrimmedEffort
  other : p' = { p with
    rendRequestPqueue := p'.rendRequestPqueue
    maxTrimmedEffort := p'.maxTrimmedEffort }

/-- What the loop leaves in the old queue is freed as well. -/
theorem trimRendPqueue_eq (p : PowState) (now : ℤ) (h : ValidQueue p.rendRequestPqueue) :
    ∃ t : Trimming, trimRendPqueue p now = some ({ p with
        rendRequestPqueue := ⟨t.new, t.idx⟩
        maxTrimmedEffort := t.old.foldl (fun m r => max m r.powEffort) t.maxTrimmedEffort },
        t.freed ++ t.old) ∧
      t.Inv p.pqueueHighLevel now p.rendRequestPqueue.list p.maxTrimmedEffort ∧
      (t.new ++ (t.freed ++ t.old)).Perm p.rendRequestPqueue.list ∧ ValidQueue ⟨t.new, t.idx⟩ := by
  obtain ⟨hordered, hindexed⟩ := assertOk_iff.mp h.assertOk
  have hstart : Trimming.Inv p.pqueueHighLevel now p.rendRequestPqueue.list p.maxTrimmedEffort
      ⟨p.rendRequestPqueue.list, [], p.rendRequestPqueue.idx, p.maxTrimmedEffort, []⟩ := by
    refine ⟨hindexed, hordered, ?_, ?_, ?_, ?_, ?_, ?_, Nat.zero_le _, rfl⟩ <;>
      simp [Indexed, Ordered, InOrder, entries]
  obtain ⟨t, hloop, hinv⟩ := trimLoop_spec hstart hindexed.nodup h.length_le (Nat.lt_succ_self _)
  have hperm : (t.new ++ (t.freed ++ t.old)).Perm p.rendRequestPqueue.list := by
    rw [← List.append_assoc]
    exact List.perm_append_comm.trans hinv.perm
  have hlength := hperm.length_eq
  have hvalid := h.length_le
  simp only [List.length_append] at hlength
  refine ⟨t, ?_, hinv, hperm, assertOk_iff.mpr ⟨hinv.newOrdered, hinv.newIndexed⟩, ?_⟩
  · simp [trimRendPqueue, hloop, foldl_free]
  · dsimp only
    omega

/-- A valid queue is trimmed to a valid queue of the first requests that are not too old. -/
theorem trimRendPqueue_trims (p : PowState) (now : ℤ) (h : ValidQueue p.rendRequestPqueue) :
    ∃ p' freed, trimRendPqueue p now = some (p', freed) ∧ Trimmed p now p' freed := by
  obtain ⟨t, htrim, hinv, hperm, hvalid⟩ := trimRendPqueue_eq p now h
  refine ⟨_, _, htrim, ?_⟩
  constructor
  · exact hvalid
  · exact hinv.length_le
  · exact hinv.fresh
  · intro r hr d hd hnot
    rcases List.mem_append.mp hd with hd | hd
    · rw [hinv.expired d hd] at hnot
      exact absurd hnot (by decide)
    · exact hinv.ranked r hr d hd
  · exact hperm
  · exact hperm.nodup_iff.mpr (assertOk_iff.mp h.assertOk).2.nodup
  · simp only [hinv.maxTrimmed, ← List.foldl_append]
    exact isMaxEffort_foldl _ _
  · rfl

/-- Three requests, of which the one with the highest effort has waited for too long. -/
def busyState : PowState where
  rendRequestPqueue :=
    { list := [⟨1, 9, 80⟩, ⟨2, 5, 95⟩, ⟨3, 5, 99⟩]
      idx := fun r => (r.address : ℤ) - 1 }
  pqueueLowLevel := 16
  pqueueHighLevel := 3
  suggestedEffort := 0
  maxTrimmedEffort := 2
  rendHandled := 0
  nextEffortUpdate := 300
  totalEffort := 0
  hadQueue := false

theorem trimRendPqueue_trims_busy :
    ∃ p' freed, trimRendPqueue busyState 100 = some (p', freed) ∧ Trimmed busyState 100 p' freed :=
  trimRendPqueue_trims busyState 100 ⟨by decide, by decide⟩

end Trim

/-! The effort that a service with proof-of-work defenses suggests to its clients: additive
increase, multiplicative decrease (`hs_service.c`). -/

section SuggestedEffort
variable {p : PowState} {now : ℤ}

section Model

inductive AimdEvent
  | none
  | increase
  | decrease
  deriving DecidableEq

section
variable (p : PowState)

/-- `top_of_rend_pqueue_is_worthwhile`; an empty queue is asked for nothing. -/
def topOfRendPqueueIsWorthwhile : Bool :=
  match p.rendRequestPqueue.list with
  | [] => false
  | req :: _ => p.suggestedEffort ≤ req.powEffort

def aimdEvent : AimdEvent :=
  if p.suggestedEffort < p.maxTrimmedEffort then .increase
  else if p.hadQueue then
    if 0 < p.rendRequestPqueue.list.length ∧ topOfRendPqueueIsWorthwhile p then .increase
    else .none
  else if p.rendRequestPqueue.list.length < p.pqueueLowLevel then .decrease
  else .none

def uint32Max : UInt32 := 0xffffffff

/-- The average that is cast to 32 bits, or 0 where nothing was handled. -/
def averageEffort : UInt32 :=
  if p.rendHandled ≠ 0 then (p.totalEffort / p.rendHandled.toUInt64).toUInt32 else 0

def suggestedEffortAfter : AimdEvent → UInt32
  | .increase =>
    if p.suggestedEffort < uint32Max then max (p.suggestedEffort + 1) (averageEffort p)
    else p.suggestedEffort
  | .decrease => 2 * p.suggestedEffort / 3
  | .none => p.suggestedEffort

def hsUpdatePeriod : ℤ := 300

def updateSuggestedEffort (now : ℤ) : PowState :=
  { p with
    suggestedEffort := suggestedEffortAfter p (aimdEvent p)
    totalEffort := 0
    rendHandled := 0
    maxTrimmedEffort := 0
    hadQueue := false
    nextEffortUpdate := now + hsUpdatePeriod }

end

end Model

section Law

section
variable (p : PowState)

/-- The quotient that the average stands for. -/
def effortQuotient : ℕ := p.totalEffort.toNat / p.rendHandled.toNat

/-- The law that the effort is to follow, in numbers without a bound but that of the cap. -/
def FollowsAimd (effort : ℕ) : AimdEvent → Prop
  | .increase => min (p.suggestedEffort.toNat + 1) uint32Max.toNat ≤ effort ∧
      min (effortQuotient p) uint32Max.toNat ≤ effort
  | .decrease => effort = 2 * p.suggestedEffort.toNat / 3
  | .none => effort = p.suggestedEffort.toNat

/-- The quotient has 32 bits, or the effort gets to the cap without it; the double of an effort
that decreases has 32 bits. -/
def AimdFits : AimdEvent → Prop
  | .increase => effortQuotient p < 2 ^ 32 ∨ uint32Max.toNat ≤ p.suggestedEffort.toNat + 1 ∨
      effortQuotient p % 2 ^ 32 = uint32Max.toNat
  | .decrease => p.suggestedEffort.toNat < 2 ^ 31
  | .none => True

theorem averageEffort_toNat : (averageEffort p).toNat = effortQuotient p % 2 ^ 32 := by
  unfold averageEffort effortQuotient
  split_ifs with h
  · simp [UInt64.toNat_div]
  · rw [not_not.mp h]
    simp

theorem max_toNat (m n : UInt32) : (max m n).toNat = max m.toNat n.toNat := by
  simp only [max, UInt32.le_iff_toNat_le]
  split_ifs <;> omega

theorem suggestedEffortAfter_increase : (suggestedEffortAfter p .increase).toNat =
      if p.suggestedEffort.toNat < uint32Max.toNat then
        max (p.suggestedEffort.toNat + 1) (effortQuotient p % 2 ^ 32)
      else p.suggestedEffort.toNat := by
  have hmax : uint32Max.toNat = 2 ^ 32 - 1 := rfl
  simp only [suggestedEffortAfter, UInt32.lt_iff_toNat_lt]
  split_ifs with h
  · rw [max_toNat, averageEffort_toNat, UInt32.toNat_add, UInt32.toNat_one,
      Nat.mod_eq_of_lt (by omega)]
  · rfl

theorem suggestedEffortAfter_decrease :
    (suggestedEffortAfter p .decrease).toNat = 2 * p.suggestedEffort.toNat % 2 ^ 32 / 3 := by
  simp [suggestedEffortAfter, UInt32.toNat_div, UInt32.toNat_mul]

theorem followsAimd_iff (event : AimdEvent) :
    FollowsAimd p (suggestedEffortAfter p event).toNat event ↔ AimdFits p event := by
  have hmax : uint32Max.toNat = 2 ^ 32 - 1 := rfl
  cases event with
  | none => exact iff_of_true rfl trivial
  | increase =>
    simp only [FollowsAimd, AimdFits, suggestedEffortAfter_increase, hmax]
    split_ifs <;> omega
  | decrease =>
    simp only [FollowsAimd, AimdFits, suggestedEffortAfter_decrease]
    omega

end

/-- The suggested effort follows the law if and only if the numbers that it is made of fit. -/
theorem updateSuggestedEffort_follows_iff (p : PowState) (now : ℤ) :
    FollowsAimd p (updateSuggestedEffort p now).suggestedEffort.toNat (aimdEvent p) ↔
      AimdFits p (aimdEvent p) :=
  followsAimd_iff p (aimdEvent p)

/-- An idle service whose effort has its highest bit set. -/
def idleState : PowState where
  rendRequestPqueue := { list := [], idx := fun _ => -1 }
  pqueueLowLevel := 16
  pqueueHighLevel := 16384
  suggestedEffort := 0x80000000
  maxTrimmedEffort := 0
  rendHandled := 0
  nextEffortUpdate := 0
  totalEffort := 0
  hadQueue := false

/-- The effort is to be two thirds of what it was, and is 0. -/
theorem idleState_drops : ¬ ∀ p now,
    FollowsAimd p (updateSuggestedEffort p now).suggestedEffort.toNat (aimdEvent p) := by
  intro h
  have hdecrease : aimdEvent idleState = .decrease := by decide
  have hfollows := h idleState 300
  rw [hdecrease] at hfollows
  exact absurd hfollows (by decide : ¬ 0 = 2 * 0x80000000 / 3)

end Law

end SuggestedEffort

end TorDaemon.HiddenService.Pow

import TorDaemon.Evloop.TokenBucket
import TorDaemon.HiddenService.RendQueue
import TorDaemon.Library.TruncatedDivision

/-! The requests of a service with proof-of-work defenses over a whole run: they are queued as
they arrive, and a callback takes them from the queue again (`hs_circuit.c`, `hs_service.c`). -/
namespace TorDaemon.HiddenService.Pow
open Container.Pqueue Library.Heap Library.Reachability Library.TruncatedDivision
open Evloop

section Model

/-- The queue, with the limit on its rate where there is one. The last three are the requests
that have arrived, that a circuit was launched for, and that were freed without one. -/
structure RendService where
  pow : PowState
  pqueueBucket : Option TokenBucketCtr
  arrived : List PendingRend
  launched : List PendingRend
  freed : List PendingRend

abbrev RendService.queue (s : RendService) : Smartlist PendingRend := s.pow.rendRequestPqueue

/-- `initialize_pow_defenses`, as to the queue; the levels are computed from unsigned numbers. -/
def initializePqueue (powQueueRate powQueueBurst nowSec : UInt32) (now : ℤ) : RendService :=
  let pow : PowState := ⟨⟨[], fun _ => -1⟩, 16, 16384, 0, 0, 0, now + hsUpdatePeriod, 0, false⟩
  if h : 0 < powQueueRate.toNat ∧ powQueueRate ≤ powQueueBurst then
    { pow := { pow with
        pqueueLowLevel := max 8 (powQueueRate / 4).toNat
        pqueueHighLevel := toInt32 (powQueueBurst + powQueueRate * 30 * 2).toNat }
      pqueueBucket := some (tokenBucketCtrInit ⟨powQueueRate, h.1⟩ powQueueBurst nowSec)
      arrived := [], launched := [], freed := [] }
  else ⟨pow, none, [], [], []⟩

/-- The end of `hs_circ_handle_introduce2`. -/
def handleIntroduce2 (req : PendingRend) (now : ℤ) (s : RendService) : Option RendService := do
  let (pow, freed) ← enqueueRendRequest s.pow req now
  return { s with
    pow := { pow with totalEffort := pow.totalEffort + req.powEffort.toUInt64 }
    arrived := { req with enqueuedTs := now } :: s.arrived
    freed := s.freed ++ freed }

/-- Whether the limit on the rate lets one more request pass. -/
def passesPqueueBucket (nowSec : UInt32) : Option TokenBucketCtr → Bool × Option TokenBucketCtr
  | none => (true, none)
  | some bucket =>
    let bucket := tokenBucketCtrRefill bucket nowSec
    if 0 < bucket.counter.bucket then (true, some (tokenBucketCtrDec bucket 1).1)
    else (false, some bucket)

def maxCheapRendCircuitsInProgress : ℕ := 16

/-- The loop of `handle_rend_pqueue_cb`, of at most `fuel` turns, and whether the callback goes on
after it. -/
def popLoop (inFlight : ℕ) (now : ℤ) (nowSec : UInt32) :
    ℕ → RendService → Option (RendService × Bool)
  | 0, _ => none
  | fuel + 1, s =>
    if s.queue.list = [] then some (s, true)
    else if maxCheapRendCircuitsInProgress ≤ inFlight ∧ ¬ topOfRendPqueueIsWorthwhile s.pow then
      some (s, false)
    else
      let (passes, bucket) := passesPqueueBucket nowSec s.pqueueBucket
      let s := { s with pqueueBucket := bucket }
      if passes then do
        let (req, queue) ← pqueuePop compareRendRequestByEffort s.queue
        let pow := { s.pow with rendRequestPqueue := queue }
        if queuedRendRequestIsTooOld req now then
          popLoop inFlight now nowSec fuel { s with pow, freed := s.freed ++ [req] }
        else return ({ s with
          pow := { pow with rendHandled := pow.rendHandled + 1 }
          launched := s.launched ++ [req] }, true)
      else some (s, false)

/-- `handle_rend_pqueue_cb`, with so many circuits in progress. -/
def handleRendPqueueCb (inFlight : ℕ) (now : ℤ) (nowSec : UInt32) (s : RendService) :
    Option RendService := do
  let (s, goesOn) ← popLoop inFlight now nowSec (s.queue.list.length + 1) s
  if goesOn ∧ 0 < s.queue.list.length ∧ s.pow.pqueueLowLevel ≤ s.queue.list.length then
    return { s with pow := { s.pow with hadQueue := true } }
  else return s

inductive RendEvent
  | introduce2 (req : PendingRend) (now : ℤ)
  | callback (inFlight : ℕ) (now : ℤ) (nowSec : UInt32)
  | effortUpdate (now : ℤ)

def rendStep (s : RendService) : RendEvent → Option RendService
  | .introduce2 req now => handleIntroduce2 req now s
  | .callback inFlight now nowSec => handleRendPqueueCb inFlight now nowSec s
  | .effortUpdate now => some { s with pow := updateSuggestedEffort s.pow now }

/-- A request is allocated where none of those in the queue is. -/
def Allocated (s : RendService) : RendEvent → Prop
  | .introduce2 req _ => ∀ r ∈ s.queue.list, r.address ≠ req.address
  | _ => True

instance (s : RendService) : ∀ e, Decidable (Allocated s e)
  | .introduce2 req _ => inferInstanceAs (Decidable (∀ r ∈ s.queue.list, r.address ≠ req.address))
  | .callback .. | .effortUpdate _ => .isTrue trivial

end Model

section Runs
variable {s s' : RendService} {now : ℤ} {inFlight : ℕ} {nowSec : UInt32}

/-- Every request that has arrived is in the queue, has its circuit or was freed, once; and the
queue stays below the level it is trimmed at. -/
structure RendService.Kept (s : RendService) : Prop where
  valid : ValidQueue s.queue
  once : (s.queue.list ++ (s.launched ++ s.freed)).Perm s.arrived
  below : (s.queue.list.length : ℤ) < max 1 s.pow.pqueueHighLevel
  level : s.pow.pqueueHighLevel ≤ intMax

/-- A callback launches one circuit at most: for the first request in the queue that is not too
old, and with many circuits in progress only where the effort is what the service suggests. -/
def Launches (s : RendService) (inFlight : ℕ) (now : ℤ) (s' : RendService) : Prop :=
  s'.launched = s.launched ∨ ∃ req ∈ s.queue.list, s'.launched = s.launched ++ [req] ∧
    queuedRendRequestIsTooOld req now = false ∧
    (maxCheapRendCircuitsInProgress ≤ inFlight → s.pow.suggestedEffort ≤ req.powEffort) ∧
    ∀ r ∈ s.queue.list, queuedRendRequestIsTooOld r now = false →
      compareRendRequestByEffort.compare req r ≤ 0

theorem pop_first {queue : Smartlist PendingRend} (h : ValidQueue queue) (hne : queue.list ≠ []) :
    ∃ req rest tail, queue.list = req :: tail ∧
      pqueuePop compareRendRequestByEffort queue = some (req, rest) ∧
      queue.list.Perm (req :: rest.list) ∧ ValidQueue rest ∧
      ∀ r ∈ queue.list, compareRendRequestByEffort.compare req r ≤ 0 := by
  obtain ⟨hordered, hindexed⟩ := assertOk_iff.mp h.assertOk
  obtain ⟨req, tail, hlist⟩ := List.exists_cons_of_ne_nil hne
  have hpop := pqueuePop_eq (c := compareRendRequestByEffort) hlist
  obtain ⟨hremoved, hordered'⟩ := pqueuePop_spec hpop hindexed h.length_le hordered
  have hlength := hremoved.perm.length_eq
  have hle := h.length_le
  rw [List.length_cons] at hlength
  exact ⟨req, _, tail, hlist, hpop, hremoved.perm,
    ⟨assertOk_iff.mpr ⟨hordered', hremoved.indexed⟩, by omega⟩, pqueuePop_le hpop hordered⟩

theorem RendService.Kept.taken {req : PendingRend} (h : s.Kept)
    (hperm : s.queue.list.Perm (req :: s'.queue.list)) (hvalid : ValidQueue s'.queue)
    (hleft : (s'.launched ++ s'.freed).Perm (req :: (s.launched ++ s.freed)))
    (harrived : s'.arrived = s.arrived)
    (hlevel : s'.pow.pqueueHighLevel = s.pow.pqueueHighLevel) : s'.Kept := by
  have hlength := hperm.length_eq
  have hbelow := h.below
  rw [List.length_cons] at hlength
  refine ⟨hvalid, ?_, by rw [hlevel]; omega, hlevel ▸ h.level⟩
  rw [harrived]
  refine .trans ?_ h.once
  exact (hleft.append_left _).trans (List.perm_middle.trans (hperm.symm.append_right _))

/-- Each turn takes the first request, until there is a circuit or a reason to wait. -/
theorem popLoop_spec {fuel : ℕ} (h : s.Kept) (hfuel : s.queue.list.length < fuel) :
    ∃ s' goesOn, popLoop inFlight now nowSec fuel s = some (s', goesOn) ∧ s'.Kept ∧
      Launches s inFlight now s' := by
  induction fuel generalizing s with
  | zero => omega
  | succ fuel ih =>
    rw [popLoop]
    split_ifs with hempty hwaits
    · exact ⟨s, true, rfl, h, .inl rfl⟩
    · exact ⟨s, false, rfl, h, .inl rfl⟩
    · rcases passesPqueueBucket nowSec s.pqueueBucket with ⟨passes, bucket⟩
      cases passes with
      | false => exact ⟨_, false, rfl, ⟨h.valid, h.once, h.below, h.level⟩, .inl rfl⟩
      | true =>
        obtain ⟨req, queue, tail, hlist, hpop, hperm, hvalid, hfirst⟩ := pop_first h.valid hempty
        have hmem : req ∈ s.queue.list := hlist ▸ List.mem_cons_self
        simp only [if_true, hpop, Option.bind_eq_bind, Option.bind_some]
        by_cases hold : queuedRendRequestIsTooOld req now = true
        · rw [if_pos hold]
          have hlength := hperm.length_eq
          rw [List.length_cons] at hlength
          have hfreed : RendService.Kept { s with
              pow := { s.pow with rendRequestPqueue := queue }
              pqueueBucket := bucket
              freed := s.freed ++ [req] } := by
            refine h.taken hperm hvalid ?_ rfl rfl
            rw [← List.append_assoc]
            exact List.perm_append_singleton ..
          obtain ⟨s', goesOn, hloop, hkept, hlaunches⟩ := ih hfreed (by
            simp only [RendService.queue] at hlength hfuel ⊢
            omega)
          refine ⟨s', goesOn, hloop, hkept, hlaunches.imp id ?_⟩
          rintro ⟨req', hmem', hlaunched, hfresh, hcheap, hbest⟩
          refine ⟨req', hperm.mem_iff.mpr (.tail _ hmem'), hlaunched, hfresh, hcheap, ?_⟩
          intro r hr hrfresh
          rcases List.mem_cons.mp (hperm.mem_iff.mp hr) with rfl | hr
          · exact absurd (hold.symm.trans hrfresh) (by decide)
          · exact hbest r hr hrfresh
        · rw [if_neg hold]
          refine ⟨_, true, rfl, h.taken hperm hvalid ?_ rfl rfl, .inr ⟨req, hmem, rfl,
            by simpa using hold, fun hmany => ?_, fun r hr _ => hfirst r hr⟩⟩
          · rw [List.append_assoc]
            exact List.perm_middle
          · have hworthwhile := not_not.mp fun hnot => hwaits ⟨hmany, hnot⟩
            simpa [topOfRendPqueueIsWorthwhile, hlist] using hworthwhile

theorem handleRendPqueueCb_spec (h : s.Kept) (inFlight : ℕ) (now : ℤ) (nowSec : UInt32) :
    ∃ s', handleRendPqueueCb inFlight now nowSec s = some s' ∧ s'.Kept ∧
      Launches s inFlight now s' := by
  obtain ⟨s', goesOn, hloop, hkept, hlaunches⟩ := popLoop_spec h (Nat.lt_succ_self _)
  rw [handleRendPqueueCb, hloop]
  dsimp only [Option.bind_eq_bind, Option.bind_some]
  split
  · exact ⟨_, rfl, ⟨hkept.valid, hkept.once, hkept.below, hkept.level⟩, hlaunches⟩
  · exact ⟨s', rfl, hkept, hlaunches⟩

/-- The queue is trimmed before a smartlist cannot hold it. -/
theorem handleIntroduce2_spec {req : PendingRend} (h : s.Kept)
    (halloc : ∀ r ∈ s.queue.list, r.address ≠ req.address) :
    ∃ s', handleIntroduce2 req now s = some s' ∧ s'.Kept := by
  obtain ⟨hordered, hindexed⟩ := assertOk_iff.mp h.valid.assertOk
  have hlevel := h.level
  have hbelow := h.below
  let req' : PendingRend := { req with enqueuedTs := now }
  have hreq : req' ∉ s.queue.list := fun hmem => halloc _ hmem rfl
  have hcleared : Indexed (clearIdx s.queue req') :=
    hindexed.congr fun r hr => Function.update_of_ne (fun heq => hreq (by rwa [← heq])) ..
  have hmax : (1 : ℤ) ≤ intMax := by decide
  obtain ⟨queue, hadd⟩ : ∃ queue, pqueueAdd compareRendRequestByEffort (clearIdx s.queue req') req' =
      some queue := ⟨_, if_neg (by simp only [clearIdx]; omega)⟩
  obtain ⟨hperm, hindexed', -⟩ := pqueueAdd_rearranged hadd hreq hcleared
  have hlength := hperm.length_eq
  simp only [List.length_cons, clearIdx] at hlength
  have hvalid : ValidQueue queue :=
    ⟨assertOk_iff.mpr ⟨pqueueAdd_ordered hadd hordered, hindexed'⟩, by omega⟩
  have honce : (queue.list ++ (s.launched ++ s.freed)).Perm (req' :: s.arrived) :=
    (hperm.append_right _).trans (h.once.cons req')
  simp only [handleIntroduce2, enqueueRendRequest, req', hadd, Option.bind_eq_bind,
    Option.bind_some]
  by_cases hfull : s.pow.pqueueHighLevel ≤ (queue.list.length : ℤ)
  · obtain ⟨t, htrim, hinv, hperm', hvalid'⟩ :=
      trimRendPqueue_eq { s.pow with rendRequestPqueue := queue } now hvalid
    rw [if_pos hfull, htrim]
    refine ⟨_, rfl, hvalid', ?_, ?_, hlevel⟩
    · refine .trans ?_ honce
      refine .trans ?_ (hperm'.append_right _)
      rw [List.append_assoc]
      refine .append_left _ ?_
      rw [← List.append_assoc]
      exact List.perm_append_comm
    · have hshort := hinv.length_le
      obtain ⟨r, hhalf, hlow, -, hsign, -⟩ :=
        tdiv_spec (n := s.pow.pqueueHighLevel) (d := 2) (by decide)
      dsimp only [RendService.queue] at hshort ⊢
      omega
  · rw [if_neg hfull]
    refine ⟨_, rfl, hvalid, ?_, by dsimp only [RendService.queue]; omega, hlevel⟩
    rw [List.append_nil]
    exact honce

theorem initializePqueue_kept (rate burst nowSec : UInt32) (now : ℤ) :
    (initializePqueue rate burst nowSec now).Kept := by
  have hlevel (n : ℤ) : toInt32 n ≤ intMax := by
    have hmod := Int.bmod_lt (x := n) (m := 2 ^ 32) (by decide)
    simp only [toInt32, intMax]
    omega
  unfold initializePqueue
  split
  all_goals
    refine ⟨⟨fun i hi => absurd hi (Nat.not_lt_zero i), Nat.zero_le _⟩, .refl _,
      lt_max_of_lt_left Int.zero_lt_one, ?_⟩
  · dsimp only
    exact hlevel _
  · exact (by decide : (16384 : ℤ) ≤ intMax)

theorem rendStep_kept {e : RendEvent} (h : s.Kept) (halloc : Allocated s e) :
    ∃ s', rendStep s e = some s' ∧ s'.Kept := by
  cases e with
  | introduce2 req now => exact handleIntroduce2_spec h halloc
  | callback inFlight now nowSec =>
    obtain ⟨s', hstep, hkept, -⟩ := handleRendPqueueCb_spec h inFlight now nowSec
    exact ⟨s', hstep, hkept⟩
  | effortUpdate now => exact ⟨_, rfl, h.valid, h.once, h.below, h.level⟩

/-- However a service is configured, and whatever its requests, callbacks and updates come like:
no step fails, every request is accounted for, the queue stays below its level, and the callbacks
launch the first requests that are not too old. -/
theorem rendService_right (rate burst startSec : UInt32) (start : ℤ)
    (h : Reached rendStep Allocated (initializePqueue rate burst startSec start) s) :
    s.Kept ∧ (∀ e, Allocated s e → (rendStep s e).isSome) ∧
      ∀ inFlight now nowSec s', rendStep s (.callback inFlight now nowSec) = some s' →
        Launches s inFlight now s' := by
  have hkept : s.Kept := by
    refine h.invariant (initializePqueue_kept ..) ?_
    intro s e s' hs halloc hstep
    obtain ⟨s₁, hstep₁, hs₁⟩ := rendStep_kept hs halloc
    cases hstep.symm.trans hstep₁
    exact hs₁
  refine ⟨hkept, fun e halloc => ?_, fun inFlight now nowSec s' hstep => ?_⟩
  · obtain ⟨s', hstep, -⟩ := rendStep_kept hkept halloc
    exact Option.isSome_iff_exists.mpr ⟨s', hstep⟩
  · obtain ⟨s₁, hstep₁, -, hlaunches⟩ := handleRendPqueueCb_spec hkept inFlight now _
    cases hstep.symm.trans hstep₁
    exact hlaunches

/-- Three requests of other efforts come to a service that limits the rate. -/
def threeRequests : List RendEvent :=
  [.introduce2 ⟨1, 7, 0⟩ 0, .introduce2 ⟨2, 9, 0⟩ 1, .introduce2 ⟨3, 5, 0⟩ 10]

/-- The first two by effort have become too old. -/
theorem rendService_right_launches : ∃ s s',
    run rendStep (initializePqueue 10 20 0 0) threeRequests = some s ∧
      rendStep s (.callback 16 17 17) = some s' ∧ s'.launched = [⟨3, 5, 10⟩] ∧
      s'.freed = [⟨2, 9, 1⟩, ⟨1, 7, 0⟩] ∧ Launches s 16 17 s' ∧ s'.Kept := by
  have hends : ((run rendStep (initializePqueue 10 20 0 0) threeRequests).bind fun s =>
      (rendStep s (.callback 16 17 17)).map fun s' => (s'.launched, s'.freed)) =
        some ([⟨3, 5, 10⟩], [⟨2, 9, 1⟩, ⟨1, 7, 0⟩]) := by decide +kernel
  obtain ⟨s, hrun, hends⟩ := Option.bind_eq_some_iff.mp hends
  obtain ⟨s', hstep, hends⟩ := Option.map_eq_some_iff.mp hends
  obtain ⟨hlaunched, hfreed⟩ := Prod.mk.inj hends
  have hreached : Reached rendStep Allocated (initializePqueue 10 20 0 0) s :=
    Reached.init.of_run (by decide +kernel) hrun
  have hlaunches := (rendService_right 10 20 0 0 hreached).2.2 16 17 17 s' hstep
  have hkept := (rendService_right 10 20 0 0 <|
    hreached.step (e := .callback 16 17 17) trivial hstep).1
  exact ⟨s, s', hrun, hstep, hlaunched, hfreed, hlaunches, hkept⟩

end Runs

end TorDaemon.HiddenService.Pow

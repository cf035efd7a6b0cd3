import Mathlib.Data.List.Pairwise
import Mathlib.Tactic.Common

/-! A slot that two parties should agree on. One party opens and closes leases by messages in
a queue; the other party follows them, and may end a lease by itself and send a notice. -/
namespace TorDaemon.Library.Leases

variable {ι : Type*} [DecidableEq ι]

inductive Message (ι : Type*)
  | opened (n : ι)
  | closed (n : ι)
  deriving DecidableEq

def Message.lease : Message ι → ι
  | .opened n => n
  | .closed n => n

/-- What the other party holds after a message. It opens no lease while it holds one. -/
def deliver : Option ι → Message ι → Option ι
  | none, .opened n => some n
  | some m, .opened _ => some m
  | r, .closed n => if r = some n then none else r

def deliverAll (r : Option ι) (queue : List (Message ι)) : Option ι := queue.foldl deliver r

/-- No lease is opened while another is held. -/
def Ready : Option ι → List (Message ι) → Prop
  | _, [] => True
  | r, .opened n :: queue => r = none ∧ Ready (some n) queue
  | r, .closed n :: queue => Ready (deliver r (.closed n)) queue

@[ext]
structure Lease (ι : Type*) where
  here : Option ι
  there : Option ι
  queue : List (Message ι)
  /-- The leases that the other party says it does not hold any more. -/
  notices : List ι

variable {l l' : Lease ι} {r : Option ι} {m : Message ι} {queue : List (Message ι)} {n : ι}
  {notices : List ι}

@[simp] theorem deliverAll_nil : deliverAll r [] = r := rfl

@[simp] theorem deliverAll_cons : deliverAll r (m :: queue) = deliverAll (deliver r m) queue := rfl

@[simp] theorem deliverAll_concat : deliverAll r (queue ++ [m]) = deliver (deliverAll r queue) m := by
  simp [deliverAll]

@[simp] theorem deliver_opened : deliver none (.opened n) = some n := rfl

theorem deliver_closed : deliver r (.closed n) = if r = some n then none else r := by
  cases r <;> rfl

/-- A lease is held because it was, or because it has been opened. -/
theorem of_deliver (h : deliver r m = some n) : r = some n ∨ m = .opened n := by
  cases m with
  | opened k =>
    cases r with
    | none => exact Or.inr (congrArg Message.opened (Option.some.inj h))
    | some _ => exact Or.inl h
  | closed k =>
    rw [deliver_closed] at h
    split at h
    · cases h
    · exact Or.inl h

theorem of_deliverAll (h : deliverAll r queue = some n) : r = some n ∨ .opened n ∈ queue := by
  induction queue generalizing r with
  | nil => exact Or.inl h
  | cons m queue ih =>
    cases ih h with
    | inl hr =>
      cases of_deliver hr with
      | inl hr => exact Or.inl hr
      | inr hm => exact Or.inr (hm ▸ List.mem_cons_self ..)
    | inr hmem => exact Or.inr (List.mem_cons_of_mem _ hmem)

theorem Ready.deliver (h : Ready r (m :: queue)) : Ready (deliver r m) queue := by
  cases m with
  | opened n => rw [h.1]; exact h.2
  | closed n => exact h

theorem ready_concat : Ready r (queue ++ [m]) ↔ Ready r queue ∧ Ready (deliverAll r queue) [m] := by
  induction queue generalizing r with
  | nil => simp [Ready]
  | cons m' queue ih =>
    cases m' with
    | opened k =>
      cases r with
      | none => simp [Ready, ih]
      | some _ => simp [Ready]
    | closed k => exact ih

/-- If the other party ends the lease by itself, the queue finds the slot empty or ends the
lease that is gone. -/
theorem Ready.end (h : Ready (some n) queue) : Ready none queue ∧
    (deliverAll none queue = deliverAll (some n) queue ∨
      deliverAll (some n) queue = some n ∧ deliverAll none queue = none) := by
  induction queue with
  | nil => exact ⟨trivial, Or.inr ⟨rfl, rfl⟩⟩
  | cons m queue ih =>
    cases m with
    | opened k => cases h.1
    | closed k =>
      by_cases hk : n = k
      · have hsome : Leases.deliver (some n) (.closed k) = none := by simp [deliver_closed, hk]
        have hready : Ready none queue := hsome ▸ h.deliver
        exact ⟨hready, Or.inl (by rw [deliverAll_cons, deliverAll_cons, hsome]; rfl)⟩
      · have hsome : Leases.deliver (some n) (.closed k) = some n := by simp [deliver_closed, hk]
        have hready : Ready (some n) queue := hsome ▸ h.deliver
        rw [deliverAll_cons, deliverAll_cons, hsome]
        exact ih hready

/-- No lease is opened that has been mentioned before. -/
def Fresh (queue : List (Message ι)) : Prop := queue.Pairwise fun m m' => m' ≠ .opened m.lease

structure Coherent (l : Lease ι) : Prop where
  ready : Ready l.there l.queue
  fresh : Fresh l.queue
  held : ∀ n, l.there = some n → .opened n ∉ l.queue
  here_of_there : ∀ n, deliverAll l.there l.queue = some n → l.here = some n
  there_of_here : ∀ n, l.here = some n → deliverAll l.there l.queue = some n ∨ n ∈ l.notices
  gone : ∀ n ∈ l.notices, l.there ≠ some n ∧ .opened n ∉ l.queue

theorem coherent_empty : Coherent (⟨none, none, [], []⟩ : Lease ι) := by
  constructor <;> simp [Ready, Fresh]

section
variable (h : Coherent l)
include h

theorem Coherent.same (hhere : l'.here = l.here) (hthere : l'.there = l.there)
    (hqueue : l'.queue = l.queue) (hnotices : l'.notices = l.notices) : Coherent l' := by
  obtain rfl : l' = l := Lease.ext hhere hthere hqueue hnotices
  exact h

/-- Once nothing is under way, the two parties agree. -/
theorem Coherent.settled (hqueue : l.queue = []) (hnotices : l.notices = []) :
    l.here = l.there := by
  have hthere := h.here_of_there
  have hhere := h.there_of_here
  rw [hqueue] at hthere
  rw [hqueue, hnotices] at hhere
  ext n
  exact ⟨fun hn => (hhere n hn).resolve_right (by simp), hthere n⟩

theorem Coherent.opened (hhere : l.here = none) (hthere : l.there ≠ some n)
    (hqueue : ∀ m ∈ l.queue, m.lease ≠ n) (hnotices : n ∉ l.notices) :
    Coherent { l with here := some n, queue := l.queue ++ [.opened n] } := by
  have hnone : deliverAll l.there l.queue = none := by
    cases hd : deliverAll l.there l.queue with
    | none => rfl
    | some k => simp [h.here_of_there k hd] at hhere
  constructor
  · exact ready_concat.mpr ⟨h.ready, hnone, trivial⟩
  · refine List.pairwise_append.mpr ⟨h.fresh, List.pairwise_singleton .., fun m hm m' hm' => ?_⟩
    rw [List.mem_singleton.mp hm']
    intro heq
    exact hqueue m hm (Message.opened.inj heq).symm
  · intro k hk
    have hkn : k ≠ n := fun heq => hthere (heq ▸ hk)
    simp [h.held k hk, hkn]
  · intro k hk
    simpa [hnone] using hk
  · intro k hk
    left
    simpa [hnone] using hk
  · intro k hk
    have hkn : k ≠ n := fun heq => hnotices (heq ▸ hk)
    simp [h.gone k hk, hkn]

theorem Coherent.closed (hhere : l.here = some n) :
    Coherent { l with here := none, queue := l.queue ++ [.closed n] } := by
  have hnone : deliver (deliverAll l.there l.queue) (.closed n) = none := by
    rw [deliver_closed]
    split
    · rfl
    · rename_i hne
      cases hd : deliverAll l.there l.queue with
      | none => rfl
      | some k => rw [hd, ← h.here_of_there k hd, hhere] at hne; exact absurd rfl hne
  constructor
  · refine ready_concat.mpr ⟨h.ready, ?_⟩
    trivial
  · refine List.pairwise_append.mpr ⟨h.fresh, List.pairwise_singleton .., fun m hm m' hm' => ?_⟩
    rw [List.mem_singleton.mp hm']
    intro heq
    cases heq
  · intro k hk
    simp [h.held k hk]
  · intro k hk
    simp [hnone] at hk
  · intro k hk
    cases hk
  · intro k hk
    simp [h.gone k hk]

/-- The other party takes the next message, and may answer the end of the lease. -/
theorem Coherent.received (hqueue : l.queue = m :: queue) (hnotices : notices = l.notices ∨
      ∃ n, l.there = some n ∧ m = .closed n ∧ notices = n :: l.notices) :
    Coherent { l with there := deliver l.there m, queue := queue, notices := notices } := by
  have hready := h.ready
  have hfresh := h.fresh
  have hheld := h.held
  have hhere := h.here_of_there
  have hthere := h.there_of_here
  have hgone := h.gone
  rw [hqueue] at hready hfresh hheld hhere hthere hgone
  constructor
  · exact hready.deliver
  · exact (List.pairwise_cons.mp hfresh).2
  · intro k hk hmem
    cases of_deliver hk with
    | inl hr => exact hheld k hr (List.mem_cons_of_mem _ hmem)
    | inr hm => exact (List.pairwise_cons.mp hfresh).1 _ hmem (by rw [hm]; rfl)
  · exact hhere
  · intro k hk
    refine (hthere k hk).imp_right fun hn => ?_
    rcases hnotices with heq | ⟨j, _, _, heq⟩
    · exact heq ▸ hn
    · exact heq ▸ List.mem_cons_of_mem _ hn
  · have hold : ∀ k ∈ l.notices, deliver l.there m ≠ some k ∧ .opened k ∉ queue := by
      intro k hk
      obtain ⟨hne, hmem⟩ := hgone k hk
      refine ⟨fun hd => ?_, fun hin => hmem (List.mem_cons_of_mem _ hin)⟩
      cases of_deliver hd with
      | inl hr => exact hne hr
      | inr hm => exact hmem (hm ▸ List.mem_cons_self ..)
    rcases hnotices with heq | ⟨j, hr, hm, heq⟩
    · exact heq ▸ hold
    · rw [heq]
      refine List.forall_mem_cons.mpr ⟨⟨by simp [hm, deliver_closed, hr], fun hin => ?_⟩, hold⟩
      exact hheld j hr (List.mem_cons_of_mem _ hin)

/-- The other party ends the lease by itself. -/
theorem Coherent.ended (hthere : l.there = some n) :
    Coherent { l with there := none, notices := n :: l.notices } := by
  have hready := h.ready
  have hhere := h.here_of_there
  have hback := h.there_of_here
  rw [hthere] at hready hhere hback
  obtain ⟨hready', hend⟩ := hready.end
  constructor
  · exact hready'
  · exact h.fresh
  · intro k hk
    cases hk
  · intro k hk
    cases hend with
    | inl heq => exact hhere k (heq ▸ hk)
    | inr hgone => simp [hgone.2] at hk
  · intro k hk
    cases hback k hk with
    | inl hd =>
      cases hend with
      | inl heq => exact Or.inl (heq ▸ hd)
      | inr hgone =>
        have hkn : n = k := Option.some.inj (hgone.1.symm.trans hd)
        exact Or.inr (hkn ▸ List.mem_cons_self ..)
    | inr hn => exact Or.inr (List.mem_cons_of_mem _ hn)
  · intro k hk
    refine ⟨by simp, ?_⟩
    cases List.mem_cons.mp hk with
    | inl heq => exact heq ▸ h.held n hthere
    | inr hold => exact (h.gone k hold).2

theorem Coherent.noticed (hn : n ∈ l.notices)
    (hsub : ∀ k ∈ notices, k ∈ l.notices) (hsup : ∀ k ∈ l.notices, k = n ∨ k ∈ notices) :
    Coherent { l with here := if l.here = some n then none else l.here, notices := notices } := by
  have hne : deliverAll l.there l.queue ≠ some n := by
    intro hd
    cases of_deliverAll hd with
    | inl hr => exact (h.gone n hn).1 hr
    | inr hmem => exact (h.gone n hn).2 hmem
  constructor
  · exact h.ready
  · exact h.fresh
  · exact h.held
  · intro k hk
    have hkn : k ≠ n := fun heq => hne (heq ▸ hk)
    simp [h.here_of_there k hk, hkn]
  · intro k hk
    split at hk
    · cases hk
    · rename_i hhere
      have hkn : k ≠ n := fun heq => hhere (heq ▸ hk)
      exact (h.there_of_here k hk).imp_right fun hold => (hsup k hold).resolve_left hkn
  · exact fun k hk => h.gone k (hsub k hk)

theorem Coherent.forget (hsub : ∀ k ∈ notices, k ∈ l.notices)
    (hsup : ∀ k ∈ l.notices, l.here = some k → k ∈ notices) :
    Coherent { l with notices := notices } :=
  { h with
    there_of_here := fun n hn => (h.there_of_here n hn).imp_right fun hold => hsup n hold hn
    gone := fun n hn => h.gone n (hsub n hn) }

end

end TorDaemon.Library.Leases

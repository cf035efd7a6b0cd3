import Mathlib.Algebra.Group.Nat.Defs
import Mathlib.Data.Int.Basic
import TorDaemon.Container.Smartlist

/-! The half-closed streams of an origin circuit (`connection_edge.c`): streams that were
closed on this side, and on which the other side may still send some cells. A missing list is
an empty one. A failed assertion is `none`. -/
namespace TorDaemon.Edge
open Container.Bsearch

structure HalfEdge where
  streamId : UInt16
  sendmesPending : ℤ
  dataPending : ℤ
  endAckExpectedUsec : ℕ
  usedCcontrol : Bool
  connectedPending : Bool
  deriving DecidableEq

inductive ConnState
  | connectWait
  | resolveWait
  | other
  deriving DecidableEq

/-- What is read of a connection when it is closed. -/
structure EdgeConnection where
  streamId : UInt16
  state : ConnState
  packageWindow : ℤ
  deliverWindow : ℤ
  usesFlowControl : Bool
  hsIdent : Bool
  maxRtt : ℕ

section Code
variable (halfStreams : List HalfEdge)

def connectionHalfEdgeCompareBsearch (key : UInt16) (member : HalfEdge) : Ordering :=
  compare key.toNat member.streamId.toNat

/-- The index of the stream, where it is in the list. -/
def connectionHalfEdgeFindStreamId (streamId : UInt16) : Option (Option ℕ) :=
  (bsearchIdx halfStreams (connectionHalfEdgeCompareBsearch streamId)).map fun p =>
    if p.2 then some p.1 else none

/-- The half-closed stream that a connection leaves, with `get_circuit_build_timeout_ms` in
microseconds. -/
def EdgeConnection.halfEdge (conn : EdgeConnection) (now timeoutUsec : ℕ) : HalfEdge :=
  let half : HalfEdge := ⟨conn.streamId, 0, 0, 0, false, conn.state = .connectWait⟩
  if conn.usesFlowControl then
    let timeoutUsec := if conn.hsIdent then timeoutUsec * 2 else timeoutUsec
    { half with
      usedCcontrol := true
      endAckExpectedUsec := (max timeoutUsec conn.maxRtt + now) % 2 ^ 64 }
  else
    { half with
      sendmesPending := (500 - conn.packageWindow).tdiv 50
      dataPending := if conn.state ≠ .resolveWait then conn.deliverWindow else 0 }

/-- `connection_half_edge_add`: whether the stream was added, which it is not where its
number is in the list already. -/
def connectionHalfEdgeAdd (conn : EdgeConnection) (now timeoutUsec : ℕ) :
    Option (Bool × List HalfEdge) :=
  match connectionHalfEdgeFindStreamId halfStreams conn.streamId with
  | none => none
  | some (some _) => some (false, halfStreams)
  | some none =>
    (bsearchIdx halfStreams (connectionHalfEdgeCompareBsearch conn.streamId)).bind fun p =>
      if p.1 ≤ halfStreams.length then
        some (true, halfStreams.insertIdx p.1 (conn.halfEdge now timeoutUsec))
      else none

/-- A check of the half-closed stream with a number, which may change it. -/
def checkHalf (valid : HalfEdge → Bool × HalfEdge) (streamId : UInt16) :
    Option (Bool × List HalfEdge) :=
  match connectionHalfEdgeFindStreamId halfStreams streamId with
  | none => none
  | some none => some (false, halfStreams)
  | some (some i) =>
    halfStreams[i]?.map fun half => ((valid half).1, halfStreams.set i (valid half).2)

def HalfEdge.validData (now : ℕ) (half : HalfEdge) : Bool × HalfEdge :=
  if half.usedCcontrol then (!half.endAckExpectedUsec < now, half)
  else if 0 < half.dataPending then (true, { half with dataPending := half.dataPending - 1 })
  else (false, half)

def HalfEdge.validConnected (half : HalfEdge) : Bool × HalfEdge :=
  if half.connectedPending then (true, { half with connectedPending := false })
  else (false, half)

def HalfEdge.validSendme (half : HalfEdge) : Bool × HalfEdge :=
  if half.usedCcontrol then (false, half)
  else if 0 < half.sendmesPending then
    (true, { half with sendmesPending := half.sendmesPending - 1 })
  else (false, half)

def connectionHalfEdgeIsValidData (now : ℕ) := checkHalf halfStreams (HalfEdge.validData now)
def connectionHalfEdgeIsValidConnected := checkHalf halfStreams HalfEdge.validConnected
def connectionHalfEdgeIsValidSendme := checkHalf halfStreams HalfEdge.validSendme

def connectionHalfEdgeIsValidEnd (streamId : UInt16) : Option (Bool × List HalfEdge) :=
  match bsearchIdx halfStreams (connectionHalfEdgeCompareBsearch streamId) with
  | none => none
  | some (_, false) => some (false, halfStreams)
  | some (i, true) => halfStreams[i]?.map fun _ => (true, halfStreams.eraseIdx i)

def connectionHalfEdgeIsValidResolved := connectionHalfEdgeIsValidEnd halfStreams

end Code

inductive Cell
  | data
  | connected
  | sendme
  | end_
  | resolved
  deriving DecidableEq

/-- Whether the cell is the last one of its stream. -/
def Cell.ends : Cell → Bool
  | .end_ => true
  | .resolved => true
  | _ => false

/-- A stream is closed here, or a cell arrives for one that is. -/
inductive Event
  | add (conn : EdgeConnection) (now timeoutUsec : ℕ)
  | check (cell : Cell) (streamId : UInt16) (now : ℕ)

def Event.streamId : Event → UInt16
  | .add conn _ _ => conn.streamId
  | .check _ streamId _ => streamId

/-- The event's answer: whether a stream was added, or a cell accepted. -/
def step (halfStreams : List HalfEdge) : Event → Option (Bool × List HalfEdge)
  | .add conn now timeoutUsec => connectionHalfEdgeAdd halfStreams conn now timeoutUsec
  | .check .data streamId now => connectionHalfEdgeIsValidData halfStreams now streamId
  | .check .connected streamId _ => connectionHalfEdgeIsValidConnected halfStreams streamId
  | .check .sendme streamId _ => connectionHalfEdgeIsValidSendme halfStreams streamId
  | .check .end_ streamId _ => connectionHalfEdgeIsValidEnd halfStreams streamId
  | .check .resolved streamId _ => connectionHalfEdgeIsValidResolved halfStreams streamId

/-- The answers to the events, one after the other, and the list after them. -/
def run (halfStreams : List HalfEdge) : List Event → Option (List (Event × Bool) × List HalfEdge)
  | [] => some ([], halfStreams)
  | e :: es =>
    (step halfStreams e).bind fun p =>
      (run p.2 es).map fun q => ((e, p.1) :: q.1, q.2)

/-! ### One stream -/

/-- The events of its number are all that a stream sees. -/
def stepOne (half : Option HalfEdge) : Event → Bool × Option HalfEdge
  | .add conn now timeoutUsec =>
    match half with
    | some half => (false, some half)
    | none => (true, some (conn.halfEdge now timeoutUsec))
  | .check cell _ now =>
    match half with
    | none => (false, none)
    | some half =>
      match cell with
      | .data => ((half.validData now).1, some (half.validData now).2)
      | .connected => (half.validConnected.1, some half.validConnected.2)
      | .sendme => (half.validSendme.1, some half.validSendme.2)
      | .end_ => (true, none)
      | .resolved => (true, none)

def SortedById (l : List HalfEdge) : Prop := l.Pairwise fun a b => a.streamId < b.streamId

/-- The half-closed stream with a number. -/
def find (l : List HalfEdge) (streamId : UInt16) : Option HalfEdge :=
  l.find? (·.streamId = streamId)

/-- The list around the place of a number. -/
structure Around (l : List HalfEdge) (streamId : UInt16) (a : List HalfEdge)
    (half : Option HalfEdge) (b : List HalfEdge) : Prop where
  eq : l = a ++ (half.toList ++ b)
  sorted : SortedById l
  below : ∀ x ∈ a, x.streamId < streamId
  above : ∀ x ∈ b, streamId < x.streamId
  at_ : ∀ x ∈ half, x.streamId = streamId

section Search
variable {l a b : List HalfEdge} {streamId : UInt16} {half : Option HalfEdge}

theorem SortedById.strictlyOrdered (h : SortedById l) (streamId : UInt16) :
    StrictlyOrdered l (connectionHalfEdgeCompareBsearch streamId) := by
  refine h.imp fun {x y} hxy hlt => ?_
  simp only [connectionHalfEdgeCompareBsearch, ne_eq, Nat.compare_eq_lt, Nat.compare_eq_gt]
    at hlt ⊢
  have := UInt16.lt_iff_toNat_lt.mp hxy
  omega

theorem compare_eq_iff {x : HalfEdge} :
    connectionHalfEdgeCompareBsearch streamId x = .eq ↔ x.streamId = streamId := by
  rw [connectionHalfEdgeCompareBsearch, Nat.compare_eq_eq, UInt16.toNat_inj, eq_comm]

theorem compare_gt_iff {x : HalfEdge} :
    connectionHalfEdgeCompareBsearch streamId x = .gt ↔ x.streamId < streamId := by
  rw [connectionHalfEdgeCompareBsearch, Nat.compare_eq_gt, UInt16.lt_iff_toNat_lt]

theorem compare_lt_iff {x : HalfEdge} :
    connectionHalfEdgeCompareBsearch streamId x = .lt ↔ streamId < x.streamId := by
  rw [connectionHalfEdgeCompareBsearch, Nat.compare_eq_lt, UInt16.lt_iff_toNat_lt]

theorem exists_around (h : SortedById l) (streamId : UInt16) :
    ∃ a half b, Around l streamId a half b ∧
      bsearchIdx l (connectionHalfEdgeCompareBsearch streamId) =
        some (a.length, half.isSome) := by
  obtain ⟨i, found, hidx, hlocated⟩ := bsearchIdx_located (h.strictlyOrdered streamId).ordered
  have hlen : (l.take i).length = i := by
    rw [List.length_take]
    exact min_eq_left hlocated.le
  cases found with
  | false =>
    refine ⟨l.take i, none, l.drop i, ⟨(List.take_append_drop i l).symm, h, ?_, ?_, nofun⟩, ?_⟩
    · intro x hx
      obtain ⟨j, hj, hx⟩ := List.mem_take_iff_getElem.mp hx
      exact compare_gt_iff.mp
        (hlocated.below rfl j x (by omega) (List.getElem?_eq_some_iff.mpr ⟨_, hx⟩))
    · intro x hx
      obtain ⟨j, hj, hx⟩ := List.mem_drop_iff_getElem.mp hx
      exact compare_lt_iff.mp
        (hlocated.above rfl (i + j) x (by omega) (List.getElem?_eq_some_iff.mpr ⟨_, hx⟩))
    · rw [hidx, hlen]
      rfl
  | true =>
    obtain ⟨half, hget, hcmp⟩ := hlocated.eq rfl
    obtain ⟨hi, hget⟩ := List.getElem?_eq_some_iff.mp hget
    have hid := compare_eq_iff.mp hcmp
    have heq : l = l.take i ++ half :: l.drop (i + 1) := by
      rw [← hget, List.getElem_cons_drop, List.take_append_drop]
    have hsorted : SortedById (l.take i ++ half :: l.drop (i + 1)) := heq ▸ h
    obtain ⟨-, hright, hcross⟩ := List.pairwise_append.mp hsorted
    refine ⟨l.take i, some half, l.drop (i + 1), ⟨heq, h, ?_, ?_, ?_⟩, ?_⟩
    · intro x hx
      exact hid ▸ hcross x hx half List.mem_cons_self
    · intro x hx
      exact hid ▸ (List.pairwise_cons.mp hright).1 x hx
    · rintro x ⟨⟩
      exact hid
    · rw [hidx, hlen]
      rfl

theorem find_append_of_ne (h : ∀ x ∈ a, x.streamId ≠ streamId) :
    find (a ++ b) streamId = find b streamId := by
  rw [find, List.find?_append, List.find?_eq_none.mpr (by simpa using h), Option.none_or]
  rfl

section
variable (h : Around l streamId a half b)
include h

theorem Around.find_self : find l streamId = half := by
  rw [h.eq, find_append_of_ne fun x hx => UInt16.ne_of_lt (h.below x hx)]
  cases half with
  | none =>
    rw [Option.toList_none, List.nil_append, find, List.find?_eq_none]
    intro x hx
    simpa using (UInt16.ne_of_lt (h.above x hx)).symm
  | some half => exact List.find?_cons_of_pos (by simpa using h.at_ half rfl)

/-- Other numbers do not see it. -/
theorem Around.find_other {other : UInt16}
    (hne : other ≠ streamId) : find l other = find (a ++ b) other := by
  rw [h.eq]
  cases half with
  | none => rfl
  | some half =>
    have hhalf := h.at_ half rfl
    simp only [find, Option.toList_some, List.cons_append, List.nil_append, List.find?_append]
    rw [List.find?_cons_of_neg (by rw [hhalf]; simpa using hne.symm)]

/-- The stream at the place changes. -/
theorem Around.replace {half' : Option HalfEdge} (hat : ∀ x ∈ half', x.streamId = streamId) :
    Around (a ++ (half'.toList ++ b)) streamId a half' b := by
  refine ⟨rfl, ?_, h.below, h.above, hat⟩
  have hsorted : SortedById (a ++ (half.toList ++ b)) := h.eq ▸ h.sorted
  obtain ⟨ha, hb, hab⟩ := List.pairwise_append.mp hsorted
  have hb := (List.pairwise_append.mp hb).2.1
  refine List.pairwise_append.mpr ⟨ha, ?_, ?_⟩
  · cases half' with
    | none => exact hb
    | some x => exact List.pairwise_cons.mpr ⟨fun y hy => hat x rfl ▸ h.above y hy, hb⟩
  · intro x hx y hy
    rcases List.mem_append.mp hy with hy | hy
    · rw [Option.mem_toList] at hy
      exact hat y hy ▸ h.below x hx
    · exact hab x hx y (List.mem_append_right _ hy)

end

/-- The list after an event on a stream, of which the others notice nothing. -/
structure After (l : List HalfEdge) (streamId : UInt16) (half : Option HalfEdge)
    (l' : List HalfEdge) : Prop where
  sorted : SortedById l'
  self : find l' streamId = half
  other : ∀ other, other ≠ streamId → find l' other = find l other

theorem Around.after (h : Around l streamId a half b) {half' : Option HalfEdge}
    (hat : ∀ x ∈ half', x.streamId = streamId) :
    After l streamId half' (a ++ (half'.toList ++ b)) :=
  have h' := h.replace hat
  ⟨h'.sorted, h'.find_self, fun _ hne => (h'.find_other hne).trans (h.find_other hne).symm⟩

theorem After.unchanged (h : SortedById l) (hfind : find l streamId = half) :
    After l streamId half l :=
  ⟨h, hfind, fun _ _ => rfl⟩

theorem connectionHalfEdgeFindStreamId_eq (h : Around l streamId a half b)
    (hidx : bsearchIdx l (connectionHalfEdgeCompareBsearch streamId) =
      some (a.length, half.isSome)) :
    connectionHalfEdgeFindStreamId l streamId = some (half.map fun _ => a.length) := by
  rw [connectionHalfEdgeFindStreamId, hidx]
  cases half <;> rfl

theorem Around.getElem? (h : Around l streamId a half b) : half.isSome → l[a.length]? = half := by
  rw [h.eq]
  cases half with
  | none => nofun
  | some half => simp

theorem checkHalf_spec (h : SortedById l) {valid : HalfEdge → Bool × HalfEdge}
    (hvalid : ∀ x, (valid x).2.streamId = x.streamId) (streamId : UInt16) :
    ∃ l', checkHalf l valid streamId =
        some (((find l streamId).map fun half => (valid half).1).getD false, l') ∧
      After l streamId ((find l streamId).map fun half => (valid half).2) l' := by
  obtain ⟨a, half, b, haround, hidx⟩ := exists_around h streamId
  have hfind := haround.find_self
  rw [checkHalf, connectionHalfEdgeFindStreamId_eq haround hidx, hfind]
  cases half with
  | none => exact ⟨l, rfl, After.unchanged h hfind⟩
  | some half =>
    have hat : ∀ x ∈ some (valid half).2, x.streamId = streamId := by
      rintro x ⟨⟩
      rw [hvalid, haround.at_ half rfl]
    refine ⟨_, ?_, haround.after hat⟩
    have hset : l.set a.length (valid half).2 = a ++ (valid half).2 :: b := by
      rw [haround.eq]
      simp
    simp [haround.getElem? rfl, hset]

theorem connectionHalfEdgeIsValidEnd_spec (h : SortedById l) (streamId : UInt16) :
    ∃ l', connectionHalfEdgeIsValidEnd l streamId = some ((find l streamId).isSome, l') ∧
      After l streamId none l' := by
  obtain ⟨a, half, b, haround, hidx⟩ := exists_around h streamId
  have hfind := haround.find_self
  rw [connectionHalfEdgeIsValidEnd, hidx, hfind]
  cases half with
  | none => exact ⟨l, rfl, After.unchanged h hfind⟩
  | some half =>
    have hat : ∀ x ∈ (none : Option HalfEdge), x.streamId = streamId := nofun
    refine ⟨_, ?_, haround.after hat⟩
    have herase : l.eraseIdx a.length = a ++ b := by
      rw [haround.eq]
      simp [List.eraseIdx_append_of_length_le]
    simp [haround.getElem? rfl, herase]

theorem insertIdx_append_length (a b : List HalfEdge) (x : HalfEdge) :
    (a ++ b).insertIdx a.length x = a ++ x :: b := by
  induction a with
  | nil => rfl
  | cons y a ih => rw [List.cons_append, List.length_cons, List.insertIdx_succ_cons, ih]; rfl

theorem connectionHalfEdgeAdd_spec (h : SortedById l) (conn : EdgeConnection)
    (now timeoutUsec : ℕ) : ∃ l', connectionHalfEdgeAdd l conn now timeoutUsec =
        some ((find l conn.streamId).isNone, l') ∧
      After l conn.streamId
        ((find l conn.streamId).or (some (conn.halfEdge now timeoutUsec))) l' := by
  obtain ⟨a, half, b, haround, hidx⟩ := exists_around h conn.streamId
  have hfind := haround.find_self
  rw [connectionHalfEdgeAdd, connectionHalfEdgeFindStreamId_eq haround hidx, hfind]
  cases half with
  | some half => exact ⟨l, rfl, After.unchanged h hfind⟩
  | none =>
    have hat : ∀ x ∈ some (conn.halfEdge now timeoutUsec), x.streamId = conn.streamId := by
      rintro x ⟨⟩
      unfold EdgeConnection.halfEdge
      split <;> rfl
    refine ⟨_, ?_, haround.after hat⟩
    have hle : a.length ≤ l.length := by
      rw [haround.eq]
      simp
    have hinsert : l.insertIdx a.length (conn.halfEdge now timeoutUsec) =
        a ++ conn.halfEdge now timeoutUsec :: b := by
      rw [haround.eq]
      exact insertIdx_append_length a b _
    simp [hidx, hle, hinsert]

theorem validData_streamId (now : ℕ) (x : HalfEdge) :
    (x.validData now).2.streamId = x.streamId := by
  unfold HalfEdge.validData
  split_ifs <;> rfl

theorem validConnected_streamId (x : HalfEdge) : x.validConnected.2.streamId = x.streamId := by
  unfold HalfEdge.validConnected
  split_ifs <;> rfl

theorem validSendme_streamId (x : HalfEdge) : x.validSendme.2.streamId = x.streamId := by
  unfold HalfEdge.validSendme
  split_ifs <;> rfl

theorem step_spec (h : SortedById l) (e : Event) :
    ∃ l', step l e = some ((stepOne (find l e.streamId) e).1, l') ∧
      After l e.streamId (stepOne (find l e.streamId) e).2 l' := by
  cases e with
  | add conn now timeoutUsec =>
    have hspec := connectionHalfEdgeAdd_spec h conn now timeoutUsec
    simp only [step, stepOne, Event.streamId]
    cases hfind : find l conn.streamId <;> simpa [hfind] using hspec
  | check cell streamId now =>
    have hdata := checkHalf_spec h (validData_streamId now) streamId
    have hconnected := checkHalf_spec h validConnected_streamId streamId
    have hsendme := checkHalf_spec h validSendme_streamId streamId
    have hend := connectionHalfEdgeIsValidEnd_spec h streamId
    simp only [Event.streamId]
    cases hfind : find l streamId <;> rw [hfind] at hdata hconnected hsendme hend <;> cases cell
    exacts [hdata, hconnected, hsendme, hend, hend, hdata, hconnected, hsendme, hend, hend]

end Search

/-! ### Runs -/

/-- A stream answers the events of its number in a trace. -/
inductive Follows (streamId : UInt16) :
    Option HalfEdge → List (Event × Bool) → Option HalfEdge → Prop
  | nil (half : Option HalfEdge) : Follows streamId half [] half
  | own {half half' : Option HalfEdge} {e : Event} {t : List (Event × Bool)} :
      e.streamId = streamId → Follows streamId (stepOne half e).2 t half' →
      Follows streamId half ((e, (stepOne half e).1) :: t) half'
  | other {half half' : Option HalfEdge} {p : Event × Bool} {t : List (Event × Bool)} :
      p.1.streamId ≠ streamId → Follows streamId half t half' →
      Follows streamId half (p :: t) half'

/-- Each number's stream answers for itself. -/
theorem run_follows {l : List HalfEdge} (h : SortedById l) (es : List Event) :
    ∃ t l', run l es = some (t, l') ∧ SortedById l' ∧ t.map Prod.fst = es ∧
      ∀ streamId, Follows streamId (find l streamId) t (find l' streamId) := by
  induction es generalizing l with
  | nil => exact ⟨[], l, rfl, h, rfl, fun _ => .nil _⟩
  | cons e es ih =>
    obtain ⟨l₁, hstep, hafter⟩ := step_spec h e
    obtain ⟨t, l', hrun, hsorted, hfst, hfollows⟩ := ih hafter.sorted
    refine ⟨(e, (stepOne (find l e.streamId) e).1) :: t, l', ?_, hsorted,
      congrArg (e :: ·) hfst, fun streamId => ?_⟩
    · rw [run, hstep, Option.bind_some, hrun]
      rfl
    · have hrest := hfollows streamId
      by_cases hid : e.streamId = streamId
      · subst streamId
        rw [hafter.self] at hrest
        exact .own rfl hrest
      · rw [hafter.other _ (Ne.symm hid)] at hrest
        exact .other hid hrest

/-- No end of the stream is in the trace. -/
def NoEnd (streamId : UInt16) (t : List (Event × Bool)) : Prop :=
  ∀ p ∈ t, ∀ cell now, p.1 = .check cell streamId now → cell.ends = false

/-- No stream with the number is added in the trace. -/
def NoAdd (streamId : UInt16) (t : List (Event × Bool)) : Prop :=
  ∀ p ∈ t, ∀ conn now timeoutUsec, p.1 = .add conn now timeoutUsec → conn.streamId ≠ streamId

/-- Whether the event is a check of such a cell of the stream. -/
def Event.isCheck (cell : Cell) (streamId : UInt16) : Event → Bool
  | .add _ _ _ => false
  | .check c id _ => c = cell && id = streamId

/-- How many such cells of the stream are accepted. -/
def acceptedOf (cell : Cell) (streamId : UInt16) (t : List (Event × Bool)) : ℕ :=
  t.countP fun p => p.2 && p.1.isCheck cell streamId

/-- How many such cells the stream still accepts. -/
def HalfEdge.budget (half : HalfEdge) : Cell → ℕ
  | .data => half.dataPending.toNat
  | .connected => if half.connectedPending then 1 else 0
  | .sendme => half.sendmesPending.toNat
  | .end_ => 0
  | .resolved => 0

section Traces
variable {streamId : UInt16} {half half' : Option HalfEdge} {t t' : List (Event × Bool)}

theorem Follows.append_inv (h : Follows streamId half (t ++ t') half') :
    ∃ mid, Follows streamId half t mid ∧ Follows streamId mid t' half' := by
  induction t generalizing half with
  | nil => exact ⟨half, .nil _, h⟩
  | cons p t ih =>
    cases h with
    | own hid h =>
      obtain ⟨mid, h₁, h₂⟩ := ih h
      exact ⟨mid, .own hid h₁, h₂⟩
    | other hid h =>
      obtain ⟨mid, h₁, h₂⟩ := ih h
      exact ⟨mid, .other hid h₁, h₂⟩

theorem stepOne_budget {x : HalfEdge} {e : Event} (hx : x.usedCcontrol = false)
    (hend : ∀ cell now, e = .check cell streamId now → cell.ends = false)
    (hid : e.streamId = streamId) :
    ∃ y, (stepOne (some x) e).2 = some y ∧ y.usedCcontrol = false ∧ ∀ cell,
      y.budget cell + (if (stepOne (some x) e).1 && e.isCheck cell streamId then 1 else 0) =
        x.budget cell := by
  cases e with
  | add conn now timeoutUsec => exact ⟨x, rfl, hx, fun cell => rfl⟩
  | check c id now =>
    obtain rfl : id = streamId := hid
    cases c with
    | data =>
      simp only [stepOne, HalfEdge.validData, hx]
      by_cases hpos : 0 < x.dataPending
      · refine ⟨{ x with dataPending := x.dataPending - 1 }, by simp [hx, hpos], hx,
          fun cell => ?_⟩
        cases cell <;> simp [HalfEdge.budget, Event.isCheck, hpos]
        omega
      · exact ⟨x, by simp [hpos], hx, fun cell => by simp [hpos]⟩
    | connected =>
      simp only [stepOne, HalfEdge.validConnected]
      by_cases hpending : x.connectedPending = true
      · refine ⟨{ x with connectedPending := false }, by simp [hpending], hx, fun cell => ?_⟩
        cases cell <;> simp [HalfEdge.budget, Event.isCheck, hpending]
      · exact ⟨x, by simp [hpending], hx, fun cell => by simp [hpending]⟩
    | sendme =>
      simp only [stepOne, HalfEdge.validSendme, hx]
      by_cases hpos : 0 < x.sendmesPending
      · refine ⟨{ x with sendmesPending := x.sendmesPending - 1 }, by simp [hx, hpos], hx,
          fun cell => ?_⟩
        cases cell <;> simp [HalfEdge.budget, Event.isCheck, hpos]
        omega
      · exact ⟨x, by simp [hpos], hx, fun cell => by simp [hpos]⟩
    | end_ => cases hend .end_ now rfl
    | resolved => cases hend .resolved now rfl

theorem isCheck_of_ne {e : Event} {cell : Cell} (h : e.streamId ≠ streamId) :
    e.isCheck cell streamId = false := by
  cases e with
  | add => rfl
  | check c id now =>
    have hid : id ≠ streamId := h
    simp [Event.isCheck, hid]

section
variable (h : Follows streamId half t half')
include h

theorem Follows.budget {x : HalfEdge} (hhalf : half = some x)
    (hx : x.usedCcontrol = false) (hend : NoEnd streamId t) (cell : Cell) :
    ∃ y, half' = some y ∧ y.budget cell + acceptedOf cell streamId t = x.budget cell := by
  induction h generalizing x with
  | nil half => exact ⟨x, hhalf, by simp [acceptedOf]⟩
  | @own half half' e t hid h ih =>
    subst hhalf
    obtain ⟨hfirst, hrest⟩ := List.forall_mem_cons.mp hend
    obtain ⟨y, hy, hused, hbudget⟩ := stepOne_budget hx hfirst hid
    obtain ⟨z, hz, hcount⟩ := ih hy hused hrest
    refine ⟨z, hz, ?_⟩
    have hcons := List.countP_cons (p := fun p => p.2 && p.1.isCheck cell streamId)
      (a := (e, (stepOne (some x) e).1)) (l := t)
    dsimp only at hcons hbudget
    rw [← hbudget cell, ← hcount, acceptedOf, hcons, acceptedOf]
    omega
  | @other half half' p t hid h ih =>
    obtain ⟨z, hz, hcount⟩ := ih hhalf hx (List.forall_mem_cons.mp hend).2
    refine ⟨z, hz, ?_⟩
    rw [← hcount, acceptedOf, acceptedOf, List.countP_cons_of_neg]
    simp [isCheck_of_ne hid]

theorem Follows.stays (hhalf : half.isSome) (hend : NoEnd streamId t) : half'.isSome := by
  induction h with
  | nil half => exact hhalf
  | @own half half' e t hid h ih =>
    obtain ⟨hfirst, hrest⟩ := List.forall_mem_cons.mp hend
    obtain ⟨x, rfl⟩ := Option.isSome_iff_exists.mp hhalf
    refine ih ?_ hrest
    cases e with
    | add => rfl
    | check c id now =>
      obtain rfl : id = streamId := hid
      cases c with
      | data => rfl
      | connected => rfl
      | sendme => rfl
      | end_ => cases hfirst .end_ now rfl
      | resolved => cases hfirst .resolved now rfl
  | other hid h ih => exact ih hhalf (List.forall_mem_cons.mp hend).2

theorem Follows.refused (hhalf : half = none) (hadd : NoAdd streamId t) :
    half' = none ∧ ∀ p ∈ t, p.1.streamId = streamId → p.2 = false := by
  induction h with
  | nil half => exact ⟨hhalf, nofun⟩
  | @own half half' e t hid h ih =>
    subst hhalf
    obtain ⟨hfirst, hrest⟩ := List.forall_mem_cons.mp hadd
    cases e with
    | add conn now timeoutUsec => exact absurd hid (hfirst conn now timeoutUsec rfl)
    | check c id now =>
      obtain ⟨hnone, hall⟩ := ih rfl hrest
      exact ⟨hnone, List.forall_mem_cons.mpr ⟨fun _ => rfl, hall⟩⟩
  | @other half half' p t hid h ih =>
    obtain ⟨hnone, hall⟩ := ih hhalf (List.forall_mem_cons.mp hadd).2
    exact ⟨hnone, List.forall_mem_cons.mpr ⟨fun heq => absurd heq hid, hall⟩⟩

end

end Traces

/-- What the answers in a trace from an empty list are like. -/
structure TraceRight (t : List (Event × Bool)) : Prop where
  /-- A stream that is closed without congestion control spends its budgets. -/
  budgets : ∀ before conn now timeoutUsec during rest,
    t = before ++ (.add conn now timeoutUsec, true) :: (during ++ rest) →
    NoEnd conn.streamId during → conn.usesFlowControl = false →
      acceptedOf .data conn.streamId during ≤
        (if conn.state = .resolveWait then 0 else conn.deliverWindow.toNat) ∧
      acceptedOf .sendme conn.streamId during ≤ ((500 - conn.packageWindow).tdiv 50).toNat ∧
      acceptedOf .connected conn.streamId during ≤ (if conn.state = .connectWait then 1 else 0)
  /-- The first END or RESOLVED of a stream that was closed is accepted. -/
  ended : ∀ before conn now timeoutUsec during cell now' accepted rest,
    t = before ++ (.add conn now timeoutUsec, true) ::
      (during ++ (.check cell conn.streamId now', accepted) :: rest) →
    NoEnd conn.streamId during → cell.ends = true → accepted = true
  /-- After it nothing is accepted, until a stream with the number is closed again. -/
  afterEnd : ∀ before cell streamId now accepted during rest,
    t = before ++ (.check cell streamId now, accepted) :: (during ++ rest) →
    cell.ends = true → NoAdd streamId during →
      ∀ p ∈ during, p.1.streamId = streamId → p.2 = false
  /-- Nothing is accepted before a stream with the number is closed. -/
  neverAdded : ∀ before streamId rest, t = before ++ rest → NoAdd streamId before →
    ∀ p ∈ before, p.1.streamId = streamId → p.2 = false
  /-- A stream is added, unless one with its number has not ended. -/
  added : ∀ before conn now timeoutUsec rest,
    t = before ++ (.add conn now timeoutUsec, false) :: rest →
    ∃ b conn' now' timeoutUsec' during,
      before = b ++ (.add conn' now' timeoutUsec', true) :: during ∧
        conn'.streamId = conn.streamId ∧ NoEnd conn.streamId during

section Right
variable {streamId : UInt16} {half half' : Option HalfEdge} {t : List (Event × Bool)}

theorem Follows.cons_inv {e : Event} {accepted : Bool}
    (h : Follows streamId half ((e, accepted) :: t) half') (hid : e.streamId = streamId) :
    accepted = (stepOne half e).1 ∧ Follows streamId (stepOne half e).2 t half' := by
  cases h with
  | own _ h => exact ⟨rfl, h⟩
  | other hne _ => exact absurd hid hne

theorem stepOne_add_true {conn : EdgeConnection} {now timeoutUsec : ℕ}
    (h : true = (stepOne half (.add conn now timeoutUsec)).1) :
    (stepOne half (.add conn now timeoutUsec)).2 = some (conn.halfEdge now timeoutUsec) := by
  cases half with
  | none => rfl
  | some half => cases h

theorem stepOne_ends {cell : Cell} {now : ℕ} (hcell : cell.ends = true) :
    stepOne half (.check cell streamId now) = (half.isSome, none) := by
  cases half <;> cases cell <;> first | rfl | cases hcell

theorem Follows.exists_add (h : Follows streamId half t half') (hhalf : half = none)
    (hhalf' : half'.isSome) :
    ∃ b conn now timeoutUsec during, t = b ++ (.add conn now timeoutUsec, true) :: during ∧
      conn.streamId = streamId ∧ NoEnd streamId during := by
  subst hhalf
  induction t using List.reverseRecOn generalizing half' with
  | nil =>
    cases h
    cases hhalf'
  | append_singleton t p ih =>
    obtain ⟨mid, hinit, hlast⟩ := h.append_inv
    -- A step that does not end the stream leaves the addition where it was found before it.
    have hextend (hmid : mid.isSome) (hkeeps : NoEnd streamId [p]) :
        ∃ b conn now timeoutUsec during,
          t ++ [p] = b ++ (.add conn now timeoutUsec, true) :: during ∧
          conn.streamId = streamId ∧ NoEnd streamId during := by
      obtain ⟨b, conn, now, timeoutUsec, during, rfl, hconn, hend⟩ := ih hmid hinit
      refine ⟨b, conn, now, timeoutUsec, during ++ [p], by simp, hconn, ?_⟩
      exact List.forall_mem_append.mpr ⟨hend, hkeeps⟩
    by_cases hid : p.1.streamId = streamId
    · obtain ⟨e, accepted⟩ := p
      obtain rfl : e.streamId = streamId := hid
      obtain ⟨haccepted, hlast⟩ := hlast.cons_inv rfl
      cases hlast
      cases e with
      | add conn now timeoutUsec =>
        cases mid with
        | none =>
          refine ⟨t, conn, now, timeoutUsec, [], ?_, rfl, nofun⟩
          rw [haccepted]
          rfl
        | some x => exact hextend rfl (List.forall_mem_singleton.mpr nofun)
      | check cell id now =>
        cases hcell : cell.ends with
        | true =>
          rw [stepOne_ends hcell] at hhalf'
          cases hhalf'
        | false =>
          have hmid : mid.isSome := by
            cases mid with
            | none => cases hhalf'
            | some x => rfl
          refine hextend hmid (List.forall_mem_singleton.mpr ?_)
          rintro _ _ ⟨⟩
          exact hcell
    · cases hlast with
      | own hown _ => exact absurd hown hid
      | other _ hlast =>
        cases hlast
        refine hextend hhalf' (List.forall_mem_singleton.mpr fun cell now hp => ?_)
        rw [hp] at hid
        exact absurd rfl hid

theorem halfEdge_budget (conn : EdgeConnection) (now timeoutUsec : ℕ)
    (h : conn.usesFlowControl = false) : (conn.halfEdge now timeoutUsec).usedCcontrol = false ∧
      (conn.halfEdge now timeoutUsec).budget .data =
        (if conn.state = .resolveWait then 0 else conn.deliverWindow.toNat) ∧
      (conn.halfEdge now timeoutUsec).budget .sendme =
        ((500 - conn.packageWindow).tdiv 50).toNat ∧
      (conn.halfEdge now timeoutUsec).budget .connected =
        (if conn.state = .connectWait then 1 else 0) := by
  cases hstate : conn.state <;> simp [EdgeConnection.halfEdge, HalfEdge.budget, h, hstate]

theorem traceRight_of_follows
    (h : ∀ streamId, ∃ half, Follows streamId none t half) : TraceRight t where
  budgets before conn now timeoutUsec during rest heq hend hflow := by
    obtain ⟨half, hfollows⟩ := h conn.streamId
    rw [heq] at hfollows
    obtain ⟨mid, -, hfollows⟩ := hfollows.append_inv
    obtain ⟨hadd, hfollows⟩ := hfollows.cons_inv rfl
    rw [stepOne_add_true hadd] at hfollows
    obtain ⟨mid', hduring, -⟩ := hfollows.append_inv
    obtain ⟨hused, hdata, hsendme, hconnected⟩ := halfEdge_budget conn now timeoutUsec hflow
    have hspent := hduring.budget rfl hused hend
    obtain ⟨_, -, hspentData⟩ := hspent .data
    obtain ⟨_, -, hspentSendme⟩ := hspent .sendme
    obtain ⟨_, -, hspentConnected⟩ := hspent .connected
    refine ⟨?_, ?_, ?_⟩ <;> omega
  ended before conn now timeoutUsec during cell now' accepted rest heq hend hcell := by
    obtain ⟨half, hfollows⟩ := h conn.streamId
    rw [heq] at hfollows
    obtain ⟨mid, -, hfollows⟩ := hfollows.append_inv
    obtain ⟨hadd, hfollows⟩ := hfollows.cons_inv rfl
    rw [stepOne_add_true hadd] at hfollows
    obtain ⟨mid', hduring, hfollows⟩ := hfollows.append_inv
    have hsome := hduring.stays rfl hend
    obtain ⟨haccepted, -⟩ := hfollows.cons_inv rfl
    rw [haccepted, stepOne_ends hcell]
    exact hsome
  afterEnd before cell streamId now accepted during rest heq hcell hadd := by
    obtain ⟨half, hfollows⟩ := h streamId
    rw [heq] at hfollows
    obtain ⟨mid, -, hfollows⟩ := hfollows.append_inv
    obtain ⟨-, hfollows⟩ := hfollows.cons_inv rfl
    obtain ⟨mid', hduring, -⟩ := hfollows.append_inv
    rw [stepOne_ends hcell] at hduring
    exact (hduring.refused rfl hadd).2
  neverAdded before streamId rest heq hadd := by
    obtain ⟨half, hfollows⟩ := h streamId
    rw [heq] at hfollows
    obtain ⟨mid, hbefore, -⟩ := hfollows.append_inv
    exact (hbefore.refused rfl hadd).2
  added before conn now timeoutUsec rest heq := by
    obtain ⟨half, hfollows⟩ := h conn.streamId
    rw [heq] at hfollows
    obtain ⟨mid, hbefore, hfollows⟩ := hfollows.append_inv
    obtain ⟨hadd, -⟩ := hfollows.cons_inv rfl
    have hmid : mid.isSome := by
      cases mid with
      | none => cases hadd
      | some x => rfl
    exact hbefore.exists_add rfl hmid

/-- Whatever streams are closed and whatever cells arrive, the list stays sorted, and each
stream accepts what it may. -/
theorem halfStreams_right (es : List Event) :
    ∃ t l, run [] es = some (t, l) ∧ SortedById l ∧ t.map Prod.fst = es ∧ TraceRight t := by
  obtain ⟨t, l, hrun, hsorted, hfst, hfollows⟩ := run_follows List.Pairwise.nil es
  exact ⟨t, l, hrun, hsorted, hfst, traceRight_of_follows fun streamId => ⟨_, hfollows streamId⟩⟩

end Right

end TorDaemon.Edge

import TorDaemon.Library.Reachability
import TorDaemon.Sendme.Windows

/-! The two ends of a hop agree on the SENDME tags exactly when the sender's counter
is in phase with the receiver's: for an increment of one the sender does not record
the first cell of an empty window, and a fixed window that does not start at a
multiple of the increment records the wrong cells. -/
namespace TorDaemon.Sendme
open Library.NetworkOrder Library.Segment Library.Reachability
variable {hop : Hop} {s s' : State}

/-- What the two ends agree on, and that neither closes the circuit. -/
structure TagAgreement (hop : Hop) (s : State) : Prop where
  emitted : s.emitted = segmentOf (fun k => hop.payload (k * hop.flow.inc)) 0
    (s.received / hop.flow.inc)
  digests : s.sender.sendmeLastDigests = segmentOf
    (fun k => recordedTag (hop.tag (k * hop.flow.inc))) s.acked (s.sent / hop.flow.inc)
  digests_length : (s.sender.sendmeLastDigests.length : ℤ) = cellsInFlight hop s / hop.flow.inc
  in_flight : cellsInFlight hop s = s.sent - hop.flow.inc * s.acked
  no_underflow : 0 ≤ cellsInFlight hop s ∧ 0 ≤ s.sender.packageWindow
  accepted : s.closed = false

/-- The invariant of the hop. -/
structure Inv (hop : Hop) (s : State) : Prop where
  window : WindowInv hop.flow s.sender s.sent s.acked
  received_le : s.received ≤ s.sent
  dataWire : s.dataWire = segmentOf id s.received s.sent
  deliverWindow : s.deliverWindow = circwindowStart - (s.received % hop.flow.inc : ℕ)
  acked_le : s.acked ≤ s.received / hop.flow.inc
  emitted : s.emitted = segmentOf (fun k => hop.payload (k * hop.flow.inc)) 0
    (s.received / hop.flow.inc)
  sendmeWire : s.sendmeWire = segmentOf (fun k => hop.payload (k * hop.flow.inc)) s.acked
    (s.received / hop.flow.inc)
  digests : s.sender.sendmeLastDigests = segmentOf
    (fun k => recordedTag (hop.tag (k * hop.flow.inc))) s.acked (s.sent / hop.flow.inc)
  accepted : s.closed = false

theorem init_inv (hop : Hop) : Inv hop hop.init := by
  have hadmitted := hop.admitted
  constructor
  · cases hflow : hop.flow with
    | fixed circwindow => simp [Hop.init, hflow, WindowInv]
    | congestion ccSendmeInc sendmeInc cwndInit =>
      simp only [hflow, Flow.Admitted] at hadmitted
      simp only [Hop.init, hflow, WindowInv]
      exact ⟨cwndInit, 0, rfl, by simp, by simp, by omega, trivial⟩
  · exact le_rfl
  · simp [Hop.init, segmentOf]
  · simp [Hop.init]
  · simp [Hop.init]
  · simp [Hop.init, segmentOf]
  · simp [Hop.init, segmentOf]
  · cases hflow : hop.flow <;> simp [Hop.init, hflow, segmentOf]
  · rfl

theorem inv_sendData (hphase : InPhase hop.flow) (h : Inv hop s)
    (hs : step hop s .sendData = some s') : Inv hop s' := by
  simp only [step, Option.ite_none_left_eq_some, Option.some.injEq] at hs
  obtain ⟨hopen, rfl⟩ := hs
  have hopen' : 0 < getPackageWindow s.sender := by
    by_contra hle
    exact hopen (.inr (by omega))
  have hopenRecord : getPackageWindow (recordCellDigest s.sender (hop.tag (s.sent + 1))) =
      getPackageWindow s.sender := by simp [getPackageWindow]
  have hrecord : WindowInv hop.flow (recordCellDigest s.sender (hop.tag (s.sent + 1))) s.sent
      s.acked := by
    have hwindow := h.window
    cases hflow : hop.flow <;> simpa [hflow, WindowInv] using hwindow
  obtain ⟨hwindow, hnonneg⟩ := windowInv_send hrecord (by rw [hopenRecord]; exact hopen')
  have hrecord := circuitSentCellForSendme_iff hphase h.window hopen'
  have hacked : s.acked ≤ s.sent / hop.flow.inc :=
    h.acked_le.trans (Nat.div_le_div_right h.received_le)
  exact {
    window := hwindow
    received_le := by have := h.received_le; simp only; omega
    dataWire := by simp [h.dataWire, segmentOf_push h.received_le, id]
    deliverWindow := h.deliverWindow
    acked_le := h.acked_le
    emitted := h.emitted
    sendmeWire := h.sendmeWire
    digests := by
      simp only [noteDataPackaged_sendmeLastDigests, recordCellDigest, hrecord]
      rw [segmentOf_div_succ hacked, ← h.digests]
      split_ifs with hdvd
      · simp only [Nat.div_mul_cancel hdvd]
      · rfl
    accepted := by simpa using hnonneg }

private theorem mod_succ_of_dvd {k n : ℕ} (h : k ∣ n + 1) : n % k + 1 = k ∧ (n + 1) % k = 0 := by
  have hdiv := Nat.succ_div (a := n) (b := k)
  have hn := Nat.div_add_mod n k
  have hn' := Nat.div_add_mod (n + 1) k
  rw [hdiv, if_pos h, Nat.mul_add] at hn'
  omega

private theorem mod_succ_of_not_dvd {k n : ℕ} (h : ¬ k ∣ n + 1) : (n + 1) % k = n % k + 1 := by
  have hdiv := Nat.succ_div (a := n) (b := k)
  have hn := Nat.div_add_mod n k
  have hn' := Nat.div_add_mod (n + 1) k
  rw [hdiv, if_neg h, Nat.add_zero] at hn'
  omega

theorem inv_deliverData (h : Inv hop s) (hs : step hop s .deliverData = some s') : Inv hop s' := by
  have hinc := inc_pos hop
  have hlt := inc_lt hop
  cases hwire : s.dataWire with
  | nil => simp [step, hwire] at hs
  | cons cell dataWire =>
    have hsegment := h.dataWire.symm.trans hwire
    obtain ⟨hreceived, hcell, hrest⟩ := segmentOf_eq_cons hsegment
    have hmod := Nat.mod_lt s.received hinc
    have hdeliver := h.deliverWindow
    have hwindow : ¬ s.deliverWindow - 1 < 0 := by
      simp only [circwindowStart] at hdeliver
      omega
    have hconsider := considerSending_eq (w := s.deliverWindow - 1) hop.sendmeTag
      (hop.tag cell) hinc (by rw [hdeliver]; omega)
    simp only [step, h.accepted, hwire, if_neg hwindow, hconsider, Option.some.injEq] at hs
    have hdata : dataWire = segmentOf id (s.received + 1) s.sent := hrest
    by_cases hdvd : hop.flow.inc ∣ s.received + 1
    · obtain ⟨hfull, hzero⟩ := mod_succ_of_dvd hdvd
      have hlast : s.deliverWindow - 1 = circwindowStart - hop.flow.inc := by omega
      have hcount : (s.received + 1) / hop.flow.inc = s.received / hop.flow.inc + 1 := by
        rw [Nat.succ_div, if_pos hdvd]
      have hpayload : (buildCellPayloadV1 (hop.tag cell)).getD [] =
          hop.payload ((s.received / hop.flow.inc + 1) * hop.flow.inc) := by
        rw [hcell, ← hcount, Nat.div_mul_cancel hdvd]
        rfl
      simp only [if_pos hlast, hpayload] at hs
      subst hs
      exact {
        window := h.window
        received_le := hreceived
        dataWire := hdata
        deliverWindow := by simp only [hzero]; omega
        acked_le := by have := h.acked_le; simp only [hcount]; omega
        emitted := by simp [hcount, h.emitted, segmentOf_push (Nat.zero_le _)]
        sendmeWire := by simp [hcount, h.sendmeWire, segmentOf_push h.acked_le]
        digests := h.digests
        accepted := rfl }
    · have hnext := mod_succ_of_not_dvd hdvd
      have hmod' := Nat.mod_lt (s.received + 1) hinc
      have hlast : ¬ s.deliverWindow - 1 = circwindowStart - hop.flow.inc := by omega
      have hcount : (s.received + 1) / hop.flow.inc = s.received / hop.flow.inc := by
        rw [Nat.succ_div, if_neg hdvd, Nat.add_zero]
      simp only [if_neg hlast, List.append_nil] at hs
      subst hs
      exact {
        window := h.window
        received_le := hreceived
        dataWire := hdata
        deliverWindow := by simp only [hnext]; omega
        acked_le := by simpa only [hcount] using h.acked_le
        emitted := by simpa only [hcount] using h.emitted
        sendmeWire := by simpa only [hcount] using h.sendmeWire
        digests := h.digests
        accepted := rfl }

theorem inv_deliverSendme {cwnd : UInt64} (h : Inv hop s)
    (hs : step hop s (.deliverSendme cwnd) = some s') : Inv hop s' := by
  cases hwire : s.sendmeWire with
  | nil => simp [step, hwire] at hs
  | cons payload sendmeWire =>
    obtain ⟨hacked, hpayload, hrest⟩ := segmentOf_eq_cons (h.sendmeWire.symm.trans hwire)
    have hsent : s.received / hop.flow.inc ≤ s.sent / hop.flow.inc :=
      Nat.div_le_div_right h.received_le
    have hdigests := h.digests
    rw [segmentOf_pop (hacked.trans_le hsent)] at hdigests
    have hvalid := sendmeIsValid_payload hop ((s.acked + 1) * hop.flow.inc)
      (segmentOf (fun k => recordedTag (hop.tag (k * hop.flow.inc))) (s.acked + 1)
        (s.sent / hop.flow.inc))
    rw [← hdigests, ← hpayload] at hvalid
    have hcells : hop.flow.inc * (s.acked + 1) ≤ s.sent := by
      have hle : s.acked + 1 ≤ s.sent / hop.flow.inc := by omega
      rw [Nat.mul_comm]
      exact (Nat.le_div_iff_mul_le (inc_pos hop)).mp hle
    obtain ⟨sender, hprocess, hlast, hwindow⟩ := windowInv_ack _ cwnd h.window hcells hvalid
    simp only [step, h.accepted, hwire, hprocess, Option.some.injEq] at hs
    subst hs
    exact {
      window := hwindow
      received_le := h.received_le
      dataWire := h.dataWire
      deliverWindow := h.deliverWindow
      acked_le := hacked
      emitted := h.emitted
      sendmeWire := hrest
      digests := hlast
      accepted := rfl }

theorem step_inv (hphase : InPhase hop.flow) {e : Event} (h : Inv hop s)
    (hs : step hop s e = some s') : Inv hop s' := by
  cases e with
  | sendData => exact inv_sendData hphase h hs
  | deliverData => exact inv_deliverData h hs
  | deliverSendme cwnd => exact inv_deliverSendme h hs

theorem Inv.inFlight (h : Inv hop s) :
    cellsInFlight hop s = s.sent - hop.flow.inc * s.acked ∧ 0 ≤ cellsInFlight hop s ∧
      0 ≤ s.sender.packageWindow := by
  have hwindow := h.window
  have hacked : hop.flow.inc * s.acked ≤ s.sent := by
    have hle := h.acked_le.trans (Nat.div_le_div_right h.received_le)
    rw [Nat.mul_comm]
    exact (Nat.le_div_iff_mul_le (inc_pos hop)).mp hle
  cases hflow : hop.flow with
  | fixed circwindow =>
    simp only [hflow, WindowInv, Flow.inc] at hwindow hacked
    simp only [cellsInFlight, hflow, Flow.inc]
    omega
  | congestion ccSendmeInc sendmeInc cwndInit =>
    simp only [hflow, WindowInv, Flow.inc] at hwindow hacked
    obtain ⟨cwnd, inflight, hcc, hsent, -, -, hpackage⟩ := hwindow
    simp only [cellsInFlight, hflow, hcc, Flow.inc, hpackage, circwindowStart]
    omega

theorem Inv.tagAgreement (h : Inv hop s) : TagAgreement hop s := by
  obtain ⟨hflight, hnonneg, hpackage⟩ := h.inFlight
  have hle := h.acked_le.trans (Nat.div_le_div_right h.received_le)
  exact {
    emitted := h.emitted
    digests := h.digests
    digests_length := by
      have hinc : (hop.flow.inc : ℤ) ≠ 0 := by have := inc_pos hop; omega
      rw [h.digests, segmentOf_length, hflight, Int.sub_mul_ediv_left _ _ hinc, Nat.cast_sub hle]
      rfl
    in_flight := hflight
    no_underflow := ⟨hnonneg, hpackage⟩
    accepted := h.accepted }

/-- With an increment of one the first cell is not recorded, since none is in flight. -/
theorem exists_not_tagAgreement_of_one {ccSendmeInc cwndInit : ℕ}
    (hflow : hop.flow = .congestion ccSendmeInc 1 cwndInit) :
    ∃ s, Reached (step hop) (fun _ _ => True) hop.init s ∧ ¬ TagAgreement hop s := by
  have hadmitted := hop.admitted
  simp only [hflow, Flow.Admitted] at hadmitted
  have hopen : ¬ getPackageWindow hop.init.sender ≤ 0 := by
    simp only [Hop.init, hflow, getPackageWindow]
    omega
  obtain ⟨s, hs⟩ : ∃ s, step hop hop.init .sendData = some s := by
    have hclosed : hop.init.closed = false := rfl
    simp [step, hopen, hclosed]
  refine ⟨s, Reached.init.step trivial hs, fun h => ?_⟩
  have hlen := h.digests_length
  simp only [step, Option.ite_none_left_eq_some, Option.some.injEq] at hs
  obtain ⟨-, rfl⟩ := hs
  simp [cellsInFlight, hflow, Flow.inc, Hop.init, recordCellDigest, circuitSentCellForSendme,
    noteDataPackaged] at hlen

theorem sendData_fixed (hop : Hop) {w : ℤ} {digests : List Bytes} (hclosed : s.closed = false)
    (hsender : s.sender = ⟨w, none, digests⟩) (hw : 0 < w) :
    ∃ s', step hop s .sendData = some s' ∧ s'.closed = false ∧
      s'.sender = ⟨w - 1, none, if (w - 1) % 100 = 0
        then digests ++ [recordedTag (hop.tag (s.sent + 1))] else digests⟩ := by
  have hopen : ¬ getPackageWindow s.sender ≤ 0 := by
    simp only [hsender, getPackageWindow]
    omega
  have hrecord := circuitSentCellForSendme_fixed (d := digests) hw
  by_cases hmod : (w - 1) % 100 = 0
  · have htrue := hrecord.mpr hmod
    refine ⟨_, by simp [step, hclosed, hopen]; rfl, ?_, ?_⟩
    · simp [recordCellDigest, hsender, htrue, noteDataPackaged, getPackageWindow]
      omega
    · simp [recordCellDigest, hsender, htrue, noteDataPackaged, hmod]
  · have hfalse := Bool.eq_false_iff.mpr (mt hrecord.mp hmod)
    refine ⟨_, by simp [step, hclosed, hopen]; rfl, ?_, ?_⟩
    · simp [recordCellDigest, hsender, hfalse, noteDataPackaged, getPackageWindow]
      omega
    · simp [recordCellDigest, hsender, hfalse, noteDataPackaged, hmod]

/-- The first cells of a fixed window, up to the last full increment of it, are sent
without one of them being recorded. -/
theorem reached_before_record {circwindow : ℕ} (hflow : hop.flow = .fixed circwindow) (n : ℕ)
    (hn : n < circwindow % 100) :
    ∃ s, Reached (step hop) (fun _ _ => True) hop.init s ∧ s.closed = false ∧
      s.sender = ⟨circwindow - n, none, []⟩ := by
  induction n with
  | zero => exact ⟨hop.init, .init, rfl, by simp [Hop.init, hflow]⟩
  | succ n ih =>
    obtain ⟨s, hs, hclosed, hsender⟩ := ih (by omega)
    obtain ⟨s', hstep, hclosed', hsender'⟩ :=
      sendData_fixed hop hclosed hsender (by omega)
    have hmod : ¬ ((circwindow : ℤ) - n - 1) % 100 = 0 := by omega
    refine ⟨s', hs.step trivial hstep, hclosed', ?_⟩
    rw [hsender', if_neg hmod, Nat.cast_succ, sub_sub]

/-- A fixed window that starts between two multiples of the increment has the sender
record a cell before the receiver acknowledges one. -/
theorem exists_not_tagAgreement_of_fixed {circwindow : ℕ} (hflow : hop.flow = .fixed circwindow)
    (hphase : ¬ circwindowIncrement ∣ circwindow) :
    ∃ s, Reached (step hop) (fun _ _ => True) hop.init s ∧ ¬ TagAgreement hop s := by
  simp only [circwindowIncrement] at hphase
  obtain ⟨s, hs, hclosed, hsender⟩ :=
    reached_before_record hflow (circwindow % 100 - 1) (by omega)
  obtain ⟨s', hstep, -, hsender'⟩ := sendData_fixed hop hclosed hsender (by omega)
  have hmod : ((circwindow : ℤ) - (circwindow % 100 - 1 : ℕ) - 1) % 100 = 0 := by omega
  rw [if_pos hmod] at hsender'
  refine ⟨s', hs.step trivial hstep, fun h => ?_⟩
  have hlen := h.digests_length
  simp only [cellsInFlight, hflow, Flow.inc, circwindowIncrement, hsender', List.nil_append,
    List.length_singleton] at hlen
  omega

/-- The ends of a hop agree in every state of every run exactly when the sender's
counter is in phase. -/
theorem tagAgreement_iff (hop : Hop) :
    (∀ s, Reached (step hop) (fun _ _ => True) hop.init s → TagAgreement hop s) ↔
      InPhase hop.flow := by
  constructor
  · intro h
    by_contra hphase
    cases hflow : hop.flow with
    | fixed circwindow =>
      rw [hflow] at hphase
      obtain ⟨s, hs, hnot⟩ := exists_not_tagAgreement_of_fixed hflow hphase
      exact hnot (h s hs)
    | congestion ccSendmeInc sendmeInc cwndInit =>
      have hpos := inc_pos hop
      simp only [hflow, InPhase, Flow.inc] at hphase hpos
      obtain rfl : sendmeInc = 1 := by omega
      obtain ⟨s, hs, hnot⟩ := exists_not_tagAgreement_of_one hflow
      exact hnot (h s hs)
  · intro hphase s hs
    exact (hs.invariant (init_inv hop) fun _ _ _ hi _ => step_inv hphase hi).tagAgreement

/-- With empty channels the receiver has every cell, and the sender has every SENDME. -/
theorem Inv.drained (h : Inv hop s) (hdata : s.dataWire = []) (hsendme : s.sendmeWire = []) :
    s.received = s.sent ∧ s.acked = s.sent / hop.flow.inc := by
  have hreceived := congrArg List.length (h.dataWire.symm.trans hdata)
  have hacked := congrArg List.length (h.sendmeWire.symm.trans hsendme)
  have hreceived_le := h.received_le
  have hacked_le := h.acked_le
  rw [segmentOf_length, List.length_nil] at hreceived hacked
  have hall : s.received = s.sent := by omega
  rw [hall] at hacked hacked_le
  exact ⟨hall, by omega⟩

theorem Inv.sendData_iff (h : Inv hop s) :
    (∃ s', step hop s .sendData = some s') ↔ 0 < getPackageWindow s.sender := by
  simp [step, h.accepted]

/-- With empty channels less than one increment is in flight, and the hop only stalls where the
congestion window has no room for it. -/
theorem drained_sends_iff (hphase : InPhase hop.flow)
    (hs : Reached (step hop) (fun _ _ => True) hop.init s)
    (hdata : s.dataWire = []) (hsendme : s.sendmeWire = []) :
    cellsInFlight hop s = (s.sent % hop.flow.inc : ℕ) ∧
      ((∃ s', step hop s .sendData = some s') ↔
        ∀ cc ∈ s.sender.cc, s.sent % hop.flow.inc < cc.cwnd) := by
  have h : Inv hop s := hs.invariant (init_inv hop) fun _ _ _ hi _ => step_inv hphase hi
  obtain ⟨-, hacked⟩ := h.drained hdata hsendme
  have hflight := h.inFlight.1
  have hwindow := h.window
  rw [hacked] at hflight hwindow
  have hdiv := Nat.div_add_mod s.sent hop.flow.inc
  refine ⟨by omega, h.sendData_iff.trans ?_⟩
  have hadmitted := hop.admitted
  have hmod := Nat.mod_lt s.sent (inc_pos hop)
  cases hflow : hop.flow with
  | fixed circwindow =>
    simp only [hflow, WindowInv, Flow.inc, Flow.Admitted, circwindowIncrement] at *
    simp only [getPackageWindow, hwindow.1]
    constructor
    · intro _ cc hcc
      exact absurd hcc (Option.not_mem_none cc)
    · intro
      omega
  | congestion ccSendmeInc sendmeInc cwndInit =>
    simp only [hflow, WindowInv, Flow.inc] at *
    obtain ⟨cwnd, inflight, hcc, hinflight, -⟩ := hwindow
    obtain rfl : inflight = s.sent % sendmeInc := by omega
    simp only [getPackageWindow, hcc, Option.mem_def, Option.some.injEq, forall_eq']
    split <;> omega

/-- A negotiated increment of one, with the tag of a cell in its last byte. -/
def incOneHop : Hop where
  flow := .congestion 1 1 31
  admitted := by decide
  tagLen := 20
  tagLen_ok := by decide
  tag k := List.replicate 19 0 ++ [UInt8.ofNat k]
  tag_length k := by simp
  sendmeTag payload := payload
  acceptMinVersion := 0
  accept_le := by decide
  usedLegacyCircuitHandshake := false

/-- The receiver acknowledges the only cell sent, and the sender closes the circuit. -/
theorem incOneHop_not_tagAgreement :
    (∃ s ∈ run (step incOneHop) incOneHop.init [.sendData, .deliverData, .deliverSendme 31],
      s.closed = true) ∧
    ¬ ∀ s, Reached (step incOneHop) (fun _ _ => True) incOneHop.init s →
      TagAgreement incOneHop s := by
  have hclosed : ∃ s ∈ run (step incOneHop) incOneHop.init
      [.sendData, .deliverData, .deliverSendme 31], s.closed = true := by decide +kernel
  refine ⟨hclosed, fun h => ?_⟩
  obtain ⟨s, hrun, hs⟩ := hclosed
  have hguard : Guarded (step incOneHop) (fun _ _ => True) incOneHop.init
      [.sendData, .deliverData, .deliverSendme 31] := by decide +kernel
  have hopen := (h s (Reached.init.of_run hguard hrun)).accepted
  rw [hs] at hopen
  exact Bool.noConfusion hopen

/-- The usual increment. -/
def inc31Hop : Hop := { incOneHop with flow := .congestion 31 31 31, admitted := by decide }

/-- An increment that is sent and acknowledged, and two more cells. -/
def acknowledgedRun : List Event :=
  List.replicate 31 .sendData ++ List.replicate 31 .deliverData ++
    [.deliverSendme 31, .sendData, .sendData, .deliverData, .deliverData]

/-- Once the two cells have arrived they are in flight, and the next one can be sent. -/
theorem drained_sends_iff_acknowledged : ∃ s ∈ run (step inc31Hop) inc31Hop.init acknowledgedRun,
    s.acked = 1 ∧ cellsInFlight inc31Hop s = 2 ∧ ∃ s', step inc31Hop s .sendData = some s' := by
  obtain ⟨s, hrun, hdata, hsendme, hsent, hacked, hroom⟩ :
      ∃ s ∈ run (step inc31Hop) inc31Hop.init acknowledgedRun, s.dataWire = [] ∧
        s.sendmeWire = [] ∧ s.sent = 33 ∧ s.acked = 1 ∧ ∀ cc ∈ s.sender.cc, 2 < cc.cwnd := by
    decide +kernel
  have hguard : Guarded (step inc31Hop) (fun _ _ => True) inc31Hop.init acknowledgedRun := by
    decide +kernel
  obtain ⟨hflight, hsends⟩ :=
    drained_sends_iff (by decide) (Reached.init.of_run hguard hrun) hdata hsendme
  rw [hsent] at hflight hsends
  exact ⟨s, hrun, hacked, hflight, hsends.mpr hroom⟩

end TorDaemon.Sendme
